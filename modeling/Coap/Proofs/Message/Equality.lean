import Coap.Proofs.Options.Multimap
import Coap.Proofs.Wire.RoundTrip

/-!
# Equality of messages

Two messages are taken as equal if they have the same header and payload, and of every name the same
options in the same order (`Message.agree`). How the options of different names stand among each
other does not count. But under one code a number belongs to one name only, and options stand in the
order of their numbers, so nothing is left open: messages that may be sent are equal in this sense
just if they are the same, and just if they are written in the same bytes.

* `Options.agree_iff`: options agree just if those of each name are the same;
* `Options.LegalUnder.toList_eq_of_agree`: what agrees with options of one code has their order;
* `Message.agreement`: equality of options and messages, and their written forms.
-/

namespace Coap

namespace Options

variable {a b : Options} {code : Code} {name : Opt.Name} {o : Opt}

/-- The values of a name are the options that have it. -/
theorem mem_values : o ∈ a.values name ↔ o ∈ a.toList ∧ o.name = name := by
  rw [values, List.mem_filter, beq_iff_eq]

/-- Options that are the same for each name are the same but for their order. -/
theorem perm_of_values_eq (h : ∀ name, a.values name = b.values name) : a.toList.Perm b.toList := by
  have hcount (options : Options) (o : Opt) :
      (options.values o.name).count o = options.toList.count o :=
    List.count_filter (beq_self_eq_true o.name)
  refine List.perm_iff_count.2 fun o => ?_
  rw [← hcount, ← hcount, h]

/-- Options agree just if those of each name are the same. -/
theorem agree_iff : a.agree b = true ↔ ∀ name, a.values name = b.values name := by
  rw [agree, Bool.and_eq_true, beq_iff_eq, List.all_eq_true]
  constructor
  · rintro ⟨-, hsame⟩ name
    by_cases hname : ∃ o ∈ a.toList ++ b.toList, o.name = name
    · obtain ⟨o, ho, rfl⟩ := hname
      exact beq_iff_eq.1 (hsame o ho)
    · -- Neither has an option of this name.
      have hnone (options : Options) (hpart : options.toList ⊆ a.toList ++ b.toList) :
          options.values name = [] :=
        List.eq_nil_iff_forall_not_mem.2 fun o ho =>
          hname ⟨o, hpart (mem_values.1 ho).1, (mem_values.1 ho).2⟩
      rw [hnone a (List.subset_append_left _ _), hnone b (List.subset_append_right _ _)]
  · intro h
    exact ⟨(perm_of_values_eq h).length_eq, fun o _ => beq_iff_eq.2 (h o.name)⟩

/-- To agree is an equivalence. -/
theorem equivalence_agree : Equivalence fun a b : Options => a.agree b = true := by
  simp only [agree_iff]
  exact ⟨fun _ _ => rfl, fun h name => (h name).symm, fun h h' name => (h name).trans (h' name)⟩

/-- Under one code a number belongs to one name. -/
theorem LegalUnder.name_eq (h : a.LegalUnder code) {o o' : Opt} (ho : o ∈ a.toList)
    (ho' : o' ∈ a.toList) (hnumber : o.number = o'.number) : o.name = o'.name := by
  have hname := Opt.Name.ofNumber?_number (h.meaningful o ho)
  have hname' := Opt.Name.ofNumber?_number (h.meaningful o' ho')
  have hsame : o.name.number = o'.name.number := hnumber
  rw [hsame, hname'] at hname
  exact (Option.some.inj hname).symm

/-- What agrees with the options of one code is in the same order. -/
theorem LegalUnder.toList_eq_of_agree (h : a.LegalUnder code) (hagree : a.agree b = true) :
    a.toList = b.toList := by
  have hvalues := agree_iff.1 hagree
  have hperm := perm_of_values_eq hvalues
  refine eq_of_filter_number a.sorted b.sorted fun n => ?_
  by_cases hn : ∃ o ∈ a.toList, o.number = n
  · obtain ⟨o, ho, rfl⟩ := hn
    -- The options of this number are those of one name, in both.
    have hnumber (options : Options) (hpart : options.toList ⊆ a.toList) :
        (options.toList.filter fun o' => o'.number == o.number) = options.values o.name := by
      refine List.filter_congr fun o' ho' => Bool.eq_iff_iff.2 ?_
      rw [beq_iff_eq, beq_iff_eq]
      exact ⟨h.name_eq (hpart ho') ho, fun hname => congrArg Opt.Name.number hname⟩
    rw [hnumber a (List.Subset.refl _), hnumber b hperm.symm.subset, hvalues]
  · have hnone (options : Options) (hpart : options.toList ⊆ a.toList) :
        (options.toList.filter fun o' => o'.number == n) = [] :=
      List.filter_eq_nil_iff.2 fun o ho hnumber =>
        hn ⟨o, hpart ho, beq_iff_eq.1 hnumber⟩
    rw [hnone a (List.Subset.refl _), hnone b hperm.symm.subset]

/-- Under two codes both kinds of Observe can be added, and then the order of their number is left
    open. -/
example :
    let request : Opt := ⟨.observeRequest, .uint 0 0, rfl, by decide, by decide⟩
    let response : Opt := ⟨.observeResponse, .uint 0 0, rfl, by decide, by decide⟩
    let a := (((∅ : Options).addAll .get [request]).value.addAll .content [response]).value
    let b := (((∅ : Options).addAll .content [response]).value.addAll .get [request]).value
    a.agree b = true ∧ a.toList = [request, response] ∧ b.toList = [response, request] := by
  decide +kernel

/-- Legal lists of options agree just if they are the same. -/
theorem LegalUnder.agree_iff_eq (h : a.LegalUnder code) : a.agree b = true ↔ a = b :=
  ⟨fun hagree => ext (h.toList_eq_of_agree hagree), fun heq => heq ▸ equivalence_agree.refl a⟩

end Options

namespace Message

/-- A message that may be sent is equal to no other one. -/
theorem Legal.agree_iff_eq {m m' : Message} (h : m.Legal) : m.agree m' = true ↔ m = m' := by
  rw [agree]
  simp only [Bool.and_eq_true, beq_iff_eq, h.reachable.legalUnder.agree_iff_eq]
  constructor
  · -- The parts are compared one by one, each by an equality that can be trusted.
    rintro ⟨⟨⟨⟨⟨hversion, htype⟩, hcode⟩, hid⟩, hoptions⟩, hpayload⟩
    cases m
    cases m'
    cases hversion
    cases htype
    cases hcode
    cases hid
    cases hoptions
    cases hpayload
    rfl
  · rintro rfl
    exact ⟨⟨⟨⟨⟨rfl, rfl⟩, rfl⟩, rfl⟩, rfl⟩, rfl⟩

/-- Messages that may be sent are the same if they are written in the same bytes. -/
theorem Legal.encode_inj {m m' : Message} (h : m.Legal) (h' : m'.Legal)
    (hencode : m.encode = m'.encode) : m = m' := by
  obtain ⟨_, _, -, -, -, hbytes⟩ := h.encode_eq_ok
  have hread := h.decode_of_encode hbytes
  have hread' := h'.decode_of_encode (hencode ▸ hbytes)
  exact Except.ok.inj (hread.symm.trans hread')

/-- Options agree just if those of each name are the same, which is an equivalence, however they
    came about. If each were added under one code, be it the same or another, they agree just if
    they are the same in the same order. So of two messages that may be sent each has a written
    form, and the messages are equal just if these are the same. -/
theorem agreement :
    Equivalence (fun a b : Options => a.agree b = true) ∧
    (∀ a b : Options, a.agree b = true ↔ ∀ name, a.values name = b.values name) ∧
    (∀ (code code' : Code) (a b : Options), Options.Reachable (· = code) a →
      Options.Reachable (· = code') b → (a.agree b = true ↔ a.toList = b.toList)) ∧
    ∀ m m' : Message, m.Legal → m'.Legal →
      ∃ bytes bytes', m.encode = .ok bytes ∧ m'.encode = .ok bytes' ∧
        (m.agree m' = true ↔ bytes = bytes') := by
  refine ⟨Options.equivalence_agree, fun a b => Options.agree_iff, fun code code' a b ha _ => ?_,
    fun m m' h h' => ?_⟩
  · -- Options that may occur in a message are in one order only, so it is enough that the values
    -- agree.
    rw [ha.legalUnder.agree_iff_eq]
    exact ⟨fun heq => heq ▸ rfl, Options.ext⟩
  · obtain ⟨_, _, -, -, -, hbytes⟩ := h.encode_eq_ok
    obtain ⟨_, _, -, -, -, hbytes'⟩ := h'.encode_eq_ok
    refine ⟨_, _, hbytes, hbytes', ?_⟩
    -- The written form is told from the message, and the message is read back from it.
    rw [h.agree_iff_eq]
    constructor
    · rintro rfl
      exact Except.ok.inj (hbytes.symm.trans hbytes')
    · intro heq
      exact h.encode_inj h' (hbytes.trans (heq ▸ hbytes'.symm))

/-- Two requests whose options were added in different orders. They are equal if only the query came
    earlier, but not if the segments of the path were swapped. -/
theorem agreement_reordered :
    let segment (s : String) (h : Opt.Name.uriPath.Admits (Text.bytes s).length) : Opt :=
      ⟨.uriPath, .text s, rfl, h, trivial⟩
    let a := segment "a" (by decide)
    let b := segment "b" (by decide)
    let query : Opt := ⟨.uriQuery, .text "q", rfl, by decide, trivial⟩
    let request (added : List Opt) : Message :=
      { type? := some .con, code := .get, id? := some 1,
        options := ((∅ : Options).addAll .get added).value }
    ∃ bytes bytes' swapped,
      (request [a, b, query]).encode = .ok bytes ∧ (request [query, a, b]).encode = .ok bytes' ∧
      (request [b, a, query]).encode = .ok swapped ∧ bytes = bytes' ∧ bytes ≠ swapped ∧
      (request [a, b, query]).agree (request [query, a, b]) = true ∧
      (request [a, b, query]).agree (request [b, a, query]) = false ∧
      (request [a, b, query]).options.toList = (request [query, a, b]).options.toList := by
  intro segment a b query request
  obtain ⟨-, -, horder, hequal⟩ := agreement
  have hreachable (added : List Opt) : Options.Reachable (· = .get) (request added).options := by
    refine .addAll .empty ?_ added
    rfl
  have hlegal (added : List Opt) : (request added).Legal :=
    ⟨rfl, rfl, rfl, rfl, hreachable added, fun h => by cases h⟩
  -- All comparisons are evaluated here. The written forms are told from them and not computed.
  have hoptions : (request [a, b, query]).options.agree (request [query, a, b]).options = true := by
    decide +kernel
  have hsame : (request [a, b, query]).agree (request [query, a, b]) = true := by decide +kernel
  have hswapped : (request [a, b, query]).agree (request [b, a, query]) = false := by decide +kernel
  obtain ⟨bytes, bytes', hbytes, hbytes', hiff⟩ :=
    hequal _ _ (hlegal [a, b, query]) (hlegal [query, a, b])
  obtain ⟨_, swapped, hbytes'', hswap, hiff'⟩ :=
    hequal _ _ (hlegal [a, b, query]) (hlegal [b, a, query])
  obtain rfl := Except.ok.inj (hbytes.symm.trans hbytes'')
  exact ⟨bytes, bytes', swapped, hbytes, hbytes', hswap, hiff.1 hsame,
    fun heq => Bool.false_ne_true (hswapped.symm.trans (hiff'.2 heq)), hsame, hswapped,
    (horder .get .get _ _ (hreachable _) (hreachable _)).1 hoptions⟩

end Message

end Coap

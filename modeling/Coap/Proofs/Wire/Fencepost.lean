import Coap.Proofs.Options.Reachable
import Coap.Proofs.Wire.Grammar
import Mathlib.Data.List.Nodup

/-!
# Fenceposts

The numbers of the registry are such that a step is too long for its field only from below 6 to
If-None-Match, which has number 21: so there is one fencepost at most, with number 14, and no option
has the number of a fencepost. (`Frame.ofOptions_cons` is the case distinction; everything below
goes by induction over the options with it.)

* `keepAll_ofOptions`: reading the frames of legal options gives the options back;
* `length_ofOptions_le`: the frames of legal options, the fencepost included, fit the count;
* `length_flatMap_ofOptions_le`: if options are read from frames, writing them takes no more bytes
  than these frames: a fencepost is put in only where a frame was dropped.
-/

namespace Coap

/-! ### The numbers of the registry -/

namespace Opt.Name

theorem eq_ifNoneMatch_of_lt {name : Name} (h : 15 < name.number) : name = .ifNoneMatch := by
  revert h
  cases name <;> decide

theorem isFencepost_number (name : Name) : Wire.isFencepost name.number = false := by
  cases name <;> decide

/-- The option that has a meaning under a code is the one that its number stands for there. -/
theorem ofNumber?_number {code : Code} {name : Name} (h : name.occurrence code ≠ .never) :
    ofNumber? code name.number = some name := by
  rw [occurrence] at h
  -- The two kinds of Observe share a number, and only one of them has a meaning under a code.
  by_cases hc : code.isRequest = true
  · rw [if_pos hc] at h
    cases name with
    | observeRequest => rw [ofNumber?, if_pos rfl, if_pos hc]
    | observeResponse => exact absurd rfl h
    | _ => rfl
  · rw [if_neg hc] at h
    cases name with
    | observeResponse =>
      have hn : observeResponse.number = observeRequest.number := rfl
      rw [ofNumber?, if_pos hn, if_neg hc]
    | observeRequest =>
      split at h
      · exact absurd rfl h
      · exact absurd rfl h
    | _ => rfl

end Opt.Name

theorem Code.eq_put_of_occurrence {code : Code}
    (h : Opt.Name.occurrence code .ifNoneMatch ≠ .never) : code = .put := by
  revert h
  rw [Opt.Name.occurrence]
  cases code with
  | unassigned number => exact fun h => absurd rfl h
  | _ => decide

/-- The options of a PUT whose numbers are not from 6 to 15 may occur only once, and there are four
    of them. -/
theorem Opt.Name.once_of_outside {name : Name} (h : name.occurrence .put ≠ .never)
    (hn : name.number < 6 ∨ 15 < name.number) :
    name.occurrence .put = .once ∧ name ∈ [.contentType, .proxyUri, .uriHost, .ifNoneMatch] := by
  revert h hn
  cases name <;> decide

namespace Wire

/-! ### Single frames -/

theorem resolve_eq_ok {code : Code} {number : Nat} {value : Bytes} {o : Opt}
    (h : resolve code number value = .ok o) : o.number = number ∧ o.encode = value := by
  rw [resolve] at h
  split at h
  · rename_i name hname
    obtain ⟨rfl, he⟩ := Opt.ofBytes_eq_ok_iff.1 h
    exact ⟨Opt.Name.number_of_ofNumber? hname, he⟩
  · cases h

theorem resolve_number {code : Code} {o : Opt} (h : o.name.occurrence code ≠ .never) :
    resolve code o.number o.encode = .ok o := by
  rw [resolve, Opt.number, Opt.Name.ofNumber?_number h]
  exact Opt.ofBytes_encode o

theorem keep_of_isFencepost {code : Code} {kept : Options} {number : Nat} {value : Bytes}
    (h : isFencepost number) : keep code kept number value = .ok kept := if_pos h

theorem keep_number {code : Code} {kept kept' : Options} {o : Opt}
    (h : kept.add code o = .ok kept') : keep code kept o.number o.encode = .ok kept' := by
  have hf : ¬isFencepost o.number = true := by
    rw [Opt.number, Opt.Name.isFencepost_number]
    exact Bool.false_ne_true
  have hr := resolve_number (Options.add_eq_ok_iff.1 h).1
  rw [keep, if_neg hf, hr]
  simp only [Except.bind, h]

/-- A frame that is not refused is dropped, or its option is added. -/
theorem keep_eq_ok {code : Code} {kept kept' : Options} {number : Nat} {value : Bytes}
    (h : keep code kept number value = .ok kept') :
    kept' = kept ∨
      ∃ o : Opt, o.number = number ∧ o.encode = value ∧ kept.add code o = .ok kept' := by
  rw [keep] at h
  split at h
  · exact .inl (Except.ok.inj h).symm
  -- An option of even number that cannot be read or added is skipped.
  cases hr : resolve code number value with
  | error fault =>
    rw [hr] at h
    simp only [Except.bind] at h
    split at h
    · cases h
    · exact .inl (Except.ok.inj h).symm
  | ok o =>
    rw [hr] at h
    simp only [Except.bind] at h
    split at h
    · rename_i added ha
      cases h
      obtain ⟨hn, he⟩ := resolve_eq_ok hr
      exact .inr ⟨o, hn, he, ha⟩
    · split at h
      · cases h
      · exact .inl (Except.ok.inj h).symm

namespace Frame

/-! ### Writing options -/

/-- The next option is one step away, unless it is If-None-Match and the fencepost 14 comes before
    it. -/
theorem ofOptions_cons (last : Nat) (o : Opt) (rest : List Opt) :
    (o.number ≤ last + maxNibble ∧
      ofOptions last (o :: rest) = ⟨o.number - last, o.encode⟩ :: ofOptions o.number rest) ∨
    (last < 6 ∧ o.name = .ifNoneMatch ∧
      ofOptions last (o :: rest) = ⟨14 - last, []⟩ :: ⟨7, o.encode⟩ :: ofOptions 21 rest) := by
  by_cases h : maxNibble < o.number - last
  · have hn : o.name = .ifNoneMatch := Opt.Name.eq_ifNoneMatch_of_lt (by
      rw [maxNibble, Opt.number] at h
      omega)
    have h21 : o.number = 21 := by rw [Opt.number, hn]; rfl
    have hlast : last < 6 := by
      rw [maxNibble, h21] at h
      omega
    -- One fencepost is enough, as the option is one step away from it.
    have hpost : (last / fencepost + 1) * fencepost = 14 := by
      rw [fencepost]
      omega
    refine .inr ⟨hlast, hn, ?_⟩
    rw [ofOptions, if_pos h]
    simp only [hpost]
    rw [ofOptions, if_neg (by rw [h21, maxNibble]; omega), h21]
  · refine .inl ⟨Nat.sub_le_iff_le_add'.1 (Nat.not_lt.1 h), ?_⟩
    rw [ofOptions, if_neg h]

theorem isWritable_of_mem_ofOptions {last : Nat} {options : List Opt} :
    ∀ f ∈ ofOptions last options, f.IsWritable := by
  induction options generalizing last with
  | nil =>
    intro f hf
    rw [ofOptions] at hf
    cases hf
  | cons o rest ih =>
    rcases ofOptions_cons last o rest with ⟨hle, heq⟩ | ⟨-, -, heq⟩
    · rw [heq, List.forall_mem_cons]
      exact ⟨⟨Nat.sub_le_iff_le_add'.2 hle, o.length_encode_le⟩, ih⟩
    · rw [heq, List.forall_mem_cons, List.forall_mem_cons]
      refine ⟨⟨?_, Nat.zero_le _⟩, ⟨(by decide : 7 ≤ maxNibble), o.length_encode_le⟩, ih⟩
      exact Nat.le_succ_of_le (Nat.sub_le 14 last)

/-- There is a frame for each option and perhaps a fencepost; that is in front of If-None-Match, and
    only if no number from 6 to 15 is in use. -/
theorem length_ofOptions {last : Nat} {options : List Opt}
    (h : options.Pairwise fun a b => a.number ≤ b.number) (hlast : ∀ o ∈ options, last ≤ o.number) :
    (ofOptions last options).length = options.length ∨
      (ofOptions last options).length = options.length + 1 ∧ last < 6 ∧
        (∃ o ∈ options, o.name = .ifNoneMatch) ∧
        ∀ o ∈ options, o.number < 6 ∨ 15 < o.number := by
  induction options generalizing last with
  | nil =>
    rw [ofOptions]
    exact .inl rfl
  | cons o rest ih =>
    obtain ⟨hrest, h⟩ := List.pairwise_cons.1 h
    rcases ofOptions_cons last o rest with ⟨-, heq⟩ | ⟨hlt, hn, heq⟩
    · rw [heq, List.length_cons, List.length_cons]
      rcases ih h hrest with hl | ⟨hl, hlt, ⟨a, ha, hn⟩, hout⟩
      · exact .inl (by rw [hl])
      · refine .inr ⟨by rw [hl], ?_, ⟨a, List.mem_cons_of_mem _ ha, hn⟩, ?_⟩
        · exact Nat.lt_of_le_of_lt (hlast o List.mem_cons_self) hlt
        · exact List.forall_mem_cons.2 ⟨.inl hlt, hout⟩
    · -- Behind If-None-Match there are only larger numbers, so no second fencepost.
      have h21 : o.number = 21 := by rw [Opt.number, hn]; rfl
      have hrest' : ∀ a ∈ rest, 21 ≤ a.number := fun a ha => h21 ▸ hrest a ha
      rw [heq, List.length_cons, List.length_cons, List.length_cons]
      rcases ih h hrest' with hl | ⟨-, hlt', -⟩
      · refine .inr ⟨by rw [hl], hlt, ⟨o, List.mem_cons_self, hn⟩, ?_⟩
        refine List.forall_mem_cons.2 ⟨.inr (by rw [h21]; decide), fun a ha => .inr ?_⟩
        exact Nat.lt_of_lt_of_le (by decide) (hrest' a ha)
      · exact absurd hlt' (by decide)

/-- The frames of legal options fit the count: if there is a fencepost, there are few options. -/
theorem length_ofOptions_le {code : Code} {options : Options} (h : options.LegalUnder code) :
    (ofOptions 0 options.toList).length ≤ maxOptions := by
  rcases length_ofOptions options.sorted fun _ _ => Nat.zero_le _ with
    hl | ⟨hl, -, ⟨o, ho, hn⟩, hout⟩
  · exact hl ▸ options.length_le
  · obtain rfl : code = .put := Code.eq_put_of_occurrence (hn ▸ h.meaningful o ho)
    -- No option occurs twice, so there are no more of them than names outside of 6 to 15.
    have honce := fun a ha => Opt.Name.once_of_outside (h.meaningful a ha) (hout a ha)
    have hnodup : (options.toList.map Opt.name).Nodup :=
      options.nodup.map_on fun a ha b hb hab => h.once a ha b hb hab (honce a ha).1
    have hsub : options.toList.map Opt.name ⊆
        [.contentType, .proxyUri, .uriHost, .ifNoneMatch] := by
      intro name hname
      obtain ⟨a, ha, rfl⟩ := List.mem_map.1 hname
      exact (honce a ha).2
    have hfew : (options.toList.map Opt.name).length ≤ 4 := hnodup.length_le_of_subset hsub
    rw [List.length_map] at hfew
    rw [hl]
    exact Nat.le_trans (Nat.succ_le_succ hfew) (by decide)

/-! ### Writing what was read -/

/-- The options of some frames, written again after a number that may lie further back, take no more
    bytes than the frames and those dropped since that number. -/
theorem length_flatMap_ofOptions_le {frames : List Frame} (hw : ∀ f ∈ frames, f.IsWritable)
    {options : List Opt} {last number dropped : Nat}
    (hs : List.Sublist (options.map fun o => (o.number, o.encode)) (numbered number frames))
    (hd : number ≤ last + maxNibble * dropped) :
    ((ofOptions last options).flatMap Frame.bytes).length ≤
      (frames.flatMap Frame.bytes).length + dropped := by
  induction frames generalizing options last number dropped with
  | nil =>
    obtain rfl := List.map_eq_nil_iff.1 (List.sublist_nil.1 hs)
    rw [ofOptions]
    exact Nat.zero_le _
  | cons f frames ih =>
    obtain ⟨hf, hw⟩ := List.forall_mem_cons.1 hw
    have hd' : number + f.delta ≤ last + maxNibble * (dropped + 1) := by
      rw [Nat.mul_succ, ← Nat.add_assoc]
      exact Nat.add_le_add hd hf.delta_le
    rw [List.flatMap_cons, List.length_append]
    rcases List.sublist_cons_iff.1 hs with hs | ⟨written, he, hs⟩
    · -- The frame was dropped, and a fencepost may take its place.
      have hpos := f.length_bytes_pos
      have := ih hw hs hd'
      omega
    · cases options with
      | nil => cases he
      | cons o rest =>
        rw [List.map_cons, List.cons.injEq, Prod.mk.injEq] at he
        obtain ⟨⟨hn, hv⟩, rfl⟩ := he
        have hrest := ih hw hs (Nat.le_add_right (number + f.delta) (maxNibble * 0))
        rw [← hn] at hrest hd'
        have hlen (delta : Nat) : (Frame.mk delta o.encode).bytes.length = f.bytes.length := by
          rw [length_bytes, length_bytes, hv]
        rcases ofOptions_cons last o rest with ⟨-, heq⟩ | ⟨hlt, hname, heq⟩
        · rw [heq, List.flatMap_cons, List.length_append, hlen]
          omega
        · -- A fencepost is due, so some frame was dropped: the steps so far are too short.
          have h21 : o.number = 21 := by rw [Opt.number, hname]; rfl
          rw [h21] at hd' hrest
          rw [maxNibble] at hd'
          have hpost : (Frame.mk (14 - last) []).bytes.length = 1 := length_bytes _
          rw [heq, List.flatMap_cons, List.flatMap_cons, List.length_append, List.length_append,
            hlen, hpost]
          omega

end Frame

/-! ### Reading what was written -/

variable {code : Code} {options : Options}

/-- Reading the frames of legal options, after some of them, gives all of them. -/
theorem keepAll_ofOptions_append (h : options.LegalUnder code) {last : Nat} {kept : Options}
    {rest : List Opt} (hl : options.toList = kept.toList ++ rest)
    (hlast : ∀ o ∈ rest, last ≤ o.number) :
    keepAll code last kept (Frame.ofOptions last rest) = .ok options := by
  induction rest generalizing last kept with
  | nil =>
    rw [List.append_nil] at hl
    rw [Frame.ofOptions, keepAll, Options.ext hl]
  | cons o rest ih =>
    obtain ⟨hle, hlast⟩ := List.forall_mem_cons.1 hlast
    obtain ⟨kept', hadd, hl'⟩ := h.add_eq_ok hl
    have hsorted := (List.pairwise_append.1 (hl ▸ options.sorted)).2.1
    have hrest := (List.pairwise_cons.1 hsorted).1
    have hkept : options.toList = kept'.toList ++ rest := by
      rw [hl, hl', List.append_assoc, List.singleton_append]
    have hkeep := keep_number hadd
    rcases Frame.ofOptions_cons last o rest with ⟨-, heq⟩ | ⟨hlt, hn, heq⟩
    · -- The step leads to the number of the option.
      have hnumber : last + (o.number - last) = o.number := Nat.add_sub_cancel' hle
      rw [heq, keepAll_cons_of_keep (hnumber.symm ▸ hkeep), hnumber]
      exact ih hkept hrest
    · -- The fencepost is dropped, and the step behind it leads to the number of the option.
      have h21 : o.number = 21 := by rw [Opt.number, hn]; rfl
      have hpost : last + (14 - last) = 14 := Nat.add_sub_cancel' (by omega)
      rw [h21] at hkeep hrest
      rw [heq, keepAll_cons_of_keep (keep_of_isFencepost (by rw [hpost]; rfl)), hpost,
        keepAll_cons_of_keep hkeep]
      exact ih hkept hrest

/-- Reading the frames of legal options gives the options back. -/
theorem keepAll_ofOptions (h : options.LegalUnder code) :
    keepAll code 0 ∅ (Frame.ofOptions 0 options.toList) = .ok options :=
  keepAll_ofOptions_append h rfl fun _ _ => Nat.zero_le _

end Wire

end Coap

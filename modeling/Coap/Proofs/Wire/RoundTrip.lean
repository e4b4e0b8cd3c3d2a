import Coap.Proofs.Wire.Fencepost
import Coap.Wire.Encode
import Mathlib

/-!
# Writing and reading messages

A message is *legal* if its header is settled and in order and its options were added under its code
(`Message.Legal`). These are the messages that datagrams hold, and each of them has a written form.

* `Message.decode_encode_of_legal`: a legal message has a written form, and is read back from it;
* `Message.encode_of_decode`: whatever is read is legal, and its written form, which is never longer
  than what was read, is read and written without a further change.
-/

namespace Coap

namespace Wire

/-! ### What reading keeps -/

variable {code : Code} {options : Options}

/-- Reading frames is adding options under the code. -/
theorem reachable_of_keepAll {frames : List Frame} {last : Nat} {kept : Options}
    (h : keepAll code last kept frames = .ok options) (hk : Options.Reachable (· = code) kept) :
    Options.Reachable (· = code) options := by
  induction frames generalizing last kept with
  | nil => exact Except.ok.inj h ▸ hk
  | cons f frames ih =>
    rw [keepAll] at h
    split at h
    · cases h
    rename_i kept' hkeep
    -- A frame that is dropped changes nothing, and any other adds its option under the code.
    rcases keep_eq_ok hkeep with rfl | ⟨o, -, -, ha⟩
    · exact ih h hk
    · exact ih h (.add rfl hk ha)

/-- The options that are added are those of some of the frames, in their order. -/
theorem sublist_of_keepAll {frames : List Frame} {last : Nat} {kept : Options}
    (h : keepAll code last kept frames = .ok options) (hk : ∀ o ∈ kept.toList, o.number ≤ last) :
    ∃ added, options.toList = kept.toList ++ added ∧
      List.Sublist (added.map fun o => (o.number, o.encode)) (Frame.numbered last frames) := by
  induction frames generalizing last kept with
  | nil =>
    cases h
    exact ⟨[], (List.append_nil _).symm, List.nil_sublist _⟩
  | cons f frames ih =>
    rw [keepAll] at h
    split at h
    · cases h
    rename_i kept' hkeep
    have hk' : ∀ o ∈ kept.toList, o.number ≤ last + f.delta := fun o ho =>
      Nat.le_add_right_of_le (hk o ho)
    rcases keep_eq_ok hkeep with rfl | ⟨o, hn, hv, ha⟩
    · obtain ⟨added, hl, hs⟩ := ih h hk'
      exact ⟨added, hl, hs.cons _⟩
    · -- Numbers only grow, so the new option goes to the end.
      have hl' := (Options.add_eq_ok_iff.1 ha).2.2.2.2
      rw [insertOpt_of_le (hn ▸ hk')] at hl'
      have hk'' : ∀ a ∈ kept'.toList, a.number ≤ last + f.delta := by
        intro a hm
        rw [hl', List.mem_append, List.mem_singleton] at hm
        rcases hm with hm | rfl
        · exact hk' a hm
        · exact Nat.le_of_eq hn
      obtain ⟨added, hl, hs⟩ := ih h hk''
      refine ⟨o :: added, ?_, ?_⟩
      · rw [hl, hl', List.append_assoc, List.singleton_append]
      · rw [Frame.numbered, List.map_cons, hn, hv]
        exact hs.cons_cons _

end Wire

namespace Message

open Wire

/-- A message that may be sent: type and id are set, the code is assigned, the options were added
    under the code, and a message without a code is a bare acknowledgement or reset. -/
structure Legal (m : Message) : Prop where
  version_eq : m.version = protocolVersion
  type_isSome : m.type?.isSome
  id_isSome : m.id?.isSome
  assigned : m.code.isUnassigned = false
  reachable : Options.Reachable (· = m.code) m.options
  of_empty : m.code = .empty → (m.type? = some .ack ∨ m.type? = some .rst) ∧ m.payload = []

/-- A message with a settled header is written unless it has too many frames. -/
theorem encode_eq {m : Message} {type : MessageType} {id : UInt16} (ht : m.type? = some type)
    (hid : m.id? = some id) (hc : m.code.isUnassigned = false) :
    m.encode =
      if maxOptions < m.frames.length then .error .tooManyOptions
      else .ok (Header.bytes ⟨m.version, type, m.frames.length, m.code.number, id⟩ ++
        m.frames.flatMap Frame.bytes ++ m.payload) := by
  rw [encode, ht, hid, unwritable?_eq_none]
  generalize m.code = code at hc ⊢
  cases code with
  | unassigned number => cases hc
  | _ => rfl

/-- A legal message has a written form: a header that counts its frames, the frames, and its
    payload. -/
theorem Legal.encode_eq_ok {m : Message} (h : m.Legal) :
    ∃ type id, m.type? = some type ∧ m.id? = some id ∧ m.frames.length ≤ maxOptions ∧
      m.encode = .ok (Header.bytes ⟨m.version, type, m.frames.length, m.code.number, id⟩ ++
        m.frames.flatMap Frame.bytes ++ m.payload) := by
  obtain ⟨type, ht⟩ := Option.isSome_iff_exists.1 h.type_isSome
  obtain ⟨id, hid⟩ := Option.isSome_iff_exists.1 h.id_isSome
  have hl : m.frames.length ≤ maxOptions := Frame.length_ofOptions_le h.reachable.legalUnder
  refine ⟨type, id, ht, hid, hl, ?_⟩
  rw [encode_eq ht hid h.assigned, if_neg (Nat.not_lt.2 hl)]

theorem Legal.decode_of_encode {m : Message} (h : m.Legal) {b : Bytes} (hb : m.encode = .ok b) :
    decode b = .ok m := by
  obtain ⟨type, id, ht, hid, hl, he⟩ := h.encode_eq_ok
  obtain rfl := Except.ok.inj (hb.symm.trans he)
  have hnumber := Code.ofNumber_number h.assigned
  -- An empty message has no payload, so none is dropped.
  have hpayload : (if m.code.isEmpty then [] else m.payload) = m.payload := by
    split
    · rename_i hempty
      exact (h.of_empty (beq_iff_eq.1 hempty)).2.symm
    · rfl
  refine decode_eq_ok_iff.2 ⟨_, m.frames, m.payload, m.options, List.append_assoc _ _ _, ?_, rfl,
    Nat.lt_succ_of_le hl, Frame.isWritable_of_mem_ofOptions, ?_, ?_⟩
  · -- The header is in order.
    rw [headerFault?_eq_none_iff, hnumber]
    refine ⟨h.version_eq, h.assigned, fun hempty => ?_⟩
    rcases (h.of_empty hempty).1 with hack | hrst
    · exact .inl (Option.some.inj (ht.symm.trans hack))
    · exact .inr (Option.some.inj (ht.symm.trans hrst))
  · -- All frames are kept, and their options are those of the message.
    rw [hnumber]
    exact keepAll_ofOptions h.reachable.legalUnder
  · rw [hnumber, hpayload, ← ht, ← hid, ← h.version_eq]

/-- What is read is legal. -/
theorem legal_of_decode {b : Bytes} {m : Message} (h : decode b = .ok m) : m.Legal := by
  obtain ⟨header, frames, rest, options, -, hh, -, -, -, hk, rfl⟩ := decode_eq_ok_iff.1 h
  obtain ⟨-, hassigned, hempty⟩ := headerFault?_eq_none_iff.1 hh
  refine ⟨rfl, rfl, rfl, hassigned, reachable_of_keepAll hk .empty, fun hc => ⟨?_, ?_⟩⟩
  · exact (hempty hc).imp (congrArg some) (congrArg some)
  · exact if_pos (beq_iff_eq.2 hc)

/-- The written form of what is read is not longer than what was read. -/
theorem length_le_of_decode {b b' : Bytes} {m : Message} (h : decode b = .ok m)
    (hb' : m.encode = .ok b') : b'.length ≤ b.length := by
  obtain ⟨type, id, -, -, -, he⟩ := (legal_of_decode h).encode_eq_ok
  obtain rfl := Except.ok.inj (hb'.symm.trans he)
  obtain ⟨header, read, rest, options, rfl, -, -, -, hw, hk, rfl⟩ := decode_eq_ok_iff.1 h
  -- The options come from some of the frames, and the payload is the rest or nothing.
  obtain ⟨added, hl, hs⟩ := sublist_of_keepAll hk fun _ ho => absurd ho List.not_mem_nil
  have hframes := Frame.length_flatMap_ofOptions_le hw hs (Nat.le_add_right 0 (maxNibble * 0))
  have hpayload : (if (Code.ofNumber header.code).isEmpty then [] else rest).length ≤
      rest.length := by
    split
    · exact Nat.zero_le _
    · exact Nat.le_refl _
  rw [Options.toList_empty, List.nil_append] at hl
  simp only [List.length_append, frames, hl, Header.length_bytes]
  omega

/-- A legal message has a written form, and is read back from it. -/
theorem decode_encode_of_legal {m : Message} (h : m.Legal) :
    ∃ b, m.encode = .ok b ∧ decode b = .ok m := by
  obtain ⟨type, id, -, -, -, he⟩ := h.encode_eq_ok
  exact ⟨_, he, h.decode_of_encode he⟩

/-- A PUT whose last option needs a fencepost, and whose host name an extended length. -/
theorem decode_encode_put :
    let options := (∅ : Options).addAll .put
      [⟨.ifNoneMatch, .empty, rfl, by decide, trivial⟩,
        ⟨.contentType, .uint 40 2, rfl, by decide, by decide⟩,
        ⟨.uriHost, .text "a.rather.long.example", rfl, by decide, trivial⟩]
    let m : Message :=
      { type? := some .con, code := .put, id? := some 0x1234, options := options.value,
        payload := [0xff] }
    options.fault? = none ∧ m.Legal ∧ ∃ b, m.encode = .ok b ∧ decode b = .ok m := by
  intro options m
  have hr : Options.Reachable (· = .put) options.value := by
    refine .addAll .empty ?_ _
    rfl
  have hm : m.Legal := ⟨rfl, rfl, rfl, rfl, hr, fun h => by cases h⟩
  exact ⟨by decide, hm, decode_encode_of_legal hm⟩

/-- Whatever is read is legal: its options can be added under its code one after the other, and
    without a code it has none. It is written in no more bytes than it was read from, and these are
    read and written without a further change. -/
theorem encode_of_decode {b : Bytes} {m : Message} (h : decode b = .ok m) :
    m.Legal ∧ (∅ : Options).addAll m.code m.options.toList = .done m.options ∧
      (m.code = .empty → m.options = ∅) ∧
      ∃ b', m.encode = .ok b' ∧ b'.length ≤ b.length ∧ decode b' = .ok m ∧
        (decode b').bind encode = .ok b' := by
  have hm := legal_of_decode h
  have hlegal := hm.reachable.legalUnder
  obtain ⟨b', hb', hd⟩ := decode_encode_of_legal hm
  refine ⟨hm, hlegal.addAll_toList, fun hc => ?_, b', hb', length_le_of_decode h hb', hd, ?_⟩
  · -- No option has a meaning without a code.
    refine Options.ext (List.eq_nil_iff_forall_not_mem.2 fun o ho => ?_)
    exact hlegal.meaningful o ho (hc ▸ rfl)
  · rw [hd]
    exact hb'

/-- A PUT with Max-Age, which has no meaning there, a fencepost that has a value, and the unknown
    option 20: all three are dropped, and one empty fencepost comes in their place. -/
theorem encode_of_decode_put :
    let b : Bytes := [0x45, 3, 0, 1, 0x21, 0x3c, 0x31, 0x68, 0x91, 0xaa, 0x60, 0x10, 0x7f]
    let options := (∅ : Options).addAll .put
      [⟨.uriHost, .text "h", rfl, by decide, trivial⟩,
        ⟨.ifNoneMatch, .empty, rfl, by decide, trivial⟩]
    let m : Message :=
      { type? := some .con, code := .put, id? := some 1, options := options.value,
        payload := [0x7f] }
    decode b = .ok m ∧ m.encode = .ok [0x43, 3, 0, 1, 0x51, 0x68, 0x90, 0x70, 0x7f] ∧
      m.Legal ∧ (∅ : Options).addAll m.code m.options.toList = .done m.options ∧
      (m.code = .empty → m.options = ∅) ∧
      ∃ b', m.encode = .ok b' ∧ b'.length ≤ b.length ∧ decode b' = .ok m ∧
        (decode b').bind encode = .ok b' := by
  intro b options m
  have h : decode b = .ok m := rfl
  exact ⟨h, by cbv, encode_of_decode h⟩

end Message

end Coap

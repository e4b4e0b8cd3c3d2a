import Coap.Wire.Decode

/-!
# The grammar of datagrams

A datagram that can be read is made up, in exactly one way, of a header, frames and a rest. What is
read off each part is canonical, i.e., the part is the written form of what is read
(`Header.ofBytes?_eq_some_iff`, `Frame.take_eq_ok_iff`); so reading the options of a message is
splitting off frames and, independently of their bytes, keeping or dropping the option of each
(`keepAll`).

* `readOptions_eq_ok_iff`: options are read just if the bytes start with that many frames and no
  frame is refused;
* `Message.decode_eq_ok_iff`: which datagrams hold which messages.
-/

namespace Coap.Wire

/-! ### Headers -/

theorem Header.number_typeOfByte (b : UInt8) : (typeOfByte b).number = b.toNat / 16 % 4 := by
  have hlt : b.toNat / 16 % 4 < 4 := Nat.mod_lt _ (by decide)
  rw [typeOfByte]
  generalize b.toNat / 16 % 4 = n at hlt ⊢
  obtain rfl | rfl | rfl | rfl : n = 0 ∨ n = 1 ∨ n = 2 ∨ n = 3 := by omega
  all_goals rfl

/-- A header has four bytes. -/
theorem Header.length_bytes (h : Header) : h.bytes.length = 4 := by simp [Header.bytes]

/-- A header is read just off its written form. -/
theorem Header.ofBytes?_eq_some_iff {b rest : Bytes} {h : Header} :
    Header.ofBytes? b = some (h, rest) ↔
      h.version < 4 ∧ h.count < 16 ∧ b = h.bytes ++ rest := by
  constructor
  · intro hb
    match b with
    | first :: code :: high :: low :: tail =>
      obtain ⟨rfl, rfl⟩ := Prod.mk.inj (Option.some.inj hb)
      have hf := first.toNat_lt
      have hh := high.toNat_lt
      have hl := low.toNat_lt
      have hid : (UInt16.ofNat (high.toNat * 256 + low.toNat)).toNat =
          high.toNat * 256 + low.toNat := UInt16.toNat_ofNat_of_lt' (by rw [UInt16.size]; omega)
      -- The fields of the first byte make it up again, and so does the id its two bytes.
      have h₁ : UInt8.ofNat (first.toNat / 64 % 4 * 64 + first.toNat / 16 % 4 * 16 +
          first.toNat % 16) = first := by
        rw [← UInt8.toNat_inj, UInt8.toNat_ofNat']
        omega
      have h₂ : UInt8.ofNat ((high.toNat * 256 + low.toNat) / 256) = high := by
        rw [← UInt8.toNat_inj, UInt8.toNat_ofNat']
        omega
      have h₃ : UInt8.ofNat ((high.toNat * 256 + low.toNat) % 256) = low := by
        rw [← UInt8.toNat_inj, UInt8.toNat_ofNat']
        omega
      refine ⟨?_, Nat.mod_lt _ (by decide), ?_⟩
      · exact Nat.div_lt_of_lt_mul hf
      · rw [Header.bytes, Header.number_typeOfByte, hid, h₁, h₂, h₃]
        rfl
    | [] | [_] | [_, _] | [_, _, _] => cases hb
  · rintro ⟨hv, hc, rfl⟩
    exact Header.ofBytes?_append hv hc rest

/-! ### Frames -/

namespace Frame

/-- A frame can be written if its step and the length of its value fit their fields. -/
structure IsWritable (f : Frame) : Prop where
  delta_le : f.delta ≤ maxNibble
  length_le : f.value.length ≤ Opt.Name.longest

theorem takeValue_eq_ok_iff {number delta length : Nat} {bytes rest : Bytes} {f : Frame} :
    takeValue number delta length bytes = .ok (f, rest) ↔
      f.delta = delta ∧ f.value.length = length ∧ bytes = f.value ++ rest := by
  constructor
  · intro h
    rw [takeValue] at h
    split at h
    · rename_i hl
      obtain ⟨rfl, rfl⟩ := Prod.mk.inj (Except.ok.inj h)
      exact ⟨rfl, List.length_take_of_le hl, (List.take_append_drop length bytes).symm⟩
    · cases h
  · rintro ⟨rfl, rfl, rfl⟩
    exact takeValue_append number f.delta f.value rest

/-- A frame is read just off its written form. -/
theorem take_eq_ok_iff {last : Nat} {bytes rest : Bytes} {f : Frame} :
    take last bytes = .ok (f, rest) ↔ f.IsWritable ∧ bytes = f.bytes ++ rest := by
  constructor
  · intro h
    cases bytes with
    | nil => cases h
    | cons first tail =>
      have hf := first.toNat_lt
      rw [take.eq_def] at h
      simp only at h
      split at h
      · -- The lower half of the first byte is the length of the value.
        rename_i hshort
        obtain ⟨hd, hv, rfl⟩ := takeValue_eq_ok_iff.1 h
        have hb : UInt8.ofNat (f.delta * 16 + f.value.length) = first := by
          rw [← UInt8.toNat_inj, UInt8.toNat_ofNat']
          omega
        rw [← hv] at hshort
        refine ⟨⟨?_, ?_⟩, ?_⟩
        · rw [hd, maxNibble]
          omega
        · rw [maxNibble] at hshort
          rw [Opt.Name.longest]
          omega
        · rw [Frame.bytes, if_pos hshort, hb, List.cons_append]
      · -- The length goes on in the second byte.
        rename_i hlong
        cases tail with
        | nil => cases h
        | cons more tail =>
          have hm := more.toNat_lt
          obtain ⟨hd, hv, rfl⟩ := takeValue_eq_ok_iff.1 h
          rw [maxNibble] at hlong hv
          have hb : UInt8.ofNat (f.delta * 16 + maxNibble) = first := by
            rw [← UInt8.toNat_inj, UInt8.toNat_ofNat', maxNibble]
            omega
          have hb' : UInt8.ofNat (f.value.length - maxNibble) = more := by
            rw [← UInt8.toNat_inj, UInt8.toNat_ofNat', maxNibble]
            omega
          have hnot : ¬f.value.length < maxNibble := by
            rw [maxNibble]
            omega
          refine ⟨⟨?_, ?_⟩, ?_⟩
          · rw [hd, maxNibble]
            omega
          · rw [Opt.Name.longest]
            omega
          · rw [Frame.bytes, if_neg hnot, hb, hb', List.cons_append, List.cons_append]
  · rintro ⟨hw, rfl⟩
    exact take_append hw.delta_le hw.length_le last rest

theorem length_bytes (f : Frame) :
    f.bytes.length = f.value.length + if f.value.length < maxNibble then 1 else 2 := by
  rw [Frame.bytes]
  split <;> rfl

theorem length_bytes_pos (f : Frame) : 0 < f.bytes.length := by
  rw [length_bytes]
  split <;> exact Nat.succ_pos _

/-- Frames with the numbers they stand for, after the number `last`. -/
def numbered : (last : Nat) → List Frame → List (Nat × Bytes)
  | _, [] => []
  | last, f :: frames => (last + f.delta, f.value) :: numbered (last + f.delta) frames

end Frame

/-! ### Options -/

/-- The options after some frames that follow the number `last`, where `kept` are those so far. -/
def keepAll (code : Code) : (last : Nat) → (kept : Options) → List Frame → Except Fault Options
  | _, kept, [] => .ok kept
  | last, kept, f :: frames =>
    match keep code kept (last + f.delta) f.value with
    | .error fault => .error fault
    | .ok kept => keepAll code (last + f.delta) kept frames

theorem keepAll_cons_of_keep {code : Code} {last : Nat} {kept kept' : Options} {f : Frame}
    (h : keep code kept (last + f.delta) f.value = .ok kept') (frames : List Frame) :
    keepAll code last kept (f :: frames) = keepAll code (last + f.delta) kept' frames := by
  rw [keepAll, h]

/-- Options are read just if the bytes start with the written forms of that many frames none of
    which is refused. -/
theorem readOptions_eq_ok_iff {code : Code} {count last : Nat} {kept options : Options}
    {bytes rest : Bytes} :
    readOptions code count last kept bytes = .ok (options, rest) ↔
      ∃ frames : List Frame, frames.length = count ∧ (∀ f ∈ frames, f.IsWritable) ∧
        bytes = frames.flatMap Frame.bytes ++ rest ∧
        keepAll code last kept frames = .ok options := by
  induction count generalizing last kept bytes with
  | zero =>
    constructor
    · intro h
      obtain ⟨rfl, rfl⟩ := Prod.mk.inj (Except.ok.inj h)
      exact ⟨[], rfl, fun _ hf => absurd hf List.not_mem_nil, rfl, rfl⟩
    · rintro ⟨frames, hl, -, rfl, hk⟩
      obtain rfl := List.eq_nil_of_length_eq_zero hl
      cases hk
      rfl
  | succ count ih =>
    constructor
    · intro h
      rw [readOptions] at h
      split at h
      · cases h
      · rename_i f tail hf
        obtain ⟨hw, rfl⟩ := Frame.take_eq_ok_iff.1 hf
        split at h
        · cases h
        · rename_i kept' hk
          -- The first frame is split off; the others make up what is read behind it.
          obtain ⟨frames, hl, hws, rfl, ha⟩ := ih.1 h
          refine ⟨f :: frames, congrArg Nat.succ hl, List.forall_mem_cons.2 ⟨hw, hws⟩, ?_, ?_⟩
          · rw [List.flatMap_cons, List.append_assoc]
          · rw [keepAll_cons_of_keep hk, ha]
    · rintro ⟨frames, hl, hws, rfl, ha⟩
      match frames with
      | [] => cases hl
      | f :: frames =>
        obtain ⟨hw, hws⟩ := List.forall_mem_cons.1 hws
        -- It is read back from its written form, whatever follows it.
        have hf := Frame.take_append hw.delta_le hw.length_le last
          (frames.flatMap Frame.bytes ++ rest)
        rw [readOptions, List.flatMap_cons, List.append_assoc, hf]
        cases hk : keep code kept (last + f.delta) f.value with
        | error fault =>
          rw [keepAll, hk] at ha
          cases ha
        | ok kept' =>
          rw [keepAll_cons_of_keep hk] at ha
          simp only [hk]
          exact ih.2 ⟨frames, Nat.succ.inj hl, hws, rfl, ha⟩

end Coap.Wire

namespace Coap.Message

open Wire

/-! ### Messages -/

/-- A header is in order just if it has the version of the protocol and an assigned code, and the
    code of the empty message only on an acknowledgement or a reset. -/
theorem headerFault?_eq_none_iff {h : Header} :
    headerFault? h = none ↔
      h.version = protocolVersion ∧ (Code.ofNumber h.code).isUnassigned = false ∧
        (Code.ofNumber h.code = .empty → h.type = .ack ∨ h.type = .rst) := by
  rw [headerFault?]
  by_cases hv : h.version = protocolVersion
  · rw [if_neg (not_not_intro hv), and_iff_right hv]
    generalize Code.ofNumber h.code = code
    generalize h.type = type
    cases code <;> cases type <;> simp [Code.isUnassigned]
  · rw [if_pos hv]
    simp only [hv, false_and, reduceCtorEq]

/-- A datagram holds a message just if it is made up of a header that is in order, the frames
    that the header counts and a rest, and the options of the frames are those of the message. -/
theorem decode_eq_ok_iff {b : Bytes} {m : Message} :
    decode b = .ok m ↔
      ∃ (h : Header) (frames : List Frame) (rest : Bytes) (options : Options),
        b = h.bytes ++ (frames.flatMap Frame.bytes ++ rest) ∧ headerFault? h = none ∧
        frames.length = h.count ∧ h.count < 16 ∧ (∀ f ∈ frames, f.IsWritable) ∧
        keepAll (Code.ofNumber h.code) 0 ∅ frames = .ok options ∧
        m = { type? := some h.type, code := Code.ofNumber h.code, id? := some h.id, options,
              payload := if (Code.ofNumber h.code).isEmpty then [] else rest } := by
  constructor
  · -- The checks of the reader one after the other: a header, which is in order, and the frames it
    -- counts.
    intro hm
    rw [decode] at hm
    split at hm
    · cases hm
    rename_i h body hb
    obtain ⟨-, hc, rfl⟩ := Header.ofBytes?_eq_some_iff.1 hb
    split at hm
    · cases hm
    rename_i hh
    simp only at hm
    split at hm
    · cases hm
    rename_i options rest hr
    obtain ⟨frames, hl, hw, rfl, hk⟩ := readOptions_eq_ok_iff.1 hr
    exact ⟨h, frames, rest, options, rfl, hh, hl, hc, hw, hk, (Except.ok.inj hm).symm⟩
  · rintro ⟨h, frames, rest, options, rfl, hh, hl, hc, hw, hk, rfl⟩
    have hv : h.version < 4 := by
      rw [(headerFault?_eq_none_iff.1 hh).1]
      decide
    have hr : readOptions (Code.ofNumber h.code) h.count 0 ∅
        (frames.flatMap Frame.bytes ++ rest) = .ok (options, rest) :=
      readOptions_eq_ok_iff.2 ⟨frames, hl, hw, rfl, hk⟩
    rw [decode, Header.ofBytes?_append hv hc]
    simp only [hh, hr]

end Coap.Message

import Coap.Proofs.Wire.Cursor
import Coap.Proofs.Wire.Layout

/-!
# Why a datagram is not read

What is wrong with a datagram is told by the first thing that is wrong in it. It may be too short
for a header, or its header may be ruled out; then the frames are gone through, and reading ends
where the bytes end within a frame (`Frame.Cut`), or at a frame that is refused. A frame is refused
only if its number is odd. As many options as a message may have are never too many here, as there
are no more frames than that.

* `Frame.take_eq_error_iff`, `keep_eq_error`: the faults of a single frame;
* `readOptions_eq_error_iff`: the fault of the options is that of the first frame that has one;
* `Message.BreaksOff`: a datagram ends within a frame, and nothing is wrong before;
* `Message.decode_safe`: the faults of all datagrams, and that there is no trap.
-/

namespace Coap.Wire

/-! ### Single frames -/

/-- The bytes after the option number `last` end within the next frame: where its first byte should
    be, or its second one if the length of its value goes on there, or before its value is over. -/
inductive Frame.Cut : (last : Nat) → Bytes → Fault → Prop
  | header {last : Nat} : Cut last [] .optionMissing
  | extension {last : Nat} {first : UInt8} (lower : first.toNat % 16 = 15) :
      Cut last [first] (.lengthMissing (last + first.toNat / 16))
  | short {last : Nat} {first : UInt8} {rest : Bytes} (lower_ne : first.toNat % 16 ≠ 15)
      (lt : rest.length < first.toNat % 16) :
      Cut last (first :: rest)
        (.valueMissing (last + first.toNat / 16) (first.toNat % 16) rest.length)
  | long {last : Nat} {first more : UInt8} {rest : Bytes} (lower : first.toNat % 16 = 15)
      (lt : rest.length < 15 + more.toNat) :
      Cut last (first :: more :: rest)
        (.valueMissing (last + first.toNat / 16) (15 + more.toNat) rest.length)

variable {code : Code} {count last number : Nat} {kept kept' : Options} {value bytes rest : Bytes}
  {fault : Fault}

namespace Frame

theorem takeValue_eq_error_iff {delta length : Nat} :
    takeValue number delta length rest = .error fault ↔
      rest.length < length ∧ fault = .valueMissing number length rest.length := by
  rw [takeValue]
  split
  · rename_i hle
    simp [Nat.not_lt.2 hle]
  · rename_i hlt
    simp [Nat.not_le.1 hlt, eq_comm]

/-- No frame is split off just if the bytes end within it. -/
theorem take_eq_error_iff : take last bytes = .error fault ↔ Cut last bytes fault := by
  constructor
  · intro h
    rw [take.eq_def] at h
    cases bytes with
    | nil =>
      obtain rfl := Except.error.inj h
      exact .header
    | cons first rest =>
      dsimp only at h
      -- The first byte tells whether the length is in its lower half or in a byte of its own.
      split at h
      · rename_i hshort
        obtain ⟨hlt, rfl⟩ := takeValue_eq_error_iff.1 h
        exact .short (Nat.ne_of_lt hshort) hlt
      · rename_i hlong
        have lower : first.toNat % 16 = 15 := by
          rw [maxNibble] at hlong
          omega
        cases rest with
        | nil =>
          obtain rfl := Except.error.inj h
          exact .extension lower
        | cons more rest =>
          obtain ⟨hlt, rfl⟩ := takeValue_eq_error_iff.1 h
          exact .long lower hlt
  · -- Each way to be cut off makes the reader stop at the check for it.
    intro h
    rw [take.eq_def]
    cases h with
    | header => rfl
    | extension lower => simp only [lower, maxNibble, Nat.lt_irrefl, if_false]
    | short lower_ne lt =>
      rename_i first rest
      have hshort : first.toNat % 16 < maxNibble := by
        rw [maxNibble]
        omega
      simp only [if_pos hshort]
      exact takeValue_eq_error_iff.2 ⟨lt, rfl⟩
    | long lower lt =>
      simp only [lower, maxNibble, Nat.lt_irrefl, if_false]
      exact takeValue_eq_error_iff.2 ⟨lt, rfl⟩

theorem Cut.kind_eq (h : Cut last bytes fault) : fault.kind = .truncated := by
  cases h <;> rfl

end Frame

/-- A frame is refused only for its option, and only if the number of this is odd. -/
theorem keep_eq_error (hroom : kept.length < maxOptions)
    (h : keep code kept number value = .error fault) :
    fault.optionNumber? = some number ∧ number % 2 = 1 := by
  rw [keep] at h
  split at h
  · cases h
  · -- An option that does not fit in is skipped if its number is even, so only odd ones are
    -- refused.
    cases hbind : (resolve code number value).bind (kept.add code) with
    | ok options =>
      rw [hbind] at h
      cases h
    | error fault' =>
      rw [hbind] at h
      dsimp only at h
      split at h
      · rename_i hcritical
        obtain rfl := Except.error.inj h
        have hnumber := optionNumber?_of_refused hroom hbind
        rw [Fault.isCritical, hnumber] at hcritical
        exact ⟨hnumber, beq_iff_eq.1 hcritical⟩
      · cases h

theorem length_le_of_keep (h : keep code kept number value = .ok kept') :
    kept'.length ≤ kept.length + 1 := by
  rcases keep_eq_ok h with rfl | ⟨o, -, -, hadd⟩
  · exact Nat.le_succ _
  · rw [Options.length, (Options.add_eq_ok_iff.1 hadd).2.2.2.2, length_insertOpt]
    exact Nat.le_refl _

/-! ### All frames -/

/-- The number of the last one of some frames that follow the number `last`. -/
def Frame.numberAfter : (last : Nat) → List Frame → Nat
  | last, [] => last
  | last, f :: frames => numberAfter (last + f.delta) frames

/-- Reading ends with a fault at the next frame: it is cut off, or it is refused. -/
inductive Stops (code : Code) (last : Nat) (kept : Options) (rest : Bytes) (fault : Fault) : Prop
  | cut (cut : Frame.Cut last rest fault)
  | refused {f : Frame} {tail : Bytes} (writable : f.IsWritable) (bytes_eq : rest = f.bytes ++ tail)
      (refused : keep code kept (last + f.delta) f.value = .error fault)

/-- Options are not read just if the bytes start with fewer frames, none of which is refused, and
    the next one is cut off or refused. -/
theorem readOptions_eq_error_iff :
    readOptions code count last kept bytes = .error fault ↔
      ∃ (frames : List Frame) (rest : Bytes) (kept' : Options), frames.length < count ∧
        (∀ f ∈ frames, f.IsWritable) ∧ bytes = frames.flatMap Frame.bytes ++ rest ∧
        keepAll code last kept frames = .ok kept' ∧
        Stops code (Frame.numberAfter last frames) kept' rest fault := by
  induction count generalizing last kept bytes with
  | zero =>
    constructor
    · intro h
      cases h
    · rintro ⟨frames, rest, kept', hlt, -⟩
      exact absurd hlt (Nat.not_lt_zero _)
  | succ count ih =>
    constructor
    · intro h
      rw [readOptions] at h
      cases htake : Frame.take last bytes with
      | error fault' =>
        rw [htake] at h
        obtain rfl := Except.error.inj h
        exact ⟨[], bytes, kept, Nat.succ_pos _, List.forall_mem_nil _, rfl, rfl,
          .cut (Frame.take_eq_error_iff.1 htake)⟩
      | ok p =>
        obtain ⟨f, tail⟩ := p
        obtain ⟨hw, rfl⟩ := Frame.take_eq_ok_iff.1 htake
        rw [htake] at h
        dsimp only at h
        cases hk : keep code kept (last + f.delta) f.value with
        | error fault' =>
          rw [hk] at h
          obtain rfl := Except.error.inj h
          exact ⟨[], _, kept, Nat.succ_pos _, List.forall_mem_nil _, rfl, rfl, .refused hw rfl hk⟩
        | ok kept' =>
          -- The fault comes after the first frame.
          rw [hk] at h
          obtain ⟨frames, rest, kept'', hlt, hws, rfl, ha, hstops⟩ := ih.1 h
          refine ⟨f :: frames, rest, kept'', Nat.succ_lt_succ hlt,
            List.forall_mem_cons.2 ⟨hw, hws⟩, ?_, ?_, ?_⟩
          · rw [List.flatMap_cons, List.append_assoc]
          · rw [keepAll_cons_of_keep hk, ha]
          · rwa [Frame.numberAfter]
    · rintro ⟨frames, rest, kept', hlt, hws, rfl, ha, hstops⟩
      rw [readOptions]
      cases frames with
      | nil =>
        obtain rfl := Except.ok.inj ha
        rw [Frame.numberAfter] at hstops
        rw [List.flatMap_nil, List.nil_append]
        cases hstops with
        | cut cut => rw [Frame.take_eq_error_iff.2 cut]
        | refused writable bytes_eq refused =>
          rw [bytes_eq, Frame.take_append writable.delta_le writable.length_le]
          simp only [refused]
      | cons f frames =>
        obtain ⟨hw, hws⟩ := List.forall_mem_cons.1 hws
        rw [List.flatMap_cons, List.append_assoc, Frame.take_append hw.delta_le hw.length_le]
        cases hk : keep code kept (last + f.delta) f.value with
        | error fault' =>
          rw [keepAll, hk] at ha
          cases ha
        | ok kept'' =>
          rw [keepAll_cons_of_keep hk] at ha
          rw [Frame.numberAfter] at hstops
          simp only [hk]
          exact ih.2 ⟨frames, rest, kept', Nat.lt_of_succ_lt_succ hlt, hws, rfl, ha, hstops⟩

theorem length_le_of_keepAll {frames : List Frame}
    (h : keepAll code last kept frames = .ok kept') :
    kept'.length ≤ kept.length + frames.length := by
  induction frames generalizing last kept with
  | nil =>
    obtain rfl := Except.ok.inj h
    exact Nat.le_refl _
  | cons f frames ih =>
    obtain ⟨kept'', hk, ha⟩ := keepAll_cons_eq_ok_iff.1 h
    have := length_le_of_keep hk
    have := ih ha
    rw [List.length_cons]
    omega

/-- Frames of which options are selected are not refused, if there is room for as many options. -/
theorem exists_keepAll_of_selects {frames : List Frame} {options : List Opt}
    (h : Selects code last kept frames options) (hroom : kept.length + frames.length ≤ maxOptions) :
    ∃ kept', keepAll code last kept frames = .ok kept' := by
  induction h with
  | nil => exact ⟨_, rfl⟩
  | fencepost post rest ih =>
    -- Each frame that is split off takes one place at most, so what is left over has room as well.
    rw [List.length_cons] at hroom
    obtain ⟨kept', ha⟩ := ih (by omega)
    exact ⟨kept', keepAll_cons_eq_ok_iff.2
      ⟨_, (keep_eq_ok_iff (by omega)).2 (.inl ⟨post, rfl⟩), ha⟩⟩
  | keep no_post accepted rest ih =>
    rw [List.length_cons] at hroom
    have hk := (keep_eq_ok_iff (by omega)).2 (.inr ⟨no_post, .inl ⟨_, accepted⟩⟩)
    have := length_le_of_keep hk
    obtain ⟨kept', ha⟩ := ih (by omega)
    exact ⟨kept', keepAll_cons_eq_ok_iff.2 ⟨_, hk, ha⟩⟩
  | skip no_post elective refused rest ih =>
    rw [List.length_cons] at hroom
    have hk := (keep_eq_ok_iff (by omega)).2 (.inr ⟨no_post, .inr ⟨elective, rfl, refused⟩⟩)
    obtain ⟨kept', ha⟩ := ih (by omega)
    exact ⟨kept', keepAll_cons_eq_ok_iff.2 ⟨_, hk, ha⟩⟩

/-- The faults of options: the bytes end within a frame, or an option with an odd number is at
    fault. -/
theorem kind_of_readOptions (hcount : count ≤ maxOptions)
    (h : readOptions code count 0 ∅ bytes = .error fault) :
    fault.kind = .truncated ∨
      fault.kind = .option ∧ ∃ number, fault.optionNumber? = some number ∧ number % 2 = 1 := by
  obtain ⟨frames, rest, kept', hlt, -, -, ha, hstops⟩ := readOptions_eq_error_iff.1 h
  cases hstops with
  | cut cut => exact .inl cut.kind_eq
  | refused writable bytes_eq refused =>
    have hlength : kept'.length ≤ 0 + frames.length := length_le_of_keepAll ha
    obtain ⟨hnumber, hodd⟩ := keep_eq_error (by omega) refused
    refine .inr ⟨?_, _, hnumber, hodd⟩
    rw [Fault.kind_eq_option_iff, hnumber]
    rfl

/-- They are cut off just if the bytes end within a frame, and those before it are not refused. -/
theorem readOptions_eq_truncated_iff (hcount : count ≤ maxOptions) :
    readOptions code count 0 ∅ bytes = .error fault ∧ fault.kind = .truncated ↔
      ∃ (frames : List Frame) (rest : Bytes) (options : List Opt), frames.length < count ∧
        (∀ f ∈ frames, f.IsWritable) ∧ bytes = frames.flatMap Frame.bytes ++ rest ∧
        Selects code 0 ∅ frames options ∧ Frame.Cut (Frame.numberAfter 0 frames) rest fault := by
  rw [readOptions_eq_error_iff]
  constructor
  · rintro ⟨⟨frames, rest, kept', hlt, hw, hbytes, ha, hstops⟩, hkind⟩
    have hempty : (∅ : Options).length = 0 := rfl
    have hlength := length_le_of_keepAll ha
    cases hstops with
    -- Cut off are the bytes of a frame. A frame that is refused is another kind of fault.
    | cut cut =>
      obtain ⟨options, hselects, -⟩ :=
        (keepAll_eq_ok_iff (by omega) fun o ho => absurd ho List.not_mem_nil).1 ha
      exact ⟨frames, rest, options, hlt, hw, hbytes, hselects, cut⟩
    | refused writable bytes_eq refused =>
      have hnumber := (keep_eq_error (by omega) refused).1
      have hoption : fault.kind = .option := by
        rw [Fault.kind_eq_option_iff, hnumber]
        rfl
      cases hoption.symm.trans hkind
  · rintro ⟨frames, rest, options, hlt, hw, hbytes, hselects, hcut⟩
    have hempty : (∅ : Options).length = 0 := rfl
    obtain ⟨kept', ha⟩ := exists_keepAll_of_selects hselects (by omega)
    exact ⟨⟨frames, rest, kept', hlt, hw, hbytes, ha, .cut hcut⟩, hcut.kind_eq⟩

/-! ### Datagrams -/

/-- A datagram starts with the four bytes of the header (version, type and count in the first one,
    then the code, then the id) and goes on with the bytes of the frames; the rest comes after
    them. The header may count more frames than these. -/
structure Parts.StartOf (p : Parts) (b : Bytes) : Prop where
  count_lt : p.header.count < 16
  bytes_eq : ∃ (first high low : UInt8) (body : Bytes),
    first.toNat = p.header.version * 64 + p.header.type.number * 16 + p.header.count ∧
      p.header.id.toNat = high.toNat * 256 + low.toNat ∧ Frame.Laid p.frames body ∧
      b = first :: p.header.code :: high :: low :: (body ++ p.rest)

theorem Parts.startOf_iff {p : Parts} {b : Bytes} :
    p.StartOf b ↔ p.header.count < 16 ∧ p.header.version < 4 ∧ (∀ f ∈ p.frames, f.IsWritable) ∧
      b = p.header.bytes ++ (p.frames.flatMap Frame.bytes ++ p.rest) := by
  constructor
  · rintro ⟨hc, first, high, low, body, hfirst, hid, hlaid, rfl⟩
    obtain ⟨hv, hbytes⟩ := (Header.bytes_eq_iff hc).1 ⟨hfirst, hid⟩
    obtain ⟨hw, rfl⟩ := Frame.laid_iff.1 hlaid
    exact ⟨hc, hv, hw, hbytes ▸ rfl⟩
  · rintro ⟨hc, hv, hw, rfl⟩
    obtain ⟨hfirst, hid⟩ := (Header.bytes_eq_iff hc).2 ⟨hv, rfl⟩
    exact ⟨hc, _, _, _, _, hfirst, hid, Frame.laid_iff.2 ⟨hw, rfl⟩, rfl⟩

end Coap.Wire

namespace Coap.Message

open Wire

variable {b : Bytes} {fault : Fault}

/-- A datagram ends within a frame, with a given fault: its header is in order, fewer frames than
    the header counts are there, none of them is refused, and the next one is cut off. -/
structure BreaksOff (b : Bytes) (fault : Fault) (p : Parts) : Prop where
  start : p.StartOf b
  version_eq : p.header.version = protocolVersion
  assigned : (Code.ofNumber p.header.code).isUnassigned = false
  type_of_empty : Code.ofNumber p.header.code = .empty →
    p.header.type = .ack ∨ p.header.type = .rst
  length_lt : p.frames.length < p.header.count
  selects : ∃ options, Selects (Code.ofNumber p.header.code) 0 ∅ p.frames options
  cut : Frame.Cut (Frame.numberAfter 0 p.frames) p.rest fault

/-- The kinds of faults that a datagram may have: never that of too many options, and that of an
    option only with an odd number. -/
inductive Classified (fault : Fault) : Prop
  | header (kind_eq : fault.kind = .header)
  | unsupported (kind_eq : fault.kind = .unsupported)
  | truncated (kind_eq : fault.kind = .truncated)
  | option {number : Nat} (kind_eq : fault.kind = .option)
      (number_eq : fault.optionNumber? = some number) (odd : number % 2 = 1)

theorem decode_eq_error_iff :
    decode b = .error fault ↔
      b.length < 4 ∧ fault = .short b.length ∨
        ∃ h body, Header.ofBytes? b = some (h, body) ∧
          (headerFault? h = some fault ∨ headerFault? h = none ∧
            readOptions (Code.ofNumber h.code) h.count 0 ∅ body = .error fault) := by
  rw [decode, ← Header.ofBytes?_eq_none_iff]
  cases hb : Header.ofBytes? b with
  | none => simp [eq_comm]
  | some p =>
    obtain ⟨h, body⟩ := p
    cases hh : headerFault? h with
    | some fault' => simp [hh]
    | none =>
      cases hr : readOptions (Code.ofNumber h.code) h.count 0 ∅ body with
      | error fault' => simp [hh, hr]
      | ok p => simp [hh, hr]

theorem kind_of_headerFault? {h : Header} (hfault : headerFault? h = some fault) :
    fault.kind = .header ∨ fault.kind = .unsupported := by
  rw [headerFault?] at hfault
  by_cases hv : h.version = protocolVersion
  · rw [if_neg (not_not_intro hv)] at hfault
    generalize Code.ofNumber h.code = code at hfault
    -- The version is right, so it is the code, alone or with this type, that is not supported.
    generalize h.type = type at hfault
    refine .inr ?_
    cases code with
    | unassigned number =>
      obtain rfl := Option.some.inj hfault
      rfl
    | empty =>
      cases type with
      | con | non =>
        obtain rfl := Option.some.inj hfault
        rfl
      | ack | rst => cases hfault
    | _ => cases hfault
  · rw [if_pos hv] at hfault
    obtain rfl := Option.some.inj hfault
    exact .inl rfl

theorem classified_of_decode (h : decode b = .error fault) : Classified fault := by
  rcases decode_eq_error_iff.1 h with ⟨-, rfl⟩ | ⟨header, body, hb, hfault | ⟨-, hr⟩⟩
  · exact .header rfl
  · exact (kind_of_headerFault? hfault).elim .header .unsupported
  · have hcount := (Header.ofBytes?_eq_some_iff.1 hb).2.1
    rcases kind_of_readOptions (Nat.le_of_lt_succ hcount) hr with hkind | ⟨hkind, number, hn, hodd⟩
    · exact .truncated hkind
    · exact .option hkind hn hodd

theorem decode_eq_truncated_iff :
    decode b = .error fault ∧ fault.kind = .truncated ↔ ∃ p, BreaksOff b fault p := by
  constructor
  · rintro ⟨h, hkind⟩
    -- A header that is missing or not in order is another kind of fault.
    rcases decode_eq_error_iff.1 h with ⟨-, rfl⟩ | ⟨header, body, hb, hfault | ⟨hnone, hr⟩⟩
    · cases hkind
    · rcases kind_of_headerFault? hfault with hheader | hunsupported
      · cases hheader.symm.trans hkind
      · cases hunsupported.symm.trans hkind
    · obtain ⟨hv, hc, rfl⟩ := Header.ofBytes?_eq_some_iff.1 hb
      obtain ⟨frames, rest, options, hlt, hw, rfl, hselects, hcut⟩ :=
        (readOptions_eq_truncated_iff (Nat.le_of_lt_succ hc)).1 ⟨hr, hkind⟩
      obtain ⟨hversion, hassigned, hempty⟩ := headerFault?_eq_none_iff.1 hnone
      exact ⟨⟨header, frames, rest⟩, Parts.startOf_iff.2 ⟨hc, hv, hw, rfl⟩, hversion, hassigned,
        hempty, hlt, ⟨options, hselects⟩, hcut⟩
  · -- The header is in order and the frames before are not refused, so the reader gets as far as
    -- the cut.
    rintro ⟨⟨header, frames, rest⟩, hstart, hversion, hassigned, hempty, hlt,
      ⟨options, hselects⟩, hcut⟩
    obtain ⟨hc, hv, hw, rfl⟩ := Parts.startOf_iff.1 hstart
    dsimp only at *
    obtain ⟨hr, hkind⟩ := (readOptions_eq_truncated_iff (Nat.le_of_lt_succ hc)).2
      ⟨frames, rest, options, hlt, hw, rfl, hselects, hcut⟩
    refine ⟨decode_eq_error_iff.2 (.inr ⟨header, _, Header.ofBytes?_append hv hc _, .inr ⟨?_, hr⟩⟩),
      hkind⟩
    exact headerFault?_eq_none_iff.2 ⟨hversion, hassigned, hempty⟩

/-- Every datagram is read without a trap, even in place. If it is not read its fault is one of a
    few kinds, and it is cut off just if it ends within a frame, with nothing wrong before. -/
theorem decode_safe (b : Bytes) :
    decodeAt b = .ok (decode b) ∧ (∀ fault, decode b = .error fault → Classified fault) ∧
      ∀ fault, decode b = .error fault ∧ fault.kind = .truncated ↔ ∃ p, BreaksOff b fault p :=
  ⟨decodeAt_eq b, fun _ => classified_of_decode, fun _ => decode_eq_truncated_iff⟩

/-- A value of five bytes is to come, and there are two. -/
theorem decode_safe_value_missing :
    let b : Bytes := [0x41, 1, 0, 1, 0x95, 97, 98]
    decodeAt b = .ok (.error (.valueMissing 9 5 2)) ∧ Classified (.valueMissing 9 5 2) ∧
      ∃ p, BreaksOff b (.valueMissing 9 5 2) p := by
  intro b
  obtain ⟨hsafe, hclassified, htruncated⟩ := decode_safe b
  have h : decode b = .error (.valueMissing 9 5 2) := by decide +kernel
  exact ⟨hsafe.trans (congrArg Except.ok h), hclassified _ h, (htruncated _).1 ⟨h, rfl⟩⟩

end Coap.Message

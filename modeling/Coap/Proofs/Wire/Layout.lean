import Coap.Proofs.Wire.Fencepost

/-!
# The layout of datagrams

The bytes of a datagram determine its parts: a header, as many frames as this counts, and a rest
(`Parts.Of`). Going through the frames, a receiver keeps the options that it knows and accepts and
skips the other frames (`Selects`); where a frame must not be skipped there is no way to go on. As
no more frames come than a message may have options, there is always room for one more option, so
whether a frame may be skipped depends on its number alone.

* `Parts.Of.unique`: a datagram has its parts in one way only;
* `keep_eq_ok_iff`, `keepAll_eq_ok_iff`: what becomes of a frame, and of all frames;
* `Message.decode_eq_ok_iff_parts`: the datagrams that are read, and what is read from them.
-/

namespace Coap.Wire

/-! ### Frames -/

namespace Frame

/-- The bytes of some frames, one after the other. The first byte of a frame has its step in the
    upper half and the length of its value in the lower one; if the latter is 15, a second byte
    tells by how much the length exceeds this. -/
inductive Laid : List Frame → Bytes → Prop
  | nil : Laid [] []
  | short {f : Frame} {frames : List Frame} {first : UInt8} {bytes : Bytes}
      (upper : first.toNat / 16 = f.delta) (lower : first.toNat % 16 = f.value.length)
      (lower_ne : first.toNat % 16 ≠ 15) (rest : Laid frames bytes) :
      Laid (f :: frames) (first :: (f.value ++ bytes))
  | long {f : Frame} {frames : List Frame} {first more : UInt8} {bytes : Bytes}
      (upper : first.toNat / 16 = f.delta) (lower : first.toNat % 16 = 15)
      (length_eq : f.value.length = 15 + more.toNat) (rest : Laid frames bytes) :
      Laid (f :: frames) (first :: more :: (f.value ++ bytes))

theorem Laid.cons {f : Frame} (hf : f.IsWritable) {frames : List Frame} {bytes : Bytes}
    (rest : Laid frames bytes) : Laid (f :: frames) (f.bytes ++ bytes) := by
  have hd := hf.delta_le
  have hv := hf.length_le
  rw [maxNibble] at hd
  rw [Opt.Name.longest] at hv
  rw [Frame.bytes, maxNibble]
  -- A frame is written with its length in the first byte, or with a byte more for the rest of it.
  split
  · rename_i hshort
    have hfirst : (UInt8.ofNat (f.delta * 16 + f.value.length)).toNat =
        f.delta * 16 + f.value.length := UInt8.toNat_ofNat_of_lt' (by rw [UInt8.size]; omega)
    exact .short (by omega) (by omega) (by omega) rest
  · rename_i hlong
    have hfirst : (UInt8.ofNat (f.delta * 16 + 15)).toNat = f.delta * 16 + 15 :=
      UInt8.toNat_ofNat_of_lt' (by rw [UInt8.size]; omega)
    have hmore : (UInt8.ofNat (f.value.length - 15)).toNat = f.value.length - 15 :=
      UInt8.toNat_ofNat_of_lt' (by rw [UInt8.size]; omega)
    exact .long (by omega) (by omega) (by omega) rest

/-- Frames are laid out just if they can be written, in their written forms. -/
theorem laid_iff {frames : List Frame} {bytes : Bytes} :
    Laid frames bytes ↔ (∀ f ∈ frames, f.IsWritable) ∧ bytes = frames.flatMap Frame.bytes := by
  constructor
  · -- A frame that is laid out is the one that the reader splits off, so it can be written.
    intro h
    induction h with
    | nil => exact ⟨List.forall_mem_nil _, rfl⟩
    | @short f frames first bytes upper lower lower_ne _ ih =>
      have hlt : first.toNat % 16 < 15 := by omega
      have htake : take 0 (first :: (f.value ++ bytes)) = .ok (f, bytes) := by
        rw [take.eq_def]
        simp only [maxNibble, upper, if_pos hlt]
        rw [lower, takeValue_append]
      obtain ⟨hw, he⟩ := take_eq_ok_iff.1 htake
      exact ⟨List.forall_mem_cons.2 ⟨hw, ih.1⟩, by rw [he, List.flatMap_cons, ← ih.2]⟩
    | @long f frames first more bytes upper lower length_eq _ ih =>
      have htake : take 0 (first :: more :: (f.value ++ bytes)) = .ok (f, bytes) := by
        rw [take.eq_def]
        simp only [maxNibble, upper, lower, Nat.lt_irrefl, if_false]
        rw [← length_eq, takeValue_append]
      obtain ⟨hw, he⟩ := take_eq_ok_iff.1 htake
      exact ⟨List.forall_mem_cons.2 ⟨hw, ih.1⟩, by rw [he, List.flatMap_cons, ← ih.2]⟩
  · -- The other way round each frame is one of the two kinds, by its length.
    rintro ⟨hw, rfl⟩
    induction frames with
    | nil => exact .nil
    | cons f frames ih =>
      obtain ⟨hf, hw⟩ := List.forall_mem_cons.1 hw
      exact .cons hf (ih hw)

/-- Bytes start with as many frames in one way only. -/
theorem Laid.unique {frames frames' : List Frame} {bytes bytes' rest rest' : Bytes}
    (h : Laid frames bytes) (h' : Laid frames' bytes') (hlength : frames.length = frames'.length)
    (heq : bytes ++ rest = bytes' ++ rest') : frames = frames' ∧ rest = rest' := by
  obtain ⟨hw, rfl⟩ := laid_iff.1 h
  obtain ⟨hw', rfl⟩ := laid_iff.1 h'
  clear h h'
  induction frames generalizing frames' with
  | nil =>
    obtain rfl := List.eq_nil_of_length_eq_zero hlength.symm
    exact ⟨rfl, heq⟩
  | cons f frames ih =>
    match frames' with
    | [] => cases hlength
    | f' :: frames' =>
      obtain ⟨hf, hws⟩ := List.forall_mem_cons.1 hw
      obtain ⟨hf', hws'⟩ := List.forall_mem_cons.1 hw'
      rw [List.flatMap_cons, List.append_assoc, List.flatMap_cons, List.append_assoc] at heq
      -- The first frame is read off the same bytes on both sides.
      have htake := take_append hf.delta_le hf.length_le 0 (frames.flatMap Frame.bytes ++ rest)
      rw [heq, take_append hf'.delta_le hf'.length_le] at htake
      obtain ⟨rfl, hbytes⟩ := Prod.mk.inj (Except.ok.inj htake)
      obtain ⟨rfl, rfl⟩ := ih (Nat.succ.inj hlength) hws hws' hbytes.symm
      exact ⟨rfl, rfl⟩

end Frame

/-! ### Parts -/

/-- The parts of a datagram. -/
structure Parts where
  header : Header
  frames : List Frame
  rest : Bytes

/-- A datagram has some parts if it starts with the four bytes of the header (version, type and
    count in the first one, then the code, then the id), goes on with the bytes of as many frames
    as the header counts, and ends with the rest. -/
structure Parts.Of (p : Parts) (b : Bytes) : Prop where
  count_eq : p.header.count = p.frames.length
  count_lt : p.header.count < 16
  bytes_eq : ∃ (first high low : UInt8) (body : Bytes),
    first.toNat = p.header.version * 64 + p.header.type.number * 16 + p.header.count ∧
      p.header.id.toNat = high.toNat * 256 + low.toNat ∧ Frame.Laid p.frames body ∧
      b = first :: p.header.code :: high :: low :: (body ++ p.rest)

/-- A header takes up four bytes just if they are its written form. -/
theorem Header.bytes_eq_iff {h : Header} (hc : h.count < 16) {first high low : UInt8} :
    first.toNat = h.version * 64 + h.type.number * 16 + h.count ∧
        h.id.toNat = high.toNat * 256 + low.toNat ↔
      h.version < 4 ∧ [first, h.code, high, low] = h.bytes := by
  have ht := h.type.number_lt
  have hf := first.toNat_lt
  have hl := low.toNat_lt
  have hh := high.toNat_lt
  have hid := h.id.toNat_lt
  rw [Header.bytes]
  simp only [List.cons.injEq, true_and, and_true, ← UInt8.toNat_inj, UInt8.toNat_ofNat']
  omega

/-- The parts of a datagram are what it is made up of in its written form. -/
theorem Parts.of_iff {p : Parts} {b : Bytes} :
    p.Of b ↔ p.frames.length = p.header.count ∧ p.header.count < 16 ∧ p.header.version < 4 ∧
      (∀ f ∈ p.frames, f.IsWritable) ∧
      b = p.header.bytes ++ (p.frames.flatMap Frame.bytes ++ p.rest) := by
  constructor
  · rintro ⟨hcount, hc, first, high, low, body, hfirst, hid, hlaid, rfl⟩
    obtain ⟨hv, hbytes⟩ := (Header.bytes_eq_iff hc).1 ⟨hfirst, hid⟩
    obtain ⟨hw, rfl⟩ := Frame.laid_iff.1 hlaid
    exact ⟨hcount.symm, hc, hv, hw, hbytes ▸ rfl⟩
  · rintro ⟨hcount, hc, hv, hw, rfl⟩
    obtain ⟨hfirst, hid⟩ := (Header.bytes_eq_iff hc).2 ⟨hv, rfl⟩
    exact ⟨hcount.symm, hc, _, _, _, _, hfirst, hid, Frame.laid_iff.2 ⟨hw, rfl⟩, rfl⟩

/-- A datagram has its parts in one way only. -/
theorem Parts.Of.unique {p p' : Parts} {b : Bytes} (h : p.Of b) (h' : p'.Of b) : p' = p := by
  obtain ⟨header, frames, rest⟩ := p
  obtain ⟨header', frames', rest'⟩ := p'
  obtain ⟨hcount, hc, hv, hw, rfl⟩ := Parts.of_iff.1 h
  obtain ⟨hcount', hc', hv', hw', heq⟩ := Parts.of_iff.1 h'
  dsimp only at *
  have hheader := Header.ofBytes?_append hv hc (frames.flatMap Frame.bytes ++ rest)
  rw [heq, Header.ofBytes?_append hv' hc'] at hheader
  obtain ⟨rfl, hbody⟩ := Prod.mk.inj (Option.some.inj hheader)
  obtain ⟨rfl, rfl⟩ := Frame.Laid.unique (Frame.laid_iff.2 ⟨hw', rfl⟩)
    (Frame.laid_iff.2 ⟨hw, rfl⟩) (hcount'.trans hcount.symm) hbody
  rfl

/-! ### Options -/

/-- The option of a frame with a given number and value is added to those kept so far. -/
structure Accepts (code : Code) (kept : Options) (number : Nat) (value : Bytes) (o : Opt)
    (kept' : Options) : Prop where
  known : Opt.Name.ofNumber? code number = some o.name
  read : Opt.ofBytes o.name value = .ok o
  added : kept.add code o = .ok kept'

/-- The options of some frames that follow the number `last`, where `kept` are the options before.
    A frame whose number is a multiple of 14 is passed over. Any other has an option that is added,
    or it has an even number and is skipped. -/
inductive Selects (code : Code) : (last : Nat) → (kept : Options) → List Frame → List Opt → Prop
  | nil {last : Nat} {kept : Options} : Selects code last kept [] []
  | fencepost {last : Nat} {kept : Options} {f : Frame} {frames : List Frame} {options : List Opt}
      (post : (last + f.delta) % 14 = 0)
      (rest : Selects code (last + f.delta) kept frames options) :
      Selects code last kept (f :: frames) options
  | keep {last : Nat} {kept kept' : Options} {f : Frame} {frames : List Frame} {o : Opt}
      {options : List Opt} (no_post : (last + f.delta) % 14 ≠ 0)
      (accepted : Accepts code kept (last + f.delta) f.value o kept')
      (rest : Selects code (last + f.delta) kept' frames options) :
      Selects code last kept (f :: frames) (o :: options)
  | skip {last : Nat} {kept : Options} {f : Frame} {frames : List Frame} {options : List Opt}
      (no_post : (last + f.delta) % 14 ≠ 0) (elective : (last + f.delta) % 2 = 0)
      (refused : ∀ o kept', ¬ Accepts code kept (last + f.delta) f.value o kept')
      (rest : Selects code (last + f.delta) kept frames options) :
      Selects code last kept (f :: frames) options

variable {code : Code} {kept kept' options : Options} {number last : Nat} {value : Bytes} {o : Opt}

theorem accepts_iff :
    Accepts code kept number value o kept' ↔
      resolve code number value = .ok o ∧ kept.add code o = .ok kept' := by
  constructor
  · rintro ⟨hknown, hread, hadded⟩
    rw [resolve, hknown]
    exact ⟨hread, hadded⟩
  · rintro ⟨hresolve, hadded⟩
    rw [resolve] at hresolve
    split at hresolve
    · rename_i name hname
      obtain ⟨rfl, -⟩ := Opt.ofBytes_eq_ok_iff.1 hresolve
      exact ⟨hname, hresolve, hadded⟩
    · cases hresolve

theorem optionNumber?_of_resolve {fault : Fault}
    (h : resolve code number value = .error fault) : fault.optionNumber? = some number := by
  rw [resolve] at h
  split at h
  · rename_i name hname
    have hnumber := congrArg some (Opt.Name.number_of_ofNumber? hname)
    rw [Opt.ofBytes] at h
    split at h
    · split at h
      · cases h
      · exact Except.error.inj h ▸ hnumber
    · exact Except.error.inj h ▸ hnumber
  · exact Except.error.inj h ▸ rfl

theorem optionNumber?_of_add (hroom : kept.length < maxOptions) {fault : Fault}
    (h : kept.add code o = .error fault) : fault.optionNumber? = some o.number := by
  rw [Options.add] at h
  split at h
  · exact Except.error.inj h ▸ rfl
  split at h
  · exact Except.error.inj h ▸ rfl
  split at h
  · rename_i hfull
    exact absurd hroom (Nat.not_lt.2 hfull)
  split at h
  · exact Except.error.inj h ▸ rfl
  · cases h

/-- What is wrong with a frame is a fault of the option with its number, as long as there is room
    for one more. -/
theorem optionNumber?_of_refused (hroom : kept.length < maxOptions) {fault : Fault}
    (h : (resolve code number value).bind (kept.add code) = .error fault) :
    fault.optionNumber? = some number := by
  cases hresolve : resolve code number value with
  | error fault' =>
    rw [hresolve] at h
    obtain rfl := Except.error.inj h
    exact optionNumber?_of_resolve hresolve
  | ok o =>
    rw [hresolve] at h
    rw [optionNumber?_of_add hroom h, (resolve_eq_ok hresolve).1]

theorem isFencepost_iff : isFencepost number ↔ number % 14 = 0 := beq_iff_eq

theorem bind_add_eq_ok_iff :
    (resolve code number value).bind (kept.add code) = .ok kept' ↔
      ∃ o, Accepts code kept number value o kept' := by
  simp only [accepts_iff]
  cases resolve code number value <;> simp [Except.bind]

/-- A frame that has no option to add may be skipped just if its number is even. -/
theorem keep_of_refused (hroom : kept.length < maxOptions) (hpost : number % 14 ≠ 0)
    (hrefused : ∀ o kept', ¬ Accepts code kept number value o kept') :
    keep code kept number value = .ok kept' ↔ number % 2 = 0 ∧ kept' = kept := by
  rw [keep, if_neg fun h => hpost (isFencepost_iff.1 h)]
  -- Nothing can be accepted, so what is left is whether the fault is one of a critical option.
  cases hbind : (resolve code number value).bind (kept.add code) with
  | ok kept'' =>
    obtain ⟨o, haccepts⟩ := bind_add_eq_ok_iff.1 hbind
    exact absurd haccepts (hrefused o kept'')
  | error fault =>
    have hcritical : fault.isCritical = (number % 2 == 1) := by
      rw [Fault.isCritical, optionNumber?_of_refused hroom hbind]
      rfl
    dsimp only
    rw [hcritical]
    rcases Nat.mod_two_eq_zero_or_one number with heven | hodd
    · simp [heven, eq_comm]
    · simp [hodd]

/-- What becomes of a frame if there is room for one more option. -/
theorem keep_eq_ok_iff (hroom : kept.length < maxOptions) :
    keep code kept number value = .ok kept' ↔
      number % 14 = 0 ∧ kept' = kept ∨
        number % 14 ≠ 0 ∧ ((∃ o, Accepts code kept number value o kept') ∨
          number % 2 = 0 ∧ kept' = kept ∧ ∀ o kept', ¬ Accepts code kept number value o kept') := by
  by_cases hpost : number % 14 = 0
  · rw [keep_of_isFencepost (isFencepost_iff.2 hpost)]
    simp [hpost, eq_comm]
  by_cases haccepts : ∃ o kept', Accepts code kept number value o kept'
  · -- The option of the frame is added.
    obtain ⟨o, kept'', haccepts⟩ := haccepts
    have hbind := bind_add_eq_ok_iff.2 ⟨o, haccepts⟩
    have hnone : ¬ ∀ o kept', ¬ Accepts code kept number value o kept' :=
      fun hrefused => hrefused o kept'' haccepts
    rw [← bind_add_eq_ok_iff, keep, if_neg fun h => hpost (isFencepost_iff.1 h), hbind]
    simp only [hpost, hnone, false_and, and_false, or_false, false_or, ne_eq, not_false_eq_true,
      true_and]
  · have hrefused : ∀ o kept', ¬ Accepts code kept number value o kept' :=
      fun o kept' h => haccepts ⟨o, kept', h⟩
    rw [keep_of_refused hroom hpost hrefused]
    simp [hpost, hrefused]

/-- An option that is added has the number of its frame, so its place is after all those that are
    kept. -/
theorem Accepts.toList_eq (h : Accepts code kept number value o kept')
    (hle : ∀ a ∈ kept.toList, a.number ≤ number) :
    kept'.toList = kept.toList ++ [o] ∧ ∀ a ∈ kept'.toList, a.number ≤ number := by
  obtain ⟨hresolve, hadd⟩ := accepts_iff.1 h
  have hnumber := (resolve_eq_ok hresolve).1
  have hlist := (Options.add_eq_ok_iff.1 hadd).2.2.2.2
  rw [insertOpt_of_le (hnumber ▸ hle)] at hlist
  refine ⟨hlist, fun a ha => ?_⟩
  rw [hlist, List.mem_append, List.mem_singleton] at ha
  rcases ha with ha | rfl
  · exact hle a ha
  · exact Nat.le_of_eq hnumber

theorem keepAll_cons_eq_ok_iff {f : Frame} {frames : List Frame} :
    keepAll code last kept (f :: frames) = .ok options ↔
      ∃ kept', keep code kept (last + f.delta) f.value = .ok kept' ∧
        keepAll code (last + f.delta) kept' frames = .ok options := by
  rw [keepAll]
  cases keep code kept (last + f.delta) f.value with
  | error fault => simp
  | ok kept' => simp

/-- What becomes of all frames, if there is room for as many options: those that are selected are
    added at the end. -/
theorem keepAll_eq_ok_iff {frames : List Frame} (hroom : kept.length + frames.length ≤ maxOptions)
    (hlast : ∀ o ∈ kept.toList, o.number ≤ last) :
    keepAll code last kept frames = .ok options ↔
      ∃ added, Selects code last kept frames added ∧ options.toList = kept.toList ++ added := by
  induction frames generalizing last kept with
  | nil =>
    constructor
    · intro h
      obtain rfl := Except.ok.inj h
      exact ⟨[], .nil, (List.append_nil _).symm⟩
    · rintro ⟨added, hselects, hlist⟩
      cases hselects
      rw [List.append_nil] at hlist
      exact congrArg Except.ok (Options.ext hlist.symm)
  | cons f frames ih =>
    rw [List.length_cons] at hroom
    have hroom' : kept.length < maxOptions := by omega
    have hlast' : ∀ o ∈ kept.toList, o.number ≤ last + f.delta := fun o ho =>
      Nat.le_add_right_of_le (hlast o ho)
    have hleft : kept.length + frames.length ≤ maxOptions := by omega
    -- A frame is dropped and leaves the options as they are, or adds one behind all others.
    have hstay := ih hleft hlast'
    have hgrow : ∀ {o kept'}, Accepts code kept (last + f.delta) f.value o kept' →
        (keepAll code (last + f.delta) kept' frames = .ok options ↔
          ∃ added, Selects code (last + f.delta) kept' frames added ∧
            options.toList = kept.toList ++ o :: added) := by
      intro o kept' haccepts
      obtain ⟨hlist, hle⟩ := haccepts.toList_eq hlast'
      have hlength : kept'.length = kept.length + 1 := by
        rw [Options.length, hlist, List.length_append]
        rfl
      rw [ih (by omega) hle, hlist]
      simp only [List.append_assoc, List.singleton_append]
    rw [keepAll_cons_eq_ok_iff]
    constructor
    · -- Each way in which a frame is kept is one in which it is selected, and the other way round.
      rintro ⟨kept', hk, hall⟩
      rcases (keep_eq_ok_iff hroom').1 hk with
        ⟨post, rfl⟩ | ⟨no_post, ⟨o, haccepts⟩ | ⟨elective, rfl, refused⟩⟩
      · obtain ⟨added, hselects, hlist⟩ := hstay.1 hall
        exact ⟨added, .fencepost post hselects, hlist⟩
      · obtain ⟨added, hselects, hlist⟩ := (hgrow haccepts).1 hall
        exact ⟨o :: added, .keep no_post haccepts hselects, hlist⟩
      · obtain ⟨added, hselects, hlist⟩ := hstay.1 hall
        exact ⟨added, .skip no_post elective refused hselects, hlist⟩
    · rintro ⟨added, hselects, hlist⟩
      cases hselects with
      | fencepost post rest =>
        exact ⟨kept, (keep_eq_ok_iff hroom').2 (.inl ⟨post, rfl⟩), hstay.2 ⟨added, rest, hlist⟩⟩
      | keep no_post accepted rest =>
        exact ⟨_, (keep_eq_ok_iff hroom').2 (.inr ⟨no_post, .inl ⟨_, accepted⟩⟩),
          (hgrow accepted).2 ⟨_, rest, hlist⟩⟩
      | skip no_post elective refused rest =>
        exact ⟨kept, (keep_eq_ok_iff hroom').2 (.inr ⟨no_post, .inr ⟨elective, rfl, refused⟩⟩),
          hstay.2 ⟨added, rest, hlist⟩⟩

end Coap.Wire

namespace Coap.Message

open Wire

/-! ### Messages -/

/-- A datagram is read just if it has parts, which it then has in one way only, such that the header
    is one of this protocol with an assigned code, the empty one just on acknowledgements and
    resets, and no frame with an odd number is refused. The message has type, code and id of the
    header, the options of the frames in the order of these, and the rest as its payload, unless
    it is empty. -/
theorem decode_eq_ok_iff_parts {b : Bytes} {m : Message} :
    decode b = .ok m ↔
      ∃ p : Parts, p.Of b ∧ (∀ p' : Parts, p'.Of b → p' = p) ∧
        p.header.version = protocolVersion ∧ m.code.isUnassigned = false ∧
        (m.code = .empty → m.type? = some .ack ∨ m.type? = some .rst) ∧
        Selects m.code 0 ∅ p.frames m.options.toList ∧
        m.version = protocolVersion ∧ m.type? = some p.header.type ∧
        m.code = Code.ofNumber p.header.code ∧ m.id? = some p.header.id ∧
        m.payload = if m.code = .empty then [] else p.rest := by
  -- There are so few frames that there is room for all of their options.
  have hoptions : ∀ {code : Code} {frames : List Frame} {options : Options},
      frames.length < 16 →
        (keepAll code 0 ∅ frames = .ok options ↔ Selects code 0 ∅ frames options.toList) := by
    intro code frames options hlength
    have hroom : (∅ : Options).length + frames.length ≤ maxOptions := by
      have : (∅ : Options).length = 0 := rfl
      rw [maxOptions]
      omega
    rw [keepAll_eq_ok_iff hroom fun o ho => absurd ho List.not_mem_nil]
    simp [Options.toList_empty]
  rw [decode_eq_ok_iff]
  constructor
  · -- What was read has parts, and its options are those of the frames.
    rintro ⟨header, frames, rest, options, rfl, hheader, hcount, hc, hw, hk, rfl⟩
    obtain ⟨hversion, hassigned, hempty⟩ := headerFault?_eq_none_iff.1 hheader
    have hparts : (⟨header, frames, rest⟩ : Parts).Of
        (header.bytes ++ (frames.flatMap Frame.bytes ++ rest)) :=
      Parts.of_iff.2 ⟨hcount, hc, by rw [hversion]; decide, hw, rfl⟩
    refine ⟨_, hparts, fun p' => hparts.unique, hversion, hassigned, fun h => ?_,
      (hoptions (hcount ▸ hc)).1 hk, rfl, rfl, rfl, rfl, ?_⟩
    · exact (hempty h).imp (congrArg some) (congrArg some)
    · simp [Code.isEmpty]
  · -- A datagram with such parts passes each check of the reader.
    rintro ⟨p, hparts, -, hversion, hassigned, hempty, hselects, hv, ht, hcode, hid, hpayload⟩
    obtain ⟨header, frames, rest⟩ := p
    obtain ⟨hcount, hc, -, hw, rfl⟩ := Parts.of_iff.1 hparts
    obtain ⟨version, type?, code, id?, options, payload⟩ := m
    dsimp only at *
    subst hv ht hcode hid
    refine ⟨header, frames, rest, options, rfl, ?_, hcount, hc, hw,
      (hoptions (hcount ▸ hc)).2 hselects, ?_⟩
    · refine headerFault?_eq_none_iff.2 ⟨hversion, hassigned, fun h => ?_⟩
      exact (hempty h).imp Option.some.inj Option.some.inj
    · rw [hpayload]
      simp [Code.isEmpty]

end Coap.Message

import Coap.Proofs.Wire.Layout
import Coap.Proofs.Wire.RoundTrip

/-!
# Bridging

The options of a message can also be written by a loop, with the number of the last frame in
sixteen bits: as long as the next option is more than fifteen away it puts in a fencepost, and then
it writes the option. There are three things that could go wrong: that more is subtracted from a
number than it is, that a number gets too large, and that the fenceposts never come close enough. A
run of the loop (`Writes`) is finite, and goes on only where nothing of this happens; so the loop
works just if there is a run. There always is one, as numbers only grow, and a fencepost lies beyond
the last number but not beyond that of the option.

* `Writes.unique`: a run has one outcome;
* `exists_writes`: the loop comes to the frames of the options;
* `carries_ofOptions`: what is read from these frames;
* `Message.bridging`: the written form of a message with any options.
-/

namespace Coap.Wire

/-! ### The loop -/

/-- What has been written so far. -/
structure Writer where
  /-- The number of the last frame. -/
  last : UInt16
  /-- How many frames there are. -/
  count : Nat
  body : Bytes

namespace Writer

/-- The writer before the first frame. -/
def start : Writer := ⟨0, 0, []⟩

/-- The step to a number, in the upper half of a byte. -/
def stepTo (w : Writer) (number : UInt16) : UInt8 := (number - w.last).toUInt8 <<< 4

/-- The number of the next fencepost. -/
def post (w : Writer) : UInt16 := (w.last / 14 + 1) * 14

/-- Writes the next fencepost. -/
def bridge (w : Writer) : Writer := ⟨w.post, w.count + 1, w.body ++ [w.stepTo w.post]⟩

/-- Writes a frame with a value. -/
def write (w : Writer) (number : UInt16) (value : Bytes) : Writer where
  last := number
  count := w.count + 1
  body :=
    if 15 ≤ value.length then
      w.body ++ [w.stepTo number ||| 15, UInt8.ofNat (value.length - 15)] ++ value
    else w.body ++ [w.stepTo number ||| UInt8.ofNat value.length] ++ value

end Writer

/-- The inner loop puts in fenceposts until an option is near. -/
inductive Bridges (number : UInt16) : Writer → Writer → Prop
  | near {w : Writer} (no_underflow : w.last ≤ number) (near : (number - w.last).toNat ≤ 15) :
      Bridges number w w
  | far {w w' : Writer} (no_underflow : w.last ≤ number) (far : 15 < (number - w.last).toNat)
      (no_overflow : (w.last.toNat / 14 + 1) * 14 < UInt16.size) (no_underflow' : w.last ≤ w.post)
      (rest : Bridges number w.bridge w') : Bridges number w w'

/-- The outer loop writes options, each after the fenceposts that lead to it. -/
inductive Writes : Writer → List Opt → Writer → Prop
  | nil {w : Writer} : Writes w [] w
  | cons {w w' w'' : Writer} {o : Opt} {options : List Opt}
      (bridges : Bridges (UInt16.ofNat o.number) w w') (fits : o.encode.length ≤ 15 + 255)
      (rest : Writes (w'.write (UInt16.ofNat o.number) o.encode) options w'') :
      Writes w (o :: options) w''

theorem Bridges.unique {number : UInt16} {w w₁ w₂ : Writer} (h₁ : Bridges number w w₁)
    (h₂ : Bridges number w w₂) : w₁ = w₂ := by
  induction h₁ with
  | near _ near =>
    cases h₂ with
    | near => rfl
    | far _ far => exact absurd near (Nat.not_le.2 far)
  | far _ far _ _ _ ih =>
    cases h₂ with
    | near _ near => exact absurd near (Nat.not_le.2 far)
    | far _ _ _ _ rest => exact ih rest

/-- A run has one outcome. -/
theorem Writes.unique {w w₁ w₂ : Writer} {options : List Opt} (h₁ : Writes w options w₁)
    (h₂ : Writes w options w₂) : w₁ = w₂ := by
  induction h₁ with
  | nil =>
    cases h₂
    rfl
  | cons bridges _ _ ih =>
    cases h₂ with
    | cons bridges' _ rest =>
      obtain rfl := bridges.unique bridges'
      exact ih rest

/-! ### The bytes of a frame -/

theorem or_eq_add : ∀ upper < 16, ∀ lower < 16,
    (UInt8.ofNat upper <<< 4) ||| UInt8.ofNat lower = UInt8.ofNat (upper * 16 + lower) := by
  decide +kernel

namespace Writer

variable {w : Writer} {number : UInt16}

theorem stepTo_or (hle : w.last ≤ number) (hnear : number.toNat - w.last.toNat ≤ 15) {lower : Nat}
    (hlower : lower < 16) :
    w.stepTo number ||| UInt8.ofNat lower =
      UInt8.ofNat ((number.toNat - w.last.toNat) * 16 + lower) := by
  have hbyte : (number - w.last).toUInt8 = UInt8.ofNat (number.toNat - w.last.toNat) := by
    rw [← UInt8.toNat_inj, UInt16.toNat_toUInt8, UInt16.toNat_sub_of_le _ _ hle,
      UInt8.toNat_ofNat']
  rw [stepTo, hbyte, or_eq_add _ (Nat.lt_succ_of_le hnear) _ hlower]

/-- A frame is written as it is otherwise. -/
theorem write_body (hle : w.last ≤ number) (hnear : number.toNat - w.last.toNat ≤ 15)
    (value : Bytes) :
    (w.write number value).body =
      w.body ++ (Frame.mk (number.toNat - w.last.toNat) value).bytes := by
  have hstep (lower : Nat) (hlower : lower < 16) := stepTo_or hle hnear hlower
  rw [write]
  -- The two kinds of frames are those of the ordinary writer. They differ in the lower half of a
  -- byte.
  by_cases hlong : 15 ≤ value.length
  · have hbytes : (Frame.mk (number.toNat - w.last.toNat) value).bytes =
        UInt8.ofNat ((number.toNat - w.last.toNat) * 16 + 15) ::
          UInt8.ofNat (value.length - 15) :: value := if_neg (Nat.not_lt.2 hlong)
    rw [if_pos hlong, hbytes, ← hstep 15 (by decide), List.append_assoc]
    rfl
  · have hshort : value.length < 15 := Nat.not_le.1 hlong
    have hbytes : (Frame.mk (number.toNat - w.last.toNat) value).bytes =
        UInt8.ofNat ((number.toNat - w.last.toNat) * 16 + value.length) :: value := if_pos hshort
    rw [if_neg hlong, hbytes, ← hstep _ (Nat.lt_succ_of_lt hshort), List.append_assoc]
    rfl

/-- So is a fencepost. -/
theorem bridge_body (hle : w.last ≤ w.post) (hnear : w.post.toNat - w.last.toNat ≤ 15) :
    w.bridge.body = w.body ++ (Frame.mk (w.post.toNat - w.last.toNat) []).bytes := by
  have hbyte : w.stepTo w.post ||| 0 = _ := stepTo_or hle hnear (Nat.succ_pos 15)
  rw [UInt8.or_zero] at hbyte
  rw [bridge, hbyte]
  rfl

theorem toNat_post (h : (w.last.toNat / 14 + 1) * 14 < UInt16.size) :
    w.post.toNat = (w.last.toNat / 14 + 1) * 14 := by
  rw [UInt16.size] at h
  have hone : (w.last / 14 + 1).toNat = w.last.toNat / 14 + 1 := by
    rw [UInt16.toNat_add, UInt16.toNat_div]
    exact Nat.mod_eq_of_lt (by change w.last.toNat / 14 + 1 < 2 ^ 16; omega)
  rw [post, UInt16.toNat_mul, hone]
  exact Nat.mod_eq_of_lt h

end Writer

/-! ### The loop comes to the frames -/

theorem toNat_number (o : Opt) : (UInt16.ofNat o.number).toNat = o.number :=
  UInt16.toNat_ofNat_of_lt' (Nat.lt_of_le_of_lt o.name.number_le (by decide))

/-- The difference of two numbers is what it is without a limit. -/
theorem toNat_sub_number {last : UInt16} {o : Opt} (h : last.toNat ≤ o.number) :
    last ≤ UInt16.ofNat o.number ∧
      (UInt16.ofNat o.number - last).toNat = o.number - last.toNat := by
  have hle : last ≤ UInt16.ofNat o.number := by rwa [UInt16.le_iff_toNat_le, toNat_number]
  refine ⟨hle, ?_⟩
  rw [UInt16.toNat_sub_of_le _ _ hle, toNat_number]

/-- If the next option is far, a fencepost comes before it. -/
theorem Frame.ofOptions_far {last : Nat} {o : Opt} (h : 15 < o.number - last)
    (options : List Opt) :
    ofOptions last (o :: options) =
      ⟨(last / 14 + 1) * 14 - last, []⟩ :: ofOptions ((last / 14 + 1) * 14) (o :: options) := by
  have hfar : maxNibble < o.number - last := h
  rw [ofOptions, if_pos hfar]
  rfl

theorem Frame.ofOptions_near {last : Nat} {o : Opt} (h : o.number - last ≤ 15)
    (options : List Opt) :
    ofOptions last (o :: options) = ⟨o.number - last, o.encode⟩ :: ofOptions o.number options := by
  have hnear : ¬ maxNibble < o.number - last := Nat.not_lt.2 h
  rw [ofOptions, if_neg hnear]

variable {w w' : Writer} {o : Opt} {options : List Opt}

/-- If the next option is far, then the fencepost in front of it is not. -/
theorem toNat_post_of_far (h : 15 < o.number - w.last.toNat) :
    w.post.toNat = (w.last.toNat / 14 + 1) * 14 ∧
      (w.last.toNat / 14 + 1) * 14 < UInt16.size ∧ w.last.toNat < w.post.toNat ∧
      w.post.toNat - w.last.toNat ≤ 14 ∧ w.post.toNat < o.number := by
  have hnumber := o.name.number_le
  have hfits : (w.last.toNat / 14 + 1) * 14 < UInt16.size := by
    rw [UInt16.size]
    rw [Opt.number] at h
    omega
  have hpost := Writer.toNat_post hfits
  refine ⟨hpost, hfits, ?_, ?_, ?_⟩ <;> omega

theorem Writes.of_bridge (h : 15 < o.number - w.last.toNat)
    (run : Writes w.bridge (o :: options) w') : Writes w (o :: options) w' := by
  obtain ⟨-, hfits, hgrows, -⟩ := toNat_post_of_far h
  have hbehind : w.last.toNat ≤ o.number := by omega
  obtain ⟨hle, hsub⟩ := toNat_sub_number hbehind
  cases run with
  | cons bridges fits rest =>
    exact .cons (.far hle (hsub ▸ h) hfits (Nat.le_of_lt hgrows) bridges) fits rest

/-- The loop comes to the frames of the options that are left, as long as none of them has a number
    that is behind already. -/
theorem exists_writes (hsorted : options.Pairwise fun a b => a.number ≤ b.number)
    (hlast : ∀ o ∈ options, w.last.toNat ≤ o.number) :
    ∃ w', Writes w options w' ∧
      w'.count = (Frame.ofOptions w.last.toNat options).length + w.count ∧
      w'.body = w.body ++ (Frame.ofOptions w.last.toNat options).flatMap Frame.bytes := by
  induction hw : w.last.toNat, options using Frame.ofOptions.induct generalizing w with
  | case1 =>
    rw [Frame.ofOptions]
    exact ⟨w, .nil, (Nat.zero_add _).symm, (List.append_nil _).symm⟩
  | case2 last o options hfar post =>
    rename_i ih
    subst hw
    -- A fencepost is put in, and the run goes on from there.
    obtain ⟨hpost, -, hgrows, hnear, hlt⟩ := toNat_post_of_far hfar
    have hlast' : ∀ a ∈ o :: options, w.bridge.last.toNat ≤ a.number :=
      List.forall_mem_cons.2 ⟨Nat.le_of_lt hlt, fun a ha =>
        Nat.le_trans (Nat.le_of_lt hlt) ((List.pairwise_cons.1 hsorted).1 a ha)⟩
    obtain ⟨w', run, hcount, hbody⟩ := ih hsorted hlast' hpost
    rw [Frame.ofOptions_far hfar, List.length_cons, List.flatMap_cons]
    refine ⟨w', run.of_bridge hfar, ?_, ?_⟩
    · rw [hcount, Nat.add_assoc, Nat.add_comm 1]
      rfl
    · rw [hbody, Writer.bridge_body (Nat.le_of_lt hgrows) (Nat.le_succ_of_le hnear), hpost,
        List.append_assoc]
      rfl
  | case3 last o options hnear ih =>
    subst hw
    obtain ⟨hbehind, -⟩ := List.forall_mem_cons.1 hlast
    obtain ⟨hle, hsub⟩ := toNat_sub_number hbehind
    have hnear : o.number - w.last.toNat ≤ 15 := Nat.not_lt.1 hnear
    have hnumber := toNat_number o
    obtain ⟨hfirst, hsorted⟩ := List.pairwise_cons.1 hsorted
    obtain ⟨w', run, hcount, hbody⟩ :=
      ih (w := w.write (UInt16.ofNat o.number) o.encode) hsorted (hnumber.symm ▸ hfirst) hnumber
    rw [Frame.ofOptions_near hnear, List.length_cons, List.flatMap_cons]
    refine ⟨w', .cons (.near hle (hsub ▸ hnear)) o.length_encode_le run, ?_, ?_⟩
    · rw [hcount, Nat.add_assoc, Nat.add_comm 1]
      rfl
    · rw [hbody, Writer.write_body hle (hnumber.symm ▸ hnear), hnumber, List.append_assoc]

/-! ### What the frames tell -/

/-- Frames that follow the number `last` carry some options if no step is too long for its field,
    those whose number is a multiple of 14 have no value, and the others have the numbers and the
    values of the options, in their order. -/
structure Carries (last : Nat) (frames : List Frame) (options : List Opt) : Prop where
  delta_le : ∀ f ∈ frames, f.delta ≤ 15
  posts : ∀ f ∈ Frame.numbered last frames, f.1 % 14 = 0 → f.2 = []
  others : (Frame.numbered last frames).filter (fun f => f.1 % 14 ≠ 0) =
    options.map fun o => (o.number, o.encode)

theorem Carries.post {last post : Nat} {frames : List Frame} (h : Carries post frames options)
    (hpost : post % 14 = 0) (hle : last ≤ post) (hnear : post - last ≤ 15) :
    Carries last (⟨post - last, []⟩ :: frames) options := by
  have hnumber : last + (post - last) = post := Nat.add_sub_cancel' hle
  refine ⟨List.forall_mem_cons.2 ⟨hnear, h.delta_le⟩, ?_, ?_⟩
  · rw [Frame.numbered, hnumber]
    exact List.forall_mem_cons.2 ⟨fun _ => rfl, h.posts⟩
  · rw [Frame.numbered, hnumber, List.filter_cons_of_neg (by simp [hpost])]
    exact h.others

theorem Carries.option {last : Nat} {frames : List Frame} (h : Carries o.number frames options)
    (hle : last ≤ o.number) (hnear : o.number - last ≤ 15) :
    Carries last (⟨o.number - last, o.encode⟩ :: frames) (o :: options) := by
  have hnumber : last + (o.number - last) = o.number := Nat.add_sub_cancel' hle
  have hother : o.number % 14 ≠ 0 := by
    have hpost := o.name.isFencepost_number
    rw [isFencepost, beq_eq_false_iff_ne] at hpost
    exact hpost
  refine ⟨List.forall_mem_cons.2 ⟨hnear, h.delta_le⟩, ?_, ?_⟩
  · rw [Frame.numbered, hnumber]
    exact List.forall_mem_cons.2 ⟨fun hpost => absurd hpost hother, h.posts⟩
  · rw [Frame.numbered, hnumber, List.filter_cons_of_pos (by simp [hother]), h.others,
      List.map_cons]

/-- The frames of options carry them. -/
theorem carries_ofOptions {last : Nat} (hsorted : options.Pairwise fun a b => a.number ≤ b.number)
    (hlast : ∀ o ∈ options, last ≤ o.number) :
    Carries last (Frame.ofOptions last options) options := by
  induction last, options using Frame.ofOptions.induct with
  -- The recursion is that of the frames: at the end, a fencepost first, or the next option.
  | case1 =>
    rw [Frame.ofOptions]
    exact ⟨List.forall_mem_nil _, List.forall_mem_nil _, rfl⟩
  | case2 last o options hfar post ih =>
    have hfar : 15 < o.number - last := hfar
    have hpost : post = (last / 14 + 1) * 14 := rfl
    have hlast' : ∀ a ∈ o :: options, post ≤ a.number := by
      refine List.forall_mem_cons.2 ⟨by omega, fun a ha => ?_⟩
      have := (List.pairwise_cons.1 hsorted).1 a ha
      omega
    rw [Frame.ofOptions_far hfar]
    exact (ih hsorted hlast').post (by omega) (by omega) (by omega)
  | case3 last o options hnear ih =>
    obtain ⟨hbehind, -⟩ := List.forall_mem_cons.1 hlast
    have hnear : o.number - last ≤ 15 := Nat.not_lt.1 hnear
    obtain ⟨hfirst, hsorted⟩ := List.pairwise_cons.1 hsorted
    rw [Frame.ofOptions_near hnear]
    exact (ih hsorted hfirst).option hbehind hnear

theorem Frame.length_numbered (last : Nat) (frames : List Frame) :
    (numbered last frames).length = frames.length := by
  induction frames generalizing last with
  | nil => rfl
  | cons f frames ih => rw [numbered, List.length_cons, ih, List.length_cons]

/-- There are as many frames as options and fenceposts. -/
theorem Carries.length_eq {last : Nat} {frames : List Frame} (h : Carries last frames options) :
    frames.length =
      options.length + ((Frame.numbered last frames).filter fun f => f.1 % 14 = 0).length := by
  have hothers := congrArg List.length h.others
  have hsplit := List.length_eq_countP_add_countP (fun f : Nat × Bytes => decide (f.1 % 14 ≠ 0))
    (l := Frame.numbered last frames)
  rw [List.length_map, ← List.countP_eq_length_filter] at hothers
  rw [← Frame.length_numbered last, hsplit, hothers, ← List.countP_eq_length_filter]
  simp

end Coap.Wire

namespace Coap.Message

open Wire

variable {m : Message} {type : MessageType} {id : UInt16}

/-- The options of a message with a settled header are written by the loop, in one way only and
    without anything going wrong, whatever options there are. The outcome are frames that carry the
    options. The message has no written form if these are too many together with the fenceposts, and
    otherwise it has one with the frames as parts and a header that counts them. -/
theorem bridging (ht : m.type? = some type) (hid : m.id? = some id)
    (hc : m.code.isUnassigned = false) :
    ∃ (w : Writer) (frames : List Frame),
      Writes .start m.options.toList w ∧ (∀ w', Writes .start m.options.toList w' → w' = w) ∧
      Frame.Laid frames w.body ∧ frames.length = w.count ∧ Carries 0 frames m.options.toList ∧
      (m.encode = .error .tooManyOptions ↔
        15 < m.options.length +
          ((Frame.numbered 0 frames).filter fun f => f.1 % 14 = 0).length) ∧
      (m.encode ≠ .error .tooManyOptions →
        ∃ b, m.encode = .ok b ∧
          (Parts.mk ⟨m.version % 4, type, w.count, m.code.number, id⟩ frames m.payload).Of b) := by
  have hsorted := m.options.sorted
  have hcarries : Carries 0 m.frames m.options.toList :=
    carries_ofOptions hsorted fun _ _ => Nat.zero_le _
  have htotal := hcarries.length_eq
  -- The loop writes what the frames are, so that its outcome has their number and their bytes.
  obtain ⟨w, run, hcount, hbody⟩ := exists_writes (w := .start) hsorted fun _ _ => Nat.zero_le _
  have hwritable : ∀ f ∈ m.frames, f.IsWritable := Frame.isWritable_of_mem_ofOptions
  have hlaid : Frame.Laid m.frames w.body := Frame.laid_iff.2 ⟨hwritable, hbody⟩
  have hlength : m.frames.length = w.count := hcount.symm
  refine ⟨w, m.frames, run, fun w' run' => run'.unique run, hlaid, hlength, hcarries, ?_, ?_⟩
  · -- They are too many just if the writer says so.
    rw [encode_eq ht hid hc, Options.length, ← htotal, maxOptions]
    split
    · rename_i hmany
      exact ⟨fun _ => hmany, fun _ => rfl⟩
    · rename_i hfew
      refine ⟨fun h => ?_, fun hmany => absurd hmany hfew⟩
      cases h
  · -- There are so few frames that the header can count them.
    intro hfits
    rw [encode_eq ht hid hc, maxOptions] at hfits ⊢
    split at hfits
    · exact absurd rfl hfits
    rename_i hfew
    rw [if_neg hfew]
    refine ⟨_, rfl, Parts.of_iff.2 ⟨hlength, ?_, Nat.mod_lt _ (by decide), hwritable, ?_⟩⟩
    · exact Nat.lt_succ_of_le (Nat.not_lt.1 (hlength ▸ hfew))
    · rw [← hlength, List.append_assoc, Header.bytes, Header.bytes, Nat.mod_mod]

/-- Fourteen tags, which only a request to read may have, and If-None-Match, which only a PUT may
    have, take up sixteen frames. -/
theorem bridging_sixteen_frames :
    let tag (b : UInt8) : Opt :=
      ⟨.etag, .octets [b], rfl, ⟨Nat.le_refl 1, Nat.le_add_left 1 7⟩, trivial⟩
    let tags := (∅ : Options).addAll .get ((List.range 14).map fun i => tag (UInt8.ofNat i))
    let options := tags.value.addAll .put [⟨.ifNoneMatch, .empty, rfl, by decide, trivial⟩]
    let m : Message :=
      { type? := some .con, code := .put, id? := some 7, options := options.value }
    tags.fault? = none ∧ options.fault? = none ∧ m.code.isUnassigned = false ∧
      ∃ (w : Writer) (frames : List Frame), Writes .start m.options.toList w ∧
        Frame.Laid frames w.body ∧ Carries 0 frames m.options.toList ∧ 15 < frames.length ∧
        m.encode = .error .tooManyOptions := by
  intro tag tags options m
  have htags : tags.fault? = none := by decide +kernel
  have hoptions : options.fault? = none := by decide +kernel
  have hlist : m.options.toList = (List.range 14).map (fun i => tag (UInt8.ofNat i)) ++
      [⟨.ifNoneMatch, .empty, rfl, by decide, trivial⟩] := by decide +kernel
  -- The list of options is known by now, so that only the frames are left to evaluate.
  have hframes : m.frames.length = 16 := by
    rw [Message.frames, hlist]
    cbv
  have hencode : m.encode = .error .tooManyOptions := by
    rw [encode_eq rfl rfl rfl, hframes]
    rfl
  obtain ⟨w, frames, run, -, hlaid, -, hcarries, hmany, -⟩ :=
    @bridging m .con 7 rfl rfl rfl
  refine ⟨htags, hoptions, rfl, w, frames, run, hlaid, hcarries, ?_, hencode⟩
  rw [hcarries.length_eq]
  exact hmany.1 hencode

end Coap.Message

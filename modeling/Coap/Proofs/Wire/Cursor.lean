import Coap.Wire.Decode

/-!
# Reading in place

A datagram can also be read in place, by a cursor that goes on from one frame to the next: a
position in the datagram, and the number of the last option in sixteen bits. If it is read in this
way there is more that can go wrong than that the datagram is at fault (`Trap`): something that is
looked up has to be there, the number must not grow too large, and no more may be subtracted than
there is. All of this is checked here, and none of the checks ever fails: the cursor never gets past
the end, and it makes at most fifteen steps of at most fifteen.

* `Frame.readAt_agrees`: reading a frame in place is splitting it off;
* `optionsAt_agrees`: the same of all options;
* `Message.decodeAt_eq`: every datagram is read in place without a trap, as it is read otherwise.
-/

namespace Coap.Wire

/-- What must not happen when a datagram is read in place. -/
inductive Trap where
  /-- A byte or a slice is not within the datagram. -/
  | outOfRange
  /-- The number of an option does not fit its sixteen bits. -/
  | overflow
  /-- More is subtracted than there is. -/
  | underflow
  deriving DecidableEq, Repr

/-- A place in a datagram. -/
structure Cursor where
  position : Nat
  /-- The number of the option before it. -/
  number : UInt16
  deriving DecidableEq, Repr

/-! ### What can be done at a position -/

/-- The byte at a position, which has to be there. -/
def byteAt (b : Bytes) (position : Nat) : Except Trap UInt8 :=
  match b[position]? with
  | some byte => .ok byte
  | none => .error .outOfRange

/-- The bytes from a position on, which has to be there. -/
def bytesFrom (b : Bytes) (position : Nat) : Except Trap Bytes :=
  if position ≤ b.length then .ok (b.drop position) else .error .outOfRange

/-- The bytes from a position up to another one, if they are there. -/
def slice? (b : Bytes) (position stop : Nat) : Option Bytes :=
  if position ≤ stop ∧ stop ≤ b.length then some ((b.drop position).take (stop - position))
  else none

/-- How many bytes there are from a position on, which must not be past the end. -/
def leftAt (b : Bytes) (position : Nat) : Except Trap Nat :=
  if position ≤ b.length then .ok (b.length - position) else .error .underflow

/-- A number some steps on, which has to fit. -/
def stepOn (number : UInt16) (delta : Nat) : Except Trap UInt16 :=
  if number.toNat + delta < UInt16.size then .ok (number + UInt16.ofNat delta)
  else .error .overflow

/-! ### Reading -/

/-- Reads the value of a frame. -/
def Frame.valueAt (b : Bytes) (position : Nat) (number : UInt16) (delta length : Nat) :
    Except Trap (Except Fault (Frame × Cursor)) :=
  match slice? b position (position + length) with
  | some value => pure (.ok (⟨delta, value⟩, ⟨position + length, number⟩))
  | none => do
    let left ← leftAt b position
    pure (.error (.valueMissing number.toNat length left))

/-- Reads a frame. -/
def Frame.readAt (b : Bytes) (c : Cursor) : Except Trap (Except Fault (Frame × Cursor)) :=
  match b[c.position]? with
  | none => pure (.error .optionMissing)
  | some first => do
    let delta := first.toNat / 16
    let number ← stepOn c.number delta
    if first.toNat % 16 < maxNibble then
      valueAt b (c.position + 1) number delta (first.toNat % 16)
    else
      match b[c.position + 1]? with
      | none => pure (.error (.lengthMissing number.toNat))
      | some more => valueAt b (c.position + 2) number delta (maxNibble + more.toNat)

/-- Reads a given count of frames, with the options `kept` so far. -/
def optionsAt (code : Code) (b : Bytes) : (count : Nat) → Cursor → (kept : Options) →
    Except Trap (Except Fault (Options × Cursor))
  | 0, c, kept => pure (.ok (kept, c))
  | count + 1, c, kept => do
    match ← Frame.readAt b c with
    | .error fault => pure (.error fault)
    | .ok (frame, c) =>
      match keep code kept c.number.toNat frame.value with
      | .error fault => pure (.error fault)
      | .ok kept => optionsAt code b count c kept

/-- Reads the payload. That of an empty message is dropped, but counted. -/
def payloadAt (code : Code) (b : Bytes) (position : Nat) : Except Trap Bytes :=
  if position < b.length then
    if code.isEmpty then do
      let _ ← leftAt b position
      pure []
    else bytesFrom b position
  else pure []

/-- Reads the header, which has to be there. -/
def Header.readAt (b : Bytes) : Except Trap Header := do
  let first ← byteAt b 0
  let code ← byteAt b 1
  let high ← byteAt b 2
  let low ← byteAt b 3
  pure ⟨first.toNat / 64, typeOfByte first, first.toNat % 16, code,
    UInt16.ofNat (high.toNat * 256 + low.toNat)⟩

/-! ### No trap -/

/-- Reading in place has come to what reading comes to: to the same fault, or else to the same with
    a cursor at the place where the rest begins. -/
inductive Agrees {α : Type} (b : Bytes) (step : α → Cursor → Prop) :
    Except Fault (α × Cursor) → Except Fault (α × Bytes) → Prop where
  | error {fault : Fault} : Agrees b step (.error fault) (.error fault)
  | ok {a : α} {c : Cursor} (le : c.position ≤ b.length) (moved : step a c) :
      Agrees b step (.ok (a, c)) (.ok (a, b.drop c.position))

variable {b : Bytes} {c : Cursor} {position : Nat}

theorem drop_of_getElem? {byte : UInt8} (h : b[position]? = some byte) :
    position + 1 ≤ b.length ∧ b.drop position = byte :: b.drop (position + 1) := by
  obtain ⟨hlt, rfl⟩ := List.getElem?_eq_some_iff.1 h
  exact ⟨hlt, List.drop_eq_getElem_cons hlt⟩

theorem leftAt_of_le (h : position ≤ b.length) : leftAt b position = .ok (b.length - position) :=
  if_pos h

theorem slice?_of_le {length : Nat} (h : length ≤ (b.drop position).length)
    (hle : position ≤ b.length) :
    slice? b position (position + length) = some ((b.drop position).take length) := by
  rw [List.length_drop] at h
  rw [slice?, if_pos ⟨Nat.le_add_right _ _, by omega⟩, Nat.add_sub_cancel_left]

theorem slice?_of_lt {length : Nat} (h : (b.drop position).length < length) :
    slice? b position (position + length) = none := by
  rw [List.length_drop] at h
  rw [slice?, if_neg fun hle => by omega]

theorem stepOn_of_lt (number : UInt16) {delta : Nat} (h : number.toNat + delta < UInt16.size) :
    ∃ next, stepOn number delta = .ok next ∧ next.toNat = number.toNat + delta := by
  refine ⟨_, if_pos h, ?_⟩
  rw [UInt16.toNat_add, UInt16.toNat_ofNat', Nat.add_mod_mod]
  exact Nat.mod_eq_of_lt h

namespace Frame

theorem valueAt_agrees {number : UInt16} {last delta : Nat}
    (hnext : number.toNat = last + delta) (hdelta : delta ≤ 15) (length : Nat)
    (h : position ≤ b.length) :
    ∃ r, valueAt b position number delta length = .ok r ∧
      Agrees b (fun f c => f.delta ≤ 15 ∧ c.number.toNat = last + f.delta) r
        (takeValue (last + delta) delta length (b.drop position)) := by
  rw [valueAt, takeValue]
  by_cases hlength : length ≤ (b.drop position).length
  · rw [slice?_of_le hlength h, if_pos hlength, List.drop_drop]
    rw [List.length_drop] at hlength
    exact ⟨_, rfl, .ok (by dsimp only; omega) ⟨hdelta, hnext⟩⟩
  · rw [slice?_of_lt (Nat.not_le.1 hlength), if_neg hlength, hnext]
    dsimp only
    rw [leftAt_of_le h, List.length_drop]
    exact ⟨_, rfl, .error⟩

/-- Reading a frame in place is splitting it off, as long as the next number fits. -/
theorem readAt_agrees (hnumber : c.number.toNat + 15 < UInt16.size) :
    ∃ r, readAt b c = .ok r ∧
      Agrees b (fun f c' => f.delta ≤ 15 ∧ c'.number.toNat = c.number.toNat + f.delta) r
        (take c.number.toNat (b.drop c.position)) := by
  rw [readAt]
  -- Both readers look at the same bytes: the first one, and one more for a long length.
  cases hfirst : b[c.position]? with
  | none =>
    rw [List.drop_eq_nil_of_le (List.getElem?_eq_none_iff.1 hfirst)]
    exact ⟨_, rfl, .error⟩
  | some first =>
    have hdelta : first.toNat / 16 ≤ 15 := by
      have := first.toNat_lt
      omega
    obtain ⟨number, hstep, hnext⟩ := stepOn_of_lt c.number
      (Nat.lt_of_le_of_lt (Nat.add_le_add_left hdelta _) hnumber)
    obtain ⟨hlt, hdrop⟩ := drop_of_getElem? hfirst
    rw [hdrop, take.eq_def]
    dsimp only [bind, Except.bind]
    rw [hstep]
    dsimp only
    by_cases hshort : first.toNat % 16 < maxNibble
    · rw [if_pos hshort, if_pos hshort]
      exact valueAt_agrees hnext hdelta _ hlt
    · rw [if_neg hshort, if_neg hshort]
      cases hmore : b[c.position + 1]? with
      | none =>
        rw [List.drop_eq_nil_of_le (List.getElem?_eq_none_iff.1 hmore), hnext]
        exact ⟨_, rfl, .error⟩
      | some more =>
        obtain ⟨hlt', hdrop'⟩ := drop_of_getElem? hmore
        rw [hdrop']
        exact valueAt_agrees hnext hdelta _ hlt'

end Frame

/-- Reading options in place is reading them, as long as all their numbers fit. -/
theorem optionsAt_agrees (code : Code) {count : Nat} (kept : Options) (h : c.position ≤ b.length)
    (hnumber : c.number.toNat + 15 * count < UInt16.size) :
    ∃ r, optionsAt code b count c kept = .ok r ∧
      Agrees b (fun _ _ => True) r
        (readOptions code count c.number.toNat kept (b.drop c.position)) := by
  induction count generalizing c kept with
  | zero => exact ⟨_, rfl, .ok h trivial⟩
  | succ count ih =>
    -- The next number fits, as each of the frames that are left moves it on by fifteen at most.
    obtain ⟨r, hread, hagrees⟩ := Frame.readAt_agrees (b := b) (c := c) (by omega)
    rw [optionsAt, readOptions, hread]
    generalize Frame.take c.number.toNat (b.drop c.position) = taken at hagrees
    cases hagrees with
    | error => exact ⟨_, rfl, .error⟩
    | @ok frame c' le moved =>
      obtain ⟨hdelta, hnext⟩ := moved
      dsimp only [bind, Except.bind]
      rw [← hnext]
      cases keep code kept c'.number.toNat frame.value with
      | error fault => exact ⟨_, rfl, .error⟩
      | ok kept' => exact ih kept' le (by omega)

theorem Header.readAt_of_ofBytes? {h : Header} {body : Bytes}
    (hb : ofBytes? b = some (h, body)) :
    4 ≤ b.length ∧ readAt b = .ok h ∧ h.count < 16 ∧ b.drop 4 = body := by
  match b with
  | first :: code :: high :: low :: rest =>
    obtain ⟨rfl, rfl⟩ := Prod.mk.inj (Option.some.inj hb)
    exact ⟨Nat.le_add_left 4 rest.length, rfl, Nat.mod_lt _ (by decide), rfl⟩
  | [] | [_] | [_, _] | [_, _, _] => cases hb

theorem payloadAt_eq (code : Code) (h : position ≤ b.length) :
    payloadAt code b position = .ok (if code.isEmpty then [] else b.drop position) := by
  rw [payloadAt]
  by_cases hlt : position < b.length
  · rw [if_pos hlt]
    by_cases hempty : code.isEmpty
    · rw [if_pos hempty, if_pos hempty, leftAt_of_le h]
      rfl
    · rw [if_neg hempty, if_neg hempty]
      exact if_pos h
  · -- Nothing is left.
    rw [if_neg hlt, List.drop_eq_nil_of_le (Nat.not_lt.1 hlt), ite_self]
    rfl

end Coap.Wire

namespace Coap.Message

open Wire

/-- Reads a message in place. -/
def decodeAt (b : Bytes) : Except Trap (Except Fault Message) :=
  if b.length < 4 then pure (.error (.short b.length))
  else do
    let h ← Header.readAt b
    match headerFault? h with
    | some fault => pure (.error fault)
    | none =>
      let code := Code.ofNumber h.code
      match ← optionsAt code b h.count ⟨4, 0⟩ ∅ with
      | .error fault => pure (.error fault)
      | .ok (options, c) =>
        let payload ← payloadAt code b c.position
        pure (.ok { type? := some h.type, code, id? := some h.id, options, payload })

/-- Every datagram is read in place without a trap, and as it is read otherwise. -/
theorem decodeAt_eq (b : Bytes) : decodeAt b = .ok (decode b) := by
  rw [decodeAt, decode]
  cases hb : Header.ofBytes? b with
  | none =>
    rw [if_pos (Header.ofBytes?_eq_none_iff.1 hb)]
    rfl
  | some p =>
    obtain ⟨h, body⟩ := p
    obtain ⟨hlength, hread, hcount, rfl⟩ := Header.readAt_of_ofBytes? hb
    rw [if_neg (Nat.not_lt.2 hlength), hread]
    dsimp only [bind, Except.bind]
    cases headerFault? h with
    | some fault => rfl
    | none =>
      -- No more than fifteen frames are read, from the number 0 on.
      have hnumber : (0 : UInt16).toNat + 15 * h.count < UInt16.size := by
        rw [UInt16.toNat_zero, UInt16.size]
        omega
      obtain ⟨r, hoptions, hagrees⟩ := optionsAt_agrees (c := ⟨4, 0⟩) (Code.ofNumber h.code) ∅
        hlength hnumber
      dsimp only at hagrees ⊢
      rw [hoptions]
      rw [UInt16.toNat_zero] at hagrees
      generalize readOptions (Code.ofNumber h.code) h.count 0 ∅ (b.drop 4) = read at hagrees
      cases hagrees with
      | error => rfl
      | ok le =>
        dsimp only
        rw [payloadAt_eq _ le]
        rfl

end Coap.Message

import Coap.Proofs.Store.Ledger
import Coap.Proofs.Store.Table

/-!
# Timers as tasks

A record of a ledger carries its own timer. Timers that are tasks of their own (`Tasks`) work
differently: a record only holds the handle of the task that was armed for it, the task looks its
record up by the key when it fires, and whoever removes a record has to cancel its task.

* `Tasks.Tidy`: each armed timer belongs to one record, the one that holds its handle;
* `Tasks.Tidy.not_armed`, `Tasks.Tidy.not_tidy_drop`: no timer is armed for a key without a record,
  so whoever removes a record has to stop its timer;
* `Tasks.Runs.mirrors`: in whatever order the timers that are due take turns, they leave the records
  and bring about what a ledger does whose records carry their own timers;
* `Tasks.exists_runs`: the timers that are due come to an end.
-/

namespace Coap

/-- A timer that was armed for a message of a peer and has not ended. -/
structure Task (Peer σ : Type) where
  peer : Peer
  id : UInt16
  state : σ

/-- A record with the handle of the timer that was armed for it, unless it dropped this. -/
structure Tasks.Held (ρ : Type) where
  record : ρ
  handle? : Option Nat

/-- Records, and timers that are armed. -/
structure Tasks (Peer ρ σ : Type) where
  records : Ledger Peer (Tasks.Held ρ) := ∅
  armed : Table Nat (Task Peer σ) := ∅
  /-- The handle of the next timer. -/
  next : Nat := 0

namespace Tasks

/-- What a timer does that fires and finds its record. -/
inductive Act (ρ σ : Type) where
  /-- It leaves the record alone and sleeps again. -/
  | again (state : σ)
  /-- It ends and leaves a record, which keeps the handle or drops it. -/
  | rest (record : ρ) (keeps : Bool)
  /-- It ends and removes the record. -/
  | gone

variable {Peer ρ σ φ ω : Type}

/-- The record that is left and the state in which the timer sleeps again. -/
def Act.left? (record : ρ) : Act ρ σ → Option (ρ × Option σ)
  | .again state => some (record, some state)
  | .rest record _ => some (record, none)
  | .gone => none

/-- Stops a timer. -/
def cancel (handle? : Option Nat) (t : Tasks Peer ρ σ) : Tasks Peer ρ σ :=
  match handle? with
  | some n => { t with armed := t.armed.erase n }
  | none => t

/-- The handles of the records that do not pass a test. -/
def dropped (keep : Peer → UInt16 → ρ → Bool) (t : Tasks Peer ρ σ) : List Nat :=
  t.records.toList.filterMap fun ((peer, id), held) =>
    if keep peer id held.record then none else held.handle?

/-- Removes the records that do not pass a test, and stops their timers. -/
def retain (keep : Peer → UInt16 → ρ → Bool) (t : Tasks Peer ρ σ) : Tasks Peer ρ σ :=
  { t with
    records := t.records.filterMap fun peer id held =>
      if keep peer id held.record then some held else none
    armed := t.armed.filter fun n _ => n ∉ t.dropped keep }

variable [DecidableEq Peer]

/-- The record of a key. -/
def record? (t : Tasks Peer ρ σ) (peer : Peer) (id : UInt16) : Option ρ :=
  (t.records.find? peer id).map Held.record

/-- The handle that the record of a key holds. -/
def handle? (t : Tasks Peer ρ σ) (peer : Peer) (id : UInt16) : Option Nat :=
  (t.records.find? peer id).bind Held.handle?

/-- The state of the timer of a record, if this is armed. -/
def state? (t : Tasks Peer ρ σ) (peer : Peer) (id : UInt16) : Option σ :=
  ((t.handle? peer id).bind t.armed.find?).map Task.state

/-- Arms a timer for a new record. -/
def arm (peer : Peer) (id : UInt16) (record : ρ) (state : σ) (t : Tasks Peer ρ σ) :
    Tasks Peer ρ σ where
  records := t.records.insert peer id ⟨record, some t.next⟩
  armed := t.armed.insert t.next ⟨peer, id, state⟩
  next := t.next + 1

/-- Removes a record, and leaves its timer alone. -/
def drop (peer : Peer) (id : UInt16) (t : Tasks Peer ρ σ) : Tasks Peer ρ σ :=
  { t with records := t.records.erase peer id }

/-- Removes a record and stops its timer. -/
def remove (peer : Peer) (id : UInt16) (t : Tasks Peer ρ σ) : Tasks Peer ρ σ :=
  (t.drop peer id).cancel (t.handle? peer id)

/-- What is left when a timer has done what it does with its record. -/
def perform (n : Nat) (task : Task Peer σ) (held : Held ρ) (t : Tasks Peer ρ σ) :
    Act ρ σ → Tasks Peer ρ σ
  | .again state => { t with armed := t.armed.insert n { task with state } }
  | .rest record keeps =>
    { t with
      records :=
        t.records.insert task.peer task.id ⟨record, if keeps then held.handle? else none⟩
      armed := t.armed.erase n }
  | .gone => (t.drop task.peer task.id).cancel (some n)

/-- Lets a timer fire: the tasks after it, and what it brings about. A timer that finds no record
    ends. -/
def fire (act : Peer → UInt16 → ρ → σ → Act ρ σ × List ω) (n : Nat) (task : Task Peer σ)
    (t : Tasks Peer ρ σ) : Tasks Peer ρ σ × List ω :=
  match t.records.find? task.peer task.id with
  | none => (t.cancel (some n), [])
  | some held =>
    let (next, said) := act task.peer task.id held.record task.state
    (t.perform n task held next, said)

/-- The timers that are due fire one after another, in any order, until none of them is due. -/
inductive Runs (due : σ → Prop) (act : Peer → UInt16 → ρ → σ → Act ρ σ × List ω) :
    Tasks Peer ρ σ → List ω → Tasks Peer ρ σ → Prop where
  | idle {t : Tasks Peer ρ σ} (idle : ∀ n task, t.armed.find? n = some task → ¬ due task.state) :
      Runs due act t [] t
  | fire {t t' : Tasks Peer ρ σ} {n : Nat} {task : Task Peer σ} {later : List ω}
      (armed : t.armed.find? n = some task) (isDue : due task.state)
      (rest : Runs due act (t.fire act n task).1 later t') :
      Runs due act t ((t.fire act n task).2 ++ later) t'

variable {t t' : Tasks Peer ρ σ} {peer peer' : Peer} {id id' : UInt16} {n : Nat}
  {task : Task Peer σ}

/-! ### To whom a timer belongs -/

/-- Each armed timer belongs to one record. -/
structure Tidy (t : Tasks Peer ρ σ) : Prop where
  /-- An armed timer finds a record that holds its handle. -/
  owner : ∀ {n task}, t.armed.find? n = some task → t.handle? task.peer task.id = some n
  /-- Handles are given out once. -/
  issued : ∀ {peer id n}, t.handle? peer id = some n → n < t.next
  /-- No two records hold the same handle. -/
  sole : ∀ {peer id peer' id' n}, t.handle? peer id = some n → t.handle? peer' id' = some n →
    peer' = peer ∧ id' = id

/-- One key is altered: all other records keep what they are and their timers. -/
structure Alters (peer : Peer) (id : UInt16) (t t' : Tasks Peer ρ σ) : Prop where
  find? : ∀ {peer' id'}, ¬ (peer' = peer ∧ id' = id) →
    t'.records.find? peer' id' = t.records.find? peer' id'
  /-- Timers of other records are left alone. -/
  others : ∀ {n}, t.handle? peer id ≠ some n → t'.handle? peer id ≠ some n →
    t'.armed.find? n = t.armed.find? n
  /-- What is armed for the record under its old or new handle has the key and the new handle. -/
  own : ∀ {n task}, t'.armed.find? n = some task →
    t.handle? peer id = some n ∨ t'.handle? peer id = some n →
      task.peer = peer ∧ task.id = id ∧ t'.handle? peer id = some n
  /-- The new handle is the old one or was not given out before. -/
  fresh : ∀ {n}, t'.handle? peer id = some n →
    t.handle? peer id = some n ∨ t.next ≤ n ∧ n < t'.next
  next : t.next ≤ t'.next

theorem Alters.handle? (ha : Alters peer id t t') (hkey : ¬ (peer' = peer ∧ id' = id)) :
    t'.handle? peer' id' = t.handle? peer' id' :=
  congrArg (Option.bind · Held.handle?) (ha.find? hkey)

theorem Alters.record? (ha : Alters peer id t t') (hkey : ¬ (peer' = peer ∧ id' = id)) :
    t'.record? peer' id' = t.record? peer' id' :=
  congrArg (Option.map Held.record) (ha.find? hkey)

/-- No other record holds the handle that the altered one had or got. -/
theorem Tidy.handle_ne (h : t.Tidy) (ha : Alters peer id t t') (hkey : ¬ (peer' = peer ∧ id' = id))
    (hn : t.handle? peer' id' = some n) :
    t.handle? peer id ≠ some n ∧ t'.handle? peer id ≠ some n := by
  have hold : t.handle? peer id ≠ some n := fun hold => hkey (h.sole hold hn)
  refine ⟨hold, fun hnew => ?_⟩
  rcases ha.fresh hnew with hold' | ⟨hle, -⟩
  · exact hold hold'
  · exact absurd (h.issued hn) (Nat.not_lt.2 hle)

/-- The timer of another record stays in its state. -/
theorem Tidy.state?_of_alters (h : t.Tidy) (ha : Alters peer id t t')
    (hkey : ¬ (peer' = peer ∧ id' = id)) : t'.state? peer' id' = t.state? peer' id' := by
  rw [state?, state?, ha.handle? hkey]
  cases hn : t.handle? peer' id' with
  | none => rfl
  | some n =>
    obtain ⟨hold, hnew⟩ := h.handle_ne ha hkey hn
    rw [Option.bind_some, Option.bind_some, ha.others hold hnew]

/-- Whoever alters one key only leaves each timer with its record. -/
theorem Tidy.alters (h : t.Tidy) (ha : Alters peer id t t') : t'.Tidy where
  owner {n task} harmed := by
    by_cases hown : t.handle? peer id = some n ∨ t'.handle? peer id = some n
    · -- A timer of the record itself, under its old or its new handle.
      obtain ⟨rfl, rfl, hn⟩ := ha.own harmed hown
      exact hn
    · -- A timer of another record, which was there before.
      obtain ⟨hold, hnew⟩ := not_or.1 hown
      rw [ha.others hold hnew] at harmed
      have hn := h.owner harmed
      rw [ha.handle? fun hkey => hold (by rw [← hkey.1, ← hkey.2, hn])]
      exact hn
  issued {peer' id' n} hn := by
    by_cases hkey : peer' = peer ∧ id' = id
    · obtain ⟨rfl, rfl⟩ := hkey
      rcases ha.fresh hn with hold | ⟨-, hlt⟩
      · exact Nat.lt_of_lt_of_le (h.issued hold) ha.next
      · exact hlt
    · rw [ha.handle? hkey] at hn
      exact Nat.lt_of_lt_of_le (h.issued hn) ha.next
  sole {peer₁ id₁ peer₂ id₂ n} h₁ h₂ := by
    by_cases hkey₁ : peer₁ = peer ∧ id₁ = id
    · -- The new handle of the record is no handle of another one.
      obtain ⟨rfl, rfl⟩ := hkey₁
      refine Decidable.byContradiction fun hkey₂ => ?_
      rw [ha.handle? hkey₂] at h₂
      exact (h.handle_ne ha hkey₂ h₂).2 h₁
    · rw [ha.handle? hkey₁] at h₁
      by_cases hkey₂ : peer₂ = peer ∧ id₂ = id
      · obtain ⟨rfl, rfl⟩ := hkey₂
        exact absurd h₂ (h.handle_ne ha hkey₁ h₁).2
      · rw [ha.handle? hkey₂] at h₂
        exact h.sole h₁ h₂

theorem tidy_empty : Tidy ({} : Tasks Peer ρ σ) where
  owner harmed := by cases harmed
  issued hn := by cases hn
  sole hn := by cases hn

/-- An armed timer belongs to a record that is there. -/
theorem Tidy.exists_record (h : t.Tidy) (harmed : t.armed.find? n = some task) :
    ∃ record, t.records.find? task.peer task.id = some ⟨record, some n⟩ := by
  have hn := h.owner harmed
  rw [Tasks.handle?, Option.bind_eq_some_iff] at hn
  obtain ⟨⟨record, handle?⟩, hfind, rfl⟩ := hn
  exact ⟨record, hfind⟩

/-- No timer is armed for a key without a record. -/
theorem Tidy.not_armed (h : t.Tidy) (hnone : t.record? peer id = none) :
    ∀ n task, t.armed.find? n = some task → ¬ (task.peer = peer ∧ task.id = id) := by
  rintro n task harmed ⟨rfl, rfl⟩
  obtain ⟨record, hfind⟩ := h.exists_record harmed
  rw [record?, hfind] at hnone
  cases hnone

/-- The state of an armed timer is the one that its record's timer is in. -/
theorem Tidy.state?_of_armed (h : t.Tidy) (harmed : t.armed.find? n = some task) :
    t.state? task.peer task.id = some task.state := by
  rw [state?, h.owner harmed, Option.bind_some, harmed, Option.map_some]

/-! ### What the operations alter -/

theorem handle?_of_find? {record : ρ} {handle? : Option Nat}
    (hfind : t.records.find? peer id = some ⟨record, handle?⟩) : t.handle? peer id = handle? := by
  rw [Tasks.handle?, hfind, Option.bind_some]

theorem record?_of_find? {record : ρ} {handle? : Option Nat}
    (hfind : t.records.find? peer id = some ⟨record, handle?⟩) :
    t.record? peer id = some record := by
  rw [record?, hfind, Option.map_some]

theorem handle?_of_record? (hnone : t.record? peer id = none) : t.handle? peer id = none := by
  rw [record?, Option.map_eq_none_iff] at hnone
  rw [handle?, hnone, Option.bind_none]

theorem find?_arm (record : ρ) (state : σ) :
    (t.arm peer id record state).records.find? peer id = some ⟨record, some t.next⟩ := by
  rw [arm, Ledger.find?_insert, if_pos ⟨rfl, rfl⟩]

theorem state?_arm (record : ρ) (state : σ) :
    (t.arm peer id record state).state? peer id = some state := by
  rw [state?, handle?_of_find? (find?_arm record state), Option.bind_some, arm, Table.find?_insert,
    if_pos rfl, Option.map_some]

/-- A new timer is armed for a key that has no record: the timer of a record that was there would
    be left behind. -/
theorem alters_arm (hnone : t.record? peer id = none) (record : ρ) (state : σ) :
    Alters peer id t (t.arm peer id record state) where
  find? hkey := (Ledger.find?_insert _ _ _ _ _ _).trans (if_neg hkey)
  others {n} _ hnew := by
    rw [handle?_of_find? (find?_arm record state)] at hnew
    exact (Table.find?_insert _ _ _ _).trans (if_neg fun hn => hnew (congrArg some hn.symm))
  own {n task} harmed hheld := by
    have hnew : (t.arm peer id record state).handle? peer id = some t.next :=
      handle?_of_find? (find?_arm record state)
    -- The key had no handle, so its timer is the new one.
    rw [handle?_of_record? hnone, hnew] at hheld
    rw [hnew]
    rcases hheld with hheld | hheld
    · cases hheld
    · obtain rfl := Option.some.inj hheld
      rw [arm, Table.find?_insert, if_pos rfl] at harmed
      obtain rfl := Option.some.inj harmed
      exact ⟨rfl, rfl, rfl⟩
  fresh {n} hn := by
    rw [handle?_of_find? (find?_arm record state)] at hn
    obtain rfl := Option.some.inj hn
    exact .inr ⟨Nat.le_refl _, Nat.lt_succ_self _⟩
  next := Nat.le_succ _

omit [DecidableEq Peer] in
theorem cancel_records (t : Tasks Peer ρ σ) (handle? : Option Nat) :
    (t.cancel handle?).records = t.records := by
  cases handle? <;> rfl

omit [DecidableEq Peer] in
theorem cancel_next (t : Tasks Peer ρ σ) (handle? : Option Nat) :
    (t.cancel handle?).next = t.next := by
  cases handle? <;> rfl

omit [DecidableEq Peer] in
/-- To stop a timer concerns no other timer. -/
theorem find?_cancel (t : Tasks Peer ρ σ) (handle? : Option Nat) (n : Nat) :
    (t.cancel handle?).armed.find? n = if handle? = some n then none else t.armed.find? n := by
  cases handle? with
  | none => simp [cancel]
  | some m => simp only [cancel, Table.find?_erase, Option.some.injEq, eq_comm]

/-- To remove a record concerns no other record. -/
theorem find?_drop (t : Tasks Peer ρ σ) (peer peer' : Peer) (id id' : UInt16) :
    (t.drop peer id).records.find? peer' id' =
      if peer' = peer ∧ id' = id then none else t.records.find? peer' id' :=
  Ledger.find?_erase _ _ _ _ _

/-- A record is removed together with its timer, or once this is not armed any more. -/
theorem alters_drop (handle? : Option Nat)
    (hstopped : ∀ n, t.handle? peer id = some n →
      ((t.drop peer id).cancel handle?).armed.find? n = none)
    (hown : ∀ n, handle? = some n → t.handle? peer id = some n) :
    Alters peer id t ((t.drop peer id).cancel handle?) := by
  have hnone : ((t.drop peer id).cancel handle?).handle? peer id = none := by
    rw [Tasks.handle?, cancel_records, find?_drop, if_pos ⟨rfl, rfl⟩, Option.bind_none]
  refine ⟨fun hkey => ?_, fun {n} hold _ => ?_, fun {n task} harmed hheld => ?_, fun {n} hn => ?_,
    ?_⟩
  · rw [cancel_records, find?_drop, if_neg hkey]
  · rw [find?_cancel, if_neg fun hn => hold (hown n hn)]
    rfl
  · rw [hnone] at hheld
    rcases hheld with hold | hnew
    · -- What was armed for the record is stopped.
      rw [hstopped n hold] at harmed
      cases harmed
    · cases hnew
  · rw [hnone] at hn
    cases hn
  · rw [cancel_next]
    exact Nat.le_refl _

/-- To remove a record and stop its timer alters one key only. -/
theorem alters_remove (t : Tasks Peer ρ σ) (peer : Peer) (id : UInt16) :
    Alters peer id t (t.remove peer id) := by
  refine alters_drop _ (fun n hn => ?_) fun n hn => hn
  rw [find?_cancel, if_pos hn]

/-- A timer that fires alters its own record only. -/
theorem Tidy.alters_perform (h : t.Tidy) (harmed : t.armed.find? n = some task) {held : Held ρ}
    (hfind : t.records.find? task.peer task.id = some held) (next : Act ρ σ) :
    Alters task.peer task.id t (t.perform n task held next) := by
  have hn := h.owner harmed
  have hheld : held.handle? = some n := (handle?_of_find? hfind).symm.trans hn
  -- Only the handle of the timer itself is concerned.
  have hsame : ∀ {m}, t.handle? task.peer task.id ≠ some m → m ≠ n := fun hm he =>
    hm (he ▸ hn)
  cases next with
  | again state =>
    refine ⟨fun _ => rfl, fun hm _ => ?_, fun {m task'} harmed' hm => ?_, .inl, Nat.le_refl _⟩
    · exact (Table.find?_insert _ _ _ _).trans (if_neg (hsame hm))
    · have hm : t.handle? task.peer task.id = some m := hm.elim id id
      obtain rfl := Option.some.inj (hn.symm.trans hm)
      rw [perform, Table.find?_insert, if_pos rfl] at harmed'
      obtain rfl := Option.some.inj harmed'
      exact ⟨rfl, rfl, hn⟩
  | rest record keeps =>
    have hkept : ∀ {m}, (t.perform n task held (.rest record keeps)).handle? task.peer task.id =
        some m → m = n := by
      intro m hm
      rw [Tasks.handle?, perform, Ledger.find?_insert, if_pos ⟨rfl, rfl⟩, Option.bind_some,
        hheld] at hm
      cases keeps with
      | false => cases hm
      | true => exact (Option.some.inj hm).symm
    refine ⟨fun hkey => ?_, fun hm _ => ?_, fun {m task'} harmed' hm => ?_, fun {m} hm => ?_,
      Nat.le_refl _⟩
    · exact (Ledger.find?_insert _ _ _ _ _ _).trans (if_neg hkey)
    · exact (Table.find?_erase _ _ _).trans (if_neg (hsame hm))
    · have hm : m = n := hm.elim (fun hm => Option.some.inj (hm.symm.trans hn)) hkept
      rw [perform, Table.find?_erase, if_pos hm] at harmed'
      cases harmed'
    · exact .inl (hkept hm ▸ hn)
  | gone =>
    refine alters_drop (some n) (fun m hm => ?_) fun m hm => hn.trans hm
    rw [find?_cancel, if_pos (hn.symm.trans hm)]

/-- What is left of the record of a timer that fires. -/
theorem record?_perform {held : Held ρ} (next : Act ρ σ)
    (hfind : t.records.find? task.peer task.id = some held) :
    (t.perform n task held next).record? task.peer task.id =
      (next.left? held.record).map Prod.fst := by
  cases next with
  | again state => exact record?_of_find? hfind
  | rest record keeps => exact record?_of_find? ((Ledger.find?_insert ..).trans (if_pos ⟨rfl, rfl⟩))
  | gone =>
    rw [record?, perform, cancel_records, find?_drop, if_pos ⟨rfl, rfl⟩]
    rfl

/-- In which state a timer sleeps again that fires. -/
theorem Tidy.state?_perform (h : t.Tidy) (harmed : t.armed.find? n = some task) {held : Held ρ}
    (hfind : t.records.find? task.peer task.id = some held) (next : Act ρ σ) :
    (t.perform n task held next).state? task.peer task.id =
      (next.left? held.record).bind Prod.snd := by
  have hn := h.owner harmed
  cases next with
  | again state =>
    have hn' : (t.perform n task held (.again state)).handle? task.peer task.id = some n := hn
    rw [state?, hn', Option.bind_some, perform, Table.find?_insert, if_pos rfl]
    rfl
  -- The record may keep the handle, but nothing is armed under it any more.
  | rest record keeps =>
    rw [state?, Tasks.handle?, perform, Ledger.find?_insert, if_pos ⟨rfl, rfl⟩, Option.bind_some,
      ← handle?_of_find? hfind, hn]
    cases keeps with
    | false => rfl
    | true =>
      simp [Act.left?, Table.find?_erase]
  | gone =>
    rw [state?, handle?_of_record?]
    · rfl
    · exact record?_perform .gone hfind

/-- What is kept are the records that pass the test. -/
theorem record?_retain (keep : Peer → UInt16 → ρ → Bool) :
    (t.retain keep).record? peer id = (t.record? peer id).filter (keep peer id) := by
  rw [record?, record?, retain, Ledger.find?_filterMap]
  cases t.records.find? peer id with
  | none => rfl
  | some held => cases hkeep : keep peer id held.record <;> simp [Option.filter, hkeep]

/-- A record that is kept keeps its handle. -/
theorem handle?_retain (keep : Peer → UInt16 → ρ → Bool) :
    (t.retain keep).handle? peer id =
      if (t.record? peer id).any (keep peer id) then t.handle? peer id else none := by
  rw [handle?, handle?, record?, retain, Ledger.find?_filterMap]
  cases t.records.find? peer id with
  | none => rfl
  | some held => cases hkeep : keep peer id held.record <;> simp [hkeep]

/-- A handle is dropped just if a record that does not pass holds it. -/
theorem mem_dropped_iff {keep : Peer → UInt16 → ρ → Bool} :
    n ∈ t.dropped keep ↔ ∃ peer id, t.handle? peer id = some n ∧
      (t.record? peer id).any (keep peer id) = false := by
  rw [dropped, List.mem_filterMap]
  constructor
  · rintro ⟨⟨⟨peer, id⟩, held⟩, hmem, hn⟩
    have hfind := Ledger.mem_toList_iff.1 hmem
    dsimp only at hn
    -- A record that passes keeps its handle. Of one that does not, its handle is dropped.
    split at hn
    · cases hn
    · rename_i hkeep
      exact ⟨peer, id, (handle?_of_find? hfind).trans hn, by simpa [record?, hfind] using hkeep⟩
  · rintro ⟨peer, id, hn, hkeep⟩
    rw [Tasks.handle?, Option.bind_eq_some_iff] at hn
    obtain ⟨held, hfind, hn⟩ := hn
    refine ⟨_, Ledger.mem_toList_iff.2 hfind, ?_⟩
    simpa [record?, hfind, hn] using hkeep

omit [DecidableEq Peer] in
/-- What is stopped are the timers whose handles are dropped. -/
theorem find?_retain (keep : Peer → UInt16 → ρ → Bool) :
    (t.retain keep).armed.find? n =
      if n ∈ t.dropped keep then none else t.armed.find? n := by
  rw [retain, Table.find?_filter]
  split <;> cases t.armed.find? n <;> simp [*]

/-- The record of a timer that is left armed is kept. -/
theorem Tidy.retain (h : t.Tidy) (keep : Peer → UInt16 → ρ → Bool) : (t.retain keep).Tidy where
  owner {n task} harmed := by
    rw [find?_retain] at harmed
    split at harmed
    · cases harmed
    · -- The handle of an armed timer was not dropped, so its record passes the test.
      rename_i hkept
      have hn := h.owner harmed
      rw [handle?_retain, if_pos, hn]
      exact Bool.of_not_eq_false fun hdrop => hkept (mem_dropped_iff.2 ⟨_, _, hn, hdrop⟩)
  issued {peer id n} hn := by
    rw [handle?_retain] at hn
    split at hn
    · exact h.issued hn
    · cases hn
  sole {peer id peer' id' n} hn hn' := by
    rw [handle?_retain] at hn hn'
    split at hn
    · split at hn'
      · exact h.sole hn hn'
      · cases hn'
    · cases hn

/-- The timer of a record that is kept is left alone. -/
theorem Tidy.state?_retain (h : t.Tidy) {keep : Peer → UInt16 → ρ → Bool}
    (hkeep : (t.record? peer id).any (keep peer id)) :
    (t.retain keep).state? peer id = t.state? peer id := by
  rw [state?, state?, handle?_retain, if_pos hkeep]
  cases hn : t.handle? peer id with
  | none => rfl
  | some n =>
    rw [Option.bind_some, Option.bind_some, find?_retain, if_neg]
    rw [mem_dropped_iff]
    rintro ⟨peer', id', hn', hdrop⟩
    obtain ⟨rfl, rfl⟩ := h.sole hn hn'
    rw [hkeep] at hdrop
    cases hdrop

/-! ### Ledgers whose records carry their own timers -/

/-- Each record stands, with the state of its timer, for an entry of a ledger. -/
structure Mirrors (Stands : Option σ → ρ → φ → Prop) (t : Tasks Peer ρ σ) (l : Ledger Peer φ) :
    Prop where
  tidy : t.Tidy
  stands : ∀ peer id,
    Option.Rel (Stands (t.state? peer id)) (t.record? peer id) (l.find? peer id)

variable {Stands : Option σ → ρ → φ → Prop} {l l' : Ledger Peer φ}

/-- What the records stand for is told from what is found in the ledger. -/
theorem Mirrors.congr (h : Mirrors Stands t l)
    (hl : ∀ peer id, l'.find? peer id = l.find? peer id) : Mirrors Stands t l' :=
  ⟨h.tidy, fun peer id => (hl peer id).symm ▸ h.stands peer id⟩

/-- One key is altered on both sides. -/
theorem Mirrors.alters (h : Mirrors Stands t l) (ha : Alters peer id t t') (v : Option φ)
    (hv : Option.Rel (Stands (t'.state? peer id)) (t'.record? peer id) v) :
    Mirrors Stands t' (l.set peer id v) := by
  refine ⟨h.tidy.alters ha, fun peer' id' => ?_⟩
  rw [Ledger.find?_set]
  split
  · rename_i hkey
    rw [hkey.1, hkey.2]
    exact hv
  · rename_i hkey
    rw [h.tidy.state?_of_alters ha hkey, ha.record? hkey]
    exact h.stands peer' id'

theorem mirrors_empty : Mirrors Stands ({} : Tasks Peer ρ σ) (∅ : Ledger Peer φ) :=
  ⟨tidy_empty, fun _ _ => .none⟩

/-- There is a record just if there is an entry. -/
theorem Mirrors.record?_eq_none_iff (h : Mirrors Stands t l) :
    t.record? peer id = none ↔ l.find? peer id = none := by
  have hstands := h.stands peer id
  generalize t.record? peer id = record?, l.find? peer id = a? at hstands ⊢
  cases hstands <;> simp

/-- A new record with an armed timer stands for a new entry. -/
theorem Mirrors.arm (h : Mirrors Stands t l) (hfree : l.find? peer id = none) {record : ρ}
    {state : σ} {a : φ} (ha : Stands (some state) record a) :
    Mirrors Stands (t.arm peer id record state) (l.insert peer id a) := by
  refine h.alters (alters_arm (h.record?_eq_none_iff.2 hfree) record state) (some a) ?_
  rw [state?_arm, record?_of_find? (find?_arm record state)]
  exact .some ha

/-- To remove a record and stop its timer is to erase its entry. -/
theorem Mirrors.remove (h : Mirrors Stands t l) (peer : Peer) (id : UInt16) :
    Mirrors Stands (t.remove peer id) (l.erase peer id) := by
  refine h.alters (alters_remove t peer id) none ?_
  rw [record?, Tasks.remove, cancel_records, find?_drop, if_pos ⟨rfl, rfl⟩]
  exact .none

theorem Mirrors.remove_of_none (h : Mirrors Stands t l) (hnone : l.find? peer id = none) :
    Mirrors Stands (t.remove peer id) l :=
  (h.remove peer id).congr fun peer' id' => (Ledger.find?_erase_of_none hnone peer' id').symm

/-- A timer that is not stopped when its record is removed is left behind. -/
theorem Tidy.not_tidy_drop (h : t.Tidy) {state : σ} (hstate : t.state? peer id = some state) :
    ¬ (t.drop peer id).Tidy := by
  intro hdrop
  obtain ⟨task, hown, -⟩ := Option.map_eq_some_iff.1 hstate
  obtain ⟨n, hn, harmed⟩ := Option.bind_eq_some_iff.1 hown
  obtain ⟨rfl, rfl⟩ := h.sole hn (h.owner harmed)
  refine hdrop.not_armed ?_ n task harmed ⟨rfl, rfl⟩
  rw [record?, find?_drop, if_pos ⟨rfl, rfl⟩, Option.map_none]

/-- A record whose timer is not armed any more may be removed without stopping anything. -/
theorem Mirrors.drop (h : Mirrors Stands t l) (hstate : t.state? peer id = none) :
    Mirrors Stands (t.drop peer id) (l.erase peer id) := by
  have ha : Alters peer id t (t.drop peer id) := by
    refine alters_drop none (fun n hn => ?_) fun n hn => absurd hn (Option.some_ne_none n).symm
    rw [state?, hn, Option.bind_some, Option.map_eq_none_iff] at hstate
    exact hstate
  refine h.alters ha none ?_
  rw [record?, find?_drop, if_pos ⟨rfl, rfl⟩]
  exact .none

/-- To keep some records is to keep their entries. -/
theorem Mirrors.retain (h : Mirrors Stands t l) (keep : Peer → UInt16 → ρ → Bool)
    (hl : ∀ peer id, l'.find? peer id =
      if (t.record? peer id).any (keep peer id) then l.find? peer id else none) :
    Mirrors Stands (t.retain keep) l' := by
  refine ⟨h.tidy.retain keep, fun peer id => ?_⟩
  have hstands := h.stands peer id
  rw [hl, record?_retain]
  -- Without a record there is nothing to keep. Otherwise the record passes or not.
  cases hrecord : t.record? peer id with
  | none => exact .none
  | some record =>
    rw [hrecord] at hstands
    cases hkeep : keep peer id record with
    | false => simp [Option.filter, hkeep]
    | true =>
      have hany : (t.record? peer id).any (keep peer id) := hrecord ▸ hkeep
      rw [h.tidy.state?_retain hany, Option.filter_some_pos hkeep, Option.any_some, if_pos hkeep]
      exact hstands

/-! ### Timers that take turns -/

variable {due : σ → Prop} {act : Peer → UInt16 → ρ → σ → Act ρ σ × List ω}
  {pass : Peer → UInt16 → φ → Option φ × List ω}

/-- What becomes of an entry in the course of time, and what this brings about (`pass`), is what its
    timer does. -/
structure Follows (due : σ → Prop) (act : Peer → UInt16 → ρ → σ → Act ρ σ × List ω)
    (Stands : Option σ → ρ → φ → Prop) (pass : Peer → UInt16 → φ → Option φ × List ω) :
    Prop where
  /-- Nothing happens to an entry whose timer is not due. -/
  idle : ∀ peer id {state? record a}, Stands state? record a →
    (∀ state ∈ state?, ¬ due state) → pass peer id a = (some a, [])
  /-- What happens to an entry whose timer is due is what the timer does, and then what happens to
      the entry that it leaves. -/
  fires : ∀ peer id {state record a}, Stands (some state) record a → due state →
    ∃ a? : Option φ,
      Option.Rel (fun left a => Stands left.2 left.1 a)
          ((act peer id record state).1.left? record) a? ∧
        pass peer id a =
          (a?.bind fun a => (pass peer id a).1,
            (act peer id record state).2 ++ a?.elim [] fun a => (pass peer id a).2)

/-- A timer that is due finds its record, and what it does is the beginning of what happens to the
    entry for which this stands. -/
theorem Mirrors.fire (hf : Follows due act Stands pass) (h : Mirrors Stands t l)
    (harmed : t.armed.find? n = some task) (hdue : due task.state) :
    ∃ (a : φ) (a? : Option φ), l.find? task.peer task.id = some a ∧
      Mirrors Stands (t.fire act n task).1 (l.set task.peer task.id a?) ∧
        pass task.peer task.id a =
          (a?.bind fun a => (pass task.peer task.id a).1,
            (t.fire act n task).2 ++ a?.elim [] fun a => (pass task.peer task.id a).2) := by
  obtain ⟨record, hfind⟩ := h.tidy.exists_record harmed
  have hstands := h.stands task.peer task.id
  rw [record?_of_find? hfind, h.tidy.state?_of_armed harmed] at hstands
  cases hl : l.find? task.peer task.id with
  | none =>
    rw [hl] at hstands
    cases hstands
  | some a =>
    rw [hl] at hstands
    cases hstands with
    | some hstands =>
      obtain ⟨a?, hleft, hpass⟩ := hf.fires task.peer task.id hstands hdue
      have hfire : t.fire act n task =
          (t.perform n task ⟨record, some n⟩ (act task.peer task.id record task.state).1,
            (act task.peer task.id record task.state).2) := by
        rw [Tasks.fire, hfind]
      rw [hfire]
      refine ⟨a, a?, rfl, ?_, hpass⟩
      refine h.alters (h.tidy.alters_perform harmed hfind _) a? ?_
      rw [record?_perform _ hfind, h.tidy.state?_perform harmed hfind]
      -- The record and the state of its timer are the two parts of what is left.
      generalize (act task.peer task.id record task.state).1.left? record = left? at hleft ⊢
      cases hleft with
      | none => exact .none
      | some hleft => exact .some hleft

/-- In whatever order the timers that are due take turns, they leave the records and bring about
    what happens to the entries of a ledger that carry their own timers. -/
theorem Runs.mirrors (hf : Follows due act Stands pass) {said : List ω}
    (hr : Runs due act t said t') (h : Mirrors Stands t l) :
    Mirrors Stands t' (l.filterMap fun peer id a => (pass peer id a).1) ∧
      said.Perm (l.toList.flatMap fun ((peer, id), a) => (pass peer id a).2) := by
  -- The induction is on how often a timer fires. Each time one entry is taken a part of its way.
  induction hr generalizing l with
  | @idle t hidle =>
    have hpass : ∀ peer id a, l.find? peer id = some a → pass peer id a = (some a, []) := by
      intro peer id a ha
      have hstands := h.stands peer id
      rw [ha] at hstands
      generalize hrecord : t.record? peer id = record? at hstands
      cases hstands with
      | some hstands =>
        refine hf.idle peer id hstands fun state hstate => ?_
        obtain ⟨task, harmed, rfl⟩ := Option.map_eq_some_iff.1 hstate
        obtain ⟨n, -, harmed⟩ := Option.bind_eq_some_iff.1 harmed
        exact hidle n task harmed
    refine ⟨h.congr fun peer id => ?_, .of_eq (Eq.symm (List.flatMap_eq_nil_iff.2 ?_))⟩
    · rw [Ledger.find?_filterMap]
      cases ha : l.find? peer id with
      | none => rfl
      | some a => rw [Option.bind_some, hpass peer id a ha]
    · rintro ⟨⟨peer, id⟩, a⟩ hmem
      exact congrArg Prod.snd (hpass peer id a (Ledger.mem_toList_iff.1 hmem))
  | @fire t t' n task later harmed hdue rest ih =>
    obtain ⟨a, a?, ha, hfire, hpass⟩ := h.fire hf harmed hdue
    obtain ⟨hrest, hlater⟩ := ih hfire
    refine ⟨hrest.congr fun peer id => ?_, ?_⟩
    · rw [Ledger.find?_filterMap, Ledger.find?_filterMap, Ledger.find?_set]
      split
      · rename_i hkey
        rw [hkey.1, hkey.2, ha, Option.bind_some, hpass]
      · rfl
    · -- The other entries contribute what they did before.
      have hbefore := l.perm_flatMap_toList
        (fun p => (pass p.1.1 p.1.2 p.2).2) task.peer task.id
      have hafter := l.perm_flatMap_set
        (fun p => (pass p.1.1 p.1.2 p.2).2) task.peer task.id a?
      rw [ha, Option.elim_some, hpass, List.append_assoc] at hbefore
      exact (List.Perm.append_left _ (hlater.trans hafter)).trans hbefore.symm

/-! ### The end of their turns -/

/-- How often timers may fire that sleep again at most as often as a measure of their state says. -/
def load (fuel : σ → Nat) (armed : Table Nat (Task Peer σ)) : Nat :=
  armed.toList.foldr (fun p rest => fuel p.2.state + 1 + rest) 0

omit [DecidableEq Peer] in
/-- A timer contributes what its own state says. -/
theorem load_of_perm (fuel : σ → Nat) {armed armed' : Table Nat (Task Peer σ)}
    (h : armed.toList.Perm ((n, task) :: armed'.toList)) :
    load fuel armed = fuel task.state + 1 + load fuel armed' :=
  h.foldr_eq' (f := fun (p : Nat × Task Peer σ) rest => fuel p.2.state + 1 + rest)
    (fun _ _ _ _ _ => Nat.add_left_comm _ _ _) 0

/-- A timer that has fired may not fire as often any more. -/
theorem load_fire_lt {fuel : σ → Nat}
    (hfuel : ∀ {peer id record state'},
      (act peer id record task.state).1 = .again state' → fuel state' < fuel task.state)
    (harmed : t.armed.find? n = some task) :
    load fuel (t.fire act n task).1.armed < load fuel t.armed := by
  rw [load_of_perm fuel (Table.perm_toList_of_find? harmed), fire]
  -- The task is out of the table already: unless it is armed again, that alone is less.
  cases t.records.find? task.peer task.id with
  | none => exact Nat.lt_add_of_pos_left (Nat.succ_pos _)
  | some held =>
    dsimp only
    cases hact : (act task.peer task.id held.record task.state).1 with
    | again state =>
      rw [perform, load_of_perm fuel (Table.perm_toList_insert _ n _)]
      exact Nat.add_lt_add_right (Nat.succ_lt_succ (hfuel hact)) _
    | rest record keeps => exact Nat.lt_add_of_pos_left (Nat.succ_pos _)
    | gone => exact Nat.lt_add_of_pos_left (Nat.succ_pos _)

/-- Timers that sleep again only finitely often come to an end. -/
theorem exists_runs (fuel : σ → Nat)
    (hfuel : ∀ {peer id record state state'}, due state →
      (act peer id record state).1 = .again state' → fuel state' < fuel state)
    (t : Tasks Peer ρ σ) : ∃ said t', Runs due act t said t' := by
  -- The induction is on how often timers may fire.
  induction hload : load fuel t.armed using Nat.strongRecOn generalizing t with
  | ind bound ih =>
    by_cases hidle : ∀ n task, t.armed.find? n = some task → ¬ due task.state
    · exact ⟨[], t, .idle hidle⟩
    · simp only [Classical.not_forall, Classical.not_not] at hidle
      obtain ⟨n, task, harmed, hdue⟩ := hidle
      have hless : load fuel (t.fire act n task).1.armed < bound :=
        hload ▸ load_fire_lt (fun hact => hfuel hdue hact) harmed
      obtain ⟨later, t', hlater⟩ := ih _ hless _ rfl
      exact ⟨_, t', .fire harmed hdue hlater⟩

end Tasks

end Coap

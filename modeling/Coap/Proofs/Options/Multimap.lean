import Coap.Options.Change
import Coap.Proofs.Options.Reachable
import Mathlib.Data.List.Basic

/-!
# Options as a multimap

Which options there are after a run of changes is told from the answers alone: those that were
added and not taken out since (`Options.held`). They stand in the order of their numbers, and those
of one number in the order in which they were added; in other words, they are what was held, sorted
by a stable sort. An option is added just if it meets four conditions (`Options.checks`), and the
first one that it does not meet is the fault.

* `eq_of_filter_number`: sorted options are told from those of each number;
* `mergeSort_concat`, `mergeSort_filter`: what additions and removals do to sorted options;
* `Options.multimap`: the options after every run of changes.
-/

namespace Coap

/-- Whether an option may stand before another one. -/
def Opt.byNumber (a b : Opt) : Bool := a.number ≤ b.number

section Order

variable {l l' : List Opt}

theorem Opt.byNumber_trans (a b c : Opt) (h : a.byNumber b = true) (h' : b.byNumber c = true) :
    a.byNumber c = true :=
  decide_eq_true (Nat.le_trans (of_decide_eq_true h) (of_decide_eq_true h'))

theorem Opt.byNumber_total (a b : Opt) : (a.byNumber b || b.byNumber a) = true := by
  rw [Bool.or_eq_true, byNumber, byNumber, decide_eq_true_iff, decide_eq_true_iff]
  exact Nat.le_total _ _

theorem filter_number_cons (o : Opt) (l : List Opt) (n : Nat) :
    ((o :: l).filter fun a => a.number == n) =
      if o.number = n then o :: l.filter fun a => a.number == n
      else l.filter fun a => a.number == n := by
  simp only [List.filter_cons, beq_iff_eq]

/-- Sorted options are told from those of each number. -/
theorem eq_of_filter_number (h : l.Pairwise fun a b => a.number ≤ b.number)
    (h' : l'.Pairwise fun a b => a.number ≤ b.number)
    (hsame : ∀ n, (l.filter fun o => o.number == n) = l'.filter fun o => o.number == n) :
    l = l' := by
  induction l generalizing l' with
  | nil =>
    cases l' with
    | nil => rfl
    | cons b l' =>
      have hnone := hsame b.number
      rw [filter_number_cons, if_pos rfl] at hnone
      cases hnone
  | cons a l ih =>
    have hall : ∀ {o}, o ∈ a :: l ↔ o ∈ l' := by
      intro o
      have hiff : o ∈ (a :: l).filter (fun o' => o'.number == o.number) ↔
          o ∈ l'.filter fun o' => o'.number == o.number := by rw [hsame]
      simpa only [List.mem_filter, beq_self_eq_true, and_true] using hiff
    cases l' with
    | nil => exact absurd (hall.1 List.mem_cons_self) List.not_mem_nil
    | cons b l' =>
      rw [List.pairwise_cons] at h h'
      -- Each of the two heads occurs in the other list, so neither has the larger number.
      have hle : a.number ≤ b.number := by
        rcases List.mem_cons.1 (hall.2 (List.mem_cons_self (a := b))) with rfl | hb
        · exact Nat.le_refl _
        · exact h.1 b hb
      have hge : b.number ≤ a.number := by
        rcases List.mem_cons.1 (hall.1 (List.mem_cons_self (a := a))) with rfl | ha
        · exact Nat.le_refl _
        · exact h'.1 a ha
      have hnumber := Nat.le_antisymm hle hge
      have hheads := hsame a.number
      rw [filter_number_cons, if_pos rfl, filter_number_cons, if_pos hnumber.symm] at hheads
      obtain ⟨rfl, htails⟩ := List.cons.inj hheads
      refine congrArg _ (ih h.2 h'.2 fun n => ?_)
      by_cases hn : a.number = n
      · rw [← hn, htails]
      · have hrest := hsame n
        rwa [filter_number_cons, if_neg hn, filter_number_cons, if_neg hn] at hrest

/-- The options of a number that was not smaller than any before come last of theirs. -/
theorem filter_insertOpt (h : l.Pairwise fun a b => a.number ≤ b.number) (o : Opt) (n : Nat) :
    ((insertOpt o l).filter fun a => a.number == n) = (l ++ [o]).filter fun a => a.number == n := by
  induction l with
  | nil => rfl
  | cons a l ih =>
    rw [List.pairwise_cons] at h
    rw [insertOpt]
    split
    · rename_i hlt
      rw [List.filter_append, filter_number_cons, filter_number_cons o []]
      split
      · rename_i hn
        -- All that stand behind have a larger number.
        have hnone : ((a :: l).filter fun b => b.number == n) = [] := by
          refine List.filter_eq_nil_iff.2 fun b hb => ?_
          have hlarger : o.number < b.number := by
            rcases List.mem_cons.1 hb with rfl | hb
            · exact hlt
            · exact Nat.lt_of_lt_of_le hlt (h.1 b hb)
          exact mt beq_iff_eq.1 (hn ▸ Nat.ne_of_gt hlarger)
        rw [hnone]
        rfl
      · exact (List.append_nil _).symm
    · rw [List.cons_append, List.filter_cons, List.filter_cons, ih h.2]

/-- The options come out in the order of their numbers. -/
theorem sorted_mergeSort (l : List Opt) :
    (l.mergeSort Opt.byNumber).Pairwise fun a b => a.number ≤ b.number :=
  (List.pairwise_mergeSort Opt.byNumber_trans Opt.byNumber_total l).imp of_decide_eq_true

/-- Sorting keeps the order of those of one number. -/
theorem filter_mergeSort (l : List Opt) (n : Nat) :
    ((l.mergeSort Opt.byNumber).filter fun o => o.number == n) =
      l.filter fun o => o.number == n := by
  have hsame : (l.filter fun o => o.number == n).Pairwise fun a b => a.byNumber b = true := by
    refine List.pairwise_of_forall_mem_list fun a ha b hb => decide_eq_true (Nat.le_of_eq ?_)
    exact (beq_iff_eq.1 (List.mem_filter.1 ha).2).trans (beq_iff_eq.1 (List.mem_filter.1 hb).2).symm
  have hkept := (List.sublist_mergeSort Opt.byNumber_trans Opt.byNumber_total hsame
    List.filter_sublist).filter fun o => o.number == n
  rw [List.filter_filter] at hkept
  simp only [Bool.and_self] at hkept
  exact (hkept.eq_of_length ((List.mergeSort_perm l _).filter _).length_eq.symm).symm

/-- Sorted options are those that a stable sort makes of others, if each number has the same. -/
theorem eq_mergeSort (h : l.Pairwise fun a b => a.number ≤ b.number)
    (hsame : ∀ n, (l.filter fun o => o.number == n) = l'.filter fun o => o.number == n) :
    l = l'.mergeSort Opt.byNumber :=
  eq_of_filter_number h (sorted_mergeSort l') fun n => (hsame n).trans (filter_mergeSort l' n).symm

/-- To insert an option behind those of its number is to sort with one more at the end. -/
theorem mergeSort_concat (l : List Opt) (o : Opt) :
    insertOpt o (l.mergeSort Opt.byNumber) = (l ++ [o]).mergeSort Opt.byNumber := by
  have hsorted := sorted_mergeSort l
  refine eq_mergeSort (sorted_insertOpt hsorted) fun n => ?_
  rw [filter_insertOpt hsorted, List.filter_append, filter_mergeSort, List.filter_append]

/-- It is the same to sort and then to choose, as the order of equal numbers is kept. -/
theorem mergeSort_filter (l : List Opt) (p : Opt → Bool) :
    (l.mergeSort Opt.byNumber).filter p = (l.filter p).mergeSort Opt.byNumber := by
  refine eq_mergeSort ((sorted_mergeSort l).filter _) fun n => ?_
  rw [List.filter_comm, filter_mergeSort, List.filter_comm]

end Order

namespace Options

/-! ### What is held -/

/-- What is held after a change that was answered: an option that was added comes last, and what
    was taken out is gone. -/
def Change.keep (held : List Opt) : Change → Answer → List Opt
  | add _ o, .added => held ++ [o]
  | add _ _, _ => held
  | change, _ => held.filter fun o => !change.removes.contains o.name

/-- The options that were added and not taken out since, in the order in which they were added. -/
def heldFrom (held : List Opt) : List Change → List Answer → List Opt
  | change :: changes, answer :: answers => heldFrom (change.keep held answer) changes answers
  | _, _ => held

/-- The options that are held after a run of changes with its answers. -/
def held (changes : List Change) (answers : List Answer) : List Opt := heldFrom [] changes answers

/-- A condition on an option that is to be added, and what is wrong unless it is met. -/
structure Check where
  passes : Bool
  fault : Fault

/-- The conditions on an option that is to be added under a code to those held, in the order in
    which they are looked at. -/
def checks (code : Code) (o : Opt) (held : List Opt) : List Check :=
  [⟨o.name.occurrence code ≠ .never, .option o.name (.meaningless code)⟩,
    ⟨¬(o.name.occurrence code = .once ∧ ∃ a ∈ held, a.name = o.name),
      .option o.name (.onlyOnce code)⟩,
    ⟨held.length < maxOptions, .tooManyOptions⟩,
    ⟨o ∉ held, .option o.name .repeated⟩]

/-- The answer to an addition, by the conditions on the option. -/
def verdict (checks : List Check) : Answer :=
  match checks.find? fun check => !check.passes with
  | none => .added
  | some check => .refused check.fault

theorem verdict_cons (check : Check) (rest : List Check) :
    verdict (check :: rest) = if check.passes then verdict rest else .refused check.fault := by
  rw [verdict, List.find?_cons]
  cases check.passes <;> rfl

/-- An option is added just if it passes all checks. -/
theorem verdict_eq_added_iff {checks : List Check} :
    verdict checks = .added ↔ ∀ check ∈ checks, check.passes := by
  induction checks with
  | nil => exact ⟨fun _ => List.forall_mem_nil _, fun _ => rfl⟩
  | cons check rest ih =>
    rw [verdict_cons, List.forall_mem_cons, ← ih]
    split
    · rename_i hpasses
      exact ⟨fun h => ⟨hpasses, h⟩, fun h => h.2⟩
    · rename_i hfails
      exact ⟨fun h => (by cases h), fun h => absurd h.1 hfails⟩

variable {options : Options} {kept : List Opt}

/-- An addition is answered by the first condition that is not met. -/
theorem step_add_answer (h : options.toList = kept.mergeSort Opt.byNumber) (code : Code) (o : Opt) :
    (options.step (.add code o)).2 = verdict (checks code o kept) := by
  have hmem : ∀ {a}, a ∈ options.toList ↔ a ∈ kept := h ▸ List.mem_mergeSort
  have hlength : options.length = kept.length := by rw [length, h, List.length_mergeSort]
  simp only [checks, verdict_cons, ← hmem, ← hlength, ← contains_iff, decide_eq_true_iff]
  rw [step, add]
  -- The conditions in the order in which they are checked: meaning, occurrence, room, difference.
  by_cases h₁ : o.name.occurrence code = .never
  · rw [if_pos h₁, if_neg (not_not.2 h₁)]
  rw [if_neg h₁, if_pos h₁]
  by_cases h₂ : o.name.occurrence code = .once ∧ options.contains o.name
  · rw [if_pos h₂, if_neg (not_not.2 h₂)]
  rw [if_neg h₂, if_pos h₂]
  by_cases h₃ : maxOptions ≤ options.length
  · rw [dif_pos h₃, if_neg (Nat.not_lt.2 h₃)]
  rw [dif_neg h₃, if_pos (Nat.lt_of_not_le h₃)]
  by_cases h₄ : o ∈ options.toList
  · rw [dif_pos h₄, if_neg (not_not.2 h₄)]
  · rw [dif_neg h₄, if_pos h₄]
    rfl

/-- A refused addition leaves the options as they are. -/
theorem step_add_of_refused {code : Code} {o : Opt}
    (h : (options.step (.add code o)).2 ≠ .added) : (options.step (.add code o)).1 = options := by
  rw [step] at h ⊢
  split
  · rename_i hadd
    rw [hadd] at h
    exact absurd rfl h
  · rfl

/-- A removal takes out just the options of its names and tells how many there were. -/
theorem step_of_removal (options : Options) {change : Change}
    (h : ∀ code o, change ≠ .add code o) :
    (options.step change).1 = options.without change.removes ∧
      (options.step change).2 =
        .removed (options.toList.countP fun o => change.removes.contains o.name) := by
  -- What is taken out and what is left are together what was there.
  have hcount : (options.removeEach change.removes).2 =
      options.toList.countP fun o => change.removes.contains o.name := by
    have hsum := options.removeEach_snd_add change.removes
    have hsplit := options.toList.length_eq_countP_add_countP fun o =>
      change.removes.contains o.name
    have hrest : (options.without change.removes).length =
        options.toList.countP fun o => ¬change.removes.contains o.name := by
      rw [List.countP_eq_length_filter, length, without]
      simp only [Bool.not_eq_true, Bool.decide_eq_false]
    have hlength : options.toList.length = options.length := rfl
    omega
  have hstep : options.step change = ((options.removeEach change.removes).1,
      .removed (options.removeEach change.removes).2) := by
    cases change with
    | add code o => exact absurd rfl (h code o)
    | _ => rfl
  rw [hstep, hcount, removeEach_fst]
  exact ⟨rfl, rfl⟩

/-- What is there stays what is held, sorted. -/
theorem toList_step (h : options.toList = kept.mergeSort Opt.byNumber) (change : Change) :
    (options.step change).1.toList =
      (change.keep kept (options.step change).2).mergeSort Opt.byNumber := by
  have hremoval : ∀ names, (options.without names).toList =
      (kept.filter fun o => !names.contains o.name).mergeSort Opt.byNumber := by
    intro names
    rw [← mergeSort_filter, ← h]
    rfl
  -- An addition puts in one option or nothing, and everything else is a removal.
  cases change with
  | add code o =>
    rw [step]
    cases hadd : options.add code o with
    | ok options' =>
      obtain ⟨-, -, -, -, hinsert⟩ := add_eq_ok_iff.1 hadd
      dsimp only [Change.keep]
      rw [hinsert, h, mergeSort_concat]
    | error fault => exact h
  | _ =>
    rw [(options.step_of_removal fun code o => Change.noConfusion).1]
    exact hremoval _

/-- After any changes the options are those that were kept, sorted by their numbers. -/
theorem toList_run (h : options.toList = kept.mergeSort Opt.byNumber) (changes : List Change) :
    (options.run changes).1.toList =
      (heldFrom kept changes (options.run changes).2).mergeSort Opt.byNumber := by
  induction changes generalizing options kept with
  | nil => exact h
  | cons change changes ih => exact ih (toList_step h change)

theorem Reachable.step {codes : Code → Prop} (h : Reachable codes options) {change : Change}
    (hc : ∀ code o, change = .add code o → codes code) :
    Reachable codes (options.step change).1 := by
  cases change with
  | add code o =>
    rw [Options.step]
    cases hadd : options.add code o with
    | ok options' => exact .add (hc code o rfl) h hadd
    | error fault => exact h
  | _ =>
    rw [(options.step_of_removal fun code o => Change.noConfusion).1]
    exact h.without _

/-- What is reached by changes of a reachable list is reachable. -/
theorem Reachable.run {codes : Code → Prop} (h : Reachable codes options) {changes : List Change}
    (hc : ∀ code o, .add code o ∈ changes → codes code) :
    Reachable codes (options.run changes).1 := by
  induction changes generalizing options with
  | nil => exact h
  | cons change changes ih =>
    exact ih (h.step fun code o heq => hc code o (heq ▸ List.mem_cons_self))
      fun code o hmem => hc code o (List.mem_cons_of_mem _ hmem)

/-- One that may occur only once does not occur twice. -/
theorem LegalUnder.length_values_le {code : Code} (h : options.LegalUnder code) {name : Opt.Name}
    (honce : name.occurrence code = .once) : (options.values name).length ≤ 1 := by
  have hnodup : (options.values name).Nodup := options.nodup.filter _
  have hname : ∀ {o}, o ∈ options.values name → o ∈ options.toList ∧ o.name = name := by
    intro o ho
    exact ⟨(List.mem_filter.1 ho).1, beq_iff_eq.1 (List.mem_filter.1 ho).2⟩
  match hvalues : options.values name with
  | [] => exact Nat.zero_le _
  | [_] => exact Nat.le_refl _
  | a :: b :: rest =>
    rw [hvalues] at hnodup hname
    have ha := hname List.mem_cons_self
    have hb := hname (List.mem_cons_of_mem _ List.mem_cons_self)
    have heq := h.once a ha.1 b hb.1 (ha.2.trans hb.2.symm) (ha.2 ▸ honce)
    exact absurd (heq ▸ List.mem_cons_self) (List.nodup_cons.1 hnodup).1

/-- The options after every run of changes, from none on. They are those that were added and not
    taken out since, stably sorted by number; there are fifteen at most, and no two are equal. An
    addition succeeds just if its four conditions are met, and is refused for the first that is
    not. What was added under one code only is legal under it. A removal takes out just the options
    of its names, and tells how many there were. -/
theorem multimap (changes : List Change) :
    let options := ((∅ : Options).run changes).1
    let kept := held changes ((∅ : Options).run changes).2
    options.toList = kept.mergeSort Opt.byNumber ∧ options.length ≤ 15 ∧ options.toList.Nodup ∧
      (∀ code o,
        ((options.step (.add code o)).2 = .added ↔ o.name.occurrence code ≠ .never ∧
          ¬(o.name.occurrence code = .once ∧ ∃ a ∈ kept, a.name = o.name) ∧
            kept.length < 15 ∧ o ∉ kept) ∧
        (options.step (.add code o)).2 = verdict (checks code o kept) ∧
        ((options.step (.add code o)).2 ≠ .added → (options.step (.add code o)).1 = options) ∧
        (checks code o kept).map (fun check => (check.fault.kind, check.fault.optionNumber?)) =
          [(.option, some o.number), (.option, some o.number), (.tooManyOptions, none),
            (.option, some o.number)]) ∧
      (∀ code, (∀ code' o, .add code' o ∈ changes → code' = code) →
        (∀ name, name.occurrence code = .once → (options.values name).length ≤ 1) ∧
          ∀ o ∈ options.toList, o.name.occurrence code ≠ .never) ∧
      ∀ change, (∀ code o, change ≠ .add code o) →
        (options.step change).1.toList =
            (options.toList.filter fun o => !change.removes.contains o.name) ∧
          (options.step change).2 =
            .removed (options.toList.countP fun o => change.removes.contains o.name) := by
  intro options kept
  have hkept : options.toList = kept.mergeSort Opt.byNumber :=
    toList_run List.mergeSort_nil.symm changes
  refine ⟨hkept, options.length_le, options.nodup, fun code o => ?_, fun code hcode => ?_,
    fun change hchange => ?_⟩
  · -- The four conditions are those that are checked.
    have hanswer := step_add_answer hkept code o
    refine ⟨?_, hanswer, step_add_of_refused, rfl⟩
    rw [hanswer, verdict_eq_added_iff]
    simp only [checks, List.forall_mem_cons, decide_eq_true_iff, List.not_mem_nil, false_implies,
      implies_true, and_true]
    exact Iff.rfl
  · have hlegal : options.LegalUnder code := (Reachable.run .empty hcode).legalUnder
    exact ⟨fun name => hlegal.length_values_le, hlegal.meaningful⟩
  · obtain ⟨hrest, hcount⟩ := options.step_of_removal hchange
    exact ⟨congrArg toList hrest, hcount⟩

end Options

end Coap

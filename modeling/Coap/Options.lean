import Coap.Opt.Basic
import Coap.Opt.Occurrence

/-!
# The options of a message

A message carries up to fifteen options, no two of them equal, in the order of their numbers;
those of one number stand in the order in which they were added. All of this is part of the type.
An option is added under the code of its message (`Options.add`), which decides whether it has a
meaning there and how often it may occur.

* `add_eq_ok_iff`: when an option is accepted, and what the options are then;
* `mem_insertOpt`, `mem_without`: which options are there after an insertion and a removal.
-/

namespace Coap

/-- The most options that a message may carry, as the count has four bits. -/
def maxOptions : Nat := 15

/-- Puts an option after all those whose number is not larger. -/
def insertOpt (o : Opt) : List Opt → List Opt
  | [] => [o]
  | a :: rest => if o.number < a.number then o :: a :: rest else a :: insertOpt o rest

/-- An insertion adds the one option and keeps the others. -/
theorem mem_insertOpt {o a : Opt} {l : List Opt} : a ∈ insertOpt o l ↔ a = o ∨ a ∈ l := by
  induction l with
  | nil => simp [insertOpt]
  | cons b l ih =>
    rw [insertOpt]
    split
    · simp
    · simp [ih, or_left_comm]

/-- An insertion adds one option. -/
@[simp]
theorem length_insertOpt (o : Opt) (l : List Opt) : (insertOpt o l).length = l.length + 1 := by
  induction l with
  | nil => rfl
  | cons b l ih =>
    rw [insertOpt]
    split
    · rfl
    · simp [ih]

/-- Options stay in the order of their numbers. -/
theorem sorted_insertOpt {o : Opt} {l : List Opt}
    (h : l.Pairwise fun a b => a.number ≤ b.number) :
    (insertOpt o l).Pairwise fun a b => a.number ≤ b.number := by
  induction l with
  | nil => simp [insertOpt]
  | cons b l ih =>
    rw [List.pairwise_cons] at h
    rw [insertOpt]
    -- It comes in front of the first option with a larger number, and behind all that are not
    -- larger.
    split
    · rename_i hob
      refine List.pairwise_cons.2 ⟨fun a ha => ?_, List.pairwise_cons.2 h⟩
      rcases List.mem_cons.1 ha with rfl | ha
      · exact Nat.le_of_lt hob
      · exact Nat.le_trans (Nat.le_of_lt hob) (h.1 a ha)
    · rename_i hob
      refine List.pairwise_cons.2 ⟨fun a ha => ?_, ih h.2⟩
      rcases mem_insertOpt.1 ha with rfl | ha
      · exact Nat.le_of_not_lt hob
      · exact h.1 a ha

/-- Options stay different if the one that is inserted is new. -/
theorem nodup_insertOpt {o : Opt} {l : List Opt} (h : l.Nodup) (ho : o ∉ l) :
    (insertOpt o l).Nodup := by
  induction l with
  | nil => simp [insertOpt]
  | cons b l ih =>
    rw [List.nodup_cons] at h
    rw [List.mem_cons, not_or] at ho
    rw [insertOpt]
    split
    · exact List.nodup_cons.2 ⟨fun hm => (List.mem_cons.1 hm).elim ho.1 ho.2, List.nodup_cons.2 h⟩
    · refine List.nodup_cons.2 ⟨fun hm => ?_, ih h.2 ho.2⟩
      rcases mem_insertOpt.1 hm with rfl | hm
      · exact ho.1 rfl
      · exact h.1 hm

/-- The options of a message, in the order in which they are sent. -/
structure Options where
  toList : List Opt
  sorted : toList.Pairwise fun a b => a.number ≤ b.number
  nodup : toList.Nodup
  length_le : toList.length ≤ maxOptions
  deriving DecidableEq

namespace Options

/-- No options. -/
def empty : Options := ⟨[], .nil, .nil, Nat.zero_le _⟩

instance : EmptyCollection Options := ⟨empty⟩

instance : Inhabited Options := ⟨empty⟩

instance : Membership Opt Options := ⟨fun options o => o ∈ options.toList⟩

/-- How many options there are. -/
def length (options : Options) : Nat := options.toList.length

/-- Whether there are no options. -/
def isEmpty (options : Options) : Bool := options.toList.isEmpty

/-- The options of one name, in the order in which they were added. -/
def values (options : Options) (name : Opt.Name) : List Opt :=
  options.toList.filter fun o => o.name == name

/-- The first option of a name. -/
def first? (options : Options) (name : Opt.Name) : Option Opt :=
  options.toList.find? fun o => o.name == name

/-- Whether there is an option of a name. -/
def contains (options : Options) (name : Opt.Name) : Bool :=
  (options.first? name).isSome

/-- Puts in an option that is not there yet, if there is room for it. -/
def insert (options : Options) (o : Opt) (ho : o ∉ options.toList)
    (hl : options.length < maxOptions) : Options where
  toList := insertOpt o options.toList
  sorted := sorted_insertOpt options.sorted
  nodup := nodup_insertOpt options.nodup ho
  length_le := by
    rw [length_insertOpt]
    exact hl

/-- Adds an option to a message with a given code. The checks come in this order: the option means
    something under the code, it does not occur already if it may only once, there is room, and no
    equal option is there. -/
def add (options : Options) (code : Code) (o : Opt) : Except Fault Options :=
  if o.name.occurrence code = .never then .error (.option o.name (.meaningless code))
  else if o.name.occurrence code = .once ∧ options.contains o.name then
    .error (.option o.name (.onlyOnce code))
  else if hl : maxOptions ≤ options.length then .error .tooManyOptions
  else if ho : o ∈ options.toList then .error (.option o.name .repeated)
  else .ok (options.insert o ho (Nat.lt_of_not_le hl))

/-- The options without those of the given names. -/
def without (options : Options) (names : List Opt.Name) : Options where
  toList := options.toList.filter fun o => !names.contains o.name
  sorted := options.sorted.filter _
  nodup := options.nodup.filter _
  length_le := Nat.le_trans (List.length_filter_le _ _) options.length_le

/-- The names of the options that make up the URI a request aims at. -/
def targetUri : List Opt.Name := [.uriHost, .uriPort, .uriPath, .uriQuery]

/-- The names of the options that tell where a resource was created. -/
def locationUri : List Opt.Name := [.locationPath, .locationQuery]

/-- Whether two messages carry the same values of every option, in the same order for each name. -/
def agree (a b : Options) : Bool :=
  a.length == b.length &&
    (a.toList ++ b.toList).all fun o => a.values o.name == b.values o.name

/-- How the options read in messages. -/
def render (options : Options) : String :=
  if options.isEmpty then "no options"
  else ", ".intercalate (options.toList.map Opt.render)

instance : ToString Options := ⟨render⟩

/-! ### What the operations do -/

@[simp]
theorem toList_empty : (∅ : Options).toList = [] := rfl

/-- Lists of options are the same if they hold the same options in the same order. -/
theorem ext {a b : Options} (h : a.toList = b.toList) : a = b := by
  cases a
  cases b
  cases h
  rfl

/-- An option is there if one of this name is. -/
theorem contains_iff {options : Options} {name : Opt.Name} :
    options.contains name ↔ ∃ o ∈ options.toList, o.name = name := by
  simp [contains, first?]

/-- When an option is accepted, and what the options are then. -/
theorem add_eq_ok_iff {options options' : Options} {code : Code} {o : Opt} :
    options.add code o = .ok options' ↔
      o.name.occurrence code ≠ .never ∧
      ¬(o.name.occurrence code = .once ∧ options.contains o.name) ∧
      options.length < maxOptions ∧ o ∉ options.toList ∧
      options'.toList = insertOpt o options.toList := by
  rw [add]
  split
  · simp [*]
  split
  · simp [*]
  split
  · rename_i hl
    simp [Nat.not_lt.2 hl]
  split
  · rename_i ho
    simp [ho]
  · -- All four checks are passed.
    rename_i h₁ h₂ hl ho
    constructor
    · intro h
      cases h
      exact ⟨h₁, h₂, Nat.lt_of_not_le hl, ho, rfl⟩
    · rintro ⟨-, -, -, -, h⟩
      exact congrArg Except.ok (ext h.symm)

/-- What is left are the options of other names. -/
theorem mem_without {options : Options} {names : List Opt.Name} {o : Opt} :
    o ∈ (options.without names).toList ↔ o ∈ options.toList ∧ o.name ∉ names := by
  simp [without]

end Options

end Coap

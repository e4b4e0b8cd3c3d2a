import Coap.Options

/-!
# Changes of options

While a message is put together its options change one at a time (`Options.Change`): one is added
under some code, or those of some names are taken out. Each change is answered (`Options.Answer`);
an addition that is refused leaves the options as they are, and a removal tells how many it took.

* `removeEach_fst`: taking out names one after the other leaves the options without any of them.
-/

namespace Coap.Options

/-- Takes out the options of a name, and counts them. -/
def removeAll (options : Options) (name : Opt.Name) : Options × Nat :=
  let rest := options.without [name]
  (rest, options.length - rest.length)

/-- Takes out the options of some names, one name after the other, and counts them. -/
def removeEach (options : Options) : List Opt.Name → Options × Nat
  | [] => (options, 0)
  | name :: names =>
    let (rest, count) := options.removeAll name
    let (rest, counts) := rest.removeEach names
    (rest, count + counts)

/-- What can be done to options. -/
inductive Change where
  /-- An option is added under a code. -/
  | add (code : Code) (o : Opt)
  /-- The options of a name are taken out. -/
  | remove (name : Opt.Name)
  /-- The options that make up the URI a request aims at are taken out. -/
  | removeTargetUri
  /-- The options that tell where a resource was created are taken out. -/
  | removeLocationUri

/-- The answer to a change. -/
inductive Answer where
  | added
  | refused (fault : Fault)
  | removed (count : Nat)
  deriving DecidableEq

/-- The names whose options a change takes out. -/
def Change.removes : Change → List Opt.Name
  | add _ _ => []
  | remove name => [name]
  | removeTargetUri => targetUri
  | removeLocationUri => locationUri

/-- The options after a change, with the answer to it. -/
def step (options : Options) : Change → Options × Answer
  | .add code o =>
    match options.add code o with
    | .ok options' => (options', .added)
    | .error fault => (options, .refused fault)
  | change =>
    let (options', count) := options.removeEach change.removes
    (options', .removed count)

/-- The options after a run of changes, with the answers in order. -/
def run (options : Options) : List Change → Options × List Answer
  | [] => (options, [])
  | change :: changes =>
    let (options, answer) := options.step change
    let (options, answers) := options.run changes
    (options, answer :: answers)

/-! ### What a removal leaves -/

theorem without_nil (options : Options) : options.without [] = options :=
  ext (List.filter_eq_self.2 fun _ _ => rfl)

/-- To leave out some names and then others is to leave out all of them. -/
theorem without_without (options : Options) (names names' : List Opt.Name) :
    (options.without names).without names' = options.without (names ++ names') := by
  refine ext (List.filter_filter.trans (List.filter_congr fun o _ => ?_))
  rw [List.contains_append, Bool.not_or, Bool.and_comm]

/-- To remove options name by name leaves what is left without all of the names. -/
theorem removeEach_fst (options : Options) (names : List Opt.Name) :
    (options.removeEach names).1 = options.without names := by
  induction names generalizing options with
  | nil => exact (without_nil options).symm
  | cons name names ih =>
    rw [removeEach]
    dsimp only [removeAll]
    rw [ih, without_without, List.singleton_append]

theorem length_without_le (options : Options) (names : List Opt.Name) :
    (options.without names).length ≤ options.length :=
  List.length_filter_le _ _

/-- What is taken out and what is left are all the options that there were. -/
theorem removeEach_snd_add (options : Options) (names : List Opt.Name) :
    (options.removeEach names).2 + (options.without names).length = options.length := by
  induction names generalizing options with
  | nil => rw [without_nil, removeEach, Nat.zero_add]
  | cons name names ih =>
    have hrest := ih (options.without [name])
    have hle := options.length_without_le [name]
    rw [without_without, List.singleton_append] at hrest
    rw [removeEach]
    dsimp only [removeAll]
    omega

end Coap.Options

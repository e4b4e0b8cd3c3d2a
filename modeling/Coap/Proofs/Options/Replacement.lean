import Coap.Proofs.Options.Multimap

/-!
# Options that take the place of others

To set what there is one of, or a few of, the old options of its name are taken out and the new ones
are added one after the other. A single option always finds its place if there was one of its name
before: so setting it works or changes nothing. Several may stop half-way, with some of them there
and the old ones gone (`exists_addAll_eq`).

* `values_of_add`, `without_of_add`: an option that is added is the last of its name, and all others
  stay;
* `eq_of_values_without`: options are told from those of a name that has its number for itself, and
  the others;
* `replace_done_iff`, `replace_of_done`, `LegalUnder.replace_of_refused`: when an option takes the
  place of those of its name, and what there is then;
* `addAll_done_iff`, `of_addAll_stopped`: when options of one name are all added, and which of them
  are there if they are not.
-/

namespace Coap

/-- An option that does not pass a test does not show among those that do. -/
theorem filter_insertOpt_of_not {p : Opt → Bool} {o : Opt} (ho : p o = false) (l : List Opt) :
    (insertOpt o l).filter p = l.filter p := by
  induction l with
  | nil => rw [insertOpt, List.filter_cons, if_neg (Bool.eq_false_iff.1 ho)]
  | cons a l ih =>
    rw [insertOpt]
    split
    · rw [List.filter_cons, if_neg (Bool.eq_false_iff.1 ho)]
    · rw [List.filter_cons, List.filter_cons, ih]

namespace Options

variable {options options' : Options} {code : Code} {name : Opt.Name} {o : Opt} {added : List Opt}

/-! ### One name and the others -/

/-- Options of one name have one number. -/
theorem filter_name (l : List Opt) (name : Opt.Name) :
    (l.filter fun o => o.name == name) =
      (l.filter fun o => o.number == name.number).filter fun o => o.name == name := by
  rw [List.filter_filter]
  refine List.filter_congr fun o _ => ?_
  by_cases h : o.name = name
  · simp [h, Opt.number]
  · simp [h]

/-- An option that is added is the last of its name. -/
theorem values_of_add (h : options.add code o = .ok options') :
    options'.values o.name = options.values o.name ++ [o] := by
  obtain ⟨-, -, -, -, hinsert⟩ := add_eq_ok_iff.1 h
  have hnumber := filter_insertOpt options.sorted o o.name.number
  rw [values, hinsert, filter_name, hnumber, ← filter_name, List.filter_append]
  simp [values]

/-- An option that is added leaves those of other names as they are. -/
theorem without_of_add (h : options.add code o = .ok options') :
    options'.without [o.name] = options.without [o.name] := by
  obtain ⟨-, -, -, -, hinsert⟩ := add_eq_ok_iff.1 h
  refine ext ?_
  simp only [without, hinsert]
  exact filter_insertOpt_of_not (by simp) _

theorem length_of_add (h : options.add code o = .ok options') :
    options'.length = options.length + 1 := by
  obtain ⟨-, -, -, -, hinsert⟩ := add_eq_ok_iff.1 h
  rw [length, hinsert, length_insertOpt, length]

theorem values_without_self (options : Options) (name : Opt.Name) :
    (options.without [name]).values name = [] := by
  refine List.filter_eq_nil_iff.2 fun o ho => ?_
  simpa using (mem_without.1 ho).2

theorem first?_eq_head?_values (options : Options) (name : Opt.Name) :
    options.first? name = (options.values name).head? :=
  List.head?_filter.symm

theorem without_without_self (options : Options) (name : Opt.Name) :
    (options.without [name]).without [name] = options.without [name] := by
  refine ext (List.filter_eq_self.2 fun o ho => ?_)
  simpa using (mem_without.1 ho).2

theorem not_contains_without_self (options : Options) (name : Opt.Name) :
    ¬ (options.without [name]).contains name := by
  rintro h
  obtain ⟨o, ho, hname⟩ := contains_iff.1 h
  exact (mem_without.1 ho).2 (List.mem_singleton.2 hname)

theorem without_eq_self (h : ¬ options.contains name) : options.without [name] = options := by
  refine ext (List.filter_eq_self.2 fun o ho => ?_)
  have hne : o.name ≠ name := fun hname => h (contains_iff.2 ⟨o, ho, hname⟩)
  simp [hne]

/-- There is room once the options of a name are out, if there was one or there was room before. -/
theorem length_without_lt_iff :
    (options.without [name]).length < maxOptions ↔
      options.contains name ∨ options.length < maxOptions := by
  constructor
  · intro h
    by_cases hthere : options.contains name
    · exact .inl hthere
    · exact .inr (without_eq_self hthere ▸ h)
  · rintro (h | h)
    · obtain ⟨o, ho, rfl⟩ := contains_iff.1 h
      have hlt : (options.without [o.name]).length < options.length :=
        List.length_filter_lt_length_iff_exists.2 ⟨o, ho, by simp⟩
      exact Nat.lt_of_lt_of_le hlt options.length_le
    · exact Nat.lt_of_le_of_lt (options.length_without_le [name]) h

/-- Options are told from those of a name that has its number for itself, and the others. -/
theorem eq_of_values_without (hown : ∀ other : Opt.Name, other.number = name.number → other = name)
    (hvalues : options.values name = options'.values name)
    (hothers : options.without [name] = options'.without [name]) : options = options' := by
  refine ext (eq_of_filter_number options.sorted options'.sorted fun n => ?_)
  -- All options with this number are of the name, and none of the others are.
  by_cases hn : n = name.number
  · have hnumber : ∀ l : List Opt,
        (l.filter fun o => o.number == n) = l.filter fun o => o.name == name := by
      refine fun l => List.filter_congr fun o _ => ?_
      rw [hn, Bool.eq_iff_iff, beq_iff_eq, beq_iff_eq]
      exact ⟨fun h => hown o.name h, fun h => congrArg Opt.Name.number h⟩
    rw [hnumber, hnumber]
    exact hvalues
  · have hnumber : ∀ options : Options, (options.toList.filter fun o => o.number == n) =
        (options.without [name]).toList.filter fun o => o.number == n := by
      refine fun options => ((List.filter_filter).trans (List.filter_congr fun o _ => ?_)).symm
      by_cases ho : o.name = name
      · have hne : ¬ o.number = n := fun h => hn (h.symm.trans (congrArg Opt.Name.number ho))
        simp [hne]
      · simp [ho]
    rw [hnumber options, hnumber options', hothers]

/-! ### One option in the place of another -/

theorem exists_of_replace_done {made : Except Fault Opt}
    (h : (options.replace code made).fault? = none) : ∃ o, made = .ok o := by
  cases made with
  | ok o => exact ⟨o, rfl⟩
  | error fault => cases h

/-- An option is replaced by leaving out those of its name and adding it. -/
theorem replace_ok (options : Options) (code : Code) (o : Opt) :
    options.replace code (.ok o) =
      .ofExcept (options.without [o.name]) ((options.without [o.name]).add code o) := by
  rw [replace, addAll]
  cases (options.without [o.name]).add code o <;> rfl

/-- An option takes the place of those of its name if it has a meaning and there is one of them, or
    room for it. -/
theorem replace_done_iff :
    (options.replace code (.ok o)).fault? = none ↔ o.name.occurrence code ≠ .never ∧
      (options.contains o.name ∨ options.length < maxOptions) := by
  rw [replace_ok, ← length_without_lt_iff]
  have hgone := options.not_contains_without_self o.name
  constructor
  · intro h
    -- Whatever was there of the name is gone before, so only the meaning and the room are left to
    -- check.
    cases hadd : (options.without [o.name]).add code o with
    | ok options' =>
      obtain ⟨hmeaning, -, hroom, -, -⟩ := add_eq_ok_iff.1 hadd
      exact ⟨hmeaning, hroom⟩
    | error fault =>
      rw [hadd] at h
      cases h
  · rintro ⟨hmeaning, hroom⟩
    obtain ⟨options', hadd, -⟩ := exists_add_eq_ok hmeaning (fun h => hgone h.2) hroom
      fun ho => hgone (contains_iff.2 ⟨o, ho, rfl⟩)
    rw [hadd]
    rfl

/-- An option that took the place of those of its name is the only one of it, and nothing else
    changed. -/
theorem replace_of_done (h : (options.replace code (.ok o)).fault? = none) :
    (options.replace code (.ok o)).value.values o.name = [o] ∧
      (options.replace code (.ok o)).value.without [o.name] = options.without [o.name] := by
  rw [replace_ok] at h ⊢
  cases hadd : (options.without [o.name]).add code o with
  | ok options' =>
    have hvalues := values_of_add hadd
    rw [values_without_self, List.nil_append] at hvalues
    exact ⟨hvalues, (without_of_add hadd).trans (options.without_without_self o.name)⟩
  | error fault =>
    rw [hadd] at h
    cases h

/-- Nothing changes if an option is refused: had there been one of its name, there would be room,
    and a meaning as well. -/
theorem LegalUnder.replace_of_refused (hlegal : options.LegalUnder code)
    (h : (options.replace code (.ok o)).fault? ≠ none) :
    (options.replace code (.ok o)).value = options := by
  have hnone : ¬ options.contains o.name := by
    intro hthere
    obtain ⟨a, ha, hname⟩ := contains_iff.1 hthere
    exact h (replace_done_iff.2 ⟨hname ▸ hlegal.meaningful a ha, .inl hthere⟩)
  rw [replace_ok, without_eq_self hnone] at h ⊢
  cases hadd : options.add code o with
  | ok options' =>
    rw [hadd] at h
    exact absurd rfl h
  | error fault => rfl

/-! ### Several options of one name -/

/-- Options are added up to the first that is refused. -/
theorem exists_addAll_eq (options : Options) (code : Code) (added : List Opt) :
    ∃ placed rest, added = placed ++ rest ∧
      options.addAll code placed = .done (options.addAll code added).value ∧
      (rest = [] ∧ (options.addAll code added).fault? = none ∨
        ∃ o rest' fault, rest = o :: rest' ∧ (options.addAll code added).fault? = some fault ∧
          (options.addAll code added).value.add code o = .error fault) := by
  induction added generalizing options with
  | nil => exact ⟨[], [], rfl, rfl, .inl ⟨rfl, rfl⟩⟩
  | cons o added ih =>
    rw [addAll]
    -- The first option that is refused ends the run, and everything behind it is left out.
    cases hadd : options.add code o with
    | ok options' =>
      obtain ⟨placed, rest, rfl, hplaced, hend⟩ := ih options'
      refine ⟨o :: placed, rest, rfl, ?_, hend⟩
      rw [addAll, hadd]
      exact hplaced
    | error fault => exact ⟨[], o :: added, rfl, rfl, .inr ⟨o, added, fault, rfl, rfl, hadd⟩⟩

/-- Options of one name that are added come after those of their name, and all others stay. -/
theorem of_addAll_done (hname : ∀ o ∈ added, o.name = name)
    (h : options.addAll code added = .done options') :
    options'.values name = options.values name ++ added ∧
      options'.without [name] = options.without [name] ∧
        options'.length = options.length + added.length := by
  induction added generalizing options with
  | nil =>
    obtain rfl := congrArg Edited.value h
    exact ⟨(List.append_nil _).symm, rfl, rfl⟩
  | cons o added ih =>
    obtain rfl := hname o List.mem_cons_self
    rw [addAll] at h
    -- It stands behind the options of its name, and those of the rest come behind it in turn.
    cases hadd : options.add code o with
    | error fault =>
      rw [hadd] at h
      cases congrArg Edited.fault? h
    | ok next =>
      rw [hadd] at h
      obtain ⟨hvalues, hothers, hlength⟩ :=
        ih (fun a ha => hname a (List.mem_cons_of_mem _ ha)) h
      rw [values_of_add hadd, List.append_assoc] at hvalues
      rw [length_of_add hadd] at hlength
      refine ⟨hvalues, hothers.trans (without_of_add hadd), ?_⟩
      rw [hlength, List.length_cons, Nat.add_right_comm, Nat.add_assoc]

/-- An option that may occur several times is refused if there is no room or it is there already. -/
theorem add_eq_error_iff (h : o.name.occurrence code = .repeatable) {fault : Fault} :
    options.add code o = .error fault ↔
      maxOptions ≤ options.length ∧ fault = .tooManyOptions ∨
        options.length < maxOptions ∧ o ∈ options.values o.name ∧
          fault = .option o.name .repeated := by
  have hmem : o ∈ options.values o.name ↔ o ∈ options.toList := by simp [values]
  rw [add, h, if_neg (by decide), if_neg (fun hc => by cases hc.1), hmem]
  split
  · rename_i hfull
    simp [hfull, Nat.not_lt.2 hfull, eq_comm]
  split
  · rename_i hroom hthere
    simp [hroom, Nat.not_le.1 hroom, hthere, eq_comm]
  · rename_i hroom hnew
    simp [hroom, hnew]

section OneName

variable (hname : ∀ o ∈ added, o.name = name) (hoften : name.occurrence code = .repeatable)

include hname hoften

/-- Options of one name are added up to the first for which there is no room, or that is there. -/
theorem of_addAll_stopped {fault : Fault} (h : (options.addAll code added).fault? = some fault) :
    ∃ placed o rest, added = placed ++ o :: rest ∧
      (options.addAll code added).value.values name = options.values name ++ placed ∧
      (options.addAll code added).value.without [name] = options.without [name] ∧
      (options.length + placed.length = maxOptions ∧ fault = .tooManyOptions ∨
        options.length + placed.length < maxOptions ∧ o ∈ options.values name ++ placed ∧
          fault = .option name .repeated) := by
  obtain ⟨placed, rest, hadded, hplaced, hend⟩ := options.exists_addAll_eq code added
  -- There is a fault, so it was not the end of the list that stopped the run.
  rcases hend with ⟨-, hnone⟩ | ⟨o, rest', fault', rfl, hfault, hrefused⟩
  · cases hnone.symm.trans h
  obtain rfl := Option.some.inj (hfault.symm.trans h)
  have ho : o.name = name := hname o (by simp [hadded])
  obtain ⟨hvalues, hothers, hlength⟩ :=
    of_addAll_done (fun a ha => hname a (by simp [hadded, ha])) hplaced
  have hle := (options.addAll code added).value.length_le
  refine ⟨placed, o, rest', hadded, hvalues, hothers, ?_⟩
  -- There is either no room for the option that is refused, or it is there already.
  rw [add_eq_error_iff (ho.symm ▸ hoften), ho, hvalues, hlength] at hrefused
  exact hrefused.imp_left fun hfull => ⟨Nat.le_antisymm (hlength ▸ hle) hfull.1, hfull.2⟩

/-- Options of one name that may occur several times are all added just if no two of them are equal,
    and there is room for all. -/
theorem addAll_done_iff :
    (options.addAll code added).fault? = none ↔
      (options.values name ++ added).Nodup ∧ options.length + added.length ≤ maxOptions := by
  constructor
  · -- Nothing was left out, and what is there has no doubles and finds room.
    intro h
    have hdone : options.addAll code added = .done (options.addAll code added).value := by
      rw [Edited.done, ← h]
    obtain ⟨hvalues, -, hlength⟩ := of_addAll_done hname hdone
    exact ⟨hvalues ▸ (options.addAll code added).value.nodup.filter _,
      hlength ▸ (options.addAll code added).value.length_le⟩
  · -- Whatever stopped the run would be at odds with one of the two.
    rintro ⟨hnodup, hroom⟩
    rw [Option.eq_none_iff_forall_ne_some]
    intro fault h
    obtain ⟨placed, o, rest, rfl, -, -, ⟨hfull, -⟩ | ⟨-, hthere, -⟩⟩ :=
      of_addAll_stopped hname hoften h
    · rw [List.length_append, List.length_cons] at hroom
      omega
    · rw [← List.append_assoc] at hnodup
      exact (List.nodup_append.1 hnodup).2.2 o hthere o List.mem_cons_self rfl

end OneName

end Options

end Coap

import Coap.Options.Replace

/-!
# Legal options

Options come about by additions, each under some code, and by removals (`Options.Reachable`). If
all additions were made under one code, the options are *legal* under it (`Options.LegalUnder`):
each of them has a meaning there, and one that may occur only once does not occur twice. Nothing
else is needed: legal options are reached by adding them one after the other, in the order in
which they stand.

* `Reachable.legalUnder`: what is reached under one code is legal under it;
* `LegalUnder.add_eq_ok`: of legal options each can be added after those that stand before it;
* `LegalUnder.addAll_toList`: adding all of them to the empty list gives them back.
-/

namespace Coap

/-- An option of the highest number comes last. -/
theorem insertOpt_of_le {o : Opt} {l : List Opt} (h : ∀ a ∈ l, a.number ≤ o.number) :
    insertOpt o l = l ++ [o] := by
  induction l with
  | nil => rfl
  | cons a l ih =>
    have ha : ¬o.number < a.number := Nat.not_lt.2 (h a List.mem_cons_self)
    rw [insertOpt, if_neg ha, ih fun b hb => h b (List.mem_cons_of_mem _ hb), List.cons_append]

namespace Options

/-- The options that additions under codes of a set, and removals, lead to. -/
inductive Reachable (codes : Code → Prop) : Options → Prop
  | empty : Reachable codes ∅
  | add {options options' : Options} {code : Code} {o : Opt} : codes code →
      Reachable codes options → options.add code o = .ok options' → Reachable codes options'
  | without {options : Options} (names : List Opt.Name) :
      Reachable codes options → Reachable codes (options.without names)

/-- Options are legal under a code if each of them means something there, and one that may occur
    only once does not occur twice. -/
structure LegalUnder (code : Code) (options : Options) : Prop where
  meaningful : ∀ o ∈ options.toList, o.name.occurrence code ≠ .never
  once : ∀ a ∈ options.toList, ∀ b ∈ options.toList, a.name = b.name →
    a.name.occurrence code = .once → a = b

variable {code : Code} {options options' : Options} {o : Opt}

/-- An option is added if its name may occur, it has room and is not there already. -/
theorem exists_add_eq_ok (h₁ : o.name.occurrence code ≠ .never)
    (h₂ : ¬(o.name.occurrence code = .once ∧ options.contains o.name))
    (hl : options.length < maxOptions) (ho : o ∉ options.toList) :
    ∃ options', options.add code o = .ok options' ∧
      options'.toList = insertOpt o options.toList :=
  ⟨options.insert o ho hl, add_eq_ok_iff.2 ⟨h₁, h₂, hl, ho, rfl⟩, rfl⟩

theorem LegalUnder.empty : (∅ : Options).LegalUnder code :=
  ⟨fun _ ho => absurd ho List.not_mem_nil, fun _ ha => absurd ha List.not_mem_nil⟩

/-- A legal list stays legal when an option is added. -/
theorem LegalUnder.add (h : options.LegalUnder code) (ha : options.add code o = .ok options') :
    options'.LegalUnder code := by
  obtain ⟨hm, honce, -, -, hl⟩ := add_eq_ok_iff.1 ha
  -- An option that may occur only once was not there under its name before.
  have hnew : ∀ a ∈ options.toList, a.name = o.name → o.name.occurrence code ≠ .once :=
    fun a ha' hn ho => honce ⟨ho, contains_iff.2 ⟨a, ha', hn⟩⟩
  constructor
  · intro a ha'
    rw [hl, mem_insertOpt] at ha'
    rcases ha' with rfl | ha'
    · exact hm
    · exact h.meaningful a ha'
  · -- Of two options of one name at most one is new, and then the other was not there.
    intro a ha' b hb hab ho
    rw [hl, mem_insertOpt] at ha' hb
    rcases ha' with rfl | ha' <;> rcases hb with rfl | hb
    · rfl
    · exact absurd ho (hnew b hb hab.symm)
    · exact absurd (hab ▸ ho) (hnew a ha' hab)
    · exact h.once a ha' b hb hab ho

/-- A legal list stays legal when names are left out. -/
theorem LegalUnder.without (h : options.LegalUnder code) (names : List Opt.Name) :
    (options.without names).LegalUnder code where
  meaningful o ho := h.meaningful o (mem_without.1 ho).1
  once a ha b hb := h.once a (mem_without.1 ha).1 b (mem_without.1 hb).1

/-- Additions that stop half-way lead somewhere all the same. -/
theorem Reachable.addAll {codes : Code → Prop} (h : Reachable codes options) (hc : codes code)
    (added : List Opt) : Reachable codes (options.addAll code added).value := by
  induction added generalizing options with
  | nil => exact h
  | cons o rest ih =>
    rw [Options.addAll]
    split
    · rename_i options' ha
      exact ih (.add hc h ha)
    · exact h

/-- What is reached under one code is legal under it. -/
theorem Reachable.legalUnder (h : Reachable (· = code) options) : options.LegalUnder code := by
  induction h with
  | empty => exact .empty
  | add hc _ ha ih => exact ih.add (hc ▸ ha)
  | without names _ ih => exact ih.without names

/-- Of legal options each can be added after those that stand before it. -/
theorem LegalUnder.add_eq_ok (h : options.LegalUnder code) {kept : Options} {rest : List Opt}
    (hl : options.toList = kept.toList ++ o :: rest) :
    ∃ kept', kept.add code o = .ok kept' ∧ kept'.toList = kept.toList ++ [o] := by
  have ho : o ∈ options.toList := by simp [hl]
  have hkept : ∀ a ∈ kept.toList, a ∈ options.toList := fun a ha => by simp [hl, ha]
  have hsorted := hl ▸ options.sorted
  have hnodup := hl ▸ options.nodup
  have hlength := hl ▸ options.length_le
  have hle : ∀ a ∈ kept.toList, a.number ≤ o.number := fun a ha =>
    (List.pairwise_append.1 hsorted).2.2 a ha o List.mem_cons_self
  have hnot : o ∉ kept.toList := fun hm =>
    (List.nodup_append.1 hnodup).2.2 o hm o List.mem_cons_self rfl
  -- One of the same name that stands before it would be the option itself.
  have hfree : ¬(o.name.occurrence code = .once ∧ kept.contains o.name) := by
    rintro ⟨honce, hc⟩
    obtain ⟨a, ha, hn⟩ := contains_iff.1 hc
    exact hnot (h.once o ho a (hkept a ha) hn.symm honce ▸ ha)
  have hroom : kept.length < maxOptions := by
    rw [List.length_append, List.length_cons] at hlength
    exact Nat.lt_of_lt_of_le (Nat.lt_add_of_pos_right (Nat.succ_pos _)) hlength
  obtain ⟨kept', hadd, hl'⟩ := exists_add_eq_ok (h.meaningful o ho) hfree hroom hnot
  exact ⟨kept', hadd, hl'.trans (insertOpt_of_le hle)⟩

/-- The rest of a legal list can be added to its beginning. -/
theorem LegalUnder.addAll_append (h : options.LegalUnder code) {kept : Options} {rest : List Opt}
    (hl : options.toList = kept.toList ++ rest) : kept.addAll code rest = .done options := by
  induction rest generalizing kept with
  | nil =>
    rw [List.append_nil] at hl
    rw [addAll, ext hl]
  | cons o rest ih =>
    obtain ⟨kept', hadd, hl'⟩ := h.add_eq_ok hl
    rw [addAll, hadd]
    exact ih (by rw [hl, hl', List.append_assoc, List.singleton_append])

/-- Legal options are what adding them, one after the other, to the empty list leads to. -/
theorem LegalUnder.addAll_toList (h : options.LegalUnder code) :
    (∅ : Options).addAll code options.toList = .done options :=
  h.addAll_append rfl

end Options

end Coap

/-!
# Maps from message ids

An endpoint may have a message in flight for each of the 65536 ids of a peer, so what it knows of
them is held in a binary tree that branches on the bits of the id, the lowest one first.

* `find?_set`, `find?_filterMap`: what a map holds after a change;
* `mem_toList_iff`: the pairs of a map are the ids it holds with their values;
* `toList_congr`: what a map lists is told from what is found in it.
-/

namespace Coap

/-- How many numbers a map of a depth covers: all those below this one. -/
def BitMap.bound : (depth : Nat) → Nat
  | 0 => 1
  | depth + 1 => 2 * bound depth

/-- A finite map from the numbers below `BitMap.bound depth`. -/
inductive BitMap (α : Type) : (depth : Nat) → Type where
  | empty {depth : Nat} : BitMap α depth
  | leaf (a : α) : BitMap α 0
  /-- The values of the even numbers and those of the odd ones, each under half its number. -/
  | node {depth : Nat} (even odd : BitMap α depth) : BitMap α (depth + 1)

namespace BitMap

variable {α β : Type}

/-- The value of a number. -/
def get? : {depth : Nat} → BitMap α depth → Nat → Option α
  | _, empty, _ => none
  | _, leaf a, _ => some a
  | _, node even odd, k => if k % 2 = 0 then even.get? (k / 2) else odd.get? (k / 2)

/-- The values of the even numbers, and those of the odd ones. -/
def halves {depth : Nat} : BitMap α (depth + 1) → BitMap α depth × BitMap α depth
  | empty => (empty, empty)
  | node even odd => (even, odd)

/-- The map with given values of the even and of the odd numbers. -/
def join {depth : Nat} : BitMap α depth → BitMap α depth → BitMap α (depth + 1)
  | empty, empty => empty
  | even, odd => node even odd

/-- The map with another value, or none, for a number. -/
def set : {depth : Nat} → BitMap α depth → (k : Nat) → Option α → BitMap α depth
  | 0, _, _, none => empty
  | 0, _, _, some a => leaf a
  | _ + 1, t, k, v =>
    let (even, odd) := t.halves
    if k % 2 = 0 then join (even.set (k / 2) v) odd else join even (odd.set (k / 2) v)

/-- The map with every value changed or left out. -/
def filterMap : {depth : Nat} → BitMap α depth → (f : Nat → α → Option β) → BitMap β depth
  | _, empty, _ => empty
  | _, leaf a, f =>
    match f 0 a with
    | some b => leaf b
    | none => empty
  | _, node even odd, f =>
    join (even.filterMap fun k => f (2 * k)) (odd.filterMap fun k => f (2 * k + 1))

/-- The numbers that have a value, with their values. -/
def toList : {depth : Nat} → BitMap α depth → List (Nat × α)
  | _, empty => []
  | _, leaf a => [(0, a)]
  | _, node even odd =>
    even.toList.map (fun (k, a) => (2 * k, a)) ++ odd.toList.map (fun (k, a) => (2 * k + 1, a))

theorem lt_bound_zero_iff {k : Nat} : k < bound 0 ↔ k = 0 := Nat.lt_one_iff

/-- Half a number is below the bound of a subtree just if the number is below the bound of the tree.
    -/
theorem half_lt_bound_iff {depth k : Nat} : k / 2 < bound depth ↔ k < bound (depth + 1) := by
  rw [bound]
  omega

/-- Even keys are looked up in the first half, odd ones in the second. -/
theorem get?_join {depth : Nat} (even odd : BitMap α depth) (k : Nat) :
    (join even odd).get? k = if k % 2 = 0 then even.get? (k / 2) else odd.get? (k / 2) := by
  unfold join
  split <;> simp [get?]

/-- The halves of a tree hold its even and its odd keys. -/
theorem get?_halves {depth : Nat} (t : BitMap α (depth + 1)) (k : Nat) :
    t.get? k = if k % 2 = 0 then t.halves.1.get? (k / 2) else t.halves.2.get? (k / 2) := by
  cases t <;> simp [halves, get?]

/-- What a tree holds after a key was set. -/
theorem get?_set {depth : Nat} (t : BitMap α depth) {k k' : Nat} (hk : k < bound depth)
    (hk' : k' < bound depth) (v : Option α) :
    (t.set k v).get? k' = if k' = k then v else t.get? k' := by
  induction depth generalizing k k' with
  | zero =>
    have : k' = k := (lt_bound_zero_iff.1 hk').trans (lt_bound_zero_iff.1 hk).symm
    cases v <;> simp [set, get?, this]
  | succ depth ih =>
    have h₁ := half_lt_bound_iff.2 hk
    have h₂ := half_lt_bound_iff.2 hk'
    rw [get?_halves t]
    rw [set]
    simp only
    -- The parities of the two keys tell which half is set and in which one is looked; a key is told
    -- from its half and its parity.
    split <;> rw [get?_join] <;> split <;> rename_i hp hp'
    · rw [ih _ h₁ h₂]
      have : k' / 2 = k / 2 ↔ k' = k := by omega
      simp only [this]
    · have : k' ≠ k := fun h => hp' (h ▸ hp)
      rw [if_neg this]
    · have : k' ≠ k := fun h => hp (h ▸ hp')
      rw [if_neg this]
    · rw [ih _ h₁ h₂]
      have : k' / 2 = k / 2 ↔ k' = k := by omega
      simp only [this]

/-- Each value is changed or left out by itself. -/
theorem get?_filterMap {depth : Nat} (t : BitMap α depth) (f : Nat → α → Option β) {k : Nat}
    (hk : k < bound depth) : (t.filterMap f).get? k = (t.get? k).bind (f k) := by
  induction t generalizing f k with
  | empty => rfl
  | leaf a =>
    have : k = 0 := lt_bound_zero_iff.1 hk
    subst this
    simp only [filterMap, get?, Option.bind_some]
    split <;> simp_all [get?]
  | node even odd ihe iho =>
    -- The last bit of the key tells the half, and the other bits are the key in this half.
    rw [filterMap, get?_join, get?]
    split
    · have : 2 * (k / 2) = k := by omega
      rw [ihe _ (half_lt_bound_iff.2 hk), this]
    · have : 2 * (k / 2) + 1 = k := by omega
      rw [iho _ (half_lt_bound_iff.2 hk), this]

/-- The pairs of a tree are the keys it holds with their values. -/
theorem mem_toList_iff {depth : Nat} {t : BitMap α depth} {k : Nat} {a : α} :
    (k, a) ∈ t.toList ↔ k < bound depth ∧ t.get? k = some a := by
  induction t generalizing k with
  | empty => simp [toList, get?]
  | leaf b =>
    simp only [toList, get?, List.mem_singleton, Prod.mk.injEq, Option.some.injEq]
    constructor
    · rintro ⟨rfl, rfl⟩
      exact ⟨by decide, rfl⟩
    · rintro ⟨hk, rfl⟩
      exact ⟨lt_bound_zero_iff.1 hk, rfl⟩
  | node even odd ihe iho =>
    simp only [toList, List.mem_append, List.mem_map, Prod.exists, Prod.mk.injEq]
    rw [get?]
    constructor
    · -- An even key comes from the first half, an odd one from the second.
      rintro (⟨k₁, a₁, hm, rfl, rfl⟩ | ⟨k₁, a₁, hm, rfl, rfl⟩)
      · obtain ⟨h₁, h₂⟩ := ihe.1 hm
        have h₃ : 2 * k₁ / 2 = k₁ := by omega
        exact ⟨half_lt_bound_iff.1 (h₃.symm ▸ h₁), by rw [if_pos (by omega), h₃, h₂]⟩
      · obtain ⟨h₁, h₂⟩ := iho.1 hm
        have h₃ : (2 * k₁ + 1) / 2 = k₁ := by omega
        exact ⟨half_lt_bound_iff.1 (h₃.symm ▸ h₁), by rw [if_neg (by omega), h₃, h₂]⟩
    · rintro ⟨hk, hg⟩
      split at hg
      · exact .inl ⟨k / 2, a, ihe.2 ⟨half_lt_bound_iff.2 hk, hg⟩, by omega, rfl⟩
      · exact .inr ⟨k / 2, a, iho.2 ⟨half_lt_bound_iff.2 hk, hg⟩, by omega, rfl⟩

theorem toList_halves {depth : Nat} (t : BitMap α (depth + 1)) :
    t.toList = t.halves.1.toList.map (fun (k, a) => (2 * k, a)) ++
      t.halves.2.toList.map (fun (k, a) => (2 * k + 1, a)) := by
  cases t <;> rfl

/-- The order of the pairs is told from what is found: it does not depend on the shape of the tree.
    -/
theorem toList_congr {depth : Nat} {t t' : BitMap α depth}
    (h : ∀ k < bound depth, t.get? k = t'.get? k) : t.toList = t'.toList := by
  induction depth with
  | zero =>
    have h₀ := h 0 (lt_bound_zero_iff.2 rfl)
    cases t <;> cases t' <;> simp_all [get?, toList]
  | succ depth ih =>
    -- A number of a half stands for its double, or for the number after that.
    have heven : t.halves.1.toList = t'.halves.1.toList := ih fun k hk => by
      have h₂ := h (2 * k) (half_lt_bound_iff.1 (by omega))
      rw [get?_halves t, get?_halves t', if_pos (by omega), if_pos (by omega)] at h₂
      rwa [Nat.mul_div_cancel_left k Nat.two_pos] at h₂
    have hodd : t.halves.2.toList = t'.halves.2.toList := ih fun k hk => by
      have h₂ := h (2 * k + 1) (half_lt_bound_iff.1 (by omega))
      rw [get?_halves t, get?_halves t', if_neg (by omega), if_neg (by omega)] at h₂
      have hhalf : (2 * k + 1) / 2 = k := by omega
      rwa [hhalf] at h₂
    rw [toList_halves t, toList_halves t', heven, hodd]

/-- No key occurs twice. -/
theorem nodup_keys_toList {depth : Nat} (t : BitMap α depth) :
    (t.toList.map Prod.fst).Nodup := by
  induction t with
  | empty => simp [toList]
  | leaf a => simp [toList]
  | node even odd ihe iho =>
    -- Keys of different halves differ in their parity.
    have hodd : ∀ k ∈ odd.toList.map Prod.fst, ∀ j ∈ even.toList.map Prod.fst,
        2 * j ≠ 2 * k + 1 := by
      intros
      omega
    rw [toList, List.map_append, List.map_map, List.map_map, List.nodup_append]
    refine ⟨?_, ?_, ?_⟩
    · have : (Prod.fst ∘ fun (p : Nat × α) => (2 * p.1, p.2)) = (2 * ·) ∘ Prod.fst := rfl
      rw [this, ← List.map_map]
      exact List.Pairwise.map _ (fun a b hab h => hab (by omega)) ihe
    · have : (Prod.fst ∘ fun (p : Nat × α) => (2 * p.1 + 1, p.2)) = (2 * · + 1) ∘ Prod.fst := rfl
      rw [this, ← List.map_map]
      exact List.Pairwise.map _ (fun a b hab h => hab (by omega)) iho
    · intro x hx y hy
      obtain ⟨p, hp, rfl⟩ := List.mem_map.1 hx
      obtain ⟨q, hq, rfl⟩ := List.mem_map.1 hy
      exact hodd q.1 (List.mem_map_of_mem hq) p.1 (List.mem_map_of_mem hp)

end BitMap

/-- A finite map from message ids. -/
structure IdMap (α : Type) where
  tree : BitMap α 16

namespace IdMap

variable {α β : Type}

/-- The map that holds nothing. -/
def empty : IdMap α := ⟨.empty⟩

instance : EmptyCollection (IdMap α) := ⟨empty⟩

instance : Inhabited (IdMap α) := ⟨empty⟩

/-- The value of an id. -/
def find? (m : IdMap α) (id : UInt16) : Option α := m.tree.get? id.toNat

/-- The map with another value, or none, for an id. -/
def set (m : IdMap α) (id : UInt16) (v : Option α) : IdMap α := ⟨m.tree.set id.toNat v⟩

/-- The map with every value changed or left out. -/
def filterMap (m : IdMap α) (f : UInt16 → α → Option β) : IdMap β :=
  ⟨m.tree.filterMap fun k => f (UInt16.ofNat k)⟩

/-- The ids that have a value, with their values. -/
def toList (m : IdMap α) : List (UInt16 × α) :=
  m.tree.toList.map fun (k, a) => (UInt16.ofNat k, a)

/-- What a map holds after an id was set. -/
theorem find?_set (m : IdMap α) (id id' : UInt16) (v : Option α) :
    (m.set id v).find? id' = if id' = id then v else m.find? id' := by
  rw [find?, set, BitMap.get?_set _ id.toNat_lt id'.toNat_lt]
  simp only [UInt16.toNat_inj]
  rfl

/-- Each value of a map is changed or left out by itself. -/
theorem find?_filterMap (m : IdMap α) (f : UInt16 → α → Option β) (id : UInt16) :
    (m.filterMap f).find? id = (m.find? id).bind (f id) := by
  rw [find?, filterMap, BitMap.get?_filterMap _ _ id.toNat_lt, UInt16.ofNat_toNat]
  rfl

/-- The pairs of a map are the ids it holds with their values. -/
theorem mem_toList_iff {m : IdMap α} {id : UInt16} {a : α} :
    (id, a) ∈ m.toList ↔ m.find? id = some a := by
  simp only [toList, List.mem_map, Prod.exists, Prod.mk.injEq, find?]
  constructor
  · rintro ⟨k, a', hm, rfl, rfl⟩
    obtain ⟨hk, hg⟩ := BitMap.mem_toList_iff.1 hm
    rwa [UInt16.toNat_ofNat_of_lt' hk]
  · intro hg
    exact ⟨id.toNat, a, BitMap.mem_toList_iff.2 ⟨id.toNat_lt, hg⟩, UInt16.ofNat_toNat, rfl⟩

/-- What a map lists is told from what is found in it. -/
theorem toList_congr {m m' : IdMap α} (h : ∀ id, m.find? id = m'.find? id) :
    m.toList = m'.toList := by
  rw [toList, toList, BitMap.toList_congr fun k hk => ?_]
  have hid := h (UInt16.ofNat k)
  rwa [find?, find?, UInt16.toNat_ofNat_of_lt' hk] at hid

/-- No id occurs twice. -/
theorem nodup_keys_toList (m : IdMap α) : (m.toList.map Prod.fst).Nodup := by
  have : Prod.fst ∘ (fun (p : Nat × α) => (UInt16.ofNat p.1, p.2)) = UInt16.ofNat ∘ Prod.fst := rfl
  rw [toList, List.map_map, this, ← List.map_map]
  have hlt : ∀ k ∈ m.tree.toList.map Prod.fst, k < BitMap.bound 16 := by
    intro k hk
    obtain ⟨p, hp, rfl⟩ := List.mem_map.1 hk
    exact (BitMap.mem_toList_iff.1 hp).1
  have hnd := BitMap.nodup_keys_toList m.tree
  revert hlt hnd
  generalize m.tree.toList.map Prod.fst = ks
  intro hlt hnd
  refine List.pairwise_map.2 (hnd.imp_of_mem fun {a b} ha hb hab h => hab ?_)
  have := congrArg UInt16.toNat h
  rwa [UInt16.toNat_ofNat_of_lt' (hlt a ha), UInt16.toNat_ofNat_of_lt' (hlt b hb)] at this

end IdMap

end Coap

/-!
# Tables

A table holds at most one value for each key, in the order in which the keys came in. It suits
keys of which there are few, such as the peers that an endpoint talks to.

* `find?_insert`, `find?_erase`, `find?_filter`, `find?_map`: what a table holds after a change;
* `mem_toList_iff`: the pairs of a table are the keys it holds with their values.
-/

namespace Coap

/-- A finite map. -/
structure Table (K V : Type) where
  toList : List (K × V)
  nodup : (toList.map Prod.fst).Nodup

namespace Table

variable {K V W : Type}

/-- The table that holds nothing. -/
def empty : Table K V := ⟨[], .nil⟩

instance : EmptyCollection (Table K V) := ⟨empty⟩

instance : Inhabited (Table K V) := ⟨empty⟩

/-- How many keys there are. -/
def size (t : Table K V) : Nat := t.toList.length

/-- The keys. -/
def keys (t : Table K V) : List K := t.toList.map Prod.fst

/-- The table with only those pairs that pass a test. -/
def filter (t : Table K V) (p : K → V → Bool) : Table K V :=
  ⟨t.toList.filter fun (k, v) => p k v,
    List.Sublist.nodup (List.Sublist.map _ List.filter_sublist) t.nodup⟩

/-- The table with every value changed. -/
def map (t : Table K V) (f : K → V → W) : Table K W :=
  ⟨t.toList.map fun (k, v) => (k, f k v), by
    rw [List.map_map]
    exact t.nodup⟩

variable [DecidableEq K]

/-- The first value of a key in a list of pairs. -/
def lookup (k : K) : List (K × V) → Option V
  | [] => none
  | (k', v) :: rest => if k' = k then some v else lookup k rest

/-- Puts a value in the place of the one of the same key, or at the end. -/
def put (k : K) (v : V) : List (K × V) → List (K × V)
  | [] => [(k, v)]
  | (k', v') :: rest => if k' = k then (k, v) :: rest else (k', v') :: put k v rest

/-- The keys after a value was put in its place are the ones before and its own. -/
theorem mem_keys_put {k k' : K} {v : V} {l : List (K × V)} :
    k' ∈ (put k v l).map Prod.fst ↔ k' = k ∨ k' ∈ l.map Prod.fst := by
  induction l with
  | nil => simp [put]
  | cons p l ih =>
    obtain ⟨k₁, v₁⟩ := p
    rw [put]
    split
    · rename_i h
      simp [h]
    · simp only [List.map_cons, List.mem_cons, ih]
      exact or_left_comm

/-- A value takes the place of the one of the same key, so that no key occurs twice. -/
theorem nodup_keys_put {k : K} {v : V} {l : List (K × V)} (h : (l.map Prod.fst).Nodup) :
    ((put k v l).map Prod.fst).Nodup := by
  induction l with
  | nil => simp [put]
  | cons p l ih =>
    obtain ⟨k₁, v₁⟩ := p
    rw [List.map_cons, List.nodup_cons] at h
    rw [put]
    split
    · rename_i hk
      rw [List.map_cons, List.nodup_cons]
      exact hk ▸ h
    · rename_i hk
      rw [List.map_cons, List.nodup_cons, mem_keys_put]
      exact ⟨fun hm => hm.elim hk h.1, ih h.2⟩

/-- The value of a key. -/
def find? (t : Table K V) (k : K) : Option V := lookup k t.toList

/-- Whether there is a value for a key. -/
def contains (t : Table K V) (k : K) : Bool := (t.find? k).isSome

/-- The table with a value for a key. -/
def insert (t : Table K V) (k : K) (v : V) : Table K V := ⟨put k v t.toList, nodup_keys_put t.nodup⟩

/-- The table without a key. -/
def erase (t : Table K V) (k : K) : Table K V := t.filter fun k' _ => k' ≠ k

/-! ### What a table holds after a change -/

/-- As no key occurs twice, a pair is in the list just if it is the first one of its key. -/
theorem mem_iff_lookup {k : K} {v : V} {l : List (K × V)} (h : (l.map Prod.fst).Nodup) :
    (k, v) ∈ l ↔ lookup k l = some v := by
  induction l with
  | nil => simp [lookup]
  | cons p l ih =>
    obtain ⟨k', v'⟩ := p
    rw [List.map_cons, List.nodup_cons] at h
    rw [lookup]
    split
    · -- The first pair has the key; no pair behind it has.
      rename_i hk
      subst hk
      constructor
      · intro hm
        rcases List.mem_cons.1 hm with he | hm
        · cases he
          rfl
        · exact absurd (List.mem_map_of_mem hm) h.1
      · intro he
        cases he
        exact List.mem_cons_self
    · -- The first pair has another key.
      rename_i hk
      rw [← ih h.2, List.mem_cons]
      exact ⟨fun hm => hm.resolve_left fun he => hk (congrArg Prod.fst he).symm, .inr⟩

/-- The pairs of a table are the keys it holds with their values. -/
theorem mem_toList_iff {t : Table K V} {k : K} {v : V} :
    (k, v) ∈ t.toList ↔ t.find? k = some v :=
  mem_iff_lookup t.nodup

/-- What is found after a value was put in its place. -/
theorem lookup_put (k k' : K) (v : V) (l : List (K × V)) :
    lookup k' (put k v l) = if k' = k then some v else lookup k' l := by
  induction l with
  | nil => simp [put, lookup, eq_comm]
  | cons p l ih =>
    obtain ⟨k₁, v₁⟩ := p
    rw [put]
    split
    · -- The value takes the place of the first pair.
      rename_i h
      subst h
      unfold lookup
      simp only [eq_comm]
      split <;> rfl
    · -- The first pair stays.
      rename_i h
      rw [lookup, ih, lookup]
      split
      · rename_i h₁
        subst h₁
        rw [if_neg h]
      · rfl

theorem find?_insert (t : Table K V) (k k' : K) (v : V) :
    (t.insert k v).find? k' = if k' = k then some v else t.find? k' :=
  lookup_put k k' v t.toList

theorem find?_filter (t : Table K V) (p : K → V → Bool) (k : K) :
    (t.filter p).find? k = (t.find? k).filter (p k) := by
  apply Option.ext
  intro v
  rw [← mem_toList_iff, filter, List.mem_filter, mem_toList_iff, Option.filter_eq_some_iff]

theorem find?_erase (t : Table K V) (k k' : K) :
    (t.erase k).find? k' = if k' = k then none else t.find? k' := by
  rw [erase, find?_filter]
  split
  · rename_i h
    cases t.find? k' <;> simp [h]
  · rename_i h
    cases t.find? k' <;> simp [h]

theorem find?_map (t : Table K V) (f : K → V → W) (k : K) :
    (t.map f).find? k = (t.find? k).map (f k) := by
  obtain ⟨l, h⟩ := t
  simp only [find?, map]
  clear h
  induction l with
  | nil => rfl
  | cons p l ih =>
    obtain ⟨k', v⟩ := p
    simp only [List.map_cons, lookup]
    split
    · rename_i h
      rw [h, Option.map_some]
    · exact ih

end Table

end Coap

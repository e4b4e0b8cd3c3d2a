import Coap.Store.Ledger

/-!
# Single entries of a ledger

What is gathered from all the entries of a ledger comes from those that are found in it, and from a
single one, or from those of a single peer, if no other contributes.

* `mem_flatMap_toList`: whatever is gathered comes from an entry that is found;
* `flatMap_toList_of_find?`: what is gathered is what the one entry contributes;
* `flatMap_toList_congr`: what is gathered of one peer is told from what is found under it;
* `perm_toList_congr`, `size_congr`: the entries are told from what is found, and how many there are
    from the keys;
* `perm_flatMap_toList`, `perm_flatMap_set`: what a single key contributes.
-/

namespace Coap.Ledger

variable {Peer α β : Type}

/-- Of pairs with different keys only the one with a given key contributes. -/
theorem flatMap_of_nodup_keys {K V : Type} {f : K × V → List β} {p : K × V} :
    {l : List (K × V)} → (l.map Prod.fst).Nodup → p ∈ l →
      (∀ q ∈ l, q.1 ≠ p.1 → f q = []) → l.flatMap f = f p
  | [], _, hp, _ => absurd hp List.not_mem_nil
  | q :: l, hnd, hp, hf => by
    rw [List.map_cons, List.nodup_cons] at hnd
    rw [List.flatMap_cons]
    rcases List.mem_cons.1 hp with rfl | hp'
    · -- The pairs after the contributor have other keys.
      have hl : l.flatMap f = [] := by
        refine List.flatMap_eq_nil_iff.2 fun q hq => hf q (List.mem_cons_of_mem _ hq) ?_
        intro he
        exact hnd.1 (he ▸ List.mem_map_of_mem hq)
      rw [hl, List.append_nil]
    · have hq : f q = [] := by
        refine hf q List.mem_cons_self ?_
        intro he
        exact hnd.1 (he ▸ List.mem_map_of_mem hp')
      rw [hq, List.nil_append]
      exact flatMap_of_nodup_keys hnd.2 hp' fun q' hq' => hf q' (List.mem_cons_of_mem _ hq')

variable [DecidableEq Peer] {l l' : Ledger Peer α} {f : (Peer × UInt16) × α → List β}

/-- Whatever is gathered from a ledger comes from an entry that is found in it. -/
theorem mem_flatMap_toList {b : β} :
    b ∈ l.toList.flatMap f ↔
      ∃ peer id a, l.find? peer id = some a ∧ b ∈ f ((peer, id), a) := by
  rw [List.mem_flatMap]
  constructor
  · rintro ⟨⟨⟨peer, id⟩, a⟩, ha, hb⟩
    exact ⟨peer, id, a, mem_toList_iff.1 ha, hb⟩
  · rintro ⟨peer, id, a, ha, hb⟩
    exact ⟨_, mem_toList_iff.2 ha, hb⟩

/-- What is gathered from a ledger comes from one entry if no other contributes. -/
theorem flatMap_toList_of_find? {peer : Peer} {id : UInt16} {a : α}
    (h : l.find? peer id = some a)
    (hf : ∀ peer' id' a', l.find? peer' id' = some a' → (peer', id') ≠ (peer, id) →
      f ((peer', id'), a') = []) :
    l.toList.flatMap f = f ((peer, id), a) := by
  refine flatMap_of_nodup_keys l.nodup_keys_toList (mem_toList_iff.2 h) ?_
  rintro ⟨⟨peer', id'⟩, a'⟩ hq hne
  exact hf peer' id' a' (mem_toList_iff.1 hq) hne

/-- There is nothing for a peer just if nothing is found under it. -/
theorem hasPeer_eq_false_iff {peer : Peer} :
    l.hasPeer peer = false ↔ ∀ id, l.find? peer id = none := by
  rw [Bool.eq_false_iff, ne_eq, hasPeer_iff, not_exists]
  exact forall_congr' fun id => not_exists.trans Option.eq_none_iff_forall_ne_some.symm

omit [DecidableEq Peer] in
/-- No entry occurs twice. -/
theorem nodup_toList (l : Ledger Peer α) : l.toList.Nodup :=
  List.Pairwise.of_map Prod.fst (fun _ _ hne heq => hne (congrArg Prod.fst heq))
    l.nodup_keys_toList

/-- The entries are told, up to their order, from what is found. -/
theorem perm_toList_congr (h : ∀ peer id, l.find? peer id = l'.find? peer id) :
    l.toList.Perm l'.toList := by
  refine (List.perm_ext_iff_of_nodup l.nodup_toList l'.nodup_toList).2 ?_
  rintro ⟨⟨peer, id⟩, a⟩
  rw [mem_toList_iff, mem_toList_iff, h]

/-- The keys are those under which something is found. -/
theorem mem_keys_toList {key : Peer × UInt16} :
    key ∈ l.toList.map Prod.fst ↔ (l.find? key.1 key.2).isSome := by
  rw [List.mem_map, Option.isSome_iff_exists]
  constructor
  · rintro ⟨p, hp, rfl⟩
    exact ⟨p.2, mem_toList_iff.1 hp⟩
  · rintro ⟨a, ha⟩
    exact ⟨_, mem_toList_iff.2 ha, rfl⟩

/-- How many entries there are is told from the keys that are found. -/
theorem size_congr {m : Ledger Peer β}
    (h : ∀ peer id, (l.find? peer id).isSome = (m.find? peer id).isSome) : l.size = m.size := by
  have hperm : (l.toList.map Prod.fst).Perm (m.toList.map Prod.fst) := by
    refine (List.perm_ext_iff_of_nodup l.nodup_keys_toList m.nodup_keys_toList).2 fun key => ?_
    rw [mem_keys_toList, mem_keys_toList, h]
  have hlength := hperm.length_eq
  rwa [List.length_map, List.length_map] at hlength

/-! ### Single keys -/

/-- Nothing changes when a key is erased that was not there. -/
theorem find?_erase_of_none {peer : Peer} {id : UInt16} (h : l.find? peer id = none) (peer' : Peer)
    (id' : UInt16) : (l.erase peer id).find? peer' id' = l.find? peer' id' := by
  rw [find?_erase]
  split
  · rename_i hkey
    rw [hkey.1, hkey.2, h]
  · rfl

/-- What is gathered from a ledger is what one key contributes, and what is gathered without it. -/
theorem perm_flatMap_toList (l : Ledger Peer α) (f : (Peer × UInt16) × α → List β) (peer : Peer)
    (id : UInt16) :
    (l.toList.flatMap f).Perm
      (((l.find? peer id).elim [] fun a => f ((peer, id), a)) ++
        (l.erase peer id).toList.flatMap f) := by
  cases hfind : l.find? peer id with
  | none =>
    have hperm := perm_toList_congr fun peer' id' => (find?_erase_of_none hfind peer' id').symm
    exact hperm.flatMap_right f
  | some a =>
    -- The entry of the key comes on top of those that remain without it.
    have hperm : l.toList.Perm (((peer, id), a) :: (l.erase peer id).toList) := by
      refine (List.perm_ext_iff_of_nodup l.nodup_toList ?_).2 ?_
      · refine List.nodup_cons.2 ⟨fun hmem => ?_, (l.erase peer id).nodup_toList⟩
        rw [mem_toList_iff, find?_erase, if_pos ⟨rfl, rfl⟩] at hmem
        cases hmem
      · rintro ⟨⟨peer', id'⟩, a'⟩
        rw [List.mem_cons, mem_toList_iff, mem_toList_iff, find?_erase]
        by_cases hkey : peer' = peer ∧ id' = id
        · obtain ⟨rfl, rfl⟩ := hkey
          simp [hfind, eq_comm]
        · simp [hkey]
    exact hperm.flatMap_right f

/-- What is gathered after a change of one key is what the new value contributes, and what is
    gathered without the key. -/
theorem perm_flatMap_set (l : Ledger Peer α) (f : (Peer × UInt16) × α → List β) (peer : Peer)
    (id : UInt16) (v : Option α) :
    ((l.set peer id v).toList.flatMap f).Perm
      ((v.elim [] fun a => f ((peer, id), a)) ++ (l.erase peer id).toList.flatMap f) := by
  have hset := (l.set peer id v).perm_flatMap_toList f peer id
  rw [find?_set, if_pos ⟨rfl, rfl⟩] at hset
  refine hset.trans (.append_left _ ((perm_toList_congr fun peer' id' => ?_).flatMap_right f))
  rw [find?_erase, find?_erase, find?_set]
  split <;> rfl

/-! ### Single peers -/

/-- What is gathered from a ledger comes from one row if no other contributes. -/
theorem flatMap_toList_of_row {peer : Peer}
    (hf : ∀ peer' id a, peer' ≠ peer → f ((peer', id), a) = []) :
    l.toList.flatMap f = (l.row peer).toList.flatMap fun p => f ((peer, p.1), p.2) := by
  let g (p : Peer × IdMap α) : List β := p.2.toList.flatMap fun q => f ((p.1, q.1), q.2)
  have hg : l.toList.flatMap f = l.rows.toList.flatMap g := by
    rw [toList, List.flatMap_assoc]
    exact congrArg l.rows.toList.flatMap (funext fun p => List.flatMap_map _ _ _)
  have hother : ∀ p : Peer × IdMap α, p.1 ≠ peer → g p = [] := fun p hne =>
    List.flatMap_eq_nil_iff.2 fun q _ => hf p.1 q.1 q.2 hne
  -- Only the row of the peer contributes. If there is none, then nothing does.
  rw [hg, row]
  cases hr : l.rows.find? peer with
  | none =>
    refine List.flatMap_eq_nil_iff.2 fun p hp => hother p ?_
    rintro rfl
    cases hr.symm.trans (Table.mem_toList_iff.1 hp)
  | some row =>
    exact flatMap_of_nodup_keys l.rows.nodup (Table.mem_toList_iff.2 hr) fun p _ => hother p

/-- What is gathered of one peer is told from what is found under it. -/
theorem flatMap_toList_congr {peer : Peer}
    (hf : ∀ peer' id a, peer' ≠ peer → f ((peer', id), a) = [])
    (h : ∀ id, l.find? peer id = l'.find? peer id) :
    l.toList.flatMap f = l'.toList.flatMap f := by
  rw [flatMap_toList_of_row hf, flatMap_toList_of_row hf, IdMap.toList_congr h]

end Coap.Ledger

import Coap.Store.Table

/-!
# Single pairs of a table

* `perm_toList_congr`: the pairs of a table are told from what is found in it;
* `perm_toList_of_find?`, `perm_toList_insert`: the pair of a key comes on top of the others.
-/

namespace Coap.Table

variable {K V : Type}

/-- No pair occurs twice. -/
theorem nodup_toList (t : Table K V) : t.toList.Nodup :=
  List.Pairwise.of_map Prod.fst (fun _ _ hne heq => hne (congrArg Prod.fst heq)) t.nodup

variable [DecidableEq K] {t t' : Table K V} {k : K} {v : V}

/-- The pairs are told, up to their order, from what is found. -/
theorem perm_toList_congr (h : ∀ k, t.find? k = t'.find? k) : t.toList.Perm t'.toList := by
  refine (List.perm_ext_iff_of_nodup t.nodup_toList t'.nodup_toList).2 ?_
  rintro ⟨k, v⟩
  rw [mem_toList_iff, mem_toList_iff, h]

/-- The pair of a key comes on top of those that remain without it. -/
theorem perm_toList_of_find? (h : t.find? k = some v) :
    t.toList.Perm ((k, v) :: (t.erase k).toList) := by
  refine (List.perm_ext_iff_of_nodup t.nodup_toList ?_).2 ?_
  · refine List.nodup_cons.2 ⟨fun hmem => ?_, (t.erase k).nodup_toList⟩
    rw [mem_toList_iff, find?_erase, if_pos rfl] at hmem
    cases hmem
  · rintro ⟨k', v'⟩
    rw [List.mem_cons, mem_toList_iff, mem_toList_iff, find?_erase]
    by_cases hk : k' = k
    · subst hk
      simp [h, eq_comm]
    · simp [hk]

/-- After a change of a key its pair comes on top of those that there are without it. -/
theorem perm_toList_insert (t : Table K V) (k : K) (v : V) :
    (t.insert k v).toList.Perm ((k, v) :: (t.erase k).toList) := by
  have hfind : (t.insert k v).find? k = some v := by rw [find?_insert, if_pos rfl]
  refine (perm_toList_of_find? hfind).trans (.cons _ (perm_toList_congr fun k' => ?_))
  rw [find?_erase, find?_erase, find?_insert]
  split <;> rfl

end Coap.Table

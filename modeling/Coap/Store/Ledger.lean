import Coap.Store.IdMap
import Coap.Store.Table

/-!
# Ledgers

What an endpoint knows of single messages it keeps by peer and message id: ids of different peers
have nothing to do with each other.

* `find?_insert`, `find?_erase`, `find?_filterMap`: what a ledger holds after a change;
* `mem_toList_iff`: the entries of a ledger are the keys it holds with their values.
-/

namespace Coap

/-- A finite map from pairs of a peer and a message id. -/
structure Ledger (Peer α : Type) where
  rows : Table Peer (IdMap α)

namespace Ledger

variable {Peer α β : Type}

/-- The ledger that holds nothing. -/
def empty : Ledger Peer α := ⟨∅⟩

instance : EmptyCollection (Ledger Peer α) := ⟨empty⟩

instance : Inhabited (Ledger Peer α) := ⟨empty⟩

/-- The keys with their values, grouped by peer. -/
def toList (l : Ledger Peer α) : List ((Peer × UInt16) × α) :=
  l.rows.toList.flatMap fun (peer, row) => row.toList.map fun (id, a) => ((peer, id), a)

/-- How many keys there are. -/
def size (l : Ledger Peer α) : Nat := l.toList.length

/-- The ledger with every value changed or left out. -/
def filterMap (l : Ledger Peer α) (f : Peer → UInt16 → α → Option β) : Ledger Peer β :=
  ⟨l.rows.map fun peer row => row.filterMap (f peer)⟩

variable [DecidableEq Peer]

/-- What is known of the messages of a peer. -/
def row (l : Ledger Peer α) (peer : Peer) : IdMap α := (l.rows.find? peer).getD ∅

/-- The value of a key. -/
def find? (l : Ledger Peer α) (peer : Peer) (id : UInt16) : Option α := (l.row peer).find? id

/-- Whether there is a value for a key. -/
def contains (l : Ledger Peer α) (peer : Peer) (id : UInt16) : Bool := (l.find? peer id).isSome

/-- Whether there is a value for some id of a peer. -/
def hasPeer (l : Ledger Peer α) (peer : Peer) : Bool := !(l.row peer).toList.isEmpty

/-- The ledger with another value, or none, for a key. -/
def set (l : Ledger Peer α) (peer : Peer) (id : UInt16) (v : Option α) : Ledger Peer α :=
  ⟨l.rows.insert peer ((l.row peer).set id v)⟩

/-- The ledger with a value for a key. -/
def insert (l : Ledger Peer α) (peer : Peer) (id : UInt16) (a : α) : Ledger Peer α :=
  l.set peer id (some a)

/-- The ledger without a key. -/
def erase (l : Ledger Peer α) (peer : Peer) (id : UInt16) : Ledger Peer α :=
  l.set peer id none

/-! ### What a ledger holds after a change -/

/-- A change of a key concerns the row of its peer only. -/
theorem row_set (l : Ledger Peer α) (peer peer' : Peer) (id : UInt16) (v : Option α) :
    (l.set peer id v).row peer' = if peer' = peer then (l.row peer).set id v else l.row peer' := by
  rw [row, set, Table.find?_insert]
  split <;> rfl

/-- A change of a key concerns neither other ids of the peer nor other peers. -/
theorem find?_set (l : Ledger Peer α) (peer peer' : Peer) (id id' : UInt16) (v : Option α) :
    (l.set peer id v).find? peer' id' =
      if peer' = peer ∧ id' = id then v else l.find? peer' id' := by
  rw [find?, row_set]
  by_cases hp : peer' = peer
  · subst hp
    simp only [true_and, if_true, IdMap.find?_set]
    rfl
  · simp only [hp, false_and, if_false]
    rfl

theorem find?_insert (l : Ledger Peer α) (peer peer' : Peer) (id id' : UInt16) (a : α) :
    (l.insert peer id a).find? peer' id' =
      if peer' = peer ∧ id' = id then some a else l.find? peer' id' :=
  l.find?_set peer peer' id id' (some a)

theorem find?_erase (l : Ledger Peer α) (peer peer' : Peer) (id id' : UInt16) :
    (l.erase peer id).find? peer' id' =
      if peer' = peer ∧ id' = id then none else l.find? peer' id' :=
  l.find?_set peer peer' id id' none

theorem row_filterMap (l : Ledger Peer α) (f : Peer → UInt16 → α → Option β) (peer : Peer) :
    (l.filterMap f).row peer = (l.row peer).filterMap (f peer) := by
  rw [row, filterMap, Table.find?_map, row]
  cases l.rows.find? peer <;> rfl

/-- Each value is changed or left out by itself. -/
theorem find?_filterMap (l : Ledger Peer α) (f : Peer → UInt16 → α → Option β) (peer : Peer)
    (id : UInt16) : (l.filterMap f).find? peer id = (l.find? peer id).bind (f peer id) := by
  rw [find?, row_filterMap, IdMap.find?_filterMap]
  rfl

/-- The entries of a ledger are the keys it holds with their values. -/
theorem mem_toList_iff {l : Ledger Peer α} {peer : Peer} {id : UInt16} {a : α} :
    ((peer, id), a) ∈ l.toList ↔ l.find? peer id = some a := by
  simp only [toList, List.mem_flatMap, List.mem_map, Prod.exists, Prod.mk.injEq]
  constructor
  · rintro ⟨peer', row', hr, id', a', hm, ⟨rfl, rfl⟩, rfl⟩
    rw [find?, row, Table.mem_toList_iff.1 hr]
    exact IdMap.mem_toList_iff.1 hm
  · intro h
    rw [find?, row] at h
    -- The key is in the row of its peer, if there is one.
    cases hr : l.rows.find? peer with
    | none =>
      rw [hr] at h
      cases h
    | some r =>
      rw [hr] at h
      exact ⟨peer, r, Table.mem_toList_iff.2 hr, id, a, IdMap.mem_toList_iff.2 h, ⟨rfl, rfl⟩, rfl⟩

omit [DecidableEq Peer] in
/-- No key occurs twice. -/
theorem nodup_keys_toList (l : Ledger Peer α) : (l.toList.map Prod.fst).Nodup := by
  obtain ⟨⟨rows, hnd⟩⟩ := l
  simp only [toList]
  induction rows with
  | nil => simp
  | cons p rows ih =>
    obtain ⟨peer, row⟩ := p
    rw [List.map_cons, List.nodup_cons] at hnd
    rw [List.flatMap_cons, List.map_append, List.nodup_append]
    -- Within one row the ids differ, and the keys of different rows differ in the peer.
    refine ⟨?_, ih hnd.2, ?_⟩
    · have : Prod.fst ∘ (fun (p : UInt16 × α) => ((peer, p.1), p.2)) = (peer, ·) ∘ Prod.fst := rfl
      rw [List.map_map, this, ← List.map_map]
      exact List.Pairwise.map _ (fun a b hab h => hab (congrArg Prod.snd h)) row.nodup_keys_toList
    · intro x hx y hy hxy
      subst hxy
      simp only [List.map_flatMap, List.map_map, List.mem_map, List.mem_flatMap] at hx hy
      obtain ⟨q, -, rfl⟩ := hx
      obtain ⟨r, hr, q', -, he⟩ := hy
      have hpeer : r.1 = peer := (Prod.mk.inj he).1
      exact hnd.1 (List.mem_map.2 ⟨r, hr, hpeer⟩)

/-- There is something for a peer just if something is found under it. -/
theorem hasPeer_iff {l : Ledger Peer α} {peer : Peer} :
    l.hasPeer peer ↔ ∃ id a, l.find? peer id = some a := by
  unfold hasPeer find?
  cases h : (l.row peer).toList with
  | nil =>
    simp only [List.isEmpty_nil, Bool.not_true, Bool.false_eq_true, false_iff, not_exists]
    intro id a ha
    have := IdMap.mem_toList_iff.2 ha
    rw [h] at this
    cases this
  | cons p ps =>
    simp only [List.isEmpty_cons, Bool.not_false, true_iff]
    exact ⟨p.1, p.2, IdMap.mem_toList_iff.1 (h ▸ List.mem_cons_self)⟩

end Ledger

end Coap

import Coap.Proofs.Delivery.Allocation
import Coap.Proofs.Store.Ledger

/-!
# How the ids of a peer go round

The counter of a peer goes past one id after the other: past those that are in flight to the peer,
and past the one that is free and that a message gets. As long as the counter is not dropped these
ids follow each other without a gap (`Sender.passedIn_eq`), from the last one on to the first one,
so that no message gets an id again before all others were passed (`Sender.allocates_again`). A
counter is dropped only once no message has needed an id for the lifetime of an exchange, and
nothing is in flight to the peer.

* `Transmission.passed`: the ids that are looked at to find a free one;
* `Sender.Keeps`: the counter of a peer is not dropped in the course of a run;
* `Sender.NeededLast`: when a message to a peer needed an id for the last time;
* `Sender.rotation`: when ids are given out again, and when counters are dropped, in every run.
-/

namespace Coap

/-- How many keys a table has more than its part that passes a test. -/
theorem Table.size_sub_size_filter {K V : Type} [DecidableEq K] (t : Table K V)
    (test : K → V → Bool) :
    t.size - (t.filter test).size =
      {k | ∃ v, t.find? k = some v ∧ test k v = false}.ncard := by
  let rest : List (K × V) := t.toList.filter fun p => !test p.1 p.2
  have hnodup : (rest.map Prod.fst).Nodup := (List.filter_sublist.map _).nodup t.nodup
  have hkeys : {k | ∃ v, t.find? k = some v ∧ test k v = false} =
      ((rest.map Prod.fst).toFinset : Set K) := by
    ext k
    simp only [rest, Set.mem_ofPred_eq, ← Table.mem_toList_iff, List.coe_toFinset, List.mem_map,
      List.mem_filter, Bool.not_eq_true', Prod.exists, exists_and_right, exists_eq_right]
  have hlength : t.toList.length = (t.filter test).size + rest.length :=
    List.length_eq_length_filter_add _
  rw [hkeys, Set.ncard_coe_finset, List.toFinset_card_of_nodup hnodup, List.length_map, size,
    hlength, Nat.add_sub_cancel_left]

variable {Peer : Type}

namespace Transmission

/-- So many ids from one on, in cyclic order. -/
def consecutive (next : UInt16) (count : Nat) : List UInt16 :=
  (List.range count).map fun k => next + UInt16.ofNat k

/-- The ids that are looked at to find the first one that is not taken: this one is the last of
    them. -/
def passed (taken : UInt16 → Bool) : (count : Nat) → (next : UInt16) → List UInt16
  | 0, _ => []
  | count + 1, next => next :: if taken next then passed taken count (next + 1) else []

variable {taken : UInt16 → Bool} {count : Nat} {next id : UInt16}

theorem length_consecutive (next : UInt16) (count : Nat) :
    (consecutive next count).length = count := by
  rw [consecutive, List.length_map, List.length_range]

theorem consecutive_succ (next : UInt16) (count : Nat) :
    consecutive next (count + 1) = next :: consecutive (next + 1) count := by
  have hshift : (fun k => next + 1 + UInt16.ofNat k) = fun k => next + UInt16.ofNat (k + 1) :=
    funext (add_one_add_ofNat next)
  rw [consecutive, List.range_succ_eq_map, List.map_cons, List.map_map, consecutive, hshift]
  exact congrArg (· :: _) (UInt16.add_zero next)

/-- Ids that follow on some ids. -/
theorem consecutive_add (next : UInt16) (count count' : Nat) :
    consecutive next (count + count') =
      consecutive next count ++ consecutive (next + UInt16.ofNat count) count' := by
  rw [consecutive, List.range_add, List.map_append, List.map_map, consecutive, consecutive]
  refine congrArg (_ ++ ·) (List.map_congr_left fun k _ => ?_)
  rw [Function.comp_apply, UInt16.ofNat_add, UInt16.add_assoc]

/-- One more id comes behind the others. -/
theorem consecutive_concat (next : UInt16) (count : Nat) :
    consecutive next (count + 1) = consecutive next count ++ [next + UInt16.ofNat count] := by
  rw [consecutive, List.range_succ, List.map_append]
  rfl

/-- The ids come back to the same one only after all of them. -/
theorem size_le_of_add_eq (hcount : 0 < count) (h : next + UInt16.ofNat count = next) :
    UInt16.size ≤ count := by
  have hzero : UInt16.ofNat count = 0 := by
    calc UInt16.ofNat count = next + UInt16.ofNat count - next := by
            rw [UInt16.add_comm, UInt16.add_sub_cancel]
      _ = 0 := by rw [h, UInt16.sub_self]
  have hmod : count % 65536 = 0 := by
    have := congrArg UInt16.toNat hzero
    rwa [UInt16.toNat_ofNat'] at this
  have hsize : UInt16.size = 65536 := rfl
  omega

/-- As many ids as there are in all are all ids. -/
theorem mem_consecutive_of_le (hcount : UInt16.size ≤ count) (next id : UInt16) :
    id ∈ consecutive next count := by
  refine List.mem_map.2 ⟨(id - next).toNat, ?_, ?_⟩
  · exact List.mem_range.2 (Nat.lt_of_lt_of_le (id - next).toNat_lt hcount)
  · rw [UInt16.ofNat_toNat, UInt16.add_comm, UInt16.sub_add_cancel]

/-- The ids that are looked at are those up to the first one that is free, or all that may be. -/
theorem passed_eq (taken : UInt16 → Bool) (count : Nat) (next : UInt16) :
    passed taken count next = consecutive next count ∧ firstFree? taken count next = none ∨
      ∃ k, passed taken count next = consecutive next (k + 1) ∧
        firstFree? taken count next = some (next + UInt16.ofNat k) := by
  induction count generalizing next with
  | zero => exact .inl ⟨rfl, rfl⟩
  | succ count ih =>
    rw [passed, firstFree?_succ]
    -- The search goes on past an id that is taken, and ends at one that is not.
    by_cases htaken : taken next
    · rw [if_pos htaken, if_pos htaken]
      rcases ih (next + 1) with ⟨hpassed, hfirst⟩ | ⟨k, hpassed, hfirst⟩
      · exact .inl ⟨by rw [hpassed, consecutive_succ], hfirst⟩
      · refine .inr ⟨k + 1, by rw [hpassed, ← consecutive_succ], ?_⟩
        rw [hfirst, add_one_add_ofNat]
    · rw [if_neg htaken, if_neg htaken]
      exact .inr ⟨0, by rw [consecutive_succ]; rfl, congrArg some (UInt16.add_zero next).symm⟩

/-- Each id that is looked at is taken, or it is the one that is found. -/
theorem taken_of_mem_passed (h : id ∈ passed taken count next) :
    taken id = true ∨ firstFree? taken count next = some id := by
  induction count generalizing next with
  | zero => cases h
  | succ count ih =>
    rw [passed] at h
    rw [firstFree?_succ]
    -- An id that is passed over is taken. The last one is where the search ends.
    by_cases htaken : taken next
    · rw [if_pos htaken, List.mem_cons] at h
      rw [if_pos htaken]
      rcases h with rfl | h
      · exact .inl htaken
      · exact ih h
    · rw [if_neg htaken, List.mem_singleton] at h
      rw [if_neg htaken, h]
      exact .inr rfl

variable [DecidableEq Peer]

/-- However the search for an id ends, the counter of the peer stands after what was looked at. -/
theorem allocate_passed (link : Link) (peer : Peer) (t : Transmission Peer) :
    ∃ n, passed (t.records.contains peer) UInt16.size (t.nextId peer) =
        consecutive (t.nextId peer) n ∧
      (t.allocate link peer).1 = t.counted link peer (t.nextId peer + UInt16.ofNat n) ∧
      ∀ id, (t.allocate link peer).2 = some id →
        ∃ k, n = k + 1 ∧ id = t.nextId peer + UInt16.ofNat k := by
  rw [allocate_eq]
  rcases passed_eq (t.records.contains peer) UInt16.size (t.nextId peer) with
    ⟨hpassed, hfirst⟩ | ⟨k, hpassed, hfirst⟩
  · -- After all ids the counter is where it was.
    have hround : t.nextId peer + UInt16.ofNat UInt16.size = t.nextId peer := UInt16.add_zero _
    rw [hfirst]
    exact ⟨_, hpassed, by rw [hround], fun id hid => by cases hid⟩
  · rw [hfirst]
    refine ⟨_, hpassed, ?_, fun id hid => ⟨k, rfl, (Option.some.inj hid).symm⟩⟩
    rw [UInt16.ofNat_add, ← UInt16.add_assoc]
    rfl

/-- A message whose id is settled moves no counter. -/
theorem counters_sendAs (link : Link) (peer : Peer) (type : MessageType) (id : UInt16) (m : Message)
    (t : Transmission Peer) :
    (t.sendAs link peer type id m).transmission.counters = t.counters := by
  rw [sendAs]
  -- The parts of a message are checked one after the other, and none of them reads or writes a
  -- counter.
  split
  · rfl
  · cases m.encode with
    | error fault => rfl
    | ok bytes =>
      dsimp only
      split
      · rw [dispatch]
        split
        · dsimp only
          cases Backoff.start? link.timing (jitter link.timing t.draws).1 <;> rfl
        · rfl
      · rfl

/-- A message that needs no id leaves the counters alone. -/
theorem counters_send {link : Link} {peer : Peer} {m : Message} {t : Transmission Peer}
    (h : m.type? = none ∨ m.id? ≠ none) :
    (t.send link peer m).transmission.counters = t.counters := by
  rw [send]
  split
  · rfl
  · exact counters_sendAs _ _ _ _ _ _
  · rename_i htype hid
    rcases h with h | h
    · cases h.symm.trans htype
    · exact absurd hid h

/-- One that needs an id moves the counter, whatever becomes of it. -/
theorem counters_send_of_needs {link : Link} {peer : Peer} {m : Message} {t : Transmission Peer}
    (htype : m.type? ≠ none) (hid : m.id? = none) :
    (t.send link peer m).transmission.counters = (t.allocate link peer).1.counters := by
  obtain ⟨type, htype⟩ := Option.ne_none_iff_exists'.1 htype
  rw [send, htype, hid]
  cases hallocate : t.allocate link peer with
  | mk t' id? =>
    cases id? with
    | none => rfl
    | some id => exact counters_sendAs _ _ _ _ _ _

/-- An acknowledgement moves no counter. -/
theorem counters_receive (link : Link) (peer : Peer) (m : Message) (t : Transmission Peer) :
    (t.receive link peer m).1.counters = t.counters := by
  rw [receive]
  split
  · split <;> rfl
  · rfl

/-- To call off a message moves no counter. -/
theorem counters_cancel (link : Link) (peer : Peer) (id : UInt16) (t : Transmission Peer) :
    (t.cancel link peer id).1.counters = t.counters := by
  rw [cancel]
  split <;> rfl

end Transmission

namespace Sender

variable [DecidableEq Peer]

/-- Whether an event is that a message to a peer needs an id. -/
def Event.needs (peer : Peer) : Event Peer → Bool
  | .send peer' m => peer' = peer ∧ m.type? ≠ none ∧ m.id? = none
  | _ => false

/-- The ids that an event makes the counter of a peer go past. -/
def passes (s : Sender Peer) (event : Event Peer) (peer : Peer) : List UInt16 :=
  if event.needs peer then
    Transmission.passed (s.transmission.records.contains peer) UInt16.size
      (s.transmission.nextId peer)
  else []

/-- The ids that the counter of a peer goes past in the course of a run. -/
def passedIn (s : Sender Peer) (peer : Peer) : List (Event Peer) → List UInt16
  | [] => []
  | event :: events => s.passes event peer ++ (s.step event).1.passedIn peer events

/-- An event is that a message to a peer needs an id, and gets a given one. -/
def Allocates (s : Sender Peer) (event : Event Peer) (peer : Peer) (id : UInt16) : Prop :=
  event.needs peer ∧ (s.transmission.allocate s.link peer).2 = some id

/-- An event drops the counter of a peer. -/
def Forgets (s : Sender Peer) (event : Event Peer) (peer : Peer) : Prop :=
  s.transmission.counters.contains peer ∧ ¬ (s.step event).1.transmission.counters.contains peer

/-- The counter of a peer is not dropped in the course of a run. -/
def Keeps (s : Sender Peer) (peer : Peer) : List (Event Peer) → Prop
  | [] => True
  | event :: events => ¬ s.Forgets event peer ∧ (s.step event).1.Keeps peer events

/-- When a message to a peer needed an id for the last time in the course of a run. -/
def neededLast? (s : Sender Peer) (peer : Peer) : List (Event Peer) → Option Nat
  | [] => none
  | event :: events =>
    ((s.step event).1.neededLast? peer events).or
      (if event.needs peer then some s.link.now else none)

/-- After a run a peer has a counter, but no message to it has needed an id for the lifetime of an
    exchange, and nothing is in flight to it. -/
def Stale (start : Sender Peer) (events : List (Event Peer)) (peer : Peer) : Prop :=
  let s := (start.run events).1
  s.transmission.counters.contains peer ∧
    (∀ id, s.transmission.records.find? peer id = none) ∧
      ∃ time, start.neededLast? peer events = some time ∧
        time + s.link.timing.exchangeLifetime ≤ s.link.now

variable {s start : Sender Peer} {event : Event Peer} {events : List (Event Peer)} {peer : Peer}
  {id : UInt16} {counter : Transmission.Counter}

/-! ### What a step does to the counter of a peer -/

theorem Event.needs_iff : event.needs peer ↔
    ∃ m, event = .send peer m ∧ m.type? ≠ none ∧ m.id? = none := by
  constructor
  · intro h
    cases event with
    | send peer' m =>
      obtain ⟨rfl, htype, hid⟩ := of_decide_eq_true h
      exact ⟨m, rfl, htype, hid⟩
    | _ => cases h
  · rintro ⟨m, rfl, htype, hid⟩
    exact decide_eq_true ⟨rfl, htype, hid⟩

/-- If a message to a peer needs an id, its counter goes past some ids. -/
theorem exists_passes (h : event.needs peer) :
    ∃ n, s.passes event peer = Transmission.consecutive (s.transmission.nextId peer) n ∧
      (s.step event).1.transmission.counters.find? peer =
        some ⟨s.transmission.nextId peer + UInt16.ofNat n, s.link.now⟩ ∧
      ∀ id, s.Allocates event peer id →
        ∃ k, n = k + 1 ∧ id = s.transmission.nextId peer + UInt16.ofNat k := by
  obtain ⟨n, hpassed, hallocate, hlast⟩ := s.transmission.allocate_passed s.link peer
  refine ⟨n, (if_pos h).trans hpassed, ?_, fun id hid => hlast id hid.2⟩
  obtain ⟨m, rfl, htype, hid⟩ := Event.needs_iff.1 h
  have hcounters : (s.step (.send peer m)).1.transmission.counters =
      (s.transmission.allocate s.link peer).1.counters :=
    Transmission.counters_send_of_needs htype hid
  rw [hcounters, hallocate]
  exact (Table.find?_insert _ _ _ _).trans (if_pos rfl)

/-- Nothing else moves the counter, or drops it unless counters are dropped. -/
theorem find?_counters_step (hneeds : ¬ event.needs peer) (hpurge : event ≠ .purge) :
    (s.step event).1.transmission.counters.find? peer =
      s.transmission.counters.find? peer := by
  cases event with
  | purge => exact absurd rfl hpurge
  | receive peer' m =>
    exact congrArg (Table.find? · peer) (Transmission.counters_receive s.link peer' m _)
  | cancel peer' id =>
    exact congrArg (Table.find? · peer) (Transmission.counters_cancel s.link peer' id _)
  | send peer' m =>
    -- A message that needs no id moves no counter, and one that needs an id moves that of its own
    -- peer.
    have hcounters : (s.step (.send peer' m)).1.transmission.counters =
        (s.transmission.send s.link peer' m).transmission.counters := rfl
    rw [hcounters]
    by_cases h : m.type? = none ∨ m.id? ≠ none
    · rw [Transmission.counters_send h]
    · rw [not_or, not_not] at h
      have hpeer : peer ≠ peer' := by
        rintro rfl
        exact hneeds (Event.needs_iff.2 ⟨m, rfl, h⟩)
      obtain ⟨n, -, hallocate, -⟩ := s.transmission.allocate_passed s.link peer'
      rw [Transmission.counters_send_of_needs h.1 h.2, hallocate]
      exact (Table.find?_insert _ _ _ _).trans (if_neg hpeer)
  | _ => rfl

/-- Which counters are left when counters are dropped. -/
theorem find?_counters_purge (s : Sender Peer) (peer : Peer) :
    (s.step .purge).1.transmission.counters.find? peer =
      (s.transmission.counters.find? peer).filter fun counter =>
        !counter.expired s.link.timing s.link.now || s.transmission.records.hasPeer peer :=
  Table.find?_filter _ _ _

/-- A counter that is not moved stays, unless it is dropped. -/
theorem find?_counters_of_keeps (h : s.transmission.counters.find? peer = some counter)
    (hneeds : ¬ event.needs peer) (hkeeps : ¬ s.Forgets event peer) :
    (s.step event).1.transmission.counters.find? peer = some counter := by
  by_cases hpurge : event = .purge
  · subst hpurge
    have hcontains : (s.step .purge).1.transmission.counters.contains peer := by
      by_contra hnone
      exact hkeeps ⟨Option.isSome_iff_exists.2 ⟨counter, h⟩, hnone⟩
    obtain ⟨counter', hfind⟩ := Option.isSome_iff_exists.1 hcontains
    have hfilter := (s.find?_counters_purge peer).symm.trans hfind
    rw [hfind, ← (Option.filter_eq_some_iff.1 hfilter).1, h]
  · rw [find?_counters_step hneeds hpurge, h]

/-- No counter comes from nothing. -/
theorem find?_of_find?_step (hneeds : ¬ event.needs peer)
    (h : (s.step event).1.transmission.counters.find? peer = some counter) :
    s.transmission.counters.find? peer = some counter := by
  by_cases hpurge : event = .purge
  · rw [hpurge, find?_counters_purge] at h
    exact (Option.filter_eq_some_iff.1 h).1
  · rwa [find?_counters_step hneeds hpurge] at h

/-! ### Runs -/

/-- The next id of a peer with a counter is the one of the counter. -/
theorem nextId_of_find? (h : s.transmission.counters.find? peer = some counter) :
    s.transmission.nextId peer = counter.next := by
  rw [Transmission.nextId, h]
  rfl

/-- The ids that a counter goes past follow each other as long as it is not dropped. -/
theorem passedIn_of_find? (h : s.transmission.counters.find? peer = some counter)
    (hkeeps : s.Keeps peer events) :
    ∃ n, s.passedIn peer events = Transmission.consecutive counter.next n ∧
      ∃ time, (s.run events).1.transmission.counters.find? peer =
        some ⟨counter.next + UInt16.ofNat n, time⟩ := by
  induction events generalizing s counter with
  | nil =>
    have hstart : counter.next + UInt16.ofNat 0 = counter.next := UInt16.add_zero _
    exact ⟨0, rfl, counter.lastUsed, by rw [hstart]; exact h⟩
  | cons event events ih =>
    obtain ⟨hkept, hkeeps⟩ := hkeeps
    rw [passedIn, run_cons]
    -- The ids of the event, and then those of the rest.
    by_cases hneeds : event.needs peer
    · obtain ⟨n, hpasses, hfind, -⟩ := s.exists_passes hneeds
      rw [nextId_of_find? h] at hpasses hfind
      obtain ⟨n', hpassed, time, hfind'⟩ := ih hfind hkeeps
      refine ⟨n + n', ?_, time, ?_⟩
      · rw [hpasses, hpassed, Transmission.consecutive_add]
      · rw [hfind', UInt16.ofNat_add, ← UInt16.add_assoc]
    · have hpasses : s.passes event peer = [] := if_neg hneeds
      rw [hpasses, List.nil_append]
      exact ih (find?_counters_of_keeps h hneeds hkept) hkeeps

/-- A counter that is not forgotten moves on by the ids that it goes past. -/
theorem find?_step_of_find? (h : s.transmission.counters.find? peer = some counter)
    (hkept : ¬ s.Forgets event peer) :
    ∃ time, (s.step event).1.transmission.counters.find? peer =
      some ⟨counter.next + UInt16.ofNat (s.passes event peer).length, time⟩ := by
  have hkeeps : s.Keeps peer [event] := ⟨hkept, trivial⟩
  obtain ⟨n, hpassed, time, hfind⟩ := passedIn_of_find? h hkeeps
  have hlength : (s.passes event peer).length = n := by
    rw [← Transmission.length_consecutive counter.next n, ← hpassed, passedIn, passedIn,
      List.append_nil]
  rw [hlength]
  exact ⟨time, hfind⟩

/-- The ids that a counter goes past are consecutive as long as it is kept. -/
theorem exists_passedIn_eq (hkeeps : s.Keeps peer events) :
    ∃ first n, s.passedIn peer events = Transmission.consecutive first n := by
  induction events generalizing s with
  | nil => exact ⟨0, 0, rfl⟩
  | cons event events ih =>
    cases h : s.transmission.counters.find? peer with
    | some counter =>
      obtain ⟨n, hpassed, -⟩ := passedIn_of_find? h hkeeps
      exact ⟨_, n, hpassed⟩
    | none =>
      obtain ⟨-, hkeeps⟩ := hkeeps
      rw [passedIn]
      by_cases hneeds : event.needs peer
      · -- The first id is drawn, and the others follow.
        obtain ⟨n, hpasses, hfind, -⟩ := s.exists_passes hneeds
        obtain ⟨n', hpassed, -⟩ := passedIn_of_find? hfind hkeeps
        exact ⟨_, n + n', by rw [hpasses, hpassed, Transmission.consecutive_add]⟩
      · have hpasses : s.passes event peer = [] := if_neg hneeds
        rw [hpasses, List.nil_append]
        exact ih hkeeps

/-- The ids that a counter goes past in one more event come behind the others. -/
theorem passedIn_concat (s : Sender Peer) (peer : Peer) (events : List (Event Peer))
    (event : Event Peer) : s.passedIn peer (events ++ [event]) =
      s.passedIn peer events ++ (s.run events).1.passes event peer := by
  induction events generalizing s with
  | nil => exact List.append_nil _
  | cons e events ih => rw [List.cons_append, passedIn, ih, passedIn, run_cons, List.append_assoc]

/-- Each id that a counter goes past is in flight, or a message gets it. -/
theorem contains_of_mem_passes (h : id ∈ s.passes event peer) :
    s.transmission.records.contains peer id ∨ s.Allocates event peer id := by
  rw [passes] at h
  split at h
  · rename_i hneeds
    refine (Transmission.taken_of_mem_passed h).imp_right fun hfirst => ⟨hneeds, ?_⟩
    rw [Transmission.allocate_eq, hfirst]
  · cases h

/-- Before a message gets an id that another message got before, the counter goes past all others
    if it is not dropped. -/
theorem allocates_again {again : Event Peer} (h : s.Allocates event peer id)
    (hkeeps : (s.step event).1.Keeps peer events)
    (hagain : ((s.step event).1.run events).1.Allocates again peer id) :
    ∃ ids, (s.step event).1.passedIn peer (events ++ [again]) = ids ++ [id] ∧
      ∀ other ≠ id, other ∈ ids := by
  obtain ⟨n, -, hfind, hlast⟩ := s.exists_passes h.1
  obtain ⟨k, rfl, hid⟩ := hlast id h
  have hnext : s.transmission.nextId peer + UInt16.ofNat (k + 1) = id + 1 := by
    rw [hid, UInt16.ofNat_add, ← UInt16.add_assoc]
    rfl
  rw [hnext] at hfind
  obtain ⟨n, hpassed, time, hfind'⟩ := passedIn_of_find? hfind hkeeps
  obtain ⟨n', hpasses, -, hlast'⟩ := ((s.step event).1.run events).1.exists_passes hagain.1
  obtain ⟨k', rfl, hid'⟩ := hlast' id hagain
  rw [nextId_of_find? hfind'] at hpasses hid'
  dsimp only at hpassed hpasses hid'
  have hall : (s.step event).1.passedIn peer (events ++ [again]) =
      Transmission.consecutive (id + 1) (n + k' + 1) := by
    rw [passedIn_concat, hpassed, hpasses, ← Transmission.consecutive_add, Nat.add_assoc]
  have hlast : id + 1 + UInt16.ofNat (n + k') = id := by
    rw [UInt16.ofNat_add, ← UInt16.add_assoc, ← hid']
  -- The last of these ids is the one right before the first, so they are all ids.
  have hcount : UInt16.size ≤ n + k' + 1 :=
    Transmission.size_le_of_add_eq (Nat.succ_pos _)
      ((Transmission.add_one_add_ofNat _ _).symm.trans hlast)
  rw [Transmission.consecutive_concat, hlast] at hall
  refine ⟨_, hall, fun other hother => ?_⟩
  have hmem := Transmission.mem_consecutive_of_le hcount (id + 1) other
  rw [Transmission.consecutive_concat, hlast, List.mem_append, List.mem_singleton] at hmem
  exact hmem.resolve_right hother

/-! ### Dropping counters -/

/-- When an id was needed last is told from the last event that needs one. -/
theorem neededLast?_concat (s : Sender Peer) (peer : Peer) (events : List (Event Peer))
    (event : Event Peer) : s.neededLast? peer (events ++ [event]) =
      if event.needs peer then some (s.run events).1.link.now else s.neededLast? peer events := by
  induction events generalizing s with
  | nil => exact Option.none_or
  | cons e events ih =>
    rw [List.cons_append, neededLast?, ih, neededLast?, run_cons]
    split
    · exact Option.some_or
    · rfl

section

variable (hstart : start.transmission.counters = ∅)
include hstart

/-- A counter knows when a message to its peer needed an id for the last time. -/
theorem neededLast?_of_find?
    (h : (start.run events).1.transmission.counters.find? peer = some counter) :
    start.neededLast? peer events = some counter.lastUsed ∧
      counter.lastUsed ≤ (start.run events).1.link.now := by
  induction events using List.reverseRecOn generalizing counter with
  | nil =>
    have hnone : start.transmission.counters.find? peer = none := by rw [hstart]; rfl
    cases hnone.symm.trans h
  | append_singleton events event ih =>
    rw [run_concat] at h
    have hnow : (start.run events).1.link.now ≤ (start.run (events ++ [event])).1.link.now := by
      rw [run_concat, step_link]
      exact event.link_now_le _
    rw [neededLast?_concat]
    -- The event needs an id, or else the counter is the one from before.
    by_cases hneeds : event.needs peer
    · obtain ⟨n, -, hfind, -⟩ := (start.run events).1.exists_passes hneeds
      obtain rfl := Option.some.inj (hfind.symm.trans h)
      exact ⟨if_pos hneeds, hnow⟩
    · obtain ⟨hlast, hle⟩ := ih (find?_of_find?_step hneeds h)
      exact ⟨(if_neg hneeds).trans hlast, Nat.le_trans hle hnow⟩

/-- The peers whose counters do not pass when counters are dropped. -/
theorem stale_iff : start.Stale events peer ↔
    ∃ counter, (start.run events).1.transmission.counters.find? peer = some counter ∧
      (!counter.expired (start.run events).1.link.timing (start.run events).1.link.now ||
        (start.run events).1.transmission.records.hasPeer peer) = false := by
  simp only [Bool.or_eq_false_iff, Bool.not_eq_false', Ledger.hasPeer_eq_false_iff,
    Transmission.Counter.expired, decide_eq_true_eq]
  constructor
  · rintro ⟨hcontains, hnone, time, hlast, hidle⟩
    obtain ⟨counter, hfind⟩ := Option.isSome_iff_exists.1 hcontains
    obtain ⟨hlast', -⟩ := neededLast?_of_find? hstart hfind
    obtain rfl := Option.some.inj (hlast.symm.trans hlast')
    exact ⟨counter, hfind, by omega, hnone⟩
  · rintro ⟨counter, hfind, hidle, hnone⟩
    obtain ⟨hlast, hle⟩ := neededLast?_of_find? hstart hfind
    exact ⟨Option.isSome_iff_exists.2 ⟨counter, hfind⟩, hnone, _, hlast, by omega⟩

/-- A counter that is stale is forgotten when counters are dropped. -/
theorem find?_purge_of_stale (h : start.Stale events peer) :
    ((start.run events).1.step .purge).1.transmission.counters.find? peer = none := by
  obtain ⟨counter, hfind, htest⟩ := (stale_iff hstart).1 h
  rw [find?_counters_purge, hfind, Option.filter_some, htest]
  rfl

/-- A counter that is not stale is kept when counters are dropped. -/
theorem find?_purge_of_not_stale (h : ¬ start.Stale events peer) :
    ((start.run events).1.step .purge).1.transmission.counters.find? peer =
      (start.run events).1.transmission.counters.find? peer := by
  rw [find?_counters_purge]
  cases hfind : (start.run events).1.transmission.counters.find? peer with
  | none => rfl
  | some counter =>
    rw [Option.filter_some, if_pos]
    by_contra htest
    exact h ((stale_iff hstart).2 ⟨counter, hfind, Bool.eq_false_iff.2 htest⟩)

/-- Nothing else drops a counter. -/
theorem forgets_iff :
    (start.run events).1.Forgets event peer ↔ event = .purge ∧ start.Stale events peer := by
  constructor
  · -- A counter that is there and is dropped: by an event that needs no id, as this would keep it,
    -- and by no other than the one that drops stale counters.
    rintro ⟨hcontains, hnone⟩
    obtain ⟨counter, hfind⟩ := Option.isSome_iff_exists.1 hcontains
    have hneeds : ¬ event.needs peer := by
      intro hneeds
      obtain ⟨n, -, hfind', -⟩ := (start.run events).1.exists_passes hneeds
      exact hnone (Option.isSome_iff_exists.2 ⟨_, hfind'⟩)
    have hpurge : event = .purge := by
      by_contra hpurge
      have hfind' := (find?_counters_step hneeds hpurge).trans hfind
      exact hnone (Option.isSome_iff_exists.2 ⟨_, hfind'⟩)
    subst hpurge
    refine ⟨rfl, ?_⟩
    by_contra hstale
    have hfind' := (find?_purge_of_not_stale hstart hstale).trans hfind
    exact hnone (Option.isSome_iff_exists.2 ⟨_, hfind'⟩)
  · rintro ⟨rfl, hstale⟩
    refine ⟨hstale.1, ?_⟩
    rw [Table.contains, find?_purge_of_stale hstart hstale]
    exact Bool.false_ne_true

end

/-- What dropping counters does: it drops those of some peers, tells how many they are, and does
    nothing else. -/
structure Purges (s : Sender Peer) (stale : Set Peer) : Prop where
  report : (s.step .purge).2 = ⟨.count stale.ncard, {}⟩
  dropped : ∀ peer ∈ stale, (s.step .purge).1.transmission.counters.find? peer = none
  kept : ∀ peer ∉ stale, (s.step .purge).1.transmission.counters.find? peer =
    s.transmission.counters.find? peer
  find? : ∀ peer id, (s.step .purge).1.transmission.records.find? peer id =
    s.transmission.records.find? peer id
  link : (s.step .purge).1.link = s.link
  draws : (s.step .purge).1.transmission.draws = s.transmission.draws
  nextTicket : (s.step .purge).1.transmission.nextTicket = s.transmission.nextTicket

/-- How the ids of a peer go round from a state on. -/
structure Rotates (s : Sender Peer) (peer : Peer) (stale : Prop) : Prop where
  /-- A counter is dropped only when counters are dropped, and just if it is stale. -/
  forgets_iff : ∀ event, s.Forgets event peer ↔ event = .purge ∧ stale
  /-- Otherwise it stands right after the ids that it has gone past. -/
  moved : ∀ {event counter}, s.transmission.counters.find? peer = some counter →
    ¬ s.Forgets event peer → ∃ time, (s.step event).1.transmission.counters.find? peer =
      some ⟨counter.next + UInt16.ofNat (s.passes event peer).length, time⟩
  /-- These ids follow each other as long as the counter is not dropped. -/
  consecutive : ∀ later, s.Keeps peer later →
    ∃ first n, s.passedIn peer later = Transmission.consecutive first n
  /-- Each of them is in flight, or a message gets it. -/
  passed : ∀ event, ∀ id ∈ s.passes event peer,
    s.transmission.records.contains peer id ∨ s.Allocates event peer id
  /-- A message that is accepted has got its id from the counter, if it had none. -/
  accepted : ∀ {m receipt}, m.id? = none →
    (s.step (.send peer m)).2.answer = .sent (.ok receipt) →
      s.Allocates (.send peer m) peer receipt.id
  /-- A message gets the id of another one only after all other ids are passed. -/
  again : ∀ {event id later again}, s.Allocates event peer id →
    (s.step event).1.Keeps peer later → ((s.step event).1.run later).1.Allocates again peer id →
      ∃ ids, (s.step event).1.passedIn peer (later ++ [again]) = ids ++ [id] ∧
        ∀ other ≠ id, other ∈ ids

/-- Dropping counters drops those that are stale. -/
theorem purges (hstart : start.transmission.counters = ∅)
    (hcalm : (start.run events).1.transmission.Calm (.endOf (start.run events).1.link.now)) :
    (start.run events).1.Purges {peer | start.Stale events peer} := by
  have hrest : ((start.run events).1.transmission.purge (start.run events).1.link.timing
      (start.run events).1.link.now).Calm (.endOf (start.run events).1.link.now) := hcalm
  have hstep : (start.run events).1.step .purge =
      settle ⟨(start.run events).1.link, (start.run events).1.transmission.purge
        (start.run events).1.link.timing (start.run events).1.link.now⟩ (.count _) {} := rfl
  obtain ⟨hreport, hfind⟩ := step_of_calm hrest hstep
  -- The number that is reported is the difference of two sizes, which is the number of stale
  -- counters.
  have hcount : {peer | start.Stale events peer}.ncard =
      (start.run events).1.transmission.knownPeers - ((start.run events).1.transmission.purge
        (start.run events).1.link.timing (start.run events).1.link.now).knownPeers := by
    refine Eq.trans ?_ (Table.size_sub_size_filter _ _).symm
    exact congrArg Set.ncard (Set.ext fun peer => stale_iff hstart)
  refine ⟨by rw [hreport, hcount], fun peer => find?_purge_of_stale hstart,
    fun peer => find?_purge_of_not_stale hstart, hfind, rfl, rfl, rfl⟩

/-- The id of a receipt is the one that the counter gave out. -/
theorem allocates_of_receipt {m : Message} {receipt : Receipt}
    (hcalm : s.transmission.Calm (.endOf s.link.now)) (hid : m.id? = none)
    (h : (s.step (.send peer m)).2.answer = .sent (.ok receipt)) :
    s.Allocates (.send peer m) peer receipt.id := by
  cases htype : m.type? with
  | none =>
    have hresult : (s.transmission.send s.link peer m).result = .error (.invalid .typeUnset) := by
      simp only [Transmission.send, htype]
    cases hresult.symm.trans (Answer.sent.inj h)
  | some type =>
    have hallots : s.Allots peer m := allots hcalm htype hid
    -- If all ids were taken the message would have been refused.
    have hfree : ∃ id, s.transmission.records.contains peer id = false := by
      by_contra htaken
      simp only [not_exists, Bool.not_eq_false] at htaken
      cases h.symm.trans (hallots.exhausted_iff.2 htaken)
    obtain ⟨id, hfirst, -⟩ := hallots.firstFree hfree
    obtain ⟨rfl, -⟩ := (hallots.accepted hfirst).2 receipt h
    refine ⟨Event.needs_iff.2 ⟨m, rfl, ?_, hid⟩, ?_⟩
    · rw [htype]
      exact Option.some_ne_none _
    · rw [Transmission.allocate_eq, Transmission.firstFree_iff.1 hfirst]

/-- How the ids of every peer go round after every run, and what dropping counters does then. -/
theorem rotation (link : Link) (draws : Draws) (events : List (Event Peer)) :
    let start : Sender Peer := ⟨link, { draws }⟩
    let s := (start.run events).1
    (∀ peer, s.Rotates peer (start.Stale events peer)) ∧
      s.Purges {peer | start.Stale events peer} := by
  intro start s
  have hstart : start.transmission.counters = ∅ := rfl
  have hcalm : s.transmission.Calm (.endOf s.link.now) := (accounts_run link draws events).calm
  refine ⟨fun peer => ?_, purges hstart hcalm⟩
  constructor
  case forgets_iff => exact fun event => forgets_iff hstart
  case moved => exact find?_step_of_find?
  case consecutive => exact fun later => exists_passedIn_eq
  case passed => exact fun event id => contains_of_mem_passes
  case accepted => exact allocates_of_receipt hcalm
  case again => exact allocates_again

/-- The ids go on from the last one to the first, and round. The counter is dropped once nothing has
    needed an id for long enough. -/
theorem rotation_wraps :
    let start : Sender Unit := ⟨{}, { draws := { ids := [65535] } }⟩
    let get : Event Unit := .send () { type? := some .non, code := .get, id? := none }
    let idle : Event Unit := .sleep start.link.timing.exchangeLifetime
    start.Keeps () [get, get] ∧ start.passedIn () [get, get] = [65535, 0] ∧
      (start.run [get, get, idle]).1.Forgets .purge () ∧
        ((start.run [get, get, idle]).1.step .purge).2 = ⟨.count 1, {}⟩ := by
  intro start get idle
  -- Both ids follow each other as the counter is kept, and at the end of the lifetime it is stale.
  obtain ⟨hrotates, hpurges⟩ := rotation {} { ids := [65535] } [get, get, idle]
  have hkept : ∀ events : List (Event Unit), ¬ (start.run events).1.Forgets get () := by
    intro events hforgets
    obtain ⟨hrotates, -⟩ := rotation {} { ids := [65535] } events
    cases (((hrotates ()).forgets_iff (.send () _)).1 hforgets).1
  have hcontains : (start.run [get, get, idle]).1.transmission.counters.contains () = true := by cbv
  have hflight : (start.run [get, get, idle]).1.transmission.records.hasPeer () = false := by cbv
  have hlast : start.neededLast? () [get, get, idle] = some 0 := by cbv
  have hpassed : start.passedIn () [get, get] = [65535, 0] := by cbv
  have hstale : start.Stale [get, get, idle] () := by
    exact ⟨hcontains, Ledger.hasPeer_eq_false_iff.1 hflight, 0, hlast, by decide +kernel⟩
  have hall : {peer : Unit | start.Stale [get, get, idle] peer} = {()} :=
    Set.ext fun _ => ⟨fun _ => rfl, fun _ => hstale⟩
  refine ⟨⟨hkept [], hkept [get], trivial⟩, hpassed,
    ((hrotates ()).forgets_iff .purge).2 ⟨rfl, hstale⟩, ?_⟩
  rw [hpurges.report, hall, Set.ncard_singleton]

end Sender

end Coap

import Coap.Delivery.Receiver
import Mathlib.Data.List.Nodup

/-!
# Stays of requests

A receiver remembers a confirmable request from when it is handed on until it is answered or
dropped. These stays (`Receiver.Stay`) can be told from the events of a run alone
(`Receiver.stays`), without the flags and the timers that a receiver keeps. What is remembered at
any time are the stays that are not over yet, and the flag of each of them says whether its
acknowledgement was due (`Receiver.Holds`).

* `Receiver.Holds.reception`: what an event does to the stays and to what is remembered, before
    any time passes.
-/

namespace Coap

/-- The id of a confirmable message that is a request, or that is none. -/
def Message.confirmableId? (m : Message) (isRequest : Bool) : Option UInt16 :=
  if m.isConfirmable ∧ m.code.isRequest = isRequest then m.id? else none

theorem Message.confirmableId?_eq_none {m : Message} {id : UInt16}
    (h : m.confirmableId? true = some id) : m.confirmableId? false = none := by
  rw [confirmableId?] at h
  split at h
  · rename_i hm
    exact if_neg fun hn => Bool.false_ne_true (hn.2.symm.trans hm.2)
  · cases h

namespace Receiver

variable {Peer : Type}

/-- The stay of a confirmable request that was handed on. -/
structure Stay (Peer : Type) where
  peer : Peer
  id : UInt16
  /-- When the request came in. -/
  since : Nat
  /-- When it was answered or dropped; there is no such time as long as it is remembered. -/
  until? : Option Nat := none
  deriving DecidableEq

namespace Stay

/-- Whether the request is remembered. -/
def isOpen (s : Stay Peer) : Bool := s.until?.isNone

/-- The key under which the request is remembered. -/
def key (s : Stay Peer) : Peer × UInt16 := (s.peer, s.id)

/-- When the request is acknowledged on its own, if it is remembered so long. -/
def due (timing : Timing) (s : Stay Peer) : Nat := (Timer.after s.since timing.ackDelay).due

/-- The acknowledgement of the request on its own. -/
def ack (timing : Timing) (s : Stay Peer) : Emission Peer :=
  { time := s.due timing, peer := s.peer, bytes := Reception.bareAck s.id }

/-- The acknowledgements of the request on its own until a time: there is one just if it was due by
    then and before the request was answered or dropped. -/
def acks (timing : Timing) (now : Nat) (s : Stay Peer) : List (Emission Peer) :=
  if s.due timing ≤ s.until?.getD now then [s.ack timing] else []

/-- The stay after a time at which it ends if its request passes a test. -/
def endIf (test : Stay Peer → Bool) (now : Nat) (s : Stay Peer) : Stay Peer :=
  if s.isOpen ∧ test s then { s with until? := some now } else s

end Stay

variable [DecidableEq Peer]

/-- The stays after an event at a given time: a confirmable request is handed on unless one with
    the same key is remembered, a response without a type answers the request of its id, and what
    is as old as the lifetime of an exchange is dropped. -/
def Event.stays (timing : Timing) (now : Nat) (stays : List (Stay Peer)) :
    Event Peer → List (Stay Peer)
  | .receive peer m =>
    match m.confirmableId? true with
    | some id =>
      if ∃ s ∈ stays, s.isOpen ∧ s.key = (peer, id) then stays
      else stays ++ [{ peer, id, since := now }]
    | none => stays
  | .prepare peer response =>
    match response.message.type?, response.message.id? with
    | none, some id => stays.map (Stay.endIf (fun s => s.key = (peer, id)) now)
    | _, _ => stays
  | .purge => stays.map (Stay.endIf (fun s => timing.exchangeLifetime ≤ now - s.since) now)
  | .sleep _ => stays
  | .close => stays

omit [DecidableEq Peer] in
/-- The acknowledgement of a confirmable message that is no request, when it comes in. -/
def Event.ownAck? (now : Nat) : Event Peer → Option (Emission Peer)
  | .receive peer m => (m.confirmableId? false).map fun id =>
    { time := now, peer, bytes := Reception.bareAck id }
  | _ => none

/-- The link after an event. -/
def Event.link (link : Link) : Event Peer → Link
  | .sleep ms => link.later ms
  | .close => link.close
  | _ => link

/-- What is remembered after an event, before any time passes. -/
def Event.reception (link : Link) (r : Reception Peer) : Event Peer → Reception Peer
  | .receive peer m => (r.receive link peer m).reception
  | .prepare peer response => (r.prepare peer response).1
  | .purge => r.purge link.timing link.now
  | .sleep _ => r
  | .close => r

/-- What is remembered are the stays that are not over, each with its flag. -/
structure Holds (r : Reception Peer) (stays : List (Stay Peer)) (flag : Stay Peer → Bool) :
    Prop where
  find?_iff : ∀ {peer id entry}, r.entries.find? peer id = some entry ↔
    ∃ s ∈ stays, s.isOpen ∧ s.key = (peer, id) ∧ entry = ⟨s.since, flag s⟩
  nodup : ((stays.filter Stay.isOpen).map Stay.key).Nodup

variable {link : Link} {r : Reception Peer} {stays : List (Stay Peer)}
  {flag flag' : Stay Peer → Bool}

/-- At first nothing is remembered and there was no stay. -/
theorem Holds.empty : Holds ({} : Reception Peer) [] flag where
  find?_iff {peer id entry} := by
    constructor
    · intro h
      cases h
    · rintro ⟨s, hs, -⟩
      cases hs
  nodup := List.nodup_nil

/-- Stays that are not over and have the same key are the same. -/
theorem Holds.eq_of_key (h : Holds r stays flag) {s s' : Stay Peer} (hs : s ∈ stays)
    (ho : s.isOpen) (hs' : s' ∈ stays) (ho' : s'.isOpen) (hkey : s.key = s'.key) : s = s' :=
  List.inj_on_of_nodup_map h.nodup (List.mem_filter.2 ⟨hs, ho⟩) (List.mem_filter.2 ⟨hs', ho'⟩) hkey

/-- A key is remembered just if there is a stay of it that is not over. -/
theorem Holds.contains_iff (h : Holds r stays flag) {peer : Peer} {id : UInt16} :
    r.entries.contains peer id ↔ ∃ s ∈ stays, s.isOpen ∧ s.key = (peer, id) := by
  rw [Ledger.contains, Option.isSome_iff_exists]
  constructor
  · rintro ⟨entry, hentry⟩
    obtain ⟨s, hs, ho, hkey, -⟩ := h.find?_iff.1 hentry
    exact ⟨s, hs, ho, hkey⟩
  · rintro ⟨s, hs, ho, hkey⟩
    exact ⟨_, h.find?_iff.2 ⟨s, hs, ho, hkey, rfl⟩⟩

/-! ### Stays that end -/

omit [DecidableEq Peer] in
/-- A stay goes on just if it went on before and does not pass the test that ends it. -/
theorem Stay.isOpen_endIf {test : Stay Peer → Bool} {now : Nat} {s : Stay Peer} :
    (s.endIf test now).isOpen ↔ s.isOpen ∧ ¬ test s := by
  rw [endIf]
  split
  · rename_i h
    exact ⟨fun ho => (Bool.false_ne_true ho).elim, fun hn => absurd h.2 hn.2⟩
  · rename_i h
    exact ⟨fun ho => ⟨ho, fun ht => h ⟨ho, ht⟩⟩, And.left⟩

omit [DecidableEq Peer] in
theorem Stay.endIf_of_isOpen {test : Stay Peer → Bool} {now : Nat} {s : Stay Peer}
    (h : (s.endIf test now).isOpen) : s.endIf test now = s :=
  if_neg fun hn => (isOpen_endIf.1 h).2 hn.2

/-- The requests that pass a test are not remembered any more. -/
theorem Holds.endIf (h : Holds r stays flag) {r' : Reception Peer} {test : Stay Peer → Bool}
    (now : Nat) (hr : ∀ {peer id entry}, r'.entries.find? peer id = some entry ↔
      r.entries.find? peer id = some entry ∧
        ∀ s ∈ stays, s.isOpen → s.key = (peer, id) → ¬ test s) :
    Holds r' (stays.map (Stay.endIf test now)) flag where
  find?_iff {peer id entry} := by
    rw [hr, h.find?_iff]
    constructor
    · rintro ⟨⟨s, hs, ho, hkey, rfl⟩, htest⟩
      have hsame : s.endIf test now = s := if_neg fun hn => htest s hs ho hkey hn.2
      exact ⟨s, List.mem_map.2 ⟨s, hs, hsame⟩, ho, hkey, rfl⟩
    · -- A stay that goes on is what it was, and the only one with its key.
      rintro ⟨s', hs', ho', hkey, rfl⟩
      obtain ⟨s, hs, rfl⟩ := List.mem_map.1 hs'
      obtain ⟨ho, htest⟩ := Stay.isOpen_endIf.1 ho'
      rw [Stay.endIf_of_isOpen ho'] at hkey ⊢
      refine ⟨⟨s, hs, ho, hkey, rfl⟩, fun s₂ hs₂ ho₂ hkey₂ => ?_⟩
      rw [h.eq_of_key hs₂ ho₂ hs ho (hkey₂.trans hkey.symm)]
      exact htest
  nodup := by
    -- The stays that are still open were open before, and are what they were.
    have hmap : (stays.filter (Stay.isOpen ∘ Stay.endIf test now)).map (Stay.endIf test now) =
        stays.filter (Stay.isOpen ∘ Stay.endIf test now) := by
      refine (List.map_congr_left fun s hs => ?_).trans (List.map_id _)
      exact Stay.endIf_of_isOpen (List.mem_filter.1 hs).2
    rw [List.filter_map, hmap]
    refine h.nodup.sublist ((List.monotone_filter_right _ fun s hs => ?_).map _)
    exact (Stay.isOpen_endIf.1 hs).1

/-! ### What an event does to them -/

/-- The acknowledgements of the requests whose stays are over, and of those with a flag. -/
def Stay.sent (timing : Timing) (flag : Stay Peer → Bool) (s : Stay Peer) :
    List (Emission Peer) :=
  if (s.until?.elim (flag s) fun time => s.due timing ≤ time) then [s.ack timing] else []

omit [DecidableEq Peer] in
/-- If the flags tell what was due, what was sent for a stay is what was due before its end. -/
theorem Stay.sent_due (timing : Timing) (now : Nat) :
    Stay.sent timing (fun s : Stay Peer => s.due timing ≤ now) = Stay.acks timing now := by
  funext s
  rw [sent, acks]
  cases s.until? <;> simp only [Option.elim_none, Option.elim_some, Option.getD_none,
    Option.getD_some, decide_eq_true_eq]

omit [DecidableEq Peer] in
/-- A stay that ends does so after its acknowledgement just if this was due. -/
theorem Stay.sent_endIf (timing : Timing) (test : Stay Peer → Bool) (now : Nat) (s : Stay Peer) :
    (s.endIf test now).sent timing (fun s => s.due timing ≤ now) =
      s.sent timing fun s => s.due timing ≤ now := by
  rw [endIf]
  split
  · rename_i h
    rw [sent, sent, Option.isNone_iff_eq_none.1 h.1]
    rfl
  · rfl

/-- Of the stays that are not over, none but a new one has a flag that does not say whether its
    acknowledgement is due, and nothing is acknowledged when a stay begins or ends. -/
structure Follows (timing : Timing) (now : Nat) (stays stays' : List (Stay Peer))
    (flag : Stay Peer → Bool) : Prop where
  due : ∀ s, flag s → s.due timing ≤ now
  sent : stays'.flatMap (Stay.sent timing flag) =
    stays.flatMap (Stay.sent timing fun s => s.due timing ≤ now)

omit [DecidableEq Peer] in
theorem Follows.rfl {timing : Timing} {now : Nat} {stays : List (Stay Peer)} :
    Follows timing now stays stays fun s => s.due timing ≤ now :=
  ⟨fun _ h => of_decide_eq_true h, Eq.refl _⟩

omit [DecidableEq Peer] in
/-- Nothing is acknowledged because a stay ends. -/
theorem Follows.endIf {timing : Timing} {now : Nat} {stays : List (Stay Peer)}
    (test : Stay Peer → Bool) :
    Follows timing now stays (stays.map (Stay.endIf test now)) fun s => s.due timing ≤ now := by
  refine ⟨fun _ h => of_decide_eq_true h, ?_⟩
  rw [List.flatMap_map]
  exact congrArg stays.flatMap (funext (Stay.sent_endIf timing test now))

/-- A confirmable request is remembered, unless it is a duplicate. -/
theorem receive_of_request {peer : Peer} {m : Message} {id : UInt16}
    (hm : m.confirmableId? true = some id) :
    r.receive link peer m =
      if r.entries.contains peer id then ⟨r, .duplicate, []⟩
      else ⟨⟨r.entries.insert peer id ⟨link.now, false⟩⟩, .forward, []⟩ := by
  rw [Message.confirmableId?] at hm
  split at hm
  · rename_i h
    rw [Reception.receive, h.1, hm]
    simp only [h.2, Bool.not_true, Bool.false_eq_true, if_false]
  · cases hm

/-- Any other message is handed on, and acknowledged at once if it is confirmable. -/
theorem receive_of_no_request (hopen : link.isOpen) {peer : Peer} {m : Message}
    (hm : m.confirmableId? true = none) :
    r.receive link peer m = ⟨r, .forward, ((Event.receive peer m).ownAck? link.now).toList⟩ := by
  rw [Event.ownAck?, Message.confirmableId?]
  rw [Message.confirmableId?] at hm
  -- A confirmable message without an id is not acknowledged, and one with an id is no request.
  by_cases hc : m.isConfirmable
  · cases hid : m.id? with
    | none =>
      rw [Reception.receive, hc, hid]
      simp only [ite_self, Option.map_none, Option.toList_none]
    | some id =>
      have hrequest : m.code.isRequest = false := by
        rw [← Bool.not_eq_true]
        intro h
        rw [if_pos ⟨hc, h⟩, hid] at hm
        cases hm
      rw [Reception.receive, hc, hid]
      simp [hrequest, Link.emit_of_open hopen]
  · rw [if_neg fun h => hc h.1, Reception.receive]
    simp only [Bool.not_eq_true] at hc
    rw [hc]
    rfl

/-- A request that is handed on is remembered, with a flag that is not set. -/
theorem Holds.insert (h : Holds r stays flag) (new : Stay Peer) (hopen : new.isOpen)
    (hnew : ¬ ∃ s ∈ stays, s.isOpen ∧ s.key = new.key)
    (hsame : ∀ s ∈ stays, s.isOpen → flag' s = flag s) (hflag : flag' new = false) :
    Holds ⟨r.entries.insert new.peer new.id ⟨new.since, false⟩⟩ (stays ++ [new]) flag' where
  find?_iff {peer id entry} := by
    rw [Ledger.find?_insert]
    -- Under the key of the new request nothing else is remembered.
    by_cases hkey : peer = new.peer ∧ id = new.id
    · rw [if_pos hkey]
      constructor
      · intro hs
        obtain rfl := Option.some.inj hs
        refine ⟨new, List.mem_append_right _ (List.mem_singleton_self _), hopen, ?_, by rw [hflag]⟩
        rw [hkey.1, hkey.2]
        rfl
      · rintro ⟨s, hs, ho, hk, rfl⟩
        rcases List.mem_append.1 hs with hs | hs
        · rw [hkey.1, hkey.2] at hk
          exact absurd ⟨s, hs, ho, hk⟩ hnew
        · rw [List.mem_singleton.1 hs, hflag]
    · rw [if_neg hkey, h.find?_iff]
      constructor
      · rintro ⟨s, hs, ho, hk, rfl⟩
        exact ⟨s, List.mem_append_left _ hs, ho, hk, by rw [hsame s hs ho]⟩
      · rintro ⟨s, hs, ho, hk, rfl⟩
        rcases List.mem_append.1 hs with hs | hs
        · exact ⟨s, hs, ho, hk, by rw [hsame s hs ho]⟩
        · rw [List.mem_singleton.1 hs] at hk
          obtain ⟨rfl, rfl⟩ := Prod.mk.inj hk
          exact absurd ⟨rfl, rfl⟩ hkey
  nodup := by
    have hfilter : [new].filter Stay.isOpen = [new] := List.filter_cons_of_pos hopen
    rw [List.filter_append, List.map_append, hfilter]
    refine List.nodup_append.2 ⟨h.nodup, List.nodup_singleton _, ?_⟩
    rintro key hkey key' hkey' rfl
    obtain ⟨s, hs, rfl⟩ := List.mem_map.1 hkey
    obtain ⟨hs, ho⟩ := List.mem_filter.1 hs
    exact hnew ⟨s, hs, ho, List.mem_singleton.1 hkey'⟩

/-- What is remembered after a message came in are the stays after it. -/
theorem Holds.receive (hopen : link.isOpen)
    (h : Holds r stays fun s => s.due link.timing ≤ link.now) (peer : Peer) (m : Message) :
    ∃ flag, Holds (r.receive link peer m).reception
        ((Event.receive peer m).stays link.timing link.now stays) flag ∧
      Follows link.timing link.now stays
        ((Event.receive peer m).stays link.timing link.now stays) flag := by
  rw [Event.stays]
  cases hm : m.confirmableId? true with
  | none =>
    rw [receive_of_no_request hopen hm]
    exact ⟨_, h, .rfl⟩
  | some id =>
    rw [receive_of_request hm]
    by_cases hknown : ∃ s ∈ stays, s.isOpen ∧ s.key = (peer, id)
    · rw [if_pos (h.contains_iff.2 hknown)]
      simp only [hknown, if_true]
      exact ⟨_, h, .rfl⟩
    · rw [if_neg fun hc => hknown (h.contains_iff.1 hc)]
      simp only [hknown, if_false]
      let new : Stay Peer := { peer, id, since := link.now }
      -- The flag of the new request is not set, even if its acknowledgement is due at once.
      let flag : Stay Peer → Bool := fun s => s.due link.timing ≤ link.now ∧ s ≠ new
      have hflag : flag new = false := decide_eq_false fun hn => hn.2 rfl
      have hsame : ∀ s ∈ stays, s.isOpen → flag s = decide (s.due link.timing ≤ link.now) := by
        intro s hs ho
        have hne : s ≠ new := fun he => hknown ⟨s, hs, ho, he ▸ rfl⟩
        simp only [flag, ne_eq, hne, not_false_eq_true, and_true]
      have hinsert : Holds ⟨r.entries.insert peer id ⟨link.now, false⟩⟩ (stays ++ [new]) flag :=
        h.insert new rfl hknown hsame hflag
      refine ⟨flag, hinsert, fun s hs => (of_decide_eq_true hs).1, ?_⟩
      have hnone : Stay.sent link.timing flag new = [] := by
        rw [Stay.sent, Option.elim_none, hflag]
        rfl
      rw [List.flatMap_append, List.flatMap_singleton, hnone, List.append_nil]
      refine List.flatMap_congr fun s hs => ?_
      rw [Stay.sent, Stay.sent]
      cases hu : s.until? with
      | none => rw [Option.elim_none, Option.elim_none, hsame s hs (Option.isNone_iff_eq_none.2 hu)]
      | some time => rfl

/-- An answered request is not remembered any more. -/
theorem Holds.prepare (h : Holds r stays flag) (timing : Timing) (now : Nat) (peer : Peer)
    (response : Response) :
    Holds (r.prepare peer response).1 ((Event.prepare peer response).stays timing now stays)
      flag := by
  rw [Event.stays, Reception.prepare]
  cases htype : response.message.type? with
  | some type => exact h
  | none =>
    cases hid : response.message.id? with
    | none =>
      have hsame : r.answered peer response = r := by rw [Reception.answered, hid]
      rw [hsame]
      exact h
    | some id =>
      refine h.endIf now fun {peer' id' entry} => ?_
      rw [Reception.find?_answered, hid]
      -- The stay that ends is the one of the answered request.
      by_cases hkey : peer' = peer ∧ some id = some id'
      · obtain ⟨rfl, hid'⟩ := hkey
        obtain rfl := Option.some.inj hid'
        rw [if_pos ⟨rfl, rfl⟩]
        constructor
        · intro hn
          cases hn
        · rintro ⟨hentry, htest⟩
          obtain ⟨s, hs, ho, hk, -⟩ := h.find?_iff.1 hentry
          exact absurd (decide_eq_true hk) (htest s hs ho hk)
      · rw [if_neg hkey]
        refine ⟨fun hentry => ⟨hentry, fun s _ _ hk ht => hkey ?_⟩, And.left⟩
        obtain ⟨rfl, rfl⟩ := Prod.mk.inj (hk.symm.trans (of_decide_eq_true ht))
        exact ⟨rfl, rfl⟩

/-- What is too old is not remembered any more. -/
theorem Holds.purge (h : Holds r stays flag) (timing : Timing) (now : Nat) :
    Holds (r.purge timing now) ((Event.purge : Event Peer).stays timing now stays) flag := by
  refine h.endIf now fun {peer id entry} => ?_
  rw [Reception.find?_purge, Option.filter_eq_some_iff]
  refine and_congr_right fun hentry => ?_
  obtain ⟨s, hs, ho, hk, rfl⟩ := h.find?_iff.1 hentry
  have hexpired : Reception.Entry.expired timing now ⟨s.since, flag s⟩ =
      decide (timing.exchangeLifetime ≤ now - s.since) := rfl
  rw [hexpired, Bool.not_eq_true']
  constructor
  · intro hn s' hs' ho' hk'
    rw [h.eq_of_key hs' ho' hs ho (hk'.trans hk.symm), hn]
    exact Bool.false_ne_true
  · exact fun hn => Bool.eq_false_iff.2 (hn s hs ho hk)

/-- What an event does to the stays and to what is remembered, before any time passes. -/
theorem Holds.reception (hopen : link.isOpen)
    (h : Holds r stays fun s => s.due link.timing ≤ link.now) (event : Event Peer) :
    ∃ flag, Holds (event.reception link r) (event.stays link.timing link.now stays) flag ∧
      Follows link.timing link.now stays (event.stays link.timing link.now stays) flag := by
  cases event with
  | receive peer m => exact h.receive hopen peer m
  | prepare peer response =>
    refine ⟨_, h.prepare link.timing link.now peer response, ?_⟩
    rw [Event.stays]
    split
    · exact .endIf _
    · exact .rfl
  | purge => exact ⟨_, h.purge link.timing link.now, .endIf _⟩
  | sleep ms => exact ⟨_, h, .rfl⟩
  | close => exact ⟨_, h, .rfl⟩

end Receiver

end Coap

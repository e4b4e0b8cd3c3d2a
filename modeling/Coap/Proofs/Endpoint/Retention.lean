import Coap.Proofs.Delivery.Duplicate
import Coap.Proofs.Endpoint.Separation

/-!
# How long requests are remembered

A confirmable request that was handed on is remembered until a response to it is prepared
(`Endpoint.Prepares`) or until it is too old for a purge. A purge comes at every multiple of the
purge interval (`Link.Ticks`), so a request is remembered for the lifetime of an exchange at least,
and for less than one interval beyond it. Until then it is not handed on again.

* `Endpoint.reception_request`, `Endpoint.reception_elapse`: the requests that an endpoint makes
  have nothing to do with those that it remembers;
* `Endpoint.since?_advance_eq_some_iff`: which requests are remembered some time later;
* `Endpoint.since?_step_eq_some_iff`: since when a request is remembered after a step;
* `Endpoint.unexpired_run`: no purge passes by a request that is too old for it;
* `Endpoint.retention`: how long requests are remembered in a run, and what this is good for.
-/

namespace Coap

variable {Peer : Type}

/-- A purge comes at a time within the next milliseconds. -/
structure Link.Ticks (link : Link) (ms time : Nat) : Prop where
  isOpen : link.isOpen
  dvd : link.timing.purgeInterval ∣ time
  lt : link.now < time
  le : time ≤ link.now + ms

/-- A response to a peer has, when it is sent, an id but no type: it is then told from what is
    remembered with this id which type it gets. -/
def Responder.Settles (responder : Responder Peer) (response : Response) (peer : Peer)
    (id : UInt16) : Prop :=
  responder.peer = peer ∧ ∃ response', responder.address response = .ok response' ∧
    response'.message.type? = none ∧ response'.message.id? = some id

/-- A service answers a request at once by such a response. -/
def Dispatch.Settles (service : Service Peer) (d : Dispatch Peer) (peer : Peer) (id : UInt16) :
    Prop :=
  ∃ response, service d.responder.peer d.request = some response ∧
    d.responder.Settles response peer id

namespace Endpoint

variable [DecidableEq Peer] {e : Endpoint Peer} {peer : Peer} {id : UInt16} {since : Nat}

/-! ### Requests of its own -/

theorem reception_withdraw (exchange : Exchange Peer) (e : Endpoint Peer) :
    (e.withdraw exchange).reception = e.reception := by
  obtain ⟨transmission, hframe⟩ := withdraw_frame exchange e
  rw [hframe]

theorem reception_close (time : Nat) (waiter? : Option Nat) (e : Endpoint Peer) :
    (e.close time waiter?).1.reception = e.reception := by
  cases waiter? with
  | none => rfl
  | some k =>
    rw [close]
    split
    · rfl
    · exact reception_withdraw _ e

theorem reception_finish (time k : Nat) (exchange : Exchange Peer)
    (result : Except (Failure Peer) Response) (e : Endpoint Peer) :
    (e.finish time k exchange result).1.reception = e.reception :=
  reception_close time _ _

theorem reception_resolve (r : Resolution Peer) (e : Endpoint Peer) :
    (e.resolve r).1.reception = e.reception := by
  rw [resolve]
  split
  · rfl
  · split
    · rfl
    · split
      · rfl
      · exact reception_finish _ _ _ _ e
    · exact reception_finish _ _ _ _ e
    · exact reception_finish _ _ _ _ e

theorem reception_resolveAll (rs : List (Resolution Peer)) (e : Endpoint Peer) :
    (e.resolveAll rs).1.reception = e.reception := by
  induction rs generalizing e with
  | nil => rfl
  | cons r rs ih => exact (ih _).trans (reception_resolve r e)

theorem reception_expireAll (moment : Moment) (ks : List Nat) (e : Endpoint Peer) :
    (e.expireAll moment ks).1.reception = e.reception := by
  induction ks generalizing e with
  | nil => rfl
  | cons k ks ih =>
    have hexpire : (e.expire moment k).1.reception = e.reception := by
      rw [expire]
      split
      · rfl
      · split
        · rfl
        · split
          · exact reception_finish _ _ _ _ e
          · rfl
    exact (ih _).trans hexpire

theorem reception_launch (k : Nat) (peer : Peer) (request : Request) (e : Endpoint Peer) :
    (e.launch k peer request).1.reception = e.reception := by
  rw [launch]
  dsimp only
  split
  · rfl
  · exact reception_resolveAll _ _

theorem reception_displace (waiter? : Option Nat) (e : Endpoint Peer) :
    (e.displace waiter?).1.reception = e.reception := by
  cases waiter? with
  | none => rfl
  | some k =>
    rw [displace]
    split
    · rfl
    · exact (reception_finish _ _ _ _ _).trans (reception_withdraw _ e)

theorem reception_request (peer : Peer) (request : Request) (e : Endpoint Peer) :
    (e.request peer request).1.reception = e.reception := by
  have hnumbered : (e.numbered request).reception = e.reception := by
    obtain ⟨draws, hframe⟩ := addToken_frame request e
    rw [numbered, hframe]
  cases hrequest : (e.addToken request).2 with
  | error fault =>
    rw [request_of_error peer hrequest]
    exact hnumbered
  | ok request' =>
    rw [request_eq peer hrequest]
    exact (reception_displace _ _).trans ((reception_launch _ _ _ _).trans hnumbered)

theorem reception_deliver (peer : Peer) (response : Response) (e : Endpoint Peer) :
    (e.deliver peer response).1.reception = e.reception := by
  rw [deliver]
  dsimp only
  split
  · rfl
  · split
    · rfl
    · exact (reception_finish _ _ _ _ _).trans (reception_withdraw _ _)

theorem reception_elapse (moment : Moment) (e : Endpoint Peer) :
    (e.elapse moment).1.reception = (e.reception.elapse e.link moment).1 := by
  rw [elapse_eq]
  exact (reception_expireAll _ _ _).trans (reception_resolveAll _ _)

/-! ### As time goes by -/

/-- When the confirmable request came in that is remembered with an id. -/
def since? (e : Endpoint Peer) (peer : Peer) (id : UInt16) : Option Nat :=
  (e.reception.entries.find? peer id).map Reception.Entry.created

theorem since?_elapse (moment : Moment) (e : Endpoint Peer) (peer : Peer) (id : UInt16) :
    (e.elapse moment).1.since? peer id = e.since? peer id := by
  rw [since?, reception_elapse, Reception.find?_elapse, Option.map_map]
  rfl

theorem since?_settle (answer : Answer Peer) (effects : Effects Peer) (e : Endpoint Peer)
    (peer : Peer) (id : UInt16) :
    (e.settle answer effects).1.since? peer id = e.since? peer id :=
  since?_elapse _ e peer id

theorem since?_purge_eq_some_iff (time : Nat) (e : Endpoint Peer) :
    (e.purge time).since? peer id = some since ↔
      e.since? peer id = some since ∧ time - since < e.link.timing.exchangeLifetime := by
  rw [since?, purge, Reception.find?_purge, since?]
  cases e.reception.entries.find? peer id with
  | none => simp
  | some entry =>
    rw [Option.map_some, Option.some.injEq, Option.map_eq_some_iff]
    simp only [Option.filter_eq_some_iff, Option.some.injEq, Reception.Entry.expired,
      Bool.not_eq_true', decide_eq_false_iff_not, Nat.not_le]
    constructor
    · rintro ⟨_, ⟨rfl, hlt⟩, rfl⟩
      exact ⟨rfl, hlt⟩
    · rintro ⟨rfl, hlt⟩
      exact ⟨entry, ⟨rfl, hlt⟩, rfl⟩

/-- A request outlives some purges if it is too old for none of them. -/
theorem since?_purges_eq_some_iff (first count : Nat) (e : Endpoint Peer) :
    (e.purges first count).1.since? peer id = some since ↔
      e.since? peer id = some since ∧ ∀ n < count,
        (first + n) * e.link.timing.purgeInterval - since < e.link.timing.exchangeLifetime := by
  induction count generalizing first e with
  | zero => simp [purges]
  | succ count ih =>
    let time := first * e.link.timing.purgeInterval
    let moment : Moment := ⟨time, time - e.link.timing.purgeInterval⟩
    have hlink : (e.elapse moment).1.link = e.link := (proceeds_elapse moment e).link_eq
    have hpurges : (e.purges first (count + 1)).1 =
        (((e.elapse moment).1.purge time).purges (first + 1) count).1 := rfl
    rw [hpurges, ih, since?_purge_eq_some_iff, since?_elapse, link_purge, hlink,
      Nat.forall_lt_succ_left, and_assoc]
    simp only [Nat.add_assoc, Nat.add_comm 1, Nat.add_zero, time]

omit [DecidableEq Peer] in
/-- The purges within some milliseconds come one after another. -/
theorem ticks_iff {link : Link} {ms time : Nat} :
    link.Ticks ms time ↔ ∃ n < purgeCount link link.now (link.now + ms),
      time = (link.now / link.timing.purgeInterval + 1 + n) * link.timing.purgeInterval := by
  constructor
  · -- A multiple of the interval after now is the first one or a later one, by the difference.
    rintro ⟨hopen, ⟨k, rfl⟩, hlt, hle⟩
    rw [purgeCount, if_pos hopen]
    generalize link.timing.purgeInterval = interval at *
    have hpos : 0 < interval := Nat.pos_of_mul_pos_right (Nat.zero_lt_of_lt hlt)
    rw [Nat.mul_comm] at hlt hle
    have hfirst := (Nat.div_lt_iff_lt_mul hpos).2 hlt
    have hlast := (Nat.le_div_iff_mul_le hpos).2 hle
    refine ⟨k - (link.now / interval + 1), by omega, ?_⟩
    rw [Nat.add_sub_cancel' hfirst, Nat.mul_comm]
  · -- The first one is after now, and the last one not after the end.
    rintro ⟨n, hn, rfl⟩
    rw [purgeCount] at hn
    split at hn
    · rename_i hopen
      refine ⟨hopen, Nat.dvd_mul_left _ _, ?_, ?_⟩
      · generalize link.timing.purgeInterval = interval at *
        have hpos : 0 < interval := by
          rcases Nat.eq_zero_or_pos interval with rfl | hpos
          · simp at hn
          · exact hpos
        exact (Nat.div_lt_iff_lt_mul hpos).1 (by omega)
      · generalize link.timing.purgeInterval = interval at *
        exact (Nat.mul_le_mul_right _ (by omega)).trans (Nat.div_mul_le_self _ interval)
    · cases hn

/-- The purge at a time, which is one of those within some milliseconds, takes away the request that
    is remembered with an id. -/
def Purged (e : Endpoint Peer) (ms : Nat) (peer : Peer) (id : UInt16) (since time : Nat) : Prop :=
  let first := e.link.now / e.link.timing.purgeInterval + 1
  ∃ n < purgeCount e.link e.link.now (e.link.now + ms),
    time = (first + n) * e.link.timing.purgeInterval ∧
      (e.purges first n).1.since? peer id = some since ∧
        (e.purges first (n + 1)).1.since? peer id = none

theorem Purged.since?_eq {ms time : Nat} (h : e.Purged ms peer id since time) :
    e.since? peer id = some since := by
  obtain ⟨n, -, -, hbefore, -⟩ := h
  exact ((since?_purges_eq_some_iff _ _ _).1 hbefore).1

theorem Purged.old {ms time : Nat} (h : e.Purged ms peer id since time) :
    e.link.Ticks ms time ∧ e.link.timing.exchangeLifetime ≤ time - since := by
  obtain ⟨n, hn, rfl, hbefore, hafter⟩ := h
  refine ⟨ticks_iff.2 ⟨n, hn, rfl⟩, Nat.le_of_not_lt fun hlt => ?_⟩
  obtain ⟨hsince, hyoung⟩ := (since?_purges_eq_some_iff _ _ _).1 hbefore
  have hkept := (since?_purges_eq_some_iff _ (n + 1) _).2
    ⟨hsince, Nat.forall_lt_succ_right.2 ⟨hyoung, hlt⟩⟩
  cases hafter.symm.trans hkept

theorem since?_advance (ms : Nat) (e : Endpoint Peer) (peer : Peer) (id : UInt16) :
    (e.advance ms).1.since? peer id =
      (e.purges (e.link.now / e.link.timing.purgeInterval + 1)
        (purgeCount e.link e.link.now (e.link.now + ms))).1.since? peer id := by
  rw [advance]
  generalize e.purges (e.link.now / e.link.timing.purgeInterval + 1)
    (purgeCount e.link e.link.now (e.link.now + ms)) = purged
  obtain ⟨e', first⟩ := purged
  exact since?_elapse (.endOf (e.link.now + ms)) e' peer id

/-- Some time later a request is still remembered if it was too old for none of the purges. -/
theorem since?_advance_eq_some_iff (ms : Nat) (e : Endpoint Peer) :
    (e.advance ms).1.since? peer id = some since ↔
      e.since? peer id = some since ∧
        ∀ time, e.link.Ticks ms time → time - since < e.link.timing.exchangeLifetime := by
  rw [since?_advance, since?_purges_eq_some_iff]
  refine and_congr_right fun _ => ⟨?_, ?_⟩
  · rintro hyoung time hticks
    obtain ⟨n, hn, rfl⟩ := ticks_iff.1 hticks
    exact hyoung n hn
  · exact fun hyoung n hn => hyoung _ (ticks_iff.2 ⟨n, hn, rfl⟩)

/-- A request that is forgotten as time goes by is taken away by one of the purges. -/
theorem exists_purged {ms : Nat} (h : e.since? peer id = some since)
    (hgone : (e.advance ms).1.since? peer id ≠ some since) :
    ∃ time, e.Purged ms peer id since time := by
  let first := e.link.now / e.link.timing.purgeInterval + 1
  let count := purgeCount e.link e.link.now (e.link.now + ms)
  rw [since?_advance] at hgone
  -- The induction is on the purges: the first one after which it is gone is the one.
  have hfind : ∀ n ≤ count, (e.purges first n).1.since? peer id ≠ some since →
      ∃ time, e.Purged ms peer id since time := by
    intro n hn hgone
    induction n with
    | zero => exact absurd h hgone
    | succ n ih =>
      by_cases hbefore : (e.purges first n).1.since? peer id = some since
      · refine ⟨_, n, hn, rfl, hbefore, Option.eq_none_iff_forall_ne_some.2 fun since' hafter => ?_⟩
        have hsince' := ((since?_purges_eq_some_iff _ _ _).1 hafter).1
        obtain rfl := Option.some.inj (h.symm.trans hsince')
        exact hgone hafter
      · exact ih (Nat.le_of_succ_le hn) hbefore
  exact hfind count le_rfl hgone

/-! ### What an event does -/

/-- An event prepares a response to a peer that has an id but no type: the service answers at once,
    or it answers later. -/
def Prepares (e : Endpoint Peer) (event : Event Peer) (peer : Peer) (id : UInt16) : Prop :=
  match event with
  | .datagram sender bytes =>
    ∃ d ∈ (e.receive sender bytes).2.dispatched, d.Settles e.service peer id
  | .respond responder response => responder.Settles response peer id
  | _ => False

/-- An event brings in a confirmable request of a peer with an id. -/
def Event.Carries (peer : Peer) (id : UInt16) : Event Peer → Prop
  | .datagram sender bytes =>
    sender = peer ∧ ∃ m, Message.decode bytes = .ok m ∧ m.confirmableId? true = some id
  | _ => False

/-- An event takes so long that a purge comes for which a request is too old. -/
def Event.Expires (link : Link) (since : Nat) : Event Peer → Prop
  | .sleep ms => ∃ time, link.Ticks ms time ∧ link.timing.exchangeLifetime ≤ time - since
  | _ => False

theorem since?_respond_eq_some_iff (responder : Responder Peer) (response : Response)
    (e : Endpoint Peer) :
    (e.respond responder response).1.since? peer id = some since ↔
      e.since? peer id = some since ∧ ¬ responder.Settles response peer id := by
  rw [respond, Responder.Settles]
  cases responder.address response with
  | error fault => simp
  | ok response' =>
    rw [since?, Reception.find?_prepare, since?]
    -- The entry is taken out just if the response has no type and the id of the request.
    split
    · rename_i hsettles
      obtain ⟨rfl, htype, hid⟩ := hsettles
      simp [htype, hid]
    · rename_i hnot
      refine (and_iff_left ?_).symm
      rintro ⟨rfl, response'', hresponse, htype, hid⟩
      obtain rfl := Except.ok.inj hresponse
      exact hnot ⟨rfl, htype, hid⟩

/-- A service that answers at once makes the endpoint forget the request. -/
theorem since?_dispatch_eq_some_iff (sender : Peer) (request : Request) (e : Endpoint Peer) :
    (e.dispatch sender request).1.since? peer id = some since ↔
      e.since? peer id = some since ∧
        ¬ ∃ d ∈ (e.dispatch sender request).2.dispatched, d.Settles e.service peer id := by
  let responder := Responder.ofRequest sender request
  have hdispatched : (e.dispatch sender request).2.dispatched = [⟨request, responder⟩] := by
    rw [dispatch]
    dsimp only
    split
    · rfl
    · exact (congrArg (_ ++ ·) (dispatched_respond _ _ e)).trans (List.append_nil _)
  have hsettles : (∃ d ∈ (e.dispatch sender request).2.dispatched, d.Settles e.service peer id) ↔
      ∃ response, e.service sender request = some response ∧
        responder.Settles response peer id := by
    rw [hdispatched]
    simp only [List.mem_singleton, exists_eq_left]
    rfl
  rw [hsettles, dispatch]
  -- Without an answer nothing is prepared. Otherwise it is prepared at once.
  cases e.service sender request with
  | none => simp
  | some response =>
    refine (since?_respond_eq_some_iff responder response e).trans (and_congr_right fun _ => ?_)
    simp

theorem since?_handOn_eq_some_iff (verdict : Verdict) (sender : Peer) (m : Message)
    (e : Endpoint Peer) :
    (e.handOn verdict sender m).1.since? peer id = some since ↔
      e.since? peer id = some since ∧
        ¬ ∃ d ∈ (e.handOn verdict sender m).2.dispatched, d.Settles e.service peer id := by
  cases verdict with
  | duplicate => simp [handOn]
  | forward =>
    rw [handOn]
    split
    · exact since?_dispatch_eq_some_iff sender _ e
    · split
      · rw [since?, reception_deliver, dispatched_deliver, since?]
        simp
      · simp

/-- A confirmable request that comes in is remembered from then on, unless it is already. -/
theorem since?_hear_eq_some_iff (sender : Peer) (m : Message) (e : Endpoint Peer) :
    ({ e with reception := (e.reception.receive e.link sender m).reception } :
        Endpoint Peer).since? peer id = some since ↔
      e.since? peer id = some since ∨ e.since? peer id = none ∧ since = e.link.now ∧
        sender = peer ∧ m.confirmableId? true = some id := by
  cases hm : m.confirmableId? true with
  | none =>
    rw [Receiver.reception_of_no_request hm]
    simp
  | some id' =>
    rw [Receiver.receive_of_request hm, since?, since?]
    -- A request that is known keeps its time. A new one is remembered from now on.
    by_cases hknown : e.reception.entries.contains sender id'
    · rw [if_pos hknown]
      refine (or_iff_left ?_).symm
      rintro ⟨hnone, -, rfl, hid⟩
      obtain rfl := Option.some.inj hid
      rw [Ledger.contains, Option.map_eq_none_iff.1 hnone] at hknown
      cases hknown
    · rw [if_neg hknown, Ledger.find?_insert]
      -- Only under its own key: entries elsewhere stay.
      split
      · rename_i hkey
        obtain ⟨rfl, rfl⟩ := hkey
        simp [Option.not_isSome_iff_eq_none.1 hknown, eq_comm]
      · rename_i hkey
        refine (or_iff_left ?_).symm
        rintro ⟨-, -, rfl, hid⟩
        exact hkey ⟨rfl, (Option.some.inj hid).symm⟩

omit [DecidableEq Peer] in
/-- Neither an acknowledgement nor a rejection is a confirmable request. -/
theorem confirmableId?_of_type {m : Message} {type : MessageType} (h : m.type? = some type)
    (hcon : type ≠ .con) (isRequest : Bool) : m.confirmableId? isRequest = none := by
  refine if_neg fun hm => hcon ?_
  rw [Message.isConfirmable, h] at hm
  simpa using hm.1

theorem since?_accept_eq_some_iff (sender : Peer) (m : Message) (e : Endpoint Peer) :
    (e.accept sender m).1.since? peer id = some since ↔
      (e.since? peer id = some since ∨ e.since? peer id = none ∧ since = e.link.now ∧
        sender = peer ∧ m.confirmableId? true = some id) ∧
          ¬ ∃ d ∈ (e.accept sender m).2.dispatched, d.Settles e.service peer id := by
  have hresolved : ∀ (transmission : Transmission Peer) (rs : List (Resolution Peer)),
      m.confirmableId? true = none →
      ((({ e with transmission } : Endpoint Peer).resolveAll rs).1.since? peer id = some since ↔
        (e.since? peer id = some since ∨ e.since? peer id = none ∧ since = e.link.now ∧
          sender = peer ∧ m.confirmableId? true = some id) ∧
        ¬ ∃ d ∈ (({ e with transmission } : Endpoint Peer).resolveAll rs).2.dispatched,
          d.Settles e.service peer id) := by
    intro transmission rs hnone
    rw [since?, reception_resolveAll, dispatched_resolveAll, hnone, since?]
    simp
  rw [accept]
  -- Answers to what is in flight leave the reception alone.
  split
  · rename_i hack
    exact hresolved _ _ (confirmableId?_of_type hack (by decide) true)
  · rename_i hrst
    exact hresolved _ _ (confirmableId?_of_type hrst (by decide) true)
  · refine (since?_handOn_eq_some_iff _ sender m _).trans ?_
    rw [since?_hear_eq_some_iff]
    rfl

/-- A datagram brings in a request that is remembered from then on, unless it is already. -/
theorem since?_receive_eq_some_iff (sender : Peer) (bytes : Bytes) (e : Endpoint Peer) :
    (e.receive sender bytes).1.since? peer id = some since ↔
      (e.since? peer id = some since ∨ e.since? peer id = none ∧ since = e.link.now ∧
        e.link.isOpen ∧ (Event.datagram sender bytes).Carries peer id) ∧
          ¬ e.Prepares (.datagram sender bytes) peer id := by
  rw [Prepares, Event.Carries, receive]
  by_cases hopen : e.link.isOpen
  · rw [if_pos hopen]
    cases hm : Message.decode bytes with
    | error fault => simp
    | ok m =>
      refine (since?_accept_eq_some_iff sender m e).trans (and_congr_left fun _ => ?_)
      simp [hopen]
  · simp [hopen]

/-- Since when a request is remembered after a step: it is so already, or it comes in, and neither
    is a response to it prepared nor is it too old for one of the purges. -/
theorem since?_step_eq_some_iff (e : Endpoint Peer) (event : Event Peer) :
    (e.step event).1.since? peer id = some since ↔
      (e.since? peer id = some since ∨ e.since? peer id = none ∧ since = e.link.now ∧
        e.link.isOpen ∧ event.Carries peer id) ∧ ¬ e.Prepares event peer id ∧
          ¬ event.Expires e.link since := by
  have hsettle : ∀ {e' : Endpoint Peer} (answer : Answer Peer) (effects : Effects Peer),
      e'.reception = e.reception → ((e'.settle answer effects).1.since? peer id = some since ↔
        e.since? peer id = some since) := by
    intro e' answer effects hreception
    rw [since?_settle, since?, hreception, since?]
  -- Only a datagram and a response change what is remembered, and only sleeping takes away the old.
  cases event with
  | datagram sender bytes =>
    rw [step_datagram, since?_settle, since?_receive_eq_some_iff]
    simp [Event.Expires]
  | request peer' request =>
    rw [step_request, hsettle _ _ (reception_request peer' request e)]
    simp [Prepares, Event.Carries, Event.Expires]
  | abandon k =>
    refine (@hsettle (e.abandon k) .done {} rfl).trans ?_
    simp [Prepares, Event.Carries, Event.Expires]
  | respond responder response =>
    rw [step_respond, since?_settle, since?_respond_eq_some_iff]
    simp [Prepares, Event.Carries, Event.Expires]
  | shutdown =>
    refine (@hsettle e.shutdown.1 .done _ rfl).trans ?_
    simp [Prepares, Event.Carries, Event.Expires]
  | sleep ms =>
    rw [step_sleep]
    refine (since?_advance_eq_some_iff ms e).trans ?_
    simp [Prepares, Event.Carries, Event.Expires]

/-- A request is forgotten as a response to it is prepared, or a purge takes it away. -/
theorem forgotten_step {event : Event Peer} (h : e.since? peer id = some since)
    (hgone : (e.step event).1.since? peer id ≠ some since) :
    e.Prepares event peer id ∨ ∃ ms time, event = .sleep ms ∧ e.Purged ms peer id since time := by
  refine or_iff_not_imp_left.2 fun hprepares => ?_
  have hexpires : event.Expires e.link since := by
    by_contra hexpires
    exact hgone ((since?_step_eq_some_iff e event).2 ⟨.inl h, hprepares, hexpires⟩)
  cases event with
  | sleep ms =>
    rw [step_sleep] at hgone
    obtain ⟨time, hpurged⟩ := exists_purged h hgone
    exact ⟨ms, time, rfl, hpurged⟩
  | datagram | request | abandon | respond | shutdown => exact hexpires.elim

/-! ### Ages -/

/-- A request came in at a time from which on it was too old for no purge. -/
structure Unexpired (link : Link) (since : Nat) : Prop where
  le : since ≤ link.now
  lt : ∀ time, link.timing.purgeInterval ∣ time → since < time → time ≤ link.now →
    time < since + link.timing.exchangeLifetime

variable {link : Link}

omit [DecidableEq Peer] in
theorem unexpired_now (link : Link) : Unexpired link link.now :=
  ⟨Nat.le_refl _, fun _ _ hlt hle => absurd hlt (Nat.not_lt.2 hle)⟩

omit [DecidableEq Peer] in
/-- The last purge is less than one interval ago. -/
theorem Unexpired.age (h : Unexpired link since) (hinterval : 0 < link.timing.purgeInterval) :
    link.now < since + (link.timing.exchangeLifetime + link.timing.purgeInterval) := by
  -- The last multiple of the interval is the time of a purge that the request outlived.
  have hdvd : link.timing.purgeInterval ∣ link.now - link.now % link.timing.purgeInterval :=
    Nat.dvd_sub_mod link.now
  have hmod := Nat.mod_lt link.now hinterval
  by_contra hold
  have hlast := h.lt _ hdvd (by omega) (Nat.sub_le _ _)
  omega

omit [DecidableEq Peer] in
theorem Unexpired.event (h : Unexpired link since) (hopen : link.isOpen) {event : Event Peer}
    (hexpires : ¬ event.Expires link since) : Unexpired (event.link link) since := by
  cases event with
  | sleep ms =>
    refine ⟨Nat.le_add_right_of_le h.le, fun time hdvd hlt hle => ?_⟩
    by_cases hpast : time ≤ link.now
    · exact h.lt time hdvd hlt hpast
    · have hticks : link.Ticks ms time := ⟨hopen, hdvd, Nat.lt_of_not_le hpast, hle⟩
      have hyoung : ¬ link.timing.exchangeLifetime ≤ time - since :=
        fun hold => hexpires ⟨time, hticks, hold⟩
      have hlifetime : (Event.link link (.sleep ms : Event Peer)).timing = link.timing := rfl
      rw [hlifetime]
      omega
  | datagram | request | abandon | respond | shutdown => exact ⟨h.le, h.lt⟩

omit [DecidableEq Peer] in
theorem Event.link_now_le (link : Link) (event : Event Peer) :
    link.now ≤ (event.link link).now := by
  cases event with
  | sleep ms => exact Nat.le_add_right _ ms
  | datagram | request | abandon | respond | shutdown => exact Nat.le_refl _

omit [DecidableEq Peer] in
theorem Event.isOpen_of_link {event : Event Peer} (h : (event.link link).isOpen) :
    link.isOpen := by
  cases event with
  | shutdown => cases h
  | datagram | request | abandon | respond | sleep => exact h

/-- In a run no purge passes by a request that is too old for it. -/
theorem unexpired_run (service : Service Peer) (responseTimeout : Nat) (link : Link) (draws : Draws)
    (events : List (Event Peer)) :
    let start : Endpoint Peer := { service, responseTimeout, link, transmission := { draws } }
    let e := (start.run events).1
    e.link.isOpen → e.since? peer id = some since → Unexpired e.link since := by
  intro start e hopen hsince
  induction events using List.reverseRecOn generalizing since with
  | nil => cases hsince
  | append_singleton events event ih =>
    dsimp only [e] at hopen hsince ⊢
    rw [run_concat, link_step] at hopen ⊢
    rw [run_concat, since?_step_eq_some_iff] at hsince
    obtain ⟨hsince, -, hexpires⟩ := hsince
    have hbefore := Event.isOpen_of_link hopen
    refine Unexpired.event ?_ hbefore hexpires
    -- It is remembered already, or it comes in just now.
    rcases hsince with hsince | ⟨-, rfl, -⟩
    · exact ih hbefore hsince
    · exact unexpired_now _

/-! ### Requests that come in again -/

/-- In the course of some events such a response is prepared (`Prepares`). -/
def Prepared (e : Endpoint Peer) (events : List (Event Peer)) (peer : Peer) (id : UInt16) : Prop :=
  ∃ before event after, events = before ++ event :: after ∧ (e.run before).1.Prepares event peer id

/-- A request that is remembered stays so as long as it is younger than the lifetime of an exchange
    and no response to it is prepared. -/
theorem since?_run {events : List (Event Peer)} (h : e.since? peer id = some since)
    (hle : since ≤ e.link.now) (hprepared : ¬ e.Prepared events peer id)
    (hlt : (e.run events).1.link.now < since + e.link.timing.exchangeLifetime) :
    (e.run events).1.since? peer id = some since ∧ since ≤ (e.run events).1.link.now := by
  induction events using List.reverseRecOn with
  | nil => exact ⟨h, hle⟩
  | append_singleton events event ih =>
    obtain ⟨hbefore, hprepares⟩ :=
      not_or.1 (mt exists_split_concat_iff.2 hprepared : ¬ (e.Prepared events peer id ∨ _))
    rw [run_concat, link_step] at hlt ⊢
    have hclock := event.link_now_le (e.run events).1.link
    obtain ⟨hsince, hpast⟩ := ih hbefore (Nat.lt_of_le_of_lt hclock hlt)
    refine ⟨(since?_step_eq_some_iff _ event).2 ⟨.inl hsince, hprepares, fun hexpires => ?_⟩,
      hpast.trans hclock⟩
    cases event with
    | sleep ms =>
      -- A purge that takes it would be at a time that is not after the end of the run, so it is too
      -- young.
      obtain ⟨time, hticks, hold⟩ := hexpires
      rw [(settled_run e events).timing] at hold
      have hlast : time ≤ (Event.link (e.run events).1.link (.sleep ms : Event Peer)).now :=
        hticks.le
      omega
    | datagram | request | abandon | respond | shutdown => exact hexpires

/-- A confirmable request that is remembered is not handed on. -/
theorem Seated.dispatched_of_since? (hseated : e.Seated) (h : e.since? peer id = some since)
    {bytes : Bytes} (hcarries : (Event.datagram peer bytes).Carries peer id) :
    (e.step (.datagram peer bytes)).2.effects.dispatched = [] := by
  obtain ⟨-, m, hdecode, hm⟩ := hcarries
  have hreceive : (e.receive peer bytes).2.dispatched = [] := by
    rw [receive]
    split
    · rw [hdecode]
      dsimp only
      rw [Endpoint.accept]
      -- It is no answer, and as a request it is known, so it is a duplicate.
      split
      · exact dispatched_resolveAll _ _
      · exact dispatched_resolveAll _ _
      · have hknown : e.reception.entries.contains peer id := by
          rw [Ledger.contains, ← Option.isSome_map (f := Reception.Entry.created)]
          exact Option.isSome_iff_exists.2 ⟨since, h⟩
        rw [Receiver.receive_of_request hm, if_pos hknown]
        rfl
    · rfl
  rw [step_datagram, (hseated.spares_receive 0 peer bytes).seated.dispatched_settle, hreceive]

/-- A confirmable request that was handed on in a run, and to which no response was prepared since:
    what came before it, the datagram that brought it in, and what came after it. -/
structure Forwarded (start : Endpoint Peer) (events : List (Event Peer)) (peer : Peer)
    (id : UInt16) (before : List (Event Peer)) (bytes : Bytes) (after : List (Event Peer)) :
    Prop where
  events_eq : events = before ++ .datagram peer bytes :: after
  carries : (Event.datagram peer bytes).Carries peer id
  forwarded : ((start.run before).1.step (.datagram peer bytes)).2.effects.dispatched ≠ []
  pending : ¬ (start.run before).1.Prepared (.datagram peer bytes :: after) peer id

variable {start : Endpoint Peer} {events before after : List (Event Peer)} {bytes : Bytes}

/-- A request that is handed on is remembered from then on. -/
theorem Forwarded.since?_step (h : start.Forwarded events peer id before bytes after)
    (hseated : (start.run before).1.Seated) :
    ((start.run before).1.step (.datagram peer bytes)).1.since? peer id =
      some (start.run before).1.link.now := by
  have hnone : (start.run before).1.since? peer id = none :=
    Option.eq_none_iff_forall_ne_some.2 fun since hsince =>
      h.forwarded (hseated.dispatched_of_since? hsince h.carries)
  have hopen : (start.run before).1.link.isOpen := by
    by_contra hclosed
    refine h.forwarded ?_
    rw [step_datagram, receive, if_neg hclosed, hseated.dispatched_settle]
  have hprepares : ¬ (start.run before).1.Prepares (.datagram peer bytes) peer id :=
    fun hprepares => h.pending ⟨[], _, after, rfl, hprepares⟩
  exact (since?_step_eq_some_iff _ _).2
    ⟨.inr ⟨hnone, rfl, hopen, h.carries⟩, hprepares, fun hexpires => hexpires⟩

/-- It is remembered as long as it is younger than the lifetime of an exchange. -/
theorem Forwarded.since?_run (h : start.Forwarded events peer id before bytes after)
    (hseated : (start.run before).1.Seated)
    (hlt : (start.run events).1.link.now <
      (start.run before).1.link.now + start.link.timing.exchangeLifetime) :
    (start.run events).1.since? peer id = some (start.run before).1.link.now := by
  have hafter : ¬ ((start.run before).1.step (.datagram peer bytes)).1.Prepared after peer id := by
    rintro ⟨mid, event, rest, rfl, hprepares⟩
    exact h.pending ⟨.datagram peer bytes :: mid, event, rest, rfl, hprepares⟩
  have hlink : ((start.run before).1.step (.datagram peer bytes)).1.link =
      (start.run before).1.link := link_step _ _
  rw [h.events_eq, run_split] at hlt ⊢
  refine (Endpoint.since?_run (h.since?_step hseated) ?_ hafter ?_).1
  · rw [hlink]
  · rw [hlink, (settled_run start before).timing]
    exact hlt

/-! ### Runs -/

/-- How long an endpoint that purges and is not shut down remembers the confirmable requests that it
    hands on. After every run each of them is younger than the lifetime of an exchange and one purge
    interval together. A purge takes away no request that is younger than the lifetime alone, and
    nothing but purges and responses makes the endpoint forget one. Hence a request that comes in
    again before this time is over is not handed on again, unless a response to it was prepared. -/
theorem retention (service : Service Peer) (responseTimeout : Nat) (link : Link) (draws : Draws)
    (events : List (Event Peer)) :
    let start : Endpoint Peer := { service, responseTimeout, link, transmission := { draws } }
    let e := (start.run events).1
    let lifetime := link.timing.exchangeLifetime
    let interval := link.timing.purgeInterval
    e.link.isOpen → 0 < interval →
      (∀ peer id entry, e.reception.entries.find? peer id = some entry →
        entry.created ≤ e.link.now ∧ e.link.now < entry.created + (lifetime + interval)) ∧
      (∀ ms peer id since time, e.Purged ms peer id since time →
        e.link.Ticks ms time ∧ since + lifetime ≤ time) ∧
      (∀ event peer id since, e.since? peer id = some since →
        (e.step event).1.since? peer id ≠ some since →
          e.Prepares event peer id ∨
            ∃ ms time, event = .sleep ms ∧ e.Purged ms peer id since time) ∧
      ∀ peer id before bytes after bytes', start.Forwarded events peer id before bytes after →
        (Event.datagram peer bytes').Carries peer id →
          e.link.now < (start.run before).1.link.now + lifetime →
            (e.step (.datagram peer bytes')).2.effects.dispatched = [] := by
  intro start e lifetime interval hopen hinterval
  have hseated := seated_run service responseTimeout link draws
  have htiming : e.link.timing = link.timing := (start.settled_run events).timing
  have hunexpired : ∀ {peer id since}, e.since? peer id = some since → Unexpired e.link since :=
    unexpired_run service responseTimeout link draws events hopen
  refine ⟨fun peer id entry hentry => ?_, fun ms peer id since time hpurged => ?_,
    fun event peer id since hsince hgone => ?_,
    fun peer id before bytes after bytes' hforwarded hcarries hlt => ?_⟩
  · -- An entry is older neither than the clock nor than a lifetime and an interval.
    have hsince : e.since? peer id = some entry.created := congrArg (Option.map _) hentry
    have hyoung := hunexpired hsince
    have hage := hyoung.age (htiming ▸ hinterval)
    rw [htiming] at hage
    exact ⟨hyoung.le, hage⟩
  · -- What is purged was as old as a lifetime at the tick.
    obtain ⟨hticks, hold⟩ := hpurged.old
    have hle := (hunexpired hpurged.since?_eq).le
    have hlt := hticks.lt
    rw [htiming] at hold
    exact ⟨hticks, by omega⟩
  · -- What is forgotten was prepared for or purged.
    exact forgotten_step hsince hgone
  · exact (hseated events).dispatched_of_since?
      (hforwarded.since?_run (hseated before) hlt) hcarries

/-- A confirmable GET is handed on at time 1, with a lifetime of 5 and a purge at every multiple of
    3. It is a duplicate four milliseconds later, and it is forgotten at time 6. -/
theorem retention_until_purge :
    let link : Link := { timing := { exchangeLifetime := 5, purgeInterval := 3 } }
    let start : Endpoint Unit := { service := .later, link }
    let bytes : Bytes := [0x41, 1, 0x12, 0x34, 0xb1, 7]
    let before : List (Event Unit) := [.sleep 1]
    let events := before ++ [.datagram () bytes, .sleep 4]
    let e := (start.run events).1
    e.since? () 0x1234 = some 1 ∧ e.link.now = 5 ∧
      (e.step (.datagram () bytes)).2.effects.dispatched = [] ∧ e.Purged 1 () 0x1234 1 6 := by
  intro link start bytes before events e
  have hcarries : (Event.datagram () bytes).Carries () 0x1234 := ⟨rfl, _, rfl, rfl⟩
  have hhanded : ((start.run before).1.step (.datagram () bytes)).2.effects.dispatched ≠ [] :=
    List.ne_nil_of_length_pos (by decide +kernel)
  have hopen : e.link.isOpen := by decide +kernel
  have hsince : e.since? () 0x1234 = some 1 := by decide +kernel
  have hnow : e.link.now = 5 := by decide +kernel
  have hlater : e.link.now < (start.run before).1.link.now + 5 := by decide +kernel
  have hcount : 0 < purgeCount e.link e.link.now (e.link.now + 1) := by decide +kernel
  have htime : 6 = (e.link.now / e.link.timing.purgeInterval + 1 + 0) *
    e.link.timing.purgeInterval := by decide +kernel
  have hgone : (e.purges (e.link.now / e.link.timing.purgeInterval + 1) 1).1.since? () 0x1234 =
    none := by decide +kernel
  have hevents : events = before ++ .datagram () bytes :: [.sleep 4] := rfl
  clear_value events bytes before
  have hpurged : e.Purged 1 () 0x1234 1 6 := ⟨0, hcount, htime, hsince, hgone⟩
  obtain ⟨-, -, -, hduplicate⟩ := retention .later 10000 link {} events hopen (by decide)
  refine ⟨hsince, hnow, ?_, hpurged⟩
  refine hduplicate () 0x1234 before bytes [.sleep 4] bytes ⟨hevents, hcarries, hhanded, ?_⟩
    hcarries hlater
  -- The service answers nothing at once, and no response is sent later.
  rintro ⟨mid, event, rest, heq, hprepares⟩
  have hservice : ((start.run before).1.run mid).1.service = .later :=
    (settled_run _ mid).service.trans (settled_run start before).service
  have hmem : event ∈ [.datagram () bytes, .sleep 4] :=
    heq ▸ List.mem_append_right _ List.mem_cons_self
  rcases List.mem_pair.1 hmem with rfl | rfl
  · obtain ⟨d, -, response, hresponse, -⟩ := hprepares
    rw [hservice] at hresponse
    cases hresponse
  · exact hprepares

end Endpoint

end Coap

import Coap.Proofs.Delivery.Passage
import Coap.Proofs.Endpoint.Displacement

/-!
# What time does to requests

Up to a moment, messages in flight are sent again or given up, and requests that have arrived wait
for their responses or are given up as well. A request whose place is its own ends alone, so nothing
else happens then (`Endpoint.Inward`), and for each request it is settled by its own message or its
own timer what becomes of it (`Endpoint.Ages`).

* `Endpoint.owner?_eq_some_iff`: which request a message carries;
* `Endpoint.Seated.elapse_frame`: time changes the messages and the requests that wait, and nothing
  else;
* `Endpoint.Seated.ages`: what becomes of one request up to a moment.
-/

namespace Coap

variable {Peer : Type}

namespace Effects

/-- The ends of one request. -/
def finishes (k : Nat) (effects : Effects Peer) : List (Finish Peer) :=
  effects.finished.filter (·.request = k)

variable {k k' : Nat} {effects : Effects Peer}

theorem finishes_append (k : Nat) (a b : Effects Peer) :
    (a ++ b).finishes k = a.finishes k ++ b.finishes k :=
  List.filter_append _ _

theorem finishes_append_eq {a b : Effects Peer} {fs fs' : List (Finish Peer)}
    (h : a.finishes k = fs) (h' : b.finishes k = fs') : (a ++ b).finishes k = fs ++ fs' := by
  rw [finishes_append, h, h']

theorem finishes_of_nil (h : effects.finished = []) : effects.finishes k = [] := by
  rw [finishes, h, List.filter_nil]

theorem finishes_self {time : Nat} {result : Except (Failure Peer) Response}
    (h : effects.finished = [⟨time, k, result⟩]) : effects.finishes k = [⟨time, k, result⟩] := by
  rw [finishes, h, List.filter_cons, if_pos (decide_eq_true rfl), List.filter_nil]

theorem finishes_of_ne {time : Nat} {result : Except (Failure Peer) Response}
    (h : effects.finished = [⟨time, k', result⟩]) (hne : k ≠ k') : effects.finishes k = [] := by
  rw [finishes, h, List.filter_cons, if_neg fun heq => hne (of_decide_eq_true heq).symm,
    List.filter_nil]

end Effects

namespace Endpoint

variable [DecidableEq Peer] {e e' e'' : Endpoint Peer} {effects effects' : Effects Peer} {k : Nat}
  {exchange : Exchange Peer} {moment : Moment}

/-! ### Nothing but requests -/

/-- Nothing changes but which requests wait, and nothing is sent or handed on. -/
structure Inward (e e' : Endpoint Peer) (effects : Effects Peer) : Prop where
  frame : ∃ waiting live, e' = { e with waiting, live }
  emissions : effects.emissions = []
  dispatched : effects.dispatched = []

omit [DecidableEq Peer] in
theorem Inward.rfl : Inward e e {} := ⟨⟨_, _, Eq.refl _⟩, Eq.refl _, Eq.refl _⟩

omit [DecidableEq Peer] in
/-- Two parts that concern requests only, one after the other. -/
theorem Inward.trans (h : Inward e e' effects) (h' : Inward e' e'' effects') :
    Inward e e'' (effects ++ effects') where
  frame := by
    obtain ⟨waiting, live, rfl⟩ := h.frame
    obtain ⟨waiting', live', rfl⟩ := h'.frame
    exact ⟨waiting', live', Eq.refl _⟩
  emissions := List.append_eq_nil_iff.2 ⟨h.emissions, h'.emissions⟩
  dispatched := List.append_eq_nil_iff.2 ⟨h.dispatched, h'.dispatched⟩

/-- A request that has its place to itself ends alone. -/
theorem Seated.finish_eq (h : e.Seated) (hk : e.live.find? k = some exchange) (time : Nat)
    (result : Except (Failure Peer) Response) :
    e.finish time k exchange result =
      ({ e.abandon k with waiting := e.waiting.erase exchange.key },
        { finished := [⟨time, k, result⟩] }) := by
  have hwaiting := (h.waiting_iff (place?_eq_some_iff.2 ⟨exchange, hk, rfl⟩)).2 rfl
  exact Endpoint.finish_eq (fun k' hk' => Option.some.inj (hk'.symm.trans hwaiting)) time result

/-- A request that is at its end is gone, and this is its only end. -/
theorem Seated.finish_self (h : e.Seated) (hk : e.live.find? k = some exchange) (time : Nat)
    (result : Except (Failure Peer) Response) :
    (e.finish time k exchange result).1.live.find? k = none ∧
      (e.finish time k exchange result).2.finishes k = [⟨time, k, result⟩] := by
  rw [h.finish_eq hk]
  exact ⟨(Table.find?_erase _ _ _).trans (if_pos rfl), Effects.finishes_self rfl⟩

/-- The end of a request concerns no other one. -/
theorem Seated.finish_other (h : e.Seated) (hk : e.live.find? k = some exchange) {k' : Nat}
    (hne : k' ≠ k) (time : Nat) (result : Except (Failure Peer) Response) :
    (e.finish time k exchange result).1.live.find? k' = e.live.find? k' ∧
      (e.finish time k exchange result).2.finishes k' = [] := by
  rw [h.finish_eq hk]
  exact ⟨(Table.find?_erase _ _ _).trans (if_neg hne), Effects.finishes_of_ne rfl hne⟩

theorem Seated.inward_finish (h : e.Seated) (hk : e.live.find? k = some exchange) (time : Nat)
    (result : Except (Failure Peer) Response) :
    Inward e (e.finish time k exchange result).1 (e.finish time k exchange result).2 := by
  rw [h.finish_eq hk]
  exact ⟨⟨_, _, rfl⟩, rfl, rfl⟩

/-- The end of a message is passed on to the request that owns it. -/
theorem Seated.inward_resolve (h : e.Seated) (r : Resolution Peer) :
    Inward e (e.resolve r).1 (e.resolve r).2 := by
  rw [resolve]
  -- Whoever owns the message goes on waiting or ends. Both concern what is inside only.
  cases howner : e.owner? r.ticket with
  | none => exact .rfl
  | some owner =>
    obtain ⟨k, exchange⟩ := owner
    have hk := (owner?_eq_some howner).1
    have hawait : Inward e (e.await r.time k exchange) {} := ⟨⟨_, _, rfl⟩, rfl, rfl⟩
    dsimp only
    cases r.outcome with
    | sent => exact hawait
    | acknowledged m =>
      dsimp only
      split
      · exact hawait
      · exact h.inward_finish hk _ _
    | reset => exact h.inward_finish hk _ _
    | failed failure => exact h.inward_finish hk _ _

theorem Seated.inward_resolveAll (h : e.Seated) {rs : List (Resolution Peer)}
    (hclosed : ∀ r ∈ rs, r.outcome = .failed .closed → ¬ e.link.isOpen) :
    Inward e (e.resolveAll rs).1 (e.resolveAll rs).2 := by
  induction rs generalizing e with
  | nil => exact .rfl
  | cons r rs ih =>
    have hfirst := h.spares_resolve 0 r (hclosed r List.mem_cons_self)
    refine (h.inward_resolve r).trans (ih hfirst.seated fun r' hr' houtcome => ?_)
    rw [hfirst.isOpen]
    exact hclosed r' (List.mem_cons_of_mem _ hr') houtcome

/-- A response time-out ends its own request only. -/
theorem Seated.inward_expire (h : e.Seated) (moment : Moment) (k : Nat) :
    Inward e (e.expire moment k).1 (e.expire moment k).2 := by
  rw [expire]
  split
  · exact .rfl
  · rename_i hk
    split
    · exact .rfl
    · split
      · exact h.inward_finish hk _ _
      · exact .rfl

theorem Seated.inward_expireAll (h : e.Seated) (moment : Moment) (ks : List Nat) :
    Inward e (e.expireAll moment ks).1 (e.expireAll moment ks).2 := by
  induction ks generalizing e with
  | nil => exact .rfl
  | cons k ks ih => exact (h.inward_expire moment k).trans (ih (h.spares_expire 0 moment k).seated)

omit [DecidableEq Peer] in
/-- At a shutdown a request that waits is closed. -/
theorem finishes_shutdown_of_some (hk : e.live.find? k = some exchange) :
    e.shutdown.2.finishes k = [⟨e.link.now, k, .error .closed⟩] := by
  rw [Effects.finishes, shutdown, List.map_eq_flatMap, List.filter_flatMap,
    Ledger.flatMap_of_nodup_keys e.live.nodup (Table.mem_toList_iff.2 hk)]
  · exact List.filter_cons_of_pos (decide_eq_true rfl)
  · exact fun q _ hne => List.filter_cons_of_neg fun heq => hne (of_decide_eq_true heq)

omit [DecidableEq Peer] in
/-- A request that is not live does not end when the endpoint is shut down. -/
theorem finishes_shutdown_of_none (hk : e.live.find? k = none) :
    e.shutdown.2.finishes k = [] := by
  refine List.filter_eq_nil_iff.2 fun f hf hrequest => ?_
  obtain ⟨⟨k', exchange⟩, hmem, rfl⟩ := List.mem_map.1 hf
  obtain rfl : k' = k := of_decide_eq_true hrequest
  cases hk.symm.trans (Table.mem_toList_iff.1 hmem)

/-! ### The end of a message -/

/-- No two requests are carried by one message. -/
def Apart (e : Endpoint Peer) : Prop :=
  ∀ {k k' exchange exchange'}, e.live.find? k = some exchange →
    e.live.find? k' = some exchange' → exchange.ticket = exchange'.ticket → k = k'

theorem Apart.recedes {answers : List (Nat × Response)} (h : e.Apart)
    (hr : e.Recedes answers e' effects) : e'.Apart := by
  intro k k' exchange exchange' hk hk' hticket
  obtain ⟨before, phase, hbefore, rfl⟩ := hr.live hk
  obtain ⟨before', phase', hbefore', rfl⟩ := hr.live hk'
  exact h hbefore hbefore' hticket

omit [DecidableEq Peer] in
/-- Whoever owns a message in flight waits for the delivery. -/
theorem phase_of_owner? {ticket : Nat} (h : e.owner? ticket = some (k, exchange)) :
    exchange.phase = .delivery := by
  have htest := List.find?_some h
  simp only [Bool.and_eq_true, beq_iff_eq] at htest
  exact htest.2

omit [DecidableEq Peer] in
/-- Which request a message carries. -/
theorem owner?_eq_some_iff (h : e.Apart) {ticket : Nat} :
    e.owner? ticket = some (k, exchange) ↔
      e.live.find? k = some exchange ∧ exchange.ticket = ticket ∧ exchange.phase = .delivery := by
  constructor
  · intro howner
    obtain ⟨hk, hticket⟩ := owner?_eq_some howner
    exact ⟨hk, hticket, phase_of_owner? howner⟩
  · -- Some request is found for the ticket, and it is this one, as no two of them have the same.
    rintro ⟨hk, hticket, hphase⟩
    have hsome : (e.owner? ticket).isSome := by
      refine List.find?_isSome.2 ⟨(k, exchange), Table.mem_toList_iff.2 hk, ?_⟩
      simp only [hticket, hphase, beq_self_eq_true, Bool.and_self]
    obtain ⟨⟨k', exchange'⟩, howner⟩ := Option.isSome_iff_exists.1 hsome
    obtain ⟨hk', hticket'⟩ := owner?_eq_some howner
    obtain rfl := h hk hk' (hticket.trans hticket'.symm)
    obtain rfl := Option.some.inj (hk.symm.trans hk')
    exact howner

/-- The end of a message leaves all requests alone but the one that it carries. -/
theorem Seated.resolve_other (h : e.Seated) {r : Resolution Peer}
    (hother : ∀ exchange, e.owner? r.ticket ≠ some (k, exchange)) :
    (e.resolve r).1.live.find? k = e.live.find? k ∧ (e.resolve r).2.finishes k = [] := by
  rw [resolve]
  -- It is another request that goes on waiting or ends.
  cases howner : e.owner? r.ticket with
  | none => exact ⟨rfl, rfl⟩
  | some owner =>
    obtain ⟨k', exchange⟩ := owner
    have hk' := (owner?_eq_some howner).1
    have hne : k ≠ k' := fun heq => hother exchange (heq ▸ howner)
    have hawait : (e.await r.time k' exchange).live.find? k = e.live.find? k := by
      rw [await, Table.find?_insert, if_neg hne]
    have hfinish := h.finish_other hk' hne r.time
    dsimp only
    cases r.outcome with
    | sent => exact ⟨hawait, rfl⟩
    | acknowledged m =>
      dsimp only
      split
      · exact ⟨hawait, rfl⟩
      · exact hfinish _
    | reset => exact hfinish _
    | failed failure => exact hfinish _

/-- A message that fails ends the request that it carries. -/
theorem Seated.resolve_failed (h : e.Seated) {r : Resolution Peer} {failure : Failure Peer}
    (howner : e.owner? r.ticket = some (k, exchange)) (houtcome : r.outcome = .failed failure) :
    (e.resolve r).1.live.find? k = none ∧
      (e.resolve r).2.finishes k = [⟨r.time, k, .error failure⟩] := by
  simp only [resolve, howner, houtcome]
  exact h.finish_self (owner?_eq_some howner).1 _ _

/-- What the ends of messages in the course of time do to a request that none of them carries. -/
theorem Seated.resolveAll_other (h : e.Seated) {rs : List (Resolution Peer)}
    (hclosed : ∀ r ∈ rs, r.outcome = .failed .closed → ¬ e.link.isOpen)
    (hother : ∀ exchange, e.live.find? k = some exchange → exchange.phase = .delivery →
      ∀ r ∈ rs, r.ticket ≠ exchange.ticket) :
    (e.resolveAll rs).1.live.find? k = e.live.find? k ∧ (e.resolveAll rs).2.finishes k = [] := by
  induction rs generalizing e with
  | nil => exact ⟨rfl, rfl⟩
  -- The first end leaves the request alone, and the rest find it as it was.
  | cons r rs ih =>
    have hfirst := h.spares_resolve 0 r (hclosed r List.mem_cons_self)
    obtain ⟨hlive, hends⟩ := h.resolve_other (k := k) (r := r) fun exchange howner =>
      hother exchange (owner?_eq_some howner).1 (phase_of_owner? howner) r List.mem_cons_self
        (owner?_eq_some howner).2.symm
    obtain ⟨hlive', hends'⟩ := ih hfirst.seated
      (fun r' hr' houtcome => hfirst.isOpen ▸ hclosed r' (List.mem_cons_of_mem _ hr') houtcome)
      (fun exchange hk hphase r' hr' =>
        hother exchange (hlive ▸ hk) hphase r' (List.mem_cons_of_mem _ hr'))
    refine ⟨hlive'.trans hlive, ?_⟩
    rw [resolveAll]
    dsimp only
    rw [Effects.finishes_append, hends, hends', List.append_nil]

/-- Of the messages that fail in the course of time, the one that carries a request ends it. -/
theorem Seated.resolveAll_failed (h : e.Seated) (hapart : e.Apart) {rs : List (Resolution Peer)}
    (hclosed : ∀ r ∈ rs, r.outcome = .failed .closed → ¬ e.link.isOpen)
    (hk : e.live.find? k = some exchange) (hphase : exchange.phase = .delivery)
    {time : Nat} {failure : Failure Peer}
    (hone : rs.filter (·.ticket = exchange.ticket) = [⟨time, exchange.ticket, .failed failure⟩]) :
    (e.resolveAll rs).1.live.find? k = none ∧
      (e.resolveAll rs).2.finishes k = [⟨time, k, .error failure⟩] := by
  induction rs generalizing e with
  | nil => cases hone
  | cons r rs ih =>
    have hfirst := h.spares_resolve 0 r (hclosed r List.mem_cons_self)
    have hclosed' : ∀ r' ∈ rs, r'.outcome = .failed .closed → ¬ (e.resolve r).1.link.isOpen :=
      fun r' hr' houtcome => hfirst.isOpen ▸ hclosed r' (List.mem_cons_of_mem _ hr') houtcome
    rw [resolveAll]
    dsimp only
    rw [Effects.finishes_append]
    by_cases hticket : r.ticket = exchange.ticket
    · -- This is the message; nothing happens to the request after it has ended.
      rw [List.filter_cons, if_pos (decide_eq_true hticket)] at hone
      have howner := (owner?_eq_some_iff hapart).2 ⟨hk, hticket.symm, hphase⟩
      obtain ⟨rfl, -⟩ := List.cons.inj hone
      obtain ⟨hgone, hend⟩ := h.resolve_failed howner rfl
      obtain ⟨hlast, hnone⟩ := hfirst.seated.resolveAll_other (k := k) hclosed'
        fun exchange' hk' => by cases hgone.symm.trans hk'
      exact ⟨hlast.trans hgone, by rw [hend, hnone, List.append_nil]⟩
    · rw [List.filter_cons, if_neg fun heq => hticket (of_decide_eq_true heq)] at hone
      obtain ⟨hkept, hnone⟩ := h.resolve_other (k := k) (r := r) fun exchange' howner => by
        obtain ⟨hk', hticket'⟩ := owner?_eq_some howner
        obtain rfl := Option.some.inj (hk.symm.trans hk')
        exact hticket hticket'.symm
      obtain ⟨hgone, hend⟩ := ih hfirst.seated (hapart.recedes (e.recedes_resolve r)) hclosed'
        (hkept.trans hk) hone
      exact ⟨hgone, by rw [hnone, hend, List.nil_append]⟩

/-! ### Responses that do not come -/

/-- A request whose time is up before a moment. -/
def Late (moment : Moment) (k : Nat) (timer : Timer) (e : Endpoint Peer) : Prop :=
  timer.Before moment ∧
    ∃ exchange, e.live.find? k = some exchange ∧ exchange.timer? e.responseTimeout = some timer

/-- A request whose response is late ends at the time-out. -/
theorem Seated.expire_late (h : e.Seated) {timer : Timer} (hlate : e.Late moment k timer) :
    (e.expire moment k).1.live.find? k = none ∧
      (e.expire moment k).2.finishes k = [⟨timer.due, k, .error .noResponse⟩] := by
  obtain ⟨hbefore, exchange, hk, htimer⟩ := hlate
  simp only [expire, hk, htimer, if_pos hbefore]
  exact h.finish_self hk _ _

/-- A time-out that is not over, or that of another request, concerns nothing. -/
theorem Seated.expire_other (h : e.Seated) (moment : Moment) (k k' : Nat)
    (hother : k' = k → ∀ timer, ¬ e.Late moment k timer) :
    (e.expire moment k').1.live.find? k = e.live.find? k ∧
      (e.expire moment k').2.finishes k = [] := by
  -- A request ends only if it waits, has a timer, and this one is over.
  rw [expire]
  split
  · exact ⟨rfl, rfl⟩
  · rename_i exchange hk'
    split
    · exact ⟨rfl, rfl⟩
    · rename_i timer htimer
      split
      · rename_i hbefore
        have hne : k ≠ k' := by
          rintro rfl
          exact hother rfl timer ⟨hbefore, exchange, hk', htimer⟩
        exact h.finish_other hk' hne _ _
      · exact ⟨rfl, rfl⟩

omit [DecidableEq Peer] in
theorem Late.congr {timer : Timer} (hlive : e'.live.find? k = e.live.find? k)
    (htimeout : e'.responseTimeout = e.responseTimeout) :
    e'.Late moment k timer ↔ e.Late moment k timer := by
  rw [Late, Late, hlive, htimeout]

omit [DecidableEq Peer] in
theorem Inward.responseTimeout_eq (h : Inward e e' effects) :
    e'.responseTimeout = e.responseTimeout := by
  obtain ⟨waiting, live, rfl⟩ := h.frame
  rfl

/-- A request whose response is not late stays as it is when the others expire. -/
theorem Seated.expireAll_other (h : e.Seated) (moment : Moment) (k : Nat) (ks : List Nat)
    (hother : ∀ timer, ¬ e.Late moment k timer) :
    (e.expireAll moment ks).1.live.find? k = e.live.find? k ∧
      (e.expireAll moment ks).2.finishes k = [] := by
  induction ks generalizing e with
  | nil => exact ⟨rfl, rfl⟩
  | cons k' ks ih =>
    obtain ⟨hlive, hends⟩ := h.expire_other moment k k' fun _ => hother
    have htimeout := (h.inward_expire moment k').responseTimeout_eq
    obtain ⟨hlive', hends'⟩ := ih (h.spares_expire 0 moment k').seated fun timer hlate =>
      hother timer ((Late.congr hlive htimeout).1 hlate)
    refine ⟨hlive'.trans hlive, ?_⟩
    rw [expireAll]
    dsimp only
    rw [Effects.finishes_append, hends, hends', List.append_nil]

/-- A request whose response is late ends once when all late ones expire. -/
theorem Seated.expireAll_late (h : e.Seated) {ks : List Nat} (hmem : k ∈ ks) {timer : Timer}
    (hlate : e.Late moment k timer) :
    (e.expireAll moment ks).1.live.find? k = none ∧
      (e.expireAll moment ks).2.finishes k = [⟨timer.due, k, .error .noResponse⟩] := by
  induction ks generalizing e with
  | nil => cases hmem
  | cons k' ks ih =>
    have hfirst := h.spares_expire 0 moment k'
    have htimeout := (h.inward_expire moment k').responseTimeout_eq
    rw [expireAll]
    dsimp only
    rw [Effects.finishes_append]
    -- It is the first one: it ends, and then it is gone for all the rest.
    by_cases heq : k' = k
    · subst heq
      obtain ⟨hgone, hend⟩ := h.expire_late hlate
      obtain ⟨hlast, hnone⟩ := hfirst.seated.expireAll_other moment k' ks
        fun timer hlate' => by
          obtain ⟨-, exchange, hk, -⟩ := hlate'
          cases hgone.symm.trans hk
      exact ⟨hlast.trans hgone, by rw [hend, hnone, List.append_nil]⟩
    · -- It is another one, which leaves this one as late as it was.
      obtain ⟨hkept, hnone⟩ := h.expire_other moment k k' fun h' => absurd h' heq
      obtain ⟨hgone, hend⟩ := ih hfirst.seated
        ((List.mem_cons.1 hmem).resolve_left (Ne.symm heq))
        ((Late.congr hkept htimeout).2 hlate)
      exact ⟨hgone, by rw [hnone, hend, List.nil_append]⟩

/-! ### Up to a moment -/

/-- What becomes of a request up to a moment. -/
inductive Ages (moment : Moment) (k : Nat) (e e' : Endpoint Peer) (effects : Effects Peer) :
    Prop where
  /-- It does not wait. -/
  | gone (before : e.live.find? k = none) (after : e'.live.find? k = none)
      (finishes : effects.finishes k = [])
  /-- Its message is still to be acknowledged. -/
  | delivery {exchange : Exchange Peer} (before : e.live.find? k = some exchange)
      (phase : exchange.phase = .delivery)
      (resolutions : ((e.transmission.elapse e.link moment).2.of exchange.ticket).resolutions = [])
      (after : e'.live.find? k = some exchange) (finishes : effects.finishes k = [])
  /-- Its message fails. -/
  | failed {exchange : Exchange Peer} {time : Nat} {failure : Failure Peer}
      (before : e.live.find? k = some exchange) (phase : exchange.phase = .delivery)
      (resolutions : ((e.transmission.elapse e.link moment).2.of exchange.ticket).resolutions =
        [⟨time, exchange.ticket, .failed failure⟩])
      (after : e'.live.find? k = none) (finishes : effects.finishes k = [⟨time, k, .error failure⟩])
  /-- The time for its response is not over. -/
  | response {exchange : Exchange Peer} {since : Nat} (before : e.live.find? k = some exchange)
      (phase : exchange.phase = .response since)
      (waits : ¬ (Timer.after since e.responseTimeout).Before moment)
      (after : e'.live.find? k = some exchange) (finishes : effects.finishes k = [])
  /-- It is given up, as no response came. -/
  | late {exchange : Exchange Peer} {since : Nat} (before : e.live.find? k = some exchange)
      (phase : exchange.phase = .response since)
      (due : (Timer.after since e.responseTimeout).Before moment) (after : e'.live.find? k = none)
      (finishes : effects.finishes k =
        [⟨(Timer.after since e.responseTimeout).due, k, .error .noResponse⟩])

omit [DecidableEq Peer] in
/-- Nothing happens to a request that does not wait. -/
theorem Ages.of_none (h : Ages moment k e e' effects) (hk : e.live.find? k = none) :
    e'.live.find? k = none ∧ effects.finishes k = [] := by
  cases h with
  | gone before after finishes => exact ⟨after, finishes⟩
  | delivery before => cases hk.symm.trans before
  | failed before => cases hk.symm.trans before
  | response before => cases hk.symm.trans before
  | late before => cases hk.symm.trans before

/-- The endpoint where the messages have got to a moment. -/
def elapsed (moment : Moment) (e : Endpoint Peer) : Endpoint Peer :=
  { e with
    reception := (e.reception.elapse e.link moment).1
    transmission := (e.transmission.elapse e.link moment).1 }

/-- The endpoint where the requests have ended whose messages failed until a moment. -/
def resolved (moment : Moment) (e : Endpoint Peer) : Endpoint Peer × Effects Peer :=
  (e.elapsed moment).resolveAll (e.transmission.elapse e.link moment).2.resolutions

/-- As time passes, first messages come to their ends, and then response time-outs are over. -/
theorem elapse_eq (moment : Moment) (e : Endpoint Peer) :
    e.elapse moment =
      let late := (e.resolved moment).1.expireAll moment (e.resolved moment).1.live.keys
      (late.1, { emissions := (e.reception.elapse e.link moment).2 ++
        (e.transmission.elapse e.link moment).2.emissions } ++ (e.resolved moment).2 ++ late.2) :=
  rfl

/-- A message ends as closed in the course of time only if the way out is. -/
theorem closed_of_mem_elapse (moment : Moment) (e : Endpoint Peer) :
    ∀ r ∈ (e.transmission.elapse e.link moment).2.resolutions,
      r.outcome = .failed .closed → ¬ (e.elapsed moment).link.isOpen := by
  intro r hr houtcome
  obtain ⟨failure, hfailed, hclosed⟩ := Transmission.failed_of_mem_elapse hr
  exact hclosed (Outcome.failed.inj (hfailed.symm.trans houtcome))

theorem Seated.elapsed (h : e.Seated) (moment : Moment) : (e.elapsed moment).Seated :=
  ⟨h.isOpen, h.lt, h.waiting_iff⟩

theorem Seated.resolved (h : e.Seated) (moment : Moment) :
    (e.resolved moment).1.Seated ∧
      Inward (e.elapsed moment) (e.resolved moment).1 (e.resolved moment).2 :=
  have hclosed := closed_of_mem_elapse moment e
  ⟨((h.elapsed moment).spares_resolveAll 0 hclosed).seated,
    (h.elapsed moment).inward_resolveAll hclosed⟩

/-- Time changes the messages and the requests that wait, and nothing else. -/
theorem Seated.elapse_frame (h : e.Seated) (moment : Moment) :
    (∃ waiting live, (e.elapse moment).1 = { e.elapsed moment with waiting, live }) ∧
      (e.elapse moment).2.emissions = (e.reception.elapse e.link moment).2 ++
        (e.transmission.elapse e.link moment).2.emissions ∧
      (e.elapse moment).2.dispatched = [] := by
  obtain ⟨hseated, hresolved⟩ := h.resolved moment
  obtain ⟨hframe, hemissions, hdispatched⟩ := hresolved.trans
    (hseated.inward_expireAll moment (e.resolved moment).1.live.keys)
  rw [elapse_eq]
  refine ⟨hframe, ?_, hdispatched⟩
  exact (List.append_assoc _ _ _).trans ((congrArg _ hemissions).trans (List.append_nil _))

omit [DecidableEq Peer] in
theorem finishes_elapse (k : Nat) (emissions : List (Emission Peer)) (a b : Effects Peer) :
    ({ emissions } ++ a ++ b : Effects Peer).finishes k = a.finishes k ++ b.finishes k := by
  rw [Effects.finishes_append, Effects.finishes_append]
  rfl

/-- What the ends of messages leave of a request that is not given up. -/
theorem Seated.elapse_of_not_late (h : e.Seated) (moment : Moment) (k : Nat)
    (hlate : ∀ timer, ¬ (e.resolved moment).1.Late moment k timer) :
    (e.elapse moment).1.live.find? k = (e.resolved moment).1.live.find? k ∧
      (e.elapse moment).2.finishes k = (e.resolved moment).2.finishes k := by
  obtain ⟨hlive, hends⟩ := (h.resolved moment).1.expireAll_other moment k
    (e.resolved moment).1.live.keys hlate
  rw [elapse_eq]
  exact ⟨hlive, by rw [finishes_elapse, hends, List.append_nil]⟩

/-- A request that waits when the messages have got to the moment may be given up then. -/
theorem Seated.elapse_of_late (h : e.Seated) {timer : Timer}
    (hlate : (e.resolved moment).1.Late moment k timer) :
    (e.elapse moment).1.live.find? k = none ∧
      (e.elapse moment).2.finishes k =
        (e.resolved moment).2.finishes k ++ [⟨timer.due, k, .error .noResponse⟩] := by
  have hmem : k ∈ (e.resolved moment).1.live.keys := by
    obtain ⟨-, exchange, hk, -⟩ := hlate
    exact List.mem_map_of_mem (Table.mem_toList_iff.2 hk)
  obtain ⟨hlive, hends⟩ := (h.resolved moment).1.expireAll_late hmem hlate
  rw [elapse_eq]
  exact ⟨hlive, by rw [finishes_elapse, hends]⟩

/-- What becomes of a request whose message is still to be acknowledged. -/
theorem Seated.ages_delivery (h : e.Seated) (hapart : e.Apart)
    (hticketed : e.transmission.Ticketed) (hk : e.live.find? k = some exchange)
    (hphase : exchange.phase = .delivery) :
    Ages moment k e (e.elapse moment).1 (e.elapse moment).2 := by
  -- All that can end the request is the end of its message: a request in this phase has no timer.
  have hclosed := closed_of_mem_elapse moment e
  have hlength := Transmission.length_resolutions_elapse_le hticketed e.link moment exchange.ticket
  have hof : ((e.transmission.elapse e.link moment).2.of exchange.ticket).resolutions =
      (e.transmission.elapse e.link moment).2.resolutions.filter
        (·.ticket = exchange.ticket) := rfl
  cases hmine : (e.transmission.elapse e.link moment).2.resolutions.filter
    (·.ticket = exchange.ticket) with
  | nil =>
    obtain ⟨hlive, hends⟩ := (h.elapsed moment).resolveAll_other (k := k) hclosed
      fun exchange' hk' _ r hr hticket => by
        obtain rfl := Option.some.inj (hk.symm.trans hk')
        exact List.filter_eq_nil_iff.1 hmine r hr (decide_eq_true hticket)
    have hresolved : (e.resolved moment).1.live.find? k = some exchange := hlive.trans hk
    obtain ⟨hlive', hends'⟩ := h.elapse_of_not_late moment k
      fun timer ⟨_, exchange', hk', htimer⟩ => by
        obtain rfl := Option.some.inj (hresolved.symm.trans hk')
        rw [Exchange.timer?, hphase] at htimer
        cases htimer
    exact .delivery hk hphase (hof.trans hmine) (hlive'.trans hresolved) (hends'.trans hends)
  -- There is just one such end, as tickets are given out once.
  | cons r rest =>
    rw [hof, hmine] at hlength
    obtain rfl := List.eq_nil_of_length_eq_zero (Nat.le_zero.1 (Nat.le_of_succ_le_succ hlength))
    have hmem : r ∈ (e.transmission.elapse e.link moment).2.resolutions.filter
      (·.ticket = exchange.ticket) := hmine ▸ List.mem_cons_self
    obtain ⟨hr, hticket⟩ := List.mem_filter.1 hmem
    obtain ⟨failure, hfailed, -⟩ := Transmission.failed_of_mem_elapse hr
    obtain ⟨time, ticket, outcome⟩ := r
    obtain rfl : ticket = exchange.ticket := of_decide_eq_true hticket
    obtain rfl : outcome = .failed failure := hfailed
    obtain ⟨hlive, hends⟩ :=
      (h.elapsed moment).resolveAll_failed hapart hclosed hk hphase hmine
    have hresolved : (e.resolved moment).1.live.find? k = none := hlive
    obtain ⟨hlive', hends'⟩ := h.elapse_of_not_late moment k
      fun timer ⟨_, exchange', hk', _⟩ => by cases hresolved.symm.trans hk'
    exact .failed hk hphase (hof.trans hmine) (hlive'.trans hresolved) (hends'.trans hends)

/-- What becomes of a request that has arrived. -/
theorem Seated.ages_response (h : e.Seated) (hk : e.live.find? k = some exchange) {since : Nat}
    (hphase : exchange.phase = .response since) :
    Ages moment k e (e.elapse moment).1 (e.elapse moment).2 := by
  have hclosed := closed_of_mem_elapse moment e
  -- The message has arrived, so no end of a message is one of it.
  obtain ⟨hlive, hends⟩ := (h.elapsed moment).resolveAll_other (k := k) hclosed
    fun exchange' hk' hphase' => by
      obtain rfl := Option.some.inj (hk.symm.trans hk')
      cases hphase.symm.trans hphase'
  have hresolved : (e.resolved moment).1.live.find? k = some exchange := hlive.trans hk
  have htimeout : (e.resolved moment).1.responseTimeout = e.responseTimeout :=
    (h.resolved moment).2.responseTimeout_eq
  have htimer : exchange.timer? (e.resolved moment).1.responseTimeout =
      some (.after since e.responseTimeout) := by
    rw [Exchange.timer?, hphase, htimeout]
  -- Now its own time-out decides.
  by_cases hbefore : (Timer.after since e.responseTimeout).Before moment
  · obtain ⟨hlive', hends'⟩ := h.elapse_of_late ⟨hbefore, exchange, hresolved, htimer⟩
    exact .late hk hphase hbefore hlive' (hends'.trans (congrArg (· ++ _) hends))
  · obtain ⟨hlive', hends'⟩ := h.elapse_of_not_late moment k
      fun timer ⟨hbefore', exchange', hk', htimer'⟩ => by
        obtain rfl := Option.some.inj (hresolved.symm.trans hk')
        obtain rfl := Option.some.inj (htimer.symm.trans htimer')
        exact hbefore hbefore'
    exact .response hk hphase hbefore (hlive'.trans hresolved) (hends'.trans hends)

/-- What becomes of one request up to a moment. -/
theorem Seated.ages (h : e.Seated) (hapart : e.Apart) (hticketed : e.transmission.Ticketed)
    (moment : Moment) (k : Nat) : Ages moment k e (e.elapse moment).1 (e.elapse moment).2 := by
  cases hk : e.live.find? k with
  | none =>
    obtain ⟨hlive, hends⟩ := (h.elapsed moment).resolveAll_other (k := k)
      (closed_of_mem_elapse moment e) fun exchange hk' => by cases hk.symm.trans hk'
    have hresolved : (e.resolved moment).1.live.find? k = none := hlive.trans hk
    obtain ⟨hlive', hends'⟩ := h.elapse_of_not_late moment k
      fun timer ⟨_, exchange, hk', _⟩ => by cases hresolved.symm.trans hk'
    exact .gone hk (hlive'.trans hresolved) (hends'.trans hends)
  | some exchange =>
    cases hphase : exchange.phase with
    | delivery => exact h.ages_delivery hapart hticketed hk hphase
    | response since => exact h.ages_response hk hphase

end Endpoint

end Coap

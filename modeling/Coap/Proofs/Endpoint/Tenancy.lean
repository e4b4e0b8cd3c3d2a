import Coap.Proofs.Endpoint.Lifetime
import Mathlib.Data.Set.Card

/-!
# Places that are left behind

Whoever ends leaves the place empty (`Endpoint.Clears`), so that of the requests that were made only
those are found in a place which have not ended. A request that is called off does not end, though.
It leaves its place behind (`Endpoint.Deserted`), where it is still found as long as nothing is
heard of its peer and nothing else is asked of it. So the places that are taken may be more than the
requests that are outstanding, by as many as were called off.

* `Endpoint.Seated.clears_elapse`, `Endpoint.Seated.clears_step`: what time and an event do to a
  place;
* `Endpoint.Seated.deserted_step`: only a request that is called off leaves its place behind;
* `Endpoint.Deserted.run`: a place that was left behind stays so as long as its peer is not
  involved;
* `Endpoint.tenancy`: who is found in the places of an endpoint;
* `Endpoint.place_of_called_off`: a request that was called off is found in its place.
-/

namespace Coap.Endpoint

variable {Peer : Type} [DecidableEq Peer]

/-- What becomes of a place: nothing changes about it, or it is left empty, as somebody waited there
    or as it was `given` up. -/
inductive Clears (given : Prop) (key : Peer × Bytes) (e e' : Endpoint Peer) : Prop where
  | same (waiting : e'.waiting.find? key = e.waiting.find? key)
      (place : ∀ k, e'.place? k = some key ↔ e.place? k = some key)
  | empty (waiting : e'.waiting.find? key = none) (place : ∀ k, e'.place? k ≠ some key)
      (reason : given ∨ ∃ k, e.place? k = some key)

variable {given : Prop} {e e' e'' : Endpoint Peer} {effects : Effects Peer} {k : Nat}
  {key key' : Peer × Bytes} {result : Except (Failure Peer) Response} {moment : Moment}

theorem Clears.rfl : Clears given key e e := .same (Eq.refl _) fun _ => Iff.rfl

theorem Clears.trans (h : Clears given key e e') (h' : Clears given key e' e'') :
    Clears given key e e'' := by
  cases h' with
  | same waiting' place' =>
    cases h with
    | same waiting place =>
      exact .same (waiting'.trans waiting) fun k => (place' k).trans (place k)
    | empty waiting place reason =>
      exact .empty (waiting'.trans waiting) (fun k hk => place k ((place' k).1 hk)) reason
  | empty waiting' place' reason' =>
    refine .empty waiting' place' ?_
    cases h with
    | same waiting place => exact reason'.imp_right fun ⟨k, hk⟩ => ⟨k, (place k).1 hk⟩
    | empty waiting place reason => exact reason

theorem Idle.clears (h : Idle e e' effects) : Clears given key e e' :=
  .same (by rw [h.waiting]) fun k => by rw [h.place]

/-- Whoever ends leaves the one place empty. -/
theorem Leaves.clears (h : Leaves k key' result e e' effects) (hseated : e.Seated)
    (hk : e.place? k = some key') : Clears given key e e' := by
  by_cases hkey : key = key'
  · -- It is the place in question: whoever else had it would be the same.
    subst hkey
    refine .empty (by rw [h.waiting, if_pos rfl]) (fun k' hk' => ?_) (.inr ⟨k, hk⟩)
    rw [h.place] at hk'
    split at hk'
    · cases hk'
    · rename_i hne
      exact hne (hseated.unique hk' hk)
  · -- It is another place, which is neither emptied nor filled.
    refine .same (by rw [h.waiting, if_neg hkey]) fun k' => ?_
    rw [h.place]
    split
    · rename_i heq
      rw [heq, hk]
      exact iff_of_false (fun hnone => by cases hnone) fun hsame =>
        hkey (Option.some.inj hsame).symm
    · exact Iff.rfl

/-! ### Time -/

theorem Seated.clears_finish (h : e.Seated) {exchange : Exchange Peer}
    (hk : e.live.find? k = some exchange) (time : Nat)
    (result : Except (Failure Peer) Response) :
    Clears given key e (e.finish time k exchange result).1 :=
  (h.finish hk time result).clears h (place?_eq_some_iff.2 ⟨exchange, hk, rfl⟩)

theorem Seated.clears_resolve (h : e.Seated) (r : Resolution Peer) :
    Clears given key e (e.resolve r).1 := by
  rw [resolve]
  -- Whoever sent the message either goes on waiting or ends, and ending empties a place of its own.
  cases howner : e.owner? r.ticket with
  | none => exact .rfl
  | some owner =>
    obtain ⟨k, exchange⟩ := owner
    have hk := (owner?_eq_some howner).1
    have hawait : Clears given key e (e.await r.time k exchange) := (idle_await hk r.time).clears
    dsimp only
    cases r.outcome with
    | sent => exact hawait
    | acknowledged m =>
      dsimp only
      split
      · exact hawait
      · exact h.clears_finish hk _ _
    | reset => exact h.clears_finish hk _ _
    | failed failure => exact h.clears_finish hk _ _

theorem Seated.clears_resolveAll (h : e.Seated) {rs : List (Resolution Peer)}
    (hclosed : ∀ r ∈ rs, r.outcome = .failed .closed → ¬ e.link.isOpen) :
    Clears given key e (e.resolveAll rs).1 := by
  induction rs generalizing e with
  | nil => exact .rfl
  | cons r rs ih =>
    have hfirst := h.spares_resolve 0 r (hclosed r List.mem_cons_self)
    refine (h.clears_resolve r).trans (ih hfirst.seated fun r' hr' houtcome => ?_)
    rw [hfirst.isOpen]
    exact hclosed r' (List.mem_cons_of_mem _ hr') houtcome

theorem Seated.clears_expireAll (h : e.Seated) (moment : Moment) (ks : List Nat) :
    Clears given key e (e.expireAll moment ks).1 := by
  induction ks generalizing e with
  | nil => exact .rfl
  | cons k ks ih =>
    -- A request that expires ends. One that is gone, or has more time left, stays as it is.
    have hexpire : Clears given key e (e.expire moment k).1 := by
      rw [expire]
      split
      · exact .rfl
      · rename_i exchange hk
        split
        · exact .rfl
        · split
          · exact h.clears_finish hk _ _
          · exact .rfl
    exact hexpire.trans (ih (h.spares_expire 0 moment k).seated)

/-- In the course of time no place is given up. -/
theorem Seated.clears_elapse (h : e.Seated) (moment : Moment) :
    Clears given key e (e.elapse moment).1 := by
  have htime : Clears given key e (e.elapsed moment) := .same rfl fun _ => Iff.rfl
  have hresolved : Clears given key (e.elapsed moment) (e.resolved moment).1 :=
    (h.elapsed moment).clears_resolveAll (closed_of_mem_elapse moment e)
  rw [elapse_eq]
  exact (htime.trans hresolved).trans ((h.resolved moment).1.clears_expireAll moment _)

theorem Seated.clears_advance (h : e.Seated) (ms : Nat) :
    Clears given key e (e.advance ms).1 :=
  @Seated.advance_rec Peer _ e (fun _ e' _ => Clears given key e e')
    (fun hseated hclears _ _ => hclears.trans (hseated.clears_elapse _))
    (fun _ hclears => hclears.trans (.same rfl fun _ => Iff.rfl))
    (fun hclears => hclears.trans (.same rfl fun _ => Iff.rfl)) h {} .rfl ms

/-! ### Receiving -/

theorem clears_dispatch (peer : Peer) (request : Request) (e : Endpoint Peer) :
    Clears given key e (e.dispatch peer request).1 := by
  rw [dispatch]
  split
  · exact .rfl
  · exact (idle_respond _ _ e).clears

/-- A response of a peer may empty a place for which nobody waits any more. -/
theorem Seated.clears_deliver (h : e.Seated) {peer : Peer} (hgiven : key.1 = peer → given)
    (response : Response) : Clears given key e (e.deliver peer response).1 := by
  -- Either somebody waits in the place of the response and ends, or the entry there belongs to
  -- nobody.
  by_cases hplace : ∃ k, e.place? k = some (peer, response.message.token?.getD [])
  · obtain ⟨k, hk⟩ := hplace
    exact (h.deliver response hk).clears h hk
  · have hvacant := not_exists.1 hplace
    rw [Endpoint.deliver]
    dsimp only
    cases hw : e.waiting.find? (peer, response.message.token?.getD []) with
    | none => exact .rfl
    | some k =>
      dsimp only
      rw [h.gone_of_vacant hvacant hw]
      by_cases hkey : key = (peer, response.message.token?.getD [])
      · subst hkey
        exact .empty ((Table.find?_erase _ _ _).trans (if_pos rfl)) hvacant (.inl (hgiven rfl))
      · exact .same ((Table.find?_erase _ _ _).trans (if_neg hkey)) fun _ => Iff.rfl

theorem Seated.clears_handOn (h : e.Seated) {peer : Peer} (hgiven : key.1 = peer → given)
    (verdict : Verdict) (m : Message) : Clears given key e (e.handOn verdict peer m).1 := by
  cases verdict with
  | duplicate => exact .rfl
  | forward =>
    rw [handOn]
    split
    · exact clears_dispatch peer _ e
    · split
      · exact h.clears_deliver hgiven _
      · exact .rfl

theorem Seated.clears_accept (h : e.Seated) {peer : Peer} (hgiven : key.1 = peer → given)
    (m : Message) : Clears given key e (e.accept peer m).1 := by
  have hreceive : Idle e { e with transmission := (e.transmission.receive e.link peer m).1 } {} :=
    ⟨rfl, rfl, fun _ => rfl, rfl, rfl⟩
  have hacks : Clears given key e (resolveAll (e.transmission.receive e.link peer m).2.toList
      { e with transmission := (e.transmission.receive e.link peer m).1 }).1 :=
    hreceive.clears.trans ((h.spares_of_idle 0 hreceive).seated.clears_resolveAll
      fun r hr hfailed => absurd hfailed (Transmission.ne_failed_of_mem_receive hr _))
  have hreception : Idle e
      { e with reception := (e.reception.receive e.link peer m).reception } {} :=
    ⟨rfl, rfl, fun _ => rfl, rfl, rfl⟩
  rw [Endpoint.accept]
  -- An answer goes to what is in flight, and everything else is handed on.
  split
  · exact hacks
  · exact hacks
  · exact hreception.clears.trans
      ((h.spares_of_idle 0 hreception).seated.clears_handOn hgiven _ m)

theorem Seated.clears_receive (h : e.Seated) {peer : Peer} (hgiven : key.1 = peer → given)
    (bytes : Bytes) : Clears given key e (e.receive peer bytes).1 := by
  rw [receive]
  split
  · split
    · exact .rfl
    · rename_i m _
      exact h.clears_accept hgiven m
  · exact .rfl

/-! ### Places that are left behind -/

/-- A request is found in a place where it does not wait. -/
structure Deserted (key : Peer × Bytes) (k : Nat) (e : Endpoint Peer) : Prop where
  waiting : e.waiting.find? key = some k
  place : e.place? k ≠ some key

/-- An event that may take or empty a place under a peer. -/
def Event.Involves (peer : Peer) : Event Peer → Prop
  | .datagram peer' _ | .request peer' _ => peer' = peer
  | .shutdown => True
  | .abandon _ | .respond _ _ | .sleep _ => False

/-- Nobody leaves a place behind who ends. -/
theorem Clears.deserted (h : Clears given key e e') (hlast : e'.Deserted key k) :
    e.Deserted key k := by
  cases h with
  | same waiting place =>
    exact ⟨waiting.symm.trans hlast.waiting, fun hk => hlast.place ((place k).2 hk)⟩
  | empty waiting => cases waiting.symm.trans hlast.waiting

/-- A place that was left behind stays so if it is not given up. -/
theorem Clears.keeps (h : Clears given key e e') (hgiven : ¬ given) (hseated : e.Seated)
    (hfirst : e.Deserted key k) : e'.Deserted key k := by
  cases h with
  | same waiting place =>
    exact ⟨waiting.trans hfirst.waiting, fun hk => hfirst.place ((place k).1 hk)⟩
  | empty waiting place reason =>
    obtain ⟨k', hk'⟩ := reason.resolve_left hgiven
    obtain rfl :=
      Option.some.inj (((hseated.waiting_iff hk').2 (Eq.refl _)).symm.trans hfirst.waiting)
    exact absurd hk' hfirst.place

/-- In the course of time no place is left behind, and none that was is given up. -/
theorem Seated.deserted_elapse_iff (h : e.Seated) (moment : Moment) :
    (e.elapse moment).1.Deserted key k ↔ e.Deserted key k := by
  have hclears : Clears False key e (e.elapse moment).1 := h.clears_elapse moment
  exact ⟨hclears.deserted, hclears.keeps not_false h⟩

/-- Taking a place leaves those alone that were left behind elsewhere. -/
theorem Takes.deserted_iff {waits : Bool} (h : Takes key' waits e e' effects)
    (hseated : e.Seated) : e'.Deserted key k ↔ e.Deserted key k ∧ key ≠ key' := by
  constructor
  · rintro ⟨hw, hplace⟩
    rw [h.waiting] at hw
    rw [h.place] at hplace
    split at hw
    · -- The new request is found in the place only if it waits there.
      rename_i heq
      split at hw
      · rename_i hwaits
        obtain rfl := Option.some.inj hw
        rw [if_pos rfl, if_pos hwaits, heq] at hplace
        exact absurd rfl hplace
      · cases hw
    · rename_i hne
      refine ⟨⟨hw, fun hk => hplace ?_⟩, hne⟩
      rw [if_neg (Nat.ne_of_lt (hseated.lt hw)), hk, if_neg]
      exact fun hsame => hne (Option.some.inj hsame)
  · rintro ⟨⟨hw, hplace⟩, hne⟩
    refine ⟨by rw [h.waiting, if_neg hne, hw], fun hk => ?_⟩
    rw [h.place, if_neg (Nat.ne_of_lt (hseated.lt hw))] at hk
    split at hk
    · cases hk
    · exact hplace hk

/-- Making a request takes one place, and leaves those alone that were left behind elsewhere. -/
theorem Seated.deserted_request_iff (h : e.Seated) (peer : Peer) (request : Request) :
    (e.request peer request).1.Deserted key k ↔
      e.Deserted key k ∧ ¬ e.Registers (.request peer request) key := by
  -- A request that gets no token changes nothing but the transmission.
  cases hrequest : (e.addToken request).2 with
  | error fault =>
    obtain ⟨transmission, hframe⟩ := numbered_frame request e
    have hnothing : ¬ e.Registers (.request peer request) key := by
      rintro ⟨peer', request', request'', heq, hok, -⟩
      obtain ⟨rfl, rfl⟩ := Event.request.inj heq
      cases hrequest.symm.trans hok
    rw [request_of_error peer hrequest, hframe, and_iff_left hnothing]
    exact ⟨fun h => ⟨h.waiting, h.place⟩, fun h => ⟨h.waiting, h.place⟩⟩
  | ok request' =>
    have hregisters : e.Registers (.request peer request) key ↔
        key = (peer, request'.message.token?.getD []) := by
      constructor
      · rintro ⟨peer', request'', request''', heq, hok, rfl⟩
        obtain ⟨rfl, rfl⟩ := Event.request.inj heq
        obtain rfl := Except.ok.inj (hrequest.symm.trans hok)
        rfl
      · exact fun hkey => ⟨peer, request, request', rfl, hrequest, hkey⟩
    obtain ⟨waits, htakes⟩ := exists_takes_request h peer hrequest
    rw [htakes.deserted_iff h, hregisters]

/-! ### Steps -/

/-- What an event does to a place that makes no request, calls none off and does not shut the
    endpoint down. Only a datagram of its peer may empty it for nobody. -/
theorem Seated.clears_step (h : e.Seated) {event : Event Peer}
    (hrequest : ∀ peer request, event ≠ .request peer request) (habandon : ∀ k, event ≠ .abandon k)
    (hshutdown : event ≠ .shutdown) :
    Clears (event.Involves key.1) key e (e.step event).1 := by
  -- Each step is what the event does, and then time passes up to now: both of them only clear
  -- places.
  cases event with
  | datagram peer bytes =>
    rw [step_datagram]
    have hreceive : Clears (Event.Involves key.1 (.datagram peer bytes)) key e
        (e.receive peer bytes).1 := h.clears_receive Eq.symm bytes
    exact hreceive.trans ((h.spares_receive 0 peer bytes).seated.clears_elapse _)
  | request peer request => exact absurd rfl (hrequest peer request)
  | abandon k => exact absurd rfl (habandon k)
  | respond responder response =>
    rw [step_respond]
    exact (idle_respond responder response e).clears.trans
      ((h.spares_respond 0 responder response).seated.clears_elapse _)
  | shutdown => exact absurd rfl hshutdown
  | sleep ms =>
    rw [step_sleep]
    dsimp only
    exact h.clears_advance ms

/-- A place is left behind only by a request that is called off. -/
theorem Seated.deserted_step (h : e.Seated) {event : Event Peer}
    (hlast : (e.step event).1.Deserted key k) :
    e.Deserted key k ∨ e.place? k = some key ∧ event = .abandon k := by
  -- Three kinds of events may do more to a place than empty it. One of them leaves somebody behind.
  by_cases hrequest : ∃ peer request, event = .request peer request
  · obtain ⟨peer, request, rfl⟩ := hrequest
    rw [step_request] at hlast
    have hmade := ((h.request peer request).deserted_elapse_iff _).1 hlast
    exact .inl ((h.deserted_request_iff peer request).1 hmade).1
  -- The place of the one that is called off is the only one that changes hands.
  by_cases habandon : ∃ k', event = .abandon k'
  · obtain ⟨k', rfl⟩ := habandon
    obtain ⟨hw, hplace⟩ := ((h.abandon k').deserted_elapse_iff _).1 hlast
    rw [place?_abandon] at hplace
    by_cases hk : e.place? k = some key
    · split at hplace
      · rename_i heq
        exact .inr ⟨hk, heq ▸ rfl⟩
      · exact absurd hk hplace
    · exact .inl ⟨hw, hk⟩
  -- To shut down empties all places.
  by_cases hshutdown : event = .shutdown
  · subst hshutdown
    rw [step_shutdown] at hlast
    cases (((seated_shutdown e).deserted_elapse_iff _).1 hlast).waiting
  · exact .inl ((h.clears_step (fun peer request heq => hrequest ⟨peer, request, heq⟩)
      (fun k' heq => habandon ⟨k', heq⟩) hshutdown).deserted hlast)

/-- Unless its peer is involved, a place that was left behind stays so. -/
theorem Seated.keeps_step (h : e.Seated) {event : Event Peer} (hpeer : ¬ event.Involves key.1)
    (hfirst : e.Deserted key k) : (e.step event).1.Deserted key k := by
  by_cases hrequest : ∃ peer request, event = .request peer request
  · obtain ⟨peer, request, rfl⟩ := hrequest
    rw [step_request]
    refine ((h.request peer request).deserted_elapse_iff _).2
      ((h.deserted_request_iff peer request).2 ⟨hfirst, ?_⟩)
    rintro ⟨peer', request', request'', heq, -, rfl⟩
    obtain ⟨rfl, rfl⟩ := Event.request.inj heq
    exact hpeer rfl
  -- To call off somebody gives no place to anybody.
  by_cases habandon : ∃ k', event = .abandon k'
  · obtain ⟨k', rfl⟩ := habandon
    refine ((h.abandon k').deserted_elapse_iff _).2
      ⟨hfirst.waiting, fun hk => hfirst.place ?_⟩
    rw [place?_abandon] at hk
    split at hk
    · cases hk
    · exact hk
  · exact (h.clears_step (fun peer request heq => hrequest ⟨peer, request, heq⟩)
      (fun k' heq => habandon ⟨k', heq⟩) fun heq => hpeer (heq ▸ trivial)).keeps hpeer h hfirst

/-- The place of a request that is called off is left behind. -/
theorem Seated.deserted_abandon (h : e.Seated) (hk : e.place? k = some key) :
    (e.step (.abandon k)).1.Deserted key k := by
  have hgone : (e.abandon k).place? k = none := by rw [place?_abandon, if_pos rfl]
  have hfirst : (e.abandon k).Deserted key k :=
    ⟨(h.waiting_iff hk).2 rfl, fun hk => by cases hgone.symm.trans hk⟩
  exact ((h.abandon k).deserted_elapse_iff _).2 hfirst

/-! ### Runs -/

theorem Deserted.run (hfirst : e.Deserted key k) (h : e.Seated) {events : List (Event Peer)}
    (hpeer : ∀ event ∈ events, ¬ event.Involves key.1) : (e.run events).1.Deserted key k := by
  induction events generalizing e with
  | nil => exact hfirst
  | cons event events ih =>
    exact ih (h.keeps_step (hpeer event List.mem_cons_self) hfirst) (h.step event)
      fun event' hevent' => hpeer event' (List.mem_cons_of_mem _ hevent')

/-- A request was called off in a run before it had ended. -/
def CalledOff (start : Endpoint Peer) (events : List (Event Peer)) (k : Nat) : Prop :=
  ∃ before after, events = before ++ .abandon k :: after ∧ start.Outstanding before k

theorem CalledOff.concat {start : Endpoint Peer} {events : List (Event Peer)}
    (h : start.CalledOff events k) (event : Event Peer) :
    start.CalledOff (events ++ [event]) k := by
  obtain ⟨before, after, rfl, hbefore⟩ := h
  exact ⟨before, after ++ [event], List.append_assoc _ _ _, hbefore⟩

theorem HasAsked.append {start : Endpoint Peer} {events : List (Event Peer)} {a : Asked Peer}
    (h : start.HasAsked events k a) (events' : List (Event Peer)) :
    start.HasAsked (events ++ events') k a := by
  obtain ⟨before, event, after, rfl, hasks⟩ := h
  exact ⟨before, event, after ++ events', List.append_assoc _ _ _, hasks⟩

section Runs

variable (service : Service Peer) (responseTimeout : Nat) (link : Link) (draws : Draws)
  (events : List (Event Peer))

/-- A request that is outstanding waits in the place of its peer and its token. -/
theorem Outstanding.place :
    let start : Endpoint Peer := { service, responseTimeout, link, transmission := { draws } }
    start.Outstanding events k → ∃ a, start.HasAsked events k a ∧
      (start.run events).1.place? k = some (a.peer, a.token) := by
  intro start hk
  obtain ⟨key, hplace⟩ : (start.run events).1.Waits k :=
    (waits_run_iff service responseTimeout link draws events k).2 hk
  obtain ⟨exchange, hlive, hkey⟩ := place?_eq_some_iff.1 hplace
  obtain ⟨a, hasked, hown, -⟩ := (ties_run service responseTimeout link draws events).live hlive
  exact ⟨a, hasked, hplace.trans (congrArg some (hkey.symm.trans hown))⟩

/-- Whoever has left a place behind was called off. -/
theorem deserted_run :
    let start : Endpoint Peer := { service, responseTimeout, link, transmission := { draws } }
    (start.run events).1.Deserted key k →
      (∃ a, start.HasAsked events k a ∧ key = (a.peer, a.token)) ∧ start.CalledOff events k := by
  intro start
  induction events using List.reverseRecOn with
  | nil => exact fun hnone => by cases hnone.waiting
  | append_singleton events event ih =>
    have hseated : (start.run events).1.Seated :=
      seated_run service responseTimeout link draws events
    rw [run_concat]
    intro hlast
    -- The place was left behind before, or its holder is called off now.
    rcases hseated.deserted_step hlast with hfirst | ⟨hplace, rfl⟩
    · obtain ⟨⟨a, hasked, hkey⟩, hoff⟩ := ih hfirst
      exact ⟨⟨a, hasked.append _, hkey⟩, hoff.concat event⟩
    · have hk : start.Outstanding events k :=
        (waits_run_iff service responseTimeout link draws events k).1 ⟨key, hplace⟩
      obtain ⟨a, hasked, hown⟩ := hk.place service responseTimeout link draws events
      exact ⟨⟨a, hasked.append _, Option.some.inj (hplace.symm.trans hown)⟩, events, [], rfl, hk⟩

/-- Who is found in a place was made to wait there, and has not ended. -/
theorem waiting_run :
    let start : Endpoint Peer := { service, responseTimeout, link, transmission := { draws } }
    (start.run events).1.waiting.find? key = some k →
      (∃ a, start.HasAsked events k a ∧ key = (a.peer, a.token)) ∧
        (start.Outstanding events k ∨ start.CalledOff events k) := by
  intro start hw
  by_cases hplace : (start.run events).1.place? k = some key
  · have hk : start.Outstanding events k :=
      (waits_run_iff service responseTimeout link draws events k).1 ⟨key, hplace⟩
    obtain ⟨a, hasked, hown⟩ := hk.place service responseTimeout link draws events
    exact ⟨⟨a, hasked, Option.some.inj (hplace.symm.trans hown)⟩, .inl hk⟩
  · obtain ⟨hasked, hoff⟩ :=
      deserted_run service responseTimeout link draws events ⟨hw, hplace⟩
    exact ⟨hasked, .inr hoff⟩

/-- The requests that were made and have not ended are finitely many. -/
theorem finite_outstanding_union :
    let start : Endpoint Peer := { service, responseTimeout, link, transmission := { draws } }
    ({k | start.Outstanding events k} ∪ {k | start.CalledOff events k}).Finite := by
  intro start
  have hbound : ∀ {k a}, start.HasAsked events k a → k < (start.run events).1.nextRequest :=
    fun hasked => ((ties_run service responseTimeout link draws events).bounds hasked).1
  refine (Set.finite_Iio (start.run events).1.nextRequest).subset ?_
  rintro k (hk | ⟨before, after, rfl, hk⟩)
  · obtain ⟨a, hasked, -⟩ := hk.place service responseTimeout link draws events
    exact hbound hasked
  · obtain ⟨a, hasked, -⟩ := hk.place service responseTimeout link draws before
    exact hbound (hasked.append _)

/-- No request is found in two places. -/
theorem nodup_waiting_run :
    let start : Endpoint Peer := { service, responseTimeout, link, transmission := { draws } }
    ((start.run events).1.waiting.toList.map Prod.snd).Nodup := by
  intro start
  refine List.Nodup.map_on ?_ (List.Nodup.of_map Prod.fst (start.run events).1.waiting.nodup)
  rintro ⟨key, k⟩ hmem ⟨key', k'⟩ hmem' (rfl : k = k')
  obtain ⟨⟨a, hasked, rfl⟩, -⟩ := waiting_run service responseTimeout link draws events
    (Table.mem_toList_iff.1 hmem)
  obtain ⟨⟨a', hasked', rfl⟩, -⟩ := waiting_run service responseTimeout link draws events
    (Table.mem_toList_iff.1 hmem')
  rw [HasAsked.unique hasked hasked']

/-- Who is found in the places of an endpoint. Each holds a request that was made there and has not
    ended, but which may have been called off. Every request that is outstanding is found in its
    place; and if it is called off then, it is still found there, whatever happens, until a message
    of the peer comes in, another request to the peer is made, or the endpoint is shut down. So
    there are no more places taken than there are requests that are outstanding or were called
    off. -/
theorem tenancy :
    let start : Endpoint Peer := { service, responseTimeout, link, transmission := { draws } }
    let e := (start.run events).1
    (∀ key k, e.waiting.find? key = some k →
      (∃ a, start.HasAsked events k a ∧ key = (a.peer, a.token)) ∧
        (start.Outstanding events k ∨ start.CalledOff events k)) ∧
      (∀ k, start.Outstanding events k → ∃ a, start.HasAsked events k a ∧
        e.waiting.find? (a.peer, a.token) = some k ∧
          ∀ after, (∀ event ∈ after, ¬ event.Involves a.peer) →
            (start.run (events ++ .abandon k :: after)).1.waiting.find? (a.peer, a.token) =
              some k) ∧
        e.waiting.size ≤
          {k | start.Outstanding events k}.ncard + {k | start.CalledOff events k}.ncard := by
  intro start e
  have hseated : e.Seated := seated_run service responseTimeout link draws events
  refine ⟨fun key k hw => waiting_run service responseTimeout link draws events hw,
    fun k hk => ?_, ?_⟩
  · -- An outstanding request is in its place, and left behind there once it is called off.
    obtain ⟨a, hasked, hplace⟩ := hk.place service responseTimeout link draws events
    refine ⟨a, hasked, (hseated.waiting_iff hplace).2 rfl, fun after hafter => ?_⟩
    have hleft : (e.step (.abandon k)).1.Deserted (a.peer, a.token) k :=
      hseated.deserted_abandon hplace
    rw [run_append]
    exact (hleft.run (hseated.step _) hafter).waiting
  · -- Nobody has two places, so there are as many places as there are requests found in them.
    have hsubset : ((e.waiting.toList.map Prod.snd).toFinset : Set Nat) ⊆
        {k | start.Outstanding events k} ∪ {k | start.CalledOff events k} := by
      intro k hk
      obtain ⟨⟨key, k⟩, hmem, rfl⟩ := List.mem_map.1 (List.mem_toFinset.1 hk)
      exact (waiting_run service responseTimeout link draws events
        (Table.mem_toList_iff.1 hmem)).2
    calc e.waiting.size
        = (e.waiting.toList.map Prod.snd).toFinset.card := by
          rw [List.toFinset_card_of_nodup
            (nodup_waiting_run service responseTimeout link draws events), List.length_map]
          rfl
      _ = ((e.waiting.toList.map Prod.snd).toFinset : Set Nat).ncard :=
          (Set.ncard_coe_finset _).symm
      _ ≤ ({k | start.Outstanding events k} ∪ {k | start.CalledOff events k}).ncard :=
          Set.ncard_le_ncard hsubset
            (finite_outstanding_union service responseTimeout link draws events)
      _ ≤ _ := Set.ncard_union_le _ _

end Runs

/-- A GET with the token 7 is called off. A second later it is still found in its place. -/
theorem tenancy_a_second_later :
    let start : Endpoint Unit := { service := .later }
    let options : Options :=
      ⟨[⟨.token, .octets [7], rfl, by decide, trivial⟩], by decide, by decide, by decide⟩
    let get : Request := ⟨{ type? := some .con, code := .get, id? := some 1, options }, rfl⟩
    let before : List (Event Unit) := [.request () get]
    let after : List (Event Unit) := [.sleep 1000]
    start.Outstanding before 0 ∧
      (start.run (before ++ .abandon 0 :: after)).1.waiting.find? ((), [7]) = some 0 := by
  intro start options get before after
  have hencode : get.message.encode = .ok [0x41, 1, 0, 1, 0xb1, 7] := by cbv
  have hrequest : (start.addToken get).2 = .ok get := rfl
  have hsend : (start.numbered get).transmission.send (start.numbered get).link () get.message =
      start.transmission.dispatch start.link () .con 1 [0x41, 1, 0, 1, 0xb1, 7] :=
    Transmission.send_of_encode rfl rfl rfl hencode rfl
  -- The run is named before it is taken apart, or else the evaluation below would unfold it in
  -- place.
  have hbefore : before = [.request () get] := rfl
  have hafter : ∀ event ∈ after, ¬ event.Involves () := by
    intro event hevent
    obtain rfl := List.mem_singleton.1 hevent
    exact not_false
  clear_value before after
  have hfound : ∀ k, start.Outstanding before k → ∃ a, start.HasAsked before k a ∧
      (start.run before).1.waiting.find? (a.peer, a.token) = some k ∧
        ∀ after, (∀ event ∈ after, ¬ event.Involves a.peer) →
          (start.run (before ++ .abandon k :: after)).1.waiting.find? (a.peer, a.token) = some k :=
    (tenancy .later 10000 {} {} before).2.1
  have hmade : start.run before =
      ((start.step (.request () get)).1, [(start.step (.request () get)).2]) := by
    rw [hbefore, run_singleton]
  rw [step_request, request_eq () hrequest, launch, hsend] at hmade
  have hends : (total (start.run before).2).ends 0 = [] := by
    rw [hmade]
    decide +kernel
  have htable : (start.run before).1.waiting.toList = [(((), [7]), 0)] := by
    rw [hmade]
    decide +kernel
  have houtstanding : start.Outstanding before 0 :=
    ⟨[], (), get, [], hbefore, rfl, List.not_mem_nil, hbefore ▸ hends⟩
  obtain ⟨a, -, hw, hlater⟩ := hfound 0 houtstanding
  have hmem := Table.mem_toList_iff.2 hw
  rw [htable] at hmem
  have hkey : (a.peer, a.token) = ((), [7]) := congrArg Prod.fst (List.mem_singleton.1 hmem)
  rw [← hkey]
  exact ⟨houtstanding, hlater after hafter⟩

/-- A GET with the token 7 is called off. Nobody waits then, but the place is taken. -/
theorem place_of_called_off :
    let start : Endpoint Unit := { service := .later }
    let options : Options :=
      ⟨[⟨.token, .octets [7], rfl, by decide, trivial⟩], by decide, by decide, by decide⟩
    let get : Request := ⟨{ type? := some .con, code := .get, id? := some 1, options }, rfl⟩
    let events : List (Event Unit) := [.request () get, .abandon 0]
    let e := (start.run events).1
    e.waiting.find? ((), [7]) = some 0 ∧ e.waiting.size = 1 ∧
      ∀ k, ¬ start.Outstanding events k := by
  intro start options get events e
  have hencode : get.message.encode = .ok [0x41, 1, 0, 1, 0xb1, 7] := by cbv
  have hrequest : (start.addToken get).2 = .ok get := rfl
  have hsend : (start.numbered get).transmission.send (start.numbered get).link () get.message =
      start.transmission.dispatch start.link () .con 1 [0x41, 1, 0, 1, 0xb1, 7] :=
    Transmission.send_of_encode rfl rfl rfl hencode rfl
  have hevents : events = [.request () get] ++ [.abandon 0] := rfl
  have he : e = (start.run events).1 := rfl
  have hwaits : ∀ k, (start.run events).1.Waits k ↔ start.Outstanding events k :=
    waits_run_iff .later 10000 {} {} events
  rw [← he] at hwaits
  clear_value e events
  rw [hevents, run_concat, run_singleton, step_request, request_eq () hrequest, launch,
    hsend] at he
  have hlive : e.live.keys = [] := by
    rw [he]
    decide +kernel
  refine ⟨?_, ?_, fun k hk => ?_⟩
  · rw [he]
    decide +kernel
  · rw [he]
    decide +kernel
  · -- Whoever is outstanding is alive, but nobody is.
    obtain ⟨key, hplace⟩ := (hwaits k).2 hk
    obtain ⟨exchange, hk', -⟩ := place?_eq_some_iff.1 hplace
    have hmem : k ∈ e.live.keys := List.mem_map_of_mem (Table.mem_toList_iff.2 hk')
    rw [hlive] at hmem
    exact List.not_mem_nil hmem

end Coap.Endpoint

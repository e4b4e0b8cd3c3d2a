import Coap.Proofs.Endpoint.Emission

/-!
# The lifetimes of requests

A request is outstanding from when it is made until it ends or is called off, which is told from
the events of a run and the ends that they brought about (`Endpoint.Outstanding`). The requests that
wait in an endpoint (`Endpoint.Waits`) are just these: whatever an endpoint does, a request that
ends does not wait any more, and one that waited and has not ended still waits (`Endpoint.Lasts`).

* `Endpoint.Lasts.trans`: one thing after another;
* `Endpoint.Seated.waits_step_iff`: which requests wait after an event;
* `Endpoint.waits_run_iff`: the requests that wait after a run are the outstanding ones.
-/

namespace Coap.Endpoint

variable {Peer : Type} [DecidableEq Peer]

/-- A request has been made, and has neither ended nor been called off. -/
def Waits (e : Endpoint Peer) (k : Nat) : Prop := ∃ key, e.place? k = some key

/-- Of the requests that waited those that have not ended still wait, and nobody else does. -/
def Lasts (k : Nat) (e e' : Endpoint Peer) (effects : Effects Peer) : Prop :=
  e'.Waits k ↔ e.Waits k ∧ effects.ends k = []

/-- An event makes a request with a number. -/
def Makes (e : Endpoint Peer) (event : Event Peer) (k : Nat) : Prop :=
  (∃ peer request, event = .request peer request) ∧ k = e.nextRequest

/-- A request was made in a run, and has neither ended nor been called off since. -/
def Outstanding (start : Endpoint Peer) (events : List (Event Peer)) (k : Nat) : Prop :=
  ∃ before peer request after, events = before ++ .request peer request :: after ∧
    k = (start.run before).1.nextRequest ∧ .abandon k ∉ after ∧
      (total ((start.run before).1.run (.request peer request :: after)).2).ends k = []

variable {e e' e'' : Endpoint Peer} {effects effects' : Effects Peer} {k : Nat}
  {key : Peer × Bytes}

/-! ### What lasts -/

omit [DecidableEq Peer] in
theorem not_waits_iff : ¬ e.Waits k ↔ e.place? k = none := by
  rw [Waits, not_exists, Option.eq_none_iff_forall_ne_some]

omit [DecidableEq Peer] in
theorem waits_congr (h : e'.place? k = e.place? k) : e'.Waits k ↔ e.Waits k := by
  rw [Waits, Waits, h]

omit [DecidableEq Peer] in
/-- A request that keeps its place and does not end lasts. -/
theorem lasts_of_place (hplace : e'.place? k = e.place? k) (hends : effects.ends k = []) :
    Lasts k e e' effects := by
  rw [Lasts, waits_congr hplace, hends]
  exact (and_iff_left rfl).symm

omit [DecidableEq Peer] in
/-- One thing after another, where more requests may have come to wait before. -/
theorem Lasts.after {P : Prop} (h' : Lasts k e' e'' effects')
    (h : e'.Waits k ↔ P ∧ effects.ends k = []) :
    e''.Waits k ↔ P ∧ (effects ++ effects').ends k = [] := by
  rw [Effects.ends_append, List.append_eq_nil_iff, ← and_assoc, ← h]
  exact h'

omit [DecidableEq Peer] in
/-- What lasts over two parts lasts over both. -/
theorem Lasts.trans (h : Lasts k e e' effects) (h' : Lasts k e' e'' effects') :
    Lasts k e e'' (effects ++ effects') :=
  h'.after h

theorem Spares.lasts (h : Spares k e e' effects) : Lasts k e e' effects := by
  by_cases hwaits : e.Waits k
  · obtain ⟨key, hk⟩ := hwaits
    rcases h.kept hk with ⟨hkept, hends⟩ | ⟨hgone, result, hends, -⟩
    · exact lasts_of_place (hkept.trans hk.symm) hends
    · refine iff_of_false (not_waits_iff.2 hgone) fun hnone => ?_
      cases hends.symm.trans hnone.2
  · obtain ⟨hgone, hends⟩ := h.ended (not_waits_iff.1 hwaits)
    exact lasts_of_place (hgone.trans (not_waits_iff.1 hwaits).symm) hends

omit [DecidableEq Peer] in
/-- A request that is abandoned does not wait any more; the others do as before. -/
theorem waits_abandon (k k' : Nat) (e : Endpoint Peer) :
    (e.abandon k').Waits k ↔ e.Waits k ∧ k ≠ k' := by
  rw [Waits, place?_abandon]
  split
  · rename_i heq
    exact iff_of_false (fun ⟨_, hnone⟩ => by cases hnone) fun h => h.2 heq
  · rename_i hne
    exact (and_iff_left hne).symm

omit [DecidableEq Peer] in
/-- The one request that ends does not wait any more. -/
theorem lasts_end {k' time : Nat} {result : Except (Failure Peer) Response}
    (hplace : ∀ k, e'.place? k = (e.abandon k').place? k)
    (hfinished : effects.finished = [⟨time, k', result⟩]) : Lasts k e e' effects := by
  rw [Lasts, waits_congr (hplace k), waits_abandon, Effects.ends_of_singleton hfinished]
  refine and_congr_right fun _ => ?_
  split
  · rename_i heq
    exact iff_of_false (fun hne => hne heq) fun hnil => by cases hnil
  · rename_i hne
    exact iff_of_true hne rfl

theorem lasts_withdraw (k : Nat) (exchange : Exchange Peer) (e : Endpoint Peer) :
    Lasts k e (e.withdraw exchange) {} := by
  obtain ⟨transmission, hframe⟩ := withdraw_frame exchange e
  rw [hframe]
  exact lasts_of_place rfl rfl

theorem lasts_close (k time : Nat) (waiter? : Option Nat) (e : Endpoint Peer) :
    Lasts k e (e.close time waiter?).1 (e.close time waiter?).2 := by
  cases waiter? with
  | none => exact lasts_of_place rfl rfl
  | some k' =>
    rw [close]
    split
    · exact lasts_of_place rfl rfl
    · rename_i exchange _
      have hend : Lasts k (e.withdraw exchange) ((e.withdraw exchange).abandon k')
          { finished := [⟨time, k', .error .closed⟩] } := lasts_end (fun _ => rfl) rfl
      exact (lasts_withdraw k exchange e).trans hend

theorem lasts_finish (k time k' : Nat) (exchange : Exchange Peer)
    (result : Except (Failure Peer) Response) (e : Endpoint Peer) :
    Lasts k e (e.finish time k' exchange result).1 (e.finish time k' exchange result).2 := by
  have hleave : Lasts k e { e.abandon k' with waiting := e.waiting.erase exchange.key }
      { finished := [⟨time, k', result⟩] } := lasts_end (fun _ => rfl) rfl
  exact hleave.trans (lasts_close k time (e.waiting.find? exchange.key) _)

theorem lasts_displace (k : Nat) (waiter? : Option Nat) (e : Endpoint Peer) :
    Lasts k e (e.displace waiter?).1 (e.displace waiter?).2 := by
  cases waiter? with
  | none => exact lasts_of_place rfl rfl
  | some k' =>
    rw [displace]
    split
    · exact lasts_of_place rfl rfl
    · rename_i exchange _
      exact (lasts_withdraw k exchange e).trans (lasts_finish k _ k' exchange _ _)

omit [DecidableEq Peer] in
/-- When an endpoint is shut down each request that waits ends. -/
theorem lasts_shutdown (k : Nat) (e : Endpoint Peer) : Lasts k e e.shutdown.1 e.shutdown.2 := by
  refine iff_of_false (fun ⟨_, hnone⟩ => by cases hnone) fun ⟨⟨key, hk⟩, hnone⟩ => ?_
  obtain ⟨exchange, hlive, -⟩ := place?_eq_some_iff.1 hk
  have hmem : ⟨e.link.now, k, .error .closed⟩ ∈ e.shutdown.2.finished :=
    List.mem_map.2 ⟨_, Table.mem_toList_iff.2 hlive, rfl⟩
  have hend := List.filterMap_eq_nil_iff.1 hnone _ hmem
  rw [if_pos rfl] at hend
  cases hend

/-! ### Making a request -/

/-- A request that is sent waits from then on, unless it ends at once. -/
theorem waits_launch {n : Nat} (hnew : ¬ e.Waits n) (k : Nat) (peer : Peer) (request : Request) :
    (e.launch n peer request).1.Waits k ↔
      (e.Waits k ∨ k = n) ∧ (e.launch n peer request).2.ends k = [] := by
  -- A message that is refused ends the request at once. Otherwise it waits, also if its message is
  -- sent only once.
  cases hresult : (e.transmission.send e.link peer request.message).result with
  | error failure =>
    rw [launch_of_error hresult, Effects.ends_of_singleton rfl]
    by_cases hk : k = n
    · rw [if_pos hk]
      exact iff_of_false (hk ▸ hnew) fun hnil => by cases hnil.2
    · rw [if_neg hk, or_iff_left hk]
      exact (and_iff_left rfl).symm
  | ok receipt =>
    obtain ⟨hlaunch, hsent⟩ := launch_of_ok (n := n) hresult
    have hidle := idle_resolveAll hsent (e.enter n (.ofReceipt peer request receipt)
      (e.transmission.send e.link peer request.message).transmission)
    rw [hlaunch]
    have hends : ∀ k, (({ emissions := (e.transmission.send e.link peer
        request.message).progress.emissions } : Effects Peer) ++ (resolveAll
          (e.transmission.send e.link peer request.message).progress.resolutions
            (e.enter n (.ofReceipt peer request receipt)
              (e.transmission.send e.link peer request.message).transmission)).2).ends k = [] := by
      intro k
      rw [Effects.ends_append, Effects.ends_of_nil hidle.finished]
      rfl
    rw [waits_congr (hidle.place k), hends, Waits, place?_enter]
    split
    · rename_i hk
      exact iff_of_true ⟨_, rfl⟩ ⟨.inr hk, rfl⟩
    · rename_i hk
      rw [or_iff_left hk]
      exact (and_iff_left rfl).symm

/-- A request that is made waits from then on, unless it ends at once, and whoever waited before
    waits on or ends. -/
theorem Seated.waits_request (h : e.Seated) (k : Nat) (peer : Peer) (request : Request) :
    (e.request peer request).1.Waits k ↔
      (e.Waits k ∨ k = e.nextRequest) ∧ (e.request peer request).2.ends k = [] := by
  have hnew : ¬ e.Waits e.nextRequest := fun ⟨_, hk⟩ => Nat.lt_irrefl _ (h.place_lt hk)
  obtain ⟨transmission, hframe⟩ := numbered_frame request e
  have hnumbered : ∀ k, (e.numbered request).Waits k ↔ e.Waits k := fun k => by
    rw [hframe]
    rfl
  -- Who is refused ends at once, and who is sent may be closed together with a predecessor.
  cases hrequest : (e.addToken request).2 with
  | error fault =>
    rw [request_of_error peer hrequest, Effects.ends_of_singleton rfl, hnumbered]
    by_cases hk : k = e.nextRequest
    · rw [if_pos hk]
      exact iff_of_false (hk ▸ hnew) fun hnil => by cases hnil.2
    · rw [if_neg hk, or_iff_left hk]
      exact (and_iff_left rfl).symm
  | ok request' =>
    rw [request_eq peer hrequest]
    have hlaunch := waits_launch (fun hk => hnew ((hnumbered _).1 hk)) k peer request'
    rw [hnumbered] at hlaunch
    exact (lasts_displace k _ _).after hlaunch

/-! ### Steps and runs -/

/-- Which requests wait after an event: those that waited before and the one that it makes, apart
    from the one that it calls off and from those that end. -/
theorem Seated.waits_step_iff (h : e.Seated) (event : Event Peer) (k : Nat) :
    (e.step event).1.Waits k ↔
      (e.Waits k ∧ event ≠ .abandon k ∨ e.Makes event k) ∧
        (e.step event).2.effects.ends k = [] := by
  -- A request may come to wait, one that is called off does not wait any more, the rest go on or
  -- end.
  by_cases hrequest : ∃ peer request, event = .request peer request
  · obtain ⟨peer, request, rfl⟩ := hrequest
    obtain ⟨late, heffects, hlate, -⟩ := h.rest_request peer request
    have hmakes : e.Makes (.request peer request) k ↔ k = e.nextRequest :=
      and_iff_right ⟨peer, request, rfl⟩
    rw [heffects, hmakes, and_iff_left fun heq => by cases heq]
    exact (hlate k).lasts.after (h.waits_request k peer request)
  · rw [or_iff_left fun hmakes : e.Makes event k => hrequest hmakes.1]
    by_cases habandon : event = .abandon k
    · subst habandon
      have hgone : (e.abandon k).place? k = none := by rw [place?_abandon, if_pos rfl]
      have hlast := (((h.abandon k).spares_elapse k (.endOf e.link.now)).ended hgone).1
      exact iff_of_false (not_waits_iff.2 hlast) fun hwaits => hwaits.1.2 rfl
    · rw [and_iff_left habandon]
      by_cases hshutdown : event = .shutdown
      · subst hshutdown
        exact (lasts_shutdown k e).trans ((seated_shutdown e).spares_elapse k _).lasts
      · have hother := fun peer request heq => hrequest ⟨peer, request, heq⟩
        exact (h.spares_step k hother habandon hshutdown).lasts

theorem not_outstanding_nil {start : Endpoint Peer} : ¬ start.Outstanding [] k := by
  rintro ⟨before, peer, request, after, heq, -⟩
  simp at heq

/-- A request is outstanding after an event if it was so before or is made by this, and was neither
    abandoned nor ended. -/
theorem outstanding_concat_iff {start : Endpoint Peer} {events : List (Event Peer)}
    {event : Event Peer} :
    start.Outstanding (events ++ [event]) k ↔
      (start.Outstanding events k ∧ event ≠ .abandon k ∨ (start.run events).1.Makes event k) ∧
        ((start.run events).1.step event).2.effects.ends k = [] := by
  have hrun : ∀ (e : Endpoint Peer) event, (total (e.run [event]).2).ends k =
      (e.step event).2.effects.ends k := fun e event => by
    rw [run_singleton]
    exact congrArg (Effects.ends k) (Effects.append_empty _)
  have hlast : ∀ (before after : List (Event Peer)) (peer : Peer) (request : Request),
      (total ((start.run before).1.run (.request peer request :: (after ++ [event]))).2).ends k =
        (total ((start.run before).1.run (.request peer request :: after)).2).ends k ++
          ((start.run (before ++ .request peer request :: after)).1.step
            event).2.effects.ends k := by
    intro before after peer request
    rw [← List.cons_append, run_concat_snd, total_concat, Effects.ends_append, run_append]
  constructor
  · rintro ⟨before, peer, request, after, heq, hk, habandon, hends⟩
    -- It is made by the last event, or it was made before.
    rcases after.eq_nil_or_concat with rfl | ⟨after', last, rfl⟩
    · obtain ⟨rfl, hevent⟩ := List.append_inj' heq rfl
      obtain rfl := List.singleton_inj.1 hevent
      exact ⟨.inr ⟨⟨peer, request, rfl⟩, hk⟩, (hrun _ _).symm.trans hends⟩
    · rw [List.concat_eq_append] at heq habandon hends
      rw [← List.cons_append, ← List.append_assoc] at heq
      obtain ⟨rfl, hevent⟩ := List.append_inj' heq rfl
      obtain rfl := List.singleton_inj.1 hevent
      rw [hlast, List.append_eq_nil_iff] at hends
      rw [List.mem_append, List.mem_singleton, not_or] at habandon
      exact ⟨.inl ⟨⟨before, peer, request, after', rfl, hk, habandon.1, hends.1⟩,
        Ne.symm habandon.2⟩, hends.2⟩
  · -- It was outstanding before, or the last event makes it.
    rintro ⟨⟨⟨before, peer, request, after, rfl, hk, habandon, hends⟩, hne⟩ |
      ⟨⟨peer, request, rfl⟩, hk⟩, hnow⟩
    · refine ⟨before, peer, request, after ++ [event], List.append_assoc _ _ _, hk, ?_, ?_⟩
      · rw [List.mem_append, List.mem_singleton, not_or]
        exact ⟨habandon, Ne.symm hne⟩
      · rw [hlast, hends, hnow]
        rfl
    · exact ⟨events, peer, request, [], rfl, hk, List.not_mem_nil, (hrun _ _).trans hnow⟩

/-- The requests that wait after a run are those that were made in it and have neither ended nor
    been called off. -/
theorem waits_run_iff (service : Service Peer) (responseTimeout : Nat) (link : Link)
    (draws : Draws) (events : List (Event Peer)) (k : Nat) :
    let start : Endpoint Peer := { service, responseTimeout, link, transmission := { draws } }
    (start.run events).1.Waits k ↔ start.Outstanding events k := by
  intro start
  induction events using List.reverseRecOn with
  | nil => exact iff_of_false (fun ⟨_, hnone⟩ => by cases hnone) not_outstanding_nil
  | append_singleton events event ih =>
    have hseated : (start.run events).1.Seated :=
      seated_run service responseTimeout link draws events
    rw [run_concat, hseated.waits_step_iff, outstanding_concat_iff, ih]

end Coap.Endpoint

import Coap.Proofs.Endpoint.Provenance

/-!
# The places of requests

A request that has not ended waits in a place of its own: under its peer and its token the endpoint
finds this request and no other one (`Endpoint.Seated`). Where a request is made the one that had
the place is closed with it. Apart from that no request loses its place because of another one, and
as long as the way out is open none is closed (`Endpoint.Spares`).

* `Endpoint.Leaves.spares`: the end of one request leaves all others alone;
* `Endpoint.Spares.trans`: one thing after another;
* `Endpoint.Seated.deliver`: a response in a message of its own ends the request in its place;
* `Endpoint.Seated.spares_elapse`: in the course of time no request is closed;
* `Endpoint.Seated.spares_step`: neither is one at an event that makes no request.
-/

namespace Coap

variable {Peer : Type}

/-- How a request ends, with one entry for each time that it does. -/
def Effects.ends (k : Nat) (effects : Effects Peer) : List (Except (Failure Peer) Response) :=
  effects.finished.filterMap fun f => if f.request = k then some f.result else none

namespace Effects

theorem ends_append (k : Nat) (a b : Effects Peer) : (a ++ b).ends k = a.ends k ++ b.ends k :=
  List.filterMap_append

theorem append_empty (effects : Effects Peer) : effects ++ ({} : Effects Peer) = effects :=
  congr (congr (congrArg mk (List.append_nil _)) (List.append_nil _)) (List.append_nil _)

theorem ends_of_nil {k : Nat} {effects : Effects Peer} (h : effects.finished = []) :
    effects.ends k = [] := by
  rw [ends, h]
  rfl

theorem ends_of_singleton {k' time : Nat} {result : Except (Failure Peer) Response}
    {effects : Effects Peer} (h : effects.finished = [⟨time, k', result⟩]) (k : Nat) :
    effects.ends k = if k = k' then [result] else [] := by
  rw [ends, h, List.filterMap_cons]
  by_cases heq : k' = k
  · rw [if_pos heq, if_pos heq.symm]
    rfl
  · rw [if_neg heq, if_neg (Ne.symm heq)]
    rfl

end Effects

namespace Endpoint

/-- Where a request that has not ended waits for a response in a message of its own. -/
def place? (k : Nat) (e : Endpoint Peer) : Option (Peer × Bytes) :=
  (e.live.find? k).map Exchange.key

/-- The place of a live request is its key. -/
theorem place?_eq_some_iff {k : Nat} {key : Peer × Bytes} {e : Endpoint Peer} :
    e.place? k = some key ↔ ∃ exchange, e.live.find? k = some exchange ∧ exchange.key = key :=
  Option.map_eq_some_iff

theorem place?_eq_none_iff {k : Nat} {e : Endpoint Peer} :
    e.place? k = none ↔ e.live.find? k = none :=
  Option.map_eq_none_iff

/-- A request that is abandoned has no place any more. -/
theorem place?_abandon (k k' : Nat) (e : Endpoint Peer) :
    (e.abandon k).place? k' = if k' = k then none else e.place? k' := by
  rw [place?, place?, abandon, Table.find?_erase]
  split <;> rfl

variable [DecidableEq Peer]

/-- Every request that has not ended has its place to itself. -/
structure Seated (e : Endpoint Peer) : Prop where
  isOpen : ∀ {k key}, e.place? k = some key → e.link.isOpen
  lt : ∀ {k key}, e.waiting.find? key = some k → k < e.nextRequest
  waiting_iff : ∀ {k key key'}, e.place? k = some key →
    (e.waiting.find? key' = some k ↔ key' = key)

/-- What becomes of a request while all requests stay seated: it keeps its place, or it ends once
    and is not closed. If it had ended already, nothing does. -/
structure Spares (k : Nat) (e e' : Endpoint Peer) (effects : Effects Peer) : Prop where
  seated : e'.Seated
  isOpen : e'.link.isOpen = e.link.isOpen
  nextRequest : e.nextRequest ≤ e'.nextRequest
  kept : ∀ {key}, e.place? k = some key →
    e'.place? k = some key ∧ effects.ends k = [] ∨
      e'.place? k = none ∧ ∃ result, effects.ends k = [result] ∧ result ≠ .error .closed
  ended : e.place? k = none → e'.place? k = none ∧ effects.ends k = []

/-- Nothing happens to the requests. -/
structure Idle (e e' : Endpoint Peer) (effects : Effects Peer) : Prop where
  isOpen : e'.link.isOpen = e.link.isOpen
  nextRequest : e'.nextRequest = e.nextRequest
  place : ∀ k, e'.place? k = e.place? k
  waiting : e'.waiting = e.waiting
  finished : effects.finished = []

/-- A request ends and leaves its place. -/
structure Leaves (k : Nat) (key : Peer × Bytes) (result : Except (Failure Peer) Response)
    (e e' : Endpoint Peer) (effects : Effects Peer) : Prop where
  isOpen : e'.link.isOpen = e.link.isOpen
  nextRequest : e'.nextRequest = e.nextRequest
  place : ∀ k', e'.place? k' = if k' = k then none else e.place? k'
  waiting : ∀ key', e'.waiting.find? key' = if key' = key then none else e.waiting.find? key'
  finished : ∃ time, effects.finished = [⟨time, k, result⟩]

variable {e e' e'' : Endpoint Peer} {effects effects' : Effects Peer} {k : Nat}
  {key : Peer × Bytes} {result : Except (Failure Peer) Response}

/-- Two requests do not wait in one place. -/
theorem Seated.unique (h : e.Seated) {k' : Nat} (hk : e.place? k = some key)
    (hk' : e.place? k' = some key) : k = k' :=
  Option.some.inj (((h.waiting_iff hk).2 rfl).symm.trans ((h.waiting_iff hk').2 rfl))

/-- Whoever is found in a place where nobody waits does not wait any more. -/
theorem Seated.gone_of_vacant (h : e.Seated) (hvacant : ∀ k, e.place? k ≠ some key)
    (hk : e.waiting.find? key = some k) : e.live.find? k = none := by
  refine place?_eq_none_iff.1 (Option.eq_none_iff_forall_ne_some.2 fun key' hplace => ?_)
  obtain rfl := (h.waiting_iff hplace).1 hk
  exact hvacant k hplace

/-- Requests that have a place were numbered before. -/
theorem Seated.place_lt (h : e.Seated) (hk : e.place? k = some key) : k < e.nextRequest :=
  h.lt ((h.waiting_iff hk).2 rfl)

omit [DecidableEq Peer] in
theorem Idle.rfl : Idle e e {} := ⟨Eq.refl _, Eq.refl _, fun _ => Eq.refl _, Eq.refl _, Eq.refl _⟩

omit [DecidableEq Peer] in
theorem Idle.trans (h : Idle e e' effects) (h' : Idle e' e'' effects') :
    Idle e e'' (effects ++ effects') where
  isOpen := h'.isOpen.trans h.isOpen
  nextRequest := h'.nextRequest.trans h.nextRequest
  place k := (h'.place k).trans (h.place k)
  waiting := h'.waiting.trans h.waiting
  finished := List.append_eq_nil_iff.2 ⟨h.finished, h'.finished⟩

theorem Seated.spares_of_idle (h : e.Seated) (k : Nat) (hidle : Idle e e' effects) :
    Spares k e e' effects where
  seated := {
    isOpen := fun hk => hidle.isOpen ▸ h.isOpen (hidle.place _ ▸ hk)
    lt := fun hw => hidle.nextRequest ▸ h.lt (hidle.waiting ▸ hw)
    waiting_iff := fun hk => hidle.waiting ▸ h.waiting_iff (hidle.place _ ▸ hk) }
  isOpen := hidle.isOpen
  nextRequest := Nat.le_of_eq hidle.nextRequest.symm
  kept hk := .inl ⟨(hidle.place k).trans hk, Effects.ends_of_nil hidle.finished⟩
  ended hk := ⟨(hidle.place k).trans hk, Effects.ends_of_nil hidle.finished⟩

theorem Seated.spares (h : e.Seated) (k : Nat) : Spares k e e {} :=
  h.spares_of_idle k .rfl

/-- What is spared by two parts is spared by both. -/
theorem Spares.trans (h : Spares k e e' effects) (h' : Spares k e' e'' effects') :
    Spares k e e'' (effects ++ effects') where
  seated := h'.seated
  isOpen := h'.isOpen.trans h.isOpen
  nextRequest := Nat.le_trans h.nextRequest h'.nextRequest
  kept hk := by
    rw [Effects.ends_append]
    -- It is kept by the first part, or it ends there and has no end in the second one.
    rcases h.kept hk with ⟨hmid, hends⟩ | ⟨hmid, result, hends, hresult⟩
    · rw [hends, List.nil_append]
      exact h'.kept hmid
    · obtain ⟨hlast, hends'⟩ := h'.ended hmid
      rw [hends, hends', List.append_nil]
      exact .inr ⟨hlast, result, rfl, hresult⟩
  ended hk := by
    obtain ⟨hmid, hends⟩ := h.ended hk
    obtain ⟨hlast, hends'⟩ := h'.ended hmid
    exact ⟨hlast, by rw [Effects.ends_append, hends, hends', List.append_nil]⟩

/-- First nothing is brought about. -/
theorem Spares.after (h : Spares k e e' {}) (h' : Spares k e' e'' effects) :
    Spares k e e'' effects :=
  h.trans h'

/-- It does not matter what else is brought about, apart from the ends of requests. -/
theorem Spares.congr (h : Spares k e e' effects)
    (hfinished : effects'.finished = effects.finished) : Spares k e e' effects' := by
  have hends : effects'.ends k = effects.ends k := by rw [Effects.ends, Effects.ends, hfinished]
  exact ⟨h.seated, h.isOpen, h.nextRequest, hends ▸ h.kept, hends ▸ h.ended⟩

/-- A place where nobody waits is left empty. -/
theorem Seated.spares_vacate (h : e.Seated) (k : Nat) (hvacant : ∀ k', e.place? k' ≠ some key) :
    Spares k e { e with waiting := e.waiting.erase key } {} where
  seated := {
    isOpen := h.isOpen
    lt := fun hw => by
      rw [Table.find?_erase] at hw
      split at hw
      · cases hw
      · exact h.lt hw
    waiting_iff := fun {k' key' key''} hk' => by
      rw [Table.find?_erase, ← h.waiting_iff hk']
      -- Nobody who is still there has this place, so that the others are found as before.
      split
      · rename_i heq
        rw [heq]
        refine iff_of_false (fun hnone => by cases hnone) fun hw => hvacant k' ?_
        rw [(h.waiting_iff hk').1 hw]
        exact hk'
      · exact Iff.rfl }
  isOpen := rfl
  nextRequest := Nat.le_refl _
  kept hk := .inl ⟨hk, rfl⟩
  ended hk := ⟨hk, rfl⟩

/-! ### The end of a request -/

/-- Whoever ends leaves all others where they are. -/
theorem Leaves.seated (h : Leaves k key result e e' effects) (hseated : e.Seated)
    (hk : e.place? k = some key) : e'.Seated := by
  have hplace : ∀ {k' key'}, e'.place? k' = some key' → k' ≠ k ∧ e.place? k' = some key' := by
    intro k' key' hk'
    rw [h.place] at hk'
    split at hk'
    · cases hk'
    · rename_i hne
      exact ⟨hne, hk'⟩
  constructor
  case isOpen =>
    intro k' key' hk'
    rw [h.isOpen]
    exact hseated.isOpen (hplace hk').2
  case lt =>
    intro k' key' hw
    rw [h.waiting] at hw
    rw [h.nextRequest]
    split at hw
    · cases hw
    · exact hseated.lt hw
  case waiting_iff =>
    intro k' key' key'' hk'
    obtain ⟨hne, hbefore⟩ := hplace hk'
    rw [h.waiting, ← hseated.waiting_iff hbefore]
    split
    · -- Somebody else waited in this place.
      rename_i heq
      rw [heq, (hseated.waiting_iff hk).2 rfl]
      exact iff_of_false (fun hnone => by cases hnone) fun hsame => hne (Option.some.inj hsame).symm
    · exact Iff.rfl

/-- Only the request that leaves ends. -/
theorem Leaves.ends (h : Leaves k key result e e' effects) (k' : Nat) :
    effects.ends k' = if k' = k then [result] else [] := by
  obtain ⟨time, hfinished⟩ := h.finished
  exact Effects.ends_of_singleton hfinished k'

/-- The end of a request spares the others, and itself unless it is closed. -/
theorem Leaves.spares (h : Leaves k key result e e' effects) (hseated : e.Seated)
    (hk : e.place? k = some key) {k' : Nat} (hresult : k' = k → result ≠ .error .closed) :
    Spares k' e e' effects := by
  refine ⟨h.seated hseated hk, h.isOpen, Nat.le_of_eq h.nextRequest.symm, fun hk' => ?_,
    fun hk' => ?_⟩
  · rw [h.place, h.ends]
    -- The one that leaves has its end, and all others are left as they were.
    by_cases heq : k' = k
    · rw [if_pos heq, if_pos heq]
      exact .inr ⟨rfl, result, rfl, hresult heq⟩
    · rw [if_neg heq, if_neg heq]
      exact .inl ⟨hk', rfl⟩
  · have hne : k' ≠ k := by
      rintro rfl
      cases hk'.symm.trans hk
    rw [h.place, h.ends, if_neg hne, if_neg hne]
    exact ⟨hk', rfl⟩

theorem withdraw_frame (exchange : Exchange Peer) (e : Endpoint Peer) :
    ∃ transmission, e.withdraw exchange = { e with transmission } := by
  rw [withdraw]
  split
  · exact ⟨_, rfl⟩
  · exact ⟨e.transmission, rfl⟩

/-- Whoever ends closes nobody else if nobody else is found in the place. -/
theorem finish_eq {exchange : Exchange Peer}
    (h : ∀ k', e.waiting.find? exchange.key = some k' → k' = k) (time : Nat)
    (result : Except (Failure Peer) Response) :
    e.finish time k exchange result =
      ({ e.abandon k with waiting := e.waiting.erase exchange.key },
        { finished := [⟨time, k, result⟩] }) := by
  rw [finish]
  dsimp only
  -- Whoever is found there is the one that ends, if anybody is.
  cases hw : e.waiting.find? exchange.key with
  | none => rfl
  | some k' =>
    obtain rfl := h k' hw
    rw [close]
    dsimp only
    rw [abandon, Table.find?_erase, if_pos rfl]
    rfl

theorem leaves_finish {exchange : Exchange Peer}
    (h : ∀ k', e.waiting.find? exchange.key = some k' → k' = k) (time : Nat)
    (result : Except (Failure Peer) Response) :
    Leaves k exchange.key result e (e.finish time k exchange result).1
      (e.finish time k exchange result).2 := by
  rw [finish_eq h]
  exact ⟨rfl, rfl, fun k' => place?_abandon k k' e, Table.find?_erase _ _, time, rfl⟩

theorem leaves_withdraw_finish (exchange : Exchange Peer)
    (h : ∀ k', e.waiting.find? exchange.key = some k' → k' = k) (time : Nat)
    (result : Except (Failure Peer) Response) :
    Leaves k exchange.key result e ((e.withdraw exchange).finish time k exchange result).1
      ((e.withdraw exchange).finish time k exchange result).2 := by
  obtain ⟨transmission, hframe⟩ := withdraw_frame exchange e
  have hfinish := leaves_finish (e := { e with transmission }) h time result
  rw [hframe]
  exact ⟨hfinish.isOpen, hfinish.nextRequest, hfinish.place, hfinish.waiting, hfinish.finished⟩

/-- The end of a request that has its place to itself. -/
theorem Seated.finish (h : e.Seated) {exchange : Exchange Peer}
    (hk : e.live.find? k = some exchange) (time : Nat)
    (result : Except (Failure Peer) Response) :
    Leaves k exchange.key result e (e.finish time k exchange result).1
      (e.finish time k exchange result).2 := by
  have hwaiting := (h.waiting_iff (place?_eq_some_iff.2 ⟨exchange, hk, rfl⟩)).2 rfl
  exact leaves_finish (fun k' hk' => Option.some.inj (hk'.symm.trans hwaiting)) time result

/-- A request that ends spares everybody, if it is not closed. -/
theorem Seated.spares_finish (h : e.Seated) (k : Nat) {k' : Nat} {exchange : Exchange Peer}
    (hk : e.live.find? k' = some exchange) (time : Nat)
    (result : Except (Failure Peer) Response) (hresult : result ≠ .error .closed) :
    Spares k e (e.finish time k' exchange result).1 (e.finish time k' exchange result).2 :=
  (h.finish hk time result).spares h (place?_eq_some_iff.2 ⟨exchange, hk, rfl⟩) fun _ => hresult

omit [DecidableEq Peer] in
/-- A request that goes on to its next phase keeps its place. -/
theorem idle_await {exchange : Exchange Peer} (hk : e.live.find? k = some exchange) (time : Nat) :
    Idle e (e.await time k exchange) {} where
  isOpen := rfl
  nextRequest := rfl
  place k' := by
    rw [place?, place?, await, Table.find?_insert]
    split
    · rename_i heq
      rw [heq, hk]
      rfl
    · rfl
  waiting := rfl
  finished := rfl

/-- Messages that are sent end no request. -/
theorem idle_resolveAll {rs : List (Resolution Peer)} (h : ∀ r ∈ rs, r.outcome = .sent)
    (e : Endpoint Peer) : Idle e (e.resolveAll rs).1 (e.resolveAll rs).2 := by
  induction rs generalizing e with
  | nil => exact .rfl
  | cons r rs ih =>
    have hfirst : Idle e (e.resolve r).1 (e.resolve r).2 := by
      rw [resolve, h r List.mem_cons_self]
      cases howner : e.owner? r.ticket with
      | none => exact .rfl
      | some owner => exact idle_await (owner?_eq_some howner).1 r.time
    exact hfirst.trans (ih (fun r' hr' => h r' (List.mem_cons_of_mem _ hr')) _)

/-- The end of a message may end the request that it carries, but it does not close it. -/
theorem Seated.spares_resolve (h : e.Seated) (k : Nat) (r : Resolution Peer)
    (hclosed : r.outcome = .failed .closed → ¬ e.link.isOpen) :
    Spares k e (e.resolve r).1 (e.resolve r).2 := by
  rw [resolve]
  cases howner : e.owner? r.ticket with
  -- A message that carries no request ends none.
  | none => exact h.spares _
  | some owner =>
    obtain ⟨k', exchange⟩ := owner
    have hk' := (owner?_eq_some howner).1
    have hawait : Spares k e (e.await r.time k' exchange) {} :=
      h.spares_of_idle k (idle_await hk' r.time)
    dsimp only
    cases houtcome : r.outcome with
    | sent => exact hawait
    | acknowledged m =>
      dsimp only
      -- An empty acknowledgement leaves the request waiting. Any other one ends it, with a response
      -- or a fault.
      split
      · exact hawait
      · refine h.spares_finish k hk' _ _ ?_
        cases Response.ofMessage m <;> exact fun heq => by cases heq
    | reset => exact h.spares_finish k hk' _ (.error _) fun heq => by cases heq
    | failed failure =>
      -- It is closed only if the message was, which needs a link that is not open.
      refine h.spares_finish k hk' _ (.error failure) fun heq => ?_
      obtain rfl := Except.error.inj heq
      exact hclosed houtcome (h.isOpen (place?_eq_some_iff.2 ⟨exchange, hk', rfl⟩))

theorem Seated.spares_resolveAll (h : e.Seated) (k : Nat) {rs : List (Resolution Peer)}
    (hclosed : ∀ r ∈ rs, r.outcome = .failed .closed → ¬ e.link.isOpen) :
    Spares k e (e.resolveAll rs).1 (e.resolveAll rs).2 := by
  induction rs generalizing e with
  | nil => exact h.spares _
  | cons r rs ih =>
    have hfirst := h.spares_resolve k r (hclosed r List.mem_cons_self)
    refine hfirst.trans (ih hfirst.seated fun r' hr' houtcome => ?_)
    rw [hfirst.isOpen]
    exact hclosed r' (List.mem_cons_of_mem _ hr') houtcome

/-! ### Time -/

theorem Seated.spares_expire (h : e.Seated) (k : Nat) (moment : Moment) (k' : Nat) :
    Spares k e (e.expire moment k').1 (e.expire moment k').2 := by
  rw [expire]
  split
  · exact h.spares _
  · rename_i exchange hk'
    split
    · exact h.spares _
    · split
      · exact h.spares_finish k hk' _ (.error .noResponse) fun heq => by cases heq
      · exact h.spares _

theorem Seated.spares_expireAll (h : e.Seated) (k : Nat) (moment : Moment) (ks : List Nat) :
    Spares k e (e.expireAll moment ks).1 (e.expireAll moment ks).2 := by
  induction ks generalizing e with
  | nil => exact h.spares _
  | cons k' ks ih =>
    have hfirst := h.spares_expire k moment k'
    exact hfirst.trans (ih hfirst.seated)

/-- In the course of time no request is closed. -/
theorem Seated.spares_elapse (h : e.Seated) (k : Nat) (moment : Moment) :
    Spares k e (e.elapse moment).1 (e.elapse moment).2 := by
  have hclosed : ∀ r ∈ (e.transmission.elapse e.link moment).2.resolutions,
      r.outcome = .failed .closed → ¬ e.link.isOpen := by
    intro r hr houtcome
    obtain ⟨failure, hfailed, hclosed⟩ := Transmission.failed_of_mem_elapse hr
    exact hclosed (Outcome.failed.inj (hfailed.symm.trans houtcome))
  have htime : Spares k e { e with
      reception := (e.reception.elapse e.link moment).1
      transmission := (e.transmission.elapse e.link moment).1 } {} :=
    h.spares_of_idle k ⟨rfl, rfl, fun _ => rfl, rfl, rfl⟩
  rw [elapse]
  generalize e.transmission.elapse e.link moment = transmitted at *
  have hresolved := htime.seated.spares_resolveAll k hclosed
  exact (htime.after (hresolved.trans (hresolved.seated.spares_expireAll k moment _))).congr rfl

theorem Seated.spares_purges (h : e.Seated) (k : Nat) (first count : Nat) :
    Spares k e (e.purges first count).1 (e.purges first count).2 := by
  induction count generalizing first e with
  | zero => exact h.spares _
  | succ count ih =>
    have helapse := h.spares_elapse k ⟨first * e.link.timing.purgeInterval,
      first * e.link.timing.purgeInterval - e.link.timing.purgeInterval⟩
    rw [purges]
    dsimp only
    generalize e.elapse _ = elapsed at *
    have hpurge : Spares k elapsed.1 (elapsed.1.purge (first * e.link.timing.purgeInterval)) {} :=
      helapse.seated.spares_of_idle k ⟨rfl, rfl, fun _ => rfl, rfl, rfl⟩
    exact helapse.trans (hpurge.after (ih hpurge.seated (first + 1)))

theorem Seated.spares_advance (h : e.Seated) (k : Nat) (ms : Nat) :
    Spares k e (e.advance ms).1 (e.advance ms).2 := by
  have hpurges := h.spares_purges k (e.link.now / e.link.timing.purgeInterval + 1)
    (purgeCount e.link e.link.now (e.link.now + ms))
  rw [advance]
  generalize e.purges (e.link.now / e.link.timing.purgeInterval + 1)
    (purgeCount e.link e.link.now (e.link.now + ms)) = purged at *
  obtain ⟨e', first⟩ := purged
  have helapse := hpurges.seated.spares_elapse k (.endOf (e.link.now + ms))
  dsimp only at helapse ⊢
  generalize e'.elapse (.endOf (e.link.now + ms)) = elapsed at *
  obtain ⟨e'', rest⟩ := elapsed
  have hclock : Spares k e'' { e'' with link := { e''.link with now := e.link.now + ms } } {} :=
    helapse.seated.spares_of_idle k ⟨rfl, rfl, fun _ => rfl, rfl, rfl⟩
  exact ((hpurges.trans helapse).trans hclock).congr (List.append_nil _).symm

/-- What still happens within the time of an event closes no request, and nobody comes to wait
    then. -/
theorem Seated.rest (h : e.Seated) (answer : Answer Peer) (effects : Effects Peer) :
    ∃ late, (e.settle answer effects).2.effects = effects ++ late ∧
      (∀ k, Spares k e (e.settle answer effects).1 late) ∧
        ∀ key, e.waiting.find? key = none →
          (e.settle answer effects).1.waiting.find? key = none := by
  refine ⟨_, effects_settle answer effects e, fun k => h.spares_elapse k _, fun key hnone => ?_⟩
  refine Option.eq_none_iff_forall_ne_some.2 fun k hk => ?_
  cases hnone.symm.trans ((e.recedes_elapse (.endOf e.link.now)).waiting hk)

theorem Seated.settle (h : e.Seated) (answer : Answer Peer) (effects : Effects Peer) :
    (e.settle answer effects).1.Seated :=
  (h.spares_elapse 0 _).seated

theorem Spares.settle (h : Spares k e e' effects) (answer : Answer Peer) :
    Spares k e (e'.settle answer effects).1 (e'.settle answer effects).2.effects :=
  h.trans (h.seated.spares_elapse k _)

/-! ### Responses -/

theorem idle_respond (responder : Responder Peer) (response : Response) (e : Endpoint Peer) :
    Idle e (e.respond responder response).1 (e.respond responder response).2.1 := by
  rw [respond]
  split
  · exact .rfl
  · exact ⟨rfl, rfl, fun _ => rfl, rfl, rfl⟩

theorem Seated.spares_respond (h : e.Seated) (k : Nat) (responder : Responder Peer)
    (response : Response) :
    Spares k e (e.respond responder response).1 (e.respond responder response).2.1 :=
  h.spares_of_idle k (idle_respond responder response e)

theorem Seated.spares_dispatch (h : e.Seated) (k : Nat) (peer : Peer) (request : Request) :
    Spares k e (e.dispatch peer request).1 (e.dispatch peer request).2 := by
  rw [dispatch]
  split
  · exact (h.spares _).congr rfl
  · rename_i response _
    exact (h.spares_respond k _ response).congr rfl

/-- A response in a message of its own ends the request in its place with it. -/
theorem Seated.deliver (h : e.Seated) {peer : Peer} (response : Response)
    (hk : e.place? k = some (peer, response.message.token?.getD [])) :
    Leaves k (peer, response.message.token?.getD []) (.ok response) e
      (e.deliver peer response).1 (e.deliver peer response).2 := by
  obtain ⟨exchange, hlive, hkey⟩ := place?_eq_some_iff.1 hk
  rw [Endpoint.deliver]
  dsimp only
  rw [(h.waiting_iff hk).2 rfl]
  dsimp only
  rw [hlive]
  dsimp only
  rw [← hkey]
  -- The place is left already when the request ends.
  have hempty : ∀ k', (e.waiting.erase exchange.key).find? exchange.key = some k' → k' = k := by
    intro k' hk'
    rw [Table.find?_erase, if_pos rfl] at hk'
    cases hk'
  have hfinish := leaves_withdraw_finish (e := { e with waiting := e.waiting.erase exchange.key })
    exchange hempty e.link.now (.ok response)
  refine ⟨hfinish.isOpen, hfinish.nextRequest, hfinish.place, fun key' => ?_, hfinish.finished⟩
  rw [hfinish.waiting, Table.find?_erase]
  split <;> rfl

/-- No request is closed by a separate response. -/
theorem Seated.spares_deliver (h : e.Seated) (k : Nat) (peer : Peer) (response : Response) :
    Spares k e (e.deliver peer response).1 (e.deliver peer response).2 := by
  by_cases hplace : ∃ k', e.place? k' = some (peer, response.message.token?.getD [])
  · obtain ⟨k', hk'⟩ := hplace
    exact (h.deliver response hk').spares h hk' fun _ heq => by cases heq
  · -- If anybody is found there, it has ended before.
    rw [Endpoint.deliver]
    dsimp only
    cases hw : e.waiting.find? (peer, response.message.token?.getD []) with
    | none => exact h.spares _
    | some k' =>
      dsimp only
      rw [h.gone_of_vacant (not_exists.1 hplace) hw]
      exact h.spares_vacate k (not_exists.1 hplace)

/-! ### Receiving -/

/-- An answer of a peer is no failure. -/
theorem Transmission.ne_failed_of_mem_receive {link : Link} {peer : Peer} {m : Message}
    {t : Transmission Peer} {r : Resolution Peer} (hr : r ∈ (t.receive link peer m).2.toList)
    (failure : Failure Peer) : r.outcome ≠ .failed failure := by
  intro hfailed
  obtain ⟨hanswers, -⟩ := Transmission.receive_eq_some (Option.mem_toList.1 hr)
  rw [hfailed] at hanswers
  cases hanswers

theorem Seated.spares_handOn (h : e.Seated) (k : Nat) (verdict : Verdict) (peer : Peer)
    (m : Message) : Spares k e (e.handOn verdict peer m).1 (e.handOn verdict peer m).2 := by
  cases verdict with
  | duplicate => exact h.spares _
  | forward =>
    rw [handOn]
    split
    · exact h.spares_dispatch k peer _
    · split
      · exact h.spares_deliver k peer _
      · exact h.spares _

theorem Seated.spares_accept (h : e.Seated) (k : Nat) (peer : Peer) (m : Message) :
    Spares k e (e.accept peer m).1 (e.accept peer m).2 := by
  have hacks : Spares k e
      (resolveAll (e.transmission.receive e.link peer m).2.toList
        { e with transmission := (e.transmission.receive e.link peer m).1 }).1
      (resolveAll (e.transmission.receive e.link peer m).2.toList
        { e with transmission := (e.transmission.receive e.link peer m).1 }).2 := by
    have hreceive : Spares k e
        { e with transmission := (e.transmission.receive e.link peer m).1 } {} :=
      h.spares_of_idle k ⟨rfl, rfl, fun _ => rfl, rfl, rfl⟩
    exact hreceive.after (hreceive.seated.spares_resolveAll k fun r hr hfailed =>
      absurd hfailed (Transmission.ne_failed_of_mem_receive hr _))
  have hreception : Spares k e
      { e with reception := (e.reception.receive e.link peer m).reception } {} :=
    h.spares_of_idle k ⟨rfl, rfl, fun _ => rfl, rfl, rfl⟩
  have hhand := (hreception.after (hreception.seated.spares_handOn k
    (e.reception.receive e.link peer m).verdict peer m))
  -- Answers end messages, and everything else is handed on.
  rw [accept]
  split
  · exact hacks
  · exact hacks
  · exact hhand.congr rfl

/-- No request is closed by a datagram. -/
theorem Seated.spares_receive (h : e.Seated) (k : Nat) (peer : Peer) (bytes : Bytes) :
    Spares k e (e.receive peer bytes).1 (e.receive peer bytes).2 := by
  rw [receive]
  split
  · split
    · exact h.spares _
    · exact h.spares_accept k peer _
  · exact h.spares _

/-! ### Steps -/

theorem Seated.abandon (h : e.Seated) (k : Nat) : (e.abandon k).Seated := by
  have hplace : ∀ {k' key}, (e.abandon k).place? k' = some key → e.place? k' = some key := by
    intro k' key hk'
    rw [place?_abandon] at hk'
    split at hk'
    · cases hk'
    · exact hk'
  exact ⟨fun hk' => h.isOpen (hplace hk'), h.lt, fun hk' => h.waiting_iff (hplace hk')⟩

/-- A request that is abandoned does not end, and leaves all others where they are. -/
theorem Seated.spares_abandon (h : e.Seated) {k' : Nat} (hne : k ≠ k') :
    Spares k e (e.abandon k') {} where
  seated := h.abandon k'
  isOpen := rfl
  nextRequest := Nat.le_refl _
  kept hk := .inl ⟨by rw [place?_abandon, if_neg hne, hk], rfl⟩
  ended hk := ⟨by rw [place?_abandon, if_neg hne, hk], rfl⟩

/-- Nobody is left when an endpoint is shut down. -/
theorem seated_shutdown (e : Endpoint Peer) : e.shutdown.1.Seated where
  isOpen h := by cases h
  lt h := by cases h
  waiting_iff h := by cases h

/-- Whatever happens, a request is closed only if somebody makes one or shuts the endpoint down. -/
theorem Seated.spares_step (h : e.Seated) (k : Nat) {event : Event Peer}
    (hrequest : ∀ peer request, event ≠ .request peer request) (habandon : event ≠ .abandon k)
    (hshutdown : event ≠ .shutdown) : Spares k e (e.step event).1 (e.step event).2.effects := by
  -- A request and a shutdown are left out, and calling off is about somebody else.
  cases event with
  | datagram peer bytes =>
    rw [step_datagram]
    exact (h.spares_receive k peer bytes).settle _
  | request peer request => exact absurd rfl (hrequest peer request)
  | abandon k' =>
    have hne : k ≠ k' := fun heq => habandon (heq ▸ rfl)
    exact (h.spares_abandon hne).settle .done
  | respond responder response =>
    rw [step_respond]
    exact (h.spares_respond k responder response).settle _
  | shutdown => exact absurd rfl hshutdown
  | sleep ms =>
    rw [step_sleep]
    dsimp only
    exact h.spares_advance k ms

omit [DecidableEq Peer] in
/-- A response is no request, so it is no duplicate. -/
theorem verdict_of_response [DecidableEq Peer] {m : Message} (hcode : m.code.isResponse)
    (link : Link) (peer : Peer) (r : Reception Peer) :
    (r.receive link peer m).verdict = .forward := by
  have hrequest : m.code.isRequest = false := Code.isRequest_of_isResponse hcode
  rw [Reception.receive, hrequest]
  split <;> rfl

/-- A response in a message of its own ends the request in its place. -/
theorem Seated.accept (h : e.Seated) {peer : Peer} {token : Bytes} {m : Message}
    (hk : e.place? k = some (peer, token)) (htype : m.type? = some .con ∨ m.type? = some .non)
    (htoken : m.token? = some token) (hcode : m.code.isResponse) :
    Leaves k (peer, token) (.ok ⟨m, false, hcode⟩) e (e.accept peer m).1 (e.accept peer m).2 := by
  have hrequest : ¬ m.code.isRequest := by
    rw [Code.isRequest_of_isResponse hcode]
    exact Bool.false_ne_true
  let received := e.reception.receive e.link peer m
  have hreception : Spares k e { e with reception := received.reception } {} :=
    h.spares_of_idle k ⟨rfl, rfl, fun _ => rfl, rfl, rfl⟩
  -- As a response it is handed to whoever waits for it, after it was acknowledged if need be.
  have haccept : e.accept peer m =
      (({ e with reception := received.reception }.deliver peer ⟨m, false, hcode⟩).1,
        { emissions := received.emissions } ++
          ({ e with reception := received.reception }.deliver peer ⟨m, false, hcode⟩).2) := by
    rw [Endpoint.accept]
    rcases htype with htype | htype
    all_goals
      rw [htype]
      dsimp only
      rw [verdict_of_response hcode, handOn, dif_neg hrequest, dif_pos hcode]
  obtain rfl : m.token?.getD [] = token := by
    rw [htoken]
    rfl
  have hdeliver := hreception.seated.deliver ⟨m, false, hcode⟩ hk
  rw [haccept]
  exact ⟨hdeliver.isOpen, hdeliver.nextRequest, hdeliver.place, hdeliver.waiting,
    hdeliver.finished⟩

/-- As long as a request waits, a response in a message of its own can reach it. -/
theorem Seated.ends_datagram (h : e.Seated) {peer : Peer} {token : Bytes}
    (hk : e.place? k = some (peer, token)) {bytes : Bytes} {m : Message}
    (hm : Message.decode bytes = .ok m) (htype : m.type? = some .con ∨ m.type? = some .non)
    (htoken : m.token? = some token) (hcode : m.code.isResponse) :
    (e.step (.datagram peer bytes)).1.place? k = none ∧
      (e.step (.datagram peer bytes)).2.effects.ends k = [.ok ⟨m, false, hcode⟩] := by
  have haccept := h.accept hk htype htoken hcode
  have hgone : (e.accept peer m).1.place? k = none := by rw [haccept.place, if_pos rfl]
  obtain ⟨late, heffects, hlate, -⟩ := (haccept.seated h hk).rest .done (e.accept peer m).2
  obtain ⟨hlast, hends⟩ := (hlate k).ended hgone
  rw [step_datagram, receive, if_pos (h.isOpen hk), hm]
  dsimp only
  refine ⟨hlast, ?_⟩
  rw [heffects, Effects.ends_append, hends, haccept.ends, if_pos rfl, List.append_nil]

end Endpoint

end Coap

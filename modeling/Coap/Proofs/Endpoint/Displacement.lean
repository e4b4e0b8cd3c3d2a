import Coap.Proofs.Endpoint.Places

/-!
# Requests in one place

Two requests to one peer with one token take the same place. The one that is made later closes the
one that waits there, and this one leaves the place empty when it ends: not only its own place but
that of the request which took it over, so that both are closed at once. A request whose place is
free when it is made is never closed because of another one: it keeps its place, and so a response
in a message of its own can reach it, until it ends, or its place is taken by a later one.

* `Endpoint.takes_request`: what making a request does to those that wait;
* `Endpoint.Seated.step`, `Endpoint.Seated.spares_run`: no request disturbs one in another place;
* `Endpoint.Seated.asks_displaced`, `Endpoint.Seated.asks_vacant`: the two ways of making one;
* `Endpoint.displacement`: what becomes of a request after it was made;
* `Endpoint.closed_with_predecessor`: two requests with one token are both closed.
-/

namespace Coap.Endpoint

variable {Peer : Type} [DecidableEq Peer] {e e' : Endpoint Peer} {effects : Effects Peer}
  {k : Nat} {key : Peer × Bytes}

/-! ### Making a request -/

/-- What it does to make a request that takes a place. Whoever waited there is closed, everybody
    else is left alone, and the new request waits there afterwards if `waits` is true. -/
structure Takes (key : Peer × Bytes) (waits : Bool) (e e' : Endpoint Peer)
    (effects : Effects Peer) : Prop where
  isOpen : e'.link.isOpen = e.link.isOpen
  isOpen_of_waits : waits → e.link.isOpen
  nextRequest : e'.nextRequest = e.nextRequest + 1
  place : ∀ k, e'.place? k =
    if k = e.nextRequest then if waits then some key else none
    else if e.place? k = some key then none else e.place? k
  waiting : ∀ key', e'.waiting.find? key' =
    if key' = key then if waits then some e.nextRequest else none else e.waiting.find? key'
  ends : ∀ k ≠ e.nextRequest,
    effects.ends k = if e.place? k = some key then [.error .closed] else []

/-- After a request took its place every live one has its place to itself. -/
theorem Takes.seated {waits : Bool} (h : Takes key waits e e' effects) (hseated : e.Seated) :
    e'.Seated := by
  -- Whoever has a place is the new request, or was there before, in another place.
  have hplace : ∀ {k key'}, e'.place? k = some key' →
      k = e.nextRequest ∧ waits ∧ key' = key ∨
        k ≠ e.nextRequest ∧ e.place? k = some key' ∧ key' ≠ key := by
    intro k key' hk
    rw [h.place] at hk
    split at hk
    · rename_i heq
      split at hk
      · rename_i hwaits
        exact .inl ⟨heq, hwaits, (Option.some.inj hk).symm⟩
      · cases hk
    · rename_i hne
      split at hk
      · cases hk
      · rename_i hother
        exact .inr ⟨hne, hk, fun heq => hother (heq ▸ hk)⟩
  constructor
  case isOpen =>
    intro k key' hk
    rw [h.isOpen]
    rcases hplace hk with ⟨-, hwaits, -⟩ | ⟨-, hbefore, -⟩
    · exact h.isOpen_of_waits hwaits
    · exact hseated.isOpen hbefore
  case lt =>
    intro k key' hw
    rw [h.waiting] at hw
    rw [h.nextRequest]
    split at hw
    · split at hw
      · obtain rfl := Option.some.inj hw
        exact Nat.lt_succ_self _
      · cases hw
    · exact Nat.lt_succ_of_lt (hseated.lt hw)
  case waiting_iff =>
    intro k key' key'' hk
    rw [h.waiting]
    rcases hplace hk with ⟨rfl, hwaits, rfl⟩ | ⟨hne, hbefore, hother⟩
    · rw [if_pos hwaits]
      split
      · rename_i heq
        exact iff_of_true rfl heq
      · rename_i hne
        exact iff_of_false (fun hw => Nat.lt_irrefl _ (hseated.lt hw)) hne
    · rw [← hseated.waiting_iff hbefore]
      split
      · rename_i heq
        subst heq
        refine iff_of_false (fun hw => ?_) fun hw =>
          hother ((hseated.waiting_iff hbefore).1 hw).symm
        split at hw
        · exact hne (Option.some.inj hw).symm
        · cases hw
      · exact Iff.rfl

/-- A request in another place is left alone. -/
theorem Takes.spares {waits : Bool} (h : Takes key waits e e' effects) (hseated : e.Seated)
    (hk : k ≠ e.nextRequest) (hother : e.place? k ≠ some key) : Spares k e e' effects := by
  have hplace : e'.place? k = e.place? k := by rw [h.place, if_neg hk, if_neg hother]
  have hends : effects.ends k = [] := by rw [h.ends k hk, if_neg hother]
  exact ⟨h.seated hseated, h.isOpen, h.nextRequest ▸ Nat.le_succ _,
    fun hkept => .inl ⟨hplace.trans hkept, hends⟩, fun hended => ⟨hplace.trans hended, hends⟩⟩

/-- The request that waited in the place is closed. -/
theorem Takes.closes {waits : Bool} (h : Takes key waits e e' effects) (hseated : e.Seated)
    (hk : e.place? k = some key) : e'.place? k = none ∧ effects.ends k = [.error .closed] := by
  have hne : k ≠ e.nextRequest := Nat.ne_of_lt (hseated.place_lt hk)
  exact ⟨by rw [h.place, if_neg hne, if_pos hk], by rw [h.ends k hne, if_pos hk]⟩

/-- Nobody is closed by a request that takes over the place of one that has ended. -/
theorem displace_of_gone {waiter? : Option Nat} (h : ∀ k, waiter? = some k → e.place? k = none) :
    e.displace waiter? = (e, {}) := by
  cases waiter? with
  | none => rfl
  | some k => simp only [displace, place?_eq_none_iff.1 (h k rfl)]

/-- A request that is displaced when its place is empty already. -/
theorem leaves_displace (hk : e.place? k = some key) (hempty : e.waiting.find? key = none) :
    Leaves k key (.error .closed) e (e.displace (some k)).1 (e.displace (some k)).2 := by
  obtain ⟨exchange, hlive, rfl⟩ := place?_eq_some_iff.1 hk
  simp only [displace, hlive]
  exact leaves_withdraw_finish exchange (fun k' hk' => by cases hempty.symm.trans hk') _ _

theorem leaves_close (hk : e.place? k = some key) (hempty : e.waiting.find? key = none)
    (time : Nat) :
    Leaves k key (.error .closed) e (e.close time (some k)).1 (e.close time (some k)).2 := by
  obtain ⟨exchange, hlive, rfl⟩ := place?_eq_some_iff.1 hk
  obtain ⟨transmission, hframe⟩ := withdraw_frame exchange e
  simp only [close, hlive, hframe]
  refine ⟨rfl, rfl, fun k' => place?_abandon k k' e, fun key' => ?_, time, rfl⟩
  split
  · rename_i heq
    rw [heq]
    exact hempty
  · rfl

/-- A request that is displaced by another one takes this one with it: it empties the place, and
    whoever is found there is closed. -/
theorem leaves_displace_both {k' : Nat} (hne : k' ≠ k) (hk : e.place? k = some key)
    (hk' : e.place? k' = some key) (hwaiting : e.waiting.find? key = some k') :
    ∃ mid first second, Leaves k key (.error .closed) e mid first ∧
      Leaves k' key (.error .closed) mid (e.displace (some k)).1 second ∧
        (e.displace (some k)).2 = first ++ second := by
  obtain ⟨exchange, hlive, rfl⟩ := place?_eq_some_iff.1 hk
  obtain ⟨transmission, hframe⟩ := withdraw_frame exchange e
  -- First the former request ends and empties the place.
  let mid : Endpoint Peer :=
    { e.abandon k with transmission, waiting := e.waiting.erase exchange.key }
  have hmid : Leaves k exchange.key (.error .closed) e mid
      { finished := [⟨e.link.now, k, .error .closed⟩] } :=
    ⟨rfl, rfl, fun k' => place?_abandon k k' e, Table.find?_erase _ _, e.link.now, rfl⟩
  have hdisplace : e.displace (some k) = ((mid.close e.link.now (some k')).1,
      { finished := [⟨e.link.now, k, .error .closed⟩] } ++
        (mid.close e.link.now (some k')).2) := by
    simp only [displace, hlive, hframe, finish, hwaiting]
    rfl
  rw [hdisplace]
  -- Then whoever was found there is closed: it had entered before the place was emptied.
  refine ⟨mid, _, _, hmid, leaves_close ?_ ?_ e.link.now, rfl⟩
  · rw [hmid.place, if_neg hne, hk']
  · rw [hmid.waiting, if_pos rfl]

/-- What it does to send a request that takes a place, before the one that waited there is closed.
    The new request waits in the place if `waits` is true, and otherwise nobody does. -/
structure Enters (key : Peer × Bytes) (waits : Bool) (e e' : Endpoint Peer)
    (effects : Effects Peer) : Prop where
  isOpen : e'.link.isOpen = e.link.isOpen
  isOpen_of_waits : waits → e.link.isOpen
  nextRequest : e'.nextRequest = e.nextRequest + 1
  place : ∀ k, e'.place? k =
    if k = e.nextRequest then if waits then some key else none else e.place? k
  waiting : ∀ key', e'.waiting.find? key' =
    if key' = key then if waits then some e.nextRequest else none else e.waiting.find? key'
  ends : ∀ k ≠ e.nextRequest, effects.ends k = []

/-- A request that finds its place empty displaces nobody. -/
theorem Enters.takes_of_vacant {waits : Bool} (h : Enters key waits e e' effects)
    (hvacant : ∀ k, e.place? k ≠ some key) : Takes key waits e e' effects where
  isOpen := h.isOpen
  isOpen_of_waits := h.isOpen_of_waits
  nextRequest := h.nextRequest
  place k := by rw [h.place, if_neg (hvacant k)]
  waiting := h.waiting
  ends k hk := by rw [h.ends k hk, if_neg (hvacant k)]

/-- A request that finds its place taken displaces the one that waited there, and is closed itself,
    as that one takes the entry along. -/
theorem Enters.takes_of_displaced {waits : Bool} (h : Enters key waits e e' effects)
    (hseated : e.Seated) (hk : e.place? k = some key) :
    Takes key false e (e'.displace (some k)).1 (effects ++ (e'.displace (some k)).2) ∧
      (waits → (e'.displace (some k)).2.ends e.nextRequest = [.error .closed]) := by
  have hlt := hseated.place_lt hk
  have hentered : e'.place? k = some key := by rw [h.place, if_neg (Nat.ne_of_lt hlt), hk]
  have hother : ∀ {k'}, k' ≠ k → e.place? k' ≠ some key := fun hne hk' =>
    hne (hseated.unique hk' hk)
  -- The new request has ended at once, or it waits and is found in the place.
  cases waits with
  | false =>
    have hempty : e'.waiting.find? key = none := by rw [h.waiting, if_pos rfl]; rfl
    have hleaves := leaves_displace hentered hempty
    refine ⟨⟨hleaves.isOpen.trans h.isOpen, (fun hfalse => by cases hfalse),
      hleaves.nextRequest.trans h.nextRequest, fun k' => ?_, fun key' => ?_, fun k' hk' => ?_⟩,
      fun hfalse => by cases hfalse⟩
    · rw [hleaves.place, h.place]
      -- Nobody but the former request had this place.
      by_cases heq : k' = k
      · rw [heq, if_pos rfl, if_neg (Nat.ne_of_lt hlt), if_pos hk]
      · rw [if_neg heq, if_neg (hother heq)]
    · rw [hleaves.waiting, h.waiting]
      split <;> rfl
    · rw [Effects.ends_append, h.ends k' hk', hleaves.ends, List.nil_append]
      by_cases heq : k' = k
      · rw [heq, if_pos rfl, if_pos hk]
      · rw [if_neg heq, if_neg (hother heq)]
  | true =>
    have hnew : e'.place? e.nextRequest = some key := by rw [h.place, if_pos rfl]; rfl
    have hwaiting : e'.waiting.find? key = some e.nextRequest := by
      rw [h.waiting, if_pos rfl]
      rfl
    obtain ⟨mid, first, second, hfirst, hsecond, heffects⟩ :=
      leaves_displace_both (Nat.ne_of_gt hlt) hentered hnew hwaiting
    rw [heffects]
    refine ⟨⟨(hsecond.isOpen.trans hfirst.isOpen).trans h.isOpen, (fun hfalse => by cases hfalse),
      (hsecond.nextRequest.trans hfirst.nextRequest).trans h.nextRequest, fun k' => ?_,
      fun key' => ?_, fun k' hk' => ?_⟩, fun _ => ?_⟩
    · rw [hsecond.place, hfirst.place, h.place]
      -- The place of the new request is emptied as well.
      by_cases hnew : k' = e.nextRequest
      · rw [if_pos hnew, if_pos hnew]
        rfl
      · rw [if_neg hnew, if_neg hnew, if_neg hnew]
        by_cases heq : k' = k
        · rw [heq, if_pos rfl, if_pos hk]
        · rw [if_neg heq, if_neg (hother heq)]
    · rw [hsecond.waiting, hfirst.waiting, h.waiting]
      split <;> rfl
    · rw [Effects.ends_append, Effects.ends_append, h.ends k' hk', hfirst.ends, hsecond.ends,
        if_neg hk', List.nil_append, List.append_nil]
      by_cases heq : k' = k
      · rw [heq, if_pos rfl, if_pos hk]
      · rw [if_neg heq, if_neg (hother heq)]
    · rw [Effects.ends_append, hfirst.ends, hsecond.ends, if_neg (Nat.ne_of_gt hlt), if_pos rfl,
        List.nil_append]

theorem place?_enter (k n : Nat) (a : Asked Peer) (transmission : Transmission Peer)
    (e : Endpoint Peer) :
    (e.enter n a transmission).place? k =
      if k = n then some (a.peer, a.token) else e.place? k := by
  rw [place?, place?, enter, Table.find?_insert]
  split <;> rfl

omit [DecidableEq Peer] in
theorem numbered_frame (request : Request) (e : Endpoint Peer) :
    ∃ transmission, e.numbered request =
      { e with transmission, nextRequest := e.nextRequest + 1 } := by
  obtain ⟨draws, hframe⟩ := addToken_frame request e
  exact ⟨{ e.transmission with draws }, by rw [numbered, hframe]⟩

/-- A request that is accepted for sending enters its place. -/
theorem enters_of_ok {peer : Peer} {request request' : Request} {receipt : Receipt}
    (hresult : ((e.numbered request).transmission.send (e.numbered request).link peer
      request'.message).result = .ok receipt) :
    Enters (peer, request'.message.token?.getD []) true e
        ((e.numbered request).launch e.nextRequest peer request').1
        ((e.numbered request).launch e.nextRequest peer request').2 ∧
      ((e.numbered request).launch e.nextRequest peer request').2.ends e.nextRequest = [] := by
  have hopen := Transmission.isOpen_of_send hresult
  obtain ⟨hlaunch, hsent⟩ := launch_of_ok (n := e.nextRequest) hresult
  rw [hlaunch]
  have hidle := idle_resolveAll hsent ((e.numbered request).enter e.nextRequest
    (.ofReceipt peer request' receipt) ((e.numbered request).transmission.send
      (e.numbered request).link peer request'.message).transmission)
  -- What matters of the message is only that it was sent, so it is given a name.
  generalize (e.numbered request).transmission.send (e.numbered request).link peer
    request'.message = sent at *
  obtain ⟨transmission, hframe⟩ := numbered_frame request e
  rw [hframe] at hidle hopen ⊢
  have hnone : ∀ k, ({ emissions := sent.progress.emissions } ++ (resolveAll
      sent.progress.resolutions (enter e.nextRequest (.ofReceipt peer request' receipt)
        sent.transmission { e with transmission, nextRequest := e.nextRequest + 1 })).2 :
        Effects Peer).ends k = [] := by
    intro k
    rw [Effects.ends_append, Effects.ends_of_nil hidle.finished]
    rfl
  refine ⟨⟨hidle.isOpen, fun _ => hopen, hidle.nextRequest, fun k => ?_, fun key' => ?_,
    fun k _ => hnone k⟩, hnone _⟩
  · rw [hidle.place, place?_enter]
    rfl
  · rw [hidle.waiting]
    exact Table.find?_insert _ _ _ _

/-- A request that is refused leaves its place empty. -/
theorem enters_of_error (hseated : e.Seated) {peer : Peer} {request request' : Request}
    {failure : Failure Peer}
    (hresult : ((e.numbered request).transmission.send (e.numbered request).link peer
      request'.message).result = .error failure) :
    Enters (peer, request'.message.token?.getD []) false e
      ((e.numbered request).launch e.nextRequest peer request').1
      ((e.numbered request).launch e.nextRequest peer request').2 := by
  rw [launch_of_error hresult]
  obtain ⟨transmission, hframe⟩ := numbered_frame request e
  rw [hframe]
  refine ⟨rfl, (fun hfalse => by cases hfalse), rfl, fun k => ?_, Table.find?_erase _ _,
    fun k hk => ?_⟩
  · -- The number of the request was not given out before.
    by_cases hk : k = e.nextRequest
    · rw [if_pos hk]
      refine Option.eq_none_iff_forall_ne_some.2 fun key hplace => ?_
      exact Nat.ne_of_lt (hseated.place_lt hplace) hk
    · rw [if_neg hk]
      rfl
  · rw [Effects.ends_of_singleton rfl, if_neg hk]

/-- What making a request does to those that wait. -/
theorem takes_request (hseated : e.Seated) (peer : Peer) {request request' : Request}
    (hrequest : (e.addToken request).2 = .ok request') :
    let key := (peer, request'.message.token?.getD [])
    let out := e.request peer request
    let result := ((e.numbered request).transmission.send (e.numbered request).link peer
      request'.message).result
    (∀ j, e.place? j = some key → Takes key false e out.1 out.2 ∧
      ∀ receipt, result = .ok receipt → out.2.ends e.nextRequest = [.error .closed]) ∧
    ((∀ j, e.place? j ≠ some key) → ∃ waits, Takes key waits e out.1 out.2 ∧
      ∀ receipt, result = .ok receipt → waits ∧ out.2.ends e.nextRequest = []) := by
  intro key out result
  have hout : out = _ := request_eq peer hrequest
  dsimp only at hout
  -- Whoever is found in the place has ended, if nobody waits there.
  have hgone : (∀ j, e.place? j ≠ some key) → ∀ {e' effects waits}, Enters key waits e e' effects →
      e'.displace (e.waiting.find? key) = (e', {}) := by
    intro hvacant e' effects waits henters
    refine displace_of_gone fun k hk => ?_
    rw [henters.place, if_neg (Nat.ne_of_lt (hseated.lt hk))]
    exact place?_eq_none_iff.2 (hseated.gone_of_vacant hvacant hk)
  have hfound : ∀ {j}, e.place? j = some key → e.waiting.find? key = some j :=
    fun hj => (hseated.waiting_iff hj).2 rfl
  cases hresult : result with
  | ok receipt =>
    obtain ⟨henters, hends⟩ := enters_of_ok (e := e) hresult
    refine ⟨fun j hj => ?_, fun hvacant => ?_⟩
    · obtain ⟨htakes, hclosed⟩ := henters.takes_of_displaced hseated hj
      rw [hfound hj] at hout
      rw [hout]
      refine ⟨htakes, fun _ _ => ?_⟩
      rw [Effects.ends_append, hends, hclosed rfl]
      rfl
    · rw [hgone hvacant henters, Effects.append_empty] at hout
      rw [hout]
      exact ⟨true, henters.takes_of_vacant hvacant, fun _ _ => ⟨rfl, hends⟩⟩
  | error failure =>
    have henters := enters_of_error hseated hresult
    refine ⟨fun j hj => ?_, fun hvacant => ?_⟩
    · obtain ⟨htakes, -⟩ := henters.takes_of_displaced hseated hj
      rw [hfound hj] at hout
      rw [hout]
      exact ⟨htakes, fun receipt hok => by cases hok⟩
    · rw [hgone hvacant henters, Effects.append_empty] at hout
      rw [hout]
      exact ⟨false, henters.takes_of_vacant hvacant, fun receipt hok => by cases hok⟩

/-- Whoever is in the way, a request that is made takes its place. -/
theorem exists_takes_request (hseated : e.Seated) (peer : Peer) {request request' : Request}
    (hrequest : (e.addToken request).2 = .ok request') :
    ∃ waits, Takes (peer, request'.message.token?.getD []) waits e (e.request peer request).1
      (e.request peer request).2 := by
  obtain ⟨hdisplaced, hvacant⟩ := takes_request hseated peer hrequest
  by_cases hfound : ∃ j, e.place? j = some (peer, request'.message.token?.getD [])
  · obtain ⟨j, hj⟩ := hfound
    exact ⟨false, (hdisplaced j hj).1⟩
  · obtain ⟨waits, htakes, -⟩ := hvacant fun j hj => hfound ⟨j, hj⟩
    exact ⟨waits, htakes⟩

/-! ### Steps -/

/-- An event has a request take a place, whether or not the request goes out then. -/
def Registers (e : Endpoint Peer) (event : Event Peer) (key : Peer × Bytes) : Prop :=
  ∃ peer request request', event = .request peer request ∧
    (e.addToken request).2 = .ok request' ∧ key = (peer, request'.message.token?.getD [])

/-- A request that cannot be given a token ends at once. -/
theorem spares_request_of_error (hseated : e.Seated) (hk : k ≠ e.nextRequest) (peer : Peer)
    {request : Request} {fault : Fault} (hrequest : (e.addToken request).2 = .error fault) :
    Spares k e (e.request peer request).1 (e.request peer request).2 := by
  obtain ⟨draws, hframe⟩ := addToken_frame request e
  rw [Endpoint.request, addToken_number, hrequest, hframe]
  have hends : ({ finished := [⟨e.link.now, e.nextRequest, .error (.invalid fault)⟩] } :
      Effects Peer).ends k = [] := by
    rw [Effects.ends_of_singleton rfl, if_neg hk]
  exact ⟨⟨hseated.isOpen, fun hw => Nat.lt_succ_of_lt (hseated.lt hw), hseated.waiting_iff⟩, rfl,
    Nat.le_succ _, fun hplace => .inl ⟨hplace, hends⟩, fun hplace => ⟨hplace, hends⟩⟩

/-- A request leaves those alone that do not wait in the place that it takes. -/
theorem Seated.spares_request (h : e.Seated) (hk : k < e.nextRequest) {peer : Peer}
    {request : Request}
    (hother : ∀ key, e.place? k = some key → ¬ e.Registers (.request peer request) key) :
    Spares k e (e.request peer request).1 (e.request peer request).2 := by
  cases hrequest : (e.addToken request).2 with
  | error fault => exact spares_request_of_error h (Nat.ne_of_lt hk) peer hrequest
  | ok request' =>
    obtain ⟨waits, htakes⟩ := exists_takes_request h peer hrequest
    exact htakes.spares h (Nat.ne_of_lt hk) fun hplace =>
      hother _ hplace ⟨peer, request, request', rfl, hrequest, rfl⟩

/-- After a request is made every live one has its place to itself. -/
theorem Seated.request (h : e.Seated) (peer : Peer) (request : Request) :
    (e.request peer request).1.Seated := by
  cases hrequest : (e.addToken request).2 with
  | error fault =>
    exact (spares_request_of_error h (Nat.succ_ne_self e.nextRequest) peer hrequest).seated
  | ok request' =>
    obtain ⟨waits, htakes⟩ := exists_takes_request h peer hrequest
    exact htakes.seated h

/-- All requests stay seated. -/
theorem Seated.step (h : e.Seated) (event : Event Peer) : (e.step event).1.Seated := by
  -- What the event does keeps all seated, and so does the time that passes then.
  cases event with
  | datagram peer bytes =>
    rw [step_datagram]
    exact (h.spares_receive 0 peer bytes).seated.settle _ _
  | request peer request =>
    rw [step_request]
    exact (h.request peer request).settle _ _
  | abandon k => exact (h.abandon k).settle .done {}
  | respond responder response =>
    rw [step_respond]
    exact (h.spares_respond 0 responder response).seated.settle _ _
  | shutdown =>
    rw [step_shutdown]
    exact (seated_shutdown e).settle _ _
  | sleep ms =>
    rw [step_sleep]
    dsimp only
    exact (h.spares_advance 0 ms).seated

/-- Once the request is made, nobody is closed any more in this step. -/
theorem Seated.rest_request (h : e.Seated) (peer : Peer) (request : Request) :
    ∃ late, (e.step (.request peer request)).2.effects = (e.request peer request).2 ++ late ∧
      (∀ k, Spares k (e.request peer request).1 (e.step (.request peer request)).1 late) ∧
        ∀ key, (e.request peer request).1.waiting.find? key = none →
          (e.step (.request peer request)).1.waiting.find? key = none := by
  rw [step_request]
  exact (h.request peer request).rest _ _

/-- No event disturbs a request, unless it takes its place, calls it off or shuts the endpoint
    down. -/
theorem Seated.spares_event (h : e.Seated) (hk : k < e.nextRequest) {event : Event Peer}
    (hother : ∀ key, e.place? k = some key → ¬ e.Registers event key)
    (habandon : event ≠ .abandon k) (hshutdown : event ≠ .shutdown) :
    Spares k e (e.step event).1 (e.step event).2.effects := by
  by_cases hrequest : ∃ peer request, event = .request peer request
  · obtain ⟨peer, request, rfl⟩ := hrequest
    rw [step_request]
    exact (h.spares_request hk hother).settle _
  · exact h.spares_step k (fun peer request heq => hrequest ⟨peer, request, heq⟩) habandon hshutdown

/-- A request that is made while another one waits in its place is closed with this one. -/
theorem Seated.asks_displaced (h : e.Seated) {event : Event Peer} {a : Asked Peer}
    (hasks : e.Asks event k a) {j : Nat} (hj : e.place? j = some (a.peer, a.token)) :
    (e.step event).2.effects.ends j = [.error .closed] ∧
      (e.step event).2.effects.ends k = [.error .closed] ∧
        (e.step event).1.place? j = none ∧ (e.step event).1.place? k = none ∧
          (e.step event).1.waiting.find? (a.peer, a.token) = none := by
  obtain ⟨peer, request, -, -, rfl, -⟩ := hasks.made
  obtain ⟨request', hrequest, rfl, receipt, hresult, rfl⟩ := asks_request_iff.1 hasks
  obtain ⟨htakes, hclosed⟩ := (takes_request h peer hrequest).1 j hj
  obtain ⟨hgone, hend⟩ := htakes.closes h hj
  have hnew : (e.request peer request).1.place? e.nextRequest = none := by
    rw [htakes.place, if_pos rfl]
    rfl
  have hempty : (e.request peer request).1.waiting.find?
      (peer, request'.message.token?.getD []) = none := by
    rw [htakes.waiting, if_pos rfl]
    rfl
  -- What still happens within the step changes nothing about that.
  obtain ⟨late, heffects, hlate, hnobody⟩ := h.rest_request peer request
  obtain ⟨hjlast, hjlate⟩ := (hlate j).ended hgone
  obtain ⟨hklast, hklate⟩ := (hlate e.nextRequest).ended hnew
  refine ⟨?_, ?_, hjlast, hklast, hnobody _ hempty⟩
  · rw [heffects, Effects.ends_append, hend, hjlate, List.append_nil]
  · rw [heffects, Effects.ends_append, hclosed receipt hresult, hklate, List.append_nil]

/-- A request that is made while nobody waits in its place waits there afterwards, or it has ended
    and was not closed. -/
theorem Seated.asks_vacant (h : e.Seated) {event : Event Peer} {a : Asked Peer}
    (hasks : e.Asks event k a) (hvacant : ∀ j, e.place? j ≠ some (a.peer, a.token)) :
    k < (e.step event).1.nextRequest ∧
      ((e.step event).1.place? k = some (a.peer, a.token) ∧
          (e.step event).2.effects.ends k = [] ∨
        (e.step event).1.place? k = none ∧ ∃ result,
          (e.step event).2.effects.ends k = [result] ∧ result ≠ .error .closed) := by
  obtain ⟨peer, request, -, -, rfl, -⟩ := hasks.made
  obtain ⟨request', hrequest, rfl, receipt, hresult, rfl⟩ := asks_request_iff.1 hasks
  -- The place is taken at once, and nothing but time passes before the step is over.
  obtain ⟨waits, htakes, hentered⟩ := (takes_request h peer hrequest).2 hvacant
  obtain ⟨hwaits, hnone⟩ := hentered receipt hresult
  have hplace : (e.request peer request).1.place? e.nextRequest =
      some (peer, request'.message.token?.getD []) := by
    rw [htakes.place, if_pos rfl, if_pos hwaits]
  obtain ⟨late, heffects, hlate, -⟩ := h.rest_request peer request
  have hlt : e.nextRequest < (e.request peer request).1.nextRequest :=
    (h.request peer request).place_lt hplace
  refine ⟨Nat.lt_of_lt_of_le hlt (hlate e.nextRequest).nextRequest, ?_⟩
  rw [heffects, Effects.ends_append, hnone, List.nil_append]
  exact (hlate e.nextRequest).kept hplace

/-! ### Runs -/

/-- What the events of a run bring about, one after another. -/
def total (reports : List (Report Peer)) : Effects Peer :=
  reports.foldr (fun report rest => report.effects ++ rest) {}

/-- Nothing in a run of events takes the place of a request, calls it off or shuts the endpoint
    down. -/
def LeavesAlone (e : Endpoint Peer) (k : Nat) (key : Peer × Bytes) (events : List (Event Peer)) :
    Prop :=
  ∀ before event after, events = before ++ event :: after →
    ¬ (e.run before).1.Registers event key ∧ event ≠ .abandon k ∧ event ≠ .shutdown

/-- A request that is left alone keeps its place, or it ends once and is not closed. -/
theorem Seated.spares_run (h : e.Seated) (hk : k < e.nextRequest)
    (hkey : ∀ key', e.place? k = some key' → key' = key) {events : List (Event Peer)}
    (halone : e.LeavesAlone k key events) :
    Spares k e (e.run events).1 (total (e.run events).2) := by
  induction events generalizing e with
  | nil => exact h.spares k
  | cons event events ih =>
    obtain ⟨hother, habandon, hshutdown⟩ := halone [] event events rfl
    have hstep : Spares k e (e.step event).1 (e.step event).2.effects :=
      h.spares_event hk (fun key' hplace => hkey key' hplace ▸ hother) habandon hshutdown
    refine hstep.trans (ih hstep.seated (Nat.lt_of_lt_of_le hk hstep.nextRequest) ?_ ?_)
    · -- If it still has a place, then it is the one it had.
      intro key' hplace
      cases hbefore : e.place? k with
      | none => cases (hstep.ended hbefore).1.symm.trans hplace
      | some key₀ =>
        obtain rfl := hkey key₀ hbefore
        rcases hstep.kept hbefore with ⟨hafter, -⟩ | ⟨hafter, -⟩
        · exact (Option.some.inj (hafter.symm.trans hplace)).symm
        · cases hafter.symm.trans hplace
    · intro before event' after heq
      exact halone (event :: before) event' after (congrArg (event :: ·) heq)

theorem seated_run (service : Service Peer) (responseTimeout : Nat) (link : Link) (draws : Draws)
    (events : List (Event Peer)) :
    let start : Endpoint Peer := { service, responseTimeout, link, transmission := { draws } }
    (start.run events).1.Seated := by
  intro start
  induction events using List.reverseRecOn with
  | nil =>
    constructor
    all_goals intros; rename_i h; cases h
  | append_singleton events event ih =>
    rw [run_concat]
    exact ih.step event

/-- What becomes of a request after it was made. If another one waits in its place then, both are
    closed in this step, and nobody waits there any more. Otherwise, as long as no later request
    takes its place, it is not called off and the endpoint is not shut down, it is never closed: it
    ends once, or it keeps its place, and then a response in a message of its own which has its
    token ends it. -/
theorem displacement (service : Service Peer) (responseTimeout : Nat) (link : Link) (draws : Draws)
    (before : List (Event Peer)) {event : Event Peer} {k : Nat} {a : Asked Peer} :
    let start : Endpoint Peer := { service, responseTimeout, link, transmission := { draws } }
    let e := (start.run before).1
    let e' := (e.step event).1
    let effects := (e.step event).2.effects
    e.Asks event k a →
      (∀ j, e.place? j = some (a.peer, a.token) →
        effects.ends j = [.error .closed] ∧ effects.ends k = [.error .closed] ∧
          e'.place? j = none ∧ e'.place? k = none ∧ e'.waiting.find? (a.peer, a.token) = none) ∧
      ((∀ j, e.place? j ≠ some (a.peer, a.token)) →
        ∀ after, e'.LeavesAlone k (a.peer, a.token) after →
          let last := (e'.run after).1
          let ends := effects.ends k ++ (total (e'.run after).2).ends k
          (last.place? k = none ∧ ∃ result, ends = [result] ∧ result ≠ .error .closed) ∨
            last.place? k = some (a.peer, a.token) ∧ ends = [] ∧
              ∀ bytes m, Message.decode bytes = .ok m →
                m.type? = some .con ∨ m.type? = some .non → m.token? = some a.token →
                  ∀ hcode : m.code.isResponse,
                    (last.step (.datagram a.peer bytes)).2.effects.ends k =
                      [.ok ⟨m, false, hcode⟩]) := by
  intro start e e' effects hasks
  have hseated : e.Seated := seated_run service responseTimeout link draws before
  refine ⟨fun j hj => hseated.asks_displaced hasks hj, fun hvacant after halone => ?_⟩
  obtain ⟨hlt, hmade⟩ := hseated.asks_vacant hasks hvacant
  have hkey : ∀ key, e'.place? k = some key → key = (a.peer, a.token) := by
    intro key hk
    rcases hmade with ⟨hplace, -⟩ | ⟨hplace, -⟩
    · exact Option.some.inj (hk.symm.trans hplace)
    · cases hk.symm.trans hplace
  have hrun := (hseated.step event).spares_run hlt hkey halone
  intro last ends
  have hends : ends = effects.ends k ++ (total (e'.run after).2).ends k := rfl
  rcases hmade with ⟨hplace, hnone⟩ | ⟨hplace, result, hresult, hclosed⟩
  · rw [hends, hnone, List.nil_append]
    rcases hrun.kept hplace with ⟨hlast, hempty⟩ | hended
    · exact .inr ⟨hlast, hempty, fun bytes m hm htype htoken hcode =>
        (hrun.seated.ends_datagram hlast hm htype htoken hcode).2⟩
    · exact .inl hended
  · -- It has ended in the step in which it was made, and nothing comes after that.
    obtain ⟨hlast, hlater⟩ := hrun.ended hplace
    rw [hends, hresult, hlater]
    exact .inl ⟨hlast, result, rfl, hclosed⟩

/-- A GET with the token 8 is made while one with the token 7 waits; the response with the token 8
    ends it. -/
theorem displacement_other_token :
    let start : Endpoint Unit := { service := .later }
    let seven : Options :=
      ⟨[⟨.token, .octets [7], rfl, by decide, trivial⟩], by decide, by decide, by decide⟩
    let eight : Options :=
      ⟨[⟨.token, .octets [8], rfl, by decide, trivial⟩], by decide, by decide, by decide⟩
    let other : Request :=
      ⟨{ type? := some .con, code := .get, id? := some 1, options := seven }, rfl⟩
    let get : Request :=
      ⟨{ type? := some .con, code := .get, id? := some 2, options := eight }, rfl⟩
    let answer : Message :=
      { type? := some .non, code := .content, id? := some 3, options := eight }
    let before : List (Event Unit) := [.request () other]
    let event : Event Unit := .request () get
    let e := (start.run before).1
    let e' := (e.step event).1
    e.place? 0 = some ((), [7]) ∧ e.Asks event 1 ⟨(), get.message, 1, 2⟩ ∧
      (∀ j, e.place? j ≠ some ((), [8])) ∧ e'.LeavesAlone 1 ((), [8]) [] ∧
        (e'.step (.datagram () [0x51, 0x45, 0, 3, 0xb1, 8])).2.effects.ends 1 =
          [.ok ⟨answer, false, rfl⟩] := by
  intro start seven eight other get answer before event e e'
  have hencode : other.message.encode = .ok [0x41, 1, 0, 1, 0xb1, 7] := by cbv
  have hencode' : get.message.encode = .ok [0x41, 1, 0, 2, 0xb1, 8] := by cbv
  have hsend : (start.numbered other).transmission.send (start.numbered other).link ()
      other.message = start.transmission.dispatch start.link () .con 1 [0x41, 1, 0, 1, 0xb1, 7] :=
    Transmission.send_of_encode rfl rfl rfl hencode rfl
  have hrequest : ∀ e : Endpoint Unit, (e.addToken other).2 = .ok other := fun _ => rfl
  have hrequest' : ∀ e : Endpoint Unit, (e.addToken get).2 = .ok get := fun _ => rfl
  have hbefore : before = [.request () other] := rfl
  have hevent : event = .request () get := rfl
  clear_value before event
  have he : e = (start.run before).1 := rfl
  have he' : e' = (e.step event).1 := rfl
  have hcases : e.Asks event 1 ⟨(), get.message, 1, 2⟩ → (∀ j, e.place? j ≠ some ((), [8])) →
      e'.LeavesAlone 1 ((), [8]) [] → e'.place? 1 = none ∨ ∀ bytes m,
        Message.decode bytes = .ok m → m.type? = some .con ∨ m.type? = some .non →
          m.token? = some [8] → ∀ hcode : m.code.isResponse,
            (e'.step (.datagram () bytes)).2.effects.ends 1 = [.ok ⟨m, false, hcode⟩] := by
    intro hasks hvacant halone
    rcases (displacement .later 10000 {} {} before hasks).2 hvacant [] halone with
      ⟨hgone, -⟩ | ⟨-, -, hends⟩
    · exact .inl hgone
    · exact .inr hends
  clear_value e' e
  rw [hbefore, run_singleton, step_request, request_eq () (hrequest start), launch, hsend] at he
  have hfree : e.transmission.records.contains () 2 = false := by
    rw [he]
    decide +kernel
  have hnext : e.nextRequest = 1 := by
    rw [he]
    decide +kernel
  have hlive : e.live.toList.map (fun p => (p.1, p.2.key)) = [(0, ((), [7]))] := by
    rw [he]
    decide +kernel
  have hopen : e.link.isOpen := by
    rw [he]
    decide +kernel
  have hsend' : (e.numbered get).transmission.send (e.numbered get).link () get.message =
      e.transmission.dispatch e.link () .con 2 [0x41, 1, 0, 2, 0xb1, 8] :=
    Transmission.send_of_encode rfl rfl hfree hencode' hopen
  have hasks : e.Asks event 1 ⟨(), get.message, 1, 2⟩ := by
    rw [hevent]
    refine asks_request_iff.2 ⟨get, hrequest' e, hnext.symm, ⟨1, 2⟩, ?_, rfl⟩
    rw [hsend', he]
    decide +kernel
  have hvacant : ∀ j, e.place? j ≠ some ((), [8]) := by
    intro j hj
    -- Only the first GET is there, and its place is another one.
    obtain ⟨exchange, hlive', hkey⟩ := place?_eq_some_iff.1 hj
    have hmem := List.mem_map_of_mem (f := fun p => (p.1, p.2.key)) (Table.mem_toList_iff.2 hlive')
    rw [hlive, hkey] at hmem
    simp at hmem
  have halone : e'.LeavesAlone 1 ((), [8]) [] := by
    intro before event after h
    simp at h
  have hplace : e'.place? 1 = some ((), [8]) := by
    rw [he', hevent, step_request, request_eq () (hrequest' e), launch, hsend', he]
    decide +kernel
  refine ⟨?_, hasks, hvacant, halone, ?_⟩
  · rw [he]
    decide +kernel
  · rcases hcases hasks hvacant halone with hgone | hends
    · cases hgone.symm.trans hplace
    · exact hends _ _ (by decide +kernel) (.inr rfl) rfl rfl

/-- Two GETs with the token 7 are made, one after the other. Both go out and both are closed when
    the second one is made, and then nobody is left whom a response with this token could reach. -/
theorem closed_with_predecessor :
    let start : Endpoint Unit := { service := .later }
    let options : Options :=
      ⟨[⟨.token, .octets [7], rfl, by decide, trivial⟩], by decide, by decide, by decide⟩
    let get (id : UInt16) : Request :=
      ⟨{ type? := some .con, code := .get, id? := some id, options }, rfl⟩
    let first := start.step (.request () (get 1))
    let second := first.1.step (.request () (get 2))
    let answered := second.1.step (.datagram () [0x51, 0x45, 0, 3, 0xb1, 7])
    start.Asks (.request () (get 1)) 0 ⟨(), (get 1).message, 0, 1⟩ ∧
      first.1.Asks (.request () (get 2)) 1 ⟨(), (get 2).message, 1, 2⟩ ∧
        second.2.effects.ends 0 = [.error .closed] ∧ second.2.effects.ends 1 = [.error .closed] ∧
          second.1.waiting.find? ((), [7]) = none ∧ answered.2.effects.ends 1 = [] := by
  intro start options get first second answered
  have hencode₁ : (get 1).message.encode = .ok [0x41, 1, 0, 1, 0xb1, 7] := by cbv
  have hencode₂ : (get 2).message.encode = .ok [0x41, 1, 0, 2, 0xb1, 7] := by cbv
  have hrequest : ∀ (e : Endpoint Unit) id, (e.addToken (get id)).2 = .ok (get id) :=
    fun _ _ => rfl
  have hsend₁ : (start.numbered (get 1)).transmission.send (start.numbered (get 1)).link ()
      (get 1).message =
        start.transmission.dispatch start.link () .con 1 [0x41, 1, 0, 1, 0xb1, 7] :=
    Transmission.send_of_encode rfl rfl rfl hencode₁ rfl
  have hasks₁ : start.Asks (.request () (get 1)) 0 ⟨(), (get 1).message, 0, 1⟩ := by
    refine asks_request_iff.2 ⟨get 1, hrequest _ _, rfl, ⟨0, 1⟩, ?_, rfl⟩
    rw [hsend₁]
    decide +kernel
  have hfirst : first = start.step (.request () (get 1)) := rfl
  have hsecond : second = first.1.step (.request () (get 2)) := rfl
  have hanswered : answered = second.1.step (.datagram () [0x51, 0x45, 0, 3, 0xb1, 7]) := rfl
  -- Each step is named before the next one is evaluated.
  clear_value first second answered
  rw [step_request, request_eq () (hrequest start 1), launch, hsend₁] at hfirst
  have hfree : first.1.transmission.records.contains () 2 = false := by
    rw [hfirst]
    decide +kernel
  have hopen : first.1.link.isOpen := by
    rw [hfirst]
    decide +kernel
  have hnext : first.1.nextRequest = 1 := by
    rw [hfirst]
    decide +kernel
  have hsend₂ : (first.1.numbered (get 2)).transmission.send (first.1.numbered (get 2)).link ()
      (get 2).message =
        first.1.transmission.dispatch first.1.link () .con 2 [0x41, 1, 0, 2, 0xb1, 7] :=
    Transmission.send_of_encode rfl rfl hfree hencode₂ hopen
  have hasks₂ : first.1.Asks (.request () (get 2)) 1 ⟨(), (get 2).message, 1, 2⟩ := by
    refine asks_request_iff.2 ⟨get 2, hrequest _ _, hnext.symm, ⟨1, 2⟩, ?_, rfl⟩
    rw [hsend₂, hfirst]
    decide +kernel
  rw [step_request, request_eq () (hrequest first.1 2), launch, hsend₂, hfirst] at hsecond
  refine ⟨hasks₁, hasks₂, ?_, ?_, ?_, ?_⟩
  · rw [hsecond]
    decide +kernel
  · rw [hsecond]
    decide +kernel
  · rw [hsecond]
    decide +kernel
  · rw [hanswered, hsecond]
    decide +kernel

end Coap.Endpoint

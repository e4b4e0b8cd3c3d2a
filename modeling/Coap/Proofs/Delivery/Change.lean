import Coap.Delivery.Sender

/-!
# What a step of a sender does

A step of a sender is an operation on the messages in flight, after which time passes. An operation
leaves them alone, or it accepts a message, ends one of them or ends them all
(`Transmission.Change`).

* `Transmission.send_cases`: a message is refused, or else it is accepted;
* `Sender.exists_change`: a step is one change, after which time passes.
-/

namespace Coap

variable {Peer : Type} [DecidableEq Peer]

namespace Transmission

/-- What becomes of a message that is accepted: it is sent, in the bytes that its written form has
    with the id of the receipt, and it is kept in flight just if it is confirmable. -/
inductive Accepts (link : Link) (peer : Peer) (m : Message) (t : Transmission Peer) :
    Sent Peer → Prop where
  /-- A message that wants no acknowledgement. -/
  | once {type : MessageType} {id : UInt16} {bytes : Bytes} {t' : Transmission Peer}
      (type_eq : m.type? = some type) (unconfirmed : type ≠ .con)
      (encoded : { m with id? := some id }.encode = .ok bytes)
      (records : t'.records = t.records) (next : t'.nextTicket = t.nextTicket + 1) :
      Accepts link peer m t
        ⟨t', .ok ⟨t.nextTicket, id⟩,
          { emissions := [⟨link.now, peer, bytes, t.nextTicket⟩]
            resolutions := [⟨link.now, t.nextTicket, .sent⟩] }⟩
  /-- A confirmable message. -/
  | start {id : UInt16} {bytes : Bytes} {backoff : Backoff} {t' : Transmission Peer}
      (type_eq : m.type? = some .con) (encoded : { m with id? := some id }.encode = .ok bytes)
      (free : t.records.find? peer id = none)
      (drawn : Backoff.start? link.timing (jitter link.timing t.draws).1 = some backoff)
      (records :
        t'.records = t.records.insert peer id (.start t.nextTicket bytes backoff link.now))
      (next : t'.nextTicket = t.nextTicket + 1) :
      Accepts link peer m t
        ⟨t', .ok ⟨t.nextTicket, id⟩,
          { emissions := [⟨link.now, peer, bytes, t.nextTicket⟩] }⟩

/-- What becomes of a message that is refused: nothing. -/
structure Refuses (t : Transmission Peer) (sent : Sent Peer) : Prop where
  result : ∃ failure, sent.result = .error failure
  progress : sent.progress = {}
  records : sent.transmission.records = t.records
  next : sent.transmission.nextTicket = t.nextTicket

/-- What an operation does to the messages in flight, the ticket that it gives out, and what it
    brings about. -/
inductive Change (link : Link) (t : Transmission Peer) :
    Option Nat → Transmission Peer → Progress Peer → Prop where
  /-- Nothing. -/
  | still {t' : Transmission Peer} (records : t'.records = t.records)
      (next : t'.nextTicket = t.nextTicket) : Change link t none t' {}
  /-- A message is accepted. -/
  | accept {peer : Peer} {m : Message} {sent : Sent Peer} (accepts : t.Accepts link peer m sent) :
      Change link t (some t.nextTicket) sent.transmission sent.progress
  /-- A message in flight is at its end. -/
  | finish {peer : Peer} {id : UInt16} {record : Record} {outcome : Outcome Peer}
      {t' : Transmission Peer} (found : t.records.find? peer id = some record)
      (records : t'.records = t.records.erase peer id) (next : t'.nextTicket = t.nextTicket) :
      Change link t none t' { resolutions := [⟨link.now, record.ticket, outcome⟩] }
  /-- All messages in flight are at their end. -/
  | close : Change link t none (t.close link.now).1 (t.close link.now).2

/-! ### Sending -/

omit [DecidableEq Peer] in
/-- The time-out that is drawn depends on the next jitter only. -/
theorem jitter_congr {timing : Timing} {draws draws' : Draws} (h : draws.jitter = draws'.jitter) :
    (jitter timing draws).1 = (jitter timing draws').1 := by
  rw [jitter, jitter]
  split
  · rw [Draws.nextJitter, Draws.nextJitter, h]
    cases draws'.jitter <;> rfl
  · rfl

/-- A message whose id is settled is refused, or else it is accepted. -/
theorem sendAs_cases (link : Link) (peer : Peer) {type : MessageType} {id : UInt16} {m : Message}
    (t : Transmission Peer) (htype : m.type? = some type) (hid : m.id? = some id) :
    t.Refuses (t.sendAs link peer type id m) ∨
      t.Accepts link peer m (t.sendAs link peer type id m) := by
  have hm : { m with id? := some id } = m := by rw [← hid]
  rw [sendAs]
  split
  · exact .inl ⟨⟨_, rfl⟩, rfl, rfl, rfl⟩
  · rename_i hfree
    cases hbytes : m.encode with
    | error fault => exact .inl ⟨⟨_, rfl⟩, rfl, rfl, rfl⟩
    | ok bytes =>
      by_cases hopen : link.isOpen
      · simp only [hopen, if_true]
        rw [dispatch]
        by_cases hcon : type = .con
        · subst hcon
          have hnone : t.records.find? peer id = none := by
            rw [← Option.not_isSome_iff_eq_none]
            exact fun h => hfree ⟨rfl, h⟩
          simp only [if_true]
          -- The time-out is drawn before the record is made.
          cases hb : Backoff.start? link.timing (jitter link.timing t.draws).1 with
          | none => exact .inl ⟨⟨_, rfl⟩, rfl, rfl, rfl⟩
          | some backoff => exact .inr (.start htype (hm ▸ hbytes) hnone hb rfl rfl)
        · simp only [hcon, if_false]
          exact .inr (.once htype hcon (hm ▸ hbytes) rfl rfl)
      · simp only [hopen, Bool.false_eq_true, if_false]
        exact .inl ⟨⟨_, rfl⟩, rfl, rfl, rfl⟩

/-- Neither the messages in flight nor the jitter change when an id is taken. -/
theorem allocate_frame (link : Link) (peer : Peer) (t : Transmission Peer) :
    (t.allocate link peer).1.records = t.records ∧
      (t.allocate link peer).1.nextTicket = t.nextTicket ∧
        (t.allocate link peer).1.draws.jitter = t.draws.jitter := by
  have hid : t.draws.id.2.jitter = t.draws.jitter := by
    rw [Draws.id]
    cases t.draws.ids <;> rfl
  rw [allocate]
  cases t.counters.find? peer with
  | none =>
    exact ⟨rfl, rfl, hid⟩
  | some counter =>
    exact ⟨rfl, rfl, rfl⟩

/-- A message is accepted as it would be if it had the id that it gets. -/
theorem Accepts.of_id {link : Link} {peer : Peer} {m : Message} {id : UInt16}
    {t₁ t : Transmission Peer} {sent : Sent Peer}
    (h : t₁.Accepts link peer { m with id? := some id } sent) (hr : t₁.records = t.records)
    (hn : t₁.nextTicket = t.nextTicket) (hj : t₁.draws.jitter = t.draws.jitter) :
    t.Accepts link peer m sent := by
  cases h with
  | once type_eq unconfirmed encoded records next =>
    rw [hn] at next ⊢
    exact .once type_eq unconfirmed encoded (records.trans hr) next
  | start type_eq encoded free drawn records next =>
    rw [hn] at next records ⊢
    rw [hr] at free records
    rw [jitter_congr hj] at drawn
    exact .start type_eq encoded free drawn records next

/-- The receipt of a message that is accepted holds the next ticket. -/
theorem Accepts.result {link : Link} {peer : Peer} {m : Message} {t : Transmission Peer}
    {sent : Sent Peer} (h : t.Accepts link peer m sent) :
    ∃ id, sent.result = .ok ⟨t.nextTicket, id⟩ := by
  cases h with
  | once => exact ⟨_, rfl⟩
  | start => exact ⟨_, rfl⟩

/-- A message with an id of its own is sent under this id. -/
theorem send_of_id {link : Link} {peer : Peer} {m : Message} {type : MessageType} {id : UInt16}
    {t : Transmission Peer} (htype : m.type? = some type) (hid : m.id? = some id) :
    t.send link peer m = t.sendAs link peer type id m := by
  simp only [send, htype, hid]

/-- A message with an id of its own goes out if the id is free and the message can be written. -/
theorem send_of_encode {link : Link} {peer : Peer} {m : Message} {type : MessageType} {id : UInt16}
    {bytes : Bytes} {t : Transmission Peer} (htype : m.type? = some type) (hid : m.id? = some id)
    (hfree : t.records.contains peer id = false) (hencode : m.encode = .ok bytes)
    (hopen : link.isOpen) : t.send link peer m = t.dispatch link peer type id bytes := by
  rw [send_of_id htype hid, sendAs, hfree, hencode, if_neg fun h => Bool.false_ne_true h.2]
  exact if_pos hopen

/-- Once the way out is closed every message is refused. -/
theorem isOpen_of_send {link : Link} {peer : Peer} {m : Message} {t : Transmission Peer}
    {receipt : Receipt} (h : (t.send link peer m).result = .ok receipt) : link.isOpen := by
  refine Decidable.byContradiction fun hclosed => ?_
  -- The way out is looked at last, whatever the id is.
  have hsendAs : ∀ (type : MessageType) (id : UInt16) (m : Message) (t : Transmission Peer),
      (t.sendAs link peer type id m).result ≠ .ok receipt := by
    intro type id m t hok
    rw [sendAs] at hok
    split at hok
    · cases hok
    · split at hok
      · cases hok
      · cases hok
  rw [send] at h
  split at h
  · cases h
  · exact hsendAs _ _ _ _ h
  · split at h
    · cases h
    · exact hsendAs _ _ _ _ h

/-- A message is refused, or else it is accepted. -/
theorem send_cases (link : Link) (peer : Peer) (m : Message) (t : Transmission Peer) :
    t.Refuses (t.send link peer m) ∨ t.Accepts link peer m (t.send link peer m) := by
  cases htype : m.type? with
  | none =>
    have hsend : t.send link peer m = ⟨t, .error (.invalid .typeUnset), {}⟩ := by
      simp only [send, htype]
    rw [hsend]
    exact .inl ⟨⟨_, rfl⟩, rfl, rfl, rfl⟩
  | some type =>
    cases hid : m.id? with
    | some id =>
      rw [send_of_id htype hid]
      exact t.sendAs_cases link peer htype hid
    | none =>
      -- The message gets an id first, which changes nothing that accepting it looks at.
      obtain ⟨hr, hn, hj⟩ := t.allocate_frame link peer
      cases hallocate : t.allocate link peer with
      | mk t₁ id? =>
        rw [hallocate] at hr hn hj
        cases id? with
        | none =>
          have hsend : t.send link peer m = ⟨t₁, .error (.idsExhausted peer), {}⟩ := by
            simp only [send, htype, hid, hallocate]
          rw [hsend]
          exact .inl ⟨⟨_, rfl⟩, rfl, hr, hn⟩
        | some id =>
          have hsend : t.send link peer m =
              t₁.sendAs link peer type id { m with id? := some id } := by
            simp only [send, htype, hid, hallocate]
          have htype' : { m with id? := some id }.type? = some type := htype
          rw [hsend]
          rcases t₁.sendAs_cases link peer htype' rfl with ⟨result, progress, records, next⟩ | h
          · exact .inl ⟨result, progress, records.trans hr, next.trans hn⟩
          · exact .inr (h.of_id hr hn hj)

/-! ### Ending -/

/-- An acknowledgement or a rejection ends the message in flight that it concerns, if there is one.
    -/
theorem change_receive (link : Link) (peer : Peer) (m : Message) (t : Transmission Peer) :
    t.Change link none (t.receive link peer m).1
      { resolutions := (t.receive link peer m).2.toList } := by
  rw [receive]
  split
  · rename_i outcome id _ _
    cases hfound : t.records.find? peer id with
    | none => exact .still rfl rfl
    | some record => exact .finish hfound rfl rfl
  · exact .still rfl rfl

/-- To call off a message ends it, if it is in flight. -/
theorem change_cancel (link : Link) (peer : Peer) (id : UInt16) (t : Transmission Peer) :
    t.Change link none (t.cancel link peer id).1
      { resolutions := (t.cancel link peer id).2.toList } := by
  rw [cancel]
  cases hfound : t.records.find? peer id with
  | none => exact .still rfl rfl
  | some record => exact .finish hfound rfl rfl

end Transmission

/-! ### Steps -/

namespace Sender

/-- The ticket of a message that was accepted. -/
def Answer.ticket? : Answer Peer → Option Nat
  | .sent (.ok receipt) => some receipt.ticket
  | _ => none

/-- To send a message leaves the others alone, whether it is accepted or not. -/
theorem change_send (link : Link) (peer : Peer) (m : Message) (t : Transmission Peer) :
    t.Change link (Answer.sent (t.send link peer m).result).ticket?
      (t.send link peer m).transmission (t.send link peer m).progress := by
  rcases t.send_cases link peer m with ⟨⟨failure, hresult⟩, hprogress, records, next⟩ | h
  · rw [hresult, hprogress]
    exact .still records next
  · obtain ⟨id, hresult⟩ := h.result
    rw [hresult]
    exact .accept h

/-- The link after an event. -/
def Event.link (link : Link) : Event Peer → Link
  | .sleep ms => link.later ms
  | .closeLink => link.close
  | _ => link

omit [DecidableEq Peer] in
theorem Event.link_now_le (link : Link) (event : Event Peer) :
    link.now ≤ (event.link link).now := by
  cases event with
  | sleep ms => exact Nat.le_add_right _ _
  | _ => exact Nat.le_refl _

omit [DecidableEq Peer] in
theorem Event.link_isOpen (link : Link) {event : Event Peer} (h : event ≠ .closeLink) :
    (event.link link).isOpen = link.isOpen := by
  cases event with
  | closeLink => exact absurd rfl h
  | _ => rfl

/-- A step is one change, after which time passes. -/
theorem exists_change (s : Sender Peer) (event : Event Peer) :
    ∃ (answer : Answer Peer) (t : Transmission Peer) (progress : Progress Peer),
      s.transmission.Change s.link answer.ticket? t progress ∧
        s.step event = settle ⟨event.link s.link, t⟩ answer progress := by
  cases event with
  | send peer m => exact ⟨_, _, _, change_send s.link peer m s.transmission, rfl⟩
  | receive peer m => exact ⟨.found _, _, _, s.transmission.change_receive s.link peer m, rfl⟩
  | cancel peer id => exact ⟨.found _, _, _, s.transmission.change_cancel s.link peer id, rfl⟩
  | close => exact ⟨.done, _, _, .close, rfl⟩
  | purge =>
    exact ⟨.count _, s.transmission.purge s.link.timing s.link.now, {}, .still rfl rfl, rfl⟩
  | sleep ms => exact ⟨.done, _, _, .still rfl rfl, rfl⟩
  | closeLink => exact ⟨.done, _, _, .still rfl rfl, rfl⟩

/-- What a step does to the link is what the event does to it. -/
theorem step_link (s : Sender Peer) (event : Event Peer) :
    (s.step event).1.link = event.link s.link := by
  obtain ⟨answer, t, progress, -, hstep⟩ := s.exists_change event
  rw [hstep]
  rfl

end Sender

end Coap

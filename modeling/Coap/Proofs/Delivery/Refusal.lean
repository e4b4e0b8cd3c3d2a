import Coap.Proofs.Delivery.Allocation
import Coap.Proofs.Store.Ledger

/-!
# Messages that are refused

Before a message goes out it needs a type and an id, the id has to be free if the message is
confirmable, the message has to have a written form, and the way out has to be open. Whether the id
is its own or it gets one, the id is settled first (`Transmission.Uses`), so a counter may move for
a message that is refused later on. This is all that a message leaves behind that is refused.

* `Transmission.Rejects`: why a message is refused, and with which failure;
* `Transmission.send_of_rejects`: a message that is refused leaves the messages in flight alone, and
  the counters of all other peers;
* `Transmission.rejects_or_goes`: there is no other reason to refuse a message;
* `Sender.rejection`: both of this after every run.
-/

namespace Coap

variable {Peer : Type} [DecidableEq Peer]

namespace Transmission

/-- The id that a message to a peer is to go out with. -/
inductive Uses (t : Transmission Peer) (peer : Peer) (m : Message) : UInt16 → Prop where
  /-- Its own one, unless the message is confirmable and another one with this id is in flight. -/
  | own {id : UInt16} (id_eq : m.id? = some id)
      (free : ¬ (m.type? = some .con ∧ t.records.contains peer id)) : Uses t peer m id
  /-- The first one that is free, if it has none. -/
  | allotted {id : UInt16} (id_eq : m.id? = none) (first : t.FirstFree peer id) : Uses t peer m id

/-- Why a message to a peer is refused, and how the sender is told. -/
inductive Rejects (link : Link) (t : Transmission Peer) (peer : Peer) (m : Message) :
    Failure Peer → Prop where
  | untyped (type_eq : m.type? = none) : Rejects link t peer m (.invalid .typeUnset)
  /-- It needs an id, and all of them are in flight to the peer. -/
  | exhausted (typed : m.type? ≠ none) (id_eq : m.id? = none)
      (taken : ∀ id, t.records.contains peer id = true) :
      Rejects link t peer m (.idsExhausted peer)
  /-- It is confirmable, and another one with its id is in flight to the peer. -/
  | inFlight {id : UInt16} (type_eq : m.type? = some .con) (id_eq : m.id? = some id)
      (taken : t.records.contains peer id = true) : Rejects link t peer m (.idInFlight id peer)
  | unwritable {id : UInt16} {fault : Fault} (typed : m.type? ≠ none) (uses : t.Uses peer m id)
      (unencoded : { m with id? := some id }.encode = .error fault) :
      Rejects link t peer m (.invalid fault)
  | closed {id : UInt16} {bytes : Bytes} (typed : m.type? ≠ none) (uses : t.Uses peer m id)
      (encoded : { m with id? := some id }.encode = .ok bytes) (isClosed : link.isOpen = false) :
      Rejects link t peer m .closed

/-- What a message to a peer that is refused leaves of what was there: all but its counter. -/
structure Leaves (t : Transmission Peer) (peer : Peer) (m : Message) (t' : Transmission Peer) :
    Prop where
  find? : ∀ other id, t'.records.find? other id = t.records.find? other id
  inFlight : t'.inFlight = t.inFlight
  nextTicket : t'.nextTicket = t.nextTicket
  others : ∀ other ≠ peer, t'.counters.find? other = t.counters.find? other
  /-- No counter moves for a message that needs no id. -/
  counters : m.type? = none ∨ m.id? ≠ none → t'.counters = t.counters

variable {link : Link} {peer : Peer} {m : Message} {type : MessageType} {id : UInt16}
  {failure : Failure Peer} {t : Transmission Peer}

theorem Leaves.rfl : t.Leaves peer m t :=
  ⟨fun _ _ => .refl _, .refl _, .refl _, fun _ _ => .refl _, fun _ => .refl _⟩

/-- A counter moves only for a message that needs an id. -/
theorem Leaves.counted (htype : m.type? = some type) (hid : m.id? = none) (next : UInt16) :
    t.Leaves peer m (t.counted link peer next) where
  find? _ _ := .refl _
  inFlight := .refl _
  nextTicket := .refl _
  others other hother := (Table.find?_insert _ _ _ _).trans (if_neg hother)
  counters h := by
    rcases h with h | h
    · cases h.symm.trans htype
    · exact absurd hid h

/-- Once the id is settled it is not in the way of the message, and no trace of it is left but in
    the counter of the peer. -/
theorem Uses.exists_send_eq (link : Link) (h : t.Uses peer m id) (htype : m.type? = some type) :
    ∃ t', t.Leaves peer m t' ∧ ¬ (type = .con ∧ t'.records.contains peer id) ∧
      t.send link peer m = t'.sendAs link peer type id { m with id? := some id } := by
  cases h with
  | own id_eq free =>
    have hm : { m with id? := some id } = m := by rw [← id_eq]
    rw [htype, Option.some.injEq] at free
    exact ⟨t, .rfl, free, by rw [hm, send_of_id htype id_eq]⟩
  | allotted id_eq first =>
    have hm : { m with id? := some id }.type? = some type := htype
    refine ⟨t.counted link peer (id + 1), .counted htype id_eq _, ?_, ?_⟩
    · -- The id is the first free one, so no message in flight has it.
      rintro ⟨-, htaken⟩
      obtain ⟨k, -, -, hfree, -⟩ := first
      cases hfree.symm.trans htaken
    · rw [send_of_firstFree htype id_eq first, send_of_id hm rfl]

/-- A message that is refused is not sent, and it leaves nothing behind but its counter. -/
theorem send_of_rejects (h : t.Rejects link peer m failure) :
    ∃ t', t.Leaves peer m t' ∧ t.send link peer m = ⟨t', .error failure, {}⟩ := by
  -- The five reasons; in each of them the sending stops at a check of its own.
  cases h with
  | untyped type_eq =>
    refine ⟨t, .rfl, ?_⟩
    simp only [send, type_eq]
  | exhausted typed id_eq taken =>
    obtain ⟨type, htype⟩ := Option.ne_none_iff_exists'.1 typed
    exact ⟨_, .counted htype id_eq _, send_of_exhausted htype id_eq taken⟩
  | inFlight type_eq id_eq taken =>
    refine ⟨t, .rfl, ?_⟩
    rw [send_of_id type_eq id_eq, sendAs, if_pos ⟨rfl, taken⟩]
  | unwritable typed uses unencoded =>
    obtain ⟨type, htype⟩ := Option.ne_none_iff_exists'.1 typed
    obtain ⟨t', hleaves, hfree, hsend⟩ := uses.exists_send_eq link htype
    refine ⟨t', hleaves, ?_⟩
    rw [hsend, sendAs, if_neg hfree, unencoded]
  | closed typed uses encoded isClosed =>
    obtain ⟨type, htype⟩ := Option.ne_none_iff_exists'.1 typed
    obtain ⟨t', hleaves, hfree, hsend⟩ := uses.exists_send_eq link htype
    refine ⟨t', hleaves, ?_⟩
    rw [hsend, sendAs, if_neg hfree, encoded]
    exact if_neg (Bool.eq_false_iff.1 isClosed)

/-- A message has an id to go out with, or it is refused for want of one. -/
theorem uses_or_rejects (link : Link) (t : Transmission Peer) (peer : Peer)
    (htype : m.type? = some type) :
    (∃ id, t.Uses peer m id) ∨ ∃ failure, t.Rejects link peer m failure := by
  have htyped : m.type? ≠ none := fun h => by cases h.symm.trans htype
  cases hid : m.id? with
  | none =>
    by_cases hfree : ∃ id, t.records.contains peer id = false
    · obtain ⟨id, hfirst⟩ := exists_firstFree hfree
      exact .inl ⟨id, .allotted hid hfirst⟩
    · simp only [not_exists, Bool.not_eq_false] at hfree
      exact .inr ⟨_, .exhausted htyped hid hfree⟩
  | some id =>
    by_cases htaken : m.type? = some .con ∧ t.records.contains peer id
    · exact .inr ⟨_, .inFlight htaken.1 hid htaken.2⟩
    · exact .inl ⟨id, .own hid htaken⟩

/-- A message that is sent is refused only if its first time-out is too long. -/
theorem dispatch_result (link : Link) (peer : Peer) (type : MessageType) (id : UInt16)
    (bytes : Bytes) (t : Transmission Peer) :
    (t.dispatch link peer type id bytes).result = .error .timeoutTooLong ∨
      ∃ receipt, (t.dispatch link peer type id bytes).result = .ok receipt := by
  rw [dispatch]
  split
  · dsimp only
    cases Backoff.start? link.timing (jitter link.timing t.draws).1 with
    | none => exact .inl rfl
    | some backoff => exact .inr ⟨_, rfl⟩
  · exact .inr ⟨_, rfl⟩

/-- A message is refused, or it goes out; then only its time-out can be too long. -/
theorem rejects_or_goes (link : Link) (t : Transmission Peer) (peer : Peer) (m : Message) :
    (∃ failure, t.Rejects link peer m failure) ∨
      (t.send link peer m).result = .error .timeoutTooLong ∨
        ∃ receipt, (t.send link peer m).result = .ok receipt := by
  cases htype : m.type? with
  | none => exact .inl ⟨_, .untyped htype⟩
  | some type =>
    have htyped : m.type? ≠ none := fun h => by cases h.symm.trans htype
    obtain ⟨id, huses⟩ | hrejects := t.uses_or_rejects link peer htype
    · -- The message has an id, so it is written, and it goes out if it can be and the way is open.
      cases hbytes : { m with id? := some id }.encode with
      | error fault => exact .inl ⟨_, .unwritable htyped huses hbytes⟩
      | ok bytes =>
        by_cases hopen : link.isOpen
        · obtain ⟨t', -, hfree, hsend⟩ := huses.exists_send_eq link htype
          refine .inr ?_
          rw [hsend, sendAs, if_neg hfree, hbytes]
          simp only [hopen, if_true]
          exact t'.dispatch_result link peer type id bytes
        · exact .inl ⟨_, .closed htyped huses hbytes (Bool.eq_false_iff.2 hopen)⟩
    · exact .inl hrejects

end Transmission

namespace Sender

variable {s : Sender Peer} {peer : Peer} {m : Message} {failure : Failure Peer}

/-- As long as no timer is due, nothing comes of a message that is refused. -/
theorem step_of_rejects (hcalm : s.transmission.Calm (.endOf s.link.now))
    (h : s.transmission.Rejects s.link peer m failure) :
    (s.step (.send peer m)).2 = ⟨.sent (.error failure), {}⟩ ∧
      s.transmission.Leaves peer m (s.step (.send peer m)).1.transmission := by
  -- A message that is refused changes at most the counter of its peer; as no timer is due, time
  -- changes nothing more.
  obtain ⟨t, hleaves, hsend⟩ := Transmission.send_of_rejects h
  have hstep : s.step (.send peer m) = settle ⟨s.link, t⟩ (.sent (.error failure)) {} := by
    rw [step, hsend]
  have ht : t.Calm (.endOf s.link.now) := fun hr => hcalm ((hleaves.find? _ _).symm.trans hr)
  obtain ⟨hreport, hfind⟩ := step_of_calm ht hstep
  have hcounters : (s.step (.send peer m)).1.transmission.counters = t.counters := by
    rw [hstep]
    rfl
  have hfind' : ∀ other id, (s.step (.send peer m)).1.transmission.records.find? other id =
      s.transmission.records.find? other id :=
    fun other id => (hfind other id).trans (hleaves.find? other id)
  have hsize := Ledger.size_congr fun other id => congrArg Option.isSome (hfind' other id)
  refine ⟨hreport, hfind', hsize, ?_, ?_, ?_⟩
  · rw [hstep]
    exact hleaves.nextTicket
  · rw [hcounters]
    exact hleaves.others
  · rw [hcounters]
    exact hleaves.counters

/-- Which messages are refused after every run, and that nothing comes of them: no datagram and no
    end of a message, and what is in flight is what was in flight. Only the counter of the peer may
    have moved. (A time-out that is too long shows only once the message is on its way; it is not
    among the reasons.) -/
theorem rejection (link : Link) (draws : Draws) (events : List (Event Peer)) (peer : Peer)
    (m : Message) (failure : Failure Peer) :
    let s := ((⟨link, { draws }⟩ : Sender Peer).run events).1
    ((s.step (.send peer m)).2.answer = .sent (.error failure) ∧ failure ≠ .timeoutTooLong ↔
        s.transmission.Rejects s.link peer m failure) ∧
      (s.transmission.Rejects s.link peer m failure →
        (s.step (.send peer m)).2.progress = {} ∧ (s.step (.send peer m)).1.link = s.link ∧
          s.transmission.Leaves peer m (s.step (.send peer m)).1.transmission) := by
  intro s
  have hcalm : s.transmission.Calm (.endOf s.link.now) := (accounts_run link draws events).calm
  refine ⟨⟨?_, fun h => ?_⟩, fun h => ?_⟩
  · -- Whatever is refused has one of the five reasons, or its time-out is too long.
    rintro ⟨herror, hne⟩
    have hresult : (s.transmission.send s.link peer m).result = .error failure :=
      Answer.sent.inj herror
    obtain ⟨failure', h⟩ | hlong | ⟨receipt, hok⟩ :=
      Transmission.rejects_or_goes s.link s.transmission peer m
    · obtain ⟨t', -, hsend⟩ := Transmission.send_of_rejects h
      rw [hsend] at hresult
      obtain rfl := Except.error.inj hresult
      exact h
    · exact absurd (Except.error.inj (hresult.symm.trans hlong)) hne
    · cases hresult.symm.trans hok
  · -- A reason is never that the time-out is too long.
    refine ⟨by rw [(step_of_rejects hcalm h).1], ?_⟩
    rintro rfl
    cases h
  · obtain ⟨hreport, hleaves⟩ := step_of_rejects hcalm h
    exact ⟨by rw [hreport], s.step_link (.send peer m), hleaves⟩

/-- A message gets the id after the one that is in flight, and cannot be written then. The counter
    has gone past both; what is in flight is in flight still. -/
theorem rejection_unwritable :
    let start : Sender Unit := ⟨{}, { draws := { ids := [7] } }⟩
    let get : Message := { type? := some .con, code := .get, id? := some 7 }
    let unknown : Message := { type? := some .con, code := .unassigned 8, id? := none }
    let s := (start.run [.send () get]).1
    let result := s.step (.send () unknown)
    s.transmission.Rejects s.link () unknown (.invalid (.unknownCode 8)) ∧
      result.2.answer = .sent (.error (.invalid (.unknownCode 8))) ∧ result.2.progress = {} ∧
        s.transmission.Leaves () unknown result.1.transmission ∧
          result.1.transmission.records.contains () 7 ∧
          result.1.transmission.counters.find? () = some ⟨9, 0⟩ := by
  intro start get unknown s result
  -- The first message takes an id, so that the second one gets the id after it and then turns out
  -- to have no written form.
  have hencode : get.encode = .ok [0x40, 1, 0, 7] := by cbv
  have hsend : start.transmission.send start.link () get =
      start.transmission.dispatch start.link () .con 7 [0x40, 1, 0, 7] :=
    Transmission.send_of_encode rfl rfl rfl hencode rfl
  have hs : s = (start.step (.send () get)).1 := rfl
  rw [step, hsend] at hs
  have hfirst : s.transmission.FirstFree () 8 := by
    rw [hs]
    exact ⟨1, by decide, by decide +kernel, by decide +kernel, by decide +kernel⟩
  have hrejects : s.transmission.Rejects s.link () unknown (.invalid (.unknownCode 8)) :=
    .unwritable (by decide) (.allotted rfl hfirst) rfl
  obtain ⟨hiff, himp⟩ := rejection {} { ids := [7] } [.send () get] () unknown
    (.invalid (.unknownCode 8))
  obtain ⟨hprogress, -, hleaves⟩ := himp hrejects
  have hseven : s.transmission.records.contains () 7 := by
    rw [hs]
    decide +kernel
  refine ⟨hrejects, (hiff.2 hrejects).1, hprogress, hleaves, ?_, ?_⟩
  · rwa [Ledger.contains, hleaves.find? () 7]
  · have hcalm : s.transmission.Calm (.endOf s.link.now) :=
      (accounts_run {} { ids := [7] } [.send () get]).calm
    exact ((allots hcalm (rfl : unknown.type? = some .con) rfl).step_eq hfirst).2

end Sender

end Coap

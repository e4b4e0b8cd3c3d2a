import Coap.Proofs.Delivery.Settlement

/-!
# Which id a message gets

A message without an id gets the first one that is not in flight to its peer, in cyclic order from
the next one of the peer on (`Transmission.FirstFree`); then the one after it is the next one. As
all ids are looked at, there is none just if all of them are in flight to this peer, and then the
next one stays the same. What is in flight to other peers does not matter.

* `Transmission.send_of_firstFree`: a message is sent as if it had had the id that it gets;
* `Transmission.send_of_exhausted`: what happens if there is no free id;
* `Sender.allocation`: the ids that messages get after every run.
-/

namespace Coap

variable {Peer : Type} [DecidableEq Peer]

namespace Transmission

/-- The id that is tried first for the next message to a peer: that of its counter, or a drawn one
    if it has none. -/
def nextId (peer : Peer) (t : Transmission Peer) : UInt16 :=
  ((t.counters.find? peer).map Counter.next).getD t.draws.id.1

/-- The transmission where the counter of a peer was put to an id. The counter of a new peer takes a
    draw. -/
def counted (link : Link) (peer : Peer) (next : UInt16) (t : Transmission Peer) :
    Transmission Peer :=
  { t with
    draws := if t.counters.contains peer then t.draws else t.draws.id.2
    counters := t.counters.insert peer ⟨next, link.now⟩ }

/-- An id is the first one that is not in flight to a peer, in cyclic order from the next one on. -/
def FirstFree (t : Transmission Peer) (peer : Peer) (id : UInt16) : Prop :=
  ∃ k < UInt16.size, id = t.nextId peer + UInt16.ofNat k ∧
    t.records.contains peer id = false ∧
      ∀ j < k, t.records.contains peer (t.nextId peer + UInt16.ofNat j) = true

variable {link : Link} {peer : Peer} {m : Message} {type : MessageType} {id : UInt16}
  {t t' : Transmission Peer}

/-- The first free id of the specification is the one that the search finds. -/
theorem firstFree_iff : t.FirstFree peer id ↔
    firstFree? (t.records.contains peer) UInt16.size (t.nextId peer) = some id :=
  firstFree?_eq_some_iff.symm

/-- There is one first free id at most. -/
theorem FirstFree.unique {id' : UInt16} (h : t.FirstFree peer id) (h' : t.FirstFree peer id') :
    id' = id :=
  Option.some.inj ((firstFree_iff.1 h').symm.trans (firstFree_iff.1 h))

/-- There is a first free id as long as one is free at all. -/
theorem exists_firstFree (h : ∃ id, t.records.contains peer id = false) :
    ∃ id, t.FirstFree peer id := by
  obtain ⟨id, hid⟩ := h
  cases hfirst : firstFree? (t.records.contains peer) UInt16.size (t.nextId peer) with
  | none =>
    have htaken := firstFree?_eq_none_iff.1 hfirst id
    cases hid.symm.trans htaken
  | some id' => exact ⟨id', firstFree_iff.2 hfirst⟩

/-- What is in flight to other peers does not matter. -/
theorem FirstFree.congr
    (hrecords : ∀ id, t'.records.contains peer id = t.records.contains peer id)
    (hnext : t'.nextId peer = t.nextId peer) : t'.FirstFree peer id ↔ t.FirstFree peer id := by
  rw [firstFree_iff, firstFree_iff, hnext, funext hrecords]

/-! ### Sending -/

/-- To take an id is to find the first free one and to move the counter behind it; the counter stays
    where it is if there is none. -/
theorem allocate_eq (link : Link) (peer : Peer) (t : Transmission Peer) :
    t.allocate link peer =
      match firstFree? (t.records.contains peer) UInt16.size (t.nextId peer) with
      | some id => (t.counted link peer (id + 1), some id)
      | none => (t.counted link peer (t.nextId peer), none) := by
  -- What is drawn and what is counted is the same whether there was a counter or not.
  have hsearch : t.allocate link peer =
      let found := search (t.records.contains peer) UInt16.size (t.nextId peer)
      (t.counted link peer found.1, found.2) := by
    cases hcounter : t.counters.find? peer with
    | none =>
      simp only [allocate, nextId, counted, Table.contains, hcounter, Option.map_none,
        Option.getD_none]
      rfl
    | some counter =>
      simp only [allocate, nextId, counted, Table.contains, hcounter, Option.map_some,
        Option.getD_some]
      rfl
  rw [hsearch]
  cases hfirst : firstFree? (t.records.contains peer) UInt16.size (t.nextId peer) with
  | some id => rw [search_of_some hfirst]
  | none => rw [search_of_none hfirst]

/-- A message is sent as if it had had the id that it gets. -/
theorem send_of_firstFree (htype : m.type? = some type) (hid : m.id? = none)
    (h : t.FirstFree peer id) :
    t.send link peer m =
      (t.counted link peer (id + 1)).send link peer { m with id? := some id } := by
  have hallocate : t.allocate link peer = (t.counted link peer (id + 1), some id) := by
    rw [allocate_eq, firstFree_iff.1 h]
  simp only [send, htype, hid, hallocate]

/-- If all ids are in flight the message is refused, and nothing but its counter changes. -/
theorem send_of_exhausted (htype : m.type? = some type) (hid : m.id? = none)
    (h : ∀ id, t.records.contains peer id = true) :
    t.send link peer m =
      ⟨t.counted link peer (t.nextId peer), .error (.idsExhausted peer), {}⟩ := by
  have hallocate : t.allocate link peer = (t.counted link peer (t.nextId peer), none) := by
    rw [allocate_eq, firstFree?_eq_none_iff.2 h]
  simp only [send, htype, hid, hallocate]

/-- What becomes of a message that is sent with a free id: it gets this id, and it is refused just
    if it has no written form, or the way out is closed, or its time-out is too long. -/
theorem sendAs_of_free (link : Link) (type : MessageType) (m : Message)
    (hfree : t.records.contains peer id = false) :
    (t.sendAs link peer type id m).transmission.counters = t.counters ∧
      (t.sendAs link peer type id m).result ≠ .error (.idsExhausted peer) ∧
      ((∃ receipt, (t.sendAs link peer type id m).result = .ok receipt) ↔
        (∃ bytes, m.encode = .ok bytes) ∧ link.isOpen ∧
          (type = .con → (Backoff.start? link.timing (jitter link.timing t.draws).1).isSome)) ∧
      ∀ receipt, (t.sendAs link peer type id m).result = .ok receipt →
        receipt.id = id ∧ ∃ bytes, m.encode = .ok bytes ∧
          (t.sendAs link peer type id m).progress.emissions =
            [⟨link.now, peer, bytes, receipt.ticket⟩] := by
  have hnot : ¬(type = .con ∧ t.records.contains peer id) := fun h => by
    cases hfree.symm.trans h.2
  rw [sendAs, if_neg hnot]
  -- The three reasons for a refusal, in the order in which they are found.
  cases hbytes : m.encode with
  | error fault => simp
  | ok bytes =>
    by_cases hopen : link.isOpen
    · simp only [hopen, if_true, dispatch]
      by_cases hcon : type = .con
      · cases Backoff.start? link.timing (jitter link.timing t.draws).1 with
        | none => simp [hcon]
        | some backoff => simp [hcon]
      · simp [hcon]
    · simp [hopen]

/-- A counter that moves on does not change which time-out is drawn. -/
theorem jitter_counted (link : Link) (peer : Peer) (next : UInt16) (t : Transmission Peer) :
    (jitter link.timing (t.counted link peer next).draws).1 =
      (jitter link.timing t.draws).1 := by
  refine jitter_congr ?_
  rw [counted]
  dsimp only
  split
  · rfl
  · rw [Draws.id]
    cases t.draws.ids <;> rfl

end Transmission

namespace Sender

/-- How a sender sends a message to a peer that has no id. -/
structure Allots (s : Sender Peer) (peer : Peer) (m : Message) : Prop where
  /-- There is one first free id, unless all are in flight to the peer. -/
  firstFree : (∃ id, s.transmission.records.contains peer id = false) →
    ∃ id, s.transmission.FirstFree peer id ∧
      ∀ id', s.transmission.FirstFree peer id' → id' = id
  /-- The message is sent as if it had had this id, and the counter goes one past it. -/
  step_eq : ∀ {id}, s.transmission.FirstFree peer id →
    s.step (.send peer m) =
        { s with transmission := s.transmission.counted s.link peer (id + 1) }.step
          (.send peer { m with id? := some id }) ∧
      (s.step (.send peer m)).1.transmission.counters.find? peer = some ⟨id + 1, s.link.now⟩
  /-- It goes out with this id, unless something else is wrong with it. -/
  accepted : ∀ {id}, s.transmission.FirstFree peer id →
    ((∃ receipt, (s.step (.send peer m)).2.answer = .sent (.ok receipt)) ↔
        (∃ bytes, { m with id? := some id }.encode = .ok bytes) ∧ s.link.isOpen ∧
          (m.type? = some .con → (Backoff.start? s.link.timing
            (Transmission.jitter s.link.timing s.transmission.draws).1).isSome)) ∧
      ∀ receipt, (s.step (.send peer m)).2.answer = .sent (.ok receipt) → receipt.id = id ∧
        ∃ bytes, { m with id? := some id }.encode = .ok bytes ∧
          ⟨s.link.now, peer, bytes, some receipt.ticket⟩ ∈
            (s.step (.send peer m)).2.progress.emissions
  /-- The ids are exhausted just if all of them are in flight to the peer. -/
  exhausted_iff : (s.step (.send peer m)).2.answer = .sent (.error (.idsExhausted peer)) ↔
    ∀ id, s.transmission.records.contains peer id = true
  /-- If they are, the counter stays at the id where it was and nothing else happens. -/
  exhausted : (∀ id, s.transmission.records.contains peer id = true) →
    (s.step (.send peer m)).2.progress = {} ∧
      (s.step (.send peer m)).1.transmission.counters.find? peer =
        some ⟨s.transmission.nextId peer, s.link.now⟩ ∧
      ∀ peer' id, (s.step (.send peer m)).1.transmission.records.find? peer' id =
        s.transmission.records.find? peer' id
  /-- What is in flight to other peers does not matter. -/
  alone : ∀ {t : Transmission Peer} {id},
    (∀ id, t.records.contains peer id = s.transmission.records.contains peer id) →
      t.nextId peer = s.transmission.nextId peer →
        (t.FirstFree peer id ↔ s.transmission.FirstFree peer id)

variable {s : Sender Peer} {peer : Peer} {m : Message} {type : MessageType} {id : UInt16}

/-- A message without an id gets the first free one, or it is refused as there is none. -/
theorem allots (hcalm : s.transmission.Calm (.endOf s.link.now)) (htype : m.type? = some type)
    (hid : m.id? = none) : s.Allots peer m := by
  -- A message without an id is sent with the first free one, from a counter that is behind it.
  have hchanges := s.changesTo_send peer m
  have hcounters : (s.step (.send peer m)).1.transmission.counters =
      (s.transmission.send s.link peer m).transmission.counters := rfl
  have hcounted : ∀ next,
      (s.transmission.counted s.link peer next).counters.find? peer = some ⟨next, s.link.now⟩ :=
    fun next => (Table.find?_insert _ _ _ _).trans (if_pos rfl)
  have hsend : ∀ {id}, s.transmission.FirstFree peer id → s.transmission.send s.link peer m =
      (s.transmission.counted s.link peer (id + 1)).sendAs s.link peer type id
        { m with id? := some id } := by
    intro id h
    have hm : { m with id? := some id }.type? = some type := htype
    rw [Transmission.send_of_firstFree htype hid h, Transmission.send_of_id hm rfl]
  have hfree : ∀ {id}, s.transmission.FirstFree peer id →
      (s.transmission.counted s.link peer (id + 1)).records.contains peer id = false := by
    rintro id ⟨k, -, -, hfree, -⟩
    exact hfree
  have hfirst : (∃ id, s.transmission.records.contains peer id = false) →
      ∃ id, s.transmission.FirstFree peer id := Transmission.exists_firstFree
  constructor
  case firstFree =>
    intro h
    obtain ⟨id, hid⟩ := hfirst h
    exact ⟨id, hid, fun id' hid' => hid.unique hid'⟩
  case step_eq =>
    intro id h
    -- With an id the message is sent as any other; no counter moves any more.
    obtain ⟨hsame, -⟩ := Transmission.sendAs_of_free s.link type { m with id? := some id } (hfree h)
    refine ⟨?_, ?_⟩
    · rw [step, step, Transmission.send_of_firstFree htype hid h]
    · rw [hcounters, hsend h, hsame, hcounted]
  case accepted =>
    intro id h
    obtain ⟨-, -, hiff, hok⟩ := Transmission.sendAs_of_free s.link type { m with id? := some id }
      (hfree h)
    rw [← hsend h] at hiff hok
    rw [Transmission.jitter_counted] at hiff
    have hanswer : ∀ receipt, (s.step (.send peer m)).2.answer = .sent (.ok receipt) ↔
        (s.transmission.send s.link peer m).result = .ok receipt :=
      fun receipt => ⟨Answer.sent.inj, congrArg Answer.sent⟩
    refine ⟨?_, fun receipt hreceipt => ?_⟩
    · -- The answer of the step is the result of the sending.
      simp only [hanswer]
      rw [hiff, htype, Option.some.injEq]
    · obtain ⟨rfl, bytes, hbytes, hemissions⟩ := hok receipt ((hanswer receipt).1 hreceipt)
      refine ⟨rfl, bytes, hbytes, ?_⟩
      rw [hchanges.step_eq]
      refine List.mem_append_left _ ?_
      rw [hemissions]
      exact List.mem_singleton_self _
  case exhausted_iff =>
    constructor
    · -- If an id were free the message would have been sent with it.
      intro hanswer id
      by_contra htaken
      obtain ⟨id', hid'⟩ := hfirst ⟨id, Bool.eq_false_iff.2 htaken⟩
      obtain ⟨-, hne, -⟩ := Transmission.sendAs_of_free s.link type { m with id? := some id' }
        (hfree hid')
      rw [← hsend hid'] at hne
      exact hne (Answer.sent.inj hanswer)
    · intro h
      have hresult : (s.transmission.send s.link peer m).result = .error (.idsExhausted peer) := by
        rw [Transmission.send_of_exhausted htype hid h]
      exact congrArg Answer.sent hresult
  case exhausted =>
    intro h
    have hexhausted :
        s.transmission.send s.link peer m =
          ⟨s.transmission.counted s.link peer (s.transmission.nextId peer),
            .error (.idsExhausted peer), {}⟩ :=
      Transmission.send_of_exhausted htype hid h
    rw [hexhausted] at hchanges
    obtain ⟨hreport, hfind⟩ := step_of_calm hcalm hchanges.step_eq
    refine ⟨by rw [hreport], ?_, hfind⟩
    rw [hcounters, hexhausted, hcounted]
  case alone => exact Transmission.FirstFree.congr

/-- Which ids messages get that have none, after every run. Those in flight to a peer are the ids of
    the confirmable messages to it that are not at their end, and the first one that is not in
    flight is used (`Allots`). -/
theorem allocation (link : Link) (draws : Draws) (events : List (Event Peer)) {peer : Peer}
    {m : Message} {type : MessageType} (htype : m.type? = some type) (hid : m.id? = none) :
    let start : Sender Peer := ⟨link, { draws }⟩
    let s := (start.run events).1
    (∀ id, s.transmission.records.contains peer id ↔
        ∃ f, start.Unsettled events f ∧ f.peer = peer ∧ f.id = id) ∧
      s.Allots peer m := by
  intro start s
  have h : start.Accounts events := accounts_run link draws events
  -- The keys in flight are those of the messages that have not ended, one key each.
  have hbij := h.bijOn (.empty draws)
  refine ⟨fun id => ⟨fun hmem => ?_, ?_⟩, allots h.calm htype hid⟩
  · obtain ⟨f, hf, hkey⟩ := hbij.surjOn (a := (peer, id)) hmem
    obtain ⟨hpeer, hid'⟩ := Prod.mk.inj hkey
    exact ⟨f, hf, hpeer, hid'⟩
  · rintro ⟨f, hf, rfl, rfl⟩
    exact hbij.mapsTo hf

/-- The first id drawn is the last of all, and it is in flight already, so the message gets the
    first of all. -/
theorem allocation_wraps :
    let start : Sender Unit := ⟨{}, { draws := { ids := [65535] } }⟩
    let taken : Message := { type? := some .con, code := .get, id? := some 65535 }
    let get : Message := { type? := some .con, code := .get, id? := none }
    let s := (start.run [.send () taken]).1
    get.type? = some .con ∧ get.id? = none ∧ s.transmission.FirstFree () 0 ∧
      (∃ receipt, (s.step (.send () get)).2.answer = .sent (.ok receipt) ∧ receipt.id = 0) ∧
        (s.step (.send () get)).1.transmission.counters.find? () = some ⟨1, 0⟩ := by
  intro start taken get s
  -- The first message takes the last of all ids, so that the search for the next one comes round.
  have hencode : taken.encode = .ok [0x40, 1, 0xff, 0xff] := by cbv
  have hsend : start.transmission.send start.link () taken =
      start.transmission.dispatch start.link () .con 65535 [0x40, 1, 0xff, 0xff] :=
    Transmission.send_of_encode rfl rfl rfl hencode rfl
  have hs : s = (start.step (.send () taken)).1 := rfl
  rw [step, hsend] at hs
  have hfirst : s.transmission.FirstFree () 0 := by
    rw [hs]
    exact ⟨1, by decide, by decide +kernel, by decide +kernel, by decide +kernel⟩
  have hallots : s.Allots () get :=
    (allocation {} { ids := [65535] } [.send () taken]
      (rfl : get.type? = some .con) rfl).2
  have hbytes : { get with id? := some 0 }.encode = .ok [0x40, 1, 0, 0] := by cbv
  obtain ⟨hiff, hid⟩ := hallots.accepted hfirst
  have hdrawn : (Backoff.start? s.link.timing
      (Transmission.jitter s.link.timing s.transmission.draws).1).isSome := by
    rw [hs]
    decide +kernel
  obtain ⟨receipt, hreceipt⟩ := hiff.2 ⟨⟨_, hbytes⟩, rfl, fun _ => hdrawn⟩
  exact ⟨rfl, rfl, hfirst, ⟨receipt, hreceipt, (hid receipt hreceipt).1⟩,
    (hallots.step_eq hfirst).2⟩

end Sender

end Coap

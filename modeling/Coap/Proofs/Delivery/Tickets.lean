import Coap.Proofs.Delivery.Change
import Coap.Proofs.Delivery.Flight
import Coap.Proofs.Store.Ledger

/-!
# Tickets

Every message that is accepted has a ticket of its own. Whatever happens to the messages in flight
concerns one that was in flight before or was accepted just then, and a message whose end is
reported is not in flight any more (`Transmission.Turn`). This holds of one operation, of the
passing of time, and thus of every run.

* `Transmission.Turn.trans`: one turn after the other is a turn;
* `Sender.turn_run`: a run is a turn;
* `Transmission.Turn.of_gone`: nothing happens any more to a message that is not in flight.
-/

namespace Coap

variable {Peer : Type}

/-! ### Progress -/

/-- What concerns one message. -/
def Progress.of (ticket : Nat) (p : Progress Peer) : Progress Peer :=
  ⟨p.emissions.filter (·.ticket? = some ticket), p.resolutions.filter (·.ticket = ticket)⟩

theorem Progress.append_def (p q : Progress Peer) :
    p ++ q = ⟨p.emissions ++ q.emissions, p.resolutions ++ q.resolutions⟩ := rfl

theorem Progress.append_empty (p : Progress Peer) : p ++ {} = p := by
  rw [append_def, List.append_nil, List.append_nil]

theorem Progress.append_assoc (p q r : Progress Peer) : p ++ q ++ r = p ++ (q ++ r) := by
  simp only [append_def, List.append_assoc]

/-- What concerns a ticket is gathered part by part. -/
theorem Progress.of_append (ticket : Nat) (p q : Progress Peer) :
    (p ++ q).of ticket = p.of ticket ++ q.of ticket := by
  simp only [append_def, of, List.filter_append]

/-- Nothing concerns a ticket just if no copy and no end is its own. -/
theorem Progress.of_eq_empty_iff {ticket : Nat} {p : Progress Peer} :
    p.of ticket = {} ↔
      (∀ e ∈ p.emissions, e.ticket? ≠ some ticket) ∧ ∀ r ∈ p.resolutions, r.ticket ≠ ticket := by
  simp only [of, mk.injEq, List.filter_eq_nil_iff, decide_eq_true_eq]

/-- What is about one ticket only concerns it as a whole. -/
theorem Progress.of_eq_self {ticket : Nat} {p : Progress Peer}
    (he : ∀ e ∈ p.emissions, e.ticket? = some ticket)
    (hr : ∀ r ∈ p.resolutions, r.ticket = ticket) : p.of ticket = p := by
  rw [of, List.filter_eq_self.2 fun e h => decide_eq_true (he e h),
    List.filter_eq_self.2 fun r h => decide_eq_true (hr r h)]

namespace Transmission

variable [DecidableEq Peer]

/-- Whether the message with a ticket is in flight. -/
def Live (t : Transmission Peer) (ticket : Nat) : Prop :=
  ∃ peer id record, t.records.find? peer id = some record ∧ record.ticket = ticket

/-- The messages in flight have tickets that were given out, each one of its own. -/
structure Ticketed (t : Transmission Peer) : Prop where
  fresh : ∀ {peer id record}, t.records.find? peer id = some record →
    record.ticket < t.nextTicket
  apart : ∀ {peer id record peer' id' record'}, t.records.find? peer id = some record →
    t.records.find? peer' id' = some record' → record.ticket = record'.ticket →
    (peer, id) = (peer', id')

/-- What happens to the messages in flight while some tickets are given out. -/
structure Turn (t : Transmission Peer) (tickets : List Nat) (t' : Transmission Peer)
    (p : Progress Peer) : Prop where
  ticketed : t'.Ticketed
  le : t.nextTicket ≤ t'.nextTicket
  tickets_eq : tickets = List.range' t.nextTicket (t'.nextTicket - t.nextTicket)
  live : ∀ {ticket}, t'.Live ticket → t.Live ticket ∨ ticket ∈ tickets
  emissions : ∀ e ∈ p.emissions, ∃ ticket, e.ticket? = some ticket ∧
    (t.Live ticket ∨ ticket ∈ tickets)
  resolutions : ∀ r ∈ p.resolutions, (t.Live r.ticket ∨ r.ticket ∈ tickets) ∧ ¬ t'.Live r.ticket

variable {t t' t'' : Transmission Peer} {tickets tickets' : List Nat} {p q : Progress Peer}
  {ticket : Nat}

/-- The ticket of a message in flight was given out. -/
theorem Ticketed.lt (h : t.Ticketed) (hl : t.Live ticket) : ticket < t.nextTicket := by
  obtain ⟨peer, id, record, hr, rfl⟩ := hl
  exact h.fresh hr

/-- At first no ticket was given out. -/
theorem Ticketed.empty (draws : Draws) : ({ draws } : Transmission Peer).Ticketed where
  fresh h := by cases h
  apart h := by cases h

/-- Messages that were in flight before, with the same keys, have tickets of their own. -/
theorem Ticketed.of_find? (h : t.Ticketed) (hn : t.nextTicket ≤ t'.nextTicket)
    (hf : ∀ {peer id record'}, t'.records.find? peer id = some record' →
      ∃ record, t.records.find? peer id = some record ∧ record'.ticket = record.ticket) :
    t'.Ticketed where
  fresh hr := by
    obtain ⟨record, hr', ht⟩ := hf hr
    rw [ht]
    exact Nat.lt_of_lt_of_le (h.fresh hr') hn
  apart hr₁ hr₂ ht := by
    obtain ⟨record₁, hr₁', ht₁⟩ := hf hr₁
    obtain ⟨record₂, hr₂', ht₂⟩ := hf hr₂
    exact h.apart hr₁' hr₂' (ht₁.symm.trans (ht.trans ht₂))

/-- Tickets are in order as long as the messages in flight are the same. -/
theorem Ticketed.congr (h : t.Ticketed) (hr : t'.records = t.records)
    (hn : t.nextTicket ≤ t'.nextTicket) : t'.Ticketed := by
  refine h.of_find? hn fun {peer id record'} hfind => ⟨record', ?_, rfl⟩
  rw [← hr]
  exact hfind

namespace Turn

/-- The tickets of a turn are those that the counter went past. -/
theorem mem_tickets_iff (h : t.Turn tickets t' p) :
    ticket ∈ tickets ↔ t.nextTicket ≤ ticket ∧ ticket < t'.nextTicket := by
  have := h.le
  rw [h.tickets_eq, List.mem_range'_1]
  omega

/-- Whatever happens concerns a message that was accepted. -/
theorem lt_of_or (ht : t.Ticketed) (h : t.Turn tickets t' p)
    (hk : t.Live ticket ∨ ticket ∈ tickets) : ticket < t'.nextTicket := by
  rcases hk with hk | hk
  · exact Nat.lt_of_lt_of_le (ht.lt hk) h.le
  · exact (h.mem_tickets_iff.1 hk).2

/-- Two turns, one after the other, are one turn. -/
theorem trans (ht : t.Ticketed) (h : t.Turn tickets t' p) (h' : t'.Turn tickets' t'' q) :
    t.Turn (tickets ++ tickets') t'' (p ++ q) := by
  have hle := h.le
  have hle' := h'.le
  have hor : ∀ {ticket}, t'.Live ticket ∨ ticket ∈ tickets' →
      t.Live ticket ∨ ticket ∈ tickets ++ tickets' := by
    rintro ticket (hk | hk)
    · exact (h.live hk).imp_right (List.mem_append_left _)
    · exact .inr (List.mem_append_right _ hk)
  refine ⟨h'.ticketed, Nat.le_trans hle hle', ?_, fun hk => hor (h'.live hk), ?_, ?_⟩
  · -- The tickets of the second turn follow those of the first.
    rw [h.tickets_eq, h'.tickets_eq]
    have hnext : t'.nextTicket = t.nextTicket + (t'.nextTicket - t.nextTicket) := by omega
    have hcount : t''.nextTicket - t.nextTicket =
        (t'.nextTicket - t.nextTicket) + (t''.nextTicket - t'.nextTicket) := by omega
    rw [hcount, ← List.range'_append_1, ← hnext]
  · intro e he
    rcases List.mem_append.1 he with he | he
    · obtain ⟨ticket, hticket, hk⟩ := h.emissions e he
      exact ⟨ticket, hticket, hk.imp_right (List.mem_append_left _)⟩
    · obtain ⟨ticket, hticket, hk⟩ := h'.emissions e he
      exact ⟨ticket, hticket, hor hk⟩
  · intro r hr
    rcases List.mem_append.1 hr with hr | hr
    · obtain ⟨hk, hgone⟩ := h.resolutions r hr
      refine ⟨hk.imp_right (List.mem_append_left _), fun hlive => ?_⟩
      -- The ticket is not given out again.
      rcases h'.live hlive with hlive | hnew
      · exact hgone hlive
      · exact absurd (h.lt_of_or ht hk) (Nat.not_lt.2 (h'.mem_tickets_iff.1 hnew).1)
    · obtain ⟨hk, hgone⟩ := h'.resolutions r hr
      exact ⟨hor hk, hgone⟩

/-- A turn concerns messages that were in flight, and those that get their tickets in it. -/
theorem of_eq_empty (h : t.Turn tickets t' p) (hnot : ¬ (t.Live ticket ∨ ticket ∈ tickets)) :
    p.of ticket = {} := by
  refine Progress.of_eq_empty_iff.2 ⟨fun e he hticket => ?_, fun r hr hticket => ?_⟩
  · obtain ⟨ticket', hticket', hk⟩ := h.emissions e he
    obtain rfl := Option.some.inj (hticket.symm.trans hticket')
    exact hnot hk
  · exact hnot (hticket ▸ (h.resolutions r hr).1)

/-- Nothing happens to a message that is not in flight. -/
theorem of_gone (h : t.Turn tickets t' p) (hk : ticket < t.nextTicket) (hgone : ¬ t.Live ticket) :
    p.of ticket = {} ∧ ¬ t'.Live ticket := by
  have hnot : ¬ (t.Live ticket ∨ ticket ∈ tickets) := by
    rintro (hlive | hnew)
    · exact hgone hlive
    · exact absurd hk (Nat.not_lt.2 (h.mem_tickets_iff.1 hnew).1)
  exact ⟨h.of_eq_empty hnot, fun hlive => hnot (h.live hlive)⟩

end Turn

/-! ### Operations -/

theorem live_congr (h : t'.records = t.records) : t'.Live ticket ↔ t.Live ticket := by
  rw [Live, Live, h]

theorem Ticketed.not_live_nextTicket (h : t.Ticketed) : ¬ t.Live t.nextTicket :=
  fun hl => Nat.lt_irrefl _ (h.lt hl)

omit [DecidableEq Peer] in
theorem tickets_eq_nil (h : t'.nextTicket = t.nextTicket) :
    [] = List.range' t.nextTicket (t'.nextTicket - t.nextTicket) := by
  rw [h, Nat.sub_self, List.range'_zero]

omit [DecidableEq Peer] in
theorem tickets_eq_singleton (h : t'.nextTicket = t.nextTicket + 1) :
    [t.nextTicket] = List.range' t.nextTicket (t'.nextTicket - t.nextTicket) := by
  rw [h, Nat.add_sub_cancel_left, List.range'_one]

/-- Nothing happens in a turn that leaves the messages in flight alone. -/
theorem Turn.of_still (ht : t.Ticketed) (records : t'.records = t.records)
    (next : t'.nextTicket = t.nextTicket) : t.Turn [] t' {} where
  ticketed := ht.congr records (Nat.le_of_eq next.symm)
  le := Nat.le_of_eq next.symm
  tickets_eq := tickets_eq_nil next
  live hl := .inl ((live_congr records).1 hl)
  emissions := List.forall_mem_nil _
  resolutions := List.forall_mem_nil _

/-- A message that is accepted takes the next ticket. -/
theorem Turn.of_accepts {link : Link} {peer : Peer} {m : Message} {sent : Sent Peer}
    (ht : t.Ticketed) (h : t.Accepts link peer m sent) :
    t.Turn [t.nextTicket] sent.transmission sent.progress := by
  have hmem : t.nextTicket ∈ [t.nextTicket] := List.mem_singleton_self _
  cases h with
  | once type_eq unconfirmed encoded records next =>
    -- The new ticket is never in flight.
    have hle : t.nextTicket ≤ t.nextTicket + 1 := Nat.le_succ _
    refine ⟨ht.congr records (next ▸ hle), next ▸ hle, tickets_eq_singleton next,
      fun hl => .inl ((live_congr records).1 hl), ?_, ?_⟩
    · intro e he
      obtain rfl := List.mem_singleton.1 he
      exact ⟨_, rfl, .inr hmem⟩
    · intro r hr
      obtain rfl := List.mem_singleton.1 hr
      exact ⟨.inr hmem, fun hl => ht.not_live_nextTicket ((live_congr records).1 hl)⟩
  | start type_eq encoded free drawn records next =>
    rename_i id bytes backoff t'
    have hle : t.nextTicket ≤ t'.nextTicket := next ▸ Nat.le_succ _
    -- A record is the new one, which has the new ticket, or it was there before.
    have hfind : ∀ {peer' id' record}, t'.records.find? peer' id' = some record →
        (peer', id') = (peer, id) ∧ record.ticket = t.nextTicket ∨
          t.records.find? peer' id' = some record := by
      intro peer' id' record hr
      rw [records, Ledger.find?_insert] at hr
      split at hr
      · rename_i hkey
        obtain rfl := Option.some.inj hr
        exact .inl ⟨Prod.ext hkey.1 hkey.2, rfl⟩
      · exact .inr hr
    refine ⟨⟨?_, ?_⟩, hle, tickets_eq_singleton next, ?_, ?_, ?_⟩
    · intro peer' id' record hr
      rcases hfind hr with ⟨-, hticket⟩ | hr
      · rw [hticket, next]
        exact Nat.lt_succ_self _
      · exact Nat.lt_of_lt_of_le (ht.fresh hr) hle
    · intro peer₁ id₁ record₁ peer₂ id₂ record₂ hr₁ hr₂ heq
      rcases hfind hr₁ with ⟨hkey₁, hticket₁⟩ | hr₁ <;>
        rcases hfind hr₂ with ⟨hkey₂, hticket₂⟩ | hr₂
      · exact hkey₁.trans hkey₂.symm
      · exact absurd (ht.fresh hr₂) (by omega)
      · exact absurd (ht.fresh hr₁) (by omega)
      · exact ht.apart hr₁ hr₂ heq
    · rintro ticket ⟨peer', id', record, hr, rfl⟩
      rcases hfind hr with ⟨-, hticket⟩ | hr
      · exact .inr (hticket ▸ hmem)
      · exact .inl ⟨_, _, _, hr, rfl⟩
    · intro e he
      obtain rfl := List.mem_singleton.1 he
      exact ⟨_, rfl, .inr hmem⟩
    · intro r hr
      cases hr

/-- Each operation is a turn. -/
theorem Turn.of_change {link : Link} {ticket? : Option Nat} (ht : t.Ticketed)
    (h : t.Change link ticket? t' p) : t.Turn ticket?.toList t' p := by
  cases h with
  | still records next => exact .of_still ht records next
  | accept accepts => exact .of_accepts ht accepts
  | finish found records next =>
    rename_i peer id record outcome
    -- What is still in flight has another key than the message at its end.
    have hfind : ∀ {peer' id' record'}, t'.records.find? peer' id' = some record' →
        (peer', id') ≠ (peer, id) ∧ t.records.find? peer' id' = some record' := by
      intro peer' id' record' hr
      rw [records, Ledger.find?_erase] at hr
      split at hr
      · cases hr
      · rename_i hkey
        exact ⟨fun h => hkey (Prod.ext_iff.1 h), hr⟩
    have hle : t.nextTicket ≤ t'.nextTicket := Nat.le_of_eq next.symm
    refine ⟨ht.of_find? hle fun hr => ⟨_, (hfind hr).2, rfl⟩, hle, tickets_eq_nil next, ?_,
      List.forall_mem_nil _, ?_⟩
    · rintro ticket ⟨peer', id', record', hr, rfl⟩
      exact .inl ⟨_, _, _, (hfind hr).2, rfl⟩
    · intro r hr
      obtain rfl := List.mem_singleton.1 hr
      refine ⟨.inl ⟨_, _, _, found, rfl⟩, ?_⟩
      rintro ⟨peer', id', record', hr', heq⟩
      exact (hfind hr').1 (ht.apart (hfind hr').2 found heq)
  | close =>
    have hgone : ∀ ticket, ¬ (t.close link.now).1.Live ticket := by
      rintro ticket ⟨peer, id, record, hr, -⟩
      cases hr
    have hticketed : (t.close link.now).1.Ticketed :=
      ⟨fun hr => (by cases hr), fun hr => (by cases hr)⟩
    refine ⟨hticketed, Nat.le_refl _, tickets_eq_nil rfl, fun hl => absurd hl (hgone _),
      List.forall_mem_nil _, ?_⟩
    intro r hr
    obtain ⟨⟨⟨peer, id⟩, record⟩, hmem, rfl⟩ := List.mem_map.1 hr
    exact ⟨.inl ⟨_, _, _, Ledger.mem_toList_iff.1 hmem, rfl⟩, hgone _⟩

/-! ### Time -/

/-- What is sent as time passes is a copy of a message in flight. -/
theorem mem_elapse_emissions {link : Link} {moment : Moment} {e : Emission Peer} :
    e ∈ (t.elapse link moment).2.emissions ↔ ∃ peer id record,
      t.records.find? peer id = some record ∧
        e ∈ (record.elapse link peer id moment).2.emissions := by
  simp only [elapse, List.flatMap_map]
  exact Ledger.mem_flatMap_toList

/-- What ends as time passes is a message in flight. -/
theorem mem_elapse_resolutions {link : Link} {moment : Moment} {r : Resolution Peer} :
    r ∈ (t.elapse link moment).2.resolutions ↔ ∃ peer id record,
      t.records.find? peer id = some record ∧
        r ∈ (record.elapse link peer id moment).2.resolutions := by
  simp only [elapse, List.flatMap_map]
  exact Ledger.mem_flatMap_toList

/-- As time passes no ticket is given out. -/
theorem Turn.of_elapse (ht : t.Ticketed) (link : Link) (moment : Moment) :
    t.Turn [] (t.elapse link moment).1 (t.elapse link moment).2 := by
  -- What remains of a record was there before, with the same ticket.
  have hfind : ∀ {peer id record'},
      (t.elapse link moment).1.records.find? peer id = some record' →
        ∃ record, t.records.find? peer id = some record ∧
          (record.elapse link peer id moment).1 = some record' ∧
            record'.ticket = record.ticket := by
    intro peer id record' hr
    rw [find?_elapse] at hr
    obtain ⟨record, hr, hrest⟩ := Option.bind_eq_some_iff.1 hr
    exact ⟨record, hr, hrest, ((record.elapse_concerns link peer id moment).rest _ hrest).1⟩
  refine ⟨ht.of_find? (Nat.le_refl _) fun hr => ?_, Nat.le_refl _, tickets_eq_nil rfl, ?_, ?_, ?_⟩
  · obtain ⟨record, hr, -, hticket⟩ := hfind hr
    exact ⟨record, hr, hticket⟩
  · rintro ticket ⟨peer, id, record', hr, rfl⟩
    obtain ⟨record, hr, -, hticket⟩ := hfind hr
    exact .inl ⟨peer, id, record, hr, hticket.symm⟩
  · intro e he
    obtain ⟨peer, id, record, hr, he⟩ := mem_elapse_emissions.1 he
    have hticket := (record.elapse_concerns link peer id moment).emissions e he
    exact ⟨record.ticket, hticket, .inl ⟨peer, id, record, hr, rfl⟩⟩
  · intro r hmem
    obtain ⟨peer, id, record, hr, hmem⟩ := mem_elapse_resolutions.1 hmem
    have hconcerns := record.elapse_concerns link peer id moment
    have hticket := hconcerns.resolutions r hmem
    refine ⟨.inl ⟨peer, id, record, hr, hticket.symm⟩, ?_⟩
    rintro ⟨peer', id', rest, hrest, heq⟩
    obtain ⟨record', hr', hrest', hticket'⟩ := hfind hrest
    -- A record of the same ticket has the same key, so it would be what remains of this one.
    have hkey := ht.apart hr' hr (hticket'.symm.trans (heq.trans hticket))
    obtain ⟨rfl, rfl⟩ := Prod.mk.inj hkey
    obtain rfl := Option.some.inj (hr.symm.trans hr')
    rw [(hconcerns.rest _ hrest').2] at hmem
    cases hmem

/-! ### What concerns one message in flight -/

variable {peer : Peer} {id : UInt16} {record : Record}

/-- What time brings about for a message in flight comes from its own record. -/
theorem of_elapse (ht : t.Ticketed) (hr : t.records.find? peer id = some record) (link : Link)
    (moment : Moment) :
    (t.elapse link moment).2.of record.ticket = (record.elapse link peer id moment).2 := by
  have hconcerns := record.elapse_concerns link peer id moment
  rw [← Progress.of_eq_self hconcerns.emissions hconcerns.resolutions]
  simp only [elapse, Progress.of, List.flatMap_map, List.filter_flatMap, Progress.mk.injEq]
  -- The record of another key has another ticket.
  have hother : ∀ {peer' id' record'}, t.records.find? peer' id' = some record' →
      (peer', id') ≠ (peer, id) → record'.ticket ≠ record.ticket :=
    fun hr' hne heq => hne (ht.apart hr' hr heq)
  constructor
  · rw [Ledger.flatMap_toList_of_find? hr]
    intro peer' id' record' hr' hne
    refine List.filter_eq_nil_iff.2 fun e he heq => hother hr' hne ?_
    have hticket := (record'.elapse_concerns link peer' id' moment).emissions e he
    exact Option.some.inj (hticket.symm.trans (of_decide_eq_true heq))
  · rw [Ledger.flatMap_toList_of_find? hr]
    intro peer' id' record' hr' hne
    refine List.filter_eq_nil_iff.2 fun r hmem heq => hother hr' hne ?_
    have hticket := (record'.elapse_concerns link peer' id' moment).resolutions r hmem
    exact hticket.symm.trans (of_decide_eq_true heq)

/-- Calling off all messages ends each of them once. -/
theorem of_close (ht : t.Ticketed) (hr : t.records.find? peer id = some record) (time : Nat) :
    (t.close time).2.of record.ticket =
      { resolutions := [⟨time, record.ticket, .failed .closed⟩] } := by
  simp only [close, Progress.of, List.filter_nil, Progress.mk.injEq, true_and,
    List.map_eq_flatMap, List.filter_flatMap]
  rw [Ledger.flatMap_toList_of_find? hr]
  · exact List.filter_cons_of_pos (decide_eq_true rfl)
  · intro peer' id' record' hr' hne
    exact List.filter_cons_of_neg fun heq => hne (ht.apart hr' hr (of_decide_eq_true heq))

end Transmission

/-! ### Runs -/

/-- What happens in the course of some events happens before the last one of them, or then. -/
theorem exists_split_concat_iff {α : Type} {P : List α → α → Prop} {l : List α} {a : α} :
    (∃ before b after, l ++ [a] = before ++ b :: after ∧ P before b) ↔
      (∃ before b after, l = before ++ b :: after ∧ P before b) ∨ P l a := by
  constructor
  · rintro ⟨before, b, after, heq, h⟩
    rcases after.eq_nil_or_concat with rfl | ⟨after', last, rfl⟩
    · obtain ⟨rfl, hlast⟩ := List.append_inj' heq rfl
      obtain rfl := List.singleton_inj.1 hlast
      exact .inr h
    · rw [List.concat_eq_append, ← List.cons_append, ← List.append_assoc] at heq
      exact .inl ⟨before, b, after', (List.append_inj' heq rfl).1, h⟩
  · rintro (⟨before, b, after, rfl, h⟩ | h)
    · exact ⟨before, b, after ++ [a], List.append_assoc _ _ _, h⟩
    · exact ⟨l, a, [], rfl, h⟩

namespace Sender

/-- What a run brought about, all in all. -/
def total (reports : List (Report Peer)) : Progress Peer :=
  reports.foldr (fun report p => report.progress ++ p) {}

/-- The tickets of the messages that were accepted in a run. -/
def tickets (reports : List (Report Peer)) : List Nat :=
  reports.flatMap fun report => report.answer.ticket?.toList

/-- What a run brings about is gathered part by part. -/
theorem total_append (reports reports' : List (Report Peer)) :
    total (reports ++ reports') = total reports ++ total reports' := by
  induction reports with
  | nil => rfl
  | cons report reports ih =>
    rw [List.cons_append, total, List.foldr_cons, ← total, ih, ← Progress.append_assoc]
    rfl

variable [DecidableEq Peer]

theorem run_cons (s : Sender Peer) (event : Event Peer) (events : List (Event Peer)) :
    s.run (event :: events) = (((s.step event).1.run events).1,
      (s.step event).2 :: ((s.step event).1.run events).2) := rfl

theorem run_append (s : Sender Peer) (events events' : List (Event Peer)) :
    s.run (events ++ events') = (((s.run events).1.run events').1,
      (s.run events).2 ++ ((s.run events).1.run events').2) := by
  induction events generalizing s with
  | nil => rfl
  | cons event events ih => rw [List.cons_append, run_cons, ih, run_cons, List.cons_append]

/-- The way out stays open unless an event closes it. -/
theorem run_isOpen (s : Sender Peer) {events : List (Event Peer)} (h : .closeLink ∉ events) :
    (s.run events).1.link.isOpen = s.link.isOpen := by
  induction events generalizing s with
  | nil => rfl
  | cons event events ih =>
    rw [List.mem_cons, not_or] at h
    rw [run_cons, ih _ h.2, step_link, Event.link_isOpen _ (Ne.symm h.1)]

/-- Each step is a turn: the ticket of its answer is the one that it gives out. -/
theorem turn_step (s : Sender Peer) (ht : s.transmission.Ticketed) (event : Event Peer) :
    s.transmission.Turn (s.step event).2.answer.ticket?.toList (s.step event).1.transmission
      (s.step event).2.progress := by
  obtain ⟨answer, t, progress, hchange, hstep⟩ := s.exists_change event
  have hturn := Transmission.Turn.of_change ht hchange
  have hlate := Transmission.Turn.of_elapse hturn.ticketed (event.link s.link)
    (.endOf (event.link s.link).now)
  have := hturn.trans ht hlate
  rw [List.append_nil] at this
  rw [hstep]
  exact this

/-- A run is a turn. -/
theorem turn_run (s : Sender Peer) (ht : s.transmission.Ticketed) (events : List (Event Peer)) :
    s.transmission.Turn (tickets (s.run events).2) (s.run events).1.transmission
      (total (s.run events).2) := by
  -- That tickets are apart is carried along, as the turns can be joined only then.
  induction events generalizing s with
  | nil => exact .of_still ht rfl rfl
  | cons event events ih =>
    have hturn := s.turn_step ht event
    exact hturn.trans ht (ih _ hturn.ticketed)

end Sender

end Coap

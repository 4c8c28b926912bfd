import Irlume.Diagnostics.Sent

/-!
# A trace accounts for every event

Beside the collector a ledger is kept: the events that passed, those of them counted as dropped and not yet in a
marker, and what each record sent accounts for. Every event that passed is accounted for once (`Audited.once`).
-/

namespace Irlume.Diagnostics

open Std Irlume.Lib

variable {Data : Type} {observed : Observed Data} {c : TraceSubscriber} {s : Collector Data}

/-! ## The ledger -/

/-- What a record accounts for: events are known by their place among those that passed. -/
inductive Tag where
  | started
  | event (i : Nat)
  | marker (is : List Nat)
  | terminal

def Tag.accounted : Tag → List Nat
  | .event i => [i]
  | .marker is => is
  | _ => []

def Tag.isEvent : Tag → Bool
  | .event _ => true
  | _ => false

def Tag.dropCount : Tag → Nat
  | .marker is => is.length
  | _ => 0

def Explains (passing : List (Emit Data)) (record : TraceRecord Data) : Tag → Prop
  | .started => ∃ limits warning, record.event = .traceStarted limits warning
  | .event i => ∃ e, passing[i]? = some e ∧ record.operationId = e.operationId ∧ record.operation = e.operation ∧
      record.event = e.kind
  | .marker is => record.event = .eventsDropped is.length
  | .terminal => ∃ outcome, record.event = .finished outcome

theorem Explains.mono {passing later : List (Emit Data)} {record : TraceRecord Data} {tag : Tag}
    (h : Explains passing record tag) : Explains (passing ++ later) record tag := by
  cases tag with
  | event i =>
    obtain ⟨e, he, hrecord⟩ := h
    exact ⟨e, List.getElem?_append_left (List.getElem?_eq_some_iff.1 he).1 ▸ he, hrecord⟩
  | started | marker | terminal => exact h

structure Ledger (Data : Type) where
  passing : List (Emit Data)
  pending : List Nat
  tags : List Tag

namespace Ledger

def mark (l : Ledger Data) : Ledger Data := { l with pending := [], tags := l.tags ++ [.marker l.pending] }

def settle (l : Ledger Data) (e : Emit Data) : Fate → Ledger Data
  | .omitted => l
  | .delivered => { l with passing := l.passing ++ [e], tags := l.tags ++ [.event l.passing.length] }
  | .dropped => { l with passing := l.passing ++ [e], pending := l.pending ++ [l.passing.length] }

def finish (l : Ledger Data) : Ledger Data :=
  let l := if l.pending = [] then l else l.mark
  { l with tags := l.tags ++ [.terminal] }

end Ledger

/-! ## The invariant -/

/-- The records of a trace: those that were received, those to receive and those `finish` returned. -/
def Collector.records (s : Collector Data) : List (TraceRecord Data) := s.received ++ s.queue ++ s.returned

def bytesOf (observed : Observed Data) (records : List (TraceRecord Data)) : Nat :=
  (records.map (·.lineBytes observed)).sum

def Numbered (records : List (TraceRecord Data)) : Prop := records.map (·.sequence) = List.range records.length

def EndsTrace (records : List (TraceRecord Data)) : Prop :=
  ∃ before last, records = before ++ [last] ∧ last.terminal = true ∧ ∀ r ∈ before, r.terminal = false

theorem Numbered.concat {records : List (TraceRecord Data)} {r : TraceRecord Data} (h : Numbered records)
    (hr : r.sequence = records.length) : Numbered (records ++ [r]) := by
  rw [Numbered, List.map_append, h, List.length_append, List.length_singleton, List.range_succ, List.map_singleton, hr]

theorem bytesOf_concat (records : List (TraceRecord Data)) (r : TraceRecord Data) :
    bytesOf observed (records ++ [r]) = bytesOf observed records + r.lineBytes observed := by
  rw [bytesOf, List.map_append, List.sum_append, List.map_singleton, List.sum_singleton, bytesOf]

structure Audited (s : Collector Data) (l : Ledger Data) : Prop where
  connected : s.connected = true
  explained : List.Forall₂ (Explains l.passing) s.records l.tags
  numbered : Numbered s.records
  next : s.inner.nextSequence = s.records.length
  pending : s.inner.pendingDropped = l.pending.length
  once : (l.tags.flatMap Tag.accounted ++ l.pending).Perm (List.range l.passing.length)

/-- A trace that goes on: there is room for two more records. -/
structure Collecting (observed : Observed Data) (s : Collector Data) : Prop where
  collecting : s.inner.finished = false
  returned : s.returned = []
  room : s.inner.nextSequence ≤ maxTraceEvents - 2
  bytes : bytesOf observed s.records = s.inner.emittedBytes
  bytesRoom : s.inner.emittedBytes ≤ maxTraceBytes - 2 * maxTraceLineBytes
  notTerminal : ∀ r ∈ s.records, r.terminal = false

/-- A trace that ended. -/
structure Closed (observed : Observed Data) (s : Collector Data) (l : Ledger Data) : Prop where
  finished : s.inner.finished = true
  pending : l.pending = []
  length : s.records.length ≤ maxTraceEvents
  bytes : bytesOf observed s.records ≤ maxTraceBytes
  ends : EndsTrace s.records

/-! ## What the parts of a step keep -/

theorem records_take (s : Collector Data) (n : Nat) : (s.take n).records = s.records := by
  simp only [Collector.records, Collector.take]
  rw [List.append_assoc s.received, List.take_append_drop]

theorem records_sent (observed : Observed Data) (c : TraceSubscriber) (hreturned : s.returned = []) (r : Sending Data) :
    (c.sent observed s r).records = s.records ++ [c.record s.inner.nextSequence r] := by
  simp only [Collector.records, TraceSubscriber.sent]
  rw [hreturned, List.append_nil, List.append_nil, List.append_assoc]

namespace Collecting

variable (h : Collecting observed s)

include h

theorem take (n : Nat) : Collecting observed (s.take n) :=
  { h with
    bytes := (congrArg _ (records_take s n)).trans h.bytes
    notTerminal := fun r hr => h.notTerminal r (records_take s n ▸ hr) }

theorem pending (count : Nat) :
    Collecting observed { s with inner := { s.inner with pendingDropped := count } } := { h with }

theorem sent {r : Sending Data} (hterminal : r.terminal = false)
    (hroom : s.inner.nextSequence < maxTraceEvents - 2)
    (hbytes : s.inner.emittedBytes + (c.record s.inner.nextSequence r).lineBytes observed ≤
      maxTraceBytes - 2 * maxTraceLineBytes) : Collecting observed (c.sent observed s r) where
  collecting := h.collecting
  returned := h.returned
  room := hroom
  bytes := by
    rw [records_sent observed c h.returned, bytesOf_concat, h.bytes]
    rfl
  bytesRoom := hbytes
  notTerminal := fun x hx => by
    rw [records_sent observed c h.returned] at hx
    rcases List.mem_append.1 hx with hx | hx
    · exact h.notTerminal x hx
    · rw [List.mem_singleton.1 hx]
      exact hterminal

end Collecting

namespace Audited

variable {l : Ledger Data}

variable (h : Audited s l)

include h

theorem take (n : Nat) : Audited (s.take n) l :=
  { h with
    explained := records_take s n ▸ h.explained
    numbered := (records_take s n).symm ▸ h.numbered
    next := h.next.trans (congrArg _ (records_take s n).symm) }

theorem pending_le : l.pending.length ≤ l.passing.length := by
  have hlength := h.once.length_eq
  rw [List.length_append, List.length_range] at hlength
  omega

theorem append {s' : Collector Data} {l' : Ledger Data} {record : TraceRecord Data} (tag : Tag)
    (hconnected : s'.connected = s.connected) (hrecords : s'.records = s.records ++ [record])
    (hsequence : record.sequence = s.inner.nextSequence) (hnext : s'.inner.nextSequence = s.inner.nextSequence + 1)
    (hpassing : ∃ later, l'.passing = l.passing ++ later) (htags : l'.tags = l.tags ++ [tag])
    (hexplains : Explains l'.passing record tag) (hpending : s'.inner.pendingDropped = l'.pending.length)
    (honce : (l'.tags.flatMap Tag.accounted ++ l'.pending).Perm (List.range l'.passing.length)) : Audited s' l' where
  connected := hconnected.trans h.connected
  explained := by
    obtain ⟨later, hpassing⟩ := hpassing
    rw [hrecords, htags]
    refine List.rel_append (h.explained.imp fun _ _ hx => ?_) (.cons hexplains .nil)
    exact hpassing ▸ hx.mono
  numbered := by
    rw [hrecords]
    exact h.numbered.concat (hsequence.trans h.next)
  next := by rw [hnext, h.next, hrecords, List.length_append, List.length_singleton]
  pending := hpending
  once := honce

theorem mark {s' : Collector Data} {record : TraceRecord Data}
    (hconnected : s'.connected = s.connected) (hrecords : s'.records = s.records ++ [record])
    (hsequence : record.sequence = s.inner.nextSequence) (hnext : s'.inner.nextSequence = s.inner.nextSequence + 1)
    (hevent : record.event = .eventsDropped s.inner.pendingDropped) (hpending : s'.inner.pendingDropped = 0) :
    Audited s' l.mark := by
  refine h.append (.marker l.pending) hconnected hrecords hsequence hnext ⟨[], (List.append_nil _).symm⟩ rfl
    (hevent.trans (congrArg _ h.pending)) hpending ?_
  simp only [Ledger.mark, List.flatMap_append, List.flatMap_singleton, Tag.accounted, List.append_nil]
  exact h.once

theorem delivered (hreturned : s.returned = []) (e : Emit Data) :
    Audited (c.sent observed s e.sending) (l.settle e .delivered) := by
  refine h.append (.event l.passing.length) rfl (records_sent observed c hreturned _) rfl rfl ⟨[e], rfl⟩ rfl ?_ h.pending ?_
  · exact ⟨e, List.getElem?_concat_length, rfl, rfl, rfl⟩
  · simp only [Ledger.settle, List.flatMap_append, List.flatMap_singleton, Tag.accounted, List.length_append,
      List.length_singleton, List.range_succ]
    rw [List.append_assoc]
    refine (List.perm_append_comm.append_left _).trans ?_
    rw [← List.append_assoc]
    exact h.once.append_right _

theorem dropped (e : Emit Data) (hcount : l.passing.length < u64Max) :
    Audited s.countDropped (l.settle e .dropped) where
  connected := h.connected
  explained := h.explained.imp fun _ _ hx => hx.mono
  numbered := h.numbered
  next := h.next
  pending := by
    have hle := h.pending_le
    simp only [Collector.countDropped, Ledger.settle, List.length_append, List.length_singleton]
    rw [h.pending, saturatingAdd_of_le (by omega)]
  once := by
    simp only [Ledger.settle, List.length_append, List.length_singleton, List.range_succ]
    rw [← List.append_assoc]
    exact h.once.append_right _

end Audited

/-! ## Emitting -/

theorem emitEvent_marked (s : Collector Data) (e : Emit Data) (marked : Bool) :
    (c.emitEvent observed s e marked).1.marked = marked := by
  rw [TraceSubscriber.emitEvent]
  split
  · rfl
  · split <;> rfl

variable {l : Ledger Data}

theorem Audited.emitEvent (hc : c.Bounded) (h : Audited s l) (ho : Collecting observed s)
    (e : Emit Data)
    (marked : Bool)
    (hcount : (l.settle e (c.emitEvent observed s e marked).1.fate).passing.length ≤ u64Max) :
    Audited (c.emitEvent observed s e marked).2 (l.settle e (c.emitEvent observed s e marked).1.fate) ∧
      Collecting observed (c.emitEvent observed s e marked).2 := by
  rw [TraceSubscriber.emitEvent] at hcount ⊢
  split
  · exact ⟨h, ho⟩
  · next hdeadline =>
    rw [if_neg hdeadline] at hcount
    rcases TraceSubscriber.trySendLocked_spec observed hc h.connected (r := e.sending) rfl with
      hsend | ⟨hsend, hroom, hbytes⟩
    · rw [hsend] at hcount ⊢
      refine ⟨h.dropped e ?_, ho.pending _⟩
      simp only [Ledger.settle, List.length_append, List.length_singleton] at hcount
      omega
    · rw [hsend]
      exact ⟨h.delivered ho.returned e, ho.sent rfl hroom hbytes⟩

/-- The ledger after a call of `emit`. -/
def Ledger.emitted (l : Ledger Data) (e : Emit Data) (r : Emitted) : Ledger Data :=
  (if r.marked then l.mark else l).settle e r.fate

theorem Audited.emit (hc : c.Bounded) (h : Audited s l) (ho : Collecting observed s) (e : Emit Data)
    (hcount : (l.emitted e (c.emit observed s e).1).passing.length ≤ u64Max) :
    Audited (c.emit observed s e).2 (l.emitted e (c.emit observed s e).1) ∧
      Collecting observed (c.emit observed s e).2 := by
  rw [TraceSubscriber.emit] at hcount ⊢
  split
  · exact ⟨h, ho⟩
  · next hsupported =>
    rw [if_neg hsupported] at hcount
    split
    · exact ⟨h, ho⟩
    · next hadmitted =>
      rw [if_neg hadmitted] at hcount
      split
      · next hpending =>
        rw [if_pos hpending] at hcount
        rcases TraceSubscriber.trySendLocked_spec observed hc h.connected
            (r := e.marker s.inner.pendingDropped) rfl with hsend | ⟨hsend, hroom, hbytes⟩
        · rw [hsend] at hcount ⊢
          refine ⟨h.dropped e ?_, ho.pending _⟩
          simp only [Ledger.emitted, Ledger.settle, Bool.false_eq_true, if_false, List.length_append,
            List.length_singleton] at hcount
          omega
        · rw [hsend] at hcount ⊢
          simp only [Ledger.emitted, emitEvent_marked, if_true] at hcount ⊢
          have hmarked : Audited { c.sent observed s (e.marker s.inner.pendingDropped) with
              inner := { (c.sent observed s (e.marker s.inner.pendingDropped)).inner with pendingDropped := 0 } } l.mark :=
            h.mark rfl (records_sent observed c ho.returned _) rfl rfl rfl rfl
          have hopen := ho.sent (c := c) (r := e.marker s.inner.pendingDropped) rfl hroom hbytes
          exact (hmarked.take e.taken).emitEvent hc ((hopen.pending 0).take e.taken) e true hcount
      · next hpending =>
        rw [if_neg hpending] at hcount
        simp only [Ledger.emitted, emitEvent_marked, Bool.false_eq_true, if_false] at hcount ⊢
        exact (h.take e.taken).emitEvent hc (ho.take e.taken) e false hcount

theorem passing_emitted (observed : Observed Data) (l : Ledger Data) (s : Collector Data) (e : Emit Data) :
    (l.emitted e (c.emit observed s e).1).passing = l.passing ++ if c.passes observed s e then [e] else [] := by
  have hbase : (if (c.emit observed s e).1.marked then l.mark else l).passing = l.passing := by split <;> rfl
  rw [Ledger.emitted]
  cases hpasses : c.passes observed s e with
  | false =>
    rw [(TraceSubscriber.emit_fate observed c s e).2 hpasses, Ledger.settle, hbase]
    exact (List.append_nil _).symm
  | true =>
    have hfate : (c.emit observed s e).1.fate ≠ .omitted := fun h => by
      rw [(TraceSubscriber.emit_fate observed c s e).1 h] at hpasses
      cases hpasses
    cases hcase : (c.emit observed s e).1.fate with
    | omitted => exact absurd hcase hfate
    | delivered | dropped => exact congrArg (· ++ [e]) hbase

/-! ## Finishing -/

/-- A trace that only lacks its last record. -/
structure Closing (observed : Observed Data) (s : Collector Data) (l : Ledger Data) : Prop where
  finished : s.inner.finished = true
  pending : l.pending = []
  room : s.inner.nextSequence < maxTraceEvents
  bytes : bytesOf observed s.records ≤ maxTraceBytes - maxTraceLineBytes
  notTerminal : ∀ r ∈ s.records, r.terminal = false

theorem records_returned (s : Collector Data) (r : TraceRecord Data) (inner : TraceInner) :
    { s with returned := s.returned ++ [r], inner }.records = s.records ++ [r] := (List.append_assoc _ _ _).symm

theorem maxTraceEvents_le : maxTraceEvents ≤ u64Max := by decide

theorem saturatingAdd_sequence (h : s.inner.nextSequence < maxTraceEvents) :
    saturatingAdd s.inner.nextSequence 1 = s.inner.nextSequence + 1 :=
  saturatingAdd_of_le (Nat.le_trans h maxTraceEvents_le)

theorem Audited.close (hc : c.Bounded) (h : Audited s l) (hclosing : Closing observed s l)
    (f : Finish) :
    let r := c.record s.inner.nextSequence (f.sending c.operationId)
    let s' := { s with
      returned := s.returned ++ [r], inner := { s.inner with nextSequence := saturatingAdd s.inner.nextSequence 1 } }
    let l' := { l with tags := l.tags ++ [.terminal] }
    Audited s' l' ∧ Closed observed s' l' := by
  intro r s' l'
  have hrecords : s'.records = s.records ++ [r] := records_returned s r _
  obtain ⟨event, hevent, hlength⟩ := finished_json_le observed f.outcome
  have hline : r.lineBytes observed ≤ maxTraceLineBytes :=
    TraceSubscriber.record_lineBytes_le hc (hclosing.room.le.trans maxTraceEvents_le) hevent hlength
  refine ⟨h.append .terminal rfl hrecords rfl (saturatingAdd_sequence hclosing.room) ⟨[], (List.append_nil _).symm⟩ rfl
    ⟨_, rfl⟩ h.pending ?_, ?_⟩
  · simp only [l', List.flatMap_append, List.flatMap_singleton, Tag.accounted, List.append_nil]
    exact h.once
  · exact {
      finished := hclosing.finished
      pending := hclosing.pending
      length := by
        rw [hrecords, List.length_append, List.length_singleton, ← h.next]
        exact hclosing.room
      bytes := by
        have hbytes := hclosing.bytes
        have hmax : maxTraceLineBytes ≤ maxTraceBytes := by decide
        rw [hrecords, bytesOf_concat]
        omega
      ends := ⟨s.records, r, hrecords, rfl, hclosing.notTerminal⟩ }

theorem Audited.finish (hc : c.Bounded) (h : Audited s l) (ho : Collecting observed s) (f : Finish)
    (hcount : l.passing.length ≤ u64Max) :
    Audited (c.finish s f) l.finish ∧ Closed observed (c.finish s f) l.finish := by
  have hroom : s.inner.nextSequence < maxTraceEvents - 1 := Nat.lt_of_le_of_lt ho.room (by decide)
  have hsequence : s.inner.nextSequence ≤ u64Max := hroom.le.trans ((Nat.sub_le _ _).trans maxTraceEvents_le)
  have hreserve : maxTraceBytes - 2 * maxTraceLineBytes + maxTraceLineBytes ≤ maxTraceBytes - maxTraceLineBytes := by
    decide
  have hstopped : Audited { s with inner := { s.inner with finished := true } } l := { h with }
  rw [TraceSubscriber.finish, ho.collecting, if_neg (by decide), TraceSubscriber.finishMarker, hc.maxEvents]
  by_cases hpending : l.pending = []
  · have hnone : ¬(0 < s.inner.pendingDropped ∧ s.inner.nextSequence < maxTraceEvents - 1) := by
      rw [h.pending, hpending]
      exact fun h => Nat.lt_irrefl _ h.1
    rw [if_neg hnone, Ledger.finish, if_pos hpending]
    refine hstopped.close hc ?_ f
    exact {
      finished := rfl
      pending := hpending
      room := Nat.lt_of_lt_of_le hroom (Nat.sub_le _ _)
      bytes := ho.bytes.le.trans (ho.bytesRoom.trans ((Nat.le_add_right _ _).trans hreserve))
      notTerminal := ho.notTerminal }
  · have hsome : 0 < s.inner.pendingDropped ∧ s.inner.nextSequence < maxTraceEvents - 1 := by
      rw [h.pending]
      exact ⟨List.length_pos_iff.2 hpending, hroom⟩
    have hdropped : s.inner.pendingDropped ≤ u64Max := h.pending.le.trans (h.pending_le.trans hcount)
    have hnext : saturatingAdd s.inner.nextSequence 1 = s.inner.nextSequence + 1 :=
      saturatingAdd_sequence (Nat.lt_of_lt_of_le hroom (Nat.sub_le _ _))
    obtain ⟨event, hevent, hlength⟩ := eventsDropped_json_le observed hdropped
    have hline : (c.record s.inner.nextSequence (f.marker c.operationId s.inner.pendingDropped)).lineBytes observed ≤
        maxTraceLineBytes := TraceSubscriber.record_lineBytes_le hc hsequence hevent hlength
    rw [if_pos hsome, Ledger.finish, if_neg hpending]
    have hmarked : Audited { s with
        returned := s.returned ++ [c.record s.inner.nextSequence (f.marker c.operationId s.inner.pendingDropped)]
        inner := { s.inner with
          finished := true, nextSequence := saturatingAdd s.inner.nextSequence 1, pendingDropped := 0 } } l.mark :=
      hstopped.mark rfl (records_returned s _ _) rfl hnext rfl rfl
    refine hmarked.close hc ?_ f
    exact {
      finished := rfl
      pending := rfl
      room := by
        change saturatingAdd s.inner.nextSequence 1 < maxTraceEvents
        rw [hnext]
        exact Nat.add_lt_of_lt_sub hroom
      bytes := by
        refine (congrArg (bytesOf observed) (records_returned s _ _)).le.trans ?_
        rw [bytesOf_concat, ho.bytes]
        exact (Nat.add_le_add ho.bytesRoom hline).trans hreserve
      notTerminal := fun r hr => by
        have hr : r ∈ s.records ++ [_] := (records_returned s _ _) ▸ hr
        rcases List.mem_append.1 hr with hr | hr
        · exact ho.notTerminal r hr
        · rw [List.mem_singleton.1 hr]
          rfl }

/-! ## Runs -/

def passed (observed : Observed Data) (c : TraceSubscriber) (s : Collector Data) :
    TraceSubscriber.Step Data → List (Emit Data)
  | .emit e => if c.passes observed s e then [e] else []
  | _ => []

def passing (observed : Observed Data) (c : TraceSubscriber) (s : Collector Data) (es : List (TraceSubscriber.Step Data)) :
    List (Emit Data) :=
  (steps (c.step observed) s es).flatMap fun x => passed observed c x.1 x.2

theorem passing_cons {e : TraceSubscriber.Step Data} {m : Collector Data} (hstep : c.step observed s e = some m)
    (es : List (TraceSubscriber.Step Data)) :
    passing observed c s (e :: es) = passed observed c s e ++ passing observed c m es := by
  rw [passing, steps, hstep]
  exact List.flatMap_cons

theorem step_audited (hc : c.Bounded) (h : Audited s l)
    (hs : Collecting observed s ∨ Closed observed s l)
    {e : TraceSubscriber.Step Data} (he : e ≠ .drop) {m : Collector Data} (hstep : c.step observed s e = some m)
    (hcount : (l.passing ++ passed observed c s e).length ≤ u64Max) :
    ∃ l' : Ledger Data, Audited m l' ∧ (Collecting observed m ∨ Closed observed m l') ∧
      l'.passing = l.passing ++ passed observed c s e := by
  cases e with
  | emit e =>
    cases hstep
    rcases hs with ho | hclosed
    · have hpassing := passing_emitted observed (c := c) l s e
      obtain ⟨ha, ho⟩ := h.emit hc ho e (hpassing ▸ hcount)
      exact ⟨_, ha, .inl ho, hpassing⟩
    · -- After `finish` no event passes.
      have hpasses : c.passes observed s e = false := by simp [TraceSubscriber.passes, hclosed.finished]
      have hsame : (c.emit observed s e).2 = s := by
        rw [TraceSubscriber.emit, hclosed.finished]
        split <;> rfl
      refine ⟨l, hsame.symm ▸ h, .inr (hsame.symm ▸ hclosed), ?_⟩
      rw [passed, hpasses]
      exact (List.append_nil _).symm
  | receive =>
    rw [TraceSubscriber.step] at hstep
    split at hstep
    · cases hstep
      refine ⟨l, h.take 1, hs.imp (·.take 1) fun hclosed => ?_, (List.append_nil _).symm⟩
      exact {
        finished := hclosed.finished
        pending := hclosed.pending
        length := (records_take s 1).symm ▸ hclosed.length
        bytes := (records_take s 1).symm ▸ hclosed.bytes
        ends := (records_take s 1).symm ▸ hclosed.ends }
    · cases hstep
  | finish f =>
    rw [TraceSubscriber.step, if_pos h.connected] at hstep
    cases hstep
    have hle : l.passing.length ≤ u64Max := (congrArg List.length (List.append_nil _)).ge.trans hcount
    rcases hs with ho | hclosed
    · obtain ⟨ha, hclosed⟩ := h.finish hc ho f hle
      have hpassing : l.finish.passing = l.passing := by
        rw [Ledger.finish]
        split <;> rfl
      exact ⟨l.finish, ha, .inr hclosed, hpassing.trans (List.append_nil _).symm⟩
    · rw [TraceSubscriber.finish, if_pos hclosed.finished]
      exact ⟨l, h, .inr hclosed, (List.append_nil _).symm⟩
  | drop => exact absurd rfl he

theorem run_audited (hc : c.Bounded) (h : Audited s l)
    (hs : Collecting observed s ∨ Closed observed s l)
    {es : List (TraceSubscriber.Step Data)} (hdrop : .drop ∉ es) {t : Collector Data}
    (hrun : run (c.step observed) s es = some t)
    (hcount : (l.passing ++ passing observed c s es).length ≤ u64Max) :
    ∃ l' : Ledger Data, Audited t l' ∧ (Collecting observed t ∨ Closed observed t l') ∧
      l'.passing = l.passing ++ passing observed c s es := by
  induction es generalizing s l with
  | nil =>
    cases hrun
    exact ⟨l, h, hs, (List.append_nil _).symm⟩
  | cons e es ih =>
    obtain ⟨m, hm, hrun⟩ := run_cons_some.1 hrun
    rw [passing_cons hm] at hcount ⊢
    rw [← List.append_assoc] at hcount ⊢
    have hfirst : (l.passing ++ passed observed c s e).length ≤ u64Max :=
      (List.length_append.ge.trans hcount |> Nat.le_of_add_right_le)
    obtain ⟨l₁, h₁, hs₁, hpassing₁⟩ :=
      step_audited hc h hs (fun he => hdrop (he ▸ List.mem_cons_self)) hm hfirst
    rw [← hpassing₁] at hcount ⊢
    exact ih h₁ hs₁ (fun h => hdrop (List.mem_cons_of_mem _ h)) hrun hcount

/-! ## A subscription -/

theorem audited_subscribe {peerUid durationMs : Nat} {traceSchema : Option Nat} {capacity : Nat} {w : Subscribing}
    (hstart : subscribeTraceWithCapacity observed peerUid durationMs traceSchema capacity w = some (.ok (c, s))) :
    c.Bounded ∧ Audited s { passing := [], pending := [], tags := [.started] } ∧ Collecting observed s := by
  have hfresh : Audited (freshCollector : Collector Data) { passing := [], pending := [], tags := [] } :=
    { connected := rfl, explained := .nil, numbered := rfl, next := rfl, pending := rfl, once := .refl _ }
  have hopen : Collecting observed freshCollector :=
    { collecting := rfl, returned := rfl, room := Nat.zero_le _, bytes := rfl, bytesRoom := Nat.zero_le _,
      notTerminal := fun _ hr => absurd hr List.not_mem_nil }
  rw [subscribeTraceWithCapacity] at hstart
  dsimp only at hstart
  split at hstart
  · cases hstart
  · split at hstart
    · cases hstart
    · next hschema =>
      have hschema : traceSchema.getD legacyTraceSchemaVersion ≤ currentTraceSchemaVersion := by
        have hall : ∀ v ∈ [legacyTraceSchemaVersion, v2TraceSchemaVersion, v3TraceSchemaVersion, v4TraceSchemaVersion,
            currentTraceSchemaVersion], v ≤ currentTraceSchemaVersion := by decide
        exact hall _ (Classical.not_not.1 hschema)
      split at hstart
      · cases hstart
      · split at hstart
        · next t hsend =>
          obtain ⟨rfl, rfl⟩ := Prod.ext_iff.1 (Except.ok.inj (Option.some.inj hstart))
          have hc : (w.subscriber durationMs (traceSchema.getD legacyTraceSchemaVersion) capacity).Bounded :=
            ⟨rfl, rfl, hschema⟩
          refine ⟨hc, ?_⟩
          rcases TraceSubscriber.trySendLocked_spec observed (s := freshCollector) hc rfl
            (r := w.startup (.bounded durationMs)) rfl with hrefused | ⟨hqueued, hroom, hbytes⟩
          · cases hrefused.symm.trans hsend
          · obtain rfl := (Prod.ext_iff.1 (hsend.symm.trans hqueued)).2
            exact ⟨hfresh.append .started rfl (records_sent observed _ rfl _) rfl rfl ⟨[], rfl⟩ rfl
              ⟨_, _, rfl⟩ rfl (.refl _), hopen.sent rfl hroom hbytes⟩
        · cases hstart

theorem length_flatMap_accounted (tags : List Tag) :
    (tags.flatMap Tag.accounted).length = tags.countP Tag.isEvent + (tags.map Tag.dropCount).sum := by
  induction tags with
  | nil => rfl
  | cons tag tags ih =>
    rw [List.flatMap_cons, List.length_append, ih, List.map_cons, List.sum_cons, List.countP_cons]
    cases tag <;> simp [Tag.accounted, Tag.isEvent, Tag.dropCount] <;> omega

structure Accounting (passing : List (Emit Data)) (records : List (TraceRecord Data)) (tags : List Tag) : Prop where
  explained : List.Forall₂ (Explains passing) records tags
  once : (tags.flatMap Tag.accounted).Perm (List.range passing.length)
  total : tags.countP Tag.isEvent + (tags.map Tag.dropCount).sum = passing.length

/-- **A trace accounts for every event.** However emits, receives and clock readings interleave, once the trace is
finished and its channel drained, the records received and those `finish` returned are numbered without gap, end
with the only terminal one, keep within the limits, and account once for each event that passed: for as many events
as the counter of the dropped ones can hold. -/
theorem trace_accounts {peerUid durationMs : Nat} {traceSchema : Option Nat} {capacity : Nat} {w : Subscribing}
    (hstart : subscribeTraceWithCapacity observed peerUid durationMs traceSchema capacity w = some (.ok (c, s)))
    {es : List (TraceSubscriber.Step Data)} (hdrop : .drop ∉ es) {t : Collector Data}
    (hrun : run (c.step observed) s es = some t) (hfinished : t.inner.finished = true) (hdrained : t.queue = [])
    (hcount : (passing observed c s es).length ≤ u64Max) :
    Numbered (t.received ++ t.returned) ∧ EndsTrace (t.received ++ t.returned) ∧
      (t.received ++ t.returned).length ≤ c.limits.maxEvents ∧
      bytesOf observed (t.received ++ t.returned) ≤ c.limits.maxBytes ∧
      ∃ tags, Accounting (passing observed c s es) (t.received ++ t.returned) tags := by
  obtain ⟨hc, ha, ho⟩ := audited_subscribe hstart
  obtain ⟨l, ha, hs, hpassing⟩ := run_audited hc ha (.inl ho) hdrop hrun hcount
  have hclosed : Closed observed t l := hs.resolve_left fun ho => by
    rw [ho.collecting] at hfinished
    cases hfinished
  have hrecords : t.records = t.received ++ t.returned := by
    rw [Collector.records, hdrained, List.append_nil]
  have honce := ha.once
  rw [hclosed.pending, List.append_nil] at honce
  rw [List.nil_append] at hpassing
  refine ⟨hrecords ▸ ha.numbered, hrecords ▸ hclosed.ends, ?_, ?_, l.tags, ?_⟩
  · rw [hc.maxEvents, ← hrecords]
    exact hclosed.length
  · rw [hc.maxBytes, ← hrecords]
    exact hclosed.bytes
  · rw [← hpassing, ← hrecords]
    exact {
      explained := ha.explained
      once := honce
      total := by rw [← length_flatMap_accounted, honce.length_eq, List.length_range] }

/-! ## A full channel -/

theorem trySendLocked_full (hconnected : s.connected = true) (hfull : c.capacity ≤ s.queue.length) (r : Sending Data) :
    c.trySendLocked observed s r = (false, s) := by
  rw [TraceSubscriber.trySendLocked]
  split
  · rfl
  · dsimp only
    split
    · rfl
    · split
      · rfl
      · rw [if_neg (show ¬(!s.connected) = true by rw [hconnected]; decide)]

theorem emit_full {e : Emit Data} (hconnected : s.connected = true) (hfull : c.capacity ≤ s.queue.length)
    (hsupported : e.kind.supportsSchema c.traceSchema = true) (hfinished : s.inner.finished = false)
    (hadmitted : e.admittedAt < c.deadline) (hreadmitted : e.readmittedAt < c.deadline) (htaken : e.taken = 0) :
    c.emit observed s e = ({ marked := false, fate := .dropped }, s.countDropped) := by
  have htake : s.take 0 = s := by simp [Collector.take]
  rw [TraceSubscriber.emit, hsupported, hfinished, if_neg (by decide), if_neg (by simpa using hadmitted), htaken]
  split
  · rw [trySendLocked_full hconnected hfull]
  · rw [htake, TraceSubscriber.emitEvent, if_neg (Nat.not_le.2 hreadmitted), trySendLocked_full hconnected hfull]

theorem startup_queued (w : Subscribing) (durationMs : Nat) {schema capacity : Nat} (hschema : schema ≤ currentTraceSchemaVersion)
    (hcapacity : 1 ≤ capacity) :
    (w.subscriber durationMs schema capacity).trySendLocked observed freshCollector
        (w.startup (w.subscriber durationMs schema capacity).limits) =
      (true, (w.subscriber durationMs schema capacity).sent observed freshCollector
        (w.startup (w.subscriber durationMs schema capacity).limits)) := by
  have hc : (w.subscriber durationMs schema capacity).Bounded := ⟨rfl, rfl, hschema⟩
  let r : Sending Data := w.startup (.bounded durationMs)
  let record : TraceRecord Data := (w.subscriber durationMs schema capacity).record 0 r
  obtain ⟨event, hevent, hlength⟩ := traceStarted_json_le observed durationMs
  have hline : record.lineBytes observed ≤ maxTraceLineBytes :=
    TraceSubscriber.record_lineBytes_le hc (Nat.zero_le u64Max) hevent hlength
  obtain ⟨serialized, hjson⟩ : ∃ serialized, record.json observed = some serialized :=
    ⟨_, (congrArg (Option.map _) hevent).trans rfl⟩
  rw [TraceRecord.lineBytes, hjson, Option.map_some, Option.getD_some] at hline
  have hmax : maxTraceLineBytes ≤ maxTraceBytes - 2 * maxTraceLineBytes := by decide
  refine (TraceSubscriber.trySendLocked_spec observed (s := freshCollector) hc rfl (r := r) rfl).elim (fun hrefused => ?_)
    fun hqueued => hqueued.1
  exact absurd hrefused (TraceSubscriber.trySendLocked_ne hc rfl hjson (show 0 < maxTraceEvents - 2 by decide)
    ((Nat.zero_add _).le.trans (hline.trans hmax)) (Nat.le_of_succ_le hline) hcapacity)

theorem subscribe_eq {w : Subscribing} (hbusy : w.busy = false) (durationMs : Nat) {capacity : Nat} (hcapacity : 1 ≤ capacity) :
    subscribeTraceWithCapacity observed 0 durationMs (some currentTraceSchemaVersion) capacity w =
      some (.ok (w.subscriber durationMs currentTraceSchemaVersion capacity,
        (w.subscriber durationMs currentTraceSchemaVersion capacity).sent observed freshCollector
          (w.startup (.bounded durationMs)))) := by
  have hschema : ¬currentTraceSchemaVersion ∉ [legacyTraceSchemaVersion, v2TraceSchemaVersion, v3TraceSchemaVersion,
      v4TraceSchemaVersion, currentTraceSchemaVersion] := by decide
  rw [subscribeTraceWithCapacity, if_neg (by decide), Option.getD_some]
  dsimp only
  rw [if_neg hschema, hbusy, if_neg (by decide), startup_queued w durationMs le_rfl hcapacity]
  rfl

section Samples

def sampleObserved : Observed Unit
  | .stageTiming .matching elapsedUs =>
    some (jsonObject [("event".toList, jsonString "stage_timing".toList), ("stage".toList, jsonString "matching".toList),
      ("elapsed_us".toList, decimal elapsedUs)])
  | _ => none

def sampleSubscribing : Subscribing :=
  { busy := false, operationId := Vector.replicate 16 1, startedAt := 0, sinceEpochMs := some 1750000000000 }

def sampleSubscriber : TraceSubscriber := sampleSubscribing.subscriber 1000 currentTraceSchemaVersion 1

def sampleCollector : Collector Unit := sampleSubscriber.sent sampleObserved freshCollector (sampleSubscribing.startup (.bounded 1000))

def sampleEmit : Emit Unit :=
  { operationId := Vector.replicate 16 7, operation := .authentication, kind := .stageTiming .matching 7, admittedAt := 5,
    readmittedAt := 6, markerSinceEpochMs := none, sinceEpochMs := none, taken := 0 }

def sampleFinish : Finish :=
  { outcome := .completed, finishedAt := 1000000000, markerSinceEpochMs := none, sinceEpochMs := none }

/-- Some events while the startup record is in the channel, which is then drained. -/
def busyRun (n : Nat) : List (TraceSubscriber.Step Unit) :=
  List.replicate n (.emit sampleEmit) ++ [.receive, .finish sampleFinish]

def Collector.afterDropped (n : Nat) : Collector Unit :=
  { sampleCollector with inner := { sampleCollector.inner with pendingDropped := min n u64Max } }

theorem emit_sampleEmit (n : Nat) : sampleSubscriber.emit sampleObserved (.afterDropped n) sampleEmit =
    ({ marked := false, fate := .dropped }, .afterDropped (n + 1)) := by
  rw [emit_full rfl (Nat.le_refl 1) rfl rfl (by decide) (by decide) rfl]
  have hcount : saturatingAdd (min n u64Max) 1 = min (n + 1) u64Max := saturatingAdd_min n 1
  exact congrArg (fun count => (({ marked := false, fate := .dropped } : Emitted),
    ({ sampleCollector with inner := { sampleCollector.inner with pendingDropped := count } } : Collector Unit))) hcount

theorem passes_sampleEmit (n : Nat) : sampleSubscriber.passes sampleObserved (.afterDropped n) sampleEmit = true := by
  have hfate := TraceSubscriber.emit_fate sampleObserved sampleSubscriber (.afterDropped n) sampleEmit
  rw [emit_sampleEmit] at hfate
  cases hpasses : sampleSubscriber.passes sampleObserved (.afterDropped n) sampleEmit with
  | true => rfl
  | false => exact absurd (hfate.2 hpasses) Fate.noConfusion

theorem run_busy (k n : Nat) (es : List (TraceSubscriber.Step Unit)) :
    run (sampleSubscriber.step sampleObserved) (.afterDropped k) (List.replicate n (.emit sampleEmit) ++ es) =
      run (sampleSubscriber.step sampleObserved) (.afterDropped (k + n)) es := by
  induction n generalizing k with
  | zero => rfl
  | succ n ih =>
    rw [List.replicate_succ, List.cons_append, run_cons, TraceSubscriber.step, emit_sampleEmit, Option.bind_some, ih]
    congr 2
    omega

theorem passing_busy (k n : Nat) (es : List (TraceSubscriber.Step Unit)) :
    passing sampleObserved sampleSubscriber (.afterDropped k) (List.replicate n (.emit sampleEmit) ++ es) =
      List.replicate n sampleEmit ++ passing sampleObserved sampleSubscriber (.afterDropped (k + n)) es := by
  induction n generalizing k with
  | zero => rfl
  | succ n ih =>
    have hstep : sampleSubscriber.step sampleObserved (.afterDropped k) (.emit sampleEmit) = some (.afterDropped (k + 1)) := by
      rw [TraceSubscriber.step, emit_sampleEmit]
    rw [List.replicate_succ, List.cons_append, passing_cons hstep, ih, passed, passes_sampleEmit, if_pos rfl,
      Nat.add_right_comm, List.replicate_succ]
    rfl

def afterBusy (n : Nat) : Collector Unit := sampleSubscriber.finish ((Collector.afterDropped n).take 1) sampleFinish

theorem run_busyRun (n : Nat) : run (sampleSubscriber.step sampleObserved) sampleCollector (busyRun n) = some (afterBusy n) := by
  have hbusy := run_busy 0 n [.receive, .finish sampleFinish]
  rw [Nat.zero_add] at hbusy
  exact hbusy

theorem passing_busyRun (n : Nat) : passing sampleObserved sampleSubscriber sampleCollector (busyRun n) = List.replicate n sampleEmit := by
  have hbusy := passing_busy 0 n [.receive, .finish sampleFinish]
  have hrest : passing sampleObserved sampleSubscriber (Collector.afterDropped (0 + n)) [.receive, .finish sampleFinish] = [] := rfl
  rw [hrest, List.append_nil] at hbusy
  exact hbusy

theorem afterBusy_eq {n : Nat} (hn : 0 < n) : afterBusy n = { (Collector.afterDropped n).take 1 with
    returned := [sampleSubscriber.record 1 (sampleFinish.marker sampleSubscriber.operationId (min n u64Max)),
      sampleSubscriber.record 2 (sampleFinish.sending sampleSubscriber.operationId)]
    inner := { (Collector.afterDropped n).inner with finished := true, nextSequence := 3, pendingDropped := 0 } } := by
  have hpending : 0 < min n u64Max ∧ 1 < maxTraceEvents - 1 := ⟨Nat.lt_min.2 ⟨hn, by decide⟩, by decide⟩
  have hmarker : sampleSubscriber.finishMarker { (Collector.afterDropped n).take 1 with
      inner := { (Collector.afterDropped n).inner with finished := true } } sampleFinish =
      { (Collector.afterDropped n).take 1 with
        returned := [sampleSubscriber.record 1 (sampleFinish.marker sampleSubscriber.operationId (min n u64Max))]
        inner := { (Collector.afterDropped n).inner with finished := true, nextSequence := 2, pendingDropped := 0 } } :=
    if_pos hpending
  rw [afterBusy, TraceSubscriber.finish]
  refine (if_neg Bool.false_ne_true).trans ?_
  exact congrArg (fun s : Collector Unit => { s with
    returned := s.returned ++ [sampleSubscriber.record s.inner.nextSequence (sampleFinish.sending sampleSubscriber.operationId)]
    inner := { s.inner with nextSequence := saturatingAdd s.inner.nextSequence 1 } }) hmarker

/-- One event is dropped while the channel is full, and counted at the end. -/
theorem trace_accounts_dropped :
    Numbered ((afterBusy 1).received ++ (afterBusy 1).returned) ∧ EndsTrace ((afterBusy 1).received ++ (afterBusy 1).returned) ∧
      ((afterBusy 1).received ++ (afterBusy 1).returned).length ≤ sampleSubscriber.limits.maxEvents ∧
      bytesOf sampleObserved ((afterBusy 1).received ++ (afterBusy 1).returned) ≤ sampleSubscriber.limits.maxBytes ∧
      ∃ tags, Accounting (passing sampleObserved sampleSubscriber sampleCollector (busyRun 1))
        ((afterBusy 1).received ++ (afterBusy 1).returned) tags :=
  trace_accounts (subscribe_eq rfl 1000 le_rfl) (by decide) (run_busyRun 1) rfl rfl
    ((congrArg List.length (passing_busyRun 1)).le.trans (by decide))

/-- **What fails**: a receiver that leaves the startup record in the channel sees a gap, and of one event more than
the counter holds, one is not counted. -/
theorem not_trace_accounts :
    (subscribeTraceWithCapacity sampleObserved 0 1000 (some currentTraceSchemaVersion) 1 sampleSubscribing =
        some (.ok (sampleSubscriber, sampleCollector))) ∧
    (∃ t, run (sampleSubscriber.step sampleObserved) sampleCollector [.finish sampleFinish] = some t ∧
      (t.received ++ t.returned).map (·.sequence) = [1]) ∧
    ∃ t, run (sampleSubscriber.step sampleObserved) sampleCollector (busyRun (u64Max + 1)) = some t ∧ t.queue = [] ∧
      (t.received ++ t.returned).map (·.event) = [.traceStarted (.bounded 1000) .privilegedDiagnosticOracle,
        .eventsDropped u64Max, .finished .completed] ∧
      (passing sampleObserved sampleSubscriber sampleCollector (busyRun (u64Max + 1))).length = u64Max + 1 := by
  refine ⟨subscribe_eq rfl 1000 le_rfl, ⟨_, rfl, rfl⟩, afterBusy (u64Max + 1), run_busyRun _, ?_, ?_, ?_⟩
  · rw [afterBusy_eq (Nat.succ_pos _)]
    rfl
  · rw [afterBusy_eq (Nat.succ_pos _), Nat.min_eq_right (Nat.le_succ _)]
    rfl
  · rw [passing_busyRun, List.length_replicate]

end Samples

end Irlume.Diagnostics

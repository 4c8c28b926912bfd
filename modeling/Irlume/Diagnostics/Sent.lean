import Irlume.Diagnostics.Trace

/-!
# What the collector sends

Each call of the collector in one lemma. The records that close the trace are short enough for the room that was
kept for them (`lineBytes_le_of_control`).
-/

namespace Irlume.Diagnostics

open Std Irlume.Lib

variable {Data : Type} {observed : Observed Data}

/-! ## Lines -/

theorem operationName_le (operation : OperationClass) : byteLength operation.name ≤ 80 := by
  cases operation <;> decide

theorem outcomeName_le (outcome : CategoricalOutcome) : byteLength outcome.name ≤ 80 := by
  cases outcome <;> decide

theorem operationHex_le (id : OperationId) : byteLength (operationHex id) ≤ 128 := by
  have hpairs : ∀ l : List UInt8,
      (l.flatMap fun b => [(b.toNat / 16).digitChar, (b.toNat % 16).digitChar]).length = 2 * l.length := by
    intro l
    induction l with
    | nil => rfl
    | cons b l ih =>
      rw [List.flatMap_cons, List.length_append, ih, List.length_cons]
      simp only [List.length_cons, List.length_nil]
      omega
  have hlength := byteLength_le (operationHex id)
  rw [operationHex, hpairs, Vector.length_toList] at hlength
  exact hlength

theorem TraceRecord.lineBytes_le (record : TraceRecord Data) {event : Text} (hevent : record.event.json observed = some event)
    (hschema : record.traceSchema ≤ u64Max) (hsequence : record.sequence ≤ u64Max) (hmonotonic : record.monotonicUs ≤ u64Max)
    (hutc : record.utcUnixMs ≤ u64Max) : record.lineBytes observed ≤ byteLength event + 1000 := by
  have hobject := byteLength_jsonObject_le [("trace_schema".toList, decimal record.traceSchema),
    ("sequence".toList, decimal record.sequence), ("monotonic_us".toList, decimal record.monotonicUs),
    ("utc_unix_ms".toList, decimal record.utcUnixMs), ("operation_id".toList, jsonString (operationHex record.operationId)),
    ("operation".toList, jsonString record.operation.name), ("event".toList, event),
    ("terminal".toList, jsonBool record.terminal)]
  have hnames : ["trace_schema", "sequence", "monotonic_us", "utc_unix_ms", "operation_id", "operation", "event",
      "terminal"].map (fun name : String => byteLength name.toList) = [12, 8, 12, 11, 12, 9, 5, 8] := by decide
  simp only [List.map_cons, List.map_nil, List.cons.injEq, and_true] at hnames
  obtain ⟨h₁, h₂, h₃, h₄, h₅, h₆, h₇, h₈⟩ := hnames
  have hschema := byteLength_decimal_le hschema
  have hsequence := byteLength_decimal_le hsequence
  have hmonotonic := byteLength_decimal_le hmonotonic
  have hutc := byteLength_decimal_le hutc
  have hid := (byteLength_jsonString_le (operationHex record.operationId)).trans
    (Nat.add_le_add_right (operationHex_le record.operationId) 8)
  have hoperation := (byteLength_jsonString_le record.operation.name).trans
    (Nat.add_le_add_right (operationName_le record.operation) 8)
  have hterminal := byteLength_jsonBool_le record.terminal
  simp only [fieldsLength, List.map_cons, List.map_nil, List.sum_cons, List.sum_nil, h₁, h₂, h₃, h₄, h₅, h₆, h₇,
    h₈] at hobject
  rw [lineBytes, json, hevent, Option.map_some, Option.map_some, Option.getD_some]
  omega

theorem eventsDropped_json_le (observed : Observed Data) {count : Nat} (h : count ≤ u64Max) : ∃ event,
    (TraceEventKind.eventsDropped count : TraceEventKind Data).json observed = some event ∧ byteLength event ≤ 1000 := by
  refine ⟨_, rfl, (byteLength_jsonObject_le _).trans ?_⟩
  have hcount := byteLength_decimal_le h
  have hnames : byteLength "event".toList = 5 ∧ byteLength "count".toList = 5 ∧
      byteLength (jsonString "events_dropped".toList) = 16 := by decide
  simp only [fieldsLength, List.map_cons, List.map_nil, List.sum_cons, List.sum_nil, hnames]
  omega

theorem finished_json_le (observed : Observed Data) (outcome : CategoricalOutcome) : ∃ event,
    (TraceEventKind.finished outcome : TraceEventKind Data).json observed = some event ∧ byteLength event ≤ 1000 := by
  refine ⟨_, rfl, (byteLength_jsonObject_le _).trans ?_⟩
  have hname := (byteLength_jsonString_le outcome.name).trans (Nat.add_le_add_right (outcomeName_le outcome) 8)
  have hnames : byteLength "event".toList = 5 ∧ byteLength "outcome".toList = 7 ∧
      byteLength (jsonString "finished".toList) = 10 := by decide
  simp only [fieldsLength, List.map_cons, List.map_nil, List.sum_cons, List.sum_nil, hnames]
  omega

theorem traceStarted_json_le (observed : Observed Data) (durationMs : Nat) : ∃ event,
    (TraceEventKind.traceStarted (.bounded durationMs) .privilegedDiagnosticOracle : TraceEventKind Data).json observed =
      some event ∧ byteLength event ≤ 1000 := by
  refine ⟨_, rfl, (byteLength_jsonObject_le _).trans ?_⟩
  have hduration : (TraceLimits.bounded durationMs).durationMs ≤ u64Max := by
    have hmax : defaultTraceDurationMs ≤ u64Max ∧ maxTraceDurationMs ≤ u64Max := by decide
    simp only [TraceLimits.bounded]
    split
    · exact hmax.1
    · split <;> omega
  have hlimits := byteLength_jsonObject_le [("duration_ms".toList, decimal (TraceLimits.bounded durationMs).durationMs),
    ("max_events".toList, decimal maxTraceEvents), ("max_bytes".toList, decimal maxTraceBytes)]
  have hduration := byteLength_decimal_le hduration
  have hconstants : byteLength "duration_ms".toList = 11 ∧ byteLength "max_events".toList = 10 ∧
      byteLength "max_bytes".toList = 9 := by decide
  have hevents : byteLength (decimal maxTraceEvents) ≤ 80 := byteLength_decimal_le (by decide)
  have hbytes : byteLength (decimal maxTraceBytes) ≤ 80 := byteLength_decimal_le (by decide)
  have hnames : byteLength "event".toList = 5 ∧ byteLength "limits".toList = 6 ∧ byteLength "warning".toList = 7 ∧
      byteLength (jsonString "trace_started".toList) = 15 ∧
      byteLength (jsonString TraceWarning.privilegedDiagnosticOracle.name) = 30 := by decide
  have hjson : (TraceLimits.bounded durationMs).json = jsonObject [("duration_ms".toList,
    decimal (TraceLimits.bounded durationMs).durationMs), ("max_events".toList, decimal maxTraceEvents),
    ("max_bytes".toList, decimal maxTraceBytes)] := rfl
  simp only [fieldsLength, List.map_cons, List.map_nil, List.sum_cons, List.sum_nil, hconstants] at hlimits
  simp only [fieldsLength, List.map_cons, List.map_nil, List.sum_cons, List.sum_nil, hnames, hjson]
  omega

theorem utcUnixMs_le (sinceEpochMs : Option Nat) : utcUnixMs sinceEpochMs ≤ u64Max := by
  cases sinceEpochMs with
  | none => exact Nat.zero_le _
  | some ms =>
    rw [utcUnixMs]
    split
    · assumption
    · exact Nat.zero_le _

structure TraceSubscriber.Bounded (c : TraceSubscriber) : Prop where
  maxEvents : c.limits.maxEvents = maxTraceEvents
  maxBytes : c.limits.maxBytes = maxTraceBytes
  schema : c.traceSchema ≤ currentTraceSchemaVersion

namespace TraceSubscriber

variable {c : TraceSubscriber} {s : Collector Data}

variable {r : Sending Data}

theorem record_lineBytes_le (hc : c.Bounded) {sequence : Nat} (hsequence : sequence ≤ u64Max)
    {event : Text} (hevent : r.event.json observed = some event) (hlength : byteLength event ≤ 1000) :
    (c.record sequence r).lineBytes observed ≤ maxTraceLineBytes := by
  have hschema : c.traceSchema ≤ u64Max := hc.schema.trans (by decide)
  have hline := TraceRecord.lineBytes_le (c.record sequence r) hevent hschema hsequence (Nat.min_le_right _ _)
    (utcUnixMs_le _)
  have hmax : maxTraceLineBytes = 65536 := rfl
  omega

/-! ## Sending -/

def sent (observed : Observed Data) (c : TraceSubscriber) (s : Collector Data) (r : Sending Data) : Collector Data :=
  { s with
    queue := s.queue ++ [c.record s.inner.nextSequence r]
    inner := { s.inner with
      nextSequence := s.inner.nextSequence + 1
      emittedBytes := s.inner.emittedBytes + (c.record s.inner.nextSequence r).lineBytes observed } }

/-- `try_send_locked` either changes nothing or queues one record. -/
theorem trySendLocked_spec (observed : Observed Data) (hc : c.Bounded)
    (hconnected : s.connected = true)
    (hterminal : r.terminal = false) :
    c.trySendLocked observed s r = (false, s) ∨
      c.trySendLocked observed s r = (true, c.sent observed s r) ∧ s.inner.nextSequence < maxTraceEvents - 2 ∧
        s.inner.emittedBytes + (c.record s.inner.nextSequence r).lineBytes observed ≤
          maxTraceBytes - 2 * maxTraceLineBytes := by
  have hlarge : maxTraceEvents - 2 ≤ u64Max ∧ maxTraceBytes - 2 * maxTraceLineBytes < u64Max ∧
      maxTraceLineBytes < u64Max := by decide
  rw [trySendLocked]
  split
  · exact .inl rfl
  · next hroom =>
    have hroom : s.inner.nextSequence < maxTraceEvents - 2 := by
      simp only [hterminal, Bool.not_false, Bool.true_and, decide_eq_true_eq, hc.maxEvents] at hroom
      exact Nat.not_le.1 hroom
    dsimp only
    cases hjson : (c.record s.inner.nextSequence r).json observed with
    | none => exact .inl rfl
    | some serialized =>
      have hbytes : (c.record s.inner.nextSequence r).lineBytes observed = byteLength serialized + 1 := by
        rw [TraceRecord.lineBytes, hjson, Option.map_some, Option.getD_some]
      dsimp only
      split
      · exact .inl rfl
      · next hfits =>
        rw [hc.maxBytes] at hfits
        simp only [hterminal, Bool.not_false, Bool.true_and, Bool.or_eq_true, decide_eq_true_eq, not_or, Nat.not_lt]
          at hfits
        obtain ⟨hline, htotal⟩ := hfits
        have hline : min (byteLength serialized + 1) u64Max = byteLength serialized + 1 :=
          Nat.min_eq_left (Nat.succ_le_of_lt (hline.trans_lt hlarge.2.2))
        rw [hline] at htotal ⊢
        have htotal := add_le_of_saturatingAdd_le htotal hlarge.2.1
        have hsequence : s.inner.nextSequence + 1 ≤ u64Max := Nat.lt_of_lt_of_le hroom hlarge.1
        rw [if_neg (show ¬(!s.connected) = true by rw [hconnected]; decide)]
        split
        · exact .inl rfl
        · refine .inr ⟨?_, hroom, by rw [hbytes]; exact htotal⟩
          rw [sent, hbytes, saturatingAdd_of_le hsequence, saturatingAdd_of_le (htotal.trans hlarge.2.1.le)]

theorem trySendLocked_ne (hc : c.Bounded) (hconnected : s.connected = true) {serialized : Text}
    (hjson : (c.record s.inner.nextSequence r).json observed = some serialized)
    (hroom : s.inner.nextSequence < maxTraceEvents - 2)
    (hbytes : s.inner.emittedBytes + (byteLength serialized + 1) ≤ maxTraceBytes - 2 * maxTraceLineBytes)
    (hline : byteLength serialized ≤ maxTraceLineBytes) (hqueue : s.queue.length < c.capacity) :
    c.trySendLocked observed s r ≠ (false, s) := by
  have htotal : ¬maxTraceBytes - 2 * maxTraceLineBytes <
      saturatingAdd s.inner.emittedBytes (min (byteLength serialized + 1) u64Max) :=
    Nat.not_lt.2 ((Nat.min_le_left _ _).trans ((Nat.add_le_add_left (Nat.min_le_left _ _) _).trans hbytes))
  have hplace : ¬(!r.terminal && decide (maxTraceEvents - 2 ≤ s.inner.nextSequence)) = true := by
    rw [decide_eq_false (Nat.not_le.2 hroom), Bool.and_false]
    decide
  rw [trySendLocked, hc.maxEvents, hc.maxBytes, if_neg hplace]
  dsimp only
  rw [hjson]
  dsimp only
  rw [if_neg (by simp [hline, htotal]), if_neg (by simp [hconnected]), if_neg (Nat.not_le.2 hqueue)]
  exact fun h => Bool.noConfusion (Prod.ext_iff.1 h).1

/-! ## Emitting -/

def markerRefused (observed : Observed Data) (c : TraceSubscriber) (s : Collector Data) (e : Emit Data) : Bool :=
  decide (0 < s.inner.pendingDropped) && !(c.trySendLocked observed s (e.marker s.inner.pendingDropped)).1

/-- The event is of a supported kind and passes the last deadline check it reaches. -/
def passes (observed : Observed Data) (c : TraceSubscriber) (s : Collector Data) (e : Emit Data) : Bool :=
  e.kind.supportsSchema c.traceSchema && !s.inner.finished && decide (e.admittedAt < c.deadline) &&
    (c.markerRefused observed s e || decide (e.readmittedAt < c.deadline))

theorem emitEvent_fate (c : TraceSubscriber) (s : Collector Data) (e : Emit Data) (marked : Bool) :
    (c.emitEvent observed s e marked).1.fate = .omitted ↔ c.deadline ≤ e.readmittedAt := by
  rw [emitEvent]
  split
  · next h => exact ⟨fun _ => h, fun _ => rfl⟩
  · next h =>
    refine ⟨fun hfate => ?_, fun h' => absurd h' h⟩
    split at hfate <;> cases hfate

/-- An event takes part in the trace exactly if it passes the last deadline check it reaches. -/
theorem emit_fate (observed : Observed Data) (c : TraceSubscriber) (s : Collector Data) (e : Emit Data) :
    (c.emit observed s e).1.fate = .omitted ↔ c.passes observed s e = false := by
  rw [emit, passes]
  cases hsupported : e.kind.supportsSchema c.traceSchema with
  | false => simp
  | true =>
    cases hfinished : s.inner.finished with
    | true => simp
    | false =>
      by_cases hadmitted : c.deadline ≤ e.admittedAt
      · simp [hadmitted, Nat.not_lt.2 hadmitted]
      · rw [if_neg (by simp), if_neg (by simpa using hadmitted)]
        rw [markerRefused]
        simp only [Bool.not_false, Bool.and_true, Bool.true_and, decide_eq_true (Nat.not_le.1 hadmitted)]
        split
        · next hpending =>
          cases hsend : c.trySendLocked observed s (e.marker s.inner.pendingDropped) with
          | mk queued t =>
            cases queued with
            | false => simp [hpending]
            | true => simp [emitEvent_fate, hpending]
        · next hpending => simp [emitEvent_fate, hpending]

end TraceSubscriber

end Irlume.Diagnostics

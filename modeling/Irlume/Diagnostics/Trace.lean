import Irlume.Diagnostics.Recent
import Irlume.Lib.Json
import Irlume.Lib.Machine

/-!
# The diagnostic trace

`diagnostics.rs`: a bounded channel that producers put records in under a lock, the receiver that takes them out
without it, and the two records that close the trace. The data of an event and how it serializes are not looked
at; the records the collector writes itself are serialized here, since room is kept for two of them.

Clock readings are in nanoseconds and part of the step.
-/

namespace Irlume.Diagnostics

open Std Irlume.Lib

/-! ## Events and records -/

def legacyTraceSchemaVersion : Nat := 1

def v2TraceSchemaVersion : Nat := 2

def v3TraceSchemaVersion : Nat := 3

def v4TraceSchemaVersion : Nat := 4

def currentTraceSchemaVersion : Nat := 5

def defaultTraceDurationMs : Nat := 60000

def maxTraceDurationMs : Nat := 5 * 60000

def maxTraceEvents : Nat := 50000

def maxTraceBytes : Nat := 16 * 1024 * 1024

def maxTraceLineBytes : Nat := 64 * 1024

structure TraceLimits where
  durationMs : Nat
  maxEvents : Nat
  maxBytes : Nat
  deriving DecidableEq

def TraceLimits.bounded (durationMs : Nat) : TraceLimits :=
  { durationMs :=
      if durationMs = 0 then defaultTraceDurationMs
      else if maxTraceDurationMs < durationMs then maxTraceDurationMs
      else durationMs
    maxEvents := maxTraceEvents
    maxBytes := maxTraceBytes }

inductive TraceStage where
  | cameraOpen
  | streamArm
  | rateEstablishment
  | rgbCapture
  | irCapture
  | detection
  | liveness
  | identityInference
  | streamOwnerRelease
  | matching
  | emitterRestore
  | enrollmentLoad
  | ingressParse
  | queueWait
  | engineAuthenticate
  | credentialUnseal
  | captureSetup
  | finalization
  | sequentialRgbStart
  | sequentialRgbSample
  | sequentialRgbRelease
  | sequentialIrStart
  | sequentialIrSample
  | sequentialIrRelease
  | groupedEvaluation
  deriving DecidableEq

namespace TraceStage

def endToEndTiming : TraceStage → Bool
  | enrollmentLoad | ingressParse | queueWait | engineAuthenticate | credentialUnseal => true
  | _ => false

def setupAndFinalization : TraceStage → Bool
  | captureSetup | finalization => true
  | _ => false

def sequentialCapture : TraceStage → Bool
  | sequentialRgbStart | sequentialRgbSample | sequentialRgbRelease | sequentialIrStart | sequentialIrSample
  | sequentialIrRelease | groupedEvaluation => true
  | _ => false

end TraceStage

inductive TraceRefusalReason where
  | rgbPadPending
  | noFace
  | uncertain
  | spoofNoIrFace
  | spoof
  | belowThreshold
  | setupUnavailable
  | deadlineExpired
  | runtimeUnavailable
  | otherDeny
  deriving DecidableEq

inductive TraceWarning where
  | privilegedDiagnosticOracle
  deriving DecidableEq

inductive CategoricalOutcome where
  | granted
  | denied
  | completed
  | failed
  | cancelled
  | unavailable
  deriving DecidableEq

variable {Data : Type}

inductive TraceEventKind (Data : Type) where
  | traceStarted (limits : TraceLimits) (warning : TraceWarning)
  | stageTiming (stage : TraceStage) (elapsedUs : Nat)
  | authenticationRefusal (reason : TraceRefusalReason)
  | eventsDropped (count : Nat)
  | finished (outcome : CategoricalOutcome)
  /-- The kinds every schema has: transitions, stream contracts and evidence, emitter and detector results,
  decisions. -/
  | observation (data : Data)
  deriving DecidableEq

def TraceEventKind.supportsSchema (kind : TraceEventKind Data) (schema : Nat) : Bool :=
  if schema = legacyTraceSchemaVersion then
    match kind with
    | .authenticationRefusal _ => false
    | .stageTiming stage _ =>
      !(stage = .identityInference || stage = .streamOwnerRelease || stage.endToEndTiming ||
        stage.setupAndFinalization || stage.sequentialCapture)
    | _ => true
  else if schema = v2TraceSchemaVersion then
    match kind with
    | .stageTiming stage _ => !(stage.endToEndTiming || stage.setupAndFinalization || stage.sequentialCapture)
    | _ => true
  else if schema = v3TraceSchemaVersion then
    match kind with
    | .stageTiming stage _ => !(stage.setupAndFinalization || stage.sequentialCapture)
    | _ => true
  else if schema = v4TraceSchemaVersion then
    match kind with
    | .stageTiming stage _ => !stage.sequentialCapture
    | _ => true
  else schema = currentTraceSchemaVersion

structure TraceRecord (Data : Type) where
  traceSchema : Nat
  sequence : Nat
  monotonicUs : Nat
  utcUnixMs : Nat
  operationId : OperationId
  operation : OperationClass
  event : TraceEventKind Data
  terminal : Bool

/-! ## Serialization -/

def OperationClass.name : OperationClass → Text
  | .authentication => "authentication".toList
  | .enrollment => "enrollment".toList
  | .identification => "identification".toList
  | .captureQualification => "capture_qualification".toList
  | .cameraDiagnostics => "camera_diagnostics".toList
  | .supportProbe => "support_probe".toList
  | .status => "status".toList
  | .lifecycle => "lifecycle".toList

def CategoricalOutcome.name : CategoricalOutcome → Text
  | .granted => "granted".toList
  | .denied => "denied".toList
  | .completed => "completed".toList
  | .failed => "failed".toList
  | .cancelled => "cancelled".toList
  | .unavailable => "unavailable".toList

def TraceWarning.name : TraceWarning → Text
  | .privilegedDiagnosticOracle => "privileged_diagnostic_oracle".toList

/-- `encode_hex` of an operation's identifier. -/
def operationHex (id : OperationId) : Text :=
  id.toList.flatMap fun b => [(b.toNat / 16).digitChar, (b.toNat % 16).digitChar]

def TraceLimits.json (limits : TraceLimits) : Text :=
  jsonObject [("duration_ms".toList, decimal limits.durationMs), ("max_events".toList, decimal limits.maxEvents),
    ("max_bytes".toList, decimal limits.maxBytes)]

/-- How the kinds other than the collector's own serialize, where they do. -/
abbrev Observed (Data : Type) := TraceEventKind Data → Option Text

def TraceEventKind.json (observed : Observed Data) : TraceEventKind Data → Option Text
  | .traceStarted limits warning =>
    some (jsonObject [("event".toList, jsonString "trace_started".toList), ("limits".toList, limits.json),
      ("warning".toList, jsonString warning.name)])
  | .eventsDropped count =>
    some (jsonObject [("event".toList, jsonString "events_dropped".toList), ("count".toList, decimal count)])
  | .finished outcome =>
    some (jsonObject [("event".toList, jsonString "finished".toList), ("outcome".toList, jsonString outcome.name)])
  | kind => observed kind

/-- `serde_json::to_vec` of a record. -/
def TraceRecord.json (observed : Observed Data) (record : TraceRecord Data) : Option Text :=
  (record.event.json observed).map fun event =>
    jsonObject [("trace_schema".toList, decimal record.traceSchema), ("sequence".toList, decimal record.sequence),
      ("monotonic_us".toList, decimal record.monotonicUs), ("utc_unix_ms".toList, decimal record.utcUnixMs),
      ("operation_id".toList, jsonString (operationHex record.operationId)),
      ("operation".toList, jsonString record.operation.name), ("event".toList, event),
      ("terminal".toList, jsonBool record.terminal)]

def TraceRecord.lineBytes (observed : Observed Data) (record : TraceRecord Data) : Nat :=
  ((record.json observed).map byteLength).getD 0 + 1

/-! ## The collector -/

structure TraceSubscriber where
  limits : TraceLimits
  startedAt : Nat
  deadline : Nat
  traceSchema : Nat
  capacity : Nat
  operationId : OperationId

structure TraceInner where
  nextSequence : Nat
  pendingDropped : Nat
  emittedBytes : Nat
  finished : Bool

structure Collector (Data : Type) where
  inner : TraceInner
  queue : List (TraceRecord Data)
  /-- The receiver is there. -/
  connected : Bool
  received : List (TraceRecord Data)
  /-- What `finish` returned. -/
  returned : List (TraceRecord Data)

/-- `utc_unix_ms`: the milliseconds since the epoch, where the clock is after it and they fit. -/
def utcUnixMs (sinceEpochMs : Option Nat) : Nat :=
  match sinceEpochMs with
  | some ms => if ms ≤ u64Max then ms else 0
  | none => 0

/-- What a record is made of, besides its sequence. -/
structure Sending (Data : Type) where
  operationId : OperationId
  operation : OperationClass
  event : TraceEventKind Data
  terminal : Bool
  admittedAt : Nat
  sinceEpochMs : Option Nat

namespace TraceSubscriber

def record (c : TraceSubscriber) (sequence : Nat) (r : Sending Data) : TraceRecord Data :=
  { traceSchema := c.traceSchema
    sequence
    monotonicUs := min ((r.admittedAt - c.startedAt) / 1000) u64Max
    utcUnixMs := utcUnixMs r.sinceEpochMs
    operationId := r.operationId
    operation := r.operation
    event := r.event
    terminal := r.terminal }

variable (observed : Observed Data) (c : TraceSubscriber)

def trySendLocked (s : Collector Data) (r : Sending Data) : Bool × Collector Data :=
  if !r.terminal && decide (c.limits.maxEvents - 2 ≤ s.inner.nextSequence) then (false, s)
  else
    let record := c.record s.inner.nextSequence r
    match record.json observed with
    | none => (false, s)
    | some serialized =>
      let bytes := min (byteLength serialized + 1) u64Max
      if maxTraceLineBytes < byteLength serialized ||
          (!r.terminal && decide (c.limits.maxBytes - 2 * maxTraceLineBytes < saturatingAdd s.inner.emittedBytes bytes)) then
        (false, s)
      else if !s.connected then (false, { s with inner := { s.inner with finished := true } })
      else if c.capacity ≤ s.queue.length then (false, s)
      else
        (true, { s with
          queue := s.queue ++ [record]
          inner := { s.inner with
            nextSequence := saturatingAdd s.inner.nextSequence 1
            emittedBytes := saturatingAdd s.inner.emittedBytes bytes } })

end TraceSubscriber

namespace Collector

/-- The receiver takes up to `n` records. -/
def take (s : Collector Data) (n : Nat) : Collector Data :=
  { s with received := s.received ++ s.queue.take n, queue := s.queue.drop n }

def countDropped (s : Collector Data) : Collector Data :=
  { s with inner := { s.inner with pendingDropped := saturatingAdd s.inner.pendingDropped 1 } }

end Collector

/-- A call of `emit`: what it is given, the clock at its two checks and for its two records, and how many records the
receiver takes in between. -/
structure Emit (Data : Type) where
  operationId : OperationId
  operation : OperationClass
  kind : TraceEventKind Data
  admittedAt : Nat
  readmittedAt : Nat
  markerSinceEpochMs : Option Nat
  sinceEpochMs : Option Nat
  taken : Nat
  deriving DecidableEq

/-- What becomes of an event. -/
inductive Fate where
  /-- It is not for this trace. -/
  | omitted
  | delivered
  | dropped

/-- What a call of `emit` did: whether the marker of the events dropped before went out, and what became of its own
event. The source returns nothing. -/
structure Emitted where
  marked : Bool
  fate : Fate

namespace Emit

def marker (e : Emit Data) (dropped : Nat) : Sending Data :=
  { operationId := e.operationId, operation := e.operation, event := .eventsDropped dropped, terminal := false,
    admittedAt := e.admittedAt, sinceEpochMs := e.markerSinceEpochMs }

def sending (e : Emit Data) : Sending Data :=
  { operationId := e.operationId, operation := e.operation, event := e.kind, terminal := false,
    admittedAt := e.readmittedAt, sinceEpochMs := e.sinceEpochMs }

end Emit

namespace TraceSubscriber

variable (observed : Observed Data) (c : TraceSubscriber)

/-- The second half of `emit`, after the marker. -/
def emitEvent (s : Collector Data) (e : Emit Data) (marked : Bool) : Emitted × Collector Data :=
  if c.deadline ≤ e.readmittedAt then ({ marked, fate := .omitted }, s)
  else
    match c.trySendLocked observed s e.sending with
    | (true, s) => ({ marked, fate := .delivered }, s)
    | (false, s) => ({ marked, fate := .dropped }, s.countDropped)

/-- A producer holds the lock for the whole of `emit`, but the receiver may take records in between its two
sends. -/
def emit (s : Collector Data) (e : Emit Data) : Emitted × Collector Data :=
  if !e.kind.supportsSchema c.traceSchema then ({ marked := false, fate := .omitted }, s)
  else if s.inner.finished || decide (c.deadline ≤ e.admittedAt) then ({ marked := false, fate := .omitted }, s)
  else if 0 < s.inner.pendingDropped then
    match c.trySendLocked observed s (e.marker s.inner.pendingDropped) with
    | (false, s) => ({ marked := false, fate := .dropped }, s.countDropped)
    | (true, s) => c.emitEvent observed ({ s with inner := { s.inner with pendingDropped := 0 } }.take e.taken) e true
  else c.emitEvent observed (s.take e.taken) e false

end TraceSubscriber

/-- A call of `finish`. -/
structure Finish where
  outcome : CategoricalOutcome
  finishedAt : Nat
  markerSinceEpochMs : Option Nat
  sinceEpochMs : Option Nat
  deriving DecidableEq

namespace Finish

def marker (f : Finish) (operationId : OperationId) (dropped : Nat) : Sending Data :=
  { operationId, operation := .status, event := .eventsDropped dropped, terminal := false,
    admittedAt := f.finishedAt, sinceEpochMs := f.markerSinceEpochMs }

def sending (f : Finish) (operationId : OperationId) : Sending Data :=
  { operationId, operation := .status, event := .finished f.outcome, terminal := true, admittedAt := f.finishedAt,
    sinceEpochMs := f.sinceEpochMs }

end Finish

namespace TraceSubscriber

variable (observed : Observed Data) (c : TraceSubscriber)

/-- The marker of the events still to be counted, where there are any. -/
def finishMarker (s : Collector Data) (f : Finish) : Collector Data :=
  if 0 < s.inner.pendingDropped ∧ s.inner.nextSequence < c.limits.maxEvents - 1 then
    { s with
      returned := s.returned ++ [c.record s.inner.nextSequence (f.marker c.operationId s.inner.pendingDropped)]
      inner := { s.inner with nextSequence := saturatingAdd s.inner.nextSequence 1, pendingDropped := 0 } }
  else s

def finish (s : Collector Data) (f : Finish) : Collector Data :=
  if s.inner.finished then s
  else
    let s := c.finishMarker { s with inner := { s.inner with finished := true } } f
    { s with
      returned := s.returned ++ [c.record s.inner.nextSequence (f.sending c.operationId)]
      inner := { s.inner with nextSequence := saturatingAdd s.inner.nextSequence 1 } }

inductive Step (Data : Type) where
  | emit (e : Emit Data)
  | receive
  | finish (f : Finish)
  | drop
  deriving DecidableEq

def step (s : Collector Data) : Step Data → Option (Collector Data)
  | .emit e => some (c.emit observed s e).2
  | .receive => if s.connected ∧ s.queue ≠ [] then some (s.take 1) else none
  | .finish f => if s.connected then some (c.finish s f) else none
  | .drop => some { s with connected := false, inner := { s.inner with finished := true } }

end TraceSubscriber

/-! ## Subscribing -/

inductive TraceSubscribeError where
  | notRoot
  | busy
  | unsupportedSchema

/-- What `subscribe` reads besides its arguments: whether a collector is active, the new operation's identifier and
the clocks. -/
structure Subscribing where
  busy : Bool
  operationId : OperationId
  startedAt : Nat
  sinceEpochMs : Option Nat

def freshCollector : Collector Data :=
  { inner := { nextSequence := 0, pendingDropped := 0, emittedBytes := 0, finished := false }
    queue := []
    connected := true
    received := []
    returned := [] }

namespace Subscribing

def subscriber (w : Subscribing) (durationMs traceSchema capacity : Nat) : TraceSubscriber :=
  { limits := .bounded durationMs
    startedAt := w.startedAt
    deadline := w.startedAt + (TraceLimits.bounded durationMs).durationMs * 1000000
    traceSchema
    capacity
    operationId := w.operationId }

def startup (w : Subscribing) (limits : TraceLimits) : Sending Data :=
  { operationId := w.operationId, operation := .status, event := .traceStarted limits .privilegedDiagnosticOracle,
    terminal := false, admittedAt := w.startedAt, sinceEpochMs := w.sinceEpochMs }

end Subscribing

/-- `none` is where the assertion fails that a fresh queue accepts its startup record. -/
def subscribeTraceWithCapacity (observed : Observed Data) (peerUid durationMs : Nat) (traceSchema : Option Nat)
    (capacity : Nat) (w : Subscribing) : Option (Except TraceSubscribeError (TraceSubscriber × Collector Data)) :=
  let traceSchema := traceSchema.getD legacyTraceSchemaVersion
  if peerUid ≠ 0 then some (.error .notRoot)
  else if traceSchema ∉ [legacyTraceSchemaVersion, v2TraceSchemaVersion, v3TraceSchemaVersion, v4TraceSchemaVersion,
      currentTraceSchemaVersion] then some (.error .unsupportedSchema)
  else if w.busy then some (.error .busy)
  else
    let c := w.subscriber durationMs traceSchema capacity
    match c.trySendLocked observed freshCollector (w.startup c.limits) with
    | (true, s) => some (.ok (c, s))
    | (false, _) => none

end Irlume.Diagnostics

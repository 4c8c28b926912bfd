import Mathlib.Data.Finset.Card
import Mathlib.Data.List.MinMax
import Irlume.Diagnostics.Owner
import Irlume.Lib.Rings
import Irlume.Lib.Saturating

/-!
# The recent events

`diagnostics.rs`: the events of the last half hour, kept in one ring for each owner and numbered by one counter.
What an event says (`Kind`) and the support context are copied and never looked at. Every call reads the clock and
takes the lock once, so a history is a list of calls, each with its reading.

`listed` is the purpose: what a reader is shown, computed from the events it may see alone.
-/

namespace Irlume.Diagnostics

open Std Irlume.Lib

def maxShareSafeEvents : Nat := 256

def maxHistoryMs : Nat := 30 * 60 * 1000

def maxAccountRings : Nat := 32

def supportSchemaVersion : Nat := 1

def maxSanitizedCameras : Nat := 8

def maxUnavailableSections : Nat := 16

inductive OperationClass where
  | authentication
  | enrollment
  | identification
  | captureQualification
  | cameraDiagnostics
  | supportProbe
  | status
  | lifecycle
  deriving DecidableEq

inductive SupportSection where
  | daemon
  | cameraContext
  | captureSchedule
  | recentEvents
  | supportProbe

inductive UnavailableReason where
  | daemonUnavailable
  | daemonRestarted
  | noCamera
  | noIrPair
  | notAuthorized
  | collectionFailed

structure SupportUnavailable where
  «section» : SupportSection
  reason : UnavailableReason

variable {Kind Capture Camera : Type}

structure TimedShareSafeEvent (Kind : Type) where
  recordedMs : Nat
  sequence : Nat
  operationId : OperationId
  operation : OperationClass
  kind : Kind

structure ShareSafeEvent (Kind : Type) where
  sequence : Nat
  ageMs : Nat
  operationId : OperationId
  operation : OperationClass
  kind : Kind
  deriving DecidableEq

structure SupportSnapshot (Kind Capture Camera : Type) where
  supportSchema : Nat
  daemonUptimeMs : Nat
  retainedHistoryMs : Nat
  capture : Option Capture
  cameras : List Camera
  events : List (ShareSafeEvent Kind)
  unavailable : List SupportUnavailable

abbrev Rings (Kind : Type) := ExtTreeMap Owner (List (TimedShareSafeEvent Kind))

structure Inner (Kind Capture Camera : Type) where
  rings : Rings Kind
  /-- Numbers every event in the order recorded, across all rings. -/
  nextSequence : Nat
  capture : Option Capture
  cameras : List Camera

/-! ## Recording -/

/-- Drop every event older than `maxHistoryMs`, and a ring left empty. -/
def pruneExpired (rings : Rings Kind) (nowMs : Nat) : Rings Kind :=
  rings.filterMap fun _ events =>
    let kept := events.dropWhile fun event => !decide (nowMs - maxHistoryMs ≤ event.recordedMs)
    if kept.isEmpty then none else some kept

/-- The ring of the account whose latest event is oldest gives way where as many accounts as may be keep one. -/
def makeRoomForAnAccount (rings : Rings Kind) : Rings Kind :=
  if rings.keys.countP Owner.isAccount < maxAccountRings then rings
  else
    match (rings.toList.filter (·.1.isAccount)).argmin
        fun entry => ((entry.2.getLast?).map (·.sequence)).getD 0 with
    | none => rings
    | some (owner, _) => rings.erase owner

/-- A call of `record`: what it is given, and the clock it reads. -/
structure Entry (Kind : Type) where
  owner : Owner
  nowMs : Nat
  operationId : OperationId
  operation : OperationClass
  kind : Kind

namespace Entry

def timed (e : Entry Kind) (sequence : Nat) : TimedShareSafeEvent Kind :=
  { recordedMs := e.nowMs, sequence, operationId := e.operationId, operation := e.operation, kind := e.kind }

/-- The event as it is listed at `nowMs`. -/
def shown (e : Entry Kind) (nowMs sequence : Nat) : ShareSafeEvent Kind :=
  { sequence, ageMs := nowMs - e.nowMs, operationId := e.operationId, operation := e.operation, kind := e.kind }

end Entry

def recordLocked (inner : Inner Kind Capture Camera) (e : Entry Kind) : Inner Kind Capture Camera :=
  let rings := pruneExpired inner.rings e.nowMs
  let rings := if e.owner.isAccount ∧ e.owner ∉ rings then makeRoomForAnAccount rings else rings
  let ring := (rings.getD e.owner []).rtake (maxShareSafeEvents - 1)
  { inner with
    nextSequence := saturatingAdd inner.nextSequence 1
    rings := rings.insert e.owner (ring ++ [e.timed inner.nextSequence]) }

/-! ## Reading -/

/-- `sort_unstable_by_key` by the sequence. Where two sequences are equal it promises no order. -/
structure SequenceSort (Kind : Type) where
  sort : List (ShareSafeEvent Kind) → List (ShareSafeEvent Kind)
  perm : ∀ events, (sort events).Perm events
  sorted : ∀ events, (sort events).Pairwise fun a b => a.sequence ≤ b.sequence

namespace SupportSnapshot

def bounded (daemonUptimeMs retainedHistoryMs : Nat) (capture : Option Capture) (cameras : List Camera)
    (events : List (ShareSafeEvent Kind)) (unavailable : List SupportUnavailable) :
    SupportSnapshot Kind Capture Camera :=
  { supportSchema := supportSchemaVersion
    daemonUptimeMs
    retainedHistoryMs := min retainedHistoryMs maxHistoryMs
    capture
    cameras := cameras.take maxSanitizedCameras
    events := events.rtake maxShareSafeEvents
    unavailable := unavailable.take maxUnavailableSections }

end SupportSnapshot

def renumbered (events : List (ShareSafeEvent Kind)) : List (ShareSafeEvent Kind) :=
  (events.zipIdx 1).map fun (event, sequence) => { event with sequence }

def window (sinceMs : Nat) : Nat := min sinceMs maxHistoryMs

def merged (rings : Rings Kind) (nowMs sinceMs peerUid : Nat) : List (ShareSafeEvent Kind) :=
  ((rings.toList.filter fun entry => entry.1.visibleTo peerUid).flatMap (·.2)).filterMap fun event =>
    let ageMs := nowMs - event.recordedMs
    if ageMs ≤ window sinceMs then
      some { sequence := event.sequence, ageMs, operationId := event.operationId,
             operation := event.operation, kind := event.kind }
    else none

def snapshotFor (inner : Inner Kind Capture Camera) (sort : SequenceSort Kind) (nowMs sinceMs peerUid : Nat) :
    SupportSnapshot Kind Capture Camera × Inner Kind Capture Camera :=
  let inner := { inner with rings := pruneExpired inner.rings nowMs }
  let events := (sort.sort (merged inner.rings nowMs sinceMs peerUid)).rtake maxShareSafeEvents
  let events := if peerUid = 0 then events else renumbered events
  let unavailable := if peerUid = 0 then [] else [{ «section» := .recentEvents, reason := .notAuthorized }]
  (.bounded nowMs maxHistoryMs inner.capture inner.cameras events unavailable, inner)

/-! ## Histories -/

inductive Call (Kind Capture Camera : Type) where
  | record (e : Entry Kind)
  | snapshot (sort : SequenceSort Kind) (nowMs sinceMs peerUid : Nat)
  | publishSupportContext (capture : Capture) (cameras : List Camera)

namespace Call

def run (inner : Inner Kind Capture Camera) : Call Kind Capture Camera → Inner Kind Capture Camera
  | .record e => recordLocked inner e
  | .snapshot sort nowMs sinceMs peerUid => (snapshotFor inner sort nowMs sinceMs peerUid).2
  | .publishSupportContext capture cameras => { inner with capture := some capture, cameras }

def entry? : Call Kind Capture Camera → Option (Entry Kind)
  | .record e => some e
  | _ => none

def nowMs? : Call Kind Capture Camera → Option Nat
  | .record e => some e.nowMs
  | .snapshot _ nowMs _ _ => some nowMs
  | .publishSupportContext _ _ => none

end Call

def Inner.new : Inner Kind Capture Camera := { rings := ∅, nextSequence := 1, capture := none, cameras := [] }

def after (h : List (Call Kind Capture Camera)) : Inner Kind Capture Camera := h.foldl Call.run .new

def recorded (h : List (Call Kind Capture Camera)) : List (Entry Kind) := h.filterMap Call.entry?

def readings (h : List (Call Kind Capture Camera)) : List Nat := h.filterMap Call.nowMs?

def accountsOf (entries : List (Entry Kind)) : Finset Nat := (entries.filterMap fun e => e.owner.account?).toFinset

def visible (peerUid : Nat) (h : List (Call Kind Capture Camera)) : List (Entry Kind) :=
  (recorded h).filter fun e => e.owner.visibleTo peerUid

/-- What a reader other than root is to be shown of the events it may see: the latest in the window that their own
rings still hold, in the order recorded and numbered from 1. -/
def listed (nowMs sinceMs : Nat) (entries : List (Entry Kind)) : List (ShareSafeEvent Kind) :=
  ((((held Entry.owner maxShareSafeEvents entries).filter fun e => nowMs - e.nowMs ≤ window sinceMs).rtake
    maxShareSafeEvents).zipIdx 1).map fun (e, sequence) => e.shown nowMs sequence

end Irlume.Diagnostics

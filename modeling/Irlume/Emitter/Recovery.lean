import Irlume.Emitter.Journal
import Irlume.Lib.Program
import Irlume.Lib.DurableFile

/-!
# Putting back what an interrupted run left changed

The programs that touch a camera's control and its undo record are written over the calls they make
(`Op`): requests to the camera, steps on the files, and what is asked of the process and its caller.
A call whose effect may be lost (a write to the record, a removal, a `SET_CUR`) is one call, and what
became of it is the world's choice.

Recovery runs before discovery and before a capture applies a control. It reads the record, asks
what the control holds, and writes the original back only over the value the record says was
attempted; the attempt is counted on disk before the write.
-/

namespace Irlume.Emitter

open Irlume.Lib

/-! ## Calls -/

/-- Why a camera request failed. -/
inductive XuError where
  | unsupported
  | unresponsive (errno : Int)
  deriving DecidableEq

/-- The values of a control a camera can be asked for. -/
inductive Query where
  | cur
  | min
  | max
  | res
  | default
  deriving DecidableEq

/-- How far a write that did not fail got. -/
inductive AtomicWrite where
  | durable
  | visibleNotDurable

/-- What one burst of frames shows of frame-locked illumination. -/
inductive OpticalD1Verdict where
  | inconclusive
  | proven
  | refuted
  deriving DecidableEq

/-- What the frames' metadata say about alternating illumination. -/
structure D1MetadataEvidence where
  total : Nat
  lit : Nat
  dark : Nat
  parityConsistentPairs : Nat
  parityConflicts : Nat
  invalidSequenceSteps : Nat
  deriving DecidableEq

namespace D1MetadataEvidence

def classified (e : D1MetadataEvidence) : Nat := e.lit + e.dark

def provesD1 (e : D1MetadataEvidence) : Bool :=
  e.invalidSequenceSteps = 0 && 4 ≤ e.classified && 2 ≤ e.lit && 2 ≤ e.dark &&
    3 ≤ e.parityConsistentPairs && e.parityConflicts = 0

def contradictsD1 (e : D1MetadataEvidence) : Bool :=
  e.invalidSequenceSteps = 0 && 4 ≤ e.classified && 0 < e.parityConflicts

end D1MetadataEvidence

/-- One measurement of the image. The brightness is a float, kept as its bits: comparing two of them
is asked of the world. -/
structure SetupMeasurement where
  brightness : UInt32
  d1Optical : Option OpticalD1Verdict
  d1Metadata : Option D1MetadataEvidence
  deriving DecidableEq

/-- A call to the camera, the store, or the process around the run. -/
inductive Op where
  | getLen (unit selector : UInt8)
  | getInfo (unit selector : UInt8)
  | getOf (query : Query) (unit selector : UInt8) (size : Nat)
  | setCur (unit selector : UInt8) (payload : Bytes)
  /-- Take this camera's lock; `false` when somebody else holds it. -/
  | lockCamera
  /-- Whether a record from before configuration binding blocks the store. -/
  | legacyRecords
  | readRecord (path : Text)
  | allRecords
  | ownerStillRunning (record : PendingWrite)
  | saveAt (path : Text) (record : PendingWrite)
  /-- Remove a record and make its absence durable. -/
  | clear (path : Text)
  | saveConf (usbId : Text) (unit selector : UInt8)
  | loadConf (usbId : Text)
  | measure
  | abortRequested
  | beforeForwardWrite
  /-- `lit < before + AUTOCONF_MIN_LIFT`. -/
  | tooWeak (before lit : UInt32)
  /-- `after >= lit - AUTOCONF_MIN_LIFT`. -/
  | stayedBright (lit afterRestore : UInt32)
  | callerFinishes
  deriving DecidableEq

abbrev Op.Answer : Op → Type
  | .getLen _ _ => Except XuError Nat
  | .getInfo _ _ => Except XuError UInt8
  | .getOf _ _ _ _ => Except XuError Bytes
  | .setCur _ _ _ => Except XuError Unit
  | .lockCamera => Except Unit Bool
  | .legacyRecords => Except StoreError Bool
  | .readRecord _ => Except StoreError (Option PendingWrite)
  | .allRecords => Except StoreError (List (Text × PendingWrite))
  | .ownerStillRunning _ => Bool
  | .saveAt _ _ => Except Unit AtomicWrite
  | .clear _ => Except Unit Unit
  | .saveConf _ _ _ => Except Unit Unit
  | .loadConf _ => Option (UInt8 × UInt8)
  | .measure => Option SetupMeasurement
  | .abortRequested => Bool
  | .beforeForwardWrite => Except Unit Unit
  | .tooWeak _ _ => Bool
  | .stayedBright _ _ => Bool
  | .callerFinishes => Bool

abbrev Run (α : Type) : Type := Program Op Op.Answer α

def getCur (unit selector : UInt8) (size : Nat) : Op := .getOf .cur unit selector size

/-! ## The store -/

section

variable [Sha256]

/-- The store, classified against this camera. The file name is a fast path: a miss goes on to all
records, a hit that describes another camera is damage. -/
def load (id : CameraIdentity) : Run (Except StoreError Situation) :=
  .call .legacyRecords fun
  | .error e => .result (.error e)
  | .ok true => .result (.error .damaged)
  | .ok false =>
    .call (.readRecord (recordPath (filingKey id))) fun
    | .error e => .result (.error e)
    | .ok (some record) =>
      if describesThisCamera record id then
        .result (.ok (.mine (recordPath (filingKey id)) record))
      else .result (.error .damaged)
    | .ok none =>
      .call .allRecords fun
      | .error e => .result (.error e)
      | .ok records => .result (.ok (Situation.ofRecords records id))

end

/-! ## Recovery -/

/-- Why a change stays unresolved. -/
inductive Unresolved where
  | damagedStore
  | mismatch (m : Mismatch)
  /-- `GET_LEN`, `GET_INFO` or `GET_CUR` failed, or the length is another one. -/
  | control
  | refused (why : Refusal)
  | countAttempt
  | malformedAttempted
  /-- The control changed while the attempt was being recorded. -/
  | changedMeanwhile
  | recheck
  | restore
  | readsOtherwise
  | readBack
  | notGivenBack (why : Unresolved)
  | spent (attempts : Nat)

inductive RecoveryOutcome where
  | nothingPending
  | forAnotherCamera
  | alreadyRestored
  | restored (unit selector : UInt8)
  | restoredRecordKept
  | ownerStillRunning (pid : UInt32)
  | busy
  | unchecked
  | unresolved (why : Unresolved)
  | unconfirmed (unit selector : UInt8) (original recordedAt : Text)

def RecoveryOutcome.blocksDiscovery : RecoveryOutcome → Bool
  | .nothingPending | .forAnotherCamera | .alreadyRestored | .restored _ _ => false
  | .restoredRecordKept | .ownerStillRunning _ | .busy | .unchecked | .unresolved _
  | .unconfirmed _ _ _ _ => true

def countedAttemptAuthorizesWrite : Except Unit AtomicWrite → Bool
  | .ok .durable => true
  | .ok .visibleNotDurable => false
  | .error _ => false

/-- `GET_LEN`, `GET_INFO`, `GET_CUR`, in this order: the camera's own length gates the rest. -/
def controlNow (record : PendingWrite) : Run (Option ControlNow) :=
  .call (.getLen record.unit record.selector) fun
  | .error _ => .result none
  | .ok len =>
    if len ≠ record.len then .result none
    else
      .call (.getInfo record.unit record.selector) fun
      | .error _ => .result none
      | .ok info =>
        .call (getCur record.unit record.selector len) fun
        | .error _ => .result none
        | .ok current => .result (some { len, writable := infoAllowsSet info, current })

/-- Drop a record whose control is back, and answer `outcome`. -/
def clearRestored (path : Text) (outcome : RecoveryOutcome) : Run RecoveryOutcome :=
  .call (.clear path) fun
  | .ok () => .result outcome
  | .error () => .result .restoredRecordKept

def spentRecordRecovery (record : PendingWrite) (path : Text) (attempts : Nat) :
    Run RecoveryOutcome :=
  controlNow record >>= fun
  | none => .result (.unresolved (.spent attempts))
  | some now =>
    match restoreDecision record now with
    | .alreadyRestored => clearRestored path .alreadyRestored
    | .refuse _ => .result (.unresolved (.spent attempts))
    | .write _ => .result (.unresolved (.spent attempts))

/-- Put the count back: a pass that decides not to write spends no attempt. -/
def giveBack (path : Text) (record : PendingWrite) (why : Unresolved) : Run RecoveryOutcome :=
  .call (.saveAt path record) fun
  | .ok _ => .result (.unresolved why)
  | .error () => .result (.unresolved (.notGivenBack why))

def writeBack (record : PendingWrite) (path : Text) (original : Bytes) : Run RecoveryOutcome :=
  .call (.setCur record.unit record.selector original) fun
  | .error _ => .result (.unresolved .restore)
  | .ok () =>
    .call (getCur record.unit record.selector original.length) fun
    | .error _ => .result (.unresolved .readBack)
    | .ok back =>
      if back = original then clearRestored path (.restored record.unit record.selector)
      else .result (.unresolved .readsOtherwise)

def restoreCounted (record : PendingWrite) (path : Text) (original : Bytes) : Run RecoveryOutcome :=
  .call (.saveAt path record.spent) fun saved =>
    if !countedAttemptAuthorizesWrite saved then .result (.unresolved .countAttempt)
    else
      match fromHex record.attempted with
      | none => giveBack path record .malformedAttempted
      | some attempted =>
        .call (getCur record.unit record.selector original.length) fun
        | .error _ => giveBack path record .recheck
        | .ok now =>
          if now = attempted then writeBack record path original
          else giveBack path record .changedMeanwhile

section

variable [Sha256]

/-- What recovery does about a record found at `path`. -/
def recoverRecord (id : CameraIdentity) (path : Text) (record : PendingWrite) :
    Run RecoveryOutcome :=
  .call (.ownerStillRunning record) fun running =>
    match recordApplies record id running with
    | .error .differentCamera => .result .forAnotherCamera
    | .error (.ownerStillRunning pid) => .result (.ownerStillRunning pid)
    | .error (.outOfAttempts attempts) => spentRecordRecovery record path attempts
    | .error m => .result (.unresolved (.mismatch m))
    | .ok () =>
      controlNow record >>= fun
      | none => .result (.unresolved .control)
      | some now =>
        match restoreDecision record now with
        | .alreadyRestored => clearRestored path .alreadyRestored
        | .refuse why => .result (.unresolved (.refused why))
        | .write original => restoreCounted record path original

def recoverPendingWriteLocked (id : CameraIdentity) : Run RecoveryOutcome :=
  load id >>= fun
  | .error .unexaminable => .result .unchecked
  | .error .damaged => .result (.unresolved .damagedStore)
  | .ok .nothing => .result .nothingPending
  | .ok (.sameModelElsewhere record) =>
    .result (.unconfirmed record.unit record.selector record.original record.usbDevpath)
  | .ok (.mine path record) => recoverRecord id path record

def recoverPendingWrite (id : CameraIdentity) : Run RecoveryOutcome :=
  .call .lockCamera fun
  | .ok true => recoverPendingWriteLocked id
  | .ok false => .result .busy
  | .error () => .result .unchecked

end

end Irlume.Emitter

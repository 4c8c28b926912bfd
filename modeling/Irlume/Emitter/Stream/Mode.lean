import Irlume.Emitter.Stream.Record

/-!
# A stream's emitter mode

A stream takes the camera's stream lock, reads the control, and writes the wanted value when the control
holds another (`writeIfDifferentInner`); a value found in place already is claimed when a record marks it
as irlume's own leftover. When the stream ends, by a call or a drop, the mode puts back what was displaced
(`UvcMode.restoreInner`).

The lock lives inside the record of a stream that has one, and is held for as long as the stream owns a
change; where Rust drops it, nothing of the stream is left to run.
-/

namespace Irlume.Emitter.Stream

open Irlume.Lib

/-! ## Calls -/

/-- What a `SET_CUR` is for. -/
inductive Purpose where
  | forward
  | restoring
  deriving DecidableEq

/-- Why the stream lock was not acquired. -/
inductive AcquireError where
  /-- Another live guard holds it. -/
  | busy
  /-- A record from before configuration binding may describe a live change. -/
  | protectedRecord
  | unavailable

inductive RestoreError where
  | camera (e : XuError)
  /-- The record could not be retired, and no request was made. -/
  | bookkeeping
  deriving DecidableEq

/-- A call to the camera, the record store, or the process around the stream. -/
inductive Op where
  /-- Whether records from before configuration binding let this camera's control alone. -/
  | protectLegacyRecords
  | openLock (path : Text)
  | flock (inode : Nat)
  | readRecord (path : Text)
  | publish (path : Text) (record : StreamWrite)
  | removeRecord (path : Text)
  | getCur (unit selector : UInt8) (size : Nat)
  | setCur (why : Purpose) (unit selector : UInt8) (payload : Bytes)
  | beforeForwardWrite
  /-- Whether the lease lets the restore through to this descriptor. -/
  | requireRestore
  /-- The stream runs until its mode is restored by a call or dropped. -/
  | streams
  | ended (unit selector : UInt8) (answer : Except RestoreError Unit)
  deriving DecidableEq

abbrev Op.Answer : Op → Type
  | .protectLegacyRecords => Except Unit Unit
  | .openLock _ => Except Unit Nat
  | .flock _ => Except AcquireError Unit
  | .readRecord _ => Except Unit (Option Contents)
  | .publish _ _ => Except Unit Unit
  | .removeRecord _ => Except Unit Unit
  | .getCur _ _ _ => Except XuError Bytes
  | .setCur _ _ _ _ => Except XuError Unit
  | .beforeForwardWrite => Except Unit Unit
  | .requireRestore => Except XuError Unit
  | .streams => Unit
  | .ended _ _ _ => Unit

abbrev Run (α : Type) : Type := Program Op Op.Answer α

/-! ## The lock and the record -/

section

variable [Sha256]

/-- The legacy records are looked at before the lock, and again under it. -/
def acquire (id : CameraIdentity) : Run (Except AcquireError Unit) :=
  .call .protectLegacyRecords fun
  | .error () => .result (.error .protectedRecord)
  | .ok () =>
    .call (.openLock (lockPath id)) fun
    | .error () => .result (.error .unavailable)
    | .ok file =>
      .call (.flock file) fun
      | .error e => .result (.error e)
      | .ok () =>
        .call .protectLegacyRecords fun
        | .error () => .result (.error .protectedRecord)
        | .ok () => .result (.ok ())

end

/-- A live record, and the lock that marks its writer as alive. -/
structure StreamRecord where
  path : Text
  record : StreamWrite
  claimed : Bool

namespace StreamRecord

/-- Rewrite the record as applied. On failure it stays prepared, and comes back with its lock. -/
def markApplied (r : StreamRecord) : Run (Except StreamRecord StreamRecord) :=
  let applied : StreamRecord := { r with record := { r.record with state := .applied } }
  .call (.publish r.path applied.record) fun
  | .ok () => .result (.ok applied)
  | .error () => .result (.error { r with record := { r.record with state := .prepared } })

/-- Rewrite the record as prepared before its effect is undone. A claimed attempt is counted here. -/
def retire (r : StreamRecord) : Run (Except StreamRecord StreamRecord) :=
  if r.record.state = .prepared then .result (.ok r)
  else
    let attempts := if r.claimed then r.record.restoreAttempts + 1 else r.record.restoreAttempts
    let retired : StreamRecord :=
      { r with record := { r.record with state := .prepared, restoreAttempts := attempts } }
    .call (.publish r.path retired.record) fun
    | .ok () => .result (.ok retired)
    | .error () => .result (.error { r with record := { r.record with state := .applied } })

/-- Remove a record that authorises nothing. A failure costs litter. -/
def resolve (r : StreamRecord) : Run Unit := .call (.removeRecord r.path) fun _ => .result ()

end StreamRecord

inductive SaveError where
  /-- The record in place is not written over; the lock is dropped. -/
  | refused (why : SaveRefusal)
  | protectedRecord
  /-- The store could not take the record. The lock is kept. -/
  | unavailable

section

variable [Sha256]

/-- File the prepared record of a write to come, where the record in place may be replaced. -/
def save (id : CameraIdentity) (unit selector : UInt8) (applied displaced : Bytes) :
    Run (Except SaveError StreamRecord) :=
  .call .protectLegacyRecords fun
  | .error () => .result (.error .protectedRecord)
  | .ok () =>
    .call (.readRecord (recordPath id)) fun
    | .error () => .result (.error .unavailable)
    | .ok found =>
      match saveGate found unit selector displaced with
      | .error why => .result (.error (.refused why))
      | .ok () =>
        let record := prepared id unit selector applied displaced
        .call (.publish (recordPath id) record) fun
        | .error () => .result (.error .unavailable)
        | .ok () => .result (.ok { path := recordPath id, record, claimed := false })

def claim (id : CameraIdentity) (unit selector : UInt8) (current : Bytes) :
    Run (Option (Bytes × StreamRecord)) :=
  .call .protectLegacyRecords fun
  | .error () => .result none
  | .ok () =>
    .call (.readRecord (recordPath id)) fun
    | .ok (some (.record record)) =>
      match recordClaims record id unit selector current with
      | .error _ => .result none
      | .ok displaced => .result (some (displaced, { path := recordPath id, record, claimed := true }))
    | _ => .result none

end

/-! ## The write -/

/-- What became of the write. -/
inductive Applied where
  | nothing
  | alreadyHeld
  | wrote

structure CaptureWrite where
  outcome : Applied
  /-- What the control held. -/
  current : Bytes
  record : Option StreamRecord
  /-- The bare lock of a write without a record. -/
  lock : Bool

def CaptureWrite.refused : CaptureWrite where
  outcome := .nothing
  current := []
  record := none
  lock := false

inductive CaptureWriteError where
  | hardware (e : XuError)
  | guard

abbrev Written : Type := Except CaptureWriteError CaptureWrite

def forwardWrite (unit selector : UInt8) (wanted current : Bytes) (record : Option StreamRecord)
    (lock : Bool) : Run Written :=
  .call .beforeForwardWrite fun
  | .error () =>
    match record with
    | none => .result (.error .guard)
    | some r => r.resolve >>= fun () => .result (.error .guard)
  | .ok () =>
    .call (.setCur .forward unit selector wanted) fun
    | .ok () =>
      match record with
      | none => .result (.ok { outcome := .wrote, current, record := none, lock })
      | some r =>
        r.markApplied >>= fun
        | .ok r => .result (.ok { outcome := .wrote, current, record := some r, lock })
        -- unconfirmed, and still holding its lock
        | .error r => .result (.ok { outcome := .wrote, current, record := some r, lock })
    | .error _ =>
      match record with
      | none => .result (.ok { outcome := .nothing, current, record := none, lock := false })
      | some r =>
        r.resolve >>= fun () =>
          .result (.ok { outcome := .nothing, current, record := none, lock := false })

section

variable [Sha256]

def readAndWrite (id : CameraIdentity) (unit selector : UInt8) (len : Nat) (wanted : Bytes)
    (lock : Bool) : Run Written :=
  .call (.getCur unit selector len) fun
  | .error e => .result (.error (.hardware e))
  | .ok current =>
    if current = wanted then .result (.ok { outcome := .alreadyHeld, current, record := none, lock })
    else if lock then
      save id unit selector wanted current >>= fun
      | .ok r => forwardWrite unit selector wanted current (some r) false
      | .error (.refused _) => .result (.ok .refused)
      | .error .protectedRecord => .result (.ok .refused)
      | .error .unavailable => forwardWrite unit selector wanted current none true
    else forwardWrite unit selector wanted current none false

/-- Read what the control holds, and write only when it differs. Without a lock for a reason other than
contention, the write goes ahead without bookkeeping. -/
def writeIfDifferentInner (id : CameraIdentity) (unit selector : UInt8) (len : Nat) (wanted : Bytes) :
    Run Written :=
  acquire id >>= fun
  | .ok () => readAndWrite id unit selector len wanted true
  | .error .busy => .result (.ok .refused)
  | .error .protectedRecord => .result (.ok .refused)
  | .error .unavailable => readAndWrite id unit selector len wanted false

end

/-! ## The mode -/

structure UvcMode where
  unit : UInt8
  selector : UInt8
  /-- What the control held before the write. -/
  restore : Bytes
  applied : Bytes
  /-- irlume's own change is outstanding. -/
  armed : Bool
  record : Option StreamRecord

section

variable [Sha256]

/-- The mode of a stream after its write: armed with what the write displaced, or with what a claimed
record says was displaced. -/
def arm (id : CameraIdentity) (unit selector : UInt8) (wanted : Bytes) (write : CaptureWrite) :
    Run UvcMode :=
  let inert : UvcMode :=
    { unit, selector, restore := [], applied := wanted, armed := false, record := none }
  match write.outcome with
  | .wrote =>
    .result { inert with restore := write.current, armed := true, record := write.record }
  | .alreadyHeld =>
    if write.lock then
      claim id unit selector write.current >>= fun
      | some (displaced, record) =>
        .result { inert with restore := displaced, armed := true, record := some record }
      | none => .result inert
    else .result inert
  | .nothing => .result inert

end

namespace UvcMode

/-- Read the control, and put the displaced value back where it still holds the applied one. -/
def putBack (m : UvcMode) : Run (Except XuError Unit) :=
  .call (.getCur m.unit m.selector m.applied.length) fun
  | .error e => .result (.error e)
  | .ok now =>
    if now ≠ m.applied then .result (.ok ())
    else
      .call .requireRestore fun
      | .error e => .result (.error e)
      | .ok () =>
        .call (.setCur .restoring m.unit m.selector m.restore) fun
        | .error e => .result (.error e)
        | .ok () =>
          -- an acknowledged write can be ignored or clamped; 5 is EIO
          .call (.getCur m.unit m.selector m.restore.length) fun
          | .error e => .result (.error e)
          | .ok restored =>
            .result (if restored = m.restore then .ok () else .error (.unresponsive 5))

def putBackRecorded (m : UvcMode) (r : StreamRecord) : Run (Except RestoreError Unit) :=
  m.putBack >>= fun
  | .ok () => r.resolve >>= fun () => .result (.ok ())
  | .error e => r.markApplied >>= fun _ => .result (.error (.camera e))

def restoreInner (m : UvcMode) : Run (Except RestoreError Unit) :=
  match m.record with
  | none =>
    m.putBack >>= fun
    | .ok () => .result (.ok ())
    | .error e => .result (.error (.camera e))
  | some r =>
    r.retire >>= fun
    | .error _ => .result (.error .bookkeeping)
    | .ok r => m.putBackRecorded r

/-- The rest of a stream: its end by a call or a drop, when the mode has something to put back. -/
def finish (m : UvcMode) : Run Unit :=
  if m.armed then
    .call .streams fun () =>
      m.restoreInner >>= fun answer => .call (.ended m.unit m.selector answer) fun () => .result ()
  else .result ()

end UvcMode

/-- One stream on one control. -/
structure Session where
  id : CameraIdentity
  unit : UInt8
  selector : UInt8
  len : Nat
  wanted : Bytes

def Session.program [Sha256] (s : Session) : Run Unit :=
  writeIfDifferentInner s.id s.unit s.selector s.len s.wanted >>= fun
  | .error _ => .result ()
  | .ok write => arm s.id s.unit s.selector s.wanted write >>= fun mode => mode.finish

end Irlume.Emitter.Stream

import Irlume.Emitter.Identity

/-!
# The undo record and what it authorises

An exploratory write to a camera control is preceded by a record of the value it displaces. This module has the
record, the store's answer about one camera, and the two pure decisions recovery makes.
-/

namespace Irlume.Emitter

open Irlume.Lib

def schemaVersion : Nat := 1

def maxRestoreAttempts : Nat := 3

/-- One control left changed by a run that has not finished putting it back. -/
structure PendingWrite where
  schemaVersion : Nat
  descriptorSha256 : Text
  usbId : Text
  interfaceNumber : UInt8
  unit : UInt8
  selector : UInt8
  len : Nat
  /-- Hex of what `GET_CUR` answered before the first `SET_CUR`. -/
  original : Text
  /-- Hex of the value the run was about to write. -/
  attempted : Text
  restoreAttempts : Nat
  bootId : Option Text
  pid : Option UInt32
  serial : Option Text
  usbDevpath : Text
  deriving DecidableEq

/-- Why the store could not be read. -/
inductive StoreError where
  /-- A record or the directory could not be examined. -/
  | unexaminable
  /-- A record is there that this build must not act on. -/
  | damaged
  deriving DecidableEq

/-- What the store says about the camera in front of us. -/
inductive Situation where
  | nothing
  | mine (path : Text) (record : PendingWrite)
  /-- A record about a camera of the same model, at another port or of unknown serial. -/
  | sameModelElsewhere (record : PendingWrite)

/-- Why a record cannot be acted on. -/
inductive Mismatch where
  | differentCamera
  | unsupportedSchema (found supported : Nat)
  | malformed
  | controlNotPublished
  | outOfAttempts (attempts : Nat)
  | ownerStillRunning (pid : UInt32)

structure ControlNow where
  len : Nat
  writable : Bool
  current : Bytes

/-- Why recovery leaves a control alone. -/
inductive Refusal where
  | malformed
  | otherLength
  /-- It holds neither the value attempted nor the original. -/
  | otherValue
  | notWritable

inductive Restore where
  | alreadyRestored
  | write (original : Bytes)
  | refuse (why : Refusal)

/-- `GET_INFO` permits a write: supported, and disabled by neither automatic mode nor commit state. -/
def infoAllowsSet (info : UInt8) : Bool := info &&& 2 ≠ 0 && info &&& 4 = 0 && info &&& 32 = 0

namespace PendingWrite

def control (r : PendingWrite) : UInt8 × UInt8 := (r.unit, r.selector)

/-- The record with one more attempt, and no owner: the recorded one is known dead. -/
def spent (r : PendingWrite) : PendingWrite :=
  { r with restoreAttempts := r.restoreAttempts + 1, bootId := none, pid := none }

def filingKey [Sha256] (r : PendingWrite) : Text := keyOf r.descriptorSha256 r.serial r.usbDevpath

end PendingWrite

section

variable [Sha256]

def recordPath (key : Text) : Text := key ++ ".json".toList

def describesThisCamera (record : PendingWrite) (id : CameraIdentity) : Bool :=
  identityAuthorizes record.descriptorSha256 record.usbDevpath record.serial id

def Situation.ofRecords (records : List (Text × PendingWrite)) (id : CameraIdentity) : Situation :=
  let sameModel := records.filter fun x => x.2.descriptorSha256 = fingerprint id
  match sameModel.find? fun x => describesThisCamera x.2 id with
  | some (path, record) => .mine path record
  | none =>
    match sameModel.head? with
    | some (_, record) => .sameModelElsewhere record
    | none => .nothing

/-- Whether the record may be acted on. `running` says whether its owner still is. -/
def recordApplies (record : PendingWrite) (id : CameraIdentity) (running : Bool) :
    Except Mismatch Unit := do
  if record.schemaVersion ≠ schemaVersion then
    throw (.unsupportedSchema record.schemaVersion schemaVersion)
  if record.descriptorSha256 ≠ fingerprint id then throw .differentCamera
  if record.usbId ≠ id.usbId || record.interfaceNumber ≠ id.interfaceNumber then throw .malformed
  match fromHex record.original with
  | none => throw .malformed
  | some original => if original.length ≠ record.len then throw .malformed
  match id.microsoftXu with
  | some ms =>
    if !(ms.unitId = record.unit && ms.advertises record.selector) then throw .controlNotPublished
  | none => throw .controlNotPublished
  if maxRestoreAttempts ≤ record.restoreAttempts then throw (.outOfAttempts record.restoreAttempts)
  if running then throw (.ownerStillRunning (record.pid.getD 0))

end

/-- What to do with the control, which is now as `now` says. -/
def restoreDecision (record : PendingWrite) (now : ControlNow) : Restore :=
  match fromHex record.original with
  | none => .refuse .malformed
  | some original =>
    if now.len ≠ record.len then .refuse .otherLength
    else if now.current = original then .alreadyRestored
    else
      match fromHex record.attempted with
      | none => .refuse .malformed
      | some attempted =>
        if now.current ≠ attempted then .refuse .otherValue
        else if !now.writable then .refuse .notWritable
        else .write original

/-! ## What the decisions say -/

theorem restoreDecision_alreadyRestored {record : PendingWrite} {now : ControlNow}
    (h : restoreDecision record now = .alreadyRestored) : fromHex record.original = some now.current := by
  unfold restoreDecision at h
  cases ho : fromHex record.original with
  | none =>
    rw [ho] at h
    cases h
  | some original =>
    rw [ho] at h
    simp only at h
    split at h
    · cases h
    split at h
    · next heq => rw [heq]
    · split at h
      · cases h
      · split at h
        · cases h
        · split at h <;> cases h

theorem restoreDecision_write {record : PendingWrite} {now : ControlNow} {original : Bytes}
    (h : restoreDecision record now = .write original) :
    fromHex record.original = some original ∧ fromHex record.attempted = some now.current ∧
      now.current ≠ original := by
  unfold restoreDecision at h
  cases ho : fromHex record.original with
  | none =>
    rw [ho] at h
    cases h
  | some o =>
    rw [ho] at h
    simp only at h
    split at h
    · cases h
    split at h
    · cases h
    · next hne =>
      cases ha : fromHex record.attempted with
      | none =>
        rw [ha] at h
        cases h
      | some attempted =>
        rw [ha] at h
        simp only at h
        split at h
        · cases h
        · next heq =>
          split at h
          · cases h
          · cases h
            exact ⟨rfl, by rw [not_not.1 heq], hne⟩

section

variable [Sha256] {record : PendingWrite} {id : CameraIdentity} {running : Bool}

theorem lt_of_recordApplies (h : recordApplies record id running = .ok ()) :
    record.restoreAttempts < maxRestoreAttempts := by
  by_contra hge
  simp only [recordApplies, bind, Except.bind, pure, Except.pure, throw, throwThe,
    MonadExceptOf.throw] at h
  grind

theorem ne_differentCamera (hd : record.descriptorSha256 = fingerprint id) :
    recordApplies record id running ≠ .error .differentCamera := by
  simp only [recordApplies, bind, Except.bind, pure, Except.pure, throw, throwThe,
    MonadExceptOf.throw]
  grind

end

end Irlume.Emitter

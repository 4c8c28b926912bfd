import Irlume.Emitter.Recovery

/-!
# The record of a stream's write

A stream that applies an emitter mode files a record of the one write it makes, so that a later stream can tell
its own crash leftover from another program's value. The record goes on disk as `prepared` before the write and
is confirmed as `applied` after it; only an `applied` record authorises a claim.
-/

namespace Irlume.Emitter.Stream

open Irlume.Lib

def schemaVersion : Nat := 1

def maxRestoreAttempts : Nat := 3

/-- How far the write this record covers got. -/
inductive WriteState where
  /-- Published before the `SET_CUR`: authorises nothing. -/
  | prepared
  /-- The camera accepted the `SET_CUR`. -/
  | applied
  deriving DecidableEq

/-- One stream's applied emitter mode. -/
structure StreamWrite where
  schemaVersion : Nat
  descriptorSha256 : Text
  usbId : Text
  interfaceNumber : UInt8
  unit : UInt8
  selector : UInt8
  state : WriteState
  /-- Hex of the payload the stream applied. -/
  applied : Text
  displaced : Text
  restoreAttempts : Nat
  serial : Option Text
  usbDevpath : Text
  deriving DecidableEq

def StreamWrite.control (r : StreamWrite) : UInt8 × UInt8 := (r.unit, r.selector)

/-- What a record file holds. -/
inductive Contents where
  | unparseable
  | record (r : StreamWrite)
  deriving DecidableEq

section

variable [Sha256]

/-- The path of the camera's record. It is filed under the serial too, so a serial that reads at write
time and not at claim time makes the claim miss. -/
def recordPath (id : CameraIdentity) : Text := filingKey id ++ ".json".toList

/-- The path of the lock every writer and claimer takes, which never moves. -/
def lockPath (id : CameraIdentity) : Text := legacyFilingKey id ++ ".lock".toList

/-! ## Saving -/

/-- Why a record in place is not written over. -/
inductive SaveRefusal where
  /-- It may describe a change that is still live. -/
  | outstanding (unit selector : UInt8)
  | otherSchema (found : Nat)
  | unparseable

def StreamWrite.superseded (existing : StreamWrite) (unit selector : UInt8) (displaced : Bytes) : Bool :=
  existing.control = (unit, selector) && (fromHex existing.applied).any (· ≠ displaced)

/-- What already sits at the path decides whether writing is allowed at all. -/
def saveGate (found : Option Contents) (unit selector : UInt8) (displaced : Bytes) :
    Except SaveRefusal Unit :=
  match found with
  | none => .ok ()
  | some .unparseable => .error .unparseable
  | some (.record existing) =>
    if existing.schemaVersion ≠ schemaVersion then .error (.otherSchema existing.schemaVersion)
    else if !existing.superseded unit selector displaced then
      .error (.outstanding existing.unit existing.selector)
    else .ok ()

def prepared (id : CameraIdentity) (unit selector : UInt8) (applied displaced : Bytes) :
    StreamWrite where
  schemaVersion := schemaVersion
  descriptorSha256 := fingerprint id
  usbId := id.usbId
  interfaceNumber := id.interfaceNumber
  unit := unit
  selector := selector
  state := .prepared
  applied := toHex applied
  displaced := toHex displaced
  restoreAttempts := 0
  serial := id.serial
  usbDevpath := id.usbDevpath

/-! ## Claiming -/

inductive Malformed where
  | otherInterface
  | applied
  | displaced
  | lengths (displaced applied : Nat)
  | identical

/-- Why a record does not hand a stream a restore. -/
inductive ClaimRefusal where
  | differentCamera
  | unsupportedSchema (found : Nat)
  | malformed (why : Malformed)
  | notConfirmed
  | differentControl (unit selector : UInt8)
  /-- The control does not hold what the record says was applied. -/
  | superseded
  | outOfAttempts (attempts : Nat)

/-- Whether the record hands the stream that found `current` in place a restore value. -/
def recordClaims (record : StreamWrite) (id : CameraIdentity) (unit selector : UInt8)
    (current : Bytes) : Except ClaimRefusal Bytes :=
  if record.schemaVersion ≠ schemaVersion then .error (.unsupportedSchema record.schemaVersion)
  else if record.state ≠ .applied then .error .notConfirmed
  else if !identityAuthorizes record.descriptorSha256 record.usbDevpath record.serial id then
    .error .differentCamera
  else if record.usbId ≠ id.usbId || record.interfaceNumber ≠ id.interfaceNumber then
    .error (.malformed .otherInterface)
  else if record.control ≠ (unit, selector) then
    .error (.differentControl record.unit record.selector)
  else
    match fromHex record.applied with
    | none => .error (.malformed .applied)
    | some applied =>
      match fromHex record.displaced with
      | none => .error (.malformed .displaced)
      | some displaced =>
        if displaced.length ≠ applied.length then
          .error (.malformed (.lengths displaced.length applied.length))
        else if applied = displaced then .error (.malformed .identical)
        else if applied ≠ current then .error .superseded
        else if maxRestoreAttempts ≤ record.restoreAttempts then
          .error (.outOfAttempts record.restoreAttempts)
        else .ok displaced

end

/-! ## What the gates say -/

section

variable [Sha256] {found : Option Contents} {record : StreamWrite} {id : CameraIdentity}
  {unit selector : UInt8} {current displaced : Bytes}

omit [Sha256] in
theorem superseded_of_saveGate (h : saveGate (some (.record record)) unit selector displaced = .ok ()) :
    record.control = (unit, selector) ∧ ∃ applied, fromHex record.applied = some applied ∧
      applied ≠ displaced := by
  unfold saveGate at h
  simp only at h
  split at h
  · cases h
  split at h
  · cases h
  · next hsuperseded =>
    simp only [StreamWrite.superseded, Bool.not_eq_true', Bool.not_eq_false, Bool.and_eq_true,
      decide_eq_true_eq, Option.any_eq_true] at hsuperseded
    obtain ⟨hcontrol, applied, happlied, hne⟩ := hsuperseded
    exact ⟨hcontrol, applied, happlied, hne⟩

theorem of_recordClaims (h : recordClaims record id unit selector current = .ok displaced) :
    record.state = .applied ∧ record.control = (unit, selector) ∧
      fromHex record.applied = some current ∧ fromHex record.displaced = some displaced := by
  unfold recordClaims at h
  split at h
  · cases h
  split at h
  · cases h
  next hstate =>
  split at h
  · cases h
  split at h
  · cases h
  split at h
  · cases h
  next hcontrol =>
  cases happlied : fromHex record.applied with
  | none =>
    rw [happlied] at h
    cases h
  | some applied =>
    cases hdisplaced : fromHex record.displaced with
    | none =>
      rw [happlied, hdisplaced] at h
      cases h
    | some value =>
      simp only [happlied, hdisplaced] at h
      split at h
      · cases h
      split at h
      · cases h
      split at h
      · cases h
      next hcurrent =>
      split at h
      · cases h
      · cases h
        exact ⟨not_not.1 hstate, not_not.1 hcontrol, congrArg some (not_not.1 hcurrent), rfl⟩

end

end Irlume.Emitter.Stream

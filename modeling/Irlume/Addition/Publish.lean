import Irlume.Addition.World
import Mathlib.Data.List.Nodup
import Mathlib.Data.List.Perm.Subperm

/-!
# Publishing an added camera

`publish_camera_group_preparing_with`, with the preparation of the commit, the account's publication boundary and the
settlement of an interrupted replacement that taking the state lock begins with. Of the enrollment only its JSON is
looked at.
-/

namespace Irlume.Addition

open Irlume.Lib Irlume.Cameras
open Irlume.Replacement (Record Instr recordVersion)
open Irlume.Sealed (Error Resolution)
open Irlume.Split (SplitPairKey)

/-! ## The authorization -/

inductive EnrollmentOperation where
  | addGroup (group : Text) (rgb ir : Option Text)
  | addSplitGroup (group : Text) (pair : SplitPairKey)
  | removeGroup (group : Text)
  deriving DecidableEq

/-- `EnrollmentOperation::add_group` -/
def EnrollmentOperation.adding (group : Text) : PairBinding → EnrollmentOperation
  | .ordinary rgb ir => .addGroup group rgb ir
  | .split pair => .addSplitGroup group pair

structure EnrollmentAuthorization where
  account : Text
  operation : EnrollmentOperation
  grantedAtUnix : Nat
  validForSecs : Nat
  authorizationId : Text

inductive AuthorizationError where
  | wrongAccount
  | wrongOperation
  | expired
  | malformed (detail : Text)

def AuthorizationError.message : AuthorizationError → Text
  | wrongAccount => "authorization names another account"
  | wrongOperation => "authorization names another operation, group, or pair"
  | expired => "authorization window elapsed"
  | malformed detail => "malformed authorization: " ++ detail

namespace EnrollmentAuthorization

variable (a : EnrollmentAuthorization)

def validateFor (account : Text) (operation : EnrollmentOperation) (now : Nat) : Except AuthorizationError Unit :=
  if a.account ≠ account then .error .wrongAccount
  else if a.operation ≠ operation then .error .wrongOperation
  else if a.validForSecs < now - a.grantedAtUnix then .error .expired
  else .ok ()

def ensureNotConsumed (lastConsumedId : Option Text) : Except AuthorizationError Unit :=
  if lastConsumedId = some a.authorizationId then
    .error (.malformed "authorization already consumed by a prior publication")
  else .ok ()

variable {a}

theorem validateFor_ok {account : Text} {operation : EnrollmentOperation} {now : Nat}
    (h : a.validateFor account operation now = .ok ()) : a.account = account ∧ a.operation = operation := by
  unfold validateFor at h
  split at h
  · cases h
  · next haccount =>
    split at h
    · cases h
    · next hoperation => exact ⟨not_not.1 haccount, not_not.1 hoperation⟩

end EnrollmentAuthorization

/-! ## The next store -/

section

variable {Scan Calib : Type}

/-- `matches_binding`: an ordinary binding's missing side matches any. -/
def matchesBinding : PairBinding → PairBinding → Bool
  | .ordinary rgb ir, .ordinary rgb' ir' => rgb.all (rgb' = some ·) && ir.all (ir' = some ·)
  | .split want, .split now => validateSplit want = .ok () && validateSplit now = .ok () && want = now
  | _, _ => false

def groupForBinding (store : SecondaryStore Scan Calib) (live : PairBinding) : Option (SecondaryGroup Scan Calib) :=
  store.groups.find? fun group => matchesBinding group.pair live

/-- `is_ascii_alphanumeric` -/
def isAsciiAlphanumeric (c : Char) : Bool := c.toNat < 128 && c.isAlphanum

/-- The identity as lowercase letters, digits and dashes, without dashes at its ends. -/
def idStem (rgb ir : Option Text) : Text :=
  let source := (rgb.or ir).getD "camera"
  let stem : Text := source.map fun c => if isAsciiAlphanumeric c then c.toLower else '-'
  let stem := ((stem.take (maxIdBytes - 16)).dropWhile (· = '-')).rdropWhile (· = '-')
  if stem = [] then "camera" else stem

def freeId (taken : List Text) (stem : Text) : Nat → Nat → Text → Text
  | 0, _, candidate => candidate
  | fuel + 1, suffix, candidate =>
    if candidate ∈ taken then freeId taken stem fuel (suffix + 1) ("cam-" ++ stem ++ "-" ++ decimal suffix)
    else candidate

/-- `derive_group_id` -/
def deriveGroupId (store : SecondaryStore Scan Calib) (rgb ir : Option Text) : Text :=
  freeId (store.groups.map fun g => g.id.text) (idStem rgb ir) (store.groups.length + 1) 2 ("cam-" ++ idStem rgb ir)

def candidate (stem : Text) (suffix : Nat) (first : Text) : Nat → Text
  | 0 => first
  | k + 1 => "cam-" ++ stem ++ "-" ++ decimal (suffix + k)

theorem freeId_free_or_taken (taken : List Text) (stem : Text) (fuel suffix : Nat) (first : Text) :
    freeId taken stem fuel suffix first ∉ taken ∨ ∀ k < fuel, candidate stem suffix first k ∈ taken := by
  induction fuel generalizing suffix first with
  | zero => exact .inr (by omega)
  | succ fuel ih =>
    unfold freeId
    split
    · next hfirst =>
      refine (ih (suffix + 1) ("cam-" ++ stem ++ "-" ++ decimal suffix)).imp id fun htaken k hk => ?_
      match k with
      | 0 => exact hfirst
      | 1 => exact htaken 0 (by omega)
      | k + 2 =>
        have hnext := htaken (k + 1) (by omega)
        have hsuffix : suffix + (k + 1) = suffix + 1 + k := by omega
        simp only [candidate] at hnext ⊢
        rwa [hsuffix]
    · next hfirst => exact .inl hfirst

theorem candidate_injective (stem : Text) : Function.Injective (candidate stem 2 ("cam-" ++ stem)) := by
  intro j k h
  match j, k with
  | 0, 0 => rfl
  | 0, k + 1 =>
    have hlength := congrArg List.length h
    simp [candidate] at hlength
  | j + 1, 0 =>
    have hlength := congrArg List.length h
    simp [candidate] at hlength
  | j + 1, k + 1 =>
    have hsuffix := congrArg decimalValue (List.append_cancel_left h)
    rw [decimalValue_decimal, decimalValue_decimal] at hsuffix
    omega

/-- **No group has the derived id**: there are more candidates than groups. -/
theorem deriveGroupId_free (store : SecondaryStore Scan Calib) (rgb ir : Option Text) :
    ∀ g ∈ store.groups, g.id.text ≠ deriveGroupId store rgb ir := by
  intro g hg heq
  have hmem : deriveGroupId store rgb ir ∈ store.groups.map fun g => g.id.text := heq ▸ List.mem_map_of_mem hg
  rcases freeId_free_or_taken (store.groups.map fun g => g.id.text) (idStem rgb ir) (store.groups.length + 1) 2
    ("cam-" ++ idStem rgb ir) with hfree | htaken
  · exact hfree hmem
  · have hnodup : ((List.range (store.groups.length + 1)).map
        (candidate (idStem rgb ir) 2 ("cam-" ++ idStem rgb ir))).Nodup :=
      List.Nodup.map (candidate_injective _) List.nodup_range
    have hsub : (List.range (store.groups.length + 1)).map
        (candidate (idStem rgb ir) 2 ("cam-" ++ idStem rgb ir)) ⊆ store.groups.map fun g => g.id.text := by
      intro id hid
      obtain ⟨k, hk, rfl⟩ := List.mem_map.1 hid
      exact htaken k (List.mem_range.1 hk)
    have hlength := (List.subperm_of_subset hnodup hsub).length_le
    rw [List.length_map, List.length_range, List.length_map] at hlength
    omega

/-- `CameraGroupId::new` -/
def newGroupId (text : Text) : Except SecondaryStoreError CameraGroupId :=
  if h : text ≠ [] ∧ byteLength text ≤ maxIdBytes then .ok ⟨text, h.1, h.2⟩
  else .error (.invalid "group id empty or out of bounds")

def emptyStore (user : Text) : SecondaryStore Scan Calib where
  formatVersion := secondaryStoreVersion
  owner := user
  generation := 0
  primarySnapshotSha256 := []
  groups := []

/-- What is published: the group appended, the 64-bit generation one larger, and the binding to the primary. -/
def withGroup (store : SecondaryStore Scan Calib) (primarySha256 : Text) (group : SecondaryGroup Scan Calib) :
    SecondaryStore Scan Calib :=
  { store with
    generation := (store.generation + 1) % 2 ^ 64
    primarySnapshotSha256 := primarySha256
    groups := store.groups ++ [group] }

end

/-! ## What is asked for -/

/-- `CameraGroupPublication`; the digest it carries is that of the bytes the capture was validated against. -/
structure CameraGroupPublication (Scan Calib Enr : Type) where
  user : Text
  pair : PairBinding
  groupId : Text
  profile : SecondaryProfileScans Scan Calib
  startEnr : Enr
  startPrimary : Bytes
  authorization : EnrollmentAuthorization
  nowUnix : Nat

def CameraGroupPublication.operation {Scan Calib Enr : Type} (i : CameraGroupPublication Scan Calib Enr) :
    EnrollmentOperation :=
  .adding i.groupId i.pair

/-- Where an account's replacement record is, and an enrollment as JSON. -/
structure Host (Enr : Type) where
  recordPath : Text → Text
  enrollmentJson : Enr → Option Bytes

/-- A commit that is ready, with the digest of the key's envelope it was encrypted under. -/
structure Prepared (Scan Calib : Type) where
  commit : PreparedSecondaryCommit Scan Calib
  keyContext : Option Text

/-! ## Calls -/

abbrev Calls (Enr : Type) : Type → Type _ := Fallible Op (Answer Enr) Error

section

variable {Scan Calib Enr : Type} {α ε : Type}

def ask (op : Op) : Calls Enr (Answer Enr op) := Fallible.ask op

def refuseIf (p : Prop) [Decidable p] (e : Error) : Calls Enr Unit := if p then throw e else pure ()

def orThrow (r : Except ε α) (toError : ε → Error) : Calls Enr α :=
  match r with
  | .ok a => pure a
  | .error e => throw (toError e)

/-- `irlume_common::Error` as it is displayed. -/
def display : Error → Text
  | .io m => "io: " ++ m
  | .protocol m => "protocol: " ++ m
  | .tpm m => "tpm: " ++ m
  | .policy m => "policy: " ++ m

def storeError (e : SecondaryStoreError) : Error := .protocol e.message

def keyUnavailable (e : Error) : SecondaryStoreError :=
  .invalid ("the account template key is unavailable: " ++ display e)

def commitIoError (detail : Text) : Error := .protocol ("commit io failure: " ++ detail)

def policyError (e : AuthorizationError) : Error := .policy e.message

def notFound : Text := "No such file or directory (os error 2)"

variable (c : Codec Scan Calib) (host : Host Enr)

def optionalFileDigest : Calls Enr (Option Text) := do
  let bytes ← orThrow (← ask (.readStore .digest)) .io
  return bytes.map c.sha256Hex

/-- `load_secondary_with_key` -/
def loadSecondaryWithKey (key : Option Bytes) : Calls Enr (Option (SecondaryStore Scan Calib)) := do
  match ← orThrow (← ask (.readStore .load)) (fun e => storeError (.io e)) with
  | none => return none
  | some bytes => return some (← orThrow (c.load key bytes) storeError)

def declaredVersion (bytes : Bytes) : Except SecondaryStoreError Nat := do
  let doc ← okOr (c.readDoc bytes) (.corrupt [])
  okOr doc.formatVersion (.corrupt "no format_version")

/-- `load_secondary`: the file is read once for its version and once to load it. -/
def loadSecondary : Calls Enr (Option (SecondaryStore Scan Calib)) := do
  match ← orThrow (← ask (.readStore .version)) (fun e => storeError (.io e)) with
  | none => return none
  | some bytes =>
    refuseIf (maxStoreBytes < bytes.length)
      (storeError (.invalid ("store larger than " ++ decimal maxStoreBytes ++ " bytes")))
    let declared ← orThrow (declaredVersion c bytes) storeError
    if declared = secondaryEncEnvelopeVersion then
      let key ← orThrow (← ask .existingKey) (fun e => storeError (keyUnavailable e))
      loadSecondaryWithKey c key
    else loadSecondaryWithKey c none

def inactiveStoreWriteRefusal (store : SecondaryStore Scan Calib) (primary : Bytes) : Calls Enr Unit :=
  refuseIf (store.groups ≠ [] ∧ store.activationAgainst c.sha256Hex (some primary) ≠ .active)
    (.protocol ("the other added cameras are inactive since the primary enrollment changed; remove them first, " ++
      "then add back the ones you use").toList)

/-! ## The state lock -/

def unreadable (user : Text) (why : Text) : Error :=
  .io ("an enrollment write of '" ++ user ++ "' that replaced another uid's did not finish, and its record " ++
    host.recordPath user ++ " cannot be read (" ++ why ++ "); nothing of '" ++ user ++
    "' changes until it is: check the enrollment and template key, then move the record away")

/-- `replacement::read` -/
def readRecord (user : Text) : Calls Enr (Option Record) := do
  match ← orThrow (← ask .readRecord) id with
  | none => return none
  | some record =>
    refuseIf (record.version ≠ recordVersion)
      (unreadable host user ("version " ++ decimal record.version ++ " is not known"))
    return some record

def execAll (record : Record) : List Instr → Calls Enr Unit
  | [] => pure ()
  | instr :: instrs => do
    orThrow (← ask (.exec record instr)) id
    execAll record instrs

/-- `finish`, or `undo`, as `finishes` says. -/
def settleBy (user : Text) (finishes : Bool) : Calls Enr Unit := do
  match ← readRecord host user with
  | none => return ()
  | some record => execAll record (if finishes then Replacement.finish else Replacement.undo record)

def settleInterrupted (user : Text) : Calls Enr Unit := do
  match ← readRecord host user with
  | none => return ()
  | some record =>
    let primary ← orThrow (← ask .readPrimary) .io
    settleBy host user (primary.map c.sha256Hex ≠ record.enrollment)

/-- `UserStateLock::acquire`, and the lock's release however `part` ends. -/
def withStateLock (user : Text) (part : Calls Enr α) : Calls Enr α := do
  orThrow (← ask .acquire) id
  let result ← Fallible.attempt (settleInterrupted c host user >>= fun _ => part)
  ask .release
  orThrow result id

/-! ## Preparing -/

def commitError (e : CommitError) : Error :=
  match e with
  | .store e => storeError e
  | _ => .protocol []

def encryptionNonce (key : Option Bytes) : Calls Enr Bytes := do
  match key with
  | some _ => orThrow (← ask .encryptionNonce) commitIoError
  | none => return []

def prepareWithIntentKey (store : SecondaryStore Scan Calib) (primarySnapshotSha256 : Text) (key : Option Bytes) :
    Calls Enr (PreparedSecondaryCommit Scan Calib) := do
  -- the store is checked before anything is encrypted
  orThrow store.validate storeError
  refuseIf (store.primarySnapshotSha256 ≠ primarySnapshotSha256)
    (storeError (.invalid "store binding disagrees with the transaction's primary digest"))
  let nonce ← encryptionNonce key
  orThrow (← ask .createStoreDir) commitIoError
  orThrow (c.prepareWithIntentKey store primarySnapshotSha256 key nonce) commitError

def prepareWithKeyContext (store : SecondaryStore Scan Calib) (primarySnapshotSha256 : Text) (key : Bytes) :
    Calls Enr (Prepared Scan Calib) := do
  let commit ← prepareWithIntentKey c store primarySnapshotSha256 (some key)
  let envelope ← orThrow (← ask .readKeyEnvelope) commitIoError
  return { commit, keyContext := some (c.sha256Hex envelope) }

/-- `with_camera_store_key`: the key and the preparation under the state lock. An error of the preparation is passed
on as it is, any other means that there is no key. -/
def withCameraStoreKey (user : Text) (store : SecondaryStore Scan Calib) (primarySnapshotSha256 : Text) :
    Calls Enr (Prepared Scan Calib) := do
  let finished ← Fallible.attempt (withStateLock c host user do
    let key ← orThrow (← ask .cameraStoreKey) id
    Fallible.attempt (prepareWithKeyContext c store primarySnapshotSha256 key))
  orThrow (← orThrow finished fun e => storeError (keyUnavailable e)) id

/-- `prepare_with_intent` -/
def prepareWithIntent (user : Text) (store : SecondaryStore Scan Calib) (primarySnapshotSha256 : Text) :
    Calls Enr (Prepared Scan Calib) := do
  if ← ask .tpmAvailable then withCameraStoreKey c host user store primarySnapshotSha256
  else return { commit := ← prepareWithIntentKey c store primarySnapshotSha256 none, keyContext := none }

/-! ## Publishing -/

/-- The commit's own publication: journal, store, and the journal's removal. -/
def commitPublish (commit : PreparedSecondaryCommit Scan Calib) : Calls Enr Unit := do
  orThrow (← ask (.writeJournal commit.journal)) commitIoError
  orThrow (← ask (.writeStore commit.bytes)) commitIoError
  orThrow (← ask .removeJournal) commitIoError

/-- `Path::file_name` gives the name itself, which has no NUL. -/
def isFileName (user : Text) : Bool :=
  user ≠ [] && user ≠ "." && user ≠ ".." && '/' ∉ user && '\x00' ∉ user

def keyContextChecked (context : Option Text) : Calls Enr Unit :=
  match context with
  | none => pure ()
  | some digest => do
    let envelope ← ask .readKeyEnvelope
    refuseIf (envelope.toOption.map c.sha256Hex ≠ some digest)
      (.policy "the account template key changed after secondary publication preparation")

/-- `with_account_publication` -/
def withAccountPublication (prepared : Prepared Scan Calib) (user : Text) (publication : Calls Enr Unit) :
    Calls Enr Unit := do
  refuseIf (!isFileName user ∨ prepared.commit.store.owner ≠ user)
    (.policy "prepared secondary publication does not belong to the target account store")
  withStateLock c host user do
    keyContextChecked c prepared.keyContext
    publication

/-- `PreparedCameraGroupCommit::publish` -/
def publishPrepared (i : CameraGroupPublication Scan Calib Enr) (commit : PreparedSecondaryCommit Scan Calib)
    (storeDigest : Option Text) (account : Resolution) : Calls Enr Unit := do
  let current ← orThrow (← ask .readPrimary) .io
  refuseIf (current = none) (.io notFound)
  refuseIf (current.map c.sha256Hex ≠ some (c.sha256Hex i.startPrimary))
    (.protocol ("the primary enrollment changed during capture or publication preparation; " ++
      "retry the addition").toList)
  let digest ← optionalFileDigest c
  refuseIf (digest ≠ storeDigest)
    (.protocol "the secondary store changed during publication preparation; retry the addition")
  let resolution ← ask .resolveAccount
  refuseIf (resolution ≠ account) (.policy "the account changed during publication preparation")
  let now ← ask .now
  orThrow (i.authorization.validateFor i.user i.operation now) policyError
  commitPublish commit

def primaryChanged : Error := .protocol "the primary enrollment changed during capture; retry the addition"

def loadAndDerive (i : CameraGroupPublication Scan Calib Enr) :
    Calls Enr (SecondaryStore Scan Calib × CameraGroupId) := do
  let store := (← loadSecondary c).getD (emptyStore i.user)
  match groupForBinding store i.pair with
  | some existing =>
    throw (.protocol ("this camera pair is already enrolled as group '" ++ existing.id.text ++
      "'; remove it first"))
  | none =>
    let derived ← orThrow (newGroupId (deriveGroupId store i.pair.rgbIdentity i.pair.irIdentity)) storeError
    refuseIf (derived.text ≠ i.groupId)
      (.protocol ("the secondary store changed during capture so the authorized group id no longer applies; " ++
        "retry").toList)
    return (store, derived)

def primaryUnchanged (i : CameraGroupPublication Scan Calib Enr) (store : SecondaryStore Scan Calib) :
    Calls Enr Bytes := do
  match ← orThrow (← ask .readPrimary) .io with
  | none => throw (.io notFound)
  | some primary =>
    refuseIf (c.sha256Hex primary ≠ c.sha256Hex i.startPrimary) primaryChanged
    inactiveStoreWriteRefusal c store primary
    match ← orThrow (← ask .loadEnrollment) (fun e => .protocol (display e)) with
    | none => throw (.protocol "the primary enrollment vanished during capture")
    | some current =>
      -- an enrollment that no longer serializes is not unchanged
      refuseIf (host.enrollmentJson i.startEnr = none ∨ host.enrollmentJson i.startEnr ≠ host.enrollmentJson current)
        primaryChanged
      return primary

/-- `publish_camera_group_preparing_with` -/
def publishCameraGroup (i : CameraGroupPublication Scan Calib Enr) : Calls Enr Text := do
  orThrow (i.authorization.validateFor i.user i.operation i.nowUnix) policyError
  let storeDigest ← optionalFileDigest c
  let account ← ask .resolveAccount
  let (store, derived) ← loadAndDerive c i
  let primary ← primaryUnchanged c host i store
  let next := withGroup store (c.sha256Hex primary) ⟨derived, i.pair, [i.profile]⟩
  orThrow (i.authorization.ensureNotConsumed none) policyError
  let digest ← optionalFileDigest c
  refuseIf (digest ≠ storeDigest) (.protocol "the secondary store changed while loading; retry the addition")
  let prepared ← prepareWithIntent c host i.user next next.primarySnapshotSha256
  withAccountPublication c host prepared i.user (publishPrepared c i prepared.commit storeDigest account)
  return i.groupId

end

end Irlume.Addition

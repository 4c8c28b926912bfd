import Irlume.StorageKey.World

/-!
# The start-up step

`irlume-core/src/storage_key.rs`: `ensure_at_start_reporting`. It finds the recorded DA-exempt key, or derives and
persists one, replaces a weak one, keeps the superseded keys findable, and records what happened.
-/

namespace Irlume.StorageKey

open Irlume.Lib

def persistAttempts : Nat := 8

def reasonFor : FailureClass → RefusalReason
  | .noSpace => .noSpace
  | .ownerAuthorization => .ownerAuthorization
  | .taken | .other => .other

/-! ## Placing a derived key -/

/-- The first free of `n` handles from `handle` upward, wrapping within the owner range. -/
def firstFreeFrom (plan : Plan) (taken : List Handle) : Nat → Handle → Option Handle
  | 0, _ => none
  | n + 1, handle =>
    if handle ≠ plan.original ∧ handle ∉ taken then some handle
    else firstFreeFrom plan taken n (if handle = lastOwner then firstOwner else handle + 1)

def firstFreeOwnerHandle (plan : Plan) (taken : List Handle) : Option Handle :=
  firstFreeFrom plan taken (lastOwner - firstOwner + 1) plan.preferred

/-- Where a derived key ended up. -/
inductive Placed where
  | adopted (handle : Handle)
  | persisted (handle : Handle)
  | refused (reason : RefusalReason) (detail : Text)

def firstHolding (name : Bytes) : List Handle → Run (Option Handle)
  | [] => pure none
  | handle :: rest => do
    if ← holdsDaExemptKey handle name then pure (some handle) else firstHolding name rest

def handlesOf (name : Bytes) (owners : List (Handle × Bytes)) : List Handle :=
  (owners.filter fun (_, found) => found = name).map (·.1)

def persistFrom (plan : Plan) (name : Bytes) : Nat → List Handle → Run Placed
  | 0, _ => pure (.refused .noFreeHandle
      ((toString persistAttempts).toList ++ " handles in a row were taken while irlumed tried them".toList))
  | n + 1, taken =>
    match firstFreeOwnerHandle plan taken with
    | none => pure (.refused .noFreeHandle "every owner persistent handle is taken")
    | some handle => do
      match ← persist handle with
      | .ok () => pure (.persisted handle)
      | .error failure =>
        if failure.class = .taken then
          let holder ← nameAt handle
          let same ← if holder = some name then holdsDaExemptKey handle name else pure false
          if same then pure (.adopted handle) else persistFrom plan name n (taken ++ [handle])
        else pure (.refused (reasonFor failure.class) failure.detail)

/-- Adopt a persisted copy of the derived key by its name, or persist it. -/
def placeDerived (plan : Plan) (name : Bytes) : Run Placed := do
  let inUse ← ownerNames
  match ← firstHolding name (handlesOf name inUse) with
  | some handle => pure (.adopted handle)
  | none => persistFrom plan name persistAttempts (inUse.map (·.1))

/-! ## Finding or making the key -/

def refuse (boot : Option Boot) (reason : RefusalReason) (detail : Text) : Record × Outcome :=
  let detail := singleLine detail maxDetailChars
  ({ (default : Record) with version := recordVersion, refused := some ⟨reason, detail, boot⟩ },
    .refused ⟨reason, detail⟩)

/-- The handle of another copy of the recorded key, where irlume can seal under it. -/
def foundElsewhere (persisted : Persisted) : Run (Option Handle) :=
  match unhex persisted.name with
  | none => pure none
  | some name => do
    let owners ← ownerNames
    firstHolding name (handlesOf name owners)

def recordedAt (record : Record) : Run (Option (Record × Outcome)) :=
  match record.persisted with
  | none => pure none
  | some persisted => do
    let name ← nameAt persisted.handle
    if name.map hex = some persisted.name then pure (some (record, .present persisted.handle))
    else
      match ← foundElsewhere persisted with
      | some handle =>
        pure (some ({ record with persisted := some ⟨handle, persisted.name⟩, refused := none }, .found handle))
      | none => pure none

def sameBoot (boot bootId : Option Boot) : Bool := boot.isSome && boot = bootId

def standingRefusal (boot : Option Boot) (refused : Refused) : Run Bool := do
  if sameBoot boot refused.bootId then
    if refused.reason.isCapacity then return (← persistentAvail) < 1 else return true
  else return false

def deferred (boot : Option Boot) (record : Record) : Run (Option KeyRefusal) :=
  match record.refused with
  | none => pure none
  | some refused => do
    let stands ← if refused.reason ≠ .handleOverride then standingRefusal boot refused else pure false
    pure (if stands then some ⟨refused.reason, refused.detail⟩ else none)

def makeKey (boot : Option Boot) (plan : Plan) : Run (Record × Outcome) := do
  match ← derive with
  | .error failure => pure (refuse boot (reasonFor failure.class) failure.detail)
  | .ok name =>
    match ← placeDerived plan name with
    | .adopted handle => pure (persistedRecord handle name, .adopted handle)
    | .persisted handle => pure (persistedRecord handle name, .persisted handle)
    | .refused reason detail => pure (refuse boot reason detail)

def ensureWith (record : Record) (boot : Option Boot) (plan : Except Text Plan) : Run (Record × Outcome) :=
  match plan with
  | .error detail => pure (refuse boot .handleOverride detail)
  | .ok plan => do
    match ← recordedAt record with
    | some found => pure found
    | none =>
      match ← deferred boot record with
      | some refusal => pure (record, .deferred refusal)
      | none => makeKey boot plan

def Outcome.isFound : Outcome → Bool
  | .present _ | .found _ => true
  | _ => false

/-- What `next` keeps of `record`'s account of the original key and of the superseded keys. -/
def keepUse (record next : Record) (outcome : Outcome) : Record :=
  { next with
    unusedSince := record.unusedSince
    moves := record.moves
    retirementAttempt := record.retirementAttempt
    superseded := record.superseded
    -- A superseded key that is the recorded one again is not unused.
    supersededUnused :=
      match next.persisted with
      | some persisted => record.supersededUnused.filter fun (name, _) => name ≠ persisted.name
      | none => record.supersededUnused
    weakDerivation := record.weakDerivation
    replacementRefused := if outcome.isFound then record.replacementRefused else next.replacementRefused }

def ensureKeepingUse (record : Record) (boot : Option Boot) (plan : Except Text Plan) :
    Run (Record × Outcome) := do
  let (next, outcome) ← ensureWith record boot plan
  pure (keepUse record next outcome, outcome)

/-! ## Superseded keys -/

def persistedByName (owners : Option (List (Handle × Bytes))) (name : Bytes) :
    Run (Option Handle × Option (List (Handle × Bytes))) := do
  let scanned ←
    match owners with
    | some scanned => pure scanned
    | none => ownerNames
  let handle ← firstHolding name (handlesOf name scanned)
  pure (handle, some scanned)

/-- Record each kept key where it is. One found nowhere keeps its entry. -/
def refreshKept : Option (List (Handle × Bytes)) → List Persisted → Run (List Persisted)
  | _, [] => pure []
  | owners, kept :: rest =>
    match unhex kept.name with
    | none => do
      let rest ← refreshKept owners rest
      pure (kept :: rest)
    | some name => do
      if ← holdsDaExemptKey kept.handle name then
        let rest ← refreshKept owners rest
        pure (kept :: rest)
      else
        let (handle, owners) ← persistedByName owners name
        let rest ← refreshKept owners rest
        pure (⟨handle.getD kept.handle, kept.name⟩ :: rest)

def replacedKey (record next : Record) : Option Persisted :=
  match record.persisted, next.persisted with
  | some old, some new => if old.name ≠ new.name then some old else none
  | _, _ => none

/-- Supersede the replaced key while it is still persisted somewhere. -/
def supersedeReplaced (record next : Record) : Run (Record × Option (List (Handle × Bytes))) :=
  match (replacedKey record next).bind fun old => (unhex old.name).map (old, ·) with
  | none => pure (next, none)
  | some (old, name) => do
    let (handle, owners) ← persistedByName none name
    match handle with
    | some handle => pure (supersede next ⟨handle, old.name⟩, owners)
    | none => pure (next, owners)

/-- Keep the superseded keys in `next` findable by name. -/
def keepSuperseded (record next : Record) : Run Record := do
  let (next, owners) ← supersedeReplaced record { next with superseded := boundSuperseded next.superseded }
  let superseded ← refreshKept owners next.superseded
  pure { next with superseded }

/-! ## A weak key -/

def refuseReplacement (next : Record) (boot : Option Boot) («from» : Handle) (reason : RefusalReason)
    (detail : Text) : Record × Outcome :=
  let detail := singleLine detail maxDetailChars
  ({ next with replacementRefused := some ⟨reason, detail, boot⟩ }, .replacementRefused «from» ⟨reason, detail⟩)

def replaced (next : Record) (persisted : Persisted) (handle : Handle) (name : Bytes) : Record :=
  { supersede { next with persisted := some ⟨handle, hex name⟩ } persisted with
    weakDerivation := none
    replacementRefused := none
    refused := none }

def replaceKey (next : Record) (boot : Option Boot) (plan : Plan) (persisted : Persisted)
    (version : Nat × Nat) : Run (Record × Outcome) := do
  match ← derive with
  | .error failure => pure (refuseReplacement next boot persisted.handle (reasonFor failure.class) failure.detail)
  | .ok name =>
    let weak ← if hex name = persisted.name then pure true else derivedIsWeak
    if weak then
      pure ({ next with weakDerivation := some ⟨version⟩, replacementRefused := none },
        .derivationWeak persisted.handle)
    else
      match ← placeDerived plan name with
      | .adopted handle | .persisted handle =>
        pure (replaced next persisted handle name, .replaced handle persisted.handle)
      | .refused reason detail => pure (refuseReplacement next boot persisted.handle reason detail)

def deferredReplacement (boot : Option Boot) (record : Record) : Run (Option KeyRefusal) :=
  match record.replacementRefused with
  | none => pure none
  | some refused => do
    let stands ← standingRefusal boot refused
    pure (if stands then some ⟨refused.reason, refused.detail⟩ else none)

/-- The replacement of a weak DA-exempt key; `none` when nothing is to change. -/
def replaceWeakWith (record : Record) (boot : Option Boot) (plan : Plan) : Run (Option (Record × Outcome)) :=
  match record.persisted with
  | none => pure none
  | some persisted => do
    if ← isWeak persisted.handle then
      let version ← firmware
      if record.weakDerivation = some ⟨version⟩ then pure (some (record, .weakKept persisted.handle))
      else
        match ← deferredReplacement boot record with
        | some refusal => pure (some (record, .replacementDeferred persisted.handle refusal))
        | none =>
          let result ← replaceKey record boot plan persisted version
          pure (some result)
    else if record.weakDerivation.isSome then
      pure (some ({ record with weakDerivation := none }, .present persisted.handle))
    else if record.replacementRefused.isSome then
      pure (some ({ record with replacementRefused := none }, .present persisted.handle))
    else pure none

/-! ## The original key -/

def originalWith (handle : Handle) (recorded : Option Original) (derivedNew : Bool) : Run (Option Original) := do
  match ← nameAt handle with
  | none => pure recorded
  | some name =>
    if (recorded.any fun original => original.handle = handle && original.name = hex name) || derivedNew then
      pure recorded
    else
      match ← derivesOriginal handle with
      | some matched => pure (some ⟨handle, hex name, matched⟩)
      | none => pure recorded

def checkedOriginal (checked : Except Text (Option Original)) (record : Record) : Option Original × Bool :=
  match checked with
  | .ok original => (original, original ≠ record.original)
  | .error _ => (record.original, true)

/-! ## The step -/

def anyEnvelope : Run Bool := do
  if (← envelopePaths .templateKey).isEmpty then return !(← envelopePaths .keyringSecret).isEmpty
  else return true

def ensureNothing (record : Record) (plan : Except Text Plan) : Run (Option Outcome × Bool) := do
  let (original, derived) ←
    match plan with
    | .ok chosen => do
      let checked ← Fallible.attempt (do
        openTpm
        originalWith chosen.original record.original false)
      pure (checkedOriginal checked record)
    | .error _ => pure (record.original, false)
  if record.refused.isSome || record.replacementRefused.isSome || original ≠ record.original then
    saveRecord { record with refused := none, replacementRefused := none, version := recordVersion, original }
  pure (none, derived)

def replaceFound (next : Record) (outcome : Outcome) (boot : Option Boot) (plan : Plan) : Run (Record × Outcome) :=
  if outcome.isFound then do
    let replacement ← replaceWeakWith next boot plan
    pure (replacement.getD (next, outcome))
  else pure (next, outcome)

def ensureRecord (record : Record) (boot : Option Boot) (plan : Except Text Plan) :
    Run (Record × Outcome × Bool) :=
  match plan with
  | .ok chosen => do
    openTpm
    let (next, outcome) ← ensureKeepingUse record boot (.ok chosen)
    let next ← keepSuperseded record next
    let (next, outcome) ← replaceFound next outcome boot chosen
    let checked ← Fallible.attempt (originalWith chosen.original record.original (derivedNow outcome))
    let (original, derivedOriginal) := checkedOriginal checked record
    pure ({ next with original }, outcome, derivedNow outcome || derivedOriginal)
  | .error detail => do
    let (next, outcome) ← ensureKeepingUse record boot (.error detail)
    pure ({ next with original := record.original }, outcome, false)

/-- irlumed's start-up step: what it did, and whether it derived a key. -/
def ensureAtStartReporting : Run (Option Outcome × Bool) := do
  let envelope ← anyEnvelope
  lock
  let record ← loadRecord
  let plan ← daExemptKeyPlan
  if !envelope then ensureNothing record plan
  else
    let boot ← bootId
    let (next, outcome, derived) ← ensureRecord record boot plan
    if next ≠ record then saveRecord next
    pure (some outcome, derived)

end Irlume.StorageKey

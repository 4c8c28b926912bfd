import Irlume.StorageKey.Ensure

/-!
# Publications, the census and the retirement

`irlume-core/src/storage_key.rs`: `publish_envelope`, which writes an envelope; `settle_in`, irlumed's start after its
template key moves; and `storage_keys`, what doctor is told. The sessions run one of these steps at a time.
-/

namespace Irlume.StorageKey

open Irlume.Lib

/-! ## Publications -/

def underOriginalKey (id : EnvelopeId) : Run Bool := do
  match ← loadEnvelope id with
  | some parent => pure parent.isNone
  | none => metadata id

def namesAnother (id : EnvelopeId) (name : Text) : Run Bool := do
  let current ← loadEnvelope id
  pure (current.join.any fun «from» => «from».name ≠ name)

def beginMove (record : Record) (id : EnvelopeId) (boot : Option Boot) : Record :=
  { record with
    unusedSince := none
    moves := record.moves.filter (fun move => move.envelope ≠ id) ++ [⟨id, boot⟩] }

def endMove (record : Record) (id : EnvelopeId) : Record :=
  { record with moves := record.moves.filter fun move => move.envelope ≠ id }

def supersededCandidate : Text :=
  "the storage key this envelope was sealed under is no longer the one irlumed records; it moves at its next move point"

def publishMove (id : EnvelopeId) (parent : ParentKey) (boot : Option Boot) (offOriginal : Bool) :
    Run AtomicWrite := do
  lock
  let record ← loadRecord
  if record.persisted.map (·.name) ≠ some parent.name then
    throw supersededCandidate
  if offOriginal then
    let record := beginMove record id boot
    saveRecord record
    let written ← writeEnvelope id (some parent)
    if written = .durable ∧ (endMove record id).moves.length ≠ record.moves.length then
      -- An entry left behind only delays the retirement by a boot.
      let _ ← Fallible.attempt (saveRecord (endMove record id))
    pure written
  else writeEnvelope id (some parent)

def publishEnvelope (id : EnvelopeId) (parent : Option ParentKey) : Run AtomicWrite := do
  let boot ← bootId
  match parent with
  | none => writeEnvelope id none
  | some parent =>
    let offOriginal ← underOriginalKey id
    let movesKey ← if offOriginal then pure true else namesAnother id parent.name
    if movesKey then
      -- Checked before the lock.
      if (← peekRecord id).persisted.isNone then writeEnvelope id (some parent)
      else publishMove id parent boot offOriginal
    else writeEnvelope id (some parent)

/-! ## The census -/

def anyUnderOriginal : List EnvelopeId → Run Bool
  | [] => pure false
  | id :: rest => do
    if ← underOriginalKey id then pure true else anyUnderOriginal rest

def anyUnderOriginalKey : Run Bool := do
  if ← anyUnderOriginal (← envelopePaths .templateKey) then pure true
  else anyUnderOriginal (← envelopePaths .keyringSecret)

def countNaming (name : Text) : List EnvelopeId → Run (Nat × Bool)
  | [] => pure (0, false)
  | id :: rest => do
    let content ← loadEnvelope id
    let (total, unreadable) ← countNaming name rest
    match content with
    | none => pure (total, true)
    | some parent => pure (if parent.any fun key => key.name = name then (total + 1, unreadable) else (total, unreadable))

def envelopesNaming (name : Text) : Run (Nat × Bool) := do
  let templates ← countNaming name (← envelopePaths .templateKey)
  let secrets ← countNaming name (← envelopePaths .keyringSecret)
  pure (templates.1 + secrets.1, templates.2 || secrets.2)

def markName (marks : List (Text × Boot)) (name : Text) (named : Bool) (boot : Option Boot) : List (Text × Boot) :=
  if named then marks.filter fun (marked, _) => marked ≠ name
  else
    match boot with
    | some now => if marks.any fun (marked, _) => marked = name then marks else marks ++ [(name, now)]
    | none => marks

def markNames (boot : Option Boot) : List Text → List (Text × Boot) → Run (List (Text × Boot))
  | [], marks => pure marks
  | name :: rest, marks => do
    let (total, unreadable) ← envelopesNaming name
    markNames boot rest (markName marks name (0 < total || unreadable) boot)

def keptNames (record : Record) : List Text :=
  (record.superseded.map (·.name)).filter fun name => record.persisted.map (·.name) ≠ some name

def markSuperseded (record : Record) (boot : Option Boot) : Run Record := do
  let next := { record with superseded := boundSuperseded record.superseded }
  let kept := keptNames next
  let marks ← markNames boot kept (next.supersededUnused.filter fun (name, _) => name ∈ kept)
  pure { next with supersededUnused := marks }

/-! ## The retirement -/

/-- A retirement of the original key that was due at this start. -/
inductive Retirement where
  | retired (handle : Handle)
  | notReproduced (handle : Handle)
  | failed (handle : Handle) (detail : Text)
  | deferred (handle : Handle) (detail : Text)
  | unchecked (detail : Text)

structure Settled where
  census : Census
  retirement : Option Retirement

def trySave (record : Record) : Run Unit := do
  let _ ← Fallible.attempt (saveRecord record)

def failedRetirement (next : Record) (handle : Handle) (error : Text) : Run (Option Retirement) := do
  let detail := singleLine error maxDetailChars
  trySave { next with retirementAttempt := next.retirementAttempt.map fun attempt => { attempt with failure := some detail } }
  pure (some (.failed handle detail))

def evictProved (next : Record) (handle : Handle) (name : Bytes) : Run (Option Retirement) := do
  match ← Fallible.attempt (evict handle name) with
  | .ok evicted =>
    trySave { next with retirementAttempt := none }
    pure (if evicted then some (.retired handle) else none)
  | .error error => failedRetirement next handle error

/-- A fresh derivation of the original template proves the key before it is evicted. -/
def proveAndEvict (next : Record) (handle : Handle) (name : Bytes) : Run (Option Retirement) := do
  match ← Fallible.attempt (derivesOriginal handle) with
  | .ok (some true) => evictProved next handle name
  | .ok (some false) =>
    trySave { next with
      retirementAttempt := none
      original := next.original.map fun original => { original with matched := false } }
    pure (some (.notReproduced handle))
  | .ok none =>
    trySave { next with retirementAttempt := none }
    pure none
  | .error error => failedRetirement next handle error

def deferredAttempt (next : Record) (handle : Handle) (boot : Boot) : Option Retirement :=
  match next.retirementAttempt with
  | some attempt =>
    if attempt.bootId = some boot then
      some (.deferred handle (match attempt.failure with
        | some failure => singleLine failure maxDetailChars
        | none => "an attempt earlier in this boot did not finish"))
    else none
  | none => none

def retirementKeys (next : Record) (handle : Handle) : Option (Handle × Bytes × Bytes) := do
  let persisted ← next.persisted
  let daExempt ← unhex persisted.name
  let original ← next.original.filter fun original => original.matched && original.handle = handle
  let name ← unhex original.name
  return (persisted.handle, daExempt, name)

/-- The retirement of the original key at `handle`, once the census allows one. -/
def retireWith (next : Record) (handle : Handle) (boot : Boot) : Run (Option Retirement) :=
  match retirementKeys next handle with
  | none => pure none
  | some (daExemptHandle, daExempt, name) => do
    let holder ← nameAt handle
    if holder ≠ some name then
      if next.retirementAttempt.isSome then saveRecord { next with retirementAttempt := none }
      pure none
    else
      match deferredAttempt next handle boot with
      | some deferred => pure (some deferred)
      | none =>
        if ← holdsDaExemptKey daExemptHandle daExempt then
          let next := { next with retirementAttempt := some ⟨some boot, none⟩ }
          saveRecord next
          proveAndEvict next handle name
        else pure none

def retireDue (next : Record) (boot : Boot) : Run (Option Retirement) := do
  match ← daExemptKeyPlan with
  | .error _ => pure none
  | .ok plan =>
    let result ← Fallible.attempt (do
      openTpm
      retireWith next plan.original boot)
    match result with
    | .ok retirement => pure retirement
    | .error error => pure (some (.unchecked (singleLine error maxDetailChars)))

def retirementDue (census : Census) (boot : Option Boot) (derived : Bool) : Option Boot :=
  match census, boot with
  | .unused since, some now => if since ≠ now && !derived then some now else none
  | _, _ => none

def settleAtStart (derived : Bool) : Run (Option Settled) := do
  let boot ← bootId
  if (← loadRecord).persisted.isNone then pure none
  else
    lock
    let record ← loadRecord
    let inUse ← anyUnderOriginalKey
    let (next, census) := markWith record inUse boot
    let next ← markSuperseded next boot
    if next ≠ record then saveRecord next
    let retirement ←
      match retirementDue census boot derived with
      | some now => retireDue next now
      | none => pure none
    pure (some ⟨census, retirement⟩)

/-! ## What doctor is told -/

def maxNameHex : Nat := 160

def boundedName (name : Text) : Text :=
  if name.length ≤ maxNameHex ∧ name.all (fun c => (digitValue c).isSome) then name else []

def recordedKeys (record : Record) (configured : Handle) : List (StorageKeyRole × Handle × Text) :=
  let original := (record.original.filter fun original => original.handle ≠ configured).map fun original =>
    (StorageKeyRole.original, original.handle, original.name)
  let recorded := record.persisted.map fun persisted => (StorageKeyRole.daExempt, persisted.handle, persisted.name)
  let superseded := (record.superseded.filter fun kept => record.persisted.map (·.name) ≠ some kept.name).map
    fun kept => (StorageKeyRole.superseded, kept.handle, kept.name)
  original.toList ++ recorded.toList ++ superseded

/-- Whether the census has found the key unused since another boot. -/
def markedBefore (record : Record) (name : Text) (boot : Option Boot) : Bool :=
  match record.supersededUnused.lookup name, boot with
  | some since, some now => since ≠ now
  | _, _ => false

def keyed (record : Record) (boot : Option Boot) (role : StorageKeyRole) (handle : Handle) (name : Text) :
    Run StorageKeyEntry := do
  let check ←
    match unhex name with
    | some raw => daExemptKeyCheck handle raw
    | none => pure .absent
  let (total, unreadable) ← envelopesNaming name
  pure {
    role
    handle
    name := boundedName name
    check
    envelopes := if role = .original then none else some total
    unusedAcrossBoots := role = .superseded && total = 0 && !unreadable && markedBefore record name boot }

def keyedAll (record : Record) (boot : Option Boot) :
    List (StorageKeyRole × Handle × Text) → Run (List StorageKeyEntry)
  | [] => pure []
  | (role, handle, name) :: rest => do
    let entry ← keyed record boot role handle name
    let entries ← keyedAll record boot rest
    pure (entry :: entries)

def originalEntry (configured : Handle) : Option StorageKeyCheck → Run (List StorageKeyEntry)
  | none => pure []
  | some check => do
    openTpm
    let name ← nameAt configured
    pure [⟨.original, configured, (name.map hex).getD [], check, none, false⟩]

def storageKeys (configured : Handle) (original : Option StorageKeyCheck) : Run (List StorageKeyEntry) := do
  let loaded ← loadRecord
  let record := { loaded with superseded := boundSuperseded loaded.superseded }
  let boot ← bootId
  let first ← originalEntry configured original
  let entries ← keyedAll record boot (recordedKeys record configured)
  pure (first ++ entries)

/-! ## The sessions -/

inductive Step where
  | ensure
  | publish (id : EnvelopeId) (parent : Option ParentKey)
  | settle (derived : Bool)
  | storageKeys (configured : Handle) (original : Option StorageKeyCheck)

def dropping {α : Type} (p : Run α) : Program Op Op.Answer Unit := p.run >>= fun _ => .result ()

def Step.program : Step → Program Op Op.Answer Unit
  | .ensure => dropping ensureAtStartReporting
  | .publish id parent => dropping (publishEnvelope id parent)
  | .settle derived => dropping (settleAtStart derived)
  | .storageKeys configured original => dropping (do reply (← StorageKey.storageKeys configured original))

abbrev Machine : Type := Sessions World Op Op.Answer

abbrev Event : Type := SessionEvent Step Choice Outside

def Machine.step (m : Machine) (e : Event) : Option Machine :=
  Sessions.step Step.program World.perform World.outside m e

def World.Settled (w : World) : Prop :=
  w.disk.record.older = [] ∧ ∀ id, (w.disk.envelopes id).older = []

def Disk.Listed (disk : Disk) : Prop := ∀ id, ∀ c ∈ (disk.envelopes id).contents, c.isSome → id ∈ disk.known

end Irlume.StorageKey

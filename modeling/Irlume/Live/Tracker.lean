import Mathlib.Data.List.MinMax
import Irlume.Arbiter.Queue
import Irlume.Diagnostics.Owner
import Irlume.Lib.Machine
import Irlume.Lib.Saturating

/-!
# The live tracker

`live.rs`: what the daemon's worker is doing and what waits for it, for any local peer to read. Every call takes
the tracker's lock once, so a run is a list of calls. A guard is an `Arc`: it is known by its address, which is
not null and not given out again before the registration is dropped.
-/

namespace Irlume.Live

open Std Irlume.Lib Irlume.Diagnostics
open Irlume.Arbiter (CancelToken)

/-! ## What is tracked -/

inductive LiveStage where
  | starting
  | ready
  | rebuilding
  | stopping
  | unknown
  deriving DecidableEq

inductive LiveOperationKind where
  | authentication
  | walletAuthentication
  | enrollment
  | framing
  | identification
  | cameraEnumeration
  | cameraSetup
  | captureQualification
  | cameraDiagnostics
  | profileRead
  | profileUpdate
  | sensorReadiness
  | walletRead
  | walletUpdate
  | recoveryUpdate
  | compatibility
  | status
  | unknown
  deriving DecidableEq

namespace LiveOperationKind

/-- The derived order. -/
instance : Ord LiveOperationKind := ⟨compareOn LiveOperationKind.ctorIdx⟩

instance : TransOrd LiveOperationKind := inferInstanceAs (TransCmp (compareOn _))

theorem ctorIdx_injective : Function.Injective LiveOperationKind.ctorIdx := fun a b h => by
  rw [← ofNat_ctorIdx a, ← ofNat_ctorIdx b, h]

instance : LawfulEqOrd LiveOperationKind where
  eq_of_compare {a b} h := by
    have h : compare a.ctorIdx b.ctorIdx = .eq := h
    exact ctorIdx_injective (LawfulEqCmp.eq_of_compare h)

end LiveOperationKind

abbrev WaitingKey := LiveOperationKind × Owner

instance : Ord WaitingKey := ⟨compareLex (compareOn Prod.fst) (compareOn Prod.snd)⟩

instance : TransOrd WaitingKey := inferInstanceAs (TransCmp (compareLex _ _))

instance : LawfulEqOrd WaitingKey where
  eq_of_compare h := by
    obtain ⟨h₁, h₂⟩ := compareLex_eq_eq.1 h
    exact Prod.ext (LawfulEqCmp.eq_of_compare h₁) (LawfulEqCmp.eq_of_compare h₂)

structure Worker where
  id : OperationId
  kind : LiveOperationKind
  owner : Owner
  startedMs : Nat
  cancelled : Bool

def maxRevisionAccounts : Nat := 1024

def maxBackgroundOperations : Nat := 4

structure AccountRevision where
  changes : Nat
  /-- The revision after this account's latest change. -/
  latest : Nat

structure Inner where
  stage : LiveStage
  /-- Every completed state change: root's revision. -/
  revision : Nat
  /-- Completed changes every reader can observe. -/
  sharedRevision : Nat
  /-- Completed changes of each account's own state, for at most `maxRevisionAccounts` accounts. -/
  accountRevisions : ExtTreeMap Nat AccountRevision
  waiting : ExtTreeMap WaitingKey Nat
  worker : Option Worker
  background : List Worker
  available : Bool

/-- Whose revision a completed change moves besides root's. -/
inductive ChangeReaders where
  | every
  | account (uid : Nat)
  | rootOnly
  deriving DecidableEq

def changeReaders (kind : LiveOperationKind) (owner : Owner) : ChangeReaders :=
  if kind = .cameraSetup ∨ kind = .captureQualification then .every
  else
    match owner with
    | .daemon | .unresolved => .every
    | .account 0 => .rootOnly
    | .account uid => .account uid

namespace Inner

/-- The account whose latest change is oldest gives up its count to the shared one. -/
def evictOldest (inner : Inner) : Inner :=
  match inner.accountRevisions.toList.argmin fun entry => entry.2.latest with
  | none => inner
  | some (evicted, account) =>
    { inner with
      accountRevisions := inner.accountRevisions.erase evicted
      sharedRevision := inner.sharedRevision + account.changes }

/-- Make room for `uid` where the accounts with a count are as many as may be. -/
def makeRoom (inner : Inner) (uid : Nat) : Inner :=
  if uid ∉ inner.accountRevisions ∧ inner.accountRevisions.size = maxRevisionAccounts then inner.evictOldest
  else inner

def countAccount (inner : Inner) (uid : Nat) : Inner :=
  let account := inner.accountRevisions.getD uid { changes := 0, latest := 0 }
  { inner with
    accountRevisions :=
      inner.accountRevisions.insert uid { changes := account.changes + 1, latest := inner.revision } }

def noteChange (inner : Inner) (kind : LiveOperationKind) (owner : Owner) : Inner :=
  if inner.revision = u64Max then { inner with available := false }
  else
    let inner := { inner with revision := inner.revision + 1 }
    match changeReaders kind owner with
    | .every => { inner with sharedRevision := inner.sharedRevision + 1 }
    | .account uid => (inner.makeRoom uid).countAccount uid
    | .rootOnly => inner

def revisionFor (inner : Inner) (peerUid : Nat) : Nat :=
  if peerUid = 0 then inner.revision
  else inner.sharedRevision + ((inner.accountRevisions[peerUid]?).map (·.changes)).getD 0

def showsUnknownWork (inner : Inner) (peerUid : Nat) : Bool :=
  let hidden (owner : Owner) : Bool := !owner.visibleTo peerUid
  inner.worker.any (fun worker => hidden worker.owner) ||
    inner.background.any (fun task => hidden task.owner) ||
    inner.waiting.keys.any (fun key => hidden key.2)

/-- One more waits under `key`. -/
def addWaiter (inner : Inner) (key : WaitingKey) : Inner :=
  let count := inner.waiting.getD key 0
  let inner := { inner with waiting := inner.waiting.insert key count }
  if count = u64Max then { inner with available := false }
  else { inner with waiting := inner.waiting.insert key (count + 1) }

def removeWaiter (inner : Inner) (key : WaitingKey) : Inner :=
  match inner.waiting[key]? with
  | some count =>
    if count > 1 then { inner with waiting := inner.waiting.insert key (count - 1) }
    else { inner with waiting := inner.waiting.erase key }
  | none => { inner with available := false }

end Inner

/-! ## Guards -/

inductive Lane where
  | worker
  | background
  deriving DecidableEq

inductive Phase where
  | created
  | waiting
  | running
  | finished
  | untracked
  deriving DecidableEq

structure Registration where
  id : OperationId
  kind : LiveOperationKind
  owner : Owner
  changesState : Bool
  lane : Lane
  phase : Phase

/-- Where a registration lies in memory. -/
abbrev Address := { a : Fin (2 ^ 64) // a ≠ 0 }

def Address.of (a : Fin (2 ^ 64)) (h : a ≠ 0) : Address := ⟨a, h⟩

/-- The tracker, with the clock, the shared token and the registrations that have not been dropped. -/
structure Tracker where
  daemonInstance : OperationId
  nowMs : Nat
  /-- The arbiter's token, and whether the tracker was given it. -/
  token : CancelToken
  tokenSet : Bool
  inner : Inner
  registrations : Address → Option Registration

namespace Tracker

def new (daemonInstance : OperationId) (nowMs : Nat) (token : CancelToken) : Tracker where
  daemonInstance := daemonInstance
  nowMs := nowMs
  token := token
  tokenSet := false
  inner :=
    { stage := .starting
      revision := 0
      sharedRevision := 0
      accountRevisions := ∅
      waiting := ∅
      worker := none
      background := []
      available := true }
  registrations := fun _ => none

/-- `registerInLane`, at the address the allocator gave. -/
def registerInLane (t : Tracker) (address : Address) (id : OperationId) (kind : LiveOperationKind)
    (changesState : Bool) (owner : Owner) (lane : Lane) : Tracker :=
  { t with
    registrations := Function.update t.registrations address
      (some { id, kind, owner, changesState, lane, phase := .created }) }

def setPhase (t : Tracker) (address : Address) (r : Registration) (phase : Phase) : Tracker :=
  { t with registrations := Function.update t.registrations address (some { r with phase }) }

/-- `LiveGuard::waiting`. -/
def waiting (t : Tracker) (address : Address) (r : Registration) : Tracker :=
  -- A fast worker may have claimed or completed it before submit returns.
  if r.phase ≠ .created then t
  else if r.lane ≠ .worker then { t with inner := { t.inner with available := false } }
  else { t.setPhase address r .waiting with inner := t.inner.addWaiter (r.kind, r.owner) }

def duplicateId (inner : Inner) (id : OperationId) : Bool :=
  inner.worker.any (fun worker => worker.id = id) || inner.background.any (fun task => task.id = id)

def full (inner : Inner) : Lane → Bool
  | .worker => inner.worker.isSome
  | .background => inner.background.length = maxBackgroundOperations

def claim (t : Tracker) (address : Address) (r : Registration) : Tracker :=
  if duplicateId t.inner r.id || full t.inner r.lane then
    { t.setPhase address r .untracked with inner := { t.inner with available := false } }
  else
    let worker : Worker :=
      { id := r.id, kind := r.kind, owner := r.owner, startedMs := t.nowMs, cancelled := false }
    match r.lane with
    | .worker => { t.setPhase address r .running with inner := { t.inner with worker := some worker } }
    | .background =>
      { t.setPhase address r .running with inner := { t.inner with background := t.inner.background ++ [worker] } }

/-- `LiveGuard::running`. -/
def running (t : Tracker) (address : Address) (r : Registration) : Tracker :=
  match r.phase with
  | .waiting => { t with inner := t.inner.removeWaiter (r.kind, r.owner) }.claim address r
  | .created => t.claim address r
  | _ => t

/-- `find`, then the write through what it found. -/
def markFirst (id : OperationId) : List Worker → List Worker
  | [] => []
  | task :: tasks =>
    if task.id = id then { task with cancelled := true } :: tasks else task :: markFirst id tasks

/-- `LiveGuard::cancel`. -/
def cancel (t : Tracker) (r : Registration) : Tracker :=
  if r.phase ≠ .running then t
  else
    match r.lane with
    | .worker =>
      { t with
        inner :=
          { t.inner with
            worker := t.inner.worker.map fun worker =>
              if worker.id = r.id then { worker with cancelled := true } else worker } }
    | .background => { t with inner := { t.inner with background := markFirst r.id t.inner.background } }

def release (inner : Inner) (r : Registration) : Inner :=
  match r.lane with
  | .worker =>
    if inner.worker.any (fun worker => worker.id = r.id) then { inner with worker := none }
    else { inner with available := false }
  | .background =>
    match inner.background.findIdx? (fun task => task.id = r.id) with
    | some index => { inner with background := swapRemove inner.background index }
    | none => { inner with available := false }

/-- A completion invalidates even after an error: writes may have happened before it. -/
def noteCompletion (inner : Inner) (r : Registration) : Inner :=
  if r.changesState then inner.noteChange r.kind r.owner else inner

def finishInner (inner : Inner) (r : Registration) : Inner :=
  match r.phase with
  | .waiting => inner.removeWaiter (r.kind, r.owner)
  | .running => noteCompletion (release inner r) r
  | .untracked => noteCompletion inner r
  | _ => inner

/-- `Registration::finish`. -/
def finish (t : Tracker) (address : Address) (r : Registration) : Tracker :=
  { t.setPhase address r .finished with inner := finishInner t.inner r }

/-- `Registration::drop`. -/
def drop (t : Tracker) (address : Address) (r : Registration) : Tracker :=
  let t := t.finish address r
  { t with registrations := Function.update t.registrations address none }

def setStage (t : Tracker) (stage : LiveStage) : Tracker :=
  if t.inner.stage ≠ .stopping then { t with inner := { t.inner with stage } } else t

/-- A change that every reader can observe, made beside an operation's own records. -/
def noteSharedChange (t : Tracker) : Tracker :=
  { t with inner := t.inner.noteChange .captureQualification .daemon }

end Tracker

/-! ## Runs -/

inductive GuardCall where
  | waiting
  | running
  | cancel
  | finish
  | drop

inductive Step where
  | register (address : Address) (id : OperationId) (kind : LiveOperationKind) (changesState : Bool) (owner : Owner)
  | registerBackground (address : Address) (id : OperationId)
  | guard (address : Address) (call : GuardCall)
  | noteSharedChange
  | setStage (stage : LiveStage)
  | setCancelToken
  | tick (nowMs : Nat)
  | requestStop
  | requestCancel
  | clearYield
  | clearCancel

namespace Tracker

def guardCall (t : Tracker) (address : Address) (r : Registration) : GuardCall → Tracker
  | .waiting => t.waiting address r
  | .running => t.running address r
  | .cancel => t.cancel r
  | .finish => t.finish address r
  | .drop => t.drop address r

def register? (t : Tracker) (address : Address) (id : OperationId) (kind : LiveOperationKind) (changesState : Bool)
    (owner : Owner) (lane : Lane) : Option Tracker :=
  match t.registrations address with
  | none => some (t.registerInLane address id kind changesState owner lane)
  | some _ => none

def step (t : Tracker) : Step → Option Tracker
  | .register address id kind changesState owner => t.register? address id kind changesState owner .worker
  | .registerBackground address id => t.register? address id .captureQualification true .daemon .background
  | .guard address call => (t.registrations address).map fun r => t.guardCall address r call
  | .noteSharedChange => some t.noteSharedChange
  | .setStage stage => some (t.setStage stage)
  | .setCancelToken => some { t with tokenSet := true }
  | .tick nowMs => some { t with nowMs }
  | .requestStop => some { t with token := t.token.requestStop }
  | .requestCancel => some { t with token := t.token.requestCancel }
  | .clearYield => some { t with token := t.token.clearYield }
  | .clearCancel => some { t with token := t.token.clearCancel }

end Tracker

end Irlume.Live

import Irlume.Inventory.Events

/-!
# The lifecycle coordinator

`lifecycle.rs`: hints of device events only ever invalidate, and every published state comes from a
complete snapshot taken while the monitor is listening and quiet. The two sources are arbitrary
programs over a state `ω` of their own. The inventory stands behind a lock, which other threads take
too: `meanwhile` is what they have done by the time the lock is taken, and a poisoned lock stays
poisoned.

The log is a ghost: it records what happened to the inventory and to the sources, in order, and
nothing reads it.
-/

namespace Irlume.Lifecycle

open Irlume.Lib Irlume.Inventory Irlume.Inventory.CameraInventory

def maxQuietSnapshotAttempts : Nat := 4

def maxCoalescePolls : Nat := 16

/-- `COALESCE_QUIET`, in milliseconds. -/
def coalesceQuiet : Nat := 50

/-! ## Hints and errors -/

inductive DeviceEventKind where
  | dirtyUvc
  | continuityLost
  deriving DecidableEq

structure DeviceEventHint where
  kind : DeviceEventKind
  devpath : Text
  affectedTopologies : TextSet

namespace DeviceEventHint

def fromUdev (kind : DeviceEventKind) (devpath : Text) (trackedTopologies : TextSet) :
    DeviceEventHint where
  kind := kind
  devpath := devpath
  affectedTopologies := trackedTopologies.filter fun topology =>
    devpath = topology || startsWith devpath (topology ++ ['/']) || startsWith topology (devpath ++ ['/'])

def requiresRetirement (hint : DeviceEventHint) : Bool := hint.kind = .continuityLost

end DeviceEventHint

inductive LifecycleError where
  | monitor (message : Text)
  | snapshot (message : Text)
  | unstableSnapshot
  | eventStorm
  | inventory (error : CameraInventoryError)

/-! ## The world -/

/-- What another thread does while it holds the lock. -/
inductive Other where
  | poison
  | recordRoles (before : TextMap EndpointGeneration) (classified : List (Text × Role))

/-- The sources of snapshots and events, the clock, and what other threads do. -/
structure Sources (ω : Type) where
  snapshot : ω → Except LifecycleError (List CameraObservation) × ω
  poll : Nat → ω → Except LifecycleError (List DeviceEventHint) × ω
  addTrackedTopologies : List Text → ω → ω
  commitTrackedTopologies : List Text → ω → ω
  now : ω → Nat
  meanwhile : ω → List Other × ω

inductive Happening where
  | did (op : Op)
  | polled (hints : List DeviceEventHint)
  | snapped (observations : List CameraObservation)

structure World (ω : Type) where
  env : ω
  inventory : CameraInventory
  poisoned : Bool
  log : List Happening

variable {ω : Type}

namespace World

def note (w : World ω) (h : Happening) : World ω := { w with log := w.log ++ [h] }

def perform (w : World ω) (op : Op) : World ω :=
  { w with inventory := w.inventory.step op }.note (.did op)

def interfere (w : World ω) : Other → World ω
  | .poison => { w with poisoned := true }
  | .recordRoles before classified =>
    if w.poisoned then w else w.perform (.recordRoles before classified)

end World

section Program

variable (s : Sources ω)

def snapshot (w : World ω) : Except LifecycleError (List CameraObservation) × World ω :=
  match s.snapshot w.env with
  | (.ok observations, env) => (.ok observations, { w with env := env }.note (.snapped observations))
  | (.error e, env) => (.error e, { w with env := env })

def poll (timeout : Nat) (w : World ω) : Except LifecycleError (List DeviceEventHint) × World ω :=
  match s.poll timeout w.env with
  | (.ok hints, env) => (.ok hints, { w with env := env }.note (.polled hints))
  | (.error e, env) => (.error e, { w with env := env })

/-! ## The supervisor's inventory -/

def lock (w : World ω) : Except CameraInventoryError Unit × World ω :=
  let (others, env) := s.meanwhile w.env
  let w := others.foldl World.interfere { w with env := env }
  (if w.poisoned then Except.error .poisoned else .ok (), w)

def locked (op : Op) (w : World ω) : Except CameraInventoryError Unit × World ω :=
  match lock s w with
  | (.error e, w) => (.error e, w)
  | (.ok (), w) => (.ok (), w.perform op)

def invalidateAll : World ω → Except CameraInventoryError Unit × World ω := locked s .invalidateAll

def retireUnavailable (reason : CameraInventoryReason) :
    World ω → Except CameraInventoryError Unit × World ω := locked s (.retireUnavailable reason)

def invalidateTopologies (topologies : TextSet) :
    World ω → Except CameraInventoryError Unit × World ω := locked s (.invalidateTopologies topologies)

def retireTopologies (topologies : TextSet) (w : World ω) :
    Except CameraInventoryError (List CameraInventoryEvent) × World ω :=
  match lock s w with
  | (.error e, w) => (.error e, w)
  | (.ok (), w) =>
    (.ok (w.inventory.retireTopologies topologies).2, w.perform (.retireTopologies topologies))

/-- What the poll at the commit boundary, which happens under the lock, has left behind. -/
structure Boundary (ω : Type) where
  env : ω
  log : List Happening
  events : List DeviceEventHint
  error : Option LifecycleError

def boundaryQuiet : StateM (Boundary ω) Bool := fun b =>
  match s.poll 0 b.env with
  | (.ok hints, env) =>
    (hints.isEmpty, { b with
      env := env
      log := b.log ++ [.polled hints]
      events := b.events ++ hints })
  | (.error e, env) => (false, { b with env := env, error := some e })

/-- `reconcile_guarded` under the lock, with the events and the error of the boundary. -/
def reconcileGuarded (observations : List CameraObservation) (w : World ω) :
    Reconciled × List DeviceEventHint × Option LifecycleError × World ω :=
  match lock s w with
  | (.error e, w) => (.error e, [], none, w)
  | (.ok (), w) =>
    let start : Boundary ω := ⟨w.env, w.log, [], none⟩
    -- the commit reads the clock after the guard
    let now := s.now (boundaryQuiet s start).2.env
    let ((result, inventory), b) :=
      (w.inventory.reconcileGuarded observations now (boundaryQuiet s)).run start
    let committed := result.toOption.any Prod.snd
    (result, b.events, b.error,
      { w with
        env := b.env
        inventory := inventory
        log := b.log ++ [.did (.reconcileGuarded observations committed now)] })

/-! ## The coordinator -/

def failureReason : LifecycleError → CameraInventoryReason
  | .monitor _ => .monitor
  | .snapshot _ | .unstableSnapshot | .eventStorm => .snapshot
  | .inventory _ => .inventory

def failClosed (error : LifecycleError) (w : World ω) : LifecycleError × World ω :=
  match retireUnavailable s (failureReason error) w with
  | (.ok (), w) => (error, w)
  | (.error e, w) => (.inventory e, w)

def affected (hints : List DeviceEventHint) : TextSet :=
  Std.ExtTreeSet.ofList (hints.flatMap fun hint => hint.affectedTopologies.toList)

def prepareRescan (hints : List DeviceEventHint) (w : World ω) :
    Except LifecycleError (List CameraInventoryEvent) × World ω :=
  match invalidateTopologies s (affected hints) w with
  | (.error e, w) => (.error (.inventory e), w)
  | (.ok (), w) =>
    match retireTopologies s (affected (hints.filter DeviceEventHint.requiresRetirement)) w with
    | (.error e, w) => (.error (.inventory e), w)
    | (.ok events, w) => (.ok events, w)

abbrev Outcome (ω : Type) := Except LifecycleError (List CameraInventoryEvent) × World ω

def closed (error : LifecycleError) (w : World ω) : Outcome ω :=
  ((.error (failClosed s error w).1), (failClosed s error w).2)

/-- `publish_quiet_snapshot` with the attempts that are left. -/
def publishQuietSnapshot : Nat → List CameraInventoryEvent → World ω → Outcome ω
  | 0, _, w => closed s .unstableSnapshot w
  | attempts + 1, pending, w =>
    match snapshot s w with
    | (.error e, w) => closed s e w
    | (.ok observations, w) =>
      let topologies := observations.map CameraObservation.topologyPath
      match poll s coalesceQuiet { w with env := s.addTrackedTopologies topologies w.env } with
      | (.error e, w) => closed s e w
      | (.ok [], w) =>
        match reconcileGuarded s observations w with
        -- a refusal of the inventory leaves without `fail_closed`
        | (.error e, _, _, w) => (.error (.inventory e), w)
        | (.ok _, _, some e, w) => closed s e w
        | (.ok (published, true), _, none, w) =>
          (.ok (pending ++ published), { w with env := s.commitTrackedTopologies topologies w.env })
        | (.ok (_, false), boundaryEvents, none, w) =>
          match prepareRescan s boundaryEvents w with
          | (.error e, w) => (.error e, w)
          | (.ok retired, w) => publishQuietSnapshot attempts (pending ++ retired) w
      | (.ok hints, w) =>
        match prepareRescan s hints w with
        | (.error e, w) => (.error e, w)
        | (.ok retired, w) => publishQuietSnapshot attempts (pending ++ retired) w

/-- `initialize` -/
def initializeInventory (w : World ω) : Outcome ω :=
  match invalidateAll s w with
  | (.error e, w) => (.error (.inventory e), w)
  | (.ok (), w) => publishQuietSnapshot s maxQuietSnapshotAttempts [] w

def coalesce : Nat → List CameraInventoryEvent → World ω → Outcome ω
  | 0, _, w => closed s .eventStorm w
  | polls + 1, pending, w =>
    match poll s coalesceQuiet w with
    | (.ok [], w) => publishQuietSnapshot s maxQuietSnapshotAttempts pending w
    | (.ok hints, w) =>
      match prepareRescan s hints w with
      | (.error e, w) => (.error e, w)
      | (.ok retired, w) => coalesce polls (pending ++ retired) w
    | (.error e, w) => closed s e w

def processNext (wait : Nat) (w : World ω) : Outcome ω :=
  match poll s wait w with
  | (.error e, w) => closed s e w
  | (.ok [], w) => (.ok [], w)
  | (.ok first, w) =>
    match prepareRescan s first w with
    | (.error e, w) => (.error e, w)
    | (.ok pending, w) => coalesce s maxCoalescePolls pending w

/-! ## Runs -/

/-- A call of the coordinator. A coordinator that replaces another one brings sources of its own. -/
inductive Call (ω : Type) where
  | initializeInventory
  | processNext (wait : Nat)
  | rebind (env : ω)

def call : Call ω → World ω → Outcome ω
  | .initializeInventory, w => initializeInventory s w
  | .processNext wait, w => processNext s wait w
  | .rebind env, w => (.ok [], { w with env := env })

def calls (cs : List (Call ω)) (w : World ω) : World ω := cs.foldl (fun w c => (call s c w).2) w

end Program

def World.new (source generate : Nat → CameraInstanceId) (env : ω) : World ω where
  env := env
  inventory := .new source generate
  poisoned := false
  log := []

end Irlume.Lifecycle

import Irlume.Inventory.Contracts

/-!
# The camera inventory

`CameraInventory` of `inventory.rs`. Its two sources of identifiers are streams, so that a run that repeats one
is a run of the model too: `source` is the inventory's own, `generate` is `CameraInstanceId::generate` for the
supervisor.

The clock is in milliseconds and is an argument where the source reads it.
-/

namespace Irlume.Inventory

open Irlume.Lib

inductive CameraInventoryState where
  | uninitialized
  | current
  | refreshing
  | unavailable
  deriving DecidableEq

inductive CameraInventoryReason where
  | monitor
  | snapshot
  | inventory
  | bounds
  | workerStopped
  deriving DecidableEq

inductive Role where
  | rgb
  | ir
  /-- A capture node that answered as neither. -/
  | other
  deriving DecidableEq

structure RoleKey where
  supervisorId : CameraInstanceId
  instanceId : CameraInstanceId
  generation : CameraGeneration
  endpoint : Text
  deriving DecidableEq

/-- Where one endpoint sits in the published inventory right now. -/
structure EndpointGeneration where
  supervisorId : CameraInstanceId
  instanceId : CameraInstanceId
  generation : CameraGeneration
  deriving DecidableEq

def EndpointGeneration.key (g : EndpointGeneration) (endpoint : Text) : RoleKey :=
  ⟨g.supervisorId, g.instanceId, g.generation, endpoint⟩

/-- The cameras the supervisor knows by topology, the identities that are spent or in doubt, what it last
published, and the roles discovery answered. -/
structure CameraInventory where
  active : TextMap InventoryEntry
  tombstones : Finset Text
  retiredInstanceIds : Finset CameraInstanceId
  invalidatedInstanceIds : Finset CameraInstanceId
  source : Nat → CameraInstanceId
  /-- How many identifiers `source` has given. -/
  drawn : Nat
  generate : Nat → CameraInstanceId
  /-- How many identifiers `generate` has given. -/
  generated : Nat
  supervisorId : CameraInstanceId
  revision : Nat
  publicationState : CameraInventoryState
  publicationReason : Option CameraInventoryReason
  observedAt : Option Nat
  /-- `BTreeMap<RoleKey, Role>`, of which only look-ups are ever made. -/
  roles : RoleKey → Option Role

namespace CameraInventory

/-- `with_instance_id_source` -/
def new (source generate : Nat → CameraInstanceId) : CameraInventory where
  active := ∅
  tombstones := ∅
  retiredInstanceIds := ∅
  invalidatedInstanceIds := ∅
  source := source
  drawn := 0
  generate := generate
  generated := 1
  supervisorId := generate 0
  revision := 0
  publicationState := .uninitialized
  publicationReason := none
  observedAt := none
  roles := fun _ => none

/-! ## Publication -/

def advanceRevision (inv : CameraInventory) : CameraInventory :=
  if inv.revision + 1 < u64Bound then { inv with revision := inv.revision + 1 }
  else
    -- a revision must never alias one published earlier by this producer
    { inv with
      supervisorId := inv.generate inv.generated
      generated := inv.generated + 1
      revision := 1 }

def invalidated (inv : CameraInventory) (e : InventoryEntry) : Bool :=
  e.instanceId ∈ inv.invalidatedInstanceIds

def publishedEntries (inv : CameraInventory) : List InventoryEntry :=
  if inv.publicationState = .current ∨ inv.publicationState = .refreshing then
    (values inv.active).filter fun e => !inv.invalidated e
  else []

def claimEndpoint (generation : EndpointGeneration)
    (found : TextMap EndpointGeneration × Finset Text) (endpoint : Text) :
    TextMap EndpointGeneration × Finset Text :=
  (found.1.insert endpoint generation,
    if endpoint ∈ found.1 then insert endpoint found.2 else found.2)

def entryGeneration (inv : CameraInventory) (e : InventoryEntry) : EndpointGeneration :=
  ⟨inv.supervisorId, e.instanceId, e.generation⟩

def endpointGenerations (inv : CameraInventory) : TextMap EndpointGeneration :=
  let found := inv.publishedEntries.foldl
    (fun found e => e.observation.endpointPaths.foldl (claimEndpoint (inv.entryGeneration e)) found)
    (∅, ∅)
  found.1.filter fun endpoint _ => decide (endpoint ∉ found.2)

/-- Drop every role whose connection generation is no longer published. -/
def pruneRoles (inv : CameraInventory) : CameraInventory :=
  let live := inv.endpointGenerations
  { inv with
    roles := fun key =>
      if live[key.endpoint]?.any (fun g => g.key key.endpoint = key) then inv.roles key else none }

/-- The role of an endpoint after one more answer: a second, different one clears it instead of
choosing, and the one after that is recorded afresh. -/
def answered (held : Option Role) (role : Role) : Option Role :=
  match held with
  | none => some role
  | some recorded => if recorded ≠ role then none else some recorded

def recordRole (before after : TextMap EndpointGeneration) (roles : RoleKey → Option Role)
    (answer : Text × Role) : RoleKey → Option Role :=
  match before[answer.1]?, after[answer.1]? with
  | some was, some now =>
    if was ≠ now then roles
    else
      let key := now.key answer.1
      Function.update roles key (answered (roles key) answer.2)
  | _, _ => roles

/-- Record what a classification answered. `before` is what `endpointGenerations` said when it
started. -/
def recordRoles (inv : CameraInventory) (before : TextMap EndpointGeneration)
    (classified : List (Text × Role)) : CameraInventory :=
  { inv with roles := classified.foldl (recordRole before inv.endpointGenerations) inv.roles }

def markRefreshing (inv : CameraInventory) : CameraInventory :=
  { (if inv.publicationState ≠ .refreshing then inv.advanceRevision else inv) with
    publicationState := .refreshing
    publicationReason := none }

def activeInstanceIds (inv : CameraInventory) : Finset CameraInstanceId :=
  ((values inv.active).map InventoryEntry.instanceId).toFinset

def markUnavailable (inv : CameraInventory) (reason : CameraInventoryReason) : CameraInventory :=
  let doubted := { inv with
    invalidatedInstanceIds := inv.invalidatedInstanceIds ∪ inv.activeInstanceIds }
  let advanced :=
    if doubted.publicationState ≠ .unavailable ∨ doubted.publicationReason ≠ some reason then
      doubted.advanceRevision
    else doubted
  pruneRoles { advanced with publicationState := .unavailable, publicationReason := some reason }

def invalidateAll (inv : CameraInventory) : CameraInventory :=
  let refreshing := inv.markRefreshing
  pruneRoles { refreshing with invalidatedInstanceIds := refreshing.activeInstanceIds }

/-- Even an empty set may describe a newly added camera, so the state is refreshing in any case. -/
def invalidateTopologies (inv : CameraInventory) (topologies : TextSet) : CameraInventory :=
  let refreshing := inv.markRefreshing
  let named := (topologies.toList.filterMap fun t => refreshing.active[t]?).map InventoryEntry.instanceId
  pruneRoles { refreshing with
    invalidatedInstanceIds := refreshing.invalidatedInstanceIds ∪ named.toFinset }

/-! ## Retirement -/

def retireTopology (found : CameraInventory × List CameraInventoryEvent) (topology : Text) :
    CameraInventory × List CameraInventoryEvent :=
  match found.1.active[topology]? with
  | none => found
  | some e =>
    ({ found.1 with
        active := found.1.active.erase topology
        invalidatedInstanceIds := found.1.invalidatedInstanceIds.erase e.instanceId
        retiredInstanceIds := insert e.instanceId found.1.retiredInstanceIds
        tombstones := insert topology found.1.tombstones },
      found.2 ++ [.removed e.descriptor])

def retireTopologies (inv : CameraInventory) (topologies : TextSet) :
    CameraInventory × List CameraInventoryEvent :=
  let inv := if topologies.toList.any (· ∈ inv.active) then inv.markRefreshing else inv
  let found := topologies.toList.foldl retireTopology (inv, [])
  (found.1.pruneRoles, found.2)

/-- A failed census retires identities without resetting the age of the last complete one. -/
def retireUnavailable (inv : CameraInventory) (reason : CameraInventoryReason) : CameraInventory :=
  (inv.retireTopologies (Std.ExtTreeSet.ofList inv.active.keys)).1.markUnavailable reason

/-! ## Reconciliation -/

/-- `MAX_INSTANCE_ID_ATTEMPTS` -/
def maxInstanceIdAttempts : Nat := 64

/-- `mint_unique_instance_id`: the first of the next identifiers that no active entry has and that
is not retired, and how many have been drawn then. -/
def mintUniqueInstanceId (source : Nat → CameraInstanceId) (active : TextMap InventoryEntry)
    (retired : Finset CameraInstanceId) : Nat → Nat → Option CameraInstanceId × Nat
  | 0, drawn => (none, drawn)
  | attempts + 1, drawn =>
    if (values active).any (fun e => e.instanceId = source drawn) || source drawn ∈ retired then
      mintUniqueInstanceId source active retired attempts (drawn + 1)
    else (some (source drawn), drawn + 1)

/-- The next state of a reconciliation while it is being made. -/
structure Merge where
  active : TextMap InventoryEntry
  tombstones : Finset Text
  retired : Finset CameraInstanceId
  drawn : Nat
  events : List CameraInventoryEvent

namespace Merge

def remove (m : Merge) (key : Text) (previous : InventoryEntry) : Merge where
  active := m.active.erase key
  tombstones := insert key m.tombstones
  retired := insert previous.instanceId m.retired
  drawn := m.drawn
  events := m.events ++ [.removed previous.descriptor]

def add (m : Merge) (key : Text) (e : InventoryEntry) (drawn : Nat) : Merge where
  active := m.active.insert key e
  tombstones := m.tombstones.erase key
  retired := m.retired
  drawn := drawn
  events := m.events ++ [.added e.descriptor]

def change (m : Merge) (key : Text) (previous e : InventoryEntry) : Merge :=
  { m with
    active := m.active.insert key e
    events := m.events ++ [.changed previous.descriptor e.descriptor] }

end Merge

def incomingByTopology (observations : List CameraObservation) :
    Except CameraInventoryError (TextMap CameraObservation) :=
  observations.foldlM
    (fun incoming o =>
      if o.topologyPath ∈ incoming then .error (.duplicateObservation o.topologyPath)
      else .ok (incoming.insert o.topologyPath o))
    ∅

/-- What one topology contributes. Fails with the identifiers drawn when none of them is unused. -/
def mergeTopology (inv : CameraInventory) (incoming : TextMap CameraObservation) (m : Merge)
    (key : Text) : Except Nat Merge :=
  match m.active[key]?, incoming[key]? with
  | some previous, none => .ok (m.remove key previous)
  | none, some observation =>
    match mintUniqueInstanceId inv.source m.active m.retired maxInstanceIdAttempts m.drawn with
    | (none, drawn) => .error drawn
    | (some id, drawn) => .ok (m.add key (observation.entry id .initial) drawn)
  | some previous, some observation =>
    if previous.observation = observation ∧ inv.invalidated previous = false then .ok m
    else
      match previous.generation.next with
      | some generation =>
        .ok (m.change key previous (observation.entry previous.instanceId generation))
      | none =>
        let retired := insert previous.instanceId m.retired
        match mintUniqueInstanceId inv.source m.active retired maxInstanceIdAttempts m.drawn with
        | (none, drawn) => .error drawn
        | (some id, drawn) =>
          .ok ({ m with retired := retired, drawn := drawn }.change key previous
            (observation.entry id .initial))
  | none, none => .ok m

def mergeKeys (inv : CameraInventory) (incoming : TextMap CameraObservation) : List Text :=
  (Std.ExtTreeSet.ofList (inv.active.keys ++ incoming.keys) : TextSet).toList

/-- The reconciliation with `observations` up to its commit. -/
def merged (inv : CameraInventory) (incoming : TextMap CameraObservation) : Except Nat Merge :=
  (inv.mergeKeys incoming).foldlM (inv.mergeTopology incoming)
    ⟨inv.active, inv.tombstones, inv.retiredInstanceIds, inv.drawn, []⟩

def committed (inv : CameraInventory) (m : Merge) (now : Nat) : CameraInventory :=
  let next := { inv with
    active := m.active
    tombstones := m.tombstones
    retiredInstanceIds := m.retired
    drawn := m.drawn
    invalidatedInstanceIds := ∅ }
  let advanced :=
    if next.publicationState ≠ .current ∨ m.events ≠ [] then next.advanceRevision else next
  pruneRoles { advanced with
    publicationState := .current
    publicationReason := none
    observedAt := some now }

abbrev Reconciled := Except CameraInventoryError (List CameraInventoryEvent × Bool)

/-- `reconcile_guarded`. The guard `quiet` is asked once, after the next state is complete and before
it is committed, and may have effects of its own. -/
def reconcileGuarded {M : Type → Type} [Monad M] (inv : CameraInventory)
    (observations : List CameraObservation) (now : Nat) (quiet : M Bool) :
    M (Reconciled × CameraInventory) :=
  match incomingByTopology observations with
  | .error e => pure (.error e, inv)
  | .ok incoming =>
    match inv.merged incoming with
    | .error drawn => pure (.error .instanceIdExhausted, { inv with drawn := drawn })
    | .ok m => do
      let events := m.events.mergeSort CameraInventoryEvent.le
      if ← quiet then return (.ok (events, true), inv.committed m now)
      else return (.ok ([], false), { inv with drawn := m.drawn })

/-! ## References -/

def activeDescriptors (inv : CameraInventory) : List CameraDescriptor :=
  (values inv.active).map InventoryEntry.descriptor

def activeReferences (inv : CameraInventory) : List CameraInventoryRef :=
  ((values inv.active).filter fun e => !inv.invalidated e).map InventoryEntry.reference

def holders (inv : CameraInventory) (path : Text) : List InventoryEntry :=
  (values inv.active).filter fun e => path ∈ e.observation.endpointPaths

def uncoveredEndpointsError (inv : CameraInventory) :
    List Text → Finset CameraInstanceId → CameraInventoryError
  | [], cameras => if 1 < cameras.card then .spansPhysicalCameras cameras.card else .unknownCamera
  | path :: paths, cameras =>
    match inv.holders path with
    | [e] =>
      if inv.invalidated e then .continuityLost
      else inv.uncoveredEndpointsError paths (insert e.instanceId cameras)
    | _ => .unknownCamera

def referenceForEndpoints (inv : CameraInventory) (endpointPaths : List Text) :
    Except CameraInventoryError CameraInventoryRef :=
  if endpointPaths = [] then .error .unknownCamera
  else
    let requested : TextSet := Std.ExtTreeSet.ofList endpointPaths
    match (values inv.active).filter fun e =>
        requested.toList.all (· ∈ e.observation.endpointPaths) with
    | [] => .error (inv.uncoveredEndpointsError requested.toList ∅)
    | [e] => if inv.invalidated e then .error .continuityLost else .ok e.reference
    | _ => .error .descriptorMismatch

def validate (inv : CameraInventory) (d : CameraDescriptor) : Except CameraInventoryError Unit :=
  match inv.active[d.physicalId.topologyPath]? with
  | none => .error (if d.physicalId.topologyPath ∈ inv.tombstones then .removed else .unknownCamera)
  | some e =>
    if d.cameraInstanceId ≠ e.instanceId then .error .foreignInstance
    else if d.cameraInstanceId ∈ inv.invalidatedInstanceIds then .error .continuityLost
    else if d.generation ≠ e.generation then .error .staleGeneration
    else if d ≠ e.descriptor then .error .descriptorMismatch
    else .ok ()

def validateReference (inv : CameraInventory) (r : CameraInventoryRef) :
    Except CameraInventoryError Unit := do
  inv.validate r.descriptor
  match inv.active[r.descriptor.physicalId.topologyPath]? with
  | none => .error .unknownCamera
  | some e =>
    if e.observation.lifecycleEvidence ≠ r.lifecycleEvidence then .error .descriptorMismatch
    else if e.observation.endpointPaths ≠ r.endpointPaths then .error .descriptorMismatch
    else .ok ()

end CameraInventory

end Irlume.Inventory

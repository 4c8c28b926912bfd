import Irlume.Inventory.Roles
import Irlume.Split.Schema

/-!
# Connected pairs

The camera-free pairing views of `inventory.rs` and `connected.rs`: the classified endpoints, the pairs that are
one physical camera, and the split pairs an administrator authorized, which span two.

`toLowercase` is `str::to_lowercase`, whose tables nothing here looks into.
-/

namespace Irlume.Inventory

open Irlume.Lib Irlume.Split

variable (toLowercase : Text → Text)

/-- `vid:pid[:serial]` -/
def bindingIdentity (vidPid : Text) (serial : Option Text) : Text :=
  toLowercase <|
    match (serial.map trim).filter (· ≠ []) with
    | some serial => vidPid ++ ':' :: serial
    | none => vidPid

def fileName (path : Text) : Option Text :=
  ((path.splitOn '/').filter fun part => part ≠ [] ∧ part ≠ ['.']).getLast?.filter (· ≠ ['.', '.'])

/-- `<bus>-<port>[.<port>…]` -/
def usbPortChain (usbDevpath : Text) : Option Text := do
  let name ← fileName usbDevpath
  let (bus, ports) ← splitOnceAt '-' name
  if bus.all Char.isDigit && bus ≠ [] && ports ≠ [] &&
      (ports.splitOn '.').all (fun port => port ≠ [] && port.all Char.isDigit) then
    some name
  else none

/-! ## One physical camera -/

/-- One inventory entry as the pairing rule sees it. -/
structure PairingInput where
  topologyPath : Text
  serial : Option Text
  usbDevice : Option UsbDeviceFacts
  endpoints : List Text
  metadataEndpoints : List Text
  instanceId : Text
  generation : Nat
  deriving DecidableEq

def PairingInput.captures (input : PairingInput) : List Text :=
  input.endpoints.filter (· ∉ input.metadataEndpoints)

structure ConnectedPair where
  rgb : Text
  ir : Text
  identity : Text
  vidPid : Text
  serialPresent : Bool
  fixed : Bool
  portChain : Option Text
  instanceId : Text
  generation : Nat
  deriving DecidableEq

/-- A camera with a capture node that has no role at its current generation yet. -/
structure UnclassifiedCamera where
  instanceId : Text
  generation : Nat
  endpoints : List Text
  topology : Text

inductive Pairing where
  | pair (p : ConnectedPair)
  | unclassified (c : UnclassifiedCamera)
  | notAPair

def pairCamera (input : PairingInput) (roleOf : Text → Option Role) : Pairing :=
  match input.usbDevice with
  | none => .notAPair
  | some usb =>
    -- before the role count: an unknown node might be a second IR node
    let unclassified := input.captures.filter fun endpoint => roleOf endpoint = none
    if unclassified ≠ [] then
      .unclassified
        { instanceId := input.instanceId
          generation := input.generation
          endpoints := unclassified.mergeSort fun a b => (compare a b).isLE
          topology := input.topologyPath }
    else
      match input.captures.filter (roleOf · = some .rgb), input.captures.filter (roleOf · = some .ir) with
      | [rgb], [ir] =>
        .pair
          { rgb := rgb
            ir := ir
            identity := bindingIdentity toLowercase usb.vidPid input.serial
            vidPid := toLowercase usb.vidPid
            serialPresent := input.serial.isSome
            fixed := usb.fixed
            portChain := usbPortChain input.topologyPath
            instanceId := input.instanceId
            generation := input.generation }
      | _, _ => .notAPair

/-! ## Split pairs -/

/-- One side of a split pair. -/
structure CameraNode where
  path : Text
  identity : Text
  vidPid : Text
  serialPresent : Bool
  fixed : Bool
  location : UsbLocation
  instanceId : Text
  generation : Nat
  deriving DecidableEq

structure SplitPair where
  rgb : CameraNode
  ir : CameraNode
  supervisorId : Text
  revision : Nat
  deriving DecidableEq

structure SplitPin where
  rgbIdentity : Text
  rgbPath : Text
  rgbLocation : Option UsbLocation
  irIdentity : Text
  irPath : Text
  irLocation : Option UsbLocation

def recordedLocation (side : SideFields) : UsbLocation where
  controller := side.controller
  domain :=
    match side.domain with
    | .usb2 => .usb2
    | .superSpeed => .superSpeed
  ports := side.ports

/-- `From<&AuthorizationRecord>` -/
def SplitPin.from (record : AuthorizationRecord) : SplitPin where
  rgbIdentity := record.rgb.identity
  rgbPath := record.rgb.path
  rgbLocation := some (recordedLocation record.rgb)
  irIdentity := record.ir.identity
  irPath := record.ir.path
  irLocation := some (recordedLocation record.ir)

/-- A camera that may be a side: every capture node with its role. -/
structure SplitCandidate where
  input : PairingInput
  supervisorId : Text
  revision : Nat
  location : Option UsbLocation
  roles : List (Text × Role)
  deriving DecidableEq

namespace SplitCandidate

/-- A capture node without a role makes the whole candidate `none`, as in `pairCamera`. -/
def classified (input : PairingInput) (supervisorId : Text) (revision : Nat)
    (location : Option UsbLocation) (roleOf : Text → Option Role) : Option SplitCandidate := do
  let roles ← input.captures.mapM fun endpoint => (roleOf endpoint).map fun role => (endpoint, role)
  return ⟨input, supervisorId, revision, location, roles⟩

def isOrdinaryPair (c : SplitCandidate) : Bool :=
  match pairCamera toLowercase c.input fun endpoint =>
      (c.roles.find? fun node => node.1 = endpoint).map Prod.snd with
  | .pair _ => true
  | _ => false

def identity (c : SplitCandidate) : Text :=
  (c.input.usbDevice.map fun usb => bindingIdentity toLowercase usb.vidPid c.input.serial).getD []

/-- Claims follow both the live instance and a known physical unit. -/
def overlaps (c other : SplitCandidate) : Bool :=
  c.input.instanceId = other.input.instanceId ||
    (c.location.isSome && c.location = other.location &&
      c.identity toLowercase = other.identity toLowercase)

def node (c : SplitCandidate) (path : Text) (location : UsbLocation) : CameraNode where
  path := path
  identity := c.identity toLowercase
  vidPid := toLowercase ((c.input.usbDevice.map UsbDeviceFacts.vidPid).getD [])
  serialPresent := c.input.serial.isSome
  fixed := c.input.usbDevice.any UsbDeviceFacts.fixed
  location := location
  instanceId := c.input.instanceId
  generation := c.input.generation

end SplitCandidate

/-- Why one side of a pin did not resolve, in the order of progress. -/
inductive SideRefusal where
  | emptyIdentity
  | noCandidateWithIdentity
  | roleAmbiguous
  | ordinaryPair
  | pathMismatch
  | locationMismatch
  | ambiguousMatch
  deriving DecidableEq, Ord

/-- `Ord::max`: the furthest progress. -/
def SideRefusal.max (a b : SideRefusal) : SideRefusal := if (compare a b).isGT then a else b

inductive PinRefusal where
  | publicationUnavailable
  | poolEmpty
  | poolSpansIncarnations
  | poolSpansRevisions
  | rgbSide (reason : SideRefusal)
  | irSide (reason : SideRefusal)
  | sameDevice
  | sameUnitTwice
  | sideAlreadyClaimed
  deriving DecidableEq

inductive PinOutcome where
  | paired (p : SplitPair)
  | refused (reason : PinRefusal)
  deriving DecidableEq

inductive PoolState where
  | singular
  | empty
  | spansIncarnations
  | spansRevisions

def poolState : List SplitCandidate → PoolState
  | [] => .empty
  | first :: rest =>
    if (first :: rest).any (·.supervisorId ≠ first.supervisorId) then .spansIncarnations
    else if (first :: rest).any (·.revision ≠ first.revision) then .spansRevisions
    else .singular

structure ResolvedSide where
  candidate : SplitCandidate
  location : UsbLocation

def matchSide (ordinary : List SplitCandidate) (path : Text) (location : Option UsbLocation)
    (role : Role) (c : SplitCandidate) : Except SideRefusal UsbLocation :=
  if ordinary.any (·.overlaps toLowercase c) then .error .ordinaryPair
  else
    match c.roles.filter (·.2 = role) with
    | [node] =>
      if node.1 ≠ path then .error .pathMismatch
      else
        match location, c.location with
        | some recorded, some current =>
          if recorded = current then .ok recorded else .error .locationMismatch
        | _, _ => .error .locationMismatch
    | _ => .error .roleAmbiguous

def resolveSide (candidates : List SplitCandidate) (identity path : Text)
    (location : Option UsbLocation) (role : Role) : Except SideRefusal ResolvedSide :=
  if identity = [] then .error .emptyIdentity
  else if role = .other then .error .roleAmbiguous
  else
    let ordinary := candidates.filter (·.isOrdinaryPair toLowercase)
    let named := candidates.filter fun c =>
      c.input.usbDevice.isSome && c.identity toLowercase = identity
    let found := named.foldl
      (fun (found : List ResolvedSide × SideRefusal) c =>
        match matchSide toLowercase ordinary path location role c with
        | .ok location => (found.1 ++ [⟨c, location⟩], found.2)
        | .error reason => (found.1, found.2.max reason))
      ([], .noCandidateWithIdentity)
    match found.1 with
    | [side] => .ok side
    | [] => .error found.2
    | _ => .error .ambiguousMatch

def sameUnit (a b : ResolvedSide) : Bool :=
  a.candidate.identity toLowercase = b.candidate.identity toLowercase && a.location = b.location

def resolvePin (candidates : List SplitCandidate) (pin : SplitPin) (claimed : List SplitCandidate) :
    PinOutcome × List SplitCandidate :=
  match resolveSide toLowercase candidates pin.rgbIdentity pin.rgbPath pin.rgbLocation .rgb with
  | .error reason => (.refused (.rgbSide reason), claimed)
  | .ok rgb =>
    match resolveSide toLowercase candidates pin.irIdentity pin.irPath pin.irLocation .ir with
    | .error reason => (.refused (.irSide reason), claimed)
    | .ok ir =>
      if rgb.candidate.input.instanceId = ir.candidate.input.instanceId then
        (.refused .sameDevice, claimed)
      else if sameUnit toLowercase rgb ir then (.refused .sameUnitTwice, claimed)
      else if claimed.any (fun owner => owner.overlaps toLowercase rgb.candidate ||
          owner.overlaps toLowercase ir.candidate) then
        (.refused .sideAlreadyClaimed, claimed)
      else
        (.paired
          { rgb := rgb.candidate.node toLowercase pin.rgbPath rgb.location
            ir := ir.candidate.node toLowercase pin.irPath ir.location
            supervisorId := rgb.candidate.supervisorId
            revision := rgb.candidate.revision },
          claimed ++ [rgb.candidate, ir.candidate])

def resolvePins (candidates : List SplitCandidate) :
    List SplitPin → List SplitCandidate → List PinOutcome
  | [], _ => []
  | pin :: pins, claimed =>
    (resolvePin toLowercase candidates pin claimed).1 ::
      resolvePins candidates pins (resolvePin toLowercase candidates pin claimed).2

def pinnedSplitPairs (candidates : List SplitCandidate) (pins : List SplitPin) : List PinOutcome :=
  match poolState candidates with
  | .singular => resolvePins toLowercase candidates pins []
  | .empty => pins.map fun _ => .refused .poolEmpty
  | .spansIncarnations => pins.map fun _ => .refused .poolSpansIncarnations
  | .spansRevisions => pins.map fun _ => .refused .poolSpansRevisions

/-! ## The views of the inventory -/

structure ConnectedPairs where
  state : CameraInventoryState := .uninitialized
  reason : Option CameraInventoryReason := none
  supervisorId : Option Text := none
  revision : Nat := 0
  pairs : List ConnectedPair := []
  unclassified : List UnclassifiedCamera := []

structure SplitRefusal where
  recordIndex : Nat
  reason : PinRefusal

structure ResolvedConnectedPairs where
  ordinary : ConnectedPairs := {}
  splitPairs : List SplitPair := []
  splitRefusals : List SplitRefusal := []

def ResolvedConnectedPairs.refuseSplitRecords (view : ResolvedConnectedPairs) (count : Nat) :
    ResolvedConnectedPairs :=
  { view with splitRefusals := (List.range count).map fun i => ⟨i, .publicationUnavailable⟩ }

/-- A role-bearing view of one endpoint. -/
structure ClassifiedEndpoint where
  instanceId : Text
  generation : Nat
  endpoint : Text
  role : Role
  identity : Text
  controller : Text
  domain : Text
  ports : List UInt8

def splitDomain : RootHubDomain → SplitDomain
  | .usb2 => .usb2
  | .superSpeed => .superSpeed

def InventoryEntry.pairingInput (e : InventoryEntry) : PairingInput where
  topologyPath := e.observation.topologyPath
  serial := e.observation.physicalId.serial
  usbDevice := e.observation.usbDevice
  endpoints := e.observation.endpointPaths
  metadataEndpoints := e.observation.metadataEndpoints
  instanceId := e.instanceId.text
  generation := e.generation.get

def InventoryEntry.location (e : InventoryEntry) : Option UsbLocation :=
  e.observation.usbDevice.bind UsbDeviceFacts.location

def domainText : RootHubDomain → Text
  | .usb2 => "usb2"
  | .superSpeed => "superspeed"

theorem domainText_eq (domain : RootHubDomain) : domainText domain = (splitDomain domain).asStr := by
  cases domain <;> rfl

namespace CameraInventory

def roleOf (inv : CameraInventory) (e : InventoryEntry) (endpoint : Text) : Option Role :=
  inv.roles ((inv.entryGeneration e).key endpoint)

def entryClassified (inv : CameraInventory) (e : InventoryEntry) : List ClassifiedEndpoint :=
  match e.location with
  | none => []
  | some location =>
    if e.pairingInput.captures.any (fun endpoint => inv.roleOf e endpoint = none) then []
    else
      e.pairingInput.captures.filterMap fun endpoint =>
        (inv.roleOf e endpoint).map fun role =>
          { instanceId := e.instanceId.text
            generation := e.generation.get
            endpoint := endpoint
            role := role
            identity := (e.observation.usbDevice.map fun usb =>
              bindingIdentity toLowercase usb.vidPid e.observation.physicalId.serial).getD []
            controller := location.controller
            domain := domainText location.domain
            ports := location.ports }

def classifiedEndpoints (inv : CameraInventory) : List ClassifiedEndpoint :=
  if inv.publicationState = .uninitialized then []
  else inv.publishedEntries.flatMap (inv.entryClassified toLowercase)

def connectedPairs (inv : CameraInventory) : ConnectedPairs :=
  if inv.publicationState = .uninitialized then {}
  else
    let pairings := inv.publishedEntries.map fun e =>
      pairCamera toLowercase e.pairingInput (inv.roleOf e)
    { state := inv.publicationState
      reason := inv.publicationReason
      supervisorId := some inv.supervisorId.text
      revision := inv.revision
      pairs := pairings.filterMap fun | .pair p => some p | _ => none
      unclassified := pairings.filterMap fun | .unclassified c => some c | _ => none }

def splitCandidates (inv : CameraInventory) : List SplitCandidate :=
  inv.publishedEntries.filterMap fun e =>
    SplitCandidate.classified e.pairingInput inv.supervisorId.text inv.revision e.location (inv.roleOf e)

def connectedPairsWithSplit (inv : CameraInventory) (records : List AuthorizationRecord) (now : Nat) :
    ResolvedConnectedPairs :=
  let snapshot := inv.snapshot now
  if snapshot.state ≠ .current then
    ({ ordinary :=
        { state := snapshot.state
          reason := snapshot.reason
          supervisorId := snapshot.supervisorId
          revision := snapshot.revision } } : ResolvedConnectedPairs).refuseSplitRecords records.length
  else
    let outcomes := pinnedSplitPairs toLowercase inv.splitCandidates (records.map SplitPin.from)
    { ordinary := inv.connectedPairs toLowercase
      splitPairs := outcomes.filterMap fun | .paired p => some p | .refused _ => none
      splitRefusals := outcomes.zipIdx.filterMap fun
        | (.refused reason, i) => some ⟨i, reason⟩
        | (.paired _, _) => none }

end CameraInventory

/-! ## The lease side -/

structure SplitSideExpectation where
  instanceId : Text
  generation : Nat
  endpoint : Text
  identity : Text
  controller : Text
  domain : Text
  ports : List UInt8
  deriving DecidableEq

inductive SplitRevalidationRefusal where
  | publicationUnavailable
  | sideMissing
  | roleMismatch
  | factMismatch

def checkSide (side : SplitSideExpectation) (role : Role) (classified : List ClassifiedEndpoint) :
    Except SplitRevalidationRefusal Unit :=
  match classified.find? fun c => c.instanceId = side.instanceId ∧ c.generation = side.generation ∧
      c.endpoint = side.endpoint with
  | none => .error .sideMissing
  | some found =>
    if found.role ≠ role then .error .roleMismatch
    else if (classified.filter fun c => c.instanceId = side.instanceId ∧
        c.generation = side.generation ∧ c.role = role).length ≠ 1 then
      .error .roleMismatch
    else if found.identity ≠ side.identity ∨ found.controller ≠ side.controller ∨
        found.domain ≠ side.domain ∨ found.ports ≠ side.ports then
      .error .factMismatch
    else .ok ()

def CameraInventorySnapshot.presents (s : CameraInventorySnapshot) (side : SplitSideExpectation) :
    Bool :=
  s.candidates.any fun c => c.instanceId = side.instanceId ∧ c.generation = side.generation ∧
    side.endpoint ∈ c.endpointPaths

def revalidateAgainst (rgb ir : SplitSideExpectation) (snapshot : CameraInventorySnapshot)
    (classified : List ClassifiedEndpoint) : Except SplitRevalidationRefusal Unit :=
  if snapshot.validate ≠ .ok () ∨ snapshot.state ≠ .current then .error .publicationUnavailable
  else if !snapshot.presents rgb || !snapshot.presents ir then .error .sideMissing
  else if rgb.instanceId = ir.instanceId ∨ (rgb.identity = ir.identity ∧
      rgb.controller = ir.controller ∧ rgb.domain = ir.domain ∧ rgb.ports = ir.ports) then
    .error .factMismatch
  else do
    checkSide rgb .rgb classified
    checkSide ir .ir classified

structure SplitLeaseRequest where
  supervisorId : Text
  revision : Nat
  rgb : SplitSideExpectation
  ir : SplitSideExpectation
  deriving DecidableEq

def CameraNode.expectation (n : CameraNode) : SplitSideExpectation where
  instanceId := n.instanceId
  generation := n.generation
  endpoint := n.path
  identity := n.identity
  controller := n.location.controller
  domain := (splitDomain n.location.domain).asStr
  ports := n.location.ports

def SplitPair.leaseRequest (p : SplitPair) : SplitLeaseRequest where
  supervisorId := p.supervisorId
  revision := p.revision
  rgb := p.rgb.expectation
  ir := p.ir.expectation

inductive CameraLeaseError where
  | stale

namespace CameraInventory

/-- What the lease side of `lease.rs` checks again before it opens a split pair. -/
def validateSplitPublication (inv : CameraInventory) (expected : SplitLeaseRequest)
    (requireRevision : Bool) (now : Nat) : Except CameraLeaseError Unit :=
  let snapshot := inv.snapshot now
  if snapshot.supervisorId ≠ some expected.supervisorId ∨
      (requireRevision ∧ snapshot.revision ≠ expected.revision) then
    .error .stale
  else
    match revalidateAgainst expected.rgb expected.ir snapshot (inv.classifiedEndpoints toLowercase) with
    | .error _ => .error .stale
    | .ok () => .ok ()

/-- The references `acquire_split` takes out under the lock. -/
def splitReferences (inv : CameraInventory) (expected : SplitLeaseRequest) (now : Nat) :
    Except CameraLeaseError (List CameraInventoryRef) := do
  inv.validateSplitPublication toLowercase expected true now
  [expected.rgb.endpoint, expected.ir.endpoint].mapM fun path =>
    match inv.referenceForEndpoints [path] with
    | .error _ => .error .stale
    | .ok r => .ok r

end CameraInventory

end Irlume.Inventory

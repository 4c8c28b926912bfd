import Irlume.Inventory.Connected
import Irlume.Lease.Authority
import Irlume.Split.Publish

/-!
# The selection a camera request retains

`PreparedSelection` of `request_preparation.rs`: one observation of the configuration and the inventory, and the
pair it settled on.
-/

namespace Irlume.Inventory

open Irlume.Lib Irlume.Split

def CameraNode.unitKey (n : CameraNode) : SplitUnitKey where
  identity := n.identity
  controller := n.location.controller
  domain := splitDomain n.location.domain
  ports := n.location.ports

def keyErrorMessage : KeyError → Text
  | .badClassTag => "the class tag is not split1"
  | .badUnitShape => "a unit does not carry exactly four fields"
  | .emptyField => "a required field is empty"
  | .badDomain => "the domain text is not usb2 or superspeed"
  | .badPorts => "the port chain text is not canonical"
  | .lowercaseHex => "a percent escape uses lowercase hex"
  | .unnecessaryEscape => "a percent escape covers a byte that needs none"
  | .badEscape => "a percent escape is incomplete"

/-- `TryFrom<&SplitPair>`: the canonical encoder decides which keys there are. -/
def SplitPair.pairKey (p : SplitPair) : Except KeyError SplitPairKey := do
  let key : SplitPairKey := { rgb := p.rgb.unitKey, ir := p.ir.unitKey }
  let _ ← key.formatCanonical
  return key

end Irlume.Inventory

namespace Irlume.Request

open Irlume.Lib Irlume.Inventory Irlume.Split Irlume.Config
open Irlume.Lease (CameraOperationKind)

inductive Error where
  | policy (message : Text)
  | io (message : Text)
  | cameraUnavailable (message : Text)

/-- `CameraLeaseError`; those of the camera crate are what they display. -/
inductive LeaseError where
  | splitActivationDisabled
  | invalidEndpoint (message : Text)
  | refused (message : Text)

def LeaseError.message : LeaseError → Text
  | splitActivationDisabled => "split enrollment and authentication are not enabled"
  | invalidEndpoint message | refused message => message

def leaseUnavailable (e : LeaseError) : Error := .cameraUnavailable e.message

inductive SplitTrustEntry where
  | enrollment
  | authentication
  deriving DecidableEq

def SplitTrustEntry.kind : SplitTrustEntry → CameraOperationKind
  | enrollment => .enrollment
  | authentication => .authentication

inductive SelectionRoute where
  | generic
  | authentication
  deriving DecidableEq

/-! ## What the callers pass in -/

/-- `split_publish::Published` -/
structure Published where
  generation : Nat
  digest : Text

structure SplitSideGuard where
  instanceId : Text
  generation : Nat
  endpoint : Text

structure SplitMutationGuard where
  supervisorId : Text
  revision : Nat
  rgb : SplitSideGuard
  ir : SplitSideGuard

def SplitSideGuard.validate (g : SplitSideGuard) : Except Text Unit := do
  if !validId g.instanceId then throw "invalid split guard instance id".toList
  if g.endpoint = [] then throw "empty split guard endpoint".toList

def SplitMutationGuard.validate (g : SplitMutationGuard) : Except Text Unit := do
  if !validId g.supervisorId then throw "invalid split guard supervisor id".toList
  g.rgb.validate
  g.ir.validate

structure CameraSelection where
  supervisorId : Text
  candidate : CameraCandidate

def CameraSelection.validate (s : CameraSelection) : Except Text Unit := do
  if !validId s.supervisorId then throw "invalid camera supervisor identity".toList
  s.candidate.validate.mapError String.toList

structure EnrollmentCameraChoice where
  rgb : Text
  ir : Text
  expected : CameraSelection

def EnrollmentCameraChoice.validate (c : EnrollmentCameraChoice) : Except Text Unit := do
  c.expected.validate
  if c.rgb = c.ir ∨ c.rgb ∉ c.expected.candidate.endpointPaths ∨ c.ir ∉ c.expected.candidate.endpointPaths then
    throw "enrollment choice needs two distinct displayed endpoints".toList

structure SplitChoice where
  pair : SplitPair
  key : SplitPairKey
  expected : SplitLeaseRequest
  authorization : Published

structure OrdinaryLeaseRequest where
  supervisorId : Text
  pair : ConnectedPair

/-! ## The retained selection -/

structure PreparedSplit where
  pair : SplitPair
  key : SplitPairKey
  expected : SplitLeaseRequest
  displayed : SplitMutationGuard
  authorization : Published
  entry : SplitTrustEntry

inductive PreparedPair where
  | ordinary (pair : ConnectedPair)
  | split (split : PreparedSplit)

/-- Six facts are set and tested by several calls of one request: the pair, the pending pin, the declared entry,
whether a split install was offered, whether account routing chose an ordinary pair, and whether the selection
was automatic. -/
structure PreparedSelection where
  snapshot : CameraSelectionSnapshot
  view : ResolvedConnectedPairs
  pair : Option PreparedPair
  rgb : Text
  ir : Text
  irAvailable : Bool
  automatic : Bool
  /-- Account routing chose an ordinary pair, which becomes the standing one. -/
  retainStanding : Bool
  splitRoutingAttempted : Bool
  enrollmentChoice : Bool
  activeEntry : Option SplitTrustEntry
  pin : Option SplitPairKey

def displayedGuard (expected : SplitLeaseRequest) : SplitMutationGuard :=
  let side (s : SplitSideExpectation) : SplitSideGuard := ⟨s.instanceId, s.generation, s.endpoint⟩
  { supervisorId := expected.supervisorId, revision := expected.revision, rgb := side expected.rgb,
    ir := side expected.ir }

def splitGuardMatches (guard : SplitMutationGuard) (pair : SplitPair) : Bool :=
  let expected := pair.leaseRequest
  let sameSide (guard : SplitSideGuard) (side : SplitSideExpectation) : Bool :=
    guard.instanceId = side.instanceId && guard.generation = side.generation && guard.endpoint = side.endpoint
  guard.supervisorId = expected.supervisorId && guard.revision = expected.revision &&
    sameSide guard.rgb expected.rgb && sameSide guard.ir expected.ir

def invalidSelection (s : CameraSelectionSnapshot) : Bool :=
  isUnreadable s.observation.selection || s.observation.selection.isMalformed

def verifiedSplitRecords (snapshot : CameraSelectionSnapshot) (authorization : Published) :
    Except Error (List AuthorizationRecord) :=
  if invalidSelection snapshot then .error (.policy "camera selection is invalid or unreadable; use your password")
  else
    match snapshot.split, snapshot.observation.split with
    | .valid generation records _, .reference referenced digest _ =>
      if generation ≠ 0 ∧ generation = authorization.generation ∧ generation = referenced ∧
          digest = authorization.digest then
        .ok records
      else .error (.policy "split authorization is absent, invalid or changed; select it again")
    | _, _ => .error (.policy "split authorization is absent, invalid or changed; select it again")

def timesListed {α : Type} [DecidableEq α] (pair : α) (pairs : List α) : Nat := (pairs.filter (· = pair)).length

namespace PreparedSelection

variable (s : PreparedSelection)

def split : Option PreparedSplit :=
  match s.pair with
  | some (.split split) => some split
  | _ => none

def routesAccounts : Bool := s.automatic || s.pin.isSome

/-- A retained split never takes an ordinary path, and neither does a request that was offered one. -/
def retainsSplit : Bool := s.split.isSome || s.pin.isSome || s.splitRoutingAttempted

def authenticationRouted : Bool := s.pin.isSome || s.split.any (·.entry = .authentication)

def matchesDevices (rgb ir : Text) (irAvailable : Bool) : Bool :=
  s.rgb = rgb && s.ir = ir && s.irAvailable = irAvailable

def expectedLease : Option OrdinaryLeaseRequest :=
  match s.pair with
  | some (.ordinary pair) => s.view.ordinary.supervisorId.map fun supervisorId => { supervisorId, pair }
  | _ => none

def selectOrdinary (pair : ConnectedPair) (available : Bool) : PreparedSelection :=
  { s with
    rgb := pair.rgb
    ir := pair.ir
    irAvailable := available
    pair := some (.ordinary pair)
    retainStanding := true
    activeEntry := none }

def installSplit (choice : SplitChoice) : PreparedSelection :=
  { s with
    rgb := choice.pair.rgb.path
    ir := choice.pair.ir.path
    irAvailable := true
    pair := some (.split {
      pair := choice.pair
      key := choice.key
      expected := choice.expected
      displayed := displayedGuard choice.expected
      authorization := choice.authorization
      entry := .authentication })
    pin := none
    retainStanding := false
    activeEntry := some .authentication }

end PreparedSelection

end Irlume.Request

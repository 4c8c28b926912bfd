import Irlume.Lib.KeyedEdits
import Irlume.Lib.Encoding

/-!
# Cameras as the inventory sees them

The values of `contracts.rs` and of the first part of `inventory.rs`: what a backend observes of one
physical camera, the identity the supervisor gives it (an instance and a generation within it), the
descriptor made of both, and the reference a caller holds.
-/

namespace Irlume.Inventory

open Irlume.Lib

/-- `BTreeMap<String, _>`. -/
abbrev TextMap (ν : Type) := Std.ExtTreeMap Text ν compare

/-- `BTreeSet<String>`. -/
abbrev TextSet := Std.ExtTreeSet Text compare

/-! ## Identity -/

inductive BackendKind where
  | uvcV4l2
  deriving DecidableEq

/-- Raw identity evidence; `topologyPath` is the canonical sysfs path of the USB device. -/
structure PhysicalCameraId where
  topologyPath : Text
  serial : Option Text
  deriving DecidableEq

inductive IdentityStrength where
  | ambiguous
  deriving DecidableEq

inductive StreamRole where
  | rgb
  | ir
  deriving DecidableEq

inductive SynchronizationProvenance where
  | unknown
  | independent
  | hostCorrelated
  | deviceCorrelated
  | hardwareSynchronized
  deriving DecidableEq

inductive IlluminationProvenance where
  | unknown
  | ambient
  | activeIr
  deriving DecidableEq

structure CameraCapabilities where
  streamRoles : List StreamRole := []
  synchronization : SynchronizationProvenance := .unknown
  illuminationProvenance : List IlluminationProvenance := []
  deriving DecidableEq

/-- `valid_id`: 32 lowercase hexadecimal digits, not all zero. -/
def validId (id : Text) : Bool :=
  byteLength id = 32 &&
    (bytes id).all (fun b => ('0'.toUInt8 ≤ b && b ≤ '9'.toUInt8) || ('a'.toUInt8 ≤ b && b ≤ 'f'.toUInt8)) &&
    (bytes id).any (· ≠ '0'.toUInt8)

/-- The identity of one incarnation of a physical camera, or of a supervisor. -/
structure CameraInstanceId where
  text : Text
  valid : validId text = true
  deriving DecidableEq

theorem CameraInstanceId.text_injective : Function.Injective CameraInstanceId.text := by
  rintro ⟨t, ht⟩ ⟨u, hu⟩ rfl
  rfl

/-- The bound of the source's `u64`. -/
def u64Bound : Nat := 2 ^ 64

/-- The lifecycle generation within one instance; zero is reserved. -/
structure CameraGeneration where
  get : Nat
  pos : 0 < get
  fits : get < u64Bound
  deriving DecidableEq

namespace CameraGeneration

def initial : CameraGeneration := ⟨1, by decide, by decide⟩

/-- The next generation; `none` at `u64::MAX`. -/
def next (g : CameraGeneration) : Option CameraGeneration :=
  if h : g.get + 1 < u64Bound then some ⟨g.get + 1, Nat.succ_pos _, h⟩ else none

theorem get_of_next {g g' : CameraGeneration} (h : g.next = some g') : g'.get = g.get + 1 := by
  rw [next] at h
  split at h
  · cases h
    rfl
  · cases h

end CameraGeneration

/-- `CAMERA_CONTRACT_SCHEMA_VERSION` -/
def cameraContractSchemaVersion : Nat := 1

structure CameraDescriptor where
  schemaVersion : Nat
  backend : BackendKind
  physicalId : PhysicalCameraId
  identityStrength : IdentityStrength
  cameraInstanceId : CameraInstanceId
  generation : CameraGeneration
  capabilities : CameraCapabilities
  deriving DecidableEq

def CameraDescriptor.new (backend : BackendKind) (physicalId : PhysicalCameraId)
    (cameraInstanceId : CameraInstanceId) (generation : CameraGeneration)
    (capabilities : CameraCapabilities) : CameraDescriptor where
  schemaVersion := cameraContractSchemaVersion
  backend := backend
  physicalId := physicalId
  identityStrength := .ambiguous
  cameraInstanceId := cameraInstanceId
  generation := generation
  capabilities := capabilities

/-! ## Observations -/

inductive RootHubDomain where
  | usb2
  | superSpeed
  deriving DecidableEq

structure UsbLocation where
  controller : Text
  domain : RootHubDomain
  ports : List UInt8
  deriving DecidableEq

structure UsbDeviceFacts where
  vidPid : Text
  fixed : Bool
  location : Option UsbLocation
  deriving DecidableEq

/-- One backend observation before the supervisor assigns a lifecycle identity. -/
structure CameraObservation where
  backend : BackendKind := .uvcV4l2
  physicalId : PhysicalCameraId
  capabilities : CameraCapabilities := {}
  lifecycleEvidence : List Text := []
  endpointPaths : List Text := []
  /-- The endpoints the media graph placed as metadata nodes, neither RGB nor IR. -/
  metadataEndpoints : List Text := []
  /-- `none` for a node without USB descriptors, which is never paired. -/
  usbDevice : Option UsbDeviceFacts := none
  deriving DecidableEq

def CameraObservation.topologyPath (o : CameraObservation) : Text := o.physicalId.topologyPath

def CameraObservation.descriptor (o : CameraObservation) (instanceId : CameraInstanceId)
    (generation : CameraGeneration) : CameraDescriptor :=
  CameraDescriptor.new o.backend o.physicalId instanceId generation o.capabilities

structure InventoryEntry where
  observation : CameraObservation
  descriptor : CameraDescriptor
  deriving DecidableEq

def CameraObservation.entry (o : CameraObservation) (instanceId : CameraInstanceId)
    (generation : CameraGeneration) : InventoryEntry :=
  ⟨o, o.descriptor instanceId generation⟩

namespace InventoryEntry

def instanceId (e : InventoryEntry) : CameraInstanceId := e.descriptor.cameraInstanceId

def generation (e : InventoryEntry) : CameraGeneration := e.descriptor.generation

@[simp] theorem generation_entry (o : CameraObservation) (id : CameraInstanceId)
    (g : CameraGeneration) : (o.entry id g).generation = g := rfl

end InventoryEntry

/-! ## Events, errors and references -/

inductive CameraInventoryEvent where
  | added (descriptor : CameraDescriptor)
  | changed (previous current : CameraDescriptor)
  | removed (descriptor : CameraDescriptor)

namespace CameraInventoryEvent

def descriptor : CameraInventoryEvent → CameraDescriptor
  | added d | removed d => d
  | changed _ current => current

def topologyPath (e : CameraInventoryEvent) : Text := e.descriptor.physicalId.topologyPath

def phaseRank : CameraInventoryEvent → Nat
  | removed _ => 0
  | changed _ _ => 1
  | added _ => 2

def cmp : CameraInventoryEvent → CameraInventoryEvent → Ordering :=
  compareLex (compareOn phaseRank) (compareOn topologyPath)

def le (left right : CameraInventoryEvent) : Bool := (cmp left right).isLE

instance : Std.TransCmp cmp := inferInstanceAs (Std.TransCmp (compareLex _ _))

end CameraInventoryEvent

inductive CameraInventoryError where
  | duplicateObservation (topologyPath : Text)
  | foreignInstance
  | unknownCamera
  /-- Each endpoint belongs to one live camera and together they span several. -/
  | spansPhysicalCameras (cameras : Nat)
  | removed
  | staleGeneration
  | continuityLost
  | descriptorMismatch
  | instanceIdExhausted
  | poisoned
  deriving DecidableEq

/-- A handle for a currently observed camera. It is validated whole: a path in it proves nothing. -/
structure CameraInventoryRef where
  descriptor : CameraDescriptor
  lifecycleEvidence : List Text
  endpointPaths : List Text
  deriving DecidableEq

def InventoryEntry.reference (e : InventoryEntry) : CameraInventoryRef :=
  ⟨e.descriptor, e.observation.lifecycleEvidence, e.observation.endpointPaths⟩

end Irlume.Inventory

import Irlume.Emitter.Discovery
import Irlume.Emitter.Store

/-!
# A camera, its store and its configuration

The world of discovery and recovery on one camera that nobody else writes to. A control holds a value;
`GET_CUR` answers it, a `SET_CUR` that succeeds replaces it, and one that fails may have. What the
camera says of a control besides (its default, its range) does not change. The emitter configuration
is one file that names one control.
-/

namespace Irlume.Emitter

open Irlume.Lib
open Uvc (msxuFaceAuthentication)

abbrev Control : Type := UInt8 × UInt8

/-- What a camera says of its controls, always the same. -/
structure Device where
  len : Control → Nat
  value : Query → Control → Bytes

structure EmitterConf where
  usbId : Text
  unit : UInt8
  selector : UInt8

structure World where
  control : Control → Bytes
  store : Store
  conf : DurableFile EmitterConf

namespace World

variable (w : World)

/-- The control holds `v`. -/
def set (c : Control) (v : Bytes) : World := { w with control := Function.update w.control c v }

/-- The configuration as a reader with this camera sees it: only the two controls discovery can
record are taken from it. -/
def loadConf (usbId : Text) : Option Control :=
  w.conf.visible.bind fun conf =>
    if conf.usbId = usbId && (conf.selector = msxuFaceAuthentication || conf.selector = msxuIrTorch) then
      some (conf.unit, conf.selector)
    else none

def sized (v : Bytes) (size : Nat) : Option (Except XuError Bytes × World) :=
  if v.length = size then some (.ok v, w) else none

def putConf (o : WriteOutcome) (conf : EmitterConf) : World :=
  { w with conf := w.conf.replace o (some conf) }

def perform (device : Device) (w : World) : (op : Op) → Choice → Option (op.Answer × World)
  | .getLen unit selector, .works => some (.ok (device.len (unit, selector)), w)
  | .getLen _ _, .cameraFails e _ => some (.error e, w)
  | .getInfo _ _, .number n => some (.ok (UInt8.ofNat n), w)
  | .getInfo _ _, .cameraFails e _ => some (.error e, w)
  | .getOf .cur unit selector size, .works => w.sized (w.control (unit, selector)) size
  | .getOf .min unit selector size, .works => w.sized (device.value .min (unit, selector)) size
  | .getOf .max unit selector size, .works => w.sized (device.value .max (unit, selector)) size
  | .getOf .res unit selector size, .works => w.sized (device.value .res (unit, selector)) size
  | .getOf .default unit selector size, .works => w.sized (device.value .default (unit, selector)) size
  | .getOf _ _ _ _, .cameraFails e _ => some (.error e, w)
  | .setCur unit selector payload, .works => some (.ok (), w.set (unit, selector) payload)
  | .setCur unit selector payload, .cameraFails e took =>
    some (.error e, if took then w.set (unit, selector) payload else w)
  | .saveConf usbId unit selector, .file o =>
    some (Store.removed o, w.putConf o { usbId, unit, selector })
  -- the file is durable, and a directory above it could not be synced
  | .saveConf usbId unit selector, .fails =>
    some (.error (), w.putConf .durable { usbId, unit, selector })
  | .loadConf usbId, .works => some (w.loadConf usbId, w)
  | .loadConf _, .fails => some (none, w)
  | op, c => (w.store.answer op c).map fun (a, store) => (a, { w with store })

end World

/-- What ends a session early: the process is killed, or the machine loses power. `kept` are the
unsynced changes that reached the disk anyway. -/
inductive Outside where
  | kill
  | powerLoss (keptRecords : List Text) (keptConf : Bool)

def World.outside (w : World) : Outside → Option World
  | .kill => some w
  | .powerLoss keptRecords keptConf =>
    some { w with store := w.store.powerLoss keptRecords, conf := w.conf.powerLoss keptConf }

abbrev State := Sessions World Op Op.Answer
abbrev Event := SessionEvent Session Choice Outside

def step [Sha256] (device : Device) : State → Event → Option State :=
  Sessions.step Session.program (World.perform device) World.outside

/-! ## The property -/

/-- The camera's identity, or it without the serial: more than a read can give, as one that fails is an error. -/
def CameraIdentity.Reads (id camera : CameraIdentity) : Prop :=
  id = camera ∨ id = { camera with serial := none }

variable {camera id : CameraIdentity}

theorem CameraIdentity.Reads.usbDevpath (h : id.Reads camera) :
    id.usbDevpath = camera.usbDevpath := by
  obtain rfl | rfl := h <;> rfl

theorem CameraIdentity.Reads.usbId (h : id.Reads camera) :
    id.usbId = camera.usbId := by
  obtain rfl | rfl := h <;> rfl

theorem CameraIdentity.Reads.fingerprint [Sha256]
    (h : id.Reads camera) : Emitter.fingerprint id = Emitter.fingerprint camera := by
  obtain rfl | rfl := h <;> rfl

section

variable [Sha256] (camera : CameraIdentity) (orig : Control → Bytes) (w : World) (c : Control)

def PendingWrite.Own (r : PendingWrite) : Prop :=
  r.descriptorSha256 = fingerprint camera ∧ r.usbDevpath = camera.usbDevpath

def Named (conf : Option EmitterConf) : Prop :=
  ∃ f, conf = some f ∧ f.usbId = camera.usbId ∧ (f.unit, f.selector) = c

/-- The change of a control can be undone: it holds its original, or a durable record has that
original and the value attempted, which it holds, or the configuration that names it is durable. -/
def Undoable : Prop :=
  w.control c = orig c ∨
    (∃ path r, (w.store.files path).durable = some r ∧ r.Own camera ∧ r.control = c ∧
      r.original = toHex (orig c) ∧ r.attempted = toHex (w.control c)) ∨
    Named camera c w.conf.durable

/-- A record in force for the control: what a reader sees and what a power loss leaves. -/
def Recorded (path : Text) : Prop :=
  (w.store.files path).Both fun content => ∃ r, content = some r ∧ r.Own camera ∧ r.control = c

/-- Before the first discovery: the controls hold their originals, and no record is about them. -/
structure Untouched : Prop where
  control : w.control = orig
  records : ∀ path, (w.store.files path).Both fun content => ∀ r, content = some r → ¬ r.Own camera

def KeepsNamed (w : World) : Op → Choice → Prop
  | .saveConf _ _ _, .file .failed => True
  | .saveConf _ unit selector, _ =>
    ∀ c ≠ (unit, selector), Named camera c w.conf.durable →
      w.control c = orig c ∨ ∃ path, Recorded camera w c path
  | _, _ => True

end

end Irlume.Emitter

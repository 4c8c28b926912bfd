import Irlume.Uvc.Agreement

/-!
# Which camera a file is about

A camera is known by its USB descriptors, its serial (where one could be read) and the path of the port it is
on.

Control values are stored as hex.

The SHA-256 itself is a parameter: nothing here depends on what it computes.
-/

namespace Irlume.Emitter

open Irlume.Lib

abbrev Bytes := List UInt8

/-- `irlume_common::sha256_hex`. -/
class Sha256 where
  sha256Hex : Bytes → Text

export Sha256 (sha256Hex)

structure CameraIdentity extends Uvc.CameraIdentity where
  vid : UInt16
  pid : UInt16
  /-- `none` where the camera publishes none. A read that fails is an error, and no identity. -/
  serial : Option Text
  usbDevpath : Text
  deriving DecidableEq

/-- What `read_to_string` gives for a camera's `serial`. -/
inductive SerialRead where
  | found (value : Text)
  | notFound
  | fails

def readOptionalSerial : SerialRead → Except Unit (Option Text)
  | .found value => .ok (if trim value = [] then none else some (trim value))
  | .notFound => .ok none
  | .fails => .error ()

/-! ## Hex -/

def hexValue (b : UInt8) : Option UInt8 :=
  if 48 ≤ b && b ≤ 57 then some (b - 48)
  else if 97 ≤ b && b ≤ 102 then some (b - 87)
  else if 65 ≤ b && b ≤ 70 then some (b - 55)
  else none

def toHex (bs : Bytes) : Text := hexBytes bs

/-- The pairs of digits of a text, decoded; `none` when a pair is not two hex digits or one digit is
left over. -/
def hexPairs : Bytes → Option Bytes
  | [] => some []
  | [_] => none
  | hi :: lo :: rest => do
    let h ← hexValue hi
    let l ← hexValue lo
    return (h * 16 + l) :: (← hexPairs rest)

/-- The strict inverse of `toHex`. -/
def fromHex (text : Text) : Option Bytes := hexPairs (bytes text)

def digitByte (n : Nat) : UInt8 := UInt8.ofNat n.digitChar.toNat

theorem bytes_digitChar {n : Nat} (h : n < 16) : bytes [n.digitChar] = [digitByte n] := by
  have digit : ∀ n : Fin 16, bytes [n.val.digitChar] = [digitByte n] := by decide
  exact digit ⟨n, h⟩

theorem hexValue_digitByte {n : Nat} (h : n < 16) : hexValue (digitByte n) = some (UInt8.ofNat n) := by
  have digit : ∀ n : Fin 16, hexValue (digitByte n) = some (UInt8.ofNat n) := by decide
  exact digit ⟨n, h⟩

theorem bytes_toHex_cons (b : UInt8) (bs : Bytes) : bytes (toHex (b :: bs)) =
    digitByte (b.toNat / 16) :: digitByte (b.toNat % 16) :: bytes (toHex bs) := by
  have hb := b.toNat_lt
  have hhi := @bytes_digitChar (b.toNat / 16) (by omega)
  have hlo := @bytes_digitChar (b.toNat % 16) (by omega)
  calc bytes (toHex (b :: bs))
    _ = bytes ([(b.toNat / 16).digitChar] ++ ([(b.toNat % 16).digitChar] ++ toHex bs)) := rfl
    _ = _ := by
      rw [bytes_append, bytes_append, hhi, hlo]
      rfl

theorem digits_value (b : UInt8) : UInt8.ofNat (b.toNat / 16) * 16 + UInt8.ofNat (b.toNat % 16) = b := by
  apply UInt8.toNat_inj.1
  simp only [UInt8.toNat_add, UInt8.toNat_mul, UInt8.toNat_ofNat', UInt8.reduceToNat]
  have hb := b.toNat_lt
  omega

/-- **The round trip of a stored value.** -/
@[simp]
theorem fromHex_toHex (bs : Bytes) : fromHex (toHex bs) = some bs := by
  induction bs with
  | nil => rfl
  | cons b bs ih =>
    have hb := b.toNat_lt
    rw [fromHex] at ih
    rw [fromHex, bytes_toHex_cons, hexPairs, hexValue_digitByte (by omega), hexValue_digitByte (by omega), ih]
    exact congrArg (fun b => some (b :: bs)) (digits_value b)

/-- `{:04x}`. -/
def hex4 (n : UInt16) : Text :=
  [(n.toNat / 4096).digitChar, (n.toNat / 256 % 16).digitChar, (n.toNat / 16 % 16).digitChar,
    (n.toNat % 16).digitChar]

namespace CameraIdentity

def usbId (id : CameraIdentity) : Text := hex4 id.vid ++ ':' :: hex4 id.pid

def configurationValue (id : CameraIdentity) : Option UInt8 :=
  (Uvc.activeDescriptorView id.descriptors id.activeConfiguration).map fun _ => id.activeConfiguration

def configurationDomain : Bytes := bytes "irlume-usb-configuration-v1" ++ [0]

variable [Sha256]

/-- Bound to the active configuration, but for the historical digest of a camera with one. -/
def descriptorFingerprint (id : CameraIdentity) : Text :=
  if id.descriptors[17]? = some 1 && id.configurationValue.isSome then sha256Hex id.descriptors
  else sha256Hex (configurationDomain ++ id.activeConfiguration :: id.descriptors)

end CameraIdentity

/-! ## File names -/

section

variable [Sha256]

def fingerprint (id : CameraIdentity) : Text := id.descriptorFingerprint

/-- The parts are length-prefixed, so that no serial can pass for a different pairing. -/
def keyMaterial (descriptorSha256 : Text) (serial : Option Text) (usbDevpath : Text) : Text :=
  let serial := serial.getD []
  "descriptors:".toList ++ descriptorSha256 ++ "|serial:".toList ++ decimal (byteLength serial) ++
    ':' :: serial ++ "|devpath:".toList ++ decimal (byteLength usbDevpath) ++ ':' :: usbDevpath

def keyOf (descriptorSha256 : Text) (serial : Option Text) (usbDevpath : Text) : Text :=
  sha256Hex (bytes (keyMaterial descriptorSha256 serial usbDevpath))

/-- The name the undo record and the stream record of a camera are filed under. -/
def filingKey (id : CameraIdentity) : Text := keyOf (fingerprint id) id.serial id.usbDevpath

def legacyFilingKey (id : CameraIdentity) : Text :=
  keyOf (sha256Hex id.descriptors) id.serial id.usbDevpath

def identityAuthorizes (descriptorSha256 usbDevpath : Text) (serial : Option Text)
    (id : CameraIdentity) : Bool :=
  if descriptorSha256 ≠ fingerprint id then false
  else if usbDevpath = [] || usbDevpath ≠ id.usbDevpath then false
  else
    match serial, id.serial with
    | some recorded, some attached => recorded = attached
    | some _, none => false
    | none, _ => true

theorem fingerprint_of_identityAuthorizes {descriptorSha256 usbDevpath : Text} {serial : Option Text}
    {id : CameraIdentity} (h : identityAuthorizes descriptorSha256 usbDevpath serial id = true) :
    descriptorSha256 = fingerprint id := by
  by_contra hne
  unfold identityAuthorizes at h
  rw [if_pos hne] at h
  cases h

theorem usbDevpath_of_identityAuthorizes {descriptorSha256 usbDevpath : Text} {serial : Option Text}
    {id : CameraIdentity} (h : identityAuthorizes descriptorSha256 usbDevpath serial id = true) :
    usbDevpath = id.usbDevpath := by
  have hd := fingerprint_of_identityAuthorizes h
  by_contra hne
  unfold identityAuthorizes at h
  simp [hd, hne] at h

end

/-! ## A camera -/

/-- The laptop's configuration, with a Microsoft unit that advertises face authentication and the
infrared torch. -/
def torchConfiguration : Bytes :=
  [9, 0x02, 86, 0, 2, 1, 0, 0x80, 250] ++ [9, 0x04, 0, 0, 0, 0x0E, 1, 0, 0] ++
    [13, 0x24, 1, 0x50, 0x01, 59, 0, 0, 0, 0, 0, 1, 1] ++ [8, 0x24, 2, 1, 0, 2, 0, 0] ++
    ([29, 0x24, 6, 4] ++ Uvc.msCameraControlXu.toList ++ [2, 1, 1, 4, 0x20, 2, 0, 0, 0]) ++
    [9, 0x24, 3, 2, 1, 1, 0, 4, 0] ++ [9, 0x04, 1, 0, 0, 0x0E, 2, 0, 0]

def laptop : CameraIdentity where
  descriptors := Uvc.laptopDevice ++ torchConfiguration
  activeConfiguration := 1
  interfaceNumber := 0
  vid := 0x04f2
  pid := 0xb60c
  serial := some "200901010001"
  usbDevpath := "/devices/usb1/1-4"

abbrev keepingDigest : Sha256 := ⟨fun bs => bs.map asciiChar⟩

end Irlume.Emitter

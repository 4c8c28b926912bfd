import Irlume.Emitter.Recovery

/-!
# The value setup would apply

Nothing is written to a control but what the camera says of it: the default of the infrared torch,
once the default, the minimum, the maximum and the resolution agree with the specification, and for
face authentication the mode each interface advertises.
-/

namespace Irlume.Emitter

open Irlume.Lib
open Uvc.ExtensionUnit (countOnes)

def msxuIrTorch : UInt8 := 0x0A

/-- What about a control does not follow the specification. -/
inductive PayloadRefusal where
  | lengths
  | tooShort
  | noEntries
  | tooManyEntries
  | defaultTooManyEntries
  | entryCounts
  | undefinedFlags
  | reservedBits
  | notOneMode
  | backgroundSubtraction
  | listedTwice
  | otherInterface
  | defaultMode
  | dataPastEntries
  | notEightBytes
  | unreadable
  | inactiveDefault
  | noOffMode
  | undefinedModes
  | minimumMode
  | unsupportedDefault
  | invertedRange
  | defaultOutOfRange
  | resolutionMode
  | zeroStep
  | unevenRange
  | offGrid
  /-- `GET_INFO` of the infrared torch is not exactly 3. -/
  | torchInfo
  /-- No refusal: an index past the end, where the source would panic. -/
  | indexOutOfRange

/-- `b[i]`. -/
def index (b : Bytes) (i : Nat) : Except PayloadRefusal UInt8 := okOr b[i]? .indexOutOfRange

/-- `b[start..stop]`. -/
def range (b : Bytes) (start stop : Nat) : Except PayloadRefusal Bytes :=
  if start ≤ stop ∧ stop ≤ b.length then .ok ((b.drop start).take (stop - start))
  else .error .indexOutOfRange

/-! ## Face authentication -/

def d1AlternativeIllumination : UInt8 := 2
def d2BackgroundSubtraction : UInt8 := 4

def definedModes : UInt8 := 7

/-- The entry from `start` on: the interface and the one mode it advertises. -/
def faceAuthEntry (default max : Bytes) (seen : List UInt8) (start : Nat) :
    Except PayloadRefusal (UInt8 × UInt8) := do
  let interface ← index max start
  let flags ← index max (start + 1)
  if flags &&& ~~~definedModes ≠ 0 then throw .undefinedFlags
  if (← range max (start + 2) (start + 8)).any (· ≠ 0) then throw .reservedBits
  if (← range default (start + 2) (start + 8)).any (· ≠ 0) then throw .reservedBits
  let mode := flags &&& (d1AlternativeIllumination ||| d2BackgroundSubtraction)
  if mode ≠ d1AlternativeIllumination && mode ≠ d2BackgroundSubtraction then throw .notOneMode
  if mode = d2BackgroundSubtraction then throw .backgroundSubtraction
  if interface ∈ seen then throw .listedTwice
  if (← index default start) ≠ interface then throw .otherInterface
  let defaultFlags ← index default (start + 1)
  if defaultFlags &&& ~~~definedModes ≠ 0 || countOnes defaultFlags ≠ 1 then throw .defaultMode
  return (interface, mode)

/-- The entries from the `i`-th on, `left` of them. `seen` are the interfaces before. -/
def faceAuthEntries (default max : Bytes) (seen : List UInt8) (i : Nat) :
    Nat → Except PayloadRefusal (List (UInt8 × UInt8))
  | 0 => return []
  | left + 1 => do
    let entry ← faceAuthEntry default max seen (1 + i * 8)
    return entry :: (← faceAuthEntries default max (seen ++ [entry.1]) (i + 1) left)

/-- One count byte, the entries with one mode each, and the padding. -/
def faceAuthPayload (default max : Bytes) : Except PayloadRefusal Bytes := do
  let len := max.length
  if len ≠ default.length then throw .lengths
  if len < 9 then throw .tooShort
  let count ← index max 0
  let entries := count.toNat
  let capacity := (len - 1) / 8
  if entries = 0 then throw .noEntries
  if capacity < entries then throw .tooManyEntries
  let defaultCount ← index default 0
  if capacity < defaultCount.toNat then throw .defaultTooManyEntries
  if defaultCount ≠ count then throw .entryCounts
  let modes ← faceAuthEntries default max [] 0 entries
  let tail := 1 + entries * 8
  if (← range max tail len).any (· ≠ 0) then throw .dataPastEntries
  if (← range default tail len).any (· ≠ 0) then throw .dataPastEntries
  return count :: modes.flatMap (fun (interface, mode) => [interface, mode, 0, 0, 0, 0, 0, 0]) ++
    List.replicate (len - tail) 0

/-! ## The infrared torch -/

/-- The little-endian 32 bits from `start` on. -/
def dword (b : Bytes) (start : Nat) : Except PayloadRefusal Nat :=
  if start + 4 ≤ b.length then .ok (Reader.littleEndian ((b.drop start).take 4)) else .error .unreadable

def irTorchDefaultIsUsable (default min max res : Bytes) : Except PayloadRefusal Unit := do
  if [default, min, max, res].any (·.length ≠ 8) then throw .notEightBytes
  let defMode ← dword default 0
  let defValue ← dword default 4
  let maxMode ← dword max 0
  let maxValue ← dword max 4
  let minMode ← dword min 0
  let minValue ← dword min 4
  if defMode ≠ 2 && defMode ≠ 4 then throw .inactiveDefault
  if maxMode &&& 1 = 0 then throw .noOffMode
  if 8 ≤ maxMode then throw .undefinedModes
  if minMode ≠ 0 then throw .minimumMode
  if maxMode &&& defMode = 0 then throw .unsupportedDefault
  if maxValue < minValue then throw .invertedRange
  if defValue < minValue || maxValue < defValue then throw .defaultOutOfRange
  let resMode ← dword res 0
  let step ← dword res 4
  if resMode ≠ 0 then throw .resolutionMode
  if step = 0 then throw .zeroStep
  if (maxValue - minValue) % step ≠ 0 then throw .unevenRange
  if (defValue - minValue) % step ≠ 0 then throw .offGrid

/-! ## Deriving the value -/

structure IntendedValue where
  payload : Bytes
  isDeviceDefault : Bool

def intendedFrom (selector : UInt8) (default min max res : Bytes) :
    Except PayloadRefusal IntendedValue :=
  if selector = msxuIrTorch then
    (irTorchDefaultIsUsable default min max res).map fun () =>
      { payload := default, isDeviceDefault := true }
  else
    (faceAuthPayload default max).map fun payload =>
      { payload, isDeviceDefault := payload = default }

def intendedValue (unit selector : UInt8) (len : Nat) :
    Run (Except XuError (Except PayloadRefusal IntendedValue)) :=
  .call (.getOf .default unit selector len) fun
  | .error e => .result (.error e)
  | .ok default =>
    if selector = msxuIrTorch then
      .call (.getInfo unit selector) fun
      | .error e => .result (.error e)
      | .ok info =>
        if info ≠ 3 then .result (.ok (.error .torchInfo))
        else
          .call (.getOf .min unit selector len) fun
          | .error e => .result (.error e)
          | .ok min =>
            .call (.getOf .max unit selector len) fun
            | .error e => .result (.error e)
            | .ok max =>
              .call (.getOf .res unit selector len) fun
              | .error e => .result (.error e)
              | .ok res => .result (.ok (intendedFrom selector default min max res))
    else
      .call (.getOf .max unit selector len) fun
      | .error e => .result (.error e)
      | .ok max => .result (.ok (intendedFrom selector default [] max []))

end Irlume.Emitter

/-!
## Trying a documented control

Discovery writes one advertised control at a time and looks whether the picture follows it.

An `ExploratoryWrite` that goes out of scope restores the control, when the exploratory value is known to be on
a camera that still answers. Rust runs that drop wherever the value ends; here every path that ends one goes
through `leave`.
-/

namespace Irlume.Emitter

open Irlume.Lib
open Uvc (msxuFaceAuthentication)

/-! ## The guard -/

/-- A write under an undo record: saved before the first `SET_CUR`, removed once the control is read back at its
original or once the configuration that names it is on disk. -/
structure ExploratoryWrite where
  unit : UInt8
  selector : UInt8
  original : Bytes
  attempted : Bytes
  recordPath : Text
  /-- The control is confirmed back, or its applied value is recorded in the configuration. -/
  resolved : Bool
  exploratoryValueIsLive : Bool

namespace ExploratoryWrite

def record [Sha256] (id : CameraIdentity) (unit selector : UInt8) (len : Nat)
    (original attempted : Bytes) : PendingWrite where
  schemaVersion := schemaVersion
  descriptorSha256 := fingerprint id
  usbId := id.usbId
  interfaceNumber := id.interfaceNumber
  unit := unit
  selector := selector
  len := len
  original := toHex original
  attempted := toHex attempted
  restoreAttempts := 0
  bootId := none
  pid := none
  serial := id.serial
  usbDevpath := id.usbDevpath

/-- Record the undo data durably. Anything less is a refusal to write at all. -/
def «open» [Sha256] (id : CameraIdentity) (unit selector : UInt8) (len : Nat)
    (original attempted : Bytes) : Run (Option ExploratoryWrite) :=
  let record := record id unit selector len original attempted
  let path := Emitter.recordPath record.filingKey
  .call (.saveAt path record) fun
  | .ok .durable =>
    .result (some { unit, selector, original, attempted, recordPath := path, resolved := false,
                    exploratoryValueIsLive := false })
  | .ok .visibleNotDurable => .result none
  | .error () => .result none

/-- Put the exploratory value on the camera. Armed only if the camera accepted it. -/
def applyExploratory (p : ExploratoryWrite) : Run (Except XuError Unit × ExploratoryWrite) :=
  .call (.setCur p.unit p.selector p.attempted) fun
  | .error e => .result (.error e, { p with exploratoryValueIsLive := false })
  | .ok () => .result (.ok (), { p with exploratoryValueIsLive := true })

/-- Drop the record without touching the camera: nothing has been written. -/
def abandonBeforeWrite (p : ExploratoryWrite) : Run (Except Unit Unit × ExploratoryWrite) :=
  .call (.clear p.recordPath) fun
  | .error () => .result (.error (), p)
  | .ok () => .result (.ok (), { p with resolved := true })

def restoreOnce (p : ExploratoryWrite) : Run (Except XuError Unit × ExploratoryWrite) :=
  .call (.setCur p.unit p.selector p.original) fun answer =>
    .result (answer, { p with exploratoryValueIsLive := false })

def verifyRestored (p : ExploratoryWrite) : Run (Except Unit Unit) :=
  .call (getCur p.unit p.selector p.original.length) fun
  | .error _ => .result (.error ())
  | .ok now => .result (if now = p.original then .ok () else .error ())

def confirmRestored (p : ExploratoryWrite) : Run (Except Unit Unit × ExploratoryWrite) :=
  p.verifyRestored >>= fun
  | .error () => .result (.error (), p)
  | .ok () =>
    .call (.clear p.recordPath) fun
    | .error () => .result (.error (), p)
    | .ok () => .result (.ok (), { p with resolved := true })

/-- The configuration that names the control is durable: drop the record. -/
def commit (p : ExploratoryWrite) : Run (Except Unit Unit × ExploratoryWrite) :=
  .call (.clear p.recordPath) fun
  | .error () => .result (.error (), p)
  | .ok () => .result (.ok (), { p with resolved := true })

/-- An error here disarms the guard: the camera has just failed to answer. -/
def readApplied (p : ExploratoryWrite) : Run (Except XuError Bytes × ExploratoryWrite) :=
  .call (getCur p.unit p.selector p.attempted.length) fun
  | .error e => .result (.error e, { p with exploratoryValueIsLive := false })
  | .ok now => .result (.ok now, p)

def confirmApplied (p : ExploratoryWrite) : Run (Except Unit Unit × ExploratoryWrite) :=
  p.readApplied >>= fun
  | (.error _, p) => .result (.error (), p)
  | (.ok now, p) => .result (if now = p.attempted then .ok () else .error (), p)

def drop (p : ExploratoryWrite) : Run Unit :=
  if p.resolved || !p.exploratoryValueIsLive then .result ()
  else
    .call (.setCur p.unit p.selector p.original) fun
    | .error _ => .result ()
    | .ok () => { p with exploratoryValueIsLive := false }.confirmRestored >>= fun _ => .result ()

/-- Leave the scope of the guard with `a`. -/
def leave {α : Type} (p : ExploratoryWrite) (a : α) : Run α := p.drop >>= fun () => .result a

variable {p : ExploratoryWrite}

theorem leave_of_resolved {α : Type} (h : p.resolved = true) (a : α) : p.leave a = .result a := by
  simp [leave, drop, h]

theorem leave_of_disarmed {α : Type} (h : p.exploratoryValueIsLive = false) (a : α) :
    p.leave a = .result a := by
  simp [leave, drop, h]

end ExploratoryWrite

/-! ## One control -/

structure EmitterControl where
  unit : UInt8
  selector : UInt8
  payload : Bytes

/-- What one advertised control turned out to be. -/
inductive Attempt where
  /-- Lit, still holding the applied value, with its undo record open. -/
  | lit (control : EmitterControl) (pending : ExploratoryWrite)
  | activeByDeviceDefault (control : EmitterControl)
  | alreadyApplied
  | inconclusive
  | notUsable

inductive TryFailure where
  | query (e : XuError)
  | restore (e : XuError)
  | journal
  | measurement
  | guard

abbrev Tried : Type := Except TryFailure Attempt

namespace ExploratoryWrite

def abandon (p : ExploratoryWrite) (r : Tried) : Run Tried :=
  p.abandonBeforeWrite >>= fun
  | (.error (), p) => p.leave (.error .journal)
  | (.ok (), p) => p.leave r

def confirm (p : ExploratoryWrite) (r : Tried) : Run Tried :=
  p.confirmRestored >>= fun
  | (.error (), p) => p.leave (.error .journal)
  | (.ok (), p) => p.leave r

def undo (p : ExploratoryWrite) (r : Tried) : Run Tried :=
  p.restoreOnce >>= fun
  | (.error e, p) => p.leave (.error (.restore e))
  | (.ok (), p) => p.confirm r

/-- The picture followed the control both ways: apply it, and keep the record open. -/
def applyForGood (p : ExploratoryWrite) : Run Tried :=
  .call .abortRequested fun
  | true => p.leave (.error .measurement)
  | false =>
    .call .beforeForwardWrite fun
    | .error () => p.confirm (.error .guard)
    | .ok () =>
      p.applyExploratory >>= fun
      | (.error e, p) => p.leave (.error (.query e))
      | (.ok (), p) =>
        .result (.ok (.lit { unit := p.unit, selector := p.selector, payload := p.attempted } p))

end ExploratoryWrite

/-- The evidence of three measurements, taken before the write, under it, and after undoing it. -/
def conclude (before lit afterRestore : SetupMeasurement) (p : ExploratoryWrite) : Run Tried :=
  let faceAuth : Bool := p.selector = msxuFaceAuthentication
  let proves (m : SetupMeasurement) : Bool := m.d1Metadata.any D1MetadataEvidence.provesD1
  let contradicts (m : SetupMeasurement) : Bool := m.d1Metadata.any D1MetadataEvidence.contradictsD1
  let metadataProvesD1 := faceAuth && proves lit && contradicts before && contradicts afterRestore
  let opticalProvesD1 := faceAuth && lit.d1Optical = some .proven && before.d1Optical = some .refuted &&
    afterRestore.d1Optical = some .refuted
  if faceAuth && proves lit && (proves before || proves afterRestore) then p.confirm (.ok .inconclusive)
  else if metadataProvesD1 || opticalProvesD1 then p.applyForGood
  else
    .call (.tooWeak before.brightness lit.brightness) fun
    | true => p.confirm (.ok .inconclusive)
    | false =>
      .call (.stayedBright lit.brightness afterRestore.brightness) fun
      | true => p.confirm (.ok .inconclusive)
      | false => if faceAuth then p.confirm (.ok .inconclusive) else p.applyForGood

/-- Put the control back and measure once more, unless the metadata contradict the write already. -/
def judge (before lit : SetupMeasurement) (p : ExploratoryWrite) : Run Tried :=
  if p.selector = msxuFaceAuthentication && lit.d1Metadata.any D1MetadataEvidence.contradictsD1 then
    p.undo (.ok .inconclusive)
  else
    p.restoreOnce >>= fun
    | (.error e, p) => p.leave (.error (.restore e))
    | (.ok (), p) =>
      p.verifyRestored >>= fun
      | .error () => p.leave (.error .journal)
      | .ok () =>
        .call .measure fun
        | none => p.confirm (.error .measurement)
        | some afterRestore => conclude before lit afterRestore p

def explore (before : SetupMeasurement) (len : Nat) (p : ExploratoryWrite) : Run Tried :=
  .call (getCur p.unit p.selector len) fun
  | .error e => p.leave (.error (.query e))
  | .ok now =>
    if now ≠ p.original then p.abandon (.ok .notUsable)
    else
      .call .abortRequested fun
      | true => p.leave (.error .measurement)
      | false =>
        .call .beforeForwardWrite fun
        | .error () => p.abandon (.error .guard)
        | .ok () =>
          p.applyExploratory >>= fun
          | (.error e, p) => p.leave (.error (.query e))
          | (.ok (), p) =>
            p.readApplied >>= fun
            | (.error e, p) => p.leave (.error (.query e))
            | (.ok applied, p) =>
              if applied ≠ p.attempted then p.undo (.ok .notUsable)
              else
                .call .measure fun
                | none => p.undo (.error .measurement)
                | some lit => judge before lit p

def alreadySet (unit selector : UInt8) (len : Nat) (original : Bytes) (intended : IntendedValue) :
    Run Tried :=
  .call (getCur unit selector len) fun
  | .error e => .result (.error (.query e))
  | .ok now =>
    if now ≠ original then .result (.ok .notUsable)
    else if intended.isDeviceDefault then
      .result (.ok (.activeByDeviceDefault { unit, selector, payload := intended.payload }))
    else .result (.ok .alreadyApplied)

section

variable [Sha256]

/-- Try one advertised control, leaving it as it was found unless it worked. -/
def tryDocumentedControl (id : CameraIdentity) (unit selector : UInt8) : Run Tried :=
  .call (.getInfo unit selector) fun
  | .error e => .result (.error (.query e))
  | .ok info =>
    if !infoAllowsSet info then .result (.ok .notUsable)
    else
      .call (.getLen unit selector) fun
      | .error e => .result (.error (.query e))
      | .ok len =>
        .call (getCur unit selector len) fun
        | .error e => .result (.error (.query e))
        | .ok original =>
          intendedValue unit selector len >>= fun
          | .error e => .result (.error (.query e))
          | .ok (.error _) => .result (.ok .notUsable)
          | .ok (.ok intended) =>
            if original = intended.payload then alreadySet unit selector len original intended
            else
              .call .measure fun
              | none => .result (.error .measurement)
              | some before =>
                .call .abortRequested fun
                | true => .result (.error .measurement)
                | false =>
                  ExploratoryWrite.open id unit selector len original intended.payload >>= fun
                  | none => .result (.error .journal)
                  | some p => explore before len p

/-! ## A discovery run -/

inductive DiscoveryOutcome where
  | applied (control : EmitterControl) (pending : ExploratoryWrite)
  | activeByDeviceDefault (control : EmitterControl)

inductive DiscoveryError where
  | noMicrosoftXu
  | cameraBusy
  | journalUnwritable
  | unresolvedChange
  | measurementFailed
  | restoreFailed (unit selector : UInt8) (e : XuError)
  | writeRefused
  | unresponsive (unit selector : UInt8) (e : XuError)
  | inconclusive (unit : UInt8)
  | noUsableControl (unit : UInt8)

abbrev Discovery : Type := Except DiscoveryError DiscoveryOutcome

def trySelectors (id : CameraIdentity) (ms : Uvc.ExtensionUnit) :
    List UInt8 → Bool → Run Discovery
  | [], sawInconclusive =>
    .result (.error (if sawInconclusive then .inconclusive ms.unitId else .noUsableControl ms.unitId))
  | selector :: rest, sawInconclusive =>
    if !ms.advertises selector then trySelectors id ms rest sawInconclusive
    else
      tryDocumentedControl id ms.unitId selector >>= fun
      | .ok (.lit control pending) => .result (.ok (.applied control pending))
      | .ok (.activeByDeviceDefault control) => .result (.ok (.activeByDeviceDefault control))
      | .ok .alreadyApplied => trySelectors id ms rest sawInconclusive
      | .ok .inconclusive => trySelectors id ms rest true
      | .ok .notUsable => trySelectors id ms rest sawInconclusive
      | .error .measurement => .result (.error .measurementFailed)
      | .error (.restore e) => .result (.error (.restoreFailed ms.unitId selector e))
      | .error .journal => .result (.error .journalUnwritable)
      | .error .guard => .result (.error .writeRefused)
      | .error (.query e) => .result (.error (.unresponsive ms.unitId selector e))

/-- One lock for the whole run: the recovery pass, the writes, and the records of them. -/
def discover (id : CameraIdentity) : Run Discovery :=
  match id.microsoftXu with
  | none => .result (.error .noMicrosoftXu)
  | some ms =>
    .call .lockCamera fun
    | .ok false => .result (.error .cameraBusy)
    | .error () => .result (.error .journalUnwritable)
    | .ok true =>
      recoverPendingWriteLocked id >>= fun recovery =>
        if recovery.blocksDiscovery then .result (.error .unresolvedChange)
        else trySelectors id ms [msxuIrTorch, msxuFaceAuthentication] false

end

/-- Confirm the applied value, publish the configuration, release the record, in this order. A
configuration that is visible though its save failed keeps the record and the value. -/
def finish (id : CameraIdentity) (control : EmitterControl) (p : ExploratoryWrite) :
    Run (Except Unit Unit) :=
  p.confirmApplied >>= fun
  | (.error (), p) => p.leave (.error ())
  | (.ok (), p) =>
    .call (.saveConf id.usbId control.unit control.selector) fun
    | .error () =>
      .call (.loadConf id.usbId) fun found =>
        if found = some (control.unit, control.selector) then
          { p with exploratoryValueIsLive := false }.leave (.error ())
        else p.leave (.error ())
    | .ok () =>
      p.commit >>= fun
      | (.error (), p) => p.leave (.error ())
      | (.ok (), p) => p.leave (.ok ())

/-- What a process does to a camera under its lock. -/
inductive Session where
  | recovery (id : CameraIdentity)
  | discovery (id : CameraIdentity)

def Session.id : Session → CameraIdentity
  | .recovery id => id
  | .discovery id => id

def Session.program [Sha256] : Session → Run Unit
  | .recovery id => recoverPendingWrite id >>= fun _ => .result ()
  | .discovery id =>
    discover id >>= fun
    | .ok (.applied control pending) =>
      .call .callerFinishes fun
      | true => finish id control pending >>= fun _ => .result ()
      | false => pending.drop
    | _ => .result ()

end Irlume.Emitter

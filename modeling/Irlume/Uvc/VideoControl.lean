import Irlume.Lib.ByteReader
import Irlume.Lib.Frames
import Mathlib.Data.Finset.Card
import Std.Data.ExtTreeMap

/-!
# USB descriptors and extension units

A descriptor chain is walked by `bLength`: each descriptor is a frame.
-/

namespace Irlume.Uvc

open Irlume.Lib

/-! ## Constants -/

/-- The unit of Microsoft's UVC extensions, in descriptor byte order. -/
def msCameraControlXu : Vector UInt8 16 :=
  #v[0xDC, 0x95, 0x3F, 0x0F, 0x32, 0x26, 0x4E, 0x4C, 0x92, 0xC9, 0xA0, 0x47, 0x82, 0xF4, 0x3B, 0xC8]

def msxuFaceAuthentication : UInt8 := 0x06

def descDevice : UInt8 := 0x01
def descConfiguration : UInt8 := 0x02
def descInterface : UInt8 := 0x04
def descEndpoint : UInt8 := 0x05
def descCsInterface : UInt8 := 0x24
def subtypeVcHeader : UInt8 := 0x01
def subtypeInputTerminal : UInt8 := 0x02
def subtypeOutputTerminal : UInt8 := 0x03
def subtypeSelectorUnit : UInt8 := 0x04
def subtypeProcessingUnit : UInt8 := 0x05
def subtypeExtensionUnit : UInt8 := 0x06
def subtypeEncodingUnit : UInt8 := 0x07
def classVideo : UInt8 := 0x0E
def subclassVideocontrol : UInt8 := 0x01
def subclassVideostreaming : UInt8 := 0x02

/-! ## Walking a chain -/

def byte (d : List UInt8) (i : Nat) : UInt8 := d.getD i 0

/-- The bytes of a descriptor from `start` on, `count` of them. -/
def slice (d : List UInt8) (start count : Nat) : Option (List UInt8) :=
  if start + count ≤ d.length then some ((d.drop start).take count) else none

/-- A walk that meets a broken frame or refuses a descriptor gives nothing of what it read before, so the chain
is cut into frames first. -/
def walk {σ : Type} (step : σ → List UInt8 → Option σ) (start : σ) (desc : List UInt8) : Option σ :=
  (frames desc).bind fun ds => ds.foldlM step start

/-! ## Extension units -/

structure ExtensionUnit where
  unitId : UInt8
  guid : Vector UInt8 16
  /-- A little-endian bitmap: bit 0 is selector 1. -/
  bmControls : List UInt8
  /-- The count the descriptor claims. -/
  numControls : UInt8

namespace ExtensionUnit

def isMicrosoftXu (unit : ExtensionUnit) : Bool := unit.guid = msCameraControlXu

def countOnes (b : UInt8) : Nat := (List.range 8).countP fun i => b.toNat.testBit i

def bitmapIsSelfConsistent (unit : ExtensionUnit) : Bool :=
  (unit.bmControls.map countOnes).sum ≤ unit.numControls.toNat

/-- A unit that sets more bits than it claims advertises nothing. -/
def advertises (unit : ExtensionUnit) (selector : UInt8) : Bool :=
  if selector = 0 then false
  else if !unit.bitmapIsSelfConsistent then false
  else
    let bit := (selector - 1).toNat
    match unit.bmControls[bit / 8]? with
    | some b => b &&& (1 <<< UInt8.ofNat (bit % 8)) ≠ 0
    | none => false

end ExtensionUnit

/-- Layout: `bUnitID` at 3, `guidExtensionCode` at 4, `bNumControls` at 20, `bNrInPins` at 21, its pins,
`bControlSize`, `bmControls`. -/
def parseExtensionUnit (d : List UInt8) : Option ExtensionUnit := do
  let unitId ← d[3]?
  let guid ← toVector? 16 (← slice d 4 16)
  let numInPins ← d[21]?
  let controlSizeAt := 22 + numInPins.toNat
  let controlSize ← d[controlSizeAt]?
  let bmControls ← slice d (controlSizeAt + 1) controlSize.toNat
  let numControls ← d[20]?
  return { unitId, guid, bmControls, numControls }

/-! ## The write path -/

structure UnitWalk where
  out : List ExtensionUnit := []
  inTargetVc : Bool := false
  configurations : Nat := 0

def UnitWalk.step (interfaceNumber : UInt8) (s : UnitWalk) (d : List UInt8) : Option UnitWalk :=
  if byte d 1 = descConfiguration then
    if s.configurations + 1 ≠ 1 ∨ d.length < 9 ∨ byte d 5 = 0 then none
    else some { s with configurations := s.configurations + 1, inTargetVc := false }
  else if byte d 1 = descInterface then
    if d.length < 9 then none
    else
      some { s with
        inTargetVc := byte d 2 = interfaceNumber && s.configurations = 1 && byte d 5 = classVideo &&
          byte d 6 = subclassVideocontrol }
  else if byte d 1 = descCsInterface ∧ s.inTargetVc then
    if d.length < 3 then none
    else if byte d 2 = subtypeExtensionUnit then
      (parseExtensionUnit d).map fun unit => { s with out := s.out ++ [unit] }
    else some s
  else some s

/-- The parser of the write path: the units it returns are the ones whose controls may be written. -/
def extensionUnitsForInterface (desc : List UInt8) (interfaceNumber : UInt8) : List ExtensionUnit :=
  ((walk (UnitWalk.step interfaceNumber) {} desc).map UnitWalk.out).getD []

/-! ## The active configuration -/

/-- Where the search for the active configuration is, `pos` in the whole blob. -/
structure ViewWalk where
  pos : Nat
  seen : Finset UInt8 := ∅
  count : Nat := 0
  prefixEnd : Option Nat := none
  selected : Option (Nat × Nat) := none
  current : Option (UInt8 × Nat) := none

/-- The configuration read last ends at `stop`. -/
def ViewWalk.close (active : UInt8) (s : ViewWalk) (stop : Nat) : ViewWalk :=
  match s.current with
  | some (value, start) => if value = active then { s with selected := some (start, stop) } else s
  | none => s

def ViewWalk.step (active : UInt8) (s : ViewWalk) (d : List UInt8) : Option ViewWalk :=
  if byte d 1 = descDevice then none
  else if byte d 1 = descConfiguration then
    if d.length < 9 then none
    else
      let s := s.close active s.pos
      let value := byte d 5
      if value = 0 ∨ value ∈ s.seen then none
      else
        some { s with
          seen := insert value s.seen
          count := s.count + 1
          prefixEnd := some (s.prefixEnd.getD s.pos)
          current := some (value, s.pos)
          pos := s.pos + d.length }
  else if byte d 1 = descInterface ∧ (d.length < 9 ∨ s.current = none) then none
  else some { s with pos := s.pos + d.length }

/-- The bytes before the first configuration and those of the active one. -/
def activeDescriptorView (raw : List UInt8) (active : UInt8) : Option (List UInt8) := do
  if active = 0 ∨ raw.length < 18 ∨ byte raw 0 ≠ 18 ∨ byte raw 1 ≠ descDevice then failure
  let s ← walk (ViewWalk.step active) { pos := 18 } (raw.drop 18)
  let s := s.close active raw.length
  if s.count ≠ (byte raw 17).toNat then failure
  let (start, stop) ← s.selected
  let prefixEnd ← s.prefixEnd
  return raw.take prefixEnd ++ (raw.take stop).drop start

end Irlume.Uvc

/-!
## The role of a VideoControl function

The strict walk that decides a camera's role. Its framing rules are those of the write path; beyond
them it refuses a function whose header, endpoints, alternates or entity graph are inconsistent.
`WalkState` has one update for each kind of descriptor and, in a VideoControl block, for each subtype.

`irFunctionEvidence` is what it decides: whether the function attests an infrared stream.
-/

namespace Irlume.Uvc

open Irlume.Lib Std

def puColourControls : UInt32 := 0x000038CC

/-- Entity ID to subtype and source IDs. -/
abbrev Entities := ExtTreeMap UInt8 (UInt8 × List UInt8)

structure VideoControlFunction where
  streamingInterfaces : List UInt8
  processingControls : List UInt32
  extensionUnits : List ExtensionUnit

/-- What a strict walk of one configuration found at an interface number. -/
inductive VideoControlWalk where
  | function (function : VideoControlFunction)
  | notVideoControl

/-! ## The source graph -/

def sourcesFit (entities : Entities) (id subtype : UInt8) (sources : List UInt8) : Bool :=
  !(subtype ≠ 2 && sources.isEmpty) && sources.all fun source =>
    source ≠ 0 && source ≠ id &&
      match entities[source]? with
      | some (subtype, _) => subtype ≠ 3
      | none => false

/-- One pass over the entities, in the order of their IDs: each is placed whose sources are. -/
def placeEntities (entities : Entities) (placed : Finset UInt8) : Finset UInt8 :=
  entities.toList.foldl (fun placed e =>
    if e.1 ∉ placed ∧ e.2.2.all (· ∈ placed) then insert e.1 placed else placed) placed

/-- Passes until all are placed or one places none; `n` bounds the passes that place one. -/
def placeAll (entities : Entities) : Nat → Finset UInt8 → Bool
  | 0, placed => (placeEntities entities placed).card = entities.size
  | n + 1, placed =>
    let next := placeEntities entities placed
    if next.card = entities.size then true
    else if next.card = placed.card then false
    else placeAll entities n next

def sourceGraphIsSound (entities : Entities) : Bool :=
  entities.toList.all (fun e => sourcesFit entities e.1 e.2.1 e.2.2) &&
    placeAll entities entities.size ∅

/-! ## The walk -/

structure WalkState where
  inTargetVc : Bool := false
  foundTargetVc : Bool := false
  configurations : Nat := 0
  declaredInterfaces : Nat := 0
  vcBlockClosed : Bool := false
  entities : Entities := ∅
  headerTotal : Option Nat := none
  blockLength : Nat := 0
  endpointCount : Option Nat := none
  endpointAddresses : Finset UInt8 := ∅
  headers : Nat := 0
  uvcVersion : Option Nat := none
  streamingInterfaces : List UInt8 := []
  processingControls : List UInt32 := []
  extensionUnits : List ExtensionUnit := []
  videostreaming : Finset UInt8 := ∅
  interfaceAlternates : Finset (UInt8 × UInt8) := ∅

/-- `u16::from_le_bytes` of two bytes that may be missing. -/
def le16 (d : List UInt8) (i : Nat) : Option Nat := do
  let low ← d[i]?
  let high ← d[i + 1]?
  return low.toNat + 256 * high.toNat

/-- `bmControls` of a Processing Unit, its first four bytes read little-endian. -/
def processingUnitControls (d : List UInt8) : Option UInt32 := do
  let size ← d[7]?
  let bitmap ← slice d 8 size.toNat
  return (bitmap.take 4).zipIdx.foldl (fun bits e => bits ||| (e.1.toUInt32 <<< UInt32.ofNat (8 * e.2))) 0

namespace WalkState

def endpointsDiffer (s : WalkState) : Bool :=
  s.endpointCount.any fun count => count ≠ s.endpointAddresses.card

def configuration (s : WalkState) (d : List UInt8) : Option WalkState :=
  if s.configurations + 1 ≠ 1 ∨ d.length < 9 ∨ byte d 5 = 0 then none
  else
    some { s with
      configurations := s.configurations + 1
      declaredInterfaces := (byte d 4).toNat
      inTargetVc := false }

def interface (interfaceNumber : UInt8) (s : WalkState) (d : List UInt8) : Option WalkState :=
  if d.length < 9 then none
  else if s.endpointsDiffer then none
  else if s.configurations ≠ 1 ∨ (byte d 2, byte d 3) ∈ s.interfaceAlternates then none
  else
    let video := s.configurations = 1 && byte d 5 = classVideo
    let streams := video && byte d 6 = subclassVideostreaming && byte d 3 = 0 && byte d 2 ≠ interfaceNumber
    let inTargetVc := video && byte d 2 = interfaceNumber && byte d 6 = subclassVideocontrol
    if inTargetVc && (byte d 3 ≠ 0 || s.foundTargetVc) then none
    else
      some { s with
        endpointCount := some (byte d 4).toNat
        endpointAddresses := ∅
        interfaceAlternates := insert (byte d 2, byte d 3) s.interfaceAlternates
        videostreaming := if streams then insert (byte d 2) s.videostreaming else s.videostreaming
        inTargetVc
        foundTargetVc := s.foundTargetVc || inTargetVc
        vcBlockClosed := false }

/-! ### Terminals and units -/

def addEntity (s : WalkState) (d : List UInt8) : Option WalkState :=
  if 2 ≤ byte d 2 ∧ byte d 2 ≤ 7 then
    d[3]?.bind fun id =>
      if id = 0 ∨ id ∈ s.entities then none
      else some { s with entities := s.entities.insert id (byte d 2, []) }
  else some s

def addSources (s : WalkState) (d : List UInt8) (sources : List UInt8) : Option WalkState :=
  s.entities[byte d 3]?.map fun e =>
    { s with entities := s.entities.insert (byte d 3) (e.1, e.2 ++ sources) }

def header (s : WalkState) (d : List UInt8) : Option WalkState := do
  let version ← le16 d 3
  if version ≠ 0x0100 ∧ version ≠ 0x0110 ∧ version ≠ 0x0150 then failure
  let total ← le16 d 5
  let count ← d[11]?
  let streamingInterfaces ← slice d 12 count.toNat
  return { s with
    headers := s.headers + 1
    uvcVersion := some version
    headerTotal := some total
    streamingInterfaces }

/-- `bmVideoStandards` closes the descriptor since UVC 1.1. -/
def processingUnitMinimum (version : Nat) : Nat := if 0x0110 ≤ version then 10 else 9

def processingUnit (s : WalkState) (d : List UInt8) : Option WalkState := do
  let size ← d[7]?
  let version ← s.uvcVersion
  if d.length < processingUnitMinimum version + size.toNat then failure
  let controls ← processingUnitControls d
  { s with processingControls := s.processingControls ++ [controls] }.addSources d [byte d 4]

/-- The least length of an input terminal: cameras and media transports carry control data. -/
def inputTerminalMinimum (d : List UInt8) : Option Nat := do
  let terminal ← le16 d 4
  if terminal = 0x0201 then
    let controls ← d[14]?
    return 15 + controls.toNat
  else if terminal = 0x0202 then
    let controls ← d[8]?
    let modes ← d[9 + controls.toNat]?
    return 10 + controls.toNat + modes.toNat
  else return 8

def inputTerminal (s : WalkState) (d : List UInt8) : Option WalkState := do
  let minimum ← inputTerminalMinimum d
  if d.length < minimum then failure
  return s

def outputTerminal (s : WalkState) (d : List UInt8) : Option WalkState :=
  if d.length < 9 then none else s.addSources d [byte d 7]

def selectorUnit (s : WalkState) (d : List UInt8) : Option WalkState := do
  let pins ← d[4]?
  if d.length < 6 + pins.toNat then failure
  s.addSources d ((d.drop 5).take pins.toNat)

def encodingUnit (s : WalkState) (d : List UInt8) : Option WalkState := do
  let version ← s.uvcVersion
  if version ≠ 0x0150 then failure
  let size ← d[6]?
  if d.length < 7 + 2 * size.toNat then failure
  s.addSources d [byte d 4]

def extensionUnit (s : WalkState) (d : List UInt8) : Option WalkState := do
  let pins ← d[21]?
  let size ← d[22 + pins.toNat]?
  if d.length < 24 + pins.toNat + size.toNat then failure
  let unit ← parseExtensionUnit d
  { s with extensionUnits := s.extensionUnits ++ [unit] }.addSources d ((d.drop 22).take pins.toNat)

def subtype (s : WalkState) (d : List UInt8) : Option WalkState :=
  if byte d 2 = subtypeVcHeader then s.header d
  else if byte d 2 = subtypeProcessingUnit then s.processingUnit d
  else if byte d 2 = subtypeInputTerminal then s.inputTerminal d
  else if byte d 2 = subtypeOutputTerminal then s.outputTerminal d
  else if byte d 2 = subtypeSelectorUnit then s.selectorUnit d
  else if byte d 2 = subtypeEncodingUnit then s.encodingUnit d
  else if byte d 2 = subtypeExtensionUnit then s.extensionUnit d
  else none

def control (s : WalkState) (d : List UInt8) : Option WalkState := do
  if d.length < 3 ∨ s.vcBlockClosed then failure
  if byte d 2 ≠ subtypeVcHeader ∧ s.headers ≠ 1 then failure
  let s ← { s with blockLength := s.blockLength + d.length }.addEntity d
  s.subtype d

def endpoint (s : WalkState) (d : List UInt8) : Option WalkState :=
  if d.length < 7 ∨ s.endpointCount = none ∨ byte d 2 &&& 0x0f = 0 ∨ byte d 2 &&& 0x70 ≠ 0 ∨
      byte d 2 ∈ s.endpointAddresses then
    none
  else if s.inTargetVc && (byte d 2 &&& 0x80 = 0 || byte d 3 &&& 0x03 ≠ 0x03) then none
  else
    some { s with
      endpointAddresses := insert (byte d 2) s.endpointAddresses
      vcBlockClosed := s.vcBlockClosed || s.inTargetVc }

def step (interfaceNumber : UInt8) (s : WalkState) (d : List UInt8) : Option WalkState :=
  if byte d 1 = descConfiguration then s.configuration d
  else if byte d 1 = descInterface then s.interface interfaceNumber d
  else if byte d 1 = descCsInterface ∧ s.inTargetVc then s.control d
  else if byte d 1 = descEndpoint then s.endpoint d
  else if s.inTargetVc then some { s with vcBlockClosed := true }
  else some s

/-- What the walk found, once it has read the whole configuration. -/
def finish (s : WalkState) : Option VideoControlWalk :=
  if s.endpointsDiffer then none
  else if (s.interfaceAlternates.image Prod.fst).card ≠ s.declaredInterfaces then none
  else if !s.foundTargetVc then some .notVideoControl
  else if s.headers ≠ 1 then none
  else if s.headerTotal ≠ some s.blockLength then none
  else if !sourceGraphIsSound s.entities then none
  else if s.streamingInterfaces.any (· ∉ s.videostreaming) then none
  else
    some (.function
      { streamingInterfaces := s.streamingInterfaces
        processingControls := s.processingControls
        extensionUnits := s.extensionUnits })

end WalkState

def videoControlWalk (desc : List UInt8) (interfaceNumber : UInt8) : Option VideoControlWalk :=
  (walk (WalkState.step interfaceNumber) {} desc).bind WalkState.finish

def videoControlFunction (desc : List UInt8) (interfaceNumber : UInt8) : Option VideoControlFunction :=
  match videoControlWalk desc interfaceNumber with
  | some (.function function) => some function
  | _ => none

/-! ## Infrared evidence -/

/-- Why a VideoControl function does not attest that its stream is infrared. -/
inductive IrFunctionRefusal where
  | unreadable
  | malformed
  | notVideoControl
  | streamingInterfaces (count : Nat)
  | noMicrosoftXu
  | ambiguousMicrosoftXu
  | noFaceAuthentication
  | colourProcessing (bits : UInt32)
  deriving DecidableEq

structure IrFunctionEvidence where
  msxuUnit : UInt8
  streamingInterface : UInt8
  deriving DecidableEq

def onlyStreamingInterface (function : VideoControlFunction) : Except IrFunctionRefusal UInt8 :=
  match function.streamingInterfaces with
  | [only] => .ok only
  | other => .error (.streamingInterfaces other.length)

def onlyMicrosoftXu (function : VideoControlFunction) : Except IrFunctionRefusal ExtensionUnit :=
  match function.extensionUnits.filter ExtensionUnit.isMicrosoftXu with
  | [only] => .ok only
  | [] => .error .noMicrosoftXu
  | _ => .error .ambiguousMicrosoftXu

def colourControls (function : VideoControlFunction) : UInt32 :=
  function.processingControls.foldl (· ||| ·) 0 &&& puColourControls

def attestingFunction (view : List UInt8) (vcInterface : UInt8) :
    Except IrFunctionRefusal VideoControlFunction :=
  match videoControlWalk view vcInterface with
  | some (.function function) => .ok function
  | some .notVideoControl => .error .notVideoControl
  | none => .error .malformed

def irFunctionEvidence (view : List UInt8) (vcInterface : UInt8) :
    Except IrFunctionRefusal IrFunctionEvidence := do
  let function ← attestingFunction view vcInterface
  let streamingInterface ← onlyStreamingInterface function
  let unit ← onlyMicrosoftXu function
  if !unit.advertises msxuFaceAuthentication then throw .noFaceAuthentication
  if colourControls function ≠ 0 then throw (.colourProcessing (colourControls function))
  return { msxuUnit := unit.unitId, streamingInterface }

/-! ## One camera -/

/-- What the parsers use of an opened camera. -/
structure CameraIdentity where
  descriptors : List UInt8
  activeConfiguration : UInt8
  interfaceNumber : UInt8
  deriving DecidableEq

namespace CameraIdentity

def extensionUnits (id : CameraIdentity) : List ExtensionUnit :=
  ((activeDescriptorView id.descriptors id.activeConfiguration).map fun view =>
    extensionUnitsForInterface view id.interfaceNumber).getD []

def microsoftXu (id : CameraIdentity) : Option ExtensionUnit :=
  match id.extensionUnits.filter ExtensionUnit.isMicrosoftXu with
  | [only] => some only
  | _ => none

def irFunctionEvidence (id : CameraIdentity) : Except IrFunctionRefusal IrFunctionEvidence := do
  let view ← okOr (activeDescriptorView id.descriptors id.activeConfiguration) .malformed
  Uvc.irFunctionEvidence view id.interfaceNumber

end CameraIdentity

end Irlume.Uvc

import Irlume.Lib.ByteReader

/-!
# The TCG event log

The crypto-agile format of the TCG PC Client profile: a Spec ID header that declares the digest
algorithms, then one event after the other, each with one digest for every algorithm. An event that
is cut off or has other digests ends the list there.
-/

namespace Irlume.EventLog

open Irlume.Lib Irlume.Lib.Reader

/-! ## Constants -/

def evNoAction : UInt32 := 0x00000003
def evSeparator : UInt32 := 0x00000004
def evEfiVariableDriverConfig : UInt32 := 0x80000001
def evEfiBootServicesApplication : UInt32 := 0x80000003
def evEfiBootServicesDriver : UInt32 := 0x80000004
def evEfiRuntimeServicesDriver : UInt32 := 0x80000005
def evEfiAction : UInt32 := 0x80000007
def evEfiVariableAuthority : UInt32 := 0x800000e0

def tpmAlgSha256 : UInt16 := 0x000b

/-- More digest algorithms than a header declares in practice, and the width of the mask of `digests`. -/
def maxAlgorithms : UInt32 := 64

/-- `Spec ID Event03` and a zero. -/
def specIdEvent03 : List UInt8 :=
  [0x53, 0x70, 0x65, 0x63, 0x20, 0x49, 0x44, 0x20, 0x45, 0x76, 0x65, 0x6e, 0x74, 0x30, 0x33, 0]

def maxEvents : Nat := 100000

/-- One event: its SHA-256 digest is `none` when it carries none. -/
structure Event where
  pcr : UInt32
  kind : UInt32
  sha256 : Option (List UInt8)
  data : List UInt8
  deriving DecidableEq

/-! ## The header -/

def algorithms : Nat → List (UInt16 × Nat) → Reader (List (UInt16 × Nat))
  | 0, sizes => return sizes
  | n + 1, sizes => do
    let id ← u16
    let size ← u16
    if sizes.any fun e => e.1 = id then failure
    algorithms n (sizes ++ [(id, size.toNat)])

def specId : Reader (List (UInt16 × Nat)) := do
  let signature ← take 16
  if signature ≠ specIdEvent03 then failure
  let _platformClass ← take 4
  let version ← take 4
  let [_minor, major, _errata, uintnSize] := version | failure
  if major < 2 ∨ ¬ (uintnSize = 1 ∨ uintnSize = 2) then failure
  let count ← u32
  if count = 0 ∨ maxAlgorithms < count then failure
  let sizes ← algorithms count.toNat []
  let [vendorInfo] ← take 1 | failure
  let _ ← take vendorInfo.toNat
  return sizes

/-- The event that opens the log: of PCR 0, with a zero SHA-1 digest. -/
def specIdEvent : Reader (List (UInt16 × Nat)) := do
  let pcr ← u32
  let kind ← u32
  let digest ← take 20
  let size ← u32
  let spec ← take size.toNat
  if pcr ≠ 0 ∨ kind ≠ evNoAction ∨ digest.any (· ≠ 0) then failure
  let some sizes := parseAll specId spec | failure
  return sizes

/-! ## Events -/

/-- The digests of an event: of each declared algorithm one, in any order. `seen` is the mask of the
algorithms already read, `sha256` the SHA-256 digest among them. -/
def digests (sizes : List (UInt16 × Nat)) : Nat → UInt64 → Option (List UInt8) →
    Reader (Option (List UInt8))
  | 0, _, sha256 => return sha256
  | n + 1, seen, sha256 => do
    let algorithm ← u16
    let some index := sizes.findIdx? fun e => e.1 = algorithm | failure
    let bit : UInt64 := 1 <<< index.toUInt64
    if seen &&& bit ≠ 0 then failure
    let some (_, size) := sizes[index]? | failure
    let digest ← take size
    digests sizes n (seen ||| bit)
      (if algorithm = tpmAlgSha256 ∧ size = 32 then some digest else sha256)

def event2 (sizes : List (UInt16 × Nat)) : Reader Event := do
  let pcr ← u32
  let kind ← u32
  let count ← u32
  if count.toNat ≠ sizes.length then failure
  let sha256 ← digests sizes count.toNat 0 none
  let size ← u32
  let data ← take size.toNat
  return { pcr, kind, sha256, data }

/-- At most `n` events from the front of the bytes, and whether these are all. -/
def eventsFrom (sizes : List (UInt16 × Nat)) : Nat → List UInt8 → List Event × Bool
  | _, [] => ([], true)
  | 0, _ => ([], false)
  | n + 1, bs =>
    match event2 sizes bs with
    | none => ([], false)
    | some (event, rest) => (event :: (eventsFrom sizes n rest).1, (eventsFrom sizes n rest).2)

/-- The events after the header and whether the log is complete; `none` when it does not open with a
valid header. -/
def events (log : List UInt8) : Option (List Event × Bool) :=
  (specIdEvent log).map fun e => eventsFrom e.1 maxEvents e.2

end Irlume.EventLog

/-!
## What PCR 7 recorded

SHA-256 is a parameter of the development.
-/

namespace Irlume.EventLog

open Irlume.Lib Irlume.Lib.Reader

abbrev Guid := Vector UInt8 16

def efiGlobalVariable : Guid :=
  #v[0x61, 0xdf, 0xe4, 0x8b, 0xca, 0x93, 0xd2, 0x11, 0xaa, 0x0d, 0x00, 0xe0, 0x98, 0x03, 0x2b, 0x8c]

/-- How many distinct event types `otherKinds` keeps. -/
def maxOtherKinds : Nat := 8

structure Authority where
  guid : Guid
  variableName : Text
  data : List UInt8
  deriving DecidableEq

/-- A Secure Boot configuration variable as measured; `data` says whether it held data. -/
structure Setting where
  guid : Guid
  name : Text
  data : Bool
  deriving DecidableEq

structure Pcr7 where
  secureBoot : Option Bool := none
  configuration : List Setting := []
  leadingConfiguration : Nat := 0
  authorities : List Authority := []
  actions : List Text := []
  separatorErrors : Nat := 0
  extraneous : Nat := 0
  other : Nat := 0
  otherKinds : List UInt32 := []
  unverified : Nat := 0
  malformed : Nat := 0
  deriving DecidableEq

/-- Why the log's account of PCR 7 is not relied on. -/
inductive Untrusted where
  | notCryptoAgile
  | incomplete
  | noSha256
  | replay
  | payload (count : Nat)
  | malformed (count : Nat)
  deriving DecidableEq

/-! ## Replay -/

def extended (events : List Event) (pcr : UInt32) : List Event :=
  events.filter fun e => e.pcr = pcr && e.kind ≠ evNoAction

def zeroValue : Vector UInt8 32 := Vector.replicate 32 0

section Hash

variable (sha256 : List UInt8 → Vector UInt8 32)

def extendValue (value : Vector UInt8 32) (digest : List UInt8) : Vector UInt8 32 :=
  sha256 (value.toList ++ digest)

/-- The value a PCR holds after its events; `none` when one carries no SHA-256 digest. -/
def replay (events : List Event) (pcr : UInt32) : Option (Vector UInt8 32) :=
  (extended events pcr).foldlM (fun value e => e.sha256.map (extendValue sha256 value)) zeroValue

/-! ## Reading events -/

def variableFields : Reader (Guid × Option Text × List UInt8) := do
  let guid ← take 16
  let some guid := toVector? 16 guid | failure
  let nameLen ← u64
  let dataLen ← u64
  if 2 ^ 64 ≤ nameLen.toNat * 2 then failure
  let name ← take (nameLen.toNat * 2)
  let data ← take dataLen.toNat
  return (guid, fromUtf16 (utf16Units name), data)

def variableData (data : List UInt8) : Option (Guid × Text × List UInt8) :=
  match parseAll variableFields data with
  | some (guid, some name, data) => some (guid, name, data)
  | _ => none

/-- An error separator is known by its digest: that of the 32-bit value 1, whatever its data. -/
def isErrorSeparator (event : Event) : Bool :=
  event.kind = evSeparator && event.sha256 = some (sha256 [1, 0, 0, 0]).toList

def isRead (kind : UInt32) : Bool :=
  kind = evEfiVariableDriverConfig || kind = evSeparator || kind = evEfiVariableAuthority ||
    kind = evEfiAction

def isChecked (event : Event) : Bool := isRead event.kind && !isErrorSeparator sha256 event

def isUnverified (event : Event) : Bool :=
  isChecked sha256 event && event.sha256 ≠ some (sha256 event.data).toList

def secureBootName : Text := ['S', 'e', 'c', 'u', 'r', 'e', 'B', 'o', 'o', 't']

def Pcr7.readSecureBoot (out : Pcr7) (data : List UInt8) : Pcr7 :=
  match data with
  | [] => { out with secureBoot := some false }
  | [b] =>
    if b = 0 then { out with secureBoot := some false }
    else if b = 1 then { out with secureBoot := some true }
    else { out with malformed := out.malformed + 1 }
  | _ => { out with malformed := out.malformed + 1 }

def Pcr7.readConfiguration (out : Pcr7) (data : List UInt8) : Pcr7 :=
  match variableData data with
  | some (guid, name, data) =>
    let out := if name = secureBootName ∧ guid = efiGlobalVariable then out.readSecureBoot data else out
    { out with configuration := out.configuration ++ [{ guid, name, data := data.any (· ≠ 0) }] }
  | none => { out with malformed := out.malformed + 1 }

def Pcr7.readAuthority (out : Pcr7) (data : List UInt8) : Pcr7 :=
  match variableData data with
  | some (guid, name, data) =>
    { out with authorities := out.authorities ++ [{ guid, variableName := name, data }] }
  | none => { out with malformed := out.malformed + 1 }

def Pcr7.readAction (out : Pcr7) (data : List UInt8) : Pcr7 :=
  { out with actions := out.actions ++ [fromUtf8Lossy (data.rdropWhile (· = 0))] }

def Pcr7.readSeparator (out : Pcr7) (data : List UInt8) : Pcr7 :=
  if data = [0, 0, 0, 0] ∨ data = [0xff, 0xff, 0xff, 0xff] then out
  else { out with malformed := out.malformed + 1 }

def Pcr7.readOther (out : Pcr7) (kind : UInt32) : Pcr7 :=
  { out with
    other := out.other + 1
    otherKinds :=
      if out.otherKinds.length < maxOtherKinds ∧ kind ∉ out.otherKinds then out.otherKinds ++ [kind]
      else out.otherKinds }

def Pcr7.read (out : Pcr7) (event : Event) : Pcr7 :=
  if event.kind = evEfiVariableDriverConfig then out.readConfiguration event.data
  else if event.kind = evEfiVariableAuthority then out.readAuthority event.data
  else if event.kind = evEfiAction then out.readAction event.data
  else if isErrorSeparator sha256 event then
    { out with separatorErrors := out.separatorErrors + 1 }
  else if event.kind = evSeparator then out.readSeparator event.data
  else if event.kind = evEfiBootServicesApplication ∨ event.kind = evEfiBootServicesDriver ∨
      event.kind = evEfiRuntimeServicesDriver then
    { out with extraneous := out.extraneous + 1 }
  else out.readOther event.kind

def pcr7Step (state : Pcr7 × Bool) (event : Event) : Pcr7 × Bool :=
  let leading := state.2 && event.kind = evEfiVariableDriverConfig
  let out := state.1
  let out :=
    if leading then { out with leadingConfiguration := out.leadingConfiguration + 1 } else out
  let out :=
    if isUnverified sha256 event then { out with unverified := out.unverified + 1 } else out
  (out.read sha256 event, leading)

def pcr7 (events : List Event) : Pcr7 :=
  ((extended events 7).foldl (pcr7Step sha256) ({}, true)).1

/-- PCR 7 is read from a log only once the log accounts for the value PCR 7 holds: every event parses, the
SHA-256 digests replay to the value, and each event that is read hashes to its digest and has the form its type
requires. -/
def verifiedPcr7 (log : List UInt8) (value : Vector UInt8 32) : Except Untrusted Pcr7 := do
  let (events, complete) ← okOr (events log) .notCryptoAgile
  if !complete then throw .incomplete
  let replayed ← okOr (replay sha256 events 7) .noSha256
  if replayed ≠ value then throw .replay
  let out := pcr7 sha256 events
  if 0 < out.unverified then throw (.payload out.unverified)
  if 0 < out.malformed then throw (.malformed out.malformed)
  return out

end Hash

end Irlume.EventLog

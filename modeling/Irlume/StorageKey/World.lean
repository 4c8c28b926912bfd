import Irlume.StorageKey.Record
import Irlume.Lib.Guarded
import Irlume.Lib.DurableFile

/-!
# The calls of the storage key steps, and the world

What the steps ask of the TPM, of the files, and of the boot. A call may fail; an envelope publication and a
write of the record may be visible and not durable. A power loss starts another boot, and each file keeps what
it last made durable or anything written since.
-/

namespace Irlume.StorageKey

open Irlume.Lib

/-! ## The TPM -/

/-- A key that is persistent or was just derived. -/
structure TpmKey where
  name : Bytes
  /-- It has the DA-exempt template's shape and irlume can create a child under it. -/
  daExempt : Bool
  original : Bool

structure Tpm where
  objects : List (Handle × TpmKey)
  derived : Option TpmKey
  /-- The keys, by handle and name, that a derivation of the original template gave in the open context. -/
  proved : List (Handle × Bytes)

/-- `OWNER_PERSISTENT` -/
def firstOwner : Handle := 0x81000000
def lastOwner : Handle := 0x817FFFFF

def isOwner (handle : Handle) : Bool := firstOwner ≤ handle && handle ≤ lastOwner

namespace Tpm

def key (tpm : Tpm) (handle : Handle) : Option TpmKey := tpm.objects.lookup handle

def owners (tpm : Tpm) : List (Handle × Bytes) :=
  (tpm.objects.filter fun (handle, _) => isOwner handle).filterMap fun (handle, _) =>
    (tpm.key handle).map fun key => (handle, key.name)

def holds (tpm : Tpm) (handle : Handle) (name : Bytes) : Bool :=
  (tpm.key handle).any fun key => key.name = name && key.daExempt

end Tpm

inductive FailureClass where
  | noSpace
  | taken
  | ownerAuthorization
  | other
  deriving DecidableEq

/-- A TPM command's failure, classified. -/
structure Failure where
  «class» : FailureClass
  detail : Text

/-- Where the key goes, and the original key's handle. -/
structure Plan where
  preferred : Handle
  original : Handle

/-! ## Envelopes -/

/-- The storage key an envelope is sealed under. -/
structure ParentKey where
  handle : Handle
  name : Text
  deriving DecidableEq

inductive EnvelopeFile where
  | unreadable
  | sealed (parent : Option ParentKey)
  deriving DecidableEq

def EnvelopeFile.UnderOriginal (content : Option EnvelopeFile) : Prop :=
  content = some .unreadable ∨ content = some (.sealed none)

instance (content : Option EnvelopeFile) : Decidable (EnvelopeFile.UnderOriginal content) :=
  inferInstanceAs (Decidable (_ ∨ _))

def EnvelopeFile.Names (name : Text) (content : Option EnvelopeFile) : Prop :=
  ∃ handle, content = some (.sealed (some ⟨handle, name⟩))

/-- How far a write that did not fail got. -/
inductive AtomicWrite where
  | durable
  | visibleNotDurable
  deriving DecidableEq

/-! ## Reports -/

inductive StorageKeyCheck where
  | absent
  | clean
  | rocaFingerprint (handle : Handle)
  deriving DecidableEq

inductive StorageKeyRole where
  | original
  | daExempt
  | superseded
  deriving DecidableEq

structure StorageKeyEntry where
  role : StorageKeyRole
  handle : Handle
  name : Text
  check : StorageKeyCheck
  /-- How many envelopes name it; `none` for the original key. -/
  envelopes : Option Nat
  unusedAcrossBoots : Bool
  deriving DecidableEq

/-! ## Calls -/

inductive Op where
  | bootId
  | plan
  | lock
  | loadRecord (publishing : Option EnvelopeId)
  | saveRecord (record : Record)
  | envelopePaths (kind : EnvelopeKind)
  | loadEnvelope (id : EnvelopeId)
  /-- `symlink_metadata` on an envelope file. -/
  | metadata (id : EnvelopeId)
  | writeEnvelope (id : EnvelopeId) (parent : Option ParentKey)
  | openTpm
  | nameAt (handle : Handle)
  | persistentAvail
  | derive
  | ownerNames
  | persist (handle : Handle)
  | derivesOriginal (handle : Handle)
  | evict (handle : Handle) (name : Bytes)
  | holdsDaExemptKey (handle : Handle) (name : Bytes)
  | isWeak (handle : Handle)
  | derivedIsWeak
  | firmware
  | keyCheck (handle : Handle) (name : Bytes)
  /-- Answer doctor. -/
  | reply (entries : List StorageKeyEntry)
  deriving DecidableEq

abbrev Op.Answer : Op → Type
  | .bootId => Option Boot
  | .plan => Except Text Plan
  | .lock => Except Text Unit
  | .loadRecord _ => Record
  | .saveRecord _ => Except Text Unit
  | .envelopePaths _ => Except Text (List EnvelopeId)
  | .loadEnvelope _ => Option (Option ParentKey)
  | .metadata _ => Bool
  | .writeEnvelope _ _ => Except Text AtomicWrite
  | .openTpm => Except Text Unit
  | .nameAt _ => Except Text (Option Bytes)
  | .persistentAvail => Except Text Nat
  | .derive => Except Failure Bytes
  | .ownerNames => Except Text (List (Handle × Bytes))
  | .persist _ => Except Failure Unit
  | .derivesOriginal _ => Except Text (Option Bool)
  | .evict _ _ => Except Text Bool
  | .holdsDaExemptKey _ _ => Except Text Bool
  | .isWeak _ => Except Text Bool
  | .derivedIsWeak => Except Text Bool
  | .firmware => Except Text (Nat × Nat)
  | .keyCheck _ _ => Except Text StorageKeyCheck
  | .reply _ => Unit

abbrev Run (α : Type) : Type := Fallible Op Op.Answer Text α

abbrev call (op : Op) : Program Op Op.Answer op.Answer := .ask op

def bootId : Run (Option Boot) := .lift (call .bootId)
def daExemptKeyPlan : Run (Except Text Plan) := .lift (call .plan)
def lock : Run Unit := .mk (call .lock)
def loadRecord : Run Record := .lift (call (.loadRecord none))
def peekRecord (id : EnvelopeId) : Run Record := .lift (call (.loadRecord (some id)))
def saveRecord (record : Record) : Run Unit := .mk (call (.saveRecord record))
def envelopePaths (kind : EnvelopeKind) : Run (List EnvelopeId) := .mk (call (.envelopePaths kind))
def loadEnvelope (id : EnvelopeId) : Run (Option (Option ParentKey)) := .lift (call (.loadEnvelope id))
def metadata (id : EnvelopeId) : Run Bool := .lift (call (.metadata id))
def writeEnvelope (id : EnvelopeId) (parent : Option ParentKey) : Run AtomicWrite :=
  .mk (call (.writeEnvelope id parent))
def openTpm : Run Unit := .mk (call .openTpm)
def nameAt (handle : Handle) : Run (Option Bytes) := .mk (call (.nameAt handle))
def persistentAvail : Run Nat := .mk (call .persistentAvail)
def derive : Run (Except Failure Bytes) := .lift (call .derive)
def ownerNames : Run (List (Handle × Bytes)) := .mk (call .ownerNames)
def persist (handle : Handle) : Run (Except Failure Unit) := .lift (call (.persist handle))
def derivesOriginal (handle : Handle) : Run (Option Bool) := .mk (call (.derivesOriginal handle))
def evict (handle : Handle) (name : Bytes) : Run Bool := .mk (call (.evict handle name))
def holdsDaExemptKey (handle : Handle) (name : Bytes) : Run Bool :=
  .mk (call (.holdsDaExemptKey handle name))
def isWeak (handle : Handle) : Run Bool := .mk (call (.isWeak handle))
def derivedIsWeak : Run Bool := .mk (call .derivedIsWeak)
def firmware : Run (Nat × Nat) := .mk (call .firmware)
def daExemptKeyCheck (handle : Handle) (name : Bytes) : Run StorageKeyCheck :=
  .mk (call (.keyCheck handle name))
def reply (entries : List StorageKeyEntry) : Run Unit := .lift (call (.reply entries))

/-! ## The world -/

/-- The files. `known` are the envelopes that may have a file. -/
structure Disk where
  record : PendingFile Record
  envelopes : EnvelopeId → PendingFile EnvelopeFile
  known : List EnvelopeId

namespace Disk

/-- What `load_record` reads. -/
def loaded (disk : Disk) : Record := disk.record.visible.getD default

def saveRecord (disk : Disk) (o : WriteOutcome) (record : Record) : Disk :=
  { disk with record := disk.record.write o record }

def writeEnvelope (disk : Disk) (o : WriteOutcome) (id : EnvelopeId) (parent : Option ParentKey) : Disk :=
  { disk with
    envelopes := Function.update disk.envelopes id ((disk.envelopes id).write o (.sealed parent))
    known := if id ∈ disk.known then disk.known else disk.known ++ [id] }

/-- Which content each file keeps. -/
structure Kept where
  record : Nat
  envelope : EnvelopeId → Nat

def powerLoss (disk : Disk) (kept : Kept) : Disk where
  record := disk.record.powerLoss kept.record
  envelopes id := (disk.envelopes id).powerLoss (kept.envelope id)
  known := disk.known

def paths (disk : Disk) (kind : EnvelopeKind) : List EnvelopeId :=
  disk.known.filter fun id => id.kind = kind && (disk.envelopes id).visible.isSome

end Disk

structure World where
  disk : Disk
  tpm : Tpm
  boot : Boot

/-- How a call comes out. -/
inductive Choice where
  | works
  | fails (error : Text)
  /-- A command that takes effect and whose answer is lost. -/
  | lost (error : Text)
  | refuses (failure : Failure)
  | file (o : WriteOutcome)
  /-- A directory is read, and these files' metadata are not. -/
  | skips (ids : List EnvelopeId)
  | plan (plan : Except Text Plan)
  | derives (key : TpmKey)
  | tells (answer : Bool)
  | reads (a b : Nat)
  | checks (check : StorageKeyCheck)

def wrote : WriteOutcome → Except Text AtomicWrite
  | .durable => .ok .durable
  | .visible => .ok .visibleNotDurable
  | .failed => .error "the file was not written"

/-- `save_record` takes a write that is not durable as failed. -/
def saved : WriteOutcome → Except Text Unit
  | .durable => .ok ()
  | _ => .error "the record was not made durable"

def Tpm.persisted (tpm : Tpm) (handle : Handle) (key : TpmKey) : Tpm :=
  { tpm with objects := (handle, key) :: tpm.objects }

def Tpm.evicted (tpm : Tpm) (handle : Handle) : Tpm :=
  { tpm with objects := tpm.objects.filter fun (h, _) => h ≠ handle }

def Tpm.opened (tpm : Tpm) : Tpm := { tpm with derived := none, proved := [] }

def Tpm.derivedKey (tpm : Tpm) (key : TpmKey) : Tpm := { tpm with derived := some key }

def Tpm.compared (tpm : Tpm) (handle : Handle) (key : TpmKey) (gives : Bool) : Tpm :=
  { tpm with proved := if gives then (handle, key.name) :: tpm.proved else tpm.proved }

namespace World

def failed (w : World) : (op : Op) → Text → Option (op.Answer × World)
  | .bootId, _ => some (none, w)
  | .loadRecord _, _ => some (default, w)
  | .loadEnvelope _, _ => some (none, w)
  | .metadata _, _ => some (false, w)
  | .lock, e | .envelopePaths _, e | .openTpm, e | .nameAt _, e | .persistentAvail, e | .ownerNames, e
  | .derivesOriginal _, e | .evict _ _, e | .holdsDaExemptKey _ _, e | .isWeak _, e | .derivedIsWeak, e
  | .firmware, e | .keyCheck _ _, e => some (.error e, w)
  | _, _ => none

def worked (w : World) : (op : Op) → Option (op.Answer × World)
  | .bootId => some (some w.boot, w)
  | .lock => some (.ok (), w)
  | .loadRecord _ => some (w.disk.loaded, w)
  | .loadEnvelope id =>
    some (match (w.disk.envelopes id).visible with
      | some (.sealed parent) => some parent
      | _ => none, w)
  | .metadata id => some ((w.disk.envelopes id).visible.isSome, w)
  | .openTpm => some (.ok (), { w with tpm := w.tpm.opened })
  | .nameAt handle => some (.ok ((w.tpm.key handle).map (·.name)), w)
  | .ownerNames => some (.ok w.tpm.owners, w)
  | .persist handle =>
    match w.tpm.key handle, w.tpm.derived with
    | none, some key => some (.ok (), { w with tpm := w.tpm.persisted handle key })
    | _, _ => none
  | .evict handle name =>
    if (w.tpm.key handle).any fun key => key.name = name then
      some (.ok true, { w with tpm := w.tpm.evicted handle })
    else some (.ok false, w)
  | .holdsDaExemptKey handle name => some (.ok (w.tpm.holds handle name), w)
  | .reply _ => some ((), w)
  | _ => none

def lost (w : World) : (op : Op) → Text → Option (op.Answer × World)
  | .persist handle, e =>
    match w.tpm.key handle, w.tpm.derived with
    | none, some key => some (.error ⟨.other, e⟩, { w with tpm := w.tpm.persisted handle key })
    | _, _ => none
  | .evict handle name, e =>
    if (w.tpm.key handle).any fun key => key.name = name then
      some (.error e, { w with tpm := w.tpm.evicted handle })
    else none
  | _, _ => none

def perform (w : World) (op : Op) (choice : Choice) : Option (op.Answer × World) :=
  match op, choice with
  | op, .works => w.worked op
  | op, .fails e => w.failed op e
  | op, .lost e => w.lost op e
  | .derive, .refuses failure => some (.error failure, w)
  | .persist _, .refuses failure => some (.error failure, w)
  | .saveRecord record, .file o => some (saved o, { w with disk := w.disk.saveRecord o record })
  | .writeEnvelope id parent, .file o =>
    some (wrote o, { w with disk := w.disk.writeEnvelope o id parent })
  | .envelopePaths kind, .skips ids => some (.ok ((w.disk.paths kind).filter (· ∉ ids)), w)
  | .plan, .plan plan => some (plan, w)
  | .derive, .derives key => some (.ok key.name, { w with tpm := w.tpm.derivedKey key })
  | .derivesOriginal handle, .tells gives =>
    match w.tpm.key handle with
    | some key =>
      if key.original then some (.ok (some gives), { w with tpm := w.tpm.compared handle key gives })
      else some (.ok none, w)
    | none => some (.ok none, w)
  | .isWeak _, .tells weak => some (.ok weak, w)
  | .derivedIsWeak, .tells weak => some (.ok weak, w)
  | .persistentAvail, .reads n _ => some (.ok n, w)
  | .firmware, .reads a b => some (.ok (a, b), w)
  | .keyCheck _ _, .checks check => some (.ok check, w)
  | _, _ => none

end World

/-- What happens to the world while no step runs, or to a step that is stopped. -/
inductive Outside where
  | stop
  | powerLoss (kept : Disk.Kept)
  /-- Another stack changed the TPM's objects, or another firmware runs in it. -/
  | tpm (objects : List (Handle × TpmKey))

def World.outside (w : World) : Outside → Option World
  | .stop => some w
  | .powerLoss kept => some { w with disk := w.disk.powerLoss kept, boot := w.boot + 1 }
  | .tpm objects => some { w with tpm := { w.tpm with objects } }

end Irlume.StorageKey

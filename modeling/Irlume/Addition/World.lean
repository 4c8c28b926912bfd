import Irlume.Cameras.Commit
import Irlume.Replacement.Machine
import Irlume.Sealed.World

/-!
# The files of an account while a camera is added

One addition of a camera among any other writers of the account. The others write only while they hold the account's
state lock, each time whatever they like, but they never write bytes into the secondary store's file that it has held
before; they may remove it. The addition's calls are answered anything: only what it reads of the two files, of the
record of an interrupted replacement and of the lock is what is there.

Which contents the two files have had, what the addition loaded, whether its own publication has begun and each change
it made to one of the two files is history.
-/

namespace Irlume.Addition

open Irlume.Lib Irlume.Cameras
open Irlume.Replacement (Files Record Instr)
open Irlume.Sealed (Error Resolution)

inductive Lock where
  | free
  | ours
  | theirs
  deriving DecidableEq

/-- The primary enrollment and the secondary store. -/
structure Contents where
  primary : Option Bytes
  store : Option Bytes
  deriving DecidableEq

inductive Reading where
  | digest
  /-- Whether it is encrypted. -/
  | version
  | load
  deriving DecidableEq

/-- The calls of the addition. -/
inductive Op where
  | readStore (reading : Reading)
  | readPrimary
  | resolveAccount
  /-- `existing_key_read_only` -/
  | existingKey
  /-- `load_path_unlocked`, which writes nothing. -/
  | loadEnrollment
  | tpmAvailable
  | acquire
  | release
  | readRecord
  | exec (record : Record) (instr : Instr)
  /-- `camera_store_key_with` -/
  | cameraStoreKey
  | readKeyEnvelope
  | encryptionNonce
  | createStoreDir
  | now
  | writeJournal (journal : Bytes)
  | writeStore (bytes : Bytes)
  | removeJournal
  deriving DecidableEq

section

variable (Enr : Type)

abbrev Answer : Op → Type
  | .readStore _ | .readPrimary => Except Text (Option Bytes)
  | .resolveAccount => Resolution
  | .existingKey => Except Error (Option Bytes)
  | .loadEnrollment => Except Error (Option Enr)
  | .tpmAvailable => Bool
  | .acquire | .exec _ _ => Except Error Unit
  | .release => Unit
  | .readRecord => Except Error (Option Record)
  | .cameraStoreKey => Except Error Bytes
  | .readKeyEnvelope | .encryptionNonce => Except Text Bytes
  | .createStoreDir | .writeJournal _ | .writeStore _ | .removeJournal => Except Text Unit
  | .now => Nat

/-- What the outside decides about one call. -/
structure Choice where
  error : Option Error
  outcome : WriteOutcome
  available : Bool
  bytes : Option Bytes
  enrollment : Option Enr
  resolution : Resolution
  time : Nat

end

/-- A call of the addition, and the two files before and after it. -/
structure Change where
  op : Op
  before : Contents
  after : Contents

structure World where
  files : Files
  lock : Lock
  primaries : List Bytes
  stores : List Bytes
  /-- The addition's first reading of the secondary store, and what it found. -/
  firstRead : Option (Reading × Option Bytes)
  /-- What the addition's last load of the secondary store found. -/
  loaded : Option (Option Bytes)
  /-- The commit's own publication has begun. -/
  began : Bool
  changes : List Change

namespace World

variable (w : World)

def contents : Contents := ⟨w.files.enrollment.visible, (w.files.removable .store).visible⟩

def primary : Option Bytes := w.contents.primary

def store : Option Bytes := w.contents.store

def noted : World :=
  { w with
    primaries := w.primary.toList ++ w.primaries
    stores := w.store.toList ++ w.stores }

/-- What another writer leaves in the secondary store's file is as it was, gone or new. -/
def Fresh (files : Files) : Prop :=
  ∀ b ∈ (files.removable .store).visible, w.store = some b ∨ b ∉ w.stores

instance (files : Files) : Decidable (w.Fresh files) := by
  unfold Fresh
  infer_instance

end World

/-! ## The others -/

inductive OtherStep where
  | lock
  | unlock
  | write (files : Files)

def otherStep (w : World) : OtherStep → Option World
  | .lock => if w.lock = .free then some { w with lock := .theirs } else none
  | .unlock => if w.lock = .theirs then some { w with lock := .free } else none
  | .write files => if w.lock = .theirs ∧ w.Fresh files then some { w with files := files }.noted else none

/-! ## The addition's calls -/

section

variable {Enr : Type} {α : Type}

def Choice.orError (c : Choice Enr) (a : α) : Except Error α :=
  match c.error with
  | some e => .error e
  | none => .ok a

/-- The same for a call that fails with the text of an I/O error. -/
def Choice.orIo (c : Choice Enr) (a : α) : Except Text α :=
  match c.error with
  | some e => .error e.message
  | none => .ok a

def Choice.written (c : Choice Enr) : Except Text Unit :=
  if c.outcome = .durable then .ok () else .error ((c.error.map Error.message).getD [])

def World.readStore (w : World) (reading : Reading) (failed : Bool) : World :=
  if failed then w
  else
    { w with
      firstRead := some (w.firstRead.getD (reading, w.store))
      loaded := if reading = .digest then w.loaded else some w.store }

def World.replace (w : World) (f : Replacement.Removable) (o : WriteOutcome) (content : Option Bytes) : World :=
  { w with
    files := { w.files with
      removable := Function.update w.files.removable f ((w.files.removable f).replace o content) } }

variable (sha256Hex : Bytes → Text)

def act (w : World) (op : Op) (c : Choice Enr) : Option (Answer Enr op × World) :=
  match op with
  | .readStore reading => some (c.orIo w.store, w.readStore reading c.error.isSome)
  | .readPrimary => some (c.orIo w.primary, w)
  | .resolveAccount => some (c.resolution, w)
  | .existingKey => some (c.orError c.bytes, w)
  | .loadEnrollment => some (c.orError c.enrollment, w)
  | .tpmAvailable => some (c.available, w)
  | .acquire =>
    match c.error with
    | some e => some (.error e, w)
    | none => if w.lock = .free then some (.ok (), { w with lock := .ours }) else none
  | .release => some ((), { w with lock := .free })
  | .readRecord => some (c.orError w.files.record.visible, w)
  | .exec record instr =>
    some (if c.outcome = .durable then .ok () else .error (c.error.getD (.io [])),
      { w with files := instr.exec sha256Hex record w.files c.outcome })
  | .cameraStoreKey => some (c.orError (c.bytes.getD []), w)
  | .readKeyEnvelope => some (c.orIo (c.bytes.getD []), w)
  | .encryptionNonce => some (c.orIo (c.bytes.getD []), w)
  | .createStoreDir => some (c.orIo (), w)
  | .now => some (c.time, w)
  | .writeJournal journal => some (c.written, { w.replace .journal c.outcome (some journal) with began := true })
  | .writeStore bytes => some (c.written, { w.replace .store c.outcome (some bytes) with began := true })
  | .removeJournal => some (c.written, w.replace .journal c.outcome none)

def Op.isPublication : Op → Bool
  | .writeStore _ => true
  | _ => false

/-- A call that changed one of the two files, or published, is written down. -/
def World.recorded (w : World) (op : Op) (t : World) : World :=
  { t.noted with
    changes := if op.isPublication ∨ t.contents ≠ w.contents then w.changes ++ [⟨op, w.contents, t.contents⟩]
      else w.changes }

def perform (w : World) (op : Op) (c : Choice Enr) : Option (Answer Enr op × World) :=
  (act sha256Hex w op c).map fun r => (r.1, w.recorded op r.2)

end

def World.start (files : Files) (busy : Bool) : World where
  files := files
  lock := if busy then .theirs else .free
  primaries := files.enrollment.visible.toList
  stores := (files.removable .store).visible.toList
  firstRead := none
  loaded := none
  began := false
  changes := []

end Irlume.Addition

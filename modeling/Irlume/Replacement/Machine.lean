import Irlume.Lib.DurableFile
import Irlume.Lib.Encoding
import Irlume.Lib.Machine

/-!
# Replacing another uid's enrollment

An enrollment write that replaces another uid's enrollment records first, durably, what it replaces: the
replaced key's envelope and the digests of the enrollment's files. It then seals a new key over the replaced
one, publishes the enrollment and finishes (what belonged to the replaced enrollment goes) or undoes (the
replaced key goes back). A record that is left behind is settled the next time the account's state lock is
taken.

The machine runs one such write and any settlements after it. Every file step is an event that says how it went.
The JSON of the record and the base64 of the envelope in it are left out: a record file holds a record.
-/

namespace Irlume.Replacement

open Irlume.Lib

/-- The files that belong to the replaced enrollment. -/
inductive Removable where
  | recovery
  | journal
  | store
  deriving DecidableEq

def recordVersion : Nat := 1

structure Record where
  version : Nat
  /-- The replaced key's envelope file; `none` when the write replaces no key. -/
  key : Option (List UInt8)
  enrollment : Option Text
  recovery : Option Text
  cameraStore : Option Text
  cameraJournal : Option Text
  deriving DecidableEq

def Record.digestOf (r : Record) : Removable → Option Text
  | .recovery => r.recovery
  | .journal => r.cameraJournal
  | .store => r.cameraStore

structure Files where
  record : DurableFile Record
  enrollment : DurableFile (List UInt8)
  key : DurableFile (List UInt8)
  removable : Removable → DurableFile (List UInt8)

/-- What the account's files hold when the write takes the state lock. -/
structure Contents where
  enrollment : Option (List UInt8)
  key : Option (List UInt8)
  removable : Removable → Option (List UInt8)

/-- One enrollment write that replaces another uid's enrollment, with a replaced key or, for a
plaintext enrollment, without one. A key is replaced only when there is one. -/
structure Save where
  start : Contents
  replacesKey : Bool
  newKey : List UInt8
  newEnrollment : List UInt8
  has_key : replacesKey = true → start.key.isSome = true

/-! ## File steps -/

/-- A file step of `finish` or `undo`. -/
inductive Instr where
  | syncEnrollment
  | removeIfRecorded (f : Removable)
  | putKeyBack
  | removeRecord
  deriving DecidableEq

/-- The journal goes before the store: it can publish a store on its own. -/
def finish : List Instr :=
  [.syncEnrollment, .removeIfRecorded .recovery, .removeIfRecorded .journal, .removeIfRecorded .store,
    .removeRecord]

def undo (record : Record) : List Instr :=
  if record.key.isSome then [.putKeyBack, .removeRecord] else [.removeRecord]

variable (sha256Hex : List UInt8 → Text)

/-- What a file holds once `remove_if_recorded` has been at it. -/
def unlessRecorded (recorded : Option Text) (content : Option (List UInt8)) : Option (List UInt8) :=
  if recorded.isSome ∧ content.map sha256Hex = recorded then none else content

/-- The effect of a file step that ends as `o` says. -/
def Instr.exec (record : Record) (files : Files) (o : WriteOutcome) : Instr → Files
  | .syncEnrollment =>
    { files with enrollment := files.enrollment.replace o files.enrollment.visible }
  | .removeIfRecorded f =>
    { files with
      removable := Function.update files.removable f ((files.removable f).replace o
        (unlessRecorded sha256Hex (record.digestOf f) (files.removable f).visible)) }
  | .putKeyBack => { files with key := files.key.replace o record.key }
  | .removeRecord => { files with record := files.record.replace o none }

def newRecord (files : Files) (replacesKey : Bool) : Record where
  version := recordVersion
  key := if replacesKey then files.key.visible else none
  enrollment := files.enrollment.visible.map sha256Hex
  recovery := if replacesKey then (files.removable .recovery).visible.map sha256Hex else none
  cameraStore := (files.removable .store).visible.map sha256Hex
  cameraJournal := (files.removable .journal).visible.map sha256Hex

/-! ## The machine -/

inductive Op where
  | save
  | settle (loading : Bool)
  deriving DecidableEq

/-- How a call returned. A load goes on after a finish that failed, which it only logs. -/
inductive Returned where
  | ok
  | logged
  | failed
  deriving DecidableEq

def Returned.isOk : Returned → Bool
  | .ok => true
  | .logged => true
  | .failed => false

inductive Stage where
  /-- The write holds the lock and has recorded nothing yet. -/
  | start
  /-- The replaced key is set aside; the new key is sealed next. -/
  | sealing
  /-- The enrollment is written next. -/
  | publishing
  /-- The replaced key's envelope is written back next. -/
  | puttingBack
  /-- In `finish` or `undo`, with the steps to do. -/
  | settling (op : Op) (record : Record) (finishes : Bool) (todo : List Instr)
  | returned (op : Op) (result : Returned)
  | idle
  deriving DecidableEq

structure Host where
  files : Files
  stage : Stage

inductive FileId where
  | record
  | enrollment
  | key
  | removable (f : Removable)

inductive Event where
  /-- `begin`: how the record was written, whether the key directory's own entry was synced, and
  whether a record of a refused write could be removed. -/
  | begin (o : WriteOutcome) (dirSynced removed : Bool)
  /-- The new key is sealed and read back. -/
  | reseal (o : WriteOutcome) (roundTrip : Bool)
  | publish (o : WriteOutcome)
  | putBack (o : WriteOutcome)
  | settle (loading : Bool)
  /-- The next step of `finish` or `undo`. -/
  | exec (o : WriteOutcome)
  | stop
  | powerLoss (kept : FileId → Bool)
  /-- One of the files that belonged to the replaced enrollment is written anew, by a writer that
  holds the lock in between. -/
  | rewrite (f : Removable) (content : List UInt8)

def Stage.free : Stage → Bool
  | .idle => true
  | .returned _ _ => true
  | _ => false

/-- The steps to do, or the return of the call when there is none. -/
def Stage.settlingOrDone (op : Op) (record : Record) (finishes : Bool) : List Instr → Stage
  | [] => .returned op .ok
  | instr :: todo => .settling op record finishes (instr :: todo)

def failedResult (op : Op) (finishes : Bool) : Returned :=
  if op = .settle true ∧ finishes = true then .logged else .failed

/-- The call of `finish`, or of `undo`, as `finishes` says. Each reads the record, and has nothing to
do without one. -/
def Host.settleBy (s : Host) (op : Op) (finishes : Bool) : Host :=
  match s.files.record.visible with
  | none => { s with stage := .returned op .ok }
  | some record =>
    if record.version ≠ recordVersion then { s with stage := .returned op (failedResult op finishes) }
    else
      { s with stage := .settling op record finishes (if finishes then finish else undo record) }

def Files.powerLoss (files : Files) (kept : FileId → Bool) : Files where
  record := files.record.powerLoss (kept .record)
  enrollment := files.enrollment.powerLoss (kept .enrollment)
  key := files.key.powerLoss (kept .key)
  removable f := (files.removable f).powerLoss (kept (.removable f))

/-- The record of a refused write is removed when that can be done; nothing is synced. -/
def withdraw (f : DurableFile Record) (removed : Bool) : DurableFile Record :=
  if removed then ⟨none, f.durable⟩ else f

def beginStep (w : Save) (s : Host) (o : WriteOutcome) (dirSynced removed : Bool) : Option Host :=
  if s.stage = .start then
    let record := s.files.record.replace o (some (newRecord sha256Hex s.files w.replacesKey))
    if o = .durable ∧ dirSynced then
      some { files := { s.files with record := record }
             stage := if w.replacesKey then .sealing else .publishing }
    else if o = .failed then some { s with stage := .returned .save .failed }
    else
      some { files := { s.files with record := withdraw record removed }
             stage := .returned .save .failed }
  else none

def resealStep (w : Save) (s : Host) (o : WriteOutcome) (roundTrip : Bool) : Option Host :=
  if s.stage = .sealing then
    some { files := { s.files with key := s.files.key.replace o (some w.newKey) }
           stage := if o = .durable ∧ roundTrip then .publishing else .puttingBack }
  else none

/-- The enrollment write, and which way the replacement is settled after it. -/
def publishStep (w : Save) (s : Host) (o : WriteOutcome) : Option Host :=
  if s.stage = .publishing then
    let s' : Host :=
      { s with files := { s.files with
                          enrollment := s.files.enrollment.replace o (some w.newEnrollment) } }
    match o with
    | .durable => some (s'.settleBy .save true)
    | .visible => some { s' with stage := .returned .save .failed }
    | .failed =>
      if w.replacesKey then some { s' with stage := .puttingBack } else some (s'.settleBy .save false)
  else none

/-- The envelope set aside is written back; the record then goes. -/
def putBackStep (w : Save) (s : Host) (o : WriteOutcome) : Option Host :=
  if s.stage = .puttingBack then
    let s' : Host := { s with files := { s.files with key := s.files.key.replace o w.start.key } }
    if o = .durable then some (s'.settleBy .save false)
    else some { s' with stage := .returned .save .failed }
  else none

/-- `settle_interrupted`: undo while the stored enrollment is the replaced one, else finish. -/
def settleInterrupted (s : Host) (loading : Bool) : Option Host :=
  if s.stage.free then
    match s.files.record.visible with
    | none => some { s with stage := .returned (.settle loading) .ok }
    | some record =>
      if record.version ≠ recordVersion then
        some { s with stage := .returned (.settle loading) .failed }
      else
        some (s.settleBy (.settle loading)
          (s.files.enrollment.visible.map sha256Hex ≠ record.enrollment))
  else none

def execStep (s : Host) (o : WriteOutcome) : Option Host :=
  match s.stage with
  | .settling op record finishes (instr :: todo) =>
    some { files := instr.exec sha256Hex record s.files o
           stage := if o = .durable then .settlingOrDone op record finishes todo
             else .returned op (failedResult op finishes) }
  | _ => none

def Save.recorded (w : Save) (f : Removable) : Option Text :=
  match f with
  | .recovery => if w.replacesKey then (w.start.removable .recovery).map sha256Hex else none
  | f => (w.start.removable f).map sha256Hex

def step (w : Save) (s : Host) : Event → Option Host
  | .begin o dirSynced removed => beginStep sha256Hex w s o dirSynced removed
  | .reseal o roundTrip => resealStep w s o roundTrip
  | .publish o => publishStep w s o
  | .putBack o => putBackStep w s o
  | .settle loading => settleInterrupted sha256Hex s loading
  | .exec o => execStep sha256Hex s o
  | .stop => some { s with stage := .idle }
  | .powerLoss kept => some { files := s.files.powerLoss kept, stage := .idle }
  | .rewrite f content =>
    -- a file that was written anew is not the recorded one
    if s.stage.free ∧ some (sha256Hex content) ≠ w.recorded sha256Hex f then
      some { files := { s.files with
                        removable := Function.update s.files.removable f (.settled (some content)) }
             stage := .idle }
    else none

def Host.start (w : Save) : Host where
  files :=
    { record := .settled none
      enrollment := .settled w.start.enrollment
      key := .settled w.start.key
      removable := fun f => .settled (w.start.removable f) }
  stage := .start

end Irlume.Replacement

import Irlume.Lib.InPlaceFile
import Irlume.Lib.Steady
import Irlume.Lib.Encoding
import Irlume.Lib.Transcript

/-!
# The record of unfinished uninstalls

`uninstall/retention.rs`, and the part of `perform_teardown` that goes by it: an uninstall marks the record
(`begin`) before it looks at anything, and unmarks it (`complete`) before it evicts the TPM's storage keys.
The record is one file, opened and created where there is none, locked with `flock`, and rewritten in place.

Each call is one step of its process, and the others go on between any two. `begun` and `completing` leave a
mark in the world, by which attempts are told apart, and call nothing.
-/

namespace Irlume.Uninstall

open Irlume.Lib

def retain : List UInt8 := bytes "irlume-uninstall-srk-v1: retain\n"

def clean : List UInt8 := bytes "irlume-uninstall-srk-v1: clean\n"

inductive RetentionState where
  | unverified
  | retained
  | clean

structure Retention where
  priorUncertain : Bool
  state : RetentionState

/-! ## Calls -/

structure Metadata where
  isFile : Bool
  uid : Nat
  mode : Nat
  nlink : Nat

inductive OpenError where
  | alreadyExists
  | other (message : Text)

/-- What a teardown found on its way to the eviction of the keys. -/
structure Swept where
  dataWiped : Bool
  overridden : Bool
  survivors : Except Text (List Text)

inductive Op where
  | openParent
  /-- `open` with `create_new`. -/
  | createNew
  /-- `open` with `O_PATH`, and the metadata of what was opened. -/
  | pin
  | openPinned
  | flock
  /-- `fresh`: by the process that created the file. -/
  | read (fresh : Bool)
  | seek
  | write (i : Nat) (bs : List UInt8)
  | setLen (n : Nat)
  | sync
  | syncParent
  /-- The file is closed, and its lock released. -/
  | drop
  /-- `begin` has returned. -/
  | begun (uncertain : Bool)
  /-- The teardown up to its eviction gate; `none` where it refused on the way. -/
  | teardown
  | stillQuiescent
  /-- `complete` is called. -/
  | completing (n : Nat)
  | evict (n : Nat)
  deriving DecidableEq

abbrev Op.Answer : Op → Type
  | .openParent => Except Text Metadata
  | .createNew => Except OpenError Unit
  | .pin => Except Text Metadata
  | .openPinned => Except Text Unit
  | .flock => Except Text Unit
  | .read _ => Except Text (List UInt8)
  | .seek => Except Text Unit
  | .write _ _ => Except Text Nat
  | .setLen _ => Except Text Unit
  | .sync => Except Text Unit
  | .syncParent => Except Text Unit
  | .drop => Unit
  | .begun _ => Nat
  | .teardown => Option Swept
  | .stillQuiescent => Except Text Unit
  | .completing _ => Unit
  | .evict _ => Unit

abbrev Run := Program Op Op.Answer

abbrev Attempt := Fallible Op Op.Answer Text

def call (op : Op) : Run op.Answer := .call op .result

def ask (op : Op) : Attempt op.Answer := Fallible.ask op

/-- The `?` of a result. -/
def orThrow {α : Type} (result : Except Text α) : Attempt α := ExceptT.mk (.result result)

/-! ## The record -/

/-- `write_all` from a position on; `fuel` is how many bytes may be left. -/
def writeAll : Nat → Nat → List UInt8 → Attempt Unit
  | _, _, [] => pure ()
  | 0, _, _ :: _ => throw "failed to write whole buffer".toList
  | fuel + 1, i, bs => do
    let n ← orThrow (← ask (.write i bs))
    if n = 0 then throw "failed to write whole buffer".toList
    else writeAll fuel (i + n) (bs.drop n)

namespace Retention

/-- `Retention::write`. -/
def write (value : List UInt8) : Attempt Unit := do
  orThrow (← ask .seek)
  writeAll value.length 0 value
  orThrow (← ask (.setLen value.length))
  orThrow (← ask .sync)

/-- The record's file, created where there is none, and whether it was. -/
def openRecord (owner : Nat) : Attempt Bool := do
  match ← ask .createNew with
  | .ok () => pure true
  | .error .alreadyExists =>
    let seen ← orThrow (← ask .pin)
    if !seen.isFile || seen.uid ≠ owner || seen.mode &&& 0o077 ≠ 0 || seen.nlink ≠ 1 then
      throw "invalid SRK retention file".toList
    else
      orThrow (← ask .openPinned)
      pure false
  | .error (.other e) => throw e

/-- What `begin` runs. -/
def establish (owner : Nat) : Attempt Retention := do
  let seen ← orThrow (← ask .openParent)
  if seen.uid ≠ owner || seen.mode &&& 0o022 ≠ 0 then
    throw "retention parent is not owner-controlled".toList
  else
    let fresh ← openRecord owner
    orThrow (← ask .flock)
    let previous ← orThrow (← ask (.read fresh))
    if previous ≠ [] && previous ≠ retain && previous ≠ Uninstall.clean then
      throw "unrecognized SRK retention state".toList
    else
      write retain
      orThrow (← ask .syncParent)
      pure { priorUncertain := !fresh && previous ≠ Uninstall.clean, state := .retained }

/-- `Retention::begin`. -/
def begin (owner : Nat) : Attempt Retention :=
  ExceptT.mk do
    match ← (establish owner).run with
    | .ok retained => pure (.ok retained)
    | .error e => pure (.error ("SRK retention could not be established: ".toList ++ e))

def requireFresh (r : Retention) (recovery : Text) : Except Text Unit :=
  if r.priorUncertain then
    .error ("an earlier uninstall left retained state; this teardown refuses destruction. ".toList ++ recovery)
  else .ok ()

/-- `Retention::complete`. -/
def complete (r : Retention) : Run (Except Text Unit × Retention) := do
  if r.priorUncertain then pure (.error "an earlier incomplete uninstall keeps the SRK".toList, r)
  else
    match ← (write Uninstall.clean).run with
    | .error e =>
      pure (.error ("cannot complete SRK retention record: ".toList ++ e), { r with state := .unverified })
    | .ok () => pure (.ok (), { r with state := .clean })

end Retention

/-! ## The teardown -/

def mayEvictSrk (dataWiped overrideActive : Bool) (envelopes : Except Text (List Text)) : Bool :=
  dataWiped && !overrideActive &&
    match envelopes with
    | .ok envelopes => envelopes.isEmpty
    | .error _ => false

def manualRecovery : Text :=
  "Fixing the reported error alone does not clear /var/lib/irlume-uninstall-srk-retention. ".toList ++
    "Later teardown requires manual recovery: preserve earlier unit/envfile configurations and ".toList ++
    "store-path evidence; keep data and the SRK if that evidence cannot be reconstructed. ".toList ++
    "Do not unlink or replace the record. Follow ".toList ++
    "https://github.com/archledger/irlume/blob/main/docs/DISABLE.md#manual-uninstall-recovery ".toList ++
    "for exclusive-flock, same-inode recovery; no automatic reset exists.".toList

/-- `perform_held_teardown`, of the attempt `n`. -/
def performHeldTeardown (n : Nat) (retained : Retention) : Run Retention := do
  match retained.requireFresh manualRecovery with
  | .error _ => pure retained
  | .ok () =>
    match ← call .teardown with
    | none => pure retained
    | some swept =>
      if mayEvictSrk swept.dataWiped (swept.overridden || retained.priorUncertain) swept.survivors then
        match ← call .stillQuiescent with
        | .error _ => pure retained
        | .ok () =>
          call (.completing n)
          let (result, retained) ← retained.complete
          match result with
          | .error _ => pure retained
          | .ok () =>
            call (.evict n)
            pure retained
      else pure retained

/-- `perform_teardown`: one attempt, which root owns. -/
def performTeardown : Run Unit := do
  match ← (Retention.begin 0).run with
  | .error _ => call .drop
  | .ok retained =>
    let n ← call (.begun retained.priorUncertain)
    let _ ← performHeldTeardown n retained
    call .drop

/-! ## The machine -/

/-- An attempt whose `begin` has returned. -/
structure Begun where
  uncertain : Bool
  completing : Bool
  evicted : Bool
  deriving DecidableEq

/-- It has called `complete`, and nothing before it was unfinished. -/
def Begun.done (a : Begun) : Bool := a.completing && !a.uncertain

structure World where
  /-- The record's name is in its directory. -/
  entry : Bool
  entryDurable : Bool
  file : InPlaceFile
  lock : Option Nat
  /-- The attempts whose `begin` has returned, in that order. -/
  begun : List Begun

/-- How a call goes. -/
inductive Choice where
  | works
  | fails (message : Text)
  | short (n : Nat)
  | sees (seen : Metadata)
  | finds (swept : Option Swept)

def World.perform (p : Nat) (_ : Unit) (w : World) : (op : Op) → Choice → Option (op.Answer × World)
  | .openParent, .sees seen => some (.ok seen, w)
  | .openParent, .fails e => some (.error e, w)
  | .createNew, .works =>
    if w.entry then some (.error .alreadyExists, w)
    else some (.ok (), { w with entry := true, file := .settled [] })
  | .createNew, .fails e => some (.error (.other e), w)
  | .pin, .sees seen => some (.ok seen, w)
  | .pin, .fails e => some (.error e, w)
  | .openPinned, .works => some (.ok (), w)
  | .openPinned, .fails e => some (.error e, w)
  | .flock, .works =>
    match w.lock with
    | some _ => some (.error "Resource temporarily unavailable (os error 11)".toList, w)
    | none => some (.ok (), { w with lock := some p })
  | .flock, .fails e => some (.error e, w)
  | .read _, .works => some (.ok (w.file.visible.take 128), w)
  | .read _, .fails e => some (.error e, w)
  | .seek, .works => some (.ok (), w)
  | .seek, .fails e => some (.error e, w)
  | .write i bs, .works => some (.ok bs.length, { w with file := w.file.write i bs })
  | .write i bs, .short n =>
    if n < bs.length then some (.ok n, { w with file := w.file.write i (bs.take n) }) else none
  | .write _ _, .fails e => some (.error e, w)
  | .setLen n, .works => some (.ok (), { w with file := w.file.resize n })
  | .setLen _, .fails e => some (.error e, w)
  | .sync, .works => some (.ok (), { w with file := w.file.sync })
  | .sync, .fails e => some (.error e, w)
  | .syncParent, .works => some (.ok (), { w with entryDurable := w.entry })
  | .syncParent, .fails e => some (.error e, w)
  | .drop, .works => some ((), { w with lock := w.lock.filter (· ≠ p) })
  | .begun uncertain, .works =>
    some (w.begun.length, { w with begun := w.begun ++ [⟨uncertain, false, false⟩] })
  | .teardown, .finds swept => some (swept, w)
  | .stillQuiescent, .works => some (.ok (), w)
  | .stillQuiescent, .fails e => some (.error e, w)
  | .completing n, .works =>
    some ((), { w with begun := w.begun.modify n fun a => { a with completing := true } })
  | .evict n, .works =>
    some ((), { w with begun := w.begun.modify n fun a => { a with evicted := true } })
  | _, _ => none

def World.leave (p : Nat) (w : World) : World := { w with lock := w.lock.filter (· ≠ p) }

/-- What of the changes that were not synced reached the disk. -/
structure Loss where
  kept : List Bool
  entryKept : Bool

def World.powerLoss (w : World) (loss : Loss) : World :=
  let entry := w.entry && (w.entryDurable || loss.entryKept)
  { w with
    entry, entryDurable := entry, lock := none,
    file := if entry then w.file.powerLoss loss.kept else .settled [] }

def noFile : World := { entry := false, entryDurable := false, file := .settled [], lock := none, begun := [] }

abbrev State := Processes World Unit Op Op.Answer

abbrev Event := Processes.WorldEvent Unit Choice Loss

def step : State → Event → Option State :=
  Processes.stepWith (fun _ => performTeardown) World.perform World.leave World.powerLoss

end Irlume.Uninstall

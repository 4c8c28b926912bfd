import Irlume.Cameras.Commit
import Irlume.Lib.StagedWrite

/-!
# The commit protocol on the files

`commit.rs` with every file operation and the faults it may meet. The store and its journal are written through staging
files whose names carry the process id, so of one process each write of a file stages at the same name.

The names are those in the store's directory, which `prepare_with_intent_key` has made.
-/

namespace Irlume.Cameras

open Irlume.Lib

abbrev Directory := Text → Option Bytes

/-! ## Names -/

def commitStagingTag : Text := "commit-tmp"

/-- `intent_path_for` -/
def intentPathFor (secondary : Text) : Text := secondary ++ ".intent"

/-- `staging_path` -/
def stagingPath (pid : Nat) (path tag : Text) : Text := "." ++ path ++ "." ++ tag ++ "-" ++ decimal pid

/-- Where a `durable_write` of the path stages. -/
def commitStaging (pid : Nat) (path : Text) : Text := stagingPath pid path commitStagingTag

variable {pid : Nat} {path secondary : Text}

theorem length_commitStaging : (commitStaging pid path).length = path.length + 13 + (decimal pid).length := by
  simp only [commitStaging, stagingPath, List.length_append]
  have hdot : (".".toList : Text).length = 1 := rfl
  have htag : commitStagingTag.length = 10 := rfl
  have hdash : ("-".toList : Text).length = 1 := rfl
  omega

theorem length_intentPathFor : (intentPathFor secondary).length = secondary.length + 7 := by
  rw [intentPathFor, List.length_append]
  rfl

theorem commitStaging_ne : commitStaging pid path ≠ path := by
  intro h
  have hlength := congrArg List.length h
  rw [length_commitStaging] at hlength
  omega

theorem intentPathFor_ne : intentPathFor secondary ≠ secondary := by
  intro h
  have hlength := congrArg List.length h
  rw [length_intentPathFor] at hlength
  omega

theorem intentPathFor_ne_staging : intentPathFor secondary ≠ commitStaging pid secondary := by
  intro h
  have hlength := congrArg List.length h
  rw [length_intentPathFor, length_commitStaging] at hlength
  omega

theorem staging_ne_staging : commitStaging pid (intentPathFor secondary) ≠ commitStaging pid secondary := by
  intro h
  have hlength := congrArg List.length h
  rw [length_commitStaging, length_commitStaging, length_intentPathFor] at hlength
  omega

theorem intentStaging_ne : commitStaging pid (intentPathFor secondary) ≠ secondary := by
  intro h
  have hlength := congrArg List.length h
  rw [length_commitStaging, length_intentPathFor] at hlength
  omega

/-! ## The operations -/

/-- `durable_write` -/
def durableWrite (pid : Nat) (path : Text) (content : Bytes) (fault : Option StagedFault) (d : Directory) :
    Except FileError Unit × Directory :=
  stagedWrite path (commitStaging pid path) content fault d

def complete (pid : Nat) (secondary : Text) (content : Bytes) (store : Option StagedFault)
    (removal : Option RemovalFault) (d : Directory) : Except FileError Unit × Directory :=
  andThen (durableWrite pid secondary content store d) fun _ d => removeFile (intentPathFor secondary) removal d

structure PublishFaults where
  journal : Option StagedFault
  store : Option StagedFault
  removal : Option RemovalFault

def PublishFaults.none : PublishFaults := ⟨Option.none, Option.none, Option.none⟩

variable {Scan Calib : Type}

/-- `PreparedSecondaryCommit::publish` -/
def PreparedSecondaryCommit.publish (pid : Nat) (secondary : Text) (p : PreparedSecondaryCommit Scan Calib)
    (faults : PublishFaults) (d : Directory) : Except FileError Unit × Directory :=
  andThen (durableWrite pid (intentPathFor secondary) p.journal faults.journal d) fun _ d =>
    complete pid secondary p.bytes faults.store faults.removal d

structure ResolveFaults where
  /-- The journal cannot be read. -/
  unreadable : Bool
  store : Option StagedFault
  removal : Option RemovalFault

def ResolveFaults.none : ResolveFaults := ⟨false, Option.none, Option.none⟩

inductive ResolveError where
  | file (error : FileError)
  | journal (error : CommitError)

/-- `resolve_commit` -/
def Codec.resolveCommit (c : Codec Scan Calib) (pid : Nat) (secondary : Text) (faults : ResolveFaults) (d : Directory) :
    Except ResolveError CommitResolution × Directory :=
  if faults.unreadable then (.error (.file .unreadable), d)
  else
    match d (intentPathFor secondary) with
    | none => (.ok .clean, d)
    | some journal =>
      match c.journalPayload journal with
      | .error e => (.error (.journal e), d)
      | .ok bytes =>
        let done := complete pid secondary bytes faults.store faults.removal d
        (done.1.mapError .file |>.map fun _ => .completed, done.2)

/-! ## Without faults -/

section

variable {d : Directory} {p : PreparedSecondaryCommit Scan Calib} {c : Codec Scan Calib} {journal bytes : Bytes}

theorem publish_of_free (hjournal : d (commitStaging pid (intentPathFor secondary)) = none)
    (hstore : d (commitStaging pid secondary) = none) :
    p.publish pid secondary .none d =
      (.ok (), Function.update (Function.update (Function.update d (intentPathFor secondary) (some p.journal))
        secondary (some p.bytes)) (intentPathFor secondary) none) := by
  have hfree : Function.update d (intentPathFor secondary) (some p.journal) (commitStaging pid secondary) = none := by
    rw [Function.update_of_ne intentPathFor_ne_staging.symm, hstore]
  have hwritten : Function.update (Function.update d (intentPathFor secondary) (some p.journal)) secondary
      (some p.bytes) (intentPathFor secondary) = some p.journal := by
    rw [Function.update_of_ne intentPathFor_ne, Function.update_self]
  simp only [PreparedSecondaryCommit.publish, PublishFaults.none, complete, durableWrite, andThen,
    stagedWrite_of_none hjournal, stagedWrite_of_none hfree, removeFile_of_some hwritten]

theorem publish_ok_iff : (p.publish pid secondary .none d).1 = .ok () ↔
    d (commitStaging pid (intentPathFor secondary)) = none ∧ d (commitStaging pid secondary) = none := by
  cases hjournal : d (commitStaging pid (intentPathFor secondary)) with
  | some old =>
    simp [PreparedSecondaryCommit.publish, PublishFaults.none, durableWrite, andThen, stagedWrite_refused hjournal]
  | none =>
    cases hstore : d (commitStaging pid secondary) with
    | some old =>
      have hleft : Function.update d (intentPathFor secondary) (some p.journal) (commitStaging pid secondary) =
          some old := by
        rw [Function.update_of_ne intentPathFor_ne_staging.symm, hstore]
      simp [PreparedSecondaryCommit.publish, PublishFaults.none, complete, durableWrite, andThen,
        stagedWrite_of_none hjournal, stagedWrite_refused hleft]
    | none => simp [publish_of_free hjournal hstore]

theorem resolveCommit_of_free (hjournal : d (intentPathFor secondary) = some journal)
    (hpayload : c.journalPayload journal = .ok bytes) (hstore : d (commitStaging pid secondary) = none) :
    c.resolveCommit pid secondary .none d =
      (.ok .completed, Function.update (Function.update d secondary (some bytes)) (intentPathFor secondary) none) := by
  have hkept : Function.update d secondary (some bytes) (intentPathFor secondary) = some journal := by
    rw [Function.update_of_ne intentPathFor_ne, hjournal]
  simp [Codec.resolveCommit, ResolveFaults.none, hjournal, hpayload, complete, durableWrite, andThen,
    stagedWrite_of_none hstore, removeFile_of_some hkept, Except.mapError, Except.map]

theorem resolveCommit_ok_iff : (∃ resolution, (c.resolveCommit pid secondary .none d).1 = .ok resolution) ↔
    ∀ journal ∈ d (intentPathFor secondary),
      (∃ bytes, c.journalPayload journal = .ok bytes) ∧ d (commitStaging pid secondary) = none := by
  cases hjournal : d (intentPathFor secondary) with
  | none => simp [Codec.resolveCommit, ResolveFaults.none, hjournal]
  | some journal =>
    simp only [Option.mem_some_iff, forall_eq']
    cases hpayload : c.journalPayload journal with
    | error e => simp [Codec.resolveCommit, ResolveFaults.none, hjournal, hpayload]
    | ok bytes =>
      cases hstore : d (commitStaging pid secondary) with
      | none => simp [resolveCommit_of_free hjournal hpayload hstore]
      | some old =>
        simp [Codec.resolveCommit, ResolveFaults.none, hjournal, hpayload, complete, durableWrite, andThen,
          stagedWrite_refused hstore, Except.mapError, Except.map]

end

end Irlume.Cameras

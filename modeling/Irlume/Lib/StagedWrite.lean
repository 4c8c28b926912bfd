import Mathlib.Data.List.Basic

/-!
# A file written through a staging file

The files of a directory by name. A write creates a staging file, which must not be there yet, fills it, syncs
it and renames it over the file; it may fail at each step. A failed rename removes the staging file again, a
failure before it does not, and a staging file that was left refuses every later write that stages there.
-/

namespace Irlume.Lib

universe u v

/-- Where a write fails. -/
inductive StagedFault where
  | create
  /-- Only the first `written` elements are in the staging file. -/
  | write (written : Nat)
  | sync
  /-- `cleaned`: the staging file could be removed after the rename failed. -/
  | rename (cleaned : Bool)
  /-- The sync of the directory, after the rename. -/
  | syncDir
  deriving DecidableEq

inductive RemovalFault where
  | remove
  | syncDir

/-- What a file operation fails with. -/
inductive FileError where
  | alreadyExists
  | notFound
  | staged (fault : StagedFault)
  | removal (fault : RemovalFault)
  | unreadable

def StagedFault.leaves : StagedFault → Bool
  | .write _ | .sync | .rename false => true
  | _ => false

section

variable {N : Type u} [DecidableEq N] {α : Type v}

/-- One more operation, if the one before succeeded; what it left stays in any case. -/
def andThen {σ ε β γ : Type*} (r : Except ε β × σ) (k : β → σ → Except ε γ × σ) : Except ε γ × σ :=
  match r.1 with
  | .ok b => k b r.2
  | .error e => (.error e, r.2)

/-- A write's result, and the directory it leaves. -/
def stagedWrite (path staging : N) (content : List α) (fault : Option StagedFault) (d : N → Option (List α)) :
    Except FileError Unit × (N → Option (List α)) :=
  if fault = some .create then (.error (.staged .create), d)
  else if (d staging).isSome then (.error .alreadyExists, d)
  else
    match fault with
    | none => (.ok (), Function.update (Function.update d staging none) path (some content))
    | some .create => (.error (.staged .create), d)
    | some (.write n) => (.error (.staged (.write n)), Function.update d staging (some (content.take n)))
    | some .sync => (.error (.staged .sync), Function.update d staging (some content))
    | some (.rename cleaned) =>
      (.error (.staged (.rename cleaned)),
        Function.update d staging (if cleaned then none else some content))
    | some .syncDir =>
      (.error (.staged .syncDir), Function.update (Function.update d staging none) path (some content))

def removeFile (path : N) (fault : Option RemovalFault) (d : N → Option (List α)) :
    Except FileError Unit × (N → Option (List α)) :=
  if (d path).isNone then (.error .notFound, d)
  else
    match fault with
    | none => (.ok (), Function.update d path none)
    | some .remove => (.error (.removal .remove), d)
    | some .syncDir => (.error (.removal .syncDir), Function.update d path none)

variable {path staging name : N} {content : List α} {d : N → Option (List α)}

theorem stagedWrite_of_none (h : d staging = none) :
    stagedWrite path staging content none d = (.ok (), Function.update d path (some content)) := by
  have hstaging : Function.update d staging none = d := by
    rw [← h, Function.update_eq_self]
  simp [stagedWrite, h, hstaging]

variable {old : List α}

theorem stagedWrite_refused (h : d staging = some old) :
    stagedWrite path staging content none d = (.error .alreadyExists, d) := by
  simp [stagedWrite, h]

/-- **A write that meets no fault succeeds exactly where no staging file is.** -/
theorem stagedWrite_ok_iff :
    (stagedWrite path staging content none d).1 = .ok () ↔ d staging = none := by
  cases h : d staging with
  | none => simp [stagedWrite_of_none h]
  | some old => simp [stagedWrite_refused h]

theorem stagedWrite_fault (fault : StagedFault) :
    ∃ e, (stagedWrite path staging content (some fault) d).1 = .error e := by
  unfold stagedWrite
  split
  · exact ⟨_, rfl⟩
  · split
    · exact ⟨_, rfl⟩
    · cases fault <;> exact ⟨_, rfl⟩

theorem stagedWrite_of_some (h : d staging = some old) (fault : Option StagedFault) :
    (stagedWrite path staging content fault d).2 = d := by
  unfold stagedWrite
  split
  · rfl
  · rw [h, Option.isSome_some, if_pos rfl]

/-- **After a write no staging file is there exactly if none was and the write met no fault that leaves it.** -/
theorem stagedWrite_staging_eq_none_iff (hne : staging ≠ path) {fault : Option StagedFault} :
    (stagedWrite path staging content fault d).2 staging = none ↔
      d staging = none ∧ ∀ f ∈ fault, f.leaves = false := by
  cases hd : d staging with
  | some old => simp [stagedWrite_of_some hd, hd]
  | none =>
    cases fault with
    | none => simp [stagedWrite_of_none hd, Function.update_of_ne hne, hd]
    | some f =>
      cases f with
      | create => simp [stagedWrite, hd, StagedFault.leaves]
      | write n => simp [stagedWrite, hd, StagedFault.leaves]
      | sync => simp [stagedWrite, hd, StagedFault.leaves]
      | rename cleaned => cases cleaned <;> simp [stagedWrite, hd, StagedFault.leaves]
      | syncDir => simp [stagedWrite, hd, StagedFault.leaves, Function.update_of_ne hne]

theorem stagedWrite_frame (hpath : name ≠ path) (hstaging : name ≠ staging) (fault : Option StagedFault) :
    (stagedWrite path staging content fault d).2 name = d name := by
  unfold stagedWrite
  split
  · rfl
  · split
    · rfl
    · split <;> simp [Function.update_of_ne, hpath, hstaging]

theorem stagedWrite_path (hne : staging ≠ path) (fault : Option StagedFault) :
    (stagedWrite path staging content fault d).2 path = d path ∨
      (stagedWrite path staging content fault d).2 path = some content := by
  unfold stagedWrite
  split
  · exact .inl rfl
  · split
    · exact .inl rfl
    · split <;> simp [Function.update_of_ne hne.symm]

theorem removeFile_of_some (h : d path = some old) :
    removeFile path none d = (.ok (), Function.update d path none) := by
  simp [removeFile, h]

theorem removeFile_frame (hne : name ≠ path) (fault : Option RemovalFault) :
    (removeFile path fault d).2 name = d name := by
  unfold removeFile
  split
  · rfl
  · split <;> simp [Function.update_of_ne hne]

theorem removeFile_path (fault : Option RemovalFault) :
    (removeFile path fault d).2 path = d path ∨ (removeFile path fault d).2 path = none := by
  unfold removeFile
  split
  · exact .inl rfl
  · split <;> simp

end

end Irlume.Lib

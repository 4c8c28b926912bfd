import Mathlib.Data.Option.Basic
import Mathlib.Data.List.GetD

/-!
# A file replaced by renames

One file of a directory, replaced whole by writing a temporary file and renaming it over the old
one. What a reader sees (`visible`) and what survives a power loss (`durable`) differ between a
rename and the sync of its directory: a rename whose sync failed is visible and may still be lost.
A reader that syncs before it answers makes what it read durable.
-/

namespace Irlume.Lib

/-- How a write by a rename ends. -/
inductive WriteOutcome where
  /-- Renamed and synced. -/
  | durable
  /-- Failed before the rename: the old content stays. -/
  | failed
  /-- Renamed, and the sync of the directory failed. -/
  | visible
  deriving DecidableEq

/-- The content a reader sees and the content a power loss leaves; `none` for no file. -/
structure DurableFile (α : Type) where
  visible : Option α
  durable : Option α

namespace DurableFile

variable {α : Type}

def settled (content : Option α) : DurableFile α := ⟨content, content⟩

def write (f : DurableFile α) (o : WriteOutcome) (a : α) : DurableFile α :=
  match o with
  | .durable => ⟨some a, some a⟩
  | .failed => f
  | .visible => ⟨some a, f.durable⟩

/-- What a write or a removal leaves that is followed by the sync of the directory. -/
def replace (f : DurableFile α) (o : WriteOutcome) (content : Option α) : DurableFile α :=
  match o with
  | .durable => settled content
  | .failed => f
  | .visible => ⟨content, f.durable⟩

def sync (f : DurableFile α) : DurableFile α := ⟨f.visible, f.visible⟩

/-- A power loss. `kept` says whether a rename that was never synced reached the disk anyway. -/
def powerLoss (f : DurableFile α) (kept : Bool) : DurableFile α :=
  if kept then f.sync else ⟨f.durable, f.durable⟩

/-- Both views of the file satisfy `P`. -/
def Both (P : Option α → Prop) (f : DurableFile α) : Prop := P f.visible ∧ P f.durable

variable {P : Option α → Prop} {f : DurableFile α}

theorem eq_settled_iff {content : Option α} : f = settled content ↔ f.Both (· = content) := by
  constructor
  · intro h
    rw [h]
    exact ⟨rfl, rfl⟩
  · intro h
    obtain ⟨visible, durable⟩ := f
    exact congrArg₂ DurableFile.mk h.1 h.2

theorem Both.sync (h : f.Both P) : f.sync.Both P := ⟨h.1, h.1⟩

theorem Both.powerLoss (h : f.Both P) (kept : Bool) : (f.powerLoss kept).Both P := by
  unfold DurableFile.powerLoss
  split
  · exact h.sync
  · exact ⟨h.2, h.2⟩

theorem Both.write (h : f.Both P) (o : WriteOutcome) {a : α} (ha : P (some a)) :
    (f.write o a).Both P := by
  cases o with
  | durable => exact ⟨ha, ha⟩
  | failed => exact h
  | visible => exact ⟨ha, h.2⟩

theorem Both.replace (h : f.Both P) (o : WriteOutcome) {content : Option α} (hc : P content) :
    (f.replace o content).Both P := by
  cases o with
  | durable => exact ⟨hc, hc⟩
  | failed => exact h
  | visible => exact ⟨hc, h.2⟩

theorem replace_settled (o : WriteOutcome) (content : Option α) :
    (settled content).replace o content = settled content := by
  cases o <;> rfl

theorem powerLoss_settled (content : Option α) (kept : Bool) :
    (settled content).powerLoss kept = settled content := by
  cases kept <;> rfl

theorem Both.mono {Q : Option α → Prop} (hPQ : ∀ c, P c → Q c) (h : f.Both P) : f.Both Q :=
  ⟨hPQ _ h.1, hPQ _ h.2⟩

end DurableFile

end Irlume.Lib

/-!
## A file with all the contents a power loss may leave

A file replaced by renames, some of them never synced, in a row. A reader sees the last one. A power loss may
leave it, the content last synced, or any content in between; a write that is synced leaves no other.
-/

namespace Irlume.Lib

/-- The content a reader sees, and the other contents a power loss may leave; `none` for no file. -/
structure PendingFile (α : Type) where
  visible : Option α
  older : List (Option α)

namespace PendingFile

variable {α : Type}

def settled (content : Option α) : PendingFile α := ⟨content, []⟩

def contents (f : PendingFile α) : List (Option α) := f.visible :: f.older

def write (f : PendingFile α) (o : WriteOutcome) (a : α) : PendingFile α :=
  match o with
  | .durable => settled (some a)
  | .failed => f
  | .visible => ⟨some a, f.contents⟩

/-- A power loss that leaves the content at position `n`. -/
def powerLoss (f : PendingFile α) (n : Nat) : PendingFile α := settled (f.contents.getD n f.visible)

/-- A power loss may leave a content that is not the one a reader sees, as far as `P` goes. -/
def Hides (P : Option α → Prop) (f : PendingFile α) : Prop := ¬ P f.visible ∧ ∃ c ∈ f.older, P c

variable {P : Option α → Prop} {f : PendingFile α} {o : WriteOutcome} {a : α}

theorem not_hides_settled {content : Option α} : ¬ (settled content).Hides P := by
  rintro ⟨-, c, hc, -⟩
  cases hc

theorem not_hides_powerLoss (n : Nat) : ¬ (f.powerLoss n).Hides P := not_hides_settled

theorem not_mem_of_not_hides (h : ¬ f.Hides P) (hvisible : ¬ P f.visible) : ∀ c ∈ f.contents, ¬ P c := by
  intro c hc hP
  rcases List.mem_cons.1 hc with rfl | hc
  · exact hvisible hP
  · exact h ⟨hvisible, c, hc, hP⟩

theorem Hides.of_write (h : (f.write o a).Hides P) :
    f.Hides P ∨ o = .visible ∧ ¬ P (some a) ∧ P f.visible := by
  cases o with
  | durable => exact absurd h not_hides_settled
  | failed => exact .inl h
  | visible =>
    obtain ⟨hnew, c, hc, hP⟩ := h
    rcases List.mem_cons.1 hc with rfl | hc
    · exact .inr ⟨rfl, hnew, hP⟩
    · by_cases hvisible : P f.visible
      · exact .inr ⟨rfl, hnew, hvisible⟩
      · exact .inl ⟨hvisible, c, hc, hP⟩

theorem mem_contents_powerLoss {content : Option α} {n : Nat} (h : content ∈ (f.powerLoss n).contents) :
    content ∈ f.contents := by
  rw [List.mem_singleton.1 h, powerLoss, settled]
  by_cases hn : n < f.contents.length
  · rw [List.getD_eq_getElem _ _ hn]
    exact List.getElem_mem hn
  · rw [List.getD_eq_default _ _ (Nat.le_of_not_lt hn)]
    exact List.mem_cons_self

end PendingFile

end Irlume.Lib

import Irlume.Addition.Publish

/-!
# What the others and the addition's calls keep

A call of the addition changes one of the two files in two ways only: settling an interrupted replacement removes the
secondary store that the record names, and the publication writes the new one (`act_cases`). The contents the two files
have had are never forgotten, so a content of the secondary store that is gone does not come back (`Since`).
-/

namespace Irlume.Addition

open Irlume.Lib Irlume.Cameras
open Irlume.Replacement (Files Record Instr)
open Irlume.Sealed (Error Resolution)

def DigestsDistinct (sha256Hex : Bytes → Text) (contents : List Bytes) : Prop :=
  ∀ a ∈ contents, ∀ b ∈ contents, sha256Hex a = sha256Hex b → a = b

instance (sha256Hex : Bytes → Text) (contents : List Bytes) : Decidable (DigestsDistinct sha256Hex contents) := by
  unfold DigestsDistinct
  infer_instance

theorem DigestsDistinct.mono {sha256Hex : Bytes → Text} {contents contents' : List Bytes}
    (h : DigestsDistinct sha256Hex contents') (hsub : contents ⊆ contents') : DigestsDistinct sha256Hex contents :=
  fun a ha b hb heq => h a (hsub ha) b (hsub hb) heq

variable {Enr : Type} {sha256Hex : Bytes → Text} {w t : World} {op : Op} {choice : Choice Enr} {answer : Answer Enr op}

/-- The removal of the secondary store that the record of an interrupted replacement names. -/
def Change.SettledAway (sha256Hex : Bytes → Text) (ch : Change) : Prop :=
  ∃ record, ch.op = .exec record (.removeIfRecorded .store) ∧
    ch.before.store.map sha256Hex = record.cameraStore ∧ ch.after = ⟨ch.before.primary, none⟩

/-! ## One call -/

theorem exec_contents (sha256Hex : Bytes → Text) (record : Record) (files : Files) (o : WriteOutcome) (instr : Instr) :
    (instr.exec sha256Hex record files o).enrollment.visible = files.enrollment.visible ∧
      (((instr.exec sha256Hex record files o).removable .store).visible = (files.removable .store).visible ∨
        instr = .removeIfRecorded .store ∧
          (files.removable .store).visible.map sha256Hex = record.cameraStore ∧
          ((instr.exec sha256Hex record files o).removable .store).visible = none) := by
  cases instr with
  | syncEnrollment => cases o <;> exact ⟨rfl, .inl rfl⟩
  | putKeyBack => exact ⟨rfl, .inl rfl⟩
  | removeRecord => exact ⟨rfl, .inl rfl⟩
  | removeIfRecorded f =>
    refine ⟨rfl, ?_⟩
    by_cases hf : f = .store
    · subst hf
      simp only [Instr.exec, Function.update_self, true_and]
      by_cases hrecorded : record.cameraStore.isSome ∧
          (files.removable .store).visible.map sha256Hex = record.cameraStore
      · have hgone : Replacement.unlessRecorded sha256Hex (record.digestOf .store)
            (files.removable .store).visible = none := if_pos hrecorded
        rw [hgone]
        cases o with
        | failed => exact .inl rfl
        | durable => exact .inr ⟨hrecorded.2, rfl⟩
        | visible => exact .inr ⟨hrecorded.2, rfl⟩
      · have hkept : Replacement.unlessRecorded sha256Hex (record.digestOf .store)
            (files.removable .store).visible = (files.removable .store).visible := if_neg hrecorded
        rw [hkept]
        left
        cases o <;> rfl
    · left
      simp only [Instr.exec, Function.update_of_ne (Ne.symm hf)]

theorem replace_journal_contents (o : WriteOutcome) (content : Option Bytes) :
    (w.replace .journal o content).contents = w.contents := by
  simp [World.replace, World.contents]

theorem replace_store_contents (o : WriteOutcome) (content : Option Bytes) :
    (w.replace .store o content).contents = w.contents ∨
      o ≠ .failed ∧ (w.replace .store o content).contents = ⟨w.primary, content⟩ := by
  cases o with
  | failed => left; simp [World.replace, World.contents, DurableFile.replace]
  | durable => right; simp [World.replace, World.contents, World.primary, DurableFile.replace, DurableFile.settled]
  | visible => right; simp [World.replace, World.contents, World.primary, DurableFile.replace]

/-- The calls that are not part of the commit's own publication and not part of a load of the store. -/
def Op.isQuiet : Op → Bool
  | .readStore reading => reading = .digest
  | .writeJournal _ | .writeStore _ | .removeJournal => false
  | _ => true

def Op.begins : Op → Bool
  | .writeJournal _ | .writeStore _ => true
  | _ => false

theorem Op.begins_of_isQuiet (h : op.isQuiet = true) : (!op.begins) = true := by
  cases op <;> first | rfl | cases h

/-- What a call leaves before it is written down. -/
structure Acted (sha256Hex : Bytes → Text) (w : World) (op : Op) (t : World) : Prop where
  primaries : t.primaries = w.primaries
  stores : t.stores = w.stores
  changes : t.changes = w.changes
  contents : t.contents = w.contents ∨
    (∃ record, op = .exec record (.removeIfRecorded .store) ∧ w.store.map sha256Hex = record.cameraStore ∧
      t.contents = ⟨w.primary, none⟩) ∨
    ∃ bytes, op = .writeStore bytes ∧ t.contents = ⟨w.primary, some bytes⟩
  firstRead : ∀ r, w.firstRead = some r → t.firstRead = some r
  loaded : (∀ reading, op ≠ .readStore reading) ∨ op = .readStore .digest → t.loaded = w.loaded
  began : op.begins = true → t.began = true
  unbegun : op.begins = false → t.began = w.began
  lock : op ≠ .acquire → op ≠ .release → t.lock = w.lock

theorem acted_same (sha256Hex : Bytes → Text) (w : World) (op : Op) (h : op.begins = false) :
    Acted sha256Hex w op w where
  primaries := rfl
  stores := rfl
  changes := rfl
  contents := .inl rfl
  firstRead _ h := h
  loaded _ := rfl
  began hop := by rw [h] at hop; cases hop
  unbegun _ := rfl
  lock _ _ := rfl

/-- **One call.** -/
theorem act_cases (h : act sha256Hex w op choice = some (answer, t)) : Acted sha256Hex w op t := by
  cases op with
  | readStore reading =>
    cases h
    unfold World.readStore
    split
    · exact acted_same _ _ _ rfl
    · refine { acted_same sha256Hex w (.readStore reading) rfl with firstRead := ?_, loaded := ?_ }
      · intro r hr
        simp only [hr, Option.getD_some]
      · rintro (hother | hdigest)
        · exact absurd rfl (hother reading)
        · exact if_pos (Op.readStore.inj hdigest)
  | acquire =>
    dsimp only [act] at h
    split at h
    · cases h
      exact acted_same _ _ _ rfl
    · split at h
      · cases h
        exact { acted_same sha256Hex w .acquire rfl with lock := fun hop => absurd rfl hop }
      · cases h
  | release =>
    cases h
    exact { acted_same sha256Hex w .release rfl with lock := fun _ hop => absurd rfl hop }
  | exec record instr =>
    cases h
    refine { acted_same sha256Hex w (.exec record instr) rfl with contents := ?_ }
    obtain ⟨hprimary, hstore | ⟨rfl, hrecorded, hgone⟩⟩ :=
      exec_contents sha256Hex record w.files choice.outcome instr
    · exact .inl (congrArg₂ Contents.mk hprimary hstore)
    · exact .inr (.inl ⟨record, rfl, hrecorded, congrArg₂ Contents.mk hprimary hgone⟩)
  | writeJournal journal =>
    cases h
    exact {
      primaries := rfl
      stores := rfl
      changes := rfl
      contents := .inl (replace_journal_contents _ _)
      firstRead := fun _ h => h
      loaded := fun _ => rfl
      began := fun _ => rfl
      unbegun := fun hop => by cases hop
      lock := fun _ _ => rfl }
  | writeStore bytes =>
    cases h
    exact {
      primaries := rfl
      stores := rfl
      changes := rfl
      contents := (replace_store_contents choice.outcome (some bytes)).imp id fun hwritten =>
        .inr ⟨bytes, rfl, hwritten.2⟩
      firstRead := fun _ h => h
      loaded := fun _ => rfl
      began := fun _ => rfl
      unbegun := fun hop => by cases hop
      lock := fun _ _ => rfl }
  | removeJournal =>
    cases h
    exact { acted_same sha256Hex w .removeJournal rfl with
      contents := .inl (replace_journal_contents _ _) }
  | _ =>
    cases h
    exact acted_same _ _ _ rfl

theorem perform_iff : perform sha256Hex w op choice = some (answer, t) ↔
    ∃ t', act sha256Hex w op choice = some (answer, t') ∧ t = w.recorded op t' := by
  unfold perform
  rw [Option.map_eq_some_iff]
  constructor
  · rintro ⟨⟨a, t'⟩, hact, heq⟩
    cases heq
    exact ⟨t', hact, rfl⟩
  · rintro ⟨t', hact, rfl⟩
    exact ⟨(answer, t'), hact, rfl⟩

/-! ## What is written down -/

/-- The contents of the two files are among those they have had; before the publication begins, all that was changed
is a store that settling removed. -/
structure World.Sound (sha256Hex : Bytes → Text) (w : World) : Prop where
  primary : ∀ b, w.primary = some b → b ∈ w.primaries
  store : ∀ b, w.store = some b → b ∈ w.stores
  quiet : w.began = false → ∀ ch ∈ w.changes, ch.SettledAway sha256Hex

def World.Grows (w t : World) : Prop := w.primaries ⊆ t.primaries ∧ w.stores ⊆ t.stores

theorem World.Grows.trans {u : World} (h : w.Grows t) (h' : t.Grows u) : w.Grows u :=
  ⟨List.Subset.trans h.1 h'.1, List.Subset.trans h.2 h'.2⟩

theorem noted_primary {b : Bytes} (h : w.primary = some b) : b ∈ w.noted.primaries := by
  simp [World.noted, h]

theorem noted_store {b : Bytes} (h : w.store = some b) : b ∈ w.noted.stores := by
  simp [World.noted, h]

variable {x : OtherStep}

theorem other_cases (h : otherStep w x = some t) :
    (∃ lock, t = { w with lock }) ∨ ∃ files, w.lock = .theirs ∧ w.Fresh files ∧ t = { w with files }.noted := by
  unfold otherStep at h
  split at h
  · split at h
    · exact .inl ⟨.theirs, (Option.some.inj h).symm⟩
    · cases h
  · split at h
    · exact .inl ⟨.free, (Option.some.inj h).symm⟩
    · cases h
  · next files =>
    split at h
    · next hwrite => exact .inr ⟨files, hwrite.1, hwrite.2, (Option.some.inj h).symm⟩
    · cases h

theorem other_ours (h : w.lock = .ours) : otherStep w x = none := by
  cases x <;> simp [otherStep, h]

theorem other_grows (h : otherStep w x = some t) : w.Grows t := by
  rcases other_cases h with ⟨lock, rfl⟩ | ⟨files, -, -, rfl⟩
  · exact ⟨List.Subset.refl _, List.Subset.refl _⟩
  · exact ⟨List.subset_append_right _ _, List.subset_append_right _ _⟩

theorem sound_stable : Program.Stable otherStep (World.Sound sha256Hex) := by
  intro w x t h hstep
  rcases other_cases hstep with ⟨lock, rfl⟩ | ⟨files, -, -, rfl⟩
  · exact ⟨h.primary, h.store, h.quiet⟩
  · exact ⟨fun b hb => noted_primary (w := { w with files }) hb, fun b hb => noted_store (w := { w with files }) hb,
      h.quiet⟩

theorem perform_grows (h : perform sha256Hex w op choice = some (answer, t)) : w.Grows t := by
  obtain ⟨t', hact, rfl⟩ := perform_iff.1 h
  have hacted := act_cases hact
  constructor
  · rw [← hacted.primaries]
    exact List.subset_append_right _ _
  · rw [← hacted.stores]
    exact List.subset_append_right _ _

theorem World.Sound.perform (h : w.Sound sha256Hex) (hperform : perform sha256Hex w op choice = some (answer, t)) :
    t.Sound sha256Hex := by
  obtain ⟨t', hact, rfl⟩ := perform_iff.1 hperform
  have hacted := act_cases hact
  refine ⟨fun b hb => noted_primary hb, fun b hb => noted_store hb, fun hbegan ch hch => ?_⟩
  have hnone : op.begins = false := by
    by_contra hop
    have htrue : t'.began = true := hacted.began (by simpa using hop)
    exact Bool.false_ne_true (hbegan.symm.trans htrue)
  have hbefore : w.began = false := (hacted.unbegun hnone).symm.trans hbegan
  have hunpublished : op.isPublication = false := by
    cases op <;> first | rfl | cases hnone
  unfold World.recorded at hch
  split at hch
  · next hchanged =>
    rcases List.mem_append.1 hch with hold | hnew
    · exact h.quiet hbefore ch hold
    · obtain rfl := List.mem_singleton.1 hnew
      rw [hunpublished] at hchanged
      rcases hacted.contents with hsame | ⟨record, rfl, hrecorded, hcontents⟩ | ⟨bytes, rfl, -⟩
      · exact absurd hsame (by simpa using hchanged)
      · exact ⟨record, rfl, hrecorded, hcontents⟩
      · cases hunpublished
  · exact h.quiet hbefore ch hch

/-! ## What is known between two calls -/

/-- The others and the calls that `calls` names keep it. -/
structure Kept (Enr : Type) (sha256Hex : Bytes → Text) (calls : Op → Bool) (P : World → Prop) : Prop where
  others : Program.Stable otherStep P
  calls : ∀ w op (choice : Choice Enr) answer t, calls op = true → P w →
    perform sha256Hex w op choice = some (answer, t) → P t

theorem Kept.and {calls : Op → Bool} {P P' : World → Prop} (h : Kept Enr sha256Hex calls P)
    (h' : Kept Enr sha256Hex calls P') : Kept Enr sha256Hex calls fun w => P w ∧ P' w where
  others := h.others.and h'.others
  calls w op choice answer t hop hw hperform :=
    ⟨h.calls w op choice answer t hop hw.1 hperform, h'.calls w op choice answer t hop hw.2 hperform⟩

theorem Kept.mono {calls calls' : Op → Bool} {P : World → Prop} (h : Kept Enr sha256Hex calls P)
    (hcalls : ∀ op, calls' op = true → calls op = true) : Kept Enr sha256Hex calls' P where
  others := h.others
  calls w op choice answer t hop hw hperform := h.calls w op choice answer t (hcalls op hop) hw hperform

def Op.staysLocked : Op → Bool
  | .acquire | .release => false
  | op => op.isQuiet

theorem Op.isQuiet_of_staysLocked (h : op.staysLocked = true) : op.isQuiet = true := by
  cases op <;> first | exact h | cases h

def Locked (P : World → Prop) (w : World) : Prop := w.lock = .ours ∧ P w

theorem Kept.locked {P : World → Prop} (h : Kept Enr sha256Hex Op.isQuiet P) :
    Kept Enr sha256Hex Op.staysLocked (Locked P) where
  others := by
    rintro w x t ⟨hlock, -⟩ hstep
    rw [other_ours hlock] at hstep
    cases hstep
  calls := by
    rintro w op choice answer t hop ⟨hlock, hP⟩ hperform
    refine ⟨?_, h.calls w op choice answer t (Op.isQuiet_of_staysLocked hop) hP hperform⟩
    obtain ⟨t', hact, rfl⟩ := perform_iff.1 hperform
    refine ((act_cases hact).lock ?_ ?_).trans hlock
    · rintro rfl
      cases hop
    · rintro rfl
      cases hop

def Unbegun (w : World) : Prop := w.began = false

theorem unbegun_kept : Kept Enr sha256Hex (fun op => !op.begins) Unbegun where
  others := by
    intro w x t h hstep
    rcases other_cases hstep with ⟨lock, rfl⟩ | ⟨files, -, -, rfl⟩
    · exact h
    · exact h
  calls := by
    intro w op choice answer t hop h hperform
    obtain ⟨t', hact, rfl⟩ := perform_iff.1 hperform
    exact ((act_cases hact).unbegun (by simpa using hop)).trans h

/-- Nothing was read before a digest was taken of `x`. -/
def Seen (x : Option Bytes) (w : World) : Prop :=
  w.firstRead = some (.digest, x) ∧ ∀ b, x = some b → b ∈ w.stores

theorem Seen.grows {x : Option Bytes} (h : Seen x w) (hgrows : w.Grows t)
    (hread : ∀ r, w.firstRead = some r → t.firstRead = some r) : Seen x t :=
  ⟨hread _ h.1, fun b hb => hgrows.2 (h.2 b hb)⟩

theorem other_reads {x : OtherStep} (h : otherStep w x = some t) :
    t.firstRead = w.firstRead ∧ t.loaded = w.loaded := by
  rcases other_cases h with ⟨lock, rfl⟩ | ⟨files, -, -, rfl⟩
  · exact ⟨rfl, rfl⟩
  · exact ⟨rfl, rfl⟩

theorem seen_kept (x : Option Bytes) : Kept Enr sha256Hex (fun _ => true) (Seen x) where
  others w y t h hstep := h.grows (other_grows hstep) fun _ hr => (other_reads hstep).1.trans hr
  calls w op choice answer t _ h hperform := by
    refine h.grows (perform_grows hperform) fun r hr => ?_
    obtain ⟨t', hact, rfl⟩ := perform_iff.1 hperform
    exact (act_cases hact).firstRead r hr

/-- The content `x` of the secondary store is a past one. -/
def Gone (x : Option Bytes) (w : World) : Prop := ∀ b, x = some b → b ∈ w.stores ∧ w.store ≠ some b

/-- **What is gone does not come back.** -/
theorem gone_stable (x : Option Bytes) : Program.Stable otherStep (Gone x) := by
  intro w y t h hstep b hb
  obtain ⟨hseen, hnot⟩ := h b hb
  refine ⟨(other_grows hstep).2 hseen, ?_⟩
  rcases other_cases hstep with ⟨lock, rfl⟩ | ⟨files, -, hfresh, rfl⟩
  · exact hnot
  · intro hback
    rcases hfresh b hback with hsame | hnew
    · exact hnot hsame
    · exact hnew hseen

theorem gone_kept (x : Option Bytes) : Kept Enr sha256Hex Op.isQuiet (Gone x) where
  others := gone_stable x
  calls := by
    intro w op choice answer t hop h hperform b hb
    obtain ⟨hseen, hnot⟩ := h b hb
    refine ⟨(perform_grows hperform).2 hseen, ?_⟩
    obtain ⟨t', hact, rfl⟩ := perform_iff.1 hperform
    have hstore : (w.recorded op t').store = t'.contents.store := rfl
    rw [hstore]
    rcases (act_cases hact).contents with hsame | ⟨record, -, -, hcontents⟩ | ⟨bytes, rfl, -⟩
    · rw [hsame]
      exact hnot
    · rw [hcontents]
      exact nofun
    · cases hop

/-- What was found at the start, and what was loaded after it: the same, or the former is gone. -/
def Since (found content : Option Bytes) (w : World) : Prop :=
  w.loaded = some content ∧ (content ≠ found → Gone found w)

theorem since_kept (found content : Option Bytes) : Kept Enr sha256Hex Op.isQuiet (Since found content) where
  others := by
    intro w x t h hstep
    exact ⟨(other_reads hstep).2.trans h.1, fun hne => gone_stable found w x t (h.2 hne) hstep⟩
  calls := by
    intro w op choice answer t hop h hperform
    refine ⟨?_, fun hne => (gone_kept found).calls w op choice answer t hop (h.2 hne) hperform⟩
    obtain ⟨t', hact, rfl⟩ := perform_iff.1 hperform
    refine ((act_cases hact).loaded ?_).trans h.1
    cases op with
    | readStore reading =>
      right
      have hreading : reading = .digest := by simpa [Op.isQuiet] using hop
      rw [hreading]
    | _ => exact .inl nofun

end Irlume.Addition

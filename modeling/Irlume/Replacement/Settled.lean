import Irlume.Replacement.Machine

/-!
# A replacement is settled all or nothing

As long as the record is not durable, or is gone, the replacement is settled (`Core.settled`): undone, or
finished.
-/

namespace Irlume.Replacement

open Irlume.Lib

variable (sha256Hex : List UInt8 → Text) (w : Save)

def Save.record : Record := newRecord sha256Hex (Host.start w).files w.replacesKey

def Save.finalKey : Option (List UInt8) := if w.replacesKey then some w.newKey else w.start.key

def NotRecorded (f : Removable) (content : Option (List UInt8)) : Prop :=
  (w.recorded sha256Hex f).isSome = true → content.map sha256Hex ≠ w.recorded sha256Hex f

/-- What has been written to the files of the replaced enrollment since `begin`. -/
def writtenSince (since : Removable → Option (List UInt8)) : List Event → Removable → Option (List UInt8)
  | [] => since
  | .rewrite f content :: es => writtenSince (Function.update since f (some content)) es
  | _ :: es => writtenSince since es

variable {w} (since : Removable → Option (List UInt8))

/-- Nothing was replaced: every file is as it was recorded or was written anew since. -/
structure Undone (w : Save) (files : Files) : Prop where
  enrollment : files.enrollment = .settled w.start.enrollment
  key : files.key = .settled w.start.key
  removable : ∀ f, files.removable f = .settled (since f)

/-- The new enrollment and its key are in place and no file still has its recorded content. -/
structure Finished (w : Save) (files : Files) : Prop where
  enrollment : files.enrollment = .settled (some w.newEnrollment)
  key : files.key = .settled w.finalKey
  removable : ∀ f, (files.removable f).Both (NotRecorded sha256Hex w f)

def Kept (w : Save) (enrollment : DurableFile (List UInt8)) (f : Removable)
    (content : Option (List UInt8)) : Prop :=
  content = since f ∨
    (content = none ∧ enrollment = .settled (some w.newEnrollment) ∧ ¬NotRecorded sha256Hex w f (since f))

/-- What holds of the files at every moment: the enrollment is the replaced one until it is published, a
published enrollment has its key in place durably, and a file of the replaced enrollment is missing only once
the new enrollment is durable. -/
structure Core (w : Save) (files : Files) : Prop where
  record : files.record.Both fun c => c = none ∨ c = some (w.record sha256Hex)
  enrollment : files.enrollment = .settled w.start.enrollment ∨
    files.enrollment = ⟨some w.newEnrollment, w.start.enrollment⟩ ∨
    files.enrollment = .settled (some w.newEnrollment)
  published : files.enrollment.visible = some w.newEnrollment → files.key = .settled w.finalKey
  key_kept : w.replacesKey = false → files.key = .settled w.start.key
  removable : ∀ f, (files.removable f).Both (Kept sha256Hex since w files.enrollment f)
  settled : files.record ≠ .settled (some (w.record sha256Hex)) →
    Undone since w files ∨ Finished sha256Hex w files

/-- How far a `finish` with these steps to do has come. -/
structure Finishing (w : Save) (files : Files) (todo : List Instr) : Prop where
  steps : todo <:+ finish
  published : files.enrollment.visible = some w.newEnrollment
  synced : .syncEnrollment ∉ todo → files.enrollment = .settled (some w.newEnrollment)
  removed : ∀ f, .removeIfRecorded f ∉ todo → (files.removable f).Both (NotRecorded sha256Hex w f)

structure Undoing (w : Save) (files : Files) (todo : List Instr) : Prop where
  steps : todo <:+ undo (w.record sha256Hex)
  unpublished : files.enrollment = .settled w.start.enrollment
  put_back : .putKeyBack ∉ todo → files.key = .settled w.start.key

/-- What is replaced is recorded durably, and nothing is published yet. -/
structure Begun (w : Save) (files : Files) : Prop where
  record : files.record = .settled (some (w.record sha256Hex))
  unpublished : files.enrollment = .settled w.start.enrollment

/-- What the holder of the lock has done so far. -/
def StageInv (w : Save) (s : Host) : Prop :=
  match s.stage with
  | .start => s.files = (Host.start w).files
  | .sealing => Begun sha256Hex w s.files ∧ w.replacesKey = true
  | .publishing => Begun sha256Hex w s.files ∧ s.files.key = .settled w.finalKey
  | .puttingBack => Begun sha256Hex w s.files ∧ w.replacesKey = true
  | .settling _ record finishes todo =>
    record = w.record sha256Hex ∧ s.files.record.visible = some (w.record sha256Hex) ∧
      if finishes then Finishing sha256Hex w s.files todo else Undoing sha256Hex w s.files todo
  | .returned (.settle _) .ok => s.files.record.visible = none
  | _ => True

structure Inv (w : Save) (s : Host) : Prop where
  core : Core sha256Hex since w s.files
  stage : StageInv sha256Hex w s

/-! ## Files -/

section Files

variable {sha256Hex since} {files : Files}

theorem record_digestOf (f : Removable) : (w.record sha256Hex).digestOf f = w.recorded sha256Hex f := by
  cases f <;> rfl

theorem record_key (h : w.replacesKey = true) : (w.record sha256Hex).key = w.start.key := if_pos h

theorem published_iff (hnew : w.start.enrollment.map sha256Hex ≠ some (sha256Hex w.newEnrollment))
    (hcore : Core sha256Hex since w files) :
    files.enrollment.visible.map sha256Hex ≠ (w.record sha256Hex).enrollment ↔
      files.enrollment.visible = some w.newEnrollment := by
  have hrecorded : (w.record sha256Hex).enrollment = w.start.enrollment.map sha256Hex := rfl
  rw [hrecorded]
  rcases hcore.enrollment with h | h | h
  · rw [h]
    constructor
    · intro hne
      exact absurd rfl hne
    · intro heq
      have heq : w.start.enrollment = some w.newEnrollment := heq
      rw [heq] at hnew
      exact absurd rfl hnew
  · rw [h]
    exact ⟨fun _ => rfl, fun _ => hnew.symm⟩
  · rw [h]
    exact ⟨fun _ => rfl, fun _ => hnew.symm⟩

theorem unpublished_of_visible (hcore : Core sha256Hex since w files)
    (h : files.enrollment.visible ≠ some w.newEnrollment) :
    files.enrollment = .settled w.start.enrollment := by
  rcases hcore.enrollment with he | he | he
  · exact he
  · exact absurd (by rw [he]) h
  · exact absurd (by rw [he]; rfl) h

theorem removable_of_unpublished (hnew : w.start.enrollment.map sha256Hex ≠ some (sha256Hex w.newEnrollment))
    (hcore : Core sha256Hex since w files) (h : files.enrollment = .settled w.start.enrollment)
    (f : Removable) : files.removable f = .settled (since f) := by
  have hview : ∀ {content}, Kept sha256Hex since w files.enrollment f content → content = since f := by
    intro content hkept
    rcases hkept with hsame | ⟨-, henrollment, -⟩
    · exact hsame
    · rw [h] at henrollment
      have heq : w.start.enrollment = some w.newEnrollment := congrArg DurableFile.visible henrollment
      rw [heq] at hnew
      exact absurd rfl hnew
  exact DurableFile.eq_settled_iff.2 ((hcore.removable f).mono fun _ h => hview h)

theorem not_published (hnew : w.start.enrollment.map sha256Hex ≠ some (sha256Hex w.newEnrollment))
    (h : files.enrollment = .settled w.start.enrollment) :
    files.enrollment.visible ≠ some w.newEnrollment := by
  rw [h]
  intro heq
  have heq : w.start.enrollment = some w.newEnrollment := heq
  rw [heq] at hnew
  exact hnew rfl

theorem unlessRecorded_not_recorded (f : Removable) (content : Option (List UInt8)) :
    NotRecorded sha256Hex w f (unlessRecorded sha256Hex (w.recorded sha256Hex f) content) := by
  intro hsome
  unfold unlessRecorded
  split
  · next h =>
    rw [Option.map_none]
    exact (Option.ne_none_iff_isSome.2 hsome).symm
  · next h => exact fun heq => h ⟨hsome, heq⟩

variable {todo : List Instr}

theorem finish_removeIfRecorded {f : Removable}
    (h : .removeIfRecorded f :: todo <:+ finish) :
    .syncEnrollment ∉ Instr.removeIfRecorded f :: todo ∧ .removeIfRecorded f ∉ todo := by
  simp only [finish, List.suffix_cons_iff, List.cons.injEq, List.suffix_nil, reduceCtorEq, false_and,
    false_or, or_false, Instr.removeIfRecorded.injEq] at h
  rcases h with ⟨rfl, rfl⟩ | ⟨rfl, rfl⟩ | ⟨rfl, rfl⟩ <;> decide

theorem finish_last {instr : Instr} (h : [instr] <:+ finish) : instr = .removeRecord := by
  simpa [finish, List.suffix_cons_iff] using h

theorem finish_removeRecord (h : .removeRecord :: todo <:+ finish) : todo = [] := by
  simpa [finish, List.suffix_cons_iff] using h

theorem undo_removeRecord (h : .removeRecord :: todo <:+ undo (w.record sha256Hex)) :
    todo = [] := by
  unfold undo at h
  split at h <;> simpa [List.suffix_cons_iff] using h

theorem undo_other {instr : Instr} (h : instr ≠ .putKeyBack ∧ instr ≠ .removeRecord) :
    ¬instr :: todo <:+ undo (w.record sha256Hex) := by
  unfold undo
  split <;> simp [List.suffix_cons_iff, h]

theorem undo_putKeyBack (h : .putKeyBack :: todo <:+ undo (w.record sha256Hex)) :
    w.replacesKey = true ∧ todo = [.removeRecord] := by
  unfold undo at h
  split at h
  · next hkey =>
    refine ⟨?_, by simpa [List.suffix_cons_iff] using h⟩
    by_contra hnone
    rw [Save.record, newRecord, if_neg hnone] at hkey
    cases hkey
  · simp [List.suffix_cons_iff] at h

variable (hnew : w.start.enrollment.map sha256Hex ≠ some (sha256Hex w.newEnrollment))
  (hcore : Core sha256Hex since w files)

include hnew hcore

theorem exec_syncEnrollment (hpublished : files.enrollment.visible = some w.newEnrollment)
    (o : WriteOutcome) :
    Core sha256Hex since w (Instr.exec sha256Hex (w.record sha256Hex) files o .syncEnrollment) := by
  have hsync : files.enrollment = .settled (some w.newEnrollment) →
      files.enrollment.replace o files.enrollment.visible = .settled (some w.newEnrollment) := by
    intro h
    rw [h]
    exact DurableFile.replace_settled o _
  have hcases : files.enrollment.replace o files.enrollment.visible = files.enrollment ∨
      files.enrollment.replace o files.enrollment.visible = .settled (some w.newEnrollment) := by
    cases o with
    | durable => exact .inr (by rw [hpublished]; rfl)
    | failed => exact .inl rfl
    | visible => exact .inl rfl
  refine ⟨hcore.record, ?_, fun _ => hcore.published hpublished, hcore.key_kept, ?_, ?_⟩
  · simp only [Instr.exec]
    rcases hcases with h | h
    · rw [h]
      exact hcore.enrollment
    · exact .inr (.inr h)
  · intro f
    apply (hcore.removable f).mono
    rintro content (hsame | ⟨hnone, hdurable, hrecorded⟩)
    · exact .inl hsame
    · exact .inr ⟨hnone, hsync hdurable, hrecorded⟩
  · intro hrecord
    rcases hcore.settled hrecord with hundone | hfinished
    · exact absurd hpublished (not_published hnew hundone.enrollment)
    · exact .inr ⟨hsync hfinished.enrollment, hfinished.key, hfinished.removable⟩

theorem exec_removeIfRecorded (hdurable : files.enrollment = .settled (some w.newEnrollment))
    (o : WriteOutcome) (f : Removable) :
    Core sha256Hex since w (Instr.exec sha256Hex (w.record sha256Hex) files o (.removeIfRecorded f)) := by
  have hleft := @unlessRecorded_not_recorded sha256Hex w f (files.removable f).visible
  refine ⟨hcore.record, hcore.enrollment, hcore.published, hcore.key_kept, ?_, ?_⟩
  · intro g
    by_cases hg : g = f
    · subst hg
      simp only [Instr.exec, Function.update_self, record_digestOf]
      apply (hcore.removable g).replace
      unfold unlessRecorded
      split
      · next hrecorded =>
        -- what is removed is what was last written, so that was the recorded content
        refine .inr ⟨rfl, hdurable, fun hnot => ?_⟩
        rcases (hcore.removable g).1 with hsame | ⟨hnone, -⟩
        · rw [← hsame] at hnot
          exact hnot hrecorded.1 hrecorded.2
        · rw [hnone, Option.map_none] at hrecorded
          exact absurd hrecorded.2.symm (Option.ne_none_iff_isSome.2 hrecorded.1)
      · exact (hcore.removable g).1
    · simp only [Instr.exec, Function.update_of_ne hg]
      exact hcore.removable g
  · intro hrecord
    rcases hcore.settled hrecord with hundone | hfinished
    · exact absurd (by rw [hdurable]; rfl) (not_published hnew hundone.enrollment)
    · refine .inr ⟨hdurable, hfinished.key, ?_⟩
      intro g
      by_cases hg : g = f
      · subst hg
        simp only [Instr.exec, Function.update_self, record_digestOf]
        exact (hfinished.removable g).replace o hleft
      · simp only [Instr.exec, Function.update_of_ne hg]
        exact hfinished.removable g

theorem exec_putKeyBack (hkey : w.replacesKey = true)
    (hunpublished : files.enrollment = .settled w.start.enrollment) (o : WriteOutcome) :
    Core sha256Hex since w (Instr.exec sha256Hex (w.record sha256Hex) files o .putKeyBack) := by
  have hnot := not_published hnew hunpublished
  refine ⟨hcore.record, hcore.enrollment, fun h => absurd h hnot, ?_, hcore.removable, ?_⟩
  · intro hnone
    rw [hkey] at hnone
    cases hnone
  · intro hrecord
    rcases hcore.settled hrecord with hundone | hfinished
    · refine .inl ⟨hundone.enrollment, ?_, hundone.removable⟩
      simp only [Instr.exec]
      rw [hundone.key, record_key hkey, DurableFile.replace_settled]
    · exact absurd (by rw [hfinished.enrollment]; rfl) hnot

omit hnew in
theorem core_withRecord (hdone : Undone since w files ∨ Finished sha256Hex w files)
    {record : DurableFile Record} (hrecord : record.Both fun c => c = none ∨ c = some (w.record sha256Hex)) :
    Core sha256Hex since w { files with record } := by
  refine ⟨hrecord, hcore.enrollment, hcore.published, hcore.key_kept, hcore.removable, fun _ => ?_⟩
  rcases hdone with h | h
  · exact .inl ⟨h.enrollment, h.key, h.removable⟩
  · exact .inr ⟨h.enrollment, h.key, h.removable⟩

end Files

/-! ## Steps -/

section Steps

variable {sha256Hex since} {s s' : Host}
  (hnew : w.start.enrollment.map sha256Hex ≠ some (sha256Hex w.newEnrollment))

theorem record_visible (hcore : Core sha256Hex since w s.files) :
    s.files.record.visible = none ∨ s.files.record.visible = some (w.record sha256Hex) :=
  hcore.record.1

variable {files : Files}

theorem undo_keeps_key (hcore : Core sha256Hex since w files)
    (h : .putKeyBack ∉ undo (w.record sha256Hex)) : files.key = .settled w.start.key := by
  apply hcore.key_kept
  by_contra hkey
  rw [Bool.not_eq_false] at hkey
  apply h
  rw [undo, record_key hkey, if_pos (w.has_key hkey)]
  exact List.mem_cons_self

variable {finishes : Bool}

theorem inv_settleBy (hcore : Core sha256Hex since w s.files) (op : Op)
    (hfinish : finishes = true → s.files.enrollment.visible = some w.newEnrollment)
    (hundo : finishes = false → s.files.enrollment = .settled w.start.enrollment) :
    Inv sha256Hex since w (s.settleBy op finishes) := by
  unfold Host.settleBy
  rcases record_visible hcore with hnone | hsome
  · rw [hnone]
    refine ⟨hcore, ?_⟩
    cases op with
    | save => trivial
    | settle loading => exact hnone
  · rw [hsome]
    have hversion : ¬(w.record sha256Hex).version ≠ recordVersion := fun h => h rfl
    simp only [if_neg hversion]
    refine ⟨hcore, rfl, hsome, ?_⟩
    cases finishes with
    | true =>
      refine ⟨List.suffix_refl _, hfinish rfl, fun h => absurd List.mem_cons_self h, ?_⟩
      intro f h
      have hmem : .removeIfRecorded f ∈ finish := by cases f <;> decide
      exact absurd hmem h
    | false => exact ⟨List.suffix_refl _, hundo rfl, undo_keeps_key hcore⟩

variable {o : WriteOutcome}

theorem inv_begin (h : Inv sha256Hex since w s) {dirSynced removed : Bool}
    (hstep : beginStep sha256Hex w s o dirSynced removed = some s') : Inv sha256Hex since w s' := by
  unfold beginStep at hstep
  split at hstep
  · next hstage =>
    have hfiles : s.files = (Host.start w).files := by
      have hinv := h.stage
      rwa [StageInv, hstage] at hinv
    have hvisible : s.files.enrollment = .settled w.start.enrollment := by rw [hfiles]; rfl
    have hdone : Undone since w s.files ∨ Finished sha256Hex w s.files := by
      apply h.core.settled
      rw [hfiles]
      intro heq
      cases congrArg DurableFile.visible heq
    have hrecord : newRecord sha256Hex s.files w.replacesKey = w.record sha256Hex := by
      rw [hfiles]
      rfl
    simp only [hrecord] at hstep
    split at hstep
    · next hok =>
      cases hstep
      rw [hok.1]
      have hcore : Core sha256Hex since w
          { s.files with record := .settled (some (w.record sha256Hex)) } :=
        core_withRecord h.core hdone ⟨.inr rfl, .inr rfl⟩
      refine ⟨hcore, ?_⟩
      cases hkey : w.replacesKey with
      | true => exact ⟨⟨rfl, hvisible⟩, hkey⟩
      | false =>
        refine ⟨⟨rfl, hvisible⟩, ?_⟩
        rw [Save.finalKey, hkey]
        exact h.core.key_kept hkey
    · split at hstep
      · cases hstep
        exact ⟨h.core, trivial⟩
      · cases hstep
        refine ⟨core_withRecord h.core hdone ?_, trivial⟩
        have hwritten := h.core.record.replace o (.inr (Eq.refl (some (w.record sha256Hex))))
        unfold withdraw
        split
        · exact ⟨.inl rfl, hwritten.2⟩
        · exact hwritten
  · cases hstep

include hnew

section

variable (h : Inv sha256Hex since w s)

include h

theorem inv_reseal {roundTrip : Bool}
    (hstep : resealStep w s o roundTrip = some s') : Inv sha256Hex since w s' := by
  unfold resealStep at hstep
  split at hstep
  · next hstage =>
    cases hstep
    have hinv := h.stage
    rw [StageInv, hstage] at hinv
    obtain ⟨hbegun, hkey⟩ := hinv
    have hcore : Core sha256Hex since w { s.files with key := s.files.key.replace o (some w.newKey) } := by
      refine ⟨h.core.record, h.core.enrollment, ?_, ?_, h.core.removable, ?_⟩
      · intro hpublished
        exact absurd hpublished (not_published hnew hbegun.unpublished)
      · intro hnone
        rw [hkey] at hnone
        cases hnone
      · intro hrecord
        exact absurd hbegun.record hrecord
    refine ⟨hcore, ?_⟩
    by_cases hok : o = .durable ∧ roundTrip = true
    · rw [StageInv]
      simp only [if_pos hok]
      refine ⟨⟨hbegun.record, hbegun.unpublished⟩, ?_⟩
      rw [hok.1, Save.finalKey, if_pos hkey]
      rfl
    · rw [StageInv]
      simp only [if_neg hok]
      exact ⟨⟨hbegun.record, hbegun.unpublished⟩, hkey⟩
  · cases hstep

theorem inv_publish
    (hstep : publishStep w s o = some s') : Inv sha256Hex since w s' := by
  unfold publishStep at hstep
  split at hstep
  · next hstage =>
    have hinv := h.stage
    rw [StageInv, hstage] at hinv
    obtain ⟨hbegun, hkey⟩ := hinv
    have hcore : Core sha256Hex since w
        { s.files with enrollment := s.files.enrollment.replace o (some w.newEnrollment) } := by
      refine ⟨h.core.record, ?_, fun _ => hkey, h.core.key_kept, ?_, ?_⟩
      · simp only [hbegun.unpublished]
        cases o with
        | durable => exact .inr (.inr rfl)
        | failed => exact .inl rfl
        | visible => exact .inr (.inl rfl)
      · intro f
        rw [removable_of_unpublished hnew h.core hbegun.unpublished f]
        exact ⟨.inl rfl, .inl rfl⟩
      · intro hrecord
        exact absurd hbegun.record hrecord
    cases o with
    | durable =>
      cases hstep
      exact inv_settleBy hcore _ (fun _ => rfl) (fun hfalse => Bool.noConfusion hfalse)
    | visible =>
      cases hstep
      exact ⟨hcore, trivial⟩
    | failed =>
      simp only at hstep
      split at hstep
      · next hreplaces =>
        cases hstep
        exact ⟨hcore, ⟨hbegun.record, hbegun.unpublished⟩, hreplaces⟩
      · cases hstep
        exact inv_settleBy hcore _ (fun htrue => Bool.noConfusion htrue) (fun _ => hbegun.unpublished)
  · cases hstep

theorem inv_putBack
    (hstep : putBackStep w s o = some s') : Inv sha256Hex since w s' := by
  unfold putBackStep at hstep
  split at hstep
  · next hstage =>
    have hinv := h.stage
    rw [StageInv, hstage] at hinv
    obtain ⟨hbegun, hkey⟩ := hinv
    have hcore : Core sha256Hex since w { s.files with key := s.files.key.replace o w.start.key } := by
      have hexec := exec_putKeyBack hnew h.core hkey hbegun.unpublished o
      rwa [Instr.exec, record_key hkey] at hexec
    simp only at hstep
    split at hstep
    · cases hstep
      exact inv_settleBy hcore _ (fun htrue => Bool.noConfusion htrue) (fun _ => hbegun.unpublished)
    · cases hstep
      exact ⟨hcore, trivial⟩
  · cases hstep

theorem inv_settle {loading : Bool}
    (hstep : settleInterrupted sha256Hex s loading = some s') : Inv sha256Hex since w s' := by
  unfold settleInterrupted at hstep
  split at hstep
  · split at hstep
    · next hnone =>
      cases hstep
      exact ⟨h.core, hnone⟩
    · next record hsome =>
      split at hstep
      · cases hstep
        exact ⟨h.core, trivial⟩
      · cases hstep
        have hrecord : record = w.record sha256Hex := by
          rcases record_visible h.core with hnone | hr
          · rw [hnone] at hsome
            cases hsome
          · exact Option.some.inj (hsome.symm.trans hr)
        rw [hrecord]
        have hpublished := published_iff hnew h.core
        apply inv_settleBy h.core
        · intro hfinish
          exact hpublished.1 (of_decide_eq_true hfinish)
        · intro hundo
          apply unpublished_of_visible h.core
          exact fun hvisible => of_decide_eq_false hundo (hpublished.2 hvisible)
  · cases hstep

end

omit hnew in
theorem stageInv_settling (op : Op) {todo : List Instr} (hne : todo ≠ [])
    (hrecord : files.record.visible = some (w.record sha256Hex))
    (h : if finishes then Finishing sha256Hex w files todo else Undoing sha256Hex w files todo) :
    StageInv sha256Hex w
      { files, stage := .settlingOrDone op (w.record sha256Hex) finishes todo } := by
  cases todo with
  | nil => exact absurd rfl hne
  | cons instr todo => exact ⟨rfl, hrecord, h⟩

omit hnew in
theorem stageInv_done (op : Op) (hrecord : files.record.visible = none) :
    StageInv sha256Hex w { files, stage := .settlingOrDone op (w.record sha256Hex) finishes [] } := by
  cases op with
  | save => trivial
  | settle loading => exact hrecord

omit hnew in
theorem stageInv_failed (op : Op) :
    StageInv sha256Hex w { files, stage := .returned op (failedResult op finishes) } := by
  unfold failedResult
  split
  · cases op <;> trivial
  · cases op <;> trivial

section Exec

variable {files : Files} (hcore : Core sha256Hex since w files)
  (hrecord : files.record.visible = some (w.record sha256Hex)) {todo : List Instr} (o : WriteOutcome) (op : Op)

include hcore hrecord

theorem exec_finish {instr : Instr} (h : Finishing sha256Hex w files (instr :: todo)) :
    Core sha256Hex since w (instr.exec sha256Hex (w.record sha256Hex) files o) ∧
      (o = .durable → StageInv sha256Hex w
        { files := instr.exec sha256Hex (w.record sha256Hex) files o
          stage := .settlingOrDone op (w.record sha256Hex) true todo }) := by
  have htail : todo <:+ finish := (List.suffix_cons _ _).trans h.steps
  have hmore : instr ≠ .removeRecord → todo ≠ [] := by
    rintro hne rfl
    exact hne (finish_last h.steps)
  cases instr with
  | syncEnrollment =>
    refine ⟨exec_syncEnrollment hnew hcore h.published o, ?_⟩
    rintro rfl
    refine stageInv_settling op (hmore (by decide)) hrecord ⟨htail, h.published, fun _ => ?_, ?_⟩
    · show DurableFile.settled files.enrollment.visible = _
      rw [h.published]
    · intro f hf
      exact h.removed f (by simpa using hf)
  | removeIfRecorded f =>
    obtain ⟨hsynced, hf⟩ := finish_removeIfRecorded h.steps
    have hdurable := h.synced hsynced
    refine ⟨exec_removeIfRecorded hnew hcore hdurable o f, ?_⟩
    rintro rfl
    refine stageInv_settling op (hmore (by simp)) hrecord ⟨htail, h.published, fun _ => hdurable, ?_⟩
    intro g hg
    by_cases heq : g = f
    · subst heq
      have hleft := @unlessRecorded_not_recorded sha256Hex w g (files.removable g).visible
      simp only [Instr.exec, Function.update_self, record_digestOf]
      exact ⟨hleft, hleft⟩
    · simp only [Instr.exec, Function.update_of_ne heq]
      exact h.removed g (by simp [heq, hg])
  | putKeyBack =>
    have hsteps := h.steps
    simp [finish, List.suffix_cons_iff] at hsteps
  | removeRecord =>
    obtain rfl := finish_removeRecord h.steps
    have hfinished : Finished sha256Hex w files :=
      ⟨h.synced (by decide), hcore.published h.published, fun f => h.removed f (by simp)⟩
    refine ⟨core_withRecord hcore (.inr hfinished) (hcore.record.replace o (.inl rfl)), ?_⟩
    rintro rfl
    exact stageInv_done op rfl

theorem exec_undo {instr : Instr} (h : Undoing sha256Hex w files (instr :: todo)) :
    Core sha256Hex since w (instr.exec sha256Hex (w.record sha256Hex) files o) ∧
      (o = .durable → StageInv sha256Hex w
        { files := instr.exec sha256Hex (w.record sha256Hex) files o
          stage := .settlingOrDone op (w.record sha256Hex) false todo }) := by
  have htail : todo <:+ undo (w.record sha256Hex) := (List.suffix_cons _ _).trans h.steps
  cases instr with
  | putKeyBack =>
    obtain ⟨hkey, rfl⟩ := undo_putKeyBack h.steps
    refine ⟨exec_putKeyBack hnew hcore hkey h.unpublished o, ?_⟩
    rintro rfl
    refine stageInv_settling op (by simp) hrecord ⟨htail, h.unpublished, fun _ => ?_⟩
    show DurableFile.settled (w.record sha256Hex).key = _
    rw [record_key hkey]
  | removeRecord =>
    obtain rfl := undo_removeRecord h.steps
    have hundone : Undone since w files :=
      ⟨h.unpublished, h.put_back (by decide), removable_of_unpublished hnew hcore h.unpublished⟩
    refine ⟨core_withRecord hcore (.inl hundone) (hcore.record.replace o (.inl rfl)), ?_⟩
    rintro rfl
    exact stageInv_done op rfl
  | syncEnrollment => exact absurd h.steps (undo_other (by decide))
  | removeIfRecorded f => exact absurd h.steps (undo_other (by simp))

end Exec

theorem inv_exec (h : Inv sha256Hex since w s)
    (hstep : execStep sha256Hex s o = some s') : Inv sha256Hex since w s' := by
  unfold execStep at hstep
  split at hstep
  · next op record finishes instr todo hstage =>
    cases hstep
    have hinv := h.stage
    rw [StageInv, hstage] at hinv
    obtain ⟨rfl, hrecord, hdoing⟩ := hinv
    have hnext : Core sha256Hex since w (instr.exec sha256Hex (w.record sha256Hex) s.files o) ∧
        (o = .durable → StageInv sha256Hex w
          { files := instr.exec sha256Hex (w.record sha256Hex) s.files o
            stage := .settlingOrDone op (w.record sha256Hex) finishes todo }) := by
      cases finishes with
      | true => exact exec_finish hnew h.core hrecord o op hdoing
      | false => exact exec_undo hnew h.core hrecord o op hdoing
    refine ⟨hnext.1, ?_⟩
    by_cases ho : o = .durable
    · simp only [if_pos ho]
      exact hnext.2 ho
    · simp only [if_neg ho]
      exact stageInv_failed op
  · cases hstep

omit hnew in
theorem inv_powerLoss (h : Inv sha256Hex since w s) (kept : FileId → Bool) :
    Inv sha256Hex since w { files := s.files.powerLoss kept, stage := .idle } := by
  have hcore := h.core
  have hdurable : s.files.enrollment = .settled (some w.newEnrollment) →
      (s.files.powerLoss kept).enrollment = .settled (some w.newEnrollment) := by
    intro heq
    simp only [Files.powerLoss, heq, DurableFile.powerLoss_settled]
  have hkey : ∀ {content}, s.files.key = .settled content →
      (s.files.powerLoss kept).key = .settled content := by
    intro content heq
    simp only [Files.powerLoss, heq, DurableFile.powerLoss_settled]
  have henrollment : (s.files.powerLoss kept).enrollment = s.files.enrollment ∨
      s.files.enrollment = ⟨some w.newEnrollment, w.start.enrollment⟩ ∧
        ((s.files.powerLoss kept).enrollment = .settled (some w.newEnrollment) ∨
          (s.files.powerLoss kept).enrollment = .settled w.start.enrollment) := by
    simp only [Files.powerLoss]
    rcases hcore.enrollment with heq | heq | heq
    · rw [heq, DurableFile.powerLoss_settled]
      exact .inl rfl
    · rw [heq]
      cases kept .enrollment with
      | true => exact .inr ⟨rfl, .inl rfl⟩
      | false => exact .inr ⟨rfl, .inr rfl⟩
    · rw [heq, DurableFile.powerLoss_settled]
      exact .inl rfl
  refine ⟨⟨hcore.record.powerLoss _, ?_, ?_, fun hkept => hkey (hcore.key_kept hkept), ?_, ?_⟩, trivial⟩
  · rcases henrollment with heq | ⟨-, heq | heq⟩
    · rw [heq]
      exact hcore.enrollment
    · exact .inr (.inr heq)
    · exact .inl heq
  · intro hvisible
    apply hkey
    apply hcore.published
    rcases henrollment with heq | ⟨heq, -⟩
    · rwa [heq] at hvisible
    · rw [heq]
  · intro f
    apply ((hcore.removable f).powerLoss _).mono
    rintro content (hsame | ⟨hnone, heq, hrecorded⟩)
    · exact .inl hsame
    · exact .inr ⟨hnone, hdurable heq, hrecorded⟩
  · intro hrecord
    have hbefore : s.files.record ≠ .settled (some (w.record sha256Hex)) := by
      intro heq
      apply hrecord
      simp only [Files.powerLoss, heq, DurableFile.powerLoss_settled]
    rcases hcore.settled hbefore with hundone | hfinished
    · left
      refine ⟨?_, hkey hundone.key, ?_⟩
      · simp only [Files.powerLoss, hundone.enrollment, DurableFile.powerLoss_settled]
      · intro f
        simp only [Files.powerLoss, hundone.removable f, DurableFile.powerLoss_settled]
    · right
      exact ⟨hdurable hfinished.enrollment, hkey hfinished.key, fun f => (hfinished.removable f).powerLoss _⟩

variable (h : Inv sha256Hex since w s)

include h

omit hnew in
theorem inv_rewrite {f : Removable} {content : List UInt8}
    (hother : some (sha256Hex content) ≠ w.recorded sha256Hex f) :
    Inv sha256Hex (Function.update since f (some content)) w
      { files := { s.files with
                   removable := Function.update s.files.removable f (.settled (some content)) }
        stage := .idle } := by
  have hcore := h.core
  refine ⟨⟨hcore.record, hcore.enrollment, hcore.published, hcore.key_kept, ?_, ?_⟩, trivial⟩
  · intro g
    by_cases hg : g = f
    · subst hg
      have hlast : Function.update since g (some content) g = some content := Function.update_self ..
      simp only [Function.update_self]
      exact ⟨.inl hlast.symm, .inl hlast.symm⟩
    · have hlast : Function.update since f (some content) g = since g := Function.update_of_ne hg _ _
      simp only [Function.update_of_ne hg]
      apply (hcore.removable g).mono
      intro c hc
      rw [Kept, hlast]
      exact hc
  · intro hrecord
    rcases hcore.settled hrecord with hundone | hfinished
    · refine .inl ⟨hundone.enrollment, hundone.key, ?_⟩
      intro g
      by_cases hg : g = f
      · subst hg
        simp only [Function.update_self]
      · simp only [Function.update_of_ne hg, hundone.removable g]
    · refine .inr ⟨hfinished.enrollment, hfinished.key, ?_⟩
      intro g
      by_cases hg : g = f
      · subst hg
        simp only [Function.update_self]
        exact ⟨fun _ => hother, fun _ => hother⟩
      · simp only [Function.update_of_ne hg]
        exact hfinished.removable g

/-- **Every step keeps the invariant.** -/
theorem inv_step {e : Event} (hstep : step sha256Hex w s e = some s') :
    Inv sha256Hex (writtenSince since [e]) w s' := by
  cases e with
  | begin o dirSynced removed => exact inv_begin h hstep
  | reseal o roundTrip => exact inv_reseal hnew h hstep
  | publish o => exact inv_publish hnew h hstep
  | putBack o => exact inv_putBack hnew h hstep
  | settle loading => exact inv_settle hnew h hstep
  | exec o => exact inv_exec hnew h hstep
  | stop =>
    cases hstep
    exact ⟨h.core, trivial⟩
  | powerLoss kept =>
    cases hstep
    exact inv_powerLoss h kept
  | rewrite f content =>
    simp only [step] at hstep
    split at hstep
    · next hfree =>
      cases hstep
      exact inv_rewrite h hfree.2
    · cases hstep

theorem inv_run {es : List Event} (hrun : run (step sha256Hex w) s es = some s') :
    Inv sha256Hex (writtenSince since es) w s' := by
  induction es generalizing s since with
  | nil => exact Option.some.inj hrun ▸ h
  | cons e es ih =>
    obtain ⟨m, hm, hrest⟩ := run_cons_some.1 hrun
    have hnext := ih (inv_step hnew h hm) hrest
    cases e <;> exact hnext

end Steps

section Run

variable {sha256Hex} (hnew : w.start.enrollment.map sha256Hex ≠ some (sha256Hex w.newEnrollment))

include hnew

theorem inv_start : Inv sha256Hex w.start.removable w (Host.start w) := by
  refine ⟨⟨⟨.inl rfl, .inl rfl⟩, .inl rfl, ?_, fun _ => rfl, fun f => ⟨.inl rfl, .inl rfl⟩, ?_⟩, rfl⟩
  · intro hpublished
    exact absurd hpublished (not_published hnew rfl)
  · exact fun _ => .inl ⟨rfl, rfl, fun _ => rfl⟩

/-- **A replacement is all or nothing.** The write stops anywhere, its enrollment is not published,
durable, or visible and lost again, and settlements are interrupted any number of times. Once a
settlement returns that did not only log what failed, the record is gone and the replacement is
undone or finished, durably; and at every moment a recovery envelope, store or journal that was
written anew since `begin` is in place. The new enrollment does not have the digest of the replaced
one. -/
theorem replacement_all_or_nothing {s : Host} {es : List Event}
    (h : run (step sha256Hex w) (Host.start w) es = some s) :
    (∀ f, NotRecorded sha256Hex w f (writtenSince w.start.removable es f) →
        (s.files.removable f).visible = writtenSince w.start.removable es f) ∧
      ∀ loading, s.stage = .returned (.settle loading) .ok →
        s.files.record.visible = none ∧
          (Undone (writtenSince w.start.removable es) w s.files ∨ Finished sha256Hex w s.files) := by
  have hinv := inv_run hnew (inv_start hnew) h
  constructor
  · intro f hnot
    rcases (hinv.core.removable f).1 with hsame | ⟨-, -, hrecorded⟩
    · exact hsame
    · exact absurd hnot hrecorded
  · intro loading hstage
    have hnone : s.files.record.visible = none := by
      have hreturned := hinv.stage
      rwa [StageInv, hstage] at hreturned
    refine ⟨hnone, hinv.core.settled ?_⟩
    intro hrecord
    rw [hrecord] at hnone
    cases hnone

end Run

/-! ## A replaced key -/

def oldEnrollment : List UInt8 := [111, 108, 100]
def recoveryEnvelope : List UInt8 := [114, 101, 99]

/-- SHA-256 of the files of `keySave`. -/
def keySaveSha256 (bs : List UInt8) : Text :=
  if bs = oldEnrollment then "cba06b5736faf67e54b07b561eae9439" ++
    "5e774c517a7d910a54369e1263ccfbd4"
  else if bs = recoveryEnvelope then "cb41b38387d6fca01272be03380f6356" ++
    "8fccbd724c299ae58e8d548d91b67a58"
  else "11507a0e2f5e69d5dfa40a62a1bd7b6e" ++
    "e57e6bcd85c67c9b8431b36fff21c437"

/-- A write that replaces an encrypted enrollment, its key and the key's recovery envelope. -/
def keySave : Save where
  start :=
    { enrollment := some oldEnrollment
      key := some [107, 48]
      removable := fun f => if f = .recovery then some recoveryEnvelope else none }
  replacesKey := true
  newKey := [107, 49]
  newEnrollment := [110, 101, 119]
  has_key := fun _ => rfl

/-- The enrollment becomes visible and not durable; a settlement finishes. -/
def finishedRun : List Event :=
  [.begin .durable true true, .reseal .durable true, .publish .visible, .settle false, .exec .durable,
    .exec .durable, .exec .durable, .exec .durable, .exec .durable]

/-- A replaced key, after a settlement. -/
theorem replacement_all_or_nothing_key :
    ∃ s, run (step keySaveSha256 keySave) (Host.start keySave) finishedRun = some s ∧
      s.files.record.visible = none ∧
        (Undone (writtenSince keySave.start.removable finishedRun) keySave s.files ∨
          Finished keySaveSha256 keySave s.files) := by
  have hstage : (run (step keySaveSha256 keySave) (Host.start keySave) finishedRun).map (·.stage) =
      some (.returned (.settle false) .ok) := by
    decide
  obtain ⟨s, hs, hreturned⟩ := Option.map_eq_some_iff.1 hstage
  exact ⟨s, hs, (replacement_all_or_nothing (by decide) hs).2 false hreturned⟩

/-- A load whose finish fails goes on, with the record in place. -/
theorem load_settles_with_record_left :
    ¬∀ (es : List Event) (s : Host) (loading : Bool) (result : Returned),
      run (step keySaveSha256 keySave) (Host.start keySave) es = some s →
        s.stage = .returned (.settle loading) result → result.isOk = true →
          s.files.record.visible = none := by
  intro h
  have hleft : (run (step keySaveSha256 keySave) (Host.start keySave)
      [.begin .durable true true, .reseal .durable true, .publish .durable, .stop, .settle true,
        .exec .failed]).map (fun s => (s.stage, s.files.record.visible.isSome)) =
      some (.returned (.settle true) .logged, true) := by
    decide
  obtain ⟨s, hs, heq⟩ := Option.map_eq_some_iff.1 hleft
  obtain ⟨hstage, hrecord⟩ := Prod.mk.inj heq
  rw [h _ s true .logged hs hstage rfl] at hrecord
  cases hrecord

end Irlume.Replacement

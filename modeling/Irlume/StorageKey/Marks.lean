import Irlume.StorageKey.Settle

/-!
# Marks that last two boots

A key is marked with the boot of the start that found no envelope using it. A mark of an earlier boot is sure
when no envelope hides a use of its key: no power loss can bring one back. A power loss makes every mark sure,
since it settles what each file holds; a write of the record keeps marks sure when it adds none but those of this
boot; and a publication keeps a mark sure unless it takes an envelope off the marked key and is not durable.
-/

namespace Irlume.StorageKey

open Irlume.Lib

def Uses : Option Text → Option EnvelopeFile → Prop
  | none => EnvelopeFile.UnderOriginal
  | some name => EnvelopeFile.Names name

def Record.Marks (record : Record) : Option Text → Boot → Prop
  | none, since => record.unusedSince = some since
  | some name, since => (name, since) ∈ record.supersededUnused

/-- The marks of `next` are those of `old`, or this boot's. -/
def MarksFrom (boot : Boot) (old next : Record) : Prop :=
  ∀ key since, next.Marks key since → old.Marks key since ∨ since = boot

def World.MarkedEarlier (w : World) (key : Option Text) : Prop :=
  ∃ since, w.disk.loaded.Marks key since ∧ since ≠ w.boot

instance (record : Record) (key : Option Text) (since : Boot) : Decidable (record.Marks key since) := by
  cases key <;> unfold Record.Marks <;> infer_instance

theorem World.markedEarlier_none {w : World} :
    w.MarkedEarlier none ↔ (w.disk.loaded.unusedSince.any fun since => since ≠ w.boot) = true := by
  simp [World.MarkedEarlier, Record.Marks, Option.any_eq_true]

theorem World.markedEarlier_some {w : World} {name : Text} : w.MarkedEarlier (some name) ↔
    (w.disk.loaded.supersededUnused.any fun m => m.1 = name && m.2 ≠ w.boot) = true := by
  simp only [World.MarkedEarlier, Record.Marks, List.any_eq_true, Bool.and_eq_true, decide_eq_true_eq]
  constructor
  · rintro ⟨since, hmem, hsince⟩
    exact ⟨(name, since), hmem, rfl, by simpa using hsince⟩
  · rintro ⟨⟨name', since⟩, hmem, rfl, hsince⟩
    exact ⟨since, hmem, by simpa using hsince⟩

instance (w : World) (key : Option Text) : Decidable (w.MarkedEarlier key) :=
  match key with
  | none => decidable_of_iff _ World.markedEarlier_none.symm
  | some _ => decidable_of_iff _ World.markedEarlier_some.symm

/-- No power loss brings back a use of a key marked since an earlier boot. -/
def World.Sure (w : World) (key : Option Text) : Prop :=
  w.MarkedEarlier key → ∀ id, ¬ (w.disk.envelopes id).Hides (Uses key)

/-! ## What the steps make of the marks -/

theorem not_marks_default (key : Option Text) (since : Boot) : ¬ (default : Record).Marks key since := by
  cases key with
  | none => nofun
  | some name => nofun

theorem MarksFrom.of_unchanged {boot : Boot} {old next : Record} (hunused : next.unusedSince = old.unusedSince)
    (hmarks : next.supersededUnused ⊆ old.supersededUnused) : MarksFrom boot old next := by
  intro key since h
  cases key with
  | none => exact .inl (hunused.symm.trans h)
  | some name => exact .inl (hmarks h)

theorem MarksFrom.trans {boot : Boot} {a b c : Record} (hab : MarksFrom boot a b) (hbc : MarksFrom boot b c) :
    MarksFrom boot a c := by
  intro key since h
  rcases hbc key since h with h | h
  · exact hab key since h
  · exact .inr h

theorem marksFrom_beginMove (boot : Boot) (record : Record) (id : EnvelopeId) (bootId : Option Boot) :
    MarksFrom boot record (beginMove record id bootId) := by
  intro key since h
  cases key with
  | none => cases h
  | some name => exact .inl h

structure Counted (record : Record) (inUse : Bool) (boot : Option Boot) (result : Record × Census) : Prop where
  persisted : result.1.persisted = record.persisted
  superseded : result.1.superseded = record.superseded
  supersededUnused : result.1.supersededUnused = record.supersededUnused
  unusedSince : ∀ since, result.1.unusedSince = some since → record.unusedSince = some since ∨ boot = some since
  unused : ∀ since, result.2 = .unused since →
    inUse = false ∧ result.1.unusedSince = some since ∧ (record.unusedSince = some since ∨ boot = some since)

theorem counted_markWith (record : Record) (inUse : Bool) (boot : Option Boot) :
    Counted record inUse boot (markWith record inUse boot) := by
  cases inUse with
  | true => exact ⟨rfl, rfl, rfl, nofun, nofun⟩
  | false =>
    cases hsince : record.unusedSince with
    | some since =>
      have hmark : (markWith record false boot).2 = .unused since := by
        simp [markWith, hsince]
      have hkept : (markWith record false boot).1.unusedSince = some since := by
        simp [markWith, hsince]
      refine ⟨?_, ?_, ?_, fun since' h => .inl ?_, fun since' h => ?_⟩
      · simp [markWith, hsince]
      · simp [markWith, hsince]
      · simp [markWith, hsince]
      · exact hsince.trans (hkept.symm.trans h)
      · rw [hmark] at h
        have hsame := congrArg some (Census.unused.inj h)
        exact ⟨rfl, hkept.trans hsame, .inl (hsince.trans hsame)⟩
    | none =>
      cases boot with
      | none => exact ⟨by simp [markWith, hsince], by simp [markWith, hsince], by simp [markWith, hsince],
          by simp [markWith, hsince], by simp [markWith, hsince]⟩
      | some now =>
        simp only [markWith, hsince, Bool.false_eq_true, if_false]
        split
        · refine ⟨rfl, rfl, rfl, fun since h => .inr h, fun since h => ?_⟩
          have hsame := congrArg some (Census.unused.inj h)
          exact ⟨rfl, hsame, .inr hsame⟩
        · exact ⟨rfl, rfl, rfl, nofun, nofun⟩

theorem Counted.marksFrom {record : Record} {inUse : Bool} {boot : Option Boot} {now : Boot}
    {result : Record × Census} (h : Counted record inUse boot result) (hboot : ∀ b, boot = some b → b = now) :
    MarksFrom now record result.1 := by
  intro key since hmarks
  cases key with
  | none => exact (h.unusedSince since hmarks).imp id (hboot since)
  | some name =>
    have hmem : (name, since) ∈ result.1.supersededUnused := hmarks
    rw [h.supersededUnused] at hmem
    exact .inl hmem

theorem mem_markName {marks : List (Text × Boot)} {name : Text} {named : Bool} {boot : Option Boot}
    {m : Text × Boot} (h : m ∈ markName marks name named boot) : m ∈ marks ∨ boot = some m.2 := by
  unfold markName at h
  split at h
  · exact .inl (List.mem_of_mem_filter h)
  · split at h
    · split at h
      · exact .inl h
      · rcases List.mem_append.1 h with h | h
        · exact .inl h
        · rw [List.mem_singleton.1 h]
          exact .inr rfl
    · exact .inl h

/-! ## Marks that stay sure -/

theorem Disk.envelopes_writeEnvelope (disk : Disk) (o : WriteOutcome) (id : EnvelopeId) (parent : Option ParentKey)
    (other : EnvelopeId) : (disk.writeEnvelope o id parent).envelopes other =
      if other = id then (disk.envelopes id).write o (.sealed parent) else disk.envelopes other :=
  Function.update_apply ..

section

variable {w : World} {key : Option Text}

theorem sure_saveRecord (h : w.Sure key) {next : Record} (hnext : MarksFrom w.boot w.disk.loaded next)
    (o : WriteOutcome) : World.Sure { w with disk := w.disk.saveRecord o next } key := by
  rintro ⟨since, hmarks, hsince⟩
  refine h ⟨since, ?_, hsince⟩
  have hwritten : next.Marks key since → w.disk.loaded.Marks key since :=
    fun hnew => (hnext key since hnew).resolve_right hsince
  cases o with
  | failed => exact hmarks
  | durable => exact hwritten hmarks
  | visible => exact hwritten hmarks

theorem sure_writeEnvelope (h : w.Sure key) {id : EnvelopeId} {parent : Option ParentKey} {o : WriteOutcome}
    (hmove : o = .visible → w.MarkedEarlier key → Uses key (w.disk.envelopes id).visible →
      Uses key (some (.sealed parent))) :
    World.Sure { w with disk := w.disk.writeEnvelope o id parent } key := by
  intro hmarked other hhides
  have hmarked : w.MarkedEarlier key := hmarked
  rw [Disk.envelopes_writeEnvelope] at hhides
  split at hhides
  · rcases hhides.of_write with hhid | ⟨ho, hnew, hold⟩
    · exact h hmarked id hhid
    · exact hnew (hmove ho hmarked hold)
  · exact h hmarked other hhides

theorem sure_powerLoss (kept : Disk.Kept) (boot : Boot) (key : Option Text) :
    World.Sure { w with disk := w.disk.powerLoss kept, boot } key :=
  fun _ _ => PendingFile.not_hides_powerLoss _

theorem World.Sure.not_mem (h : w.Sure key) (hmarked : w.MarkedEarlier key)
    (hvisible : ∀ id, ¬ Uses key (w.disk.envelopes id).visible) (id : EnvelopeId) :
    ∀ content ∈ (w.disk.envelopes id).contents, ¬ Uses key content :=
  PendingFile.not_mem_of_not_hides (h hmarked id) (hvisible id)

end

/-! ## Known envelopes -/

theorem listed_writeEnvelope {disk : Disk} (h : disk.Listed) (o : WriteOutcome) (id : EnvelopeId)
    (parent : Option ParentKey) : (disk.writeEnvelope o id parent).Listed := by
  intro other content hcontent hsome
  have hknown : ∀ known ∈ disk.known, known ∈ (disk.writeEnvelope o id parent).known := by
    intro known hknown
    rw [Disk.writeEnvelope]
    split
    · exact hknown
    · exact List.mem_append_left _ hknown
  rw [Disk.envelopes_writeEnvelope] at hcontent
  split at hcontent
  · next hother =>
    rw [hother, Disk.writeEnvelope]
    split
    · next hmem => exact hmem
    · exact List.mem_append_right _ List.mem_cons_self
  · exact hknown other (h other content hcontent hsome)

theorem listed_powerLoss {disk : Disk} (h : disk.Listed) (kept : Disk.Kept) : (disk.powerLoss kept).Listed :=
  fun id content hcontent hsome => h id content (PendingFile.mem_contents_powerLoss hcontent) hsome

end Irlume.StorageKey

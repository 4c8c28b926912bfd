import Mathlib.Data.Nat.Basic
import Irlume.Retry.World

/-!
# The face attempt budget

An account gets `faceLimit` face attempts for each reset. The record counts them before the work is done, so the
count on disk, in whichever of its two views survives, is never behind the attempts `begin` admitted. That is
the invariant.
-/

namespace Irlume.Retry

open Irlume.Lib Relation

/-! ## What is counted -/

def spentIn (content : Option Record) : Nat := (content.map Record.count).getD 0

/-- The attempts `begin` admitted since `Record::reset` was last written. -/
def admittedSinceReset : List Note → Nat
  | [] => 0
  | .admitted :: ns => admittedSinceReset ns + 1
  | .reset :: _ => 0
  | _ :: ns => admittedSinceReset ns

/-- How often `Record::reset` was written. -/
def resets (notes : List Note) : Nat := notes.count .reset

def seen (f : DurableFile Record) : Nat := spentIn f.visible

/-- The count that survives a power loss, whichever view it leaves. -/
def spent (f : DurableFile Record) : Nat := min (spentIn f.visible) (spentIn f.durable)

def Quiet (notes : List Note) : Prop := ∀ n ∈ notes, n ≠ .admitted ∧ n ≠ .reset

theorem admittedSinceReset_append {ms : List Note} (h : Quiet ms) (ns : List Note) :
    admittedSinceReset (ms ++ ns) = admittedSinceReset ns := by
  induction ms with
  | nil => rfl
  | cons m ms ih =>
    have hm := h m List.mem_cons_self
    have ih := ih fun n hn => h n (List.mem_cons_of_mem _ hn)
    cases m <;> simp_all [admittedSinceReset]

theorem resets_append {ms : List Note} (h : Quiet ms) (ns : List Note) :
    resets (ms ++ ns) = resets ns := by
  have hms : ms.count .reset = 0 := List.count_eq_zero.2 fun hm => (h _ hm).2 rfl
  rw [resets, List.count_append, hms, Nat.zero_add, resets]

theorem quiet_cooldownNotes (r s : Record) (now : Tick) : Quiet (Store.cooldownNotes r s now) := by
  unfold Store.cooldownNotes Quiet
  split
  · simp
  · split <;> simp

theorem quiet_delayNotes (t s : Attempts) (now : Tick) :
    Quiet (Recovery.delayNotes t s now) := by
  unfold Recovery.delayNotes Quiet
  split
  · simp
  · split <;> simp

/-! ## What the moves write -/

variable {a : Account}

theorem Shows.count_eq {d : Disk} {r : Record} (h : Shows a d r) :
    r.count = spentIn d.face.visible := by
  obtain ⟨hv, rfl⟩ | ⟨hd, -⟩ := h
  · rw [hv]
    rfl
  · rw [hd]
    rfl

variable {now : Tick}

theorem Update.count_eq {policy : Policy} {r s : Record} (h : Update policy now r s) :
    s.count = r.count := by
  cases h with
  | check hs ht =>
    rw [Record.count_eq_of_budget (Record.refreshCooldown_budget ht), Record.settleAbandoned_count hs]
  | settle hs => exact Record.settleAbandoned_count hs
  | neutral hp => exact Record.count_settled r
  | strike hp hs => rw [Record.count_eq_of_budget (Record.strike_budget hs), Record.count_settled]

theorem reserve_count {r s : Record} (h : FaceAttempt.reserve r = some s) :
    s.count = r.count + 1 := by
  unfold FaceAttempt.reserve at h
  cases hb : r.budget with
  | none =>
    simp only [hb, Option.isNone_none, if_true, Record.initializeBudget] at h
    cases h
    simp [Record.count, hb]
  | some b =>
    simp only [hb, Option.isNone_some, Bool.false_eq_true, if_false] at h
    split at h
    · cases h
    · cases h
      simp [Record.count, hb]

variable {d d' : Disk}

theorem Move.face_cases (h : Move a now d d') :
    (d'.face = d.face ∧ admittedSinceReset d'.notes = admittedSinceReset d.notes ∧
      resets d'.notes = resets d.notes) ∨
    (d'.face = d.face.sync ∧ d'.notes = d.notes) ∨
    (∃ s o, d'.face = d.face.write o s ∧ spentIn d.face.visible ≤ s.count ∧
      admittedSinceReset d'.notes = admittedSinceReset d.notes ∧
      resets d'.notes = resets d.notes) ∨
    (∃ s, d'.face = .settled (some s) ∧ s.count = spentIn d.face.visible + 1 ∧
      s.count ≤ faceLimit ∧ d'.notes = .admitted :: d.notes) ∨
    (∃ notes, d'.notes = .reset :: notes ∧ notes = d.notes) := by
  cases h with
  | syncFace => exact .inr (.inl ⟨rfl, rfl⟩)
  | syncRecovery => exact .inl ⟨rfl, rfl, rfl⟩
  | @update policy d r s notes o hr hs hn hv ho =>
    have hq : Quiet notes := hn ▸ quiet_cooldownNotes r s now
    have hc : spentIn d.face.visible ≤ s.count := (hr.count_eq ▸ hs.count_eq).ge
    exact .inr (.inr (.inl ⟨s, o, rfl, hc, admittedSinceReset_append hq _, resets_append hq _⟩))
  | @reserve d r s hr hs hv =>
    have hc : spentIn d.face.visible ≤ s.count := by rw [reserve_count hs, hr.count_eq]; omega
    exact .inr (.inr (.inl ⟨s, .visible, rfl, hc, rfl, rfl⟩))
  | @admission d r s hr hs hv =>
    have hc : s.count = spentIn d.face.visible + 1 := by rw [reserve_count hs, hr.count_eq]
    exact .inr (.inr (.inr (.inl ⟨s, rfl, hc, Record.count_le_of_validate hv, rfl⟩)))
  | reset ho => exact .inr (.inr (.inr (.inr ⟨_, rfl, rfl⟩)))
  | @settleRecovery d s t o ht hs hv ho =>
    have hq := quiet_delayNotes t s now
    exact .inl ⟨rfl, admittedSinceReset_append hq _, resets_append hq _⟩
  | charge => exact .inl ⟨rfl, rfl, rfl⟩
  | empty =>
    have hq : Quiet [.emptied] := by simp [Quiet]
    exact .inl ⟨rfl, rfl, resets_append hq _⟩

/-! ## The budget -/

/-- The attempts admitted since the last reset are within the limit, and on record in both views. -/
def Budgeted (d : Disk) : Prop :=
  admittedSinceReset d.notes ≤ faceLimit ∧
    d.face.Both fun c => admittedSinceReset d.notes ≤ spentIn c

theorem Budgeted.of_eq (h : Budgeted d)
    (hn : admittedSinceReset d'.notes = admittedSinceReset d.notes)
    (hf : d'.face.Both fun c => admittedSinceReset d.notes ≤ spentIn c) : Budgeted d' := by
  unfold Budgeted
  rw [hn]
  exact ⟨h.1, hf⟩

theorem Budgeted.move (h : Budgeted d)
    (hm : Move a now d d') : Budgeted d' := by
  obtain ⟨hf, hn, -⟩ | ⟨hf, hn⟩ | ⟨s, o, hf, hc, hn, -⟩ | ⟨s, hf, hc, hl, hn⟩ | ⟨ns, hn, -⟩ :=
    hm.face_cases
  · exact h.of_eq hn (hf ▸ h.2)
  · exact h.of_eq (by rw [hn]) (hf ▸ h.2.sync)
  · exact h.of_eq hn (hf ▸ h.2.write o (Nat.le_trans h.2.1 hc))
  · have hle : admittedSinceReset d'.notes ≤ s.count := by
      have hv : admittedSinceReset d.notes ≤ spentIn d.face.visible := h.2.1
      rw [hn, admittedSinceReset]
      omega
    exact ⟨Nat.le_trans hle hl, hf ▸ ⟨hle, hle⟩⟩
  · unfold Budgeted
    rw [hn]
    exact ⟨Nat.zero_le _, Nat.zero_le _, Nat.zero_le _⟩

theorem Budgeted.moves (h : Budgeted d)
    (hm : Moves a now d d') : Budgeted d' := by
  induction hm with
  | refl => exact h
  | tail _ hm ih => exact ih.move hm

theorem Budgeted.note {d : Disk} {notes : List Note} (h : Budgeted d)
    (hn : notes = d.notes ∨ ∃ e, notes = .ended e :: d.notes) : Budgeted { d with notes } := by
  obtain rfl | ⟨e, rfl⟩ := hn
  · exact h
  · exact h

theorem Budgeted.step {w w' : World} {e : Event} (h : Budgeted w.disk)
    (hs : w.step a e = some w') : Budgeted w'.disk := by
  cases World.step_acts hs with
  | tick => exact h
  | reboot faceKept recoveryKept _ _ hn =>
    have hl : Budgeted { w.disk with face := w.disk.face.powerLoss faceKept } :=
      ⟨h.1, h.2.powerLoss faceKept⟩
    exact hl.note hn
  | moved hm =>
    obtain ⟨d, hd, he | ⟨e, he⟩⟩ := hm.disk <;> rw [he]
    · exact h.moves hd
    · exact (h.moves hd).note (.inr ⟨e, rfl⟩)
  | refused => exact h
  | charged hd ht => exact h.moves (hd.trans ht.moves)
  | verify => exact h

/-! ## The count is never lowered -/

def Kept (measure : DurableFile Record → Nat) (d d' : Disk) : Prop :=
  resets d.notes ≤ resets d'.notes ∧
    (resets d'.notes = resets d.notes → measure d.face ≤ measure d'.face)

variable {measure : DurableFile Record → Nat}

theorem Kept.refl (d : Disk) : Kept measure d d :=
  ⟨Nat.le_refl _, fun _ => Nat.le_refl _⟩

theorem Kept.trans {d₁ d₂ d₃ : Disk} (h : Kept measure d₁ d₂)
    (h' : Kept measure d₂ d₃) : Kept measure d₁ d₃ := by
  obtain ⟨hle, hm⟩ := h
  obtain ⟨hle', hm'⟩ := h'
  exact ⟨Nat.le_trans hle hle', fun he => Nat.le_trans (hm (by omega)) (hm' (by omega))⟩

theorem Kept.of_resets_lt (measure : DurableFile Record → Nat)
    (h : resets d.notes < resets d'.notes) : Kept measure d d' :=
  ⟨Nat.le_of_lt h, fun he => absurd he (Nat.ne_of_gt h)⟩

theorem resets_reset (notes : List Note) : resets (.reset :: notes) = resets notes + 1 := by
  simp [resets]

theorem resets_admitted (notes : List Note) : resets (.admitted :: notes) = resets notes :=
  List.count_cons_of_ne (by decide)

theorem resets_ended (e : Ending) (notes : List Note) : resets (.ended e :: notes) = resets notes :=
  List.count_cons_of_ne (by simp)

theorem Kept.seen_of_move (hm : Move a now d d') :
    Kept seen d d' := by
  unfold Kept seen
  obtain ⟨hf, -, hn⟩ | ⟨hf, hn⟩ | ⟨s, o, hf, hc, -, hn⟩ | ⟨s, hf, hc, -, hn⟩ | ⟨ns, hn, rfl⟩ :=
    hm.face_cases
  · exact ⟨hn.ge, fun _ => (congrArg (spentIn ·.visible) hf).ge⟩
  · exact ⟨(congrArg resets hn).ge, fun _ => (congrArg (spentIn ·.visible) hf).ge⟩
  · refine ⟨hn.ge, fun _ => ?_⟩
    rw [hf]
    cases o with
    | failed => exact Nat.le_refl _
    | durable => exact hc
    | visible => exact hc
  · rw [hn, resets_admitted, hf]
    exact ⟨Nat.le_refl _, fun _ => Nat.le_trans (Nat.le_succ _) hc.ge⟩
  · have hlt : resets d.notes < resets d'.notes := by rw [hn, resets_reset]; omega
    exact Kept.of_resets_lt seen hlt

theorem Kept.spent_of_move (hm : Move a now d d') :
    Kept spent d d' := by
  unfold Kept spent
  obtain ⟨hf, -, hn⟩ | ⟨hf, hn⟩ | ⟨s, o, hf, hc, -, hn⟩ | ⟨s, hf, hc, -, hn⟩ | ⟨ns, hn, rfl⟩ :=
    hm.face_cases
  · rw [hf]
    exact ⟨hn.ge, fun _ => Nat.le_refl _⟩
  · rw [hf, hn]
    exact ⟨Nat.le_refl _, fun _ => by simp only [DurableFile.sync]; omega⟩
  · refine ⟨hn.ge, fun _ => ?_⟩
    have hs : spentIn (some s) = s.count := rfl
    rw [hf]
    cases o <;> simp only [DurableFile.write] <;> omega
  · rw [hn, resets_admitted, hf]
    have hs : spentIn (some s) = s.count := rfl
    exact ⟨Nat.le_refl _, fun _ => by simp only [DurableFile.settled]; omega⟩
  · have hlt : resets d.notes < resets d'.notes := by rw [hn, resets_reset]; omega
    exact Kept.of_resets_lt spent hlt

theorem Kept.moves (hmove : ∀ {d d'}, Move a now d d' → Kept measure d d') (h : Moves a now d d') :
    Kept measure d d' := by
  induction h with
  | refl => exact .refl _
  | tail _ hm ih => exact ih.trans (hmove hm)

theorem Kept.note {notes : List Note}
    (h : Kept measure d d') (hn : notes = d'.notes ∨ ∃ e, notes = .ended e :: d'.notes) :
    Kept measure d { d' with notes } := by
  obtain rfl | ⟨e, rfl⟩ := hn
  · exact h
  · unfold Kept
    rw [resets_ended]
    exact h

theorem Kept.step {w w' : World} {e : Event}
    (hmove : ∀ {now d d'}, Move a now d d' → Kept measure d d')
    (hloss : e.isReboot = true → ∀ f k, measure f ≤ measure (f.powerLoss k))
    (hs : w.step a e = some w') : Kept measure w.disk w'.disk := by
  cases World.step_acts hs with
  | tick => exact .refl _
  | reboot faceKept recoveryKept _ _ hn =>
    have hl : Kept measure w.disk { w.disk with face := w.disk.face.powerLoss faceKept } :=
      ⟨Nat.le_refl _, fun _ => hloss rfl _ _⟩
    exact hl.note hn
  | moved hm =>
    obtain ⟨d, hd, he | ⟨e, he⟩⟩ := hm.disk <;> rw [he]
    · exact .moves hmove hd
    · exact (Kept.moves hmove hd).note (.inr ⟨e, rfl⟩)
  | refused => exact .refl _
  | charged hd ht => exact .moves hmove (hd.trans ht.moves)
  | verify =>
    have hq : ∀ charge, Quiet [.verified charge w.now] := by simp [Quiet]
    exact ⟨(resets_append (hq _) w.disk.notes).ge, fun _ => Nat.le_refl _⟩

theorem spent_le_powerLoss (f : DurableFile Record) (kept : Bool) :
    spent f ≤ spent (f.powerLoss kept) := by
  unfold spent DurableFile.powerLoss
  split
  · simp only [DurableFile.sync]
    omega
  · simp only
    omega

/-! ## The budget of every run -/

/-- However attempts begin, end, are abandoned or fail to be recorded, through crashes, power
losses and new boots: at most `faceLimit` of them are admitted between resets, and without a reset
the count does not fall. What a reader sees falls only when a power loss takes back a write that
was never durable, and then to the count that was. -/
theorem faceAttempts_within_budget {a : Account} {face : DurableFile Record}
    {recovery : DurableFile Attempts} {now : Tick} {past : List String} {es₁ es₂ : List Event}
    {m w : World} (h₁ : run (World.step a) (.start face recovery now past) es₁ = some m)
    (h₂ : run (World.step a) m es₂ = some w) :
    admittedSinceReset w.disk.notes ≤ faceLimit ∧
      (resets w.disk.notes = resets m.disk.notes →
        spent m.disk.face ≤ spent w.disk.face ∧
          ((∀ e ∈ es₂, e.isReboot = false) → seen m.disk.face ≤ seen w.disk.face)) := by
  have hstart : Budgeted (World.start face recovery now past).disk :=
    ⟨Nat.zero_le _, Nat.zero_le _, Nat.zero_le _⟩
  have hm : Budgeted m.disk := run_invariant (I := (Budgeted ·.disk)) Budgeted.step hstart h₁
  have hw : Budgeted w.disk := run_invariant (I := (Budgeted ·.disk)) Budgeted.step hm h₂
  have hspent : Kept spent m.disk w.disk :=
    run_invariant (I := (Kept spent m.disk ·.disk))
      (fun hk hs => hk.trans (.step Kept.spent_of_move (fun _ => spent_le_powerLoss) hs))
      (.refl _) h₂
  refine ⟨hw.1, fun hr => ⟨hspent.2 hr, fun hes => ?_⟩⟩
  have hseen : Kept seen m.disk w.disk :=
    run_invariant_of (I := (Kept seen m.disk ·.disk)) (P := (·.isReboot = false))
      (fun he hk hs => hk.trans (.step Kept.seen_of_move (fun h => by rw [he] at h; cases h) hs))
      hes (.refl _) h₂
  exact hseen.2 hr

def aliceDropped : World :=
  let w := World.start (.settled none) (.settled none) ⟨bootA, 0⟩ []
  (run (World.step alice) w [.begin defaultPolicy .none, .drop]).getD w

/-- Two abandoned attempts are both on record. -/
theorem faceAttempts_within_budget_abandoned :
    ∃ w, run (World.step alice) aliceDropped [.begin defaultPolicy .none, .crash] = some w ∧
      admittedSinceReset w.disk.notes ≤ faceLimit ∧
      (spent aliceDropped.disk.face ≤ spent w.disk.face ∧
        seen aliceDropped.disk.face ≤ seen w.disk.face) ∧
      spent aliceDropped.disk.face = 1 ∧ spent w.disk.face = 2 := by
  have h₁ : run (World.step alice) (.start (.settled none) (.settled none) ⟨bootA, 0⟩ [])
      [.begin defaultPolicy .none, .drop] = some aliceDropped := rfl
  have h₂ : run (World.step alice) aliceDropped [.begin defaultPolicy .none, .crash] = some _ := rfl
  have h := faceAttempts_within_budget h₁ h₂
  have hkept := h.2 rfl
  exact ⟨_, h₂, h.1, ⟨hkept.1, hkept.2 (by decide)⟩, rfl, rfl⟩

end Irlume.Retry

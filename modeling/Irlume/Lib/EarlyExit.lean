import Mathlib.Data.List.Basic

/-!
# Folds that may stop

A fold in `Except` stops at the first step that errs.
-/

namespace Irlume.Lib

universe u v w

variable {α : Type u} {σ : Type v} {ε : Type w} {step : σ → α → Except ε σ} {as : List α} {s s' : σ}

/-- What every step keeps, the fold keeps. -/
theorem foldlM_invariant {P : σ → Prop} (hstep : ∀ s a s', P s → step s a = .ok s' → P s') (hs : P s)
    (h : as.foldlM step s = .ok s') : P s' := by
  induction as generalizing s with
  | nil =>
    cases h
    exact hs
  | cons a as ih =>
    rw [List.foldlM_cons] at h
    cases hnext : step s a with
    | error e => rw [hnext] at h; cases h
    | ok next =>
      rw [hnext] at h
      exact ih (hstep s a next hs hnext) h

/-- A fold that stopped did so at one of its elements. -/
theorem exists_of_foldlM_error {e : ε} (h : as.foldlM step s = .error e) :
    ∃ a ∈ as, ∃ s, step s a = .error e := by
  induction as generalizing s with
  | nil => cases h
  | cons a as ih =>
    rw [List.foldlM_cons] at h
    cases hnext : step s a with
    | error e' =>
      rw [hnext] at h
      cases h
      exact ⟨a, List.mem_cons_self, s, hnext⟩
    | ok next =>
      rw [hnext] at h
      obtain ⟨b, hb, s, hs⟩ := ih h
      exact ⟨b, List.mem_cons_of_mem a hb, s, hs⟩

/-- An element at which every step errs stops the fold. -/
theorem foldlM_error_of_mem {a : α} (ha : a ∈ as) (herrs : ∀ s, ∃ e, step s a = .error e) :
    ∃ e, as.foldlM step s = .error e := by
  induction as generalizing s with
  | nil => cases ha
  | cons b as ih =>
    rw [List.foldlM_cons]
    cases hnext : step s b with
    | error e => exact ⟨e, rfl⟩
    | ok next =>
      rcases List.mem_cons.1 ha with rfl | ha
      · obtain ⟨e, he⟩ := herrs s
        rw [hnext] at he
        cases he
      · exact ih ha

end Irlume.Lib

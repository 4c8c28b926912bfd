import Mathlib.Data.List.Perm.Basic

/-! # Removing from a list whose order does not matter -/

namespace Irlume.Lib

/-- `Vec::swap_remove`: the last element takes the place of the one removed. -/
def swapRemove {α : Type} (l : List α) (i : Nat) : List α :=
  match l.getLast? with
  | none => []
  | some last => (l.set i last).dropLast

variable {α : Type}

theorem set_perm_eraseIdx (l : List α) (x : α) :
    ∀ {i : Nat}, i < l.length → (l.set i x).Perm (l.eraseIdx i ++ [x]) := by
  induction l with
  | nil =>
    intro i hi
    cases hi
  | cons y ys ih =>
    intro i hi
    cases i with
    | zero => exact (List.perm_append_singleton x ys).symm
    | succ i => exact (ih (Nat.lt_of_succ_lt_succ hi)).cons y

theorem swapRemove_perm {l : List α} {i : Nat} (hi : i < l.length) :
    (swapRemove l i).Perm (l.eraseIdx i) := by
  rcases List.eq_nil_or_concat l with hl | ⟨init, last, hl⟩
  · subst hl
    cases hi
  · rw [List.concat_eq_append] at hl
    subst hl
    have hswap : swapRemove (init ++ [last]) i = ((init ++ [last]).set i last).dropLast := by
      simp [swapRemove]
    rw [hswap]
    rw [List.length_append, List.length_singleton] at hi
    by_cases hlt : i < init.length
    · rw [List.set_append_left i last hlt, List.dropLast_concat,
        List.eraseIdx_append_of_lt_length hlt]
      exact set_perm_eraseIdx init last hlt
    · have hi : i = init.length := by omega
      subst hi
      simp [List.eraseIdx_append_of_length_le]

end Irlume.Lib

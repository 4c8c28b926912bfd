import Mathlib.Data.List.Basic

/-!
# Limits on what lies below

A list is read from the top. Some of its elements count, and some set a limit on how many elements that
count may lie below them. One number carried down the list, what is left of the tightest limit so far, decides
whether all the limits are kept (`withinLimits_iff`).
-/

namespace Irlume.Lib

universe u

variable {α : Type u} (counts : α → Bool) (limit : α → Option Nat)

/-- What is left of the tightest limit once an element was passed; `none` when nothing was left. -/
def passLimit (max : Nat) (a : α) : Option Nat :=
  (if counts a then if max = 0 then none else some (max - 1) else some max).map fun left =>
    match limit a with
    | none => left
    | some k => min left k

def withinLimits : Nat → List α → Bool
  | _, [] => true
  | max, a :: below =>
    match passLimit counts limit max a with
    | none => false
    | some left => withinLimits left below

/-- No element has more of those that count below it than it allows. -/
def LimitsKept (list : List α) : Prop :=
  ∀ above a below k, list = above ++ a :: below → limit a = some k → below.countP counts ≤ k

variable {counts limit}

theorem limitsKept_cons {a : α} {below : List α} : LimitsKept counts limit (a :: below) ↔
    (∀ k, limit a = some k → below.countP counts ≤ k) ∧ LimitsKept counts limit below := by
  constructor
  · intro h
    refine ⟨fun k hk => h [] a below k rfl hk, fun above a' below' k heq hk => ?_⟩
    exact h (a :: above) a' below' k (by rw [heq]; rfl) hk
  · rintro ⟨hfirst, hrest⟩ above a' below' k heq hk
    cases above with
    | nil =>
      cases heq
      exact hfirst k hk
    | cons b above =>
      cases heq
      exact hrest above a' below' k rfl hk

theorem LimitsKept.sublist {list shorter : List α} (hsub : shorter.Sublist list)
    (h : LimitsKept counts limit list) : LimitsKept counts limit shorter := by
  induction hsub with
  | slnil => exact h
  | cons a _ ih => exact ih (limitsKept_cons.1 h).2
  | cons_cons a hsub ih =>
    obtain ⟨hfirst, hrest⟩ := limitsKept_cons.1 h
    exact limitsKept_cons.2 ⟨fun k hk => Nat.le_trans hsub.countP_le (hfirst k hk), ih hrest⟩

/-- **The number carried down decides.** -/
theorem withinLimits_iff {max : Nat} {list : List α} : withinLimits counts limit max list = true ↔
    list.countP counts ≤ max ∧ LimitsKept counts limit list := by
  induction list generalizing max with
  | nil => simp [withinLimits, LimitsKept]
  | cons a below ih =>
    have hleft : ∀ left, withinLimits counts limit (match limit a with | none => left | some k => min left k)
        below = true ↔ below.countP counts ≤ left ∧ LimitsKept counts limit (a :: below) := by
      intro left
      rw [ih, limitsKept_cons]
      cases hlimit : limit a with
      | none => simp
      | some k =>
        simp only [Option.some.injEq, Nat.le_min, forall_eq']
        exact and_assoc
    rw [withinLimits, passLimit]
    cases hcounts : counts a with
    | false => simpa [hcounts] using hleft max
    | true =>
      rw [List.countP_cons_of_pos hcounts]
      cases max with
      | zero => simp
      | succ max => simpa using hleft max

theorem withinLimits_length {list : List α} :
    withinLimits counts limit list.length list = true ↔ LimitsKept counts limit list := by
  rw [withinLimits_iff, and_iff_right List.countP_le_length]

end Irlume.Lib

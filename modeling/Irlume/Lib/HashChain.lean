import Mathlib.Data.List.Induction

/-!
# Hash chains

A chain starts at a fixed value and extends its value with one element after the other. The extension is
injective on what it is applied to and never gives the start.
-/

namespace Irlume.Lib

universe u v

variable {α : Type u} {β : Type v}

/-- What a chain from `a` applies its extension to: the value so far and the next element. -/
def chainInputs (extend : α → β → α) : α → List β → List (α × β)
  | _, [] => []
  | a, b :: l => (a, b) :: chainInputs extend (extend a b) l

theorem chainInputs_append (extend : α → β → α) (a : α) (l m : List β) :
    chainInputs extend a (l ++ m) =
      chainInputs extend a l ++ chainInputs extend (l.foldl extend a) m := by
  induction l generalizing a with
  | nil => rfl
  | cons b l ih => simp [chainInputs, ih]

theorem chainInputs_concat (extend : α → β → α) (a : α) (l : List β) (b : β) :
    chainInputs extend a (l ++ [b]) = chainInputs extend a l ++ [(l.foldl extend a, b)] :=
  chainInputs_append extend a l [b]

variable {extend : α → β → α} {start : α}

theorem eq_nil_of_foldl_eq_start {l : List β}
    (hstart : ∀ x ∈ chainInputs extend start l, extend x.1 x.2 ≠ start)
    (h : l.foldl extend start = start) : l = [] := by
  induction l using List.reverseRecOn with
  | nil => rfl
  | append_singleton l b _ =>
    rw [List.foldl_append] at h
    apply absurd h
    apply hstart (l.foldl extend start, b)
    rw [chainInputs_concat]
    exact List.mem_append_right _ List.mem_cons_self

/-- **Chains with the same end have the same elements.** -/
theorem foldl_injective {l m : List β}
    (hinjective : ∀ x ∈ chainInputs extend start l, ∀ y ∈ chainInputs extend start m,
      extend x.1 x.2 = extend y.1 y.2 → x = y)
    (hl : ∀ x ∈ chainInputs extend start l, extend x.1 x.2 ≠ start)
    (hm : ∀ y ∈ chainInputs extend start m, extend y.1 y.2 ≠ start)
    (h : l.foldl extend start = m.foldl extend start) : l = m := by
  induction l using List.reverseRecOn generalizing m with
  | nil => exact (eq_nil_of_foldl_eq_start hm h.symm).symm
  | append_singleton l b ih =>
    cases m using List.reverseRecOn with
    | nil => exact eq_nil_of_foldl_eq_start hl h
    | append_singleton m c =>
      rw [List.foldl_append, List.foldl_append] at h
      simp only [chainInputs_concat, List.mem_append, List.mem_singleton] at hinjective hl hm
      have hlast := hinjective _ (.inr rfl) _ (.inr rfl) h
      obtain ⟨hvalue, rfl⟩ := Prod.mk.inj hlast
      have hrest : l = m := by
        apply ih _ (fun x hx => hl x (.inl hx)) (fun y hy => hm y (.inl hy)) hvalue
        intro x hx y hy
        exact hinjective x (.inl hx) y (.inl hy)
      rw [hrest]

end Irlume.Lib

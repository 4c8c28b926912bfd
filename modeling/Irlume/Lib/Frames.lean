import Mathlib.Data.List.Basic

/-!
# Chains of frames

A chain of frames starts each frame with its own length in one byte, which counts at least itself and one more.
`frames` cuts bytes into their frames, and a walk folds a step over them.
-/

namespace Irlume.Lib

def nextFrame (bs : List UInt8) : Option (List UInt8 × List UInt8) :=
  match bs with
  | length :: _ :: _ =>
    if length.toNat < 2 ∨ bs.length < length.toNat then none else some (bs.splitAt length.toNat)
  | _ => none

/-- At most `n` frames. -/
def framesFrom : Nat → List UInt8 → Option (List (List UInt8))
  | _, [] => some []
  | 0, _ => none
  | n + 1, bs => (nextFrame bs).bind fun e => (framesFrom n e.2).map (e.1 :: ·)

/-- The frames of the bytes; none is shorter than two bytes, so their number bounds the frames. -/
def frames (bs : List UInt8) : Option (List (List UInt8)) := framesFrom bs.length bs

/-- A whole frame. -/
structure IsFrame (d : List UInt8) : Prop where
  length_ge : 2 ≤ d.length
  head : d.head?.map UInt8.toNat = some d.length

instance (d : List UInt8) : Decidable (IsFrame d) :=
  decidable_of_iff (2 ≤ d.length ∧ d.head?.map UInt8.toNat = some d.length)
    ⟨fun ⟨hlength, hhead⟩ => ⟨hlength, hhead⟩, fun h => ⟨h.length_ge, h.head⟩⟩

theorem nextFrame_eq_some_iff {bs d rest : List UInt8} :
    nextFrame bs = some (d, rest) ↔ bs = d ++ rest ∧ IsFrame d := by
  constructor
  · intro h
    unfold nextFrame at h
    split at h
    · next length second tail =>
      split at h
      · cases h
      · next hlength =>
        rw [not_or, Nat.not_lt, Nat.not_lt] at hlength
        rw [List.splitAt_eq] at h
        cases h
        refine ⟨(List.take_append_drop _ _).symm, ?_, ?_⟩
        · rw [List.length_take]
          omega
        · obtain ⟨k, hk⟩ := Nat.exists_eq_succ_of_ne_zero (Nat.ne_of_gt (by omega : 0 < length.toNat))
          rw [List.length_take, Nat.min_eq_left hlength.2, hk, List.take_succ_cons, List.head?_cons,
            Option.map_some, hk]
    · cases h
  · rintro ⟨rfl, hlength, hhead⟩
    match d with
    | [] => simp at hlength
    | [_] => simp at hlength
    | length :: second :: tail =>
      have hlength : length.toNat = (length :: second :: tail).length := Option.some.inj hhead
      simp only [nextFrame, List.cons_append]
      rw [if_neg, List.splitAt_eq, hlength, ← List.cons_append, ← List.cons_append, List.take_left,
        List.drop_left]
      simp only [List.length_cons, List.length_append] at hlength ⊢
      omega

variable {ds : List (List UInt8)}

theorem framesFrom_sound {n : Nat} {bs : List UInt8}
    (h : framesFrom n bs = some ds) : ds.flatten = bs ∧ ∀ d ∈ ds, IsFrame d := by
  induction n generalizing bs ds with
  | zero =>
    cases bs with
    | nil =>
      cases h
      simp
    | cons b bs => cases h
  | succ n ih =>
    cases bs with
    | nil =>
      cases h
      simp
    | cons b bs =>
      obtain ⟨⟨d, rest⟩, hnext, h⟩ := Option.bind_eq_some_iff.1 h
      obtain ⟨ds, hrest, rfl⟩ := Option.map_eq_some_iff.1 h
      obtain ⟨happend, hframe⟩ := nextFrame_eq_some_iff.1 hnext
      obtain ⟨hflatten, hframes⟩ := ih hrest
      rw [List.flatten_cons, hflatten, happend, List.forall_mem_cons]
      exact ⟨rfl, hframe, hframes⟩

theorem framesFrom_complete {n : Nat} (hn : ds.flatten.length ≤ n)
    (h : ∀ d ∈ ds, IsFrame d) : framesFrom n ds.flatten = some ds := by
  induction ds generalizing n with
  | nil => cases n <;> rfl
  | cons d ds ih =>
    rw [List.forall_mem_cons] at h
    obtain ⟨hframe, hframes⟩ := h
    have hlength := hframe.length_ge
    rw [List.flatten_cons, List.length_append] at hn
    obtain ⟨n, rfl⟩ := Nat.exists_eq_succ_of_ne_zero (by omega : n ≠ 0)
    cases d with
    | nil => simp at hlength
    | cons b d =>
      have hnext : nextFrame (b :: d ++ ds.flatten) = some (b :: d, ds.flatten) :=
        nextFrame_eq_some_iff.2 ⟨rfl, hframe⟩
      show (nextFrame (b :: d ++ ds.flatten)).bind _ = _
      rw [hnext, Option.bind_some, ih (by omega) hframes]
      rfl

/-- **What `frames` takes:** exactly the chains of whole frames, and it gives back the frames. -/
theorem frames_eq_some_iff {bs : List UInt8} :
    frames bs = some ds ↔ ds.flatten = bs ∧ ∀ d ∈ ds, IsFrame d := by
  constructor
  · intro h
    exact framesFrom_sound h
  · rintro ⟨rfl, h⟩
    exact framesFrom_complete (Nat.le_refl _) h

theorem IsFrame.length_of_append {d rest bs : List UInt8} {b : UInt8} (h : IsFrame d) (happend : d ++ rest = b :: bs) :
    d.length = b.toNat := by
  have hlong := h.length_ge
  have hhead := congrArg List.head? happend
  rw [List.head?_append_of_ne_nil _ (List.ne_nil_of_length_pos (by omega)), List.head?_cons] at hhead
  have hlength := h.head
  rw [hhead] at hlength
  exact (Option.some.inj hlength).symm

theorem frames_of_append {ds ds' : List (List UInt8)} {rest : List UInt8} (hds : ∀ d ∈ ds, IsFrame d)
    (hds' : ∀ d ∈ ds', IsFrame d) (h : ds'.flatten = ds.flatten ++ rest) :
    ∃ more, ds' = ds ++ more ∧ more.flatten = rest := by
  induction ds generalizing ds' with
  | nil => exact ⟨ds', rfl, h⟩
  | cons d ds ih =>
    have hframe := hds d List.mem_cons_self
    have hlong := hframe.length_ge
    obtain ⟨b, tail, rfl⟩ := List.exists_cons_of_length_pos (by omega : 0 < d.length)
    cases ds' with
    | nil => cases h
    | cons d' ds' =>
      rw [List.flatten_cons, List.flatten_cons, List.append_assoc] at h
      have hsame : d'.length = (b :: tail).length := by
        have hlength' := (hds' d' List.mem_cons_self).length_of_append h
        have hlength : (b :: tail).length = b.toNat := hframe.length_of_append (List.append_nil _)
        omega
      obtain ⟨rfl, htail⟩ := List.append_inj h hsame
      obtain ⟨more, rfl, hmore⟩ := ih (fun e he => hds e (List.mem_cons_of_mem _ he))
        (fun e he => hds' e (List.mem_cons_of_mem _ he)) htail
      exact ⟨more, rfl, hmore⟩

/-- A chain that is cut inside a frame is none. -/
theorem frames_cut {d : List UInt8} {k : Nat} (hds : ∀ d ∈ ds, IsFrame d) (hd : IsFrame d)
    (hk : 0 < k) (hcut : k < d.length) : frames (ds.flatten ++ d.take k) = none := by
  rw [Option.eq_none_iff_forall_ne_some]
  intro ds' h
  obtain ⟨hflatten, hds'⟩ := frames_eq_some_iff.1 h
  obtain ⟨more, rfl, hmore⟩ := frames_of_append hds hds' hflatten
  obtain ⟨b, tail, rfl⟩ := List.exists_cons_of_length_pos (by omega : 0 < d.length)
  obtain ⟨k, rfl⟩ := Nat.exists_eq_succ_of_ne_zero (Nat.ne_of_gt hk)
  cases more with
  | nil => cases hmore
  | cons e more =>
    -- The frame that starts where `d` does is as long as `d`, and there are only `k` bytes of it.
    have hlength := congrArg List.length hmore
    have he := (hds' e (List.mem_append_right _ List.mem_cons_self)).length_of_append hmore
    have hwhole : (b :: tail).length = b.toNat := hd.length_of_append (List.append_nil _)
    rw [List.flatten_cons, List.length_append, List.length_take] at hlength
    omega

theorem frames_short {b : UInt8} {rest : List UInt8} (hds : ∀ d ∈ ds, IsFrame d)
    (hb : b.toNat < 2) : frames (ds.flatten ++ b :: rest) = none := by
  rw [Option.eq_none_iff_forall_ne_some]
  intro ds' h
  obtain ⟨hflatten, hds'⟩ := frames_eq_some_iff.1 h
  obtain ⟨more, rfl, hmore⟩ := frames_of_append hds hds' hflatten
  cases more with
  | nil => cases hmore
  | cons e more =>
    have he := hds' e (List.mem_append_right _ List.mem_cons_self)
    have hlong := he.length_ge
    have hlength := he.length_of_append hmore
    omega

/-! ## Walks -/

universe u v w

variable {α : Type u} {σ : Type v} {τ : Type w}

/-- **The simulation rule.** When each step of one walk is matched by a step of another, so is the
walk. -/
theorem foldlM_simulation {R : σ → τ → Prop} {step : σ → α → Option σ} {step' : τ → α → Option τ}
    (hstep : ∀ {s t s' a}, R s t → step s a = some s' → ∃ t', step' t a = some t' ∧ R s' t')
    {as : List α} {s s' : σ} {t : τ} (hs : R s t) (h : as.foldlM step s = some s') :
    ∃ t', as.foldlM step' t = some t' ∧ R s' t' := by
  induction as generalizing s t with
  | nil =>
    cases h
    exact ⟨t, rfl, hs⟩
  | cons a as ih =>
    rw [List.foldlM_cons] at h
    obtain ⟨m, hm, hrest⟩ := Option.bind_eq_some_iff.1 h
    obtain ⟨m', hm', hR⟩ := hstep hs hm
    obtain ⟨t', ht', hR'⟩ := ih hR hrest
    refine ⟨t', ?_, hR'⟩
    rw [List.foldlM_cons, hm']
    exact ht'

end Irlume.Lib

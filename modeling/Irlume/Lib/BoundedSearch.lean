import Mathlib.Data.List.Nodup

/-!
# A bounded depth-first search

The search lists the paths from a node through candidates to a goal, each path as the positions of its
candidates. It stops at a number of paths and a number of candidates tried, and goes no deeper than a number of
candidates below a goal.
-/

namespace Irlume.Lib

universe u

/-- Where a search stops. -/
structure SearchBounds where
  maxPaths : Nat
  maxSteps : Nat
  /-- At most this many candidates below the goal. -/
  maxBelow : Nat

/-- The candidates, each with whether it is a goal, and which candidates may follow a node. -/
structure SearchGraph (α : Type u) where
  candidates : List (α × Bool)
  admits : α → α → Bool

/-- How far a search came. -/
structure Search (α : Type u) where
  paths : List (List Nat)
  /-- The first node that no candidate follows. -/
  deadEnd : Option α
  stepsLeft : Nat
  /-- How many candidates were tried. -/
  tried : Nat

namespace SearchGraph

variable {α : Type u} (b : SearchBounds) (g : SearchGraph α)

/-- Try the candidate at position `i`. A goal ends a path; from other candidates `recurse` goes on while the
path is short enough. -/
def tryOne (recurse : Search α → List Nat → α → Search α) (path : List Nat) (i : Nat) (candidate : α)
    (goal : Bool) (s : Search α) : Search α :=
  let s := { s with stepsLeft := s.stepsLeft - 1, tried := s.tried + 1 }
  let path := path ++ [i]
  if goal then { s with paths := s.paths ++ [path] }
  else if path.length ≤ b.maxBelow then recurse s path candidate
  else s

/-- Try the candidates from position `i` on after `child`. -/
def tryFrom (recurse : Search α → List Nat → α → Search α) (path : List Nat) (child : α) :
    List (α × Bool) → Nat → Search α → Bool → Search α
  | [], _, s, found =>
    if !found && s.deadEnd.isNone then { s with deadEnd := some child } else s
  | (candidate, goal) :: rest, i, s, found =>
    if b.maxPaths ≤ s.paths.length || s.stepsLeft = 0 then s
    else if !g.admits child candidate || path.contains i then
      tryFrom recurse path child rest (i + 1) s found
    else tryFrom recurse path child rest (i + 1) (tryOne b recurse path i candidate goal s) true

/-- Extend `path`, which leads to `child`, in every way. -/
def extend : Nat → Search α → List Nat → α → Search α
  | 0, s, _, _ => s
  | fuel + 1, s, path, child => g.tryFrom b (extend fuel) path child g.candidates 0 s false

def search (start : α) : Search α :=
  g.extend b (b.maxBelow + 1) ⟨[], none, b.maxSteps, 0⟩ [] start

/-- The positions lead from `child` to a goal, which is the last one. -/
def Leads : α → List Nat → Prop
  | _, [] => False
  | child, i :: rest => ∃ candidate goal, g.candidates[i]? = some (candidate, goal) ∧
    g.admits child candidate = true ∧ if goal then rest = [] else Leads candidate rest

/-- What a search may list. -/
structure IsPath (start : α) (path : List Nat) : Prop where
  leads : g.Leads start path
  nodup : path.Nodup
  length : path.length ≤ b.maxBelow + 1

/-- The search stopped, or may have stopped, at one of its bounds. -/
def Exhausted (s : Search α) : Prop := b.maxPaths ≤ s.paths.length ∨ s.stepsLeft = 0

instance (s : Search α) : Decidable (Exhausted b s) := inferInstanceAs (Decidable (_ ∨ _))

variable {b g} {s s' : Search α} {path : List Nat} {child : α} {fuel i : Nat}

/-! ## What a search keeps -/

/-- `s'` is `s` after more searching. -/
structure Continues (b : SearchBounds) (s s' : Search α) : Prop where
  paths : s.paths <+: s'.paths
  steps : s'.tried + s'.stepsLeft = s.tried + s.stepsLeft
  left : s'.stepsLeft ≤ s.stepsLeft
  bounded : s.paths.length ≤ b.maxPaths → s'.paths.length ≤ b.maxPaths

theorem Continues.refl (s : Search α) : Continues b s s := ⟨List.prefix_refl _, rfl, Nat.le_refl _, id⟩

theorem Continues.trans {s₁ s₂ s₃ : Search α} (h : Continues b s₁ s₂) (h' : Continues b s₂ s₃) :
    Continues b s₁ s₃ where
  paths := h.paths.trans h'.paths
  steps := h'.steps.trans h.steps
  left := Nat.le_trans h'.left h.left
  bounded hs := h'.bounded (h.bounded hs)

theorem Continues.exhausted (h : Continues b s s') (hs : Exhausted b s) : Exhausted b s' := by
  rcases hs with hpaths | hsteps
  · exact .inl (Nat.le_trans hpaths h.paths.length_le)
  · exact .inr (Nat.le_zero.1 (hsteps ▸ h.left))

variable {recurse : Search α → List Nat → α → Search α}

theorem tryOne_continues {goal : Bool} {candidate : α}
    (hrecurse : ∀ s path child, Continues b s (recurse s path child)) (hs : ¬ Exhausted b s) :
    Continues b s (tryOne b recurse path i candidate goal s) := by
  simp only [Exhausted, not_or, Nat.not_le] at hs
  obtain ⟨hpaths, hsteps⟩ := hs
  have htried : Continues b s { s with stepsLeft := s.stepsLeft - 1, tried := s.tried + 1 } :=
    ⟨List.prefix_refl _, by simp only; omega, Nat.sub_le _ _, id⟩
  unfold tryOne
  simp only
  split
  · refine ⟨List.prefix_append _ _, by simp only; omega, Nat.sub_le _ _, fun _ => ?_⟩
    rw [List.length_append, List.length_singleton]
    exact hpaths
  · split
    · exact htried.trans (hrecurse _ _ _)
    · exact htried

variable {rest : List (α × Bool)} {found : Bool}

theorem tryFrom_continues
    (hrecurse : ∀ s path child, Continues b s (recurse s path child)) : Continues b s
    (g.tryFrom b recurse path child rest i s found) := by
  induction rest generalizing i s found with
  | nil =>
    simp only [tryFrom]
    split
    · exact ⟨List.prefix_refl _, rfl, Nat.le_refl _, id⟩
    · exact .refl s
  | cons entry rest ih =>
    obtain ⟨candidate, goal⟩ := entry
    simp only [tryFrom]
    split
    · exact .refl s
    · next hnot =>
      have hs : ¬ Exhausted b s := by simpa [Exhausted] using hnot
      split
      · exact ih
      · exact (tryOne_continues hrecurse hs).trans ih

theorem extend_continues (fuel : Nat) (s : Search α) (path : List Nat) (child : α) :
    Continues b s (g.extend b fuel s path child) := by
  induction fuel generalizing s path child with
  | zero => exact .refl s
  | succ fuel ih => exact tryFrom_continues fun s path child => ih s path child

/-- **Bounds.** However the candidates follow each other, few paths are listed and few candidates tried. -/
theorem search_bounded (start : α) :
    (g.search b start).paths.length ≤ b.maxPaths ∧ (g.search b start).tried ≤ b.maxSteps := by
  have h : Continues b _ (g.search b start) := extend_continues _ _ _ _
  have hsteps := h.steps
  exact ⟨h.bounded (Nat.zero_le _), by simp only [Nat.zero_add] at hsteps; omega⟩

/-! ## What is listed -/

/-- The paths that extend `path`. -/
structure Extends (b : SearchBounds) (g : SearchGraph α) (path : List Nat) (child : α) (p : List Nat) : Prop where
  exists_leads : ∃ q, p = path ++ q ∧ g.Leads child q
  nodup : p.Nodup
  length : p.length ≤ b.maxBelow + 1

theorem tryFrom_sound (hrecurse : ∀ s path child, path.Nodup → path.length ≤ b.maxBelow →
      ∀ p ∈ (recurse s path child).paths, p ∈ s.paths ∨ Extends b g path child p)
    (hnodup : path.Nodup) (hlength : path.length ≤ b.maxBelow)
    (hrest : ∀ j, rest[j]? = g.candidates[i + j]?) :
    ∀ p ∈ (g.tryFrom b recurse path child rest i s found).paths, p ∈ s.paths ∨ Extends b g path child p := by
  induction rest generalizing i s found with
  | nil =>
    intro p hp
    simp only [tryFrom] at hp
    split at hp <;> exact .inl hp
  | cons entry rest ih =>
    obtain ⟨candidate, goal⟩ := entry
    have hcandidate : g.candidates[i]? = some (candidate, goal) := (hrest 0).symm
    have hrest' : ∀ j, rest[j]? = g.candidates[i + 1 + j]? := by
      intro j
      have := hrest (j + 1)
      rwa [List.getElem?_cons_succ, Nat.add_comm j 1, ← Nat.add_assoc] at this
    intro p hp
    simp only [tryFrom] at hp
    split at hp
    · exact .inl hp
    · split at hp
      · exact ih hrest' p hp
      · next hadmits =>
        simp only [Bool.or_eq_true, Bool.not_eq_true', List.contains_iff_mem, not_or,
          Bool.not_eq_false] at hadmits
        obtain ⟨hadmits, hfresh⟩ := hadmits
        have hnodup' : (path ++ [i]).Nodup := by
          refine List.nodup_append.2 ⟨hnodup, List.nodup_singleton i, fun x hx y hy heq => ?_⟩
          rw [heq, List.mem_singleton.1 hy] at hx
          exact hfresh hx
        rcases ih hrest' p hp with hold | hnew
        · simp only [tryOne] at hold
          split at hold
          · next hgoal =>
            rcases List.mem_append.1 hold with hold | hlast
            · exact .inl hold
            · rw [List.mem_singleton.1 hlast]
              refine .inr ⟨⟨[i], rfl, candidate, goal, hcandidate, hadmits, ?_⟩, hnodup', ?_⟩
              · rw [if_pos hgoal]
              · simpa using hlength
          · next hgoal =>
            split at hold
            · next hshort =>
              rcases hrecurse _ _ _ hnodup' hshort p hold with hold | hnew
              · exact .inl hold
              · obtain ⟨⟨q, rfl, hq⟩, hp, hlen⟩ := hnew
                refine .inr ⟨⟨i :: q, by simp, candidate, goal, hcandidate, hadmits, ?_⟩, hp, hlen⟩
                rwa [if_neg hgoal]
            · exact .inl hold
        · exact .inr hnew

theorem extend_sound (fuel : Nat) (s : Search α) (path : List Nat) (child : α) (hnodup : path.Nodup)
    (hlength : path.length ≤ b.maxBelow) :
    ∀ p ∈ (g.extend b fuel s path child).paths, p ∈ s.paths ∨ Extends b g path child p := by
  induction fuel generalizing s path child with
  | zero => exact fun p hp => .inl hp
  | succ fuel ih =>
    exact tryFrom_sound (fun s path child hn hl => ih s path child hn hl) hnodup hlength
      fun j => by rw [Nat.zero_add]

/-- **Soundness.** What is listed are paths. -/
theorem search_sound {start : α} {p : List Nat} (hp : p ∈ (g.search b start).paths) : g.IsPath b start p := by
  rcases extend_sound _ _ _ _ List.nodup_nil (Nat.zero_le _) p hp with hold | hnew
  · cases hold
  · obtain ⟨⟨q, rfl, hq⟩, hnodup, hlength⟩ := hnew
    exact ⟨hq, hnodup, hlength⟩

/-! ## What is not missed -/

theorem Leads.ne_nil {q : List Nat} (h : g.Leads child q) : q ≠ [] := by
  rintro rfl
  exact h

/-- What it is to list every path that extends `path`. -/
def Covers (b : SearchBounds) (g : SearchGraph α) (path : List Nat) (child : α) (s : Search α) : Prop :=
  ∀ q, g.Leads child q → (path ++ q).Nodup → (path ++ q).length ≤ b.maxBelow + 1 → path ++ q ∈ s.paths

theorem tryFrom_complete (hcontinues : ∀ s path child, Continues b s (recurse s path child))
    (hrecurse : ∀ s i child, ¬ Exhausted b (recurse s (path ++ [i]) child) →
      Covers b g (path ++ [i]) child (recurse s (path ++ [i]) child)) (hrest :
    ∀ j, rest[j]? = g.candidates[i + j]?)
    (hnot : ¬ Exhausted b (g.tryFrom b recurse path child rest i s found)) {j : Nat} {q : List Nat}
    (hle : i ≤ j) (hleads : g.Leads child (j :: q)) (hnodup : (path ++ j :: q).Nodup)
    (hlength : (path ++ j :: q).length ≤ b.maxBelow + 1) :
    path ++ j :: q ∈ (g.tryFrom b recurse path child rest i s found).paths := by
  induction rest generalizing i s found with
  | nil =>
    obtain ⟨candidate, goal, hcandidate, -⟩ := hleads
    have hnone := hrest (j - i)
    rw [Nat.add_sub_cancel' hle, hcandidate] at hnone
    cases hnone
  | cons entry rest ih =>
    obtain ⟨candidate, goal⟩ := entry
    have hrest' : ∀ j, rest[j]? = g.candidates[i + 1 + j]? := by
      intro j
      have := hrest (j + 1)
      rwa [List.getElem?_cons_succ, Nat.add_comm j 1, ← Nat.add_assoc] at this
    simp only [tryFrom] at hnot ⊢
    split
    · next hfull =>
      rw [if_pos hfull] at hnot
      exact absurd (by simpa [Exhausted] using hfull) hnot
    · next hroom =>
      rw [if_neg hroom] at hnot
      split
      · next hskip =>
        rw [if_pos hskip] at hnot
        refine ih hrest' hnot (Nat.lt_of_le_of_ne hle ?_)
        rintro rfl
        -- The candidate at `i` is skipped, so no path goes on with it.
        obtain ⟨candidate', goal', hcandidate, hadmits, -⟩ := hleads
        have hsame := hrest 0
        rw [List.getElem?_cons_zero, Nat.add_zero, hcandidate, Option.some.injEq, Prod.mk.injEq] at hsame
        obtain ⟨rfl, -⟩ := hsame
        simp only [hadmits, Bool.not_true, Bool.false_or, List.contains_iff_mem] at hskip
        exact (List.nodup_append.1 hnodup).2.2 i hskip i List.mem_cons_self rfl
      · next htry =>
        rw [if_neg htry] at hnot
        rcases Nat.eq_or_lt_of_le hle with rfl | hlt
        · obtain ⟨candidate', goal', hcandidate, hadmits, hgoes⟩ := hleads
          have hsame := hrest 0
          rw [List.getElem?_cons_zero, Nat.add_zero, hcandidate, Option.some.injEq,
            Prod.mk.injEq] at hsame
          obtain ⟨rfl, rfl⟩ := hsame
          have hkeeps : Continues b (tryOne b recurse path i candidate goal s)
              (g.tryFrom b recurse path child rest (i + 1) (tryOne b recurse path i candidate goal s) true) :=
            tryFrom_continues hcontinues
          refine hkeeps.paths.subset ?_
          have hnot' : ¬ Exhausted b (tryOne b recurse path i candidate goal s) :=
            fun hs => hnot (hkeeps.exhausted hs)
          cases goal with
          | true =>
            obtain rfl : q = [] := by simpa using hgoes
            simp [tryOne]
          | false =>
            have hgoes : g.Leads candidate q := by simpa using hgoes
            have hpos := List.length_pos_of_ne_nil hgoes.ne_nil
            have hshort : (path ++ [i]).length ≤ b.maxBelow := by
              simp only [List.length_append, List.length_cons, List.length_nil] at hlength ⊢
              omega
            simp only [tryOne, hshort, if_true, Bool.false_eq_true, if_false] at hnot' ⊢
            have happend : path ++ i :: q = (path ++ [i]) ++ q := by simp
            rw [happend] at hnodup hlength ⊢
            exact hrecurse _ i candidate hnot' q hgoes hnodup hlength
        · exact ih hrest' hnot hlt

theorem extend_complete (fuel : Nat) (s : Search α) (path : List Nat) (child : α)
    (hfuel : b.maxBelow + 1 ≤ path.length + fuel) (hnot : ¬ Exhausted b (g.extend b fuel s path child)) :
    Covers b g path child (g.extend b fuel s path child) := by
  induction fuel generalizing s path child with
  | zero =>
    intro q hq _ hlength
    have hpos := List.length_pos_of_ne_nil hq.ne_nil
    rw [List.length_append] at hlength
    omega
  | succ fuel ih =>
    intro q hq hnodup hlength
    cases q with
    | nil => exact hq.elim
    | cons j q =>
      refine tryFrom_complete (extend_continues fuel) (fun s i child hs => ih s _ child ?_ hs)
        (fun j => by rw [Nat.zero_add]) hnot (Nat.zero_le j) hq hnodup hlength
      rw [List.length_append, List.length_singleton]
      omega

/-- **Completeness.** A search that reached none of its bounds lists every path. -/
theorem search_complete {start : α} (hnot : ¬ Exhausted b (g.search b start)) {p : List Nat}
    (hp : g.IsPath b start p) : p ∈ (g.search b start).paths := by
  have hcovers := extend_complete (b.maxBelow + 1) ⟨[], none, b.maxSteps, 0⟩ [] start
    (by simp) hnot
  exact hcovers p hp.leads hp.nodup hp.length

/-- The depth that `search` allows for is never reached: allowing for more changes nothing. -/
theorem extend_fuel {more : Nat} (s : Search α) (path : List Nat) (child : α) (fuel : Nat)
    (hlength : path.length ≤ b.maxBelow) (hfuel : b.maxBelow + 1 ≤ path.length + fuel) :
    g.extend b (fuel + more) s path child = g.extend b fuel s path child := by
  induction fuel generalizing s path child with
  | zero => omega
  | succ fuel ih =>
    have hsame : ∀ (rest : List (α × Bool)) (i : Nat) (s : Search α) (found : Bool),
        g.tryFrom b (g.extend b (fuel + more)) path child rest i s found =
          g.tryFrom b (g.extend b fuel) path child rest i s found := by
      intro rest
      induction rest with
      | nil => exact fun _ _ _ => rfl
      | cons entry rest ihrest =>
        intro i s found
        have hone : tryOne b (g.extend b (fuel + more)) path i entry.1 entry.2 s =
            tryOne b (g.extend b fuel) path i entry.1 entry.2 s := by
          simp only [tryOne]
          split
          · rfl
          · split
            · next hshort =>
              refine ih _ _ _ hshort ?_
              rw [List.length_append, List.length_singleton]
              omega
            · rfl
        simp only [tryFrom, ihrest, hone]
    rw [show fuel + 1 + more = fuel + more + 1 by omega]
    exact hsame _ _ _ _

end SearchGraph

end Irlume.Lib

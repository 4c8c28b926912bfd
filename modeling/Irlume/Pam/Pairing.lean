import Irlume.Pam.Adjust
import Mathlib.Data.List.Pairwise

/-!
# Which line is which

An adjustment pairs the lines of the file before with the lines of the file after. `pair` accepts a
pairing only when the first fit and the last fit are the same: every other way to fit the lines lies
between the two, so it is the only one (`pair_only`), and "the same line" has a meaning.
-/

namespace Irlume.Pam

open Irlume.Lib

/-! ## Fitting lines into a file -/

/-- The lines of `fewer` fit into `more`, whose first line is number `j`, at these places. -/
structure FitFrom (j : Nat) (fewer more : List Text) (places : List Nat) : Prop where
  length : places.length = fewer.length
  sorted : places.Pairwise (· < ·)
  text : ∀ {i k : Nat}, places[i]? = some k → j ≤ k ∧ more[k - j]? = fewer[i]?

namespace FitFrom

variable {j k : Nat} {f m : Text} {fewer more : List Text} {places : List Nat}

theorem tail (h : FitFrom j fewer (m :: more) places) (hlater : ∀ k ∈ places, j < k) :
    FitFrom (j + 1) fewer more places := by
  refine ⟨h.length, h.sorted, ?_⟩
  intro i k hk
  obtain ⟨hle, htext⟩ := h.text hk
  have hlt := hlater k (List.mem_of_getElem? hk)
  obtain ⟨d, rfl⟩ := Nat.exists_eq_add_of_lt hlt
  refine ⟨by omega, ?_⟩
  rw [← htext, show j + d + 1 - (j + 1) = d by omega, show j + d + 1 - j = d + 1 by omega,
    List.getElem?_cons_succ]

theorem le_of_mem (h : FitFrom j fewer more places) (hk : k ∈ places) : j ≤ k := by
  obtain ⟨i, hi⟩ := List.mem_iff_getElem?.1 hk
  exact (h.text hi).1

theorem uncons (h : FitFrom j (f :: fewer) more (k :: places)) :
    FitFrom j fewer more places ∧ ∀ x ∈ places, k < x := by
  have hsorted := List.pairwise_cons.1 h.sorted
  refine ⟨⟨by simpa using h.length, hsorted.2, ?_⟩, hsorted.1⟩
  intro i x hx
  have htext := @h.text (i + 1) x (by simpa using hx)
  simpa using htext

theorem cons (hlt : ∀ x ∈ places, k < x) (h : FitFrom j fewer more places) (hle : j ≤ k)
    (htext : more[k - j]? = some f) : FitFrom j (f :: fewer) more (k :: places) := by
  refine ⟨by simpa using h.length, List.pairwise_cons.2 ⟨hlt, h.sorted⟩, ?_⟩
  intro i x hx
  cases i with
  | zero =>
    obtain rfl : k = x := by simpa using hx
    exact ⟨hle, by simpa using htext⟩
  | succ i =>
    have hrest := h.text (by simpa using hx)
    simpa using hrest

theorem of_succ (h : FitFrom (j + 1) fewer more places) : FitFrom j fewer (m :: more) places := by
  refine ⟨h.length, h.sorted, ?_⟩
  intro i x hx
  obtain ⟨hle, htext⟩ := h.text hx
  refine ⟨by omega, ?_⟩
  rw [← htext, show x - j = (x - (j + 1)) + 1 by omega, List.getElem?_cons_succ]

theorem lt_of_head_ne (h : FitFrom j (f :: fewer) (m :: more) places) (hne : ¬m = f) :
    ∀ k ∈ places, j < k := by
  cases places with
  | nil => simp
  | cons o os =>
    obtain ⟨hle, htext⟩ := @FitFrom.text _ _ _ _ h 0 o rfl
    have hfirst : j < o := by
      rcases Nat.eq_or_lt_of_le hle with rfl | hlt
      · simp only [Nat.sub_self, List.getElem?_cons_zero, Option.some.injEq] at htext
        exact absurd htext hne
      · exact hlt
    intro x hx
    rcases List.mem_cons.1 hx with rfl | hx
    · exact hfirst
    · exact Nat.lt_trans hfirst (h.uncons.2 x hx)

end FitFrom

variable {places : List Nat} {fewer more : List Text}

theorem firstFitFrom_fits {j : Nat}
    (h : firstFitFrom j fewer more = some places) : FitFrom j fewer more places := by
  fun_induction firstFitFrom j fewer more generalizing places with
  | case1 j more =>
    obtain rfl : [] = places := by simpa using h
    exact ⟨rfl, .nil, by simp⟩
  | case2 => cases h
  | case3 j f fewer more ih =>
    obtain ⟨ps, hps, rfl⟩ := Option.map_eq_some_iff.1 h
    have hfit := ih hps
    refine FitFrom.cons ?_ hfit.of_succ (Nat.le_refl j) (by simp)
    intro x hx
    exact hfit.le_of_mem hx
  | case4 j f fewer m more hne ih => exact (ih h).of_succ

theorem firstFitFrom_least {j : Nat} {places other : List Nat}
    (h : firstFitFrom j fewer more = some places) (hother : FitFrom j fewer more other) :
    List.Forall₂ (· ≤ ·) places other := by
  fun_induction firstFitFrom j fewer more generalizing places other with
  | case1 j more =>
    obtain rfl : [] = places := by simpa using h
    obtain rfl : other = [] := by simpa using hother.length
    exact .nil
  | case2 => cases h
  | case3 j f fewer more ih =>
    obtain ⟨ps, hps, rfl⟩ := Option.map_eq_some_iff.1 h
    cases other with
    | nil => simpa using hother.length
    | cons o os =>
      obtain ⟨hos, hlt⟩ := hother.uncons
      have hle := hother.le_of_mem List.mem_cons_self
      refine .cons hle (ih hps (hos.tail ?_))
      intro x hx
      have hx := hlt x hx
      omega
  | case4 j f fewer m more hne ih =>
    exact ih h (hother.tail (hother.lt_of_head_ne hne))

/-- The lines of `fewer` fit into `more` at these places. -/
abbrev Fit (fewer more : List Text) (places : List Nat) : Prop := FitFrom 0 fewer more places

theorem FitFrom.lt_length {k : Nat}
    (h : Fit fewer more places) (hk : k ∈ places) : k < more.length := by
  obtain ⟨i, hi⟩ := List.mem_iff_getElem?.1 hk
  have htext := (h.text hi).2
  have hlt : i < fewer.length := by
    rw [← h.length]
    exact (List.getElem?_eq_some_iff.1 hi).1
  rw [List.getElem?_eq_getElem hlt, Nat.sub_zero] at htext
  exact (List.getElem?_eq_some_iff.1 htext).1

def fromEnd (n : Nat) (places : List Nat) : List Nat := places.reverse.map fun k => n - 1 - k

theorem fromEnd_fromEnd {n : Nat} (h : ∀ k ∈ places, k < n) :
    fromEnd n (fromEnd n places) = places := by
  rw [fromEnd, fromEnd, ← List.map_reverse, List.reverse_reverse, List.map_map]
  calc places.map _ = places.map id := by
        apply List.map_congr_left
        intro k hk
        have hlt := h k hk
        simp only [Function.comp_apply, id_eq]
        omega
    _ = places := List.map_id _

theorem FitFrom.reverse (h : Fit fewer more places) :
    Fit fewer.reverse more.reverse (fromEnd more.length places) := by
  refine ⟨by simp [fromEnd, h.length], ?_, ?_⟩
  · rw [fromEnd, List.pairwise_map, List.pairwise_reverse]
    apply h.sorted.imp_of_mem
    intro a b _ hb hlt
    have hb := h.lt_length hb
    omega
  · intro i k hk
    rw [fromEnd, List.getElem?_map] at hk
    obtain ⟨p, hp, rfl⟩ := Option.map_eq_some_iff.1 hk
    have hi : i < places.length := by
      have hlt := (List.getElem?_eq_some_iff.1 hp).1
      rwa [List.length_reverse] at hlt
    rw [List.getElem?_reverse hi] at hp
    have hlt := h.lt_length (List.mem_of_getElem? hp)
    have htext := (h.text hp).2
    have hback : more.length - 1 - (more.length - 1 - p) = p := by omega
    refine ⟨Nat.zero_le _, ?_⟩
    rw [Nat.sub_zero] at htext ⊢
    rw [List.getElem?_reverse (by omega), List.getElem?_reverse (by rw [← h.length]; exact hi), hback,
      htext, h.length]

theorem forall₂_antisymm {as bs : List Nat} (h : List.Forall₂ (· ≤ ·) as bs)
    (h' : List.Forall₂ (· ≤ ·) bs as) : as = bs := by
  induction h with
  | nil => rfl
  | cons hle _ ih =>
    cases h' with
    | cons hge htail => rw [Nat.le_antisymm hle hge, ih htail]

theorem forall₂_fromEnd {n : Nat} {as bs : List Nat} (h : List.Forall₂ (· ≤ ·) as bs) :
    List.Forall₂ (· ≤ ·) (fromEnd n bs) (fromEnd n as) := by
  rw [fromEnd, fromEnd, List.forall₂_map_left_iff, List.forall₂_map_right_iff,
    List.forall₂_reverse_iff]
  apply h.flip.imp
  intro a b hle
  omega

/-- **The first and the last fit leave room for no other.** -/
theorem fit_unique {places other : List Nat}
    (hfirst : firstFit fewer more = some places) (hlast : lastFit fewer more = some places)
    (hother : Fit fewer more other) : other = places := by
  have hlow := firstFitFrom_least hfirst hother
  obtain ⟨ps, hps, hplaces⟩ := Option.map_eq_some_iff.1 hlast
  have hhigh := forall₂_fromEnd (n := more.length) (firstFitFrom_least hps hother.reverse)
  rw [fromEnd_fromEnd fun k hk => hother.lt_length hk] at hhigh
  have hsame : fromEnd more.length ps = places := hplaces
  rw [hsame] at hhigh
  exact forall₂_antisymm hhigh hlow

theorem FitFrom.nodup (h : Fit fewer more places) :
    places.Nodup := h.sorted.imp fun hlt => Nat.ne_of_lt hlt

/-! ## Pairings -/

/-- The line of the file after that a line of the file before is. -/
def Pairing.image (p : Pairing) (i : Nat) : Option Nat := (p.toAfter[i]?).join

/-- The places of the lines of the file with fewer lines in the file with more. -/
def PlacesOf (way : Way) (image : Nat → Option Nat) (places : List Nat) : Prop :=
  match way with
  | .add => ∀ i j, image i = some j ↔ places[i]? = some j
  | .remove => ∀ i j, image i = some j ↔ places[j]? = some i

def byLength (way : Way) (b a : List Text) : List Text × List Text :=
  match way with
  | .add => (b, a)
  | .remove => (a, b)

theorem idxOf?_eq_some_iff (hnodup : places.Nodup) {i j : Nat} :
    places.idxOf? i = some j ↔ places[j]? = some i := by
  rw [List.idxOf?, List.findIdx?_eq_some_iff_getElem]
  constructor
  · rintro ⟨hlt, heq, -⟩
    rw [List.getElem?_eq_getElem hlt, beq_iff_eq.1 heq]
  · intro hj
    obtain ⟨hlt, rfl⟩ := List.getElem?_eq_some_iff.1 hj
    refine ⟨hlt, beq_self_eq_true _, ?_⟩
    intro k hk heq
    have hsame := hnodup.getElem_inj_iff.1 (beq_iff_eq.1 heq)
    omega

theorem inverse_join {n i : Nat} (h : ∀ k ∈ places, k < n) (j : Nat)
    (hnodup : places.Nodup) : ((inverse places n)[i]?).join = some j ↔ places[j]? = some i := by
  rw [inverse, List.getElem?_map]
  by_cases hi : i < n
  · rw [List.getElem?_range hi, Option.map_some, Option.join_some, idxOf?_eq_some_iff hnodup]
  · have hout : (List.range n)[i]? = none := List.getElem?_eq_none (by simpa using hi)
    rw [hout, Option.map_none]
    constructor
    · intro hnone
      cases hnone
    · intro hj
      exact absurd (h i (List.mem_of_getElem? hj)) hi

/-- What `pair` accepted: the first fit, the same as the last, with only lines of irlume's left out. -/
structure PairedAt (way : Way) (b a : List Text) (pairing : Pairing) (places : List Nat) : Prop where
  first : firstFit (byLength way b a).1 (byLength way b a).2 = some places
  last : lastFit (byLength way b a).1 (byLength way b a).2 = some places
  irlume : ∀ {j : Nat} {l : Text}, (byLength way b a).2[j]? = some l → j ∉ places →
    isIrlumeLine l = true
  places : PlacesOf way pairing.image places
  added : ∀ {j : Nat}, pairing.added[j]?.getD false = true ↔
    way = .add ∧ j < a.length ∧ ∀ i, pairing.image i ≠ some j

theorem pair_ok {way : Way} {b a : List Text} {pairing : Pairing} (h : pair b a way = .ok pairing) :
    ∃ places, PairedAt way b a pairing places := by
  have hirlume : ∀ {places : List Nat} {ls : List Text},
      ¬((((ls.zipIdx.filter fun x => decide (x.2 ∉ places)).map Prod.fst).any (!isIrlumeLine ·)) = true) →
        ∀ {j : Nat} {l : Text}, ls[j]? = some l → j ∉ places → isIrlumeLine l = true := by
    intro places ls hnone j l hl hj
    by_contra hother
    apply hnone
    rw [List.any_eq_true]
    have hindexed : (l, j) ∈ _ := List.mk_mem_zipIdx_iff_getElem?.2 hl
    refine ⟨l, List.mem_map.2 ⟨(l, j), List.mem_filter.2 ⟨hindexed, ?_⟩, rfl⟩, ?_⟩
    · simpa using hj
    · simpa using hother
  unfold pair at h
  cases way with
  | add =>
    simp only at h
    split at h
    · cases h
    next places hfirst =>
    split at h
    · cases h
    next hlast =>
    split at h
    · cases h
    next hunpaired =>
    rw [not_not] at hlast
    have hpairing := Except.ok.inj h
    have himage : ∀ i j, pairing.image i = some j ↔ places[i]? = some j := by
      intro i j
      rw [Pairing.image, ← hpairing, List.getElem?_map]
      cases places[i]? <;> simp
    refine ⟨places, hfirst, hlast, hirlume hunpaired, himage, ?_⟩
    intro j
    have hmem : (∀ i : Nat, places[i]? ≠ some j) ↔ j ∉ places := by
      rw [List.mem_iff_getElem?, not_exists]
    simp only [ne_eq, himage, true_and]
    rw [← hpairing, List.getElem?_map, hmem]
    by_cases hj : j < a.length <;> simp [hj]
  | remove =>
    simp only at h
    split at h
    · cases h
    next places hfirst =>
    split at h
    · cases h
    next hlast =>
    split at h
    · cases h
    next hunpaired =>
    rw [not_not] at hlast
    cases h
    have hfit : Fit a b places := firstFitFrom_fits hfirst
    refine ⟨places, hfirst, hlast, hirlume hunpaired, ?_, ?_⟩
    · intro i j
      exact inverse_join (fun k hk => hfit.lt_length hk) j hfit.nodup
    · intro j
      rw [List.getElem?_map]
      cases a[j]? <;> simp

variable {way : Way} {b a : List Text} {pairing : Pairing}

/-! ## The only embedding -/

theorem firstFitFrom_isSome {j : Nat}
    (h : FitFrom j fewer more places) : (firstFitFrom j fewer more).isSome = true := by
  fun_induction firstFitFrom j fewer more generalizing places with
  | case1 => rfl
  | case2 j f fewer =>
    cases places with
    | nil => simpa using h.length
    | cons k ks => simpa using (@FitFrom.text _ _ _ _ h 0 k rfl).2
  | case3 j f fewer more ih =>
    cases places with
    | nil => simpa using h.length
    | cons k ks =>
      obtain ⟨hrest, hlt⟩ := h.uncons
      have hle := h.le_of_mem List.mem_cons_self
      rw [Option.isSome_map]
      apply ih (hrest.tail _)
      intro x hx
      exact Nat.lt_of_le_of_lt hle (hlt x hx)
  | case4 j f fewer m more hne ih => exact ih (h.tail (h.lt_of_head_ne hne))

/-- The maps of a pairing are an embedding of the file with fewer lines and its inverse, over every
line of the two files, and the added lines are those of the file after outside it. -/
structure Pairing.IsOf (p : Pairing) (way : Way) (b a : List Text) (places : List Nat) : Prop where
  length : p.toAfter.length = b.length ∧ p.toBefore.length = a.length ∧ p.added.length = a.length
  toAfter : PlacesOf way (fun i => (p.toAfter[i]?).join) places
  inverse : ∀ i j : Nat, (p.toBefore[j]?).join = some i ↔ (p.toAfter[i]?).join = some j
  added : ∀ j : Nat, p.added[j]? = some true ↔ way = .add ∧ j < a.length ∧ j ∉ places

theorem map_some_join {i j : Nat} :
    ((places.map some)[i]?).join = some j ↔ places[i]? = some j := by
  rw [List.getElem?_map]
  cases places[i]? <;> simp

theorem pair_isOf (h : pair b a way = .ok pairing)
    (hat : PairedAt way b a pairing places) : pairing.IsOf way b a places := by
  have hfit : Fit (byLength way b a).1 (byLength way b a).2 places := firstFitFrom_fits hat.first
  have hlt : ∀ k ∈ places, k < (byLength way b a).2.length := fun k hk => hfit.lt_length hk
  have hfirst := hat.first
  unfold pair at h
  cases way with
  | add =>
    simp only [byLength] at hfirst hlt
    simp only [hfirst] at h
    split at h
    · cases h
    split at h
    · cases h
    cases h
    refine ⟨⟨by simpa [byLength] using hfit.length, by simp [inverse], by simp⟩, hat.places, ?_, ?_⟩
    · intro i j
      rw [inverse_join hlt i hfit.nodup, map_some_join]
    · intro j
      by_cases hj : j < a.length <;> simp [hj]
  | remove =>
    simp only [byLength] at hfirst hlt
    simp only [hfirst] at h
    split at h
    · cases h
    split at h
    · cases h
    cases h
    refine ⟨⟨by simp [inverse], by simpa [byLength] using hfit.length, by simp⟩, hat.places, ?_, ?_⟩
    · intro i j
      rw [inverse_join hlt j hfit.nodup, map_some_join]
    · intro j
      rw [List.getElem?_map]
      cases a[j]? <;> simp

/-- For all lines and either way, a pairing is returned only of the one embedding of the file with
fewer lines into the other, every line it leaves out being irlume's, and its maps are that embedding
and its inverse; with more than one embedding the lines are refused as repeated. -/
theorem pair_embedding (b a : List Text) (way : Way) :
    (∀ pairing, pair b a way = .ok pairing →
        ∃ places, Fit (byLength way b a).1 (byLength way b a).2 places ∧
          (∀ other, Fit (byLength way b a).1 (byLength way b a).2 other → other = places) ∧
          (∀ {j : Nat} {l : Text}, (byLength way b a).2[j]? = some l → j ∉ places →
            isIrlumeLine l = true) ∧
          pairing.IsOf way b a places) ∧
      ∀ places other, Fit (byLength way b a).1 (byLength way b a).2 places →
        Fit (byLength way b a).1 (byLength way b a).2 other → places ≠ other →
          pair b a way = .error .repeatedLine := by
  constructor
  · intro pairing h
    obtain ⟨places, hat⟩ := pair_ok h
    refine ⟨places, firstFitFrom_fits hat.first, ?_, hat.irlume, pair_isOf h hat⟩
    intro other hother
    exact fit_unique hat.first hat.last hother
  · intro places other hplaces hother hne
    obtain ⟨first, hfirst⟩ := Option.isSome_iff_exists.1 (firstFitFrom_isSome hplaces)
    have hfirst : firstFit (byLength way b a).1 (byLength way b a).2 = some first := hfirst
    have hlast : lastFit (byLength way b a).1 (byLength way b a).2 ≠ some first := by
      intro hlast
      have hp := fit_unique hfirst hlast hplaces
      have ho := fit_unique hfirst hlast hother
      exact hne (hp.trans ho.symm)
    unfold pair
    cases way with
    | add =>
      simp only [byLength] at hfirst hlast
      simp only [hfirst, ne_eq, hlast, not_false_eq_true, if_true]
    | remove =>
      simp only [byLength] at hfirst hlast
      simp only [hfirst, ne_eq, hlast, not_false_eq_true, if_true]

end Irlume.Pam

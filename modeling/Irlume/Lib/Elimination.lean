import Mathlib.Data.Set.Finite.List

/-!
# Elimination

A graph is a list of nodes, each with the nodes it needs. A pass over the list places every node whose needs are
placed, and passes are made until all nodes are placed or one pass places none.
-/

namespace Irlume.Lib

universe u

namespace Elimination

variable {α : Type u}

/-- The node `b` is one that `a` needs. -/
def Needs (nodes : List (α × List α)) (b a : α) : Prop := ∃ needs, (a, needs) ∈ nodes ∧ b ∈ needs

/-- Each node is listed once, and so is what it needs. -/
structure Closed (nodes : List (α × List α)) : Prop where
  unique : (nodes.map Prod.fst).Nodup
  listed : ∀ e ∈ nodes, ∀ b ∈ e.2, b ∈ nodes.map Prod.fst

/-- What is placed are nodes that no endless chain of needs leads from. -/
structure Placed (nodes : List (α × List α)) (placed : Finset α) : Prop where
  listed : ∀ a ∈ placed, a ∈ nodes.map Prod.fst
  grounded : ∀ a ∈ placed, Acc (Needs nodes) a

theorem placed_empty {nodes : List (α × List α)} : Placed nodes ∅ := ⟨fun a ha => absurd ha (Finset.notMem_empty a),
  fun a ha => absurd ha (Finset.notMem_empty a)⟩

theorem needs_unique {nodes : List (α × List α)} (hc : Closed nodes) {a : α} {needs needs' : List α} (h : (a, needs) ∈ nodes)
    (h' : (a, needs') ∈ nodes) : needs = needs' := by
  have hsame := List.inj_on_of_nodup_map hc.unique h h' rfl
  exact congrArg Prod.snd hsame

section

variable [DecidableEq α]

def place (placed : Finset α) (e : α × List α) : Finset α :=
  if e.1 ∉ placed ∧ e.2.all (· ∈ placed) then insert e.1 placed else placed

/-- One pass over the list. -/
def pass (nodes : List (α × List α)) (placed : Finset α) : Finset α := nodes.foldl place placed

/-- The passes from here on end with the result. -/
inductive Eliminates (nodes : List (α × List α)) : Finset α → Bool → Prop
  | all {placed : Finset α} (h : (pass nodes placed).card = nodes.length) : Eliminates nodes placed true
  | stuck {placed : Finset α} (h : (pass nodes placed).card ≠ nodes.length)
      (hsame : (pass nodes placed).card = placed.card) : Eliminates nodes placed false
  | again {placed : Finset α} {result : Bool} (h : (pass nodes placed).card ≠ nodes.length)
      (hmore : (pass nodes placed).card ≠ placed.card) (hnext : Eliminates nodes (pass nodes placed) result) :
      Eliminates nodes placed result

variable {nodes : List (α × List α)} {placed placed' : Finset α} {e : α × List α} {result result' : Bool}

/-! ## One pass -/

theorem subset_place : placed ⊆ place placed e := by
  unfold place
  split
  · exact Finset.subset_insert _ _
  · exact Finset.Subset.refl _

theorem mem_place (h : ∀ b ∈ e.2, b ∈ placed) : e.1 ∈ place placed e := by
  unfold place
  split
  · exact Finset.mem_insert_self _ _
  · next hnot =>
    by_contra hout
    exact hnot ⟨hout, List.all_eq_true.2 fun b hb => decide_eq_true (h b hb)⟩

theorem subset_pass : placed ⊆ pass nodes placed := by
  unfold pass
  induction nodes generalizing placed with
  | nil => exact Finset.Subset.refl _
  | cons e nodes ih => exact subset_place.trans ih

theorem mem_pass (he : e ∈ nodes) (h : ∀ b ∈ e.2, b ∈ placed) : e.1 ∈ pass nodes placed := by
  unfold pass
  induction nodes generalizing placed with
  | nil => cases he
  | cons e' nodes ih =>
    rcases List.mem_cons.1 he with rfl | he
    · have hsub : place placed e ⊆ nodes.foldl place (place placed e) := subset_pass
      exact hsub (mem_place h)
    · exact ih he fun b hb => subset_place (h b hb)

theorem Placed.place (hc : Closed nodes) (h : Placed nodes placed) (he : e ∈ nodes) :
    Placed nodes (place placed e) := by
  unfold Elimination.place
  split
  · next hready =>
    obtain ⟨-, hall⟩ := hready
    refine ⟨fun a ha => ?_, fun a ha => ?_⟩
    · rcases Finset.mem_insert.1 ha with rfl | ha
      · exact List.mem_map_of_mem he
      · exact h.listed a ha
    · rcases Finset.mem_insert.1 ha with rfl | ha
      · refine ⟨_, fun b hb => ?_⟩
        obtain ⟨needs, hmem, hb⟩ := hb
        rw [needs_unique hc hmem he] at hb
        exact h.grounded b (of_decide_eq_true (List.all_eq_true.1 hall b hb))
      · exact h.grounded a ha
  · exact h

theorem Placed.pass (hc : Closed nodes) (h : Placed nodes placed) : Placed nodes (pass nodes placed) := by
  have hsteps : ∀ es : List (α × List α), (∀ e ∈ es, e ∈ nodes) → ∀ placed, Placed nodes placed →
      Placed nodes (es.foldl Elimination.place placed) := by
    intro es
    induction es with
    | nil => exact fun _ _ h => h
    | cons e es ih =>
      intro hes placed h
      exact ih (fun e' he' => hes e' (List.mem_cons_of_mem _ he')) _ (h.place hc (hes e List.mem_cons_self))
  exact hsteps nodes (fun _ he => he) placed h

/-! ## All passes -/

theorem Placed.card_le (h : Placed nodes placed) : placed.card ≤ nodes.length := by
  have hsub : placed ⊆ (nodes.map Prod.fst).toFinset := fun a ha => List.mem_toFinset.2 (h.listed a ha)
  calc placed.card ≤ (nodes.map Prod.fst).toFinset.card := Finset.card_le_card hsub
    _ ≤ (nodes.map Prod.fst).length := List.toFinset_card_le _
    _ = nodes.length := List.length_map _

section

variable (hc : Closed nodes)

include hc

theorem Placed.mem_of_card (h : Placed nodes placed) (hcard : placed.card = nodes.length)
    {a : α} (ha : a ∈ nodes.map Prod.fst) : a ∈ placed := by
  have hsub : placed ⊆ (nodes.map Prod.fst).toFinset := fun a ha => List.mem_toFinset.2 (h.listed a ha)
  have heq : placed = (nodes.map Prod.fst).toFinset := by
    refine Finset.eq_of_subset_of_card_le hsub ?_
    rw [List.toFinset_card_of_nodup hc.unique, List.length_map, hcard]
  rw [heq, List.mem_toFinset]
  exact ha

theorem mem_of_stuck (hsame : (pass nodes placed).card = placed.card) {a : α}
    (hacc : Acc (Needs nodes) a) (ha : a ∈ nodes.map Prod.fst) : a ∈ placed := by
  have heq : pass nodes placed = placed := (Finset.eq_of_subset_of_card_le subset_pass (by omega)).symm
  induction hacc with
  | intro a _ ih =>
    obtain ⟨e, he, rfl⟩ := List.mem_map.1 ha
    rw [← heq]
    exact mem_pass he fun b hb => ih b ⟨e.2, he, hb⟩ (hc.listed e he b hb)

theorem card_of_all_mem (h : Placed nodes placed)
    (hall : ∀ a ∈ nodes.map Prod.fst, a ∈ placed) : placed.card = nodes.length := by
  have heq : placed = (nodes.map Prod.fst).toFinset := by
    ext a
    rw [List.mem_toFinset]
    exact ⟨h.listed a, hall a⟩
  rw [heq, List.toFinset_card_of_nodup hc.unique, List.length_map]

/-- **The result**: whether no endless chain of needs leads from any node. -/
theorem Eliminates.true_iff (h : Eliminates nodes placed result) (hp : Placed nodes placed) :
    result = true ↔ ∀ a ∈ nodes.map Prod.fst, Acc (Needs nodes) a := by
  induction h with
  | all hcard =>
    refine ⟨fun _ a ha => ?_, fun _ => rfl⟩
    exact (hp.pass hc).grounded a ((hp.pass hc).mem_of_card hc hcard ha)
  | @stuck placed hcard hsame =>
    refine ⟨nofun, fun hall => absurd ?_ hcard⟩
    have hmem := card_of_all_mem hc hp fun a ha => mem_of_stuck hc hsame (hall a ha) ha
    rw [hsame, hmem]
  | again _ _ _ ih => exact ih (hp.pass hc)

end

theorem Eliminates.unique (h : Eliminates nodes placed result) (h' : Eliminates nodes placed result') :
    result = result' := by
  induction h with
  | all hcard =>
    cases h' with
    | all _ => rfl
    | stuck hne _ | again hne _ _ => exact absurd hcard hne
  | stuck hne hsame =>
    cases h' with
    | all hcard => exact absurd hcard hne
    | stuck _ _ => rfl
    | again _ hmore _ => exact absurd hsame hmore
  | again hne hmore _ ih =>
    cases h' with
    | all hcard => exact absurd hcard hne
    | stuck _ hsame => exact absurd hsame hmore
    | again _ _ hnext => exact ih hnext

end

/-! ## Cycles -/

variable {nodes : List (α × List α)}

theorem not_transGen_self_of_acc {r : α → α → Prop} {a : α} (h : Acc r a) : ¬ Relation.TransGen r a a := by
  have htrans := h.transGen
  clear h
  induction htrans with
  | intro a _ ih => exact fun hself => ih a hself hself

theorem listed_of_needs {a b : α} (h : Needs nodes b a) : a ∈ nodes.map Prod.fst := by
  obtain ⟨needs, hmem, -⟩ := h
  exact List.mem_map_of_mem hmem

variable (hc : Closed nodes)

include hc

theorem acc_of_acyclic (h : ∀ a, ¬ Relation.TransGen (Needs nodes) a a) (a : α)
    (ha : a ∈ nodes.map Prod.fst) : Acc (Needs nodes) a := by
  let r : {a // a ∈ nodes.map Prod.fst} → {a // a ∈ nodes.map Prod.fst} → Prop :=
    fun b a => Relation.TransGen (Needs nodes) b a
  have : Finite {a // a ∈ nodes.map Prod.fst} := (List.finite_toSet _).to_subtype
  have : IsTrans _ r := ⟨fun _ _ _ => Relation.TransGen.trans⟩
  have : Std.Irrefl r := ⟨fun a => h a⟩
  have hwf : WellFounded r := Finite.wellFounded_of_trans_of_irrefl r
  have hsub : ∀ x : {a // a ∈ nodes.map Prod.fst}, Acc (Needs nodes) x.1 := by
    intro x
    induction hwf.apply x with
    | intro x _ ih =>
      refine ⟨_, fun b hb => ?_⟩
      have hlisted : b ∈ nodes.map Prod.fst := by
        obtain ⟨needs, hmem, hb⟩ := hb
        exact hc.listed _ hmem b hb
      exact ih ⟨b, hlisted⟩ (.single hb)
  exact hsub ⟨a, ha⟩

/-- **All nodes are placed exactly where no node needs itself in the end.** -/
theorem eliminates_true_iff_acyclic [DecidableEq α] {result : Bool}
    (h : Eliminates nodes ∅ result) : result = true ↔ ∀ a, ¬ Relation.TransGen (Needs nodes) a a := by
  rw [h.true_iff hc placed_empty]
  constructor
  · intro hall a hself
    obtain ⟨b, -, hlast⟩ := Relation.TransGen.tail'_iff.1 hself
    exact not_transGen_self_of_acc (hall a (listed_of_needs hlast)) hself
  · exact fun hacyclic a ha => acc_of_acyclic hc hacyclic a ha

theorem exists_root {root : α → Prop} (h : ∀ e ∈ nodes, root e.1 ∨ e.2 ≠ []) {a : α}
    (hacc : Acc (Needs nodes) a) (ha : a ∈ nodes.map Prod.fst) :
    ∃ b, Relation.ReflTransGen (Needs nodes) b a ∧ b ∈ nodes.map Prod.fst ∧ root b := by
  induction hacc with
  | intro a _ ih =>
    obtain ⟨e, he, rfl⟩ := List.mem_map.1 ha
    rcases h e he with hroot | hne
    · exact ⟨e.1, .refl, ha, hroot⟩
    · obtain ⟨b, hb⟩ := List.exists_mem_of_ne_nil _ hne
      have hneeds : Needs nodes b e.1 := ⟨e.2, he, hb⟩
      obtain ⟨c, hc, hlisted, hroot⟩ := ih b hneeds (hc.listed e he b hb)
      exact ⟨c, hc.tail hneeds, hlisted, hroot⟩

end Elimination

end Irlume.Lib

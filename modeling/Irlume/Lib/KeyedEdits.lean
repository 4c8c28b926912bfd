import Mathlib

/-!
# Edits of a keyed map

An ordered map and the edits that lead from one map to another: a key goes, its value is replaced, or it comes.
An edit says what was at its key before, and it applies only where that is so.
-/

namespace Irlume.Lib

open Std

universe u v

variable {κ : Type u} {ν : Type v} {cmp : κ → κ → Ordering}

theorem ne_of_compare_lt [ReflCmp cmp] {k l : κ} (h : cmp k l = .lt) : k ≠ l := by
  rintro rfl
  have heq : cmp k k = .eq := ReflCmp.compare_self
  rw [heq] at h
  cases h

theorem nodup_toList [TransCmp cmp] {s : ExtTreeSet κ cmp} : s.toList.Nodup :=
  (ExtTreeSet.ordered_toList (t := s)).imp ne_of_compare_lt

/-- The values, in the order of the keys. -/
def values [TransCmp cmp] (m : ExtTreeMap κ ν cmp) : List ν := m.toList.map Prod.snd

variable {m : ExtTreeMap κ ν cmp}

theorem mem_values [TransCmp cmp] [LawfulEqCmp cmp] {v : ν} :
    v ∈ values m ↔ ∃ k : κ, m[k]? = some v := by
  simp only [values, List.mem_map, Prod.exists]
  constructor
  · rintro ⟨k, w, hmem, rfl⟩
    exact ⟨k, ExtTreeMap.mem_toList_iff_getElem?_eq_some.1 hmem⟩
  · rintro ⟨k, hk⟩
    exact ⟨k, v, ExtTreeMap.mem_toList_iff_getElem?_eq_some.2 hk, rfl⟩

theorem values_pairwise [TransCmp cmp] [LawfulEqCmp cmp]
    {R : ν → ν → Prop}
    (h : ∀ {k l : κ} {v w : ν}, k ≠ l → m[k]? = some v → m[l]? = some w → R v w) :
    (values m).Pairwise R := by
  refine List.pairwise_map.2 ?_
  refine List.Pairwise.imp_of_mem ?_ (ExtTreeMap.ordered_keys_toList (t := m))
  rintro ⟨k, v⟩ ⟨l, w⟩ hv hw hlt
  exact h (ne_of_compare_lt hlt) (ExtTreeMap.mem_toList_iff_getElem?_eq_some.1 hv)
    (ExtTreeMap.mem_toList_iff_getElem?_eq_some.1 hw)

theorem filter_values_congr [TransCmp cmp] [LawfulEqCmp cmp] {m m' : ExtTreeMap κ ν cmp}
    {p p' : ν → Bool} (h : ∀ k : κ, m[k]?.filter p = m'[k]?.filter p') :
    (values m).filter p = (values m').filter p' := by
  have hmap : ∀ (m : ExtTreeMap κ ν cmp) (p : ν → Bool),
      (values m).filter p = values (m.filter fun _ v => p v) := by
    intro m p
    rw [values, values, ExtTreeMap.toList_filter, List.filter_map]
    rfl
  rw [hmap, hmap]
  congr 1
  apply ExtTreeMap.ext_getElem?
  intro k
  rw [ExtTreeMap.getElem?_filter', ExtTreeMap.getElem?_filter', h]

theorem getElem?_insert_of_ne [TransCmp cmp] [LawfulEqCmp cmp] {k l : κ}
    {v : ν} (h : k ≠ l) : (m.insert l v)[k]? = m[k]? := by
  rw [ExtTreeMap.getElem?_insert, if_neg]
  exact fun heq => h (LawfulEqCmp.eq_of_compare heq).symm

theorem getElem?_erase_of_ne [TransCmp cmp] [LawfulEqCmp cmp] {k l : κ}
    (h : k ≠ l) : (m.erase l)[k]? = m[k]? := by
  rw [ExtTreeMap.getElem?_erase, if_neg]
  exact fun heq => h (LawfulEqCmp.eq_of_compare heq).symm

/-- One change at one key. -/
inductive Edit (κ : Type u) (ν : Type v) where
  | removed (key : κ) (previous : ν)
  | changed (key : κ) (previous current : ν)
  | added (key : κ) (current : ν)

namespace Edit

def key : Edit κ ν → κ
  | removed k _ | changed k _ _ | added k _ => k

def before : Edit κ ν → Option ν
  | removed _ v | changed _ v _ => some v
  | added _ _ => none

def after : Edit κ ν → Option ν
  | removed _ _ => none
  | changed _ _ v | added _ v => some v

/-- The map with the edit made; `none` where the edit does not fit. -/
def apply [TransCmp cmp] [DecidableEq ν] (m : ExtTreeMap κ ν cmp) :
    Edit κ ν → Option (ExtTreeMap κ ν cmp)
  | removed k v => if m[k]? = some v then some (m.erase k) else none
  | changed k v w => if m[k]? = some v then some (m.insert k w) else none
  | added k w => if m[k]? = none then some (m.insert k w) else none

variable [TransCmp cmp] [LawfulEqCmp cmp] [DecidableEq ν]

theorem apply_of_before {m : ExtTreeMap κ ν cmp} {e : Edit κ ν} (h : m[e.key]? = e.before) :
    ∃ m' : ExtTreeMap κ ν cmp, e.apply m = some m' ∧ m'[e.key]? = e.after ∧
      ∀ k : κ, k ≠ e.key → m'[k]? = m[k]? := by
  cases e with
  | removed l v =>
    exact ⟨m.erase l, if_pos h, ExtTreeMap.getElem?_erase_self, fun _ => getElem?_erase_of_ne⟩
  | changed l v w =>
    exact ⟨m.insert l w, if_pos h, ExtTreeMap.getElem?_insert_self, fun _ => getElem?_insert_of_ne⟩
  | added l w =>
    exact ⟨m.insert l w, if_pos h, ExtTreeMap.getElem?_insert_self, fun _ => getElem?_insert_of_ne⟩

/-- **The edit rule.** Edits at different keys that fit `m` and lead to `m'` make `m'` of `m`. -/
theorem foldlM_apply_eq {edits : List (Edit κ ν)} {m m' : ExtTreeMap κ ν cmp}
    (hkeys : edits.Pairwise fun e f => e.key ≠ f.key)
    (hbefore : ∀ e ∈ edits, m[e.key]? = e.before) (hafter : ∀ e ∈ edits, m'[e.key]? = e.after)
    (hrest : ∀ k : κ, (∀ e ∈ edits, e.key ≠ k) → m'[k]? = m[k]?) :
    edits.foldlM apply m = some m' := by
  induction edits generalizing m with
  | nil =>
    have hsame : m' = m := ExtTreeMap.ext_getElem? fun k => hrest k (by simp)
    rw [hsame]
    rfl
  | cons e edits ih =>
    obtain ⟨hne, hkeys⟩ := List.pairwise_cons.1 hkeys
    obtain ⟨m₁, happly, hself, hother⟩ := apply_of_before (hbefore e List.mem_cons_self)
    rw [List.foldlM_cons, happly]
    apply ih hkeys
    · intro f hf
      rw [hother _ (hne f hf).symm]
      exact hbefore f (List.mem_cons_of_mem _ hf)
    · intro f hf
      exact hafter f (List.mem_cons_of_mem _ hf)
    · intro k hk
      by_cases heq : k = e.key
      · rw [heq, hself]
        exact hafter e List.mem_cons_self
      · rw [hother k heq]
        apply hrest
        intro f hf
        rcases List.mem_cons.1 hf with rfl | hf
        · exact fun h => heq h.symm
        · exact hk f hf

end Edit

end Irlume.Lib

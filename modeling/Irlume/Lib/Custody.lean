import Mathlib.Data.List.Nodup
import Mathlib.Data.List.Perm.Subperm

/-!
# Custody of resources

`holds` says which resources each place holds. Resources are values that are moved and not copied, so a step of
a program that moves some of them, or brings in a new one, keeps each in one place.
-/

namespace Irlume.Lib

universe u v

variable {Place : Type u} {α : Type v} {holds holds' : Place → List α}

/-- Each resource is in one place at most, and there once. -/
structure Custody (holds : Place → List α) : Prop where
  nodup : ∀ p, (holds p).Nodup
  apart : ∀ {p q x}, x ∈ holds p → x ∈ holds q → p = q

/-- `source` gives up `moved`, and `target` takes them. -/
structure Moves (holds holds' : Place → List α) (source target : Place) (moved : List α) : Prop where
  ne : source ≠ target
  source_eq : holds source = moved ++ holds' source
  target_eq : holds' target = holds target ++ moved
  others : ∀ p, p ≠ source → p ≠ target → holds' p = holds p

/-- `target` takes a resource that no place held. -/
structure Enters (holds holds' : Place → List α) (target : Place) (x : α) : Prop where
  new : ∀ p, x ∉ holds p
  target_eq : holds' target = holds target ++ [x]
  others : ∀ p, p ≠ target → holds' p = holds p

theorem Moves.of_eq (h : ∀ p, holds' p = holds p) {source target : Place} (hne : source ≠ target) :
    Moves holds holds' source target [] where
  ne := hne
  source_eq := (h source).symm
  target_eq := by simpa using h target
  others p _ _ := h p

namespace Moves

/-- **Frame.** A move between some of the places, when the others do not change. -/
theorem frame {Seat : Type*} {view view' : Seat → List α} {source target : Seat} {moved : List α}
    (h : Moves view view' source target moved) (place : Seat → Place) (hinj : Function.Injective place)
    (hview : ∀ seat, holds (place seat) = view seat) (hview' : ∀ seat, holds' (place seat) = view' seat)
    (hothers : ∀ p, (∀ seat, place seat ≠ p) → holds' p = holds p) :
    Moves holds holds' (place source) (place target) moved where
  ne heq := h.ne (hinj heq)
  source_eq := by rw [hview, hview', h.source_eq]
  target_eq := by rw [hview, hview', h.target_eq]
  others p hsource htarget := by
    by_cases hp : ∃ seat, place seat = p
    · obtain ⟨seat, rfl⟩ := hp
      rw [hview, hview']
      exact h.others seat (fun heq => hsource (by rw [heq])) fun heq => htarget (by rw [heq])
    · exact hothers p fun seat heq => hp ⟨seat, heq⟩

variable {source target : Place} {moved : List α} {x : α}

variable (h : Moves holds holds' source target moved)

include h

theorem mem_iff (hc : Custody holds) (p : Place) :
    x ∈ holds' p ↔ (p = target ∧ x ∈ moved) ∨ (x ∈ holds p ∧ ¬ (p = source ∧ x ∈ moved)) := by
  have hnodup := hc.nodup source
  rw [h.source_eq, List.nodup_append] at hnodup
  by_cases htarget : p = target
  · subst htarget
    rw [h.target_eq, List.mem_append]
    have hne : ¬ p = source := fun heq => h.ne heq.symm
    simp only [true_and, hne, false_and, not_false_iff, and_true]
    exact or_comm
  · by_cases hsource : p = source
    · subst hsource
      simp only [htarget, false_and, false_or, true_and]
      constructor
      · intro hx
        refine ⟨?_, fun hmoved => hnodup.2.2 x hmoved x hx rfl⟩
        rw [h.source_eq]
        exact List.mem_append_right _ hx
      · rintro ⟨hx, hnot⟩
        rw [h.source_eq] at hx
        exact (List.mem_append.1 hx).resolve_left hnot
    · rw [h.others p hsource htarget]
      simp [htarget, hsource]

theorem mem_source (hx : x ∈ moved) :
    x ∈ holds source := by
  rw [h.source_eq]
  exact List.mem_append_left _ hx

theorem exists_mem_iff (hc : Custody holds) :
    (∃ p, x ∈ holds' p) ↔ ∃ p, x ∈ holds p := by
  constructor
  · rintro ⟨p, hp⟩
    obtain ⟨-, hx⟩ | ⟨hx, -⟩ := (h.mem_iff hc p).1 hp
    · exact ⟨source, h.mem_source hx⟩
    · exact ⟨p, hx⟩
  · rintro ⟨p, hp⟩
    by_cases hmoved : p = source ∧ x ∈ moved
    · exact ⟨target, (h.mem_iff hc target).2 (.inl ⟨rfl, hmoved.2⟩)⟩
    · exact ⟨p, (h.mem_iff hc p).2 (.inr ⟨hp, hmoved⟩)⟩

end Moves

namespace Custody

variable {source target : Place} {moved : List α} {x : α}

/-- **A move keeps custody.** -/
theorem moves (hc : Custody holds) (h : Moves holds holds' source target moved) : Custody holds' where
  nodup p := by
    have hsource := hc.nodup source
    rw [h.source_eq, List.nodup_append] at hsource
    by_cases htarget : p = target
    · subst htarget
      rw [h.target_eq, List.nodup_append]
      refine ⟨hc.nodup p, hsource.1, ?_⟩
      rintro x hx y hy rfl
      exact h.ne (hc.apart (h.mem_source hy) hx)
    · by_cases heq : p = source
      · subst heq
        exact hsource.2.1
      · rw [h.others p heq htarget]
        exact hc.nodup p
  apart {p q x} hp hq := by
    obtain ⟨rfl, hmoved⟩ | ⟨hp, hnot⟩ := (h.mem_iff hc p).1 hp
    · obtain ⟨rfl, -⟩ | ⟨hq, hnot⟩ := (h.mem_iff hc q).1 hq
      · rfl
      · exact absurd ⟨hc.apart hq (h.mem_source hmoved), hmoved⟩ hnot
    · obtain ⟨rfl, hmoved⟩ | ⟨hq, -⟩ := (h.mem_iff hc q).1 hq
      · exact absurd ⟨hc.apart hp (h.mem_source hmoved), hmoved⟩ hnot
      · exact hc.apart hp hq

/-- **A new resource keeps custody.** -/
theorem enters (hc : Custody holds) (h : Enters holds holds' target x) : Custody holds' := by
  have hmem : ∀ {p y}, y ∈ holds' p → y ∈ holds p ∨ (p = target ∧ y = x) := by
    intro p y hy
    by_cases htarget : p = target
    · subst htarget
      rw [h.target_eq, List.mem_append, List.mem_singleton] at hy
      exact hy.imp_right fun heq => ⟨rfl, heq⟩
    · rw [h.others p htarget] at hy
      exact .inl hy
  refine ⟨fun p => ?_, ?_⟩
  · by_cases htarget : p = target
    · subst htarget
      rw [h.target_eq, List.nodup_append]
      refine ⟨hc.nodup p, List.nodup_singleton x, ?_⟩
      intro y hy z hz heq
      rw [heq, List.mem_singleton.1 hz] at hy
      exact h.new p hy
    · rw [h.others p htarget]
      exact hc.nodup p
  · intro p q y hp hq
    obtain hp | ⟨rfl, rfl⟩ := hmem hp
    · obtain hq | ⟨rfl, rfl⟩ := hmem hq
      · exact hc.apart hp hq
      · exact absurd hp (h.new p)
    · obtain hq | ⟨rfl, -⟩ := hmem hq
      · exact absurd hq (h.new q)
      · rfl

variable [DecidableEq α]

theorem one_place (hc : Custody holds) (hx : ∃ p, x ∈ holds p) :
    ∃ p, (holds p).count x = 1 ∧ ∀ q, q ≠ p → x ∉ holds q := by
  obtain ⟨p, hp⟩ := hx
  exact ⟨p, List.count_eq_one_of_mem (hc.nodup p) hp, fun q hne hq => hne (hc.apart hq hp)⟩

end Custody

theorem Enters.exists_mem_iff {target : Place} {x y : α} (h : Enters holds holds' target x) :
    (∃ p, y ∈ holds' p) ↔ (∃ p, y ∈ holds p) ∨ y = x := by
  constructor
  · rintro ⟨p, hp⟩
    by_cases htarget : p = target
    · subst htarget
      rw [h.target_eq, List.mem_append, List.mem_singleton] at hp
      exact hp.imp_left fun hy => ⟨p, hy⟩
    · rw [h.others p htarget] at hp
      exact .inl ⟨p, hp⟩
  · rintro (⟨p, hp⟩ | rfl)
    · by_cases htarget : p = target
      · subst htarget
        refine ⟨p, ?_⟩
        rw [h.target_eq]
        exact List.mem_append_left _ hp
      · exact ⟨p, by rwa [h.others p htarget]⟩
    · refine ⟨target, ?_⟩
      rw [h.target_eq]
      exact List.mem_append_right _ (List.mem_singleton_self y)

end Irlume.Lib

import Irlume.Inventory.Merge

/-!
# The operations and their runs

A run of the inventory is a list of operations; each is total. The lemmas say what an operation does to the
fields. `WellFormed` is the invariant of every run: identities are held once, and what is published fits the
state of the publication.
-/

namespace Irlume.Inventory

open Irlume.Lib

namespace CameraInventory

variable {inv : CameraInventory}

theorem invalidated_iff {e : InventoryEntry} :
    inv.invalidated e = true ↔ e.instanceId ∈ inv.invalidatedInstanceIds := decide_eq_true_iff

/-! ## Fields -/

section Fields

variable (inv : CameraInventory)

@[simp] theorem advanceRevision_active : inv.advanceRevision.active = inv.active := by
  rw [advanceRevision]; split <;> rfl

@[simp] theorem advanceRevision_tombstones : inv.advanceRevision.tombstones = inv.tombstones := by
  rw [advanceRevision]; split <;> rfl

@[simp] theorem advanceRevision_retired :
    inv.advanceRevision.retiredInstanceIds = inv.retiredInstanceIds := by
  rw [advanceRevision]; split <;> rfl

@[simp] theorem advanceRevision_invalidated :
    inv.advanceRevision.invalidatedInstanceIds = inv.invalidatedInstanceIds := by
  rw [advanceRevision]; split <;> rfl

@[simp] theorem advanceRevision_roles : inv.advanceRevision.roles = inv.roles := by
  rw [advanceRevision]; split <;> rfl

@[simp] theorem pruneRoles_active : inv.pruneRoles.active = inv.active := rfl

@[simp] theorem pruneRoles_retired :
    inv.pruneRoles.retiredInstanceIds = inv.retiredInstanceIds := rfl

@[simp] theorem pruneRoles_invalidated :
    inv.pruneRoles.invalidatedInstanceIds = inv.invalidatedInstanceIds := rfl

@[simp] theorem pruneRoles_state : inv.pruneRoles.publicationState = inv.publicationState := rfl

@[simp] theorem markRefreshing_active : inv.markRefreshing.active = inv.active := by
  rw [markRefreshing]; split <;> simp

@[simp] theorem markRefreshing_tombstones : inv.markRefreshing.tombstones = inv.tombstones := by
  rw [markRefreshing]; split <;> simp

@[simp] theorem markRefreshing_retired :
    inv.markRefreshing.retiredInstanceIds = inv.retiredInstanceIds := by
  rw [markRefreshing]; split <;> simp

@[simp] theorem markRefreshing_invalidated :
    inv.markRefreshing.invalidatedInstanceIds = inv.invalidatedInstanceIds := by
  rw [markRefreshing]; split <;> simp

end Fields

theorem mem_activeInstanceIds {id : CameraInstanceId} :
    id ∈ inv.activeInstanceIds ↔ ∃ (k : Text) (e : InventoryEntry),
      inv.active[k]? = some e ∧ e.instanceId = id := by
  simp only [activeInstanceIds, List.mem_toFinset, List.mem_map, mem_values]
  constructor
  · rintro ⟨e, ⟨k, he⟩, hid⟩
    exact ⟨k, e, he, hid⟩
  · rintro ⟨k, e, he, hid⟩
    exact ⟨e, ⟨k, he⟩, hid⟩

/-! ## Retirement -/

/-- What taking out the topologies `ts` leaves of `inv`. -/
structure RetiredSpec (inv : CameraInventory) (ts : List Text) (inv' : CameraInventory) : Prop where
  rest : inv' = { inv with
    active := inv'.active
    tombstones := inv'.tombstones
    retiredInstanceIds := inv'.retiredInstanceIds
    invalidatedInstanceIds := inv'.invalidatedInstanceIds }
  gone : ∀ k ∈ ts, inv'.active[k]? = none
  others : ∀ k ∉ ts, inv'.active[k]? = inv.active[k]?
  retired : ∀ id, id ∈ inv'.retiredInstanceIds ↔ id ∈ inv.retiredInstanceIds ∨
    ∃ k ∈ ts, ∃ e, inv.active[k]? = some e ∧ e.instanceId = id
  invalidated : ∀ id, id ∈ inv'.invalidatedInstanceIds ↔ id ∈ inv.invalidatedInstanceIds ∧
    ¬∃ k ∈ ts, ∃ e, inv.active[k]? = some e ∧ e.instanceId = id

theorem RetiredSpec.refl (inv : CameraInventory) : RetiredSpec inv [] inv := by
  refine ⟨rfl, ?_, fun _ _ => rfl, ?_, ?_⟩ <;> simp

theorem RetiredSpec.step {found : CameraInventory × List CameraInventoryEvent}
    {ts : List Text} {t : Text} (h : RetiredSpec inv ts found.1) (ht : t ∉ ts) :
    RetiredSpec inv (ts ++ [t]) (retireTopology found t).1 := by
  have hold : found.1.active[t]? = inv.active[t]? := h.others t ht
  have hsnoc : ∀ {P : Text → Prop}, (∃ k ∈ ts ++ [t], P k) ↔ (∃ k ∈ ts, P k) ∨ P t := by
    intro P
    simp [or_and_right, exists_or]
  rw [retireTopology]
  split
  · next hnone =>
    rw [hold] at hnone
    refine ⟨h.rest, ?_, ?_, ?_, ?_⟩
    · intro k hk
      rcases List.mem_append.1 hk with hk | hk
      · exact h.gone k hk
      · rw [List.mem_singleton.1 hk]
        exact hold.trans hnone
    · intro k hk
      rw [List.mem_append, not_or] at hk
      exact h.others k hk.1
    · intro id
      simp [h.retired, hnone]
    · intro id
      simp [h.invalidated, hnone]
  · next e he =>
    rw [hold] at he
    refine ⟨?_, ?_, ?_, ?_, ?_⟩
    · rw [h.rest]
    · intro k hk
      by_cases hkt : k = t
      · rw [hkt]
        exact Std.ExtTreeMap.getElem?_erase_self
      · rw [List.mem_append, List.mem_singleton] at hk
        exact (getElem?_erase_of_ne hkt).trans (h.gone k (hk.resolve_right hkt))
    · intro k hk
      rw [List.mem_append, List.mem_singleton, not_or] at hk
      exact (getElem?_erase_of_ne hk.2).trans (h.others k hk.1)
    · intro id
      simp only [Finset.mem_insert, h.retired, hsnoc, he, Option.some.injEq, exists_eq_left',
        eq_comm (a := id)]
      exact or_rotate
    · intro id
      simp only [Finset.mem_erase, h.invalidated, hsnoc, he, Option.some.injEq, exists_eq_left',
        ne_comm (a := id), ne_eq, not_or]
      exact and_rotate

theorem retired_loop {found : CameraInventory × List CameraInventoryEvent}
    {done ts : List Text} (hnodup : (done ++ ts).Nodup) (h : RetiredSpec inv done found.1) :
    RetiredSpec inv (done ++ ts) (ts.foldl retireTopology found).1 ∧
      (ts.foldl retireTopology found).2 =
        found.2 ++ ts.filterMap fun t => inv.active[t]?.map fun e => .removed e.descriptor := by
  induction ts generalizing done found with
  | nil => simpa using h
  | cons t ts ih =>
    have ht : t ∉ done := fun hmem =>
      (List.nodup_append.1 hnodup).2.2 t hmem t List.mem_cons_self rfl
    have hassoc : done ++ t :: ts = done ++ [t] ++ ts := by simp
    rw [hassoc] at hnodup ⊢
    obtain ⟨hspec, hevents⟩ := ih hnodup (h.step ht)
    refine ⟨hspec, ?_⟩
    rw [List.foldl_cons, hevents, List.filterMap_cons, ← h.others t ht, retireTopology]
    cases found.1.active[t]? <;> simp

def refreshedFor (inv : CameraInventory) (ts : TextSet) : CameraInventory :=
  if ts.toList.any (· ∈ inv.active) then inv.markRefreshing else inv

/-- What a retirement leaves. -/
theorem retired_spec (inv : CameraInventory) (ts : TextSet) :
    ∃ inv', RetiredSpec (inv.refreshedFor ts) ts.toList inv' ∧
      (inv.retireTopologies ts).1 = inv'.pruneRoles := by
  have hnodup : ([] ++ ts.toList).Nodup := nodup_toList
  have hstart : RetiredSpec (inv.refreshedFor ts) [] (inv.refreshedFor ts, ([] : List CameraInventoryEvent)).1 :=
    .refl _
  exact ⟨_, (retired_loop hnodup hstart).1, rfl⟩

/-! ## Reconciliation -/

/-- `reconcile_guarded` with a guard that only answers. -/
def reconcile (inv : CameraInventory) (observations : List CameraObservation) (quiet : Bool)
    (now : Nat) : Reconciled × CameraInventory :=
  Id.run (inv.reconcileGuarded observations now (pure quiet))

structure Census (inv : CameraInventory) (observations : List CameraObservation)
    (incoming : TextMap CameraObservation) (m : Merge) : Prop where
  byTopology : incomingByTopology observations = .ok incoming
  merges : inv.merged incoming = .ok m

def sortedEvents (m : Merge) : List CameraInventoryEvent := m.events.mergeSort CameraInventoryEvent.le

/-- How a reconciliation ends, whatever its guard is. -/
theorem reconcileGuarded_cases (inv : CameraInventory) (observations : List CameraObservation) (now : Nat) :
    (∃ e drawn, (∀ incoming m, ¬Census inv observations incoming m) ∧
      ∀ {M : Type → Type} [Monad M] (quiet : M Bool), inv.reconcileGuarded observations now quiet =
        pure (.error e, { inv with drawn := drawn })) ∨
    ∃ incoming m, Census inv observations incoming m ∧
      ∀ {M : Type → Type} [Monad M] [LawfulMonad M] (quiet : M Bool),
        inv.reconcileGuarded observations now quiet =
          (fun q : Bool => if q then (.ok (sortedEvents m, true), inv.committed m now)
            else (.ok ([], false), { inv with drawn := m.drawn })) <$> quiet := by
  cases hincoming : incomingByTopology observations with
  | error e =>
    refine .inl ⟨e, inv.drawn, fun incoming m hc => ?_, fun quiet => ?_⟩
    · cases hc.byTopology.symm.trans hincoming
    · simp only [reconcileGuarded, hincoming]
  | ok incoming =>
    cases hmerged : inv.merged incoming with
    | error drawn =>
      refine .inl ⟨.instanceIdExhausted, drawn, fun incoming' m hc => ?_, fun quiet => ?_⟩
      · cases hincoming.symm.trans hc.byTopology
        cases hc.merges.symm.trans hmerged
      · simp only [reconcileGuarded, hincoming, hmerged]
    | ok m =>
      refine .inr ⟨incoming, m, ⟨hincoming, hmerged⟩, fun quiet => ?_⟩
      simp only [reconcileGuarded, hincoming, hmerged, map_eq_pure_bind]
      congr 1
      funext q
      cases q <;> rfl

/-- How a reconciliation ends. -/
theorem reconcile_cases (inv : CameraInventory) (observations : List CameraObservation)
    (quiet : Bool) (now : Nat) :
    (∃ e drawn, inv.reconcile observations quiet now = (.error e, { inv with drawn := drawn })) ∨
    ∃ incoming m, Census inv observations incoming m ∧
      inv.reconcile observations quiet now =
        if quiet then (.ok (sortedEvents m, true), inv.committed m now)
        else (.ok ([], false), { inv with drawn := m.drawn }) := by
  rcases inv.reconcileGuarded_cases observations now with ⟨e, drawn, -, h⟩ | ⟨incoming, m, hc, h⟩
  · exact .inl ⟨e, drawn, congrArg Id.run (h _)⟩
  · exact .inr ⟨incoming, m, hc, congrArg Id.run (h _)⟩

theorem Census.reconcile {observations : List CameraObservation}
    {incoming : TextMap CameraObservation} {m : Merge} (h : Census inv observations incoming m)
    (quiet : Bool) (now : Nat) : inv.reconcile observations quiet now =
      if quiet then (.ok (sortedEvents m, true), inv.committed m now)
      else (.ok ([], false), { inv with drawn := m.drawn }) := by
  simp only [CameraInventory.reconcile, reconcileGuarded, h.byTopology, h.merges]
  cases quiet <;> rfl

theorem reconcileGuarded_eq {M : Type → Type} [Monad M] [LawfulMonad M] (inv : CameraInventory)
    (observations : List CameraObservation) (now : Nat) :
    ((∀ incoming m, ¬Census inv observations incoming m) ∧ ∃ e, ∀ quiet : M Bool,
      inv.reconcileGuarded observations now quiet =
        pure (.error e, (inv.reconcile observations false now).2)) ∨
    ∃ incoming m, Census inv observations incoming m ∧ ∀ quiet : M Bool,
      inv.reconcileGuarded observations now quiet =
        (fun q => inv.reconcile observations q now) <$> quiet := by
  rcases inv.reconcileGuarded_cases observations now with ⟨e, drawn, hnone, h⟩ | ⟨incoming, m, hc, h⟩
  · refine .inl ⟨hnone, e, fun quiet => ?_⟩
    rw [h, reconcile, h]
    rfl
  · refine .inr ⟨incoming, m, hc, fun quiet => ?_⟩
    rw [h]
    congr 1
    funext q
    rw [hc.reconcile]

theorem Census.spec {observations : List CameraObservation}
    {incoming : TextMap CameraObservation} {m : Merge} (h : Census inv observations incoming m)
    (hids : Identities inv.active inv.retiredInstanceIds) :
    ∃ noted, MergeSpec inv incoming m noted :=
  merged_spec hids (fun _ _ ho => ((incomingByTopology_spec h.byTopology).1 ho).2) h.merges

end CameraInventory

/-! ## Runs -/

/-- One call of an operation that changes the inventory, with what it is given. -/
inductive Op where
  | reconcileGuarded (observations : List CameraObservation) (quiet : Bool) (now : Nat)
  | invalidateAll
  | invalidateTopologies (topologies : TextSet)
  | retireTopologies (topologies : TextSet)
  | markUnavailable (reason : CameraInventoryReason)
  | retireUnavailable (reason : CameraInventoryReason)
  | recordRoles (before : TextMap EndpointGeneration) (classified : List (Text × Role))

namespace CameraInventory

def step (inv : CameraInventory) : Op → CameraInventory
  | .reconcileGuarded observations quiet now => (inv.reconcile observations quiet now).2
  | .invalidateAll => inv.invalidateAll
  | .invalidateTopologies topologies => inv.invalidateTopologies topologies
  | .retireTopologies topologies => (inv.retireTopologies topologies).1
  | .markUnavailable reason => inv.markUnavailable reason
  | .retireUnavailable reason => inv.retireUnavailable reason
  | .recordRoles before classified => inv.recordRoles before classified

def after (inv : CameraInventory) (ops : List Op) : CameraInventory := ops.foldl step inv

@[simp] theorem after_nil (inv : CameraInventory) : inv.after [] = inv := rfl

@[simp] theorem after_cons (inv : CameraInventory) (op : Op) (ops : List Op) :
    inv.after (op :: ops) = (inv.step op).after ops := rfl

theorem after_append (inv : CameraInventory) (ops ops' : List Op) :
    inv.after (ops ++ ops') = (inv.after ops).after ops' := List.foldl_append

theorem after_invariant {I : CameraInventory → Prop} (hstep : ∀ inv op, I inv → I (inv.step op))
    {inv : CameraInventory} (h : I inv) (ops : List Op) : I (inv.after ops) := by
  induction ops generalizing inv with
  | nil => exact h
  | cons op ops ih => exact ih (hstep inv op h)

end CameraInventory

end Irlume.Inventory

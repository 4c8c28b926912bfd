import Irlume.Inventory.Identity

/-!
# Inventory events

The events of a commit, and those of a retirement, are edits of the map from topologies to
descriptors: made one after the other on the map before, each at a topology of its own and each
fitting what is there, they give the map after. They come in one order, and a census that finds what
the inventory already has says nothing.
-/

namespace Irlume.Inventory

open Irlume.Lib

def CameraInventoryEvent.edit : CameraInventoryEvent → Edit Text CameraDescriptor
  | added d => .added d.physicalId.topologyPath d
  | changed previous d => .changed d.physicalId.topologyPath previous d
  | removed d => .removed d.physicalId.topologyPath d

theorem CameraInventoryEvent.edit_key (event : CameraInventoryEvent) :
    event.edit.key = event.topologyPath := by cases event <;> rfl

/-- `left` comes before `right`: in an earlier phase, or in the same one at a smaller topology. -/
def CameraInventoryEvent.Before (left right : CameraInventoryEvent) : Prop :=
  left.phaseRank < right.phaseRank ∨
    left.phaseRank = right.phaseRank ∧ compare left.topologyPath right.topologyPath = .lt

namespace CameraInventory

def topologyDescriptors (inv : CameraInventory) : TextMap CameraDescriptor :=
  Std.ExtTreeMap.ofList (inv.activeDescriptors.map fun d => (d.physicalId.topologyPath, d))

variable {inv : CameraInventory}

theorem topologyDescriptors_getElem?
    (hids : Identities inv.active inv.retiredInstanceIds) (k : Text) :
    inv.topologyDescriptors[k]? = inv.active[k]?.map InventoryEntry.descriptor := by
  rw [topologyDescriptors, activeDescriptors, List.map_map]
  cases he : inv.active[k]? with
  | some e =>
    rw [Option.map_some]
    apply Std.ExtTreeMap.getElem?_ofList_of_mem Std.ReflCmp.compare_self
    · refine List.pairwise_map.2 (values_pairwise ?_)
      intro l l' f f' hne hf hf' heq
      apply hne
      rw [← hids.descriptor_topology hf, ← hids.descriptor_topology hf']
      exact Std.LawfulEqCmp.eq_of_compare heq
    · exact List.mem_map.2 ⟨e, mem_values.2 ⟨k, he⟩, Prod.ext (hids.descriptor_topology he) rfl⟩
  | none =>
    rw [Option.map_none]
    apply Std.ExtTreeMap.getElem?_ofList_of_contains_eq_false
    rw [← Bool.not_eq_true, List.contains_iff_mem]
    intro hmem
    obtain ⟨_, hpair, rfl⟩ := List.mem_map.1 hmem
    obtain ⟨e, hvalue, rfl⟩ := List.mem_map.1 hpair
    obtain ⟨l, hl⟩ := mem_values.1 hvalue
    rw [Function.comp_apply, hids.descriptor_topology hl, hl] at he
    cases he

structure Difference (inv inv' : CameraInventory) (events : List CameraInventoryEvent) : Prop where
  edits : (events.map CameraInventoryEvent.edit).foldlM Edit.apply inv.topologyDescriptors =
    some inv'.topologyDescriptors
  once : events.Pairwise fun e f => e.topologyPath ≠ f.topologyPath
  ordered : events.Pairwise CameraInventoryEvent.Before

structure Tells (inv inv' : CameraInventory) (event : CameraInventoryEvent) : Prop where
  before : inv.active[event.topologyPath]?.map InventoryEntry.descriptor = event.edit.before
  after : inv'.active[event.topologyPath]?.map InventoryEntry.descriptor = event.edit.after

theorem edits_of_tells {inv inv' : CameraInventory} {events : List CameraInventoryEvent}
    (hids : Identities inv.active inv.retiredInstanceIds)
    (hids' : Identities inv'.active inv'.retiredInstanceIds)
    (honce : events.Pairwise fun e f => e.topologyPath ≠ f.topologyPath)
    (htells : ∀ event ∈ events, Tells inv inv' event)
    (hrest : ∀ k : Text, (∀ event ∈ events, event.topologyPath ≠ k) →
      inv'.active[k]?.map InventoryEntry.descriptor = inv.active[k]?.map InventoryEntry.descriptor) :
    (events.map CameraInventoryEvent.edit).foldlM Edit.apply inv.topologyDescriptors =
      some inv'.topologyDescriptors := by
  apply Edit.foldlM_apply_eq
  · refine List.pairwise_map.2 (honce.imp ?_)
    intro e f hne
    rwa [CameraInventoryEvent.edit_key, CameraInventoryEvent.edit_key]
  · intro edit hedit
    obtain ⟨event, hevent, rfl⟩ := List.mem_map.1 hedit
    rw [CameraInventoryEvent.edit_key, topologyDescriptors_getElem? hids]
    exact (htells event hevent).before
  · intro edit hedit
    obtain ⟨event, hevent, rfl⟩ := List.mem_map.1 hedit
    rw [CameraInventoryEvent.edit_key, topologyDescriptors_getElem? hids']
    exact (htells event hevent).after
  · intro k hk
    rw [topologyDescriptors_getElem? hids, topologyDescriptors_getElem? hids']
    apply hrest
    intro event hevent
    rw [← CameraInventoryEvent.edit_key]
    exact hk _ (List.mem_map_of_mem hevent)

/-! ## A commit -/

theorem committed_active (inv : CameraInventory) (m : Merge) (now : Nat) :
    (inv.committed m now).active = m.active := by
  simp only [committed, pruneRoles_active]
  split <;> simp

variable {incoming : TextMap CameraObservation} {m : Merge}
  {noted : Text → Option CameraInventoryEvent}

variable {event : CameraInventoryEvent}

theorem MergeSpec.mem_events (h : MergeSpec inv incoming m noted) :
    event ∈ m.events ↔ noted event.topologyPath = some event := by
  rw [h.events, List.mem_filterMap]
  constructor
  · rintro ⟨k, -, hk⟩
    rwa [h.topology k event hk]
  · intro hk
    refine ⟨event.topologyPath, mem_mergeKeys.2 ?_, hk⟩
    have hsettled := h.settled event.topologyPath
    rw [hk] at hsettled
    by_contra hout
    rw [not_or] at hout
    rw [getElem?_neg inv.active _ hout.1, getElem?_neg incoming _ hout.2] at hsettled
    generalize m.active[event.topologyPath]? = p' at hsettled
    cases hsettled

theorem MergeSpec.tells {inv inv' : CameraInventory} (h : MergeSpec inv incoming m noted)
    (hactive : inv'.active = m.active) (hevent : event ∈ m.events) :
    Tells inv inv' event := by
  have hnoted := h.mem_events.1 hevent
  have hsettled := h.settled event.topologyPath
  rw [hnoted, ← hactive] at hsettled
  generalize hp : inv.active[event.topologyPath]? = p, incoming[event.topologyPath]? = o,
    hp' : inv'.active[event.topologyPath]? = p' at hsettled
  refine ⟨?_, ?_⟩
  · rw [hp]
    cases hsettled <;> rfl
  · rw [hp']
    cases hsettled <;> rfl

theorem MergeSpec.unchanged (h : MergeSpec inv incoming m noted)
    {k : Text} (hk : ∀ event ∈ m.events, event.topologyPath ≠ k) : m.active[k]? = inv.active[k]? := by
  have hnone : noted k = none := by
    cases hnoted : noted k with
    | none => rfl
    | some event =>
      have htop := h.topology k event hnoted
      exact absurd htop (hk event (h.mem_events.2 (by rw [htop, hnoted])))
  have hsettled := h.settled k
  rw [hnone] at hsettled
  generalize inv.active[k]? = p, incoming[k]? = o, m.active[k]? = p' at hsettled ⊢
  cases hsettled <;> rfl

theorem MergeSpec.once (h : MergeSpec inv incoming m noted) :
    m.events.Pairwise fun e f => e.topologyPath ≠ f.topologyPath := by
  rw [h.events, List.pairwise_filterMap]
  refine List.Pairwise.imp ?_ nodup_mergeKeys
  intro k l hne e he f hf
  rwa [h.topology k e he, h.topology l f hf]

theorem mergeSort_ordered {events : List CameraInventoryEvent}
    (h : events.Pairwise fun e f => e.topologyPath ≠ f.topologyPath) :
    (events.mergeSort CameraInventoryEvent.le).Pairwise CameraInventoryEvent.Before := by
  have hsorted := @List.pairwise_mergeSort _ CameraInventoryEvent.le
    (fun _ _ _ => Std.TransCmp.isLE_trans)
    (fun e f => by
      rw [Bool.or_eq_true]
      by_cases hle : (CameraInventoryEvent.cmp e f).isLE = true
      · exact .inl hle
      · exact .inr (Ordering.isLE_of_eq_lt (Std.OrientedCmp.lt_of_not_isLE hle))) events
  have honce := (List.mergeSort_perm events CameraInventoryEvent.le).symm.pairwise h Ne.symm
  refine (hsorted.and honce).imp ?_
  rintro e f ⟨hle, hne⟩
  rcases Ordering.isLE_then_iff_or.1 hle with hlt | ⟨heq, hle⟩
  · exact .inl (Nat.compare_eq_lt.1 hlt)
  · refine .inr ⟨Nat.compare_eq_eq.1 heq, ?_⟩
    rcases Ordering.isLE_iff_eq_lt_or_eq_eq.1 hle with hlt | heq
    · exact hlt
    · have htop : compare e.topologyPath f.topologyPath = .eq := heq
      exact absurd (Std.LawfulEqCmp.eq_of_compare htop) hne

theorem committed_difference {observations : List CameraObservation}
    (hids : Identities inv.active inv.retiredInstanceIds) (h : Census inv observations incoming m)
    (now : Nat) : Difference inv (inv.committed m now) (sortedEvents m) := by
  obtain ⟨noted, hspec⟩ := h.spec hids
  have hperm : (sortedEvents m).Perm m.events := List.mergeSort_perm _ _
  have honce := hperm.symm.pairwise hspec.once Ne.symm
  have hactive := inv.committed_active m now
  refine ⟨?_, honce, mergeSort_ordered hspec.once⟩
  apply edits_of_tells hids (continues_committed hids h now).identities honce
  · intro event hevent
    exact hspec.tells hactive (hperm.mem_iff.1 hevent)
  · intro k hk
    rw [hactive, hspec.unchanged fun event hevent => hk event (hperm.mem_iff.2 hevent)]

theorem MergeSpec.silent (h : MergeSpec inv incoming m noted) {k : Text}
    {p : InventoryEntry} (hp : inv.active[k]? = some p) (ho : incoming[k]? = some p.observation)
    (hclear : inv.invalidated p = false) : ∀ event ∈ m.events, event.topologyPath ≠ k := by
  rintro event hevent rfl
  have hsettled := h.settled event.topologyPath
  rw [h.mem_events.1 hevent, hp, ho] at hsettled
  generalize m.active[event.topologyPath]? = p' at hsettled
  have hdoubt : ∀ {o : CameraObservation}, o = p.observation → (p.observation = o → inv.invalidated p = true) →
      False := by
    rintro o rfl hwhy
    rw [hwhy rfl] at hclear
    cases hclear
  cases hsettled with
  | advanced _ _ _ hwhy _ => exact hdoubt rfl hwhy
  | renewed _ _ _ hwhy _ _ _ => exact hdoubt rfl hwhy

/-! ## The same census again -/

theorem MergeSpec.observed (h : MergeSpec inv incoming m noted) (k : Text) :
    m.active[k]?.map InventoryEntry.observation = incoming[k]? := by
  have hsettled := h.settled k
  generalize inv.active[k]? = p, incoming[k]? = o, m.active[k]? = p', noted k = event at hsettled ⊢
  cases hsettled <;> rfl

theorem merged_of_observed
    (hsame : ∀ k : Text, inv.active[k]?.map InventoryEntry.observation = incoming[k]?)
    (hclear : inv.invalidatedInstanceIds = ∅) :
    inv.merged incoming = .ok ⟨inv.active, inv.tombstones, inv.retiredInstanceIds, inv.drawn, []⟩ := by
  have hone : ∀ k : Text, inv.mergeTopology incoming
      ⟨inv.active, inv.tombstones, inv.retiredInstanceIds, inv.drawn, []⟩ k =
      .ok ⟨inv.active, inv.tombstones, inv.retiredInstanceIds, inv.drawn, []⟩ := by
    intro k
    have hk := hsame k
    rw [mergeTopology]
    cases hp : inv.active[k]? with
    | none =>
      rw [hp] at hk
      simp [← hk]
    | some p =>
      rw [hp] at hk
      simp [← hk, invalidated, hclear]
  rw [merged]
  generalize inv.mergeKeys incoming = keys
  induction keys with
  | nil => rfl
  | cons k keys ih =>
    rw [List.foldlM_cons, hone k]
    exact ih

structure Committed (inv : CameraInventory) : Prop where
  state : inv.publicationState = .current
  clear : inv.invalidatedInstanceIds = ∅

theorem committed_committed (inv : CameraInventory) (m : Merge) (now : Nat) :
    Committed (inv.committed m now) := by
  refine ⟨by simp [committed], ?_⟩
  simp only [committed, pruneRoles_invalidated]
  split <;> simp

theorem reconcile_again {observations : List CameraObservation}
    (hids : Identities inv.active inv.retiredInstanceIds) (h : Census inv observations incoming m)
    (now now' : Nat) :
    let inv' := inv.committed m now
    (inv'.reconcile observations true now').1 = .ok ([], true) ∧
      (inv'.reconcile observations true now').2.supervisorId = inv'.supervisorId ∧
      (inv'.reconcile observations true now').2.revision = inv'.revision := by
  intro inv'
  obtain ⟨noted, hspec⟩ := h.spec hids
  obtain ⟨-, hclear⟩ := inv.committed_committed m now
  have hmerged : inv'.merged incoming =
      .ok ⟨inv'.active, inv'.tombstones, inv'.retiredInstanceIds, inv'.drawn, []⟩ := by
    apply merged_of_observed _ hclear
    intro k
    rw [inv.committed_active m now]
    exact hspec.observed k
  have hresult : inv'.reconcile observations true now' =
      (.ok ([], true), inv'.committed
        ⟨inv'.active, inv'.tombstones, inv'.retiredInstanceIds, inv'.drawn, []⟩ now') := by
    simp [reconcile, reconcileGuarded, h.byTopology, hmerged]
  rw [hresult]
  refine ⟨rfl, ?_, ?_⟩ <;> simp [committed, pruneRoles, inv']

/-! ## A retirement -/

theorem refreshedFor_active (inv : CameraInventory) (ts : TextSet) :
    (inv.refreshedFor ts).active = inv.active := by
  rw [refreshedFor]
  split <;> simp

theorem retireTopologies_events (inv : CameraInventory) (ts : TextSet) :
    (inv.retireTopologies ts).2 =
      ts.toList.filterMap fun t => inv.active[t]?.map fun e => .removed e.descriptor := by
  have hnodup : ([] ++ ts.toList).Nodup := nodup_toList
  have hstart : RetiredSpec (inv.refreshedFor ts) []
      (inv.refreshedFor ts, ([] : List CameraInventoryEvent)).1 := .refl _
  have h := (retired_loop hnodup hstart).2
  rw [List.nil_append, inv.refreshedFor_active ts] at h
  exact h

theorem mem_retireTopologies {ts : TextSet} :
    event ∈ (inv.retireTopologies ts).2 ↔ ∃ t ∈ ts.toList, ∃ e : InventoryEntry,
      inv.active[t]? = some e ∧ .removed e.descriptor = event := by
  simp only [retireTopologies_events, List.mem_filterMap, Option.map_eq_some_iff]

theorem retireTopologies_difference
    (hids : Identities inv.active inv.retiredInstanceIds) (ts : TextSet) :
    Difference inv (inv.retireTopologies ts).1 (inv.retireTopologies ts).2 := by
  obtain ⟨inv', hspec, heq⟩ := inv.retired_spec ts
  have hids' := (continues_retireTopologies hids ts).identities
  have hactive : (inv.retireTopologies ts).1.active = inv'.active := by rw [heq, pruneRoles_active]
  have hordered : (inv.retireTopologies ts).2.Pairwise fun e f =>
      e.phaseRank = f.phaseRank ∧ compare e.topologyPath f.topologyPath = .lt := by
    rw [retireTopologies_events, List.pairwise_filterMap]
    refine List.Pairwise.imp ?_ (Std.ExtTreeSet.ordered_toList (t := ts))
    intro t t' hlt event hevent event' hevent'
    obtain ⟨e, he, rfl⟩ := Option.map_eq_some_iff.1 hevent
    obtain ⟨e', he', rfl⟩ := Option.map_eq_some_iff.1 hevent'
    refine ⟨rfl, ?_⟩
    change compare e.descriptor.physicalId.topologyPath e'.descriptor.physicalId.topologyPath = .lt
    rw [hids.descriptor_topology he, hids.descriptor_topology he']
    exact hlt
  have honce := hordered.imp fun h => ne_of_compare_lt h.2
  refine ⟨?_, honce, hordered.imp Or.inr⟩
  apply edits_of_tells hids hids' honce
  · intro event hevent
    obtain ⟨t, ht, e, he, rfl⟩ := mem_retireTopologies.1 hevent
    have htop : (CameraInventoryEvent.removed e.descriptor).topologyPath = t :=
      hids.descriptor_topology he
    refine ⟨?_, ?_⟩
    · rw [htop, he]
      rfl
    · rw [htop, hactive, hspec.gone t ht]
      rfl
  · intro k hk
    rw [hactive]
    by_cases hmem : k ∈ ts.toList
    · rw [hspec.gone k hmem]
      cases he : inv.active[k]? with
      | none => rfl
      | some e =>
        exact absurd (hids.descriptor_topology he)
          (hk _ (mem_retireTopologies.2 ⟨k, hmem, e, he, rfl⟩))
    · rw [hspec.others k hmem, inv.refreshedFor_active ts]

/-- **Inventory events are the exact difference.** -/
theorem events_are_the_difference (source generate : Nat → CameraInstanceId) (ops : List Op) :
    let inv := (new source generate).after ops
    (∀ observations quiet now events inv',
      inv.reconcile observations quiet now = (.ok (events, true), inv') →
        Difference inv inv' events ∧
        (∀ (k : Text) (p : InventoryEntry), inv.active[k]? = some p → p.observation ∈ observations →
          inv.invalidated p = false → ∀ event ∈ events, event.topologyPath ≠ k) ∧
        ∀ now', (inv'.reconcile observations true now').1 = .ok ([], true) ∧
          (inv'.reconcile observations true now').2.supervisorId = inv'.supervisorId ∧
          (inv'.reconcile observations true now').2.revision = inv'.revision) ∧
    ∀ ts, Difference inv (inv.retireTopologies ts).1 (inv.retireTopologies ts).2 := by
  intro inv
  have hids : Identities inv.active inv.retiredInstanceIds :=
    (continues_after (identities_new source generate) ops).identities
  refine ⟨fun observations quiet now events inv' hcommit => ?_, retireTopologies_difference hids⟩
  rcases inv.reconcile_cases observations quiet now with ⟨e, drawn, h⟩ | ⟨incoming, m, hc, h⟩
  · rw [h] at hcommit
    cases hcommit
  · rw [h] at hcommit
    cases quiet with
    | false => cases hcommit
    | true =>
      cases hcommit
      refine ⟨committed_difference hids hc now, fun k p hp hmem hclear event hevent => ?_,
        reconcile_again hids hc now⟩
      obtain ⟨noted, hspec⟩ := hc.spec hids
      have ho : incoming[k]? = some p.observation :=
        (incomingByTopology_spec hc.byTopology).2 ⟨hmem, hids.topology hp⟩
      exact hspec.silent hp ho hclear event (List.mem_mergeSort.1 hevent)

end CameraInventory

end Irlume.Inventory

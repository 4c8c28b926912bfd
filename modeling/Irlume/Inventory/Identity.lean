import Irlume.Inventory.Steps

/-!
# Lifecycle identity

A reference names an instance and a generation of it. A generation grows whenever the camera was in doubt and is
not any more, so a reference that once failed cannot be valid again, and an identity is never given twice.
-/

namespace Irlume.Inventory

open Irlume.Lib

namespace CameraInventory

/-! ## What a reference proves -/

variable {inv : CameraInventory} {r : CameraInventoryRef}

theorem validateReference_ok_iff :
    inv.validateReference r = .ok () ↔
      ∃ e, inv.active[r.descriptor.physicalId.topologyPath]? = some e ∧ e.reference = r ∧
        inv.invalidated e = false := by
  simp only [validateReference, validate, invalidated, bind_ok_iff]
  constructor
  · rintro ⟨_, hvalid, hmatch⟩
    cases he : inv.active[r.descriptor.physicalId.topologyPath]? with
    | none => simp [he] at hmatch
    | some e =>
      simp only [he] at hvalid hmatch
      split at hvalid
      · cases hvalid
      split at hvalid
      · cases hvalid
      split at hvalid
      · cases hvalid
      split at hvalid
      · cases hvalid
      split at hmatch
      · cases hmatch
      split at hmatch
      · cases hmatch
      next hid hdoubt _ hdesc hevidence hpaths =>
      rw [not_not] at hid hdesc hevidence hpaths
      refine ⟨e, rfl, ?_, ?_⟩
      · rw [InventoryEntry.reference, hevidence, hpaths, ← hdesc]
      · rw [← hid]
        exact decide_eq_false hdoubt
  · rintro ⟨e, he, rfl, hdoubt⟩
    have hdoubt' := of_decide_eq_false hdoubt
    simp only [InventoryEntry.reference] at he
    simp [InventoryEntry.reference, he, InventoryEntry.instanceId, InventoryEntry.generation] at hdoubt' ⊢
    exact hdoubt'

def HandedOut (inv : CameraInventory) (r : CameraInventoryRef) : Prop :=
  r ∈ inv.activeReferences ∨ ∃ paths, inv.referenceForEndpoints paths = .ok r

theorem referenceForEndpoints_ok {paths : List Text} (h : inv.referenceForEndpoints paths = .ok r) :
    ∃ (k : Text) (e : InventoryEntry), inv.active[k]? = some e ∧ inv.invalidated e = false ∧
      r = e.reference := by
  simp only [referenceForEndpoints] at h
  split at h
  · cases h
  split at h
  · cases h
  · next e hfilter =>
    split at h
    · cases h
    · next hdoubt =>
      cases h
      have hmem := List.mem_of_mem_filter (hfilter ▸ List.mem_singleton_self e)
      obtain ⟨k, he⟩ := mem_values.1 hmem
      exact ⟨k, e, he, Bool.not_eq_true _ ▸ hdoubt, rfl⟩
  · cases h

theorem HandedOut.entry (h : inv.HandedOut r) :
    ∃ (k : Text) (e : InventoryEntry), inv.active[k]? = some e ∧ inv.invalidated e = false ∧
      r = e.reference := by
  rcases h with hmem | ⟨paths, hok⟩
  · obtain ⟨e, he, rfl⟩ := List.mem_map.1 hmem
    obtain ⟨hvalue, hdoubt⟩ := List.mem_filter.1 he
    obtain ⟨k, hk⟩ := mem_values.1 hvalue
    exact ⟨k, e, hk, by simpa using hdoubt, rfl⟩
  · exact referenceForEndpoints_ok hok

/-! ## From a state to a later one -/

/-- What became of an entry of `inv` in a later state. -/
inductive Fate (inv inv' : CameraInventory) (k : Text) (e : InventoryEntry) : Prop where
  | retired : e.instanceId ∈ inv'.retiredInstanceIds → Fate inv inv' k e
  | kept : inv'.active[k]? = some e → (inv.invalidated e = true → inv'.invalidated e = true) →
      Fate inv inv' k e
  | renumbered (f : InventoryEntry) : inv'.active[k]? = some f → f.instanceId = e.instanceId →
      e.generation.get < f.generation.get → Fate inv inv' k e

/-- What every run keeps between two of its states: retired identities stay retired, and a camera keeps its
identity under its topology with a generation that only grows. -/
structure Later (inv inv' : CameraInventory) : Prop where
  retired : inv.retiredInstanceIds ⊆ inv'.retiredInstanceIds
  fate : ∀ {k : Text} {e : InventoryEntry}, inv.active[k]? = some e → Fate inv inv' k e

theorem Later.refl (inv : CameraInventory) : Later inv inv :=
  ⟨Finset.Subset.refl _, fun he => .kept he id⟩

variable {inv₁ inv₂ inv₃ : CameraInventory}

theorem Later.trans (h : Later inv₁ inv₂) (h' : Later inv₂ inv₃) :
    Later inv₁ inv₃ := by
  refine ⟨h.retired.trans h'.retired, fun he => ?_⟩
  cases h.fate he with
  | retired hr => exact .retired (h'.retired hr)
  | kept he₂ hdoubt =>
    cases h'.fate he₂ with
    | retired hr => exact .retired hr
    | kept he₃ hdoubt' => exact .kept he₃ (hdoubt' ∘ hdoubt)
    | renumbered f hf hid hgen => exact .renumbered f hf hid hgen
  | renumbered f hf hid hgen =>
    cases h'.fate hf with
    | retired hr => exact .retired (hid ▸ hr)
    | kept hf₃ _ => exact .renumbered f hf₃ hid hgen
    | renumbered g hg hid' hgen' => exact .renumbered g hg (hid'.trans hid) (hgen.trans hgen')

variable {inv inv' : CameraInventory}

theorem Later.of_same (hactive : inv'.active = inv.active)
    (hretired : inv'.retiredInstanceIds = inv.retiredInstanceIds)
    (hdoubt : ∀ {k : Text} {e : InventoryEntry}, inv.active[k]? = some e →
      inv.invalidated e = true → inv'.invalidated e = true) : Later inv inv' := by
  refine ⟨by rw [hretired], fun he => .kept (by rw [hactive, he]) (hdoubt he)⟩

theorem Later.of_retired {ts : List Text}
    (hids : Identities inv.active inv.retiredInstanceIds) (h : RetiredSpec inv ts inv') :
    Later inv inv' := by
  refine ⟨fun id hid => (h.retired id).2 (.inl hid), fun {k e} he => ?_⟩
  by_cases hk : k ∈ ts
  · exact .retired ((h.retired _).2 (.inr ⟨k, hk, e, he, rfl⟩))
  · refine .kept (by rw [h.others k hk, he]) fun hdoubt => ?_
    rw [invalidated_iff] at hdoubt ⊢
    refine (h.invalidated _).2 ⟨hdoubt, ?_⟩
    rintro ⟨l, hl, f, hf, heq⟩
    exact hk (hids.distinct hf he heq ▸ hl)

theorem identities_of_retired {ts : List Text}
    (hids : Identities inv.active inv.retiredInstanceIds) (h : RetiredSpec inv ts inv') :
    Identities inv'.active inv'.retiredInstanceIds := by
  have hold : ∀ {k : Text} {e : InventoryEntry}, inv'.active[k]? = some e →
      k ∉ ts ∧ inv.active[k]? = some e := by
    intro k e he
    have hk : k ∉ ts := by
      intro hk
      rw [h.gone k hk] at he
      cases he
    exact ⟨hk, (h.others k hk).symm.trans he⟩
  refine ⟨fun he => hids.entry (hold he).2, fun he => hids.topology (hold he).2,
    fun he hf => hids.distinct (hold he).2 (hold hf).2, fun {k e} he hmem => ?_⟩
  obtain ⟨hk, he⟩ := hold he
  rcases (h.retired _).1 hmem with hmem | ⟨l, hl, f, hf, heq⟩
  · exact hids.live he hmem
  · exact hk (hids.distinct hf he heq ▸ hl)

theorem Later.of_merge {incoming : TextMap CameraObservation} {m : Merge}
    {noted : Text → Option CameraInventoryEvent} (h : MergeSpec inv incoming m noted)
    (hactive : inv'.active = m.active) (hretired : inv'.retiredInstanceIds = m.retired) :
    Later inv inv' := by
  refine ⟨hretired ▸ h.retired, fun {k e} he => ?_⟩
  have hsettled := h.settled k
  rw [he, ← hactive] at hsettled
  generalize ho : incoming[k]? = o, hf : inv'.active[k]? = f, noted k = event at hsettled
  cases hsettled with
  | removed _ hr => exact .retired (hretired ▸ hr)
  | kept _ hdoubt =>
    refine .kept hf fun hdoubted => ?_
    rw [hdoubt] at hdoubted
    cases hdoubted
  | advanced _ o g _ hnext =>
    refine .renumbered _ hf rfl ?_
    rw [InventoryEntry.generation_entry, CameraGeneration.get_of_next hnext]
    exact Nat.lt_succ_self _
  | renewed _ o id _ _ hr _ => exact .retired (hretired ▸ hr)

/-! ## Steps and runs -/

/-- The identities are sound, and they came from those of `inv`. -/
structure Continues (inv inv' : CameraInventory) : Prop where
  identities : Identities inv'.active inv'.retiredInstanceIds
  later : Later inv inv'

theorem Continues.trans (h : Continues inv₁ inv₂)
    (h' : Continues inv₂ inv₃) : Continues inv₁ inv₃ :=
  ⟨h'.identities, h.later.trans h'.later⟩

variable {e : InventoryEntry}

theorem invalidateAll_invalidated {k : Text}
    (he : inv.active[k]? = some e) : inv.invalidateAll.invalidated e = true := by
  have hmem : e.instanceId ∈ inv.markRefreshing.activeInstanceIds :=
    mem_activeInstanceIds.2 ⟨k, e, by simpa using he, rfl⟩
  simpa [invalidated, invalidateAll] using hmem

theorem invalidateTopologies_invalidated {ts : TextSet} :
    (inv.invalidateTopologies ts).invalidated e = true ↔ inv.invalidated e = true ∨
      ∃ t ∈ ts.toList, ∃ f, inv.active[t]? = some f ∧ f.instanceId = e.instanceId := by
  simp only [invalidated_iff, invalidateTopologies, pruneRoles_invalidated,
    markRefreshing_invalidated, markRefreshing_active, Finset.mem_union, List.mem_toFinset,
    List.mem_map, List.mem_filterMap]
  apply or_congr_right
  constructor
  · rintro ⟨f, ⟨t, ht, hf⟩, hid⟩
    exact ⟨t, ht, f, hf, hid⟩
  · rintro ⟨t, ht, f, hf, hid⟩
    exact ⟨f, ⟨t, ht, hf⟩, hid⟩

theorem markUnavailable_invalidated {reason : CameraInventoryReason}
    {k : Text} (he : inv.active[k]? = some e) :
    (inv.markUnavailable reason).invalidated e = true := by
  have hmem : e.instanceId ∈ inv.activeInstanceIds := mem_activeInstanceIds.2 ⟨k, e, he, rfl⟩
  rw [invalidated_iff, markUnavailable, pruneRoles_invalidated]
  dsimp only
  split <;> simp [hmem]

section Steps

variable {inv : CameraInventory} (hids : Identities inv.active inv.retiredInstanceIds)

include hids

theorem continues_of_same {inv' : CameraInventory} (hactive : inv'.active = inv.active)
    (hretired : inv'.retiredInstanceIds = inv.retiredInstanceIds)
    (hdoubt : ∀ {k : Text} {e : InventoryEntry}, inv.active[k]? = some e →
      inv.invalidated e = true → inv'.invalidated e = true) : Continues inv inv' :=
  ⟨by rwa [hactive, hretired], .of_same hactive hretired hdoubt⟩

theorem continues_pruneRoles : Continues inv inv.pruneRoles :=
  continues_of_same hids rfl rfl fun _ => id

theorem continues_markRefreshing : Continues inv inv.markRefreshing := by
  refine continues_of_same hids (by simp) (by simp) fun _ => ?_
  simp [invalidated]

theorem continues_invalidateAll : Continues inv inv.invalidateAll :=
  continues_of_same hids (by simp [invalidateAll]) (by simp [invalidateAll])
    fun he _ => invalidateAll_invalidated he

theorem continues_invalidateTopologies (ts : TextSet) :
    Continues inv (inv.invalidateTopologies ts) := by
  refine continues_of_same hids (by simp [invalidateTopologies]) (by simp [invalidateTopologies]) ?_
  intro k e _ hdoubt
  exact invalidateTopologies_invalidated.2 (.inl hdoubt)

theorem continues_markUnavailable (reason : CameraInventoryReason) :
    Continues inv (inv.markUnavailable reason) := by
  refine continues_of_same hids ?_ ?_ fun he _ => markUnavailable_invalidated he
  · simp only [markUnavailable, pruneRoles_active]
    split <;> simp
  · simp only [markUnavailable, pruneRoles_retired]
    split <;> simp

theorem continues_refreshedFor (ts : TextSet) : Continues inv (inv.refreshedFor ts) := by
  rw [refreshedFor]
  split
  · exact continues_markRefreshing hids
  · exact ⟨hids, .refl inv⟩

theorem continues_retireTopologies (ts : TextSet) :
    Continues inv (inv.retireTopologies ts).1 := by
  obtain ⟨inv', hspec, heq⟩ := inv.retired_spec ts
  have hfirst := continues_refreshedFor hids ts
  have hmiddle : Continues (inv.refreshedFor ts) inv' :=
    ⟨identities_of_retired hfirst.identities hspec, .of_retired hfirst.identities hspec⟩
  rw [heq]
  exact (hfirst.trans hmiddle).trans (continues_pruneRoles hmiddle.identities)

theorem continues_retireUnavailable (reason : CameraInventoryReason) :
    Continues inv (inv.retireUnavailable reason) := by
  have hretire := continues_retireTopologies hids (Std.ExtTreeSet.ofList inv.active.keys)
  exact hretire.trans (continues_markUnavailable hretire.identities reason)

theorem continues_committed {observations : List CameraObservation}
    {incoming : TextMap CameraObservation} {m : Merge} (h : Census inv observations incoming m)
    (now : Nat) : Continues inv (inv.committed m now) := by
  obtain ⟨noted, hspec⟩ := h.spec hids
  have hactive : (inv.committed m now).active = m.active := by
    simp only [committed, pruneRoles_active]
    split <;> simp
  have hretired : (inv.committed m now).retiredInstanceIds = m.retired := by
    simp only [committed, pruneRoles_retired]
    split <;> simp
  refine ⟨?_, .of_merge hspec hactive hretired⟩
  rw [hactive, hretired]
  exact hspec.identities

theorem continues_drawn (drawn : Nat) : Continues inv { inv with drawn := drawn } :=
  continues_of_same hids rfl rfl fun _ => id

theorem continues_step (op : Op) : Continues inv (inv.step op) := by
  cases op with
  | reconcileGuarded observations quiet now =>
    rcases inv.reconcile_cases observations quiet now with ⟨e, drawn, h⟩ | ⟨incoming, m, hc, h⟩
    · rw [step, h]
      exact continues_drawn hids drawn
    · rw [step, h]
      split
      · exact continues_committed hids hc now
      · exact continues_drawn hids m.drawn
  | invalidateAll => exact continues_invalidateAll hids
  | invalidateTopologies topologies => exact continues_invalidateTopologies hids topologies
  | retireTopologies topologies => exact continues_retireTopologies hids topologies
  | markUnavailable reason => exact continues_markUnavailable hids reason
  | retireUnavailable reason => exact continues_retireUnavailable hids reason
  | recordRoles before classified => exact continues_of_same hids rfl rfl fun _ => id

/-- **The run lemma.** -/
theorem continues_after (ops : List Op) : Continues inv (inv.after ops) := by
  induction ops generalizing inv with
  | nil => exact ⟨hids, .refl inv⟩
  | cons op ops ih =>
    have hop := continues_step hids op
    exact hop.trans (ih hop.identities)

end Steps

theorem identities_new (source generate : Nat → CameraInstanceId) :
    Identities (new source generate).active (new source generate).retiredInstanceIds := by
  have hempty : ∀ {k : Text} {e : InventoryEntry}, (new source generate).active[k]? ≠ some e := by
    intro k e he
    simp [new] at he
  exact ⟨fun he => absurd he hempty, fun he => absurd he hempty, fun he => absurd he hempty,
    fun he => absurd he hempty⟩

/-! ## The theorems -/

theorem Continues.same_topology (h : Continues inv inv') {k l : Text}
    {e f : InventoryEntry} (he : inv.active[k]? = some e) (hf : inv'.active[l]? = some f)
    (heq : e.instanceId = f.instanceId) : k = l := by
  cases h.later.fate he with
  | retired hr => exact absurd (heq ▸ hr) (h.identities.live hf)
  | kept he' _ => exact h.identities.distinct he' hf heq
  | renumbered g hg hid _ => exact h.identities.distinct hg hf (hid.trans heq)

theorem Continues.valid_between
    (h : Continues inv₁ inv₂) (h' : Continues inv₂ inv₃) (h₁ : inv₁.validateReference r = .ok ())
    (h₃ : inv₃.validateReference r = .ok ()) : inv₂.validateReference r = .ok () := by
  rw [validateReference_ok_iff] at h₁ h₃ ⊢
  obtain ⟨e, he, her, -⟩ := h₁
  obtain ⟨g, hg, hgr, hclear⟩ := h₃
  have hdesc : e.descriptor = g.descriptor :=
    congrArg CameraInventoryRef.descriptor (her.trans hgr.symm)
  have hid : e.instanceId = g.instanceId := congrArg CameraDescriptor.cameraInstanceId hdesc
  have hgen : e.generation = g.generation := congrArg CameraDescriptor.generation hdesc
  have hlive : e.instanceId ∉ inv₃.retiredInstanceIds := by
    rw [hid]
    exact h'.identities.live hg
  -- a camera that was renumbered on the way has a greater generation than the reference names
  have hsame : ∀ {f : InventoryEntry}, inv₃.active[r.descriptor.physicalId.topologyPath]? = some f →
      ¬e.generation.get < f.generation.get := by
    intro f hf hlt
    obtain rfl : f = g := Option.some.inj (hf.symm.trans hg)
    rw [hgen] at hlt
    exact lt_irrefl _ hlt
  cases h.later.fate he with
  | retired hr => exact absurd (h'.later.retired hr) hlive
  | kept he₂ _ =>
    refine ⟨e, he₂, her, ?_⟩
    cases h'.later.fate he₂ with
    | retired hr => exact absurd hr hlive
    | kept he₃ hdoubt =>
      obtain rfl : e = g := Option.some.inj (he₃.symm.trans hg)
      rw [← Bool.not_eq_true]
      intro hdoubted
      rw [hdoubt hdoubted] at hclear
      cases hclear
    | renumbered f hf _ hlt => exact absurd hlt (hsame hf)
  | renumbered f hf hfid hlt =>
    cases h'.later.fate hf with
    | retired hr => exact absurd (hfid ▸ hr) hlive
    | kept hf₃ _ => exact absurd hlt (hsame hf₃)
    | renumbered f' hf' _ hlt' => exact absurd (hlt.trans hlt') (hsame hf')

theorem HandedOut.valid
    (hids : Identities inv.active inv.retiredInstanceIds) (h : inv.HandedOut r) :
    inv.validateReference r = .ok () := by
  obtain ⟨k, e, he, hclear, rfl⟩ := h.entry
  refine validateReference_ok_iff.2 ⟨e, ?_, rfl, hclear⟩
  rwa [InventoryEntry.reference, hids.descriptor_topology he]

theorem Continues.not_given_again (h : Continues inv₁ inv₂)
    (h' : Continues inv₂ inv₃) {k : Text} (he : inv₁.active[k]? = some e)
    (hgone : ∀ (l : Text) (f : InventoryEntry), inv₂.active[l]? = some f →
      f.instanceId ≠ e.instanceId)
    (l : Text) (f : InventoryEntry) (hf : inv₃.active[l]? = some f) :
    f.instanceId ≠ e.instanceId := by
  intro heq
  cases h.later.fate he with
  | retired hr => exact h'.identities.live hf (heq ▸ h'.later.retired hr)
  | kept he₂ _ => exact hgone k e he₂ rfl
  | renumbered g hg hid _ => exact hgone k g hg hid

/-- What callers can see of an inventory, apart from the roles. -/
structure SameView (inv inv' : CameraInventory) : Prop where
  verdict : ∀ r, inv'.validateReference r = inv.validateReference r
  descriptors : inv'.activeDescriptors = inv.activeDescriptors
  state : inv'.publicationState = inv.publicationState
  reason : inv'.publicationReason = inv.publicationReason
  supervisor : inv'.supervisorId = inv.supervisorId
  revision : inv'.revision = inv.revision

theorem sameView_of_not_committed {observations : List CameraObservation}
    {quiet : Bool} {now : Nat} (h : ∀ events, (inv.reconcile observations quiet now).1 ≠ .ok (events, true)) :
    SameView inv (inv.reconcile observations quiet now).2 := by
  rcases inv.reconcile_cases observations quiet now with ⟨e, drawn, heq⟩ | ⟨incoming, m, -, heq⟩
  · rw [heq]
    exact ⟨fun _ => rfl, rfl, rfl, rfl, rfl, rfl⟩
  · cases quiet with
    | true => exact absurd (by rw [heq, if_pos rfl]) (h (sortedEvents m))
    | false =>
      rw [heq, if_neg (by simp)]
      exact ⟨fun _ => rfl, rfl, rfl, rfl, rfl, rfl⟩

/-- **A lost camera reference never comes back.** -/
theorem lost_reference_stays_lost (source generate : Nat → CameraInstanceId)
    (earlier between later : List Op) :
    let inv₁ := (new source generate).after earlier
    let inv₂ := inv₁.after between
    let inv₃ := inv₂.after later
    (∀ r, inv₁.HandedOut r → inv₂.validateReference r ≠ .ok () → inv₃.validateReference r ≠ .ok ()) ∧
    (∀ (k l : Text) (e f : InventoryEntry), inv₁.active[k]? = some e → inv₂.active[l]? = some f →
      e.instanceId = f.instanceId → k = l) ∧
    (∀ (k : Text) (e : InventoryEntry), inv₁.active[k]? = some e →
      (∀ (l : Text) (f : InventoryEntry), inv₂.active[l]? = some f → f.instanceId ≠ e.instanceId) →
      ∀ (l : Text) (f : InventoryEntry), inv₃.active[l]? = some f → f.instanceId ≠ e.instanceId) ∧
    ∀ observations quiet now,
      (∀ events, (inv₁.reconcile observations quiet now).1 ≠ .ok (events, true)) →
        SameView inv₁ (inv₁.reconcile observations quiet now).2 := by
  intro inv₁ inv₂ inv₃
  have h₁ : Continues (new source generate) inv₁ := continues_after (identities_new _ _) earlier
  have h₂ : Continues inv₁ inv₂ := continues_after h₁.identities between
  have h₃ : Continues inv₂ inv₃ := continues_after h₂.identities later
  refine ⟨fun r hout hlost hback => hlost ?_, fun k l e f => h₂.same_topology,
    fun k e he hgone => h₂.not_given_again h₃ he hgone,
    fun observations quiet now => sameView_of_not_committed⟩
  exact h₂.valid_between h₃ (hout.valid h₁.identities) hback

/-! ## A sample camera -/

def sampleIds (n : Nat) : CameraInstanceId :=
  if n % 3 = 0 then ⟨List.replicate 32 '1', by decide⟩
  else if n % 3 = 1 then ⟨List.replicate 32 '2', by decide⟩
  else ⟨List.replicate 32 '3', by decide⟩

def sampleCamera (topology node : Text) : CameraObservation where
  physicalId := ⟨topology, none⟩
  endpointPaths := [node]

/-- A camera that is found again after a doubt does not validate the reference given out before. -/
theorem lost_reference_stays_lost_sample :
    let census := Op.reconcileGuarded [sampleCamera "/devices/a" "/dev/video0"] true 0
    (((new sampleIds sampleIds).after [census]).after [.invalidateAll]).after [census]
        |>.validateReference
          ((sampleCamera "/devices/a" "/dev/video0").entry (sampleIds 0) .initial).reference ≠ .ok () :=
  (lost_reference_stays_lost sampleIds sampleIds
      [.reconcileGuarded [sampleCamera "/devices/a" "/dev/video0"] true 0] [.invalidateAll]
      [.reconcileGuarded [sampleCamera "/devices/a" "/dev/video0"] true 0]).1 _
    (.inl (by decide)) (by decide)

end CameraInventory

end Irlume.Inventory

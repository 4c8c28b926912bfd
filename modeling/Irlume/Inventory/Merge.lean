import Irlume.Inventory.State

/-!
# What a reconciliation does

`mergeTopology` handles one topology, and the loop runs through the union of two maps while identifiers are
minted and retired. Whatever else is said about reconciliation follows from `merged_spec`.
-/

namespace Irlume.Inventory

open Irlume.Lib

/-! ## Identities -/

/-- The entries stand under their own topology with a descriptor made from their observation, and
no identity is held twice or is also retired. -/
structure Identities (active : TextMap InventoryEntry) (retired : Finset CameraInstanceId) : Prop where
  entry : ∀ {k : Text} {e : InventoryEntry}, active[k]? = some e → e = e.observation.entry e.instanceId e.generation
  topology : ∀ {k : Text} {e : InventoryEntry}, active[k]? = some e → e.observation.topologyPath = k
  distinct : ∀ {k l : Text} {e f : InventoryEntry}, active[k]? = some e → active[l]? = some f →
    e.instanceId = f.instanceId → k = l
  live : ∀ {k : Text} {e : InventoryEntry}, active[k]? = some e → e.instanceId ∉ retired

namespace Identities

variable {active : TextMap InventoryEntry} {retired : Finset CameraInstanceId}

variable (h : Identities active retired)

include h

theorem descriptor_topology {k : Text} {e : InventoryEntry}
    (he : active[k]? = some e) : e.descriptor.physicalId.topologyPath = k := by
  rw [h.entry he]
  exact h.topology he

theorem erase {k : Text} {e : InventoryEntry}
    (he : active[k]? = some e) :
    Identities (active.erase k) (insert e.instanceId retired) := by
  have hold : ∀ {l : Text} {f : InventoryEntry}, (active.erase k)[l]? = some f → l ≠ k ∧ active[l]? = some f := by
    intro l f hf
    by_cases hlk : l = k
    · rw [hlk, Std.ExtTreeMap.getElem?_erase_self] at hf
      cases hf
    · rw [getElem?_erase_of_ne hlk] at hf
      exact ⟨hlk, hf⟩
  refine ⟨fun hf => h.entry (hold hf).2, fun hf => h.topology (hold hf).2,
    fun hf hg => h.distinct (hold hf).2 (hold hg).2, ?_⟩
  intro l f hf hmem
  rcases Finset.mem_insert.1 hmem with heq | hmem
  · exact (hold hf).1 (h.distinct (hold hf).2 he heq)
  · exact h.live (hold hf).2 hmem

theorem insert {retired' : Finset CameraInstanceId} {k : Text}
    {o : CameraObservation} {id : CameraInstanceId} {g : CameraGeneration} (ho : o.topologyPath = k)
    (hid : id ∉ retired')
    (hothers : ∀ {l : Text} {f : InventoryEntry}, l ≠ k → active[l]? = some f → f.instanceId ≠ id ∧ f.instanceId ∉ retired') :
    Identities (active.insert k (o.entry id g)) retired' := by
  have hold : ∀ {l : Text} {f : InventoryEntry}, (active.insert k (o.entry id g))[l]? = some f →
      l = k ∧ f = o.entry id g ∨ l ≠ k ∧ active[l]? = some f := by
    intro l f hf
    by_cases hlk : l = k
    · rw [hlk, Std.ExtTreeMap.getElem?_insert_self, Option.some.injEq] at hf
      exact .inl ⟨hlk, hf.symm⟩
    · rw [getElem?_insert_of_ne hlk] at hf
      exact .inr ⟨hlk, hf⟩
  refine ⟨?_, ?_, ?_, ?_⟩
  · intro l f hf
    rcases hold hf with ⟨-, rfl⟩ | ⟨-, hf⟩
    · rfl
    · exact h.entry hf
  · intro l f hf
    rcases hold hf with ⟨rfl, rfl⟩ | ⟨-, hf⟩
    · exact ho
    · exact h.topology hf
  · intro l l' f f' hf hf' heq
    rcases hold hf with ⟨hl, rfl⟩ | ⟨hl, hold₁⟩ <;> rcases hold hf' with ⟨hl', rfl⟩ | ⟨hl', hold₂⟩
    · rw [hl, hl']
    · exact absurd heq.symm (hothers hl' hold₂).1
    · exact absurd heq (hothers hl hold₁).1
    · exact h.distinct hold₁ hold₂ heq
  · intro l f hf
    rcases hold hf with ⟨-, rfl⟩ | ⟨hne, hf⟩
    · exact hid
    · exact (hothers hne hf).2

end Identities

namespace CameraInventory

/-- No camera has the identity and none ever gave it up. -/
structure Unused (inv : CameraInventory) (id : CameraInstanceId) : Prop where
  notActive : ∀ {k : Text} {e : InventoryEntry}, inv.active[k]? = some e → e.instanceId ≠ id
  notRetired : id ∉ inv.retiredInstanceIds

theorem mintUniqueInstanceId_some {source : Nat → CameraInstanceId} {active : TextMap InventoryEntry}
    {retired : Finset CameraInstanceId} {attempts drawn drawn' : Nat} {id : CameraInstanceId}
    (h : mintUniqueInstanceId source active retired attempts drawn = (some id, drawn')) :
    (∀ {k : Text} {e : InventoryEntry}, active[k]? = some e → e.instanceId ≠ id) ∧ id ∉ retired := by
  induction attempts generalizing drawn with
  | zero => cases h
  | succ attempts ih =>
    rw [mintUniqueInstanceId] at h
    split at h
    · exact ih h
    · next hfree =>
      cases h
      simp only [Bool.or_eq_true, List.any_eq_true, decide_eq_true_eq, not_or, not_exists,
        not_and] at hfree
      exact ⟨fun he => hfree.1 _ (mem_values.2 ⟨_, he⟩), hfree.2⟩

/-! ## One topology -/

/-- What becomes of one topology: the entry before, the observation of it, the entry after and the
event that is noted. `retired` are the identities retired by then. -/
inductive Settles (inv : CameraInventory) (retired : Finset CameraInstanceId) :
    Option InventoryEntry → Option CameraObservation → Option InventoryEntry →
      Option CameraInventoryEvent → Prop where
  | absent : Settles inv retired none none none none
  | removed (p : InventoryEntry) : p.instanceId ∈ retired →
      Settles inv retired (some p) none none (some (.removed p.descriptor))
  | added (o : CameraObservation) (id : CameraInstanceId) : inv.Unused id →
      Settles inv retired none (some o) (some (o.entry id .initial))
        (some (.added (o.entry id .initial).descriptor))
  | kept (p : InventoryEntry) : inv.invalidated p = false →
      Settles inv retired (some p) (some p.observation) (some p) none
  | advanced (p : InventoryEntry) (o : CameraObservation) (g : CameraGeneration) :
      (p.observation = o → inv.invalidated p = true) → p.generation.next = some g →
      Settles inv retired (some p) (some o) (some (o.entry p.instanceId g))
        (some (.changed p.descriptor (o.entry p.instanceId g).descriptor))
  | renewed (p : InventoryEntry) (o : CameraObservation) (id : CameraInstanceId) :
      (p.observation = o → inv.invalidated p = true) → p.generation.next = none →
      p.instanceId ∈ retired → inv.Unused id →
      Settles inv retired (some p) (some o) (some (o.entry id .initial))
        (some (.changed p.descriptor (o.entry id .initial).descriptor))

variable {inv : CameraInventory}

theorem Settles.mono {retired retired' : Finset CameraInstanceId}
    {p : Option InventoryEntry} {o : Option CameraObservation} {p' : Option InventoryEntry}
    {event : Option CameraInventoryEvent} (hsub : retired ⊆ retired')
    (h : Settles inv retired p o p' event) : Settles inv retired' p o p' event := by
  cases h with
  | absent => exact .absent
  | removed p hp => exact .removed p (hsub hp)
  | added o id hid => exact .added o id hid
  | kept p hp => exact .kept p hp
  | advanced p o g hwhy hnext => exact .advanced p o g hwhy hnext
  | renewed p o id hwhy hnext hp hid => exact .renewed p o id hwhy hnext (hsub hp) hid

/-- The state of the loop when the topologies `done` have been handled. -/
structure MergeInv (inv : CameraInventory) (incoming : TextMap CameraObservation) (done : List Text)
    (noted : Text → Option CameraInventoryEvent) (m : Merge) : Prop where
  identities : Identities m.active m.retired
  retired : inv.retiredInstanceIds ⊆ m.retired
  todo : ∀ k ∉ done, m.active[k]? = inv.active[k]?
  settled : ∀ k ∈ done, Settles inv m.retired inv.active[k]? incoming[k]? m.active[k]? (noted k)
  events : m.events = done.filterMap noted
  topology : ∀ k ∈ done, ∀ event, noted k = some event → event.topologyPath = k

namespace MergeInv

variable {inv : CameraInventory} {incoming : TextMap CameraObservation} {done : List Text}
  {noted : Text → Option CameraInventoryEvent} {m m' : Merge} {key : Text}

variable (h : MergeInv inv incoming done noted m)

include h

theorem held_or_retired {k : Text} {e : InventoryEntry}
    (he : inv.active[k]? = some e) :
    (∃ f, m.active[k]? = some f ∧ f.instanceId = e.instanceId) ∨ e.instanceId ∈ m.retired := by
  by_cases hk : k ∈ done
  · have hset := h.settled k hk
    rw [he] at hset
    generalize incoming[k]? = o, m.active[k]? = p', noted k = event at hset
    cases hset with
    | removed _ hretired => exact .inr hretired
    | kept _ _ => exact .inl ⟨e, rfl, rfl⟩
    | advanced _ o g _ _ => exact .inl ⟨_, rfl, rfl⟩
    | renewed _ _ _ _ _ hretired _ => exact .inr hretired
  · exact .inl ⟨e, by rw [h.todo k hk, he], rfl⟩

theorem unused {retired : Finset CameraInstanceId}
    {id : CameraInstanceId} (hsub : m.retired ⊆ retired)
    (hactive : ∀ {k : Text} {e : InventoryEntry}, m.active[k]? = some e → e.instanceId ≠ id) (hretired : id ∉ retired) :
    inv.Unused id := by
  refine ⟨?_, fun hmem => hretired (hsub (h.retired hmem))⟩
  rintro k e he rfl
  rcases h.held_or_retired he with ⟨f, hf, heq⟩ | hmem
  · exact hactive hf heq
  · exact hretired (hsub hmem)

theorem step (hkey : key ∉ done)
    {event : Option CameraInventoryEvent} (hids : Identities m'.active m'.retired)
    (hretired : m.retired ⊆ m'.retired) (hothers : ∀ k ≠ key, m'.active[k]? = m.active[k]?)
    (hsettled : Settles inv m'.retired inv.active[key]? incoming[key]? m'.active[key]? event)
    (hevents : m'.events = m.events ++ event.toList)
    (htopology : ∀ e, event = some e → e.topologyPath = key) :
    MergeInv inv incoming (done ++ [key]) (Function.update noted key event) m' where
  identities := hids
  retired := h.retired.trans hretired
  todo := by
    intro k hk
    rw [List.mem_append, List.mem_singleton, not_or] at hk
    rw [hothers k hk.2, h.todo k hk.1]
  settled := by
    intro k hk
    by_cases heq : k = key
    · subst heq
      rw [Function.update_self]
      exact hsettled
    · rw [Function.update_of_ne heq, hothers k heq]
      rw [List.mem_append, List.mem_singleton] at hk
      exact (h.settled k (hk.resolve_right heq)).mono hretired
  events := by
    have hdone : done.filterMap (Function.update noted key event) = done.filterMap noted := by
      apply List.filterMap_congr
      intro k hk
      rw [Function.update_of_ne]
      rintro rfl
      exact hkey hk
    rw [hevents, h.events, List.filterMap_append, hdone]
    cases event <;> simp
  topology := by
    intro k hk e he
    by_cases heq : k = key
    · subst heq
      rw [Function.update_self] at he
      exact htopology e he
    · rw [Function.update_of_ne heq] at he
      rw [List.mem_append, List.mem_singleton] at hk
      exact h.topology k (hk.resolve_right heq) e he

theorem mergeTopology (hkey : key ∉ done)
    (hincoming : ∀ o, incoming[key]? = some o → o.topologyPath = key)
    (hok : inv.mergeTopology incoming m key = .ok m') :
    ∃ event, MergeInv inv incoming (done ++ [key]) (Function.update noted key event) m' := by
  have hold : m.active[key]? = inv.active[key]? := h.todo key hkey
  rw [CameraInventory.mergeTopology] at hok
  split at hok
  · -- the camera is gone
    next p hp ho =>
    cases hok
    refine ⟨some (.removed p.descriptor), h.step hkey (h.identities.erase hp)
      (Finset.subset_insert _ _) (fun k hk => getElem?_erase_of_ne hk) ?_ rfl ?_⟩
    · simp only [Merge.remove, Std.ExtTreeMap.getElem?_erase_self, ← hold, hp, ho]
      exact .removed p (Finset.mem_insert_self _ _)
    · rintro e ⟨⟩
      exact h.identities.descriptor_topology hp
  · -- a camera where there was none
    next o hp ho =>
    split at hok
    · cases hok
    · next id drawn hmint =>
      cases hok
      obtain ⟨hactive, hretired⟩ := mintUniqueInstanceId_some hmint
      refine ⟨some (.added (o.entry id .initial).descriptor), h.step hkey ?_ (Finset.Subset.refl _)
        (fun k hk => getElem?_insert_of_ne hk) ?_ rfl ?_⟩
      · exact h.identities.insert (hincoming o ho) hretired
          fun _ hf => ⟨hactive hf, h.identities.live hf⟩
      · simp only [Merge.add, Std.ExtTreeMap.getElem?_insert_self, ← hold, hp, ho]
        exact .added o id (h.unused (Finset.Subset.refl _) hactive hretired)
      · rintro e ⟨⟩
        exact hincoming o ho
  · -- a camera that is still there
    next p o hp ho =>
    have hothers : ∀ {l : Text} {f : InventoryEntry}, l ≠ key → m.active[l]? = some f →
        f.instanceId ≠ p.instanceId := by
      intro l f hne hf heq
      exact hne (h.identities.distinct hf hp heq)
    split at hok
    · next hsame =>
      cases hok
      refine ⟨none, h.step hkey h.identities (Finset.Subset.refl _) (fun _ _ => rfl) ?_
        (List.append_nil _).symm (by rintro e ⟨⟩)⟩
      rw [← hold, hp, ho, ← hsame.1]
      exact .kept p hsame.2
    · next hchanged =>
      have hwhy : p.observation = o → inv.invalidated p = true := by
        intro heq
        rw [← Bool.not_eq_false]
        exact fun hinv => hchanged ⟨heq, hinv⟩
      split at hok
      · next g hnext =>
        cases hok
        refine ⟨some (.changed p.descriptor (o.entry p.instanceId g).descriptor),
          h.step hkey ?_ (Finset.Subset.refl _) (fun k hk => getElem?_insert_of_ne hk) ?_ rfl ?_⟩
        · exact h.identities.insert (hincoming o ho) (h.identities.live hp)
            fun hne hf => ⟨hothers hne hf, h.identities.live hf⟩
        · simp only [Merge.change, Std.ExtTreeMap.getElem?_insert_self, ← hold, hp, ho]
          exact .advanced p o g hwhy hnext
        · rintro e ⟨⟩
          exact hincoming o ho
      · next hnext =>
        dsimp only at hok
        split at hok
        · cases hok
        · next id drawn hmint =>
          cases hok
          obtain ⟨hactive, hretired⟩ := mintUniqueInstanceId_some hmint
          refine ⟨some (.changed p.descriptor (o.entry id .initial).descriptor),
            h.step hkey ?_ (Finset.subset_insert _ _) (fun k hk => getElem?_insert_of_ne hk) ?_ rfl ?_⟩
          · refine h.identities.insert (hincoming o ho) hretired fun hne hf => ⟨hactive hf, ?_⟩
            intro hmem
            rcases Finset.mem_insert.1 hmem with heq | hmem
            · exact hothers hne hf heq
            · exact h.identities.live hf hmem
          · simp only [Merge.change, Std.ExtTreeMap.getElem?_insert_self, ← hold, hp, ho]
            exact .renewed p o id hwhy hnext (Finset.mem_insert_self _ _)
              (h.unused (Finset.subset_insert _ _) hactive hretired)
          · rintro e ⟨⟩
            exact hincoming o ho
  · next hp ho =>
    cases hok
    refine ⟨none, h.step hkey h.identities (Finset.Subset.refl _) (fun _ _ => rfl) ?_
      (List.append_nil _).symm (by rintro e ⟨⟩)⟩
    rw [← hold, hp, ho]
    exact .absent

end MergeInv

/-! ## All topologies -/

variable {incoming : TextMap CameraObservation}

theorem mem_mergeKeys {k : Text} :
    k ∈ inv.mergeKeys incoming ↔ k ∈ inv.active ∨ k ∈ incoming := by
  rw [mergeKeys, Std.ExtTreeSet.mem_toList, Std.ExtTreeSet.mem_ofList, List.contains_iff_mem,
    List.mem_append, Std.ExtTreeMap.mem_keys, Std.ExtTreeMap.mem_keys]

theorem nodup_mergeKeys :
    (inv.mergeKeys incoming).Nodup := by
  rw [mergeKeys]
  exact nodup_toList

theorem MergeInv.of_not_mem {noted : Text → Option CameraInventoryEvent} {m : Merge} {k : Text}
    (h : MergeInv inv incoming (inv.mergeKeys incoming) noted m) (hk : k ∉ inv.mergeKeys incoming) :
    inv.active[k]? = none ∧ incoming[k]? = none ∧ m.active[k]? = none := by
  have hout := hk
  rw [mem_mergeKeys, not_or] at hout
  have hactive : inv.active[k]? = none := getElem?_neg _ _ hout.1
  exact ⟨hactive, getElem?_neg _ _ hout.2, by rw [h.todo k hk, hactive]⟩

/-- What a finished merge has done, topology by topology. -/
structure MergeSpec (inv : CameraInventory) (incoming : TextMap CameraObservation) (m : Merge)
    (noted : Text → Option CameraInventoryEvent) : Prop where
  identities : Identities m.active m.retired
  retired : inv.retiredInstanceIds ⊆ m.retired
  settled : ∀ k : Text, Settles inv m.retired inv.active[k]? incoming[k]? m.active[k]? (noted k)
  events : m.events = (inv.mergeKeys incoming).filterMap noted
  topology : ∀ k event, noted k = some event → event.topologyPath = k

theorem merged_loop
    (hincoming : ∀ (k : Text) (o : CameraObservation), incoming[k]? = some o → o.topologyPath = k)
    {keys done : List Text} {noted : Text → Option CameraInventoryEvent} {m m' : Merge}
    (hnodup : (done ++ keys).Nodup) (h : MergeInv inv incoming done noted m)
    (hfold : keys.foldlM (inv.mergeTopology incoming) m = .ok m') :
    ∃ noted', MergeInv inv incoming (done ++ keys) noted' m' := by
  induction keys generalizing done noted m with
  | nil =>
    cases hfold
    exact ⟨noted, by rwa [List.append_nil]⟩
  | cons key keys ih =>
    rw [List.foldlM_cons] at hfold
    obtain ⟨m₁, hm₁, hfold⟩ := bind_ok_iff.1 hfold
    have hkey : key ∉ done := fun hmem =>
      (List.nodup_append.1 hnodup).2.2 key hmem key List.mem_cons_self rfl
    obtain ⟨event, h₁⟩ := h.mergeTopology hkey (hincoming key) hm₁
    have hassoc : done ++ key :: keys = done ++ [key] ++ keys := by simp
    rw [hassoc] at hnodup ⊢
    exact ih hnodup h₁ hfold

/-- **A finished merge** has settled every topology, no two entries share an identity, and the events it noted
are in the order of their topologies. -/
theorem merged_spec {m : Merge}
    (hids : Identities inv.active inv.retiredInstanceIds)
    (hincoming : ∀ (k : Text) (o : CameraObservation), incoming[k]? = some o → o.topologyPath = k)
    (h : inv.merged incoming = .ok m) : ∃ noted, MergeSpec inv incoming m noted := by
  have hstart : MergeInv inv incoming [] (fun _ => none)
      ⟨inv.active, inv.tombstones, inv.retiredInstanceIds, inv.drawn, []⟩ :=
    ⟨hids, Finset.Subset.refl _, fun _ _ => rfl, by simp, rfl, by simp⟩
  have hnodup : ([] ++ inv.mergeKeys incoming).Nodup := nodup_mergeKeys
  obtain ⟨noted, hend⟩ := merged_loop hincoming hnodup hstart h
  rw [List.nil_append] at hend
  refine ⟨fun k => if k ∈ inv.mergeKeys incoming then noted k else none, hend.identities,
    hend.retired, ?_, ?_, ?_⟩
  · intro k
    split
    · next hk => exact hend.settled k hk
    · next hk =>
      obtain ⟨hold, ho, hnew⟩ := hend.of_not_mem hk
      rw [hold, ho, hnew]
      exact .absent
  · rw [hend.events]
    apply List.filterMap_congr
    intro k hk
    rw [if_pos hk]
  · intro k event hevent
    split at hevent
    · next hk => exact hend.topology k hk event hevent
    · cases hevent

/-! ## The observations -/

theorem incomingByTopology_spec {observations : List CameraObservation}
    (h : incomingByTopology observations = .ok incoming)
    {k : Text} {o : CameraObservation} :
    incoming[k]? = some o ↔ o ∈ observations ∧ o.topologyPath = k := by
  have hloop : ∀ (observations : List CameraObservation) (acc incoming : TextMap CameraObservation),
      observations.foldlM (m := Except CameraInventoryError)
        (fun incoming o =>
          if o.topologyPath ∈ incoming then .error (.duplicateObservation o.topologyPath)
          else .ok (incoming.insert o.topologyPath o)) acc = .ok incoming →
      ∀ k o, incoming[k]? = some o ↔ acc[k]? = some o ∨ o ∈ observations ∧ o.topologyPath = k := by
    intro observations
    induction observations with
    | nil =>
      intro acc incoming hfold k o
      cases hfold
      simp
    | cons p observations ih =>
      intro acc incoming hfold k o
      rw [List.foldlM_cons] at hfold
      obtain ⟨acc₁, hacc, hfold⟩ := bind_ok_iff.1 hfold
      split at hacc
      · cases hacc
      · next hfree =>
        cases hacc
        rw [ih _ _ hfold]
        by_cases hk : k = p.topologyPath
        · subst hk
          have hnone : acc[p.topologyPath]? = none := getElem?_neg _ _ hfree
          rw [Std.ExtTreeMap.getElem?_insert_self, hnone]
          constructor
          · rintro (heq | ⟨hmem, htop⟩)
            · cases heq
              exact .inr ⟨List.mem_cons_self, rfl⟩
            · exact .inr ⟨List.mem_cons_of_mem _ hmem, htop⟩
          · rintro (heq | ⟨hmem, htop⟩)
            · cases heq
            · rcases List.mem_cons.1 hmem with rfl | hmem
              · exact .inl rfl
              · exact .inr ⟨hmem, htop⟩
        · rw [getElem?_insert_of_ne hk]
          apply or_congr_right
          apply and_congr_left
          intro htop
          have hne : o ≠ p := by
            rintro rfl
            exact hk htop.symm
          simp [hne]
  rw [hloop _ _ _ h]
  simp

end CameraInventory

end Irlume.Inventory

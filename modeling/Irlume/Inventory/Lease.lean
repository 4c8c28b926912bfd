import Irlume.Inventory.Offers

/-!
# Every offered pair can be leased

The views resolve pairs from candidates, roles and locations; the lease side proves them again from the snapshot
and the classified endpoints. Over a complete publication both sides read the same facts.
-/

namespace Irlume.Inventory

open Irlume.Lib Irlume.Split

/-! ## A current snapshot -/

/-- What `validateCandidates` has checked. -/
structure CandidatesSound (cs : List CameraCandidate) (ids endpoints : List Text) : Prop where
  fresh : ∀ c ∈ cs, c.instanceId ∉ ids ∧ ∀ path ∈ c.endpointPaths, path ∉ endpoints
  nodup : ∀ c ∈ cs, c.endpointPaths.Nodup
  apart : cs.Pairwise fun c d => c.instanceId ≠ d.instanceId ∧
    ∀ path ∈ c.endpointPaths, path ∉ d.endpointPaths

theorem CameraCandidate.nodup_of_validate {c : CameraCandidate} (h : c.validate = .ok ()) :
    c.endpointPaths.Nodup := by
  rw [CameraCandidate.validate] at h
  split at h
  · cases h
  split at h
  · cases h
  split at h
  · next hpaths =>
    rw [Bool.and_eq_true] at hpaths
    exact of_decide_eq_true hpaths.2
  · cases h

theorem candidatesSound_of_validate {cs : List CameraCandidate} {ids endpoints : List Text}
    (h : validateCandidates cs ids endpoints = .ok ()) : CandidatesSound cs ids endpoints := by
  induction cs generalizing ids endpoints with
  | nil => exact ⟨by simp, by simp, .nil⟩
  | cons c cs ih =>
    rw [validateCandidates, bind_ok_iff] at h
    obtain ⟨_, hc, h⟩ := h
    split at h
    · cases h
    next hfresh =>
    rw [not_or, Bool.not_eq_true, List.any_eq_false] at hfresh
    obtain ⟨hids, hendpoints⟩ := hfresh
    obtain ⟨hrest, hnodup, hapart⟩ := ih h
    refine ⟨?_, ?_, ?_⟩
    · rw [List.forall_mem_cons]
      refine ⟨⟨hids, fun path hpath => by simpa using hendpoints path hpath⟩, fun d hd => ?_⟩
      obtain ⟨hid, hpaths⟩ := hrest d hd
      refine ⟨fun hmem => hid (List.mem_cons_of_mem _ hmem), fun path hpath hmem => ?_⟩
      exact hpaths path hpath (List.mem_append_right _ hmem)
    · rw [List.forall_mem_cons]
      exact ⟨CameraCandidate.nodup_of_validate hc, hnodup⟩
    · refine List.pairwise_cons.2 ⟨fun d hd => ?_, hapart⟩
      obtain ⟨hid, hpaths⟩ := hrest d hd
      refine ⟨fun heq => hid (heq ▸ List.mem_cons_self), fun path hpath hmem => ?_⟩
      exact hpaths path hmem (List.mem_append_left _ hpath)

theorem boundedCandidates_eq {es : List InventoryEntry} {found cs : List CameraCandidate}
    (h : boundedCandidates es found = some cs) : cs = found ++ es.map InventoryEntry.candidate := by
  induction es generalizing found with
  | nil =>
    cases h
    simp
  | cons e es ih =>
    rw [boundedCandidates] at h
    split at h
    · cases h
    split at h
    · rw [ih h, List.append_assoc, List.map_cons, List.singleton_append]
    · cases h

theorem bounded_of_state {s : CameraInventorySnapshot} (h : s.bounded.state ≠ .unavailable) :
    s.validate = .ok () ∧ s.bounded = s := by
  rw [CameraInventorySnapshot.bounded] at h ⊢
  split at h
  · next hvalid => exact ⟨hvalid, if_pos hvalid⟩
  · exact absurd rfl h

namespace CameraInventory

/-- What a current snapshot says of the inventory: every camera is published, and no endpoint belongs to two of
them. -/
structure Complete (inv : CameraInventory) (s : CameraInventorySnapshot) : Prop where
  state : inv.publicationState = .current
  snapshotState : s.state = .current
  valid : s.validate = .ok ()
  candidates : s.candidates = inv.publishedEntries.map InventoryEntry.candidate

variable {inv : CameraInventory}

theorem complete_of_current {now : Nat}
    (h : (inv.snapshot now).state = .current) : inv.Complete (inv.snapshot now) := by
  have hshown : (inv.snapshot now).state ≠ .unavailable := by
    rw [h]
    decide
  by_cases hinit : inv.publicationState = .uninitialized
  · rw [snapshot, if_pos hinit] at h
    cases h
  rw [snapshot, if_neg hinit] at hshown h ⊢
  dsimp only at hshown h ⊢
  obtain ⟨hvalid, heq⟩ := bounded_of_state hshown
  rw [heq] at h ⊢
  by_cases hun : inv.publicationState = .unavailable
  · rw [if_neg (not_not.2 hun), hun] at h
    cases h
  rw [if_pos hun] at hvalid h ⊢
  cases hcs : boundedCandidates ((values inv.active).filter fun e => !inv.invalidated e) [] with
  | none =>
    rw [hcs] at h
    cases h
  | some cs =>
    rw [hcs] at hvalid h
    have hcandidates := boundedCandidates_eq hcs
    refine ⟨h, h, hvalid, ?_⟩
    rw [publishedEntries, if_pos (.inl h)]
    exact hcandidates

/-! ## Who holds an endpoint -/

/-- The facts both resolvers rest on: no two published cameras share an identity or an endpoint, and
every camera is published. -/
structure Apart (inv : CameraInventory) : Prop where
  all : inv.publishedEntries = values inv.active
  clear : ∀ e ∈ inv.publishedEntries, inv.invalidated e = false
  nodup : inv.publishedEntries.Nodup
  ids : ∀ e ∈ inv.publishedEntries, ∀ f ∈ inv.publishedEntries,
    e.instanceId.text = f.instanceId.text → e = f
  endpoints : ∀ e ∈ inv.publishedEntries, ∀ f ∈ inv.publishedEntries, ∀ path : Text,
    path ∈ e.observation.endpointPaths → path ∈ f.observation.endpointPaths → e = f

theorem Complete.apart {s : CameraInventorySnapshot} (h : inv.Complete s)
    (hsound : StateSound inv) : inv.Apart := by
  have hvalid := h.valid
  rw [CameraInventorySnapshot.validate] at hvalid
  split at hvalid
  · cases hvalid
  split at hvalid
  · cases hvalid
  obtain ⟨_, hcandidates, -⟩ := bind_ok_iff.1 hvalid
  have hapart := (candidatesSound_of_validate hcandidates).apart
  rw [h.candidates, List.pairwise_map] at hapart
  have hne : ∀ e ∈ inv.publishedEntries, ∀ f ∈ inv.publishedEntries, e ≠ f →
      e.candidate.instanceId ≠ f.candidate.instanceId ∧
        ∀ path ∈ e.candidate.endpointPaths, path ∉ f.candidate.endpointPaths := by
    have : Std.Symm fun e f : InventoryEntry => e.candidate.instanceId ≠ f.candidate.instanceId ∧
        ∀ path ∈ e.candidate.endpointPaths, path ∉ f.candidate.endpointPaths :=
      ⟨fun e f hef => ⟨hef.1.symm, fun path hf he => hef.2 path he hf⟩⟩
    exact fun e he f hf => hapart.forall he hf
  refine ⟨?_, ?_, ?_, ?_, ?_⟩
  · rw [publishedEntries, if_pos (.inl h.state), List.filter_eq_self]
    intro e _
    simp [invalidated, hsound.currentClear h.state]
  · intro e _
    simp [invalidated, hsound.currentClear h.state]
  · refine hapart.imp fun hef heq => hef.1 ?_
    rw [heq]
  · intro e he f hf heq
    by_contra hef
    exact (hne e he f hf hef).1 heq
  · intro e he f hf path hpath hpath'
    by_contra hef
    exact (hne e he f hf hef).2 path hpath hpath'

variable {e : InventoryEntry}

theorem Apart.referenceForEndpoints (h : inv.Apart)
    (he : e ∈ inv.publishedEntries) {paths : List Text} (hne : paths ≠ [])
    (hpaths : ∀ path ∈ paths, path ∈ e.observation.endpointPaths) :
    inv.referenceForEndpoints paths = .ok e.reference := by
  have hholds : ∀ f : InventoryEntry, ((Std.ExtTreeSet.ofList paths : TextSet).toList.all
      (· ∈ f.observation.endpointPaths)) = true ↔ ∀ path ∈ paths, path ∈ f.observation.endpointPaths := by
    intro f
    simp
  have honly : ((values inv.active).filter fun f => (Std.ExtTreeSet.ofList paths : TextSet).toList.all
      (· ∈ f.observation.endpointPaths)) = [e] := by
    rw [← h.all]
    refine List.perm_singleton.1 ((List.perm_ext_iff_of_nodup (h.nodup.filter _)
      (List.nodup_singleton e)).2 fun f => ?_)
    rw [List.mem_filter, hholds, List.mem_singleton]
    constructor
    · rintro ⟨hf, hheld⟩
      obtain ⟨path, hpath⟩ := List.exists_mem_of_ne_nil paths hne
      exact h.endpoints f hf e he path (hheld path hpath) (hpaths path hpath)
    · rintro rfl
      exact ⟨he, hpaths⟩
  rw [CameraInventory.referenceForEndpoints, if_neg hne]
  dsimp only
  rw [honly]
  dsimp only
  rw [h.clear e he]
  rfl

/-! ## The facts of a side -/

section Side

variable {inv : CameraInventory} {toLowercase : Text → Text} {n : CameraNode} {role : Role}
  {e : InventoryEntry}

theorem Complete.presents {s : CameraInventorySnapshot} (h : inv.Complete s)
    (hside : inv.OfferedSide toLowercase n role e) : s.presents n.expectation = true := by
  rw [CameraInventorySnapshot.presents, h.candidates, List.any_map, List.any_eq_true]
  refine ⟨e, hside.published, decide_eq_true ⟨hside.instanceId.symm, hside.generation.symm, ?_⟩⟩
  exact e.mem_captures hside.capture.1

theorem OfferedSide.entryClassified (h : inv.OfferedSide toLowercase n role e) :
    inv.entryClassified toLowercase e = e.captures.filterMap fun endpoint =>
      (inv.roleOf e endpoint).map fun r =>
        ⟨n.instanceId, n.generation, endpoint, r, n.identity, n.location.controller,
          domainText n.location.domain, n.location.ports⟩ := by
  rw [CameraInventory.entryClassified, h.located, h.instanceId, h.generation, h.identity]
  dsimp only
  rw [if_neg]
  · rfl
  · rw [List.any_eq_true]
    rintro ⟨endpoint, hendpoint, hnone⟩
    exact h.classed endpoint hendpoint (of_decide_eq_true hnone)

theorem Apart.checkSide (h : inv.Apart) (hstate : inv.publicationState = .current)
    (hside : inv.OfferedSide toLowercase n role e) :
    checkSide n.expectation role (inv.classifiedEndpoints toLowercase) = .ok () := by
  obtain ⟨hcapture, hrole⟩ := hside.capture
  have hclassified : inv.classifiedEndpoints toLowercase =
      inv.publishedEntries.flatMap (inv.entryClassified toLowercase) := by
    rw [classifiedEndpoints, if_neg]
    rw [hstate]
    decide
  -- whatever is classified under the side's identity is its camera's
  have hsame : ∀ {f : InventoryEntry} {c : ClassifiedEndpoint}, f ∈ inv.publishedEntries →
      c ∈ inv.entryClassified toLowercase f → c.instanceId = n.instanceId → f = e := by
    intro f c hf hc hid
    refine h.ids f hf e hside.published ?_
    rw [← hside.instanceId, ← hid, (entryClassified_spec hc).instanceId]
  have hmem : (⟨n.instanceId, n.generation, n.path, role, n.identity, n.location.controller,
      domainText n.location.domain, n.location.ports⟩ : ClassifiedEndpoint) ∈
        inv.entryClassified toLowercase e := by
    rw [hside.entryClassified]
    exact List.mem_filterMap.2 ⟨n.path, hcapture, by rw [hrole]; rfl⟩
  have hcount : ((inv.classifiedEndpoints toLowercase).filter fun c =>
      c.instanceId = n.expectation.instanceId ∧ c.generation = n.expectation.generation ∧
        c.role = role).length = 1 := by
    rw [hclassified, filter_flatMap_of_only h.nodup hside.published]
    · have hheld : ∀ c ∈ inv.entryClassified toLowercase e, (decide (c.instanceId =
          n.expectation.instanceId ∧ c.generation = n.expectation.generation ∧ c.role = role)) =
            decide (c.role = role) := by
        intro c hc
        have hspec := entryClassified_spec hc
        simp [CameraNode.expectation, hspec.instanceId, hspec.generation, hside.instanceId,
          hside.generation]
      rw [List.filter_congr hheld, hside.entryClassified, filter_held_eq fun _ _ => rfl, hside.only]
      rfl
    · intro f hf hne
      rw [List.filter_eq_nil_iff]
      intro c hc hmatch
      exact hne (hsame hf hc (of_decide_eq_true hmatch).1)
  rw [Inventory.checkSide]
  split
  · next hnone =>
    rw [List.find?_eq_none] at hnone
    refine absurd (decide_eq_true ?_) (hnone _ (hclassified ▸ List.mem_flatMap.2 ⟨e, hside.published, hmem⟩))
    exact ⟨rfl, rfl, rfl⟩
  · next found hfound =>
    have hmatch := List.find?_some hfound
    obtain ⟨hid, hgen, hpath⟩ := of_decide_eq_true hmatch
    have hin := List.mem_of_find?_eq_some hfound
    rw [hclassified] at hin
    obtain ⟨f, hf, hc⟩ := List.mem_flatMap.1 hin
    obtain rfl := hsame hf hc hid
    have hspec := entryClassified_spec hc
    obtain ⟨location, hlocation, hcontroller, hdomain, hports⟩ := hspec.location
    obtain rfl : n.location = location := Option.some.inj (hside.located.symm.trans hlocation)
    have hroleOf : found.role = role := by
      have hfoundRole := hspec.role
      rw [hpath] at hfoundRole
      exact Option.some.inj (hfoundRole.symm.trans hrole)
    rw [if_neg (not_not.2 hroleOf)]
    rw [if_neg (not_not.2 hcount), if_neg]
    rw [hspec.identity, ← hside.identity, hcontroller, hdomain, hports]
    simp [CameraNode.expectation]

end Side

/-! ## Leasing what is offered -/

def Names (r : CameraInventoryRef) (instanceId : Text) (generation : Nat) : Prop :=
  r.descriptor.cameraInstanceId.text = instanceId ∧ r.descriptor.generation.get = generation

theorem asStr_injective {a b : RootHubDomain} (h : (splitDomain a).asStr = (splitDomain b).asStr) :
    a = b := by
  cases a <;> cases b <;> first | rfl | exact absurd h (by decide)

variable {toLowercase : Text → Text}

theorem OfferedPair.factsDiffer {p : SplitPair}
    {e f : InventoryEntry} (h : inv.OfferedPair toLowercase p e f) :
    ¬(p.rgb.expectation.instanceId = p.ir.expectation.instanceId ∨
      (p.rgb.expectation.identity = p.ir.expectation.identity ∧
        p.rgb.expectation.controller = p.ir.expectation.controller ∧
        p.rgb.expectation.domain = p.ir.expectation.domain ∧
        p.rgb.expectation.ports = p.ir.expectation.ports)) := by
  rintro (hid | ⟨hidentity, hcontroller, hdomain, hports⟩)
  · exact h.twoInstances hid
  · refine h.twoUnits ⟨hidentity, ?_⟩
    have hdomain' := asStr_injective hdomain
    cases hrgb : p.rgb.location
    cases hir : p.ir.location
    simp_all [CameraNode.expectation]

theorem OfferedPair.validates {p : SplitPair}
    {e f : InventoryEntry} {now : Nat} (h : inv.OfferedPair toLowercase p e f)
    (hcomplete : inv.Complete (inv.snapshot now)) (hapart : inv.Apart) :
    inv.validateSplitPublication toLowercase p.leaseRequest true now = .ok () := by
  have hinit : inv.publicationState ≠ .uninitialized := by
    rw [hcomplete.state]
    decide
  have hrevalidated : revalidateAgainst p.rgb.expectation p.ir.expectation (inv.snapshot now)
      (inv.classifiedEndpoints toLowercase) = .ok () := by
    rw [revalidateAgainst, if_neg, hcomplete.presents h.rgb, hcomplete.presents h.ir, if_neg,
      if_neg h.factsDiffer, hapart.checkSide hcomplete.state h.rgb,
      hapart.checkSide hcomplete.state h.ir]
    · rfl
    · decide
    · simp [hcomplete.valid, hcomplete.snapshotState]
  rw [validateSplitPublication, if_neg, SplitPair.leaseRequest]
  · dsimp only
    rw [hrevalidated]
  · rw [snapshot_supervisorId, snapshot_revision]
    simp [hinit, SplitPair.leaseRequest, h.supervisorId, h.revision]

theorem OfferedSide.reference {n : CameraNode}
    {role : Role} (h : inv.OfferedSide toLowercase n role e) (hapart : inv.Apart) :
    inv.referenceForEndpoints [n.path] = .ok e.reference ∧ Names e.reference n.instanceId n.generation := by
  refine ⟨hapart.referenceForEndpoints h.published (by simp) ?_, h.instanceId.symm, h.generation.symm⟩
  rw [List.forall_mem_singleton]
  exact e.mem_captures h.capture.1

theorem reference_of_pair {p : ConnectedPair}
    (h : PairSpec e.pairingInput (inv.roleOf e) p) (he : e ∈ inv.publishedEntries)
    (hapart : inv.Apart) : inv.referenceForEndpoints [p.rgb, p.ir] = .ok e.reference ∧
      Names e.reference p.instanceId p.generation := by
  refine ⟨hapart.referenceForEndpoints he (by simp) ?_, h.instanceId.symm, h.generation.symm⟩
  intro path hpath
  rcases List.mem_pair.1 hpath with rfl | rfl
  · exact e.mem_captures (mem_of_filter_eq_singleton h.rgb).1
  · exact e.mem_captures (mem_of_filter_eq_singleton h.ir).1

/-- **Every pair the inventory offers can be leased.** -/
theorem offered_pairs_leasable {source generate : Nat → CameraInstanceId} {ops : List Op} {now : Nat}
    (toLowercase : Text → Text) (records : List AuthorizationRecord)
    (h : (((new source generate).after ops).snapshot now).state = .current) :
    let inv := (new source generate).after ops
    let view := inv.connectedPairsWithSplit toLowercase records now
    (∀ p ∈ view.splitPairs, ∀ now',
      inv.validateSplitPublication toLowercase p.leaseRequest true now' = .ok () ∧
      ∃ rgb ir, inv.splitReferences toLowercase p.leaseRequest now' = .ok [rgb, ir] ∧
        inv.referenceForEndpoints [p.rgb.path] = .ok rgb ∧ Names rgb p.rgb.instanceId p.rgb.generation ∧
        inv.referenceForEndpoints [p.ir.path] = .ok ir ∧ Names ir p.ir.instanceId p.ir.generation) ∧
    view.ordinary = inv.connectedPairs toLowercase ∧
    ∀ p ∈ view.ordinary.pairs, ∃ r, inv.referenceForEndpoints [p.rgb, p.ir] = .ok r ∧
      Names r p.instanceId p.generation := by
  intro inv view
  have hsound : PublicationSound inv := publicationSound_after (publicationSound_new source generate) ops
  have hcomplete : ∀ now', inv.Complete (inv.snapshot now') := fun now' =>
    complete_of_current ((sameSnapshot_of_published rfl now' now).state.trans h)
  have hapart := (hcomplete now).apart hsound.state
  have hordinary : view.ordinary = inv.connectedPairs toLowercase := by
    simp only [view, connectedPairsWithSplit]
    rw [if_neg (not_not.2 h)]
  refine ⟨fun p hp now' => ?_, hordinary, fun p hp => ?_⟩
  · obtain ⟨-, e, f, hpair⟩ := mem_splitPairs hp
    have hvalid := hpair.validates (hcomplete now') hapart
    obtain ⟨hrgb, hrgbNames⟩ := hpair.rgb.reference hapart
    obtain ⟨hir, hirNames⟩ := hpair.ir.reference hapart
    refine ⟨hvalid, e.reference, f.reference, ?_, hrgb, hrgbNames, hir, hirNames⟩
    rw [splitReferences, hvalid]
    simp [SplitPair.leaseRequest, CameraNode.expectation, hrgb, hir, bind, Except.bind, pure, Except.pure]
  · rw [hordinary] at hp
    obtain ⟨e, he, hspec⟩ := mem_pairs hp
    exact ⟨e.reference, reference_of_pair hspec he hapart⟩

/-! ## A sample pair -/

def sampleLocation (port : UInt8) : UsbLocation := ⟨"0000:00:14.0", .usb2, [port]⟩

def sampleModule (topology node vidPid : Text) (port : UInt8) : CameraObservation :=
  { sampleCamera topology node with usbDevice := some ⟨vidPid, true, some (sampleLocation port)⟩ }

def sampleRecord : AuthorizationRecord where
  rgb := ⟨"5986:2113", "/dev/video0", "0000:00:14.0", .usb2, [5]⟩
  ir := ⟨"5986:1141", "/dev/video2", "0000:00:14.0", .usb2, [6]⟩

def sampleSplitRun : List Op :=
  let census := Op.reconcileGuarded [sampleModule "/devices/a" "/dev/video0" "5986:2113" 5,
    sampleModule "/devices/b" "/dev/video2" "5986:1141" 6] true 0
  [census, .recordRoles ((new sampleIds sampleIds).after [census]).endpointGenerations
    [("/dev/video0", .rgb), ("/dev/video2", .ir)]]

/-- The pair of an authorized record is offered, and its lease request holds. -/
theorem offered_pairs_leasable_sample :
    let inv := (new sampleIds sampleIds).after sampleSplitRun
    let view := inv.connectedPairsWithSplit (List.map Char.toLower) [sampleRecord] 0
    view.splitPairs.length = 1 ∧ ∀ p ∈ view.splitPairs,
      inv.validateSplitPublication (List.map Char.toLower) p.leaseRequest true 7 = .ok () := by
  refine ⟨by decide +kernel, fun p hp => ?_⟩
  exact ((offered_pairs_leasable (List.map Char.toLower) [sampleRecord] (by decide)).1 p hp 7).1

end CameraInventory

end Irlume.Inventory

import Irlume.Inventory.Connected

/-!
# What the views offer

One lemma for each resolver of `Connected`: what a classified endpoint, a pair and a split pair say about the
published entries they were made from and the roles held for them.
-/

namespace Irlume.Inventory

open Irlume.Lib Irlume.Split

theorem filterMap_of_mapM {α β : Type} {f : α → Option β} {xs : List α} {ys : List β}
    (h : xs.mapM f = some ys) : (∀ x ∈ xs, (f x).isSome) ∧ ys = xs.filterMap f := by
  induction xs generalizing ys with
  | nil =>
    rw [List.mapM_nil] at h
    cases h
    exact ⟨by simp, rfl⟩
  | cons x xs ih =>
    rw [List.mapM_cons] at h
    obtain ⟨y, hy, h⟩ := Option.bind_eq_some_iff.1 h
    obtain ⟨ys', hys, h⟩ := Option.bind_eq_some_iff.1 h
    cases h
    obtain ⟨hall, heq⟩ := ih hys
    rw [List.forall_mem_cons, List.filterMap_cons_some hy, ← heq]
    exact ⟨⟨hy ▸ rfl, hall⟩, rfl⟩

theorem filter_flatMap_of_only {α β : Type} {l : List α} {g : α → List β} {p : β → Bool} {a : α}
    (hnodup : l.Nodup) (ha : a ∈ l) (hothers : ∀ b ∈ l, b ≠ a → (g b).filter p = []) :
    (l.flatMap g).filter p = (g a).filter p := by
  have hempty : ∀ l' : List α, (∀ b ∈ l', (g b).filter p = []) → (l'.flatMap g).filter p = [] := by
    intro l' h
    rw [List.filter_flatMap, List.flatMap_eq_nil_iff]
    exact h
  obtain ⟨s, t, rfl⟩ := List.append_of_mem ha
  obtain ⟨-, ht, hs⟩ := List.nodup_append.1 hnodup
  have hs' : ∀ b ∈ s, (g b).filter p = [] := fun b hb =>
    hothers b (List.mem_append_left _ hb) (hs b hb a List.mem_cons_self)
  have ht' : ∀ b ∈ t, (g b).filter p = [] := by
    intro b hb
    refine hothers b (by simp [hb]) ?_
    rintro rfl
    exact (List.nodup_cons.1 ht).1 hb
  rw [List.flatMap_append, List.flatMap_cons, List.filter_append, List.filter_append, hempty s hs',
    hempty t ht', List.nil_append, List.append_nil]

variable {toLowercase : Text → Text}

/-! ## Pairs -/

structure PairSpec (input : PairingInput) (roleOf : Text → Option Role) (p : ConnectedPair) : Prop where
  rgb : input.captures.filter (roleOf · = some .rgb) = [p.rgb]
  ir : input.captures.filter (roleOf · = some .ir) = [p.ir]
  instanceId : p.instanceId = input.instanceId
  generation : p.generation = input.generation

theorem pairCamera_pair {input : PairingInput} {roleOf : Text → Option Role} {p : ConnectedPair}
    (h : pairCamera toLowercase input roleOf = .pair p) : PairSpec input roleOf p := by
  rw [pairCamera] at h
  split at h
  · cases h
  · dsimp only at h
    split at h
    · cases h
    · split at h
      · next hrgb hir =>
        cases h
        exact ⟨hrgb, hir, rfl, rfl⟩
      · cases h

theorem mem_of_filter_eq_singleton {α : Type} {p : α → Bool} {xs : List α} {x : α}
    (h : xs.filter p = [x]) : x ∈ xs ∧ p x = true := by
  have hmem : x ∈ xs.filter p := h ▸ List.mem_singleton_self x
  exact List.mem_filter.1 hmem

/-! ## Candidates -/

variable {location : Option UsbLocation}

theorem classified_some {input : PairingInput} {supervisorId : Text} {revision : Nat}
    {roleOf : Text → Option Role} {c : SplitCandidate}
    (h : SplitCandidate.classified input supervisorId revision location roleOf = some c) :
    (∀ endpoint ∈ input.captures, roleOf endpoint ≠ none) ∧
      c = ⟨input, supervisorId, revision, location,
        input.captures.filterMap fun endpoint => (roleOf endpoint).map fun role => (endpoint, role)⟩ := by
  obtain ⟨roles, hroles, heq⟩ := Option.bind_eq_some_iff.1 h
  obtain ⟨hall, rfl⟩ := filterMap_of_mapM hroles
  cases heq
  refine ⟨fun endpoint hendpoint hnone => ?_, rfl⟩
  have hsome := hall endpoint hendpoint
  rw [hnone] at hsome
  cases hsome

theorem filter_held_eq {β : Type} {make : Text → Role → β} {held : β → Role}
    (hheld : ∀ endpoint role, held (make endpoint role) = role) (captures : List Text)
    (roleOf : Text → Option Role) (role : Role) :
    ((captures.filterMap fun endpoint => (roleOf endpoint).map (make endpoint)).filter
      (held · = role)) = (captures.filter (roleOf · = some role)).map (make · role) := by
  induction captures with
  | nil => rfl
  | cons endpoint captures ih =>
    cases hrole : roleOf endpoint with
    | none => simp [hrole, ih]
    | some r =>
      by_cases heq : r = role
      · simp [hrole, heq, hheld, ih]
      · simp [hrole, heq, hheld, ih]

/-! ## Sides -/

structure Resolves (candidates : List SplitCandidate) (path : Text) (role : Role)
    (side : ResolvedSide) : Prop where
  candidate : side.candidate ∈ candidates
  nodes : side.candidate.roles.filter (·.2 = role) = [(path, role)]
  location : side.candidate.location = some side.location

theorem matchSide_ok {ordinary : List SplitCandidate} {path : Text}
    {role : Role} {c : SplitCandidate} {found : UsbLocation}
    (h : matchSide toLowercase ordinary path location role c = .ok found) :
    c.roles.filter (·.2 = role) = [(path, role)] ∧ c.location = some found := by
  unfold matchSide at h
  split at h
  · cases h
  generalize hnodes : c.roles.filter (·.2 = role) = nodes at h ⊢
  match nodes with
  | [node] =>
    dsimp only at h
    by_cases hpath : node.1 = path
    · rw [if_neg (not_not.2 hpath)] at h
      obtain ⟨-, hrole⟩ := mem_of_filter_eq_singleton hnodes
      refine ⟨congrArg (fun n => [n]) (Prod.ext hpath (of_decide_eq_true hrole)), ?_⟩
      split at h
      · next recorded current hcurrent =>
        split at h
        · next heq =>
          cases h
          exact hcurrent.trans (congrArg some heq.symm)
        · cases h
      · cases h
    · rw [if_pos hpath] at h
      cases h
  | [] => cases h
  | _ :: _ :: _ => cases h

theorem resolveSide_ok {candidates : List SplitCandidate} {identity path : Text} {role : Role}
    {side : ResolvedSide}
    (h : resolveSide toLowercase candidates identity path location role = .ok side) :
    Resolves candidates path role side := by
  rw [resolveSide] at h
  split at h
  · cases h
  split at h
  · cases h
  dsimp only at h
  split at h
  · next found hfound =>
    cases h
    have hside := List.mem_singleton_self side
    rw [← hfound] at hside
    revert hside
    -- whatever the loop has collected has matched
    refine List.foldlRecOn
      (motive := fun found : List ResolvedSide × SideRefusal => side ∈ found.1 → Resolves candidates path role side) _ _
      (fun hnil => absurd hnil List.not_mem_nil) fun found ih c hc hside => ?_
    split at hside
    · next location' hmatch =>
      rcases List.mem_append.1 hside with hside | hside
      · exact ih hside
      · obtain ⟨hnodes, hlocation⟩ := matchSide_ok hmatch
        rw [List.mem_singleton.1 hside]
        exact ⟨(List.mem_filter.1 hc).1, hnodes, hlocation⟩
    · exact ih hside
  · cases h
  · cases h

/-! ## Split pairs -/

structure PairedSpec (toLowercase : Text → Text) (candidates : List SplitCandidate) (p : SplitPair)
    (rgb ir : ResolvedSide) : Prop where
  rgbResolves : Resolves candidates p.rgb.path .rgb rgb
  irResolves : Resolves candidates p.ir.path .ir ir
  twoInstances : rgb.candidate.input.instanceId ≠ ir.candidate.input.instanceId
  twoUnits : sameUnit toLowercase rgb ir = false
  rgbNode : p.rgb = rgb.candidate.node toLowercase p.rgb.path rgb.location
  irNode : p.ir = ir.candidate.node toLowercase p.ir.path ir.location
  supervisorId : p.supervisorId = rgb.candidate.supervisorId
  revision : p.revision = rgb.candidate.revision

theorem resolvePin_paired {candidates claimed : List SplitCandidate} {pin : SplitPin} {p : SplitPair}
    (h : (resolvePin toLowercase candidates pin claimed).1 = .paired p) :
    ∃ rgb ir, PairedSpec toLowercase candidates p rgb ir := by
  rw [resolvePin] at h
  split at h
  · cases h
  next rgb hrgb =>
  split at h
  · cases h
  next ir hir =>
  split at h
  · cases h
  next hinstances =>
  split at h
  · cases h
  next hunits =>
  split at h
  · cases h
  · cases h
    exact ⟨rgb, ir, resolveSide_ok hrgb, resolveSide_ok hir, hinstances, Bool.eq_false_iff.2 hunits,
      rfl, rfl, rfl, rfl⟩

theorem pinnedSplitPairs_paired {candidates : List SplitCandidate} {pins : List SplitPin}
    {p : SplitPair} (h : .paired p ∈ pinnedSplitPairs toLowercase candidates pins) :
    ∃ rgb ir, PairedSpec toLowercase candidates p rgb ir := by
  have hpins : ∀ (pins : List SplitPin) (claimed : List SplitCandidate),
      .paired p ∈ resolvePins toLowercase candidates pins claimed →
        ∃ rgb ir, PairedSpec toLowercase candidates p rgb ir := by
    intro pins
    induction pins with
    | nil =>
      intro claimed hmem
      cases hmem
    | cons pin pins ih =>
      intro claimed hmem
      rcases List.mem_cons.1 hmem with heq | hmem
      · exact resolvePin_paired heq.symm
      · exact ih _ hmem
  rw [pinnedSplitPairs] at h
  split at h
  · exact hpins pins [] h
  all_goals
    obtain ⟨pin, -, heq⟩ := List.mem_map.1 h
    cases heq

/-! ## The inventory's views -/

def InventoryEntry.captures (e : InventoryEntry) : List Text := e.pairingInput.captures

theorem InventoryEntry.mem_captures {e : InventoryEntry} {endpoint : Text} (h : endpoint ∈ e.captures) :
    endpoint ∈ e.observation.endpointPaths := (List.mem_filter.1 h).1

/-- The binding identity of the camera, empty without descriptors. -/
def InventoryEntry.identity (toLowercase : Text → Text) (e : InventoryEntry) : Text :=
  (e.observation.usbDevice.map fun usb =>
    bindingIdentity toLowercase usb.vidPid e.observation.physicalId.serial).getD []

namespace CameraInventory

variable {inv : CameraInventory}

def Classed (inv : CameraInventory) (e : InventoryEntry) : Prop :=
  ∀ endpoint ∈ e.captures, inv.roleOf e endpoint ≠ none

/-- The whole of it for one side of a split pair. -/
structure OfferedSide (inv : CameraInventory) (toLowercase : Text → Text) (n : CameraNode) (role : Role)
    (e : InventoryEntry) : Prop where
  published : e ∈ inv.publishedEntries
  classed : inv.Classed e
  only : e.captures.filter (inv.roleOf e · = some role) = [n.path]
  located : e.location = some n.location
  identity : n.identity = e.identity toLowercase
  instanceId : n.instanceId = e.instanceId.text
  generation : n.generation = e.generation.get

theorem OfferedSide.capture {n : CameraNode} {role : Role} {e : InventoryEntry}
    (h : inv.OfferedSide toLowercase n role e) : n.path ∈ e.captures ∧ inv.roleOf e n.path = some role := by
  obtain ⟨hmem, hrole⟩ := mem_of_filter_eq_singleton h.only
  exact ⟨hmem, of_decide_eq_true hrole⟩

theorem mem_splitCandidates {c : SplitCandidate} (h : c ∈ inv.splitCandidates) :
    ∃ e ∈ inv.publishedEntries, inv.Classed e ∧
      c = ⟨e.pairingInput, inv.supervisorId.text, inv.revision, e.location,
        e.captures.filterMap fun endpoint =>
          (inv.roleOf e endpoint).map fun role => (endpoint, role)⟩ := by
  obtain ⟨e, he, hc⟩ := List.mem_filterMap.1 h
  obtain ⟨hclassed, heq⟩ := classified_some hc
  exact ⟨e, he, hclassed, heq⟩

theorem offered_of_resolves (toLowercase : Text → Text) {path : Text} {role : Role}
    {side : ResolvedSide} (h : Resolves inv.splitCandidates path role side) : ∃ e,
      inv.OfferedSide toLowercase (side.candidate.node toLowercase path side.location) role e ∧
        side.candidate.input = e.pairingInput ∧
        side.candidate.supervisorId = inv.supervisorId.text ∧ side.candidate.revision = inv.revision := by
  obtain ⟨e, he, hclassed, heq⟩ := mem_splitCandidates h.candidate
  have hnodes := h.nodes
  have hlocation := h.location
  rw [heq] at hnodes hlocation ⊢
  rw [@filter_held_eq _ Prod.mk Prod.snd fun _ _ => rfl] at hnodes
  obtain ⟨endpoint, honly, hpath⟩ := List.map_eq_singleton_iff.1 hnodes
  cases hpath
  exact ⟨e, ⟨he, hclassed, honly, hlocation, rfl, rfl, rfl⟩, rfl, rfl, rfl⟩

structure OfferedPair (inv : CameraInventory) (toLowercase : Text → Text) (p : SplitPair)
    (e f : InventoryEntry) : Prop where
  rgb : inv.OfferedSide toLowercase p.rgb .rgb e
  ir : inv.OfferedSide toLowercase p.ir .ir f
  twoInstances : p.rgb.instanceId ≠ p.ir.instanceId
  twoUnits : ¬(p.rgb.identity = p.ir.identity ∧ p.rgb.location = p.ir.location)
  supervisorId : p.supervisorId = inv.supervisorId.text
  revision : p.revision = inv.revision

theorem mem_splitPairs {records : List AuthorizationRecord} {now : Nat} {p : SplitPair}
    (h : p ∈ (inv.connectedPairsWithSplit toLowercase records now).splitPairs) :
    (inv.snapshot now).state = .current ∧ ∃ e f, inv.OfferedPair toLowercase p e f := by
  rw [connectedPairsWithSplit] at h
  dsimp only at h
  split at h
  · cases h
  next hcurrent =>
  rw [not_not] at hcurrent
  refine ⟨hcurrent, ?_⟩
  obtain ⟨outcome, houtcome, heq⟩ := List.mem_filterMap.1 h
  cases outcome with
  | refused reason => cases heq
  | paired q =>
    cases heq
    obtain ⟨rgb, ir, hpaired⟩ := pinnedSplitPairs_paired houtcome
    obtain ⟨e, he, hinput, hsup, hrev⟩ :=
      offered_of_resolves toLowercase hpaired.rgbResolves
    obtain ⟨f, hf, hinput', -, -⟩ :=
      offered_of_resolves toLowercase hpaired.irResolves
    rw [← hpaired.rgbNode] at he
    rw [← hpaired.irNode] at hf
    refine ⟨e, f, he, hf, ?_, ?_, hpaired.supervisorId.trans hsup, hpaired.revision.trans hrev⟩
    · rw [hpaired.rgbNode, hpaired.irNode]
      exact hpaired.twoInstances
    · rw [hpaired.rgbNode, hpaired.irNode]
      have hunits := hpaired.twoUnits
      rw [sameUnit, Bool.and_eq_false_iff, decide_eq_false_iff_not, decide_eq_false_iff_not] at hunits
      exact not_and_or.2 hunits

theorem mem_pairs {p : ConnectedPair} (h : p ∈ (inv.connectedPairs toLowercase).pairs) :
    ∃ e ∈ inv.publishedEntries, PairSpec e.pairingInput (inv.roleOf e) p := by
  rw [connectedPairs] at h
  split at h
  · cases h
  · obtain ⟨pairing, hpairing, heq⟩ := List.mem_filterMap.1 h
    obtain ⟨e, he, rfl⟩ := List.mem_map.1 hpairing
    split at heq
    · next q hq =>
      cases heq
      exact ⟨e, he, pairCamera_pair hq⟩
    · cases heq

structure ClassifiedSpec (inv : CameraInventory) (toLowercase : Text → Text) (e : InventoryEntry)
    (c : ClassifiedEndpoint) : Prop where
  capture : c.endpoint ∈ e.captures
  role : inv.roleOf e c.endpoint = some c.role
  instanceId : c.instanceId = e.instanceId.text
  generation : c.generation = e.generation.get
  identity : c.identity = e.identity toLowercase
  location : ∃ location, e.location = some location ∧ c.controller = location.controller ∧
    c.domain = (splitDomain location.domain).asStr ∧ c.ports = location.ports

theorem entryClassified_spec {e : InventoryEntry} {c : ClassifiedEndpoint}
    (h : c ∈ inv.entryClassified toLowercase e) : inv.ClassifiedSpec toLowercase e c := by
  rw [entryClassified] at h
  split at h
  · cases h
  next location hlocation =>
  split at h
  · cases h
  obtain ⟨endpoint, hendpoint, hsome⟩ := List.mem_filterMap.1 h
  obtain ⟨role, hrole, rfl⟩ := Option.map_eq_some_iff.1 hsome
  exact ⟨hendpoint, hrole, rfl, rfl, rfl, location, hlocation, rfl, domainText_eq _, rfl⟩

theorem mem_classifiedEndpoints {c : ClassifiedEndpoint}
    (h : c ∈ inv.classifiedEndpoints toLowercase) :
    ∃ e ∈ inv.publishedEntries, inv.ClassifiedSpec toLowercase e c := by
  rw [classifiedEndpoints] at h
  split at h
  · cases h
  · obtain ⟨e, he, hc⟩ := List.mem_flatMap.1 h
    exact ⟨e, he, entryClassified_spec hc⟩

end CameraInventory

end Irlume.Inventory

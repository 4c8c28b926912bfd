import Irlume.Cameras.Store

/-!
# Pinned secondary cameras

An attempt on a secondary camera pins what it rests on: the store's generation, the digest of the
primary bytes, and the group with its exact pair. Right before a grant both stores are read again and
compared with the pin. The pin resolves its group by complete key and place, the check by group id;
`holding` and the uniqueness of ids are what make both name the same group.
-/

namespace Irlume.Cameras

open Irlume.Lib

variable {Scan Calib : Type} (sha256Hex : List UInt8 → Text)

/-! ## Scoped views -/

inductive GroupScope where
  | primary
  | secondary (id : CameraGroupId)
  deriving DecidableEq

structure ScopedProfileView (Scan Calib : Type) where
  profile : Text
  scans : List Scan
  irCalibs : List (Text × Calib)

structure CameraGroupView (Scan Calib : Type) where
  scope : GroupScope
  pair : PairBinding
  profiles : List (ScopedProfileView Scan Calib)

/-- What the primary enrollment contributes. -/
structure FaceProfile (Scan Calib : Type) where
  name : Text
  scans : List Scan
  irCalibs : List (Text × Calib)

structure Enrollment (Scan Calib : Type) where
  cameraBinding : Option PairBinding
  profiles : List (FaceProfile Scan Calib)

structure CameraScopedViews (Scan Calib : Type) where
  groups : List (CameraGroupView Scan Calib)
  secondaryActive : Bool

def SecondaryGroup.view (group : SecondaryGroup Scan Calib) : CameraGroupView Scan Calib where
  scope := .secondary group.id
  pair := group.pair
  profiles := group.profiles.map fun p => { profile := p.profile, scans := p.scans, irCalibs := p.irCalibs }

def Enrollment.view (primary : Enrollment Scan Calib) : CameraGroupView Scan Calib where
  scope := .primary
  pair := primary.cameraBinding.getD (.ordinary none none)
  profiles := primary.profiles.map fun p => { profile := p.name, scans := p.scans, irCalibs := p.irCalibs }

def CameraScopedViews.compose (primary : Enrollment Scan Calib) (primaryBytes : List UInt8)
    (secondary : Option (SecondaryStore Scan Calib)) :
    Except SecondaryStoreError (CameraScopedViews Scan Calib) :=
  match secondary with
  | none => .ok { groups := [primary.view], secondaryActive := false }
  | some store =>
    match store.validate with
    | .error e => .error e
    | .ok _ =>
      if store.activationAgainst sha256Hex (some primaryBytes) = .active then
        .ok { groups := primary.view :: store.groups.map SecondaryGroup.view, secondaryActive := true }
      else .ok { groups := [primary.view], secondaryActive := false }

/-! ## Pinning -/

structure GrantContext where
  secondaryGeneration : Nat
  primarySnapshotSha256 : Text
  groupId : CameraGroupId

/-- Why an attempt could not be pinned. -/
inductive PinError where
  | secondary (detail : Text)
  | groupNotActive (detail : Text)
  | groupInactive (index : Nat) (detail : Text)
  | ambiguous (detail : Text)

structure StrictPinStores where
  user : Text
  secondaryPath : Text
  primaryPath : Text

structure SecondaryAuthContext (Scan Calib : Type) where
  secondaryPath : Text
  primaryPath : Text
  pinned : GrantContext
  pair : PairBinding
  views : CameraScopedViews Scan Calib
  groupIndex : Nat
  storeIndex : Nat

def pinKeyFromLoaded (stores : StrictPinStores) (primary : Enrollment Scan Calib)
    (primaryBytes : List UInt8) (key : CompletePairKey) (secondary : SecondaryStore Scan Calib) :
    Except PinError (SecondaryAuthContext Scan Calib) :=
  match secondary.validate with
  | .error e => .error (.secondary e.message)
  | .ok _ =>
    if secondary.owner ≠ stores.user then
      .error (.secondary ("the store names owner '" ++ secondary.owner ++
        "', not the authenticating account"))
    else
      match secondary.strictGroupForKey key with
      | .none => .error (.groupNotActive "no enrolled group has exactly the configured pair")
      | .ambiguous =>
        .error (.ambiguous "more than one enrolled group has exactly the configured pair")
      | .one storeIndex group =>
        if secondary.activationAgainst sha256Hex (some primaryBytes) ≠ .active then
          .error (.groupInactive storeIndex
            "the primary enrollment changed since this camera was authorized")
        else
          match CameraScopedViews.compose sha256Hex primary primaryBytes (some secondary) with
          | .error e => .error (.secondary ("secondary store unusable: " ++ e.message))
          | .ok views =>
            match views.groups.findIdx? fun view => view.scope = .secondary group.id with
            | none =>
              .error (.groupInactive storeIndex "group matches the pair but its activation is stale")
            | some groupIndex =>
              .ok { secondaryPath := stores.secondaryPath
                    primaryPath := stores.primaryPath
                    pinned :=
                      { secondaryGeneration := secondary.generation
                        primarySnapshotSha256 := secondary.primarySnapshotSha256
                        groupId := group.id }
                    pair := group.pair
                    views := views
                    groupIndex := groupIndex
                    storeIndex := storeIndex }

/-- The pinned group's view. The source indexes, which would stop on a place that does not exist. -/
def SecondaryAuthContext.groupView (ctx : SecondaryAuthContext Scan Calib) :
    Option (CameraGroupView Scan Calib) :=
  ctx.views.groups[ctx.groupIndex]?

/-! ## The grant boundary -/

inductive Refusal where
  | secondaryAbsent
  | generationChanged
  | primaryMissing
  /-- "primary snapshot changed during the attempt (§4.2: legacy rewrite with unchanged secondary
  generation)" -/
  | primaryChanged
  | activationStale
  /-- "pinned group no longer present (§4.2 revocation)" -/
  | groupGone
  | pairChanged
  /-- "split group requires a whole-pair grant context" -/
  | splitNeedsPair

inductive GrantDecision where
  | grant
  | refuse (reason : Refusal)

def PairBinding.isSplit : PairBinding → Bool
  | .ordinary _ _ => false
  | .split _ => true

def grantBoundaryCheckImpl (pinned : GrantContext) (pair : Option PairBinding)
    (currentPrimary : Option (List UInt8)) (currentSecondary : Option (SecondaryStore Scan Calib)) :
    GrantDecision :=
  match currentSecondary with
  | none => .refuse .secondaryAbsent
  | some secondary =>
    if secondary.generation ≠ pinned.secondaryGeneration then .refuse .generationChanged
    else
      match currentPrimary with
      | none => .refuse .primaryMissing
      | some bytes =>
        if sha256Hex bytes ≠ pinned.primarySnapshotSha256 then .refuse .primaryChanged
        else if secondary.activationAgainst sha256Hex (some bytes) ≠ .active then
          .refuse .activationStale
        else
          match secondary.groups.find? fun group => group.id = pinned.groupId with
          | none => .refuse .groupGone
          | some group =>
            match pair with
            | some pair =>
              if pair.validate ≠ .ok () ∨ group.pair ≠ pair then .refuse .pairChanged else .grant
            | none => if group.pair.isSplit then .refuse .splitNeedsPair else .grant

def SecondaryAuthContext.boundaryCheck (ctx : SecondaryAuthContext Scan Calib)
    (currentPrimary : Option (List UInt8)) (currentSecondary : Option (SecondaryStore Scan Calib)) :
    GrantDecision :=
  grantBoundaryCheckImpl sha256Hex ctx.pinned (some ctx.pair) currentPrimary currentSecondary

/-! ## What a pin rests on -/

variable {sha256Hex}

/-- What an accepted pin has checked: `group` is the store's one group with the key. -/
structure PinnedTo (sha256Hex : List UInt8 → Text) (primary : Enrollment Scan Calib)
    (primaryBytes : List UInt8) (key : CompletePairKey) (secondary : SecondaryStore Scan Calib)
    (ctx : SecondaryAuthContext Scan Calib) (group : SecondaryGroup Scan Calib) : Prop where
  valid : secondary.validate = .ok ()
  single : secondary.holding key = [group]
  digest : sha256Hex primaryBytes = secondary.primarySnapshotSha256
  generation : ctx.pinned.secondaryGeneration = secondary.generation
  snapshot : ctx.pinned.primarySnapshotSha256 = secondary.primarySnapshotSha256
  groupId : ctx.pinned.groupId = group.id
  pair : ctx.pair = group.pair
  views : ctx.views.groups = primary.view :: secondary.groups.map SecondaryGroup.view
  index : ctx.views.groups.findIdx? (fun view => view.scope = .secondary group.id) = some ctx.groupIndex

theorem activationAgainst_active_iff {store : SecondaryStore Scan Calib} {bytes : List UInt8} :
    store.activationAgainst sha256Hex (some bytes) = .active ↔
      sha256Hex bytes = store.primarySnapshotSha256 := by
  simp [SecondaryStore.activationAgainst]

variable {ctx : SecondaryAuthContext Scan Calib}

variable {primary : Enrollment Scan Calib} {primaryBytes : List UInt8} {key : CompletePairKey}
  {secondary : SecondaryStore Scan Calib}

theorem pinKeyFromLoaded_ok {stores : StrictPinStores}
    (h : pinKeyFromLoaded sha256Hex stores primary primaryBytes key secondary = .ok ctx) :
    ∃ group, PinnedTo sha256Hex primary primaryBytes key secondary ctx group := by
  unfold pinKeyFromLoaded at h
  split at h
  · cases h
  · next hvalid =>
    split at h
    · cases h
    · split at h
      · cases h
      · cases h
      · next storeIndex group hone =>
        split at h
        · cases h
        · next hactive =>
          rw [not_not] at hactive
          have hcompose : CameraScopedViews.compose sha256Hex primary primaryBytes (some secondary) =
              .ok { groups := primary.view :: secondary.groups.map SecondaryGroup.view,
                    secondaryActive := true } := by
            simp only [CameraScopedViews.compose, hvalid, if_pos hactive]
          rw [hcompose] at h
          dsimp only at h
          split at h
          · cases h
          · next groupIndex hindex =>
            cases h
            exact ⟨group, hvalid, SecondaryStore.strictGroupForKey_one hone,
              activationAgainst_active_iff.1 hactive, rfl, rfl, rfl, rfl, rfl, hindex⟩

variable {group : SecondaryGroup Scan Calib}

theorem filter_id_of_mem {groups : List (SecondaryGroup Scan Calib)}
    (hnodup : (groups.map SecondaryGroup.id).Nodup)
    (hmem : group ∈ groups) : groups.filter (fun g => g.id = group.id) = [group] := by
  induction groups with
  | nil => cases hmem
  | cons g gs ih =>
    rw [List.map_cons, List.nodup_cons] at hnodup
    rcases List.mem_cons.1 hmem with rfl | hmem
    · have hrest : gs.filter (fun g => g.id = group.id) = [] := by
        rw [List.filter_eq_nil_iff]
        intro g hg hid
        exact hnodup.1 (List.mem_map.2 ⟨g, hg, by simpa using hid⟩)
      simp [hrest]
    · have hne : g.id ≠ group.id := by
        intro heq
        exact hnodup.1 (heq ▸ List.mem_map_of_mem hmem)
      simpa [hne] using ih hnodup.2 hmem

theorem find?_id_iff {groups : List (SecondaryGroup Scan Calib)}
    (hnodup : (groups.map SecondaryGroup.id).Nodup) {id : CameraGroupId} :
    groups.find? (fun g => g.id = id) = some group ↔ groups.filter (fun g => g.id = id) = [group] := by
  constructor
  · intro h
    obtain rfl : group.id = id := by simpa using List.find?_some h
    exact filter_id_of_mem hnodup (List.mem_of_find?_eq_some h)
  · intro h
    rw [← List.head?_filter, h]
    rfl

theorem boundaryCheck_grant_iff
    {currentPrimary : Option (List UInt8)} {current : SecondaryStore Scan Calib}
    (hvalid : current.validate = .ok ()) :
    ctx.boundaryCheck sha256Hex currentPrimary (some current) = .grant ↔
      current.generation = ctx.pinned.secondaryGeneration ∧
      (∃ bytes, currentPrimary = some bytes ∧ sha256Hex bytes = ctx.pinned.primarySnapshotSha256) ∧
      current.primarySnapshotSha256 = ctx.pinned.primarySnapshotSha256 ∧
      ctx.pair.validate = .ok () ∧
      ∃ group, current.groups.filter (fun g => g.id = ctx.pinned.groupId) = [group] ∧
        group.pair = ctx.pair := by
  have hids := (SecondaryStore.validated hvalid).ids
  unfold SecondaryAuthContext.boundaryCheck grantBoundaryCheckImpl
  constructor
  · intro h
    dsimp only at h
    split at h
    · cases h
    · next hgeneration =>
      split at h
      · cases h
      · next bytes =>
        split at h
        · cases h
        · next hprimary =>
          split at h
          · cases h
          · next hactive =>
            rw [not_not] at hgeneration hprimary hactive
            rw [activationAgainst_active_iff] at hactive
            split at h
            · cases h
            · next group hfind =>
              split at h
              · cases h
              · next hpair =>
                rw [not_or, not_not, not_not] at hpair
                exact ⟨hgeneration, ⟨bytes, rfl, hprimary⟩, hactive.symm.trans hprimary, hpair.1, group,
                  (find?_id_iff hids).1 hfind, hpair.2⟩
  · intro h
    obtain ⟨hgeneration, ⟨bytes, rfl, hprimary⟩, hsnapshot, hpair, group, hgroup, hsame⟩ := h
    have hactive : current.activationAgainst sha256Hex (some bytes) = .active := by
      rw [activationAgainst_active_iff, hprimary, hsnapshot]
    simp only [hgeneration, hprimary, hactive, (find?_id_iff hids).2 hgroup, hpair, hsame, ne_eq,
      not_true_eq_false, if_false, or_self]

theorem PinnedTo.mem
    (h : PinnedTo sha256Hex primary primaryBytes key secondary ctx group) : group ∈ secondary.groups := by
  have hheld : group ∈ secondary.holding key := by
    rw [h.single]
    exact List.mem_singleton_self group
  exact (List.mem_filter.1 hheld).1

theorem PinnedTo.groupView (h : PinnedTo sha256Hex primary primaryBytes key secondary ctx group) :
    ctx.groupView = some group.view := by
  obtain ⟨hlt, hfound, -⟩ := List.findIdx?_eq_some_iff_getElem.1 h.index
  rw [SecondaryAuthContext.groupView, List.getElem?_eq_getElem hlt]
  have hmem := List.getElem_mem hlt
  generalize ctx.views.groups[ctx.groupIndex] = view at hfound hmem
  have hscope : view.scope = .secondary group.id := by simpa using hfound
  rw [h.views, List.mem_cons] at hmem
  rcases hmem with rfl | hmem
  · cases hscope
  · obtain ⟨other, hother, rfl⟩ := List.mem_map.1 hmem
    have hids := (SecondaryStore.validated h.valid).ids
    have hid : other.id = group.id := GroupScope.secondary.inj hscope
    have hone := filter_id_of_mem hids hother
    rw [hid, filter_id_of_mem hids h.mem] at hone
    rw [List.singleton_inj.1 hone]

/-- **The pin**: right after pinning the boundary grants, the view is that of the store's one group with
the key, and whenever the boundary grants against stores read later, nothing the pin rests on has
changed. -/
theorem pinned_grant_unchanged (sha256Hex : List UInt8 → Text) (stores : StrictPinStores)
    (primary : Enrollment Scan Calib) (primaryBytes : List UInt8) (key : CompletePairKey)
    (secondary : SecondaryStore Scan Calib) (ctx : SecondaryAuthContext Scan Calib)
    (h : pinKeyFromLoaded sha256Hex stores primary primaryBytes key secondary = .ok ctx) :
    ∃ group, secondary.holding key = [group] ∧ ctx.groupView = some group.view ∧
      ctx.boundaryCheck sha256Hex (some primaryBytes) (some secondary) = .grant ∧
      ∀ (currentPrimary : Option (List UInt8)) (current : SecondaryStore Scan Calib),
        current.validate = .ok () →
        ctx.boundaryCheck sha256Hex currentPrimary (some current) = .grant →
        current.generation = secondary.generation ∧
        current.primarySnapshotSha256 = secondary.primarySnapshotSha256 ∧
        (∃ bytes, currentPrimary = some bytes ∧ sha256Hex bytes = secondary.primarySnapshotSha256) ∧
        ∃ now, current.groups.filter (fun g => g.id = group.id) = [now] ∧ now.pair = group.pair := by
  obtain ⟨group, hpin⟩ := pinKeyFromLoaded_ok h
  have hvalidated := SecondaryStore.validated hpin.valid
  refine ⟨group, hpin.single, hpin.groupView, ?_, ?_⟩
  · rw [boundaryCheck_grant_iff hpin.valid, hpin.generation, hpin.snapshot, hpin.groupId, hpin.pair]
    exact ⟨rfl, ⟨primaryBytes, rfl, hpin.digest⟩, rfl, hvalidated.pairs group hpin.mem, group,
      filter_id_of_mem hvalidated.ids hpin.mem, rfl⟩
  · intro currentPrimary current hcurrent hgrant
    rw [boundaryCheck_grant_iff hcurrent, hpin.generation, hpin.snapshot, hpin.groupId, hpin.pair] at hgrant
    obtain ⟨hgeneration, hprimary, hsnapshot, -, hnow⟩ := hgrant
    exact ⟨hgeneration, hsnapshot, hprimary, hnow⟩

def addedGroup (id : CameraGroupId) (pair : PairBinding) : SecondaryGroup Unit Unit where
  id := id
  pair := pair
  profiles := [{ profile := ['p'], scans := [()], irCalibs := [] }]

def twoGroupStore : SecondaryStore Unit Unit where
  formatVersion := 1
  owner := ['o']
  generation := 7
  primarySnapshotSha256 := sha256OfNothing
  groups := [addedGroup ⟨['a'], by decide, by decide⟩ (.ordinary none (some ['i'])),
    addedGroup ⟨['b'], by decide, by decide⟩ (.split Split.escapedPair)]

def emptyEnrollment : Enrollment Unit Unit := { cameraBinding := none, profiles := [] }

/-- A split group is pinned and granted. -/
theorem pinned_grant_unchanged_split :
    ∃ ctx, pinKeyFromLoaded (fun _ => sha256OfNothing) ⟨['o'], [], []⟩ emptyEnrollment []
        (.split Split.escapedPair) twoGroupStore = .ok ctx ∧
      ctx.boundaryCheck (fun _ => sha256OfNothing) (some []) (some twoGroupStore) = .grant := by
  have hok : (pinKeyFromLoaded (fun _ => sha256OfNothing) ⟨['o'], [], []⟩ emptyEnrollment []
      (.split Split.escapedPair) twoGroupStore).toOption.isSome = true := by decide
  cases h : pinKeyFromLoaded (fun _ => sha256OfNothing) ⟨['o'], [], []⟩ emptyEnrollment []
      (.split Split.escapedPair) twoGroupStore with
  | error e =>
    rw [h] at hok
    cases hok
  | ok ctx =>
    obtain ⟨_, -, -, hgrant, -⟩ := pinned_grant_unchanged _ _ _ _ _ _ _ h
    exact ⟨ctx, rfl, hgrant⟩

end Irlume.Cameras

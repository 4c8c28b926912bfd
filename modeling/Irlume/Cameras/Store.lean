import Irlume.Cameras.Binding

/-!
# The secondary store

The groups an account added after its primary enrollment, with the digest of the primary bytes they
were authorized against. What is inside a scan or a calibration is the matcher's, so both are type
parameters here; the store only counts them.
-/

namespace Irlume.Cameras

open Irlume.Lib

def secondaryStoreVersion : Nat := 1
def maxGroups : Nat := 8
def maxScansPerProfileGroup : Nat := 30
def maxTotalScans : Nat := 64
def maxIdBytes : Nat := 256
def maxCalibSpacesPerProfileGroup : Nat := 4

inductive SecondaryStoreError where
  | corrupt (detail : Text)
  | incompatibleVersion (version : Nat)
  | invalid (detail : Text)
  | io (detail : Text)

def SecondaryStoreError.message : SecondaryStoreError → Text
  | .corrupt detail => "corrupt secondary store: " ++ detail
  | .incompatibleVersion version => "unsupported secondary store version " ++ decimal version
  | .invalid detail => "invalid secondary store: " ++ detail
  | .io detail => "cannot read secondary store: " ++ detail

/-- A nonempty bounded identifier. -/
structure CameraGroupId where
  text : Text
  nonempty : text ≠ []
  bounded : byteLength text ≤ maxIdBytes

instance : DecidableEq CameraGroupId := fun a b =>
  decidable_of_iff (a.text = b.text) ⟨fun h => by cases a; cases b; subst h; rfl, fun h => h ▸ rfl⟩

variable (Scan Calib : Type)

/-- One profile's scans captured on one group. The calibrations are keyed by recognizer space. -/
structure SecondaryProfileScans where
  profile : Text
  scans : List Scan
  irCalibs : List (Text × Calib)

structure SecondaryGroup where
  id : CameraGroupId
  pair : PairBinding
  profiles : List (SecondaryProfileScans Scan Calib)

structure SecondaryStore where
  formatVersion : Nat
  owner : Text
  generation : Nat
  primarySnapshotSha256 : Text
  groups : List (SecondaryGroup Scan Calib)

inductive Activation where
  | active
  | inactivePrimaryChanged
  deriving DecidableEq

variable {Scan Calib : Type}

/-! ## Validation -/

def PairBinding.rgbIdentity : PairBinding → Option Text
  | .ordinary rgb _ => rgb
  | .split key => some key.rgb.identity

def PairBinding.irIdentity : PairBinding → Option Text
  | .ordinary _ ir => ir
  | .split key => some key.ir.identity

def BindingError.message : BindingError → Text
  | .invalidSplitKey => "invalid split key"
  | .outOfBounds => "split binding component out of bounds"
  | .notComplete => "binding is not complete"

def refuseIf {ε : Type} (c : Bool) (e : ε) : Except ε Unit := if c then .error e else .ok ()

def outOfBounds (t : Text) : Bool := t = [] || maxIdBytes < byteLength t

def isLowercaseHex64 (t : Text) : Bool :=
  t.length = 64 && t.all fun c => c.isDigit || ('a' ≤ c && c ≤ 'f')

/-- The profiles of a group; `refs` are those of the profiles before. -/
def validateProfiles (group : CameraGroupId) (refs : List Text) :
    List (SecondaryProfileScans Scan Calib) → Except SecondaryStoreError Unit
  | [] => .ok ()
  | p :: ps => do
    refuseIf (outOfBounds p.profile) (.invalid "profile reference out of bounds")
    refuseIf (p.scans = [] || maxScansPerProfileGroup < p.scans.length)
      (.invalid ("group " ++ group.text ++ " profile " ++ p.profile ++ " has an invalid scan count"))
    refuseIf (maxCalibSpacesPerProfileGroup < p.irCalibs.length)
      (.invalid ("group " ++ group.text ++ " profile " ++ p.profile ++ " exceeds " ++
        decimal maxCalibSpacesPerProfileGroup ++ " calibration spaces"))
    refuseIf (p.profile ∈ refs) (.invalid ("group " ++ group.text ++ " repeats profile " ++ p.profile))
    validateProfiles group (p.profile :: refs) ps

def validateGroup (group : SecondaryGroup Scan Calib) : Except SecondaryStoreError Unit := do
  match group.pair.validate with
  | .error e => .error (.invalid e.message)
  | .ok _ => do
    refuseIf (group.pair.rgbIdentity.isNone && group.pair.irIdentity.isNone)
      (.invalid ("group " ++ group.id.text ++ " binds neither side"))
    refuseIf ([group.pair.rgbIdentity, group.pair.irIdentity].any fun i => i.any outOfBounds)
      (.invalid "pair identity out of bounds")
    refuseIf (group.profiles = []) (.invalid ("group " ++ group.id.text ++ " has no profile scans"))
    validateProfiles group.id [] group.profiles

def validateGroups : List (SecondaryGroup Scan Calib) → Except SecondaryStoreError Unit
  | [] => .ok ()
  | g :: gs => do
    validateGroup g
    validateGroups gs

def totalScans (groups : List (SecondaryGroup Scan Calib)) : Nat :=
  (groups.map fun g => (g.profiles.map fun p => p.scans.length).sum).sum

/-- No group id twice; `seen` are the ids before. -/
def validateIds (seen : List CameraGroupId) :
    List (SecondaryGroup Scan Calib) → Except SecondaryStoreError Unit
  | [] => .ok ()
  | g :: gs => do
    refuseIf (g.id ∈ seen) (.invalid ("duplicate group id " ++ g.id.text))
    validateIds (g.id :: seen) gs

def SecondaryStore.validate (store : SecondaryStore Scan Calib) : Except SecondaryStoreError Unit := do
  refuseIf (store.formatVersion ≠ secondaryStoreVersion) (.incompatibleVersion store.formatVersion)
  refuseIf (outOfBounds store.owner) (.invalid "owner out of bounds")
  refuseIf (!isLowercaseHex64 store.primarySnapshotSha256)
    (.invalid "primary_snapshot_sha256 is not 64 lowercase hex characters")
  refuseIf (maxGroups < store.groups.length) (.invalid ("more than " ++ decimal maxGroups ++ " groups"))
  validateGroups store.groups
  refuseIf (maxTotalScans < totalScans store.groups)
    (.invalid ("more than " ++ decimal maxTotalScans ++ " total scans"))
  validateIds [] store.groups

theorem refuseIf_ok_iff {ε : Type} {c : Bool} {e : ε} : refuseIf c e = .ok () ↔ c = false := by
  unfold refuseIf
  cases c <;> simp

theorem validateGroups_ok {groups : List (SecondaryGroup Scan Calib)} (h : validateGroups groups = .ok ()) :
    ∀ g ∈ groups, g.pair.validate = .ok () := by
  induction groups with
  | nil => simp
  | cons g gs ih =>
    obtain ⟨_, hg, hgs⟩ := bind_ok_iff.1 h
    intro g' hmem
    rcases List.mem_cons.1 hmem with rfl | hmem
    · unfold validateGroup at hg
      split at hg
      · cases hg
      · next hvalid => exact hvalid
    · exact ih hgs g' hmem

theorem validateIds_ok {seen : List CameraGroupId} {groups : List (SecondaryGroup Scan Calib)}
    (h : validateIds seen groups = .ok ()) :
    (groups.map SecondaryGroup.id).Nodup ∧ ∀ g ∈ groups, g.id ∉ seen := by
  induction groups generalizing seen with
  | nil => simp
  | cons g gs ih =>
    obtain ⟨_, hg, hgs⟩ := bind_ok_iff.1 h
    have hnew : g.id ∉ seen := by simpa using refuseIf_ok_iff.1 hg
    obtain ⟨hnodup, hrest⟩ := ih hgs
    rw [List.map_cons, List.nodup_cons]
    refine ⟨⟨?_, hnodup⟩, ?_⟩
    · intro hmem
      obtain ⟨g', hg', heq⟩ := List.mem_map.1 hmem
      exact hrest g' hg' (heq ▸ List.mem_cons_self)
    · intro g' hmem
      rcases List.mem_cons.1 hmem with rfl | hmem
      · exact hnew
      · intro hseen
        exact hrest g' hmem (List.mem_cons_of_mem _ hseen)

structure SecondaryStore.Validated (store : SecondaryStore Scan Calib) : Prop where
  ids : (store.groups.map SecondaryGroup.id).Nodup
  pairs : ∀ g ∈ store.groups, g.pair.validate = .ok ()
  version : store.formatVersion = secondaryStoreVersion

theorem SecondaryStore.validated {store : SecondaryStore Scan Calib} (h : store.validate = .ok ()) :
    store.Validated := by
  obtain ⟨_, hversion, h⟩ := bind_ok_iff.1 h
  obtain ⟨_, -, h⟩ := bind_ok_iff.1 h
  obtain ⟨_, -, h⟩ := bind_ok_iff.1 h
  obtain ⟨_, -, h⟩ := bind_ok_iff.1 h
  obtain ⟨_, hgroups, h⟩ := bind_ok_iff.1 h
  obtain ⟨_, -, h⟩ := bind_ok_iff.1 h
  exact ⟨(validateIds_ok h).1, validateGroups_ok hgroups, by simpa using refuseIf_ok_iff.1 hversion⟩

/-! ## Activation and the group of a key -/

def SecondaryStore.activationAgainst (sha256Hex : List UInt8 → Text) (store : SecondaryStore Scan Calib)
    (primary : Option (List UInt8)) : Activation :=
  match primary with
  | none => .inactivePrimaryChanged
  | some bytes => if sha256Hex bytes = store.primarySnapshotSha256 then .active else .inactivePrimaryChanged

inductive StrictPairMatch (Scan Calib : Type) where
  | none
  | one (index : Nat) (group : SecondaryGroup Scan Calib)
  | ambiguous

/-- The loop over the groups; `found` is the match before. -/
def strictLoop (key : CompletePairKey) (found : Option (Nat × SecondaryGroup Scan Calib)) :
    List (SecondaryGroup Scan Calib × Nat) → StrictPairMatch Scan Calib
  | [] =>
    match found with
    | some (index, group) => .one index group
    | none => .none
  | (group, index) :: rest =>
    if group.pair.completeKey = some key then
      if found.isSome then .ambiguous else strictLoop key (some (index, group)) rest
    else strictLoop key found rest

def SecondaryStore.strictGroupForKey (store : SecondaryStore Scan Calib) (key : CompletePairKey) :
    StrictPairMatch Scan Calib :=
  match key.validate with
  | .error _ => .none
  | .ok _ => strictLoop key none store.groups.zipIdx

/-- The groups whose complete key is `key`. -/
def SecondaryStore.holding (store : SecondaryStore Scan Calib) (key : CompletePairKey) :
    List (SecondaryGroup Scan Calib) :=
  store.groups.filter fun g => g.pair.completeKey = some key

theorem strictLoop_one {key : CompletePairKey} {found : Option (Nat × SecondaryGroup Scan Calib)}
    {gs : List (SecondaryGroup Scan Calib × Nat)} {index : Nat} {group : SecondaryGroup Scan Calib}
    (h : strictLoop key found gs = .one index group) :
    (gs.map Prod.fst).filter (fun g => g.pair.completeKey = some key) ++
      (found.map Prod.snd).toList = [group] := by
  induction gs generalizing found with
  | nil =>
    cases found with
    | none => cases h
    | some f =>
      obtain ⟨i, g⟩ := f
      obtain ⟨rfl, rfl⟩ := StrictPairMatch.one.inj h
      rfl
  | cons g gs ih =>
    obtain ⟨g, i⟩ := g
    rw [strictLoop] at h
    by_cases hkey : g.pair.completeKey = some key
    · rw [if_pos hkey] at h
      cases found with
      | some f => cases h
      | none =>
        have hrest := ih h
        simp only [List.map_cons, List.filter_cons, hkey, decide_true, if_true, Option.map_none,
          Option.toList_none, List.append_nil, Option.map_some, Option.toList_some] at hrest ⊢
        rcases List.append_eq_singleton_iff.1 hrest with ⟨hnil, hone⟩ | ⟨-, habsurd⟩
        · rw [hnil, hone]
        · cases habsurd
    · rw [if_neg hkey] at h
      simpa [hkey] using ih h

theorem SecondaryStore.strictGroupForKey_one {store : SecondaryStore Scan Calib} {key : CompletePairKey}
    {index : Nat} {group : SecondaryGroup Scan Calib}
    (h : store.strictGroupForKey key = .one index group) : store.holding key = [group] := by
  unfold SecondaryStore.strictGroupForKey at h
  split at h
  · cases h
  · have hone := strictLoop_one h
    rwa [List.zipIdx_map_fst, Option.map_none, Option.toList_none, List.append_nil] at hone

def sha256OfNothing : Text :=
  "e3b0c44298fc1c149afbf4c8996fb924" ++ "27ae41e4649b934ca495991b7852b855"

end Irlume.Cameras

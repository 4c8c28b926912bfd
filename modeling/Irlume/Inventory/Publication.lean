import Irlume.Inventory.Events

/-!
# The published snapshot and its revision

`snapshot` copies what may be shown: the cameras that are not in doubt, unless the display bounds are exceeded.
A revision is a stamp (`Stamp`): the operations only ever raise it, and while the stamp stands, what is
published stands too, unless an operation takes a published camera out of a publication that is already
refreshing, which leaves the revision alone (`revision_reused`).
-/

namespace Irlume.Inventory

open Irlume.Lib

/-! ## The display contract -/

def maxCameraCandidates : Nat := 32

def maxCameraEndpoints : Nat := 16

def maxCameraEndpointBytes : Nat := 96

/-- One connected physical group. -/
structure CameraCandidate where
  instanceId : Text
  generation : Nat
  endpointPaths : List Text
  deriving DecidableEq

structure CameraInventorySnapshot where
  state : CameraInventoryState := .uninitialized
  supervisorId : Option Text := none
  revision : Nat := 0
  observedAgoMs : Option Nat := none
  reason : Option CameraInventoryReason := none
  candidates : List CameraCandidate := []

def isEndpointByte (b : UInt8) : Bool :=
  ('0'.toUInt8 ≤ b && b ≤ '9'.toUInt8) || ('A'.toUInt8 ≤ b && b ≤ 'Z'.toUInt8) ||
    ('a'.toUInt8 ≤ b && b ≤ 'z'.toUInt8) || ['-', '_', '.'].any (·.toUInt8 = b)

/-- A literal name under `/dev/`. -/
def validEndpoint (path : Text) : Bool :=
  match afterStart path "/dev/" with
  | none => false
  | some name =>
    name ≠ [] && byteLength path ≤ maxCameraEndpointBytes && (bytes name).all isEndpointByte &&
      name ≠ ['.'] && name ≠ ['.', '.']

def CameraCandidate.validate (c : CameraCandidate) : Except String Unit :=
  if !validId c.instanceId || c.generation = 0 then .error "invalid camera candidate identity"
  else if c.endpointPaths = [] || maxCameraEndpoints < c.endpointPaths.length then
    .error "invalid camera endpoint count"
  else if c.endpointPaths.all validEndpoint && c.endpointPaths.Nodup then .ok ()
  else .error "invalid camera endpoint"

def validateCandidates : List CameraCandidate → List Text → List Text → Except String Unit
  | [], _, _ => .ok ()
  | c :: cs, ids, endpoints => do
    c.validate
    if c.instanceId ∈ ids ∨ c.endpointPaths.any (· ∈ endpoints) then
      .error "duplicate camera identity or endpoint"
    else validateCandidates cs (c.instanceId :: ids) (c.endpointPaths ++ endpoints)

namespace CameraInventorySnapshot

def validateState (s : CameraInventorySnapshot) : Except String Unit :=
  match s.state with
  | .uninitialized =>
    if s.supervisorId.isSome || s.revision ≠ 0 || s.observedAgoMs.isSome || s.reason.isSome ||
        s.candidates ≠ [] then
      .error "invalid uninitialized camera inventory"
    else .ok ()
  | .current | .refreshing =>
    if s.supervisorId.isNone || s.revision = 0 || s.reason.isSome ||
        (s.state = .current && s.observedAgoMs.isNone) then
      .error "invalid published camera inventory"
    else .ok ()
  | .unavailable =>
    if s.reason.isNone || s.candidates ≠ [] then .error "invalid unavailable camera inventory"
    else .ok ()

def validate (s : CameraInventorySnapshot) : Except String Unit :=
  if maxCameraCandidates < s.candidates.length then .error "too many camera candidates"
  else if s.supervisorId.any (fun id => !validId id) then .error "invalid camera supervisor identity"
  else do
    validateCandidates s.candidates [] []
    s.validateState

/-- What is published when the bounds of the display are exceeded. -/
def outOfBounds (s : CameraInventorySnapshot) : CameraInventorySnapshot :=
  { s with state := .unavailable, reason := some .bounds, candidates := [] }

def bounded (s : CameraInventorySnapshot) : CameraInventorySnapshot :=
  if s.validate = .ok () then s else s.outOfBounds

end CameraInventorySnapshot

def InventoryEntry.candidate (e : InventoryEntry) : CameraCandidate :=
  ⟨e.instanceId.text, e.generation.get, e.observation.endpointPaths⟩

/-- The candidates of the entries, after those found so far; `none` when a bound is exceeded. -/
def boundedCandidates : List InventoryEntry → List CameraCandidate → Option (List CameraCandidate)
  | [], found => some found
  | e :: es, found =>
    if found.length = maxCameraCandidates ∨ maxCameraEndpoints < e.observation.endpointPaths.length ∨
        e.observation.endpointPaths.any (maxCameraEndpointBytes < byteLength ·) then
      none
    else if e.candidate.validate = .ok () then boundedCandidates es (found ++ [e.candidate])
    else none

namespace CameraInventory

/-- `snapshot`, with the time it is taken at. -/
def snapshot (inv : CameraInventory) (now : Nat) : CameraInventorySnapshot :=
  if inv.publicationState = .uninitialized then {}
  else
    let empty : CameraInventorySnapshot :=
      { state := inv.publicationState
        supervisorId := some inv.supervisorId.text
        revision := inv.revision
        observedAgoMs := inv.observedAt.map fun t => min (now - t) (u64Bound - 1)
        reason := inv.publicationReason }
    let result :=
      if inv.publicationState ≠ .unavailable then
        match boundedCandidates ((values inv.active).filter fun e => !inv.invalidated e) [] with
        | some candidates => { empty with candidates := candidates }
        | none => empty.outOfBounds
      else empty
    result.bounded

/-! ## Publications that agree -/

/-- What of a snapshot stands for as long as its revision does. -/
structure Published where
  state : CameraInventoryState
  reason : Option CameraInventoryReason
  supervisorId : CameraInstanceId
  revision : Nat
  observed : Bool
  entries : List InventoryEntry
  deriving DecidableEq

def published (inv : CameraInventory) : Published where
  state := inv.publicationState
  reason := inv.publicationReason
  supervisorId := inv.supervisorId
  revision := inv.revision
  observed := inv.observedAt.isSome
  entries := if inv.publicationState = .unavailable then [] else
    (values inv.active).filter fun e => !inv.invalidated e

/-- Two snapshots that agree on what they publish. -/
structure SameSnapshot (s s' : CameraInventorySnapshot) : Prop where
  state : s.state = s'.state
  reason : s.reason = s'.reason
  candidates : s.candidates = s'.candidates

theorem sameSnapshot_bounded (s : CameraInventorySnapshot) {a b : Option Nat}
    (h : a.isSome = b.isSome) :
    SameSnapshot ({ s with observedAgoMs := a } : CameraInventorySnapshot).bounded
      ({ s with observedAgoMs := b } : CameraInventorySnapshot).bounded := by
  have hvalid : ({ s with observedAgoMs := a } : CameraInventorySnapshot).validate =
      ({ s with observedAgoMs := b } : CameraInventorySnapshot).validate := by
    cases a <;> cases b <;> simp_all [CameraInventorySnapshot.validate,
      CameraInventorySnapshot.validateState]
  rw [CameraInventorySnapshot.bounded, CameraInventorySnapshot.bounded, hvalid]
  split <;> exact ⟨rfl, rfl, rfl⟩

variable {inv inv' : CameraInventory}

theorem sameSnapshot_of_published (h : inv.published = inv'.published)
    (now now' : Nat) : SameSnapshot (inv.snapshot now) (inv'.snapshot now') := by
  obtain ⟨hstate, hreason, hsup, hrev, hobs, hentries⟩ := Published.mk.inj h
  have hage : (inv.observedAt.map fun t => min (now - t) (u64Bound - 1)).isSome =
      (inv'.observedAt.map fun t => min (now' - t) (u64Bound - 1)).isSome := by
    rw [Option.isSome_map, Option.isSome_map, hobs]
  rw [snapshot, snapshot, hstate, hreason, hsup, hrev]
  split
  · exact ⟨rfl, rfl, rfl⟩
  · by_cases hun : inv'.publicationState = .unavailable
    · simp only [hun, ne_eq, not_true_eq_false, if_false]
      exact sameSnapshot_bounded ⟨.unavailable, some inv'.supervisorId.text, inv'.revision, none,
        inv'.publicationReason, []⟩ hage
    · rw [hstate, if_neg hun, if_neg hun] at hentries
      simp only [hun, ne_eq, not_false_eq_true, if_true, hentries]
      split
      · next candidates _ =>
        exact sameSnapshot_bounded ⟨inv'.publicationState, some inv'.supervisorId.text,
          inv'.revision, none, inv'.publicationReason, candidates⟩ hage
      · exact sameSnapshot_bounded ⟨.unavailable, some inv'.supervisorId.text, inv'.revision, none,
          some .bounds, []⟩ hage

/-! ## Revisions -/

def stamp (inv : CameraInventory) : Nat ×ₗ Nat := toLex (inv.generated, inv.revision)

theorem advanceRevision_stamp (inv : CameraInventory) : inv.stamp < inv.advanceRevision.stamp := by
  rw [advanceRevision, stamp, stamp, Prod.Lex.toLex_lt_toLex]
  split
  · exact .inr ⟨rfl, Nat.lt_succ_self _⟩
  · exact .inl (Nat.lt_succ_self _)

/-- Who numbers the publications and how far that has come. -/
structure Numbering where
  generate : Nat → CameraInstanceId
  generated : Nat
  supervisorId : CameraInstanceId
  revision : Nat

def numbering (inv : CameraInventory) : Numbering :=
  ⟨inv.generate, inv.generated, inv.supervisorId, inv.revision⟩

theorem advanceRevision_numbering (h : inv.numbering = inv'.numbering) :
    inv.advanceRevision.numbering = inv'.advanceRevision.numbering := by
  obtain ⟨hgenerate, hgenerated, hsup, hrev⟩ := Numbering.mk.inj h
  rw [advanceRevision, advanceRevision, hrev]
  split <;> simp [numbering, hgenerate, hgenerated, hsup]

theorem stamp_of_numbering (h : inv.numbering = inv'.numbering) :
    inv.stamp = inv'.stamp := by
  obtain ⟨-, hgenerated, -, hrev⟩ := Numbering.mk.inj h
  rw [stamp, stamp, hgenerated, hrev]

/-- The supervisor's identifier is the last one drawn. -/
structure Numbered (inv : CameraInventory) : Prop where
  generated : 0 < inv.generated
  supervisor : inv.supervisorId = inv.generate (inv.generated - 1)

theorem Numbered.of_numbering (h : Numbered inv)
    (heq : inv'.numbering = inv.numbering) : Numbered inv' := by
  obtain ⟨hgenerate, hgenerated, hsup, -⟩ := Numbering.mk.inj heq
  exact ⟨hgenerated ▸ h.generated, by rw [hsup, hgenerate, hgenerated, h.supervisor]⟩

variable {inv : CameraInventory}

theorem Numbered.advanceRevision (h : Numbered inv) :
    Numbered inv.advanceRevision := by
  rw [CameraInventory.advanceRevision]
  split
  · exact ⟨h.generated, h.supervisor⟩
  · exact ⟨Nat.succ_pos _, rfl⟩

/-- What is published fits the state of the publication. -/
structure StateSound (inv : CameraInventory) : Prop where
  currentClear : inv.publicationState = .current → inv.invalidatedInstanceIds = ∅
  currentReason : inv.publicationState = .current → inv.publicationReason = none
  currentObserved : inv.publicationState = .current → inv.observedAt.isSome = true
  refreshing : inv.publicationState = .refreshing → inv.publicationReason = none
  unavailable : inv.publicationState = .unavailable →
    ∀ {k : Text} {e : InventoryEntry}, inv.active[k]? = some e → inv.invalidated e = true
  uninitialized : inv.publicationState = .uninitialized → ∀ k : Text, inv.active[k]? = none

theorem StateSound.of_refreshing (hstate : inv.publicationState = .refreshing)
    (hreason : inv.publicationReason = none) : StateSound inv := by
  refine ⟨?_, ?_, ?_, fun _ => hreason, ?_, ?_⟩ <;> intro h <;> rw [hstate] at h <;> cases h

/-- The invariant of every run. -/
structure PublicationSound (inv : CameraInventory) : Prop where
  identities : Identities inv.active inv.retiredInstanceIds
  numbered : Numbered inv
  state : StateSound inv

theorem publicationSound_new (source generate : Nat → CameraInstanceId) :
    PublicationSound (new source generate) := by
  refine ⟨identities_new source generate, ⟨Nat.one_pos, rfl⟩, ?_⟩
  refine ⟨?_, ?_, ?_, ?_, ?_, fun _ k => Std.ExtTreeMap.getElem?_empty⟩ <;> intro h <;> cases h

/-! ## One step -/

/-- What a step does to the publication: it raises the stamp, or it keeps it, and what is published
then stands if the step `keeps` it. -/
structure Move (keeps : Prop) (inv inv' : CameraInventory) : Prop where
  numbered : Numbered inv'
  state : StateSound inv'
  generate : inv'.generate = inv.generate
  stamp : inv.stamp ≤ inv'.stamp
  steady : keeps → inv.stamp = inv'.stamp → inv'.published = inv.published

variable {keeps : Prop}

theorem Move.raised (h : Numbered inv)
    (hnumbering : inv'.numbering = inv.advanceRevision.numbering) (hstate : StateSound inv') :
    Move keeps inv inv' := by
  have hlt : inv.stamp < inv'.stamp := by
    rw [stamp_of_numbering hnumbering]
    exact inv.advanceRevision_stamp
  refine ⟨h.advanceRevision.of_numbering hnumbering, hstate, ?_, hlt.le, fun _ heq => absurd heq hlt.ne⟩
  rw [(Numbering.mk.inj hnumbering).1, CameraInventory.advanceRevision]
  split <;> rfl

theorem Move.still (h : Numbered inv)
    (hnumbering : inv'.numbering = inv.numbering) (hstate : StateSound inv')
    (hpublished : keeps → inv'.published = inv.published) : Move keeps inv inv' :=
  ⟨h.of_numbering hnumbering, hstate, (Numbering.mk.inj hnumbering).1,
    (stamp_of_numbering hnumbering).ge, fun hkeeps _ => hpublished hkeeps⟩

/-- All that is listed of `ts` is in doubt already. -/
def Doubted (inv : CameraInventory) (ts : List Text) : Prop :=
  ∀ k ∈ ts, ∀ e, inv.active[k]? = some e → inv.invalidated e = true

theorem published_congr (hstate : inv'.publicationState = inv.publicationState)
    (hreason : inv'.publicationReason = inv.publicationReason)
    (hnumbering : inv'.numbering = inv.numbering) (hobserved : inv'.observedAt = inv.observedAt)
    (hentries : ∀ k : Text, inv'.active[k]?.filter (fun e => !inv'.invalidated e) =
      inv.active[k]?.filter fun e => !inv.invalidated e) : inv'.published = inv.published := by
  obtain ⟨-, -, hsup, hrev⟩ := Numbering.mk.inj hnumbering
  rw [published, published, hstate, hreason, hsup, hrev, hobserved, filter_values_congr hentries]

theorem markRefreshing_numbering :
    inv.markRefreshing.numbering =
      (if inv.publicationState = .refreshing then inv else inv.advanceRevision).numbering := by
  rw [markRefreshing]
  by_cases h : inv.publicationState = .refreshing <;> simp [h] <;> rfl

/-- A publication that is already refreshing shows nothing of `ts`. -/
def Unshown (inv : CameraInventory) (ts : List Text) : Prop :=
  inv.publicationState = .refreshing → inv.Doubted ts

theorem Move.refreshing (h : PublicationSound inv)
    (hnumbering : inv'.numbering = inv.markRefreshing.numbering)
    (hstate : inv'.publicationState = .refreshing) (hreason : inv'.publicationReason = none)
    (hobserved : inv'.observedAt = inv.observedAt)
    (hentries : keeps → inv.publicationState = .refreshing → ∀ k : Text,
      inv'.active[k]?.filter (fun e => !inv'.invalidated e) =
        inv.active[k]?.filter fun e => !inv.invalidated e) : Move keeps inv inv' := by
  have hsound := StateSound.of_refreshing hstate hreason
  rw [markRefreshing_numbering] at hnumbering
  split at hnumbering
  · next hwas =>
    refine .still h.numbered hnumbering hsound fun hkeeps => ?_
    exact published_congr (hstate.trans hwas.symm) (hreason.trans (h.state.refreshing hwas).symm)
      hnumbering hobserved (hentries hkeeps hwas)
  · exact .raised h.numbered hnumbering hsound

@[simp] theorem markRefreshing_observedAt (inv : CameraInventory) :
    inv.markRefreshing.observedAt = inv.observedAt := by
  rw [markRefreshing, CameraInventory.advanceRevision]
  split <;> [split <;> rfl; rfl]

theorem move_invalidateAll (h : PublicationSound inv) :
    Move (inv.Unshown inv.active.keys) inv inv.invalidateAll := by
  refine .refreshing h rfl rfl rfl inv.markRefreshing_observedAt fun hkeeps hwas k => ?_
  rw [show inv.invalidateAll.active = inv.active by simp [invalidateAll]]
  cases he : inv.active[k]? with
  | none => rfl
  | some e =>
    have hmem : k ∈ inv.active := Std.ExtTreeMap.mem_iff_isSome_getElem?.2 (by simp [he])
    have hold := hkeeps hwas k (Std.ExtTreeMap.mem_keys.2 hmem) e he
    simp [Option.filter, hold, invalidateAll_invalidated he]

theorem move_invalidateTopologies (h : PublicationSound inv) (ts : TextSet) :
    Move (inv.Unshown ts.toList) inv (inv.invalidateTopologies ts) := by
  refine .refreshing h rfl rfl rfl inv.markRefreshing_observedAt fun hkeeps hwas k => ?_
  rw [show (inv.invalidateTopologies ts).active = inv.active by simp [invalidateTopologies]]
  cases he : inv.active[k]? with
  | none => rfl
  | some e =>
    have hsame : (inv.invalidateTopologies ts).invalidated e = inv.invalidated e := by
      rw [Bool.eq_iff_iff, invalidateTopologies_invalidated, or_iff_left_iff_imp]
      rintro ⟨t, ht, f, hf, hid⟩
      obtain rfl : t = k := h.identities.distinct hf he hid
      exact hkeeps hwas t ht e he
    rw [Option.filter, Option.filter, hsame]

theorem RetiredSpec.entries {ts : List Text}
    (hids : Identities inv.active inv.retiredInstanceIds) (h : RetiredSpec inv ts inv')
    (hdoubted : inv.Doubted ts) (k : Text) :
    inv'.active[k]?.filter (fun e => !inv'.invalidated e) =
      inv.active[k]?.filter fun e => !inv.invalidated e := by
  by_cases hk : k ∈ ts
  · rw [h.gone k hk]
    cases he : inv.active[k]? with
    | none => rfl
    | some e => simp [Option.filter, hdoubted k hk e he]
  · rw [h.others k hk]
    cases he : inv.active[k]? with
    | none => rfl
    | some e =>
      have hsame : inv'.invalidated e = inv.invalidated e := by
        rw [Bool.eq_iff_iff, invalidated_iff, invalidated_iff, h.invalidated, and_iff_left_iff_imp]
        rintro _ ⟨t, ht, f, hf, hid⟩
        exact hk (hids.distinct hf he hid ▸ ht)
      rw [Option.filter, Option.filter, hsame]

theorem StateSound.of_retired {ts : List Text}
    (hids : Identities inv.active inv.retiredInstanceIds) (hstate : StateSound inv)
    (h : RetiredSpec inv ts inv') : StateSound inv' := by
  have hps : inv'.publicationState = inv.publicationState := by rw [h.rest]
  have hreason : inv'.publicationReason = inv.publicationReason := by rw [h.rest]
  have hobserved : inv'.observedAt = inv.observedAt := by rw [h.rest]
  refine ⟨?_, ?_, ?_, ?_, ?_, ?_⟩ <;> rw [hps] <;> intro hwas
  · rw [Finset.eq_empty_iff_forall_notMem]
    intro id hid
    have hold := ((h.invalidated id).1 hid).1
    rw [hstate.currentClear hwas] at hold
    exact Finset.notMem_empty _ hold
  · exact hreason.trans (hstate.currentReason hwas)
  · rw [hobserved]
    exact hstate.currentObserved hwas
  · exact hreason.trans (hstate.refreshing hwas)
  · intro k e he
    have hk : k ∉ ts := by
      intro hk
      rw [h.gone k hk] at he
      cases he
    rw [h.others k hk] at he
    rw [invalidated_iff, h.invalidated, ← invalidated_iff]
    refine ⟨hstate.unavailable hwas he, ?_⟩
    rintro ⟨t, ht, f, hf, hid⟩
    exact hk (hids.distinct hf he hid ▸ ht)
  · intro k
    by_cases hk : k ∈ ts
    · exact h.gone k hk
    · exact (h.others k hk).trans (hstate.uninitialized hwas k)

theorem StateSound.pruneRoles (h : StateSound inv) :
    StateSound inv.pruneRoles :=
  ⟨h.currentClear, h.currentReason, h.currentObserved, h.refreshing, h.unavailable, h.uninitialized⟩

theorem not_mem_of_any_eq_false {ts : TextSet}
    (h : ¬(ts.toList.any fun t => decide (t ∈ inv.active)) = true) {k : Text} (hk : k ∈ ts.toList) :
    inv.active[k]? = none := by
  apply getElem?_neg
  intro hmem
  exact h (List.any_eq_true.2 ⟨k, hk, decide_eq_true hmem⟩)

theorem move_retireTopologies (h : PublicationSound inv) (ts : TextSet) :
    Move (inv.Unshown ts.toList) inv (inv.retireTopologies ts).1 := by
  obtain ⟨inv', hspec, heq⟩ := inv.retired_spec ts
  rw [heq]
  by_cases hany : (ts.toList.any fun t => decide (t ∈ inv.active)) = true
  · rw [refreshedFor, if_pos hany] at hspec
    refine .refreshing h ?_ ?_ ?_ ?_ fun hkeeps hwas k => ?_
    · rw [hspec.rest]
      rfl
    · rw [hspec.rest]
      rfl
    · rw [hspec.rest]
      rfl
    · rw [hspec.rest]
      exact inv.markRefreshing_observedAt
    · have hids := (continues_markRefreshing h.identities).identities
      have hdoubted : inv.markRefreshing.Doubted ts.toList := by
        simpa [Doubted, invalidated] using hkeeps hwas
      have hentries := hspec.entries hids hdoubted k
      simp only [markRefreshing_active, invalidated, markRefreshing_invalidated] at hentries
      exact hentries
  · rw [refreshedFor, if_neg hany] at hspec
    have hdoubted : inv.Doubted ts.toList := by
      intro k hk e he
      rw [not_mem_of_any_eq_false hany hk] at he
      cases he
    have hnumbering : inv'.numbering = inv.numbering := by
      rw [hspec.rest]
      rfl
    refine .still h.numbered hnumbering (h.state.of_retired h.identities hspec).pruneRoles fun _ => ?_
    have hpublished : inv'.published = inv.published :=
      published_congr (by rw [hspec.rest]) (by rw [hspec.rest]) hnumbering (by rw [hspec.rest])
        (hspec.entries h.identities hdoubted)
    exact hpublished

theorem move_markUnavailable (h : Numbered inv)
    (reason : CameraInventoryReason) : Move True inv (inv.markUnavailable reason) := by
  have hsound : StateSound (inv.markUnavailable reason) := by
    refine ⟨?_, ?_, ?_, ?_, ?_, ?_⟩ <;> intro hwas
    · cases hwas
    · cases hwas
    · cases hwas
    · cases hwas
    · intro k e he
      have hactive : (inv.markUnavailable reason).active = inv.active := by
        rw [markUnavailable, pruneRoles_active]
        dsimp only
        split <;> simp
      rw [hactive] at he
      exact markUnavailable_invalidated he
    · cases hwas
  by_cases hraise : inv.publicationState ≠ .unavailable ∨ inv.publicationReason ≠ some reason
  · refine .raised h ?_ hsound
    rw [markUnavailable]
    dsimp only
    rw [if_pos hraise]
    exact advanceRevision_numbering rfl
  · have hnumbering : (inv.markUnavailable reason).numbering = inv.numbering := by
      rw [markUnavailable]
      dsimp only
      rw [if_neg hraise]
      rfl
    refine .still h hnumbering hsound fun _ => ?_
    rw [not_or, not_not, not_not] at hraise
    obtain ⟨-, -, hsup, hrev⟩ := Numbering.mk.inj hnumbering
    have hobserved : (inv.markUnavailable reason).observedAt = inv.observedAt := by
      rw [markUnavailable]
      dsimp only
      rw [if_neg (by simp [hraise])]
      rfl
    rw [published, published, hsup, hrev, hobserved, hraise.1, hraise.2]
    rfl

theorem markUnavailable_stamp (reason : CameraInventoryReason)
    (h : inv.publicationState ≠ .unavailable) : inv.stamp < (inv.markUnavailable reason).stamp := by
  have hnumbering : (inv.markUnavailable reason).numbering = inv.advanceRevision.numbering := by
    rw [markUnavailable]
    dsimp only
    rw [if_pos (.inl h)]
    exact advanceRevision_numbering rfl
  rw [stamp_of_numbering hnumbering]
  exact inv.advanceRevision_stamp

theorem retireTopologies_state {ts : TextSet}
    (h : (ts.toList.any fun t => decide (t ∈ inv.active)) = true) :
    (inv.retireTopologies ts).1.publicationState = .refreshing := by
  obtain ⟨inv', hspec, heq⟩ := inv.retired_spec ts
  rw [refreshedFor, if_pos h] at hspec
  rw [heq, pruneRoles_state, hspec.rest]
  rfl

theorem move_retireUnavailable (h : PublicationSound inv)
    (reason : CameraInventoryReason) : Move True inv (inv.retireUnavailable reason) := by
  have hretire := move_retireTopologies h (Std.ExtTreeSet.ofList inv.active.keys)
  have hmark := move_markUnavailable hretire.numbered reason
  refine ⟨hmark.numbered, hmark.state, hmark.generate.trans hretire.generate,
    hretire.stamp.trans hmark.stamp, fun _ heq => ?_⟩
  have hfirst := le_antisymm hretire.stamp (hmark.stamp.trans_eq heq.symm)
  have hsecond := hfirst.symm.trans heq
  by_cases hany : ((Std.ExtTreeSet.ofList inv.active.keys : TextSet).toList.any fun t =>
      decide (t ∈ inv.active)) = true
  · -- a camera went, so the publication was refreshing when it became unavailable
    have hlt := markUnavailable_stamp reason
      (show (inv.retireTopologies (Std.ExtTreeSet.ofList inv.active.keys)).1.publicationState ≠ .unavailable
        by rw [retireTopologies_state hany]; decide)
    exact absurd hsecond hlt.ne
  · have hdoubted : inv.Doubted (Std.ExtTreeSet.ofList inv.active.keys : TextSet).toList := by
      intro k hk e he
      rw [not_mem_of_any_eq_false hany hk] at he
      cases he
    exact (hmark.steady trivial hsecond).trans (hretire.steady (fun _ => hdoubted) hfirst)

theorem move_committed (h : PublicationSound inv)
    {observations : List CameraObservation} {incoming : TextMap CameraObservation} {m : Merge}
    (hcensus : Census inv observations incoming m) (now : Nat) :
    Move True inv (inv.committed m now) := by
  have hcommitted := inv.committed_committed m now
  have hreason : (inv.committed m now).publicationReason = none := rfl
  have hsound : StateSound (inv.committed m now) := by
    refine ⟨fun _ => hcommitted.clear, fun _ => hreason, fun _ => rfl, ?_, ?_, ?_⟩ <;> intro hwas <;>
      rw [hcommitted.state] at hwas <;> cases hwas
  by_cases hraise : inv.publicationState ≠ .current ∨ m.events ≠ []
  · refine .raised h.numbered ?_ hsound
    rw [committed]
    dsimp only
    rw [if_pos hraise]
    exact advanceRevision_numbering rfl
  · rw [not_or, not_not, not_not] at hraise
    obtain ⟨hwas, hevents⟩ := hraise
    obtain ⟨noted, hspec⟩ := hcensus.spec h.identities
    have hnumbering : (inv.committed m now).numbering = inv.numbering := by
      rw [committed]
      dsimp only
      rw [if_neg (by simp [hwas, hevents])]
      rfl
    refine .still h.numbered hnumbering hsound fun _ => ?_
    obtain ⟨-, -, hsup, hrev⟩ := Numbering.mk.inj hnumbering
    have hentries : ∀ k : Text, (inv.committed m now).active[k]?.filter
        (fun e => !(inv.committed m now).invalidated e) =
        inv.active[k]?.filter fun e => !inv.invalidated e := by
      intro k
      rw [inv.committed_active, hspec.unchanged (k := k) (by simp [hevents])]
      simp [invalidated, hcommitted.clear, h.state.currentClear hwas]
    rw [published, published, hcommitted.state, hwas, hreason, h.state.currentReason hwas, hsup, hrev,
      filter_values_congr hentries, h.state.currentObserved hwas]
    rfl

/-! ## Runs -/

def KeepsPublished (inv : CameraInventory) : Op → Prop
  | .invalidateAll => inv.Unshown inv.active.keys
  | .invalidateTopologies ts | .retireTopologies ts => inv.Unshown ts.toList
  | _ => True

section

variable (h : PublicationSound inv)

include h

theorem move_same
    (hnumbering : inv'.numbering = inv.numbering) (hstate : StateSound inv')
    (hpublished : inv'.published = inv.published) : Move True inv inv' :=
  .still h.numbered hnumbering hstate fun _ => hpublished

theorem move_step (op : Op) :
    Move (inv.KeepsPublished op) inv (inv.step op) := by
  cases op with
  | reconcileGuarded observations quiet now =>
    have huncommitted : ∀ drawn, Move True inv { inv with drawn := drawn } := fun drawn =>
      move_same h rfl ⟨h.state.currentClear, h.state.currentReason, h.state.currentObserved,
        h.state.refreshing, h.state.unavailable, h.state.uninitialized⟩ rfl
    rcases inv.reconcile_cases observations quiet now with ⟨e, drawn, heq⟩ | ⟨incoming, m, hc, heq⟩
    · rw [step, heq]
      exact huncommitted drawn
    · rw [step, heq]
      split
      · exact move_committed h hc now
      · exact huncommitted m.drawn
  | invalidateAll => exact move_invalidateAll h
  | invalidateTopologies ts => exact move_invalidateTopologies h ts
  | retireTopologies ts => exact move_retireTopologies h ts
  | markUnavailable reason => exact move_markUnavailable h.numbered reason
  | retireUnavailable reason => exact move_retireUnavailable h reason
  | recordRoles before classified =>
    exact move_same h rfl ⟨h.state.currentClear, h.state.currentReason, h.state.currentObserved,
      h.state.refreshing, h.state.unavailable, h.state.uninitialized⟩ rfl

theorem publicationSound_step (op : Op) :
    PublicationSound (inv.step op) :=
  ⟨(continues_step h.identities op).identities, (move_step h op).numbered, (move_step h op).state⟩

theorem publicationSound_after (ops : List Op) :
    PublicationSound (inv.after ops) :=
  after_invariant (I := PublicationSound) (fun _ op hinv => publicationSound_step hinv op) h ops

end

def AllKeep : CameraInventory → List Op → Prop
  | _, [] => True
  | inv, op :: ops => inv.KeepsPublished op ∧ AllKeep (inv.step op) ops

theorem move_after (h : PublicationSound inv) (ops : List Op) :
    Move (AllKeep inv ops) inv (inv.after ops) := by
  induction ops generalizing inv with
  | nil => exact .still h.numbered rfl h.state fun _ => rfl
  | cons op ops ih =>
    have hfirst := move_step h op
    have hrest := ih (publicationSound_step h op)
    refine ⟨hrest.numbered, hrest.state, hrest.generate.trans hfirst.generate,
      hfirst.stamp.trans hrest.stamp, fun hkeep heq => ?_⟩
    have hsame := le_antisymm hfirst.stamp (hrest.stamp.trans_eq heq.symm)
    exact (hrest.steady hkeep.2 (hsame.symm.trans heq)).trans (hfirst.steady hkeep.1 hsame)

theorem bounded_supervisorId (s : CameraInventorySnapshot) :
    s.bounded.supervisorId = s.supervisorId := by
  rw [CameraInventorySnapshot.bounded]; split <;> rfl

theorem bounded_revision (s : CameraInventorySnapshot) : s.bounded.revision = s.revision := by
  rw [CameraInventorySnapshot.bounded]; split <;> rfl

theorem snapshot_supervisorId (inv : CameraInventory) (now : Nat) :
    (inv.snapshot now).supervisorId =
      if inv.publicationState = .uninitialized then none else some inv.supervisorId.text := by
  rw [snapshot]
  split
  · rfl
  · dsimp only
    rw [bounded_supervisorId]
    split
    · split <;> rfl
    · rfl

theorem snapshot_revision (inv : CameraInventory) (now : Nat) :
    (inv.snapshot now).revision =
      if inv.publicationState = .uninitialized then 0 else inv.revision := by
  rw [snapshot]
  split
  · rfl
  · dsimp only
    rw [bounded_revision]
    split
    · split <;> rfl
    · rfl

/-- **A publication revision names one publication**, and it never goes back, in every run that takes
no published camera out of a publication that is already refreshing. The supervisor's identifiers
are random: those drawn in one run are taken to differ. -/
theorem revision_names_publication {source generate : Nat → CameraInstanceId}
    {earlier later : List Op}
    (hgenerate : Set.InjOn generate (Set.Iio (((new source generate).after earlier).after later).generated))
    (now now' : Nat) :
    let inv := (new source generate).after earlier
    let inv' := inv.after later
    let s := inv.snapshot now
    let s' := inv'.snapshot now'
    s.supervisorId = s'.supervisorId → s.revision ≤ s'.revision ∧
      (AllKeep inv later → s.revision = s'.revision → SameSnapshot s s') := by
  intro inv inv' s s' hsup
  have hsound : PublicationSound inv := publicationSound_after (publicationSound_new _ _) earlier
  have hmove : Move (AllKeep inv later) inv inv' := move_after hsound later
  have hinv : inv.generate = generate :=
    (move_after (publicationSound_new source generate) earlier).generate
  have hinv' : inv'.generate = generate := hmove.generate.trans hinv
  rw [snapshot_supervisorId, snapshot_supervisorId] at hsup
  rw [snapshot_revision, snapshot_revision]
  by_cases hun : inv.publicationState = .uninitialized <;>
    by_cases hun' : inv'.publicationState = .uninitialized
  · rw [if_pos hun, if_pos hun']
    refine ⟨le_refl _, fun _ _ => ?_⟩
    have hs : s = {} := if_pos hun
    have hs' : s' = {} := if_pos hun'
    rw [hs, hs']
    exact ⟨rfl, rfl, rfl⟩
  · rw [if_pos hun, if_neg hun'] at hsup
    cases hsup
  · rw [if_neg hun, if_pos hun'] at hsup
    cases hsup
  · rw [if_neg hun, if_neg hun', Option.some.injEq] at hsup
    have hid := CameraInstanceId.text_injective hsup
    rw [hsound.numbered.supervisor, hmove.numbered.supervisor, hinv, hinv'] at hid
    have hpos := hsound.numbered.generated
    have hpos' := hmove.numbered.generated
    have hstamp := hmove.stamp
    rw [stamp, stamp, Prod.Lex.toLex_le_toLex] at hstamp
    have hle : inv.generated ≤ inv'.generated := by omega
    have hpred : inv.generated - 1 = inv'.generated - 1 := by
      apply hgenerate _ _ hid
      · change inv.generated - 1 < inv'.generated
        omega
      · change inv'.generated - 1 < inv'.generated
        omega
    have hgenerated : inv.generated = inv'.generated := by omega
    rw [if_neg hun, if_neg hun']
    have hle : inv.revision ≤ inv'.revision := by omega
    refine ⟨hle, fun hkeep hrev => ?_⟩
    have hsame : inv.stamp = inv'.stamp := by rw [stamp, stamp, hgenerated, hrev]
    exact sameSnapshot_of_published (hmove.steady hkeep hsame).symm now now'

/-- Two cameras, of which one is in doubt after the first operations and both after one more. The
revision is the same and the candidates are not. -/
theorem revision_reused :
    let census := Op.reconcileGuarded
      [sampleCamera "/devices/a" "/dev/video0", sampleCamera "/devices/b" "/dev/video2"] true 0
    let inv := (new sampleIds sampleIds).after
      [census, .invalidateTopologies (Std.ExtTreeSet.ofList ["/devices/a".toList])]
    let inv' := inv.step (.invalidateTopologies (Std.ExtTreeSet.ofList ["/devices/b".toList]))
    (inv.snapshot 0).supervisorId = (inv'.snapshot 0).supervisorId ∧
      (inv.snapshot 0).revision = (inv'.snapshot 0).revision ∧
      ¬SameSnapshot (inv.snapshot 0) (inv'.snapshot 0) := by
  refine ⟨by decide, by decide, fun h => ?_⟩
  exact absurd h.candidates (by decide)

/-- Doubting all cameras once more keeps the revision and what it stands for. -/
theorem revision_names_publication_sample :
    let census := Op.reconcileGuarded [sampleCamera "/devices/a" "/dev/video0"] true 0
    let inv := (new sampleIds sampleIds).after [census, .invalidateAll]
    SameSnapshot (inv.snapshot 0) ((inv.after [.invalidateAll]).snapshot 5) := by
  intro census inv
  have hdrawn : Set.InjOn sampleIds (Set.Iio (inv.after [.invalidateAll]).generated) := by
    have hone : (inv.after [.invalidateAll]).generated = 1 := by decide
    intro i hi j hj _
    rw [hone, Set.mem_Iio] at hi hj
    omega
  have hkeep : AllKeep inv [.invalidateAll] := by
    refine ⟨fun _ k _ e he => ?_, trivial⟩
    apply invalidateAll_invalidated (k := k)
    simpa [inv, after, step, invalidateAll] using he
  exact (revision_names_publication hdrawn 0 5 (by decide)).2 hkeep (by decide)

end CameraInventory

end Irlume.Inventory

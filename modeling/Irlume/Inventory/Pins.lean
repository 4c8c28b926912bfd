import Irlume.Inventory.Offers

/-!
# How the pins of a list resolve

`pinnedSplitPairs` as a whole: what a pair is made of, when a pin must become one, and what the answers do not
depend on. A side of a pin is looked for among the candidates that overlap no ordinary pair. What earlier pins
have claimed is compared through the nodes of the pairs they became.
-/

namespace Irlume.Inventory

open Irlume.Lib Irlume.Split

variable {toLowercase : Text → Text}

/-! ## One side of a pin -/

structure PinSide where
  identity : Text
  path : Text
  location : Option UsbLocation
  role : Role

def SplitPin.rgbSide (pin : SplitPin) : PinSide := ⟨pin.rgbIdentity, pin.rgbPath, pin.rgbLocation, .rgb⟩

def SplitPin.irSide (pin : SplitPin) : PinSide := ⟨pin.irIdentity, pin.irPath, pin.irLocation, .ir⟩

variable (toLowercase) in
/-- The candidate has the recorded identity and location, and the recorded node is its only one of
the role. -/
def PinSide.named (side : PinSide) (c : SplitCandidate) : Bool :=
  side.identity ≠ [] && c.input.usbDevice.isSome && c.identity toLowercase = side.identity &&
    c.roles.filter (·.2 = side.role) = [(side.path, side.role)] &&
    side.location.isSome && c.location = side.location

variable (toLowercase) in
def SplitCandidate.free (candidates : List SplitCandidate) (c : SplitCandidate) : Bool :=
  !candidates.any fun owner => owner.isOrdinaryPair toLowercase && owner.overlaps toLowercase c

variable (toLowercase) in
/-- `c` alone of the free candidates is what the side names. -/
def OnlyFree (candidates : List SplitCandidate) (side : PinSide) (c : SplitCandidate) : Prop :=
  candidates.filter (fun d => side.named toLowercase d && d.free toLowercase candidates) = [c]

instance (candidates : List SplitCandidate) (side : PinSide) (c : SplitCandidate) :
    Decidable (OnlyFree toLowercase candidates side c) :=
  inferInstanceAs (Decidable (_ = _))

theorem matchSide_ok_iff {ordinary : List SplitCandidate} {path : Text} {location : Option UsbLocation}
    {role : Role} {c : SplitCandidate} {found : UsbLocation} :
    matchSide toLowercase ordinary path location role c = .ok found ↔
      ordinary.any (·.overlaps toLowercase c) = false ∧
        c.roles.filter (·.2 = role) = [(path, role)] ∧ location = some found ∧
        c.location = some found := by
  constructor
  · intro h
    obtain ⟨hnodes, hlocation⟩ := matchSide_ok h
    unfold matchSide at h
    rw [hnodes, hlocation] at h
    split at h
    · cases h
    next hordinary =>
    dsimp only at h
    rw [if_neg (not_not.2 rfl)] at h
    refine ⟨Bool.eq_false_iff.2 hordinary, hnodes, ?_, hlocation⟩
    cases location with
    | none => cases h
    | some recorded =>
      dsimp only at h
      split at h
      · cases h
        rfl
      · cases h
  · rintro ⟨hordinary, hnodes, hrecorded, hcurrent⟩
    unfold matchSide
    rw [hordinary, hnodes, hrecorded, hcurrent]
    simp

def fullMatch (toLowercase : Text → Text) (ordinary : List SplitCandidate) (side : PinSide)
    (c : SplitCandidate) : Option ResolvedSide :=
  (matchSide toLowercase ordinary side.path side.location side.role c).toOption.map (⟨c, ·⟩)

def shortfall (toLowercase : Text → Text) (ordinary : List SplitCandidate) (side : PinSide)
    (c : SplitCandidate) : Option SideRefusal :=
  match matchSide toLowercase ordinary side.path side.location side.role c with
  | .ok _ => none
  | .error reason => some reason

theorem fullMatch_eq_some {ordinary : List SplitCandidate} {side : PinSide} {c : SplitCandidate}
    {s : ResolvedSide} : fullMatch toLowercase ordinary side c = some s ↔
      s.candidate = c ∧
        matchSide toLowercase ordinary side.path side.location side.role c = .ok s.location := by
  unfold fullMatch
  obtain ⟨d, l⟩ := s
  cases matchSide toLowercase ordinary side.path side.location side.role c with
  | error reason => simp [Except.toOption]
  | ok found => simp [Except.toOption, eq_comm]

def matchStep (toLowercase : Text → Text) (ordinary : List SplitCandidate) (side : PinSide)
    (found : List ResolvedSide × SideRefusal) (c : SplitCandidate) : List ResolvedSide × SideRefusal :=
  match matchSide toLowercase ordinary side.path side.location side.role c with
  | .ok location => (found.1 ++ [⟨c, location⟩], found.2)
  | .error reason => (found.1, found.2.max reason)

theorem foldl_matchStep (ordinary : List SplitCandidate) (side : PinSide) (named : List SplitCandidate)
    (found : List ResolvedSide × SideRefusal) :
    named.foldl (matchStep toLowercase ordinary side) found =
      (found.1 ++ named.filterMap (fullMatch toLowercase ordinary side),
        (named.filterMap (shortfall toLowercase ordinary side)).foldl SideRefusal.max found.2) := by
  induction named generalizing found with
  | nil => simp
  | cons c named ih =>
    rw [List.foldl_cons, ih, List.filterMap_cons, List.filterMap_cons]
    unfold matchStep fullMatch shortfall
    cases matchSide toLowercase ordinary side.path side.location side.role c with
    | error reason => rfl
    | ok location => simp [Except.toOption]

def PinSide.candidates (toLowercase : Text → Text) (side : PinSide) (candidates : List SplitCandidate) :
    List SplitCandidate :=
  candidates.filter fun c => c.input.usbDevice.isSome && c.identity toLowercase = side.identity

def ordinaryPairs (toLowercase : Text → Text) (candidates : List SplitCandidate) : List SplitCandidate :=
  candidates.filter (·.isOrdinaryPair toLowercase)

def ofMatches (found : List ResolvedSide) (best : SideRefusal) : Except SideRefusal ResolvedSide :=
  match found with
  | [side] => .ok side
  | [] => .error best
  | _ => .error .ambiguousMatch

theorem resolveSide_eq {candidates : List SplitCandidate} {side : PinSide}
    (hidentity : side.identity ≠ []) (hrole : side.role ≠ .other) :
    resolveSide toLowercase candidates side.identity side.path side.location side.role =
      let ordinary := ordinaryPairs toLowercase candidates
      let named := side.candidates toLowercase candidates
      ofMatches (named.filterMap (fullMatch toLowercase ordinary side))
        ((named.filterMap (shortfall toLowercase ordinary side)).foldl SideRefusal.max
          .noCandidateWithIdentity) := by
  rw [resolveSide, if_neg hidentity, if_neg hrole]
  have hloop := @foldl_matchStep toLowercase (ordinaryPairs toLowercase candidates) side
    (side.candidates toLowercase candidates) ([], .noCandidateWithIdentity)
  rw [List.nil_append] at hloop
  change ofMatches
    ((side.candidates toLowercase candidates).foldl
      (matchStep toLowercase (ordinaryPairs toLowercase candidates) side) ([], .noCandidateWithIdentity)).1
    ((side.candidates toLowercase candidates).foldl
      (matchStep toLowercase (ordinaryPairs toLowercase candidates) side) ([], .noCandidateWithIdentity)).2
    = _
  rw [hloop]

theorem ofMatches_ok {found : List ResolvedSide} {best : SideRefusal} {s : ResolvedSide} :
    ofMatches found best = .ok s ↔ found = [s] := by
  unfold ofMatches
  split
  · next side => simp
  · simp
  · next hne _ => simpa using fun h => hne s h

theorem map_candidate_matches {candidates : List SplitCandidate} {side : PinSide}
    (hidentity : side.identity ≠ []) :
    ((side.candidates toLowercase candidates).filterMap
        (fullMatch toLowercase (ordinaryPairs toLowercase candidates) side)).map
        ResolvedSide.candidate =
      candidates.filter fun d => side.named toLowercase d && d.free toLowercase candidates := by
  rw [PinSide.candidates, List.filterMap_filter, List.map_filterMap, ← List.filterMap_eq_filter]
  refine List.filterMap_congr fun c _ => ?_
  have hfree : (ordinaryPairs toLowercase candidates).any (·.overlaps toLowercase c) =
      !c.free toLowercase candidates := by
    rw [ordinaryPairs, List.any_filter, SplitCandidate.free, Bool.not_not]
  refine Option.ext fun d => ?_
  simp only [Option.map_eq_some_iff, Option.ite_none_right_eq_some, Option.guard_eq_some_iff,
    Bool.and_eq_true, PinSide.named]
  constructor
  · rintro ⟨s, ⟨hnamed, hs⟩, rfl⟩
    obtain ⟨rfl, hok⟩ := fullMatch_eq_some.1 hs
    obtain ⟨hordinary, hnodes, hrecorded, hcurrent⟩ := matchSide_ok_iff.1 hok
    rw [hfree, Bool.not_eq_false'] at hordinary
    simp_all
  · rintro ⟨rfl, hnamed, hcfree⟩
    simp only [decide_eq_true_eq] at hnamed
    obtain ⟨⟨⟨⟨⟨-, hdescribed⟩, hid⟩, hnodes⟩, hsome⟩, hcurrent⟩ := hnamed
    obtain ⟨found, hfound⟩ := Option.isSome_iff_exists.1 hsome
    refine ⟨⟨c, found⟩, ⟨⟨hdescribed, decide_eq_true hid⟩, fullMatch_eq_some.2 ⟨rfl, ?_⟩⟩, rfl⟩
    exact matchSide_ok_iff.2 ⟨by rw [hfree, hcfree]; rfl, hnodes, hfound, hcurrent.trans hfound⟩

/-- **A side resolves to the only free candidate it names.** -/
theorem resolveSide_ok_iff {candidates : List SplitCandidate} {side : PinSide} {s : ResolvedSide}
    (hrole : side.role ≠ .other) :
    resolveSide toLowercase candidates side.identity side.path side.location side.role = .ok s ↔
      OnlyFree toLowercase candidates side s.candidate ∧ side.location = some s.location := by
  by_cases hidentity : side.identity = []
  · rw [resolveSide, if_pos hidentity, OnlyFree]
    simp [PinSide.named, hidentity]
  rw [resolveSide_eq hidentity hrole, ofMatches_ok, OnlyFree, ← map_candidate_matches hidentity]
  constructor
  · intro h
    rw [h]
    have hmem : s ∈ [s] := List.mem_singleton_self s
    rw [← h] at hmem
    obtain ⟨c, -, hc⟩ := List.mem_filterMap.1 hmem
    exact ⟨rfl, (matchSide_ok_iff.1 (fullMatch_eq_some.1 hc).2).2.2.1⟩
  · rintro ⟨honly, hlocation⟩
    obtain ⟨t, ht, hcandidate⟩ := List.map_eq_singleton_iff.1 honly
    have hmem : t ∈ [t] := List.mem_singleton_self t
    rw [← ht] at hmem
    obtain ⟨c, -, hc⟩ := List.mem_filterMap.1 hmem
    have hfound := (matchSide_ok_iff.1 (fullMatch_eq_some.1 hc).2).2.2.1
    have hlocations : t.location = s.location := Option.some.inj (hfound.symm.trans hlocation)
    rw [ht]
    obtain ⟨candidate, location⟩ := t
    subst hcandidate hlocations
    rfl

/-! ## The order of the candidates -/

theorem SideRefusal.max_right_comm (a b c : SideRefusal) : (a.max b).max c = (a.max c).max b := by
  cases a <;> cases b <;> cases c <;> rfl

theorem ofMatches_perm {found found' : List ResolvedSide} (h : found.Perm found') (best : SideRefusal) :
    ofMatches found best = ofMatches found' best := by
  match found, found', h with
  | [], found', h => rw [List.nil_perm.1 h]
  | [s], found', h => rw [List.singleton_perm.1 h]
  | _ :: _ :: _, [], h => cases h.length_eq
  | _ :: _ :: _, [_], h => cases h.length_eq
  | _ :: _ :: _, _ :: _ :: _, _ => rfl

section Perm

variable {candidates candidates' : List SplitCandidate} (h : candidates.Perm candidates')

include h

theorem matchSide_perm (path : Text) (location : Option UsbLocation) (role : Role) :
    matchSide toLowercase (ordinaryPairs toLowercase candidates) path location role =
      matchSide toLowercase (ordinaryPairs toLowercase candidates') path location role := by
  funext c
  have hordinary : (ordinaryPairs toLowercase candidates).any (·.overlaps toLowercase c) =
      (ordinaryPairs toLowercase candidates').any (·.overlaps toLowercase c) := (h.filter _).any_eq
  unfold matchSide
  rw [hordinary]

theorem resolveSide_perm (side : PinSide) :
    resolveSide toLowercase candidates side.identity side.path side.location side.role =
      resolveSide toLowercase candidates' side.identity side.path side.location side.role := by
  by_cases hidentity : side.identity = []
  · rw [resolveSide, resolveSide, if_pos hidentity, if_pos hidentity]
  by_cases hrole : side.role = .other
  · rw [resolveSide, resolveSide, if_neg hidentity, if_neg hidentity, if_pos hrole, if_pos hrole]
  rw [resolveSide_eq hidentity hrole, resolveSide_eq hidentity hrole]
  dsimp only
  have hmatch : fullMatch toLowercase (ordinaryPairs toLowercase candidates) side =
      fullMatch toLowercase (ordinaryPairs toLowercase candidates') side := by
    unfold fullMatch
    rw [matchSide_perm h]
  have hshort : shortfall toLowercase (ordinaryPairs toLowercase candidates) side =
      shortfall toLowercase (ordinaryPairs toLowercase candidates') side := by
    unfold shortfall
    rw [matchSide_perm h]
  have hnamed : (side.candidates toLowercase candidates).Perm (side.candidates toLowercase candidates') :=
    h.filter _
  have hbest := (hnamed.filterMap (shortfall toLowercase (ordinaryPairs toLowercase candidates') side)).foldl_eq'
    (fun a _ b _ best => SideRefusal.max_right_comm best a b) SideRefusal.noCandidateWithIdentity
  rw [hmatch, hshort, ofMatches_perm (hnamed.filterMap _), hbest]

theorem resolvePin_perm (pin : SplitPin) (claimed : List SplitCandidate) :
    resolvePin toLowercase candidates pin claimed = resolvePin toLowercase candidates' pin claimed := by
  have hrgb : resolveSide toLowercase candidates pin.rgbIdentity pin.rgbPath pin.rgbLocation .rgb =
      resolveSide toLowercase candidates' pin.rgbIdentity pin.rgbPath pin.rgbLocation .rgb :=
    resolveSide_perm h pin.rgbSide
  have hir : resolveSide toLowercase candidates pin.irIdentity pin.irPath pin.irLocation .ir =
      resolveSide toLowercase candidates' pin.irIdentity pin.irPath pin.irLocation .ir :=
    resolveSide_perm h pin.irSide
  unfold resolvePin
  rw [hrgb, hir]

theorem resolvePins_perm (pins : List SplitPin) (claimed : List SplitCandidate) :
    resolvePins toLowercase candidates pins claimed =
      resolvePins toLowercase candidates' pins claimed := by
  induction pins generalizing claimed with
  | nil => rfl
  | cons pin pins ih => rw [resolvePins, resolvePins, resolvePin_perm h, ih]

end Perm

/-! ## One publication -/

def OnePublication (candidates : List SplitCandidate) : Prop :=
  ∀ c ∈ candidates, ∀ d ∈ candidates, c.supervisorId = d.supervisorId ∧ c.revision = d.revision

theorem any_ne_eq {α β : Type} [DecidableEq β] {f : α → β} {l : List α} {a b : α} (ha : a ∈ l)
    (hb : b ∈ l) : l.any (fun x => f x ≠ f a) = l.any fun x => f x ≠ f b := by
  by_cases heq : f a = f b
  · rw [heq]
  · rw [List.any_eq_true.2 ⟨b, hb, decide_eq_true (Ne.symm heq)⟩,
      List.any_eq_true.2 ⟨a, ha, decide_eq_true heq⟩]

theorem any_ne_false_iff {α β : Type} [DecidableEq β] {f : α → β} {l : List α} {a : α} (ha : a ∈ l) :
    l.any (fun x => f x ≠ f a) = false ↔ ∀ x ∈ l, ∀ y ∈ l, f x = f y := by
  rw [List.any_eq_false]
  constructor
  · intro h x hx y hy
    have hxa : f x = f a := by simpa using h x hx
    have hya : f y = f a := by simpa using h y hy
    exact hxa.trans hya.symm
  · intro h x hx
    simpa using h x hx a ha

theorem poolState_singular_iff {candidates : List SplitCandidate} :
    poolState candidates = .singular ↔ candidates ≠ [] ∧ OnePublication candidates := by
  cases candidates with
  | nil => simp [poolState]
  | cons first rest =>
    have hfirst : first ∈ first :: rest := List.mem_cons_self
    have hone : OnePublication (first :: rest) ↔
        (first :: rest).any (fun c => c.supervisorId ≠ first.supervisorId) = false ∧
          (first :: rest).any (fun c => c.revision ≠ first.revision) = false := by
      rw [any_ne_false_iff hfirst, any_ne_false_iff hfirst]
      exact ⟨fun h => ⟨fun c hc d hd => (h c hc d hd).1, fun c hc d hd => (h c hc d hd).2⟩,
        fun h c hc d hd => ⟨h.1 c hc d hd, h.2 c hc d hd⟩⟩
    rw [hone, poolState]
    cases (first :: rest).any (fun c => c.supervisorId ≠ first.supervisorId) <;>
      cases (first :: rest).any (fun c => c.revision ≠ first.revision) <;> simp

theorem poolState_perm {candidates candidates' : List SplitCandidate}
    (h : candidates.Perm candidates') : poolState candidates = poolState candidates' := by
  cases candidates with
  | nil => rw [List.nil_perm.1 h]
  | cons first rest =>
    cases candidates' with
    | nil => cases h.length_eq
    | cons first' rest' =>
      have hfirst' : first' ∈ first :: rest := h.mem_iff.2 List.mem_cons_self
      rw [poolState, poolState, ← h.any_eq, ← h.any_eq, any_ne_eq List.mem_cons_self hfirst',
        any_ne_eq List.mem_cons_self hfirst']

/-! ## One pin -/

variable (toLowercase) in
/-- The candidate overlaps the side of a pair: the same instance, or the same unit in its place. -/
def SplitCandidate.meets (c : SplitCandidate) (n : CameraNode) : Prop :=
  n.instanceId = c.input.instanceId ∨
    (c.location = some n.location ∧ n.identity = c.identity toLowercase)

variable (toLowercase) in
/-- The two candidates a pin must be paired to, when the sides of `claimed` are taken. -/
structure PinSides (candidates : List SplitCandidate) (pin : SplitPin) (claimed : List CameraNode)
    (rgb ir : SplitCandidate) : Prop where
  rgbOnly : OnlyFree toLowercase candidates pin.rgbSide rgb
  irOnly : OnlyFree toLowercase candidates pin.irSide ir
  twoInstances : rgb.input.instanceId ≠ ir.input.instanceId
  twoUnits : ¬(rgb.identity toLowercase = ir.identity toLowercase ∧ rgb.location = ir.location)
  unclaimed : ∀ n ∈ claimed, ¬rgb.meets toLowercase n ∧ ¬ir.meets toLowercase n

variable (toLowercase) in
structure PairOf (pin : SplitPin) (rgb ir : SplitCandidate) (p : SplitPair) : Prop where
  rgbNode : p.rgb = rgb.node toLowercase pin.rgbPath p.rgb.location
  rgbLocation : rgb.location = some p.rgb.location
  irNode : p.ir = ir.node toLowercase pin.irPath p.ir.location
  irLocation : ir.location = some p.ir.location
  supervisorId : p.supervisorId = rgb.supervisorId
  revision : p.revision = rgb.revision

variable (toLowercase) in
structure NodeOf (owner : SplitCandidate) (n : CameraNode) : Prop where
  instanceId : n.instanceId = owner.input.instanceId
  identity : n.identity = owner.identity toLowercase
  location : owner.location = some n.location

theorem NodeOf.overlaps_iff {owner c : SplitCandidate} {n : CameraNode}
    (h : NodeOf toLowercase owner n) :
    owner.overlaps toLowercase c = true ↔ c.meets toLowercase n := by
  unfold SplitCandidate.overlaps SplitCandidate.meets
  rw [h.instanceId, h.identity, h.location, Option.isSome_some, Bool.true_and, Bool.or_eq_true,
    Bool.and_eq_true, decide_eq_true_eq, decide_eq_true_eq, decide_eq_true_eq, @eq_comm _ c.location]

def PinOutcome.sides : PinOutcome → List CameraNode
  | .paired p => [p.rgb, p.ir]
  | .refused _ => []

theorem OnlyFree.resolves {candidates : List SplitCandidate} {side : PinSide} {c : SplitCandidate}
    (h : OnlyFree toLowercase candidates side c) (hrole : side.role ≠ .other) : ∃ l,
      resolveSide toLowercase candidates side.identity side.path side.location side.role = .ok ⟨c, l⟩ ∧
        c.location = some l := by
  obtain ⟨-, hc⟩ := mem_of_filter_eq_singleton h
  simp only [PinSide.named, Bool.and_eq_true, decide_eq_true_eq] at hc
  obtain ⟨⟨⟨-, hsome⟩, hlocation⟩, -⟩ := hc
  obtain ⟨l, hl⟩ := Option.isSome_iff_exists.1 hsome
  exact ⟨l, (resolveSide_ok_iff hrole).2 ⟨h, hl⟩, hlocation.trans hl⟩

theorem resolvePin_of_ok {candidates claimed : List SplitCandidate} {pin : SplitPin}
    {rgb ir : ResolvedSide}
    (hrgb : resolveSide toLowercase candidates pin.rgbIdentity pin.rgbPath pin.rgbLocation .rgb = .ok rgb)
    (hir : resolveSide toLowercase candidates pin.irIdentity pin.irPath pin.irLocation .ir = .ok ir) :
    resolvePin toLowercase candidates pin claimed =
      if rgb.candidate.input.instanceId = ir.candidate.input.instanceId then
        (.refused .sameDevice, claimed)
      else if sameUnit toLowercase rgb ir then (.refused .sameUnitTwice, claimed)
      else if claimed.any (fun owner => owner.overlaps toLowercase rgb.candidate ||
          owner.overlaps toLowercase ir.candidate) then
        (.refused .sideAlreadyClaimed, claimed)
      else
        (.paired
          { rgb := rgb.candidate.node toLowercase pin.rgbPath rgb.location
            ir := ir.candidate.node toLowercase pin.irPath ir.location
            supervisorId := rgb.candidate.supervisorId
            revision := rgb.candidate.revision },
          claimed ++ [rgb.candidate, ir.candidate]) := by
  unfold resolvePin
  rw [hrgb]
  dsimp only
  rw [hir]

theorem any_iff_of_forall₂ {α β : Type} {R : α → β → Prop} {p : α → Bool} {q : β → Prop}
    (hpq : ∀ {a b}, R a b → (p a = true ↔ q b)) {l : List α} {l' : List β}
    (h : List.Forall₂ R l l') : l.any p = true ↔ ∃ b ∈ l', q b := by
  induction h with
  | nil => simp
  | cons hab _ ih =>
    rw [List.any_cons, Bool.or_eq_true, hpq hab, ih]
    simp only [List.mem_cons, exists_eq_or_imp]

theorem resolvePin_spec {candidates claimed : List SplitCandidate} {nodes : List CameraNode}
    (hclaimed : List.Forall₂ (NodeOf toLowercase) claimed nodes) (pin : SplitPin) :
    (∃ reason, resolvePin toLowercase candidates pin claimed = (.refused reason, claimed) ∧
      ∀ rgb ir, ¬PinSides toLowercase candidates pin nodes rgb ir) ∨
    ∃ rgb ir p, resolvePin toLowercase candidates pin claimed = (.paired p, claimed ++ [rgb, ir]) ∧
      PinSides toLowercase candidates pin nodes rgb ir ∧ PairOf toLowercase pin rgb ir p := by
  have hrgbRole : pin.rgbSide.role ≠ .other := Role.noConfusion
  have hirRole : pin.irSide.role ≠ .other := Role.noConfusion
  cases hrgb : resolveSide toLowercase candidates pin.rgbIdentity pin.rgbPath pin.rgbLocation .rgb with
  | error reason =>
    refine .inl ⟨.rgbSide reason, by rw [resolvePin, hrgb], fun rgb ir h => ?_⟩
    obtain ⟨l, hok, -⟩ := h.rgbOnly.resolves hrgbRole
    cases hok.symm.trans hrgb
  | ok rgb =>
  cases hir : resolveSide toLowercase candidates pin.irIdentity pin.irPath pin.irLocation .ir with
  | error reason =>
    refine .inl ⟨.irSide reason, by rw [resolvePin, hrgb]; dsimp only; rw [hir], fun rgb ir h => ?_⟩
    obtain ⟨l, hok, -⟩ := h.irOnly.resolves hirRole
    cases hok.symm.trans hir
  | ok ir =>
  have honlyRgb : OnlyFree toLowercase candidates pin.rgbSide rgb.candidate :=
    ((resolveSide_ok_iff hrgbRole).1 hrgb).1
  have honlyIr : OnlyFree toLowercase candidates pin.irSide ir.candidate :=
    ((resolveSide_ok_iff hirRole).1 hir).1
  have hrgbLocation : rgb.candidate.location = some rgb.location := (resolveSide_ok hrgb).location
  have hirLocation : ir.candidate.location = some ir.location := (resolveSide_ok hir).location
  -- the sides of any other choice are these
  have hsame : ∀ {c d}, PinSides toLowercase candidates pin nodes c d →
      PinSides toLowercase candidates pin nodes rgb.candidate ir.candidate := by
    intro c d h
    obtain rfl : c = rgb.candidate := List.singleton_inj.1 (h.rgbOnly.symm.trans honlyRgb)
    obtain rfl : d = ir.candidate := List.singleton_inj.1 (h.irOnly.symm.trans honlyIr)
    exact h
  have hunits : sameUnit toLowercase rgb ir = true ↔
      rgb.candidate.identity toLowercase = ir.candidate.identity toLowercase ∧
        rgb.candidate.location = ir.candidate.location := by
    rw [sameUnit, hrgbLocation, hirLocation, Option.some_inj]
    simp
  have htaken : claimed.any (fun owner => owner.overlaps toLowercase rgb.candidate ||
      owner.overlaps toLowercase ir.candidate) = true ↔
        ∃ n ∈ nodes, rgb.candidate.meets toLowercase n ∨ ir.candidate.meets toLowercase n := by
    refine any_iff_of_forall₂ (fun hnode => ?_) hclaimed
    rw [Bool.or_eq_true, hnode.overlaps_iff, hnode.overlaps_iff]
  rw [resolvePin_of_ok hrgb hir]
  by_cases hinstances : rgb.candidate.input.instanceId = ir.candidate.input.instanceId
  · exact .inl ⟨_, if_pos hinstances, fun c d h => (hsame h).twoInstances hinstances⟩
  rw [if_neg hinstances]
  by_cases hunit : sameUnit toLowercase rgb ir = true
  · exact .inl ⟨_, if_pos hunit, fun c d h => (hsame h).twoUnits (hunits.1 hunit)⟩
  rw [if_neg hunit]
  by_cases hclaim : claimed.any (fun owner => owner.overlaps toLowercase rgb.candidate ||
      owner.overlaps toLowercase ir.candidate) = true
  · refine .inl ⟨_, if_pos hclaim, fun c d h => ?_⟩
    obtain ⟨n, hn, hmeets⟩ := htaken.1 hclaim
    exact hmeets.elim ((hsame h).unclaimed n hn).1 ((hsame h).unclaimed n hn).2
  rw [if_neg hclaim]
  refine .inr ⟨rgb.candidate, ir.candidate, _, rfl, ⟨honlyRgb, honlyIr, hinstances, ?_, ?_⟩,
    ⟨rfl, hrgbLocation, rfl, hirLocation, rfl, rfl⟩⟩
  · exact fun h => hunit (hunits.2 h)
  · intro n hn
    exact not_or.1 fun hmeets => hclaim (htaken.2 ⟨n, hn, hmeets⟩)

/-! ## All the pins -/

theorem PairOf.nodes {pin : SplitPin} {rgb ir : SplitCandidate} {p : SplitPair}
    (h : PairOf toLowercase pin rgb ir p) :
    List.Forall₂ (NodeOf toLowercase) [rgb, ir] (PinOutcome.paired p).sides := by
  refine .cons ⟨?_, ?_, h.rgbLocation⟩ (.cons ⟨?_, ?_, h.irLocation⟩ .nil)
  · rw [h.rgbNode]
    rfl
  · rw [h.rgbNode]
    rfl
  · rw [h.irNode]
    rfl
  · rw [h.irNode]
    rfl

theorem resolvePins_length (candidates : List SplitCandidate) (pins : List SplitPin)
    (claimed : List SplitCandidate) :
    (resolvePins toLowercase candidates pins claimed).length = pins.length := by
  induction pins generalizing claimed with
  | nil => rfl
  | cons pin pins ih => rw [resolvePins, List.length_cons, List.length_cons, ih]

theorem resolvePins_getElem? {candidates claimed : List SplitCandidate} {nodes : List CameraNode}
    (hclaimed : List.Forall₂ (NodeOf toLowercase) claimed nodes) {pins : List SplitPin} {i : Nat}
    {pin : SplitPin} (hpin : pins[i]? = some pin) : ∃ claimed',
      List.Forall₂ (NodeOf toLowercase) claimed'
        (nodes ++ ((resolvePins toLowercase candidates pins claimed).take i).flatMap PinOutcome.sides) ∧
      (resolvePins toLowercase candidates pins claimed)[i]? =
        some (resolvePin toLowercase candidates pin claimed').1 := by
  induction pins generalizing claimed nodes i with
  | nil => cases hpin
  | cons first pins ih =>
    cases i with
    | zero =>
      cases hpin
      refine ⟨claimed, ?_, rfl⟩
      rw [List.take_zero, List.flatMap_nil, List.append_nil]
      exact hclaimed
    | succ i =>
      rw [resolvePins, List.take_succ_cons, List.flatMap_cons, ← List.append_assoc]
      refine ih ?_ hpin
      obtain ⟨reason, heq, -⟩ | ⟨rgb, ir, p, heq, -, hpair⟩ := resolvePin_spec hclaimed first
      · rw [heq, PinOutcome.sides, List.append_nil]
        exact hclaimed
      · rw [heq]
        exact List.rel_append hclaimed hpair.nodes

theorem resolvePin_refused {candidates claimed : List SplitCandidate} {pin : SplitPin}
    {reason : PinRefusal} (h : (resolvePin toLowercase candidates pin claimed).1 = .refused reason) :
    (resolvePin toLowercase candidates pin claimed).2 = claimed := by
  cases hrgb : resolveSide toLowercase candidates pin.rgbIdentity pin.rgbPath pin.rgbLocation .rgb with
  | error reason => rw [resolvePin, hrgb]
  | ok rgb =>
    cases hir : resolveSide toLowercase candidates pin.irIdentity pin.irPath pin.irLocation .ir with
    | error reason =>
      unfold resolvePin
      rw [hrgb]
      dsimp only
      rw [hir]
    | ok ir =>
      rw [resolvePin_of_ok hrgb hir] at h ⊢
      split_ifs at h ⊢
      all_goals rfl

theorem resolvePins_eraseIdx {candidates claimed : List SplitCandidate} {pins : List SplitPin}
    {i : Nat} {reason : PinRefusal}
    (h : (resolvePins toLowercase candidates pins claimed)[i]? = some (.refused reason)) :
    resolvePins toLowercase candidates (pins.eraseIdx i) claimed =
      (resolvePins toLowercase candidates pins claimed).eraseIdx i := by
  induction pins generalizing claimed i with
  | nil => cases h
  | cons first pins ih =>
    cases i with
    | zero =>
      rw [List.eraseIdx_cons_zero, resolvePins, List.eraseIdx_cons_zero,
        resolvePin_refused (Option.some.inj h)]
    | succ i =>
      rw [List.eraseIdx_cons_succ, resolvePins, resolvePins, List.eraseIdx_cons_succ, ih h]

theorem resolvePins_spec (candidates : List SplitCandidate) {pins : List SplitPin} {i : Nat}
    {pin : SplitPin} (hpin : pins[i]? = some pin) :
    let outcomes := resolvePins toLowercase candidates pins []
    let claimed := (outcomes.take i).flatMap PinOutcome.sides
    (∃ reason, outcomes[i]? = some (.refused reason) ∧
      ∀ rgb ir, ¬PinSides toLowercase candidates pin claimed rgb ir) ∨
    ∃ rgb ir p, outcomes[i]? = some (.paired p) ∧ PinSides toLowercase candidates pin claimed rgb ir ∧
      PairOf toLowercase pin rgb ir p := by
  intro outcomes claimed
  obtain ⟨taken, htaken, hout⟩ := @resolvePins_getElem? toLowercase candidates [] [] .nil pins i pin hpin
  rw [List.nil_append] at htaken
  obtain ⟨reason, heq, hnone⟩ | ⟨rgb, ir, p, heq, hsides, hpair⟩ :=
    @resolvePin_spec toLowercase candidates _ _ htaken pin
  · exact .inl ⟨reason, hout.trans (congrArg (some ·.1) heq), hnone⟩
  · exact .inr ⟨rgb, ir, p, hout.trans (congrArg (some ·.1) heq), hsides, hpair⟩

theorem PinSides.unique {candidates : List SplitCandidate} {pin : SplitPin} {claimed : List CameraNode}
    {rgb ir rgb' ir' : SplitCandidate} (h : PinSides toLowercase candidates pin claimed rgb ir)
    (h' : PinSides toLowercase candidates pin claimed rgb' ir') : rgb = rgb' ∧ ir = ir' :=
  ⟨List.singleton_inj.1 (h.rgbOnly.symm.trans h'.rgbOnly),
    List.singleton_inj.1 (h.irOnly.symm.trans h'.irOnly)⟩

theorem pinnedSplitPairs_cases (candidates : List SplitCandidate) :
    (candidates ≠ [] ∧ OnePublication candidates ∧ ∀ pins,
        pinnedSplitPairs toLowercase candidates pins = resolvePins toLowercase candidates pins []) ∨
      ((candidates = [] ∨ ¬OnePublication candidates) ∧ ∃ reason, ∀ pins,
        pinnedSplitPairs toLowercase candidates pins = pins.map fun _ => .refused reason) := by
  have hsingular := @poolState_singular_iff candidates
  unfold pinnedSplitPairs
  cases hstate : poolState candidates with
  | singular => exact .inl ⟨(hsingular.1 hstate).1, (hsingular.1 hstate).2, fun _ => rfl⟩
  | _ =>
    refine .inr ⟨?_, _, fun _ => rfl⟩
    rw [hstate] at hsingular
    by_contra hnot
    cases hsingular.2 (not_or.1 hnot |>.imp_right not_not.1)

/-- **Split pins resolve soundly, completely and without sharing.** -/
theorem pinnedSplitPairs_exact (toLowercase : Text → Text) (candidates : List SplitCandidate)
    (pins : List SplitPin) :
    let outcomes := pinnedSplitPairs toLowercase candidates pins
    let claimed := fun i => (outcomes.take i).flatMap PinOutcome.sides
    outcomes.length = pins.length ∧
    (∀ i p, outcomes[i]? = some (.paired p) → OnePublication candidates ∧ ∃ pin rgb ir,
      pins[i]? = some pin ∧ PinSides toLowercase candidates pin (claimed i) rgb ir ∧
        PairOf toLowercase pin rgb ir p) ∧
    (∀ i pin rgb ir, pins[i]? = some pin → OnePublication candidates →
      PinSides toLowercase candidates pin (claimed i) rgb ir →
        ∃ p, outcomes[i]? = some (.paired p) ∧ PairOf toLowercase pin rgb ir p) ∧
    (∀ candidates', candidates.Perm candidates' →
      pinnedSplitPairs toLowercase candidates' pins = outcomes) ∧
    ∀ i reason, outcomes[i]? = some (.refused reason) →
      pinnedSplitPairs toLowercase candidates (pins.eraseIdx i) = outcomes.eraseIdx i := by
  intro outcomes claimed
  have hperm : ∀ candidates', candidates.Perm candidates' →
      pinnedSplitPairs toLowercase candidates' pins = outcomes := by
    intro candidates' h
    simp only [outcomes]
    unfold pinnedSplitPairs
    rw [poolState_perm h, resolvePins_perm h]
  obtain ⟨-, hone, heq⟩ | ⟨hpool, reason, heq⟩ := pinnedSplitPairs_cases candidates
  · have houtcomes : outcomes = resolvePins toLowercase candidates pins [] := heq pins
    refine ⟨?_, ?_, ?_, hperm, ?_⟩
    · rw [houtcomes, resolvePins_length]
    · intro i p hp
      have hi : i < pins.length := by
        rw [← resolvePins_length candidates pins [], ← houtcomes]
        exact (List.getElem?_eq_some_iff.1 hp).1
      have hpin : pins[i]? = some pins[i] := List.getElem?_eq_getElem hi
      obtain ⟨reason, hout, -⟩ | ⟨rgb, ir, q, hout, hsides, hpair⟩ :=
        @resolvePins_spec toLowercase candidates pins i _ hpin
      · rw [← houtcomes, hp] at hout
        cases hout
      · rw [← houtcomes, hp] at hout
        cases hout
        exact ⟨hone, pins[i], rgb, ir, hpin, by simpa only [claimed, houtcomes] using hsides, hpair⟩
    · intro i pin rgb ir hpin _ hsides
      simp only [claimed, houtcomes] at hsides
      obtain ⟨reason, -, hnone⟩ | ⟨rgb', ir', p, hout, hsides', hpair⟩ :=
        @resolvePins_spec toLowercase candidates pins i _ hpin
      · exact absurd hsides (hnone rgb ir)
      · obtain ⟨rfl, rfl⟩ := hsides.unique hsides'
        exact ⟨p, houtcomes ▸ hout, hpair⟩
    · intro i reason h
      rw [heq, houtcomes]
      exact resolvePins_eraseIdx (houtcomes ▸ h)
  · have houtcomes : outcomes = pins.map fun _ => .refused reason := heq pins
    refine ⟨by rw [houtcomes, List.length_map], ?_, ?_, hperm, ?_⟩
    · intro i p hp
      rw [houtcomes, List.getElem?_map] at hp
      obtain ⟨-, -, hp⟩ := Option.map_eq_some_iff.1 hp
      cases hp
    · intro i pin rgb ir hpin hone hsides
      have hmem := (mem_of_filter_eq_singleton hsides.rgbOnly).1
      rcases hpool with rfl | hnot
      · cases hmem
      · exact absurd hone hnot
    · intro i reason' _
      rw [heq, houtcomes, List.eraseIdx_map]

/-! ## Pools that disagree with themselves -/

def sampleCandidate (instanceId vidPid : Text) (port : UInt8) (roles : List (Text × Role)) :
    SplitCandidate where
  input :=
    { topologyPath := "/devices/a"
      serial := none
      usbDevice := some ⟨vidPid, true, none⟩
      endpoints := roles.map Prod.fst
      metadataEndpoints := []
      instanceId := instanceId
      generation := 1 }
  supervisorId := "s"
  revision := 1
  location := some ⟨"0000:00:14.0", .usb2, [port]⟩
  roles := roles

def samplePin : SplitPin where
  rgbIdentity := "5986:2113"
  rgbPath := "/dev/video0"
  rgbLocation := some ⟨"0000:00:14.0", .usb2, [5]⟩
  irIdentity := "5986:1141"
  irPath := "/dev/video2"
  irLocation := some ⟨"0000:00:14.0", .usb2, [6]⟩

def sampleRgb : SplitCandidate := sampleCandidate "b" "5986:2113" 5 [("/dev/video0", .rgb)]

def sampleIr : SplitCandidate := sampleCandidate "c" "5986:1141" 6 [("/dev/video2", .ir)]

/-- An ordinary pair, and a second sighting of its instance that looks like `sampleRgb`. -/
def sampleTwins : List SplitCandidate :=
  [sampleCandidate "a" "1:1" 1 [("/dev/video4", .rgb), ("/dev/video5", .ir)],
    sampleCandidate "a" "5986:2113" 5 [("/dev/video0", .rgb)]]

/-- A pin is paired although a second candidate has all its RGB side records, when that one shares
its instance with an ordinary pair. Sides that are the only ones of their kind are refused when
another candidate is of a later revision, and when they are one unit seen as two instances. -/
theorem pinnedSplitPairs_disagreeing :
    let outcomes := fun pool pin => pinnedSplitPairs (List.map Char.toLower) pool [pin]
    let pool := sampleTwins ++ [sampleRgb, sampleIr]
    let stray := [sampleRgb, sampleIr, { sampleCandidate "d" "1:1" 1 [] with revision := 2 }]
    let irUnit := sampleCandidate "c" "5986:2113" 5 [("/dev/video2", .ir)]
    let unitPin := { samplePin with irIdentity := "5986:2113", irLocation := samplePin.rgbLocation }
    ((outcomes pool samplePin).flatMap PinOutcome.sides ≠ [] ∧
      pool.filter (samplePin.rgbSide.named (List.map Char.toLower)) =
        [sampleCandidate "a" "5986:2113" 5 [("/dev/video0", .rgb)], sampleRgb]) ∧
    (outcomes stray samplePin = [.refused .poolSpansRevisions] ∧
      PinSides (List.map Char.toLower) stray samplePin [] sampleRgb sampleIr) ∧
    (outcomes [sampleRgb, irUnit] unitPin = [.refused .sameUnitTwice] ∧
      OnlyFree (List.map Char.toLower) [sampleRgb, irUnit] unitPin.rgbSide sampleRgb ∧
      OnlyFree (List.map Char.toLower) [sampleRgb, irUnit] unitPin.irSide irUnit ∧
      sampleRgb.input.instanceId ≠ irUnit.input.instanceId) := by
  intro outcomes pool stray irUnit unitPin
  refine ⟨⟨by decide, by decide⟩, ⟨by decide, ⟨?_, ?_, by decide, by decide, ?_⟩⟩, by decide, ?_, ?_, by decide⟩
  · decide
  · decide
  · exact fun n hn => absurd hn List.not_mem_nil
  · decide
  · decide

end Irlume.Inventory

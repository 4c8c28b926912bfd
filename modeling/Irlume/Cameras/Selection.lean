import Irlume.Cameras.Binding
import Mathlib.Data.List.Sort

/-!
# Automatic camera selection

`select_bound_for_account_with` walks the account's complete keys in rank order, the primary first and
then the groups by their key, and takes the first that exactly one allowed connected candidate carries
and that `eligible` accepts.

`eligible` is a closure that may keep state, so it is a function of the calls made before: `asked`, the
log of scopes and answers, is both its state and what the theorems say about the calls.
-/

namespace Irlume.Cameras

open Irlume.Lib

/-- One connected pair. `key` is the caller's handle, which is never compared. -/
structure BoundCandidatePair (K : Type) where
  key : K
  pair : CompletePairKey
  rgbFixed : Bool
  irFixed : Bool

structure AccountCameras where
  primary : Option PairBinding
  secondaryActive : Bool
  secondaryUnreadable : Bool
  groups : List PairBinding

/-- Which of the account's enrolled pairs a candidate is. -/
inductive CandidateScope where
  | primary
  | secondary (index : Nat)
  deriving DecidableEq

/-- Why a connected enrolled pair was not chosen. -/
inductive SkipReason where
  | ambiguousGroups
  | secondaryInactive
  | externalForbidden
  | indistinguishable
  | notEligible
  deriving DecidableEq

structure Skipped where
  scope : CandidateScope
  reason : SkipReason
  deriving DecidableEq

structure Selection (K : Type) where
  key : K
  scope : CandidateScope
  skipped : List Skipped
  deriving DecidableEq

/-- Why a request is refused before any camera opens. -/
inductive RefusalCause where
  | invalidBinding
  | noEnrolledCameraConnected
  | secondaryUnreadable
  | skipped (reason : SkipReason)
  deriving DecidableEq

inductive SelectionOutcome (K : Type) where
  | selected (selection : Selection K)
  | notApplicable (skipped : List Skipped)
  | refused (cause : RefusalCause) (skipped : List Skipped)
  deriving DecidableEq

structure ExternalCameraPolicy where
  forbidExternal : Bool
  splitBuiltInOnly : Bool

def ExternalCameraPolicy.excludes {K : Type} (policy : ExternalCameraPolicy)
    (pair : BoundCandidatePair K) : Bool :=
  (policy.forbidExternal || (policy.splitBuiltInOnly && pair.pair.isSplit)) &&
    !(pair.rgbFixed && pair.irFixed)

/-! ## Ranking -/

def AccountCameras.primaryKey (account : AccountCameras) : Option CompletePairKey :=
  account.primary.bind PairBinding.completeKey

def AccountCameras.keyed (account : AccountCameras) : List (Nat × CompletePairKey) :=
  account.groups.zipIdx.filterMap fun (pair, index) => pair.completeKey.map fun key => (index, key)

/-- By key; the position only orders groups that hold one exact key. -/
def rankLe (a b : Nat × CompletePairKey) : Prop := a.2 < b.2 ∨ a.2 = b.2 ∧ a.1 ≤ b.1

instance : DecidableRel rankLe :=
  fun a b => inferInstanceAs (Decidable (a.2 < b.2 ∨ a.2 = b.2 ∧ a.1 ≤ b.1))

def AccountCameras.sortedGroups (account : AccountCameras) : List (Nat × CompletePairKey) :=
  account.keyed.insertionSort rankLe

def AccountCameras.ranked (account : AccountCameras) : List (CandidateScope × CompletePairKey) :=
  (account.primaryKey.map fun key => (CandidateScope.primary, key)).toList ++
    account.sortedGroups.map fun (index, key) => (.secondary index, key)

/-! ## The walk -/

/-- What a call of `eligible` was asked and answered, in order. -/
abbrev Asked := List (CandidateScope × Bool)

structure Walk (K : Type) where
  chosen : Option (K × CandidateScope) := none
  skipped : List Skipped := []
  asked : Asked := []

section Walk

variable {K : Type}

def CandidateScope.isSecondary : CandidateScope → Bool
  | .primary => false
  | .secondary _ => true

def carrying (connected : List (BoundCandidatePair K)) (key : CompletePairKey) :
    List (BoundCandidatePair K) :=
  (connected.filter fun pair => pair.pair.validate = .ok ()).filter fun pair => pair.pair = key

def allowed (connected : List (BoundCandidatePair K)) (external : ExternalCameraPolicy)
    (key : CompletePairKey) : List (BoundCandidatePair K) :=
  (carrying connected key).filter fun pair => !external.excludes pair

def Walk.skip (w : Walk K) (scope : CandidateScope) (reason : SkipReason) : Walk K :=
  { w with skipped := w.skipped ++ [{ scope, reason }] }

/-- Ask `eligible` about a scope, which is chosen if it accepts. -/
def Walk.ask (w : Walk K) (eligible : Asked → CandidateScope → Bool) (scope : CandidateScope) (key : K) :
    Walk K :=
  let answer := eligible w.asked scope
  let w := { w with asked := w.asked ++ [(scope, answer)] }
  if answer then { w with chosen := some (key, scope) } else w.skip scope .notEligible

def visit (connected : List (BoundCandidatePair K)) (account : AccountCameras)
    (eligible : Asked → CandidateScope → Bool) (external : ExternalCameraPolicy) (w : Walk K)
    (entry : CandidateScope × CompletePairKey) : Walk K :=
  let (scope, key) := entry
  if carrying connected key = [] then w
  else if scope.isSecondary && 1 < account.sortedGroups.countP (fun g => g.2 = key) then
    w.skip scope .ambiguousGroups
  else if scope.isSecondary && !account.secondaryActive then w.skip scope .secondaryInactive
  else
    match allowed connected external key with
    | [] => w.skip scope .externalForbidden
    | [pair] => if w.chosen.isNone then w.ask eligible scope pair.key else w
    | _ => w.skip scope .indistinguishable

def isMalformedSplit (account : AccountCameras) : Bool :=
  match account.primary with
  | some (.split key) => (PairBinding.split key).completeKey.isNone
  | _ => false

def walk (connected : List (BoundCandidatePair K)) (account : AccountCameras)
    (eligible : Asked → CandidateScope → Bool) (external : ExternalCameraPolicy) : Walk K :=
  account.ranked.foldl (visit connected account eligible external) {}

def Walk.outcome (w : Walk K) (account : AccountCameras) : SelectionOutcome K :=
  match w.chosen, account.primaryKey with
  | some (key, scope), _ => .selected { key, scope, skipped := w.skipped }
  | none, none => .notApplicable w.skipped
  | none, some _ =>
    .refused
      (match w.skipped with
      | first :: _ => .skipped first.reason
      | [] => if account.secondaryUnreadable then .secondaryUnreadable else .noEnrolledCameraConnected)
      w.skipped

/-- The outcome, and the calls of `eligible` it took. -/
def selectBoundForAccountWith (connected : List (BoundCandidatePair K)) (account : AccountCameras)
    (eligible : Asked → CandidateScope → Bool) (external : ExternalCameraPolicy) :
    SelectionOutcome K × Asked :=
  if isMalformedSplit account then (.refused .invalidBinding [], [])
  else
    let w := walk connected account eligible external
    (w.outcome account, w.asked)

/-! ## Where an entry stands -/

/-- What the walk makes of an entry, whatever it has seen before. -/
inductive Standing (K : Type) where
  | absent
  | skip (reason : SkipReason)
  | usable (pair : BoundCandidatePair K)

def standing (connected : List (BoundCandidatePair K)) (account : AccountCameras)
    (external : ExternalCameraPolicy) (entry : CandidateScope × CompletePairKey) : Standing K :=
  if carrying connected entry.2 = [] then .absent
  else if entry.1.isSecondary && 1 < account.sortedGroups.countP (fun g => g.2 = entry.2) then
    .skip .ambiguousGroups
  else if entry.1.isSecondary && !account.secondaryActive then .skip .secondaryInactive
  else
    match allowed connected external entry.2 with
    | [] => .skip .externalForbidden
    | [pair] => .usable pair
    | _ => .skip .indistinguishable

variable {connected : List (BoundCandidatePair K)} {account : AccountCameras}
  {eligible : Asked → CandidateScope → Bool} {external : ExternalCameraPolicy}

theorem visit_eq (w : Walk K) (entry : CandidateScope × CompletePairKey) :
    visit connected account eligible external w entry =
      match standing connected account external entry with
      | .absent => w
      | .skip reason => w.skip entry.1 reason
      | .usable pair => if w.chosen.isNone then w.ask eligible entry.1 pair.key else w := by
  obtain ⟨scope, key⟩ := entry
  unfold visit standing
  dsimp only
  split
  · rfl
  · split
    · rfl
    · split
      · rfl
      · cases hallowed : allowed connected external key with
        | nil => rfl
        | cons pair rest =>
          cases rest with
          | nil => rfl
          | cons _ _ => rfl

/-! ## What a walk has done -/

/-- What the walk has done when it has visited `p`. -/
structure Walked (connected : List (BoundCandidatePair K)) (account : AccountCameras)
    (eligible : Asked → CandidateScope → Bool) (external : ExternalCameraPolicy)
    (p : List (CandidateScope × CompletePairKey)) (w : Walk K) : Prop where
  /-- The log holds the answers that were given. -/
  logged : ∀ before scope answer after, w.asked = before ++ (scope, answer) :: after →
    answer = eligible before scope
  inOrder : (w.asked.map Prod.fst).Sublist (p.map Prod.fst)
  /-- Without a choice every usable entry was asked about and declined. -/
  declined : w.chosen = none → (∀ a ∈ w.asked, a.2 = false) ∧
    ∀ e ∈ p, ∀ pair, standing connected account external e = .usable pair → (e.1, false) ∈ w.asked
  /-- A choice was the last call, and every usable entry before it was declined. -/
  picked : ∀ k scope, w.chosen = some (k, scope) → ∃ p₁ key p₂ pair before,
    p = p₁ ++ (scope, key) :: p₂ ∧ standing connected account external (scope, key) = .usable pair ∧
    k = pair.key ∧ w.asked = before ++ [(scope, true)] ∧ (∀ a ∈ before, a.2 = false) ∧
    ∀ e ∈ p₁, ∀ pair, standing connected account external e = .usable pair → (e.1, false) ∈ before

namespace Walked

variable {p : List (CandidateScope × CompletePairKey)} {w : Walk K}
  {e : CandidateScope × CompletePairKey}

theorem start : Walked connected account eligible external [] ({} : Walk K) where
  logged := by
    intro before scope answer after h
    cases before <;> cases h
  inOrder := List.Sublist.refl _
  declined := by
    intro _
    simp
  picked := by
    intro k scope h
    cases h

variable (h : Walked connected account eligible external p w)

include h

theorem passOver {w' : Walk K}
    (hasked : w'.asked = w.asked) (hchosen : w'.chosen = w.chosen)
    (hidle : w.chosen = none → ∀ pair, standing connected account external e ≠ .usable pair) :
    Walked connected account eligible external (p ++ [e]) w' where
  logged := by
    rw [hasked]
    exact h.logged
  inOrder := by
    rw [hasked, List.map_append]
    exact h.inOrder.trans (List.sublist_append_left _ _)
  declined := by
    intro hnone
    rw [hchosen] at hnone
    obtain ⟨hfalse, hall⟩ := h.declined hnone
    rw [hasked]
    refine ⟨hfalse, ?_⟩
    intro d hd pair hpair
    rcases List.mem_append.1 hd with hd | hd
    · exact hall d hd pair hpair
    · rw [List.mem_singleton.1 hd] at hpair
      exact absurd hpair (hidle hnone pair)
  picked := by
    intro k scope hsome
    rw [hchosen] at hsome
    obtain ⟨p₁, key, p₂, pair, before, rfl, hrest⟩ := h.picked k scope hsome
    rw [hasked]
    exact ⟨p₁, key, p₂ ++ [e], pair, before, by simp, hrest⟩

theorem ask (hnone : w.chosen = none)
    {pair : BoundCandidatePair K} (hpair : standing connected account external e = .usable pair) :
    Walked connected account eligible external (p ++ [e]) (w.ask eligible e.1 pair.key) := by
  obtain ⟨hfalse, hall⟩ := h.declined hnone
  have hasked : (w.ask eligible e.1 pair.key).asked = w.asked ++ [(e.1, eligible w.asked e.1)] := by
    unfold Walk.ask
    dsimp only
    split <;> rfl
  refine ⟨?_, ?_, ?_, ?_⟩
  · intro before scope answer after heq
    rw [hasked] at heq
    rcases List.eq_nil_or_concat after with rfl | ⟨after, last, rfl⟩
    · obtain ⟨rfl, hlast⟩ := List.append_inj' heq rfl
      obtain ⟨rfl, rfl⟩ := Prod.mk.inj (List.singleton_inj.1 hlast)
      rfl
    · rw [List.concat_eq_append, ← List.cons_append, ← List.append_assoc] at heq
      exact h.logged before scope answer after (List.append_inj' heq rfl).1
  · rw [hasked, List.map_append, List.map_append]
    exact h.inOrder.append (List.Sublist.refl _)
  · intro hstill
    have hanswer : eligible w.asked e.1 = false := by
      by_contra hyes
      rw [Bool.not_eq_false] at hyes
      simp [Walk.ask, hyes] at hstill
    rw [hasked, hanswer]
    refine ⟨?_, ?_⟩
    · intro a ha
      rcases List.mem_append.1 ha with ha | ha
      · exact hfalse a ha
      · rw [List.mem_singleton.1 ha]
    · intro d hd q hq
      rcases List.mem_append.1 hd with hd | hd
      · exact List.mem_append_left _ (hall d hd q hq)
      · rw [List.mem_singleton.1 hd]
        exact List.mem_append_right _ (List.mem_singleton.2 rfl)
  · intro k scope hsome
    have hanswer : eligible w.asked e.1 = true := by
      by_contra hno
      simp [Walk.ask, hno, Walk.skip, hnone] at hsome
    have hchosen : (pair.key, e.1) = (k, scope) := by
      simpa [Walk.ask, hanswer] using hsome
    cases hchosen
    rw [hasked, hanswer]
    exact ⟨p, e.2, [], pair, w.asked, rfl, hpair, rfl, rfl, hfalse, hall⟩

theorem visit :
    Walked connected account eligible external (p ++ [e])
      (visit connected account eligible external w e) := by
  rw [visit_eq]
  cases hstanding : standing connected account external e with
  | absent =>
    apply h.passOver rfl rfl
    intro _ pair hpair
    rw [hstanding] at hpair
    cases hpair
  | skip reason =>
    have hskip : (w.skip e.1 reason).asked = w.asked ∧ (w.skip e.1 reason).chosen = w.chosen := ⟨rfl, rfl⟩
    apply h.passOver hskip.1 hskip.2
    intro _ pair hpair
    rw [hstanding] at hpair
    cases hpair
  | usable pair =>
    dsimp only
    split
    · next hnone => exact h.ask (Option.isNone_iff_eq_none.1 hnone) hstanding
    · next hsome =>
      apply h.passOver rfl rfl
      intro hnone
      rw [hnone] at hsome
      exact absurd rfl hsome

theorem foldl
    (l : List (CandidateScope × CompletePairKey)) :
    Walked connected account eligible external (p ++ l)
      (l.foldl (Cameras.visit connected account eligible external) w) := by
  induction l generalizing p w with
  | nil => simpa using h
  | cons e l ih =>
    have hrest := ih (h.visit (e := e))
    rwa [List.append_assoc, List.singleton_append] at hrest

end Walked

theorem walk_walked : Walked connected account eligible external account.ranked
    (walk connected account eligible external) :=
  Walked.start.foldl account.ranked

/-! ## The ranked entries -/

def AccountCameras.scopeKey (account : AccountCameras) : CandidateScope → Option CompletePairKey
  | .primary => account.primaryKey
  | .secondary index => account.groups[index]?.bind PairBinding.completeKey

variable {key : CompletePairKey}

theorem mem_keyed_iff {index : Nat} :
    (index, key) ∈ account.keyed ↔ account.scopeKey (.secondary index) = some key := by
  simp only [AccountCameras.keyed, AccountCameras.scopeKey, List.mem_filterMap, Prod.exists,
    Option.map_eq_some_iff, Prod.mk.injEq, List.mem_zipIdx_iff_getElem?, Option.bind_eq_some_iff]
  constructor
  · intro h
    obtain ⟨pair, _, hpair, _, hkey, rfl, rfl⟩ := h
    exact ⟨pair, hpair, hkey⟩
  · intro h
    obtain ⟨pair, hpair, hkey⟩ := h
    exact ⟨pair, index, hpair, key, hkey, rfl, rfl⟩

variable {scope : CandidateScope}

theorem mem_ranked_iff :
    (scope, key) ∈ account.ranked ↔ account.scopeKey scope = some key := by
  have hsorted : ∀ g, g ∈ account.sortedGroups ↔ g ∈ account.keyed :=
    fun g => (List.perm_insertionSort _ _).mem_iff
  cases scope with
  | primary => simp [AccountCameras.ranked, AccountCameras.scopeKey]
  | secondary index =>
    rw [← mem_keyed_iff, ← hsorted]
    simp [AccountCameras.ranked]

theorem countP_sortedGroups (key : CompletePairKey) :
    account.sortedGroups.countP (fun g => g.2 = key) =
      account.groups.countP (fun g => g.completeKey = some key) := by
  have hkeyed : ∀ (gs : List PairBinding) (n : Nat),
      ((gs.zipIdx n).filterMap fun (pair, index) => pair.completeKey.map fun key => (index, key)).countP
        (fun g => g.2 = key) = gs.countP (fun g => g.completeKey = some key) := by
    intro gs
    induction gs with
    | nil => intro n; rfl
    | cons g gs ih =>
      intro n
      rw [List.zipIdx_cons, List.countP_cons]
      cases hkey : g.completeKey with
      | none => simp [hkey, ih]
      | some k => simp [hkey, List.countP_cons, ← ih (n + 1)]
  rw [AccountCameras.sortedGroups, (List.perm_insertionSort _ _).countP_eq, AccountCameras.keyed, hkeyed]

instance : Std.Total rankLe where
  total a b := by
    unfold rankLe
    rcases lt_trichotomy a.2 b.2 with h | h | h
    · exact .inl (.inl h)
    · rcases Nat.le_total a.1 b.1 with hle | hle
      · exact .inl (.inr ⟨h, hle⟩)
      · exact .inr (.inr ⟨h.symm, hle⟩)
    · exact .inr (.inl h)

instance : IsTrans (Nat × CompletePairKey) rankLe where
  trans a b c := by
    unfold rankLe
    intro hab hbc
    rcases hab with hab | ⟨hab, hle⟩
    · rcases hbc with hbc | ⟨hbc, -⟩
      · exact .inl (hab.trans hbc)
      · exact .inl (hbc ▸ hab)
    · rcases hbc with hbc | ⟨hbc, hle'⟩
      · exact .inl (hab ▸ hbc)
      · exact .inr ⟨hab.trans hbc, hle.trans hle'⟩

theorem sortedGroups_pairwise (account : AccountCameras) : account.sortedGroups.Pairwise rankLe :=
  List.pairwise_insertionSort rankLe account.keyed

theorem ranked_pairwise (account : AccountCameras) :
    account.ranked.Pairwise fun e e' => e'.1 ≠ .primary ∧ (e.1 = .primary ∨ e.2 ≤ e'.2) := by
  have hgroups : (account.sortedGroups.map fun (index, key) => (CandidateScope.secondary index, key)).Pairwise
      fun e e' => e'.1 ≠ .primary ∧ (e.1 = .primary ∨ e.2 ≤ e'.2) := by
    rw [List.pairwise_map]
    apply (sortedGroups_pairwise account).imp
    intro a b hab
    refine ⟨by simp, .inr ?_⟩
    rcases hab with hab | ⟨hab, -⟩
    · exact hab.le
    · exact hab.le
  rw [AccountCameras.ranked, List.pairwise_append]
  refine ⟨?_, hgroups, ?_⟩
  · cases account.primaryKey <;> simp
  · intro e he e' he'
    obtain ⟨key, -, rfl⟩ := Option.map_eq_some_iff.1 (Option.mem_toList.1 he)
    obtain ⟨g, -, rfl⟩ := List.mem_map.1 he'
    exact ⟨by simp, .inl rfl⟩

theorem keyed_nodup (account : AccountCameras) : (account.keyed.map Prod.fst).Nodup := by
  have hsub : (account.keyed.map Prod.fst).Sublist (account.groups.zipIdx.map Prod.snd) := by
    unfold AccountCameras.keyed
    generalize account.groups.zipIdx = gs
    induction gs with
    | nil => exact .slnil
    | cons g gs ih =>
      cases hkey : g.1.completeKey with
      | none => simpa [hkey] using ih.cons _
      | some k => simpa [hkey] using ih.cons_cons g.2
  apply hsub.nodup
  rw [List.zipIdx_map_snd]
  exact List.nodup_range'

theorem ranked_nodup (account : AccountCameras) : (account.ranked.map Prod.fst).Nodup := by
  have hgroups : ((account.sortedGroups.map Prod.fst).map CandidateScope.secondary).Nodup := by
    apply List.Nodup.map
    · intro i j h
      exact CandidateScope.secondary.inj h
    · exact ((List.perm_insertionSort _ _).map Prod.fst).nodup_iff.2 (keyed_nodup account)
  rw [AccountCameras.ranked, List.map_append, List.map_map]
  rw [List.map_map] at hgroups
  apply List.Nodup.append
  · cases account.primaryKey <;> simp
  · exact hgroups
  · intro scope h h'
    obtain ⟨g, -, rfl⟩ := List.mem_map.1 h'
    cases hprimary : account.primaryKey with
    | none => simp [hprimary] at h
    | some k => simp [hprimary] at h

/-! ## Usable scopes -/

/-- Exactly one allowed connected candidate carries the scope's key, and a secondary scope is active
and the only group with that key. -/
structure Usable (connected : List (BoundCandidatePair K)) (account : AccountCameras)
    (external : ExternalCameraPolicy) (scope : CandidateScope) (pair : BoundCandidatePair K) : Prop where
  enrolled : account.scopeKey scope = some pair.pair
  valid : pair.pair.validate = .ok ()
  single : allowed connected external pair.pair = [pair]
  active : scope.isSecondary = true → account.secondaryActive = true
  unambiguous : scope.isSecondary = true →
    account.groups.countP (fun g => g.completeKey = some pair.pair) = 1

theorem mem_allowed {pair : BoundCandidatePair K}
    (h : pair ∈ allowed connected external key) :
    pair ∈ connected ∧ pair.pair.validate = .ok () ∧ pair.pair = key ∧ external.excludes pair = false := by
  simp only [allowed, carrying, List.mem_filter, Bool.not_eq_true', decide_eq_true_eq] at h
  exact ⟨h.1.1.1, h.1.1.2, h.1.2, h.2⟩

theorem countP_groups_pos
    (henrolled : account.scopeKey scope = some key) (hsecondary : scope.isSecondary = true) :
    0 < account.groups.countP (fun g => g.completeKey = some key) := by
  cases scope with
  | primary => cases hsecondary
  | secondary index =>
    obtain ⟨group, hgroup, hkey⟩ := Option.bind_eq_some_iff.1 henrolled
    exact List.countP_pos_iff.2 ⟨group, List.mem_of_getElem? hgroup, by simpa using hkey⟩

theorem standing_usable_iff
    {pair : BoundCandidatePair K} (henrolled : account.scopeKey scope = some key) :
    standing connected account external (scope, key) = .usable pair ↔
      key = pair.pair ∧ Usable connected account external scope pair := by
  constructor
  · intro h
    unfold standing at h
    dsimp only at h
    split at h
    · cases h
    · split at h
      · cases h
      · next hgroups =>
        split at h
        · cases h
        · next hactive =>
          split at h
          · cases h
          · next single hsingle =>
            obtain rfl := Standing.usable.inj h
            obtain ⟨-, hvalid, rfl, -⟩ := mem_allowed (hsingle ▸ List.mem_singleton_self single)
            rw [countP_sortedGroups] at hgroups
            refine ⟨rfl, ⟨henrolled, hvalid, hsingle, ?_, ?_⟩⟩
            · intro hsecondary
              simpa [hsecondary] using hactive
            · intro hsecondary
              have hle : ¬1 < account.groups.countP (fun g => g.completeKey = some single.pair) := by
                simpa [hsecondary] using hgroups
              have hpos := countP_groups_pos henrolled hsecondary
              omega
          · cases h
  · intro h
    obtain ⟨rfl, h⟩ := h
    have hcarried : carrying connected pair.pair ≠ [] := by
      intro hnil
      have hallowed := h.single
      rw [allowed, hnil] at hallowed
      cases hallowed
    unfold standing
    dsimp only
    rw [if_neg hcarried, if_neg, if_neg, h.single]
    · intro hinactive
      rw [Bool.and_eq_true] at hinactive
      rw [h.active hinactive.1] at hinactive
      exact Bool.false_ne_true hinactive.2
    · intro htwins
      rw [Bool.and_eq_true] at htwins
      rw [countP_sortedGroups, h.unambiguous htwins.1] at htwins
      exact absurd htwins.2 (by decide)

def AccountCameras.RanksBefore (account : AccountCameras) : CandidateScope → CandidateScope → Prop
  | .primary, .secondary _ => True
  | .secondary i, .secondary j => ∃ k k', account.scopeKey (.secondary i) = some k ∧
      account.scopeKey (.secondary j) = some k' ∧ k < k'
  | _, .primary => False

theorem ranked_split {p₁ p₂ : List (CandidateScope × CompletePairKey)} {scope first : CandidateScope}
    {key firstKey : CompletePairKey} (hsplit : account.ranked = p₁ ++ (scope, key) :: p₂)
    (henrolled : account.scopeKey first = some firstKey) (hfirst : account.RanksBefore first scope) :
    (first, firstKey) ∈ p₁ := by
  have hkey : account.scopeKey scope = some key := by
    rw [← mem_ranked_iff, hsplit]
    simp
  have hmem : (first, firstKey) ∈ account.ranked := mem_ranked_iff.2 henrolled
  have hpairwise := ranked_pairwise account
  rw [hsplit] at hmem hpairwise
  have hlater := (List.pairwise_cons.1 (List.pairwise_append.1 hpairwise).2.1).1
  rcases List.mem_append.1 hmem with hmem | hmem
  · exact hmem
  · exfalso
    cases scope with
    | primary => cases first <;> exact hfirst
    | secondary j =>
      cases first with
      | primary =>
        rcases List.mem_cons.1 hmem with heq | hmem
        · cases heq
        · exact (hlater _ hmem).1 rfl
      | secondary i =>
        obtain ⟨k, k', hk, hk', hlt⟩ := hfirst
        rw [henrolled] at hk
        rw [hkey] at hk'
        cases hk
        cases hk'
        rcases List.mem_cons.1 hmem with heq | hmem
        · cases heq
          exact lt_irrefl _ hlt
        · rcases (hlater _ hmem).2 with heq | hle
          · cases heq
          · exact absurd hlt (not_lt.2 hle)

/-- What a choice rests on: the enrolled key, the one allowed candidate that carries it, and the calls
of `eligible` that led to it. -/
structure Chosen (connected : List (BoundCandidatePair K)) (account : AccountCameras)
    (external : ExternalCameraPolicy) (selection : Selection K) (asked : Asked) : Prop where
  usable : ∃ pair, Usable connected account external selection.scope pair ∧ selection.key = pair.key
  accepted : (selection.scope, true) ∈ asked
  best : ∀ scope pair, Usable connected account external scope pair →
    account.RanksBefore scope selection.scope → (scope, false) ∈ asked

theorem Walked.chosen {w : Walk K} (hw : Walked connected account eligible external account.ranked w)
    {selection : Selection K} (h : w.outcome account = .selected selection) :
    Chosen connected account external selection w.asked := by
  have hchosen : w.chosen = some (selection.key, selection.scope) := by
    unfold Walk.outcome at h
    split at h
    · next key scope hchosen =>
      rw [hchosen, ← SelectionOutcome.selected.inj h]
    · cases h
    · cases h
  obtain ⟨p₁, key, p₂, pair, before, hsplit, hstanding, hkey, hasked, -, hdeclined⟩ :=
    hw.picked _ _ hchosen
  have henrolled : account.scopeKey selection.scope = some key := by
    rw [← mem_ranked_iff, hsplit]
    simp
  obtain ⟨rfl, husable⟩ := (standing_usable_iff henrolled).1 hstanding
  refine ⟨⟨pair, husable, hkey⟩, ?_, ?_⟩
  · rw [hasked]
    simp
  · intro scope other hother hbefore
    rw [hasked]
    apply List.mem_append_left
    exact hdeclined _ (ranked_split hsplit hother.enrolled hbefore) other
      ((standing_usable_iff hother.enrolled).2 ⟨rfl, hother⟩)

theorem Walked.nothing_after {w : Walk K}
    {p : List (CandidateScope × CompletePairKey)} (hw : Walked connected account eligible external p w)
    {before after : Asked} (h : w.asked = before ++ (scope, true) :: after) :
    after = [] := by
  cases hchosen : w.chosen with
  | none =>
    have hfalse := (hw.declined hchosen).1 (scope, true) (by rw [h]; simp)
    cases hfalse
  | some choice =>
    obtain ⟨k, last⟩ := choice
    obtain ⟨-, -, -, -, declined, -, -, -, hasked, hdeclined, -⟩ := hw.picked k last hchosen
    rcases List.eq_nil_or_concat after with rfl | ⟨after, end_, rfl⟩
    · rfl
    · rw [h, List.concat_eq_append, ← List.cons_append, ← List.append_assoc] at hasked
      obtain ⟨rfl, -⟩ := List.append_inj' hasked rfl
      have hfalse := hdeclined (scope, true) (by simp)
      cases hfalse

/-- **The choice**: a selected camera is enrolled, unambiguous and allowed, and every usable scope that
ranks before it was declined; a usable scope that is accepted whenever it is asked about leads to a
selection unless the primary is a malformed split binding; and `eligible` is asked at most once for a
scope, with nothing asked after it accepts. -/
theorem selectBound_chooses_best (connected : List (BoundCandidatePair K)) (account : AccountCameras)
    (eligible : Asked → CandidateScope → Bool) (external : ExternalCameraPolicy)
    (outcome : SelectionOutcome K) (asked : Asked)
    (h : selectBoundForAccountWith connected account eligible external = (outcome, asked)) :
    (∀ selection, outcome = .selected selection → Chosen connected account external selection asked) ∧
    (isMalformedSplit account = false →
      (∃ scope pair, Usable connected account external scope pair ∧ ∀ before, eligible before scope = true) →
      ∃ selection, outcome = .selected selection) ∧
    (∀ before scope answer after, asked = before ++ (scope, answer) :: after →
      answer = eligible before scope ∧ (answer = true → after = [])) ∧
    (asked.map Prod.fst).Nodup := by
  by_cases hmalformed : isMalformedSplit account = true
  · rw [selectBoundForAccountWith, if_pos hmalformed] at h
    obtain ⟨rfl, rfl⟩ := Prod.mk.inj h
    refine ⟨?_, ?_, ?_, List.nodup_nil⟩
    · intro selection hselected
      cases hselected
    · intro hfine
      rw [hmalformed] at hfine
      cases hfine
    · intro before scope answer after hasked
      cases before <;> cases hasked
  · rw [selectBoundForAccountWith, if_neg hmalformed] at h
    obtain ⟨rfl, rfl⟩ := Prod.mk.inj h
    have hw : Walked connected account eligible external account.ranked
      (walk connected account eligible external) := walk_walked
    refine ⟨?_, ?_, ?_, hw.inOrder.nodup (ranked_nodup account)⟩
    · intro selection hselected
      exact hw.chosen hselected
    · intro _ husable
      obtain ⟨scope, pair, husable, haccepts⟩ := husable
      cases hchosen : (walk connected account eligible external).chosen with
      | none =>
        obtain ⟨hfalse, hall⟩ := hw.declined hchosen
        have hmem := hall _ (mem_ranked_iff.2 husable.enrolled) pair
          ((standing_usable_iff husable.enrolled).2 ⟨rfl, husable⟩)
        obtain ⟨before, after, hasked⟩ := List.append_of_mem hmem
        have hanswer := hw.logged before scope false after hasked
        rw [haccepts before] at hanswer
        cases hanswer
      | some choice => exact ⟨_, by rw [Walk.outcome, hchosen]⟩
    · intro before scope answer after hasked
      refine ⟨hw.logged before scope answer after hasked, ?_⟩
      intro hanswer
      subst hanswer
      exact hw.nothing_after hasked

end Walk

/-! A primary that `eligible` declines and two groups, of which the one that was stored last has the
lower key. -/

def ordinaryPair (name : Char) : PairBinding := .ordinary (some [name, 'r']) (some [name, 'i'])

def candidate (handle : Nat) (name : Char) : BoundCandidatePair Nat where
  key := handle
  pair := .ordinary [name, 'r'] [name, 'i']
  rgbFixed := true
  irFixed := true

def threeCameras : AccountCameras where
  primary := some (ordinaryPair 'p')
  secondaryActive := true
  secondaryUnreadable := false
  groups := [ordinaryPair 'b', ordinaryPair 'a']

/-- The primary is declined, and the group stored last is chosen. -/
theorem selectBound_chooses_best_lower_key :
    Chosen [candidate 1 'b', candidate 2 'p', candidate 3 'a'] threeCameras ⟨false, false⟩
      ⟨3, .secondary 1, [⟨.primary, .notEligible⟩]⟩ [(.primary, false), (.secondary 1, true)] :=
  (selectBound_chooses_best [candidate 1 'b', candidate 2 'p', candidate 3 'a'] threeCameras
    (fun _ scope => decide (scope ≠ .primary)) ⟨false, false⟩
    (.selected ⟨3, .secondary 1, [⟨.primary, .notEligible⟩]⟩)
    [(.primary, false), (.secondary 1, true)] (by decide)).1 _ rfl

end Irlume.Cameras

import Irlume.Cameras.Selection
import Mathlib.Data.Fintype.Perm

/-!
# Selection does not depend on storage order

The groups of an account and the connected candidates may be listed in any order. Two accounts that
differ by a permutation of their groups are walked side by side: the keys of the ranked entries are
the same list, and entries at one place name the same group unless several groups hold that key, which
is a reason to skip all of them.
-/

namespace Irlume.Cameras

variable {K : Type}

/-! ## A permuted account -/

def AccountCameras.permuted (account : AccountCameras) (σ : Equiv.Perm (Fin account.groups.length)) :
    AccountCameras :=
  { account with groups := List.ofFn fun i => account.groups.get (σ i) }

def transport {n : Nat} (σ : Equiv.Perm (Fin n)) : CandidateScope → CandidateScope
  | .primary => .primary
  | .secondary index => .secondary (if h : index < n then σ ⟨index, h⟩ else index)

def transportSkipped {n : Nat} (σ : Equiv.Perm (Fin n)) (s : Skipped) : Skipped :=
  { s with scope := transport σ s.scope }

def SameOutcome {n : Nat} (σ : Equiv.Perm (Fin n)) : SelectionOutcome K → SelectionOutcome K → Prop
  | .selected s', .selected s =>
    s'.key = s.key ∧ transport σ s'.scope = s.scope ∧
      (s'.skipped.map (transportSkipped σ)).Perm s.skipped
  | .notApplicable skipped', .notApplicable skipped =>
    (skipped'.map (transportSkipped σ)).Perm skipped
  | .refused cause' skipped', .refused cause skipped =>
    cause' = cause ∧ (skipped'.map (transportSkipped σ)).Perm skipped
  | _, _ => False

section Permuted

variable {account : AccountCameras} (σ : Equiv.Perm (Fin account.groups.length))

theorem transport_isSecondary {n : Nat} (σ : Equiv.Perm (Fin n)) (scope : CandidateScope) :
    (transport σ scope).isSecondary = scope.isSecondary := by
  cases scope <;> rfl

theorem scopeKey_permuted (scope : CandidateScope) :
    (account.permuted σ).scopeKey scope = account.scopeKey (transport σ scope) := by
  cases scope with
  | primary => rfl
  | secondary index =>
    simp only [AccountCameras.scopeKey, AccountCameras.permuted, transport]
    by_cases h : index < account.groups.length
    · rw [dif_pos h, List.getElem?_ofFn, dif_pos h]
      simp
    · rw [dif_neg h, List.getElem?_ofFn, dif_neg h, List.getElem?_eq_none (by omega)]

theorem groups_permuted_perm : (account.permuted σ).groups.Perm account.groups := by
  have h : (List.ofFn (account.groups.get ∘ σ)).Perm (List.ofFn account.groups.get) :=
    Equiv.Perm.ofFn_comp_perm σ account.groups.get
  rw [List.ofFn_get] at h
  exact h

theorem countP_permuted (key : CompletePairKey) :
    (account.permuted σ).sortedGroups.countP (fun g => g.2 = key) =
      account.sortedGroups.countP (fun g => g.2 = key) := by
  rw [countP_sortedGroups, countP_sortedGroups, (groups_permuted_perm σ).countP_eq]

theorem transport_symm {n : Nat} (σ : Equiv.Perm (Fin n)) (scope : CandidateScope) :
    transport σ (transport σ.symm scope) = scope := by
  cases scope with
  | primary => rfl
  | secondary index =>
    by_cases h : index < n
    · simp [transport, h]
    · simp [transport, h]

theorem transport_injective {n : Nat} (σ : Equiv.Perm (Fin n)) : Function.Injective (transport σ) := by
  intro scope scope' h
  have hback := congrArg (transport σ.symm) h
  have hinverse := transport_symm σ.symm
  rw [Equiv.symm_symm] at hinverse
  rwa [hinverse, hinverse] at hback

/-! ## The ranked entries of both accounts -/

theorem eq_of_sorted {ks ks' : List CompletePairKey} (h : ks.Pairwise (· ≤ ·)) (h' : ks'.Pairwise (· ≤ ·))
    (hperm : ks.Perm ks') : ks = ks' := by
  apply hperm.eq_of_pairwise _ h h'
  intro a b _ _ hab hba
  exact le_antisymm hab hba

theorem ranked_keys (account : AccountCameras) : account.sortedGroups.map Prod.snd =
    (account.groups.filterMap PairBinding.completeKey).insertionSort (· ≤ ·) := by
  have hkeyed : ∀ (gs : List PairBinding) (n : Nat),
      ((gs.zipIdx n).filterMap fun x => x.1.completeKey.map fun key => (x.2, key)).map
        Prod.snd = gs.filterMap PairBinding.completeKey := by
    intro gs
    induction gs with
    | nil => intro n; rfl
    | cons g gs ih =>
      intro n
      rw [List.zipIdx_cons]
      cases hkey : g.completeKey with
      | none => simpa [hkey] using ih (n + 1)
      | some k => simpa [hkey] using ih (n + 1)
  apply eq_of_sorted
  · rw [List.pairwise_map]
    apply (sortedGroups_pairwise account).imp
    intro a b hab
    rcases hab with hab | ⟨hab, -⟩
    · exact hab.le
    · exact hab.le
  · exact List.pairwise_insertionSort _ _
  · have hkeys : (account.sortedGroups.map Prod.snd).Perm (account.keyed.map Prod.snd) :=
      (List.perm_insertionSort _ _).map _
    rw [AccountCameras.keyed, hkeyed] at hkeys
    exact hkeys.trans (List.perm_insertionSort _ _).symm

theorem ranked_perm :
    ((account.permuted σ).ranked.map fun e => (transport σ e.1, e.2)).Perm account.ranked := by
  have hinjective : Function.Injective
      fun e : CandidateScope × CompletePairKey => (transport σ e.1, e.2) := by
    intro e e' h
    obtain ⟨hscope, hkey⟩ := Prod.mk.inj h
    exact Prod.ext (transport_injective σ hscope) hkey
  rw [List.perm_ext_iff_of_nodup ((ranked_nodup _).of_map.map hinjective) (ranked_nodup _).of_map]
  intro e
  obtain ⟨scope, key⟩ := e
  rw [mem_ranked_iff, List.mem_map]
  constructor
  · intro h
    obtain ⟨⟨scope', key'⟩, hmem, heq⟩ := h
    cases heq
    rwa [mem_ranked_iff, scopeKey_permuted] at hmem
  · intro h
    refine ⟨(transport σ.symm scope, key), ?_, by rw [transport_symm]⟩
    rw [mem_ranked_iff, scopeKey_permuted, transport_symm]
    exact h

/-- Entries at one place of the two rankings. -/
structure Related (e' e : CandidateScope × CompletePairKey) : Prop where
  key : e'.2 = e.2
  secondary : e'.1.isSecondary = e.1.isSecondary
  scope : transport σ e'.1 = e.1 ∨
    e.1.isSecondary = true ∧ 1 < account.sortedGroups.countP (fun g => g.2 = e.2)

theorem scope_unique {i j : Nat} {key : CompletePairKey}
    (hcount : ¬1 < account.groups.countP (fun g => g.completeKey = some key))
    (hi : account.scopeKey (.secondary i) = some key) (hj : account.scopeKey (.secondary j) = some key) :
    i = j := by
  have hmem : ∀ {n : Nat}, account.scopeKey (.secondary n) = some key →
      (n, key) ∈ account.sortedGroups.filter (fun g => g.2 = key) := by
    intro n hn
    rw [List.mem_filter]
    refine ⟨?_, by simp⟩
    exact (List.perm_insertionSort _ _).mem_iff.2 (mem_keyed_iff.2 hn)
  rw [← countP_sortedGroups, List.countP_eq_length_filter] at hcount
  have hi := hmem hi
  have hj := hmem hj
  generalize account.sortedGroups.filter (fun g => g.2 = key) = twins at hi hj hcount
  match twins with
  | [] => cases hi
  | [g] =>
    rw [List.mem_singleton] at hi hj
    rw [← hj] at hi
    exact (Prod.mk.inj hi).1
  | _ :: _ :: _ => simp at hcount

theorem sortedGroups_keys :
    (account.permuted σ).sortedGroups.map Prod.snd = account.sortedGroups.map Prod.snd := by
  rw [ranked_keys, ranked_keys]
  apply eq_of_sorted
  · exact List.pairwise_insertionSort _ _
  · exact List.pairwise_insertionSort _ _
  · have hgroups := (groups_permuted_perm σ).filterMap PairBinding.completeKey
    exact ((List.perm_insertionSort _ _).trans hgroups).trans (List.perm_insertionSort _ _).symm

theorem related_of_key {g' g : Nat × CompletePairKey} (hg' : g' ∈ (account.permuted σ).sortedGroups)
    (hg : g ∈ account.sortedGroups) (hkey : g'.2 = g.2) :
    Related σ (.secondary g'.1, g'.2) (.secondary g.1, g.2) := by
  have hsorted : ∀ {a : AccountCameras} {h : Nat × CompletePairKey}, h ∈ a.sortedGroups →
      a.scopeKey (.secondary h.1) = some h.2 := by
    intro a h hmem
    exact mem_keyed_iff.1 ((List.perm_insertionSort _ _).mem_iff.1 hmem)
  have hscope' := hsorted hg'
  have hscope := hsorted hg
  refine ⟨hkey, rfl, ?_⟩
  by_cases hcount : 1 < account.groups.countP (fun h => h.completeKey = some g.2)
  · right
    rw [countP_sortedGroups]
    exact ⟨rfl, hcount⟩
  · left
    rw [scopeKey_permuted, hkey] at hscope'
    exact congrArg CandidateScope.secondary (scope_unique hcount hscope' hscope)

theorem ranked_related : List.Forall₂ (Related σ) (account.permuted σ).ranked account.ranked := by
  have hgroups : List.Forall₂ (fun g' g => Related σ (.secondary g'.1, g'.2) (.secondary g.1, g.2))
      (account.permuted σ).sortedGroups account.sortedGroups := by
    have hkeys := sortedGroups_keys σ
    have hlength := congrArg List.length hkeys
    rw [List.length_map, List.length_map] at hlength
    apply List.forall₂_iff_get.2
    refine ⟨hlength, ?_⟩
    intro i hi' hi
    apply related_of_key σ (List.get_mem _ _) (List.get_mem _ _)
    have hat := congrArg (fun l => l[i]?) hkeys
    simpa [hi', hi] using hat
  apply List.rel_append
  · show List.Forall₂ (Related σ) (account.primaryKey.map fun key => (CandidateScope.primary, key)).toList _
    cases account.primaryKey with
    | none => exact .nil
    | some key => exact .cons ⟨rfl, rfl, .inl rfl⟩ .nil
  · rw [List.forall₂_map_left_iff, List.forall₂_map_right_iff]
    exact hgroups

end Permuted

/-! ## Both walks side by side -/

section Walks

variable {connected connected' : List (BoundCandidatePair K)} {account : AccountCameras}
  {external : ExternalCameraPolicy} {eligible : CandidateScope → Bool}
  (σ : Equiv.Perm (Fin account.groups.length))

theorem standing_related (hperm : connected'.Perm connected) {e' e : CandidateScope × CompletePairKey}
    (h : Related σ e' e) :
    standing connected' (account.permuted σ) external e' = standing connected account external e := by
  have hcarrying : (carrying connected' e.2).Perm (carrying connected e.2) :=
    (hperm.filter _).filter _
  have hallowed : (allowed connected' external e.2).Perm (allowed connected external e.2) :=
    hcarrying.filter _
  have hnil : carrying connected' e.2 = [] ↔ carrying connected e.2 = [] :=
    ⟨fun hnil => List.nil_perm.1 (hnil ▸ hcarrying), fun hnil => List.perm_nil.1 (hnil ▸ hcarrying)⟩
  unfold standing
  rw [h.key, h.secondary, countP_permuted]
  simp only [hnil, show (account.permuted σ).secondaryActive = account.secondaryActive from rfl]
  split
  · rfl
  · split
    · rfl
    · split
      · rfl
      · cases hb : allowed connected external e.2 with
        | nil =>
          rw [hb] at hallowed
          rw [List.perm_nil.1 hallowed]
        | cons pair rest =>
          rw [hb] at hallowed
          cases rest with
          | nil => rw [List.perm_singleton.1 hallowed]
          | cons other rest =>
            have hlength := hallowed.length_eq
            cases ha : allowed connected' external e.2 with
            | nil => simp [ha] at hlength
            | cons pair' rest' =>
              cases rest' with
              | nil => simp [ha] at hlength
              | cons _ _ => rfl

theorem standing_ambiguous (connected : List (BoundCandidatePair K)) (external : ExternalCameraPolicy)
    {e : CandidateScope × CompletePairKey} (hsecondary : e.1.isSecondary = true)
    (hcount : 1 < account.sortedGroups.countP (fun g => g.2 = e.2)) :
    standing connected account external e = .absent ∨
      standing connected account external e = .skip .ambiguousGroups := by
  unfold standing
  split
  · exact .inl rfl
  · right
    rw [if_pos (by simp [hsecondary, hcount])]

/-- The walks agree: the same choice, and skips of the same reasons in the same order, for the same
scope unless the reason is that several groups hold the key. -/
structure SameWalk (w' w : Walk K) : Prop where
  chosen : w'.chosen.map (fun c => (c.1, transport σ c.2)) = w.chosen
  skipped : List.Forall₂ (fun s' s : Skipped => s'.reason = s.reason ∧
    (transport σ s'.scope = s.scope ∨ s.reason = .ambiguousGroups)) w'.skipped w.skipped

variable {w' w : Walk K}

theorem SameWalk.skip (hw : SameWalk σ w' w) {scope' scope : CandidateScope}
    {reason : SkipReason} (h : transport σ scope' = scope ∨ reason = .ambiguousGroups) :
    SameWalk σ (w'.skip scope' reason) (w.skip scope reason) :=
  ⟨hw.chosen, List.rel_append hw.skipped (.cons ⟨rfl, h⟩ .nil)⟩

theorem SameWalk.ask (hw : SameWalk σ w' w) {scope' scope : CandidateScope}
    (h : transport σ scope' = scope) (key : K) :
    SameWalk σ (w'.ask (fun _ s => eligible (transport σ s)) scope' key)
      (w.ask (fun _ => eligible) scope key) := by
  subst h
  unfold Walk.ask
  dsimp only
  split
  · exact ⟨rfl, hw.skipped⟩
  · apply SameWalk.skip
    · exact ⟨hw.chosen, hw.skipped⟩
    · exact .inl rfl

theorem SameWalk.visit (hperm : connected'.Perm connected) (hw : SameWalk σ w' w)
    {e' e : CandidateScope × CompletePairKey} (h : Related σ e' e) :
    SameWalk σ
      (visit connected' (account.permuted σ) (fun _ s => eligible (transport σ s)) external w' e')
      (Cameras.visit connected account (fun _ => eligible) external w e) := by
  have hnone : w'.chosen.isNone = w.chosen.isNone := by
    rw [← hw.chosen, Option.isNone_map]
  rw [visit_eq, visit_eq, standing_related σ hperm h]
  cases hstanding : standing connected account external e with
  | absent => exact hw
  | skip reason =>
    apply hw.skip σ
    rcases h.scope with hscope | ⟨hsecondary, hcount⟩
    · exact .inl hscope
    · have hambiguous := standing_ambiguous connected external hsecondary hcount
      rw [hstanding] at hambiguous
      rcases hambiguous with habsent | hskip
      · cases habsent
      · exact .inr (Standing.skip.inj hskip)
  | usable pair =>
    have hscope : transport σ e'.1 = e.1 := by
      rcases h.scope with hscope | ⟨hsecondary, hcount⟩
      · exact hscope
      · have hambiguous := standing_ambiguous connected external hsecondary hcount
        rw [hstanding] at hambiguous
        rcases hambiguous with hother | hother
        · cases hother
        · cases hother
    dsimp only
    rw [hnone]
    split
    · exact hw.ask σ hscope pair.key
    · exact hw

theorem walk_same (external : ExternalCameraPolicy) (eligible : CandidateScope → Bool)
    (hperm : connected'.Perm connected) :
    SameWalk σ
      (walk connected' (account.permuted σ) (fun _ s => eligible (transport σ s)) external)
      (walk connected account (fun _ => eligible) external) := by
  have hrun : ∀ {l' l : List (CandidateScope × CompletePairKey)}, List.Forall₂ (Related σ) l' l →
      ∀ {w' w : Walk K}, SameWalk σ w' w →
      SameWalk σ
        (l'.foldl (Cameras.visit connected' (account.permuted σ)
          (fun _ s => eligible (transport σ s)) external) w')
        (l.foldl (Cameras.visit connected account (fun _ => eligible) external) w) := by
    intro l' l hl
    induction hl with
    | nil =>
      intro w' w hw
      exact hw
    | cons hhead _ ih =>
      intro w' w hw
      exact ih (hw.visit σ hperm hhead)
  exact hrun (ranked_related σ) ⟨rfl, .nil⟩

/-! ## The skips of both walks -/

def Standing.isAmbiguous : Standing K → Bool
  | .skip .ambiguousGroups => true
  | _ => false

def Skipped.isAmbiguous (s : Skipped) : Bool := s.reason = .ambiguousGroups

theorem ambiguous_skipped (connected : List (BoundCandidatePair K)) (account : AccountCameras)
    (asker : Asked → CandidateScope → Bool) (external : ExternalCameraPolicy)
    (l : List (CandidateScope × CompletePairKey)) (w : Walk K) :
    (l.foldl (Cameras.visit connected account asker external) w).skipped.filter Skipped.isAmbiguous =
      w.skipped.filter Skipped.isAmbiguous ++
        (l.filter fun e => (standing connected account external e).isAmbiguous).map
          fun e => ⟨e.1, .ambiguousGroups⟩ := by
  induction l generalizing w with
  | nil => simp
  | cons e l ih =>
    rw [List.foldl_cons, ih, visit_eq]
    cases hstanding : standing connected account external e with
    | absent => simp [hstanding, Standing.isAmbiguous]
    | skip reason =>
      cases reason <;> simp [hstanding, Standing.isAmbiguous, Walk.skip, Skipped.isAmbiguous]
    | usable pair =>
      have hkeep : ((if w.chosen.isNone then w.ask asker e.1 pair.key else w).skipped.filter
          Skipped.isAmbiguous) = w.skipped.filter Skipped.isAmbiguous := by
        unfold Walk.ask
        dsimp only
        split
        · split
          · rfl
          · simp [Walk.skip, Skipped.isAmbiguous]
        · rfl
      dsimp only
      rw [hkeep]
      simp [hstanding, Standing.isAmbiguous]

theorem others_eq {skipped' skipped : List Skipped}
    (h : List.Forall₂ (fun s' s : Skipped => s'.reason = s.reason ∧
      (transport σ s'.scope = s.scope ∨ s.reason = .ambiguousGroups)) skipped' skipped) :
    (skipped'.filter fun s => !s.isAmbiguous).map (transportSkipped σ) =
      skipped.filter fun s => !s.isAmbiguous := by
  induction h with
  | nil => rfl
  | @cons s' s _ _ hhead _ ih =>
    obtain ⟨scope', reason⟩ := s'
    obtain ⟨scope, _⟩ := s
    obtain ⟨rfl, hscope⟩ := hhead
    by_cases h : reason = .ambiguousGroups
    · simpa [Skipped.isAmbiguous, h] using ih
    · obtain rfl : transport σ scope' = scope := hscope.resolve_right h
      simpa [Skipped.isAmbiguous, h, transportSkipped] using ih

theorem ambiguous_perm (external : ExternalCameraPolicy) (hperm : connected'.Perm connected) :
    (((account.permuted σ).ranked.filter fun e =>
        (standing connected' (account.permuted σ) external e).isAmbiguous).map
      fun e => (transport σ e.1, e.2)).Perm
      (account.ranked.filter fun e => (standing connected account external e).isAmbiguous) := by
  have hstanding : ∀ e, standing connected' (account.permuted σ) external e =
      standing connected account external (transport σ e.1, e.2) := by
    intro e
    apply standing_related σ hperm
    exact ⟨rfl, (transport_isSecondary σ e.1).symm, .inl rfl⟩
  have hfilter := (ranked_perm σ).filter
    fun e => (standing connected account external e).isAmbiguous
  rw [List.filter_map] at hfilter
  simp only [hstanding]
  exact hfilter

theorem skipped_perm (hperm : connected'.Perm connected) :
    ((walk connected' (account.permuted σ) (fun _ s => eligible (transport σ s)) external).skipped.map
      (transportSkipped σ)).Perm
      (walk connected account (fun _ => eligible) external).skipped := by
  have hothers := others_eq σ (walk_same σ external eligible hperm).skipped
  have hambiguous' := ambiguous_skipped connected' (account.permuted σ)
    (fun _ s => eligible (transport σ s)) external (account.permuted σ).ranked {}
  have hambiguous := ambiguous_skipped connected account (fun _ => eligible) external account.ranked {}
  have hentries := (ambiguous_perm σ external hperm).map
    fun e => Skipped.mk e.1 .ambiguousGroups
  change (walk _ _ _ _).skipped.filter _ = _ at hambiguous' hambiguous
  generalize (walk connected' _ _ external).skipped = skipped' at hothers hambiguous' ⊢
  generalize (walk connected _ _ external).skipped = skipped at hothers hambiguous ⊢
  have hsplit' := (List.filter_append_perm Skipped.isAmbiguous skipped').map (transportSkipped σ)
  rw [List.map_append, hothers, hambiguous'] at hsplit'
  have hsplit := List.filter_append_perm Skipped.isAmbiguous skipped
  rw [hambiguous] at hsplit
  refine hsplit'.symm.trans (List.Perm.trans ?_ hsplit)
  apply List.Perm.append_right
  simpa [List.map_map, Function.comp_def, transportSkipped] using hentries

/-! ## The outcome -/

theorem isMalformedSplit_permuted : isMalformedSplit (account.permuted σ) = isMalformedSplit account := rfl

theorem SameWalk.outcome (hw : SameWalk σ w' w)
    (hskipped : (w'.skipped.map (transportSkipped σ)).Perm w.skipped) :
    SameOutcome σ (w'.outcome (account.permuted σ)) (w.outcome account) := by
  have hprimary : (account.permuted σ).primaryKey = account.primaryKey := rfl
  unfold Walk.outcome
  rw [hprimary]
  cases hchosen' : w'.chosen with
  | some choice =>
    have hchosen := hw.chosen
    rw [hchosen'] at hchosen
    rw [← hchosen]
    exact ⟨rfl, rfl, hskipped⟩
  | none =>
    have hchosen := hw.chosen
    rw [hchosen'] at hchosen
    rw [← hchosen]
    cases account.primaryKey with
    | none => exact hskipped
    | some key =>
      refine ⟨?_, hskipped⟩
      have hreasons := hw.skipped
      cases hs' : w'.skipped with
      | nil =>
        rw [hs', List.forall₂_nil_left_iff] at hreasons
        rw [hreasons]
        rfl
      | cons s' rest' =>
        rw [hs', List.forall₂_cons_left_iff] at hreasons
        obtain ⟨s, rest, hhead, -, hs⟩ := hreasons
        rw [hs]
        exact congrArg RefusalCause.skipped hhead.1

end Walks

/-- **Order independence**: listing the groups and the connected candidates in another order leaves the
outcome the same up to the new positions of the groups. -/
theorem selectBound_order_independent (connected connected' : List (BoundCandidatePair K))
    (hperm : connected'.Perm connected) (account : AccountCameras)
    (σ : Equiv.Perm (Fin account.groups.length)) (eligible : CandidateScope → Bool)
    (external : ExternalCameraPolicy) :
    SameOutcome σ
      (selectBoundForAccountWith connected' (account.permuted σ)
        (fun _ scope => eligible (transport σ scope)) external).1
      (selectBoundForAccountWith connected account (fun _ => eligible) external).1 := by
  unfold selectBoundForAccountWith
  rw [isMalformedSplit_permuted]
  split
  · exact ⟨rfl, .nil⟩
  · exact (walk_same σ external eligible hperm).outcome σ (skipped_perm σ hperm)

def swapGroups : Equiv.Perm (Fin threeCameras.groups.length) := Equiv.swap ⟨0, by decide⟩ ⟨1, by decide⟩

/-- Two groups stored the other way round. -/
theorem selectBound_order_independent_swapped :
    SameOutcome swapGroups
      (selectBoundForAccountWith [candidate 3 'a', candidate 1 'b', candidate 2 'p']
        (threeCameras.permuted swapGroups)
        (fun _ scope => decide (transport swapGroups scope ≠ .primary)) ⟨false, false⟩).1
      (selectBoundForAccountWith [candidate 1 'b', candidate 2 'p', candidate 3 'a'] threeCameras
        (fun _ scope => decide (scope ≠ .primary)) ⟨false, false⟩).1 :=
  selectBound_order_independent [candidate 1 'b', candidate 2 'p', candidate 3 'a']
    [candidate 3 'a', candidate 1 'b', candidate 2 'p']
    (@List.perm_append_comm _ [candidate 3 'a'] [candidate 1 'b', candidate 2 'p'])
    threeCameras swapGroups (fun scope => decide (scope ≠ .primary)) ⟨false, false⟩

end Irlume.Cameras

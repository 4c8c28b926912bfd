import Irlume.Lifecycle.Account

/-!
# A committed census accounts for every hint

The theorem reads the invariant `Accounted` at a commit, which takes away every doubt: whoever was in doubt has
got another generation or identity by then.
-/

namespace Irlume.Lifecycle

open Irlume.Lib Irlume.Inventory Irlume.Inventory.CameraInventory

/-- A reference was issued at a moment up to `log`. -/
def IssuedBy (start : CameraInventory) (log : List Happening) (r : CameraInventoryRef) : Prop :=
  ∃ earlier, earlier <+: log ∧ (stateAt start earlier).HandedOut r

theorem IssuedBy.lost {start : CameraInventory}
    (hids : Identities start.active start.retiredInstanceIds) {log : List Happening}
    {r : CameraInventoryRef} (h : IssuedBy start log r)
    (hfail : (stateAt start log).validateReference r ≠ .ok ()) (later : List Op) :
    ((stateAt start log).after later).validateReference r ≠ .ok () := by
  obtain ⟨earlier, hstart, hout⟩ := h
  have h₁ := continues_at hids hstart
  have h₂ := continues_after h₁.identities later
  intro hback
  exact hfail (h₁.valid_between h₂ (hout.valid (identities_at hids earlier)) hback)

/-- A hint that was handled leaves no reference issued before it valid at a commit. -/
theorem Handled.reference_lost {inv₁ inv₂ inv₃ : CameraInventory} {hint : DeviceEventHint} {k : Text}
    {e : InventoryEntry} {r : CameraInventoryRef} (h : Handled inv₃ hint k e)
    (hids₁ : Identities inv₁.active inv₁.retiredInstanceIds) (h₁₂ : Continues inv₁ inv₂)
    (h₂₃ : Continues inv₂ inv₃) (hclear : inv₃.invalidatedInstanceIds = ∅)
    (he : inv₂.active[k]? = some e) (hout : inv₁.HandedOut r)
    (hid : r.descriptor.cameraInstanceId = e.instanceId) : inv₃.validateReference r ≠ .ok () := by
  intro hvalid
  obtain ⟨g, hg, hgr, -⟩ := validateReference_ok_iff.1 hvalid
  obtain ⟨f, hf, hfr, -⟩ := validateReference_ok_iff.1 (hout.valid hids₁)
  have hdesc : g.descriptor = f.descriptor :=
    congrArg CameraInventoryRef.descriptor (hgr.trans hfr.symm)
  have hgid : g.instanceId = e.instanceId := by
    rw [← hid, ← hgr]
    rfl
  have hfid : f.instanceId = e.instanceId := by
    rw [← hid, ← hfr]
    rfl
  have hgen : g.generation = f.generation := congrArg CameraDescriptor.generation hdesc
  -- generations do not fall between the issue of the reference and the hint
  have hle : f.generation.get ≤ e.generation.get := by
    cases h₁₂.later.fate hf with
    | retired hr => exact absurd (hfid ▸ hr) (h₁₂.identities.live he)
    | kept hf₂ _ =>
      obtain rfl := h₁₂.identities.distinct hf₂ he hfid
      exact le_of_eq (congrArg _ (congrArg InventoryEntry.generation (Option.some.inj (hf₂.symm.trans he))))
    | renumbered f' hf' hid' hlt =>
      obtain rfl := h₁₂.identities.distinct hf' he (hid'.trans hfid)
      cases hf'.symm.trans he
      exact hlt.le
  cases h.doubtful with
  | retired hr => exact h₂₃.identities.live hg (hgid ▸ hr)
  | doubted _ hdoubt =>
    rw [invalidated_iff, hclear] at hdoubt
    exact absurd hdoubt (Finset.notMem_empty _)
  | renumbered f' hf' hid' hlt =>
    obtain rfl := h₂₃.identities.distinct hg hf' (hgid.trans hid'.symm)
    cases hg.symm.trans hf'
    rw [hgen] at hlt
    omega

/-- What a commit says about the hints delivered before it. -/
structure HintsAccounted (start : CameraInventory) (log : List Happening) (inv : CameraInventory) :
    Prop where
  /-- No reference issued before a hint about its camera is valid again. -/
  lost : ∀ before hints rest, log = before ++ .polled hints :: rest → ∀ hint ∈ hints,
    ∀ k ∈ hint.affectedTopologies.toList, ∀ e : InventoryEntry,
      (stateAt start before).active[k]? = some e → ∀ r, IssuedBy start before r →
        r.descriptor.cameraInstanceId = e.instanceId →
          ∀ later : List Op, (inv.after later).validateReference r ≠ .ok ()
  /-- A camera whose continuity was lost is absent or a new instance. -/
  replaced : ∀ before hints rest, log = before ++ .polled hints :: rest → ∀ hint ∈ hints,
    hint.kind = .continuityLost → ∀ k ∈ hint.affectedTopologies.toList, ∀ e f : InventoryEntry,
      (stateAt start before).active[k]? = some e → inv.active[k]? = some f →
        f.instanceId ≠ e.instanceId

structure LastSnapshot (log : List Happening) (observations : List CameraObservation)
    (inv : CameraInventory) : Prop where
  last : ∃ before since, log = before ++ .snapped observations :: since ∧
    (∀ hints, .polled hints ∈ since → hints = []) ∧ ∀ others, .snapped others ∉ since
  observed : ∀ (k : Text) (o : CameraObservation),
    inv.active[k]?.map InventoryEntry.observation = some o ↔ o ∈ observations ∧ o.topologyPath = k

section Commit

variable {start : CameraInventory} (hids : Identities start.active start.retiredInstanceIds)
  {log : List Happening} {observations : List CameraObservation}

theorem Fresh.last (h : Fresh log observations) :
    ∃ before since, log = before ++ .snapped observations :: since ∧
      (∀ hints, .polled hints ∈ since → hints = []) ∧ ∀ others, .snapped others ∉ since := by
  obtain ⟨before, since, rfl, hcalm⟩ := h
  refine ⟨before, since, rfl, fun hints hmem => ?_, fun others hmem => ?_⟩
  · cases hcalm _ hmem
    rfl
  · cases hcalm _ hmem

include hids in
theorem CommitSound.accounts (h : CommitSound start log observations) (now : Nat) :
    let inv := stateAt start (log ++ [.did (.reconcileGuarded observations true now)])
    HintsAccounted start log inv ∧ LastSnapshot log observations inv := by
  intro inv
  obtain ⟨incoming, m, hc⟩ := h.accepted
  have hinv : inv = (stateAt start log).committed m now := by
    have hstep : inv = ((stateAt start log).reconcile observations true now).2 := stateAt_did log _
    rw [hstep, hc.reconcile]
    rfl
  obtain ⟨noted, hspec⟩ := hc.spec (identities_at hids log)
  have hclear : inv.invalidatedInstanceIds = ∅ := hinv ▸ (committed_committed _ m now).clear
  have hstart : log <+: log ++ [.did (.reconcileGuarded observations true now)] :=
    List.prefix_append _ _
  have hhandled : ∀ before hints rest, log = before ++ .polled hints :: rest → ∀ hint ∈ hints,
      ∀ k ∈ hint.affectedTopologies.toList, ∀ e : InventoryEntry,
        (stateAt start before).active[k]? = some e → Handled inv hint k e := by
    intro before hints rest hlog hint hhint k hk e he
    rcases h.settled before hints rest hlog hint hhint with howed | hhandled
    · cases howed
    · exact (hhandled k hk e he).later (continues_at hids hstart).later
  refine ⟨⟨?_, ?_⟩, h.fresh.last, fun k o => ?_⟩
  · rintro before hints rest hlog hint hhint k hk e he r ⟨earlier, hearlier, hout⟩ hid later
    have hbefore : before <+: log ++ [.did (.reconcileGuarded observations true now)] := by
      rw [hlog, List.append_assoc]
      exact List.prefix_append _ _
    have hissued : IssuedBy start (log ++ [.did (.reconcileGuarded observations true now)]) r :=
      ⟨earlier, hearlier.trans hbefore, hout⟩
    refine hissued.lost hids ?_ later
    exact (hhandled before hints rest hlog hint hhint k hk e he).reference_lost (identities_at hids earlier)
      (continues_at hids hearlier) (continues_at hids hbefore) hclear he hout hid
  · intro before hints rest hlog hint hhint hkind k hk e f he hf heq
    have hretired := (hhandled before hints rest hlog hint hhint k hk e he).lost hkind
    exact (identities_at hids _).live hf (heq ▸ hretired)
  · rw [hinv, committed_active, hspec.observed k]
    exact incomingByTopology_spec hc.byTopology

end Commit

/-- **A committed census leaves no reported event unaccounted for**, in every run of the coordinator. -/
theorem committed_census_accounts {ω : Type} (source generate : Nat → CameraInstanceId)
    (s : Sources ω) (env : ω) (cs : List (Call ω)) (c : Call ω) :
    let start := CameraInventory.new source generate
    let w := calls s cs (World.new source generate env)
    let r := call s c w
    r.2.inventory = stateAt start r.2.log ∧
    ((∃ events, r.1 = .ok events) → r.2.log = w.log ∨ r.2.log = w.log ++ [.polled []] ∨
      ∃ before observations, ∃ now,
        r.2.log = before ++ [.did (.reconcileGuarded observations true now)]) ∧
    ∀ before observations now,
      before ++ [.did (.reconcileGuarded observations true now)] <+: r.2.log →
        let inv := stateAt start (before ++ [.did (.reconcileGuarded observations true now)])
        HintsAccounted start before inv ∧ LastSnapshot before observations inv := by
  intro start w r
  have hids := identities_new source generate
  have hended : Ended start w.log r :=
    ((accounted_new source generate env).calls hids cs).call hids c
  refine ⟨hended.traced, fun hok => ?_, fun before observations now hstart => ?_⟩
  · obtain ⟨events, hevents⟩ := hok
    have hnot : ¬∃ e, r.1 = .error e := by
      rintro ⟨e, he⟩
      cases hevents.symm.trans he
    cases hended.ending with
    | idle _ hlog _ =>
      rcases hlog with hlog | hlog
      · exact .inl hlog
      · exact .inr (.inl hlog)
    | committed before observations now _ hlog _ => exact .inr (.inr ⟨before, observations, now, hlog⟩)
    | poisoned herror _ _ => exact absurd herror hnot
    | closed herror _ _ => exact absurd herror hnot
    | refused _ _ _ herror _ _ _ _ _ => exact absurd herror hnot
  · exact (hended.commits before observations ⟨now, hstart⟩).accounts hids now

end Irlume.Lifecycle

/-!
## How the lifecycle fails

Every way out of a call but one goes through `failClosed` or leaves a poisoned lock behind. The exception is a
refusal of the inventory itself at the guarded commit: what was not in doubt then stays valid.
-/

namespace Irlume.Lifecycle

open Irlume.Lib Irlume.Inventory Irlume.Inventory.CameraInventory

def AllInDoubt (inv : CameraInventory) : Prop :=
  ∀ (k : Text) (e : InventoryEntry), inv.active[k]? = some e → inv.invalidated e = true

/-- No reference that was issued before the return of the call validates at it or ever after. -/
def NothingSurvives {ω : Type} (start : CameraInventory) (r : Outcome ω) : Prop :=
  ∀ ref, IssuedBy start r.2.log ref → ∀ later : List Op, r.2.poisoned = false →
    (r.2.inventory.after later).validateReference ref ≠ .ok ()

def RefusesInDoubt (start : CameraInventory) (begun log : List Happening) : Prop :=
  ∀ before observations now, begun <+: before →
    before ++ [.did (.reconcileGuarded observations false now)] <+: log →
      Refuses (stateAt start before) observations → AllInDoubt (stateAt start before)

variable {inv : CameraInventory}

theorem step_of_refuses {observations : List CameraObservation}
    (h : Refuses inv observations) (quiet : Bool) (now : Nat) :
    ∃ drawn, inv.step (.reconcileGuarded observations quiet now) = { inv with drawn := drawn } := by
  rcases inv.reconcile_cases observations quiet now with ⟨e, drawn, heq⟩ | ⟨incoming, m, hc, -⟩
  · exact ⟨drawn, congrArg Prod.snd heq⟩
  · exact absurd hc (h incoming m)

theorem AllInDoubt.invalid (h : AllInDoubt inv) (r : CameraInventoryRef) :
    inv.validateReference r ≠ .ok () := by
  intro hvalid
  obtain ⟨e, he, -, hclear⟩ := validateReference_ok_iff.1 hvalid
  rw [h _ e he] at hclear
  cases hclear

section Calls

variable {start : CameraInventory} (hids : Identities start.active start.retiredInstanceIds)
  {ω : Type} {begun : List Happening} {r : Outcome ω}

include hids

theorem Ended.nothingSurvives (h : Ended start begun r) (hdoubt : AllInDoubt r.2.inventory) :
    NothingSurvives start r := by
  intro ref hissued later _
  rw [h.traced] at hdoubt ⊢
  exact hissued.lost hids (hdoubt.invalid ref) later

theorem Ended.closes_iff (h : Ended start begun r) :
    ((∃ e, r.1 = .error e) → NothingSurvives start r) ↔ RefusesInDoubt start begun r.2.log := by
  -- where nothing was refused, there is nothing to show
  have hunrefused : Unrefused start begun r.2.log → RefusesInDoubt start begun r.2.log :=
    fun hnone before observations now hbegun hstart hrefuses =>
      absurd hrefuses (hnone before observations now hbegun hstart)
  have hok : (∃ events, r.1 = .ok events) → (∃ e, r.1 = .error e) → NothingSurvives start r := by
    rintro ⟨events, hevents⟩ ⟨e, he⟩
    cases hevents.symm.trans he
  cases h.ending with
  | idle hevents _ hnone => exact iff_of_true (hok hevents) (hunrefused hnone)
  | committed _ _ _ hevents _ hnone => exact iff_of_true (hok hevents) (hunrefused hnone)
  | poisoned _ hp hnone =>
    refine iff_of_true (fun _ ref _ later hclear => ?_) (hunrefused hnone)
    rw [hp] at hclear
    cases hclear
  | closed _ hgone hnone =>
    refine iff_of_true (fun _ => h.nothingSurvives hids fun k e he => ?_) (hunrefused hnone)
    rw [hgone k] at he
    cases he
  | refused before observations now herror hp hlog hbegun hrefuses hnone =>
    obtain ⟨drawn, hstep⟩ := step_of_refuses hrefuses false now
    have hinv : r.2.inventory = { stateAt start before with drawn := drawn } := by
      rw [h.traced, hlog, stateAt_did, hstep]
    constructor
    · intro hcloses before' observations' now' hbegun' hstart hrefuses'
      rw [hlog] at hstart
      rcases List.prefix_concat_iff.1 hstart with heq | hstart
      · obtain ⟨rfl, -⟩ := List.append_inj' heq rfl
        -- a camera that was not in doubt has a reference that still validates
        intro k e he
        by_contra hclear
        rw [Bool.not_eq_true] at hclear
        have hout : (stateAt start before').HandedOut e.reference :=
          .inl (List.mem_map.2 ⟨e, List.mem_filter.2 ⟨mem_values.2 ⟨k, he⟩, by simp [hclear]⟩, rfl⟩)
        have hissued : IssuedBy start r.2.log e.reference :=
          ⟨before', hlog ▸ List.prefix_append _ _, hout⟩
        refine hcloses herror e.reference hissued [] hp ?_
        have hvalid := hout.valid (identities_at hids before')
        rw [after_nil, hinv]
        exact hvalid
      · exact absurd hrefuses' (hnone before' observations' now' hbegun' hstart)
    · intro hcond _
      refine h.nothingSurvives hids ?_
      rw [hinv]
      exact hcond before observations now hbegun (hlog ▸ List.prefix_refl _) hrefuses

end Calls

/-- **A call of the coordinator that fails leaves no reference valid exactly when** the inventory has
not refused a census of the call while some camera was not in doubt; in every run. -/
theorem fails_closed_iff {ω : Type} (source generate : Nat → CameraInstanceId) (s : Sources ω)
    (env : ω) (cs : List (Call ω)) (c : Call ω) :
    let start := CameraInventory.new source generate
    let w := calls s cs (World.new source generate env)
    let r := call s c w
    ((∃ e, r.1 = .error e) → NothingSurvives start r) ↔ RefusesInDoubt start w.log r.2.log := by
  intro start w r
  have hids := identities_new source generate
  exact (((accounted_new source generate env).calls hids cs).call hids c).closes_iff hids

/-! ## A census that is refused -/

/-- What the two sources still have to say; a monitor with nothing left to say is quiet. -/
structure Script where
  polls : List (Except LifecycleError (List DeviceEventHint))
  snapshots : List (Except LifecycleError (List CameraObservation))

def scripted : Sources Script where
  snapshot := fun env => (env.snapshots.headD (.ok []), { env with snapshots := env.snapshots.tail })
  poll := fun _ env => (env.polls.headD (.ok []), { env with polls := env.polls.tail })
  addTrackedTopologies := fun _ env => env
  commitTrackedTopologies := fun _ env => env
  now := fun _ => 0
  meanwhile := fun env => ([], env)

/-- Two cameras are found; then an event about one of them comes, and the snapshot taken after it names
that one twice. -/
def doubledCensus : Script where
  polls := [.ok [], .ok [], .ok [.fromUdev .dirtyUvc "/devices/a"
    (Std.ExtTreeSet.ofList ["/devices/a".toList, "/devices/b".toList])]]
  snapshots := [.ok [sampleCamera "/devices/a" "/dev/video0", sampleCamera "/devices/b" "/dev/video2"],
    .ok [sampleCamera "/devices/a" "/dev/video0", sampleCamera "/devices/a" "/dev/video0"]]

/-- The call fails, and the reference to the other camera is valid as before. -/
theorem refused_census_leaves_references :
    let start := CameraInventory.new sampleIds sampleIds
    let w := calls scripted [.initializeInventory] (World.new sampleIds sampleIds doubledCensus)
    let r := call scripted (.processNext 0) w
    (∃ e, r.1 = .error e) ∧ ¬NothingSurvives start r := by
  intro start w r
  have herror : r.1.toOption = none := by decide
  refine ⟨?_, fun hnone => ?_⟩
  · rcases hr : r.1 with e | events
    · exact ⟨e, rfl⟩
    · rw [hr] at herror
      cases herror
  · have hissued : IssuedBy start r.2.log
        ((sampleCamera "/devices/b" "/dev/video2").entry (sampleIds 1) .initial).reference := by
      refine ⟨w.log, ?_, .inl ?_⟩
      · exact (((accounted_new sampleIds sampleIds doubledCensus).calls
          (identities_new _ _) [.initializeInventory]).call (identities_new _ _) (.processNext 0)).since
      · decide
    exact hnone _ hissued [] (by decide +kernel) (by decide +kernel)

end Irlume.Lifecycle

import Irlume.Lifecycle.Coordinator

/-!
# Every delivered hint is accounted for

What a hint was about is said at the moment it was delivered.
-/

namespace Irlume.Lifecycle

open Irlume.Lib Irlume.Inventory Irlume.Inventory.CameraInventory

/-! ## Moments -/

def opsOf (log : List Happening) : List Op :=
  log.filterMap fun | .did op => some op | _ => none

/-- The log of a world tells its inventory at every moment. -/
def stateAt (start : CameraInventory) (log : List Happening) : CameraInventory :=
  start.after (opsOf log)

section Moments

variable {start : CameraInventory}

theorem stateAt_append (log log' : List Happening) :
    stateAt start (log ++ log') = (stateAt start log).after (opsOf log') := by
  rw [stateAt, opsOf, List.filterMap_append, after_append]
  rfl

@[simp] theorem stateAt_did (log : List Happening) (op : Op) :
    stateAt start (log ++ [.did op]) = (stateAt start log).step op := stateAt_append log _

@[simp] theorem stateAt_polled (log : List Happening) (hints : List DeviceEventHint) :
    stateAt start (log ++ [.polled hints]) = stateAt start log := stateAt_append log _

@[simp] theorem stateAt_snapped (log : List Happening) (observations : List CameraObservation) :
    stateAt start (log ++ [.snapped observations]) = stateAt start log := stateAt_append log _

theorem identities_at (hids : Identities start.active start.retiredInstanceIds)
    (log : List Happening) :
    Identities (stateAt start log).active (stateAt start log).retiredInstanceIds :=
  (continues_after hids _).identities

theorem continues_at (hids : Identities start.active start.retiredInstanceIds)
    {log log' : List Happening} (h : log <+: log') :
    Continues (stateAt start log) (stateAt start log') := by
  obtain ⟨rest, rfl⟩ := h
  rw [stateAt_append]
  exact continues_after (identities_at hids log) _

end Moments

theorem concat_eq_append_cons {α : Type} {xs ys zs : List α} {x y : α}
    (h : xs ++ [x] = ys ++ y :: zs) :
    (zs = [] ∧ xs = ys ∧ x = y) ∨ ∃ zs', zs = zs' ++ [x] ∧ xs = ys ++ y :: zs' := by
  rcases List.eq_nil_or_concat zs with rfl | ⟨zs', z, rfl⟩
  · obtain ⟨hxs, hx⟩ := List.append_inj' h rfl
    exact .inl ⟨rfl, hxs, List.singleton_injective hx⟩
  · rw [List.concat_eq_append, ← List.cons_append, ← List.append_assoc] at h
    obtain ⟨hxs, hx⟩ := List.append_inj' h rfl
    obtain rfl := List.singleton_injective hx
    exact .inr ⟨zs', List.concat_eq_append, hxs⟩

/-! ## What a rescan leaves of a camera -/

/-- The camera that was known as `e` is gone, in doubt or renumbered. -/
inductive Doubtful (inv : CameraInventory) (k : Text) (e : InventoryEntry) : Prop where
  | retired : e.instanceId ∈ inv.retiredInstanceIds → Doubtful inv k e
  | doubted : inv.active[k]? = some e → inv.invalidated e = true → Doubtful inv k e
  | renumbered (f : InventoryEntry) : inv.active[k]? = some f → f.instanceId = e.instanceId →
      e.generation.get < f.generation.get → Doubtful inv k e

/-- What the rescan after a hint leaves of a camera, and stays. -/
structure Handled (inv : CameraInventory) (hint : DeviceEventHint) (k : Text) (e : InventoryEntry) :
    Prop where
  doubtful : Doubtful inv k e
  lost : hint.kind = .continuityLost → e.instanceId ∈ inv.retiredInstanceIds

variable {e : InventoryEntry}

theorem Doubtful.later {inv inv' : CameraInventory} {k : Text}
    (h : Doubtful inv k e) (hlater : Later inv inv') : Doubtful inv' k e := by
  cases h with
  | retired hr => exact .retired (hlater.retired hr)
  | doubted he hdoubt =>
    cases hlater.fate he with
    | retired hr => exact .retired hr
    | kept he' hkeep => exact .doubted he' (hkeep hdoubt)
    | renumbered f hf hid hgen => exact .renumbered f hf hid hgen
  | renumbered f hf hid hgen =>
    cases hlater.fate hf with
    | retired hr => exact .retired (hid ▸ hr)
    | kept hf' _ => exact .renumbered f hf' hid hgen
    | renumbered g hg hid' hgen' => exact .renumbered g hg (hid'.trans hid) (hgen.trans hgen')

theorem Handled.later {inv inv' : CameraInventory} {hint : DeviceEventHint} {k : Text}
    (h : Handled inv hint k e) (hlater : Later inv inv') :
    Handled inv' hint k e :=
  ⟨h.doubtful.later hlater, fun hkind => hlater.retired (h.lost hkind)⟩

theorem doubtful_of_invalidated {inv₀ inv : CameraInventory} {k : Text}
    (he : inv₀.active[k]? = some e) (hlater : Later inv₀ inv) {ts : TextSet} (hk : k ∈ ts.toList) :
    Doubtful (inv.step (.invalidateTopologies ts)) k e := by
  have hactive : (inv.step (.invalidateTopologies ts)).active = inv.active := by
    simp [step, CameraInventory.invalidateTopologies]
  have hretired : (inv.step (.invalidateTopologies ts)).retiredInstanceIds = inv.retiredInstanceIds := by
    simp [step, CameraInventory.invalidateTopologies]
  cases hlater.fate he with
  | retired hr => exact .retired (hretired ▸ hr)
  | kept he' _ =>
    refine .doubted (by rw [hactive, he']) ?_
    exact invalidateTopologies_invalidated.2 (.inr ⟨k, hk, e, he', rfl⟩)
  | renumbered f hf hid hgen => exact .renumbered f (by rw [hactive, hf]) hid hgen

theorem retired_of_retired {inv₀ inv : CameraInventory} {k : Text}
    (he : inv₀.active[k]? = some e) (hlater : Later inv₀ inv) {ts : TextSet} (hk : k ∈ ts.toList) :
    e.instanceId ∈ (inv.step (.retireTopologies ts)).retiredInstanceIds := by
  obtain ⟨inv', hspec, heq⟩ := inv.retired_spec ts
  have hactive : (inv.refreshedFor ts).active = inv.active := by
    rw [refreshedFor]
    split <;> simp
  have hretired : (inv.refreshedFor ts).retiredInstanceIds = inv.retiredInstanceIds := by
    rw [refreshedFor]
    split <;> simp
  rw [step, heq, pruneRoles_retired, hspec.retired, hretired, hactive]
  cases hlater.fate he with
  | retired hr => exact .inl hr
  | kept he' _ => exact .inr ⟨k, hk, e, he', rfl⟩
  | renumbered f hf hid _ => exact .inr ⟨k, hk, f, hf, hid⟩

/-! ## The invariant -/

section Invariant

variable (start : CameraInventory)

def Settled (log : List Happening) (owed : List DeviceEventHint) : Prop :=
  ∀ before hints rest, log = before ++ .polled hints :: rest → ∀ hint ∈ hints, hint ∈ owed ∨
    ∀ k ∈ hint.affectedTopologies.toList, ∀ e : InventoryEntry,
      (stateAt start before).active[k]? = some e → Handled (stateAt start log) hint k e

/-- What neither delivers a hint nor touches a reference. -/
inductive Calm : Happening → Prop where
  | polled : Calm (.polled [])
  | recorded (before : TextMap EndpointGeneration) (classified : List (Text × Role)) :
      Calm (.did (.recordRoles before classified))

/-- The observations are those of the last snapshot, and all has been calm since. -/
def Fresh (log : List Happening) (observations : List CameraObservation) : Prop :=
  ∃ before since, log = before ++ .snapped observations :: since ∧ ∀ h ∈ since, Calm h

structure CommitSound (log : List Happening) (observations : List CameraObservation) : Prop where
  accepted : ∃ incoming m, Census (stateAt start log) observations incoming m
  settled : Settled start log []
  fresh : Fresh log observations

def Commits (log before : List Happening) (observations : List CameraObservation) : Prop :=
  ∃ now, before ++ [.did (.reconcileGuarded observations true now)] <+: log

def Refuses (inv : CameraInventory) (observations : List CameraObservation) : Prop :=
  ∀ incoming m, ¬Census inv observations incoming m

/-- No reconciliation since the moment `from` was refused. -/
def Unrefused (begun log : List Happening) : Prop :=
  ∀ before observations now, begun <+: before →
    before ++ [.did (.reconcileGuarded observations false now)] <+: log →
      ¬Refuses (stateAt start before) observations

/-- The invariant of a call that began at a moment; the hints `owed` wait for their rescan. -/
structure Accounted {ω : Type} (begun : List Happening) (w : World ω) (owed : List DeviceEventHint) :
    Prop where
  traced : w.inventory = stateAt start w.log
  settled : w.poisoned = false → Settled start w.log owed
  commits : ∀ before observations, Commits w.log before observations →
    CommitSound start before observations
  since : begun <+: w.log
  unrefused : Unrefused start begun w.log

end Invariant

section Steps

variable {start : CameraInventory} (hids : Identities start.active start.retiredInstanceIds)
  {log : List Happening} {owed : List DeviceEventHint}

include hids

theorem Settled.did (h : Settled start log owed) (op : Op) : Settled start (log ++ [.did op]) owed := by
  intro before hints rest heq hint hhint
  rcases concat_eq_append_cons heq with ⟨-, -, hlast⟩ | ⟨rest', -, hlog⟩
  · cases hlast
  · rcases h before hints rest' hlog hint hhint with howed | hhandled
    · exact .inl howed
    · refine .inr fun k hk e he => ?_
      rw [stateAt_did]
      exact (hhandled k hk e he).later (continues_step (identities_at hids log) op).later

omit hids in
theorem Settled.snapped (h : Settled start log owed) (observations : List CameraObservation) :
    Settled start (log ++ [.snapped observations]) owed := by
  intro before hints rest heq hint hhint
  rcases concat_eq_append_cons heq with ⟨-, -, hlast⟩ | ⟨rest', -, hlog⟩
  · cases hlast
  · rw [stateAt_snapped]
    exact h before hints rest' hlog hint hhint

omit hids in
theorem Settled.polled (h : Settled start log []) (hints : List DeviceEventHint) :
    Settled start (log ++ [.polled hints]) hints := by
  intro before hints' rest heq hint hhint
  rcases concat_eq_append_cons heq with ⟨-, -, hlast⟩ | ⟨rest', -, hlog⟩
  · cases hlast
    exact .inl hhint
  · rw [stateAt_polled]
    rcases h before hints' rest' hlog hint hhint with howed | hhandled
    · cases howed
    · exact .inr hhandled

omit hids in
theorem mem_affected {hints : List DeviceEventHint} {hint : DeviceEventHint} (hhint : hint ∈ hints)
    {k : Text} (hk : k ∈ hint.affectedTopologies.toList) : k ∈ (affected hints).toList := by
  have hmem : k ∈ hints.flatMap fun hint => hint.affectedTopologies.toList :=
    List.mem_flatMap.2 ⟨hint, hhint, hk⟩
  simpa [affected, Std.ExtTreeSet.mem_toList] using hmem

omit hids in
theorem polled_before {dids : List Happening} (hdids : ∀ h ∈ dids, ∃ op, h = .did op)
    {before rest : List Happening} {hints : List DeviceEventHint}
    (heq : log ++ dids = before ++ .polled hints :: rest) :
    ∃ rest', log = before ++ .polled hints :: rest' := by
  induction dids using List.reverseRecOn generalizing rest with
  | nil => exact ⟨rest, by simpa using heq⟩
  | append_singleton dids h ih =>
    rw [← List.append_assoc] at heq
    rcases concat_eq_append_cons heq with ⟨-, -, hlast⟩ | ⟨rest', -, hlog⟩
    · obtain ⟨op, hop⟩ := hdids h (by simp)
      cases hop.symm.trans hlast
    · exact ih (fun h' hh' => hdids h' (List.mem_append_left _ hh')) hlog

theorem Settled.rescanned {hints : List DeviceEventHint} (h : Settled start log hints)
    {others : List Happening} (hothers : ∀ h ∈ others, ∃ op, h = .did op) :
    Settled start (log ++ [.did (.invalidateTopologies (affected hints))] ++ others ++
      [.did (.retireTopologies (affected (hints.filter DeviceEventHint.requiresRetirement)))]) [] := by
  intro before hints' rest heq hint hhint
  refine .inr fun k hk e he => ?_
  have hdids : ∀ h ∈ [.did (.invalidateTopologies (affected hints))] ++ others ++
      [.did (.retireTopologies (affected (hints.filter DeviceEventHint.requiresRetirement)))],
        ∃ op, h = Happening.did op := by
    simp only [List.mem_append, List.mem_singleton]
    rintro h ((rfl | hmem) | rfl)
    · exact ⟨_, rfl⟩
    · exact hothers h hmem
    · exact ⟨_, rfl⟩
  obtain ⟨rest', hlog⟩ := @polled_before log _ hdids _ _ _ (by simpa [List.append_assoc] using heq)
  rcases h before hints' rest' hlog hint hhint with howed | hhandled
  · -- the owed hint is handled by the two operations, whatever happens between them
    have hbefore : before <+: log := hlog ▸ List.prefix_append _ _
    have hfirst := doubtful_of_invalidated he (continues_at hids hbefore).later
      (mem_affected howed hk)
    rw [← stateAt_did] at hfirst
    refine ⟨hfirst.later (continues_at hids ?_).later, fun hkind => ?_⟩
    · rw [List.append_assoc _ others]
      exact List.prefix_append _ _
    · have hmem : hint ∈ hints.filter DeviceEventHint.requiresRetirement :=
        List.mem_filter.2 ⟨howed, decide_eq_true hkind⟩
      rw [stateAt_did]
      refine retired_of_retired he (continues_at hids ?_).later (mem_affected hmem hk)
      rw [List.append_assoc]
      exact hbefore.trans (List.prefix_append _ _)
  · refine (hhandled k hk e he).later (continues_at hids ?_).later
    simp only [List.append_assoc]
    exact List.prefix_append _ _

end Steps

/-! ## What each part of a call keeps -/

theorem commits_concat {log before : List Happening} {observations : List CameraObservation}
    {h : Happening} (hc : Commits (log ++ [h]) before observations) :
    Commits log before observations ∨
      before = log ∧ ∃ now, h = .did (.reconcileGuarded observations true now) := by
  obtain ⟨now, hstart⟩ := hc
  rcases List.prefix_concat_iff.1 hstart with heq | hstart
  · obtain ⟨rfl, hlast⟩ := List.append_inj' heq rfl
    exact .inr ⟨rfl, now, (List.singleton_injective hlast).symm⟩
  · exact .inl ⟨now, hstart⟩

section Parts

variable {start : CameraInventory} (hids : Identities start.active start.retiredInstanceIds)
  {ω : Type} {s : Sources ω} {begun : List Happening} {w : World ω} {owed : List DeviceEventHint}

section

variable (h : Accounted start begun w owed)

include h

theorem Accounted.env (env : ω) :
    Accounted start begun { w with env := env } owed :=
  ⟨h.traced, h.settled, h.commits, h.since, h.unrefused⟩

theorem Accounted.poison (hp : w.poisoned = true)
    (owed' : List DeviceEventHint) : Accounted start begun w owed' := by
  refine ⟨h.traced, fun hclear => ?_, h.commits, h.since, h.unrefused⟩
  rw [hp] at hclear
  cases hclear

theorem Accounted.note {happening : Happening}
    (hquiet : ∀ observations quiet now, happening ≠ .did (.reconcileGuarded observations quiet now))
    {inventory : CameraInventory} (hinv : inventory = stateAt start (w.log ++ [happening]))
    {owed' : List DeviceEventHint}
    (hsettled : w.poisoned = false → Settled start (w.log ++ [happening]) owed') :
    Accounted start begun ({ w with inventory := inventory }.note happening) owed' := by
  refine ⟨hinv, hsettled, fun before observations hc => ?_, h.since.trans (List.prefix_append _ _), ?_⟩
  · rcases commits_concat hc with hc | ⟨-, now, heq⟩
    · exact h.commits before observations hc
    · exact absurd heq (hquiet observations true now)
  · intro before observations now hbegun hstart
    rcases List.prefix_concat_iff.1 hstart with heq | hstart
    · obtain ⟨-, hlast⟩ := List.append_inj' heq rfl
      exact absurd (List.singleton_injective hlast).symm (hquiet observations false now)
    · exact h.unrefused before observations now hbegun hstart

end

include hids in
theorem Accounted.perform (h : Accounted start begun w owed) (op : Op)
    (hop : ∀ observations quiet now, op ≠ .reconcileGuarded observations quiet now) :
    Accounted start begun (w.perform op) owed := by
  refine h.note (fun observations quiet now heq => ?_) ?_ fun hp => (h.settled hp).did hids op
  · cases heq
    exact hop observations quiet now rfl
  · rw [stateAt_did, ← h.traced]

def Recorded (others : List Happening) : Prop :=
  ∀ h ∈ others, ∃ before classified, h = .did (.recordRoles before classified)

theorem interfered_log (others : List Other) (w : World ω) :
    ∃ noted, (others.foldl World.interfere w).log = w.log ++ noted ∧ Recorded noted := by
  induction others generalizing w with
  | nil => exact ⟨[], by simp, by simp [Recorded]⟩
  | cons other others ih =>
    rw [List.foldl_cons]
    obtain ⟨noted, hlog, hrecorded⟩ := ih (w.interfere other)
    rw [hlog]
    cases other with
    | poison => exact ⟨noted, rfl, hrecorded⟩
    | recordRoles before classified =>
      rw [World.interfere]
      split
      · exact ⟨noted, rfl, hrecorded⟩
      · refine ⟨.did (.recordRoles before classified) :: noted, List.append_assoc _ _ _, ?_⟩
        rw [Recorded, List.forall_mem_cons]
        exact ⟨⟨before, classified, rfl⟩, hrecorded⟩

include hids in
theorem Accounted.interfered (h : Accounted start begun w owed) (others : List Other) :
    Accounted start begun (others.foldl World.interfere w) owed := by
  induction others generalizing w with
  | nil => exact h
  | cons other others ih =>
    rw [List.foldl_cons]
    apply ih
    cases other with
    | poison =>
      refine ⟨h.traced, fun hp => ?_, h.commits, h.since, h.unrefused⟩
      cases hp
    | recordRoles before classified =>
      rw [World.interfere]
      split
      · exact h
      · exact h.perform hids _ fun observations quiet now heq => by cases heq

structure Locked (start : CameraInventory) (begun : List Happening) (w : World ω)
    (owed : List DeviceEventHint) (result : Except CameraInventoryError Unit) (w' : World ω) : Prop where
  accounted : Accounted start begun w' owed
  log : ∃ noted, w'.log = w.log ++ noted ∧ Recorded noted
  free : result = .ok () → w'.poisoned = false
  taken : ∀ e, result = .error e → w'.poisoned = true

include hids in
theorem Accounted.lock (h : Accounted start begun w owed) :
    Locked start begun w owed (lock s w).1 (lock s w).2 := by
  refine ⟨(h.env _).interfered hids _, interfered_log _ { w with env := (s.meanwhile w.env).2 }, ?_, ?_⟩
  · rw [Lifecycle.lock]
    dsimp only
    split
    · intro heq
      cases heq
    · next hp => exact fun _ => Bool.not_eq_true _ ▸ hp
  · rw [Lifecycle.lock]
    dsimp only
    split
    · next hp => exact fun _ _ => hp
    · intro e heq
      cases heq

theorem locked_cases (op : Op) (w : World ω) :
    (∃ e, (Lifecycle.lock s w).1 = .error e ∧ locked s op w = (.error e, (Lifecycle.lock s w).2)) ∨
      (Lifecycle.lock s w).1 = .ok () ∧ locked s op w = (.ok (), (Lifecycle.lock s w).2.perform op) := by
  rw [locked]
  generalize Lifecycle.lock s w = found
  obtain ⟨_ | _, w'⟩ := found
  · exact .inl ⟨_, rfl, rfl⟩
  · exact .inr ⟨rfl, rfl⟩

theorem retireTopologies_cases (ts : TextSet) (w : World ω) :
    (∃ e, (Lifecycle.lock s w).1 = .error e ∧ retireTopologies s ts w = (.error e, (Lifecycle.lock s w).2)) ∨
      (Lifecycle.lock s w).1 = .ok () ∧ ∃ events,
        retireTopologies s ts w = (.ok events, (Lifecycle.lock s w).2.perform (.retireTopologies ts)) := by
  rw [retireTopologies]
  generalize Lifecycle.lock s w = found
  obtain ⟨_ | _, w'⟩ := found
  · exact .inl ⟨_, rfl, rfl⟩
  · exact .inr ⟨rfl, _, rfl⟩

/-- What a step of a call has come to that fails only at a poisoned lock. -/
structure Stepped (start : CameraInventory) (begun : List Happening) {ε α : Type}
    (result : Except ε α) (w' : World ω) : Prop where
  accounted : Accounted start begun w' []
  failed : ∀ e, result = .error e → w'.poisoned = true

include hids in
theorem Accounted.prepareRescan {hints : List DeviceEventHint} (h : Accounted start begun w hints) :
    Stepped start begun (prepareRescan s hints w).1 (prepareRescan s hints w).2 := by
  have hlock := h.lock hids (s := s)
  rw [Lifecycle.prepareRescan, invalidateTopologies]
  rcases locked_cases (s := s) (.invalidateTopologies (affected hints)) w with
    ⟨e, herror, heq⟩ | ⟨hok, heq⟩
  · rw [heq]
    exact ⟨hlock.accounted.poison (hlock.taken e herror) [], fun _ _ => hlock.taken e herror⟩
  · rw [heq]
    dsimp only
    have hfirst := hlock.accounted.perform hids (.invalidateTopologies (affected hints))
      (fun _ _ _ heq => by cases heq)
    have hlock' := hfirst.lock hids (s := s)
    rcases retireTopologies_cases (s := s)
        (affected (hints.filter DeviceEventHint.requiresRetirement))
        ((Lifecycle.lock s w).2.perform (.invalidateTopologies (affected hints))) with
      ⟨e, herror, heq'⟩ | ⟨hok', events, heq'⟩
    · rw [heq']
      exact ⟨hlock'.accounted.poison (hlock'.taken e herror) [], fun _ _ => hlock'.taken e herror⟩
    · rw [heq']
      refine ⟨?_, fun e herror => by cases herror⟩
      have hsecond := hlock'.accounted.perform hids
        (.retireTopologies (affected (hints.filter DeviceEventHint.requiresRetirement)))
        (fun _ _ _ heq => by cases heq)
      refine ⟨hsecond.traced, fun hp => ?_, hsecond.commits, hsecond.since, hsecond.unrefused⟩
      obtain ⟨noted, hlog, hrecorded⟩ := hlock'.log
      have hdids : ∀ h ∈ noted, ∃ op, h = .did op := by
        intro h hh
        obtain ⟨before, classified, rfl⟩ := hrecorded h hh
        exact ⟨_, rfl⟩
      rw [World.perform, World.note, hlog]
      exact (hlock.accounted.settled (hlock.free hok)).rescanned hids hdids

/-- How a call ends. -/
inductive Ending (start : CameraInventory) (begun : List Happening) (r : Outcome ω) : Prop where
  /-- There was nothing to do. -/
  | idle : (∃ events, r.1 = .ok events) → r.2.log = begun ∨ r.2.log = begun ++ [.polled []] →
      Unrefused start begun r.2.log → Ending start begun r
  | committed (before : List Happening) (observations : List CameraObservation) (now : Nat) :
      (∃ events, r.1 = .ok events) →
      r.2.log = before ++ [.did (.reconcileGuarded observations true now)] →
      Unrefused start begun r.2.log → Ending start begun r
  | poisoned : (∃ e, r.1 = .error e) → r.2.poisoned = true → Unrefused start begun r.2.log →
      Ending start begun r
  /-- No camera is left. -/
  | closed : (∃ e, r.1 = .error e) → (∀ k : Text, r.2.inventory.active[k]? = none) →
      Unrefused start begun r.2.log → Ending start begun r
  | refused (before : List Happening) (observations : List CameraObservation) (now : Nat) :
      (∃ e, r.1 = .error e) → r.2.poisoned = false →
      r.2.log = before ++ [.did (.reconcileGuarded observations false now)] → begun <+: before →
      Refuses (stateAt start before) observations → Unrefused start begun before →
      Ending start begun r

/-- What holds after a call. -/
structure Ended (start : CameraInventory) (begun : List Happening) (r : Outcome ω) : Prop where
  traced : r.2.inventory = stateAt start r.2.log
  settled : r.2.poisoned = false → Settled start r.2.log []
  commits : ∀ before observations, Commits r.2.log before observations →
    CommitSound start before observations
  since : begun <+: r.2.log
  ending : Ending start begun r

theorem Accounted.ended {r : Outcome ω} (h : Accounted start begun r.2 [])
    (hending : Ending start begun r) : Ended start begun r :=
  ⟨h.traced, h.settled, h.commits, h.since, hending⟩

theorem Stepped.ended {ε : Type} {result : Except ε (List CameraInventoryEvent)} {w' : World ω} {e : ε}
    (h : Stepped start begun result w') (heq : result = .error e) (error : LifecycleError) :
    Ended start begun (.error error, w') :=
  h.accounted.ended (.poisoned ⟨error, rfl⟩ (h.failed e heq) h.accounted.unrefused)

theorem retireUnavailable_active (inv : CameraInventory) (reason : CameraInventoryReason) (k : Text) :
    (inv.step (.retireUnavailable reason)).active[k]? = none := by
  obtain ⟨inv', hspec, heq⟩ := inv.retired_spec (Std.ExtTreeSet.ofList inv.active.keys)
  have hactive : (inv.step (.retireUnavailable reason)).active = inv'.active := by
    rw [step, CameraInventory.retireUnavailable, heq, markUnavailable]
    dsimp only
    split <;> simp
  have hfirst : (inv.refreshedFor (Std.ExtTreeSet.ofList inv.active.keys)).active = inv.active := by
    rw [refreshedFor]
    split <;> simp
  rw [hactive]
  by_cases hk : k ∈ (Std.ExtTreeSet.ofList inv.active.keys : TextSet).toList
  · exact hspec.gone k hk
  · rw [hspec.others k hk, hfirst]
    simpa using hk

include hids in
theorem Accounted.closed (h : Accounted start begun w []) (error : LifecycleError) :
    Ended start begun (closed s error w) := by
  have hlock := h.lock hids (s := s)
  rw [Lifecycle.closed, failClosed, Lifecycle.retireUnavailable]
  rcases locked_cases (s := s) (.retireUnavailable (failureReason error)) w with
    ⟨e, herror, heq⟩ | ⟨hok, heq⟩
  · rw [heq]
    exact hlock.accounted.ended (.poisoned ⟨_, rfl⟩ (hlock.taken e herror) hlock.accounted.unrefused)
  · rw [heq]
    have hdone := hlock.accounted.perform hids (.retireUnavailable (failureReason error))
      (fun _ _ _ heq => by cases heq)
    exact hdone.ended (.closed ⟨_, rfl⟩ (retireUnavailable_active _ _) hdone.unrefused)

theorem Accounted.poll (h : Accounted start begun w []) (timeout : Nat) :
    (∃ hints w', poll s timeout w = (.ok hints, w') ∧ Accounted start begun w' hints ∧
      w'.log = w.log ++ [.polled hints]) ∨
    ∃ e w', poll s timeout w = (.error e, w') ∧ Accounted start begun w' [] ∧ w'.log = w.log := by
  rw [Lifecycle.poll]
  rcases s.poll timeout w.env with ⟨e | hints, env⟩
  · exact .inr ⟨e, _, rfl, h.env env, rfl⟩
  · refine .inl ⟨hints, _, rfl, ?_, rfl⟩
    refine (h.env env).note (fun _ _ _ heq => by cases heq) ?_ fun hp => (h.settled hp).polled hints
    rw [stateAt_polled]
    exact h.traced

theorem Accounted.snapshot (h : Accounted start begun w []) :
    (∃ observations w', snapshot s w = (.ok observations, w') ∧ Accounted start begun w' [] ∧
      w'.log = w.log ++ [.snapped observations]) ∨
    ∃ e w', snapshot s w = (.error e, w') ∧ Accounted start begun w' [] ∧ w'.log = w.log := by
  rw [Lifecycle.snapshot]
  rcases s.snapshot w.env with ⟨e | observations, env⟩
  · exact .inr ⟨e, _, rfl, h.env env, rfl⟩
  · refine .inl ⟨observations, _, rfl, ?_, rfl⟩
    refine (h.env env).note (fun _ _ _ heq => by cases heq) ?_ fun hp => (h.settled hp).snapped observations
    rw [stateAt_snapped]
    exact h.traced

theorem Fresh.append {log since : List Happening} {observations : List CameraObservation}
    (h : Fresh log observations) (hsince : ∀ h ∈ since, Calm h) : Fresh (log ++ since) observations := by
  obtain ⟨before, since', rfl, hcalm⟩ := h
  refine ⟨before, since' ++ since, by simp, fun h hmem => ?_⟩
  rcases List.mem_append.1 hmem with hmem | hmem
  · exact hcalm h hmem
  · exact hsince h hmem

include hids in
theorem Accounted.reconciled (h : Accounted start begun w owed) {observations : List CameraObservation}
    {incoming : TextMap CameraObservation} {m : Merge}
    (hc : Census w.inventory observations incoming m) {quiet : Bool} (now : Nat)
    (hquiet : quiet = true → w.poisoned = false ∧ owed = [] ∧ Fresh w.log observations) :
    Accounted start begun (w.perform (.reconcileGuarded observations quiet now)) owed := by
  rw [h.traced] at hc
  refine ⟨?_, fun hp => (h.settled hp).did hids _, ?_, h.since.trans (List.prefix_append _ _), ?_⟩
  · rw [World.perform, World.note]
    dsimp only
    rw [stateAt_did, ← h.traced]
  · intro before observations' hcommits
    rcases commits_concat hcommits with hcommits | ⟨rfl, now', heq⟩
    · exact h.commits before observations' hcommits
    · cases heq
      obtain ⟨hp, rfl, hfresh⟩ := hquiet rfl
      exact ⟨⟨incoming, m, hc⟩, h.settled hp, hfresh⟩
  · intro before observations' now' hbegun hstart
    rcases List.prefix_concat_iff.1 hstart with heq | hstart
    · obtain ⟨rfl, hlast⟩ := List.append_inj' heq rfl
      cases hlast
      exact fun hrefuses => hrefuses incoming m hc
    · exact h.unrefused before observations' now' hbegun hstart

omit hids in
theorem run_map_eq {σ α β : Type} {x : StateM σ α} {f : α → β} {b b' : σ} {a : α} (h : x b = (a, b')) :
    (f <$> x).run b = (f a, b') := by
  have hmap : (f <$> x).run b = (f (x b).1, (x b).2) := rfl
  rw [hmap, h]

/-- How the guarded commit ends. -/
inductive Reconciles (start : CameraInventory) (begun : List Happening)
    (observations : List CameraObservation) :
    Reconciled × List DeviceEventHint × Option LifecycleError × World ω → Prop
  | failed (e : CameraInventoryError) (w' : World ω) :
      (∀ error, Ended start begun (.error error, w')) →
      Reconciles start begun observations (.error e, [], none, w')
  | committed (published : List CameraInventoryEvent) (w' : World ω) (before : List Happening)
      (now : Nat) : Accounted start begun w' [] →
      w'.log = before ++ [.did (.reconcileGuarded observations true now)] →
      Reconciles start begun observations (.ok (published, true), [], none, w')
  | broken (e : LifecycleError) (w' : World ω) : Accounted start begun w' [] →
      Reconciles start begun observations (.ok ([], false), [], some e, w')
  | disturbed (hints : List DeviceEventHint) (w' : World ω) : Accounted start begun w' hints →
      Reconciles start begun observations (.ok ([], false), hints, none, w')

include hids in
theorem Accounted.reconcileGuarded (h : Accounted start begun w [])
    {observations : List CameraObservation} (hfresh : Fresh w.log observations) :
    Reconciles start begun observations (reconcileGuarded s observations w) := by
  have hlock := h.lock hids (s := s)
  obtain ⟨noted, hlog, hrecorded⟩ := hlock.log
  have hcalm : ∀ h ∈ noted, Calm h := by
    intro h hh
    obtain ⟨before, classified, rfl⟩ := hrecorded h hh
    exact .recorded before classified
  have hfresh' := hfresh.append hcalm
  rw [← hlog] at hfresh'
  rw [Lifecycle.reconcileGuarded]
  generalize Lifecycle.lock s w = found at hlock hfresh'
  obtain ⟨e | _, w₁⟩ := found
  · refine .failed e w₁ fun error => hlock.accounted.ended ?_
    exact .poisoned ⟨error, rfl⟩ (hlock.taken e rfl) hlock.accounted.unrefused
  have hp : w₁.poisoned = false := hlock.free rfl
  dsimp only
  generalize hnow : s.now (boundaryQuiet s ⟨w₁.env, w₁.log, [], none⟩).2.env = now
  rcases w₁.inventory.reconcileGuarded_eq (M := StateM (Boundary ω)) observations now with
    ⟨hrefuses, e, heq⟩ | ⟨incoming, m, hc, heq⟩
  · rw [heq]
    refine .failed e (w₁.perform (.reconcileGuarded observations false now)) fun error => ?_
    have hacc := hlock.accounted
    have htraced : (w₁.perform (.reconcileGuarded observations false now)).inventory =
        stateAt start (w₁.log ++ [.did (.reconcileGuarded observations false now)]) := by
      rw [stateAt_did, ← hacc.traced]
      rfl
    refine ⟨htraced, fun hp => (hacc.settled hp).did hids _, fun before observations' hcommits => ?_,
      hacc.since.trans (List.prefix_append _ _), ?_⟩
    · rcases commits_concat hcommits with hcommits | ⟨-, now', hlast⟩
      · exact hacc.commits before observations' hcommits
      · cases hlast
    · refine .refused w₁.log observations now ⟨error, rfl⟩ hp rfl hacc.since ?_ hacc.unrefused
      rw [← hacc.traced]
      exact hrefuses
  · rw [heq]
    -- the boundary poll decides, and its hints are owed
    have hboundary : ∀ (env : ω) (hints : List DeviceEventHint),
        Accounted start begun ({ w₁ with env := env }.note (.polled hints)) hints := by
      intro env hints
      refine (hlock.accounted.env env).note (fun _ _ _ heq => by cases heq) ?_
        fun hp => (hlock.accounted.settled hp).polled hints
      rw [stateAt_polled]
      exact hlock.accounted.traced
    have hresult : ∀ quiet, w₁.inventory.reconcile observations quiet now =
        (if quiet then .ok (sortedEvents m, true) else .ok ([], false),
          w₁.inventory.step (.reconcileGuarded observations quiet now)) := by
      intro quiet
      refine Prod.ext ?_ rfl
      rw [hc.reconcile]
      cases quiet <;> rfl
    rcases hpoll : s.poll 0 w₁.env with ⟨e | hints, env⟩
    · have hguard : boundaryQuiet s ⟨w₁.env, w₁.log, [], none⟩ =
          (false, ⟨env, w₁.log, [], some e⟩) := by
        rw [boundaryQuiet, hpoll]
      rw [run_map_eq hguard, hresult false]
      refine .broken e ({ w₁ with env := env }.perform (.reconcileGuarded observations false now)) ?_
      exact (hlock.accounted.env env).reconciled hids hc now fun hq => by cases hq
    · have hguard : boundaryQuiet s ⟨w₁.env, w₁.log, [], none⟩ =
          (hints.isEmpty, ⟨env, w₁.log ++ [.polled hints], hints, none⟩) := by
        rw [boundaryQuiet, hpoll]
        rfl
      rw [run_map_eq hguard, hresult hints.isEmpty]
      cases hints with
      | nil =>
        refine .committed (sortedEvents m)
          (({ w₁ with env := env }.note (.polled [])).perform (.reconcileGuarded observations true now))
          (w₁.log ++ [.polled []]) now ?_ rfl
        refine (hboundary env []).reconciled hids hc now fun _ => ⟨hp, rfl, hfresh'.append ?_⟩
        rw [List.forall_mem_singleton]
        exact .polled
      | cons hint hints =>
        refine .disturbed (hint :: hints) (({ w₁ with env := env }.note (.polled (hint :: hints))).perform
          (.reconcileGuarded observations false now)) ?_
        exact (hboundary env (hint :: hints)).reconciled hids hc now fun hq => by cases hq

/-! ## Calls -/

include hids in
theorem Accounted.publishQuietSnapshot (attempts : Nat) {pending : List CameraInventoryEvent}
    (h : Accounted start begun w []) :
    Ended start begun (publishQuietSnapshot s attempts pending w) := by
  induction attempts generalizing w pending with
  | zero => exact h.closed hids .unstableSnapshot
  | succ attempts ih =>
    -- either the rescan has failed, or another attempt follows it
    have hagain : ∀ {hints : List DeviceEventHint} {w' : World ω}, Accounted start begun w' hints →
        (∀ e w'', Lifecycle.prepareRescan s hints w' = (.error e, w'') → Ended start begun (.error e, w'')) ∧
          ∀ retired w'', Lifecycle.prepareRescan s hints w' = (.ok retired, w'') →
            Ended start begun (Lifecycle.publishQuietSnapshot s attempts (pending ++ retired) w'') := by
      intro hints w' h'
      have hstep := h'.prepareRescan hids (s := s)
      constructor
      · intro e w'' heq
        rw [heq] at hstep
        exact hstep.ended rfl e
      · intro retired w'' heq
        rw [heq] at hstep
        exact ih hstep.accounted
    rw [Lifecycle.publishQuietSnapshot]
    rcases h.snapshot (s := s) with ⟨observations, w₁, heq, h₁, hlog₁⟩ | ⟨e, w₁, heq, h₁, -⟩
    · rw [heq]
      dsimp only
      rcases (h₁.env (s.addTrackedTopologies (observations.map CameraObservation.topologyPath) w₁.env)).poll
          (s := s) coalesceQuiet with ⟨hints, w₂, heq, h₂, hlog₂⟩ | ⟨e, w₂, heq, h₂, -⟩
      · rw [heq]
        cases hints with
        | cons hint hints =>
          dsimp only
          split
          · next e w₃ heq => exact (hagain h₂).1 e w₃ heq
          · next retired w₃ heq => exact (hagain h₂).2 retired w₃ heq
        | nil =>
          have hfresh : Fresh w₂.log observations := by
            refine ⟨w.log, [.polled []], ?_, ?_⟩
            · rw [hlog₂, hlog₁, List.append_assoc]
              rfl
            · rw [List.forall_mem_singleton]
              exact .polled
          have hreconciles := h₂.reconcileGuarded hids (s := s) hfresh
          dsimp only
          generalize Lifecycle.reconcileGuarded s observations w₂ = found at hreconciles
          cases hreconciles with
          | failed e w' hended => exact hended _
          | committed published w' before now h' hlog =>
            exact (h'.env _).ended (.committed before observations now ⟨_, rfl⟩ hlog h'.unrefused)
          | broken e w' h' => exact h'.closed hids e
          | disturbed hints w' h' =>
            dsimp only
            split
            · next e w₃ heq => exact (hagain h').1 e w₃ heq
            · next retired w₃ heq => exact (hagain h').2 retired w₃ heq
      · rw [heq]
        exact h₂.closed hids e
    · rw [heq]
      exact h₁.closed hids e

include hids in
theorem Accounted.initializeInventory (h : Accounted start begun w []) :
    Ended start begun (initializeInventory s w) := by
  have hlock := h.lock hids (s := s)
  rw [Lifecycle.initializeInventory, Lifecycle.invalidateAll]
  rcases locked_cases (s := s) .invalidateAll w with ⟨e, herror, heq⟩ | ⟨hok, heq⟩
  · rw [heq]
    exact hlock.accounted.ended (.poisoned ⟨_, rfl⟩ (hlock.taken e herror) hlock.accounted.unrefused)
  · rw [heq]
    exact (hlock.accounted.perform hids .invalidateAll (fun _ _ _ heq => by cases heq)).publishQuietSnapshot
      hids maxQuietSnapshotAttempts

include hids in
theorem Accounted.coalesce (polls : Nat) {pending : List CameraInventoryEvent}
    (h : Accounted start begun w []) : Ended start begun (coalesce s polls pending w) := by
  induction polls generalizing w pending with
  | zero => exact h.closed hids .eventStorm
  | succ polls ih =>
    rw [Lifecycle.coalesce]
    rcases h.poll (s := s) coalesceQuiet with ⟨hints, w', heq, h', -⟩ | ⟨e, w', heq, h', -⟩
    · rw [heq]
      cases hints with
      | nil => exact h'.publishQuietSnapshot hids maxQuietSnapshotAttempts
      | cons hint hints =>
        have hstep := h'.prepareRescan hids (s := s)
        dsimp only
        generalize Lifecycle.prepareRescan s (hint :: hints) w' = found at hstep
        obtain ⟨e | retired, w''⟩ := found
        · exact hstep.ended rfl e
        · exact ih hstep.accounted
    · rw [heq]
      exact h'.closed hids e

include hids in
theorem Accounted.processNext (h : Accounted start w.log w []) (wait : Nat) :
    Ended start w.log (processNext s wait w) := by
  rw [Lifecycle.processNext]
  rcases h.poll (s := s) wait with ⟨hints, w', heq, h', hlog⟩ | ⟨e, w', heq, h', -⟩
  · rw [heq]
    cases hints with
    | nil => exact h'.ended (.idle ⟨_, rfl⟩ (.inr hlog) h'.unrefused)
    | cons hint hints =>
      have hstep := h'.prepareRescan hids (s := s)
      dsimp only
      generalize Lifecycle.prepareRescan s (hint :: hints) w' = found at hstep
      obtain ⟨e | retired, w''⟩ := found
      · exact hstep.ended rfl e
      · exact hstep.accounted.coalesce hids maxCoalescePolls
  · rw [heq]
    exact h'.closed hids e

include hids in
theorem Accounted.call (h : Accounted start w.log w []) (c : Call ω) :
    Ended start w.log (call s c w) := by
  cases c with
  | initializeInventory => exact h.initializeInventory hids
  | processNext wait => exact h.processNext hids wait
  | rebind env => exact (h.env env).ended (.idle ⟨_, rfl⟩ (.inl rfl) h.unrefused)

theorem unrefused_refl (log : List Happening) : Unrefused start log log := by
  intro before observations now hbegun hstart
  have hlength := hstart.length_le.trans hbegun.length_le
  simp at hlength

theorem Ended.accounted {r : Outcome ω} (h : Ended start begun r) :
    Accounted start r.2.log r.2 [] :=
  ⟨h.traced, h.settled, h.commits, List.prefix_refl _, unrefused_refl _⟩

include hids in
/-- **The run lemma.** -/
theorem Accounted.calls (h : Accounted start w.log w []) (cs : List (Call ω)) :
    Accounted start (calls s cs w).log (calls s cs w) [] := by
  induction cs generalizing w with
  | nil => exact h
  | cons c cs ih => exact ih (h.call hids c).accounted

end Parts

theorem accounted_new {ω : Type} (source generate : Nat → CameraInstanceId) (env : ω) :
    Accounted (.new source generate) [] (World.new source generate env) [] := by
  refine ⟨rfl, fun _ before hints rest heq => ?_, fun before observations hc => ?_,
    List.prefix_refl _, unrefused_refl _⟩
  · cases before <;> cases heq
  · obtain ⟨now, hstart⟩ := hc
    have hlength := hstart.length_le
    simp [World.new] at hlength

end Irlume.Lifecycle

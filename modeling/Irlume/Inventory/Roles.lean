import Irlume.Inventory.Publication

/-!
# Roles and the generation they were answered for

Classification runs outside the lock: it reads `endpointGenerations` first and records its answers later, and
any number of classifications overlap with every other operation. A role is kept under the generation it was
answered for, and none is kept for a contested endpoint.
-/

namespace Irlume.Inventory

open Irlume.Lib

namespace CameraInventory

/-! ## Claims of endpoints -/

def claims (inv : CameraInventory) : List (Text × EndpointGeneration) :=
  inv.publishedEntries.flatMap fun e =>
    e.observation.endpointPaths.map fun endpoint => (endpoint, inv.entryGeneration e)

def claimsOf (claims : List (Text × EndpointGeneration)) (endpoint : Text) :
    List (Text × EndpointGeneration) :=
  claims.filter fun c => c.1 = endpoint

theorem claimsOf_concat (claims : List (Text × EndpointGeneration)) (c : Text × EndpointGeneration)
    (endpoint : Text) : claimsOf (claims ++ [c]) endpoint =
      claimsOf claims endpoint ++ if c.1 = endpoint then [c] else [] := by
  rw [claimsOf, claimsOf, List.filter_append, List.filter_singleton]
  congr 1
  by_cases h : c.1 = endpoint <;> simp [h]

theorem claims_loop (claims : List (Text × EndpointGeneration)) (endpoint : Text) :
    let found := claims.foldl (fun found c => claimEndpoint c.2 found c.1) (∅, ∅)
    found.1[endpoint]? = (claimsOf claims endpoint).getLast?.map Prod.snd ∧
      (endpoint ∈ found.2 ↔ 1 < (claimsOf claims endpoint).length) := by
  induction claims using List.reverseRecOn generalizing endpoint with
  | nil => simp [claimsOf]
  | append_singleton claims c ih =>
    rw [List.foldl_concat, claimsOf_concat]
    obtain ⟨hlast, hcontested⟩ := ih endpoint
    generalize hfound : claims.foldl (fun found c => claimEndpoint c.2 found c.1) (∅, ∅) = found at *
    by_cases heq : c.1 = endpoint
    · rw [if_pos heq, claimEndpoint, heq]
      dsimp only
      rw [Std.ExtTreeMap.getElem?_insert_self]
      refine ⟨by simp, ?_⟩
      have hmem : endpoint ∈ found.1 ↔ claimsOf claims endpoint ≠ [] := by
        rw [Std.ExtTreeMap.mem_iff_isSome_getElem?, hlast]
        simp
      rw [List.length_append, List.length_singleton]
      split
      · next hin =>
        have hpos := List.length_pos_iff.2 (hmem.1 hin)
        simp only [Finset.mem_insert_self, true_iff]
        omega
      · next hout =>
        have hnil : claimsOf claims endpoint = [] := not_not.1 (mt hmem.2 hout)
        rw [hcontested, hnil]
        simp
    · rw [if_neg heq, List.append_nil, claimEndpoint]
      dsimp only
      rw [getElem?_insert_of_ne (Ne.symm heq)]
      refine ⟨hlast, ?_⟩
      rw [← hcontested]
      split
      · rw [Finset.mem_insert, or_iff_right (Ne.symm heq)]
      · rfl

variable {inv : CameraInventory} {endpoint : Text} {g : EndpointGeneration}

theorem endpointGenerations_iff :
    inv.endpointGenerations[endpoint]? = some g ↔ claimsOf inv.claims endpoint = [(endpoint, g)] := by
  have hfold : inv.publishedEntries.foldl
      (fun found e => e.observation.endpointPaths.foldl (claimEndpoint (inv.entryGeneration e)) found)
      (∅, ∅) = inv.claims.foldl (fun found c => claimEndpoint c.2 found c.1) (∅, ∅) := by
    rw [claims, List.foldl_flatMap]
    simp only [List.foldl_map]
  obtain ⟨hlast, hcontested⟩ := claims_loop inv.claims endpoint
  have hfirst : ∀ c ∈ claimsOf inv.claims endpoint, c.1 = endpoint := fun c hc =>
    of_decide_eq_true (List.mem_filter.1 hc).2
  rw [endpointGenerations, hfold, Std.ExtTreeMap.getElem?_filter', hlast]
  generalize claimsOf inv.claims endpoint = found at *
  match found with
  | [] => simp
  | [c] =>
    have hc : c.1 = endpoint := hfirst c List.mem_cons_self
    have hfree : endpoint ∉ (inv.claims.foldl (fun found c => claimEndpoint c.2 found c.1) (∅, ∅)).2 := by
      rw [hcontested]
      simp
    simp [hfree, Prod.ext_iff, hc]
  | c :: d :: rest =>
    have hin : endpoint ∈ (inv.claims.foldl (fun found c => claimEndpoint c.2 found c.1) (∅, ∅)).2 := by
      rw [hcontested]
      simp
    simp [hin]

theorem mem_claims :
    (endpoint, g) ∈ inv.claims ↔ ∃ e ∈ inv.publishedEntries,
      endpoint ∈ e.observation.endpointPaths ∧ inv.entryGeneration e = g := by
  simp [claims, List.mem_flatMap, List.mem_map]

theorem claimed_of_generation
    (h : inv.endpointGenerations[endpoint]? = some g) : ∃ e ∈ inv.publishedEntries,
      endpoint ∈ e.observation.endpointPaths ∧ inv.entryGeneration e = g := by
  rw [endpointGenerations_iff] at h
  rw [← mem_claims]
  exact List.mem_of_mem_filter (h ▸ List.mem_singleton_self (endpoint, g))

theorem claim_unique (h : inv.endpointGenerations[endpoint]? = some g) {e : InventoryEntry}
    (he : e ∈ inv.publishedEntries) (hendpoint : endpoint ∈ e.observation.endpointPaths) :
    inv.entryGeneration e = g := by
  rw [endpointGenerations_iff] at h
  have hmem : (endpoint, inv.entryGeneration e) ∈ claimsOf inv.claims endpoint :=
    List.mem_filter.2 ⟨mem_claims.2 ⟨e, he, hendpoint, rfl⟩, by simp⟩
  rw [h, List.mem_singleton] at hmem
  exact congrArg Prod.snd hmem

/-! ## Roles that are kept -/

/-- The generation a role is kept under is the one its endpoint has now. -/
def Live (inv : CameraInventory) (key : RoleKey) : Prop :=
  ∃ g, inv.endpointGenerations[key.endpoint]? = some g ∧ g.key key.endpoint = key

def RolesLive (inv : CameraInventory) : Prop := ∀ key r, inv.roles key = some r → inv.Live key

variable {key : RoleKey}

variable {r : Role}

theorem pruneRoles_some :
    inv.pruneRoles.roles key = some r ↔ inv.roles key = some r ∧ inv.Live key := by
  rw [pruneRoles, Live]
  dsimp only
  cases hlive : inv.endpointGenerations[key.endpoint]? with
  | none => simp
  | some g =>
    by_cases hkey : g.key key.endpoint = key <;> simp [hkey]

theorem rolesLive_pruneRoles (inv : CameraInventory) : RolesLive inv.pruneRoles :=
  fun _ _ h => (pruneRoles_some.1 h).2

/-- The endpoint had the generation `g` when it was asked about, and has it now. -/
structure Steady (before after : TextMap EndpointGeneration) (endpoint : Text)
    (g : EndpointGeneration) : Prop where
  before : before[endpoint]? = some g
  after : after[endpoint]? = some g

variable {before after : TextMap EndpointGeneration}

theorem recordRole_of_steady (h : Steady before after endpoint g) (roles : RoleKey → Option Role)
    (role : Role) : recordRole before after roles (endpoint, role) =
      Function.update roles (g.key endpoint) (answered (roles (g.key endpoint)) role) := by
  simp [recordRole, h.before, h.after]

theorem recordRole_of_not_steady
    (h : ∀ g, ¬Steady before after endpoint g) (roles : RoleKey → Option Role) (role : Role) :
    recordRole before after roles (endpoint, role) = roles := by
  rw [recordRole]
  split
  · next was now hwas hnow =>
    rw [if_pos]
    rintro rfl
    exact h was ⟨hwas, hnow⟩
  · rfl

theorem answered_some {held : Option Role} {role r : Role} (h : answered held role = some r) :
    role = r := by
  cases held with
  | none => exact Option.some.inj h
  | some recorded =>
    rw [answered] at h
    split at h
    · cases h
    · next hsame =>
      rw [not_not] at hsame
      exact hsame.symm.trans (Option.some.inj h)

theorem recordRole_some {roles : RoleKey → Option Role}
    {answer : Text × Role}
    (h : recordRole before after roles answer key = some r) :
    roles key = some r ∨ answer = (key.endpoint, r) ∧
      ∃ g, Steady before after key.endpoint g ∧ g.key key.endpoint = key := by
  obtain ⟨endpoint, role⟩ := answer
  by_cases hsteady : ∃ g, Steady before after endpoint g
  · obtain ⟨g, hg⟩ := hsteady
    rw [recordRole_of_steady hg] at h
    by_cases hkey : key = g.key endpoint
    · subst hkey
      rw [Function.update_self] at h
      exact .inr ⟨Prod.ext rfl (answered_some h), g, hg, rfl⟩
    · rw [Function.update_of_ne hkey] at h
      exact .inl h
  · rw [recordRole_of_not_steady (not_exists.1 hsteady)] at h
    exact .inl h

theorem recordRoles_some {before : TextMap EndpointGeneration}
    {classified : List (Text × Role)}
    (h : (inv.recordRoles before classified).roles key = some r) :
    inv.roles key = some r ∨ (key.endpoint, r) ∈ classified ∧
      ∃ g, Steady before inv.endpointGenerations key.endpoint g ∧ g.key key.endpoint = key := by
  have hloop : ∀ (classified : List (Text × Role)) (roles : RoleKey → Option Role),
      classified.foldl (recordRole before inv.endpointGenerations) roles key = some r →
      roles key = some r ∨ (key.endpoint, r) ∈ classified ∧
        ∃ g, Steady before inv.endpointGenerations key.endpoint g ∧ g.key key.endpoint = key := by
    intro classified
    induction classified with
    | nil => exact fun roles h => .inl h
    | cons answer classified ih =>
      intro roles h
      rcases ih _ h with hold | ⟨hmem, hg⟩
      · rcases recordRole_some hold with hold | ⟨hanswer, hg⟩
        · exact .inl hold
        · exact .inr ⟨hanswer ▸ List.mem_cons_self, hg⟩
      · exact .inr ⟨List.mem_cons_of_mem _ hmem, hg⟩
  exact hloop classified inv.roles h

/-! ## Steps -/

@[simp] theorem markRefreshing_roles (inv : CameraInventory) :
    inv.markRefreshing.roles = inv.roles := by
  rw [markRefreshing]; split <;> simp

/-- An operation that prunes: it keeps the roles of the generations that are still published. -/
structure Pruned (inv inv' : CameraInventory) : Prop where
  live : RolesLive inv'
  kept : ∀ key r, inv'.roles key = some r → inv.roles key = some r

theorem pruned_of_roles {inv inv' : CameraInventory} (h : inv'.roles = inv.roles) :
    Pruned inv inv'.pruneRoles :=
  ⟨rolesLive_pruneRoles inv', fun _ _ hrole => h ▸ (pruneRoles_some.1 hrole).1⟩

theorem pruned_markUnavailable (inv : CameraInventory) (reason : CameraInventoryReason) :
    Pruned inv (inv.markUnavailable reason) := by
  rw [markUnavailable]
  apply pruned_of_roles
  dsimp only
  split <;> simp

theorem pruned_retireTopologies (inv : CameraInventory) (ts : TextSet) :
    Pruned inv (inv.retireTopologies ts).1 := by
  obtain ⟨inv', hspec, heq⟩ := inv.retired_spec ts
  rw [heq]
  apply pruned_of_roles
  rw [hspec.rest, refreshedFor]
  dsimp only
  split <;> simp

theorem pruned_step (h : RolesLive inv) {op : Op}
    (hop : ∀ before classified, op ≠ .recordRoles before classified) : Pruned inv (inv.step op) := by
  cases op with
  | reconcileGuarded observations quiet now =>
    rcases inv.reconcile_cases observations quiet now with ⟨e, drawn, heq⟩ | ⟨incoming, m, -, heq⟩
    · rw [step, heq]
      exact ⟨h, fun _ _ hrole => hrole⟩
    · rw [step, heq]
      split
      · rw [committed]
        apply pruned_of_roles
        dsimp only
        split <;> simp
      · exact ⟨h, fun _ _ hrole => hrole⟩
  | invalidateAll => exact pruned_of_roles inv.markRefreshing_roles
  | invalidateTopologies ts => exact pruned_of_roles inv.markRefreshing_roles
  | retireTopologies ts => exact pruned_retireTopologies inv ts
  | markUnavailable reason => exact pruned_markUnavailable inv reason
  | retireUnavailable reason =>
    have hretire := pruned_retireTopologies inv (Std.ExtTreeSet.ofList inv.active.keys)
    have hmark := pruned_markUnavailable
      (inv.retireTopologies (Std.ExtTreeSet.ofList inv.active.keys)).1 reason
    exact ⟨hmark.live, fun key r hrole => hretire.kept key r (hmark.kept key r hrole)⟩
  | recordRoles before classified => exact absurd rfl (hop before classified)

theorem rolesLive_step (h : RolesLive inv) (op : Op) :
    RolesLive (inv.step op) := by
  cases op with
  | recordRoles before classified =>
    intro key r hrole
    rcases recordRoles_some hrole with hold | ⟨-, g, hg, hkey⟩
    · exact h key r hold
    · exact ⟨g, hg.after, hkey⟩
  | _ => exact (pruned_step h (by intro before classified heq; cases heq)).live

/-- **No role outlives its generation.** -/
theorem roles_live {source generate : Nat → CameraInstanceId} (ops : List Op) :
    RolesLive ((new source generate).after ops) :=
  after_invariant (I := RolesLive) (fun _ op h => rolesLive_step h op)
    (fun _ _ hrole => by cases hrole) ops

/-! ## Where a role comes from -/

section Runs

variable (start : CameraInventory)

/-- Every classification that is recorded in the run started in it: what it holds against the present
generations was read at an earlier moment. -/
def Classified (ops : List Op) : Prop :=
  ∀ {earlier before classified}, earlier ++ [.recordRoles before classified] <+: ops →
    ∃ begun, begun <+: earlier ∧ before = (start.after begun).endpointGenerations

/-- The answer `r` for `key` was given by a classification that started after `begun` and was recorded
within `ops`. -/
structure Origin (ops : List Op) (key : RoleKey) (r : Role) (begun recorded : List Op) : Prop where
  started : begun <+: recorded
  answer : ∃ classified, recorded ++
    [.recordRoles (start.after begun).endpointGenerations classified] <+: ops ∧
      (key.endpoint, r) ∈ classified
  generation : ∃ g, (start.after begun).endpointGenerations[key.endpoint]? = some g ∧
    g.key key.endpoint = key

end Runs

theorem Classified.of_prefix {start : CameraInventory} {ops ops' : List Op}
    (h : Classified start ops) (hstart : ops' <+: ops) : Classified start ops' :=
  fun hearlier => h (hearlier.trans hstart)

/-- A role goes back to the classification that answered it. -/
theorem role_origin {source generate : Nat → CameraInstanceId} {ops : List Op}
    (h : Classified (new source generate) ops)
    (hrole : ((new source generate).after ops).roles key = some r) :
    ∃ begun recorded, Origin (new source generate) ops key r begun recorded := by
  induction ops using List.reverseRecOn with
  | nil => cases hrole
  | append_singleton ops op ih =>
    have hstart : ops <+: ops ++ [op] := List.prefix_append _ _
    have hextend : ∀ {begun recorded}, Origin (new source generate) ops key r begun recorded →
        Origin (new source generate) (ops ++ [op]) key r begun recorded := by
      rintro begun recorded ⟨hbegun, ⟨classified, hrecorded, hmem⟩, hg⟩
      exact ⟨hbegun, ⟨classified, hrecorded.trans hstart, hmem⟩, hg⟩
    rw [after_append, after_cons, after_nil] at hrole
    by_cases hop : ∃ before classified, op = .recordRoles before classified
    · obtain ⟨before, classified, rfl⟩ := hop
      rcases recordRoles_some hrole with hold | ⟨hmem, g, hg, hkey⟩
      · obtain ⟨begun, recorded, horigin⟩ := ih (h.of_prefix hstart) hold
        exact ⟨begun, recorded, hextend horigin⟩
      · obtain ⟨begun, hbegun, rfl⟩ := h (List.prefix_refl _)
        exact ⟨begun, ops, hbegun, ⟨classified, List.prefix_refl _, hmem⟩, g, hg.before, hkey⟩
    · have hop' : ∀ before classified, op ≠ .recordRoles before classified :=
        fun before classified heq => hop ⟨before, classified, heq⟩
      have hold := (pruned_step (roles_live ops) hop').kept key r hrole
      obtain ⟨begun, recorded, horigin⟩ := ih (h.of_prefix hstart) hold
      exact ⟨begun, recorded, hextend horigin⟩

/-! ## Publication without interruption -/

def Publishes (inv : CameraInventory) (id : CameraInstanceId) (g : CameraGeneration) : Prop :=
  ∃ e ∈ inv.publishedEntries, e.instanceId = id ∧ e.generation = g

theorem mem_publishedEntries {e : InventoryEntry} :
    e ∈ inv.publishedEntries ↔
      (inv.publicationState = .current ∨ inv.publicationState = .refreshing) ∧
        (∃ k : Text, inv.active[k]? = some e) ∧ inv.invalidated e = false := by
  rw [publishedEntries]
  split
  · next hstate => simp [List.mem_filter, mem_values, hstate]
  · next hstate => simp [hstate]

/-- A generation published at two moments was published all the time between. -/
theorem published_between {inv₁ inv₂ inv₃ : CameraInventory} (h : Continues inv₁ inv₂)
    (h' : Continues inv₂ inv₃) (hsound : StateSound inv₂) {id : CameraInstanceId}
    {g : CameraGeneration} (h₁ : inv₁.Publishes id g) (h₃ : inv₃.Publishes id g) :
    inv₂.Publishes id g := by
  obtain ⟨e, he, rfl, rfl⟩ := h₁
  obtain ⟨f, hf, hid, hgen⟩ := h₃
  obtain ⟨-, ⟨k, he⟩, -⟩ := mem_publishedEntries.1 he
  obtain ⟨-, ⟨l, hf⟩, hclear⟩ := mem_publishedEntries.1 hf
  have hlive : e.instanceId ∉ inv₃.retiredInstanceIds := hid ▸ h'.identities.live hf
  -- whoever has the identity at the end has the generation of the beginning
  have hnewer : ∀ {e' : InventoryEntry}, inv₃.active[k]? = some e' → e'.instanceId = e.instanceId →
      ¬e.generation.get < e'.generation.get := by
    intro e' he' hid' hlt
    obtain rfl : k = l := h'.identities.distinct he' hf (hid'.trans hid.symm)
    obtain rfl : e' = f := Option.some.inj (he'.symm.trans hf)
    rw [hgen] at hlt
    exact lt_irrefl _ hlt
  cases h.later.fate he with
  | retired hretired => exact absurd (h'.later.retired hretired) hlive
  | renumbered e₂ he₂ hid₂ hlt =>
    cases h'.later.fate he₂ with
    | retired hretired => exact absurd (hid₂ ▸ hretired) hlive
    | kept he₃ _ => exact absurd hlt (hnewer he₃ hid₂)
    | renumbered e₃ he₃ hid₃ hlt' => exact absurd (hlt.trans hlt') (hnewer he₃ (hid₃.trans hid₂))
  | kept he₂ _ =>
    have hclear₂ : inv₂.invalidated e = false := by
      cases h'.later.fate he₂ with
      | retired hretired => exact absurd hretired hlive
      | renumbered e₃ he₃ hid₃ hlt => exact absurd hlt (hnewer he₃ hid₃)
      | kept he₃ hdoubt =>
        by_contra hdoubted
        obtain rfl : k = l := h'.identities.distinct he₃ hf hid.symm
        obtain rfl : e = f := Option.some.inj (he₃.symm.trans hf)
        rw [hdoubt (Bool.not_eq_false _ ▸ hdoubted)] at hclear
        cases hclear
    refine ⟨e, mem_publishedEntries.2 ⟨?_, ⟨k, he₂⟩, hclear₂⟩, rfl, rfl⟩
    cases hstate : inv₂.publicationState with
    | current => exact .inl rfl
    | refreshing => exact .inr rfl
    | uninitialized =>
      rw [hsound.uninitialized hstate k] at he₂
      cases he₂
    | unavailable =>
      rw [hsound.unavailable hstate he₂] at hclear₂
      cases hclear₂

end CameraInventory

end Irlume.Inventory

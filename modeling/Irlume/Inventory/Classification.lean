import Irlume.Inventory.Offers

/-!
# A classified role belongs to the camera that was classified

Every use of a role looks it up under the present generation of a published camera, so `role_origin` and
`published_between` say where it came from.
-/

namespace Irlume.Inventory

open Irlume.Lib Irlume.Split

namespace CameraInventory

/-! ## Uses of a role -/

/-- Where a role is used for an endpoint. -/
inductive Uses (inv : CameraInventory) (toLowercase : Text → Text) (instanceId : Text)
    (generation : Nat) (endpoint : Text) (role : Role) : Prop where
  /-- A view looks the role of a capture node up. -/
  | lookedUp (e : InventoryEntry) : e ∈ inv.publishedEntries → e.instanceId.text = instanceId →
    e.generation.get = generation → endpoint ∈ e.captures → inv.roleOf e endpoint = some role →
    Uses inv toLowercase instanceId generation endpoint role
  | classified (c : ClassifiedEndpoint) : c ∈ inv.classifiedEndpoints toLowercase →
    c.instanceId = instanceId → c.generation = generation → c.endpoint = endpoint → c.role = role →
    Uses inv toLowercase instanceId generation endpoint role
  | paired (p : ConnectedPair) : p ∈ (inv.connectedPairs toLowercase).pairs →
    p.instanceId = instanceId → p.generation = generation →
    (p.rgb = endpoint ∧ role = .rgb ∨ p.ir = endpoint ∧ role = .ir) →
    Uses inv toLowercase instanceId generation endpoint role
  | split (records : List AuthorizationRecord) (now : Nat) (p : SplitPair) (n : CameraNode) :
    p ∈ (inv.connectedPairsWithSplit toLowercase records now).splitPairs →
    (n = p.rgb ∧ role = .rgb ∨ n = p.ir ∧ role = .ir) → n.instanceId = instanceId →
    n.generation = generation → n.path = endpoint →
    Uses inv toLowercase instanceId generation endpoint role

structure Reads (inv : CameraInventory) (e : InventoryEntry) (endpoint : Text) (role : Role) : Prop where
  published : e ∈ inv.publishedEntries
  claimed : endpoint ∈ e.observation.endpointPaths
  held : inv.roleOf e endpoint = some role

section Reads

variable {inv : CameraInventory} {toLowercase : Text → Text}

variable {role : Role}

theorem OfferedSide.reads {n : CameraNode} {e : InventoryEntry}
    (h : inv.OfferedSide toLowercase n role e) : inv.Reads e n.path role :=
  ⟨h.published, e.mem_captures h.capture.1, h.capture.2⟩

/-- Every use looks the role up under the present generation of a published camera. -/
theorem Uses.reads {instanceId : Text} {generation : Nat} {endpoint : Text}
    (h : inv.Uses toLowercase instanceId generation endpoint role) :
    ∃ e, inv.Reads e endpoint role ∧ e.instanceId.text = instanceId ∧ e.generation.get = generation := by
  cases h with
  | lookedUp e he hid hgen hcapture hrole => exact ⟨e, ⟨he, e.mem_captures hcapture, hrole⟩, hid, hgen⟩
  | classified c hc hid hgen hendpoint hrole =>
    obtain ⟨e, he, hspec⟩ := mem_classifiedEndpoints hc
    subst hendpoint hrole
    exact ⟨e, ⟨he, e.mem_captures hspec.capture, hspec.role⟩, hspec.instanceId.symm.trans hid,
      hspec.generation.symm.trans hgen⟩
  | paired p hp hid hgen hside =>
    obtain ⟨e, he, hspec⟩ := mem_pairs hp
    refine ⟨e, ?_, hspec.instanceId.symm.trans hid, hspec.generation.symm.trans hgen⟩
    rcases hside with ⟨rfl, rfl⟩ | ⟨rfl, rfl⟩
    · obtain ⟨hmem, hrole⟩ := mem_of_filter_eq_singleton hspec.rgb
      exact ⟨he, e.mem_captures hmem, of_decide_eq_true hrole⟩
    · obtain ⟨hmem, hrole⟩ := mem_of_filter_eq_singleton hspec.ir
      exact ⟨he, e.mem_captures hmem, of_decide_eq_true hrole⟩
  | split records now p n hp hside hid hgen hpath =>
    obtain ⟨-, e, f, hpair⟩ := mem_splitPairs hp
    subst hpath
    rcases hside with ⟨rfl, rfl⟩ | ⟨rfl, rfl⟩
    · exact ⟨e, hpair.rgb.reads, hpair.rgb.instanceId.symm.trans hid,
        hpair.rgb.generation.symm.trans hgen⟩
    · exact ⟨f, hpair.ir.reads, hpair.ir.instanceId.symm.trans hid,
        hpair.ir.generation.symm.trans hgen⟩

theorem Reads.claim {e : InventoryEntry} {endpoint : Text} (h : inv.Reads e endpoint role)
    (hlive : RolesLive inv) {f : InventoryEntry} (hf : f ∈ inv.publishedEntries)
    (hclaim : endpoint ∈ f.observation.endpointPaths) : f.instanceId = e.instanceId := by
  obtain ⟨g, hg, -⟩ := hlive _ _ h.held
  have he := claim_unique hg h.published h.claimed
  have hf' := claim_unique hg hf hclaim
  exact (EndpointGeneration.mk.inj (hf'.trans he.symm)).2.1

end Reads

/-! ## Where a used role came from -/

structure AnsweredWhilePublished (start : CameraInventory) (ops : List Op) (id : CameraInstanceId)
    (g : CameraGeneration) (endpoint : Text) (role : Role) (begun recorded : List Op) : Prop where
  started : begun <+: recorded
  answer : ∃ classified, recorded ++
    [.recordRoles (start.after begun).endpointGenerations classified] <+: ops ∧
      (endpoint, role) ∈ classified
  published : ∀ moment, begun <+: moment → moment <+: ops → (start.after moment).Publishes id g

variable {ops : List Op}

theorem Reads.answered {source generate : Nat → CameraInstanceId}
    (h : Classified (new source generate) ops) {e : InventoryEntry} {endpoint : Text} {role : Role}
    (hread : ((new source generate).after ops).Reads e endpoint role) :
    ∃ begun recorded, AnsweredWhilePublished (new source generate) ops e.instanceId e.generation
      endpoint role begun recorded := by
  obtain ⟨begun, recorded, horigin⟩ := role_origin h hread.held
  refine ⟨begun, recorded, horigin.started, horigin.answer, ?_⟩
  obtain ⟨g, hg, hkey⟩ := horigin.generation
  obtain ⟨f, hf, -, rfl⟩ := claimed_of_generation hg
  obtain ⟨-, hid, hgen, -⟩ := RoleKey.mk.inj hkey
  rintro moment ⟨between, rfl⟩ ⟨rest, rfl⟩
  have hsound : ∀ ops, PublicationSound ((new source generate).after ops) :=
    publicationSound_after (publicationSound_new source generate)
  have h₁ : Continues ((new source generate).after begun)
      ((new source generate).after (begun ++ between)) := by
    rw [after_append]
    exact continues_after (hsound begun).identities between
  have h₂ : Continues ((new source generate).after (begun ++ between))
      ((new source generate).after (begun ++ between ++ rest)) := by
    rw [after_append _ (begun ++ between)]
    exact continues_after (hsound _).identities rest
  exact published_between h₁ h₂ (hsound _).state ⟨f, hf, hid, hgen⟩ ⟨e, hread.published, rfl, rfl⟩

/-! ## The answers of a stretch -/

def answersTo (before after : TextMap EndpointGeneration) (key : RoleKey)
    (classified : List (Text × Role)) : List Role :=
  (classified.filter fun answer => answer.1 = key.endpoint ∧ before[key.endpoint]? = after[key.endpoint]? ∧
    after[key.endpoint]?.any (fun g => g.key key.endpoint = key)).map Prod.snd

def counted (key : RoleKey) : CameraInventory → List Op → List Role
  | _, [] => []
  | inv, .recordRoles before classified :: ops =>
    answersTo before inv.endpointGenerations key classified ++
      counted key (inv.step (.recordRoles before classified)) ops
  | inv, op :: ops => counted key (inv.step op) ops

variable {key : RoleKey}

theorem recordRole_eq {before after : TextMap EndpointGeneration} {roles : RoleKey → Option Role}
    {answer : Text × Role} :
    recordRole before after roles answer key =
      (answersTo before after key [answer]).foldl answered (roles key) := by
  obtain ⟨endpoint, role⟩ := answer
  by_cases hcounts : endpoint = key.endpoint ∧ before[key.endpoint]? = after[key.endpoint]? ∧
      after[key.endpoint]?.any (fun g => g.key key.endpoint = key) = true
  · have hanswers : answersTo before after key [(endpoint, role)] = [role] := by
      rw [answersTo, List.filter_singleton, decide_eq_true hcounts]
      rfl
    obtain ⟨rfl, hsame, hany⟩ := hcounts
    obtain ⟨g, hg, hkey⟩ := (Option.any_eq_true _ _).1 hany
    rw [recordRole_of_steady ⟨hsame.trans hg, hg⟩, of_decide_eq_true hkey, Function.update_self, hanswers]
    rfl
  · have hanswers : answersTo before after key [(endpoint, role)] = [] := by
      rw [answersTo, List.filter_singleton, decide_eq_false hcounts]
      rfl
    rw [hanswers, List.foldl_nil]
    by_cases hsteady : ∃ g, Steady before after endpoint g
    · obtain ⟨g, hg⟩ := hsteady
      rw [recordRole_of_steady hg, Function.update_of_ne]
      rintro rfl
      exact hcounts ⟨rfl, hg.before.trans hg.after.symm, by simp [EndpointGeneration.key, hg.after]⟩
    · rw [recordRole_of_not_steady (not_exists.1 hsteady)]

variable {inv : CameraInventory}

theorem recordRoles_roles {before : TextMap EndpointGeneration}
    {classified : List (Text × Role)} :
    (inv.recordRoles before classified).roles key =
      (answersTo before inv.endpointGenerations key classified).foldl answered (inv.roles key) := by
  have hloop : ∀ roles : RoleKey → Option Role,
      classified.foldl (recordRole before inv.endpointGenerations) roles key =
        (answersTo before inv.endpointGenerations key classified).foldl answered (roles key) := by
    induction classified with
    | nil => exact fun roles => rfl
    | cons answer classified ih =>
      intro roles
      have hcons : answersTo before inv.endpointGenerations key (answer :: classified) =
          answersTo before inv.endpointGenerations key [answer] ++
            answersTo before inv.endpointGenerations key classified := by
        simp only [answersTo, ← List.map_append, ← List.filter_append, List.singleton_append]
      rw [List.foldl_cons, ih, hcons, List.foldl_append, recordRole_eq]
  exact hloop inv.roles

theorem not_live_of_unavailable (h : inv.publicationState = .unavailable) : ¬inv.Live key := by
  rintro ⟨g, hg, -⟩
  obtain ⟨e, he, -⟩ := claimed_of_generation hg
  rcases (mem_publishedEntries.1 he).1 with hstate | hstate <;> rw [h] at hstate <;> cases hstate

theorem markUnavailable_state (inv : CameraInventory) (reason : CameraInventoryReason) :
    (inv.markUnavailable reason).publicationState = .unavailable := by
  rw [markUnavailable, pruneRoles_state]

theorem pruneRoles_of_live (h : inv.pruneRoles.Live key) :
    inv.pruneRoles.roles key = inv.roles key := by
  obtain ⟨g, hg, hkey⟩ := h
  have hg' : inv.endpointGenerations[key.endpoint]? = some g := hg
  simp [pruneRoles, hg', hkey]

theorem roles_kept {op : Op}
    (hop : ∀ before classified, op ≠ .recordRoles before classified)
    (hlive : (inv.step op).Live key) : (inv.step op).roles key = inv.roles key := by
  cases op with
  | reconcileGuarded observations quiet now =>
    rcases inv.reconcile_cases observations quiet now with ⟨e, drawn, heq⟩ | ⟨incoming, m, -, heq⟩
    · rw [step, heq]
    · rw [step, heq] at hlive ⊢
      cases quiet with
      | false => rfl
      | true =>
        rw [if_pos rfl, committed] at hlive ⊢
        rw [pruneRoles_of_live hlive]
        dsimp only
        split <;> simp
  | invalidateAll =>
    rw [step, invalidateAll] at hlive ⊢
    exact (pruneRoles_of_live hlive).trans (congrFun inv.markRefreshing_roles key)
  | invalidateTopologies ts =>
    rw [step, invalidateTopologies] at hlive ⊢
    exact (pruneRoles_of_live hlive).trans (congrFun inv.markRefreshing_roles key)
  | retireTopologies ts =>
    obtain ⟨inv', hspec, heq⟩ := inv.retired_spec ts
    rw [step, heq] at hlive ⊢
    rw [pruneRoles_of_live hlive, hspec.rest, refreshedFor]
    dsimp only
    split <;> simp
  | markUnavailable reason =>
    rw [step] at hlive
    exact absurd hlive (not_live_of_unavailable (markUnavailable_state _ _))
  | retireUnavailable reason =>
    rw [step, retireUnavailable] at hlive
    exact absurd hlive (not_live_of_unavailable (markUnavailable_state _ _))
  | recordRoles before classified => exact absurd rfl (hop before classified)

theorem counted_of_ne {op : Op}
    (hop : ∀ before classified, op ≠ .recordRoles before classified) :
    counted key inv (op :: ops) = counted key (inv.step op) ops := by
  rw [counted]
  exact hop

/-- While a generation stays published, its role is what the answers of the stretch make of the one held before.
-/
theorem roles_since (hlive : ∀ moment, moment <+: ops → (inv.after moment).Live key) :
    (inv.after ops).roles key = (counted key inv ops).foldl answered (inv.roles key) := by
  induction ops generalizing inv with
  | nil => rfl
  | cons op ops ih =>
    have hrest : ∀ moment, moment <+: ops → ((inv.step op).after moment).Live key := fun moment hmoment =>
      hlive (op :: moment) (List.cons_prefix_cons.2 ⟨rfl, hmoment⟩)
    have hnow : (inv.step op).Live key := hrest [] List.nil_prefix
    rw [after_cons, ih hrest]
    by_cases hop : ∃ before classified, op = .recordRoles before classified
    · obtain ⟨before, classified, rfl⟩ := hop
      rw [counted, List.foldl_append, step, recordRoles_roles]
    · have hop' : ∀ before classified, op ≠ .recordRoles before classified :=
        fun before classified heq => hop ⟨before, classified, heq⟩
      rw [counted_of_ne hop', roles_kept hop' hnow]

theorem answered_twice {held : Option Role} {a b : Role} (hne : a ≠ b) :
    answered (answered held a) b = if held = none ∨ held = some a then none else some b := by
  cases held with
  | none => simp [answered, hne]
  | some r =>
    by_cases heq : r = a
    · simp [answered, heq, hne]
    · simp [answered, heq]

/-- **A classified role belongs to the camera that was classified.** Of two different answers in a row,
the second clears the role, unless the first has cleared an earlier one: then the second is recorded
afresh. -/
theorem classified_role_belongs {source generate : Nat → CameraInstanceId} {ops : List Op}
    (h : Classified (new source generate) ops) (toLowercase : Text → Text) :
    let inv := (new source generate).after ops
    (∀ instanceId generation endpoint role,
      inv.Uses toLowercase instanceId generation endpoint role →
        (∃ id g begun recorded, id.text = instanceId ∧ g.get = generation ∧
          AnsweredWhilePublished (new source generate) ops id g endpoint role begun recorded) ∧
        ∀ e ∈ inv.publishedEntries, ∀ f ∈ inv.publishedEntries,
          endpoint ∈ e.observation.endpointPaths → endpoint ∈ f.observation.endpointPaths → e = f) ∧
    ∀ later key answers a b, (∀ moment, moment <+: later → (inv.after moment).Live key) →
      counted key inv later = answers ++ [a, b] → a ≠ b →
        let held := answers.foldl answered (inv.roles key)
        (inv.after later).roles key = if held = none ∨ held = some a then none else some b := by
  intro inv
  have hsound : PublicationSound inv := publicationSound_after (publicationSound_new source generate) ops
  refine ⟨fun instanceId generation endpoint role huse => ?_, fun later key answers a b hlive heq hne => ?_⟩
  · obtain ⟨e, hread, rfl, rfl⟩ := huse.reads
    refine ⟨?_, fun f hf f' hf' hclaim hclaim' => ?_⟩
    · obtain ⟨begun, recorded, hanswered⟩ := hread.answered h
      exact ⟨e.instanceId, e.generation, begun, recorded, rfl, rfl, hanswered⟩
    · have hid := hread.claim (roles_live ops) hf hclaim
      have hid' := hread.claim (roles_live ops) hf' hclaim'
      obtain ⟨-, ⟨k, hk⟩, -⟩ := mem_publishedEntries.1 hf
      obtain ⟨-, ⟨l, hl⟩, -⟩ := mem_publishedEntries.1 hf'
      obtain rfl := hsound.identities.distinct hk hl (hid.trans hid'.symm)
      exact Option.some.inj (hk.symm.trans hl)
  · intro held
    rw [roles_since hlive, heq, List.foldl_append, List.foldl_cons, List.foldl_cons, List.foldl_nil]
    exact answered_twice hne

/-! ## Samples -/

/-- The camera is found, and its endpoint is asked about by as many classifications as there are
answers, each of which has started before any is recorded. -/
def sampleAnswers (answers : List Role) : List Op :=
  let census := Op.reconcileGuarded [sampleCamera "/devices/a" "/dev/video0"] true 0
  census :: answers.map fun role =>
    .recordRoles ((new sampleIds sampleIds).after [census]).endpointGenerations [("/dev/video0", role)]

/-- Two different answers in a row do not always leave the endpoint unclassified: the first of them may
have cleared an earlier one. -/
theorem second_of_two_recorded :
    let inv := (new sampleIds sampleIds).after (sampleAnswers [.rgb, .ir, .rgb])
    ∃ e ∈ inv.publishedEntries, "/dev/video0".toList ∈ e.observation.endpointPaths ∧
      inv.roleOf e "/dev/video0" = some .rgb := by
  refine ⟨(sampleCamera "/devices/a" "/dev/video0").entry (sampleIds 0) .initial, ?_, ?_, ?_⟩ <;>
    decide +kernel

theorem classified_sampleAnswers (answers : List Role) :
    Classified (new sampleIds sampleIds) (sampleAnswers answers) := by
  intro earlier before classified hstart
  rw [sampleAnswers] at hstart
  cases earlier with
  | nil => cases (List.cons_prefix_cons.1 hstart).1
  | cons op earlier =>
    rw [List.cons_append, List.cons_prefix_cons] at hstart
    obtain ⟨rfl, hstart⟩ := hstart
    have hmem := hstart.subset (List.mem_append_right earlier (List.mem_singleton_self _))
    obtain ⟨role, -, heq⟩ := List.mem_map.1 hmem
    cases heq
    exact ⟨[_], List.cons_prefix_cons.2 ⟨rfl, List.nil_prefix⟩, rfl⟩

/-- A single answer is used, and it was given while the camera was published. -/
theorem classified_role_belongs_sample :
    let start := new sampleIds sampleIds
    ∃ id g begun recorded, id.text = List.replicate 32 '1' ∧ g.get = 1 ∧
      AnsweredWhilePublished start (sampleAnswers [.rgb]) id g "/dev/video0" .rgb begun recorded := by
  refine ((classified_role_belongs (classified_sampleAnswers [.rgb]) id).1 _ _ _ _ ?_).1
  refine .lookedUp ((sampleCamera "/devices/a" "/dev/video0").entry (sampleIds 0) .initial) ?_ ?_ ?_ ?_ ?_ <;>
    decide +kernel

end CameraInventory

end Irlume.Inventory

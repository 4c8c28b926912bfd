import Irlume.Live.Sound

/-!
# Live status hides what another account is doing

What the reader may see of a tracker is a relation between two of them; each call keeps it where the counts are
sound in both.
-/

namespace Irlume.Live

open Std Irlume.Lib Irlume.Diagnostics Function
open Irlume.Arbiter (CancelToken)

/-! ## What a reader may see -/

section

variable (p : Nat)

structure AlikeWorker (w₁ w₂ : Worker) : Prop where
  id : w₁.id = w₂.id
  owner : w₁.owner = w₂.owner
  startedMs : w₁.startedMs = w₂.startedMs
  cancelled : w₁.cancelled = w₂.cancelled
  kind : w₁.owner.visibleTo p = true → w₁.kind = w₂.kind

/-- Camera setup and qualification change what every account reads. -/
def ChangesShared (kind : LiveOperationKind) : Prop := kind = .cameraSetup ∨ kind = .captureQualification

instance (kind : LiveOperationKind) : Decidable (ChangesShared kind) := inferInstanceAs (Decidable (_ ∨ _))

def SameOperation (owner : Owner) (kind₁ kind₂ : LiveOperationKind) (changes₁ changes₂ : Bool) : Prop :=
  (kind₁ = kind₂ ∧ changes₁ = changes₂) ∨
    owner.visibleTo p = false ∧ ¬ ChangesShared kind₁ ∧ ¬ ChangesShared kind₂ ∧
      (owner = .unresolved → changes₁ = changes₂)

structure AlikeRegistration (r₁ r₂ : Registration) : Prop where
  id : r₁.id = r₂.id
  owner : r₁.owner = r₂.owner
  lane : r₁.lane = r₂.lane
  phase : r₁.phase = r₂.phase
  operation : SameOperation p r₁.owner r₁.kind r₂.kind r₁.changesState r₂.changesState

structure AlikeInner (i₁ i₂ : Inner) : Prop where
  stage : i₁.stage = i₂.stage
  available : i₁.available = i₂.available
  shared : i₁.sharedRevision = i₂.sharedRevision
  own : i₁.changesOf p = i₂.changesOf p
  worker : Option.Rel (AlikeWorker p) i₁.worker i₂.worker
  background : List.Forall₂ (AlikeWorker p) i₁.background i₂.background

structure AlikeTracker (t₁ t₂ : Tracker) : Prop where
  daemonInstance : t₁.daemonInstance = t₂.daemonInstance
  nowMs : t₁.nowMs = t₂.nowMs
  token : t₁.token = t₂.token
  tokenSet : t₁.tokenSet = t₂.tokenSet
  inner : AlikeInner p t₁.inner t₂.inner
  registrations : ∀ address, Option.Rel (AlikeRegistration p) (t₁.registrations address) (t₂.registrations address)

end

variable {p : Nat}

theorem SameOperation.visibleKind {owner : Owner} {kind₁ kind₂ : LiveOperationKind} {changes₁ changes₂ : Bool}
    (h : SameOperation p owner kind₁ kind₂ changes₁ changes₂) : visibleKind kind₁ owner p = visibleKind kind₂ owner p := by
  rcases h with ⟨rfl, rfl⟩ | ⟨hhidden, -⟩
  · rfl
  · simp [Live.visibleKind, hhidden]

def movedReaders (r : Registration) : Option ChangeReaders :=
  if r.changesState then some (changeReaders r.kind r.owner) else none

theorem AlikeRegistration.moved (hp : p ≠ 0) {r₁ r₂ : Registration} (h : AlikeRegistration p r₁ r₂) :
    (movedReaders r₁ = some .every ↔ movedReaders r₂ = some .every) ∧
      (movedReaders r₁ = some (.account p) ↔ movedReaders r₂ = some (.account p)) := by
  rcases h.operation with ⟨hkind, hchanges⟩ | ⟨hhidden, hkind₁, hkind₂, hunresolved⟩
  · simp only [movedReaders, hkind, hchanges, h.owner, iff_self, and_self]
  · rw [h.owner] at hhidden hunresolved
    have hreaders : ∀ kind, ¬ ChangesShared kind →
        changeReaders kind r₂.owner = changeReaders .authentication r₂.owner := fun kind hkind => by
      unfold changeReaders
      have hshared : ¬ ChangesShared .authentication := by decide
      exact (if_neg hkind).trans (if_neg hshared).symm
    simp only [movedReaders, h.owner, hreaders _ hkind₁, hreaders _ hkind₂]
    unfold changeReaders
    cases howner : r₂.owner with
    | daemon => simp [howner, Owner.visibleTo] at hhidden
    | unresolved => simp [hunresolved howner]
    | account uid =>
      have huid : uid ≠ p := by
        rintro rfl
        simp [howner, Owner.visibleTo] at hhidden
      cases uid with
      | zero => simp
      | succ n => simp [huid]

theorem noteCompletion_spec {inner : Inner} {r : Registration}
    (hcounted : r.changesState = true →
      Inner.Counted inner (inner.noteChange r.kind r.owner) (changeReaders r.kind r.owner)) :
    Inner.SameView inner (Tracker.noteCompletion inner r) ∧
      (Tracker.noteCompletion inner r).sharedRevision =
        inner.sharedRevision + (movedReaders r = some .every : Bool).toNat ∧
      ∀ uid, (Tracker.noteCompletion inner r).changesOf uid =
        inner.changesOf uid + (movedReaders r = some (.account uid) : Bool).toNat := by
  rw [Tracker.noteCompletion, movedReaders]
  cases hchanges : r.changesState with
  | false => simpa using ⟨rfl, rfl, rfl, rfl, rfl⟩
  | true =>
    obtain ⟨hview, -, hshared, hchanges⟩ := hcounted hchanges
    simpa using ⟨hview, hshared, hchanges⟩

namespace AlikeInner

variable {i₁ i₂ : Inner} {r₁ r₂ : Registration}

theorem noteCompletion (hp : p ≠ 0) (h : AlikeInner p i₁ i₂) (hr : AlikeRegistration p r₁ r₂)
    (hc₁ : r₁.changesState = true →
      Inner.Counted i₁ (i₁.noteChange r₁.kind r₁.owner) (changeReaders r₁.kind r₁.owner))
    (hc₂ : r₂.changesState = true →
      Inner.Counted i₂ (i₂.noteChange r₂.kind r₂.owner) (changeReaders r₂.kind r₂.owner)) :
    AlikeInner p (Tracker.noteCompletion i₁ r₁) (Tracker.noteCompletion i₂ r₂) := by
  obtain ⟨hview₁, hshared₁, hchanges₁⟩ := noteCompletion_spec hc₁
  obtain ⟨hview₂, hshared₂, hchanges₂⟩ := noteCompletion_spec hc₂
  obtain ⟨hevery, hown⟩ := hr.moved hp
  exact {
    stage := by rw [hview₁.stage, hview₂.stage, h.stage]
    available := by rw [hview₁.available, hview₂.available, h.available]
    shared := by rw [hshared₁, hshared₂, h.shared, decide_eq_decide.2 hevery]
    own := by rw [hchanges₁, hchanges₂, h.own, decide_eq_decide.2 hown]
    worker := by rw [hview₁.worker, hview₂.worker]; exact h.worker
    background := by rw [hview₁.background, hview₂.background]; exact h.background }

section

variable (h : AlikeInner p i₁ i₂)

include h

theorem unavailable :
    AlikeInner p { i₁ with available := false } { i₂ with available := false } :=
  { stage := h.stage, available := rfl, shared := h.shared, own := h.own, worker := h.worker,
    background := h.background }

theorem withWaiting (w₁ w₂ : ExtTreeMap WaitingKey Nat) :
    AlikeInner p { i₁ with waiting := w₁ } { i₂ with waiting := w₂ } :=
  { stage := h.stage, available := h.available, shared := h.shared, own := h.own, worker := h.worker,
    background := h.background }

theorem withWorker {w₁ w₂ : Option Worker} (hw : Option.Rel (AlikeWorker p) w₁ w₂) :
    AlikeInner p { i₁ with worker := w₁ } { i₂ with worker := w₂ } :=
  { stage := h.stage, available := h.available, shared := h.shared, own := h.own, worker := hw,
    background := h.background }

end

variable {b₁ b₂ : List Worker}

theorem withBackground (h : AlikeInner p i₁ i₂) (hb : List.Forall₂ (AlikeWorker p) b₁ b₂) :
    AlikeInner p { i₁ with background := b₁ } { i₂ with background := b₂ } :=
  { stage := h.stage, available := h.available, shared := h.shared, own := h.own, worker := h.worker,
    background := hb }

theorem any_worker {w₁ w₂ : Option Worker} (h : Option.Rel (AlikeWorker p) w₁ w₂) (P : Worker → Bool)
    (hP : ∀ w₁ w₂, AlikeWorker p w₁ w₂ → P w₁ = P w₂) : w₁.any P = w₂.any P := by
  cases h with
  | none => rfl
  | some hw => exact hP _ _ hw

theorem any_background (h : List.Forall₂ (AlikeWorker p) b₁ b₂) (P : Worker → Bool)
    (hP : ∀ w₁ w₂, AlikeWorker p w₁ w₂ → P w₁ = P w₂) : b₁.any P = b₂.any P := by
  induction h with
  | nil => rfl
  | cons hw _ ih => rw [List.any_cons, List.any_cons, hP _ _ hw, ih]

theorem duplicateId (h : AlikeInner p i₁ i₂) (id : OperationId) :
    Tracker.duplicateId i₁ id = Tracker.duplicateId i₂ id := by
  rw [Tracker.duplicateId, Tracker.duplicateId, any_worker h.worker _ fun _ _ hw => by rw [hw.id],
    any_background h.background _ fun _ _ hw => by rw [hw.id]]

theorem full (h : AlikeInner p i₁ i₂) (lane : Lane) : Tracker.full i₁ lane = Tracker.full i₂ lane := by
  cases lane with
  | worker =>
    have hsome := any_worker h.worker (fun _ => true) fun _ _ _ => rfl
    simpa [Tracker.full] using hsome
  | background => simp [Tracker.full, h.background.length_eq]

section

variable (h : List.Forall₂ (AlikeWorker p) b₁ b₂)

include h

theorem markFirst (id : OperationId) :
    List.Forall₂ (AlikeWorker p) (Tracker.markFirst id b₁) (Tracker.markFirst id b₂) := by
  induction h with
  | nil => exact .nil
  | @cons w₁ w₂ b₁ b₂ hw hb ih =>
    rw [Tracker.markFirst, Tracker.markFirst]
    by_cases hid : w₂.id = id
    · rw [if_pos (hw.id.trans hid), if_pos hid]
      exact .cons { hw with cancelled := rfl } hb
    · rw [if_neg fun h => hid (hw.id.symm.trans h), if_neg hid]
      exact .cons hw ih

theorem rel_getElem? (index : Nat) :
    Option.Rel (AlikeWorker p) b₁[index]? b₂[index]? := by
  induction h generalizing index with
  | nil => exact .none
  | cons hw _ ih =>
    cases index with
    | zero => exact .some hw
    | succ index => exact ih index

theorem forall₂_set {w₁ w₂ : Worker}
    (hw : AlikeWorker p w₁ w₂) (index : Nat) : List.Forall₂ (AlikeWorker p) (b₁.set index w₁) (b₂.set index w₂) := by
  induction h generalizing index with
  | nil => exact .nil
  | cons hfirst hrest ih =>
    cases index with
    | zero => exact .cons hw hrest
    | succ index => exact .cons hfirst (ih index)

theorem swapRemove (index : Nat) :
    List.Forall₂ (AlikeWorker p) (Lib.swapRemove b₁ index) (Lib.swapRemove b₂ index) := by
  have hlast : Option.Rel (AlikeWorker p) b₁.getLast? b₂.getLast? := by
    rw [List.getLast?_eq_getElem?, List.getLast?_eq_getElem?, h.length_eq]
    exact rel_getElem? h _
  unfold Lib.swapRemove
  revert hlast
  generalize b₁.getLast? = last₁
  generalize b₂.getLast? = last₂
  intro hlast
  cases hlast with
  | none => exact .nil
  | some hw =>
    simp only [List.dropLast_eq_take, List.length_set, h.length_eq]
    exact List.forall₂_take _ (forall₂_set h hw index)

theorem findIdx? (id : OperationId) :
    (b₁.findIdx? fun task => task.id = id) = b₂.findIdx? fun task => task.id = id := by
  induction h with
  | nil => rfl
  | cons hw _ ih => rw [List.findIdx?_cons, List.findIdx?_cons, hw.id, ih]

end

theorem release (h : AlikeInner p i₁ i₂) (hr : AlikeRegistration p r₁ r₂) :
    AlikeInner p (Tracker.release i₁ r₁) (Tracker.release i₂ r₂) := by
  have hany := any_worker h.worker (fun worker => worker.id = r₂.id) fun _ _ hw => by rw [hw.id]
  rw [Tracker.release, Tracker.release, hr.lane, hr.id, hany, findIdx? h.background]
  split
  · split
    · exact h.withWorker .none
    · exact h.unavailable
  · split
    · exact h.withBackground (swapRemove h.background _)
    · exact h.unavailable

end AlikeInner

theorem AlikeRegistration.withPhase {r₁ r₂ : Registration} (h : AlikeRegistration p r₁ r₂) (phase : Phase) :
    AlikeRegistration p { r₁ with phase } { r₂ with phase } :=
  { id := h.id, owner := h.owner, lane := h.lane, phase := rfl, operation := h.operation }

/-! ## One step of two trackers -/

namespace AlikeTracker

variable {t₁ t₂ : Tracker} {r₁ r₂ : Registration} {address : Address} {accounts : Finset Nat}

section

variable (h : AlikeTracker p t₁ t₂)

include h

theorem withInner {i₁ i₂ : Inner} (hi : AlikeInner p i₁ i₂) :
    AlikeTracker p { t₁ with inner := i₁ } { t₂ with inner := i₂ } :=
  { h with inner := hi }

theorem updated {s₁ s₂ : Option Registration}
    (hs : Option.Rel (AlikeRegistration p) s₁ s₂) (address other : Address) :
    Option.Rel (AlikeRegistration p) (update t₁.registrations address s₁ other)
      (update t₂.registrations address s₂ other) := by
  by_cases hother : other = address
  · subst hother
    rwa [update_self, update_self]
  · rw [update_of_ne hother, update_of_ne hother]
    exact h.registrations other

variable (hr : AlikeRegistration p r₁ r₂)

include hr

theorem moved (address : Address) (phase : Phase)
    {i₁ i₂ : Inner} (hi : AlikeInner p i₁ i₂) :
    AlikeTracker p { t₁.setPhase address r₁ phase with inner := i₁ }
      { t₂.setPhase address r₂ phase with inner := i₂ } :=
  { daemonInstance := h.daemonInstance, nowMs := h.nowMs, token := h.token, tokenSet := h.tokenSet, inner := hi,
    registrations := fun other => h.updated (.some (hr.withPhase phase)) address other }

theorem waiting (hs₁ : Sound accounts t₁)
    (hs₂ : Sound accounts t₂) (hr₁ : t₁.registrations address = some r₁)
    (hr₂ : t₂.registrations address = some r₂) :
    AlikeTracker p (t₁.waiting address r₁) (t₂.waiting address r₂) := by
  rw [Tracker.waiting, Tracker.waiting, hr.phase, hr.lane]
  split
  · exact h
  · next hphase =>
    split
    · exact h.withInner h.inner.unavailable
    · have hcreated : r₂.phase = .created := not_not.1 hphase
      obtain ⟨w₁, heq₁, -⟩ := hs₁.exact.addWaiter card_address hr₁ (hr.phase.trans hcreated)
      obtain ⟨w₂, heq₂, -⟩ := hs₂.exact.addWaiter card_address hr₂ hcreated
      rw [heq₁, heq₂]
      exact h.moved hr address .waiting (h.inner.withWaiting w₁ w₂)

theorem claim (address : Address) :
    AlikeTracker p (t₁.claim address r₁) (t₂.claim address r₂) := by
  have hworker : AlikeWorker p
      { id := r₁.id, kind := r₁.kind, owner := r₁.owner, startedMs := t₁.nowMs, cancelled := false }
      { id := r₂.id, kind := r₂.kind, owner := r₂.owner, startedMs := t₂.nowMs, cancelled := false } :=
    { id := hr.id
      owner := hr.owner
      startedMs := h.nowMs
      cancelled := rfl
      kind := fun hvisible => by
        rcases hr.operation with ⟨hkind, -⟩ | ⟨hhidden, -⟩
        · exact hkind
        · rw [hhidden] at hvisible
          cases hvisible }
  rw [Tracker.claim, Tracker.claim, hr.id, hr.lane, h.inner.duplicateId, h.inner.full]
  split
  · exact h.moved hr address .untracked h.inner.unavailable
  · dsimp only
    split
    · exact h.moved hr address .running (h.inner.withWorker (.some (hr.id ▸ hworker)))
    · exact h.moved hr address .running
        (h.inner.withBackground (List.rel_append h.inner.background (.cons (hr.id ▸ hworker) .nil)))

theorem running (hs₁ : Sound accounts t₁)
    (hs₂ : Sound accounts t₂) (hr₁ : t₁.registrations address = some r₁)
    (hr₂ : t₂.registrations address = some r₂) :
    AlikeTracker p (t₁.running address r₁) (t₂.running address r₂) := by
  rw [Tracker.running, Tracker.running, hr.phase]
  split
  · next hphase =>
    obtain ⟨w₁, heq₁, -⟩ := hs₁.leaves hr₁ (hr.phase.trans hphase)
    obtain ⟨w₂, heq₂, -⟩ := hs₂.leaves hr₂ hphase
    rw [heq₁, heq₂]
    exact (h.withInner (h.inner.withWaiting w₁ w₂)).claim hr address
  · exact h.claim hr address
  · exact h

theorem cancel :
    AlikeTracker p (t₁.cancel r₁) (t₂.cancel r₂) := by
  rw [Tracker.cancel, Tracker.cancel, hr.phase, hr.lane, hr.id]
  split
  · exact h
  · split
    · refine h.withInner (h.inner.withWorker ?_)
      have hworker := h.inner.worker
      generalize t₁.inner.worker = w₁ at hworker ⊢
      generalize t₂.inner.worker = w₂ at hworker ⊢
      cases hworker with
      | none => exact .none
      | @some w₁ w₂ hw =>
        refine .some ?_
        dsimp only
        by_cases hid : w₂.id = r₂.id
        · rw [if_pos (hw.id.trans hid), if_pos hid]
          exact { hw with cancelled := rfl }
        · rw [if_neg fun heq => hid (hw.id.symm.trans heq), if_neg hid]
          exact hw
    · exact h.withInner (h.inner.withBackground (AlikeInner.markFirst h.inner.background _))

end

theorem finishInner (hp : p ≠ 0) (hcard : accounts.card ≤ maxRevisionAccounts) (h : AlikeTracker p t₁ t₂)
    (hr : AlikeRegistration p r₁ r₂) (hs₁ : Sound accounts t₁) (hs₂ : Sound accounts t₂)
    (hr₁ : t₁.registrations address = some r₁) (hr₂ : t₂.registrations address = some r₂)
    (hrev₁ : t₁.notes (.guard address .finish) = true → t₁.inner.revision ≠ u64Max)
    (hrev₂ : t₂.notes (.guard address .finish) = true → t₂.inner.revision ≠ u64Max) :
    AlikeInner p (Tracker.finishInner t₁.inner r₁) (Tracker.finishInner t₂.inner r₂) := by
  have hnotes : ∀ {t : Tracker} {r : Registration}, Sound accounts t → t.registrations address = some r →
      (t.notes (.guard address .finish) = true → t.inner.revision ≠ u64Max) →
      r.phase = .running ∨ r.phase = .untracked → ∀ inner : Inner,
      inner.accountRevisions = t.inner.accountRevisions → inner.revision = t.inner.revision →
      r.changesState = true → Inner.Counted inner (inner.noteChange r.kind r.owner) (changeReaders r.kind r.owner) := by
    intro t r hs hreg hrev hphase inner haccounts hrevision hchanges
    refine hs.counts hcard hreg ?_ haccounts
    rw [hrevision]
    refine hrev ?_
    change (t.registrations address).any _ = true
    rw [hreg, Option.any_some, hchanges, Bool.and_true]
    rcases hphase with hphase | hphase <;> rw [hphase] <;> rfl
  have hrelease : ∀ (inner : Inner) (r : Registration),
      (Tracker.release inner r).accountRevisions = inner.accountRevisions ∧
        (Tracker.release inner r).revision = inner.revision := by
    intro inner r
    rw [Tracker.release]
    split <;> split <;> exact ⟨rfl, rfl⟩
  unfold Tracker.finishInner
  rw [hr.phase]
  split
  · next hphase =>
    obtain ⟨w₁, heq₁, -⟩ := hs₁.leaves hr₁ (hr.phase.trans hphase)
    obtain ⟨w₂, heq₂, -⟩ := hs₂.leaves hr₂ hphase
    rw [heq₁, heq₂]
    exact h.inner.withWaiting w₁ w₂
  · next hphase =>
    refine AlikeInner.noteCompletion hp (h.inner.release hr) hr ?_ ?_
    · exact hnotes hs₁ hr₁ hrev₁ (.inl (hr.phase.trans hphase)) _ (hrelease _ _).1 (hrelease _ _).2
    · exact hnotes hs₂ hr₂ hrev₂ (.inl hphase) _ (hrelease _ _).1 (hrelease _ _).2
  · next hphase =>
    refine AlikeInner.noteCompletion hp h.inner hr ?_ ?_
    · exact hnotes hs₁ hr₁ hrev₁ (.inr (hr.phase.trans hphase)) _ rfl rfl
    · exact hnotes hs₂ hr₂ hrev₂ (.inr hphase) _ rfl rfl
  · exact h.inner

theorem guardCall (hp : p ≠ 0) (hcard : accounts.card ≤ maxRevisionAccounts) (h : AlikeTracker p t₁ t₂)
    (hs₁ : Sound accounts t₁) (hs₂ : Sound accounts t₂) {call : GuardCall}
    (hw₁ : Within accounts t₁ (.guard address call)) (hw₂ : Within accounts t₂ (.guard address call))
    (hr₁ : t₁.registrations address = some r₁) (hr₂ : t₂.registrations address = some r₂) :
    AlikeTracker p (t₁.guardCall address r₁ call) (t₂.guardCall address r₂ call) := by
  have hr : AlikeRegistration p r₁ r₂ := by
    have hrel := h.registrations address
    rw [hr₁, hr₂] at hrel
    cases hrel with
    | some hr => exact hr
  cases call with
  | waiting => exact h.waiting hr hs₁ hs₂ hr₁ hr₂
  | running => exact h.running hr hs₁ hs₂ hr₁ hr₂
  | cancel => exact h.cancel hr
  | finish => exact h.moved hr address .finished (h.finishInner hp hcard hr hs₁ hs₂ hr₁ hr₂ hw₁.revision hw₂.revision)
  | drop =>
    have hfinished :=
      h.moved hr address .finished (h.finishInner hp hcard hr hs₁ hs₂ hr₁ hr₂ hw₁.revision hw₂.revision)
    exact { hfinished with registrations := fun other => hfinished.updated .none address other }

theorem registered (h : AlikeTracker p t₁ t₂) {id : OperationId} {kind₁ kind₂ : LiveOperationKind}
    {changes₁ changes₂ : Bool} {owner : Owner} {lane : Lane} {t₁' t₂' : Tracker}
    (hsame : SameOperation p owner kind₁ kind₂ changes₁ changes₂)
    (h₁ : t₁.register? address id kind₁ changes₁ owner lane = some t₁')
    (h₂ : t₂.register? address id kind₂ changes₂ owner lane = some t₂') : AlikeTracker p t₁' t₂' := by
  have hnew : ∀ {t t' : Tracker} {kind : LiveOperationKind} {changes : Bool},
      t.register? address id kind changes owner lane = some t' →
      t' = t.registerInLane address id kind changes owner lane := by
    intro t t' kind changes hstep
    rw [Tracker.register?] at hstep
    split at hstep
    · exact (Option.some.inj hstep).symm
    · cases hstep
  obtain rfl := hnew h₁
  obtain rfl := hnew h₂
  have hregistration : AlikeRegistration p
      { id, kind := kind₁, owner, changesState := changes₁, lane, phase := .created }
      { id, kind := kind₂, owner, changesState := changes₂, lane, phase := .created } :=
    { id := rfl, owner := rfl, lane := rfl, phase := rfl, operation := hsame }
  exact { h with registrations := fun other => h.updated (.some hregistration) address other }

theorem noteSharedChange (h : AlikeTracker p t₁ t₂) (hrev₁ : t₁.inner.revision ≠ u64Max)
    (hrev₂ : t₂.inner.revision ≠ u64Max) : AlikeTracker p t₁.noteSharedChange t₂.noteSharedChange := by
  obtain ⟨hv₁, -, hshared₁, hchanges₁⟩ := t₁.inner.counted_noteSharedChange hrev₁
  obtain ⟨hv₂, -, hshared₂, hchanges₂⟩ := t₂.inner.counted_noteSharedChange hrev₂
  exact h.withInner {
    stage := by rw [hv₁.stage, hv₂.stage, h.inner.stage]
    available := by rw [hv₁.available, hv₂.available, h.inner.available]
    shared := by rw [hshared₁, hshared₂, h.inner.shared]
    own := by rw [hchanges₁, hchanges₂, h.inner.own]
    worker := by rw [hv₁.worker, hv₂.worker]; exact h.inner.worker
    background := by rw [hv₁.background, hv₂.background]; exact h.inner.background }

end AlikeTracker

/-! ## The views -/

namespace AlikeTracker

variable {t₁ t₂ : Tracker} {accounts : Finset Nat}

variable {w₁ w₂ : Worker}

theorem visibleKind_worker (h : AlikeWorker p w₁ w₂) :
    visibleKind w₁.kind w₂.owner p = visibleKind w₂.kind w₂.owner p := by
  rw [visibleKind, visibleKind]
  cases hvisible : w₂.owner.visibleTo p with
  | false => rfl
  | true => rw [h.kind (h.owner ▸ hvisible)]

theorem waits_eq (h : AlikeTracker p t₁ t₂) (P : WaitingKey → Bool)
    (hP : ∀ kind₁ kind₂ owner, visibleKind kind₁ owner p = visibleKind kind₂ owner p →
      P (kind₁, owner) = P (kind₂, owner)) (address : Address) :
    Waits P (t₁.registrations address) = Waits P (t₂.registrations address) := by
  have hrel := h.registrations address
  generalize t₁.registrations address = r₁ at hrel ⊢
  generalize t₂.registrations address = r₂ at hrel ⊢
  cases hrel with
  | none => rfl
  | some hr =>
    rw [Waits, Waits, Option.any_some, Option.any_some, hr.phase, hP _ _ _ hr.operation.visibleKind, hr.owner]

theorem waitingRows_eq (h : AlikeTracker p t₁ t₂) (hs₁ : Sound accounts t₁) (hs₂ : Sound accounts t₂) :
    waitingRows p t₁.inner.waiting = waitingRows p t₂.inner.waiting := by
  refine ExtTreeMap.ext_getElem? fun kind => ?_
  rw [hs₁.exact.waitingRows_getElem?, hs₂.exact.waitingRows_getElem?,
    waiters_congr (h.waits_eq _ fun _ _ _ heq => by simp only [heq])]

theorem any_keys_iff {t : Tracker} (hs : Sound accounts t) (P : WaitingKey → Bool) :
    t.inner.waiting.keys.any P = true ↔ ∃ address, Waits P (t.registrations address) = true := by
  rw [List.any_eq_true]
  constructor
  · rintro ⟨key, hkey, hP⟩
    obtain ⟨address, hwaits⟩ := hs.exact.mem_iff.1 (ExtTreeMap.mem_keys.1 hkey)
    obtain ⟨hself, rfl⟩ := waits_eq_iff.1 hwaits
    exact ⟨address, waits_iff.2 ⟨hself, hP⟩⟩
  · rintro ⟨address, hwaits⟩
    obtain ⟨hself, hP⟩ := waits_iff.1 hwaits
    exact ⟨_, ExtTreeMap.mem_keys.2 (hs.exact.mem_iff.2 ⟨address, hself⟩), hP⟩

theorem workerOperation_eq (h : AlikeTracker p t₁ t₂) (hw : AlikeWorker p w₁ w₂) :
    t₁.workerOperation p w₁ = t₂.workerOperation p w₂ := by
  simp only [Tracker.workerOperation, hw.id, hw.startedMs, hw.cancelled, hw.owner, visibleKind_worker hw, h.nowMs,
    h.token, h.tokenSet]

theorem backgroundOperation_eq (h : AlikeTracker p t₁ t₂) (hw : AlikeWorker p w₁ w₂) :
    t₁.backgroundOperation p w₁ = t₂.backgroundOperation p w₂ := by
  simp only [Tracker.backgroundOperation, hw.id, hw.startedMs, hw.cancelled, hw.owner,
    visibleKind_worker hw, h.nowMs]

theorem snapshotFor_eq (hp : p ≠ 0) (h : AlikeTracker p t₁ t₂) (hs₁ : Sound accounts t₁) (hs₂ : Sound accounts t₂)
    {Cameras : Type} (cameras : Cameras) : t₁.snapshotFor p cameras = t₂.snapshotFor p cameras := by
  have hworker : t₁.inner.worker.map (t₁.workerOperation p) = t₂.inner.worker.map (t₂.workerOperation p) := by
    have hrel := h.inner.worker
    generalize t₁.inner.worker = w₁ at hrel ⊢
    generalize t₂.inner.worker = w₂ at hrel ⊢
    cases hrel with
    | none => rfl
    | some hw => rw [Option.map_some, Option.map_some, h.workerOperation_eq hw]
  have hbackground : t₁.inner.background.map (t₁.backgroundOperation p) =
      t₂.inner.background.map (t₂.backgroundOperation p) := by
    have hrel := h.inner.background
    generalize t₁.inner.background = b₁ at hrel ⊢
    generalize t₂.inner.background = b₂ at hrel ⊢
    induction hrel with
    | nil => rfl
    | cons hw _ ih => rw [List.map_cons, List.map_cons, h.backgroundOperation_eq hw, ih]
  have hrevision : t₁.inner.revisionFor p = t₂.inner.revisionFor p := by
    rw [Inner.revisionFor, Inner.revisionFor, if_neg hp, if_neg hp, h.inner.shared]
    exact congrArg _ h.inner.own
  simp only [Tracker.snapshotFor, h.daemonInstance, h.nowMs, hrevision, h.inner.stage, hworker, hbackground,
    h.waitingRows_eq hs₁ hs₂, h.inner.available]

theorem showsUnknownWork_eq (h : AlikeTracker p t₁ t₂) (hs₁ : Sound accounts t₁) (hs₂ : Sound accounts t₂) :
    t₁.showsUnknownWork p = t₂.showsUnknownWork p := by
  have hkeys : (t₁.inner.waiting.keys.any fun key => !key.2.visibleTo p) =
      t₂.inner.waiting.keys.any fun key => !key.2.visibleTo p := by
    rw [Bool.eq_iff_iff, any_keys_iff hs₁, any_keys_iff hs₂]
    simp only [h.waits_eq (fun key => !key.2.visibleTo p) fun _ _ _ _ => rfl]
  simp only [Tracker.showsUnknownWork, Inner.showsUnknownWork, hkeys,
    AlikeInner.any_worker h.inner.worker (fun worker => !worker.owner.visibleTo p) fun _ _ hw => by rw [hw.owner],
    AlikeInner.any_background h.inner.background (fun task => !task.owner.visibleTo p) fun _ _ hw => by rw [hw.owner]]

end AlikeTracker

/-! ## Two runs -/

/-- Steps that differ at most in the kind and the flag of an operation the reader may not see. -/
inductive Step.Alike (p : Nat) : Step → Step → Prop where
  | same (e : Step) : Alike p e e
  | hidden {address : Address} {id : OperationId} {owner : Owner} {kind₁ kind₂ : LiveOperationKind}
      {changes₁ changes₂ : Bool} (hvisible : owner.visibleTo p = false) (hkind₁ : ¬ ChangesShared kind₁)
      (hkind₂ : ¬ ChangesShared kind₂) :
      Alike p (.register address id kind₁ changes₁ owner) (.register address id kind₂ changes₂ owner)

def Step.unresolvedChange : Step → Bool
  | .register _ _ _ changesState .unresolved => changesState
  | _ => false

theorem AlikeTracker.step (hp : p ≠ 0) {accounts : Finset Nat} (hcard : accounts.card ≤ maxRevisionAccounts)
    {t₁ t₂ t₁' t₂' : Tracker} {e₁ e₂ : Step} (h : AlikeTracker p t₁ t₂) (hs₁ : Sound accounts t₁)
    (hs₂ : Sound accounts t₂) (he : Step.Alike p e₁ e₂) (hunresolved : e₁.unresolvedChange = e₂.unresolvedChange)
    (hw₁ : Within accounts t₁ e₁) (hw₂ : Within accounts t₂ e₂) (hstep₁ : t₁.step e₁ = some t₁')
    (hstep₂ : t₂.step e₂ = some t₂') : AlikeTracker p t₁' t₂' := by
  cases he with
  | hidden hvisible hkind₁ hkind₂ =>
    refine h.registered (.inr ⟨hvisible, hkind₁, hkind₂, ?_⟩) hstep₁ hstep₂
    rintro rfl
    exact hunresolved
  | same =>
    cases e₁ with
    | register address id kind changesState owner => exact h.registered (.inl ⟨rfl, rfl⟩) hstep₁ hstep₂
    | registerBackground address id => exact h.registered (.inl ⟨rfl, rfl⟩) hstep₁ hstep₂
    | guard address call =>
      obtain ⟨r₁, hr₁, rfl⟩ := Option.map_eq_some_iff.1 hstep₁
      obtain ⟨r₂, hr₂, rfl⟩ := Option.map_eq_some_iff.1 hstep₂
      exact h.guardCall hp hcard hs₁ hs₂ hw₁ hw₂ hr₁ hr₂
    | noteSharedChange =>
      cases hstep₁
      cases hstep₂
      exact h.noteSharedChange (hw₁.revision rfl) (hw₂.revision rfl)
    | setStage stage =>
      cases hstep₁
      cases hstep₂
      rw [Tracker.setStage, Tracker.setStage, h.inner.stage]
      split
      · exact h.withInner { h.inner with stage := rfl }
      · exact h
    | setCancelToken =>
      cases hstep₁
      cases hstep₂
      exact { h with tokenSet := rfl }
    | tick nowMs =>
      cases hstep₁
      cases hstep₂
      exact { h with nowMs := rfl }
    | _ =>
      cases hstep₁
      cases hstep₂
      exact { h with token := by simp only [h.token] }

/-! ## How often the revision moves -/

def changesIn (t : Tracker) (es : List Step) : Nat := (steps Tracker.step t es).countP fun x => x.1.notes x.2

theorem revision_noteChange (inner : Inner) (kind : LiveOperationKind) (owner : Owner) :
    (inner.noteChange kind owner).revision ≤ inner.revision + 1 := by
  have hmake : ∀ (i : Inner) (uid : Nat), (i.makeRoom uid).revision = i.revision := by
    intro i uid
    rw [Inner.makeRoom]
    split
    · rw [Inner.evictOldest]
      split <;> rfl
    · rfl
  rw [Inner.noteChange]
  split
  · exact Nat.le_succ _
  · split
    · exact Nat.le_refl _
    · exact Nat.le_of_eq (hmake _ _)
    · exact Nat.le_refl _

theorem revision_removeWaiter (inner : Inner) (key : WaitingKey) : (inner.removeWaiter key).revision = inner.revision := by
  rw [Inner.removeWaiter]
  split
  · split <;> rfl
  · rfl

theorem revision_addWaiter (inner : Inner) (key : WaitingKey) : (inner.addWaiter key).revision = inner.revision := by
  unfold Inner.addWaiter
  dsimp only
  split <;> rfl

theorem revision_claim (t : Tracker) (address : Address) (r : Registration) :
    (t.claim address r).inner.revision = t.inner.revision := by
  rw [Tracker.claim]
  split
  · rfl
  · dsimp only
    split <;> rfl

theorem revision_finishInner (inner : Inner) (r : Registration) :
    (Tracker.finishInner inner r).revision ≤
      inner.revision + ((r.phase = .running || r.phase = .untracked) && r.changesState : Bool).toNat := by
  have hnoted : ∀ i : Inner, (Tracker.noteCompletion i r).revision ≤ i.revision + r.changesState.toNat := by
    intro i
    rw [Tracker.noteCompletion]
    cases r.changesState with
    | false => exact Nat.le_refl _
    | true => exact revision_noteChange _ _ _
  have hrelease : (Tracker.release inner r).revision = inner.revision := by
    rw [Tracker.release]
    split <;> split <;> rfl
  unfold Tracker.finishInner
  split
  · rw [revision_removeWaiter]
    omega
  · next hphase => simpa [hphase, hrelease] using hnoted (Tracker.release inner r)
  · next hphase => simpa [hphase] using hnoted inner
  · omega

theorem revision_step {t t' : Tracker} {e : Step} (hstep : t.step e = some t') :
    t'.inner.revision ≤ t.inner.revision + (t.notes e).toNat := by
  have hregister : ∀ {address id kind changes owner lane}, t.register? address id kind changes owner lane = some t' →
      t'.inner = t.inner := by
    intro address id kind changes owner lane h
    rw [Tracker.register?] at h
    split at h
    · rw [← Option.some.inj h]
      rfl
    · cases h
  cases e with
  | register address id kind changesState owner =>
    rw [hregister hstep]
    omega
  | registerBackground address id =>
    rw [hregister hstep]
    omega
  | guard address call =>
    obtain ⟨r, hr, rfl⟩ := Option.map_eq_some_iff.1 hstep
    cases call with
    | waiting =>
      refine Nat.le_trans (Nat.le_of_eq ?_) (Nat.le_add_right _ _)
      change (t.waiting address r).inner.revision = _
      rw [Tracker.waiting]
      split
      · rfl
      · split
        · rfl
        · exact revision_addWaiter _ _
    | running =>
      refine Nat.le_trans (Nat.le_of_eq ?_) (Nat.le_add_right _ _)
      change (t.running address r).inner.revision = _
      rw [Tracker.running]
      split
      · rw [revision_claim]
        exact revision_removeWaiter _ _
      · exact revision_claim _ _ _
      · rfl
    | cancel =>
      refine Nat.le_trans (Nat.le_of_eq ?_) (Nat.le_add_right _ _)
      change (t.cancel r).inner.revision = _
      rw [Tracker.cancel]
      split
      · rfl
      · split <;> rfl
    | finish =>
      change _ ≤ _ + ((t.registrations address).any _).toNat
      rw [hr]
      exact revision_finishInner t.inner r
    | drop =>
      change _ ≤ _ + ((t.registrations address).any _).toNat
      rw [hr]
      exact revision_finishInner t.inner r
  | noteSharedChange =>
    cases hstep
    exact revision_noteChange _ _ _
  | setStage stage =>
    cases hstep
    refine Nat.le_trans (Nat.le_of_eq ?_) (Nat.le_add_right _ _)
    rw [Tracker.setStage]
    split <;> rfl
  | _ =>
    cases hstep
    exact Nat.le_add_right _ _

variable {es : List Step}

theorem revision_lt {t : Tracker} {x : Tracker × Step} (hx : x ∈ steps Tracker.step t es)
    (hnotes : x.1.notes x.2 = true) : x.1.inner.revision < t.inner.revision + changesIn t es := by
  induction es generalizing t with
  | nil => cases hx
  | cons e es ih =>
    unfold changesIn
    rw [steps] at hx ⊢
    cases hstep : t.step e with
    | none =>
      rw [hstep] at hx
      cases hx
    | some t' =>
      rw [hstep] at hx
      dsimp only
      rw [List.countP_cons]
      rcases List.mem_cons.1 hx with rfl | hx
      · simp only [hnotes, if_true]
        omega
      · have hlt := ih hx
        have hle := revision_step hstep
        rw [changesIn] at hlt
        cases hnotes' : t.notes e with
        | false =>
          simp only [hnotes', Bool.toNat_false, Bool.false_eq_true, if_false] at hle ⊢
          omega
        | true =>
          simp only [hnotes', Bool.toNat_true, if_true] at hle ⊢
          omega

/-! ## The claim -/

theorem within_of_run {accounts : Finset Nat} {t : Tracker} (hrevision : t.inner.revision = 0)
    (hchanges : changesIn t es ≤ u64Max) (haccounts : ∀ e ∈ es, ∀ uid, e.account? = some uid → uid ∈ accounts)
    {n : Nat} : ∀ x ∈ steps Tracker.step t (es.take n), Within accounts x.1 x.2 := by
  intro x hx
  have hmem : x ∈ steps Tracker.step t es := by
    obtain ⟨es₁, es₂, htake, hrun, hsome⟩ := mem_steps_iff.1 hx
    refine mem_steps_iff.2 ⟨es₁, es₂ ++ es.drop n, ?_, hrun, hsome⟩
    rw [← List.cons_append, ← List.append_assoc, ← htake, List.take_append_drop]
  refine { revision := fun hnotes => ?_, account := fun uid huid => ?_ }
  · have hlt := revision_lt hmem hnotes
    omega
  · obtain ⟨es₁, es₂, rfl, -, -⟩ := mem_steps_iff.1 hmem
    exact haccounts _ (List.mem_append_right _ List.mem_cons_self) uid huid

theorem mem_accountsOf {e : Step} (he : e ∈ es) {uid : Nat} (huid : e.account? = some uid) :
    uid ∈ accountsOf es :=
  List.mem_toFinset.2 (List.mem_filterMap.2 ⟨e, he, huid⟩)

theorem accountsOf_congr {es₁ es₂ : List Step} (h : List.Forall₂ (Step.Alike p) es₁ es₂) :
    accountsOf es₁ = accountsOf es₂ := by
  have hmap : es₁.filterMap Step.account? = es₂.filterMap Step.account? := by
    induction h with
    | nil => rfl
    | cons he _ ih =>
      rw [List.filterMap_cons, List.filterMap_cons, ih]
      cases he <;> rfl
  rw [accountsOf, accountsOf, hmap]

theorem AlikeTracker.refl_new (daemonInstance : OperationId) (nowMs : Nat) (token : CancelToken) :
    AlikeTracker p (Tracker.new daemonInstance nowMs token) (Tracker.new daemonInstance nowMs token) :=
  { daemonInstance := rfl
    nowMs := rfl
    token := rfl
    tokenSet := rfl
    inner := { stage := rfl, available := rfl, shared := rfl, own := rfl, worker := .none, background := .nil }
    registrations := fun _ => .none }

/-- **What others do does not show.** Two runs that differ only in the kind of operations a reader other than root
may not see, and in whether those of other accounts change state, give the reader the same live status after
every step: kinds that change what every account reads apart, with at most `maxRevisionAccounts` accounts and as
many completed changes as the revision can count. -/
theorem hidden_work_unseen (hp : p ≠ 0) {es₁ es₂ : List Step}
    (halike : List.Forall₂ (fun e₁ e₂ => Step.Alike p e₁ e₂ ∧ e₁.unresolvedChange = e₂.unresolvedChange) es₁ es₂)
    (haccounts : (accountsOf es₁).card ≤ maxRevisionAccounts) {daemonInstance : OperationId} {nowMs : Nat}
    {token : CancelToken} (hchanges₁ : changesIn (Tracker.new daemonInstance nowMs token) es₁ ≤ u64Max)
    (hchanges₂ : changesIn (Tracker.new daemonInstance nowMs token) es₂ ≤ u64Max) {n : Nat} {t₁ t₂ : Tracker}
    (hrun₁ : run Tracker.step (Tracker.new daemonInstance nowMs token) (es₁.take n) = some t₁)
    (hrun₂ : run Tracker.step (Tracker.new daemonInstance nowMs token) (es₂.take n) = some t₂)
    {Cameras : Type} (cameras : Cameras) :
    t₁.snapshotFor p cameras = t₂.snapshotFor p cameras ∧ t₁.showsUnknownWork p = t₂.showsUnknownWork p := by
  have hmem : ∀ e ∈ es₁, ∀ uid, e.account? = some uid → uid ∈ accountsOf es₁ := fun e he uid => mem_accountsOf he
  have hmem' : ∀ e ∈ es₂, ∀ uid, e.account? = some uid → uid ∈ accountsOf es₁ := fun e he uid huid => by
    rw [accountsOf_congr (halike.imp fun _ _ h => h.1)]
    exact mem_accountsOf he huid
  obtain ⟨halike, hs₁, hs₂⟩ := run_related
    (R := fun t₁ t₂ => AlikeTracker p t₁ t₂ ∧ Sound (accountsOf es₁) t₁ ∧ Sound (accountsOf es₁) t₂)
    (C := Within (accountsOf es₁)) (D := Within (accountsOf es₁))
    (fun ⟨h, hs₁, hs₂⟩ he hw₁ hw₂ hstep₁ hstep₂ =>
      ⟨h.step hp haccounts hs₁ hs₂ he.1 he.2 hw₁ hw₂ hstep₁ hstep₂, hs₁.step hw₁ hstep₁, hs₂.step hw₂ hstep₂⟩)
    (List.forall₂_take n halike) ⟨.refl_new _ _ _, .new, .new⟩ (within_of_run rfl hchanges₁ hmem)
    (within_of_run rfl hchanges₂ hmem') hrun₁ hrun₂
  exact ⟨halike.snapshotFor_eq hp hs₁ hs₂ cameras, halike.showsUnknownWork_eq hs₁ hs₂⟩

section Samples

theorem one_lt_addresses : 1 < 2 ^ 64 := by decide

theorem address_one_ne_zero : (⟨1, one_lt_addresses⟩ : Fin (2 ^ 64)) ≠ 0 := by decide

def sampleAddress : Address := .of ⟨1, one_lt_addresses⟩ address_one_ne_zero

def sampleId : OperationId := Vector.replicate 16 7

def emptyTracker : Tracker := Tracker.new sampleId 0 { yieldRequested := false, cancelRequested := false }

def operation (owner : Owner) (kind : LiveOperationKind) (changesState : Bool) : List Step :=
  [.register sampleAddress sampleId kind changesState owner, .guard sampleAddress .running,
    .guard sampleAddress .drop]

def trackerAfter (es : List Step) : Tracker := (run Tracker.step emptyTracker es).getD emptyTracker

theorem run_trackerAfter {es : List Step} (h : (run Tracker.step emptyTracker es).isSome = true) :
    run Tracker.step emptyTracker es = some (trackerAfter es) := by
  obtain ⟨t, ht⟩ := Option.isSome_iff_exists.1 h
  rw [trackerAfter, ht, Option.getD_some]

/-- Another account's enrollment while it runs, and its login. -/
theorem hidden_work_unseen_login :
    (trackerAfter ((operation (.account 1) .enrollment true).take 2)).snapshotFor 1000 () =
        (trackerAfter ((operation (.account 1) .authentication false).take 2)).snapshotFor 1000 () ∧
      (trackerAfter ((operation (.account 1) .enrollment true).take 2)).showsUnknownWork 1000 =
        (trackerAfter ((operation (.account 1) .authentication false).take 2)).showsUnknownWork 1000 :=
  hidden_work_unseen (by decide)
    (.cons ⟨.hidden rfl (by decide) (by decide), rfl⟩ (.cons ⟨.same _, rfl⟩ (.cons ⟨.same _, rfl⟩ .nil)))
    (by decide) (by decide) (by decide) (run_trackerAfter (by decide)) (run_trackerAfter (by decide)) ()

def rootOperations (n : Nat) (changesState : Bool) : List Step :=
  (List.replicate n (operation (.account 0) .enrollment changesState)).flatten

/-- Nothing is registered and nothing runs. -/
structure Tracker.Idle (t : Tracker) : Prop where
  registrations : t.registrations = fun _ => none
  worker : t.inner.worker = none
  background : t.inner.background = []

variable {t : Tracker}

theorem run_operation (h : t.Idle) (owner : Owner) (kind : LiveOperationKind)
    (changesState : Bool) :
    run Tracker.step t (operation owner kind changesState) =
      some { t with inner := if changesState then t.inner.noteChange kind owner else t.inner } := by
  obtain ⟨daemonInstance, nowMs, token, tokenSet, inner, registrations⟩ := t
  obtain ⟨stage, revision, sharedRevision, accountRevisions, waiting, worker, background, available⟩ := inner
  obtain ⟨rfl, rfl, rfl⟩ := h
  let inner : Inner :=
    { stage, revision, sharedRevision, accountRevisions, waiting, worker := none, background := [], available }
  have hnone : update (update (update (update (fun _ : Address => none)
      sampleAddress (some (⟨sampleId, kind, owner, changesState, .worker, .created⟩ : Registration)))
      sampleAddress (some ⟨sampleId, kind, owner, changesState, .worker, .running⟩))
      sampleAddress (some ⟨sampleId, kind, owner, changesState, .worker, .finished⟩))
      sampleAddress none = fun _ => none := by
    rw [update_idem, update_idem, update_idem, update_eq_self_iff]
  exact congrArg (fun registrations => some (
    { daemonInstance, nowMs, token, tokenSet, registrations
      inner := if changesState then inner.noteChange kind owner else inner } : Tracker)) hnone

theorem noteChange_root {inner : Inner} (h : inner.revision ≠ u64Max) :
    inner.noteChange .enrollment (.account 0) = { inner with revision := inner.revision + 1 } := by
  rw [Inner.noteChange, if_neg h]
  rfl

theorem run_rootOperations_idle (h : t.Idle) (n : Nat) :
    run Tracker.step t (rootOperations n false) = some t := by
  induction n with
  | zero => rfl
  | succ n ih =>
    rw [rootOperations, List.replicate_succ, List.flatten_cons, run_append, run_operation h]
    exact ih

theorem run_rootOperations (h : t.Idle) (n : Nat) (hn : t.inner.revision + n ≤ u64Max) :
    run Tracker.step t (rootOperations n true) =
      some { t with inner := { t.inner with revision := t.inner.revision + n } } := by
  induction n generalizing t with
  | zero => rfl
  | succ n ih =>
    rw [rootOperations, List.replicate_succ, List.flatten_cons, run_append, run_operation h, if_pos rfl,
      noteChange_root (by omega)]
    have hrest := ih (t := { t with inner := { t.inner with revision := t.inner.revision + 1 } })
      { registrations := h.registrations, worker := h.worker, background := h.background } (by simp only; omega)
    simp only [rootOperations, Nat.add_assoc, Nat.add_comm 1 n] at hrest
    exact hrest

/-- What uid 1000 reads at the end of a run, of the revision and of whether the tracking is available. -/
def readAfter (es : List Step) : Nat × Bool :=
  let snapshot := (trackerAfter es).snapshotFor 1000 ()
  (snapshot.stateRevision, snapshot.trackingAvailable)

theorem idle_emptyTracker : emptyTracker.Idle := { registrations := rfl, worker := rfl, background := rfl }

/-- The change after `u64::MAX` others is not counted. -/
theorem run_rootOperations_exhausted :
    run Tracker.step emptyTracker (rootOperations (2 ^ 64) true) =
      some { emptyTracker with inner := { emptyTracker.inner with revision := u64Max, available := false } } := by
  have hmax : 2 ^ 64 = u64Max + 1 := rfl
  have hfirst := run_rootOperations idle_emptyTracker u64Max (Nat.zero_add _).le
  rw [rootOperations] at hfirst
  rw [hmax, rootOperations, List.replicate_succ', List.flatten_concat, run_append, hfirst]
  exact run_operation (t := { emptyTracker with inner := { emptyTracker.inner with revision := u64Max } })
    { registrations := rfl, worker := rfl, background := rfl } (.account 0) .enrollment true

theorem alike_rootOperations (n : Nat) :
    List.Forall₂ (Step.Alike 1000) (rootOperations n true) (rootOperations n false) := by
  induction n with
  | zero => exact .nil
  | succ n ih =>
    rw [rootOperations, rootOperations, List.replicate_succ, List.replicate_succ, List.flatten_cons, List.flatten_cons]
    exact .cons (.hidden rfl (by decide) (by decide)) (.cons (.same _) (.cons (.same _) ih))

theorem accountsOf_rootOperations (n : Nat) (changesState : Bool) : accountsOf (rootOperations n changesState) ⊆ {0} := by
  intro uid huid
  obtain ⟨e, he, huid⟩ := List.mem_filterMap.1 (List.mem_toFinset.1 huid)
  obtain ⟨l, hl, he⟩ := List.mem_flatten.1 he
  obtain rfl := List.eq_of_mem_replicate hl
  simp only [operation, List.mem_cons, List.not_mem_nil, or_false] at he
  rcases he with rfl | rfl | rfl
  · exact Finset.mem_singleton.2 (Option.some.inj huid).symm
  · cases huid
  · cases huid

/-- **What does show**: whether an operation for an account that did not resolve changes state, and the change that
finds the revision exhausted. -/
theorem not_hidden_work_unseen :
    (List.Forall₂ (Step.Alike 1000) (operation .unresolved .enrollment true) (operation .unresolved .enrollment false) ∧
      readAfter (operation .unresolved .enrollment true) = (1, true) ∧
      readAfter (operation .unresolved .enrollment false) = (0, true)) ∧
    List.Forall₂ (Step.Alike 1000) (rootOperations (2 ^ 64) true) (rootOperations (2 ^ 64) false) ∧
      accountsOf (rootOperations (2 ^ 64) true) ⊆ {0} ∧
      readAfter (rootOperations (2 ^ 64) true) = (0, false) ∧
      readAfter (rootOperations (2 ^ 64) false) = (0, true) := by
  refine ⟨⟨.cons (.hidden rfl (by decide) (by decide)) (.cons (.same _) (.cons (.same _) .nil)), by decide, by decide⟩,
    alike_rootOperations _, accountsOf_rootOperations _ _, ?_, ?_⟩
  · rw [readAfter, trackerAfter, run_rootOperations_exhausted]
    rfl
  · rw [readAfter, trackerAfter, run_rootOperations_idle idle_emptyTracker]
    rfl

end Samples

end Irlume.Live

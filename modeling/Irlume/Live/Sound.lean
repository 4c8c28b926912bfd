import Irlume.Live.Counts

/-!
# Counts that are sound in every run

The waiting counts are exact, and the accounts with a revision are among those the run works for. Every step
keeps this, so in a run no count overflows, none is missing, and an account gives its revision up only where
more accounts than the bound are involved.
-/

namespace Irlume.Live

open Std Irlume.Lib Irlume.Diagnostics Function
open Irlume.Arbiter (CancelToken)

/-- The counts are exact, and only the accounts the run works for have a revision. -/
structure Sound (accounts : Finset Nat) (t : Tracker) : Prop where
  exact : Exact t.inner.waiting t.registrations
  counted : ∀ uid ∈ t.inner.accountRevisions, uid ∈ accounts
  owners : ∀ address r uid, t.registrations address = some r → r.owner = .account uid → uid ∈ accounts

def Step.account? : Step → Option Nat
  | .register _ _ _ _ owner => owner.account?
  | _ => none

def accountsOf (es : List Step) : Finset Nat := (es.filterMap Step.account?).toFinset

def Tracker.notes (t : Tracker) : Step → Bool
  | .guard address .finish | .guard address .drop =>
    (t.registrations address).any fun r => (r.phase = .running || r.phase = .untracked) && r.changesState
  | .noteSharedChange => true
  | _ => false

/-- What a step is taken under: the revision is not exhausted where it counts a change. -/
structure Within (accounts : Finset Nat) (t : Tracker) (e : Step) : Prop where
  revision : t.notes e = true → t.inner.revision ≠ u64Max
  account : ∀ uid, e.account? = some uid → uid ∈ accounts

theorem card_address : Fintype.card Address ≤ u64Max := by
  rw [Fintype.card_subtype_compl, Fintype.card_fin, Fintype.card_subtype_eq]
  exact Nat.le_refl _

theorem changeReaders_account {kind : LiveOperationKind} {owner : Owner} {uid : Nat}
    (h : changeReaders kind owner = .account uid) : owner = .account uid := by
  unfold changeReaders at h
  split at h
  · cases h
  · split at h <;> cases h
    rfl

namespace Sound

variable {accounts : Finset Nat} {t : Tracker} {address : Address} {r : Registration}

theorem leaves (h : Sound accounts t) (hr : t.registrations address = some r) (hphase : r.phase = .waiting) :
    ∃ waiting, t.inner.removeWaiter (r.kind, r.owner) = { t.inner with waiting } ∧
      ∀ r', (∀ P, Waits P r' = false) → Exact waiting (update t.registrations address r') := by
  obtain ⟨waiting, heq, hexact⟩ := h.exact.removeWaiter hr hphase (fun _ => rfl : ∀ P, Waits P none = false)
  refine ⟨waiting, heq, fun r' hr' => ?_⟩
  have hnone := hexact.update_of_not_waiting
    (fun P => by rw [update_self]; rfl : ∀ P, Waits P (update t.registrations address none address) = false) hr'
  rwa [update_idem] at hnone

variable {r' : Option Registration}

theorem stays (h : Sound accounts t) (hr : t.registrations address = some r)
    (hphase : r.phase ≠ .waiting) (hr' : ∀ P, Waits P r' = false) :
    Exact t.inner.waiting (update t.registrations address r') :=
  h.exact.update_of_not_waiting (fun P => by rw [hr, Exact.not_waits_of_phase hphase]) hr'

theorem owners_update (h : Sound accounts t) (hr : t.registrations address = some r)
    (howner : ∀ s, r' = some s → s.owner = r.owner) (other : Address) (s : Registration) (uid : Nat)
    (hs : update t.registrations address r' other = some s) (hs' : s.owner = .account uid) : uid ∈ accounts := by
  by_cases hother : other = address
  · subst hother
    rw [update_self] at hs
    exact h.owners _ _ uid hr ((howner s hs).symm.trans hs')
  · rw [update_of_ne hother] at hs
    exact h.owners _ _ uid hs hs'

variable {inner : Inner}

section

variable (h : Sound accounts t)

include h

theorem of_inner (hwaiting : inner.waiting = t.inner.waiting)
    (haccounts : inner.accountRevisions = t.inner.accountRevisions) : Sound accounts { t with inner } :=
  { exact := by rw [hwaiting]; exact h.exact
    counted := by rw [haccounts]; exact h.counted
    owners := h.owners }

section

variable (hr : t.registrations address = some r)

include hr

theorem waiting :
    Sound accounts (t.waiting address r) := by
  rw [Tracker.waiting]
  split
  · exact h
  · next hphase =>
    split
    · exact h.of_inner rfl rfl
    · obtain ⟨waiting, heq, hexact⟩ := h.exact.addWaiter card_address hr (not_not.1 hphase)
      rw [heq]
      exact { exact := hexact
              counted := h.counted
              owners := h.owners_update hr fun s hs => by rw [← Option.some.inj hs] }

theorem claim {waiting : ExtTreeMap WaitingKey Nat}
    (hexact : ∀ r', (∀ P, Waits P r' = false) → Exact waiting (update t.registrations address r')) :
    Sound accounts (({ t with inner := { t.inner with waiting } } : Tracker).claim address r) := by
  have howners := fun phase => h.owners_update hr
    (fun s hs => by rw [← Option.some.inj hs] : ∀ s, some { r with phase } = some s → s.owner = r.owner)
  have hphases : ∀ phase, phase ≠ .waiting →
      Exact waiting (update t.registrations address (some { r with phase })) := fun phase hphase =>
    hexact _ (Exact.not_waits_of_phase hphase)
  rw [Tracker.claim]
  split
  · exact { exact := hphases _ (by decide), counted := h.counted, owners := howners _ }
  · dsimp only
    split
    · exact { exact := hphases _ (by decide), counted := h.counted, owners := howners _ }
    · exact { exact := hphases _ (by decide), counted := h.counted, owners := howners _ }

theorem running :
    Sound accounts (t.running address r) := by
  rw [Tracker.running]
  split
  · next hphase =>
    obtain ⟨waiting, heq, hexact⟩ := h.leaves hr hphase
    rw [heq]
    exact h.claim hr hexact
  · next hphase => exact h.claim hr fun r' hr' => h.stays hr (by rw [hphase]; decide) hr'
  · exact h

end

theorem cancel : Sound accounts (t.cancel r) := by
  rw [Tracker.cancel]
  split
  · exact h
  · split <;> exact h.of_inner rfl rfl

theorem counts (hcard : accounts.card ≤ maxRevisionAccounts)
    (hr : t.registrations address = some r) (hrevision : inner.revision ≠ u64Max)
    (hinner : inner.accountRevisions = t.inner.accountRevisions) :
    Inner.Counted inner (inner.noteChange r.kind r.owner) (changeReaders r.kind r.owner) :=
  Inner.counted_noteChange hrevision fun uid hreaders =>
    Inner.room_of_card hcard (by rw [hinner]; exact h.counted) (h.owners _ _ uid hr (changeReaders_account hreaders))

end

theorem counted_noteCompletion (h : ∀ uid ∈ inner.accountRevisions, uid ∈ accounts)
    (howner : ∀ uid, r.owner = .account uid → uid ∈ accounts) :
    ∀ uid ∈ (Tracker.noteCompletion inner r).accountRevisions, uid ∈ accounts := by
  intro uid huid
  rw [Tracker.noteCompletion] at huid
  split at huid
  · rcases Inner.mem_noteChange huid with hmem | hreaders
    · exact h uid hmem
    · exact howner uid (changeReaders_account hreaders)
  · exact h uid huid

section

variable (h : Sound accounts t)

include h

theorem finished (hr : t.registrations address = some r)
    (hr' : ∀ P, Waits P r' = false) (howner : ∀ s, r' = some s → s.owner = r.owner) :
    Sound accounts { t with
      inner := Tracker.finishInner t.inner r
      registrations := update t.registrations address r' } := by
  have howners := h.owners_update hr howner
  have hfrom : ∀ uid, r.owner = .account uid → uid ∈ accounts := fun uid => h.owners _ _ uid hr
  have hrelease : (Tracker.release t.inner r).waiting = t.inner.waiting ∧
      (Tracker.release t.inner r).accountRevisions = t.inner.accountRevisions := by
    rw [Tracker.release]
    split <;> split <;> exact ⟨rfl, rfl⟩
  have hnoted : ∀ inner, (Tracker.noteCompletion inner r).waiting = inner.waiting := fun inner => by
    rw [Tracker.noteCompletion]
    split
    · exact (Inner.tracked_noteChange _ _ _).1
    · rfl
  unfold Tracker.finishInner
  split
  · next hphase =>
    obtain ⟨waiting, heq, hexact⟩ := h.leaves hr hphase
    rw [heq]
    exact { exact := hexact r' hr', counted := h.counted, owners := howners }
  · next hphase =>
    exact { exact := by
              dsimp only
              rw [hnoted, hrelease.1]
              exact h.stays hr (by rw [hphase]; decide) hr'
            counted := counted_noteCompletion (by rw [hrelease.2]; exact h.counted) hfrom
            owners := howners }
  · next hphase =>
    exact { exact := by
              dsimp only
              rw [hnoted]
              exact h.stays hr (by rw [hphase]; decide) hr'
            counted := counted_noteCompletion h.counted hfrom
            owners := howners }
  · next hwaiting _ _ => exact { exact := h.stays hr hwaiting hr', counted := h.counted, owners := howners }

theorem guardCall (hr : t.registrations address = some r) (call : GuardCall) :
    Sound accounts (t.guardCall address r call) := by
  cases call with
  | waiting => exact h.waiting hr
  | running => exact h.running hr
  | cancel => exact h.cancel
  | finish =>
    exact h.finished hr (Exact.not_waits_of_phase (r := { r with phase := .finished }) (by simp))
      fun s hs => by rw [← Option.some.inj hs]
  | drop =>
    change Sound accounts { t with
      inner := Tracker.finishInner t.inner r
      registrations := update (update t.registrations address (some { r with phase := .finished })) address none }
    rw [update_idem]
    refine h.finished hr (fun _ => rfl) fun s hs => ?_
    cases hs

theorem register? {id : OperationId} {kind : LiveOperationKind} {changesState : Bool} {owner : Owner} {lane : Lane}
    {t' : Tracker} (howner : ∀ uid, owner = .account uid → uid ∈ accounts)
    (hstep : t.register? address id kind changesState owner lane = some t') : Sound accounts t' := by
  rw [Tracker.register?] at hstep
  split at hstep
  · next hnone =>
    cases hstep
    refine { exact := ?_, counted := h.counted, owners := fun other s uid hs hs' => ?_ }
    · exact h.exact.update_of_not_waiting (fun P => by rw [hnone]; rfl) (Exact.not_waits_of_phase (by simp))
    · change update t.registrations address _ other = some s at hs
      by_cases hother : other = address
      · subst hother
        rw [update_self, Option.some.injEq] at hs
        subst hs
        exact howner uid hs'
      · rw [update_of_ne hother] at hs
        exact h.owners other s uid hs hs'
  · cases hstep

/-- **One step.** -/
theorem step {e : Step} {t' : Tracker} (hwithin : Within accounts t e)
    (hstep : t.step e = some t') : Sound accounts t' := by
  cases e with
  | register address id kind changesState owner =>
    exact h.register? (fun uid huid => hwithin.account uid (Owner.account?_eq_some_iff.2 huid)) hstep
  | registerBackground address id => exact h.register? (fun uid huid => by cases huid) hstep
  | guard address call =>
    obtain ⟨r, hr, rfl⟩ := Option.map_eq_some_iff.1 hstep
    exact h.guardCall hr call
  | noteSharedChange =>
    cases hstep
    refine { exact := ?_, counted := fun uid huid => ?_, owners := h.owners }
    · change Exact (t.inner.noteChange _ _).waiting _
      rw [(Inner.tracked_noteChange _ _ _).1]
      exact h.exact
    · rcases Inner.mem_noteChange huid with hmem | hreaders
      · exact h.counted uid hmem
      · cases changeReaders_account hreaders
  | setStage stage =>
    cases hstep
    rw [Tracker.setStage]
    split
    · exact h.of_inner rfl rfl
    · exact h
  | _ =>
    cases hstep
    exact { exact := h.exact, counted := h.counted, owners := h.owners }

end

theorem new {daemonInstance : OperationId} {nowMs : Nat} {token : CancelToken} :
    Sound accounts (Tracker.new daemonInstance nowMs token) where
  exact key := by
    have hzero : waiters (Tracker.new daemonInstance nowMs token).registrations (· = key) = 0 :=
      waiters_eq_zero_iff.2 fun _ => rfl
    rw [if_pos hzero]
    exact ExtTreeMap.getElem?_empty
  counted _ h := absurd h ExtTreeMap.not_mem_empty
  owners _ _ _ h := by cases h

end Sound

end Irlume.Live

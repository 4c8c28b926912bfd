import Mathlib.Algebra.BigOperators.Group.Finset.Piecewise
import Irlume.Live.Snapshot

/-!
# What the calls do to the counts

Where the waiting counts are exact and the accounts with a revision are accounts the run has worked for, each
call's effect on the tracked data is read off one specification.
-/

namespace Irlume.Live

open Std Irlume.Lib Irlume.Diagnostics Function

/-! ## The waiting counts -/

section

variable {A : Type} [Fintype A] [DecidableEq A] {registrations : A → Option Registration}

theorem waiters_update (registrations : A → Option Registration) (address : A) (r : Option Registration)
    (P : WaitingKey → Bool) :
    waiters (update registrations address r) P + (Waits P (registrations address)).toNat =
      waiters registrations P + (Waits P r).toNat := by
  have hsum : ∀ f : A → Option Registration, waiters f P = ∑ a, (Waits P (f a)).toNat := by
    intro f
    rw [waiters, Finset.card_filter]
    refine Finset.sum_congr rfl fun a _ => ?_
    cases Waits P (f a) <;> rfl
  have hrest : ∑ a ∈ Finset.univ.erase address, (Waits P (update registrations address r a)).toNat =
      ∑ a ∈ Finset.univ.erase address, (Waits P (registrations a)).toNat :=
    Finset.sum_congr rfl fun a ha => by rw [update_of_ne (Finset.ne_of_mem_erase ha)]
  rw [hsum, hsum, ← Finset.add_sum_erase _ _ (Finset.mem_univ address), hrest, update_self,
    ← Finset.add_sum_erase _ (fun a => (Waits P (registrations a)).toNat) (Finset.mem_univ address)]
  omega

namespace Exact

variable {inner : Inner} {address : A} {r : Registration} {phase : Phase}

theorem update_of_not_waiting {waiting : ExtTreeMap WaitingKey Nat} (h : Exact waiting registrations)
    {r' : Option Registration} (hbefore : ∀ P, Waits P (registrations address) = false)
    (hafter : ∀ P, Waits P r' = false) : Exact waiting (update registrations address r') := by
  have hsame : ∀ P, waiters (update registrations address r') P = waiters registrations P := fun P => by
    simpa [hbefore, hafter] using waiters_update registrations address r' P
  intro key
  rw [hsame, h key]

theorem waits_of_phase (hphase : r.phase = .waiting) (P : WaitingKey → Bool) :
    Waits P (some r) = P (r.kind, r.owner) := by
  simp [Waits, hphase]

theorem not_waits_of_phase (hphase : r.phase ≠ .waiting) (P : WaitingKey → Bool) : Waits P (some r) = false := by
  simp [Waits, hphase]

theorem addWaiter (h : Exact inner.waiting registrations) (hcard : Fintype.card A ≤ u64Max)
    (hr : registrations address = some r) (hphase : r.phase = .created) :
    ∃ waiting, inner.addWaiter (r.kind, r.owner) = { inner with waiting } ∧
      Exact waiting (update registrations address (some { r with phase := .waiting })) := by
  have hupdate : ∀ P, waiters (update registrations address (some { r with phase := .waiting })) P =
      waiters registrations P + (P (r.kind, r.owner)).toNat := fun P => by
    have hbefore : Waits P (registrations address) = false := by
      rw [hr, not_waits_of_phase (by simp [hphase])]
    have hafter := waits_of_phase (r := { r with phase := .waiting }) rfl P
    simpa [hbefore, hafter] using waiters_update registrations address (some { r with phase := .waiting }) P
  have hcount : inner.waiting.getD (r.kind, r.owner) 0 = waiters registrations (· = (r.kind, r.owner)) := by
    rw [ExtTreeMap.getD_eq_getD_getElem?, h]
    split <;> simp_all
  have hlt : waiters registrations (· = (r.kind, r.owner)) ≠ u64Max := by
    have hle : waiters (update registrations address (some { r with phase := .waiting })) (· = (r.kind, r.owner)) ≤
        Fintype.card A := Finset.card_le_univ _
    have hone := hupdate (· = (r.kind, r.owner))
    simp only [decide_true, Bool.toNat_true] at hone
    omega
  refine ⟨inner.waiting.insert (r.kind, r.owner) (waiters registrations (· = (r.kind, r.owner)) + 1), ?_, ?_⟩
  · rw [Inner.addWaiter, hcount, if_neg hlt]
    congr 1
    exact ExtTreeMap.ext_getElem? fun k => by
      simp only [ExtTreeMap.getElem?_insert]
      split <;> rfl
  · intro key
    rw [hupdate, ExtTreeMap.getElem?_insert]
    by_cases hkey : (r.kind, r.owner) = key
    · subst hkey
      simp [ReflCmp.compare_self]
    · have hne : compare (r.kind, r.owner) key ≠ .eq := fun heq => hkey (LawfulEqCmp.eq_of_compare heq)
      simp [hne, hkey, h key]

theorem removeWaiter (h : Exact inner.waiting registrations) (hr : registrations address = some r)
    (hphase : r.phase = .waiting) {r' : Option Registration} (hafter : ∀ P, Waits P r' = false) :
    ∃ waiting, inner.removeWaiter (r.kind, r.owner) = { inner with waiting } ∧
      Exact waiting (update registrations address r') := by
  have hupdate : ∀ P, waiters (update registrations address r') P + (P (r.kind, r.owner)).toNat =
      waiters registrations P := fun P => by
    have hbefore : Waits P (registrations address) = P (r.kind, r.owner) := by rw [hr, waits_of_phase hphase]
    simpa [hbefore, hafter] using waiters_update registrations address r' P
  have hown := hupdate (· = (r.kind, r.owner))
  simp only [decide_true, Bool.toNat_true] at hown
  have hother : ∀ key, (r.kind, r.owner) ≠ key →
      compare (r.kind, r.owner) key ≠ .eq ∧
        waiters (update registrations address r') (· = key) = waiters registrations (· = key) := by
    intro key hkey
    refine ⟨fun heq => hkey (LawfulEqCmp.eq_of_compare heq), ?_⟩
    simpa [hkey] using hupdate (· = key)
  have hcount : inner.waiting[(r.kind, r.owner)]? = some (waiters registrations (· = (r.kind, r.owner))) := by
    rw [h, if_neg (by omega)]
  rw [Inner.removeWaiter, hcount]
  dsimp only
  split
  · next hmore =>
    refine ⟨_, rfl, fun key => ?_⟩
    rw [ExtTreeMap.getElem?_insert]
    by_cases hkey : (r.kind, r.owner) = key
    · subst hkey
      rw [if_pos ReflCmp.compare_self, if_neg (by omega)]
      congr 1
      omega
    · obtain ⟨hne, hsame⟩ := hother key hkey
      rw [if_neg hne, hsame, h key]
  · next hone =>
    refine ⟨_, rfl, fun key => ?_⟩
    rw [ExtTreeMap.getElem?_erase]
    by_cases hkey : (r.kind, r.owner) = key
    · subst hkey
      rw [if_pos ReflCmp.compare_self, if_pos (by omega)]
    · obtain ⟨hne, hsame⟩ := hother key hkey
      rw [if_neg hne, hsame, h key]

end Exact

end

/-! ## The revisions -/

namespace Inner

def changesOf (inner : Inner) (uid : Nat) : Nat := ((inner.accountRevisions[uid]?).map (·.changes)).getD 0

/-- What live status shows beside the counts a change moves. -/
structure SameView (before after : Inner) : Prop where
  stage : after.stage = before.stage
  waiting : after.waiting = before.waiting
  worker : after.worker = before.worker
  background : after.background = before.background
  available : after.available = before.available

structure Counted (before after : Inner) (readers : ChangeReaders) : Prop extends SameView before after where
  revision : after.revision = before.revision + 1
  shared : after.sharedRevision = before.sharedRevision + (readers = .every : Bool).toNat
  changes : ∀ uid, after.changesOf uid = before.changesOf uid + (readers = .account uid : Bool).toNat

/-- Whether an account has a count already or there is room for one more. -/
def Room (inner : Inner) (uid : Nat) : Prop :=
  uid ∈ inner.accountRevisions ∨ inner.accountRevisions.size < maxRevisionAccounts

variable {inner : Inner} {kind : LiveOperationKind} {owner : Owner}

theorem makeRoom_of_room {uid : Nat} (h : inner.Room uid) : inner.makeRoom uid = inner := by
  rw [makeRoom, if_neg]
  rintro ⟨hmem, hsize⟩
  rcases h with h | h
  · exact hmem h
  · omega

theorem changesOf_countAccount (inner : Inner) (uid other : Nat) :
    (inner.countAccount uid).changesOf other = inner.changesOf other + (uid = other : Bool).toNat := by
  simp only [changesOf, countAccount, ExtTreeMap.getElem?_insert]
  by_cases h : uid = other
  · subst h
    rw [if_pos ReflCmp.compare_self, ExtTreeMap.getD_eq_getD_getElem?]
    cases inner.accountRevisions[uid]? <;> simp
  · have hne : compare uid other ≠ .eq := fun heq => h (LawfulEqCmp.eq_of_compare heq)
    simp [hne, h]

/-- **One change**, where the revision is not exhausted and no account has to give up its count. -/
theorem counted_noteChange (hrevision : inner.revision ≠ u64Max)
    (hroom : ∀ uid, changeReaders kind owner = .account uid → inner.Room uid) :
    Counted inner (inner.noteChange kind owner) (changeReaders kind owner) := by
  rw [noteChange, if_neg hrevision]
  cases hreaders : changeReaders kind owner with
  | every => exact { stage := rfl, waiting := rfl, worker := rfl, background := rfl, available := rfl,
                     revision := rfl, shared := by simp, changes := fun uid => by simp [changesOf] }
  | rootOnly => exact { stage := rfl, waiting := rfl, worker := rfl, background := rfl, available := rfl,
                        revision := rfl, shared := by simp, changes := fun uid => by simp [changesOf] }
  | account uid =>
    have hsame : ({ inner with revision := inner.revision + 1 } : Inner).makeRoom uid = _ :=
      makeRoom_of_room (hroom uid hreaders)
    dsimp only
    rw [hsame]
    refine { stage := rfl, waiting := rfl, worker := rfl, background := rfl, available := rfl,
             revision := rfl, shared := by simp [countAccount], changes := fun other => ?_ }
    rw [changesOf_countAccount]
    simp [changesOf]

theorem counted_noteSharedChange (inner : Inner) (hrevision : inner.revision ≠ u64Max) :
    Counted inner (inner.noteChange .captureQualification .daemon) .every :=
  counted_noteChange hrevision nofun

theorem tracked_noteChange (inner : Inner) (kind : LiveOperationKind) (owner : Owner) :
    (inner.noteChange kind owner).waiting = inner.waiting ∧ (inner.noteChange kind owner).worker = inner.worker ∧
      (inner.noteChange kind owner).background = inner.background := by
  have hmake : ∀ (i : Inner) (uid : Nat), (i.makeRoom uid).waiting = i.waiting ∧
      (i.makeRoom uid).worker = i.worker ∧ (i.makeRoom uid).background = i.background := by
    intro i uid
    rw [makeRoom]
    split
    · rw [evictOldest]
      split <;> exact ⟨rfl, rfl, rfl⟩
    · exact ⟨rfl, rfl, rfl⟩
  rw [noteChange]
  split
  · exact ⟨rfl, rfl, rfl⟩
  · split
    · exact ⟨rfl, rfl, rfl⟩
    · exact hmake _ _
    · exact ⟨rfl, rfl, rfl⟩

theorem mem_noteChange {uid : Nat} (h : uid ∈ (inner.noteChange kind owner).accountRevisions) :
    uid ∈ inner.accountRevisions ∨ changeReaders kind owner = .account uid := by
  have hevict : ∀ {i : Inner}, uid ∈ i.evictOldest.accountRevisions → uid ∈ i.accountRevisions := by
    intro i hi
    rw [evictOldest] at hi
    split at hi
    · exact hi
    · exact (ExtTreeMap.mem_erase.1 hi).2
  have hmake : ∀ {i : Inner} {u : Nat}, uid ∈ (i.makeRoom u).accountRevisions → uid ∈ i.accountRevisions := by
    intro i u hi
    rw [makeRoom] at hi
    split at hi
    · exact hevict hi
    · exact hi
  rw [noteChange] at h
  split at h
  · exact .inl h
  · split at h
    · exact .inl h
    · next u hreaders =>
      rcases ExtTreeMap.mem_insert.1 h with heq | hmem
      · exact .inr (hreaders.trans (congrArg _ (LawfulEqCmp.eq_of_compare heq)))
      · exact .inl (hmake (i := { inner with revision := inner.revision + 1 }) hmem)
    · exact .inl h

theorem room_of_card {accounts : Finset Nat} (hcard : accounts.card ≤ maxRevisionAccounts)
    (hmem : ∀ uid ∈ inner.accountRevisions, uid ∈ accounts) {uid : Nat} (huid : uid ∈ accounts) :
    inner.Room uid := by
  by_cases h : uid ∈ inner.accountRevisions
  · exact .inl h
  · refine .inr ?_
    have hsub : inner.accountRevisions.keys.toFinset ⊆ accounts.erase uid := by
      intro u hu
      have hu := ExtTreeMap.mem_keys.1 (List.mem_toFinset.1 hu)
      exact Finset.mem_erase.2 ⟨fun heq => h (heq ▸ hu), hmem u hu⟩
    have hle := Finset.card_le_card hsub
    rw [List.toFinset_card_of_nodup ExtTreeMap.nodup_keys, ExtTreeMap.length_keys,
      Finset.card_erase_of_mem huid] at hle
    have hpos := Finset.card_pos.2 ⟨uid, huid⟩
    omega

end Inner

end Irlume.Live

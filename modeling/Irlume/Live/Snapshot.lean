import Mathlib.Algebra.BigOperators.Group.Finset.Basic
import Mathlib.Algebra.Order.BigOperators.Group.List
import Mathlib.Algebra.Order.Group.Nat
import Mathlib.Data.Fintype.Card
import Irlume.Live.Tracker

/-!
# What a peer reads

`snapshot_for` and what it is computed from. The waiting rows are a fold over the counts; where each count is the
number of registrations that wait under its key, a row is the number of those that wait under a kind as the peer
reads it.
-/

namespace Irlume.Live

open Std Irlume.Lib Irlume.Diagnostics
open Irlume.Arbiter (CancelToken)

def liveSchemaVersion : Nat := 1

structure LiveWorkerOperation where
  operationId : OperationId
  kind : LiveOperationKind
  elapsedMs : Nat
  cancellationRequested : Bool

structure LiveWaitingCount where
  kind : LiveOperationKind
  count : Nat

structure LiveStatusSnapshot (Cameras : Type) where
  liveSchema : Nat
  daemonInstance : OperationId
  daemonUptimeMs : Nat
  stateRevision : Nat
  stage : LiveStage
  worker : Option LiveWorkerOperation
  background : List LiveWorkerOperation
  waiting : List LiveWaitingCount
  cameras : Cameras
  trackingAvailable : Bool

def visibleKind (kind : LiveOperationKind) (owner : Owner) (peerUid : Nat) : LiveOperationKind :=
  if owner.visibleTo peerUid then kind else .unknown

def stopRequested (token : CancelToken) (kind : LiveOperationKind) (owner : Owner) (peerUid : Nat) : Bool :=
  let yieldShown : Bool := peerUid = 0 || owner = .account peerUid
  match kind with
  | .authentication | .walletAuthentication | .unknown => token.cancelRequested
  | _ => if yieldShown then token.stopRequested else token.cancelRequested

section

variable (peerUid : Nat)

def addRow (rows : ExtTreeMap LiveOperationKind Nat) (key : WaitingKey) (count : Nat) :
    ExtTreeMap LiveOperationKind Nat :=
  let kind := visibleKind key.1 key.2 peerUid
  rows.insert kind (saturatingAdd (rows.getD kind 0) count)

def waitingRows (waiting : ExtTreeMap WaitingKey Nat) : ExtTreeMap LiveOperationKind Nat :=
  waiting.foldl (addRow peerUid) ∅

namespace Tracker

def workerOperation (t : Tracker) (worker : Worker) : LiveWorkerOperation :=
  let kind := visibleKind worker.kind worker.owner peerUid
  let requested := t.tokenSet && stopRequested t.token kind worker.owner peerUid
  { operationId := worker.id
    kind
    elapsedMs := t.nowMs - worker.startedMs
    cancellationRequested := worker.cancelled || requested }

def backgroundOperation (t : Tracker) (task : Worker) : LiveWorkerOperation where
  operationId := task.id
  kind := visibleKind task.kind task.owner peerUid
  elapsedMs := t.nowMs - task.startedMs
  cancellationRequested := task.cancelled

def snapshotFor {Cameras : Type} (t : Tracker) (cameras : Cameras) : LiveStatusSnapshot Cameras where
  liveSchema := liveSchemaVersion
  daemonInstance := t.daemonInstance
  daemonUptimeMs := t.nowMs
  stateRevision := t.inner.revisionFor peerUid
  stage := t.inner.stage
  worker := t.inner.worker.map (t.workerOperation peerUid)
  background := t.inner.background.map (t.backgroundOperation peerUid)
  waiting := (waitingRows peerUid t.inner.waiting).toList.map fun row => { kind := row.1, count := row.2 }
  cameras := cameras
  trackingAvailable := t.inner.available

def showsUnknownWork (t : Tracker) : Bool := t.inner.showsUnknownWork peerUid

end Tracker

/-! ## The rows -/

/-- The counts under the keys the peer reads as `kind`. -/
def entriesUnder (kind : LiveOperationKind) (entries : List (WaitingKey × Nat)) : List (WaitingKey × Nat) :=
  entries.filter fun entry => visibleKind entry.1.1 entry.1.2 peerUid = kind

theorem foldl_addRow (kind : LiveOperationKind) (entries : List (WaitingKey × Nat))
    (rows : ExtTreeMap LiveOperationKind Nat) :
    (entries.foldl (fun rows entry => addRow peerUid rows entry.1 entry.2) rows)[kind]? =
      if entriesUnder peerUid kind entries = [] then rows[kind]?
      else some (min (rows.getD kind 0 + ((entriesUnder peerUid kind entries).map Prod.snd).sum) u64Max) := by
  induction entries generalizing rows with
  | nil => simp [entriesUnder]
  | cons entry entries ih =>
    rw [List.foldl_cons, ih]
    by_cases hkind : visibleKind entry.1.1 entry.1.2 peerUid = kind
    · have hcons : entriesUnder peerUid kind (entry :: entries) = entry :: entriesUnder peerUid kind entries := by
        simp [entriesUnder, hkind]
      simp only [hcons, addRow, hkind, ExtTreeMap.getElem?_insert_self, ExtTreeMap.getD_insert_self,
        saturatingAdd, reduceCtorEq, if_false, List.map_cons, List.sum_cons]
      split
      · next hnil => simp [hnil]
      · congr 1
        omega
    · have hcons : entriesUnder peerUid kind (entry :: entries) = entriesUnder peerUid kind entries := by
        simp [entriesUnder, hkind]
      have hother : (addRow peerUid rows entry.1 entry.2)[kind]? = rows[kind]? := by
        simp [addRow, ExtTreeMap.getElem?_insert, hkind]
      rw [hcons, hother, ExtTreeMap.getD_eq_getD_getElem?, hother, ← ExtTreeMap.getD_eq_getD_getElem?]

end

/-- Whether a registration waits under a key that satisfies `P`. -/
def Waits (P : WaitingKey → Bool) (r : Option Registration) : Bool :=
  r.any fun r => r.phase = .waiting && P (r.kind, r.owner)

section

variable {A : Type} [Fintype A]

def waiters (registrations : A → Option Registration) (P : WaitingKey → Bool) : Nat :=
  (Finset.univ.filter fun address => Waits P (registrations address)).card

def Exact (waiting : ExtTreeMap WaitingKey Nat) (registrations : A → Option Registration) : Prop :=
  ∀ key, waiting[key]? =
    if waiters registrations (· = key) = 0 then none else some (waiters registrations (· = key))

variable {P : WaitingKey → Bool}

theorem waiters_eq_zero_iff {registrations : A → Option Registration} :
    waiters registrations P = 0 ↔ ∀ address, Waits P (registrations address) = false := by
  simp [waiters, Finset.filter_eq_empty_iff]

theorem waiters_congr {f g : A → Option Registration}
    (h : ∀ address, Waits P (f address) = Waits P (g address)) : waiters f P = waiters g P := by
  rw [waiters, waiters]
  exact congrArg _ (Finset.filter_congr fun address _ => by rw [h])

def keyOf (r : Option Registration) : WaitingKey := (r.map fun r => (r.kind, r.owner)).getD (.unknown, .daemon)

theorem waits_iff {r : Option Registration} :
    Waits P r = true ↔ Waits (· = keyOf r) r = true ∧ P (keyOf r) = true := by
  cases r with
  | none => simp [Waits]
  | some r => simp [Waits, keyOf]

theorem waits_eq_iff {key : WaitingKey} {r : Option Registration} :
    Waits (· = key) r = true ↔ Waits (· = keyOf r) r = true ∧ keyOf r = key := by
  rw [waits_iff, decide_eq_true_iff]

namespace Exact

variable {waiting : ExtTreeMap WaitingKey Nat} {registrations : A → Option Registration}

variable (h : Exact waiting registrations)

include h

theorem getElem?_eq_some_iff {key : WaitingKey} {count : Nat} :
    waiting[key]? = some count ↔ count ≠ 0 ∧ waiters registrations (· = key) = count := by
  rw [h key]
  split
  · simp only [reduceCtorEq, false_iff]
    omega
  · simp only [Option.some.injEq]
    omega

theorem mem_iff {key : WaitingKey} :
    key ∈ waiting ↔ ∃ address, Waits (· = key) (registrations address) = true := by
  rw [ExtTreeMap.mem_iff_isSome_getElem?, h key]
  split
  · next hzero => simpa using waiters_eq_zero_iff.1 hzero
  · next hne => simpa [waiters_eq_zero_iff] using hne

theorem sum_eq (P : WaitingKey → Bool) :
    ((waiting.toList.filter fun entry => P entry.1).map Prod.snd).sum = waiters registrations P := by
  let keys := (waiting.toList.filter fun entry => P entry.1).map Prod.fst
  have hcount : (waiting.toList.filter fun entry => P entry.1).map Prod.snd =
      keys.map fun key => waiters registrations (· = key) := by
    rw [List.map_map]
    refine List.map_congr_left fun entry hentry => ?_
    have hmem := ExtTreeMap.mem_toList_iff_getElem?_eq_some.1 (List.mem_filter.1 hentry).1
    exact (h.getElem?_eq_some_iff.1 hmem).2.symm
  have hnodup : keys.Nodup := by
    refine List.Nodup.sublist (List.Sublist.map _ List.filter_sublist) ?_
    rw [ExtTreeMap.map_fst_toList_eq_keys]
    exact ExtTreeMap.nodup_keys
  have hkeys : ∀ key, key ∈ keys ↔ key ∈ waiting ∧ P key = true := by
    intro key
    simp only [keys, List.mem_map, List.mem_filter, Prod.exists, exists_and_right, exists_eq_right]
    simp only [ExtTreeMap.mem_toList_iff_getElem?_eq_some, ExtTreeMap.mem_iff_isSome_getElem?,
      Option.isSome_iff_exists]
  rw [hcount, ← List.sum_toFinset _ hnodup]
  -- Each registration that waits under one of the keys is counted at its own.
  refine (Finset.sum_congr rfl fun key hkey => ?_).trans
    (Finset.card_eq_sum_card_fiberwise (f := fun address => keyOf (registrations address)) ?_).symm
  · have hP := ((hkeys key).1 (List.mem_toFinset.1 hkey)).2
    rw [waiters, Finset.filter_filter]
    congr 1
    refine Finset.filter_congr fun address _ => ?_
    constructor
    · intro hwaits
      obtain ⟨hself, hkey⟩ := waits_eq_iff.1 hwaits
      exact ⟨waits_iff.2 ⟨hself, hkey ▸ hP⟩, hkey⟩
    · rintro ⟨hwaits, hkey⟩
      exact waits_eq_iff.2 ⟨(waits_iff.1 hwaits).1, hkey⟩
  · intro address haddress
    obtain ⟨hwaits, hP⟩ := waits_iff.1 (Finset.mem_filter.1 haddress).2
    exact List.mem_toFinset.2 ((hkeys _).2 ⟨h.mem_iff.2 ⟨address, hwaits⟩, hP⟩)

theorem waitingRows_getElem? (peerUid : Nat) (kind : LiveOperationKind) :
    (waitingRows peerUid waiting)[kind]? =
      let count := waiters registrations fun key => visibleKind key.1 key.2 peerUid = kind
      if count = 0 then none else some (min count u64Max) := by
  have hsum := h.sum_eq fun key => visibleKind key.1 key.2 peerUid = kind
  rw [waitingRows, ExtTreeMap.foldl_eq_foldl_toList, foldl_addRow, ← hsum]
  simp only [ExtTreeMap.getElem?_empty, ExtTreeMap.getD_empty, Nat.zero_add]
  split
  · next hnil =>
    rw [entriesUnder] at hnil
    simp [hnil]
  · next hne =>
    obtain ⟨entry, hentry⟩ := List.exists_mem_of_ne_nil _ hne
    have hmem := ExtTreeMap.mem_toList_iff_getElem?_eq_some.1 (List.mem_filter.1 hentry).1
    have hpos := (h.getElem?_eq_some_iff.1 hmem).1
    have hle := List.single_le_sum (fun _ _ => Nat.zero_le _) _ (List.mem_map_of_mem (f := Prod.snd) hentry)
    rw [if_neg]
    · rfl
    · rw [entriesUnder] at hle
      omega

end Exact

end

end Irlume.Live

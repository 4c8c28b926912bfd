import Irlume.Lib.SwapRemove

/-!
# The camera queue

`arbiter.rs`: connections submit requests, one worker takes them. An authentication is taken before
anything else and asks what runs to stop; other camera work is refused while one is pending, and an
account other than root may have one camera operation at a time. Every operation runs under the
arbiter's lock, so each is one function of its state.

`τ` is what a request carries and `β` the daemon's own camera work.
-/

namespace Irlume.Arbiter

open Irlume.Lib

/-- What a request costs and how much it may delay a login. -/
inductive Class where
  | auth
  | camera
  | plain
  | status
  deriving DecidableEq

inductive Refusal where
  | busy
  | alreadyHoldsSlot
  | shuttingDown

/-! ## The stop signal -/

/-- A cooperative stop signal, shared by every job. -/
structure CancelToken where
  yieldRequested : Bool
  cancelRequested : Bool

namespace CancelToken

def new : CancelToken := { yieldRequested := false, cancelRequested := false }

/-- Ask the running long operation to stop at its next safe boundary. -/
def requestStop (c : CancelToken) : CancelToken := { c with yieldRequested := true }

def requestCancel (c : CancelToken) : CancelToken := { c with cancelRequested := true }

def stopRequested (c : CancelToken) : Bool := c.yieldRequested || c.cancelRequested

/-- The first store of `reset`. -/
def clearYield (c : CancelToken) : CancelToken := { c with yieldRequested := false }

/-- The second store of `reset`. -/
def clearCancel (c : CancelToken) : CancelToken := { c with cancelRequested := false }

def reset (c : CancelToken) : CancelToken := c.clearYield.clearCancel

end CancelToken

/-! ## The queue -/

/-- One queued unit of work: what to run, and who asked. -/
structure Job (τ : Type) where
  jobClass : Class
  uid : Nat
  payload : τ

inductive Work (τ β : Type) where
  | job (job : Job τ)
  | background (task : β)

structure Inner (τ β : Type) where
  auth : List (Job τ)
  other : List (Job τ)
  background : List β
  /-- Uids with a camera job queued or running. Root is never tracked. -/
  cameraSlots : List Nat
  authRunning : Bool
  closed : Bool

structure Queue (τ β : Type) where
  inner : Inner τ β
  cancel : CancelToken

section Operations

variable {τ β : Type}

def Inner.new : Inner τ β :=
  { auth := [], other := [], background := [], cameraSlots := [], authRunning := false,
    closed := false }

def Inner.authPending (q : Inner τ β) : Bool := q.authRunning || !q.auth.isEmpty

/-- `Arbiter::new`. -/
def Queue.new : Queue τ β := { inner := .new, cancel := .new }

def Inner.submit (q : Inner τ β) (job : Job τ) : Except Refusal (Inner τ β) :=
  if q.closed then .error .shuttingDown
  else
    match job.jobClass with
    | .auth => .ok { q with auth := q.auth ++ [job] }
    | .camera =>
      if q.authPending then .error .busy
      else if job.uid ≠ 0 ∧ job.uid ∈ q.cameraSlots then .error .alreadyHoldsSlot
      else .ok { q with
        cameraSlots := if job.uid ≠ 0 then q.cameraSlots ++ [job.uid] else q.cameraSlots
        other := q.other ++ [job] }
    | .plain | .status => .ok { q with other := q.other ++ [job] }

/-- `Arbiter::submit`. -/
def Queue.submit (q : Queue τ β) (job : Job τ) : Except Refusal (Queue τ β) :=
  match q.inner.submit job with
  | .error e => .error e
  | .ok inner =>
    .ok { inner, cancel := if job.jobClass = .auth then q.cancel.requestStop else q.cancel }

/-- `Arbiter::submit_background`. -/
def Inner.submitBackground (q : Inner τ β) (task : β) : Except Refusal (Inner τ β) :=
  if q.closed then .error .shuttingDown
  else if q.authPending then .error .busy
  else .ok { q with background := q.background ++ [task] }

/-- What `Arbiter::take_work` comes back with. -/
inductive Taken (τ β : Type) where
  | work (work : Work τ β) (q : Inner τ β)
  /-- The queue is closed and its requests are drained. -/
  | drained
  /-- Nothing to do: the worker waits to be woken. -/
  | waiting

/-- The search of `Arbiter::take_work`, before the token is reset. -/
def Inner.takeWork (q : Inner τ β) : Taken τ β :=
  match q.auth with
  | job :: auth => .work (.job job) { q with auth, authRunning := true }
  | [] =>
    match q.other with
    | job :: other => .work (.job job) { q with other }
    | [] =>
      if q.closed then .drained
      else
        match q.background with
        | task :: background => .work (.background task) { q with background }
        | [] => .waiting

/-- `Arbiter::finish`. -/
def Inner.finish (q : Inner τ β) (jobClass : Class) (uid : Nat) : Inner τ β :=
  { q with
    authRunning := if jobClass = .auth then false else q.authRunning
    cameraSlots :=
      match q.cameraSlots.idxOf? uid with
      | some i => swapRemove q.cameraSlots i
      | none => q.cameraSlots }

/-- `Arbiter::close`. -/
def Inner.close (q : Inner τ β) : Inner τ β := { q with closed := true }

/-! ## What the operations can do -/

variable {q q' : Inner τ β} {job : Job τ}

theorem Inner.submit_ok (h : q.submit job = .ok q') :
    q.closed = false ∧
      ((job.jobClass = .auth ∧ q' = { q with auth := q.auth ++ [job] }) ∨
        (job.jobClass = .camera ∧ q.authPending = false ∧
          (job.uid ≠ 0 → job.uid ∉ q.cameraSlots) ∧
          q' = { q with
            cameraSlots := if job.uid ≠ 0 then q.cameraSlots ++ [job.uid] else q.cameraSlots
            other := q.other ++ [job] }) ∨
        (job.jobClass ≠ .auth ∧ job.jobClass ≠ .camera ∧
          q' = { q with other := q.other ++ [job] })) := by
  unfold Inner.submit at h
  split at h
  · cases h
  · next hc =>
    rw [Bool.not_eq_true] at hc
    apply And.intro hc
    cases hk : job.jobClass with
    | auth =>
      rw [hk] at h
      exact .inl ⟨rfl, (Except.ok.inj h).symm⟩
    | camera =>
      simp only [hk] at h
      split at h
      · cases h
      · next hp =>
        split at h
        · cases h
        · next hs =>
          rw [Bool.not_eq_true] at hp
          exact .inr (.inl ⟨rfl, hp, fun h0 hm => hs ⟨h0, hm⟩, (Except.ok.inj h).symm⟩)
    | plain =>
      rw [hk] at h
      exact .inr (.inr ⟨nofun, nofun, (Except.ok.inj h).symm⟩)
    | status =>
      rw [hk] at h
      exact .inr (.inr ⟨nofun, nofun, (Except.ok.inj h).symm⟩)

theorem Inner.submitBackground_ok {task : β} (h : q.submitBackground task = .ok q') :
    q.closed = false ∧ q.authPending = false ∧
      q' = { q with background := q.background ++ [task] } := by
  unfold Inner.submitBackground at h
  split at h
  · cases h
  · next hc =>
    split at h
    · cases h
    · next hp =>
      rw [Bool.not_eq_true] at hc hp
      exact ⟨hc, hp, (Except.ok.inj h).symm⟩

theorem Inner.takeWork_work {w : Work τ β} (h : q.takeWork = .work w q') :
    (∃ job, w = .job job ∧ q.auth = job :: q'.auth ∧
      q' = { q with auth := q'.auth, authRunning := true }) ∨
    (∃ job, w = .job job ∧ q.auth = [] ∧ q.other = job :: q'.other ∧
      q' = { q with other := q'.other }) ∨
    (∃ task, w = .background task ∧ q.auth = [] ∧ q.other = [] ∧ q.closed = false ∧
      q.background = task :: q'.background ∧ q' = { q with background := q'.background }) := by
  unfold Inner.takeWork at h
  split at h
  · next job auth ha =>
    cases h
    exact .inl ⟨job, rfl, ha, rfl⟩
  · next ha =>
    split at h
    · next job other ho =>
      cases h
      exact .inr (.inl ⟨job, rfl, ha, ho, rfl⟩)
    · next ho =>
      split at h
      · cases h
      · next hc =>
        rw [Bool.not_eq_true] at hc
        split at h
        · next task background hb =>
          cases h
          exact .inr (.inr ⟨task, rfl, ha, ho, hc, hb, rfl⟩)
        · cases h

theorem Inner.takeWork_drained (h : q.takeWork = .drained) :
    q.auth = [] ∧ q.other = [] ∧ q.closed = true := by
  unfold Inner.takeWork at h
  split at h
  · cases h
  · next ha =>
    split at h
    · cases h
    · next ho =>
      split at h
      · next hc => exact ⟨ha, ho, hc⟩
      · split at h
        · cases h
        · cases h

theorem Inner.takeWork_of_queued (h : q.auth ≠ [] ∨ q.other ≠ []) :
    ∃ job q', q.takeWork = .work (.job job) q' := by
  unfold Inner.takeWork
  split
  · exact ⟨_, _, rfl⟩
  · next ha =>
    split
    · exact ⟨_, _, rfl⟩
    · next ho =>
      rcases h with h | h
      · exact absurd ha h
      · exact absurd ho h

theorem Inner.takeWork_of_drained (ha : q.auth = []) (ho : q.other = []) (hc : q.closed = true) :
    q.takeWork = .drained := by
  simp [Inner.takeWork, ha, ho, hc]

end Operations

/-! ## Removing from the slots -/

section Finish

variable {τ β : Type} {q : Inner τ β} {jobClass : Class} {uid : Nat}

theorem Inner.finish_slots : (q.finish jobClass uid).cameraSlots.Perm (q.cameraSlots.erase uid) := by
  unfold Inner.finish
  cases hi : q.cameraSlots.idxOf? uid with
  | none =>
    rw [List.idxOf?_eq_none_iff] at hi
    rw [List.erase_of_not_mem hi]
  | some i =>
    obtain ⟨hlt, -⟩ := List.idxOf?_eq_some_iff.1 hi
    have herase : q.cameraSlots.erase uid = q.cameraSlots.eraseIdx i := by
      rw [List.erase_eq_eraseIdx, hi]
    rw [herase]
    exact swapRemove_perm hlt

end Finish

end Irlume.Arbiter

import Irlume.Arbiter.Worker

/-!
# Clients that leave

The same worker one level down (`main.rs`, `ClientLink` and the camera worker loop). Each request
carries the link of its connection. The cancellation flag is one for all jobs and no lock guards it,
so a turn of the worker is cut where another thread can come in between: at the two stores of
`CancelToken::reset`, at `claim`, at `released` and at `finish`. A connection's `abandon` is cut
between what it does to its link and the store of the flag; it holds the link's lock over both, and
`claim` and `released` wait for that lock.
-/

namespace Irlume.Arbiter

open Irlume.Lib

inductive ClientState where
  | queued
  | running
  | abandoned
  | released
  deriving DecidableEq

/-- The handshake between one connection thread and the worker. -/
structure ClientLink where
  state : ClientState
  /-- A thread is inside `abandon` and holds the lock: whether it found the job running. -/
  abandoning : Option Bool

namespace ClientLink

def default : ClientLink := { state := .queued, abandoning := none }

/-- Worker side: take ownership only while the client is still waiting. -/
def claim (l : ClientLink) : Bool × ClientLink :=
  if l.state = .queued then (true, { l with state := .running }) else (false, l)

def release (l : ClientLink) : ClientLink := { l with state := .released }

/-- Connection side, with the lock taken: up to the store of the flag. -/
def abandon (l : ClientLink) : ClientLink :=
  { state := .abandoned, abandoning := some (l.state = .running) }

def unlock (l : ClientLink) : ClientLink := { l with abandoning := none }

end ClientLink

/-- Where the worker stands. A request is named by its link. -/
inductive Position (β : Type) where
  /-- Between two pieces of work. -/
  | idle
  /-- In `take_work`, with the arbiter's lock: the work is out of its queue. -/
  | popped (work : Work Nat β)
  /-- In `CancelToken::reset`, between its two stores. -/
  | clearing (work : Work Nat β)
  | taken (job : Job Nat)
  /-- Between `claim` and `released`. -/
  | running (job : Job Nat)
  /-- The client was gone. -/
  | dropped (job : Job Nat)
  | released (job : Job Nat)
  | background (task : β)
  | exited

structure Desk (β : Type) where
  queue : Queue Nat β
  links : Nat → ClientLink
  position : Position β
  /-- The links that came with a request. -/
  submitted : List Nat
  /-- The requests that were run. -/
  ran : List Nat
  /-- The requests whose client left before they were claimed. -/
  leftWaiting : List Nat
  /-- The requests whose client left while they ran. -/
  leftRunning : List Nat

inductive Deed (β : Type) where
  | submit (jobClass : Class) (uid : Nat) (link : Nat)
  | submitBackground (task : β)
  | close
  /-- `take_work` takes from a queue. -/
  | pop
  /-- The first store of the reset. -/
  | clearYield
  /-- The second store of the reset; `take_work` returns. -/
  | clearCancel
  | claim
  | released
  | finish
  /-- A connection enters `abandon` on its link. -/
  | abandon (link : Nat)
  /-- It stores the flag if it found its job running, and leaves. -/
  | signal (link : Nat)

variable {β : Type}

/-- The worker is inside `take_work`. -/
def Position.locksArbiter : Position β → Bool
  | .popped _ | .clearing _ => true
  | _ => false

namespace Desk

def new : Desk β :=
  { queue := .new, links := fun _ => .default, position := .idle, submitted := [], ran := [],
    leftWaiting := [], leftRunning := [] }

def onInner (s : Desk β) (inner : Inner Nat β) : Desk β :=
  { s with queue := { s.queue with inner } }

def onCancel (s : Desk β) (cancel : CancelToken) : Desk β :=
  { s with queue := { s.queue with cancel } }

def onLink (s : Desk β) (link : Nat) (l : ClientLink) : Desk β :=
  { s with links := Function.update s.links link l }

def linkFree (s : Desk β) (link : Nat) : Bool := (s.links link).abandoning.isNone

def runs (s : Desk β) (link : Nat) : Bool :=
  match s.position with
  | .running job => job.payload = link
  | _ => false

def left (s : Desk β) (link : Nat) : Desk β :=
  if s.runs link then { s with leftRunning := link :: s.leftRunning }
  else if link ∈ s.ran then s
  else { s with leftWaiting := link :: s.leftWaiting }

def step (s : Desk β) : Deed β → Option (Desk β)
  | .submit jobClass uid link =>
    if s.position.locksArbiter || link ∈ s.submitted then none
    else
      match s.queue.submit { jobClass, uid, payload := link } with
      | .ok queue => some { s with queue, submitted := link :: s.submitted }
      | .error _ => some { s with submitted := link :: s.submitted }
  | .submitBackground task =>
    if s.position.locksArbiter then none
    else
      match s.queue.inner.submitBackground task with
      | .ok inner => some (s.onInner inner)
      | .error _ => some s
  | .close => if s.position.locksArbiter then none else some (s.onInner s.queue.inner.close)
  | .pop =>
    match s.position with
    | .idle =>
      match s.queue.inner.takeWork with
      | .work work inner => some { s.onInner inner with position := .popped work }
      | .drained => some { s with position := .exited }
      | .waiting => none
    | _ => none
  | .clearYield =>
    match s.position with
    | .popped work => some { s.onCancel s.queue.cancel.clearYield with position := .clearing work }
    | _ => none
  | .clearCancel =>
    match s.position with
    | .clearing (.job job) =>
      some { s.onCancel s.queue.cancel.clearCancel with position := .taken job }
    | .clearing (.background task) =>
      some { s.onCancel s.queue.cancel.clearCancel with position := .background task }
    | _ => none
  | .claim =>
    match s.position with
    | .taken job =>
      if s.linkFree job.payload then
        match (s.links job.payload).claim with
        | (true, l) =>
          some { s.onLink job.payload l with
            position := .running job
            ran := job.payload :: s.ran }
        | (false, _) => some { s with position := .dropped job }
      else none
    | _ => none
  | .released =>
    match s.position with
    | .running job =>
      if s.linkFree job.payload then
        some { s.onLink job.payload (s.links job.payload).release with position := .released job }
      else none
    | _ => none
  | .finish =>
    match s.position with
    | .dropped job | .released job =>
      some { s.onInner (s.queue.inner.finish job.jobClass job.uid) with position := .idle }
    | .background _ => some { s.onInner (s.queue.inner.finish .camera 0) with position := .idle }
    | _ => none
  | .abandon link =>
    if s.linkFree link then some ((s.left link).onLink link (s.links link).abandon) else none
  | .signal link =>
    match (s.links link).abandoning with
    | some true =>
      some ((s.onCancel s.queue.cancel.requestCancel).onLink link (s.links link).unlock)
    | some false => some (s.onLink link (s.links link).unlock)
    | none => none

end Desk

/-! ## The invariant -/

/-- Only the client of the running job can have stored the flag, or be about to. -/
structure Fenced (s : Desk β) : Prop where
  owner : ∀ l, (s.links l).state = .running → s.runs l = true
  /-- A thread about to store the flag keeps its own job from being released. -/
  fence : ∀ l, (s.links l).abandoning = some true → s.runs l = true ∧ l ∈ s.leftRunning
  /-- A job is claimed under a clear flag. -/
  fresh : ∀ job, s.position = .taken job → s.queue.cancel.cancelRequested = false
  asked : ∀ job, s.position = .running job → s.queue.cancel.cancelRequested = true →
    job.payload ∈ s.leftRunning
  spent : ∀ l ∈ s.ran, (s.links l).state ≠ .queued
  current : ∀ job, s.position = .running job → job.payload ∈ s.ran
  never : ∀ l ∈ s.leftWaiting, (s.links l).state ≠ .queued ∧ l ∉ s.ran

theorem Fenced.new : Fenced (Desk.new : Desk β) := by
  refine ⟨?_, ?_, nofun, nofun, nofun, nofun, nofun⟩
  · intro l hl
    cases hl
  · intro l hl
    cases hl

variable {s : Desk β}

theorem Desk.runs_iff {l : Nat} :
    s.runs l = true ↔ ∃ job, s.position = .running job ∧ job.payload = l := by
  unfold Desk.runs
  cases hp : s.position <;> simp

theorem Queue.submit_cancelRequested {τ : Type} {q q' : Queue τ β} {job : Job τ}
    (h : q.submit job = .ok q') : q'.cancel.cancelRequested = q.cancel.cancelRequested := by
  unfold Queue.submit at h
  split at h
  · cases h
  · cases h
    dsimp only
    split
    · rfl
    · rfl

/-! ## The steps, by what they touch -/

section Steps

variable {s : Desk β}

theorem Fenced.received (h : Fenced s) {queue : Queue Nat β} {submitted : List Nat}
    (hcancel : queue.cancel.cancelRequested = s.queue.cancel.cancelRequested) :
    Fenced { s with queue, submitted } :=
  ⟨h.owner, h.fence, fun job hp => hcancel.trans (h.fresh job hp),
    fun job hp hc => h.asked job hp (hcancel.symm.trans hc), h.spent, h.current, h.never⟩

/-- While the worker runs no request nobody is about to store the flag, so whatever the worker
clears stays clear. -/
theorem Fenced.moved (h : Fenced s) {queue : Queue Nat β} {position : Position β}
    (hfrom : ∀ job, s.position ≠ .running job) (hto : ∀ job, position ≠ .running job)
    (hfresh : ∀ job, position = .taken job → queue.cancel.cancelRequested = false) :
    Fenced { s with queue, position } := by
  have hnone : ∀ l, s.runs l ≠ true := by
    intro l hl
    obtain ⟨job, hjob, -⟩ := Desk.runs_iff.1 hl
    exact hfrom job hjob
  refine ⟨?_, ?_, hfresh, ?_, h.spent, ?_, h.never⟩
  · intro l hl
    exact absurd (h.owner l hl) (hnone l)
  · intro l hl
    exact absurd (h.fence l hl).1 (hnone l)
  · intro job hjob
    exact absurd hjob (hto job)
  · intro job hjob
    exact absurd hjob (hto job)

/-- What is to show when one link changes. -/
theorem Fenced.relinked (h : Fenced s) {s' : Desk β} {link : Nat} {l : ClientLink}
    (hlinks : s'.links = Function.update s.links link l)
    (howner : l.state = .running → s'.runs link = true)
    (hfence : l.abandoning = some true → s'.runs link = true ∧ link ∈ s'.leftRunning)
    (hspent : link ∈ s'.ran ∨ link ∈ s'.leftWaiting → l.state ≠ .queued)
    (hnever : link ∈ s'.leftWaiting → link ∉ s'.ran)
    (hothers : ∀ other, other ≠ link → (s.runs other = true → s'.runs other = true) ∧
      (other ∈ s.leftRunning → other ∈ s'.leftRunning) ∧ (other ∈ s'.ran → other ∈ s.ran) ∧
      (other ∈ s'.leftWaiting → other ∈ s.leftWaiting))
    (hfresh : ∀ job, s'.position = .taken job → s'.queue.cancel.cancelRequested = false)
    (hasked : ∀ job, s'.position = .running job → s'.queue.cancel.cancelRequested = true →
      job.payload ∈ s'.leftRunning)
    (hcurrent : ∀ job, s'.position = .running job → job.payload ∈ s'.ran) : Fenced s' := by
  have hself : s'.links link = l := by rw [hlinks, Function.update_self]
  have hlink : ∀ other, other ≠ link → s'.links other = s.links other :=
    fun other hne => by rw [hlinks, Function.update_of_ne hne]
  refine ⟨fun k hk => ?_, fun k hk => ?_, hfresh, hasked, fun k hk => ?_, hcurrent, fun k hk => ?_⟩
  all_goals rcases eq_or_ne k link with rfl | hne
  · exact howner (hself ▸ hk)
  · exact (hothers k hne).1 (h.owner k (hlink k hne ▸ hk))
  · exact hfence (hself ▸ hk)
  · obtain ⟨hruns, hleft⟩ := h.fence k (hlink k hne ▸ hk)
    exact ⟨(hothers k hne).1 hruns, (hothers k hne).2.1 hleft⟩
  · exact hself ▸ hspent (.inl hk)
  · exact hlink k hne ▸ h.spent k ((hothers k hne).2.2.1 hk)
  · exact ⟨hself ▸ hspent (.inr hk), hnever hk⟩
  · obtain ⟨hstate, hran⟩ := h.never k ((hothers k hne).2.2.2 hk)
    exact ⟨hlink k hne ▸ hstate, mt (hothers k hne).2.2.1 hran⟩

theorem Fenced.claimed (h : Fenced s) {job : Job Nat} (hp : s.position = .taken job)
    (hq : (s.links job.payload).state = .queued) (hfree : s.linkFree job.payload = true) :
    Fenced { s.onLink job.payload { s.links job.payload with state := .running } with
      position := .running job
      ran := job.payload :: s.ran } := by
  refine h.relinked rfl (fun _ => Desk.runs_iff.2 ⟨job, rfl, rfl⟩) (fun hl => ?_) nofun
    (fun hl => absurd hq (h.never _ hl).1) (fun other hne => ⟨fun hruns => ?_, id, fun hran => ?_, id⟩)
    nofun (fun _ _ hc => ?_) fun j hj => ?_
  · rw [Desk.linkFree, show (s.links job.payload).abandoning = some true from hl] at hfree
    cases hfree
  · simp [Desk.runs, hp] at hruns
  · exact (List.mem_cons.1 hran).resolve_left hne
  · exact absurd ((h.fresh job hp).symm.trans hc) Bool.false_ne_true
  · cases hj
    exact List.mem_cons_self

theorem Fenced.letGo (h : Fenced s) {job : Job Nat} (hp : s.position = .running job)
    (hfree : s.linkFree job.payload = true) :
    Fenced { s.onLink job.payload (s.links job.payload).release with position := .released job } := by
  refine h.relinked rfl nofun (fun hl => ?_) nofun (fun hl => (h.never _ hl).2)
    (fun other hne => ⟨fun hruns => ?_, id, id, id⟩) nofun nofun nofun
  · rw [Desk.linkFree, show (s.links job.payload).abandoning = some true from hl] at hfree
    cases hfree
  · obtain ⟨j, hj, hpayload⟩ := Desk.runs_iff.1 hruns
    cases hp.symm.trans hj
    exact absurd hpayload.symm hne

theorem Desk.left_cases (s : Desk β) (link : Nat) :
    (s.runs link = true ∧ s.left link = { s with leftRunning := link :: s.leftRunning }) ∨
      (s.runs link = false ∧ s.left link = s) ∨
      (s.runs link = false ∧ link ∉ s.ran ∧
        s.left link = { s with leftWaiting := link :: s.leftWaiting }) := by
  unfold Desk.left
  by_cases hr : s.runs link = true
  · exact .inl ⟨hr, if_pos hr⟩
  · rw [if_neg hr]
    rw [Bool.not_eq_true] at hr
    by_cases hm : link ∈ s.ran
    · exact .inr (.inl ⟨hr, if_pos hm⟩)
    · exact .inr (.inr ⟨hr, hm, if_neg hm⟩)

theorem Fenced.abandoned (h : Fenced s) (link : Nat) :
    Fenced ((s.left link).onLink link (s.links link).abandon) := by
  have hfence : (s.links link).abandon.abandoning = some true → s.runs link = true := by
    intro hl
    exact h.owner link (by simpa [ClientLink.abandon] using hl)
  rcases s.left_cases link with ⟨hr, heq⟩ | ⟨hr, heq⟩ | ⟨hr, hran, heq⟩
  · rw [heq]
    exact h.relinked rfl nofun (fun _ => ⟨hr, List.mem_cons_self⟩) nofun (fun hl => (h.never _ hl).2)
      (fun _ _ => ⟨id, List.mem_cons_of_mem _, id, id⟩) h.fresh
      (fun job hp hc => List.mem_cons_of_mem _ (h.asked job hp hc)) h.current
  · rw [heq]
    refine h.relinked rfl nofun (fun hl => ?_) nofun (fun hl => (h.never _ hl).2)
      (fun _ _ => ⟨id, id, id, id⟩) h.fresh h.asked h.current
    cases (hfence hl).symm.trans hr
  · rw [heq]
    refine h.relinked rfl nofun (fun hl => ?_) nofun (fun _ => hran)
      (fun _ hne => ⟨id, id, id, fun hl => (List.mem_cons.1 hl).resolve_left hne⟩) h.fresh h.asked h.current
    cases (hfence hl).symm.trans hr

theorem Fenced.unlocked (h : Fenced s) (link : Nat) :
    Fenced (s.onLink link (s.links link).unlock) :=
  h.relinked rfl (h.owner link) nofun (fun hl => hl.elim (h.spent link) fun hl => (h.never link hl).1)
    (fun hl => (h.never link hl).2) (fun _ _ => ⟨id, id, id, id⟩) h.fresh h.asked h.current

theorem Fenced.signalled (h : Fenced s) {link : Nat}
    (ha : (s.links link).abandoning = some true) :
    Fenced (s.onCancel s.queue.cancel.requestCancel) := by
  obtain ⟨hruns, hleft⟩ := h.fence link ha
  obtain ⟨job, hp, hjob⟩ := Desk.runs_iff.1 hruns
  refine ⟨h.owner, h.fence, ?_, ?_, h.spent, h.current, h.never⟩
  · intro other hother
    rw [Desk.onCancel, hp] at hother
    cases hother
  · intro other hother _
    rw [Desk.onCancel, hp] at hother
    cases hother
    exact hjob ▸ hleft

end Steps

variable {s s' : Desk β}

theorem Fenced.step {d : Deed β} (h : Fenced s) (hs : s.step d = some s') :
    Fenced s' := by
  cases d with
  | submit jobClass uid link =>
    simp only [Desk.step] at hs
    split at hs
    · cases hs
    · split at hs
      · next hq =>
        cases hs
        exact h.received (Queue.submit_cancelRequested hq)
      · cases hs
        exact h.received rfl
  | submitBackground task =>
    simp only [Desk.step] at hs
    split at hs
    · cases hs
    · split at hs
      · cases hs
        exact h.received rfl
      · cases hs
        exact h
  | close =>
    simp only [Desk.step] at hs
    split at hs
    · cases hs
    · cases hs
      exact h.received rfl
  | pop =>
    simp only [Desk.step] at hs
    split at hs
    · next hp =>
      split at hs
      · cases hs
        exact h.moved (by simp [hp]) nofun nofun
      · cases hs
        exact h.moved (by simp [hp]) nofun nofun
      · cases hs
    · cases hs
  | clearYield =>
    simp only [Desk.step] at hs
    split at hs
    · next hp =>
      cases hs
      exact h.moved (by simp [hp]) nofun nofun
    · cases hs
  | clearCancel =>
    simp only [Desk.step] at hs
    split at hs
    · next hp =>
      cases hs
      exact h.moved (by simp [hp]) nofun fun _ _ => rfl
    · next hp =>
      cases hs
      exact h.moved (by simp [hp]) nofun nofun
    · cases hs
  | claim =>
    simp only [Desk.step] at hs
    split at hs
    · next job hp =>
      split at hs
      · next hfree =>
        unfold ClientLink.claim at hs
        by_cases hq : (s.links job.payload).state = .queued
        · rw [if_pos hq] at hs
          cases hs
          exact h.claimed hp hq hfree
        · rw [if_neg hq] at hs
          cases hs
          exact h.moved (by simp [hp]) nofun nofun
      · cases hs
    · cases hs
  | released =>
    simp only [Desk.step] at hs
    split at hs
    · next job hp =>
      split at hs
      · next hfree =>
        cases hs
        exact h.letGo hp hfree
      · cases hs
    · cases hs
  | finish =>
    simp only [Desk.step] at hs
    split at hs
    · next hp =>
      cases hs
      exact h.moved (by simp [hp]) nofun nofun
    · next hp =>
      cases hs
      exact h.moved (by simp [hp]) nofun nofun
    · next hp =>
      cases hs
      exact h.moved (by simp [hp]) nofun nofun
    · cases hs
  | abandon link =>
    simp only [Desk.step] at hs
    split at hs
    · cases hs
      exact h.abandoned link
    · cases hs
  | signal link =>
    simp only [Desk.step] at hs
    split at hs
    · next ha =>
      cases hs
      exact (h.signalled ha).unlocked link
    · cases hs
      exact h.unlocked link
    · cases hs

/-! ## Cancellation -/

/-- In every run of the worker and any number of connections, while a job runs the cancellation flag
is up only if its own client left while it ran; and a request whose client left before it was
claimed is never run. -/
theorem cancel_reaches_own_job {ds : List (Deed β)} {s : Desk β}
    (h : run Desk.step Desk.new ds = some s) :
    (∀ job, s.position = .running job → s.queue.cancel.cancelRequested = true →
        job.payload ∈ s.leftRunning) ∧
      ∀ link ∈ s.leftWaiting, link ∉ s.ran := by
  have hs : Fenced s := run_invariant Fenced.step Fenced.new h
  exact ⟨hs.asked, fun link hl => (hs.never link hl).2⟩

/-- The first client leaves just before its job is released; the flag it raised is down again when
the second job runs, and the third request, given up while it waited, is dropped. -/
theorem cancel_reaches_own_job_next :
    ∃ s : Desk Unit, ∃ job, s.position = .running job ∧ job.payload = 1 ∧ s.leftRunning = [0] ∧
      s.leftWaiting = [2] ∧ s.queue.cancel.cancelRequested = false ∧ 2 ∉ s.ran := by
  obtain ⟨s, hs⟩ : ∃ s : Desk Unit, run Desk.step Desk.new
      [.submit .camera 1000 0, .submit .plain 1001 1, .submit .plain 1002 2, .pop, .clearYield,
        .clearCancel, .claim, .abandon 0, .abandon 2, .signal 0, .released, .signal 2, .finish, .pop,
        .clearYield, .clearCancel, .claim] = some s := ⟨_, rfl⟩
  have hall := cancel_reaches_own_job hs
  cases hs
  refine ⟨_, ⟨.plain, 1001, 1⟩, rfl, rfl, rfl, rfl, ?_, hall.2 2 (by decide)⟩
  rw [← Bool.not_eq_true]
  intro hc
  exact absurd (hall.1 _ rfl hc) (by decide)

/-! ## The worker of `Worker.lean`

Seen from the arbiter, these runs are runs of the daemon's machine: the cuts inside a turn do not
show in its queues.
-/

def Position.work : Position β → Option (Work Nat β)
  | .popped work | .clearing work => some work
  | .taken job | .running job | .dropped job | .released job => some (.job job)
  | .background task => some (.background task)
  | .idle | .exited => none

/-- The daemon shows what the desk does, except for the flag while the reset is under way. -/
structure Refines (s : Desk β) (d : Daemon Nat β) : Prop where
  inner : d.queue.inner = s.queue.inner
  running : d.running = s.position.work
  exited : d.exited = true ↔ s.position = .exited
  yield : (∀ work, s.position ≠ .popped work) →
    d.queue.cancel.yieldRequested = s.queue.cancel.yieldRequested
  resetting : ∀ work, s.position = .popped work → d.queue.cancel.yieldRequested = false

theorem Refines.new : Refines (Desk.new : Desk β) Daemon.new :=
  ⟨rfl, rfl, by simp [Desk.new, Daemon.new], fun _ => rfl, nofun⟩

variable {d : Daemon Nat β}

theorem Refines.unseen (h : Refines s d)
    (hinner : s'.queue.inner = s.queue.inner) (hwork : s'.position.work = s.position.work)
    (hexited : s'.position = .exited ↔ s.position = .exited)
    (hyield : (∀ work, s'.position ≠ .popped work) →
      d.queue.cancel.yieldRequested = s'.queue.cancel.yieldRequested)
    (hresetting : ∀ work, s'.position = .popped work → d.queue.cancel.yieldRequested = false) :
    ∃ es d', run Daemon.step d es = some d' ∧ Refines s' d' :=
  ⟨[], d, rfl, h.inner.trans hinner.symm, h.running.trans hwork.symm, h.exited.trans hexited.symm,
    hyield, hresetting⟩

theorem Refines.seen {s' : Desk β} {d d' : Daemon Nat β} {e : Event Nat β}
    (hstep : d.step e = some d') (h : Refines s' d') :
    ∃ es d', run Daemon.step d es = some d' ∧ Refines s' d' :=
  ⟨[e], d', run_cons_some.2 ⟨d', hstep, rfl⟩, h⟩

section

variable (h : Refines s d)

include h

theorem Refines.submits {jobClass : Class} {uid link : Nat} (hs : s.step (.submit jobClass uid link) = some s') :
    ∃ es d', run Daemon.step d es = some d' ∧ Refines s' d' := by
  simp only [Desk.step] at hs
  split at hs
  · cases hs
  · next hlock =>
    have hpopped : ∀ work, s.position ≠ .popped work := by
      intro work hp
      simp [hp, Position.locksArbiter] at hlock
    have hflag := h.yield hpopped
    cases hq : s.queue.inner.submit { jobClass, uid, payload := link } with
    | error r =>
      simp only [Queue.submit, hq] at hs
      cases hs
      exact h.unseen rfl rfl Iff.rfl h.yield h.resetting
    | ok inner =>
      simp only [Queue.submit, hq] at hs
      cases hs
      have hstep : d.step (.submit { jobClass, uid, payload := link }) =
          some (d.accepted { jobClass, uid, payload := link }
            { inner, cancel := if jobClass = .auth then d.queue.cancel.requestStop
                else d.queue.cancel }) := by
        simp only [Daemon.step, Queue.submit, h.inner, hq]
      obtain ⟨hqueue, hrunning, hexited⟩ := d.accepted_queue { jobClass, uid, payload := link }
        { inner, cancel := if jobClass = .auth then d.queue.cancel.requestStop else d.queue.cancel }
      refine seen hstep ⟨?_, hrunning.trans h.running, ?_, fun _ => ?_,
        fun work hp => absurd hp (hpopped work)⟩
      · rw [hqueue]
      · rw [hexited]
        exact h.exited
      · rw [hqueue]
        dsimp only
        split
        · rfl
        · exact hflag

theorem Refines.pops
    (hs : s.step .pop = some s') : ∃ es d', run Daemon.step d es = some d' ∧ Refines s' d' := by
  simp only [Desk.step] at hs
  split at hs
  · next hp =>
    have hrunning : d.running = none := by
      rw [h.running, hp]
      rfl
    have hexited : d.exited = false := by
      rw [← Bool.not_eq_true, h.exited, hp]
      intro heq
      cases heq
    rw [← h.inner] at hs
    split at hs
    · next work inner hw =>
      cases hs
      have hstep : d.step .take = some (d.handed work inner) := by
        simp [Daemon.step, hrunning, hexited, hw]
      refine seen hstep ?_
      rw [Daemon.handed_eq]
      refine ⟨rfl, rfl, ?_, fun hpopped => absurd rfl (hpopped work), fun _ _ => rfl⟩
      simp [hexited]
    · next hw =>
      cases hs
      have hstep : d.step .take = some { d with exited := true } := by
        simp [Daemon.step, hrunning, hexited, hw]
      exact seen hstep ⟨h.inner, hrunning, by simp, fun _ => h.yield (by simp [hp]), fun _ hpopped => by cases hpopped⟩
    · cases hs
  · cases hs

theorem Refines.finishes (work : Work Nat β)
    (hwork : s.position.work = some work) (hpopped : ∀ w, s.position ≠ .popped w) :
    ∃ es d', run Daemon.step d es = some d' ∧
      Refines { s.onInner (Daemon.release s.queue.inner work) with position := .idle } d' := by
  have hstep : d.step .finish =
      some { d.onInner (Daemon.release s.queue.inner work) with running := none } := by
    simp only [Daemon.step, h.running, hwork, h.inner]
  have hexited : d.exited = false := by
    rw [← Bool.not_eq_true, h.exited]
    intro hp
    rw [hp] at hwork
    cases hwork
  exact seen hstep ⟨rfl, rfl, by simp [Daemon.onInner, hexited], fun _ => h.yield hpopped,
    fun _ hidle => by cases hidle⟩

theorem Refines.step {a : Deed β}
    (hs : s.step a = some s') : ∃ es d', run Daemon.step d es = some d' ∧ Refines s' d' := by
  cases a with
  | submit jobClass uid link => exact h.submits hs
  | submitBackground task =>
    simp only [Desk.step] at hs
    split at hs
    · cases hs
    · split at hs
      · next inner hq =>
        cases hs
        have hstep : d.step (.submitBackground task) = some (d.onInner inner) := by
          simp only [Daemon.step, h.inner, hq]
        exact seen hstep ⟨rfl, h.running, h.exited, h.yield, h.resetting⟩
      · cases hs
        exact h.unseen rfl rfl Iff.rfl h.yield h.resetting
  | close =>
    simp only [Desk.step] at hs
    split at hs
    · cases hs
    · cases hs
      refine seen (e := .close) rfl ⟨?_, h.running, h.exited, h.yield, h.resetting⟩
      simp only [Daemon.onInner, Desk.onInner, h.inner]
  | pop => exact h.pops hs
  | clearYield =>
    simp only [Desk.step] at hs
    split at hs
    · next work hp =>
      cases hs
      refine h.unseen rfl ?_ ?_ (fun _ => h.resetting work hp) fun _ hpopped => by cases hpopped
      · rw [hp]
        rfl
      · simp [hp]
    · cases hs
  | clearCancel =>
    simp only [Desk.step] at hs
    split at hs
    · next job hp =>
      cases hs
      refine h.unseen rfl ?_ ?_ (fun _ => h.yield (by simp [hp])) fun _ hpopped => by cases hpopped
      · rw [hp]
        rfl
      · simp [hp]
    · next task hp =>
      cases hs
      refine h.unseen rfl ?_ ?_ (fun _ => h.yield (by simp [hp])) fun _ hpopped => by cases hpopped
      · rw [hp]
        rfl
      · simp [hp]
    · cases hs
  | claim =>
    simp only [Desk.step] at hs
    split at hs
    · next job hp =>
      have hyield := h.yield (by simp [hp])
      split at hs
      · split at hs
        · cases hs
          refine h.unseen rfl ?_ ?_ (fun _ => hyield) fun _ hpopped => by cases hpopped
          · rw [hp]
            rfl
          · simp [hp]
        · cases hs
          refine h.unseen rfl ?_ ?_ (fun _ => hyield) fun _ hpopped => by cases hpopped
          · rw [hp]
            rfl
          · simp [hp]
      · cases hs
    · cases hs
  | released =>
    simp only [Desk.step] at hs
    split at hs
    · next job hp =>
      split at hs
      · cases hs
        refine h.unseen rfl ?_ ?_ (fun _ => h.yield (by simp [hp])) fun _ hpopped => by cases hpopped
        · rw [hp]
          rfl
        · simp [hp]
      · cases hs
    · cases hs
  | finish =>
    simp only [Desk.step] at hs
    split at hs
    · next job hp =>
      cases hs
      exact h.finishes (.job job) (by rw [hp]; rfl) (by simp [hp])
    · next job hp =>
      cases hs
      exact h.finishes (.job job) (by rw [hp]; rfl) (by simp [hp])
    · next task hp =>
      cases hs
      exact h.finishes (.background task) (by rw [hp]; rfl) (by simp [hp])
    · cases hs
  | abandon link =>
    simp only [Desk.step] at hs
    split at hs
    · cases hs
      rcases s.left_cases link with ⟨-, heq⟩ | ⟨-, heq⟩ | ⟨-, -, heq⟩
      · rw [heq]
        exact h.unseen rfl rfl Iff.rfl h.yield h.resetting
      · rw [heq]
        exact h.unseen rfl rfl Iff.rfl h.yield h.resetting
      · rw [heq]
        exact h.unseen rfl rfl Iff.rfl h.yield h.resetting
    · cases hs
  | signal link =>
    simp only [Desk.step] at hs
    split at hs
    · cases hs
      exact h.unseen rfl rfl Iff.rfl h.yield h.resetting
    · cases hs
      exact h.unseen rfl rfl Iff.rfl h.yield h.resetting
    · cases hs

end

theorem desk_refines_daemon {ds : List (Deed β)}
    (h : run Desk.step Desk.new ds = some s) :
    ∃ es d, run Daemon.step Daemon.new es = some d ∧ Refines s d := by
  refine run_invariant (I := fun s => ∃ es d, run Daemon.step Daemon.new es = some d ∧ Refines s d)
    ?_ ⟨[], Daemon.new, rfl, Refines.new⟩ h
  intro s a s' ⟨es, d, hd, hr⟩ hs
  obtain ⟨fs, d', hd', hr'⟩ := hr.step hs
  exact ⟨es ++ fs, d', run_append_some.2 ⟨d, hd, hd'⟩, hr'⟩

theorem desk_refines_daemon_running : ∃ s : Desk Unit, ∃ job, s.position = .running job ∧
    ∃ es d, run Daemon.step Daemon.new es = some d ∧ Refines s d := by
  obtain ⟨s, hs⟩ : ∃ s : Desk Unit, run Desk.step Desk.new
      [.submit .camera 1000 0, .pop, .clearYield, .clearCancel, .claim] = some s := ⟨_, rfl⟩
  have hrefines := desk_refines_daemon hs
  cases hs
  exact ⟨_, _, rfl, hrefines⟩

end Irlume.Arbiter

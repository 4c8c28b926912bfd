import Irlume.Arbiter.Queue
import Irlume.Lib.Machine

/-!
# The worker and its clients

The daemon's machine: connections submit at any time, one worker takes a piece of work, runs it and
finishes it before it takes the next (`main.rs`, the camera worker loop). The histories of what was
accepted and what was handed out are for the specifications; no operation reads them.
-/

namespace Irlume.Arbiter

open Irlume.Lib

variable {τ β : Type}

structure Daemon (τ β : Type) where
  queue : Queue τ β
  running : Option (Work τ β)
  /-- The worker's loop has ended. -/
  exited : Bool
  acceptedAuth : List (Job τ)
  acceptedOther : List (Job τ)
  handedAuth : List (Job τ)
  handedOther : List (Job τ)

inductive Event (τ β : Type) where
  | submit (job : Job τ)
  | submitBackground (task : β)
  /-- The worker, between two pieces of work, takes the next. -/
  | take
  /-- The worker is done with what it took, or dropped it because its client had left. -/
  | finish
  | close

namespace Daemon

def new : Daemon τ β :=
  { queue := .new, running := none, exited := false, acceptedAuth := [], acceptedOther := [],
    handedAuth := [], handedOther := [] }

def accepted (s : Daemon τ β) (job : Job τ) (queue : Queue τ β) : Daemon τ β :=
  if job.jobClass = .auth then { s with queue, acceptedAuth := s.acceptedAuth ++ [job] }
  else { s with queue, acceptedOther := s.acceptedOther ++ [job] }

def handed (s : Daemon τ β) (work : Work τ β) (inner : Inner τ β) : Daemon τ β :=
  let s' := { s with
    queue := { inner, cancel := s.queue.cancel.reset }
    running := some work }
  match work with
  | .background _ => s'
  | .job job =>
    if s.queue.inner.auth.isEmpty then { s' with handedOther := s.handedOther ++ [job] }
    else { s' with handedAuth := s.handedAuth ++ [job] }

/-- What the worker calls `finish` with. -/
def release (q : Inner τ β) : Work τ β → Inner τ β
  | .job job => q.finish job.jobClass job.uid
  | .background _ => q.finish .camera 0

def onInner (s : Daemon τ β) (inner : Inner τ β) : Daemon τ β :=
  { s with queue := { s.queue with inner } }

def step (s : Daemon τ β) : Event τ β → Option (Daemon τ β)
  | .submit job =>
    match s.queue.submit job with
    | .ok queue => some (s.accepted job queue)
    | .error _ => some s
  | .submitBackground task =>
    match s.queue.inner.submitBackground task with
    | .ok inner => some (s.onInner inner)
    | .error _ => some s
  | .take =>
    if s.running.isSome || s.exited then none
    else
      match s.queue.inner.takeWork with
      | .work work inner => some (s.handed work inner)
      | .drained => some { s with exited := true }
      | .waiting => none
  | .finish =>
    match s.running with
    | some work => some { s.onInner (release s.queue.inner work) with running := none }
    | none => none
  | .close => some (s.onInner s.queue.inner.close)

end Daemon

theorem Daemon.accepted_queue (s : Daemon τ β) (job : Job τ) (queue : Queue τ β) :
    (s.accepted job queue).queue = queue ∧ (s.accepted job queue).running = s.running ∧
      (s.accepted job queue).exited = s.exited := by
  unfold Daemon.accepted
  split
  · exact ⟨rfl, rfl, rfl⟩
  · exact ⟨rfl, rfl, rfl⟩

theorem Daemon.handed_eq (s : Daemon τ β) (work : Work τ β) (inner : Inner τ β) :
    s.handed work inner =
      { s with
        queue := { inner, cancel := s.queue.cancel.reset }
        running := some work
        handedAuth := (s.handed work inner).handedAuth
        handedOther := (s.handed work inner).handedOther } := by
  unfold Daemon.handed
  dsimp only
  split
  · rfl
  · split <;> rfl

def Work.isAuth : Work τ β → Bool
  | .job j => j.jobClass = .auth
  | .background _ => false

/-! ## What a step can do -/

/-- Every step is one of these. -/
inductive Acts (s : Daemon τ β) : Event τ β → Daemon τ β → Prop
  | refused {job : Job τ} : Acts s (.submit job) s
  | refusedBackground {task : β} : Acts s (.submitBackground task) s
  | submitted {job : Job τ} {inner : Inner τ β} (h : s.queue.inner.submit job = .ok inner) :
    Acts s (.submit job) (s.accepted job
      { inner, cancel := if job.jobClass = .auth then s.queue.cancel.requestStop
          else s.queue.cancel })
  | submittedBackground {task : β} {inner : Inner τ β}
      (h : s.queue.inner.submitBackground task = .ok inner) :
      Acts s (.submitBackground task) (s.onInner inner)
  | took {work : Work τ β} {inner : Inner τ β} (hr : s.running = none) (hx : s.exited = false)
      (h : s.queue.inner.takeWork = .work work inner) : Acts s .take (s.handed work inner)
  | exits (hr : s.running = none) (h : s.queue.inner.takeWork = .drained) :
    Acts s .take { s with exited := true }
  | finished {work : Work τ β} (hr : s.running = some work) :
    Acts s .finish { s.onInner (Daemon.release s.queue.inner work) with running := none }
  | closed : Acts s .close (s.onInner s.queue.inner.close)

variable {e : Event τ β}

theorem Daemon.step_acts {s s' : Daemon τ β} (h : s.step e = some s') :
    Acts s e s' := by
  cases e with
  | submit job =>
    simp only [step, Queue.submit] at h
    cases hq : s.queue.inner.submit job with
    | error r =>
      rw [hq] at h
      cases h
      exact .refused
    | ok inner =>
      rw [hq] at h
      cases h
      exact .submitted hq
  | submitBackground task =>
    simp only [step] at h
    cases hq : s.queue.inner.submitBackground task with
    | error r =>
      rw [hq] at h
      cases h
      exact .refusedBackground
    | ok inner =>
      rw [hq] at h
      cases h
      exact .submittedBackground hq
  | take =>
    simp only [step] at h
    split at h
    · cases h
    · next hfree =>
      simp only [Bool.or_eq_true, not_or, Bool.not_eq_true, Option.isSome_eq_false_iff,
        Option.isNone_iff_eq_none] at hfree
      split at h
      · next work inner hw =>
        cases h
        exact .took hfree.1 hfree.2 hw
      · next hd =>
        cases h
        exact .exits hfree.1 hd
      · cases h
  | finish =>
    simp only [step] at h
    split at h
    · next work hr =>
      cases h
      exact .finished hr
    · cases h
  | close =>
    cases h
    exact .closed

/-! ## The invariant -/

/-- What holds of the daemon between any two events. -/
structure Orderly (s : Daemon τ β) : Prop where
  authQueued : ∀ job ∈ s.queue.inner.auth, job.jobClass = .auth
  otherQueued : ∀ job ∈ s.queue.inner.other, job.jobClass ≠ .auth
  /-- `auth_running` is what it says. -/
  authRunning : s.queue.inner.authRunning = s.running.any Work.isAuth
  asked : s.queue.inner.auth ≠ [] → ∀ work, s.running = some work → work.isAuth = false →
    s.queue.cancel.stopRequested = true
  authLog : s.acceptedAuth = s.handedAuth ++ s.queue.inner.auth
  otherLog : s.acceptedOther = s.handedOther ++ s.queue.inner.other
  drained : s.exited = true →
    s.queue.inner.closed = true ∧ s.queue.inner.auth = [] ∧ s.queue.inner.other = []

theorem Orderly.new : Orderly (Daemon.new : Daemon τ β) :=
  ⟨nofun, nofun, rfl, nofun, rfl, rfl, nofun⟩

variable {s : Daemon τ β}

theorem Orderly.submitted {job : Job τ} {inner : Inner τ β} (h : Orderly s)
    (hq : s.queue.inner.submit job = .ok inner) :
    Orderly (s.accepted job
      { inner, cancel := if job.jobClass = .auth then s.queue.cancel.requestStop
          else s.queue.cancel }) := by
  obtain ⟨hopen, hcases⟩ := Inner.submit_ok hq
  have hnotExited : s.exited = true → False := fun hx => by
    rw [(h.drained hx).1] at hopen
    cases hopen
  unfold Daemon.accepted
  rcases hcases with ⟨hk, rfl⟩ | ⟨hk, -, -, rfl⟩ | ⟨hk, -, rfl⟩
  · rw [if_pos hk, if_pos hk]
    refine ⟨?_, h.otherQueued, h.authRunning, ?_, ?_, h.otherLog, fun hx => (hnotExited hx).elim⟩
    · exact List.forall_mem_append.2 ⟨h.authQueued, by simpa using hk⟩
    · intro _ work _ _
      rfl
    · simp only [h.authLog, List.append_assoc]
  · have hne : job.jobClass ≠ .auth := by rw [hk]; decide
    rw [if_neg hne, if_neg hne]
    refine ⟨h.authQueued, ?_, h.authRunning, h.asked, h.authLog, ?_, fun hx => (hnotExited hx).elim⟩
    · exact List.forall_mem_append.2 ⟨h.otherQueued, by simpa using hne⟩
    · simp only [h.otherLog, List.append_assoc]
  · rw [if_neg hk, if_neg hk]
    refine ⟨h.authQueued, ?_, h.authRunning, h.asked, h.authLog, ?_, fun hx => (hnotExited hx).elim⟩
    · exact List.forall_mem_append.2 ⟨h.otherQueued, by simpa using hk⟩
    · simp only [h.otherLog, List.append_assoc]

theorem Orderly.took {work : Work τ β} {inner : Inner τ β} (h : Orderly s)
    (hr : s.running = none) (hx : s.exited = false) (hw : s.queue.inner.takeWork = .work work inner) :
    Orderly (s.handed work inner) := by
  have hidle : s.queue.inner.authRunning = false := by rw [h.authRunning, hr]; rfl
  have hnotExited : s.exited = true → False := fun h => by rw [hx] at h; cases h
  rcases Inner.takeWork_work hw with
    ⟨job, rfl, ha, hq⟩ | ⟨job, rfl, ha, ho, hq⟩ | ⟨task, rfl, ha, ho, -, -, hq⟩
  · have hauth := h.authQueued
    rw [ha] at hauth
    have hjob : job.jobClass = .auth := hauth job List.mem_cons_self
    have hne : s.queue.inner.auth.isEmpty = false := by rw [ha]; rfl
    simp only [Daemon.handed, hne, Bool.false_eq_true, if_false]
    refine ⟨fun j hj => hauth j (List.mem_cons_of_mem _ hj), ?_, ?_, ?_, ?_, ?_,
      fun h => (hnotExited h).elim⟩
    · rw [hq]
      exact h.otherQueued
    · rw [hq]
      simp [Work.isAuth, hjob]
    · intro _ work hwork hnot
      cases hwork
      simp [Work.isAuth, hjob] at hnot
    · rw [h.authLog, ha]
      simp
    · rw [hq]
      exact h.otherLog
  · have hother := h.otherQueued
    rw [ho] at hother
    have hjob : job.jobClass ≠ .auth := hother job List.mem_cons_self
    have he : s.queue.inner.auth.isEmpty = true := by rw [ha]; rfl
    have hinner : inner.auth = [] := by rw [hq]; exact ha
    simp only [Daemon.handed, he, if_true]
    refine ⟨?_, fun j hj => hother j (List.mem_cons_of_mem _ hj), ?_, ?_, ?_, ?_,
      fun h => (hnotExited h).elim⟩
    · rw [hinner]
      nofun
    · rw [hq]
      simp [Work.isAuth, hjob, hidle]
    · intro hne
      exact absurd hinner hne
    · rw [h.authLog, hinner, ha]
    · rw [h.otherLog, ho]
      simp
  · have hinner : inner.auth = [] := by rw [hq]; exact ha
    refine ⟨?_, ?_, ?_, ?_, ?_, ?_, fun h => (hnotExited h).elim⟩
    · simp only [Daemon.handed, hinner]
      nofun
    · rw [show (s.handed (.background task) inner).queue.inner.other = s.queue.inner.other by
        simp only [Daemon.handed]; rw [hq]]
      exact h.otherQueued
    · simp only [Daemon.handed]
      rw [hq]
      simp [Work.isAuth, hidle]
    · intro hne
      exact absurd hinner hne
    · simp only [Daemon.handed, hinner]
      rw [h.authLog, ha]
    · simp only [Daemon.handed]
      rw [hq]
      exact h.otherLog

theorem release_eq (q : Inner τ β) (work : Work τ β) :
    Daemon.release q work =
      { q with
        authRunning := if work.isAuth then false else q.authRunning
        cameraSlots := (Daemon.release q work).cameraSlots } := by
  cases work with
  | job j => simp only [Daemon.release, Inner.finish, Work.isAuth, decide_eq_true_eq]
  | background task =>
    simp only [Daemon.release, Inner.finish, Work.isAuth]
    rfl

theorem Orderly.step {s s' : Daemon τ β} (h : Orderly s)
    (hs : s.step e = some s') : Orderly s' := by
  cases Daemon.step_acts hs with
  | refused => exact h
  | refusedBackground => exact h
  | submitted hq => exact h.submitted hq
  | submittedBackground hq =>
    obtain ⟨hopen, -, rfl⟩ := Inner.submitBackground_ok hq
    exact ⟨h.authQueued, h.otherQueued, h.authRunning, h.asked, h.authLog, h.otherLog, h.drained⟩
  | took hr hx hw => exact h.took hr hx hw
  | exits hr hd =>
    obtain ⟨ha, ho, hc⟩ := Inner.takeWork_drained hd
    exact ⟨h.authQueued, h.otherQueued, h.authRunning, h.asked, h.authLog, h.otherLog,
      fun _ => ⟨hc, ha, ho⟩⟩
  | @finished work hr =>
    rw [release_eq]
    refine ⟨h.authQueued, h.otherQueued, ?_, nofun, h.authLog, h.otherLog, h.drained⟩
    have hrunning : s.queue.inner.authRunning = work.isAuth := by
      rw [h.authRunning, hr, Option.any_some]
    simp [Daemon.onInner, hrunning]
  | closed =>
    exact ⟨h.authQueued, h.otherQueued, h.authRunning, h.asked, h.authLog, h.otherLog,
      fun hx => ⟨rfl, (h.drained hx).2⟩⟩

/-! ## The worker drains a closed queue -/

/-- `n` turns of the worker's loop, and the take that ends it. -/
def turns : Nat → List (Event τ β)
  | 0 => [.take]
  | n + 1 => .take :: .finish :: turns n

theorem mem_turns {n : Nat} (h : e ∈ turns n) : e = .take ∨ e = .finish := by
  induction n with
  | zero => exact .inl (List.mem_singleton.1 h)
  | succ n ih =>
    rcases List.mem_cons.1 h with h | h
    · exact .inl h
    · rcases List.mem_cons.1 h with h | h
      · exact .inr h
      · exact ih h

def Daemon.waiting (s : Daemon τ β) : Nat :=
  s.queue.inner.auth.length + s.queue.inner.other.length

theorem Daemon.turn (hr : s.running = none) (hx : s.exited = false)
    (hc : s.queue.inner.closed = true) (hn : 0 < s.waiting) :
    ∃ s', run step s [.take, .finish] = some s' ∧ s'.running = none ∧ s'.exited = false ∧
      s'.queue.inner.closed = true ∧ s'.waiting + 1 = s.waiting ∧
      s'.acceptedAuth = s.acceptedAuth ∧ s'.acceptedOther = s.acceptedOther := by
  have hqueued : s.queue.inner.auth ≠ [] ∨ s.queue.inner.other ≠ [] := by
    unfold Daemon.waiting at hn
    by_contra hnone
    rw [not_or, not_not, not_not] at hnone
    rw [hnone.1, hnone.2] at hn
    cases hn
  obtain ⟨job, inner, hw⟩ := Inner.takeWork_of_queued hqueued
  have htake : s.step .take = some (s.handed (.job job) inner) := by
    simp only [step, hr, hx, hw]
    rfl
  have hfinish : (s.handed (.job job) inner).step .finish =
      some { (s.handed (.job job) inner).onInner (release inner (.job job)) with running := none } := by
    rw [handed_eq]
    rfl
  refine ⟨_, run_cons_some.2 ⟨_, htake, run_cons_some.2 ⟨_, hfinish, rfl⟩⟩, rfl, ?_⟩
  rw [release_eq, handed_eq]
  rcases Inner.takeWork_work hw with ⟨j, -, ha, hq⟩ | ⟨j, -, ha, ho, hq⟩ | ⟨task, hj, -⟩
  · have hother : inner.other = s.queue.inner.other := by rw [hq]
    have hclosed : inner.closed = true := by rw [hq]; exact hc
    refine ⟨hx, hclosed, ?_, rfl, rfl⟩
    simp only [waiting, onInner, ha, hother, List.length_cons]
    omega
  · have hauth : inner.auth = s.queue.inner.auth := by rw [hq]
    have hclosed : inner.closed = true := by rw [hq]; exact hc
    refine ⟨hx, hclosed, ?_, rfl, rfl⟩
    simp only [waiting, onInner, ho, hauth, List.length_cons]
    omega
  · cases hj

theorem Daemon.drains {n : Nat} (hr : s.running = none) (hx : s.exited = false)
    (hc : s.queue.inner.closed = true) (hn : s.waiting = n) :
    ∃ s', run step s (turns n) = some s' ∧ s'.exited = true ∧
      s'.acceptedAuth = s.acceptedAuth ∧ s'.acceptedOther = s.acceptedOther := by
  induction n generalizing s with
  | zero =>
    have ha : s.queue.inner.auth = [] := List.eq_nil_of_length_eq_zero (by unfold waiting at hn; omega)
    have ho : s.queue.inner.other = [] :=
      List.eq_nil_of_length_eq_zero (by unfold waiting at hn; omega)
    have hd := Inner.takeWork_of_drained ha ho hc
    refine ⟨{ s with exited := true }, ?_, rfl, rfl, rfl⟩
    simp [turns, run, step, hr, hx, hd]
  | succ n ih =>
    obtain ⟨m, hm, hr', hx', hc', hn', ha, ho⟩ := turn hr hx hc (by omega)
    obtain ⟨s', hs', hexited, ha', ho'⟩ := ih hr' hx' hc' (by omega)
    exact ⟨s', run_append_some.2 ⟨m, hm, hs'⟩, hexited, ha'.trans ha, ho'.trans ho⟩

theorem Daemon.finishes (hc : s.queue.inner.closed = true) (hx : s.exited = false) :
    ∃ es s', (∀ e ∈ es, e = Event.finish) ∧ run step s es = some s' ∧ s'.running = none ∧
      s'.exited = false ∧ s'.queue.inner.closed = true ∧
      s'.acceptedAuth = s.acceptedAuth ∧ s'.acceptedOther = s.acceptedOther := by
  cases hr : s.running with
  | none => exact ⟨[], s, nofun, rfl, hr, hx, hc, rfl, rfl⟩
  | some work =>
    refine ⟨[.finish], { s.onInner (release s.queue.inner work) with running := none }, by simp, ?_,
      rfl, hx, ?_, rfl, rfl⟩
    · simp [run, step, hr]
    · rw [release_eq]
      exact hc

/-! ## Priority, preemption and order -/

/-- For every run of submissions and of one worker:
an authentication that is queued is what the worker takes next;
no camera request and no background task is accepted while an authentication is queued or running;
other work that keeps an authentication waiting has been asked to stop;
each queue's requests are handed out in the order they were accepted, none lost and none twice; and
once the queue is closed the worker's own turns hand out every request that was accepted. -/
theorem authentication_first {es : List (Event τ β)} {s : Daemon τ β}
    (h : run Daemon.step Daemon.new es = some s) :
    (∀ s', s.step .take = some s' → s.queue.inner.auth ≠ [] →
        ∃ job, s'.running = some (.job job) ∧ job.jobClass = .auth) ∧
      (∀ job queue, job.jobClass = .camera → s.queue.submit job = .ok queue →
        s.queue.inner.auth = [] ∧ ∀ work, s.running = some work → work.isAuth = false) ∧
      (∀ task inner, s.queue.inner.submitBackground task = .ok inner →
        s.queue.inner.auth = [] ∧ ∀ work, s.running = some work → work.isAuth = false) ∧
      (∀ work, s.running = some work → work.isAuth = false → s.queue.inner.auth ≠ [] →
        s.queue.cancel.stopRequested = true) ∧
      (s.acceptedAuth = s.handedAuth ++ s.queue.inner.auth ∧
        s.acceptedOther = s.handedOther ++ s.queue.inner.other) ∧
      (s.queue.inner.closed = true → ∃ es' s', (∀ e ∈ es', e = .take ∨ e = .finish) ∧
        run Daemon.step s es' = some s' ∧ s'.exited = true ∧
        s'.handedAuth = s.acceptedAuth ∧ s'.handedOther = s.acceptedOther) := by
  have hs : Orderly s := run_invariant Orderly.step Orderly.new h
  have hidle : s.queue.inner.authPending = false →
      s.queue.inner.auth = [] ∧ ∀ work, s.running = some work → work.isAuth = false := by
    intro hp
    simp only [Inner.authPending, Bool.or_eq_false_iff, Bool.not_eq_false', List.isEmpty_iff] at hp
    refine ⟨hp.2, fun work hr => ?_⟩
    have hrunning := hs.authRunning
    rw [hp.1, hr, Option.any_some] at hrunning
    exact hrunning.symm
  refine ⟨?_, ?_, ?_, fun work hr hw ha => hs.asked ha work hr hw, ⟨hs.authLog, hs.otherLog⟩, ?_⟩
  · intro s' hs' hne
    cases Daemon.step_acts hs' with
    | took hr hx hw =>
      rcases Inner.takeWork_work hw with ⟨job, rfl, ha, -⟩ | ⟨job, -, ha, -⟩ | ⟨task, -, ha, -⟩
      · rw [Daemon.handed_eq]
        exact ⟨job, rfl, hs.authQueued job (ha ▸ List.mem_cons_self)⟩
      · exact absurd ha hne
      · exact absurd ha hne
    | exits hr hd => exact absurd (Inner.takeWork_drained hd).1 hne
  · intro job queue hk hq
    unfold Queue.submit at hq
    split at hq
    · cases hq
    · next inner hinner =>
      obtain ⟨-, ⟨hk', -⟩ | ⟨-, hp, -⟩ | ⟨-, hk', -⟩⟩ := Inner.submit_ok hinner
      · rw [hk] at hk'
        cases hk'
      · exact hidle hp
      · exact absurd hk hk'
  · intro task inner hq
    exact hidle (Inner.submitBackground_ok hq).2.1
  · intro hc
    by_cases hx : s.exited = true
    · obtain ⟨-, ha, ho⟩ := hs.drained hx
      refine ⟨[], s, nofun, rfl, hx, ?_, ?_⟩
      · rw [hs.authLog, ha, List.append_nil]
      · rw [hs.otherLog, ho, List.append_nil]
    · obtain ⟨es₁, m, hes₁, hm, hr, hx', hc', ha, ho⟩ :=
        Daemon.finishes hc (Bool.not_eq_true _ ▸ hx)
      obtain ⟨s', hs', hexited, ha', ho'⟩ := Daemon.drains hr hx' hc' rfl
      have hrun := run_append_some.2 ⟨m, hm, hs'⟩
      have hfinal : Orderly s' := run_invariant Orderly.step hs hrun
      obtain ⟨-, hauth, hother⟩ := hfinal.drained hexited
      refine ⟨_, s', ?_, hrun, hexited, ?_, ?_⟩
      · intro e he
        rcases List.mem_append.1 he with he | he
        · exact .inr (hes₁ e he)
        · exact mem_turns he
      · rw [← ha, ← ha', hfinal.authLog, hauth, List.append_nil]
      · rw [← ho, ← ho', hfinal.otherLog, hother, List.append_nil]

/-- An enrolment runs, a login asks for the camera, and the queue is closed: the enrolment was told to
stop and the login is what comes next. -/
theorem authentication_first_preempted :
    ∃ s : Daemon Unit Unit, s.running = some (.job ⟨.camera, 1000, ()⟩) ∧
      s.queue.inner.auth = [⟨.auth, 1001, ()⟩] ∧ s.queue.inner.closed = true ∧
      s.queue.cancel.stopRequested = true ∧
      s.acceptedAuth = s.handedAuth ++ s.queue.inner.auth ∧
      ∃ es s', run Daemon.step s es = some s' ∧ s'.exited = true ∧
        s'.handedAuth = [⟨.auth, 1001, ()⟩] := by
  obtain ⟨s, hs⟩ : ∃ s : Daemon Unit Unit, run Daemon.step Daemon.new
      [.submit ⟨.camera, 1000, ()⟩, .take, .submit ⟨.auth, 1001, ()⟩, .close] = some s := ⟨_, rfl⟩
  obtain ⟨-, -, -, hasked, ⟨hlog, -⟩, hdrains⟩ := authentication_first hs
  cases hs
  obtain ⟨es, s', -, hrun, hexited, hhanded, -⟩ := hdrains rfl
  exact ⟨_, rfl, rfl, rfl, hasked _ rfl rfl (by decide), hlog, es, s', hrun, hexited, hhanded⟩

end Irlume.Arbiter

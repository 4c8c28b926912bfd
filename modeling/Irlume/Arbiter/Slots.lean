import Irlume.Arbiter.Worker

/-!
# The camera slots

`camera_slots` is meant to hold the uids with a camera job queued or running. A slot is taken when a camera job
is submitted, but `finish` gives back the slot of whichever job ends: a plain request of an account that also
has a camera job waiting frees the slot of that camera job.
-/

namespace Irlume.Arbiter

open Irlume.Lib

variable {τ β : Type}

/-! ## What holds a slot -/

def Job.isCameraOf (uid : Nat) (job : Job τ) : Bool := job.jobClass = .camera ∧ job.uid = uid

def Work.jobs : Work τ β → List (Job τ)
  | .job j => [j]
  | .background _ => []

def Daemon.jobs (s : Daemon τ β) : List (Job τ) :=
  s.queue.inner.auth ++ s.queue.inner.other ++ s.running.toList.flatMap Work.jobs

def Daemon.cameraJobs (s : Daemon τ β) (uid : Nat) : Nat := s.jobs.countP (Job.isCameraOf uid)

/-- One camera job at a time for an account other than root, and a slot for each. -/
structure SlotsExact (s : Daemon τ β) : Prop where
  single : ∀ uid, uid ≠ 0 → s.cameraJobs uid ≤ 1
  once : s.queue.inner.cameraSlots.Nodup
  exact : ∀ uid, uid ∈ s.queue.inner.cameraSlots ↔ uid ≠ 0 ∧ 0 < s.cameraJobs uid

/-- The step does not end another class's job of an account with a camera job in the queue. -/
def KeepsSlot (s : Daemon τ β) (e : Event τ β) : Prop :=
  e = .finish → ∀ job, s.running = some (.job job) → job.jobClass ≠ .camera → job.uid ≠ 0 →
    ∀ queued ∈ s.queue.inner.auth ++ s.queue.inner.other, queued.isCameraOf job.uid = false

/-! ## Counting

`SlotsExact` as one equation for each uid, which the steps are checked against.
-/

theorem slotsExact_iff_count (s : Daemon τ β) :
    SlotsExact s ↔ ∀ uid, s.queue.inner.cameraSlots.count uid ≤ 1 ∧
      s.queue.inner.cameraSlots.count uid = if uid = 0 then 0 else s.cameraJobs uid := by
  constructor
  · intro h uid
    have hone := List.nodup_iff_count.1 h.once uid
    refine ⟨hone, ?_⟩
    have hmem := h.exact uid
    rw [← List.count_pos_iff] at hmem
    by_cases hu : uid = 0
    · simp only [hu, if_true] at hmem ⊢
      omega
    · have hle := h.single uid hu
      simp only [hu, ne_eq, not_false_eq_true, true_and, if_false] at hmem ⊢
      omega
  · intro h
    refine ⟨?_, ?_, ?_⟩
    · intro uid hu
      have huid := h uid
      rw [if_neg hu] at huid
      omega
    · rw [List.nodup_iff_count]
      exact fun uid => (h uid).1
    · intro uid
      have huid := h uid
      rw [← List.count_pos_iff]
      by_cases hu : uid = 0
      · rw [if_pos hu] at huid
        simp only [ne_eq, hu, not_true_eq_false, false_and, iff_false]
        rw [hu] at huid
        omega
      · rw [if_neg hu] at huid
        simp only [ne_eq, hu, not_false_eq_true, true_and]
        omega

theorem Daemon.cameraJobs_eq (s : Daemon τ β) (uid : Nat) :
    s.cameraJobs uid = s.queue.inner.auth.countP (Job.isCameraOf uid) +
      s.queue.inner.other.countP (Job.isCameraOf uid) +
      (s.running.toList.flatMap Work.jobs).countP (Job.isCameraOf uid) := by
  rw [Daemon.cameraJobs, Daemon.jobs, List.countP_append, List.countP_append]

theorem countP_singleton_camera (uid : Nat) (job : Job τ) :
    [job].countP (Job.isCameraOf uid) = if job.jobClass = .camera ∧ job.uid = uid then 1 else 0 := by
  simp [List.countP_singleton, Job.isCameraOf]

theorem SlotsExact.congr {s s' : Daemon τ β} (h : SlotsExact s)
    (hjobs : ∀ uid, s'.cameraJobs uid = s.cameraJobs uid)
    (hslots : s'.queue.inner.cameraSlots = s.queue.inner.cameraSlots) : SlotsExact s' := by
  rw [slotsExact_iff_count] at h ⊢
  intro uid
  rw [hslots, hjobs]
  exact h uid

/-! ## One lemma per operation -/

theorem SlotsExact.new : SlotsExact (Daemon.new : Daemon τ β) := by
  rw [slotsExact_iff_count]
  intro uid
  simp [Daemon.new, Queue.new, Inner.new, Daemon.cameraJobs, Daemon.jobs]

variable {s : Daemon τ β}

theorem SlotsExact.submitted {job : Job τ} {inner : Inner τ β}
    {cancel : CancelToken} (h : SlotsExact s) (hq : s.queue.inner.submit job = .ok inner) :
    SlotsExact (s.accepted job { inner, cancel }) := by
  obtain ⟨hqueue, hrunning, -⟩ := s.accepted_queue job { inner, cancel }
  rw [slotsExact_iff_count] at h ⊢
  intro uid
  have huid := h uid
  rw [Daemon.cameraJobs_eq] at huid ⊢
  rw [hqueue, hrunning]
  obtain ⟨-, ⟨hk, hinner⟩ | ⟨hk, -, hfree, hinner⟩ | ⟨-, hk, hinner⟩⟩ :=
    Inner.submit_ok hq
  · simp only [hinner, List.countP_append, countP_singleton_camera, hk]
    simpa using huid
  · have hnot : job.uid ≠ 0 → s.queue.inner.cameraSlots.count job.uid = 0 :=
      fun h0 => List.count_eq_zero_of_not_mem (hfree h0)
    simp only [hinner, List.countP_append, countP_singleton_camera, hk, true_and]
    by_cases h0 : job.uid = 0
    · simp only [h0, ne_eq, not_true_eq_false, if_false]
      by_cases hu : uid = 0
      · simpa [hu] using huid
      · simpa [hu, Ne.symm hu] using huid
    · have hzero := hnot h0
      simp only [ne_eq, h0, not_false_eq_true, if_true, List.count_append, List.count_singleton,
        beq_iff_eq]
      by_cases hu : job.uid = uid
      · subst hu
        simp only [h0, if_true, if_false] at huid ⊢
        omega
      · simpa [hu] using huid
  · simp only [hinner, List.countP_append, countP_singleton_camera, hk]
    simpa using huid

theorem SlotsExact.took {work : Work τ β} {inner : Inner τ β}
    (h : SlotsExact s) (hr : s.running = none) (hw : s.queue.inner.takeWork = .work work inner) :
    SlotsExact (s.handed work inner) := by
  have hslots : inner.cameraSlots = s.queue.inner.cameraSlots := by
    rcases Inner.takeWork_work hw with ⟨_, -, -, hq⟩ | ⟨_, -, -, -, hq⟩ | ⟨_, -, -, -, -, -, hq⟩ <;>
      rw [hq]
  rw [Daemon.handed_eq]
  refine h.congr ?_ hslots
  intro uid
  rw [Daemon.cameraJobs_eq, Daemon.cameraJobs_eq, hr]
  rcases Inner.takeWork_work hw with
    ⟨job, hjob, ha, hq⟩ | ⟨job, hjob, ha, ho, hq⟩ | ⟨task, htask, ha, ho, -, -, hq⟩
  · have hother : inner.other = s.queue.inner.other := by rw [hq]
    simp only [hjob, ha, hother, Option.toList, List.flatMap_cons, List.flatMap_nil, Work.jobs,
      List.countP_cons, List.countP_nil, List.append_nil]
    omega
  · have hauth : inner.auth = s.queue.inner.auth := by rw [hq]
    simp only [hjob, ho, hauth, Option.toList, List.flatMap_cons, List.flatMap_nil, Work.jobs,
      List.countP_cons, List.countP_nil, List.append_nil]
    omega
  · have hauth : inner.auth = s.queue.inner.auth := by rw [hq]
    have hother : inner.other = s.queue.inner.other := by rw [hq]
    simp [htask, hauth, hother, Work.jobs]

/-- The uid the worker calls `finish` with. -/
def Work.uid : Work τ β → Nat
  | .job j => j.uid
  | .background _ => 0

theorem release_count (q : Inner τ β) (work : Work τ β) (uid : Nat) :
    (Daemon.release q work).cameraSlots.count uid =
      q.cameraSlots.count uid - if work.uid = uid then 1 else 0 := by
  have hperm : (Daemon.release q work).cameraSlots.Perm (q.cameraSlots.erase work.uid) := by
    cases work with
    | job j => exact Inner.finish_slots
    | background task => exact Inner.finish_slots
  rw [hperm.count_eq, List.count_erase]
  simp only [beq_iff_eq]

theorem countP_camera_eq_zero (l : List (Job τ)) (uid : Nat) :
    l.countP (Job.isCameraOf uid) = 0 ↔ ∀ job ∈ l, job.isCameraOf uid = false := by
  simp [List.countP_eq_zero]

theorem SlotsExact.finished_iff {work : Work τ β} (h : SlotsExact s)
    (hr : s.running = some work) :
    SlotsExact { s.onInner (Daemon.release s.queue.inner work) with running := none } ↔
      KeepsSlot s .finish := by
  rw [slotsExact_iff_count] at h ⊢
  simp only [Daemon.cameraJobs_eq] at h ⊢
  simp only [Daemon.onInner, release_count, hr] at h ⊢
  have hauth : (Daemon.release s.queue.inner work).auth = s.queue.inner.auth := by rw [release_eq]
  have hother : (Daemon.release s.queue.inner work).other = s.queue.inner.other := by
    rw [release_eq]
  rw [hauth, hother]
  cases work with
  | background task =>
    refine iff_of_true ?_ ?_
    · intro uid
      have huid := h uid
      by_cases hu : uid = 0
      · simp only [hu, if_true] at huid ⊢
        omega
      · have hne : ¬0 = uid := fun h => hu h.symm
        simpa [Work.uid, hu, hne, Work.jobs] using huid
    · intro _ job hjob
      rw [hr] at hjob
      cases hjob
  | job job =>
    have hrunning : ∀ uid, (((some (Work.job job : Work τ β)).toList.flatMap Work.jobs).countP
        (Job.isCameraOf uid)) = if job.jobClass = .camera ∧ job.uid = uid then 1 else 0 :=
      fun uid => countP_singleton_camera uid job
    simp only [hrunning] at h
    simp only [Option.toList, List.flatMap_nil, List.countP_nil, Nat.add_zero, Work.uid]
    constructor
    · intro hafter _ running hj hk h0
      rw [hr] at hj
      cases hj
      have hbefore := h job.uid
      have hthen := hafter job.uid
      simp only [hk, false_and, if_false, h0, if_true] at hbefore hthen
      rw [← countP_camera_eq_zero, List.countP_append]
      omega
    · intro hkeeps uid
      have huid := h uid
      by_cases hu : job.uid = uid
      · subst hu
        by_cases hk : job.jobClass = .camera
        · by_cases h0 : job.uid = 0
          · simp only [h0, if_true] at huid ⊢
            omega
          · simp only [hk, h0, and_self, if_true, if_false] at huid ⊢
            omega
        · by_cases h0 : job.uid = 0
          · simp only [h0, if_true] at huid ⊢
            omega
          · have hnone := (countP_camera_eq_zero _ _).2 (hkeeps rfl job hr hk h0)
            rw [List.countP_append] at hnone
            simp only [hk, false_and, h0, if_true, if_false] at huid ⊢
            omega
      · simp only [hu, and_false, if_false] at huid ⊢
        exact huid

/-! ## Every run -/

theorem SlotsExact.step_iff {s s' : Daemon τ β} {e : Event τ β} (h : SlotsExact s)
    (hs : s.step e = some s') : SlotsExact s' ↔ KeepsSlot s e := by
  have hother : e ≠ .finish → SlotsExact s' → (SlotsExact s' ↔ KeepsSlot s e) :=
    fun he hs' => iff_of_true hs' fun heq => absurd heq he
  cases Daemon.step_acts hs with
  | refused => exact hother nofun h
  | refusedBackground => exact hother nofun h
  | submitted hq => exact hother nofun (h.submitted hq)
  | submittedBackground hq =>
    obtain ⟨-, -, rfl⟩ := Inner.submitBackground_ok hq
    exact hother nofun (h.congr (fun _ => rfl) rfl)
  | took hr hx hw => exact hother nofun (h.took hr hw)
  | exits => exact hother nofun (h.congr (fun _ => rfl) rfl)
  | finished hr => exact h.finished_iff hr
  | closed => exact hother nofun (h.congr (fun _ => rfl) rfl)

/-- In every run, every account but root has at most one camera job and the slots are exactly the
accounts that have one, if and only if no step of the run ends a job of another class whose account
has a camera job in the queue. -/
theorem slotsExact_iff (es : List (Event τ β)) :
    (∀ s ∈ states Daemon.step Daemon.new es, SlotsExact s) ↔
      ∀ x ∈ steps Daemon.step Daemon.new es, KeepsSlot x.1 x.2 :=
  states_forall_iff_steps SlotsExact.step_iff SlotsExact.new es

/-- An account's plain request ends while its camera job waits: a second camera job gets in. -/
theorem slot_freed_by_plain_request :
    ∃ s ∈ states Daemon.step (Daemon.new : Daemon Unit Unit)
        [.submit ⟨.plain, 1000, ()⟩, .submit ⟨.camera, 1000, ()⟩, .take, .finish,
          .submit ⟨.camera, 1000, ()⟩],
      s.cameraJobs 1000 = 2 ∧ ¬SlotsExact s := by
  refine ⟨_, List.getLast_mem (List.cons_ne_nil _ _), rfl, ?_⟩
  intro h
  have hsingle := h.single 1000 (by decide)
  revert hsingle
  decide

end Irlume.Arbiter

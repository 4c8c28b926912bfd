import Irlume.Lib.Machine

/-!
# The state of one lease under its clones

`CameraLease` and `CameraOperationSession` of `lease.rs`, used from many threads. A step is one critical section
of the state's lock or one operation on the count; what the inventory says of the references comes with the step
that asks it.

`stop_stream` reads the state in one section and writes `Stopping` in another. Every other path decides and
writes in one section, or writes a finished state.
-/

namespace Irlume.Lease

open Irlume.Lib

inductive CameraSessionState where
  | acquiring
  | acquired
  | configured
  | streaming
  | stopping
  | released
  | continuityLost
  | fault
  deriving DecidableEq

namespace CameraSessionState

def finished : CameraSessionState → Bool
  | .released | .continuityLost | .fault => true
  | _ => false

def live : CameraSessionState → Bool
  | .acquired | .configured | .streaming | .stopping => true
  | _ => false

theorem not_live_of_finished {s : CameraSessionState} (h : s.finished = true) : s.live = false := by
  cases s <;> first | rfl | cases h

end CameraSessionState

inductive CameraLeaseError where
  | stale
  | poisoned
  | emptyKey
  | invalidTransition (source target : CameraSessionState)
  | splitRequiresSequential
  deriving DecidableEq

/-- One session state and one count of streams. -/
structure CameraLease where
  state : CameraSessionState
  streams : Nat
  split : Bool
  deriving DecidableEq

/-- What the inventory says of the references of the lease. -/
inductive References where
  | valid
  | invalid (error : CameraLeaseError)
  /-- Its lock is poisoned. -/
  | unreadable
  deriving DecidableEq

/-! ## The operations, section by section -/

inductive AfterValidation where
  | done
  | startStream
  | transition (target : CameraSessionState)
  deriving DecidableEq

/-- What a thread does next. -/
inductive Pc where
  | idle (answer : Option (Except CameraLeaseError Unit))
  | validate (next : AfterValidation)
  | checkReferences (next : AfterValidation)
  | loseContinuity (error : CameraLeaseError)
  /-- The last section of `start_stream`. -/
  | startStream
  /-- The last section of `transition`. -/
  | transition (target : CameraSessionState)
  | countDown
  | resetCount
  | setFault
  | readStreaming
  | setStopping
  | readUnfinished
  | setReleased
  deriving DecidableEq

def AfterValidation.pc : AfterValidation → Pc
  | .done => .idle (some (.ok ()))
  | .startStream => .startStream
  | .transition target => .transition target

inductive Operation where
  | startStream
  | stopStream
  | validate
  | transition (target : CameraSessionState)
  | fault
  | dropSession (releaseOnDrop : Bool)

def Operation.pc : Operation → Pc
  | .startStream => .validate .startStream
  | .stopStream => .countDown
  | .validate => .validate .done
  | .transition target => .validate (.transition target)
  | .fault => .setFault
  | .dropSession releaseOnDrop => if releaseOnDrop then .readUnfinished else .idle none

def refuse (error : CameraLeaseError) : Pc := .idle (some (.error error))

def transitionValid : CameraSessionState → CameraSessionState → Bool
  | .acquired, .configured => true
  | .configured, .streaming => true
  | .streaming, .stopping => true
  | .stopping, .released => true
  | .acquired, .released => true
  | .configured, .released => true
  | _, _ => false

def section? (l : CameraLease) (references : References) : Pc → Option (CameraLease × Pc)
  | .idle _ => none
  | .validate next =>
    match l.state with
    | .continuityLost | .released => some (l, refuse .stale)
    | .fault => some (l, refuse .poisoned)
    | _ => some (l, .checkReferences next)
  | .checkReferences next =>
    match references with
    | .valid => some (l, next.pc)
    | .invalid error => some (l, .loseContinuity error)
    -- a split lease answers before it would record the loss
    | .unreadable => some (l, if l.split then refuse .poisoned else .loseContinuity .poisoned)
  | .loseContinuity error => some ({ l with state := .continuityLost }, refuse error)
  | .startStream =>
    if l.split && l.streams ≠ 0 then some (l, refuse .splitRequiresSequential)
    else if !l.state.live then some (l, refuse (.invalidTransition l.state .streaming))
    else
      some ({ l with state := .streaming, streams := (l.streams + 1) % 2 ^ 64 }, .idle (some (.ok ())))
  | .transition target =>
    if transitionValid l.state target then some ({ l with state := target }, .idle (some (.ok ())))
    else some (l, refuse (.invalidTransition l.state target))
  | .countDown =>
    some ({ l with streams := (l.streams + 2 ^ 64 - 1) % 2 ^ 64 },
      if l.streams = 0 then .resetCount else if l.streams = 1 then .readStreaming else .idle none)
  | .resetCount => some ({ l with streams := 0 }, .setFault)
  | .setFault => some ({ l with state := .fault }, .idle none)
  | .readStreaming => some (l, if l.state = .streaming then .setStopping else .idle none)
  | .setStopping => some ({ l with state := .stopping }, .idle none)
  | .readUnfinished => some (l, if l.state.finished then .idle none else .setReleased)
  | .setReleased => some ({ l with state := .released }, .idle none)

/-! ## The threads -/

structure Threads where
  lease : CameraLease
  pc : Nat → Pc

inductive ThreadEvent where
  | call (thread : Nat) (operation : Operation)
  | proceed (thread : Nat) (references : References)

namespace Threads

def step (w : Threads) : ThreadEvent → Option Threads
  | .call thread operation =>
    match w.pc thread with
    | .idle _ => some { w with pc := Function.update w.pc thread operation.pc }
    | _ => none
  | .proceed thread references =>
    (section? w.lease references (w.pc thread)).map fun (lease, pc) =>
      { lease := lease, pc := Function.update w.pc thread pc }

/-- The event is the last section of a `start_stream`, and it succeeds. -/
def StartSucceeds (w : Threads) (e : ThreadEvent) : Prop :=
  ∃ thread references w', e = .proceed thread references ∧ w.pc thread = .startStream ∧
    w.step e = some w' ∧ w'.pc thread = .idle (some (.ok ()))

/-- The run never leaves a finished state, and starts no stream from there. -/
def StaysFinished (w : Threads) (es : List ThreadEvent) : Prop :=
  ∀ es₁ es₂ es₃ m t, es = es₁ ++ es₂ ++ es₃ → run step w es₁ = some m →
    m.lease.state.finished = true → run step m es₂ = some t →
      t.lease.state.live = false ∧ ∀ e ∈ es₃.head?, ¬t.StartSucceeds e

/-- A `stop_stream` that has read `Streaming` writes `Stopping` over a finished state. -/
def Resurrects (w : Threads) (e : ThreadEvent) : Prop :=
  ∃ thread references, e = .proceed thread references ∧ w.pc thread = .setStopping ∧
    w.lease.state.finished = true

/-! ## One step -/

theorem transitionValid_live {source target : CameraSessionState}
    (h : transitionValid source target = true) : source.live = true := by
  unfold transitionValid at h
  split at h <;> first | rfl | cases h

theorem section?_finished {l l' : CameraLease} {references : References} {pc pc' : Pc}
    (h : section? l references pc = some (l', pc')) (hfinished : l.state.finished = true) :
    (l'.state.finished = true ↔ pc ≠ .setStopping) ∧ (l'.state.live = true ↔ pc = .setStopping) ∧
      (pc = .startStream → pc' ≠ .idle (some (.ok ()))) := by
  have hlive := CameraSessionState.not_live_of_finished hfinished
  cases pc with
  | idle answer => cases h
  | validate next =>
    simp only [section?] at h
    split at h <;> (cases h; simp [hfinished, hlive])
  | checkReferences next =>
    simp only [section?] at h
    split at h <;> (cases h; simp [hfinished, hlive])
  | startStream =>
    simp only [section?] at h
    split at h
    · cases h
      simp [hfinished, hlive, refuse]
    · rw [hlive, Bool.not_false, if_pos rfl] at h
      cases h
      simp [hfinished, hlive, refuse]
  | transition target =>
    have hinvalid : transitionValid l.state target = false := by
      rw [← Bool.not_eq_true]
      intro hvalid
      rw [transitionValid_live hvalid] at hlive
      cases hlive
    simp only [section?, hinvalid] at h
    cases h
    simp [hfinished, hlive]
  | countDown | resetCount | readStreaming | readUnfinished =>
    cases h
    simp [hfinished, hlive]
  | loseContinuity | setFault | setStopping | setReleased =>
    cases h
    simp [CameraSessionState.finished, CameraSessionState.live]

theorem step_finished {w w' : Threads} {e : ThreadEvent} (h : w.step e = some w')
    (hfinished : w.lease.state.finished = true) :
    (w'.lease.state.finished = true ↔ ¬w.Resurrects e) ∧
      (w'.lease.state.live = true ↔ w.Resurrects e) ∧ ¬w.StartSucceeds e := by
  cases e with
  | call thread operation =>
    simp only [step] at h
    split at h
    · cases h
      simp [Resurrects, StartSucceeds, hfinished, CameraSessionState.not_live_of_finished hfinished]
    · cases h
  | proceed thread references =>
    obtain ⟨⟨l, pc⟩, hsection, rfl⟩ := Option.map_eq_some_iff.1 h
    obtain ⟨hkeeps, hlive, hstart⟩ := section?_finished hsection hfinished
    have hresurrects : w.Resurrects (.proceed thread references) ↔ w.pc thread = .setStopping := by
      simp [Resurrects, hfinished]
    refine ⟨?_, ?_, ?_⟩
    · rw [hresurrects]
      exact hkeeps
    · rw [hresurrects]
      exact hlive
    · rintro ⟨thread', references', w', heq, hpc, hstep, hok⟩
      cases heq
      cases h.symm.trans hstep
      dsimp only at hok
      rw [Function.update_self] at hok
      exact hstart hpc hok

/-! ## Whole runs -/

/-- **A finished lease stays finished exactly as long as no `stop_stream` writes over it.** -/
theorem staysFinished_iff (w : Threads) (es : List ThreadEvent) :
    w.StaysFinished es ↔ ∀ x ∈ steps step w es, ¬x.1.Resurrects x.2 := by
  constructor
  · intro h x hx hresurrects
    obtain ⟨es₁, es₂, heq, hrun, hsome⟩ := mem_steps_iff.1 hx
    obtain ⟨w', hstep⟩ := Option.isSome_iff_exists.1 hsome
    have hfinished : x.1.lease.state.finished = true := by
      obtain ⟨-, -, -, -, hfinished⟩ := hresurrects
      exact hfinished
    have hlive := ((step_finished hstep hfinished).2.1).2 hresurrects
    have hrun' : run step x.1 [x.2] = some w' := run_cons_some.2 ⟨w', hstep, rfl⟩
    have hnot := (h es₁ [x.2] es₂ x.1 w' (by rw [heq]; simp) hrun hfinished hrun').1
    rw [hlive] at hnot
    cases hnot
  · intro h es₁ es₂ es₃ m t heq hrun hfinished hrun'
    have hmid : ∀ x ∈ steps step m es₂, ¬x.1.Resurrects x.2 := by
      intro x hx
      obtain ⟨fs₁, fs₂, hfs, hfrun, hsome⟩ := mem_steps_iff.1 hx
      refine h x (mem_steps_iff.2 ⟨es₁ ++ fs₁, fs₂ ++ es₃, ?_, run_append_some.2 ⟨m, hrun, hfrun⟩, hsome⟩)
      rw [heq, hfs]
      simp
    have ht : t.lease.state.finished = true :=
      run_invariant_steps (I := fun w => w.lease.state.finished = true)
        (C := fun w e => ¬w.Resurrects e)
        (fun hC hI hstep => (step_finished hstep hI).1.2 hC) hmid hfinished hrun'
    refine ⟨CameraSessionState.not_live_of_finished ht, fun e _ hsucceeds => ?_⟩
    obtain ⟨_, _, w', -, -, hstep, -⟩ := id hsucceeds
    exact (step_finished hstep ht).2.2 hsucceeds

/-- A stream is stopped by one thread while another declares the fault, and a new stream starts. -/
def faultBetween : List ThreadEvent :=
  [.call 0 .startStream, .proceed 0 .valid, .proceed 0 .valid, .proceed 0 .valid,
    .call 0 .stopStream, .proceed 0 .valid, .proceed 0 .valid,
    .call 1 .fault, .proceed 1 .valid,
    .proceed 0 .valid,
    .call 0 .startStream, .proceed 0 .valid, .proceed 0 .valid, .proceed 0 .valid]

/-- A faulted lease goes on to stream. -/
theorem not_staysFinished_faultBetween :
    ¬StaysFinished ⟨⟨.acquired, 0, false⟩, fun _ => .idle none⟩ faultBetween := by
  intro h
  have hstop := (h (faultBetween.take 9) [.proceed 0 .valid] (faultBetween.drop 10) _ _ rfl rfl rfl rfl).1
  cases hstop

end Threads

end Irlume.Lease

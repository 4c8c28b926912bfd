import Irlume.Lib.Machine
import Irlume.Lib.Custody

/-!
# Capture shutdown

`irlume-camera/src/capture_shutdown.rs`: what a stream's kernel-facing owners wait for. A call of a producer
takes several atomic steps, under one lock after the other, and what is left of it between two of them (`Rest`)
holds the owners it has taken out of one lock and not yet put behind another. The machine below has any number
of calls under way on any number of producers of one domain.

An owner is named by the number of owners handed over before it.
-/

namespace Irlume.Capture

open Irlume.Lib

abbrev Owner := Nat

/-! ## The domain -/

inductive Refusal where
  | unconfirmedShutdown
  | startedTwice
  deriving DecidableEq

structure Domain where
  faulted : Bool
  retained : List Owner

def Domain.check (domain : Domain) : Except Refusal Unit :=
  if domain.faulted then .error .unconfirmedShutdown else .ok ()

/-- What `retain` says when it is the first to set the fault flag. -/
def faultLine : String :=
  "irlume: main camera stream stop is unconfirmed; retaining resources and refusing further capture in this process"

/-! ## The producer

Each function is what its call does while it has the producer's lock. -/

inductive Phase where
  | neverStarted
  | producing
  | stopped
  | unconfirmed
  deriving DecidableEq

/-- The state behind the lock that a producer's clones share. -/
structure Producer where
  phase : Phase
  deferred : List Owner

namespace Producer

def new : Producer := ⟨.neverStarted, []⟩

def begin (state : Producer) : Except Refusal Producer :=
  if state.phase ≠ .neverStarted then .error .startedTwice else .ok { state with phase := .producing }

def isQuiescent (state : Producer) : Bool :=
  match state.phase with
  | .neverStarted | .stopped => true
  | .producing | .unconfirmed => false

/-- The state after and the owners to drop; `none` once the producer is quarantined. -/
def stopped (state : Producer) : Option (Producer × List Owner) :=
  if state.phase = .unconfirmed then none else some (⟨.stopped, []⟩, state.deferred)

def unconfirmed (state : Producer) : Producer × List Owner := (⟨.unconfirmed, []⟩, state.deferred)

/-- What `after_stop` does with the owner. -/
inductive Disposal where
  | drop
  | leaveDeferred
  | retain

def afterStop (state : Producer) (owner : Owner) : Producer × Disposal :=
  match state.phase with
  | .neverStarted | .stopped => (state, .drop)
  | .producing => ({ state with deferred := state.deferred ++ [owner] }, .leaveDeferred)
  | .unconfirmed => (state, .retain)

end Producer

/-! ## Calls -/

inductive Call where
  | check
  | begin (producer : Nat)
  | isQuiescent (producer : Nat)
  | stopped (producer : Nat)
  | unconfirmed (producer : Nat)
  | afterStop (producer : Nat)

inductive Returned where
  | unit
  | admission (result : Except Refusal Unit)
  | quiescent (answer : Bool)

/-- What is left of a call, with the owners it holds. -/
inductive Rest where
  | check
  | begin (producer : Nat)
  /-- `begin` after its domain check. -/
  | beginChecked (producer : Nat)
  | isQuiescent (producer : Nat)
  | stopped (producer : Nat)
  | unconfirmed (producer : Nat)
  | afterStop (producer : Nat) (owner : Owner)
  | drop (owners : List Owner)
  | retain (owners : List Owner)
  /-- `retain` after it has set the fault flag. -/
  | append (owners : List Owner) (firstFault : Bool)
  | sayFault
  | returned (value : Returned)

namespace Rest

/-- The owners a call holds: those it was given or has taken, and has not dropped or put anywhere. -/
def owners : Rest → List Owner
  | .afterStop _ owner => [owner]
  | .drop owners | .retain owners | .append owners _ => owners
  | _ => []

end Rest

/-- What is left of a call when it starts. The owner is the one `after_stop` is given. -/
def Call.enter (owner : Owner) : Call → Rest
  | .check => .check
  | .begin p => .begin p
  | .isQuiescent p => .isQuiescent p
  | .stopped p => .stopped p
  | .unconfirmed p => .unconfirmed p
  | .afterStop p => .afterStop p owner

/-- What all the calls share, and the owners dropped so far. -/
structure Memory where
  domain : Domain
  producers : Nat → Producer
  dropped : List Owner
  stderr : List String

def Memory.setProducer (m : Memory) (p : Nat) (state : Producer) : Memory :=
  { m with producers := Function.update m.producers p state }

def Memory.setDomain (m : Memory) (domain : Domain) : Memory := { m with domain := domain }

/-- The next atomic step of a call: what it does to the memory, and what is then left of the call. -/
def advance (m : Memory) : Rest → Memory × Rest
  | .check => (m, .returned (.admission m.domain.check))
  | .begin p =>
    match m.domain.check with
    | .error refusal => (m, .returned (.admission (.error refusal)))
    | .ok () => (m, .beginChecked p)
  | .beginChecked p =>
    match (m.producers p).begin with
    | .error refusal => (m, .returned (.admission (.error refusal)))
    | .ok state => (m.setProducer p state, .returned (.admission (.ok ())))
  | .isQuiescent p => (m, .returned (.quiescent (m.producers p).isQuiescent))
  | .stopped p =>
    match (m.producers p).stopped with
    | none => (m, .returned .unit)
    | some (state, deferred) => (m.setProducer p state, .drop deferred)
  | .unconfirmed p =>
    (m.setProducer p (m.producers p).unconfirmed.1, .retain (m.producers p).unconfirmed.2)
  | .afterStop p owner =>
    match (m.producers p).afterStop owner with
    | (state, .drop) => (m.setProducer p state, .drop [owner])
    | (state, .leaveDeferred) => (m.setProducer p state, .returned .unit)
    | (state, .retain) => (m.setProducer p state, .retain [owner])
  | .drop [] => (m, .returned .unit)
  | .drop (owner :: owners) => ({ m with dropped := m.dropped ++ [owner] }, .drop owners)
  | .retain owners =>
    (m.setDomain { m.domain with faulted := true }, .append owners (!m.domain.faulted))
  | .append owners firstFault =>
    (m.setDomain { m.domain with retained := m.domain.retained ++ owners },
      if firstFault then .sayFault else .returned .unit)
  | .sayFault => ({ m with stderr := m.stderr ++ [faultLine] }, .returned .unit)
  | .returned value => (m, .returned value)

/-! ## Any number of calls -/

structure Running where
  call : Call
  rest : Rest

/-- Every call made so far, and the producer of every owner handed over so far. -/
structure Process where
  memory : Memory
  calls : List Running
  handed : List Nat

/-- No call was made yet. A producer that no call names is as good as one that is not made yet. -/
def Process.initial : Process where
  memory := ⟨⟨false, []⟩, fun _ => .new, [], []⟩
  calls := []
  handed := []

inductive Event where
  | call (c : Call)
  /-- The call of that number takes its next atomic step. -/
  | step (i : Nat)

def Rest.isReturned : Rest → Bool
  | .returned _ => true
  | _ => false

def Call.hands : Call → List Nat
  | .afterStop p => [p]
  | _ => []

def step (s : Process) : Event → Option Process
  | .call c =>
    some { s with
      calls := s.calls ++ [⟨c, c.enter s.handed.length⟩]
      handed := s.handed ++ c.hands }
  | .step i =>
    match s.calls[i]? with
    | none => none
    | some running =>
      if running.rest.isReturned then none
      else
        some { s with
          memory := (advance s.memory running.rest).1
          calls := s.calls.set i ⟨running.call, (advance s.memory running.rest).2⟩ }

end Irlume.Capture

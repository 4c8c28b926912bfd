import Irlume.Lib.Machine
import Mathlib.Data.List.Destutter
import Mathlib.Data.List.Sort

/-!
# The lease authority

`LeaseAuthority` of `lease.rs`: one mutex over the active leases and the waiting requests, and one
condition variable. A step of the model is one critical section. A request that cannot be granted
goes to sleep on the condition variable; from there it may wake at any time, signalled or not,
timed out or not. Whether its deadline has passed when it looks at the clock is part of the event.
-/

namespace Irlume.Lease

open Irlume.Lib

inductive CameraOperationKind where
  | capture
  | authentication
  | enrollment
  | preview
  | diagnostics
  | setup
  deriving DecidableEq

/-- The errors of `acquire` on a lock nobody poisoned. -/
inductive AcquireError where
  | deadlineExpired (currentOwner : Option CameraOperationKind)
  | tokenExhausted
  | emptyKey

structure ActiveLease where
  token : Nat
  operation : CameraOperationKind

structure LeaseState (κ : Type) where
  nextToken : Nat
  nextWaiter : Nat
  active : κ → Option ActiveLease
  waiters : Nat → Option (List κ)

structure AuthorityPermit (κ : Type) where
  token : Nat
  keys : List κ

/-- `u64::checked_add(1)` -/
def checkedSucc (n : Nat) : Option Nat := if n + 1 < 2 ^ 64 then some (n + 1) else none

variable {κ : Type} [LinearOrder κ]

/-! ## The critical sections -/

/-- How a critical section of a request ends. -/
inductive Outcome (κ : Type) where
  | granted (permit : AuthorityPermit κ)
  | failed (error : AcquireError)
  /-- Asleep on the condition variable. -/
  | sleeps

/-- What a critical section leaves, and whether it called `notify_all`. -/
structure Section (κ : Type) where
  state : LeaseState κ
  outcome : Outcome κ
  notified : Bool

namespace LeaseState

scoped instance (key : κ) (keys : List κ) : Decidable (key ∈ keys) := List.instDecidableMemOfLawfulBEq key keys

def new : LeaseState κ := ⟨0, 0, fun _ => none, fun _ => none⟩

/-- A request registered before `waiter` shares a key. -/
def earlierConflict (s : LeaseState κ) (waiter : Nat) (keys : List κ) : Bool :=
  (List.range waiter).any fun w => (s.waiters w).any fun waiting => waiting.any (· ∈ keys)

def free (s : LeaseState κ) (keys : List κ) : Bool := keys.all fun key => (s.active key).isNone

def grantable (s : LeaseState κ) (waiter : Nat) (keys : List κ) : Bool :=
  !s.earlierConflict waiter keys && s.free keys

def currentOwner (s : LeaseState κ) (keys : List κ) : Option CameraOperationKind :=
  keys.findSome? fun key => (s.active key).map ActiveLease.operation

def removeWaiter (s : LeaseState κ) (waiter : Nat) : LeaseState κ :=
  { s with waiters := Function.update s.waiters waiter none }

def fail (s : LeaseState κ) (waiter : Nat) (error : AcquireError) : Section κ :=
  ⟨s.removeWaiter waiter, .failed error, true⟩

/-- One round of the loop of `acquire`. -/
def round (s : LeaseState κ) (waiter : Nat) (keys : List κ) (operation : CameraOperationKind)
    (expired : Bool) : Section κ :=
  if s.grantable waiter keys then
    match checkedSucc s.nextToken with
    | none => s.fail waiter .tokenExhausted
    | some token =>
      { state :=
          { s.removeWaiter waiter with
            nextToken := token
            active := fun key => if key ∈ keys then some ⟨token, operation⟩ else s.active key }
        outcome := .granted ⟨token, keys⟩
        notified := false }
  else if expired then s.fail waiter (.deadlineExpired (s.currentOwner keys))
  else ⟨s, .sleeps, false⟩

def keySet (keys : List κ) : List κ := (keys.insertionSort (· ≤ ·)).destutter (· ≠ ·)

/-- The first critical section of `acquire`. -/
def acquire (s : LeaseState κ) (keys : List κ) (operation : CameraOperationKind) (expired : Bool) :
    Section κ :=
  if keySet keys = [] then ⟨s, .failed .emptyKey, false⟩
  else
    match checkedSucc s.nextWaiter with
    | none => ⟨s, .failed .tokenExhausted, false⟩
    | some waiter =>
      { s with nextWaiter := waiter, waiters := Function.update s.waiters waiter (some (keySet keys)) }.round
        waiter (keySet keys) operation expired

/-- What follows when `wait_timeout` returns. -/
def wake (s : LeaseState κ) (waiter : Nat) (keys : List κ) (operation : CameraOperationKind)
    (timedOut expired : Bool) : Section κ :=
  if timedOut then s.fail waiter (.deadlineExpired (s.currentOwner keys))
  else s.round waiter keys operation expired

/-- `AuthorityPermit::drop` -/
def drop (s : LeaseState κ) (permit : AuthorityPermit κ) : LeaseState κ :=
  { s with
    active := fun key =>
      if key ∈ permit.keys ∧ (s.active key).any (·.token = permit.token) then none else s.active key }

end LeaseState

/-! ## The calls -/

inductive Call (κ : Type) where
  /-- Not in `acquire` and without a permit; the error of its last call, if it ended in one. -/
  | idle (error : Option AcquireError)
  /-- Asleep, and whether `notify_all` was called since it fell asleep. -/
  | asleep (waiter : Nat) (keys : List κ) (operation : CameraOperationKind) (signalled : Bool)
  /-- Holding the permit it was granted as `waiter`. -/
  | holding (waiter : Nat) (permit : AuthorityPermit κ)

namespace Call

variable {κ : Type}

def signal : Call κ → Call κ
  | .asleep waiter keys operation _ => .asleep waiter keys operation true
  | call => call

def signalled : Call κ → Bool
  | .asleep _ _ _ signalled => signalled
  | _ => false

def asleep? : Call κ → Option (Nat × List κ)
  | .asleep waiter keys _ _ => some (waiter, keys)
  | _ => none

def permit? : Call κ → Option (AuthorityPermit κ)
  | .holding _ permit => some permit
  | _ => none

/-- The number the last request of the caller drew, while it waits or is served. -/
def waiter? : Call κ → Option Nat
  | .idle _ => none
  | .asleep waiter _ _ _ => some waiter
  | .holding waiter _ => some waiter

@[simp] theorem asleep?_signal (c : Call κ) : c.signal.asleep? = c.asleep? := by cases c <;> rfl

@[simp] theorem permit?_signal (c : Call κ) : c.signal.permit? = c.permit? := by cases c <;> rfl

theorem signalled_signal {c : Call κ} {a : Nat × List κ} (h : c.asleep? = some a) :
    c.signal.signalled = true := by
  cases c with
  | asleep => rfl
  | _ => cases h

end Call

/-- The authority with every call that uses it, so that the claims of a permit and of a waiter can be compared
with the call they belong to. -/
structure World (κ : Type) where
  state : LeaseState κ
  calls : Nat → Call κ
  /-- Whether the last step called `notify_all`. -/
  notified : Bool

inductive Event (κ : Type) where
  | acquire (caller : Nat) (keys : List κ) (operation : CameraOperationKind) (expired : Bool)
  | wake (caller : Nat) (timedOut expired : Bool)
  | dropPermit (caller : Nat)

def Event.caller {κ : Type} : Event κ → Nat
  | .acquire caller _ _ _ => caller
  | .wake caller _ _ => caller
  | .dropPermit caller => caller

namespace World

def new : World κ := ⟨.new, fun _ => .idle none, false⟩

def settle (waiter : Nat) (keys : List κ) (operation : CameraOperationKind) : Outcome κ → Call κ
  | .granted permit => .holding waiter permit
  | .failed error => .idle (some error)
  | .sleeps => .asleep waiter keys operation false

/-- One caller moves on; `notify_all` reaches the calls that are asleep at that time. -/
def move (w : World κ) (caller : Nat) (state : LeaseState κ) (call : Call κ) (notified : Bool) :
    World κ where
  state := state
  calls := Function.update (fun r => if notified then (w.calls r).signal else w.calls r) caller call
  notified := notified

def step (w : World κ) : Event κ → Option (World κ)
  | .acquire caller keys operation expired =>
    match w.calls caller with
    | .idle _ =>
      let s := w.state.acquire keys operation expired
      some (w.move caller s.state
        (settle (w.state.nextWaiter + 1) (LeaseState.keySet keys) operation s.outcome) s.notified)
    | _ => none
  | .wake caller timedOut expired =>
    match w.calls caller with
    | .asleep waiter keys operation _ =>
      let s := w.state.wake waiter keys operation timedOut expired
      some (w.move caller s.state (settle waiter keys operation s.outcome) s.notified)
    | _ => none
  | .dropPermit caller =>
    match w.calls caller with
    | .holding _ permit => some (w.move caller (w.state.drop permit) (.idle none) true)
    | _ => none

end World

end Irlume.Lease

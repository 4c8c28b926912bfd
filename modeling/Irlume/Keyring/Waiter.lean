import Irlume.Lib.Transcript

/-!
# Waiting for gnome-keyring

The waiter of `waiter.rs`. Everything it needs of the outside is a call that any answer may come back from: the
clock, the stop signal, the user bus, the keyring file and the control socket. A loop of the source takes the
number of rounds it may still make, so that a waiter cut short anywhere is a waiter with few rounds; running out
of them is an error of its own. A subtraction of times that would go below zero is another.
-/

namespace Irlume.Keyring

open Irlume.Lib

/-! ## What crosses the boundary -/

/-- A request of gnome-keyring's control protocol. -/
inductive ControlOp where
  | change
  | unlock
  deriving DecidableEq

inductive ControlResult where
  | ok
  | denied
  | failed
  | noDaemon
  | unknown (code : Nat)

/-- What the waiter observed about the owner of `org.gnome.keyring`. -/
inductive Identity where
  | serves (ownerPid : Nat)
  | mismatch (ownerPid : Nat)
  | gone

/-- Which control-socket listener may receive the token. -/
inductive Expect where
  | owner (ownerPid : Nat)
  | ownerOrManager (ownerPid : Nat)
  | peer (pid : Nat)
  | anyPeer
  deriving DecidableEq

inductive Sent where
  | answered (result : ControlResult) (peerPid : Nat)
  | peerMismatch (peerPid : Nat)
  | unreachable

inductive Status where
  | waiting
  | delivered
  | failed
  deriving DecidableEq

/-- How one wait ended. -/
inductive Outcome where
  | delivered (afterMs daemonPid : Nat)
  | stale (daemonPid : Nat)
  | gaveUp (boundSecs : Nat)
  | noGnomeKeyring
  | keyringMissing
  | stopped

/-- The journal catalog. -/
inductive Event where
  | waiting (boundSecs uid : Nat)
  | delivered (afterMs daemonPid : Nat)
  | stale (daemonPid : Nat)
  | gaveUp (boundSecs : Nat)
  | noGnomeKeyring
  | identityMismatch (ownerPid : Nat) (peerPid : Option Nat)
  | noBus
  | keyringMissing
  | stopped
  deriving DecidableEq

def Outcome.status : Outcome → Status
  | .delivered _ _ => .delivered
  | _ => .failed

def Outcome.event : Outcome → Event
  | .delivered afterMs daemonPid => .delivered afterMs daemonPid
  | .stale daemonPid => .stale daemonPid
  | .gaveUp boundSecs => .gaveUp boundSecs
  | .noGnomeKeyring => .noGnomeKeyring
  | .keyringMissing => .keyringMissing
  | .stopped => .stopped

/-- The user bus went away while the waiter was using it. -/
inductive BusLost where
  | busLost

/-- A time in nanoseconds, on the clock or between two of its readings. -/
abbrev Time := Nat

/-- The calls of `World`. -/
inductive Op where
  | now
  | stopRequested
  | keyringExists
  | controlSocketExists
  | sleep (pause : Time)
  | log (event : Event)
  | report (status : Status)
  | connectBus
  | owner
  | nextOwnerChange (timeout : Time)
  | ownerPid (owner : String)
  | identify (owner : String)
  | send (op : ControlOp) (args : List (List UInt8)) (expect : Expect)
  deriving DecidableEq

abbrev Answer : Op → Type
  | .now => Time
  | .stopRequested | .keyringExists | .controlSocketExists => Bool
  | .sleep _ | .log _ | .report _ => Unit
  | .connectBus => Except BusLost Unit
  | .owner => Except BusLost (Option String)
  | .nextOwnerChange _ => Except BusLost (Option (Option String))
  | .ownerPid _ => Option Nat
  | .identify _ => Identity
  | .send _ _ _ => Sent

/-- Why a wait has no outcome. -/
inductive Cut where
  | rounds
  /-- A subtraction of times would have gone below zero. -/
  | underflow

abbrev Waiter := Fallible Op Answer Cut

def ask (op : Op) : Waiter (Answer op) := Fallible.ask op

namespace World

def now : Waiter Time := ask .now
def stopRequested : Waiter Bool := ask .stopRequested
def keyringExists : Waiter Bool := ask .keyringExists
def controlSocketExists : Waiter Bool := ask .controlSocketExists
def sleep (pause : Time) : Waiter Unit := ask (.sleep pause)
def log (event : Event) : Waiter Unit := ask (.log event)
def report (status : Status) : Waiter Unit := ask (.report status)
def connectBus : Waiter (Except BusLost Unit) := ask .connectBus
def owner : Waiter (Except BusLost (Option String)) := ask .owner
def nextOwnerChange (timeout : Time) : Waiter (Except BusLost (Option (Option String))) := ask (.nextOwnerChange timeout)
def ownerPid (owner : String) : Waiter (Option Nat) := ask (.ownerPid owner)
def identify (owner : String) : Waiter Identity := ask (.identify owner)
def send (op : ControlOp) (args : List (List UInt8)) (expect : Expect) : Waiter Sent := ask (.send op args expect)

end World

/-- `a - b` of two times. -/
def sub (a b : Time) : Waiter Time := if b ≤ a then pure (a - b) else throw .underflow

/-! ## The plan -/

def seconds (n : Nat) : Time := n * 1000000000
def millis (n : Nat) : Time := n * 1000000

def busGrace : Time := seconds 5
def busRetry : Time := millis 100
def controlGrace : Time := seconds 15
def pollInterval : Time := millis 250
def waitSlice : Time := millis 250
def retryAfter : Time := millis 500

/-- Fixed inputs of one wait. -/
structure Plan where
  started : Time
  bound : Time
  uid : Nat

namespace Plan

def deadline (plan : Plan) : Time := plan.started + plan.bound
def controlDeadline (plan : Plan) : Time := plan.started + min controlGrace plan.bound
def busDeadline (plan : Plan) : Time := plan.started + min busGrace plan.bound
def boundSecs (plan : Plan) : Nat := plan.bound / seconds 1

end Plan

/-! ## The waiter -/

/-- What to do after a `CHANGE(token, token)`. -/
inductive AfterChange where
  | unlock (peerPid : Nat)
  | stale (peerPid : Nat)
  | mismatch (peerPid : Nat)
  | retry

def afterChange : Sent → AfterChange
  | .answered .ok peerPid => .unlock peerPid
  | .answered .denied peerPid => .stale peerPid
  | .answered .failed _ | .answered .noDaemon _ | .answered (.unknown _) _ => .retry
  | .peerMismatch peerPid => .mismatch peerPid
  | .unreachable => .retry

inductive Attempt where
  | done (outcome : Outcome)
  | mismatch (ownerPid : Nat) (peerPid : Option Nat)
  | retry

variable (token : List UInt8) (plan : Plan)

def delivered (daemonPid : Nat) : Waiter Outcome := do
  let now ← World.now
  -- `saturating_duration_since`, then `u64::try_from` or the largest value
  return .delivered (min ((now - plan.started) / millis 1) (2 ^ 64 - 1)) daemonPid

/-- The `CHANGE` of `try_owner`, or the attempt it ends in without an answer. -/
def changeOwner (owner : String) (ownerPid : Nat) : Waiter (Except Attempt Sent) := do
  -- Nothing more is asked of a listener that is the owner itself.
  match ← World.send .change [token, token] (.owner ownerPid) with
  | .peerMismatch _ =>
    -- Another process listens, and nothing was written: the owner must first report this user's directory.
    match ← World.identify owner with
    | .serves checked =>
      if checked = ownerPid then
        return .ok (← World.send .change [token, token] (.ownerOrManager ownerPid))
      else
        return .error .retry
    | .mismatch ownerPid => return .error (.mismatch ownerPid none)
    | .gone => return .error .retry
  | sent => return .ok sent

def tryOwner (owner : String) : Waiter Attempt := do
  let some ownerPid ← World.ownerPid owner | return .retry
  if !(← World.keyringExists) then
    return .done .keyringMissing
  match ← changeOwner token owner ownerPid with
  | .error attempt => return attempt
  | .ok sent =>
    match afterChange sent with
    | .unlock peerPid =>
      let _ ← World.send .unlock [token] (.peer peerPid)
      return .done (← delivered plan ownerPid)
    | .stale _ => return .done (.stale ownerPid)
    | .mismatch peerPid => return .mismatch ownerPid (some peerPid)
    | .retry => return .retry

/-- A step that is made only where it has not been `made`. -/
def once (made : Bool) (step : Waiter Unit) : Waiter Unit := if made then pure () else step

/-- The two checks of the clock that both loops make: no control socket in time, or no time left. -/
def waitedOut (now : Time) : Waiter (Option Outcome) := do
  if plan.controlDeadline ≤ now then
    if !(← World.controlSocketExists) then
      return some .noGnomeKeyring
  if plan.deadline ≤ now then
    return some (.gaveUp plan.boundSecs)
  return none

/-- The rounds of `poll_control`, which ask gnome-keyring directly. -/
def pollRounds : Nat → Bool → Waiter Outcome
  | 0, _ => throw .rounds
  | n + 1, waiting => do
    if ← World.stopRequested then
      return .stopped
    if !(← World.keyringExists) then
      return .keyringMissing
    match ← World.send .change [token, token] .anyPeer with
    | .answered .ok peerPid =>
      let _ ← World.send .unlock [token] (.peer peerPid)
      delivered plan peerPid
    | _ =>
      once waiting (World.report .waiting)
      let now ← World.now
      match ← waitedOut plan now with
      | some outcome => return outcome
      | none =>
        let left ← sub plan.deadline now
        World.sleep (min pollInterval left)
        pollRounds n true

def pollControl (n : Nat) : Waiter Outcome := do
  World.log .noBus
  pollRounds token plan n false

/-- What `on_bus` keeps from one round to the next. -/
structure Watch where
  owner : Option String
  mismatchLogged : Bool
  waiting : Bool
  retryAt : Option Time

def tryCurrent (watch : Watch) : Waiter (Except Outcome Watch) := do
  match watch.owner with
  | none => return .ok watch
  | some name =>
    let watch := { watch with owner := none }
    match ← tryOwner token plan name with
    | .done outcome => return .error outcome
    | .mismatch ownerPid peerPid =>
      once watch.mismatchLogged (World.log (.identityMismatch ownerPid peerPid))
      return .ok { watch with mismatchLogged := true }
    | .retry => return .ok { watch with retryAt := some ((← World.now) + retryAfter) }

def announce (watch : Watch) : Waiter Watch := do
  once watch.waiting do
    World.log (.waiting plan.boundSecs plan.uid)
    World.report .waiting
  return { watch with waiting := true }

def slice (watch : Watch) (now : Time) : Waiter Time := do
  let left ← sub plan.deadline now
  match watch.retryAt with
  | none => return min waitSlice left
  | some due => return min (min waitSlice left) (← sub due now)

/-- The rounds of `on_bus`. -/
def busRounds (fuel : Nat) : Nat → Watch → Waiter Outcome
  | 0, _ => throw .rounds
  | n + 1, watch => do
    if ← World.stopRequested then
      return .stopped
    match ← tryCurrent token plan watch with
    | .error outcome => return outcome
    | .ok watch =>
      let watch ← announce plan watch
      let now ← World.now
      match ← waitedOut plan now with
      | some outcome => return outcome
      | none =>
        if watch.retryAt.any (· ≤ now) then
          match ← World.owner with
          | .error _ => pollControl token plan fuel
          | .ok current => busRounds fuel n { watch with retryAt := none, owner := current }
        else
          let slice ← slice plan watch now
          match ← World.nextOwnerChange slice with
          | .ok (some change) => busRounds fuel n { watch with owner := change, retryAt := none }
          | .ok none => busRounds fuel n watch
          | .error _ => pollControl token plan fuel

/-- Wait for `org.gnome.keyring` to gain an owner that is this user's gnome-keyring, then deliver. -/
def onBus (fuel : Nat) : Waiter Outcome := do
  match ← World.owner with
  | .error _ => pollControl token plan fuel
  | .ok owner => busRounds token plan fuel fuel ⟨owner, false, false, none⟩

/-- The rounds of `wait_and_deliver`, which connect to the bus. -/
def waitAndDeliver (fuel : Nat) : Nat → Waiter Outcome
  | 0 => throw .rounds
  | n + 1 => do
    if ← World.stopRequested then
      return .stopped
    match ← World.connectBus with
    | .ok () => onBus token plan fuel
    | .error _ =>
      let now ← World.now
      if plan.busDeadline ≤ now then
        pollControl token plan fuel
      else
        let left ← sub plan.busDeadline now
        World.sleep (min busRetry left)
        waitAndDeliver fuel n

/-- Wait, deliver, log the outcome and report it; each loop makes at most `fuel` rounds. -/
def run (fuel : Nat) : Waiter Outcome := do
  let outcome ← waitAndDeliver token plan fuel fuel
  World.log outcome.event
  World.report outcome.status
  return outcome

end Irlume.Keyring

import Irlume.Lib.DurableFile
import Irlume.Retry.Record

/-!
# The retry store

The account's two files (the face record and the recovery record) and the operations of
`retry_throttle.rs` on the first. An operation runs in `EStateM`: a failure keeps what the operation
wrote before it failed, as the file system does.

Faults come from outside: `Faults` says whether the clock could be read, for the `n`th time an
operation takes the directory lock and reads, whether that worked, and for its `n`th commit how the
write ended.

`Disk.notes` is history for the specifications, newest first. The code reads no note; a write leaves
its notes when it becomes visible.
-/

namespace Irlume.Retry

open Irlume.Lib

/-! ## The recovery record -/

/-- `recovery::LIMIT`. -/
def recoveryLimit : Nat := 50

/-- `recovery::DELAY_AFTER`. -/
def delayAfter : Nat := 5

/-- `recovery::DELAY`. -/
def delay : Nat := 30 * nanosPerSecond

structure Attempts where
  version : Nat
  uid : Nat
  account : String
  failures : Nat
  pending : Bool
  cooldown : Option Cooldown

namespace Attempts

def empty (a : Account) : Attempts :=
  { version := 1, uid := a.uid, account := a.name, failures := 0, pending := false,
    cooldown := none }

/-- `Attempts::validate`, `true` for `Ok(())`. -/
def validate (t : Attempts) (a : Account) : Bool :=
  t.version == 1 && t.uid == a.uid && t.account == a.name && t.failures ≤ recoveryLimit &&
    !(t.pending && t.failures == 0) &&
    t.cooldown.all fun c =>
      validBoot c.bootId && c.durationNanos == delay && delay ≤ c.deadlineNanos &&
        delayAfter ≤ t.failures

/-- The delay the settlement at `now` leaves. -/
def delayed (t : Attempts) (now : Tick) : Attempts :=
  { t with
    pending := false
    cooldown := some
      { bootId := now.boot, deadlineNanos := now.nanos + delay, durationNanos := delay } }

/-- `Attempts::settle`: the settled record, and whether it has to be written. -/
def settle (t : Attempts) (now : Tick) : Except Failure (Attempts × Bool) :=
  if t.pending || t.cooldown.any (fun c => c.bootId ≠ now.boot) then
    if t.failures ≥ delayAfter then
      if now.nanos + delay < 2 ^ 64 then .ok (t.delayed now, true) else .error .invalid
    else .ok ({ t with pending := false }, true)
  else
    match t.cooldown with
    | some c =>
      if c.deadlineNanos - now.nanos > delay then .error .invalid
      else if now.nanos ≥ c.deadlineNanos then .ok ({ t with cooldown := none }, true)
      else .ok (t, false)
    | none => .ok (t, false)

variable {t s : Attempts} {now : Tick}

theorem settle_ok {changed : Bool}
    (h : t.settle now = .ok (s, changed)) :
    ((t.pending = true ∨ ∃ c, t.cooldown = some c ∧ c.bootId ≠ now.boot) ∧ changed = true ∧
      ((delayAfter ≤ t.failures ∧ now.nanos + delay < 2 ^ 64 ∧ s = t.delayed now) ∨
        (t.failures < delayAfter ∧ s = { t with pending := false }))) ∨
    (t.pending = false ∧ changed = true ∧
      ∃ c, t.cooldown = some c ∧ c.bootId = now.boot ∧ c.deadlineNanos ≤ now.nanos ∧
        s = { t with cooldown := none }) ∨
    (t.pending = false ∧ changed = false ∧ s = t ∧
      ∀ c, t.cooldown = some c → c.bootId = now.boot ∧ now.nanos < c.deadlineNanos) := by
  unfold settle at h
  split at h
  · next hp =>
    have hp : t.pending = true ∨ ∃ c, t.cooldown = some c ∧ c.bootId ≠ now.boot := by
      simpa [Option.any_eq_true] using hp
    refine .inl ⟨hp, ?_⟩
    split at h
    · next hf =>
      split at h
      · next hn =>
        cases h
        exact ⟨rfl, .inl ⟨hf, hn, rfl⟩⟩
      · cases h
    · next hf =>
      cases h
      exact ⟨rfl, .inr ⟨by omega, rfl⟩⟩
  · next hp =>
    have hp : t.pending = false ∧ ∀ c, t.cooldown = some c → c.bootId = now.boot := by
      simpa [Option.any_eq_false] using hp
    right
    cases hc : t.cooldown with
    | none =>
      rw [hc] at h
      cases h
      exact .inr ⟨hp.1, rfl, rfl, fun c hc => by cases hc⟩
    | some c =>
      have hb : c.bootId = now.boot := hp.2 c hc
      simp only [hc] at h
      split at h
      · cases h
      · split at h
        · next hd =>
          cases h
          exact .inl ⟨hp.1, rfl, c, rfl, hb, hd, rfl⟩
        · next hd =>
          cases h
          exact .inr ⟨hp.1, rfl, rfl, fun c' hc' => by cases hc'; exact ⟨hb, by omega⟩⟩

theorem settle_pending {changed : Bool}
    (h : t.settle now = .ok (s, changed)) : s.pending = false := by
  obtain ⟨-, -, ⟨-, -, rfl⟩ | ⟨-, rfl⟩⟩ | ⟨hp, -, c, -, -, -, rfl⟩ | ⟨hp, -, rfl, -⟩ := settle_ok h
  · rfl
  · rfl
  · exact hp
  · exact hp

theorem settle_unchanged (h : t.settle now = .ok (s, false)) :
    s = t := by
  obtain ⟨-, hc, -⟩ | ⟨-, hc, -⟩ | ⟨-, -, rfl, -⟩ := settle_ok h
  · cases hc
  · cases hc
  · rfl

end Attempts

/-! ## The disk -/

/-- How an admitted face attempt ended. -/
inductive Ending where
  | denied (kind : OutcomeKind)
  | abandoned
  deriving DecidableEq

/-- What happened, for the specifications. -/
inductive Note where
  /-- `begin` returned `Some`. -/
  | admitted
  /-- The attempt `begin` admitted ended without a grant. -/
  | ended (e : Ending)
  /-- The face record's cooldown was armed. -/
  | armed (now : Tick)
  /-- The face record's cooldown ran out and was cleared. -/
  | cleared
  /-- `Record::reset` was written. -/
  | reset
  /-- The recovery record's delay was armed: a charge settled, or a new boot. -/
  | delayed (now : Tick)
  /-- The recovery record's delay ran out and was cleared. -/
  | lapsed (now : Tick)
  /-- The recovery record was written empty. -/
  | emptied
  | verified (charge : Nat) (now : Tick)
  deriving DecidableEq

structure Disk where
  face : DurableFile Record
  recovery : DurableFile Attempts
  notes : List Note

/-- The outcomes of an operation's clock, and of its reads and commits in the order it makes them. -/
structure Faults where
  clock : Bool
  read : Nat → Bool
  write : Nat → WriteOutcome

def Faults.none : Faults := ⟨true, fun _ => true, fun _ => .durable⟩

abbrev Io (α : Type) := EStateM Failure Disk α

def ofExcept {α : Type} : Except Failure α → Io α
  | .ok a => pure a
  | .error e => throw e

/-- An operation goes on only when `c` holds. -/
def require {ε : Type} (c : Bool) (e : ε) : EStateM ε Disk Unit := if c then pure () else throw e

def clocked (now : Tick) (ok : Bool) : Io Unit := do
  require ok .os
  require (validBoot now.boot) .invalid

def note (n : Note) : Io Unit := modify fun d => { d with notes := n :: d.notes }

/-! ## The face record's operations -/

namespace Store

def writeFace (d : Disk) (notes : List Note) (r : Record) (o : WriteOutcome) : Disk :=
  { d with face := d.face.write o r, notes := notes ++ d.notes }

/-- `Store::lock` and `Store::read`. A record that is there is synced before it is used. -/
def read (a : Account) (ok : Bool) : Io Record := do
  require ok .os
  let d ← get
  match d.face.visible with
  | none => return Record.empty a
  | some r =>
    set { d with face := d.face.sync }
    require (r.validate a) .invalid
    return r

/-- `Store::commit`. `notes` is what the write is on record for. -/
def commit (notes : List Note) (r : Record) (o : WriteOutcome) : Io Unit := do
  require (r.validate ⟨r.uid, r.account⟩) .invalid
  match o with
  | .failed => throw .os
  | .visible =>
    modify fun d => writeFace d notes r .visible
    throw .os
  | .durable => modify fun d => writeFace d notes r .durable

/-- What a write of `after` over `before` is on record for: a change of the cooldown. -/
def cooldownNotes (before after : Record) (now : Tick) : List Note :=
  if after.cooldown = before.cooldown then []
  else if after.cooldown.isSome then [.armed now] else [.cleared]

/-- The commit of a record that was read as `before`, if it changed. -/
def commitChanged (before record : Record) (now : Tick) (o : WriteOutcome) : Io Unit :=
  if record = before then pure () else commit (cooldownNotes before record now) record o

/-- `Store::check`: `true` when face work is refused. -/
def check (a : Account) (policy : Policy) (now : Tick) (f : Faults) : Io Bool := do
  clocked now f.clock
  let before ← read a (f.read 0)
  let record ← ofExcept (before.settleAbandoned policy now)
  let record ← ofExcept (record.refreshCooldown policy now)
  commitChanged before record now (f.write 0)
  return record.limited now

end Store

/-! ## A face attempt -/

namespace FaceAttempt

/-- The reservation `begin` writes: a v1 record gets its budget, and one request is charged. -/
def reserve (r : Record) : Option Record :=
  let r := if r.budget.isNone then r.initializeBudget else r
  match r.budget with
  | none => none
  | some b =>
    if b.unsuccessfulRequests ≥ faceLimit then none
    else some { r with
      budget := some { unsuccessfulRequests := b.unsuccessfulRequests + 1, pending := true } }

/-- `FaceAttempt::begin` with the account's operation lock held: `true` for `Ok(Some(_))`. -/
def begin (a : Account) (policy : Policy) (now : Tick) (f : Faults) : Io Bool := do
  let limited ← Store.check a policy now f
  if limited then return false else
  let record ← Store.read a (f.read 1)
  match reserve record with
  | none => return false
  | some record =>
    Store.commit [] record (f.write 1)
    note .admitted
    return true

def strikeFor (kind : OutcomeKind) (policy : Policy) (now : Tick) (clock : Bool) (r : Record) :
    Io Record :=
  if kind.strikes then do
    clocked now clock
    ofExcept (r.strike policy now)
  else pure r

/-- `FaceAttempt::denied_inner`. -/
def denied (a : Account) (policy : Policy) (outcome : Outcome) (now : Tick) (f : Faults) :
    Io Unit := do
  require (!outcome.granted) .invalid
  let before ← Store.read a (f.read 0)
  require before.pending .invalid
  let record ← strikeFor outcome.kind policy now f.clock before.settled
  Store.commit (Store.cooldownNotes before record now) record (f.write 0)

/-- `FaceAttempt::delivered`. -/
def delivered (a : Account) (f : Faults) : Io Unit := do
  let record ← Store.read a (f.read 0)
  require record.pending .invalid
  Store.commit [.reset] (Record.reset a) (f.write 0)

end FaceAttempt

end Irlume.Retry

/-!
## Retry recovery

`retry_throttle/recovery.rs`: a reset of the face record after the account's password was verified.
The charge for a guess is written before the verifier runs. It is settled by whichever call looks at
the record next, so `Recovery::reset` is cut here at the points where the process can stop between
its lock sections: `reserve`, the verifier, then `statusInner` for a refusal or `complete`. `reset`
puts them together as the source does.
-/

namespace Irlume.Retry

open Irlume.Lib

namespace Recovery

/-- `Recovery::read`, in a section that holds the directory lock. -/
def read (a : Account) (ok : Bool) : Io Attempts := do
  require ok .os
  let d ← get
  match d.recovery.visible with
  | none =>
    require ((Attempts.empty a).validate a) .invalid
    return Attempts.empty a
  | some t =>
    set { d with recovery := d.recovery.sync }
    require (t.validate a) .invalid
    return t

def writeRecovery (d : Disk) (notes : List Note) (t : Attempts) (o : WriteOutcome) : Disk :=
  { d with recovery := d.recovery.write o t, notes := notes ++ d.notes }

/-- `Recovery::commit`. `notes` is what the write is on record for. -/
def commit (a : Account) (notes : List Note) (t : Attempts) (o : WriteOutcome) : Io Unit := do
  require (t.validate a) .invalid
  match o with
  | .failed => throw .os
  | .visible =>
    modify fun d => writeRecovery d notes t .visible
    throw .os
  | .durable => modify fun d => writeRecovery d notes t .durable

/-- What a settlement that changed `before` is on record for. -/
def delayNotes (before after : Attempts) (now : Tick) : List Note :=
  if after.cooldown.isSome then [.delayed now]
  else if before.cooldown.isSome then [.lapsed now] else []

/-- `settle` and the write of what it changed, as `status_inner` and `reset` both make it. -/
def settleWritten (a : Account) (t : Attempts) (now : Tick) (o : WriteOutcome) : Io Attempts := do
  let s ← ofExcept (t.settle now)
  if s.2 then
    commit a (delayNotes t s.1 now) s.1 o
    return s.1
  else return s.1

/-- `irlume_common::FaceRetryBudget` and `recovery::Status`. -/
structure Status where
  unsuccessfulRequests : Option Nat
  limit : Nat
  resetRequired : Bool
  failures : Nat
  cooldownSeconds : Nat
  recoveryFailures : Nat
  recoveryCooldownSeconds : Nat
  recoveryRequired : Bool

/-- The seconds a cooldown has left, rounded up; all of them when it is of another boot. -/
def remaining (now : Tick) (c : Option Cooldown) : Nat :=
  match c with
  | none => 0
  | some c =>
    let n := if c.bootId = now.boot then c.deadlineNanos - now.nanos else c.durationNanos
    (n + nanosPerSecond - 1) / nanosPerSecond

/-- `Recovery::status_inner`. -/
def statusInner (a : Account) (policy : Policy) (now : Tick) (f : Faults) : Io Status := do
  let before ← Store.read a (f.read 0)
  let recovery ← read a (f.read 1)
  clocked now f.clock
  let face ← ofExcept (before.settleAbandoned policy now)
  Store.commitChanged before face now (f.write 0)
  let recovery ← settleWritten a recovery now (f.write 1)
  return {
    unsuccessfulRequests := face.budget.map (·.unsuccessfulRequests)
    limit := faceLimit
    resetRequired := face.budget.any fun b => b.unsuccessfulRequests ≥ faceLimit
    failures := face.strikes
    cooldownSeconds := remaining now face.cooldown
    recoveryFailures := recovery.failures
    recoveryCooldownSeconds := remaining now recovery.cooldown
    recoveryRequired := recovery.failures ≥ recoveryLimit }

/-- The first lock section of `Recovery::reset`: `false` when the reset is rate limited, `true`
once a non-administrator's guess is charged. -/
def reserve (a : Account) (admin : Bool) (now : Tick) (f : Faults) : Io Bool := do
  let _ ← Store.read a (f.read 0)
  let t ← read a (f.read 1)
  if admin then return true else
  clocked now f.clock
  let t ← settleWritten a t now (f.write 0)
  if t.failures ≥ recoveryLimit || t.cooldown.isSome then return false else
  commit a [] { t with failures := t.failures + 1, pending := true } (f.write 1)
  return true

/-- Why a reset did not complete. -/
inductive Refusal where
  | refused
  | unconfirmed
  | blocked
  | unavailable

/-- An operation whose failure is reported as `why`. -/
def orElse {α : Type} (x : Io α) (why : Refusal) : EStateM Refusal Disk α :=
  EStateM.adaptExcept (fun _ => why) x

/-- The second lock section of `Recovery::reset`: the face record first, then the recovery record.
`active n` is the answer to the section's `n`th question whether the client still waits. -/
def complete (a : Account) (active : Nat → Bool) (f : Faults) : EStateM Refusal Disk Unit := do
  let _ ← orElse (Store.read a (f.read 0)) .unavailable
  let _ ← orElse (read a (f.read 1)) .unavailable
  require (active 0) .refused
  orElse (Store.commit [.reset] (Record.reset a) (f.write 0)) .unconfirmed
  require (active 1) .unconfirmed
  orElse (commit a [.emptied] (Attempts.empty a) (f.write 1)) .unconfirmed
  require (active 2) .unconfirmed

def verifying (now : Tick) : Io Unit :=
  modify fun d =>
    { d with notes := .verified ((d.recovery.visible.map (·.failures)).getD 0) now :: d.notes }

/-- The surroundings of one call of `Recovery::reset`: when each part runs, and what it meets. -/
structure Call where
  admin : Bool
  activeFirst : Bool
  activeVerify : Bool
  active : Nat → Bool
  verify : Bool
  reserveAt : Tick
  verifyAt : Tick
  settleAt : Tick
  reserveFaults : Faults
  settleFaults : Faults
  completeFaults : Faults

/-- A completed refusal or abandoned reservation retains its charge. -/
def refuse (a : Account) (policy : Policy) (c : Call) : EStateM Refusal Disk Unit := do
  let _ ← orElse (statusInner a policy c.settleAt c.settleFaults) .unavailable
  throw .refused

/-- `Recovery::reset` once the guess is charged. -/
def proceed (a : Account) (policy : Policy) (c : Call) : EStateM Refusal Disk Unit :=
  if c.admin then complete a c.active c.completeFaults
  else if c.activeVerify then do
    orElse (verifying c.verifyAt) .unavailable
    if c.verify then complete a c.active c.completeFaults else refuse a policy c
  else refuse a policy c

/-- `Recovery::reset`. -/
def reset (a : Account) (policy : Policy) (c : Call) : EStateM Refusal Disk Unit := do
  require c.activeFirst .refused
  let charged ← orElse (reserve a c.admin c.reserveAt c.reserveFaults) .unavailable
  require charged .blocked
  proceed a policy c

end Recovery

end Irlume.Retry

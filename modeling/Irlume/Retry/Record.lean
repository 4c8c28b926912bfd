import Mathlib.Algebra.GroupWithZero.Nat
import Mathlib.Data.List.Basic

/-!
# The face retry record

The data of the daemon's retry throttle (`retry_throttle.rs`): the policy, the clock's ticks, and
the per-account record with its strikes, its cooldown and its request budget, with the updates the
store makes to it. A record is what the account's `.json` file holds; its serialization is the
identity here, and a file that does not decode is a record `validate` refuses.

Integers are `Nat` with the checked operations of the source's `u32` and `u64`.
-/

namespace Irlume.Retry

/-- Why a store operation fails: `invalid()`, or an error of the operating system. -/
inductive Failure where
  | invalid
  | os

/-- `NANOS`: a second. -/
def nanosPerSecond : Nat := 1000000000

/-- `FACE_LIMIT`: the requests an account may spend without a delivered grant. -/
def faceLimit : Nat := 50

structure Account where
  uid : Nat
  name : String

/-! ## The policy -/

/-- The throttle's settings. Both ranges are what `Policy::parse` lets through. -/
structure Policy where
  limit : Nat
  seconds : Nat
  one_le_limit : 1 ≤ limit
  limit_le : limit ≤ 5
  le_seconds : 30 ≤ seconds
  seconds_le : seconds ≤ 86400
  deriving DecidableEq

namespace Policy

/-- `str::parse` of an unsigned type of `bits` bits: an optional `+`, then digits. -/
def parseUnsigned (bits : Nat) (s : String) : Option Nat :=
  let digits := match s.toList with
    | '+' :: ds => ds
    | ds => ds
  if digits.isEmpty || !digits.all Char.isDigit then none
  else
    let n := digits.foldl (fun n d => 10 * n + (d.toNat - '0'.toNat)) 0
    if n < 2 ^ bits then some n else none

/-- `Policy::parse`: a setting out of range takes its default, and is reported. -/
def parse (limit seconds : String) : Policy × Bool :=
  let limit := (parseUnsigned 32 limit).filter fun n => 1 ≤ n ∧ n ≤ 5
  let seconds := (parseUnsigned 64 seconds).filter fun n => 30 ≤ n ∧ n ≤ 86400
  let policy : Policy :=
    { limit := limit.getD 5
      seconds := seconds.getD 30
      one_le_limit := by cases h : limit <;> simp_all [limit, Option.filter_eq_some_iff]
      limit_le := by cases h : limit <;> simp_all [limit, Option.filter_eq_some_iff]
      le_seconds := by cases h : seconds <;> simp_all [seconds, Option.filter_eq_some_iff]
      seconds_le := by cases h : seconds <;> simp_all [seconds, Option.filter_eq_some_iff] }
  (policy, limit.isNone || seconds.isNone)

def nanos (p : Policy) : Nat := p.seconds * nanosPerSecond

theorem nanos_pos (p : Policy) : 0 < p.nanos := by
  have h := p.le_seconds
  unfold nanos nanosPerSecond
  omega

end Policy

/-! ## The clock -/

/-- A reading of the monotonic clock: the boot it belongs to, and nanoseconds since that boot. -/
structure Tick where
  boot : String
  nanos : Nat
  deriving DecidableEq

/-- `char::is_ascii_hexdigit`. -/
def isAsciiHexdigit (c : Char) : Bool :=
  c.isDigit || ('a' ≤ c && c ≤ 'f') || ('A' ≤ c && c ≤ 'F')

/-- `valid_boot`: the shape of a boot id. -/
def validBoot (boot : String) : Bool :=
  boot.toList.length == 36 && boot.toList.zipIdx.all fun (c, i) =>
    if [8, 13, 18, 23].contains i then c == '-' else isAsciiHexdigit c

/-! ## The record -/

structure Cooldown where
  bootId : String
  deadlineNanos : Nat
  durationNanos : Nat
  deriving DecidableEq

structure FaceBudget where
  unsuccessfulRequests : Nat
  pending : Bool
  deriving DecidableEq

structure Record where
  version : Nat
  uid : Nat
  account : String
  strikes : Nat
  cooldown : Option Cooldown
  budget : Option FaceBudget
  deriving DecidableEq

/-- `char::is_control`: the general category Cc. -/
def isControl (c : Char) : Bool := c.toNat < 0x20 || (0x7f ≤ c.toNat && c.toNat < 0xa0)

namespace Record

def empty (a : Account) : Record :=
  { version := 1, uid := a.uid, account := a.name, strikes := 0, cooldown := none, budget := none }

def initializeBudget (r : Record) : Record :=
  { r with version := 2, budget := some { unsuccessfulRequests := 0, pending := false } }

def reset (a : Account) : Record := (empty a).initializeBudget

def versionFits (r : Record) : Bool :=
  match r.version, r.budget with
  | 1, none => true
  | 2, some _ => true
  | _, _ => false

def budgetFits (r : Record) : Bool :=
  r.budget.all fun b =>
    b.unsuccessfulRequests ≤ faceLimit && !(b.pending && b.unsuccessfulRequests == 0)

def cooldownFits (r : Record) : Bool :=
  r.cooldown.all fun c =>
    validBoot c.bootId && c.durationNanos ≤ c.deadlineNanos && r.strikes == 0

/-- `Record::validate`, `true` for `Ok(())`. -/
def validate (r : Record) (a : Account) : Bool :=
  r.versionFits && r.budgetFits && r.uid == a.uid && r.account == a.name &&
    !r.account.isEmpty && r.account.utf8ByteSize ≤ 256 && !r.account.toList.any isControl &&
    r.cooldownFits

/-- A cooldown armed at `now`. -/
def armed (r : Record) (now : Tick) (duration : Nat) : Record :=
  { r with
    cooldown := some
      { bootId := now.boot, deadlineNanos := now.nanos + duration, durationNanos := duration }
    strikes := 0 }

/-- `Record::arm`. The deadline is a `checked_add`. -/
def arm (r : Record) (now : Tick) (duration : Nat) : Except Failure Record :=
  if now.nanos + duration < 2 ^ 64 then .ok (r.armed now duration) else .error .invalid

/-- `Record::strike`. The count is a `checked_add`. -/
def strike (r : Record) (policy : Policy) (now : Tick) : Except Failure Record :=
  if r.cooldown.isNone then
    if r.strikes + 1 < 2 ^ 32 then
      if r.strikes + 1 ≥ policy.limit then
        { r with strikes := r.strikes + 1 }.arm now policy.nanos
      else .ok { r with strikes := r.strikes + 1 }
    else .error .invalid
  else .ok r

/-- An attempt whose outcome was never recorded counts as a strike when it is next looked at. -/
def settleAbandoned (r : Record) (policy : Policy) (now : Tick) : Except Failure Record :=
  match r.budget with
  | some b =>
    if b.pending then { r with budget := some { b with pending := false } }.strike policy now
    else .ok r
  | none => .ok r

/-- The cooldown's part of `Store::check`: armed again in a new boot, refused when the clock ran
backwards, cleared at its deadline, and armed when a lowered limit is already reached. -/
def refreshCooldown (r : Record) (policy : Policy) (now : Tick) : Except Failure Record :=
  match r.cooldown with
  | some c =>
    if c.bootId ≠ now.boot then r.arm now c.durationNanos
    else if c.deadlineNanos - now.nanos > c.durationNanos then .error .invalid
    else if now.nanos ≥ c.deadlineNanos then .ok { r with cooldown := none, strikes := 0 }
    else .ok r
  | none =>
    if r.strikes ≥ policy.limit then r.arm now policy.nanos else .ok r

/-- What `Store::check` answers for a record: whether face work is refused. -/
def limited (r : Record) (now : Tick) : Bool :=
  r.budget.any (fun b => b.unsuccessfulRequests ≥ faceLimit) ||
    r.cooldown.any fun c => now.nanos < c.deadlineNanos

/-- The requests the record says were spent; a record without a budget has spent none. -/
def count (r : Record) : Nat := (r.budget.map (·.unsuccessfulRequests)).getD 0

def pending (r : Record) : Bool := r.budget.any (·.pending)

/-! ### What the updates can do -/

/-- `r` with its reservation settled. -/
def settled (r : Record) : Record :=
  { r with budget := r.budget.map fun b => { b with pending := false } }

variable {now : Tick} {r r' : Record}

theorem arm_ok {duration : Nat} (h : r.arm now duration = .ok r') :
    now.nanos + duration < 2 ^ 64 ∧ r' = r.armed now duration := by
  unfold arm at h
  split at h
  · next hlt => exact ⟨hlt, (Except.ok.inj h).symm⟩
  · cases h

variable {policy : Policy}

theorem strike_ok (h : r.strike policy now = .ok r') :
    (r.cooldown.isSome ∧ r' = r) ∨
    (r.cooldown = none ∧ r.strikes + 1 < policy.limit ∧ r' = { r with strikes := r.strikes + 1 }) ∨
    (r.cooldown = none ∧ policy.limit ≤ r.strikes + 1 ∧ now.nanos + policy.nanos < 2 ^ 64 ∧
      r' = r.armed now policy.nanos) := by
  unfold strike at h
  cases hc : r.cooldown with
  | some c =>
    rw [hc] at h
    exact .inl ⟨rfl, (Except.ok.inj h).symm⟩
  | none =>
    right
    simp only [hc, Option.isNone_none, if_true, ge_iff_le] at h
    split at h
    · split at h
      · next hl =>
        obtain ⟨hlt, rfl⟩ := arm_ok h
        exact .inr ⟨rfl, hl, hlt, by simp only [armed]⟩
      · next hl => exact .inl ⟨rfl, by omega, by rw [← Except.ok.inj h]⟩
    · cases h

theorem settleAbandoned_eq (r : Record) (policy : Policy) (now : Tick) :
    r.settleAbandoned policy now = if r.pending then r.settled.strike policy now else .ok r := by
  unfold settleAbandoned pending settled
  cases r.budget <;> rfl

theorem settleAbandoned_ok (h : r.settleAbandoned policy now = .ok r') :
    (r.pending = false ∧ r' = r) ∨ (r.pending = true ∧ r.settled.strike policy now = .ok r') := by
  rw [settleAbandoned_eq] at h
  split at h
  · next hp => exact .inr ⟨hp, h⟩
  · next hp => exact .inl ⟨by simpa using hp, (Except.ok.inj h).symm⟩

theorem refreshCooldown_ok (h : r.refreshCooldown policy now = .ok r') :
    (∃ c, r.cooldown = some c ∧ c.bootId ≠ now.boot ∧ now.nanos + c.durationNanos < 2 ^ 64 ∧
      r' = r.armed now c.durationNanos) ∨
    (∃ c, r.cooldown = some c ∧ c.bootId = now.boot ∧ c.deadlineNanos ≤ now.nanos ∧
      r' = { r with cooldown := none, strikes := 0 }) ∨
    (∃ c, r.cooldown = some c ∧ c.bootId = now.boot ∧ now.nanos < c.deadlineNanos ∧ r' = r) ∨
    (r.cooldown = none ∧ policy.limit ≤ r.strikes ∧ now.nanos + policy.nanos < 2 ^ 64 ∧
      r' = r.armed now policy.nanos) ∨
    (r.cooldown = none ∧ r.strikes < policy.limit ∧ r' = r) := by
  unfold refreshCooldown at h
  cases hc : r.cooldown with
  | some c =>
    simp only [hc] at h
    split at h
    · next hb =>
      obtain ⟨hlt, rfl⟩ := arm_ok h
      exact .inl ⟨c, rfl, hb, hlt, rfl⟩
    · next hb =>
      have hb : c.bootId = now.boot := by simpa using hb
      split at h
      · cases h
      · split at h
        · next hd => exact .inr (.inl ⟨c, rfl, hb, hd, (Except.ok.inj h).symm⟩)
        · next hd => exact .inr (.inr (.inl ⟨c, rfl, hb, by omega, (Except.ok.inj h).symm⟩))
  | none =>
    simp only [hc, ge_iff_le] at h
    split at h
    · next hl =>
      obtain ⟨hlt, rfl⟩ := arm_ok h
      exact .inr (.inr (.inr (.inl ⟨rfl, hl, hlt, rfl⟩)))
    · next hl => exact .inr (.inr (.inr (.inr ⟨rfl, by omega, (Except.ok.inj h).symm⟩)))

@[simp] theorem armed_budget (r : Record) (now : Tick) (d : Nat) :
    (r.armed now d).budget = r.budget := rfl

@[simp] theorem armed_strikes (r : Record) (now : Tick) (d : Nat) :
    (r.armed now d).strikes = 0 := rfl

@[simp] theorem settled_strikes (r : Record) : r.settled.strikes = r.strikes := rfl

@[simp] theorem settled_cooldown (r : Record) : r.settled.cooldown = r.cooldown := rfl

@[simp] theorem count_settled (r : Record) : r.settled.count = r.count := by
  unfold count settled
  cases r.budget <;> rfl

@[simp] theorem pending_settled (r : Record) : r.settled.pending = false := by
  unfold pending settled
  cases r.budget <;> rfl

theorem count_eq_of_budget (h : r'.budget = r.budget) : r'.count = r.count := by
  unfold count
  rw [h]

theorem pending_eq_of_budget (h : r'.budget = r.budget) :
    r'.pending = r.pending := by
  unfold pending
  rw [h]

theorem strike_budget (h : r.strike policy now = .ok r') : r'.budget = r.budget := by
  obtain ⟨-, rfl⟩ | ⟨-, -, rfl⟩ | ⟨-, -, -, rfl⟩ := strike_ok h <;> rfl

theorem refreshCooldown_budget
    (h : r.refreshCooldown policy now = .ok r') : r'.budget = r.budget := by
  obtain ⟨c, -, -, -, rfl⟩ | ⟨c, -, -, -, rfl⟩ | ⟨c, -, -, -, rfl⟩ | ⟨-, -, -, rfl⟩ |
    ⟨-, -, rfl⟩ := refreshCooldown_ok h <;> rfl

theorem settleAbandoned_count (h : r.settleAbandoned policy now = .ok r') : r'.count = r.count := by
  obtain ⟨-, rfl⟩ | ⟨-, h⟩ := settleAbandoned_ok h
  · rfl
  · rw [count_eq_of_budget (strike_budget h), count_settled]

theorem settleAbandoned_pending
    (h : r.settleAbandoned policy now = .ok r') : r'.pending = false := by
  obtain ⟨hp, rfl⟩ | ⟨-, h⟩ := settleAbandoned_ok h
  · exact hp
  · rw [pending_eq_of_budget (strike_budget h), pending_settled]

variable {a : Account} {r : Record}

theorem count_le_of_validate (h : r.validate a = true) :
    r.count ≤ faceLimit := by
  unfold validate budgetFits at h
  unfold count
  cases hb : r.budget with
  | none => simp [faceLimit]
  | some b =>
    simp only [hb, Bool.and_eq_true, Option.all_some, decide_eq_true_eq] at h
    simpa using h.1.1.1.1.1.1.2.1

/-! ### What the updates keep valid -/

theorem versionFits_iff :
    r.versionFits = true ↔ (r.version = 1 ∧ r.budget = none) ∨ (r.version = 2 ∧ r.budget.isSome) := by
  unfold versionFits
  cases r.budget <;> split <;> simp_all

variable {r s : Record} (h : r.validate a = true)

include h

theorem validate_of (huid : s.uid = r.uid)
    (haccount : s.account = r.account) (hversion : s.versionFits = true)
    (hbudget : s.budgetFits = true) (hcooldown : s.cooldownFits = true) : s.validate a = true := by
  simp only [validate, Bool.and_eq_true] at h ⊢
  rw [huid, haccount]
  exact ⟨⟨⟨⟨⟨⟨⟨hversion, hbudget⟩, h.1.1.1.1.1.2⟩, h.1.1.1.1.2⟩, h.1.1.1.2⟩, h.1.1.2⟩, h.1.2⟩,
    hcooldown⟩

theorem versionFits_of_validate : r.versionFits = true := by
  simp only [validate, Bool.and_eq_true] at h
  exact h.1.1.1.1.1.1.1

theorem budgetFits_of_validate : r.budgetFits = true := by
  simp only [validate, Bool.and_eq_true] at h
  exact h.1.1.1.1.1.1.2

theorem cooldownFits_of_validate : r.cooldownFits = true := by
  simp only [validate, Bool.and_eq_true] at h
  exact h.2

theorem account_of_validate : (⟨r.uid, r.account⟩ : Account) = a := by
  simp only [validate, Bool.and_eq_true, beq_iff_eq] at h
  obtain ⟨uid, name⟩ := a
  obtain rfl : r.uid = uid := h.1.1.1.1.1.2
  obtain rfl : r.account = name := h.1.1.1.1.2
  rfl

theorem validate_armed (hb : validBoot now.boot = true) (d : Nat) : (r.armed now d).validate a = true := by
  have hversion : r.versionFits = true := versionFits_of_validate h
  have hbudget : r.budgetFits = true := budgetFits_of_validate h
  exact validate_of h rfl rfl hversion hbudget (by simp [cooldownFits, armed, hb])

theorem validate_uncooled (strikes : Nat) :
    { r with cooldown := none, strikes }.validate a = true := by
  have hversion : r.versionFits = true := versionFits_of_validate h
  have hbudget : r.budgetFits = true := budgetFits_of_validate h
  exact validate_of h rfl rfl hversion hbudget rfl

theorem validate_settled : r.settled.validate a = true := by
  have hv := versionFits_of_validate h
  have hb := budgetFits_of_validate h
  have hc : r.cooldownFits = true := cooldownFits_of_validate h
  refine validate_of h rfl rfl ?_ ?_ hc
  · rw [versionFits_iff] at hv ⊢
    simpa [settled] using hv
  · unfold budgetFits settled at *
    cases hbudget : r.budget <;> simp_all

variable (hb : validBoot now.boot = true)

include hb

theorem validate_strike (hs : r.strike policy now = .ok s) :
    s.validate a = true := by
  obtain ⟨-, rfl⟩ | ⟨hc, -, rfl⟩ | ⟨-, -, -, rfl⟩ := strike_ok hs
  · exact h
  · have hu := validate_uncooled h (r.strikes + 1)
    rw [← hc] at hu
    exact hu
  · exact validate_armed h hb _

theorem validate_settleAbandoned
    (hs : r.settleAbandoned policy now = .ok s) : s.validate a = true := by
  obtain ⟨-, rfl⟩ | ⟨-, hs⟩ := settleAbandoned_ok hs
  · exact h
  · exact validate_strike (validate_settled h) hb hs

theorem validate_refreshCooldown
    (hs : r.refreshCooldown policy now = .ok s) : s.validate a = true := by
  obtain ⟨c, -, -, -, rfl⟩ | ⟨c, -, -, -, rfl⟩ | ⟨c, -, -, -, rfl⟩ | ⟨-, -, -, rfl⟩ |
    ⟨-, -, rfl⟩ := refreshCooldown_ok hs
  · exact validate_armed h hb _
  · exact validate_uncooled h 0
  · exact h
  · exact validate_armed h hb _
  · exact h

end Record

/-! ## Outcomes -/

/-- `irlume_auth::OutcomeKind`. -/
inductive OutcomeKind where
  | granted
  | noFace
  | uncertain
  | rgbPadPending
  | spoofNoIrFace
  | spoof
  | belowThreshold
  | setupUnavailable
  | deadlineExpired
  | runtimeUnavailable
  | otherDeny
  deriving DecidableEq

/-- The part of `irlume_auth::Outcome` the throttle reads. -/
structure Outcome where
  granted : Bool
  kind : OutcomeKind

def OutcomeKind.strikes : OutcomeKind → Bool
  | .noFace | .uncertain | .rgbPadPending | .spoofNoIrFace | .setupUnavailable => false
  | .granted | .spoof | .belowThreshold | .deadlineExpired | .runtimeUnavailable | .otherDeny =>
    true

end Irlume.Retry

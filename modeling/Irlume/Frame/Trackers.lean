import Irlume.Inventory.Contracts

/-!
# The continuity of one stream

The two trackers of `frame_provenance.rs`, and a stream that feeds both. An operation leaves a tracker also when
it fails, so each returns the tracker with its result.
-/

namespace Irlume.Frame

open Irlume.Inventory

/-! ## Timestamps -/

inductive TimestampClock where
  | unknown
  | monotonic
  | copy
  deriving DecidableEq

inductive TimestampSource where
  | endOfFrame
  | startOfExposure
  deriving DecidableEq

structure TimestampObservation where
  micros : Int
  deltaMicros : Option Nat
  clock : TimestampClock
  source : TimestampSource
  discontinuity : Bool
  streamEpoch : Nat

inductive TimestampTrackerError where
  | untrustedClock (clock : TimestampClock)
  | zeroTimestamp
  | negativeTimestamp (micros : Int)
  | clockChanged (expected actual : TimestampClock)
  | sourceChanged (expected actual : TimestampSource)
  | nonIncreasing (previous current : Int)
  | streamEpochOverflow
  | epochFailed
  | trackerFailed

/-- `i64::checked_sub` -/
def checkedSub (a b : Int) : Option Int :=
  if -2 ^ 63 ≤ a - b ∧ a - b < 2 ^ 63 then some (a - b) else none

/-- `u64::try_from` -/
def toU64 (n : Int) : Option Nat := if 0 ≤ n then some n.toNat else none

/-- `u64::checked_add` -/
def checkedAdd (a b : Nat) : Option Nat := if a + b < u64Bound then some (a + b) else none

theorem checkedSub_eq_some {a b d : Int} (h : checkedSub a b = some d) : d = a - b := by
  unfold checkedSub at h
  split at h
  · exact (Option.some.inj h).symm
  · cases h

theorem toU64_eq_some {a : Int} {n : Nat} (h : toU64 a = some n) : a = n := by
  unfold toU64 at h
  split at h
  · cases h
    omega
  · cases h

theorem checkedAdd_eq_some {a b c : Nat} (h : checkedAdd a b = some c) : c = a + b := by
  unfold checkedAdd at h
  split at h
  · exact (Option.some.inj h).symm
  · cases h

/-- A timestamp that cannot be trusted fails the rest of its epoch. -/
structure TimestampTracker where
  previous : Option Int := none
  domain : Option (TimestampClock × TimestampSource) := none
  streamEpoch : Nat := 0
  pendingDiscontinuity : Bool := false
  epochFailed : Bool := false
  failed : Bool := false

namespace TimestampTracker

def beginNewEpoch (t : TimestampTracker) : TimestampTracker × Except TimestampTrackerError Unit :=
  if t.failed then (t, .error .trackerFailed)
  else
    match checkedAdd t.streamEpoch 1 with
    | none => ({ t with failed := true }, .error .streamEpochOverflow)
    | some nextEpoch =>
      ({ t with
          streamEpoch := nextEpoch
          previous := none
          domain := none
          pendingDiscontinuity := true
          epochFailed := false }, .ok ())

def refusal (t : TimestampTracker) (micros : Int) (clock : TimestampClock) (source : TimestampSource) :
    Option TimestampTrackerError :=
  let changed : Option TimestampTrackerError :=
    match t.domain with
    | some (expectedClock, expectedSource) =>
      if clock ≠ expectedClock then some (.clockChanged expectedClock clock)
      else if source ≠ expectedSource then some (.sourceChanged expectedSource source)
      else none
    | none => none
  match changed with
  | some error => some error
  | none =>
    if clock ≠ .monotonic then some (.untrustedClock clock)
    else if micros < 0 then some (.negativeTimestamp micros)
    else if micros = 0 then some .zeroTimestamp
    else
      match t.previous with
      | some previous => if micros ≤ previous then some (.nonIncreasing previous micros) else none
      | none => none

def observe (t : TimestampTracker) (micros : Int) (clock : TimestampClock) (source : TimestampSource) :
    TimestampTracker × Except TimestampTrackerError TimestampObservation :=
  if t.failed then (t, .error .trackerFailed)
  else if t.epochFailed then (t, .error .epochFailed)
  else
    match t.refusal micros clock source with
    | some error => ({ t with epochFailed := true }, .error error)
    | none =>
      ({ t with
          previous := some micros
          domain := some (clock, source)
          pendingDiscontinuity := false },
        .ok
          { micros := micros
            deltaMicros := (t.previous.bind (checkedSub micros)).bind toU64
            clock := clock
            source := source
            discontinuity := t.pendingDiscontinuity
            streamEpoch := t.streamEpoch })

def observeDiscarded (t : TimestampTracker) (micros : Int) (clock : TimestampClock)
    (source : TimestampSource) :
    TimestampTracker × Except TimestampTrackerError TimestampObservation :=
  match t.observe micros clock source with
  | (t', .ok observation) =>
    (if observation.discontinuity then { t' with pendingDiscontinuity := true } else t',
      .ok observation)
  | (t', .error error) => (t', .error error)

end TimestampTracker

/-! ## Sequence numbers -/

structure SequenceObservation where
  raw : UInt32
  advance : Option UInt32
  gap : UInt32
  cumulativeDrops : Nat
  discontinuity : Bool
  streamEpoch : Nat

inductive SequenceTrackerError where
  | dropCounterOverflow
  | streamEpochOverflow
  | trackerFailed

/-- A new epoch is opened where the numbers do not go on. -/
structure SequenceTracker where
  previous : Option UInt32 := none
  cumulativeDrops : Nat := 0
  streamEpoch : Nat := 0
  pendingDiscontinuity : Bool := false
  failed : Bool := false

/-- What the step between two numbers says. -/
structure Transition where
  gap : UInt32
  discontinuity : Bool
  advance : Option UInt32

def transition (previous : Option UInt32) (raw : UInt32) : Transition :=
  match previous with
  | none => ⟨0, false, none⟩
  | some previous =>
    let delta := raw - previous
    if 1 ≤ delta ∧ delta < 0x80000000 then ⟨delta - 1, false, some delta⟩ else ⟨0, true, none⟩

namespace SequenceTracker

def beginNewEpoch (t : SequenceTracker) : SequenceTracker × Except SequenceTrackerError Unit :=
  if t.failed then (t, .error .trackerFailed)
  else
    match checkedAdd t.streamEpoch 1 with
    | none => ({ t with failed := true }, .error .streamEpochOverflow)
    | some streamEpoch =>
      ({ t with streamEpoch := streamEpoch, previous := none, pendingDiscontinuity := true }, .ok ())

def observe (t : SequenceTracker) (raw : UInt32) :
    SequenceTracker × Except SequenceTrackerError SequenceObservation :=
  if t.failed then (t, .error .trackerFailed)
  else
    let tr := transition t.previous raw
    match if tr.discontinuity then checkedAdd t.streamEpoch 1 else some t.streamEpoch with
    | none => ({ t with failed := true }, .error .streamEpochOverflow)
    | some streamEpoch =>
      match if tr.gap ≠ 0 then checkedAdd t.cumulativeDrops tr.gap.toNat else some t.cumulativeDrops with
      | none => ({ t with streamEpoch := streamEpoch, failed := true }, .error .dropCounterOverflow)
      | some cumulativeDrops =>
        ({ t with
            streamEpoch := streamEpoch
            cumulativeDrops := cumulativeDrops
            previous := some raw
            pendingDiscontinuity := false },
          .ok
            { raw := raw
              advance := tr.advance
              gap := tr.gap
              cumulativeDrops := cumulativeDrops
              discontinuity := tr.discontinuity || t.pendingDiscontinuity
              streamEpoch := streamEpoch })

def observeDiscarded (t : SequenceTracker) (raw : UInt32) :
    SequenceTracker × Except SequenceTrackerError SequenceObservation :=
  match t.observe raw with
  | (t', .ok observation) =>
    (if observation.discontinuity then { t' with pendingDiscontinuity := true } else t',
      .ok observation)
  | (t', .error error) => (t', .error error)

end SequenceTracker

/-! ## A stream -/

structure Trackers where
  sequence : SequenceTracker := {}
  timestamp : TimestampTracker := {}

inductive StreamEvent where
  | dequeue (delivered : Bool) (raw : UInt32) (micros : Int) (clock : TimestampClock)
      (source : TimestampSource)
  | beginNewEpoch

/-- What both trackers say of a dequeue that both accept. -/
structure Observations where
  sequence : SequenceObservation
  timestamp : TimestampObservation

namespace Trackers

def step (t : Trackers) : StreamEvent → Trackers
  | .dequeue true raw micros clock source =>
    ⟨(t.sequence.observe raw).1, (t.timestamp.observe micros clock source).1⟩
  | .dequeue false raw micros clock source =>
    ⟨(t.sequence.observeDiscarded raw).1, (t.timestamp.observeDiscarded micros clock source).1⟩
  | .beginNewEpoch => ⟨t.sequence.beginNewEpoch.1, t.timestamp.beginNewEpoch.1⟩

def after (t : Trackers) (events : List StreamEvent) : Trackers := events.foldl step t

def delivers (t : Trackers) : StreamEvent → Option Observations
  | .dequeue true raw micros clock source =>
    match t.sequence.observe raw, t.timestamp.observe micros clock source with
    | (_, .ok sequence), (_, .ok timestamp) => some ⟨sequence, timestamp⟩
    | _, _ => none
  | _ => none

end Trackers

def delivered (events : List StreamEvent) (i : Nat) : Option Observations := do
  let event ← events[i]?
  (({} : Trackers).after (events.take i)).delivers event

end Irlume.Frame

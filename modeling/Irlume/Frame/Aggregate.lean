import Irlume.Frame.Trackers

/-!
# Provenance of single and derived frames

`frame_provenance.rs`. The rate evidence is modelled by the four facts that are compared.
-/

namespace Irlume.Frame

open Irlume.Inventory

/-! ## Evidence -/

structure DequeuedBufferFacts where
  knownFlags : UInt32
  sequenceRaw : UInt32
  timestampMicros : Int
  timestampClock : TimestampClock
  timestampSource : TimestampSource

/-- `V4L2_BUF_FLAG_ERROR` -/
def DequeuedBufferFacts.driverReportedCorruption (facts : DequeuedBufferFacts) : Bool :=
  facts.knownFlags &&& 0x40 ≠ 0

structure FrameBinding where
  cameraInstanceId : CameraInstanceId
  generation : CameraGeneration
  streamRole : StreamRole

structure ValidatedFormatIdentity where
  fourcc : UInt32
  width : UInt32
  height : UInt32
  stride : UInt32
  imageSize : UInt32
  fieldOrder : UInt32
  colorspace : UInt32
  quantization : UInt32
  transfer : UInt32
  flags : UInt32
  deriving DecidableEq

/-- Instants on one clock. -/
structure CaptureWindow where
  start : Nat
  stop : Nat

def CaptureWindow.union (a b : CaptureWindow) : CaptureWindow := ⟨min a.start b.start, max a.stop b.stop⟩

structure DeliveredRateEvidence where
  clock : TimestampClock
  source : TimestampSource
  latestTimestampUs : Int
  streamEpoch : Nat

inductive RuntimeProvenanceError where
  | factsSequenceMismatch
  | factsTimestampMismatch
  | continuityMismatch
  | rateEvidenceMismatch
  | driverReportedCorruption
  | singleWindowMustBePoint
  | activeIrRequiresIrStream
  | tooFewContributors
  | tooManyContributors
  | invalidSelection
  | equalSubtractionIndices
  | mixedBinding
  | mixedFormat
  | mixedRole
  | mixedTimestampDomain
  | mixedContinuityEpoch
  | contributorDiscontinuity
  | nonIncreasingTimestamp
  | nonConsecutiveSequence
  | timestampDeltaMismatch
  | counterUnderflow
  | timestampSpanOverflow

/-! ## One dequeue -/

structure PendingSingleFrameProvenance where
  binding : FrameBinding
  format : ValidatedFormatIdentity
  facts : DequeuedBufferFacts
  sequence : SequenceObservation
  timestamp : TimestampObservation
  captureWindow : CaptureWindow
  rateEvidence : DeliveredRateEvidence

/-- The observations of one dequeue. -/
structure SingleFrameProvenance extends PendingSingleFrameProvenance where
  illumination : IlluminationProvenance

def SingleFrameProvenance.begin (binding : FrameBinding) (format : ValidatedFormatIdentity)
    (facts : DequeuedBufferFacts) (sequence : SequenceObservation) (timestamp : TimestampObservation)
    (captureWindow : CaptureWindow) (rateEvidence : DeliveredRateEvidence) :
    Except RuntimeProvenanceError PendingSingleFrameProvenance :=
  if facts.sequenceRaw ≠ sequence.raw then .error .factsSequenceMismatch
  else if facts.timestampMicros ≠ timestamp.micros ∨ facts.timestampClock ≠ timestamp.clock ∨
      facts.timestampSource ≠ timestamp.source then
    .error .factsTimestampMismatch
  else if sequence.streamEpoch ≠ timestamp.streamEpoch ∨
      sequence.discontinuity ≠ timestamp.discontinuity then
    .error .continuityMismatch
  else if rateEvidence.clock ≠ timestamp.clock ∨ rateEvidence.source ≠ timestamp.source ∨
      rateEvidence.streamEpoch ≠ timestamp.streamEpoch ∨
      rateEvidence.latestTimestampUs ≠ timestamp.micros then
    .error .rateEvidenceMismatch
  else if facts.driverReportedCorruption then .error .driverReportedCorruption
  else if captureWindow.start ≠ captureWindow.stop then .error .singleWindowMustBePoint
  else .ok ⟨binding, format, facts, sequence, timestamp, captureWindow, rateEvidence⟩

def PendingSingleFrameProvenance.finalizeIllumination (p : PendingSingleFrameProvenance)
    (illumination : IlluminationProvenance) : Except RuntimeProvenanceError SingleFrameProvenance :=
  if illumination = .activeIr ∧ p.binding.streamRole ≠ .ir then .error .activeIrRequiresIrStream
  else .ok { p with illumination := illumination }

/-! ## Several dequeues -/

inductive ContributorSelection where
  | selected (index : Nat)
  | reducedOverAll
  | subtracted (litIndex ambientIndex : Nat)

/-- What is kept of contributors that look like neighbours. -/
structure AggregateFrameProvenance where
  contributors : List SingleFrameProvenance
  selection : ContributorSelection
  captureWindow : CaptureWindow
  illumination : IlluminationProvenance
  cumulativeDropsStart : Nat
  cumulativeDropsEnd : Nat
  dropsWithin : Nat
  worstGap : UInt32
  worstDeltaMicros : Option Nat
  timestampSpanMicros : Nat

def selectedIllumination (contributors : List SingleFrameProvenance) (first : SingleFrameProvenance) :
    ContributorSelection → Except RuntimeProvenanceError IlluminationProvenance
  | .selected index =>
    match contributors[index]? with
    | some contributor => .ok contributor.illumination
    | none => .error .invalidSelection
  | .reducedOverAll =>
    .ok (if contributors.all (·.illumination = first.illumination) then first.illumination else .unknown)
  | .subtracted litIndex ambientIndex =>
    if litIndex = ambientIndex then .error .equalSubtractionIndices
    else
      match contributors[litIndex]?, contributors[ambientIndex]? with
      | some lit, some ambient =>
        .ok (if lit.illumination = .activeIr ∧ ambient.illumination = .ambient then .activeIr
          else .unknown)
      | _, _ => .error .invalidSelection

/-- A marker or a corruption that an aggregate cannot have at this place. A marker of the first
contributor is about a predecessor outside, and needs one in its epoch. -/
def refusedAt (index : Nat) (contributor : SingleFrameProvenance) : Bool :=
  contributor.facts.driverReportedCorruption ||
    ((contributor.sequence.discontinuity || contributor.timestamp.discontinuity) &&
      (index > 0 || contributor.sequence.advance.isNone || contributor.timestamp.deltaMicros.isNone))

def checkPair (previous current : SingleFrameProvenance) : Except RuntimeProvenanceError Unit :=
  match checkedSub current.timestamp.micros previous.timestamp.micros with
  | none => .error .timestampSpanOverflow
  | some timestampDelta =>
    if timestampDelta ≤ 0 then .error .nonIncreasingTimestamp
    else
      match current.sequence.advance with
      | none => .error .nonConsecutiveSequence
      | some advance =>
        if current.sequence.raw ≠ previous.sequence.raw + advance then .error .nonConsecutiveSequence
        else if toU64 timestampDelta ≠ current.timestamp.deltaMicros then .error .timestampDeltaMismatch
        else .ok ()

def checkPairs (previous : SingleFrameProvenance) :
    List SingleFrameProvenance → Except RuntimeProvenanceError Unit
  | [] => .ok ()
  | current :: rest => (checkPair previous current).bind fun _ => checkPairs current rest

def mixture (contributors : List SingleFrameProvenance) (first : SingleFrameProvenance) :
    Option RuntimeProvenanceError :=
  if contributors.any (·.binding.streamRole ≠ first.binding.streamRole) then some .mixedRole
  else if contributors.any (fun c => c.binding.cameraInstanceId ≠ first.binding.cameraInstanceId ∨
      c.binding.generation ≠ first.binding.generation) then
    some .mixedBinding
  else if contributors.any (·.format ≠ first.format) then some .mixedFormat
  else if contributors.any (fun c => c.timestamp.clock ≠ first.timestamp.clock ∨
      c.timestamp.source ≠ first.timestamp.source) then
    some .mixedTimestampDomain
  else if contributors.any (fun c => c.sequence.streamEpoch ≠ first.sequence.streamEpoch ∨
      c.timestamp.streamEpoch ≠ first.timestamp.streamEpoch) then
    some .mixedContinuityEpoch
  else if contributors.zipIdx.any (fun (c, index) => refusedAt index c) then
    some .contributorDiscontinuity
  else none

def summarize (selection : ContributorSelection) (illumination : IlluminationProvenance)
    (first : SingleFrameProvenance) (rest : List SingleFrameProvenance) :
    Except RuntimeProvenanceError AggregateFrameProvenance :=
  let last := (first :: rest).getLast (List.cons_ne_nil _ _)
  if last.sequence.cumulativeDrops < first.sequence.cumulativeDrops then .error .counterUnderflow
  else
    match (checkedSub last.timestamp.micros first.timestamp.micros).bind toU64 with
    | none => .error .timestampSpanOverflow
    | some timestampSpan =>
      .ok
        { contributors := first :: rest
          selection := selection
          captureWindow := rest.foldl (fun window c => window.union c.captureWindow) first.captureWindow
          illumination := illumination
          cumulativeDropsStart := first.sequence.cumulativeDrops
          cumulativeDropsEnd := last.sequence.cumulativeDrops
          dropsWithin := last.sequence.cumulativeDrops - first.sequence.cumulativeDrops
          worstGap := rest.foldl (fun gap c => max gap c.sequence.gap) first.sequence.gap
          worstDeltaMicros := ((first :: rest).filterMap (·.timestamp.deltaMicros)).max?
          timestampSpanMicros := timestampSpan }

def AggregateFrameProvenance.new (contributors : List SingleFrameProvenance)
    (selection : ContributorSelection) : Except RuntimeProvenanceError AggregateFrameProvenance :=
  match contributors with
  | [] | [_] => .error .tooFewContributors
  | first :: rest =>
    if 64 < (first :: rest).length then .error .tooManyContributors
    else
      match selectedIllumination (first :: rest) first selection with
      | .error error => .error error
      | .ok illumination =>
        match mixture (first :: rest) first with
        | some error => .error error
        | none =>
          match checkPairs first rest with
          | .error error => .error error
          | .ok () => summarize selection illumination first rest

end Irlume.Frame

import Irlume.Frame.Aggregate

/-!
# An accepted aggregate is one stretch of its stream

The timestamp side decides adjacency. Within one epoch the accepted timestamps only grow, and the
delta of a dequeue is taken from the one accepted right before it: `Beyond m e` is where a tracker
that stood at `m` in epoch `e` is after at least one more event. Two contributors of one epoch whose
delta is their own difference have nothing between them.
-/

namespace Irlume.Frame

open Irlume.Inventory

/-! ## One timestamp -/

namespace TimestampTracker

variable {t t' : TimestampTracker} {micros : Int} {clock : TimestampClock} {source : TimestampSource}

/-- The tracker has just accepted `m` in epoch `e`. -/
structure Stands (m : Int) (e : Nat) (t : TimestampTracker) : Prop where
  failed : t.failed = false
  epochFailed : t.epochFailed = false
  streamEpoch : t.streamEpoch = e
  previous : t.previous = some m

/-- The tracker has gone on since it accepted `m` in epoch `e`. -/
def Beyond (m : Int) (e : Nat) (t : TimestampTracker) : Prop :=
  t.failed = true ∨ e < t.streamEpoch ∨
    (t.streamEpoch = e ∧ (t.epochFailed = true ∨ ∃ p, t.previous = some p ∧ m < p))

theorem lt_of_refusal_none (h : t.refusal micros clock source = none) {p : Int}
    (hp : t.previous = some p) : p < micros := by
  unfold refusal at h
  dsimp only at h
  split at h
  · cases h
  split at h
  · cases h
  split at h
  · cases h
  split at h
  · cases h
  rw [hp] at h
  dsimp only at h
  split at h
  · cases h
  · omega

/-- What an accepted timestamp says and leaves. -/
structure Observed (t : TimestampTracker) (micros : Int) (t' : TimestampTracker)
    (o : TimestampObservation) : Prop where
  stands : t'.Stands micros t.streamEpoch
  unfailed : t.failed = false ∧ t.epochFailed = false
  observed : o.micros = micros
  epoch : o.streamEpoch = t.streamEpoch
  increasing : ∀ p, t.previous = some p → p < micros
  delta : o.deltaMicros = (t.previous.bind (checkedSub micros)).bind toU64

theorem observe_ok {o : TimestampObservation} (h : t.observe micros clock source = (t', .ok o)) :
    Observed t micros t' o := by
  unfold observe at h
  split at h
  · cases h
  next hfailed =>
  split at h
  · cases h
  next hepoch =>
  split at h
  · cases h
  next hnone =>
  cases h
  rw [Bool.not_eq_true] at hfailed hepoch
  exact ⟨⟨hfailed, hepoch, rfl, rfl⟩, ⟨hfailed, hepoch⟩, rfl, rfl, fun p => lt_of_refusal_none hnone, rfl⟩

theorem observe_error {error : TimestampTrackerError}
    (h : t.observe micros clock source = (t', .error error)) :
    t'.streamEpoch = t.streamEpoch ∧ (t'.failed = true ∨ t'.epochFailed = true) := by
  unfold observe at h
  split at h
  · next hfailed =>
    cases h
    exact ⟨rfl, .inl hfailed⟩
  split at h
  · next hepoch =>
    cases h
    exact ⟨rfl, .inr hepoch⟩
  split at h
  · cases h
    exact ⟨rfl, .inr rfl⟩
  · cases h

variable {m : Int} {e : Nat}

theorem Stands.observe (h : t.Stands m e) :
    Beyond m e (t.observe micros clock source).1 := by
  cases hobserve : t.observe micros clock source with
  | mk t' result =>
    cases result with
    | ok o =>
      have hok := observe_ok hobserve
      refine .inr (.inr ⟨hok.stands.streamEpoch.trans h.streamEpoch, .inr ⟨micros, hok.stands.previous, ?_⟩⟩)
      exact hok.increasing m h.previous
    | error error =>
      obtain ⟨hepoch, hclosed⟩ := observe_error hobserve
      rcases hclosed with hclosed | hclosed
      · exact .inl hclosed
      · exact .inr (.inr ⟨hepoch.trans h.streamEpoch, .inl hclosed⟩)

theorem Beyond.observe (h : t.Beyond m e) :
    Beyond m e (t.observe micros clock source).1 := by
  cases hobserve : t.observe micros clock source with
  | mk t' result =>
    cases result with
    | ok o =>
      have hok := observe_ok hobserve
      rcases h with hfailed | hlater | ⟨hepoch, hclosed | ⟨p, hp, hlt⟩⟩
      · rw [hok.unfailed.1] at hfailed
        cases hfailed
      · exact .inr (.inl (hok.stands.streamEpoch ▸ hlater))
      · rw [hok.unfailed.2] at hclosed
        cases hclosed
      · have := hok.increasing p hp
        exact .inr (.inr ⟨hok.stands.streamEpoch.trans hepoch, .inr ⟨micros, hok.stands.previous, by omega⟩⟩)
    | error error =>
      obtain ⟨hepoch, hclosed⟩ := observe_error hobserve
      rcases h with hfailed | hlater | ⟨hsame, -⟩
      · refine .inl ?_
        rw [TimestampTracker.observe, if_pos hfailed] at hobserve
        cases hobserve
        exact hfailed
      · exact .inr (.inl (by rw [hepoch]; exact hlater))
      · rcases hclosed with hclosed | hclosed
        · exact .inl hclosed
        · exact .inr (.inr ⟨hepoch.trans hsame, .inl hclosed⟩)

theorem beyond_observeDiscarded (h : Beyond m e (t.observe micros clock source).1) :
    Beyond m e (t.observeDiscarded micros clock source).1 := by
  unfold observeDiscarded
  split
  · next t' o heq =>
    rw [heq] at h
    dsimp only
    split
    · exact h
    · exact h
  · next t' error heq =>
    rw [heq] at h
    exact h

theorem beyond_beginNewEpoch (h : t.Beyond m e ∨ t.streamEpoch = e) :
    Beyond m e t.beginNewEpoch.1 := by
  unfold beginNewEpoch
  split
  · next hfailed => exact .inl hfailed
  · next hfailed =>
    split
    · exact .inl rfl
    · next next hnext =>
      refine .inr (.inl ?_)
      have hsucc := checkedAdd_eq_some hnext
      dsimp only
      rcases h with (hf | hlater | ⟨hsame, -⟩) | hsame
      · exact absurd hf hfailed
      · omega
      · omega
      · omega

end TimestampTracker

/-! ## The stream -/

namespace Trackers

variable {t : Trackers} {m : Int} {e : Nat}

theorem beyond_step (event : StreamEvent)
    (h : t.timestamp.Stands m e ∨ t.timestamp.Beyond m e) : (t.step event).timestamp.Beyond m e := by
  cases event with
  | dequeue delivered raw micros clock source =>
    have hobserve : TimestampTracker.Beyond m e (t.timestamp.observe micros clock source).1 :=
      h.elim (·.observe) (·.observe)
    cases delivered with
    | true => exact hobserve
    | false => exact TimestampTracker.beyond_observeDiscarded hobserve
  | beginNewEpoch =>
    refine TimestampTracker.beyond_beginNewEpoch (h.symm.imp_right fun hs => hs.streamEpoch)

theorem beyond_after {events : List StreamEvent} (h : t.timestamp.Stands m e) :
    events = [] ∨ (t.after events).timestamp.Beyond m e := by
  have hall : ∀ (events : List StreamEvent) (t : Trackers), t.timestamp.Beyond m e →
      (t.after events).timestamp.Beyond m e := by
    intro events
    induction events with
    | nil => exact fun _ ht => ht
    | cons event events ih => exact fun t ht => ih _ (beyond_step event (.inr ht))
  cases events with
  | nil => exact .inl rfl
  | cons event events => exact .inr (hall events _ (beyond_step event (.inl h)))

theorem after_append (t : Trackers) (es fs : List StreamEvent) :
    t.after (es ++ fs) = (t.after es).after fs := List.foldl_append

end Trackers

/-! ## Two deliveries -/

theorem delivers_some {t : Trackers} {event : StreamEvent} {o : Observations}
    (h : t.delivers event = some o) : ∃ raw micros clock source t',
      event = .dequeue true raw micros clock source ∧
        t.sequence.observe raw = ((t.step event).sequence, .ok o.sequence) ∧
        t.timestamp.observe micros clock source = (t', .ok o.timestamp) ∧
        (t.step event).timestamp = t' := by
  unfold Trackers.delivers at h
  split at h
  · next raw micros clock source =>
    split at h
    · next s' sequence t' timestamp hsequence htimestamp =>
      cases h
      refine ⟨raw, micros, clock, source, t', rfl, ?_, htimestamp, ?_⟩
      · rw [Trackers.step, hsequence]
      · rw [Trackers.step, htimestamp]
    · cases h
  · cases h

/-- The trackers of a stream before its event at `i`. -/
def trackersAt (events : List StreamEvent) (i : Nat) : Trackers := ({} : Trackers).after (events.take i)

variable {events : List StreamEvent} {i j : Nat} {o o' : Observations}

theorem delivered_iff : delivered events i = some o ↔
    ∃ event, events[i]? = some event ∧ (trackersAt events i).delivers event = some o :=
  Option.bind_eq_some_iff

theorem trackersAt_succ {event : StreamEvent} (h : events[i]? = some event) :
    trackersAt events (i + 1) = (trackersAt events i).step event := by
  rw [trackersAt, List.take_add_one, h, Trackers.after_append]
  rfl

section

variable (h : delivered events i = some o)

include h

theorem delivered_timestamp :
    TimestampTracker.Observed (trackersAt events i).timestamp o.timestamp.micros
      (trackersAt events (i + 1)).timestamp o.timestamp := by
  obtain ⟨event, hevent, hdelivers⟩ := delivered_iff.1 h
  obtain ⟨raw, micros, clock, source, t', -, -, hobserve, hstep⟩ := delivers_some hdelivers
  have hok := TimestampTracker.observe_ok hobserve
  rw [trackersAt_succ hevent, hstep, hok.observed]
  exact hok

theorem later_delivery (hij : i < j)
    (hj : j ≤ events.length) : j = i + 1 ∨
      (trackersAt events j).timestamp.Beyond o.timestamp.micros o.timestamp.streamEpoch := by
  have hstands := (delivered_timestamp h).stands
  rw [← (delivered_timestamp h).epoch] at hstands
  obtain ⟨n, rfl⟩ := Nat.exists_eq_add_of_le hij
  have hsplit : trackersAt events (i + 1 + n) =
      (trackersAt events (i + 1)).after ((events.drop (i + 1)).take n) := by
    rw [trackersAt, List.take_add, Trackers.after_append]
    rfl
  rw [hsplit]
  refine (Trackers.beyond_after hstands).imp_left fun hnil => ?_
  have hlength := congrArg List.length hnil
  simp only [List.length_take, List.length_drop, List.length_nil] at hlength
  omega

theorem lt_length_of_delivered : i < events.length := by
  obtain ⟨event, hevent, -⟩ := delivered_iff.1 h
  exact (List.getElem?_eq_some_iff.1 hevent).1

theorem micros_lt_of_lt (h' : delivered events j = some o')
    (hepoch : o.timestamp.streamEpoch = o'.timestamp.streamEpoch) (hij : i < j) :
    o.timestamp.micros < o'.timestamp.micros ∧ (j = i + 1 ∨
      ∃ p, o.timestamp.micros < p ∧ p < o'.timestamp.micros ∧
        o'.timestamp.deltaMicros = (checkedSub o'.timestamp.micros p).bind toU64) := by
  have hobserved := delivered_timestamp h'
  have hsame : (trackersAt events j).timestamp.streamEpoch = o.timestamp.streamEpoch := by
    rw [hepoch, hobserved.epoch]
  obtain rfl | hfailed | hlater | ⟨-, hclosed | ⟨p, hp, hlt⟩⟩ :=
    later_delivery h hij (lt_length_of_delivered h').le
  · exact ⟨hobserved.increasing _ (delivered_timestamp h).stands.previous, .inl rfl⟩
  · rw [hobserved.unfailed.1] at hfailed
    cases hfailed
  · omega
  · rw [hobserved.unfailed.2] at hclosed
    cases hclosed
  · have hgrows := hobserved.increasing p hp
    refine ⟨by omega, .inr ⟨p, hlt, hgrows, ?_⟩⟩
    rw [hobserved.delta, hp]
    rfl

/-- **Neighbours.** A delta that is the difference of two deliveries of one epoch leaves nothing
between them. -/
theorem next_of_delta (h' : delivered events j = some o')
    (hepoch : o.timestamp.streamEpoch = o'.timestamp.streamEpoch) {d : Int}
    (hd : checkedSub o'.timestamp.micros o.timestamp.micros = some d) (hpos : 0 < d)
    (hdelta : toU64 d = o'.timestamp.deltaMicros) : j = i + 1 := by
  have hdiff := checkedSub_eq_some hd
  rcases Nat.lt_trichotomy i j with hij | rfl | hji
  · obtain ⟨-, hnext | ⟨p, hlt, hgrows, hp⟩⟩ := micros_lt_of_lt h h' hepoch hij
    · exact hnext
    · have hd' : toU64 d = some d.toNat := by rw [toU64, if_pos hpos.le]
      rw [← hdelta, hd'] at hp
      obtain ⟨d', hsub, hnat⟩ := Option.bind_eq_some_iff.1 hp.symm
      have hdiff' := checkedSub_eq_some hsub
      have hnat' := toU64_eq_some hnat
      omega
  · cases h.symm.trans h'
    omega
  · have := (micros_lt_of_lt h' h hepoch.symm hji).1
    omega

end

/-! ## The drops -/

theorem sequence_observe_ok {t t' : SequenceTracker} {raw : UInt32} {so : SequenceObservation}
    (h : t.observe raw = (t', .ok so)) :
    t'.cumulativeDrops = so.cumulativeDrops ∧
      so.cumulativeDrops = t.cumulativeDrops + so.gap.toNat := by
  unfold SequenceTracker.observe at h
  split at h
  · cases h
  dsimp only at h
  split at h
  · cases h
  split at h
  · cases h
  next drops hdrops =>
  cases h
  refine ⟨rfl, ?_⟩
  split at hdrops
  · exact checkedAdd_eq_some hdrops
  · next hgap =>
    cases hdrops
    rw [not_not] at hgap
    dsimp only
    rw [hgap]
    rfl

theorem delivered_sequence (h : delivered events i = some o) :
    (trackersAt events (i + 1)).sequence.cumulativeDrops = o.sequence.cumulativeDrops ∧
      o.sequence.cumulativeDrops =
        (trackersAt events i).sequence.cumulativeDrops + o.sequence.gap.toNat := by
  obtain ⟨event, hevent, hdelivers⟩ := delivered_iff.1 h
  obtain ⟨raw, micros, clock, source, t', -, hobserve, -, -⟩ := delivers_some hdelivers
  rw [trackersAt_succ hevent]
  exact sequence_observe_ok hobserve

/-! ## The contributors -/

/-- The frame was built from the delivery at `i`, with whatever else is known of it. -/
def BuiltFrom (events : List StreamEvent) (i : Nat) (frame : SingleFrameProvenance) : Prop :=
  ∃ o binding format facts captureWindow rateEvidence illumination pending,
    delivered events i = some o ∧
      SingleFrameProvenance.begin binding format facts o.sequence o.timestamp captureWindow
        rateEvidence = .ok pending ∧
      pending.finalizeIllumination illumination = .ok frame

theorem BuiltFrom.delivered {frame : SingleFrameProvenance} (h : BuiltFrom events i frame) :
    delivered events i = some ⟨frame.sequence, frame.timestamp⟩ := by
  obtain ⟨o, binding, format, facts, window, rate, illumination, pending, ho, hbegin, hfinalize⟩ := h
  unfold SingleFrameProvenance.begin at hbegin
  split_ifs at hbegin
  cases hbegin
  unfold PendingSingleFrameProvenance.finalizeIllumination at hfinalize
  split_ifs at hfinalize
  cases hfinalize
  exact ho

theorem checkPair_ok {previous current : SingleFrameProvenance}
    (h : checkPair previous current = .ok ()) :
    ∃ d, checkedSub current.timestamp.micros previous.timestamp.micros = some d ∧ 0 < d ∧
      toU64 d = current.timestamp.deltaMicros := by
  unfold checkPair at h
  split at h
  · cases h
  next d hd =>
  split at h
  · cases h
  next hpos =>
  split at h
  · cases h
  split at h
  · cases h
  split at h
  · cases h
  next hdelta =>
  exact ⟨d, hd, by omega, not_not.1 hdelta⟩

theorem checkPairs_ok {rest : List SingleFrameProvenance} {first : SingleFrameProvenance} {is : List Nat}
    (hfirst : BuiltFrom events i first) (hrest : List.Forall₂ (BuiltFrom events) is rest)
    (hepoch : ∀ c ∈ rest, c.timestamp.streamEpoch = first.timestamp.streamEpoch)
    (h : checkPairs first rest = .ok ()) :
    is = List.range' (i + 1) rest.length ∧
      ((first :: rest).getLast (List.cons_ne_nil _ _)).sequence.cumulativeDrops =
        first.sequence.cumulativeDrops + (rest.map fun c => c.sequence.gap.toNat).sum := by
  induction hrest generalizing i first with
  | nil => exact ⟨rfl, rfl⟩
  | @cons j current js rest hcurrent _ ih =>
    rw [checkPairs] at h
    cases hpair : checkPair first current with
    | error error =>
      rw [hpair] at h
      cases h
    | ok _ =>
      rw [hpair] at h
      obtain ⟨d, hd, hpos, hdelta⟩ := checkPair_ok hpair
      have hsame := hepoch current List.mem_cons_self
      obtain rfl : j = i + 1 := next_of_delta hfirst.delivered hcurrent.delivered hsame.symm hd hpos hdelta
      obtain ⟨hrange, hdrops⟩ := ih hcurrent
        (fun c hc => (hepoch c (List.mem_cons_of_mem _ hc)).trans hsame.symm) h
      have hstep := (delivered_sequence hcurrent.delivered).2
      rw [(delivered_sequence hfirst.delivered).1] at hstep
      refine ⟨by rw [hrange, List.length_cons, List.range'_succ], ?_⟩
      rw [List.getLast_cons (List.cons_ne_nil _ _), hdrops, hstep, List.map_cons, List.sum_cons]
      exact Nat.add_assoc _ _ _

theorem mixture_none {contributors : List SingleFrameProvenance} {first : SingleFrameProvenance}
    (h : mixture contributors first = none) :
    ∀ c ∈ contributors, c.timestamp.streamEpoch = first.timestamp.streamEpoch := by
  unfold mixture at h
  split_ifs at h with _ _ _ _ hepoch
  intro c hc
  by_contra hne
  exact hepoch (List.any_eq_true.2 ⟨c, hc, decide_eq_true (.inr hne)⟩)

/-- **An accepted aggregate is one unbroken stretch of its stream.** -/
theorem aggregate_unbroken {indices : List Nat} {frames : List SingleFrameProvenance}
    {selection : ContributorSelection} {a : AggregateFrameProvenance}
    (hbuilt : List.Forall₂ (BuiltFrom events) indices frames)
    (h : AggregateFrameProvenance.new frames selection = .ok a) :
    a.contributors = frames ∧
      (∃ start, indices = List.range' start frames.length) ∧
      a.dropsWithin = (frames.tail.map fun c => c.sequence.gap.toNat).sum := by
  unfold AggregateFrameProvenance.new at h
  split at h
  · cases h
  · cases h
  next first rest _ =>
  split at h
  · cases h
  split at h
  · cases h
  split at h
  · cases h
  next hmixture =>
  split at h
  · cases h
  next hpairs =>
  obtain ⟨start, is, hfirst, hrest, rfl⟩ := List.forall₂_cons_right_iff.1 hbuilt
  obtain ⟨hrange, hdrops⟩ := checkPairs_ok hfirst hrest
    (fun c hc => mixture_none hmixture c (List.mem_cons_of_mem _ hc)) hpairs
  unfold summarize at h
  dsimp only at h
  split at h
  · cases h
  split at h
  · cases h
  cases h
  refine ⟨rfl, ⟨start, by rw [hrange, List.length_cons, List.range'_succ]⟩, ?_⟩
  rw [hdrops, Nat.add_sub_cancel_left, List.tail_cons]

/-! ## A sample burst -/

/-- A recovered stream whose first dequeue is discarded; one number is lost between the deliveries. -/
def sampleStream : List StreamEvent :=
  [.beginNewEpoch, .dequeue false 6 100 .monotonic .endOfFrame,
    .dequeue true 7 200 .monotonic .endOfFrame, .dequeue true 9 350 .monotonic .endOfFrame]

theorem sampleId_valid : validId (List.replicate 32 '1') = true := by decide

def sampleBinding : FrameBinding := ⟨⟨List.replicate 32 '1', sampleId_valid⟩, .initial, .ir⟩

def sampleFrame (o : Observations) : SingleFrameProvenance where
  binding := sampleBinding
  format := ⟨0, 4, 4, 4, 16, 0, 0, 0, 0, 0⟩
  facts := ⟨0, o.sequence.raw, o.timestamp.micros, o.timestamp.clock, o.timestamp.source⟩
  sequence := o.sequence
  timestamp := o.timestamp
  captureWindow := ⟨5, 5⟩
  rateEvidence :=
    ⟨o.timestamp.clock, o.timestamp.source, o.timestamp.micros, o.timestamp.streamEpoch⟩
  illumination := .activeIr

def sampleBurst : List SingleFrameProvenance :=
  [2, 3].filterMap fun i => (delivered sampleStream i).map sampleFrame

/-- A burst over one dropped frame. -/
theorem aggregate_unbroken_sample : ∃ a, AggregateFrameProvenance.new sampleBurst .reducedOverAll = .ok a ∧
    a.dropsWithin = 1 ∧ a.contributors = sampleBurst := by
  have hbuilt : ∀ i o, delivered sampleStream i = some o → o.sequence.streamEpoch = o.timestamp.streamEpoch →
      o.sequence.discontinuity = o.timestamp.discontinuity → BuiltFrom sampleStream i (sampleFrame o) := by
    intro i o ho hepoch hdiscontinuity
    refine ⟨o, (sampleFrame o).binding, (sampleFrame o).format, (sampleFrame o).facts, ⟨5, 5⟩, (sampleFrame o).rateEvidence, .activeIr,
      (sampleFrame o).toPendingSingleFrameProvenance, ho, ?_, rfl⟩
    simp [SingleFrameProvenance.begin, sampleFrame, hepoch, hdiscontinuity,
      DequeuedBufferFacts.driverReportedCorruption]
  have hall : List.Forall₂ (BuiltFrom sampleStream) [2, 3] sampleBurst :=
    .cons (hbuilt 2 _ rfl rfl rfl) (.cons (hbuilt 3 _ rfl rfl rfl) .nil)
  have haccepted : ∃ a, AggregateFrameProvenance.new sampleBurst .reducedOverAll = .ok a := ⟨_, rfl⟩
  obtain ⟨a, ha⟩ := haccepted
  obtain ⟨hcontributors, -, hdrops⟩ := aggregate_unbroken hall ha
  exact ⟨a, ha, hdrops.trans (by decide), hcontributors⟩

end Irlume.Frame

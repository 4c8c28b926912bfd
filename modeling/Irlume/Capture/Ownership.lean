import Irlume.Capture.Ring
import Irlume.Capture.Custody

/-!
# Capture buffers have one owner at a time

What may stand in the log of a ring: which buffers are queued and viewed and when, what is never issued again
once the ring is sealed, and when the buffers may be released. Two clauses hold only while the ring parks soundly
(`WellParked`): `take` counts the parked buffers but not those lost in failed `DQBUF`s, and it parks an ERROR
completion before it looks at its index.
-/

namespace Irlume.Capture

open Irlume.Lib

/-! ## What the log says -/

def viewing : List Entry → Option Nat
  | [] => none
  | .returned (.ok view) :: _ => some view.index
  | .called .dequeue :: _ => none
  | _ :: log => viewing log

def lastHanded : List Entry → Option (Nat × Bool)
  | [] => none
  | .handed index error :: _ => some (index, error)
  | _ :: log => lastHanded log

def Started (log : List Entry) : Prop := ∃ ok, Entry.started ok ∈ log

def StopTried (log : List Entry) : Prop := ∃ ok, Entry.stopped ok ∈ log

def Viewed (log : List Entry) : Prop := ∃ view, Entry.returned (.ok view) ∈ log

def Quiet (log : List Entry) : Prop := ¬ Started log ∨ Entry.stopped true ∈ log

def parkedIn (log : List Entry) : Nat := log.count (.returned (.error parkedError))

def Entry.isLoss : Entry → Bool
  | .lost (some _) => true
  | _ => false

/-- How many buffers were lost in failed `DQBUF`s. -/
def lostIn (log : List Entry) : Nat := log.countP Entry.isLoss

def Entry.Seals (granted : Nat) : Entry → Prop
  | .queued _ succeeded _ => succeeded = false
  | .started succeeded => succeeded = false
  | .handed index error => granted ≤ index ∧ error = false
  | .returned (.error e) => e = ringRetired
  | .called c => c = .quiesce
  | _ => False

def Sealed (log : List Entry) : Prop := ∃ e ∈ log, e.Seals (granted log)

/-- What may stand in the log over `log`. -/
def Entry.Follows (log : List Entry) : Entry → Prop
  | .queued index _ _ =>
    ¬ Sealed log ∧ index ∉ deviceOwns log ∧ .handed index true ∉ log ∧ viewing log ≠ some index
  | .started _ => ¬ Sealed log ∧ ¬ Started log
  | .handed _ _ => ¬ Sealed log
  | .lost _ => ¬ Sealed log
  | .stopped _ => ¬ StopTried log
  | .returned (.ok view) => lastHanded log = some (view.index, false) ∧ view.index ∉ deviceOwns log
  | .returned (.error e) =>
    e = parkedError → parkedIn log < maxParkedStartupErrors ∧ ¬ Viewed log
  | .unmapped _ => Quiet log
  | .requested count _ => count = 0 → Quiet log
  | _ => True

def Orderly : List Entry → Prop
  | [] => True
  | e :: log => e.Follows log ∧ Orderly log

/-! ## What holds while the ring parks soundly -/

/-- The device named a buffer it was never granted, with the ERROR flag. -/
def StrayError (log : List Entry) : Prop := ∃ index, granted log ≤ index ∧ .handed index true ∈ log

def Entry.FollowsParked (log : List Entry) : Entry → Prop
  | .queued _ _ _ => ¬ StrayError log
  | .started _ => ¬ StrayError log
  | .handed _ _ => ¬ StrayError log
  | .lost _ => ¬ StrayError log
  | .returned (.error e) => e = parkedError → deviceOwns log ≠ []
  | _ => True

def OrderlyParked : List Entry → Prop
  | [] => True
  | e :: log => e.FollowsParked log ∧ OrderlyParked log

/-- `take` parks a buffer that is handed over with the ERROR flag. -/
def Parks (log : List Entry) : Prop :=
  ¬ Viewed log ∧ parkedIn log < maxParkedStartupErrors ∧ parkedIn log + 1 < granted log

/-- Every buffer that is parked was granted, and was not the last one that is neither parked nor lost. -/
def WellParked (log : List Entry) : Prop :=
  ∀ index earlier, .checked true :: .handed index true :: earlier <:+ log → Parks earlier →
    index < granted earlier ∧ lostIn earlier + parkedIn earlier + 1 < granted earlier

structure Legal (log : List Entry) : Prop where
  orderly : Orderly log
  parked : WellParked log → OrderlyParked log

variable {log : List Entry} {e : Entry}

theorem WellParked.tail (h : WellParked (e :: log)) : WellParked log :=
  fun index earlier hsuffix => h index earlier (hsuffix.trans (List.suffix_cons e log))

theorem Legal.cons (h : Legal log) (hfollows : e.Follows log)
    (hparked : WellParked log → e.FollowsParked log) : Legal (e :: log) :=
  ⟨⟨hfollows, h.orderly⟩, fun hwell => ⟨hparked hwell.tail, h.parked hwell.tail⟩⟩

/-! ## The log one entry longer -/

section

variable {ok : Bool}

@[simp] theorem started_cons : Started (e :: log) ↔ (∃ ok, e = .started ok) ∨ Started log := by
  simp [Started, exists_or, eq_comm]

@[simp] theorem stopTried_cons : StopTried (e :: log) ↔ (∃ ok, e = .stopped ok) ∨ StopTried log := by
  simp [StopTried, exists_or, eq_comm]

@[simp] theorem viewed_cons : Viewed (e :: log) ↔ (∃ view, e = .returned (.ok view)) ∨ Viewed log := by
  simp [Viewed, exists_or, eq_comm]

theorem sealed_cons (hgranted : granted (e :: log) = granted log) :
    Sealed (e :: log) ↔ e.Seals (granted log) ∨ Sealed log := by
  simp [Sealed, hgranted]

theorem strayError_cons (hgranted : granted (e :: log) = granted log) :
    StrayError (e :: log) ↔ (∃ index, granted log ≤ index ∧ e = .handed index true) ∨ StrayError log := by
  simp [StrayError, hgranted, and_or_left, exists_or, eq_comm]

theorem parkedIn_cons (h : e ≠ .returned (.error parkedError)) : parkedIn (e :: log) = parkedIn log :=
  List.count_cons_of_ne h

theorem parkedIn_parked : parkedIn (.returned (.error parkedError) :: log) = parkedIn log + 1 :=
  List.count_cons_self

theorem lostIn_cons (h : e.isLoss = false) : lostIn (e :: log) = lostIn log :=
  List.countP_cons_of_neg (by simp [h])

end

def Entry.Plain : Entry → Prop
  | .called c => c ≠ .quiesce
  | .returned (.error e) => e ≠ parkedError ∧ e ≠ ringRetired
  | .checked _ | .retained | .queried _ | .mapped _ | .unmapped _ | .polled => True
  | _ => False

/-- What two logs agree on when only plain entries and `QBUF`s lie between them. -/
structure Alike (log log' : List Entry) : Prop where
  granted : granted log' = granted log
  handed : ∀ index error, .handed index error ∈ log' ↔ .handed index error ∈ log
  stray : StrayError log' ↔ StrayError log
  started : Started log' ↔ Started log
  tried : StopTried log' ↔ StopTried log
  stopped : .stopped true ∈ log' ↔ .stopped true ∈ log
  viewed : Viewed log' ↔ Viewed log
  parked : parkedIn log' = parkedIn log
  lost : lostIn log' = lostIn log

structure Agrees (log log' : List Entry) : Prop extends Alike log log' where
  owns : deviceOwns log' = deviceOwns log
  sealed : Sealed log' ↔ Sealed log

theorem Entry.Plain.agrees (h : e.Plain) : Agrees log (e :: log) := by
  have hgranted : granted (e :: log) = granted log := by
    cases e <;> first | rfl | exact h.elim
  refine ⟨⟨hgranted, ?_, (strayError_cons hgranted).trans ?_, started_cons.trans ?_,
    stopTried_cons.trans ?_, ?_, viewed_cons.trans ?_, parkedIn_cons ?_, lostIn_cons ?_⟩, ?_,
    (sealed_cons hgranted).trans ?_⟩
  all_goals
    cases e with
    | called c => cases c <;> simp_all [deviceOwns, Entry.Plain, Entry.Seals, Entry.isLoss]
    | returned result => cases result <;> simp_all [deviceOwns, Entry.Plain, Entry.Seals, Entry.isLoss]
    | _ => simp_all [deviceOwns, Entry.Plain, Entry.Seals, Entry.isLoss]

variable {index : Nat}

theorem alike_queued {ok taken : Bool} : Alike log (.queued index ok taken :: log) where
  granted := by cases taken <;> rfl
  handed := by simp
  stray := by simp [strayError_cons (show granted (.queued index ok taken :: log) = granted log from rfl)]
  started := by simp
  tried := by simp
  stopped := by simp
  viewed := by simp
  parked := parkedIn_cons (by simp)
  lost := lostIn_cons rfl

theorem Alike.refl (log : List Entry) : Alike log log :=
  ⟨rfl, fun _ _ => .rfl, .rfl, .rfl, .rfl, .rfl, .rfl, rfl, rfl⟩

theorem Alike.trans {log₁ log₂ log₃ : List Entry} (h : Alike log₁ log₂) (h' : Alike log₂ log₃) :
    Alike log₁ log₃ where
  granted := h'.granted.trans h.granted
  handed index error := (h'.handed index error).trans (h.handed index error)
  stray := h'.stray.trans h.stray
  started := h'.started.trans h.started
  tried := h'.tried.trans h.tried
  stopped := h'.stopped.trans h.stopped
  viewed := h'.viewed.trans h.viewed
  parked := h'.parked.trans h.parked
  lost := h'.lost.trans h.lost

/-! ## What a capture knows of its device -/

variable {c c' : MmapCapture} {d t : Device}

structure Stoppable (c : MmapCapture) (d : Device) : Prop where
  tried : StopTried d.log → c.stopAttempted = true
  neverStarted : c.producer.phase = .neverStarted → ¬ Started d.log
  stopped : c.producer.phase = .stopped → .stopped true ∈ d.log

/-- What holds of the ring whether it failed or not. -/
structure Counted (c : MmapCapture) (d : Device) : Prop where
  granted : granted d.log = c.buffers.length
  held : ∀ index, c.held = some index → index ∉ deviceOwns d.log ∧ .handed index true ∉ d.log
  parked : parkedIn d.log = c.parked
  delivered : c.delivered = true ↔ Viewed d.log
  heldDelivered : c.held.isSome → c.delivered = true

/-- Nothing was queued yet. -/
structure Untouched (log : List Entry) : Prop where
  owns : deviceOwns log = []
  handed : ∀ index error, .handed index error ∉ log
  started : ¬ Started log
  parked : parkedIn log = 0
  lost : lostIn log = 0

/-- What holds of a ring that has not failed. -/
structure Unfailed (c : MmapCapture) (d : Device) : Prop where
  stop : c.stopAttempted = false
  unsealed : ¬ Sealed d.log
  noStray : WellParked d.log → ¬ StrayError d.log
  untouched : c.active = false → Untouched d.log ∧ c.held = none
  counts : c.active = true → c.delivered = false → WellParked d.log →
    (deviceOwns d.log).length + c.parked + lostIn d.log = c.buffers.length

/-- What holds between two calls. -/
structure Working (c : MmapCapture) (d : Device) : Prop where
  stoppable : Stoppable c d
  counted : Counted c d
  unfailed : c.failed = false → d.faulted = false → Unfailed c d
  attempted : c.stopAttempted = true → c.failed = true

theorem Working.of_failed (hfailed : c.failed = true) (hstop : Stoppable c d) (hcounted : Counted c d) :
    Working c d :=
  ⟨hstop, hcounted, fun h => (by rw [hfailed] at h; cases h), fun _ => hfailed⟩

theorem Working.of_faulted (hfaulted : d.faulted = true) (hstop : Stoppable c d) (hcounted : Counted c d)
    (hattempted : c.stopAttempted = true → c.failed = true) : Working c d :=
  ⟨hstop, hcounted, fun _ h => (by rw [hfaulted] at h; cases h), hattempted⟩

theorem Stoppable.alike (halike : Alike d.log t.log) (h : Stoppable c d) : Stoppable c t where
  tried htried := h.tried (halike.tried.1 htried)
  neverStarted hphase hstarted := h.neverStarted hphase (halike.started.1 hstarted)
  stopped hphase := halike.stopped.2 (h.stopped hphase)

theorem Counted.alike (halike : Alike d.log t.log) (h : Counted c d) (hheld : c.held = none) :
    Counted c t where
  granted := halike.granted.trans h.granted
  held index hindex := by rw [hheld] at hindex; cases hindex
  parked := halike.parked.trans h.parked
  delivered := h.delivered.trans halike.viewed.symm
  heldDelivered := h.heldDelivered

section

variable (hagrees : Agrees d.log t.log)

include hagrees

theorem Counted.agrees (h : Counted c d) : Counted c t where
  granted := hagrees.granted.trans h.granted
  held index hheld := by
    rw [hagrees.owns, hagrees.handed]
    exact h.held index hheld
  parked := hagrees.parked.trans h.parked
  delivered := h.delivered.trans hagrees.viewed.symm
  heldDelivered := h.heldDelivered

theorem Untouched.agrees (h : Untouched d.log) : Untouched t.log where
  owns := hagrees.owns.trans h.owns
  handed index error hin := h.handed index error ((hagrees.handed index error).1 hin)
  started hstarted := h.started (hagrees.started.1 hstarted)
  parked := hagrees.parked.trans h.parked
  lost := hagrees.lost.trans h.lost

theorem Unfailed.agrees (hwell : WellParked t.log → WellParked d.log) (h : Unfailed c d) :
    Unfailed c t where
  stop := h.stop
  unsealed hsealed := h.unsealed (hagrees.sealed.1 hsealed)
  noStray hwell' hstray := h.noStray (hwell hwell') (hagrees.stray.1 hstray)
  untouched hactive := (h.untouched hactive).imp_left fun h => h.agrees hagrees
  counts hactive hdelivered hwell' := by
    rw [hagrees.owns, hagrees.lost]
    exact h.counts hactive hdelivered (hwell hwell')

theorem Working.agrees (hfaulted : t.faulted = false → d.faulted = false)
    (hwell : WellParked t.log → WellParked d.log) (h : Working c d) : Working c t where
  stoppable := h.stoppable.alike hagrees.toAlike
  counted := h.counted.agrees hagrees
  unfailed hfailed hnot := (h.unfailed hfailed (hfaulted hnot)).agrees hagrees hwell
  attempted := h.attempted

end

/-! ## The answers of the device -/

abbrev Reacts : Program.Reacts Device Op Op.Answer :=
  Program.reactsBy Device.perform fun _ _ _ => True

abbrev Safe {α : Type} (Q : α → Device → Prop) (p : Run α) (d : Device) : Prop :=
  Program.Safe Reacts (fun d => Legal d.log) Q p d

theorem reacts_check {passed : Bool} (h : Reacts d .check passed t) :
    t = ⟨!passed, .checked passed :: d.log⟩ ∧ (passed = true → d.faulted = false) := by
  obtain ⟨ch, -, h⟩ := h
  cases ch with
  | works =>
    simp only [Device.perform] at h
    split at h
    · cases h
    · next hfaulted =>
      cases h
      rw [Bool.not_eq_true] at hfaulted
      exact ⟨by simp [Device.note, hfaulted], fun _ => hfaulted⟩
  | fails errno =>
    cases h
    exact ⟨rfl, nofun⟩
  | _ => cases h

variable {a : Except Nat Unit}

theorem reacts_queue (h : Reacts d (.queue index) a t) :
    (a = .ok () ∧ t = d.note (.queued index true true)) ∨
      ∃ errno taken, a = .error errno ∧ t = d.note (.queued index false taken) := by
  obtain ⟨ch, -, h⟩ := h
  cases ch with
  | works =>
    cases h
    exact .inl ⟨rfl, rfl⟩
  | fails errno =>
    cases h
    exact .inr ⟨errno, false, rfl, rfl⟩
  | takesAndFails errno =>
    cases h
    exact .inr ⟨errno, true, rfl, rfl⟩
  | _ => cases h

theorem reacts_start (h : Reacts d .start a t) :
    (a = .ok () ∧ t = d.note (.started true)) ∨
      ∃ errno, a = .error errno ∧ t = d.note (.started false) := by
  obtain ⟨ch, -, h⟩ := h
  cases ch with
  | works =>
    cases h
    exact .inl ⟨rfl, rfl⟩
  | fails errno =>
    cases h
    exact .inr ⟨errno, rfl, rfl⟩
  | _ => cases h

theorem reacts_stop (h : Reacts d .stop a t) :
    (a = .ok () ∧ t = d.note (.stopped true)) ∨
      ∃ errno, a = .error errno ∧ t = d.note (.stopped false) := by
  obtain ⟨ch, -, h⟩ := h
  cases ch with
  | works =>
    cases h
    exact .inl ⟨rfl, rfl⟩
  | fails errno =>
    cases h
    exact .inr ⟨errno, rfl, rfl⟩
  | _ => cases h

theorem reacts_dequeue {a : Except Nat Buffer} (h : Reacts d .dequeue a t) :
    (∃ buf, a = .ok buf ∧ t = d.note (.handed buf.index buf.hasError) ∧
        (buf.index ∈ deviceOwns d.log ∨ granted d.log ≤ buf.index)) ∨
      ∃ errno index, a = .error errno ∧ t = d.note (.lost index) ∧
        ∀ i, index = some i → i ∈ deviceOwns d.log := by
  obtain ⟨ch, -, h⟩ := h
  cases ch with
  | hands buf =>
    simp only [Device.perform] at h
    split at h
    · next hhands =>
      cases h
      exact .inl ⟨buf, rfl, rfl, hhands⟩
    · cases h
  | fails errno =>
    cases h
    exact .inr ⟨errno, none, rfl, rfl, nofun⟩
  | loses errno index =>
    simp only [Device.perform] at h
    split at h
    · next howns =>
      cases h
      refine .inr ⟨errno, some index, rfl, rfl, fun i hi => ?_⟩
      cases hi
      exact howns
    · cases h
  | _ => cases h

/-- The entry of a call that is logged alike whatever it answers, or with its answer. -/
def Op.entry : (op : Op) → op.Answer → Option Entry
  | .next, call => some (.called call)
  | .returned result, _ => some (.returned result)
  | .queryBuffer index, _ => some (.queried index)
  | .map index _, _ => some (.mapped index)
  | .unmap index, _ => some (.unmapped index)
  | .poll _, _ => some .polled
  | _, _ => none

theorem reacts_entry {op : Op} {a : op.Answer} (h : Reacts d op a t) (he : op.entry a = some e) :
    t = d.note e := by
  obtain ⟨ch, -, h⟩ := h
  cases op <;> cases he <;> cases ch <;> cases h <;> rfl

theorem reacts_retain {a : Unit} (h : Reacts d .retain a t) : t = { d.note .retained with faulted := true } := by
  obtain ⟨ch, -, h⟩ := h
  cases ch <;> cases h
  rfl

theorem reacts_requestBuffers {count : Nat} {a : Except Nat Nat} (h : Reacts d (.requestBuffers count) a t) :
    (∃ n, a = .ok n ∧ t = d.note (.requested count (some n))) ∨
      ∃ errno, a = .error errno ∧ t = d.note (.requested count none) := by
  obtain ⟨ch, -, h⟩ := h
  cases ch with
  | counts n =>
    cases h
    exact .inl ⟨n, rfl, rfl⟩
  | fails errno =>
    cases h
    exact .inr ⟨errno, rfl, rfl⟩
  | _ => cases h

/-! ## The end of a stream -/

theorem Legal.plain (h : Legal log) (hplain : e.Plain) (hfollows : e.Follows log) : Legal (e :: log) := by
  refine h.cons hfollows fun _ => ?_
  cases e with
  | returned result =>
    cases result with
    | error e => exact fun heq => absurd heq hplain.1
    | ok view => trivial
  | called | checked | retained | queried | mapped | unmapped | polled => trivial
  | _ => exact hplain.elim

theorem Stoppable.quiet (h : Stoppable c d) (hquiescent : c.producer.isQuiescent = true) : Quiet d.log := by
  obtain hphase | hphase := Producer.isQuiescent_iff.1 hquiescent
  · exact .inl (h.neverStarted hphase)
  · exact .inr (h.stopped hphase)

theorem Agrees.quiet {log' : List Entry} (h : Agrees log log') (hquiet : Quiet log) : Quiet log' :=
  hquiet.imp (mt h.started.1) h.stopped.2

/-- What `quiesce` leaves of a capture. -/
structure Quiesced (c : MmapCapture) (d : Device) (c' : MmapCapture) (t : Device) : Prop where
  failed : c'.failed = true
  stoppable : Stoppable c' t
  counted : Counted c d → Counted c' t

/-- An entry that is no result leaves the counts as they are. -/
theorem counted_note (h : Counted c d) (hgranted : granted (e :: d.log) = granted d.log)
    (hreturned : ∀ result, e ≠ .returned result)
    (hheld : ∀ i, c.held = some i →
      (i ∈ deviceOwns (e :: d.log) → i ∈ deviceOwns d.log) ∧ .handed i true ≠ e) : Counted c (d.note e) where
  granted := hgranted.trans h.granted
  held i hi := by
    obtain ⟨howns, hhanded⟩ := h.held i hi
    obtain ⟨hsame, hne⟩ := hheld i hi
    exact ⟨mt hsame howns, by simp [Device.note, hne, hhanded]⟩
  parked := (parkedIn_cons (hreturned _)).trans h.parked
  delivered := by
    rw [h.delivered]
    simp [Device.note, hreturned]
  heldDelivered := h.heldDelivered

theorem Counted.stopped {ok : Bool} (h : Counted c d) : Counted c (d.note (.stopped ok)) := by
  refine counted_note h rfl nofun fun i _ => ⟨?_, nofun⟩
  cases ok with
  | true => exact fun hin => absurd hin List.not_mem_nil
  | false => exact id

theorem Counted.of_fields (h : Counted c d) (hbuffers : c'.buffers = c.buffers) (hheld : c'.held = c.held)
    (hparked : c'.parked = c.parked) (hdelivered : c'.delivered = c.delivered) : Counted c' d := by
  obtain ⟨hgranted, hheld', hparked', hdelivered', hheldDelivered⟩ := h
  exact ⟨hbuffers ▸ hgranted, hheld ▸ hheld', hparked ▸ hparked', hdelivered ▸ hdelivered',
    hheld ▸ hdelivered ▸ hheldDelivered⟩

theorem Working.broken (hstop : Stoppable c d) (hcounted : Counted c d) :
    Working { c with failed := true } d :=
  .of_failed rfl ⟨hstop.tried, hstop.neverStarted, hstop.stopped⟩ (hcounted.of_fields rfl rfl rfl rfl)

theorem safe_quiesce (hlegal : Legal d.log) (hstop : Stoppable c d) :
    Safe (fun r t => Quiesced c d r.2 t) c.quiesce d := by
  simp only [MmapCapture.quiesce]
  split
  · split
    · exact ⟨hlegal, rfl, ⟨hstop.tried, hstop.neverStarted, hstop.stopped⟩,
        fun h => h.of_fields rfl rfl rfl rfl⟩
    · exact ⟨hlegal, rfl, ⟨hstop.tried, hstop.neverStarted, hstop.stopped⟩,
        fun h => h.of_fields rfl rfl rfl rfl⟩
  · next hattempted =>
    rw [Bool.not_eq_true] at hattempted
    have hnot : ¬ StopTried d.log := fun h => by rw [hstop.tried h] at hattempted; cases hattempted
    refine ⟨hlegal, fun a t ht => ?_⟩
    obtain ⟨rfl, rfl⟩ | ⟨errno, rfl, rfl⟩ := reacts_stop ht
    · have hlegal' : Legal (d.note (.stopped true)).log := hlegal.cons hnot fun _ => trivial
      have hneverStarted : ∀ phase : Phase, (phase = .neverStarted → c.producer.phase = .neverStarted) →
          phase = .neverStarted → ¬ Started (d.note (.stopped true)).log := by
        intro phase hsame hphase
        simpa [Device.note] using hstop.neverStarted (hsame hphase)
      simp only
      split
      · exact ⟨hlegal', rfl, ⟨fun _ => rfl, hneverStarted _ id, fun _ => List.mem_cons_self⟩,
          fun h => h.stopped.of_fields rfl rfl rfl rfl⟩
      · next producer deferred hstopped =>
        obtain ⟨-, rfl, -⟩ := Producer.stopped_eq_some hstopped
        exact ⟨hlegal', rfl, ⟨fun _ => rfl, nofun, fun _ => List.mem_cons_self⟩,
          fun h => h.stopped.of_fields rfl rfl rfl rfl⟩
    · have hlegal' : Legal (d.note (.stopped false)).log := hlegal.cons hnot fun _ => trivial
      have hstarted : Started (d.note (.stopped false)).log ↔ Started d.log := by simp [Device.note]
      have hmem : .stopped true ∈ d.log → .stopped true ∈ (d.note (.stopped false)).log :=
        List.mem_cons_of_mem _
      simp only
      split
      · exact ⟨hlegal', rfl, ⟨fun _ => rfl, fun h => mt hstarted.1 (hstop.neverStarted h),
          fun h => hmem (hstop.stopped h)⟩,
          fun h => h.stopped.of_fields rfl rfl rfl rfl⟩
      · refine ⟨hlegal', fun _ t ht => ?_⟩
        obtain rfl := reacts_retain ht
        have hagrees : Agrees (d.note (.stopped false)).log (.retained :: (d.note (.stopped false)).log) :=
          Entry.Plain.agrees trivial
        refine ⟨hlegal'.plain trivial trivial, rfl, ⟨fun _ => rfl, nofun, nofun⟩, fun h => ?_⟩
        have hcounted : Counted c { (d.note (.stopped false)).note .retained with faulted := true } :=
          h.stopped.agrees hagrees
        exact hcounted.of_fields rfl rfl rfl rfl

theorem safe_unmapAll {Q : Unit → Device → Prop} {rest : List Nat} (hlegal : Legal d.log) (hquiet : Quiet d.log)
    (hQ : ∀ t, Legal t.log → Quiet t.log → Q () t) : Safe Q (MmapCapture.unmapAll rest) d := by
  induction rest generalizing d with
  | nil => exact ⟨hlegal, hQ d hlegal hquiet⟩
  | cons index rest ih =>
    refine ⟨hlegal, fun a t ht => ?_⟩
    obtain rfl := reacts_entry ht rfl
    have hagrees : Agrees d.log (d.note (.unmapped index)).log := Entry.Plain.agrees trivial
    exact ih (hlegal.plain trivial hquiet) (hagrees.quiet hquiet)

/-- **The drop.** Nothing is unmapped and no buffer is given back unless the device is quiet. -/
theorem safe_drop (hlegal : Legal d.log) (hstop : Stoppable c d) :
    Safe (fun _ _ => True) c.drop d := by
  unfold MmapCapture.drop
  split
  · exact ⟨hlegal, trivial⟩
  · refine (safe_quiesce hlegal hstop).bind fun r t hlegal hquiesced => ?_
    obtain ⟨result, c'⟩ := r
    simp only
    split
    · next hnot =>
      simp only [Bool.not_eq_true', ← Bool.not_eq_true] at hnot
      obtain ⟨-, hphase⟩ | ⟨hafter, -⟩ | ⟨hafter, -⟩ :=
        c'.producer.afterStop_spec MmapCapture.ringOwner
      · exact absurd hphase hnot
      · rw [hafter]
        exact ⟨hlegal, trivial⟩
      · rw [hafter]
        refine ⟨hlegal, fun a u hu => ?_⟩
        obtain rfl := reacts_retain hu
        exact ⟨hlegal.plain trivial trivial, trivial⟩
    · next hquiescent =>
      have hquiet : Quiet t.log := hquiesced.stoppable.quiet (by simpa using hquiescent)
      refine (safe_unmapAll (Q := fun _ u => Quiet u.log) hlegal hquiet fun _ _ hq => hq).bind fun _ u hlegal hquiet => ?_
      refine ⟨hlegal, fun a v hv => ?_⟩
      obtain ⟨n, -, rfl⟩ | ⟨errno, -, rfl⟩ := reacts_requestBuffers hv
      · exact ⟨hlegal.cons (fun _ => hquiet) fun _ => trivial, trivial⟩
      · exact ⟨hlegal.cons (fun _ => hquiet) fun _ => trivial, trivial⟩

/-! ## What the device owns, in an orderly log -/

theorem Orderly.nodup (h : Orderly log) : (deviceOwns log).Nodup := by
  induction log with
  | nil => exact List.nodup_nil
  | cons e log ih =>
    obtain ⟨hfollows, h⟩ := h
    have hnodup := ih h
    cases e with
    | queued index ok taken =>
      cases taken with
      | true => exact List.nodup_cons.2 ⟨hfollows.2.1, hnodup⟩
      | false => exact hnodup
    | handed index error => exact hnodup.erase index
    | lost index =>
      cases index with
      | none => exact hnodup
      | some index => exact hnodup.erase index
    | stopped ok =>
      cases ok with
      | true => exact List.nodup_nil
      | false => exact hnodup
    | _ => exact hnodup

theorem Orderly.not_owned (h : Orderly log) (hhanded : .handed index true ∈ log) :
    index ∉ deviceOwns log := by
  induction log with
  | nil => cases hhanded
  | cons e log ih =>
    obtain ⟨hfollows, h⟩ := h
    have hold : .handed index true ∈ log → index ∉ deviceOwns log := ih h
    cases e with
    | queued index' ok taken =>
      have hbefore : .handed index true ∈ log := by simpa using hhanded
      cases taken with
      | true =>
        have hne : index ≠ index' := fun heq => hfollows.2.2.1 (heq ▸ hbefore)
        simp [deviceOwns, hne, hold hbefore]
      | false => exact hold hbefore
    | handed index' error =>
      intro hin
      rcases List.mem_cons.1 hhanded with heq | hhanded
      · cases heq
        exact (h.nodup.mem_erase_iff.1 hin).1 rfl
      · exact hold hhanded (List.mem_of_mem_erase hin)
    | lost index' =>
      have hbefore : .handed index true ∈ log := by simpa using hhanded
      cases index' with
      | none => exact hold hbefore
      | some index' => exact fun hin => hold hbefore (List.mem_of_mem_erase hin)
    | stopped ok =>
      cases ok with
      | true => exact List.not_mem_nil
      | false => exact hold (by simpa using hhanded)
    | _ => exact hold (by simpa using hhanded)

/-! ## Queueing -/

theorem safe_queue (hlegal : Legal d.log)
    (hfollows : (Entry.queued index true true).Follows d.log)
    (hstray : WellParked d.log → ¬ StrayError d.log) :
    Safe (fun r t => Legal t.log ∧ ((r = .ok () ∧ t = d.note (.queued index true true)) ∨
      ∃ errno taken, r = .error (operationError .queue (.os errno)) ∧ t = d.note (.queued index false taken)))
      (MmapCapture.queue index) d := by
  refine ⟨hlegal, fun a t ht => ?_⟩
  obtain ⟨rfl, rfl⟩ | ⟨errno, taken, rfl, rfl⟩ := reacts_queue ht
  · have hlegal' : Legal (d.note (.queued index true true)).log := hlegal.cons hfollows hstray
    exact ⟨hlegal', hlegal', .inl ⟨rfl, rfl⟩⟩
  · have hlegal' : Legal (d.note (.queued index false taken)).log := hlegal.cons hfollows hstray
    exact ⟨hlegal', hlegal', .inr ⟨errno, taken, rfl, rfl⟩⟩

/-- What queueing the buffers `rest` leaves. -/
structure QueuedAll (rest : List Nat) (d : Device) (r : Except IoError Unit) (t : Device) : Prop where
  alike : Alike d.log t.log
  faulted : t.faulted = d.faulted
  wellParked : WellParked t.log → WellParked d.log
  error : ∀ e, r = .error e → ∃ errno, e = operationError .queue (.os errno)
  done : r = .ok () → ¬ Sealed t.log ∧ (deviceOwns t.log).length = rest.length + (deviceOwns d.log).length

theorem safe_queueAll {rest : List Nat} (hlegal : Legal d.log) (hnodup : rest.Nodup)
    (hrest : ∀ index ∈ rest, index ∉ deviceOwns d.log ∧ .handed index true ∉ d.log)
    (hviewing : viewing d.log = none) (hunsealed : ¬ Sealed d.log)
    (hstray : WellParked d.log → ¬ StrayError d.log) :
    Safe (QueuedAll rest d) (MmapCapture.queueAll rest) d := by
  induction rest generalizing d with
  | nil => exact ⟨hlegal, .refl _, rfl, id, nofun, fun _ => ⟨hunsealed, by simp⟩⟩
  | cons index rest ih =>
    obtain ⟨hindex, hnodup⟩ := List.nodup_cons.1 hnodup
    obtain ⟨⟨howns, hhanded⟩, hrest⟩ := List.forall_mem_cons.1 hrest
    have hfollows : (Entry.queued index true true).Follows d.log :=
      ⟨hunsealed, howns, hhanded, by rw [hviewing]; nofun⟩
    refine (safe_queue hlegal hfollows hstray).bind fun r t _ hr => ?_
    obtain ⟨hlegal', ⟨rfl, rfl⟩ | ⟨errno, taken, rfl, rfl⟩⟩ := hr
    · have hrest' : ∀ i ∈ rest, i ∉ deviceOwns (d.note (.queued index true true)).log ∧
          .handed i true ∉ (d.note (.queued index true true)).log := by
        intro i hi
        obtain ⟨howns', hhanded'⟩ := hrest i hi
        have hne : i ≠ index := fun heq => hindex (heq ▸ hi)
        simp [Device.note, deviceOwns, hne, howns', hhanded']
      have hunsealed' : ¬ Sealed (d.note (.queued index true true)).log := by
        rw [Device.note, sealed_cons rfl]
        simp [Entry.Seals, hunsealed]
      refine (ih hlegal' hnodup hrest' hviewing hunsealed' ?_).mono fun r t _ hr => ?_
      · exact fun hwell hstray' => hstray hwell.tail (alike_queued.stray.1 hstray')
      · refine ⟨alike_queued.trans hr.alike, hr.faulted, fun h => (hr.wellParked h).tail, hr.error, ?_⟩
        intro hok
        obtain ⟨hunsealed, hlength⟩ := hr.done hok
        refine ⟨hunsealed, ?_⟩
        simp only [Device.note, deviceOwns, List.length_cons] at hlength ⊢
        omega
    · exact ⟨hlegal', alike_queued, rfl, WellParked.tail, fun e he => ⟨errno, by cases he; rfl⟩, nofun⟩

/-- What the start of a dequeue leaves: a ring that is ready, or an error. -/
structure Primed (r : Except IoError Unit × MmapCapture) (t : Device) : Prop where
  working : Working r.2 t
  plain : ∀ e, r.1 = .error e → e ≠ parkedError ∧ e ≠ ringRetired
  ready : r.1 = .ok () → r.2.failed = false ∧ r.2.active = true ∧ r.2.held = none ∧ t.faulted = false

theorem plain_os {op : Operation} {errno : Nat} :
    operationError op (.os errno) ≠ parkedError ∧ operationError op (.os errno) ≠ ringRetired := by
  simp [operationError, parkedError, ringRetired, rawError]

theorem safe_startStream (hlegal : Legal d.log) (h : Working c d) (hfailed : c.failed = false)
    (hfaulted : d.faulted = false) (hactive : c.active = false) (hviewing : viewing d.log = none) :
    Safe Primed c.startStream d := by
  obtain ⟨hstop, hunsealed, hstray, huntouched, -⟩ := h.unfailed hfailed hfaulted
  obtain ⟨huntouched, hheld⟩ := huntouched hactive
  have hrest : ∀ index ∈ List.range c.buffers.length,
      index ∉ deviceOwns d.log ∧ .handed index true ∉ d.log := by
    intro index _
    rw [huntouched.owns]
    exact ⟨List.not_mem_nil, huntouched.handed index true⟩
  refine (safe_queueAll hlegal List.nodup_range hrest hviewing hunsealed hstray).bind
    fun r t hlegal hqueued => ?_
  have hcounted : Counted c t := h.counted.alike hqueued.alike hheld
  have hstoppable : Stoppable c t := h.stoppable.alike hqueued.alike
  have hbroken : Working { c with failed := true } t := .broken hstoppable hcounted
  cases r with
  | error e =>
    obtain ⟨errno, rfl⟩ := hqueued.error e rfl
    exact ⟨hlegal, hbroken, fun e he => (by cases he; exact plain_os), nofun⟩
  | ok =>
    obtain ⟨hunsealed, hlength⟩ := hqueued.done rfl
    refine ⟨hlegal, fun passed u hu => ?_⟩
    obtain ⟨rfl, hpassed⟩ := reacts_check hu
    have hagrees : Agrees t.log (.checked passed :: t.log) := Entry.Plain.agrees trivial
    have hlegal' : Legal (.checked passed :: t.log) := hlegal.plain trivial trivial
    cases passed with
    | false =>
      refine ⟨hlegal', ?_, fun e he => (by cases he; decide), nofun⟩
      exact hbroken.agrees (t := ⟨true, .checked false :: t.log⟩) hagrees nofun WellParked.tail
    | true =>
      have hworking : Working { c with failed := true } ⟨false, .checked true :: t.log⟩ :=
        hbroken.agrees hagrees (fun _ => hpassed rfl) WellParked.tail
      simp only
      split
      · refine ⟨hlegal', hworking, fun e he => ?_, nofun⟩
        cases he
        simp [rawError, parkedError, operationError, ringRetired]
      · next producer hbegin =>
        obtain ⟨hphase, rfl⟩ := Producer.begin_eq_ok hbegin
        have hnotStarted : ¬ Started (.checked true :: t.log) := by
          simpa using hstoppable.neverStarted hphase
        have hunsealed' : ¬ Sealed (.checked true :: t.log) := mt hagrees.sealed.1 hunsealed
        have hstray' : WellParked (.checked true :: t.log) → ¬ StrayError (.checked true :: t.log) := by
          intro hwell hstray'
          exact hstray (hqueued.wellParked hwell.tail)
            (hqueued.alike.stray.1 (hagrees.stray.1 hstray'))
        refine ⟨hlegal', fun a v hv => ?_⟩
        have hfollows : ∀ ok, Legal (.started ok :: .checked true :: t.log) := fun ok =>
          hlegal'.cons ⟨hunsealed', hnotStarted⟩ hstray'
        have hcounted' : ∀ ok, Counted c ⟨false, .started ok :: .checked true :: t.log⟩ := fun ok =>
          counted_note (hcounted.agrees (t := ⟨false, .checked true :: t.log⟩) hagrees) rfl (by simp)
            (by simp [hheld])
        have hnotTried : ∀ ok, ¬ StopTried (.started ok :: .checked true :: t.log) := by
          intro ok htried
          have htried : StopTried t.log := by simpa using htried
          rw [hstoppable.tried htried] at hstop
          cases hstop
        obtain ⟨rfl, rfl⟩ | ⟨errno, rfl, rfl⟩ := reacts_start hv
        · refine ⟨hfollows true, ⟨⟨fun htried => absurd htried (hnotTried true), nofun, nofun⟩,
            (hcounted' true).of_fields rfl rfl rfl rfl, fun _ _ => ?_,
            fun hattempted => (by rw [hstop] at hattempted; cases hattempted)⟩, nofun,
            fun _ => ⟨rfl, rfl, hheld, rfl⟩⟩
          refine ⟨hstop, ?_, ?_, nofun, fun _ _ _ => ?_⟩
          · rw [Device.note, sealed_cons rfl]
            simp [Entry.Seals, hunsealed']
          · intro hwell hstray''
            rw [Device.note, strayError_cons rfl] at hstray''
            obtain ⟨index, -, hindex⟩ | hstray'' := hstray''
            · cases hindex
            · exact hstray' hwell.tail hstray''
          · have hparked : c.parked = 0 := h.counted.parked.symm.trans huntouched.parked
            have hlost : lostIn t.log = 0 := hqueued.alike.lost.trans huntouched.lost
            have hlost' : lostIn (.started true :: .checked true :: t.log) = 0 := by
              rw [lostIn_cons rfl, lostIn_cons rfl, hlost]
            have howns : (deviceOwns t.log).length = c.buffers.length := by
              rw [hlength, huntouched.owns, List.length_range, List.length_nil, Nat.add_zero]
            simp only [Device.note, deviceOwns, hlost']
            omega
        · refine ⟨hfollows false, .of_failed rfl ⟨fun htried => absurd htried (hnotTried false), nofun,
            nofun⟩ ((hcounted' false).of_fields rfl rfl rfl rfl), fun e he => (by cases he; exact plain_os),
            nofun⟩

theorem safe_requeue (hlegal : Legal d.log) (h : Working c d) (hfailed : c.failed = false)
    (hfaulted : d.faulted = false) (hactive : c.active = true) (hviewing : viewing d.log = none) :
    Safe Primed c.requeue d := by
  obtain ⟨hstop, hunsealed, hstray, -, -⟩ := h.unfailed hfailed hfaulted
  unfold MmapCapture.requeue
  split
  · next hheld => exact ⟨hlegal, h, nofun, fun _ => ⟨hfailed, hactive, hheld, hfaulted⟩⟩
  · next index hheld =>
    obtain ⟨howns, hhanded⟩ := h.counted.held index hheld
    have hdelivered : c.delivered = true := h.counted.heldDelivered (by rw [hheld]; rfl)
    have hfollows : (Entry.queued index true true).Follows d.log :=
      ⟨hunsealed, howns, hhanded, by rw [hviewing]; nofun⟩
    have hcounted : ∀ ok taken, Counted { c with held := none } (d.note (.queued index ok taken)) := by
      intro ok taken
      refine Counted.alike alike_queued ?_ rfl
      exact ⟨h.counted.granted, nofun, h.counted.parked, h.counted.delivered, nofun⟩
    have hstoppable : ∀ ok taken, Stoppable c (d.note (.queued index ok taken)) := fun ok taken =>
      h.stoppable.alike alike_queued
    refine (safe_queue hlegal hfollows hstray).bind fun r t _ hr => ?_
    obtain ⟨hlegal', ⟨rfl, rfl⟩ | ⟨errno, taken, rfl, rfl⟩⟩ := hr
    · refine ⟨hlegal', ⟨⟨(hstoppable true true).tried, (hstoppable true true).neverStarted,
        (hstoppable true true).stopped⟩, (hcounted true true).of_fields rfl rfl rfl rfl, fun _ _ => ?_,
        fun hattempted => (by rw [hstop] at hattempted; cases hattempted)⟩, nofun,
        fun _ => ⟨rfl, hactive, rfl, hfaulted⟩⟩
      refine ⟨hstop, ?_, fun hwell hstray' => hstray hwell.tail (alike_queued.stray.1 hstray'),
        fun hinactive => (by rw [hactive] at hinactive; cases hinactive),
        fun _ hnot => (by rw [hdelivered] at hnot; cases hnot)⟩
      rw [Device.note, sealed_cons rfl]
      simp [Entry.Seals, hunsealed]
    · refine ⟨hlegal', .of_failed rfl ⟨(hstoppable false taken).tried, (hstoppable false taken).neverStarted,
        (hstoppable false taken).stopped⟩ ((hcounted false taken).of_fields rfl rfl rfl rfl),
        fun e he => (by cases he; exact plain_os), nofun⟩

/-! ## Dequeueing -/

/-- The result of a dequeue may be given to the caller. -/
structure Answered (r : Except IoError View × MmapCapture) (t : Device) : Prop where
  legal : Legal (.returned r.1 :: t.log)
  working : Working r.2 (t.note (.returned r.1))

theorem answered_error {e : IoError} (hlegal : Legal t.log) (h : Working c t)
    (hplain : e ≠ parkedError ∧ e ≠ ringRetired) : Answered (.error e, c) t where
  legal := hlegal.plain hplain fun heq => absurd heq hplain.1
  working := h.agrees (Entry.Plain.agrees hplain) id WellParked.tail

theorem Stoppable.note (h : Stoppable c d) (hstarted : ∀ ok, e ≠ .started ok)
    (hstopped : ∀ ok, e ≠ .stopped ok) : Stoppable c (d.note e) where
  tried htried := by
    refine h.tried ?_
    simpa [Device.note, hstopped] using htried
  neverStarted hphase hin := by
    refine h.neverStarted hphase ?_
    simpa [Device.note, hstarted] using hin
  stopped hphase := List.mem_cons_of_mem _ (h.stopped hphase)

/-- **What is handed over is viewed, parked or lost for good.** -/
theorem answered_take {buf : Buffer} (h : Working c d) (hfailed : c.failed = false) (hactive : c.active = true)
    (hheld : c.held = none) (hfaulted : d.faulted = false)
    (hhands : buf.index ∈ deviceOwns d.log ∨ granted d.log ≤ buf.index)
    (hlegal : Legal (.checked true :: .handed buf.index buf.hasError :: d.log)) :
    Answered (c.take buf) ⟨false, .checked true :: .handed buf.index buf.hasError :: d.log⟩ := by
  obtain ⟨hstop, hunsealed, hstray, -, hcounts⟩ := h.unfailed hfailed hfaulted
  have hagrees : Agrees (.handed buf.index buf.hasError :: d.log)
      (.checked true :: .handed buf.index buf.hasError :: d.log) := Entry.Plain.agrees trivial
  have hstoppable : Stoppable c ⟨false, .checked true :: .handed buf.index buf.hasError :: d.log⟩ :=
    (h.stoppable.note (by simp) (by simp)).alike
      (t := ⟨false, .checked true :: .handed buf.index buf.hasError :: d.log⟩) hagrees.toAlike
  have hstoppable' : ∀ result, Stoppable c (Device.note ⟨false, .checked true ::
      .handed buf.index buf.hasError :: d.log⟩ (.returned result)) :=
    fun _ => hstoppable.note (by simp) (by simp)
  have hcounted : Counted c ⟨false, .checked true :: .handed buf.index buf.hasError :: d.log⟩ :=
    (counted_note h.counted rfl (by simp) (by simp [hheld])).agrees
      (t := ⟨false, .checked true :: .handed buf.index buf.hasError :: d.log⟩) hagrees
  have hbroken : Working { c with failed := true }
      ⟨false, .checked true :: .handed buf.index buf.hasError :: d.log⟩ := .broken hstoppable hcounted
  unfold MmapCapture.take
  split
  · next herror =>
    simp only [herror] at *
    split
    · -- The ring is retired: `failed` is set, and nothing is issued again.
      refine ⟨hlegal.cons (fun heq => ?_) fun _ heq => ?_, ?_⟩
      · exact absurd heq (by decide)
      · exact absurd heq (by decide)
      · refine .broken (hstoppable' _) ⟨hcounted.granted, by simp [hheld], ?_, ?_, hcounted.heldDelivered⟩
        · have hne : Entry.returned (.error ringRetired) ≠ .returned (.error parkedError) := by decide
          exact (parkedIn_cons hne).trans hcounted.parked
        · simpa [Device.note] using hcounted.delivered
    · next hpark =>
      -- The buffer is parked: it is counted, and the device keeps another one.
      simp only [Bool.or_eq_true, decide_eq_true_eq, not_or, Bool.not_eq_true, Nat.not_le] at hpark
      obtain ⟨⟨hdelivered, hroom⟩, hremaining⟩ := hpark
      have hnotViewed : ¬ Viewed d.log := fun hviewed => by
        rw [h.counted.delivered.2 hviewed] at hdelivered
        cases hdelivered
      have hparks : Parks d.log := by
        refine ⟨hnotViewed, ?_, ?_⟩
        · rwa [h.counted.parked]
        · rw [h.counted.parked, h.counted.granted]
          omega
      have hgood : WellParked (.checked true :: .handed buf.index true :: d.log) →
          buf.index ∈ deviceOwns d.log ∧ buf.index < granted d.log ∧
            ((deviceOwns d.log).erase buf.index).length + (c.parked + 1) + lostIn d.log = c.buffers.length ∧
            (deviceOwns d.log).erase buf.index ≠ [] := by
        intro hwell
        obtain ⟨hlt, hroom'⟩ := hwell _ _ (List.suffix_refl _) hparks
        have howns : buf.index ∈ deviceOwns d.log := hhands.resolve_right (by omega)
        have hcount := hcounts hactive hdelivered hwell.tail.tail
        have hlength := List.length_erase_of_mem howns
        have hpos := List.length_pos_of_mem howns
        rw [h.counted.parked, h.counted.granted] at hroom'
        refine ⟨howns, hlt, by omega, List.ne_nil_of_length_pos (by omega)⟩
      have hparkedIn : parkedIn (.checked true :: .handed buf.index true :: d.log) = c.parked :=
        hcounted.parked
      refine ⟨hlegal.cons (fun _ => ⟨?_, ?_⟩) fun hwell _ => (hgood hwell).2.2.2, ?_⟩
      · rwa [hparkedIn]
      · simpa using hnotViewed
      · refine ⟨?_, ?_, fun _ _ => ?_, h.attempted⟩
        · exact ⟨(hstoppable' _).tried, (hstoppable' _).neverStarted, (hstoppable' _).stopped⟩
        · refine ⟨hcounted.granted, by simp [hheld], ?_, ?_, hcounted.heldDelivered⟩
          · exact parkedIn_parked.trans (congrArg (· + 1) hparkedIn)
          · simpa [Device.note] using hcounted.delivered
        · refine ⟨hstop, ?_, fun hwell => ?_, fun h => (by rw [hactive] at h; cases h), fun _ _ hwell => ?_⟩
          · rw [Device.note, sealed_cons rfl, hagrees.sealed, sealed_cons rfl]
            simp [Entry.Seals, hunsealed]
            decide
          · rw [Device.note, strayError_cons rfl, hagrees.stray, strayError_cons rfl]
            obtain ⟨-, hlt, -, -⟩ := hgood hwell.tail
            rintro (⟨i, -, hi⟩ | ⟨i, hle, hi⟩ | hstray')
            · cases hi
            · cases hi
              exact Nat.not_le_of_lt hlt hle
            · exact hstray hwell.tail.tail.tail hstray'
          · obtain ⟨-, -, hcount, -⟩ := hgood hwell.tail
            simp only [Device.note, deviceOwns]
            rw [lostIn_cons rfl, lostIn_cons rfl, lostIn_cons rfl]
            exact hcount
  · next herror =>
    rw [Bool.not_eq_true] at herror
    simp only [herror] at *
    split
    · exact answered_error hlegal hbroken (by decide)
    · next len hlen =>
      -- The buffer is viewed: it was never handed over with ERROR, or the device would not own it.
      have hlt : buf.index < granted d.log := by
        rw [h.counted.granted]
        exact (List.getElem?_eq_some_iff.1 hlen).1
      have howns : buf.index ∈ deviceOwns d.log := hhands.resolve_right (Nat.not_le_of_lt hlt)
      have horderly : Orderly d.log := hlegal.orderly.2.2
      have hgone : buf.index ∉ (deviceOwns d.log).erase buf.index :=
        fun hin => (horderly.nodup.mem_erase_iff.1 hin).1 rfl
      refine ⟨hlegal.cons ⟨rfl, hgone⟩ fun _ => trivial, ?_, ?_, fun _ _ => ?_, h.attempted⟩
      · exact ⟨(hstoppable' _).tried, (hstoppable' _).neverStarted, (hstoppable' _).stopped⟩
      · refine ⟨hcounted.granted, fun i hi => ?_, ?_, ?_, fun _ => rfl⟩
        · cases hi
          refine ⟨hgone, ?_⟩
          have hnever : .handed buf.index true ∉ d.log := fun hin => horderly.not_owned hin howns
          simpa [Device.note] using hnever
        · exact (parkedIn_cons (by simp)).trans hcounted.parked
        · simp [Device.note]
      · refine ⟨hstop, ?_, fun hwell => ?_, fun h => (by rw [hactive] at h; cases h), nofun⟩
        · rw [Device.note, sealed_cons rfl, hagrees.sealed, sealed_cons rfl]
          simp [Entry.Seals, hunsealed, hlt]
        · rw [Device.note, strayError_cons rfl, hagrees.stray, strayError_cons rfl]
          rintro (⟨i, -, hi⟩ | ⟨i, -, hi⟩ | hstray')
          · cases hi
          · cases hi
          · exact hstray hwell.tail.tail.tail hstray'

theorem safe_receive (hlegal : Legal d.log) (h : Working c d) (hfailed : c.failed = false)
    (hactive : c.active = true) (hheld : c.held = none) (hfaulted : d.faulted = false) :
    Safe Answered c.receive d := by
  refine ⟨hlegal, fun a t ht => ?_⟩
  obtain rfl := reacts_entry ht rfl
  have hlegal' : Legal (d.note .polled).log := hlegal.plain trivial trivial
  have h' : Working c (d.note .polled) := h.agrees (Entry.Plain.agrees trivial) id WellParked.tail
  obtain ⟨hstop, hunsealed, hstray, -, hcounts⟩ := h'.unfailed hfailed hfaulted
  cases a with
  | error errno => exact ⟨hlegal', answered_error hlegal' h' plain_os⟩
  | ok ready =>
    cases ready with
    | zero => exact ⟨hlegal', answered_error hlegal' h' (by decide)⟩
    | succ ready =>
      refine ⟨hlegal', fun a t ht => ?_⟩
      obtain ⟨buf, rfl, rfl, hhands⟩ | ⟨errno, index, rfl, rfl, howns⟩ := reacts_dequeue ht
      · have hhanded : Legal ((d.note .polled).note (.handed buf.index buf.hasError)).log :=
          hlegal'.cons hunsealed hstray
        refine ⟨hhanded, fun passed t ht => ?_⟩
        obtain ⟨rfl, hpassed⟩ := reacts_check ht
        have hchecked : Legal (.checked passed ::
            ((d.note .polled).note (.handed buf.index buf.hasError)).log) := hhanded.plain trivial trivial
        cases passed with
        | true => exact ⟨hchecked, answered_take h' hfailed hactive hheld hfaulted hhands hchecked⟩
        | false =>
          have hagrees : Agrees ((d.note .polled).note (.handed buf.index buf.hasError)).log
              (.checked false :: ((d.note .polled).note (.handed buf.index buf.hasError)).log) :=
            Entry.Plain.agrees trivial
          refine ⟨hchecked, answered_error hchecked (.of_faulted rfl ?_ ?_ h.attempted) (by decide)⟩
          · exact (h'.stoppable.note (by simp) (by simp)).alike hagrees.toAlike
          · exact (counted_note h'.counted rfl (by simp) (by simp [hheld])).alike hagrees.toAlike hheld
      · have hlost : Legal ((d.note .polled).note (.lost index)).log := hlegal'.cons hunsealed hstray
        refine ⟨hlost, answered_error hlost ⟨h'.stoppable.note (by simp) (by simp),
          counted_note h'.counted rfl (by simp) (by simp [hheld]), fun _ _ => ?_, h.attempted⟩ plain_os⟩
        refine ⟨hstop, ?_, fun hwell => ?_, fun h => (by rw [hactive] at h; cases h),
          fun hactive hdelivered hwell => ?_⟩
        · rw [Device.note, sealed_cons rfl]
          simp [Entry.Seals, hunsealed]
        · rw [Device.note, strayError_cons rfl]
          simpa using hstray hwell.tail
        · have hcount := hcounts hactive hdelivered hwell.tail
          cases index with
          | none =>
            rw [← hcount]
            rfl
          | some index =>
            have hin := howns index rfl
            have hlength := List.length_erase_of_mem hin
            have hpos := List.length_pos_of_mem hin
            have hlostIn : lostIn (.lost (some index) :: (d.note .polled).log) =
                lostIn (d.note .polled).log + 1 := List.countP_cons_of_pos rfl
            simp only [Device.note, deviceOwns] at hlength hpos hcount hlostIn ⊢
            omega

/-- **One dequeue.** -/
theorem safe_dequeue (hlegal : Legal d.log) (h : Working c d) (hviewing : viewing d.log = none) :
    Safe Answered c.dequeue d := by
  refine ⟨hlegal, fun passed t ht => ?_⟩
  obtain ⟨rfl, hpassed⟩ := reacts_check ht
  have hlegal' : Legal (.checked passed :: d.log) := hlegal.plain trivial trivial
  have h' : Working c ⟨!passed, .checked passed :: d.log⟩ := by
    refine h.agrees (t := ⟨!passed, .checked passed :: d.log⟩) (Entry.Plain.agrees trivial) ?_
      WellParked.tail
    cases passed with
    | true => exact fun _ => hpassed rfl
    | false => nofun
  cases passed with
  | false => exact ⟨hlegal', answered_error hlegal' h' (by decide)⟩
  | true =>
    simp only
    split
    · exact ⟨hlegal', answered_error hlegal' h' (by decide)⟩
    · next hfailed =>
      rw [Bool.not_eq_true] at hfailed
      have hprimed : Safe Primed (if c.active then c.requeue else c.startStream)
          ⟨false, .checked true :: d.log⟩ := by
        split
        · next hactive => exact safe_requeue hlegal' h' hfailed rfl hactive hviewing
        · next hactive =>
          exact safe_startStream hlegal' h' hfailed rfl (Bool.not_eq_true _ ▸ hactive) hviewing
      refine hprimed.bind fun r t hlegal hr => ?_
      obtain ⟨result, c'⟩ := r
      cases result with
      | error e => exact ⟨hlegal, answered_error hlegal hr.working (hr.plain e rfl)⟩
      | ok =>
        obtain ⟨hfailed, hactive, hheld, hfaulted⟩ := hr.ready rfl
        exact safe_receive hlegal hr.working hfailed hactive hheld hfaulted

/-! ## The life of a capture -/

theorem safe_life {n : Nat} (hlegal : Legal d.log) (h : Working c d) :
    Safe (fun _ _ => True) (c.life n) d := by
  induction n generalizing c d with
  | zero => exact safe_drop hlegal h.stoppable
  | succ n ih =>
    refine ⟨hlegal, fun call t ht => ?_⟩
    obtain rfl := reacts_entry ht rfl
    cases call with
    | dequeue =>
      have hlegal' : Legal (d.note (.called .dequeue)).log := hlegal.plain nofun trivial
      have h' : Working c (d.note (.called .dequeue)) :=
        h.agrees (Entry.Plain.agrees (show Entry.Plain (.called .dequeue) from nofun)) id WellParked.tail
      refine (safe_dequeue hlegal' h' rfl).bind fun r t _ hr => ?_
      refine ⟨by assumption, fun a u hu => ?_⟩
      obtain rfl := reacts_entry hu rfl
      exact ih hr.legal hr.working
    | quiesce =>
      have hlegal' : Legal (d.note (.called .quiesce)).log := hlegal.cons trivial fun _ => trivial
      have hstop : Stoppable c (d.note (.called .quiesce)) := h.stoppable.note (by simp) (by simp)
      have hcounted : Counted c (d.note (.called .quiesce)) :=
        counted_note h.counted rfl (by simp) fun _ _ => ⟨id, nofun⟩
      refine (safe_quiesce hlegal' hstop).bind fun r t hlegal hr => ?_
      exact ih hlegal (.of_failed hr.failed hr.stoppable (hr.counted hcounted))
    | drop =>
      have hlegal' : Legal (d.note (.called .drop)).log := hlegal.plain nofun trivial
      exact safe_drop hlegal' (h.stoppable.note (by simp) (by simp))

/-- The log of a device on which only buffers were requested and mapped. -/
structure Preparing (d : Device) : Prop where
  legal : Legal d.log
  untouched : Untouched d.log
  unsealed : ¬ Sealed d.log
  noStray : ¬ StrayError d.log
  tried : ¬ StopTried d.log
  viewed : ¬ Viewed d.log

theorem Preparing.plain (h : Preparing d) (hplain : e.Plain) (hfollows : e.Follows d.log) :
    Preparing (d.note e) := by
  have hagrees : Agrees d.log (d.note e).log := hplain.agrees
  exact ⟨h.legal.plain hplain hfollows, h.untouched.agrees hagrees, mt hagrees.sealed.1 h.unsealed,
    mt hagrees.stray.1 h.noStray, mt hagrees.tried.1 h.tried, mt hagrees.viewed.1 h.viewed⟩

structure Unused (c : MmapCapture) : Prop where
  active : c.active = false
  held : c.held = none
  failed : c.failed = false
  phase : c.producer.phase = .neverStarted
  stopAttempted : c.stopAttempted = false
  parked : c.parked = 0
  delivered : c.delivered = false

theorem Unused.stoppable (h : Unused c) (hd : Preparing d) : Stoppable c d :=
  ⟨fun htried => absurd htried hd.tried, fun _ => hd.untouched.started,
    fun hstopped => by rw [h.phase] at hstopped; cases hstopped⟩

theorem Unused.working (h : Unused c) (hd : Preparing d) (hgranted : granted d.log = c.buffers.length) :
    Working c d where
  stoppable := h.stoppable hd
  counted := by
    refine ⟨hgranted, fun i hi => ?_, hd.untouched.parked.trans h.parked.symm, ?_, fun hi => ?_⟩
    · rw [h.held] at hi
      cases hi
    · simp [h.delivered, hd.viewed]
    · rw [h.held] at hi
      cases hi
  unfailed _ _ := by
    refine ⟨h.stopAttempted, hd.unsealed, fun _ => hd.noStray, fun _ => ⟨hd.untouched, h.held⟩, ?_⟩
    intro hactive
    rw [h.active] at hactive
    cases hactive
  attempted hattempted := by
    rw [h.stopAttempted] at hattempted
    cases hattempted

structure Allocated (r : Except IoError Unit × MmapCapture) (t : Device) : Prop where
  stoppable : Stoppable r.2 t
  working : r.1 = .ok () → Working r.2 t

theorem safe_mapBuffers {index left : Nat} (h : Unused c) (hd : Preparing d) (hindex : c.buffers.length = index)
    (hgranted : granted d.log = index + left) : Safe Allocated (c.mapBuffers index left) d := by
  induction left generalizing c d index with
  | zero => exact ⟨hd.legal, h.stoppable hd, fun _ => h.working hd (by omega)⟩
  | succ left ih =>
    have hstop : ∀ {t e}, Preparing t → Allocated (.error e, c) t := fun ht => ⟨h.stoppable ht, nofun⟩
    refine ⟨hd.legal, fun a t ht => ?_⟩
    obtain rfl := reacts_entry ht rfl
    have hqueried : Preparing (d.note (.queried index)) := hd.plain trivial trivial
    cases a with
    | error errno => exact ⟨hqueried.legal, hstop hqueried⟩
    | ok len =>
      cases len with
      | zero => exact ⟨hqueried.legal, hstop hqueried⟩
      | succ len =>
        refine ⟨hqueried.legal, fun a t ht => ?_⟩
        obtain rfl := reacts_entry ht rfl
        have hmapped : Preparing ((d.note (.queried index)).note (.mapped index)) :=
          hqueried.plain trivial trivial
        cases a with
        | error errno => exact ⟨hmapped.legal, hstop hmapped⟩
        | ok mapped =>
          cases mapped with
          | null =>
            refine ⟨hmapped.legal, fun a t ht => ?_⟩
            obtain rfl := reacts_entry ht rfl
            have hunmapped : Preparing (((d.note (.queried index)).note (.mapped index)).note
                (.unmapped index)) := hmapped.plain trivial (.inl hmapped.untouched.started)
            cases a <;> exact ⟨hunmapped.legal, hstop hunmapped⟩
          | «at» =>
            refine ih ⟨h.active, h.held, h.failed, h.phase, h.stopAttempted, h.parked, h.delivered⟩
              hmapped (by simp [hindex]) ?_
            have hsame : granted ((d.note (.queried index)).note (.mapped index)).log = granted d.log := rfl
            rw [hsame, hgranted]
            omega

theorem preparing_new : Preparing .new := by
  refine ⟨⟨trivial, fun _ => trivial⟩, ⟨rfl, nofun, nofun, rfl, rfl⟩, nofun, nofun, nofun, nofun⟩

theorem Preparing.requested {count : Nat} {n : Option Nat} (h : Preparing d)
    (hlog : ∀ e ∈ d.log, e = .checked true) : Preparing (d.note (.requested count n)) := by
  have hseals : ∀ e ∈ (d.note (.requested count n)).log, ∀ m, ¬ e.Seals m := by
    intro e he m
    rcases List.mem_cons.1 he with rfl | he
    · exact id
    · rw [hlog e he]
      exact id
  refine ⟨h.legal.cons (fun _ => .inl h.untouched.started) fun _ => trivial, ⟨?_, ?_, ?_, ?_, ?_⟩, ?_, ?_,
    ?_, ?_⟩
  · exact h.untouched.owns
  · simpa [Device.note] using h.untouched.handed
  · simpa [Device.note] using h.untouched.started
  · exact (parkedIn_cons (by simp)).trans h.untouched.parked
  · exact (lostIn_cons rfl).trans h.untouched.lost
  · rintro ⟨e, he, hsealing⟩
    exact hseals e he _ hsealing
  · rintro ⟨i, -, hi⟩
    exact h.untouched.handed i true (by simpa [Device.note] using hi)
  · simpa [Device.note] using h.tried
  · simpa [Device.note] using h.viewed

theorem safe_withBuffers {count timeoutMs n : Nat} :
    Safe (fun _ _ => True) (MmapCapture.withBuffers count timeoutMs n) .new := by
  have hunused : Unused { MmapCapture.new timeoutMs with buffersRequested := true } :=
    ⟨rfl, rfl, rfl, rfl, rfl, rfl, rfl⟩
  refine ⟨preparing_new.legal, fun passed t ht => ?_⟩
  obtain ⟨rfl, -⟩ := reacts_check ht
  cases passed with
  | false => exact ⟨preparing_new.legal.plain trivial trivial, trivial⟩
  | true =>
    have hchecked : Preparing ⟨false, [.checked true]⟩ :=
      preparing_new.plain (show Entry.Plain (.checked true) from trivial) trivial
    simp only
    split
    · exact ⟨hchecked.legal, trivial⟩
    · have hallocated : Safe Allocated ((MmapCapture.new timeoutMs).allocate count)
          ⟨false, [.checked true]⟩ := by
        refine ⟨hchecked.legal, fun a t ht => ?_⟩
        obtain ⟨granted, rfl, rfl⟩ | ⟨errno, rfl, rfl⟩ := reacts_requestBuffers ht
        · have hrequested : Preparing (Device.note ⟨false, [.checked true]⟩ (.requested count (some granted))) :=
            hchecked.requested (by simp)
          cases granted with
          | zero => exact ⟨hrequested.legal, hunused.stoppable hrequested, nofun⟩
          | succ granted => exact safe_mapBuffers hunused hrequested rfl (Nat.zero_add _).symm
        · have hrequested : Preparing (Device.note ⟨false, [.checked true]⟩ (.requested count none)) :=
            hchecked.requested (by simp)
          exact ⟨hrequested.legal, hunused.stoppable hrequested, nofun⟩
      refine hallocated.bind fun r t hlegal hr => ?_
      obtain ⟨result, c⟩ := r
      cases result with
      | error e => exact safe_drop hlegal hr.stoppable
      | ok => exact safe_life hlegal (hr.working rfl)

/-! ## Whole runs -/

abbrev RingState := Sessions Device Op Op.Answer
abbrev RingEvent := SessionEvent Empty Choice Empty

def ringStep : RingState → RingEvent → Option RingState := Sessions.step nofun Device.perform nofun

def opened (count timeoutMs n : Nat) : RingState := ⟨.new, MmapCapture.withBuffers count timeoutMs n⟩

/-- **Capture buffers have one owner at a time.** Whatever the device and the caller answer, the log is
orderly at every moment; while every buffer that is parked was granted, and was not the last one that is
neither parked nor lost, an index out of range ends the use of the ring and a parked buffer leaves the device
another one. -/
theorem one_owner (count timeoutMs n : Nat) (es : List RingEvent) :
    ∀ m ∈ states ringStep (opened count timeoutMs n) es, Orderly m.world.log ∧
      (WellParked m.world.log → OrderlyParked m.world.log) := by
  intro m hm
  have hstart : Sessions.Sound Device.perform (fun _ _ _ => True) (fun d => Legal d.log)
      (opened count timeoutMs n) := safe_withBuffers
  have hevents : ∀ x ∈ steps ringStep (opened count timeoutMs n) es,
      Sessions.Answers (fun _ _ _ => True) x.1 x.2 ∧ Sessions.Starts (fun _ => True) x.2 := fun x _ =>
    ⟨Sessions.answers_of_forall (fun _ _ _ => trivial) x.1 x.2, Sessions.starts_of_forall nofun x.2⟩
  have hlegal := (Sessions.states_sound nofun nofun hevents hstart m hm).world
  exact ⟨hlegal.orderly, hlegal.parked⟩

/-! ## Two parked buffers -/

/-- Two buffers are granted, mapped and queued, the stream is started, and `DQBUF` is next. -/
def twoBuffers : List RingEvent :=
  [.answer .works, .answer (.counts 2), .answer (.counts 4096), .answer .works, .answer (.counts 4096),
    .answer .works, .answer (.calls .dequeue), .answer .works, .answer .works, .answer .works,
    .answer .works, .answer .works, .answer (.counts 1)]

def errorBuffer (index : Nat) : Buffer := ⟨index, errorFlag, 0, 0, 0, 0⟩

def goodBuffer (index : Nat) : Buffer := ⟨index, 0, 4096, 0, 0, 0⟩

/-- The index 7 comes with the ERROR flag, is parked, and the ring goes on. -/
def strayParked : List RingEvent := twoBuffers ++
  [.answer (.hands (errorBuffer 7)), .answer .works, .answer .works, .answer (.calls .dequeue),
    .answer .works, .answer (.counts 1), .answer (.hands (goodBuffer 0))]

/-- A failed `DQBUF` consumes one buffer, and the other one is parked. -/
def lastParked : List RingEvent := twoBuffers ++
  [.answer (.loses 5 0), .answer .works, .answer (.calls .dequeue), .answer .works, .answer (.counts 1),
    .answer (.hands (errorBuffer 1)), .answer .works, .answer .works]

set_option maxRecDepth 100000 in
theorem not_one_owner_parked :
    (∃ m, run ringStep (opened 2 1000 2) strayParked = some m ∧ ¬ OrderlyParked m.world.log) ∧
      ∃ m, run ringStep (opened 2 1000 2) lastParked = some m ∧ ¬ OrderlyParked m.world.log := by
  have hstray : (run ringStep (opened 2 1000 2) strayParked).map (fun m =>
      (m.world.log.head?, granted m.world.log.tail, m.world.log.tail.contains (.handed 7 true))) =
      some (some (.handed 0 false), 2, true) := by decide
  have hlast : (run ringStep (opened 2 1000 2) lastParked).map
      (fun m => (m.world.log.head?, deviceOwns m.world.log.tail)) =
      some (some (.returned (.error parkedError)), []) := by decide
  constructor
  · obtain ⟨⟨⟨faulted, log⟩, running⟩, hm, hlog⟩ := Option.map_eq_some_iff.1 hstray
    refine ⟨_, hm, fun horderly => ?_⟩
    cases log with
    | nil => cases hlog
    | cons e log =>
      simp only [List.head?_cons, List.tail_cons, Prod.mk.injEq, Option.some.injEq] at hlog
      obtain ⟨rfl, hgranted, hhanded⟩ := hlog
      exact horderly.1 ⟨7, by rw [hgranted]; decide, List.contains_iff_mem.1 hhanded⟩
  · obtain ⟨⟨⟨faulted, log⟩, running⟩, hm, hlog⟩ := Option.map_eq_some_iff.1 hlast
    refine ⟨_, hm, fun horderly => ?_⟩
    cases log with
    | nil => cases hlog
    | cons e log =>
      simp only [List.head?_cons, List.tail_cons, Prod.mk.injEq, Option.some.injEq] at hlog
      obtain ⟨rfl, howns⟩ := hlog
      exact horderly.1 rfl howns

def twoViews : List RingEvent := twoBuffers ++
  [.answer (.hands (goodBuffer 0)), .answer .works, .answer .works, .answer (.calls .dequeue),
    .answer .works, .answer .works, .answer (.counts 1), .answer (.hands (goodBuffer 1)), .answer .works,
    .answer .works]

def Entry.isErrorHanded : Entry → Bool
  | .handed _ error => error
  | _ => false

set_option maxRecDepth 100000 in
theorem one_owner_twoViews : ∃ m, run ringStep (opened 2 1000 2) twoViews = some m ∧
    viewing m.world.log = some 1 ∧ Orderly m.world.log ∧ OrderlyParked m.world.log := by
  have hviews : (run ringStep (opened 2 1000 2) twoViews).map
      (fun m => (viewing m.world.log, m.world.log.any Entry.isErrorHanded)) = some (some 1, false) := by
    decide
  obtain ⟨m, hm, hlog⟩ := Option.map_eq_some_iff.1 hviews
  obtain ⟨hviewing, hnone⟩ := Prod.mk.inj hlog
  have hwell : WellParked m.world.log := by
    intro index earlier hsuffix
    have hin : .handed index true ∈ m.world.log := hsuffix.subset (by simp)
    rw [List.any_eq_false] at hnone
    exact absurd rfl (hnone _ hin)
  have hmem : m ∈ states ringStep (opened 2 1000 2) twoViews := by
    simpa using mem_states_of_run hm []
  obtain ⟨horderly, hparked⟩ := one_owner 2 1000 2 twoViews m hmem
  exact ⟨m, hm, hviewing, horderly, hparked hwell⟩

end Irlume.Capture

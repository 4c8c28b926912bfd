import Irlume.Emitter.Camera
import Irlume.Emitter.Stream.Mode

/-!
# Streams put back only what they displaced

Any streams on a camera's controls, one after the other under the stream lock, each killed anywhere. The world
keeps a log of the writes and of the ends of streams.

A control off its value of before is told by the one record of the camera (`Outstanding`), so the next stream
either claims it or leaves the control alone.
-/

namespace Irlume.Emitter.Stream

open Irlume.Lib

/-! ## The world -/

/-- A write that was sent, or the end of a stream that had something to put back. -/
inductive Entry where
  | sent (why : Purpose) (c : Control) (before payload : Bytes) (took : Bool)
  | ended (c : Control) (answer : Except RestoreError Unit) (held : Bytes)
  deriving DecidableEq

structure World where
  control : Control → Bytes
  files : Text → Option Contents
  log : List Entry

inductive Choice where
  | works
  | cameraFails (e : XuError)
  /-- A guard, a legacy record or a lease refuses; a lock is taken. -/
  | refuses
  | fileFails

namespace World

def note (w : World) (e : Entry) : World := { w with log := e :: w.log }

def putFile (w : World) (path : Text) (contents : Option Contents) : World :=
  { w with files := Function.update w.files path contents }

/-- A `SET_CUR` that took effect. -/
def set (w : World) (why : Purpose) (c : Control) (v : Bytes) : World where
  control := Function.update w.control c v
  files := w.files
  log := .sent why c (w.control c) v true :: w.log

def perform (w : World) : (op : Op) → Choice → Option (op.Answer × World)
  | .protectLegacyRecords, .works => some (.ok (), w)
  | .protectLegacyRecords, .refuses => some (.error (), w)
  | .openLock _, .works => some (.ok 0, w)
  | .openLock _, .fileFails => some (.error (), w)
  | .flock _, .works => some (.ok (), w)
  | .flock _, .refuses => some (.error .busy, w)
  | .flock _, .fileFails => some (.error .unavailable, w)
  | .readRecord path, .works => some (.ok (w.files path), w)
  | .readRecord _, .fileFails => some (.error (), w)
  | .publish path record, .works => some (.ok (), w.putFile path (some (.record record)))
  | .publish _ _, .fileFails => some (.error (), w)
  | .removeRecord path, .works => some (.ok (), w.putFile path none)
  | .removeRecord _, .fileFails => some (.error (), w)
  | .getCur unit selector size, .works =>
    if (w.control (unit, selector)).length = size then some (.ok (w.control (unit, selector)), w)
    else none
  | .getCur _ _ _, .cameraFails e => some (.error e, w)
  | .setCur why unit selector payload, .works => some (.ok (), w.set why (unit, selector) payload)
  | .setCur why unit selector payload, .cameraFails e =>
    some (.error e, w.note (.sent why (unit, selector) (w.control (unit, selector)) payload false))
  | .beforeForwardWrite, .works => some (.ok (), w)
  | .beforeForwardWrite, .refuses => some (.error (), w)
  | .requireRestore, .works => some (.ok (), w)
  | .requireRestore, .cameraFails e => some (.error e, w)
  | .streams, .works => some ((), w)
  | .ended unit selector answer, .works =>
    some ((), w.note (.ended (unit, selector) answer (w.control (unit, selector))))
  | _, _ => none

end World

abbrev State := Sessions World Op Op.Answer
abbrev Event := SessionEvent Session Choice Unit

/-- The one thing that ends a stream early is a kill, which changes nothing. -/
def step [Sha256] : State → Event → Option State :=
  Sessions.step Session.program World.perform fun w () => some w

/-! ## The property -/

/-- What `c` held before the earliest forward write that has not been undone since. -/
def earliest (c : Control) : List Entry → Option Bytes
  | [] => none
  | .sent .forward c' before _ true :: log =>
    if c' = c then some ((earliest c log).getD before) else earliest c log
  | .sent .restoring c' _ _ true :: log => if c' = c then none else earliest c log
  | .sent _ _ _ _ false :: log => earliest c log
  | .ended _ _ _ :: log => earliest c log

/-- What may stand in the log over `log`. -/
def Entry.Follows (log : List Entry) : Entry → Prop
  | .sent .restoring c _ payload _ =>
    earliest c log = some payload ∧
      ∀ before took, .sent .forward c before payload took ∉ log
  | .ended c (.ok ()) held =>
    ∃ before log', log = .sent .restoring c before held true :: log'
  | _ => True

/-- A restoring write sends what its control held before the earliest forward write not undone since, never a
value applied, and a stream that ends normally ends right behind such a write. -/
def Orderly : List Entry → Prop
  | [] => True
  | e :: log => e.Follows log ∧ Orderly log

/-- No record of the camera says that irlume has a control changed. -/
def Unclaimed [Sha256] (camera : CameraIdentity) (w : World) : Prop :=
  ∀ r, w.files (recordPath camera) = some (.record r) → r.state = .applied →
    fromHex r.applied ≠ some (w.control r.control)

def FilesWork (_ : World) (_ : Op) (ch : Choice) : Prop := ch ≠ .fileFails

/-! ## What holds of every world -/

/-- The record's control is changed, and the record tells what was displaced. -/
structure Outstanding (v₀ : Control → Bytes) (r : StreamWrite) (w : World) : Prop where
  changed : w.control r.control ≠ v₀ r.control
  applied : r.applied = toHex (w.control r.control)
  displaced : r.displaced = toHex (v₀ r.control)
  earliest : earliest r.control w.log = some (v₀ r.control)

/-- Nothing is to be undone at `c`. -/
def Resting (v₀ : Control → Bytes) (w : World) (c : Control) : Prop :=
  w.control c = v₀ c ∧ earliest c w.log = none

/-- `v₀` are the values of before any write. -/
structure Kept (path : Text) (v₀ : Control → Bytes) (w : World) : Prop where
  orderly : Orderly w.log
  forward : ∀ c before payload took, .sent .forward c before payload took ∈ w.log → payload ≠ v₀ c
  controls : ∀ c, Resting v₀ w c ∨
    ∃ r, w.files path = some (.record r) ∧ r.control = c ∧ Outstanding v₀ r w
  claims : ∀ r, w.files path = some (.record r) → r.state = .applied →
    fromHex r.applied = some (w.control r.control) → Outstanding v₀ r w

variable {path : Text} {v₀ : Control → Bytes} {w t : World} {r : StreamWrite} {c : Control}
  {v : Bytes} {ch : Choice}

section Log

variable {log : List Entry} {why : Purpose} {c' : Control} {before payload : Bytes}

theorem earliest_other (h : c' ≠ c) (took : Bool) :
    earliest c (.sent why c' before payload took :: log) = earliest c log := by
  cases took with
  | false => cases why <;> rfl
  | true => cases why <;> simp [earliest, h]

@[simp]
theorem earliest_forward : earliest c (.sent .forward c before payload true :: log) =
    some ((earliest c log).getD before) := by
  simp [earliest]

@[simp]
theorem earliest_restoring : earliest c (.sent .restoring c before payload true :: log) = none := by
  simp [earliest]

@[simp]
theorem earliest_failed : earliest c (.sent why c' before payload false :: log) = earliest c log := by
  cases why <;> rfl

end Log

theorem Resting.transfer (h : Resting v₀ w c) (hcontrol : t.control = w.control)
    (hearliest : ∀ c, earliest c t.log = earliest c w.log) : Resting v₀ t c :=
  ⟨(congrFun hcontrol c).trans h.1, (hearliest c).trans h.2⟩

theorem Resting.set {why : Purpose} {c' : Control} (h : Resting v₀ w c) (hc : c ≠ c') :
    Resting v₀ (w.set why c' v) c :=
  ⟨(Function.update_of_ne hc ..).trans h.1, (earliest_other (Ne.symm hc) true).trans h.2⟩

theorem Outstanding.transfer (h : Outstanding v₀ r w) (hcontrol : t.control = w.control)
    (hearliest : ∀ c, Stream.earliest c t.log = Stream.earliest c w.log) : Outstanding v₀ r t where
  changed := by
    rw [hcontrol]
    exact h.changed
  applied := by
    rw [hcontrol]
    exact h.applied
  displaced := h.displaced
  earliest := (hearliest r.control).trans h.earliest

/-- The same write: a version of a record differs in its state and its attempts. -/
structure SameWrite (r' r : StreamWrite) : Prop where
  control : r'.control = r.control
  applied : r'.applied = r.applied
  displaced : r'.displaced = r.displaced

theorem Outstanding.version {r' : StreamWrite} (h : Outstanding v₀ r w) (hsame : SameWrite r' r) :
    Outstanding v₀ r' w where
  changed := by
    rw [hsame.control]
    exact h.changed
  applied := by
    rw [hsame.control, hsame.applied]
    exact h.applied
  displaced := by
    rw [hsame.control, hsame.displaced]
    exact h.displaced
  earliest := by
    rw [hsame.control]
    exact h.earliest

namespace Kept

theorem follows (h : Kept path v₀ w) (hout : Outstanding v₀ r w) (before : Bytes) (took : Bool) :
    Entry.Follows w.log (.sent .restoring r.control before (v₀ r.control) took) :=
  ⟨hout.earliest, fun b took' hmem => h.forward r.control b (v₀ r.control) took' hmem rfl⟩

theorem untouched [Sha256] {camera : CameraIdentity} (hlog : w.log = [])
    (hfree : Unclaimed camera w) : Kept (recordPath camera) w.control w where
  orderly := by
    rw [hlog]
    trivial
  forward := by
    rw [hlog]
    nofun
  controls c := .inl ⟨rfl, by rw [hlog]; rfl⟩
  claims r hr hstate happlied := absurd happlied (hfree r hr hstate)

theorem resting_of_ne (h : Kept path v₀ w) (hr : w.files path = some (.record r))
    (hc : c ≠ r.control) : Resting v₀ w c := by
  obtain hrest | ⟨r', hr', rfl, -⟩ := h.controls c
  · exact hrest
  · obtain rfl := Contents.record.inj (Option.some.inj (hr'.symm.trans hr))
    exact absurd rfl hc

theorem resting (h : Kept path v₀ w)
    (hnone : ∀ r, w.files path = some (.record r) → ¬ Outstanding v₀ r w) : Resting v₀ w c := by
  obtain hrest | ⟨r, hr, -, hout⟩ := h.controls c
  · exact hrest
  · exact absurd hout (hnone r hr)

/-! ## What keeps it -/

theorem of_quiet (hcontrol : t.control = w.control)
    (hearliest : ∀ c, earliest c t.log = earliest c w.log) (horderly : Orderly t.log)
    (hforward : ∀ c before payload took, .sent .forward c before payload took ∈ t.log →
      payload ≠ v₀ c)
    (hcontrols : ∀ c, Resting v₀ w c ∨
      ∃ r, t.files path = some (.record r) ∧ r.control = c ∧ Outstanding v₀ r w)
    (hclaims : ∀ r, t.files path = some (.record r) → r.state = .applied →
      fromHex r.applied = some (w.control r.control) → Outstanding v₀ r w) : Kept path v₀ t where
  orderly := horderly
  forward := hforward
  controls c := (hcontrols c).imp (·.transfer hcontrol hearliest)
    fun ⟨r, hr, hc, hout⟩ => ⟨r, hr, hc, hout.transfer hcontrol hearliest⟩
  claims r hr hstate happlied :=
    (hclaims r hr hstate (hcontrol ▸ happlied)).transfer hcontrol hearliest

variable (h : Kept path v₀ w)

include h

theorem putFile {contents : Option Contents}
    (hcontrols : ∀ c, Resting v₀ w c ∨
      ∃ r, contents = some (.record r) ∧ r.control = c ∧ Outstanding v₀ r w)
    (hclaims : ∀ r, contents = some (.record r) → r.state = .applied →
      fromHex r.applied = some (w.control r.control) → Outstanding v₀ r w) :
    Kept path v₀ (w.putFile path contents) := by
  have hfile : (w.putFile path contents).files path = contents := Function.update_self ..
  refine of_quiet (w := w) rfl (fun _ => rfl) h.orderly h.forward ?_ ?_
  · rw [hfile]
    exact hcontrols
  · rw [hfile]
    exact hclaims

theorem failed {why : Purpose} {before payload : Bytes}
    (hfollows : Entry.Follows w.log (.sent why c before payload false))
    (hforward : why = .forward → payload ≠ v₀ c) :
    Kept path v₀ (w.note (.sent why c before payload false)) := by
  refine of_quiet (w := w) rfl (fun _ => earliest_failed) ⟨hfollows, h.orderly⟩ (fun c' b p took hmem => ?_)
    h.controls h.claims
  obtain heq | hmem := List.mem_cons.1 hmem
  · cases heq
    exact hforward rfl
  · exact h.forward c' b p took hmem

theorem ended {answer : Except RestoreError Unit} {held : Bytes}
    (hfollows : Entry.Follows w.log (.ended c answer held)) :
    Kept path v₀ (w.note (.ended c answer held)) := by
  refine of_quiet (w := w) rfl (fun _ => rfl) ⟨hfollows, h.orderly⟩ (fun c' b p took hmem => ?_)
    h.controls h.claims
  obtain heq | hmem := List.mem_cons.1 hmem
  · cases heq
  · exact h.forward c' b p took hmem

theorem forwarded (hr : w.files path = some (.record r))
    (hstate : r.state = .prepared) (happlied : r.applied = toHex v)
    (hdisplaced : r.displaced = toHex (v₀ r.control)) (hrest : Resting v₀ w r.control)
    (hne : v ≠ v₀ r.control) :
    Kept path v₀ (w.set .forward r.control v) ∧ Outstanding v₀ r (w.set .forward r.control v) := by
  have hcontrol : (w.set .forward r.control v).control r.control = v := Function.update_self ..
  have hout : Outstanding v₀ r (w.set .forward r.control v) := {
    changed := by
      rw [hcontrol]
      exact hne
    applied := by
      rw [hcontrol]
      exact happlied
    displaced := hdisplaced
    earliest := by
      rw [← hrest.1]
      simp [World.set, hrest.2] }
  refine ⟨{ orderly := ⟨trivial, h.orderly⟩, forward := ?_, controls := ?_, claims := ?_ }, hout⟩
  · intro c' b p took hmem
    obtain heq | hmem := List.mem_cons.1 hmem
    · cases heq
      exact hne
    · exact h.forward c' b p took hmem
  · intro c
    by_cases hc : c = r.control
    · exact .inr ⟨r, hr, hc.symm, hout⟩
    · exact .inl ((h.resting_of_ne hr hc).set hc)
  · intro r' hr' hstate'
    obtain rfl := Contents.record.inj (Option.some.inj (hr'.symm.trans hr))
    rw [hstate] at hstate'
    cases hstate'

theorem restored (hr : w.files path = some (.record r))
    (hstate : r.state = .prepared) (hout : Outstanding v₀ r w) :
    Kept path v₀ (w.set .restoring r.control (v₀ r.control)) ∧
      ∀ c, Resting v₀ (w.set .restoring r.control (v₀ r.control)) c := by
  have hresting : ∀ c, Resting v₀ (w.set .restoring r.control (v₀ r.control)) c := by
    intro c
    by_cases hc : c = r.control
    · subst hc
      exact ⟨Function.update_self .., earliest_restoring⟩
    · exact (h.resting_of_ne hr hc).set hc
  refine ⟨{ orderly := ⟨h.follows hout .., h.orderly⟩, forward := ?_,
            controls := fun c => .inl (hresting c), claims := ?_ }, hresting⟩
  · intro c' b p took hmem
    obtain heq | hmem := List.mem_cons.1 hmem
    · cases heq
    · exact h.forward c' b p took hmem
  · intro r' hr' hstate'
    obtain rfl := Contents.record.inj (Option.some.inj (hr'.symm.trans hr))
    rw [hstate] at hstate'
    cases hstate'

end Kept

/-! ## What the calls do -/

abbrev Reacts : Program.Reacts World Op Op.Answer := Program.reactsBy World.perform FilesWork

abbrev Safe {α : Type} (path : Text) (v₀ : Control → Bytes) (Q : α → World → Prop) (p : Run α)
    (w : World) : Prop :=
  Program.Safe Reacts (Kept path v₀) Q p w

variable {a : Except Unit Unit}

theorem reacts_protect (h : Reacts w .protectLegacyRecords a t) : t = w := by
  obtain ⟨ch, -, h⟩ := h
  cases ch <;> cases h <;> rfl

theorem reacts_openLock {a : Except Unit Nat} (h : Reacts w (.openLock path) a t) :
    t = w ∧ ∃ file, a = .ok file := by
  obtain ⟨ch, hch, h⟩ := h
  cases ch with
  | works =>
    cases h
    exact ⟨rfl, 0, rfl⟩
  | fileFails => exact absurd rfl hch
  | _ => cases h

theorem reacts_flock {file : Nat} {a : Except AcquireError Unit} (h : Reacts w (.flock file) a t) :
    t = w ∧ a ≠ .error .unavailable := by
  obtain ⟨ch, hch, h⟩ := h
  cases ch with
  | fileFails => exact absurd rfl hch
  | cameraFails e => cases h
  | _ =>
    cases h
    exact ⟨rfl, nofun⟩

theorem reacts_readRecord {a : Except Unit (Option Contents)} (h : Reacts w (.readRecord path) a t) :
    t = w ∧ a = .ok (w.files path) := by
  obtain ⟨ch, hch, h⟩ := h
  cases ch with
  | works =>
    cases h
    exact ⟨rfl, rfl⟩
  | fileFails => exact absurd rfl hch
  | _ => cases h

theorem reacts_publish (h : Reacts w (.publish path r) a t) :
    t = w.putFile path (some (.record r)) ∧ a = .ok () := by
  obtain ⟨ch, hch, h⟩ := h
  cases ch with
  | works =>
    cases h
    exact ⟨rfl, rfl⟩
  | fileFails => exact absurd rfl hch
  | _ => cases h

theorem reacts_removeRecord (h : Reacts w (.removeRecord path) a t) :
    t = w.putFile path none := by
  obtain ⟨ch, hch, h⟩ := h
  cases ch with
  | works =>
    cases h
    rfl
  | fileFails => exact absurd rfl hch
  | _ => cases h

variable {u s : UInt8}

theorem reacts_getCur {n : Nat} {a : Except XuError Bytes}
    (h : Reacts w (.getCur u s n) a t) : t = w ∧ ∀ v, a = .ok v → v = w.control (u, s) := by
  obtain ⟨ch, -, h⟩ := h
  cases ch with
  | works =>
    simp only [World.perform] at h
    split at h
    · cases h
      exact ⟨rfl, fun v hv => (Except.ok.inj hv).symm⟩
    · cases h
  | cameraFails e =>
    cases h
    exact ⟨rfl, nofun⟩
  | _ => cases h

theorem reacts_setCur {why : Purpose} {a : Except XuError Unit}
    (h : Reacts w (.setCur why u s v) a t) :
    t = w.set why (u, s) v ∧ a = .ok () ∨
      t = w.note (.sent why (u, s) (w.control (u, s)) v false) ∧ ∃ e, a = .error e := by
  obtain ⟨ch, -, h⟩ := h
  cases ch with
  | works =>
    cases h
    exact .inl ⟨rfl, rfl⟩
  | cameraFails e =>
    cases h
    exact .inr ⟨rfl, e, rfl⟩
  | _ => cases h

theorem reacts_beforeForwardWrite (h : Reacts w .beforeForwardWrite a t) :
    t = w := by
  obtain ⟨ch, -, h⟩ := h
  cases ch <;> cases h <;> rfl

theorem reacts_requireRestore {a : Except XuError Unit} (h : Reacts w .requireRestore a t) :
    t = w := by
  obtain ⟨ch, -, h⟩ := h
  cases ch <;> cases h <;> rfl

theorem reacts_streams {a : Unit} (h : Reacts w .streams a t) : t = w := by
  obtain ⟨ch, -, h⟩ := h
  cases ch with
  | works =>
    cases h
    rfl
  | _ => cases h

theorem reacts_ended {answer : Except RestoreError Unit} {a : Unit}
    (h : Reacts w (.ended u s answer) a t) :
    t = w.note (.ended (u, s) answer (w.control (u, s))) := by
  obtain ⟨ch, -, h⟩ := h
  cases ch with
  | works =>
    cases h
    rfl
  | _ => cases h

end Irlume.Emitter.Stream

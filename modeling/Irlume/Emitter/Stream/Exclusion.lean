import Irlume.Emitter.Camera
import Irlume.Emitter.Stream.Calls

/-!
# One live stream per camera

Any processes with streams on one camera, interleaved call by call. The lock file is opened, created where there
is none, and never moves; `flock` is on the inode that was opened. The camera and the process around a stream
answer what they like.

Both the lock and the record are filed under the serial among other things. A process that cannot read it has no
identity for the camera and leaves it alone, so all who go on have one lock. The record is that of the active
configuration as well.
-/

namespace Irlume.Emitter.Stream.Exclusion

open Irlume.Lib

/-! ## The world -/

/-- A process that holds a lock, with the identity it read. -/
structure Holder where
  process : Nat
  id : CameraIdentity
  deriving DecidableEq

/-- What a process did to the record file of the identity it read. -/
inductive Access where
  /-- It published this, or removed the file. -/
  | left (id : CameraIdentity) (contents : Option Contents)
  /-- Its save or its claim read this. -/
  | found (id : CameraIdentity) (contents : Option Contents)
  deriving DecidableEq

def Access.id : Access → CameraIdentity
  | left id _ | found id _ => id

structure World where
  inode : Text → Option Nat
  /-- No file has this inode yet. -/
  fresh : Nat
  locked : Nat → Option Holder
  records : Text → Option Contents
  log : List Access

inductive Choice where
  | works
  | answers (value : Bytes)
  | cameraFails (e : XuError)
  | refuses
  | fileFails

namespace World

def openFile (w : World) (path : Text) : Nat × World :=
  match w.inode path with
  | some file => (file, w)
  | none =>
    (w.fresh, { w with inode := Function.update w.inode path (some w.fresh), fresh := w.fresh + 1 })

def lock (w : World) (file : Nat) (h : Holder) : World :=
  { w with locked := Function.update w.locked file (some h) }

def putRecord (w : World) (id : CameraIdentity) (path : Text) (contents : Option Contents) : World :=
  { w with records := Function.update w.records path contents, log := .left id contents :: w.log }

def perform (process : Nat) (s : Session) (w : World) :
    (op : Op) → Choice → Option (op.Answer × World)
  | .protectLegacyRecords, .works => some (.ok (), w)
  | .protectLegacyRecords, .refuses => some (.error (), w)
  | .openLock path, .works => some (.ok (w.openFile path).1, (w.openFile path).2)
  | .openLock _, .fileFails => some (.error (), w)
  | .flock file, .works =>
    match w.locked file with
    | some _ => some (.error .busy, w)
    | none => some (.ok (), w.lock file ⟨process, s.id⟩)
  | .flock _, .fileFails => some (.error .unavailable, w)
  | .readRecord path, .works =>
    some (.ok (w.records path), { w with log := .found s.id (w.records path) :: w.log })
  | .readRecord _, .fileFails => some (.error (), w)
  | .publish path record, .works => some (.ok (), w.putRecord s.id path (some (.record record)))
  | .publish _ _, .fileFails => some (.error (), w)
  | .removeRecord path, .works => some (.ok (), w.putRecord s.id path none)
  | .removeRecord _, .fileFails => some (.error (), w)
  | .getCur _ _ size, .answers value =>
    if value.length = size then some (.ok value, w) else none
  | .getCur _ _ _, .cameraFails e => some (.error e, w)
  | .setCur _ _ _ _, .works => some (.ok (), w)
  | .setCur _ _ _ _, .cameraFails e => some (.error e, w)
  | .beforeForwardWrite, .works => some (.ok (), w)
  | .beforeForwardWrite, .refuses => some (.error (), w)
  | .requireRestore, .works => some (.ok (), w)
  | .requireRestore, .cameraFails e => some (.error e, w)
  | .streams, .works => some ((), w)
  | .ended _ _ _, .works => some ((), w)
  | _, _ => none

/-- The locks of a process go with it, or with the end of its stream. -/
def leave (process : Nat) (w : World) : World :=
  { w with locked := fun file => (w.locked file).filter (·.process ≠ process) }

end World

/-- A stream that is opened, whose serial is what reading the camera's gives. -/
structure Opening where
  session : Session
  serial : SerialRead

/-- The stream with the identity of `identity_from_fd`, which is an error where the serial cannot be read. -/
def Opening.identified (o : Opening) : Option Session :=
  (readOptionalSerial o.serial).toOption.map fun serial => { o.session with id := { o.session.id with serial } }

/-- `enable_guarded`: without an identity the stream is inert, and nothing is locked or filed. -/
def Opening.program [Sha256] (o : Opening) : Run Unit :=
  match o.identified with
  | some s => s.program
  | none => .result ()

def Opening.perform (process : Nat) (o : Opening) (w : World) (op : Op) (ch : Choice) : Option (op.Answer × World) :=
  o.identified.bind fun s => w.perform process s op ch

abbrev State := Processes World Opening Op Op.Answer
abbrev Event := ProcessEvent Opening Choice

def step [Sha256] : State → Event → Option State :=
  Processes.step Opening.program Opening.perform World.leave

/-! ## What the calls do -/

section

variable {w t : World} {s : Session} {process : Nat} {ch : Choice}

theorem openFile_inode (w : World) (path : Text) :
    (w.openFile path).2.inode path = some (w.openFile path).1 := by
  unfold World.openFile
  split
  · assumption
  · exact Function.update_self ..

theorem openFile_keeps {path path' : Text} {file : Nat} (h : w.inode path' = some file) :
    (w.openFile path).2.inode path' = some file := by
  unfold World.openFile
  split
  · exact h
  · next hnone =>
    have hne : path' ≠ path := by
      rintro rfl
      rw [hnone] at h
      cases h
    exact (Function.update_of_ne hne ..).trans h

theorem openFile_rest (w : World) (path : Text) : (w.openFile path).2.locked = w.locked ∧
    (w.openFile path).2.records = w.records ∧ (w.openFile path).2.log = w.log := by
  unfold World.openFile
  split <;> exact ⟨rfl, rfl, rfl⟩

theorem perform_flock {file : Nat} {a : Except AcquireError Unit}
    (h : World.perform process s w (.flock file) ch = some (a, t)) :
    (t = w ∧ a ≠ .ok ()) ∨ w.locked file = none ∧ t = w.lock file ⟨process, s.id⟩ := by
  cases ch with
  | works =>
    simp only [World.perform] at h
    split at h
    · cases h
      exact .inl ⟨rfl, nofun⟩
    · next hnone =>
      cases h
      exact .inr ⟨hnone, rfl⟩
  | fileFails =>
    cases h
    exact .inl ⟨rfl, nofun⟩
  | _ => cases h

variable {path : Text}

theorem perform_openLock {a : Except Unit Nat}
    (h : World.perform process s w (.openLock path) ch = some (a, t)) :
    (t = w ∧ a = .error ()) ∨ t = (w.openFile path).2 ∧ a = .ok (w.openFile path).1 := by
  cases ch with
  | works =>
    cases h
    exact .inr ⟨rfl, rfl⟩
  | fileFails =>
    cases h
    exact .inl ⟨rfl, rfl⟩
  | _ => cases h

theorem perform_readRecord {a : Except Unit (Option Contents)}
    (h : World.perform process s w (.readRecord path) ch = some (a, t)) :
    t = w ∨ t = { w with log := .found s.id (w.records path) :: w.log } := by
  cases ch with
  | works =>
    cases h
    exact .inr rfl
  | fileFails =>
    cases h
    exact .inl rfl
  | _ => cases h

variable {op : Op}

variable {a : op.Answer}

theorem perform_putRecord
    (hop : (∃ r, op = .publish path r) ∨ op = .removeRecord path)
    (h : World.perform process s w op ch = some (a, t)) :
    t = w ∨ ∃ contents, t = w.putRecord s.id path contents := by
  obtain ⟨r, rfl⟩ | rfl := hop <;> cases ch with
  | works =>
    cases h
    exact .inr ⟨_, rfl⟩
  | fileFails =>
    cases h
    exact .inl rfl
  | _ => cases h

theorem perform_other (hop : ¬ OnFiles op)
    (h : World.perform process s w op ch = some (a, t)) : t = w := by
  cases op with
  | openLock path => exact absurd trivial hop
  | flock file => exact absurd trivial hop
  | readRecord path => exact absurd trivial hop
  | publish path r => exact absurd trivial hop
  | removeRecord path => exact absurd trivial hop
  | getCur u s n =>
    cases ch with
    | answers value =>
      simp only [World.perform] at h
      split at h
      · cases h
        rfl
      · cases h
    | cameraFails e =>
      cases h
      rfl
    | _ => cases h
  | _ => cases ch <;> cases h <;> rfl

theorem perform_keeps (h : World.perform process s w op ch = some (a, t)) :
    (∀ path file, w.inode path = some file → t.inode path = some file) ∧
      ∀ file h, w.locked file = some h → t.locked file = some h := by
  by_cases hop : OnFiles op
  · cases op with
    | openLock path =>
      obtain ⟨rfl, -⟩ | ⟨rfl, -⟩ := perform_openLock h
      · exact ⟨fun _ _ => id, fun _ _ => id⟩
      · exact ⟨fun _ _ => openFile_keeps, fun _ _ hl => by rwa [(openFile_rest w path).1]⟩
    | flock file =>
      obtain ⟨rfl, -⟩ | ⟨hnone, rfl⟩ := perform_flock h
      · exact ⟨fun _ _ => id, fun _ _ => id⟩
      · refine ⟨fun _ _ => id, fun file' h' hl => ?_⟩
        have hne : file' ≠ file := by
          rintro rfl
          rw [hnone] at hl
          cases hl
        exact (Function.update_of_ne hne ..).trans hl
    | readRecord path =>
      obtain rfl | rfl := perform_readRecord h <;> exact ⟨fun _ _ => id, fun _ _ => id⟩
    | publish path r =>
      obtain rfl | ⟨_, rfl⟩ := perform_putRecord (.inl ⟨r, rfl⟩) h <;>
        exact ⟨fun _ _ => id, fun _ _ => id⟩
    | removeRecord path =>
      obtain rfl | ⟨_, rfl⟩ := perform_putRecord (.inr rfl) h <;>
        exact ⟨fun _ _ => id, fun _ _ => id⟩
    | _ => exact hop.elim
  · obtain rfl := perform_other hop h
    exact ⟨fun _ _ => id, fun _ _ => id⟩

/-- What the others leave a process: the files stay what they are, and its locks its own. -/
structure Rely (process : Nat) (s : Session) (w w' : World) : Prop where
  inode : ∀ path file, w.inode path = some file → w'.inode path = some file
  locked : ∀ file, w.locked file = some ⟨process, s.id⟩ → w'.locked file = some ⟨process, s.id⟩

theorem Rely.refl (w : World) : Rely process s w w := ⟨fun _ _ => id, fun _ => id⟩

theorem Rely.trans {a b c : World} (hab : Rely process s a b) (hbc : Rely process s b c) :
    Rely process s a c :=
  ⟨fun path file h => hbc.inode path file (hab.inode path file h),
    fun file h => hbc.locked file (hab.locked file h)⟩

theorem Rely.of_perform {process' : Nat} {s' : Session}
    (h : World.perform process' s' w op ch = some (a, t)) : Rely process s w t :=
  ⟨(perform_keeps h).1, fun file => (perform_keeps h).2 file _⟩

end

/-! ## The property -/

section

variable [Sha256]

/-- What was last left under the name of `id`'s record. -/
def latest (id : CameraIdentity) : List Access → Option (Option Contents)
  | [] => none
  | .left id' contents :: log =>
    if recordPath id' = recordPath id then some contents else latest id log
  | .found _ _ :: log => latest id log

/-- Every save and every claim found what was last left under its name, or what was there from the
start. -/
def Finds (records₀ : Text → Option Contents) : List Access → Prop
  | [] => True
  | .left _ _ :: log => Finds records₀ log
  | .found id contents :: log =>
    contents = (latest id log).getD (records₀ (recordPath id)) ∧ Finds records₀ log

def Owns (process : Nat) (id : CameraIdentity) (w : World) : Prop :=
  ∃ file, w.inode (lockPath id) = some file ∧ w.locked file = some ⟨process, id⟩

/-- What a call says about where it is made: the lock asked for is the camera's, and the record is
accessed under the lock. -/
def Meets (process : Nat) (s : Session) (w : World) : Op → Prop
  | .flock file => w.inode (lockPath s.id) = some file
  | .readRecord path => path = recordPath s.id ∧ Owns process s.id w
  | .publish path _ => path = recordPath s.id ∧ Owns process s.id w
  | .removeRecord path => path = recordPath s.id ∧ Owns process s.id w
  | _ => True

/-- A camera at its port. -/
structure Attached where
  descriptors : Bytes
  usbDevpath : Text
  /-- Its `serial`; `none` where sysfs publishes none. -/
  serial : Option Text

namespace Attached

variable (camera : Attached)

/-- A stream on this camera. Its read of the serial may fail. -/
def Opens (o : Opening) : Prop :=
  o.session.id.descriptors = camera.descriptors ∧ o.session.id.usbDevpath = camera.usbDevpath ∧
    (o.serial = .fails ∨ o.serial = camera.serial.elim .notFound .found)

def Is (id : CameraIdentity) : Prop :=
  id.descriptors = camera.descriptors ∧ id.usbDevpath = camera.usbDevpath ∧
    readOptionalSerial (camera.serial.elim .notFound .found) = .ok id.serial

end Attached

/-! ## What holds of every world -/

structure Sane (camera : Attached) (records₀ : Text → Option Contents) (w : World) : Prop where
  locks : ∀ file h, w.locked file = some h → camera.Is h.id ∧ w.inode (lockPath h.id) = some file
  accesses : ∀ access ∈ w.log, camera.Is access.id
  records : ∀ id, w.records (recordPath id) = (latest id w.log).getD (records₀ (recordPath id))
  finds : Finds records₀ w.log

variable {camera : Attached} {records₀ : Text → Option Contents} {w w' t : World} {s : Session}
  {process : Nat} {ch : Choice}

theorem Owns.of_rely (h : Owns process s.id w) (hrely : Rely process s w w') : Owns process s.id w' := by
  obtain ⟨file, hinode, hlocked⟩ := h
  exact ⟨file, hrely.inode _ _ hinode, hrely.locked _ hlocked⟩

/-! ## Every interleaving -/

abbrev Steady {α : Type} (process : Nat) (s : Session) (Q : α → World → Prop) (p : Run α) (w : World) :
    Prop :=
  Program.Steady (Rely process s) (Meets process s) (Processes.reacts World.perform process s) Q p w

theorem steady_acquire : Steady process s (fun a t => a = .ok () → Owns process s.id t)
    (acquire s.id) w := by
  refine fun w hw => ⟨trivial, fun a t ⟨ch, ht⟩ => ?_⟩
  cases a with
  | error a => exact fun _ _ => nofun
  | ok a =>
    refine fun w hw => ⟨trivial, fun a t ⟨ch, ht⟩ => ?_⟩
    obtain ⟨-, rfl⟩ | ⟨rfl, rfl⟩ := perform_openLock ht
    · exact fun _ _ => nofun
    refine fun w' hw => ⟨hw.inode _ _ (openFile_inode w _), fun a t ⟨ch, ht⟩ => ?_⟩
    have hinode := hw.inode _ _ (openFile_inode w (lockPath s.id))
    obtain ⟨-, hne⟩ | ⟨hnone, rfl⟩ := perform_flock ht
    · cases a with
      | error e => exact fun _ _ => nofun
      | ok a => exact absurd rfl hne
    have howns : Owns process s.id (w'.lock (w.openFile (lockPath s.id)).1 ⟨process, s.id⟩) :=
      ⟨_, hinode, Function.update_self ..⟩
    cases a with
    | error e => exact fun _ _ => nofun
    | ok a =>
      refine fun w'' hw => ⟨trivial, fun a t ⟨ch, ht⟩ => ?_⟩
      have howns := (howns.of_rely hw).of_rely (.of_perform ht)
      cases a with
      | error e => exact fun _ _ => nofun
      | ok a => exact fun _ hw _ => howns.of_rely hw

theorem steady_program : Steady process s (fun _ _ => True) s.program w := by
  unfold Session.program writeIfDifferentInner
  rw [Program.bind_assoc]
  refine steady_acquire.bind (fun _ => Rely.refl _) fun a w howns => ?_
  match a, howns with
  | .ok (), howns =>
    refine Program.Steady.of_calls (P := AtPath (recordPath s.id)) (K := Owns process s.id)
      (Q := fun _ => True)
      (fun h hrely => h.of_rely hrely) (fun h ⟨ch, ht⟩ => h.of_rely (.of_perform ht))
      (fun {w op} h hop => ?_) (calls_stream (fun op hop => ?_) fun _ _ => id) (howns rfl)
    · cases op with
      | openLock | flock => exact hop.elim
      | readRecord | publish | removeRecord => exact ⟨hop, h⟩
      | _ => trivial
    · cases op with
      | openLock | flock | readRecord | publish | removeRecord => exact absurd trivial hop
      | _ => trivial
  | .error .busy, _ => exact fun _ _ => trivial
  | .error .protectedRecord, _ => exact fun _ _ => trivial
  | .error .unavailable, _ =>
    refine Program.Steady.of_calls (P := fun op => ¬ OnFiles op) (K := fun _ => True)
      (Q := fun _ => True) (fun _ _ => trivial) (fun _ _ => trivial)
      (fun {w op} _ hop => ?_) (calls_stream (fun _ => id) nofun) trivial
    cases op with
    | openLock | flock | readRecord | publish | removeRecord => exact absurd trivial hop
    | _ => trivial

section

variable (h : Sane camera records₀ w)

include h

theorem Sane.lock {file : Nat} (hinode : w.inode (lockPath s.id) = some file)
    (hreads : camera.Is s.id) : Sane camera records₀ (w.lock file ⟨process, s.id⟩) where
  locks file' h' hl := by
    by_cases hfile : file' = file
    · subst hfile
      have hself : (w.lock file' ⟨process, s.id⟩).locked file' = some ⟨process, s.id⟩ :=
        Function.update_self ..
      cases hself.symm.trans hl
      exact ⟨hreads, hinode⟩
    · exact h.locks file' h' ((Function.update_of_ne hfile ..).symm.trans hl)
  accesses := h.accesses
  records := h.records
  finds := h.finds

theorem Sane.putRecord {id : CameraIdentity} (hid : camera.Is id)
    (contents : Option Contents) : Sane camera records₀ (w.putRecord id (recordPath id) contents) where
  locks := h.locks
  accesses := List.forall_mem_cons.2 ⟨hid, h.accesses⟩
  records id' := by
    by_cases hpath : recordPath id' = recordPath id
    · have hlatest : latest id' (.left id contents :: w.log) = some contents := if_pos hpath.symm
      rw [World.putRecord, hlatest, hpath]
      exact Function.update_self ..
    · have hlatest : latest id' (.left id contents :: w.log) = latest id' w.log :=
        if_neg (Ne.symm hpath)
      rw [World.putRecord, hlatest]
      exact (Function.update_of_ne hpath ..).trans (h.records id')
  finds := h.finds

theorem Sane.call {op : Op} {a : op.Answer} (hreads : camera.Is s.id)
    (hmeets : Meets process s w op) (ht : World.perform process s w op ch = some (a, t)) :
    Sane camera records₀ t := by
  cases op with
  | openLock path =>
    obtain ⟨rfl, -⟩ | ⟨rfl, -⟩ := perform_openLock ht
    · exact h
    · obtain ⟨hlocked, hrecords, hlog⟩ := openFile_rest w path
      refine ⟨fun file h' hl => ?_, hlog ▸ h.accesses, fun id => ?_, ?_⟩
      · rw [hlocked] at hl
        obtain ⟨hr, hinode⟩ := h.locks file h' hl
        exact ⟨hr, openFile_keeps hinode⟩
      · rw [hrecords, hlog]
        exact h.records id
      · rw [hlog]
        exact h.finds
  | flock file =>
    obtain ⟨rfl, -⟩ | ⟨-, rfl⟩ := perform_flock ht
    · exact h
    · exact h.lock hmeets hreads
  | readRecord path =>
    obtain ⟨rfl, -⟩ := hmeets
    obtain rfl | rfl := perform_readRecord ht
    · exact h
    · exact ⟨h.locks, List.forall_mem_cons.2 ⟨hreads, h.accesses⟩, h.records, h.records s.id, h.finds⟩
  | publish path r =>
    obtain ⟨rfl, -⟩ := hmeets
    obtain rfl | ⟨contents, rfl⟩ := perform_putRecord (.inl ⟨r, rfl⟩) ht
    · exact h
    · exact h.putRecord hreads contents
  | removeRecord path =>
    obtain ⟨rfl, -⟩ := hmeets
    obtain rfl | ⟨contents, rfl⟩ := perform_putRecord (.inr rfl) ht
    · exact h
    · exact h.putRecord hreads contents
  | _ =>
    obtain rfl := perform_other (by exact fun hop => hop) ht
    exact h

end

omit [Sha256] in
theorem Attached.Opens.is {o : Opening} (h : camera.Opens o) (hs : o.identified = some s) : camera.Is s.id := by
  obtain ⟨hdescriptors, hdevpath, hserial⟩ := h
  obtain ⟨serial, hread, rfl⟩ := Option.map_eq_some_iff.1 hs
  refine ⟨hdescriptors, hdevpath, ?_⟩
  obtain hfails | hserial := hserial
  · rw [hfails] at hread
    cases hread
  · rw [← hserial]
    cases hok : readOptionalSerial o.serial with
    | error e =>
      rw [hok] at hread
      cases hread
    | ok value =>
      rw [hok] at hread
      exact congrArg Except.ok (Option.some.inj hread)

namespace Attached.Is

variable {id id' : CameraIdentity} (h : camera.Is id) (h' : camera.Is id')

include h h'

omit [Sha256] in
theorem serial : id.serial = id'.serial :=
  Except.ok.inj (h.2.2.symm.trans h'.2.2)

/-- **One lock.** -/
theorem lockPath : Stream.lockPath id = Stream.lockPath id' := by
  rw [Stream.lockPath, Stream.lockPath, legacyFilingKey, legacyFilingKey, h.1, h'.1, h.2.1, h'.2.1, h.serial h']

/-- **One record**, in one configuration. -/
theorem recordPath (hconfiguration : id.activeConfiguration = id'.activeConfiguration) :
    Stream.recordPath id = Stream.recordPath id' := by
  have hfingerprint : fingerprint id = fingerprint id' := by
    simp only [fingerprint, CameraIdentity.descriptorFingerprint, CameraIdentity.configurationValue, h.1, h'.1,
      hconfiguration]
  rw [Stream.recordPath, Stream.recordPath, filingKey, filingKey, hfingerprint, h.2.1, h'.2.1, h.serial h']

end Attached.Is

/-- What the others leave a stream that has its identity. -/
def Opening.Rely (process : Nat) (o : Opening) (w w' : World) : Prop :=
  ∀ s, o.identified = some s → Exclusion.Rely process s w w'

def Opening.Meets (process : Nat) (o : Opening) (w : World) (op : Op) : Prop :=
  ∀ s, o.identified = some s → Exclusion.Meets process s w op

theorem steady_opening (process : Nat) (o : Opening) : Program.Steady (o.Rely process) (o.Meets process)
    (Processes.reacts Opening.perform process o) (fun _ _ => True) o.program w := by
  unfold Opening.program
  cases hs : o.identified with
  | none => exact fun _ _ => trivial
  | some s =>
    have hrely : o.Rely process = Exclusion.Rely process s := by
      funext w w'
      simp [Opening.Rely, hs]
    have hmeets : o.Meets process = Exclusion.Meets process s := by
      funext w op
      simp [Opening.Meets, hs]
    have hreacts : Processes.reacts Opening.perform process o = Processes.reacts World.perform process s := by
      funext w op answer t
      simp [Processes.reacts, Opening.perform, hs]
    rw [hrely, hmeets, hreacts]
    exact steady_program

theorem compatible : Processes.Compatible Opening.program Opening.perform World.leave
    camera.Opens (Sane camera records₀) (fun p o => o.Rely p) (fun p o => o.Meets p) where
  refl _ _ _ _ _ := .refl _
  trans hab hbc s hs := (hab s hs).trans (hbc s hs)
  steady p o _ _ _ := steady_opening p o
  call hopens h hmeets ht := by
    obtain ⟨s, hs, ht⟩ := Option.bind_eq_some_iff.1 ht
    exact ⟨h.call (hopens.is hs) (hmeets s hs) ht, fun _ _ _ _ _ => .of_perform ht⟩
  leave {p w} h := by
    refine ⟨⟨fun file h' hl => h.locks file h' (Option.filter_eq_some_iff.1 hl).1, h.accesses, h.records, h.finds⟩,
      fun q o hne s _ => ⟨fun _ _ => id, fun file hl => ?_⟩⟩
    exact Option.filter_eq_some_iff.2 ⟨hl, by simpa using hne⟩

/-- **One live stream per camera.** In every state of every interleaving of streams on one camera, whose reads of
its serial may each fail, killed anywhere: at most one process holds a lock; a record is accessed only under the
lock, by its own name; every save and claim found what was last left under that name; and the processes that found
the camera in one configuration have one name. -/
theorem one_live_stream {w₀ : World} {es : List Event} (hlocked : ∀ file, w₀.locked file = none)
    (hlog : w₀.log = []) (hstarts : ∀ e ∈ es, Processes.Starts camera.Opens e) :
    ∀ m ∈ states step (Processes.idle w₀) es,
      (∀ file file' h h', m.world.locked file = some h → m.world.locked file' = some h' → file = file' ∧ h = h') ∧
      (∀ process o op next, m.running process = some (o, .call op next) → o.Meets process m.world op) ∧
      Finds w₀.records m.world.log ∧
      ∀ access ∈ m.world.log, ∀ access' ∈ m.world.log,
        access.id.activeConfiguration = access'.id.activeConfiguration → recordPath access.id = recordPath access'.id := by
  intro m hm
  have hsane : Sane camera w₀.records w₀ := by
    refine ⟨fun file h hl => ?_, ?_, fun id => ?_, ?_⟩
    · rw [hlocked file] at hl
      cases hl
    · rw [hlog]
      nofun
    · rw [hlog]
      rfl
    · rw [hlog]
      trivial
  have hsound := Processes.states_sound compatible hsane hstarts m hm
  refine ⟨fun file file' h h' hl hl' => ?_, fun process o op next hp => ?_, hsound.world.finds,
    fun access ha access' ha' => (hsound.world.accesses access ha).recordPath (hsound.world.accesses access' ha')⟩
  · obtain ⟨his, hinode⟩ := hsound.world.locks file h hl
    obtain ⟨his', hinode'⟩ := hsound.world.locks file' h' hl'
    rw [his.lockPath his', hinode'] at hinode
    obtain rfl := Option.some.inj hinode
    exact ⟨rfl, Option.some.inj (hl.symm.trans hl')⟩
  · exact (hsound.pending (fun _ _ _ _ _ => .refl _) hp).2

end

/-! ## A camera with two configurations -/

def untouched : World where
  inode _ := none
  fresh := 0
  locked _ := none
  records _ := none
  log := []

def twoConfigurations : Attached where
  descriptors := Uvc.laptopDevice.set 17 2 ++ torchConfiguration ++ torchConfiguration.set 5 2
  usbDevpath := "/devices/usb1/1-4"
  serial := some "200901010001\n"

/-- A process that writes the face authentication control, with the camera in a configuration. -/
def opening (configuration : UInt8) (serial : SerialRead) : Opening where
  session :=
    { id := { laptop with descriptors := twoConfigurations.descriptors, activeConfiguration := configuration }
      unit := 4
      selector := 6
      len := 2
      wanted := [2, 9] }
  serial := serial

def readSerial : SerialRead := .found "200901010001\n"

/-- The identity that an opening that goes on has of the camera. -/
def identity (configuration : UInt8) : CameraIdentity :=
  { (opening configuration readSerial).session.id with serial := some "200901010001" }

def opens (process : Nat) (configuration : UInt8) : List Event :=
  .start process (opening configuration readSerial) :: List.replicate 4 (.answer process .works)

/-- One process holds the lock, the second cannot read the serial, and the third is turned away. -/
def turnedAway : List Event :=
  opens 0 1 ++ .start 1 (opening 2 .fails) :: .start 2 (opening 2 readSerial) ::
    List.replicate 3 (.answer 2 .works)

set_option maxRecDepth 100000 in
/-- Neither of the two others goes on. -/
theorem one_live_stream_turnedAway :
    letI := keepingDigest
    ∃ m, run step (Processes.idle untouched) turnedAway = some m ∧
      m.world.locked 0 = some ⟨0, identity 1⟩ ∧ (m.running 1).isNone ∧ (m.running 2).isNone ∧
      ∀ file h, m.world.locked file = some h → file = 0 ∧ h.process = 0 := by
  let := keepingDigest
  have hruns : (run step (Processes.idle untouched) turnedAway).map
      (fun m => (m.world.locked 0, (m.running 1).isNone, (m.running 2).isNone)) =
      some (some ⟨0, identity 1⟩, true, true) := by decide
  obtain ⟨m, hm, hends⟩ := Option.map_eq_some_iff.1 hruns
  obtain ⟨hlocked, hgone⟩ := Prod.ext_iff.1 hends
  obtain ⟨hgone₁, hgone₂⟩ := Prod.ext_iff.1 hgone
  have hstarts : ∀ e ∈ turnedAway, Processes.Starts twoConfigurations.Opens e := by
    intro e he
    cases e with
    | start process o =>
      obtain ⟨-, rfl⟩ | ⟨-, rfl⟩ | ⟨-, rfl⟩ := by simpa [turnedAway, opens] using he
      · exact ⟨rfl, rfl, .inr rfl⟩
      · exact ⟨rfl, rfl, .inl rfl⟩
      · exact ⟨rfl, rfl, .inr rfl⟩
    | _ => trivial
  have hmem : m ∈ states step (Processes.idle untouched) turnedAway := by
    simpa using mem_states_of_run hm []
  obtain ⟨hexclusive, -⟩ := one_live_stream (fun _ => rfl) rfl hstarts m hmem
  refine ⟨m, hm, hlocked, hgone₁, hgone₂, fun file h hl => ?_⟩
  obtain ⟨rfl, rfl⟩ := hexclusive file 0 h _ hl hlocked
  exact ⟨rfl, rfl⟩

/-- A process writes the control in the first configuration, confirms its record, and is killed. -/
def writes : List Event :=
  opens 0 1 ++ [.answer 0 (.answers [1, 0])] ++ List.replicate 6 (.answer 0 .works) ++ [.kill 0]

/-- The next one finds the value in place, in the second configuration, and looks for a record. -/
def claims : List Event :=
  opens 1 2 ++ [.answer 1 (.answers [2, 9]), .answer 1 .works, .answer 1 .works]

set_option maxRecDepth 100000 in
/-- **Two records.** The record saved in one configuration is not what a claim in the other finds. -/
theorem not_found_otherConfiguration :
    letI := keepingDigest
    (∀ e ∈ writes ++ claims, Processes.Starts twoConfigurations.Opens e) ∧
    ∃ m, run step (Processes.idle untouched) (writes ++ claims) = some m ∧
      (m.world.records (recordPath (identity 1))).isSome ∧
      m.world.log.head? = some (.found (identity 2) none) := by
  let := keepingDigest
  refine ⟨?_, ?_⟩
  · intro e he
    cases e with
    | start process o =>
      obtain ⟨-, rfl⟩ | ⟨-, rfl⟩ := by simpa [writes, claims, opens] using he
      · exact ⟨rfl, rfl, .inr rfl⟩
      · exact ⟨rfl, rfl, .inr rfl⟩
    | _ => trivial
  · have hruns : (run step (Processes.idle untouched) (writes ++ claims)).map
        (fun m => ((m.world.records (recordPath (identity 1))).isSome, m.world.log.head?)) =
        some (true, some (.found (identity 2) none)) := by decide
    obtain ⟨m, hm, hends⟩ := Option.map_eq_some_iff.1 hruns
    obtain ⟨hsaved, hfound⟩ := Prod.ext_iff.1 hends
    exact ⟨m, hm, hsaved, hfound⟩

end Irlume.Emitter.Stream.Exclusion

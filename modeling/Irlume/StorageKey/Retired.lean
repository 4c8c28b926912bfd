import Irlume.StorageKey.Asked

/-!
# The marks of a run

A run of the steps, with stops, power losses and other stacks' commands in between, keeps every mark it is
careful about sure: while the record marks a key since an earlier boot, no power loss brings back an envelope that
uses it.
-/

namespace Irlume.StorageKey

open Irlume.Lib

/-! ## What a call does to the files -/

/-- What a call leaves of the files. -/
inductive Wrote (disk : Disk) : Op → Choice → Disk → Prop
  | record (record : Record) (o : WriteOutcome) :
    Wrote disk (.saveRecord record) (.file o) (disk.saveRecord o record)
  | envelope (id : EnvelopeId) (parent : Option ParentKey) (o : WriteOutcome) :
    Wrote disk (.writeEnvelope id parent) (.file o) (disk.writeEnvelope o id parent)
  | nothing (op : Op) (choice : Choice) : Wrote disk op choice disk

variable {w t : World}

variable {op : Op}

variable {answer : op.Answer}

theorem worked_files (h : w.worked op = some (answer, t)) :
    t.disk = w.disk ∧ t.boot = w.boot := by
  cases op with
  | persist handle =>
    simp only [World.worked] at h
    split at h
    · cases h; exact ⟨rfl, rfl⟩
    · cases h
  | evict handle name =>
    simp only [World.worked] at h
    split at h <;> cases h <;> exact ⟨rfl, rfl⟩
  | _ => cases h <;> exact ⟨rfl, rfl⟩

theorem lost_files {e : Text} (h : w.lost op e = some (answer, t)) :
    t.disk = w.disk ∧ t.boot = w.boot := by
  cases op with
  | persist handle =>
    simp only [World.lost] at h
    split at h
    · cases h; exact ⟨rfl, rfl⟩
    · cases h
  | evict handle name =>
    simp only [World.lost] at h
    split at h
    · cases h; exact ⟨rfl, rfl⟩
    · cases h
  | _ => cases h

theorem failed_files {e : Text}
    (h : w.failed op e = some (answer, t)) : t.disk = w.disk ∧ t.boot = w.boot := by
  cases op <;> cases h <;> exact ⟨rfl, rfl⟩

theorem perform_files {choice : Choice}
    (h : w.perform op choice = some (answer, t)) : Wrote w.disk op choice t.disk ∧ t.boot = w.boot := by
  have hnothing (hfiles : t.disk = w.disk ∧ t.boot = w.boot) : Wrote w.disk op choice t.disk ∧ t.boot = w.boot :=
    ⟨hfiles.1 ▸ .nothing op choice, hfiles.2⟩
  cases choice with
  | works =>
    have hworked : w.worked op = some (answer, t) := by cases op <;> exact h
    exact hnothing (worked_files hworked)
  | fails e =>
    have hfailed : w.failed op e = some (answer, t) := by cases op <;> exact h
    exact hnothing (failed_files hfailed)
  | lost e =>
    have hlost : w.lost op e = some (answer, t) := by cases op <;> exact h
    exact hnothing (lost_files hlost)
  | file o =>
    cases op with
    | saveRecord record => cases h; exact ⟨.record record o, rfl⟩
    | writeEnvelope id parent => cases h; exact ⟨.envelope id parent o, rfl⟩
    | _ => cases h
  | tells answer =>
    cases op with
    | derivesOriginal handle =>
      simp only [World.perform] at h
      split at h
      · split at h <;> cases h <;> exact hnothing ⟨rfl, rfl⟩
      · cases h; exact hnothing ⟨rfl, rfl⟩
    | isWeak handle => cases h; exact hnothing ⟨rfl, rfl⟩
    | derivedIsWeak => cases h; exact hnothing ⟨rfl, rfl⟩
    | _ => cases h
  | _ =>
    cases op <;> cases h <;> exact hnothing ⟨rfl, rfl⟩

/-! ## The marks stay sure -/

/-- The envelopes are known, and the marks of the keys are sure. -/
structure Sound (keys : Set (Option Text)) (w : World) : Prop where
  listed : w.disk.Listed
  sure : ∀ key ∈ keys, w.Sure key

section

variable {S : Setting}

theorem Setting.Reads.marksFrom {w : World} {record next : Record} (h : S.Reads w record)
    (hnext : MarksFrom w.boot record next) : MarksFrom w.boot w.disk.loaded next := by
  rcases h with rfl | ⟨rfl, -⟩
  · exact hnext
  · exact fun key since hmarks => (hnext key since hmarks).imp (fun h => absurd h (not_marks_default key since)) id

/-- **One call.** A call made as the contract asks keeps the marks sure. -/
theorem Sound.perform {w t : World} {op : Op} {choice : Choice} {answer : op.Answer} (h : Sound S.keys w)
    (hasks : S.contract.asks w op) (hallowed : S.allowed w op choice)
    (hperform : w.perform op choice = some (answer, t)) : Sound S.keys t := by
  obtain ⟨hwrote, hboot⟩ := perform_files hperform
  obtain ⟨disk, tpm, boot⟩ := t
  obtain rfl : boot = w.boot := hboot
  cases hwrote with
  | record record o =>
    obtain ⟨old, hold, hfollows⟩ := hasks
    exact ⟨h.listed, fun key hkey => sure_saveRecord (h.sure key hkey) (hold.marksFrom hfollows.marks) o⟩
  | envelope id parent o =>
    refine ⟨listed_writeEnvelope h.listed o id parent, fun key hkey => sure_writeEnvelope (h.sure key hkey) ?_⟩
    rintro rfl hmarked huses
    cases key with
    | none =>
      rw [hasks hkey hmarked huses]
      exact .inr rfl
    | some name => exact S.careful _ _ _ hallowed name hkey hmarked huses
  | nothing => exact ⟨h.listed, h.sure⟩

theorem Sound.outside {keys : Set (Option Text)} {w t : World} {x : Outside} (h : Sound keys w)
    (hx : w.outside x = some t) : Sound keys t := by
  cases x with
  | stop => cases hx; exact h
  | powerLoss kept =>
    cases hx
    exact ⟨listed_powerLoss h.listed kept, fun key _ => sure_powerLoss kept _ key⟩
  | tpm objects => cases hx; exact ⟨h.listed, h.sure⟩

theorem World.Settled.sound {w : World} (h : w.Settled) (hlisted : w.disk.Listed) (keys : Set (Option Text)) :
    Sound keys w := by
  refine ⟨hlisted, fun key _ _ id hhides => ?_⟩
  obtain ⟨-, content, hcontent, -⟩ := hhides
  rw [h.2 id] at hcontent
  cases hcontent

/-- **Every run.** Wherever a run is, its marks are sure and its pending call is made as the contract asks. -/
theorem states_sound {m : Machine} {es : List Event} (h : Sound S.keys m.world) (hidle : m.running = .result ())
    (hsteps : ∀ x ∈ steps Machine.step m es, Sessions.Answers S.allowed x.1 x.2 ∧ Sessions.StartsIn S.Admits x.1 x.2) :
    ∀ t ∈ states Machine.step m es, Sessions.Minds World.perform S.allowed (fun w => True ∧ Sound S.keys w)
      (fun w op => Sound S.keys w ∧ S.contract.asks w op) t :=
  states_asked (fun _ _ _ _ _ hsound hasks hallowed hperform => hsound.perform hasks hallowed hperform)
    (fun _ _ _ hsound hx => hsound.outside hx) h hidle hsteps

end

end Irlume.StorageKey

/-!
## When the original key is evicted

At an eviction the DA-exempt key is where the record has it, and a derivation gave the evicted key.
`path.is_file()`, `symlink_metadata` and the record read before the lock take an error as an absence, and each
of them can miss an envelope that is under the key while it is marked.
-/

namespace Irlume.StorageKey

open Irlume.Lib

def SeesOriginal (w : World) : Op → Choice → Prop
  | .loadRecord (some id), .fails _ =>
    w.MarkedEarlier none → ¬ EnvelopeFile.UnderOriginal (w.disk.envelopes id).visible
  | .metadata id, .fails _ => w.MarkedEarlier none → ¬ EnvelopeFile.UnderOriginal (w.disk.envelopes id).visible
  | .envelopePaths _, .skips ids =>
    w.MarkedEarlier none → ∀ id ∈ ids, ¬ EnvelopeFile.UnderOriginal (w.disk.envelopes id).visible
  | _, _ => True

instance (w : World) (op : Op) (choice : Choice) : Decidable (SeesOriginal w op choice) :=
  match op with
  | .loadRecord (some _) | .metadata _ =>
    match choice with
    | .fails _ => inferInstanceAs (Decidable (_ → ¬ _))
    | .works | .lost _ | .refuses _ | .file _ | .skips _ | .plan _ | .derives _ | .tells _ |
      .reads _ _ | .checks _ =>
      .isTrue trivial
  | .envelopePaths _ =>
    match choice with
    | .skips ids => inferInstanceAs (Decidable (_ → ∀ id ∈ ids, ¬ _))
    | .works | .fails _ | .lost _ | .refuses _ | .file _ | .plan _ | .derives _ | .tells _ |
      .reads _ _ | .checks _ =>
      .isTrue trivial
  | .bootId | .plan | .lock | .loadRecord none | .saveRecord _ | .loadEnvelope _ |
    .writeEnvelope _ _ | .openTpm | .nameAt _ | .persistentAvail | .derive | .ownerNames |
    .persist _ | .derivesOriginal _ | .evict _ _ | .holdsDaExemptKey _ _ | .isWeak _ |
    .derivedIsWeak | .firmware | .keyCheck _ _ | .reply _ =>
    .isTrue trivial

def PublishesRecorded (w : World) : Step → Prop
  | .publish _ parent => ∀ key, parent = some key → w.disk.loaded.recorded = some key.name
  | _ => True

instance (w : World) (step : Step) : Decidable (PublishesRecorded w step) := by
  unfold PublishesRecorded
  split
  · next parent =>
    cases parent with
    | none => exact .isTrue nofun
    | some key =>
      exact decidable_of_iff (w.disk.loaded.recorded = some key.name)
        ⟨fun h _ hkey => Option.some.inj hkey ▸ h, fun h => h key rfl⟩
  · infer_instance

/-- No envelope can need the original key, and the key evicted is that key. -/
structure Unneeded (w : World) (handle : Handle) (name : Bytes) : Prop where
  unused : ∀ id, ∀ content ∈ (w.disk.envelopes id).contents, ¬ EnvelopeFile.UnderOriginal content
  daExempt : ∃ persisted raw, w.disk.loaded.persisted = some persisted ∧ unhex persisted.name = some raw ∧
    w.tpm.holds persisted.handle raw
  proved : (handle, name) ∈ w.tpm.proved

def originalSetting : Setting where
  allowed := SeesOriginal
  keys := {none}
  usable := ∅
  careful w op choice h := by
    unfold Careful
    split
    · exact fun _ => h
    · exact fun _ => h
    · intro key hkey
      obtain rfl : key = none := hkey
      exact h
    · exact fun name hname => (Option.some_ne_none name hname).elim
    · trivial

theorem admits_of_publishesRecorded {S : Setting} (hS : S.usable = ∅) {w : World} {step : Step}
    (h : PublishesRecorded w step) : S.Admits w step := by
  cases step with
  | publish id parent => exact fun _ => h
  | ensure =>
    intro name hname
    rw [hS] at hname
    exact hname.elim
  | _ => trivial

theorem World.unseen_of_known {w : World} (hlisted : w.disk.Listed) {key : Option Text}
    (h : ∀ id ∈ w.disk.known, ¬ Uses key (w.disk.envelopes id).visible) (id : EnvelopeId) :
    ¬ Uses key (w.disk.envelopes id).visible := by
  intro huses
  refine h id (hlisted id _ List.mem_cons_self ?_) huses
  cases key with
  | none => rcases huses with h | h <;> rw [h] <;> rfl
  | some name =>
    obtain ⟨handle, h⟩ := huses
    rw [h]
    rfl

/-- **The original key is evicted only when no envelope can still need it**, in every run whose reads miss no
envelope under it while it is marked. -/
theorem evicted_only_unneeded {w : World} {es : List Event} (hsettled : w.Settled) (hlisted : w.disk.Listed)
    (hsteps : ∀ x ∈ steps Machine.step (Sessions.idle w) es,
      Sessions.Answers SeesOriginal x.1 x.2 ∧ Sessions.StartsIn PublishesRecorded x.1 x.2) :
    ∀ m ∈ states Machine.step (Sessions.idle w) es, ∀ handle name,
      m.pending = some (.evict handle name) → Unneeded m.world handle name := by
  intro m hm handle name hpending
  have hminds := states_sound (S := originalSetting) (m := Sessions.idle w) (hsettled.sound hlisted _) rfl
    (fun x hx => ⟨(hsteps x hx).1, (hsteps x hx).2.mono fun _ _ => admits_of_publishesRecorded rfl⟩) m hm
  obtain ⟨hsound, hretiring⟩ := hminds.of_pending hpending
  have hretiring := hretiring rfl
  have hunseen := World.unseen_of_known hsound.listed hretiring.unseen
  exact ⟨(hsound.sure none rfl).not_mem hretiring.marked hunseen, hretiring.daExempt, hretiring.proved⟩

/-! ## A retirement, and an envelope missed -/

section

def keyHandle : Handle := 0x81010003
def originalHandle : Handle := 0x81010002

def sealedUser : EnvelopeId := ⟨.templateKey, "a".toList⟩

/-- The DA-exempt key is recorded and the original one is known to match; there is no envelope yet. -/
def freshWorld : World where
  disk := {
    record := .settled (some { (default : Record) with
      version := recordVersion
      persisted := some ⟨keyHandle, hex [2]⟩
      original := some ⟨originalHandle, hex [1], true⟩ })
    envelopes := fun _ => .settled none
    known := [] }
  tpm := {
    objects := [(originalHandle, ⟨[1], false, true⟩), (keyHandle, ⟨[2], true, false⟩)]
    derived := none
    proved := [] }
  boot := 0

def answers (choices : List Choice) : List Event := choices.map .answer

/-- A start whose census reads both directories but the files to skip, up to the write of its mark. -/
def censusSkipping (ids : List EnvelopeId) : List Event :=
  .start (.settle false) :: answers [.works, .works, .works, .works, .skips ids, .skips []]

def upToEviction : List Event :=
  answers [.plan (.ok ⟨keyHandle, originalHandle⟩), .works, .works, .works, .file .durable, .tells true]

def nextBoot : Event := .outside (.powerLoss ⟨0, fun _ => 0⟩)

theorem freshWorld_settled : freshWorld.Settled := ⟨rfl, fun _ => rfl⟩

theorem freshWorld_listed : freshWorld.disk.Listed := by
  intro id content hcontent hsome
  rw [List.mem_singleton.1 hcontent] at hsome
  cases hsome

/-- An envelope under the original key is moved, not durably, comes back with a power loss, and is moved again;
the census of the next boot marks the key, and the boot after that evicts it. -/
def movedTwice : List Event :=
  .start (.publish sealedUser none) :: answers [.works, .file .durable] ++
    .start (.publish sealedUser (some ⟨keyHandle, hex [2]⟩)) ::
      answers [.works, .works, .works, .works, .works, .file .durable, .file .visible] ++
    .outside (.powerLoss ⟨0, fun _ => 1⟩) ::
    .start (.publish sealedUser (some ⟨keyHandle, hex [2]⟩)) ::
      answers [.works, .works, .works, .works, .works, .file .durable, .file .durable, .file .durable] ++
    .start (.settle false) ::
      answers [.works, .works, .works, .works, .skips [], .works, .skips [], .file .durable] ++
    nextBoot :: .start (.settle false) ::
      answers [.works, .works, .works, .works, .skips [], .works, .skips []] ++ upToEviction

set_option maxRecDepth 100000 in
/-- The original key is about to be evicted. -/
theorem evicted_only_unneeded_movedTwice : ∃ m,
    run Machine.step (Sessions.idle freshWorld) movedTwice = some m ∧
      m.pending = some (.evict originalHandle [1]) ∧ Unneeded m.world originalHandle [1] := by
  have hrun : (run Machine.step (Sessions.idle freshWorld) movedTwice).map Sessions.pending =
      some (some (.evict originalHandle [1])) := by decide
  obtain ⟨m, hm, hpending⟩ := Option.map_eq_some_iff.1 hrun
  have hmem : m ∈ states Machine.step (Sessions.idle freshWorld) movedTwice := by
    simpa using mem_states_of_run hm []
  exact ⟨m, hm, hpending,
    evicted_only_unneeded freshWorld_settled freshWorld_listed (by decide) m hmem _ _ hpending⟩

/-- The key is marked, an envelope is sealed under it, and the next boot's start cannot read that file's
metadata. -/
def missedEnvelope : List Event :=
  censusSkipping [] ++ answers [.file .durable] ++
    .start (.publish sealedUser none) :: answers [.works, .file .durable] ++
    nextBoot :: censusSkipping [sealedUser] ++ upToEviction

set_option maxRecDepth 100000 in
/-- The original key is evicted while an envelope is under it. -/
theorem evicted_while_missed : ¬ ∀ (w : World) (es : List Event), w.Settled → w.disk.Listed →
    (∀ x ∈ steps Machine.step (Sessions.idle w) es, Sessions.StartsIn PublishesRecorded x.1 x.2) →
    ∀ m ∈ states Machine.step (Sessions.idle w) es, ∀ handle name,
      m.pending = some (.evict handle name) → Unneeded m.world handle name := by
  intro h
  have hrun : (run Machine.step (Sessions.idle freshWorld) missedEnvelope).map
      (fun m => (m.pending, (m.world.disk.envelopes sealedUser).visible)) =
      some (some (.evict originalHandle [1]), some (.sealed none)) := by decide
  obtain ⟨m, hm, hend⟩ := Option.map_eq_some_iff.1 hrun
  obtain ⟨hpending, hvisible⟩ := Prod.mk.inj hend
  have hmem : m ∈ states Machine.step (Sessions.idle freshWorld) missedEnvelope := by
    simpa using mem_states_of_run hm []
  have hunneeded := h freshWorld missedEnvelope freshWorld_settled freshWorld_listed (by decide) m hmem _ _ hpending
  refine hunneeded.unused sealedUser _ List.mem_cons_self ?_
  rw [hvisible]
  exact .inr rfl

end

end Irlume.StorageKey

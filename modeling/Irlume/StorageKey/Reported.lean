import Irlume.StorageKey.Retired

/-!
# What doctor is told of superseded keys

A publication between DA-exempt keys leaves the marks as they are, where one off the original key clears its
mark first; so a move that a power loss took back and that is repeated hides a use of the key it leaves.
-/

namespace Irlume.StorageKey

open Irlume.Lib

instance (name : Text) (content : Option EnvelopeFile) : Decidable (EnvelopeFile.Names name content) :=
  match content with
  | some (.sealed (some key)) =>
    decidable_of_iff (key.name = name) ⟨fun h => ⟨key.handle, h ▸ rfl⟩, by rintro ⟨handle, ⟨⟩⟩; rfl⟩
  | some (.sealed none) | some .unreadable | none => .isFalse (by rintro ⟨handle, ⟨⟩⟩)

def KeepsSuperseded (w : World) : Op → Choice → Prop
  | .envelopePaths _, .skips ids =>
    ∀ mark ∈ w.disk.loaded.supersededUnused, mark.2 ≠ w.boot →
      ∀ id ∈ ids, ¬ EnvelopeFile.Names mark.1 (w.disk.envelopes id).visible
  | .writeEnvelope id parent, .file .visible =>
    ∀ mark ∈ w.disk.loaded.supersededUnused, mark.2 ≠ w.boot →
      EnvelopeFile.Names mark.1 (w.disk.envelopes id).visible → EnvelopeFile.Names mark.1 (some (.sealed parent))
  | _, _ => True

instance (w : World) (op : Op) (choice : Choice) : Decidable (KeepsSuperseded w op choice) :=
  match op with
  | .envelopePaths _ =>
    match choice with
    | .works | .fails _ | .lost _ | .refuses _ | .file _ | .plan _ | .derives _ | .tells _ |
      .reads _ _ | .checks _ =>
      .isTrue trivial
    | .skips ids => decidable_of_iff (∀ mark ∈ _, _ → ∀ id ∈ ids, ¬ _) .rfl
  | .writeEnvelope _ _ =>
    match choice with
    | .file .visible => decidable_of_iff (∀ mark ∈ _, _ → _ → _) .rfl
    | .file .failed | .file .durable | .works | .fails _ | .lost _ | .refuses _ | .skips _ | .plan _ | .derives _ | .tells _ |
      .reads _ _ | .checks _ =>
      .isTrue trivial
  | .bootId | .plan | .lock | .loadRecord _ | .saveRecord _ | .loadEnvelope _ | .metadata _ |
    .openTpm | .nameAt _ | .persistentAvail | .derive | .ownerNames | .persist _ |
    .derivesOriginal _ | .evict _ _ | .holdsDaExemptKey _ _ | .isWeak _ | .derivedIsWeak |
    .firmware | .keyCheck _ _ | .reply _ =>
    .isTrue trivial

def supersededSetting : Setting where
  allowed := KeepsSuperseded
  keys := {key | key.isSome}
  usable := ∅
  careful w op choice h := by
    unfold Careful
    split
    · exact fun hkey => absurd hkey Bool.false_ne_true
    · exact fun hkey => absurd hkey Bool.false_ne_true
    · rintro (_ | name) hkey ⟨since, hmarks, hsince⟩
      · cases hkey
      · exact h (name, since) hmarks hsince
    · rintro name - ⟨since, hmarks, hsince⟩
      exact h (name, since) hmarks hsince
    · trivial

theorem supersededSetting_admits (w : World) (step : Step) : supersededSetting.Admits w step := by
  cases step with
  | publish id parent => exact fun hkey => absurd hkey Bool.false_ne_true
  | ensure => exact fun name hname => hname.elim
  | _ => trivial

/-- **A superseded key reported as unused across boots is really no longer needed**, in every run that keeps to
the condition. -/
theorem reported_unneeded {w : World} {es : List Event} (hsettled : w.Settled) (hlisted : w.disk.Listed)
    (hsteps : ∀ x ∈ steps Machine.step (Sessions.idle w) es, Sessions.Answers KeepsSuperseded x.1 x.2) :
    ∀ m ∈ states Machine.step (Sessions.idle w) es, ∀ entries, m.pending = some (.reply entries) →
      ∀ entry ∈ entries, entry.unusedAcrossBoots → ∃ kept ∈ m.world.disk.loaded.superseded,
        entry.role = .superseded ∧ entry.handle = kept.handle ∧ entry.name = boundedName kept.name ∧
          ∀ id, ∀ content ∈ (m.world.disk.envelopes id).contents, ¬ EnvelopeFile.Names kept.name content := by
  intro m hm entries hpending entry hentry hunused
  have hminds := states_sound (S := supersededSetting) (m := Sessions.idle w) (hsettled.sound hlisted _) rfl
    (fun x hx => ⟨hsteps x hx, Sessions.startsIn_of_forall supersededSetting_admits x.1 x.2⟩) m hm
  obtain ⟨hsound, htells⟩ := hminds.of_pending hpending
  obtain ⟨kept, hkept, hrole, hhandle, hname, hreported⟩ := htells entry hentry hunused
  have hreported := hreported rfl
  have hunseen := World.unseen_of_known hsound.listed hreported.unseen
  exact ⟨kept, hkept, hrole, hhandle, hname, (hsound.sure _ rfl).not_mem hreported.marked hunseen⟩

/-! ## A move repeated -/

section

def oldHandle : Handle := 0x81010004

def supersededWorld : World where
  disk := {
    record := .settled (some { (default : Record) with
      version := recordVersion
      persisted := some ⟨keyHandle, hex [2]⟩
      superseded := [⟨oldHandle, hex [3]⟩] })
    envelopes := fun id => .settled (if id = sealedUser then some (.sealed (some ⟨oldHandle, hex [3]⟩)) else none)
    known := [sealedUser] }
  tpm := {
    objects := [(keyHandle, ⟨[2], true, false⟩), (oldHandle, ⟨[3], true, false⟩)]
    derived := none
    proved := [] }
  boot := 0

theorem supersededWorld_settled : supersededWorld.Settled := ⟨rfl, fun _ => rfl⟩

theorem supersededWorld_listed : supersededWorld.disk.Listed := by
  intro id content hcontent hsome
  rw [List.mem_singleton.1 hcontent] at hsome
  by_cases hid : id = sealedUser
  · exact hid ▸ List.mem_cons_self
  · rw [show (supersededWorld.disk.envelopes id).visible = none from if_neg hid] at hsome
    cases hsome

def moveOnto (o : WriteOutcome) : List Event :=
  .start (.publish sealedUser (some ⟨keyHandle, hex [2]⟩)) ::
    answers [.works, .works, .works, .works, .works, .works, .file o]

def survey : List Choice := [.skips [], .works, .skips []]

/-- A move that is not durable, the census, a power loss that takes the move back, the move again with `o`, and
what doctor is told. -/
def repeatedMove (o : WriteOutcome) : List Event :=
  moveOnto .visible ++
    .start (.settle false) :: answers ([.works, .works, .works, .works] ++ survey ++ survey ++ [.file .durable]) ++
    .outside (.powerLoss ⟨0, fun _ => 1⟩) :: moveOnto o ++
    .start (.storageKeys originalHandle none) ::
      answers ([.works, .works, .checks .clean] ++ survey ++ [.checks .clean] ++ survey)

def unusedEntry : StorageKeyEntry :=
  ⟨.superseded, oldHandle, hex [3], .clean, some 0, true⟩

set_option maxRecDepth 100000 in
/-- Once the move is repeated durably, the key can go. -/
theorem reported_unneeded_repeatedMove : ∃ m entries,
    run Machine.step (Sessions.idle supersededWorld) (repeatedMove .durable) = some m ∧
      m.pending = some (.reply entries) ∧ unusedEntry ∈ entries ∧
      ∃ kept ∈ m.world.disk.loaded.superseded, unusedEntry.role = .superseded ∧ unusedEntry.handle = kept.handle ∧
        unusedEntry.name = boundedName kept.name ∧
        ∀ id, ∀ content ∈ (m.world.disk.envelopes id).contents, ¬ EnvelopeFile.Names kept.name content := by
  have hrun : (run Machine.step (Sessions.idle supersededWorld) (repeatedMove .durable)).map Sessions.pending =
      some (some (.reply [⟨.daExempt, keyHandle, hex [2], .clean, some 1, false⟩, unusedEntry])) := by decide
  obtain ⟨m, hm, hpending⟩ := Option.map_eq_some_iff.1 hrun
  have hmem : m ∈ states Machine.step (Sessions.idle supersededWorld) (repeatedMove .durable) := by
    simpa using mem_states_of_run hm []
  have hentry : unusedEntry ∈ [⟨.daExempt, keyHandle, hex [2], .clean, some 1, false⟩, unusedEntry] := by simp
  exact ⟨m, _, hm, hpending, hentry, reported_unneeded supersededWorld_settled supersededWorld_listed (by decide) m
    hmem _ hpending _ hentry rfl⟩

set_option maxRecDepth 100000 in
/-- A key is reported as unused across boots while a power loss can bring back an envelope that names it. -/
theorem reported_while_hidden : ¬ ∀ (w : World) (es : List Event), w.Settled → w.disk.Listed →
    ∀ m ∈ states Machine.step (Sessions.idle w) es, ∀ entries, m.pending = some (.reply entries) →
      ∀ entry ∈ entries, entry.unusedAcrossBoots → ∃ kept ∈ m.world.disk.loaded.superseded,
        entry.role = .superseded ∧ entry.handle = kept.handle ∧ entry.name = boundedName kept.name ∧
          ∀ id, ∀ content ∈ (m.world.disk.envelopes id).contents, ¬ EnvelopeFile.Names kept.name content := by
  intro h
  have hrun : (run Machine.step (Sessions.idle supersededWorld) (repeatedMove .visible)).map
      (fun m => (m.pending, m.world.disk.loaded.superseded, (m.world.disk.envelopes sealedUser).contents)) =
      some (some (.reply [⟨.daExempt, keyHandle, hex [2], .clean, some 1, false⟩, unusedEntry]),
        [⟨oldHandle, hex [3]⟩],
        [some (.sealed (some ⟨keyHandle, hex [2]⟩)), some (.sealed (some ⟨oldHandle, hex [3]⟩))]) := by decide
  obtain ⟨m, hm, hend⟩ := Option.map_eq_some_iff.1 hrun
  obtain ⟨hpending, hsuperseded, hcontents⟩ := by simpa only [Prod.mk.injEq] using hend
  have hmem : m ∈ states Machine.step (Sessions.idle supersededWorld) (repeatedMove .visible) := by
    simpa using mem_states_of_run hm []
  obtain ⟨kept, hkept, -, -, -, hunneeded⟩ := h supersededWorld (repeatedMove .visible) supersededWorld_settled
    supersededWorld_listed m hmem _ hpending unusedEntry (by simp) rfl
  obtain rfl : kept = ⟨oldHandle, hex [3]⟩ := by simpa [hsuperseded] using hkept
  refine hunneeded sealedUser (some (.sealed (some ⟨oldHandle, hex [3]⟩))) ?_ ⟨oldHandle, rfl⟩
  rw [hcontents]
  exact List.mem_cons_of_mem _ List.mem_cons_self

end

end Irlume.StorageKey

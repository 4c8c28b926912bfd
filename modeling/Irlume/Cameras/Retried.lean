import Irlume.Cameras.Readback

/-!
# Publishing again after a failure

One process that publishes and resolves the store of an account, again and again, where any file operation may
fail. A write that fails after its staging file was created, and before the rename, leaves that file; so does a
rename that fails where the file cannot be removed either. No later write of the same process stages there
again. The failures to create the staging file, to rename it and to sync the directory cost nothing later.
-/

namespace Irlume.Cameras

open Irlume.Lib

variable {Scan Calib : Type}

/-- A publication that was prepared, of which serialization takes back what it wrote. -/
structure Codec.Publication (c : Codec Scan Calib) where
  createDir : Except Text Unit
  store : SecondaryStore Scan Calib
  digest : Text
  key : Option Bytes
  nonce : Bytes
  commit : PreparedSecondaryCommit Scan Calib
  inverts : c.Inverts store digest key nonce
  prepared : c.prepare createDir store digest key nonce = .ok commit

inductive CommitEvent (c : Codec Scan Calib) where
  | publish (publication : c.Publication) (faults : PublishFaults)
  | resolve (faults : ResolveFaults)
  /-- Anything else that happens to the directory: the journal and the two staging files are as they were or gone. -/
  | elsewhere (files : Directory)

variable {c : Codec Scan Calib} {pid : Nat} {secondary : Text}

def protocolFiles (pid : Nat) (secondary : Text) : List Text :=
  [intentPathFor secondary, commitStaging pid secondary, commitStaging pid (intentPathFor secondary)]

def commitStep (c : Codec Scan Calib) (pid : Nat) (secondary : Text) (d : Directory) : CommitEvent c → Option Directory
  | .publish publication faults => some (publication.commit.publish pid secondary faults d).2
  | .resolve faults => some (c.resolveCommit pid secondary faults d).2
  | .elsewhere files =>
    if ∀ name ∈ protocolFiles pid secondary, files name = d name ∨ files name = none then some files else none

/-- Nothing is staged, and a journal is one that `resolve_commit` takes. -/
structure Unblocked (c : Codec Scan Calib) (pid : Nat) (secondary : Text) (d : Directory) : Prop where
  store : d (commitStaging pid secondary) = none
  intent : d (commitStaging pid (intentPathFor secondary)) = none
  journal : ∀ journal ∈ d (intentPathFor secondary), ∃ bytes, c.journalPayload journal = .ok bytes

/-- A resolution and any publication succeed, if each file operation does. -/
structure Succeeds (c : Codec Scan Calib) (pid : Nat) (secondary : Text) (d : Directory) : Prop where
  resolves : ∃ resolution, (c.resolveCommit pid secondary .none d).1 = .ok resolution
  publishes : ∀ p : PreparedSecondaryCommit Scan Calib, (p.publish pid secondary .none d).1 = .ok ()

def leavesStaged (fault : Option StagedFault) : Bool := fault.any StagedFault.leaves

def PublishFaults.leaves (faults : PublishFaults) : Bool :=
  leavesStaged faults.journal || faults.journal.isNone && leavesStaged faults.store

/-- The step leaves a staging file: one of its writes fails after it created the file and before it renamed it, or the
rename fails and the file cannot be removed. A resolution writes where it reads a journal. -/
def Leaves (secondary : Text) (d : Directory) : CommitEvent c → Bool
  | .publish _ faults => faults.leaves
  | .resolve faults => !faults.unreadable && (d (intentPathFor secondary)).isSome && leavesStaged faults.store
  | .elsewhere _ => false

variable {d : Directory}

/-- **Later steps succeed exactly where nothing blocks them.** -/
theorem succeeds_iff : Succeeds c pid secondary d ↔ Unblocked c pid secondary d := by
  constructor
  · rintro ⟨hresolves, hpublishes⟩
    let store : SecondaryStore Scan Calib := ⟨0, [], 0, [], []⟩
    obtain ⟨hintent, hstore⟩ := publish_ok_iff.1 (hpublishes ⟨store, [], []⟩)
    exact ⟨hstore, hintent, fun journal hjournal => (resolveCommit_ok_iff.1 hresolves journal hjournal).1⟩
  · rintro ⟨hstore, hintent, hjournal⟩
    exact ⟨resolveCommit_ok_iff.2 fun journal h => ⟨hjournal journal h, hstore⟩,
      fun _ => publish_ok_iff.2 ⟨hintent, hstore⟩⟩

/-! ## One write -/

section

theorem durableWrite_path (pid : Nat) (path : Text) (content : Bytes) (fault : Option StagedFault) (d : Directory) :
    (durableWrite pid path content fault d).2 path = d path ∨
      (durableWrite pid path content fault d).2 path = some content :=
  stagedWrite_path commitStaging_ne fault

theorem leavesStaged_eq_false_iff {fault : Option StagedFault} :
    leavesStaged fault = false ↔ ∀ f ∈ fault, f.leaves = false := by
  cases fault <;> simp [leavesStaged]

theorem durableWrite_store (content : Bytes) (fault : Option StagedFault)
    (hstore : d (commitStaging pid secondary) = none) :
    ((durableWrite pid secondary content fault d).2 (commitStaging pid secondary) = none ↔ leavesStaged fault = false) ∧
    (durableWrite pid secondary content fault d).2 (commitStaging pid (intentPathFor secondary)) =
      d (commitStaging pid (intentPathFor secondary)) ∧
    (durableWrite pid secondary content fault d).2 (intentPathFor secondary) = d (intentPathFor secondary) := by
  refine ⟨?_, stagedWrite_frame intentStaging_ne staging_ne_staging fault,
    stagedWrite_frame intentPathFor_ne intentPathFor_ne_staging fault⟩
  rw [durableWrite, stagedWrite_staging_eq_none_iff commitStaging_ne, leavesStaged_eq_false_iff]
  simp [hstore]

theorem durableWrite_intent (content : Bytes) (fault : Option StagedFault)
    (hintent : d (commitStaging pid (intentPathFor secondary)) = none) :
    ((durableWrite pid (intentPathFor secondary) content fault d).2 (commitStaging pid (intentPathFor secondary)) =
      none ↔ leavesStaged fault = false) ∧
    (durableWrite pid (intentPathFor secondary) content fault d).2 (commitStaging pid secondary) =
      d (commitStaging pid secondary) ∧
    ((durableWrite pid (intentPathFor secondary) content fault d).2 (intentPathFor secondary) =
        d (intentPathFor secondary) ∨
      (durableWrite pid (intentPathFor secondary) content fault d).2 (intentPathFor secondary) = some content) := by
  refine ⟨?_, stagedWrite_frame intentPathFor_ne_staging.symm staging_ne_staging.symm fault,
    durableWrite_path _ _ _ _ _⟩
  rw [durableWrite, stagedWrite_staging_eq_none_iff commitStaging_ne, leavesStaged_eq_false_iff]
  simp [hintent]

theorem complete_store (content : Bytes) (fault : Option StagedFault) (removal : Option RemovalFault)
    (hstore : d (commitStaging pid secondary) = none) :
    ((complete pid secondary content fault removal d).2 (commitStaging pid secondary) = none ↔
      leavesStaged fault = false) ∧
    (complete pid secondary content fault removal d).2 (commitStaging pid (intentPathFor secondary)) =
      d (commitStaging pid (intentPathFor secondary)) ∧
    ((complete pid secondary content fault removal d).2 (intentPathFor secondary) = d (intentPathFor secondary) ∨
      (complete pid secondary content fault removal d).2 (intentPathFor secondary) = none) := by
  obtain ⟨hleft, hintent, hjournal⟩ := durableWrite_store content fault hstore
  unfold complete andThen
  split
  · refine ⟨?_, ?_, ?_⟩
    · rw [removeFile_frame intentPathFor_ne_staging.symm, hleft]
    · rw [removeFile_frame commitStaging_ne, hintent]
    · rw [← hjournal]
      exact removeFile_path removal
  · exact ⟨hleft, hintent, .inl hjournal⟩

end

/-! ## One step -/

theorem unblocked_resolve (h : Unblocked c pid secondary d) (faults : ResolveFaults) :
    Unblocked c pid secondary (c.resolveCommit pid secondary faults d).2 ↔
      Leaves secondary d (.resolve faults : CommitEvent c) = false := by
  obtain ⟨unreadable, store, removal⟩ := faults
  cases unreadable with
  | true => simpa [Codec.resolveCommit, Leaves] using h
  | false =>
    cases hjournal : d (intentPathFor secondary) with
    | none => simpa [Codec.resolveCommit, Leaves, hjournal] using h
    | some journal =>
      obtain ⟨bytes, hbytes⟩ := h.journal journal hjournal
      obtain ⟨hstore, hintent, hafter⟩ := complete_store bytes store removal h.store
      simp only [Codec.resolveCommit, Leaves, Bool.false_eq_true, if_false, hjournal, hbytes, Bool.not_false,
        Option.isSome_some, Bool.true_and]
      rw [← hstore]
      refine ⟨Unblocked.store, fun hfree => ⟨hfree, hintent.trans h.intent, fun j hj => ?_⟩⟩
      rcases hafter with hsame | hgone
      · exact h.journal j (hsame ▸ hj)
      · rw [hgone] at hj
        cases hj

theorem unblocked_publish (h : Unblocked c pid secondary d) (p : c.Publication) (faults : PublishFaults) :
    Unblocked c pid secondary (p.commit.publish pid secondary faults d).2 ↔
      Leaves secondary d (.publish p faults : CommitEvent c) = false := by
  obtain ⟨journal, store, removal⟩ := faults
  obtain ⟨hleft, hstore, hpath⟩ := durableWrite_intent p.commit.journal journal h.intent
  -- a journal that is there after the first write is accepted, be it the new one or the one from before
  have haccepted : ∀ j ∈ (durableWrite pid (intentPathFor secondary) p.commit.journal journal d).2
      (intentPathFor secondary), ∃ bytes, c.journalPayload j = .ok bytes := by
    intro j hj
    rcases hpath with hsame | hnew
    · exact h.journal j (hsame ▸ hj)
    · rw [hnew, Option.mem_some_iff] at hj
      exact ⟨_, hj ▸ journalPayload_prepare p.inverts p.prepared⟩
  cases journal with
  | some fault =>
    obtain ⟨e, he⟩ : ∃ e, (durableWrite pid (intentPathFor secondary) p.commit.journal (some fault) d).1 = .error e :=
      stagedWrite_fault fault
    simp only [PreparedSecondaryCommit.publish, andThen, he, Leaves, PublishFaults.leaves, Option.isNone_some,
      Bool.false_and, Bool.or_false]
    rw [← hleft]
    exact ⟨Unblocked.intent, fun hfree => ⟨hstore.trans h.store, hfree, haccepted⟩⟩
  | none =>
    have hok : (durableWrite pid (intentPathFor secondary) p.commit.journal none d).1 = .ok () :=
      stagedWrite_ok_iff.2 h.intent
    obtain ⟨hcomplete, hintent, hafter⟩ := complete_store p.commit.bytes store removal (hstore.trans h.store)
    simp only [PreparedSecondaryCommit.publish, andThen, hok, Leaves, PublishFaults.leaves, Option.isNone_none,
      Bool.true_and]
    rw [show leavesStaged none = false from rfl, Bool.false_or, ← hcomplete]
    refine ⟨Unblocked.store, fun hfree => ⟨hfree, hintent.trans (hleft.2 rfl), fun j hj => ?_⟩⟩
    rcases hafter with hsame | hgone
    · exact haccepted j (hsame ▸ hj)
    · rw [hgone] at hj
      cases hj

variable {d' : Directory}

/-- **One step**: from a directory in which nothing blocks, it leaves one exactly if it leaves no staging file. -/
theorem unblocked_step {e : CommitEvent c} (h : Unblocked c pid secondary d)
    (hstep : commitStep c pid secondary d e = some d') :
    Unblocked c pid secondary d' ↔ Leaves secondary d e = false := by
  cases e with
  | publish p faults =>
    cases hstep
    exact unblocked_publish h p faults
  | resolve faults =>
    cases hstep
    exact unblocked_resolve h faults
  | elsewhere files =>
    rw [commitStep] at hstep
    split at hstep
    · next hkept =>
      obtain rfl := Option.some.inj hstep
      simp only [protocolFiles, List.forall_mem_cons] at hkept
      obtain ⟨hjournal, hstore, hintent, -⟩ := hkept
      have hnone : ∀ {name}, files name = d name ∨ files name = none → d name = none → files name = none := by
        rintro name (hsame | hgone) hd
        · rw [hsame, hd]
        · exact hgone
      refine iff_of_true ⟨hnone hstore h.store, hnone hintent h.intent, fun j hj => ?_⟩ rfl
      rcases hjournal with hsame | hgone
      · exact h.journal j (hsame ▸ hj)
      · rw [hgone] at hj
        cases hj
    · cases hstep

/-! ## Runs -/

/-- **Later steps succeed** in every state of a run exactly if no step of the run left a staging file. -/
theorem commit_retries_exact (c : Codec Scan Calib) (pid : Nat) (secondary : Text) (start : Directory)
    (es : List (CommitEvent c)) (hstart : Unblocked c pid secondary start) :
    (∀ d ∈ states (commitStep c pid secondary) start es, Succeeds c pid secondary d) ↔
      ∀ x ∈ steps (commitStep c pid secondary) start es, Leaves secondary x.1 x.2 = false := by
  simp only [succeeds_iff]
  exact states_forall_iff_steps unblocked_step hstart es

/-- The store's staging file is left beside a journal. -/
structure Blocked (pid : Nat) (secondary : Text) (d : Directory) : Prop where
  store : (d (commitStaging pid secondary)).isSome
  journal : (d (intentPathFor secondary)).isSome

section

variable (h : Blocked pid secondary d)

include h

theorem Blocked.not_resolves :
    ¬ ∃ resolution, (c.resolveCommit pid secondary .none d).1 = .ok resolution := by
  intro hresolves
  obtain ⟨journal, hjournal⟩ := Option.isSome_iff_exists.1 h.journal
  have hfree := (resolveCommit_ok_iff.1 hresolves journal hjournal).2
  have hleft := h.store
  rw [hfree] at hleft
  cases hleft

theorem Blocked.complete {content : Bytes} {fault : Option StagedFault} {removal : Option RemovalFault} :
    (complete pid secondary content fault removal d).2 = d := by
  obtain ⟨old, hold⟩ := Option.isSome_iff_exists.1 h.store
  have hsame : (durableWrite pid secondary content fault d).2 = d := stagedWrite_of_some hold fault
  have hfails : (durableWrite pid secondary content fault d).1 ≠ .ok () := by
    cases fault with
    | none => exact fun hok => by simp [stagedWrite_ok_iff.1 hok] at hold
    | some f =>
      obtain ⟨e, he⟩ : ∃ e, (durableWrite pid secondary content (some f) d).1 = .error e := stagedWrite_fault f
      rw [he]
      nofun
  unfold Cameras.complete andThen
  split
  · next hok => exact absurd hok hfails
  · exact hsame

/-- **What the process does itself never gets it out**: no publication and no resolution, with whatever faults. -/
theorem Blocked.step {e : CommitEvent c}
    (hown : ∀ files, e ≠ .elsewhere files) (hstep : commitStep c pid secondary d e = some d') :
    Blocked pid secondary d' := by
  cases e with
  | publish p faults =>
    cases hstep
    have hstore : ((durableWrite pid (intentPathFor secondary) p.commit.journal faults.journal d).2
        (commitStaging pid secondary)).isSome := by
      rw [durableWrite, stagedWrite_frame intentPathFor_ne_staging.symm staging_ne_staging.symm]
      exact h.store
    have hjournal : ((durableWrite pid (intentPathFor secondary) p.commit.journal faults.journal d).2
        (intentPathFor secondary)).isSome := by
      rcases durableWrite_path pid (intentPathFor secondary) p.commit.journal faults.journal d with hsame | hnew
      · rw [hsame]
        exact h.journal
      · rw [hnew]
        rfl
    unfold PreparedSecondaryCommit.publish andThen
    split
    · rw [Blocked.complete ⟨hstore, hjournal⟩]
      exact ⟨hstore, hjournal⟩
    · exact ⟨hstore, hjournal⟩
  | resolve faults =>
    cases hstep
    unfold Codec.resolveCommit
    split
    · exact h
    · split
      · exact h
      · split
        · exact h
        · dsimp only
          rw [h.complete]
          exact h
  | elsewhere files => exact absurd rfl (hown files)

theorem Blocked.run {es : List (CommitEvent c)}
    (hown : ∀ e ∈ es, ∀ files, e ≠ .elsewhere files)
    (hrun : Lib.run (commitStep c pid secondary) d es = some d') : Blocked pid secondary d' :=
  run_invariant_of (fun he hd hstep => hd.step he hstep) hown h hrun

/-- **A store's staging file beside a journal is there for good**: whatever the process does itself, no resolution
succeeds. -/
theorem never_resolves {es : List (CommitEvent c)} (hown : ∀ e ∈ es, ∀ files, e ≠ .elsewhere files)
    (hrun : Lib.run (commitStep c pid secondary) d es = some d') :
    Blocked pid secondary d' ∧ ¬ ∃ resolution, (c.resolveCommit pid secondary .none d').1 = .ok resolution :=
  have hblocked := h.run hown hrun
  ⟨hblocked, hblocked.not_resolves⟩

end

def FailedStepsNeverBlock (c : Codec Scan Calib) : Prop :=
  ∀ pid secondary start (es : List (CommitEvent c)), Unblocked c pid secondary start →
    ∀ d ∈ states (commitStep c pid secondary) start es, Succeeds c pid secondary d

/-! The store of eight numbers in an empty directory. -/

def eightPublication : (zeroCodec 7).Publication where
  createDir := .ok ()
  store := zeroStore 7
  digest := sha256OfNothing
  key := none
  nonce := []
  commit := zeroCommit 7
  inverts := zeroCodec_inverts 7
  prepared := prepare_zeroStore 7

theorem unblocked_empty : Unblocked c pid secondary fun _ => none := ⟨rfl, rfl, by simp⟩

/-- The store's write fails once; then the process publishes and resolves again, without a fault. -/
theorem never_resolves_filled : ∃ d d', run (commitStep (zeroCodec 7) 4711 "alice.json") (fun _ => none)
    [.publish eightPublication ⟨none, some (.write 0), none⟩] = some d ∧
    run (commitStep (zeroCodec 7) 4711 "alice.json") d [.publish eightPublication .none, .resolve .none] = some d' ∧
      ¬ ∃ resolution, ((zeroCodec 7).resolveCommit 4711 "alice.json" .none d').1 = .ok resolution :=
  have hown : ∀ e ∈ [CommitEvent.publish eightPublication .none, .resolve .none], ∀ files, e ≠ .elsewhere files := by
    simp
  ⟨_, _, rfl, rfl, (never_resolves ⟨rfl, rfl⟩ hown rfl).2⟩

/-- One failed write of the store is enough. -/
theorem not_failedStepsNeverBlock_write : ¬ FailedStepsNeverBlock (zeroCodec 7) := by
  intro hall
  let publish : CommitEvent (zeroCodec 7) := .publish eightPublication ⟨none, some (.write 0), none⟩
  have hstep : run (commitStep (zeroCodec 7) 4711 "alice.json") (fun _ => none) [publish] = some _ := rfl
  have hsucceeds := hall 4711 "alice.json" (fun _ => none) [publish] unblocked_empty _ (end_mem_states hstep)
  have hleaves := (unblocked_step (e := publish) unblocked_empty rfl).1 (succeeds_iff.1 hsucceeds)
  cases hleaves

/-- The failures that cost nothing: the journal's staging file cannot be created; the store's cannot be renamed and is
removed; the directory cannot be synced. -/
def harmlessFailures : List (CommitEvent (zeroCodec 7)) :=
  [.publish eightPublication ⟨some .create, none, none⟩, .publish eightPublication ⟨none, some (.rename true), none⟩,
    .resolve ⟨false, some .syncDir, none⟩, .resolve .none]

/-- The last resolution succeeds. -/
theorem commit_retries_exact_harmless :
    (states (commitStep (zeroCodec 7) 4711 "alice.json") (fun _ => none) harmlessFailures).Forall
      (Succeeds (zeroCodec 7) 4711 "alice.json") := by
  rw [List.forall_iff_forall_mem,
    commit_retries_exact (zeroCodec 7) 4711 "alice.json" (fun _ => none) harmlessFailures unblocked_empty]
  intro x hx
  obtain ⟨es₁, es₂, heq, -, -⟩ := mem_steps_iff.1 hx
  have hmem : x.2 ∈ harmlessFailures := by simp [heq]
  obtain ⟨d, e⟩ := x
  simp only [harmlessFailures, List.mem_cons, List.not_mem_nil, or_false] at hmem
  rcases hmem with rfl | rfl | rfl | rfl
  · rfl
  · rfl
  · simp [Leaves, leavesStaged, StagedFault.leaves]
  · simp [Leaves, leavesStaged, ResolveFaults.none]

end Irlume.Cameras

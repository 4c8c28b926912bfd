import Irlume.Addition.Steps

/-!
# An added camera

What an addition may do to the two files before it publishes is to settle an interrupted replacement, which it
has to before it may go on.
-/

namespace Irlume.Addition

open Irlume.Lib Irlume.Cameras
open Irlume.Replacement (Files Record Instr)
open Irlume.Sealed (Error Resolution)

section

variable {Scan Calib Enr : Type} {sha256Hex : Bytes → Text} {start : Bytes} {c : Codec Scan Calib} {w t : World}
  {op : Op} {found content : Option Bytes}

/-! ## The checks under the lock -/

def Op.leavesFiles : Op → Bool
  | .exec _ _ | .writeStore _ | .acquire => false
  | .readStore reading => reading = .digest
  | _ => true

theorem perform_leavesFiles {choice : Choice Enr} {answer : Answer Enr op} (hop : op.leavesFiles = true)
    (h : perform sha256Hex w op choice = some (answer, t)) :
    t.contents = w.contents ∧ t.changes = w.changes ∧ t.loaded = w.loaded ∧
      ∀ r, w.firstRead = some r → t.firstRead = some r := by
  obtain ⟨t', hact, rfl⟩ := perform_iff.1 h
  have hacted := act_cases hact
  have hcontents : t'.contents = w.contents := by
    rcases hacted.contents with hsame | ⟨record, rfl, -, -⟩ | ⟨bytes, rfl, -⟩
    · exact hsame
    · cases hop
    · cases hop
  have hunpublished : op.isPublication = false := by
    cases op <;> first | rfl | cases hop
  refine ⟨hcontents, ?_, hacted.loaded ?_, hacted.firstRead⟩
  · unfold World.recorded
    rw [if_neg (by simp [hunpublished, hcontents])]
  · cases op with
    | readStore reading =>
      right
      have hreading : reading = .digest := by simpa [Op.leavesFiles] using hop
      rw [hreading]
    | _ => exact .inl nofun

/-- The calls that leave the two files as they are while the lock is held. -/
def Op.looksOn (op : Op) : Bool := op.leavesFiles && op ≠ .release

theorem contents_kept (p : Contents → Prop) :
    Kept Enr sha256Hex Op.looksOn (Locked fun w => p w.contents) where
  others := by
    rintro w x t ⟨hlock, -⟩ hstep
    rw [other_ours hlock] at hstep
    cases hstep
  calls := by
    rintro w op choice answer t hop ⟨hlock, hp⟩ hperform
    obtain ⟨hleaves, hrelease⟩ := Bool.and_eq_true_iff.1 hop
    refine ⟨?_, ?_⟩
    · obtain ⟨t', hact, rfl⟩ := perform_iff.1 hperform
      refine ((act_cases hact).lock ?_ (by simpa using hrelease)).trans hlock
      rintro rfl
      cases hleaves
    · show p t.contents
      rw [(perform_leavesFiles hleaves hperform).1]
      exact hp

/-- The last checks have passed: the primary is the one the capture was validated against, and the store, if there is
one, the one that was loaded. -/
structure Ready (sha256Hex : Bytes → Text) (start : Bytes) (found content : Option Bytes) (w : World) : Prop where
  lock : w.lock = .ours
  contents : w.contents = ⟨some start, found⟩
  firstRead : w.firstRead = some (.digest, found)
  loaded : w.loaded = some content
  same : found ≠ none → content = found
  settled : ∀ ch ∈ w.changes, ch.SettledAway sha256Hex

theorem ready_kept : Kept Enr sha256Hex Op.looksOn (Ready sha256Hex start found content) where
  others := by
    intro w x t h hstep
    rw [other_ours h.lock] at hstep
    cases hstep
  calls := by
    intro w op choice answer t hop h hperform
    obtain ⟨hlock, hcontents⟩ := (contents_kept (· = ⟨some start, found⟩)).calls w op choice answer t hop
      ⟨h.lock, h.contents⟩ hperform
    obtain ⟨-, hchanges, hloaded, hread⟩ := perform_leavesFiles (Bool.and_eq_true_iff.1 hop).1 hperform
    exact ⟨hlock, hcontents, hread _ h.firstRead, hloaded.trans h.loaded, h.same, hchanges ▸ h.settled⟩

/-- **The last look at the store.** Its digest is the one first taken, so it is what was found then, and what was found
then is what was loaded. -/
theorem ready_of_digest (hsound : w.Sound sha256Hex) (hdistinct : Collisionless sha256Hex start w)
    (htracked : Locked (Tracked found content) w) (hprimary : w.primary = some start)
    (hdigest : w.store.map sha256Hex = found.map sha256Hex) : Ready sha256Hex start found content w := by
  obtain ⟨hlock, ⟨hloaded, hgone⟩, ⟨hread, hseen⟩, hunbegun⟩ := htracked
  have hstore : w.store = found := by
    cases hw : w.store with
    | none =>
      rw [hw] at hdigest
      exact (Option.map_eq_none_iff.1 hdigest.symm).symm
    | some b =>
      rw [hw] at hdigest
      obtain ⟨b', hb', hsame⟩ := Option.map_eq_some_iff.1 hdigest.symm
      rw [hb', hdistinct.1 b' (hseen b' hb') b (hsound.store b hw) hsame]
  refine ⟨hlock, congrArg₂ Contents.mk hprimary hstore, hread, hloaded, fun hsome => ?_, hsound.quiet hunbegun⟩
  by_contra hne
  obtain ⟨b, hb⟩ := Option.ne_none_iff_exists'.1 hsome
  exact (hgone hne b hb).2 (hstore.trans hb)

/-! ## The publication -/

/-- The store has been published, over what was found. -/
structure Done (sha256Hex : Bytes → Text) (start : Bytes) (found content : Option Bytes) (bytes : Bytes) (w : World) :
    Prop where
  changes : ∃ removals, w.changes = removals ++
      [⟨.writeStore bytes, ⟨some start, found⟩, ⟨some start, some bytes⟩⟩] ∧
    ∀ ch ∈ removals, ch.SettledAway sha256Hex
  firstRead : w.firstRead = some (.digest, found)
  loaded : w.loaded = some content
  same : found ≠ none → content = found

theorem done_kept {bytes : Bytes} :
    Kept Enr sha256Hex Op.leavesFiles (Done sha256Hex start found content bytes) where
  others := by
    intro w x t h hstep
    rcases other_cases hstep with ⟨lock, rfl⟩ | ⟨files, -, -, rfl⟩
    · exact ⟨h.changes, h.firstRead, h.loaded, h.same⟩
    · exact ⟨h.changes, h.firstRead, h.loaded, h.same⟩
  calls := by
    intro w op choice answer t hop h hperform
    obtain ⟨-, hchanges, hloaded, hread⟩ := perform_leavesFiles hop hperform
    exact ⟨hchanges ▸ h.changes, hread _ h.firstRead, hloaded.trans h.loaded, h.same⟩

theorem gives_writeStore (bytes : Bytes) :
    Gives sha256Hex start (Ready sha256Hex start found content) (ask (.writeStore bytes) : Calls Enr _)
      fun answer w => answer = .ok () → Done sha256Hex start found content bytes w := by
  have hkept : Kept Enr sha256Hex Op.looksOn (Ready sha256Hex start found content) := ready_kept
  refine gives_call hkept.others fun w choice answer t _ h _ _ hperform => ?_
  rintro rfl
  obtain ⟨t', hact, rfl⟩ := perform_iff.1 hperform
  obtain ⟨hanswer, rfl⟩ := Prod.mk.inj (Option.some.inj hact)
  have hdurable : choice.outcome = .durable := by
    unfold Choice.written at hanswer
    split at hanswer
    · next hdurable => exact hdurable
    · cases hanswer
  refine ⟨⟨w.changes, ?_, h.settled⟩, h.firstRead, h.loaded, h.same⟩
  have hprimary : w.primary = some start := congrArg Contents.primary h.contents
  have hafter : (w.replace .store choice.outcome (some bytes)).contents = ⟨some start, some bytes⟩ := by
    rcases replace_store_contents (w := w) choice.outcome (some bytes) with hsame | ⟨-, hwritten⟩
    · rw [hdurable]
      simp [World.replace, World.contents, DurableFile.replace, DurableFile.settled]
      exact hprimary
    · rw [hwritten, hprimary]
  unfold World.recorded
  rw [if_pos (.inl rfl), h.contents]
  exact congrArg (fun after => w.changes ++ [⟨.writeStore bytes, ⟨some start, found⟩, after⟩]) hafter

theorem gives_commitPublish (commit : PreparedSecondaryCommit Scan Calib) :
    Gives sha256Hex start (Ready sha256Hex start found content) (commitPublish commit : Calls Enr Unit)
      fun _ => Done sha256Hex start found content commit.bytes := by
  refine gives_askOk ready_kept rfl fun _ => ?_
  refine (gives_writeStore commit.bytes).bind fun answer => gives_ok fun u hanswer => ?_
  refine Fallible.Gives.weaken (P := Done sha256Hex start found content commit.bytes) ?_ fun w h => h hanswer
  refine (gives_ask done_kept rfl).bind fun _ => ?_
  exact gives_orThrow.mono (fun _ _ h => h) fun _ _ _ h => h.2

variable {i : CameraGroupPublication Scan Calib Enr} {host : Host Enr}

/-- Under the state lock the store that was loaded is the one that is replaced. -/
theorem gives_publishPrepared {commit : PreparedSecondaryCommit Scan Calib} {account : Resolution} :
    Gives c.sha256Hex i.startPrimary (Locked (Tracked found content))
      (publishPrepared c i commit (found.map c.sha256Hex) account)
      fun _ => Done c.sha256Hex i.startPrimary found content commit.bytes := by
  have htracked : Kept Enr c.sha256Hex Op.staysLocked (Locked (Tracked found content)) :=
    (tracked_kept found content).locked
  refine (gives_readPrimary htracked rfl).bind fun answer => gives_ok fun current hcurrent => ?_
  refine gives_unless fun _ => gives_unless fun hsame => ?_
  have hthen : Kept Enr c.sha256Hex (fun op => op = .readStore .digest) fun w =>
      Locked (Tracked found content) w ∧ Locked (fun w => w.contents.primary = some i.startPrimary) w :=
    (htracked.mono (by simp [Op.staysLocked, Op.isQuiet])).and
      ((contents_kept (·.primary = some i.startPrimary)).mono (by simp [Op.looksOn, Op.leavesFiles]))
  refine Fallible.Gives.weaken (P := fun w =>
    Locked (Tracked found content) w ∧ Locked (fun w => w.contents.primary = some i.startPrimary) w) ?_
    fun w h => ⟨h.2, h.2.1, (h.1 current hcurrent).2 (not_not.1 hsame)⟩
  refine (gives_optionalFileDigest hthen (by simp)).bind fun digest => gives_unless fun hdigest => ?_
  refine Fallible.Gives.mono (P := Ready c.sha256Hex i.startPrimary found content) ?_ ?_ fun _ _ _ h => h
  · refine (gives_ask ready_kept rfl).bind fun resolution => gives_unless fun _ => ?_
    refine (gives_ask ready_kept rfl).bind fun now => gives_ok fun _ _ => gives_commitPublish commit
  · rintro w hsound ⟨⟨heq, hdistinct⟩, hlocked, -, hprimary⟩
    exact ready_of_digest hsound hdistinct hlocked hprimary (heq.symm.trans (not_not.1 hdigest))

theorem gives_withAccountPublication {prepared : Prepared Scan Calib} {account : Resolution} :
    Gives c.sha256Hex i.startPrimary (Tracked found content)
      (withAccountPublication c host prepared i.user
        (publishPrepared c i prepared.commit (found.map c.sha256Hex) account))
      fun _ => Done c.sha256Hex i.startPrimary found content prepared.commit.bytes := by
  refine gives_unless fun _ => gives_withStateLock (tracked_kept found content) ?_ fun _ => ?_
  · have hkept : Kept Enr c.sha256Hex Op.staysLocked (Locked (Tracked found content)) :=
      (tracked_kept found content).locked
    have hcontext : Gives c.sha256Hex i.startPrimary (Locked (Tracked found content))
        (keyContextChecked c prepared.keyContext : Calls Enr Unit) fun _ => Locked (Tracked found content) := by
      unfold keyContextChecked
      split
      · exact Fallible.gives_pure fun _ _ h => h
      · exact (gives_ask hkept rfl).bind fun _ => gives_refuseIf.mono (fun _ _ h => h) fun _ _ _ h => h.2
    exact hcontext.bind fun _ => gives_publishPrepared
  · exact done_kept.mono (by simp [Op.leavesFiles])

/-! ## What is loaded and what is checked of it -/

theorem gives_loadAndDerive :
    Gives c.sha256Hex start (Opened found) (loadAndDerive c i : Calls Enr _) fun derived w =>
      ∃ content, (∃ loaded, LoadsAs c content loaded ∧ derived.1 = loaded.getD (emptyStore i.user) ∧
        derived.2.text = i.groupId) ∧ Tracked found content w := by
  refine gives_loadSecondary.bind fun loaded => Fallible.gives_exists fun content => Fallible.gives_of fun hloads => ?_
  dsimp only
  split
  · exact Fallible.gives_throw
  · refine gives_ok fun id _ => gives_unless fun hid => Fallible.gives_pure fun w _ htracked => ?_
    exact ⟨content, ⟨loaded, hloads, rfl, not_not.1 hid⟩, htracked⟩

/-- The groups the new store keeps were active against the bytes the capture was validated against. -/
def KeptActive (c : Codec Scan Calib) (start : Bytes) (store : SecondaryStore Scan Calib) : Prop :=
  store.groups ≠ [] → store.activationAgainst c.sha256Hex (some start) = .active

theorem gives_primaryUnchanged {P : World → Prop} {store : SecondaryStore Scan Calib}
    (hP : Kept Enr c.sha256Hex Op.isQuiet P) :
    Gives c.sha256Hex i.startPrimary P (primaryUnchanged c host i store) fun primary w =>
      (primary = i.startPrimary ∧ KeptActive c i.startPrimary store) ∧ P w := by
  refine (gives_readPrimary hP rfl).bind fun answer => gives_ok fun current hcurrent => ?_
  cases current with
  | none => exact Fallible.gives_throw
  | some primary =>
    refine gives_unless fun hsame => ?_
    refine Fallible.Gives.weaken (P := fun w => primary = i.startPrimary ∧ P w) ?_ ?_
    · refine Fallible.gives_of fun hprimary => ?_
      subst hprimary
      refine gives_unless fun hactive => gives_askOk hP rfl fun current => ?_
      cases current with
      | none => exact Fallible.gives_throw
      | some current =>
        refine gives_unless fun _ => Fallible.gives_pure fun w _ hPw => ⟨⟨rfl, fun hgroups => ?_⟩, hPw⟩
        by_contra hinactive
        exact hactive ⟨hgroups, hinactive⟩
    · rintro w ⟨hread, hPw⟩
      obtain ⟨hpresent, hstart⟩ := hread _ hcurrent
      have hdigest : (some primary).map c.sha256Hex = some (c.sha256Hex i.startPrimary) :=
        congrArg some (not_not.1 hsame)
      exact ⟨Option.some.inj (hpresent.trans (hstart hdigest)), hPw⟩

/-! ## The transaction -/

end

/-- A publication: what settling removed before it, what it replaced and what had been loaded, the new group's id, and
the key and nonce the new store is written with. -/
structure Publication (Scan Calib : Type) where
  removals : List Change
  replaced : Option Bytes
  content : Option Bytes
  loaded : Option (SecondaryStore Scan Calib)
  id : CameraGroupId
  key : Option Bytes
  nonce : Bytes

section

variable {Scan Calib Enr : Type}

def Publication.base (p : Publication Scan Calib) (user : Text) : SecondaryStore Scan Calib :=
  p.loaded.getD (emptyStore user)

def Publication.next (p : Publication Scan Calib) (c : Codec Scan Calib)
    (i : CameraGroupPublication Scan Calib Enr) : SecondaryStore Scan Calib :=
  withGroup (p.base i.user) (c.sha256Hex i.startPrimary) ⟨p.id, i.pair, [i.profile]⟩

def Publication.bytes (p : Publication Scan Calib) (c : Codec Scan Calib)
    (i : CameraGroupPublication Scan Calib Enr) : Bytes :=
  c.storeBytes (p.next c i) p.key p.nonce

/-- What an addition that succeeded has done. -/
structure Added (c : Codec Scan Calib) (i : CameraGroupPublication Scan Calib Enr) (w : World)
    (p : Publication Scan Calib) : Prop where
  /-- The two files changed by what settling removed, then by one publication, with the primary that the capture was
  validated against in place. -/
  changes : w.changes = p.removals ++ [⟨.writeStore (p.bytes c i), ⟨some i.startPrimary, p.replaced⟩,
    ⟨some i.startPrimary, some (p.bytes c i)⟩⟩]
  settled : ∀ ch ∈ p.removals, ch.SettledAway c.sha256Hex
  /-- What was replaced is what was there before anything was loaded. -/
  firstRead : w.firstRead = some (.digest, p.replaced)
  loaded : w.loaded = some p.content
  loads : LoadsAs c p.content p.loaded
  replaces : p.replaced ≠ none → p.content = p.replaced
  id : p.id.text = i.groupId
  valid : (p.next c i).validate = .ok ()
  active : KeptActive c i.startPrimary (p.base i.user)
  authorized : i.authorization.account = i.user ∧ i.authorization.operation = i.operation

theorem gives_publishCameraGroup (c : Codec Scan Calib) (host : Host Enr)
    (i : CameraGroupPublication Scan Calib Enr) :
    Gives c.sha256Hex i.startPrimary Unread (publishCameraGroup c host i) fun id w =>
      id = i.groupId ∧ ∃ p, Added c i w p := by
  refine gives_ok fun _ hauthorized => ?_
  refine gives_firstDigest.bind fun storeDigest => Fallible.gives_exists fun found => Fallible.gives_of fun hfound => ?_
  subst hfound
  refine (gives_ask (opened_kept found) rfl).bind fun account => ?_
  refine gives_loadAndDerive.bind fun derived => Fallible.gives_exists fun content => Fallible.gives_of ?_
  rintro ⟨loaded, hloads, hbase, hid⟩
  have hkept : Kept Enr c.sha256Hex Op.isQuiet (Tracked found content) := tracked_kept found content
  refine (gives_primaryUnchanged hkept).bind fun primary => Fallible.gives_of ?_
  rintro ⟨rfl, hactive⟩
  refine gives_ok fun _ _ => ?_
  refine (gives_optionalFileDigest hkept rfl).bind fun digest => gives_unless fun _ => ?_
  refine Fallible.Gives.weaken (P := Tracked found content) ?_ fun _ h => h.2
  refine (gives_prepareWithIntent hkept).bind fun prepared => Fallible.gives_of fun hmade => ?_
  refine gives_withAccountPublication.bind fun _ => Fallible.gives_pure fun w _ hdone => ⟨rfl, ?_⟩
  obtain ⟨key, nonce, hbytes⟩ := hmade.written
  obtain ⟨removals, hchanges, hsettled⟩ := hdone.changes
  refine ⟨⟨removals, found, content, loaded, derived.2, key, nonce⟩, ?_⟩
  obtain ⟨base, id⟩ := derived
  obtain rfl : base = loaded.getD (emptyStore i.user) := hbase
  exact {
    changes := by rw [hchanges, hbytes]; rfl
    settled := hsettled
    firstRead := hdone.firstRead
    loaded := hdone.loaded
    loads := hloads
    replaces := hdone.same
    id := hid
    valid := hmade.valid
    active := hactive
    authorized := EnrollmentAuthorization.validateFor_ok hauthorized }

/-- **An addition among other writers.** Whatever the others do to the two files while they hold the account's lock, as
long as they do not give the secondary store bytes it had before, and however the addition's calls are answered: when
it succeeds it has published the store it replaced, which was there before it loaded anything, with the one authorized
group appended, and an error from before its publication leaves the two files as they are but for a store that settling
an interrupted replacement removes. -/
theorem camera_group_addition (c : Codec Scan Calib) (host : Host Enr)
    (i : CameraGroupPublication Scan Calib Enr) (files : Files) (busy : Bool) (cs : List (List OtherStep × Choice Enr))
    (result : Except Error Text) (w : World)
    (hrun : Program.outcome (Program.among otherStep (perform c.sha256Hex)) (publishCameraGroup c host i).run
      (World.start files busy) cs = some (result, w))
    (hstores : DigestsDistinct c.sha256Hex w.stores)
    (hprimaries : DigestsDistinct c.sha256Hex (i.startPrimary :: w.primaries)) :
    (∀ id, result = .ok id → id = i.groupId ∧ ∃ p, Added c i w p) ∧
    (∀ e, result = .error e → w.began = false → ∀ ch ∈ w.changes, ch.SettledAway c.sha256Hex) := by
  have hsound : (World.start files busy).Sound c.sha256Hex :=
    ⟨fun _ hb => Option.mem_toList.2 hb, fun _ hb => Option.mem_toList.2 hb,
      fun _ _ hch => absurd hch List.not_mem_nil⟩
  have hback : ∀ s (op : Op) (choice : List OtherStep × Choice Enr) answer t,
      Program.among otherStep (perform c.sha256Hex) s op choice = some (answer, t) →
      Collisionless c.sha256Hex i.startPrimary t → Collisionless c.sha256Hex i.startPrimary s := by
    rintro s op choice answer t hamong ⟨hdistinct, hdistinct'⟩
    obtain ⟨s', hothers, hperform⟩ := Option.bind_eq_some_iff.1 hamong
    have hgrows : s.Grows s' := run_invariant (I := s.Grows) (fun h hstep => h.trans (other_grows hstep))
      ⟨List.Subset.refl _, List.Subset.refl _⟩ hothers
    have hgrows := hgrows.trans (perform_grows hperform)
    exact ⟨hdistinct.mono hgrows.2, hdistinct'.mono (List.cons_subset_cons _ hgrows.1)⟩
  have hgives := gives_publishCameraGroup c host i _ hsound ⟨rfl, rfl⟩
  obtain ⟨hsound', hends⟩ := Program.Guarded.outcome hback hgives hrun ⟨hstores, hprimaries⟩
  constructor
  · rintro id rfl
    exact hends
  · rintro e rfl hunbegun
    exact hsound'.quiet hunbegun

end

/-! A laptop's account whose store has been emptied, and the camera that is added to it. -/

def laptopPrimary : Bytes := Lib.bytes "\x7b\"user\":\"o\",\"profiles\":[],\"camera_binding\":null\x7d"

def laptopPrimarySha256 : Text := "87c4454dd09c669f5ede0d83aaaf1cc6" ++ "ffad6c36c8d82de29784d00998acd08b"

def emptiedStore : SecondaryStore Unit Unit where
  formatVersion := 1
  owner := "o"
  generation := 2
  primarySnapshotSha256 := sha256OfNothing
  groups := []

def emptiedJson : Bytes :=
  Lib.bytes ("\x7b\"format_version\":1,\"owner\":\"o\",\"generation\":2,\"primary_snapshot_sha256\":\"" ++
    sha256OfNothing ++ "\",\"groups\":[]\x7d")

def emptiedSha256 : Text := "a239f5f5384d1bf78cb148a7a13a9946" ++ "86cffc3dbc8db786b0fd3165d4424413"

def publishedJson : Bytes :=
  Lib.bytes ("\x7b\"format_version\":1,\"owner\":\"o\",\"generation\":3,\"primary_snapshot_sha256\":\"" ++
    laptopPrimarySha256 ++ "\",\"groups\":[\x7b\"id\":\"cam-i\",\"pair\":\x7b\"rgb\":null,\"ir\":\"i\"\x7d," ++
    "\"profiles\":[\x7b\"profile\":\"p\",\"scans\":[\x7b\"name\":\"s\",\"rgb\":[1.0],\"ir\":null," ++
    "\"ir_space\":null,\"embed_space\":null,\"ir_depth\":0.0,\"ir_brightness\":0.0,\"pitch\":0.0\x7d]," ++
    "\"ir_calibs\":\x7b\x7d\x7d]\x7d]\x7d")

def publishedSha256 : Text := "60b563d59baa10bcec90ffab103ce25b" ++ "fdbcb8986b1744ab945ef6ef7c058e2a"

def publishedB64 : Text :=
  "eyJmb3JtYXRfdmVyc2lvbiI6MSwib3duZXIiOiJvIiwiZ2VuZXJhdGlvbiI6MywicHJpbWFyeV9zbmFwc2hvdF9z" ++
    "aGEyNTYiOiI4N2M0NDU0ZGQwOWM2NjlmNWVkZTBkODNhYWFmMWNjNmZmYWQ2YzM2YzhkODJkZTI5Nzg0ZDAwOTk4" ++
    "YWNkMDhiIiwiZ3JvdXBzIjpbeyJpZCI6ImNhbS1pIiwicGFpciI6eyJyZ2IiOm51bGwsImlyIjoiaSJ9LCJwcm9m" ++
    "aWxlcyI6W3sicHJvZmlsZSI6InAiLCJzY2FucyI6W3sibmFtZSI6InMiLCJyZ2IiOlsxLjBdLCJpciI6bnVsbCwi" ++
    "aXJfc3BhY2UiOm51bGwsImVtYmVkX3NwYWNlIjpudWxsLCJpcl9kZXB0aCI6MC4wLCJpcl9icmlnaHRuZXNzIjow" ++
    "LjAsInBpdGNoIjowLjB9XSwiaXJfY2FsaWJzIjp7fX1dfV19"

def publishedIntent : CommitIntent where
  formatVersion := 1
  generation := 3
  primarySnapshotSha256 := laptopPrimarySha256
  newSecondaryB64 := publishedB64

def publishedIntentJson : Bytes :=
  Lib.bytes ("\x7b\"format_version\":1,\"generation\":3,\"primary_snapshot_sha256\":\"" ++ laptopPrimarySha256 ++
    "\",\"new_secondary_b64\":\"" ++ publishedB64 ++ "\"\x7d")

/-- Serialization, base64 and SHA-256 as far as these stores need them. -/
def laptopCodec : Codec Unit Unit where
  storeJson s := if s.generation = 3 ∧ s.groups.length = 1 then publishedJson else []
  readStore b := if b = emptiedJson then some emptiedStore else none
  envelopeJson _ _ _ := []
  readDoc b := if b = emptiedJson then some ⟨some 1, none, none⟩ else none
  intentJson i := if i = publishedIntent then publishedIntentJson else []
  readIntent _ := none
  encode64 b := if b = publishedJson then publishedB64 else []
  decode64 _ := none
  encrypt _ _ _ := []
  decrypt _ _ := none
  sha256Hex b :=
    if b = laptopPrimary then laptopPrimarySha256
    else if b = emptiedJson then emptiedSha256
    else if b = publishedJson then publishedSha256
    else sha256OfNothing

def laptopHost : Host Unit where
  recordPath user := "/var/lib/irlume/keys/" ++ user ++ ".replacing"
  enrollmentJson _ := some laptopPrimary

def laptopAddition : CameraGroupPublication Unit Unit Unit where
  user := "o"
  pair := .ordinary none (some "i")
  groupId := "cam-i"
  profile := { profile := "p", scans := [()], irCalibs := [] }
  startEnr := ()
  startPrimary := laptopPrimary
  authorization :=
    { account := "o"
      operation := .addGroup "cam-i" none (some "i")
      grantedAtUnix := 0
      validForSecs := 600
      authorizationId := "a" }
  nowUnix := 0

def laptopFiles (store : Option Bytes) (record : Option Record) : Files where
  record := .settled record
  enrollment := .settled (some laptopPrimary)
  key := .settled none
  removable f := .settled (if f = .store then store else none)

def calm : Choice Unit where
  error := none
  outcome := .durable
  available := false
  bytes := none
  enrollment := some ()
  resolution := .uid 1000
  time := 0

def laptopRun (files : Files) (cs : List (List OtherStep × Choice Unit)) : Option (Except Error Text × World) :=
  Program.outcome (Program.among otherStep (perform laptopCodec.sha256Hex))
    (publishCameraGroup laptopCodec laptopHost laptopAddition).run (World.start files false) cs

def alone : List (List OtherStep × Choice Unit) := List.replicate 19 ([], calm)

/-- An addition without other writers. -/
theorem camera_group_addition_alone : ∃ w p,
    laptopRun (laptopFiles (some emptiedJson) none) alone = some (.ok "cam-i".toList, w) ∧
      Added laptopCodec laptopAddition w p := by
  have hends : (laptopRun (laptopFiles (some emptiedJson) none) alone).map
      (fun r => (r.1.toOption, decide (DigestsDistinct laptopCodec.sha256Hex r.2.stores),
        decide (DigestsDistinct laptopCodec.sha256Hex (laptopPrimary :: r.2.primaries)))) =
      some (some "cam-i".toList, true, true) := by
    unfold laptopRun laptopFiles laptopAddition laptopHost laptopCodec publishedIntentJson
      publishedIntent publishedB64 publishedJson publishedSha256 emptiedJson emptiedSha256
      emptiedStore laptopPrimary laptopPrimarySha256 sha256OfNothing
    repeat rw [String.toList_ofList]
    decide +kernel
  obtain ⟨⟨result, w⟩, hrun, hends⟩ := Option.map_eq_some_iff.1 hends
  simp only [Prod.mk.injEq, decide_eq_true_eq] at hends
  obtain ⟨hok, hstores, hprimaries⟩ := hends
  cases result with
  | error e => cases hok
  | ok id =>
    obtain rfl := Option.some.inj hok
    obtain ⟨-, p, hadded⟩ :=
      (camera_group_addition _ _ _ _ _ _ _ w hrun hstores hprimaries).1 "cam-i".toList rfl
    exact ⟨w, p, hrun, hadded⟩

/-! Settling an interrupted replacement, and a store that came and went. -/

def leftRecord : Record where
  version := 1
  key := none
  enrollment := some sha256OfNothing
  recovery := none
  cameraStore := some emptiedSha256
  cameraJournal := none

/-- Another writer takes the lock, leaves `store` and gives the lock up. -/
def leaves (store : Option Bytes) : List OtherStep := [.lock, .write (laptopFiles store none), .unlock]

/-- Another session adds a store before it is read and removes it after it is loaded. -/
def cameAndWent : List (List OtherStep × Choice Unit) :=
  [([], calm), ([], calm), (leaves (some emptiedJson), calm), ([], calm), (leaves none, calm)] ++
    List.replicate 14 ([], calm)

/-- A failed addition that removed the store of an interrupted replacement, and one that published over a store
that came and went. -/
theorem camera_group_addition_counterexample :
    (∃ e w, laptopRun (laptopFiles (some emptiedJson) (some leftRecord)) (List.replicate 21 ([], calm)) =
        some (.error e, w) ∧ w.began = false ∧ w.store = none) ∧
    (∃ w, laptopRun (laptopFiles none none) cameAndWent = some (.ok "cam-i".toList, w) ∧
      w.loaded = some (some emptiedJson) ∧ w.changes.map (fun ch => ch.before.store) = [none]) := by
  constructor
  · have hends : (laptopRun (laptopFiles (some emptiedJson) (some leftRecord)) (List.replicate 21 ([], calm))).map
        (fun r => (r.1.toOption, r.2.began, r.2.store)) = some (none, false, none) := by
      unfold laptopRun laptopFiles laptopAddition laptopHost laptopCodec leftRecord emptiedJson
        emptiedSha256 emptiedStore laptopPrimary laptopPrimarySha256 sha256OfNothing
      repeat rw [String.toList_ofList]
      decide +kernel
    obtain ⟨⟨result, w⟩, hrun, hends⟩ := Option.map_eq_some_iff.1 hends
    obtain ⟨herror, hbegan, hstore⟩ : result.toOption = none ∧ w.began = false ∧ w.store = none := by
      simpa only [Prod.mk.injEq] using hends
    cases result with
    | ok id => cases herror
    | error e => exact ⟨e, w, hrun, hbegan, hstore⟩
  · have hends : (laptopRun (laptopFiles none none) cameAndWent).map
        (fun r => (r.1.toOption, r.2.loaded, r.2.changes.map fun ch => ch.before.store)) =
        some (some "cam-i".toList, some (some emptiedJson), [none]) := by
      unfold laptopRun cameAndWent leaves laptopFiles laptopAddition laptopHost laptopCodec
        publishedIntentJson publishedIntent publishedB64 publishedJson publishedSha256 emptiedJson
        emptiedSha256 emptiedStore laptopPrimary laptopPrimarySha256 sha256OfNothing
      repeat rw [String.toList_ofList]
      decide +kernel
    obtain ⟨⟨result, w⟩, hrun, hends⟩ := Option.map_eq_some_iff.1 hends
    simp only [Prod.mk.injEq] at hends
    obtain ⟨hok, hloaded, hchanges⟩ := hends
    cases result with
    | error e => cases hok
    | ok id =>
      obtain rfl := Option.some.inj hok
      exact ⟨w, hrun, hloaded, hchanges⟩

end Irlume.Addition

import Irlume.Cameras.Files

/-!
# Staging files of one account

`is_staging_file_of` (`multi_camera.rs`) and the deletion of an account's added cameras with it (`storage.rs`).
A name is cut at its last dash: what follows are the digits of a process, what stands before ends in a tag, and
the file before the tag ends in `.json` or `.json.intent`.
-/

namespace Irlume.Cameras

open Irlume.Lib

abbrev AccountName := { user : Text // '/' ∉ user }

def saveStagingTag : Text := "tmp"

/-- `secondary_store_path` -/
def secondaryStorePath (stateDir : Text) (user : AccountName) : Text := stateDir ++ "/cameras/" ++ user.1 ++ ".json"

/-- `Path::file_name`, of a path whose last component is not `..`. -/
def fileName (path : Text) : Text := path.rtakeWhile (· ≠ '/')

def stagedBy (name file tag : Text) : Bool :=
  ((((afterStart name ".").bind (afterStart · file)).bind (afterStart · ".")).bind (afterStart · tag)).bind
    (afterStart · "-") |>.any fun pid => pid ≠ [] && pid.all Char.isDigit

/-- `is_staging_file_of`. A name that is not UTF-8 is nobody's. -/
def isStagingFileOf (store : Text) (name : Bytes) : Bool :=
  match ofBytes name with
  | none => false
  | some name =>
    let store := fileName store
    stagedBy name store saveStagingTag || stagedBy name store commitStagingTag ||
      stagedBy name (intentPathFor store) commitStagingTag

/-! ## The deletion -/

/-- The names in the cameras' directory, none if there is no directory. -/
abbrev Listing := Option (List Bytes)

/-- What the system answers: whether the directory could be read to its end, which removals it lets through, and which
syncs, after a removal and after none. -/
structure Answers where
  lists : Bool
  removes : Bytes → Bool
  syncs : Bytes → Bool
  syncsLast : Bool

inductive DeleteError where
  | list
  | remove (name : Bytes)
  | sync

def cameraStagingFiles (a : Answers) (store : Text) : Listing → Except DeleteError (List Bytes)
  | none => .ok []
  | some entries =>
    if a.lists then .ok ((entries.filter (isStagingFileOf store)).mergeSort (decide <| · ≤ ·)) else .error .list

/-- The loop of `delete_camera_store_unlocked`. -/
def removeEach (a : Answers) : List Bytes → Bool → Listing → Except DeleteError Bool × Listing
  | [], removed, dir => (.ok removed, dir)
  | path :: paths, removed, dir =>
    if !a.removes path then (.error (.remove path), dir)
    else if (dir.getD []).contains path then
      let dir := dir.map (List.filter (· ≠ path))
      if a.syncs path then removeEach a paths true dir else (.error .sync, dir)
    else removeEach a paths removed dir

/-- With nothing removed the directory is synced all the same. -/
def syncWithout (a : Answers) : Except DeleteError Bool × Listing → Except DeleteError Bool × Listing
  | (.ok false, dir) => if dir.isNone || a.syncsLast then (.ok false, dir) else (.error .sync, dir)
  | result => result

def deleteCameraStoreUnlocked (a : Answers) (stateDir : Text) (user : AccountName) (dir : Listing) :
    Except DeleteError Bool × Listing :=
  let store := secondaryStorePath stateDir user
  match cameraStagingFiles a store dir with
  | .error e => (.error e, dir)
  | .ok found =>
    let paths := [bytes (intentPathFor (fileName store)), bytes (fileName store)] ++ found
    syncWithout a (removeEach a paths false dir)

/-! ## Names -/

variable {s : Text} {u v : AccountName} {n file tag : Text} {pid : Nat}

theorem fileName_secondaryStorePath : fileName (secondaryStorePath s u) = u.1 ++ ".json" := by
  have hfree : ∀ c ∈ u.1 ++ ".json".toList, decide (c ≠ '/') = true := by
    intro c hc
    rcases List.mem_append.1 hc with hc | hc
    · simpa using fun h : c = '/' => u.2 (h ▸ hc)
    · have hall : ∀ c ∈ ".json".toList, decide (c ≠ '/') = true := by simp
      exact hall c hc
  have hcut : secondaryStorePath s u = s ++ "/cameras".toList ++ ['/'] ++ (u.1 ++ ".json".toList) := by
    rw [secondaryStorePath, ← List.append_assoc (s ++ _ ++ _), List.append_assoc s "/cameras".toList]
    rfl
  rw [fileName, List.rtakeWhile, hcut, List.reverse_append, takeWhile_append_of_stop, List.reverse_reverse]
  · exact fun c hc => hfree c (List.mem_reverse.1 hc)
  · intro d hd
    rw [List.reverse_append] at hd
    simpa using (Option.some.inj hd).symm

/-- The name a writer stages the file at, with the digits in place of the process's. -/
def staged (file tag digits : Text) : Text := "." ++ file ++ "." ++ tag ++ "-" ++ digits

theorem afterStart_eq_some_iff {t p r : Text} : afterStart t p = some r ↔ t = p ++ r := by
  constructor
  · intro h
    simp only [afterStart, startsWith, List.isPrefixOf_iff_prefix] at h
    split at h
    · next hp =>
      obtain ⟨r', rfl⟩ := hp
      simpa using h
    · cases h
  · rintro rfl
    exact afterStart_append p r

theorem stagedBy_iff :
    stagedBy n file tag = true ↔ ∃ ds, ds ≠ [] ∧ (∀ c ∈ ds, c.isDigit = true) ∧ n = staged file tag ds := by
  simp only [stagedBy, Option.any_eq_true, Option.bind_eq_some_iff, afterStart_eq_some_iff, Bool.and_eq_true,
    decide_eq_true_eq, List.all_eq_true]
  constructor
  · rintro ⟨ds, ⟨_, ⟨_, ⟨_, ⟨_, rfl, rfl⟩, rfl⟩, rfl⟩, rfl⟩, hne, hdigits⟩
    exact ⟨ds, hne, hdigits, by simp [staged]⟩
  · rintro ⟨ds, hne, hdigits, rfl⟩
    exact ⟨ds, ⟨_, ⟨_, ⟨_, ⟨_, by simp only [staged, List.append_assoc], rfl⟩, rfl⟩, rfl⟩, rfl⟩, hne, hdigits⟩

theorem dash_not_mem {ds : Text} (h : ∀ c ∈ ds, c.isDigit = true) : '-' ∉ ds :=
  fun hd => absurd (h _ hd) (by decide)

/-- A staging name is cut at its last dash. -/
theorem staged_cut {file' tag' ds ds' : Text} (hds : ∀ c ∈ ds, c.isDigit = true) (hds' : ∀ c ∈ ds', c.isDigit = true)
    (h : staged file tag ds = staged file' tag' ds') : file ++ '.' :: tag = file' ++ '.' :: tag' := by
  have hcut : ∀ {f t es : Text}, (∀ c ∈ es, c.isDigit = true) →
      splitOnceAt '-' (staged f t es).reverse = some (es.reverse, ('.' :: (f ++ '.' :: t)).reverse) := by
    intro f t es hes
    refine splitOnceAt_eq_some_iff.2 ⟨?_, fun hd => dash_not_mem hes (List.mem_reverse.1 hd)⟩
    simp [staged]
  have hpair := (hcut hds).symm.trans (h ▸ hcut hds')
  have hreversed := (Prod.mk.inj (Option.some.inj hpair)).2
  exact (List.cons.inj (List.reverse_injective hreversed)).2

inductive IsTag : Text → Prop
  | save : IsTag saveStagingTag
  | commit : IsTag commitStagingTag

/-- The tag's fourth character from the end is the dot before it, or its own dash. -/
theorem file_of_tagged {file' tag' : Text} (ht : IsTag tag) (ht' : IsTag tag')
    (h : file ++ '.' :: tag = file' ++ '.' :: tag') : file = file' := by
  have hdash : ∀ a b : Text, a ++ '.' :: saveStagingTag ≠ b ++ '.' :: commitStagingTag := by
    intro a b heq
    have hend : b ++ '.' :: commitStagingTag = b ++ ".commit".toList ++ "-tmp".toList := by
      rw [List.append_assoc]
      rfl
    exact absurd (List.append_inj' (heq.trans hend) rfl).2 (by decide)
  cases ht <;> cases ht'
  · exact (List.append_inj' h rfl).1
  · exact absurd h (hdash _ _)
  · exact absurd h.symm (hdash _ _)
  · exact (List.append_inj' h rfl).1

/-- The store or the journal of the account. -/
inductive FileOf (u : AccountName) : Text → Prop
  | store : FileOf u (u.1 ++ ".json")
  | journal : FileOf u (intentPathFor (u.1 ++ ".json"))

theorem getLast?_json (a : Text) : (a ++ ".json".toList).getLast? = some 'n' := by
  rw [List.getLast?_append]
  rfl

theorem getLast?_intentPathFor (a : Text) : (intentPathFor a).getLast? = some 't' := by
  rw [intentPathFor, List.getLast?_append]
  rfl

/-- A staging name ends in a digit, a store and a journal do not. -/
theorem staged_ne_file {f ds : Text} (hf : FileOf u f) (hne : ds ≠ []) (hds : ∀ c ∈ ds, c.isDigit = true) :
    f ≠ staged file tag ds := by
  intro heq
  have hlast : f.getLast? = some (ds.getLast hne) := by
    rw [heq, staged, List.getLast?_append, List.getLast?_eq_some_getLast hne, Option.some_or]
  have hdigit := hds _ (List.getLast_mem hne)
  have hletter : f.getLast? = some 'n' ∨ f.getLast? = some 't' := by
    cases hf
    · exact .inl (getLast?_json _)
    · exact .inr (getLast?_intentPathFor _)
  rcases hletter with h | h <;> rw [← Option.some.inj (h.symm.trans hlast)] at hdigit <;>
    exact absurd hdigit (by decide)

theorem account_of_file {f : Text} (hu : FileOf u f) (hv : FileOf v f) : u = v := by
  have hends : ∀ a b : Text, a ++ ".json".toList ≠ intentPathFor b := by
    intro a b h
    cases (getLast?_json a).symm.trans (h ▸ getLast?_intentPathFor b)
  have hstore : ∀ {a b : AccountName}, a.1 ++ ".json".toList = b.1 ++ ".json".toList → a = b :=
    fun h => Subtype.ext (List.append_cancel_right h)
  cases hu with
  | store =>
    generalize hf : u.1 ++ ".json".toList = f at hv
    cases hv with
    | store => exact hstore hf
    | journal => exact absurd hf (hends _ _)
  | journal =>
    generalize hf : intentPathFor (u.1 ++ ".json".toList) = f at hv
    cases hv with
    | store => exact absurd hf.symm (hends _ _)
    | journal => exact hstore (List.append_cancel_right hf)

/-- **A staging name has one account.** -/
theorem staged_account {file' tag' ds ds' : Text} (hf : FileOf u file) (hf' : FileOf v file') (ht : IsTag tag)
    (ht' : IsTag tag') (hds : ∀ c ∈ ds, c.isDigit = true) (hds' : ∀ c ∈ ds', c.isDigit = true)
    (h : staged file tag ds = staged file' tag' ds') : u = v := by
  obtain rfl := file_of_tagged ht ht' (staged_cut hds hds' h)
  exact account_of_file hf hf'

theorem isStagingFileOf_iff :
    isStagingFileOf (secondaryStorePath s u) (bytes n) = true ↔
      ∃ file tag ds, (file = u.1 ++ ".json".toList ∧ IsTag tag ∨
        file = intentPathFor (u.1 ++ ".json") ∧ tag = commitStagingTag) ∧
        ds ≠ [] ∧ (∀ c ∈ ds, c.isDigit = true) ∧ n = staged file tag ds := by
  simp only [isStagingFileOf, ofBytes_bytes, fileName_secondaryStorePath, Bool.or_eq_true, stagedBy_iff]
  constructor
  · rintro ((⟨ds, h⟩ | ⟨ds, h⟩) | ⟨ds, h⟩)
    · exact ⟨_, _, ds, .inl ⟨rfl, .save⟩, h⟩
    · exact ⟨_, _, ds, .inl ⟨rfl, .commit⟩, h⟩
    · exact ⟨_, _, ds, .inr ⟨rfl, rfl⟩, h⟩
  · rintro ⟨_, _, ds, ⟨rfl, ht⟩ | ⟨rfl, rfl⟩, h⟩
    · cases ht
      · exact .inl (.inl ⟨ds, h⟩)
      · exact .inl (.inr ⟨ds, h⟩)
    · exact .inr ⟨ds, h⟩

/-! ## What a deletion leaves -/

/-- The names the account's writers stage at: `save_secondary` its store, a commit its store and its journal. -/
inductive StagedFor (u : AccountName) : Text → Prop
  | save (pid : Nat) : StagedFor u (stagingPath pid (u.1 ++ ".json") saveStagingTag)
  | commit (pid : Nat) : StagedFor u (stagingPath pid (u.1 ++ ".json") commitStagingTag)
  | journal (pid : Nat) : StagedFor u (stagingPath pid (intentPathFor (u.1 ++ ".json")) commitStagingTag)

theorem isStagingFileOf_of_stagedFor (h : StagedFor u n) :
    isStagingFileOf (secondaryStorePath s u) (bytes n) = true := by
  have hdigits := fun pid c => decimal_isDigit (n := pid) (c := c)
  refine isStagingFileOf_iff.2 ?_
  cases h with
  | save pid => exact ⟨_, _, _, .inl ⟨rfl, .save⟩, decimal_ne_nil pid, hdigits pid, rfl⟩
  | commit pid => exact ⟨_, _, _, .inl ⟨rfl, .commit⟩, decimal_ne_nil pid, hdigits pid, rfl⟩
  | journal pid => exact ⟨_, _, _, .inr ⟨rfl, rfl⟩, decimal_ne_nil pid, hdigits pid, rfl⟩

theorem account_of_isStagingFileOf (hf : FileOf v file) (ht : IsTag tag)
    (h : isStagingFileOf (secondaryStorePath s u) (bytes (stagingPath pid file tag)) = true) : u = v := by
  obtain ⟨file', tag', ds, hkind, -, hds, heq⟩ := isStagingFileOf_iff.1 h
  have hkind : FileOf u file' ∧ IsTag tag' := by
    rcases hkind with ⟨rfl, ht'⟩ | ⟨rfl, rfl⟩
    · exact ⟨.store, ht'⟩
    · exact ⟨.journal, .commit⟩
  exact (staged_account hf hkind.1 ht hkind.2 (fun _ => decimal_isDigit) hds heq).symm

/-- What is the account's own among the files of the accounts: its store, its journal and their staging files. -/
inductive Own (u : AccountName) : Text → Prop
  | file {f : Text} (h : FileOf u f) : Own u f
  | staged {f tag : Text} (pid : Nat) (hf : FileOf u f) (ht : IsTag tag) : Own u (stagingPath pid f tag)

variable {a : Answers} {name : Bytes} {paths : List Bytes} {dir : Listing}

/-- The loop takes nothing but its paths, and all of them when it comes to its end. -/
theorem removeEach_spec (a : Answers) (name : Bytes) (paths : List Bytes) (removed : Bool) (dir : Listing) :
    (name ∉ paths → (name ∈ (removeEach a paths removed dir).2.getD [] ↔ name ∈ dir.getD [])) ∧
      ((removeEach a paths removed dir).1.isOk = true → name ∈ paths →
        name ∉ (removeEach a paths removed dir).2.getD []) ∧
      (name ∉ dir.getD [] → name ∉ (removeEach a paths removed dir).2.getD []) := by
  induction paths generalizing removed dir with
  | nil => simp [removeEach]
  | cons path paths ih =>
    rw [removeEach]
    split
    · simp [Except.isOk, Except.toBool]
    split
    · have hfilter : name ∈ (dir.map (List.filter (· ≠ path))).getD [] ↔ name ∈ dir.getD [] ∧ name ≠ path := by
        cases dir <;> simp
      dsimp only
      split
      · obtain ⟨hkept, hgone, hnew⟩ := ih true (dir.map (List.filter (· ≠ path)))
        refine ⟨fun h => ?_, fun hok h => ?_, fun h => hnew fun hmem => h (hfilter.1 hmem).1⟩
        · rw [hkept fun hmem => h (List.mem_cons_of_mem _ hmem), hfilter]
          exact and_iff_left fun heq => h (heq ▸ List.mem_cons_self)
        · rcases List.mem_cons.1 h with rfl | h
          · exact hnew fun hmem => (hfilter.1 hmem).2 rfl
          · exact hgone hok h
      · refine ⟨fun h => ?_, fun hok => ?_, fun h hmem => h (hfilter.1 hmem).1⟩
        · rw [hfilter]
          exact and_iff_left fun heq => h (heq ▸ List.mem_cons_self)
        · cases hok
    · next hmissing =>
      obtain ⟨hkept, hgone, hnew⟩ := ih removed dir
      refine ⟨fun h => hkept fun hmem => h (List.mem_cons_of_mem _ hmem), fun hok h => ?_, hnew⟩
      rcases List.mem_cons.1 h with rfl | h
      · exact hnew (by simpa using hmissing)
      · exact hgone hok h

theorem mem_cameraStagingFiles {store : Text} {found : List Bytes} (h : cameraStagingFiles a store dir = .ok found) :
    name ∈ found ↔ name ∈ dir.getD [] ∧ isStagingFileOf store name = true := by
  cases dir with
  | none =>
    cases h
    simp
  | some entries =>
    rw [cameraStagingFiles] at h
    split at h
    · cases h
      simp
    · cases h

theorem syncWithout_dir (r : Except DeleteError Bool × Listing) : (syncWithout a r).2 = r.2 := by
  unfold syncWithout
  split
  · split <;> rfl
  · rfl

theorem isOk_of_syncWithout {r : Except DeleteError Bool × Listing} (h : (syncWithout a r).1.isOk = true) :
    r.1.isOk = true := by
  unfold syncWithout at h
  split at h
  · rfl
  · exact h

/-- The deletion touches only the account's two files and what its test takes for a staging file of the account. -/
theorem deleteCameraStoreUnlocked_spec (a : Answers) (s : Text) (u : AccountName) (name : Bytes) (dir : Listing) :
    ((deleteCameraStoreUnlocked a s u dir).1.isOk = true → isStagingFileOf (secondaryStorePath s u) name = true →
        name ∉ (deleteCameraStoreUnlocked a s u dir).2.getD []) ∧
      ((∀ f, FileOf u f → name ≠ bytes f) → isStagingFileOf (secondaryStorePath s u) name = false →
        (name ∈ (deleteCameraStoreUnlocked a s u dir).2.getD [] ↔ name ∈ dir.getD [])) := by
  rw [deleteCameraStoreUnlocked]
  cases hfound : cameraStagingFiles a (secondaryStorePath s u) dir with
  | error e => simp [Except.isOk, Except.toBool]
  | ok found =>
    have hmem : name ∈ found ↔ _ := mem_cameraStagingFiles hfound
    dsimp only
    rw [fileName_secondaryStorePath]
    obtain ⟨hkept, hgone, hnew⟩ := removeEach_spec a name
      ([bytes (intentPathFor (u.1 ++ ".json")), bytes (u.1 ++ ".json")] ++ found) false dir
    generalize removeEach a _ false dir = r at hkept hgone hnew ⊢
    rw [syncWithout_dir]
    refine ⟨fun hok hstaging => ?_, fun hfile hstaging => hkept fun hpath => ?_⟩
    · by_cases hin : name ∈ dir.getD []
      · exact hgone (isOk_of_syncWithout hok) (List.mem_append_right _ (hmem.2 ⟨hin, hstaging⟩))
      · exact hnew hin
    · rcases List.mem_append.1 hpath with hpath | hpath
      · rcases List.mem_pair.1 hpath with rfl | rfl
        · exact hfile _ .journal rfl
        · exact hfile _ .store rfl
      · exact Bool.false_ne_true (hstaging.symm.trans (hmem.1 hpath).2)

theorem not_mine {u v : AccountName} (hne : u ≠ v) (h : Own v n) :
    (∀ f, FileOf u f → bytes n ≠ bytes f) ∧ isStagingFileOf (secondaryStorePath s u) (bytes n) = false := by
  cases h with
  | file hf =>
    refine ⟨fun f hu heq => ?_, Bool.eq_false_iff.2 fun h => ?_⟩
    · exact hne (account_of_file hu (bytes_injective heq ▸ hf))
    · obtain ⟨_, _, ds, -, hds, hdigits, heq⟩ := isStagingFileOf_iff.1 h
      exact staged_ne_file hf hds hdigits heq
  | staged pid hf ht =>
    refine ⟨fun f hu heq => ?_, Bool.eq_false_iff.2 fun h => hne (account_of_isStagingFileOf hf ht h)⟩
    exact staged_ne_file hu (decimal_ne_nil pid) (fun _ => decimal_isDigit) (bytes_injective heq).symm

/-- **Staging files have one account.** The test takes each name the account's own writers stage at and none staged for
another account, so a deletion that ends well leaves no staging file of the account, and whatever its end it takes
neither a file nor a staging file of another. -/
theorem staging_exact (stateDir : Text) (u v : AccountName) :
    (∀ n, StagedFor u n → isStagingFileOf (secondaryStorePath stateDir u) (bytes n) = true) ∧
    (∀ file tag pid, FileOf v file → IsTag tag →
      isStagingFileOf (secondaryStorePath stateDir u) (bytes (stagingPath pid file tag)) = true → u = v) ∧
    ∀ a dir n, let after := deleteCameraStoreUnlocked a stateDir u dir
      (after.1.isOk = true → StagedFor u n → bytes n ∉ after.2.getD []) ∧
      (u ≠ v → Own v n → (bytes n ∈ after.2.getD [] ↔ bytes n ∈ dir.getD [])) := by
  refine ⟨fun n => isStagingFileOf_of_stagedFor, fun file tag pid => account_of_isStagingFileOf, fun a dir n => ?_⟩
  intro after
  obtain ⟨hgone, hkept⟩ := deleteCameraStoreUnlocked_spec a stateDir u (bytes n) dir
  refine ⟨fun hok hstaged => hgone hok (isStagingFileOf_of_stagedFor hstaged), fun hne hown => ?_⟩
  obtain ⟨hfile, hstaging⟩ := not_mine hne hown
  exact hkept hfile hstaging

end Irlume.Cameras

import Irlume.Config.KeyValues

/-!
# `cameras.conf`

The strict grammar of `cameras.conf`: eight selection keys, each on at most one line, with values that read back
as one line. Three of the keys name the split-authorization generation in use; they come together, and a
malformed one refuses the operation rather than reading as absent.
-/

namespace Irlume.Config

open Irlume.Lib
open Irlume.Split (breaksALine SplitPairKey)

/-- The keys the strict grammar governs. -/
inductive SelectionKey where
  | rgb
  | ir
  | rgbId
  | irId
  | mode
  | splitGeneration
  | splitDigest
  | splitPair
  deriving DecidableEq

def SelectionKey.name : SelectionKey → Text
  | .rgb => "rgb"
  | .ir => "ir"
  | .rgbId => "rgb_id"
  | .irId => "ir_id"
  | .mode => "mode"
  | .splitGeneration => "split_generation"
  | .splitDigest => "split_digest"
  | .splitPair => "split_pair"

def cameraSelectionKeys : List SelectionKey :=
  [.rgb, .ir, .rgbId, .irId, .mode, .splitGeneration, .splitDigest, .splitPair]

def splitKeys : List SelectionKey := [.splitGeneration, .splitDigest, .splitPair]

structure PinnedPair where
  rgb : Text
  ir : Text
  rgbId : Option Text
  irId : Option Text
  deriving DecidableEq

inductive CameraConfProblem where
  | duplicateKey (key : SelectionKey)
  | unsafeValue (key : SelectionKey)
  | invalidMode
  | pinnedWithoutPair
  | invalidSplitKeys
  deriving DecidableEq

inductive CameraSelectionObservation where
  | fresh
  | pinned (pair : PinnedPair) (explicit : Bool)
  | automatic (retained : Option PinnedPair)
  | unreadable (error : IoError)
  | malformed (line : Nat) (problem : CameraConfProblem)
  deriving DecidableEq

inductive IgnoredLineReason where
  | noSeparator
  | unknownKey

structure IgnoredLine where
  line : Nat
  reason : IgnoredLineReason

/-- What the split-selection keys establish. -/
inductive SplitConfObservation where
  | none
  | reference (generation : Nat) (digest : Text) (pair : Option Text)
  | malformed
  | malformedSelection (generation : Nat) (digest : Text)
  deriving DecidableEq

structure CameraConfObservation where
  selection : CameraSelectionObservation
  split : SplitConfObservation
  ignored : List IgnoredLine

/-! ## The grammar -/

def isLegacyCaptureModeKey (key : Text) : Bool :=
  startsWith key "capture_mode." || startsWith key "capture_mode_origin."

/-- A decimal `u64` of at least 1 without leading zeros. -/
def isCanonicalGeneration (text : Text) : Bool :=
  canonicalDecimal text && decimalValue text < 2 ^ 64 && 1 ≤ decimalValue text

def isLowerHex (c : Char) : Bool := ('0' ≤ c && c ≤ '9') || ('a' ≤ c && c ≤ 'f')

/-- `sha256:` plus 64 lowercase hex digits. -/
def isCanonicalDigest (text : Text) : Bool :=
  (afterStart text "sha256:").any fun hex => byteLength hex = 64 && hex.all isLowerHex

/-- First occurrence of each key with its line, the first problem, and every skipped line. -/
structure Scan where
  seen : SelectionKey → Option (Nat × Text) := fun _ => none
  problem : Option (Nat × CameraConfProblem) := none
  ignored : List IgnoredLine := []

/-- The value of a selection line is unsafe. The value as written is looked at too: trimming would
take a separator off its ends. -/
def unsafeValue (raw value : Text) : Bool :=
  !configValueIsSerializable value ||
    (((splitOnceAt '=' raw).map Prod.snd).getD []).any fun c => c ≠ '\t' && breaksALine c

def invalidMode (key : SelectionKey) (value : Text) : Bool :=
  key = .mode && !(value = "automatic".toList || value = "pinned".toList)

def Scan.record (s : Scan) (number : Nat) (raw : Text) (key : SelectionKey) (value : Text) : Scan :=
  let found : Option CameraConfProblem :=
    if (s.seen key).isSome then some (.duplicateKey key)
    else if unsafeValue raw value then some (.unsafeValue key)
    else if invalidMode key value then some .invalidMode
    else none
  { s with
    seen := if (s.seen key).isSome then s.seen else Function.update s.seen key (some (number, value))
    problem := s.problem.or (found.map fun p => (number, p)) }

def Scan.ignore (s : Scan) (number : Nat) (reason : IgnoredLineReason) : Scan :=
  { s with ignored := s.ignored ++ [⟨number, reason⟩] }

def scanLine (s : Scan) (raw : Text) (number : Nat) : Scan :=
  if trim raw = [] ∨ (trim raw).head? = some '#' then s
  else
    match splitOnceAt '=' (trim raw) with
    | none => s.ignore number .noSeparator
    | some (k, v) =>
      if isLegacyCaptureModeKey (trim k) then s
      else
        match cameraSelectionKeys.find? fun key => key.name = trim k with
        | none => s.ignore number .unknownKey
        | some key => s.record number raw key (trim v)

def scan (s : Scan) (ls : List Text) (n : Nat) : Scan :=
  (ls.zipIdx n).foldl (fun s (raw, number) => scanLine s raw (number + 1)) s

def Scan.value (s : Scan) (key : SelectionKey) : Option Text :=
  ((s.seen key).map Prod.snd).filter (· ≠ [])

def Scan.pair (s : Scan) : Option PinnedPair :=
  match s.value .rgb, s.value .ir with
  | some rgb, some ir => some { rgb, ir, rgbId := s.value .rgbId, irId := s.value .irId }
  | _, _ => none

def Scan.selection (s : Scan) : CameraSelectionObservation :=
  match s.seen .mode, s.pair with
  | none, some pair => .pinned pair false
  | none, none => .fresh
  | some (line, mode), pair =>
    if mode = "automatic".toList then .automatic pair
    else
      match pair with
      | some pair => .pinned pair true
      | none => .malformed line .pinnedWithoutPair

def splitOf (generation digest pair : Option Text) : SplitConfObservation :=
  if generation = none ∧ digest = none ∧ pair = none then .none
  else
    let validGeneration := generation.any isCanonicalGeneration
    let validDigest := digest.any isCanonicalDigest
    let validPair := pair.all fun v => (SplitPairKey.parseCanonical v).toBool
    let number := (generation.map decimalValue).getD 0
    if validGeneration && validDigest then
      if validPair then .reference number (digest.getD []) pair
      else .malformedSelection number (digest.getD [])
    else .malformed

def Scan.split (s : Scan) : SplitConfObservation :=
  splitOf ((s.seen .splitGeneration).map Prod.snd) ((s.seen .splitDigest).map Prod.snd)
    ((s.seen .splitPair).map Prod.snd)

def Scan.splitLine (s : Scan) : Nat :=
  ((splitKeys.filterMap fun key => (s.seen key).map Prod.fst).min?).getD 1

def parseCameraConf (text : Text) : CameraConfObservation :=
  let s := scan {} (lines text) 0
  match s.problem with
  | some (line, problem) =>
    -- a malformed file that carries split keys never reads as one without them
    { selection := .malformed line problem
      split := if splitKeys.any fun key => (s.seen key).isSome then .malformed else .none
      ignored := s.ignored }
  | none =>
    match s.split with
    | .none => { selection := s.selection, split := .none, ignored := s.ignored }
    | .reference generation digest pair =>
      { selection := s.selection, split := .reference generation digest pair, ignored := s.ignored }
    | split =>
      { selection := .malformed s.splitLine .invalidSplitKeys, split := split, ignored := s.ignored }

/-- One read of `cameras.conf`, classified. -/
def observeCameraConf (read : Except IoError Text) (nameExists : Bool) : CameraConfObservation :=
  match read with
  | .ok text => parseCameraConf text
  | .error e =>
    if e.kind = .notFound ∧ nameExists = false then { selection := .fresh, split := .none, ignored := [] }
    else { selection := .unreadable e, split := .none, ignored := [] }

/-! ## A file without a problem -/

/-- The value of a `key=value` line. -/
def lineValue (raw : Text) : Text := ((splitOnceAt '=' (trim raw)).map fun e => trim e.2).getD []

theorem find?_name (key : SelectionKey) :
    (cameraSelectionKeys.find? fun k => k.name = key.name) = some key := by
  cases key <;> decide

theorem not_legacy (key : SelectionKey) : isLegacyCaptureModeKey key.name = false := by
  cases key <;> decide

theorem name_injective {key key' : SelectionKey} (h : key.name = key'.name) : key = key' := by
  have hfind := find?_name key
  rw [h, find?_name key'] at hfind
  exact (Option.some.inj hfind).symm

theorem lineKey_eq_some_iff {raw key : Text} :
    lineKey raw = some key ↔ (trim raw).head? ≠ some '#' ∧
      ∃ k v, splitOnceAt '=' (trim raw) = some (k, v) ∧ trim k = key := by
  unfold lineKey
  split
  · next h => simp [h]
  · next h => simp [h]

variable {key : SelectionKey}

variable {raw : Text}

theorem scanLine_key (h : lineKey raw = some key.name) (s : Scan)
    (n : Nat) : scanLine s raw n = s.record n raw key (lineValue raw) := by
  obtain ⟨hhash, k, v, hsplit, hkey⟩ := lineKey_eq_some_iff.1 h
  have hne : trim raw ≠ [] := by
    intro hnil
    rw [hnil] at hsplit
    cases hsplit
  have hskip : ¬(trim raw = [] ∨ (trim raw).head? = some '#') := by simp [hne, hhash]
  unfold scanLine
  rw [if_neg hskip]
  simp only [hsplit, hkey, not_legacy, find?_name, lineValue, Option.map_some, Option.getD_some,
    Bool.false_eq_true, if_false]

theorem scanLine_other (h : ∀ key : SelectionKey, lineKey raw ≠ some key.name) (s : Scan)
    (n : Nat) : ∃ ignored, scanLine s raw n = { s with ignored } := by
  unfold scanLine
  split
  · exact ⟨_, rfl⟩
  · next hskip =>
    split
    · exact ⟨_, rfl⟩
    · next k v hsplit =>
      split
      · exact ⟨_, rfl⟩
      · split
        · exact ⟨_, rfl⟩
        · next key hfind =>
          have hname := List.find?_some hfind
          refine absurd (lineKey_eq_some_iff.2 ⟨?_, k, v, hsplit, (of_decide_eq_true hname).symm⟩) (h key)
          exact fun hhash => hskip (.inr hhash)

theorem scan_concat (s : Scan) (ls : List Text) (l : Text) (n : Nat) :
    scan s (ls ++ [l]) n = scanLine (scan s ls n) l (n + ls.length + 1) := by
  simp [scan, List.zipIdx_append]

def Fits (key : SelectionKey) (raw : Text) : Prop :=
  unsafeValue raw (lineValue raw) = false ∧ invalidMode key (lineValue raw) = false

/-- A key is on at most one line, with a value the grammar takes. -/
def Clean (key : SelectionKey) (ls : List Text) : Prop :=
  linesOf key.name ls = [] ∨ ∃ l, linesOf key.name ls = [l] ∧ Fits key l

theorem linesOf_concat_other {key l : Text} (h : lineKey l ≠ some key) (ls : List Text) :
    linesOf key (ls ++ [l]) = linesOf key ls := by
  simp [linesOf, List.filter_append, h]

theorem linesOf_concat_key {key l : Text} (h : lineKey l = some key) (ls : List Text) :
    linesOf key (ls ++ [l]) = linesOf key ls ++ [l] := by
  simp [linesOf, List.filter_append, h]

theorem scan_seen (ls : List Text) (key : SelectionKey) :
    ((scan {} ls 0).seen key).map Prod.snd = (linesOf key.name ls).head?.map lineValue := by
  induction ls using List.reverseRecOn with
  | nil => rfl
  | append_singleton ls l ih =>
    rw [scan_concat]
    by_cases hother : ∀ k : SelectionKey, lineKey l ≠ some k.name
    · obtain ⟨ignored, heq⟩ := scanLine_other hother (scan {} ls 0) (0 + ls.length + 1)
      rw [heq, linesOf_concat_other (hother key), ← ih]
    · obtain ⟨k, hk⟩ := not_forall_not.1 hother
      rw [scanLine_key hk]
      by_cases hown : key = k
      · subst hown
        rw [linesOf_concat_key hk]
        cases hseen : (scan {} ls 0).seen key with
        | none =>
          have hnone : linesOf key.name ls = [] := by
            rw [hseen, Option.map_none, eq_comm, Option.map_eq_none_iff, List.head?_eq_none_iff] at ih
            exact ih
          simp [Scan.record, hseen, hnone]
        | some v =>
          have hne : linesOf key.name ls ≠ [] := by
            intro hnil
            simp [hseen, hnil] at ih
          simp only [Scan.record, hseen, Option.isSome_some, if_true]
          rw [← hseen, ih, List.head?_append_of_ne_nil _ hne]
      · have hline : lineKey l ≠ some key.name := by
          rw [hk]
          exact fun heq => hown (name_injective (Option.some.inj heq)).symm
        rw [linesOf_concat_other hline, ← ih]
        congr 1
        simp only [Scan.record]
        split
        · rfl
        · exact Function.update_of_ne hown _ _

/-- A file has no problem exactly where it is what its keys are set to. -/
theorem scan_clean_iff (ls : List Text) :
    (scan {} ls 0).problem = none ↔ ∀ key, Clean key ls := by
  induction ls using List.reverseRecOn with
  | nil => simp [scan, Clean, linesOf]
  | append_singleton ls l ih =>
    rw [scan_concat]
    by_cases hother : ∀ k : SelectionKey, lineKey l ≠ some k.name
    · obtain ⟨ignored, heq⟩ := scanLine_other hother (scan {} ls 0) (0 + ls.length + 1)
      rw [heq]
      simp only [Clean, linesOf_concat_other (hother _)]
      exact ih
    · obtain ⟨k, hk⟩ := not_forall_not.1 hother
      have hrest : ∀ key, key ≠ k → (Clean key (ls ++ [l]) ↔ Clean key ls) := by
        intro key hne
        have hline : lineKey l ≠ some key.name := by
          rw [hk]
          exact fun heq => hne (name_injective (Option.some.inj heq)).symm
        simp only [Clean, linesOf_concat_other hline]
      have hown : Clean k (ls ++ [l]) ↔ linesOf k.name ls = [] ∧ Fits k l := by
        simp [Clean, linesOf_concat_key hk, List.append_eq_singleton_iff]
      have hfresh : (scan {} ls 0).seen k = none ↔ linesOf k.name ls = [] := by
        have hseen := scan_seen ls k
        rw [← Option.map_eq_none_iff, hseen, Option.map_eq_none_iff, List.head?_eq_none_iff]
      rw [scanLine_key hk]
      have hproblem : ((scan {} ls 0).record (0 + ls.length + 1) l k (lineValue l)).problem = none ↔
          (scan {} ls 0).problem = none ∧ (scan {} ls 0).seen k = none ∧ Fits k l := by
        unfold Scan.record Fits
        rw [Option.or_eq_none_iff]
        apply and_congr_right
        intro _
        cases (scan {} ls 0).seen k with
        | some v => simp
        | none =>
          by_cases hrisk : unsafeValue l (lineValue l) = true <;>
            by_cases hmode : invalidMode k (lineValue l) = true <;> simp [hrisk, hmode]
      rw [hproblem, ih, hfresh, ← hown]
      constructor
      · intro h key
        by_cases hkey : key = k
        · exact hkey ▸ h.2
        · exact (hrest key hkey).2 (h.1 key)
      · intro h
        refine ⟨fun key => ?_, h k⟩
        by_cases hkey : key = k
        · subst hkey
          exact .inl (hown.1 (h key)).1
        · exact (hrest key hkey).1 (h key)

/-! ## Reading back what was published -/

def CameraSelectionObservation.isMalformed : CameraSelectionObservation → Bool
  | .malformed _ _ => true
  | _ => false

/-- What a file establishes that has neither a line problem nor malformed split keys. -/
structure WellFormed (text : Text) : Prop where
  clean : ∀ key, Clean key (lines text)
  selection : (scan {} (lines text) 0).selection.isMalformed = false
  split : (scan {} (lines text) 0).split = .none ∨
    ∃ generation digest pair, (scan {} (lines text) 0).split = .reference generation digest pair

theorem WellFormed.parse {text : Text} (h : WellFormed text) :
    parseCameraConf text = { selection := (scan {} (lines text) 0).selection
                             split := (scan {} (lines text) 0).split
                             ignored := (scan {} (lines text) 0).ignored } := by
  have hproblem := (scan_clean_iff _).2 h.clean
  unfold parseCameraConf
  rcases h.split with hsplit | ⟨generation, digest, pair, hsplit⟩ <;> simp only [hproblem, hsplit]

theorem wellFormed_of_parse {text : Text} (h : (parseCameraConf text).selection.isMalformed = false) :
    WellFormed text := by
  unfold parseCameraConf at h
  cases hproblem : (scan {} (lines text) 0).problem with
  | some p =>
    simp only [hproblem] at h
    cases h
  | none =>
    have hclean := (scan_clean_iff _).1 hproblem
    cases hsplit : (scan {} (lines text) 0).split with
    | none =>
      simp only [hproblem, hsplit] at h
      exact ⟨hclean, h, .inl hsplit⟩
    | reference generation digest pair =>
      simp only [hproblem, hsplit] at h
      exact ⟨hclean, h, .inr ⟨_, _, _, hsplit⟩⟩
    | malformed =>
      simp only [hproblem, hsplit] at h
      cases h
    | malformedSelection generation digest =>
      simp only [hproblem, hsplit] at h
      cases h

theorem lineKey_stripCr (l : Text) : lineKey (stripCr l) = lineKey l := by
  rw [lineKey, lineKey, trim_stripCr]

theorem linesOf_map_stripCr (key : Text) (ls : List Text) :
    linesOf key (ls.map stripCr) = (linesOf key ls).map stripCr := by
  rw [linesOf, linesOf, List.filter_map]
  congr 1
  apply List.filter_congr
  intro l _
  rw [Function.comp_apply, lineKey_stripCr]

theorem Fits.stripCr_eq (h : Fits key raw) {k : Text}
    (hkey : lineKey raw = some k) : stripCr raw = raw := by
  rcases stripCr_cases raw with heq | heq
  · exact heq
  · exfalso
    obtain ⟨-, k', v', hsplit, -⟩ := lineKey_eq_some_iff.1 hkey
    have hmem : '=' ∈ stripCr raw := by
      have hmem : '=' ∈ trim (stripCr raw) := by
        rw [trim_stripCr, (splitOnceAt_eq_some_iff.1 hsplit).1]
        simp
      exact (List.dropWhile_suffix _).subset ((List.rdropWhile_prefix _ _).subset hmem)
    obtain ⟨a, b, hab, ha⟩ := List.eq_append_cons_of_mem hmem
    have hwritten : splitOnceAt '=' raw = some (a, b ++ ['\r']) := by
      apply splitOnceAt_eq_some_iff.2
      rw [heq, hab]
      simp [ha]
    have hsafe := h.1
    simp only [unsafeValue, hwritten, Option.map_some, Option.getD_some, Bool.or_eq_false_iff] at hsafe
    have hcr := List.any_eq_false.1 hsafe.2 '\r' (by simp)
    exact hcr (by decide)

theorem Clean.linesOf_stripCr {ls : List Text} (h : Clean key ls) :
    linesOf key.name (ls.map stripCr) = linesOf key.name ls := by
  rw [linesOf_map_stripCr]
  rcases h with h | ⟨l, h, hfits⟩
  · rw [h]
    rfl
  · have hkey : lineKey l = some key.name := by
      have hmem : l ∈ linesOf key.name ls := h ▸ List.mem_singleton_self l
      simpa using (List.mem_filter.1 hmem).2
    rw [h, List.map_singleton, hfits.stripCr_eq hkey]

theorem lineValue_keyValueLine {key value : Text} (hkey : configKeyIsSerializable key = true)
    (hvalue : trim value = value) : lineValue (keyValueLine key value) = value := by
  rw [lineValue, trim_keyValueLine hkey hvalue, splitOnceAt_keyValueLine hkey, Option.map_some,
    hvalue, Option.getD_some]

theorem fits_keyValueLine {value : Text} (hmode : key ≠ .mode)
    (hkey : configKeyIsSerializable key.name = true)
    (hvalue : configValueIsSerializable value = true) : Fits key (keyValueLine key.name value) := by
  obtain ⟨-, htrim, hplain⟩ := configValueIsSerializable_iff.1 hvalue
  rw [Fits, lineValue_keyValueLine hkey htrim]
  refine ⟨?_, by simp [invalidMode, hmode]⟩
  rw [unsafeValue, splitOnceAt_keyValueLine hkey, hvalue]
  simp only [Bool.not_true, Option.map_some, Option.getD_some, Bool.false_or]
  apply List.any_eq_false.2
  intro c hc
  simp [hplain c hc]

section Published

variable {existing : Text} {set : List (Text × Text)} {remove : List Text}

def valueAfter (existing : Text) (set : List (Text × Text)) (remove : List Text) (key : SelectionKey) :
    Option Text :=
  match setPlace set key.name with
  | some (u, _) => some u.2
  | none =>
    if key.name ∈ remove then none else ((scan {} (lines existing) 0).seen key).map Prod.snd

theorem not_newline_changedLines
    (hset : ∀ u ∈ set, configKeyIsSerializable u.1 = true ∧ configValueIsSerializable u.2 = true) :
    ∀ l ∈ changedLines set remove [] (lines existing), '\n' ∉ l := by
  apply changedLines_forall
  · intro u hu
    exact fun hn => absurd (keyValueLine_unbroken (hset u hu).1 (hset u hu).2 _ hn) (by decide)
  · intro l hl
    exact not_mem_of_mem_lines hl

theorem lines_applyKvChanges
    (hset : ∀ u ∈ set, configKeyIsSerializable u.1 = true ∧ configValueIsSerializable u.2 = true) :
    lines (applyKvChanges existing set remove) = (changedLines set remove [] (lines existing)).map stripCr :=
  lines_flatMap_newline (not_newline_changedLines hset)

theorem scan_applyKvChanges (hold : ∀ key, Clean key (lines existing))
    (hset : ∀ u ∈ set, configKeyIsSerializable u.1 = true ∧ configValueIsSerializable u.2 = true)
    (hnodup : (set.map Prod.fst).Nodup) (hmode : SelectionKey.mode.name ∉ set.map Prod.fst) :
    (∀ key, Clean key (lines (applyKvChanges existing set remove))) ∧
      ∀ key, ((scan {} (lines (applyKvChanges existing set remove)) 0).seen key).map Prod.snd =
        valueAfter existing set remove key := by
  have hlines := @lines_applyKvChanges existing set remove hset
  have hclean : ∀ key, Clean key (changedLines set remove [] (lines existing)) := by
    intro key
    rw [Clean, linesOf_changedLines hset hnodup, linesAfter]
    split
    · next u idx hplace =>
      obtain ⟨hname, hmem⟩ := setPlace_some hplace
      have hu := List.fst_mem_of_mem_zipIdx hmem
      have hne : key ≠ .mode := by
        intro heq
        rw [heq] at hname
        apply hmode
        rw [← hname]
        exact List.mem_map_of_mem hu
      obtain ⟨hkey, hvalue⟩ := hset u hu
      right
      refine ⟨_, rfl, ?_⟩
      rw [hname] at hkey ⊢
      exact fits_keyValueLine hne hkey hvalue
    · split
      · exact .inl rfl
      · exact hold key
  have hof : ∀ key : SelectionKey, linesOf key.name (lines (applyKvChanges existing set remove)) =
      linesAfter set remove [] (lines existing) key.name := by
    intro key
    rw [hlines, (hclean key).linesOf_stripCr, linesOf_changedLines hset hnodup]
  constructor
  · intro key
    have hkey := hclean key
    rw [Clean, linesOf_changedLines hset hnodup] at hkey
    rwa [Clean, hof]
  · intro key
    rw [scan_seen, hof, linesAfter, valueAfter]
    cases hplace : setPlace set key.name with
    | some e =>
      obtain ⟨hname, hmem⟩ := setPlace_some hplace
      obtain ⟨hkey, hvalue⟩ := hset _ (List.fst_mem_of_mem_zipIdx hmem)
      simp [lineValue_keyValueLine hkey (configValueIsSerializable_iff.1 hvalue).2.1]
    | none =>
      by_cases hremove : key.name ∈ remove
      · simp [hremove]
      · simp only [if_neg hremove, scan_seen]

theorem Scan.selection_congr {s s' : Scan}
    (h : ∀ key ∉ splitKeys, (s'.seen key).map Prod.snd = (s.seen key).map Prod.snd)
    (hs : s.selection.isMalformed = false) : s'.selection = s.selection := by
  have hvalue : ∀ key ∉ splitKeys, s'.value key = s.value key := by
    intro key hkey
    rw [Scan.value, Scan.value, h key hkey]
  have hpair : s'.pair = s.pair := by
    rw [Scan.pair, Scan.pair, hvalue .rgb (by decide), hvalue .ir (by decide), hvalue .rgbId (by decide),
      hvalue .irId (by decide)]
  have hmode := h .mode (by decide)
  unfold Scan.selection at hs ⊢
  rw [hpair]
  cases hs' : s'.seen .mode with
  | none =>
    rw [hs', Option.map_none, eq_comm, Option.map_eq_none_iff] at hmode
    rw [hmode]
  | some m' =>
    obtain ⟨m, hm, hvalue⟩ := Option.map_eq_some_iff.1 (hmode.symm.trans (by rw [hs', Option.map_some]))
    rw [hm] at hs ⊢
    obtain ⟨line, mode⟩ := m
    obtain ⟨line', mode'⟩ := m'
    obtain rfl : mode = mode' := hvalue
    cases hp : s.pair with
    | some pair => rfl
    | none =>
      rw [hp] at hs
      by_cases hauto : mode = "automatic".toList
      · simp only [if_pos hauto]
      · simp only [if_neg hauto] at hs
        cases hs

/-- **A writer of the split keys** leaves the ordinary selection as it was, and is read back with the reference
it wrote. -/
theorem parse_splitChanges (hold : WellFormed existing)
    (hset : ∀ u ∈ set, configKeyIsSerializable u.1 = true ∧ configValueIsSerializable u.2 = true)
    (hnodup : (set.map Prod.fst).Nodup)
    (hother : ∀ key ∉ splitKeys, key.name ∉ set.map Prod.fst ∧ key.name ∉ remove)
    {split : SplitConfObservation}
    (hsplit : splitOf (valueAfter existing set remove .splitGeneration)
      (valueAfter existing set remove .splitDigest) (valueAfter existing set remove .splitPair) = split)
    (hok : split = .none ∨ ∃ generation digest pair, split = .reference generation digest pair) :
    WellFormed (applyKvChanges existing set remove) ∧
      (parseCameraConf (applyKvChanges existing set remove)).selection =
        (parseCameraConf existing).selection ∧
      (parseCameraConf (applyKvChanges existing set remove)).split = split := by
  obtain ⟨hclean, hseen⟩ :=
    @scan_applyKvChanges existing set remove hold.clean hset hnodup (hother .mode (by decide)).1
  have hselection : (scan {} (lines (applyKvChanges existing set remove)) 0).selection =
      (scan {} (lines existing) 0).selection := by
    apply Scan.selection_congr _ hold.selection
    intro key hkey
    obtain ⟨hnotSet, hnotRemoved⟩ := hother key hkey
    have hplace : setPlace set key.name = none := by
      apply Option.eq_none_iff_forall_ne_some.2
      intro e he
      obtain ⟨hname, hmem⟩ := setPlace_some he
      apply hnotSet
      rw [← hname]
      exact List.mem_map_of_mem (List.fst_mem_of_mem_zipIdx hmem)
    rw [hseen, valueAfter, hplace]
    simp only [if_neg hnotRemoved]
  have hnew : (scan {} (lines (applyKvChanges existing set remove)) 0).split = split := by
    rw [Scan.split, hseen, hseen, hseen, hsplit]
  have hwell : WellFormed (applyKvChanges existing set remove) :=
    ⟨hclean, by rw [hselection, hold.selection], by rwa [hnew]⟩
  refine ⟨hwell, ?_, ?_⟩
  · simp only [hwell.parse, hold.parse, hselection]
  · simp only [hwell.parse, hnew]

end Published

end Irlume.Config

import Irlume.Config.CameraConf
import Mathlib.Data.List.Nodup

/-!
# Reading a config file back

What the readers of a config file find in what a writer left.
-/

namespace Irlume.Config

open Irlume.Lib

/-! ## The readers -/

/-- How a key appears in one snapshot of a file. -/
inductive KvLine where
  | value (v : Text)
  | empty
  | absent

/-- `scan_kv` from a line on; `named` is whether a line above names the key. -/
def scanKvLines (key : Text) (named : Bool) : List Text → KvLine
  | [] => if named then .empty else .absent
  | raw :: rest =>
    if trim raw = [] ∨ (trim raw).head? = some '#' then scanKvLines key named rest
    else
      match splitOnceAt '=' (trim raw) with
      | some (k, v) =>
        if trim k = key then
          if trim v ≠ [] then .value (trim v) else scanKvLines key true rest
        else scanKvLines key named rest
      | none => scanKvLines key named rest

def scanKv (text key : Text) : KvLine := scanKvLines key false (lines text)

/-- What one read of a key established. -/
inductive KvObservation where
  | value (v : Text)
  | absent
  | unknown (error : IoError)
  deriving DecidableEq

def observeKv (read : Except IoError Text) (key : Text) : KvObservation :=
  match read with
  | .error e => if e.kind = .notFound then .absent else .unknown e
  | .ok text =>
    match scanKv text key with
    | .value v => .value v
    | .empty | .absent => .absent

/-- One line of `read_kvs`: its value goes to the place of its key, unless that has one. -/
def readKvLine (keys : List Text) (out : List (Option Text)) (raw : Text) : List (Option Text) :=
  if trim raw = [] ∨ (trim raw).head? = some '#' then out
  else
    match splitOnceAt '=' (trim raw) with
    | none => out
    | some (k, v) =>
      if trim v = [] then out
      else
        match keys.findIdx? fun want => want = trim k with
        | some idx => if out[idx]? = some none then out.set idx (some (trim v)) else out
        | none => out

def readKvs (read : Except IoError Text) (keys : List Text) : List (Option Text) :=
  match read with
  | .ok text => (lines text).foldl (readKvLine keys) (List.replicate keys.length none)
  | .error _ => List.replicate keys.length none

def applyKvUpdates (existing : Text) (updates : List (Text × Text)) : Text := applyKvChanges existing updates []

/-! ## What the readers look at -/

variable {key : Text} {keys : List Text}

def valuesOf (key : Text) (ls : List Text) : List Text := (linesOf key ls).map lineValue

def kvLineOf (vs : List Text) : KvLine :=
  match vs.find? (· ≠ []) with
  | some v => .value v
  | none => if vs = [] then .absent else .empty

def KvLine.found : KvLine → Option Text
  | .value v => some v
  | _ => none

variable {raw : Text}

theorem lineKey_of_skipped (h : trim raw = [] ∨ (trim raw).head? = some '#') :
    lineKey raw = none := by
  unfold lineKey
  rcases h with hnil | hhash
  · rw [hnil]
    rfl
  · rw [if_pos hhash]

theorem lineKey_of_split {raw k v : Text} (h : ¬ (trim raw = [] ∨ (trim raw).head? = some '#'))
    (hsplit : splitOnceAt '=' (trim raw) = some (k, v)) : lineKey raw = some (trim k) ∧ lineValue raw = trim v := by
  unfold lineKey lineValue
  rw [if_neg fun hhash => h (.inr hhash), hsplit]
  exact ⟨rfl, rfl⟩

theorem lineKey_of_unsplit (hsplit : splitOnceAt '=' (trim raw) = none) : lineKey raw = none := by
  unfold lineKey
  rw [hsplit]
  split <;> rfl

theorem scanKvLines_cons {named : Bool} {rest : List Text} : scanKvLines key named (raw :: rest) =
    if lineKey raw = some key then
      if lineValue raw ≠ [] then .value (lineValue raw) else scanKvLines key true rest
    else scanKvLines key named rest := by
  rw [scanKvLines]
  split
  · next hskip =>
    rw [lineKey_of_skipped hskip]
    simp
  · next hskip =>
    cases hsplit : splitOnceAt '=' (trim raw) with
    | none =>
      rw [lineKey_of_unsplit hsplit]
      simp
    | some e =>
      obtain ⟨k, v⟩ := e
      obtain ⟨hkey, hvalue⟩ := lineKey_of_split hskip hsplit
      rw [hkey, hvalue]
      simp

theorem scanKvLines_eq {named : Bool} {ls : List Text} : scanKvLines key named ls =
    match (valuesOf key ls).find? (· ≠ []) with
    | some v => .value v
    | none => if named = false ∧ valuesOf key ls = [] then .absent else .empty := by
  induction ls generalizing named with
  | nil => cases named <;> rfl
  | cons raw rest ih =>
    rw [scanKvLines_cons]
    unfold valuesOf
    rw [linesOf_cons]
    by_cases hkey : lineKey raw = some key
    · rw [if_pos hkey, if_pos hkey, List.map_cons, List.find?_cons]
      by_cases hvalue : lineValue raw = []
      · simp [hvalue, ih, valuesOf]
      · simp [hvalue]
    · rw [if_neg hkey, if_neg hkey, ih]
      rfl

/-- A reader finds a key at its first line with a value that is not empty. -/
theorem scanKv_eq (text : Text) : scanKv text key = kvLineOf (valuesOf key (lines text)) := by
  unfold scanKv kvLineOf
  rw [scanKvLines_eq]
  simp

/-! ## Several keys from one read -/

theorem readKvLine_eq {out : List (Option Text)} : readKvLine keys out raw =
    match lineKey raw with
    | none => out
    | some k =>
      if lineValue raw = [] then out
      else
        match keys.findIdx? fun want => want = k with
        | some idx => if out[idx]? = some none then out.set idx (some (lineValue raw)) else out
        | none => out := by
  unfold readKvLine
  split
  · next hskip => rw [lineKey_of_skipped hskip]
  · next hskip =>
    cases hsplit : splitOnceAt '=' (trim raw) with
    | none => rw [lineKey_of_unsplit hsplit]
    | some e =>
      obtain ⟨k, v⟩ := e
      obtain ⟨hkey, hvalue⟩ := lineKey_of_split hskip hsplit
      rw [hkey, hvalue]

theorem valuesOf_concat (ls : List Text) (raw : Text) :
    valuesOf key (ls ++ [raw]) = valuesOf key ls ++ if lineKey raw = some key then [lineValue raw] else [] := by
  unfold valuesOf
  rw [linesOf_append, List.map_append, linesOf_cons]
  split <;> rfl

theorem getElem?_of_findIdx? {k : Text} {idx : Nat} (h : keys.findIdx? (fun want => want = k) = some idx) :
    keys[idx]? = some k := by
  obtain ⟨hlt, hsame, -⟩ := List.findIdx?_eq_some_iff_getElem.1 h
  rw [List.getElem?_eq_getElem hlt, of_decide_eq_true hsame]

theorem getElem?_slots {ls : List Text} {i : Nat} (hi : keys[i]? = some key) :
    (ls.foldl (readKvLine keys) (List.replicate keys.length none))[i]? =
      some (if keys.findIdx? (fun want => want = key) = some i then (valuesOf key ls).find? (· ≠ []) else none) := by
  induction ls using List.reverseRecOn with
  | nil =>
    have hlt := (List.getElem?_eq_some_iff.1 hi).1
    rw [List.foldl_nil, List.getElem?_replicate, if_pos hlt]
    simp [valuesOf, linesOf]
  | append_singleton ls raw ih =>
    rw [List.foldl_append, List.foldl_cons, List.foldl_nil, readKvLine_eq, valuesOf_concat, List.find?_append]
    generalize ls.foldl (readKvLine keys) (List.replicate keys.length none) = out at ih ⊢
    cases hkey : lineKey raw with
    | none => simpa using ih
    | some k =>
      dsimp only
      by_cases hvalue : lineValue raw = []
      · have hnone : (if some k = some key then [lineValue raw] else []).find? (· ≠ []) = none := by
          split <;> simp [hvalue]
        rw [if_pos hvalue, ih, hnone, Option.or_none]
      · rw [if_neg hvalue]
        cases hfind : keys.findIdx? fun want => want = k with
        | none =>
          have hother : ¬ some k = some key := by
            intro heq
            obtain rfl := Option.some.inj heq
            exact absurd (List.findIdx?_eq_none_iff.1 hfind k (List.mem_of_getElem? hi)) (by simp)
          rw [ih, if_neg hother, List.find?_nil, Option.or_none]
        | some idx =>
          have hidx := getElem?_of_findIdx? hfind
          dsimp only
          by_cases hsame : idx = i
          · obtain rfl := hsame
            obtain rfl : k = key := Option.some.inj (hidx.symm.trans hi)
            have hlt := (List.getElem?_eq_some_iff.1 ih).1
            rw [if_pos hfind] at ih
            rw [if_pos hfind, if_pos rfl, ih]
            generalize (valuesOf k ls).find? (· ≠ []) = first at ih ⊢
            cases first with
            | none => simp [hlt, hvalue]
            | some v => simp [ih]
          · have hkept : (if out[idx]? = some none then out.set idx (some (lineValue raw)) else out)[i]? = out[i]? := by
              split
              · exact List.getElem?_set_ne hsame
              · rfl
            rw [hkept, ih]
            by_cases hplace : keys.findIdx? (fun want => want = key) = some i
            · have hother : ¬ some k = some key := by
                intro heq
                cases heq
                exact hsame (Option.some.inj (hfind.symm.trans hplace))
              rw [if_neg hother, List.find?_nil, Option.or_none]
            · rw [if_neg hplace, if_neg hplace]

theorem found_kvLineOf (vs : List Text) : (kvLineOf vs).found = vs.find? (· ≠ []) := by
  unfold kvLineOf
  cases vs.find? (· ≠ []) with
  | none => dsimp only; split <;> rfl
  | some v => rfl

def KvObservation.ofFound : Option Text → KvObservation
  | some v => .value v
  | none => .absent

theorem observeKv_eq (text : Text) : observeKv (.ok text) key = .ofFound (scanKv text key).found := by
  unfold observeKv
  dsimp only
  cases scanKv text key <;> rfl

/-- A key that is asked for twice is found at the first place only. -/
theorem getElem?_readKvs (text : Text) {i : Nat} (hi : keys[i]? = some key) :
    (readKvs (.ok text) keys)[i]? =
      some (if keys.findIdx? (fun want => want = key) = some i then (scanKv text key).found else none) := by
  unfold readKvs
  rw [scanKv_eq, found_kvLineOf]
  exact getElem?_slots hi

/-! ## After a write -/

section Written

variable {existing : Text} {set : List (Text × Text)} {remove : List Text}
  (hset : ∀ u ∈ set, configKeyIsSerializable u.1 = true ∧ configValueIsSerializable u.2 = true)
  (hnodup : (set.map Prod.fst).Nodup)

theorem lineValue_stripCr (l : Text) : lineValue (stripCr l) = lineValue l := by
  rw [lineValue, lineValue, trim_stripCr]

theorem valuesOf_map_stripCr (ls : List Text) : valuesOf key (ls.map stripCr) = valuesOf key ls := by
  unfold valuesOf
  rw [linesOf_map_stripCr, List.map_map]
  exact List.map_congr_left fun l _ => lineValue_stripCr l

theorem setPlace_eq_none_iff : setPlace set key = none ↔ key ∉ set.map Prod.fst := by
  unfold setPlace
  rw [List.find?_eq_none]
  constructor
  · intro h hmem
    obtain ⟨u, hu, rfl⟩ := List.mem_map.1 hmem
    obtain ⟨i, hi⟩ := List.mem_iff_getElem?.1 hu
    exact h (u, i) (List.mem_zipIdx_iff_getElem?.2 hi) (by simp)
  · intro h e he hsame
    apply h
    rw [← of_decide_eq_true hsame]
    exact List.mem_map_of_mem (List.fst_mem_of_mem_zipIdx he)

include hnodup in
theorem setPlace_of_mem {u : Text × Text} (hu : u ∈ set) : ∃ idx, setPlace set u.1 = some (u, idx) := by
  cases hplace : setPlace set u.1 with
  | none => exact absurd (List.mem_map_of_mem hu) (setPlace_eq_none_iff.1 hplace)
  | some e =>
    obtain ⟨⟨k, v⟩, idx⟩ := e
    obtain ⟨hkey, hmem⟩ := setPlace_some hplace
    have hsame : (k, v) = u := List.inj_on_of_nodup_map hnodup (List.fst_mem_of_mem_zipIdx hmem) hu hkey
    exact ⟨idx, by rw [hsame]⟩

include hset hnodup in
/-- A key that was set is on one line; of every other key that stays there are the lines there were, but for the
carriage return a line may end in, which no reader looks at. -/
theorem valuesOf_applyKvChanges : valuesOf key (lines (applyKvChanges existing set remove)) =
    match setPlace set key with
    | some (u, _) => [u.2]
    | none => if key ∈ remove then [] else valuesOf key (lines existing) := by
  rw [lines_applyKvChanges hset, valuesOf_map_stripCr]
  unfold valuesOf
  rw [linesOf_changedLines hset hnodup, linesAfter]
  cases hplace : setPlace set key with
  | none =>
    dsimp only
    split <;> rfl
  | some e =>
    obtain ⟨u, idx⟩ := e
    obtain ⟨-, hmem⟩ := setPlace_some hplace
    obtain ⟨hkey, hvalue⟩ := hset u (List.fst_mem_of_mem_zipIdx hmem)
    simp [lineValue_keyValueLine hkey (configValueIsSerializable_iff.1 hvalue).2.1]

/-! ## The lines that are kept -/

def keptLine (set : List (Text × Text)) (remove : List Text) (l : Text) : Bool :=
  match lineKey l with
  | none => true
  | some key => key ∉ set.map Prod.fst && key ∉ remove

theorem keptLine_of_key {l : Text} (h : lineKey l = some key) :
    keptLine set remove l = true ↔ key ∉ set.map Prod.fst ∧ key ∉ remove := by
  unfold keptLine
  rw [h]
  simp

theorem keptLine_of_none {l : Text} (h : lineKey l = none) : keptLine set remove l = true := by
  unfold keptLine
  rw [h]

include hset in
theorem not_keptLine_keyValueLine {u : Text × Text} (hu : u ∈ set) :
    ¬ keptLine set remove (keyValueLine u.1 u.2) = true := by
  obtain ⟨hkey, hvalue⟩ := hset u hu
  rw [keptLine_of_key (lineKey_keyValueLine hkey (configValueIsSerializable_iff.1 hvalue).2.1)]
  exact fun h => h.1 (List.mem_map_of_mem hu)

include hset in
theorem filter_changedLines (written : List Nat) (ls : List Text) :
    (changedLines set remove written ls).filter (keptLine set remove) = ls.filter (keptLine set remove) := by
  induction ls generalizing written with
  | nil =>
    rw [List.filter_nil, List.filter_eq_nil_iff]
    intro l hl
    obtain ⟨e, he, rfl⟩ := List.mem_map.1 hl
    exact not_keptLine_keyValueLine hset (List.fst_mem_of_mem_zipIdx (List.mem_filter.1 he).1)
  | cons line rest ih =>
    rw [changedLines]
    split
    · next hnone =>
      rw [List.filter_cons_of_pos (keptLine_of_none hnone), List.filter_cons_of_pos (keptLine_of_none hnone), ih]
    · next key hkey =>
      have hkept : keptLine set remove line = true ↔ key ∉ set.map Prod.fst ∧ key ∉ remove := keptLine_of_key hkey
      split
      · next hremove =>
        have hgone : ¬ keptLine set remove line = true := by
          rw [hkept]
          exact fun h => h.2 hremove
        rw [ih, List.filter_cons_of_neg hgone]
      · next hremove =>
        split
        · next hplace =>
          have hstays : keptLine set remove line = true := hkept.2 ⟨setPlace_eq_none_iff.1 hplace, hremove⟩
          rw [List.filter_cons_of_pos hstays, List.filter_cons_of_pos hstays, ih]
        · next k v idx hplace =>
          obtain ⟨rfl, hmem⟩ := setPlace_some hplace
          have hin := List.fst_mem_of_mem_zipIdx hmem
          have hgone : ¬ keptLine set remove line = true := by
            rw [hkept]
            exact fun h => h.1 (List.mem_map_of_mem hin)
          rw [List.filter_cons_of_neg hgone]
          split
          · exact ih _
          · rw [List.filter_cons_of_neg (not_keptLine_keyValueLine hset hin), ih]

/-! ## The same changes again -/

include hnodup in
theorem zipIdx_unique {u u' : Text × Text} {i j : Nat} (hi : (u, i) ∈ set.zipIdx) (hj : (u', j) ∈ set.zipIdx)
    (h : u.1 = u'.1) : i = j := by
  have hi := List.mem_zipIdx_iff_getElem?.1 hi
  have hj := List.mem_zipIdx_iff_getElem?.1 hj
  have hlt : i < (set.map Prod.fst).length := by
    rw [List.length_map]
    exact (List.getElem?_eq_some_iff.1 hi).1
  rw [← List.getElem?_inj hlt hnodup, List.getElem?_map, List.getElem?_map, hi, hj]
  exact congrArg some h

include hnodup in
theorem changedLines_fixed {ls : List Text} {written : List Nat}
    (hlines : ∀ u idx, (u, idx) ∈ set.zipIdx →
      linesOf u.1 ls = if idx ∈ written then [] else [keyValueLine u.1 u.2])
    (hremoved : ∀ l ∈ ls, ∀ key, lineKey l = some key → key ∉ remove) :
    changedLines set remove written ls = ls := by
  induction ls generalizing written with
  | nil =>
    rw [changedLines, List.map_eq_nil_iff, List.filter_eq_nil_iff]
    intro e he hout
    have hline := hlines e.1 e.2 he
    rw [if_neg (of_decide_eq_true hout)] at hline
    cases hline
  | cons line rest ih =>
    rw [List.forall_mem_cons] at hremoved
    have hother : (∀ u idx, (u, idx) ∈ set.zipIdx → lineKey line ≠ some u.1) →
        changedLines set remove written rest = rest := by
      intro hkeys
      refine ih (fun u idx hu => ?_) hremoved.2
      rw [← hlines u idx hu, linesOf_cons, if_neg (hkeys u idx hu)]
    rw [changedLines]
    split
    · next hnone =>
      rw [hother fun u idx _ => by simp [hnone]]
    · next key hkey =>
      rw [if_neg (hremoved.1 key hkey)]
      split
      · next hplace =>
        rw [hother]
        intro u idx hu hsame
        rw [hkey] at hsame
        cases hsame
        exact setPlace_eq_none_iff.1 hplace (List.mem_map_of_mem (List.fst_mem_of_mem_zipIdx hu))
      · next k v idx hplace =>
        obtain ⟨rfl, hmem⟩ := setPlace_some hplace
        have hown := hlines _ _ hmem
        rw [linesOf_cons, if_pos hkey] at hown
        by_cases hwritten : idx ∈ written
        · rw [if_pos hwritten] at hown
          cases hown
        · rw [if_neg hwritten] at hown ⊢
          obtain ⟨hline, hrest⟩ := List.cons.inj hown
          rw [← hline]
          congr 1
          refine ih (fun u' idx' hu' => ?_) hremoved.2
          by_cases hsame : u'.1 = k
          · obtain rfl := zipIdx_unique hnodup hu' hmem hsame
            rw [if_pos List.mem_cons_self, hsame]
            exact hrest
          · have hne : idx' ≠ idx := by
              rintro rfl
              have hget := List.mem_zipIdx_iff_getElem?.1 hu'
              rw [List.mem_zipIdx_iff_getElem?.1 hmem] at hget
              exact hsame (congrArg Prod.fst (Option.some.inj hget)).symm
            have hkeep : lineKey line ≠ some u'.1 := by
              rw [hkey]
              exact fun heq => hsame (Option.some.inj heq).symm
            have hlast := hlines u' idx' hu'
            rw [linesOf_cons, if_neg hkeep] at hlast
            simpa [hne] using hlast

theorem stripCr_keyValueLine {u : Text × Text} (hkey : configKeyIsSerializable u.1 = true)
    (hvalue : configValueIsSerializable u.2 = true) : stripCr (keyValueLine u.1 u.2) = keyValueLine u.1 u.2 :=
  stripCr_of_not_cr fun hcr =>
    absurd (keyValueLine_unbroken hkey hvalue _ (List.mem_of_getLast? hcr)) (by decide)

theorem flatMap_newline_inj {ls ms : List Text} (hl : ∀ l ∈ ls, '\n' ∉ l) (hm : ∀ l ∈ ms, '\n' ∉ l)
    (h : ls.flatMap (· ++ ['\n']) = ms.flatMap (· ++ ['\n'])) : ls = ms := by
  have hpieces : ∀ ls : List Text, (∀ l ∈ ls, '\n' ∉ l) →
      splitInclusive (ls.flatMap (· ++ ['\n'])) = ls.map (· ++ ['\n']) := by
    intro ls
    induction ls with
    | nil => exact fun _ => by decide
    | cons l ls ih =>
      intro hl
      rw [List.forall_mem_cons] at hl
      rw [List.flatMap_cons, List.append_assoc, List.singleton_append, splitInclusive_newline hl.1, ih hl.2, List.map_cons]
  have hmap := hpieces ls hl
  rw [h, hpieces ms hm] at hmap
  exact (List.map_injective_iff.2 (List.append_left_injective ['\n']) hmap).symm

variable (hdisjoint : ∀ key ∈ remove, key ∉ set.map Prod.fst)

include hset hnodup hdisjoint in
theorem changedLines_again : changedLines set remove [] (lines (applyKvChanges existing set remove)) =
    lines (applyKvChanges existing set remove) := by
  have hlines : ∀ key, linesOf key (lines (applyKvChanges existing set remove)) =
      (linesAfter set remove [] (lines existing) key).map stripCr := by
    intro key
    rw [lines_applyKvChanges hset, linesOf_map_stripCr, linesOf_changedLines hset hnodup]
  refine changedLines_fixed hnodup (fun u idx hu => ?_) fun l hl key hkey hremove => ?_
  · have hin := List.fst_mem_of_mem_zipIdx hu
    obtain ⟨idx', hplace⟩ := setPlace_of_mem hnodup hin
    rw [hlines, linesAfter, hplace]
    obtain ⟨hkey, hvalue⟩ := hset u hin
    simp [stripCr_keyValueLine hkey hvalue]
  · have hmem : l ∈ linesOf key (lines (applyKvChanges existing set remove)) := by
      exact List.mem_filter.2 ⟨hl, decide_eq_true hkey⟩
    rw [hlines, linesAfter, setPlace_eq_none_iff.2 (hdisjoint key hremove)] at hmem
    simp [hremove] at hmem

theorem map_stripCr_eq_iff {ls : List Text} : ls.map stripCr = ls ↔ ∀ l ∈ ls, stripCr l = l := by
  conv_lhs => rhs; rw [← List.map_id ls]
  exact List.map_inj_left

include hset hnodup hdisjoint in
theorem applyKvChanges_again_iff :
    applyKvChanges (applyKvChanges existing set remove) set remove = applyKvChanges existing set remove ↔
      ∀ l ∈ lines existing, keptLine set remove l = true → l.getLast? ≠ some '\r' := by
  have hfree := @not_newline_changedLines existing set remove hset
  have hstripped : ∀ l ∈ (changedLines set remove [] (lines existing)).map stripCr, '\n' ∉ l := by
    intro l hl hmem
    obtain ⟨l', hl', rfl⟩ := List.mem_map.1 hl
    exact hfree l' hl' (stripCr_subset l' hmem)
  have hagain : applyKvChanges (applyKvChanges existing set remove) set remove =
      ((changedLines set remove [] (lines existing)).map stripCr).flatMap (· ++ ['\n']) := by
    conv_lhs => unfold applyKvChanges
    rw [show (changedLines set remove [] (lines existing)).flatMap (· ++ ['\n']) =
      applyKvChanges existing set remove from rfl, changedLines_again hset hnodup hdisjoint, lines_applyKvChanges hset]
  rw [hagain]
  constructor
  · intro h l hl hkept hcr
    have hsame := flatMap_newline_inj hstripped hfree h
    have hmem : l ∈ changedLines set remove [] (lines existing) := by
      have hin := List.mem_filter.2 ⟨hl, hkept⟩
      rw [← filter_changedLines hset [] (lines existing)] at hin
      exact (List.mem_filter.1 hin).1
    have hstays : stripCr l = l := map_stripCr_eq_iff.1 hsame l hmem
    rw [stripCr, if_pos hcr] at hstays
    have hlength := congrArg List.length hstays
    rw [List.length_dropLast] at hlength
    have hpositive := List.length_pos_of_mem (List.mem_of_getLast? hcr)
    omega
  · intro h
    have hsame : (changedLines set remove [] (lines existing)).map stripCr =
        changedLines set remove [] (lines existing) := by
      refine map_stripCr_eq_iff.2 fun l hl => ?_
      by_cases hkept : keptLine set remove l = true
      · have hin := List.mem_filter.2 ⟨hl, hkept⟩
        rw [filter_changedLines hset] at hin
        exact stripCr_of_not_cr (h l (List.mem_filter.1 hin).1 hkept)
      · cases hkey : lineKey l with
        | none => exact absurd (keptLine_of_none hkey) hkept
        | some key =>
          have hmem : l ∈ linesOf key (changedLines set remove [] (lines existing)) :=
            List.mem_filter.2 ⟨hl, decide_eq_true hkey⟩
          rw [linesOf_changedLines hset hnodup, linesAfter] at hmem
          cases hplace : setPlace set key with
          | none =>
            rw [keptLine_of_key hkey, not_and, not_not] at hkept
            simp [hplace, hkept (setPlace_eq_none_iff.1 hplace)] at hmem
          | some e =>
            obtain ⟨u, idx⟩ := e
            obtain ⟨-, hzip⟩ := setPlace_some hplace
            obtain ⟨hk, hv⟩ := hset u (List.fst_mem_of_mem_zipIdx hzip)
            simp only [hplace, List.not_mem_nil, if_false, List.mem_singleton] at hmem
            rw [hmem, stripCr_keyValueLine hk hv]
    rw [hsame]
    rfl

end Written

structure Finds (text key : Text) (value : Option Text) : Prop where
  scan : (scanKv text key).found = value
  one : observeKv (.ok text) key = .ofFound value
  several : ∀ keys i, keys.findIdx? (fun want => want = key) = some i → (readKvs (.ok text) keys)[i]? = some value

theorem finds_of_valuesOf {text : Text} {vs : List Text} (h : valuesOf key (lines text) = vs) :
    Finds text key (vs.find? (· ≠ [])) := by
  have hscan : (scanKv text key).found = vs.find? (· ≠ []) := by rw [scanKv_eq, h, found_kvLineOf]
  refine ⟨hscan, by rw [observeKv_eq, hscan], fun keys i hi => ?_⟩
  rw [getElem?_readKvs text (getElem?_of_findIdx? hi), if_pos hi, hscan]

/-- What a write left behind: the keys it set and removed, and everything else as it was. -/
structure ReadBack (existing out : Text) (set : List (Text × Text)) (remove : List Text) : Prop where
  written : ∀ u ∈ set, Finds out u.1 (if u.2 = [] then none else some u.2)
  removed : ∀ key ∈ remove, key ∉ set.map Prod.fst → scanKv out key = .absent ∧ Finds out key none
  scan : ∀ key ∉ set.map Prod.fst, key ∉ remove → scanKv out key = scanKv existing key
  one : ∀ key ∉ set.map Prod.fst, key ∉ remove → observeKv (.ok out) key = observeKv (.ok existing) key
  several : ∀ key ∉ set.map Prod.fst, key ∉ remove → ∀ (keys : List Text) (i : Nat), keys[i]? = some key →
    (readKvs (.ok out) keys)[i]? = (readKvs (.ok existing) keys)[i]?
  kept : ∃ ls : List Text, out = ls.flatMap (· ++ ['\n']) ∧ (∀ l ∈ ls, '\n' ∉ l) ∧
    ls.filter (keptLine set remove) = (lines existing).filter (keptLine set remove)

theorem readBack_applyKvChanges {existing : Text} {set : List (Text × Text)} {remove : List Text}
    (hset : ∀ u ∈ set, configKeyIsSerializable u.1 = true ∧ configValueIsSerializable u.2 = true)
    (hnodup : (set.map Prod.fst).Nodup) : ReadBack existing (applyKvChanges existing set remove) set remove := by
  have hother : ∀ key, key ∉ set.map Prod.fst → key ∉ remove →
      scanKv (applyKvChanges existing set remove) key = scanKv existing key := by
    intro key hout hstays
    rw [scanKv_eq, scanKv_eq, valuesOf_applyKvChanges hset hnodup, setPlace_eq_none_iff.2 hout]
    dsimp only
    rw [if_neg hstays]
  refine ⟨fun u hu => ?_, fun key hremove hout => ?_, hother, fun key hout hstays => ?_,
    fun key hout hstays keys i hi => ?_, ?_⟩
  · obtain ⟨idx, hplace⟩ := setPlace_of_mem hnodup hu
    have hvalues : valuesOf u.1 (lines (applyKvChanges existing set remove)) = [u.2] := by
      rw [valuesOf_applyKvChanges hset hnodup, hplace]
    have hfinds := finds_of_valuesOf hvalues
    rw [List.find?_cons, List.find?_nil] at hfinds
    split
    · next hempty => simpa [hempty] using hfinds
    · next hvalue => simpa [hvalue] using hfinds
  · have hvalues : valuesOf key (lines (applyKvChanges existing set remove)) = [] := by
      rw [valuesOf_applyKvChanges hset hnodup, setPlace_eq_none_iff.2 hout]
      exact if_pos hremove
    refine ⟨?_, finds_of_valuesOf hvalues⟩
    rw [scanKv_eq, hvalues]
    rfl
  · rw [observeKv_eq, observeKv_eq, hother key hout hstays]
  · rw [getElem?_readKvs _ hi, getElem?_readKvs _ hi, hother key hout hstays]
  · exact ⟨_, rfl, not_newline_changedLines hset, filter_changedLines hset [] (lines existing)⟩

/-- **Config writes read back.** For every text and all updates with distinct keys that are accepted, every reader finds
each key it set with its value, and every other key as before; the other lines are kept in order. The same holds of
changes that remove keys, and each removed key that is not set is absent. The same updates again, and the same changes
where they set no key that they remove, leave the text as it is exactly where no kept line ends in a carriage return,
for a line is read without one. -/
theorem applyKv_exact :
    (∀ path existing updates, checkUpdates path updates = .ok () → (updates.map Prod.fst).Nodup →
        ReadBack existing (applyKvUpdates existing updates) updates [] ∧
          (applyKvUpdates (applyKvUpdates existing updates) updates = applyKvUpdates existing updates ↔
            ∀ l ∈ lines existing, keptLine updates [] l = true → l.getLast? ≠ some '\r')) ∧
      ∀ path existing set remove, checkUpdates path set = .ok () → (set.map Prod.fst).Nodup →
        ReadBack existing (applyKvChanges existing set remove) set remove ∧
          ((∀ key ∈ remove, key ∉ set.map Prod.fst) →
            (applyKvChanges (applyKvChanges existing set remove) set remove = applyKvChanges existing set remove ↔
              ∀ l ∈ lines existing, keptLine set remove l = true → l.getLast? ≠ some '\r')) := by
  constructor
  · intro path existing updates hcheck hnodup
    have hset := checkUpdates_ok_iff.1 hcheck
    exact ⟨readBack_applyKvChanges hset hnodup, applyKvChanges_again_iff hset hnodup nofun⟩
  · intro path existing set remove hcheck hnodup
    have hset := checkUpdates_ok_iff.1 hcheck
    exact ⟨readBack_applyKvChanges hset hnodup, applyKvChanges_again_iff hset hnodup⟩

/-- A comment that ends in a carriage return of its own, before that of its line ending. -/
def returnedComment : Text := ['#', 'x', '\r', '\r', '\n']

/-- A key is set, and one removed twice. -/
theorem applyKv_exact_comment :
    ReadBack returnedComment (applyKvUpdates returnedComment [("a", "1")]) [("a", "1")] [] ∧
      ReadBack ("a=0\nb=1\n" : Text) (applyKvChanges ("a=0\nb=1\n" : Text) [] ["a"]) [] ["a"] ∧
        applyKvChanges (applyKvChanges ("a=0\nb=1\n" : Text) [] ["a"]) [] ["a"] =
          applyKvChanges ("a=0\nb=1\n" : Text) [] ["a"] := by
  have hcheck : checkUpdates [] [("a", "1")] = .ok () := by decide
  obtain ⟨hread, hagain⟩ := applyKv_exact.2 [] ("a=0\nb=1\n" : Text) [] ["a"] rfl (by decide)
  exact ⟨(applyKv_exact.1 [] returnedComment [("a", "1")] hcheck (by decide)).1, hread,
    (hagain (by decide)).2 (by decide)⟩

/-- The same updates may take another carriage return off, and a key that is set and removed is set. -/
theorem not_applyKv_again :
    (¬ ∀ path existing updates, checkUpdates path updates = .ok () → (updates.map Prod.fst).Nodup →
        applyKvUpdates (applyKvUpdates existing updates) updates = applyKvUpdates existing updates) ∧
      ¬ ∀ path existing set remove, checkUpdates path set = .ok () → (set.map Prod.fst).Nodup →
        ∀ key ∈ remove, observeKv (.ok (applyKvChanges existing set remove)) key = .absent := by
  have hcheck : checkUpdates [] [("a", "1")] = .ok () := by decide
  constructor
  · intro h
    have hsame := h [] returnedComment [("a", "1")] hcheck (by decide)
    exact absurd hsame (by decide)
  · intro h
    have habsent := h [] [] [("a", "1")] ["a"] hcheck (by decide) "a" List.mem_cons_self
    exact absurd habsent (by decide)

end Irlume.Config

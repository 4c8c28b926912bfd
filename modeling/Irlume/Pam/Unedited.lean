import Irlume.Pam.Filled

/-!
# irlume's edits are no edits

The digest an override records is of its lines without irlume's (`body_digest`). Here no edit of irlume's
changes it: not the reading of a file irlume just wrote, unless lines of the vendor's end in many carriage
returns (`render_read`), and not irlume's lines put inactive, filled in, replaced or taken out in a file that
is kept (`Unedited`).
-/

namespace Irlume.Pam

open Irlume.Lib

/-! ## A stack irlume edits in place -/

/-- Every line that runs, except irlume's rules and the inactive and landing lines that hold places. -/
def isOrdered (l : Text) : Bool :=
  trim (directive l) ≠ [] &&
    (!isIrlumeLine l || (ruleNamesModule l "pam_gnome_keyring.so" && contains l keyringTag))

/-- The lines above a line that run with it: those of its phase, and each `@include`. -/
def othersAbove (text line : Text) : Option (List Text) :=
  ((lines text).findIdx? fun l => trim l = line).map fun i =>
    (((lines text).take i).filter fun l => isOrdered l &&
      match phaseOf line, phaseOf l with
      | some own, some other => decide (own = other)
      | _, _ => true).map trim

/-- `have` without the lines of `needed`, each taken once; `none` when one is not there. -/
def takeOut : List Text → List Text → Option (List Text)
  | [], present => some present
  | line :: needed, present => if line ∈ present then takeOut needed (present.erase line) else none

/-- `recipe_lines_above_stay_above`: the refill keeps the recipe's order around irlume's active lines. -/
def recipeLinesAboveStayAbove (filled wired : Text) : Bool :=
  ((lines wired).filter fun l => isIrlumeLine l && !contains l inertTag).all fun line =>
    match othersAbove wired (trim line), othersAbove filled (trim line) with
    | some needed, some present =>
      (takeOut needed present).any fun moved => moved.all fun l => numericActions l ≠ []
    | _, _ => true

/-- irlume's active auth lines, each with whether it is above the first password step. -/
def sides (text : Text) : Option (List (Text × Bool)) :=
  ((lines text).findIdx? fun l => !isIrlumeLine l && isPasswordStep l).map fun step =>
    ((lines text).zipIdx.filter fun (l, _) =>
      isIrlumeLine l && !contains l inertTag && decide (phaseOf l = some .auth)).map fun (l, i) =>
        (trim l, decide (i < step))

/-- `same_side_of_the_password_step`. -/
def sameSideOfThePasswordStep (filled wired : Text) : Bool :=
  match sides filled, sides wired with
  | some filled, some wired => wired.all (· ∈ filled)
  | _, _ => true

/-- `fillSlots` for a stack that is no override: each jump lands where it did, irlume's own as the recipe
has them, and irlume's lines are where the recipe puts them around the others. -/
def refill (reader : StackReader) (current wired : Text) : Option Text :=
  (fillSlots current wired).filter fun filled =>
    ownLandings filled = ownLandings wired && (jumpShifts reader current filled).isEmpty &&
      sameSideOfThePasswordStep filled wired && recipeLinesAboveStayAbove filled wired

/-! ## The lines the digest is of -/

theorem base_of_noCrEnds {body : Text} (h : NoCrEnds body) : base body = unlines (otherLines body) := by
  rw [h.otherLines]
  rfl

theorem base_unlines {out : List Text} (hline : ∀ l ∈ out, '\n' ∉ l) :
    base (unlines out) = unlines ((out.map stripCr).filter (!isIrlumeLine ·)) := by
  by_cases hnil : out = []
  · subst hnil
    decide
  · rw [base, unwireLines, lines_unlines hnil hline]

theorem Replaced.base_eq {body : Text} {out : List Text} (hbody : NoCrEnds body)
    (h : Replaced (lines body) out) : base (unlines out) = base body := by
  have hstrip : ∀ l ∈ lines body, stripCr l = l := fun l hl => stripCr_of_not_cr (hbody l hl)
  rw [base_unlines (h.oneLine fun _ => not_mem_of_mem_lines),
    h.filter_map (fun _ => isIrlumeLine_stripped) hstrip]
  rfl

section Class

variable (sha256 : Text → Text)

theorem classify_congr {p p' : Parsed} (hdigests : p'.digests = p.digests)
    (hbase : base p'.body = base p.body) (vendor : Option Text) :
    classify sha256 p' vendor = classify sha256 p vendor := by
  unfold classify bodyDigest
  rw [hdigests, hbase]

/-- To its digest and to its class, the override is as before with `t` for its body; and a tracked one is
when it is read again. -/
structure Unedited (p : Parsed) (t : Text) : Prop where
  base : base t = base p.body
  digest : bodyDigest sha256 t = bodyDigest sha256 p.body
  kept : ∀ vendor, classify sha256 { p with body := t } vendor = classify sha256 p vendor
  reread : p.trackLine.isSome → ∀ vendor, ∃ p', parse (keepHeader p t) = some p' ∧
    classify sha256 p' vendor = classify sha256 p vendor

/-! ## Reading what was written -/

omit sha256 in
theorem trimmedLines_clean (t : Text) : ∀ l ∈ trimmedLines t, '\n' ∉ l ∧ l.getLast? ≠ some '\r' := by
  intro l hl
  obtain ⟨m, hm, rfl⟩ := List.mem_map.1 hl
  exact ⟨fun hn => not_mem_of_mem_lines hm (trimCrs_subset _ hn), getLast?_trimCrs m⟩

theorem parse_tracked {first track : Text} (hfirst : HeaderLine first) (hstarts : createdStart <+: first)
    (htrack : HeaderLine track) (hmark : isTrackingLine track = true) (t : Text) :
    ∃ p, parse (first ++ '\n' :: (track ++ '\n' :: t)) = some p ∧ p.digests = parseV1 track ∧
      p.body = if trimmedLines t = [] then [] else unlines (trimmedLines t) := by
  have hstart : startsWith (first ++ '\n' :: (track ++ '\n' :: t)) createdStart = true :=
    List.isPrefixOf_iff_prefix.2 (hstarts.trans (List.prefix_append _ _))
  have hlines : (lines (first ++ '\n' :: (track ++ '\n' :: t))).map trimCrs =
      first :: track :: trimmedLines t := by
    rw [← trimmedLines, trimmedLines_newline hfirst.oneLine, trimmedLines_newline htrack.oneLine,
      trimCrs_of_not_cr hfirst.lf, trimCrs_of_not_cr htrack.lf]
  have hat : trackAt (track :: trimmedLines t) = some 0 := by
    rw [trackAt, List.takeWhile_cons_of_pos (by simpa using htrack.comment), List.findIdx?_cons, hmark]
    rfl
  unfold parse
  rw [hstart, hlines]
  simp only [hat]
  exact ⟨_, rfl, rfl, rfl⟩

theorem base_trimmed (t : Text) :
    base (if trimmedLines t = [] then [] else unlines (trimmedLines t)) = unlines (otherLines t) := by
  have hclean := trimmedLines_clean t
  split
  · next hnil =>
    rw [otherLines, hnil]
    rfl
  · rw [base_unlines fun l hl => (hclean l hl).1, otherLines]
    congr 2
    calc (trimmedLines t).map stripCr = (trimmedLines t).map id :=
          List.map_congr_left fun l hl => stripCr_of_not_cr (hclean l hl).2
      _ = trimmedLines t := List.map_id _

omit sha256 in
theorem count_unlines (ls : List Text) : (unlines ls).count '\r' = (ls.map (List.count '\r')).sum := by
  induction ls with
  | nil => rfl
  | cons l ls ih =>
    cases ls with
    | nil => simp [unlines]
    | cons l' ls =>
      simp only [unlines, List.count_append] at ih
      simp only [unlines, List.intercalate_cons_cons, List.count_append, List.map_cons, List.sum_cons] at ih ⊢
      have hnewline : List.count '\r' ['\n'] = 0 := rfl
      omega

omit sha256 in
theorem count_trimCrs (l : Text) : (trimCrs l).count '\r' ≤ l.count '\r' ∧
    (l.getLast? = some '\r' → (trimCrs l).count '\r' < l.count '\r') := by
  have hle : ∀ l, (trimCrs l).count '\r' ≤ l.count '\r' := fun l => (List.rdropWhile_prefix _ l).sublist.count_le _
  refine ⟨hle l, fun hcr => ?_⟩
  obtain ⟨m, rfl⟩ := List.getLast?_eq_some_iff.1 hcr
  have hm := hle m
  rw [trimCrs_concat_cr, List.count_append, List.count_singleton_self]
  omega

section

variable {other : Text → Bool} (hother : ∀ l, other (trimCrs l) = true → other l = true)

include hother

omit sha256 in
theorem returns_trimmed (ls : List Text) :
    (((ls.map trimCrs).filter other).map (List.count '\r')).sum ≤ ((ls.filter other).map (List.count '\r')).sum ∧
      ∀ l ∈ ls, other l = true → l.getLast? = some '\r' →
        (((ls.map trimCrs).filter other).map (List.count '\r')).sum <
          ((ls.filter other).map (List.count '\r')).sum := by
  induction ls with
  | nil => exact ⟨le_rfl, fun _ hl => absurd hl List.not_mem_nil⟩
  | cons m ls ih =>
    obtain ⟨hle, hlt⟩ := ih
    obtain ⟨hcount, hfewer⟩ := count_trimCrs m
    have hkept := hother m
    rw [List.map_cons, List.filter_cons, List.filter_cons]
    cases hm : other m with
    | false =>
      have htrim : other (trimCrs m) = false := Bool.eq_false_iff.2 fun h => Bool.false_ne_true (hm.symm.trans (hkept h))
      rw [htrim]
      refine ⟨hle, fun l hl hown => ?_⟩
      rcases List.mem_cons.1 hl with rfl | hl
      · rw [hm] at hown
        cases hown
      · exact hlt l hl hown
    | true =>
      rw [if_pos rfl, List.map_cons, List.sum_cons]
      split
      · rw [List.map_cons, List.sum_cons]
        refine ⟨by omega, fun l hl hown hcr => ?_⟩
        rcases List.mem_cons.1 hl with rfl | hl
        · have := hfewer hcr
          omega
        · have := hlt l hl hown hcr
          omega
      · next htrim =>
        refine ⟨by omega, fun l hl hown hcr => ?_⟩
        rcases List.mem_cons.1 hl with rfl | hl
        · have := hfewer hcr
          omega
        · have := hlt l hl hown hcr
          omega

omit sha256 in
/-- **All carriage returns or none.** Where taking them off makes no line one of those that `other` picks, what is
written of those is the same only if there was none to take off. -/
theorem unlines_trimmed_iff {ls : List Text} :
    unlines ((ls.map trimCrs).filter other) = unlines (ls.filter other) ↔
      ∀ l ∈ ls, other l = true → l.getLast? ≠ some '\r' := by
  constructor
  · intro heq l hl hown hcr
    have hlt := (returns_trimmed hother ls).2 l hl hown hcr
    rw [← count_unlines, ← count_unlines, heq] at hlt
    exact lt_irrefl _ hlt
  · intro hclean
    have hsame : (ls.map trimCrs).filter other = ls.filter other := by
      rw [List.filter_map]
      have hfilter : ls.filter (other ∘ trimCrs) = ls.filter other := by
        refine List.filter_congr fun l hl => ?_
        rw [Function.comp_apply, Bool.eq_iff_iff]
        refine ⟨hother l, fun hown => ?_⟩
        rwa [trimCrs_of_not_cr (hclean l hl hown)]
      rw [hfilter]
      refine (List.map_congr_left fun l hl => ?_).trans (List.map_id _)
      obtain ⟨hl, hown⟩ := List.mem_filter.1 hl
      exact trimCrs_of_not_cr (hclean l hl hown)
    rw [hsame]

end

theorem unlines_of_keepsLines {old new : List Text} (h : KeepsLines Eq old new) :
    unlines new = unlines old := by
  rcases h with h | ⟨rfl, rfl⟩
  · rw [List.forall₂_eq_eq_eq] at h
    rw [h]
  · rfl

theorem digests_of_parse {current : Text} {p : Parsed} (h : parse current = some p) :
    p.digests = p.trackLine.bind parseV1 := by
  unfold parse at h
  split at h
  · cases h
  · split at h
    · cases h
    · cases h
      rfl

theorem unedited_of_replaced {current : Text} {p : Parsed} {out : List Text}
    (hp : parse current = some p) (h : Replaced (lines p.body) out) :
    Unedited sha256 p (unlines out) := by
  have hbody := noCrEnds_of_parse hp
  have hbase := h.base_eq hbody
  refine ⟨hbase, congrArg sha256 hbase, classify_congr sha256 rfl hbase, ?_⟩
  intro htracked vendor
  obtain ⟨above, track, below, hread⟩ := parse_readAs hp
  have htrackLine := hread.tracked
  cases track with
  | none =>
    rw [htrackLine] at htracked
    cases htracked
  | some track =>
    obtain ⟨hheader, hmark⟩ := hread.tracking track rfl
    obtain ⟨p', hp', hdigests, hbody'⟩ :=
      parse_tracked hread.first hread.starts hheader hmark (unlines out)
    refine ⟨p', ?_, classify_congr sha256 ?_ ?_ vendor⟩
    · rw [keepHeader, htrackLine]
      exact hp'
    · rw [hdigests, digests_of_parse hp, htrackLine]
      rfl
    · rw [hbody', base_trimmed, unlines_of_keepsLines (h.keepsLines hbody), base_of_noCrEnds hbody]

/-! ## A file irlume just wrote -/

omit sha256 in
/-- What irlume finds in a file it has put its lines in, but for those lines, is what it finds without them. -/
theorem base_woven {v : Text} {out : List Text} (hwoven : Woven (lines (base v)) out) (hne : lines (base v) ≠ []) :
    base (unlines out) = unlines (((lines (base v)).map stripCr).filter (!isIrlumeLine ·)) ∧
      otherLines (unlines out) =
        (((lines (base v)).map stripCr).map trimCrs).filter (!isIrlumeLine ·) := by
  have hone := hwoven.oneLine fun _ => not_mem_of_mem_lines
  constructor
  · rw [base_unlines hone, hwoven.filter_read fun x hx => stripCr_of_not_cr hx.lf]
  · rw [otherLines_unlines (hwoven.ne_nil hne) hone, hwoven.filter_trimCrs, List.map_map]
    exact congrArg (List.filter _) (List.map_congr_left fun l _ => (trimCrs_stripCr l).symm)

theorem isSha256Hex_chars {s : Text} (h : isSha256Hex s = true) :
    ' ' ∉ s ∧ '\n' ∉ s ∧ s.getLast? ≠ some '\r' ∧ s ≠ [] := by
  simp only [isSha256Hex, Bool.and_eq_true, List.all_eq_true, decide_eq_true_eq] at h
  obtain ⟨hlen, hall⟩ := h
  refine ⟨?_, ?_, ?_, ?_⟩
  · intro hmem
    exact absurd (hall _ hmem) (by decide)
  · intro hmem
    exact absurd (hall _ hmem) (by decide)
  · intro hlast
    exact absurd (hall _ (List.mem_of_getLast? hlast)) (by decide)
  · intro hnil
    rw [hnil] at hlen
    cases hlen

theorem headerLine_created {path : Text} (h : '\n' ∉ path) :
    HeaderLine (createdLine path) ∧ createdStart <+: createdLine path := by
  have hend : '\n' ∉ ("; delete this file to restore the vendor copy" : Text) := by decide
  have hstart : '\n' ∉ createdStart := by decide
  refine ⟨⟨?_, ?_, ?_⟩, ?_⟩
  · rw [createdLine, List.append_assoc]
    exact directive_createdStart _
  · simp only [createdLine, List.mem_append, not_or]
    exact ⟨⟨hstart, h⟩, hend⟩
  · rw [createdLine, List.getLast?_append_of_ne_nil _ (by decide)]
    decide
  · rw [createdLine, List.append_assoc]
    exact List.prefix_append _ _

def trackingWords (a b : Text) : List Text :=
  ["v1", "vendor-sha256=" ++ a, "body-sha256=" ++ b]

theorem trackingLine_words (a b : Text) :
    trackingLine a b = overrideTrackStart ++ [' '].intercalate (trackingWords a b) := by
  simp [trackingLine, trackingWords, List.intercalate_cons_cons]

theorem parseV1_trackingLine {a b : Text} (ha : isSha256Hex a = true) (hb : isSha256Hex b = true) :
    parseV1 (trackingLine a b) = some (a, b) := by
  have hwords : ∀ l ∈ trackingWords a b, ' ' ∉ l := by
    intro l hl
    simp only [trackingWords, List.mem_cons, List.not_mem_nil, or_false] at hl
    rcases hl with rfl | rfl | rfl
    · decide
    · rw [List.mem_append, not_or]
      exact ⟨by decide, (isSha256Hex_chars ha).1⟩
    · rw [List.mem_append, not_or]
      exact ⟨by decide, (isSha256Hex_chars hb).1⟩
  have hsplit := List.splitOn_intercalate ' ' hwords (List.cons_ne_nil _ _)
  rw [parseV1, trackingLine_words, afterStart_append, Option.map_some, hsplit, trackingWords]
  simp only [if_true, afterStart_append, ha, hb, Bool.and_self]

theorem headerLine_tracking {a b : Text} (ha : isSha256Hex a = true) (hb : isSha256Hex b = true) :
    HeaderLine (trackingLine a b) ∧ isTrackingLine (trackingLine a b) = true := by
  obtain ⟨-, hline, -, -⟩ := isSha256Hex_chars ha
  obtain ⟨-, hline', hlast, hne⟩ := isSha256Hex_chars hb
  have htrack : overrideTrackStart = '#' :: overrideTrackStart.tail := by decide
  refine ⟨⟨?_, ?_, ?_⟩, ?_⟩
  · rw [trackingLine_words, htrack]
    rfl
  · simp only [trackingLine, List.mem_append, not_or]
    exact ⟨⟨⟨⟨by decide, by decide⟩, hline⟩, by decide⟩, hline'⟩
  · rw [trackingLine, List.getLast?_append_of_ne_nil _ hne]
    exact hlast
  · have hv : [' '].intercalate (trackingWords a b) = "v" ++ ('1' :: ' ' ::
        ("vendor-sha256=" ++ a ++ " body-sha256=".toList ++ b)) := by
      simp [trackingWords, List.intercalate_cons_cons]
    rw [isTrackingLine, trackingLine_words, afterStart_append, Option.bind_some, hv, afterStart_append]
    rfl

/-- The lines that `base` leaves of the vendor file, irlume's own aside, end in no carriage return once the
reading of what was written has taken one off. -/
def FewReturns (v : Text) : Prop :=
  ∀ l ∈ lines (base v), isIrlumeLine (stripCr l) = false → (stripCr l).getLast? ≠ some '\r'

instance (v : Text) : Decidable (FewReturns v) := by
  unfold FewReturns
  infer_instance

/-- The digest that was written is of the lines with one carriage return taken off, and the one that is compared
with it of the lines with all of them taken off. -/
theorem render_read (hsha : ∀ t, isSha256Hex (sha256 t) = true) {reader : StackReader} {r : Recipe}
    {v path wired : Text} (hwire : r.wire reader (base v) = (wired, true)) (hpath : '\n' ∉ path) :
    ∃ p, parse (render sha256 path v wired) = some p ∧
      (classify sha256 p (some v) = .u1 ↔ sha256 (base p.body) = sha256 (base wired)) ∧
      (base p.body = base wired ↔ FewReturns v) := by
  have hwires : WiresOnly (base v) (r.wire reader (base v)) := r.wire_wiresOnly
  rw [hwire] at hwires
  obtain ⟨out, rfl, hwoven, hne⟩ : ∃ out, wired = unlines out ∧ Woven (lines (base v)) out ∧
      lines (base v) ≠ [] := by
    rcases hwires with h | ⟨out, h, hwoven, hne, -⟩
    · cases h
    · exact ⟨out, congrArg Prod.fst h, hwoven, hne⟩
  obtain ⟨hcreated, hstarts⟩ := headerLine_created hpath
  obtain ⟨htrack, hmark⟩ := headerLine_tracking (hsha v) (hsha (base (unlines out)))
  obtain ⟨p, hp, hdigests, hbody⟩ := parse_tracked hcreated hstarts htrack hmark (unlines out)
  rw [parseV1_trackingLine (hsha v) (hsha _)] at hdigests
  obtain ⟨hwritten, hother⟩ := base_woven hwoven hne
  refine ⟨p, hp, ?_, ?_⟩
  · simp only [classify, hdigests, bodyDigest, Option.any_some, decide_eq_true_eq, if_true]
    split
    · next hsame => exact iff_of_true (by simp) (of_decide_eq_true hsame)
    · next hdiffers =>
      refine iff_of_false ?_ fun hsame => hdiffers (decide_eq_true hsame)
      split <;> simp
  · rw [hbody, base_trimmed, hother, hwritten, unlines_trimmed_iff fun l hl => ?_]
    · simp only [FewReturns, List.forall_mem_map, Bool.not_eq_true']
    · rw [Bool.not_eq_true'] at hl ⊢
      exact Bool.eq_false_iff.2 fun h => Bool.false_ne_true (hl.symm.trans (isIrlumeLine_trimmed h))

/-- **irlume's edits.** For every digest that is written in hexadecimal: a file irlume writes from a vendor file, under a
path without a newline, reads as unedited where the vendor's lines have few carriage returns, and nowhere else unless
the two texts whose digests are compared collide; and for every override, no edit of irlume's is one to the digest and
the class, where those of irlume's rules that are put inactive are rules to libpam as well. -/
theorem edits_unedited (hsha : ∀ t, isSha256Hex (sha256 t) = true) :
    (∀ {reader : StackReader} {r : Recipe} {v path wired : Text},
      r.wire reader (base v) = (wired, true) → '\n' ∉ path →
      ∃ p, parse (render sha256 path v wired) = some p ∧
        (FewReturns v → classify sha256 p (some v) = .u1) ∧
        ((sha256 (base p.body) = sha256 (base wired) → base p.body = base wired) →
          classify sha256 p (some v) = .u1 → FewReturns v)) ∧
    ∀ {current : Text} {p : Parsed}, parse current = some p →
      Unedited sha256 p (unwireLines p.body).1 ∧
      ((∀ l ∈ lines p.body, (irlumeRule l).isSome = true → isIrlumeLine l = true) →
        Unedited sha256 p (neutralize p.body)) ∧
      ∀ {reader : StackReader} {wired t : Text}, fillSlots p.body wired = some t ∨
        substitute p.body wired = some t ∨ refill reader p.body wired = some t →
          Unedited sha256 p t := by
  constructor
  · intro reader r v path wired hwire hpath
    obtain ⟨p, hp, hclass, hreturns⟩ := render_read sha256 hsha hwire hpath
    exact ⟨p, hp, fun hfew => hclass.2 (congrArg sha256 (hreturns.2 hfew)),
      fun hdistinct hu1 => hreturns.1 (hdistinct (hclass.1 hu1))⟩
  intro current p hp
  refine ⟨unedited_of_replaced sha256 hp (.filter _), fun hrules =>
    unedited_of_replaced sha256 hp (replaced_neutralize hrules), ?_⟩
  intro reader wired t ht
  have hfilled : ∀ {t : Text}, fillSlots p.body wired = some t → Unedited sha256 p t := by
    intro t ht
    obtain ⟨out, rfl, hout⟩ := replaced_of_fillSlots ht
    exact unedited_of_replaced sha256 hp hout
  rcases ht with ht | ht | ht
  · exact hfilled ht
  · obtain ⟨out, rfl, hout⟩ := replaced_of_substitute ht
    exact unedited_of_replaced sha256 hp hout
  · exact hfilled (Option.filter_eq_some_iff.1 ht).1

end Class

/-- The digest of a vendor file with nothing but its password line. -/
def includeSha : Text :=
  "838b62220a0e34f94ecb90a861dc350c".toList ++ "0ede439cd71dfbf673a2596e1a0462f0".toList

/-- A vendor file with a comment that ends in four carriage returns. -/
def manyReturns : Text := "# x\r\r\r\r\n" ++ "auth include system-auth\n".toList

/-- The digests of `manyReturns`, of its lines as irlume writes them, and of those lines as an override is
read. -/
def manyReturnsSha (t : Text) : Text :=
  if t = manyReturns then
    "53bd61728713b60c8447f8b4654b02d6".toList ++ "158740ed74b50025b14a84c47981a426".toList
  else if t = "# x\r\n" ++ "auth include system-auth\n".toList then
    "51133c0b718413d5e29161f7e8fe1aa2".toList ++ "28c332ee6624980dfb1ea451a304fa75".toList
  else
    "2318bb3e97e00335b675f366637669ad".toList ++ "6df94a5b5f256ed2b7935cb37fc4a633".toList

theorem wire_manyReturns : Recipe.verify.wire none (base manyReturns) =
    (unlines ["# x\r\r", verifyStanza, "auth include system-auth"], true) := by
  decide +kernel

/-- The verify recipe over the first of the two vendor files, and over the second. -/
theorem edits_unedited_include :
    (∃ p, parse (render (fun _ => includeSha) "/usr/lib/pam.d/sudo" "auth include system-auth\n"
        (unlines [verifyStanza, "auth include system-auth"])) = some p ∧
      classify (fun _ => includeSha) p (some "auth include system-auth\n") = .u1 ∧
      Unedited (fun _ => includeSha) p (neutralize p.body)) ∧
    ∃ p, parse (render manyReturnsSha "/usr/lib/pam.d/sudo" manyReturns
        (unlines ["# x\r\r", verifyStanza, "auth include system-auth"])) = some p ∧
      classify manyReturnsSha p (some manyReturns) ≠ .u1 := by
  have hpath : '\n' ∉ ("/usr/lib/pam.d/sudo" : Text) := by decide
  constructor
  · have hsha : isSha256Hex includeSha = true := by decide
    have hwire : Recipe.verify.wire none (base "auth include system-auth\n") =
        (unlines [verifyStanza, "auth include system-auth"], true) := by decide +kernel
    have h := edits_unedited (fun _ => includeSha) fun _ => hsha
    obtain ⟨p, hp, hfew, -⟩ := h.1 hwire hpath
    refine ⟨p, hp, hfew (by decide), (h.2 hp).2.1 ?_⟩
    have hlines : (parse (render (fun _ => includeSha) "/usr/lib/pam.d/sudo" "auth include system-auth\n"
        (unlines [verifyStanza, "auth include system-auth"]))).map (fun p => lines p.body) =
        some [verifyStanza, "auth include system-auth"] := by
      unfold includeSha verifyStanza
      repeat rw [String.toList_ofList]
      decide +kernel
    rw [hp, Option.map_some, Option.some.injEq] at hlines
    rw [hlines]
    decide
  · have hsha : ∀ t, isSha256Hex (manyReturnsSha t) = true := by
      intro t
      unfold manyReturnsSha
      split
      · decide
      · split <;> decide
    obtain ⟨p, hp, -, hback⟩ := (edits_unedited manyReturnsSha hsha).1 wire_manyReturns hpath
    have hdigests : (parse (render manyReturnsSha "/usr/lib/pam.d/sudo" manyReturns
        (unlines ["# x\r\r", verifyStanza, "auth include system-auth"]))).map (fun p =>
          decide (manyReturnsSha (base p.body) = manyReturnsSha
            (base (unlines ["# x\r\r", verifyStanza, "auth include system-auth"])))) = some false := by
      unfold manyReturnsSha manyReturns verifyStanza
      repeat rw [String.toList_ofList]
      decide +kernel
    rw [hp, Option.map_some, Option.some.injEq] at hdigests
    exact ⟨p, hp, fun hu1 => absurd (hback (fun h => absurd h (of_decide_eq_false hdigests)) hu1) (by decide)⟩

/-- The file irlume writes from `manyReturns` reads as edited at once. -/
theorem edits_edited :
    ∃ wired, Recipe.verify.wire none (base manyReturns) = (wired, true) ∧
      ∃ p, parse (render manyReturnsSha "/usr/lib/pam.d/sudo" manyReturns wired) = some p ∧
        classify manyReturnsSha p (some manyReturns) = .e1 := by
  refine ⟨_, wire_manyReturns, Option.map_eq_some_iff.1 ?_⟩
  unfold manyReturnsSha manyReturns verifyStanza
  repeat rw [String.toList_ofList]
  decide +kernel

end Irlume.Pam

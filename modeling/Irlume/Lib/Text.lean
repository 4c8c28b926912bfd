import Mathlib.Data.List.Infix
import Mathlib.Algebra.GroupWithZero.Nat
import Mathlib.Data.List.DropRight

/-!
# Lines of a text

A text is its characters. Lines are split off in two ways: `splitOn '\n'` cuts at each newline and keeps
everything else, a carriage return at the end of a line too; `lines` (the standard library's `str::lines`) takes
the carriage return of a CRLF ending off and has no last empty line.
-/

namespace Irlume.Lib

abbrev Text := List Char

instance : Coe String Text := ⟨String.toList⟩

instance : LawfulBEq Text := inferInstanceAs (LawfulBEq (List Char))

/-- The line without the carriage return it may end in. -/
def stripCr (l : Text) : Text := if l.getLast? = some '\r' then l.dropLast else l

/-- `str::trim_end_matches('\r')`. -/
def trimCrs (l : Text) : Text := l.rdropWhile (· = '\r')

/-- `str::lines`. Only a line that a newline ends loses its carriage return. -/
def lines (t : Text) : List Text :=
  let pieces := t.splitOn '\n'
  pieces.dropLast.map stripCr ++ (pieces.getLast?.filter (· ≠ [])).toList

/-- The lines, each with a newline. -/
def unlines (ls : List Text) : Text := ['\n'].intercalate ls ++ ['\n']

/-- `str::split_inclusive('\n')`. -/
def splitInclusive (t : Text) : List Text :=
  let pieces := t.splitOn '\n'
  pieces.dropLast.map (· ++ ['\n']) ++ (pieces.getLast?.filter (· ≠ [])).toList

/-- `{:02x}`. -/
def hexByte (b : UInt8) : Text := [(b.toNat / 16).digitChar, (b.toNat % 16).digitChar]

/-- `{:02x}` of each byte. -/
def hexBytes (bs : List UInt8) : Text := bs.flatMap hexByte

def contains (t pattern : Text) : Bool := decide (pattern <:+: t)

def startsWith (t p : Text) : Bool := p.isPrefixOf t

/-- The text after a first part it starts with (`str::strip_prefix`). -/
def afterStart (t p : Text) : Option Text := if startsWith t p then some (t.drop p.length) else none

/-- `char::is_whitespace`. -/
def isWhitespace (c : Char) : Bool :=
  (9 ≤ c.toNat && c.toNat ≤ 13) || c.toNat = 0x20 || c.toNat = 0x85 || c.toNat = 0xa0 ||
    c.toNat = 0x1680 || (0x2000 ≤ c.toNat && c.toNat ≤ 0x200a) || c.toNat = 0x2028 ||
    c.toNat = 0x2029 || c.toNat = 0x202f || c.toNat = 0x205f || c.toNat = 0x3000

/-- `str::trim`. -/
def trim (t : Text) : Text := (t.dropWhile isWhitespace).rdropWhile isWhitespace

/-- `char::is_control`: C0, DEL and C1. -/
def isControl (c : Char) : Bool := c.toNat ≤ 0x1f || (0x7f ≤ c.toNat && c.toNat ≤ 0x9f)

theorem afterStart_append (p t : Text) : afterStart (p ++ t) p = some t := by
  have hstart : startsWith (p ++ t) p = true := List.isPrefixOf_iff_prefix.2 (List.prefix_append _ _)
  rw [afterStart, if_pos hstart, List.drop_left]

theorem trim_eq_self_iff {t : Text} :
    trim t = t ↔ (∀ c, t.head? = some c → isWhitespace c = false) ∧
      ∀ c, t.getLast? = some c → isWhitespace c = false := by
  have hback : ∀ {u : Text}, u.rdropWhile isWhitespace = u ↔
      ∀ c, u.getLast? = some c → isWhitespace c = false := by
    intro u
    rw [List.rdropWhile_eq_self_iff]
    constructor
    · intro h c hc
      have hne : u ≠ [] := by
        intro hnil
        rw [hnil] at hc
        cases hc
      rw [← (List.getLast_eq_iff_getLast?_eq_some hne).2 hc]
      simpa using h hne
    · intro h hne
      rw [h _ (List.getLast?_eq_some_getLast hne)]
      exact Bool.false_ne_true
  have hfront : t.dropWhile isWhitespace = t ↔ ∀ c, t.head? = some c → isWhitespace c = false := by
    cases t with
    | nil => simp
    | cons c t =>
      rw [List.dropWhile_eq_self_iff]
      simp
  constructor
  · intro h
    have hdrop : t.dropWhile isWhitespace = t := by
      apply (List.dropWhile_suffix isWhitespace).eq_of_length_le
      calc t.length = (trim t).length := by rw [h]
        _ ≤ (t.dropWhile isWhitespace).length := (List.rdropWhile_prefix _ _).length_le
    rw [trim, hdrop] at h
    exact ⟨hfront.1 hdrop, hback.1 h⟩
  · intro h
    rw [trim, hfront.2 h.1, hback.2 h.2]

theorem trim_concat_whitespace {c : Char} (h : isWhitespace c = true) (t : Text) :
    trim (t ++ [c]) = trim t := by
  rw [trim, List.dropWhile_append]
  split
  · next hempty => simp [trim, List.isEmpty_iff.1 hempty, h, List.dropWhile]
  · rw [List.rdropWhile_concat_pos _ _ _ h, trim]

/-! ## Scanning to a character that stops the scan -/

section Scan

variable {p : Char → Bool} {c : Char} {m : Text}

theorem mem_dropWhile_of_mem (hc : p c = false) (h : c ∈ m) : c ∈ m.dropWhile p := by
  induction m with
  | nil => cases h
  | cons d m ih =>
    rw [List.dropWhile_cons]
    split
    · next hd =>
      rcases List.mem_cons.1 h with rfl | h
      · rw [hc] at hd
        cases hd
      · exact ih h
    · exact h

theorem dropWhile_append_of_mem (hc : p c = false) (h : c ∈ m) (r : Text) :
    (m ++ r).dropWhile p = m.dropWhile p ++ r := by
  rw [List.dropWhile_append, if_neg]
  intro hempty
  have hmem := mem_dropWhile_of_mem hc h
  rw [List.isEmpty_iff.1 hempty] at hmem
  cases hmem

theorem takeWhile_append_of_mem (hc : p c = false) (h : c ∈ m) (r : Text) :
    (m ++ r).takeWhile p = m.takeWhile p := by
  rw [List.takeWhile_append, if_neg]
  intro hlength
  have hall : m.takeWhile p = m := (List.takeWhile_prefix p).eq_of_length hlength
  have hp := List.mem_takeWhile_imp (hall.symm ▸ h)
  rw [hc] at hp
  cases hp

theorem takeWhile_append_of_stop {r : Text} (hm : ∀ c ∈ m, p c = true)
    (hr : ∀ c, r.head? = some c → p c = false) : (m ++ r).takeWhile p = m := by
  rw [List.takeWhile_append_of_pos hm]
  cases r with
  | nil => simp
  | cons d r => simp [hr d rfl]

theorem dropWhile_append_of_stop {r : Text} (hm : ∀ c ∈ m, p c = true)
    (hr : ∀ c, r.head? = some c → p c = false) : (m ++ r).dropWhile p = r := by
  rw [List.dropWhile_append_of_pos hm]
  cases r with
  | nil => simp
  | cons d r => simp [hr d rfl]

end Scan

/-! ## Cutting and joining -/

variable {t l : Text}

theorem not_of_mem_splitOnP {p : Char → Bool} (h : l ∈ t.splitOnP p) :
    ∀ c ∈ l, p c = false := by
  induction t generalizing l with
  | nil =>
    rw [List.splitOnP_nil, List.mem_singleton] at h
    simp [h]
  | cons d t ih =>
    rw [List.splitOnP_cons_eq_if_modifyHead] at h
    split at h
    · rcases List.mem_cons.1 h with rfl | h
      · simp
      · exact ih h
    · next hd =>
      cases hs : t.splitOnP p with
      | nil => exact absurd hs (List.splitOnP_ne_nil _ _)
      | cons piece pieces =>
        rw [hs, List.modifyHead_cons] at h
        rcases List.mem_cons.1 h with rfl | h
        · intro c hc
          rcases List.mem_cons.1 hc with rfl | hc
          · simpa using hd
          · exact ih (hs ▸ List.mem_cons_self) c hc
        · exact ih (hs ▸ List.mem_cons_of_mem _ h)

theorem not_mem_of_mem_splitOn {s : Char} (h : l ∈ t.splitOn s) : s ∉ l :=
  fun hs => by simpa using not_of_mem_splitOnP h s hs

variable {ls : List Text}

theorem intercalate_append_nil (h : ls ≠ []) :
    ['\n'].intercalate (ls ++ [[]]) = unlines ls := by
  induction ls with
  | nil => exact absurd rfl h
  | cons l ls ih =>
    cases ls with
    | nil => simp [unlines, List.intercalate]
    | cons l' ls =>
      have htail := ih (List.cons_ne_nil _ _)
      simp only [unlines, List.cons_append] at htail ⊢
      rw [List.intercalate_cons_cons, List.intercalate_cons_cons, htail]
      simp

/-- What `unlines` wrote is cut at its own newlines. -/
theorem splitOn_unlines (h : ls ≠ []) (hline : ∀ l ∈ ls, '\n' ∉ l) :
    (unlines ls).splitOn '\n' = ls ++ [[]] := by
  rw [← intercalate_append_nil h]
  apply List.splitOn_intercalate
  · intro l hl
    rcases List.mem_append.1 hl with hl | hl
    · exact hline l hl
    · rw [List.mem_singleton.1 hl]
      simp
  · simp

/-- Reading back takes one carriage return off each line that ends in one, so writing the lines of a text is not
always reading them back unchanged. -/
theorem lines_unlines (h : ls ≠ []) (hline : ∀ l ∈ ls, '\n' ∉ l) :
    lines (unlines ls) = ls.map stripCr := by
  simp [lines, splitOn_unlines h hline]

theorem lines_unlines_nil : lines (unlines []) = [[]] := by
  decide

/-! ## The carriage return at the end of a line -/

variable {l : Text}

theorem stripCr_of_not_cr (h : l.getLast? ≠ some '\r') : stripCr l = l := if_neg h

theorem stripCr_concat_cr (l : Text) : stripCr (l ++ ['\r']) = l := by
  simp [stripCr]

theorem stripCr_cases (l : Text) : stripCr l = l ∨ l = stripCr l ++ ['\r'] := by
  by_cases h : l.getLast? = some '\r'
  · right
    rw [stripCr, if_pos h]
    obtain ⟨l', rfl⟩ := List.getLast?_eq_some_iff.1 h
    simp
  · exact .inl (stripCr_of_not_cr h)

theorem trim_stripCr (l : Text) : trim (stripCr l) = trim l := by
  rcases stripCr_cases l with h | h
  · rw [h]
  · rw [h, stripCr_concat_cr, trim_concat_whitespace (by decide)]

theorem stripCr_subset (l : Text) : stripCr l ⊆ l := by
  rcases stripCr_cases l with h | h
  · rw [h]
    exact fun _ hc => hc
  · intro c hc
    rw [h]
    exact List.mem_append_left _ hc

theorem mem_lines (h : l ∈ lines t) :
    l ∈ t.splitOn '\n' ∨ l ++ ['\r'] ∈ t.splitOn '\n' := by
  rcases List.mem_append.1 h with h | h
  · obtain ⟨piece, hpiece, rfl⟩ := List.mem_map.1 h
    have hmem := List.dropLast_subset _ hpiece
    rcases stripCr_cases piece with heq | heq
    · exact .inl (heq.symm ▸ hmem)
    · exact .inr (heq ▸ hmem)
  · rw [Option.mem_toList, Option.filter_eq_some_iff] at h
    exact .inl (List.mem_of_mem_getLast? h.1)

theorem not_mem_of_mem_lines (h : l ∈ lines t) : '\n' ∉ l := by
  rcases mem_lines h with h | h
  · exact not_mem_of_mem_splitOn h
  · intro hm
    exact not_mem_of_mem_splitOn h (List.mem_append_left _ hm)

/-! ## A text line by line -/

theorem line_induction {motive : Text → Prop} (last : ∀ l, '\n' ∉ l → motive l)
    (line : ∀ l t, '\n' ∉ l → motive t → motive (l ++ '\n' :: t)) (t : Text) : motive t := by
  by_cases h : '\n' ∈ t
  · obtain ⟨l, rest, rfl, hl⟩ := List.eq_append_cons_of_mem h
    exact line l rest hl (line_induction last line rest)
  · exact last t h
termination_by t.length
decreasing_by subst_vars; simp; omega

section

variable (h : '\n' ∉ l)

include h

theorem lines_newline (t : Text) :
    lines (l ++ '\n' :: t) = stripCr l :: lines t := by
  simp only [lines, List.splitOn_append_cons_self_of_not_mem h]
  rw [List.dropLast_cons_of_ne_nil (List.splitOn_ne_nil _ _), List.getLast?_cons_of_ne_nil]
  · rfl
  · exact List.splitOn_ne_nil _ _

theorem lines_last : lines l = if l = [] then [] else [l] := by
  rw [lines, List.splitOn_eq_singleton h]
  by_cases hl : l = [] <;> simp [hl, Option.filter]

theorem splitInclusive_newline (t : Text) :
    splitInclusive (l ++ '\n' :: t) = (l ++ ['\n']) :: splitInclusive t := by
  simp only [splitInclusive, List.splitOn_append_cons_self_of_not_mem h]
  rw [List.dropLast_cons_of_ne_nil (List.splitOn_ne_nil _ _), List.getLast?_cons_of_ne_nil]
  · rfl
  · exact List.splitOn_ne_nil _ _

theorem splitInclusive_last :
    splitInclusive l = if l = [] then [] else [l] := by
  rw [splitInclusive, List.splitOn_eq_singleton h]
  by_cases hl : l = [] <;> simp [hl, Option.filter]

end

theorem lines_flatMap_newline (h : ∀ l ∈ ls, '\n' ∉ l) :
    lines (ls.flatMap (· ++ ['\n'])) = ls.map stripCr := by
  induction ls with
  | nil => decide
  | cons l ls ih =>
    have hrest := ih fun m hm => h m (List.mem_cons_of_mem _ hm)
    rw [List.flatMap_cons, List.append_assoc, List.singleton_append,
      lines_newline (h l List.mem_cons_self), hrest, List.map_cons]

/-! ## Lines without the carriage returns they end in -/

theorem trimCrs_stripCr (l : Text) : trimCrs (stripCr l) = trimCrs l := by
  rcases stripCr_cases l with h | h
  · rw [h]
  · rw [h, trimCrs, trimCrs, stripCr_concat_cr, List.rdropWhile_concat_pos _ _ _ (by simp)]

theorem trimCrs_trimCrs (l : Text) : trimCrs (trimCrs l) = trimCrs l :=
  List.rdropWhile_idempotent _ _

theorem trimCrs_subset (l : Text) : trimCrs l ⊆ l := (List.rdropWhile_prefix _ l).subset

theorem trimCrs_of_not_cr (h : l.getLast? ≠ some '\r') : trimCrs l = l := by
  rw [trimCrs, List.rdropWhile_eq_self_iff]
  intro hl hcr
  apply h
  rw [List.getLast?_eq_getLast_of_ne_nil hl]
  simpa using hcr

theorem trimCrs_append {a : Text} (h : a.getLast? ≠ some '\r') (b : Text) :
    trimCrs (a ++ b) = a ++ trimCrs b := by
  induction b using List.reverseRecOn with
  | nil =>
    rw [List.append_nil, trimCrs_of_not_cr h]
    simp [trimCrs]
  | append_singleton b c ih =>
    by_cases hc : c = '\r'
    · rw [← List.append_assoc, trimCrs, trimCrs, List.rdropWhile_concat_pos _ _ _ (by simp [hc]),
        List.rdropWhile_concat_pos _ _ _ (by simp [hc])]
      exact ih
    · rw [← List.append_assoc, trimCrs, trimCrs, List.rdropWhile_concat_neg _ _ _ (by simp [hc]),
        List.rdropWhile_concat_neg _ _ _ (by simp [hc]), List.append_assoc]

theorem trimCrs_concat_cr (l : Text) : trimCrs (l ++ ['\r']) = trimCrs l :=
  List.rdropWhile_concat_pos _ _ _ (by decide)

theorem getLast?_trimCrs (l : Text) : (trimCrs l).getLast? ≠ some '\r' := by
  intro h
  obtain ⟨m, hm⟩ := List.getLast?_eq_some_iff.1 h
  have hcut : trimCrs (trimCrs l) = trimCrs m := by
    rw [hm, trimCrs, trimCrs, List.rdropWhile_concat_pos _ _ _ (by simp)]
  rw [trimCrs_trimCrs] at hcut
  have hlength := congrArg List.length hm
  rw [hcut] at hlength
  have hle : (trimCrs m).length ≤ m.length := (List.rdropWhile_prefix _ m).length_le
  simp only [List.length_append, List.length_singleton] at hlength
  omega

/-- The lines of a text, none of which ends in a carriage return. -/
def trimmedLines (t : Text) : List Text := (lines t).map trimCrs

theorem trimmedLines_newline (h : '\n' ∉ l) (t : Text) :
    trimmedLines (l ++ '\n' :: t) = trimCrs l :: trimmedLines t := by
  rw [trimmedLines, lines_newline h, List.map_cons, trimCrs_stripCr]
  rfl

theorem trimmedLines_unlines (h : ls ≠ []) (hline : ∀ l ∈ ls, '\n' ∉ l) :
    trimmedLines (unlines ls) = ls.map trimCrs := by
  rw [trimmedLines, lines_unlines h hline, List.map_map]
  apply List.map_congr_left
  intro l _
  exact trimCrs_stripCr l

end Irlume.Lib

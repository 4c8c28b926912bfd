import Irlume.Pam.Kept

/-!
# An administrator's lines survive

`decide` keeps the lines of an edited override that are not irlume's, whichever way it goes. What a write may do
to them besides: the tracking line comes to stand under the first line, carriage returns at the ends of lines
go, and `--adjust-jumps` changes digits of jumps.
-/

namespace Irlume.Pam

open Irlume.Lib

/-! ## The header over a body -/

variable {l : Text}

theorem directive_beforeNul (h : directive l = []) : directive (beforeNul l) = [] := by
  induction l with
  | nil => rfl
  | cons c l ih =>
    by_cases hc : (c = ' ' || c = '\t') = true
    · have hne : c ≠ '\x00' := by
        intro heq
        subst heq
        revert hc
        decide
      rw [directive, List.dropWhile_cons, if_pos hc] at h
      rw [beforeNul, List.takeWhile_cons_of_pos (by simpa using hne), directive, List.dropWhile_cons,
        if_pos hc]
      exact ih h
    · rw [directive, List.dropWhile_cons, if_neg hc, List.takeWhile_cons] at h
      split at h
      · cases h
      · next hhash =>
        obtain rfl : c = '#' := by simpa using hhash
        rw [beforeNul, List.takeWhile_cons_of_pos (by decide), directive]
        rfl

theorem isIrlumeLine_of_comment (h : directive l = []) : isIrlumeLine l = false := by
  have hrule : rule (beforeNul l) = none := by
    have hhead : head (beforeNul l) = none := by
      rw [head, directive_beforeNul h]
      rfl
    rw [rule, hhead]
  simp [isIrlumeLine, irlumeRule, ruleNamesModule, hrule]

structure HeaderLine (l : Text) : Prop where
  comment : directive l = []
  oneLine : '\n' ∉ l
  lf : l.getLast? ≠ some '\r'

theorem otherLines_header (h : HeaderLine l) (t : Text) :
    otherLines (l ++ '\n' :: t) = l :: otherLines t := by
  rw [otherLines_newline h.oneLine, trimCrs_of_not_cr h.lf, isIrlumeLine_of_comment h.comment]
  rfl

theorem directive_createdStart (s : Text) : directive (createdStart ++ s) = [] := by
  have h : createdStart = '#' :: createdStart.tail := by decide
  rw [h]
  rfl

theorem prefix_line {l t : Text} (h : createdStart <+: l ++ '\n' :: t) : createdStart <+: l := by
  have hno : '\n' ∉ createdStart := by decide
  have hline : l ++ ['\n'] <+: l ++ '\n' :: t := ⟨t, by simp⟩
  rcases List.prefix_or_prefix_of_prefix h hline with h | h
  · rcases List.prefix_concat_iff.1 h with heq | h
    · rw [heq] at hno
      simp at hno
    · exact h
  · exact absurd (h.subset (by simp)) hno

theorem headerLine_first (h : createdStart <+: l) (hl : '\n' ∉ l) :
    HeaderLine (trimCrs l) ∧ createdStart <+: trimCrs l := by
  obtain ⟨s, rfl⟩ := h
  have hcr : createdStart.getLast? ≠ some '\r' := by decide
  have htrim := trimCrs_append hcr s
  refine ⟨⟨?_, fun hm => hl (trimCrs_subset _ hm), getLast?_trimCrs _⟩, ?_⟩
  · rw [htrim]
    exact directive_createdStart _
  · rw [htrim]
    exact List.prefix_append _ _

theorem trimmedLines_override {t : Text} (h : startsWith t createdStart = true) :
    ∃ first rest, trimmedLines t = first :: rest ∧ HeaderLine first ∧ createdStart <+: first := by
  have hpre : createdStart <+: t := List.isPrefixOf_iff_prefix.1 h
  by_cases hline : '\n' ∈ t
  · obtain ⟨l, rest, rfl, hl⟩ := List.eq_append_cons_of_mem hline
    obtain ⟨hfirst, hstart⟩ := headerLine_first (prefix_line hpre) hl
    exact ⟨_, _, trimmedLines_newline hl rest, hfirst, hstart⟩
  · obtain ⟨hfirst, hstart⟩ := headerLine_first hpre hline
    have hne : t ≠ [] := by
      intro hnil
      rw [hnil] at hpre
      exact absurd (List.prefix_nil.1 hpre) (by decide)
    refine ⟨trimCrs t, [], ?_, hfirst, hstart⟩
    rw [trimmedLines, lines_last hline, if_neg hne]
    rfl

/-! ## An override as it was read -/

/-- The lines of a file, and those of its header and its body: `above` and `below` the tracking
line. -/
structure ReadAs (current : Text) (p : Parsed) (above : List Text) (track : Option Text)
    (below : List Text) : Prop where
  file : trimmedLines current = p.first :: (above ++ (track.toList ++ below))
  body : lines p.body = above ++ below
  text : p.text = current
  marked : startsWith current createdStart = true
  first : HeaderLine p.first
  starts : createdStart <+: p.first
  tracked : p.trackLine = track
  tracking : ∀ l ∈ track, HeaderLine l ∧ isTrackingLine l = true
  comments : track.isSome → ∀ l ∈ above, directive l = []

theorem trackAt_eq_some {rest : List Text} {i : Nat} (h : trackAt rest = some i) :
    ∃ above l below, rest = above ++ l :: below ∧ above.length = i ∧ isTrackingLine l = true ∧
      directive l = [] ∧ ∀ m ∈ above, directive m = [] := by
  unfold trackAt at h
  have hrest : rest = (rest.takeWhile fun l => decide (directive l = [])) ++
      rest.dropWhile fun l => decide (directive l = []) := List.takeWhile_append_dropWhile.symm
  have hcomment : ∀ m ∈ rest.takeWhile fun l => decide (directive l = []), directive m = [] := by
    intro m hm
    simpa using List.mem_takeWhile_imp hm
  generalize rest.takeWhile (fun l => decide (directive l = [])) = comments at h hrest hcomment
  obtain ⟨hlt, htrack, -⟩ := List.findIdx?_eq_some_iff_getElem.1 h
  have hsplit : comments = comments.take i ++ comments.get ⟨i, hlt⟩ :: comments.drop (i + 1) := by
    rw [List.get_eq_getElem, ← List.drop_eq_getElem_cons hlt, List.take_append_drop]
  refine ⟨comments.take i, comments.get ⟨i, hlt⟩,
    comments.drop (i + 1) ++ rest.dropWhile fun l => decide (directive l = []), ?_, ?_, htrack, ?_, ?_⟩
  · rw [← List.cons_append, ← List.append_assoc, ← hsplit]
    exact hrest
  · rw [List.length_take]
    omega
  · exact hcomment _ (List.get_mem _ _)
  · intro m hm
    exact hcomment m (List.mem_of_mem_take hm)

theorem lines_body {ls : List Text} (hls : ∀ l ∈ ls, '\n' ∉ l ∧ l.getLast? ≠ some '\r') :
    lines (if ls = [] then [] else unlines ls) = ls := by
  split
  · next h =>
    rw [h]
    rfl
  · next h =>
    rw [lines_unlines h fun l hl => (hls l hl).1]
    calc ls.map stripCr = ls.map id := by
          apply List.map_congr_left
          intro l hl
          exact stripCr_of_not_cr (hls l hl).2
      _ = ls := List.map_id _

theorem parse_isSome {t : Text} (h : startsWith t createdStart = true) : (parse t).isSome = true := by
  obtain ⟨first, rest, hlines, -⟩ := trimmedLines_override h
  rw [trimmedLines] at hlines
  simp [parse, h, hlines]

variable {current : Text}

theorem parse_readAs {p : Parsed} (h : parse current = some p) :
    ∃ above track below, ReadAs current p above track below := by
  unfold parse at h
  split at h
  · cases h
  · next hstart =>
    have hstart : startsWith current createdStart = true := by simpa using hstart
    obtain ⟨first, rest, hlines, hfirst, hpre⟩ := trimmedLines_override hstart
    have hrest : ∀ l ∈ rest, '\n' ∉ l ∧ l.getLast? ≠ some '\r' := by
      intro l hl
      have hmem : l ∈ trimmedLines current := by
        rw [hlines]
        exact List.mem_cons_of_mem _ hl
      obtain ⟨m, hm, rfl⟩ := List.mem_map.1 hmem
      exact ⟨fun hn => not_mem_of_mem_lines hm (trimCrs_subset _ hn), getLast?_trimCrs m⟩
    rw [← trimmedLines, hlines] at h
    simp only at h
    cases htrack : trackAt rest with
    | none =>
      rw [htrack] at h
      cases h
      exact ⟨[], none, rest, by simpa using hlines, lines_body hrest, rfl, hstart, hfirst, hpre, rfl,
        (fun _ hnone => by cases hnone), fun hnone => by cases hnone⟩
    | some i =>
      rw [htrack] at h
      obtain ⟨above, l, below, heq, hi, htracking, hcomment, habove⟩ := trackAt_eq_some htrack
      have hget : rest[i]? = some l := by
        rw [heq, ← hi, List.getElem?_append_right (le_refl _), Nat.sub_self]
        rfl
      have herase : rest.eraseIdx i = above ++ below := by
        rw [heq, ← hi, List.eraseIdx_append_of_length_le (le_refl _), Nat.sub_self]
        rfl
      have hl := hrest l (by rw [heq]; simp)
      cases h
      refine ⟨above, some l, below, ?_, ?_, rfl, hstart, hfirst, hpre, hget, ?_, fun _ => habove⟩
      · simpa [heq] using hlines
      · simp only [herase]
        apply lines_body
        intro m hm
        apply hrest m
        rw [heq]
        rcases List.mem_append.1 hm with hm | hm
        · exact List.mem_append_left _ hm
        · exact List.mem_append_right _ (List.mem_cons_of_mem _ hm)
      · intro m hm
        cases hm
        exact ⟨⟨hcomment, hl.1, hl.2⟩, htracking⟩

/-! ## What a write keeps -/

/-- The same lines, except that the tracking line, which stood in the comments at the top, may have
come to stand under the first line. -/
def TrackRaised (old new : List Text) : Prop :=
  new = old ∨ ∃ first above track below, isTrackingLine track = true ∧ (∀ l ∈ above, directive l = []) ∧
    old = first :: (above ++ track :: below) ∧ new = first :: track :: (above ++ below)

/-- What a write keeps of the lines that are not irlume's: all of them in order, the digits of jumps
apart when jumps are adjusted, and the tracking line under the first line. A file with nothing but its
two header lines may get an empty line. -/
def LinesKept (adjusted : Bool) (old new : List Text) : Prop :=
  ∃ kept, TrackRaised old kept ∧
    (List.Forall₂ (fun l l' => l' = l ∨ (adjusted = true ∧ SameButJumps l l')) kept new ∨
      (kept.length ≤ 2 ∧ (∀ l ∈ kept, createdStart <+: l ∨ isTrackingLine l = true) ∧ new = kept ++ [[]]))

namespace ReadAs

variable {current : Text} {p : Parsed} {above below : List Text} {track : Option Text}

variable (h : ReadAs current p above track below)

include h

theorem oneLine :
    ∀ l ∈ above ++ below, '\n' ∉ l ∧ l.getLast? ≠ some '\r' := by
  intro l hl
  have hmem : l ∈ trimmedLines current := by
    rw [h.file]
    rcases List.mem_append.1 hl with hl | hl
    · simp [hl]
    · simp [hl]
  obtain ⟨m, hm, rfl⟩ := List.mem_map.1 hmem
  exact ⟨fun hn => not_mem_of_mem_lines hm (trimCrs_subset _ hn), getLast?_trimCrs m⟩

theorem noCrEnds : NoCrEnds p.body := by
  intro l hl
  rw [h.body] at hl
  exact (h.oneLine l hl).2

theorem otherLines_keepHeader (x : Text) :
    otherLines (keepHeader p x) = p.first :: (track.toList ++ otherLines x) := by
  rw [keepHeader, h.tracked]
  cases track with
  | none => exact otherLines_header h.first x
  | some l =>
    simp only
    rw [otherLines_header h.first, otherLines_header (h.tracking l rfl).1]
    rfl

theorem trackRaised :
    TrackRaised (otherLines current) (p.first :: (track.toList ++ otherLines p.body)) := by
  have hfirst := isIrlumeLine_of_comment h.first.comment
  rw [otherLines, h.file, h.noCrEnds.otherLines, h.body, List.filter_cons, hfirst]
  cases track with
  | none =>
    left
    simp
  | some l =>
    right
    have hcomments := h.comments rfl
    have hl := h.tracking l rfl
    have habove : above.filter (!isIrlumeLine ·) = above := by
      rw [List.filter_eq_self]
      intro m hm
      rw [isIrlumeLine_of_comment (hcomments m hm)]
      rfl
    refine ⟨p.first, above, l, below.filter (!isIrlumeLine ·), hl.2, hcomments, ?_, ?_⟩
    · simp [List.filter_append, habove, isIrlumeLine_of_comment hl.1.comment]
    · simp [List.filter_append, habove]

theorem linesKept {adjusted : Bool} {x : Text}
    (hx : KeepsLines (fun l l' => l' = l ∨ (adjusted = true ∧ SameButJumps l l')) (otherLines p.body)
      (otherLines x)) :
    LinesKept adjusted (otherLines current) (otherLines (keepHeader p x)) := by
  refine ⟨_, h.trackRaised, ?_⟩
  rw [h.otherLines_keepHeader]
  rcases hx with hx | ⟨hnil, hx⟩
  · left
    apply List.Forall₂.cons (.inl rfl)
    apply List.rel_append _ hx
    rw [List.forall₂_same]
    intro l _
    exact .inl rfl
  · right
    rw [hnil, hx, List.append_nil]
    refine ⟨by cases track <;> simp, ?_, by simp⟩
    rw [List.forall_mem_cons]
    exact ⟨.inl h.starts, fun l hl => .inr (h.tracking l (Option.mem_toList.1 hl)).2⟩

theorem parse_keepHeader (x : Text) :
    (parse (keepHeader p x)).isSome = true := by
  have hstart : startsWith (keepHeader p x) createdStart = true := by
    apply List.isPrefixOf_iff_prefix.2
    apply h.starts.trans
    rw [keepHeader]
    split
    · exact List.prefix_append _ _
    · exact List.prefix_append _ _
  exact parse_isSome hstart

end ReadAs

/-! ## The decisions -/

/-- What every decision for a file with an administrator's lines comes to: the file stays, or a text
takes its place that is still an override and keeps those lines. -/
structure Survives (adjusted : Bool) (current : Text) (d : Decision) : Prop where
  change : d.change ≠ .materializeOverride
  write : d.write = .nothing ∨ ∃ t, d.write = .replace t ∧ (parse t).isSome = true ∧
    LinesKept adjusted (otherLines current) (otherLines t)

variable {adjusted : Bool}

theorem Survives.not_remove {d : Decision}
    (h : Survives adjusted current d) : d.write ≠ .remove := by
  rcases h.write with hw | ⟨t, hw, -⟩
  · rw [hw]
    nofun
  · rw [hw]
    nofun

theorem survives_nothing {d : Decision}
    (hchange : d.change ≠ .materializeOverride) (hwrite : d.write = .nothing) :
    Survives adjusted current d := ⟨hchange, .inl hwrite⟩

theorem survives_leftAsItIs :
    Survives adjusted current leftAsItIs := survives_nothing nofun rfl

theorem withoutIrlumeLines_starts {t : Text} (h : startsWith t createdStart = true) :
    startsWith (withoutIrlumeLines t) createdStart = true := by
  have hpre : createdStart <+: t := List.isPrefixOf_iff_prefix.1 h
  apply List.isPrefixOf_iff_prefix.2
  by_cases hline : '\n' ∈ t
  · obtain ⟨l, rest, rfl, hl⟩ := List.eq_append_cons_of_mem hline
    have hstart := prefix_line hpre
    obtain ⟨hfirst, -⟩ := headerLine_first hstart hl
    rw [withoutIrlumeLines_newline hl, isIrlumeLine_of_comment hfirst.comment]
    exact hstart.trans (List.prefix_append _ _)
  · obtain ⟨hfirst, -⟩ := headerLine_first hpre hline
    rw [withoutIrlumeLines_last hline, isIrlumeLine_of_comment hfirst.comment]
    exact hpre

theorem linesKept_refl (adjusted : Bool) (ls : List Text) : LinesKept adjusted ls ls := by
  refine ⟨ls, .inl rfl, .inl ?_⟩
  rw [List.forall₂_same]
  intro l _
  exact .inl rfl

section Survive

variable {reader : StackReader} {i : Input} {current : Text} {p : Parsed} {above below : List Text}
  {track : Option Text} (h : ReadAs current p above track below)

include h in
theorem survives_keepHeader {d : Decision} {x : Text} (hchange : d.change ≠ .materializeOverride)
    (hwrite : d.write = .replace (keepHeader p x))
    (hx : KeepsLines (fun l l' => l' = l ∨ (i.adjustJumps = true ∧ SameButJumps l l'))
      (otherLines p.body) (otherLines x)) :
    Survives i.adjustJumps current d :=
  ⟨hchange, .inr ⟨_, hwrite, h.parse_keepHeader x, h.linesKept hx⟩⟩

theorem ok_of_toOption {ε α : Type} {x : Except ε α} {a : α} (h : x.toOption = some a) :
    x = .ok a := by
  cases x with
  | error e => cases h
  | ok b => rw [Option.some.inj h]

theorem keepsLines_of_eq {adjusted : Bool} {old new : List Text} (hkept : KeepsLines Eq old new) :
    KeepsLines (fun l l' => l' = l ∨ (adjusted = true ∧ SameButJumps l l')) old new :=
  hkept.imp fun _ _ heq => .inl heq.symm

theorem keepsLines_adjust {adjusted : Bool} {before after text body : Text} {way : Way}
    {source : Source} (hadjusted : adjusted = true)
    (hafter : KeepsLines Eq (otherLines body) (otherLines after))
    (hadjust : adjust reader before after way source = .ok text) :
    KeepsLines (fun l l' => l' = l ∨ (adjusted = true ∧ SameButJumps l l')) (otherLines body)
      (otherLines text) := by
  have hempty : ∀ l : Text, l = [] ∨ (adjusted = true ∧ SameButJumps [] l) → l = [] := by
    intro l hl
    rcases hl with rfl | ⟨-, hl⟩
    · rfl
    · exact sameButJumps_nil hl
  exact hafter.trans_eq hempty
    ((adjust_keepsLines hadjust).imp fun _ _ hsame => Or.inr ⟨hadjusted, hsame⟩)

include h in
theorem body_noNul (hc : hasLineContinuation p.text = false) (hu : p.unreadable = none) :
    ∀ l ∈ lines p.body, '\x00' ∉ l := by
  have hread : Readable current := by
    rw [← h.text]
    exact readable_of_checks hc (by rw [← Parsed.unreadable, hu]; rfl)
  intro l hl hnul
  have hmem : l ∈ trimmedLines current := by
    rw [h.body] at hl
    rw [h.file]
    rcases List.mem_append.1 hl with hl | hl
    · simp [hl]
    · simp [hl]
  obtain ⟨m, hm, rfl⟩ := List.mem_map.1 hmem
  have hin := trimCrs_subset _ hnul
  rcases mem_lines hm with hpiece | hpiece
  · exact nul_not_mem_of_unread (hread _ hpiece) hin
  · exact nul_not_mem_of_unread (hread _ hpiece) (List.mem_append_left _ hin)

include h in
theorem strip_survives (hc : hasLineContinuation p.text = false) (hu : p.unreadable = none)
    (cls : OverrideClass) (noAnchor : Bool) :
    Survives i.adjustJumps current (strip reader i p cls noAnchor) := by
  have hbody := h.noCrEnds
  unfold strip
  simp only
  split
  · exact survives_keepHeader h nofun rfl (keepsLines_of_eq (base_keepsLines hbody))
  · split
    · next text hadjusted hlowered =>
      split at hlowered
      · cases hlowered
      · have hadjust := ok_of_toOption hlowered
        exact survives_keepHeader h nofun rfl
          (keepsLines_adjust hadjusted (base_keepsLines hbody) hadjust)
    · split
      · apply survives_nothing
        · cases noAnchor <;> nofun
        · rfl
      · exact survives_keepHeader h nofun rfl
          (keepsLines_of_eq ((replaced_neutralize fun l hl =>
            isIrlumeLine_of_irlumeRule (body_noNul h hc hu l hl)).keepsLines hbody))

include h in
theorem removeOrStrip_survives {cls : OverrideClass} (hcls : cls.edited = true ∨ cls = .u3)
    (noAnchor : Bool) : Survives i.adjustJumps current (removeOrStrip reader i p cls noAnchor) := by
  have hkept : (cls = .u1 || cls = .u2 || cls = .l1) = false := by
    rcases hcls with hcls | rfl
    · cases cls <;> simp_all [OverrideClass.edited]
    · rfl
  unfold removeOrStrip
  rw [hkept, if_neg Bool.false_ne_true]
  split
  · exact survives_nothing nofun rfl
  split
  · exact survives_leftAsItIs
  split
  · split
    · exact survives_leftAsItIs
    · refine ⟨nofun, .inr ⟨_, rfl, ?_, ?_⟩⟩
      · apply parse_isSome
        apply withoutIrlumeLines_starts
        rw [h.text]
        exact h.marked
      · rw [otherLines_withoutIrlumeLines, h.text]
        exact linesKept_refl _ _
  · next hread =>
    simp only [Bool.or_eq_true, not_or, Bool.not_eq_true, Option.isSome_eq_false_iff,
      Option.isNone_iff_eq_none] at hread
    exact strip_survives h hread.2 hread.1 cls noAnchor

include h in
theorem keepingJumps_keepsLines {wired arranged text : Text} {edited filled : Bool}
    (harranged : KeepsLines Eq (otherLines p.body) (otherLines arranged))
    (hkeep : keepingJumps reader i p wired arranged edited = .ok (text, filled)) :
    KeepsLines (fun l l' => l' = l ∨ (i.adjustJumps = true ∧ SameButJumps l l'))
      (otherLines p.body) (otherLines text) := by
  unfold keepingJumps at hkeep
  split at hkeep
  · cases hkeep
    exact keepsLines_of_eq harranged
  · split at hkeep
    · next hfilled =>
      cases hkeep
      apply keepsLines_of_eq
      unfold filledInPlace at hfilled
      split at hfilled
      · cases hfilled
      · next hfill =>
        split at hfilled
        · cases hfilled
        · split at hfilled
          · cases hfilled
          · cases hfilled
            obtain ⟨out, rfl, hout⟩ := replaced_of_fillSlots hfill
            exact hout.keepsLines h.noCrEnds
    · split at hkeep
      · cases hkeep
      · split at hkeep
        · next hadjust =>
          split at hkeep
          · next hadjusted =>
            cases hkeep
            exact keepsLines_adjust hadjusted harranged hadjust
          · cases hkeep
        · cases hkeep

variable (hwire : InsertsOnly i.wire)

include h hwire in
theorem rewire_survives {edited : Bool} {unchanged : PlannedChange}
    (hunchanged : unchanged ≠ .materializeOverride) :
    Survives i.adjustJumps current
      (rewire reader i p (base p.body) (i.wire (base p.body)).1 edited unchanged) := by
  have hbody := h.noCrEnds
  unfold rewire
  split
  · split
    · exact survives_keepHeader h nofun rfl (.of_eq (fun _ => .inl rfl) rfl)
    · exact survives_nothing hunchanged rfl
  · split
    · exact survives_leftAsItIs
    · exact survives_nothing nofun rfl
    · next arranged harrange =>
      have harranged := arrange_keepsLines hwire hbody harrange
      split
      · exact survives_nothing nofun rfl
      · next text filled hkeep =>
        split
        · exact survives_nothing hunchanged rfl
        · exact survives_keepHeader h nofun rfl
            (keepingJumps_keepsLines h harranged hkeep)

include h hwire in
theorem inPlace_survives {cls : OverrideClass} (hcls : cls.edited = true ∨ cls = .u3) {edited : Bool}
    {unchanged : PlannedChange} (hunchanged : unchanged ≠ .materializeOverride) :
    Survives i.adjustJumps current (inPlace reader i p cls edited unchanged) := by
  unfold inPlace
  simp only
  split
  · split
    · exact removeOrStrip_survives h hcls true
    · exact survives_nothing nofun rfl
  split
  · exact survives_leftAsItIs
  split
  · exact survives_leftAsItIs
  · exact rewire_survives h hwire hunchanged

end Survive

/-- An administrator's lines survive every decision that is not forced, and a file whose vendor copy is
gone is never removed. -/
theorem decide_keeps_lines (sha256 : Text → Text) (reader : StackReader) (i : Input) {current : Text}
    {p : Parsed} (hcurrent : i.current = some current) (hparse : parse current = some p)
    (hforce : i.force = false) (hwire : InsertsOnly i.wire)
    (hcls : (classify sha256 p i.vendor).edited = true ∨ classify sha256 p i.vendor = .u3) :
    ∃ d, i.decide sha256 reader = .ok d ∧ d.write ≠ .remove ∧ d.change ≠ .materializeOverride ∧
      (d.write = .nothing ∨ ∃ t, d.write = .replace t ∧ (parse t).isSome = true ∧
        LinesKept i.adjustJumps (otherLines current) (otherLines t)) := by
  obtain ⟨above, track, below, h⟩ := parse_readAs hparse
  obtain ⟨d, hd, hsurvives⟩ : ∃ d, i.decide sha256 reader = .ok d ∧ Survives i.adjustJumps current d := by
    unfold Input.decide
    rw [hcurrent]
    simp only [hparse]
    generalize classify sha256 p i.vendor = cls at hcls
    split
    · exact ⟨_, rfl, removeOrStrip_survives h hcls false⟩
    · unfold enableOver
      have hu2 : cls ≠ .u2 := by
        rintro rfl
        rcases hcls with hcls | hcls <;> cases hcls
      simp only [hu2, decide_false, Bool.false_and, Bool.false_eq_true, if_false, hforce]
      split
      · exact ⟨_, rfl, removeOrStrip_survives h hcls true⟩
      split
      · exact ⟨_, rfl, survives_leftAsItIs⟩
      · cases cls with
        | u1 | u2 | l1 => rcases hcls with hcls | hcls <;> cases hcls
        | u3 | e3 | l3 => exact ⟨_, rfl, inPlace_survives h hwire hcls nofun⟩
        | e1 | e2 | l2 => exact ⟨_, rfl, inPlace_survives h hwire hcls nofun⟩
  exact ⟨d, hd, hsurvives.not_remove, hsurvives.change, hsurvives.write⟩

/-- The digest of the vendor file of `commented`. -/
def commentedVendorSha : Text :=
  "838b62220a0e34f94ecb90a861dc350c".toList ++ "0ede439cd71dfbf673a2596e1a0462f0".toList

/-- The digest of the lines of `commented` that are not irlume's. -/
def commentedSha : Text :=
  "13d4fd6262fd5ab760548415ee82abb4".toList ++ "3afe1fd6e0420bfc9ed08e3f7444ae1a".toList

/-- An override an administrator put a comment into, above the tracking line. -/
def commented : Text :=
  unlines [createdLine "/usr/lib/pam.d/sudo", "# note", trackingLine commentedVendorSha commentedVendorSha,
    verifyStanza, "auth include system-auth"]

/-- Face login turned off for `commented`, its vendor file gone. -/
def commentedInput : Input where
  vendorPath := "/usr/lib/pam.d/sudo"
  current := some commented
  vendor := none
  backup := none
  enable := false
  force := false
  adjustJumps := false
  wire := fun t => Recipe.verify.wire none t
  opens := fun _ => false

/-- An override with an administrator's comment, whose vendor file is gone. -/
theorem decide_keeps_lines_commented :
    ∃ d, commentedInput.decide (fun _ => commentedSha) none = .ok d ∧ d.write ≠ .remove ∧
      d.change ≠ .materializeOverride ∧
      (d.write = .nothing ∨ ∃ t, d.write = .replace t ∧ (parse t).isSome = true ∧
        LinesKept false (otherLines commented) (otherLines t)) := by
  obtain ⟨p, hp⟩ : ∃ p, parse commented = some p := Option.isSome_iff_exists.1 (by decide)
  apply decide_keeps_lines (fun _ => commentedSha) none commentedInput rfl hp rfl
    (Recipe.verify.insertsOnly none)
  have hcls : ((parse commented).map fun p => classify (fun _ => commentedSha) p none) = some .e3 := by
    unfold commented createdLine createdStart trackingLine overrideTrackStart commentedVendorSha
      commentedSha verifyStanza
    repeat rw [String.toList_ofList]
    decide +kernel
  rw [hp] at hcls
  left
  exact congrArg OverrideClass.edited (Option.some.inj hcls)

/-- The tracking line of `commented` comes to stand above the administrator's comment. -/
theorem decide_moves_tracking_line :
    ∃ p t d, parse commented = some p ∧ classify (fun _ => commentedSha) p none = .e3 ∧
      InsertsOnly commentedInput.wire ∧ commentedInput.decide (fun _ => commentedSha) none = .ok d ∧
      d.write = .replace t ∧
      (lines t).filter (!isIrlumeLine ·) ≠ (lines commented).filter (!isIrlumeLine ·) := by
  obtain ⟨p, hp⟩ : ∃ p, parse commented = some p := Option.isSome_iff_exists.1 (by decide)
  have hcls : ((parse commented).map fun p => classify (fun _ => commentedSha) p none) = some .e3 := by
    unfold commented createdLine createdStart trackingLine overrideTrackStart commentedVendorSha
      commentedSha verifyStanza
    repeat rw [String.toList_ofList]
    decide +kernel
  rw [hp] at hcls
  have hdecide : commentedInput.decide (fun _ => commentedSha) none =
      .ok (replace .stripInPlace (unlines [createdLine "/usr/lib/pam.d/sudo",
        trackingLine commentedVendorSha commentedVendorSha, "# note", "auth include system-auth"])) := by
    unfold commentedInput commented createdLine createdStart trackingLine overrideTrackStart
      commentedVendorSha commentedSha verifyStanza
    repeat rw [String.toList_ofList]
    decide +kernel
  refine ⟨p, _, _, hp, Option.some.inj hcls, Recipe.verify.insertsOnly none, hdecide, rfl, ?_⟩
  decide

end Irlume.Pam

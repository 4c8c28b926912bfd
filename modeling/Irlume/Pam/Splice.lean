import Irlume.Pam.Dispatch
import Irlume.Pam.Reread

/-!
# The stack a line names, and the line with another in its place

`include_target` of `lightdm_view.rs` is a slice of its line; here the target is its text. A line whose target
is replaced at the place it starts names the replacement and is read as before otherwise.
-/

namespace Irlume.Pam

open Irlume.Lib

/-! ## Targets -/

/-- `include_target`: the stack a line names. -/
def includeTarget (line : Text) : Option Text :=
  (atIncludeTarget line).or ((head line).bind Head.stackName)

/-- What the target of a directive is read from: its type, its control when it is no `@include`, and the
text after these. -/
def targetShape (d : Text) : Option (Text × Option Text × Text) :=
  match typeField d with
  | none => none
  | some (kind, rest) =>
    if eqIgnoreAsciiCase kind "@include" then some (kind, none, rest)
    else
      let (control, rest) := (nextField rest).getD ([], [])
      if eqIgnoreAsciiCase control "include" || eqIgnoreAsciiCase control "substack" then
        some (kind, some control, rest)
      else none

def targetRest (d : Text) : Option Text := (targetShape d).map (·.2.2)

/-- Where in a line its target starts. -/
def targetStart (line : Text) : Nat :=
  let d := directive line
  let rest := (targetRest d).getD []
  let before := ((fieldSpan rest).map (·.1)).getD []
  (line.takeWhile fun c => c = ' ' || c = '\t').length + (d.length - rest.length) + before.length

/-- The line with `replacement` in the place of its target. -/
def spliceTarget (line target replacement : Text) : Text :=
  line.take (targetStart line) ++ replacement ++ line.drop (targetStart line + target.length)

theorem bracketed_cons {c : Char} {r : Text} (hc : c ≠ ']') (hr : c = '\\' → r.head? ≠ some ']') :
    bracketed (c :: r) = (c :: (bracketed r).1, (bracketed r).2) := by
  rw [bracketed]
  · exact hc
  · intro rest hslash hrest
    subst hrest
    exact hr hslash rfl

theorem typeField_eq_some {d kind rest : Text} (h : typeField d = some (kind, rest)) :
    ∃ k, nextField d = some (k, rest) ∧ kind = (afterStart k "-").getD k := by
  obtain ⟨⟨k, rest'⟩, hfield, heq⟩ := Option.map_eq_some_iff.1 h
  obtain ⟨hkind, rfl⟩ := Prod.mk.inj heq
  exact ⟨k, hfield, hkind.symm⟩

theorem includeTarget_eq (line : Text) :
    includeTarget line = (targetRest (directive line)).bind fun rest => (nextField rest).map Prod.fst := by
  unfold includeTarget atIncludeTarget head targetRest targetShape
  cases typeField (directive line) with
  | none => rfl
  | some field =>
    obtain ⟨kind, rest⟩ := field
    dsimp only
    by_cases hat : eqIgnoreAsciiCase kind "@include" = true
    · rw [if_pos hat, if_pos hat, if_pos hat, Option.bind_none, Option.or_none, Option.map_some,
        Option.bind_some]
    · rw [if_neg hat, if_neg hat, if_neg hat, Option.none_or, Option.bind_some]
      generalize (nextField rest).getD ([], []) = field
      obtain ⟨control, rest⟩ := field
      dsimp only
      unfold Head.stackName Head.namesStack Head.isInclude Head.isSubstack Head.thirdField
      dsimp only
      by_cases hstack : (eqIgnoreAsciiCase control "include" || eqIgnoreAsciiCase control "substack") = true
      · rw [if_pos hstack, if_pos hstack, Option.map_some, Option.bind_some]
      · rw [if_neg hstack, if_neg hstack, Option.map_none, Option.bind_none]

/-! ## What is around a field -/

def isNameChar (c : Char) : Bool := c.isLower || c.isDigit || c = '.' || c = '_' || c = '-'

structure SafeName (r : Text) : Prop where
  ne : r ≠ []
  chars : ∀ c ∈ r, isNameChar c = true

theorem ne_of_isNameChar {c : Char} (h : isNameChar c = true) : isFieldDelimiter c = false ∧ c ≠ '[' ∧
    c ≠ ']' ∧ c ≠ '\\' ∧ c ≠ '#' ∧ c ≠ '\x00' ∧ c ≠ '\r' ∧ c ≠ '\n' := by
  refine ⟨?_, ?_, ?_, ?_, ?_, ?_, ?_, ?_⟩
  · cases hdelim : isFieldDelimiter c with
    | false => rfl
    | true =>
      simp only [isFieldDelimiter, Bool.or_eq_true, decide_eq_true_eq] at hdelim
      rcases hdelim with (rfl | rfl) | rfl <;> exact absurd h (by decide)
  all_goals
    rintro rfl
    exact absurd h (by decide)

theorem bracketed_of_name {r a : Text} (hr : ∀ c ∈ r, isNameChar c = true)
    (ha : a = [] ∨ ∃ s, a = ']' :: s) : bracketed (r ++ a) = (r, a) := by
  induction r with
  | nil =>
    rcases ha with rfl | ⟨s, rfl⟩ <;> rfl
  | cons c r ih =>
    obtain ⟨-, -, hclose, hslash, -⟩ := ne_of_isNameChar (hr c List.mem_cons_self)
    rw [List.cons_append, bracketed_cons hclose fun heq => absurd heq hslash,
      ih fun d hd => hr d (List.mem_cons_of_mem _ hd)]

theorem Span.replace {b f a r : Text} (h : Span b f a) (hr : SafeName r) : Span b r a := by
  cases h with
  | word blank _ _ _ stop =>
    refine .word blank hr.ne ?_ (fun c hc => (ne_of_isNameChar (hr.chars c hc)).1) stop
    intro hhead
    exact (ne_of_isNameChar (hr.chars _ (List.mem_of_head? hhead))).2.1 rfl
  | bracket blank closed =>
    have hrest := bracketed_rest (f ++ a)
    rw [closed] at hrest
    exact .bracket blank (bracketed_of_name hr.chars hrest)

/-! ## A replaced target -/

theorem targetShape_before {d kind rest : Text} {c : Option Text}
    (h : targetShape d = some (kind, c, rest)) (hne : rest ≠ []) :
    ∃ pre, d = pre ++ rest ∧
      ∀ rest', ((rest.head?.all isFieldDelimiter) = true → rest'.head? = rest.head?) →
        targetShape (pre ++ rest') = some (kind, c, rest') := by
  unfold targetShape at h
  cases htype : typeField d with
  | none =>
    rw [htype] at h
    cases h
  | some field =>
    obtain ⟨kind', rest₁⟩ := field
    obtain ⟨k, hk, hkind⟩ := typeField_eq_some htype
    rw [htype] at h
    dsimp only at h
    split at h
    · next hat =>
      simp only [Option.some.injEq, Prod.mk.injEq] at h
      obtain ⟨rfl, rfl, rfl⟩ := h
      obtain ⟨pre, hpre, hread⟩ := nextField_before hk hne
      refine ⟨pre, hpre, fun rest' hrest' => ?_⟩
      unfold targetShape typeField
      rw [hread rest' hrest', Option.map_some]
      dsimp only
      rw [← hkind, if_pos hat]
    · next hat =>
      cases hcontrol : nextField rest₁ with
      | none =>
        rw [hcontrol, Option.getD_none] at h
        simp [eqIgnoreAsciiCase] at h
      | some field =>
        obtain ⟨control, rest₂⟩ := field
        rw [hcontrol, Option.getD_some] at h
        dsimp only at h
        split at h
        · next hstack =>
          simp only [Option.some.injEq, Prod.mk.injEq] at h
          obtain ⟨rfl, rfl, rfl⟩ := h
          obtain ⟨pre₂, hpre₂, hread₂⟩ := nextField_before hcontrol hne
          have hne₁ : rest₁ ≠ [] := by
            rw [hpre₂]
            simp [hne]
          obtain ⟨pre₁, hpre₁, hread₁⟩ := nextField_before hk hne₁
          refine ⟨pre₁ ++ pre₂, by rw [hpre₁, hpre₂, List.append_assoc], fun rest' hrest' => ?_⟩
          have hhead : (rest₁.head?.all isFieldDelimiter) = true →
              (pre₂ ++ rest').head? = rest₁.head? := by
            intro hall
            rw [hpre₂] at hall ⊢
            cases pre₂ with
            | nil => exact hrest' hall
            | cons => rfl
          unfold targetShape typeField
          rw [List.append_assoc, hread₁ _ hhead, Option.map_some]
          dsimp only
          rw [← hkind, if_neg hat, hread₂ rest' hrest', Option.getD_some]
          dsimp only
          rw [if_pos hstack]
        · cases h

/-- The two lines name stacks of their own and are the same otherwise. -/
def Renamed (l l' target target' : Text) : Prop :=
  ∃ kind c rest rest', targetShape (directive l) = some (kind, c, rest) ∧
    targetShape (directive l') = some (kind, c, rest') ∧
    (nextField rest).map Prod.fst = some target ∧ (nextField rest').map Prod.fst = some target'

theorem directive_parts {blanks d comment : Text} (hblanks : ∀ c ∈ blanks, (c = ' ' || c = '\t') = true)
    (hd : '#' ∉ d) (hhead : ∀ c, d.head? = some c → (c = ' ' || c = '\t') = false)
    (hcomment : ∀ c, comment.head? = some c → c = '#') : directive (blanks ++ (d ++ comment)) = d := by
  have hall : ∀ c ∈ d, decide (c ≠ '#') = true := fun c hc => decide_eq_true fun heq => hd (heq ▸ hc)
  have hstop : ∀ c, comment.head? = some c → decide (c ≠ '#') = false := by
    intro c hc
    simp [hcomment c hc]
  have hfirst : ∀ c, (d ++ comment).head? = some c → (c = ' ' || c = '\t') = false := by
    intro c hc
    cases d with
    | cons e d => exact hhead c hc
    | nil =>
      rw [hcomment c hc]
      decide
  rw [directive, dropWhile_append_of_stop hblanks hfirst, takeWhile_append_of_stop hall hstop]

theorem trimBlanks_getLast? (l : Text) :
    (trimBlanks l).getLast? = l.reverse.find? fun c => !(c = ' ' || c = '\t') := by
  rw [trimBlanks, List.rdropWhile, List.getLast?_reverse]
  induction l.reverse with
  | nil => rfl
  | cons c s ih =>
    cases hc : (decide (c = ' ') || decide (c = '\t')) with
    | true => simp only [List.dropWhile_cons, List.find?_cons, hc, Bool.not_true, if_true, ih]
    | false => simp only [List.dropWhile_cons, List.find?_cons, hc, Bool.not_false,
        Bool.false_eq_true, if_false, List.head?_cons]

theorem trimBlanks_replace {x t r a : Text} (hr : SafeName r)
    (h : (trimBlanks (x ++ (t ++ a))).getLast? ≠ some '\\') :
    (trimBlanks (x ++ (r ++ a))).getLast? ≠ some '\\' := by
  rw [trimBlanks_getLast?, List.reverse_append, List.reverse_append, List.append_assoc,
    List.find?_append] at h ⊢
  cases hfind : a.reverse.find? fun c => !(c = ' ' || c = '\t') with
  | some c =>
    rw [hfind, Option.some_or] at h
    rw [Option.some_or]
    exact h
  | none =>
    obtain ⟨init, c, rfl⟩ := List.eq_nil_or_concat' r |>.resolve_left hr.ne
    obtain ⟨hdelim, -, -, hslash, -⟩ := ne_of_isNameChar (hr.chars c (by simp))
    have hblank : (!(decide (c = ' ') || decide (c = '\t'))) = true := by
      simp only [isFieldDelimiter, Bool.or_eq_false_iff] at hdelim
      simp [hdelim.1]
    rw [Option.none_or, List.reverse_append, List.reverse_singleton, List.singleton_append,
      List.cons_append, List.find?_cons, hblank]
    intro heq
    exact hslash (Option.some.inj heq)

theorem spliceTarget_of_parts {l x t y : Text} (h : l = x ++ (t ++ y)) (hstart : targetStart l = x.length)
    (r : Text) : spliceTarget l t r = x ++ (r ++ y) := by
  rw [spliceTarget, hstart, h, List.take_left, List.drop_append, List.drop_eq_nil_of_le (by simp),
    List.nil_append, Nat.add_sub_cancel_left, List.drop_left, List.append_assoc]

theorem Span.head?_at_start {f a : Text} (h : Span [] f a) :
    ((f ++ a).head?.all isFieldDelimiter) = false := by
  generalize hb : ([] : Text) = b at h
  cases h with
  | word _ ne _ chars _ =>
    obtain ⟨c, f, rfl⟩ := List.exists_cons_of_ne_nil ne
    exact chars c List.mem_cons_self
  | bracket => simp at hb

theorem spliceTarget_spec {l t : Text} (h : includeTarget l = some t) :
    ∃ x y, l = x ++ (t ++ y) ∧ targetStart l = x.length ∧
      ∀ r, SafeName r → Renamed l (x ++ (r ++ y)) t r ∧
        (ReadWhole l → ReadWhole (x ++ (r ++ y))) := by
  rw [includeTarget_eq] at h
  obtain ⟨rest, hrest, htarget⟩ := Option.bind_eq_some_iff.1 h
  obtain ⟨⟨kind, c, rest₀⟩, hshape, rfl⟩ := Option.map_eq_some_iff.1 hrest
  dsimp only at htarget hrest
  obtain ⟨⟨t, rest'⟩, hfield, rfl⟩ := Option.map_eq_some_iff.1 htarget
  dsimp only
  obtain ⟨b, a, hspan, hsplit, -⟩ := nextField_spec hfield
  have hne : rest₀ ≠ [] := by
    rintro rfl
    cases hfield
  obtain ⟨pre, hpre, hread⟩ := targetShape_before hshape hne
  obtain ⟨hl, hallBlank, hcomment, -⟩ := lineParts l
  generalize hblanks : (l.takeWhile fun c => c = ' ' || c = '\t') = blanks at hl hallBlank
  generalize ((l.dropWhile fun c => c = ' ' || c = '\t').dropWhile (· ≠ '#')) = comment at hl hcomment
  have hdirective : directive l = pre ++ (b ++ (t ++ a)) := by rw [hpre, hsplit]
  have hhash : '#' ∉ directive l := by
    intro hmem
    rw [directive] at hmem
    exact absurd (List.mem_takeWhile_imp hmem) (by decide)
  refine ⟨blanks ++ (pre ++ b), a ++ comment, ?_, ?_, ?_⟩
  · rw [hdirective] at hl
    rw [hl]
    simp
  · unfold targetStart
    dsimp only
    rw [hrest, Option.getD_some, fieldSpan_iff.2 ⟨hspan, hsplit⟩, Option.map_some, Option.getD_some,
      hblanks, hpre]
    simp only [List.length_append]
    omega
  · intro r hr
    have hspan' := hspan.replace hr
    have hcond : (rest₀.head?.all isFieldDelimiter) = true → (b ++ (r ++ a)).head? = rest₀.head? := by
      intro hall
      rw [hsplit]
      cases b with
      | cons e b => rfl
      | nil =>
        rw [hsplit, List.nil_append, hspan.head?_at_start] at hall
        cases hall
    have hshape' := hread _ hcond
    have hmem : ∀ c, c ∈ pre ++ (b ++ (r ++ a)) → c ∈ directive l ∨ c ∈ r := by
      rw [hdirective]
      simp only [List.mem_append]
      tauto
    have hhead : ∀ c, (pre ++ (b ++ (r ++ a))).head? = some c →
        (decide (c = ' ') || decide (c = '\t')) = false := by
      intro c hc
      cases hfront : pre ++ b with
      | cons e front =>
        refine directive_first (?_ : (directive l).head? = some c)
        rw [hdirective, ← List.append_assoc, hfront]
        rw [← List.append_assoc, hfront] at hc
        exact hc
      | nil =>
        rw [← List.append_assoc, hfront, List.nil_append] at hc
        obtain ⟨d, r', rfl⟩ := List.exists_cons_of_ne_nil hr.ne
        obtain rfl := Option.some.inj hc
        have hdelim := (ne_of_isNameChar (hr.chars d List.mem_cons_self)).1
        simp only [isFieldDelimiter, Bool.or_eq_false_iff] at hdelim
        simp [hdelim.1]
    have hdirective' : directive (blanks ++ (pre ++ (b ++ (r ++ a)) ++ comment)) = pre ++ (b ++ (r ++ a)) := by
      apply directive_parts hallBlank _ hhead hcomment
      intro hc
      rcases hmem _ hc with hc | hc
      · exact hhash hc
      · exact (ne_of_isNameChar (hr.chars _ hc)).2.2.2.2.1 rfl
    have hline : (blanks ++ (pre ++ b)) ++ (r ++ (a ++ comment)) =
        blanks ++ (pre ++ (b ++ (r ++ a)) ++ comment) := by simp
    rw [hline]
    refine ⟨⟨kind, c, rest₀, _, hshape, by rw [hdirective']; exact hshape', ?_, ?_⟩, ?_⟩
    · rw [hsplit, hspan.nextField_eq, Option.map_some]
    · rw [hspan'.nextField_eq, Option.map_some]
    · intro hwhole
      have hnul : '\x00' ∉ directive (blanks ++ (pre ++ (b ++ (r ++ a)) ++ comment)) := by
        rw [hdirective']
        intro hc
        rcases hmem _ hc with hc | hc
        · exact hwhole.nul hc
        · exact (ne_of_isNameChar (hr.chars _ hc)).2.2.2.2.2.1 rfl
      refine ⟨?_, hnul, ?_⟩
      · cases comment with
        | nil =>
          have hline : l = (blanks ++ (pre ++ b)) ++ (t ++ a) := by
            conv_lhs => rw [hl, hdirective]
            simp
          have hline' : blanks ++ (pre ++ (b ++ (r ++ a)) ++ []) = (blanks ++ (pre ++ b)) ++ (r ++ a) := by
            simp
          have hopen : '#' ∉ beforeNul l := by
            intro hmem
            have hin := (List.takeWhile_sublist _).subset hmem
            rw [hl, List.append_nil] at hin
            rcases List.mem_append.1 hin with hin | hin
            · exact absurd (hallBlank _ hin) (by decide)
            · exact hhash hin
          have hend : (trimBlanks l).getLast? ≠ some '\\' := by
            intro hslash
            have halone := hwhole.alone
            simp [continues, hslash, hopen] at halone
          rw [hline] at hend
          rw [hline', continues, decide_eq_false (trimBlanks_replace hr hend), Bool.false_and]
        | cons c comment =>
          obtain rfl := hcomment c rfl
          have hin : '#' ∈ blanks ++ (pre ++ (b ++ (r ++ a)) ++ '#' :: comment) :=
            List.mem_append_right _ (List.mem_append_right _ List.mem_cons_self)
          rw [continues, Bool.and_eq_false_iff]
          exact .inr (decide_eq_false (not_not_intro (hash_mem_beforeNul hin hnul)))
      · rw [hdirective']
        cases a with
        | nil =>
          obtain ⟨init, e, rfl⟩ := List.eq_nil_or_concat' r |>.resolve_left hr.ne
          have hcr := (ne_of_isNameChar (hr.chars e (by simp))).2.2.2.2.2.2.1
          simpa using hcr
        | cons e a =>
          have hcr := hwhole.cr
          rw [hdirective] at hcr
          simpa [List.getLast?_append] using hcr

/-! ## The handlers of a line that names a stack -/

def namedHead (kind control rest : Text) : Head :=
  let phase := phases.find? fun p => eqIgnoreAsciiCase p.name kind
  { phase := phase.getD .auth, control, rest, knownType := phase.isSome }

theorem atInclude_of_shape {l kind rest : Text} (h : targetShape (directive l) = some (kind, none, rest)) :
    isAtInclude l = true ∧ atIncludeTarget l = (nextField rest).map Prod.fst := by
  unfold targetShape at h
  unfold isAtInclude atIncludeTarget
  cases htype : typeField (directive l) with
  | none =>
    rw [htype] at h
    cases h
  | some field =>
    obtain ⟨kind', rest₁⟩ := field
    rw [htype] at h
    dsimp only [Option.any_some] at h ⊢
    split at h
    · next hat =>
      simp only [Option.some.injEq, Prod.mk.injEq] at h
      obtain ⟨rfl, -, rfl⟩ := h
      exact ⟨hat, if_pos hat⟩
    · split at h
      · cases h
      · cases h

theorem head_of_shape {l kind control rest : Text}
    (h : targetShape (directive l) = some (kind, some control, rest)) :
    head l = some (namedHead kind control rest) ∧
      (namedHead kind control rest).namesStack = true := by
  unfold targetShape at h
  unfold head
  cases htype : typeField (directive l) with
  | none =>
    rw [htype] at h
    cases h
  | some field =>
    obtain ⟨kind', rest₁⟩ := field
    rw [htype] at h
    dsimp only at h ⊢
    split at h
    · cases h
    · next hat =>
      rw [if_neg hat]
      split at h
      · next hstack =>
        simp only [Option.some.injEq, Prod.mk.injEq] at h
        obtain ⟨rfl, hcontrol, hrest⟩ := h
        rw [← hcontrol, ← hrest]
        exact ⟨rfl, hstack⟩
      · cases h

section Renamed

variable {R : Row → Row → Prop} {stack stack' : Bool → Nat → Text → Option (List Row)} {phase : Phase}
  {place place' : Place} {l l' t r : Text}

theorem lineRows_renamed (h : Renamed l l' t r)
    (hstack : ∀ included level, (stack included level t = none ∧ stack' included level r = none) ∨
      ∃ rows rows', stack included level t = some rows ∧ stack' included level r = some rows' ∧
        List.Forall₂ R rows rows')
    (hfail : ∀ level, R (failing level place) (failing level place'))
    (henter : ∀ level, R ⟨level, .enter⟩ ⟨level, .enter⟩) (included : Bool) (level : Nat) :
    List.Forall₂ R (lineRows stack phase included level place l)
      (lineRows stack' phase included level place' l') := by
  have hrows : ∀ included level fail,
      List.Forall₂ R ((stack included level t).getD [failing fail place])
        ((stack' included level r).getD [failing fail place']) := by
    intro included level fail
    rcases hstack included level with ⟨hnone, hnone'⟩ | ⟨rows, rows', hrows, hrows', hrel⟩
    · rw [hnone, hnone']
      exact .cons (hfail fail) .nil
    · rw [hrows, hrows']
      exact hrel
  obtain ⟨kind, c, rest, rest', hshape, hshape', htarget, htarget'⟩ := h
  cases c with
  | none =>
    obtain ⟨hat, hname⟩ := atInclude_of_shape hshape
    obtain ⟨hat', hname'⟩ := atInclude_of_shape hshape'
    unfold lineRows
    rw [if_pos hat, if_pos hat', hname, hname', htarget, htarget']
    exact hrows included level level
  | some control =>
    obtain ⟨hhead, hnames⟩ := head_of_shape hshape
    obtain ⟨hhead', -⟩ := head_of_shape hshape'
    unfold lineRows
    rw [isAtInclude_of_head hhead, isAtInclude_of_head hhead', hhead, hhead']
    dsimp only
    have hthird : (namedHead kind control rest).thirdField = some t := htarget
    have hthird' : (namedHead kind control rest').thirdField = some r := htarget'
    have hof : (namedHead kind control rest').isOf included phase =
        (namedHead kind control rest).isOf included phase := rfl
    have hinclude : (namedHead kind control rest').isInclude =
        (namedHead kind control rest).isInclude := rfl
    have hsub : (namedHead kind control rest').isSubstack =
        (namedHead kind control rest).isSubstack := rfl
    rw [hof, hinclude, hsub, hthird, hthird', Option.bind_some, Option.bind_some,
      if_neg Bool.false_ne_true, if_neg Bool.false_ne_true]
    by_cases hin : (!(namedHead kind control rest).isOf included phase) = true
    · rw [if_pos hin, if_pos hin]
      exact .nil
    rw [if_neg hin, if_neg hin]
    by_cases hinc : (namedHead kind control rest).isInclude = true
    · rw [if_pos hinc, if_pos hinc]
      exact hrows true level level
    · have hsubstack : (namedHead kind control rest).isSubstack = true := by
        rw [Head.namesStack, Bool.or_eq_true] at hnames
        exact hnames.resolve_left hinc
      rw [if_neg hinc, if_neg hinc, if_pos hsubstack, if_pos hsubstack]
      exact .cons (henter level) (hrows true (level + 1) level)

end Renamed

/-! ## A line with its newline -/

theorem takeWhile_concat_newline {p : Char → Bool} (hp : p '\n' = false) (s : Text) :
    (s ++ ['\n']).takeWhile p = s.takeWhile p ∧ (s ++ ['\n']).dropWhile p = s.dropWhile p ++ ['\n'] := by
  induction s with
  | nil => simp [hp]
  | cons c s ih =>
    cases hc : p c with
    | true => simpa [hc] using ih
    | false => simp [hc]

variable {l : Text}

theorem directive_concat_newline (h : '#' ∉ l) : directive (l ++ ['\n']) = directive l ++
    ['\n'] := by
  have hall : ∀ c ∈ (l.dropWhile fun c => c = ' ' || c = '\t') ++ ['\n'], decide (c ≠ '#') = true := by
    intro c hc
    rcases List.mem_append.1 hc with hc | hc
    · exact decide_eq_true fun heq => h (heq ▸ (List.dropWhile_sublist _).subset hc)
    · rw [List.mem_singleton.1 hc]
      decide
  have hdrop := (takeWhile_concat_newline (p := fun c => c = ' ' || c = '\t') (by decide) l).2
  rw [directive, hdrop, directive, List.takeWhile_eq_self_iff.2 hall,
    List.takeWhile_eq_self_iff.2 fun c hc => hall c (List.mem_append_left _ hc)]

theorem fieldSpan_newline_none {s : Text} (h : fieldSpan s = none) : fieldSpan (s ++ ['\n']) = none := by
  rw [fieldSpan_eq_none] at h ⊢
  intro c hc
  rcases List.mem_append.1 hc with hc | hc
  · exact h c hc
  · rw [List.mem_singleton.1 hc]
    decide

theorem nextField_newline_none {s : Text} (h : nextField s = none) : nextField (s ++ ['\n']) = none := by
  rw [nextField_eq_fieldSpan, Option.map_eq_none_iff] at h ⊢
  exact fieldSpan_newline_none h

theorem nextField_newline {s f rest : Text} (h : nextField s = some (f, rest)) :
    nextField (s ++ ['\n']) = some (f, rest ++ ['\n']) ∨
      (rest = [] ∧ nextField (s ++ ['\n']) = some (f ++ ['\n'], [])) :=
  nextField_concat h (by decide)

theorem not_eqIgnoreAsciiCase_newline {s w : Text} (hs : '\n' ∈ s) (hw : '\n' ∉ w.map Char.toLower) :
    eqIgnoreAsciiCase s w = false := by
  rw [eqIgnoreAsciiCase, beq_eq_false_iff_ne]
  intro heq
  have hmem : '\n' ∈ s.map Char.toLower := List.mem_map.2 ⟨'\n', hs, by decide⟩
  exact hw (heq ▸ hmem)

theorem targetShape_newline (d : Text) :
    (∃ kind c rest, targetShape d = some (kind, c, rest) ∧
      targetShape (d ++ ['\n']) = some (kind, c, rest ++ ['\n'])) ∨
    ((targetRest d).bind nextField = none ∧ (targetRest (d ++ ['\n'])).bind nextField = none) := by
  have hempty : nextField [] = none := rfl
  unfold targetRest targetShape typeField
  cases htype : nextField d with
  | none =>
    right
    rw [nextField_newline_none htype]
    exact ⟨rfl, rfl⟩
  | some field =>
    obtain ⟨k, rest₁⟩ := field
    rcases nextField_newline htype with hline | ⟨rfl, hline⟩
    · rw [hline]
      dsimp only [Option.map_some]
      generalize (afterStart k "-").getD k = kind
      by_cases hat : eqIgnoreAsciiCase kind "@include" = true
      · left
        rw [if_pos hat, if_pos hat]
        exact ⟨kind, none, rest₁, rfl, rfl⟩
      · rw [if_neg hat, if_neg hat]
        cases hcontrol : nextField rest₁ with
        | none =>
          right
          rw [nextField_newline_none hcontrol]
          exact ⟨rfl, rfl⟩
        | some field =>
          obtain ⟨control, rest₂⟩ := field
          rcases nextField_newline hcontrol with hline' | ⟨rfl, hline'⟩
          · rw [hline']
            dsimp only [Option.getD_some]
            split
            · exact .inl ⟨kind, some control, rest₂, rfl, rfl⟩
            · exact .inr ⟨rfl, rfl⟩
          · right
            rw [hline']
            dsimp only [Option.getD_some]
            have hnot : ∀ w : Text, '\n' ∉ w.map Char.toLower →
                eqIgnoreAsciiCase (control ++ ['\n']) w = false :=
              fun w hw => not_eqIgnoreAsciiCase_newline (by simp) hw
            refine ⟨?_, ?_⟩
            · split <;> rfl
            · split
              · next hstack =>
                rw [Bool.or_eq_true, hnot _ (by decide), hnot _ (by decide)] at hstack
                exact absurd hstack (by decide)
              · rfl
    · right
      rw [hline]
      dsimp only [Option.map_some]
      refine ⟨?_, ?_⟩
      · split <;> rfl
      · split
        · rfl
        · rw [hempty]
          rfl

theorem targetStart_newline (h : (includeTarget l).isSome = true) :
    targetStart (l ++ ['\n']) = targetStart l := by
  have hblanks := (takeWhile_concat_newline (p := fun c => c = ' ' || c = '\t') (by decide) l).1
  unfold targetStart
  dsimp only
  rw [hblanks]
  by_cases hhash : '#' ∈ l
  · rw [directive_append_of_mem hhash]
  · rw [directive_concat_newline hhash]
    rcases targetShape_newline (directive l) with ⟨kind, c, rest, hshape, hline⟩ | ⟨hnone, -⟩
    · rw [targetRest, targetRest, hshape, hline]
      simp only [Option.map_some, Option.getD_some, List.length_append]
      cases hspan : fieldSpan rest with
      | none =>
        rw [fieldSpan_newline_none hspan]
        simp
      | some span =>
        obtain ⟨b, f, a⟩ := span
        rcases fieldSpan_concat hspan (by decide : '\n' ≠ ']') with ⟨hspan', -⟩ | ⟨-, hspan'⟩ <;>
          rw [hspan'] <;> simp
    · rw [includeTarget_eq] at h
      cases hrest : targetRest (directive l) with
      | none =>
        rw [hrest] at h
        cases h
      | some rest =>
        rw [hrest, Option.bind_some] at h hnone
        rw [hnone] at h
        cases h

theorem includeTarget_newline {l t : Text} (h : includeTarget (l ++ ['\n']) = some t) (ht : '\n' ∉ t) :
    includeTarget l = some t ∧ ∀ r, spliceTarget (l ++ ['\n']) t r = spliceTarget l t r ++ ['\n'] := by
  have htarget : includeTarget l = some t := by
    rw [includeTarget_eq] at h ⊢
    by_cases hhash : '#' ∈ l
    · rwa [directive_append_of_mem hhash] at h
    · rw [directive_concat_newline hhash] at h
      rcases targetShape_newline (directive l) with ⟨kind, c, rest, hshape, hline⟩ | ⟨-, hnone⟩
      · rw [targetRest, hline, Option.map_some, Option.bind_some] at h
        rw [targetRest, hshape, Option.map_some, Option.bind_some]
        cases hfield : nextField rest with
        | none =>
          rw [nextField_newline_none hfield] at h
          cases h
        | some field =>
          obtain ⟨f, rest'⟩ := field
          rcases nextField_newline hfield with hfield' | ⟨-, hfield'⟩
          · rw [hfield'] at h
            exact h
          · rw [hfield'] at h
            cases h
            simp at ht
      · cases hrest : targetRest (directive l ++ ['\n']) with
        | none =>
          rw [hrest] at h
          cases h
        | some rest =>
          rw [hrest, Option.bind_some] at h hnone
          rw [hnone] at h
          cases h
  obtain ⟨x, y, hl, hstart, -⟩ := spliceTarget_spec htarget
  refine ⟨htarget, fun r => ?_⟩
  have hline : l ++ ['\n'] = x ++ (t ++ (y ++ ['\n'])) := by
    rw [hl]
    simp
  have hstart' : targetStart (l ++ ['\n']) = x.length := by
    rw [targetStart_newline (by rw [htarget]; rfl), hstart]
  rw [spliceTarget_of_parts hline hstart', spliceTarget_of_parts hl hstart]
  simp

theorem includeTarget_newline_none (h : includeTarget (l ++ ['\n']) = none) :
    includeTarget l = none := by
  rw [includeTarget_eq] at h ⊢
  by_cases hhash : '#' ∈ l
  · rwa [directive_append_of_mem hhash] at h
  · rw [directive_concat_newline hhash] at h
    rcases targetShape_newline (directive l) with ⟨kind, c, rest, hshape, hline⟩ | ⟨hnone, -⟩
    · rw [targetRest, hline, Option.map_some, Option.bind_some, Option.map_eq_none_iff] at h
      rw [targetRest, hshape, Option.map_some, Option.bind_some, Option.map_eq_none_iff]
      cases hfield : nextField rest with
      | none => rfl
      | some field =>
        obtain ⟨f, rest'⟩ := field
        rcases nextField_newline hfield with hfield' | ⟨-, hfield'⟩ <;>
          · rw [hfield'] at h
            cases h
    · cases hrest : targetRest (directive l) with
      | none => rfl
      | some rest =>
        rw [hrest, Option.bind_some] at hnone
        rw [Option.bind_some, hnone]
        rfl

theorem head_newline {hd : Head} (h : head (l ++ ['\n']) = some hd)
    (hthird : hd.thirdField.isSome = true) : ∃ hd', head l = some hd' ∧ hd'.phase = hd.phase ∧
      hd'.knownType = hd.knownType ∧ hd'.control = hd.control ∧ hd'.thirdField.isSome = true := by
  by_cases hhash : '#' ∈ l
  · refine ⟨hd, ?_, rfl, rfl, rfl, hthird⟩
    rw [head, directive_append_of_mem hhash] at h
    exact h
  · unfold head at h
    rw [directive_concat_newline hhash] at h
    unfold head typeField
    unfold typeField at h
    cases htype : nextField (directive l) with
    | none =>
      rw [nextField_newline_none htype] at h
      cases h
    | some field =>
      obtain ⟨k, rest₁⟩ := field
      rcases nextField_newline htype with hline | ⟨rfl, hline⟩
      · rw [hline, Option.map_some] at h
        rw [Option.map_some]
        dsimp only at h ⊢
        split at h
        · cases h
        · next hat =>
          rw [if_neg hat]
          cases h
          refine ⟨_, rfl, rfl, rfl, ?_⟩
          unfold Head.thirdField at hthird ⊢
          dsimp only at hthird ⊢
          cases hcontrol : nextField rest₁ with
          | none =>
            rw [nextField_newline_none hcontrol] at hthird
            cases hthird
          | some field =>
            obtain ⟨control, rest₂⟩ := field
            rcases nextField_newline hcontrol with hline' | ⟨-, hline'⟩
            · rw [hline'] at hthird ⊢
              dsimp only [Option.getD_some] at hthird ⊢
              refine ⟨rfl, ?_⟩
              cases hfield : nextField rest₂ with
              | none =>
                rw [nextField_newline_none hfield] at hthird
                cases hthird
              | some field => rfl
            · rw [hline'] at hthird
              cases hthird
      · rw [hline, Option.map_some] at h
        dsimp only at h
        split at h
        · cases h
        · cases h
          cases hthird

end Irlume.Pam

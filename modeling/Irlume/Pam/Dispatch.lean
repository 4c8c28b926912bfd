import Irlume.Lib.Dispatch
import Irlume.Pam.Unwire

/-!
# The stack libpam runs

What libpam makes of a file for one of the four types. Lines are split as the readers of `grammar.rs` split
them, once libpam has joined a line that continues with the next one.
-/

namespace Irlume.Pam

open Irlume.Lib

/-! ## Controls -/

/-- `control_ignores_module_ignore`: an inactive line in the place of the rule changes nothing, where its
module returns `PAM_IGNORE`. -/
def controlIgnoresModuleIgnore (control : Text) : Bool :=
  (controlActions control).any fun table => decide (table .ignore = .ignore)

def Action.effect : Action → Effect Action
  | .ignore => .ignore
  | .jump n => .jump n
  | action => .settle action

def Head.table (h : Head) (r : ReturnValue) : Effect Action :=
  ((controlActions h.control).getD (fun _ => .bad) r).effect

theorem controlIgnores_table {h : Head} (hc : controlIgnoresModuleIgnore h.control = true) :
    h.table .ignore = .ignore := by
  unfold controlIgnoresModuleIgnore at hc
  obtain ⟨table, htable, hignore⟩ := (Option.any_eq_true _ _).1 hc
  rw [Head.table, htable, Option.getD_some, of_decide_eq_true hignore]
  rfl

/-! ## Lines -/

def trimBlanks (l : Text) : Text := l.rdropWhile fun c => c = ' ' || c = '\t'

def continues (l : Text) : Bool := (trimBlanks l).getLast? = some '\\' && '#' ∉ beforeNul l

def joinLines : List Text → List Text
  | [] => []
  | l :: ls =>
    if continues l then
      let start := beforeNul (trimBlanks l).dropLast
      match joinLines ls with
      | [] => [start]
      | next :: rest => (start ++ ' ' :: next) :: rest
    else beforeNul l :: joinLines ls

def libpamLines (text : Text) : List Text := joinLines (text.splitOn '\n')

theorem hasLineContinuation_eq (content : Text) :
    hasLineContinuation content = (content.splitOn '\n').any continues := rfl

theorem joinLines_of_not_continues {ls : List Text} (h : ∀ l ∈ ls, continues l = false) :
    joinLines ls = ls.map beforeNul := by
  induction ls with
  | nil => rfl
  | cons l ls ih =>
    rw [joinLines, if_neg (by simp [h l List.mem_cons_self]),
      ih fun l hl => h l (List.mem_cons_of_mem _ hl)]
    rfl

/-! ## Handlers -/

/-- Where a line is: its index in its file, below those of the lines its file was included by. -/
abbrev Place := List Nat

abbrev Row := Handler Place ReturnValue Action

def failing (level : Nat) (place : Place) : Row := ⟨level, .call place fun _ => .settle .bad⟩

/-- A line of a type libpam does not know is an auth line, or in an included file one of the type the
file is included for. -/
def Head.isOf (h : Head) (included : Bool) (phase : Phase) : Bool :=
  if h.knownType then decide (h.phase = phase) else included || decide (phase = .auth)

/-- What comes of the value a line returns. One of a type libpam does not know, or without a module, fails
and calls none. -/
def Head.returns (h : Head) : ReturnValue → Effect Action :=
  if h.knownType && h.thirdField.isSome then h.table else fun _ => h.table .permDenied

/-- The handlers of a line at `place`; `stack` are those of a stack it names. -/
def lineRows (stack : Bool → Nat → Text → Option (List Row)) (phase : Phase) (included : Bool)
    (level : Nat) (place : Place) (line : Text) : List Row :=
  if isAtInclude line then
    ((atIncludeTarget line).bind (stack included level)).getD [failing level place]
  else
    match head line with
    | none => []
    | some h =>
      if !h.isOf included phase then []
      else if h.isInclude then (h.thirdField.bind (stack true level)).getD [failing level place]
      else if h.isSubstack then
        ⟨level, .enter⟩ :: (h.thirdField.bind (stack true (level + 1))).getD [failing level place]
      else [⟨level, .call place h.returns⟩]

/-- The handlers of lines, each by `row` from its index. -/
def rowsOf (row : Nat → Text → List Row) (ls : List Text) : List Row :=
  ls.zipIdx.flatMap fun (l, i) => row i l

/-- The handlers of a text's lines of one type; `limit` is how deep a stack may be included. -/
def stackRows (read : Text → Option Text) (phase : Phase) :
    Nat → Bool → Nat → Place → Text → List Row
  | 0, included, level, place, text =>
    rowsOf (fun i => lineRows (fun _ _ _ => none) phase included level (place ++ [i])) (libpamLines text)
  | limit + 1, included, level, place, text =>
    rowsOf (fun i => lineRows (fun included level name =>
      (read name).map fun text => stackRows read phase limit included level (place ++ [i]) text)
        phase included level (place ++ [i])) (libpamLines text)

/-- The stack libpam runs for a service's file and one of the types. -/
def serviceRows (read : Text → Option Text) (phase : Phase) (limit : Nat) (text : Text) : List Row :=
  stackRows read phase limit false 0 [] text

def innerRows (read : Text → Option Text) (phase : Phase) (limit : Nat) (place : Place)
    (included : Bool) (level : Nat) (name : Text) : Option (List Row) :=
  match limit with
  | 0 => none
  | limit + 1 => (read name).map fun text => stackRows read phase limit included level place text

theorem stackRows_eq (read : Text → Option Text) (phase : Phase) (limit : Nat) (included : Bool)
    (level : Nat) (place : Place) (text : Text) :
    stackRows read phase limit included level place text =
      rowsOf (fun i => lineRows (innerRows read phase limit (place ++ [i])) phase included level
        (place ++ [i])) (libpamLines text) := by
  cases limit <;> rfl

/-! ## What a head says -/

theorem isAtInclude_of_head {l : Text} {h : Head} (hh : head l = some h) : isAtInclude l = false := by
  unfold head at hh
  unfold isAtInclude
  cases htype : typeField (directive l) with
  | none => rfl
  | some field =>
    obtain ⟨kind, rest⟩ := field
    rw [htype] at hh
    dsimp only at hh
    rw [Option.any_some]
    by_cases hat : eqIgnoreAsciiCase kind "@include" = true
    · rw [if_pos hat] at hh
      cases hh
    · simpa using hat

theorem head_of_rule {l : Text} {r : Rule} (h : rule l = some r) :
    ∃ hd, head l = some hd ∧ hd.knownType = true ∧ hd.namesStack = false ∧ hd.thirdField.isSome = true ∧
      hd.phase = r.phase ∧ hd.control = r.control := by
  unfold rule at h
  split at h
  · cases h
  · next hd hhead =>
    split at h
    · cases h
    · next hknown =>
      split at h
      · cases h
      · next path args hfields =>
        cases h
        rw [Bool.or_eq_true, not_or] at hknown
        refine ⟨hd, hhead, by simpa using hknown.1, by simpa using hknown.2, ?_, rfl, rfl⟩
        rw [Head.thirdField]
        rw [Head.fieldsAfterControl] at hfields
        cases hfield : nextField hd.rest with
        | some field => rfl
        | none =>
          cases hlen : hd.rest.length with
          | zero =>
            rw [hlen] at hfields
            cases hfields
          | succ n =>
            rw [hlen, fields, hfield] at hfields
            cases hfields

/-! ## Rows line by line -/

variable {row row' : Nat → Text → List Row} {ls ls' : List Text}

section

variable (hlen : ls.length = ls'.length)

include hlen

theorem rowsFrom_forall₂ {R : Row → Row → Prop} (k : Nat)
    (h : ∀ i l l', ls[i]? = some l → ls'[i]? = some l' →
      List.Forall₂ R (row (k + i) l) (row' (k + i) l')) :
    List.Forall₂ R ((ls.zipIdx k).flatMap fun (l, i) => row i l)
      ((ls'.zipIdx k).flatMap fun (l, i) => row' i l) := by
  induction ls generalizing ls' k with
  | nil =>
    rw [List.length_nil, eq_comm, List.length_eq_zero_iff] at hlen
    rw [hlen]
    exact .nil
  | cons l ls ih =>
    cases ls' with
    | nil => cases hlen
    | cons l' ls' =>
      rw [List.zipIdx_cons, List.zipIdx_cons, List.flatMap_cons, List.flatMap_cons]
      refine List.rel_append (h 0 l l' rfl rfl) (ih (Nat.succ.inj hlen) (k + 1) ?_)
      intro i m m' hm hm'
      have hi := h (i + 1) m m' hm hm'
      rwa [Nat.add_comm i 1, ← Nat.add_assoc] at hi

theorem rowsOf_forall₂ {R : Row → Row → Prop}
    (h : ∀ i l l', ls[i]? = some l → ls'[i]? = some l' → List.Forall₂ R (row i l) (row' i l')) :
    List.Forall₂ R (rowsOf row ls) (rowsOf row' ls') :=
  rowsFrom_forall₂ hlen 0 fun i l l' hl hl' => by
    rw [Nat.zero_add]
    exact h i l l' hl hl'

theorem rowsOf_congr
    (h : ∀ i l l', ls[i]? = some l → ls'[i]? = some l' → row i l = row' i l') :
    rowsOf row ls = rowsOf row' ls' := by
  rw [← List.forall₂_eq_eq_eq]
  refine rowsOf_forall₂ hlen fun i l l' hl hl' => ?_
  rw [List.forall₂_eq_eq_eq]
  exact h i l l' hl hl'

end

theorem rowsOf_concat (row : Nat → Text → List Row) (ls : List Text) (l : Text) :
    rowsOf row (ls ++ [l]) = rowsOf row ls ++ row ls.length l := by
  simp [rowsOf, List.zipIdx_append]

theorem rowsOf_cons (row : Nat → Text → List Row) (l : Text) (ls : List Text) :
    rowsOf row (l :: ls) = row 0 l ++ rowsOf (fun i => row (i + 1)) ls := by
  rw [rowsOf, List.zipIdx_cons, List.flatMap_cons, List.zipIdx_succ, List.flatMap_map]
  rfl

theorem mem_rowsOf {row : Nat → Text → List Row} {ls : List Text} {r : Row} :
    r ∈ rowsOf row ls ↔ ∃ i l, ls[i]? = some l ∧ r ∈ row i l := by
  rw [rowsOf, List.mem_flatMap]
  constructor
  · rintro ⟨⟨l, i⟩, hmem, hr⟩
    exact ⟨i, l, List.mem_zipIdx_iff_getElem?.1 hmem, hr⟩
  · rintro ⟨i, l, hl, hr⟩
    exact ⟨(l, i), List.mem_zipIdx_iff_getElem?.2 hl, hr⟩

/-! ## Places -/

theorem mem_lineRows {stack : Bool → Nat → Text → Option (List Row)} {phase : Phase} {included : Bool}
    {level : Nat} {place q : Place} {l : Text} {r : Row} {table : ReturnValue → Effect Action}
    (hr : r ∈ lineRows stack phase included level place l) (hq : r.job = .call q table) :
    q = place ∨ ∃ included level name rows, stack included level name = some rows ∧ r ∈ rows := by
  have hgetD : ∀ {level} {o : Option (List Row)}, r ∈ o.getD [failing level place] →
      q = place ∨ ∃ rows, o = some rows ∧ r ∈ rows := by
    intro level o ho
    cases o with
    | none =>
      rw [Option.getD_none, List.mem_singleton] at ho
      rw [ho] at hq
      cases hq
      exact .inl rfl
    | some rows => exact .inr ⟨rows, rfl, ho⟩
  have hnamed : ∀ {included level fail} {o : Option Text},
      r ∈ (o.bind (stack included level)).getD [failing fail place] →
      q = place ∨ ∃ included level name rows, stack included level name = some rows ∧ r ∈ rows := by
    intro included level fail o ho
    rcases hgetD ho with heq | ⟨rows, hrows, hmem⟩
    · exact .inl heq
    · obtain ⟨name, -, hname⟩ := Option.bind_eq_some_iff.1 hrows
      exact .inr ⟨included, level, name, rows, hname, hmem⟩
  unfold lineRows at hr
  split at hr
  · exact hnamed hr
  split at hr
  · cases hr
  split at hr
  · cases hr
  split at hr
  · exact hnamed hr
  split at hr
  · rcases List.mem_cons.1 hr with rfl | hr
    · cases hq
    · exact hnamed hr
  · rw [List.mem_singleton] at hr
    rw [hr] at hq
    cases hq
    exact .inl rfl

theorem place_of_mem_stackRows {read : Text → Option Text} {phase : Phase} {limit : Nat} {included : Bool}
    {level : Nat} {place q : Place} {text : Text} {r : Row} {table : ReturnValue → Effect Action}
    (hr : r ∈ stackRows read phase limit included level place text) (hq : r.job = .call q table) :
    ∃ i rest, q = place ++ i :: rest := by
  induction limit generalizing included level place text with
  | zero =>
    rw [stackRows_eq] at hr
    obtain ⟨i, l, -, hr⟩ := mem_rowsOf.1 hr
    rcases mem_lineRows hr hq with rfl | ⟨included, level, name, rows, hrows, -⟩
    · exact ⟨i, [], rfl⟩
    · cases hrows
  | succ limit ih =>
    rw [stackRows_eq] at hr
    obtain ⟨i, l, -, hr⟩ := mem_rowsOf.1 hr
    rcases mem_lineRows hr hq with rfl | ⟨included, level, name, rows, hrows, hr⟩
    · exact ⟨i, [], rfl⟩
    · obtain ⟨text, -, rfl⟩ := Option.map_eq_some_iff.1 hrows
      obtain ⟨j, rest, rfl⟩ := ih hr
      exact ⟨i, j :: rest, by simp⟩

/-! ## What a line is read for -/

section Lines

variable {stack : Bool → Nat → Text → Option (List Row)} {phase : Phase} {included : Bool} {level : Nat}
  {place : Place} {l l' : Text}

theorem lineRows_of_directive (h : directive l = directive l') :
    lineRows stack phase included level place l = lineRows stack phase included level place l' := by
  unfold lineRows isAtInclude atIncludeTarget head
  rw [h]

theorem lineRows_blank (h : directive l = []) : lineRows stack phase included level place l = [] := by
  have hempty : directive l = directive [] := h
  rw [lineRows_of_directive hempty]
  rfl

theorem lineRows_call {h : Head} (hh : head l = some h) (hat : isAtInclude l = false)
    (hstack : h.namesStack = false) : lineRows stack phase included level place l =
      if h.isOf included phase then [⟨level, .call place h.returns⟩] else [] := by
  rw [Head.namesStack, Bool.or_eq_false_iff] at hstack
  unfold lineRows
  rw [if_neg (by simp [hat]), hh]
  dsimp only
  cases h.isOf included phase with
  | true => simp [hstack]
  | false => simp

end Lines

/-! ## Lines that are read by themselves -/

structure ReadWhole (l : Text) : Prop where
  alone : continues l = false
  nul : '\x00' ∉ directive l
  cr : (directive l).getLast? ≠ some '\r'

theorem dropWhile_takeWhile {p q : Char → Bool} (h : ∀ c, p c = true → q c = true) (l : Text) :
    (l.takeWhile q).dropWhile p = (l.dropWhile p).takeWhile q := by
  induction l with
  | nil => rfl
  | cons c l ih =>
    cases hp : p c with
    | true => rw [List.takeWhile_cons_of_pos (h c hp), List.dropWhile_cons_of_pos hp,
        List.dropWhile_cons_of_pos hp, ih]
    | false =>
      rw [List.dropWhile_cons_of_neg (by simp [hp])]
      cases hq : q c with
      | true => rw [List.takeWhile_cons_of_pos hq, List.dropWhile_cons_of_neg (by simp [hp])]
      | false => rw [List.takeWhile_cons_of_neg (by simp [hq])]; rfl

theorem takeWhile_comm (p q : Char → Bool) (l : Text) :
    (l.takeWhile p).takeWhile q = (l.takeWhile q).takeWhile p := by
  rw [List.takeWhile_takeWhile, List.takeWhile_takeWhile]
  congr 1
  funext c
  simp [and_comm]

theorem directive_beforeNul_of_not_mem (h : '\x00' ∉ directive l) :
    directive (beforeNul l) = directive l := by
  have hblank : ∀ c : Char, (decide (c = ' ') || decide (c = '\t')) = true → decide (c ≠ '\x00') = true := by
    intro c hc
    rw [Bool.or_eq_true, decide_eq_true_eq, decide_eq_true_eq] at hc
    rcases hc with rfl | rfl <;> decide
  rw [directive, beforeNul, dropWhile_takeWhile hblank, takeWhile_comm]
  exact List.takeWhile_eq_self_iff.2 fun c hc => decide_eq_true fun heq => h (heq ▸ hc)

theorem directive_stripCr (h : (directive l).getLast? ≠ some '\r') : directive (stripCr l) = directive l := by
  rcases stripCr_cases l with heq | heq
  · rw [heq]
  · rw [heq] at h ⊢
    rw [stripCr_concat_cr]
    by_cases hhash : '#' ∈ stripCr l
    · rw [directive_append_of_mem hhash]
    · rw [directive_concat_cr hhash, List.getLast?_concat] at h
      exact absurd rfl h

theorem hash_mem_beforeNul (hmem : '#' ∈ l) (hnul : '\x00' ∉ directive l) : '#' ∈ beforeNul l := by
  obtain ⟨a, b, rfl, ha⟩ := List.eq_append_cons_of_mem hmem
  have hread : directive (a ++ '#' :: b) = a.dropWhile fun c => c = ' ' || c = '\t' := by
    have hall : ∀ c ∈ a.dropWhile (fun c => c = ' ' || c = '\t'), decide (c ≠ '#') = true :=
      fun c hc => decide_eq_true fun heq => ha (heq ▸ (List.dropWhile_sublist _).subset hc)
    rw [directive, List.dropWhile_append]
    split
    · next hempty =>
      rw [List.isEmpty_iff.1 hempty]
      rfl
    · rw [List.takeWhile_append_of_pos hall]
      simp
  have hbefore : '\x00' ∉ a := fun h => hnul (hread ▸ mem_dropWhile_of_mem (by decide) h)
  have hall : ∀ c ∈ a, decide (c ≠ '\x00') = true :=
    fun c hc => decide_eq_true fun heq => hbefore (heq ▸ hc)
  rw [beforeNul, List.takeWhile_append_of_pos hall]
  simp

theorem ReadWhole.stripCr (h : ReadWhole l) : ReadWhole (stripCr l) := by
  have hdirective := directive_stripCr h.cr
  refine ⟨?_, hdirective ▸ h.nul, hdirective ▸ h.cr⟩
  rcases stripCr_cases l with heq | heq
  · rw [heq]
    exact h.alone
  · by_cases hhash : '#' ∈ Lib.stripCr l
    · simp [continues, hash_mem_beforeNul hhash (hdirective ▸ h.nul)]
    · -- The carriage return would end what libpam reads.
      have hcr := h.cr
      rw [heq, directive_concat_cr hhash, List.getLast?_concat] at hcr
      exact absurd rfl hcr

theorem rowsOf_libpamLines {text : Text} (hwhole : ∀ l ∈ text.splitOn '\n', ReadWhole l)
    {row : Nat → Text → List Row} (hrow : ∀ i l l', directive l = directive l' → row i l = row i l')
    (hblank : ∀ i, row i [] = []) : rowsOf row (libpamLines text) = rowsOf row (lines text) := by
  have hpieces := List.dropLast_concat_getLast (List.splitOn_ne_nil '\n' text)
  generalize hlast : (text.splitOn '\n').getLast (List.splitOn_ne_nil '\n' text) = last at hpieces
  generalize hinit : (text.splitOn '\n').dropLast = init at hpieces
  have hread : ∀ l ∈ init, directive (beforeNul l) = directive (Lib.stripCr l) := by
    intro l hl
    have hl := hwhole l (hpieces ▸ List.mem_append_left _ hl)
    rw [directive_beforeNul_of_not_mem hl.nul, directive_stripCr hl.cr]
  have hfirst : rowsOf row (init.map beforeNul) = rowsOf row (init.map Lib.stripCr) := by
    refine rowsOf_congr (by simp) fun i l l' hl hl' => ?_
    rw [List.getElem?_map, Option.map_eq_some_iff] at hl hl'
    obtain ⟨m, hm, rfl⟩ := hl
    obtain ⟨m', hm', rfl⟩ := hl'
    cases hm.symm.trans hm'
    exact hrow i _ _ (hread m (List.mem_of_getElem? hm))
  have hlastWhole := hwhole last (hpieces ▸ List.mem_append_right _ (List.mem_singleton_self _))
  rw [libpamLines, joinLines_of_not_continues fun l hl => (hwhole l hl).alone, ← hpieces, List.map_append,
    List.map_singleton, rowsOf_concat, hfirst, List.length_map, lines, ← hpieces]
  simp only [List.dropLast_concat, List.getLast?_concat]
  by_cases hnil : last = []
  · rw [hnil]
    simp [beforeNul, hblank, Option.filter]
  · rw [Option.filter_some, if_pos (by simpa using hnil), Option.toList_some, rowsOf_concat,
      List.length_map, hrow _ _ _ (directive_beforeNul_of_not_mem hlastWhole.nul)]

end Irlume.Pam

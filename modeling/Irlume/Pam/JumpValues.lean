import Irlume.Lib.Encoding
import Irlume.Pam.Adjust
import Mathlib.Data.List.Pairwise

/-!
# What an adjusted line keeps

`with_jump_values` writes new digits over the digits of jumps in a bracketed control, and nothing else: the line
keeps every other character. The last part carries that to a whole text that `adjust` returns.
-/

namespace Irlume.Pam

open Irlume.Lib

/-! ## The pairs of a control -/

/-- A character that has no part in ending a bracketed control or what libpam reads of a line. -/
def plain (c : Char) : Bool := c ≠ '#' && c ≠ ']' && c ≠ '\\' && c ≠ '\x00'

def allDigits (t : Text) : Bool := t.all Char.isDigit

variable {c : Char}

theorem plain_of_digit (h : c.isDigit = true) : plain c = true := by
  have hne : ∀ d : Char, d.isDigit = false → c ≠ d := by
    intro d hd heq
    rw [heq, hd] at h
    cases h
  simp [plain, hne '#' (by decide), hne ']' (by decide), hne '\\' (by decide),
    hne '\x00' (by decide)]

theorem plain_of_controlBlank (h : controlBlank c = true) : plain c = true := by
  simp only [controlBlank, Bool.or_eq_true, decide_eq_true_eq] at h
  rcases h with ((((rfl | rfl) | rfl) | rfl) | rfl) | rfl <;> decide

theorem plain_of_mem_valueName {v : Value} (hv : v ∈ returnValues) (hc : c ∈ v.name) :
    plain c = true := by
  have hall : ∀ v ∈ returnValues, v.name.all plain = true := by decide
  exact List.all_eq_true.1 (hall v hv) c hc

variable {action : Action}

theorem plain_of_mem_actionName {name : Text}
    (h : (name, action) ∈ actionNames) (hc : c ∈ name) : plain c = true := by
  have hall : ∀ x ∈ actionNames, x.1.all plain = true := by decide
  exact List.all_eq_true.1 (hall _ h) c hc

theorem eq_append_of_startsWith {t p : Text} (h : startsWith t p = true) :
    t = p ++ t.drop p.length := by
  obtain ⟨rest, rfl⟩ := List.isPrefixOf_iff_prefix.1 h
  rw [List.drop_left]

theorem eq_append_of_dropWhile {t r : Text} {p : Char → Bool} (h : t.dropWhile p = r) :
    t = t.takeWhile p ++ r := by
  rw [← h, List.takeWhile_append_dropWhile]

theorem isDigit_of_mem_toString {n : Nat} (h : c ∈ (toString n).toList) :
    c.isDigit = true := by
  rw [Nat.toString_eq_repr, Nat.toList_repr] at h
  exact Nat.isDigit_of_mem_toDigits (by omega) (by omega) h

/-- How the text of an action is spelled: a jump with digits, any other with a name. -/
structure ActionText (action : Action) (txt : Text) : Prop where
  plain : ∀ c ∈ txt, plain c = true
  digits : ∀ n, action = .jump n → allDigits txt = true ∧ txt ≠ []

variable {b : Text}

theorem actionNames_apart : ∀ x ∈ actionNames, ∀ y ∈ actionNames,
    x.1.isPrefixOf y.1 = true → x = y := by
  decide

theorem actionNames_head : ∀ x ∈ actionNames, ∃ c rest, x.1 = c :: rest ∧ c.isDigit = false ∧
    controlBlank c = false := by
  intro x hx
  simp only [actionNames, List.mem_cons, List.not_mem_nil, or_false] at hx
  rcases hx with rfl | rfl | rfl | rfl | rfl | rfl
  all_goals exact ⟨_, _, rfl, by decide, by decide⟩

theorem find_actionName {x : Text × Action} (hx : x ∈ actionNames) (rest : Text) :
    (actionNames.find? fun y => startsWith (x.1 ++ rest) y.1) = some x := by
  have hsame : ∀ y ∈ actionNames, startsWith (x.1 ++ rest) y.1 = true ↔ y = x := by
    intro y hy
    constructor
    · intro hstart
      have hstart := List.isPrefixOf_iff_prefix.1 hstart
      rcases List.prefix_or_prefix_of_prefix hstart (List.prefix_append x.1 rest) with h | h
      · exact actionNames_apart y hy x hx (List.isPrefixOf_iff_prefix.2 h)
      · exact (actionNames_apart x hx y hy (List.isPrefixOf_iff_prefix.2 h)).symm
    · rintro rfl
      exact List.isPrefixOf_iff_prefix.2 (List.prefix_append _ _)
  cases hfind : actionNames.find? fun y => startsWith (x.1 ++ rest) y.1 with
  | none =>
    have hnone := List.find?_eq_none.1 hfind x hx
    exact absurd ((hsame x hx).2 rfl) hnone
  | some y =>
    have hstart := List.find?_some hfind
    rw [(hsame y (List.mem_of_find?_eq_some hfind)).1 hstart]

theorem find_actionName_digit {d : Char} (hd : d.isDigit = true) (rest : Text) :
    (actionNames.find? fun y => startsWith (d :: rest) y.1) = none := by
  rw [List.find?_eq_none]
  intro y hy hstart
  obtain ⟨c, tail, hname, hdigit, -⟩ := actionNames_head y hy
  rw [hname] at hstart
  obtain ⟨more, hmore⟩ := List.isPrefixOf_iff_prefix.1 hstart
  rw [List.cons_append] at hmore
  rw [← (List.cons.inj hmore).1, hdigit] at hd
  cases hd

/-- How an action is spelled where `rest` follows: a jump with all the digits there, any other with its name. -/
inductive Spells : Action → Text → Text → Prop
  | name {action : Action} {txt rest : Text} (h : (txt, action) ∈ actionNames) : Spells action txt rest
  | digits {txt rest : Text} (hdigits : ∀ c ∈ txt, c.isDigit = true)
    (hstop : ∀ c, rest.head? = some c → c.isDigit = false)
    (hrange : 0 < digitsValue txt ∧ digitsValue txt ≤ maxJump) : Spells (.jump (digitsValue txt)) txt rest

theorem actionAt_spells {length : Nat} (h : actionAt b = some (action, length)) :
    ∃ txt rest, b = txt ++ rest ∧ txt.length = length ∧ Spells action txt rest := by
  unfold actionAt at h
  split at h
  · next name act hfind =>
    obtain ⟨rfl, rfl⟩ : act = action ∧ name.length = length := by simpa using h
    have hstart := List.find?_some hfind
    exact ⟨name, _, eq_append_of_startsWith hstart, rfl, .name (List.mem_of_find?_eq_some hfind)⟩
  · simp only at h
    split at h
    · cases h
    · next hn =>
      obtain ⟨rfl, rfl⟩ : Action.jump (digitsValue (b.takeWhile Char.isDigit)) = action ∧
          (b.takeWhile Char.isDigit).length = length := by simpa using h
      refine ⟨_, _, List.takeWhile_append_dropWhile.symm, rfl,
        .digits (fun _ => List.mem_takeWhile_imp) (fun c hc => ?_) ?_⟩
      · have hnot := List.head?_dropWhile_not Char.isDigit b
        rw [hc] at hnot
        simpa using hnot
      · simp only [Bool.or_eq_true, decide_eq_true_eq] at hn
        omega

namespace Spells

variable {txt rest : Text}

theorem ne_nil_of_digits (h : 0 < digitsValue txt) : txt ≠ [] := by
  rintro rfl
  exact absurd h (by decide)

theorem actionAt (h : Spells action txt rest) : actionAt (txt ++ rest) = some (action, txt.length) := by
  cases h with
  | name hmem => rw [Pam.actionAt, find_actionName hmem]
  | digits hdigits hstop hrange =>
    have hnone : (actionNames.find? fun y => startsWith (txt ++ rest) y.1) = none := by
      obtain ⟨d, ds, hs⟩ := List.exists_cons_of_ne_nil (ne_nil_of_digits hrange.1)
      rw [hs]
      exact find_actionName_digit (hdigits d (by rw [hs]; exact List.mem_cons_self)) _
    have htake : (txt ++ rest).takeWhile Char.isDigit = txt := takeWhile_append_of_stop hdigits hstop
    unfold Pam.actionAt
    rw [hnone]
    simp only [htake]
    have hle : ¬(digitsValue txt = 0 ∨ maxJump < digitsValue txt) := by omega
    simp [hle]

theorem text (h : Spells action txt rest) : ActionText action txt := by
  cases h with
  | name hmem =>
    refine ⟨fun c hc => plain_of_mem_actionName hmem hc, fun n hn => ?_⟩
    have hnames : ∀ x ∈ actionNames, ∀ n, x.2 ≠ .jump n := by
      intro x hx n
      simp only [actionNames, List.mem_cons, List.not_mem_nil, or_false] at hx
      rcases hx with rfl | rfl | rfl | rfl | rfl | rfl <;> simp
    exact absurd hn (hnames _ hmem n)
  | digits hdigits _ hrange =>
    exact ⟨fun c hc => plain_of_digit (hdigits c hc),
      fun _ _ => ⟨List.all_eq_true.2 hdigits, ne_nil_of_digits hrange.1⟩⟩

theorem head (h : Spells action txt rest) : ∀ c, (txt ++ rest).head? = some c → controlBlank c = false := by
  intro c hc
  cases h with
  | name hmem =>
    obtain ⟨d, tail, hname, -, hblank⟩ := actionNames_head _ hmem
    rw [show txt = d :: tail from hname] at hc
    cases hc
    exact hblank
  | digits hdigits _ hrange =>
    obtain ⟨d, ds, rfl⟩ := List.exists_cons_of_ne_nil (ne_nil_of_digits hrange.1)
    cases hc
    have hd := hdigits c List.mem_cons_self
    have hne : ∀ e : Char, e.isDigit = false → c ≠ e := by
      intro e he heq
      rw [heq, he] at hd
      cases hd
    simp [controlBlank, hne ' ' (by decide), hne '\t' (by decide), hne '\n' (by decide),
      hne '\x0b' (by decide), hne '\x0c' (by decide), hne '\r' (by decide)]

theorem follows {rest' : Text} (h : Spells action txt rest)
    (hhead : ∀ c, c.isDigit = true → rest'.head? = some c → rest.head? = some c) : Spells action txt rest' := by
  cases h with
  | name hmem => exact .name hmem
  | digits hdigits hstop hrange =>
    refine .digits hdigits (fun c hc => ?_) hrange
    by_contra hdigit
    rw [Bool.not_eq_false] at hdigit
    rw [hstop c (hhead c hdigit hc)] at hdigit
    cases hdigit

theorem renumbered {old n : Nat} (h : Spells (.jump old) txt rest) (hn : 0 < n ∧ n ≤ maxJump) :
    Spells (.jump n) (toString n).toList rest := by
  have hvalue : digitsValue (toString n).toList = n := decimalValue_decimal n
  cases h with
  | name hmem => exact absurd hmem (by simp [actionNames])
  | digits _ hstop _ =>
    have hspells := Spells.digits (fun c hc => isDigit_of_mem_toString hc) hstop (hvalue.symm ▸ hn)
    rwa [hvalue] at hspells

end Spells

/-- How a control spells its next pair. -/
structure Spelling where
  blanks : Text
  value : Value
  gap : Text
  gap' : Text
  action : Action
  txt : Text

namespace Spelling

variable (w : Spelling)

def opening : Text := w.value.name ++ (w.gap ++ '=' :: w.gap')

/-- What stands before the action. -/
def lead : Text := w.blanks ++ w.opening

def pair (pos : Nat) : Pair where
  value := w.value
  action := w.action
  start := pos + w.lead.length
  stop := pos + (w.lead ++ w.txt).length

/-- The pair is read so where `rest` follows. -/
structure Before (rest : Text) : Prop where
  blanks : ∀ c ∈ w.blanks, controlBlank c = true
  value : w.value ∈ returnValues
  gap : ∀ c ∈ w.gap, controlBlank c = true
  gap' : ∀ c ∈ w.gap', controlBlank c = true
  action : Spells w.action w.txt rest

end Spelling

theorem pairAt_spelled {blanks : Text} {v : Value} {start stop : Nat} (hblanks : ∀ c ∈ blanks, controlBlank c = true)
    (h : pairAt b = some (v, action, start, stop)) :
    ∃ (w : Spelling) (rest : Text), w.Before rest ∧ blanks ++ b = w.lead ++ (w.txt ++ rest) ∧ b.drop stop = rest ∧
      ∀ pos, w.pair pos = ⟨v, action, pos + blanks.length + start, pos + blanks.length + stop⟩ := by
  unfold pairAt at h
  split at h
  · cases h
  · next value hfind =>
    simp only at h
    split at h
    · next afterEq hgap =>
      obtain ⟨⟨act, length⟩, hact, heq⟩ := Option.map_eq_some_iff.1 h
      obtain ⟨rfl, rfl, hst, hen⟩ : value = v ∧ act = action ∧ _ = start ∧ _ = stop := by simpa using heq
      obtain ⟨txt, rest, hwritten, rfl, hspells⟩ := actionAt_spells hact
      have hname := List.find?_some hfind
      let w : Spelling := ⟨blanks, value, (b.drop value.name.length).takeWhile controlBlank,
        afterEq.takeWhile controlBlank, act, txt⟩
      have hb : b = w.opening ++ (txt ++ rest) := by
        have h1 := eq_append_of_dropWhile hgap
        have h2 := eq_append_of_dropWhile hwritten
        calc b = value.name ++ b.drop value.name.length := eq_append_of_startsWith hname
          _ = value.name ++ (w.gap ++ '=' :: (w.gap' ++ (txt ++ rest))) := by rw [← h2, ← h1]
          _ = _ := by simp [Spelling.opening, w]
      have hstart : start = w.opening.length := by
        have hlength := congrArg List.length hb
        rw [hwritten] at hst
        rw [List.length_append] at hlength
        omega
      have hstop : stop = (w.opening ++ txt).length := by
        rw [List.length_append]
        omega
      refine ⟨w, rest, ⟨hblanks, List.mem_of_find?_eq_some hfind, fun _ => List.mem_takeWhile_imp,
        fun _ => List.mem_takeWhile_imp, hspells⟩, ?_, ?_, fun pos => ?_⟩
      · rw [Spelling.lead, List.append_assoc, ← hb]
      · rw [hb, hstop, ← List.append_assoc, List.drop_left]
      · simp only [w, Spelling.pair, Spelling.lead, hstart, hstop, List.length_append, Nat.add_assoc]
    · cases h

variable {pairs : List Pair} {turns pos : Nat}

theorem pairsFrom_cases (h : pairsFrom (turns + 1) pos b = some pairs) :
    ((∀ c ∈ b, controlBlank c = true) ∧ pairs = []) ∨
      ∃ (w : Spelling) (rest : Text) (tail : List Pair), w.Before rest ∧ b = w.lead ++ (w.txt ++ rest) ∧
        pairsFrom turns (w.pair pos).stop rest = some tail ∧ pairs = w.pair pos :: tail := by
  have hsplit : b = b.takeWhile controlBlank ++ b.drop (b.takeWhile controlBlank).length :=
    eq_append_of_startsWith (List.isPrefixOf_iff_prefix.2 (List.takeWhile_prefix _))
  have hblanks : ∀ c ∈ b.takeWhile controlBlank, controlBlank c = true := fun _ => List.mem_takeWhile_imp
  simp only [pairsFrom] at h
  split at h
  · next hnil =>
    left
    rw [hnil, List.append_nil] at hsplit
    rw [hsplit]
    exact ⟨hblanks, (Option.some.inj h).symm⟩
  · right
    split at h
    · cases h
    · next hpair =>
      obtain ⟨tail, htail, rfl⟩ := Option.map_eq_some_iff.1 h
      obtain ⟨w, rest, hw, hb, rfl, heq⟩ := pairAt_spelled hblanks hpair
      exact ⟨w, _, tail, hw, hsplit.trans hb, by rwa [heq], by rw [heq]⟩

/-- The action of a pair stands in the control `b`, whose first character is number `pos`. -/
def SpanIn (b : Text) (pos : Nat) (p : Pair) : Prop :=
  ∃ x txt y, b = x ++ (txt ++ y) ∧ pos + x.length = p.start ∧ pos + (x ++ txt).length = p.stop ∧
    ActionText p.action txt

variable {p : Pair}

theorem SpanIn.append (x : Text)
    (h : SpanIn b (pos + x.length) p) : SpanIn (x ++ b) pos p := by
  obtain ⟨x', txt, y, rfl, hstart, hstop, htxt⟩ := h
  refine ⟨x ++ x', txt, y, by simp, ?_, ?_, htxt⟩
  · rw [List.length_append]
    omega
  · simp only [List.length_append] at hstop ⊢
    omega

structure PairsIn (b : Text) (pos : Nat) (pairs : List Pair) : Prop where
  plain : ∀ c ∈ b, plain c = true
  equals : pairs ≠ [] → '=' ∈ b
  start : ∀ p ∈ pairs, pos ≤ p.start
  span : ∀ p ∈ pairs, SpanIn b pos p
  ordered : pairs.Pairwise fun p q => p.stop ≤ q.start

theorem PairsIn.append {x : Text}
    (hx : ∀ c ∈ x, Pam.plain c = true) (h : PairsIn b (pos + x.length) pairs) :
    PairsIn (x ++ b) pos pairs := by
  refine ⟨?_, ?_, ?_, ?_, h.ordered⟩
  · intro c hc
    rcases List.mem_append.1 hc with hc | hc
    · exact hx c hc
    · exact h.plain c hc
  · intro hne
    exact List.mem_append_right _ (h.equals hne)
  · intro p hp
    have hle := h.start p hp
    omega
  · intro p hp
    exact (h.span p hp).append x

theorem Spelling.Before.pairsIn {w : Spelling} {rest : Text} (h : w.Before rest)
    (hrest : PairsIn rest (w.pair pos).stop pairs) :
    PairsIn (w.lead ++ (w.txt ++ rest)) pos (w.pair pos :: pairs) := by
  have hlead : ∀ c ∈ w.lead ++ w.txt, Pam.plain c = true := by
    intro c hc
    simp only [lead, opening, List.mem_append, List.mem_cons] at hc
    rcases hc with (hc | hc | hc | rfl | hc) | hc
    · exact plain_of_controlBlank (h.blanks c hc)
    · exact plain_of_mem_valueName h.value hc
    · exact plain_of_controlBlank (h.gap c hc)
    · decide
    · exact plain_of_controlBlank (h.gap' c hc)
    · exact h.action.text.plain c hc
  have htail : PairsIn (w.lead ++ w.txt ++ rest) pos pairs := hrest.append hlead
  rw [← List.append_assoc]
  refine ⟨htail.plain, fun _ => by simp [lead, opening], ?_, ?_, List.pairwise_cons.2 ⟨hrest.start, hrest.ordered⟩⟩
  · intro p hp
    rcases List.mem_cons.1 hp with rfl | hp
    · exact Nat.le_add_right _ _
    · exact htail.start p hp
  · intro p hp
    rcases List.mem_cons.1 hp with rfl | hp
    · exact ⟨w.lead, w.txt, rest, List.append_assoc .., rfl, rfl, h.action.text⟩
    · exact htail.span p hp

theorem pairsFrom_in (h : pairsFrom turns pos b = some pairs) : PairsIn b pos pairs := by
  induction turns generalizing pos b pairs with
  | zero => cases h
  | succ turns ih =>
    rcases pairsFrom_cases h with ⟨hblank, rfl⟩ | ⟨w, rest, tail, hw, rfl, htail, rfl⟩
    · exact ⟨fun c hc => plain_of_controlBlank (hblank c hc), by simp, by simp, by simp, .nil⟩
    · exact hw.pairsIn (ih htail)

variable {control : Text}

theorem controlPairsAt_in
    (h : controlPairsAt control = some pairs) : PairsIn control 0 pairs := pairsFrom_in h

theorem SpanIn.stop_le (h : SpanIn b 0 p) : p.stop ≤ b.length := by
  obtain ⟨x, txt, y, rfl, -, hstop, -⟩ := h
  simp only [List.length_append] at hstop ⊢
  omega

theorem PairsIn.apart (h : PairsIn b pos pairs)
    {p q : Pair} (hp : p ∈ pairs) (hq : q ∈ pairs) (hne : p ≠ q) :
    p.stop ≤ q.start ∨ q.stop ≤ p.start := by
  have hsymm : Std.Symm fun p q : Pair => p.stop ≤ q.start ∨ q.stop ≤ p.start := ⟨fun _ _ => Or.symm⟩
  have heither : pairs.Pairwise fun p q => p.stop ≤ q.start ∨ q.stop ≤ p.start :=
    h.ordered.imp fun hle => Or.inl hle
  exact heither.forall hp hq hne

/-! ## Writing digits over digits -/

def SameButDigits (t t' : Text) : Prop :=
  t'.filter (!Char.isDigit ·) = t.filter (!Char.isDigit ·) ∧
    ((∀ c ∈ t, plain c = true) → ∀ c ∈ t', plain c = true)

theorem SameButDigits.refl (t : Text) : SameButDigits t t := ⟨rfl, fun h => h⟩

theorem SameButDigits.trans {t t' t'' : Text} (h : SameButDigits t t') (h' : SameButDigits t' t'') :
    SameButDigits t t'' := ⟨h'.1.trans h.1, fun hp => h'.2 (h.2 hp)⟩

theorem filter_digits {t : Text} (h : ∀ c ∈ t, c.isDigit = true) :
    t.filter (!Char.isDigit ·) = [] := by
  rw [List.filter_eq_nil_iff]
  intro c hc
  simp [h c hc]

theorem replaceRange_append (x ds y : Text) (n : Nat) :
    replaceRange (x ++ (ds ++ y)) x.length (x ++ ds).length n = x ++ ((toString n).toList ++ y) := by
  rw [replaceRange, List.take_left, ← List.append_assoc, List.drop_left, List.append_assoc]

theorem sameButDigits_append {ds : Text} (hds : allDigits ds = true) (x y : Text) (n : Nat) :
    SameButDigits (x ++ (ds ++ y)) (x ++ ((toString n).toList ++ y)) := by
  constructor
  · have hold := filter_digits (List.all_eq_true.1 hds)
    have hnew := filter_digits fun c (hc : c ∈ (toString n).toList) => isDigit_of_mem_toString hc
    simp only [List.filter_append, hold, hnew]
  · intro hplain c hc
    simp only [List.mem_append] at hc hplain
    rcases hc with hc | hc | hc
    · exact hplain c (.inl hc)
    · exact plain_of_digit (isDigit_of_mem_toString hc)
    · exact hplain c (.inr (.inr hc))

theorem SpanIn.take {m n : Nat} (h : SpanIn b 0 p) (hp : p.action = .jump n)
    (hm : p.stop ≤ m) : ∃ ds y, allDigits ds = true ∧ b.take m = b.take p.start ++ (ds ++ y) ∧
      (b.take p.start ++ ds).length = p.stop ∧ (b.take p.start).length = p.start := by
  obtain ⟨x, ds, y, rfl, hstart, hstop, htxt⟩ := h
  rw [Nat.zero_add] at hstart hstop
  have hx : (x ++ (ds ++ y)).take p.start = x := by rw [← hstart, List.take_left]
  refine ⟨ds, y.take (m - p.stop), (htxt.digits n hp).1, ?_, by rw [hx, hstop], by rw [hx, hstart]⟩
  rw [hx, ← List.append_assoc, ← List.append_assoc, List.take_append, hstop,
    List.take_of_length_le (by omega)]

theorem foldl_replaceRange {control pre post : Text} {spans : List (Pair × Nat)} {m : Nat}
    {tail : Text} (hspan : ∀ s ∈ spans, SpanIn control 0 s.1 ∧ ∃ n, s.1.action = .jump n)
    (hsorted : spans.Pairwise fun s u => u.1.stop ≤ s.1.start) (hm : ∀ s ∈ spans, s.1.stop ≤ m) :
    ∃ control', SameButDigits (control.take m ++ tail) control' ∧
      spans.foldl (fun out (p, n) => replaceRange out (pre.length + p.start) (pre.length + p.stop) n)
        (pre ++ ((control.take m ++ tail) ++ post)) = pre ++ (control' ++ post) := by
  induction spans generalizing m tail with
  | nil => exact ⟨_, .refl _, rfl⟩
  | cons s spans ih =>
    obtain ⟨p, n⟩ := s
    obtain ⟨hin, old, hjump⟩ := hspan (p, n) List.mem_cons_self
    obtain ⟨ds, y, hds, htake, hstop, hstart⟩ := hin.take hjump (hm (p, n) List.mem_cons_self)
    rw [List.pairwise_cons] at hsorted
    obtain ⟨control', hsame, hfold⟩ := @ih p.start ((toString n).toList ++ (y ++ tail))
      (fun u hu => hspan u (List.mem_cons_of_mem _ hu)) hsorted.2 (fun u hu => hsorted.1 u hu)
    refine ⟨control', ?_, ?_⟩
    · rw [htake]
      apply SameButDigits.trans _ hsame
      have h := sameButDigits_append hds (control.take p.start) (y ++ tail) n
      simpa only [List.append_assoc] using h
    · rw [List.foldl_cons, ← hfold]
      congr 1
      have h := replaceRange_append (pre ++ control.take p.start) ds (y ++ (tail ++ post)) n
      rw [List.append_assoc pre _ ds, List.length_append, List.length_append, hstart, hstop] at h
      simpa only [htake, List.append_assoc] using h

/-! ## Reading a line whose control changes -/

theorem bracketed_append (t : Text) : (bracketed t).1 ++ (bracketed t).2 = t := by
  fun_induction bracketed t with
  | case1 => rfl
  | case2 => rfl
  | case3 rest field rest' heq ih => simpa [heq] using ih
  | case4 c rest _ _ field rest' heq ih => simpa [heq] using ih

theorem bracketed_rest (t : Text) : (bracketed t).2 = [] ∨ ∃ r, (bracketed t).2 = ']' :: r := by
  fun_induction bracketed t with
  | case1 => exact .inl rfl
  | case2 rest => exact .inr ⟨rest, rfl⟩
  | case3 rest field rest' heq ih => simpa [heq] using ih
  | case4 c rest _ _ field rest' heq ih => simpa [heq] using ih

theorem bracketed_closed {t r : Text} (h : (bracketed t).2 = ']' :: r) (r' : Text) :
    bracketed ((bracketed t).1 ++ ']' :: r') = ((bracketed t).1, ']' :: r') := by
  fun_induction bracketed t with
  | case1 => cases h
  | case2 rest => simp [bracketed]
  | case3 rest field rest' heq ih =>
    rw [heq] at ih
    simp [bracketed, ih h]
  | case4 c rest hclose hesc field rest' heq ih =>
    rw [heq] at ih
    have htail := ih h
    have hrest : rest = field ++ ']' :: r := by
      have happend := bracketed_append rest
      rw [heq] at happend
      rw [← happend, ← h]
    simp only [List.cons_append]
    rw [bracketed.eq_4 _ _ hclose, htail]
    intro x hx hfield
    -- A `\]` would start at this character in the field as it was.
    cases field with
    | nil => exact hesc r hx hrest
    | cons d field =>
      obtain ⟨rfl, -⟩ := List.cons_eq_cons.1 hfield
      exact hesc _ hx hrest

theorem bracketed_of_plain (h : ∀ c ∈ control, plain c = true) (r : Text) :
    bracketed (control ++ ']' :: r) = (control, ']' :: r) := by
  induction control with
  | nil => rfl
  | cons c control ih =>
    have hc : c ≠ ']' ∧ c ≠ '\\' := by
      have hplain := h c List.mem_cons_self
      simp only [plain, Bool.and_eq_true, decide_eq_true_eq] at hplain
      exact ⟨hplain.1.1.2, hplain.1.2⟩
    have htail := ih fun d hd => h d (List.mem_cons_of_mem _ hd)
    rw [List.cons_append, bracketed.eq_4 _ _ hc.1, htail]
    intro x hx
    exact absurd hx hc.2

/-- The next field with what is before it, the bracket that opens it included, and what is after it. -/
def fieldSpan (rest : Text) : Option (Text × Text × Text) :=
  match rest.dropWhile isFieldDelimiter with
  | [] => none
  | '[' :: inner =>
    some (rest.takeWhile isFieldDelimiter ++ ['['], (bracketed inner).1, (bracketed inner).2)
  | s => some (rest.takeWhile isFieldDelimiter, s.takeWhile (!isFieldDelimiter ·),
      s.dropWhile (!isFieldDelimiter ·))

/-- What is read next after a field: not the bracket that closes it. -/
def afterSpan (b a : Text) : Text := if b.getLast? = some '[' then a.drop 1 else a

/-- What is before a field, the field and what is after it: the field is a word, or a text in brackets. -/
inductive Span : Text → Text → Text → Prop where
  | word {b f a : Text} (blank : ∀ c ∈ b, isFieldDelimiter c = true) (ne : f ≠ [])
      (opens : f.head? ≠ some '[') (chars : ∀ c ∈ f, isFieldDelimiter c = false)
      (stop : ∀ c, a.head? = some c → isFieldDelimiter c = true) : Span b f a
  | bracket {b f a : Text} (blank : ∀ c ∈ b, isFieldDelimiter c = true)
      (closed : bracketed (f ++ a) = (f, a)) : Span (b ++ ['[']) f a

section Span

variable {t b f a rest : Text} {c : Char}

@[simp] theorem afterSpan_bracket : afterSpan (b ++ ['[']) a = a.drop 1 := by
  simp [afterSpan]

@[simp] theorem afterSpan_nil : afterSpan b [] = [] := by
  simp [afterSpan]

theorem afterSpan_blank (h : ∀ c ∈ b, isFieldDelimiter c = true) : afterSpan b a = a := by
  refine if_neg fun hlast => ?_
  exact absurd (h _ (List.mem_of_getLast? hlast)) (by decide)

theorem fieldSpan_iff : fieldSpan t = some (b, f, a) ↔ Span b f a ∧ t = b ++ (f ++ a) := by
  constructor
  · intro h
    have hblank : ∀ c ∈ t.takeWhile isFieldDelimiter, isFieldDelimiter c = true :=
      fun c hc => List.mem_takeWhile_imp hc
    unfold fieldSpan at h
    split at h
    · cases h
    · next inner hs =>
      cases h
      refine ⟨.bracket hblank (by rw [bracketed_append]), ?_⟩
      rw [bracketed_append, List.append_assoc]
      exact eq_append_of_dropWhile hs
    · next hnil hopen =>
      cases h
      refine ⟨.word hblank ?_ ?_ ?_ ?_, ?_⟩
      · intro hempty
        obtain ⟨d, s, hs⟩ := List.exists_cons_of_ne_nil hnil
        have hd := List.head?_dropWhile_not isFieldDelimiter t
        rw [hs] at hd hempty
        simp_all
      · intro hhead
        cases hs : t.dropWhile isFieldDelimiter with
        | nil => exact hnil hs
        | cons d s =>
          rw [hs, List.takeWhile_cons] at hhead
          split at hhead
          · exact hopen s (by rw [hs, Option.some.inj hhead])
          · cases hhead
      · intro d hd
        simpa using List.mem_takeWhile_imp hd
      · intro d hd
        have hnot := List.head?_dropWhile_not (!isFieldDelimiter ·) (t.dropWhile isFieldDelimiter)
        rw [hd] at hnot
        simpa using hnot
      · rw [List.takeWhile_append_dropWhile, List.takeWhile_append_dropWhile]
  · rintro ⟨hspan, rfl⟩
    cases hspan with
    | word blank ne opens chars stop =>
      obtain ⟨d, f, rfl⟩ := List.exists_cons_of_ne_nil ne
      have hfirst : ∀ c, (d :: f ++ a).head? = some c → isFieldDelimiter c = false := by
        intro c hc
        exact chars c (by simp_all)
      have hin : ∀ c ∈ d :: f, (!isFieldDelimiter c) = true := fun c hc => by rw [chars c hc]; rfl
      have hout : ∀ c, a.head? = some c → (!isFieldDelimiter c) = false :=
        fun c hc => by rw [stop c hc]; rfl
      unfold fieldSpan
      rw [dropWhile_append_of_stop blank hfirst, takeWhile_append_of_stop blank hfirst]
      split
      · next h => cases h
      · next h => exact absurd (congrArg some (List.cons_eq_cons.1 h).1) opens
      · rw [takeWhile_append_of_stop hin hout, dropWhile_append_of_stop hin hout]
    | @bracket b _ _ blank closed =>
      have hfirst : ∀ c, ('[' :: (f ++ a)).head? = some c → isFieldDelimiter c = false := by
        simp [isFieldDelimiter]
      unfold fieldSpan
      rw [List.append_assoc, List.singleton_append, dropWhile_append_of_stop blank hfirst,
        takeWhile_append_of_stop blank hfirst]
      simp only [closed]

theorem fieldSpan_eq_none : fieldSpan t = none ↔ ∀ c ∈ t, isFieldDelimiter c = true := by
  rw [← List.dropWhile_eq_nil_iff]
  unfold fieldSpan
  split
  · next h => exact ⟨fun _ => h, fun _ => rfl⟩
  · next h =>
    rw [h]
    simp
  · next hnil _ => exact ⟨fun h => (Option.some_ne_none _ h).elim, fun h => absurd h hnil⟩

theorem nextField_eq_fieldSpan (t : Text) :
    nextField t = (fieldSpan t).map fun (b, f, a) => (f, afterSpan b a) := by
  have hblank : ∀ c ∈ t.takeWhile isFieldDelimiter, isFieldDelimiter c = true :=
    fun c hc => List.mem_takeWhile_imp hc
  unfold nextField fieldSpan
  generalize t.dropWhile isFieldDelimiter = s
  split
  · rfl
  · simp only [Option.map_some, afterSpan_bracket]
  · simp only [Option.map_some, afterSpan_blank hblank]

theorem Span.nextField_eq (h : Span b f a) : nextField (b ++ (f ++ a)) = some (f, afterSpan b a) := by
  rw [nextField_eq_fieldSpan, fieldSpan_iff.2 ⟨h, rfl⟩, Option.map_some]

theorem nextField_spec (h : nextField t = some (f, rest)) :
    ∃ b a, Span b f a ∧ t = b ++ (f ++ a) ∧ rest = afterSpan b a := by
  rw [nextField_eq_fieldSpan] at h
  obtain ⟨⟨b, f', a⟩, hspan, heq⟩ := Option.map_eq_some_iff.1 h
  obtain ⟨rfl, rfl⟩ := Prod.mk.inj heq
  obtain ⟨hspan, ht⟩ := fieldSpan_iff.1 hspan
  exact ⟨b, a, hspan, ht, rfl⟩

theorem nextField_before {d f rest : Text} (h : nextField d = some (f, rest)) (hne : rest ≠ []) :
    ∃ c, d = c ++ rest ∧
      ∀ rest', ((rest.head?.all isFieldDelimiter) = true → rest'.head? = rest.head?) →
        nextField (c ++ rest') = some (f, rest') := by
  obtain ⟨b, a, hspan, rfl, rfl⟩ := nextField_spec h
  cases hspan with
  | word blank ne opens chars stop =>
    rw [afterSpan_blank blank]
    refine ⟨b ++ f, by simp, fun rest' hhead => ?_⟩
    have hstop : ∀ c, rest'.head? = some c → isFieldDelimiter c = true := by
      rw [hhead ?_]
      · exact stop
      · cases hc : a.head? with
        | none => rfl
        | some c => exact stop c hc
    rw [List.append_assoc, (Span.word blank ne opens chars hstop).nextField_eq, afterSpan_blank blank]
  | @bracket b _ _ blank closed =>
    rw [afterSpan_bracket] at hne ⊢
    have hrest := bracketed_rest (f ++ a)
    rw [closed] at hrest
    rcases hrest with rfl | ⟨r, rfl⟩
    · exact absurd rfl hne
    · refine ⟨b ++ '[' :: (f ++ [']']), by simp, fun rest' _ => ?_⟩
      have hclosed := bracketed_closed (congrArg Prod.snd closed) rest'
      rw [closed] at hclosed
      simpa using (Span.bracket blank hclosed).nextField_eq

end Span

theorem nextField_local {d f rest : Text} (h : nextField d = some (f, rest)) (hne : rest ≠ []) :
    ∃ c, d = c ++ rest ∧
      ∀ rest', rest'.head? = rest.head? → nextField (c ++ rest') = some (f, rest') := by
  obtain ⟨c, hc, hread⟩ := nextField_before h hne
  exact ⟨c, hc, fun rest' hhead => hread rest' fun _ => hhead⟩

def around (pre control post : Text) : Text := pre ++ '[' :: (control ++ ']' :: post)

/-- `pre` is read up to the bracket that opens a line's control, the type before it as `kind`. -/
structure OpensControl (pre kind : Text) : Prop where
  comment : '#' ∉ pre
  rule : eqIgnoreAsciiCase kind "@include" = false
  read : ∀ x, ∃ gap, (∀ c ∈ gap, isFieldDelimiter c = true) ∧
    typeField ((pre ++ '[' :: x).dropWhile fun c => c = ' ' || c = '\t') = some (kind, gap ++ '[' :: x)

theorem ne_of_plain (h : plain c = true) : c ≠ '#' ∧ c ≠ '\x00' := by
  simp only [plain, Bool.and_eq_true, decide_eq_true_eq] at h
  exact ⟨h.1.1.1, h.2⟩

theorem takeWhile_around {p : Char → Bool} {pre control : Text} (hpre : ∀ c ∈ pre, p c = true)
    (hcontrol : ∀ c ∈ control, p c = true) (hopen : p '[' = true) (hclose : p ']' = true)
    (post : Text) :
    (around pre control post).takeWhile p = around pre control (post.takeWhile p) := by
  rw [around, List.takeWhile_append_of_pos hpre, List.takeWhile_cons_of_pos hopen,
    List.takeWhile_append_of_pos hcontrol, List.takeWhile_cons_of_pos hclose, around]

theorem dropWhile_blanks_around (pre x : Text) :
    (pre ++ '[' :: x).dropWhile (fun c => c = ' ' || c = '\t') =
      pre.dropWhile (fun c => c = ' ' || c = '\t') ++ '[' :: x := by
  induction pre with
  | nil => simp
  | cons c pre ih =>
    rw [List.cons_append, List.dropWhile_cons, List.dropWhile_cons]
    split
    · exact ih
    · rfl

section Around

variable {pre kind control control' : Text}

section

variable (h : OpensControl pre kind)

include h

variable (hplain : ∀ c ∈ control, plain c = true)

include hplain

theorem directive_around
    (post : Text) :
    directive (around pre control post) =
      (around pre control (post.takeWhile (· ≠ '#'))).dropWhile fun c => c = ' ' || c = '\t' := by
  have hcontrol : ∀ c ∈ control, decide (c ≠ '#') = true := by
    intro c hc
    simpa using (ne_of_plain (hplain c hc)).1
  have hpre : ∀ c ∈ pre.dropWhile (fun c => c = ' ' || c = '\t'), decide (c ≠ '#') = true := by
    intro c hc
    have hne : c ≠ '#' := fun heq => h.comment (heq ▸ (List.dropWhile_sublist _).subset hc)
    simpa using hne
  rw [directive, around, dropWhile_blanks_around, ← around,
    takeWhile_around hpre hcontrol (by decide) (by decide), around, around, dropWhile_blanks_around]

theorem head_around
    (post : Text) :
    head (around pre control post) = some {
      phase := (phases.find? fun p => eqIgnoreAsciiCase p.name kind).getD .auth
      control
      rest := post.takeWhile (· ≠ '#')
      knownType := (phases.find? fun p => eqIgnoreAsciiCase p.name kind).isSome } := by
  obtain ⟨gap, hgap, hread⟩ := h.read (control ++ ']' :: post.takeWhile (· ≠ '#'))
  have hfield : nextField (gap ++ '[' :: (control ++ ']' :: post.takeWhile (· ≠ '#'))) =
      some (control, post.takeWhile (· ≠ '#')) := by
    simpa using (Span.bracket hgap (bracketed_of_plain hplain _)).nextField_eq
  unfold head
  rw [directive_around h hplain, around, hread]
  simp only [h.rule, hfield]
  rfl

theorem ruleNamesModule_around (hplain' : ∀ c ∈ control', plain c = true)
    (heq : '=' ∈ control) (heq' : '=' ∈ control') (post modul : Text) :
    ruleNamesModule (around pre control post) modul =
      ruleNamesModule (around pre control' post) modul := by
  have hstack : ∀ {c : Text}, '=' ∈ c → ∀ word : Text, '=' ∉ word.map Char.toLower →
      eqIgnoreAsciiCase c word = false := by
    intro c hc word hword
    rw [eqIgnoreAsciiCase, beq_eq_false_iff_ne]
    intro hmap
    apply hword
    rw [← hmap]
    exact List.mem_map.2 ⟨'=', hc, by decide⟩
  have hnames : ∀ {c : Text}, '=' ∈ c →
      (eqIgnoreAsciiCase c "include" || eqIgnoreAsciiCase c "substack") = false := by
    intro c hc
    rw [hstack hc _ (by decide), hstack hc _ (by decide)]
    rfl
  simp only [ruleNamesModule, rule, head_around h hplain, head_around h hplain', Head.namesStack,
    Head.isInclude, Head.isSubstack, hnames heq, hnames heq', Head.fieldsAfterControl]
  split
  · rfl
  · split <;> rfl

end

theorem isSome_irlumeRule (l : Text) : (irlumeRule l).isSome = ruleNamesModule l moduleName := by
  unfold irlumeRule ruleNamesModule
  cases rule l with
  | none => rfl
  | some r => by_cases h : moduleFileName r.modulePath = moduleName <;> simp [h]

theorem contains_append_of_not_mem {a b pattern : Text} {c : Char} (h : c ∉ a) :
    contains (a ++ b) (c :: pattern) = contains b (c :: pattern) := by
  unfold contains
  rw [decide_eq_decide]
  induction a with
  | nil => rfl
  | cons d a ih =>
    have hd : c ≠ d := fun heq => h (heq ▸ List.mem_cons_self)
    rw [List.cons_append, List.infix_cons_iff, ih fun hm => h (List.mem_cons_of_mem _ hm)]
    constructor
    · intro hor
      rcases hor with hpre | hin
      · exact absurd (List.cons_prefix_cons.1 hpre).1 hd
      · exact hin
    · exact .inr

theorem contains_around (h : '#' ∉ pre) (hplain : ∀ c ∈ control, plain c = true)
    (post tag : Text) :
    contains (around pre control post) ('#' :: tag) = contains post ('#' :: tag) := by
  have hcontrol : '#' ∉ pre ++ '[' :: (control ++ [']']) := by
    intro hmem
    simp only [List.mem_append, List.mem_cons] at hmem
    rcases hmem with hmem | hmem | hmem | hmem
    · exact h hmem
    · cases hmem
    · exact (ne_of_plain (hplain _ hmem)).1 rfl
    · simp at hmem
  have hsplit : around pre control post = (pre ++ '[' :: (control ++ [']'])) ++ post := by
    simp [around]
  rw [hsplit, contains_append_of_not_mem hcontrol]

theorem isIrlumeLine_congr {l l' : Text}
    (hrule : ∀ modul, ruleNamesModule (beforeNul l) modul = ruleNamesModule (beforeNul l') modul)
    (htag : ∀ tag, contains (beforeNul l) ('#' :: tag) = contains (beforeNul l') ('#' :: tag)) :
    isIrlumeLine l = isIrlumeLine l' := by
  have hlanding : landingTag = '#' :: landingTag.tail := by decide
  have hinert : inertTag = '#' :: inertTag.tail := by decide
  have hkeyring : keyringTag = '#' :: keyringTag.tail := by decide
  have h1 := htag landingTag.tail
  have h2 := htag inertTag.tail
  have h3 := htag keyringTag.tail
  rw [← hlanding] at h1
  rw [← hinert] at h2
  rw [← hkeyring] at h3
  simp only [isIrlumeLine, isSome_irlumeRule, hrule, h1, h2, h3]

theorem isIrlumeLine_around (h : OpensControl pre kind)
    (hplain : ∀ c ∈ control, plain c = true) (hplain' : ∀ c ∈ control', plain c = true)
    (heq : '=' ∈ control) (heq' : '=' ∈ control') (post : Text) :
    isIrlumeLine (around pre control post) = isIrlumeLine (around pre control' post) := by
  by_cases hnul : '\x00' ∈ pre
  · -- libpam reads neither line up to its control.
    have hread : ∀ c : Text, beforeNul (around pre c post) = beforeNul pre :=
      fun c => takeWhile_append_of_mem (by decide) hnul _
    unfold isIrlumeLine
    rw [hread, hread]
  · have hpre : ∀ c ∈ pre, decide (c ≠ '\x00') = true := by
      intro c hc
      have hne : c ≠ '\x00' := fun heq => hnul (heq ▸ hc)
      simpa using hne
    have hread : ∀ {c : Text}, (∀ d ∈ c, plain d = true) →
        beforeNul (around pre c post) = around pre c (beforeNul post) := by
      intro c hc
      apply takeWhile_around hpre _ (by decide) (by decide)
      intro d hd
      simpa using (ne_of_plain (hc d hd)).2
    apply isIrlumeLine_congr
    · intro modul
      rw [hread hplain, hread hplain']
      exact ruleNamesModule_around h hplain hplain' heq heq' _ _
    · intro tag
      rw [hread hplain, hread hplain', contains_around h.comment hplain,
        contains_around h.comment hplain']

end Around

/-! ## A line with new jump values -/

theorem controlStart_eq_some {line control : Text} {start : Nat}
    (h : controlStart line control = some start) :
    ∃ kind rest inner, typeField (directive line) = some (kind, rest) ∧
      rest.dropWhile isFieldDelimiter = '[' :: inner ∧
      (line)[start + control.length]? = some ']' ∧
      start = line.length - (line.dropWhile fun c => c = ' ' || c = '\t').length +
        ((directive line).length - inner.length) := by
  simp only [controlStart] at h
  split at h
  · cases h
  · next kind rest htype =>
    split at h
    · next inner hinner =>
      split at h
      · next hclosed =>
        cases h
        exact ⟨kind, rest, inner, htype, hinner, hclosed, rfl⟩
      · cases h
    · cases h

structure LineParts (line blanks comment : Text) : Prop where
  eq : line = blanks ++ (directive line ++ comment)
  blank : ∀ c ∈ blanks, (c = ' ' || c = '\t') = true
  hash : ∀ c, comment.head? = some c → c = '#'
  width : blanks.length = line.length - (line.dropWhile fun c => c = ' ' || c = '\t').length

theorem lineParts (line : Text) : LineParts line (line.takeWhile fun c => c = ' ' || c = '\t')
    ((line.dropWhile fun c => c = ' ' || c = '\t').dropWhile (· ≠ '#')) := by
  have hread : line = (line.takeWhile fun c => c = ' ' || c = '\t') ++
      line.dropWhile fun c => c = ' ' || c = '\t' := List.takeWhile_append_dropWhile.symm
  refine ⟨?_, ?_, ?_, ?_⟩
  · rw [directive, List.takeWhile_append_dropWhile]
    exact hread
  · intro c hc
    exact List.mem_takeWhile_imp (p := fun c => c = ' ' || c = '\t') hc
  · intro c hc
    have hnot := List.head?_dropWhile_not (fun c : Char => decide (c ≠ '#'))
      (line.dropWhile fun c => c = ' ' || c = '\t')
    rw [hc] at hnot
    simpa using hnot
  · have hlength := congrArg List.length hread
    rw [List.length_append] at hlength
    omega

theorem directive_first {line : Text} {a : Char} (h : (directive line).head? = some a) :
    (a = ' ' || a = '\t') = false := by
  have hfirst := List.head?_dropWhile_not (fun c : Char => c = ' ' || c = '\t') line
  rw [directive] at h
  cases hread : line.dropWhile fun c => c = ' ' || c = '\t' with
  | nil =>
    rw [hread] at h
    cases h
  | cons b read =>
    rw [hread] at h hfirst
    rw [List.takeWhile_cons] at h
    split at h
    · cases h
      simpa using hfirst
    · cases h

theorem opensControl_of_parts {line blanks comment kind c gap inner : Text}
    (hparts : LineParts line blanks comment) (hrule : eqIgnoreAsciiCase kind "@include" = false)
    (hd : directive line = c ++ (gap ++ '[' :: inner)) (hgap : ∀ d ∈ gap, isFieldDelimiter d = true)
    (hlocal : ∀ x, typeField (c ++ (gap ++ '[' :: x)) = some (kind, gap ++ '[' :: x)) :
    OpensControl (blanks ++ (c ++ gap)) kind := by
  refine ⟨?_, hrule, ?_⟩
  · intro hmem
    rcases List.mem_append.1 hmem with hmem | hmem
    · have hblank := hparts.blank _ hmem
      revert hblank
      decide
    · have hin : '#' ∈ directive line := by
        rw [hd, ← List.append_assoc]
        exact List.mem_append_left _ hmem
      have hne := List.mem_takeWhile_imp hin
      simp at hne
  · intro x
    refine ⟨gap, hgap, ?_⟩
    rw [List.append_assoc, List.append_assoc, dropWhile_append_of_stop hparts.blank, hlocal]
    intro a ha
    apply @directive_first line
    rw [← ha, hd]
    simp [List.head?_append]

theorem head_of_typeField {line kind rest : Text} {h : Head} (hh : head line = some h)
    (htype : typeField (directive line) = some (kind, rest)) :
    eqIgnoreAsciiCase kind "@include" = false ∧ h.control = ((nextField rest).getD ([], [])).1 := by
  unfold head at hh
  rw [htype] at hh
  simp only at hh
  split at hh
  · cases hh
  · next hrule =>
    cases hh
    exact ⟨by simpa using hrule, rfl⟩

theorem controlStart_around {line : Text} {h : Head} {start : Nat} (hh : head line = some h)
    (hstart : controlStart line h.control = some start) :
    ∃ pre kind post, OpensControl pre kind ∧ line = around pre h.control post ∧
      (pre ++ ['[']).length = start := by
  obtain ⟨kind, rest, inner, htype, hopen, hclosed, rfl⟩ := controlStart_eq_some hstart
  have hparts := lineParts line
  obtain ⟨⟨k, rest'⟩, hfield, hk⟩ := Option.map_eq_some_iff.1 htype
  obtain ⟨hkind, rfl⟩ : (afterStart k "-").getD k = kind ∧ rest' = rest := by simpa using hk
  have hrest := eq_append_of_dropWhile hopen
  have hgap : ∀ d ∈ rest'.takeWhile isFieldDelimiter, isFieldDelimiter d = true :=
    fun d hd => List.mem_takeWhile_imp hd
  generalize rest'.takeWhile isFieldDelimiter = gap at hrest hgap
  obtain ⟨c, hd, hlocal⟩ := nextField_local hfield (by rw [hrest]; simp)
  obtain ⟨hrule, hcontrol⟩ := head_of_typeField hh htype
  have hinner : h.control = (bracketed inner).1 := by
    rw [hcontrol]
    simp [nextField, hopen]
  have htypes : ∀ x, typeField (c ++ (gap ++ '[' :: x)) = some (kind, gap ++ '[' :: x) := by
    intro x
    have hsame : (gap ++ '[' :: x).head? = rest'.head? := by
      rw [hrest]
      simp [List.head?_append]
    rw [typeField, hlocal _ hsame, Option.map_some, ← hkind]
  rw [hrest] at hd
  have hopens := opensControl_of_parts hparts hrule hd hgap htypes
  have hsplit := bracketed_append inner
  have hline := hparts.eq
  rw [hd, ← hsplit, ← hinner] at hline
  have hstart : ((line.takeWhile fun c => c = ' ' || c = '\t') ++ (c ++ gap) ++ ['[']).length =
      line.length - (line.dropWhile fun c => c = ' ' || c = '\t').length +
        ((directive line).length - inner.length) := by
    have hwidth := hparts.width
    rw [hd]
    simp only [List.length_append, List.length_cons, List.length_nil] at hwidth ⊢
    omega
  rw [← hstart] at hclosed
  rcases bracketed_rest inner with hnil | ⟨r, hr⟩
  · -- The control would go on to the comment, which no bracket starts.
    rw [hnil, List.append_nil] at hline
    generalize hpre : (line.takeWhile fun c => c = ' ' || c = '\t') ++ (c ++ gap) ++ ['['] = pre at hclosed
    have hsame : line = (pre ++ h.control) ++
        (line.dropWhile fun c => c = ' ' || c = '\t').dropWhile (· ≠ '#') := by
      refine hline.trans ?_
      rw [← hpre]
      simp
    rw [hsame, ← List.length_append, List.getElem?_append_right (le_refl _), Nat.sub_self,
      ← List.head?_eq_getElem?] at hclosed
    have hhash := hparts.hash _ hclosed
    cases hhash
  · rw [hr] at hline
    refine ⟨_, kind, r ++ (line.dropWhile fun c => c = ' ' || c = '\t').dropWhile (· ≠ '#'), hopens, ?_,
      hstart⟩
    refine hline.trans ?_
    simp [around]

/-- Two lines that are the same up to the digits of jumps in a bracketed control. libpam parses the
control, so every digit in it belongs to a jump. -/
def SameButJumps (l l' : Text) : Prop :=
  l = l' ∨ ∃ pre control control' post, l = around pre control post ∧ l' = around pre control' post ∧
    (head l).map (·.control) = some control ∧ (head l').map (·.control) = some control' ∧
    (controlPairs control).isSome = true ∧
    control'.filter (!Char.isDigit ·) = control.filter (!Char.isDigit ·)

/-- What `editedPair` finds: the one pair that names the value of the edit. -/
structure EditedAt (pairs : List Pair) (e : JumpEdit) (p : Pair) : Prop where
  value : p.value = e.value
  jump : p.action = .jump e.before
  range : 0 < e.after ∧ e.after ≤ maxJump
  only : ∀ q ∈ pairs, q.value = p.value → q = p
  effect : ∃ (i : Nat) (r : ReturnValue), pairs[i]? = some p ∧
    setBy (pairs.map fun p => (p.value, p.action)) r = some i

theorem EditedAt.mem {e : JumpEdit} (h : EditedAt pairs e p) : p ∈ pairs := by
  obtain ⟨i, -, hi, -⟩ := h.effect
  exact List.mem_of_getElem? hi

theorem editedAt_of_editedPair {e : JumpEdit} (h : editedPair pairs e = some p) : EditedAt pairs e p := by
  unfold editedPair at h
  split at h
  · cases h
  · next hrange =>
    simp only [Bool.or_eq_true, decide_eq_true_eq, not_or] at hrange
    split at h
    · next q i hone =>
      have hmem : ∀ r j, pairs[j]? = some r ∧ r.value = e.value ↔ (r, j) = (q, i) := by
        intro r j
        rw [← List.mk_mem_zipIdx_iff_getElem?, ← @List.mem_singleton _ (r, j) (q, i), ← hone, List.mem_filter,
          decide_eq_true_eq]
      simp only at h
      split at h
      · next hjump =>
        obtain rfl := Option.some.inj h
        obtain ⟨hi, hvalue⟩ := (hmem q i).2 rfl
        simp only [Bool.and_eq_true, decide_eq_true_eq, List.any_eq_true] at hjump
        obtain ⟨hjump, r, -, hr⟩ := hjump
        refine ⟨hvalue, hjump, by omega, fun r hr hsame => ?_, i, r, hi, hr⟩
        obtain ⟨j, hj⟩ := List.mem_iff_getElem?.1 hr
        exact congrArg Prod.fst ((hmem r j).1 ⟨hj, hsame.trans hvalue⟩)
      · cases h
    · cases h

theorem forall₂_of_mapM {α β : Type} {f : α → Option β} {as : List α} {bs : List β}
    (h : as.mapM f = some bs) : List.Forall₂ (fun a b => f a = some b) as bs := by
  induction as generalizing bs with
  | nil =>
    obtain rfl : [] = bs := by simpa using h
    exact .nil
  | cons a as ih =>
    rw [List.mapM_cons] at h
    obtain ⟨b, hb, h⟩ := Option.bind_eq_some_iff.1 h
    obtain ⟨bs', hbs, h⟩ := Option.bind_eq_some_iff.1 h
    cases h
    exact .cons hb (ih hbs)

/-- The pairs to be written over, with their new numbers. -/
def editSpans (pairs : List Pair) (edits : List JumpEdit) : Option (List (Pair × Nat)) :=
  edits.mapM fun e => (editedPair pairs e).map fun p => (p, e.after)

def lastFirst (spans : List (Pair × Nat)) : List (Pair × Nat) :=
  spans.insertionSort fun x y => y.1.start ≤ x.1.start

theorem lastFirst_perm (spans : List (Pair × Nat)) : (lastFirst spans).Perm spans :=
  List.perm_insertionSort _ _

section Edits

variable {edits : List JumpEdit} {spans : List (Pair × Nat)} (h : editSpans pairs edits = some spans)

include h

theorem exists_span {e : JumpEdit} (he : e ∈ edits) : ∃ p, (p, e.after) ∈ spans ∧ EditedAt pairs e p := by
  obtain ⟨s, hs, heq⟩ := exists_left_of_forall₂ (forall₂_of_mapM h) he
  obtain ⟨p, hp, rfl⟩ := Option.map_eq_some_iff.1 heq
  exact ⟨p, hs, editedAt_of_editedPair hp⟩

theorem exists_edit {s : Pair × Nat} (hs : s ∈ spans) : ∃ e ∈ edits, EditedAt pairs e s.1 ∧ s.2 = e.after := by
  obtain ⟨e, he, heq⟩ := exists_left_of_forall₂ (forall₂_of_mapM h).flip hs
  obtain ⟨p, hp, rfl⟩ := Option.map_eq_some_iff.1 heq
  exact ⟨e, he, editedAt_of_editedPair hp, rfl⟩

theorem values_of_editSpans : spans.map (fun s => s.1.value) = edits.map (·.value) := by
  have hall := forall₂_of_mapM h
  clear h
  induction hall with
  | nil => rfl
  | cons hs _ ih =>
    obtain ⟨p, hp, rfl⟩ := Option.map_eq_some_iff.1 hs
    rw [List.map_cons, List.map_cons, ih, (editedAt_of_editedPair hp).value]

end Edits

/-- The jumps that are written over, each in its place in the control. -/
structure Spans (pairs : List Pair) (spans : List (Pair × Nat)) : Prop where
  mem : ∀ s ∈ spans, s.1 ∈ pairs ∧ ∃ n, s.1.action = .jump n
  nodup : (spans.map fun s => s.1.value).Nodup

theorem spans_of_edits {edits : List JumpEdit} {spans : List (Pair × Nat)} (hnodup : (edits.map (·.value)).Nodup)
    (h : editSpans pairs edits = some spans) : Spans pairs spans where
  mem s hs := by
    obtain ⟨e, -, hat, -⟩ := exists_edit h hs
    exact ⟨hat.mem, _, hat.jump⟩
  nodup := by rwa [values_of_editSpans h]

theorem SpanIn.start_lt_stop {pos n : Nat} (h : SpanIn b pos p)
    (hp : p.action = .jump n) : p.start < p.stop := by
  obtain ⟨x, txt, y, -, hstart, hstop, htxt⟩ := h
  have hpos := List.length_pos_of_ne_nil (htxt.digits n hp).2
  rw [List.length_append] at hstop
  omega

theorem Spans.sorted {spans : List (Pair × Nat)}
    (hpairs : PairsIn control 0 pairs) (h : Spans pairs spans) :
    (lastFirst spans).Pairwise fun s u => u.1.stop ≤ s.1.start := by
  have hperm := lastFirst_perm spans
  have hsorted := @List.pairwise_insertionSort _ (fun x y : Pair × Nat => y.1.start ≤ x.1.start) _
    ⟨fun x y => le_total y.1.start x.1.start⟩ ⟨fun x y z hxy hyz => le_trans hyz hxy⟩ spans
  have hdistinct : (lastFirst spans).Pairwise fun s u => s.1.value ≠ u.1.value := by
    have hnodup := ((hperm.map fun s => s.1.value).nodup_iff).2 h.nodup
    exact List.pairwise_map.1 hnodup
  apply (hsorted.and hdistinct).imp_of_mem
  intro s u hs hu hrel
  obtain ⟨hs, n, hjump⟩ := h.mem s (hperm.mem_iff.1 hs)
  have hu := (h.mem u (hperm.mem_iff.1 hu)).1
  have hne : s.1 ≠ u.1 := fun heq => hrel.2 (congrArg Pair.value heq)
  have hlt := (hpairs.span _ hs).start_lt_stop hjump
  have horder := hpairs.apart hs hu hne
  omega

theorem withJumpValues_eq_some {line line' : Text} {edits : List JumpEdit}
    (h : withJumpValues line edits = some line') :
    ∃ hd start pairs spans, head line = some hd ∧ controlStart line hd.control = some start ∧
      controlPairsAt hd.control = some pairs ∧ (edits.map (·.value)).Nodup ∧
      editSpans pairs edits = some spans ∧ line' = (lastFirst spans).foldl
        (fun out (p, n) => replaceRange out (start + p.start) (start + p.stop) n) line := by
  unfold withJumpValues at h
  split at h
  · cases h
  · next hd hhead =>
    split at h
    · cases h
    · split at h
      · next start pairs hstart hpairs =>
        split at h
        · cases h
        · next hnodup =>
          obtain ⟨spans, hspans, rfl⟩ := Option.map_eq_some_iff.1 h
          have hnodup : (edits.map (·.value)).Nodup := by simpa using hnodup
          exact ⟨hd, start, pairs, spans, hhead, hstart, hpairs, hnodup, hspans, rfl⟩
      · cases h

structure Rewritten (pre kind control control' post line line' : Text) : Prop where
  opens : OpensControl pre kind
  before : line = around pre control post
  after : line' = around pre control' post
  plain : ∀ c ∈ control, plain c = true
  plain' : ∀ c ∈ control', Pam.plain c = true
  pairs : (controlPairs control).isSome = true
  digits : control'.filter (!Char.isDigit ·) = control.filter (!Char.isDigit ·)

theorem withJumpValues_rewritten {line line' : Text} {edits : List JumpEdit}
    (h : withJumpValues line edits = some line') :
    line' = line ∨ ∃ pre kind control control' post, '=' ∈ control ∧
      Rewritten pre kind control control' post line line' := by
  obtain ⟨hd, start, pairs, spans, hhead, hstart, hpairs, hnodup, hmap, rfl⟩ := withJumpValues_eq_some h
  have hin := controlPairsAt_in hpairs
  have hspans : Spans pairs spans := spans_of_edits hnodup hmap
  by_cases hnil : spans = []
  · left
    rw [hnil]
    rfl
  · right
    obtain ⟨pre, kind, post, hopens, hline, hlength⟩ := controlStart_around hhead hstart
    have hperm := lastFirst_perm spans
    have hspan : ∀ s ∈ lastFirst spans, SpanIn hd.control 0 s.1 ∧ ∃ n, s.1.action = .jump n := by
      intro s hs
      obtain ⟨hmem, hjump⟩ := hspans.mem s (hperm.mem_iff.1 hs)
      exact ⟨hin.span _ hmem, hjump⟩
    have hend : ∀ s ∈ lastFirst spans, s.1.stop ≤ hd.control.length := by
      intro s hs
      exact (hspan s hs).1.stop_le
    obtain ⟨control', hsame, hfold⟩ := @foldl_replaceRange hd.control
      (pre ++ ['[']) (']' :: post) (lastFirst spans) hd.control.length [] hspan (hspans.sorted hin) hend
    have hequals : '=' ∈ hd.control := by
      apply hin.equals
      intro hempty
      obtain ⟨s, hs⟩ := List.exists_mem_of_ne_nil _ hnil
      have hmem := (hspans.mem s hs).1
      rw [hempty] at hmem
      cases hmem
    rw [List.take_length, List.append_nil] at hsame hfold
    refine ⟨pre, kind, hd.control, control', post, hequals, hopens, hline, ?_, hin.plain,
      hsame.2 hin.plain, ?_, hsame.1⟩
    · rw [← hlength, hline]
      simpa [around] using hfold
    · rw [controlPairs, hpairs]
      rfl

namespace Rewritten

variable {pre kind control control' post line line' : Text}

variable (h : Rewritten pre kind control control' post line line')

include h

theorem equals' (heq : '=' ∈ control) :
    '=' ∈ control' := by
  have hmem : '=' ∈ control.filter (!Char.isDigit ·) := List.mem_filter.2 ⟨heq, by decide⟩
  rw [← h.digits] at hmem
  exact (List.mem_filter.1 hmem).1

theorem sameButJumps :
    SameButJumps line line' := by
  refine .inr ⟨pre, control, control', post, h.before, h.after, ?_, ?_, h.pairs, h.digits⟩
  · rw [h.before, head_around h.opens h.plain]
    rfl
  · rw [h.after, head_around h.opens h.plain']
    rfl

theorem isIrlumeLine (heq : '=' ∈ control) :
    isIrlumeLine line' = Pam.isIrlumeLine line := by
  rw [h.before, h.after]
  exact (isIrlumeLine_around h.opens h.plain h.plain' heq (h.equals' heq) post).symm

theorem trimCrs :
    Rewritten pre kind control control' (trimCrs post) (trimCrs line) (Lib.trimCrs line') := by
  have htrim : ∀ c : Text, Lib.trimCrs (around pre c post) = around pre c (Lib.trimCrs post) := by
    intro c
    have hsplit : ∀ p : Text, around pre c p = (pre ++ '[' :: c ++ [']']) ++ p := by
      intro p
      simp [around]
    rw [hsplit, hsplit]
    apply trimCrs_append
    rw [List.getLast?_concat]
    decide
  refine ⟨h.opens, ?_, ?_, h.plain, h.plain', h.pairs, h.digits⟩
  · rw [h.before, htrim]
  · rw [h.after, htrim]

end Rewritten

end Irlume.Pam

import Irlume.Pam.Inert
import Irlume.Pam.LightdmCopies

/-!
# A copy's lines

What libpam reads of a copy: each line names the copy of the stack its original names, and where a biometric
rule stood is a line that is ignored.
-/

namespace Irlume.Pam.Lightdm

open Irlume.Lib

/-! ## Lines that are read alike -/

theorem rule_of_directive {l l' : Text} (h : directive l = directive l') : rule l = rule l' := by
  rw [rule, rule, head_eq_of_directive h]

theorem isBiometric_of_directive {l l' : Text} (h : directive l = directive l') :
    isBiometric l = isBiometric l' := by
  rw [isBiometric, isBiometric, irlumeRule, irlumeRule, rule_of_directive h]

variable {l : Text}

theorem isBiometric_beforeNul (h : ReadWhole l) : isBiometric (beforeNul l) = isBiometric l :=
  isBiometric_of_directive (directive_beforeNul_of_not_mem h.nul)

theorem rule_of_isBiometric (h : isBiometric l = true) :
    ∃ r, rule l = some r ∧ r.phase = .auth := by
  rw [isBiometric, Bool.or_eq_true, Option.any_eq_true, Option.any_eq_true] at h
  rcases h with ⟨r, hr, h⟩ | ⟨r, hr, h⟩
  · rw [Bool.and_eq_true, decide_eq_true_eq] at h
    exact ⟨r, hr, h.1⟩
  · rw [Bool.and_eq_true, decide_eq_true_eq] at h
    exact ⟨r, (Option.filter_eq_some_iff.1 hr).1, h.1⟩

theorem includeTarget_of_head {hd : Head} (hhead : head l = some hd)
    (hstack : hd.namesStack = false) : includeTarget l = none := by
  have hat := isAtInclude_of_head hhead
  rw [includeTarget, hhead, Option.bind_some, Head.stackName, hstack, if_neg Bool.false_ne_true,
    Option.or_none]
  unfold atIncludeTarget
  unfold isAtInclude at hat
  split
  · rfl
  · next kind rest htype =>
    rw [htype, Option.any_some] at hat
    exact if_neg (Bool.eq_false_iff.1 hat)

theorem isBiometric_of_target {l t : Text} (h : includeTarget l = some t) : isBiometric l = false := by
  rw [Bool.eq_false_iff]
  intro hbio
  obtain ⟨r, hr, -⟩ := rule_of_isBiometric hbio
  obtain ⟨hd, hhead, -, hstack, -⟩ := head_of_rule hr
  rw [includeTarget_of_head hhead hstack] at h
  cases h

theorem lineRows_alone {R : Row → Row → Prop} {stack stack' : Bool → Nat → Text → Option (List Row)}
    {phase : Phase} {place place' : Place} (h : includeTarget l = none)
    (hcall : ∀ level table, R ⟨level, .call place table⟩ ⟨level, .call place' table⟩)
    (henter : ∀ level, R ⟨level, .enter⟩ ⟨level, .enter⟩) (included : Bool) (level : Nat) :
    List.Forall₂ R (lineRows stack phase included level place l)
      (lineRows stack' phase included level place' l) := by
  have hfail : ∀ level, List.Forall₂ R [failing level place] [failing level place'] :=
    fun level => .cons (hcall level _) .nil
  rw [includeTarget, Option.or_eq_none_iff] at h
  obtain ⟨hat, hhead⟩ := h
  unfold lineRows
  split
  · rw [hat]
    exact hfail level
  split
  · exact .nil
  next hd hd_eq =>
  rw [hd_eq, Option.bind_some, Head.stackName, Head.namesStack] at hhead
  split
  · exact .nil
  split
  · next hinclude =>
    rw [hinclude, Bool.true_or, if_pos rfl] at hhead
    rw [hhead]
    exact hfail level
  split
  · next hsubstack =>
    rw [hsubstack, Bool.or_true, if_pos rfl] at hhead
    rw [hhead]
    exact .cons (henter level) (hfail level)
  · exact .cons (hcall level _) .nil

/-! ## Concrete starts -/

theorem directive_start {start : Text} (hstart : '#' ∉ start) (hspace : start.head? ≠ some ' ')
    (htab : start.head? ≠ some '\t') (hne : start ≠ []) (s : Text) :
    directive (start ++ s) = start ++ s.takeWhile (· ≠ '#') := by
  cases start with
  | nil => exact absurd rfl hne
  | cons c start =>
    rw [List.head?_cons, ne_eq, Option.some_inj] at hspace htab
    rw [directive, List.cons_append, List.dropWhile_cons_of_neg (by simp [hspace, htab]),
      ← List.cons_append, List.takeWhile_append_of_pos fun d hd => by
        simpa using fun (heq : d = '#') => hstart (heq ▸ hd)]

theorem head_of_parts {l control s : Text} (phase : Phase) (hcontrol : ∀ c ∈ control, plain c = true)
    (hd : directive l = phase.name ++ ' ' :: '[' :: (control ++ ']' :: s)) :
    head l = some { phase, control, rest := s, knownType := true } := by
  have htype : ∀ t, typeField (phase.name ++ ' ' :: t) = some (phase.name, ' ' :: t) := by
    intro t
    cases phase <;> rfl
  have hat : eqIgnoreAsciiCase phase.name "@include" = false := by cases phase <;> decide
  have hfind : (phases.find? fun p => eqIgnoreAsciiCase p.name phase.name) = some phase := by
    cases phase <;> decide
  have hfield : nextField (' ' :: '[' :: (control ++ ']' :: s)) = some (control, s) :=
    (@Span.bracket [' '] _ _ (by simp [isFieldDelimiter]) (bracketed_of_plain hcontrol s)).nextField_eq
  unfold head
  rw [hd, htype]
  dsimp only
  rw [hat, if_neg Bool.false_ne_true, hfind, hfield]
  rfl

theorem head_slotStart (s : Text) : ∃ hd, head ("auth [default=ignore] ".toList ++ s) = some hd ∧
    hd.knownType = true ∧ hd.namesStack = false ∧ hd.phase = .auth ∧ ∀ r, hd.returns r = .ignore := by
  have hstart : "auth [default=ignore] ".toList =
      Phase.auth.name ++ ' ' :: '[' :: ("default=ignore".toList ++ [']', ' ']) := by decide +kernel
  have hplain : "default=ignore".toList.all plain = true := by decide +kernel
  have hhead : head ("auth [default=ignore] ".toList ++ s) = some
      { phase := .auth, control := "default=ignore", rest := ' ' :: s.takeWhile (· ≠ '#'),
        knownType := true } := by
    refine head_of_parts .auth (List.all_eq_true.1 hplain) ?_
    rw [directive_start (by decide) (by decide) (by decide) (by decide), hstart, List.append_assoc,
      List.cons_append, List.cons_append, List.append_assoc]
    rfl
  have hignore : ∀ r, ((controlActions "default=ignore").getD (fun _ => .bad) r).effect = .ignore := by
    intro r
    obtain ⟨table, htable, hignore⟩ := Option.map_eq_some_iff.1 (controlActions_inert r)
    rw [htable, Option.getD_some, hignore]
    rfl
  have hstack : (eqIgnoreAsciiCase "default=ignore" "include" ||
      eqIgnoreAsciiCase "default=ignore" "substack") = false := by decide
  refine ⟨_, hhead, rfl, hstack, rfl, fun r => ?_⟩
  unfold Head.returns
  split
  · exact hignore r
  · exact hignore .permDenied

theorem inactiveSlot_beforeNul (permit : Text) : ∃ s,
    beforeNul (inactiveSlot permit) = "auth [default=ignore] ".toList ++ s := by
  refine ⟨beforeNul (permit ++ " # irlume remote-seat inactive slot".toList), ?_⟩
  have hstart : ("auth [default=ignore] ".toList.all fun c => c ≠ '\x00') = true := by decide +kernel
  unfold inactiveSlot beforeNul
  rw [List.append_assoc, List.takeWhile_append_of_pos (List.all_eq_true.1 hstart)]

theorem continues_of_getLast? {c : Char} (hlast : l.getLast? = some c)
    (hc : c ≠ ' ' ∧ c ≠ '\t' ∧ c ≠ '\\') : continues l = false := by
  obtain ⟨l, rfl⟩ := List.getLast?_eq_some_iff.1 hlast
  have htrim : trimBlanks (l ++ [c]) = l ++ [c] := by
    rw [trimBlanks, List.rdropWhile_concat_neg]
    simp [hc.1, hc.2.1]
  rw [continues, htrim, List.getLast?_concat]
  simp [hc.2.2]

theorem inactiveSlot_alone (permit : Text) : continues (inactiveSlot permit) = false := by
  have hlast : (inactiveSlot permit).getLast? = some 't' := by
    unfold inactiveSlot
    rw [List.getLast?_append_of_ne_nil _ (by decide)]
    decide +kernel
  exact continues_of_getLast? hlast (by decide)

/-! ## Rendered lines -/

theorem includeTarget_of_renamed {l l' t r : Text} (h : Renamed l l' t r) : includeTarget l' = some r := by
  obtain ⟨kind, c, rest, rest', -, hshape, -, htarget⟩ := h
  rw [includeTarget_eq, targetRest, hshape, Option.map_some, Option.bind_some, htarget]

section Rendered

variable {names : Text → Option Text} {permit read l l' : Text}

theorem RenderedAs.readWhole_or_slot (h : RenderedAs names permit read l l') (hl : ReadWhole l)
    (hnames : ∀ t r, names t = some r → SafeName r) : ReadWhole l' ∨ l' = inactiveSlot permit := by
  cases h with
  | renamed htarget hname hline =>
    obtain ⟨x, y, hparts, hstart, hsplice⟩ := spliceTarget_spec hline
    rw [spliceTarget_of_parts hparts hstart]
    exact .inl ((hsplice _ (hnames _ _ hname)).2 hl)
  | slot => exact .inr rfl
  | same => exact .inl hl

theorem RenderedAs.alone (h : RenderedAs names permit read l l') (hl : ReadWhole l)
    (hnames : ∀ t r, names t = some r → SafeName r) : continues l' = false := by
  rcases h.readWhole_or_slot hl hnames with hwhole | rfl
  · exact hwhole.alone
  · exact inactiveSlot_alone permit

theorem includeTarget_inactiveSlot : includeTarget (beforeNul (inactiveSlot permit)) = none := by
  obtain ⟨s, hs⟩ := inactiveSlot_beforeNul permit
  obtain ⟨hd, hhead, -, hstack, -⟩ := head_slotStart s
  rw [hs]
  exact includeTarget_of_head hhead hstack

theorem includeTarget_of_read (hread : read = l ∨ read = l ++ ['\n'])
    (h : includeTarget read = none) : includeTarget l = none := by
  rcases hread with rfl | rfl
  · exact h
  · exact includeTarget_newline_none h

theorem RenderedAs.target (h : RenderedAs names permit read l l') (hread : read = l ∨ read = l ++ ['\n'])
    (hl : ReadWhole l) (hnames : ∀ t r, names t = some r → SafeName r) :
    includeTarget (beforeNul l') = (includeTarget (beforeNul l)).bind names := by
  rw [includeTarget_beforeNul hl]
  cases h with
  | @renamed target replacement htarget hname hline =>
    obtain ⟨x, y, hparts, hstart, hsplice⟩ := spliceTarget_spec hline
    obtain ⟨hrenamed, hwhole⟩ := hsplice _ (hnames _ _ hname)
    rw [spliceTarget_of_parts hparts hstart, includeTarget_beforeNul (hwhole hl),
      includeTarget_of_renamed hrenamed, hline, Option.bind_some, hname]
  | slot htarget =>
    rw [includeTarget_inactiveSlot, includeTarget_of_read hread htarget]
    rfl
  | same htarget =>
    rw [includeTarget_beforeNul hl, includeTarget_of_read hread htarget]
    rfl

/-- What a line is in the copy, as libpam reads it. -/
inductive CopiedAs (names : Text → Option Text) (permit l : Text) : Text → Prop where
  | renamed {target replacement : Text} (htarget : includeTarget l = some target)
    (hname : names target = some replacement) : CopiedAs names permit l (spliceTarget l target replacement)
  | slot {hd : Head} (hhead : head l = some hd) (hphase : hd.phase = .auth) (hknown : hd.knownType = true)
    (hstack : hd.namesStack = false) (hthird : hd.thirdField.isSome = true)
    (hcontrol : controlIgnoresModuleIgnore hd.control = true) (hbiometric : isBiometric l = true) :
    CopiedAs names permit l (inactiveSlot permit)
  | same (htarget : includeTarget l = none) (hbiometric : isBiometric l = false) : CopiedAs names permit l l

theorem RenderedAs.copied (h : RenderedAs names permit read l l') (hread : read = l ∨ read = l ++ ['\n'])
    (hsame : isBiometric read = isBiometric l) : CopiedAs names permit l l' := by
  cases h with
  | renamed htarget hname hline => exact .renamed hline hname
  | @slot r htarget hbiometric hrule hcontrol =>
    obtain ⟨r', hr', hphase⟩ := rule_of_isBiometric hbiometric
    cases hrule.symm.trans hr'
    obtain ⟨hd, hhead, hknown, hstack, hthird, hphase', hcontrol'⟩ := head_of_rule hrule
    rw [← hcontrol'] at hcontrol
    rcases hread with rfl | rfl
    · exact .slot hhead (hphase'.trans hphase) hknown hstack hthird hcontrol hbiometric
    · obtain ⟨hd', hhead', hsamePhase, hsameKnown, hsameControl, hthird'⟩ := head_newline hhead hthird
      have hstack' : hd'.namesStack = hd.namesStack := by
        rw [Head.namesStack, Head.namesStack, Head.isInclude, Head.isInclude, Head.isSubstack,
          Head.isSubstack, hsameControl]
      exact .slot hhead' (hsamePhase.trans (hphase'.trans hphase)) (hsameKnown.trans hknown)
        (hstack'.trans hstack) hthird' (hsameControl ▸ hcontrol) (hsame ▸ hbiometric)
  | same htarget hbiometric => exact .same (includeTarget_of_read hread htarget) (hsame ▸ hbiometric)

end Rendered

section RenderedLines

variable {names : Text → Option Text} {permit : Text} {ls ls' : List Text}

variable (h : RenderedLines names permit ls ls')

include h

theorem RenderedLines.forall₂ :
    List.Forall₂ (fun l l' => ∃ read, (read = l ∨ read = l ++ ['\n']) ∧
      RenderedAs names permit read l l') ls ls' := by
  induction h with
  | last h => exact .cons ⟨_, .inl rfl, h⟩ .nil
  | line h _ ih => exact .cons ⟨_, .inr rfl, h⟩ ih

theorem RenderedLines.getElem? {i : Nat} {l : Text}
    (hl : ls.dropLast[i]? = some l) :
    ∃ l', ls'[i]? = some l' ∧ RenderedAs names permit (l ++ ['\n']) l l' := by
  induction h generalizing i with
  | last h => simp at hl
  | @line m m' ls ls' h hrest ih =>
    have hne : ls ≠ [] := by
      rintro rfl
      cases hrest
    rw [List.dropLast_cons_of_ne_nil hne] at hl
    cases i with
    | zero =>
      cases hl
      exact ⟨m', rfl, h⟩
    | succ i =>
      rw [List.getElem?_cons_succ] at hl
      exact ih hl

theorem RenderedLines.copied
    (hsame : ∀ l ∈ ls.dropLast, isBiometric (l ++ ['\n']) = isBiometric l) :
    List.Forall₂ (CopiedAs names permit) ls ls' := by
  induction h with
  | last h => exact .cons (h.copied (.inl rfl) rfl) .nil
  | @line m m' ls ls' h hrest ih =>
    have hne : ls ≠ [] := by
      rintro rfl
      cases hrest
    rw [List.dropLast_cons_of_ne_nil hne] at hsame
    exact .cons (h.copied (.inr rfl) (hsame m List.mem_cons_self))
      (ih fun l hl => hsame l (List.mem_cons_of_mem _ hl))

end RenderedLines

/-! ## Places -/

def lineBelow (read : Text → Option Text) : Text → Place → Option Text
  | l, [] => some l
  | l, i :: rest =>
    (((includeTarget l).bind read).bind fun text => (libpamLines text)[i]?).bind fun l =>
      lineBelow read l rest

def lineAt (read : Text → Option Text) (text : Text) : Place → Option Text
  | [] => none
  | i :: rest => ((libpamLines text)[i]?).bind fun l => lineBelow read l rest

/-- Where in a copy the lines of its original are. -/
def viewPlace : Place → Place
  | [] => []
  | i :: rest => (i + 1) :: rest

/-- What the line at `p` and those below it return, and where they are in the other stack. -/
structure AtLine (f : Place → Place) (results results' : Place → ReturnValue)
    (read : Text → Option Text) (p q : Place) (l : Text) : Prop where
  place : ∀ rest, f (p ++ rest) = q ++ rest
  ignored : ∀ rest, (lineBelow read l rest).any isBiometric = true → results' (p ++ rest) = .ignore
  same : ∀ rest, (lineBelow read l rest).any isBiometric = false →
    results (f (p ++ rest)) = results' (p ++ rest)

section AtLine

variable {f : Place → Place} {results results' : Place → ReturnValue} {read : Text → Option Text}
  {p q : Place} {l : Text}

variable (h : AtLine f results results' read p q l)

include h

theorem AtLine.below {name text l' : Text} {i : Nat}
    (htarget : includeTarget l = some name) (htext : read name = some text)
    (hl : (libpamLines text)[i]? = some l') :
    AtLine f results results' read (p ++ [i]) (q ++ [i]) l' := by
  have hline : ∀ rest, lineBelow read l (i :: rest) = lineBelow read l' rest := by
    intro rest
    rw [lineBelow, htarget, Option.bind_some, htext, Option.bind_some, hl, Option.bind_some]
  refine ⟨fun rest => ?_, fun rest hbio => ?_, fun rest hbio => ?_⟩
  · rw [List.append_assoc, List.append_assoc, List.singleton_append, h.place]
  · rw [List.append_assoc, List.singleton_append]
    exact h.ignored (i :: rest) (by rw [hline, hbio])
  · rw [List.append_assoc, List.singleton_append]
    exact h.same (i :: rest) (by rw [hline, hbio])

theorem AtLine.here : f p = q := by
  simpa using h.place []

theorem AtLine.alike (hbio : isBiometric l = false) (level : Nat)
    (table : ReturnValue → Effect Action) :
    Alike f results results' ⟨level, .call q table⟩ ⟨level, .call p table⟩ := by
  rw [← h.here]
  refine .same ?_
  simpa using h.same [] hbio

end AtLine

/-! ## Handlers of a copy -/

/-- What is in the view for the stacks that are reached: for each its copy. -/
structure Copied (host : Host) (view : View) (names : Text → Option Text) (permit : Text)
    (reached : Text → Prop) : Prop where
  safe : ∀ t r, names t = some r → SafeName r
  whole : ∀ name text, reached name → host.text name = some text →
    ∀ l ∈ text.splitOn '\n', ReadWhole l
  copy : ∀ name copy, names name = some copy → reached name → ∃ text text', host.text name = some text ∧
    view.text host copy = some text' ∧
      List.Forall₂ (CopiedAs names permit) (text.splitOn '\n') (text'.splitOn '\n')
  closed : ∀ name target, reached name → Follows host.text name target → reached target

theorem CopiedAs.alone {names : Text → Option Text} {permit l l' : Text} (h : CopiedAs names permit l l')
    (hl : ReadWhole l) (hnames : ∀ t r, names t = some r → SafeName r) : continues l' = false := by
  cases h with
  | renamed htarget hname =>
    obtain ⟨x, y, hparts, hstart, hsplice⟩ := spliceTarget_spec htarget
    rw [spliceTarget_of_parts hparts hstart]
    exact ((hsplice _ (hnames _ _ hname)).2 hl).alone
  | slot => exact inactiveSlot_alone permit
  | same => exact hl.alone

section Copied

variable {host : Host} {view : View} {names : Text → Option Text} {permit : Text} {reached : Text → Prop}
  {f : Place → Place} {results results' : Place → ReturnValue}

theorem libpamLines_of_copied {ls : List Text} {text' : Text}
    (hcopied : List.Forall₂ (CopiedAs names permit) ls (text'.splitOn '\n'))
    (hwhole : ∀ l ∈ ls, ReadWhole l) (hsafe : ∀ t r, names t = some r → SafeName r) :
    libpamLines text' = (text'.splitOn '\n').map beforeNul := by
  refine joinLines_of_not_continues fun l' hl' => ?_
  obtain ⟨l, hl, hline⟩ := exists_left_of_forall₂ hcopied.flip hl'
  exact CopiedAs.alone hline (hwhole l hl) hsafe

theorem alike_slot {l : Text} {hd : Head} {p q : Place} (hhead : head l = some hd)
    (hphase : hd.phase = .auth) (hknown : hd.knownType = true) (hstack : hd.namesStack = false)
    (hthird : hd.thirdField.isSome = true) (hcontrol : controlIgnoresModuleIgnore hd.control = true)
    (hplace : f p = q) (hresult : results' p = .ignore)
    (stack stack' : Bool → Nat → Text → Option (List Row)) (phase : Phase) (included : Bool) (level : Nat) :
    List.Forall₂ (Alike f results results')
      (lineRows stack phase included level q (beforeNul (inactiveSlot permit)))
      (lineRows stack' phase included level p l) := by
  obtain ⟨s, hs⟩ := inactiveSlot_beforeNul permit
  obtain ⟨hd', hhead', hknown', hstack', hphase', hignore⟩ := head_slotStart s
  rw [hs, lineRows_call hhead' (isAtInclude_of_head hhead') hstack',
    lineRows_call hhead (isAtInclude_of_head hhead) hstack]
  have hof : hd'.isOf included phase = hd.isOf included phase := by
    rw [Head.isOf, Head.isOf, hknown, hknown', hphase, hphase']
  have hreturns : hd.returns = hd.table := by simp [Head.returns, hknown, hthird]
  rw [hof, hreturns, ← hplace]
  split
  · exact .cons (.ignored (hignore _) (by rw [hresult, controlIgnores_table hcontrol])) .nil
  · exact .nil

theorem alike_of_stacks (hsafe : ∀ t r, names t = some r → SafeName r) {l l' : Text} {p q : Place}
    (hline : CopiedAs names permit l l') (hl : ReadWhole l)
    (hat : AtLine f results results' host.text p q (beforeNul l))
    {stack stack' : Bool → Nat → Text → Option (List Row)}
    (hstack : ∀ t r, includeTarget l = some t → names t = some r → ∀ included level,
      (stack' included level t = none ∧ stack included level r = none) ∨
      ∃ rows' rows, stack' included level t = some rows' ∧ stack included level r = some rows ∧
        List.Forall₂ (fun a b => Alike f results results' b a) rows' rows)
    (phase : Phase) (included : Bool) (level : Nat) :
    List.Forall₂ (Alike f results results') (lineRows stack phase included level q (beforeNul l'))
      (lineRows stack' phase included level p (beforeNul l)) := by
  have hread : lineRows stack' phase included level p (beforeNul l) =
      lineRows stack' phase included level p l :=
    lineRows_of_directive (directive_beforeNul_of_not_mem hl.nul)
  have hbio := isBiometric_beforeNul hl
  cases hline with
  | @renamed target replacement htarget hname =>
    obtain ⟨x, y, hparts, hstart, hsplice⟩ := spliceTarget_spec htarget
    obtain ⟨hrenamed, hwhole⟩ := hsplice _ (hsafe _ _ hname)
    rw [spliceTarget_of_parts hparts hstart, hread,
      lineRows_of_directive (directive_beforeNul_of_not_mem (hwhole hl).nul)]
    rw [isBiometric_of_target htarget] at hbio
    exact (lineRows_renamed hrenamed (hstack _ _ htarget hname) (fun level => hat.alike hbio level _)
      (fun level => .enter level) included level).flip
  | slot hhead hphase hknown hstack' hthird hcontrol hbiometric =>
    rw [hread]
    refine alike_slot hhead hphase hknown hstack' hthird hcontrol hat.here ?_ _ _ _ _ _
    simpa using hat.ignored [] (hbio.trans hbiometric)
  | same htarget hbiometric =>
    rw [hread, lineRows_of_directive (directive_beforeNul_of_not_mem hl.nul)]
    exact lineRows_alone htarget (hat.alike (hbio.trans hbiometric)) (fun level => .enter level)
      included level

/-- **The handlers of a copy** are those of its original. -/
theorem alike_line (hc : Copied host view names permit reached) (phase : Phase) {limit : Nat} :
    ∀ {included : Bool} {level : Nat} {p q : Place} {l l' : Text}, CopiedAs names permit l l' →
      ReadWhole l → (∀ t, includeTarget l = some t → reached t) →
      AtLine f results results' host.text p q (beforeNul l) →
      List.Forall₂ (Alike f results results')
        (lineRows (innerRows (view.text host) phase limit q) phase included level q (beforeNul l'))
        (lineRows (innerRows host.text phase limit p) phase included level p (beforeNul l)) := by
  induction limit with
  | zero =>
    intro included level p q l l' hline hl _ hat
    exact alike_of_stacks hc.safe hline hl hat (fun _ _ _ _ _ _ => .inl ⟨rfl, rfl⟩) phase included level
  | succ limit ih =>
    intro included level p q l l' hline hl hreach hat
    refine alike_of_stacks hc.safe hline hl hat (fun t r htarget hname included level => .inr ?_)
      phase included level
    have ht := hreach t htarget
    obtain ⟨text, text', htext, htext', hcopied⟩ := hc.copy t r hname ht
    have hwhole := hc.whole t text ht htext
    refine ⟨_, _, by rw [innerRows, htext]; rfl, by rw [innerRows, htext']; rfl, ?_⟩
    suffices hrows : List.Forall₂ (Alike f results results')
        (stackRows (view.text host) phase limit included level q text')
        (stackRows host.text phase limit included level p text) from hrows.flip
    rw [stackRows_eq, stackRows_eq, libpamLines_of_whole hwhole,
      libpamLines_of_copied hcopied hwhole hc.safe]
    refine rowsOf_forall₂ (by simp [hcopied.length_eq]) fun i m' m hm' hm => ?_
    rw [List.getElem?_map, Option.map_eq_some_iff] at hm hm'
    obtain ⟨piece, hpiece, rfl⟩ := hm
    obtain ⟨piece', hpiece', rfl⟩ := hm'
    have hpieceWhole := hwhole piece (List.mem_of_getElem? hpiece)
    have hread : (libpamLines text)[i]? = some (beforeNul piece) := by
      rw [libpamLines_of_whole hwhole, List.getElem?_map, hpiece, Option.map_some]
    have hbelow := hat.below ((includeTarget_beforeNul hl).trans htarget) htext hread
    refine ih (forall₂_getElem? hcopied hpiece hpiece') hpieceWhole (fun t' ht' => ?_) hbelow
    refine hc.closed t t' ht ⟨text, htext, beforeNul piece, List.mem_of_getElem? hread, ?_⟩
    rw [includeTarget_beforeNul hpieceWhole, ht']

end Copied

end Irlume.Pam.Lightdm

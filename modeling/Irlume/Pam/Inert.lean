import Irlume.Pam.Dispatch
import Irlume.Pam.Filled

/-!
# Inactive lines in a stack that runs

An inactive line is ignored whatever its module returns, and stands where the rule stood whose place it holds.
-/

namespace Irlume.Pam

open Irlume.Lib

/-! ## Rules and inactive lines -/

theorem controlActions_inert (r : ReturnValue) :
    (controlActions "default=ignore").map (· r) = some .ignore := by
  have hpairs : controlPairs "default=ignore" = some [(.default, .ignore)] := by decide +kernel
  have hwords : ∀ k ∈ controlKeywords, eqIgnoreAsciiCase "default=ignore" k = false := by
    decide +kernel
  simp only [controlKeywords, List.forall_mem_cons] at hwords
  obtain ⟨h₁, h₂, h₃, h₄, h₅, h₆, -⟩ := hwords
  simp only [controlActions, h₁, h₂, h₃, h₄, h₅, h₆, hpairs]
  cases r <;> decide

theorem head_inertFor (l : Text) : ∃ hd, head (inertFor l) = some hd ∧ hd.knownType = true ∧
    hd.namesStack = false ∧ hd.thirdField.isSome = true ∧ hd.phase = (phaseOf l).getD .auth ∧
      ∀ r, hd.table r = .ignore := by
  have hfields : ∀ phase : Phase,
      (head (inertStart phase ++ ['#'])).map
          (fun hd => (hd.knownType, hd.namesStack, hd.thirdField.isSome, hd.phase, hd.control)) =
        some (true, false, true, phase, ("default=ignore" : Text)) := by
    intro phase
    cases phase <;> decide
  obtain ⟨hd, hhead, heq⟩ := Option.map_eq_some_iff.1 (hfields ((phaseOf l).getD .auth))
  simp only [Prod.mk.injEq] at heq
  obtain ⟨hknown, hstack, hthird, hphase, hcontrol⟩ := heq
  refine ⟨hd, ?_, hknown, hstack, hthird, hphase, ?_⟩
  · rw [← hhead, inertFor, inertLine_append]
    exact head_eq_of_directive (directive_inert _ _)
  · intro r
    obtain ⟨table, htable, hignore⟩ := Option.map_eq_some_iff.1 (controlActions_inert r)
    rw [Head.table, hcontrol, htable, Option.getD_some, hignore]
    rfl

variable {l : Text}

theorem rows_inertFor {r : Rule} (hr : irlumeRule l = some r)
    (hcontrol : controlIgnoresModuleIgnore r.control = true)
    (stack : Bool → Nat → Text → Option (List Row)) (phase : Phase) (included : Bool) (level : Nat)
    (place : Place) :
    (lineRows stack phase included level place l = [] ∧
      lineRows stack phase included level place (inertFor l) = []) ∨
    ∃ table table', lineRows stack phase included level place l = [⟨level, .call place table⟩] ∧
      lineRows stack phase included level place (inertFor l) = [⟨level, .call place table'⟩] ∧
      table .ignore = .ignore ∧ ∀ r, table' r = .ignore := by
  obtain ⟨hd, hhead, hknown, hstack, hthird, hphase, heq⟩ :=
    head_of_rule (Option.filter_eq_some_iff.1 hr).1
  obtain ⟨hd', hhead', hknown', hstack', hthird', hphase', hinert⟩ := head_inertFor l
  have hsame : hd'.phase = hd.phase := by
    rw [hphase', phaseOf, hhead]
    rfl
  have hof : hd'.isOf included phase = hd.isOf included phase := by
    rw [Head.isOf, Head.isOf, hknown, hknown', hsame]
  rw [lineRows_call hhead (isAtInclude_of_head hhead) hstack,
    lineRows_call hhead' (isAtInclude_of_head hhead') hstack', hof]
  have hreturns : hd.returns = hd.table := by simp [Head.returns, hknown, hthird]
  have hreturns' : hd'.returns = hd'.table := by simp [Head.returns, hknown', hthird']
  rw [hreturns, hreturns']
  split
  · exact .inr ⟨_, _, rfl, rfl, controlIgnores_table (heq ▸ hcontrol), hinert⟩
  · exact .inl ⟨rfl, rfl⟩

/-! ## The neutralized body -/

theorem readWhole_inertFor (l : Text) : ReadWhole (inertFor l) := by
  have hread : ∀ phase : Phase, '\x00' ∉ directive (inertStart phase ++ ['#']) ∧
      (directive (inertStart phase ++ ['#'])).getLast? ≠ some '\r' := by
    intro phase
    cases phase <;> decide
  have hdirective : directive (inertFor l) = directive (inertStart ((phaseOf l).getD .auth) ++ ['#']) := by
    rw [inertFor, inertLine_append]
    exact directive_inert _ _
  have hhash : '#' ∈ inertFor l := by
    have htag : inertTag = '#' :: inertTag.tail := by decide
    rw [inertFor, inertLine_append, htag]
    simp
  obtain ⟨hnul, hcr⟩ := hread ((phaseOf l).getD .auth)
  rw [← hdirective] at hnul hcr
  exact ⟨by simp [continues, hash_mem_beforeNul hhash hnul], hnul, hcr⟩

theorem readWhole_lines {text : Text} (h : ∀ l ∈ text.splitOn '\n', ReadWhole l) :
    ∀ l ∈ lines text, ReadWhole l := by
  intro l hl
  rcases List.mem_append.1 hl with hl | hl
  · obtain ⟨piece, hpiece, rfl⟩ := List.mem_map.1 hl
    exact (h piece (List.dropLast_subset _ hpiece)).stripCr
  · rw [Option.mem_toList, Option.filter_eq_some_iff] at hl
    exact h l (List.mem_of_mem_getLast? hl.1)

theorem neutralize_eq (body : Text) : neutralize body = unlines ((lines body).map neutralized) := rfl

theorem readWhole_neutralized (h : ReadWhole l) : ReadWhole (neutralized l) := by
  unfold neutralized
  split
  · exact readWhole_inertFor l
  · exact h

theorem neutralized_oneLine (h : '\n' ∉ l) : '\n' ∉ neutralized l := by
  unfold neutralized
  split
  · exact inertFor_oneLine h
  · exact h

theorem rowsOf_neutralize {body : Text} (hwhole : ∀ l ∈ body.splitOn '\n', ReadWhole l)
    {row : Nat → Text → List Row} (hrow : ∀ i l l', directive l = directive l' → row i l = row i l')
    (hblank : ∀ i, row i [] = []) :
    rowsOf row (libpamLines (neutralize body)) = rowsOf row ((lines body).map neutralized) := by
  have hlines := readWhole_lines hwhole
  have hone : ∀ l ∈ (lines body).map neutralized, '\n' ∉ l := by
    intro l hl
    obtain ⟨m, hm, rfl⟩ := List.mem_map.1 hl
    exact neutralized_oneLine (not_mem_of_mem_lines hm)
  have hwhole' : ∀ l ∈ (lines body).map neutralized, ReadWhole l := by
    intro l hl
    obtain ⟨m, hm, rfl⟩ := List.mem_map.1 hl
    exact readWhole_neutralized (hlines m hm)
  have hempty : ReadWhole [] := ⟨rfl, nofun, nofun⟩
  rw [neutralize_eq]
  by_cases hnil : (lines body).map neutralized = []
  · rw [hnil]
    have hpieces : (unlines []).splitOn '\n' = [[], []] := by decide
    rw [rowsOf_libpamLines (by simp [hpieces, hempty]) hrow hblank, lines_unlines_nil]
    simp [rowsOf, hblank]
  · rw [rowsOf_libpamLines ?_ hrow hblank, lines_unlines hnil hone]
    · refine rowsOf_congr (by simp) fun i l l' hl hl' => ?_
      rw [List.getElem?_map, hl', Option.map_some, Option.some.injEq] at hl
      rw [← hl]
      exact hrow i _ _ (directive_stripCr (hwhole' l' (List.mem_of_getElem? hl')).cr)
    · intro l hl
      rw [splitOn_unlines hnil hone, List.mem_append, List.mem_singleton] at hl
      rcases hl with hl | rfl
      · exact hwhole' l hl
      · exact hempty

def irlumeAt (body : Text) : Place → Bool
  | [i] => ((lines body)[i]?).any fun l => (irlumeRule l).isSome
  | _ => false

theorem rows_neutralized {body : Text} {results results' : Place → ReturnValue}
    (hcontrols : ∀ l ∈ lines body, ∀ r ∈ irlumeRule l, controlIgnoresModuleIgnore r.control = true)
    (hirlume : ∀ p, irlumeAt body p = true → results p = .ignore)
    (hothers : ∀ p, irlumeAt body p = false → results p = results' p)
    (read : Text → Option Text) (phase : Phase) (limit : Nat) {i : Nat}
    (hl : (lines body)[i]? = some l) : List.Forall₂ (Alike id results results')
      (lineRows (innerRows read phase limit [i]) phase false 0 [i] l)
      (lineRows (innerRows read phase limit [i]) phase false 0 [i] (neutralized l)) := by
  cases hr : irlumeRule l with
  | some r =>
    have hinert : neutralized l = inertFor l := by
      rw [neutralized, hr]
      rfl
    rw [hinert]
    have hat : results [i] = .ignore := by
      apply hirlume
      rw [irlumeAt, hl, Option.any_some, hr]
      rfl
    rcases rows_inertFor hr (hcontrols l (List.mem_of_getElem? hl) r hr)
      (innerRows read phase limit [i]) phase false 0 [i] with
      ⟨hrows, hrows'⟩ | ⟨table, table', hrows, hrows', hignore, hinert⟩
    · rw [hrows, hrows']
      exact .nil
    · rw [hrows, hrows']
      have halike : Alike id results results' ⟨0, .call (id [i]) table⟩ ⟨0, .call [i] table'⟩ :=
        .ignored (by rw [id, hat, hignore]) (hinert _)
      exact .cons halike .nil
  | none =>
    have hsame : neutralized l = l := by
      rw [neutralized, hr]
      rfl
    rw [hsame]
    apply alike_self
    intro hd hmem q table hq
    apply hothers
    rcases mem_lineRows hmem hq with rfl | ⟨included, level, name, rows, hrows, hmem⟩
    · rw [irlumeAt, hl, Option.any_some, hr]
      rfl
    · cases limit with
      | zero => cases hrows
      | succ limit =>
        obtain ⟨text, -, rfl⟩ := Option.map_eq_some_iff.1 hrows
        obtain ⟨k, rest, rfl⟩ := place_of_mem_stackRows hmem hq
        rfl

/-- For every stack whose rules of pam_irlume.so have controls that ignore `PAM_IGNORE`, and whose lines
libpam reads each by itself and to its end: with those rules made inactive, and whatever the lines in
their places and the other modules return, libpam calls the same places in the same order and comes to the
same verdict as with each of the rules returning `PAM_IGNORE`. The handlers are on the same levels at the
same places, so each jump lands where it did; and every other line is read as it was. -/
theorem dispatch_neutralize {σ : Type} (rules : Rules ReturnValue Action σ)
    (read : Text → Option Text) (phase : Phase) (limit : Nat) {body : Text}
    (hwhole : ∀ l ∈ body.splitOn '\n', ReadWhole l)
    (hcontrols : ∀ l ∈ lines body, ∀ r ∈ irlumeRule l, controlIgnoresModuleIgnore r.control = true)
    {results results' : Place → ReturnValue}
    (hirlume : ∀ p, irlumeAt body p = true → results p = .ignore)
    (hothers : ∀ p, irlumeAt body p = false → results p = results' p) :
    dispatch rules results (serviceRows read phase limit body) =
        dispatch rules results' (serviceRows read phase limit (neutralize body)) ∧
      (serviceRows read phase limit body).map Handler.shape =
        (serviceRows read phase limit (neutralize body)).map Handler.shape ∧
      ∀ (i : Nat) (l : Text), (lines body)[i]? = some l → irlumeRule l = none →
        (lines (neutralize body))[i]?.map directive = some (directive l) := by
  have hlines := readWhole_lines hwhole
  have hrow : ∀ i l l', directive l = directive l' →
      lineRows (innerRows read phase limit ([] ++ [i])) phase false 0 ([] ++ [i]) l =
        lineRows (innerRows read phase limit ([] ++ [i])) phase false 0 ([] ++ [i]) l' :=
    fun i l l' h => lineRows_of_directive h
  have hblank : ∀ i, lineRows (innerRows read phase limit ([] ++ [i])) phase false 0 ([] ++ [i]) [] = [] :=
    fun i => lineRows_blank rfl
  have halike : List.Forall₂ (Alike id results results') (serviceRows read phase limit body)
      (serviceRows read phase limit (neutralize body)) := by
    unfold serviceRows
    rw [stackRows_eq, stackRows_eq, rowsOf_libpamLines hwhole hrow hblank,
      rowsOf_neutralize hwhole hrow hblank]
    refine rowsOf_forall₂ (by simp) fun i l l' hl hl' => ?_
    rw [List.getElem?_map, hl, Option.map_some, Option.some.injEq] at hl'
    rw [← hl']
    exact rows_neutralized hcontrols hirlume hothers read phase limit hl
  have hdispatch := dispatch_alike rules halike
  refine ⟨Prod.ext ?_ hdispatch.2, ?_, ?_⟩
  · rw [hdispatch.1, List.map_id]
  · rw [shape_alike halike]
    simp
  · intro i l hl hrule
    have hnil : (lines body).map neutralized ≠ [] := by
      intro hnil
      rw [List.map_eq_nil_iff.1 hnil] at hl
      cases hl
    have hone : ∀ m ∈ (lines body).map neutralized, '\n' ∉ m := by
      intro m hm
      obtain ⟨m', hm', rfl⟩ := List.mem_map.1 hm
      exact neutralized_oneLine (not_mem_of_mem_lines hm')
    have hsame : neutralized l = l := by
      rw [neutralized, hrule]
      rfl
    rw [neutralize_eq, lines_unlines hnil hone, List.getElem?_map, List.getElem?_map, hl]
    simp only [Option.map_some, hsame]
    rw [directive_stripCr (hlines l (List.mem_of_getElem? hl)).cr]

/-! ## libpam's verdicts -/

inductive Impression where
  | undefined
  | positive
  | negative
  deriving DecidableEq

/-- How libpam comes to a verdict: a failure stays, and a success counts where nothing failed. -/
def libpamRules : Rules ReturnValue Action (Impression × ReturnValue) where
  start := (.undefined, .permDenied)
  settle action r entered v :=
    match action with
    | .ok | .done =>
      let v := if v.1 = .undefined || v = (.positive, .success) then (.positive, r) else v
      (v, action = .done && v.1 = .positive)
    | .bad | .die =>
      (if v.1 = .negative then v else (.negative, if r = .ignore then .permDenied else r), action = .die)
    | .reset => (entered, false)
    | _ => (v, false)
  jumped _ v := v
  overrun _ := (.negative, .permDenied)

instance (l : Text) : Decidable (ReadWhole l) :=
  decidable_of_iff (continues l = false ∧ '\x00' ∉ directive l ∧ (directive l).getLast? ≠ some '\r')
    ⟨fun ⟨h, h', h''⟩ => ⟨h, h', h''⟩, fun ⟨h, h', h''⟩ => ⟨h, h', h''⟩⟩

def faceAbovePassword : Text :=
  unlines ["auth [success=1 default=ignore] pam_irlume.so unseal", "auth required pam_unix.so",
    "auth required pam_deny.so"]

/-- The password is asked for, and refused. -/
theorem dispatch_neutralize_faceAbovePassword :
    dispatch libpamRules (fun p => if p = [1] then .authErr else .success)
      (serviceRows (fun _ => none) .auth 0 (neutralize faceAbovePassword)) =
        ([[0], [1], [2]], (.negative, .authErr)) := by
  have hruns : dispatch libpamRules
      (fun p => if irlumeAt faceAbovePassword p then .ignore else if p = [1] then .authErr else .success)
      (serviceRows (fun _ => none) .auth 0 faceAbovePassword) =
        ([[0], [1], [2]], (.negative, .authErr)) := by
    unfold faceAbovePassword
    repeat rw [String.toList_ofList]
    decide +kernel
  rw [← hruns]
  exact (dispatch_neutralize libpamRules (fun _ => none) .auth 0 (by decide +kernel) (by decide +kernel)
    (fun p hp => if_pos hp) fun p hp => by rw [if_neg (by simp [hp])]).1.symm

/-- A rule of irlume's that libpam reads the password step as a part of. -/
def joinedBelow : Text := unlines ["auth sufficient pam_irlume.so \\", "auth required pam_unix.so"]

/-- A rule of irlume's that has no module to libpam, which reads it up to the NUL byte. -/
def cutModule : Text :=
  unlines ["auth [ignore=ignore default=bad] \x00/pam_irlume.so", "auth required pam_unix.so"]

def crlfInclude : Text := "auth include common-auth\r\n"

def commonAuth (name : Text) : Option Text :=
  if name = "common-auth" then some "auth required pam_unix.so\n" else none

/-- The verdict on a stack whose rules of irlume's return `PAM_IGNORE` and whose other modules succeed, and
the one on it neutralized. -/
def verdicts (body : Text) : Impression × Impression :=
  ((dispatch libpamRules (fun p => if irlumeAt body p then .ignore else .success)
      (serviceRows commonAuth .auth 1 body)).2.1,
    (dispatch libpamRules (fun _ => .success) (serviceRows commonAuth .auth 1 (neutralize body))).2.1)

/-- A stack whose rules of irlume's ignore `PAM_IGNORE`, and that lets a login in only once it is neutralized. -/
def ReadDifferently (body : Text) : Prop :=
  (∀ l ∈ lines body, ∀ r ∈ irlumeRule l, controlIgnoresModuleIgnore r.control = true) ∧
    (verdicts body).1 ≠ .positive ∧ (verdicts body).2 = .positive

instance (body : Text) : Decidable (ReadDifferently body) := inferInstanceAs (Decidable (_ ∧ _))

/-- Stacks with a line that libpam reads otherwise. -/
theorem dispatch_neutralize_readDifferently :
    ReadDifferently joinedBelow ∧ ReadDifferently cutModule ∧ ReadDifferently crlfInclude := by
  unfold ReadDifferently verdicts commonAuth joinedBelow cutModule crlfInclude
  repeat rw [String.toList_ofList]
  decide +kernel

end Irlume.Pam

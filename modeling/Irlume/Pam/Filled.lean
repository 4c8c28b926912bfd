import Irlume.Lib.Words
import Irlume.Pam.Survive

/-!
# Places that are filled again

A disable puts an inactive line in the place of each rule of pam_irlume.so (`neutralize`), and the next enable
fills the places with the lines of the recipe (`fillSlots`). So where irlume's lines of a file are of the kinds
of the recipe's, each comes to stand where the line of its kind stood.
-/

namespace Irlume.Pam

open Irlume.Lib

/-! ## The kind of an inactive line -/

theorem head_eq_of_directive {l m : Text} (h : directive l = directive m) : head l = head m := by
  unfold head
  rw [h]

theorem phaseOf_inert (phase : Phase) (s : Text) :
    phaseOf (inertStart phase ++ (inertTag ++ s)) = some phase := by
  have hstart : ∀ ph : Phase, (head (inertStart ph ++ ['#'])).map (·.phase) = some ph := by
    intro ph
    cases ph <;> decide
  unfold phaseOf
  rw [head_eq_of_directive (directive_inert phase s)]
  exact hstart phase

theorem splitOnce_append {a pattern s : Text} {c : Char} (h : c ∉ a) :
    splitOnce (a ++ (c :: pattern ++ s)) (c :: pattern) = some (a, s) := by
  induction a with
  | nil =>
    have hstart : startsWith (c :: (pattern ++ s)) (c :: pattern) = true :=
      List.isPrefixOf_iff_prefix.2 (List.prefix_append (c :: pattern) s)
    change splitOnce (c :: (pattern ++ s)) (c :: pattern) = _
    rw [splitOnce, if_pos hstart]
    simp
  | cons d a ih =>
    have hd : c ≠ d := fun heq => h (heq ▸ List.mem_cons_self)
    have hstart : ¬startsWith (d :: (a ++ (c :: pattern ++ s))) (c :: pattern) = true := by
      simp [startsWith, hd]
    change splitOnce (d :: (a ++ (c :: pattern ++ s))) (c :: pattern) = _
    rw [splitOnce, if_neg hstart, ih fun hc => h (List.mem_cons_of_mem _ hc)]
    rfl

theorem inertLine_append (phase : Phase) (role : Text) :
    inertLine phase.name role =
      inertStart phase ++ (inertTag ++ if role = [] then [] else ' ' :: role) := by
  unfold inertLine inertStart
  split <;> simp

def IsWord (t : Text) : Prop := ∀ c ∈ t, isWhitespace c = false

instance : DecidablePred IsWord := fun t =>
  List.decidableBAll (fun c => isWhitespace c = false) t

theorem head_words_role {role : Text} (h : IsWord role) :
    ((words (if role = [] then [] else ' ' :: role)).head?).getD [] = role := by
  split
  · next hnil =>
    rw [hnil]
    rfl
  · next hne =>
    have hgap : words (' ' :: role) = words role :=
      words_append_of_blank (t := [' ']) (by simp [isWhitespace]) role
    rw [hgap, words_word hne h]
    rfl

theorem jobOf_inertLine (phase : Phase) {role : Text} (h : IsWord role) :
    jobOf (inertLine phase.name role) = role := by
  have hstart : ∀ ph : Phase, '#' ∉ inertStart ph := by
    intro ph
    cases ph <;> decide
  have htag : inertTag = '#' :: inertTag.tail := by decide
  have hsplit : splitOnce (inertLine phase.name role) inertTag =
      some (inertStart phase, if role = [] then [] else ' ' :: role) := by
    rw [inertLine_append, htag]
    exact splitOnce_append (hstart phase)
  unfold jobOf
  rw [hsplit]
  exact head_words_role h

def PlainRule (line : Text) : Prop := ∀ arg ∈ (irlumeRule line).bind (·.args.head?), IsWord arg

instance : DecidablePred PlainRule := fun line =>
  inferInstanceAs (Decidable (∀ arg ∈ (irlumeRule line).bind (·.args.head?), IsWord arg))

variable {line : Text}

theorem isWord_jobOf (h : PlainRule line) : IsWord (jobOf line) := by
  unfold jobOf
  split
  · next before rest hsplit =>
    intro c hc
    cases hjob : ((rest.splitOnP isWhitespace).filter (· ≠ [])).head? with
    | none =>
      rw [hjob, Option.getD_none] at hc
      cases hc
    | some job =>
      rw [hjob, Option.getD_some] at hc
      exact not_of_mem_splitOnP (List.mem_filter.1 (List.mem_of_head? hjob)).1 c hc
  · split
    · exact (by decide : IsWord "landing")
    · split
      · exact (by decide : IsWord "keyring-tag")
      · cases harg : (irlumeRule line).bind (·.args.head?) with
        | none => exact fun c hc => by simp at hc
        | some arg => exact h arg harg

/-- An inactive line is of the kind of the line whose place it holds. -/
theorem kind_inertFor (h : PlainRule line) : kind (inertFor line) = kind line := by
  have hphase : phaseOf (inertFor line) = some ((phaseOf line).getD .auth) := by
    rw [inertFor, inertLine_append]
    exact phaseOf_inert _ _
  unfold kind
  rw [hphase, Option.getD_some, inertFor, jobOf_inertLine _ (isWord_jobOf h)]

theorem inertFor_not_cr (h : PlainRule line) : (inertFor line).getLast? ≠ some '\r' := by
  rw [inertFor, inertLine_append, ← List.append_assoc]
  split
  · cases (phaseOf line).getD .auth <;> decide
  · next hne =>
    rw [List.getLast?_append_cons]
    intro hlast
    have hmem := List.mem_of_getLast? hlast
    rcases List.mem_cons.1 hmem with hblank | hrole
    · cases hblank
    · exact absurd (isWord_jobOf h _ hrole) (by decide)

/-! ## Places by kind -/

def isOfKind (k line : Text) : Bool := isIrlumeLine line && decide (kind line = k)

def ofKind (k : Text) (ls : List Text) : List Text := ls.filter (isOfKind k)

theorem filter_kind {k : Text} (ls : List Text) :
    (ls.filter isIrlumeLine).filter (fun l => kind l = k) = ofKind k ls := by
  rw [List.filter_filter, ofKind]
  congr 1
  funext l
  rw [isOfKind, Bool.and_comm]

theorem filter_kind_eraseP {w k₀ : Text} {wanted : List Text}
    (hfind : wanted.find? (fun v => kind v = k₀) = some w) (k : Text) :
    wanted.filter (fun v => kind v = k) =
      (if k₀ = k then [w] else []) ++
        (wanted.eraseP fun v => kind v = k₀).filter fun v => kind v = k := by
  induction wanted with
  | nil => cases hfind
  | cons v wanted ih =>
    by_cases hv : kind v = k₀
    · rw [List.find?_cons_of_pos (by simpa using hv)] at hfind
      cases hfind
      rw [List.eraseP_cons_of_pos (by simpa using hv), List.filter_cons]
      by_cases hk : k₀ = k
      · simp [hv, hk]
      · simp [hv, hk]
    · rw [List.find?_cons_of_neg (by simpa using hv)] at hfind
      rw [List.eraseP_cons_of_neg (by simpa using hv), List.filter_cons, List.filter_cons, ih hfind]
      by_cases hk : kind v = k
      · have hne : k₀ ≠ k := fun heq => hv (hk.trans heq.symm)
        simp [hk, hne]
      · simp [hk]

/-- What stands at each place of `ls` once it is filled from `wanted`: a line that is not irlume's, and
for the `n`th line of irlume's of a kind the `n`th that was wanted. -/
def Filled (wanted ls out : List Text) : Prop :=
  ∀ i l, ls[i]? = some l → if isIrlumeLine l then
    ∃ w, (wanted.filter fun w => kind w = kind l)[(ofKind (kind l) (ls.take i)).length]? = some w ∧
      out[i]? = some w
    else out[i]? = some l

variable {wanted ls out : List Text}

theorem filled_cons_other {l : Text} (hl : isIrlumeLine l = false)
    (h : Filled wanted ls out) : Filled wanted (l :: ls) (l :: out) := by
  intro i m hm
  cases i with
  | zero =>
    cases hm
    rw [if_neg (by simp [hl])]
    rfl
  | succ i =>
    have hi := h i m hm
    have hcount : ofKind (kind m) ((l :: ls).take (i + 1)) = ofKind (kind m) (ls.take i) := by
      simp [ofKind, isOfKind, hl]
    rw [hcount]
    exact hi

theorem filled_cons_irlume {l w : Text} (hl : isIrlumeLine l = true)
    (hfind : wanted.find? (fun v => kind v = kind l) = some w)
    (h : Filled (wanted.eraseP fun v => kind v = kind l) ls out) :
    Filled wanted (l :: ls) (w :: out) := by
  intro i m hm
  cases i with
  | zero =>
    cases hm
    rw [if_pos hl, filter_kind_eraseP hfind, if_pos rfl]
    exact ⟨w, rfl, rfl⟩
  | succ i =>
    have hi := h i m hm
    by_cases hk : kind l = kind m
    · have hcount : (ofKind (kind m) ((l :: ls).take (i + 1))).length =
          (ofKind (kind m) (ls.take i)).length + 1 := by
        simp [ofKind, isOfKind, hl, hk]
      rw [filter_kind_eraseP hfind, if_pos hk, hcount]
      exact hi
    · have hcount : ofKind (kind m) ((l :: ls).take (i + 1)) = ofKind (kind m) (ls.take i) := by
        simp [ofKind, isOfKind, hk]
      rw [filter_kind_eraseP hfind, if_neg hk, List.nil_append, hcount]
      exact hi

/-- **The places are filled.** The lines of one kind are taken in order. -/
theorem refit_places {leftover : Text → List Text} {wanted ls : List Text}
    (hcount : ∀ k, (ofKind k ls).length = (wanted.filter fun w => kind w = k).length) :
    (refit leftover wanted ls).2 = [] ∧ (refit leftover wanted ls).1.length = ls.length ∧
      Filled wanted ls (refit leftover wanted ls).1 := by
  induction ls generalizing wanted with
  | nil =>
    have hnil : wanted = [] := by
      cases wanted with
      | nil => rfl
      | cons w wanted =>
        have hk := hcount (kind w)
        simp [ofKind] at hk
    rw [hnil]
    exact ⟨rfl, rfl, nofun⟩
  | cons l ls ih =>
    cases hl : isIrlumeLine l with
    | false =>
      have hrest : ∀ k, (ofKind k ls).length = (wanted.filter fun w => kind w = k).length := by
        intro k
        rw [← hcount k]
        simp [ofKind, isOfKind, hl]
      obtain ⟨hleft, hlen, hfilled⟩ := ih hrest
      rw [refit, if_pos (by simp [hl])]
      exact ⟨hleft, by simp [hlen], filled_cons_other hl hfilled⟩
    | true =>
      obtain ⟨w, hfind⟩ : ∃ w, wanted.find? (fun v => kind v = kind l) = some w := by
        cases hfind : wanted.find? fun v => kind v = kind l with
        | some w => exact ⟨w, rfl⟩
        | none =>
          have hk := hcount (kind l)
          rw [List.filter_eq_nil_iff.2 (List.find?_eq_none.1 hfind)] at hk
          simp [ofKind, isOfKind, hl] at hk
      have hrest : ∀ k, (ofKind k ls).length =
          ((wanted.eraseP fun v => kind v = kind l).filter fun w => kind w = k).length := by
        intro k
        have hk := hcount k
        rw [filter_kind_eraseP hfind, List.length_append] at hk
        by_cases hkind : kind l = k
        · simp [ofKind, isOfKind, hl, hkind] at hk ⊢
          omega
        · simp [ofKind, isOfKind, hkind] at hk ⊢
          exact hk
      obtain ⟨hleft, hlen, hfilled⟩ := ih hrest
      rw [refit, if_neg (by simp [hl]), hfind]
      exact ⟨hleft, by simp [hlen], filled_cons_irlume hl hfind hfilled⟩

theorem getElem?_ofKind {ls : List Text} {i : Nat} {k l : Text} (hi : ls[i]? = some l)
    (hl : isOfKind k l = true) : (ofKind k ls)[(ofKind k (ls.take i)).length]? = some l := by
  induction ls generalizing i with
  | nil => cases hi
  | cons m ls ih =>
    cases i with
    | zero =>
      cases hi
      simp [ofKind, hl]
    | succ i =>
      have htail := ih hi
      unfold ofKind at htail ⊢
      rw [List.take_succ_cons, List.filter_cons, List.filter_cons]
      split
      · simpa using htail
      · exact htail

theorem eq_of_filled (hlen : out.length = ls.length)
    (h : Filled wanted ls out)
    (hsame : ∀ k, ofKind k ls = wanted.filter fun w => kind w = k) : out = ls := by
  apply List.ext_getElem?
  intro i
  cases hi : ls[i]? with
  | none => rwa [List.getElem?_eq_none_iff, hlen, ← List.getElem?_eq_none_iff]
  | some l =>
    have hplace := h i l hi
    split at hplace
    · next hl =>
      obtain ⟨w, hw, hout⟩ := hplace
      rw [← hsame, getElem?_ofKind hi (by simp [isOfKind, hl])] at hw
      rw [hout, ← Option.some.inj hw]
    · exact hplace

theorem Filled.oneLine (hlen : out.length = ls.length)
    (h : Filled wanted ls out) (hwanted : ∀ w ∈ wanted, '\n' ∉ w) (hls : ∀ l ∈ ls, '\n' ∉ l) :
    ∀ l ∈ out, '\n' ∉ l := by
  intro x hx
  obtain ⟨i, hi⟩ := List.mem_iff_getElem?.1 hx
  have hlt : i < ls.length := by
    rw [← hlen]
    exact (List.getElem?_eq_some_iff.1 hi).1
  have hplace := h i (ls.get ⟨i, hlt⟩) (List.getElem?_eq_getElem hlt)
  split at hplace
  · obtain ⟨w, hw, hout⟩ := hplace
    cases hi.symm.trans hout
    exact hwanted x (List.mem_filter.1 (List.mem_of_getElem? hw)).1
  · cases hi.symm.trans hplace
    exact hls _ (List.get_mem _ _)

/-! ## A neutralized body -/

def neutralized (l : Text) : Text := if (irlumeRule l).isSome then inertFor l else l

section Neutralized

variable {ls : List Text} (hrules : ∀ l ∈ ls, (irlumeRule l).isSome → isIrlumeLine l = true)
  (hwords : ∀ l ∈ ls, PlainRule l)

include hrules hwords

theorem isOfKind_neutralized {l : Text} (hl : l ∈ ls) (k : Text) :
    isOfKind k (neutralized l) = isOfKind k l := by
  unfold neutralized
  split
  · next hrule =>
    unfold isOfKind
    rw [inertFor_irlume, hrules l hl hrule, kind_inertFor (hwords l hl)]
  · rfl

theorem length_ofKind_neutralized (k : Text) :
    (ofKind k (ls.map neutralized)).length = (ofKind k ls).length := by
  unfold ofKind
  rw [List.filter_map, List.length_map]
  congr 1
  apply List.filter_congr
  intro l hl
  exact isOfKind_neutralized hrules hwords hl k

theorem Filled.of_neutralized {wanted out : List Text}
    (h : Filled wanted (ls.map neutralized) out) : Filled wanted ls out := by
  intro i l hi
  have hmem := List.mem_of_getElem? hi
  have hplace := h i (neutralized l) (by rw [List.getElem?_map, hi]; rfl)
  have hkind := isOfKind_neutralized hrules hwords hmem
  have hlen : ∀ k, (ofKind k ((ls.map neutralized).take i)).length = (ofKind k (ls.take i)).length := by
    intro k
    rw [← List.map_take]
    exact length_ofKind_neutralized (fun m hm => hrules m (List.mem_of_mem_take hm))
      (fun m hm => hwords m (List.mem_of_mem_take hm)) k
  cases hl : isIrlumeLine l with
  | true =>
    have hof : isOfKind (kind l) (neutralized l) = true := by
      rw [hkind]
      simp [isOfKind, hl]
    simp only [isOfKind, Bool.and_eq_true, decide_eq_true_eq] at hof
    rw [if_pos hof.1, hof.2, hlen] at hplace
    rw [if_pos rfl]
    exact hplace
  | false =>
    have hsame : neutralized l = l := by
      unfold neutralized
      rw [if_neg]
      intro hrule
      rw [hrules l hmem hrule] at hl
      cases hl
    rw [hsame, if_neg (by simp [hl])] at hplace
    rw [if_neg (by simp)]
    exact hplace

omit hrules in
theorem lines_neutralize {body : Text} (hls : lines body = ls) (hne : ls ≠ []) (hbody : NoCrEnds body) :
    lines (neutralize body) = ls.map neutralized := by
  have hone : ∀ l ∈ ls.map neutralized, '\n' ∉ l := by
    intro l hl
    obtain ⟨m, hm, rfl⟩ := List.mem_map.1 hl
    have hline := not_mem_of_mem_lines (hls ▸ hm : m ∈ lines body)
    unfold neutralized
    split
    · exact inertFor_oneLine hline
    · exact hline
  have hcr : ∀ l ∈ ls.map neutralized, stripCr l = l := by
    intro l hl
    obtain ⟨m, hm, rfl⟩ := List.mem_map.1 hl
    apply stripCr_of_not_cr
    unfold neutralized
    split
    · exact inertFor_not_cr (hwords m hm)
    · exact hbody m (hls ▸ hm)
  have htext : neutralize body = unlines (ls.map neutralized) := by
    rw [← hls]
    rfl
  rw [htext, lines_unlines (by simpa using hne) hone]
  calc (ls.map neutralized).map stripCr = (ls.map neutralized).map id :=
        List.map_congr_left fun l hl => by rw [hcr l hl, id]
    _ = ls.map neutralized := List.map_id _

end Neutralized

theorem noCrEnds_of_parse {current : Text} {p : Parsed} (h : parse current = some p) :
    NoCrEnds p.body := by
  obtain ⟨above, track, below, hread⟩ := parse_readAs h
  exact hread.noCrEnds

def irlumeKinds (text : Text) : List Text := ((lines text).filter isIrlumeLine).map kind

theorem length_ofKind_of_perm {text text' : Text} (h : (irlumeKinds text).Perm (irlumeKinds text'))
    (k : Text) : (ofKind k (lines text)).length = (ofKind k (lines text')).length := by
  have hlen : ∀ t : Text, (ofKind k (lines t)).length = (irlumeKinds t).count k := by
    intro t
    rw [← filter_kind, irlumeKinds, List.count, List.countP_map, List.countP_eq_length_filter]
    congr 1
    apply List.filter_congr
    intro l _
    exact (beq_eq_decide (kind l) k).symm
  rw [hlen, hlen, h.count_eq]

/-- For every override whose lines of irlume's are, kind by kind, as many as the recipe's (each rule of
irlume's a rule to libpam as well, and its first argument one word): the neutralized body takes the
recipe's lines again. Every other line stands where it stood, and the places of a kind hold the recipe's
lines of the kind in order; so where irlume's lines of each kind are the recipe's, the body is the one
before. -/
theorem fillSlots_neutralize {current wired : Text} {p : Parsed} (hp : parse current = some p)
    (hkinds : (irlumeKinds p.body).Perm (irlumeKinds wired))
    (hrules : ∀ l ∈ lines p.body, (irlumeRule l).isSome → isIrlumeLine l = true)
    (hwords : ∀ l ∈ lines p.body, PlainRule l) :
    ∃ out, fillSlots (neutralize p.body) wired = some (unlines out) ∧ (∀ l ∈ out, '\n' ∉ l) ∧
      (∀ i l, (lines p.body)[i]? = some l → if isIrlumeLine l then
        ∃ w, (ofKind (kind l) (lines wired))[(ofKind (kind l) ((lines p.body).take i)).length]? =
          some w ∧ out[i]? = some w
        else out[i]? = some l) ∧
      ((∀ k, ofKind k (lines p.body) = ofKind k (lines wired)) → unlines out = normalize p.body) := by
  have hbody := noCrEnds_of_parse hp
  have hcount := length_ofKind_of_perm hkinds
  by_cases hnil : lines p.body = []
  · -- An empty body gets an empty line.
    have hwired : (lines wired).filter isIrlumeLine = [] := by
      have hlen := hkinds.length_eq
      rw [irlumeKinds, irlumeKinds, hnil] at hlen
      simpa using hlen.symm
    have htext : neutralize p.body = unlines [] := by
      rw [neutralize, hnil]
      rfl
    refine ⟨[[]], ?_, by simp, by simp [hnil], ?_⟩
    · rw [fillSlots, refitText, htext, lines_unlines_nil, hwired]
      rfl
    · intro _
      rw [normalize, hnil]
      rfl
  · have hlines := lines_neutralize hwords rfl hnil hbody
    have hplaces : ∀ k, (ofKind k ((lines p.body).map neutralized)).length =
        (((lines wired).filter isIrlumeLine).filter fun w => kind w = k).length := by
      intro k
      rw [length_ofKind_neutralized hrules hwords, hcount, filter_kind]
    have hrefit := @refit_places (fun l => if (irlumeRule l).isSome then [inertFor l] else [l]) _ _ hplaces
    generalize hout : refit (fun l => if (irlumeRule l).isSome then [inertFor l] else [l])
      ((lines wired).filter isIrlumeLine) ((lines p.body).map neutralized) = filled at hrefit
    obtain ⟨out, left⟩ := filled
    obtain ⟨hleft, hlen, hfilled⟩ := hrefit
    have hfilled := hfilled.of_neutralized hrules hwords
    dsimp only at hleft hlen hfilled
    rw [List.length_map] at hlen
    refine ⟨out, ?_, hfilled.oneLine hlen ?_ ?_, ?_, ?_⟩
    · rw [fillSlots, refitText, hlines, hout]
      exact if_pos hleft
    · intro w hw
      exact not_mem_of_mem_lines (List.mem_filter.1 hw).1
    · intro l hl
      exact not_mem_of_mem_lines hl
    · intro i l hi
      have hplace := hfilled i l hi
      rwa [filter_kind] at hplace
    · intro hsame
      rw [eq_of_filled hlen hfilled fun k => (hsame k).trans (filter_kind _).symm, normalize]

/-- `commented` is as it was once its place is filled again. -/
theorem fillSlots_neutralize_commented :
    ∃ p, parse commented = some p ∧
      fillSlots (neutralize p.body) (unlines [verifyStanza, "auth include system-auth"]) =
        some (normalize p.body) := by
  have hread : (parse commented).map (·.body) =
      some (unlines ["# note", verifyStanza, "auth include system-auth"]) := by
    unfold commented createdLine createdStart trackingLine overrideTrackStart commentedVendorSha
      verifyStanza
    repeat rw [String.toList_ofList]
    decide +kernel
  obtain ⟨p, hp, hbody⟩ := Option.map_eq_some_iff.1 hread
  have hirlume : (lines p.body).filter isIrlumeLine =
      (lines (unlines [verifyStanza, "auth include system-auth"])).filter isIrlumeLine := by
    rw [hbody]
    decide +kernel
  have hrules : ∀ l ∈ lines p.body, (irlumeRule l).isSome → isIrlumeLine l = true := by
    rw [hbody]
    decide +kernel
  have hwords : ∀ l ∈ lines p.body, PlainRule l := by
    rw [hbody]
    decide +kernel
  obtain ⟨out, hfill, -, -, hsame⟩ := fillSlots_neutralize hp
    (List.Perm.of_eq (congrArg (List.map kind) hirlume)) hrules hwords
  refine ⟨p, hp, hfill.trans (congrArg some (hsame fun k => ?_))⟩
  rw [← filter_kind, ← filter_kind, hirlume]

def cutShort : Text :=
  unlines [createdLine "/usr/lib/pam.d/sudo", "auth required\x00 pam_irlume.so", verifyStanza]

/-- To libpam the first rule of `cutShort` ends at the NUL byte and is no line of irlume's; made
inactive all the same, it takes the recipe's only line. -/
theorem fillSlots_neutralize_cutShort :
    ∃ p, parse cutShort = some p ∧
      (irlumeKinds p.body).Perm (irlumeKinds (unlines [verifyStanza])) ∧
      (∀ l ∈ lines p.body, PlainRule l) ∧
      ∃ l, (lines p.body)[0]? = some l ∧ isIrlumeLine l = false ∧
        ∀ t, fillSlots (neutralize p.body) (unlines [verifyStanza]) = some t →
          (lines t)[0]? ≠ some l := by
  have hread : (parse cutShort).map (·.body) =
      some (unlines ["auth required\x00 pam_irlume.so", verifyStanza]) := by
    unfold cutShort createdLine createdStart verifyStanza
    repeat rw [String.toList_ofList]
    decide +kernel
  obtain ⟨p, hp, hbody⟩ := Option.map_eq_some_iff.1 hread
  refine ⟨p, hp, ?_⟩
  rw [hbody]
  refine ⟨by decide +kernel, by decide +kernel, "auth required\x00 pam_irlume.so", by decide +kernel,
    by decide +kernel, ?_⟩
  intro t ht
  have hfirst : (fillSlots (neutralize (unlines ["auth required\x00 pam_irlume.so", verifyStanza]))
      (unlines [verifyStanza])).map (fun t => (lines t)[0]?) = some (some verifyStanza) := by
    unfold verifyStanza
    repeat rw [String.toList_ofList]
    decide +kernel
  rw [ht, Option.map_some, Option.some.injEq] at hfirst
  rw [hfirst]
  decide

end Irlume.Pam

import Irlume.Pam.Decide
import Irlume.Pam.LineEnds

/-!
# The lines of an override that are kept

Every text irlume writes over a file it keeps is built from the file's lines in one of a few ways:
irlume's lines taken out, replaced in their places, put in by a recipe, or the digits of jumps changed.
Here each of them keeps the lines that are not irlume's (`KeepsLines`). A text that is written ends a
line, so where no such line was there before there is an empty one after.
-/

namespace Irlume.Pam

open Irlume.Lib

def otherLines (t : Text) : List Text := (trimmedLines t).filter (!isIrlumeLine ·)

/-- The lines `old` are kept as the lines `new`, each as `R` allows. -/
def KeepsLines (R : Text → Text → Prop) (old new : List Text) : Prop :=
  List.Forall₂ R old new ∨ (old = [] ∧ new = [[]])

variable {R : Text → Text → Prop}

theorem KeepsLines.of_eq (hR : ∀ l, R l l) {old new : List Text}
    (h : new = old) : KeepsLines R old new := by
  subst h
  left
  rw [List.forall₂_same]
  intro l _
  exact hR l

theorem KeepsLines.imp {R S : Text → Text → Prop} (hRS : ∀ l l', R l l' → S l l')
    {old new : List Text} (h : KeepsLines R old new) : KeepsLines S old new := by
  rcases h with h | h
  · exact .inl (h.imp fun l l' => hRS l l')
  · exact .inr h

theorem KeepsLines.trans_eq (hR : ∀ l, R [] l → l = [])
    {old mid new : List Text} (h : KeepsLines Eq old mid) (h' : KeepsLines R mid new) :
    KeepsLines R old new := by
  rcases h with h | ⟨rfl, rfl⟩
  · rw [List.forall₂_eq_eq_eq] at h
    subst h
    exact h'
  · rcases h' with h' | ⟨h', -⟩
    · cases h' with
      | cons hr htail =>
        cases htail
        right
        rw [hR _ hr]
        exact ⟨rfl, rfl⟩
    · cases h'

variable {l : Text}

theorem sameButJumps_nil (h : SameButJumps [] l) : l = [] := by
  rcases h with rfl | ⟨pre, control, control', post, h, -⟩
  · rfl
  · rw [around] at h
    simp at h

theorem sameButJumps_refl (l : Text) : SameButJumps l l := .inl rfl

/-! ## Inactive lines -/

theorem mem_of_mem_splitOnP {p : Char → Bool} {t l : Text} {c : Char} (h : l ∈ t.splitOnP p)
    (hc : c ∈ l) : c ∈ t := by
  induction t generalizing l with
  | nil =>
    rw [List.splitOnP_nil, List.mem_singleton] at h
    subst h
    exact hc
  | cons d t ih =>
    rw [List.splitOnP_cons_eq_if_modifyHead] at h
    split at h
    · rcases List.mem_cons.1 h with rfl | h
      · cases hc
      · exact List.mem_cons_of_mem _ (ih h hc)
    · cases hs : t.splitOnP p with
      | nil => exact absurd hs (List.splitOnP_ne_nil _ _)
      | cons piece pieces =>
        rw [hs, List.modifyHead_cons] at h
        rcases List.mem_cons.1 h with rfl | h
        · rcases List.mem_cons.1 hc with rfl | hc
          · exact List.mem_cons_self
          · exact List.mem_cons_of_mem _ (ih (hs ▸ List.mem_cons_self) hc)
        · exact List.mem_cons_of_mem _ (ih (hs ▸ List.mem_cons_of_mem _ h) hc)

theorem nextField_subset {t f rest : Text} (h : nextField t = some (f, rest)) : f ⊆ t ∧ rest ⊆ t := by
  obtain ⟨b, a, -, rfl, rfl⟩ := nextField_spec h
  constructor
  · intro c hc
    exact List.mem_append_right _ (List.mem_append_left _ hc)
  · intro c hc
    refine List.mem_append_right _ (List.mem_append_right _ ?_)
    rw [afterSpan] at hc
    split at hc
    · exact List.mem_of_mem_drop hc
    · exact hc

theorem fields_subset {n : Nat} {t f : Text} (h : f ∈ fields n t) : f ⊆ t := by
  induction n generalizing t with
  | zero => cases h
  | succ n ih =>
    rw [fields] at h
    split at h
    · cases h
    · next field rest hfield =>
      rcases List.mem_cons.1 h with rfl | h
      · exact (nextField_subset hfield).1
      · intro c hc
        exact (nextField_subset hfield).2 (ih h hc)

theorem directive_subset (line : Text) : directive line ⊆ line := by
  intro c hc
  exact (List.dropWhile_sublist _).subset ((List.takeWhile_sublist _).subset hc)

variable {line : Text}

theorem head_rest_subset {h : Head} (hh : head line = some h) : h.rest ⊆ line := by
  unfold head at hh
  split at hh
  · cases hh
  · next kind rest htype =>
    split at hh
    · cases hh
    · cases hh
      obtain ⟨⟨k, rest'⟩, hfield, hk⟩ := Option.map_eq_some_iff.1 htype
      obtain ⟨-, rfl⟩ := Prod.mk.inj hk
      intro c hc
      apply directive_subset
      apply (nextField_subset hfield).2
      cases hcontrol : nextField rest' with
      | none =>
        simp [hcontrol] at hc
      | some x =>
        simp only [hcontrol] at hc
        exact (nextField_subset hcontrol).2 hc

theorem args_subset {line arg : Text} {r : Rule} (h : rule line = some r) (harg : arg ∈ r.args) :
    arg ⊆ line := by
  unfold rule at h
  split at h
  · cases h
  · next hd hhead =>
    split at h
    · cases h
    · split at h
      · cases h
      · next path args hfields =>
        cases h
        have hmem : arg ∈ hd.fieldsAfterControl := by
          rw [hfields]
          exact List.mem_cons_of_mem _ harg
        intro c hc
        exact head_rest_subset hhead (fields_subset hmem hc)

theorem splitOnce_subset {t pattern before after : Text}
    (h : splitOnce t pattern = some (before, after)) : after ⊆ t := by
  induction t generalizing before after with
  | nil =>
    rw [splitOnce] at h
    split at h
    · cases h
      exact List.nil_subset _
    · cases h
  | cons d t ih =>
    rw [splitOnce] at h
    split at h
    · cases h
      exact List.drop_subset _ _
    · obtain ⟨⟨b, a⟩, hs, heq⟩ := Option.map_eq_some_iff.1 h
      cases heq
      intro c hc
      exact List.mem_cons_of_mem _ (ih hs hc)

theorem jobOf_newline (h : '\n' ∉ line) : '\n' ∉ jobOf line := by
  unfold jobOf
  split
  · next before rest hsplit =>
    intro hmem
    cases hjob : ((rest.splitOnP isWhitespace).filter (· ≠ [])).head? with
    | none =>
      rw [hjob, Option.getD_none] at hmem
      cases hmem
    | some job =>
      rw [hjob, Option.getD_some] at hmem
      have hpiece := (List.mem_filter.1 (List.mem_of_head? hjob)).1
      exact h (splitOnce_subset hsplit (mem_of_mem_splitOnP hpiece hmem))
  · split
    · decide
    · split
      · decide
      · intro hmem
        cases hrule : irlumeRule line with
        | none => simp [hrule] at hmem
        | some r =>
          cases harg : r.args.head? with
          | none => simp [hrule, harg] at hmem
          | some arg =>
            simp only [hrule, Option.bind_some, harg, Option.getD_some] at hmem
            have hr := (Option.filter_eq_some_iff.1 hrule).1
            exact h (args_subset hr (List.mem_of_head? harg) hmem)

def inertStart (phase : Phase) : Text :=
  phase.name ++ List.replicate (11 - phase.name.length) ' ' ++
    "[default=ignore]             pam_permit.so   ".toList

theorem inertLine_eq (phase : Phase) (role : Text) :
    ∃ s, inertLine phase.name role = inertStart phase ++ (inertTag ++ s) ∧ s ⊆ ' ' :: role := by
  unfold inertLine inertStart
  by_cases h : role = []
  · exact ⟨[], by simp [h], by simp⟩
  · exact ⟨' ' :: role, by simp [h], fun _ hc => hc⟩

theorem directive_inert (phase : Phase) (s : Text) :
    directive (inertStart phase ++ (inertTag ++ s)) = directive (inertStart phase ++ ['#']) := by
  have hsplit : inertStart phase ++ (inertTag ++ s) =
      (inertStart phase ++ ['#']) ++ (inertTag.tail ++ s) := by
    have htag : inertTag = '#' :: inertTag.tail := by decide
    rw [htag]
    simp
  rw [hsplit]
  exact directive_append_of_mem (by simp) _

theorem isIrlumeLine_inert (phase : Phase) (s : Text) :
    isIrlumeLine (inertStart phase ++ (inertTag ++ s)) = true := by
  have hstart : ∀ ph : Phase, '\x00' ∉ inertStart ph ++ inertTag ∧
      ruleNamesModule (inertStart ph ++ ['#']) "pam_permit.so" = true := by
    intro ph
    cases ph <;> decide
  have hread : beforeNul (inertStart phase ++ (inertTag ++ s)) =
      inertStart phase ++ (inertTag ++ beforeNul s) := by
    rw [beforeNul, ← List.append_assoc, List.takeWhile_append_of_pos, List.append_assoc]
    · rfl
    · intro c hc
      rw [decide_eq_true_eq]
      rintro rfl
      exact (hstart phase).1 hc
  have hrule : ruleNamesModule (inertStart phase ++ (inertTag ++ beforeNul s)) "pam_permit.so" = true := by
    rw [← (hstart phase).2]
    unfold ruleNamesModule
    rw [rule_eq_of_directive (directive_inert phase (beforeNul s))]
  have htag : contains (inertStart phase ++ (inertTag ++ beforeNul s)) inertTag = true := by
    rw [contains, decide_eq_true_eq, ← List.append_assoc]
    exact ⟨inertStart phase, beforeNul s, rfl⟩
  unfold isIrlumeLine
  simp only [hread, hrule, htag, Bool.or_true, Bool.and_self, Bool.true_or]

theorem inertFor_irlume (line : Text) : isIrlumeLine (inertFor line) = true := by
  obtain ⟨s, heq, -⟩ := inertLine_eq ((phaseOf line).getD .auth) (jobOf line)
  rw [inertFor, heq]
  exact isIrlumeLine_inert _ _

theorem inertFor_oneLine (h : '\n' ∉ line) : '\n' ∉ inertFor line := by
  obtain ⟨s, heq, hs⟩ := inertLine_eq ((phaseOf line).getD .auth) (jobOf line)
  have hstart : '\n' ∉ inertStart ((phaseOf line).getD .auth) ++ inertTag := by
    cases (phaseOf line).getD .auth <;> decide
  rw [inertFor, heq, ← List.append_assoc]
  intro hmem
  rcases List.mem_append.1 hmem with hmem | hmem
  · exact hstart hmem
  · rcases List.mem_cons.1 (hs hmem) with hmem | hmem
    · cases hmem
    · exact jobOf_newline h hmem

/-! ## Texts that are written -/

variable {ls : List Text}

theorem otherLines_unlines (h : ls ≠ []) (hline : ∀ l ∈ ls, '\n' ∉ l) :
    otherLines (unlines ls) = (ls.map trimCrs).filter (!isIrlumeLine ·) := by
  rw [otherLines, trimmedLines_unlines h hline]

theorem otherLines_unlines_nil : otherLines (unlines []) = [[]] := by decide

theorem keepsLines_unlines {old ls : List Text} (hline : ∀ l ∈ ls, '\n' ∉ l)
    (h : (ls.map trimCrs).filter (!isIrlumeLine ·) = old) :
    KeepsLines Eq old (otherLines (unlines ls)) := by
  by_cases hnil : ls = []
  · subst hnil
    right
    exact ⟨h.symm, otherLines_unlines_nil⟩
  · apply KeepsLines.of_eq fun _ => rfl
    rw [otherLines_unlines hnil hline, h]

def NoCrEnds (t : Text) : Prop := ∀ l ∈ lines t, l.getLast? ≠ some '\r'

theorem NoCrEnds.trimmedLines {t : Text} (h : NoCrEnds t) : trimmedLines t = lines t := by
  rw [Lib.trimmedLines]
  calc (lines t).map trimCrs = (lines t).map id := by
        apply List.map_congr_left
        intro l hl
        exact trimCrs_of_not_cr (h l hl)
    _ = lines t := List.map_id _

theorem NoCrEnds.otherLines {t : Text} (h : NoCrEnds t) :
    otherLines t = (lines t).filter (!isIrlumeLine ·) := by
  rw [Pam.otherLines, h.trimmedLines]

theorem noCrEnds_unlines (hline : ∀ l ∈ ls, '\n' ∉ l)
    (h : ∀ l ∈ ls, l.getLast? ≠ some '\r') : NoCrEnds (unlines ls) := by
  intro l hl
  by_cases hnil : ls = []
  · subst hnil
    rw [lines_unlines_nil, List.mem_singleton] at hl
    subst hl
    simp
  · rw [lines_unlines hnil hline] at hl
    obtain ⟨m, hm, rfl⟩ := List.mem_map.1 hl
    rw [stripCr_of_not_cr (h m hm)]
    exact h m hm

theorem map_trimCrs_of_subset {t : Text} (h : NoCrEnds t) (hls : ls ⊆ lines t) :
    ls.map trimCrs = ls := by
  calc ls.map trimCrs = ls.map id := by
        apply List.map_congr_left
        intro l hl
        exact trimCrs_of_not_cr (h l (hls hl))
    _ = ls := List.map_id _

variable {body : Text}

theorem noCrEnds_base (hbody : NoCrEnds body) : NoCrEnds (base body) := by
  apply noCrEnds_unlines
  · intro l hl
    exact not_mem_of_mem_lines (List.mem_filter.1 hl).1
  · intro l hl
    exact hbody l (List.mem_filter.1 hl).1

/-! ## irlume's lines replaced -/

structure Irlumes (x : Text) : Prop where
  irlume : isIrlumeLine x = true
  oneLine : '\n' ∉ x

/-- `out` is `ls` with lines of irlume's, or none, in the places of lines of irlume's. -/
inductive Replaced : List Text → List Text → Prop
  | nil : Replaced [] []
  | keep (l : Text) {ls out : List Text} (h : Replaced ls out) : Replaced (l :: ls) (l :: out)
  | irlume {l : Text} {xs ls out : List Text} (hl : isIrlumeLine l = true)
    (hxs : ∀ x ∈ xs, Irlumes x) (h : Replaced ls out) : Replaced (l :: ls) (xs ++ out)

namespace Replaced

variable {ls out : List Text}

theorem oneLine (h : Replaced ls out) (hls : ∀ l ∈ ls, '\n' ∉ l) : ∀ x ∈ out, '\n' ∉ x := by
  induction h with
  | nil => exact hls
  | keep l _ ih =>
    intro x hx
    rcases List.mem_cons.1 hx with rfl | hx
    · exact hls x List.mem_cons_self
    · exact ih (fun m hm => hls m (List.mem_cons_of_mem _ hm)) x hx
  | irlume _ hxs _ ih =>
    intro x hx
    rcases List.mem_append.1 hx with hx | hx
    · exact (hxs x hx).oneLine
    · exact ih (fun m hm => hls m (List.mem_cons_of_mem _ hm)) x hx

theorem filter_map {f : Text → Text} (h : Replaced ls out)
    (hf : ∀ x, isIrlumeLine x = true → isIrlumeLine (f x) = true) (hls : ∀ l ∈ ls, f l = l) :
    (out.map f).filter (!isIrlumeLine ·) = ls.filter (!isIrlumeLine ·) := by
  induction h with
  | nil => rfl
  | keep l _ ih =>
    have htail := ih fun m hm => hls m (List.mem_cons_of_mem _ hm)
    rw [List.map_cons, hls l List.mem_cons_self, List.filter_cons, List.filter_cons, htail]
  | @irlume l xs ls out hl hxs _ ih =>
    have htail := ih fun m hm => hls m (List.mem_cons_of_mem _ hm)
    have hnone : (xs.map f).filter (!isIrlumeLine ·) = [] := by
      rw [List.filter_eq_nil_iff]
      intro y hy
      obtain ⟨x, hx, rfl⟩ := List.mem_map.1 hy
      simp [hf x (hxs x hx).irlume]
    rw [List.map_append, List.filter_append, hnone, List.nil_append, htail,
      List.filter_cons_of_neg (by simp [hl])]

theorem filter (ls : List Text) : Replaced ls (ls.filter (!isIrlumeLine ·)) := by
  induction ls with
  | nil => exact .nil
  | cons l ls ih =>
    cases hl : isIrlumeLine l with
    | false =>
      rw [List.filter_cons_of_pos (by simp [hl])]
      exact .keep l ih
    | true =>
      rw [List.filter_cons_of_neg (by simp [hl])]
      have hout : Replaced (l :: ls) ([] ++ _) := .irlume hl nofun ih
      exact hout

theorem map {f : Text → Text}
    (h : ∀ l ∈ ls, f l = l ∨ (isIrlumeLine l = true ∧ Irlumes (f l))) : Replaced ls (ls.map f) := by
  induction ls with
  | nil => exact .nil
  | cons l ls ih =>
    have htail := ih fun m hm => h m (List.mem_cons_of_mem _ hm)
    rw [List.map_cons]
    rcases h l List.mem_cons_self with heq | ⟨hl, hfl⟩
    · rw [heq]
      exact .keep l htail
    · have hout : Replaced (l :: ls) ([f l] ++ _) := .irlume hl (List.forall_mem_singleton.2 hfl) htail
      exact hout

theorem refit {leftover : Text → List Text} {wanted : List Text}
    (hleft : ∀ l ∈ ls, isIrlumeLine l = true → leftover l = [l] ∨ ∀ x ∈ leftover l, Irlumes x)
    (hwanted : ∀ w ∈ wanted, Irlumes w) : Replaced ls (Pam.refit leftover wanted ls).1 := by
  induction ls generalizing wanted with
  | nil => exact .nil
  | cons l ls ih =>
    have hleft' := fun m hm => hleft m (List.mem_cons_of_mem _ hm)
    cases hl : isIrlumeLine l with
    | false =>
      rw [Pam.refit, if_pos (by simp [hl])]
      exact .keep l (ih hleft' hwanted)
    | true =>
      rw [Pam.refit, if_neg (by simp [hl])]
      cases hfind : wanted.find? fun w => kind w = kind l with
      | some w =>
        have hw := hwanted w (List.mem_of_find?_eq_some hfind)
        have htail := @ih (wanted.eraseP fun w => kind w = kind l) hleft'
          fun x hx => hwanted x (List.mem_of_mem_eraseP hx)
        have hout : Replaced (l :: ls) ([w] ++ _) := .irlume hl (List.forall_mem_singleton.2 hw) htail
        exact hout
      | none =>
        have htail := ih hleft' hwanted
        rcases hleft l List.mem_cons_self hl with hsame | hown
        · simp only [hsame]
          exact .keep l htail
        · exact .irlume hl hown htail

variable {body : Text} (hbody : NoCrEnds body)

include hbody in
theorem keepsLines (h : Replaced (lines body) out) :
    KeepsLines Eq (otherLines body) (otherLines (unlines out)) := by
  apply keepsLines_unlines (h.oneLine fun _ => not_mem_of_mem_lines)
  rw [hbody.otherLines, h.filter_map (fun _ => isIrlumeLine_trimmed) fun l hl =>
    trimCrs_of_not_cr (hbody l hl)]

end Replaced

theorem isIrlumeLine_of_irlumeRule (hnul : '\x00' ∉ l) (h : (irlumeRule l).isSome = true) :
    isIrlumeLine l = true := by
  have hsame : beforeNul l = l := by
    rw [beforeNul, List.takeWhile_eq_self_iff]
    intro c hc
    have hne : c ≠ '\x00' := fun heq => hnul (heq ▸ hc)
    simpa using hne
  simp [isIrlumeLine, hsame, h]

theorem replaced_neutralize
    (hread : ∀ l ∈ lines body, (irlumeRule l).isSome = true → isIrlumeLine l = true) :
    Replaced (lines body)
      ((lines body).map fun l => if (irlumeRule l).isSome then inertFor l else l) := by
  apply Replaced.map
  intro l hl
  split
  · next hrule =>
    exact .inr ⟨hread l hl hrule, inertFor_irlume l, inertFor_oneLine (not_mem_of_mem_lines hl)⟩
  · exact .inl rfl

variable {body candidate text : Text}

theorem replaced_of_refitText {leftover : Text → List Text}
    (hleft : ∀ l ∈ lines body, isIrlumeLine l = true →
      leftover l = [l] ∨ ∀ x ∈ leftover l, Irlumes x)
    (h : refitText leftover body candidate = some text) :
    ∃ out, text = unlines out ∧ Replaced (lines body) out := by
  simp only [refitText] at h
  split at h
  · cases h
    refine ⟨_, rfl, .refit hleft ?_⟩
    intro w hw
    obtain ⟨hmem, hirlume⟩ := List.mem_filter.1 hw
    exact ⟨hirlume, not_mem_of_mem_lines hmem⟩
  · cases h

theorem replaced_of_fillSlots (h : fillSlots body candidate = some text) :
    ∃ out, text = unlines out ∧ Replaced (lines body) out := by
  apply replaced_of_refitText _ h
  intro l hl _
  split
  · right
    rw [List.forall_mem_singleton]
    exact ⟨inertFor_irlume l, inertFor_oneLine (not_mem_of_mem_lines hl)⟩
  · exact .inl rfl

theorem replaced_of_substitute (h : substitute body candidate = some text) :
    ∃ out, text = unlines out ∧ Replaced (lines body) out :=
  replaced_of_refitText (fun _ _ _ => .inr fun _ hx => by cases hx) h

theorem base_keepsLines (hbody : NoCrEnds body) :
    KeepsLines Eq (otherLines body) (otherLines (base body)) :=
  (Replaced.filter (lines body)).keepsLines hbody

/-! ## Recipes -/

def InsertsOnly (wire : Text → Text × Bool) : Prop :=
  ∀ t, (wire t).1 = t ∨ ∃ out, (wire t).1 = unlines out ∧ Woven (lines t) out

theorem Recipe.insertsOnly (reader : StackReader) (r : Recipe) :
    InsertsOnly fun t => r.wire reader t := by
  intro t
  simp only
  have hwires : WiresOnly t (r.wire reader t) := r.wire_wiresOnly
  rcases hwires with h | ⟨out, h, hwoven, -⟩
  · left
    rw [h]
  · right
    exact ⟨out, by rw [h], hwoven⟩

variable {ls out : List Text}

theorem Woven.filter_trimCrs (h : Woven ls out) :
    (out.map trimCrs).filter (!isIrlumeLine ·) = (ls.map trimCrs).filter (!isIrlumeLine ·) :=
  h.filter_read fun _ hx => trimCrs_of_not_cr hx.lf

section Wire

variable {wire : Text → Text × Bool} (hwire : InsertsOnly wire) {t : Text}

include hwire in
theorem otherLines_wire (hne : lines t ≠ []) : otherLines (wire t).1 = otherLines t := by
  rcases hwire t with h | ⟨out, h, hwoven⟩
  · rw [h]
  · rw [h, otherLines_unlines (hwoven.ne_nil hne) (hwoven.oneLine fun _ => not_mem_of_mem_lines),
      hwoven.filter_trimCrs]
    rfl

theorem lines_base_ne_nil (body : Text) : lines (base body) ≠ [] := by
  unfold base unwireLines
  by_cases h : (lines body).filter (!isIrlumeLine ·) = []
  · rw [h, lines_unlines_nil]
    simp
  · rw [lines_unlines h fun l hl => not_mem_of_mem_lines (List.mem_filter.1 hl).1]
    simpa using h

/-! ## The recipe from the password line on -/

theorem firstPassword_lt {ls : List Text} {take : Nat → Bool} {k : Nat}
    (h : firstPassword ls take = some k) : k < ls.length := by
  have hfound : ∀ {p : Text × Nat → Bool}, ((ls.zipIdx.find? p).map Prod.snd) = some k →
      k < ls.length := by
    intro p hp
    obtain ⟨x, hx, rfl⟩ := Option.map_eq_some_iff.1 hp
    have hlt := List.snd_lt_of_mem_zipIdx (List.mem_of_find?_eq_some hx)
    omega
  unfold firstPassword at h
  rcases Option.or_eq_some_iff.1 h with h | ⟨-, h⟩
  · exact hfound h
  · exact hfound h

theorem passwordLine_lt {bare : Text} {own : List Bool} {vendorKnown : Bool} {k : Nat}
    (h : passwordLine bare own vendorKnown = some k) : k < (lines bare).length := by
  unfold passwordLine at h
  simp only at h
  split at h
  · exact firstPassword_lt h
  · exact firstPassword_lt (Option.filter_eq_some_iff.1 h).1

theorem trimmedLines_intercalate {ls : List Text} (hne : ls ≠ []) (hline : ∀ l ∈ ls, '\n' ∉ l)
    (t : Text) : trimmedLines (['\n'].intercalate ls ++ '\n' :: t) = ls.map trimCrs ++ trimmedLines t := by
  induction ls with
  | nil => exact absurd rfl hne
  | cons l ls ih =>
    have hl := hline l List.mem_cons_self
    cases ls with
    | nil =>
      rw [List.intercalate_singleton, trimmedLines_newline hl]
      rfl
    | cons l' ls =>
      have htail := ih (List.cons_ne_nil _ _) fun m hm => hline m (List.mem_cons_of_mem _ hm)
      rw [List.intercalate_cons_cons, List.append_assoc, List.append_assoc, List.singleton_append,
        trimmedLines_newline hl, htail]
      rfl

include hwire in
theorem otherLines_anchored {bare text : Text} {own : List Bool} {vendorKnown : Bool}
    (hbare : NoCrEnds bare) (h : anchored bare own vendorKnown wire = some text) :
    otherLines text = otherLines bare := by
  unfold anchored at h
  simp only at h
  split at h
  · cases h
  · next k hk =>
    have hlt := passwordLine_lt hk
    have hdrop : (lines bare).drop k ≠ [] := by simpa using hlt
    have hone : ∀ l ∈ (lines bare).drop k, '\n' ∉ l :=
      fun l hl => not_mem_of_mem_lines (List.mem_of_mem_drop hl)
    have hlines : lines (unlines ((lines bare).drop k)) ≠ [] := by
      rw [lines_unlines hdrop hone]
      simpa using hdrop
    have htail : otherLines (wire (unlines ((lines bare).drop k))).1 =
        ((lines bare).drop k).filter (!isIrlumeLine ·) := by
      rw [otherLines_wire hwire hlines, otherLines_unlines hdrop hone,
        map_trimCrs_of_subset hbare (List.drop_subset _ _)]
    split at h
    · cases h
    · split at h
      · cases h
      · split at h
        · cases h
        · rw [hbare.otherLines]
          split at h
          · next hzero =>
            cases h
            rw [htail, hzero, List.drop_zero]
          · next hzero =>
            cases h
            have htake : (lines bare).take k ≠ [] := by
              simp only [ne_eq, List.take_eq_nil_iff, not_or]
              refine ⟨hzero, ?_⟩
              intro hnil
              rw [hnil] at hlt
              exact Nat.not_lt_zero _ hlt
            have hone' : ∀ l ∈ (lines bare).take k, '\n' ∉ l :=
              fun l hl => not_mem_of_mem_lines (List.mem_of_mem_take hl)
            rw [otherLines, trimmedLines_intercalate htake hone', List.filter_append,
              map_trimCrs_of_subset hbare (List.take_subset _ _)]
            have hsplit := List.take_append_drop k (lines bare)
            conv_rhs => rw [← hsplit, List.filter_append, ← htail]
            rfl

include hwire in
theorem arrange_keepsLines {body text : Text} {vendor : Option Text} {edited : Bool}
    (hbody : NoCrEnds body)
    (h : arrange body (base body) (wire (base body)).1 vendor edited wire = .ok text) :
    KeepsLines Eq (otherLines body) (otherLines text) := by
  have hbare := noCrEnds_base hbody
  have hwired : KeepsLines Eq (otherLines body) (otherLines (wire (base body)).1) := by
    rw [otherLines_wire hwire (lines_base_ne_nil body)]
    exact base_keepsLines hbody
  unfold arrange at h
  simp only at h
  split at h
  · split at h
    · cases h
      exact hwired
    · split at h
      · next hanchored =>
        cases h
        rw [otherLines_anchored hwire hbare hanchored]
        exact base_keepsLines hbody
      · cases h
  · split at h
    · cases h
      exact hwired
    · split at h
      · next hsub =>
        cases h
        obtain ⟨out, rfl, hout⟩ := replaced_of_substitute hsub
        exact hout.keepsLines hbody
      · cases h

end Wire

/-! ## Taking irlume's lines out of a file irlume does not read throughout -/

theorem otherLines_newline (h : '\n' ∉ l) (t : Text) :
    otherLines (l ++ '\n' :: t) = if isIrlumeLine (trimCrs l) then otherLines t
      else trimCrs l :: otherLines t := by
  rw [otherLines, trimmedLines_newline h, List.filter_cons]
  cases isIrlumeLine (trimCrs l) <;> rfl

theorem withoutIrlumeLines_newline (h : '\n' ∉ l) (t : Text) :
    withoutIrlumeLines (l ++ '\n' :: t) = if isIrlumeLine (trimCrs l) then withoutIrlumeLines t
      else l ++ '\n' :: withoutIrlumeLines t := by
  rw [withoutIrlumeLines, splitInclusive_newline h, List.filter_cons, withoutIrlumeLines]
  cases hl : isIrlumeLine (trimCrs l) <;> simp [hl]

theorem withoutIrlumeLines_last (h : '\n' ∉ l) :
    withoutIrlumeLines l = if isIrlumeLine (trimCrs l) then [] else l := by
  have hlast : l.getLast? ≠ some '\n' := fun heq => h (List.mem_of_getLast? heq)
  rw [withoutIrlumeLines, splitInclusive_last h]
  by_cases hnil : l = []
  · subst hnil
    simp
  · cases hl : isIrlumeLine (trimCrs l) <;> simp [hnil, hlast, hl]

theorem otherLines_withoutIrlumeLines (t : Text) :
    otherLines (withoutIrlumeLines t) = otherLines t := by
  induction t using line_induction with
  | last l h =>
    rw [withoutIrlumeLines_last h]
    cases hl : isIrlumeLine (trimCrs l) with
    | false => rfl
    | true =>
      have hne : l ≠ [] := by
        intro hnil
        rw [hnil] at hl
        exact absurd hl (by decide)
      simp [otherLines, trimmedLines, lines_last h, hne, hl, lines_last]
  | line l t h ih =>
    rw [withoutIrlumeLines_newline h, otherLines_newline h]
    cases hl : isIrlumeLine (trimCrs l) with
    | false => simp [otherLines_newline h, hl, ih]
    | true => simp [ih]

/-! ## Adjusted jumps -/

def Adjusted (l l' : Text) : Prop := l' = l ∨ ∃ edits, withJumpValues l edits = some l'

theorem Rewritten.newline {pre kind control control' post line line' : Text}
    (h : Rewritten pre kind control control' post line line') (hline : '\n' ∉ line) :
    '\n' ∉ line' := by
  rw [h.before, around] at hline
  rw [h.after, around]
  intro hmem
  apply hline
  simp only [List.mem_append, List.mem_cons] at hmem ⊢
  rcases hmem with hmem | hmem | hmem | hmem
  · exact .inl hmem
  · exact .inr (.inl hmem)
  · right; right; left
    have hin : '\n' ∈ control'.filter (!Char.isDigit ·) := List.mem_filter.2 ⟨hmem, by decide⟩
    rw [h.digits] at hin
    exact (List.mem_filter.1 hin).1
  · exact .inr (.inr (.inr hmem))

theorem Adjusted.trimmed {l l' : Text} (h : Adjusted l l') :
    SameButJumps (trimCrs l) (trimCrs l') ∧
      isIrlumeLine (trimCrs l') = isIrlumeLine (trimCrs l) ∧ ('\n' ∉ l → '\n' ∉ l') := by
  rcases h with rfl | ⟨edits, h⟩
  · exact ⟨sameButJumps_refl _, rfl, id⟩
  · rcases withJumpValues_rewritten h with rfl | ⟨pre, kind, control, control', post, heq, hrw⟩
    · exact ⟨sameButJumps_refl _, rfl, id⟩
    · exact ⟨hrw.trimCrs.sameButJumps, hrw.trimCrs.isIrlumeLine heq, hrw.newline⟩

theorem forall₂_set {as bs : List Text} {i : Nat} {a b : Text}
    (h : List.Forall₂ R as bs) (ha : as[i]? = some a) (hab : R a b) :
    List.Forall₂ R as (bs.set i b) := by
  induction h generalizing i with
  | nil => cases ha
  | cons hr htail ih =>
    cases i with
    | zero =>
      obtain rfl : _ = a := Option.some.inj ha
      exact .cons hab htail
    | succ i => exact .cons hr (ih ha)

theorem writeSteps_adjusted {a : List Text} {steps : List Step} {changed : List Nat}
    {out out' : List Text} (h : writeSteps a steps changed out = .ok out')
    (hout : List.Forall₂ Adjusted a out) : List.Forall₂ Adjusted a out' := by
  induction changed generalizing out with
  | nil =>
    cases h
    exact hout
  | cons line rest ih =>
    simp only [writeSteps] at h
    split at h
    · cases h
    · split at h
      · exact ih h hout
      · split at h
        · cases h
        · next new hnew =>
          apply ih h
          cases hline : a[line]? with
          | none =>
            -- There is no such line, and an empty line has no jump.
            rw [hline] at hnew
            cases hnew
          | some l =>
            rw [hline] at hnew
            exact forall₂_set hout hline (.inr ⟨_, hnew⟩)

theorem ok_of_ite {ε α : Type} {c : Prop} [Decidable c] {e : ε} {x y : α}
    (h : (if c then Except.ok x else Except.error e) = Except.ok y) : c ∧ x = y := by
  split at h
  · next hc => exact ⟨hc, Except.ok.inj h⟩
  · cases h

/-- The lines of which irlume gives the jumps back to where the vendor copy has them. -/
def restoredBy (after : Text) (way : Way) (source : Source) : List (Phase × Text × Nat) :=
  match way with
  | .add => []
  | .remove => asTheVendorHasThem after source.vendor

structure AdjustPassed (reader : StackReader) (before after : Text) (way : Way) (source : Source)
    (pairing : Pairing) (steps : List Step) (out : List Text) : Prop where
  pair : pair (lines before) (lines after) way = .ok pairing
  counted : (phases.mapM (stepsOf (lines before) (lines after) pairing way
    (restoredBy after way source))).map List.flatten = .ok steps
  write : writeSteps (lines after) steps ((steps.map (·.line)).insertionSort (· ≤ ·)).dedup
    (lines after) = .ok out
  checks : checksOut reader before after (unlines out) way steps (restoredBy after way source)
    source = true

variable {reader : StackReader} {source : Source}

theorem adjust_passed {before after text : Text} {way : Way}
    (h : adjust reader before after way source = .ok text) :
    ∃ pairing steps out, AdjustPassed reader before after way source pairing steps out ∧
      text = unlines out := by
  unfold adjust at h
  split at h
  · cases h
  split at h
  · cases h
  split at h
  · cases h
  split at h
  · cases h
  simp only at h
  split at h
  · cases h
  split at h
  · cases h
  next pairing hpair =>
  split at h
  · cases h
  split at h
  · cases h
  split at h
  · cases h
  next steps hsteps =>
  split at h
  · cases h
  next out hwrite =>
  split at h
  · cases h
  obtain ⟨hchecks, rfl⟩ := ok_of_ite h
  exact ⟨pairing, steps, out, ⟨hpair, hsteps, hwrite, hchecks⟩, rfl⟩

theorem AdjustPassed.adjusted {before after : Text} {way : Way} {pairing : Pairing}
    {steps : List Step} {out : List Text}
    (h : AdjustPassed reader before after way source pairing steps out) :
    List.Forall₂ Adjusted (lines after) out := by
  apply writeSteps_adjusted h.write
  rw [List.forall₂_same]
  intro l _
  exact .inl rfl

theorem forall₂_filter_adjusted (h : List.Forall₂ Adjusted ls out) :
    List.Forall₂ SameButJumps ((ls.map trimCrs).filter (!isIrlumeLine ·))
      ((out.map trimCrs).filter (!isIrlumeLine ·)) := by
  induction h with
  | nil => exact .nil
  | cons hl _ ih =>
    obtain ⟨hsame, hirlume, -⟩ := hl.trimmed
    rw [List.map_cons, List.map_cons, List.filter_cons, List.filter_cons, hirlume]
    split
    · exact .cons hsame ih
    · exact ih

theorem forall₂_newline (h : List.Forall₂ Adjusted ls out)
    (hls : ∀ l ∈ ls, '\n' ∉ l) : ∀ l ∈ out, '\n' ∉ l := by
  induction h with
  | nil => simp
  | cons hl _ ih =>
    intro x hx
    rcases List.mem_cons.1 hx with rfl | hx
    · exact hl.trimmed.2.2 (hls _ List.mem_cons_self)
    · exact ih (fun m hm => hls m (List.mem_cons_of_mem _ hm)) x hx

theorem adjust_keepsLines {before after text : Text} {way : Way}
    (h : adjust reader before after way source = .ok text) :
    KeepsLines SameButJumps (otherLines after) (otherLines text) := by
  obtain ⟨pairing, steps, out, hpassed, rfl⟩ := adjust_passed h
  have hall := hpassed.adjusted
  by_cases hnil : out = []
  · subst hnil
    right
    rw [List.forall₂_nil_right_iff] at hall
    rw [otherLines, trimmedLines, hall]
    exact ⟨rfl, otherLines_unlines_nil⟩
  · left
    rw [otherLines_unlines hnil (forall₂_newline hall fun _ => not_mem_of_mem_lines)]
    exact forall₂_filter_adjusted hall

end Irlume.Pam

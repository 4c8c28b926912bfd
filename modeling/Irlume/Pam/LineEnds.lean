import Irlume.Pam.JumpValues
import Irlume.Pam.Unwire

/-!
# Carriage returns at the end of a line

Reading takes one carriage return off the end of a line, and the reading of an override takes them all. A
carriage return is no part of what the names and tags of irlume's lines are made of. But `pam_irlume.so` with a
carriage return is the name of another module, so a line may become one of irlume's when it is read again.
-/

namespace Irlume.Pam

open Irlume.Lib

/-! ## Fields -/

theorem bracketed_concat {t : Text} {c : Char} (hc : c ≠ ']') :
    bracketed (t ++ [c]) =
      if (bracketed t).2 = [] then (t ++ [c], []) else ((bracketed t).1, (bracketed t).2 ++ [c]) := by
  rcases bracketed_rest t with hopen | ⟨r, hclosed⟩
  · rw [if_pos hopen]
    have happend := bracketed_append (t ++ [c])
    rcases bracketed_rest (t ++ [c]) with hnil | ⟨r, hr⟩
    · rw [hnil, List.append_nil] at happend
      exact Prod.ext happend hnil
    · -- A bracket that closes the longer text closes this one, for it is not the last character.
      rw [hr] at happend
      rcases List.eq_nil_or_concat r with rfl | ⟨r', d, rfl⟩
      · obtain ⟨-, hlast⟩ := List.append_inj' happend rfl
        exact absurd (List.singleton_inj.1 hlast).symm hc
      · have hcut : (bracketed (t ++ [c])).1 ++ ']' :: r' = t := by
          rw [List.concat_eq_append, ← List.cons_append, ← List.append_assoc] at happend
          exact (List.append_inj' happend rfl).1
        have hclosed := bracketed_closed hr r'
        rw [hcut] at hclosed
        rw [hclosed] at hopen
        cases hopen
  · have happend := bracketed_append t
    rw [hclosed] at happend
    rw [if_neg (by rw [hclosed]; exact List.cons_ne_nil _ _), hclosed]
    conv_lhs => rw [← happend, List.append_assoc, List.cons_append]
    exact bracketed_closed hclosed (r ++ [c])

section Concat

variable {t b f a rest : Text} {c : Char}

/-- A last character that closes no bracket is after the field, or its last when nothing is. -/
theorem Span.concat (h : Span b f a) (hc : c ≠ ']') :
    (Span b f (a ++ [c]) ∧ afterSpan b (a ++ [c]) = afterSpan b a ++ [c]) ∨
      (a = [] ∧ Span b (f ++ [c]) []) := by
  cases h with
  | word blank ne opens chars stop =>
    rw [afterSpan_blank blank, afterSpan_blank blank]
    cases a with
    | cons d a => exact .inl ⟨.word blank ne opens chars stop, rfl⟩
    | nil =>
      cases hdelim : isFieldDelimiter c with
      | true => exact .inl ⟨.word blank ne opens chars (by simp [hdelim]), rfl⟩
      | false =>
        refine .inr ⟨rfl, .word blank (by simp) ?_ ?_ (by simp)⟩
        · rwa [List.head?_append_of_ne_nil _ ne]
        · intro d hd
          rcases List.mem_append.1 hd with hd | hd
          · exact chars d hd
          · rwa [List.mem_singleton.1 hd]
  | bracket blank closed =>
    rw [afterSpan_bracket, afterSpan_bracket]
    have hrest := bracketed_rest (f ++ a)
    rw [closed] at hrest
    rcases hrest with rfl | ⟨r, rfl⟩
    · right
      rw [List.append_nil] at closed
      refine ⟨rfl, .bracket blank ?_⟩
      rw [List.append_nil, bracketed_concat hc, closed, if_pos rfl]
    · left
      have hclosed := bracketed_closed (congrArg Prod.snd closed) (r ++ [c])
      rw [closed] at hclosed
      exact ⟨.bracket blank hclosed, rfl⟩

theorem fieldSpan_concat (h : fieldSpan t = some (b, f, a)) (hc : c ≠ ']') :
    (fieldSpan (t ++ [c]) = some (b, f, a ++ [c]) ∧ afterSpan b (a ++ [c]) = afterSpan b a ++ [c]) ∨
      (a = [] ∧ fieldSpan (t ++ [c]) = some (b, f ++ [c], [])) := by
  obtain ⟨hspan, rfl⟩ := fieldSpan_iff.1 h
  rcases hspan.concat hc with ⟨hline, hafter⟩ | ⟨rfl, hline⟩
  · exact .inl ⟨fieldSpan_iff.2 ⟨hline, by simp⟩, hafter⟩
  · exact .inr ⟨rfl, fieldSpan_iff.2 ⟨hline, by simp⟩⟩

theorem nextField_concat (h : nextField t = some (f, rest)) (hc : c ≠ ']') :
    nextField (t ++ [c]) = some (f, rest ++ [c]) ∨
      (rest = [] ∧ nextField (t ++ [c]) = some (f ++ [c], [])) := by
  rw [nextField_eq_fieldSpan] at h ⊢
  obtain ⟨⟨b, f, a⟩, hspan, heq⟩ := Option.map_eq_some_iff.1 h
  cases heq
  rcases fieldSpan_concat hspan hc with ⟨hline, hafter⟩ | ⟨rfl, hline⟩
  · left
    rw [hline, Option.map_some]
    simp only [hafter]
  · right
    rw [hline, Option.map_some]
    simp only [afterSpan_nil, and_self]

end Concat

theorem nextField_concat_cr {d f rest : Text} (h : nextField (d ++ ['\r']) = some (f, rest)) :
    (∃ rest', rest = rest' ++ ['\r'] ∧ nextField d = some (f, rest')) ∨
      (rest = [] ∧ f.getLast? = some '\r') := by
  cases hd : nextField d with
  | none =>
    -- The carriage return is then a word of its own.
    rw [nextField_eq_fieldSpan, Option.map_eq_none_iff, fieldSpan_eq_none] at hd
    have hword : Span d ['\r'] [] := .word hd (by simp) (by simp) (by simp [isFieldDelimiter]) (by simp)
    rw [← List.append_nil ['\r'], hword.nextField_eq, afterSpan_nil] at h
    cases h
    exact .inr ⟨rfl, rfl⟩
  | some field =>
    obtain ⟨f', rest'⟩ := field
    rcases nextField_concat hd (by decide : '\r' ≠ ']') with hline | ⟨rfl, hline⟩
    · rw [hline] at h
      cases h
      exact .inl ⟨rest', rfl, rfl⟩
    · rw [hline] at h
      cases h
      exact .inr ⟨rfl, List.getLast?_concat⟩

/-! ## Rules -/

theorem rule_of_fields {line kind rest₁ control rest₂ path rest : Text}
    (htype : nextField (directive line) = some (kind, rest₁))
    (hcontrol : nextField rest₁ = some (control, rest₂)) (hpath : nextField rest₂ = some (path, rest)) :
    (rule line).map (·.modulePath) =
      let phase := phases.find? fun p => eqIgnoreAsciiCase p.name ((afterStart kind "-").getD kind)
      if eqIgnoreAsciiCase ((afterStart kind "-").getD kind) "@include" then none
      else if phase.isNone || eqIgnoreAsciiCase control "include" || eqIgnoreAsciiCase control "substack"
      then none else some path := by
  have hfields : fields rest₂.length rest₂ = path :: fields (rest₂.length - 1) rest := by
    cases rest₂ with
    | nil => cases hpath
    | cons c rest₂ =>
      rw [List.length_cons, fields, hpath]
      rfl
  unfold rule head typeField
  rw [htype]
  simp only [Option.map_some, hcontrol, Option.getD_some]
  split
  · next hinclude =>
    split at hinclude
    · next h => rw [if_pos h]; rfl
    · cases hinclude
  · next h hhead =>
    split at hhead
    · cases hhead
    · next hkind =>
      obtain rfl := Option.some.inj hhead
      rw [if_neg hkind]
      simp only [Head.namesStack, Head.isInclude, Head.isSubstack, Head.fieldsAfterControl, hfields]
      cases phases.find? fun p => eqIgnoreAsciiCase p.name ((afterStart kind "-").getD kind) with
      | none => rfl
      | some phase =>
        cases eqIgnoreAsciiCase control "include" <;> cases eqIgnoreAsciiCase control "substack" <;> rfl

theorem fields_of_rule {line : Text} {r : Rule} (h : rule line = some r) :
    ∃ kind rest₁ control rest₂ rest, nextField (directive line) = some (kind, rest₁) ∧
      nextField rest₁ = some (control, rest₂) ∧ nextField rest₂ = some (r.modulePath, rest) := by
  unfold rule at h
  split at h
  · cases h
  next hd hhead =>
  split at h
  · cases h
  split at h
  · cases h
  next path args hfields =>
  obtain rfl := Option.some.inj h
  obtain ⟨rest, hpath⟩ : ∃ rest, nextField hd.rest = some (path, rest) := by
    unfold Head.fieldsAfterControl at hfields
    cases hrest : hd.rest with
    | nil =>
      rw [hrest] at hfields
      cases hfields
    | cons c rest₂ =>
      rw [hrest, List.length_cons, fields] at hfields
      cases hnext : nextField (c :: rest₂) with
      | none =>
        rw [hnext] at hfields
        cases hfields
      | some x =>
        obtain ⟨f, rest⟩ := x
        rw [hnext] at hfields
        obtain ⟨rfl, -⟩ := List.cons_eq_cons.1 hfields
        exact ⟨rest, rfl⟩
  unfold head typeField at hhead
  cases htype : nextField (directive line) with
  | none =>
    rw [htype] at hhead
    cases hhead
  | some x =>
    obtain ⟨kind, rest₁⟩ := x
    simp only [htype, Option.map_some] at hhead
    split at hhead
    · cases hhead
    obtain rfl := Option.some.inj hhead
    cases hcontrol : nextField rest₁ with
    | none =>
      simp only [hcontrol] at hpath
      cases hpath
    | some y =>
      obtain ⟨control, rest₂⟩ := y
      simp only [hcontrol] at hpath
      exact ⟨kind, rest₁, control, rest₂, rest, rfl, hcontrol, hpath⟩

theorem modulePath_concat_cr {m path : Text} (h : (rule (m ++ ['\r'])).map (·.modulePath) = some path)
    (hpath : path.getLast? ≠ some '\r') : (rule m).map (·.modulePath) = some path := by
  by_cases hhash : '#' ∈ m
  · rwa [rule_eq_of_directive (directive_append_of_mem hhash _)] at h
  obtain ⟨r, hr, rfl⟩ := Option.map_eq_some_iff.1 h
  obtain ⟨kind, rest₁, control, rest₂, rest, htype, hcontrol, hmodule⟩ := fields_of_rule hr
  rw [rule_of_fields htype hcontrol hmodule] at h
  rw [directive_concat_cr hhash] at htype
  -- Each of the three fields is followed by another or does not end in the carriage return.
  rcases nextField_concat_cr htype with ⟨rest₁', rfl, htype'⟩ | ⟨rfl, -⟩
  · rcases nextField_concat_cr hcontrol with ⟨rest₂', rfl, hcontrol'⟩ | ⟨rfl, -⟩
    · rcases nextField_concat_cr hmodule with ⟨rest', rfl, hmodule'⟩ | ⟨-, hlast⟩
      · rw [rule_of_fields htype' hcontrol' hmodule']
        exact h
      · exact absurd hlast hpath
    · cases hmodule
  · cases hcontrol

theorem ruleNamesModule_concat_cr {m modul : Text} (hmodul : modul.getLast? ≠ some '\r')
    (h : ruleNamesModule (m ++ ['\r']) modul = true) :
    ruleNamesModule m modul = true := by
  unfold ruleNamesModule at h ⊢
  rw [Option.any_eq_true] at h ⊢
  obtain ⟨r, hr, hname⟩ := h
  rw [decide_eq_true_eq] at hname
  have hlast : r.modulePath.getLast? ≠ some '\r' := by
    intro hlast
    obtain ⟨p, hp⟩ := List.getLast?_eq_some_iff.1 hlast
    rw [hp, moduleFileName, List.rtakeWhile_concat_pos _ _ _ (by decide)] at hname
    rw [← hname, List.getLast?_concat] at hmodul
    exact hmodul rfl
  obtain ⟨r', hr', hsame⟩ := Option.map_eq_some_iff.1 (modulePath_concat_cr (by rw [hr]; rfl) hlast)
  refine ⟨r', hr', ?_⟩
  rw [decide_eq_true_eq, hsame]
  exact hname

/-! ## irlume's lines -/

theorem isIrlumeLine_of_concat_cr {m : Text} (h : isIrlumeLine (m ++ ['\r']) = true) :
    isIrlumeLine m = true := by
  by_cases hnul : '\x00' ∈ m
  · have hsame : beforeNul (m ++ ['\r']) = beforeNul m :=
      takeWhile_append_of_mem (by decide) hnul _
    unfold isIrlumeLine at h ⊢
    rwa [hsame] at h
  · have hread : ∀ {l : Text}, '\x00' ∉ l → beforeNul l = l := by
      intro l hl
      rw [beforeNul, List.takeWhile_eq_self_iff]
      intro c hc
      rw [decide_eq_true_eq]
      rintro rfl
      exact hl hc
    have htags : '\r' ∉ landingTag ∧ '\r' ∉ inertTag ∧ '\r' ∉ keyringTag := by decide +kernel
    simp only [isIrlumeLine, hread hnul, hread (by simp [hnul] : '\x00' ∉ m ++ ['\r']),
      isSome_irlumeRule, contains_concat htags.1, contains_concat htags.2.1, contains_concat htags.2.2,
      Bool.or_eq_true, Bool.and_eq_true] at h ⊢
    rcases h with (h | ⟨h, htag⟩) | ⟨h, htag⟩
    · exact .inl (.inl (ruleNamesModule_concat_cr (by decide) h))
    · exact .inl (.inr ⟨ruleNamesModule_concat_cr (by decide) h, htag⟩)
    · exact .inr ⟨ruleNamesModule_concat_cr (by decide) h, htag⟩

/-- A line of irlume's stays one when it is read again. -/
theorem isIrlumeLine_stripped {l : Text} (h : isIrlumeLine l = true) :
    isIrlumeLine (stripCr l) = true := by
  rcases stripCr_cases l with heq | heq
  · rw [heq]
    exact h
  · rw [heq] at h
    exact isIrlumeLine_of_concat_cr h

theorem isIrlumeLine_trimmed {l : Text} (h : isIrlumeLine l = true) :
    isIrlumeLine (trimCrs l) = true := by
  induction l using List.reverseRecOn with
  | nil => exact h
  | append_singleton m c ih =>
    by_cases hc : c = '\r'
    · subst hc
      have hm := ih (isIrlumeLine_of_concat_cr h)
      rwa [trimCrs, List.rdropWhile_concat_pos _ _ _ (by decide)]
    · rw [trimCrs_of_not_cr (by simpa using hc)]
      exact h

end Irlume.Pam

import Irlume.Pam.Jumps

/-!
# Wiring is undone by unwiring

A recipe only puts lines of irlume's between the lines of a stack (`Woven`), and `unwire_lines` takes
exactly those out again. What is written is read back once more on the way, so a line that still ends
in a carriage return after the first reading, which can only be a comment, loses one more.
-/

namespace Irlume.Pam

open Irlume.Lib

/-! ## Lines of irlume's put into a stack -/

/-- A line of irlume's as it is written: one line, with an LF ending. -/
structure Stanza (l : Text) : Prop where
  irlume : isIrlumeLine l = true
  oneLine : '\n' ∉ l
  lf : l.getLast? ≠ some '\r'

/-- `out` is `ls` with lines of irlume's put in. -/
inductive Woven : List Text → List Text → Prop
  | nil : Woven [] []
  | keep (l : Text) {ls out : List Text} (h : Woven ls out) : Woven (l :: ls) (l :: out)
  | put {x : Text} {ls out : List Text} (hx : Stanza x) (h : Woven ls out) : Woven ls (x :: out)

namespace Woven

theorem puts {xs ls out : List Text} (hxs : ∀ x ∈ xs, Stanza x) (h : Woven ls out) :
    Woven ls (xs ++ out) := by
  induction xs with
  | nil => exact h
  | cons x xs ih =>
    exact .put (hxs x List.mem_cons_self) (ih fun y hy => hxs y (List.mem_cons_of_mem _ hy))

theorem append {ls ls' out out' : List Text} (h : Woven ls out) (h' : Woven ls' out') :
    Woven (ls ++ ls') (out ++ out') := by
  induction h with
  | nil => exact h'
  | keep l _ ih => exact .keep l ih
  | put hx _ ih => exact .put hx ih

theorem of_stanzas {xs : List Text} (hxs : ∀ x ∈ xs, Stanza x) : Woven [] xs := by
  have h := puts hxs .nil
  rwa [List.append_nil] at h

variable {ls out : List Text}

variable (h : Woven ls out)

include h

theorem ne_nil (hne : ls ≠ []) : out ≠ [] := by
  cases h with
  | nil => exact absurd rfl hne
  | keep => exact List.cons_ne_nil _ _
  | put => exact List.cons_ne_nil _ _

theorem oneLine (hls : ∀ l ∈ ls, '\n' ∉ l) :
    ∀ l ∈ out, '\n' ∉ l := by
  induction h with
  | nil => exact hls
  | keep l _ ih =>
    intro x hx
    rcases List.mem_cons.1 hx with rfl | hx
    · exact hls x List.mem_cons_self
    · exact ih (fun y hy => hls y (List.mem_cons_of_mem _ hy)) x hx
  | put hx _ ih =>
    intro y hy
    rcases List.mem_cons.1 hy with rfl | hy
    · exact hx.oneLine
    · exact ih hls y hy

/-- A reading that leaves irlume's lines as they are finds the other lines as it would without them. -/
theorem filter_read {read : Text → Text} (hread : ∀ x, Stanza x → read x = x) :
    (out.map read).filter (!isIrlumeLine ·) = (ls.map read).filter (!isIrlumeLine ·) := by
  induction h with
  | nil => rfl
  | keep l _ ih => simp only [List.map_cons, List.filter_cons, ih]
  | put hx _ ih => simp [hread _ hx, hx.irlume, ih]

theorem filter_stripCr (hls : ∀ l ∈ ls, isIrlumeLine (stripCr l) = false) :
    (out.map stripCr).filter (!isIrlumeLine ·) = ls.map stripCr := by
  rw [h.filter_read fun x hx => stripCr_of_not_cr hx.lf, List.filter_eq_self]
  intro x hx
  obtain ⟨l, hl, rfl⟩ := List.mem_map.1 hx
  rw [hls l hl, Bool.not_false]

end Woven

theorem woven_zipIdx {above below : Nat → Text → List Text}
    (habove : ∀ i l, ∀ x ∈ above i l, Stanza x) (hbelow : ∀ i l, ∀ x ∈ below i l, Stanza x)
    (ls : List Text) (k : Nat) :
    Woven ls ((ls.zipIdx k).flatMap fun (l, i) => above i l ++ l :: below i l) := by
  induction ls generalizing k with
  | nil => exact .nil
  | cons l ls ih =>
    rw [List.zipIdx_cons, List.flatMap_cons, List.append_assoc, List.cons_append]
    apply Woven.puts (habove k l)
    apply Woven.keep l
    exact Woven.puts (hbelow k l) (ih (k + 1))

theorem weave_woven {above below : Nat → Text → List Text} {tail : List Text}
    (habove : ∀ i l, ∀ x ∈ above i l, Stanza x) (hbelow : ∀ i l, ∀ x ∈ below i l, Stanza x)
    (htail : ∀ x ∈ tail, Stanza x) (ls : List Text) : Woven ls (weave ls above below tail) := by
  have h := (woven_zipIdx habove hbelow ls 0).append (.of_stanzas htail)
  rwa [List.append_nil] at h

/-! ## The stanzas -/

/-- The three things to check about a line irlume writes, evaluated together. -/
def stanzaOk (l : Text) : Bool := isIrlumeLine l && decide ('\n' ∉ l) && l.getLast? ≠ some '\r'

theorem Stanza.of_ok {l : Text} (h : stanzaOk l = true) : Stanza l := by
  simp only [stanzaOk, Bool.and_eq_true, decide_eq_true_eq] at h
  exact ⟨h.1.1, h.1.2, h.2⟩

def stanzas : List Text :=
  [includeGreeterLine "ondemand" true, includeGreeterLine "ondemand" false,
    includeGreeterLine "facefirst" true, includeGreeterLine "facefirst" false,
    greeterUnsealFacefirstJump, greeterUnsealCosmicJump, permitLanding, resealAuth, keyringUnseal,
    fpGkrAuth, fpGkrSession, resealSession, verifyStanza, polkitVerifyStanza]

theorem stanza_of_mem_stanzas {l : Text} (h : l ∈ stanzas) : Stanza l := by
  have hall : stanzas.all stanzaOk = true := by
    unfold stanzas includeGreeterLine greeterUnsealFacefirstJump greeterUnsealCosmicJump
      permitLanding resealAuth keyringUnseal fpGkrAuth fpGkrSession resealSession verifyStanza
      polkitVerifyStanza
    repeat rw [String.toList_ofList]
    decide +kernel
  exact .of_ok (List.all_eq_true.1 hall l h)

theorem stanza_includeGreeterLine (ondemand kr : Bool) :
    Stanza (includeGreeterLine (if ondemand then "ondemand" else "facefirst") kr) := by
  apply stanza_of_mem_stanzas
  cases ondemand <;> cases kr <;> simp [stanzas]

theorem stanza_greeterUnsealFacefirstJump : Stanza greeterUnsealFacefirstJump :=
  stanza_of_mem_stanzas (by simp [stanzas])

theorem stanza_greeterUnsealCosmicJump : Stanza greeterUnsealCosmicJump :=
  stanza_of_mem_stanzas (by simp [stanzas])

theorem stanza_permitLanding : Stanza permitLanding := stanza_of_mem_stanzas (by simp [stanzas])

theorem stanza_resealAuth : Stanza resealAuth := stanza_of_mem_stanzas (by simp [stanzas])

theorem stanza_keyringUnseal : Stanza keyringUnseal := stanza_of_mem_stanzas (by simp [stanzas])

theorem stanza_fpGkrAuth : Stanza fpGkrAuth := stanza_of_mem_stanzas (by simp [stanzas])

theorem stanza_fpGkrSession : Stanza fpGkrSession := stanza_of_mem_stanzas (by simp [stanzas])

theorem stanza_resealSession : Stanza resealSession := stanza_of_mem_stanzas (by simp [stanzas])

theorem stanza_verifyStanza : Stanza verifyStanza := stanza_of_mem_stanzas (by simp [stanzas])

theorem stanza_polkitVerifyStanza : Stanza polkitVerifyStanza :=
  stanza_of_mem_stanzas (by simp [stanzas])

/-! ## Carriage returns are in comments -/

def Readable (content : Text) : Prop := ∀ piece ∈ content.splitOn '\n', unread piece = none

variable {content : Text}

theorem readable_of_checks (hc : hasLineContinuation content = false)
    (hu : (unreadableLine content).isSome = false) : Readable content := by
  intro piece hpiece
  rw [unreadableLine, hc, if_neg Bool.false_ne_true, Option.isSome_eq_false_iff,
    Option.isNone_iff_eq_none, List.findSome?_eq_none_iff] at hu
  obtain ⟨i, hi⟩ := List.mem_iff_getElem?.1 hpiece
  simpa using hu (piece, i) (List.mk_mem_zipIdx_iff_getElem?.2 hi)

variable {m : Text}

theorem directive_append_of_mem (h : '#' ∈ m) (r : Text) :
    directive (m ++ r) = directive m := by
  have hblank : (fun c : Char => decide (c = ' ') || decide (c = '\t')) '#' = false := by decide
  have hstop : (fun c : Char => decide (c ≠ '#')) '#' = false := by decide
  unfold directive
  rw [dropWhile_append_of_mem hblank h, takeWhile_append_of_mem hstop (mem_dropWhile_of_mem hblank h)]

theorem directive_concat_cr (h : '#' ∉ m) :
    directive (m ++ ['\r']) = directive m ++ ['\r'] := by
  have hcomment : ∀ c ∈ m.dropWhile (fun c => c = ' ' || c = '\t') ++ ['\r'],
      decide (c ≠ '#') = true := by
    intro c hc
    rw [decide_eq_true_eq]
    rintro rfl
    rcases List.mem_append.1 hc with hc | hc
    · exact h ((List.dropWhile_suffix _).subset hc)
    · exact absurd (List.mem_singleton.1 hc) (by decide)
  have hdrop : (m ++ ['\r']).dropWhile (fun c => c = ' ' || c = '\t') =
      m.dropWhile (fun c => c = ' ' || c = '\t') ++ ['\r'] := by
    rw [List.dropWhile_append]
    split
    · next hempty =>
      rw [List.isEmpty_iff.1 hempty]
      decide
    · rfl
  unfold directive
  rw [hdrop, List.takeWhile_eq_self_iff.2 hcomment, List.takeWhile_eq_self_iff.2]
  intro c hc
  exact hcomment c (List.mem_append_left _ hc)

theorem hash_mem_of_unread_concat_cr (h : unread (m ++ ['\r']) = none) : '#' ∈ m := by
  by_contra hm
  have hd := directive_concat_cr hm
  generalize directive m = d at hd
  have hshort : (trimCrs (d ++ ['\r'])).length < (d ++ ['\r']).length := by
    have htrim : trimCrs (d ++ ['\r']) = trimCrs d := List.rdropWhile_concat_pos _ _ _ rfl
    have hle : (trimCrs d).length ≤ d.length := (List.rdropWhile_prefix _ _).length_le
    rw [htrim, List.length_append, List.length_singleton]
    omega
  have hnul : '\x00' ∉ m ++ ['\r'] := by
    intro hmem
    rw [unread, if_pos hmem] at h
    cases h
  rw [unread, if_neg hnul, hd] at h
  cases hblanks : fieldBlanks (trimCrs (d ++ ['\r'])) true with
  | cons c cs => simp only [hblanks, reduceCtorEq] at h
  | nil => simp only [hblanks, if_pos hshort, reduceCtorEq] at h

theorem nul_not_mem_of_unread (h : unread m = none) : '\x00' ∉ m := by
  intro hm
  rw [unread, if_pos hm] at h
  cases h

theorem contains_concat {m pattern : Text} {c : Char} (h : c ∉ pattern) :
    contains (m ++ [c]) pattern = contains m pattern := by
  unfold contains
  congr 1
  apply propext
  rw [List.infix_concat_iff]
  constructor
  · intro hor
    rcases hor with hsuffix | hinfix
    · rcases List.suffix_concat_iff.1 hsuffix with rfl | ⟨q, rfl, -⟩
      · exact List.nil_infix
      · exact absurd (List.mem_append_right _ (List.mem_singleton_self c)) h
    · exact hinfix
  · exact .inr

theorem rule_eq_of_directive {l m : Text} (h : directive l = directive m) : rule l = rule m := by
  simp only [rule, head, h]

theorem isIrlumeLine_concat_cr (hhash : '#' ∈ m) (hnul : '\x00' ∉ m) :
    isIrlumeLine (m ++ ['\r']) = isIrlumeLine m := by
  have hread : ∀ {l : Text}, '\x00' ∉ l → beforeNul l = l := by
    intro l hl
    unfold beforeNul
    rw [List.takeWhile_eq_self_iff]
    intro c hc
    rw [decide_eq_true_eq]
    rintro rfl
    exact hl hc
  have hnul' : '\x00' ∉ m ++ ['\r'] := by simp [hnul]
  have hrule := rule_eq_of_directive (directive_append_of_mem hhash ['\r'])
  simp only [isIrlumeLine, hread hnul, hread hnul', irlumeRule, ruleNamesModule, hrule]
  have htags : '\r' ∉ landingTag ∧ '\r' ∉ inertTag ∧ '\r' ∉ keyringTag := by decide +kernel
  rw [contains_concat htags.1, contains_concat htags.2.1, contains_concat htags.2.2]

theorem isIrlumeLine_stripCr {content l : Text} (h : Readable content) (hl : l ∈ lines content)
    (hown : isIrlumeLine l = false) : isIrlumeLine (stripCr l) = false := by
  rcases stripCr_cases l with heq | heq
  · rw [heq]
    exact hown
  · have hcomment : '#' ∈ stripCr l ∧ '\x00' ∉ stripCr l := by
      rcases mem_lines hl with hpiece | hpiece
      · have hread := h l hpiece
        have hnul := nul_not_mem_of_unread hread
        rw [heq] at hread
        exact ⟨hash_mem_of_unread_concat_cr hread, fun hm => hnul (stripCr_subset l hm)⟩
      · have hread := h _ hpiece
        have hnul := nul_not_mem_of_unread hread
        have hhash := hash_mem_of_unread_concat_cr hread
        rw [heq] at hhash
        rcases List.mem_append.1 hhash with hhash | hhash
        · exact ⟨hhash, fun hm => hnul (List.mem_append_left _ (stripCr_subset l hm))⟩
        · exact absurd (List.mem_singleton.1 hhash) (by decide)
    rw [heq, isIrlumeLine_concat_cr hcomment.1 hcomment.2] at hown
    exact hown

/-! ## What a recipe does -/

/-- A recipe leaves the text as it is, or writes the lines of a readable one with lines of irlume's
put in. -/
def WiresOnly (content : Text) (answer : Text × Bool) : Prop :=
  answer = (content, false) ∨
    ∃ out, answer = (unlines out, true) ∧ Woven (lines content) out ∧ lines content ≠ [] ∧
      Readable content

section Wires

variable {reader : StackReader} {content : Text}

theorem Readable.of_not_refused (h : refuses reader content = false) : Readable content := by
  simp only [refuses, Bool.or_eq_false_iff] at h
  exact readable_of_checks h.1.1.1 h.1.1.2

theorem ne_nil_of_findIdx? {ls : List Text} {p : Text → Bool} {i : Nat}
    (h : ls.findIdx? p = some i) : ls ≠ [] := by
  intro hnil
  rw [hnil] at h
  cases h

theorem forall_mem_ite {c : Prop} [Decidable c] {xs ys : List Text}
    (hxs : ∀ x ∈ xs, Stanza x) (hys : ∀ y ∈ ys, Stanza y) :
    ∀ x ∈ (if c then xs else ys), Stanza x := by
  split
  · exact hxs
  · exact hys

theorem stanza_singleton {x : Text} (h : Stanza x) : ∀ y ∈ [x], Stanza y := by
  intro y hy
  exact List.mem_singleton.1 hy ▸ h

theorem stanza_append {xs ys : List Text} (hxs : ∀ x ∈ xs, Stanza x) (hys : ∀ y ∈ ys, Stanza y) :
    ∀ x ∈ xs ++ ys, Stanza x := by
  intro x hx
  rcases List.mem_append.1 hx with hx | hx
  · exact hxs x hx
  · exact hys x hx

theorem stanza_nil : ∀ x ∈ ([] : List Text), Stanza x := nofun

theorem Woven.withSession {ls out : List Text} (h : Woven ls out) :
    Woven ls (if resealSession ∈ out then out else out ++ [resealSession]) := by
  split
  · exact h
  · have htail := h.append (.of_stanzas (stanza_singleton stanza_resealSession))
    rwa [List.append_nil] at htail

theorem withStanzaAt_wiresOnly {stanza : Text} (hs : Stanza stanza) (place : Nat)
    (hne : lines content ≠ []) (hread : Readable content) :
    WiresOnly content (withStanzaAt (lines content) stanza place, true) := by
  refine .inr ⟨_, rfl, ?_, hne, hread⟩
  apply weave_woven
  · intro i l
    exact forall_mem_ite (stanza_singleton hs) stanza_nil
  · exact fun _ _ => stanza_nil
  · exact stanza_nil

theorem insertVerifyStanza_wiresOnly {stanza : Text} (hs : Stanza stanza)
    (hread : Readable content) : WiresOnly content (insertVerifyStanza reader content stanza) := by
  unfold insertVerifyStanza
  dsimp only
  split
  · exact .inl rfl
  · next first hfirst => exact withStanzaAt_wiresOnly hs _ (ne_nil_of_findIdx? hfirst) hread

theorem wireGreeterImpl_wiresOnly (face keyring ondemand : Bool) :
    WiresOnly content (wireGreeterImpl reader content face keyring ondemand) := by
  unfold wireGreeterImpl
  split
  · exact .inl rfl
  · next hrefuse =>
    have hread := Readable.of_not_refused (Bool.not_eq_true _ ▸ hrefuse)
    have hkeyring : ∀ x ∈ (if keyring then [keyringUnseal] else []), Stanza x :=
      forall_mem_ite (stanza_singleton stanza_keyringUnseal) stanza_nil
    dsimp only
    split
    · next incAt hinc =>
      have hface : ∀ x ∈ (if face then
          [includeGreeterLine (if ondemand then "ondemand" else "facefirst") true] else []), Stanza x :=
        forall_mem_ite (stanza_singleton (stanza_includeGreeterLine ondemand true)) stanza_nil
      have hwoven := weave_woven
        (fun i _ => forall_mem_ite (c := i = incAt) hface stanza_nil)
        (fun i l => forall_mem_ite (c := i = incAt)
          (stanza_append hkeyring (stanza_singleton stanza_resealAuth))
          (forall_mem_ite (c := isSessionInclude l = true) (stanza_singleton stanza_resealSession)
            stanza_nil))
        stanza_nil (lines content)
      exact .inr ⟨_, rfl, hwoven.withSession, ne_nil_of_findIdx? hinc, hread⟩
    · split
      · exact .inl rfl
      · next authAt hauth =>
        have hne : lines content ≠ [] := by
          intro hnil
          rw [hnil] at hauth
          cases hauth
        refine .inr ⟨_, rfl, ?_, hne, hread⟩
        apply weave_woven
        · intro i l
          apply forall_mem_ite _ stanza_nil
          apply forall_mem_ite _ stanza_nil
          apply stanza_singleton
          split
          · exact stanza_greeterUnsealCosmicJump
          · exact stanza_greeterUnsealFacefirstJump
        · intro i l
          apply forall_mem_ite
          · exact stanza_append (stanza_append
              (forall_mem_ite (stanza_singleton stanza_permitLanding) stanza_nil) hkeyring)
              (stanza_singleton stanza_resealAuth)
          · exact forall_mem_ite (stanza_singleton stanza_resealSession) stanza_nil
        · exact forall_mem_ite (stanza_singleton stanza_resealSession) stanza_nil

theorem wireLock_wiresOnly : WiresOnly content (wireLock reader content) := by
  unfold wireLock
  split
  · exact .inl rfl
  · next hrefuse =>
    have hread := Readable.of_not_refused (Bool.not_eq_true _ ▸ hrefuse)
    dsimp only
    split
    · next incAt hinc =>
      refine .inr ⟨_, rfl, ?_, ne_nil_of_findIdx? hinc, hread⟩
      apply weave_woven
      · intro i l
        exact forall_mem_ite (stanza_singleton (stanza_includeGreeterLine true false)) stanza_nil
      · exact fun _ _ => stanza_nil
      · exact stanza_nil
    · split
      · exact .inl rfl
      · next authAt hauth =>
        have hne : lines content ≠ [] := by
          intro hnil
          rw [hnil] at hauth
          cases hauth
        refine .inr ⟨_, rfl, ?_, hne, hread⟩
        apply weave_woven
        · intro i l
          exact forall_mem_ite (stanza_singleton stanza_greeterUnsealCosmicJump) stanza_nil
        · intro i l
          exact forall_mem_ite (stanza_singleton stanza_permitLanding) stanza_nil
        · exact stanza_nil

theorem wireFpKeyring_wiresOnly (service : Text) :
    WiresOnly content (wireFpKeyring content service) := by
  unfold wireFpKeyring
  split
  · exact .inl rfl
  · next hchecks =>
    rw [Bool.not_eq_true, Bool.or_eq_false_iff] at hchecks
    have hread := readable_of_checks hchecks.1 hchecks.2
    split
    · exact .inl rfl
    · dsimp only
      split
      · exact .inl rfl
      · next fpAt hfp =>
        refine .inr ⟨_, rfl, ?_, ne_nil_of_findIdx? hfp, hread⟩
        apply weave_woven
        · exact fun _ _ => stanza_nil
        · intro i l
          apply forall_mem_ite _ stanza_nil
          exact stanza_append (stanza_singleton stanza_keyringUnseal)
            (forall_mem_ite stanza_nil (stanza_singleton stanza_fpGkrAuth))
        · apply stanza_append
          · exact forall_mem_ite stanza_nil (stanza_singleton stanza_fpGkrSession)
          · exact forall_mem_ite stanza_nil (stanza_singleton stanza_resealSession)

theorem wireOmarchyLock_wiresOnly : WiresOnly content (wireOmarchyLock reader content) := by
  unfold wireOmarchyLock
  split
  · exact .inl rfl
  · next hrefuse =>
    have hread := Readable.of_not_refused (Bool.not_eq_true _ ▸ hrefuse)
    dsimp only
    split
    · exact .inl rfl
    · next anchor hanchor =>
      exact withStanzaAt_wiresOnly stanza_polkitVerifyStanza anchor (ne_nil_of_findIdx? hanchor) hread

theorem Recipe.wire_wiresOnly (r : Recipe) : WiresOnly content (r.wire reader content) := by
  have hverify : ∀ {stanza : Text}, Stanza stanza →
      WiresOnly content (if refuses reader content then (content, false)
        else insertVerifyStanza reader content stanza) := by
    intro stanza hs
    split
    · exact .inl rfl
    · next hrefuse =>
      exact insertVerifyStanza_wiresOnly hs (Readable.of_not_refused (Bool.not_eq_true _ ▸ hrefuse))
  cases r with
  | greeter face keyring ondemand => exact wireGreeterImpl_wiresOnly face keyring ondemand
  | lock => exact wireLock_wiresOnly
  | verify => exact hverify stanza_verifyStanza
  | polkit => exact hverify stanza_polkitVerifyStanza
  | omarchyLock => exact wireOmarchyLock_wiresOnly
  | fpKeyring service => exact wireFpKeyring_wiresOnly service

end Wires

/-! ## Unwiring -/

theorem unwireLines_of_clean (h : ∀ l ∈ lines content, isIrlumeLine l = false) :
    (unwireLines content).1 = normalize content := by
  unfold unwireLines normalize
  rw [List.filter_eq_self.2]
  intro l hl
  rw [h l hl]
  rfl

theorem normalize_normalize (hne : lines content ≠ []) :
    normalize (normalize content) = unlines ((lines content).map stripCr) := by
  unfold normalize
  rw [lines_unlines hne fun _ => not_mem_of_mem_lines]

/-- For every recipe and settings, any reader and every stack without a line of irlume's: what the
recipe leaves alone is unchanged; and taking irlume's lines out of what it wrote gives the stack with
its line endings normalized, as reading twice normalizes them, which is once unless a line still ends
in a carriage return. -/
theorem unwire_wire (reader : StackReader) (r : Recipe) (content : Text)
    (hclean : ∀ l ∈ lines content, isIrlumeLine l = false) :
    ((r.wire reader content).2 = false →
        (r.wire reader content).1 = content ∧
          (unwireLines (r.wire reader content).1).1 = normalize content) ∧
      ((r.wire reader content).2 = true →
        (unwireLines (r.wire reader content).1).1 = normalize (normalize content)) ∧
      ((∀ l ∈ lines content, l.getLast? ≠ some '\r') →
        (unwireLines (r.wire reader content).1).1 = normalize content) := by
  have hwires : WiresOnly content (r.wire reader content) := r.wire_wiresOnly
  rcases hwires with hwire | ⟨out, hwire, hwoven, hne, hread⟩
  · have hsame := unwireLines_of_clean hclean
    rw [hwire]
    exact ⟨fun _ => ⟨rfl, hsame⟩, nofun, fun _ => hsame⟩
  · have hlines : lines (unlines out) = out.map stripCr :=
      lines_unlines (hwoven.ne_nil hne) (hwoven.oneLine fun _ => not_mem_of_mem_lines)
    have hback : (unwireLines (unlines out)).1 = unlines ((lines content).map stripCr) := by
      unfold unwireLines
      rw [hlines, hwoven.filter_stripCr fun l hl => isIrlumeLine_stripCr hread hl (hclean l hl)]
    rw [hwire]
    refine ⟨nofun, ?_, ?_⟩
    · intro _
      rw [hback, normalize_normalize hne]
    · intro hlf
      rw [hback, normalize, List.map_congr_left fun l hl => stripCr_of_not_cr (hlf l hl), List.map_id']

def debianGreeter : Text := "@include common-auth\n" ++ "@include common-session\n".toList

/-- Debian's greeter stack. -/
theorem unwire_wire_debianGreeter :
    ((Recipe.greeter true true false).wire none debianGreeter).2 = true ∧
      (unwireLines ((Recipe.greeter true true false).wire none debianGreeter).1).1 =
        normalize debianGreeter := by
  have hstack : ((Recipe.greeter true true false).wire none debianGreeter).2 = true ∧
      (∀ l ∈ lines debianGreeter, isIrlumeLine l = false) ∧
      ∀ l ∈ lines debianGreeter, l.getLast? ≠ some '\r' := by
    decide +kernel
  obtain ⟨hwired, hclean, hlf⟩ := hstack
  exact ⟨hwired, (unwire_wire none (.greeter true true false) debianGreeter hclean).2.2 hlf⟩

/-- A stack saved with CRLF endings twice, its rules since put right: the comment keeps a carriage
return through the first reading and loses it in the second. -/
def twiceCrlf : Text := "# sudo\r\r\n" ++ "auth required pam_unix.so\n".toList

/-- A comment that ends in a carriage return after one reading loses it. -/
theorem unwire_wire_twiceCrlf :
    (∀ l ∈ lines twiceCrlf, isIrlumeLine l = false) ∧
      (Recipe.verify.wire none twiceCrlf).2 = true ∧
      (unwireLines (Recipe.verify.wire none twiceCrlf).1).1 ≠ normalize twiceCrlf := by
  decide +kernel

end Irlume.Pam

import Irlume.Pam.LightdmLines
import Mathlib.Data.Bool.AllAny

/-!
# The stacks of a remote seat

What a published view is for: a service that is protected resolves inside the view, finds no biometric rule
there, and otherwise runs as it does on the host (`RemoteSafe`). `render` looks at a line with the newline that
ends it, and libpam without.
-/

namespace Irlume.Pam.Lightdm

open Irlume.Lib
open Relation (TransGen ReflTransGen)

/-! ## The session line -/

def sessionLine (policy : Policy) : Text :=
  "session [success=ignore default=die] ".toList ++ policy.sessionModule

/-- As `retain_session_module` names it. -/
def RetainedModule (path : Text) : Prop :=
  ∃ hash, isSha256Hex hash = true ∧
    path = "/run/irlume-lightdm/session-".toList ++ (hash ++ ".so".toList)

section SessionLine

variable {policy : Policy} {text : Text}

theorem RetainedModule.chars {path : Text} (h : RetainedModule path) :
    ∀ c ∈ path, c = '/' ∨ isNameChar c = true := by
  obtain ⟨hash, hhex, rfl⟩ := h
  intro c hc
  rcases List.mem_append.1 hc with hc | hc
  · exact List.all_iff_forall_prop.1
      (by decide +kernel : ("/run/irlume-lightdm/session-".toList.all fun c => c = '/' ∨ isNameChar c = true) = true)
      c hc
  rcases List.mem_append.1 hc with hc | hc
  · exact .inr (isNameChar_of_hex hhex c hc)
  · exact List.all_iff_forall_prop.1
      (by decide +kernel : (".so".toList.all fun c => c = '/' ∨ isNameChar c = true) = true) c hc

theorem sessionLine_chars (h : RetainedModule policy.sessionModule) :
    ∀ c ∈ sessionLine policy, c ≠ '\n' ∧ c ≠ '\x00' := by
  intro c hc
  rcases List.mem_append.1 hc with hc | hc
  · exact List.all_iff_forall_prop.1
      (by decide +kernel :
        ("session [success=ignore default=die] ".toList.all fun c => c ≠ '\n' ∧ c ≠ '\x00') = true) c hc
  · rcases h.chars c hc with rfl | hname
    · decide
    · obtain ⟨-, -, -, -, -, hnul, -, hnewline⟩ := ne_of_isNameChar hname
      exact ⟨hnewline, hnul⟩

theorem getLast?_so (start path hash : Text) :
    (start ++ (path ++ (hash ++ ".so".toList))).getLast? = some 'o' := by
  have hend : ".so".toList.getLast? = some 'o' := by decide +kernel
  rw [List.getLast?_append, List.getLast?_append, List.getLast?_append, hend]
  rfl

variable (h : RetainedModule policy.sessionModule)

include h

theorem libpamLines_rootText :
    libpamLines (rootText policy text) = sessionLine policy :: libpamLines text := by
  have hchars := sessionLine_chars h
  have hline : '\n' ∉ sessionLine policy := fun hmem => (hchars _ hmem).1 rfl
  have hnul : beforeNul (sessionLine policy) = sessionLine policy :=
    List.takeWhile_eq_self_iff.2 fun c hc => decide_eq_true (hchars c hc).2
  have hlast : (sessionLine policy).getLast? = some 'o' := by
    obtain ⟨hash, -, hpath⟩ := h
    have hso := getLast?_so "session [success=ignore default=die] ".toList
      "/run/irlume-lightdm/session-".toList hash
    rewrite [← hpath] at hso
    exact hso
  have hroot : rootText policy text = sessionLine policy ++ '\n' :: text := rfl
  rw [hroot, libpamLines, List.splitOn_append_cons_self_of_not_mem hline, joinLines,
    continues_of_getLast? hlast (by decide), if_neg Bool.false_ne_true, hnul]
  rfl

theorem head_sessionLine : ∃ hd,
    head (sessionLine policy) = some hd ∧ hd.phase = .session ∧ hd.knownType = true ∧
      hd.namesStack = false ∧ hd.returns .success = .ignore := by
  obtain ⟨hash, -, hpath⟩ := h
  have hplain : "success=ignore default=die".toList.all plain = true := by decide +kernel
  have hstart : "session [success=ignore default=die] ".toList =
      Phase.session.name ++ ' ' :: '[' :: ("success=ignore default=die".toList ++ [']', ' ']) := by
    decide +kernel
  have hline : '#' ∉ "session [success=ignore default=die] ".toList := by decide +kernel
  have hspace : "session [success=ignore default=die] ".toList.head? ≠ some ' ' := by decide +kernel
  have htab : "session [success=ignore default=die] ".toList.head? ≠ some '\t' := by decide +kernel
  have hne : "session [success=ignore default=die] ".toList ≠ [] := by decide +kernel
  have hhead : head (sessionLine policy) = some
      { phase := .session, control := "success=ignore default=die",
        rest := ' ' :: policy.sessionModule.takeWhile (· ≠ '#'), knownType := true } := by
    refine head_of_parts .session (List.all_eq_true.1 hplain) ?_
    refine (directive_start hline hspace htab hne policy.sessionModule).trans ?_
    rewrite [hstart, List.append_assoc, List.cons_append, List.cons_append, List.append_assoc]
    rfl
  have hthird : (nextField (' ' :: policy.sessionModule.takeWhile (· ≠ '#'))).isSome = true := by
    rw [hpath]
    rfl
  have hstack : (eqIgnoreAsciiCase "success=ignore default=die" "include" ||
      eqIgnoreAsciiCase "success=ignore default=die" "substack") = false := by decide +kernel
  have hsuccess : (controlActions "success=ignore default=die").map (· .success) = some .ignore := by
    decide +kernel
  obtain ⟨table, htable, hignore⟩ := Option.map_eq_some_iff.1 hsuccess
  refine ⟨_, hhead, rfl, rfl, hstack, ?_⟩
  rw [Head.returns, Head.thirdField, Option.isSome_map, hthird]
  rw [Bool.and_true, if_pos (by rfl), Head.table, htable, Option.getD_some, hignore]
  rfl

theorem includeTarget_sessionLine :
    includeTarget (sessionLine policy) = none := by
  obtain ⟨hd, hhead, -, -, hstack, -⟩ := head_sessionLine h
  exact includeTarget_of_head hhead hstack

theorem isBiometric_sessionLine :
    isBiometric (sessionLine policy) = false := by
  obtain ⟨hd, hhead, hphase, -⟩ := head_sessionLine h
  rw [Bool.eq_false_iff]
  intro hbio
  obtain ⟨r, hr, hauth⟩ := rule_of_isBiometric hbio
  obtain ⟨hd', hhead', -, -, -, hphase', -⟩ := head_of_rule hr
  cases hhead.symm.trans hhead'
  rw [hphase, hauth] at hphase'
  cases hphase'

end SessionLine

/-! ## What is reached in a view -/

/-- Each loaded stack has a name of its own for its copy. -/
structure NamesCopies (graph : Graph) (names : Text → Option Text) : Prop where
  has : ∀ t, graph.has t = true ↔ ∃ c, names t = some c
  safe : ∀ t c, names t = some c → SafeName c
  injective : ∀ t t' c, names t = some c → names t' = some c → t = t'

theorem namesCopies_copyNames {generation : Text} (hhex : isSha256Hex generation = true) (graph : Graph) :
    NamesCopies graph fun name => List.lookup name (copyNames generation graph) :=
  ⟨fun _ => ⟨copyName_of_has, fun ⟨_, h⟩ => has_of_copyName h⟩, fun _ _ h => copyName_safe hhex h,
    fun _ _ _ h h' => copyName_injective h h'⟩

def Reached (read : Text → Option Text) (services : List Text) (name : Text) : Prop :=
  ∃ s ∈ services, ReflTransGen (Follows read) s name

section Reach

variable {host : Host} {policy : Policy} {graph : Graph} {names : Text → Option Text} {view : View}

structure RenderedCopy (host : Host) (names : Text → Option Text) (permit : Text) (view : View)
    (name copy text text' : Text) : Prop where
  original : host.text name = some text
  copied : view.text host copy = some text'
  lines : RenderedLines names permit (text.splitOn '\n') (text'.splitOn '\n')
  whole : ∀ l ∈ text.splitOn '\n', ReadWhole l

theorem newline_not_mem_of_serviceName {name : Text} (h : serviceName name = true) : '\n' ∉ name := by
  unfold serviceName at h
  rw [Bool.and_eq_true, List.all_eq_true] at h
  intro hmem
  have hchar := h.2 _ hmem
  revert hchar
  decide

section

variable (h : Published host policy graph names view)

include h

variable (hn : NamesCopies graph names)

include hn

theorem Published.names_ok :
    ∀ t r, names t = some r → '\n' ∉ t ∧ SafeName r := by
  intro t r ht
  obtain ⟨l, hl, rfl⟩ := Graph.has_iff.1 ((hn.has t).2 ⟨r, ht⟩)
  exact ⟨newline_not_mem_of_serviceName (h.complete.named l hl), hn.safe _ _ ht⟩

theorem Published.rendered
    (hpermit : '\n' ∉ policy.permit) {name copy : Text} (hname : names name = some copy) :
    ∃ text text', RenderedCopy host names policy.permit view name copy text text' := by
  obtain ⟨l, hl, rfl⟩ := Graph.has_iff.1 ((hn.has name).2 ⟨copy, hname⟩)
  obtain ⟨copy', text', hcopy, hrender, htext'⟩ := h.copies l hl
  cases hname.symm.trans hcopy
  exact ⟨l.text, text', h.complete.text hl, htext', renderView_spec (h.names_ok hn) hpermit hrender,
    h.complete.whole l hl⟩

theorem Published.root
    (hpermit : '\n' ∉ policy.permit) {s : Text} (hs : s ∈ policy.services) :
    ∃ copy text text', names s = some copy ∧
      RenderedCopy host names policy.permit view s copy text text' ∧
        view.text host s = some (rootText policy text') := by
  obtain ⟨l, hl, rfl⟩ := Graph.has_iff.1 (h.services s hs)
  obtain ⟨copy, text', hcopy, hrender, htext'⟩ := h.copies l hl
  obtain ⟨text, hrender', hroot⟩ := h.roots l hl hs
  obtain rfl := Except.ok.inj (hrender.symm.trans hrender')
  exact ⟨copy, l.text, text', hcopy, ⟨h.complete.text hl, htext',
    renderView_spec (h.names_ok hn) hpermit hrender, h.complete.whole l hl⟩, hroot⟩

end

namespace RenderedCopy

variable {permit name copy text text' : Text}

theorem libpamLines_eq (h : RenderedCopy host names permit view name copy text text')
    (hsafe : ∀ t c, names t = some c → SafeName c) :
    libpamLines text' = (text'.splitOn '\n').map beforeNul := by
  refine joinLines_of_not_continues fun l' hl' => ?_
  obtain ⟨l, hl, read, -, hline⟩ := exists_left_of_forall₂ h.lines.forall₂.flip hl'
  exact hline.alone (h.whole l hl) hsafe

theorem target_iff (h : RenderedCopy host names permit view name copy text text')
    (hsafe : ∀ t c, names t = some c → SafeName c) {c : Text} :
    (∃ l ∈ libpamLines text', includeTarget l = some c) ↔
      ∃ t, Follows host.text name t ∧ names t = some c := by
  rw [h.libpamLines_eq hsafe]
  constructor
  · rintro ⟨l', hl', htarget⟩
    obtain ⟨piece', hpiece', rfl⟩ := List.mem_map.1 hl'
    obtain ⟨piece, hpiece, read, hread, hline⟩ := exists_left_of_forall₂ h.lines.forall₂.flip hpiece'
    rw [hline.target hread (h.whole piece hpiece) hsafe] at htarget
    obtain ⟨t, ht, hname⟩ := Option.bind_eq_some_iff.1 htarget
    exact ⟨t, ⟨text, h.original, beforeNul piece, (mem_libpamLines h.whole).2 ⟨piece, hpiece, rfl⟩, ht⟩,
      hname⟩
  · rintro ⟨t, ⟨text₀, htext₀, l, hl, ht⟩, hname⟩
    cases h.original.symm.trans htext₀
    obtain ⟨piece, hpiece, rfl⟩ := (mem_libpamLines h.whole).1 hl
    obtain ⟨piece', hpiece', read, hread, hline⟩ := exists_left_of_forall₂ h.lines.forall₂ hpiece
    refine ⟨beforeNul piece', List.mem_map_of_mem hpiece', ?_⟩
    rw [hline.target hread (h.whole piece hpiece) hsafe, ht, Option.bind_some, hname]

end RenderedCopy

variable (h : Published host policy graph names view)

include h

section

variable (hn : NamesCopies graph names)

include hn

variable (hpermit : '\n' ∉ policy.permit)

include hpermit

theorem Published.follows_copy {name copy c : Text}
    (hname : names name = some copy) :
    Follows (view.text host) copy c ↔ ∃ t, Follows host.text name t ∧ names t = some c := by
  obtain ⟨text, text', hcopy⟩ := h.rendered hn hpermit hname
  rw [← hcopy.target_iff hn.safe]
  constructor
  · rintro ⟨text₀, htext₀, hline⟩
    cases hcopy.copied.symm.trans htext₀
    exact hline
  · intro hline
    exact ⟨text', hcopy.copied, hline⟩

theorem Published.follows_root
    (hsession : RetainedModule policy.sessionModule) {s c : Text} (hs : s ∈ policy.services) :
    Follows (view.text host) s c ↔ ∃ t, Follows host.text s t ∧ names t = some c := by
  obtain ⟨copy, text, text', -, hcopy, hroot⟩ := h.root hn hpermit hs
  rw [← hcopy.target_iff hn.safe]
  constructor
  · rintro ⟨text₀, htext₀, l, hl, htarget⟩
    cases hroot.symm.trans htext₀
    rw [libpamLines_rootText hsession, List.mem_cons] at hl
    rcases hl with rfl | hl
    · rw [includeTarget_sessionLine hsession] at htarget
      cases htarget
    · exact ⟨l, hl, htarget⟩
  · rintro ⟨l, hl, htarget⟩
    refine ⟨_, hroot, l, ?_, htarget⟩
    rw [libpamLines_rootText hsession]
    exact List.mem_cons_of_mem _ hl

theorem Published.reaches (hsession : RetainedModule policy.sessionModule) {s c : Text}
    (hs : s ∈ policy.services) :
    TransGen (Follows (view.text host)) s c ↔ ∃ t, TransGen (Follows host.text) s t ∧ names t = some c := by
  constructor
  · intro hreach
    induction hreach with
    | single hfollows =>
      obtain ⟨t, ht, hname⟩ := (h.follows_root hn hpermit hsession hs).1 hfollows
      exact ⟨t, .single ht, hname⟩
    | tail _ hfollows ih =>
      obtain ⟨t, ht, hname⟩ := ih
      obtain ⟨t', ht', hname'⟩ := (h.follows_copy hn hpermit hname).1 hfollows
      exact ⟨t', .tail ht ht', hname'⟩
  · rintro ⟨t, ht, hname⟩
    induction ht generalizing c with
    | single hfollows => exact .single ((h.follows_root hn hpermit hsession hs).2 ⟨_, hfollows, hname⟩)
    | @tail b t' hreach hfollows ih =>
      have hhas : graph.has b = true := by
        clear ih hfollows hname
        induction hreach with
        | single hfollows => exact (h.complete.follows (h.services s hs) hfollows).1
        | tail _ hfollows ih => exact (h.complete.follows ih hfollows).1
      obtain ⟨copy, hcopy⟩ := (hn.has b).1 hhas
      exact .tail (ih hcopy) ((h.follows_copy hn hpermit hcopy).2 ⟨t', hfollows, hname⟩)

end

theorem Published.has_of_reached {name : Text}
    (hreach : Reached host.text policy.services name) : graph.has name = true := by
  obtain ⟨s, hs, hreach⟩ := hreach
  induction hreach with
  | refl => exact h.services s hs
  | tail _ hfollows ih => exact (h.complete.follows ih hfollows).1

theorem Published.acyclic (hn : NamesCopies graph names)
    (hpermit : '\n' ∉ policy.permit) {name copy : Text} (hname : names name = some copy) :
    ¬ TransGen (Follows (view.text host)) copy copy := by
  have hbelow : ∀ {c}, TransGen (Follows (view.text host)) copy c →
      ∃ t, names t = some c ∧ graph.rank t < graph.rank name := by
    intro c hreach
    induction hreach with
    | single hfollows =>
      obtain ⟨t, ht, hc⟩ := (h.follows_copy hn hpermit hname).1 hfollows
      exact ⟨t, hc, (h.complete.follows ((hn.has name).2 ⟨copy, hname⟩) ht).2⟩
    | tail _ hfollows ih =>
      obtain ⟨t, ht, hrank⟩ := ih
      obtain ⟨t', ht', hc⟩ := (h.follows_copy hn hpermit ht).1 hfollows
      exact ⟨t', hc, (h.complete.follows ((hn.has t).2 ⟨_, ht⟩) ht').2.trans hrank⟩
  intro hcycle
  obtain ⟨t, ht, hrank⟩ := hbelow hcycle
  obtain rfl := hn.injective _ _ _ ht hname
  exact absurd hrank (lt_irrefl _)

end Reach

/-! ## Safe for a remote login -/

/-- Each protected service resolves in the view to copies alone, with no biometric rule, and runs as it does
on the host with each biometric rule returning `PAM_IGNORE`. -/
structure RemoteSafe (host : Host) (policy : Policy) (copies : List (Text × Text)) (view : View) :
    Prop where
  bounded : copies.length ≤ maxFiles
  roots : ∀ s ∈ policy.services, ∃ copy text, (s, copy) ∈ copies ∧ view.text host copy = some text ∧
    view.text host s = some (rootText policy text)
  resolves : ∀ s ∈ policy.services, ∀ name, TransGen (Follows (view.text host)) s name →
    name ∈ copies.map Prod.snd ∧ (view.text host name).isSome = true ∧
      ¬ TransGen (Follows (view.text host)) name name
  noBiometric : ∀ name text, Reached (view.text host) policy.services name →
    view.text host name = some text → ∀ l ∈ libpamLines text, isBiometric l = false
  /-- Only biometric rules are replaced, and one for one. -/
  kept : ∀ name copy, Reached host.text policy.services name → (name, copy) ∈ copies →
    ∃ text text', host.text name = some text ∧ view.text host copy = some text' ∧
      (libpamLines text').length = (libpamLines text).length ∧
        ∀ (i : Nat) (l : Text), (libpamLines text)[i]? = some l → isBiometric l = false → includeTarget l = none →
          (libpamLines text')[i]? = some l
  runs : ∀ s ∈ policy.services, ∀ text text', host.text s = some text → view.text host s = some text' →
    ∀ {σ : Type} (rules : Rules ReturnValue Action σ) (phase : Phase) (limit : Nat)
      (results results' : Place → ReturnValue),
      (∀ p, (lineAt host.text text p).any isBiometric = true → results' p = .ignore) →
      (∀ p, (lineAt host.text text p).any isBiometric = false → results (viewPlace p) = results' p) →
      results [0] = .success →
      dispatch rules results (serviceRows (view.text host) phase limit text') =
        ((if phase = .session then [[0]] else []) ++
            (dispatch rules results' (serviceRows host.text phase limit text)).1.map viewPlace,
          (dispatch rules results' (serviceRows host.text phase limit text)).2)

/-- The stacks a view is made of have the same biometric rules with and without the newlines that end their
lines, and what stands in the place of one is none. -/
structure ReadAlike (host : Host) (policy : Policy) : Prop where
  newline : ∀ name text, Reached host.text policy.services name → host.text name = some text →
    ∀ l ∈ (text.splitOn '\n').dropLast, isBiometric (l ++ ['\n']) = isBiometric l
  permit : ∀ name text, Reached host.text policy.services name → host.text name = some text →
    (∃ l ∈ text.splitOn '\n', isBiometric l = true) → isBiometric (inactiveSlot policy.permit) = false

section Safe

variable {host : Host} {policy : Policy} {graph : Graph} {names : Text → Option Text} {view : View}

theorem inactiveSlot_whole {permit : Text} (hpermit : ∀ c ∈ permit, c ≠ '\n' ∧ c ≠ '\x00') :
    beforeNul (inactiveSlot permit) = inactiveSlot permit := by
  have hstart : '\x00' ∉ "auth [default=ignore] ".toList := by decide +kernel
  have hend : '\x00' ∉ " # irlume remote-seat inactive slot".toList := by decide +kernel
  refine List.takeWhile_eq_self_iff.2 fun c hc => decide_eq_true ?_
  rcases List.mem_append.1 hc with hc | hc
  · rcases List.mem_append.1 hc with hc | hc
    · exact fun heq => hstart (heq ▸ hc)
    · exact (hpermit c hc).2
  · exact fun heq => hend (heq ▸ hc)

theorem hash_mem_inactiveSlot (permit : Text) : '#' ∈ inactiveSlot permit :=
  List.mem_append_right _ (by decide +kernel)

theorem CopiedAs.notBiometric {permit l l' : Text} (h : CopiedAs names permit l l') (hl : ReadWhole l)
    (hsafe : ∀ t c, names t = some c → SafeName c) (hpermit : ∀ c ∈ permit, c ≠ '\n' ∧ c ≠ '\x00')
    (hslot : isBiometric l = true → isBiometric (inactiveSlot permit) = false) :
    isBiometric (beforeNul l') = false := by
  cases h with
  | renamed htarget hname =>
    obtain ⟨x, y, hparts, hstart, hsplice⟩ := spliceTarget_spec htarget
    obtain ⟨hrenamed, hwhole⟩ := hsplice _ (hsafe _ _ hname)
    rw [spliceTarget_of_parts hparts hstart, isBiometric_beforeNul (hwhole hl)]
    exact isBiometric_of_target (includeTarget_of_renamed hrenamed)
  | slot hhead hphase hknown hstack hthird hcontrol hbiometric =>
    rw [inactiveSlot_whole hpermit]
    exact hslot hbiometric
  | same htarget hbiometric => rw [isBiometric_beforeNul hl, hbiometric]

section Copy

variable {name copy text text' : Text}

theorem RenderedCopy.copiedLines (h : RenderedCopy host names policy.permit view name copy text text')
    (hc : ReadAlike host policy) (hreach : Reached host.text policy.services name) :
    List.Forall₂ (CopiedAs names policy.permit) (text.splitOn '\n') (text'.splitOn '\n') :=
  h.lines.copied (hc.newline name text hreach h.original)

theorem RenderedCopy.notBiometric (h : RenderedCopy host names policy.permit view name copy text text')
    (hsafe : ∀ t c, names t = some c → SafeName c)
    (hpermit : ∀ c ∈ policy.permit, c ≠ '\n' ∧ c ≠ '\x00') (hc : ReadAlike host policy)
    (hreach : Reached host.text policy.services name) :
    ∀ l ∈ libpamLines text', isBiometric l = false := by
  intro l' hl'
  rw [h.libpamLines_eq hsafe] at hl'
  obtain ⟨piece', hpiece', rfl⟩ := List.mem_map.1 hl'
  obtain ⟨piece, hpiece, hline⟩ := exists_left_of_forall₂ (h.copiedLines hc hreach).flip hpiece'
  exact CopiedAs.notBiometric hline (h.whole piece hpiece) hsafe hpermit fun hbio =>
    hc.permit name text hreach h.original ⟨piece, hpiece, hbio⟩

theorem Published.reached_line (h : Published host policy graph names view) (hn : NamesCopies graph names)
    (hpermit : '\n' ∉ policy.permit) (hsession : RetainedModule policy.sessionModule)
    (hname : names name = some copy) (hcopy : RenderedCopy host names policy.permit view name copy text text')
    (hreach : Reached host.text policy.services name) {l : Text} (hl : l ∈ libpamLines text') :
    ∃ n t, Reached (view.text host) policy.services n ∧ view.text host n = some t ∧ l ∈ libpamLines t := by
  obtain ⟨s, hs, hreach⟩ := hreach
  rcases Relation.reflTransGen_iff_eq_or_transGen.1 hreach with rfl | hreach
  · obtain ⟨copy', text₀, text₀', hname', hcopy', hroot⟩ := h.root hn hpermit hs
    cases hname.symm.trans hname'
    cases hcopy.copied.symm.trans hcopy'.copied
    refine ⟨_, _, ⟨_, hs, .refl⟩, hroot, ?_⟩
    rw [libpamLines_rootText hsession]
    exact List.mem_cons_of_mem _ hl
  · have hview := (h.reaches hn hpermit hsession hs).2 ⟨name, hreach, hname⟩
    exact ⟨copy, text', ⟨s, hs, hview.to_reflTransGen⟩, hcopy.copied, hl⟩

end Copy

/-! ### Runs -/

theorem lineRows_sessionLine (h : RetainedModule policy.sessionModule)
    (stack : Bool → Nat → Text → Option (List Row)) (phase : Phase) (place : Place) :
    ∃ table, table .success = .ignore ∧ lineRows stack phase false 0 place (sessionLine policy) =
      if phase = .session then [⟨0, .call place table⟩] else [] := by
  obtain ⟨hd, hhead, hphase, hknown, hstack, hsuccess⟩ := head_sessionLine h
  refine ⟨hd.returns, hsuccess, ?_⟩
  have hof : hd.isOf false phase = true ↔ phase = .session := by
    rw [Head.isOf, hknown, if_pos rfl, hphase, decide_eq_true_eq, eq_comm]
  rw [lineRows_call hhead (isAtInclude_of_head hhead) hstack, if_congr hof rfl rfl]

theorem alike_root {text text' : Text} (hc : Copied host view names policy.permit
      (Reached host.text policy.services)) {s : Text} (hs : s ∈ policy.services)
    (htext : host.text s = some text)
    (hlines : List.Forall₂ (CopiedAs names policy.permit) (text.splitOn '\n') (text'.splitOn '\n'))
    {results results' : Place → ReturnValue}
    (hignored : ∀ p, (lineAt host.text text p).any isBiometric = true → results' p = .ignore)
    (hsame : ∀ p, (lineAt host.text text p).any isBiometric = false → results (viewPlace p) = results' p)
    (phase : Phase) (limit : Nat) :
    List.Forall₂ (Alike viewPlace results results')
      (rowsOf (fun i => lineRows (innerRows (view.text host) phase limit [i + 1]) phase false 0 [i + 1])
        (libpamLines text'))
      (serviceRows host.text phase limit text) := by
  have hreach : Reached host.text policy.services s := ⟨s, hs, .refl⟩
  have hwhole := hc.whole s text hreach htext
  rw [serviceRows, stackRows_eq, libpamLines_of_whole hwhole, libpamLines_of_copied hlines hwhole hc.safe]
  refine rowsOf_forall₂ (by simp [hlines.length_eq]) fun i m' m hm' hm => ?_
  rw [List.getElem?_map, Option.map_eq_some_iff] at hm hm'
  obtain ⟨piece, hpiece, rfl⟩ := hm
  obtain ⟨piece', hpiece', rfl⟩ := hm'
  have hpieceWhole := hwhole piece (List.mem_of_getElem? hpiece)
  have hread : (libpamLines text)[i]? = some (beforeNul piece) := by
    rw [libpamLines_of_whole hwhole, List.getElem?_map, hpiece, Option.map_some]
  have hline : ∀ rest, lineAt host.text text (i :: rest) = lineBelow host.text (beforeNul piece) rest := by
    intro rest
    rw [lineAt, hread, Option.bind_some]
  have hat : AtLine viewPlace results results' host.text [i] [i + 1] (beforeNul piece) :=
    ⟨fun _ => rfl, fun rest hbio => hignored (i :: rest) (by rw [hline, hbio]),
      fun rest hbio => hsame (i :: rest) (by rw [hline, hbio])⟩
  refine alike_line hc phase (forall₂_getElem? hlines hpiece hpiece') hpieceWhole (fun t ht => ?_) hat
  refine hc.closed s t hreach ⟨text, htext, beforeNul piece, List.mem_of_getElem? hread, ?_⟩
  rw [includeTarget_beforeNul hpieceWhole, ht]

theorem runs_of_alike {text' : Text} (hsession : RetainedModule policy.sessionModule)
    {results results' : Place → ReturnValue} (hfirst : results [0] = .success) {phase : Phase} {limit : Nat}
    {hostRows : List Row} (halike : List.Forall₂ (Alike viewPlace results results')
      (rowsOf (fun i => lineRows (innerRows (view.text host) phase limit [i + 1]) phase false 0 [i + 1])
        (libpamLines text')) hostRows)
    {σ : Type} (rules : Rules ReturnValue Action σ) :
    dispatch rules results (serviceRows (view.text host) phase limit (rootText policy text')) =
      ((if phase = .session then [[0]] else []) ++ (dispatch rules results' hostRows).1.map viewPlace,
        (dispatch rules results' hostRows).2) := by
  obtain ⟨hvisited, hverdict⟩ := dispatch_alike rules halike
  obtain ⟨table, hsuccess, hrow⟩ :=
    lineRows_sessionLine hsession (innerRows (view.text host) phase limit [0]) phase [0]
  rw [serviceRows, stackRows_eq, libpamLines_rootText hsession, rowsOf_cons]
  have hrow' : lineRows (innerRows (view.text host) phase limit ([] ++ [0])) phase false 0 ([] ++ [0])
      (sessionLine policy) = if phase = .session then [⟨0, .call [0] table⟩] else [] := hrow
  rw [hrow']
  split
  · have hignored : table (results [0]) = .ignore := by rw [hfirst, hsuccess]
    rw [List.singleton_append]
    refine (dispatch_cons_ignored hignored _).trans ?_
    rw [← hvisited, ← hverdict]
    rfl
  · rw [List.nil_append, List.nil_append, ← hvisited, ← hverdict]
    rfl

/-! ### The condition -/

theorem Published.copied (h : Published host policy graph names view) (hn : NamesCopies graph names)
    (hpermit : '\n' ∉ policy.permit) (hc : ReadAlike host policy) :
    Copied host view names policy.permit (Reached host.text policy.services) where
  safe := hn.safe
  whole name text hreach htext := by
    obtain ⟨l, hl, rfl⟩ := Graph.has_iff.1 (h.has_of_reached hreach)
    obtain rfl := Option.some.inj ((h.complete.text hl).symm.trans htext)
    exact h.complete.whole l hl
  copy name copy hname hreach := by
    obtain ⟨text, text', hcopy⟩ := h.rendered hn hpermit hname
    exact ⟨text, text', hcopy.original, hcopy.copied, hcopy.copiedLines hc hreach⟩
  closed := fun _ _ ⟨s, hs, hreach⟩ hfollows => ⟨s, hs, hreach.tail hfollows⟩

variable {copies : List (Text × Text)}

variable (h : Published host policy graph names view)

include h

variable (hn : NamesCopies graph names)

include hn

variable (hcopies : ∀ name copy, (name, copy) ∈ copies ↔ names name = some copy)

include hcopies

theorem remoteSafe_of_readAlike
    (hlength : copies.length = graph.length) (hpermit : ∀ c ∈ policy.permit, c ≠ '\n' ∧ c ≠ '\x00')
    (hsession : RetainedModule policy.sessionModule) (hc : ReadAlike host policy) :
    RemoteSafe host policy copies view := by
  have hline : '\n' ∉ policy.permit := fun hmem => (hpermit _ hmem).1 rfl
  refine ⟨hlength ▸ h.bounded, ?_, ?_, ?_, ?_, ?_⟩
  · intro s hs
    obtain ⟨copy, text, text', hname, hcopy, hroot⟩ := h.root hn hline hs
    exact ⟨copy, text', (hcopies s copy).2 hname, hcopy.copied, hroot⟩
  · intro s hs name hreach
    obtain ⟨t, -, hname⟩ := (h.reaches hn hline hsession hs).1 hreach
    obtain ⟨text, text', hcopy⟩ := h.rendered hn hline hname
    refine ⟨List.mem_map_of_mem ((hcopies t name).2 hname), ?_, h.acyclic hn hline hname⟩
    rw [hcopy.copied]
    rfl
  · intro name text ⟨s, hs, hreach⟩ htext l hl
    rcases Relation.reflTransGen_iff_eq_or_transGen.1 hreach with rfl | hreach
    · obtain ⟨copy, text₀, text', -, hcopy, hroot⟩ := h.root hn hline hs
      cases hroot.symm.trans htext
      rw [libpamLines_rootText hsession, List.mem_cons] at hl
      rcases hl with rfl | hl
      · exact isBiometric_sessionLine hsession
      · exact hcopy.notBiometric hn.safe hpermit hc ⟨_, hs, .refl⟩ l hl
    · obtain ⟨t, ht, hname⟩ := (h.reaches hn hline hsession hs).1 hreach
      obtain ⟨text₀, text', hcopy⟩ := h.rendered hn hline hname
      cases hcopy.copied.symm.trans htext
      exact hcopy.notBiometric hn.safe hpermit hc ⟨s, hs, ht.to_reflTransGen⟩ l hl
  · intro name copy hreach hmem
    obtain ⟨text, text', hcopy⟩ := h.rendered hn hline ((hcopies name copy).1 hmem)
    have hlines := hcopy.copiedLines hc hreach
    refine ⟨text, text', hcopy.original, hcopy.copied, ?_, ?_⟩
    · rw [hcopy.libpamLines_eq hn.safe, libpamLines_of_whole hcopy.whole, List.length_map, List.length_map,
        hlines.length_eq]
    · intro i l hl hbio htarget
      rw [libpamLines_of_whole hcopy.whole, List.getElem?_map, Option.map_eq_some_iff] at hl
      obtain ⟨piece, hpiece, rfl⟩ := hl
      have hwhole := hcopy.whole piece (List.mem_of_getElem? hpiece)
      rw [isBiometric_beforeNul hwhole] at hbio
      rw [includeTarget_beforeNul hwhole] at htarget
      have hlt : i < (text'.splitOn '\n').length := by
        rw [← hlines.length_eq]
        exact (List.getElem?_eq_some_iff.1 hpiece).1
      have hat := forall₂_getElem? hlines hpiece (List.getElem?_eq_getElem hlt)
      rw [hcopy.libpamLines_eq hn.safe, List.getElem?_map, List.getElem?_eq_getElem hlt, Option.map_some]
      generalize (text'.splitOn '\n')[i] = piece' at hat
      cases hat with
      | renamed hsome => rw [htarget] at hsome; cases hsome
      | slot _ _ _ _ _ _ hbiometric => rw [hbio] at hbiometric; cases hbiometric
      | same => rfl
  · intro s hs text text' htext htext' σ rules phase limit results results' hignored hsame hfirst
    obtain ⟨copy, text₀, text₀', hname, hcopy, hroot⟩ := h.root hn hline hs
    cases hcopy.original.symm.trans htext
    cases hroot.symm.trans htext'
    exact runs_of_alike hsession hfirst (alike_root (h.copied hn hline hc) hs htext
      (hcopy.copiedLines hc ⟨s, hs, .refl⟩) hignored hsame phase limit) rules

theorem newline_of_remoteSafe
    (hpermit : ∀ c ∈ policy.permit, c ≠ '\n' ∧ c ≠ '\x00') (hsession : RetainedModule policy.sessionModule)
    (hsafe : RemoteSafe host policy copies view) {name text : Text}
    (hreach : Reached host.text policy.services name) (htext : host.text name = some text) {l : Text}
    (hl : l ∈ (text.splitOn '\n').dropLast) : isBiometric (l ++ ['\n']) = isBiometric l := by
  have hline : '\n' ∉ policy.permit := fun hmem => (hpermit _ hmem).1 rfl
  obtain ⟨copy, hname⟩ := (hn.has name).1 (h.has_of_reached hreach)
  obtain ⟨text₀, text', hcopy⟩ := h.rendered hn hline hname
  obtain rfl := Option.some.inj (hcopy.original.symm.trans htext)
  obtain ⟨i, hi⟩ := List.mem_iff_getElem?.1 hl
  have hpiece : (text₀.splitOn '\n')[i]? = some l := by
    rw [List.getElem?_dropLast] at hi
    split at hi
    · exact hi
    · cases hi
  have hwhole := hcopy.whole l (List.mem_of_getElem? hpiece)
  obtain ⟨l', hl', hrendered⟩ := hcopy.lines.getElem? hi
  have hread : (libpamLines text')[i]? = some (beforeNul l') := by
    rw [hcopy.libpamLines_eq hn.safe, List.getElem?_map, hl', Option.map_some]
  cases hrendered with
  | renamed htarget hname hline =>
    rw [isBiometric_of_target htarget, isBiometric_of_target hline]
  | slot htarget hbiometric =>
    rw [hbiometric, eq_comm]
    by_contra hbio
    -- The rule is no biometric one to libpam, so its line is kept; but an inactive line stands there.
    rw [Bool.not_eq_true] at hbio
    obtain ⟨_, _, htext₁, htext₁', -, hkept⟩ := hsafe.kept name copy hreach ((hcopies name copy).2 hname)
    obtain rfl := Option.some.inj (hcopy.original.symm.trans htext₁)
    obtain rfl := Option.some.inj (hcopy.copied.symm.trans htext₁')
    have hkeep := hkept i (beforeNul l)
      (by rw [libpamLines_of_whole hcopy.whole, List.getElem?_map, hpiece, Option.map_some])
      (by rw [isBiometric_beforeNul hwhole, hbio])
      (by rw [includeTarget_beforeNul hwhole, includeTarget_newline_none htarget])
    rw [hread, inactiveSlot_whole hpermit, Option.some.injEq] at hkeep
    have hhash : '#' ∈ l := (List.takeWhile_sublist _).subset (hkeep ▸ hash_mem_inactiveSlot policy.permit)
    rw [isBiometric_of_directive (directive_append_of_mem hhash ['\n']), hbio] at hbiometric
    cases hbiometric
  | same htarget hbiometric =>
    obtain ⟨n, t, hview, ht, hmem⟩ :=
      h.reached_line hn hline hsession hname hcopy hreach (List.mem_of_getElem? hread)
    have hnone := hsafe.noBiometric n t hview ht _ hmem
    rw [isBiometric_beforeNul hwhole] at hnone
    rw [hbiometric, hnone]

theorem readAlike_of_remoteSafe
    (hpermit : ∀ c ∈ policy.permit, c ≠ '\n' ∧ c ≠ '\x00') (hsession : RetainedModule policy.sessionModule)
    (hsafe : RemoteSafe host policy copies view) : ReadAlike host policy := by
  have hline : '\n' ∉ policy.permit := fun hmem => (hpermit _ hmem).1 rfl
  have hnewline := @newline_of_remoteSafe _ _ _ _ _ copies h hn hcopies hpermit hsession hsafe
  refine ⟨fun name text hreach htext l hl => hnewline hreach htext hl, ?_⟩
  intro name text hreach htext ⟨l, hl, hbio⟩
  obtain ⟨copy, hname⟩ := (hn.has name).1 (h.has_of_reached hreach)
  obtain ⟨text₀, text', hcopy⟩ := h.rendered hn hline hname
  cases hcopy.original.symm.trans htext
  have hlines := hcopy.lines.copied fun l hl => hnewline hreach htext hl
  obtain ⟨l', hl', hcopied⟩ := exists_left_of_forall₂ hlines hl
  have hslot : l' = inactiveSlot policy.permit := by
    cases hcopied with
    | renamed htarget =>
      rw [isBiometric_of_target htarget] at hbio
      cases hbio
    | slot => rfl
    | same htarget hnone =>
      rw [hnone] at hbio
      cases hbio
  have hmem : inactiveSlot policy.permit ∈ libpamLines text' := by
    rw [hcopy.libpamLines_eq hn.safe, ← inactiveSlot_whole hpermit, ← hslot]
    exact List.mem_map_of_mem hl'
  obtain ⟨n, t, hview, ht, hmem⟩ := h.reached_line hn hline hsession hname hcopy hreach hmem
  exact hsafe.noBiometric n t hview ht _ hmem

end Safe

/-! ## The published view -/

theorem lookup_iff_mem {host : Host} {graph : Graph} (hcomplete : Complete host graph)
    {generation name copy : Text} : (name, copy) ∈ copyNames generation graph ↔
      List.lookup name (copyNames generation graph) = some copy := by
  refine ⟨fun hmem => ?_, lookup_mem⟩
  obtain ⟨hhas, i, hcopy, hi⟩ := mem_copyNames hmem
  obtain ⟨copy', hlookup⟩ : ∃ copy', List.lookup name (copyNames generation graph) = some copy' :=
    copyName_of_has hhas
  obtain ⟨-, j, hcopy', hj⟩ := mem_copyNames (lookup_mem hlookup)
  have hnodup : ((graph.map (·.name)).insertionSort (· ≤ ·)).Nodup :=
    (List.perm_insertionSort _ _).nodup_iff.2 hcomplete.nodup
  obtain ⟨hlt, hget⟩ := List.getElem?_eq_some_iff.1 hi
  obtain ⟨hlt', hget'⟩ := List.getElem?_eq_some_iff.1 hj
  obtain rfl := hnodup.getElem_inj_iff.1 (hget.trans hget'.symm)
  rw [hlookup, hcopy, hcopy']

section Publish

variable {encode : Policy → Graph → Option (List UInt8) → Except Text (List UInt8)}
  {sha256 : List UInt8 → Text}

/-- For every directory of stacks, every set of services, every permit module of one line and every view
that was there: a view that is published for a policy that blocks is safe for a remote login exactly where
the stacks it is made of have the same biometric rules with and without the newlines that end their lines. -/
theorem publish_remoteSafe (hsha : ∀ b, isSha256Hex (sha256 b) = true) {host : Host} {dir : ViewDir}
    {policy : Policy} {view view' : View} (hpermit : ∀ c ∈ policy.permit, c ≠ '\n' ∧ c ≠ '\x00')
    (hsession : RetainedModule policy.sessionModule) (hblocked : policy.blocked = true)
    (h : publish encode sha256 host dir policy view = .ok view') :
    ∃ copies, generationCopies encode sha256 host policy = .ok copies ∧
      (RemoteSafe host policy copies view' ↔ ReadAlike host policy) := by
  obtain ⟨generation, graph, hhex, hcopies, hpub⟩ := publish_spec hsha h hblocked
  have hn := namesCopies_copyNames hhex graph
  have hmem : ∀ name copy, (name, copy) ∈ copyNames generation graph ↔
      List.lookup name (copyNames generation graph) = some copy := fun _ _ => lookup_iff_mem hpub.complete
  exact ⟨_, hcopies, readAlike_of_remoteSafe hpub hn hmem hpermit hsession,
    remoteSafe_of_readAlike hpub hn hmem length_copyNames hpermit hsession⟩

end Publish

/-! ## A desktop with one stack -/

def loginPolicy : Policy where
  version := 1
  blocked := true
  services := ["lightdm"]
  permit := "pam_permit.so"
  unit := "lightdm.service"
  sessionModule := "/run/irlume-lightdm/session-".toList ++
    ("e3b0c44298fc1c149afbf4c8996fb92427ae41e4649b934ca495991b7852b855".toList ++ ".so".toList)

def loginHost (text : Text) : Host where
  etc name := .ok (if name = "lightdm".toList then some text else none)
  vendor _ := .ok none
  etcPresent name := decide (name = "lightdm".toList)
  entries := .ok [.ok (some "lightdm")]
  label _ := .ok none
  enforces := false

def newDir : ViewDir where
  directory := .ok ()
  used := .ok (0, 0)
  writes _ := .ok ()
  links _ := .ok ()

def loginEncode (quoted : Text) (_ : Policy) (_ : Graph) (_ : Option (List UInt8)) :
    Except Text (List UInt8) :=
  .ok (bytes ("[\x7b\"version\":1,\"blocked\":true,\"services\":[\"lightdm\"],".toList ++
    "\"permit\":\"pam_permit.so\",\"unit\":\"lightdm.service\",\"session_module\":\"".toList ++
    loginPolicy.sessionModule ++ "\"\x7d,\x7b\"lightdm\":\"".toList ++ quoted ++ "\"\x7d,null]".toList))

theorem retainedModule_loginPolicy : RetainedModule loginPolicy.sessionModule :=
  ⟨_, by decide +kernel, rfl⟩

theorem loginHost_text {text name t : Text} (h : (loginHost text).text name = some t) : t = text := by
  unfold Host.text Host.find loginHost at h
  by_cases hname : name = "lightdm".toList
  · simp only [if_pos hname] at h
    exact (Option.some.inj h).symm
  · simp only [if_neg hname] at h
    cases h

def fingerprintFirst : Text := unlines ["auth sufficient pam_fprintd.so", "auth required pam_unix.so"]

def encodeFirst : Policy → Graph → Option (List UInt8) → Except Text (List UInt8) :=
  loginEncode "auth sufficient pam_fprintd.so\\nauth required pam_unix.so\\n"

def digestFirst (_ : List UInt8) : Text :=
  "1f3318534fa6b8a509463e47f4bd43cdebd34c6fabe53f33b8877376589e1ecb"

/-- A fingerprint rule above the password's. -/
theorem publish_remoteSafe_fingerprintFirst : ∃ view copies,
    publish encodeFirst digestFirst (loginHost fingerprintFirst) newDir loginPolicy (fun _ => none) =
        .ok view ∧
      generationCopies encodeFirst digestFirst (loginHost fingerprintFirst) loginPolicy = .ok copies ∧
        RemoteSafe (loginHost fingerprintFirst) loginPolicy copies view := by
  have hsha : isSha256Hex (digestFirst []) = true := by decide +kernel
  have hpublished : (publish encodeFirst digestFirst (loginHost fingerprintFirst) newDir loginPolicy
      (fun _ => none)).toOption.isSome = true := by
    unfold encodeFirst digestFirst loginEncode loginHost fingerprintFirst loginPolicy
    repeat rw [String.toList_ofList]
    decide +kernel
  cases hpublish : publish encodeFirst digestFirst (loginHost fingerprintFirst) newDir loginPolicy
      (fun _ => none) with
  | error e =>
    rw [hpublish] at hpublished
    cases hpublished
  | ok view =>
    obtain ⟨copies, hcopies, hiff⟩ := publish_remoteSafe (fun _ => hsha)
      (List.all_iff_forall_prop.1 (by decide +kernel)) retainedModule_loginPolicy rfl hpublish
    refine ⟨view, copies, rfl, hcopies, hiff.2 ⟨?_, fun _ _ _ _ _ => by decide +kernel⟩⟩
    intro name text _ htext
    rw [loginHost_text htext]
    decide +kernel

/-- The bracket is not closed, so the newline is a part of the module's name. -/
def fingerprintOpened : Text := unlines ["auth sufficient [pam_fprintd.so", "auth required pam_unix.so"]

def encodeOpened : Policy → Graph → Option (List UInt8) → Except Text (List UInt8) :=
  loginEncode "auth sufficient [pam_fprintd.so\\nauth required pam_unix.so\\n"

def digestOpened (_ : List UInt8) : Text :=
  "28e8aebc1e826ff05841247c67e0d31923253d92d3632237d34adc3a52b66615"

/-- A fingerprint rule that `render` does not read as one. -/
theorem publish_keepsOpened : ∃ view copies,
    publish encodeOpened digestOpened (loginHost fingerprintOpened) newDir loginPolicy (fun _ => none) =
        .ok view ∧
      generationCopies encodeOpened digestOpened (loginHost fingerprintOpened) loginPolicy = .ok copies ∧
        ¬ RemoteSafe (loginHost fingerprintOpened) loginPolicy copies view := by
  have hpublished : (publish encodeOpened digestOpened (loginHost fingerprintOpened) newDir loginPolicy
      (fun _ => none)).toOption.map (fun view => view.text (loginHost fingerprintOpened) "lightdm") =
        some (some (rootText loginPolicy fingerprintOpened)) := by
    unfold encodeOpened digestOpened loginEncode loginHost fingerprintOpened loginPolicy
    repeat rw [String.toList_ofList]
    decide +kernel
  have hnamed : (generationCopies encodeOpened digestOpened (loginHost fingerprintOpened)
      loginPolicy).toOption.isSome = true := by decide +kernel
  have hline : ("auth sufficient [pam_fprintd.so" : Text) ∈
      libpamLines (rootText loginPolicy fingerprintOpened) := by decide +kernel
  cases hcopies : generationCopies encodeOpened digestOpened (loginHost fingerprintOpened) loginPolicy with
  | error e =>
    rw [hcopies] at hnamed
    cases hnamed
  | ok copies =>
    cases hpublish : publish encodeOpened digestOpened (loginHost fingerprintOpened) newDir loginPolicy
        (fun _ => none) with
    | error e =>
      rw [hpublish] at hpublished
      cases hpublished
    | ok view =>
      rw [hpublish] at hpublished
      refine ⟨view, copies, rfl, rfl, fun hsafe => ?_⟩
      have hnone := hsafe.noBiometric "lightdm" _ ⟨"lightdm", by decide, .refl⟩
        (Option.some.inj hpublished) _ hline
      revert hnone
      decide +kernel

end Irlume.Pam.Lightdm

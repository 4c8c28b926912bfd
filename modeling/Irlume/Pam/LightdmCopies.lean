import Irlume.Pam.LightdmGraph

/-!
# The copies of a generation

What is in the view once it is published: for each stack that was loaded a copy under a name of the generation,
rendered line by line, and each protected service with the session line above its copy's text.
-/

namespace Irlume.Pam.Lightdm

open Irlume.Lib

/-! ## Rendered lines -/

/-- What a line is rendered as; `read` is the line as it is looked at, with the newline that ends it. -/
inductive RenderedAs (names : Text → Option Text) (permit read l : Text) : Text → Prop where
  | renamed {target replacement : Text} (htarget : includeTarget read = some target)
    (hname : names target = some replacement) (hline : includeTarget l = some target) :
    RenderedAs names permit read l (spliceTarget l target replacement)
  | slot {r : Rule} (htarget : includeTarget read = none) (hbiometric : isBiometric read = true)
    (hrule : rule read = some r) (hcontrol : controlIgnoresModuleIgnore r.control = true) :
    RenderedAs names permit read l (inactiveSlot permit)
  | same (htarget : includeTarget read = none) (hbiometric : isBiometric read = false) :
    RenderedAs names permit read l l

/-- The lines between newlines; the last has none at its end. -/
inductive RenderedLines (names : Text → Option Text) (permit : Text) : List Text → List Text → Prop where
  | last {l l' : Text} (h : RenderedAs names permit l l l') : RenderedLines names permit [l] [l']
  | line {l l' : Text} {ls ls' : List Text} (h : RenderedAs names permit (l ++ ['\n']) l l')
    (hrest : RenderedLines names permit ls ls') : RenderedLines names permit (l :: ls) (l' :: ls')

section Render

variable {names : Text → Option Text} {permit : Text}

theorem renderLine_cases {read out : Text} (h : renderLine names permit read = .ok out) :
    (∃ target replacement, includeTarget read = some target ∧ names target = some replacement ∧
      out = spliceTarget read target replacement) ∨
    (∃ r, includeTarget read = none ∧ isBiometric read = true ∧ rule read = some r ∧
      controlIgnoresModuleIgnore r.control = true ∧
      out = inactiveSlot permit ++ if read.getLast? = some '\n' then ['\n'] else []) ∨
    (includeTarget read = none ∧ isBiometric read = false ∧ out = read) := by
  unfold renderLine at h
  split at h
  · next target htarget =>
    split at h
    · cases h
    · next replacement hname =>
      exact .inl ⟨target, replacement, htarget, hname, (Except.ok.inj h).symm⟩
  · next htarget =>
    split at h
    · next hbiometric =>
      split at h
      · cases h
      · next r hrule =>
        split at h
        · cases h
        · next hcontrol =>
          exact .inr (.inl ⟨r, htarget, hbiometric, hrule, by simpa using hcontrol,
            (Except.ok.inj h).symm⟩)
    · next hbiometric =>
      exact .inr (.inr ⟨htarget, by simpa using hbiometric, (Except.ok.inj h).symm⟩)

theorem renderLine_newline (hnames : ∀ t r, names t = some r → '\n' ∉ t) {l out : Text}
    (h : renderLine names permit (l ++ ['\n']) = .ok out) :
    ∃ l', out = l' ++ ['\n'] ∧ RenderedAs names permit (l ++ ['\n']) l l' := by
  rcases renderLine_cases h with ⟨target, replacement, htarget, hname, rfl⟩ |
    ⟨r, htarget, hbiometric, hrule, hcontrol, rfl⟩ | ⟨htarget, hbiometric, rfl⟩
  · obtain ⟨hline, hsplice⟩ := includeTarget_newline htarget (hnames _ _ hname)
    exact ⟨_, hsplice replacement, .renamed htarget hname hline⟩
  · refine ⟨_, ?_, .slot htarget hbiometric hrule hcontrol⟩
    rw [List.getLast?_concat, if_pos rfl]
  · exact ⟨l, rfl, .same htarget hbiometric⟩

theorem renderLine_last {l out : Text} (hl : '\n' ∉ l) (h : renderLine names permit l = .ok out) :
    RenderedAs names permit l l out := by
  rcases renderLine_cases h with ⟨target, replacement, htarget, hname, rfl⟩ |
    ⟨r, htarget, hbiometric, hrule, hcontrol, rfl⟩ | ⟨htarget, hbiometric, rfl⟩
  · exact .renamed htarget hname htarget
  · have hend : l.getLast? ≠ some '\n' := fun hlast => hl (List.mem_of_getLast? hlast)
    rw [if_neg hend, List.append_nil]
    exact .slot htarget hbiometric hrule hcontrol
  · exact .same htarget hbiometric

theorem inactiveSlot_oneLine (hpermit : '\n' ∉ permit) : '\n' ∉ inactiveSlot permit := by
  have hbefore : '\n' ∉ ("auth [default=ignore] " : Text) := by decide +kernel
  have hafter : '\n' ∉ (" # irlume remote-seat inactive slot" : Text) := by decide +kernel
  unfold inactiveSlot
  rw [List.mem_append, List.mem_append, not_or, not_or]
  exact ⟨⟨hbefore, hpermit⟩, hafter⟩

theorem RenderedAs.oneLine {read l l' : Text} (h : RenderedAs names permit read l l') (hl : '\n' ∉ l)
    (hnames : ∀ t r, names t = some r → SafeName r) (hpermit : '\n' ∉ permit) : '\n' ∉ l' := by
  cases h with
  | renamed htarget hname hline =>
    obtain ⟨x, y, hparts, hstart, -⟩ := spliceTarget_spec hline
    rw [spliceTarget_of_parts hparts hstart]
    rw [hparts] at hl
    simp only [List.mem_append, not_or] at hl ⊢
    refine ⟨hl.1, fun hmem => ?_, hl.2.2⟩
    exact (ne_of_isNameChar ((hnames _ _ hname).chars _ hmem)).2.2.2.2.2.2.2 rfl
  | slot => exact inactiveSlot_oneLine hpermit
  | same => exact hl

theorem map_ok_iff {ε α β : Type} {x : Except ε α} {f : α → β} {b : β} :
    x.map f = .ok b ↔ ∃ a, x = .ok a ∧ f a = b := by
  cases x with
  | error e => simp [Except.map]
  | ok a => simp [Except.map]

theorem renderView_spec (hnames : ∀ t r, names t = some r → '\n' ∉ t ∧ SafeName r)
    (hpermit : '\n' ∉ permit) {text out : Text} (h : renderView text names permit = .ok out) :
    RenderedLines names permit (text.splitOn '\n') (out.splitOn '\n') := by
  induction text using line_induction generalizing out with
  | last l hl =>
    rw [List.splitOn_eq_singleton hl]
    rw [renderView, splitInclusive_last hl] at h
    by_cases hnil : l = []
    · subst hnil
      cases h
      exact .last (.same rfl rfl)
    · rw [if_neg hnil] at h
      obtain ⟨outs, houts, rfl⟩ := map_ok_iff.1 h
      rw [mapM_ok_iff, List.forall₂_cons_left_iff] at houts
      obtain ⟨out, rest, hout, hrest, rfl⟩ := houts
      rw [List.forall₂_nil_left_iff] at hrest
      have hline := renderLine_last hl hout
      rw [hrest, List.flatten_cons, List.flatten_nil, List.append_nil,
        List.splitOn_eq_singleton (hline.oneLine hl (fun t r ht => (hnames t r ht).2) hpermit)]
      exact .last hline
  | line l t hl ih =>
    rw [renderView, splitInclusive_newline hl] at h
    obtain ⟨outs, houts, rfl⟩ := map_ok_iff.1 h
    rw [mapM_ok_iff, List.forall₂_cons_left_iff] at houts
    obtain ⟨out, rest, hout, hrest, rfl⟩ := houts
    obtain ⟨l', rfl, hline⟩ := renderLine_newline (fun t r ht => (hnames t r ht).1) hout
    have hl' := hline.oneLine hl (fun t r ht => (hnames t r ht).2) hpermit
    rw [List.flatten_cons, List.append_assoc, List.singleton_append,
      List.splitOn_append_cons_self_of_not_mem hl, List.splitOn_append_cons_self_of_not_mem hl']
    refine .line hline (ih ?_)
    rw [renderView, mapM_ok_iff.2 hrest]
    rfl

end Render

/-! ## The names of the copies -/

variable {α β : Type}

theorem lookup_mem [BEq α] [LawfulBEq α] {xs : List (α × β)} {a : α} {b : β}
    (h : List.lookup a xs = some b) : (a, b) ∈ xs := by
  obtain ⟨before, after, rfl, -⟩ := List.lookup_eq_some_iff.1 h
  simp

theorem lookup_isSome [BEq α] [LawfulBEq α] {xs : List (α × β)} {a : α}
    (h : a ∈ xs.map Prod.fst) : ∃ b, List.lookup a xs = some b := by
  cases hlookup : List.lookup a xs with
  | some b => exact ⟨b, rfl⟩
  | none =>
    obtain ⟨⟨a', b⟩, hmem, rfl⟩ := List.mem_map.1 h
    have hne := List.lookup_eq_none_iff.1 hlookup (a', b) hmem
    simp at hne

section Names

variable {generation : Text} {graph : Graph}

variable {name copy : Text}

theorem mem_copyNames (h : (name, copy) ∈ copyNames generation graph) :
    graph.has name = true ∧ ∃ i, copy = viewPrefix ++ generation ++ '-' :: decimal i ∧
      ((graph.map (·.name)).insertionSort (· ≤ ·))[i]? = some name := by
  rw [copyNames, List.mem_map] at h
  obtain ⟨⟨n, i⟩, hmem, heq⟩ := h
  cases heq
  have hat := List.mem_zipIdx_iff_getElem?.1 hmem
  have hin := List.mem_of_getElem? hat
  rw [List.mem_insertionSort] at hin
  obtain ⟨l, hl, hname⟩ := List.mem_map.1 hin
  exact ⟨Graph.has_iff.2 ⟨l, hl, hname⟩, i, rfl, hat⟩

theorem copyNames_fst : (copyNames generation graph).map Prod.fst =
    (graph.map (·.name)).insertionSort (· ≤ ·) := by
  rw [copyNames, List.map_map]
  exact List.zipIdx_map_fst 0 _

theorem length_copyNames : (copyNames generation graph).length = graph.length := by
  simp [copyNames]

theorem copyName_of_has {name : Text} (h : graph.has name = true) :
    ∃ copy, List.lookup name (copyNames generation graph) = some copy := by
  apply lookup_isSome
  obtain ⟨l, hl, rfl⟩ := Graph.has_iff.1 h
  rw [copyNames_fst, List.mem_insertionSort]
  exact List.mem_map_of_mem hl

theorem has_of_copyName
    (h : List.lookup name (copyNames generation graph) = some copy) : graph.has name = true :=
  (mem_copyNames (lookup_mem h)).1

theorem copyName_injective {name name' copy : Text}
    (h : List.lookup name (copyNames generation graph) = some copy)
    (h' : List.lookup name' (copyNames generation graph) = some copy) : name = name' := by
  obtain ⟨-, i, hcopy, hi⟩ := mem_copyNames (lookup_mem h)
  obtain ⟨-, j, hcopy', hj⟩ := mem_copyNames (lookup_mem h')
  rw [hcopy] at hcopy'
  have hdecimal := List.append_cancel_left hcopy'
  obtain rfl : i = j := by
    rw [← decimalValue_decimal i, (List.cons.inj hdecimal).2, decimalValue_decimal]
  exact Option.some.inj (hi.symm.trans hj)

theorem copyName_starts
    (h : List.lookup name (copyNames generation graph) = some copy) : viewPrefix <+: copy := by
  obtain ⟨-, i, rfl, -⟩ := mem_copyNames (lookup_mem h)
  rw [List.append_assoc]
  exact List.prefix_append _ _

theorem not_serviceName_of_prefix {name : Text} (h : viewPrefix <+: name) : serviceName name = false := by
  have hstart : startsWith name viewPrefix = true := List.isPrefixOf_iff_prefix.2 h
  simp [serviceName, hstart]

theorem isNameChar_of_hex {s : Text} (h : isSha256Hex s = true) : ∀ c ∈ s, isNameChar c = true := by
  intro c hc
  simp only [isSha256Hex, Bool.and_eq_true, List.all_eq_true] at h
  have hhex := h.2 c hc
  simp only [Bool.or_eq_true, Bool.and_eq_true, decide_eq_true_eq] at hhex
  rcases hhex with ⟨hlow, hhigh⟩ | ⟨hlow, hhigh⟩
  · have hdigit : c.isDigit = true := by
      rw [Char.isDigit, Bool.and_eq_true, decide_eq_true_eq, decide_eq_true_eq]
      exact ⟨hlow, hhigh⟩
    simp [isNameChar, hdigit]
  · have hlower : c.isLower = true := by
      change (decide _ && decide _) = true
      rw [Bool.and_eq_true, decide_eq_true_eq, decide_eq_true_eq]
      exact ⟨hlow, UInt32.le_trans hhigh (by decide)⟩
    simp [isNameChar, hlower]

theorem copyName_safe (hhex : isSha256Hex generation = true)
    (h : List.lookup name (copyNames generation graph) = some copy) : SafeName copy := by
  obtain ⟨-, i, rfl, -⟩ := mem_copyNames (lookup_mem h)
  refine ⟨by simp, ?_⟩
  intro c hc
  rcases List.mem_append.1 hc with hc | hc
  · rcases List.mem_append.1 hc with hc | hc
    · exact List.all_eq_true.1 (by decide +kernel : viewPrefix.all isNameChar = true) c hc
    · exact isNameChar_of_hex hhex c hc
  · rcases List.mem_cons.1 hc with rfl | hc
    · decide
    · simp [isNameChar, decimal_isDigit hc]

end Names

/-! ## Writing -/

section Write

variable {host : Host} {dir : ViewDir} {view view' : View}

theorem View.text_of_read {name text : Text} (h : view.read host name = .ok (some text)) :
    view.text host name = some text := by
  unfold View.read at h
  unfold View.text
  split at h
  · cases h
  · next t hentry =>
    split at h
    · cases h
    · rw [hentry]
      exact Except.ok.inj h
  · next target hentry =>
    rw [hentry]
    dsimp only
    rw [h]
    rfl

theorem write_spec {name text : Text} (h : write host dir view name text = .ok view') :
    view'.text host name = some text ∧ ∀ other, other ≠ name → view' other = view other := by
  obtain ⟨old, hold, h⟩ := bind_ok_iff.1 h
  split at h
  · next hsame =>
    cases h
    rw [hsame] at hold
    exact ⟨View.text_of_read hold, fun _ _ => rfl⟩
  · split at h
    · cases h
    · obtain ⟨-, -, h⟩ := bind_ok_iff.1 h
      cases h
      refine ⟨by rw [View.text, Function.update_self], fun other hother => ?_⟩
      exact Function.update_of_ne hother _ _

variable {name : Text}

theorem View.text_congr (h : view' name = view name) :
    view'.text host name = view.text host name := by
  rw [View.text, View.text, h]

theorem foldlM_write {α : Type} (name text : α → Text) {items : List α}
    (hsame : ∀ a ∈ items, ∀ b ∈ items, name a = name b → text a = text b)
    (h : items.foldlM (fun view a => write host dir view (name a) (text a)) view = .ok view') :
    (∀ a ∈ items, view'.text host (name a) = some (text a)) ∧
      ∀ other, (∀ a ∈ items, other ≠ name a) → view' other = view other := by
  induction items generalizing view with
  | nil =>
    cases h
    exact ⟨nofun, fun _ _ => rfl⟩
  | cons a items ih =>
    obtain ⟨mid, hmid, h⟩ := bind_ok_iff.1 h
    obtain ⟨hwritten, hothers⟩ := write_spec hmid
    obtain ⟨hrest, hkept⟩ := ih (fun b hb c hc => hsame b (List.mem_cons_of_mem _ hb) c
      (List.mem_cons_of_mem _ hc)) h
    refine ⟨fun b hb => ?_, fun other hother => ?_⟩
    · by_cases hagain : ∃ c ∈ items, name c = name b
      · obtain ⟨c, hc, hname⟩ := hagain
        rw [← hname, hrest c hc, hsame c (List.mem_cons_of_mem _ hc) b hb hname]
      · rcases List.mem_cons.1 hb with rfl | hb
        · rw [View.text_congr (hkept _ fun c hc heq => hagain ⟨c, hc, heq.symm⟩)]
          exact hwritten
        · exact absurd ⟨b, hb, rfl⟩ hagain
    · rw [hkept other fun b hb => hother b (List.mem_cons_of_mem _ hb)]
      exact hothers other (hother a List.mem_cons_self)

theorem mirror_spec {services : List Text} {entry : Except Text (Option Text) × Nat}
    (h : mirror dir services view entry = .ok view')
    (hname : serviceName name = false ∨ name ∈ services) : view' name = view name := by
  unfold mirror at h
  split at h
  · cases h
  split at h
  · cases h
  · cases h
  · next n hentry =>
    split at h
    · cases h
      rfl
    · next hlink =>
      rw [Bool.or_eq_true, not_or] at hlink
      have hne : name ≠ n := by
        rintro rfl
        rcases hname with hname | hname
        · simp [hname] at hlink
        · simp [hname] at hlink
      split at h
      · split at h
        · cases h
          rfl
        · cases h
      · cases h
      · obtain ⟨-, -, h⟩ := bind_ok_iff.1 h
        cases h
        exact Function.update_of_ne hne _ _

theorem foldlM_mirror {services : List Text} {entries : List (Except Text (Option Text) × Nat)}
    (h : entries.foldlM (mirror dir services) view = .ok view')
    (hname : serviceName name = false ∨ name ∈ services) : view' name = view name :=
  foldlM_invariant (P := fun v => v name = view name)
    (fun _ _ _ hv hstep => (mirror_spec hstep hname).trans hv) rfl h

end Write

/-! ## A published view -/

/-- The view has each loaded stack's copy, and each protected service. -/
structure Published (host : Host) (policy : Policy) (graph : Graph) (names : Text → Option Text)
    (view : View) : Prop where
  complete : Complete host graph
  bounded : graph.length ≤ maxFiles
  services : ∀ s ∈ policy.services, graph.has s = true
  copies : ∀ l ∈ graph, ∃ copy text, names l.name = some copy ∧
    renderView l.text names policy.permit = .ok text ∧ view.text host copy = some text
  roots : ∀ l ∈ graph, l.name ∈ policy.services → ∃ text,
    renderView l.text names policy.permit = .ok text ∧
      view.text host l.name = some (rootText policy text)

variable {graph : Graph}

variable {host : Host}

theorem Complete.unique (h : Complete host graph) {l l' : Loaded}
    (hl : l ∈ graph) (hl' : l' ∈ graph) (hname : l.name = l'.name) : l = l' := by
  have hfound := h.found l hl
  rw [hname, h.found l' hl', Except.ok.injEq, Prod.mk.injEq] at hfound
  cases l
  cases l'
  simp_all

theorem forall₂_getElem? {R : α → β → Prop} {as : List α} {bs : List β}
    (h : List.Forall₂ R as bs) {i : Nat} {a : α} {b : β} (ha : as[i]? = some a) (hb : bs[i]? = some b) :
    R a b := by
  induction h generalizing i with
  | nil => cases ha
  | cons hab _ ih =>
    cases i with
    | zero =>
      cases ha
      cases hb
      exact hab
    | succ i => exact ih ha hb

def Prepared (graph : Graph) (names : Text → Option Text) (permit : Text)
    (prepared : List (Text × Text)) : Prop :=
  (∀ l ∈ graph, ∃ p ∈ prepared, p.1 = l.name) ∧
    ∀ p ∈ prepared, ∃ l ∈ graph, p.1 = l.name ∧ renderView l.text names permit = .ok p.2

variable {prepared : List (Text × Text)}

variable {names : Text → Option Text} {permit : Text}

theorem prepared_of_mapM {graph sorted : Graph}
    (hsorted : ∀ l, l ∈ sorted ↔ l ∈ graph)
    (h : sorted.mapM (fun l => (renderView l.text names permit).map (l.name, ·)) = .ok prepared) :
    Prepared graph names permit prepared := by
  rw [mapM_ok_iff] at h
  constructor
  · intro l hl
    obtain ⟨p, hp, heq⟩ := exists_left_of_forall₂ h ((hsorted l).2 hl)
    obtain ⟨text, -, rfl⟩ := map_ok_iff.1 heq
    exact ⟨_, hp, rfl⟩
  · intro p hp
    obtain ⟨l, hl, heq⟩ := exists_left_of_forall₂ h.flip hp
    obtain ⟨text, htext, rfl⟩ := map_ok_iff.1 heq
    exact ⟨l, (hsorted l).1 hl, rfl, htext⟩

theorem Prepared.text_unique (h : Prepared graph names permit prepared)
    (hcomplete : Complete host graph) {p p' : Text × Text} (hp : p ∈ prepared) (hp' : p' ∈ prepared)
    (hname : p.1 = p'.1) : p.2 = p'.2 := by
  obtain ⟨l, hl, heq, htext⟩ := h.2 p hp
  obtain ⟨l', hl', heq', htext'⟩ := h.2 p' hp'
  obtain rfl := hcomplete.unique hl hl' (heq.symm.trans (hname.trans heq'))
  exact Except.ok.inj (htext.symm.trans htext')

theorem Prepared.lookup (h : Prepared graph names permit prepared) {l : Loaded}
    (hl : l ∈ graph) : ∃ text, List.lookup l.name prepared = some text ∧ (l.name, text) ∈ prepared := by
  obtain ⟨p, hp, heq⟩ := h.1 l hl
  obtain ⟨text, htext⟩ := lookup_isSome (heq ▸ List.mem_map_of_mem hp : l.name ∈ prepared.map Prod.fst)
  exact ⟨text, htext, lookup_mem htext⟩

theorem published_of_prepared {dir : ViewDir} {policy : Policy}
    {generation : Text}
    {entries : List (Except Text (Option Text))} {view copied mirrored view' : View}
    (hcomplete : Complete host graph) (hbounded : graph.length ≤ maxFiles)
    (hservices : ∀ s ∈ policy.services, graph.has s = true)
    (hprep : Prepared graph (fun name => List.lookup name (copyNames generation graph)) policy.permit
      prepared)
    (hcopied : prepared.foldlM (fun view copy => write host dir view
      ((List.lookup copy.1 (copyNames generation graph)).getD []) copy.2) view = .ok copied)
    (hmirrored : entries.zipIdx.foldlM (mirror dir policy.services) copied = .ok mirrored)
    (hroots : policy.services.foldlM (fun view name => write host dir view name
      (rootText policy ((List.lookup name prepared).getD []))) mirrored = .ok view') :
    Published host policy graph (fun name => List.lookup name (copyNames generation graph)) view' := by
  have hcopyOf : ∀ p ∈ prepared, ∃ copy, List.lookup p.1 (copyNames generation graph) = some copy := by
    intro p hp
    obtain ⟨l, hl, heq, -⟩ := hprep.2 p hp
    exact copyName_of_has (Graph.has_iff.2 ⟨l, hl, heq.symm⟩)
  obtain ⟨hwritten, -⟩ := foldlM_write (fun p : Text × Text =>
    (List.lookup p.1 (copyNames generation graph)).getD []) Prod.snd (by
      intro p hp p' hp' heq
      obtain ⟨copy, hcopy⟩ := hcopyOf p hp
      obtain ⟨copy', hcopy'⟩ := hcopyOf p' hp'
      rw [hcopy, hcopy', Option.getD_some, Option.getD_some] at heq
      exact hprep.text_unique hcomplete hp hp' (copyName_injective hcopy (heq ▸ hcopy'))) hcopied
  obtain ⟨hrooted, hkept⟩ := foldlM_write id
    (fun name => rootText policy ((List.lookup name prepared).getD []))
    (fun s _ t _ hst => by rw [show s = t from hst]) hroots
  refine ⟨hcomplete, hbounded, hservices, fun l hl => ?_, fun l hl hservice => ?_⟩
  · obtain ⟨p, hp, heq⟩ := hprep.1 l hl
    obtain ⟨l', hl', heq', htext⟩ := hprep.2 p hp
    obtain rfl := hcomplete.unique hl hl' (heq.symm.trans heq')
    obtain ⟨copy, hcopy⟩ := hcopyOf p hp
    have hunserviced := not_serviceName_of_prefix (copyName_starts hcopy)
    refine ⟨copy, p.2, heq ▸ hcopy, htext, ?_⟩
    have hread := hwritten p hp
    rw [hcopy, Option.getD_some] at hread
    rw [← hread, View.text_congr (hkept copy fun s hs heq => ?_),
      View.text_congr (foldlM_mirror hmirrored (.inl hunserviced))]
    obtain ⟨m, hm, rfl⟩ := Graph.has_iff.1 (hservices s hs)
    rw [heq, id, hcomplete.named m hm] at hunserviced
    cases hunserviced
  · obtain ⟨text, hlookup, hmem⟩ := hprep.lookup hl
    obtain ⟨l', hl', heq', htext⟩ := hprep.2 _ hmem
    obtain rfl := hcomplete.unique hl hl' heq'
    refine ⟨text, htext, ?_⟩
    have hread := hrooted l.name hservice
    rw [hlookup, Option.getD_some] at hread
    exact hread

section Publish

variable (encode : Policy → Graph → Option (List UInt8) → Except Text (List UInt8))
  (sha256 : List UInt8 → Text)

/-- The stacks a policy is about, each with the name of its copy. -/
def generationCopies (host : Host) (policy : Policy) : Except Text (List (Text × Text)) := do
  let graph ← policy.services.foldlM (load host maxActive []) []
  let first := policy.services.head?.bind fun first => graph.find? fun l => l.name = first
  let label ← first.elim (.ok none) fun l => host.label l.path
  let encoded ← encode policy graph label
  .ok (copyNames (sha256 encoded) graph)

variable {encode sha256}

theorem publish_spec (hsha : ∀ b, isSha256Hex (sha256 b) = true) {host : Host}
    {dir : ViewDir} {policy : Policy} {view view' : View}
    (h : publish encode sha256 host dir policy view = .ok view') (hblocked : policy.blocked = true) :
    ∃ generation graph, isSha256Hex generation = true ∧
      generationCopies encode sha256 host policy = .ok (copyNames generation graph) ∧
      Published host policy graph (fun name => List.lookup name (copyNames generation graph)) view' := by
  unfold publish at h
  simp only [if_pos hblocked] at h
  obtain ⟨-, -, h⟩ := bind_ok_iff.1 h
  obtain ⟨graph, hgraph, h⟩ := bind_ok_iff.1 h
  obtain ⟨hcomplete, hbounded, hservices⟩ := services_spec hgraph
  split at h
  · cases h
  next first hfirst =>
  obtain ⟨label, hlabel, h⟩ := bind_ok_iff.1 h
  split at h
  · cases h
  obtain ⟨encoded, hencoded, h⟩ := bind_ok_iff.1 h
  obtain ⟨prepared, hprepared, h⟩ := bind_ok_iff.1 h
  obtain ⟨used, -, h⟩ := bind_ok_iff.1 h
  split at h
  · cases h
  obtain ⟨-, -, h⟩ := bind_ok_iff.1 h
  obtain ⟨copied, hcopied, h⟩ := bind_ok_iff.1 h
  obtain ⟨entries, -, h⟩ := bind_ok_iff.1 h
  obtain ⟨mirrored, hmirrored, h⟩ := bind_ok_iff.1 h
  obtain ⟨-, -, h⟩ := bind_ok_iff.1 h
  have hprep := prepared_of_mapM
    (fun l => List.mem_insertionSort (fun a b : Loaded => a.name ≤ b.name)) hprepared
  refine ⟨sha256 encoded, graph, hsha _, ?_,
    published_of_prepared hcomplete hbounded hservices hprep hcopied hmirrored h⟩
  refine bind_ok_iff.2 ⟨graph, hgraph, bind_ok_iff.2 ⟨label, ?_, bind_ok_iff.2 ⟨encoded, hencoded, rfl⟩⟩⟩
  rw [hfirst]
  exact hlabel

end Publish

end Irlume.Pam.Lightdm

import Irlume.Lib.EarlyExit
import Irlume.Pam.LightdmView

/-!
# The stacks a view is made of

What `load` leaves. Whatever is reached from a loaded stack by following targets is loaded, and no stack is
reached from itself.
-/

namespace Irlume.Pam.Lightdm

open Irlume.Lib

def Follows (read : Text → Option Text) (name target : Text) : Prop :=
  ∃ text, read name = some text ∧ ∃ l ∈ libpamLines text, includeTarget l = some target

/-! ## Lines of a readable stack -/

theorem includeTarget_of_directive {l l' : Text} (h : directive l = directive l') :
    includeTarget l = includeTarget l' := by
  rw [includeTarget_eq, includeTarget_eq, h]

theorem readWhole_of_readable {text : Text} (hcontinue : hasLineContinuation text = false)
    (hunread : unreadableLine text = none) : ∀ l ∈ text.splitOn '\n', ReadWhole l := by
  intro l hl
  have halone : continues l = false := by
    rw [hasLineContinuation_eq, List.any_eq_false] at hcontinue
    simpa using hcontinue l hl
  have hread : unread l = none := by
    rw [unreadableLine, hcontinue, if_neg Bool.false_ne_true, List.findSome?_eq_none_iff] at hunread
    obtain ⟨i, hi⟩ := List.mem_iff_getElem?.1 hl
    simpa using hunread (l, i) (List.mem_zipIdx_iff_getElem?.2 hi)
  unfold unread at hread
  split at hread
  · cases hread
  next hnul =>
  dsimp only at hread
  split at hread
  · cases hread
  split at hread
  · cases hread
  next hlen =>
  have htrim : trimCrs (directive l) = directive l :=
    (List.rdropWhile_prefix _ _).eq_of_length_le (Nat.not_lt.1 hlen)
  refine ⟨halone, fun hmem => hnul ?_, htrim ▸ getLast?_trimCrs (directive l)⟩
  exact (List.dropWhile_sublist _).subset ((List.takeWhile_sublist _).subset hmem)

theorem libpamLines_of_whole {text : Text} (h : ∀ l ∈ text.splitOn '\n', ReadWhole l) :
    libpamLines text = (text.splitOn '\n').map beforeNul :=
  joinLines_of_not_continues fun l hl => (h l hl).alone

theorem mem_libpamLines {text l : Text} (h : ∀ l ∈ text.splitOn '\n', ReadWhole l) :
    l ∈ libpamLines text ↔ ∃ piece ∈ text.splitOn '\n', beforeNul piece = l := by
  rw [libpamLines_of_whole h, List.mem_map]

theorem includeTarget_beforeNul {l : Text} (h : ReadWhole l) :
    includeTarget (beforeNul l) = includeTarget l :=
  includeTarget_of_directive (directive_beforeNul_of_not_mem h.nul)

theorem mem_lines_of_target {text piece target : Text} (h : ∀ l ∈ text.splitOn '\n', ReadWhole l)
    (hpiece : piece ∈ text.splitOn '\n') (htarget : includeTarget piece = some target) :
    ∃ l ∈ lines text, includeTarget l = some target := by
  have hsplit := List.dropLast_concat_getLast (List.splitOn_ne_nil '\n' text)
  rw [← hsplit] at hpiece
  rcases List.mem_append.1 hpiece with hmem | hlast
  · refine ⟨stripCr piece, List.mem_append_left _ (List.mem_map_of_mem hmem), ?_⟩
    rw [← htarget]
    exact includeTarget_of_directive (directive_stripCr (h piece (List.dropLast_subset _ hmem)).cr)
  · rw [List.mem_singleton] at hlast
    have hne : piece ≠ [] := by
      rintro rfl
      cases htarget
    refine ⟨piece, List.mem_append_right _ ?_, htarget⟩
    rw [Option.mem_toList, Option.filter_eq_some_iff]
    refine ⟨?_, by simpa using hne⟩
    rw [hlast, List.getLast?_eq_getLast_of_ne_nil (List.splitOn_ne_nil '\n' text)]

/-! ## What is loaded -/

/-- The stacks are the host's, can be read, and come each after those it includes. -/
structure Complete (host : Host) (graph : Graph) : Prop where
  found : ∀ l ∈ graph, host.find l.name = .ok (l.path, l.text)
  named : ∀ l ∈ graph, serviceName l.name = true
  whole : ∀ l ∈ graph, ∀ line ∈ l.text.splitOn '\n', ReadWhole line
  ordered : ∀ above l below, graph = above ++ l :: below → ∀ line ∈ lines l.text, ∀ target,
    includeTarget line = some target → Graph.has above target = true
  nodup : (graph.map (·.name)).Nodup

theorem complete_nil (host : Host) : Complete host [] := by
  refine ⟨nofun, nofun, nofun, ?_, List.nodup_nil⟩
  intro above l below h
  simp at h

variable {graph : Graph} {name : Text}

theorem Graph.has_iff :
    graph.has name = true ↔ ∃ l ∈ graph, l.name = name := by
  simp [Graph.has]

theorem Graph.has_append (added : Graph) (h : graph.has name = true) :
    Graph.has (graph ++ added) name = true := by
  rw [Graph.has, List.any_append, ← Graph.has, h, Bool.true_or]

structure Loads (host : Host) (active : List Text) (graph graph' : Graph) : Prop where
  grows : ∃ added, graph' = graph ++ added ∧ ∀ l ∈ added, l.name ∉ active
  complete : Complete host graph'
  bounded : graph'.length + active.length ≤ maxFiles

variable {host : Host} {active : List Text}

theorem Loads.refl (hcomplete : Complete host graph)
    (hbound : graph.length + active.length ≤ maxFiles) : Loads host active graph graph :=
  ⟨⟨[], (List.append_nil _).symm, nofun⟩, hcomplete, hbound⟩

theorem Loads.trans {graph mid graph' : Graph}
    (h : Loads host active graph mid) (h' : Loads host active mid graph') :
    Loads host active graph graph' := by
  obtain ⟨added, rfl, hadded⟩ := h.grows
  obtain ⟨more, rfl, hmore⟩ := h'.grows
  refine ⟨⟨added ++ more, List.append_assoc _ _ _, ?_⟩, h'.complete, h'.bounded⟩
  intro l hl
  rcases List.mem_append.1 hl with hl | hl
  · exact hadded l hl
  · exact hmore l hl

variable {graph graph' : Graph}

theorem Loads.has (h : Loads host active graph graph') (hname : graph.has name = true) :
    graph'.has name = true := by
  obtain ⟨added, rfl, -⟩ := h.grows
  exact graph.has_append added hname

theorem Complete.concat {loaded : Loaded} (h : Complete host graph)
    (hfound : host.find loaded.name = .ok (loaded.path, loaded.text))
    (hnamed : serviceName loaded.name = true)
    (hwhole : ∀ line ∈ loaded.text.splitOn '\n', ReadWhole line)
    (htargets : ∀ line ∈ lines loaded.text, ∀ target, includeTarget line = some target →
      graph.has target = true)
    (hnew : graph.has loaded.name = false) : Complete host (graph ++ [loaded]) := by
  refine ⟨?_, ?_, ?_, ?_, ?_⟩
  · intro l hl
    rcases List.mem_append.1 hl with hl | hl
    · exact h.found l hl
    · rw [List.mem_singleton.1 hl]
      exact hfound
  · intro l hl
    rcases List.mem_append.1 hl with hl | hl
    · exact h.named l hl
    · rw [List.mem_singleton.1 hl]
      exact hnamed
  · intro l hl
    rcases List.mem_append.1 hl with hl | hl
    · exact h.whole l hl
    · rw [List.mem_singleton.1 hl]
      exact hwhole
  · intro above l below heq
    rcases List.eq_nil_or_concat' below with rfl | ⟨below, last, rfl⟩
    · obtain ⟨rfl, hl⟩ := List.append_inj' heq rfl
      obtain rfl := (List.cons.inj hl).1
      exact htargets
    · rw [← List.cons_append, ← List.append_assoc] at heq
      exact h.ordered above l below (List.append_inj' heq rfl).1
  · rw [List.map_append, List.map_singleton, List.nodup_append]
    refine ⟨h.nodup, List.nodup_singleton _, ?_⟩
    intro name hmem name' hname' heq
    obtain ⟨l, hl, rfl⟩ := List.mem_map.1 hmem
    rw [List.mem_singleton] at hname'
    rw [Bool.eq_false_iff] at hnew
    exact hnew (Graph.has_iff.2 ⟨l, hl, heq.trans hname'⟩)

theorem foldlM_load {depth : Nat}
    (hload : ∀ {graph name graph'}, load host depth active graph name = .ok graph' →
      Complete host graph → graph.length + active.length ≤ maxFiles →
      Loads host active graph graph' ∧ graph'.has name = true)
    {ls : List Text}
    (h : (ls.foldlM (fun graph line =>
      match includeTarget line with
      | some target => load host depth active graph target
      | none => .ok graph) graph : Except Text Graph) = .ok graph')
    (hcomplete : Complete host graph) (hbound : graph.length + active.length ≤ maxFiles) :
    Loads host active graph graph' ∧
      ∀ line ∈ ls, ∀ target, includeTarget line = some target → graph'.has target = true := by
  induction ls generalizing graph with
  | nil =>
    cases h
    exact ⟨.refl hcomplete hbound, nofun⟩
  | cons line ls ih =>
    rw [List.foldlM_cons, bind_ok_iff] at h
    obtain ⟨mid, hmid, hrest⟩ := h
    have hfirst : Loads host active graph mid ∧
        ∀ target, includeTarget line = some target → mid.has target = true := by
      cases htarget : includeTarget line with
      | none =>
        rw [htarget] at hmid
        cases hmid
        exact ⟨.refl hcomplete hbound, nofun⟩
      | some target =>
        rw [htarget] at hmid
        obtain ⟨hloads, hhas⟩ := hload hmid hcomplete hbound
        refine ⟨hloads, fun target' heq => ?_⟩
        rw [← Option.some.inj heq]
        exact hhas
    obtain ⟨hloads, htargets⟩ := ih hrest hfirst.1.complete hfirst.1.bounded
    refine ⟨hfirst.1.trans hloads, fun l hl target htarget => ?_⟩
    rcases List.mem_cons.1 hl with rfl | hl
    · exact hloads.has (hfirst.2 target htarget)
    · exact htargets l hl target htarget

theorem load_spec {depth : Nat}
    (h : load host depth active graph name = .ok graph') (hcomplete : Complete host graph)
    (hbound : graph.length + active.length ≤ maxFiles) :
    Loads host active graph graph' ∧ graph'.has name = true := by
  induction depth generalizing active graph graph' name with
  | zero =>
    unfold load at h
    split at h
    · cases h
    split at h
    · cases h
    split at h
    · next hhas =>
      cases h
      exact ⟨.refl hcomplete hbound, hhas⟩
    split at h
    · cases h
    · cases h
  | succ depth ih =>
    unfold load at h
    split at h
    · cases h
    next hservice =>
    split at h
    · cases h
    split at h
    · next hhas =>
      cases h
      exact ⟨.refl hcomplete hbound, hhas⟩
    next hhas =>
    split at h
    · cases h
    next hroom =>
    obtain ⟨⟨path, text⟩, hfind, h⟩ := bind_ok_iff.1 h
    dsimp only at h
    split at h
    · cases h
    next hreadable =>
    obtain ⟨mid, hmid, h⟩ := bind_ok_iff.1 h
    cases h
    have hmore : graph.length + (name :: active).length ≤ maxFiles := by
      rw [List.length_cons]
      omega
    obtain ⟨hloads, htargets⟩ := foldlM_load ih hmid hcomplete hmore
    obtain ⟨added, rfl, hadded⟩ := hloads.grows
    rw [Bool.or_eq_true, not_or, Bool.not_eq_true, Option.not_isSome_iff_eq_none] at hreadable
    have hnew : Graph.has (graph ++ added) name = false := by
      rw [Bool.eq_false_iff]
      intro hmem
      obtain ⟨l, hl, rfl⟩ := Graph.has_iff.1 hmem
      rcases List.mem_append.1 hl with hl | hl
      · exact hhas (Graph.has_iff.2 ⟨l, hl, rfl⟩)
      · exact hadded l hl List.mem_cons_self
    refine ⟨⟨⟨added ++ [⟨name, path, text⟩], List.append_assoc _ _ _, ?_⟩, ?_, ?_⟩, ?_⟩
    · intro l hl
      rcases List.mem_append.1 hl with hl | hl
      · exact fun hmem => hadded l hl (List.mem_cons_of_mem _ hmem)
      · rw [List.mem_singleton.1 hl]
        assumption
    · exact hloads.complete.concat hfind (by simpa using hservice)
        (readWhole_of_readable hreadable.1 hreadable.2) htargets hnew
    · have hlen := hloads.bounded
      rw [List.length_cons] at hlen
      rw [List.length_append, List.length_singleton]
      omega
    · exact Graph.has_iff.2 ⟨_, List.mem_append_right _ (List.mem_singleton_self _), rfl⟩

theorem services_spec {services : List Text}
    (h : services.foldlM (load host maxActive []) [] = .ok graph) :
    Complete host graph ∧ graph.length ≤ maxFiles ∧ ∀ s ∈ services, graph.has s = true := by
  suffices hsuff : ∀ {start : Graph}, services.foldlM (load host maxActive []) start = .ok graph →
      Complete host start → start.length ≤ maxFiles →
      Loads host [] start graph ∧ ∀ s ∈ services, graph.has s = true by
    obtain ⟨hloads, hall⟩ := hsuff h (complete_nil host) (Nat.zero_le _)
    exact ⟨hloads.complete, hloads.bounded, hall⟩
  clear h
  induction services with
  | nil =>
    intro start h hcomplete hbound
    cases h
    exact ⟨.refl hcomplete hbound, nofun⟩
  | cons s services ih =>
    intro start h hcomplete hbound
    obtain ⟨mid, hmid, h⟩ := bind_ok_iff.1 h
    obtain ⟨hloads, hhas⟩ := load_spec hmid hcomplete hbound
    obtain ⟨hrest, hall⟩ := ih h hloads.complete hloads.bounded
    refine ⟨hloads.trans hrest, fun t ht => ?_⟩
    rcases List.mem_cons.1 ht with rfl | ht
    · exact hrest.has hhas
    · exact hall t ht

/-! ## What is reached -/

theorem Complete.text (h : Complete host graph) {l : Loaded}
    (hl : l ∈ graph) : host.text l.name = some l.text := by
  rw [Host.text, h.found l hl]

def Graph.rank (graph : Graph) (name : Text) : Nat := (graph.map (·.name)).idxOf name

theorem Complete.follows (h : Complete host graph) {name target : Text}
    (hhas : graph.has name = true) (hfollows : Follows host.text name target) :
    graph.has target = true ∧ graph.rank target < graph.rank name := by
  obtain ⟨l, hl, rfl⟩ := Graph.has_iff.1 hhas
  obtain ⟨text, htext, line, hline, htarget⟩ := hfollows
  rw [h.text hl, Option.some.injEq] at htext
  subst htext
  have hwhole := h.whole l hl
  obtain ⟨piece, hpiece, rfl⟩ := (mem_libpamLines hwhole).1 hline
  rw [includeTarget_beforeNul (hwhole piece hpiece)] at htarget
  obtain ⟨line, hmem, htarget⟩ := mem_lines_of_target hwhole hpiece htarget
  obtain ⟨above, below, rfl⟩ := List.append_of_mem hl
  have habove := h.ordered above l below rfl line hmem target htarget
  refine ⟨Graph.has_append _ habove, ?_⟩
  obtain ⟨m, hm, rfl⟩ := Graph.has_iff.1 habove
  have hin : m.name ∈ above.map (·.name) := List.mem_map_of_mem hm
  have hout : l.name ∉ above.map (·.name) := by
    have hnodup := h.nodup
    rw [List.map_append, List.map_cons, List.nodup_append] at hnodup
    exact fun hmem => hnodup.2.2 l.name hmem l.name List.mem_cons_self rfl
  rw [Graph.rank, Graph.rank, List.map_append, List.map_cons, List.idxOf_append_of_mem hin,
    List.idxOf_append_of_notMem hout, List.idxOf_cons_self, Nat.add_zero]
  exact List.idxOf_lt_length_iff.2 hin

end Irlume.Pam.Lightdm

import Irlume.Lib.Elimination
import Irlume.Uvc.Agreement

/-!
# The source graph of a VideoControl function

The units and terminals of a control block are its entities, and each names the entities it takes its input
from. `sourceGraphIsSound` is an elimination (`Lib.Elimination`): an entity is placed when its sources are.
-/

namespace Irlume.Uvc

open Irlume.Lib Irlume.Lib.Elimination
open Std (ExtTreeMap)

variable {entities : Entities} {placed : Finset UInt8} {result : Bool}

def sourcesOf (entities : Entities) : List (UInt8 × List UInt8) := entities.toList.map fun e => (e.1, e.2.2)

/-- The entity `id` takes its input from `source`. -/
def ReadsFrom (entities : Entities) (source id : UInt8) : Prop :=
  ∃ (subtype : UInt8) (sources : List UInt8), entities[id]? = some (subtype, sources) ∧ source ∈ sources

/-- There is an entity `id`, and it is not an output terminal. -/
def HasOutput (entities : Entities) (id : UInt8) : Prop :=
  ∃ (subtype : UInt8) (sources : List UInt8), entities[id]? = some (subtype, sources) ∧ subtype ≠ 3

/-- A graph whose entities are all fed, by others that have an output, and in which none is behind itself. -/
structure SoundGraph (entities : Entities) : Prop where
  fed : ∀ (id subtype : UInt8) (sources : List UInt8), entities[id]? = some (subtype, sources) → subtype ≠ 2 →
    sources ≠ []
  fits : ∀ id source, ReadsFrom entities source id → source ≠ 0 ∧ source ≠ id ∧ HasOutput entities source
  acyclic : ∀ id, ¬ Relation.TransGen (ReadsFrom entities) id id

/-- `source_graph_is_sound` ends with this result; nothing bounds the passes of its loop. -/
def SourceGraphEnds (entities : Entities) (result : Bool) : Prop :=
  if entities.toList.all fun e => sourcesFit entities e.1 e.2.1 e.2.2 then Eliminates (sourcesOf entities) ∅ result
  else result = false

/-! ## The entities as nodes -/

theorem mem_sourcesOf {id : UInt8} {sources : List UInt8} :
    (id, sources) ∈ sourcesOf entities ↔ ∃ subtype, entities[id]? = some (subtype, sources) := by
  unfold sourcesOf
  rw [List.mem_map]
  constructor
  · rintro ⟨⟨id', subtype, sources'⟩, hmem, heq⟩
    cases heq
    exact ⟨subtype, ExtTreeMap.mem_toList_iff_getElem?_eq_some.1 hmem⟩
  · rintro ⟨subtype, hget⟩
    exact ⟨(id, subtype, sources), ExtTreeMap.mem_toList_iff_getElem?_eq_some.2 hget, rfl⟩

theorem length_sourcesOf : (sourcesOf entities).length = entities.size := by
  unfold sourcesOf
  rw [List.length_map, ExtTreeMap.length_toList]

theorem map_fst_sourcesOf : (sourcesOf entities).map Prod.fst = entities.keys := by
  unfold sourcesOf
  rw [List.map_map, ← ExtTreeMap.map_fst_toList_eq_keys]
  rfl

theorem needs_sourcesOf {source id : UInt8} : Needs (sourcesOf entities) source id ↔ ReadsFrom entities source id := by
  constructor
  · rintro ⟨sources, hmem, hsource⟩
    obtain ⟨subtype, hget⟩ := mem_sourcesOf.1 hmem
    exact ⟨subtype, sources, hget, hsource⟩
  · rintro ⟨subtype, sources, hget, hsource⟩
    exact ⟨sources, mem_sourcesOf.2 ⟨subtype, hget⟩, hsource⟩

theorem needs_eq_readsFrom : Needs (sourcesOf entities) = ReadsFrom entities := by
  funext source id
  exact propext needs_sourcesOf

theorem placeEntities_eq_pass : placeEntities entities placed = pass (sourcesOf entities) placed := by
  unfold placeEntities Elimination.pass sourcesOf
  rw [List.foldl_map]
  rfl

/-! ## Sources that fit -/

theorem sourcesFit_iff {id subtype : UInt8} {sources : List UInt8} :
    sourcesFit entities id subtype sources = true ↔ (subtype ≠ 2 → sources ≠ []) ∧
      ∀ source ∈ sources, source ≠ 0 ∧ source ≠ id ∧ HasOutput entities source := by
  unfold sourcesFit
  rw [Bool.and_eq_true, List.all_eq_true]
  refine and_congr ?_ (forall₂_congr fun source _ => ?_)
  · rw [Bool.not_eq_true', Bool.and_eq_false_imp, decide_eq_true_iff]
    exact imp_congr_right fun _ => by rw [List.isEmpty_eq_false_iff]
  · rw [Bool.and_eq_true, Bool.and_eq_true, decide_eq_true_iff, decide_eq_true_iff, and_assoc]
    refine and_congr_right fun _ => and_congr_right fun _ => ?_
    unfold HasOutput
    rcases entities[source]? with _ | ⟨subtype, sources⟩
    · simp
    · simp

theorem all_sourcesFit_iff : (entities.toList.all fun e => sourcesFit entities e.1 e.2.1 e.2.2) = true ↔
    (∀ (id subtype : UInt8) (sources : List UInt8), entities[id]? = some (subtype, sources) → subtype ≠ 2 →
        sources ≠ []) ∧
      ∀ id source, ReadsFrom entities source id → source ≠ 0 ∧ source ≠ id ∧ HasOutput entities source := by
  rw [List.all_eq_true]
  constructor
  · intro hall
    have hfit : ∀ (id subtype : UInt8) (sources : List UInt8), entities[id]? = some (subtype, sources) →
        sourcesFit entities id subtype sources = true := fun id subtype sources hget =>
      hall (id, subtype, sources) (ExtTreeMap.mem_toList_iff_getElem?_eq_some.2 hget)
    constructor
    · intro id subtype sources hget
      exact (sourcesFit_iff.1 (hfit id subtype sources hget)).1
    · rintro id source ⟨subtype, sources, hget, hsource⟩
      exact (sourcesFit_iff.1 (hfit id subtype sources hget)).2 source hsource
  · rintro ⟨hfed, hfits⟩ ⟨id, subtype, sources⟩ hmem
    have hget := ExtTreeMap.mem_toList_iff_getElem?_eq_some.1 hmem
    exact sourcesFit_iff.2 ⟨hfed id subtype sources hget,
      fun source hsource => hfits id source ⟨subtype, sources, hget, hsource⟩⟩

theorem closed_sourcesOf (h : (entities.toList.all fun e => sourcesFit entities e.1 e.2.1 e.2.2) = true) :
    Closed (sourcesOf entities) := by
  obtain ⟨-, hfits⟩ := all_sourcesFit_iff.1 h
  refine ⟨?_, ?_⟩
  · rw [map_fst_sourcesOf]
    exact ExtTreeMap.nodup_keys
  · rintro ⟨id, sources⟩ hmem source hsource
    obtain ⟨subtype, hget⟩ := mem_sourcesOf.1 hmem
    obtain ⟨-, -, subtype', sources', hget', -⟩ := hfits id source ⟨subtype, sources, hget, hsource⟩
    exact List.mem_map.2 ⟨(source, sources'), mem_sourcesOf.2 ⟨subtype', hget'⟩, rfl⟩

/-! ## The loop -/

theorem placeAll_eliminates {n : Nat} (hc : Closed (sourcesOf entities)) (hp : Placed (sourcesOf entities) placed)
    (hn : entities.size ≤ n + placed.card) : Eliminates (sourcesOf entities) placed (placeAll entities n placed) := by
  induction n generalizing placed with
  | zero =>
    have hcard := (hp.pass hc).card_le
    have hmore := Finset.card_le_card (@subset_pass _ _ (sourcesOf entities) placed)
    rw [length_sourcesOf] at hcard
    have hall : (pass (sourcesOf entities) placed).card = entities.size := by omega
    have htrue : placeAll entities 0 placed = true := by
      unfold placeAll
      rw [placeEntities_eq_pass]
      exact decide_eq_true hall
    rw [htrue]
    exact .all (hall.trans length_sourcesOf.symm)
  | succ n ih =>
    unfold placeAll
    dsimp only
    rw [placeEntities_eq_pass]
    by_cases hall : (pass (sourcesOf entities) placed).card = entities.size
    · rw [if_pos hall]
      exact .all (hall.trans length_sourcesOf.symm)
    · rw [if_neg hall]
      rw [← length_sourcesOf] at hall
      by_cases hsame : (pass (sourcesOf entities) placed).card = placed.card
      · rw [if_pos hsame]
        exact .stuck hall hsame
      · rw [if_neg hsame]
        have hmore := Finset.card_le_card (@subset_pass _ _ (sourcesOf entities) placed)
        exact .again hall hsame (ih (hp.pass hc) (by omega))

theorem sourceGraphEnds_iff : SourceGraphEnds entities result ↔ result = sourceGraphIsSound entities := by
  unfold SourceGraphEnds sourceGraphIsSound
  split
  · next hfits =>
    have hc := closed_sourcesOf hfits
    have hends : Eliminates (sourcesOf entities) ∅ (placeAll entities entities.size ∅) :=
      placeAll_eliminates hc placed_empty (by omega)
    rw [hfits, Bool.true_and]
    constructor
    · exact fun h => h.unique hends
    · rintro rfl
      exact hends
  · next hfits => rw [Bool.eq_false_iff.2 hfits, Bool.false_and]

/-- Exactly the maps are accepted that are a graph fed by input terminals. -/
theorem sourceGraphIsSound_iff : sourceGraphIsSound entities = true ↔ SoundGraph entities := by
  unfold sourceGraphIsSound
  rw [Bool.and_eq_true]
  constructor
  · rintro ⟨hfits, hplaced⟩
    have hc := closed_sourcesOf hfits
    have hends := placeAll_eliminates hc placed_empty (by omega : entities.size ≤ entities.size + (∅ : Finset UInt8).card)
    have hacyclic := (eliminates_true_iff_acyclic hc hends).1 hplaced
    rw [needs_eq_readsFrom] at hacyclic
    obtain ⟨hfed, hfit⟩ := all_sourcesFit_iff.1 hfits
    exact ⟨hfed, hfit, hacyclic⟩
  · intro h
    have hfits := all_sourcesFit_iff.2 ⟨h.fed, h.fits⟩
    have hc := closed_sourcesOf hfits
    have hends := placeAll_eliminates hc placed_empty (by omega : entities.size ≤ entities.size + (∅ : Finset UInt8).card)
    refine ⟨hfits, (eliminates_true_iff_acyclic hc hends).2 ?_⟩
    rw [needs_eq_readsFrom]
    exact h.acyclic

theorem SoundGraph.fed_by_input (h : SoundGraph entities) {id : UInt8} {e : UInt8 × List UInt8}
    (he : entities[id]? = some e) :
    ∃ input sources, Relation.ReflTransGen (ReadsFrom entities) input id ∧ entities[input]? = some (2, sources) := by
  have hc := closed_sourcesOf (all_sourcesFit_iff.2 ⟨h.fed, h.fits⟩)
  have hlisted : id ∈ (sourcesOf entities).map Prod.fst := by
    exact List.mem_map.2 ⟨(id, e.2), mem_sourcesOf.2 ⟨e.1, he⟩, rfl⟩
  have hacc : Acc (Needs (sourcesOf entities)) id := by
    refine acc_of_acyclic hc ?_ id hlisted
    rw [needs_eq_readsFrom]
    exact h.acyclic
  let input : UInt8 → Prop := fun id => ∃ sources, entities[id]? = some (2, sources)
  have hroot : ∀ e ∈ sourcesOf entities, input e.1 ∨ e.2 ≠ [] := by
    rintro ⟨id, sources⟩ hmem
    obtain ⟨subtype, hget⟩ := mem_sourcesOf.1 hmem
    by_cases hinput : subtype = 2
    · obtain rfl := hinput
      exact .inl ⟨sources, hget⟩
    · exact .inr (h.fed id subtype sources hget hinput)
  obtain ⟨input, hreads, -, sources, hget⟩ := exists_root hc hroot hacc hlisted
  rw [needs_eq_readsFrom] at hreads
  exact ⟨input, sources, hreads, hget⟩

/-! ## The entities of a walk -/

namespace WalkState

variable {s s' : WalkState} {d : List UInt8} {interfaceNumber id : UInt8} {e : UInt8 × List UInt8}

/-- The descriptor, read where `s` is, is a terminal or unit of the control block: `id` with this entry. -/
def Declares (s : WalkState) (d : List UInt8) (id : UInt8) (e : UInt8 × List UInt8) : Prop :=
  byte d 1 = descCsInterface ∧ s.inTargetVc = true ∧ 2 ≤ byte d 2 ∧ byte d 2 ≤ 7 ∧ id = byte d 3 ∧
    e = (byte d 2, namedSources d)

theorem namedSources_of_subtype (h : s.subtype d = some s') (hout : ¬ (2 ≤ byte d 2 ∧ byte d 2 ≤ 7)) :
    namedSources d = [] := by
  unfold subtype at h
  split at h
  · next hkind =>
    unfold namedSources
    rw [hkind]
    rfl
  iterate 6
    split at h
    · next hkind =>
      rw [hkind] at hout
      exact absurd (by decide) hout
  cases h

theorem addEntity_entities (h : s.addEntity d = some s') :
    (¬ (2 ≤ byte d 2 ∧ byte d 2 ≤ 7) ∧ s'.entities = s.entities) ∨
      ((2 ≤ byte d 2 ∧ byte d 2 ≤ 7) ∧ s.entities[byte d 3]? = none ∧
        s'.entities = s.entities.insert (byte d 3) (byte d 2, [])) := by
  unfold addEntity at h
  split at h
  · next hkind =>
    obtain ⟨id', hid, h⟩ := Option.bind_eq_some_iff.1 h
    obtain rfl := byte_eq_of_getElem? hid
    split at h
    · cases h
    · next hfresh =>
      cases h
      exact .inr ⟨hkind, ExtTreeMap.getElem?_eq_none fun hin => hfresh (.inr hin), rfl⟩
  · next hkind =>
    cases h
    exact .inl ⟨hkind, rfl⟩

theorem control_entities (h : s.control d = some s') (id : UInt8) (e : UInt8 × List UInt8) :
    s'.entities[id]? = some e ↔
      s.entities[id]? = some e ∨
        2 ≤ byte d 2 ∧ byte d 2 ≤ 7 ∧ id = byte d 3 ∧ e = (byte d 2, namedSources d) := by
  obtain ⟨t, ht, hsubtype⟩ : ∃ t, ({ s with blockLength := s.blockLength + d.length } : WalkState).addEntity d = some t ∧
      t.subtype d = some s' := by
    unfold control at h
    dsimp only at h
    split at h
    · cases h
    split at h
    · cases h
    exact Option.bind_eq_some_iff.1 h
  have happends : s'.entities[id]? = _ := (subtype_reads hsubtype).elim
    (fun ⟨_, _, _, hreads⟩ => hreads.sources id) fun ⟨_, hreads⟩ => hreads.sources id
  rw [happends]
  rcases addEntity_entities ht with ⟨hkind, hsame⟩ | ⟨hkind, hfresh, hadded⟩
  · rw [hsame, namedSources_of_subtype hsubtype hkind]
    have hnot : ¬ (2 ≤ byte d 2 ∧ byte d 2 ≤ 7 ∧ id = byte d 3 ∧ e = (byte d 2, [])) := by
      exact fun hdeclared => hkind ⟨hdeclared.1, hdeclared.2.1⟩
    rw [or_iff_left hnot]
    cases s.entities[id]? with
    | none => simp
    | some e => simp
  · rw [hadded, getElem?_insert_entity]
    obtain ⟨hlow, hhigh⟩ := hkind
    have hfresh : s.entities[byte d 3]? = none := hfresh
    by_cases hid : id = byte d 3
    · obtain rfl := hid
      rw [if_pos rfl, hfresh, Option.map_some, if_pos rfl]
      simp [hlow, hhigh, eq_comm]
    · rw [if_neg hid]
      show (s.entities[id]?).map _ = some e ↔ _
      cases s.entities[id]? with
      | none => simp [hid]
      | some e' => simp [hid]

/-! ### The walk -/

theorem step_entities_other (h : s.step interfaceNumber d = some s')
    (hother : ¬ (byte d 1 = descCsInterface ∧ s.inTargetVc = true)) : s'.entities = s.entities := by
  unfold step at h
  split at h
  · unfold configuration at h
    split at h
    · cases h
    · cases h
      rfl
  split at h
  · unfold interface at h
    split at h
    · cases h
    split at h
    · cases h
    split at h
    · cases h
    dsimp only at h
    split at h
    · cases h
    · cases h
      rfl
  split at h
  · unfold endpoint at h
    split at h
    · cases h
    split at h
    · cases h
    · cases h
      rfl
  split at h
  · cases h
    rfl
  · cases h
    rfl

theorem step_entities (h : s.step interfaceNumber d = some s') (id : UInt8) (e : UInt8 × List UInt8) :
    s'.entities[id]? = some e ↔ s.entities[id]? = some e ∨ s.Declares d id e := by
  by_cases hcontrol : byte d 1 = descCsInterface ∧ s.inTargetVc = true
  · have hstep : s.step interfaceNumber d = s.control d := by
      unfold step
      rw [hcontrol.1, if_neg (by decide), if_neg (by decide), if_pos ⟨rfl, hcontrol.2⟩]
    rw [hstep] at h
    rw [control_entities h id e]
    unfold Declares
    simp only [hcontrol, true_and]
  · rw [step_entities_other h hcontrol, or_iff_left fun hdeclares => hcontrol ⟨hdeclares.1, hdeclares.2.1⟩]

theorem run_entities {ds : List (List UInt8)} (h : ds.foldlM (step interfaceNumber) s = some s') (id : UInt8)
    (e : UInt8 × List UInt8) :
    s'.entities[id]? = some e ↔ s.entities[id]? = some e ∨
      ∃ before d after t, ds = before ++ d :: after ∧ before.foldlM (step interfaceNumber) s = some t ∧
        t.Declares d id e := by
  induction ds generalizing s with
  | nil =>
    cases h
    simp
  | cons d ds ih =>
    rw [List.foldlM_cons] at h
    obtain ⟨m, hm, h⟩ := Option.bind_eq_some_iff.1 h
    rw [ih h, step_entities hm id e, or_assoc]
    refine or_congr_right ?_
    constructor
    · rintro (hdeclares | ⟨before, d', after, t, rfl, hbefore, hdeclares⟩)
      · exact ⟨[], d, ds, s, rfl, rfl, hdeclares⟩
      · refine ⟨d :: before, d', after, t, rfl, ?_, hdeclares⟩
        rw [List.foldlM_cons, hm]
        exact hbefore
    · rintro ⟨_ | ⟨d₁, before⟩, d', after, t, heq, hbefore, hdeclares⟩
      · cases heq
        cases hbefore
        exact .inl hdeclares
      · cases heq
        rw [List.foldlM_cons, hm] at hbefore
        exact .inr ⟨before, d', after, t, rfl, hbefore, hdeclares⟩

end WalkState

/-! ## What the walk accepts -/

section

variable {desc : List UInt8} {interfaceNumber : UInt8}

/-- The walk of the descriptor reads the terminal or unit `id`, with this subtype and these sources. -/
def Declares (desc : List UInt8) (interfaceNumber id : UInt8) (e : UInt8 × List UInt8) : Prop :=
  ∃ before d after s, frames desc = some (before ++ d :: after) ∧
    before.foldlM (WalkState.step interfaceNumber) {} = some s ∧ s.Declares d id e

/-- The terminal or unit `id` names `source`. -/
def Names (desc : List UInt8) (interfaceNumber source id : UInt8) : Prop :=
  ∃ subtype sources, Declares desc interfaceNumber id (subtype, sources) ∧ source ∈ sources

/-- The entities of a walk are what the descriptors of the control block declare. -/
theorem entities_of_walk {s : WalkState} (h : walk (WalkState.step interfaceNumber) {} desc = some s) {id : UInt8}
    {e : UInt8 × List UInt8} : s.entities[id]? = some e ↔ Declares desc interfaceNumber id e := by
  obtain ⟨ds, hframes, hrun⟩ := Option.bind_eq_some_iff.1 h
  have hempty : ({} : WalkState).entities[id]? ≠ some e := by
    show (∅ : Entities)[id]? ≠ some e
    rw [ExtTreeMap.getElem?_empty]
    exact nofun
  rw [WalkState.run_entities hrun id e, or_iff_right hempty]
  unfold Declares
  rw [hframes]
  constructor
  · rintro ⟨before, d, after, t, rfl, hbefore, hdeclares⟩
    exact ⟨before, d, after, t, rfl, hbefore, hdeclares⟩
  · rintro ⟨before, d, after, t, heq, hbefore, hdeclares⟩
    exact ⟨before, d, after, t, Option.some.inj heq, hbefore, hdeclares⟩

theorem sourceGraphIsSound_of_finish {s : WalkState} {function : VideoControlFunction}
    (h : s.finish = some (.function function)) : sourceGraphIsSound s.entities = true := by
  unfold WalkState.finish at h
  split at h
  · cases h
  split at h
  · cases h
  split at h
  · cases h
  split at h
  · cases h
  split at h
  · cases h
  split at h
  · cases h
  · next hsound => simpa using hsound

theorem fed_by_input_of_walk {function : VideoControlFunction}
    (h : videoControlWalk desc interfaceNumber = some (.function function)) {id : UInt8} {e : UInt8 × List UInt8}
    (hdeclares : Declares desc interfaceNumber id e) :
    ∃ input sources, Relation.ReflTransGen (Names desc interfaceNumber) input id ∧
      Declares desc interfaceNumber input (2, sources) := by
  obtain ⟨s, hwalk, hfinish⟩ := Option.bind_eq_some_iff.1 h
  have hsound := sourceGraphIsSound_iff.1 (sourceGraphIsSound_of_finish hfinish)
  have hnames : ReadsFrom s.entities = Names desc interfaceNumber := by
    funext source id
    refine propext (exists₂_congr fun subtype sources => ?_)
    rw [entities_of_walk hwalk]
  obtain ⟨input, sources, hreads, hinput⟩ := hsound.fed_by_input ((entities_of_walk hwalk).2 hdeclares)
  rw [hnames] at hreads
  exact ⟨input, sources, hreads, (entities_of_walk hwalk).1 hinput⟩

end

/-- **An accepted function is a graph fed by input terminals.** For every entity map `source_graph_is_sound` ends, and
it accepts exactly the maps in which each entity but the input terminals has a source, each source is an ID other than
zero of another entity that has an output, and none is behind itself. So from every terminal and unit of a function
that the walk yields, one comes to an input terminal by following sources. -/
theorem sourceGraph_exact :
    (∀ entities result, SourceGraphEnds entities result ↔ result = sourceGraphIsSound entities) ∧
      (∀ entities, sourceGraphIsSound entities = true ↔ SoundGraph entities) ∧
      ∀ desc interfaceNumber function, videoControlWalk desc interfaceNumber = some (.function function) →
        ∀ id e, Declares desc interfaceNumber id e →
          ∃ input sources, Relation.ReflTransGen (Names desc interfaceNumber) input id ∧
            Declares desc interfaceNumber input (2, sources) := by
  refine ⟨fun entities result => sourceGraphEnds_iff, fun entities => sourceGraphIsSound_iff, ?_⟩
  intro desc interfaceNumber function hwalk id e hdeclares
  exact fed_by_input_of_walk hwalk hdeclares

/-- The output terminal of a camera whose one unit reads a camera terminal. -/
theorem sourceGraph_exact_laptop : ∃ input sources,
    Relation.ReflTransGen (Names laptopCamera.descriptors 0) input 2 ∧
      Declares laptopCamera.descriptors 0 input (2, sources) := by
  obtain ⟨f, hf⟩ : ∃ f, videoControlWalk laptopCamera.descriptors 0 = some (.function f) := by
    have hfunction : (videoControlWalk laptopCamera.descriptors 0).map VideoControlWalk.ctorIdx = some 0 := by
      decide
    obtain ⟨found, hfound, hindex⟩ := Option.map_eq_some_iff.1 hfunction
    cases found with
    | function f => exact ⟨f, hfound⟩
    | notVideoControl => cases hindex
  have hdeclares : Declares laptopCamera.descriptors 0 2 (3, [4]) := by
    have hentity : (walk (WalkState.step 0) {} laptopCamera.descriptors).map (fun s => s.entities[(2 : UInt8)]?) =
        some (some (3, [4])) := by decide
    obtain ⟨s, hwalk, hget⟩ := Option.map_eq_some_iff.1 hentity
    exact (entities_of_walk hwalk).1 hget
  exact sourceGraph_exact.2.2 laptopCamera.descriptors 0 f hf 2 (3, [4]) hdeclares

/-- An entity map may have an ID of zero, and a source that names it is refused. -/
theorem not_sourceGraphIsSound_of_graph : ¬ ∀ entities, sourceGraphIsSound entities = true ↔
    (∀ (id subtype : UInt8) (sources : List UInt8), entities[id]? = some (subtype, sources) → subtype ≠ 2 →
        sources ≠ []) ∧
      (∀ id source, ReadsFrom entities source id → source ≠ id ∧ HasOutput entities source) ∧
      ∀ id, ¬ Relation.TransGen (ReadsFrom entities) id id := by
  intro h
  let entities : Entities := ((∅ : Entities).insert 0 (2, [])).insert 1 (3, [0])
  have hget : ∀ id : UInt8, entities[id]? = if id = 1 then some (3, [0]) else if id = 0 then some (2, []) else none := by
    intro id
    rw [getElem?_insert_entity, getElem?_insert_entity, ExtTreeMap.getElem?_empty]
  have hreads : ∀ id source, ReadsFrom entities source id → id = 1 ∧ source = 0 := by
    rintro id source ⟨subtype, sources, hid, hsource⟩
    rw [hget] at hid
    split at hid
    · next hone =>
      obtain ⟨-, rfl⟩ := Prod.mk.inj (Option.some.inj hid)
      exact ⟨hone, List.mem_singleton.1 hsource⟩
    split at hid
    · obtain ⟨-, rfl⟩ := Prod.mk.inj (Option.some.inj hid)
      cases hsource
    · cases hid
  have hrefused : sourceGraphIsSound entities = false := by decide
  have htrue := (h entities).2 ⟨?_, ?_, ?_⟩
  · rw [hrefused] at htrue
    cases htrue
  · intro id subtype sources hid hinput
    rw [hget] at hid
    split at hid
    · obtain ⟨-, rfl⟩ := Prod.mk.inj (Option.some.inj hid)
      exact List.cons_ne_nil _ _
    split at hid
    · obtain ⟨rfl, -⟩ := Prod.mk.inj (Option.some.inj hid)
      exact absurd rfl hinput
    · cases hid
  · intro id source hsource
    obtain ⟨rfl, rfl⟩ := hreads id source hsource
    refine ⟨by decide, 2, [], ?_, by decide⟩
    rw [hget]
    rfl
  · intro id hself
    obtain ⟨b, hfirst, -⟩ := Relation.TransGen.head'_iff.1 hself
    obtain ⟨c, -, hlast⟩ := Relation.TransGen.tail'_iff.1 hself
    have hzero := (hreads _ _ hfirst).2
    have hone := (hreads _ _ hlast).1
    rw [hzero] at hone
    exact absurd hone (by decide)

end Irlume.Uvc

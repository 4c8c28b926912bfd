import Irlume.Uvc.VideoControl

/-!
# The role parser and the write path agree

The strict walk carries what the write path's walk carries and more: all descriptors but extension units leave
it alone. So a function it accepts has the units the write path finds, and what it attests of the Microsoft unit
holds of the unit that would be written.
-/

namespace Irlume.Uvc

open Irlume.Lib

theorem getElem?_insert_entity {entities : Entities} {id id' : UInt8} {e : UInt8 × List UInt8} :
    (entities.insert id e)[id']? = if id' = id then some e else entities[id']? := by
  rw [Std.ExtTreeMap.getElem?_insert]
  by_cases h : id' = id
  · rw [if_pos h, if_pos (Std.compare_eq_iff_eq.2 h.symm)]
  · rw [if_neg h, if_neg fun hcompare => h (Std.compare_eq_iff_eq.1 hcompare).symm]

/-- The sources a terminal or unit names: each kind has them at a place of its own. -/
def namedSources (d : List UInt8) : List UInt8 :=
  if byte d 2 = subtypeProcessingUnit ∨ byte d 2 = subtypeEncodingUnit then [byte d 4]
  else if byte d 2 = subtypeOutputTerminal then [byte d 7]
  else if byte d 2 = subtypeSelectorUnit then (d.drop 5).take (byte d 4).toNat
  else if byte d 2 = subtypeExtensionUnit then (d.drop 22).take (byte d 21).toNat
  else []

namespace WalkState

variable {s s' : WalkState} {d : List UInt8} {interfaceNumber : UInt8}

def unitWalk (s : WalkState) : UnitWalk :=
  { out := s.extensionUnits, inTargetVc := s.inTargetVc, configurations := s.configurations }

@[simp]
theorem unitWalk_inTargetVc : s.unitWalk.inTargetVc = s.inTargetVc := rfl

@[simp]
theorem unitWalk_configurations : s.unitWalk.configurations = s.configurations := rfl

/-! ## Terminals and units -/

theorem addEntity_unitWalk (h : s.addEntity d = some s') : s'.unitWalk = s.unitWalk := by
  unfold addEntity at h
  split at h
  · obtain ⟨id, -, h⟩ := Option.bind_eq_some_iff.1 h
    split at h
    · cases h
    · cases h
      rfl
  · cases h
    rfl

theorem byte_eq_of_getElem? {i : Nat} {b : UInt8} (h : d[i]? = some b) : byte d i = b := by
  unfold byte
  rw [List.getD_eq_getElem?_getD, h, Option.getD_some]

/-- What a descriptor adds: extension units, and sources of the terminal or unit it declares. -/
structure Reads (s s' : WalkState) (d : List UInt8) (units : List ExtensionUnit) (sources : List UInt8) : Prop where
  units : s'.unitWalk = { s.unitWalk with out := s.unitWalk.out ++ units }
  sources : ∀ id : UInt8,
    s'.entities[id]? = (s.entities[id]?).map fun e => if id = byte d 3 then (e.1, e.2 ++ sources) else e

theorem reads_nothing (hunits : s'.unitWalk = s.unitWalk) (hentities : s'.entities = s.entities) :
    Reads s s' d [] [] where
  units := by rw [hunits, List.append_nil]
  sources id := by
    rw [hentities]
    cases s.entities[id]? with
    | none => rfl
    | some e => simp

theorem addSources_reads {sources : List UInt8} (h : s.addSources d sources = some s') :
    Reads s s' d [] sources := by
  obtain ⟨e, he, rfl⟩ := Option.map_eq_some_iff.1 h
  refine ⟨by rw [List.append_nil]; rfl, fun id => ?_⟩
  show (s.entities.insert (byte d 3) (e.1, e.2 ++ sources))[id]? = _
  rw [getElem?_insert_entity]
  by_cases hid : id = byte d 3
  · obtain rfl := hid
    rw [if_pos rfl, he, Option.map_some, if_pos rfl]
  · rw [if_neg hid]
    cases s.entities[id]? with
    | none => rfl
    | some e' => rw [Option.map_some, if_neg hid]

theorem header_reads (h : s.header d = some s') : Reads s s' d [] [] := by
  obtain ⟨version, -, h⟩ := Option.bind_eq_some_iff.1 h
  dsimp only at h
  split at h
  · cases h
  · obtain ⟨total, -, h⟩ := Option.bind_eq_some_iff.1 h
    obtain ⟨count, -, h⟩ := Option.bind_eq_some_iff.1 h
    obtain ⟨interfaces, -, h⟩ := Option.bind_eq_some_iff.1 h
    cases h
    exact reads_nothing rfl rfl

theorem processingUnit_reads (h : s.processingUnit d = some s') : Reads s s' d [] [byte d 4] := by
  obtain ⟨size, -, h⟩ := Option.bind_eq_some_iff.1 h
  obtain ⟨version, -, h⟩ := Option.bind_eq_some_iff.1 h
  dsimp only at h
  split at h
  · cases h
  · obtain ⟨controls, -, h⟩ := Option.bind_eq_some_iff.1 h
    have hreads := addSources_reads h
    exact ⟨hreads.units, hreads.sources⟩

theorem inputTerminal_reads (h : s.inputTerminal d = some s') : Reads s s' d [] [] := by
  obtain ⟨minimum, -, h⟩ := Option.bind_eq_some_iff.1 h
  dsimp only at h
  split at h
  · cases h
  · cases h
    exact reads_nothing rfl rfl

theorem outputTerminal_reads (h : s.outputTerminal d = some s') : Reads s s' d [] [byte d 7] := by
  unfold outputTerminal at h
  split at h
  · cases h
  · exact addSources_reads h

theorem selectorUnit_reads (h : s.selectorUnit d = some s') :
    Reads s s' d [] ((d.drop 5).take (byte d 4).toNat) := by
  obtain ⟨pins, hpins, h⟩ := Option.bind_eq_some_iff.1 h
  dsimp only at h
  split at h
  · cases h
  · rw [byte_eq_of_getElem? hpins]
    exact addSources_reads h

theorem encodingUnit_reads (h : s.encodingUnit d = some s') : Reads s s' d [] [byte d 4] := by
  obtain ⟨version, -, h⟩ := Option.bind_eq_some_iff.1 h
  dsimp only at h
  split at h
  · cases h
  · obtain ⟨size, -, h⟩ := Option.bind_eq_some_iff.1 h
    split at h
    · cases h
    · exact addSources_reads h

theorem extensionUnit_reads (h : s.extensionUnit d = some s') :
    ∃ unit, parseExtensionUnit d = some unit ∧
      Reads s s' d [unit] ((d.drop 22).take (byte d 21).toNat) := by
  obtain ⟨pins, hpins, h⟩ := Option.bind_eq_some_iff.1 h
  obtain ⟨size, -, h⟩ := Option.bind_eq_some_iff.1 h
  dsimp only at h
  split at h
  · cases h
  · obtain ⟨unit, hunit, h⟩ := Option.bind_eq_some_iff.1 h
    have hreads := addSources_reads h
    rw [byte_eq_of_getElem? hpins]
    exact ⟨unit, hunit, hreads.units.trans (by rw [List.append_nil]; rfl), hreads.sources⟩

theorem subtype_reads (h : s.subtype d = some s') :
    (byte d 2 = subtypeExtensionUnit ∧ ∃ unit, parseExtensionUnit d = some unit ∧
        Reads s s' d [unit] (namedSources d)) ∨
      (byte d 2 ≠ subtypeExtensionUnit ∧ Reads s s' d [] (namedSources d)) := by
  have hother : ∀ {kind : UInt8} {sources : List UInt8}, byte d 2 = kind → kind ≠ subtypeExtensionUnit →
      namedSources d = sources → Reads s s' d [] sources →
      byte d 2 ≠ subtypeExtensionUnit ∧ Reads s s' d [] (namedSources d) := by
    rintro _ _ rfl hkind rfl hreads
    exact ⟨hkind, hreads⟩
  unfold subtype at h
  split at h
  · next hkind => exact .inr (hother hkind (by decide) (by rw [namedSources, hkind]; rfl) (header_reads h))
  split at h
  · next hkind => exact .inr (hother hkind (by decide) (if_pos (.inl hkind)) (processingUnit_reads h))
  split at h
  · next hkind => exact .inr (hother hkind (by decide) (by rw [namedSources, hkind]; rfl) (inputTerminal_reads h))
  split at h
  · next hkind => exact .inr (hother hkind (by decide) (by rw [namedSources, hkind]; rfl) (outputTerminal_reads h))
  split at h
  · next hkind => exact .inr (hother hkind (by decide) (by rw [namedSources, hkind]; rfl) (selectorUnit_reads h))
  split at h
  · next hkind => exact .inr (hother hkind (by decide) (if_pos (.inr hkind)) (encodingUnit_reads h))
  split at h
  · next hkind =>
    have hsources : namedSources d = (d.drop 22).take (byte d 21).toNat := by
      rw [namedSources, hkind]
      rfl
    rw [hsources]
    exact .inl ⟨hkind, extensionUnit_reads h⟩
  · cases h

theorem control_unitWalk (h : s.control d = some s') :
    ¬ d.length < 3 ∧
      ((byte d 2 = subtypeExtensionUnit ∧ ∃ unit, parseExtensionUnit d = some unit ∧
          s'.unitWalk = { s.unitWalk with out := s.unitWalk.out ++ [unit] }) ∨
        (byte d 2 ≠ subtypeExtensionUnit ∧ s'.unitWalk = s.unitWalk)) := by
  unfold control at h
  dsimp only at h
  split at h
  · cases h
  · next hopen =>
    rw [not_or] at hopen
    refine ⟨hopen.1, ?_⟩
    split at h
    · cases h
    · obtain ⟨m, hm, h⟩ := Option.bind_eq_some_iff.1 h
      have hsame : m.unitWalk = s.unitWalk := (addEntity_unitWalk hm :)
      rw [← hsame]
      obtain ⟨hkind, unit, hparse, hreads⟩ | ⟨hkind, hreads⟩ := subtype_reads h
      · exact .inl ⟨hkind, unit, hparse, hreads.units⟩
      · exact .inr ⟨hkind, hreads.units.trans (by rw [List.append_nil])⟩

/-! ## The walk -/

theorem configuration_unitWalk (h : s.configuration d = some s') :
    ¬ (s.configurations + 1 ≠ 1 ∨ d.length < 9 ∨ byte d 5 = 0) ∧
      s'.unitWalk = { s.unitWalk with
        configurations := s.unitWalk.configurations + 1, inTargetVc := false } := by
  unfold configuration at h
  split at h
  · cases h
  · next hfits =>
    cases h
    exact ⟨hfits, rfl⟩

theorem interface_unitWalk (h : s.interface interfaceNumber d = some s') :
    ¬ d.length < 9 ∧ s'.unitWalk = { s.unitWalk with
      inTargetVc := byte d 2 = interfaceNumber && s.configurations = 1 && byte d 5 = classVideo &&
        byte d 6 = subclassVideocontrol } := by
  unfold interface at h
  split at h
  · cases h
  · next hlength =>
    refine ⟨hlength, ?_⟩
    split at h
    · cases h
    · split at h
      · cases h
      · dsimp only at h
        split at h
        · cases h
        · cases h
          simp only [unitWalk, UnitWalk.mk.injEq, true_and, and_true]
          ac_rfl

theorem endpoint_unitWalk (h : s.endpoint d = some s') : s'.unitWalk = s.unitWalk := by
  unfold endpoint at h
  split at h
  · cases h
  · split at h
    · cases h
    · cases h
      rfl

/-- **Each step of the role parser is a step of the write path.** -/
theorem step_unitWalk (h : s.step interfaceNumber d = some s') :
    UnitWalk.step interfaceNumber s.unitWalk d = some s'.unitWalk := by
  unfold step at h
  unfold UnitWalk.step
  rw [unitWalk_inTargetVc, unitWalk_configurations]
  split at h
  · next hconfiguration =>
    obtain ⟨hfits, hsame⟩ := configuration_unitWalk h
    rw [if_pos hconfiguration, hsame, if_neg hfits]
    rfl
  · next hconfiguration =>
    rw [if_neg hconfiguration]
    split at h
    · next hinterface =>
      obtain ⟨hlength, hsame⟩ := interface_unitWalk h
      rw [if_pos hinterface, hsame, if_neg hlength]
      rfl
    · next hinterface =>
      rw [if_neg hinterface]
      split at h
      · next hcontrol =>
        rw [if_pos hcontrol]
        obtain ⟨hlength, ⟨hunit, unit, hparse, hsame⟩ | ⟨hunit, hsame⟩⟩ := control_unitWalk h
        · rw [if_neg hlength, if_pos hunit, hparse, hsame]
          rfl
        · rw [if_neg hlength, if_neg hunit, hsame]
      · next hcontrol =>
        rw [if_neg hcontrol]
        split at h
        · rw [endpoint_unitWalk h]
        · split at h
          · cases h
            rfl
          · rw [Option.some.inj h]

end WalkState

section Agreement

variable {desc : List UInt8} {interfaceNumber : UInt8}

theorem walk_unitWalk {s : WalkState} (h : walk (WalkState.step interfaceNumber) {} desc = some s) :
    walk (UnitWalk.step interfaceNumber) {} desc = some s.unitWalk := by
  obtain ⟨ds, hframes, h⟩ := Option.bind_eq_some_iff.1 h
  have hstep : ∀ {s : WalkState} {t : UnitWalk} {s' : WalkState} {d : List UInt8}, s.unitWalk = t →
      s.step interfaceNumber d = some s' →
      ∃ t', UnitWalk.step interfaceNumber t d = some t' ∧ s'.unitWalk = t' := by
    intro s t s' d ht h
    subst ht
    exact ⟨_, WalkState.step_unitWalk h, rfl⟩
  obtain ⟨t, ht, rfl⟩ := foldlM_simulation (R := fun s t => s.unitWalk = t) hstep rfl h
  rw [walk, hframes]
  exact ht

variable {f : VideoControlFunction}

theorem finish_extensionUnits {s : WalkState}
    (h : s.finish = some (.function f)) : f.extensionUnits = s.extensionUnits := by
  unfold WalkState.finish at h
  repeat' split at h
  all_goals cases h
  rfl

theorem extensionUnits_of_videoControlWalk
    (h : videoControlWalk desc interfaceNumber = some (.function f)) :
    extensionUnitsForInterface desc interfaceNumber = f.extensionUnits := by
  obtain ⟨s, hwalk, hfinish⟩ := Option.bind_eq_some_iff.1 h
  rw [extensionUnitsForInterface, walk_unitWalk hwalk, finish_extensionUnits hfinish]
  rfl

theorem videoControlFunction_eq_some (h : videoControlFunction desc interfaceNumber = some f) :
    videoControlWalk desc interfaceNumber = some (.function f) := by
  unfold videoControlFunction at h
  split at h
  · next hwalk => rw [hwalk, Option.some.inj h]
  · cases h

/-! ## Infrared evidence -/

theorem onlyMicrosoftXu_ok {unit : ExtensionUnit}
    (h : onlyMicrosoftXu f = .ok unit) : f.extensionUnits.filter ExtensionUnit.isMicrosoftXu = [unit] := by
  unfold onlyMicrosoftXu at h
  split at h
  · next hfilter => rw [hfilter, Except.ok.inj h]
  · cases h
  · cases h

structure Attests (units : List ExtensionUnit) (e : IrFunctionEvidence) (unit : ExtensionUnit) : Prop where
  only : units.filter ExtensionUnit.isMicrosoftXu = [unit]
  unitId : unit.unitId = e.msxuUnit
  advertises : unit.advertises msxuFaceAuthentication = true

variable {e : IrFunctionEvidence}

theorem irFunctionEvidence_ok (h : irFunctionEvidence desc interfaceNumber = .ok e) :
    ∃ f unit, videoControlWalk desc interfaceNumber = some (.function f) ∧
      Attests f.extensionUnits e unit := by
  obtain ⟨f, hwalk, h⟩ := bind_ok_iff.1 h
  obtain ⟨streamingInterface, -, h⟩ := bind_ok_iff.1 h
  obtain ⟨unit, hunit, h⟩ := bind_ok_iff.1 h
  have hf : videoControlWalk desc interfaceNumber = some (.function f) := by
    unfold attestingFunction at hwalk
    split at hwalk
    · next hsome => rw [hsome, Except.ok.inj hwalk]
    · cases hwalk
    · cases hwalk
  refine ⟨f, unit, hf, ?_⟩
  cases hadvertises : unit.advertises msxuFaceAuthentication with
  | false =>
    rw [hadvertises] at h
    cases h
  | true =>
    simp only [hadvertises, Bool.not_true, Bool.false_eq_true, if_false] at h
    split at h
    · cases h
    · cases h
      exact ⟨onlyMicrosoftXu_ok hunit, rfl, hadvertises⟩

theorem attests_of_irFunctionEvidence (h : irFunctionEvidence desc interfaceNumber = .ok e) :
    ∃ unit, Attests (extensionUnitsForInterface desc interfaceNumber) e unit := by
  obtain ⟨f, unit, hwalk, hattests⟩ := irFunctionEvidence_ok h
  rw [extensionUnits_of_videoControlWalk hwalk]
  exact ⟨unit, hattests⟩

theorem microsoftXu_of_irFunctionEvidence {id : CameraIdentity}
    (h : id.irFunctionEvidence = .ok e) :
    ∃ unit, id.microsoftXu = some unit ∧ Attests id.extensionUnits e unit := by
  obtain ⟨view, hview, h⟩ := bind_ok_iff.1 h
  obtain ⟨unit, hattests⟩ := attests_of_irFunctionEvidence h
  have hunits : id.extensionUnits = extensionUnitsForInterface view id.interfaceNumber := by
    rw [CameraIdentity.extensionUnits, okOr_ok_iff.1 hview]
    rfl
  rw [← hunits] at hattests
  refine ⟨unit, ?_, hattests⟩
  rw [CameraIdentity.microsoftXu, hattests.only]

end Agreement

/-- **The role parser and the write path agree.** For all bytes and every interface number, the units
of a function the role parser accepts are those the write path finds, in order. So when it attests
infrared, the write path finds exactly one Microsoft unit, the one named in the evidence, and that
unit advertises face authentication; for an opened camera it is the unit that may be written to. -/
theorem parsers_agree (desc : List UInt8) (interfaceNumber : UInt8) :
    (∀ f, videoControlFunction desc interfaceNumber = some f →
        extensionUnitsForInterface desc interfaceNumber = f.extensionUnits) ∧
      (∀ e, irFunctionEvidence desc interfaceNumber = .ok e →
        ∃ unit, Attests (extensionUnitsForInterface desc interfaceNumber) e unit) ∧
      ∀ (id : CameraIdentity) e, id.irFunctionEvidence = .ok e →
        ∃ unit, id.microsoftXu = some unit ∧ Attests id.extensionUnits e unit := by
  refine ⟨fun f hf => ?_, fun e he => attests_of_irFunctionEvidence he, fun id e he => ?_⟩
  · exact extensionUnits_of_videoControlWalk (videoControlFunction_eq_some hf)
  · exact microsoftXu_of_irFunctionEvidence he

/-! ## An infrared camera -/

def laptopDevice : List UInt8 :=
  [18, 0x01, 0, 2, 0xEF, 2, 1, 64, 0xf2, 4, 0x0c, 0xb6, 0, 0, 1, 2, 3, 1]

/-- A VideoControl interface with an input terminal, a Microsoft unit that advertises face
authentication and metadata, and an output terminal, and its VideoStreaming interface. -/
def laptopConfiguration : List UInt8 :=
  [9, 0x02, 86, 0, 2, 1, 0, 0x80, 250] ++ [9, 0x04, 0, 0, 0, 0x0E, 1, 0, 0] ++
    [13, 0x24, 1, 0x50, 0x01, 59, 0, 0, 0, 0, 0, 1, 1] ++ [8, 0x24, 2, 1, 0, 2, 0, 0] ++
    ([29, 0x24, 6, 4] ++ msCameraControlXu.toList ++ [2, 1, 1, 4, 0x20, 1, 0, 0, 0]) ++
    [9, 0x24, 3, 2, 1, 1, 0, 4, 0] ++ [9, 0x04, 1, 0, 0, 0x0E, 2, 0, 0]

def laptopCamera : CameraIdentity :=
  { descriptors := laptopDevice ++ laptopConfiguration, activeConfiguration := 1, interfaceNumber := 0 }

/-- A laptop's infrared function. -/
theorem parsers_agree_laptop :
    ∃ f unit, videoControlFunction laptopCamera.descriptors 0 = some f ∧
      extensionUnitsForInterface laptopCamera.descriptors 0 = f.extensionUnits ∧
      Attests (extensionUnitsForInterface laptopCamera.descriptors 0) ⟨4, 1⟩ unit ∧
      laptopCamera.microsoftXu.isSome := by
  obtain ⟨hunits, hevidence, hcamera⟩ := parsers_agree laptopCamera.descriptors 0
  have hok : irFunctionEvidence laptopCamera.descriptors 0 = .ok ⟨4, 1⟩ := by decide
  have hopened : laptopCamera.irFunctionEvidence = .ok ⟨4, 1⟩ := by decide
  have hsome : (videoControlFunction laptopCamera.descriptors 0).isSome = true := by decide
  obtain ⟨f, hf⟩ := Option.isSome_iff_exists.1 hsome
  obtain ⟨unit, hattests⟩ := hevidence _ hok
  obtain ⟨xu, hxu, -⟩ := hcamera laptopCamera _ hopened
  exact ⟨f, unit, hf, hunits f hf, hattests, by rw [hxu]; rfl⟩

end Irlume.Uvc

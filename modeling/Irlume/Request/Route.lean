import Irlume.Request.Looks

/-!
# A request takes one route

The selection records what the request did (`Recorded`): a split that was retained, pinned or offered to
`select_account_split_camera` is one that it retains, an ordinary pair that was chosen is one it keeps standing,
and it holds the one split that was installed. Every call of the engine keeps this and tests the selection
before it acts.

An offer is the call, whatever comes of it. The selection is behind the history between that call and its first
edit.
-/

namespace Irlume.Request

open Irlume.Lib Irlume.Inventory Irlume.Split Irlume.Config
open Irlume.Lease (CameraOperationKind)

/-! ## What happened in a scope -/

namespace Edit

def takesSplit : Edit → Bool
  | openScope prepared _ => prepared.split.isSome || prepared.pin.isSome
  | called (.selectAccountSplitCamera _) | installSplit _ => true
  | _ => false

def choosesOrdinary : Edit → Bool
  | selectOrdinary _ _ => true
  | _ => false

def installs : Edit → Option (SplitLeaseRequest × SplitTrustEntry)
  | openScope prepared _ => prepared.split.map fun split => (split.expected, split.entry)
  | installSplit choice => some (choice.expected, .authentication)
  | _ => none

end Edit

namespace World

variable (w : World)

/-- A split was retained, pinned or offered to `select_account_split_camera` since the outermost scope was opened. -/
def SplitTaken : Prop := ∃ e ∈ w.past, e.takesSplit = true

def OrdinaryChosen : Prop := ∃ e ∈ w.past, e.choosesOrdinary = true

def installed : List (SplitLeaseRequest × SplitTrustEntry) := w.past.filterMap Edit.installs

def declared : Option SplitTrustEntry := w.engine.cameraSelection.bind (·.activeEntry)

end World

/-- **What a call may do.** -/
def OneRoute (w : World) : Op → Prop
  -- No ordinary or single-side lease, no ordinary pair and no ordinary publication after a split was taken.
  | .lease (.ordinary _ _) | .lease (.selected _ _ _) | .edit (.selectOrdinary _ _)
  | .admitPublication (.selected _) | .publish .standing | .publish (.selected _) => ¬ w.SplitTaken
  -- No split after an ordinary pair, and no second split.
  | .edit (.installSplit _) => ¬ w.OrdinaryChosen ∧ w.installed = []
  -- A split lease is for both original sides, of the declared entry's own kind.
  | .lease (.split expected kind) =>
    ∃ entry, (expected, entry) ∈ w.installed ∧ w.declared = some entry ∧ kind = entry.kind
  | _ => True

/-! ## The selection records it -/

/-- The selection agrees with what happened since the scope was opened. -/
structure Recorded (past : List Edit) (s : PreparedSelection) : Prop where
  taken : (∃ e ∈ past, e.takesSplit = true) → s.retainsSplit = true
  chosen : (∃ e ∈ past, e.choosesOrdinary = true) → s.retainStanding = true
  installed : past.filterMap Edit.installs = (s.split.map fun split => (split.expected, split.entry)).toList

/-- Either no scope is open, or one outermost scope with the nested ones inside it. -/
inductive Coherent (w : World) : Prop
  | idle (hselection : w.engine.cameraSelection = none) (hscopes : w.scopes = []) (hpast : w.past = [])
  | prepared (s : PreparedSelection) (hselection : w.engine.cameraSelection = some s) (nested : Nat)
    (previous : Devices) (hscopes : w.scopes = List.replicate nested none ++ [some previous])
    (hrecorded : Recorded w.past s)

/-- What a call that finds the selection up to date has tested before it acts. -/
def Proper (w : World) : Op → Prop
  | .lease (.ordinary _ _) | .lease (.selected _ _ _)
  | .admitPublication (.selected _) | .publish .standing | .publish (.selected _) =>
    ∀ s, w.engine.cameraSelection = some s → s.retainsSplit = false
  | .edit (.selectOrdinary _ _) => ∃ s, w.engine.cameraSelection = some s ∧ s.retainsSplit = false
  | .edit (.openScope _ _) => w.engine.cameraSelection = none
  | .edit .nestScope => w.engine.cameraSelection.isSome = true
  | .edit (.called call) => (Edit.called call).takesSplit = false
  | .edit (.offerSplit _) => False
  | .edit (.installSplit _) =>
    ∃ s, w.engine.cameraSelection = some s ∧ s.split = none ∧ s.retainStanding = false
  | .lease (.split expected kind) => ∃ s split, w.engine.cameraSelection = some s ∧ s.split = some split ∧
      split.expected = expected ∧ s.activeEntry = some split.entry ∧ kind = split.entry.kind
  | _ => True

variable {α β : Type} {w w' : World} {s : PreparedSelection} {past : List Edit}

namespace Recorded

theorem keep {s' : PreparedSelection} {e : Edit} (h : Recorded past s) (htakes : e.takesSplit = false)
    (hchooses : e.choosesOrdinary = false) (hinstalls : e.installs = none) (hpair : s'.pair = s.pair)
    (hpin : s'.pin = s.pin) (hattempted : s'.splitRoutingAttempted = s.splitRoutingAttempted)
    (hstanding : s'.retainStanding = s.retainStanding) : Recorded (e :: past) s' where
  taken := by
    rintro ⟨e', he', htaken⟩
    have hretains : s'.retainsSplit = s.retainsSplit := by
      simp only [PreparedSelection.retainsSplit, PreparedSelection.split, hpair, hpin, hattempted]
    rcases List.mem_cons.1 he' with rfl | he'
    · rw [htakes] at htaken
      cases htaken
    · exact hretains.trans (h.taken ⟨e', he', htaken⟩)
  chosen := by
    rintro ⟨e', he', hchosen⟩
    rcases List.mem_cons.1 he' with rfl | he'
    · rw [hchooses] at hchosen
      cases hchosen
    · exact hstanding.trans (h.chosen ⟨e', he', hchosen⟩)
  installed := by
    rw [List.filterMap_cons, hinstalls, h.installed]
    simp only [PreparedSelection.split, hpair]

theorem endNested (h : Recorded past s) : Recorded (.dropScope :: past) s.endNested := by
  unfold PreparedSelection.endNested
  split
  · exact h.keep rfl rfl rfl rfl rfl rfl rfl
  · exact h.keep rfl rfl rfl rfl rfl rfl rfl

theorem opened (prepared : PreparedSelection) (previous : Devices) : Recorded [.openScope prepared previous] prepared where
  taken := by
    rintro ⟨e, he, htaken⟩
    obtain rfl := List.mem_singleton.1 he
    rw [PreparedSelection.retainsSplit, show (prepared.split.isSome || prepared.pin.isSome) = true from htaken,
      Bool.true_or]
  chosen := by
    rintro ⟨e, he, hchosen⟩
    obtain rfl := List.mem_singleton.1 he
    cases hchosen
  installed := by
    cases hsplit : prepared.split <;> simp [Edit.installs, hsplit]

theorem offered (h : Recorded past s) (choice : SplitChoice) :
    Recorded (.offerSplit choice :: .called (.selectAccountSplitCamera choice) :: past)
      { s with splitRoutingAttempted := true } where
  taken _ := by simp only [PreparedSelection.retainsSplit, Bool.or_true]
  chosen := by
    rintro ⟨e, he, hchosen⟩
    rcases List.mem_cons.1 he with rfl | he
    · cases hchosen
    rcases List.mem_cons.1 he with rfl | he
    · cases hchosen
    · exact h.chosen ⟨e, he, hchosen⟩
  installed := h.installed

theorem split_eq_none_of_not_retains (hretains : s.retainsSplit = false) : s.split = none := by
  simp only [PreparedSelection.retainsSplit, Bool.or_eq_false_iff] at hretains
  exact Option.isNone_iff_eq_none.1 (Option.isSome_eq_false_iff.1 hretains.1.1)

theorem selected (h : Recorded past s) (pair : ConnectedPair) (available : Bool) (hretains : s.retainsSplit = false) :
    Recorded (.selectOrdinary pair available :: past) (s.selectOrdinary pair available) where
  taken := by
    rintro ⟨e, he, htaken⟩
    rcases List.mem_cons.1 he with rfl | he
    · cases htaken
    · rw [h.taken ⟨e, he, htaken⟩] at hretains
      cases hretains
  chosen _ := rfl
  installed := by
    have hinstalled := h.installed
    rw [split_eq_none_of_not_retains hretains] at hinstalled
    exact hinstalled

theorem installedSplit (h : Recorded past s) (choice : SplitChoice) (hsplit : s.split = none)
    (hstanding : s.retainStanding = false) : Recorded (.installSplit choice :: past) (s.installSplit choice) where
  taken _ := rfl
  chosen := by
    rintro ⟨e, he, hchosen⟩
    rcases List.mem_cons.1 he with rfl | he
    · cases hchosen
    · rw [h.chosen ⟨e, he, hchosen⟩] at hstanding
      cases hstanding
  installed := by
    have hinstalled := h.installed
    rw [hsplit] at hinstalled
    rw [List.filterMap_cons, show past.filterMap Edit.installs = [] from hinstalled]
    rfl

end Recorded

/-! ## Edits -/

variable {e : Edit}

theorem World.edit_of_nil (h : (w.edited e).scopes = []) : w.edit e =
    { w.edited e with past := [] } :=
  if_pos h

theorem World.edit_of_ne (h : (w.edited e).scopes ≠ []) :
    w.edit e = { w.edited e with past := e :: (w.edited e).past } :=
  if_neg h

/-- **Every edit.** -/
theorem Coherent.edit (h : Coherent w) (hproper : Proper w (.edit e)) : Coherent (w.edit e) := by
  cases h with
  | idle hselection hscopes hpast =>
    -- No scope is open, so nothing that happens belongs to one.
    have hidle : (w.edited e).scopes = [] → (w.edited e).engine.cameraSelection = none → Coherent (w.edit e) := by
      intro hnil hnone
      rw [World.edit_of_nil hnil]
      exact .idle hnone hnil rfl
    have hmapped : ∀ f, (w.mapSelection f).engine.cameraSelection = none := fun f => by
      simp only [World.mapSelection, World.setSelection, hselection, Option.map_none]
    cases e with
    | called call => exact hidle hscopes hselection
    | setDevices devices => exact hidle hscopes hselection
    | openScope prepared previous =>
      have hopen : (w.edited (.openScope prepared previous)).scopes ≠ [] := List.cons_ne_nil _ _
      rw [World.edit_of_ne hopen]
      refine .prepared prepared rfl 0 previous ?_ ?_
      · simp only [World.edited, hscopes, List.replicate_zero, List.nil_append]
      · simpa only [World.edited, World.setSelection, hpast] using Recorded.opened prepared previous
    | nestScope =>
      have hsome : w.engine.cameraSelection.isSome = true := hproper
      rw [hselection] at hsome
      cases hsome
    | dropScope =>
      have hdrop : w.dropScope = w := by simp only [World.dropScope, hscopes]
      exact hidle (by rw [World.edited, hdrop, hscopes]) (by rw [World.edited, hdrop, hselection])
    | selectOrdinary pair available =>
      obtain ⟨s, hsome, -⟩ := hproper
      rw [hselection] at hsome
      cases hsome
    | offerSplit choice => cases hproper
    | installSplit choice =>
      obtain ⟨s, hsome, -⟩ := hproper
      rw [hselection] at hsome
      cases hsome
    | declareEntry entry => exact hidle hscopes (hmapped _)
  | prepared s hselection nested previous hscopes hrecorded =>
    have hopen : w.scopes ≠ [] := by simp [hscopes]
    have hmapped : ∀ f, (w.mapSelection f).engine.cameraSelection = some (f s) := fun f => by
      simp only [World.mapSelection, World.setSelection, hselection, Option.map_some]
    have hkept : ∀ f, (w.edited e) = w.mapSelection f → Recorded (e :: w.past) (f s) → Coherent (w.edit e) := by
      intro f hedited hrecorded
      rw [World.edit_of_ne (by rw [hedited]; exact hopen), hedited]
      exact .prepared (f s) (hmapped f) nested previous hscopes hrecorded
    cases e with
    | called call =>
      have hcalled : (w.edited (.called call)).scopes ≠ [] := hopen
      rw [World.edit_of_ne hcalled]
      exact .prepared s hselection nested previous hscopes (hrecorded.keep hproper rfl rfl rfl rfl rfl rfl)
    | setDevices devices =>
      have hdevices : (w.edited (.setDevices devices)).scopes ≠ [] := hopen
      rw [World.edit_of_ne hdevices]
      exact .prepared s hselection nested previous hscopes (hrecorded.keep rfl rfl rfl rfl rfl rfl rfl)
    | openScope prepared previous =>
      rw [show w.engine.cameraSelection = none from hproper] at hselection
      cases hselection
    | nestScope =>
      have hnested : (w.edited .nestScope).scopes ≠ [] := List.cons_ne_nil _ _
      rw [World.edit_of_ne hnested]
      refine .prepared s hselection (nested + 1) previous ?_ (hrecorded.keep rfl rfl rfl rfl rfl rfl rfl)
      simp only [World.edited, hscopes, List.replicate_succ, List.cons_append]
    | dropScope =>
      cases nested with
      | zero =>
        have hdrop : (w.edited .dropScope).scopes = [] ∧ (w.edited .dropScope).engine.cameraSelection = none := by
          simp only [World.edited, World.dropScope, hscopes, List.replicate_zero, List.nil_append, and_self]
        rw [World.edit_of_nil hdrop.1]
        exact .idle hdrop.2 hdrop.1 rfl
      | succ nested =>
        have hinner : w.scopes = none :: (List.replicate nested none ++ [some previous]) := by
          rw [hscopes, List.replicate_succ, List.cons_append]
        have hdrop : w.edited .dropScope =
            { w.mapSelection PreparedSelection.endNested with scopes := List.replicate nested none ++ [some previous] } := by
          simp only [World.edited, World.dropScope, hinner]
        rw [World.edit_of_ne (by rw [hdrop]; simp), hdrop]
        exact .prepared s.endNested (hmapped _) nested previous rfl hrecorded.endNested
    | selectOrdinary pair available =>
      obtain ⟨s', hsome, hretains⟩ := hproper
      cases hselection.symm.trans hsome
      exact hkept _ rfl (hrecorded.selected pair available hretains)
    | offerSplit choice => cases hproper
    | installSplit choice =>
      obtain ⟨s', hsome, hsplit, hstanding⟩ := hproper
      cases hselection.symm.trans hsome
      exact hkept _ rfl (hrecorded.installedSplit choice hsplit hstanding)
    | declareEntry entry => exact hkept _ rfl (hrecorded.keep rfl rfl rfl rfl rfl rfl rfl)

/-! ### The offer of a split -/

/-- **The call and its first edit**: whatever was asked, the selection records that it was. -/
theorem Coherent.offered (h : Coherent w) (choice : SplitChoice) :
    Coherent ((w.edit (.called (.selectAccountSplitCamera choice))).edit (.offerSplit choice)) := by
  cases h with
  | idle hselection hscopes hpast =>
    have hcalled : w.edit (.called (.selectAccountSplitCamera choice)) = { w with past := [] } :=
      World.edit_of_nil hscopes
    have hoffered : ({ w with past := [] } : World).edit (.offerSplit choice) =
        { w.mapSelection ({ · with splitRoutingAttempted := true }) with past := [] } := World.edit_of_nil hscopes
    rw [hcalled, hoffered]
    refine .idle ?_ hscopes rfl
    simp only [World.mapSelection, World.setSelection, hselection, Option.map_none]
  | prepared s hselection nested previous hscopes hrecorded =>
    have hopen : w.scopes ≠ [] := by simp [hscopes]
    have hcalled : w.edit (.called (.selectAccountSplitCamera choice)) =
        { w with past := .called (.selectAccountSplitCamera choice) :: w.past } := World.edit_of_ne hopen
    have hoffered : (World.edited { w with past := .called (.selectAccountSplitCamera choice) :: w.past }
        (.offerSplit choice)).scopes ≠ [] := hopen
    rw [hcalled, World.edit_of_ne hoffered]
    refine .prepared _ ?_ nested previous hscopes (hrecorded.offered choice)
    simp only [World.edited, World.mapSelection, World.setSelection, hselection, Option.map_some]

/-- The selection is up to date, or a split was just offered and nothing marked yet. -/
inductive Settling (w : World) : Prop
  | settled (h : Coherent w)
  | called (w₀ : World) (h : Coherent w₀) (choice : SplitChoice)
      (hcalled : w = w₀.edit (.called (.selectAccountSplitCamera choice)))

/-- A call is recorded and an offer marked at any time; everything else is done with the selection up to date. -/
inductive Permitted (w : World) : Op → Prop
  | called (call : Call) : Permitted w (.edit (.called call))
  | offered (choice : SplitChoice) : Permitted w (.edit (.offerSplit choice))
  | proper {op : Op} (h : Coherent w) (hproper : Proper w op) : Permitted w op

/-! ## Calls -/

theorem proper_of_looks {op : Op} (h : op.looks = true) : Proper w op := by
  cases op with
  | edit e | lease l | publish p => cases h
  | admitPublication p =>
    cases p with
    | standing | selected expected => cases h
    | split expected records => trivial
  | _ => trivial

/-- A part of a call that acts only after its tests. -/
abbrev Proceeds (Q : α → World → Prop) (p : Requests α) (w : World) : Prop :=
  Fallible.Guarded Reacted Coherent Proper Q (fun _ _ => True) p w

variable {Q : α → World → Prop} {Q' : β → World → Prop} {P : α → Prop}

theorem Looks.proceeds {p : Requests α} (h : Looks P p w) (hw : Coherent w) :
    Proceeds (fun a w' => w' = w ∧ P a) p w :=
  (Fallible.Guarded.weaken h (fun _ hsame => hsame ▸ hw) fun _ _ _ => proper_of_looks).mono (fun _ _ _ h => h)
    fun _ _ _ _ => trivial

theorem Looks.proceed {p : Requests α} {k : α → Requests β} (h : Looks P p w) (hw : Coherent w)
    (hk : ∀ a, P a → Proceeds Q' (k a) w) : Proceeds Q' (p >>= k) w := by
  refine (h.proceeds hw).bind fun a w' _ ⟨hsame, hP⟩ => ?_
  subst hsame
  exact hk a hP

/-- A call that may begin with the selection behind the history, and ends with it up to date. -/
abbrev Settles (p : Requests α) (w : World) : Prop :=
  Fallible.Guarded Reacted Settling Permitted (fun _ => Coherent) (fun _ => Coherent) p w

theorem Proceeds.settles {p : Requests α} (h : Proceeds Q p w) : Settles p w :=
  (Fallible.Guarded.weaken h (fun _ => .settled) fun _ _ => .proper).mono (fun _ _ _ h => h.1) fun _ _ _ h => h.1

section

variable (hw : Coherent w)

include hw

theorem proceeds_engine {k : Engine → Requests β} (hk : Proceeds Q' (k w.engine) w) :
    Proceeds Q' (ask .engine >>= k) w := by
  refine ⟨hw, trivial, fun answer w' hreact => ?_⟩
  obtain ⟨c, -, hperform⟩ := hreact
  cases hperform
  exact hk

theorem proceeds_change (hproper : Proper w (.edit e)) :
    Proceeds (fun _ w' => w' = w.edit e) (change e) w := by
  refine ⟨hw, hproper, fun answer w' hreact => ?_⟩
  obtain ⟨c, -, hperform⟩ := hreact
  cases hperform
  exact ⟨hw.edit hproper, rfl⟩

theorem proceeds_changed (hproper : Proper w (.edit e)) :
    Proceeds (fun _ _ => True) (change e) w :=
  (proceeds_change hw hproper).mono (fun _ _ _ _ => trivial) fun _ _ _ h => h

theorem proceed_change {k : Unit → Requests β} (hproper : Proper w (.edit e))
    (hk : Coherent (w.edit e) → Proceeds Q' (k ()) (w.edit e)) : Proceeds Q' (change e >>= k) w := by
  refine (proceeds_change hw hproper).bind fun _ w' hw' hedited => ?_
  subst hedited
  exact hk hw'

theorem proceeds_doIf {p : Prop} [Decidable p] {part : Requests Unit}
    (h : Proceeds (fun _ _ => True) part w) : Proceeds (fun _ _ => True) (doIf p part) w := by
  unfold doIf
  split
  · exact h
  · exact Fallible.guarded_pure hw trivial

theorem proceeds_orThrow {ε : Type} {answer : Except ε α} {f : ε → Error} :
    Proceeds (fun _ _ => True) (orThrow answer f) w :=
  (looks_orThrow.proceeds hw).mono (fun _ _ _ _ => trivial) fun _ _ _ h => h

end

/-! ### Scopes -/

@[simp] theorem cameraSelection_setDevices (w : World) (devices : Devices) :
    (w.edit (.setDevices devices)).engine.cameraSelection = w.engine.cameraSelection := by
  unfold World.edit
  dsimp only
  split <;> rfl

section

variable (hw : Coherent w)

include hw

theorem proceeds_setDevices {rgb ir : Text} :
    Proceeds (fun _ w' => w'.engine.cameraSelection = w.engine.cameraSelection) (setDevices rgb ir) w := by
  refine (looks_asked (.selectedIrAvailable ir) rfl).proceed hw fun irAvailable _ => ?_
  have hproper : Proper w (.edit (.setDevices ⟨rgb, ir, irAvailable⟩)) := trivial
  refine (proceeds_change hw hproper).mono (fun _ w' _ hedited => ?_) fun _ _ _ h => h
  rw [hedited, cameraSelection_setDevices]

theorem proceeds_prepareObserved {route : SelectionRoute} (hnone : w.engine.cameraSelection = none) :
    Proceeds (fun _ _ => True) (prepareObserved route) w := by
  refine proceeds_engine hw (looks_observeChoice.proceed hw fun prepared _ => ?_)
  have hdevices : Proceeds (fun _ w' => w'.engine.cameraSelection = none)
      (doIf (w.engine.devices.rgbDev ≠ prepared.rgb ∨ w.engine.devices.irDev ≠ prepared.ir)
        (setDevices prepared.rgb prepared.ir)) w := by
    unfold doIf
    split
    · exact (proceeds_setDevices hw).mono (fun _ _ _ hsame => hsame.trans hnone) fun _ _ _ h => h
    · exact Fallible.guarded_pure hw hnone
  refine hdevices.bind fun _ w' hw' hnone' => proceeds_engine hw' ?_
  exact proceeds_changed hw' hnone'

theorem proceeds_nestScope {e : Engine} (hsome : w.engine.cameraSelection = some s) :
    Proceeds (fun _ _ => True) (do validateCameraRequest; s.validateDevices e; change .nestScope) w := by
  refine looks_validateCameraRequest.proceed hw fun _ _ => looks_validateDevices.proceed hw fun _ _ => ?_
  have hproper : Proper w (.edit .nestScope) := Option.isSome_iff_exists.2 ⟨s, hsome⟩
  exact proceeds_changed hw hproper

theorem proceeds_prepareCameraRequest : Proceeds (fun _ _ => True) prepareCameraRequest w := by
  refine proceeds_engine hw ?_
  split
  · next s hsome => exact looks_refuseIf.proceed hw fun _ _ => proceeds_nestScope hw hsome
  · next hnone => exact proceeds_prepareObserved hw hnone

theorem proceeds_prepareAuthenticationCameraRequest :
    Proceeds (fun _ _ => True) prepareAuthenticationCameraRequest w := by
  refine proceeds_engine hw ?_
  split
  · next hnone =>
    refine (proceeds_prepareObserved hw hnone).bind fun _ w' hw' _ => proceeds_engine hw' (proceeds_doIf hw' ?_)
    exact proceeds_changed hw' trivial
  · next s hsome => exact looks_refuseIf.proceed hw fun _ _ => proceeds_nestScope hw hsome

end

theorem isNone_of_not_isSome {selection : Option PreparedSelection} (h : ¬ selection.isSome = true) : selection = none :=
  Option.not_isSome_iff_eq_none.1 h

section

variable (hw : Coherent w)

include hw

theorem proceeds_prepareEnrollmentCamera {choice : EnrollmentCameraChoice} :
    Proceeds (fun _ _ => True) (prepareEnrollmentCamera choice) w := by
  refine looks_orThrow.proceed hw fun _ _ => proceeds_engine hw ?_
  refine looks_refuseIf.proceed hw fun _ hnone => looks_observeChoice.proceed hw fun prepared _ => ?_
  refine (proceeds_setDevices hw).bind fun _ w₁ hw₁ hsame₁ => looks_irForcedOff.proceed hw₁ fun forcedOff _ => ?_
  refine proceed_change hw₁ trivial fun hw₂ => ?_
  have hnone₂ : (w₁.edit (.setDevices ⟨prepared.rgb, prepared.ir, !forcedOff⟩)).engine.cameraSelection = none := by
    rw [cameraSelection_setDevices, hsame₁, isNone_of_not_isSome hnone]
  exact proceeds_changed hw₂ hnone₂

theorem proceeds_prepareSplitEnrollmentCamera {expected : SplitMutationGuard} {authorization : Published} :
    Proceeds (fun _ _ => True) (prepareSplitEnrollmentCamera expected authorization) w := by
  refine looks_orThrow.proceed hw fun _ _ => proceeds_engine hw ?_
  refine looks_refuseIf.proceed hw fun _ hnone => (looks_asked .readCameraSelection rfl).proceed hw fun snapshot _ => ?_
  refine looks_orThrow.proceed hw fun records _ => (looks_asked _ rfl).proceed hw fun view _ => ?_
  split
  · exact Fallible.guarded_throw hw trivial
  · exact Fallible.guarded_throw hw trivial
  · next pair hmatches =>
    refine looks_splitExternalPolicy.proceed hw fun _ _ => looks_orThrow.proceed hw fun key _ => ?_
    refine looks_irForcedOff.proceed hw fun forcedOff _ => looks_withSplitPublication.proceed hw fun _ _ => ?_
    refine proceed_change hw trivial fun hw₁ => ?_
    have hnone₁ : (w.edit (.setDevices ⟨pair.rgb.path, pair.ir.path, !forcedOff⟩)).engine.cameraSelection = none := by
      rw [cameraSelection_setDevices, isNone_of_not_isSome hnone]
    exact proceeds_changed hw₁ hnone₁

/-! ### Routing -/

theorem proceeds_validateOrLeave : Proceeds (fun _ _ => True) validateOrLeave w := by
  have hvalidated : Proceeds (fun _ _ => True) (Fallible.attempt validateCameraRequest) w :=
    (looks_validateCameraRequest.proceeds hw).attempt (fun _ _ _ _ => trivial) fun _ _ _ _ => trivial
  refine hvalidated.bind fun result w' hw' _ => ?_
  cases result with
  | ok _ => exact Fallible.guarded_pure hw' trivial
  | error e => exact proceed_change hw' trivial fun hw'' => Fallible.guarded_throw hw'' trivial

theorem proceeds_enterSplitTrust {entry : SplitTrustEntry} :
    Proceeds (fun _ _ => True) (enterSplitTrust entry) w := by
  refine looks_refuseIf.proceed hw fun _ _ => proceeds_engine hw ?_
  split
  · exact Fallible.guarded_throw hw trivial
  · refine looks_admitsEntry.proceed hw fun admitted _ => looks_refuseIf.proceed hw fun _ _ => ?_
    refine looks_refuseIf.proceed hw fun _ _ => looks_refuseIf.proceed hw fun _ _ => ?_
    exact proceed_change hw trivial proceeds_validateOrLeave

theorem proceeds_selectAccountCamera {pair : ConnectedPair} :
    Proceeds (fun _ _ => True) (selectAccountCamera pair) w := by
  refine proceeds_engine hw (looks_refuseIf.proceed hw fun _ hretains => ?_)
  refine looks_irForcedOff.proceed hw fun forcedOff _ => proceed_change hw trivial fun hw₁ => ?_
  refine proceeds_engine hw₁ (looks_refuseIf.proceed hw₁ fun _ hscope => ?_)
  rw [cameraSelection_setDevices, Option.isNone_iff_eq_none] at hscope
  obtain ⟨s, hsome⟩ := Option.ne_none_iff_exists'.1 hscope
  rw [hsome, Option.any_some, Bool.not_eq_true] at hretains
  refine proceed_change hw₁ ⟨s, (cameraSelection_setDevices _ _).trans hsome, hretains⟩ fun hw₂ => ?_
  exact (looks_validateCameraRequest.proceeds hw₂).mono (fun _ _ _ _ => trivial) fun _ _ _ h => h

/-- What follows the mark of `select_account_split_camera`. -/
theorem settles_selectAccountSplitCamera {choice : SplitChoice} :
    Settles (selectAccountSplitCamera choice) (w.edit (.called (.selectAccountSplitCamera choice))) := by
  refine ⟨.called w hw choice rfl, .offered choice, fun answer w' hreact => ?_⟩
  obtain ⟨c, -, hperform⟩ := hreact
  cases hperform
  have hw₁ := hw.offered choice
  refine Proceeds.settles (Q := fun _ _ => True) (looks_irForcedOff.proceed hw₁ fun _ _ => ?_)
  refine looks_refuseIf.proceed hw₁ fun _ _ => looks_splitExternalPolicy.proceed hw₁ fun _ _ => ?_
  refine proceeds_engine hw₁ ?_
  split
  · exact Fallible.guarded_throw hw₁ trivial
  · next s hsome =>
    refine looks_admitsSplitChoice.proceed hw₁ fun _ hunrouted => proceed_change hw₁ trivial fun hw₂ => ?_
    refine proceed_change hw₂ ⟨s, ?_, hunrouted⟩ proceeds_validateOrLeave
    rw [cameraSelection_setDevices, hsome]

end

/-! ### Leases and publications -/

theorem not_retains_of_filter {selection : Option PreparedSelection}
    (h : selection.filter PreparedSelection.retainsSplit = none) : ∀ s, selection = some s → s.retainsSplit = false := by
  rintro s rfl
  simpa [Option.filter] using h

section

variable (hw : Coherent w)

include hw

theorem proceeds_lease {l : Lease} (hproper : Proper w (.lease l)) :
    Proceeds (fun _ _ => True) (ask (.lease l)) w := by
  refine ⟨hw, hproper, fun answer w' hreact => ?_⟩
  obtain ⟨c, -, hperform⟩ := hreact
  cases hperform
  exact ⟨hw, trivial⟩

theorem proceeds_acquireSplitOperation {endpoints : List Text} {kind : CameraOperationKind}
    (hsome : w.engine.cameraSelection = some s) :
    Proceeds (fun _ _ => True) (s.acquireSplitOperation endpoints kind) w := by
  unfold PreparedSelection.acquireSplitOperation
  split
  · exact Fallible.guarded_pure hw trivial
  · next split hsplit =>
    refine looks_splitEntryActive.proceed hw fun active hactive => ?_
    split
    · exact Fallible.guarded_pure hw trivial
    · next hadmitted =>
      split
      · exact Fallible.guarded_pure hw trivial
      · simp only [Bool.or_eq_true, Bool.not_eq_true', decide_eq_true_eq, not_or, Bool.not_eq_false, not_not] at hadmitted
        exact proceeds_lease hw ⟨s, split, hsome, hsplit, rfl, hactive hadmitted.1, hadmitted.2⟩

theorem proceeds_acquireAccountCamera {endpoints : List Text} {kind : CameraOperationKind} :
    Proceeds (fun _ _ => True) (acquireAccountCamera endpoints kind) w := by
  refine proceeds_engine hw ?_
  dsimp only
  split
  · next s hfilter =>
    exact proceeds_acquireSplitOperation hw (Option.filter_eq_some_iff.1 hfilter).1
  · next hfilter =>
    split
    · exact proceeds_lease hw (not_retains_of_filter hfilter)
    · exact proceeds_lease hw (not_retains_of_filter hfilter)

theorem proceeds_published {p : Publication} (hproper : Proper w (.publish p)) :
    Proceeds (fun _ _ => True) (do orThrow (← ask (.publish p)) id) w := by
  refine ⟨hw, hproper, fun answer w' hreact => ?_⟩
  obtain ⟨c, -, hperform⟩ := hreact
  cases hperform
  exact proceeds_orThrow hw

theorem proceeds_withSplitPublication :
    Proceeds (fun _ _ => True) (s.withSplitPublication fun expected records => do
      orThrow (← ask (.publish (.split expected records))) id) w := by
  unfold PreparedSelection.withSplitPublication
  split
  · exact Fallible.guarded_throw hw trivial
  · refine looks_orThrow.proceed hw fun records _ => (looks_asked (.admitPublication (.split _ _)) rfl).proceed hw fun _ _ => ?_
    refine looks_orThrow.proceed hw fun _ _ => (looks_asked .lockCameraConf rfl).proceed hw fun _ _ => ?_
    refine looks_orThrow.proceed hw fun _ _ => looks_splitConfigAuthority.proceed hw fun _ _ => ?_
    exact proceeds_published hw trivial

theorem proceeds_withPreparedCameraPublication :
    Proceeds (fun _ _ => True) withPreparedCameraPublication w := by
  refine proceeds_engine hw ?_
  split
  · refine looks_refuseIf.proceed hw fun _ _ => looks_refuseIf.proceed hw fun _ _ => ?_
    exact proceeds_withSplitPublication hw
  · next hfilter =>
    have hordinary := not_retains_of_filter hfilter
    split
    · next expected _ =>
      refine ⟨hw, hordinary, fun answer w' hreact => ?_⟩
      obtain ⟨c, -, hperform⟩ := hreact
      cases hperform
      exact looks_orThrow.proceed hw fun _ _ => proceeds_published hw hordinary
    · exact looks_refuseIf.proceed hw fun _ _ => proceeds_published hw hordinary

/-! ## Runs -/

/-- **Every call** but the offer of a split. -/
theorem proceeds_program {call : Call} (hoffers : (Edit.called call).takesSplit = false) :
    Proceeds (fun _ _ => True) call.program w := by
  cases call with
  | prepareCameraRequest => exact proceeds_prepareCameraRequest hw
  | prepareAuthenticationCameraRequest => exact proceeds_prepareAuthenticationCameraRequest hw
  | prepareEnrollmentCamera choice => exact proceeds_prepareEnrollmentCamera hw
  | prepareSplitEnrollmentCamera expected authorization => exact proceeds_prepareSplitEnrollmentCamera hw
  | dropScope | leaveSplitTrust => exact proceeds_changed hw trivial
  | enterSplitTrust entry => exact proceeds_enterSplitTrust hw
  | selectAccountCamera pair => exact proceeds_selectAccountCamera hw
  | selectAccountSplitCamera choice => cases hoffers
  | validateCameraRequest =>
    exact (looks_validateCameraRequest.proceeds hw).mono (fun _ _ _ _ => trivial) fun _ _ _ h => h
  | acquireAccountCamera endpoints kind =>
    exact (proceeds_acquireAccountCamera hw).bind fun _ _ hw' _ => Fallible.guarded_pure hw' trivial
  | withPreparedCameraPublication => exact proceeds_withPreparedCameraPublication hw

/-- **Every call, with its record.** -/
theorem settles_run {call : Call} : Program.Guarded Reacted Settling Permitted (fun _ => Coherent) call.run w := by
  have hprogram : Settles (do change (.called call); call.program) w := by
    refine ⟨.settled hw, .called call, fun answer w' hreact => ?_⟩
    obtain ⟨c, -, hperform⟩ := hreact
    cases hperform
    cases hoffers : (Edit.called call).takesSplit with
    | false =>
      have hcalled : Proper w (.edit (.called call)) := hoffers
      exact Proceeds.settles (proceeds_program (hw.edit hcalled) hoffers)
    | true =>
      cases call with
      | selectAccountSplitCamera choice => exact settles_selectAccountSplitCamera hw
      | _ => cases hoffers
  refine Program.Guarded.bind hprogram fun result w' _ hw' => ⟨?_, ?_⟩
  · cases result <;> exact .settled hw'
  · cases result <;> exact hw'

end

theorem Coherent.oneRoute {op : Op} (h : Coherent w) (hproper : Proper w op) : OneRoute w op := by
  have htaken : (∀ s, w.engine.cameraSelection = some s → s.retainsSplit = false) → ¬ w.SplitTaken := by
    rintro hretains ⟨e, he, htaken⟩
    cases h with
    | idle _ _ hpast =>
      rw [hpast] at he
      cases he
    | prepared s hselection _ _ _ hrecorded =>
      have hstays := hretains s hselection
      rw [hrecorded.taken ⟨e, he, htaken⟩] at hstays
      cases hstays
  cases op with
  | lease l =>
    cases l with
    | ordinary endpoints kind | selected expected endpoints kind => exact htaken hproper
    | split expected kind =>
      obtain ⟨s, split, hsome, hsplit, rfl, hactive, hkind⟩ := hproper
      cases h with
      | idle hnone =>
        rw [hnone] at hsome
        cases hsome
      | prepared s' hselection _ _ _ hrecorded =>
        cases hselection.symm.trans hsome
        refine ⟨split.entry, ?_, ?_, hkind⟩
        · rw [World.installed, hrecorded.installed, hsplit]
          exact List.mem_singleton_self _
        · rw [World.declared, hselection, Option.bind_some, hactive]
  | publish p | admitPublication p =>
    cases p with
    | standing | selected expected => first | exact htaken hproper | trivial
    | split expected records => trivial
  | edit e =>
    cases e with
    | selectOrdinary pair available =>
      obtain ⟨s, hsome, hretains⟩ := hproper
      exact htaken fun s' hsome' => Option.some.inj (hsome.symm.trans hsome') ▸ hretains
    | installSplit choice =>
      obtain ⟨s, hsome, hsplit, hstanding⟩ := hproper
      cases h with
      | idle hnone =>
        rw [hnone] at hsome
        cases hsome
      | prepared s' hselection _ _ _ hrecorded =>
        cases hselection.symm.trans hsome
        refine ⟨fun hchosen => ?_, ?_⟩
        · rw [hrecorded.chosen hchosen] at hstanding
          cases hstanding
        · rw [World.installed, hrecorded.installed, hsplit]
          rfl
    | _ => trivial
  | _ => trivial

theorem Permitted.oneRoute {op : Op} (h : Permitted w op) : OneRoute w op := by
  cases h with
  | called call | offered choice => trivial
  | proper hw hproper => exact hw.oneRoute hproper

theorem Coherent.installed_le (h : Coherent w) : w.installed.length ≤ 1 := by
  cases h with
  | idle _ _ hpast => simp [World.installed, hpast]
  | prepared s _ _ _ _ hrecorded =>
    rw [World.installed, hrecorded.installed]
    cases s.split <;> simp

theorem Settling.installed_le (h : Settling w) : w.installed.length ≤ 1 := by
  cases h with
  | settled hw => exact hw.installed_le
  | called w₀ hw₀ choice hcalled =>
    have hsame : w.installed = w₀.installed ∨ w.installed = [] := by
      rw [hcalled]
      unfold World.edit
      dsimp only [World.edited]
      split
      · exact .inr rfl
      · exact .inl rfl
    rcases hsame with hsame | hnone
    · rw [hsame]
      exact hw₀.installed_le
    · rw [hnone]
      exact Nat.zero_le 1

abbrev Machine := Sessions World Op Answer

abbrev Event := SessionEvent Call Choice Empty

def step : Machine → Event → Option Machine := Sessions.step Call.run perform fun _ => Empty.elim

def World.fresh (devices : Devices) : World where
  engine := { devices, cameraSelection := none }
  scopes := []
  past := []

/-- **A camera request takes one route and a split never falls back**, in every run of calls in nested scopes, whatever
the configuration, the inventory, the environment and the activation predicate answer. -/
theorem camera_request_one_route (devices : Devices) (es : List Event) :
    ∀ m ∈ states step (Sessions.idle (World.fresh devices)) es,
      m.world.installed.length ≤ 1 ∧ ∀ op, m.pending = some op → OneRoute m.world op := by
  intro m hm
  have hfresh : Coherent (World.fresh devices) := .idle rfl rfl rfl
  have hidle : Sessions.Leaves perform (fun _ _ (_ : Choice) => True) Settling Permitted Coherent
      (Sessions.idle (World.fresh devices)) := ⟨.settled hfresh, hfresh⟩
  have hleaves : Sessions.Leaves perform (fun _ _ (_ : Choice) => True) Settling Permitted Coherent m := by
    refine Sessions.states_leaves (A := fun _ _ => True) (fun _ _ _ _ hw => settles_run hw) (fun _ x => x.elim) ?_ hidle m hm
    exact fun x _ => ⟨Sessions.answers_of_forall (fun _ _ _ => trivial) x.1 x.2,
      Sessions.startsIn_of_forall (fun _ _ => trivial) x.1 x.2⟩
  exact ⟨hleaves.world.installed_le, fun op hpending => (hleaves.of_pending hpending).oneRoute⟩

def nothingFound : Choice where
  snapshot := { observation := { selection := .fresh, split := .none, ignored := [] }, split := .absent }
  view := .error []
  pairs := {}
  text := none
  preference := none
  flag := false
  locked := .ok ()
  lease := .ok ()
  written := .ok ()

def unusedSplit : SplitChoice where
  pair := ⟨unusedSide, unusedSide, [], 0⟩
  key := ⟨unusedSide.unitKey, unusedSide.unitKey⟩
  expected := SplitPair.leaseRequest ⟨unusedSide, unusedSide, [], 0⟩
  authorization := ⟨0, []⟩
where
  unusedSide : CameraNode := ⟨[], [], [], false, false, ⟨[], .usb2, []⟩, [], 0⟩

/-- A request is offered a split with IR forced off, which is refused, and then asks for a camera. -/
def refusedOffer : List Event :=
  .start .prepareCameraRequest :: List.replicate 8 (.answer nothingFound) ++
  [.start (.selectAccountSplitCamera unusedSplit), .answer nothingFound, .answer nothingFound,
    .answer { nothingFound with text := some "1".toList },
    .start (.acquireAccountCamera [] .preview), .answer nothingFound, .answer nothingFound]

theorem refusedOffer_taken :
    ∃ m, run step (Sessions.idle (World.fresh ⟨[], [], false⟩)) refusedOffer = some m ∧ m.world.SplitTaken :=
  ⟨_, rfl, .called (.selectAccountSplitCamera unusedSplit), .tail _ (.tail _ (.head _)), rfl⟩

/-- A split is offered and refused: no ordinary lease follows. -/
theorem camera_request_one_route_refusedOffer :
    ∃ m, run step (Sessions.idle (World.fresh ⟨[], [], false⟩)) refusedOffer = some m ∧ m.world.SplitTaken ∧
      ∀ endpoints kind, m.pending ≠ some (.lease (.ordinary endpoints kind)) := by
  obtain ⟨m, hm, htaken⟩ := refusedOffer_taken
  have hroute := (camera_request_one_route ⟨[], [], false⟩ refusedOffer m (end_mem_states hm)).2
  exact ⟨m, hm, htaken, fun endpoints kind hpending => hroute _ hpending htaken⟩

end Irlume.Request

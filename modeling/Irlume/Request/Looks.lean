import Irlume.Request.Calls

/-!
# What a request only looks at

The validations, the observation and the policy checks read the outside and the engine and leave the engine as it is:
every such part `Looks`. Two of them say something of the selection they let through.
-/

namespace Irlume.Request

open Irlume.Lib Irlume.Inventory Irlume.Split Irlume.Config
open Irlume.Lease (CameraOperationKind)

abbrev Reacted : Program.Reacts World Op Answer := Program.reactsBy perform fun _ _ (_ : Choice) => True

/-- The calls of a part that changes nothing, requests no lease and persists nothing. -/
def Op.looks : Op → Bool
  | .edit _ | .lease _ | .publish _ | .admitPublication .standing | .admitPublication (.selected _) => false
  | _ => true

variable {α β : Type} {w w' : World}

theorem eq_of_looks {op : Op} {answer : Answer op} (hop : op.looks = true) (h : Reacted w op answer w') : w' = w := by
  obtain ⟨c, -, hperform⟩ := h
  cases op with
  | edit e | lease l | publish p => cases hop
  | _ => exact ((Prod.mk.inj (Option.some.inj hperform)).2).symm

/-- A part that looks, whose result is as `P` says. -/
abbrev Looks (P : α → Prop) (p : Requests α) (w : World) : Prop :=
  Fallible.Guarded Reacted (fun w' => w' = w) (fun _ op => op.looks = true) (fun a _ => P a) (fun _ _ => True) p w

section

variable {P : α → Prop} {Q : β → Prop}

theorem looks_pure {a : α} (h : P a) : Looks P (pure a) w := Fallible.guarded_pure rfl h

theorem looks_throw {e : Error} : Looks P (throw e) w := Fallible.guarded_throw rfl trivial

theorem Looks.then {p : Requests α} {k : α → Requests β} (h : Looks P p w) (hk : ∀ a, P a → Looks Q (k a) w) :
    Looks Q (p >>= k) w := by
  refine Fallible.Guarded.bind h fun a w' hsame hP => ?_
  subst hsame
  exact hk a hP

theorem looks_ask (op : Op) (hop : op.looks = true) {k : Answer op → Requests β}
    (hk : ∀ answer, Looks Q (k answer) w) : Looks Q (ask op >>= k) w := by
  refine ⟨rfl, hop, fun answer w' hreact => ?_⟩
  obtain rfl := eq_of_looks hop hreact
  exact hk answer

theorem looks_asked (op : Op) (hop : op.looks = true) : Looks (fun _ => True) (ask op) w := by
  refine ⟨rfl, hop, fun answer w' hreact => ?_⟩
  obtain rfl := eq_of_looks hop hreact
  exact ⟨rfl, trivial⟩

theorem looks_engine {k : Engine → Requests β} (hk : Looks Q (k w.engine) w) : Looks Q (ask .engine >>= k) w := by
  refine ⟨rfl, rfl, fun answer w' hreact => ?_⟩
  obtain ⟨c, -, hperform⟩ := hreact
  cases hperform
  exact hk

theorem looks_orThrow {ε : Type} {answer : Except ε α} {f : ε → Error} :
    Looks (fun a => answer = .ok a) (orThrow answer f) w := by
  cases answer with
  | ok a => exact looks_pure rfl
  | error e => exact looks_throw

theorem looks_refuseIf {p : Prop} [Decidable p] {e : Error} : Looks (fun _ => ¬ p) (refuseIf p e) w := by
  unfold refuseIf
  split
  · exact looks_throw
  · next h => exact looks_pure h

theorem looks_doIf {p : Prop} [Decidable p] {part : Requests Unit} (h : Looks (fun _ => True) part w) :
    Looks (fun _ => True) (doIf p part) w := by
  unfold doIf
  split
  · exact h
  · exact looks_pure trivial

theorem Looks.any {p : Requests α} (h : Looks P p w) : Looks (fun _ => True) p w :=
  h.mono (fun _ _ _ _ => trivial) fun _ _ _ h => h

end

/-! ## The environment and the policy -/

theorem looks_irForcedOff : Looks (fun _ => True) irForcedOff w :=
  looks_ask _ rfl fun _ => looks_pure trivial

theorem looks_ordinaryEnvironmentPair : Looks (fun _ => True) ordinaryEnvironmentPair w := by
  refine looks_ask _ rfl fun rgb => ?_
  cases rgb with
  | none => exact looks_pure trivial
  | some rgb =>
    refine looks_ask _ rfl fun ir => ?_
    cases ir with
    | none => exact looks_pure trivial
    | some ir => exact looks_pure trivial

theorem looks_externalForbidden : Looks (fun _ => True) externalForbidden w := by
  refine looks_ask _ rfl fun preference => ?_
  split
  · exact looks_pure trivial
  · exact looks_ask _ rfl fun _ => looks_pure trivial

theorem looks_splitExternalPolicy {pair : SplitPair} : Looks (fun _ => True) (splitExternalPolicy pair) w := by
  unfold splitExternalPolicy
  split
  · exact looks_pure trivial
  · refine looks_externalForbidden.then fun _ _ => looks_refuseIf.then fun _ _ => ?_
    exact looks_ask _ rfl fun _ => looks_refuseIf.any

/-! ## The retained selection -/

variable {s : PreparedSelection} {e : Engine} {split : PreparedSplit}

theorem looks_admitted {entry : SplitTrustEntry} : Looks (fun _ => True) entry.admitted w := looks_asked _ rfl

theorem looks_splitEntryActive :
    Looks (fun active => active = true → s.activeEntry = some split.entry) (s.splitEntryActive split) w := by
  unfold PreparedSelection.splitEntryActive
  split
  · next hdeclared => exact looks_admitted.mono (fun _ _ _ _ _ => hdeclared) fun _ _ _ h => h
  · exact looks_pure nofun

theorem looks_admitsEntry {entry : SplitTrustEntry} : Looks (fun _ => True) (s.admitsEntry entry) w := by
  unfold PreparedSelection.admitsEntry
  split
  · exact looks_admitted
  · exact looks_pure trivial

theorem looks_splitClosed : Looks (fun _ => True) s.splitClosed w := by
  unfold PreparedSelection.splitClosed
  split
  · split
    · exact looks_admitted.then fun _ _ => looks_pure trivial
    · exact looks_pure trivial
  · split
    · exact looks_splitEntryActive.then fun _ _ => looks_pure trivial
    · exact looks_pure trivial

theorem looks_ordinaryIsCurrent : Looks (fun _ => True) s.ordinaryIsCurrent w := by
  unfold PreparedSelection.ordinaryIsCurrent
  split
  · exact looks_ask _ rfl fun _ => looks_pure trivial
  · exact looks_pure trivial

theorem looks_validateDevices : Looks (fun _ => True) (s.validateDevices e) w :=
  looks_refuseIf.then fun _ _ => looks_ordinaryIsCurrent.then fun _ _ => looks_refuseIf.any

theorem looks_splitConfigAuthority : Looks (fun _ => True) (s.splitConfigAuthority split) w := by
  refine looks_ask _ rfl fun current => looks_orThrow.then fun _ _ => ?_
  exact looks_refuseIf.then fun _ _ => looks_splitExternalPolicy

theorem looks_validateSplitAuthentication : Looks (fun _ => True) (s.validateSplitAuthentication split) w := by
  refine looks_orThrow.then fun _ _ => looks_ask _ rfl fun _ => ?_
  exact looks_refuseIf.then fun _ _ => looks_splitConfigAuthority

theorem looks_validatePin : Looks (fun _ => True) s.validatePin w := looks_ask _ rfl fun _ => looks_refuseIf.any

theorem looks_withSplitPublication :
    Looks (fun _ => True) (s.withSplitPublication fun _ _ => pure ()) w := by
  unfold PreparedSelection.withSplitPublication
  split
  · exact looks_throw
  · refine looks_orThrow.then fun _ _ => looks_ask _ rfl fun _ => looks_orThrow.then fun _ _ => ?_
    refine looks_ask _ rfl fun _ => looks_orThrow.then fun _ _ => ?_
    exact looks_splitConfigAuthority.then fun _ _ => looks_pure trivial

theorem looks_validatePassive : Looks (fun _ => True) (s.validatePassive e) w := by
  refine looks_validateDevices.then fun _ _ => (looks_doIf looks_validatePin).then fun _ _ => ?_
  split
  · split
    · exact looks_validateSplitAuthentication
    · exact looks_withSplitPublication
  · exact looks_pure trivial

theorem looks_admitsSplitChoice {choice : SplitChoice} :
    Looks (fun _ => s.split = none ∧ s.retainStanding = false) (s.admitsSplitChoice choice) w := by
  refine looks_splitClosed.then fun _ _ => looks_refuseIf.then fun _ _ => ?_
  refine looks_refuseIf.then fun _ hunrouted => looks_refuseIf.then fun _ _ => looks_refuseIf.then fun _ _ => ?_
  refine looks_orThrow.then fun _ _ => looks_pure ?_
  simp only [Bool.or_eq_true, not_or, Bool.not_eq_true] at hunrouted
  exact ⟨Option.isSome_eq_false_iff.1 hunrouted.1.2 |> Option.isNone_iff_eq_none.1, hunrouted.2⟩

/-! ## The observation -/

theorem looks_canonical {path : Text} : Looks (fun _ => True) (canonical path) w :=
  looks_ask _ rfl fun _ => looks_pure trivial

variable {view : ResolvedConnectedPairs}

theorem looks_ordinaryPair {rgb ir : Text} :
    Looks (fun _ => True) (ordinaryPair view rgb ir) w := by
  unfold ordinaryPair
  split
  · exact looks_pure trivial
  · refine looks_canonical.then fun _ _ => looks_canonical.then fun _ _ => ?_
    split
    · exact looks_pure trivial
    · exact looks_pure trivial

variable {route : SelectionRoute}

theorem looks_authenticationPin {selected : Option SplitPairKey} {override choice : Bool} :
    Looks (fun _ => True) (authenticationPin route selected override choice) w := by
  unfold authenticationPin
  split
  · exact looks_pure trivial
  · split
    · exact looks_pure trivial
    · exact looks_admitted.then fun _ _ => looks_pure trivial

theorem looks_provenOverride {env : Option (Text × Text)} :
    Looks (fun _ => True) (provenOverride view route env) w := by
  unfold provenOverride
  split
  · exact looks_throw
  · refine looks_ordinaryPair.then fun proven _ => ?_
    split
    · exact looks_throw
    · exact looks_ask _ rfl fun _ => looks_refuseIf.then fun _ _ => looks_pure trivial

variable {choice : Option EnrollmentCameraChoice}

theorem looks_observeView {records : List AuthorizationRecord} :
    Looks (fun _ => True) (observeView choice records) w := by
  unfold observeView
  split
  · exact looks_ask _ rfl fun _ => looks_orThrow.any
  · exact looks_asked _ rfl

theorem looks_ordinaryOverride :
    Looks (fun _ => True) (ordinaryOverride choice) w := by
  unfold ordinaryOverride
  split
  · exact looks_pure trivial
  · exact looks_ordinaryEnvironmentPair

theorem looks_observeEndpoints {devices : Devices}
    {env : Option (Text × Text)} {pinned overridden : Bool} :
    Looks (fun _ => True) (observeEndpoints devices view route env pinned overridden) w := by
  unfold observeEndpoints
  split
  · exact looks_pure trivial
  split
  · exact looks_provenOverride
  · exact looks_pure trivial

theorem looks_observeOrdinary {rgb ir : Text} {pinned : Bool} :
    Looks (fun _ => True) (observeOrdinary view rgb ir pinned) w := by
  unfold observeOrdinary
  split
  · exact looks_pure trivial
  · exact looks_ordinaryPair

theorem looks_observeChoice {devices : Devices} :
    Looks (fun _ => True) (observeChoice devices choice route) w := by
  refine looks_ask _ rfl fun snapshot => looks_refuseIf.then fun _ _ => looks_orThrow.then fun observed _ => ?_
  refine looks_observeView.then fun view _ => looks_ordinaryOverride.then fun env _ => ?_
  refine looks_authenticationPin.then fun pin _ => looks_observeEndpoints.then fun endpoints _ => ?_
  exact looks_observeOrdinary.then fun ordinary _ => looks_pure trivial

theorem looks_validatePassiveCameraRequest : Looks (fun _ => True) validatePassiveCameraRequest w := by
  refine looks_engine ?_
  split
  · exact looks_validatePassive
  · exact looks_observeChoice.then fun _ _ => looks_pure trivial

theorem looks_validateCameraRequest : Looks (fun _ => True) validateCameraRequest w := by
  refine looks_engine ?_
  split
  · refine looks_splitClosed.then fun _ _ => looks_refuseIf.then fun _ _ => ?_
    exact looks_validatePassiveCameraRequest
  · exact looks_validatePassiveCameraRequest

end Irlume.Request

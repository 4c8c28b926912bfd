import Irlume.Lib.Transcript
import Irlume.Request.Selection

/-!
# The engine, and what its requests ask

Every read of the configuration, the inventory, the environment and the activation predicate is a call that may be
answered anything. The engine changes by edits, each of which is one assignment or a few that belong together; those
made since the outermost scope was opened are kept in `past`, and so are the calls themselves.
-/

namespace Irlume.Request

open Irlume.Lib Irlume.Inventory Irlume.Split Irlume.Config
open Irlume.Lease (CameraOperationKind)

/-- The engine's endpoints. -/
structure Devices where
  rgbDev : Text
  irDev : Text
  irAvailable : Bool

structure Engine where
  devices : Devices
  cameraSelection : Option PreparedSelection

/-- A nested scope ends the Authentication entry of the call it ran. -/
def PreparedSelection.endNested (s : PreparedSelection) : PreparedSelection :=
  if s.activeEntry = some .authentication then { s with activeEntry := none } else s

/-- The calls of the engine. -/
inductive Call where
  | prepareCameraRequest
  | prepareAuthenticationCameraRequest
  | prepareEnrollmentCamera (choice : EnrollmentCameraChoice)
  | prepareSplitEnrollmentCamera (expected : SplitMutationGuard) (authorization : Published)
  | dropScope
  | enterSplitTrust (entry : SplitTrustEntry)
  | leaveSplitTrust
  | selectAccountCamera (pair : ConnectedPair)
  | selectAccountSplitCamera (choice : SplitChoice)
  | validateCameraRequest
  | acquireAccountCamera (endpoints : List Text) (kind : CameraOperationKind)
  | withPreparedCameraPublication

/-- What changes the engine. -/
inductive Edit where
  /-- The call is made: kept in the history, and nothing of the engine changes. -/
  | called (call : Call)
  | setDevices (devices : Devices)
  /-- `camera_selection = Some(prepared)`, in the scope that restores `previous`. -/
  | openScope (prepared : PreparedSelection) (previous : Devices)
  | nestScope
  | dropScope
  | selectOrdinary (pair : ConnectedPair) (available : Bool)
  /-- `split_routing_attempted = true` -/
  | offerSplit (choice : SplitChoice)
  | installSplit (choice : SplitChoice)
  | declareEntry (entry : Option SplitTrustEntry)

/-- The engine with its scopes, innermost first. An outermost scope has the devices it restores. -/
structure World where
  engine : Engine
  scopes : List (Option Devices)
  /-- The calls and edits since the outermost scope was opened, the last one first. -/
  past : List Edit

namespace World

variable (w : World)

def setSelection (selection : Option PreparedSelection) : World :=
  { w with engine := { w.engine with cameraSelection := selection } }

def mapSelection (f : PreparedSelection → PreparedSelection) : World :=
  w.setSelection (w.engine.cameraSelection.map f)

/-- `CameraRequestScope::drop`: an outermost scope clears the selection and restores the devices, unless account routing
chose an ordinary pair that the engine still has. -/
def dropScope : World :=
  match w.scopes with
  | [] => w
  | none :: scopes =>
    { w.mapSelection PreparedSelection.endNested with scopes }
  | some previous :: scopes =>
    let keep := w.engine.cameraSelection.any fun s =>
      s.retainStanding && s.matchesDevices w.engine.devices.rgbDev w.engine.devices.irDev w.engine.devices.irAvailable
    { engine := { devices := if keep then w.engine.devices else previous, cameraSelection := none }
      scopes
      past := [] }

def edited : Edit → World
  | .called _ => w
  | .setDevices devices => { w with engine := { w.engine with devices } }
  | .openScope prepared previous => { w.setSelection (some prepared) with scopes := some previous :: w.scopes }
  | .nestScope => { w with scopes := none :: w.scopes }
  | .dropScope => w.dropScope
  | .selectOrdinary pair available => w.mapSelection (·.selectOrdinary pair available)
  | .offerSplit _ => w.mapSelection ({ · with splitRoutingAttempted := true })
  | .installSplit choice => w.mapSelection (·.installSplit choice)
  | .declareEntry entry => w.mapSelection ({ · with activeEntry := entry })

def edit (e : Edit) : World :=
  let edited := w.edited e
  -- What happens outside every scope belongs to none.
  if edited.scopes = [] then { edited with past := [] } else { edited with past := e :: edited.past }

end World

inductive Lease where
  /-- `acquire_camera_operation` -/
  | ordinary (endpoints : List Text) (kind : CameraOperationKind)
  /-- `acquire_selected_camera_operation` -/
  | selected (expected : OrdinaryLeaseRequest) (endpoints : List Text) (kind : CameraOperationKind)
  /-- `acquire_split_camera_operation` -/
  | split (expected : SplitLeaseRequest) (kind : CameraOperationKind)

/-- Under what a caller persists. -/
inductive Publication where
  | standing
  /-- `with_selected_camera_publication` -/
  | selected (expected : OrdinaryLeaseRequest)
  /-- `with_selected_split_camera_publication` -/
  | split (expected : SplitLeaseRequest) (records : List AuthorizationRecord)

inductive Op where
  | readCameraSelection
  | connectedPairsWithSplit (records : List AuthorizationRecord)
  | enrollmentConnectedPairs (choice : EnrollmentCameraChoice) (records : List AuthorizationRecord)
  /-- `std::env::var(..).ok()` -/
  | env (name : Text)
  | forbidExternalCameras
  | allowExternalSplitCameras
  | splitTrustAdmitted (kind : CameraOperationKind)
  | canonicalize (path : Text)
  | selectedIrAvailable (ir : Text)
  | lockCameraConf
  | engine
  | edit (e : Edit)
  | lease (l : Lease)
  /-- What is checked under the inventory lock before a publication. -/
  | admitPublication (p : Publication)
  /-- The caller's writes. -/
  | publish (p : Publication)

abbrev Answer : Op → Type
  | .readCameraSelection => CameraSelectionSnapshot
  | .connectedPairsWithSplit _ => ResolvedConnectedPairs
  | .enrollmentConnectedPairs _ _ => Except Text ResolvedConnectedPairs
  | .env _ | .canonicalize _ => Option Text
  | .forbidExternalCameras => Option Bool
  | .allowExternalSplitCameras | .splitTrustAdmitted _ | .selectedIrAvailable _ => Bool
  | .lockCameraConf => Except Text Unit
  | .engine => Engine
  | .edit _ => Unit
  | .lease _ | .admitPublication _ => Except LeaseError Unit
  | .publish _ => Except Error Unit

/-- What the outside decides about one call. -/
structure Choice where
  snapshot : CameraSelectionSnapshot
  view : Except Text ResolvedConnectedPairs
  pairs : ResolvedConnectedPairs
  text : Option Text
  preference : Option Bool
  flag : Bool
  locked : Except Text Unit
  lease : Except LeaseError Unit
  written : Except Error Unit

def perform (w : World) (op : Op) (c : Choice) : Option (Answer op × World) :=
  match op with
  | .readCameraSelection => some (c.snapshot, w)
  | .connectedPairsWithSplit _ => some (c.pairs, w)
  | .enrollmentConnectedPairs _ _ => some (c.view, w)
  | .env _ | .canonicalize _ => some (c.text, w)
  | .forbidExternalCameras => some (c.preference, w)
  | .allowExternalSplitCameras | .splitTrustAdmitted _ | .selectedIrAvailable _ => some (c.flag, w)
  | .lockCameraConf => some (c.locked, w)
  | .engine => some (w.engine, w)
  | .edit e => some ((), w.edit e)
  | .lease _ | .admitPublication _ => some (c.lease, w)
  | .publish _ => some (c.written, w)

abbrev Requests (α : Type) := Fallible Op Answer Error α

def ask (op : Op) : Requests (Answer op) := Fallible.ask op

def orThrow {ε α : Type} (answer : Except ε α) (f : ε → Error) : Requests α :=
  match answer with
  | .ok a => pure a
  | .error e => throw (f e)

end Irlume.Request

/-!
## The calls of one engine

The preparations, the split trust entries, the two account routings, the acquisition and the publication of
`request_preparation.rs`. A preparation that succeeds opens a scope; its drop is a call of its own, so the scopes of a
run are nested as the borrow makes them.
-/

namespace Irlume.Request

open Irlume.Lib Irlume.Inventory Irlume.Split Irlume.Config
open Irlume.Lease (CameraOperationKind)

def change (e : Edit) : Requests Unit := ask (.edit e)

def refuseIf (p : Prop) [Decidable p] (e : Error) : Requests Unit := if p then throw e else pure ()

def doIf (p : Prop) [Decidable p] (part : Requests Unit) : Requests Unit := if p then part else pure ()

/-! ## The environment and the policy -/

/-- `ir_forced_off` -/
def irForcedOff : Requests Bool := do return (← ask (.env "IRLUME_FORCE_NO_IR")) = some "1"

def ordinaryEnvironmentPair : Requests (Option (Text × Text)) := do
  match ← ask (.env "IRLUME_RGB_DEVICE") with
  | none => return none
  | some rgb =>
    match ← ask (.env "IRLUME_IR_DEVICE") with
    | none => return none
    | some ir => return if trim rgb ≠ [] ∧ trim ir ≠ [] then some (rgb, ir) else none

def splitExternalForbidden : Text := "split camera choice has an external side and is forbidden"

def splitBuiltInRefusal : Text :=
  "split camera pairs use built-in cameras; this choice has an external side (allow_external_split_cameras=1 allows it)"

def externalForbidden : Requests Bool := do
  if (← ask .forbidExternalCameras).getD true then return true
  else return (← ask (.env "IRLUME_CAMERA_REQUIRE_FIXED")) = some "1"

def splitExternalPolicy (pair : SplitPair) : Requests Unit := do
  if pair.rgb.fixed && pair.ir.fixed then return ()
  refuseIf (← externalForbidden) (.policy splitExternalForbidden)
  refuseIf (!(← ask .allowExternalSplitCameras)) (.policy splitBuiltInRefusal)

def splitActivationRefusal : Error := .policy LeaseError.splitActivationDisabled.message

def ordinaryPathSplitRefusal : Error :=
  .policy ("this request uses the ordinary camera path, which never opens a split camera pair; " ++
    "explicit split enrollment uses `irlume enroll --split-camera-choice`").toList

def SplitTrustEntry.admitted (entry : SplitTrustEntry) : Requests Bool := ask (.splitTrustAdmitted entry.kind)

/-! ## The retained selection -/

namespace PreparedSelection

variable (s : PreparedSelection)

def splitEntryActive (split : PreparedSplit) : Requests Bool := do
  if s.activeEntry = some split.entry then split.entry.admitted else return false

def admitsEntry (entry : SplitTrustEntry) : Requests Bool := do
  if s.split.any (·.entry = entry) then entry.admitted else return false

def splitClosed : Requests Bool := do
  if s.pin.isSome then
    if s.activeEntry = some .authentication then return !(← SplitTrustEntry.admitted .authentication) else return true
  else
    match s.split with
    | some split => return !(← s.splitEntryActive split)
    | none => return false

def pairIsCurrent (expected : ConnectedPair) : Requests Bool := do
  let current := (← ask (.connectedPairsWithSplit [])).ordinary
  return current.state = .current && current.supervisorId = s.view.ordinary.supervisorId &&
    timesListed expected current.pairs = 1

def ordinaryIsCurrent : Requests Bool := do
  match s.pair with
  | some (.ordinary expected) => s.pairIsCurrent expected
  | _ => return true

def devicesChanged : Error := .policy "camera endpoints or availability changed during prepared request"

def validateDevices (e : Engine) : Requests Unit := do
  refuseIf (!s.matchesDevices e.devices.rgbDev e.devices.irDev e.devices.irAvailable) devicesChanged
  refuseIf (!(← s.ordinaryIsCurrent)) (.policy "prepared ordinary camera pair is no longer Current")

def authorizationChanged : Error := .policy "split authorization changed during the prepared operation"

def splitConfigAuthority (split : PreparedSplit) : Requests Unit := do
  let current ← ask .readCameraSelection
  let _ ← orThrow (verifiedSplitRecords current split.authorization) id
  refuseIf (current.split ≠ s.snapshot.split) authorizationChanged
  splitExternalPolicy split.pair

def retainedRecords (split : PreparedSplit) : Except Error (List AuthorizationRecord) :=
  if !splitGuardMatches split.displayed split.pair then
    .error (.policy "split proof does not retain the original displayed guard")
  else
    match s.snapshot.split with
    | .valid _ records _ => .ok records
    | _ => .error (.policy "split publication has no verified records")

def validateSplitAuthentication (split : PreparedSplit) : Requests Unit := do
  let records ← orThrow (s.retainedRecords split) id
  let current ← ask (.connectedPairsWithSplit records)
  refuseIf (timesListed split.pair current.splitPairs ≠ 1)
    (.policy "prepared split camera pair is no longer Current")
  s.splitConfigAuthority split

def validatePin : Requests Unit := do
  let current ← ask .readCameraSelection
  refuseIf (invalidSelection current ∨ current.split ≠ s.snapshot.split) authorizationChanged

/-- Publish under the retained split, which the canonical resolution and the configuration must still authorize. -/
def withSplitPublication (publish : SplitLeaseRequest → List AuthorizationRecord → Requests Unit) : Requests Unit := do
  match s.split with
  | none => throw (.policy "split publication has no retained proof")
  | some split =>
    let records ← orThrow (s.retainedRecords split) id
    orThrow (← ask (.admitPublication (.split split.expected records))) leaseUnavailable
    orThrow (← ask .lockCameraConf) .io
    s.splitConfigAuthority split
    publish split.expected records

def validatePassive (e : Engine) : Requests Unit := do
  s.validateDevices e
  doIf s.pin.isSome s.validatePin
  match s.split with
  | some split =>
    if split.entry = .authentication then s.validateSplitAuthentication split
    else s.withSplitPublication fun _ _ => pure ()
  | none => return ()

def admitsSplitChoice (choice : SplitChoice) : Requests Unit := do
  refuseIf (← s.splitClosed) splitActivationRefusal
  refuseIf (!s.routesAccounts || s.split.isSome || s.retainStanding)
    (.policy "split account routing needs an unrouted automatic or pinned request")
  refuseIf (s.pin.any (· ≠ choice.key)) (.policy "split account choice is not the pinned pair")
  refuseIf (timesListed choice.pair s.view.splitPairs ≠ 1 ∨ choice.pair.leaseRequest ≠ choice.expected ∨
      choice.pair.pairKey.toOption ≠ some choice.key)
    (.policy "split account choice is not from this request's retained snapshot")
  let _ ← orThrow (verifiedSplitRecords s.snapshot choice.authorization) id

/-- The only acquisition of a retained split: both original sides, for the declared entry. -/
def acquireSplitOperation (endpoints : List Text) (kind : CameraOperationKind) : Requests (Except LeaseError Unit) := do
  match s.split with
  | none => return .error .splitActivationDisabled
  | some split =>
    if !(← s.splitEntryActive split) || kind ≠ split.entry.kind then return .error .splitActivationDisabled
    if endpoints ≠ [split.expected.rgb.endpoint, split.expected.ir.endpoint] then
      return .error (.invalidEndpoint "a split camera operation leases both original sides, RGB then IR")
    ask (.lease (.split split.expected kind))

end PreparedSelection

/-! ## The observation -/

def canonical (path : Text) : Requests Text := do return (← ask (.canonicalize path)).getD path

def ordinaryPair (view : ResolvedConnectedPairs) (rgb ir : Text) : Requests (Option ConnectedPair) := do
  if view.ordinary.state ≠ .current then return none
  let rgb ← canonical rgb
  let ir ← canonical ir
  match view.ordinary.pairs.filter fun pair => pair.rgb = rgb ∧ pair.ir = ir with
  | [pair] => return some pair
  | _ => return none

def authenticationPin (route : SelectionRoute) (selected : Option SplitPairKey)
    (ordinaryOverride enrollmentChoice : Bool) : Requests (Option SplitPairKey) := do
  if route ≠ .authentication || ordinaryOverride || enrollmentChoice then return none
  match selected with
  | none => return none
  | some key => return if ← SplitTrustEntry.admitted .authentication then some key else none

def provenOverride (view : ResolvedConnectedPairs) (route : SelectionRoute) (env : Option (Text × Text)) :
    Requests (Text × Text) := do
  match env with
  | none => throw (match route with | .generic => ordinaryPathSplitRefusal | .authentication => splitActivationRefusal)
  | some (rgb, ir) =>
    match ← ordinaryPair view rgb ir with
    | none => throw (.policy "ordinary camera override is not a unique Current ordinary pair")
    | some proven =>
      refuseIf ((← ask .forbidExternalCameras).getD true && !proven.fixed)
        (.policy "ordinary camera override is external and forbidden")
      return (rgb, ir)

def observedSplit : SplitReadState → Except Error (List AuthorizationRecord × Option SplitPairKey)
  | .absent => .ok ([], none)
  | .valid _ records selected => .ok (records, selected)
  | .unreadable | .malformed | .malformedGeneration _ | .unresolvedSelection _ _ | .digestMismatch _ =>
    .error (.policy "split camera selection cannot be verified; use your password")

def ranksAutomatically : CameraSelectionObservation → Bool
  | .fresh | .automatic _ => true
  | _ => false

def observeView (choice : Option EnrollmentCameraChoice) (records : List AuthorizationRecord) :
    Requests ResolvedConnectedPairs := do
  match choice with
  | some choice => orThrow (← ask (.enrollmentConnectedPairs choice records)) .policy
  | none => ask (.connectedPairsWithSplit records)

def ordinaryOverride (choice : Option EnrollmentCameraChoice) : Requests (Option (Text × Text)) :=
  match choice with
  | some choice => pure (some (choice.rgb, choice.ir))
  | none => ordinaryEnvironmentPair

def observeEndpoints (devices : Devices) (view : ResolvedConnectedPairs) (route : SelectionRoute)
    (env : Option (Text × Text)) (pinned overridden : Bool) : Requests (Text × Text) :=
  if pinned then pure (devices.rgbDev, devices.irDev)
  else if overridden then provenOverride view route env
  else pure (devices.rgbDev, devices.irDev)

def observeOrdinary (view : ResolvedConnectedPairs) (rgb ir : Text) (pinned : Bool) : Requests (Option ConnectedPair) :=
  if pinned then pure none else ordinaryPair view rgb ir

def observeChoice (devices : Devices) (choice : Option EnrollmentCameraChoice) (route : SelectionRoute) :
    Requests PreparedSelection := do
  let snapshot ← ask .readCameraSelection
  refuseIf (invalidSelection snapshot) (.policy "camera selection is invalid or unreadable; use your password")
  let (records, selected) ← orThrow (observedSplit snapshot.split) id
  let view ← observeView choice records
  let env ← ordinaryOverride choice
  let pin ← authenticationPin route selected env.isSome choice.isSome
  let (rgb, ir) ← observeEndpoints devices view route env pin.isSome (selected.isSome || choice.isSome)
  let ordinary ← observeOrdinary view rgb ir pin.isSome
  return {
    snapshot
    view
    pair := ordinary.map .ordinary
    rgb
    ir
    irAvailable := devices.irAvailable
    automatic := env.isNone && ranksAutomatically snapshot.observation.selection
    retainStanding := false
    splitRoutingAttempted := false
    enrollmentChoice := choice.isSome
    activeEntry := none
    pin }

/-! ## The calls -/

def validatePassiveCameraRequest : Requests Unit := do
  let e ← ask .engine
  match e.cameraSelection with
  | some s => s.validatePassive e
  | none =>
    let _ ← observeChoice e.devices none .generic

def validateCameraRequest : Requests Unit := do
  match (← ask .engine).cameraSelection with
  | some s =>
    refuseIf (← s.splitClosed) splitActivationRefusal
    validatePassiveCameraRequest
  | none => validatePassiveCameraRequest

/-- `set_devices` -/
def setDevices (rgb ir : Text) : Requests Unit := do
  change (.setDevices { rgbDev := rgb, irDev := ir, irAvailable := ← ask (.selectedIrAvailable ir) })

def prepareObserved (route : SelectionRoute) : Requests Unit := do
  let previous := (← ask .engine).devices
  let prepared ← observeChoice previous none route
  doIf (previous.rgbDev ≠ prepared.rgb ∨ previous.irDev ≠ prepared.ir) (setDevices prepared.rgb prepared.ir)
  let irAvailable := (← ask .engine).devices.irAvailable
  change (.openScope { prepared with irAvailable } previous)

def prepareCameraRequest : Requests Unit := do
  let e ← ask .engine
  match e.cameraSelection with
  | some s =>
    refuseIf (s.authenticationRouted) splitActivationRefusal
    validateCameraRequest
    s.validateDevices e
    change .nestScope
  | none => prepareObserved .generic

def prepareAuthenticationCameraRequest : Requests Unit := do
  let e ← ask .engine
  match e.cameraSelection with
  | none =>
    prepareObserved .authentication
    -- This call retained the pin and declares its own entry.
    doIf ((← ask .engine).cameraSelection.any (·.pin.isSome)) (change (.declareEntry (some .authentication)))
  | some s =>
    refuseIf (s.split.isSome) splitActivationRefusal
    validateCameraRequest
    s.validateDevices e
    change .nestScope

def replacedRequest : Error := .policy "enrollment choice cannot replace a prepared request"

def prepareEnrollmentCamera (choice : EnrollmentCameraChoice) : Requests Unit := do
  orThrow choice.validate .policy
  let e ← ask .engine
  refuseIf (e.cameraSelection.isSome) replacedRequest
  let prepared ← observeChoice e.devices (some choice) .generic
  setDevices prepared.rgb prepared.ir
  let irAvailable := !(← irForcedOff)
  change (.setDevices { rgbDev := prepared.rgb, irDev := prepared.ir, irAvailable })
  change (.openScope { prepared with irAvailable, automatic := false } e.devices)

def prepareSplitEnrollmentCamera (expected : SplitMutationGuard) (authorization : Published) : Requests Unit := do
  orThrow expected.validate .policy
  let e ← ask .engine
  refuseIf (e.cameraSelection.isSome) replacedRequest
  let snapshot ← ask .readCameraSelection
  let records ← orThrow (verifiedSplitRecords snapshot authorization) id
  let view ← ask (.connectedPairsWithSplit records)
  match view.splitPairs.filter (splitGuardMatches expected) with
  | [] => throw (.policy "split choice is not a unique authorized Current pair")
  | _ :: _ :: _ => throw (.policy "split choice is ambiguous")
  | [pair] =>
    splitExternalPolicy pair
    let key ← orThrow pair.pairKey fun reason => .policy (keyErrorMessage reason)
    let prepared : PreparedSelection := {
      snapshot
      view
      pair := some (.split {
        pair
        key
        expected := pair.leaseRequest
        displayed := expected
        authorization
        entry := .enrollment })
      rgb := pair.rgb.path
      ir := pair.ir.path
      irAvailable := !(← irForcedOff)
      automatic := false
      retainStanding := false
      splitRoutingAttempted := false
      enrollmentChoice := true
      activeEntry := none
      pin := none }
    prepared.withSplitPublication fun _ _ => pure ()
    change (.setDevices { rgbDev := prepared.rgb, irDev := prepared.ir, irAvailable := prepared.irAvailable })
    change (.openScope prepared e.devices)

/-- The request is validated, and the declared entry closed again where it fails. -/
def validateOrLeave : Requests Unit := do
  match ← Fallible.attempt validateCameraRequest with
  | .ok () => return ()
  | .error error =>
    change (.declareEntry none)
    throw error

def enterSplitTrust (entry : SplitTrustEntry) : Requests Unit := do
  refuseIf (entry = .authentication) splitActivationRefusal
  match (← ask .engine).cameraSelection with
  | none => throw splitActivationRefusal
  | some s =>
    refuseIf (!(← s.admitsEntry entry)) splitActivationRefusal
    refuseIf (s.activeEntry.isSome) (.policy "a split camera trust entry is already running in this request")
    refuseIf (!s.irAvailable) (.policy "split camera trust needs both sides and IR is unavailable or forced off")
    change (.declareEntry (some entry))
    validateOrLeave

def noScope : Error := .policy "account selection has no request scope"

def selectAccountCamera (pair : ConnectedPair) : Requests Unit := do
  refuseIf ((← ask .engine).cameraSelection.any PreparedSelection.retainsSplit) splitActivationRefusal
  let available := !(← irForcedOff)
  change (.setDevices { rgbDev := pair.rgb, irDev := pair.ir, irAvailable := available })
  refuseIf ((← ask .engine).cameraSelection.isNone) noScope
  change (.selectOrdinary pair available)
  validateCameraRequest

def selectAccountSplitCamera (choice : SplitChoice) : Requests Unit := do
  -- Marked before any check.
  change (.offerSplit choice)
  refuseIf (← irForcedOff) (.policy "split camera authentication needs both sides and IR is forced off")
  splitExternalPolicy choice.pair
  match (← ask .engine).cameraSelection with
  | none => throw noScope
  | some s =>
    s.admitsSplitChoice choice
    change (.setDevices { rgbDev := choice.pair.rgb.path, irDev := choice.pair.ir.path, irAvailable := true })
    change (.installSplit choice)
    validateOrLeave

/-- A session, or why there is none. How long the caller waits is left to the camera crate. -/
def acquireAccountCamera (endpoints : List Text) (kind : CameraOperationKind) : Requests (Except LeaseError Unit) := do
  let selection := (← ask .engine).cameraSelection
  match selection.filter PreparedSelection.retainsSplit with
  | some s => s.acquireSplitOperation endpoints kind
  | none =>
    match selection.bind PreparedSelection.expectedLease with
    | some expected => ask (.lease (.selected expected endpoints kind))
    | none => ask (.lease (.ordinary endpoints kind))

def withPreparedCameraPublication : Requests Unit := do
  let e ← ask .engine
  match e.cameraSelection.filter PreparedSelection.retainsSplit with
  | some s =>
    refuseIf (!s.matchesDevices e.devices.rgbDev e.devices.irDev e.devices.irAvailable) PreparedSelection.devicesChanged
    refuseIf (!s.split.any (·.entry = .enrollment))
      (.policy "split publication has no retained enrollment proof")
    s.withSplitPublication fun expected records => do orThrow (← ask (.publish (.split expected records))) id
  | none =>
    match e.cameraSelection.bind PreparedSelection.expectedLease with
    | some expected =>
      orThrow (← ask (.admitPublication (.selected expected))) leaseUnavailable
      orThrow (← ask (.publish (.selected expected))) id
    | none =>
      refuseIf (e.cameraSelection.any (·.enrollmentChoice))
        (.policy "operation camera publication has no retained proof")
      orThrow (← ask (.publish .standing)) id

def Call.program : Call → Requests Unit
  | .prepareCameraRequest => Request.prepareCameraRequest
  | .prepareAuthenticationCameraRequest => Request.prepareAuthenticationCameraRequest
  | .prepareEnrollmentCamera choice => Request.prepareEnrollmentCamera choice
  | .prepareSplitEnrollmentCamera expected authorization => Request.prepareSplitEnrollmentCamera expected authorization
  | .dropScope => change .dropScope
  | .enterSplitTrust entry => Request.enterSplitTrust entry
  | .leaveSplitTrust => change (.declareEntry none)
  | .selectAccountCamera pair => Request.selectAccountCamera pair
  | .selectAccountSplitCamera choice => Request.selectAccountSplitCamera choice
  | .validateCameraRequest => Request.validateCameraRequest
  | .acquireAccountCamera endpoints kind => do
    let _ ← Request.acquireAccountCamera endpoints kind
  | .withPreparedCameraPublication => Request.withPreparedCameraPublication

def Call.run (call : Call) : Program Op Answer Unit := do
  let _ ← (do change (.called call); call.program : Requests Unit).run

end Irlume.Request

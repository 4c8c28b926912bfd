import Irlume.Lib.ByteReader
import Irlume.Pam.Grammar
import Irlume.Lib.Transcript

/-!
# The service a request is for, and where its user is

`pam_service.rs` names every PAM service and what it is; `is_remote_session` reads the items of the transaction, the
login session behind a prompt or a command, and the environment. Nothing in a call of the module sets any of these,
so they are read from one record of the call, an item that PAM refuses to give included. What logind says of the
session is an answer of its own.
-/

namespace Irlume.Authenticate

open Irlume.Lib Irlume.Pam

abbrev Bytes := List UInt8

abbrev PamResult (α : Type) := Except ReturnValue α

/-! ## The services -/

inductive ServiceKind where
  | screenUnlock
  | greeter
  | elevation
  | appConsent
  | remote
  deriving DecidableEq

namespace ServiceKind

def requiresFaceIntentConfirmation : ServiceKind → Bool
  | elevation | appConsent => true
  | _ => false

def wantsConsentInstruction : ServiceKind → Bool
  | appConsent => true
  | _ => false

end ServiceKind

def services : List (String × ServiceKind) :=
  [("kde", .screenUnlock), ("kde-fingerprint", .screenUnlock), ("kscreensaver", .screenUnlock),
   ("xscreensaver", .screenUnlock), ("gnome-screensaver", .screenUnlock), ("swaylock", .screenUnlock),
   ("i3lock", .screenUnlock), ("hyprlock", .screenUnlock), ("gtklock", .screenUnlock), ("waylock", .screenUnlock),
   ("omarchy-lock-face", .screenUnlock), ("omarchy-lock-password", .screenUnlock),
   ("cinnamon-screensaver", .screenUnlock),
   ("sddm", .greeter), ("sddm-greeter", .greeter), ("plasmalogin", .greeter), ("gdm-password", .greeter),
   ("gdm-fingerprint", .greeter), ("gdm", .greeter), ("gdm3", .greeter), ("lightdm", .greeter), ("login", .greeter),
   ("greetd", .greeter), ("ly", .greeter), ("cosmic-greeter", .greeter),
   ("sudo", .elevation), ("sudo-i", .elevation), ("su", .elevation), ("su-l", .elevation), ("runuser", .elevation),
   ("runuser-l", .elevation), ("doas", .elevation),
   ("polkit-1", .appConsent), ("polkit", .appConsent),
   ("sshd", .remote), ("remote", .remote), ("cockpit", .remote)]

/-- `str::to_ascii_lowercase` of the trimmed name. -/
def normalized (service : Text) : Text := (trim service).map Char.toLower

def classify (service : Text) : Option ServiceKind :=
  (services.find? fun row => row.1.toList = normalized service).map (·.2)

/-! ## Remote sessions -/

/-- `str::rsplit_once` at a character. -/
def rsplitOnceAt (c : Char) (t : Text) : Option (Text × Text) :=
  (splitOnceAt c t.reverse).map fun (after, before) => (before.reverse, after.reverse)

def namesRemoteXDisplay (display : Text) : Bool :=
  let display := trim display
  if startsWith display "/" then false
  else
    match rsplitOnceAt ':' display with
    | none => false
    | some (host, number) =>
      let n := number.takeWhile (· ≠ '.')
      if !(n ≠ [] && n.all Char.isDigit) then false
      else
        match splitOnceAt '/' host with
        | some (protocol, _) => !(eqIgnoreAsciiCase protocol "unix" || eqIgnoreAsciiCase protocol "local")
        | none => host ≠ [] && !eqIgnoreAsciiCase host "unix"

def isRemoteDesktopService (service : Text) : Bool :=
  if classify service = some .remote then true
  else
    let s := normalized service
    startsWith s "xrdp" || contains s "vnc" || startsWith s "xpra" || s = "nx".toList || startsWith s "nxagent" ||
      startsWith s "nxnode" || startsWith s "nxserver" || s = "sshd".toList

/-- What holds throughout one call of the module: the items PAM keeps for it, the session behind the prompt or the
command, the environment, and the machine's consent setting. -/
structure Surroundings where
  user : PamResult (Option Bytes)
  rhost : PamResult (Option Bytes)
  xdisplay : PamResult (Option Bytes)
  tty : PamResult (Option Bytes)
  service : PamResult (Option Bytes)
  consentRequesterIsLocal : Bool
  elevationCallerIsLocal : Bool
  sshConnection : Bool
  sshTty : Bool
  privilegedFaceConsentRequired : Bool

namespace Surroundings

/-- `.ok().flatten()`. -/
def item (value : PamResult (Option Bytes)) : Option Bytes := value.toOption.join

def isRemoteHost (rhost : Text) : Bool :=
  let h := trim rhost
  !(h = [] || eqIgnoreAsciiCase h "localhost" || eqIgnoreAsciiCase h "localhost.localdomain" ||
    h = "127.0.0.1".toList || h = "::1".toList)

def isRemoteService (s : Surroundings) (service : Text) : Bool :=
  if isRemoteDesktopService service then true
  else
    match classify service with
    | some .appConsent => !s.consentRequesterIsLocal
    | some .elevation => !s.elevationCallerIsLocal
    | _ => false

def isRemoteSession (s : Surroundings) : Bool :=
  if (item s.rhost).any fun h => isRemoteHost (fromUtf8Lossy h) then true
  else if ((item s.xdisplay).any fun v => namesRemoteXDisplay (fromUtf8Lossy v)) ||
      (item s.tty).any fun v => namesRemoteXDisplay (fromUtf8Lossy v) then true
  else if (item s.service).any fun v => s.isRemoteService (fromUtf8Lossy v) then true
  else s.sshConnection || s.sshTty

def serviceName (s : Surroundings) : Option Text := (item s.service).bind ofBytes

def serviceLossy (s : Surroundings) : Option Text := (item s.service).map fromUtf8Lossy

def serviceKind (s : Surroundings) : Option ServiceKind := s.serviceName.bind classify

/-- Whether the service needs an explicit confirmation before a face attempt. -/
def requiresConfirmation (s : Surroundings) : Bool := s.serviceKind.any ServiceKind.requiresFaceIntentConfirmation

end Surroundings

example : classify " SUDO ".toList = some .elevation := by decide

example : [":0", "unix:0", "unix/:0", "/dev/tty1"].any (fun t => namesRemoteXDisplay t.toList) = false ∧
    ["localhost:10", "tcp/host:0.1"].all (fun t => namesRemoteXDisplay t.toList) := by decide

end Irlume.Authenticate

/-!
## The PAM module's `authenticate`

The module of `irlume-pam`, with every exchange of its as a call that any answer may come back from: the token PAM
keeps, the conversation, the daemon, the clock. `return` in the middle of the function is an error here, which
`firewall` turns back into the code returned, and the retry loop takes the number of rounds it may still make; running
out of them is the other error.
-/

namespace Irlume.Authenticate

open Irlume.Lib Irlume.Pam

/-! ## What crosses the boundary -/

/-- How a privileged face request claims explicit user intent was collected. -/
inductive IntentAttestation where
  | pamConversation
  | policyWaived
  deriving DecidableEq

inductive Request where
  | authenticate (structuredErrors : Bool) (user : Text) (service : Option Text)
      (intentConfirmation : Option IntentAttestation)
  | unsealPassword (user : Text) (service : Option Text)
  | health
  | faceSensorStatus (user : Option Text)
  deriving DecidableEq

inductive KeyringSecretKind where
  | loginPassword
  | kdeWalletKey
  | gnomeKeyringToken

inductive FaceSensorPolicy where
  | dual
  | irOnlyExperimental
  deriving DecidableEq

inductive FaceSensorPolicyObservation where
  | defaultDual
  | explicit (policy : FaceSensorPolicy)
  | invalid
  | unreadable

def FaceSensorPolicyObservation.resolve : FaceSensorPolicyObservation → Option FaceSensorPolicy
  | defaultDual => some .dual
  | explicit policy => some policy
  | invalid | unreadable => none

/-- What the daemon answers, as far as the module reads it. -/
inductive Response where
  | authResult (granted live declinedByGesture : Bool) (situation : Text)
  | passwordUnsealed (secret : Bytes) (kind : KeyringSecretKind)
  | unsealUnavailable
  | health (tier : Text) (splitTrust : Option Bool)
  | faceSensorStatus (policy : FaceSensorPolicyObservation)
  | other

/-- The outcome of one `irlume-kwallet-init` attempt. -/
inductive WalletHandoff where
  | started
  | notReady
  | failed

/-- A time in milliseconds, on the clock or between two of its readings. -/
abbrev Time := Nat

/-- The calls of the module. -/
inductive Op where
  | getCachedAuthtok
  | getAuthtok (prompt : Option Text)
  | clearAuthtok
  | setAuthtok (token : Bytes)
  | sendSecret (key : Text) (secret : Bytes)
  | info (message : Text)
  | request (r : Request)
  | requestUntil (r : Request) (deadline : Time)
  | handKeyToWalletDaemon (user : Text) (key : Bytes)
  | userHasLiveSession (user : Text)
  | now
  | sleep (pause : Time)
  deriving DecidableEq

abbrev Answer : Op → Type
  | .getCachedAuthtok | .getAuthtok _ => PamResult (Option Bytes)
  | .clearAuthtok | .setAuthtok _ | .sendSecret _ _ | .info _ => PamResult Unit
  -- A failure of the socket, or a reply.
  | .request _ | .requestUntil _ _ => Option Response
  | .handKeyToWalletDaemon _ _ => WalletHandoff
  | .userHasLiveSession _ => Bool
  | .now => Time
  | .sleep _ => Unit

/-- Why a call of the module does not go on. -/
inductive Exit where
  | returned (code : ReturnValue)
  | rounds

abbrev Module := Fallible Op Answer Exit

def ask (op : Op) : Module (Answer op) := Fallible.ask op

def leave {α : Type} (code : ReturnValue) : Module α := throw (.returned code)

/-- The panic firewall, where a `return` ends. -/
def firewall (body : Module ReturnValue) : Module ReturnValue :=
  ExceptT.mk do
    match ← body.run with
    | .error (.returned code) => return .ok code
    | result => return result

/-! ## The face choice -/

inductive IntentInput where
  | confirmed
  | empty
  | password

inductive IntentConfirmation where
  | confirmed
  | fallback
  | abort

def classifyIntentInput : Option Bytes → IntentInput
  | none => .empty
  | some response =>
    if response = [] then .empty
    else if response.length ≤ 16 ∧ response.all (· < 128) ∧
        (ofBytes response).any (fun text => eqIgnoreAsciiCase (trim text) "yes") then
      .confirmed
    else .password

def resolveIntentInput (input : IntentInput) (clear : Module (PamResult Unit)) : Module IntentConfirmation := do
  match input with
  | .password => return .fallback
  | .empty =>
    match ← clear with
    | .ok () => return .fallback
    | .error _ => return .abort
  | .confirmed =>
    match ← clear with
    | .ok () => return .confirmed
    | .error _ => return .abort

def faceIntentInfo : Text := "Type yes to use face authentication"
def cosmicFacePrompt : Text := "Password or yes for face: "
def passwordPrompt : Text := "Password: "

def confirmFaceIntent (service : ServiceKind) : Module IntentConfirmation := do
  if !service.requiresFaceIntentConfirmation then
    return .fallback
  match ← ask (.info faceIntentInfo) with
  | .error _ => return .fallback
  | .ok () =>
    match ← ask (.getAuthtok none) with
    | .ok (some token) => resolveIntentInput (classifyIntentInput (some token)) (ask .clearAuthtok)
    | _ => return .fallback

/-- Whether the tier is known to be one that can never satisfy a privileged service. -/
def privilegedFaceIsRgbOnly : Module Bool := do
  let deadline := (← ask .now) + 1500
  match ← ask (.requestUntil .health deadline) with
  | some (.health tier splitTrust) =>
    if tier = "convenience" ∧ splitTrust ≠ some true then
      match ← ask (.requestUntil (.faceSensorStatus none) deadline) with
      | some (.faceSensorStatus policy) => return policy.resolve ≠ some .irOnlyExperimental
      | _ => return true
    else return false
  | _ => return false

def askCosmicFace : Module IntentConfirmation := do
  match ← ask (.getAuthtok cosmicFacePrompt) with
  | .ok (some token) => resolveIntentInput (classifyIntentInput (some token)) (ask .clearAuthtok)
  | _ => return .fallback

def confirmCosmicFace : Module IntentConfirmation := do
  match ← ask .getCachedAuthtok with
  | .ok (some (_ :: _)) => return .fallback
  | .ok (some []) =>
    match ← ask .clearAuthtok with
    | .ok () => askCosmicFace
    | .error _ => return .abort
  | .ok none => askCosmicFace
  | .error _ => return .fallback

/-! ## The module's arguments -/

/-- `args.iter().any(|a| a == flag)`. -/
def has (args : List Text) (flag : String) : Bool := args.any (· = flag.toList)

/-- The active probe: ask for the password, and let an empty answer choose face. -/
def probes (args : List Text) : Bool := has args "unseal" && !has args "wait" && !has args "facefirst"

def cosmicChoice (args : List Text) (s : Surroundings) : Bool :=
  has args "unseal" && has args "ondemand" && !has args "wait" && !has args "facefirst" &&
    s.serviceName = some "cosmic-greeter".toList

/-! ## The attempts -/

def situationPrompt (situation : Text) : Option Text :=
  if situation = "timed out" then some "authentication timed out; use your password"
  else if situation = "unavailable" then some "face authentication unavailable; use your password"
  else if situation = "no face" then some "look at the camera"
  else if situation = "too far" then some "come closer"
  else if situation = "off-center" then some "center your face in the frame"
  else if situation = "looking away" then some "look directly at the camera"
  else if situation = "too dark" then some "it is too dark to see your face; add light"
  else if situation = "IR source" then
    some "an IR-bright source is overwhelming the camera; reposition or use your password"
  else none

section

variable (args : List Text) (s : Surroundings) (user : Text)

def tryVerify (intentConfirmation : Option IntentAttestation) : Module ReturnValue := do
  let service := s.serviceLossy
  let isPolkitConsent := (service.bind classify).any ServiceKind.wantsConsentInstruction
  match ← ask (.request (.authenticate false user service intentConfirmation)) with
  | some (.authResult true true _ _) => return .success
  | some (.authResult false _ declinedByGesture situation) =>
    if declinedByGesture && isPolkitConsent then return .abort
    else
      match situationPrompt situation with
      | some action =>
        let _ ← ask (.info ("irlume: ".toList ++ action))
        return .ignore
      | none => return .ignore
  | _ => return .ignore

inductive Released where
  | authtokSet
  | walletStarted
  | tokenStashed
  | failed
  deriving DecidableEq

inductive UnsealAttempt where
  | delivered (released : Released)
  | unavailable
  | failed

def codeFor : Released → ReturnValue
  | .authtokSet | .walletStarted | .tokenStashed => .success
  | .failed => .ignore

def secretCstring (secret : Bytes) : Option Bytes := if 0 ∈ secret then none else some secret

def resealStashKey : Text := "pam_irlume_reseal_authtok"
def gkrTokenStashKey : Text := "pam_irlume_gkr_token"

def releaseSecret (secret : Bytes) : KeyringSecretKind → Module Released
  | .loginPassword =>
    match secretCstring secret with
    | none => return .failed
    | some tok => do
      match ← ask (.setAuthtok tok) with
      | .ok () => return .authtokSet
      | .error _ => return .failed
  | .kdeWalletKey => do
    match ← ask (.handKeyToWalletDaemon user secret) with
    | .started => return .walletStarted
    | .notReady | .failed => return .failed
  | .gnomeKeyringToken => do
    match ← ask (.sendSecret gkrTokenStashKey secret) with
    | .ok () => return .tokenStashed
    | .error _ => return .failed

def tryUnseal : Module UnsealAttempt := do
  match ← ask (.request (.unsealPassword user s.serviceName)) with
  | some (.passwordUnsealed secret kind) => return .delivered (← releaseSecret user secret kind)
  | some .unsealUnavailable => return .unavailable
  | _ => return .failed

/-! ## `authenticate` -/

/-- The `reseal` auth line: keep the token for the session line. -/
def stashAuthtok : Module Unit := do
  match ← ask .getCachedAuthtok with
  | .ok (some (b :: bytes)) =>
    let _ ← ask (.sendSecret resealStashKey (b :: bytes))
    return ()
  | _ => return ()

def cosmicGate : Module Unit := do
  if cosmicChoice args s then
    match ← confirmCosmicFace with
    | .confirmed => return ()
    | .fallback => leave .ignore
    | .abort => leave .abort

/-- The token the user has typed, as far as the surface lets it be learned. -/
def typedToken : Module (Option Bytes) := do
  if cosmicChoice args s then
    -- The face choice was consumed.
    return none
  else if probes args then
    match ← ask (.getAuthtok passwordPrompt) with
    | .ok (some token) => return some token
    | .ok none | .error _ => leave .ignore
  else return Surroundings.item (← ask .getCachedAuthtok)

/-- Defer to a password that was typed; an empty answer to the probe is taken out again. -/
def deferToTyped : Module Unit := do
  match ← typedToken args s with
  | none => return ()
  | some tok =>
    if tok ≠ [] then leave .ignore
    else if probes args then
      match ← ask .clearAuthtok with
      | .ok () => return ()
      | .error _ => leave .ignore

/-- What the request of a privileged service says about the user's intent. -/
def intentGate : Module (Option IntentAttestation) := do
  match s.serviceKind with
  | none => return none
  | some kind =>
    if kind.requiresFaceIntentConfirmation then
      if has args "wait" || has args "unseal" then leave .ignore
      else if ← privilegedFaceIsRgbOnly then leave .ignore
      else if !s.privilegedFaceConsentRequired then return some .policyWaived
      else
        match ← confirmFaceIntent kind with
        | .confirmed => return some .pamConversation
        | .fallback => leave .ignore
        | .abort => leave .abort
    else return none

def waitBudget : Time := 20000
def waitRetryGap : Time := 400

def attempt (intentConfirmation : Option IntentAttestation) : Module (ReturnValue × Released) := do
  if has args "unseal" then
    match ← tryUnseal s user with
    | .delivered released => return (codeFor released, released)
    | .unavailable =>
      -- Release was refused before any face attempt.
      if has args "facefirst" || has args "ondemand" then return (← tryVerify s user none, .failed)
      else return (.ignore, .failed)
    | .failed => return (.ignore, .failed)
  else return (← tryVerify s user intentConfirmation, .failed)

def settle (result : ReturnValue × Released) : Module Unit := do
  if result.1 = .abort then leave .abort
  else if result.1 = .success then
    -- A cold login goes on to `pam_unix` with the password.
    if has args "kr" && result.2 = .authtokSet then
      if !(← ask (.userHasLiveSession user)) then leave .ignore
      else leave .success
    else leave .success
  else return ()

def attempts (intentConfirmation : Option IntentAttestation) (deadline : Time) : Nat → Module ReturnValue
  | 0 => throw .rounds
  | n + 1 => do
    settle args user (← attempt args s user intentConfirmation)
    if !has args "wait" then return .ignore
    if deadline ≤ (← ask .now) then return .ignore
    ask (.sleep waitRetryGap)
    attempts intentConfirmation deadline n

end

def userOf (s : Surroundings) : Option Text := (Surroundings.item s.user).map fromUtf8Lossy

/-- `authenticate`, with at most `fuel` attempts. -/
def authenticate (args : List Text) (s : Surroundings) (fuel : Nat) : Module ReturnValue :=
  firewall do
    match userOf s with
    | none => return .ignore
    | some user =>
      if s.isRemoteSession then return .ignore
      if has args "keyring" then return .ignore
      if has args "reseal" then
        stashAuthtok
        return .ignore
      cosmicGate args s
      deferToTyped args s
      let intentConfirmation ← intentGate args s
      let deadline := (← ask .now) + waitBudget
      attempts args s user intentConfirmation deadline fuel

end Irlume.Authenticate

import Irlume.Sealed.World

/-!
# The operations on the keyring envelope and on the template key

`keyring.rs` and `template_key.rs`. Each operation has its own view of the account, loads the envelope, and
writes it through its own path. What a password wrap opens to under a password (`recovery::unwrap`) is `opens`.
-/

namespace Irlume.Sealed

open Irlume.Lib

variable {Blob Wrap : Type}

def recordFor : SecretKind → Record
  | .gnomeKeyringToken => .keyringToken
  | .loginPassword | .kdeWalletKey => .sealedSecret

/-- `kwallet::KEY_LEN` -/
def walletKeyLen : Nat := 56

/-- `crypto::KEY_LEN` -/
def templateKeyLen : Nat := 32

section

variable (opens : Bytes → Wrap → Option Bytes) (user : Text)

/-- `recovery::unwrap`, with the error of a password that does not open the wrap. -/
def Recovery.unwrap (password : Bytes) (w : Wrap) (refusal : Text) : Records Blob Wrap Bytes :=
  match opens password w with
  | some secret => pure secret
  | none => throw (.policy refusal)

/-! ## The keyring envelope -/

def emptySecret : SecretKind → Text
  | .loginPassword => "refusing to seal an empty password"
  | .kdeWalletKey => "refusing to seal an empty KDE wallet key"
  | .gnomeKeyringToken => []

/-- `seal_secret_for`, through a view of the account. -/
def sealSecretFor (secret : Bytes) (kind : SecretKind) (existing : Option Nat) : Records Blob Wrap Unit := do
  if kind = .gnomeKeyringToken then
    throw (.protocol "a GNOME keyring token is armed via arm_gnome_token, not sealed directly")
  if secret = [] then throw (.protocol (emptySecret kind))
  if kind = .kdeWalletKey ∧ secret.length ≠ walletKeyLen then
    throw (.protocol ("a KDE wallet key must be exactly ".toList ++ decimal walletKeyLen ++ " bytes, got ".toList ++
      decimal secret.length))
  let uid ← Account.uidToRecord user (recordFor kind) existing
  let env ← Tpm.seal secret
  saveEnvelope .keyring { env with secret := kind, uid }

def armGnomeToken (password : Bytes) : Records Blob Wrap Bytes := do
  if password = [] then throw (.protocol "refusing to arm a keyring token for an empty password")
  ask .newAccount
  let uid ← Account.uidToRecord user .keyringToken none
  let token ← ask .mintGnomeToken
  let env ← Tpm.seal token
  let passwordWrap ← Recovery.wrap password token
  saveEnvelope .keyring { env with secret := .gnomeKeyringToken, passwordWrap := some passwordWrap, uid }
  return token

def freshToken (token password : Bytes) (uid : Option Nat) : Records Blob Wrap (SealedEnvelope Blob Wrap) := do
  let fresh ← Tpm.seal token
  let passwordWrap ← Recovery.wrap password token
  return { fresh with secret := .gnomeKeyringToken, passwordWrap := some passwordWrap, uid }

def noWrap (unsealErr : Error) (next : Text) : Error :=
  .policy ("keyring token for ".toList ++ quoted user ++ ": TPM unseal failed (".toList ++ unsealErr.message ++
    ") and the envelope has no password wrap".toList ++ next)

def wrongPassword (unsealErr : Error) (next : Text) : Text :=
  "keyring token for ".toList ++ quoted user ++ ": TPM unseal failed (".toList ++ unsealErr.message ++
    ") and this password does not open the recovery wrap".toList ++ next

def rearmGnomeToken (password : Bytes) : Records Blob Wrap Bytes := do
  let env ← load .keyring
  ask .newAccount
  Account.require user (recordFor env.secret) env.uid
  if env.secret ≠ .gnomeKeyringToken then
    throw (.policy (quoted user ++ " has a ".toList ++ env.secret.describe ++ " armed, not a keyring token".toList))
  let token ←
    match ← ask (.tpmUnseal .initializing env) with
    | .ok token => pure token
    | .error unsealErr =>
      match env.passwordWrap with
      | none => throw (noWrap user unsealErr "; `irlume keyring forget --force` and re-arm")
      | some w => Recovery.unwrap opens password w (wrongPassword user unsealErr "; envelope left untouched")
  let uid ← Account.uidToRecord user .keyringToken env.uid
  let fresh ← freshToken token password uid
  saveEnvelope .keyring fresh
  return token

/-- `derive_secret` of the kinds a password implies. -/
def deriveSecret (kind : SecretKind) (password : Bytes) (walletSalt : Option Bytes) : Records Blob Wrap Bytes := do
  match kind, walletSalt with
  | .loginPassword, _ => return password
  | .kdeWalletKey, some salt => okOrThrow (← ask (.deriveKey password salt))
  | .kdeWalletKey, none => throw (.policy "a KDE wallet key needs the account-scoped wallet salt")
  | .gnomeKeyringToken, _ =>
    throw (.policy "a GNOME keyring token is random and cannot be derived from the password")

structure Unsealed where
  secret : Bytes
  kind : SecretKind

/-- `unseal_secret_as`, through a view of the account. -/
def unsealSecretAs : Records Blob Wrap Unsealed := do
  if !(← ask (.pathExists .keyring)) then
    throw (.policy ("no sealed password for ".toList ++ quoted user ++ ": run `irlume keyring arm`".toList))
  let env ← load .keyring
  Account.require user (recordFor env.secret) env.uid
  return { secret := ← Tpm.unseal .initializing env, kind := env.secret }

def unsealSecret : Records Blob Wrap Unsealed := do
  ask .newAccount
  unsealSecretAs user

/-- Outcome of `reseal_password`. -/
inductive Reseal where
  | notArmed
  | unchanged
  | resealed
  | upgraded
  | movedToDaExemptKey

def Reseal.moved : MoveGain → Reseal
  | .daExemptKey => .movedToDaExemptKey
  | .strongerPolicy | .both => .upgraded

def recordUidOnUnbound (env : SealedEnvelope Blob Wrap) : Records Blob Wrap Unit := do
  if env.uid.isSome then return ()
  match ← Fallible.attempt (Account.uidToRecord user (recordFor env.secret) none) with
  | .ok (some uid) => saveEnvelope .keyring { env with uid := some uid }
  | _ => return ()

def checkRoundTrip (mode : UnsealMode) (candidate : SealedEnvelope Blob Wrap) (secret : Bytes) (mismatch : Text) :
    Records Blob Wrap Unit := do
  if (← Tpm.unseal mode candidate) ≠ secret then throw (.tpm mismatch)

def keyringMismatch : Text := "the new envelope does not unseal to the same keyring secret"
def templateKeyMismatch : Text := "the new envelope does not unseal to the same template key"

/-- The token under a stronger policy or the DA-exempt key, with its kind and wrap carried over. -/
def climbedToken (env : SealedEnvelope Blob Wrap) (token : Bytes) :
    Records Blob Wrap (Option (SealedEnvelope Blob Wrap × MoveGain)) := do
  if !(← ask (.moveAvailable env)) then return none
  match ← Fallible.attempt (Account.uidToRecord user .keyringToken env.uid) with
  | .error _ => return none
  | .ok uid =>
    let candidate ← Tpm.seal token
    let candidate := { candidate with uid, secret := .gnomeKeyringToken, passwordWrap := env.passwordWrap }
    match ← ask (.moveGain candidate env) with
    | none => return none
    | some gain =>
      checkRoundTrip .initializing candidate token keyringMismatch
      return some (candidate, gain)

def resealUnsealed (password : Bytes) (env : SealedEnvelope Blob Wrap) (token : Bytes) : Records Blob Wrap Reseal := do
  if env.passwordWrap.any (fun w => opens password w = some token) then
    match ← climbedToken user env token with
    | some (stronger, gain) =>
      publishMove .keyring stronger
      return .moved gain
    | none =>
      recordUidOnUnbound user env
      return .unchanged
  else
    -- The wrap is stale: it is refreshed, with a stronger policy in the same write if there is one.
    let passwordWrap ← Recovery.wrap password token
    let uid ← Account.uidToRecord user .keyringToken env.uid
    let env := { env with passwordWrap := some passwordWrap, uid }
    match ← Fallible.attempt (climbedToken user env token) with
    | .ok (some (stronger, _)) => publishMove .keyring stronger
    | _ => saveEnvelope .keyring env
    return .resealed

def resealFromWrap (password : Bytes) (env : SealedEnvelope Blob Wrap) (unsealErr : Error) : Records Blob Wrap Reseal := do
  match env.passwordWrap with
  | none => throw (noWrap user unsealErr " to recover from; run `irlume keyring arm`")
  | some w =>
    let token ← Recovery.unwrap opens password w
      (wrongPassword user unsealErr " (wrapped under an older password?); envelope left untouched")
    let uid ← Account.uidToRecord user .keyringToken env.uid
    let fresh ← freshToken token password uid
    saveEnvelope .keyring fresh
    return .resealed

/-- The token half of `reseal_password`. -/
def resealToken (password : Bytes) (env : SealedEnvelope Blob Wrap) : Records Blob Wrap Reseal := do
  match ← ask (.tpmUnseal .initializing env) with
  | .ok token => resealUnsealed opens user password env token
  | .error unsealErr => resealFromWrap opens user password env unsealErr

def resealCurrent (kind : SecretKind) (secret : Bytes) : Records Blob Wrap Reseal := do
  match ← ask (.load .keyring) with
  | .error _ => return .unchanged
  | .ok env =>
    let upgrade ← do
      if ← ask (.moveAvailable env) then
        match ← Fallible.attempt (Account.uidToRecord user (recordFor kind) env.uid) with
        | .ok uid => pure (some uid)
        | .error _ => pure none
      else pure none
    match upgrade with
    | none =>
      recordUidOnUnbound user env
      return .unchanged
    | some uid =>
      let candidate ← Tpm.seal secret
      let candidate := { candidate with secret := kind, uid }
      match ← ask (.moveGain candidate env) with
      | some gain =>
        checkRoundTrip .initializing candidate secret keyringMismatch
        publishMove .keyring candidate
        return .moved gain
      | none =>
        recordUidOnUnbound user env
        return .unchanged

def resealPassword (password : Bytes) (walletSalt : Option Bytes) : Records Blob Wrap Reseal := do
  if password = [] then throw (.protocol "refusing to reseal an empty password")
  if !(← ask (.pathExists .keyring)) then return .notArmed
  let env ← load .keyring
  ask .newAccount
  Account.require user (recordFor env.secret) env.uid
  if env.secret = .gnomeKeyringToken then
    resealToken opens user password env
  else
    match ← Fallible.attempt (deriveSecret env.secret password walletSalt) with
    | .error e =>
      throw (.policy ("cannot reseal the ".toList ++ env.secret.describe ++ " for ".toList ++ quoted user ++
        ": ".toList ++ e.message))
    | .ok secret =>
      match ← Fallible.attempt (unsealSecretAs user) with
      | .ok current =>
        if current.secret = secret then
          resealCurrent user env.secret secret
        else
          sealSecretFor user secret env.secret env.uid
          return .resealed
      | .error _ =>
        sealSecretFor user secret env.secret env.uid
        return .resealed

def releaseTokenWithPassword (password : Bytes) : Records Blob Wrap Bytes := do
  if !(← ask (.pathExists .keyring)) then
    throw (.policy ("no sealed secret for ".toList ++ quoted user))
  let env ← load .keyring
  ask .newAccount
  Account.require user (recordFor env.secret) env.uid
  if env.secret ≠ .gnomeKeyringToken then
    throw (.policy (quoted user ++ " has a ".toList ++ env.secret.describe ++
      " armed, not a keyring token; nothing to release for a disarm".toList))
  match env.passwordWrap with
  | none =>
    throw (.policy ("keyring token for ".toList ++ quoted user ++
      " has no password wrap; cannot verify the password".toList))
  | some w =>
    Recovery.unwrap opens password w ("that password does not open the token's recovery wrap; if you changed your " ++
      "password recently and have not logged in since, use the previous one").toList

/-! ## The template key -/

/-- Move a key unsealed from `env` to a better envelope, if there is one; no failure is reported. -/
def moveBestEffort (mode : UnsealMode) (env : SealedEnvelope Blob Wrap) (key : Bytes) : Records Blob Wrap Unit := do
  if !(← ask (.moveAvailable env)) then return ()
  match ← Fallible.attempt (Tpm.seal key) with
  | .error _ => return ()
  | .ok candidate =>
    let candidate := { candidate with uid := env.uid }
    match ← ask (.moveGain candidate env) with
    | none => return ()
    | some _ =>
      match ← Fallible.attempt (checkRoundTrip mode candidate key templateKeyMismatch) with
      | .error _ => return ()
      | .ok () =>
        let _ ← Fallible.attempt (publishMove .templateKey candidate)
        return ()

def loadMode : KeyLoadPolicy → UnsealMode
  | .upgrade | .keep => .initializing
  | .readOnly => .readOnly

def loadKeyWith (policy : KeyLoadPolicy) : Records Blob Wrap Bytes := do
  if !(← ask (.pathExists .templateKey)) then
    throw (.policy ("no template key sealed for ".toList ++ quoted user))
  let env ← load .templateKey
  Account.require user .templateKey env.uid
  let key ← Tpm.unseal (loadMode policy) env
  if policy = .upgrade then moveBestEffort (loadMode policy) env key
  return key

def moveWith : Records Blob Wrap (Option MoveGain) := do
  let env ← load .templateKey
  if !(← ask (.moveAvailable env)) then return none
  ask .newAccount
  Account.require user .templateKey env.uid
  let key ← Tpm.unseal .move env
  let candidate ← Tpm.seal key
  let candidate := { candidate with uid := env.uid }
  match ← ask (.moveGain candidate env) with
  | none => return none
  | some gain =>
    checkRoundTrip .move candidate key templateKeyMismatch
    publishMove .templateKey candidate
    return some gain

def moveKeptKeyWith (key : Bytes) : Records Blob Wrap Unit := do
  match ← ask (.load .templateKey) with
  | .error _ => return ()
  | .ok env => moveBestEffort .initializing env key

def resealKey (key : Bytes) : Records Blob Wrap Unit := do
  okOrThrow (← ask .lockUserState)
  -- A key that cannot be read has no uid to keep.
  let existing := (← ask (.load .templateKey)).toOption.bind SealedEnvelope.uid
  ask .newAccount
  let uid ← Account.uidToRecord user .templateKey existing
  if key.length ≠ templateKeyLen then
    throw (.policy ("template key must be ".toList ++ decimal templateKeyLen ++ " bytes".toList))
  okOrThrow (← ask .createKeyDir)
  let env ← Tpm.seal key
  saveEnvelope .templateKey { env with uid }

/-! ## One operation -/

def operation : Call → Records Blob Wrap (Option Bytes)
  | .armGnomeToken password => some <$> armGnomeToken user password
  | .rearmGnomeToken password => some <$> rearmGnomeToken opens user password
  | .resealPassword password walletSalt => do
    let _ ← resealPassword opens user password walletSalt
    return none
  | .unsealSecret => do return some (← unsealSecret user).secret
  | .releaseTokenWithPassword password => some <$> releaseTokenWithPassword opens user password
  | .loadKeyWith policy resolved => do
    ask .newAccount
    if resolved then
      let _ ← ask .resolution
    some <$> loadKeyWith user policy
  | .moveWith => do
    let _ ← moveWith user
    return none
  | .moveKeptKeyWith key => do
    moveKeptKeyWith key
    return none
  | .resealKey key => do
    resealKey user key
    return none

/-- One operation, with its answer to the caller at the end. -/
def run (call : Call) : Program (Op Blob Wrap) Answer Unit := do
  let returned ← (operation opens user call).run
  Program.ask (Op.reply call returned)

end

end Irlume.Sealed

import Irlume.Lib.Encoding
import Irlume.Lib.Transcript

/-!
# Sealed records of one account name, and what their operations call

The keyring envelope and the template key envelope of one account name. Sealing, unsealing, the ranking of policies, the
account database and every write are calls that may be answered anything; what a file holds is what was last published,
durably or not. An envelope's sealed object and its policy are a `Blob`, the password wrap inside it a `Wrap`; what
either holds is given by `sealedBytes` and `opens`, of which nothing is assumed here.
-/

namespace Irlume.Sealed

open Irlume.Lib

abbrev Bytes := List UInt8

/-- What a sealed blob is. -/
inductive SecretKind where
  | loginPassword
  | kdeWalletKey
  | gnomeKeyringToken
  deriving DecidableEq

def SecretKind.describe : SecretKind → Text
  | loginPassword => "login password"
  | kdeWalletKey => "KDE wallet key"
  | gnomeKeyringToken => "GNOME keyring token"

structure SealedEnvelope (Blob Wrap : Type) where
  /-- The sealed object with its policy and the storage key it is under. -/
  blob : Blob
  secret : SecretKind
  passwordWrap : Option Wrap
  uid : Option Nat

/-- `irlume_common::Error`. -/
inductive Error where
  | policy (message : Text)
  | protocol (message : Text)
  | tpm (message : Text)
  | io (message : Text)

def Error.message : Error → Text
  | policy m | protocol m | tpm m | io m => m

/-- What NSS says about an account name. -/
inductive Resolution where
  | uid (uid : Nat)
  | noAccount
  | unknown
  deriving DecidableEq

inductive MoveGain where
  | strongerPolicy
  | daExemptKey
  | both

inductive AtomicWrite where
  | durable
  | visibleNotDurable (message : Text)

inductive UnsealMode where
  | initializing
  | readOnly
  | move

inductive KeyLoadPolicy where
  | upgrade
  | keep
  | readOnly
  deriving DecidableEq

inductive File where
  | keyring
  | templateKey
  deriving DecidableEq

/-- What a file is. -/
inductive Stored (Blob Wrap : Type) where
  | missing
  | unreadable
  | holds (env : SealedEnvelope Blob Wrap)

/-- The operations on the two files. -/
inductive Call where
  | armGnomeToken (password : Bytes)
  | rearmGnomeToken (password : Bytes)
  | resealPassword (password : Bytes) (walletSalt : Option Bytes)
  | unsealSecret
  | releaseTokenWithPassword (password : Bytes)
  /-- With a view of the account that has or has not been resolved before. -/
  | loadKeyWith (policy : KeyLoadPolicy) (resolved : Bool)
  | moveWith
  | moveKeptKeyWith (key : Bytes)
  | resealKey (key : Bytes)

def Call.file : Call → File
  | armGnomeToken _ | rearmGnomeToken _ | resealPassword _ _ | unsealSecret | releaseTokenWithPassword _ => .keyring
  | loadKeyWith _ _ | moveWith | moveKeptKeyWith _ | resealKey _ => .templateKey

/-- What an operation returns: an error, or its success with the secret it hands out, if any. -/
abbrev Returned := Except Error (Option Bytes)

section

variable {Blob Wrap : Type}

/-- The calls of the operations. -/
inductive Op (Blob Wrap : Type) where
  /-- `Account::new`: the operation's own view of the account. -/
  | newAccount
  /-- `Account::resolution`: the account is resolved at most once. -/
  | resolution
  | pathExists (file : File)
  | load (file : File)
  | publish (file : File) (env : SealedEnvelope Blob Wrap)
  | moveAvailable (env : SealedEnvelope Blob Wrap)
  | moveGain (candidate current : SealedEnvelope Blob Wrap)
  | tpmSeal (secret : Bytes)
  | tpmUnseal (mode : UnsealMode) (env : SealedEnvelope Blob Wrap)
  | wrap (password secret : Bytes)
  | deriveKey (password salt : Bytes)
  | mintGnomeToken
  | lockUserState
  | createKeyDir
  | reply (call : Call) (returned : Returned)

abbrev Answer : Op Blob Wrap → Type
  | .newAccount | .reply _ _ => Unit
  | .resolution => Resolution
  | .pathExists _ | .moveAvailable _ => Bool
  | .load _ => Except Error (SealedEnvelope Blob Wrap)
  | .publish _ _ => Except Error AtomicWrite
  | .moveGain _ _ => Option MoveGain
  | .tpmSeal _ => Except Error Blob
  | .tpmUnseal _ _ | .deriveKey _ _ => Except Error Bytes
  | .wrap _ _ => Except Error Wrap
  | .mintGnomeToken => Bytes
  | .lockUserState | .createKeyDir => Except Error Unit

/-- The files, the view of the account that the operation in progress has, the token minted last, and how often the
keyring envelope was written. -/
structure World (Blob Wrap : Type) where
  keyring : Stored Blob Wrap
  templateKey : Stored Blob Wrap
  resolved : Option Resolution
  minted : Option Bytes
  keyringWrites : Nat

namespace World

variable (w : World Blob Wrap)

def stored : File → Stored Blob Wrap
  | .keyring => w.keyring
  | .templateKey => w.templateKey

def store (file : File) (env : SealedEnvelope Blob Wrap) : World Blob Wrap :=
  match file with
  | .keyring => { w with keyring := .holds env, keyringWrites := w.keyringWrites + 1 }
  | .templateKey => { w with templateKey := .holds env }

@[simp] theorem stored_store_self (file : File) (env : SealedEnvelope Blob Wrap) :
    (w.store file env).stored file = .holds env := by
  cases file <;> rfl

theorem stored_store_of_ne {file other : File} (h : other ≠ file) (env : SealedEnvelope Blob Wrap) :
    (w.store file env).stored other = w.stored other := by
  cases file <;> cases other <;> first | rfl | exact absurd rfl h

def Carries (file : File) (uid : Nat) : Prop :=
  ∃ env, w.stored file = .holds env ∧ env.uid = some uid

variable {w} in
theorem Carries.uid_eq {file : File} {uid : Nat} {env : SealedEnvelope Blob Wrap} (h : w.Carries file uid)
    (hstored : w.stored file = .holds env) : env.uid = some uid := by
  obtain ⟨env', hstored', huid⟩ := h
  obtain rfl := Stored.holds.inj (hstored.symm.trans hstored')
  exact huid

@[simp] theorem resolved_store (file : File) (env : SealedEnvelope Blob Wrap) :
    (w.store file env).resolved = w.resolved := by
  cases file <;> rfl

end World

/-- What the outside decides about one call. -/
structure Choice (Blob Wrap : Type) where
  error : Option Error
  resolution : Resolution
  available : Bool
  gain : Option MoveGain
  written : AtomicWrite
  bytes : Bytes
  blob : Option Blob
  wrap : Option Wrap

def Choice.or {α : Type} (c : Choice Blob Wrap) (a : α) : Except Error α :=
  match c.error with
  | some e => .error e
  | none => .ok a

def perform (w : World Blob Wrap) (op : Op Blob Wrap) (c : Choice Blob Wrap) : Option (Answer op × World Blob Wrap) :=
  match op with
  | .newAccount => some ((), { w with resolved := none })
  | .resolution =>
    match w.resolved with
    | some resolution => some (resolution, w)
    | none => some (c.resolution, { w with resolved := some c.resolution })
  | .pathExists file =>
    match w.stored file with
    | .missing => some (false, w)
    | .unreadable | .holds _ => some (true, w)
  | .load file =>
    match w.stored file with
    | .missing => some (.error (.io "not found"), w)
    | .unreadable => some (.error (c.error.getD (.protocol "unreadable")), w)
    | .holds env => some (.ok env, w)
  | .publish file env =>
    -- An error published nothing.
    match c.error with
    | some e => some (.error e, w)
    | none => some (.ok c.written, w.store file env)
  | .moveAvailable _ => some (c.available, w)
  | .moveGain _ _ => some (c.gain, w)
  | .tpmSeal _ =>
    match c.error, c.blob with
    | some e, _ => some (.error e, w)
    | none, some blob => some (.ok blob, w)
    | none, none => none
  | .tpmUnseal _ _ | .deriveKey _ _ => some (c.or c.bytes, w)
  | .wrap password _ =>
    if password = [] then some (.error (.policy "empty recovery passphrase"), w)
    else
      match c.error, c.wrap with
      | some e, _ => some (.error e, w)
      | none, some wrap => some (.ok wrap, w)
      | none, none => none
  | .mintGnomeToken => some (c.bytes, { w with minted := some c.bytes })
  | .lockUserState | .createKeyDir => some (c.or (), w)
  | .reply _ _ => some ((), w)

abbrev Records (Blob Wrap α : Type) := Fallible (Op Blob Wrap) Answer Error α

def ask (op : Op Blob Wrap) : Records Blob Wrap (Answer op) := Fallible.ask op

def okOrThrow {α : Type} (answer : Except Error α) : Records Blob Wrap α :=
  match answer with
  | .ok a => pure a
  | .error e => throw e

/-- `SealedEnvelope::load`. -/
def load (file : File) : Records Blob Wrap (SealedEnvelope Blob Wrap) := do okOrThrow (← ask (.load file))

/-- `tpm::seal`, which knows nothing of kinds, wraps and uids. -/
def Tpm.seal (secret : Bytes) : Records Blob Wrap (SealedEnvelope Blob Wrap) := do
  return { blob := ← okOrThrow (← ask (.tpmSeal secret)), secret := .loginPassword, passwordWrap := none, uid := none }

def Tpm.unseal (mode : UnsealMode) (env : SealedEnvelope Blob Wrap) : Records Blob Wrap Bytes := do
  okOrThrow (← ask (.tpmUnseal mode env))

/-- `recovery::wrap`. -/
def Recovery.wrap (password secret : Bytes) : Records Blob Wrap Wrap := do okOrThrow (← ask (.wrap password secret))

def publishEnvelope (file : File) (env : SealedEnvelope Blob Wrap) : Records Blob Wrap AtomicWrite := do
  okOrThrow (← ask (.publish file env))

/-- A publication of which one that is visible but not durable is an error. -/
def saveEnvelope (file : File) (env : SealedEnvelope Blob Wrap) : Records Blob Wrap Unit := do
  match ← publishEnvelope file env with
  | .durable => return ()
  | .visibleNotDurable e => throw (.io e)

def publishMove (file : File) (candidate : SealedEnvelope Blob Wrap) : Records Blob Wrap Unit := do
  let _ ← publishEnvelope file candidate
  return ()

end

end Irlume.Sealed

/-!
## Whether a record may be used for the account it is stored under

`account.rs`: a record that carries a uid is used for that uid alone, and a write keeps the uid a record carries. An
operation resolves the account at most once; the answer is kept in its own view.
-/

namespace Irlume.Sealed

open Irlume.Lib

inductive Owner where
  | unrecorded
  | current
  | other (recorded : Nat) (current : Option Nat)
  | unknown (recorded : Nat)

def Owner.usable : Owner → Bool
  | unrecorded | current => true
  | other _ _ | unknown _ => false

/-- The kinds of record that carry a uid. -/
inductive Record where
  | templateKey
  | sealedSecret
  | keyringToken

namespace Record

def noun : Record → Text
  | templateKey => "template key"
  | sealedSecret => "sealed secret"
  | keyringToken => "keyring token"

def nextStep : Record → Text
  | templateKey => "run `irlume enroll` to enroll again"
  | sealedSecret => "run `irlume keyring arm` to arm keyring unlock again"
  | keyringToken => "remove it with `irlume keyring forget --force`, then run `irlume keyring arm`"

end Record

def quoted (user : Text) : Text := "'".toList ++ user ++ "'".toList

def refusalMessage (user : Text) (record : Record) : Owner → Option Text
  | .unrecorded | .current => none
  | .other recorded (some current) => some ("the ".toList ++ record.noun ++ " stored for ".toList ++ quoted user ++
      " was recorded for uid ".toList ++ decimal recorded ++ ", but ".toList ++ quoted user ++ " is now uid ".toList ++
      decimal current ++ ", so it is not used; ".toList ++ record.nextStep)
  | .other recorded none => some ("the ".toList ++ record.noun ++ " stored for ".toList ++ quoted user ++
      " was recorded for uid ".toList ++ decimal recorded ++ ", but no account named ".toList ++ quoted user ++
      " exists now, so it is not used".toList)
  | .unknown recorded => some ("the ".toList ++ record.noun ++ " stored for ".toList ++ quoted user ++
      " was recorded for uid ".toList ++ decimal recorded ++ ", but the current uid of ".toList ++ quoted user ++
      " could not be resolved, so it is not used".toList)

theorem refusalMessage_eq_none_iff {user : Text} {record : Record} {owner : Owner} :
    refusalMessage user record owner = none ↔ owner.usable = true := by
  cases owner with
  | other recorded current => cases current <;> simp [refusalMessage, Owner.usable]
  | _ => simp [refusalMessage, Owner.usable]

def changedOwner (user : Text) (record : Record) (recorded : Nat) : Option Nat → Error
  | some current => .policy ("the ".toList ++ record.noun ++ " of ".toList ++ quoted user ++ " belongs to uid ".toList ++
      decimal recorded ++ ", but ".toList ++ quoted user ++ " is now uid ".toList ++ decimal current ++
      ", so nothing was written; ".toList ++ record.nextStep)
  | none => .policy ("the ".toList ++ record.noun ++ " of ".toList ++ quoted user ++ " belongs to uid ".toList ++
      decimal recorded ++ ", but no account named ".toList ++ quoted user ++ " exists now, so nothing was written".toList)

variable {Blob Wrap : Type}

namespace Account

/-- `Owner::of`, which resolves the account only for a record that carries a uid. -/
def owner (recorded : Option Nat) : Records Blob Wrap Owner := do
  match recorded with
  | none => return .unrecorded
  | some recorded =>
    match ← ask .resolution with
    | .uid current => return if current = recorded then .current else .other recorded (some current)
    | .noAccount => return .other recorded none
    | .unknown => return .unknown recorded

def require (user : Text) (record : Record) (recorded : Option Nat) : Records Blob Wrap Unit := do
  match refusalMessage user record (← owner recorded) with
  | none => return ()
  | some message => throw (.policy message)

def uidToRecord (user : Text) (record : Record) (existing : Option Nat) : Records Blob Wrap (Option Nat) := do
  match ← ask .resolution, existing with
  | .uid uid, none => return some uid
  | .uid uid, some recorded => if uid = recorded then return existing else throw (changedOwner user record recorded uid)
  | .noAccount, some recorded => throw (changedOwner user record recorded none)
  | .noAccount, none | .unknown, some _ => return existing
  | .unknown, none =>
    throw (.policy ("the current uid of ".toList ++ quoted user ++ " could not be resolved, so the ".toList ++
      record.noun ++ " was not written; try again when the account resolves".toList))

end Account

end Irlume.Sealed

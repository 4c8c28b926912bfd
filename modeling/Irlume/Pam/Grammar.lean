import Irlume.Lib.Text

/-!
# Reading PAM stack lines

`grammar.rs`: a line is split into its fields the way libpam splits it (`_pam_tokenize`), a control
is read as `_pam_parse_control` reads it, and what cannot be read that way is named
(`unreadableLine`). Fields are slices of a line; here a field is its text and the rest of the line
is passed on.

The stacks that includes name are read through `reader`, which the caller of a recipe sets
(`with_stack_reader`); `none` is a call outside one.
-/

namespace Irlume.Pam

open Irlume.Lib

/-! ## Characters -/

/-- `str::eq_ignore_ascii_case`. -/
def eqIgnoreAsciiCase (a b : Text) : Bool := a.map Char.toLower == b.map Char.toLower

def beforeNul (t : Text) : Text := t.takeWhile (· ≠ '\x00')

/-! ## Fields -/

/-- The four types libpam knows. -/
inductive Phase where
  | auth
  | account
  | password
  | session
  deriving DecidableEq

def Phase.name : Phase → Text
  | .auth => "auth"
  | .account => "account"
  | .password => "password"
  | .session => "session"

def phases : List Phase := [.auth, .account, .password, .session]

def isFieldDelimiter (c : Char) : Bool := c = ' ' || c = '\t' || c = '\n'

/-- The part of a line PAM tokenizes: everything before the first `#`, without the spaces and tabs
it starts with. -/
def directive (line : Text) : Text :=
  (line.dropWhile fun c => c = ' ' || c = '\t').takeWhile (· ≠ '#')

/-- A bracketed field up to the first `]` not written `\]`, and what follows from that `]` on. -/
def bracketed : Text → Text × Text
  | [] => ([], [])
  | ']' :: rest => ([], ']' :: rest)
  | '\\' :: ']' :: rest => let (field, rest) := bracketed rest; ('\\' :: ']' :: field, rest)
  | c :: rest => let (field, rest) := bracketed rest; (c :: field, rest)

def nextField (rest : Text) : Option (Text × Text) :=
  match rest.dropWhile isFieldDelimiter with
  | [] => none
  | '[' :: inner => let (field, rest) := bracketed inner; some (field, rest.drop 1)
  | s => some (s.takeWhile (!isFieldDelimiter ·), s.dropWhile (!isFieldDelimiter ·))

/-- The type field of a directive without its leading `-`. -/
def typeField (rest : Text) : Option (Text × Text) :=
  (nextField rest).map fun (kind, rest) => ((afterStart kind "-").getD kind, rest)

/-- The fields of a text, each taken with `nextField`. -/
def fields : Nat → Text → List Text
  | 0, _ => []
  | n + 1, rest =>
    match nextField rest with
    | none => []
    | some (field, rest) => field :: fields n rest

/-- The type and control of a line libpam reads as part of a stack. -/
structure Head where
  /-- A type libpam does not know puts the line in the auth chain. -/
  phase : Phase
  /-- Without its brackets; empty for a line with none. -/
  control : Text
  /-- Everything after the control. -/
  rest : Text
  knownType : Bool

def head (line : Text) : Option Head :=
  match typeField (directive line) with
  | none => none
  | some (kind, rest) =>
    if eqIgnoreAsciiCase kind "@include" then none
    else
      let phase := phases.find? fun p => eqIgnoreAsciiCase p.name kind
      let (control, rest) := (nextField rest).getD ([], [])
      some { phase := phase.getD .auth, control, rest, knownType := phase.isSome }

def Head.thirdField (h : Head) : Option Text := (nextField h.rest).map Prod.fst

def Head.fieldsAfterControl (h : Head) : List Text := fields h.rest.length h.rest

def isAtInclude (line : Text) : Bool :=
  (typeField (directive line)).any fun (kind, _) => eqIgnoreAsciiCase kind "@include"

/-- The file an `@include` line names. -/
def atIncludeTarget (line : Text) : Option Text :=
  match typeField (directive line) with
  | none => none
  | some (kind, rest) =>
    if eqIgnoreAsciiCase kind "@include" then (nextField rest).map Prod.fst else none

def Head.isInclude (h : Head) : Bool := eqIgnoreAsciiCase h.control "include"

def Head.isSubstack (h : Head) : Bool := eqIgnoreAsciiCase h.control "substack"

/-- The line is an `include` or `substack` line: its third field names a stack. -/
def Head.namesStack (h : Head) : Bool := h.isInclude || h.isSubstack

def Head.stackName (h : Head) : Option Text := if h.namesStack then h.thirdField else none

/-! ## Controls -/

inductive ReturnValue where
  | success
  | openErr
  | symbolErr
  | serviceErr
  | systemErr
  | bufErr
  | permDenied
  | authErr
  | credInsufficient
  | authinfoUnavail
  | userUnknown
  | maxtries
  | newAuthtokReqd
  | acctExpired
  | sessionErr
  | credUnavail
  | credExpired
  | credErr
  | noModuleData
  | convErr
  | authtokErr
  | authtokRecoverErr
  | authtokLockBusy
  | authtokDisableAging
  | tryAgain
  | ignore
  | abort
  | authtokExpired
  | moduleUnknown
  | badItem
  | convAgain
  | incomplete
  deriving DecidableEq

/-- What a pair of a control names. -/
inductive Value where
  | value (r : ReturnValue)
  | default
  deriving DecidableEq

def ReturnValue.name : ReturnValue → Text
  | .success => "success"
  | .openErr => "open_err"
  | .symbolErr => "symbol_err"
  | .serviceErr => "service_err"
  | .systemErr => "system_err"
  | .bufErr => "buf_err"
  | .permDenied => "perm_denied"
  | .authErr => "auth_err"
  | .credInsufficient => "cred_insufficient"
  | .authinfoUnavail => "authinfo_unavail"
  | .userUnknown => "user_unknown"
  | .maxtries => "maxtries"
  | .newAuthtokReqd => "new_authtok_reqd"
  | .acctExpired => "acct_expired"
  | .sessionErr => "session_err"
  | .credUnavail => "cred_unavail"
  | .credExpired => "cred_expired"
  | .credErr => "cred_err"
  | .noModuleData => "no_module_data"
  | .convErr => "conv_err"
  | .authtokErr => "authtok_err"
  | .authtokRecoverErr => "authtok_recover_err"
  | .authtokLockBusy => "authtok_lock_busy"
  | .authtokDisableAging => "authtok_disable_aging"
  | .tryAgain => "try_again"
  | .ignore => "ignore"
  | .abort => "abort"
  | .authtokExpired => "authtok_expired"
  | .moduleUnknown => "module_unknown"
  | .badItem => "bad_item"
  | .convAgain => "conv_again"
  | .incomplete => "incomplete"

def Value.name : Value → Text
  | .value r => r.name
  | .default => "default"

def allReturnValues : List ReturnValue :=
  [.success, .openErr, .symbolErr, .serviceErr, .systemErr, .bufErr, .permDenied, .authErr,
    .credInsufficient, .authinfoUnavail, .userUnknown, .maxtries, .newAuthtokReqd, .acctExpired,
    .sessionErr, .credUnavail, .credExpired, .credErr, .noModuleData, .convErr, .authtokErr,
    .authtokRecoverErr, .authtokLockBusy, .authtokDisableAging, .tryAgain, .ignore, .abort,
    .authtokExpired, .moduleUnknown, .badItem, .convAgain, .incomplete]

def returnValues : List Value := allReturnValues.map .value ++ [.default]

def controlKeywords : List Text :=
  ["required", "requisite", "sufficient", "optional", "include", "substack"]

def maxJump : Nat := 2 ^ 31 - 1

/-- The blanks `_pam_parse_control` skips. -/
def controlBlank (c : Char) : Bool :=
  c = ' ' || c = '\t' || c = '\n' || c = '\x0b' || c = '\x0c' || c = '\r'

/-- What libpam does with one return value of a line. -/
inductive Action where
  | ignore
  | ok
  | done
  | bad
  | die
  | reset
  | jump (n : Nat)
  deriving DecidableEq

def actionNames : List (Text × Action) :=
  [("ignore", .ignore), ("ok", .ok), ("done", .done), ("bad", .bad), ("die", .die),
    ("reset", .reset)]

/-- A `value=action` pair, with the characters of the control that write its action. -/
structure Pair where
  value : Value
  action : Action
  start : Nat
  stop : Nat
  deriving DecidableEq

def digitsValue (digits : Text) : Nat := digits.foldl (fun n c => n * 10 + (c.toNat - '0'.toNat)) 0

/-- The action a pair writes: one of the names, or the digits of a jump, and its length. -/
def actionAt (b : Text) : Option (Action × Nat) :=
  match actionNames.find? fun (name, _) => startsWith b name with
  | some (name, action) => some (action, name.length)
  | none =>
    let digits := b.takeWhile Char.isDigit
    let n := digitsValue digits
    -- No digit reads as no jump, as 0 does; a jump past `maxJump` stays past it.
    if n = 0 || maxJump < n then none else some (.jump n, digits.length)

def pairAt (b : Text) : Option (Value × Action × Nat × Nat) :=
  match returnValues.find? fun value => startsWith b value.name with
  | none => none
  | some value =>
    let afterName := b.drop value.name.length
    let afterBlanks := afterName.dropWhile controlBlank
    match afterBlanks with
    | '=' :: afterEq =>
      let written := afterEq.dropWhile controlBlank
      (actionAt written).map fun (action, length) =>
        (value, action, b.length - written.length, b.length - written.length + length)
    | _ => none

/-- The pairs of a control from its character `at` on. Every pair takes characters, so a control is
read with as many turns as it has characters, and one to see its end. -/
def pairsFrom : Nat → Nat → Text → Option (List Pair)
  | 0, _, _ => none
  | turns + 1, pos, b =>
    let skipped := (b.takeWhile controlBlank).length
    let pos := pos + skipped
    let b := b.drop skipped
    if b = [] then some []
    else
      match pairAt b with
      | none => none
      | some (value, action, start, stop) =>
        (pairsFrom turns (pos + stop) (b.drop stop)).map fun pairs =>
          { value, action, start := pos + start, stop := pos + stop } :: pairs

def controlPairsAt (control : Text) : Option (List Pair) := pairsFrom (control.length + 1) 0 control

/-- The `value=action` pairs of a control; `none` for one libpam rejects. -/
def controlPairs (control : Text) : Option (List (Value × Action)) :=
  (controlPairsAt control).map (·.map fun p => (p.value, p.action))

/-- Which pair sets each return value in the end: a later pair for a value replaces an earlier one,
and `default` sets only the values no pair before it set. -/
def setBy (pairs : List (Value × Action)) : ReturnValue → Option Nat :=
  pairs.zipIdx.foldl (fun set (pair, i) =>
    match pair.1 with
    | .value r => Function.update set r (some i)
    | .default => fun r => (set r).or (some i)) fun _ => none

def keyword (success : Action) (ignore : Option Action) (rest : Action) (r : ReturnValue) : Action :=
  match r with
  | .success | .newAuthtokReqd => success
  | .ignore => ignore.getD rest
  | _ => rest

/-- What a line does with each return value; `none` for `include`, `substack` and no control. -/
def controlActions (control : Text) : Option (ReturnValue → Action) :=
  let word := fun k => eqIgnoreAsciiCase control k
  if control = [] || word "include" || word "substack" then none
  else if word "required" then some (keyword .ok (some .ignore) .bad)
  else if word "requisite" then some (keyword .ok (some .ignore) .die)
  else if word "optional" then some (keyword .ok none .ignore)
  else if word "sufficient" then some (keyword .done none .ignore)
  else
    match controlPairs control with
    | none => some fun _ => .bad
    | some pairs =>
      some fun r => ((setBy pairs r).bind fun i => (pairs[i]?).map Prod.snd).getD .bad

def controlIsRejected (control : Text) : Bool :=
  !(controlKeywords.any fun k => eqIgnoreAsciiCase control k) && (controlPairs control).isNone

/-- The numeric jumps of a control that are in effect, as `(value, N)`. -/
def Head.numericActions (h : Head) : List (Value × Nat) :=
  if controlKeywords.any fun k => eqIgnoreAsciiCase h.control k then []
  else
    match controlPairs h.control with
    | none => []
    | some pairs =>
      let set := setBy pairs
      pairs.zipIdx.filterMap fun ((value, action), i) =>
        match action with
        | .jump n => if allReturnValues.any fun r => set r = some i then some (value, n) else none
        | _ => none

end Irlume.Pam

/-!
## The lines irlume writes

`stanzas.rs`: the exact text of every line irlume puts into a stack, and the tags it tells its own
`pam_permit.so` and `pam_gnome_keyring.so` lines by.
-/

namespace Irlume.Pam

open Irlume.Lib

def moduleName : Text := "pam_irlume.so"

def createdStart : Text := "# irlume: created from "

/-- The face line above an include that a numeric jump cannot skip; `kr` has a cold login go on to
the keyring modules. -/
def includeGreeterLine (mode : Text) (kr : Bool) : Text :=
  "auth       sufficient   pam_irlume.so unseal " ++ mode ++ (if kr then " kr" else "" : String).toList

/-- The face line of a greeter that is not known to take the on-demand probe. -/
def greeterUnsealFacefirstJump : Text :=
  "auth       [success=1 default=ignore]   pam_irlume.so unseal facefirst"

def greeterUnsealCosmicJump : Text :=
  "auth       [success=1 default=ignore]   pam_irlume.so unseal ondemand"

def landingTag : Text := "# irlume-landing"

def permitLanding : Text :=
  "auth       optional                     pam_permit.so   # irlume-landing"

def resealAuth : Text := "auth       optional                     pam_irlume.so reseal"

def keyringUnseal : Text := "auth       optional                     pam_irlume.so keyring"

def keyringTag : Text := "# irlume-keyring"

def fpGkrAuth : Text :=
  "-auth      optional                     pam_gnome_keyring.so   # irlume-keyring"

def fpGkrSession : Text :=
  "-session   optional                     pam_gnome_keyring.so auto_start   # irlume-keyring"

def resealSession : Text := "session    optional                     pam_irlume.so reseal"

def inertTag : Text := "# irlume-inert"

/-- The inactive line that holds the place of one of irlume's lines: the phase in a column of eleven
characters, and its job after the tag. -/
def inertLine (phase role : Text) : Text :=
  phase ++ List.replicate (11 - phase.length) ' ' ++
    "[default=ignore]             pam_permit.so   " ++
    (if role = [] then inertTag else inertTag ++ ' ' :: role)

def verifyStanza : Text := "auth       sufficient                   pam_irlume.so"

/-- The verify stanza of the polkit dialog: `sufficient` spelled out, and an explicit decline ends
the stack. -/
def polkitVerifyStanza : Text :=
  "auth       [success=done new_authtok_reqd=done abort=die default=ignore]   pam_irlume.so"

/-- The login-keyring modules that consume the password an unseal line releases. -/
def keyringConsumers : List Text :=
  ["pam_kwallet5.so", "pam_kwallet.so", "pam_gnome_keyring.so", "pam_oo7.so"]

end Irlume.Pam

import Irlume.Pam.Grammar
import Mathlib.Data.List.Sort

/-!
# Lines and stacks

`grammar.rs`, from the rule of a line up: which lines irlume does not read as libpam does, what a
line is for, and what an include puts in its place.
-/

namespace Irlume.Pam

open Irlume.Lib

/-! ## Rules -/

/-- A rule line: `[-]type control module-path module-arguments`. -/
structure Rule where
  phase : Phase
  control : Text
  modulePath : Text
  args : List Text

/-- The fields of a rule line; `none` for a line that loads no module. -/
def rule (line : Text) : Option Rule :=
  match head line with
  | none => none
  | some h =>
    if !h.knownType || h.namesStack then none
    else
      match h.fieldsAfterControl with
      | [] => none
      | modulePath :: args => some { phase := h.phase, control := h.control, modulePath, args }

/-- Everything after the last `/` of a module path. -/
def moduleFileName (path : Text) : Text := path.rtakeWhile (· ≠ '/')

def ruleNamesModule (line modul : Text) : Bool :=
  (rule line).any fun r => moduleFileName r.modulePath = modul

def irlumeRule (line : Text) : Option Rule :=
  (rule line).filter fun r => moduleFileName r.modulePath = moduleName

def irlumeRuleHasArg (line arg : Text) : Bool := (irlumeRule line).any fun r => arg ∈ r.args

def contentHasModule (c : Text) : Bool := (lines c).any fun l => (irlumeRule l).isSome

/-! ## Lines irlume does not read as libpam does -/

inductive Unread where
  | nul
  | blank (c : Char)
  | crlfEnding
  | unknownType (namesStack : Bool)
  | includeWithoutFile
  | substackWithoutStack
  | noModuleName
  deriving DecidableEq

structure UnreadLine where
  /-- Counting from 1. -/
  number : Nat
  text : Text
  why : Unread

/-- libpam can take a module name from the path: what is left after the last `/` and before the last
`.` is neither empty nor `?`. -/
def libpamNamesModule (path : Text) : Bool :=
  let file := moduleFileName path
  let name := if '.' ∈ file then (file.rdropWhile (· ≠ '.')).dropLast else file
  name ≠ [] && name ≠ ['?']

/-- Where the inside of a line's control is, as a start and a length, when it is written in brackets
closed on the line and libpam parses it; an empty range otherwise. -/
def bracketedControl (d : Text) : Nat × Nat :=
  match typeField d with
  | none => (0, 0)
  | some (kind, rest) =>
    if eqIgnoreAsciiCase kind "@include" then (0, 0)
    else
      match rest.dropWhile isFieldDelimiter with
      | '[' :: inner =>
        let control := (bracketed inner).1
        if control.length = inner.length || (controlPairs control).isNone then (0, 0)
        else (d.length - inner.length, control.length)
      | _ => (0, 0)

/-- The blanks other than a space or a tab that libpam reads as part of a field. Those of a bracketed
control are skipped as spaces are, unless the line may continue another (`controls` false). -/
def fieldBlanks (read : Text) (controls : Bool) : List Char :=
  let (start, length) := if controls then bracketedControl read else (0, 0)
  (read.zipIdx.filter fun (c, i) =>
    c ≠ ' ' && c ≠ '\t' && isWhitespace c &&
      !(start ≤ i && i < start + length && controlBlank c)).map Prod.fst

def unread (line : Text) : Option Unread :=
  if '\x00' ∈ line then some .nul
  else
    let d := directive line
    let beforeCr := trimCrs d
    match fieldBlanks beforeCr true with
    | c :: _ => some (.blank c)
    | [] =>
      if beforeCr.length < d.length then some .crlfEnding
      else if isAtInclude line then
        if (atIncludeTarget line).isNone then some .includeWithoutFile else none
      else
        match head line with
        | none => none
        | some h =>
          if !h.knownType then some (.unknownType h.namesStack)
          else if h.isSubstack && h.thirdField.isNone then some .substackWithoutStack
          else if (h.isSubstack || !h.namesStack) && h.thirdField.any (!libpamNamesModule ·) then
            some .noModuleName
          else none

def hasLineContinuation (content : Text) : Bool :=
  (content.splitOn '\n').any fun l =>
    (l.rdropWhile fun c => c = ' ' || c = '\t').getLast? = some '\\' && '#' ∉ beforeNul l

def unreadableLine (content : Text) : Option UnreadLine :=
  if hasLineContinuation content then none
  else (content.splitOn '\n').zipIdx.findSome? fun (text, i) =>
    (unread text).map fun why => { number := i + 1, text, why }

def carriageReturnLine (content : Text) : Option UnreadLine :=
  let controls := !hasLineContinuation content
  (content.splitOn '\n').zipIdx.findSome? fun (text, i) =>
    let read := directive text
    let before := trimCrs read
    if '\r' ∈ fieldBlanks before controls then some { number := i + 1, text, why := .blank '\r' }
    else if before.length < read.length then some { number := i + 1, text, why := .crlfEnding }
    else none

def hasReadCarriageReturn (content : Text) : Bool := (carriageReturnLine content).isSome

/-! ## What a line is for -/

def typedHead (line : Text) (phase : Phase) : Option Head :=
  (head line).filter fun h => h.knownType && h.phase = phase

/-- The stack an `include` or `substack` line of the type names. -/
def stackNamed (line : Text) (phase : Phase) : Option Text :=
  ((typedHead line phase).filter (·.namesStack)).bind (·.thirdField)

def isIncludeAuthLayout (line : Text) : Bool :=
  match atIncludeTarget line with
  | some file => startsWith file "common-auth" || startsWith file "login"
  | none =>
    (((typedHead line .auth).filter (·.isInclude)).bind (·.thirdField)).any fun stack =>
      stack ∈ (["system-login", "system-local-login", "system-auth", "common-auth"] : List Text)

def isPasswdSubstack (line : Text) (kind : Phase) : Bool :=
  let names : List Text :=
    match kind with
    | .auth => ["password-auth", "system-auth", "common-auth"]
    | .session => ["password-auth", "system-auth", "common-session"]
    | _ => ["password-auth", "system-auth"]
  (stackNamed line kind).any (· ∈ names)

def isAuthDirective (line : Text) : Bool := (typedHead line .auth).isSome

def isSessionDirective (line : Text) : Bool := (typedHead line .session).isSome

def isSessionInclude (line : Text) : Bool :=
  (atIncludeTarget line).any fun file => startsWith file "common-session"

def isAuthSubstackAnchor (line : Text) : Bool := (typedHead line .auth).any (·.isSubstack)

def isPasswordStep (line : Text) : Bool :=
  isIncludeAuthLayout line || isPasswdSubstack line .auth || isAuthSubstackAnchor line ||
    (isAuthDirective line && ruleNamesModule line "pam_unix.so")

def isFingerprintAuth (line : Text) : Bool :=
  match typedHead line .auth with
  | none => false
  | some h =>
    if h.namesStack then h.thirdField.any fun stack => contains stack "fingerprint"
    else ruleNamesModule line "pam_fprintd.so"

def consumerActiveFor (line service : Text) : Option Text :=
  match rule line with
  | none => none
  | some r =>
    match keyringConsumers.find? (moduleFileName r.modulePath = ·) with
    | none => none
    | some modul =>
      let gatedOut := (r.args.filterMap (afterStart · "only_if=")).any fun list =>
        service ∉ list.splitOn ','
      if gatedOut then none else some modul

/-! ## Stacks that includes name -/

def includeDepth : Nat := 4

abbrev StackReader := Option (Text → Option Text)

def readStack (reader : StackReader) (name : Text) : Option Text := reader.bind fun read => read name

/-- The stack holds an auth line libpam always fails on, itself or in a stack it refers to. `left`
stacks may still be followed. -/
def hasFailingAuthLineIn (reader : StackReader) : Nat → List Text → Text → Bool
  | left, active, content =>
    hasLineContinuation content || (unreadableLine content).isSome ||
      (lines content).any fun l =>
        let failingStack := fun (name : Text) =>
          match reader with
          | none => false
          | some read =>
            match left with
            | 0 => true
            | left + 1 =>
              name ∈ active ||
                match read name with
                | none => true
                | some nested => hasFailingAuthLineIn reader left (name :: active) nested
        match atIncludeTarget l with
        | some name => failingStack name
        | none =>
          (typedHead l .auth).any fun h =>
            h.control = [] || h.thirdField.isNone || controlIsRejected h.control ||
              (h.namesStack && h.thirdField.any failingStack)

def hasFailingAuthLine (reader : StackReader) (content : Text) : Bool :=
  hasFailingAuthLineIn reader includeDepth [] content

/-- The lines of the type that libpam puts in the place of an include of the stack; `none` when
irlume cannot tell. `left` stacks may still be followed. -/
def includedLines (reader : StackReader) : Nat → Text → Phase → Option (List Text)
  | 0, _, _ => none
  | left + 1, name, phase =>
    match readStack reader name with
    | none => none
    | some text =>
      if hasLineContinuation text || (unreadableLine text).isSome then none
      else
        ((lines text).mapM fun line =>
          match atIncludeTarget line with
          | some file => includedLines reader left file phase
          | none =>
            match typedHead line phase with
            | none => some []
            | some h =>
              if h.isInclude then h.thirdField.bind fun stack => includedLines reader left stack phase
              else some [line]).map List.flatten

/-- The lines an include of the line puts in the chain of the type; `none` for another line and for
one irlume cannot read. -/
def expandedIncludeLines (reader : StackReader) (line : Text) (phase : Phase) :
    Option (List Text) :=
  if isAtInclude line then
    (atIncludeTarget line).bind fun name => includedLines reader includeDepth name phase
  else
    match head line with
    | none => none
    | some h =>
      if !h.isInclude then none
      else if h.phase ≠ phase then some []
      else h.thirdField.bind fun name => includedLines reader includeDepth name phase

/-- Where the numeric jumps of an included stack land past its end, counted from the first line after
the include; that line itself counts with `firstFollowing`. -/
def includedJumpOffsets (reader : StackReader) (line : Text) (phase : Phase)
    (firstFollowing : Bool) : Option (List Nat) :=
  (expandedIncludeLines reader line phase).map fun ls =>
    let offsets := ls.zipIdx.flatMap fun (included, i) =>
      match head included with
      | none => []
      | some h => h.numericActions.filterMap fun (_, reach) =>
        let target := i + reach + 1
        if ls.length < target || (firstFollowing && target = ls.length) then
          some (target - ls.length)
        else none
    (offsets.insertionSort (· ≤ ·)).dedup

/-- A numeric jump among the included lines could land past them; also when irlume cannot tell. -/
def includedJumpLeaves (reader : StackReader) (name : Text) (phase : Phase) (toEnd : Bool) : Bool :=
  match includedLines reader includeDepth name phase with
  | none => true
  | some ls => ls.zipIdx.any fun (line, i) =>
    (head line).any fun h =>
      h.numericActions.any fun (_, reach) => ls.length ≤ i + reach + toEnd.toNat

/-- For an include: whether a jump among its lines could land past them for a type `later` holds of;
`none` for any other line. -/
def includeCouldJumpPast (reader : StackReader) (line : Text) (later : Phase → Bool)
    (toEnd : Bool) : Option Bool :=
  if isAtInclude line then
    some (match atIncludeTarget line with
      | none => true
      | some file => phases.any fun phase =>
        later phase && includedJumpLeaves reader file phase toEnd)
  else
    match head line with
    | none => none
    | some h =>
      if !h.isInclude then none
      else some (!h.knownType || (later h.phase &&
        match h.thirdField with
        | none => true
        | some stack => includedJumpLeaves reader stack h.phase toEnd))

/-! ## Where the face block anchors -/

/-- Debian's `@include` files that hold no auth line. -/
def nonAuthIncludes : List Text :=
  ["common-account", "common-password", "common-session", "common-session-noninteractive"]

def noPasswordAuthModules : List Text :=
  ["pam_access.so", "pam_deny.so", "pam_env.so", "pam_faildelay.so", "pam_faillock.so"] ++
  ["pam_group.so", "pam_listfile.so", "pam_localuser.so", "pam_nologin.so", "pam_permit.so"] ++
  ["pam_rootok.so", "pam_securetty.so", "pam_selinux_permit.so", "pam_shells.so"] ++
  ["pam_succeed_if.so", "pam_tally2.so", "pam_warn.so"]

def passwordModules : List Text := ["pam_sss.so", "pam_unix.so", "pam_unix2.so"]

/-- A line below the first auth line checks no password. `left` files may still be followed. -/
def quietBelowAnchor (reader : StackReader) : Nat → Text → Bool
  | left, l =>
    match atIncludeTarget l with
    | some file =>
      match left with
      | 0 => false
      | left + 1 =>
        decide (file ∈ nonAuthIncludes) &&
          (readStack reader file).any fun text =>
            !hasLineContinuation text && (unreadableLine text).isNone &&
              (lines text).all fun m => quietBelowAnchor reader left m
    | none =>
      match head l with
      | none => true
      | some h =>
        if h.knownType && h.phase ≠ .auth then true
        else if !h.knownType || h.namesStack then false
        else
          match h.thirdField with
          | none => true
          | some path =>
            let file := moduleFileName path
            decide (file ∈ noPasswordAuthModules) || decide (file ∈ keyringConsumers)

def failsTheStack (action : Action) (r : ReturnValue) : Bool :=
  match action, r with
  | .jump _, _ => false
  | action, .success => action = .ok || action = .done
  | .bad, _ | .die, _ => true
  | _, r => r = .newAuthtokReqd || r = .ignore

def Head.isPasswordStepThatFailsTheStack (h : Head) : Bool :=
  match h.fieldsAfterControl with
  | [] => false
  | modulePath :: args =>
    decide (moduleFileName modulePath ∈ passwordModules) &&
      !(args.any fun a => startsWith a "ignore_") &&
      (controlActions h.control).any fun table => allReturnValues.all fun r => failsTheStack (table r) r

def includedStackStartsWithTheStep (reader : StackReader) (name : Text) : Bool :=
  match includedLines reader includeDepth name .auth with
  | none | some [] => false
  | some (first :: rest) =>
    let moves := fun l => (head l).any fun h => (controlActions h.control).any fun table =>
      allReturnValues.any fun r =>
        match table r with
        | .jump _ | .reset => true
        | _ => false
    let step := isPasswdSubstack first .auth ||
      (head first).any fun h => !h.namesStack && h.isPasswordStepThatFailsTheStack
    step && !((first :: rest).any moves) && rest.all (quietBelowAnchor reader includeDepth)

def firstAuthLineIsSafe (reader : StackReader) (ls : List Text) (i : Nat) : Bool :=
  let decides := (ls[i]?.bind head).any fun h =>
    if h.namesStack then
      h.isInclude && h.thirdField.any (includedStackStartsWithTheStep reader)
    else h.isPasswordStepThatFailsTheStack
  decides && (ls.drop (i + 1)).all (quietBelowAnchor reader includeDepth)

def findAuthAnchor (reader : StackReader) (ls : List Text) : Option Nat :=
  (ls.findIdx? (isPasswdSubstack · .auth)).or <|
    (ls.findIdx? isAuthSubstackAnchor).or <|
      (ls.findIdx? isAuthDirective).filter (firstAuthLineIsSafe reader ls)

end Irlume.Pam

/-!
## irlume's lines

Which lines of a stack are irlume's, and the stack without them (`transform.rs`, `is_irlume_line`
and `unwire_lines`; `overrides.rs`, `base` and `normalize`).
-/

namespace Irlume.Pam

open Irlume.Lib

def isIrlumeLine (l : Text) : Bool :=
  let read := beforeNul l
  (irlumeRule read).isSome ||
    (ruleNamesModule read "pam_permit.so" && (contains read landingTag || contains read inertTag)) ||
    (ruleNamesModule read "pam_gnome_keyring.so" && contains read keyringTag)

def holdsIrlumeLine (text : Text) : Bool :=
  (text.splitOn '\n').any fun l => isIrlumeLine (trimCrs l)

def unwireLines (content : Text) : Text × Bool :=
  (unlines ((lines content).filter (!isIrlumeLine ·)), (lines content).any isIrlumeLine)

def withoutIrlumeLines (content : Text) : Text :=
  ((splitInclusive content).filter fun l =>
    !isIrlumeLine (trimCrs (if l.getLast? = some '\n' then l.dropLast else l))).flatten

/-- A stack without irlume's lines. -/
def base (text : Text) : Text := (unwireLines text).1

def normalize (text : Text) : Text := unlines (lines text)

def norm (line : Text) : Text :=
  [' '].intercalate ((line.splitOnP isWhitespace).filter (· ≠ []))

/-! ## What one of irlume's lines is for -/

def phaseOf (line : Text) : Option Phase := (head line).map (·.phase)

/-- The first part of a text before a pattern, and what follows it (`str::split_once`). -/
def splitOnce (t pattern : Text) : Option (Text × Text) :=
  match t with
  | [] => if pattern = [] then some ([], []) else none
  | c :: rest =>
    if startsWith t pattern then some ([], t.drop pattern.length)
    else (splitOnce rest pattern).map fun (before, after) => (c :: before, after)

/-- The job of one of irlume's lines: the argument that names it, or what its tag says. -/
def jobOf (line : Text) : Text :=
  match splitOnce line inertTag with
  | some (_, rest) => ((rest.splitOnP isWhitespace).filter (· ≠ [])).head?.getD []
  | none =>
    if contains line landingTag then "landing"
    else if contains line keyringTag then "keyring-tag"
    else ((irlumeRule line).bind (·.args.head?)).getD []

def kind (line : Text) : Text := ((phaseOf line).getD .auth).name ++ ' ' :: jobOf line

/-- The inactive line that holds the place of a line: of its phase and its job. -/
def inertFor (line : Text) : Text := inertLine ((phaseOf line).getD .auth).name (jobOf line)

end Irlume.Pam

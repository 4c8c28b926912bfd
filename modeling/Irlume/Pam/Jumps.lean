import Irlume.Pam.Reading

/-!
# Numeric jumps

`overrides.rs`, the part on numeric jumps: where each jump of a line lands in the chain of its type,
and which jumps land elsewhere after a write. A chain is read off the file, where an include is one
line; where a jump of an included stack lands past the include, the later includes are expanded.
-/

namespace Irlume.Pam

open Irlume.Lib

/-! ## Chains and landings -/

inductive Landing where
  /-- On the line with this key, the `nth` of its phase with it. -/
  | line (key : Text) (nth : Nat)
  /-- Just past the last module: the stack ends there. -/
  | stackEnd
  | pastEnd
  /-- Across an include, whose lines the file does not show. -/
  | across (skipped : List Text) (target : Option (Text × Nat))
  deriving DecidableEq

def lineKey (line : Text) : Text := if isIrlumeLine line then "irlume " ++ kind line else norm line

def inChain (line : Text) (phase : Phase) : Bool := isAtInclude line || phaseOf line = some phase

def chain (text : Text) (phase : Phase) : List Text := (lines text).filter (inChain · phase)

def isInclude (line : Text) : Bool := isAtInclude line || (head line).any (·.isInclude)

def numericActions (line : Text) : List (Value × Nat) := ((head line).map (·.numericActions)).getD []

/-- The key of the line at `i` of a chain, and which line with that key it is. -/
def occurrence (ch : List Text) (i : Nat) : Text × Nat :=
  let key := lineKey (ch[i]?.getD [])
  (key, ((ch.take (i + 1)).filter (lineKey · = key)).length)

/-- Where a jump of `n` from the line at `i` lands. -/
def landingOf (ch : List Text) (i n : Nat) : Landing :=
  let last := ch.length - 1
  let skipped := (ch.drop (i + 1)).take n
  let target := if i + n + 1 < ch.length then some (i + n + 1) else none
  if skipped.any isInclude then .across (skipped.map lineKey) (target.map (occurrence ch))
  else if last - i < n then .pastEnd
  else
    match target with
    | some j => .line (occurrence ch j).1 (occurrence ch j).2
    | none => .stackEnd

/-- One numeric action of a line irlume did not write: told by the line's text, which line with that
text it is, and the value. -/
structure Jump where
  phase : Phase
  line : Text
  ordinal : Nat
  key : Value
  landing : Landing
  skipped : List Text

def carriesJump (line : Text) : Bool := !isIrlumeLine line && numericActions line ≠ []

def jumpsOf (text : Text) (phase : Phase) : List Jump :=
  let ch := chain text phase
  ch.zipIdx.flatMap fun (line, i) =>
    if carriesJump line then
      let ordinal := ((ch.take i).filter fun l => carriesJump l && norm l = norm line).length + 1
      (numericActions line).map fun (key, n) =>
        { phase, line := norm line, ordinal, key, landing := landingOf ch i n,
          skipped := ((ch.drop (i + 1)).take n).map lineKey }
    else []

/-- Every numeric action in every phase, of the lines irlume did not write. -/
def jumps (text : Text) : List Jump := phases.flatMap (jumpsOf text)

/-- A jump irlume did not write that lands somewhere else after a write. -/
structure Shift where
  phase : Phase
  line : Text
  ordinal : Nat
  now : Landing
  included : Bool

def findLanding (set : List Jump) (j : Jump) : Option Landing :=
  (set.find? fun o => o.line = j.line && o.ordinal = j.ordinal && o.key = j.key).map (·.landing)

def shiftsOf (moved : List Jump) : List Shift :=
  moved.foldl (fun out j =>
    if out.any fun s => s.line = j.line then out
    else out ++ [{ phase := j.phase, line := j.line, ordinal := j.ordinal, now := j.landing,
                   included := false }]) []

/-! ## Jumps of included stacks -/

section Included

variable (reader : StackReader)

/-- The chain a landing past an include's end is counted in: the lines after the include, each later
include expanded, up to `target` lines. -/
def extendChain (phase : Phase) (target : Nat) : List Text → List Text → Option (List Text)
  | expanded, [] => some expanded
  | expanded, line :: rest =>
    if target < expanded.length then some expanded
    else if isInclude line then
      (expandedIncludeLines reader line phase).bind fun ls =>
        extendChain phase target (expanded ++ ls) rest
    else extendChain phase target (expanded ++ [line]) rest

/-- The place of the `ordinal`th include with this text, and the chain from it on. -/
def landingChain (text : Text) (phase : Phase) (include_ : Text) (ordinal offset : Nat) :
    Option (Nat × List Text) :=
  let ch := chain text phase
  let places := (ch.zipIdx.filter fun (line, _) => isInclude line && norm line = include_).map Prod.snd
  match places[ordinal - 1]? with
  | none => none
  | some i =>
    (extendChain reader phase (i + offset + 1) (ch.take (i + 1)) (ch.drop (i + 1))).map fun ls => (i, ls)

/-- Where an included stack's jump lands, `offset` lines past the first line after the include. -/
def includedLanding (text : Text) (phase : Phase) (include_ : Text) (ordinal offset : Nat) :
    Option Landing :=
  (landingChain reader text phase include_ ordinal offset).map fun (i, ls) =>
    landingOf ls i (min offset ls.length)

def transparentIrlumeSessionLine (line : Text) : Bool :=
  isIrlumeLine line && phaseOf line = some .session &&
    (head line).any fun h => eqIgnoreAsciiCase h.control "optional"

def pastSessionLines (text : Text) (phase : Phase) (include_ : Text) (ordinal : Nat) :
    Nat → Nat → Option Landing
  | 0, _ => none
  | turns + 1, offset =>
    match landingChain reader text phase include_ ordinal offset with
    | none => none
    | some (i, ls) =>
      match landingOf ls i (min offset ls.length) with
      | .line key nth =>
        if (ls[i + offset + 1]?).any transparentIrlumeSessionLine then
          pastSessionLines text phase include_ ordinal turns (offset + 1)
        else some (.line key nth)
      | landing => some landing

def expandedCount (text : Text) (phase : Phase) : Nat :=
  ((chain text phase).map fun line =>
    if isInclude line then ((expandedIncludeLines reader line phase).getD []).length else 1).sum

/-- What a moved jump of an included stack is compared with: the other file as it is, or both files
without irlume's lines as well. -/
def includedMoved (before after : Text) (causedByIrlume : Bool) (phase : Phase) (include_ : Text)
    (ordinal offset : Nat) : Bool :=
  let prior := includedLanding reader before phase include_ ordinal offset
  let next := includedLanding reader after phase include_ ordinal offset
  if causedByIrlume then
    let bare := includedLanding reader (base after) phase include_ ordinal offset
    let through := pastSessionLines reader after phase include_ ordinal
      (expandedCount reader after phase + 1) offset
    let movedByIrlume := bare.isSome && through ≠ bare
    let already := prior = next &&
      includedLanding reader (base before) phase include_ ordinal offset = bare
    movedByIrlume && !already
  else prior ≠ next

def includedShiftsOf (before after : Text) (causedByIrlume firstFollowing : Bool) (phase : Phase) :
    List Shift :=
  let ch := chain after phase
  ch.zipIdx.filterMap fun (line, i) =>
    if !isInclude line then none
    else
      let key := norm line
      let ordinal := ((ch.take i).filter fun l => isInclude l && norm l = key).length + 1
      match includedJumpOffsets reader line phase firstFollowing with
      | none => none
      | some offsets => offsets.findSome? fun offset =>
        if includedMoved reader before after causedByIrlume phase key ordinal offset then
          (includedLanding reader after phase key ordinal offset).map fun now =>
            { phase, line := key, ordinal, now, included := true }
        else none

def includedShifts (before after : Text) (causedByIrlume firstFollowing : Bool) : List Shift :=
  phases.flatMap (includedShiftsOf reader before after causedByIrlume firstFollowing)

/-! ## What a write moves -/

/-- Every jump of `after` that lands somewhere other than it did in `before`; one `before` does not
have is compared with the same file without irlume's lines. -/
def jumpShifts (before after : Text) : List Shift :=
  let old := jumps before
  let unwired := jumps (base after)
  shiftsOf ((jumps after).filter fun j =>
    ((findLanding old j).or (findLanding unwired j)).any (· ≠ j.landing)) ++
    includedShifts reader before after false false

def jumpsMovedByIrlume (before after : Text) : List Shift :=
  let old := jumps before
  let oldBare := jumps (base before)
  let unwired := jumps (base after)
  shiftsOf ((jumps after).filter fun j =>
    let bare := findLanding unwired j
    let movedByIrlume := bare.any (· ≠ j.landing)
    let already := (findLanding old j).any (· = j.landing) && findLanding oldBare j = bare
    movedByIrlume && !already) ++
    includedShifts reader before after true false

end Included

end Irlume.Pam

/-!
## The wiring recipes

`transform.rs`: each recipe finds an anchor in a stack and puts irlume's lines around it, or leaves
the text as it is. The answer is the text and whether it changed. Every recipe weaves lines of
irlume's between the lines of the stack (`weave`); they differ in the anchor and in the lines.
-/

namespace Irlume.Pam

open Irlume.Lib

/-- The lines of a stack with others put above and below each of them, and at the end. -/
def weave (ls : List Text) (above below : Nat → Text → List Text) (tail : List Text) : List Text :=
  (ls.zipIdx.flatMap fun (l, i) => above i l ++ l :: below i l) ++ tail

def nothing (_ : Nat) (_ : Text) : List Text := []

section Recipes

variable (reader : StackReader)

def refuses (content : Text) : Bool :=
  hasLineContinuation content || (unreadableLine content).isSome ||
    hasFailingAuthLine reader content || contentHasModule content

/-- `wire_greeter_impl`: the face line before the password path, the keyring and reseal lines after
it, and a reseal line in the session phase. -/
def wireGreeterImpl (content : Text) (face keyring ondemand : Bool) : Text × Bool :=
  if refuses reader content then (content, false)
  else
    let ls := lines content
    let keyringLines := if keyring then [keyringUnseal] else []
    match ls.findIdx? isIncludeAuthLayout with
    | some incAt =>
      let faceLines :=
        if face then [includeGreeterLine (if ondemand then "ondemand" else "facefirst") true] else []
      let out := weave ls (fun i _ => if i = incAt then faceLines else [])
        (fun i l =>
          if i = incAt then keyringLines ++ [resealAuth]
          else if isSessionInclude l then [resealSession]
          else []) []
      (unlines (if resealSession ∈ out then out else out ++ [resealSession]), true)
    | none =>
      match findAuthAnchor reader ls with
      | none => (content, false)
      | some authAt =>
        let sessAt := ls.findIdx? (isPasswdSubstack · .session)
        let faceLines :=
          if face then [if ondemand then greeterUnsealCosmicJump else greeterUnsealFacefirstJump]
          else []
        let out := weave ls (fun i _ => if i = authAt then faceLines else [])
          (fun i _ =>
            if i = authAt then (if face then [permitLanding] else []) ++ keyringLines ++ [resealAuth]
            else if some i = sessAt then [resealSession]
            else [])
          (if sessAt.isNone then [resealSession] else [])
        (unlines out, true)

/-- `wire_lock`. -/
def wireLock (content : Text) : Text × Bool :=
  if refuses reader content then (content, false)
  else
    let ls := lines content
    match ls.findIdx? isIncludeAuthLayout with
    | some incAt =>
      (unlines (weave ls
        (fun i _ => if i = incAt then [includeGreeterLine "ondemand" false] else []) nothing []), true)
    | none =>
      match findAuthAnchor reader ls with
      | none => (content, false)
      | some authAt =>
        (unlines (weave ls (fun i _ => if i = authAt then [greeterUnsealCosmicJump] else [])
          (fun i _ => if i = authAt then [permitLanding] else []) []), true)

/-- One keyring module has an auth line below the fingerprint line and a session line. -/
def hasCompleteConsumer (ls : List Text) (fpAt : Nat) (service : Text) : Bool :=
  keyringConsumers.any fun modul =>
    ((ls.drop (fpAt + 1)).any fun l =>
      isAuthDirective l && consumerActiveFor l service = some modul) &&
    ls.any fun l => isSessionDirective l && consumerActiveFor l service = some modul

/-- `wire_fp_keyring`. -/
def wireFpKeyring (content service : Text) : Text × Bool :=
  if hasLineContinuation content || (unreadableLine content).isSome then (content, false)
  else if (lines content).any (irlumeRuleHasArg · "keyring") then (content, false)
  else
    let ls := lines content
    match ls.findIdx? isFingerprintAuth with
    | none => (content, false)
    | some fpAt =>
      let complete := hasCompleteConsumer ls fpAt service
      let out := weave ls nothing
        (fun i _ => if i = fpAt then keyringUnseal :: (if complete then [] else [fpGkrAuth]) else [])
        ((if complete then [] else [fpGkrSession]) ++
          if ls.any fun l => (irlumeRule l).any (·.phase = .session) then [] else [resealSession])
      (unlines out, true)

def isAuth (l : Text) : Bool := isAuthDirective l || isIncludeAuthLayout l

def withStanzaAt (ls : List Text) (stanza : Text) (place : Nat) : Text :=
  unlines (weave ls (fun i _ => if i = place then [stanza] else []) nothing [])

/-- The place of a verify stanza: above the password step, or above an earlier auth line when a jump
would count it; the first auth line in the end. -/
def stanzaPlace (content stanza : Text) (first password : Nat) : Nat :=
  let ls := lines content
  let places := ((List.range' (first + 1) (password - first)).reverse).filter fun i =>
    (ls[i]?).any isAuth
  (places.find? fun i =>
    (jumpsMovedByIrlume reader content (withStanzaAt ls stanza i)).isEmpty).getD first

/-- `insert_verify_stanza`. -/
def insertVerifyStanza (content stanza : Text) : Text × Bool :=
  let ls := lines content
  match ls.findIdx? isAuth with
  | none => (content, false)
  | some first =>
    let password := ((ls.findIdx? isPasswordStep).map (max · first)).getD first
    (withStanzaAt ls stanza (stanzaPlace reader content stanza first password), true)

/-- `wire_verify_service`. -/
def wireVerifyService (content : Text) : Text × Bool :=
  if refuses reader content then (content, false) else insertVerifyStanza reader content verifyStanza

/-- `wire_polkit_service`. -/
def wirePolkitService (content : Text) : Text × Bool :=
  if refuses reader content then (content, false)
  else insertVerifyStanza reader content polkitVerifyStanza

/-- `wire_omarchy_lock`. -/
def wireOmarchyLock (content : Text) : Text × Bool :=
  if refuses reader content then (content, false)
  else
    let ls := lines content
    match ls.findIdx? fun l => isIncludeAuthLayout l || isAuthDirective l with
    | none => (content, false)
    | some anchor => (withStanzaAt ls polkitVerifyStanza anchor, true)

inductive Recipe where
  | greeter (face keyring ondemand : Bool)
  | lock
  | verify
  | polkit
  | omarchyLock
  | fpKeyring (service : Text)

def Recipe.wire (content : Text) : Recipe → Text × Bool
  | .greeter face keyring ondemand => wireGreeterImpl reader content face keyring ondemand
  | .lock => wireLock reader content
  | .verify => wireVerifyService reader content
  | .polkit => wirePolkitService reader content
  | .omarchyLock => wireOmarchyLock reader content
  | .fpKeyring service => wireFpKeyring content service

end Recipes

end Irlume.Pam

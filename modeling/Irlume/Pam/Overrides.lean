import Irlume.Pam.Jumps
import Mathlib.Data.List.MinMax

/-!
# Overrides of vendor files

`overrides.rs` up to its decision: an override is a copy of a vendor file under two header lines, the second of
which records digests of the vendor file and of the lines irlume did not write.

`sha256` is the digest, as text; nothing here depends on what it computes.
-/

namespace Irlume.Pam

open Irlume.Lib

/-! ## The header -/

def overrideTrackStart : Text := "# irlume: override "

def createdLine (vendorPath : Text) : Text :=
  createdStart ++ vendorPath ++ "; delete this file to restore the vendor copy".toList

def trackingLine (vendorSha bodySha : Text) : Text :=
  overrideTrackStart ++ "v1 vendor-sha256=".toList ++ vendorSha ++ " body-sha256=".toList ++ bodySha

def isTrackingLine (line : Text) : Bool :=
  match (afterStart line overrideTrackStart).bind (afterStart · "v") with
  | none => false
  | some rest =>
    let digits := (rest.takeWhile Char.isDigit).length
    decide (0 < digits) && (rest.length = digits || rest[digits]? = some ' ')

def isSha256Hex (s : Text) : Bool :=
  s.length = 64 && s.all fun c => ('0' ≤ c && c ≤ '9') || ('a' ≤ c && c ≤ 'f')

def parseV1 (line : Text) : Option (Text × Text) :=
  match (afterStart line overrideTrackStart).map (List.splitOn ' ') with
  | some [version, vendor, body] =>
    if version = "v1".toList then
      match afterStart vendor "vendor-sha256=", afterStart body "body-sha256=" with
      | some vendor, some body =>
        if isSha256Hex vendor && isSha256Hex body then some (vendor, body) else none
      | _, _ => none
    else none
  | _ => none

/-- An override split into its header lines and its body. -/
structure Parsed where
  first : Text
  trackLine : Option Text
  /-- The whole file as read. -/
  text : Text
  digests : Option (Text × Text)
  /-- Every line except the two header lines, without the carriage returns lines end in. -/
  body : Text
  /-- A line of the file ends in a carriage return. -/
  crlf : Bool

/-- Where the tracking line is below the first line: in the comment block above the first
directive. -/
def trackAt (rest : List Text) : Option Nat :=
  (rest.takeWhile fun l => directive l = []).findIdx? isTrackingLine

/-- An override as it is read; `none` is a file without the first header line. -/
def parse (content : Text) : Option Parsed :=
  if !startsWith content createdStart then none
  else
    match (lines content).map trimCrs with
    | [] => none
    | first :: rest =>
      let trackLine := (trackAt rest).bind (rest[·]?)
      let bodyLines :=
        match trackAt rest with
        | some i => rest.eraseIdx i
        | none => rest
      some {
        first
        trackLine
        text := content
        digests := trackLine.bind parseV1
        body := if bodyLines = [] then [] else unlines bodyLines
        crlf := (content.splitOn '\n').any fun l => l.getLast? = some '\r' }

def Parsed.unreadable (p : Parsed) : Option UnreadLine := unreadableLine p.text

def keepHeader (p : Parsed) (body : Text) : Text :=
  match p.trackLine with
  | some track => p.first ++ '\n' :: (track ++ '\n' :: body)
  | none => p.first ++ '\n' :: body

section Digests

variable (sha256 : Text → Text)

def bodyDigest (body : Text) : Text := sha256 (base body)

def render (vendorPath vendor wired : Text) : Text :=
  createdLine vendorPath ++
    '\n' :: (trackingLine (sha256 vendor) (bodyDigest sha256 wired) ++ '\n' :: wired)

/-- What an override is, compared with the vendor file it was made from: unedited (`u`), edited (`e`)
or from before tracking (`l`); the vendor file unchanged (1), changed (2) or gone (3). `l1` has
exactly the vendor's lines. -/
inductive OverrideClass where
  | u1
  | u2
  | u3
  | l1
  | e1
  | e2
  | e3
  | l2
  | l3
  deriving DecidableEq

def OverrideClass.edited : OverrideClass → Bool
  | .u1 | .u2 | .u3 | .l1 => false
  | _ => true

/-- What became of an override. -/
def classify (p : Parsed) (vendor : Option Text) : OverrideClass :=
  let unedited := p.digests.any fun (_, bodySha) => bodyDigest sha256 p.body = bodySha
  let sameVendor := fun v => p.digests.any fun (vendorSha, _) => sha256 v = vendorSha
  if unedited then
    match vendor with
    | none => .u3
    | some v => if sameVendor v then .u1 else .u2
  else if vendor.any fun v => base p.body = base v then .l1
  else
    match p.digests, vendor with
    | some _, some v => if sameVendor v then .e1 else .e2
    | some _, none => .e3
    | none, some _ => .l2
    | none, none => .l3

end Digests

/-! ## irlume's lines in a body -/

def irlumeLines (text : Text) : List Text := ((lines text).filter isIrlumeLine).map norm

/-- Every rule of pam_irlume.so replaced by an inactive line in the same place. -/
def neutralize (body : Text) : Text :=
  unlines ((lines body).map fun l => if (irlumeRule l).isSome then inertFor l else l)

/-- Each of irlume's lines among `ls` replaced by the first of `wanted` with the same job, or by what
`leftover` makes of it; and the lines of `wanted` that took no place. -/
def refit (leftover : Text → List Text) : List Text → List Text → List Text × List Text
  | wanted, [] => ([], wanted)
  | wanted, line :: rest =>
    if !isIrlumeLine line then
      let (out, left) := refit leftover wanted rest
      (line :: out, left)
    else
      match wanted.find? fun w => kind w = kind line with
      | some w =>
        let (out, left) := refit leftover (wanted.eraseP fun w => kind w = kind line) rest
        (w :: out, left)
      | none =>
        let (out, left) := refit leftover wanted rest
        (leftover line ++ out, left)

/-- `refit` as a text, when every line of irlume's in the candidate found a place. -/
def refitText (leftover : Text → List Text) (body candidate : Text) : Option Text :=
  let (out, left) := refit leftover ((lines candidate).filter isIrlumeLine) (lines body)
  if left = [] then some (unlines out) else none

/-- irlume's lines updated in their own places; a rule the candidate has no line for becomes an
inactive line, and a line that is no rule stays. -/
def fillSlots (body wired : Text) : Option Text :=
  refitText (fun l => if (irlumeRule l).isSome then [inertFor l] else [l]) body wired

/-- irlume's lines updated in their own places; one the candidate has no line for is removed. -/
def substitute (body candidate : Text) : Option Text := refitText (fun _ => []) body candidate

/-! ## Checking a write -/

def textLe : Text → Text → Bool
  | [], _ => true
  | _ :: _, [] => false
  | a :: as, b :: bs => a < b || (a = b && textLe as bs)

/-- Where the numeric jumps of irlume's own rules land, by the rule's job and the value. -/
def ownLandings (text : Text) : List (Text × Text × Landing) :=
  let all := phases.flatMap fun phase =>
    let ch := chain text phase
    ch.zipIdx.flatMap fun (line, i) =>
      if (irlumeRule line).isNone then []
      else (numericActions line).map fun (key, n) => (kind line, key.name, landingOf ch i n)
  all.insertionSort fun a b =>
    (a.1 ≠ b.1 && textLe a.1 b.1) || (a.1 = b.1 && textLe a.2.1 b.2.1)

/-- What a write would do to the jumps in lines irlume did not write. -/
inductive JumpCheck where
  | clear
  | warn
  | refuse
  deriving DecidableEq

section Arrange

variable (reader : StackReader)

def checkJumps (before after : Text) (edited : Bool) : JumpCheck :=
  if (jumpsMovedByIrlume reader before after).isEmpty then .clear
  else if edited || holdsIrlumeLine before then .refuse
  else .warn

/-- `fillSlots` where it moves no jump and irlume's own jumps land as the recipe has them. -/
def filledInPlace (body wired : Text) (edited : Bool) : Option (Text × JumpCheck) :=
  match fillSlots body wired with
  | none => none
  | some filled =>
    if ownLandings filled ≠ ownLandings wired then none
    else
      match checkJumps reader body filled edited with
      | .refuse => none
      | check => some (filled, check)

/-- The jumps of lines that skip the same lines and land on the same line in the vendor copy. -/
def asVendorHasIt (vendorJumps : List Jump) (samePhase : Bool) (j : Jump) : Bool :=
  vendorJumps.any fun o =>
    (!samePhase || o.phase = j.phase) && o.line = j.line && o.ordinal = j.ordinal &&
      o.key = j.key && o.landing = j.landing && o.skipped = j.skipped

/-- The jumps taking irlume's lines out moves, except one that then is as the vendor copy has it. -/
def stripShifts (body stripped : Text) (vendor : Option Text) : List Shift :=
  let shifts := jumpShifts reader body stripped
  match vendor with
  | none => shifts
  | some v =>
    let vendorJumps := jumps (base v)
    let strippedJumps := jumps stripped
    shifts.filter fun s =>
      if s.included then
        let includes := (chain stripped s.phase).filter fun line => isInclude line && norm line = s.line
        match includes[s.ordinal - 1]?.bind fun line => includedJumpOffsets reader line s.phase false with
        | none => true
        | some offsets =>
          !offsets.all fun offset =>
            let now := includedLanding reader stripped s.phase s.line s.ordinal offset
            now.isSome && now = includedLanding reader (base v) s.phase s.line s.ordinal offset
      else !(strippedJumps.filter fun j => j.line = s.line).all (asVendorHasIt vendorJumps false)

/-! ## Where irlume's lines go in a file it keeps -/

/-- One row of the table of longest common subsequences, from the row below it. -/
def lcsRow (x : Text) : List Text → List Nat → List Nat
  | y :: ys, d :: ds =>
    let rest := lcsRow x ys ds
    (if x = y then ds.headD 0 + 1 else max d (rest.headD 0)) :: rest
  | _, _ => [0]

/-- The table of longest common subsequences of the suffixes of two lists. -/
def lcsTable (a b : List Text) : List (List Nat) :=
  a.foldr (fun x rows => lcsRow x b (rows.headD []) :: rows) [List.replicate (b.length + 1) 0]

def commonFrom : Nat → List Text → List Text → List (List Nat) → List Bool
  | 0, ours, _, _ => ours.map fun _ => false
  | _ + 1, [], _, _ => []
  | _ + 1, _ :: ours, [], _ => false :: ours.map fun _ => false
  | steps + 1, x :: ours, y :: theirs, rows =>
    if x = y then true :: commonFrom steps ours theirs (rows.tail.map List.tail)
    else if ((rows.headD []).tail.headD 0) ≤ (rows.tail.headD []).headD 0 then
      false :: commonFrom steps ours (y :: theirs) rows.tail
    else commonFrom steps (x :: ours) theirs (rows.map List.tail)

def commonLines (ours theirs : List Text) : List Bool :=
  commonFrom (ours.length + theirs.length) ours theirs (lcsTable ours theirs)

def pamKey (line : Text) : Text := norm (directive line)

/-- For each line of a file without irlume's lines, whether an administrator may have written it. -/
def ownLines (bare : Text) (vendor : Option Text) (edited : Bool) : List Bool :=
  let ours := (lines bare).map pamKey
  if !edited then ours.map fun _ => false
  else
    match vendor with
    | none => ours.map fun k => k ≠ []
    | some v =>
      let a := ours.filter (· ≠ [])
      let b := ((lines (base v)).map pamKey).filter (· ≠ [])
      let own := (a.zip (commonLines a b)).map fun (k, common) => !common || b.count k < a.count k
      -- The flags of the lines PAM reads, back at the places of those lines.
      (ours.foldl (fun (out, flags) k =>
        if k ≠ [] then (out ++ [flags.headD false], flags.tail) else (out ++ [false], flags))
        (([], own) : List Bool × List Bool)).1

/-- Each of irlume's lines with its job and how many of the administrator's lines come before it. -/
def slots (text : Text) (own : List Bool) : List (Text × Nat) :=
  ((lines text).foldl (fun (out, seen, admin) line =>
    if isIrlumeLine line then (out ++ [(kind line, admin)], seen, admin)
    else (out, seen + 1, if own[seen]?.getD true then admin + 1 else admin))
    (([], 0, 0) : List (Text × Nat) × Nat × Nat)).1

/-- The first administrator's line the candidate would move one of irlume's lines past, as its index
in the body when it can be told. -/
def crossing (body candidate bare : Text) (own : List Bool) : Option (Option Nat) :=
  let theirs := ((lines body).zipIdx.filter fun (l, _) => !isIrlumeLine l).map Prod.snd
  let adminLines := (((lines bare).zip own).zipIdx.filter fun ((_, admin), _) => admin).map Prod.snd
  let before := slots body own
  let held := before.map Prod.snd
  let after := slots candidate own
  after.zipIdx.findSome? fun ((k, slot), i) =>
    let n := ((after.take i).filter fun (k', _) => k' = k).length
    let other :=
      match ((before.filter fun (bk, _) => bk = k)[n]?).map Prod.snd with
      | some o => if o = slot then none else some o
      | none =>
        if slot ∈ held then none
        else some ((held.argmin fun h => if h ≤ slot then slot - h else h - slot).getD slot)
    other.map fun other => (adminLines[min slot other]?).bind fun i => theirs[i]?

/-- The first line of `ls` that the predicate on places takes and that names the password stack, else
the first auth substack. -/
def firstPassword (ls : List Text) (take : Nat → Bool) : Option Nat :=
  let named := fun l => isIncludeAuthLayout l || isPasswdSubstack l .auth
  ((ls.zipIdx.find? fun (l, i) => named l && take i).map Prod.snd).or
    ((ls.zipIdx.find? fun (l, i) => isAuthSubstackAnchor l && take i).map Prod.snd)

def passwordLine (bare : Text) (own : List Bool) (vendorKnown : Bool) : Option Nat :=
  let ls := lines bare
  if vendorKnown then firstPassword ls fun i => !(own[i]?.getD true)
  else
    (firstPassword ls fun _ => true).filter fun k =>
      (ls.filter fun l => some (pamKey l) = ls[k]?.map pamKey).length = 1

/-- Taking irlume's lines out would leave a file irlume cannot wire again where they are. -/
def stripLosesPlace (body : Text) (vendor : Option Text) (edited : Bool) : Bool :=
  let bare := base body
  edited && (passwordLine bare (ownLines bare vendor true) vendor.isSome).isNone

def anchored (bare : Text) (own : List Bool) (vendorKnown : Bool) (wire : Text → Text × Bool) :
    Option Text :=
  let ls := lines bare
  match passwordLine bare own vendorKnown with
  | none => none
  | some k =>
    let (tail, ok) := wire (unlines (ls.drop k))
    if !ok then none
    else
      let t := lines tail
      match t.findIdx? (!isIrlumeLine ·) with
      | none => none
      | some i =>
        let irlumeAt := fun j => (t[j]?).any isIrlumeLine
        if !(0 < i && irlumeAt (i - 1)) && !irlumeAt (i + 1) then none
        else if k = 0 then some tail
        else some (['\n'].intercalate (ls.take k) ++ '\n' :: tail)

/-- Why irlume's lines cannot be updated in a file it keeps. -/
inductive Misplaced where
  | crossing (line : Option Nat)
  | noPasswordAnchor

/-- Where irlume's lines go when it updates them in a file it keeps. -/
def arrange (body bare wired : Text) (vendor : Option Text) (edited : Bool)
    (wire : Text → Text × Bool) : Except Misplaced Text :=
  let own := ownLines bare vendor edited
  if !holdsIrlumeLine body then
    if !edited then .ok wired
    else
      match anchored bare own vendor.isSome wire with
      | some text => .ok text
      | none => .error .noPasswordAnchor
  else
    match crossing body wired bare own with
    | none => .ok wired
    | some line =>
      match substitute body wired with
      | some text => .ok text
      | none => .error (.crossing line)

end Arrange

end Irlume.Pam

import Irlume.Pam.Adjust

/-!
# The decision for an override

`overrides.rs`, `decide` and what it branches to, with the checks of `transform.rs` it makes on a file
irlume cannot read throughout. A decision is what becomes of the file and how the run reports it; the
words of the report and its diffs are left out, as are the inputs only they use (`etc`, `command`,
`scope_flag`).
-/

namespace Irlume.Pam

open Irlume.Lib

/-! ## Files irlume does not read throughout -/

/-- A line of `splitInclusive` without its newline. -/
def withoutNewline (l : Text) : Text := if l.getLast? = some '\n' then l.dropLast else l

/-- Taking irlume's lines out joins no continued line with another one, cuts none, and moves no jump of
one above them. -/
def removalPreservesContinuations (content : Text) : Bool :=
  let ls := (splitInclusive content).map withoutNewline
  let ours := fun l => isIrlumeLine (trimCrs l)
  ls.zipIdx.all fun (l, i) =>
    let previousContinues := decide (0 < i) && (ls[i - 1]?).any hasLineContinuation
    !((ours l && (previousContinues || hasLineContinuation l)) ||
      (hasLineContinuation l && (ls.drop (i + 1)).any ours))

/-- The recipe finds no anchor in the lines irlume reads, and no line it does not read could be one. -/
def recipeHasNoAnchor (content : Text) (wire : Text → Text × Bool) : Bool :=
  let ls := splitInclusive content
  if ls.any fun l => hasLineContinuation l && (head l).any (·.phase = .auth) then false
  else
    let mayHideAnchor := ls.any fun l => !hasLineContinuation l && (unreadableLine l).any fun u =>
      let read := beforeNul l
      isAtInclude read ||
        (head read).any fun h => h.phase = .auth && u.why ≠ .unknownType false
    let readable := (ls.filter fun l => !hasLineContinuation l && (unreadableLine l).isNone).flatten
    !mayHideAnchor && !(wire readable).2

def jumpCouldCountIrlumeLines (reader : StackReader) (content : Text) : Bool :=
  let irlume := fun l => isIrlumeLine (trimCrs l)
  let ls := content.splitOn '\n'
  let laterIrlume := fun (i : Nat) (phase : Phase) =>
    (ls.drop (i + 1)).any fun m => irlume m && (head (trimCrs m)).any (·.phase = phase)
  ls.zipIdx.any fun (l, i) =>
    (ls.drop (i + 1)).any irlume && !irlume l &&
      match includeCouldJumpPast reader (beforeNul l) (laterIrlume i) false with
      | some past => past
      | none => (head (beforeNul l)).any fun h => h.numericActions ≠ []

/-! ## Decisions -/

inductive PlannedChange where
  | materializeOverride
  | wire
  | removeOverride
  | rewireOverride
  | keepEditedOverride
  | restoreBackup
  | stripInPlace
  | alreadyCorrect
  | notInstalled
  | noAnchor
  | notWired
  deriving DecidableEq

/-- What the decision for one override reads. -/
structure Input where
  vendorPath : Text
  /-- The file under `/etc`, when there is one. -/
  current : Option Text
  vendor : Option Text
  /-- The copy an earlier `--force` kept. -/
  backup : Option Text
  /-- The run wants irlume's lines in the file. -/
  enable : Bool
  force : Bool
  adjustJumps : Bool
  wire : Text → Text × Bool
  /-- libpam loads the file a `substack` line names as one stack. -/
  opens : Text → Bool

inductive Write where
  | nothing
  | replace (text : Text)
  | remove
  deriving DecidableEq

structure Decision where
  change : PlannedChange
  write : Write
  /-- The current file is copied away before the write. -/
  keepCopy : Bool := false
  /-- irlume's lines are not the ones this run wanted. -/
  unmet : Bool := false
  /-- `--adjust-jumps` would handle the file differently. -/
  adjustable : Bool := false
  /-- The write adds the tracking line and changes no PAM line. -/
  headerOnly : Bool := false
  deriving DecidableEq

inductive DecideError where
  | notAnOverride
  | vendorGone
  | otherBackup
  deriving DecidableEq

def keep (change : PlannedChange) : Decision := { change, write := .nothing }

def replace (change : PlannedChange) (content : Text) : Decision :=
  { change, write := .replace content }

/-- The file left as it is, with irlume's lines not the ones this run wanted: a line of it is
continued or not read as libpam reads it, or an update was refused. -/
def leftAsItIs : Decision := { keep .keepEditedOverride with unmet := true }

section Decide

variable (sha256 : Text → Text) (reader : StackReader) (i : Input)

def Input.source (p : Parsed) : Source :=
  { carriageReturn := hasReadCarriageReturn p.text, opens := i.opens, vendor := i.vendor }

/-- irlume's lines taken out of a body that is kept, once the body can be read: with the jumps that
count them lowered, or with inactive lines in their places. -/
def strip (p : Parsed) (cls : OverrideClass) (noAnchor : Bool) : Decision :=
  let stripped := (unwireLines p.body).1
  let shifts := stripShifts reader p.body stripped i.vendor
  let losesPlace := stripLosesPlace p.body i.vendor cls.edited
  if shifts.isEmpty && !losesPlace then replace .stripInPlace (keepHeader p stripped)
  else
    let lowered :=
      if losesPlace || shifts.any (·.included) then none
      else (adjust reader p.body stripped .remove (i.source p)).toOption
    match i.adjustJumps, lowered with
    | true, some text => replace .stripInPlace (keepHeader p text)
    | _, _ =>
      let adjustable := !i.adjustJumps && lowered.isSome
      let inert := neutralize p.body
      if inert = normalize p.body then
        { keep (if noAnchor then .noAnchor else .notWired) with adjustable }
      else { replace .stripInPlace (keepHeader p inert) with adjustable }

/-- `remove_or_strip`: a disable, and the removal an enable that finds no anchor makes. -/
def removeOrStrip (p : Parsed) (cls : OverrideClass) (noAnchor : Bool) : Decision :=
  if cls = .u1 || cls = .u2 || cls = .l1 then { keep .removeOverride with write := .remove }
  else if !(unwireLines p.body).2 then keep .notWired
  else if hasLineContinuation p.text && (!noAnchor || !removalPreservesContinuations p.text) then
    leftAsItIs
  else if p.unreadable.isSome || hasLineContinuation p.text then
    -- Every other byte is kept, which moves no landing while no jump counts irlume's lines.
    if jumpCouldCountIrlumeLines reader p.text then leftAsItIs
    else replace .stripInPlace (withoutIrlumeLines p.text)
  else strip reader i p cls noAnchor

/-- `forced`: the vendor file takes an edited override's place. -/
def forced (current : Text) (p : Parsed) (cls : OverrideClass) : Except DecideError Decision :=
  match i.vendor with
  | none => .error .vendorGone
  | some v =>
    if (unreadableLine v).isSome then .ok leftAsItIs
    else
      let (wired, ok) := i.wire (base v)
      if !ok then
        .ok (if holdsIrlumeLine p.body then removeOrStrip reader i p cls true else keep .noAnchor)
      else if i.backup.any (· ≠ current) then .error .otherBackup
      else if checkJumps reader p.body wired false = .refuse then .ok leftAsItIs
      else
        .ok { replace .materializeOverride (render sha256 i.vendorPath v wired) with keepCopy := true }

/-- The arranged body with every jump landing where it did, and whether that took each of irlume's
lines updated in its own place; or, refused, whether `--adjust-jumps` would make it. -/
def keepingJumps (p : Parsed) (wired arranged : Text) (edited : Bool) : Except Bool (Text × Bool) :=
  if checkJumps reader p.body arranged edited ≠ .refuse then .ok (arranged, false)
  else
    match filledInPlace reader p.body wired edited with
    | some (text, _) => .ok (text, true)
    | none =>
      if (jumpsMovedByIrlume reader p.body arranged).any (·.included) then .error false
      else
        match adjust reader p.body arranged .add (i.source p) with
        | .ok text => if i.adjustJumps then .ok (text, false) else .error true
        | .error _ => .error false

def rewire (p : Parsed) (bare wired : Text) (edited : Bool) (unchanged : PlannedChange) : Decision :=
  if (irlumeLines p.body).isPerm (irlumeLines wired) then
    -- Any carriage return is in a comment, and goes.
    if p.crlf then replace .rewireOverride (keepHeader p p.body) else keep unchanged
  else
    match arrange p.body bare wired i.vendor edited i.wire with
    | .error (.crossing _) => leftAsItIs
    | .error .noPasswordAnchor => keep .noAnchor
    | .ok arranged =>
      match keepingJumps reader i p wired arranged edited with
      | .error adjustable => { leftAsItIs with adjustable }
      | .ok (text, filled) =>
        if filled && normalize text = normalize p.body && !p.crlf then keep unchanged
        else replace .rewireOverride (keepHeader p text)

/-- `in_place`: irlume's lines updated and every other line kept, the header included. -/
def inPlace (p : Parsed) (cls : OverrideClass) (edited : Bool) (unchanged : PlannedChange) : Decision :=
  let bare := base p.body
  let (wired, ok) := i.wire bare
  if !ok && recipeHasNoAnchor bare i.wire then
    if holdsIrlumeLine p.body then removeOrStrip reader i p cls true else keep .noAnchor
  else if hasLineContinuation p.text then leftAsItIs
  else if p.unreadable.isSome then leftAsItIs
  else rewire reader i p bare wired edited unchanged

/-- `vendor_gone`: the file is what PAM reads for the service. -/
def vendorGone (p : Parsed) (cls : OverrideClass) : Decision :=
  inPlace reader i p cls cls.edited .alreadyCorrect

/-- `rebuild`: nothing of anybody else's is in the file, so it follows the vendor file. -/
def rebuild (current : Text) (p : Parsed) (cls : OverrideClass) : Decision :=
  match i.vendor with
  | none => vendorGone reader i p cls
  | some v =>
    let (wired, ok) := i.wire (base v)
    let fresh := render sha256 i.vendorPath v wired
    let update := inPlace reader i p cls false .alreadyCorrect
    if (unreadableLine v).isSome || !ok then update
    else if normalize current = fresh && !p.crlf then keep .alreadyCorrect
    else if checkJumps reader p.body wired false = .refuse then update
    else
      { replace .materializeOverride fresh with
        headerOnly := cls = .l1 && normalize p.body = wired && !p.crlf }

/-- `rewire_edited`: irlume's lines are updated in place, never rebuilt from the vendor file. -/
def rewireEdited (p : Parsed) (cls : OverrideClass) : Decision :=
  inPlace reader i p cls true (if cls = .e1 then .alreadyCorrect else .keepEditedOverride)

def materialize : Decision :=
  match i.enable, i.vendor with
  | false, _ => keep .notWired
  | true, none => keep .notInstalled
  | true, some v =>
    if (unreadableLine v).isSome then leftAsItIs
    else
      let (wired, ok) := i.wire (base v)
      if !ok then keep .noAnchor
      else replace .materializeOverride (render sha256 i.vendorPath v wired)

def enableOver (current : Text) (p : Parsed) (cls : OverrideClass) : Except DecideError Decision :=
  if cls = .u2 && i.vendor.any fun v => (i.wire (base v)).2 then
    .ok (rebuild sha256 reader i current p cls)
  else if holdsIrlumeLine p.body && recipeHasNoAnchor (base p.body) i.wire then
    .ok (removeOrStrip reader i p cls true)
  else if p.unreadable.isSome then .ok leftAsItIs
  else if i.force && (cls = .e1 || cls = .e2 || cls = .l2) then forced sha256 reader i current p cls
  else
    match cls with
    | .u3 | .e3 | .l3 => .ok (vendorGone reader i p cls)
    | .u1 | .u2 | .l1 => .ok (rebuild sha256 reader i current p cls)
    | .e1 | .e2 | .l2 => .ok (rewireEdited reader i p cls)

def Input.decide : Except DecideError Decision :=
  match i.current with
  | none => .ok (materialize sha256 i)
  | some current =>
    match parse current with
    | none => .error .notAnOverride
    | some p =>
      let cls := classify sha256 p i.vendor
      if !i.enable then .ok (removeOrStrip reader i p cls false)
      else enableOver sha256 reader i current p cls

end Decide

end Irlume.Pam

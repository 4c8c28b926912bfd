import Irlume.Pam.Overrides

/-!
# Adjusting jumps

`overrides/adjust.rs` (`--adjust-jumps`) and `with_jump_values` of `grammar.rs`: when irlume's lines go
into or come out of a stack, the value of a numeric jump that counts them is changed so that it skips
the same lines and lands on the same line. Every refusal is one of `Cannot`; the words of a refusal and
the notes on what changed are for messages only and are left out.
-/

namespace Irlume.Pam

open Irlume.Lib

/-! ## New values for the jumps of a line -/

def controlStart (line : Text) (control : Text) : Option Nat :=
  let read := line.dropWhile fun c => c = ' ' || c = '\t'
  let d := directive line
  match typeField d with
  | none => none
  | some (_, rest) =>
    match rest.dropWhile isFieldDelimiter with
    | '[' :: inner =>
      let start := (line.length - read.length) + (d.length - inner.length)
      if (line)[start + control.length]? = some ']' then some start else none
    | _ => none

/-- One changed jump: the value, and its number before and after. -/
structure JumpEdit where
  value : Value
  before : Nat
  after : Nat

def editedPair (pairs : List Pair) (e : JumpEdit) : Option Pair :=
  if e.after = 0 || maxJump < e.after then none
  else
    match pairs.zipIdx.filter fun (p, _) => p.value = e.value with
    | [(p, i)] =>
      let set := setBy (pairs.map fun p => (p.value, p.action))
      if p.action = .jump e.before && allReturnValues.any fun r => set r = some i then some p else none
    | _ => none

/-- The characters of a text from `start` to `stop` replaced by the digits of a number. -/
def replaceRange (t : Text) (start stop n : Nat) : Text :=
  t.take start ++ (toString n).toList ++ t.drop stop

/-- The line with some of its numeric jumps given new values and every other character kept. -/
def withJumpValues (line : Text) (edits : List JumpEdit) : Option Text :=
  match head line with
  | none => none
  | some h =>
    if h.control = [] then none
    else
      match controlStart line h.control, controlPairsAt h.control with
      | some start, some pairs =>
        if !(edits.map (·.value)).Nodup then none
        else
          (edits.mapM fun e => (editedPair pairs e).map fun p => (p, e.after)).map fun spans =>
            -- From the last span back, so the earlier ones stay where they are.
            (spans.insertionSort fun x y => y.1.start ≤ x.1.start).foldl
              (fun out (p, n) => replaceRange out (start + p.start) (start + p.stop) n) line
      | _, _ => none

/-! ## Pairing the lines -/

/-- Which way irlume's lines move. -/
inductive Way where
  | add
  | remove
  deriving DecidableEq

/-- Why no jump is adjusted. -/
inductive Cannot where
  | carriageReturn
  | continued
  | unreadBefore
  | unreadAfter
  | unopened
  | ownLines
  | otherLines
  | repeatedLine
  | includeJump
  | unplaced
  | pastEnd
  | ownJump
  | crossesInclude
  | skipsOnlyIrlume
  | landsElsewhere
  | sameText
  | notBracketed
  | sameTextAfter
  | doesNotCheckOut

structure Source where
  carriageReturn : Bool
  /-- libpam loads the file a `substack` line names as one stack. -/
  opens : Text → Bool
  vendor : Option Text

structure Pairing where
  toAfter : List (Option Nat)
  toBefore : List (Option Nat)
  added : List Bool

/-- The places in `more` of the lines of `fewer`, taking the first line that fits each time. -/
def firstFitFrom : Nat → List Text → List Text → Option (List Nat)
  | _, [], _ => some []
  | _, _ :: _, [] => none
  | j, f :: fewer, m :: more =>
    if m = f then (firstFitFrom (j + 1) fewer more).map (j :: ·)
    else firstFitFrom (j + 1) (f :: fewer) more

def firstFit (fewer more : List Text) : Option (List Nat) := firstFitFrom 0 fewer more

/-- As `firstFit`, taking the last line that fits each time: the first from the end. -/
def lastFit (fewer more : List Text) : Option (List Nat) :=
  (firstFit fewer.reverse more.reverse).map fun places =>
    places.reverse.map fun j => more.length - 1 - j

/-- The inverse of a pairing, over `n` places. -/
def inverse (places : List Nat) (n : Nat) : List (Option Nat) :=
  (List.range n).map fun j => places.idxOf? j

/-- The pairing of two files that differ in lines of irlume's only, when there is only one. -/
def pair (b a : List Text) (way : Way) : Except Cannot Pairing :=
  let (fewer, more) := match way with
    | .add => (b, a)
    | .remove => (a, b)
  let unpaired := fun (places : List Nat) (ls : List Text) =>
    (ls.zipIdx.filter fun (_, j) => j ∉ places).map Prod.fst
  match firstFit fewer more with
  | none =>
    let theirs := b.filter (!isIrlumeLine ·)
    let onlyIrlumes := (firstFit theirs a).any fun places => (unpaired places a).all isIrlumeLine
    .error (if way = .add && onlyIrlumes then .ownLines else .otherLines)
  | some places =>
    if lastFit fewer more ≠ some places then .error .repeatedLine
    else if (unpaired places more).any (!isIrlumeLine ·) then .error .otherLines
    else
      match way with
      | .add => .ok {
          toAfter := places.map some
          toBefore := inverse places a.length
          added := (List.range a.length).map fun j => decide (j ∉ places) }
      | .remove => .ok {
          toAfter := inverse places b.length
          toBefore := places.map some
          added := a.map fun _ => false }

/-! ## The adjustment -/

def chainAt (ls : List Text) (phase : Phase) : List Nat :=
  (ls.zipIdx.filter fun (l, _) => inChain l phase).map Prod.snd

def isPermitLanding (line : Text) : Bool := isIrlumeLine line && contains line landingTag

/-- irlume cannot tell that libpam counts the substack line as one module. -/
def unopened (line : Text) (source : Source) : Bool :=
  (head line).any fun h =>
    h.isSubstack && !(h.stackName.any fun stack => '\\' ∉ stack && source.opens stack)

/-- One numeric action an adjustment changes. -/
structure Step where
  phase : Phase
  line : Nat
  key : Value
  before : Nat
  after : Nat
  beforeAt : Nat
  afterAt : Nat
  sameLine : Bool

section Adjust

variable (reader : StackReader)

/-- A numeric jump of an included stack could count lines of irlume's this adjustment adds or takes
out. -/
def includeJump (b a : List Text) (pairing : Pairing) : Bool :=
  b.zipIdx.any fun (line, i) =>
    let image := (pairing.toAfter[i]?).join
    let later := fun kind =>
      (image.any fun j => (a.zipIdx.drop (j + 1)).any fun (l, k) =>
        (pairing.added[k]?.getD false) && phaseOf l = some kind) ||
      (b.zipIdx.drop (i + 1)).any fun (l, k) =>
        (pairing.toAfter[k]?).join.isNone && phaseOf l = some kind
    let nextAuthAdded := fun kind =>
      kind = .auth && image.any fun j =>
        ((a.zipIdx.drop (j + 1)).find? fun (l, _) => phaseOf l = some .auth).any fun (_, k) =>
          pairing.added[k]?.getD false
    includeCouldJumpPast reader line later false = some true ||
      includeCouldJumpPast reader line (fun k => nextAuthAdded k) true = some true

def asTheVendorHasThem (stripped : Text) (vendor : Option Text) : List (Phase × Text × Nat) :=
  match vendor with
  | none => []
  | some v =>
    let vendorJumps := jumps (base v)
    let strippedJumps := jumps stripped
    ((strippedJumps.filter fun j =>
      (strippedJumps.filter fun o =>
        o.phase = j.phase && o.line = j.line && o.ordinal = j.ordinal).all
        (asVendorHasIt vendorJumps true)).map fun j => (j.phase, j.line, j.ordinal)).dedup

/-- What one action of the line at place `beforeAt` of its chain becomes: nothing to change, a step,
or a refusal. -/
def stepOf (b a : List Text) (pairing : Pairing) (way : Way) (phase : Phase) (beforeAt afterAt al : Nat)
    (key : Value) (n : Nat) : Except Cannot (Option Step) :=
  let cb := chainAt b phase
  let ca := chainAt a phase
  let lineB := fun i => (cb[i]?).bind (b[·]?)
  let stays := fun (x : Nat) => (pairing.toAfter[x]?).join
  let place := fun (x : Nat) => ca.idxOf? x
  let t := beforeAt + n + 1
  if cb.length < t then
    let touched := match way with
      | .add => (ca.drop (afterAt + 1)).any fun x => pairing.added[x]?.getD false
      | .remove => (cb.drop (beforeAt + 1)).any fun x => (stays x).isNone
    if touched then .error .pastEnd else .ok none
  else
    let skipped := (cb.drop (beforeAt + 1)).take n
    let landsBefore := cb[t]?
    let lastStays := skipped.reverse.findSome? stays
    match (match lastStays with
      | some x => place x
      | none => some afterAt) with
    | none => .error .unplaced
    | some aLast =>
      let landing : Except Cannot (Nat × Bool) := match way with
        | .add =>
          match (match landsBefore with
            | some x => (stays x).bind place
            | none => some ca.length) with
          | none => .error .unplaced
          | some same =>
            let permit := aLast + 1
            let ontoPermit := key = .value .success && landsBefore.isSome &&
              (lineB beforeAt).any (ruleNamesModule · "pam_fprintd.so") && decide (permit < same) &&
              (ca[permit]?).any fun x => (pairing.added[x]?.getD false) && (a[x]?).any isPermitLanding
            .ok (if ontoPermit then (permit, false) else (same, true))
        | .remove =>
          let land := aLast + 1
          .ok (land, match landsBefore, ca[land]? with
            | some x, some y => stays x = some y
            | none, none => true
            | _, _ => false)
      match landing with
      | .error e => .error e
      | .ok (land, sameLine) =>
        let after := land - afterAt - 1
        if after = n && sameLine then .ok none
        else if (lineB beforeAt).any isIrlumeLine then .error .ownJump
        else if (skipped.any fun x => (b[x]?).any isInclude) ||
            ((ca.drop (afterAt + 1)).take (land - afterAt - 1)).any fun x => (a[x]?).any isInclude then
          .error .crossesInclude
        else if after = 0 then .error .skipsOnlyIrlume
        else
          let lost := (landsBefore.any fun x => (stays x).isNone) && (ca[land]?).isSome
          if !sameLine && way = .remove && !lost then .error .landsElsewhere
          else .ok (some { phase, line := al, key, before := n, after, beforeAt, afterAt, sameLine })

/-- The steps of the line at place `beforeAt` of its chain in the file before, `bl` its number there. -/
def lineSteps (b a : List Text) (pairing : Pairing) (way : Way) (restored : List (Phase × Text × Nat))
    (phase : Phase) (bl beforeAt : Nat) : Except Cannot (List Step) :=
  let ca := chainAt a phase
  -- A line taken out takes its jumps with it.
  match (pairing.toAfter[bl]?).join with
  | none => .ok []
  | some al =>
    let actions := numericActions (b[bl]?.getD [])
    if actions = [] then .ok []
    else
      match ca.idxOf? al with
      | none => .error .unplaced
      | some afterAt =>
        let text := norm (a[al]?.getD [])
        let ordinal := ((ca.take (afterAt + 1)).filter fun x => norm (a[x]?.getD []) = text).length
        if (phase, text, ordinal) ∈ restored then .ok []
        else
          (actions.mapM fun (key, n) => stepOf b a pairing way phase beforeAt afterAt al key n).map
            (List.filterMap id)

def stepsOf (b a : List Text) (pairing : Pairing) (way : Way) (restored : List (Phase × Text × Nat))
    (phase : Phase) : Except Cannot (List Step) :=
  ((chainAt b phase).zipIdx.mapM fun (bl, beforeAt) =>
    lineSteps b a pairing way restored phase bl beforeAt).map List.flatten

def writeSteps (a : List Text) (steps : List Step) : List Nat → List Text → Except Cannot (List Text)
  | [], out => .ok out
  | line :: rest, out =>
    let text := a[line]?.getD []
    if (a.filter fun l => norm l = norm text).length ≠ 1 then .error .sameText
    else
      let edits := (steps.filter fun s => s.line = line && s.after ≠ s.before).map fun s =>
        { value := s.key, before := s.before, after := s.after }
      if edits = [] then writeSteps a steps rest out
      else
        match withJumpValues text edits with
        | none => .error .notBracketed
        | some new => writeSteps a steps rest (out.set line new)

def stepChecksOut (b a w : List Text) (way : Way) (s : Step) : Bool :=
  let ib := chainAt b s.phase
  let iw := chainAt w s.phase
  let cb := ib.map fun i => b[i]?.getD []
  let ca := iw.map fun i => a[i]?.getD []
  let theirs := fun (ch : List Text) (i n : Nat) =>
    (((ch.drop (i + 1)).take n).filter (!isIrlumeLine ·)).map lineKey
  let was := landingOf cb s.beforeAt s.before
  let now := landingOf ca s.afterAt s.after
  decide ((s.key, s.after) ∈ numericActions (w[s.line]?.getD [])) &&
    iw = chainAt a s.phase && iw[s.afterAt]? = some s.line &&
    theirs cb s.beforeAt s.before = theirs ca s.afterAt s.after &&
    if s.sameLine then was = now
    else
      match way, was, now with
      | .add, .line _ _, .line key _ =>
        s.key = .value .success && ruleNamesModule (w[s.line]?.getD []) "pam_fprintd.so" &&
          key = lineKey permitLanding
      | .remove, .line key _, .line _ _ => startsWith key "irlume "
      | _, _, _ => false

/-- `prove`: the adjusted text as written, against the file before and after. -/
def checksOut (before after adjusted : Text) (way : Way) (steps : List Step)
    (restored : List (Phase × Text × Nat)) (source : Source) : Bool :=
  let b := lines before
  let a := lines after
  let w := lines adjusted
  let excused := steps.map fun s => norm (w[s.line]?.getD [])
  let renamed := steps.foldl (fun out s =>
    match (chainAt b s.phase)[s.beforeAt]? with
    | some i => out.set i (w[s.line]?.getD [])
    | none => out) b
  let withText := fun (ls : List Text) (phase : Phase) (line : Text) =>
    (chainAt ls phase).filter fun x => norm (ls[x]?.getD []) = line
  let shifts := match way with
    | .add => jumpsMovedByIrlume reader (unlines renamed) adjusted
    | .remove => jumpShifts reader (unlines renamed) adjusted
  w.length = a.length && (unreadableLine adjusted).isNone && !hasLineContinuation adjusted &&
    !w.any (unopened · source) && steps.all (stepChecksOut b a w way) &&
    steps.all (fun s => ((chainAt b s.phase)[s.beforeAt]?).isSome) &&
    phases.all (fun phase => chainAt w phase = chainAt a phase) &&
    restored.all (fun (phase, line, ordinal) =>
      ((withText a phase line)[ordinal - 1]?).isSome && withText a phase line = withText w phase line) &&
    !shifts.any fun s => s.line ∉ excused && (s.phase, s.line, s.ordinal) ∉ restored

/-- The file after with the jumps irlume's lines move given new values. -/
def adjust (before after : Text) (way : Way) (source : Source) : Except Cannot Text :=
  if source.carriageReturn then .error .carriageReturn
  else if hasLineContinuation before || hasLineContinuation after then .error .continued
  else if (unreadableLine before).isSome then .error .unreadBefore
  else if (unreadableLine after).isSome then .error .unreadAfter
  else
    let b := lines before
    let a := lines after
    if b.any (unopened · source) then .error .unopened
    else
      match pair b a way with
      | .error e => .error e
      | .ok pairing =>
        if (a.zipIdx.any fun (l, k) => (pairing.added[k]?.getD false) && unopened l source) then
          .error .unopened
        else if includeJump reader b a pairing then .error .includeJump
        else
          let restored := match way with
            | .add => []
            | .remove => asTheVendorHasThem after source.vendor
          match (phases.mapM (stepsOf b a pairing way restored)).map List.flatten with
          | .error e => .error e
          | .ok steps =>
            let changed := ((steps.map (·.line)).insertionSort (· ≤ ·)).dedup
            match writeSteps a steps changed a with
            | .error e => .error e
            | .ok out =>
              if changed.any fun i =>
                  (out.filter fun l => norm l = norm (out[i]?.getD [])).length ≠ 1 then
                .error .sameTextAfter
              else if checksOut reader before after (unlines out) way steps restored source then
                .ok (unlines out)
              else .error .doesNotCheckOut

end Adjust

end Irlume.Pam

import Irlume.Config.CameraConf
import Irlume.Lib.Machine
import Mathlib.Data.List.AList
import Mathlib.Data.List.Sort

/-!
# The split publication protocol

`cameras.conf` is the one commit point: it names a generation file that was written whole before it.
Writers hold the lock on `cameras.conf` (`Stage`); a reader takes none, so each of its accesses is at a moment of its own.

A file write is a rename and one step. Between any two file steps of a writer its process may die,
which lets the lock go and leaves everything else (`Event.stop`); a step that fails leaves the same
way, so a failing call is one that stops. Writer temporaries have names no reader opens.

SHA-256 is a parameter of the development.
-/

namespace Irlume.Split

open Irlume.Lib Irlume.Config

/-- The generation directory: file names and contents. -/
abbrev Directory := AList fun _ : Text => List UInt8

/-- The arguments of one publication. -/
structure Call where
  records : List AuthorizationRecord
  selected : Option SplitPairKey
  deriving DecidableEq

inductive PublishError where
  | io (error : IoError)
  | unreadable
  | malformedConfig
  | schema (error : SchemaError)
  | generationExhausted

/-- What one lock-free read established. -/
inductive SplitReadState where
  | absent
  | unreadable
  | malformed
  | malformedGeneration (generation : Nat)
  | unresolvedSelection (generation recordCount : Nat)
  | digestMismatch (generation : Nat)
  | valid (generation : Nat) (records : List AuthorizationRecord) (selected : Option SplitPairKey)
  deriving DecidableEq

structure CameraSelectionSnapshot where
  observation : CameraConfObservation
  split : SplitReadState

/-! ## Names of generation files -/

def generationEnd : Text := ['.', 'c', 'o', 'n', 'f']

def generationName (n : Nat) : Text := decimal n ++ generationEnd

def parseGenerationName (name : Text) : Option Nat :=
  if generationEnd <:+ name then
    let stem := name.take (name.length - generationEnd.length)
    if canonicalDecimal stem ∧ decimalValue stem < 2 ^ 64 ∧ 1 ≤ decimalValue stem then
      some (decimalValue stem)
    else none
  else none

/-- `str::split_once` at a text. -/
def splitOnceAtText (pattern : Text) : Text → Option (Text × Text)
  | [] => if pattern = [] then some ([], []) else none
  | c :: t =>
    match afterStart (c :: t) pattern with
    | some rest => some ([], rest)
    | none => (splitOnceAtText pattern t).map fun e => (c :: e.1, e.2)

def isDigits (t : Text) : Bool := t ≠ [] && t.all Char.isDigit

/-- `.<generation name>.tmp.<pid>.<seq>`. -/
def isWriterTemp (name : Text) : Bool :=
  (afterStart name ['.']).any fun stripped =>
    (splitOnceAtText ".tmp." stripped).any fun e =>
      (parseGenerationName e.1).isSome && (splitOnceAt '.' e.2).any fun t => isDigits t.1 && isDigits t.2

/-- The generations a read of the directory finds, in order. `unlisted` are names it did not yield. -/
def listGenerations (files : Directory) (unlisted : List Text) : List (Nat × Text) :=
  let found := (files.keys.filter (· ∉ unlisted)).filterMap fun name =>
    (parseGenerationName name).map fun n => (n, name)
  found.insertionSort fun a b => a.1 ≤ b.1

/-! ## Digests -/

section Digest

variable (sha256 : List UInt8 → Vector UInt8 32)

def digestValue (bs : List UInt8) : Text := hexBytes (sha256 bs).toList

def digestStart : Text := ['s', 'h', 'a', '2', '5', '6', ':']

/-- `sha256:` plus the lowercase hex digest. -/
def digestKey (bs : List UInt8) : Text := digestStart ++ digestValue sha256 bs

end Digest

/-! ## Reading -/

def recordMatches (record : AuthorizationRecord) (key : SplitPairKey) : Bool :=
  let side (f : SideFields) (k : SplitUnitKey) : Bool :=
    f.identity = k.identity && f.controller = k.controller && f.domain = k.domain && f.ports = k.ports
  side record.rgb key.rgb && side record.ir key.ir

section Read

variable (sha256 : List UInt8 → Vector UInt8 32)

def readGeneration (generation : Nat) (digest : Text) (pair : Option Text)
    (read : Nat → Except IoError (List UInt8)) : Except Nat SplitReadState :=
  match read generation with
  | .error e => if e.kind = .notFound then .error generation else .ok .unreadable
  | .ok bs =>
    if afterStart digest digestStart ≠ some (digestValue sha256 bs) then
      .ok (.digestMismatch generation)
    else
      match (ofBytes bs).map parseGeneration with
      | none => .ok (.malformedGeneration generation)
      | some (.malformed _) => .ok (.malformedGeneration generation)
      | some (.valid records) =>
        match pair with
        | none => .ok (.valid generation records none)
        | some text =>
          match SplitPairKey.parseCanonical text with
          | .ok key =>
            if records.any (recordMatches · key) then .ok (.valid generation records (some key))
            else .ok (.unresolvedSelection generation records.length)
          | .error _ => .ok (.unresolvedSelection generation records.length)

def isUnreadable : CameraSelectionObservation → Bool
  | .unreadable _ => true
  | _ => false

def isMalformedSelection (obs : CameraConfObservation) : Bool :=
  match obs.split with
  | .malformedSelection _ _ => true
  | _ => false

/-- A malformed pair keeps its reference for diagnostics; any other malformed selection is not
repaired by a valid generation. -/
def readObservation (obs : CameraConfObservation) (read : Nat → Except IoError (List UInt8)) :
    Except Nat SplitReadState :=
  if isUnreadable obs.selection then .ok .unreadable
  else if obs.selection.isMalformed && !isMalformedSelection obs then
    .ok .malformed
  else
    match obs.split with
    | .none => .ok .absent
    | .malformed => .ok .malformed
    | .malformedSelection generation digest =>
      match readGeneration sha256 generation digest none read with
      | .ok (.valid _ records _) => .ok (.unresolvedSelection generation records.length)
      | .ok other => .ok other
      | .error generation => .ok (.malformedGeneration generation)
    | .reference generation digest pair => readGeneration sha256 generation digest pair read

def generationReference (obs : CameraConfObservation) : Option (Nat × Text) :=
  match obs.split with
  | .reference generation digest _ => some (generation, digest)
  | .malformedSelection generation digest => some (generation, digest)
  | .none => none
  | .malformed => none

/-- `first` and `read₁` are what the first observation and read give, `second` and `read₂` what the
second ones give, which come only after a missing generation. -/
def readCameraSelectionWith (first second : CameraConfObservation)
    (read₁ read₂ : Nat → Except IoError (List UInt8)) : CameraSelectionSnapshot :=
  match readObservation sha256 first read₁ with
  | .ok split => { observation := first, split }
  | .error generation =>
    { observation := second
      split :=
        if generationReference first = generationReference second then
          if second.selection.isMalformed && !isMalformedSelection second then
            .malformed
          else .malformedGeneration generation
        else
          match readObservation sha256 second read₂ with
          | .ok split => split
          | .error generation => .malformedGeneration generation }

end Read

/-! ## Publishing -/

def splitKeysIn (obs : CameraConfObservation) : Option (Nat × Text × Option Text) :=
  match obs.split with
  | .reference generation digest pair => some (generation, digest, pair)
  | _ => none

/-- A publication that passed its checks. The predecessor is what `cameras.conf` referenced. -/
structure Publication where
  call : Call
  predecessor : Option Nat

def beginPublication (obs : CameraConfObservation) (call : Call) : Except PublishError Publication :=
  if isUnreadable obs.selection then .error .unreadable
  else if obs.selection.isMalformed || obs.split = .malformed then .error .malformedConfig
  else if call.selected.any fun key => !call.records.any (recordMatches · key) then
    .error (.schema .invalidField)
  else .ok { call, predecessor := (splitKeysIn obs).map Prod.fst }

def highest (listed : List (Nat × Text)) (predecessor : Option Nat) : Nat :=
  (listed.map Prod.fst ++ predecessor.toList).foldl max 0

/-- One more, as long as that is a `u64`. -/
def nextGeneration (listed : List (Nat × Text)) (predecessor : Option Nat) : Option Nat :=
  if highest listed predecessor + 1 < 2 ^ 64 then some (highest listed predecessor + 1) else none

def newGeneration (p : Publication) (listed : List (Nat × Text)) : Except PublishError (Nat × Text) := do
  let n ← okOr (nextGeneration listed p.predecessor) .generationExhausted
  let text ← (serializeGeneration p.call.records).mapError .schema
  return (n, text)

def pairText (selected : Option SplitPairKey) : Except PublishError (Option Text) :=
  match selected with
  | none => .ok none
  | some key =>
    match key.formatCanonical with
    | .ok text => .ok (some text)
    | .error _ => .error (.schema .invalidField)

def confPath : Text := "/etc/irlume/cameras.conf"

def referenceSet (n : Nat) (digest : Text) (pair : Option Text) : List (Text × Text) :=
  (SelectionKey.splitGeneration.name, decimal n) :: (SelectionKey.splitDigest.name, digest) ::
    (pair.map fun text => (SelectionKey.splitPair.name, text)).toList

def referenceRemove (pair : Option Text) : List Text :=
  if pair = none then [SelectionKey.splitPair.name] else []

/-- The `cameras.conf` that names a generation. -/
def confWithReference (sha256 : List UInt8 → Vector UInt8 32) (read : Except IoError Text)
    (nameExists : Bool) (p : Publication) (n : Nat) (text : Text) : Except PublishError Text := do
  let pair ← pairText p.call.selected
  (publishKvChanges confPath read nameExists (referenceSet n (digestKey sha256 (bytes text)) pair)
    (referenceRemove pair)).mapError .io

/-- The `cameras.conf` without a generation, after the last record went. -/
def confWithoutReference (read : Except IoError Text) (nameExists : Bool) : Except PublishError Text :=
  (publishKvChanges confPath read nameExists [] (splitKeys.map SelectionKey.name)).mapError .io

def retentionTargets (files : Directory) (unlisted : List Text) (keep : List Nat) : List Text :=
  ((listGenerations files unlisted).filter fun e => e.1 ∉ keep).map Prod.snd

def sweepTargets (files : Directory) (unlisted : List Text) (referenced : Option Nat) : List Text :=
  (files.keys.filter (· ∉ unlisted)).filter fun name =>
    isWriterTemp name || (parseGenerationName name).any fun n => referenced.any fun r => r < n

def sweepTemps (files : Directory) (left : List Text) : Directory :=
  (files.keys.filter fun name => isWriterTemp name && name ∉ left).foldl (fun d name => d.erase name) files

/-! ## The machine -/

/-- Where the holder of the writer lock is. -/
inductive Stage where
  | idle
  | checked (p : Publication)
  /-- Its generation file is on disk. -/
  | written (p : Publication) (n : Nat) (text : Text)
  /-- `cameras.conf` is committed; retention reads the directory next. -/
  | committed (keep : List Nat)
  | retaining (todo : List Text)
  | sweeping (todo : List Text)

structure Host where
  conf : Option (List UInt8)
  files : Directory
  stage : Stage

inductive Event where
  | publish (call : Call) (left : List Text)
  | write (unlisted : List Text)
  | commit
  | list (unlisted : List Text)
  | remove (removed : Bool)
  | sweep (unlisted : List Text)
  | sweepRemove (removed : Bool)
  /-- The holder of the lock returns or dies. -/
  | stop
  deriving DecidableEq

/-- `read_regular_file` of `cameras.conf`. -/
def Host.readConf (s : Host) : Except IoError Text :=
  match s.conf with
  | none => .error ⟨.notFound, "No such file or directory (os error 2)"⟩
  | some bs =>
    match ofBytes bs with
    | some text => .ok text
    | none => .error ⟨.invalidData, "stream did not contain valid UTF-8"⟩

def Host.observe (s : Host) : CameraConfObservation := observeCameraConf s.readConf s.conf.isSome

def Host.readFile (s : Host) (n : Nat) : Except IoError (List UInt8) :=
  match s.files.lookup (generationName n) with
  | some bs => .ok bs
  | none => .error ⟨.notFound, "No such file or directory (os error 2)"⟩

def kept (n : Nat) (predecessor : Option Nat) : List Nat :=
  n :: (predecessor.filter (· ≠ n)).toList

def commitStep (sha256 : List UInt8 → Vector UInt8 32) (s : Host) : Option Host :=
  match s.stage with
  | .checked p =>
    if p.call.records = [] then
      match confWithoutReference s.readConf s.conf.isSome with
      | .ok out =>
        some { s with conf := some (bytes out), stage := .committed p.predecessor.toList }
      | .error _ => none
    else none
  | .written p n text =>
    match confWithReference sha256 s.readConf s.conf.isSome p n text with
    | .ok out => some { s with conf := some (bytes out), stage := .committed (kept n p.predecessor) }
    | .error _ => none
  | _ => none

def writeStep (s : Host) (unlisted : List Text) : Option Host :=
  match s.stage with
  | .checked p =>
    if p.call.records = [] then none
    else
      match newGeneration p (listGenerations s.files unlisted) with
      | .ok (n, text) =>
        some { s with files := s.files.insert (generationName n) (bytes text)
                      stage := .written p n text }
      | .error _ => none
  | _ => none

def removeFile (s : Host) (removed : Bool) (name : Text) : Directory :=
  if removed then s.files.erase name else s.files

def step (sha256 : List UInt8 → Vector UInt8 32) (s : Host) : Event → Option Host
  | .publish call left =>
    match s.stage, beginPublication s.observe call with
    | .idle, .ok p => some { s with files := sweepTemps s.files left, stage := .checked p }
    | _, _ => none
  | .write unlisted => writeStep s unlisted
  | .commit => commitStep sha256 s
  | .list unlisted =>
    match s.stage with
    | .committed keep => some { s with stage := .retaining (retentionTargets s.files unlisted keep) }
    | _ => none
  | .remove removed =>
    match s.stage with
    | .retaining (name :: todo) =>
      some { s with files := removeFile s removed name, stage := .retaining todo }
    | _ => none
  | .sweep unlisted =>
    match s.stage with
    | .idle =>
      some { s with stage := .sweeping
                      (sweepTargets s.files unlisted ((splitKeysIn s.observe).map Prod.fst)) }
    | _ => none
  | .sweepRemove removed =>
    match s.stage with
    | .sweeping (name :: todo) =>
      some { s with files := removeFile s removed name, stage := .sweeping todo }
    | _ => none
  | .stop => some { s with stage := .idle }

structure ReadFaults where
  conf₁ : Option IoError := none
  file₁ : Option IoError := none
  conf₂ : Option IoError := none
  file₂ : Option IoError := none

def Host.observeWith (s : Host) (fault : Option IoError) : CameraConfObservation :=
  match fault with
  | some e => observeCameraConf (.error e) true
  | none => s.observe

def Host.readFileWith (s : Host) (fault : Option IoError) (n : Nat) : Except IoError (List UInt8) :=
  match fault with
  | some e => .error e
  | none => s.readFile n

/-- A read without the lock, its four accesses in the states `s₁` to `s₄`. -/
def readCameraSelection (sha256 : List UInt8 → Vector UInt8 32) (s₁ s₂ s₃ s₄ : Host)
    (faults : ReadFaults) : CameraSelectionSnapshot :=
  readCameraSelectionWith sha256 (s₁.observeWith faults.conf₁) (s₃.observeWith faults.conf₂)
    (s₂.readFileWith faults.file₁) (s₄.readFileWith faults.file₂)

end Irlume.Split

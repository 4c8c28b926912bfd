import Irlume.Pam.Splice
import Mathlib.Data.Char
import Mathlib.Data.List.Lex

/-!
# The private PAM view for LightDM

`lightdm_view.rs` from the policy on: the stacks the protected services include are read (`load`), each is
copied with its targets renamed and its biometric rules replaced by inactive ones (`render`), and the copies,
links to the host's other services and the services themselves are put into the view (`publish`).

`encode` and `sha256` make the name of a generation.
-/

namespace Irlume.Pam.Lightdm

open Irlume.Lib

def viewPrefix : Text := "irlume-lightdm-copy-"

def maxFile : Nat := 64 * 1024

def maxFiles : Nat := 128

def maxView : Nat := 32 * 1024 * 1024

structure Policy where
  version : Nat
  blocked : Bool
  services : List Text
  permit : Text
  unit : Text
  sessionModule : Text

def serviceName (name : Text) : Bool :=
  name ≠ [] && name.length ≤ 128 && name ≠ "." && name ≠ ".." && !startsWith name viewPrefix &&
    name.all isNameChar

/-! ## The host's stacks -/

/-- A file of `/etc/pam.d` or of `/usr/lib/pam.d`. -/
inductive Source where
  | etc (name : Text)
  | vendor (name : Text)

/-- The host's files as they are read, with the error where one is not. -/
structure Host where
  /-- `read_regular` of a file of `/etc/pam.d`; `none` where there is none. -/
  etc : Text → Except Text (Option Text)
  vendor : Text → Except Text (Option Text)
  /-- `/etc/pam.d` has an entry of the name, a dangling link included. -/
  etcPresent : Text → Bool
  /-- The names of `/etc/pam.d` as they are listed; `none` for one that is no UTF-8. -/
  entries : Except Text (List (Except Text (Option Text)))
  label : Source → Except Text (Option (List UInt8))
  /-- `/sys/fs/selinux/enforce` exists. -/
  enforces : Bool

def Host.read (host : Host) : Source → Except Text (Option Text)
  | .etc name => host.etc name
  | .vendor name => host.vendor name

def Host.find (host : Host) (name : Text) : Except Text (Source × Text) :=
  match host.etc name with
  | .error e => .error e
  | .ok (some text) => .ok (.etc name, text)
  | .ok none =>
    match host.vendor name with
    | .error e => .error e
    | .ok (some text) => .ok (.vendor name, text)
    | .ok none => .error ("missing PAM service ".toList ++ name)

def Host.text (host : Host) (name : Text) : Option Text :=
  match host.find name with
  | .ok (_, text) => some text
  | .error _ => none

/-! ## Loading -/

structure Loaded where
  name : Text
  path : Source
  text : Text

/-- The stacks that were read, each after those it includes. -/
abbrev Graph := List Loaded

def Graph.has (graph : Graph) (name : Text) : Bool := graph.any fun l => l.name = name

/-- `Graph::load`: `depth` is how many more stacks may be active, and `active` those that are. -/
def load (host : Host) : Nat → List Text → Graph → Text → Except Text Graph
  | depth, active, graph, name =>
    if !serviceName name then .error "unsupported PAM include target".toList
    else if name ∈ active then .error "cyclic PAM include graph".toList
    else if graph.has name then .ok graph
    else if maxFiles ≤ graph.length + active.length then .error "PAM include graph exceeds limit".toList
    else
      match depth with
      | 0 => .error "PAM include graph exceeds limit".toList
      | depth + 1 => do
        let (path, text) ← host.find name
        if hasLineContinuation text || (unreadableLine text).isSome then
          .error ("unsupported PAM grammar in ".toList ++ name)
        else
          let graph ← (lines text).foldlM (fun graph line =>
            match includeTarget line with
            | some target => load host depth (name :: active) graph target
            | none => .ok graph) graph
          .ok (graph ++ [{ name, path, text }])

def maxActive : Nat := 32

/-- `Graph::verify`. -/
def verify (host : Host) (graph : Graph) : Except Text Unit :=
  graph.foldlM (fun _ loaded => do
    if (← host.read loaded.path) ≠ some loaded.text then
      .error "PAM source changed during preparation".toList
    else
      match loaded.path with
      | .etc _ => .ok ()
      | .vendor name =>
        if host.etcPresent name then .error "PAM precedence changed during preparation".toList else .ok ())
    ()

/-! ## Rendering -/

/-- A rule of pam_fprintd.so, or one of pam_irlume.so beyond a reseal. -/
def isBiometric (line : Text) : Bool :=
  ((rule line).any fun r => decide (r.phase = .auth) && decide (moduleFileName r.modulePath = "pam_fprintd.so")) ||
    (irlumeRule line).any fun r =>
      decide (r.phase = .auth) &&
        (r.args.any (fun arg => arg = "unseal" || arg = "keyring" || arg = "wait") ||
          !decide (("reseal" : Text) ∈ r.args))

def inactiveSlot (permit : Text) : Text :=
  "auth [default=ignore] ".toList ++ permit ++ " # irlume remote-seat inactive slot".toList

def renderLine (names : Text → Option Text) (permit line : Text) : Except Text Text :=
  match includeTarget line with
  | some target =>
    match names target with
    | none => .error "unresolved PAM include".toList
    | some replacement => .ok (spliceTarget line target replacement)
  | none =>
    if isBiometric line then
      match rule line with
      | none => .error "unreadable biometric PAM rule".toList
      | some r =>
        if !controlIgnoresModuleIgnore r.control then
          .error "biometric rule has a non-inert PAM_IGNORE action".toList
        else .ok (inactiveSlot permit ++ if line.getLast? = some '\n' then ['\n'] else [])
    else .ok line

def renderView (text : Text) (names : Text → Option Text) (permit : Text) : Except Text Text :=
  ((splitInclusive text).mapM (renderLine names permit)).map List.flatten

/-! ## The view -/

inductive Entry where
  | file (text : Text)
  /-- To the file of the name in the host's `/etc/pam.d`. -/
  | link (name : Text)

abbrev View := Text → Option Entry

/-- The view, and which of the writes to it fail. -/
structure ViewDir where
  directory : Except Text Unit
  /-- How many entries it has and how large they are. -/
  used : Except Text (Nat × Nat)
  writes : Text → Except Text Unit
  links : Text → Except Text Unit

/-- `read_regular` of an entry. -/
def View.read (host : Host) (view : View) (name : Text) : Except Text (Option Text) :=
  match view name with
  | none => .ok none
  | some (.file text) =>
    if maxFile < byteLength text then .error "PAM source exceeds size limit".toList else .ok (some text)
  | some (.link target) => host.etc target

/-- What libpam reads for a name where the view is in the place of `/etc/pam.d`. -/
def View.text (host : Host) (view : View) (name : Text) : Option Text :=
  match view name with
  | some (.file text) => some text
  | some (.link target) => (host.etc target).toOption.join
  | none => (host.vendor name).toOption.join

def write (host : Host) (dir : ViewDir) (view : View) (name text : Text) : Except Text View := do
  if (← view.read host name) = some text then .ok view
  else
    match view name with
    | some (.link _) => .error "is a symlink; irlume will not replace it with a regular file".toList
    | _ =>
      dir.writes name
      .ok (Function.update view name (some (.file text)))

def mirror (dir : ViewDir) (services : List Text) (view : View)
    (entry : Except Text (Option Text) × Nat) : Except Text View :=
  if 1024 ≤ entry.2 then .error "too many PAM service entries".toList
  else
    match entry.1 with
    | .error e => .error e
    | .ok none => .error "non-UTF8 PAM service name".toList
    | .ok (some name) =>
      if !serviceName name || name ∈ services then .ok view
      else
        match view name with
        | some (.link target) =>
          if target = name then .ok view else .error "unexpected entry in LightDM PAM view".toList
        | some (.file _) => .error "unexpected entry in LightDM PAM view".toList
        | none => do
          dir.links name
          .ok (Function.update view name (some (.link name)))

def copyNames (generation : Text) (graph : Graph) : List (Text × Text) :=
  ((graph.map (·.name)).insertionSort (· ≤ ·)).zipIdx.map fun (name, i) =>
    (name, viewPrefix ++ generation ++ '-' :: decimal i)

def rootText (policy : Policy) (text : Text) : Text :=
  "session [success=ignore default=die] ".toList ++ policy.sessionModule ++ '\n' :: text

section Publish

variable (encode : Policy → Graph → Option (List UInt8) → Except Text (List UInt8))
  (sha256 : List UInt8 → Text)

/-- `publish`: the view once everything is in it. -/
def publish (host : Host) (dir : ViewDir) (policy : Policy) (view : View) : Except Text View := do
  dir.directory
  let graph ← policy.services.foldlM (load host maxActive []) []
  match policy.services.head? with
  | none => .error "no LightDM PAM service".toList
  | some first =>
    let label ← (graph.find? fun l => l.name = first).elim (.ok none) fun l => host.label l.path
    if label.isNone && host.enforces then .error "cannot preserve PAM SELinux labeling".toList
    else
      let encoded ← encode policy graph label
      let names := copyNames (sha256 encoded) graph
      let sorted := graph.insertionSort fun a b => a.name ≤ b.name
      let prepared ← sorted.mapM fun l =>
        if policy.blocked then (renderView l.text (fun name => List.lookup name names) policy.permit).map (l.name, ·)
        else .ok (l.name, l.text)
      let used ← dir.used
      if 8192 < used.1 || maxView < used.2 + encoded.length then
        .error "LightDM PAM view cache is full; reboot required".toList
      else
        verify host graph
        let view ← if policy.blocked then
            prepared.foldlM (fun view copy => write host dir view ((List.lookup copy.1 names).getD []) copy.2) view
          else .ok view
        let entries ← host.entries
        let view ← entries.zipIdx.foldlM (mirror dir policy.services) view
        verify host graph
        policy.services.foldlM (fun view name =>
          write host dir view name (rootText policy ((List.lookup name prepared).getD []))) view

end Publish

end Irlume.Pam.Lightdm

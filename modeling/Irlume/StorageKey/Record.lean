import Irlume.Lib.Text
import Mathlib.Data.List.Nodup

/-!
# The record of the storage keys

`irlume-core/src/storage_key.rs`: irlumed's record of the DA-exempt key and the keys it superseded, and what is
decided from the record alone. A boot is a number, as far as the boot ID can be read.
-/

namespace Irlume.StorageKey

open Irlume.Lib

abbrev Bytes := List UInt8

abbrev Handle := Nat

abbrev Boot := Nat

/-! ## Names -/

/-- `bytes` in lowercase hex. -/
def hex (bytes : Bytes) : Text := hexBytes bytes

def digitValue (c : Char) : Option Nat :=
  if '0' ≤ c ∧ c ≤ '9' then some (c.toNat - 48)
  else if 'a' ≤ c ∧ c ≤ 'f' then some (c.toNat - 87)
  else if 'A' ≤ c ∧ c ≤ 'F' then some (c.toNat - 55)
  else none

/-- `u8::from_str_radix` of two characters, which takes a plus sign. -/
def radixByte (hi lo : Char) : Option UInt8 :=
  if hi = '+' then (digitValue lo).map UInt8.ofNat
  else do
    let h ← digitValue hi
    let l ← digitValue lo
    return UInt8.ofNat (h * 16 + l)

/-- A text read as hex, or `none` when it is not. -/
def unhex : Text → Option Bytes
  | [] => some []
  | [_] => none
  | hi :: lo :: rest => do
    let b ← radixByte hi lo
    return b :: (← unhex rest)

theorem radixByte_digitChar {hi lo : Nat} (hhi : hi < 16) (hlo : lo < 16) :
    radixByte hi.digitChar lo.digitChar = some (UInt8.ofNat (hi * 16 + lo)) := by
  have hdigit : ∀ n : Fin 16, digitValue n.val.digitChar = some n.val := by decide
  have hplus : ∀ n : Fin 16, n.val.digitChar ≠ '+' := by decide
  rw [radixByte, if_neg (hplus ⟨hi, hhi⟩), hdigit ⟨hi, hhi⟩, hdigit ⟨lo, hlo⟩]
  rfl

theorem unhex_hex (bytes : Bytes) : unhex (hex bytes) = some bytes := by
  induction bytes with
  | nil => rfl
  | cons b bytes ih =>
    have hb : b.toNat < 256 := b.toNat_lt
    have hbyte : radixByte (b.toNat / 16).digitChar (b.toNat % 16).digitChar = _ :=
      radixByte_digitChar (by omega) (by omega)
    rw [Nat.div_add_mod', UInt8.ofNat_toNat] at hbyte
    have hcons : hex (b :: bytes) = (b.toNat / 16).digitChar :: (b.toNat % 16).digitChar :: hex bytes := rfl
    rw [hcons, unhex, hbyte, ih]
    rfl

/-! ## The record -/

inductive RefusalReason where
  | noSpace
  | noFreeHandle
  | ownerAuthorization
  | handleOverride
  | other
  | unknown
  deriving DecidableEq

def RefusalReason.isCapacity : RefusalReason → Bool
  | .noSpace | .noFreeHandle => true
  | _ => false

inductive EnvelopeKind where
  | templateKey
  | keyringSecret
  deriving DecidableEq

/-- An envelope file: the account's, of a kind. -/
structure EnvelopeId where
  kind : EnvelopeKind
  user : Text
  deriving DecidableEq

/-- A key at a handle, by its TPM name in hex. -/
structure Persisted where
  handle : Handle
  name : Text
  deriving DecidableEq

structure Refused where
  reason : RefusalReason
  detail : Text
  bootId : Option Boot
  deriving DecidableEq

/-- The key at the original key's handle, and whether a derivation gave the same key. -/
structure Original where
  handle : Handle
  name : Text
  matched : Bool
  deriving DecidableEq

/-- An envelope whose move off the original key was not yet shown durable, and the boot of the move. -/
structure UnsettledMove where
  envelope : EnvelopeId
  bootId : Option Boot
  deriving DecidableEq

structure RetirementAttempt where
  bootId : Option Boot
  failure : Option Text
  deriving DecidableEq

structure WeakDerivation where
  firmware : Nat × Nat
  deriving DecidableEq

structure Record where
  version : Nat
  persisted : Option Persisted
  refused : Option Refused
  original : Option Original
  /-- The boot of the start whose census last found no envelope under the original key. -/
  unusedSince : Option Boot
  moves : List UnsettledMove
  retirementAttempt : Option RetirementAttempt
  /-- The DA-exempt keys the recorded one superseded. -/
  superseded : List Persisted
  /-- For each superseded key, the boot of the start whose census first found no envelope naming it. -/
  supersededUnused : List (Text × Boot)
  weakDerivation : Option WeakDerivation
  replacementRefused : Option Refused
  deriving DecidableEq

instance : Inhabited Record := ⟨⟨0, none, none, none, none, [], none, [], [], none, none⟩⟩

def recordVersion : Nat := 1

def maxDetailChars : Nat := 300

def maxSuperseded : Nat := 4

def persistedRecord (handle : Handle) (name : Bytes) : Record :=
  { (default : Record) with version := recordVersion, persisted := some ⟨handle, hex name⟩ }

def singleLine (text : Text) (maxChars : Nat) : Text :=
  let cleaned := text.map fun c => if isControl c || c.toNat = 0x2028 || c.toNat = 0x2029 then ' ' else c
  let line := [' '].intercalate ((cleaned.splitOnP isWhitespace).filter (· ≠ []))
  if line.length > maxChars then line.take maxChars ++ "...".toList else line

/-! ## Superseded keys -/

def dedupNames : List Text → List Persisted → List Persisted
  | _, [] => []
  | seen, kept :: rest =>
    if kept.name ∈ seen then dedupNames seen rest else kept :: dedupNames (kept.name :: seen) rest

/-- Each name once, at most `maxSuperseded` of them, the latest kept. -/
def boundSuperseded (superseded : List Persisted) : List Persisted :=
  let once := dedupNames [] superseded
  once.drop (once.length - maxSuperseded)

/-- Keep `old` as a superseded key, once, unless it is the key the record names. -/
def supersede (next : Record) (old : Persisted) : Record :=
  if next.persisted.map (·.name) ≠ some old.name ∧ ∀ kept ∈ next.superseded, kept.name ≠ old.name then
    { next with superseded := boundSuperseded (next.superseded ++ [old]) }
  else next

/-! ## Outcomes -/

structure KeyRefusal where
  reason : RefusalReason
  detail : Text

/-- What the start-up step did. -/
inductive Outcome where
  | present (handle : Handle)
  | adopted (handle : Handle)
  | persisted (handle : Handle)
  | found (handle : Handle)
  | refused (refusal : KeyRefusal)
  | deferred (refusal : KeyRefusal)
  | replaced (handle «from» : Handle)
  | derivationWeak (handle : Handle)
  | weakKept (handle : Handle)
  | replacementRefused («from» : Handle) (refusal : KeyRefusal)
  | replacementDeferred («from» : Handle) (refusal : KeyRefusal)

def derivedNow : Outcome → Bool
  | .present _ | .found _ | .deferred _ | .weakKept _ | .replacementDeferred _ _ => false
  | _ => true

/-! ## The census -/

/-- What irlumed's start found about the original key's use. -/
inductive Census where
  | inUse
  | unused (since : Boot)
  | unsettled

/-- The record after a census that found an envelope under the original key or none. -/
def markWith (record : Record) (inUse : Bool) (boot : Option Boot) : Record × Census :=
  if inUse then ({ record with unusedSince := none }, .inUse)
  else
    let moves :=
      match boot with
      | some now => record.moves.filter fun move => move.bootId.all (· = now)
      | none => record.moves
    let next := { record with moves }
    match record.unusedSince with
    | some since => (next, .unused since)
    | none =>
      match boot with
      | some now => if moves.isEmpty then ({ next with unusedSince := some now }, .unused now) else (next, .unsettled)
      | none => (next, .unsettled)

end Irlume.StorageKey

/-!
## The names of the superseded keys

The record tells superseded keys apart by their names, and what a start does to them is one of three things:
nothing, the bound, or the bound and one key more.
-/

namespace Irlume.StorageKey

open Irlume.Lib

def Record.recorded (record : Record) : Option Text := record.persisted.map (·.name)

def Record.names (record : Record) : List Text := record.superseded.map (·.name)

/-! ## The bound -/

def onceNames : List Text → List Text → List Text
  | _, [] => []
  | seen, name :: rest =>
    if name ∈ seen then onceNames seen rest else name :: onceNames (name :: seen) rest

/-- Each name once, at most `maxSuperseded` of them, the latest kept. -/
def boundNames (names : List Text) : List Text :=
  (onceNames [] names).drop ((onceNames [] names).length - maxSuperseded)

theorem map_dedupNames (seen : List Text) (l : List Persisted) :
    (dedupNames seen l).map (·.name) = onceNames seen (l.map (·.name)) := by
  induction l generalizing seen with
  | nil => rfl
  | cons kept rest ih =>
    rw [dedupNames, List.map_cons, onceNames]
    split
    · exact ih seen
    · rw [List.map_cons, ih]

theorem names_boundSuperseded (l : List Persisted) :
    (boundSuperseded l).map (·.name) = boundNames (l.map (·.name)) := by
  have hlength := congrArg List.length (map_dedupNames [] l)
  rw [List.length_map] at hlength
  rw [boundSuperseded, boundNames, List.map_drop, map_dedupNames, hlength]

theorem mem_of_mem_dedupNames {seen : List Text} {l : List Persisted} {kept : Persisted}
    (h : kept ∈ dedupNames seen l) : kept ∈ l := by
  induction l generalizing seen with
  | nil => cases h
  | cons first rest ih =>
    rw [dedupNames] at h
    split at h
    · exact List.mem_cons_of_mem _ (ih h)
    · rcases List.mem_cons.1 h with rfl | h
      · exact List.mem_cons_self
      · exact List.mem_cons_of_mem _ (ih h)

theorem mem_of_mem_boundSuperseded {l : List Persisted} {kept : Persisted} (h : kept ∈ boundSuperseded l) :
    kept ∈ l :=
  mem_of_mem_dedupNames (List.mem_of_mem_drop h)

variable {name : Text}

theorem mem_onceNames {seen l : List Text} (h : name ∈ onceNames seen l) :
    name ∈ l ∧ name ∉ seen := by
  induction l generalizing seen with
  | nil => cases h
  | cons first rest ih =>
    rw [onceNames] at h
    split at h
    · exact ⟨List.mem_cons_of_mem _ (ih h).1, (ih h).2⟩
    · next hfirst =>
      rcases List.mem_cons.1 h with rfl | h
      · exact ⟨List.mem_cons_self, hfirst⟩
      · obtain ⟨hrest, hseen⟩ := ih h
        exact ⟨List.mem_cons_of_mem _ hrest, fun hname => hseen (List.mem_cons_of_mem _ hname)⟩

theorem nodup_onceNames (seen l : List Text) : (onceNames seen l).Nodup := by
  induction l generalizing seen with
  | nil => exact List.nodup_nil
  | cons first rest ih =>
    rw [onceNames]
    split
    · exact ih seen
    · exact List.nodup_cons.2 ⟨fun h => (mem_onceNames h).2 List.mem_cons_self, ih _⟩

theorem onceNames_of_nodup {seen l : List Text} (h : l.Nodup) (hseen : ∀ name ∈ l, name ∉ seen) :
    onceNames seen l = l := by
  induction l generalizing seen with
  | nil => rfl
  | cons first rest ih =>
    obtain ⟨hfirst, hrest⟩ := List.nodup_cons.1 h
    rw [onceNames, if_neg (hseen first List.mem_cons_self), ih hrest]
    intro name hname
    rw [List.mem_cons, not_or]
    exact ⟨fun heq => hfirst (heq ▸ hname), hseen name (List.mem_cons_of_mem _ hname)⟩

theorem nodup_boundNames (l : List Text) : (boundNames l).Nodup :=
  (nodup_onceNames [] l).sublist (List.drop_sublist ..)

theorem length_boundNames (l : List Text) : (boundNames l).length ≤ maxSuperseded := by
  rw [boundNames, List.length_drop]
  omega

variable {l : List Text}

theorem mem_of_mem_boundNames (h : name ∈ boundNames l) : name ∈ l :=
  (mem_onceNames (List.mem_of_mem_drop h)).1

theorem boundNames_of_nodup (h : l.Nodup) : boundNames l = l.drop (l.length - maxSuperseded) := by
  rw [boundNames, onceNames_of_nodup h fun _ _ => List.not_mem_nil]

theorem boundNames_of_short (h : l.Nodup) (hlength : l.length ≤ maxSuperseded) :
    boundNames l = l := by
  rw [boundNames_of_nodup h, Nat.sub_eq_zero_of_le hlength, List.drop_zero]

theorem boundNames_append (h : (l ++ [name]).Nodup) :
    boundNames (l ++ [name]) = l.drop (l.length + 1 - maxSuperseded) ++ [name] := by
  rw [boundNames_of_nodup h, List.length_append, List.length_singleton, List.drop_append_of_le_length]
  have : 1 ≤ maxSuperseded := by decide
  omega

/-! ## Superseding -/

@[simp] theorem persisted_supersede (next : Record) (old : Persisted) :
    (supersede next old).persisted = next.persisted := by
  rw [supersede]
  split <;> rfl

@[simp] theorem unusedSince_supersede (next : Record) (old : Persisted) :
    (supersede next old).unusedSince = next.unusedSince := by
  rw [supersede]
  split <;> rfl

@[simp] theorem supersededUnused_supersede (next : Record) (old : Persisted) :
    (supersede next old).supersededUnused = next.supersededUnused := by
  rw [supersede]
  split <;> rfl

theorem names_supersede (next : Record) (old : Persisted) :
    (supersede next old).names =
      if next.recorded ≠ some old.name ∧ old.name ∉ next.names then boundNames (next.names ++ [old.name])
      else next.names := by
  have hnames : (∀ kept ∈ next.superseded, kept.name ≠ old.name) ↔ old.name ∉ next.names := by
    simp only [Record.names, List.mem_map, not_exists, not_and, ne_eq]
  by_cases h : next.recorded ≠ some old.name ∧ old.name ∉ next.names
  · rw [supersede, if_pos ⟨h.1, hnames.2 h.2⟩, if_pos h]
    simp only [Record.names, names_boundSuperseded, List.map_append, List.map_cons, List.map_nil]
  · rw [supersede, if_neg fun hnew => h ⟨hnew.1, hnames.1 hnew.2⟩, if_neg h]

/-- What a start does to the names. -/
inductive Grows : List Text → List Text → Prop
  | same (l : List Text) : Grows l l
  | bounded (l : List Text) : Grows l (boundNames l)
  | superseded {l : List Text} {name : Text} (h : name ∉ boundNames l) :
    Grows l (boundNames (boundNames l ++ [name]))

theorem grows_supersede {next : Record} (h : next.names = boundNames l) (old : Persisted) :
    Grows l (supersede next old).names := by
  rw [names_supersede]
  split
  · next hnew =>
    rw [h] at hnew ⊢
    exact .superseded hnew.2
  · rw [h]
    exact .bounded l

end Irlume.StorageKey

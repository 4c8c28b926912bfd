import Irlume.Split.Key

/-!
# The split-authorization generation file

A generation is lines of `key=value`: `version=1`, and for each record the five fields of its RGB side and of
its IR side under `pair.<i>.`. The writer refuses what it could not read back and the reader reports every
problem of a file. The lines of a whole generation fill exactly its records, which is what the round trip at the
end rests on.
-/

namespace Irlume.Split

open Irlume.Lib

def maxRecords : Nat := 16
def maxLineBytes : Nat := 1024
def maxFileBytes : Nat := 65536
def maxPortElements : Nat := 6

structure SideFields where
  identity : Text
  path : Text
  controller : Text
  domain : SplitDomain
  ports : List UInt8
  deriving DecidableEq

structure AuthorizationRecord where
  rgb : SideFields
  ir : SideFields
  deriving DecidableEq

/-- Why a generation could not be written. -/
inductive SchemaError where
  | tooManyRecords
  | lineTooLong
  | fileTooLong
  | badPorts
  | invalidField

inductive GenerationObservation where
  | valid (records : List AuthorizationRecord)
  | malformed (problems : List Text)

inductive Side where
  | rgb
  | ir
  deriving DecidableEq

def Side.name : Side → Text
  | .rgb => "rgb"
  | .ir => "ir"

/-- The fields of a side, in the order they are written. -/
inductive SideKey where
  | identity
  | path
  | controller
  | domain
  | ports
  deriving DecidableEq

def SideKey.name : SideKey → Text
  | .identity => "identity"
  | .path => "path"
  | .controller => "controller"
  | .domain => "domain"
  | .ports => "ports"

def sides : List Side := [.rgb, .ir]

def sideKeys : List SideKey := [.identity, .path, .controller, .domain, .ports]

/-- `pair.` -/
def pairStart : Text := ['p', 'a', 'i', 'r', '.']

def recordKey (i : Nat) (side : Side) (field : SideKey) : Text :=
  pairStart ++ decimal i ++ '.' :: (side.name ++ '_' :: field.name)

/-! ## Writing -/

/-- A character after which a line-based reader could see a different line. -/
def breaksALine (c : Char) : Bool := isControl c || c = '\u2028' || c = '\u2029'

def valueReadsBackAsOneLine (value : Text) : Bool :=
  value ≠ [] && trim value = value && !value.any breaksALine

def AuthorizationRecord.side (r : AuthorizationRecord) : Side → SideFields
  | .rgb => r.rgb
  | .ir => r.ir

def SideFields.value (f : SideFields) : SideKey → Text
  | .identity => f.identity
  | .path => f.path
  | .controller => f.controller
  | .domain => f.domain.asStr
  | .ports => formatPortsText f.ports

def fieldLine (i : Nat) (side : Side) (field : SideKey) (value : Text) : Text :=
  recordKey i side field ++ '=' :: value

def checkedLine (line : Text) : Except SchemaError Text :=
  if maxLineBytes < byteLength line then .error .lineTooLong else .ok line

def sideLines (i : Nat) (side : Side) (f : SideFields) : Except SchemaError (List Text) :=
  if f.identity = [] ∨ f.path = [] ∨ f.controller = [] ∨
      [f.identity, f.path, f.controller].any (fun v => !valueReadsBackAsOneLine v) then
    .error .invalidField
  else if f.ports = [] ∨ maxPortElements < f.ports.length ∨ 0 ∈ f.ports then .error .badPorts
  else sideKeys.mapM fun field => checkedLine (fieldLine i side field (f.value field))

def recordLines (r : AuthorizationRecord) (i : Nat) : Except SchemaError (List Text) := do
  let rgb ← sideLines i .rgb r.rgb
  let ir ← sideLines i .ir r.ir
  return rgb ++ ir

def serializeGeneration (records : List AuthorizationRecord) : Except SchemaError Text :=
  if maxRecords < records.length then .error .tooManyRecords
  else do
    let written ← records.zipIdx.mapM fun (r, i) => recordLines r i
    let out := unlines ("version=1".toList :: written.flatten)
    if maxFileBytes < byteLength out then .error .fileTooLong else .ok out

/-! ## Reading -/

/-- The values seen of one record. -/
abbrev Slots := Side → SideKey → Option Text

def noSlots : Slots := fun _ _ => none

def Slots.set (slots : Slots) (side : Side) (field : SideKey) (value : Text) : Slots :=
  Function.update slots side (Function.update (slots side) field (some value))

structure Scan where
  seen : List Slots := []
  maxIndex : Option Nat := none
  versionLines : Nat := 0
  problems : List Text := []

def Scan.problem (s : Scan) (p : Text) : Scan := { s with problems := s.problems ++ [p] }

def lineText (lineNo : Nat) : Text := "line " ++ decimal lineNo

def unknownKey (key : Text) : Text := ": unknown key '" ++ key ++ ['\'']

def readKey (key : Text) : Except Text (Nat × Side × SideKey) :=
  match afterStart key pairStart with
  | none => .error (unknownKey key)
  | some rest =>
    match splitOnceAt '.' rest with
    | none => .error (unknownKey key)
    | some (indexText, tail) =>
      if !canonicalDecimal indexText then .error ": record index is not canonical".toList
      else if 2 ^ 64 ≤ decimalValue indexText then .error ": record index is out of range".toList
      else if maxRecords ≤ decimalValue indexText then
        .error (": record index is over " ++ decimal maxRecords)
      else
        match splitOnceAt '_' tail with
        | none => .error (unknownKey key)
        | some (sideText, fieldText) =>
          match sides.find? (fun s => s.name = sideText), sideKeys.find? (fun k => k.name = fieldText) with
          | some side, some field => .ok (decimalValue indexText, side, field)
          | _, _ => .error (unknownKey key)

/-- `Vec::resize` to hold `index`, with empty slots. -/
def resized (seen : List Slots) (index : Nat) : List Slots :=
  seen ++ List.replicate (index + 1 - seen.length) noSlots

def setSlot (seen : List Slots) (index : Nat) (side : Side) (field : SideKey) (value : Text) :
    List Slots :=
  (resized seen index).modify index fun slots => slots.set side field value

def Scan.record (s : Scan) (lineNo : Nat) (key : Text) (index : Nat) (side : Side) (field : SideKey)
    (value : Text) : Scan :=
  let seen := resized s.seen index
  if (seen[index]?.bind fun slots => slots side field).isSome then
    { s with seen }.problem (lineText lineNo ++ ": '" ++ key ++ "' is set more than once")
  else
    { s with
      seen := setSlot s.seen index side field value
      maxIndex := some ((s.maxIndex.map fun m => max m index).getD index) }

/-- The reader works line by line on the slots it fills. -/
def scanLine (s : Scan) (raw : Text) (lineNo : Nat) : Scan :=
  if trim raw = [] ∨ (trim raw).head? = some '#' then s
  else
    let s := if maxLineBytes < byteLength raw then
        s.problem (lineText lineNo ++ " is over " ++ decimal maxLineBytes ++ " bytes")
      else s
    match splitOnceAt '=' raw with
    | none => s.problem (lineText lineNo ++ " has no '='")
    | some (rawKey, written) =>
      -- checked before trimming, which would take a separator off the end of the value
      if written.any fun c => c ≠ '\t' && breaksALine c then
        s.problem (lineText lineNo ++ " has a line break or control character in its value")
      else if trim rawKey = "version".toList then
        let s := { s with versionLines := s.versionLines + 1 }
        if trim written = "1".toList then s
        else s.problem (lineText lineNo ++ ": version is not 1")
      else
        match readKey (trim rawKey) with
        | .error p => s.problem (lineText lineNo ++ p)
        | .ok (index, side, field) => s.record lineNo (trim rawKey) index side field (trim written)

/-- The lines in order, numbered from `n`. -/
def scan (s : Scan) (ls : List Text) (n : Nat) : Scan :=
  (ls.zipIdx n).foldl (fun s (raw, number) => scanLine s raw (number + 1)) s

def fieldProblem (index : Nat) (side : Side) (field : SideKey) (what : Text) : Text :=
  recordKey index side field ++ what

def buildSide (slots : SideKey → Option Text) (index : Nat) (side : Side) :
    Except (List Text) SideFields :=
  let problems := sideKeys.filterMap fun field =>
    if (slots field).any valueReadsBackAsOneLine then none
    else some (fieldProblem index side field " is missing or invalid")
  if problems ≠ [] then .error problems
  else
    match SplitDomain.parseCanonical ((slots .domain).getD []) with
    | .error _ => .error [fieldProblem index side .domain " is not canonical"]
    | .ok domain =>
      match parsePortsText ((slots .ports).getD []) with
      | .error _ => .error [fieldProblem index side .ports " is not canonical"]
      | .ok ports =>
        if ports ≠ [] ∧ ports.length ≤ maxPortElements then
          .ok { identity := (slots .identity).getD [], path := (slots .path).getD [],
                controller := (slots .controller).getD [], domain, ports }
        else .error [fieldProblem index side .ports " is not canonical"]

/-- Both sides are built, so that the problems of both are reported. -/
def buildRecord (slots : Slots) (index : Nat) : List Text × Option AuthorizationRecord :=
  match buildSide (slots .rgb) index .rgb, buildSide (slots .ir) index .ir with
  | .ok rgb, .ok ir => ([], some { rgb, ir })
  | .ok _, .error ps => (ps, none)
  | .error ps, .ok _ => (ps, none)
  | .error ps, .error qs => (ps ++ qs, none)

def parseGeneration (text : Text) : GenerationObservation :=
  if maxFileBytes < byteLength text then
    .malformed ["the file is over " ++ decimal maxFileBytes ++ " bytes"]
  else
    let s := scan {} (lines text) 0
    let versionProblems : List Text :=
      if s.versionLines = 1 then []
      else ["version must appear exactly once, found " ++ decimal s.versionLines]
    let count := (s.maxIndex.map (· + 1)).getD 0
    let built := (s.seen.zipIdx.take count).map fun (slots, index) => buildRecord slots index
    let problems := s.problems ++ versionProblems ++ built.flatMap Prod.fst
    if problems = [] then .valid (built.filterMap Prod.snd) else .malformed problems

/-! ## What the writer checked -/

structure SideFields.Writable (f : SideFields) : Prop where
  identity : valueReadsBackAsOneLine f.identity = true
  path : valueReadsBackAsOneLine f.path = true
  controller : valueReadsBackAsOneLine f.controller = true
  ports : f.ports ≠ []
  few : f.ports.length ≤ maxPortElements
  nonzero : 0 ∉ f.ports

theorem valueReadsBackAsOneLine_iff {v : Text} :
    valueReadsBackAsOneLine v = true ↔
      v ≠ [] ∧ trim v = v ∧ ∀ c ∈ v, breaksALine c = false := by
  simp [valueReadsBackAsOneLine, and_assoc]

theorem checkedLine_ok {line l : Text} (h : checkedLine line = .ok l) :
    l = line ∧ byteLength line ≤ maxLineBytes := by
  unfold checkedLine at h
  split at h
  · cases h
  · next hle => exact ⟨(Except.ok.inj h).symm, by omega⟩

variable {ls : List Text}

theorem mapM_checkedLine {α : Type} {f : α → Text} {as : List α}
    (h : as.mapM (fun a => checkedLine (f a)) = .ok ls) :
    ls = as.map f ∧ ∀ a ∈ as, byteLength (f a) ≤ maxLineBytes := by
  have hall := mapM_ok_iff.1 h
  clear h
  induction hall with
  | nil => simp
  | cons hline _ ih =>
    obtain ⟨rfl, hle⟩ := checkedLine_ok hline
    obtain ⟨rfl, hrest⟩ := ih
    refine ⟨rfl, ?_⟩
    intro a ha
    rcases List.mem_cons.1 ha with rfl | ha
    · exact hle
    · exact hrest a ha

theorem mem_sideKeys (k : SideKey) : k ∈ sideKeys := by
  cases k <;> decide

variable {i : Nat} {side : Side}

theorem sideLines_ok {f : SideFields}
    (h : sideLines i side f = .ok ls) :
    f.Writable ∧ ls = sideKeys.map (fun k => fieldLine i side k (f.value k)) ∧
      ∀ k, byteLength (fieldLine i side k (f.value k)) ≤ maxLineBytes := by
  unfold sideLines at h
  split at h
  · cases h
  · next hfields =>
    split at h
    · cases h
    · next hports =>
      obtain ⟨hls, hbound⟩ := mapM_checkedLine h
      simp only [not_or, List.any_cons, List.any_nil, Bool.or_eq_true, Bool.not_eq_true,
        Bool.not_eq_false', Bool.or_false] at hfields
      obtain ⟨-, -, -, hidentity, hpath, hcontroller⟩ := hfields
      simp only [not_or] at hports
      exact ⟨⟨hidentity, hpath, hcontroller, hports.1, by omega, hports.2.2⟩, hls,
        fun k => hbound k (mem_sideKeys k)⟩

theorem isDigit_range {c : Char} (h : c.isDigit = true) : 48 ≤ c.toNat ∧ c.toNat ≤ 57 := by
  simp only [Char.isDigit, Bool.and_eq_true, decide_eq_true_eq] at h
  exact ⟨h.1, h.2⟩

theorem valueReadsBackAsOneLine_of_plain {v : Text} (hne : v ≠ [])
    (h : ∀ c ∈ v, isWhitespace c = false ∧ breaksALine c = false) :
    valueReadsBackAsOneLine v = true := by
  apply valueReadsBackAsOneLine_iff.2
  refine ⟨hne, trim_eq_self_iff.2 ⟨?_, ?_⟩, fun c hc => (h c hc).2⟩
  · intro c hc
    exact (h c (List.mem_of_head? hc)).1
  · intro c hc
    exact (h c (List.mem_of_getLast? hc)).1

theorem plain_of_isDigit {c : Char} (h : c.isDigit = true) :
    isWhitespace c = false ∧ breaksALine c = false := by
  have hrange := isDigit_range h
  have hall : ∀ d : Fin 58, 48 ≤ d.val →
      isWhitespace (Char.ofNat d.val) = false ∧ breaksALine (Char.ofNat d.val) = false := by
    decide
  have hc := hall ⟨c.toNat, by omega⟩ hrange.1
  rwa [Char.ofNat_toNat] at hc

theorem formatPortsText_plain {ports : List UInt8} {c : Char} (h : c ∈ formatPortsText ports) :
    isWhitespace c = false ∧ breaksALine c = false := by
  rcases mem_intercalate h with h | ⟨f, hf, h⟩
  · rw [List.mem_singleton.1 h]
    decide
  · obtain ⟨p, -, rfl⟩ := List.mem_map.1 hf
    exact plain_of_isDigit (decimal_isDigit h)

theorem formatPortsText_ne_nil {ports : List UInt8} (h : ports ≠ []) : formatPortsText ports ≠ [] := by
  cases ports with
  | nil => exact absurd rfl h
  | cons p ports =>
    intro hnil
    have hfirst : ∀ rest, ['.'].intercalate (decimal p.toNat :: rest) ≠ [] := by
      intro rest
      cases rest with
      | nil => simpa [List.intercalate] using decimal_ne_nil _
      | cons q rest => simp [List.intercalate_cons_cons]
    exact hfirst _ hnil

theorem SideFields.Writable.value {f : SideFields} (h : f.Writable) (k : SideKey) :
    valueReadsBackAsOneLine (f.value k) = true := by
  cases k with
  | identity => exact h.identity
  | path => exact h.path
  | controller => exact h.controller
  | domain =>
    show valueReadsBackAsOneLine f.domain.asStr = true
    cases f.domain <;> decide
  | ports =>
    apply valueReadsBackAsOneLine_of_plain (formatPortsText_ne_nil h.ports)
    intro c hc
    exact formatPortsText_plain hc

/-! ## Reading one line back -/

theorem recordKey_chars {field : SideKey} {c : Char}
    (h : c ∈ recordKey i side field) : c ≠ '=' ∧ isWhitespace c = false ∧ breaksALine c = false := by
  have hname : ∀ c ∈ pairStart ++ ('.' :: (side.name ++ '_' :: field.name)),
      c ≠ '=' ∧ isWhitespace c = false ∧ breaksALine c = false := by
    have hall : ((pairStart ++ ('.' :: (side.name ++ '_' :: field.name))).all fun c =>
        c ≠ '=' && !isWhitespace c && !breaksALine c) = true := by
      cases side <;> cases field <;> decide
    intro c hc
    have hchar := List.all_eq_true.1 hall c hc
    simp only [Bool.and_eq_true, decide_eq_true_eq, Bool.not_eq_true'] at hchar
    exact ⟨hchar.1.1, hchar.1.2, hchar.2⟩
  rw [recordKey, List.append_assoc, List.mem_append, List.mem_append] at h
  rcases h with h | h | h
  · exact hname c (List.mem_append_left _ h)
  · refine ⟨?_, plain_of_isDigit (decimal_isDigit h)⟩
    intro heq
    have hdigit := decimal_isDigit h
    rw [heq] at hdigit
    revert hdigit
    decide
  · exact hname c (List.mem_append_right _ h)

theorem readKey_recordKey (hi : i < maxRecords) (side : Side) (field : SideKey) :
    readKey (recordKey i side field) = .ok (i, side, field) := by
  have hdot : '.' ∉ decimal i := by
    intro hmem
    have hdigit := decimal_isDigit hmem
    revert hdigit
    decide
  have hindex : splitOnceAt '.' (decimal i ++ '.' :: (side.name ++ '_' :: field.name)) =
      some (decimal i, side.name ++ '_' :: field.name) := splitOnceAt_eq_some_iff.2 ⟨rfl, hdot⟩
  have hside : splitOnceAt '_' (side.name ++ '_' :: field.name) = some (side.name, field.name) := by
    apply splitOnceAt_eq_some_iff.2
    refine ⟨rfl, ?_⟩
    cases side <;> decide
  have hcanonical : canonicalDecimal (decimal i) = true := by
    rw [canonicalDecimal_iff, decimalValue_decimal]
  have hfound : sides.find? (fun s => s.name = side.name) = some side := by
    cases side <;> decide
  have hfield : sideKeys.find? (fun k => k.name = field.name) = some field := by
    cases field <;> decide
  have hlt : i < 16 := hi
  unfold readKey recordKey
  rw [List.append_assoc, afterStart_append]
  simp only [hindex, hcanonical, decimalValue_decimal, hside, hfound, hfield, Bool.not_true,
    Bool.false_eq_true, if_false, if_neg (show ¬2 ^ 64 ≤ i by omega),
    if_neg (show ¬maxRecords ≤ i by omega)]

theorem scanLine_fieldLine {s : Scan} (hi : i < maxRecords) {field : SideKey}
    {v : Text} (hv : valueReadsBackAsOneLine v = true)
    (hlen : byteLength (fieldLine i side field v) ≤ maxLineBytes) (n : Nat) :
    scanLine s (fieldLine i side field v) n =
      s.record n (recordKey i side field) i side field v := by
  obtain ⟨hne, htrim, hplain⟩ := valueReadsBackAsOneLine_iff.1 hv
  have hkey : trim (recordKey i side field) = recordKey i side field := by
    apply trim_eq_self_iff.2
    refine ⟨?_, ?_⟩
    · intro c hc
      exact (recordKey_chars (List.mem_of_head? hc)).2.1
    · intro c hc
      exact (recordKey_chars (List.mem_of_getLast? hc)).2.1
  have hline : trim (fieldLine i side field v) = fieldLine i side field v := by
    apply trim_eq_self_iff.2
    refine ⟨?_, ?_⟩
    · intro c hc
      obtain rfl : 'p' = c := by simpa [fieldLine, recordKey, pairStart] using hc
      decide
    · intro c hc
      rw [fieldLine, List.getLast?_append_cons, List.getLast?_cons_of_ne_nil hne] at hc
      exact (trim_eq_self_iff.1 htrim).2 c hc
  have hsplit : splitOnceAt '=' (fieldLine i side field v) = some (recordKey i side field, v) :=
    splitOnceAt_eq_some_iff.2 ⟨rfl, fun hmem => (recordKey_chars hmem).1 rfl⟩
  have hsafe : ¬(v.any fun c => c ≠ '\t' && breaksALine c) = true := by
    intro hany
    obtain ⟨c, hc, hbreaks⟩ := List.any_eq_true.1 hany
    rw [hplain c hc, Bool.and_false] at hbreaks
    cases hbreaks
  have hversion : recordKey i side field ≠ "version".toList := by
    intro heq
    have hhead := congrArg List.head? heq
    simp [recordKey, pairStart] at hhead
  have hnotEmpty : ¬(fieldLine i side field v = [] ∨ (fieldLine i side field v).head? = some '#') := by
    simp [fieldLine, recordKey, pairStart]
  unfold scanLine
  rw [hline, if_neg hnotEmpty, if_neg (by omega)]
  simp only [hsplit, if_neg hsafe, hkey, if_neg hversion, readKey_recordKey hi, htrim]

/-! ## Reading the lines of a generation back -/

def filled (seen : List Slots) : Scan where
  seen := seen
  maxIndex := if seen = [] then none else some (seen.length - 1)
  versionLines := 1
  problems := []

theorem modify_concat {α : Type} (front : List α) (x : α) (f : α → α) :
    (front ++ [x]).modify front.length f = front ++ [f x] := by
  induction front with
  | nil => rfl
  | cons y front ih => simp [ih]

theorem filled_record {seen front : List Slots} {x : Slots} {field : SideKey}
    (hseen : seen = front ∧ x = noSlots ∨ seen = front ++ [x]) (hfree : x side field = none) (n : Nat)
    (key v : Text) :
    (filled seen).record n key front.length side field v = filled (front ++ [x.set side field v]) := by
  have hresized : resized seen front.length = front ++ [x] := by
    rcases hseen with ⟨rfl, rfl⟩ | rfl
    · simp [resized]
    · simp [resized]
  have hempty : ((front ++ [x])[front.length]?.bind fun slots => slots side field) = none := by
    simp [hfree]
  have hset : setSlot seen front.length side field v = front ++ [x.set side field v] := by
    rw [setSlot, hresized, modify_concat]
  have hmax : ((filled seen).maxIndex.map fun m => max m front.length).getD front.length =
      front.length := by
    rcases hseen with ⟨rfl, -⟩ | rfl
    · by_cases h : seen = []
      · simp [filled, h]
      · simp [filled, h]
    · simp [filled]
  rw [Scan.record, hmax]
  simp only [show (filled seen).seen = seen from rfl, hresized, hempty, hset, Option.isSome_none,
    Bool.false_eq_true, if_false]
  simp [filled]

def fieldOrder : List (Side × SideKey) := sides.flatMap fun s => sideKeys.map fun k => (s, k)

def AuthorizationRecord.line (r : AuthorizationRecord) (i : Nat) (f : Side × SideKey) : Text :=
  fieldLine i f.1 f.2 ((r.side f.1).value f.2)

/-- A record whose lines the writer writes as record `i`. -/
structure AuthorizationRecord.Written (r : AuthorizationRecord) (i : Nat) : Prop where
  writable : ∀ side, (r.side side).Writable
  fits : ∀ f, byteLength (r.line i f) ≤ maxLineBytes

variable {r : AuthorizationRecord}

theorem recordLines_ok
    (h : recordLines r i = .ok ls) : r.Written i ∧ ls = fieldOrder.map (r.line i) := by
  obtain ⟨rgb, hrgb, h⟩ := bind_ok_iff.1 h
  obtain ⟨ir, hir, h⟩ := bind_ok_iff.1 h
  cases h
  obtain ⟨hrgbWritable, rfl, hrgbFits⟩ := sideLines_ok hrgb
  obtain ⟨hirWritable, rfl, hirFits⟩ := sideLines_ok hir
  refine ⟨⟨?_, ?_⟩, rfl⟩
  · intro side
    cases side with
    | rgb => exact hrgbWritable
    | ir => exact hirWritable
  · intro f
    obtain ⟨side, field⟩ := f
    cases side with
    | rgb => exact hrgbFits field
    | ir => exact hirFits field

theorem scan_cons (s : Scan) (l : Text) (ls : List Text) (n : Nat) :
    scan s (l :: ls) n = scan (scanLine s l (n + 1)) ls (n + 1) := rfl

theorem scan_append (s : Scan) (ls ms : List Text) (n : Nat) :
    scan s (ls ++ ms) n = scan (scan s ls n) ms (n + ls.length) := by
  induction ls generalizing s n with
  | nil => rfl
  | cons l ls ih =>
    rw [List.cons_append, scan_cons, ih, scan_cons, List.length_cons, Nat.add_assoc, Nat.add_comm 1]

theorem Slots.set_other {x : Slots} {side side' : Side} {field field' : SideKey} {v : Text}
    (h : (side', field') ≠ (side, field)) : x.set side field v side' field' = x side' field' := by
  by_cases hside : side' = side
  · subst hside
    have hfield : field' ≠ field := fun heq => h (heq ▸ rfl)
    simp [Slots.set, hfield]
  · simp [Slots.set, hside]

def AuthorizationRecord.setAll (r : AuthorizationRecord) (x : Slots) (fs : List (Side × SideKey)) : Slots :=
  fs.foldl (fun x f => x.set f.1 f.2 ((r.side f.1).value f.2)) x

theorem scan_lines {front : List Slots} (hw : r.Written front.length)
    (hi : front.length < maxRecords) {fs : List (Side × SideKey)} (hnodup : fs.Nodup) {x : Slots}
    (hfree : ∀ f ∈ fs, x f.1 f.2 = none) (n : Nat) :
    scan (filled (front ++ [x])) (fs.map (r.line front.length)) n =
      filled (front ++ [r.setAll x fs]) := by
  induction fs generalizing x n with
  | nil => rfl
  | cons f fs ih =>
    obtain ⟨side, field⟩ := f
    have hvalue := (hw.writable side).value field
    rw [List.map_cons, scan_cons, AuthorizationRecord.line,
      scanLine_fieldLine hi hvalue (hw.fits (side, field)),
      filled_record (.inr rfl) (hfree _ List.mem_cons_self)]
    rw [List.nodup_cons] at hnodup
    apply ih hnodup.2
    intro g hg
    rw [Slots.set_other, hfree g (List.mem_cons_of_mem _ hg)]
    intro heq
    exact hnodup.1 (heq ▸ hg)

def AuthorizationRecord.slots (r : AuthorizationRecord) : Slots := fun side k => some ((r.side side).value k)

theorem setAll_cons (r : AuthorizationRecord) (x : Slots) (f : Side × SideKey)
    (fs : List (Side × SideKey)) :
    r.setAll x (f :: fs) = r.setAll (x.set f.1 f.2 ((r.side f.1).value f.2)) fs := rfl

theorem setAll_fieldOrder (r : AuthorizationRecord) : r.setAll noSlots fieldOrder = r.slots := by
  funext side k
  cases side <;> cases k <;> rfl

/-- The lines of one record fill the slots of the next record and change nothing else. -/
theorem scan_recordLines {front : List Slots}
    (h : recordLines r front.length = .ok ls) (hi : front.length < maxRecords) (n : Nat) :
    scan (filled front) ls n = filled (front ++ [r.slots]) := by
  obtain ⟨hw, rfl⟩ := recordLines_ok h
  have hvalue := (hw.writable .rgb).value .identity
  have horder : fieldOrder = (.rgb, .identity) :: fieldOrder.tail := rfl
  rw [← setAll_fieldOrder, horder, setAll_cons, List.map_cons, scan_cons, AuthorizationRecord.line,
    scanLine_fieldLine hi hvalue (hw.fits (.rgb, .identity)), filled_record (.inl ⟨rfl, rfl⟩) rfl]
  apply scan_lines hw hi
  · decide
  · intro f hf
    apply Slots.set_other
    revert f
    decide

variable {records : List AuthorizationRecord}

theorem scan_records {front : List Slots}
    {written : List (List Text)}
    (h : (records.zipIdx front.length).mapM (fun (r, i) => recordLines r i) = .ok written)
    (hlength : front.length + records.length ≤ maxRecords) (n : Nat) :
    scan (filled front) written.flatten n = filled (front ++ records.map AuthorizationRecord.slots) := by
  induction records generalizing front written n with
  | nil =>
    cases h
    simp [scan]
  | cons r records ih =>
    rw [List.zipIdx_cons, List.mapM_cons] at h
    obtain ⟨ls, hls, h⟩ := bind_ok_iff.1 h
    obtain ⟨rest, hrest, h⟩ := bind_ok_iff.1 h
    cases h
    have hfront : (front ++ [r.slots]).length = front.length + 1 := by simp
    rw [← hfront] at hrest
    rw [List.length_cons] at hlength
    rw [List.flatten_cons, scan_append, scan_recordLines hls (by omega),
      ih hrest (by omega)]
    simp

/-! ## Building the records -/

theorem buildSide_value {f : SideFields} (h : f.Writable) (index : Nat) (side : Side) :
    buildSide (fun k => some (f.value k)) index side = .ok f := by
  have hnone : (sideKeys.filterMap fun field =>
      if (some (f.value field)).any valueReadsBackAsOneLine then none
      else some (fieldProblem index side field " is missing or invalid")) = [] := by
    rw [List.filterMap_eq_nil_iff]
    intro k _
    rw [if_pos]
    exact h.value k
  have hdomain : SplitDomain.parseCanonical (f.value .domain) = .ok f.domain :=
    SplitDomain.parseCanonical_ok_iff.2 rfl
  have hports : parsePortsText (f.value .ports) = .ok f.ports :=
    parsePortsText_ok_iff.2 ⟨h.ports, h.nonzero, rfl⟩
  unfold buildSide
  simp only [hnone, Option.getD_some, hdomain, hports, if_pos (And.intro h.ports h.few)]
  rfl

theorem buildRecord_slots (h : r.Written i) (index : Nat) :
    buildRecord r.slots index = ([], some r) := by
  have hrgb : buildSide (r.slots .rgb) index .rgb = .ok r.rgb := buildSide_value (h.writable .rgb) _ _
  have hir : buildSide (r.slots .ir) index .ir = .ok r.ir := buildSide_value (h.writable .ir) _ _
  rw [buildRecord, hrgb, hir]

theorem build_records {n : Nat}
    (h : ∀ r ∈ records, ∃ i, r.Written i) :
    ((records.map AuthorizationRecord.slots).zipIdx n).map (fun (slots, index) => buildRecord slots index) =
      records.map fun r => ([], some r) := by
  induction records generalizing n with
  | nil => rfl
  | cons r records ih =>
    obtain ⟨i, hi⟩ := h r List.mem_cons_self
    rw [List.map_cons, List.zipIdx_cons, List.map_cons, List.map_cons,
      ih fun s hs => h s (List.mem_cons_of_mem _ hs)]
    simp only [buildRecord_slots hi]

/-! ## The round trip -/

theorem line_chars (h : r.Written i) (f : Side × SideKey) :
    '\n' ∉ r.line i f ∧ stripCr (r.line i f) = r.line i f ∧ r.line i f ≠ [] := by
  obtain ⟨hne, htrim, hplain⟩ := valueReadsBackAsOneLine_iff.1 ((h.writable f.1).value f.2)
  have hno : ∀ c ∈ r.line i f, c = '=' ∨ breaksALine c = false := by
    intro c hc
    rw [AuthorizationRecord.line, fieldLine, List.mem_append, List.mem_cons] at hc
    rcases hc with hc | hc | hc
    · exact .inr (recordKey_chars hc).2.2
    · exact .inl hc
    · exact .inr (hplain c hc)
  refine ⟨fun hmem => ?_, stripCr_of_not_cr fun hlast => ?_, ?_⟩
  · have := hno _ hmem
    revert this
    decide
  · have := hno _ (List.mem_of_getLast? hlast)
    revert this
    decide
  · simp [AuthorizationRecord.line, fieldLine]

theorem mem_written {n : Nat} {written : List (List Text)}
    (h : (records.zipIdx n).mapM (fun (r, i) => recordLines r i) = .ok written) :
    (∀ r ∈ records, ∃ i, r.Written i) ∧
      ∀ l ∈ written.flatten, '\n' ∉ l ∧ stripCr l = l ∧ l ≠ [] := by
  induction records generalizing n written with
  | nil =>
    cases h
    simp
  | cons r records ih =>
    rw [List.zipIdx_cons, List.mapM_cons] at h
    obtain ⟨ls, hls, h⟩ := bind_ok_iff.1 h
    obtain ⟨rest, hrest, h⟩ := bind_ok_iff.1 h
    cases h
    obtain ⟨hw, rfl⟩ := recordLines_ok hls
    obtain ⟨hrecords, hlines⟩ := ih hrest
    constructor
    · intro s hs
      rcases List.mem_cons.1 hs with rfl | hs
      · exact ⟨_, hw⟩
      · exact hrecords s hs
    · intro l hl
      rw [List.flatten_cons, List.mem_append] at hl
      rcases hl with hl | hl
      · obtain ⟨f, -, rfl⟩ := List.mem_map.1 hl
        exact line_chars hw f
      · exact hlines l hl

theorem scanLine_version : scanLine {} "version=1".toList 1 = filled [] := rfl

theorem parseGeneration_of_lines {written : List (List Text)} {text : Text}
    (hcount : records.length ≤ maxRecords)
    (hwritten : records.zipIdx.mapM (fun (r, i) => recordLines r i) = .ok written)
    (hread : lines text = "version=1".toList :: written.flatten) (hsize : byteLength text ≤ maxFileBytes) :
    parseGeneration text = .valid records := by
  obtain ⟨hrecords, -⟩ := mem_written hwritten
  have hscan : scan {} ("version=1".toList :: written.flatten) 0 =
      filled (records.map AuthorizationRecord.slots) := by
    rw [scan_cons, scanLine_version]
    exact @scan_records records [] written hwritten (by simpa using hcount) 1
  have htake : (records.map AuthorizationRecord.slots).zipIdx.take
      ((((filled (records.map AuthorizationRecord.slots)).maxIndex).map (· + 1)).getD 0) =
      (records.map AuthorizationRecord.slots).zipIdx := by
    apply List.take_of_length_le
    cases records with
    | nil => simp
    | cons r records => simp [filled]
  unfold parseGeneration
  rw [if_neg (by omega), hread, hscan]
  simp only [show ∀ ss, (filled ss).seen = ss from fun _ => rfl, htake, build_records hrecords]
  simp [filled, List.flatMap_map, List.filterMap_map]

theorem parseGeneration_of_serialized {text : Text}
    (h : serializeGeneration records = .ok text) : parseGeneration text = .valid records := by
  unfold serializeGeneration at h
  split at h
  · cases h
  · next hcount =>
    obtain ⟨written, hwritten, h⟩ := bind_ok_iff.1 h
    dsimp only at h
    split at h
    · cases h
    · next hsize =>
      cases h
      obtain ⟨-, hlines⟩ := mem_written hwritten
      refine parseGeneration_of_lines (by omega) hwritten ?_ (by omega)
      rw [lines_unlines (List.cons_ne_nil _ _)]
      · rw [List.map_cons, List.map_congr_left fun l hl => (hlines l hl).2.1, List.map_id']
        rfl
      · intro l hl
        rcases List.mem_cons.1 hl with rfl | hl
        · decide
        · exact (hlines l hl).1

/-- **Round trip**: a generation reads back as the records it was written from, in their order, so two
record lists never share a file. -/
theorem generation_round_trip :
    (∀ (records : List AuthorizationRecord) (text : Text),
      serializeGeneration records = .ok text → parseGeneration text = .valid records) ∧
    (∀ (records records' : List AuthorizationRecord) (text : Text),
      serializeGeneration records = .ok text → serializeGeneration records' = .ok text →
        records = records') := by
  refine ⟨fun records text h => parseGeneration_of_serialized h, ?_⟩
  intro records records' text h h'
  have hread := parseGeneration_of_serialized h
  rw [parseGeneration_of_serialized h'] at hread
  exact (GenerationObservation.valid.inj hread).symm

/-- A record with an `=` and a letter outside ASCII in its values. -/
def laptopRecord : AuthorizationRecord where
  rgb := { identity := "5986:2113:ü=1", path := "/dev/video0", controller := "0000:00:14.0",
           domain := .usb2, ports := [8] }
  ir := { identity := "5986:1141", path := "/dev/video2", controller := "0000:00:14.0",
          domain := .superSpeed, ports := [1, 25] }

/-- A generation of one record. -/
theorem generation_round_trip_laptop :
    ∃ text, serializeGeneration [laptopRecord] = .ok text ∧
      parseGeneration text = .valid [laptopRecord] := by
  have hok : (serializeGeneration [laptopRecord]).toOption.isSome = true := by decide +kernel
  cases h : serializeGeneration [laptopRecord] with
  | error e =>
    rw [h] at hok
    cases hok
  | ok text => exact ⟨text, rfl, generation_round_trip.1 _ _ h⟩

end Irlume.Split

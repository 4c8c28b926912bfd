import Irlume.Lib.Encoding

/-!
# Canonical split-pair key text

A split pair is stored as one line of text, and the stored text stands for the key: two keys are the same
exactly when their texts are. The encoder escapes every byte outside a small safe set and the decoder takes no
other spelling.
-/

namespace Irlume.Split

open Irlume.Lib

inductive SplitDomain where
  | superSpeed
  | usb2
  deriving DecidableEq

structure SplitUnitKey where
  identity : Text
  controller : Text
  domain : SplitDomain
  ports : List UInt8
  deriving DecidableEq

structure SplitPairKey where
  rgb : SplitUnitKey
  ir : SplitUnitKey
  deriving DecidableEq

/-- Why canonical key text was rejected. -/
inductive KeyError where
  | badClassTag
  | badUnitShape
  | emptyField
  | badDomain
  | badPorts
  | lowercaseHex
  | unnecessaryEscape
  | badEscape
  deriving DecidableEq

/-! ## Percent encoding -/

def isAsciiLowercase (b : UInt8) : Bool := 'a'.toUInt8 ≤ b && b ≤ 'z'.toUInt8

def isAsciiAlphanumeric (b : UInt8) : Bool :=
  ('0'.toUInt8 ≤ b && b ≤ '9'.toUInt8) || ('A'.toUInt8 ≤ b && b ≤ 'Z'.toUInt8) || isAsciiLowercase b

def isSafeByte (b : UInt8) : Bool :=
  isAsciiAlphanumeric b || [':', '.', '_', '-'].any (·.toUInt8 = b)

def upperHex (n : UInt8) : UInt8 := if n < 10 then '0'.toUInt8 + n else 'A'.toUInt8 + (n - 10)

def encodedByte (b : UInt8) : List UInt8 :=
  if isSafeByte b then [b] else ['%'.toUInt8, upperHex (b >>> 4), upperHex (b &&& 15)]

def percentEncode (text : Text) : Text := (bytes text).flatMap fun b => (encodedByte b).map asciiChar

def hexValue (c : UInt8) : Option UInt8 :=
  if '0'.toUInt8 ≤ c && c ≤ '9'.toUInt8 then some (c - '0'.toUInt8)
  else if 'A'.toUInt8 ≤ c && c ≤ 'F'.toUInt8 then some (c - 'A'.toUInt8 + 10)
  else if 'a'.toUInt8 ≤ c && c ≤ 'f'.toUInt8 then some (c - 'a'.toUInt8 + 10)
  else none

def escapedByte (hi lo : UInt8) : Except KeyError UInt8 :=
  match hexValue hi, hexValue lo with
  | some h, some l =>
    if isAsciiLowercase hi || isAsciiLowercase lo then .error .lowercaseHex
    else if isSafeByte ((h <<< 4) ||| l) then .error .unnecessaryEscape
    else .ok ((h <<< 4) ||| l)
  | _, _ => .error .badEscape

def percentDecodeBytes : List UInt8 → Except KeyError (List UInt8)
  | [] => .ok []
  | b :: rest =>
    if b = '%'.toUInt8 then
      match rest with
      | hi :: lo :: rest => do
        let value ← escapedByte hi lo
        let out ← percentDecodeBytes rest
        return value :: out
      | _ => .error .badEscape
    else if isSafeByte b then do
      let out ← percentDecodeBytes rest
      return b :: out
    else .error .badEscape

def percentDecode (text : Text) : Except KeyError Text := do
  let out ← percentDecodeBytes (bytes text)
  match ofBytes out with
  | some decoded => .ok decoded
  | none => .error .badEscape

/-! ## Ports -/

def formatPortsText (ports : List UInt8) : Text :=
  ['.'].intercalate (ports.map fun p => decimal p.toNat)

/-- One element of the chain. A number that does not fit the source's `u16` is above 255 too. -/
def parsePort (part : Text) : Except KeyError UInt8 :=
  if !canonicalDecimal part then .error .badPorts
  else if 1 ≤ decimalValue part ∧ decimalValue part ≤ 255 then .ok (UInt8.ofNat (decimalValue part))
  else .error .badPorts

def parsePortsText (text : Text) : Except KeyError (List UInt8) := (text.splitOn '.').mapM parsePort

/-! ## Units and pairs -/

def SplitDomain.asStr : SplitDomain → Text
  | .superSpeed => "superspeed"
  | .usb2 => "usb2"

def SplitDomain.parseCanonical (text : Text) : Except KeyError SplitDomain :=
  if text = "superspeed".toList then .ok .superSpeed
  else if text = "usb2".toList then .ok .usb2
  else .error .badDomain

/-- Four percent-encoded fields separated by `|`. A side the parser would reject is refused. -/
def SplitUnitKey.formatCanonical (k : SplitUnitKey) : Except KeyError Text :=
  if k.identity = [] ∨ k.controller = [] then .error .emptyField
  else if k.ports = [] ∨ 0 ∈ k.ports then .error .badPorts
  else .ok (['|'].intercalate [percentEncode k.identity, percentEncode k.controller, k.domain.asStr,
    formatPortsText k.ports])

def SplitUnitKey.parseCanonical (text : Text) : Except KeyError SplitUnitKey :=
  match text.splitOn '|' with
  | [identity, controller, domain, ports] => do
    let identity ← percentDecode identity
    let controller ← percentDecode controller
    if identity = [] ∨ controller = [] then .error .emptyField
    else do
      let domain ← SplitDomain.parseCanonical domain
      let ports ← parsePortsText ports
      return { identity, controller, domain, ports }
  | _ => .error .badUnitShape

def classTag : Text := "split1;"

def SplitPairKey.formatCanonical (k : SplitPairKey) : Except KeyError Text := do
  let rgb ← k.rgb.formatCanonical
  let ir ← k.ir.formatCanonical
  return classTag ++ rgb ++ ';' :: ir

def SplitPairKey.parseCanonical (text : Text) : Except KeyError SplitPairKey :=
  if classTag <+: text then
    match splitOnceAt ';' (text.drop classTag.length) with
    | some (rgb, ir) => do
      let rgb ← SplitUnitKey.parseCanonical rgb
      let ir ← SplitUnitKey.parseCanonical ir
      return { rgb, ir }
    | none => .error .badUnitShape
  else .error .badClassTag

/-! ## Each text of a field is one value's -/

theorem encodedByte_ascii {b c : UInt8} (h : c ∈ encodedByte b) : c < 128 := by
  have hall : ∀ b, ((encodedByte b).all fun c => c < 128) = true := by
    apply forall_uint8
    decide +kernel
  simpa using List.all_eq_true.1 (hall b) c h

theorem bytes_map_asciiChar {bs : List UInt8} (h : ∀ b ∈ bs, b < 128) :
    bytes (bs.map asciiChar) = bs := by
  induction bs with
  | nil => rfl
  | cons b bs ih =>
    rw [List.map_cons, bytes_cons, utf8EncodeChar_asciiChar (h b List.mem_cons_self),
      ih fun c hc => h c (List.mem_cons_of_mem _ hc)]
    rfl

theorem bytes_percentEncode (text : Text) :
    bytes (percentEncode text) = (bytes text).flatMap encodedByte := by
  unfold percentEncode
  induction bytes text with
  | nil => rfl
  | cons b bs ih =>
    rw [List.flatMap_cons, bytes_append, ih, List.flatMap_cons,
      bytes_map_asciiChar fun c hc => encodedByte_ascii hc]

theorem upperHex_of_hexValue {c v : UInt8} (h : hexValue c = some v)
    (hupper : isAsciiLowercase c = false) : v < 16 ∧ upperHex v = c := by
  have hall : ∀ c, isAsciiLowercase c = false →
      (hexValue c).all (fun v => v < 16 && upperHex v = c) = true := by
    apply forall_uint8
    decide +kernel
  have hc := hall c hupper
  rw [h, Option.all_some] at hc
  simpa using hc

theorem hexValue_upperHex {n : UInt8} (h : n < 16) :
    hexValue (upperHex n) = some n ∧ isAsciiLowercase (upperHex n) = false := by
  revert h
  apply forall_uint8 _ n
  decide +kernel

theorem nibbles (b : UInt8) :
    b >>> 4 < 16 ∧ b &&& 15 < 16 ∧ ((b >>> 4) <<< 4) ||| (b &&& 15) = b := by
  apply forall_uint8 _ b
  decide +kernel

theorem nibbles_join {h l : UInt8} (hh : h < 16) (hl : l < 16) :
    ((h <<< 4) ||| l) >>> 4 = h ∧ ((h <<< 4) ||| l) &&& 15 = l := by
  have hall : ∀ h l : Fin 16,
      ((UInt8.ofNat h <<< 4) ||| UInt8.ofNat l) >>> 4 = UInt8.ofNat h ∧
        ((UInt8.ofNat h <<< 4) ||| UInt8.ofNat l) &&& 15 = UInt8.ofNat l := by
    decide
  have hboth := hall ⟨h.toNat, hh⟩ ⟨l.toNat, hl⟩
  simpa using hboth

theorem escapedByte_ok_iff {hi lo b : UInt8} :
    escapedByte hi lo = .ok b ↔ isSafeByte b = false ∧ encodedByte b = ['%'.toUInt8, hi, lo] := by
  constructor
  · intro h
    unfold escapedByte at h
    split at h
    · next hv lv hhi hlo =>
      split at h
      · cases h
      · next hcase =>
        rw [Bool.or_eq_true, not_or, Bool.not_eq_true, Bool.not_eq_true] at hcase
        split at h
        · cases h
        · next hsafe =>
          cases h
          obtain ⟨hhigh, hhi⟩ := upperHex_of_hexValue hhi hcase.1
          obtain ⟨hlow, hlo⟩ := upperHex_of_hexValue hlo hcase.2
          obtain ⟨hshift, hmask⟩ := nibbles_join hhigh hlow
          rw [encodedByte, if_neg hsafe, hshift, hmask, hhi, hlo]
          exact ⟨by simpa using hsafe, rfl⟩
    · cases h
  · intro h
    obtain ⟨hsafe, hspelling⟩ := h
    rw [encodedByte, if_neg (by simp [hsafe])] at hspelling
    simp only [List.cons.injEq, true_and, and_true] at hspelling
    obtain ⟨rfl, rfl⟩ := hspelling
    obtain ⟨hhigh, hlow, hjoin⟩ := nibbles b
    obtain ⟨hhi, hhiUpper⟩ := hexValue_upperHex hhigh
    obtain ⟨hlo, hloUpper⟩ := hexValue_upperHex hlow
    simp only [escapedByte, hhi, hlo, hhiUpper, hloUpper, hjoin, hsafe, Bool.or_self,
      Bool.false_eq_true, if_false]

theorem percent_not_safe : isSafeByte '%'.toUInt8 = false := by decide

theorem percentDecodeBytes_encodedByte (b : UInt8) (rest : List UInt8) :
    percentDecodeBytes (encodedByte b ++ rest) = (b :: ·) <$> percentDecodeBytes rest := by
  by_cases hsafe : isSafeByte b = true
  · have hb : b ≠ '%'.toUInt8 := by
      intro heq
      rw [heq, percent_not_safe] at hsafe
      cases hsafe
    rw [encodedByte, if_pos hsafe, List.singleton_append, percentDecodeBytes.eq_def]
    simp only [if_neg hb, if_pos hsafe]
    rfl
  · have hsafe : isSafeByte b = false := by simpa using hsafe
    have hspelling : encodedByte b = ['%'.toUInt8, upperHex (b >>> 4), upperHex (b &&& 15)] := by
      simp [encodedByte, hsafe]
    have hread := escapedByte_ok_iff.2 ⟨hsafe, hspelling⟩
    rw [hspelling, List.cons_append, List.cons_append, List.singleton_append, percentDecodeBytes,
      if_pos rfl]
    simp only [hread]
    rfl

theorem percentDecodeBytes_ok_iff {bs out : List UInt8} :
    percentDecodeBytes bs = .ok out ↔ out.flatMap encodedByte = bs := by
  constructor
  · intro h
    fun_induction percentDecodeBytes bs generalizing out with
    | case1 =>
      cases h
      rfl
    | case2 hi lo rest ih =>
      obtain ⟨value, hvalue, h⟩ := bind_ok_iff.1 h
      obtain ⟨tail, hrest, h⟩ := bind_ok_iff.1 h
      cases h
      rw [List.flatMap_cons, ih hrest, (escapedByte_ok_iff.1 hvalue).2]
      rfl
    | case3 => cases h
    | case4 b rest hb hsafe ih =>
      obtain ⟨tail, hrest, h⟩ := bind_ok_iff.1 h
      cases h
      rw [List.flatMap_cons, ih hrest, encodedByte, if_pos hsafe]
      rfl
    | case5 => cases h
  · intro h
    subst h
    induction out with
    | nil => rfl
    | cons b out ih =>
      rw [List.flatMap_cons, percentDecodeBytes_encodedByte, ih]
      rfl

theorem percentDecode_ok_iff {t text : Text} :
    percentDecode t = .ok text ↔ percentEncode text = t := by
  have hbytes : percentEncode text = t ↔ (bytes text).flatMap encodedByte = bytes t := by
    rw [← bytes_percentEncode]
    exact ⟨fun h => congrArg bytes h, bytes_injective⟩
  rw [hbytes, ← percentDecodeBytes_ok_iff, percentDecode]
  cases hout : percentDecodeBytes (bytes t) with
  | error e =>
    constructor
    · intro h
      cases h
    · intro h
      cases h
  | ok out =>
    have hof : ofBytes out = some text ↔ (.ok out : Except KeyError _) = .ok (bytes text) := by
      rw [ofBytes_eq_some_iff, eq_comm, Except.ok.injEq]
    rw [← hof]
    simp only [bind, Except.bind]
    cases ofBytes out <;> simp

theorem parsePort_ok_iff {part : Text} {p : UInt8} :
    parsePort part = .ok p ↔ p ≠ 0 ∧ decimal p.toNat = part := by
  constructor
  · intro h
    unfold parsePort at h
    split at h
    · cases h
    · next hcanonical =>
      split at h
      · next hrange =>
        cases h
        have hcanonical : canonicalDecimal part = true := by simpa using hcanonical
        have hvalue : (UInt8.ofNat (decimalValue part)).toNat = decimalValue part := by
          rw [UInt8.toNat_ofNat']
          omega
        refine ⟨?_, by rw [hvalue, canonicalDecimal_iff.1 hcanonical]⟩
        intro hzero
        rw [hzero] at hvalue
        simp at hvalue
        omega
      · cases h
  · intro h
    obtain ⟨hne, rfl⟩ := h
    have hcanonical : canonicalDecimal (decimal p.toNat) = true := by
      rw [canonicalDecimal_iff, decimalValue_decimal]
    have hpos : 0 < p.toNat := by
      rw [Nat.pos_iff_ne_zero]
      intro hzero
      exact hne (UInt8.toNat_inj.1 hzero)
    have hlt := p.toNat_lt
    rw [parsePort, hcanonical, decimalValue_decimal, if_neg (by simp), if_pos ⟨hpos, by omega⟩,
      UInt8.ofNat_toNat]

variable {ports : List UInt8}

theorem parsePorts_forall₂_iff {parts : List Text} :
    List.Forall₂ (fun part p => parsePort part = .ok p) parts ports ↔
      0 ∉ ports ∧ (ports.map fun p => decimal p.toNat) = parts := by
  induction ports generalizing parts with
  | nil => simp [eq_comm]
  | cons p ports ih =>
    rw [List.forall₂_cons_right_iff, List.mem_cons, not_or, List.map_cons]
    constructor
    · intro h
      obtain ⟨part, rest, hpart, hrest, rfl⟩ := h
      obtain ⟨hp, rfl⟩ := parsePort_ok_iff.1 hpart
      obtain ⟨hports, rfl⟩ := ih.1 hrest
      exact ⟨⟨hp.symm, hports⟩, rfl⟩
    · intro h
      obtain ⟨⟨hp, hports⟩, rfl⟩ := h
      exact ⟨_, _, parsePort_ok_iff.2 ⟨Ne.symm hp, rfl⟩, ih.2 ⟨hports, rfl⟩, rfl⟩

variable {text : Text}

theorem parsePortsText_ok_iff :
    parsePortsText text = .ok ports ↔ ports ≠ [] ∧ 0 ∉ ports ∧ formatPortsText ports = text := by
  have hdot : ∀ f ∈ ports.map fun p => decimal p.toNat, '.' ∉ f := by
    intro f hf hmem
    obtain ⟨p, -, rfl⟩ := List.mem_map.1 hf
    have hdigit := decimal_isDigit hmem
    revert hdigit
    decide
  rw [parsePortsText, mapM_ok_iff, parsePorts_forall₂_iff, eq_comm, splitOn_eq_iff, formatPortsText]
  constructor
  · intro h
    obtain ⟨hzero, hne, hjoin, -⟩ := h
    exact ⟨by simpa using hne, hzero, hjoin⟩
  · intro h
    obtain ⟨hne, hzero, hjoin⟩ := h
    exact ⟨hzero, by simpa using hne, hjoin, hdot⟩

theorem SplitDomain.parseCanonical_ok_iff {d : SplitDomain} :
    SplitDomain.parseCanonical text = .ok d ↔ d.asStr = text := by
  unfold SplitDomain.parseCanonical
  constructor
  · intro h
    split at h
    · next htext =>
      cases h
      exact htext.symm
    · split at h
      · next htext =>
        cases h
        exact htext.symm
      · cases h
  · intro h
    subst h
    cases d <;> decide

/-! ## Units -/

theorem percentEncode_chars {c : Char} (h : c ∈ percentEncode text) :
    c ≠ '|' ∧ c ≠ ';' := by
  obtain ⟨b, -, hc⟩ := List.mem_flatMap.1 h
  have hall : ∀ b, (((encodedByte b).map asciiChar).all fun c => c ≠ '|' && c ≠ ';') = true := by
    apply forall_uint8
    decide +kernel
  simpa using List.all_eq_true.1 (hall b) c hc

theorem SplitDomain.asStr_chars (d : SplitDomain) : ∀ c ∈ d.asStr, c ≠ '|' ∧ c ≠ ';' := by
  have hall : (d.asStr.all fun c => c ≠ '|' && c ≠ ';') = true := by
    cases d <;> decide
  intro c hc
  simpa using List.all_eq_true.1 hall c hc

theorem formatPortsText_chars {c : Char} (h : c ∈ formatPortsText ports) :
    c ≠ '|' ∧ c ≠ ';' := by
  have hdigit : c = '.' ∨ c.isDigit = true := by
    rcases mem_intercalate h with h | ⟨f, hf, h⟩
    · exact .inl (List.mem_singleton.1 h)
    · obtain ⟨p, -, rfl⟩ := List.mem_map.1 hf
      exact .inr (decimal_isDigit h)
  rcases hdigit with rfl | hdigit
  · decide
  · constructor
    · intro heq
      rw [heq] at hdigit
      revert hdigit
      decide
    · intro heq
      rw [heq] at hdigit
      revert hdigit
      decide

def SplitUnitKey.fields (k : SplitUnitKey) : List Text :=
  [percentEncode k.identity, percentEncode k.controller, k.domain.asStr, formatPortsText k.ports]

theorem SplitUnitKey.fields_chars (k : SplitUnitKey) : ∀ f ∈ k.fields, ∀ c ∈ f, c ≠ '|' ∧ c ≠ ';' := by
  intro f hf c hc
  simp only [SplitUnitKey.fields, List.mem_cons, List.not_mem_nil, or_false] at hf
  rcases hf with rfl | rfl | rfl | rfl
  · exact percentEncode_chars hc
  · exact percentEncode_chars hc
  · exact k.domain.asStr_chars c hc
  · exact formatPortsText_chars hc

structure SplitUnitKey.Canonical (k : SplitUnitKey) : Prop where
  identity : k.identity ≠ []
  controller : k.controller ≠ []
  ports : k.ports ≠ []
  nonzero : 0 ∉ k.ports

variable {t : Text} {k : SplitUnitKey}

theorem SplitUnitKey.formatCanonical_ok_iff :
    k.formatCanonical = .ok t ↔ k.Canonical ∧ ['|'].intercalate k.fields = t := by
  unfold SplitUnitKey.formatCanonical
  constructor
  · intro h
    split at h
    · cases h
    · next hfields =>
      split at h
      · cases h
      · next hports =>
        rw [not_or] at hfields hports
        exact ⟨⟨hfields.1, hfields.2, hports.1, hports.2⟩, Except.ok.inj h⟩
  · intro h
    obtain ⟨hk, rfl⟩ := h
    rw [if_neg (not_or.2 ⟨hk.identity, hk.controller⟩), if_neg (not_or.2 ⟨hk.ports, hk.nonzero⟩)]
    rfl

theorem SplitUnitKey.parseCanonical_ok_iff :
    SplitUnitKey.parseCanonical t = .ok k ↔ k.formatCanonical = .ok t := by
  rw [SplitUnitKey.formatCanonical_ok_iff]
  constructor
  · intro h
    unfold SplitUnitKey.parseCanonical at h
    split at h
    · next identity controller domain ports hsplit =>
      obtain ⟨-, hjoin, -⟩ := splitOn_eq_iff.1 hsplit
      obtain ⟨i, hidentity, h⟩ := bind_ok_iff.1 h
      obtain ⟨c, hcontroller, h⟩ := bind_ok_iff.1 h
      split at h
      · cases h
      · next hne =>
        obtain ⟨d, hdomain, h⟩ := bind_ok_iff.1 h
        obtain ⟨p, hports, h⟩ := bind_ok_iff.1 h
        cases h
        rw [not_or] at hne
        obtain ⟨hpne, hzero, rfl⟩ := parsePortsText_ok_iff.1 hports
        obtain rfl := percentDecode_ok_iff.1 hidentity
        obtain rfl := percentDecode_ok_iff.1 hcontroller
        obtain rfl := SplitDomain.parseCanonical_ok_iff.1 hdomain
        exact ⟨⟨hne.1, hne.2, hpne, hzero⟩, hjoin⟩
    · cases h
  · intro h
    obtain ⟨hk, rfl⟩ := h
    have hsplit : (['|'].intercalate k.fields).splitOn '|' = k.fields := by
      apply splitOn_eq_iff.2
      refine ⟨by simp [SplitUnitKey.fields], rfl, ?_⟩
      intro f hf hmem
      exact (k.fields_chars f hf '|' hmem).1 rfl
    unfold SplitUnitKey.parseCanonical
    rw [hsplit]
    simp only [SplitUnitKey.fields, percentDecode_ok_iff.2 rfl, SplitDomain.parseCanonical_ok_iff.2 rfl,
      parsePortsText_ok_iff.2 ⟨hk.ports, hk.nonzero, rfl⟩, bind, Except.bind,
      if_neg (not_or.2 ⟨hk.identity, hk.controller⟩)]
    rfl

/-! ## Pairs -/

theorem SplitUnitKey.formatCanonical_chars (h : k.formatCanonical = .ok t) : ';' ∉ t := by
  obtain ⟨-, rfl⟩ := SplitUnitKey.formatCanonical_ok_iff.1 h
  intro hmem
  rcases mem_intercalate hmem with hmem | ⟨f, hf, hmem⟩
  · revert hmem
    decide
  · exact (k.fields_chars f hf ';' hmem).2 rfl

theorem SplitPairKey.parseCanonical_ok_iff {k : SplitPairKey} :
    SplitPairKey.parseCanonical t = .ok k ↔ k.formatCanonical = .ok t := by
  constructor
  · intro h
    unfold SplitPairKey.parseCanonical at h
    split at h
    · next htag =>
      obtain ⟨rest, rfl⟩ := htag
      rw [List.drop_left] at h
      split at h
      · next rgb ir hsplit =>
        obtain ⟨rfl, -⟩ := splitOnceAt_eq_some_iff.1 hsplit
        obtain ⟨kr, hrgb, h⟩ := bind_ok_iff.1 h
        obtain ⟨ki, hir, h⟩ := bind_ok_iff.1 h
        cases h
        have hrgb := SplitUnitKey.parseCanonical_ok_iff.1 hrgb
        have hir := SplitUnitKey.parseCanonical_ok_iff.1 hir
        rw [SplitPairKey.formatCanonical, hrgb, hir, ← List.append_assoc]
        rfl
      · cases h
    · cases h
  · intro h
    obtain ⟨rgb, hrgb, h⟩ := bind_ok_iff.1 h
    obtain ⟨ir, hir, h⟩ := bind_ok_iff.1 h
    cases h
    have hsplit : splitOnceAt ';' (rgb ++ ';' :: ir) = some (rgb, ir) :=
      splitOnceAt_eq_some_iff.2 ⟨rfl, SplitUnitKey.formatCanonical_chars hrgb⟩
    rw [SplitPairKey.parseCanonical, List.append_assoc, if_pos (List.prefix_append _ _),
      List.drop_left, hsplit]
    simp only [SplitUnitKey.parseCanonical_ok_iff.2 hrgb, SplitUnitKey.parseCanonical_ok_iff.2 hir,
      bind, Except.bind]
    rfl

/-- **Canonical text**: a key has a text exactly when the text reads back as that key, and two keys
with texts are the same key exactly when their texts are the same. -/
theorem splitPairKey_text_bijective :
    (∀ (k : SplitPairKey) (t : Text),
      k.formatCanonical = .ok t ↔ SplitPairKey.parseCanonical t = .ok k) ∧
    (∀ (k k' : SplitPairKey) (t t' : Text),
      k.formatCanonical = .ok t → k'.formatCanonical = .ok t' → (t = t' ↔ k = k')) := by
  refine ⟨fun k t => SplitPairKey.parseCanonical_ok_iff.symm, ?_⟩
  intro k k' t t' h h'
  constructor
  · intro heq
    subst heq
    have hk := SplitPairKey.parseCanonical_ok_iff.2 h
    rw [SplitPairKey.parseCanonical_ok_iff.2 h'] at hk
    exact (Except.ok.inj hk).symm
  · intro heq
    subst heq
    rw [h] at h'
    exact Except.ok.inj h'

/-- A pair whose RGB identity holds a separator and a letter outside ASCII. -/
def escapedPair : SplitPairKey where
  rgb := { identity := "5986:2113:ü|1", controller := "0000:00:14.0", domain := .usb2, ports := [8] }
  ir := { identity := "5986:1141", controller := "0000:00:14.0", domain := .superSpeed, ports := [1, 25] }

def escapedPairText : Text :=
  "split1;5986:2113:%C3%BC%7C1|0000:00:14.0|usb2|8;" ++ "5986:1141|0000:00:14.0|superspeed|1.25"

/-- A pair whose text has escapes. -/
theorem splitPairKey_text_bijective_escaped :
    escapedPair.formatCanonical = .ok escapedPairText ∧
      SplitPairKey.parseCanonical escapedPairText = .ok escapedPair ∧
      (escapedPairText = escapedPairText ↔ escapedPair = escapedPair) := by
  have h : escapedPair.formatCanonical = .ok escapedPairText := by decide
  exact ⟨h, (splitPairKey_text_bijective.1 _ _).1 h, splitPairKey_text_bijective.2 _ _ _ _ h h⟩

end Irlume.Split

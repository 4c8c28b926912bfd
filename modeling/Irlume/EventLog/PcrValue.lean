import Irlume.Lib.Encoding

/-!
# The text of a PCR value

`pcr_value` reads what the kernel's `pcr-sha256` files print: 64 hexadecimal digits. It has the standard library
read each pair, and `u8::from_str_radix` takes a plus sign before a digit too.
-/

namespace Irlume.EventLog

open Irlume.Lib

/-- `char::to_digit` in radix 16. -/
def toDigit16 (c : Char) : Option Nat :=
  if 48 ≤ c.toNat ∧ c.toNat ≤ 57 then some (c.toNat - 48)
  else if 65 ≤ c.toNat ∧ c.toNat ≤ 70 then some (c.toNat - 55)
  else if 97 ≤ c.toNat ∧ c.toNat ≤ 102 then some (c.toNat - 87)
  else none

def digitsValue (t : Text) : Option Nat :=
  t.foldlM (fun n c => (toDigit16 c).bind fun d => if n * 16 + d < 256 then some (n * 16 + d) else none) 0

/-- `u8::from_str_radix` in radix 16. -/
def fromStrRadix16 (t : Text) : Option UInt8 :=
  if t = [] ∨ t = ['+'] ∨ t = ['-'] then none
  else (digitsValue (if t.head? = some '+' then t.tail else t)).map UInt8.ofNat

/-- `pcr_value` -/
def pcrValue (text : Text) : Option (Vector UInt8 32) :=
  let text := trim text
  if byteLength text ≠ 64 ∨ !text.all (·.toNat < 128) then none
  else (Vector.range 32).mapM fun i => fromStrRadix16 ((text.drop (2 * i)).take 2)

/-! ## One pair -/

def isHexDigit (c : Char) : Bool := (toDigit16 c).isSome

theorem toDigit16_lt {c : Char} {d : Nat} (h : toDigit16 c = some d) : d < 16 := by
  unfold toDigit16 at h
  split_ifs at h <;> obtain rfl := Option.some.inj h <;> omega

theorem isHexDigit_ascii {c : Char} (h : isHexDigit c = true) : c.toNat < 128 := by
  unfold isHexDigit toDigit16 at h
  split_ifs at h <;> first | omega | cases h

/-- A digit is printed in lowercase. -/
theorem digitChar_toDigit16 {c : Char} {d : Nat} (h : toDigit16 c = some d) : d.digitChar = c.toLower := by
  have hall : ∀ n : Fin 128, ∀ d ∈ toDigit16 (Char.ofNat n), d.digitChar = (Char.ofNat n).toLower := by decide
  have hascii : c.toNat < 128 := isHexDigit_ascii (by rw [isHexDigit, h]; rfl)
  have hdigit := hall ⟨c.toNat, hascii⟩ d
  rw [Char.ofNat_toNat] at hdigit
  exact hdigit (Option.mem_def.2 h)

theorem isHexDigit_plus : isHexDigit '+' = false := by decide

theorem fromStrRadix16_plus (b : Char) : fromStrRadix16 ['+', b] = (toDigit16 b).map UInt8.ofNat := by
  cases hb : toDigit16 b with
  | none => simp [fromStrRadix16, digitsValue, hb]
  | some d =>
    have hd := toDigit16_lt hb
    simp [fromStrRadix16, digitsValue, hb, show d < 256 by omega]

theorem fromStrRadix16_digits {a : Char} (ha : a ≠ '+') (b : Char) : fromStrRadix16 [a, b] =
    (toDigit16 a).bind fun h => (toDigit16 b).map fun l => UInt8.ofNat (h * 16 + l) := by
  cases hh : toDigit16 a with
  | none => simp [fromStrRadix16, digitsValue, ha, hh]
  | some h =>
    have hlt := toDigit16_lt hh
    cases hl : toDigit16 b with
    | none => simp [fromStrRadix16, digitsValue, ha, hh, hl, show h < 256 by omega]
    | some l =>
      have hlt' := toDigit16_lt hl
      simp [fromStrRadix16, digitsValue, ha, hh, hl, show h < 256 by omega,
        show h * 16 + l < 256 by omega]

/-- What a pair is read for: two digits, or a plus sign and a digit. -/
def PairReads (a b : Char) : Prop := (a = '+' ∨ isHexDigit a = true) ∧ isHexDigit b = true

theorem fromStrRadix16_isSome_iff {a b : Char} :
    (fromStrRadix16 [a, b]).isSome = true ↔ PairReads a b := by
  by_cases ha : a = '+'
  · subst ha
    simp [fromStrRadix16_plus, PairReads, isHexDigit]
  · rw [fromStrRadix16_digits ha]
    cases hh : toDigit16 a <;> simp [PairReads, isHexDigit, ha, hh]

/-! ## All pairs -/

def pairValues : Text → Option (List UInt8)
  | a :: b :: rest => (fromStrRadix16 [a, b]).bind fun v => (pairValues rest).map (v :: ·)
  | _ => some []

/-- Every pair of the text reads. -/
def PairsRead : Text → Prop
  | a :: b :: rest => PairReads a b ∧ PairsRead rest
  | _ => True

theorem pairValues_isSome_iff (t : Text) : (pairValues t).isSome = true ↔ PairsRead t := by
  induction t using pairValues.induct with
  | case1 a b rest ih =>
    rw [pairValues, PairsRead, ← ih, ← fromStrRadix16_isSome_iff]
    cases fromStrRadix16 [a, b] <;> simp
  | case2 t h =>
    rw [pairValues, PairsRead]
    · simp
    · exact h
    · exact h

variable {n : Nat} {t : Text}

/-- An induction by pairs on a text of `n` of them. -/
theorem pairs_induction {motive : Nat → Text → Prop} (nil : motive 0 [])
    (pair : ∀ n a b rest, motive n rest → motive (n + 1) (a :: b :: rest))
    (h : t.length = 2 * n) : motive n t := by
  induction n generalizing t with
  | zero =>
    obtain rfl := List.eq_nil_of_length_eq_zero h
    exact nil
  | succ n ih =>
    match t with
    | [] | [_] => simp only [List.length_nil, List.length_singleton] at h; omega
    | a :: b :: rest =>
      rw [List.length_cons, List.length_cons] at h
      exact pair n a b rest (ih (by omega))

theorem mapM_slices (h : t.length = 2 * n) :
    (List.range n).mapM (fun i => fromStrRadix16 ((t.drop (2 * i)).take 2)) = pairValues t := by
  refine pairs_induction (motive := fun n t =>
    (List.range n).mapM (fun i => fromStrRadix16 ((t.drop (2 * i)).take 2)) = pairValues t) rfl ?_ h
  intro n a b rest ih
  rw [List.range_succ_eq_map, List.mapM_cons, List.mapM_map, pairValues, ← ih]
  change (fromStrRadix16 [a, b] >>= fun v => (List.range n).mapM _ >>= fun vs => pure (v :: vs)) = _
  simp only [Option.bind_eq_bind, Option.map_eq_bind]
  rfl

theorem plus_or_isHexDigit (hlen : t.length = 2 * n) (h : PairsRead t) :
    ∀ c ∈ t, c = '+' ∨ isHexDigit c = true := by
  refine pairs_induction (motive := fun _ t => PairsRead t → ∀ c ∈ t, c = '+' ∨ isHexDigit c = true)
    (fun _ => nofun) ?_ hlen h
  intro n a b rest ih h c hc
  rcases List.mem_cons.1 hc with rfl | hc
  · exact h.1.1
  rcases List.mem_cons.1 hc with rfl | hc
  · exact .inr h.1.2
  · exact ih h.2 c hc

theorem pairsRead_of_digits (t : Text) (h : ∀ c ∈ t, isHexDigit c = true) : PairsRead t := by
  induction t using pairValues.induct with
  | case1 a b rest ih =>
    exact ⟨⟨.inr (h a (by simp)), h b (by simp)⟩, ih fun c hc => h c (by simp [hc])⟩
  | case2 t hshort =>
    rw [PairsRead]
    · trivial
    · exact hshort

/-- The bytes of digits are printed as the digits, in lowercase. -/
theorem hexBytes_pairValues {v : List UInt8} (hlen : t.length = 2 * n)
    (hdigits : ∀ c ∈ t, isHexDigit c = true) (h : pairValues t = some v) : hexBytes v = t.map Char.toLower := by
  refine pairs_induction (motive := fun _ t => ∀ v, (∀ c ∈ t, isHexDigit c = true) → pairValues t = some v →
    hexBytes v = t.map Char.toLower) (fun v _ h => ?_) ?_ hlen v hdigits h
  · cases h
    rfl
  · intro n a b rest ih v hdigits h
    have ha : a ≠ '+' := fun heq => by
      have hplus := hdigits a (by simp)
      rw [heq, isHexDigit_plus] at hplus
      cases hplus
    rw [pairValues, fromStrRadix16_digits ha] at h
    obtain ⟨hi, hhi⟩ := Option.isSome_iff_exists.1 (hdigits a (by simp))
    obtain ⟨lo, hlo⟩ := Option.isSome_iff_exists.1 (hdigits b (by simp))
    rw [hhi, hlo, Option.bind_some, Option.map_some, Option.bind_some] at h
    obtain ⟨vs, hvs, rfl⟩ := Option.map_eq_some_iff.1 h
    have hlt := toDigit16_lt hhi
    have hlt' := toDigit16_lt hlo
    have hbyte : (UInt8.ofNat (hi * 16 + lo)).toNat = hi * 16 + lo := by
      rw [UInt8.toNat_ofNat']
      omega
    rw [hexBytes, List.flatMap_cons, hexByte, ← hexBytes, ih vs (fun c hc => hdigits c (by simp [hc])) hvs, hbyte,
      show (hi * 16 + lo) / 16 = hi by omega, show (hi * 16 + lo) % 16 = lo by omega,
      digitChar_toDigit16 hhi, digitChar_toDigit16 hlo]
    rfl

/-! ## The value -/

/-- The 64 characters are 32 pairs that read. -/
def Reads (t : Text) : Prop := t.length = 64 ∧ PairsRead t

theorem toList_pcrValue {text : Text} (hlen : (trim text).length = 64)
    (hascii : ∀ c ∈ trim text, c.toNat < 128) :
    (pcrValue text).map Vector.toList = pairValues (trim text) := by
  have hbytes : byteLength (trim text) = 64 := (byteLength_ascii hascii).trans hlen
  have hlist : ∀ f : Nat → Option UInt8,
      ((Vector.range 32).mapM f).map Vector.toList = (List.range 32).mapM f := by
    intro f
    have harray : Vector.toArray <$> (Vector.range 32).mapM f = (Vector.range 32).toArray.mapM f :=
      Vector.toArray_mapM
    rw [Option.map_eq_map, Array.mapM_eq_mapM_toList, Vector.toArray_range, Array.toList_range] at harray
    calc ((Vector.range 32).mapM f).map Vector.toList
      _ = (((Vector.range 32).mapM f).map Vector.toArray).map Array.toList := by rw [Option.map_map]; rfl
      _ = (List.range 32).mapM f := by
        rw [harray]
        cases (List.range 32).mapM f <;> rfl
  rw [pcrValue, if_neg (by simpa [hbytes] using hascii), hlist, mapM_slices hlen]

theorem pcrValue_isSome_iff (text : Text) : (pcrValue text).isSome = true ↔ Reads (trim text) := by
  by_cases h : byteLength (trim text) = 64 ∧ ∀ c ∈ trim text, c.toNat < 128
  · have hlen : (trim text).length = 64 := (byteLength_ascii h.2).symm.trans h.1
    rw [← Option.isSome_map, toList_pcrValue hlen h.2, pairValues_isSome_iff, Reads, and_iff_right hlen]
  · refine iff_of_false ?_ fun hreads => h ?_
    · have hrefused : byteLength (trim text) ≠ 64 ∨ (!(trim text).all (·.toNat < 128)) = true := by
        simpa [imp_iff_not_or] using h
      rw [pcrValue, if_pos hrefused]
      simp
    · have hascii : ∀ c ∈ trim text, c.toNat < 128 := fun c hc => by
        rcases plus_or_isHexDigit (n := 32) hreads.1 hreads.2 c hc with rfl | hdigit
        · decide
        · exact isHexDigit_ascii hdigit
      exact ⟨(byteLength_ascii hascii).trans hreads.1, hascii⟩

/-- The text is read as hexadecimal digits are. -/
def ReadsHex (text : Text) : Prop :=
  ((pcrValue text).isSome = true ↔ (trim text).length = 64 ∧ ∀ c ∈ trim text, isHexDigit c = true) ∧
  ∀ v, pcrValue text = some v → hexBytes v.toList = (trim text).map Char.toLower

/-- A text is read as hexadecimal digits are, unless it is pairs that read with a plus sign among them. -/
theorem pcrValue_exact (text : Text) : ReadsHex text ↔ ¬ (Reads (trim text) ∧ '+' ∈ trim text) := by
  have hdigit : ∀ c ∈ trim text, isHexDigit c = true → c ≠ '+' := by
    rintro c - h rfl
    rw [isHexDigit_plus] at h
    cases h
  constructor
  · rintro ⟨hiff, -⟩ ⟨hreads, hplus⟩
    exact hdigit '+' hplus ((hiff.1 ((pcrValue_isSome_iff text).2 hreads)).2 '+' hplus) rfl
  · intro h
    have hdigits : Reads (trim text) → ∀ c ∈ trim text, isHexDigit c = true := fun hreads c hc =>
      (plus_or_isHexDigit (n := 32) hreads.1 hreads.2 c hc).resolve_left fun heq => h ⟨hreads, heq ▸ hc⟩
    refine ⟨?_, fun v hv => ?_⟩
    · rw [pcrValue_isSome_iff]
      exact ⟨fun hreads => ⟨hreads.1, hdigits hreads⟩, fun ⟨hlen, hall⟩ => ⟨hlen, pairsRead_of_digits _ hall⟩⟩
    · have hreads := (pcrValue_isSome_iff text).1 (hv ▸ rfl)
      have hall := hdigits hreads
      have hpairs := toList_pcrValue hreads.1 fun c hc => isHexDigit_ascii (hall c hc)
      rw [hv, Option.map_some] at hpairs
      exact hexBytes_pairValues (n := 32) hreads.1 hall hpairs.symm

theorem pairsRead_plus (n : Nat) : PairsRead (List.replicate n ['+', '1']).flatten := by
  induction n with
  | zero => trivial
  | succ n ih => exact ⟨⟨.inl rfl, by decide⟩, ih⟩

/-- Thirty-two pairs of a plus sign and a digit read as a value. -/
theorem not_readsHex_plus : ¬ ReadsHex (List.replicate 32 ['+', '1']).flatten := by
  intro h
  have htrim : trim (List.replicate 32 ['+', '1']).flatten = (List.replicate 32 ['+', '1']).flatten :=
    trim_eq_self_iff.2 ⟨by simp [isWhitespace, List.replicate], by simp [isWhitespace, List.replicate]⟩
  have hread := (pcrValue_isSome_iff (List.replicate 32 ['+', '1']).flatten).2
    (htrim.symm ▸ ⟨by simp, pairsRead_plus 32⟩)
  have hplus := (h.1.1 hread).2 '+' (by rw [htrim]; simp)
  rw [isHexDigit_plus] at hplus
  cases hplus

end Irlume.EventLog

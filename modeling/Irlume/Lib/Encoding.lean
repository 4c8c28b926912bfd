import Irlume.Lib.Text
import Mathlib.Data.List.Forall2

/-!
# Bytes and decimals of a text

A string is stored as its UTF-8 bytes, so what works on bytes goes through `bytes` and comes back through
`ofBytes`. A canonical decimal is digits with no leading zero.
-/

namespace Irlume.Lib

/-! ## UTF-8 -/

/-- UTF-8. -/
def bytes (t : Text) : List UInt8 := t.flatMap String.utf8EncodeChar

/-- `str::len`. -/
def byteLength (t : Text) : Nat := (bytes t).length

/-- `String::from_utf8`. -/
def ofBytes (bs : List UInt8) : Option Text := bs.toByteArray.utf8Decode?.map Array.toList

theorem ofBytes_bytes (t : Text) : ofBytes (bytes t) = some t := by
  have h : (bytes t).toByteArray = t.utf8Encode := rfl
  rw [ofBytes, h, List.utf8Decode?_utf8Encode]
  rfl

variable {t : Text}

/-- `ofBytes` takes exactly the bytes of a text. -/
theorem ofBytes_eq_some_iff {bs : List UInt8} : ofBytes bs = some t ↔ bytes t = bs := by
  constructor
  · intro h
    obtain ⟨cs, hcs, rfl⟩ := Option.map_eq_some_iff.1 h
    have hsome : bs.toByteArray.utf8Decode?.isSome := by
      rw [hcs]
      rfl
    have hback : (bs.toByteArray.utf8Decode?.get hsome).toList.utf8Encode = bs.toByteArray :=
      ByteArray.utf8Encode_get_utf8Decode?
    simp only [hcs, Option.get_some] at hback
    exact List.toByteArray_inj.1 hback
  · intro h
    rw [← h]
    exact ofBytes_bytes t

theorem bytes_injective {t u : Text} (h : bytes t = bytes u) : t = u := by
  have hu := ofBytes_bytes u
  rw [← h, ofBytes_bytes] at hu
  exact Option.some.inj hu

@[simp]
theorem bytes_nil : bytes [] = [] := rfl

@[simp]
theorem bytes_append (t u : Text) : bytes (t ++ u) = bytes t ++ bytes u := List.flatMap_append

theorem byteLength_append (t u : Text) : byteLength (t ++ u) = byteLength t + byteLength u := by
  rw [byteLength, bytes_append, List.length_append]
  rfl

theorem bytes_cons (c : Char) (t : Text) : bytes (c :: t) = String.utf8EncodeChar c ++ bytes t := rfl

theorem byteLength_ascii (h : ∀ c ∈ t, c.toNat < 128) : byteLength t = t.length := by
  induction t with
  | nil => rfl
  | cons c t ih =>
    have hsize : c.utf8Size = 1 := Char.utf8Size_eq_one_iff.2 (Nat.le_of_lt_succ (h c List.mem_cons_self))
    rw [byteLength, bytes_cons, List.length_append, String.length_utf8EncodeChar, hsize, List.length_cons,
      ← byteLength, ih fun d hd => h d (List.mem_cons_of_mem _ hd), Nat.add_comm]

def asciiChar (b : UInt8) : Char := Char.ofNat b.toNat

theorem forall_uint8 {P : UInt8 → Prop} (h : ∀ n : Fin 256, P (UInt8.ofNat n)) (b : UInt8) : P b := by
  have hb := h ⟨b.toNat, b.toNat_lt⟩
  simpa using hb

theorem utf8EncodeChar_asciiChar {b : UInt8} (h : b < 128) :
    String.utf8EncodeChar (asciiChar b) = [b] := by
  revert h
  apply forall_uint8 _ b
  decide +kernel

/-! ## Decimals -/

def decimalValue (t : Text) : Nat := t.foldl (fun n c => n * 10 + (c.toNat - '0'.toNat)) 0

/-- Digits, and no leading zero but in `0`. -/
def canonicalDecimal (t : Text) : Bool :=
  t ≠ [] && t.all Char.isDigit && !(decide (1 < t.length) && t.head? = some '0')

def decimal (n : Nat) : Text := (toString n).toList

theorem decimal_eq (n : Nat) : decimal n = Nat.toDigits 10 n := by
  rw [decimal, Nat.toString_eq_repr, Nat.toList_repr]

variable {c : Char}

theorem decimal_isDigit {n : Nat} (h : c ∈ decimal n) : c.isDigit = true := by
  rw [decimal_eq] at h
  exact Nat.isDigit_of_mem_toDigits (by omega) (by omega) h

theorem digitChar_value {d : Nat} (h : d < 10) : d.digitChar.toNat - '0'.toNat = d := by
  have hall : ∀ d : Fin 10, d.val.digitChar.toNat - '0'.toNat = d.val := by decide
  exact hall ⟨d, h⟩

theorem digitChar_of_isDigit (h : c.isDigit = true) :
    c.toNat - '0'.toNat < 10 ∧ (c.toNat - '0'.toNat).digitChar = c := by
  have hall : ∀ d : Fin 58, 48 ≤ d.val →
      d.val - '0'.toNat < 10 ∧ (d.val - '0'.toNat).digitChar = Char.ofNat d.val := by decide
  have hrange : 48 ≤ c.toNat ∧ c.toNat ≤ 57 := by
    simp only [Char.isDigit, Bool.and_eq_true, decide_eq_true_eq] at h
    exact ⟨h.1, h.2⟩
  obtain ⟨hlt, hchar⟩ := hall ⟨c.toNat, by omega⟩ hrange.1
  rw [Char.ofNat_toNat] at hchar
  exact ⟨hlt, hchar⟩

theorem decimalValue_concat (t : Text) (c : Char) :
    decimalValue (t ++ [c]) = decimalValue t * 10 + (c.toNat - '0'.toNat) := by
  simp [decimalValue]

theorem decimalValue_decimal (n : Nat) : decimalValue (decimal n) = n := by
  rw [decimal_eq]
  induction n using Nat.strongRecOn with
  | ind n ih =>
    by_cases h : n < 10
    · rw [Nat.toDigits_of_lt_base h]
      simp only [decimalValue, List.foldl_cons, List.foldl_nil, Nat.zero_mul, Nat.zero_add]
      exact digitChar_value h
    · rw [Nat.toDigits_of_base_le (by omega) (by omega), decimalValue_concat,
        ih (n / 10) (by omega), digitChar_value (Nat.mod_lt _ (by omega))]
      omega

theorem decimal_decimalValue (hne : t ≠ []) (hdigits : ∀ c ∈ t, c.isDigit = true)
    (hzero : t.head? ≠ some '0') : decimal (decimalValue t) = t ∧ 0 < decimalValue t := by
  induction t using List.reverseRecOn with
  | nil => exact absurd rfl hne
  | append_singleton t c ih =>
    obtain ⟨hlt, hchar⟩ := digitChar_of_isDigit (hdigits c (by simp))
    rw [decimalValue_concat]
    by_cases ht : t = []
    · subst ht
      have hpos : 0 < c.toNat - '0'.toNat := by
        rcases Nat.eq_zero_or_pos (c.toNat - '0'.toNat) with h0 | h0
        · rw [h0] at hchar
          exact absurd (by rw [← hchar]; rfl) hzero
        · exact h0
      refine ⟨?_, by simpa [decimalValue] using hpos⟩
      rw [decimal_eq]
      simp only [decimalValue, List.foldl_nil, Nat.zero_mul, Nat.zero_add, List.nil_append]
      rw [Nat.toDigits_of_lt_base hlt, hchar]
    · have hhead : t.head? ≠ some '0' := by
        rwa [List.head?_append_of_ne_nil _ ht] at hzero
      obtain ⟨htail, hpos⟩ := ih ht (fun d hd => hdigits d (List.mem_append_left _ hd)) hhead
      refine ⟨?_, by omega⟩
      rw [decimal_eq] at htail ⊢
      rw [Nat.toDigits_of_base_le (by omega) (by omega)]
      have hdiv : (decimalValue t * 10 + (c.toNat - '0'.toNat)) / 10 = decimalValue t := by omega
      have hmod : (decimalValue t * 10 + (c.toNat - '0'.toNat)) % 10 = c.toNat - '0'.toNat := by omega
      rw [hdiv, hmod, htail, hchar]

theorem decimal_head {n : Nat} (h : 0 < n) : (decimal n).head? ≠ some '0' := by
  rw [decimal_eq]
  induction n using Nat.strongRecOn with
  | ind n ih =>
    by_cases hlt : n < 10
    · have hall : ∀ d : Fin 10, 0 < d.val → (some d.val.digitChar : Option Char) ≠ some '0' := by decide
      rw [Nat.toDigits_of_lt_base hlt]
      exact hall ⟨n, hlt⟩ h
    · have hne : Nat.toDigits 10 (n / 10) ≠ [] := Nat.toDigits_ne_nil
      rw [Nat.toDigits_of_base_le (by omega) (by omega), List.head?_append_of_ne_nil _ hne]
      exact ih (n / 10) (by omega) (by omega)

theorem decimal_ne_nil (n : Nat) : decimal n ≠ [] := by
  rw [decimal_eq]
  exact Nat.toDigits_ne_nil

/-- A canonical decimal is the one spelling of its number. -/
theorem canonicalDecimal_iff :
    canonicalDecimal t = true ↔ decimal (decimalValue t) = t := by
  constructor
  · intro h
    simp only [canonicalDecimal, Bool.and_eq_true, decide_eq_true_eq, Bool.not_eq_true',
      Bool.and_eq_false_iff, decide_eq_false_iff_not] at h
    obtain ⟨⟨hne, hdigits⟩, hzero⟩ := h
    have hdigits := List.all_eq_true.1 hdigits
    by_cases hhead : t.head? = some '0'
    · have hlength : t.length = 1 := by
        have hpos := List.length_pos_of_ne_nil hne
        rcases hzero with hzero | hzero
        · omega
        · exact absurd hhead hzero
      obtain ⟨c, rfl⟩ := List.length_eq_one_iff.1 hlength
      obtain rfl : c = '0' := by simpa using hhead
      decide
    · exact (decimal_decimalValue hne hdigits hhead).1
  · intro h
    rw [← h]
    generalize decimalValue t = n
    have hdigits : (decimal n).all Char.isDigit = true :=
      List.all_eq_true.2 fun c hc => decimal_isDigit hc
    simp only [canonicalDecimal, hdigits, Bool.and_eq_true, Bool.not_eq_true',
      Bool.and_eq_false_iff, decide_eq_false_iff_not]
    refine ⟨⟨by simp [decimal_ne_nil], trivial⟩, ?_⟩
    rcases Nat.eq_zero_or_pos n with rfl | hpos
    · left
      decide
    · right
      simpa using decimal_head hpos

/-! ## Cutting at a character -/

theorem splitOn_eq_iff {fields : List Text} :
    t.splitOn c = fields ↔
      fields ≠ [] ∧ [c].intercalate fields = t ∧ ∀ f ∈ fields, c ∉ f := by
  constructor
  · intro h
    rw [← h]
    refine ⟨List.splitOn_ne_nil _ _, List.intercalate_splitOn _, ?_⟩
    intro f hf
    exact not_mem_of_mem_splitOn hf
  · intro h
    obtain ⟨hne, hjoin, hfree⟩ := h
    rw [← hjoin]
    exact List.splitOn_intercalate _ hfree hne

theorem mem_intercalate {sep : Text} {fields : List Text}
    (h : c ∈ sep.intercalate fields) : c ∈ sep ∨ ∃ f ∈ fields, c ∈ f := by
  induction fields with
  | nil => cases h
  | cons f fields ih =>
    cases fields with
    | nil =>
      right
      exact ⟨f, List.mem_cons_self, by simpa [List.intercalate] using h⟩
    | cons g fields =>
      rw [List.intercalate_cons_cons, List.mem_append, List.mem_append] at h
      rcases h with (h | h) | h
      · exact .inr ⟨f, List.mem_cons_self, h⟩
      · exact .inl h
      · rcases ih h with h | ⟨g, hg, h⟩
        · exact .inl h
        · exact .inr ⟨g, List.mem_cons_of_mem _ hg, h⟩

/-- `str::split_once` at a character. -/
def splitOnceAt (c : Char) (t : Text) : Option (Text × Text) :=
  if c ∈ t then some (t.takeWhile (· ≠ c), (t.dropWhile (· ≠ c)).drop 1) else none

theorem splitOnceAt_eq_some_iff {t a b : Text} :
    splitOnceAt c t = some (a, b) ↔ t = a ++ c :: b ∧ c ∉ a := by
  constructor
  · intro h
    unfold splitOnceAt at h
    split at h
    · next hmem =>
      cases h
      obtain ⟨a, b, rfl, ha⟩ := List.eq_append_cons_of_mem hmem
      have hin : ∀ d ∈ a, decide (d ≠ c) = true := by
        intro d hd
        have hne : d ≠ c := fun heq => ha (heq ▸ hd)
        simpa using hne
      have hout : ∀ d, (c :: b).head? = some d → decide (d ≠ c) = false := by
        intro d hd
        simpa using (Option.some.inj hd).symm
      rw [takeWhile_append_of_stop hin hout, dropWhile_append_of_stop hin hout]
      exact ⟨rfl, ha⟩
    · cases h
  · rintro ⟨rfl, ha⟩
    have hin : ∀ d ∈ a, decide (d ≠ c) = true := by
      intro d hd
      have hne : d ≠ c := fun heq => ha (heq ▸ hd)
      simpa using hne
    have hout : ∀ d, (c :: b).head? = some d → decide (d ≠ c) = false := by
      intro d hd
      simpa using (Option.some.inj hd).symm
    rw [splitOnceAt, if_pos (by simp), takeWhile_append_of_stop hin hout,
      dropWhile_append_of_stop hin hout]
    rfl

/-! ## Fallible steps -/

/-- `Option::ok_or`. -/
def okOr {ε α : Type} (o : Option α) (e : ε) : Except ε α :=
  match o with
  | some a => .ok a
  | none => .error e

theorem okOr_ok_iff {ε α : Type} {o : Option α} {e : ε} {a : α} : okOr o e = .ok a ↔ o = some a := by
  cases o <;> simp [okOr]

theorem mapError_ok_iff {ε δ α : Type} {f : ε → δ} {x : Except ε α} {a : α} :
    x.mapError f = .ok a ↔ x = .ok a := by
  cases x <;> simp [Except.mapError]

theorem bind_ok_iff {ε α β : Type} {x : Except ε α} {f : α → Except ε β} {b : β} :
    (x >>= f) = .ok b ↔ ∃ a, x = .ok a ∧ f a = .ok b := by
  cases x with
  | error e =>
    constructor
    · intro h
      cases h
    · intro h
      obtain ⟨a, ha, -⟩ := h
      cases ha
  | ok a =>
    constructor
    · intro h
      exact ⟨a, rfl, h⟩
    · intro h
      obtain ⟨a', ha, h⟩ := h
      cases ha
      exact h

theorem mapM_ok_iff {ε α β : Type} {f : α → Except ε β} {as : List α} {bs : List β} :
    as.mapM f = .ok bs ↔ List.Forall₂ (fun a b => f a = .ok b) as bs := by
  induction as generalizing bs with
  | nil =>
    rw [List.mapM_nil, List.forall₂_nil_left_iff]
    exact ⟨fun h => (Except.ok.inj h).symm, fun h => h ▸ rfl⟩
  | cons a as ih =>
    rw [List.mapM_cons, bind_ok_iff, List.forall₂_cons_left_iff]
    constructor
    · intro h
      obtain ⟨b, hb, h⟩ := h
      obtain ⟨rest, hrest, h⟩ := bind_ok_iff.1 h
      exact ⟨b, rest, hb, ih.1 hrest, (Except.ok.inj h).symm⟩
    · intro h
      obtain ⟨b, rest, hb, hrest, rfl⟩ := h
      exact ⟨b, hb, bind_ok_iff.2 ⟨rest, ih.2 hrest, rfl⟩⟩

theorem exists_left_of_forall₂ {α β : Type*} {R : α → β → Prop} {as : List α} {bs : List β}
    (h : List.Forall₂ R as bs) {a : α} (ha : a ∈ as) : ∃ b ∈ bs, R a b := by
  induction h with
  | nil => cases ha
  | cons hab _ ih =>
    rcases List.mem_cons.1 ha with rfl | ha
    · exact ⟨_, List.mem_cons_self, hab⟩
    · obtain ⟨b, hb, hr⟩ := ih ha
      exact ⟨b, List.mem_cons_of_mem _ hb, hr⟩

end Irlume.Lib

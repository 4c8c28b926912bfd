import Irlume.Lib.Encoding

/-!
# Reading the fields of a byte string

A reader takes its field off the front of the bytes and leaves the rest, or fails. Integers are
little-endian. Text is decoded from UTF-16 units, or from bytes with the replacement character where
they are no UTF-8.
-/

namespace Irlume.Lib

/-- A reader over the bytes that are left. -/
abbrev Reader := StateT (List UInt8) Option

namespace Reader

def take (n : Nat) : Reader (List UInt8) := fun bs =>
  if bs.length < n then none else some (bs.splitAt n)

def littleEndian (bs : List UInt8) : Nat := bs.foldr (fun b n => b.toNat + 256 * n) 0

def u16 : Reader UInt16 := do return UInt16.ofNat (littleEndian (← take 2))

def u32 : Reader UInt32 := do return UInt32.ofNat (littleEndian (← take 4))

def u64 : Reader UInt64 := do return UInt64.ofNat (littleEndian (← take 8))

/-- The bytes are read to their end. -/
def parseAll {α : Type} (r : Reader α) (bs : List UInt8) : Option α :=
  match r bs with
  | some (a, []) => some a
  | _ => none

end Reader

/-- An array of exactly `n` elements. -/
def toVector? {α : Type} (n : Nat) (l : List α) : Option (Vector α n) :=
  if h : l.length = n then some ⟨l.toArray, h⟩ else none

/-! ## UTF-16 -/

def utf16Units : List UInt8 → List UInt16
  | a :: b :: bs => UInt16.ofNat (Reader.littleEndian [a, b]) :: utf16Units bs
  | _ => []

def isSurrogate (u : UInt16) : Bool := 0xd800 ≤ u && u ≤ 0xdfff

def isTrailing (u : UInt16) : Bool := 0xdc00 ≤ u && u ≤ 0xdfff

def surrogatePair (u v : UInt16) : Char :=
  Char.ofNat (0x10000 + (u.toNat - 0xd800) * 0x400 + (v.toNat - 0xdc00))

/-- `String::from_utf16`. -/
def fromUtf16 : List UInt16 → Option Text
  | [] => some []
  | [u] => if isSurrogate u then none else some [Char.ofNat u.toNat]
  | u :: v :: us =>
    if !isSurrogate u then (fromUtf16 (v :: us)).map (Char.ofNat u.toNat :: ·)
    else if !isTrailing u && isTrailing v then (fromUtf16 us).map (surrogatePair u v :: ·)
    else none

/-! ## Lossy UTF-8 -/

/-- U+FFFD. -/
def replacement : Char := Char.ofNat 0xfffd

def isContinuation (b : UInt8) : Bool := 0x80 ≤ b && b ≤ 0xbf

/-- The second bytes that may follow a first one of three or four. -/
def secondFits (b c : UInt8) : Bool :=
  if b = 0xe0 then 0xa0 ≤ c && c ≤ 0xbf
  else if b = 0xed then 0x80 ≤ c && c ≤ 0x9f
  else if b = 0xf0 then 0x90 ≤ c && c ≤ 0xbf
  else if b = 0xf4 then 0x80 ≤ c && c ≤ 0x8f
  else isContinuation c

/-- The character whose first byte has the payload `lead` and that goes on with `rest`. -/
def codePoint (lead : Nat) (rest : List UInt8) : Char :=
  Char.ofNat (rest.foldl (fun n b => n * 64 + b.toNat % 64) lead)

/-- The character a byte starts, and how many of the bytes after it belong to it. What is no
character is replaced up to the byte at which it breaks off. -/
def lossyChar (b : UInt8) (rest : List UInt8) : Char × Nat :=
  if b < 0x80 then (asciiChar b, 0)
  else if 0xc2 ≤ b && b ≤ 0xdf then
    match rest with
    | c :: _ => if isContinuation c then (codePoint (b.toNat % 32) [c], 1) else (replacement, 0)
    | [] => (replacement, 0)
  else if 0xe0 ≤ b && b ≤ 0xef then
    match rest with
    | c :: d :: _ =>
      if !secondFits b c then (replacement, 0)
      else if isContinuation d then (codePoint (b.toNat % 16) [c, d], 2)
      else (replacement, 1)
    | [c] => if secondFits b c then (replacement, 1) else (replacement, 0)
    | [] => (replacement, 0)
  else if 0xf0 ≤ b && b ≤ 0xf4 then
    match rest with
    | c :: d :: rest =>
      if !secondFits b c then (replacement, 0)
      else if !isContinuation d then (replacement, 1)
      else
        match rest with
        | e :: _ => if isContinuation e then (codePoint (b.toNat % 8) [c, d, e], 3) else (replacement, 2)
        | [] => (replacement, 2)
    | [c] => if secondFits b c then (replacement, 1) else (replacement, 0)
    | [] => (replacement, 0)
  else (replacement, 0)

/-- Decode at most `n` characters. -/
def lossyChars : Nat → List UInt8 → Text
  | n + 1, b :: rest => (lossyChar b rest).1 :: lossyChars n (rest.drop (lossyChar b rest).2)
  | _, _ => []

/-- `String::from_utf8_lossy`. -/
def fromUtf8Lossy (bs : List UInt8) : Text := lossyChars bs.length bs

end Irlume.Lib

/-!
## What a reader read

A field that a reader took was written at the front of the bytes.
-/

namespace Irlume.Lib.Reader

variable {α β : Type} {bs rest : List UInt8}

/-! ## Steps of a reader -/

variable {r : Reader α}

theorem bind_eq_some_iff {f : α → Reader β} {b : β} :
    (r >>= f) bs = some (b, rest) ↔ ∃ a mid, r bs = some (a, mid) ∧ f a mid = some (b, rest) := by
  constructor
  · intro h
    obtain ⟨⟨a, mid⟩, hread, h⟩ := Option.bind_eq_some_iff.1 h
    exact ⟨a, mid, hread, h⟩
  · rintro ⟨a, mid, hread, h⟩
    exact Option.bind_eq_some_iff.2 ⟨(a, mid), hread, h⟩

theorem pure_eq_some_iff {a b : α} : (pure a : Reader α) bs = some (b, rest) ↔ a = b ∧ bs = rest := by
  constructor
  · intro h
    exact Prod.mk.inj (Option.some.inj h)
  · rintro ⟨rfl, rfl⟩
    rfl

theorem unless_eq_some_iff {c : Prop} [Decidable c] {f : β → Reader α} {a : α} :
    (if c then failure >>= f else r) bs = some (a, rest) ↔ ¬ c ∧ r bs = some (a, rest) := by
  split
  · next hc => exact ⟨nofun, fun h => absurd hc h.1⟩
  · next hc => exact ⟨fun h => ⟨hc, h⟩, fun h => h.2⟩

theorem take_eq_some_iff {n : Nat} {field : List UInt8} :
    take n bs = some (field, rest) ↔ field.length = n ∧ bs = field ++ rest := by
  unfold take
  constructor
  · intro h
    split at h
    · cases h
    · next hlength =>
      rw [List.splitAt_eq] at h
      cases h
      refine ⟨?_, (List.take_append_drop n bs).symm⟩
      rw [List.length_take]
      omega
  · rintro ⟨rfl, rfl⟩
    rw [if_neg (by simp), List.splitAt_eq, List.take_left, List.drop_left]

/-! ## Integers -/

/-- The `n` lowest bytes of a number, the lowest first. -/
def lowBytes : Nat → Nat → List UInt8
  | 0, _ => []
  | n + 1, v => UInt8.ofNat v :: lowBytes n (v / 256)

@[simp]
theorem length_lowBytes {n v : Nat} : (lowBytes n v).length = n := by
  induction n generalizing v with
  | zero => rfl
  | succ n ih =>
    show (lowBytes n (v / 256)).length + 1 = n + 1
    rw [ih]

theorem littleEndian_cons {b : UInt8} : littleEndian (b :: bs) = b.toNat + 256 * littleEndian bs := rfl

theorem littleEndian_lt : littleEndian bs < 256 ^ bs.length := by
  induction bs with
  | nil => exact Nat.one_pos
  | cons b bs ih =>
    have hb := b.toNat_lt
    rw [littleEndian_cons, List.length_cons, Nat.pow_succ]
    omega

theorem littleEndian_lowBytes {n v : Nat} (hv : v < 256 ^ n) : littleEndian (lowBytes n v) = v := by
  induction n generalizing v with
  | zero =>
    have hzero : v = 0 := by omega
    rw [hzero]
    rfl
  | succ n ih =>
    have hquotient : v / 256 < 256 ^ n := by
      rw [Nat.pow_succ] at hv
      omega
    show (UInt8.ofNat v).toNat + 256 * littleEndian (lowBytes n (v / 256)) = v
    rw [ih hquotient, UInt8.toNat_ofNat']
    omega

theorem lowBytes_littleEndian : lowBytes bs.length (littleEndian bs) = bs := by
  induction bs with
  | nil => rfl
  | cons b bs ih =>
    have hb := b.toNat_lt
    have hquotient : (b.toNat + 256 * littleEndian bs) / 256 = littleEndian bs := by omega
    have hlow : UInt8.ofNat (b.toNat + 256 * littleEndian bs) = b := by
      apply UInt8.toNat_inj.1
      rw [UInt8.toNat_ofNat']
      omega
    show UInt8.ofNat (b.toNat + 256 * littleEndian bs) :: lowBytes bs.length _ = b :: bs
    rw [hlow, littleEndian_cons, hquotient, ih]

def bytes16 (v : UInt16) : List UInt8 := lowBytes 2 v.toNat

def bytes32 (v : UInt32) : List UInt8 := lowBytes 4 v.toNat

/-- An integer read by `f` from `n` bytes is what `g` writes. -/
theorem integer_eq_some_iff {n : Nat} {f : Nat → β} {g : β → Nat} (hlt : ∀ b, g b < 256 ^ n)
    (hgf : ∀ k < 256 ^ n, g (f k) = k) (hfg : ∀ b, f (g b) = b) {b : β} :
    (take n >>= fun field => pure (f (littleEndian field))) bs = some (b, rest) ↔ bs = lowBytes n (g b) ++ rest := by
  rw [bind_eq_some_iff]
  constructor
  · rintro ⟨field, mid, htake, hvalue⟩
    obtain ⟨hlength, rfl⟩ := take_eq_some_iff.1 htake
    obtain ⟨rfl, rfl⟩ := pure_eq_some_iff.1 hvalue
    have hbound := @littleEndian_lt field
    rw [hlength] at hbound
    rw [hgf _ hbound, ← hlength, lowBytes_littleEndian]
  · rintro rfl
    refine ⟨lowBytes n (g b), rest, take_eq_some_iff.2 ⟨length_lowBytes, rfl⟩, ?_⟩
    rw [littleEndian_lowBytes (hlt b)]
    exact pure_eq_some_iff.2 ⟨hfg b, rfl⟩

theorem u16_eq_some_iff {v : UInt16} : u16 bs = some (v, rest) ↔ bs = bytes16 v ++ rest :=
  integer_eq_some_iff UInt16.toNat_lt (fun _ => UInt16.toNat_ofNat_of_lt') fun _ => UInt16.ofNat_toNat

theorem u32_eq_some_iff {v : UInt32} : u32 bs = some (v, rest) ↔ bs = bytes32 v ++ rest :=
  integer_eq_some_iff UInt32.toNat_lt (fun _ => UInt32.toNat_ofNat_of_lt') fun _ => UInt32.ofNat_toNat

theorem parseAll_eq_some_iff {a : α} : parseAll r bs = some a ↔ r bs = some (a, []) := by
  unfold parseAll
  split
  · next heq => rw [heq]; simp
  · next hnot =>
    constructor
    · nofun
    · exact fun h => absurd h (hnot a)

end Irlume.Lib.Reader

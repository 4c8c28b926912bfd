import Irlume.Lib.Text

/-!
# Base64

The standard alphabet with padding. The decoder takes only the one spelling with zeros in the bits that are left
over.
-/

namespace Irlume.Lib.Base64

def alphabet : Text := "ABCDEFGHIJKLMNOPQRSTUVWXYZabcdefghijklmnopqrstuvwxyz0123456789+/"

def digit (n : Nat) : Char := alphabet.getD n 'A'

def value (c : Char) : Option Nat :=
  let i := alphabet.idxOf c
  if i < 64 then some i else none

def pad : Char := '='

def encode : List UInt8 → Text
  | [] => []
  | [a] => [digit (a.toNat / 4), digit (a.toNat % 4 * 16), pad, pad]
  | [a, b] => [digit (a.toNat / 4), digit (a.toNat % 4 * 16 + b.toNat / 16), digit (b.toNat % 16 * 4), pad]
  | a :: b :: c :: rest =>
    digit (a.toNat / 4) :: digit (a.toNat % 4 * 16 + b.toNat / 16) :: digit (b.toNat % 16 * 4 + c.toNat / 64) ::
      digit (c.toNat % 64) :: encode rest

def decodeLast (p q r : Char) : Option (List UInt8) := do
  let x ← value p
  let y ← value q
  if r = pad then
    if y % 16 = 0 then some [UInt8.ofNat (x * 4 + y / 16)] else none
  else do
    let z ← value r
    if z % 4 = 0 then some [UInt8.ofNat (x * 4 + y / 16), UInt8.ofNat (y % 16 * 16 + z / 4)] else none

def decode : Text → Option (List UInt8)
  | [] => some []
  | p :: q :: r :: s :: rest =>
    if s = pad then if rest = [] then decodeLast p q r else none
    else do
      let x ← value p
      let y ← value q
      let z ← value r
      let w ← value s
      let tail ← decode rest
      return UInt8.ofNat (x * 4 + y / 16) :: UInt8.ofNat (y % 16 * 16 + z / 4) :: UInt8.ofNat (z % 4 * 64 + w) :: tail
  | _ => none

/-! ## What is encoded decodes -/

theorem value_digit {n : Nat} (h : n < 64) : value (digit n) = some n := by
  have hall : ∀ i : Fin 64, value (digit i) = some i.1 := by decide +kernel
  exact hall ⟨n, h⟩

theorem digit_ne_pad {n : Nat} (h : n < 64) : digit n ≠ pad := by
  have hall : ∀ i : Fin 64, digit i ≠ pad := by decide +kernel
  exact hall ⟨n, h⟩

/-- **What is encoded decodes.** -/
theorem decode_encode (b : List UInt8) : decode (encode b) = some b := by
  induction b using encode.induct with
  | case1 => rfl
  | case2 a =>
    have ha := a.toNat_lt
    have hfirst : a.toNat / 4 * 4 + a.toNat % 4 * 16 / 16 = a.toNat := by omega
    have hlast : a.toNat % 4 * 16 % 16 = 0 := by omega
    rw [encode, decode, if_pos rfl, if_pos rfl, decodeLast, value_digit (by omega), value_digit (by omega)]
    simp only [Option.bind_eq_bind, Option.bind_some]
    rw [if_pos trivial, if_pos hlast, hfirst, UInt8.ofNat_toNat]
  | case3 a b =>
    have ha := a.toNat_lt
    have hb := b.toNat_lt
    have hfirst : a.toNat / 4 * 4 + (a.toNat % 4 * 16 + b.toNat / 16) / 16 = a.toNat := by omega
    have hsecond : (a.toNat % 4 * 16 + b.toNat / 16) % 16 * 16 + b.toNat % 16 * 4 / 4 = b.toNat := by omega
    have hlast : b.toNat % 16 * 4 % 4 = 0 := by omega
    rw [encode, decode, if_pos rfl, if_pos rfl, decodeLast, value_digit (by omega), value_digit (by omega)]
    simp only [Option.bind_eq_bind, Option.bind_some]
    rw [if_neg (digit_ne_pad (by omega)), value_digit (by omega)]
    simp only [Option.bind_some]
    rw [if_pos hlast, hfirst, hsecond, UInt8.ofNat_toNat, UInt8.ofNat_toNat]
  | case4 a b c rest ih =>
    have ha := a.toNat_lt
    have hb := b.toNat_lt
    have hc := c.toNat_lt
    have hfirst : a.toNat / 4 * 4 + (a.toNat % 4 * 16 + b.toNat / 16) / 16 = a.toNat := by omega
    have hsecond : (a.toNat % 4 * 16 + b.toNat / 16) % 16 * 16 + (b.toNat % 16 * 4 + c.toNat / 64) / 4 = b.toNat := by
      omega
    have hthird : (b.toNat % 16 * 4 + c.toNat / 64) % 4 * 64 + c.toNat % 64 = c.toNat := by omega
    rw [encode, decode, if_neg (digit_ne_pad (by omega)), value_digit (by omega), value_digit (by omega),
      value_digit (by omega), value_digit (by omega), ih]
    simp only [Option.bind_eq_bind, Option.bind_some, Option.pure_def, hfirst, hsecond, hthird, UInt8.ofNat_toNat]

theorem length_encode (b : List UInt8) : (encode b).length = 4 * ((b.length + 2) / 3) := by
  induction b using encode.induct with
  | case1 => rfl
  | case2 a => simp [encode]
  | case3 a b => simp [encode]
  | case4 a b c rest ih =>
    simp only [encode, List.length_cons, ih]
    omega

end Irlume.Lib.Base64

import Irlume.Lib.Encoding
import Irlume.Lib.Saturating

/-!
# JSON objects, and how long they are

Objects of names and values that need no escapes, as a serializer without blanks writes them, and a bound on their
length from the lengths of what is in them.
-/

namespace Irlume.Lib

def jsonString (t : Text) : Text := '\x22' :: t ++ ['\x22']

def jsonBool (b : Bool) : Text := if b then "true".toList else "false".toList

def jsonObject (fields : List (Text × Text)) : Text :=
  '\x7b' :: [','].intercalate (fields.map fun field => jsonString field.1 ++ ':' :: field.2) ++ ['\x7d']

/-! ## Lengths -/

theorem byteLength_cons_le (c : Char) (t : Text) : byteLength (c :: t) ≤ 4 + byteLength t := by
  have hchar : (String.utf8EncodeChar c).length ≤ 4 := by
    rw [String.length_utf8EncodeChar]
    exact c.utf8Size_le_four
  rw [byteLength, bytes_cons, List.length_append]
  exact Nat.add_le_add_right hchar _

theorem byteLength_le (t : Text) : byteLength t ≤ 4 * t.length := by
  induction t with
  | nil => exact Nat.zero_le _
  | cons c t ih =>
    have h := byteLength_cons_le c t
    rw [List.length_cons]
    omega

theorem byteLength_decimal_le {n : Nat} (h : n ≤ u64Max) : byteLength (decimal n) ≤ 80 := by
  have hlength : (decimal n).length ≤ 20 := by
    rw [decimal_eq, Nat.length_toDigits_le_iff (by decide) (by decide)]
    have hmax : u64Max < 10 ^ 20 := by decide
    omega
  have hbytes := byteLength_le (decimal n)
  omega

theorem byteLength_jsonString_le (t : Text) : byteLength (jsonString t) ≤ byteLength t + 8 := by
  have hopen := byteLength_cons_le '\x22' (t ++ ['\x22'])
  have hclose : byteLength ['\x22'] = 1 := by decide
  rw [byteLength_append, hclose] at hopen
  change byteLength ('\x22' :: (t ++ ['\x22'])) ≤ _
  omega

theorem byteLength_jsonBool_le (b : Bool) : byteLength (jsonBool b) ≤ 5 := by
  cases b <;> decide

/-- A bound on the length of the fields of an object. -/
def fieldsLength (fields : List (Text × Text)) : Nat :=
  (fields.map fun field => byteLength field.1 + byteLength field.2 + 16).sum

theorem byteLength_jsonObject_le (fields : List (Text × Text)) :
    byteLength (jsonObject fields) ≤ fieldsLength fields + 8 := by
  have hinner : byteLength ([','].intercalate (fields.map fun field => jsonString field.1 ++ ':' :: field.2)) ≤
      fieldsLength fields := by
    induction fields with
    | nil => exact Nat.zero_le _
    | cons field fields ih =>
      have hfield : byteLength (jsonString field.1 ++ ':' :: field.2) ≤ byteLength field.1 + byteLength field.2 + 12 := by
        have hname := byteLength_jsonString_le field.1
        have hvalue := byteLength_cons_le ':' field.2
        rw [byteLength_append]
        omega
      have hsum : fieldsLength (field :: fields) =
          byteLength field.1 + byteLength field.2 + 16 + fieldsLength fields := rfl
      have hcomma : byteLength [','] = 1 := by decide
      cases fields with
      | nil =>
        simp only [List.map_cons, List.map_nil, List.intercalate_singleton]
        omega
      | cons next rest =>
        rw [List.map_cons, List.intercalate_cons_of_ne_nil (by simp), byteLength_append, byteLength_append]
        omega
  have hopen := byteLength_cons_le '\x7b'
    ([','].intercalate (fields.map fun field => jsonString field.1 ++ ':' :: field.2) ++ ['\x7d'])
  have hclose : byteLength ['\x7d'] = 1 := by decide
  rw [byteLength_append, hclose] at hopen
  change byteLength ('\x7b' :: (_ ++ ['\x7d'])) ≤ _
  omega

end Irlume.Lib

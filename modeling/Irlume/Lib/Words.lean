import Irlume.Lib.Text

/-!
# The words of a text

What stands between its blanks.
-/

namespace Irlume.Lib

/-- `str::split_whitespace`. -/
def words (t : Text) : List Text := (t.splitOnP isWhitespace).filter (· ≠ [])

theorem words_append_blank {c : Char} (hc : isWhitespace c = true) (x y : Text) :
    words (x ++ c :: y) = words x ++ words y := by
  rw [words, List.splitOnP_append_cons x y hc, List.filter_append]
  rfl

theorem words_word {w : Text} (hne : w ≠ []) (h : ∀ c ∈ w, isWhitespace c = false) : words w = [w] := by
  rw [words, List.splitOnP_eq_singleton h, List.filter_cons_of_pos (by simpa using hne)]
  rfl

theorem words_append_of_blank {t : Text} (h : ∀ c ∈ t, isWhitespace c = true) (x : Text) :
    words (t ++ x) = words x := by
  induction t with
  | nil => rfl
  | cons c t ih =>
    have hcons := words_append_blank (h c List.mem_cons_self) [] (t ++ x)
    rw [List.nil_append] at hcons
    rw [List.cons_append, hcons, ih fun d hd => h d (List.mem_cons_of_mem _ hd)]
    rfl

end Irlume.Lib

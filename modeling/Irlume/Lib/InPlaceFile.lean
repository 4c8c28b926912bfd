import Mathlib.Data.List.Basic

/-!
# A file written in place

A file whose bytes are changed where they are. What a reader sees (`visible`) is every change so far, what
survives a power loss (`durable`) those up to the last sync; of the changes after it, each may reach the disk
or be lost by itself. So what is to hold of the file whatever is lost has to hold of what was synced, and be
kept by every change since, one at a time (`InPlaceFile.Keeps`).
-/

namespace Irlume.Lib

/-- A change that is lost or kept by itself. -/
inductive FileEdit where
  | put (i : Nat) (b : UInt8)
  | resize (n : Nat)

/-- The bytes with as many zeros behind them as makes them `n`. -/
def padded (c : List UInt8) (n : Nat) : List UInt8 := c ++ List.replicate (n - c.length) 0

def FileEdit.apply (c : List UInt8) : FileEdit → List UInt8
  | .put i b => (padded c (i + 1)).set i b
  | .resize n => (padded c n).take n

/-- The bytes from one place on, one change each. -/
def puts : Nat → List UInt8 → List FileEdit
  | _, [] => []
  | i, b :: bs => .put i b :: puts (i + 1) bs

structure InPlaceFile where
  visible : List UInt8
  durable : List UInt8
  /-- The changes since the last sync, in order. -/
  pending : List FileEdit

namespace InPlaceFile

def settled (c : List UInt8) : InPlaceFile := ⟨c, c, []⟩

def change (f : InPlaceFile) (es : List FileEdit) : InPlaceFile :=
  { f with visible := es.foldl FileEdit.apply f.visible, pending := f.pending ++ es }

def write (f : InPlaceFile) (i : Nat) (bs : List UInt8) : InPlaceFile := f.change (puts i bs)

def resize (f : InPlaceFile) (n : Nat) : InPlaceFile := f.change [.resize n]

def sync (f : InPlaceFile) : InPlaceFile := settled f.visible

/-- A power loss. `kept` says of each change since the last sync whether it reached the disk; those it says
nothing of did not. -/
def powerLoss (f : InPlaceFile) (kept : List Bool) : InPlaceFile :=
  settled (((f.pending.zip kept).filterMap fun (e, k) => if k then some e else none).foldl FileEdit.apply f.durable)

/-! ## What no power loss takes -/

/-- `P` holds of what is seen and of what any power loss leaves. -/
structure Keeps (P : List UInt8 → Prop) (f : InPlaceFile) : Prop where
  visible : P f.visible
  durable : P f.durable
  pending : ∀ e ∈ f.pending, ∀ c, P c → P (e.apply c)

variable {P : List UInt8 → Prop} {f : InPlaceFile} {es : List FileEdit} {c : List UInt8}

theorem foldl_keeps (hes : ∀ e ∈ es, ∀ c, P c → P (e.apply c)) (hc : P c) : P (es.foldl FileEdit.apply c) := by
  induction es generalizing c with
  | nil => exact hc
  | cons e es ih =>
    exact ih (fun e' he' => hes e' (List.mem_cons_of_mem _ he')) (hes e List.mem_cons_self c hc)

theorem keeps_settled (hc : P c) : (settled c).Keeps P := ⟨hc, hc, nofun⟩

theorem Keeps.change (h : f.Keeps P) (hes : ∀ e ∈ es, ∀ c, P c → P (e.apply c)) : (f.change es).Keeps P := by
  refine ⟨foldl_keeps hes h.visible, h.durable, fun e he => ?_⟩
  rcases List.mem_append.1 he with he | he
  · exact h.pending e he
  · exact hes e he

theorem Keeps.sync (h : f.Keeps P) : f.sync.Keeps P := keeps_settled h.visible

theorem Keeps.powerLoss (h : f.Keeps P) (kept : List Bool) : (f.powerLoss kept).Keeps P := by
  refine keeps_settled (foldl_keeps (fun e he => ?_) h.durable)
  obtain ⟨⟨e', k⟩, hmem, heq⟩ := List.mem_filterMap.1 he
  cases k with
  | false => cases heq
  | true =>
    cases heq
    exact h.pending _ (List.of_mem_zip hmem).1

end InPlaceFile

/-! ## What a write leaves -/

section Puts

variable {file bs : List UInt8} {i j n : Nat} {b x : UInt8}

theorem length_padded (file : List UInt8) (n : Nat) : (padded file n).length = max file.length n := by
  rw [padded, List.length_append, List.length_replicate]
  omega

theorem padded_of_le (h : n ≤ file.length) : padded file n = file := by
  rw [padded, Nat.sub_eq_zero_of_le h, List.replicate_zero, List.append_nil]

section

variable (h : file[j]? = some x)

include h

theorem getElem?_padded (n : Nat) : (padded file n)[j]? = some x := by
  rw [padded, List.getElem?_append_left (List.getElem?_eq_some_iff.1 h).1, h]

theorem getElem?_put (hb : i = j → b = x) : ((FileEdit.put i b).apply file)[j]? = some x := by
  rw [FileEdit.apply, List.getElem?_set]
  by_cases hij : i = j
  · subst hij
    have hlt : i < (padded file (i + 1)).length := by
      rw [length_padded]
      omega
    rw [if_pos rfl, if_pos hlt, hb rfl]
  · rw [if_neg hij]
    exact getElem?_padded h _

theorem getElem?_resize (hj : j < n) : ((FileEdit.resize n).apply file)[j]? = some x := by
  rw [FileEdit.apply, List.getElem?_take_of_lt hj]
  exact getElem?_padded h n

end

theorem mem_puts {e : FileEdit} (h : e ∈ puts i bs) : ∃ j b, e = .put j b ∧ i ≤ j ∧ bs[j - i]? = some b := by
  induction bs generalizing i with
  | nil => cases h
  | cons b bs ih =>
    rcases List.mem_cons.1 h with rfl | h
    · exact ⟨i, b, rfl, Nat.le_refl i, by rw [Nat.sub_self]; rfl⟩
    · obtain ⟨j, b', rfl, hle, hb⟩ := ih h
      refine ⟨j, b', rfl, by omega, ?_⟩
      rw [show j - i = j - (i + 1) + 1 by omega]
      exact hb

theorem apply_put (file d : List UInt8) (b : UInt8) :
    (FileEdit.put file.length b).apply (file ++ d) = file ++ b :: d.drop 1 := by
  rw [FileEdit.apply]
  cases d with
  | nil =>
    have hpad : padded (file ++ []) (file.length + 1) = file ++ [0] := by simp [padded]
    rw [hpad, List.set_append_right _ _ (Nat.le_refl _), Nat.sub_self]
    rfl
  | cons x d =>
    have hle : file.length + 1 ≤ (file ++ x :: d).length := by simp
    rw [padded_of_le hle, List.set_append_right _ _ (Nat.le_refl _), Nat.sub_self]
    rfl

theorem foldl_puts (file d bs : List UInt8) :
    (puts file.length bs).foldl FileEdit.apply (file ++ d) = file ++ bs ++ d.drop bs.length := by
  induction bs generalizing file d with
  | nil => simp [puts]
  | cons b bs ih =>
    have hnext := ih (file ++ [b]) (d.drop 1)
    rw [List.length_append, List.length_singleton, List.drop_drop] at hnext
    rw [puts, List.foldl_cons, apply_put, ← List.singleton_append, ← List.append_assoc, hnext,
      List.append_assoc file, List.singleton_append, List.length_cons, Nat.add_comm]

theorem apply_resize (h : n ≤ file.length) : (FileEdit.resize n).apply file = file.take n := by
  rw [FileEdit.apply, padded_of_le h]

end Puts

end Irlume.Lib

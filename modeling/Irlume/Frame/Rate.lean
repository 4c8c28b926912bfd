import Irlume.Frame.Trackers
import Irlume.Lib.Rings

/-!
# The rate window

`RateWindow` of `rate_gate.rs`. The deltas telescope, so their sum is the distance of two accepted timestamps
and fits in 64 bits.
-/

namespace Irlume.Frame

open Irlume.Lib

def rateWindowCapacity : Nat := 30

inductive RateWindowError where
  | nonIncreasing (previous current : Int64)
  | overflow

/-- A ring of the latest deltas between accepted timestamps. -/
structure RateWindow where
  deltas : Vector Nat rateWindowCapacity
  capacity : Nat
  len : Nat
  head : Nat
  lastSuccessfulTimestampMicros : Option Int64

namespace RateWindow

def withCapacity (capacity : Nat) : RateWindow := ⟨Vector.replicate _ 0, capacity, 0, 0, none⟩

def push (w : RateWindow) (delta : Nat) : RateWindow :=
  if w.capacity = 0 then w
  else if w.len < w.capacity then
    { w with
      deltas := w.deltas.setIfInBounds ((w.head + w.len) % rateWindowCapacity) delta
      len := w.len + 1 }
  else
    { w with
      deltas := w.deltas.setIfInBounds w.head delta
      head := (w.head + 1) % w.capacity }

def observeSuccess (w : RateWindow) (timestampMicros : Int64) : RateWindow × Except RateWindowError Unit :=
  match w.lastSuccessfulTimestampMicros with
  | some last =>
    match checkedSub timestampMicros.toInt last.toInt with
    | none => (w, .error .overflow)
    | some delta =>
      if delta ≤ 0 then (w, .error (.nonIncreasing last timestampMicros))
      else ({ w.push delta.toNat with lastSuccessfulTimestampMicros := some timestampMicros }, .ok ())
  | none => ({ w with lastSuccessfulTimestampMicros := some timestampMicros }, .ok ())

def reset (w : RateWindow) : RateWindow :=
  { w with deltas := Vector.replicate _ 0, len := 0, head := 0, lastSuccessfulTimestampMicros := none }

def count (w : RateWindow) : Nat := w.len

/-- The deltas held, from the oldest on. -/
def held (w : RateWindow) : List Nat := (List.range w.len).map fun i => w.deltas[(w.head + i) % w.capacity]?.getD 0

def spanUs (w : RateWindow) : Nat := w.held.sum

/-- The two sides of the comparison, in 128 bits. -/
def lhs (w : RateWindow) (floorDen : UInt32) : Nat := w.len * 1000000 * floorDen.toNat * 100

def rhs (w : RateWindow) (floorNum tolerancePercent : UInt32) : Nat :=
  w.spanUs * floorNum.toNat * tolerancePercent.toNat

def meetsFloor (w : RateWindow) (floorNum floorDen tolerancePercent : UInt32) : Bool :=
  w.rhs floorNum tolerancePercent ≤ w.lhs floorDen

end RateWindow

/-! ## Timestamps accepted -/

inductive RateEvent where
  | observeSuccess (timestampMicros : Int64)
  | reset

/-- A timestamp follows the one accepted last, by less than 2^63. -/
def Follows (last : Option Int64) (t : Int64) : Prop :=
  ∀ l, last = some l → l.toInt < t.toInt ∧ t.toInt - l.toInt < 2 ^ 63

instance (last : Option Int64) (t : Int64) : Decidable (Follows last t) :=
  decidable_of_iff (last.all fun l => l.toInt < t.toInt && t.toInt - l.toInt < 2 ^ 63) (by
    simp [Follows, Option.all_eq_true])

/-- The timestamps accepted since the last reset. -/
def accepted (events : List RateEvent) : List Int64 :=
  events.foldl (fun ts event =>
    match event with
    | .observeSuccess t => if Follows ts.getLast? t then ts ++ [t] else ts
    | .reset => []) []

/-- The differences of each timestamp and the one before it. -/
def diffs (ts : List Int64) : List Nat := List.zipWith (fun a b => (b.toInt - a.toInt).toNat) ts ts.tail

theorem length_diffs (ts : List Int64) : (diffs ts).length = ts.length - 1 := by
  simp [diffs]

theorem diffs_concat {ts : List Int64} {last : Int64} (h : ts.getLast? = some last) (t : Int64) :
    diffs (ts ++ [t]) = diffs ts ++ [(t.toInt - last.toInt).toNat] := by
  induction ts with
  | nil => cases h
  | cons a ts ih =>
    cases ts with
    | nil =>
      cases h
      rfl
    | cons b ts =>
      rw [List.getLast?_cons_cons] at h
      have hrest := ih h
      simp only [diffs, List.cons_append, List.tail_cons, List.zipWith_cons_cons] at hrest ⊢
      rw [hrest]

/-! ## The ring -/

namespace RateWindow

variable {w : RateWindow} {ds : List Nat}

/-- The ring holds the end of the list. -/
structure Holds (w : RateWindow) (ds : List Nat) : Prop where
  fits : w.capacity ≤ rateWindowCapacity
  head_lt : w.head < w.capacity
  len : w.len = min ds.length w.capacity
  filling : w.len < w.capacity → w.head = 0
  entry : ∀ i < w.len, w.deltas[(w.head + i) % w.capacity]? = ds[ds.length - w.len + i]?

theorem Holds.push (h : Holds w ds) (delta : Nat) : Holds (w.push delta) (ds ++ [delta]) := by
  obtain ⟨hfits, hhead, hlen, hfilling, hentry⟩ := h
  unfold RateWindow.push
  rw [if_neg (by omega)]
  split
  · next hroom =>
    have hzero := hfilling hroom
    have hall : w.len = ds.length := by omega
    have hindex : (w.head + w.len) % rateWindowCapacity = w.len := by
      rw [hzero, Nat.zero_add]
      exact Nat.mod_eq_of_lt (by omega)
    refine ⟨hfits, hhead, ?_, fun _ => hzero, fun i hi => ?_⟩
    · rw [List.length_append, List.length_singleton]
      dsimp only
      omega
    · dsimp only at hi ⊢
      rw [hindex, hzero, Nat.zero_add, Nat.mod_eq_of_lt (by omega), List.length_append, List.length_singleton,
        hall, Nat.sub_self, Nat.zero_add, Vector.getElem?_setIfInBounds]
      rcases Nat.lt_or_ge i w.len with hlt | hge
      · rw [if_neg (by omega), List.getElem?_append_left (by omega)]
        have hold := hentry i hlt
        rwa [hzero, Nat.zero_add, Nat.mod_eq_of_lt (by omega), hall, Nat.sub_self, Nat.zero_add] at hold
      · obtain rfl : i = ds.length := by omega
        rw [if_pos rfl, if_pos (by omega), List.getElem?_append_right le_rfl, Nat.sub_self]
        rfl
  · next hfull =>
    have hcapacity : w.len = w.capacity := by omega
    refine ⟨hfits, Nat.mod_lt _ (by omega), ?_, fun hlt => absurd hlt hfull, fun i hi => ?_⟩
    · rw [List.length_append, List.length_singleton]
      dsimp only
      omega
    · dsimp only at hi ⊢
      have hnext : ((w.head + 1) % w.capacity + i) % w.capacity = (w.head + (i + 1)) % w.capacity := by
        rw [Nat.mod_add_mod, Nat.add_assoc, Nat.add_comm 1]
      rw [hnext, List.length_append, List.length_singleton, Vector.getElem?_setIfInBounds]
      rcases Nat.lt_or_ge (i + 1) w.len with hlt | hge
      · have hother : w.head ≠ (w.head + (i + 1)) % w.capacity := by
          rcases Nat.lt_or_ge (w.head + (i + 1)) w.capacity with hlt' | hge'
          · rw [Nat.mod_eq_of_lt hlt']
            omega
          · rw [Nat.mod_eq_sub_mod hge', Nat.mod_eq_of_lt (by omega)]
            omega
        rw [if_neg hother, hentry (i + 1) hlt, List.getElem?_append_left (by omega)]
        congr 1
        omega
      · have hsame : w.head = (w.head + (i + 1)) % w.capacity := by
          rw [show i + 1 = w.capacity by omega, Nat.add_mod_right, Nat.mod_eq_of_lt hhead]
        rw [if_pos hsame, if_pos (by omega), List.getElem?_append_right (by omega)]
        rw [show ds.length + 1 - w.len + i - ds.length = 0 by omega]
        rfl

theorem Holds.held_eq (h : Holds w ds) : w.held = ds.rtake w.capacity := by
  have hlen := h.len
  apply List.ext_getElem?
  intro i
  rw [held, List.rtake, List.getElem?_map, List.getElem?_drop]
  rcases Nat.lt_or_ge i w.len with hlt | hge
  · have hentry := h.entry i hlt
    rw [List.getElem?_range hlt, Option.map_some, hentry,
      show ds.length - w.capacity + i = ds.length - w.len + i by omega, List.getElem?_eq_getElem (by omega),
      Option.getD_some]
  · rw [List.getElem?_eq_none (by rw [List.length_range]; exact hge), Option.map_none,
      List.getElem?_eq_none (by omega)]

end RateWindow

/-! ## Runs -/

/-- The sum of the last differences is the distance of two timestamps. -/
theorem sum_rtake_diffs {ts : List Int64} (h : ts.Pairwise fun a b => a.toInt < b.toInt) {k : Nat}
    {newest older : Int64} (hnewest : ts.getLast? = some newest) (hk : k < ts.length)
    (holder : ts[ts.length - 1 - k]? = some older) :
    (((diffs ts).rtake k).sum : Int) = newest.toInt - older.toInt := by
  induction ts using List.reverseRecOn generalizing k newest older with
  | nil => cases hnewest
  | append_singleton ts t ih =>
    rw [List.getLast?_concat] at hnewest
    cases hnewest
    rw [List.length_append, List.length_singleton, Nat.add_sub_cancel] at holder
    cases k with
    | zero =>
      rw [Nat.sub_zero, List.getElem?_concat_length] at holder
      cases holder
      simp
    | succ k =>
      rw [List.length_append, List.length_singleton] at hk
      obtain ⟨hts, -, hlast⟩ := List.pairwise_append.1 h
      obtain ⟨last, heq⟩ : ∃ last, ts.getLast? = some last :=
        ⟨_, List.getLast?_eq_some_getLast (List.ne_nil_of_length_pos (by omega))⟩
      have hlt := hlast last (List.mem_of_getLast? heq) t List.mem_cons_self
      rw [List.getElem?_append_left (by omega)] at holder
      have hrest := ih hts heq (k := k) (by omega) (by rw [← holder]; congr 1; omega)
      rw [diffs_concat heq, List.rtake_concat_succ, List.sum_append, List.sum_singleton, Nat.cast_add, hrest]
      omega

namespace RateWindow

def step (w : RateWindow) : RateEvent → RateWindow
  | .observeSuccess t => (w.observeSuccess t).1
  | .reset => w.reset

def after (w : RateWindow) (events : List RateEvent) : RateWindow := events.foldl step w

/-- The window has accepted these timestamps since its last reset. -/
structure Tracks (capacity : Nat) (w : RateWindow) (ts : List Int64) : Prop where
  capacity : w.capacity = capacity
  holds : Holds w (diffs ts)
  last : w.lastSuccessfulTimestampMicros = ts.getLast?
  increasing : ts.Pairwise fun a b => a.toInt < b.toInt

variable {w : RateWindow} {ts : List Int64} {capacity : Nat}

theorem Tracks.accepts (h : Tracks capacity w ts) {t : Int64} (ht : Follows ts.getLast? t) :
    (w.observeSuccess t).2 = .ok () ∧ Tracks capacity (w.observeSuccess t).1 (ts ++ [t]) := by
  obtain ⟨hcapacity, hholds, hlast, hincreasing⟩ := h
  unfold observeSuccess
  rw [hlast]
  cases heq : ts.getLast? with
  | none =>
    obtain rfl := List.getLast?_eq_none_iff.1 heq
    exact ⟨rfl, hcapacity, { hholds with }, rfl, List.pairwise_singleton ..⟩
  | some last =>
    obtain ⟨hlt, hfits⟩ := ht last heq
    have hsub : checkedSub t.toInt last.toInt = some (t.toInt - last.toInt) :=
      if_pos ⟨by omega, hfits⟩
    dsimp only
    rw [hsub]
    dsimp only
    rw [if_neg (by omega)]
    have hpushed := hholds.push (t.toInt - last.toInt).toNat
    rw [← diffs_concat heq] at hpushed
    refine ⟨rfl, ?_, { hpushed with }, List.getLast?_concat.symm, ?_⟩
    · rw [← hcapacity]
      unfold push
      dsimp only
      split
      · rfl
      · split <;> rfl
    · refine List.pairwise_append.2 ⟨hincreasing, List.pairwise_singleton .., fun a ha b hb => ?_⟩
      rw [List.mem_singleton.1 hb]
      obtain ⟨before, rfl⟩ := List.getLast?_eq_some_iff.1 heq
      rcases List.mem_append.1 ha with ha | ha
      · exact ((List.pairwise_append.1 hincreasing).2.2 a ha last List.mem_cons_self).trans hlt
      · rwa [List.mem_singleton.1 ha]

theorem Tracks.refuses (h : Tracks capacity w ts) {t : Int64} (ht : ¬ Follows ts.getLast? t) :
    (w.observeSuccess t).1 = w ∧ ∃ error, (w.observeSuccess t).2 = .error error := by
  unfold observeSuccess
  rw [h.last]
  cases heq : ts.getLast? with
  | none =>
    rw [heq] at ht
    exact absurd (fun l hl => by cases hl) ht
  | some last =>
    dsimp only
    cases hsub : checkedSub t.toInt last.toInt with
    | none => exact ⟨rfl, _, rfl⟩
    | some delta =>
      dsimp only
      split
      · exact ⟨rfl, _, rfl⟩
      · next hpos =>
        refine absurd (fun l hl => ?_) ht
        rw [heq] at hl
        cases hl
        unfold checkedSub at hsub
        split at hsub
        · next hbounds =>
          cases hsub
          omega
        · cases hsub

theorem tracks_after (hpos : 1 ≤ capacity) (hle : capacity ≤ rateWindowCapacity) (events : List RateEvent) :
    Tracks capacity ((withCapacity capacity).after events) (accepted events) := by
  have hfresh : ∀ w : RateWindow, w.capacity = capacity → Holds w.reset [] := fun w hw =>
    ⟨hw ▸ hle, Nat.lt_of_lt_of_eq hpos hw.symm, (Nat.zero_min _).symm, fun _ => rfl, fun i hi => absurd hi (Nat.not_lt_zero i)⟩
  induction events using List.reverseRecOn with
  | nil => exact ⟨rfl, { hfresh (withCapacity capacity) rfl with }, rfl, .nil⟩
  | append_singleton events event ih =>
    have hafter : (withCapacity capacity).after (events ++ [event]) =
        ((withCapacity capacity).after events).step event := List.foldl_append
    rw [hafter, accepted, List.foldl_append, ← accepted]
    cases event with
    | observeSuccess t =>
      dsimp only [List.foldl_cons, List.foldl_nil, step]
      split
      · next ht => exact (ih.accepts ht).2
      · next ht => rwa [(ih.refuses ht).1]
    | reset => exact ⟨ih.capacity, hfresh _ ih.capacity, rfl, .nil⟩

section

variable (h : Tracks capacity w ts)

include h

/-- The distance held is that of two accepted timestamps. -/
theorem Tracks.span {newest older : Int64} (hnewest : ts.getLast? = some newest)
    (holder : ts[ts.length - 1 - w.count]? = some older) : (w.spanUs : Int) = newest.toInt - older.toInt := by
  have hlen := h.holds.len
  have hpos : 0 < ts.length := List.length_pos_of_mem (List.mem_of_getLast? hnewest)
  rw [length_diffs] at hlen
  have hheld : w.held = (diffs ts).rtake w.count := by
    rw [h.holds.held_eq, List.rtake, List.rtake, count, hlen, length_diffs]
    congr 1
    omega
  rw [spanUs, hheld]
  exact sum_rtake_diffs h.increasing hnewest (by rw [count]; omega) holder

theorem Tracks.span_lt : w.spanUs < 2 ^ 64 := by
  cases heq : ts.getLast? with
  | none =>
    obtain rfl := List.getLast?_eq_none_iff.1 heq
    rw [spanUs, h.holds.held_eq]
    simp [diffs]
  | some newest =>
    have hpos : 0 < ts.length := List.length_pos_of_mem (List.mem_of_getLast? heq)
    obtain ⟨older, holder⟩ : ∃ older, ts[ts.length - 1 - w.count]? = some older :=
      ⟨_, List.getElem?_eq_getElem (by omega)⟩
    have hspan := h.span heq holder
    have hnewest := newest.toInt_lt
    have holder := older.le_toInt
    omega

/-- A window that holds a delta spans some time. -/
theorem Tracks.span_pos (hcount : 0 < w.count) : 0 < w.spanUs := by
  have hlen := h.holds.len
  rw [length_diffs] at hlen
  rw [count] at hcount
  obtain ⟨newest, hnewest⟩ : ∃ newest, ts.getLast? = some newest :=
    ⟨_, List.getLast?_eq_some_getLast (List.ne_nil_of_length_pos (by omega))⟩
  obtain ⟨before, rfl⟩ := List.getLast?_eq_some_iff.1 hnewest
  rw [List.length_append, List.length_singleton, Nat.add_sub_cancel] at hlen
  obtain ⟨older, holder⟩ : ∃ older, before[before.length - w.count]? = some older :=
    ⟨_, List.getElem?_eq_getElem (by rw [count]; omega)⟩
  have hspan := h.span hnewest (show _ = some older by
    rwa [List.length_append, List.length_singleton, Nat.add_sub_cancel,
      List.getElem?_append_left (by rw [count]; omega)])
  have hlt := (List.pairwise_append.1 h.increasing).2.2 older (List.mem_of_getElem? holder) newest List.mem_cons_self
  omega

end

/-- **The floor is exact.** -/
theorem meetsFloor_iff (hspan : 0 < w.spanUs) {n d p : UInt32} (hd : d ≠ 0) :
    w.meetsFloor n d p = true ↔
      (p.toNat : ℚ) / 100 * (n.toNat / d.toNat) ≤ w.count / (w.spanUs / 1000000) := by
  have hspan' : (0 : ℚ) < w.spanUs := by exact_mod_cast hspan
  have hd' : (0 : ℚ) < d.toNat := by
    have h : 0 < d.toNat := Nat.pos_of_ne_zero fun h => hd (UInt32.toNat_inj.1 h)
    exact_mod_cast h
  rw [meetsFloor, decide_eq_true_eq, ← Nat.cast_le (α := ℚ), rhs, lhs, count, div_div_eq_mul_div,
    div_mul_div_comm, div_le_div_iff₀ (by positivity) hspan']
  push_cast
  constructor <;> intro h <;> linarith

/-- **The window and its verdict.** The window holds the last deltas of the timestamps accepted since its last reset and
refuses the others unchanged; the deltas sum to the distance of two of these timestamps, which fits in 64 bits, and the
comparison with the floor is that of the rationals, with no overflow. An empty window meets every floor. -/
theorem rate_window_exact {capacity : Nat} (hpos : 1 ≤ capacity) (hle : capacity ≤ 30) (events : List RateEvent)
    {w : RateWindow} (hw : (withCapacity capacity).after events = w) {ts : List Int64} (hts : accepted events = ts) :
    w.held = (diffs ts).rtake capacity ∧ w.count = min (ts.length - 1) capacity ∧
      (∀ t, if Follows ts.getLast? t then (w.observeSuccess t).2 = .ok ()
        else (w.observeSuccess t).1 = w ∧ ∃ error, (w.observeSuccess t).2 = .error error) ∧
      (∀ newest older, ts.getLast? = some newest → ts[ts.length - 1 - w.count]? = some older →
        (w.spanUs : Int) = newest.toInt - older.toInt) ∧
      w.spanUs < 2 ^ 64 ∧
      ∀ n d p : UInt32, w.lhs d < 2 ^ 128 ∧ w.rhs n p < 2 ^ 128 ∧
        (0 < w.count → d ≠ 0 → (w.meetsFloor n d p = true ↔
          (p.toNat : ℚ) / 100 * (n.toNat / d.toNat) ≤ w.count / (w.spanUs / 1000000))) ∧
        (w.count = 0 → w.meetsFloor n d p = true) := by
  have htracks := tracks_after hpos hle events
  rw [hw, hts] at htracks
  have hlen := htracks.holds.len
  have hcapacity := htracks.capacity
  rw [length_diffs, hcapacity] at hlen
  have hspan := htracks.span_lt
  refine ⟨by rw [htracks.holds.held_eq, hcapacity], hlen, fun t => ?_, fun newest older => htracks.span, hspan,
    fun n d p => ⟨?_, ?_, fun hcount => meetsFloor_iff (htracks.span_pos hcount), fun hcount => ?_⟩⟩
  · split
    · next ht => exact (htracks.accepts ht).1
    · next ht => exact htracks.refuses ht
  · have hproduct : w.len * 1000000 * d.toNat < 31 * 1000000 * 2 ^ 32 :=
      Nat.mul_lt_mul'' (by omega) (UInt32.toNat_lt d)
    unfold lhs
    omega
  · have hproduct : w.spanUs * n.toNat * p.toNat < 2 ^ 64 * 2 ^ 32 * 2 ^ 32 :=
      Nat.mul_lt_mul'' (Nat.mul_lt_mul'' hspan (UInt32.toNat_lt n)) (UInt32.toNat_lt p)
    exact hproduct
  · have hempty : w.spanUs = 0 := by
      rw [count] at hcount
      rw [spanUs, held, hcount]
      rfl
    rw [meetsFloor, rhs, hempty, Nat.zero_mul, Nat.zero_mul]
    exact decide_eq_true (Nat.zero_le _)

/-- A window of two deltas, the first of three lost, and a timestamp refused. -/
theorem rate_window_exact_full :
    ((withCapacity 2).after [.observeSuccess 0, .observeSuccess 9, .observeSuccess 5, .observeSuccess 20,
      .observeSuccess 50]).held = [11, 30] :=
  (rate_window_exact (by decide) (by decide) _ rfl rfl).1.trans (by decide)

end RateWindow

end Irlume.Frame

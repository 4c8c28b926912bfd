import Irlume.Pam.Kept
import Mathlib.Data.List.Find

/-!
# Reading an adjusted line again

A line whose jumps were given new values is read again as the same line with those values: every pair of its
control names the value it named, and every pair that was not changed does what it did.
-/

namespace Irlume.Pam

open Irlume.Lib

/-! ## What a pair is spelled with -/

theorem find_valueName {v : Value} (hv : v ∈ returnValues) {rest : Text}
    (hrest : ∀ c, rest.head? = some c → c = '=' ∨ controlBlank c = true) :
    (returnValues.find? fun u => startsWith (v.name ++ rest) u.name) = some v := by
  have hall : (returnValues.all fun u => u.name.all fun c => c ≠ '=' && !controlBlank c) = true := by
    decide
  have hname : ∀ u ∈ returnValues, ∀ c ∈ u.name, c ≠ '=' ∧ controlBlank c = false := by
    intro u hu c hc
    simpa using List.all_eq_true.1 (List.all_eq_true.1 hall u hu) c hc
  have hown : ∀ v ∈ returnValues, returnValues.find? (fun u => u.name.isPrefixOf v.name) = some v := by
    decide
  have hsame : ∀ u ∈ returnValues, startsWith (v.name ++ rest) u.name = u.name.isPrefixOf v.name := by
    intro u hu
    rw [Bool.eq_iff_iff, startsWith, List.isPrefixOf_iff_prefix, List.isPrefixOf_iff_prefix]
    constructor
    · intro hstart
      rcases List.prefix_or_prefix_of_prefix hstart (List.prefix_append v.name rest) with h | ⟨more, hmore⟩
      · exact h
      · rw [← hmore] at hstart
        have htail := (List.prefix_append_right_inj _).1 hstart
        cases hm : more with
        | nil =>
          rw [hm, List.append_nil] at hmore
          exact hmore ▸ List.prefix_refl _
        | cons c cs =>
          obtain ⟨tail, htail⟩ := htail
          rw [hm, List.cons_append] at htail
          have hc := hname u hu c (by rw [← hmore, hm]; simp)
          rcases hrest c (by rw [← htail]; rfl) with heq | hblank
          · exact absurd heq hc.1
          · rw [hc.2] at hblank
            cases hblank
    · intro hstart
      exact hstart.trans (List.prefix_append _ _)
  rw [← hown v hv]
  exact List.find?_congr hsame

namespace Spelling

variable {w : Spelling} {rest : Text}

theorem Before.pairAt (h : w.Before rest) : pairAt (w.opening ++ (w.txt ++ rest)) =
    some (w.value, w.action, w.opening.length, w.opening.length + w.txt.length) := by
  have hsplit : w.opening ++ (w.txt ++ rest) =
      w.value.name ++ (w.gap ++ '=' :: (w.gap' ++ (w.txt ++ rest))) := by simp [opening]
  have hhead : ∀ c, (w.gap ++ '=' :: (w.gap' ++ (w.txt ++ rest))).head? = some c →
      c = '=' ∨ controlBlank c = true := by
    intro c hc
    cases hgap : w.gap with
    | nil =>
      rw [hgap] at hc
      exact .inl (Option.some.inj hc).symm
    | cons d ds =>
      rw [hgap] at hc
      obtain rfl := Option.some.inj hc
      exact .inr (h.gap d (by rw [hgap]; exact List.mem_cons_self))
  have hwritten : (w.gap' ++ (w.txt ++ rest)).dropWhile controlBlank = w.txt ++ rest :=
    dropWhile_append_of_stop h.gap' h.action.head
  unfold Pam.pairAt
  rw [hsplit, find_valueName h.value hhead]
  simp only [List.drop_left]
  rw [dropWhile_append_of_stop h.gap (by simp [controlBlank])]
  simp only [hwritten, h.action.actionAt, Option.map_some]
  have hlength : (w.value.name ++ (w.gap ++ '=' :: (w.gap' ++ (w.txt ++ rest)))).length -
      (w.txt ++ rest).length = w.opening.length := by
    simp [opening]
    omega
  rw [hlength]

theorem opening_head (w : Spelling) (rest : Text) :
    ∀ c, (w.opening ++ rest).head? = some c → controlBlank c = false := by
  have hname : ∀ v : Value, ∃ c cs, v.name = c :: cs ∧ controlBlank c = false := by
    intro v
    rcases v with r | _
    · cases r <;> exact ⟨_, _, rfl, by decide⟩
    · exact ⟨_, _, rfl, by decide⟩
  obtain ⟨d, ds, hv, hd⟩ := hname w.value
  intro c hc
  rw [opening, hv] at hc
  cases hc
  exact hd

theorem opening_ne_nil (w : Spelling) (rest : Text) : w.opening ++ rest ≠ [] := by
  simp [opening]

/-! ## The pairs of a control -/

theorem Before.pairsFrom (h : w.Before rest) (turns pos : Nat) :
    pairsFrom (turns + 1) pos (w.lead ++ (w.txt ++ rest)) =
      (pairsFrom turns (w.pair pos).stop rest).map (w.pair pos :: ·) := by
  have htake : (w.blanks ++ (w.opening ++ (w.txt ++ rest))).takeWhile controlBlank = w.blanks :=
    takeWhile_append_of_stop h.blanks (w.opening_head _)
  have hdrop : (w.opening ++ (w.txt ++ rest)).drop (w.opening.length + w.txt.length) = rest := by
    rw [← List.append_assoc, ← List.length_append, List.drop_left]
  rw [lead, List.append_assoc, Pam.pairsFrom]
  simp only [htake, List.drop_left, if_neg (w.opening_ne_nil _), h.pairAt, hdrop, pair, lead, List.length_append,
    Nat.add_assoc]

end Spelling

variable {turns pos : Nat} {b : Text} {pairs : List Pair}

theorem pairsFrom_blank {blanks : Text} (h : ∀ c ∈ blanks, controlBlank c = true) (turns pos : Nat) :
    pairsFrom (turns + 1) pos blanks = some [] := by
  have htake : blanks.takeWhile controlBlank = blanks := List.takeWhile_eq_self_iff.2 h
  rw [pairsFrom]
  simp only [htake, List.drop_length, if_true]

def Pair.says (p : Pair) : Value × Action := (p.value, p.action)

theorem pairsFrom_shift (h : pairsFrom turns pos b = some pairs) (pos' : Nat) :
    ∃ pairs', pairsFrom turns pos' b = some pairs' ∧ pairs'.map Pair.says = pairs.map Pair.says := by
  induction turns generalizing pos pos' b pairs with
  | zero => cases h
  | succ turns ih =>
    rcases pairsFrom_cases h with ⟨hblank, rfl⟩ | ⟨w, rest, tail, hw, rfl, htail, rfl⟩
    · exact ⟨[], pairsFrom_blank hblank _ _, rfl⟩
    · obtain ⟨tail', htail', hsays⟩ := ih htail (w.pair pos').stop
      refine ⟨w.pair pos' :: tail', ?_, ?_⟩
      · rw [hw.pairsFrom, htail']
        rfl
      · rw [List.map_cons, List.map_cons, hsays]
        rfl

theorem pairsFrom_turns {turns' : Nat} (h : pairsFrom turns pos b = some pairs) (hle : pairs.length < turns') :
    pairsFrom turns' pos b = some pairs := by
  induction turns generalizing turns' pos b pairs with
  | zero => cases h
  | succ turns ih =>
    obtain ⟨more, rfl⟩ : ∃ more, turns' = more + 1 := ⟨turns' - 1, by omega⟩
    rcases pairsFrom_cases h with ⟨hblank, rfl⟩ | ⟨w, rest, tail, hw, rfl, htail, rfl⟩
    · exact pairsFrom_blank hblank _ _
    · rw [hw.pairsFrom, ih htail (by simpa using hle)]
      rfl

theorem pairsFrom_length (h : pairsFrom turns pos b = some pairs) : pairs.length ≤ b.length := by
  induction turns generalizing pos b pairs with
  | zero => cases h
  | succ turns ih =>
    rcases pairsFrom_cases h with ⟨-, rfl⟩ | ⟨w, rest, tail, hw, rfl, htail, rfl⟩
    · exact Nat.zero_le _
    · have hle := ih htail
      simp only [List.length_cons, List.length_append, Spelling.lead, Spelling.opening]
      omega

theorem controlPairs_of_pairsFrom (h : pairsFrom turns pos b = some pairs) :
    controlPairs b = some (pairs.map Pair.says) := by
  obtain ⟨pairs', h', hsays⟩ := pairsFrom_shift h 0
  have hle := pairsFrom_length h'
  rw [controlPairs, controlPairsAt, pairsFrom_turns h' (by omega), Option.map_some, ← hsays]
  rfl

/-! ## New digits for one pair -/

theorem replaceRange_append_right (x y : Text) (start stop n : Nat) :
    replaceRange (x ++ y) (x.length + start) (x.length + stop) n = x ++ replaceRange y start stop n := by
  simp [replaceRange, List.take_length_add_append, List.drop_length_add_append]

theorem pairsFrom_replaceRange {n old : Nat} {p : Pair}
    (h : pairsFrom turns pos b = some pairs) (hp : p ∈ pairs) (hold : p.action = .jump old)
    (hn : 0 < n ∧ n ≤ maxJump) :
    ∃ front back back', pairs = front ++ p :: back ∧
      pairsFrom turns pos (replaceRange b (p.start - pos) (p.stop - pos) n) =
        some (front ++ { p with action := .jump n, stop := p.start + (toString n).toList.length } ::
          back') ∧
      back'.map Pair.says = back.map Pair.says ∧
      (replaceRange b (p.start - pos) (p.stop - pos) n).head? = b.head? := by
  induction turns generalizing pos b pairs with
  | zero => cases h
  | succ turns ih =>
    rcases pairsFrom_cases h with ⟨-, rfl⟩ | ⟨w, rest, tail, hw, rfl, htail, rfl⟩
    · cases hp
    have hhead : ∀ r r' : Text, (w.lead ++ r).head? = (w.lead ++ r').head? := by
      intro r r'
      have hne : w.lead ≠ [] := by simp [Spelling.lead, Spelling.opening]
      rw [List.head?_append_of_ne_nil _ hne, List.head?_append_of_ne_nil _ hne]
    rcases List.mem_cons.1 hp with rfl | hp
    · -- The first pair is the changed one.
      have hspells : Spells (.jump old) w.txt rest := hold ▸ hw.action
      let w' : Spelling := { w with action := .jump n, txt := (toString n).toList }
      have hw' : w'.Before rest := { hw with action := hspells.renumbered hn }
      have hreplace : replaceRange (w.lead ++ (w.txt ++ rest)) ((w.pair pos).start - pos) ((w.pair pos).stop - pos) n =
          w'.lead ++ (w'.txt ++ rest) := by
        rw [Spelling.pair, Nat.add_sub_cancel_left, Nat.add_sub_cancel_left]
        exact replaceRange_append w.lead w.txt rest n
      obtain ⟨back', hback, hsays⟩ := pairsFrom_shift htail (w'.pair pos).stop
      refine ⟨[], tail, back', rfl, ?_, hsays, ?_⟩
      · rw [hreplace, hw'.pairsFrom, hback]
        simp [w', Spelling.pair, Spelling.lead, Spelling.opening]
        omega
      · rw [hreplace]
        exact hhead _ _
    · have hstart := (pairsFrom_in htail).start p hp
      have hlt : p.start ≤ p.stop := ((pairsFrom_in htail).span p hp).start_lt_stop hold |>.le
      obtain ⟨front, back, back', rfl, hread, hsays, hrest⟩ := ih htail hp
      have hreplace : replaceRange (w.lead ++ (w.txt ++ rest)) (p.start - pos) (p.stop - pos) n = w.lead ++
          (w.txt ++ replaceRange rest (p.start - (w.pair pos).stop) (p.stop - (w.pair pos).stop) n) := by
        have happend := replaceRange_append_right (w.lead ++ w.txt) rest
          (p.start - (w.pair pos).stop) (p.stop - (w.pair pos).stop) n
        have hpos : (w.pair pos).stop = pos + (w.lead ++ w.txt).length := rfl
        rw [← List.append_assoc, ← List.append_assoc, ← happend]
        congr 1 <;> omega
      have hw' : w.Before (replaceRange rest (p.start - (w.pair pos).stop) (p.stop - (w.pair pos).stop) n) :=
        { hw with action := hw.action.follows fun c _ hc => hrest ▸ hc }
      refine ⟨_ :: front, back, back', rfl, ?_, hsays, ?_⟩
      · rw [hreplace, hw'.pairsFrom, hread]
        rfl
      · rw [hreplace]
        exact hhead _ _

/-! ## New digits for several pairs -/

/-- What a pair says once the jumps of `spans` have their new numbers. -/
def revalue (spans : List (Pair × Nat)) (x : Value × Action) : Value × Action :=
  match spans.find? fun s => s.1.value = x.1 with
  | some s => (x.1, .jump s.2)
  | none => x

theorem revalue_nil (x : Value × Action) : revalue [] x = x := rfl

theorem revalue_cons {p : Pair} {n : Nat} {spans : List (Pair × Nat)}
    (h : p.value ∉ spans.map fun s => s.1.value) (x : Value × Action) :
    revalue ((p, n) :: spans) x = revalue spans (if x.1 = p.value then (x.1, .jump n) else x) := by
  by_cases hx : x.1 = p.value
  · have hnone : (spans.find? fun s => s.1.value = x.1) = none := by
      rw [List.find?_eq_none]
      intro s hs hvalue
      exact h (List.mem_map.2 ⟨s, hs, (of_decide_eq_true hvalue).trans hx⟩)
    rw [if_pos hx]
    simp [revalue, hx, hx ▸ hnone]
  · have hne : ¬p.value = x.1 := fun heq => hx heq.symm
    rw [if_neg hx]
    simp [revalue, hne]

/-- Each jump of `spans` is one of the pairs, the only one that names its value, and its new number is
one a jump may have. -/
structure NewValues (pairs : List Pair) (spans : List (Pair × Nat)) : Prop where
  mem : ∀ s ∈ spans, s.1 ∈ pairs
  jump : ∀ s ∈ spans, ∃ old, s.1.action = .jump old
  only : ∀ s ∈ spans, ∀ q ∈ pairs, q.value = s.1.value → q = s.1
  range : ∀ s ∈ spans, 0 < s.2 ∧ s.2 ≤ maxJump
  nodup : (spans.map fun s => s.1.value).Nodup
  sorted : spans.Pairwise fun s u => u.1.stop ≤ s.1.start

theorem map_says_replaced {front back back' : List Pair} {p p' : Pair} {n : Nat}
    (honly : ∀ q ∈ front ++ back, q.value ≠ p.value) (hp' : p'.says = (p.value, .jump n))
    (hback : back'.map Pair.says = back.map Pair.says) :
    (front ++ p' :: back').map Pair.says = ((front ++ p :: back).map Pair.says).map
      fun x => if x.1 = p.value then (x.1, .jump n) else x := by
  have hkeep : ∀ qs : List Pair, (∀ q ∈ qs, q.value ≠ p.value) →
      (qs.map Pair.says).map (fun x => if x.1 = p.value then (x.1, .jump n) else x) =
        qs.map Pair.says := by
    intro qs hqs
    rw [List.map_map]
    apply List.map_congr_left
    intro q hq
    exact if_neg (hqs q hq)
  rw [List.map_append, List.map_append, List.map_append, List.map_cons, List.map_cons, List.map_cons,
    hkeep front fun q hq => honly q (List.mem_append_left _ hq),
    hkeep back fun q hq => honly q (List.mem_append_right _ hq), hback, hp']
  have hself : p.says.1 = p.value := rfl
  rw [if_pos hself, hself]

structure SplitAt (control : Text) (pairs front back : List Pair) (p : Pair) : Prop where
  parsed : PairsIn control 0 pairs
  eq : pairs = front ++ p :: back

namespace SplitAt

variable {control : Text} {pairs front back : List Pair} {p : Pair}

variable (h : SplitAt control pairs front back p)

include h

theorem front_le :
    ∀ q ∈ front, ∀ r ∈ p :: back, q.stop ≤ r.start := by
  have hordered := h.parsed.ordered
  rw [h.eq, List.pairwise_append] at hordered
  exact hordered.2.2

theorem le_back : ∀ r ∈ back, p.stop ≤ r.start := by
  have hordered := h.parsed.ordered
  rw [h.eq, List.pairwise_append, List.pairwise_cons] at hordered
  exact hordered.2.1.1

theorem mem_front {q : Pair} (hq : q ∈ front) : q ∈ pairs := by
  rw [h.eq]
  exact List.mem_append_left _ hq

theorem mem_back {q : Pair} (hq : q ∈ back) : q ∈ pairs := by
  rw [h.eq]
  exact List.mem_append_right _ (List.mem_cons_of_mem _ hq)

theorem front_of_stop_le (hlt : p.start < p.stop) {q : Pair}
    {n : Nat} (hq : q ∈ pairs) (hjump : q.action = .jump n) (hle : q.stop ≤ p.start) : q ∈ front := by
  have hspan := (h.parsed.span q hq).start_lt_stop hjump
  rw [h.eq] at hq
  rcases List.mem_append.1 hq with hq | hq
  · exact hq
  · rcases List.mem_cons.1 hq with rfl | hq
    · omega
    · have hback := h.le_back q hq
      omega

end SplitAt

theorem NewValues.tail {control : Text} {pairs front back back' : List Pair} {p p' : Pair} {n : Nat}
    {spans : List (Pair × Nat)} (h : NewValues pairs ((p, n) :: spans))
    (hsplit : SplitAt control pairs front back p) (hvalue : p'.value = p.value)
    (hback : back'.map Pair.says = back.map Pair.says) : NewValues (front ++ p' :: back') spans := by
  have hp : p ∈ pairs := h.mem _ List.mem_cons_self
  obtain ⟨old, hold⟩ := h.jump _ List.mem_cons_self
  have hlt := (hsplit.parsed.span p hp).start_lt_stop hold
  have hfront : ∀ u ∈ spans, u.1 ∈ front := by
    intro u hu
    obtain ⟨old', hold'⟩ := h.jump u (List.mem_cons_of_mem _ hu)
    exact hsplit.front_of_stop_le hlt (h.mem u (List.mem_cons_of_mem _ hu)) hold'
      ((List.pairwise_cons.1 h.sorted).1 u hu)
  refine ⟨fun u hu => List.mem_append_left _ (hfront u hu),
    fun u hu => h.jump u (List.mem_cons_of_mem _ hu), ?_,
    fun u hu => h.range u (List.mem_cons_of_mem _ hu), (List.nodup_cons.1 h.nodup).2,
    (List.pairwise_cons.1 h.sorted).2⟩
  intro u hu q hq hsame
  have honly : ∀ q' ∈ pairs, q'.value = u.1.value → q' = u.1 :=
    h.only u (List.mem_cons_of_mem _ hu)
  rcases List.mem_append.1 hq with hq | hq
  · exact honly q (hsplit.mem_front hq) hsame
  · rcases List.mem_cons.1 hq with rfl | hq
    · rw [hvalue] at hsame
      exact absurd (List.mem_map.2 ⟨u, hu, hsame.symm⟩) (List.nodup_cons.1 h.nodup).1
    · -- A pair after `p` with the value of `u` would be `u`, which stands before `p`.
      have hvalues := congrArg (List.map Prod.fst) hback
      rw [List.map_map, List.map_map] at hvalues
      have hmem : u.1.value ∈ back.map (Prod.fst ∘ Pair.says) := by
        rw [← hvalues]
        exact List.mem_map.2 ⟨q, hq, hsame⟩
      obtain ⟨q', hq', hvalue'⟩ := List.mem_map.1 hmem
      have hqu := honly q' (hsplit.mem_back hq') hvalue'
      have hle := hsplit.front_le u.1 (hfront u hu) q' (List.mem_cons_of_mem _ hq')
      obtain ⟨old', hold'⟩ := h.jump u (List.mem_cons_of_mem _ hu)
      have hspan := (hsplit.parsed.span _ (h.mem u (List.mem_cons_of_mem _ hu))).start_lt_stop hold'
      rw [hqu] at hle
      omega

theorem pairsFrom_foldl {pre post control : Text}
    {spans : List (Pair × Nat)} (h : pairsFrom turns 0 control = some pairs)
    (hspans : NewValues pairs spans) :
    ∃ control' pairs',
      spans.foldl (fun out (p, n) => replaceRange out (pre.length + p.start) (pre.length + p.stop) n)
        (pre ++ (control ++ post)) = pre ++ (control' ++ post) ∧
      pairsFrom turns 0 control' = some pairs' ∧
      pairs'.map Pair.says = (pairs.map Pair.says).map (revalue spans) := by
  induction spans generalizing control pairs with
  | nil =>
    refine ⟨control, pairs, rfl, h, ?_⟩
    rw [funext revalue_nil, List.map_id']
  | cons s spans ih =>
    obtain ⟨p, n⟩ := s
    have hself : (p, n) ∈ (p, n) :: spans := List.mem_cons_self
    have hin := pairsFrom_in h
    have hp : p ∈ pairs := hspans.mem _ hself
    obtain ⟨old, hold⟩ := hspans.jump _ hself
    have hlt : p.start < p.stop := (hin.span p hp).start_lt_stop hold
    have hend : p.stop ≤ control.length := (hin.span p hp).stop_le
    obtain ⟨front, back, back', hpairs, hread, hsays, -⟩ :=
      pairsFrom_replaceRange h hp hold (hspans.range _ hself)
    rw [Nat.sub_zero, Nat.sub_zero] at hread
    have hsplit : SplitAt control pairs front back p := ⟨hin, hpairs⟩
    have honly : ∀ q ∈ pairs, q.value = p.value → q = p := hspans.only _ hself
    have hother : ∀ q ∈ front ++ back, q.value ≠ p.value := by
      intro q hq hvalue
      rcases List.mem_append.1 hq with hq | hq
      · have hqp := honly q (hsplit.mem_front hq) hvalue
        have hle := hsplit.front_le q hq p List.mem_cons_self
        rw [hqp] at hle
        omega
      · have hqp := honly q (hsplit.mem_back hq) hvalue
        have hle := hsplit.le_back q hq
        rw [hqp] at hle
        omega
    have hmapped := @map_says_replaced front back back' p
      { p with action := .jump n, stop := p.start + (toString n).toList.length } n hother rfl hsays
    obtain ⟨control', pairs', hfold, hread', hsays'⟩ := ih hread (hspans.tail hsplit rfl hsays)
    refine ⟨control', pairs', ?_, hread', ?_⟩
    · rw [List.foldl_cons, ← hfold]
      congr 1
      have hinner : replaceRange (control ++ post) p.start p.stop n =
          replaceRange control p.start p.stop n ++ post := by
        rw [replaceRange, replaceRange, List.take_append_of_le_length (by omega),
          List.drop_append_of_le_length (by omega), List.append_assoc, List.append_assoc,
          List.append_assoc]
      rw [← hinner]
      exact replaceRange_append_right pre _ _ _ _
    · rw [hsays', hmapped, List.map_map, ← hpairs]
      apply List.map_congr_left
      intro x _
      exact (revalue_cons (List.nodup_cons.1 hspans.nodup).1 x).symm

/-! ## The jumps of an adjusted line -/

/-- The number an edited line has for a value that jumped by `n`. -/
def newValue (edits : List JumpEdit) (key : Value) (n : Nat) : Nat :=
  ((edits.find? fun e => e.value = key).map (·.after)).getD n

theorem newValues_of_edits {control : Text} {pairs : List Pair} {edits : List JumpEdit}
    {spans : List (Pair × Nat)} (hpairs : controlPairsAt control = some pairs)
    (hnodup : (edits.map (·.value)).Nodup) (h : editSpans pairs edits = some spans) :
    NewValues pairs (lastFirst spans) := by
  have hspans : Spans pairs spans := spans_of_edits hnodup h
  have hperm := lastFirst_perm spans
  refine ⟨?_, ?_, ?_, ?_, ?_, hspans.sorted (controlPairsAt_in hpairs)⟩
  · intro s hs
    exact (hspans.mem s (hperm.mem_iff.1 hs)).1
  · intro s hs
    exact (hspans.mem s (hperm.mem_iff.1 hs)).2
  · intro s hs
    obtain ⟨e, -, hat, -⟩ := exists_edit h (hperm.mem_iff.1 hs)
    exact hat.only
  · intro s hs
    obtain ⟨e, -, hat, hafter⟩ := exists_edit h (hperm.mem_iff.1 hs)
    rw [hafter]
    exact hat.range
  · exact ((hperm.map fun s => s.1.value).nodup_iff).2 hspans.nodup

def requested (edits : List JumpEdit) (x : Value × Action) : Value × Action :=
  (x.1, match edits.find? fun e => e.value = x.1 with
    | some e => .jump e.after
    | none => x.2)

section Edits

variable {control : Text} {pairs : List Pair} {edits : List JumpEdit} {spans : List (Pair × Nat)}
  {x : Value × Action}

theorem says_of_edit (h : editSpans pairs edits = some spans)
    (hx : x ∈ pairs.map Pair.says) {e : JumpEdit} (he : e ∈ edits) (hvalue : e.value = x.1) :
    ∃ p, (p, e.after) ∈ spans ∧ p.value = e.value ∧ x = (e.value, .jump e.before) := by
  obtain ⟨p, hs, hat⟩ := exists_span h he
  obtain ⟨q, hq, rfl⟩ := List.mem_map.1 hx
  have hqp := hat.only q hq (hvalue.symm.trans hat.value.symm)
  exact ⟨p, hs, hat.value, by rw [hqp, Pair.says, hat.value, hat.jump]⟩

theorem revalue_edits (hpairs : controlPairsAt control = some pairs)
    (hnodup : (edits.map (·.value)).Nodup) (h : editSpans pairs edits = some spans)
    (hx : x ∈ pairs.map Pair.says) : revalue (lastFirst spans) x = requested edits x := by
  have hnew := newValues_of_edits hpairs hnodup h
  have hperm := lastFirst_perm spans
  unfold revalue requested
  cases hfind : edits.find? fun e => e.value = x.1 with
  | none =>
    have hnone : ((lastFirst spans).find? fun s => s.1.value = x.1) = none := by
      rw [List.find?_eq_none]
      intro s hs hvalue
      obtain ⟨e, he, hat, -⟩ := exists_edit h (hperm.mem_iff.1 hs)
      apply List.find?_eq_none.1 hfind e he
      rw [← hat.value]
      exact hvalue
    rw [hnone]
  | some e =>
    have hvalue : e.value = x.1 := by simpa using List.find?_some hfind
    obtain ⟨p, hs, hpe, -⟩ := says_of_edit h hx (List.mem_of_find?_eq_some hfind) hvalue
    have hsort := hperm.mem_iff.2 hs
    have hsome : ((lastFirst spans).find? fun s => s.1.value = x.1) = some (p, e.after) := by
      cases hfound : (lastFirst spans).find? fun s => s.1.value = x.1 with
      | none =>
        have hnone := List.find?_eq_none.1 hfound _ hsort
        exact absurd (decide_eq_true (hpe.trans hvalue)) hnone
      | some s =>
        have hsame : s.1.value = x.1 := by simpa using List.find?_some hfound
        have hs' := List.mem_of_find?_eq_some hfound
        rw [List.inj_on_of_nodup_map hnew.nodup hs' hsort
          (hsame.trans (hvalue.symm.trans hpe.symm))]
    rw [hsome]

theorem requested_eq (h : editSpans pairs edits = some spans)
    (hx : x ∈ pairs.map Pair.says) :
    requested edits x = (x.1, match x.2 with
      | .jump n => .jump (newValue edits x.1 n)
      | action => action) := by
  unfold requested newValue
  cases hfind : edits.find? fun e => e.value = x.1 with
  | none =>
    rcases x with ⟨v, action⟩
    cases action <;> rfl
  | some e =>
    have hvalue : e.value = x.1 := by simpa using List.find?_some hfind
    obtain ⟨p, -, -, rfl⟩ := says_of_edit h hx (List.mem_of_find?_eq_some hfind) hvalue
    rfl

end Edits

theorem foldl_zipIdx_congr {σ α β : Type} {f : σ → (α × β) × Nat → σ}
    (hf : ∀ s a b b' n, f s ((a, b), n) = f s ((a, b'), n)) {xs ys : List (α × β)}
    (h : xs.map Prod.fst = ys.map Prod.fst) (n : Nat) (s : σ) :
    (xs.zipIdx n).foldl f s = (ys.zipIdx n).foldl f s := by
  induction xs generalizing ys n s with
  | nil => rw [List.map_eq_nil_iff.1 h.symm]
  | cons x xs ih =>
    cases ys with
    | nil => cases h
    | cons y ys =>
      obtain ⟨hfst, hrest⟩ := List.cons.inj h
      obtain ⟨a, b⟩ := x
      obtain ⟨a', b'⟩ := y
      obtain rfl : a = a' := hfst
      rw [List.zipIdx_cons, List.zipIdx_cons, List.foldl_cons, List.foldl_cons, hf s a b b' n, ih hrest]

theorem setBy_congr {pairs pairs' : List (Value × Action)}
    (h : pairs'.map Prod.fst = pairs.map Prod.fst) : setBy pairs' = setBy pairs :=
  foldl_zipIdx_congr (fun _ _ _ _ _ => rfl) h 0 _

def jumpsIn (pairs : List (Value × Action)) : List (Value × Nat) :=
  pairs.zipIdx.filterMap fun ((value, action), i) =>
    match action with
    | .jump n => if allReturnValues.any fun r => setBy pairs r = some i then some (value, n) else none
    | _ => none

theorem numericActions_of_controlPairs {h : Head} {pairs : List (Value × Action)}
    (hpairs : controlPairs h.control = some pairs) : h.numericActions = jumpsIn pairs := by
  unfold Head.numericActions
  split
  · next hkeyword =>
    obtain ⟨k, hk, hword⟩ := List.any_eq_true.1 hkeyword
    have hnil : pairs = [] := by
      by_contra hne
      obtain ⟨located, hlocated, rfl⟩ := Option.map_eq_some_iff.1 hpairs
      have hequals := (controlPairsAt_in hlocated).equals (by simpa using hne)
      have hkeywords : ∀ k ∈ controlKeywords, '=' ∉ k.map Char.toLower := by decide
      apply hkeywords k hk
      rw [← beq_iff_eq.1 hword]
      exact List.mem_map.2 ⟨'=', hequals, by decide⟩
    subst hnil
    rfl
  · rw [hpairs]
    rfl

theorem jumpsIn_map {pairs : List (Value × Action)} {f : Value × Action → Value × Action}
    {new : Value → Nat → Nat}
    (h : ∀ x ∈ pairs, f x = (x.1, match x.2 with
      | .jump n => .jump (new x.1 n)
      | action => action)) :
    jumpsIn (pairs.map f) = (jumpsIn pairs).map fun (key, n) => (key, new key n) := by
  have hset : setBy (pairs.map f) = setBy pairs := by
    apply setBy_congr
    rw [List.map_map]
    apply List.map_congr_left
    intro x hx
    rw [Function.comp_apply, h x hx]
  unfold jumpsIn
  rw [hset, List.zipIdx_map, List.filterMap_map, List.map_filterMap]
  apply List.filterMap_congr
  intro x hx
  obtain ⟨⟨value, action⟩, i⟩ := x
  have hf := h (value, action) (List.fst_mem_of_mem_zipIdx hx)
  simp only [Function.comp_apply, Prod.map, hf]
  cases action with
  | jump n =>
    simp only [id_eq]
    split <;> rfl
  | _ => rfl

theorem mem_jumpsIn_of {pairs : List (Value × Action)} {key : Value} {n i : Nat} {r : ReturnValue}
    (hi : pairs[i]? = some (key, .jump n)) (hset : setBy pairs r = some i) : (key, n) ∈ jumpsIn pairs := by
  refine List.mem_filterMap.2 ⟨((key, .jump n), i), List.mk_mem_zipIdx_iff_getElem?.2 hi, ?_⟩
  have heffect : (allReturnValues.any fun r => setBy pairs r = some i) = true := by
    refine List.any_eq_true.2 ⟨r, ?_, decide_eq_true hset⟩
    cases r <;> decide
  simp only [heffect, if_true]

theorem EditedAt.mem_jumpsIn {pairs : List Pair} {e : JumpEdit} {p : Pair} (h : EditedAt pairs e p) :
    (e.value, e.before) ∈ jumpsIn (pairs.map Pair.says) := by
  obtain ⟨i, r, hi, hr⟩ := h.effect
  refine mem_jumpsIn_of (i := i) (r := r) ?_ hr
  rw [List.getElem?_map, hi, Option.map_some, Pair.says, h.value, h.jump]

structure Readjusted (edits : List JumpEdit) (h h' : Head) (pairs : List (Value × Action)) : Prop where
  phase : h'.phase = h.phase
  knownType : h'.knownType = h.knownType
  rest : h'.rest = h.rest
  control : controlPairs h.control = some pairs
  control' : controlPairs h'.control = some (pairs.map (requested edits))
  edited : ∀ e ∈ edits, (e.value, e.before) ∈ jumpsIn pairs
  jumps : ∀ x ∈ pairs, requested edits x = (x.1, match x.2 with
    | .jump n => .jump (newValue edits x.1 n)
    | action => action)

theorem withJumpValues_readjusted {line line' : Text} {edits : List JumpEdit}
    (h : withJumpValues line edits = some line') :
    ∃ hd hd' pairs, head line = some hd ∧ head line' = some hd' ∧ Readjusted edits hd hd' pairs := by
  obtain ⟨hd, start, pairs, spans, hhead, hstart, hpairs, hnodup, hmap, rfl⟩ := withJumpValues_eq_some h
  have hnew := newValues_of_edits hpairs hnodup hmap
  obtain ⟨pre, kind, post, hopens, hline, hlength⟩ := controlStart_around hhead hstart
  obtain ⟨control', pairs', hfold, hread, hrevalued⟩ :=
    @pairsFrom_foldl _ _ (pre ++ ['[']) (']' :: post) _ _ hpairs hnew
  rw [hlength] at hfold
  have hline' : line = (pre ++ ['[']) ++ (hd.control ++ ']' :: post) := by
    rw [hline]
    simp [around]
  have hwritten : (lastFirst spans).foldl
      (fun out (p, n) => replaceRange out (start + p.start) (start + p.stop) n) line =
      around pre control' post := by
    rw [hline', hfold]
    simp [around]
  have hbefore := head_around hopens (pairsFrom_in hpairs).plain post
  rw [← hline, hhead] at hbefore
  have hsame := Option.some.inj hbefore
  have hafter := head_around hopens (pairsFrom_in hread).plain post
  rw [← hwritten] at hafter
  refine ⟨hd, _, pairs.map Pair.says, hhead, hafter, ?_⟩
  refine ⟨(congrArg Head.phase hsame).symm, (congrArg Head.knownType hsame).symm,
    (congrArg Head.rest hsame).symm, controlPairs_of_pairsFrom hpairs, ?_, ?_, ?_⟩
  · have hsaid := controlPairs_of_pairsFrom hread
    rw [hrevalued, List.map_congr_left fun x hx => revalue_edits hpairs hnodup hmap hx] at hsaid
    exact hsaid
  · intro e he
    obtain ⟨p, -, hat⟩ := exists_span hmap he
    exact hat.mem_jumpsIn
  · exact fun x hx => requested_eq hmap hx

theorem numericActions_of_head {line : Text} {h : Head} {pairs : List (Value × Action)}
    (hh : head line = some h) (hpairs : controlPairs h.control = some pairs) :
    numericActions line = jumpsIn pairs := by
  rw [numericActions, hh, Option.map_some, Option.getD_some]
  exact numericActions_of_controlPairs hpairs

/-- **An adjusted line carries the jumps it carried**, the edited ones by their new numbers. -/
theorem numericActions_withJumpValues {line line' : Text} {edits : List JumpEdit}
    (h : withJumpValues line edits = some line') :
    numericActions line' = (numericActions line).map fun (key, n) => (key, newValue edits key n) := by
  obtain ⟨hd, hd', pairs, hhead, hhead', hread⟩ := withJumpValues_readjusted h
  rw [numericActions_of_head hhead' hread.control', numericActions_of_head hhead hread.control]
  exact jumpsIn_map hread.jumps

/-- **New jump values are exact**: the line is of the type it was, its control says the same pairs but for
the edited jumps, what follows the control is kept, and so is every other jump in effect. -/
theorem withJumpValues_exact {line out : Text} {edits : List JumpEdit}
    (h : withJumpValues line edits = some out) :
    ∃ hd hd' pairs, head line = some hd ∧ head out = some hd' ∧
      hd'.phase = hd.phase ∧ hd'.knownType = hd.knownType ∧ hd'.rest = hd.rest ∧
      controlPairs hd.control = some pairs ∧ controlPairs hd'.control = some (pairs.map (requested edits)) ∧
      (∀ e ∈ edits, (e.value, e.before) ∈ numericActions line) ∧
      numericActions out = (numericActions line).map fun (key, n) => (key, newValue edits key n) := by
  obtain ⟨hd, hd', pairs, hhead, hhead', hread⟩ := withJumpValues_readjusted h
  refine ⟨hd, hd', pairs, hhead, hhead', hread.phase, hread.knownType, hread.rest, hread.control,
    hread.control', ?_, numericActions_withJumpValues h⟩
  rw [numericActions_of_head hhead hread.control]
  exact hread.edited

def runTogether : Text := "auth [success = 1default=ignore] pam_unix.so"

/-- Two pairs of a control without a blank between them. -/
theorem withJumpValues_exact_runTogether :
    ∃ out, withJumpValues runTogether [⟨.value .success, 1, 12⟩] = some out ∧
      out = "auth [success = 12default=ignore] pam_unix.so" ∧
      numericActions out = [(.value .success, 12)] := by
  have hout : withJumpValues runTogether [⟨.value .success, 1, 12⟩] =
      some ("auth [success = 12default=ignore] pam_unix.so" : Text) := by decide +kernel
  obtain ⟨hd, hd', pairs, -, -, -, -, -, -, -, -, hjumps⟩ := withJumpValues_exact hout
  have hbefore : numericActions runTogether = [(.value .success, 1)] := by decide +kernel
  exact ⟨_, hout, rfl, by rw [hjumps, hbefore]; rfl⟩

end Irlume.Pam

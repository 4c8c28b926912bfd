import Irlume.Split.Schema

/-!
# Writing a generation back

The records of a generation that was read are written back in no more bytes than it has, but for a newline at
the end. The line the writer makes of a value is no longer than the line it was read from, and no line sets two.
-/

namespace Irlume.Split

open Irlume.Lib

/-! ## Lengths -/

def unended (t : Text) : Nat := if t = [] ∨ t.getLast? = some '\n' then 0 else 1

def lineSizes (ls : List Text) : Nat := (ls.map fun l => byteLength l + 1).sum

theorem lineSizes_cons (l : Text) (ls : List Text) : lineSizes (l :: ls) = byteLength l + 1 + lineSizes ls := by
  rw [lineSizes, List.map_cons, List.sum_cons, lineSizes]

theorem lineSizes_append (ls ms : List Text) : lineSizes (ls ++ ms) = lineSizes ls + lineSizes ms := by
  rw [lineSizes, List.map_append, List.sum_append, lineSizes, lineSizes]

theorem byteLength_newline : byteLength ['\n'] = 1 := by decide

theorem byteLength_cons_newline (t : Text) : byteLength ('\n' :: t) = byteLength t + 1 := by
  rw [← List.singleton_append, byteLength_append, byteLength_newline, Nat.add_comm]

theorem byteLength_stripCr_le (l : Text) : byteLength (stripCr l) ≤ byteLength l := by
  rcases stripCr_cases l with h | h
  · rw [h]
  · have hlen := congrArg byteLength h
    rw [byteLength_append] at hlen
    omega

theorem unended_le (t : Text) : unended t ≤ 1 := by
  unfold unended
  split <;> omega

theorem lineSizes_lines_le (t : Text) : lineSizes (lines t) ≤ byteLength t + unended t := by
  induction t using line_induction with
  | last l h =>
    rw [lines_last h]
    split
    · exact Nat.zero_le _
    · next hne =>
      have hlast : l.getLast? ≠ some '\n' := fun hlast => h (List.mem_of_getLast? hlast)
      rw [lineSizes_cons, unended, if_neg (by simp [hne, hlast])]
      exact Nat.le_refl _
  | line l t h ih =>
    have hstrip := byteLength_stripCr_le l
    have hunended : unended t ≤ unended (l ++ '\n' :: t) := by
      unfold unended
      by_cases ht : t = []
      · simp [ht]
      · have hlast : (l ++ '\n' :: t).getLast? = t.getLast? := by
          rw [List.getLast?_append_cons, List.getLast?_cons_of_ne_nil ht]
        simp [ht, hlast]
    rw [lines_newline h, lineSizes_cons, byteLength_append, byteLength_cons_newline]
    omega

theorem byteLength_unlines {ls : List Text} (h : ls ≠ []) : byteLength (unlines ls) = lineSizes ls := by
  induction ls with
  | nil => exact absurd rfl h
  | cons l ls ih =>
    cases ls with
    | nil =>
      rw [unlines, List.intercalate_singleton, byteLength_append, byteLength_newline]
      exact (Nat.add_zero _).symm
    | cons m ls =>
      have hrest := ih (List.cons_ne_nil _ _)
      rw [unlines] at hrest ⊢
      rw [List.intercalate_cons_cons, List.append_assoc, byteLength_append, byteLength_append, hrest,
        byteLength_newline, lineSizes_cons l]

/-! ## What the slots hold -/

def fieldWeight (i : Nat) (f : Side × SideKey) (v : Option Text) : Nat :=
  (v.map fun v => byteLength (fieldLine i f.1 f.2 v) + 1).getD 0

def slotsWeight (i : Nat) (x : Slots) : Nat := (fieldOrder.map fun f => fieldWeight i f (x f.1 f.2)).sum

/-- Every value that is read takes up its own line. -/
def weight (seen : List Slots) (n : Nat) : Nat := ((seen.zipIdx n).map fun (x, i) => slotsWeight i x).sum

theorem slotsWeight_noSlots (i : Nat) : slotsWeight i noSlots = 0 := rfl

theorem slotsWeight_set {i : Nat} {x : Slots} {side : Side} {field : SideKey} (h : x side field = none)
    (v : Text) : slotsWeight i (x.set side field v) =
      slotsWeight i x + (byteLength (fieldLine i side field v) + 1) := by
  cases side <;> cases field <;>
    simp [slotsWeight, fieldOrder, sides, sideKeys, fieldWeight, Slots.set, h] <;> omega

theorem weight_cons (x : Slots) (seen : List Slots) (n : Nat) :
    weight (x :: seen) n = slotsWeight n x + weight seen (n + 1) := by
  rw [weight, List.zipIdx_cons, List.map_cons, List.sum_cons, weight]

theorem weight_append (seen more : List Slots) (n : Nat) :
    weight (seen ++ more) n = weight seen n + weight more (n + seen.length) := by
  rw [weight, List.zipIdx_append, List.map_append, List.sum_append, weight, weight]

theorem weight_replicate (k n : Nat) : weight (List.replicate k noSlots) n = 0 := by
  induction k generalizing n with
  | zero => rfl
  | succ k ih => rw [List.replicate_succ, weight_cons, ih, slotsWeight_noSlots]

theorem weight_resized (seen : List Slots) (index : Nat) : weight (resized seen index) 0 = weight seen 0 := by
  rw [resized, weight_append, weight_replicate, Nat.add_zero]

theorem weight_take_le (seen : List Slots) (k n : Nat) : weight (seen.take k) n ≤ weight seen n := by
  have h := weight_append (seen.take k) (seen.drop k) n
  rw [List.take_append_drop] at h
  omega

theorem weight_modify {seen : List Slots} {index n : Nat} {x : Slots} {f : Slots → Slots} {w : Nat}
    (hx : seen[index]? = some x) (hf : slotsWeight (n + index) (f x) = slotsWeight (n + index) x + w) :
    weight (seen.modify index f) n = weight seen n + w := by
  induction seen generalizing index n with
  | nil => cases hx
  | cons y seen ih =>
    cases index with
    | zero =>
      cases hx
      rw [Nat.add_zero] at hf
      rw [List.modify_zero_cons, weight_cons, weight_cons, hf]
      omega
    | succ index =>
      rw [List.modify_succ_cons, weight_cons, weight_cons,
        ih hx (by rw [show n + 1 + index = n + (index + 1) by omega]; exact hf)]
      omega

theorem lt_length_resized (seen : List Slots) (index : Nat) : index < (resized seen index).length := by
  rw [resized, List.length_append, List.length_replicate]
  omega

theorem length_resized_le {seen : List Slots} {index k : Nat} (hseen : seen.length ≤ k) (hindex : index < k) :
    (resized seen index).length ≤ k := by
  rw [resized, List.length_append, List.length_replicate]
  omega

theorem getElem?_resized {seen : List Slots} {index i : Nat} {x : Slots} (h : (resized seen index)[i]? = some x) :
    seen[i]? = some x ∨ x = noSlots := by
  rw [resized, List.getElem?_append] at h
  split at h
  · exact .inl h
  · exact .inr (List.eq_of_mem_replicate (List.mem_of_getElem? h))

/-! ## Reading without a problem -/

theorem eq_recordKey_of_readKey {key : Text} {i : Nat} {side : Side} {field : SideKey}
    (h : readKey key = .ok (i, side, field)) : key = recordKey i side field ∧ i < maxRecords := by
  unfold readKey at h
  split at h
  · cases h
  · next rest hrest =>
    have hkey : key = pairStart ++ rest := by
      unfold afterStart at hrest
      split at hrest
      · next hstart =>
        obtain ⟨tail, rfl⟩ := List.isPrefixOf_iff_prefix.1 hstart
        rw [List.drop_left] at hrest
        rw [Option.some.inj hrest]
      · cases hrest
    split at h
    · cases h
    · next indexText tail hdot =>
      obtain ⟨rfl, -⟩ := splitOnceAt_eq_some_iff.1 hdot
      split at h
      · cases h
      · next hcanonical =>
        split at h
        · cases h
        · split at h
          · cases h
          · next hmax =>
            split at h
            · cases h
            · next sideText fieldText hunder =>
              obtain ⟨rfl, -⟩ := splitOnceAt_eq_some_iff.1 hunder
              split at h
              · next side' field' hside hfield =>
                cases h
                have hsideText : side.name = sideText := by simpa using List.find?_some hside
                have hfieldText : field.name = fieldText := by simpa using List.find?_some hfield
                have hdecimal := canonicalDecimal_iff.1 (by simpa using hcanonical)
                refine ⟨?_, by omega⟩
                rw [hkey, recordKey, hdecimal, hsideText, hfieldText, List.append_assoc]
              · cases h

theorem isPart_trim (t : Text) : trim t <:+: t := by
  exact (List.rdropWhile_prefix _ _).isInfix.trans (List.dropWhile_suffix _).isInfix

theorem byteLength_le_of_infix {a t : Text} (h : a <:+: t) : byteLength a ≤ byteLength t := by
  obtain ⟨before, behind, rfl⟩ := h
  rw [byteLength_append, byteLength_append]
  omega

theorem byteLength_keyValue_le {rawKey written : Text} :
    byteLength (trim rawKey) + (byteLength (trim written) + 1) ≤ byteLength (rawKey ++ '=' :: written) := by
  have hkey := byteLength_le_of_infix (isPart_trim rawKey)
  have hvalue := byteLength_le_of_infix (isPart_trim written)
  have heq : byteLength ['='] = 1 := by decide
  rw [byteLength_append, ← List.singleton_append, byteLength_append, heq]
  omega

/-- What a line without a problem does. -/
inductive Clean (s : Scan) (raw : Text) : Scan → Prop
  | skipped : Clean s raw s
  | version (h : 9 ≤ byteLength raw) : Clean s raw { s with versionLines := s.versionLines + 1 }
  | field {index : Nat} {side : Side} {field : SideKey} {value : Text} (maxIndex : Option Nat)
      (hindex : index < maxRecords) (hlen : byteLength raw ≤ maxLineBytes)
      (hline : byteLength (fieldLine index side field value) ≤ byteLength raw)
      (hfree : ((resized s.seen index)[index]?.bind fun slots => slots side field) = none) :
      Clean s raw { s with seen := setSlot s.seen index side field value, maxIndex }

theorem Scan.problems_problem (s : Scan) (p : Text) : (s.problem p).problems ≠ [] := by
  simp [Scan.problem]

theorem Scan.clean_record {s : Scan} {n index : Nat} {key value raw : Text} {side : Side} {field : SideKey}
    (hindex : index < maxRecords) (hlen : s.problems = [] → byteLength raw ≤ maxLineBytes)
    (hline : byteLength (fieldLine index side field value) ≤ byteLength raw)
    (h : (s.record n key index side field value).problems = []) :
    s.problems = [] ∧ Clean s raw (s.record n key index side field value) := by
  unfold Scan.record at h ⊢
  dsimp only at h ⊢
  split at h
  · exact absurd h (Scan.problems_problem _ _)
  · next hfree =>
    rw [if_neg hfree]
    exact ⟨h, .field _ hindex (hlen h) hline (by simpa using hfree)⟩

theorem scanLine_clean {s : Scan} {raw : Text} {n : Nat} (h : (scanLine s raw n).problems = []) :
    s.problems = [] ∧ Clean s raw (scanLine s raw n) := by
  unfold scanLine at h ⊢
  split at h
  · next hskip =>
    rw [if_pos hskip]
    exact ⟨h, .skipped⟩
  · next hskip =>
    rw [if_neg hskip]
    dsimp only at h ⊢
    -- A line that is too long leaves its problem, whatever is read from it.
    have hfits : (if maxLineBytes < byteLength raw then
        s.problem (lineText n ++ " is over " ++ decimal maxLineBytes ++ " bytes") else s).problems = [] →
        byteLength raw ≤ maxLineBytes := by
      intro hnone
      by_contra hlong
      rw [if_pos (by omega)] at hnone
      exact Scan.problems_problem _ _ hnone
    have hsame : byteLength raw ≤ maxLineBytes → (if maxLineBytes < byteLength raw then
        s.problem (lineText n ++ " is over " ++ decimal maxLineBytes ++ " bytes") else s) = s :=
      fun hle => if_neg (by omega)
    generalize (if maxLineBytes < byteLength raw then
      s.problem (lineText n ++ " is over " ++ decimal maxLineBytes ++ " bytes") else s) = s₀ at h hfits hsame ⊢
    suffices hclean : s₀.problems = [] ∧ Clean s₀ raw _ by
      obtain rfl := hsame (hfits hclean.1)
      exact hclean
    split at h
    · exact absurd h (Scan.problems_problem _ _)
    · next rawKey written hsplit =>
      obtain ⟨rfl, -⟩ := splitOnceAt_eq_some_iff.1 hsplit
      have hle := @byteLength_keyValue_le rawKey written
      split at h
      · exact absurd h (Scan.problems_problem _ _)
      · next hsafe =>
        rw [if_neg hsafe]
        split at h
        · next hversion =>
          rw [if_pos hversion]
          split at h
          · next hone =>
            rw [if_pos hone]
            have hword : byteLength "version".toList = 7 := by decide
            have hdigit : byteLength "1".toList = 1 := by decide
            rw [hversion, hone, hword, hdigit] at hle
            exact ⟨h, .version hle⟩
          · exact absurd h (Scan.problems_problem _ _)
        · next hversion =>
          rw [if_neg hversion]
          split at h
          · exact absurd h (Scan.problems_problem _ _)
          · next index side field hkey =>
            obtain ⟨hname, hindex⟩ := eq_recordKey_of_readKey hkey
            refine Scan.clean_record hindex hfits ?_ h
            have heq : byteLength ['='] = 1 := by decide
            rw [fieldLine, ← hname, ← List.singleton_append, byteLength_append, byteLength_append, heq]
            omega

/-- The slots of the lines read so far, which have `used` bytes with their newlines. -/
structure Bounded (s : Scan) (used : Nat) : Prop where
  size : weight s.seen 0 + 10 * s.versionLines ≤ used
  fits : ∀ (i : Nat) (x : Slots), s.seen[i]? = some x → ∀ side field v, x side field = some v →
    byteLength (fieldLine i side field v) ≤ maxLineBytes
  count : s.seen.length ≤ maxRecords

theorem Bounded.mono {s : Scan} {used used' : Nat} (h : Bounded s used) (hle : used ≤ used') : Bounded s used' :=
  ⟨h.size.trans hle, h.fits, h.count⟩

theorem Slots.set_same (x : Slots) (side : Side) (field : SideKey) (v : Text) :
    x.set side field v side field = some v := by
  simp [Slots.set]

theorem Bounded.clean {s t : Scan} {raw : Text} {used : Nat} (h : Bounded s used) (hclean : Clean s raw t) :
    Bounded t (used + (byteLength raw + 1)) := by
  cases hclean with
  | skipped => exact h.mono (by omega)
  | version hlen =>
    refine ⟨?_, h.fits, h.count⟩
    have hsize := h.size
    dsimp only
    omega
  | @field index side field value maxIndex hindex hlen hline hfree =>
    obtain ⟨x, hx⟩ : ∃ x, (resized s.seen index)[index]? = some x :=
      ⟨_, List.getElem?_eq_getElem (lt_length_resized s.seen index)⟩
    rw [hx, Option.bind_some] at hfree
    refine ⟨?_, fun i y hy side' field' v hv => ?_, ?_⟩
    · have hset := weight_modify (n := 0) (f := fun slots => slots.set side field value) hx
        (by rw [Nat.zero_add]; exact slotsWeight_set hfree value)
      have hsize := h.size
      rw [weight_resized] at hset
      show weight (setSlot s.seen index side field value) 0 + _ ≤ _
      rw [setSlot, hset]
      dsimp only
      omega
    · rw [setSlot, List.getElem?_modify, Option.map_eq_map, Option.map_eq_some_iff] at hy
      obtain ⟨z, hz, rfl⟩ := hy
      have hold : ∀ side field v, z side field = some v → byteLength (fieldLine i side field v) ≤ maxLineBytes := by
        rcases getElem?_resized hz with hz | rfl
        · exact h.fits i z hz
        · intro _ _ _ hnone
          cases hnone
      split at hv
      · next heq =>
        subst heq
        by_cases hfield : (side', field') = (side, field)
        · cases hfield
          rw [Slots.set_same] at hv
          cases hv
          exact hline.trans hlen
        · rw [Slots.set_other hfield] at hv
          exact hold side' field' v hv
      · exact hold side' field' v hv
    · show (setSlot s.seen index side field value).length ≤ maxRecords
      rw [setSlot, List.length_modify]
      exact length_resized_le h.count hindex

theorem problems_of_scan {s : Scan} {ls : List Text} {n : Nat} (h : (scan s ls n).problems = []) :
    s.problems = [] := by
  induction ls generalizing s n with
  | nil => exact h
  | cons l ls ih => exact (scanLine_clean (ih h)).1

theorem scan_bounded {s : Scan} {ls : List Text} {n used : Nat} (h : Bounded s used)
    (hnone : (scan s ls n).problems = []) : Bounded (scan s ls n) (used + lineSizes ls) := by
  induction ls generalizing s n used with
  | nil => exact h
  | cons l ls ih =>
    rw [scan_cons] at hnone ⊢
    rw [lineSizes_cons, ← Nat.add_assoc]
    exact ih (h.clean (scanLine_clean (problems_of_scan hnone)).2) hnone

/-! ## The records -/

theorem buildSide_ok {slots : SideKey → Option Text} {index : Nat} {side : Side} {f : SideFields}
    (h : buildSide slots index side = .ok f) : f.Writable ∧ ∀ k, slots k = some (f.value k) := by
  unfold buildSide at h
  dsimp only at h
  split at h
  · cases h
  · next hproblems =>
    have hvalid : ∀ k, ∃ v, slots k = some v ∧ valueReadsBackAsOneLine v = true := by
      intro k
      have hk := List.filterMap_eq_nil_iff.1 (not_not.1 hproblems) k (mem_sideKeys k)
      split at hk
      · next hany => exact (Option.any_eq_true _ _).1 hany
      · cases hk
    split at h
    · cases h
    · next domain hdomain =>
      split at h
      · cases h
      · next ports hports =>
        split at h
        · next hbound =>
          cases h
          have hslot : ∀ k, slots k = some ((slots k).getD []) := by
            intro k
            obtain ⟨v, hv, -⟩ := hvalid k
            rw [hv, Option.getD_some]
          have hread : ∀ k, valueReadsBackAsOneLine ((slots k).getD []) = true := by
            intro k
            obtain ⟨v, hv, hreads⟩ := hvalid k
            rw [hv, Option.getD_some]
            exact hreads
          obtain ⟨hne, hzero, hformat⟩ := parsePortsText_ok_iff.1 hports
          refine ⟨⟨hread .identity, hread .path, hread .controller, hne, hbound.2, hzero⟩, fun k => ?_⟩
          cases k with
          | identity | path | controller => exact hslot _
          | domain => rw [hslot .domain, SideFields.value, SplitDomain.parseCanonical_ok_iff.1 hdomain]
          | ports => rw [hslot .ports, SideFields.value, hformat]
        · cases h

theorem buildSide_error {slots : SideKey → Option Text} {index : Nat} {side : Side} {ps : List Text}
    (h : buildSide slots index side = .error ps) : ps ≠ [] := by
  unfold buildSide at h
  dsimp only at h
  split at h
  · next hproblems =>
    cases h
    exact hproblems
  · split at h
    · cases h
      exact List.cons_ne_nil _ _
    · split at h
      · cases h
        exact List.cons_ne_nil _ _
      · split at h
        · cases h
        · cases h
          exact List.cons_ne_nil _ _

theorem buildRecord_ok {x : Slots} {index : Nat} (h : (buildRecord x index).1 = []) :
    ∃ r, buildRecord x index = ([], some r) ∧ r.slots = x ∧ ∀ side, (r.side side).Writable := by
  unfold buildRecord at h ⊢
  split at h
  · next rgb ir hrgb hir =>
    obtain ⟨hrgbWritable, hrgbSlots⟩ := buildSide_ok hrgb
    obtain ⟨hirWritable, hirSlots⟩ := buildSide_ok hir
    refine ⟨{ rgb, ir }, rfl, ?_, fun side => ?_⟩
    · funext side k
      cases side with
      | rgb => exact (hrgbSlots k).symm
      | ir => exact (hirSlots k).symm
    · cases side with
      | rgb => exact hrgbWritable
      | ir => exact hirWritable
  · next hir => exact absurd h (buildSide_error hir)
  · next hrgb _ => exact absurd h (buildSide_error hrgb)
  · next hrgb _ => exact absurd (List.append_eq_nil_iff.1 h).1 (buildSide_error hrgb)

theorem built_slots {seen : List Slots} {n : Nat} {built : List (List Text × Option AuthorizationRecord)}
    (hbuilt : (seen.zipIdx n).map (fun (x, i) => buildRecord x i) = built)
    (h : built.flatMap Prod.fst = []) : (built.filterMap Prod.snd).map AuthorizationRecord.slots = seen ∧
      ∀ r ∈ built.filterMap Prod.snd, ∀ side, (r.side side).Writable := by
  subst hbuilt
  induction seen generalizing n with
  | nil => exact ⟨rfl, nofun⟩
  | cons x seen ih =>
    rw [List.zipIdx_cons, List.map_cons, List.flatMap_cons, List.append_eq_nil_iff] at h
    obtain ⟨r, hr, hslots, hwritable⟩ := buildRecord_ok h.1
    obtain ⟨hrest, hrestWritable⟩ := ih h.2
    rw [List.zipIdx_cons, List.map_cons]
    dsimp only
    rw [hr, List.filterMap_cons_some (show Prod.snd (([] : List Text), some r) = some r from rfl), List.map_cons,
      hrest, hslots]
    refine ⟨rfl, fun r' hr' => ?_⟩
    rcases List.mem_cons.1 hr' with rfl | hr'
    · exact hwritable
    · exact hrestWritable r' hr'

/-! ## Writing them back -/

theorem mapM_checkedLine_of_fits {α : Type} {f : α → Text} {as : List α}
    (h : ∀ a ∈ as, byteLength (f a) ≤ maxLineBytes) :
    as.mapM (fun a => checkedLine (f a)) = .ok (as.map f) := by
  induction as with
  | nil => rfl
  | cons a as ih =>
    have ha := h a List.mem_cons_self
    have hline : checkedLine (f a) = .ok (f a) := if_neg (by omega)
    rw [List.mapM_cons, hline, ih fun b hb => h b (List.mem_cons_of_mem _ hb)]
    rfl

theorem sideLines_of_writable {i : Nat} {side : Side} {f : SideFields} (h : f.Writable)
    (hfits : ∀ k, byteLength (fieldLine i side k (f.value k)) ≤ maxLineBytes) :
    sideLines i side f = .ok (sideKeys.map fun k => fieldLine i side k (f.value k)) := by
  have hne : ∀ v, valueReadsBackAsOneLine v = true → v ≠ [] := fun v hv => (valueReadsBackAsOneLine_iff.1 hv).1
  have hfields : ¬ (f.identity = [] ∨ f.path = [] ∨ f.controller = [] ∨
      [f.identity, f.path, f.controller].any (fun v => !valueReadsBackAsOneLine v) = true) := by
    simp [hne _ h.identity, hne _ h.path, hne _ h.controller, h.identity, h.path, h.controller]
  have hports : ¬ (f.ports = [] ∨ maxPortElements < f.ports.length ∨ 0 ∈ f.ports) := by
    simp [h.ports, h.few, h.nonzero]
  rw [sideLines, if_neg hfields, if_neg hports]
  exact mapM_checkedLine_of_fits fun k _ => hfits k

theorem recordLines_of_written {r : AuthorizationRecord} {i : Nat} (h : r.Written i) :
    recordLines r i = .ok (fieldOrder.map (r.line i)) := by
  have hrgb := sideLines_of_writable (h.writable .rgb) fun k => h.fits (.rgb, k)
  have hir := sideLines_of_writable (h.writable .ir) fun k => h.fits (.ir, k)
  rw [recordLines]
  erw [hrgb, hir]
  rfl

theorem recordLines_all {records : List AuthorizationRecord} {n : Nat}
    (h : ∀ (i : Nat) (r : AuthorizationRecord), records[i]? = some r → r.Written (n + i)) :
    ∃ written, (records.zipIdx n).mapM (fun (r, i) => recordLines r i) = .ok written ∧
      lineSizes written.flatten = weight (records.map AuthorizationRecord.slots) n := by
  induction records generalizing n with
  | nil => exact ⟨[], rfl, rfl⟩
  | cons r records ih =>
    have hr : r.Written n := h 0 r rfl
    obtain ⟨written, hwritten, hsize⟩ := ih (n := n + 1) fun i r hi => by
      rw [Nat.add_right_comm]
      exact h (i + 1) r hi
    refine ⟨fieldOrder.map (r.line n) :: written, ?_, ?_⟩
    · rw [List.zipIdx_cons, List.mapM_cons]
      dsimp only
      rw [recordLines_of_written hr, hwritten]
      rfl
    · rw [List.flatten_cons, lineSizes_append, hsize, List.map_cons, weight_cons]
      rfl

theorem serializeGeneration_eq {records : List AuthorizationRecord} (hcount : records.length ≤ maxRecords)
    (h : ∀ (i : Nat) (r : AuthorizationRecord), records[i]? = some r → r.Written i) :
    ∃ written, records.zipIdx.mapM (fun (r, i) => recordLines r i) = .ok written ∧
      byteLength (unlines ("version=1".toList :: written.flatten)) =
        10 + weight (records.map AuthorizationRecord.slots) 0 ∧
      serializeGeneration records =
        if maxFileBytes < byteLength (unlines ("version=1".toList :: written.flatten)) then .error .fileTooLong
        else .ok (unlines ("version=1".toList :: written.flatten)) := by
  obtain ⟨written, hwritten, hsize⟩ := @recordLines_all records 0 fun i r hi => by
    rw [Nat.zero_add]
    exact h i r hi
  refine ⟨written, hwritten, ?_, ?_⟩
  · rw [byteLength_unlines (List.cons_ne_nil _ _), lineSizes_cons, hsize]
    rfl
  · rw [serializeGeneration, if_neg (by omega), hwritten]
    rfl

theorem take_zipIdx {α : Type} (l : List α) (k n : Nat) : (l.zipIdx n).take k = (l.take k).zipIdx n := by
  induction l generalizing k n with
  | nil => simp
  | cons a l ih =>
    cases k with
    | zero => rfl
    | succ k => rw [List.zipIdx_cons, List.take_succ_cons, ih, List.take_succ_cons, List.zipIdx_cons]

theorem scanned_of_valid {text : Text} {records : List AuthorizationRecord}
    (h : parseGeneration text = .valid records) :
    byteLength text ≤ maxFileBytes ∧ records.length ≤ maxRecords ∧
      (∀ (i : Nat) (r : AuthorizationRecord), records[i]? = some r → r.Written i) ∧
      10 + weight (records.map AuthorizationRecord.slots) 0 ≤ lineSizes (lines text) := by
  unfold parseGeneration at h
  split at h
  · cases h
  · next hsize =>
    dsimp only at h
    by_cases hone : (scan {} (lines text) 0).versionLines = 1
    · rw [if_pos hone, List.append_nil] at h
      split at h
      · next hproblems =>
        obtain rfl := GenerationObservation.valid.inj h
        obtain ⟨hscan, hbuilt⟩ := List.append_eq_nil_iff.1 hproblems
        have hstart : Bounded {} 0 := ⟨Nat.le_refl _, nofun, Nat.zero_le _⟩
        have hbounded := scan_bounded hstart hscan
        rw [Nat.zero_add] at hbounded
        generalize scan {} (lines text) 0 = s at *
        rw [take_zipIdx] at hbuilt ⊢
        obtain ⟨hslots, hwritable⟩ := built_slots rfl hbuilt
        generalize ((s.seen.take ((s.maxIndex.map (· + 1)).getD 0)).zipIdx.map fun (x, i) =>
          buildRecord x i).filterMap Prod.snd = records at *
        have hlength := congrArg List.length hslots
        rw [List.length_map, List.length_take] at hlength
        refine ⟨by omega, ?_, fun i r hi => ⟨hwritable r (List.mem_of_getElem? hi), fun f => ?_⟩, ?_⟩
        · have hcount := hbounded.count
          omega
        · have hslot : (records.map AuthorizationRecord.slots)[i]? = some r.slots := by
            rw [List.getElem?_map, hi, Option.map_some]
          rw [hslots] at hslot
          rw [List.getElem?_take] at hslot
          have hseen : s.seen[i]? = some r.slots := by
            split at hslot
            · exact hslot
            · cases hslot
          exact hbounded.fits i r.slots hseen f.1 f.2 _ rfl
        · have hle := weight_take_le s.seen ((s.maxIndex.map (· + 1)).getD 0) 0
          have hweight := hbounded.size
          rw [hslots]
          omega
      · cases h
    · rw [if_neg hone] at h
      split at h
      · next hproblems => simp at hproblems
      · cases h

/-- **What was read is written back**, but where the file has the most bytes it may and no newline at its end:
there the newline may be one byte too many. -/
theorem serializeGeneration_of_valid {text : Text} {records : List AuthorizationRecord}
    (h : parseGeneration text = .valid records) :
    (∃ out, serializeGeneration records = .ok out) ∨
      (serializeGeneration records = .error .fileTooLong ∧ byteLength text = maxFileBytes ∧
        text.getLast? ≠ some '\n') := by
  obtain ⟨hsize, hcount, hwritten, hweight⟩ := scanned_of_valid h
  obtain ⟨written, -, hlength, hwrite⟩ := serializeGeneration_eq hcount hwritten
  have hlines := lineSizes_lines_le text
  by_cases hlong : maxFileBytes < byteLength (unlines ("version=1".toList :: written.flatten))
  · right
    rw [hlength] at hlong
    refine ⟨hwrite.trans (if_pos (by omega)), ?_, fun hlast => ?_⟩
    · have hone := unended_le text
      omega
    · rw [unended, if_pos (.inr hlast)] at hlines
      omega
  · exact .inl ⟨_, hwrite.trans (if_neg hlong)⟩

/-- A record that is read and written back. -/
theorem serializeGeneration_of_valid_laptop :
    ∃ text out, parseGeneration text = .valid [laptopRecord] ∧ serializeGeneration [laptopRecord] = .ok out := by
  have hok : (serializeGeneration [laptopRecord]).toOption.isSome = true := by decide +kernel
  cases hwrite : serializeGeneration [laptopRecord] with
  | error e =>
    rw [hwrite] at hok
    cases hok
  | ok text =>
    have hread := parseGeneration_of_serialized hwrite
    rcases serializeGeneration_of_valid hread with ⟨out, hout⟩ | ⟨herror, -⟩
    · exact ⟨text, out, hread, hwrite.symm.trans hout⟩
    · cases hwrite.symm.trans herror

/-! ## One byte too many -/

theorem lines_intercalate {ls : List Text} (h : ls ≠ []) (hline : ∀ l ∈ ls, '\n' ∉ l ∧ stripCr l = l ∧ l ≠ []) :
    lines (['\n'].intercalate ls) = ls := by
  have hsplit : (['\n'].intercalate ls).splitOn '\n' = ls :=
    List.splitOn_intercalate '\n' (fun l hl => (hline l hl).1) h
  have hlast := hline _ (List.getLast_mem h)
  have hinit : ls.dropLast.map stripCr = ls.dropLast := by
    rw [List.map_congr_left fun l hl => (hline l (List.dropLast_subset _ hl)).2.1, List.map_id']
  simp only [lines, hsplit, hinit, List.getLast?_eq_some_getLast h, Option.filter_some, hlast.2.2, ne_eq,
    not_false_eq_true, decide_true, if_true, Option.toList_some, List.dropLast_append_getLast]

theorem parseGeneration_intercalate {records : List AuthorizationRecord} {written : List (List Text)}
    (hcount : records.length ≤ maxRecords)
    (hwritten : records.zipIdx.mapM (fun (r, i) => recordLines r i) = .ok written)
    (hsize : byteLength (unlines ("version=1".toList :: written.flatten)) ≤ maxFileBytes + 1) :
    parseGeneration (['\n'].intercalate ("version=1".toList :: written.flatten)) = .valid records := by
  obtain ⟨-, hlines⟩ := mem_written hwritten
  refine parseGeneration_of_lines hcount hwritten (lines_intercalate (List.cons_ne_nil _ _) ?_) ?_
  · intro l hl
    rcases List.mem_cons.1 hl with rfl | hl
    · decide
    · exact hlines l hl
  · rw [unlines, byteLength_append, byteLength_newline] at hsize
    omega

/-- A record with values of `n` letters. -/
def longRecord (n : Nat) : AuthorizationRecord :=
  let side : SideFields := { identity := List.replicate n 'a', path := List.replicate n 'a',
                             controller := List.replicate n 'a', domain := .usb2, ports := [1] }
  { rgb := side, ir := side }

theorem byteLength_replicate (n : Nat) : byteLength (List.replicate n 'a') = n := by
  induction n with
  | zero => rfl
  | succ n ih =>
    have hone : byteLength ['a'] = 1 := by decide
    rw [List.replicate_succ, ← List.singleton_append, byteLength_append, hone, ih, Nat.add_comm]

theorem byteLength_fieldLine (i : Nat) (side : Side) (field : SideKey) (v : Text) :
    byteLength (fieldLine i side field v) = byteLength (recordKey i side field) + 1 + byteLength v := by
  have heq : byteLength ['='] = 1 := by decide
  rw [fieldLine, ← List.singleton_append, byteLength_append, byteLength_append, heq]
  omega

theorem longRecord_writable {n : Nat} (hn : 0 < n) (side : Side) : ((longRecord n).side side).Writable := by
  have hvalue : valueReadsBackAsOneLine (List.replicate n 'a') = true := by
    refine valueReadsBackAsOneLine_of_plain ?_ fun c hc => ?_
    · intro hnil
      rw [List.replicate_eq_nil_iff] at hnil
      omega
    · rw [List.eq_of_mem_replicate hc]
      decide
  have hfew : ([1] : List UInt8).length ≤ maxPortElements := by decide
  have hzero : (0 : UInt8) ∉ [1] := by decide
  cases side <;> exact ⟨hvalue, hvalue, hvalue, List.cons_ne_nil _ _, hfew, hzero⟩

theorem longRecord_value_le {n : Nat} (hn : 4 ≤ n) (side : Side) (field : SideKey) :
    byteLength (((longRecord n).side side).value field) ≤ n := by
  have hvalue := byteLength_replicate n
  have hdomain : byteLength SplitDomain.usb2.asStr = 4 := by decide
  have hports : byteLength (formatPortsText [1]) = 1 := by decide
  cases side <;> cases field <;> simp only [AuthorizationRecord.side, longRecord, SideFields.value] <;> omega

theorem slotsWeight_longRecord (i n : Nat) :
    slotsWeight i (longRecord n).slots = slotsWeight i (longRecord 0).slots + 6 * n := by
  have hnil : byteLength [] = 0 := rfl
  simp [slotsWeight, fieldOrder, sides, sideKeys, fieldWeight, AuthorizationRecord.slots, AuthorizationRecord.side,
    SideFields.value, longRecord, byteLength_fieldLine, byteLength_replicate, hnil]
  omega

theorem byteLength_recordKey_le : ∀ i < 11, ∀ side ∈ sides, ∀ field ∈ sideKeys,
    byteLength (recordKey i side field) ≤ 21 + i / 10 := by
  decide +kernel

theorem longRecord_written {i n : Nat} (hi : i < 11) (hn : 4 ≤ n) (hfits : 22 + i / 10 + n ≤ maxLineBytes) :
    (longRecord n).Written i := by
  refine ⟨longRecord_writable (by omega), fun ⟨side, field⟩ => ?_⟩
  have hside : side ∈ sides := by cases side <;> decide
  have hkey := byteLength_recordKey_le i hi side hside field (mem_sideKeys field)
  have hvalue := longRecord_value_le hn side field
  rw [AuthorizationRecord.line, byteLength_fieldLine]
  dsimp only
  omega

/-- Ten records with the longest lines there are, and one that is as long as the rest of the file. -/
def fullRecords : List AuthorizationRecord := List.replicate 10 (longRecord 1002) ++ [longRecord 531]

theorem fullRecords_written (i : Nat) (r : AuthorizationRecord) (h : fullRecords[i]? = some r) : r.Written i := by
  have hmax : maxLineBytes = 1024 := rfl
  rw [fullRecords, List.getElem?_append] at h
  split at h
  · next hlt =>
    rw [List.length_replicate] at hlt
    rw [List.eq_of_mem_replicate (List.mem_of_getElem? h)]
    exact longRecord_written (by omega) (by omega) (by omega)
  · have hlt := (List.getElem?_eq_some_iff.1 h).1
    have hmem := List.mem_of_getElem? h
    rw [List.length_replicate, List.length_singleton] at hlt
    rw [List.mem_singleton.1 hmem]
    exact longRecord_written (by omega) (by omega) (by omega)

theorem weight_fullRecords : weight (fullRecords.map AuthorizationRecord.slots) 0 = maxFileBytes - 9 := by
  have hone : ∀ i < 10, slotsWeight i (longRecord 0).slots = 201 := by decide +kernel
  have hten : slotsWeight 10 (longRecord 0).slots = 211 := by decide +kernel
  have hfront : ∀ k n, n + k ≤ 10 → weight (List.replicate k (longRecord 1002).slots) n = k * 6213 := by
    intro k
    induction k with
    | zero => exact fun _ _ => (Nat.zero_mul _).symm
    | succ k ih =>
      intro n hn
      rw [List.replicate_succ, weight_cons, ih (n + 1) (by omega), slotsWeight_longRecord, hone n (by omega)]
      omega
  rw [fullRecords, List.map_append, List.map_replicate, weight_append, hfront 10 0 (by omega),
    List.length_replicate, List.map_singleton, weight_cons, slotsWeight_longRecord, hten]
  rfl

/-- **A file that cannot be written back**: it has `maxFileBytes` bytes and no newline at its end. -/
theorem not_serializeGeneration_of_valid :
    (∃ text, byteLength text = maxFileBytes ∧ parseGeneration text = .valid fullRecords ∧
      serializeGeneration fullRecords = .error .fileTooLong) ∧
    ¬ ∀ (text : Text) (records : List AuthorizationRecord), parseGeneration text = .valid records →
      ∃ out, serializeGeneration records = .ok out := by
  have hcount : fullRecords.length ≤ maxRecords := by decide
  obtain ⟨written, hwritten, hlength, hwrite⟩ := serializeGeneration_eq hcount fullRecords_written
  rw [weight_fullRecords] at hlength
  have hmax : maxFileBytes = 65536 := rfl
  have herror : serializeGeneration fullRecords = .error .fileTooLong := hwrite.trans (if_pos (by omega))
  have hread := parseGeneration_intercalate hcount hwritten (by omega)
  refine ⟨⟨_, ?_, hread, herror⟩, fun h => ?_⟩
  · rw [unlines, byteLength_append, byteLength_newline] at hlength
    omega
  · obtain ⟨out, hout⟩ := h _ _ hread
    cases herror.symm.trans hout

end Irlume.Split

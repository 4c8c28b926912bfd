import Irlume.Attempts.History

/-!
# Runs of the history writer

What the record shows of its history, over any attempts filed at any times.
-/

namespace Irlume.Attempts

variable {δ : Type}

def historyAll (fs : List (Filed δ)) : History δ :=
  fs.zipIdx.foldl (fun h (filed, i) => h.file (filed.entry (i + 1)) filed.now) .empty

section

variable (fs : List (Filed δ))

theorem historyAll_concat (f : Filed δ) :
    historyAll (fs ++ [f]) = (historyAll fs).file (f.entry (fs.length + 1)) f.now := by
  simp [historyAll, List.zipIdx_append]

theorem entries_concat (f : Filed δ) :
    entries (fs ++ [f]) = entries fs ++ [f.entry (fs.length + 1)] := by
  simp [entries, List.zipIdx_append]

theorem length_entries : (entries fs).length = fs.length := by simp [entries]

end

/-- The record shows the history, and the next attempt gets the next number. -/
structure Stored.Tracks (n : Nat) (s : Stored δ) (h : History δ) : Prop where
  showing : Shows s.record h
  ordered : Ordered n h
  next : n + 1 < 2 ^ 64 → max s.nextSeq 1 = n + 1

def History.Uses (h : History δ) (now : Nat) (c : AttemptCamera) : Prop :=
  c ∈ (h.live now).map Prod.fst

def filedFor (fs : List (Filed δ)) (start : Nat) (c : AttemptCamera) : List (AttemptEntry δ) :=
  ((entries fs).drop start).filter (·.camera = some c)

variable {c : AttemptCamera}

theorem filedFor_concat {fs : List (Filed δ)} {f : Filed δ} {start : Nat}
    (h : start ≤ fs.length) : filedFor (fs ++ [f]) start c =
      filedFor fs start c ++ if f.camera = some c then [f.entry (fs.length + 1)] else [] := by
  rw [filedFor, entries_concat, List.drop_append_of_le_length (by rw [length_entries]; exact h),
    List.filter_append, filedFor]
  congr 1
  by_cases hc : f.camera = some c <;> simp [Filed.entry, hc]

/-- Where the bucket of a camera was last made: it was not in use then, and it was in use whenever an
attempt was filed later. -/
structure History.MadeAt (fs before : List (Filed δ)) (made : Filed δ) (after : List (Filed δ))
    (c : AttemptCamera) : Prop where
  split : fs = before ++ made :: after
  camera : made.camera = some c
  fresh : ¬(historyAll before).Uses made.now c
  kept : ∀ p f q, after = p ++ f :: q → (historyAll (before ++ made :: p)).Uses f.now c

theorem History.MadeAt.concat {fs before after : List (Filed δ)} {made f : Filed δ}
    (h : History.MadeAt fs before made after c)
    (hkept : (historyAll fs).Uses f.now c) :
    History.MadeAt (fs ++ [f]) before made (after ++ [f]) c := by
  refine ⟨by simp [h.split], h.camera, h.fresh, ?_⟩
  intro p g q heq
  rcases List.eq_nil_or_concat q with rfl | ⟨q, g', rfl⟩
  · obtain ⟨rfl, hg⟩ := List.append_inj' heq rfl
    obtain rfl := (List.cons.inj hg).1
    rw [← h.split]
    exact hkept
  · rw [List.concat_eq_append, ← List.cons_append, ← List.append_assoc] at heq
    exact h.kept p g q (List.append_inj' heq rfl).1

/-- A bucket holds what was filed for its camera since it was made. -/
theorem History.since {fs : List (Filed δ)} {es : List (AttemptEntry δ)}
    (h : (c, es) ∈ (historyAll fs).buckets) : ∃ before made after,
      History.MadeAt fs before made after c ∧ es = (filedFor fs before.length c).reverse := by
  induction fs using List.reverseRecOn generalizing c es with
  | nil => cases h
  | append_singleton fs f ih =>
    -- A bucket that was in use when the last attempt was filed.
    have hold : ∀ {es : List (AttemptEntry δ)}, (c, es) ∈ (historyAll fs).live f.now →
        ∃ before made after, History.MadeAt (fs ++ [f]) before made after c ∧
          (if f.camera = some c then f.entry (fs.length + 1) :: es else es) =
            (filedFor (fs ++ [f]) before.length c).reverse := by
      intro es hes
      obtain ⟨before, made, after, hmade, heq⟩ := ih (List.mem_filter.1 hes).1
      refine ⟨before, made, after ++ [f], hmade.concat (List.mem_map.2 ⟨_, hes, rfl⟩), ?_⟩
      have hle : before.length ≤ fs.length := by
        rw [hmade.split, List.length_append]
        exact Nat.le_add_right _ _
      rw [filedFor_concat hle, List.reverse_append, ← heq]
      split <;> rfl
    rw [historyAll_concat] at h
    unfold History.file at h
    cases hc : (f.entry (fs.length + 1)).camera with
    | none =>
      simp only [hc] at h
      have hf : f.camera ≠ some c := by
        intro heq
        rw [show (f.entry (fs.length + 1)).camera = f.camera from rfl, heq] at hc
        cases hc
      obtain ⟨before, made, after, hmade, heq⟩ := hold h
      rw [if_neg hf] at heq
      exact ⟨before, made, after, hmade, heq⟩
    | some c' =>
      simp only [hc] at h
      have hf : f.camera = some c' := hc
      rcases List.mem_cons.1 (List.mem_of_mem_take h) with heq | hrest
      · cases heq
        cases hlookup : ((historyAll fs).live f.now).lookup c with
        | some mine =>
          obtain ⟨before, made, after, hmade, heq⟩ := hold (lookup_eq_some hlookup)
          rw [if_pos hf] at heq
          exact ⟨before, made, after, hmade, heq⟩
        | none =>
          refine ⟨fs, f, [], ⟨rfl, hf, ?_, ?_⟩, ?_⟩
          · intro huses
            obtain ⟨b, hb, hbc⟩ := List.mem_map.1 huses
            have hne := List.lookup_eq_none_iff.1 hlookup b hb
            exact absurd hbc.symm (by simpa using hne)
          · intro p g q hnil
            cases p <;> cases hnil
          · have hfresh : (entries fs).drop fs.length = [] := by
              rw [← length_entries fs, List.drop_length]
            rw [filedFor_concat (Nat.le_refl _), filedFor, hfresh, if_pos hf]
            rfl
      · obtain ⟨hlive, hne⟩ := List.mem_filter.1 hrest
        obtain ⟨before, made, after, hmade, heq⟩ := hold hlive
        have hne : c ≠ c' := by simpa using hne
        have hf' : f.camera ≠ some c := by
          rw [hf]
          intro heq
          exact hne (Option.some.inj heq).symm
        rw [if_neg hf'] at heq
        exact ⟨before, made, after, hmade, heq⟩

/-- A bucket goes only when nobody used it for the time a bucket is kept, or as the least recently used of one
too many. -/
theorem History.dropped {n : Nat} {h : History δ} (ho : Ordered n h) {entry : AttemptEntry δ}
    (hseq : entry.seq = n + 1) {now : Nat} {b : AttemptCamera × List (AttemptEntry δ)}
    (hb : b ∈ h.buckets) (hgone : b.1 ∉ (h.file entry now).buckets.map Prod.fst) :
    recent now b.2 = false ∨ ((h.file entry now).buckets.length = maxCameras ∧
      ∀ b' ∈ (h.file entry now).buckets, newestSeq b.2 < newestSeq b'.2) := by
  cases hrecent : recent now b.2 with
  | false => exact .inl rfl
  | true =>
    right
    have hlive : b ∈ h.live now := List.mem_filter.2 ⟨hb, hrecent⟩
    have horder := ho.live now
    unfold History.file at hgone ⊢
    cases hc : entry.camera with
    | none =>
      simp only [hc] at hgone
      exact absurd (List.mem_map.2 ⟨b, hlive, rfl⟩) hgone
    | some c =>
      simp only [hc] at hgone ⊢
      have hall := horder.cons hseq hc (Ordered.mine h now c)
        (List.filter_sublist (p := fun b => b.1 ≠ c)) fun b hb => by
          simpa using (List.mem_filter.1 hb).2
      generalize ((h.live now).lookup c).getD [] = mine at hgone hall ⊢
      have hne : b.1 ≠ c := by
        intro heq
        exact hgone (by simp [maxCameras, heq])
      have hmem : b ∈ (c, entry :: mine) :: (h.live now).filter (fun b => b.1 ≠ c) :=
        List.mem_cons_of_mem _ (List.mem_filter.2 ⟨hlive, by simpa using hne⟩)
      generalize (c, entry :: mine) :: (h.live now).filter (fun b => b.1 ≠ c) = l at hgone hall hmem ⊢
      -- The bucket is past the first `maxCameras`, all of them used more recently.
      rw [← List.take_append_drop maxCameras l] at hmem hall
      rcases List.mem_append.1 hmem with htake | hdrop
      · exact absurd (List.mem_map.2 ⟨b, htake, rfl⟩) hgone
      · have hlong : maxCameras < l.length := by
          have hpos := List.length_pos_of_mem hdrop
          rw [List.length_drop] at hpos
          omega
        refine ⟨List.length_take_of_le (Nat.le_of_lt hlong), ?_⟩
        intro b' hb'
        have hrecency := hall.recency
        rw [List.map_append, List.pairwise_append] at hrecency
        exact hrecency.2.2 _ (List.mem_map.2 ⟨b', hb', rfl⟩) _ (List.mem_map.2 ⟨b, hdrop, rfl⟩)

/-! ## The record -/

def AttemptRecord.Has (r : AttemptRecord δ) (c : AttemptCamera) : Prop := c ∈ r.cameras.map (·.camera)

structure Bounded (r : AttemptRecord δ) : Prop where
  distinct : (r.cameras.map (·.camera)).Nodup
  few : r.cameras.length ≤ maxCameras
  recency : (r.cameras.map fun b => (newest b).1).Pairwise (· > ·)
  each : ∀ b ∈ r.cameras, b.attempts ≠ [] ∧ b.attempts.length ≤ perCamera ∧
    (b.attempts.map (·.seq)).Pairwise (· > ·)

/-- `made` is the attempt the bucket of a camera was last made for: it had none then, and it had one, in
use, whenever an attempt was filed later. -/
structure MadeFor (fs before : List (Filed δ)) (made : Filed δ) (after : List (Filed δ))
    (c : AttemptCamera) : Prop where
  split : fs = before ++ made :: after
  camera : made.camera = some c
  fresh : ¬(prune (recordAll before).record made.now).Has c
  kept : ∀ p f q, after = p ++ f :: q → (prune (recordAll (before ++ made :: p)).record f.now).Has c

section Shows

variable {r : AttemptRecord δ} {h : History δ} {n : Nat}

end Shows

end Irlume.Attempts

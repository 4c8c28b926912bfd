import Irlume.Split.Overlap

/-!
# The numbers of committed generations

A publication numbers its generation above every file it lists and above the generation that `cameras.conf`
names. So a committed number stays out of reach as long as one of the two remembers it: the reference does until
the last record goes, and the file does after that, since the publication that drops the reference keeps the
file of its predecessor.

A second publication without records has no predecessor. It keeps nothing, and with the last file the highest
number is forgotten.
-/

namespace Irlume.Split

open Irlume.Lib Irlume.Config

variable {sha256 : List UInt8 → Vector UInt8 32} {s s' : Host}

/-! ## Committed numbers -/

/-- The generation a step names in `cameras.conf`. -/
def committedNumber (s : Host) (e : Event) : Option Nat :=
  match s.stage, e with
  | .written _ n _, .commit => some n
  | _, _ => none

def committedNumbers (sha256 : List UInt8 → Vector UInt8 32) (s : Host) (es : List Event) : List Nat :=
  (steps (step sha256) s es).filterMap fun x => committedNumber x.1 x.2

/-- Where the number of the highest generation could be forgotten, it is not. -/
def Remembers (s : Host) (e : Event) : Prop :=
  match s.stage, e with
  | .checked p, .write unlisted =>
    p.predecessor = none → ∀ g ∈ listGenerations s.files [],
      ∃ g' ∈ listGenerations s.files unlisted, g.1 ≤ g'.1
  | .committed keep, .list unlisted => keep = [] → listGenerations s.files unlisted = []
  | _, _ => True

instance (s : Host) (e : Event) : Decidable (Remembers s e) := by
  unfold Remembers
  split <;> infer_instance

theorem retentionTargets_nil (files : Directory) (unlisted : List Text) :
    retentionTargets files unlisted [] = (listGenerations files unlisted).map Prod.snd := by
  simp [retentionTargets]

variable {g : Nat}

theorem mem_listGenerations_of_mem {files : Directory} (hpos : 1 ≤ g) (hlt : g < 2 ^ 64)
    (h : generationName g ∈ files) : (g, generationName g) ∈ listGenerations files [] := by
  rw [listGenerations, List.mem_insertionSort]
  apply List.mem_filterMap.2
  refine ⟨generationName g, ?_, ?_⟩
  · simpa using AList.mem_keys.1 h
  · rw [parseGenerationName_generationName hpos hlt]
    rfl

/-! ## The invariant -/

/-- The host remembers `g`, the highest generation committed so far. -/
structure Remembered (s : Host) (g : Nat) : Prop where
  stage : StageOk s
  positive : 1 ≤ g
  fits : g < 2 ^ 64
  reference : ∀ r, s.reference = some r → r = g
  on_disk : generationName g ∈ s.files
  keeps : Keeps s.stage g ∨ s.stage = .committed []
  next : ∀ p n text, s.stage = .written p n text → g < n

theorem mem_sweepTemps {files : Directory} {left : List Text} (h : generationName g ∈ files) :
    generationName g ∈ sweepTemps files left := by
  rw [← AList.lookup_isSome, lookup_sweepTemps, AList.lookup_isSome]
  exact h

theorem mem_removeFile {removed : Bool} {name : Text} (hne : generationName g ≠ name)
    (h : generationName g ∈ s.files) : generationName g ∈ removeFile s removed name := by
  rw [← AList.lookup_isSome, lookup_removeFile hne, AList.lookup_isSome]
  exact h

theorem Remembered.newGeneration {g n : Nat} {text : Text} {p : Publication} {unlisted : List Text}
    (hs : Remembered s g) (hstage : s.stage = .checked p) (he : Remembers s (.write unlisted))
    (hnew : newGeneration p (listGenerations s.files unlisted) = .ok (n, text)) : g < n := by
  obtain ⟨-, -, -, hlisted, habove⟩ := newGeneration_ok hnew
  have hp : p.predecessor = s.reference := predecessor_eq hs.stage (by rw [hstage]; rfl)
  cases hreference : s.reference with
  | some r =>
    obtain rfl := hs.reference r hreference
    exact habove r (hp.trans hreference)
  | none =>
    simp only [Remembers, hstage] at he
    obtain ⟨g', hg', hle⟩ := he (hp.trans hreference) _
      (mem_listGenerations_of_mem hs.positive hs.fits hs.on_disk)
    exact lt_of_le_of_lt hle (hlisted g' hg')

theorem remembered_of_commit {p : Publication} {n : Nat} {text : Text} (hok : StageOk s)
    (hstage : s.stage = .written p n text) (h : step sha256 s .commit = some s') : Remembered s' n := by
  have hnext := stageOk_step hok h
  rw [StageOk, hstage] at hok
  cases step_inv h with
  | commitRemoval hchecked =>
    rw [hstage] at hchecked
    cases hchecked
  | commitReference hwritten hout =>
    rw [hstage] at hwritten
    obtain ⟨rfl, rfl, rfl⟩ := Stage.written.inj hwritten
    obtain ⟨pair, -, -, hsplit⟩ := observe_commit_reference hok hout
    refine ⟨hnext, hok.positive, hok.fits, ?_, ?_, .inl List.mem_cons_self, ?_⟩
    · intro r hr
      rw [reference_conf_bytes rfl, splitKeysIn, hsplit] at hr
      exact (Option.some.inj hr).symm
    · rw [← AList.lookup_isSome, hok.on_disk]
      rfl
    · intro p n text hcommitted
      cases hcommitted

variable {e : Event}

theorem Remembered.step (hs : Remembered s g) (he : Remembers s e)
    (hnone : committedNumber s e = none) (h : step sha256 s e = some s') : Remembered s' g := by
  have hok := stageOk_step hs.stage h
  have hkeeps : ∀ {stage : Stage}, s.stage = stage → stage ≠ .committed [] → Keeps stage g := by
    rintro stage rfl hne
    exact hs.keeps.resolve_right hne
  cases step_inv h with
  | publish =>
    exact ⟨hok, hs.positive, hs.fits, hs.reference, mem_sweepTemps hs.on_disk, .inl trivial,
      fun _ _ _ hwritten => by cases hwritten⟩
  | write hstage hrecords hnew =>
    refine ⟨hok, hs.positive, hs.fits, hs.reference, (AList.mem_insert _).2 (.inr hs.on_disk),
      .inl trivial, ?_⟩
    intro p n text hwritten
    obtain ⟨rfl, rfl, rfl⟩ := Stage.written.inj hwritten
    exact hs.newGeneration hstage he hnew
  | @commitRemoval p out hstage hrecords hout =>
    have hp : p.predecessor = s.reference := predecessor_eq hs.stage (by rw [hstage]; rfl)
    have hbegin := hs.stage
    rw [StageOk, hstage] at hbegin
    have hsplit := (observe_commit_removal (beginPublication_ok hbegin).2.1 hout).2
    refine ⟨hok, hs.positive, hs.fits, ?_, hs.on_disk, ?_, fun _ _ _ hwritten => by cases hwritten⟩
    · intro r hr
      rw [@reference_conf_bytes _ out rfl, splitKeysIn, hsplit] at hr
      cases hr
    · -- the file of the predecessor is kept, and that is the highest one
      rw [hp]
      cases hreference : s.reference with
      | none => exact .inr rfl
      | some r =>
        obtain rfl := hs.reference r hreference
        exact .inl List.mem_cons_self
  | commitReference hstage =>
    simp only [committedNumber, hstage] at hnone
    cases hnone
  | @list unlisted keep hstage =>
    refine ⟨hok, hs.positive, hs.fits, hs.reference, hs.on_disk, .inl ?_,
      fun _ _ _ hwritten => by cases hwritten⟩
    by_cases hkeep : keep = []
    · subst hkeep
      simp only [Remembers, hstage, forall_const] at he
      show generationName g ∉ retentionTargets s.files unlisted []
      rw [retentionTargets_nil, he]
      exact List.not_mem_nil
    · apply not_mem_retentionTargets
      exact hkeeps hstage fun heq => hkeep (Stage.committed.inj heq)
  | remove hstage =>
    have htodo := hkeeps hstage (by simp)
    exact ⟨hok, hs.positive, hs.fits, hs.reference,
      mem_removeFile (List.ne_of_not_mem_cons htodo) hs.on_disk, .inl (List.not_mem_of_not_mem_cons htodo),
      fun _ _ _ hwritten => by cases hwritten⟩
  | sweep hstage =>
    refine ⟨hok, hs.positive, hs.fits, hs.reference, hs.on_disk, .inl ?_,
      fun _ _ _ hwritten => by cases hwritten⟩
    apply not_mem_sweepTargets
    intro r hr
    exact (hs.reference r hr).ge
  | sweepRemove hstage =>
    have htodo := hkeeps hstage (by simp)
    exact ⟨hok, hs.positive, hs.fits, hs.reference,
      mem_removeFile (List.ne_of_not_mem_cons htodo) hs.on_disk, .inl (List.not_mem_of_not_mem_cons htodo),
      fun _ _ _ hwritten => by cases hwritten⟩
  | stop =>
    exact ⟨hok, hs.positive, hs.fits, hs.reference, hs.on_disk, .inl trivial,
      fun _ _ _ hwritten => by cases hwritten⟩

/-! ## Runs -/

theorem committedNumber_eq_some {n : Nat} (h : committedNumber s e = some n) :
    e = .commit ∧ ∃ p text, s.stage = .written p n text := by
  unfold committedNumber at h
  split at h
  · next p m text hstage =>
    cases h
    exact ⟨rfl, p, text, hstage⟩
  · cases h

variable {es : List Event}

theorem committedNumbers_cons (h : step sha256 s e = some s') :
    committedNumbers sha256 s (e :: es) =
      (committedNumber s e).toList ++ committedNumbers sha256 s' es := by
  rw [committedNumbers, steps, h]
  cases hn : committedNumber s e with
  | none => simp [hn, committedNumbers]
  | some n => simp [hn, committedNumbers]

theorem committedNumbers_refused (h : step sha256 s e = none) :
    committedNumbers sha256 s (e :: es) = [] := by
  rw [committedNumbers, steps, h]
  rfl

theorem remembers_steps {P : Host × Event → Prop}
    (h : step sha256 s e = some s') (hall : ∀ x ∈ steps (step sha256) s (e :: es), P x) :
    P (s, e) ∧ ∀ x ∈ steps (step sha256) s' es, P x := by
  rw [steps, h] at hall
  exact List.forall_mem_cons.1 hall

theorem Remembered.committedNumbers (hs : Remembered s g)
    (hall : ∀ x ∈ steps (Split.step sha256) s es, Remembers x.1 x.2) :
    (g :: committedNumbers sha256 s es).Pairwise (· < ·) := by
  induction es generalizing s g with
  | nil => exact List.pairwise_singleton _ g
  | cons e es ih =>
    cases hstep : Split.step sha256 s e with
    | none =>
      rw [committedNumbers_refused hstep]
      exact List.pairwise_singleton _ g
    | some m =>
      obtain ⟨he, hrest⟩ := remembers_steps hstep hall
      rw [committedNumbers_cons hstep]
      cases hn : committedNumber s e with
      | none => exact ih (hs.step he hn hstep) hrest
      | some n =>
        obtain ⟨rfl, p, text, hstage⟩ := committedNumber_eq_some hn
        have hlater := ih (remembered_of_commit hs.stage hstage hstep) hrest
        have hlt : g < n := hs.next p n text hstage
        refine List.Pairwise.cons ?_ hlater
        intro n' hn'
        rcases List.mem_cons.1 hn' with rfl | hn'
        · exact hlt
        · exact hlt.trans (List.rel_of_pairwise_cons hlater hn')

theorem StageOk.committedNumbers (hs : StageOk s)
    (hall : ∀ x ∈ steps (step sha256) s es, Remembers x.1 x.2) :
    (committedNumbers sha256 s es).Pairwise (· < ·) := by
  induction es generalizing s with
  | nil => exact List.Pairwise.nil
  | cons e es ih =>
    cases hstep : step sha256 s e with
    | none =>
      rw [committedNumbers_refused hstep]
      exact List.Pairwise.nil
    | some m =>
      obtain ⟨-, hrest⟩ := remembers_steps hstep hall
      rw [committedNumbers_cons hstep]
      cases hn : committedNumber s e with
      | none => exact ih (stageOk_step hs hstep) hrest
      | some n =>
        obtain ⟨rfl, p, text, hstage⟩ := committedNumber_eq_some hn
        exact (remembered_of_commit hs hstage hstep).committedNumbers hrest

/-- **Generation numbers increase while they are remembered.** From any host at rest, in every run of
publications, crashes and sweeps in which no retention without a generation to keep finds files, and
in which a writer without a predecessor finds the highest file, each committed generation is numbered
above all committed before it. -/
theorem committed_numbers_increase (hidle : s.stage = .idle) {es : List Event}
    (hall : ∀ x ∈ steps (step sha256) s es, Remembers x.1 x.2) :
    (committedNumbers sha256 s es).Pairwise (· < ·) := by
  apply StageOk.committedNumbers _ hall
  rw [StageOk, hidle]
  trivial

def dropOnceRun : List Event :=
  [.publish laptopCall [], .write [], .commit, .list [], .stop,
    .publish ⟨[], none⟩ [], .commit, .list [], .stop,
    .publish laptopCall [], .write [], .commit, .list [], .stop]

/-- The records are dropped once. -/
theorem committed_numbers_increase_laptop :
    committedNumbers laptopSha256 freshHost dropOnceRun = [1, 2] ∧
      (committedNumbers laptopSha256 freshHost dropOnceRun).Pairwise (· < ·) := by
  refine ⟨by decide +kernel, committed_numbers_increase rfl ?_⟩
  decide +kernel

/-- The same with the records dropped a second time, when no generation is referenced any more. -/
def dropTwiceRun : List Event :=
  [.publish laptopCall [], .write [], .commit, .list [], .stop,
    .publish ⟨[], none⟩ [], .commit, .list [], .stop,
    .publish ⟨[], none⟩ [], .commit, .list [], .remove true, .stop,
    .publish laptopCall [], .write [], .commit, .list [], .stop]

/-- Every step of that run is taken, every file is listed, no process dies: number 1 is committed twice. -/
theorem number_committed_twice :
    (run (step laptopSha256) freshHost dropTwiceRun).isSome = true ∧
      committedNumbers laptopSha256 freshHost dropTwiceRun = [1, 1] ∧
      ¬ (committedNumbers laptopSha256 freshHost dropTwiceRun).Pairwise (· < ·) := by
  decide +kernel

end Irlume.Split

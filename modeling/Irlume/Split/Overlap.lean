import Irlume.Split.Reader

/-!
# A reader that overlaps one publication

A publication keeps the generation that `cameras.conf` named when it began. So a reader that observes
`cameras.conf` and then opens the generation it named finds it in place, with the bytes it had, as long as at
most one publication takes steps in between.
-/

namespace Irlume.Split

open Irlume.Lib Irlume.Config

variable {sha256 : List UInt8 → Vector UInt8 32} {s s' : Host}

/-! ## Coherent states -/

def SplitReadState.isCoherent : SplitReadState → Bool
  | .absent => true
  | .valid _ _ _ => true
  | _ => false

/-- A reader that meets no writer finds a whole publication or none. -/
def Coherent (sha256 : List UInt8 → Vector UInt8 32) (s : Host) : Prop :=
  (s.current sha256).isCoherent = true

/-- The generation that `cameras.conf` names. -/
def Host.reference (s : Host) : Option Nat := (splitKeysIn s.observe).map Prod.fst

theorem readObservation_coherent (h : Coherent sha256 s) :
    readObservation sha256 s.observe s.readFile = .ok (s.current sha256) := by
  have hread : readObservation sha256 (s.observeWith none) (s.readFileWith none) =
      readObservation sha256 s.observe s.readFile := rfl
  unfold Coherent Host.current readCameraSelection readCameraSelectionWith at h
  rw [hread] at h
  cases hobs : readObservation sha256 s.observe s.readFile with
  | ok state => rw [current_of_readObservation hobs]
  | error g =>
    rw [hobs] at h
    simp only at h
    split at h
    · split at h <;> cases h
    · next hchanged => exact (hchanged trivial).elim

theorem readGeneration_ne_absent {n : Nat} {digest : Text} {pair : Option Text}
    {read : Nat → Except IoError (List UInt8)} :
    readGeneration sha256 n digest pair read ≠ .ok .absent := by
  intro h
  unfold readGeneration at h
  repeat' split at h
  all_goals cases h

theorem not_malformedSelection_of_coherent (h : Coherent sha256 s) : isMalformedSelection s.observe = false := by
  have hread := readObservation_coherent h
  cases hsplit : s.observe.split with
  | none => simp [isMalformedSelection, hsplit]
  | reference => simp [isMalformedSelection, hsplit]
  | malformed => simp [isMalformedSelection, hsplit]
  | malformedSelection g digest =>
    exfalso
    simp only [readObservation, isMalformedSelection, hsplit, Bool.not_true, Bool.and_false,
      Bool.false_eq_true, if_false] at hread
    rw [Coherent] at h
    split at hread
    · rw [← Except.ok.inj hread] at h
      cases h
    · split at hread
      · rw [← Except.ok.inj hread] at h
        cases h
      · next other hne hother =>
        rw [← Except.ok.inj hread] at h
        cases other with
        | absent => exact readGeneration_ne_absent hother
        | valid a b c => exact (hne a b c rfl).elim
        | _ => cases h
      · rw [← Except.ok.inj hread] at h
        cases h

theorem readObservation_congr {obs : CameraConfObservation} {read read' : Nat → Except IoError (List UInt8)}
    (hselection : isMalformedSelection obs = false)
    (h : ∀ g, (splitKeysIn obs).map Prod.fst = some g → read' g = read g) :
    readObservation sha256 obs read' = readObservation sha256 obs read := by
  unfold readObservation
  cases hsplit : obs.split with
  | none => rfl
  | malformed => rfl
  | malformedSelection g digest => simp [isMalformedSelection, hsplit] at hselection
  | reference g digest pair =>
    have hg : read' g = read g := h g (by simp [splitKeysIn, hsplit])
    simp only [readGeneration, hg]

variable {t : Host} {g : Nat}

theorem readFile_congr
    (h : t.files.lookup (generationName g) = s.files.lookup (generationName g)) : t.readFile g = s.readFile g := by
  rw [Host.readFile, Host.readFile, h]

theorem observe_congr (h : t.conf = s.conf) : t.observe = s.observe := by
  rw [Host.observe, Host.observe, Host.readConf, Host.readConf, h]

theorem current_congr (h : Coherent sha256 s) (hconf : t.conf = s.conf)
    (hfile : ∀ g, s.reference = some g →
      t.files.lookup (generationName g) = s.files.lookup (generationName g)) :
    t.current sha256 = s.current sha256 := by
  apply current_of_readObservation
  rw [observe_congr hconf, ← readObservation_coherent h]
  exact readObservation_congr (not_malformedSelection_of_coherent h) fun g hg => readFile_congr (hfile g hg)

/-! ## What the holder of the lock keeps -/

/-- The holder of the lock will not remove the file of a generation. -/
def Keeps (stage : Stage) (g : Nat) : Prop :=
  match stage with
  | .committed keep => g ∈ keep
  | .retaining todo => generationName g ∉ todo
  | .sweeping todo => generationName g ∉ todo
  | _ => True

theorem not_mem_retentionTargets {files : Directory} {unlisted : List Text} {keep : List Nat}
    (h : g ∈ keep) : generationName g ∉ retentionTargets files unlisted keep := by
  intro hmem
  obtain ⟨⟨n, name⟩, he, hname⟩ := List.mem_map.1 hmem
  obtain ⟨hlisted, hkeep⟩ := List.mem_filter.1 he
  have hn := mem_listGenerations hlisted
  have heq : generationName g = generationName n := hname.symm.trans hn
  rw [generationName_injective heq] at h
  exact absurd h (of_decide_eq_true hkeep)

theorem not_mem_sweepTargets {files : Directory} {unlisted : List Text} {referenced : Option Nat}
    (h : ∀ r, referenced = some r → g ≤ r) :
    generationName g ∉ sweepTargets files unlisted referenced := by
  intro hmem
  have htarget := (List.mem_filter.1 hmem).2
  rw [isWriterTemp_generationName, Bool.false_or] at htarget
  obtain ⟨n, hn, habove⟩ := Option.any_eq_true .. |>.1 htarget
  obtain ⟨r, hr, hlt⟩ := Option.any_eq_true .. |>.1 habove
  have heq := generationName_injective (parseGenerationName_eq_some hn).1
  have hle := h r hr
  have hlt := of_decide_eq_true hlt
  omega

theorem lookup_removeFile {removed : Bool} {name : Text} (h : generationName g ≠ name) :
    (removeFile s removed name).lookup (generationName g) = s.files.lookup (generationName g) := by
  unfold removeFile
  split
  · exact AList.lookup_erase_ne h
  · rfl

section Kept

variable {e : Event} {g : Nat} (hkeeps : Keeps s.stage g)
  (hpredecessor : ∀ p, s.stage.publication = some p → p.predecessor = some g)

include hkeeps hpredecessor

theorem lookup_step (h : step sha256 s e = some s') :
    s'.files.lookup (generationName g) = s.files.lookup (generationName g) := by
  cases step_inv h with
  | publish => exact lookup_sweepTemps _ _ _
  | write hstage hrecords hnew =>
    apply AList.lookup_insert_ne
    intro heq
    have hlt := (newGeneration_ok hnew).2.2.2.2 g (hpredecessor _ (by rw [hstage]; rfl))
    have hsame := generationName_injective heq
    omega
  | commitRemoval => rfl
  | commitReference => rfl
  | list => rfl
  | remove hstage =>
    rw [hstage] at hkeeps
    exact lookup_removeFile (List.ne_of_not_mem_cons hkeeps)
  | sweep => rfl
  | sweepRemove hstage =>
    rw [hstage] at hkeeps
    exact lookup_removeFile (List.ne_of_not_mem_cons hkeeps)
  | stop => rfl

theorem keeps_step (hok : StageOk s) (hreference : ∀ r, s.reference = some r → g ≤ r)
    (h : step sha256 s e = some s') : Keeps s'.stage g := by
  cases step_inv h with
  | publish => trivial
  | write => trivial
  | commitRemoval hstage => exact Option.mem_toList.2 (hpredecessor _ (by rw [hstage]; rfl))
  | @commitReference p n text out hstage =>
    rw [StageOk, hstage] at hok
    have hp : p.predecessor = some g := hpredecessor _ (by rw [hstage]; rfl)
    have hne : g ≠ n := Nat.ne_of_lt (hok.above g hp)
    show g ∈ kept n p.predecessor
    simp [kept, hp, hne]
  | list hstage =>
    rw [hstage] at hkeeps
    exact not_mem_retentionTargets hkeeps
  | remove hstage =>
    rw [hstage] at hkeeps
    exact List.not_mem_of_not_mem_cons hkeeps
  | sweep => exact not_mem_sweepTargets hreference
  | sweepRemove hstage =>
    rw [hstage] at hkeeps
    exact List.not_mem_of_not_mem_cons hkeeps
  | stop => trivial

end Kept

/-! ## The invariant -/

/-- A host whose `cameras.conf` is coherent, with the generation it names kept. -/
structure Sound (sha256 : List UInt8 → Vector UInt8 32) (s : Host) : Prop where
  stage : StageOk s
  coherent : Coherent sha256 s
  keeps : ∀ g, s.reference = some g → Keeps s.stage g

theorem predecessor_eq (hok : StageOk s) {p : Publication} (hp : s.stage.publication = some p) :
    p.predecessor = s.reference := by
  have hbegin : beginPublication s.observe p.call = .ok p := by
    cases hstage : s.stage with
    | checked q =>
      rw [hstage] at hp
      rw [StageOk, hstage] at hok
      exact Option.some.inj hp ▸ hok
    | written q n text =>
      rw [hstage] at hp
      rw [StageOk, hstage] at hok
      exact Option.some.inj hp ▸ hok.begun
    | idle => rw [hstage] at hp; cases hp
    | committed => rw [hstage] at hp; cases hp
    | retaining => rw [hstage] at hp; cases hp
    | sweeping => rw [hstage] at hp; cases hp
  rw [(beginPublication_ok hbegin).2.2.2]
  rfl

theorem reference_congr (h : t.conf = s.conf) : t.reference = s.reference := by
  rw [Host.reference, Host.reference, observe_congr h]

variable {e : Event}

theorem Sound.lookup (hs : Sound sha256 s) (h : step sha256 s e = some s')
    (hg : s.reference = some g) :
    s'.files.lookup (generationName g) = s.files.lookup (generationName g) :=
  lookup_step (hs.keeps g hg) (fun _ hp => (predecessor_eq hs.stage hp).trans hg) h

theorem Sound.current_step (hs : Sound sha256 s) (he : e ≠ .commit)
    (h : step sha256 s e = some s') : s'.current sha256 = s.current sha256 :=
  current_congr hs.coherent (conf_step h he) fun _ hg => hs.lookup h hg

def PublishedAs (call : Call) (state : SplitReadState) : Prop :=
  (call.records = [] ∧ state = .absent) ∨
    (call.records ≠ [] ∧ ∃ n, state = .valid n call.records call.selected)

theorem reference_conf_bytes {out : Text} (h : t.conf = some (bytes out)) :
    t.reference = (splitKeysIn (parseCameraConf out)).map Prod.fst := by
  rw [Host.reference, observe_conf_bytes t h]

/-- What a commit does: readers find its call, and what they found before is below the new reference. -/
structure Commits (sha256 : List UInt8 → Vector UInt8 32) (s s' : Host) (p : Publication) : Prop where
  publication : s.stage.publication = some p
  published : PublishedAs p.call (s'.current sha256)
  kept : ∀ g, s'.reference = some g → Keeps s'.stage g ∧ ∀ r, p.predecessor = some r → r < g
  done : s'.stage.publication = none

theorem commit_step (hok : StageOk s) (h : step sha256 s .commit = some s') :
    ∃ p, Commits sha256 s s' p := by
  cases step_inv h with
  | @commitRemoval p out hstage hrecords hout =>
    rw [StageOk, hstage] at hok
    have hnone := (observe_commit_removal (beginPublication_ok hok).2.1 hout).2
    refine ⟨p, by rw [hstage]; rfl, .inl ⟨hrecords, current_commit_removal hok hout rfl⟩, ?_, rfl⟩
    intro g hg
    rw [@reference_conf_bytes _ out rfl, splitKeysIn, hnone] at hg
    cases hg
  | @commitReference p n text out hstage hout =>
    rw [StageOk, hstage] at hok
    obtain ⟨pair, -, -, hsplit⟩ := observe_commit_reference hok hout
    refine ⟨p, by rw [hstage]; rfl,
      .inr ⟨hok.some_record, n, current_commit_reference hok hout rfl rfl⟩, ?_, rfl⟩
    intro g hg
    rw [@reference_conf_bytes _ out rfl, splitKeysIn, hsplit] at hg
    cases hg
    exact ⟨List.mem_cons_self, hok.above⟩

theorem PublishedAs.coherent {call : Call} {state : SplitReadState} (h : PublishedAs call state) :
    state.isCoherent = true := by
  rcases h with ⟨-, rfl⟩ | ⟨-, n, rfl⟩
  · rfl
  · rfl

/-- A generation that is referenced is kept until the next commit. -/
theorem Sound.step (hs : Sound sha256 s) (h : step sha256 s e = some s') : Sound sha256 s' := by
  have hstage := stageOk_step hs.stage h
  by_cases he : e = .commit
  · subst he
    obtain ⟨p, hp⟩ := commit_step hs.stage h
    exact ⟨hstage, hp.published.coherent, fun g hg => (hp.kept g hg).1⟩
  · refine ⟨hstage, ?_, ?_⟩
    · rw [Coherent, hs.current_step he h]
      exact hs.coherent
    · intro g hg
      rw [reference_congr (conf_step h he)] at hg
      apply keeps_step (hs.keeps g hg) _ hs.stage _ h
      · intro p hp
        exact (predecessor_eq hs.stage hp).trans hg
      · intro r hr
        rw [hg] at hr
        exact (Option.some.inj hr).le

/-- The generation `r` was superseded: nobody is before a commit, and its file is kept. -/
structure Superseded (s : Host) (r : Nat) : Prop where
  stage : StageOk s
  done : s.stage.publication = none
  below : ∀ g, s.reference = some g → r < g
  keeps : Keeps s.stage r

variable {r : Nat}

/-- The publication of the commit that superseded a generation keeps its file too. -/
theorem Superseded.step (hs : Superseded s r) (he : e.isPublish = false)
    (h : step sha256 s e = some s') :
    Superseded s' r ∧ s'.files.lookup (generationName r) = s.files.lookup (generationName r) := by
  have hnone : ∀ p, s.stage.publication = some p → p.predecessor = some r := by
    intro p hp
    rw [hs.done] at hp
    cases hp
  have hcommit : e ≠ .commit := by
    rintro rfl
    obtain ⟨p, hp⟩ := commit_step hs.stage h
    exact absurd (hs.done.symm.trans hp.publication) (Option.some_ne_none p).symm
  have hdone : s'.stage.publication = none := by
    cases step_inv h with
    | publish => cases he
    | write hstage =>
      have hpublication := hs.done
      rw [hstage] at hpublication
      cases hpublication
    | commitRemoval => rfl
    | commitReference => rfl
    | list => rfl
    | remove => rfl
    | sweep => rfl
    | sweepRemove => rfl
    | stop => rfl
  refine ⟨⟨stageOk_step hs.stage h, hdone, ?_, ?_⟩, lookup_step hs.keeps hnone h⟩
  · rw [reference_congr (conf_step h hcommit)]
    exact hs.below
  · exact keeps_step hs.keeps hnone hs.stage (fun g hg => (hs.below g hg).le) h

theorem Sound.superseded (hs : Sound sha256 s) (hr : s.reference = some r)
    (h : Split.step sha256 s .commit = some s') : Superseded s' r := by
  obtain ⟨p, hp⟩ := commit_step hs.stage h
  have hpredecessor : p.predecessor = some r := (predecessor_eq hs.stage hp.publication).trans hr
  refine ⟨stageOk_step hs.stage h, hp.done, fun g hg => (hp.kept g hg).2 r hpredecessor, ?_⟩
  apply keeps_step (hs.keeps r hr) _ hs.stage _ h
  · intro q hq
    exact (predecessor_eq hs.stage hq).trans hr
  · intro g hg
    rw [hr] at hg
    exact (Option.some.inj hg).le

variable {es : List Event}

theorem Superseded.run (hs : Superseded s r)
    (hnone : ∀ e ∈ es, e.isPublish = false) (h : run (Split.step sha256) s es = some t) :
    t.files.lookup (generationName r) = s.files.lookup (generationName r) := by
  induction es generalizing s with
  | nil => rw [← Option.some.inj h]
  | cons e es ih =>
    obtain ⟨m, hm, ht⟩ := run_cons_some.1 h
    obtain ⟨hnext, hsame⟩ := hs.step (hnone e List.mem_cons_self) hm
    rw [ih hnext (fun f hf => hnone f (List.mem_cons_of_mem _ hf)) ht, hsame]

/-! ## Publications in a stretch of a run -/

theorem Sound.run {s₀ : Host} (h₀ : Sound sha256 s₀)
    (h : Lib.run (Split.step sha256) s₀ es = some s) : Sound sha256 s :=
  run_invariant (fun hs ht => hs.step ht) h₀ h

end Irlume.Split

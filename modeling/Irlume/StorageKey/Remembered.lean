import Irlume.StorageKey.Retired

/-!
# Keys that are not forgotten

The list of superseded keys keeps the latest of them, and a key that is superseded itself takes one place.
-/

namespace Irlume.StorageKey

open Irlume.Lib

/-- The key is recorded, or it is listed with none but `others` after it. -/
inductive Held (name : Text) (others : List Text) (record : Record) : Prop where
  | recorded (h : record.recorded = some name) (hnew : name ∉ record.names)
  | listed (before after : List Text) (h : record.names = before ++ name :: after) (hnodup : record.names.Nodup)
    (hlength : record.names.length ≤ maxSuperseded) (hafter : after ⊆ others)

variable {name : Text} {others : List Text}

theorem Held.known {record : Record} (h : Held name others record) :
    record.recorded = some name ∨ name ∈ record.names := by
  cases h with
  | recorded h => exact .inl h
  | listed before after h => exact .inr (h ▸ List.mem_append_right _ List.mem_cons_self)

theorem held_of_superseded {next : Record} {l : List Text} (hl : l.Nodup)
    (hnew : name ∉ l) (hnames : next.names = boundNames (l ++ [name])) : Held name others next := by
  refine .listed (l.drop (l.length + 1 - maxSuperseded)) [] ?_ ?_ ?_ (List.nil_subset _)
  · rw [hnames, boundNames_append (hl.append (List.nodup_singleton _) (List.disjoint_singleton.2 hnew))]
  · exact hnames ▸ nodup_boundNames _
  · exact hnames ▸ length_boundNames _

/-- **One write of the record.** What a start makes of the names keeps a key that is held, when the keys it
supersedes are among fewer than `maxSuperseded` others. -/
theorem Held.grows {record next : Record} (h : Held name others record)
    (hothers : others.length < maxSuperseded) (hgrows : Grows record.names next.names)
    (hamong : ∀ other ∈ next.names, other ∉ record.names → other = name ∨ other ∈ others)
    (hrecorded : record.recorded = some name → next.recorded = some name ∨ name ∈ next.names ∨ name ∈ record.names) :
    Held name others next := by
  cases h with
  | recorded h hnew =>
    by_cases hlisted : name ∈ next.names
    · generalize hnames : next.names = names at hgrows hlisted
      cases hgrows with
      | same => exact absurd hlisted hnew
      | bounded => exact absurd (mem_of_mem_boundNames hlisted) hnew
      | superseded hfresh =>
        have hbound : name ∉ boundNames record.names := fun hmem => hnew (mem_of_mem_boundNames hmem)
        rcases List.mem_append.1 (mem_of_mem_boundNames hlisted) with hmem | hmem
        · exact absurd hmem hbound
        · rw [← List.mem_singleton.1 hmem] at hnames
          exact held_of_superseded (nodup_boundNames _) hbound hnames
    · refine .recorded ?_ hlisted
      rcases hrecorded h with hkept | hlisted' | hold
      · exact hkept
      · exact absurd hlisted' hlisted
      · exact absurd hold hnew
  | listed before after h hnodup hlength hafter =>
    have hshort : boundNames record.names = record.names := boundNames_of_short hnodup hlength
    generalize hnames : next.names = names at hgrows
    cases hgrows with
    | same => exact .listed before after (hnames.trans h) (hnames ▸ hnodup) (hnames ▸ hlength) hafter
    | bounded =>
      rw [hshort] at hnames
      exact .listed before after (hnames.trans h) (hnames ▸ hnodup) (hnames ▸ hlength) hafter
    | @superseded other hfresh =>
      rw [hshort] at hfresh hnames
      have happend : (record.names ++ [other]).Nodup :=
        hnodup.append (List.nodup_singleton _) (List.disjoint_singleton.2 hfresh)
      have hdrop := boundNames_append happend
      have hother : other ∈ others := by
        have hmem : other ∈ next.names := by
          rw [hnames, hdrop]
          exact List.mem_append_right _ (List.mem_singleton.2 rfl)
        refine (hamong other hmem hfresh).resolve_left ?_
        rintro rfl
        exact hfresh (h ▸ List.mem_append_right _ List.mem_cons_self)
      have hsubset : after ++ [other] ⊆ others :=
        List.append_subset.2 ⟨hafter, List.cons_subset.2 ⟨hother, List.nil_subset _⟩⟩
      have hafterNodup : (after ++ [other]).Nodup := by
        rw [h, List.append_assoc, List.cons_append] at happend
        exact (List.nodup_cons.1 happend.of_append_right).2
      have hfew : after.length + 1 < maxSuperseded := by
        have := hafterNodup.length_le_of_subset hsubset
        rw [List.length_append, List.length_singleton] at this
        omega
      have hkeeps : record.names.length + 1 - maxSuperseded ≤ before.length := by
        rw [h, List.length_append, List.length_cons]
        omega
      refine .listed (before.drop (record.names.length + 1 - maxSuperseded)) (after ++ [other]) ?_
        (hnames ▸ nodup_boundNames _) (hnames ▸ length_boundNames _) hsubset
      rw [hnames, hdrop]
      generalize record.names.length + 1 - maxSuperseded = n at hkeeps
      rw [h, List.drop_append_of_le_length hkeeps, List.append_assoc, List.cons_append]

/-! ## Runs -/

/-- Reads of the record work, its writes are durable, and each key a write adds to the superseded ones is the one
followed or among `others`. -/
def RecordWorks (name : Text) (others : List Text) (w : World) : Op → Choice → Prop
  | .loadRecord _, .fails _ => False
  | .saveRecord next, .file o =>
    o = .durable ∧ ∀ other ∈ next.names, other ∉ w.disk.loaded.names → other = name ∨ other ∈ others
  | _, _ => True

/-- A handle override is refused only when the key is listed or is not the recorded one. -/
def PlanWorks (name : Text) (w : World) : Op → Choice → Prop
  | .plan, .plan (.error _) => w.disk.loaded.recorded = some name → name ∈ w.disk.loaded.names
  | _, _ => True

def UsableAtStart (name : Bytes) (w : World) : Step → Prop
  | .ensure => w.tpm.Usable name
  | _ => True

def followed (name : Bytes) (others : List Text) : Setting where
  allowed w op choice := RecordWorks (hex name) others w op choice ∧ PlanWorks (hex name) w op choice
  keys := ∅
  usable := {name}
  careful w op choice _ := by
    unfold Careful
    split
    · exact False.elim
    · exact False.elim
    · exact fun _ h => h.elim
    · exact fun _ h => h.elim
    · trivial

/-- The record is durable, and the key is held. -/
structure Remembered (name : Text) (others : List Text) (w : World) : Prop where
  durable : w.disk.record.older = []
  held : Held name others w.disk.loaded

variable {name : Bytes} {others : List Text}

theorem reads_followed {w : World} {record : Record} (h : (followed name others).Reads w record) :
    record = w.disk.loaded := by
  rcases h with h | ⟨-, v, publishing, e, -, hfails, -⟩
  · exact h
  · exact hfails.elim

/-- **One call.** -/
theorem Remembered.perform (hothers : others.length < maxSuperseded) {w t : World} {op : Op} {choice : Choice}
    {answer : op.Answer} (h : Remembered (hex name) others w) (hasks : (followed name others).contract.asks w op)
    (hallowed : (followed name others).allowed w op choice) (hperform : w.perform op choice = some (answer, t)) :
    Remembered (hex name) others t := by
  obtain ⟨hwrote, -⟩ := perform_files hperform
  obtain ⟨disk, tpm, boot⟩ := t
  cases hwrote with
  | record next o =>
    obtain ⟨old, hold, hfollows⟩ := hasks
    obtain rfl := reads_followed hold
    obtain ⟨⟨rfl, hamong⟩, -⟩ := hallowed
    refine ⟨rfl, h.held.grows hothers hfollows.names hamong fun hrecorded => ?_⟩
    refine (hfollows.recorded name rfl hrecorded).imp id fun hlater => hlater.imp id ?_
    rintro ⟨v, detail, hdisk, -, hplan⟩
    exact hdisk ▸ hplan (hdisk.symm ▸ hrecorded)
  | envelope id parent o => exact ⟨h.durable, h.held⟩
  | nothing => exact ⟨h.durable, h.held⟩

theorem Remembered.outside {w t : World} {x : Outside} (h : Remembered (hex name) others w)
    (hx : w.outside x = some t) : Remembered (hex name) others t := by
  cases x with
  | stop => cases hx; exact h
  | powerLoss kept =>
    cases hx
    have hvisible : (w.disk.record.powerLoss kept.record).visible = w.disk.record.visible := by
      rw [PendingFile.powerLoss, PendingFile.contents, h.durable]
      cases kept.record <;> rfl
    refine ⟨rfl, ?_⟩
    rw [Disk.loaded, Disk.powerLoss, hvisible]
    exact h.held
  | tpm objects => cases hx; exact ⟨h.durable, h.held⟩

/-- **A persisted storage key is never forgotten.** A key that is recorded, or listed with none but `others` after
it, stays recorded or listed in every run in which it is usable at each start and fewer than `maxSuperseded` other
keys are superseded. -/
theorem never_forgotten {w : World} {es : List Event} (hothers : others.length < maxSuperseded)
    (hdurable : w.disk.record.older = []) (hheld : Held (hex name) others w.disk.loaded)
    (hsteps : ∀ x ∈ steps Machine.step (Sessions.idle w) es,
      Sessions.Answers (fun w op choice => RecordWorks (hex name) others w op choice ∧ PlanWorks (hex name) w op choice)
        x.1 x.2 ∧ Sessions.StartsIn (UsableAtStart name) x.1 x.2) :
    ∀ m ∈ states Machine.step (Sessions.idle w) es,
      m.world.disk.loaded.recorded = some (hex name) ∨ hex name ∈ m.world.disk.loaded.names := by
  intro m hm
  have hadmits : ∀ w step, UsableAtStart name w step → (followed name others).Admits w step := by
    rintro w (_ | _ | _ | _) husable
    · rintro _ rfl
      exact husable
    · exact fun h => h.elim
    · trivial
    · trivial
  have hminds := states_asked (S := followed name others) (m := Sessions.idle w)
    (fun _ _ _ _ _ h hasks hallowed hperform => h.perform hothers hasks hallowed hperform)
    (fun _ _ _ h hx => h.outside hx) (Remembered.mk hdurable hheld) rfl
    (fun x hx => ⟨(hsteps x hx).1, (hsteps x hx).2.mono hadmits⟩) m hm
  exact hminds.world.2.held.known

/-! ## Weak keys replaced one after the other -/

section

instance (w : World) (name : Text) (others : List Text) (op : Op) (choice : Choice) :
    Decidable (RecordWorks name others w op choice) :=
  match op with
  | .loadRecord _ =>
    match choice with
    | .works | .lost _ | .refuses _ | .file _ | .skips _ | .plan _ | .derives _ | .tells _ |
      .reads _ _ | .checks _ =>
      .isTrue trivial
    | .fails _ => .isFalse id
  | .saveRecord _ =>
    match choice with
    | .file _ => decidable_of_iff (_ ∧ ∀ other ∈ _, _ → _ ∨ _) .rfl
    | .works | .fails _ | .lost _ | .refuses _ | .skips _ | .plan _ | .derives _ | .tells _ |
      .reads _ _ | .checks _ =>
      .isTrue trivial
  | .bootId | .plan | .lock | .envelopePaths _ | .loadEnvelope _ | .metadata _ |
    .writeEnvelope _ _ | .openTpm | .nameAt _ | .persistentAvail | .derive | .ownerNames |
    .persist _ | .derivesOriginal _ | .evict _ _ | .holdsDaExemptKey _ _ | .isWeak _ |
    .derivedIsWeak | .firmware | .keyCheck _ _ | .reply _ =>
    .isTrue trivial

instance (w : World) (name : Text) (op : Op) (choice : Choice) : Decidable (PlanWorks name w op choice) :=
  match op with
  | .plan =>
    match choice with
    | .plan (.error _) => inferInstanceAs (Decidable (_ → _))
    | .works | .fails _ | .lost _ | .refuses _ | .file _ | .skips _ | .plan (.ok _) | .derives _ |
      .tells _ | .reads _ _ | .checks _ =>
      .isTrue trivial
  | .bootId | .lock | .loadRecord _ | .saveRecord _ | .envelopePaths _ | .loadEnvelope _ |
    .metadata _ | .writeEnvelope _ _ | .openTpm | .nameAt _ | .persistentAvail | .derive |
    .ownerNames | .persist _ | .derivesOriginal _ | .evict _ _ | .holdsDaExemptKey _ _ | .isWeak _ |
    .derivedIsWeak | .firmware | .keyCheck _ _ | .reply _ =>
    .isTrue trivial

theorem Tpm.usable_iff {tpm : Tpm} {name : Bytes} : tpm.Usable name ↔
    (tpm.objects.any fun (handle, _) => isOwner handle && tpm.holds handle name) = true := by
  simp only [Tpm.Usable, List.any_eq_true, Bool.and_eq_true]
  constructor
  · rintro ⟨handle, howner, hholds⟩
    obtain ⟨key, hkey, -⟩ := Tpm.holds_iff.1 hholds
    obtain ⟨before, after, hobjects, -⟩ := List.lookup_eq_some_iff.1 hkey
    exact ⟨(handle, key), by simp [hobjects], howner, hholds⟩
  · rintro ⟨⟨handle, key⟩, -, howner, hholds⟩
    exact ⟨handle, howner, hholds⟩

instance (name : Bytes) (w : World) (step : Step) : Decidable (UsableAtStart name w step) :=
  match step with
  | .ensure => decidable_of_iff _ Tpm.usable_iff.symm
  | .publish _ _ | .settle _ | .storageKeys _ _ => .isTrue trivial

def daExemptKey (n : Nat) : TpmKey := ⟨[UInt8.ofNat n], true, false⟩

def weakWorld : World where
  disk := {
    record := .settled (some (persistedRecord (keyHandle + 0) [0]))
    envelopes := fun id => .settled (if id = sealedUser then some (.sealed none) else none)
    known := [sealedUser] }
  tpm := {
    objects := (List.range 6).map fun n => (keyHandle + n, daExemptKey n)
    derived := none
    proved := [] }
  boot := 0

/-- A start that finds the recorded key weak, with `n - 1` superseded keys, and adopts the key `n` in its place. -/
def replaceBy (n : Nat) : List Event :=
  .start .ensure :: answers (
    [.skips [], .works, .works, .plan (.ok ⟨keyHandle, originalHandle⟩), .works, .works, .works] ++
    List.replicate (n - 1) .works ++
    [.tells true, .reads 1 1, .derives (daExemptKey n), .tells false, .works, .works, .works, .file .durable])

def otherNames (n : Nat) : List Text := (List.range n).map fun k => hex [UInt8.ofNat (k + 1)]

def replaceTimes (n : Nat) : List Event := (List.range n).flatMap fun k => replaceBy (k + 1)

theorem held_weakWorld : Held (hex [0]) (otherNames 3) weakWorld.disk.loaded :=
  .recorded rfl nofun

/-- Four replacements supersede three other keys after the first one, which is still listed. -/
theorem never_forgotten_replaced : ∃ m, run Machine.step (Sessions.idle weakWorld) (replaceTimes 4) = some m ∧
    m.world.disk.loaded.recorded ≠ some (hex [0]) ∧
      (m.world.disk.loaded.recorded = some (hex [0]) ∨ hex [0] ∈ m.world.disk.loaded.names) := by
  have hrun : ((run Machine.step (Sessions.idle weakWorld) (replaceTimes 4)).map fun m =>
      m.world.disk.loaded.recorded) = some (some (hex [4])) := by decide +kernel
  obtain ⟨m, hm, hrecorded⟩ := Option.map_eq_some_iff.1 hrun
  have hmem : m ∈ states Machine.step (Sessions.idle weakWorld) (replaceTimes 4) := by
    simpa using mem_states_of_run hm []
  refine ⟨m, hm, by rw [hrecorded]; decide, ?_⟩
  exact @never_forgotten [0] (otherNames 3) _ _ (by decide) rfl held_weakWorld (by decide +kernel) m hmem

/-- Once `maxSuperseded` other keys are superseded after it, the key is forgotten. -/
theorem forgotten_after_four : ¬ ∀ (name : Bytes) (others : List Text) (w : World) (es : List Event),
    others.length ≤ maxSuperseded → w.disk.record.older = [] → w.disk.loaded.recorded = some (hex name) →
    hex name ∉ w.disk.loaded.names →
    (∀ x ∈ steps Machine.step (Sessions.idle w) es, Sessions.Answers (RecordWorks (hex name) others) x.1 x.2 ∧
      Sessions.StartsIn (UsableAtStart name) x.1 x.2) →
    ∀ m ∈ states Machine.step (Sessions.idle w) es,
      m.world.disk.loaded.recorded = some (hex name) ∨ hex name ∈ m.world.disk.loaded.names := by
  intro h
  have hrun : ((run Machine.step (Sessions.idle weakWorld) (replaceTimes 5)).map fun m =>
      (m.world.disk.loaded.recorded, m.world.disk.loaded.names)) = some (some (hex [5]), otherNames 4) := by
    decide +kernel
  obtain ⟨m, hm, hend⟩ := Option.map_eq_some_iff.1 hrun
  obtain ⟨hrecorded, hnames⟩ := Prod.mk.inj hend
  have hmem : m ∈ states Machine.step (Sessions.idle weakWorld) (replaceTimes 5) := by
    simpa using mem_states_of_run hm []
  have hknown := h [0] (otherNames 4) weakWorld (replaceTimes 5) (by decide) rfl rfl nofun (by decide +kernel) m hmem
  rw [hrecorded, hnames] at hknown
  revert hknown
  decide

end

end Irlume.StorageKey

import Irlume.StorageKey.Continued
import Irlume.StorageKey.Marks

/-!
# What the steps ask of the world

For each step and each call of it that changes something: what the record says when it is written, which envelope
is published over which, when the original key is evicted, and what doctor is told. These are facts about the
world the call is made in; the claims about whole runs follow from them.
-/

namespace Irlume.StorageKey

open Irlume.Lib

/-! ## Settings -/

/-- While one of the `keys` is marked since an earlier boot, no read misses an envelope that uses it, and no
publication that is not durable takes an envelope off a superseded one. -/
def Careful (keys : Set (Option Text)) (w : World) : Op → Choice → Prop
  | .loadRecord (some id), .fails _ =>
    none ∈ keys → w.MarkedEarlier none → ¬ Uses none (w.disk.envelopes id).visible
  | .metadata id, .fails _ => none ∈ keys → w.MarkedEarlier none → ¬ Uses none (w.disk.envelopes id).visible
  | .envelopePaths _, .skips ids =>
    ∀ key ∈ keys, w.MarkedEarlier key → ∀ id ∈ ids, ¬ Uses key (w.disk.envelopes id).visible
  | .writeEnvelope id parent, .file .visible =>
    ∀ name, some name ∈ keys → w.MarkedEarlier (some name) →
      Uses (some name) (w.disk.envelopes id).visible → Uses (some name) (some (.sealed parent))
  | _, _ => True

/-- What a run is about: the answers it may be given, the keys whose marks are followed, and the keys that are
usable at each start. -/
structure Setting where
  allowed : World → Op → Choice → Prop
  keys : Set (Option Text)
  usable : Set Bytes
  careful : ∀ w op choice, allowed w op choice → Careful keys w op choice

namespace Setting

variable (S : Setting)

def Reads (w : World) (record : Record) : Prop :=
  record = w.disk.loaded ∨
    record = default ∧ ∃ v publishing e, v.disk = w.disk ∧ S.allowed v (.loadRecord publishing) (.fails e)

def Refuses (w : World) : Prop := ∃ v detail, v.disk = w.disk ∧ S.allowed v .plan (.plan (.error detail))

/-- What a step writes for the record it read. -/
structure Follows (w : World) (record next : Record) : Prop where
  marks : MarksFrom w.boot record next
  names : Grows record.names next.names
  recorded : ∀ name ∈ S.usable, record.recorded = some (hex name) →
    next.recorded = some (hex name) ∨ hex name ∈ next.names ∨ S.Refuses w

/-- What holds when the original key is evicted. -/
structure Retiring (w : World) (handle : Handle) (name : Bytes) : Prop where
  marked : w.MarkedEarlier none
  unseen : ∀ id ∈ w.disk.known, ¬ Uses none (w.disk.envelopes id).visible
  daExempt : ∃ persisted raw, w.disk.loaded.persisted = some persisted ∧ unhex persisted.name = some raw ∧
    w.tpm.holds persisted.handle raw
  proved : (handle, name) ∈ w.tpm.proved

/-- What holds when doctor is told that a key is unused across boots. -/
structure Reported (w : World) (name : Text) : Prop where
  marked : w.MarkedEarlier (some name)
  unseen : ∀ id ∈ w.disk.known, ¬ Uses (some name) (w.disk.envelopes id).visible

/-- An entry that is unused across boots is of a superseded key that no envelope seen names. -/
def Tells (w : World) (entry : StorageKeyEntry) : Prop :=
  entry.unusedAcrossBoots → ∃ kept ∈ w.disk.loaded.superseded,
    entry.role = .superseded ∧ entry.handle = kept.handle ∧ entry.name = boundedName kept.name ∧
      (some kept.name ∈ S.keys → Reported w kept.name)

def contract : Contract where
  allowed := S.allowed
  keeps _ := True
  saves w next := ∃ record, S.Reads w record ∧ S.Follows w record next
  publishes w id parent :=
    none ∈ S.keys → w.MarkedEarlier none → Uses none (w.disk.envelopes id).visible → parent = none
  evicts w handle name := none ∈ S.keys → Retiring w handle name
  replies w entries := ∀ entry ∈ entries, S.Tells w entry

def Admits (w : World) : Step → Prop
  | .publish _ parent => none ∈ S.keys → ∀ key, parent = some key → w.disk.loaded.recorded = some key.name
  | .ensure => ∀ name ∈ S.usable, w.tpm.Usable name
  | _ => True

end Setting

section

variable {S : Setting} {s : World}

theorem Setting.Follows.of_unchanged {w : World} {record next : Record}
    (hunused : next.unusedSince = record.unusedSince) (hmarks : next.supersededUnused = record.supersededUnused)
    (hnames : next.names = record.names) (hrecorded : next.recorded = record.recorded) :
    S.Follows w record next :=
  ⟨.of_unchanged hunused (hmarks ▸ List.Subset.refl _), hnames ▸ .same _, fun _ _ h => .inl (hrecorded.trans h)⟩

/-! ## Reads -/

theorem safe_reads {Q : Record → World → Prop} (h : ∀ record, S.Reads s record → Q record s) :
    SafeIn S.contract Q loadRecord s :=
  safe_readRecord trivial (h _ (.inl rfl)) fun e hfails => h _ (.inr ⟨rfl, s, none, e, rfl, hfails⟩)

theorem safe_underOriginalKey (id : EnvelopeId) :
    SafeIn S.contract (fun off t => t = s ∧ (off = false → none ∈ S.keys → s.MarkedEarlier none →
        ¬ Uses none (s.disk.envelopes id).visible))
      (underOriginalKey id) s := by
  refine .bind (safe_loadEnvelope
    (Q := fun read t => t = s ∧ ∀ parent, read = some parent →
      (s.disk.envelopes id).visible = some (.sealed parent)) trivial ⟨rfl, nofun⟩ ?_) ?_
  · rintro parent hvisible
    refine ⟨rfl, ?_⟩
    rintro _ ⟨⟩
    exact hvisible
  · rintro read t - ⟨rfl, hread⟩
    split
    · next parent =>
      refine Fallible.guarded_pure trivial ⟨rfl, fun hoff _ _ hunder => ?_⟩
      rw [hread parent rfl] at hunder
      rcases hunder with hunder | hunder
      · cases hunder
      · obtain rfl : parent = none := by simpa using hunder
        cases hoff
    · refine safe_metadata trivial ⟨rfl, fun hoff _ _ hunder => ?_⟩ fun e hfails =>
        ⟨rfl, fun _ hkeys hmarked => S.careful _ _ _ hfails hkeys hmarked⟩
      rcases hunder with hunder | hunder <;> rw [hunder] at hoff <;> cases hoff

theorem safe_paths (kind : EnvelopeKind) :
    SafeIn S.contract (fun ids t => t = s ∧ ∀ key ∈ S.keys, s.MarkedEarlier key → ∀ id ∈ s.disk.known,
        id.kind = kind → Uses key (s.disk.envelopes id).visible → id ∈ ids)
      (envelopePaths kind) s := by
  refine safe_envelopePaths trivial fun skipped hskipped => ⟨rfl, ?_⟩
  intro key hkey hmarked id hknown hkind huses
  have hsome : (s.disk.envelopes id).visible.isSome := by
    cases key with
    | none => rcases huses with h | h <;> rw [h] <;> rfl
    | some name =>
      obtain ⟨handle, h⟩ := huses
      rw [h]
      rfl
  rw [List.mem_filter, Disk.paths, List.mem_filter]
  refine ⟨⟨hknown, by simp [hkind, hsome]⟩, ?_⟩
  simp only [decide_eq_true_eq]
  exact fun hmem => S.careful _ _ _ hskipped key hkey hmarked id hmem huses

/-! ## Publications -/

theorem safe_namesAnother (id : EnvelopeId) (name : Text) :
    SafeIn S.contract (fun _ t => t = s) (namesAnother id name) s := by
  refine .bind (safe_loadEnvelope (Q := fun _ t => t = s) trivial rfl fun _ _ => rfl) ?_
  rintro read t - rfl
  exact Fallible.guarded_pure trivial rfl

variable {id : EnvelopeId}

theorem safe_publication {Q : AtomicWrite → World → Prop} {parent : Option ParentKey}
    (hparent : none ∈ S.keys → s.MarkedEarlier none → Uses none (s.disk.envelopes id).visible → parent = none)
    (h : ∀ written o, Q written { s with disk := s.disk.writeEnvelope o id parent }) :
    SafeIn S.contract Q (writeEnvelope id parent) s :=
  safe_writeEnvelope trivial hparent (fun _ _ => trivial) fun written o _ => h written o

variable {boot : Option Boot}

theorem safe_publishMove {parent : ParentKey} {offOriginal : Bool}
    (hoff : offOriginal = false → none ∈ S.keys → s.MarkedEarlier none →
      ¬ Uses none (s.disk.envelopes id).visible) :
    SafeIn S.contract (fun _ _ => True) (publishMove id parent boot offOriginal) s := by
  refine .bind (safe_lock (Q := fun _ t => t = s) trivial rfl) ?_
  rintro _ t - rfl
  refine .bind (safe_reads (Q := fun record u => u = t ∧ S.Reads t record) fun record hrecord => ⟨rfl, hrecord⟩) ?_
  rintro record u - ⟨rfl, hrecord⟩
  extract_lets move place
  split
  · exact .bind (Fallible.guarded_throw (Q := fun _ _ => False) trivial trivial) fun _ _ _ h => h.elim
  · simp only [place, move]
    split
    · have hbegin : S.Follows u record (beginMove record id boot) :=
        ⟨marksFrom_beginMove _ _ _ _, .same _, fun _ _ h => .inl h⟩
      refine .bind (safe_saveRecord
        (Q := fun _ v => v.disk.loaded = beginMove record id boot) trivial ⟨record, hrecord, hbegin⟩
        (fun _ _ => trivial) rfl) fun _ v _ hloaded => ?_
      have hunmarked : ¬ v.MarkedEarlier none := by
        rintro ⟨since, hmarks, -⟩
        rw [hloaded] at hmarks
        cases hmarks
      refine .bind (safe_publication (Q := fun _ x => x.disk.loaded = beginMove record id boot)
        (fun _ hmarked => absurd hmarked hunmarked) fun _ _ => hloaded) fun written x _ hloaded => ?_
      split
      · have hend : S.Follows x x.disk.loaded (endMove (beginMove record id boot) id) := by
          rw [hloaded]
          exact .of_unchanged rfl rfl rfl rfl
        refine .bind (.attempt (P := fun _ _ => True) (safe_saveRecord (Q := fun _ _ => True) trivial
          ⟨_, .inl rfl, hend⟩ (fun _ _ => trivial) trivial) (fun _ _ _ _ => trivial) fun _ _ _ _ => trivial) ?_
        exact fun _ _ _ _ => Fallible.guarded_pure trivial trivial
      · exact Fallible.guarded_pure trivial trivial
    · next hoffOriginal =>
      exact safe_publication (fun hkeys hmarked huses =>
        absurd huses (hoff (Bool.not_eq_true _ ▸ hoffOriginal) hkeys hmarked)) fun _ _ => trivial

theorem safe_publishEnvelope {parent : Option ParentKey}
    (hparent : none ∈ S.keys → ∀ key, parent = some key → s.disk.loaded.recorded = some key.name) :
    SafeIn S.contract (fun _ _ => True) (publishEnvelope id parent) s := by
  refine .bind (safe_bootId (Q := fun _ t => t = s) trivial fun _ _ => rfl) ?_
  rintro boot t - rfl
  split
  · exact safe_publication (fun _ _ _ => rfl) fun _ _ => trivial
  · next parent =>
    refine .bind (safe_underOriginalKey id) ?_
    rintro off u - ⟨rfl, hoff⟩
    have hdirect (h : off = false) :
        SafeIn S.contract (fun _ _ => True) (writeEnvelope id (some parent)) u :=
      safe_publication (fun hkeys hmarked huses => absurd huses (hoff h hkeys hmarked)) fun _ _ => trivial
    extract_lets place
    have hplace (movesKey : Bool) (hstays : movesKey = false → off = false) :
        SafeIn S.contract (fun _ _ => True) (place movesKey) u := by
      simp only [place]
      split
      · refine .bind (safe_readRecord (Q := fun record v => v = u ∧ (record = u.disk.loaded ∨
          ∃ e, S.allowed u (.loadRecord (some id)) (.fails e))) trivial ⟨rfl, .inl rfl⟩
          fun e hfails => ⟨rfl, .inr ⟨e, hfails⟩⟩) ?_
        rintro record v - ⟨rfl, hrecord⟩
        split
        · next hnone =>
          refine safe_publication (fun hkeys hmarked huses => absurd huses ?_) fun _ _ => trivial
          -- A record is there, so the read failed.
          rcases hrecord with rfl | ⟨e, hfails⟩
          · have hrecorded := hparent hkeys parent rfl
            rw [Record.recorded, Option.isNone_iff_eq_none.1 hnone] at hrecorded
            cases hrecorded
          · exact S.careful _ _ _ hfails hkeys hmarked
        · exact safe_publishMove hoff
      · next hmoves => exact hdirect (hstays (Bool.not_eq_true _ ▸ hmoves))
    split
    · refine .bind (Fallible.guarded_pure (Q := fun movesKey t => t = u ∧ movesKey = true) trivial ⟨rfl, rfl⟩) ?_
      rintro movesKey v - ⟨rfl, rfl⟩
      exact hplace true fun h => by cases h
    · next hstays =>
      refine .bind (safe_namesAnother id parent.name) ?_
      rintro movesKey v - rfl
      exact hplace movesKey fun _ => Bool.not_eq_true _ ▸ hstays

/-! ## The census -/

theorem safe_anyUnderOriginal (ids : List EnvelopeId) :
    SafeIn S.contract (fun inUse t => t = s ∧ (inUse = false → none ∈ S.keys → s.MarkedEarlier none →
        ∀ id ∈ ids, ¬ Uses none (s.disk.envelopes id).visible))
      (anyUnderOriginal ids) s := by
  induction ids with
  | nil => exact Fallible.guarded_pure trivial ⟨rfl, nofun⟩
  | cons id rest ih =>
    rw [anyUnderOriginal]
    refine .bind (safe_underOriginalKey id) ?_
    rintro off t - ⟨rfl, hoff⟩
    split
    · exact Fallible.guarded_pure trivial ⟨rfl, nofun⟩
    · next hstays =>
      refine ih.mono (fun inUse u _ ⟨hu, hrest⟩ => ⟨hu, fun hinUse hkeys hmarked other hother => ?_⟩) fun _ _ _ h => h
      rcases List.mem_cons.1 hother with rfl | hother
      · exact hoff (Bool.not_eq_true _ ▸ hstays) hkeys hmarked
      · exact hrest hinUse hkeys hmarked other hother

theorem safe_anyUnderOriginalKey :
    SafeIn S.contract (fun inUse t => t = s ∧ (inUse = false → none ∈ S.keys → s.MarkedEarlier none →
        ∀ id ∈ s.disk.known, ¬ Uses none (s.disk.envelopes id).visible))
      anyUnderOriginalKey s := by
  refine .bind (safe_paths .templateKey) ?_
  rintro templates t - ⟨rfl, htemplates⟩
  refine .bind (safe_anyUnderOriginal templates) ?_
  rintro inUse u - ⟨rfl, hunderTemplates⟩
  split
  · exact Fallible.guarded_pure trivial ⟨rfl, nofun⟩
  · next hnone =>
    refine .bind (safe_paths .keyringSecret) ?_
    rintro secrets v - ⟨rfl, hsecrets⟩
    refine (safe_anyUnderOriginal secrets).mono (fun found x _ ⟨hx, hunderSecrets⟩ => ⟨hx, ?_⟩) fun _ _ _ h => h
    intro hfound hkeys hmarked id hknown huses
    cases hkind : id.kind with
    | templateKey =>
      exact hunderTemplates (Bool.not_eq_true _ ▸ hnone) hkeys hmarked id
        (htemplates none hkeys hmarked id hknown hkind huses) huses
    | keyringSecret =>
      exact hunderSecrets hfound hkeys hmarked id (hsecrets none hkeys hmarked id hknown hkind huses) huses

theorem safe_countNaming (name : Text) (ids : List EnvelopeId) :
    SafeIn S.contract (fun count t => t = s ∧ (count.1 = 0 → count.2 = false →
        ∀ id ∈ ids, ¬ Uses (some name) (s.disk.envelopes id).visible))
      (countNaming name ids) s := by
  induction ids with
  | nil => exact Fallible.guarded_pure trivial ⟨rfl, nofun⟩
  | cons id rest ih =>
    rw [countNaming]
    refine .bind (safe_loadEnvelope
      (Q := fun read t => t = s ∧ ∀ parent, read = some parent →
        (s.disk.envelopes id).visible = some (.sealed parent)) trivial ⟨rfl, nofun⟩ ?_) ?_
    · rintro parent hvisible
      refine ⟨rfl, ?_⟩
      rintro _ ⟨⟩
      exact hvisible
    rintro read t - ⟨rfl, hread⟩
    refine .bind ih ?_
    rintro ⟨total, unreadable⟩ u - ⟨rfl, hrest⟩
    cases read with
    | none => exact Fallible.guarded_pure trivial ⟨rfl, nofun⟩
    | some parent =>
      refine Fallible.guarded_pure trivial ⟨rfl, ?_⟩
      by_cases hnames : parent.any fun key => key.name = name
      · simp only [hnames, if_true]
        exact nofun
      · simp only [hnames, Bool.false_eq_true, if_false]
        intro htotal hunreadable other hother
        rcases List.mem_cons.1 hother with rfl | hother
        · rintro ⟨handle, hvisible⟩
          rw [hread parent rfl] at hvisible
          obtain rfl : parent = some ⟨handle, name⟩ := by simpa using hvisible
          simp at hnames
        · exact hrest htotal hunreadable other hother

theorem safe_envelopesNaming (name : Text) :
    SafeIn S.contract (fun count t => t = s ∧ (count.1 = 0 → count.2 = false → some name ∈ S.keys →
        s.MarkedEarlier (some name) → ∀ id ∈ s.disk.known, ¬ Uses (some name) (s.disk.envelopes id).visible))
      (envelopesNaming name) s := by
  refine .bind (safe_paths .templateKey) ?_
  rintro templates t - ⟨rfl, htemplates⟩
  refine .bind (safe_countNaming name templates) ?_
  rintro inTemplates u - ⟨rfl, hinTemplates⟩
  refine .bind (safe_paths .keyringSecret) ?_
  rintro secrets v - ⟨rfl, hsecrets⟩
  refine .bind (safe_countNaming name secrets) ?_
  rintro inSecrets x - ⟨rfl, hinSecrets⟩
  refine Fallible.guarded_pure trivial ⟨rfl, ?_⟩
  intro htotal hunreadable hkeys hmarked id hknown huses
  have htotal : inTemplates.1 = 0 ∧ inSecrets.1 = 0 := by simpa using htotal
  have hunreadable : inTemplates.2 = false ∧ inSecrets.2 = false := by simpa using hunreadable
  cases hkind : id.kind with
  | templateKey =>
    exact hinTemplates htotal.1 hunreadable.1 id (htemplates _ hkeys hmarked id hknown hkind huses) huses
  | keyringSecret =>
    exact hinSecrets htotal.2 hunreadable.2 id (hsecrets _ hkeys hmarked id hknown hkind huses) huses

theorem safe_markNames (boot : Option Boot) (names : List Text) (marks : List (Text × Boot)) :
    SafeIn S.contract (fun marked t => t = s ∧ ∀ m ∈ marked, m ∈ marks ∨ boot = some m.2)
      (markNames boot names marks) s := by
  induction names generalizing marks with
  | nil => exact Fallible.guarded_pure trivial ⟨rfl, fun _ h => .inl h⟩
  | cons name rest ih =>
    rw [markNames]
    refine .bind (safe_envelopesNaming name) ?_
    rintro ⟨total, unreadable⟩ t - ⟨rfl, -⟩
    refine (ih _).mono (fun marked u _ ⟨hu, hmarked⟩ => ⟨hu, fun m hm => ?_⟩) fun _ _ _ h => h
    exact (hmarked m hm).elim mem_markName .inr

/-- What the census of the superseded keys makes of the record. -/
structure Surveyed (boot : Option Boot) (record next : Record) : Prop where
  persisted : next.persisted = record.persisted
  unusedSince : next.unusedSince = record.unusedSince
  names : next.names = boundNames record.names
  marks : ∀ m ∈ next.supersededUnused, m ∈ record.supersededUnused ∨ boot = some m.2

theorem safe_markSuperseded (record : Record) (boot : Option Boot) :
    SafeIn S.contract (fun next t => t = s ∧ Surveyed boot record next) (markSuperseded record boot) s := by
  refine .bind (safe_markNames boot _ _) ?_
  rintro marks t - ⟨rfl, hmarks⟩
  refine Fallible.guarded_pure trivial ⟨rfl, rfl, rfl, names_boundSuperseded record.superseded, fun m hm => ?_⟩
  exact (hmarks m hm).imp List.mem_of_mem_filter id

/-! ## The retirement -/

/-- A retirement is due: the record is as the step has it, and the census found the original key unused. -/
structure Due (S : Setting) (w : World) (next : Record) : Prop where
  loaded : w.disk.loaded = next
  marked : none ∈ S.keys → w.MarkedEarlier none
  unseen : none ∈ S.keys → ∀ id ∈ w.disk.known, ¬ Uses none (w.disk.envelopes id).visible

/-- What the eviction waits for, once the TPM was asked. -/
structure Proving (w : World) (next : Record) (handle : Handle) (name : Bytes) : Prop where
  daExempt : ∃ persisted raw, next.persisted = some persisted ∧ unhex persisted.name = some raw ∧
    w.tpm.holds persisted.handle raw
  key : (w.tpm.key handle).map (·.name) = some name

variable {next : Record}

theorem Due.of_disk {t : World} (h : Due S s next) (hdisk : t.disk = s.disk)
    (hboot : t.boot = s.boot) : Due S t next := by
  refine ⟨hdisk ▸ h.loaded, fun hkeys => ?_, hdisk ▸ h.unseen⟩
  rw [World.MarkedEarlier, hdisk, hboot]
  exact h.marked hkeys

variable {next next' : Record}

theorem Due.saved (h : Due S s next) (hunused : next'.unusedSince = next.unusedSince) :
    Due S { s with disk := s.disk.saveRecord .durable next' } next' := by
  refine ⟨rfl, fun hkeys => ?_, h.unseen⟩
  obtain ⟨since, hmarks, hsince⟩ := h.marked hkeys
  rw [h.loaded] at hmarks
  exact ⟨since, hunused.trans hmarks, hsince⟩

variable {handle : Handle}

variable {name : Bytes}

theorem Proving.of_key {t : World}
    (h : Proving s next handle name) (hkey : ∀ h, t.tpm.key h = s.tpm.key h) : Proving t next handle name := by
  obtain ⟨persisted, raw, hpersisted, hraw, hholds⟩ := h.daExempt
  refine ⟨⟨persisted, raw, hpersisted, hraw, ?_⟩, (hkey handle).symm ▸ h.key⟩
  rwa [Tpm.holds, hkey]

theorem safe_saveAccount (hloaded : s.disk.loaded = next) (hnext : S.Follows s next next') :
    SafeIn S.contract (fun _ t => t = { s with disk := s.disk.saveRecord .durable next' }) (saveRecord next') s :=
  safe_saveRecord trivial ⟨next, .inl hloaded.symm, hnext⟩ (fun _ _ => trivial) rfl

theorem safe_trySave (hloaded : s.disk.loaded = next) (hnext : S.Follows s next next') :
    SafeIn S.contract (fun _ _ => True) (trySave next') s :=
  .bind (.attempt (P := fun _ _ => True) (safe_saveAccount hloaded hnext) (fun _ _ _ _ => trivial)
    fun _ _ _ _ => trivial) fun _ _ _ _ => Fallible.guarded_pure trivial trivial

theorem safe_failedRetirement (hloaded : s.disk.loaded = next) (handle : Handle) (error : Text) :
    SafeIn S.contract (fun _ _ => True) (failedRetirement next handle error) s :=
  .bind (safe_trySave hloaded (.of_unchanged rfl rfl rfl rfl)) fun _ _ _ _ => Fallible.guarded_pure trivial trivial

theorem safe_still {α : Type} {Q : α → World → Prop} {P : Except Text α → World → Prop} {p : Run α}
    (h : SafeIn { S.contract with keeps := fun t => t.disk = s.disk ∧ t.boot = s.boot } Q p s)
    (hok : ∀ a t, t.disk = s.disk → t.boot = s.boot → Q a t → P (.ok a) t)
    (herror : ∀ e t, t.disk = s.disk → t.boot = s.boot → P (.error e) t) :
    SafeIn S.contract P (Fallible.attempt p) s := by
  have hweak := Fallible.Guarded.weaken (J := S.contract.keeps) (H := S.contract.asks) h (fun _ _ => trivial) ?_
  · exact hweak.attempt (fun a t _ ht => hok a t ht.1.1 ht.1.2 ht.2) fun e t _ ht => herror e t ht.1.1 ht.1.2
  · rintro t (_ | _) - hasks <;> exact hasks

theorem safe_evictProved (hdue : Due S s next)
    (hproving : Proving s next handle name) (hproved : (handle, name) ∈ s.tpm.proved) :
    SafeIn S.contract (fun _ _ => True) (evictProved next handle name) s := by
  have hretiring : none ∈ S.keys → Setting.Retiring s handle name := fun hkeys =>
    ⟨hdue.marked hkeys, hdue.unseen hkeys, hdue.loaded ▸ hproving.daExempt, hproved⟩
  refine .bind (safe_still (Q := fun _ _ => True) (P := fun _ t => t.disk.loaded = next)
    (safe_evict ⟨rfl, rfl⟩ hretiring ⟨rfl, rfl⟩ trivial trivial) ?_ ?_) fun result t _ hloaded => ?_
  · exact fun _ t hdisk _ _ => hdisk ▸ hdue.loaded
  · exact fun _ t hdisk _ => hdisk ▸ hdue.loaded
  · cases result with
    | ok evicted =>
      exact .bind (safe_trySave hloaded (.of_unchanged rfl rfl rfl rfl)) fun _ _ _ _ =>
        Fallible.guarded_pure trivial trivial
    | error error => exact safe_failedRetirement hloaded handle error

theorem safe_proveAndEvict (hdue : Due S s next)
    (hproving : Proving s next handle name) :
    SafeIn S.contract (fun _ _ => True) (proveAndEvict next handle name) s := by
  refine .bind (safe_still
    (Q := fun gives t => (∀ h, t.tpm.key h = s.tpm.key h) ∧ (gives = some true → (handle, name) ∈ t.tpm.proved))
    (P := fun result t => t.disk = s.disk ∧ t.boot = s.boot ∧ (result = .ok (some true) →
      (∀ h, t.tpm.key h = s.tpm.key h) ∧ (handle, name) ∈ t.tpm.proved))
    (safe_derivesOriginal ⟨rfl, rfl⟩ ⟨fun _ => rfl, nofun⟩ (fun _ _ => ⟨rfl, rfl⟩) ?_) ?_ ?_) ?_
  · intro key gives hkey
    refine ⟨fun _ => rfl, ?_⟩
    rintro ⟨⟩
    have hname : key.name = name := by simpa [hkey] using hproving.key
    rw [Tpm.compared, if_pos rfl, hname]
    exact List.mem_cons_self
  · exact fun gives t hdisk hboot hgives => ⟨hdisk, hboot, fun h => ⟨hgives.1, hgives.2 (Except.ok.inj h)⟩⟩
  · exact fun e t hdisk hboot => ⟨hdisk, hboot, nofun⟩
  · rintro result t - ⟨hdisk, hboot, hproved⟩
    have hdue := hdue.of_disk hdisk hboot
    split
    · exact safe_evictProved hdue (hproving.of_key (hproved rfl).1) (hproved rfl).2
    · exact .bind (safe_trySave hdue.loaded (.of_unchanged rfl rfl rfl rfl)) fun _ _ _ _ =>
        Fallible.guarded_pure trivial trivial
    · exact .bind (safe_trySave hdue.loaded (.of_unchanged rfl rfl rfl rfl)) fun _ _ _ _ =>
        Fallible.guarded_pure trivial trivial
    · exact safe_failedRetirement hdue.loaded handle _

theorem retirementKeys_eq_some {handle daExemptHandle : Handle} {daExempt name : Bytes}
    (h : retirementKeys next handle = some (daExemptHandle, daExempt, name)) :
    ∃ persisted, next.persisted = some persisted ∧ persisted.handle = daExemptHandle ∧
      unhex persisted.name = some daExempt := by
  rw [retirementKeys] at h
  obtain ⟨persisted, hpersisted, h⟩ := Option.bind_eq_some_iff.1 h
  obtain ⟨raw, hraw, h⟩ := Option.bind_eq_some_iff.1 h
  obtain ⟨original, -, h⟩ := Option.bind_eq_some_iff.1 h
  obtain ⟨name', -, h⟩ := Option.bind_eq_some_iff.1 h
  obtain ⟨rfl, rfl, -⟩ : persisted.handle = daExemptHandle ∧ raw = daExempt ∧ name' = name := by simpa using h
  exact ⟨persisted, hpersisted, rfl, hraw⟩

theorem safe_retireWith (hdue : next.persisted ≠ none → Due S s next) (handle : Handle)
    (boot : Boot) : SafeIn S.contract (fun _ _ => True) (retireWith next handle boot) s := by
  rw [retireWith]
  split
  · exact Fallible.guarded_pure trivial trivial
  · next daExemptHandle daExempt name hretirement =>
    obtain ⟨persisted, hpersisted, rfl, hraw⟩ := retirementKeys_eq_some hretirement
    have hdue := hdue (by simp [hpersisted])
    refine .bind (safe_nameAt (Q := fun holder t => t = s ∧ holder = (s.tpm.key handle).map (·.name)) trivial
      ⟨rfl, rfl⟩) ?_
    rintro holder t - ⟨rfl, rfl⟩
    split
    · extract_lets place
      split
      · exact .bind (safe_saveAccount hdue.loaded (.of_unchanged rfl rfl rfl rfl)) fun _ _ _ _ =>
          Fallible.guarded_pure trivial trivial
      · exact Fallible.guarded_pure trivial trivial
    · next hholder =>
      split
      · exact Fallible.guarded_pure trivial trivial
      · refine .bind (safe_holdsDaExemptKey (Q := fun holds u => u = t ∧ holds = t.tpm.holds persisted.handle daExempt)
          trivial ⟨rfl, rfl⟩) ?_
        rintro holds u - ⟨rfl, rfl⟩
        split
        · next hholds =>
          refine .bind (safe_saveAccount hdue.loaded (.of_unchanged rfl rfl rfl rfl)) ?_
          rintro _ v - rfl
          exact safe_proveAndEvict (hdue.saved rfl)
            ⟨⟨persisted, daExempt, hpersisted, hraw, hholds⟩, not_not.1 hholder⟩
        · exact Fallible.guarded_pure trivial trivial

theorem safe_retireDue (hdue : next.persisted ≠ none → Due S s next) (boot : Boot) :
    SafeIn S.contract (fun _ _ => True) (retireDue next boot) s := by
  refine .bind (safe_plan (Q := fun _ t => t = s) trivial fun _ _ => rfl) ?_
  rintro plan t - rfl
  split
  · exact Fallible.guarded_pure trivial trivial
  · next plan =>
    have hretire : SafeIn S.contract (fun _ _ => True) (do
        openTpm
        retireWith next plan.original boot) t := by
      refine .bind (safe_openTpm (Q := fun _ u => u.disk = t.disk ∧ u.boot = t.boot) trivial trivial ⟨rfl, rfl⟩) ?_
      rintro _ u - ⟨hdisk, hboot⟩
      exact safe_retireWith (fun h => (hdue h).of_disk hdisk hboot) _ _
    refine .bind (hretire.attempt (P := fun _ _ => True) (fun _ _ _ _ => trivial) fun _ _ _ _ => trivial) ?_
    rintro result u - -
    split <;> exact Fallible.guarded_pure trivial trivial

theorem retirementDue_eq_some {census : Census} {derived : Bool} {now : Boot}
    (h : retirementDue census boot derived = some now) :
    boot = some now ∧ ∃ since, census = .unused since ∧ since ≠ now := by
  unfold retirementDue at h
  split at h
  · next since now' =>
    split at h
    · next hdue =>
      cases h
      exact ⟨rfl, since, rfl, of_decide_eq_true (Bool.and_eq_true _ _ ▸ hdue).1⟩
    · cases h
  · cases h

theorem follows_census (hboot : ∀ b, boot = some b → b = s.boot) {record next : Record}
    {inUse : Bool} {counted : Record × Census} (hcounted : Counted record inUse boot counted)
    (h : Surveyed boot counted.1 next) : S.Follows s record next := by
  have hnames : counted.1.names = record.names := congrArg (List.map Persisted.name) hcounted.superseded
  refine ⟨(hcounted.marksFrom hboot).trans fun key since hmarks => ?_, ?_, fun name _ hname => .inl ?_⟩
  · cases key with
    | none => exact .inl (h.unusedSince.symm.trans hmarks)
    | some name => exact (h.marks _ hmarks).imp id (hboot since)
  · rw [h.names, hnames]
    exact .bounded _
  · rw [Record.recorded, h.persisted, hcounted.persisted]
    exact hname

theorem safe_settleAtStart (derived : Bool) :
    SafeIn S.contract (fun _ _ => True) (settleAtStart derived) s := by
  refine .bind (safe_bootId (Q := fun boot t => t = s ∧ ∀ b, boot = some b → b = s.boot) trivial ?_) ?_
  · rintro boot (rfl | rfl)
    · exact ⟨rfl, nofun⟩
    · exact ⟨rfl, fun b hb => (Option.some.inj hb).symm⟩
  rintro boot t - ⟨rfl, hboot⟩
  refine .bind (safe_reads (Q := fun _ u => u = t) fun _ _ => rfl) ?_
  rintro _ u - rfl
  split
  · exact Fallible.guarded_pure trivial trivial
  refine .bind (safe_lock (Q := fun _ v => v = u) trivial rfl) ?_
  rintro _ v - rfl
  refine .bind (safe_reads (Q := fun record x => x = v ∧ S.Reads v record) fun record hrecord => ⟨rfl, hrecord⟩) ?_
  rintro record x - ⟨rfl, hrecord⟩
  refine .bind safe_anyUnderOriginalKey ?_
  rintro inUse y - ⟨rfl, hcensus⟩
  have hcounted := counted_markWith record inUse boot
  revert hcounted
  generalize markWith record inUse boot = counted
  obtain ⟨marked, census⟩ := counted
  intro hcounted
  refine .bind (safe_markSuperseded marked boot) ?_
  rintro next z - ⟨rfl, hsurveyed⟩
  have hpersisted : next.persisted = record.persisted := hsurveyed.persisted.trans hcounted.persisted
  have hread (h : next.persisted ≠ none) : record = z.disk.loaded := by
    rcases hrecord with hloaded | ⟨rfl, -⟩
    · exact hloaded
    · exact absurd hpersisted h
  have hdue (now : Boot) (h : retirementDue census boot derived = some now)
      (hnext : next.persisted ≠ none) (o : WriteOutcome) (hloaded : (z.disk.saveRecord o next).loaded = next) :
      Due S { z with disk := z.disk.saveRecord o next } next := by
    obtain ⟨hnow, since, hunused, hsince⟩ := retirementDue_eq_some h
    obtain ⟨hinUse, hmark, hold⟩ := hcounted.unused since hunused
    have hearlier : since ≠ z.boot := hboot now hnow ▸ hsince
    have hold : record.unusedSince = some since :=
      hold.resolve_right fun hboot' => hsince (Option.some.inj (hboot'.symm.trans hnow))
    have hmarked : z.MarkedEarlier none := ⟨since, hread hnext ▸ hold, hearlier⟩
    have hnext : next.Marks none since := hsurveyed.unusedSince.trans hmark
    exact ⟨hloaded, fun _ => ⟨since, hloaded.symm ▸ hnext, hearlier⟩, fun hkeys => hcensus hinUse hkeys hmarked⟩
  extract_lets answer retire
  have hplace (o : WriteOutcome) (hloaded : next.persisted ≠ none → (z.disk.saveRecord o next).loaded = next) :
      SafeIn S.contract (fun _ _ => True) (retire ()) { z with disk := z.disk.saveRecord o next } := by
    simp only [retire]
    split
    · next now hnow =>
      exact .bind (safe_retireDue (fun h => hdue now hnow h o (hloaded h)) now) fun _ _ _ _ =>
        Fallible.guarded_pure trivial trivial
    · exact Fallible.guarded_pure trivial trivial
  split
  · refine .bind (safe_saveRecord (Q := fun _ t => t = { z with disk := z.disk.saveRecord .durable next }) trivial
      ⟨record, hrecord, follows_census hboot hcounted hsurveyed⟩ (fun _ _ => trivial) rfl) ?_
    rintro _ t - rfl
    exact hplace .durable fun _ => rfl
  · next hsame =>
    exact hplace .failed fun h => (hread h).symm.trans (not_not.1 hsame).symm

/-! ## What doctor is told -/

variable {record : Record}

theorem marks_of_markedBefore {name : Text}
    (h : markedBefore record name boot) :
    ∃ since now, (name, since) ∈ record.supersededUnused ∧ boot = some now ∧ since ≠ now := by
  unfold markedBefore at h
  split at h
  · next since now hlookup =>
    obtain ⟨before, after, hmarks, -⟩ := List.lookup_eq_some_iff.1 hlookup
    exact ⟨since, now, by simp [hmarks], rfl, of_decide_eq_true h⟩
  · cases h

theorem mem_recordedKeys {configured : Handle} {key : StorageKeyRole × Handle × Text}
    (h : key ∈ recordedKeys record configured) (hrole : key.1 = .superseded) :
    ⟨key.2.1, key.2.2⟩ ∈ record.superseded := by
  rw [recordedKeys] at h
  rcases List.mem_append.1 h with h | h
  · rcases List.mem_append.1 h with h | h
    · obtain ⟨original, -, rfl⟩ := Option.map_eq_some_iff.1 (Option.mem_toList.1 h)
      cases hrole
    · obtain ⟨persisted, -, rfl⟩ := Option.map_eq_some_iff.1 (Option.mem_toList.1 h)
      cases hrole
  · obtain ⟨kept, hkept, rfl⟩ := List.mem_map.1 h
    exact List.mem_of_mem_filter hkept

theorem safe_keyed (hboot : ∀ b, boot = some b → b = s.boot)
    (hrecord : ∀ m ∈ record.supersededUnused, m ∈ s.disk.loaded.supersededUnused)
    {role : StorageKeyRole} {name : Text} (hkey : role = .superseded → ⟨handle, name⟩ ∈ s.disk.loaded.superseded) :
    SafeIn S.contract (fun entry t => t = s ∧ S.Tells s entry) (keyed record boot role handle name) s := by
  have hcount (check : StorageKeyCheck) : SafeIn S.contract (fun entry t => t = s ∧ S.Tells s entry) (do
      let counted ← envelopesNaming name
      pure {
        role
        handle
        name := boundedName name
        check
        envelopes := if role = .original then none else some counted.1
        unusedAcrossBoots :=
          role = .superseded && counted.1 = 0 && !counted.2 && markedBefore record name boot }) s := by
    refine .bind (safe_envelopesNaming name) ?_
    rintro ⟨total, unreadable⟩ t - ⟨rfl, hnone⟩
    refine Fallible.guarded_pure trivial ⟨rfl, fun hunused => ?_⟩
    have hunused : ((role = .superseded ∧ total = 0) ∧ unreadable = false) ∧ markedBefore record name boot := by
      simpa only [Bool.and_eq_true, decide_eq_true_eq, Bool.not_eq_true'] using hunused
    obtain ⟨⟨⟨hrole, htotal⟩, hreadable⟩, hmarked⟩ := hunused
    obtain ⟨since, now, hmem, hnow, hsince⟩ := marks_of_markedBefore hmarked
    have hearlier : t.MarkedEarlier (some name) := ⟨since, hrecord _ hmem, hboot now hnow ▸ hsince⟩
    exact ⟨⟨handle, name⟩, hkey hrole, hrole, rfl, rfl, fun hkeys =>
      ⟨hearlier, hnone htotal hreadable hkeys hearlier⟩⟩
  rw [keyed]
  split
  · refine .bind (safe_keyCheck (Q := fun _ t => t = s) trivial fun _ => rfl) ?_
    rintro check t - rfl
    exact hcount check
  · refine .bind (Fallible.guarded_pure (Q := fun _ t => t = s) trivial rfl) ?_
    rintro check t - rfl
    exact hcount check

theorem safe_keyedAll (hboot : ∀ b, boot = some b → b = s.boot)
    (hrecord : ∀ m ∈ record.supersededUnused, m ∈ s.disk.loaded.supersededUnused)
    (keys : List (StorageKeyRole × Handle × Text))
    (hkeys : ∀ key ∈ keys, key.1 = .superseded → ⟨key.2.1, key.2.2⟩ ∈ s.disk.loaded.superseded) :
    SafeIn S.contract (fun entries t => t = s ∧ ∀ entry ∈ entries, S.Tells s entry)
      (keyedAll record boot keys) s := by
  induction keys with
  | nil => exact Fallible.guarded_pure trivial ⟨rfl, nofun⟩
  | cons key rest ih =>
    obtain ⟨role, handle, name⟩ := key
    obtain ⟨hkey, hrest⟩ := List.forall_mem_cons.1 hkeys
    refine .bind (safe_keyed hboot hrecord hkey) ?_
    rintro entry t - ⟨rfl, hentry⟩
    refine .bind (ih hrest) ?_
    rintro entries u - ⟨rfl, hentries⟩
    exact Fallible.guarded_pure trivial ⟨rfl, List.forall_mem_cons.2 ⟨hentry, hentries⟩⟩

theorem safe_originalEntry (configured : Handle) (check : Option StorageKeyCheck) :
    SafeIn S.contract (fun entries t => t.disk = s.disk ∧ t.boot = s.boot ∧
        ∀ entry ∈ entries, entry.unusedAcrossBoots = false)
      (originalEntry configured check) s := by
  cases check with
  | none => exact Fallible.guarded_pure trivial ⟨rfl, rfl, nofun⟩
  | some check =>
    refine .bind (safe_openTpm (Q := fun _ t => t.disk = s.disk ∧ t.boot = s.boot) trivial trivial ⟨rfl, rfl⟩) ?_
    rintro _ t - ⟨hdisk, hboot⟩
    refine .bind (safe_nameAt (Q := fun _ u => u = t) trivial rfl) ?_
    rintro name u - rfl
    refine Fallible.guarded_pure trivial ⟨hdisk, hboot, fun entry hentry => ?_⟩
    rw [List.mem_singleton.1 hentry]

theorem safe_storageKeys (configured : Handle) (original : Option StorageKeyCheck) :
    SafeIn S.contract (fun entries t => ∀ entry ∈ entries, S.Tells t entry) (storageKeys configured original) s := by
  refine .bind (safe_reads (Q := fun record t => t = s ∧ S.Reads s record) fun record h => ⟨rfl, h⟩) ?_
  rintro loaded t - ⟨rfl, hread⟩
  have hrecord : (∀ m ∈ loaded.supersededUnused, m ∈ t.disk.loaded.supersededUnused) ∧
      ∀ kept ∈ loaded.superseded, kept ∈ t.disk.loaded.superseded := by
    rcases hread with rfl | ⟨rfl, -⟩
    · exact ⟨fun _ h => h, fun _ h => h⟩
    · exact ⟨nofun, nofun⟩
  refine .bind (safe_bootId (Q := fun boot u => u = t ∧ ∀ b, boot = some b → b = t.boot) trivial ?_) ?_
  · rintro boot (rfl | rfl)
    · exact ⟨rfl, nofun⟩
    · exact ⟨rfl, fun b hb => (Option.some.inj hb).symm⟩
  rintro boot u - ⟨rfl, hboot⟩
  refine .bind (safe_originalEntry configured original) ?_
  rintro first v - ⟨hdisk, hbootv, hfirst⟩
  refine .bind (safe_keyedAll (s := v) (hbootv ▸ hboot) (hdisk ▸ hrecord.1) _ fun key hkey hrole => ?_) ?_
  · exact hdisk ▸ hrecord.2 _ (mem_of_mem_boundSuperseded (mem_recordedKeys hkey hrole))
  rintro entries x - ⟨rfl, hentries⟩
  refine Fallible.guarded_pure trivial fun entry hentry => ?_
  rcases List.mem_append.1 hentry with hentry | hentry
  · intro hunused
    rw [hfirst entry hentry] at hunused
    cases hunused
  · exact hentries entry hentry

/-! ## The start-up step -/

theorem safe_of_tpmOnly {α : Type} {Q : α → World → Prop} {p : Run α} (h : SafeIn (tpmOnly S.allowed s) Q p s) :
    SafeIn S.contract (fun a t => Kept s t ∧ Q a t) p s := by
  have hweak := Fallible.Guarded.weaken (J := S.contract.keeps) (H := S.contract.asks) h (fun _ _ => trivial) ?_
  · exact hweak.mono (fun _ _ _ h => h) fun _ _ _ _ => trivial
  · rintro t op - hasks
    cases op <;> first | exact trivial | exact False.elim hasks

theorem Setting.Reads.of_kept {t : World} (h : S.Reads s record) (hkept : Kept s t) :
    S.Reads t record := by
  rcases h with rfl | ⟨hdefault, v, publishing, e, hdisk, hfails⟩
  · exact .inl (hkept.disk ▸ rfl)
  · exact .inr ⟨hdefault, v, publishing, e, hdisk.trans hkept.disk.symm, hfails⟩

theorem safe_anyEnvelope : SafeIn S.contract (fun _ t => t = s) anyEnvelope s := by
  refine .bind (safe_envelopePaths (Q := fun _ t => t = s) trivial fun _ _ => rfl) ?_
  rintro templates t - rfl
  split
  · refine .bind (safe_envelopePaths (Q := fun _ u => u = t) trivial fun _ _ => rfl) ?_
    rintro secrets u - rfl
    exact Fallible.guarded_pure trivial rfl
  · exact Fallible.guarded_pure trivial rfl

theorem safe_ensureNothing (hrecord : S.Reads s record) (plan : Except Text Plan) :
    SafeIn S.contract (fun _ _ => True) (ensureNothing record plan) s := by
  have hwrite {t : World} (hkept : Kept s t) (checked : Option Original × Bool) :
      SafeIn S.contract (fun _ _ => True) (do
        if record.refused.isSome || record.replacementRefused.isSome || checked.1 ≠ record.original then
          saveRecord { record with
            refused := none, replacementRefused := none, version := recordVersion, original := checked.1 }
        pure ((none : Option Outcome), checked.2)) t := by
    split
    · exact .bind (safe_saveRecord (Q := fun _ _ => True) trivial
        ⟨record, hrecord.of_kept hkept, .of_unchanged rfl rfl rfl rfl⟩ (fun _ _ => trivial) trivial)
        fun _ _ _ _ => Fallible.guarded_pure trivial trivial
    · exact Fallible.guarded_pure trivial trivial
  cases plan with
  | ok chosen =>
    have hcheck : Quiet S.allowed s (do
        openTpm
        originalWith chosen.original record.original false) :=
      quiet_openTpm.bind fun _ => quiet_originalWith _ _ _
    refine .bind (safe_of_tpmOnly ((hcheck s (.refl s)).attempt (P := fun _ _ => True) (fun _ _ _ _ => trivial)
      fun _ _ _ _ => trivial)) ?_
    rintro checked t - ⟨hkept, -⟩
    exact hwrite hkept (checkedOriginal checked record)
  | error detail => exact hwrite (.refl s) (record.original, false)

theorem safe_ensureAtStart (husable : ∀ name ∈ S.usable, s.tpm.Usable name) :
    SafeIn S.contract (fun _ _ => True) ensureAtStartReporting s := by
  refine .bind safe_anyEnvelope ?_
  rintro envelope t - rfl
  refine .bind (safe_lock (Q := fun _ u => u = t) trivial rfl) ?_
  rintro _ u - rfl
  refine .bind (safe_reads (Q := fun record v => v = u ∧ S.Reads u record) fun record hrecord => ⟨rfl, hrecord⟩) ?_
  rintro record v - ⟨rfl, hrecord⟩
  refine .bind (safe_plan (Q := fun plan x => x = v ∧ ∀ detail, plan = .error detail → S.Refuses v) trivial ?_) ?_
  · rintro plan hplan
    refine ⟨rfl, fun detail h => ⟨v, detail, rfl, ?_⟩⟩
    rw [← h]
    exact hplan
  rintro plan x - ⟨rfl, hrefuses⟩
  split
  · exact safe_ensureNothing hrecord plan
  refine .bind (safe_bootId (Q := fun _ y => y = x) trivial fun _ _ => rfl) ?_
  rintro boot y - rfl
  refine .bind (safe_of_tpmOnly (safe_ensureRecord (.refl y) record boot plan)) ?_
  rintro ⟨next, outcome, derived⟩ z - ⟨hkept, hnext⟩
  have hnext : Continues y plan record next := hnext
  have hfollows : S.Follows z record next := by
    refine ⟨.of_unchanged hnext.unusedSince hnext.marks, hnext.names, fun name hname hrecorded => ?_⟩
    cases hplan : plan with
    | ok chosen => exact (hnext.recorded chosen hplan name hrecorded (husable name hname)).imp id .inl
    | error detail =>
      obtain ⟨v, detail', hdisk, hallowed⟩ := hrefuses detail hplan
      exact .inr (.inr ⟨v, detail', hdisk.trans hkept.disk.symm, hallowed⟩)
  dsimp only
  split
  · exact .bind (safe_saveRecord (Q := fun _ _ => True) trivial ⟨record, hrecord.of_kept hkept, hfollows⟩
      (fun _ _ => trivial) trivial) fun _ _ _ _ => Fallible.guarded_pure trivial trivial
  · exact Fallible.guarded_pure trivial trivial

/-! ## The steps -/

theorem guarded_dropping {α : Type} {Q : α → World → Prop} {p : Run α} (h : SafeIn S.contract Q p s) :
    Program.Guarded (Program.reactsBy World.perform S.allowed) (fun _ => True) S.contract.asks (fun _ _ => True)
      (dropping p) s :=
  Program.Guarded.bind h fun _ _ _ _ => ⟨trivial, trivial⟩

/-- **Every call of a step is made as the contract asks.** -/
theorem guarded_program {step : Step} (h : S.Admits s step) :
    Program.Guarded (Program.reactsBy World.perform S.allowed) (fun _ => True) S.contract.asks (fun _ _ => True)
      step.program s := by
  cases step with
  | ensure => exact guarded_dropping (safe_ensureAtStart h)
  | publish id parent => exact guarded_dropping (safe_publishEnvelope h)
  | settle derived => exact guarded_dropping (safe_settleAtStart derived)
  | storageKeys configured original =>
    exact guarded_dropping (.bind (safe_storageKeys configured original) fun entries t _ htells =>
      safe_reply (Q := fun _ _ => True) trivial htells trivial)

/-- **Every state of a run.** What every call made as the contract asks keeps, and every outside event, holds
wherever a run is, and its pending call is made as the contract asks. -/
theorem states_asked {J : World → Prop}
    (hperform : ∀ w t op choice answer, J w → S.contract.asks w op → S.allowed w op choice →
      w.perform op choice = some (answer, t) → J t)
    (houtside : ∀ w x t, J w → w.outside x = some t → J t)
    {m : Machine} {es : List Event} (h : J m.world) (hidle : m.running = .result ())
    (hsteps : ∀ x ∈ steps Machine.step m es, Sessions.Answers S.allowed x.1 x.2 ∧ Sessions.StartsIn S.Admits x.1 x.2) :
    ∀ t ∈ states Machine.step m es, Sessions.Minds World.perform S.allowed (fun w => True ∧ J w)
      (fun w op => J w ∧ S.contract.asks w op) t := by
  refine Sessions.states_minds (A := S.Admits) (fun step w hadmits hI => ?_)
    (fun w x t hI hx => ⟨trivial, houtside w x t hI.2 hx⟩) hsteps ?_
  · refine Program.Guarded.keeps (guarded_program hadmits) hI.2 ?_
    rintro w op answer t hJ hasks ⟨choice, hallowed, hchoice⟩
    exact hperform w t op choice answer hJ hasks hallowed hchoice
  · rw [Sessions.Minds, hidle]
    exact ⟨⟨trivial, h⟩, trivial⟩

end

end Irlume.StorageKey

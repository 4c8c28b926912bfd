import Irlume.StorageKey.Calls

/-!
# What the start-up step makes of the record

Between the read of the record and its write the step only talks to the TPM. It persists keys and moves none, so
a key that was usable stays so; and what it makes of the record keeps the account of the original key, marks no
superseded key, and forgets no key it can find.
-/

namespace Irlume.StorageKey

open Irlume.Lib

/-! ## While the step talks to the TPM -/

/-- The files and the boot are as they were, and the keys of the TPM are still there. -/
structure Kept (w t : World) : Prop where
  disk : t.disk = w.disk
  boot : t.boot = w.boot
  key : ∀ handle key, w.tpm.key handle = some key → t.tpm.key handle = some key

def Tpm.Usable (tpm : Tpm) (name : Bytes) : Prop := ∃ handle, isOwner handle ∧ tpm.holds handle name

/-- A step that evicts nothing and answers nobody, and leaves the files as they are. -/
def tpmOnly (allowed : World → Op → Choice → Prop) (w : World) : Contract where
  allowed
  keeps := Kept w
  saves _ _ := False
  publishes _ _ _ := False
  evicts _ _ _ := False
  replies _ _ := False

theorem Tpm.holds_iff {tpm : Tpm} {handle : Handle} {name : Bytes} :
    tpm.holds handle name ↔ ∃ key, tpm.key handle = some key ∧ key.name = name ∧ key.daExempt := by
  simp [Tpm.holds, Option.any_eq_true]

namespace Kept

variable {w t : World}

theorem refl (w : World) : Kept w w := ⟨rfl, rfl, fun _ _ h => h⟩

variable (h : Kept w t)

include h

theorem opened : Kept w { t with tpm := t.tpm.opened } := ⟨h.disk, h.boot, h.key⟩

theorem derivedKey (key : TpmKey) : Kept w { t with tpm := t.tpm.derivedKey key } :=
  ⟨h.disk, h.boot, h.key⟩

theorem compared (handle : Handle) (key : TpmKey) (gives : Bool) :
    Kept w { t with tpm := t.tpm.compared handle key gives } :=
  ⟨h.disk, h.boot, h.key⟩

theorem persisted {handle : Handle} (hfree : t.tpm.key handle = none) (key : TpmKey) :
    Kept w { t with tpm := t.tpm.persisted handle key } := by
  refine ⟨h.disk, h.boot, fun other there hthere => ?_⟩
  have hkept := h.key other there hthere
  have hother : other ≠ handle := by
    rintro rfl
    rw [hfree] at hkept
    cases hkept
  rw [Tpm.key, Tpm.persisted, List.lookup_cons, beq_eq_false_iff_ne.2 hother]
  exact hkept

theorem usable {name : Bytes} (husable : w.tpm.Usable name) : t.tpm.Usable name := by
  obtain ⟨handle, howner, hholds⟩ := husable
  obtain ⟨key, hkey, hname⟩ := Tpm.holds_iff.1 hholds
  exact ⟨handle, howner, Tpm.holds_iff.2 ⟨key, h.key handle key hkey, hname⟩⟩

end Kept

theorem Tpm.Usable.mem_handlesOf {tpm : Tpm} {name : Bytes} (h : tpm.Usable name) :
    ∃ handle ∈ handlesOf name tpm.owners, tpm.holds handle name := by
  obtain ⟨handle, howner, hholds⟩ := h
  obtain ⟨key, hkey, hname, -⟩ := Tpm.holds_iff.1 hholds
  obtain ⟨before, after, hobjects, -⟩ := List.lookup_eq_some_iff.1 hkey
  refine ⟨handle, ?_, hholds⟩
  have hobject : (handle, key) ∈ tpm.objects.filter fun object => isOwner object.1 := by
    simp [hobjects, howner]
  have hscan : (handle, name) ∈ tpm.owners :=
    List.mem_filterMap.2 ⟨(handle, key), hobject, by simp [hkey, hname]⟩
  simpa [handlesOf] using hscan

section

variable {c : Contract} {s : World}

/-! ## Finding keys -/

variable (hI : c.keeps s)

include hI

theorem safe_firstHolding (name : Bytes) (handles : List Handle) :
    SafeIn c (fun found t => t = s ∧ (found = none → ∀ handle ∈ handles, ¬ s.tpm.holds handle name))
      (firstHolding name handles) s := by
  induction handles with
  | nil => exact Fallible.guarded_pure hI ⟨rfl, nofun⟩
  | cons handle rest ih =>
    rw [firstHolding]
    refine .bind (safe_holdsDaExemptKey (Q := fun holds t => t = s ∧ holds = s.tpm.holds handle name)
      hI ⟨rfl, rfl⟩) ?_
    rintro holds t - ⟨rfl, rfl⟩
    split
    · exact Fallible.guarded_pure hI ⟨rfl, nofun⟩
    · next hmiss =>
      refine ih.mono (fun found t _ ⟨ht, hnone⟩ => ⟨ht, fun hfound other hother => ?_⟩) fun _ _ _ h => h
      rcases List.mem_cons.1 hother with rfl | hother
      · exact hmiss
      · exact hnone hfound other hother

theorem safe_persistedByName (owners : Option (List (Handle × Bytes))) (name : Bytes) :
    SafeIn c (fun _ t => t = s) (persistedByName owners name) s := by
  have hsearch (scanned : List (Handle × Bytes)) : SafeIn c (fun _ t => t = s) (do
      let handle ← firstHolding name (handlesOf name scanned)
      pure (handle, some scanned)) s := by
    refine .bind (safe_firstHolding hI name _) ?_
    rintro found t ht ⟨rfl, -⟩
    exact Fallible.guarded_pure ht rfl
  cases owners with
  | some scanned => exact hsearch scanned
  | none =>
    refine .bind (safe_ownerNames (Q := fun _ t => t = s) hI rfl) ?_
    rintro scanned t - rfl
    exact hsearch scanned

theorem safe_foundElsewhere (persisted : Persisted) :
    SafeIn c (fun found t => t = s ∧ (found = none → ∀ name, hex name = persisted.name → ¬ s.tpm.Usable name))
      (foundElsewhere persisted) s := by
  rw [foundElsewhere]
  split
  · next hunhex =>
    refine Fallible.guarded_pure hI ⟨rfl, fun _ name hname => ?_⟩
    rw [← hname, unhex_hex] at hunhex
    cases hunhex
  · next name hunhex =>
    refine .bind (safe_ownerNames (Q := fun owners t => t = s ∧ owners = s.tpm.owners) hI ⟨rfl, rfl⟩) ?_
    rintro owners t - ⟨rfl, rfl⟩
    refine (safe_firstHolding hI name _).mono (fun found t _ ⟨ht, hnone⟩ => ⟨ht, ?_⟩) fun _ _ _ h => h
    rintro hfound other hother husable
    rw [← hother, unhex_hex] at hunhex
    cases hunhex
    obtain ⟨handle, hhandle, hholds⟩ := husable.mem_handlesOf
    exact hnone hfound handle hhandle hholds

theorem safe_recordedAt (record : Record) :
    SafeIn c (fun found t => t = s ∧
        (∀ next outcome, found = some (next, outcome) → outcome.isFound ∧ next.recorded = record.recorded) ∧
        (found = none → ∀ name, record.recorded = some (hex name) → ¬ s.tpm.Usable name))
      (recordedAt record) s := by
  rw [recordedAt]
  split
  · next hnone =>
    refine Fallible.guarded_pure hI ⟨rfl, fun _ _ h => (Option.some_ne_none _ h.symm).elim, fun _ name h => ?_⟩
    rw [Record.recorded, hnone] at h
    cases h
  · next persisted hpersisted =>
    refine .bind (safe_nameAt (Q := fun _ t => t = s) hI rfl) ?_
    rintro name t - rfl
    split
    · refine Fallible.guarded_pure hI ⟨rfl, ?_, nofun⟩
      rintro next outcome ⟨⟩
      exact ⟨rfl, rfl⟩
    · refine .bind (safe_foundElsewhere hI persisted) ?_
      rintro found t - ⟨rfl, hmissing⟩
      split
      · refine Fallible.guarded_pure hI ⟨rfl, ?_, nofun⟩
        rintro next outcome ⟨⟩
        exact ⟨rfl, by simp [Record.recorded, hpersisted]⟩
      · refine Fallible.guarded_pure hI
          ⟨rfl, fun _ _ h => (Option.some_ne_none _ h.symm).elim, fun _ name h => hmissing rfl name ?_⟩
        rw [Record.recorded, hpersisted] at h
        exact (Option.some.inj h).symm

end

/-! ## Deriving and placing keys -/

def Quiet (allowed : World → Op → Choice → Prop) (w : World) {α : Type} (p : Run α) : Prop :=
  ∀ s, Kept w s → SafeIn (tpmOnly allowed w) (fun _ _ => True) p s

section

variable {allowed : World → Op → Choice → Prop} {w : World} {α β : Type}

theorem quiet_pure (a : α) : Quiet allowed w (pure a : Run α) := fun _ h => Fallible.guarded_pure h trivial

theorem Quiet.bind {p : Run α} {k : α → Run β} (h : Quiet allowed w p) (hk : ∀ a, Quiet allowed w (k a)) :
    Quiet allowed w (p >>= k) :=
  fun s hs => Fallible.Guarded.bind (h s hs) fun a t ht _ => hk a t ht

theorem quiet_ite {b : Prop} [Decidable b] {p q : Run α} (hp : Quiet allowed w p) (hq : Quiet allowed w q) :
    Quiet allowed w (if b then p else q) := by
  split
  · exact hp
  · exact hq

theorem quiet_nameAt (handle : Handle) : Quiet allowed w (nameAt handle) :=
  fun _ h => safe_nameAt h trivial

theorem quiet_persistentAvail : Quiet allowed w persistentAvail :=
  fun _ h => safe_persistentAvail h fun _ => trivial

theorem quiet_derive : Quiet allowed w derive :=
  fun _ h => safe_derive h (fun _ => trivial) h.derivedKey fun _ => trivial

theorem quiet_ownerNames : Quiet allowed w ownerNames := fun _ h => safe_ownerNames h trivial

section

variable (handle : Handle)

theorem quiet_persist : Quiet allowed w (persist handle) :=
  fun _ h => safe_persist h (fun _ => trivial) (fun key hfree => h.persisted hfree key) fun _ _ _ => trivial

theorem quiet_derivesOriginal : Quiet allowed w (derivesOriginal handle) :=
  fun _ h => safe_derivesOriginal h trivial (h.compared handle) fun _ _ _ => trivial

theorem quiet_holdsDaExemptKey (name : Bytes) :
    Quiet allowed w (holdsDaExemptKey handle name) :=
  fun _ h => safe_holdsDaExemptKey h trivial

theorem quiet_isWeak : Quiet allowed w (isWeak handle) := fun _ h => safe_isWeak h fun _ => trivial

end

theorem quiet_derivedIsWeak : Quiet allowed w derivedIsWeak := fun _ h => safe_derivedIsWeak h fun _ => trivial

theorem quiet_firmware : Quiet allowed w firmware := fun _ h => safe_firmware h fun _ => trivial

theorem quiet_openTpm : Quiet allowed w openTpm := fun _ h => safe_openTpm h h.opened trivial

theorem quiet_firstHolding (name : Bytes) (handles : List Handle) :
    Quiet allowed w (firstHolding name handles) :=
  fun _ h => (safe_firstHolding h name handles).mono (fun _ _ _ _ => trivial) fun _ _ _ h => h

theorem quiet_persistFrom (plan : Plan) (name : Bytes) (n : Nat) (taken : List Handle) :
    Quiet allowed w (persistFrom plan name n taken) := by
  induction n generalizing taken with
  | zero => exact quiet_pure _
  | succ n ih =>
    rw [persistFrom]
    split
    · exact quiet_pure _
    · next handle _ =>
      refine (quiet_persist handle).bind fun persisted => ?_
      split
      · exact quiet_pure _
      · refine quiet_ite ?_ (quiet_pure _)
        refine (quiet_nameAt handle).bind fun holder => ?_
        have hplace (same : Bool) : Quiet allowed w
            (if same then pure (.adopted handle) else persistFrom plan name n (taken ++ [handle])) :=
          quiet_ite (quiet_pure _) (ih _)
        exact quiet_ite ((quiet_holdsDaExemptKey handle name).bind hplace) ((quiet_pure _).bind hplace)

theorem quiet_placeDerived (plan : Plan) (name : Bytes) : Quiet allowed w (placeDerived plan name) := by
  refine quiet_ownerNames.bind fun inUse => ?_
  refine (quiet_firstHolding name _).bind fun found => ?_
  split
  · exact quiet_pure _
  · exact quiet_persistFrom plan name _ _

theorem quiet_standingRefusal (boot : Option Boot) (refused : Refused) :
    Quiet allowed w (standingRefusal boot refused) :=
  quiet_ite (quiet_ite (quiet_persistentAvail.bind fun _ => quiet_pure _) (quiet_pure _)) (quiet_pure _)

theorem quiet_deferred (boot : Option Boot) (record : Record) : Quiet allowed w (deferred boot record) := by
  rw [deferred]
  split
  · exact quiet_pure _
  · next refused _ =>
    exact quiet_ite ((quiet_standingRefusal boot refused).bind fun _ => quiet_pure _)
      ((quiet_pure _).bind fun _ => quiet_pure _)

theorem quiet_deferredReplacement (boot : Option Boot) (record : Record) :
    Quiet allowed w (deferredReplacement boot record) := by
  rw [deferredReplacement]
  split
  · exact quiet_pure _
  · next refused _ => exact (quiet_standingRefusal boot refused).bind fun _ => quiet_pure _

theorem quiet_originalWith (handle : Handle) (recorded : Option Original) (derivedNew : Bool) :
    Quiet allowed w (originalWith handle recorded derivedNew) := by
  refine (quiet_nameAt handle).bind fun name => ?_
  split
  · exact quiet_pure _
  · refine quiet_ite (quiet_pure _) ?_
    refine (quiet_derivesOriginal handle).bind fun gives => ?_
    split
    · exact quiet_pure _
    · exact quiet_pure _

/-! ## Finding or making the key -/

/-- What the step makes of the recorded key: it was found, or irlume cannot seal under it anywhere. -/
structure Resolved (w : World) (record : Record) (result : Record × Outcome) : Prop where
  found : result.2.isFound → result.1.recorded = record.recorded
  missing : result.2.isFound = false → ∀ name, record.recorded = some (hex name) → ¬ w.tpm.Usable name

variable {s : World}

theorem safe_makeKey (hs : Kept w s) (boot : Option Boot) (plan : Plan) :
    SafeIn (tpmOnly allowed w) (fun result _ => result.2.isFound = false) (makeKey boot plan) s := by
  refine .bind (quiet_derive s hs) fun derived t ht _ => ?_
  split
  · exact Fallible.guarded_pure ht rfl
  · next name =>
    refine .bind (quiet_placeDerived plan name t ht) fun placed u hu _ => ?_
    split <;> exact Fallible.guarded_pure hu rfl

theorem safe_ensureWith (hs : Kept w s) (record : Record) (boot : Option Boot) (plan : Plan) :
    SafeIn (tpmOnly allowed w) (fun result _ => Resolved w record result)
      (ensureWith record boot (.ok plan)) s := by
  refine .bind (safe_recordedAt hs record) ?_
  rintro found t ht ⟨rfl, hfound, hmissing⟩
  split
  · next found =>
    obtain ⟨hisFound, hrecorded⟩ := hfound found.1 found.2 rfl
    refine Fallible.guarded_pure ht ⟨fun _ => hrecorded, fun h => ?_⟩
    rw [hisFound] at h
    cases h
  · have hunusable (name : Bytes) (h : record.recorded = some (hex name)) : ¬ w.tpm.Usable name :=
      fun husable => hmissing rfl name h (ht.usable husable)
    refine .bind (quiet_deferred boot record _ ht) fun refusal u hu _ => ?_
    split
    · exact Fallible.guarded_pure hu ⟨nofun, fun _ => hunusable⟩
    · refine (safe_makeKey hu boot plan).mono (fun result v _ hresult => ?_) fun _ _ _ h => h
      exact ⟨fun h => absurd h (by rw [hresult]; decide), fun _ => hunusable⟩

/-! ## Keeping the superseded keys -/

variable {c : Contract}

theorem safe_refreshKept (hI : c.keeps s) (owners : Option (List (Handle × Bytes)))
    (l : List Persisted) :
    SafeIn c (fun refreshed t => t = s ∧ refreshed.map (·.name) = l.map (·.name)) (refreshKept owners l) s := by
  induction l generalizing owners with
  | nil => exact Fallible.guarded_pure hI ⟨rfl, rfl⟩
  | cons kept rest ih =>
    rw [refreshKept]
    split
    · refine .bind (ih owners) ?_
      rintro refreshed t ht ⟨rfl, hnames⟩
      exact Fallible.guarded_pure ht ⟨rfl, by rw [List.map_cons, List.map_cons, hnames]⟩
    · next name _ =>
      refine .bind (safe_holdsDaExemptKey (Q := fun _ t => t = s) hI rfl) ?_
      rintro holds t - rfl
      split
      · refine .bind (ih owners) ?_
        rintro refreshed u hu ⟨rfl, hnames⟩
        exact Fallible.guarded_pure hu ⟨rfl, by rw [List.map_cons, List.map_cons, hnames]⟩
      · refine .bind (safe_persistedByName hI owners name) ?_
        rintro ⟨handle, owners⟩ u hu rfl
        refine .bind (ih owners) ?_
        rintro refreshed v hv ⟨rfl, hnames⟩
        exact Fallible.guarded_pure hv ⟨rfl, by rw [List.map_cons, List.map_cons, hnames]⟩

/-- What keeping the superseded keys makes of the record. -/
structure Bounds (record next result : Record) : Prop where
  recorded : result.recorded = next.recorded
  unusedSince : result.unusedSince = next.unusedSince
  marks : result.supersededUnused = next.supersededUnused
  names : Grows next.names result.names
  nodup : result.names.Nodup
  bounded : record.recorded = next.recorded → result.names = boundNames next.names

theorem replacedKey_of_recorded {record next : Record} (h : record.recorded = next.recorded) :
    replacedKey record next = none := by
  rw [replacedKey]
  split
  · next old new hold hnew =>
    rw [Record.recorded, Record.recorded, hold, hnew] at h
    rw [if_neg fun hne => hne (Option.some.inj h)]
  · rfl

theorem safe_supersedeReplaced (hI : c.keeps s) (record next : Record) :
    SafeIn c (fun result t => t = s ∧ (result.1 = next ∨
        record.recorded ≠ next.recorded ∧ ∃ old, result.1 = supersede next old))
      (supersedeReplaced record next) s := by
  rw [supersedeReplaced]
  split
  · exact Fallible.guarded_pure hI ⟨rfl, .inl rfl⟩
  · next old name hreplaced =>
    have hrecorded : record.recorded ≠ next.recorded := by
      intro h
      rw [replacedKey_of_recorded h] at hreplaced
      cases hreplaced
    refine .bind (safe_persistedByName hI none name) ?_
    rintro ⟨handle, owners⟩ t ht rfl
    cases handle with
    | some handle => exact Fallible.guarded_pure ht ⟨rfl, .inr ⟨hrecorded, _, rfl⟩⟩
    | none => exact Fallible.guarded_pure ht ⟨rfl, .inl rfl⟩

theorem safe_keepSuperseded (hI : c.keeps s) (record next : Record) :
    SafeIn c (fun result t => t = s ∧ Bounds record next result) (keepSuperseded record next) s := by
  set bounded : Record := { next with superseded := boundSuperseded next.superseded } with hbounded
  have hnames : bounded.names = boundNames next.names := names_boundSuperseded next.superseded
  refine .bind (safe_supersedeReplaced hI record bounded) ?_
  rintro ⟨result, owners⟩ t ht ⟨rfl, hresult⟩
  refine .bind (safe_refreshKept ht owners result.superseded) ?_
  rintro superseded u hu ⟨rfl, hrefreshed⟩
  refine Fallible.guarded_pure hu ⟨rfl, ?_⟩
  have hkept : Record.names { result with superseded } = result.names := hrefreshed
  rcases hresult with rfl | ⟨hrecorded, old, rfl⟩
  · have hbound := hkept.trans hnames
    exact ⟨rfl, rfl, rfl, hbound ▸ .bounded _, hbound ▸ nodup_boundNames _, fun _ => hbound⟩
  · have hgrows : Grows next.names (supersede bounded old).names := grows_supersede hnames old
    have hnodup : (supersede bounded old).names.Nodup := by
      rw [names_supersede, hnames]
      split <;> exact nodup_boundNames _
    exact ⟨by simp [Record.recorded, hbounded], by simp [hbounded], by simp [hbounded], hkept ▸ hgrows,
      hkept ▸ hnodup, fun h => absurd h hrecorded⟩

/-! ## Replacing a weak key -/

structure Replaces (next result : Record) : Prop where
  unusedSince : result.unusedSince = next.unusedSince
  marks : result.supersededUnused = next.supersededUnused
  names : result.names = next.names ∨
    ∃ name ∉ next.names, result.names = boundNames (next.names ++ [name])
  recorded : ∀ name, next.recorded = some name → result.recorded = some name ∨ name ∈ result.names

theorem Replaces.of_eq {next result : Record} (hunused : result.unusedSince = next.unusedSince)
    (hmarks : result.supersededUnused = next.supersededUnused) (hnames : result.names = next.names)
    (hrecorded : result.recorded = next.recorded) : Replaces next result :=
  ⟨hunused, hmarks, .inl hnames, fun _ h => .inl (hrecorded.trans h)⟩

variable {next : Record}

theorem replaces_replaced {persisted : Persisted} (hnodup : next.names.Nodup)
    (hpersisted : next.persisted = some persisted) (handle : Handle) {name : Bytes}
    (hname : hex name ≠ persisted.name) : Replaces next (replaced next persisted handle name) := by
  have hrecorded : Record.recorded { next with persisted := some ⟨handle, hex name⟩ } ≠ some persisted.name :=
    fun h => hname (Option.some.inj h)
  have hsupersede := names_supersede { next with persisted := some ⟨handle, hex name⟩ } persisted
  have hnames : (replaced next persisted handle name).names =
      if persisted.name ∉ next.names then boundNames (next.names ++ [persisted.name]) else next.names := by
    by_cases hnew : persisted.name ∉ next.names
    · rw [if_pos hnew]
      exact hsupersede.trans (if_pos ⟨hrecorded, hnew⟩)
    · rw [if_neg hnew]
      exact hsupersede.trans (if_neg fun h => hnew h.2)
  refine ⟨by simp [replaced], by simp [replaced], ?_, fun old hold => .inr ?_⟩
  · rw [hnames]
    split
    · next hnew => exact .inr ⟨_, hnew, rfl⟩
    · exact .inl rfl
  · rw [Record.recorded, hpersisted] at hold
    cases hold
    rw [hnames]
    split
    · next hnew =>
      rw [boundNames_append (hnodup.append (List.nodup_singleton _) (List.disjoint_singleton.2 hnew))]
      exact List.mem_append_right _ (List.mem_singleton.2 rfl)
    · next hkept => exact not_not.1 hkept

theorem safe_replaceKey (hs : Kept w s) (hnodup : next.names.Nodup)
    {persisted : Persisted} (hpersisted : next.persisted = some persisted) (boot : Option Boot) (plan : Plan)
    (version : Nat × Nat) :
    SafeIn (tpmOnly allowed w) (fun result _ => Replaces next result.1)
      (replaceKey next boot plan persisted version) s := by
  refine .bind (quiet_derive s hs) fun derived t ht _ => ?_
  split
  · exact Fallible.guarded_pure ht (.of_eq rfl rfl rfl rfl)
  · next name =>
    extract_lets place
    split
    · refine .bind (Fallible.guarded_pure (Q := fun weak _ => weak = true) ht rfl) ?_
      rintro weak u hu rfl
      exact Fallible.guarded_pure hu (.of_eq rfl rfl rfl rfl)
    · next hname =>
      refine .bind (quiet_derivedIsWeak t ht) fun weak u hu _ => ?_
      simp only [place]
      split
      · exact Fallible.guarded_pure hu (.of_eq rfl rfl rfl rfl)
      · refine .bind (quiet_placeDerived plan name u hu) fun placed v hv _ => ?_
        have hreplaced (handle : Handle) := replaces_replaced hnodup hpersisted handle hname
        split
        · exact Fallible.guarded_pure hv (hreplaced _)
        · exact Fallible.guarded_pure hv (hreplaced _)
        · exact Fallible.guarded_pure hv (.of_eq rfl rfl rfl rfl)

theorem safe_replaceFound (hs : Kept w s) (hnodup : next.names.Nodup)
    {outcome : Outcome} (boot : Option Boot) (plan : Plan) :
    SafeIn (tpmOnly allowed w)
      (fun result _ => Replaces next result.1 ∧ (outcome.isFound = false → result.1 = next))
      (replaceFound next outcome boot plan) s := by
  have hsame : Replaces next next := .of_eq rfl rfl rfl rfl
  rw [replaceFound]
  split
  · next hfound =>
    have hweak : SafeIn (tpmOnly allowed w) (fun result _ => ∀ r, result = some r → Replaces next r.1)
        (replaceWeakWith next boot plan) s := by
      rw [replaceWeakWith]
      split
      · exact Fallible.guarded_pure hs fun _ h => (Option.some_ne_none _ h.symm).elim
      · next persisted hpersisted =>
        refine .bind (quiet_isWeak _ s hs) fun weak t ht _ => ?_
        split
        · refine .bind (quiet_firmware t ht) fun version u hu _ => ?_
          split
          · exact Fallible.guarded_pure hu (by rintro r ⟨⟩; exact hsame)
          · refine .bind (quiet_deferredReplacement boot next u hu) fun refusal v hv _ => ?_
            split
            · exact Fallible.guarded_pure hv (by rintro r ⟨⟩; exact hsame)
            · refine .bind (safe_replaceKey hv hnodup hpersisted boot plan version) fun result x hx hresult => ?_
              exact Fallible.guarded_pure hx (by rintro r ⟨⟩; exact hresult)
        · split
          · exact Fallible.guarded_pure ht (by rintro r ⟨⟩; exact .of_eq rfl rfl rfl rfl)
          · split
            · exact Fallible.guarded_pure ht (by rintro r ⟨⟩; exact .of_eq rfl rfl rfl rfl)
            · exact Fallible.guarded_pure ht fun _ h => (Option.some_ne_none _ h.symm).elim
    refine .bind hweak fun replacement t ht hreplacement => ?_
    refine Fallible.guarded_pure ht ⟨?_, fun h => absurd hfound (by rw [h]; decide)⟩
    cases replacement with
    | none => exact hsame
    | some result => exact hreplacement result rfl
  · exact Fallible.guarded_pure hs ⟨hsame, fun _ => rfl⟩

/-! ## The step -/

theorem safe_ensureKeepingUse (hs : Kept w s) (record : Record) (boot : Option Boot) (plan : Plan) :
    SafeIn (tpmOnly allowed w)
      (fun kept _ => ∃ next, Resolved w record (next, kept.2) ∧ kept.1 = keepUse record next kept.2)
      (ensureKeepingUse record boot (.ok plan)) s := by
  refine .bind (safe_ensureWith hs record boot plan) ?_
  rintro ⟨next, outcome⟩ t ht hresolved
  exact Fallible.guarded_pure ht ⟨next, hresolved, rfl⟩

structure Continues (w : World) (plan : Except Text Plan) (record next : Record) : Prop where
  unusedSince : next.unusedSince = record.unusedSince
  marks : next.supersededUnused ⊆ record.supersededUnused
  names : Grows record.names next.names
  recorded : ∀ chosen, plan = .ok chosen → ∀ name, record.recorded = some (hex name) → w.tpm.Usable name →
    next.recorded = some (hex name) ∨ hex name ∈ next.names

theorem supersededUnused_keepUse (record next : Record) (outcome : Outcome) :
    (keepUse record next outcome).supersededUnused ⊆ record.supersededUnused := by
  rw [keepUse]
  split
  · exact List.filter_subset_self _
  · exact List.Subset.refl _

theorem Replaces.grows {next result : Record} {l : List Text} (h : Replaces next result)
    (hnames : next.names = boundNames l) : Grows l result.names := by
  rcases h.names with hsame | ⟨name, hnew, hresult⟩
  · rw [hsame, hnames]
    exact .bounded l
  · rw [hresult, hnames]
    exact .superseded (hnames ▸ hnew)

theorem safe_ensureRecord (hs : Kept w s) (record : Record) (boot : Option Boot)
    (plan : Except Text Plan) :
    SafeIn (tpmOnly allowed w) (fun result _ => Continues w plan record result.1)
      (ensureRecord record boot plan) s := by
  cases plan with
  | error detail =>
    exact Fallible.guarded_pure hs ⟨rfl, fun _ h => h, .same _, fun _ h => by cases h⟩
  | ok chosen =>
    refine .bind (quiet_openTpm s hs) fun _ t ht _ => ?_
    refine .bind (safe_ensureKeepingUse ht record boot chosen) ?_
    rintro ⟨kept, outcome⟩ u hu ⟨next, hresolved, hkept⟩
    obtain rfl : kept = keepUse record next outcome := hkept
    refine .bind (safe_keepSuperseded hu record _) ?_
    rintro next' v hv ⟨rfl, hkept⟩
    refine .bind (safe_replaceFound hv hkept.nodup boot chosen) ?_
    rintro ⟨result, outcome'⟩ x hx ⟨hreplaces, hsame⟩
    refine .bind ((quiet_originalWith _ _ _ x hx).attempt (P := fun _ _ => True) (fun _ _ _ _ => trivial)
      fun _ _ _ _ => trivial) fun checked y hy _ => ?_
    refine Fallible.guarded_pure hy ⟨hreplaces.unusedSince.trans hkept.unusedSince, ?_, ?_, ?_⟩
    · have hmarks := hreplaces.marks.trans hkept.marks
      exact hmarks ▸ supersededUnused_keepUse record next outcome
    · cases hfound : outcome.isFound with
      | true => exact hreplaces.grows (hkept.bounded (hresolved.found hfound).symm)
      | false =>
        have hnames : result.names = next'.names := congrArg Record.names (hsame hfound)
        have hgrows : Grows record.names result.names := hnames ▸ hkept.names
        exact hgrows
    · intro _ _ name hname husable
      cases hfound : outcome.isFound with
      | true => exact hreplaces.recorded _ (hkept.recorded.trans ((hresolved.found hfound).trans hname))
      | false => exact absurd husable (hresolved.missing hfound name hname)

end

end Irlume.StorageKey

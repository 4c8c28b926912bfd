import Irlume.Emitter.Stream.PutBack
import Irlume.Lib.Interleaving

/-!
# A write the camera does not answer

What is left of the record of `writeIfDifferentInner` when the `SET_CUR` it was filed for is not answered, so
that nobody knows whether it reached the camera. A refused write and one without an answer are treated alike:
the record is removed.
-/

namespace Irlume.Emitter.Stream

open Irlume.Lib

/-- A run to its end, with the calls that were made and what was chosen for each. -/
inductive Finishes {α : Type} : Run α → World → List (Op × Choice) → α → World → Prop
  | result (a : α) (w : World) : Finishes (.result a) w [] a w
  | call {op : Op} {next : op.Answer → Run α} {w s t : World} {ch : Choice} {answer : op.Answer}
      {cs : List (Op × Choice)} {a : α} (hop : w.perform op ch = some (answer, s))
      (h : Finishes (next answer) s cs a t) : Finishes (.call op next) w ((op, ch) :: cs) a t

variable {α β : Type} {w t : World} {cs : List (Op × Choice)}

theorem Finishes.of_bind {p : Run α} {k : α → Run β} {b : β} (h : Finishes (p >>= k) w cs b t) :
    ∃ a s before after, cs = before ++ after ∧ Finishes p w before a s ∧ Finishes (k a) s after b t := by
  induction p generalizing w cs with
  | result a => exact ⟨a, w, [], cs, rfl, .result a w, h⟩
  | call op next ih =>
    cases h with
    | call hop h =>
      obtain ⟨a, s, before, after, rfl, hfirst, hlast⟩ := ih _ h
      exact ⟨a, s, _ :: before, after, rfl, .call hop hfirst, hlast⟩

theorem Finishes.calls {P : Op → Prop} {Q : α → Prop} {p : Run α} {a : α} (h : Finishes p w cs a t)
    (hp : Program.Calls P Q p) : ∀ x ∈ cs, P x.1 := by
  induction h with
  | result a w => nofun
  | call hop h ih => exact List.forall_mem_cons.2 ⟨hp.1, ih (hp.2 _)⟩

variable {u v : UInt8} {wanted current displaced : Bytes} {lock : Bool}

/-! ## The calls -/

/-- The camera did not answer the write. -/
def Unanswered (u v : UInt8) (wanted : Bytes) (cs : List (Op × Choice)) : Prop :=
  ∃ errno, (Op.setCur .forward u v wanted, Choice.cameraFails (.unresponsive errno)) ∈ cs

/-- The calls that neither file nor remove a record, and send nothing to the camera. -/
def Quiet : Op → Prop
  | .publish _ _ => False
  | .removeRecord _ => False
  | .setCur _ _ _ _ => False
  | _ => True

variable {ch : Choice}

theorem not_mem_of_quiet {op : Op} (h : ∀ x ∈ cs, Quiet x.1) (hop : ¬Quiet op) : (op, ch) ∉ cs :=
  fun hmem => hop (h _ hmem)

theorem files_putFile (w : World) (path : Text) (contents : Option Contents) :
    (w.putFile path contents).files path = contents := Function.update_self ..

variable {s : World} {answer : Except Unit Unit}

theorem perform_publish {path : Text} {record : StreamWrite}
    (h : w.perform (.publish path record) ch = some (answer, s)) :
    ch = .works ∧ answer = .ok () ∧ s = w.putFile path (some (.record record)) ∨
      ch = .fileFails ∧ answer = .error () ∧ s = w := by
  cases ch <;> simp [World.perform] at h ⊢ <;> simp [h]

theorem perform_removeRecord {path : Text}
    (h : w.perform (.removeRecord path) ch = some (answer, s)) :
    ch = .works ∧ s = w.putFile path none ∨ ch = .fileFails ∧ s = w := by
  cases ch <;> simp [World.perform] at h ⊢ <;> simp [h]

theorem calls_forwardWrite_none :
    Program.Calls (fun op => ∀ path record, op ≠ .publish path record) (fun _ => True)
      (forwardWrite u v wanted current none lock) := by
  refine ⟨nofun, fun a => ?_⟩
  cases a with
  | error a => trivial
  | ok a =>
    refine ⟨nofun, fun a => ?_⟩
    cases a <;> trivial

theorem perform_beforeForwardWrite
    (h : w.perform .beforeForwardWrite ch = some (answer, s)) : s = w := by
  cases ch <;> simp [World.perform] at h <;> simp [h]

theorem perform_setCur {why : Purpose} {payload : Bytes} {answer : Except XuError Unit}
    (h : w.perform (.setCur why u v payload) ch = some (answer, s)) :
    (answer = .ok () → ch = .works) ∧ ∀ e, answer = .error e → s.files = w.files := by
  cases ch <;> simp [World.perform] at h <;> obtain ⟨rfl, rfl⟩ := h <;> simp [World.note]

/-- The write of a record in place: without an answer, the record is there exactly if it could not be removed. -/
theorem finishes_forwardWrite {r : StreamRecord} {a : Written} (hr : w.files r.path = some (.record r.record))
    (h : Finishes (forwardWrite u v wanted current (some r) lock) w cs a t) :
    (∀ path record, record.state = .prepared → (.publish path record, Choice.works) ∉ cs) ∧
      (Unanswered u v wanted cs →
        (t.files r.path = some (.record r.record) ↔ (Op.removeRecord r.path, Choice.fileFails) ∈ cs)) := by
  cases h with
  | @call _ _ _ _ _ ch a _ _ hop h =>
  obtain rfl := perform_beforeForwardWrite hop
  cases a with
  | error a =>
    cases h with
    | call hop h =>
    cases h
    simp [Unanswered]
  | ok a =>
  cases h with
  | @call _ _ _ _ _ ch a _ _ hop h =>
  cases a with
  | ok a =>
    cases h with
    | @call _ _ _ _ _ _ a _ _ _ h =>
    obtain rfl := (perform_setCur hop).1 rfl
    refine ⟨fun path record hstate hmem => ?_, fun ⟨errno, hsent⟩ => ?_⟩
    all_goals cases a <;> cases h
    -- what is published on the way is an applied record
    · obtain ⟨⟨-, rfl⟩, -⟩ : (path = r.path ∧ record = _) ∧ _ := by simpa using hmem
      cases hstate
    · obtain ⟨⟨-, rfl⟩, -⟩ : (path = r.path ∧ record = _) ∧ _ := by simpa using hmem
      cases hstate
    all_goals simp at hsent
  | error e =>
    cases h with
    | @call _ _ _ _ _ ch' _ _ _ hremove h =>
    cases h
    have hfiles := (perform_setCur hop).2 e rfl
    obtain ⟨rfl, rfl⟩ | ⟨rfl, rfl⟩ := perform_removeRecord hremove
    · simp [World.putFile]
    · simp [hfiles, hr]

section

variable [Sha256] {id : CameraIdentity}

theorem calls_acquire : Program.Calls Quiet (fun _ => True) (acquire id) := by
  refine ⟨trivial, fun a => ?_⟩
  cases a with
  | error a => trivial
  | ok a =>
    refine ⟨trivial, fun a => ?_⟩
    cases a with
    | error a => trivial
    | ok file =>
      refine ⟨trivial, fun a => ?_⟩
      cases a with
      | error e => trivial
      | ok a =>
        refine ⟨trivial, fun a => ?_⟩
        cases a <;> trivial

/-- Filing a record is the last call of a save that goes well, and no call of one that does not. -/
theorem finishes_save {a : Except SaveError StreamRecord} (h : Finishes (save id u v wanted current) w cs a t) :
    (∃ e before, a = .error e ∧ (∀ x ∈ before, Quiet x.1) ∧
      (cs = before ∨ cs = before ++ [(.publish (recordPath id) (prepared id u v wanted current), .fileFails)])) ∨
    ∃ before, a = .ok ⟨recordPath id, prepared id u v wanted current, false⟩ ∧ (∀ x ∈ before, Quiet x.1) ∧
      cs = before ++ [(.publish (recordPath id) (prepared id u v wanted current), .works)] ∧
      t.files (recordPath id) = some (.record (prepared id u v wanted current)) := by
  cases h with
  | @call _ _ _ _ _ _ a _ _ _ h =>
  cases a with
  | error a =>
    cases h
    exact .inl ⟨_, _, rfl, by simp [Quiet], .inl rfl⟩
  | ok a =>
  cases h with
  | @call _ _ _ _ _ _ a _ _ _ h =>
  cases a with
  | error a =>
    cases h
    exact .inl ⟨_, _, rfl, by simp [Quiet], .inl rfl⟩
  | ok found =>
  dsimp only at h
  split at h
  · cases h
    exact .inl ⟨_, _, rfl, by simp [Quiet], .inl rfl⟩
  · cases h with
    | call hop h =>
    obtain ⟨rfl, rfl, rfl⟩ | ⟨rfl, rfl, rfl⟩ := perform_publish hop
    · cases h
      exact .inr ⟨[_, _], rfl, by simp [Quiet], rfl, files_putFile ..⟩
    · cases h
      exact .inl ⟨_, [_, _], rfl, by simp [Quiet], .inr rfl⟩

/-! ## The record of a write without an answer -/

/-- The record of the write was filed. -/
def Saved (id : CameraIdentity) (u v : UInt8) (wanted displaced : Bytes) (cs : List (Op × Choice)) : Prop :=
  (Op.publish (recordPath id) (prepared id u v wanted displaced), Choice.works) ∈ cs

/-- The record could not be removed. -/
def Stuck (id : CameraIdentity) (cs : List (Op × Choice)) : Prop :=
  (Op.removeRecord (recordPath id), Choice.fileFails) ∈ cs

/-- **The record outlives a write of unknown effect.** -/
def KeepsUnanswered (id : CameraIdentity) (u v : UInt8) (wanted : Bytes) (cs : List (Op × Choice)) (t : World) :
    Prop :=
  ∀ displaced, Saved id u v wanted displaced cs → Unanswered u v wanted cs →
    t.files (recordPath id) = some (.record (prepared id u v wanted displaced))

/-- A write without an answer has left its record exactly if the record could not be removed. -/
def Exact (id : CameraIdentity) (u v : UInt8) (wanted : Bytes) (cs : List (Op × Choice)) (t : World) : Prop :=
  ∀ displaced, Saved id u v wanted displaced cs → Unanswered u v wanted cs →
    (t.files (recordPath id) = some (.record (prepared id u v wanted displaced)) ↔ Stuck id cs)

variable {before : List (Op × Choice)}

theorem Exact.of_unsaved (h : ∀ record, (Op.publish (recordPath id) record, Choice.works) ∉ cs) :
    Exact id u v wanted cs t := fun _ hsaved => absurd hsaved (h _)

theorem Exact.quiet_append (hq : ∀ x ∈ before, Quiet x.1) (h : Exact id u v wanted cs t) :
    Exact id u v wanted (before ++ cs) t := by
  have hmem : ∀ {op ch}, ¬Quiet op → ((op, ch) ∈ before ++ cs ↔ (op, ch) ∈ cs) := fun hop =>
    List.mem_append.trans (or_iff_right (not_mem_of_quiet hq hop))
  intro displaced hsaved ⟨errno, hsent⟩
  have hloud : ∀ op, op ∈ [Op.publish (recordPath id) (prepared id u v wanted displaced), .removeRecord (recordPath id),
      .setCur .forward u v wanted] → ¬Quiet op := by simp [Quiet]
  rw [Stuck, hmem (hloud _ (by simp))]
  exact h displaced ((hmem (hloud _ (by simp))).1 hsaved) ⟨errno, (hmem (hloud _ (by simp))).1 hsent⟩

theorem exact_readAndWrite {len : Nat} {a : Written} (h : Finishes (readAndWrite id u v len wanted lock) w cs a t) :
    Exact id u v wanted cs t := by
  cases h with
  | @call _ _ _ _ _ ch a cs _ _ h =>
  change Exact id u v wanted ([_] ++ cs) t
  refine Exact.quiet_append (by simp [Quiet]) ?_
  cases a with
  | error e =>
    cases h
    exact .of_unsaved nofun
  | ok current =>
  dsimp only at h
  split at h
  · cases h
    exact .of_unsaved nofun
  split at h
  · obtain ⟨a, s, saves, writes, rfl, hsave, hwrite⟩ := h.of_bind
    obtain ⟨e, quiet, rfl, hquiet, hsaves⟩ | ⟨quiet, rfl, hquiet, rfl, hfile⟩ := finishes_save hsave
    · refine .of_unsaved fun record hmem => ?_
      rcases List.mem_append.1 hmem with hmem | hmem
      · rcases hsaves with rfl | rfl
        · exact hquiet _ hmem
        · rcases List.mem_append.1 hmem with hmem | hmem
          · exact hquiet _ hmem
          · cases List.mem_singleton.1 hmem
      · match e with
        | .refused why => cases hwrite; cases hmem
        | .protectedRecord => cases hwrite; cases hmem
        | .unavailable => exact (hwrite.calls calls_forwardWrite_none _ hmem) _ _ rfl
    · obtain ⟨hunsaved, hkept⟩ := finishes_forwardWrite hfile hwrite
      rw [List.append_assoc]
      refine Exact.quiet_append hquiet fun displaced hsaved ⟨errno, hsent⟩ => ?_
      have hsame : prepared id u v wanted displaced = prepared id u v wanted current := by
        rcases List.mem_cons.1 hsaved with heq | hmem
        · exact (Op.publish.inj (Prod.mk.inj heq).1).2
        · exact absurd hmem (hunsaved _ _ rfl)
      rw [hsame, hkept ⟨errno, (List.mem_cons.1 hsent).resolve_left nofun⟩]
      exact ⟨List.mem_cons_of_mem _, fun hmem => (List.mem_cons.1 hmem).resolve_left nofun⟩
  · exact .of_unsaved fun record hmem => (h.calls calls_forwardWrite_none _ hmem) _ _ rfl

/-- **The record of a write without an answer.** In every run the record outlives a write of unknown effect exactly if
none was filed, or the camera answered, or the record could not be removed. -/
theorem unanswered_exact {len : Nat} {a : Written} (h : Finishes (writeIfDifferentInner id u v len wanted) w cs a t) :
    KeepsUnanswered id u v wanted cs t ↔
      ¬((∃ displaced, Saved id u v wanted displaced cs) ∧ Unanswered u v wanted cs) ∨ Stuck id cs := by
  have hexact : Exact id u v wanted cs t := by
    obtain ⟨a, s, before, after, rfl, hacquire, h⟩ := h.of_bind
    refine Exact.quiet_append (hacquire.calls calls_acquire) ?_
    match a with
    | .ok () => exact exact_readAndWrite h
    | .error .unavailable => exact exact_readAndWrite h
    | .error .busy =>
      cases h
      exact .of_unsaved nofun
    | .error .protectedRecord =>
      cases h
      exact .of_unsaved nofun
  constructor
  · intro hkeeps
    rw [or_iff_not_imp_left, not_not]
    rintro ⟨⟨displaced, hsaved⟩, hsent⟩
    exact (hexact displaced hsaved hsent).1 (hkeeps displaced hsaved hsent)
  · rintro (hnot | hstuck) displaced hsaved hsent
    · exact absurd ⟨⟨displaced, hsaved⟩, hsent⟩ hnot
    · exact (hexact displaced hsaved hsent).2 hstuck

end

/-! ## A timed out write -/

/-- A stream's write that times out (110 is ETIMEDOUT), and the removal of its record. -/
def timedOut [Sha256] (removal : Choice) : List (Op × Choice) :=
  [(.protectLegacyRecords, .works), (.openLock (lockPath laptop), .works), (.flock 0, .works),
    (.protectLegacyRecords, .works), (.getCur 4 6 2, .works), (.protectLegacyRecords, .works),
    (.readRecord (recordPath laptop), .works),
    (.publish (recordPath laptop) (prepared laptop 4 6 [2, 9] [1, 0]), .works), (.beforeForwardWrite, .works),
    (.setCur .forward 4 6 [2, 9], .cameraFails (.unresponsive 110)), (.removeRecord (recordPath laptop), removal)]

/-- With a removal that fails the record is kept. -/
theorem unanswered_exact_stuck :
    letI := keepingDigest
    ∃ a t, Finishes (writeIfDifferentInner laptop 4 6 2 [2, 9]) untouched (timedOut .fileFails) a t ∧
      KeepsUnanswered laptop 4 6 [2, 9] (timedOut .fileFails) t := by
  let := keepingDigest
  have hrun : Finishes (writeIfDifferentInner laptop 4 6 2 [2, 9]) untouched (timedOut .fileFails) _ _ :=
    .call rfl <| .call rfl <| .call rfl <| .call rfl <| .call rfl <| .call rfl <| .call rfl <| .call rfl <|
      .call rfl <| .call rfl <| .call rfl <| .result _ _
  exact ⟨_, _, hrun, (unanswered_exact hrun).2 (.inr (List.mem_of_getElem? (show (timedOut .fileFails)[10]? = _ from rfl)))⟩

/-- With one that works nothing is left to tell the change by, if it did reach the camera. -/
theorem not_keepsUnanswered_timedOut :
    letI := keepingDigest
    ∃ a t, Finishes (writeIfDifferentInner laptop 4 6 2 [2, 9]) untouched (timedOut .works) a t ∧
      t.files (recordPath laptop) = none ∧ ¬KeepsUnanswered laptop 4 6 [2, 9] (timedOut .works) t := by
  let := keepingDigest
  have hrun : Finishes (writeIfDifferentInner laptop 4 6 2 [2, 9]) untouched (timedOut .works) _ _ :=
    .call rfl <| .call rfl <| .call rfl <| .call rfl <| .call rfl <| .call rfl <| .call rfl <| .call rfl <|
      .call rfl <| .call rfl <| .call rfl <| .result _ _
  refine ⟨_, _, hrun, files_putFile .., fun hkeeps => ?_⟩
  have hsaved : Saved laptop 4 6 [2, 9] [1, 0] (timedOut .works) :=
    List.mem_of_getElem? (show (timedOut .works)[7]? = _ from rfl)
  have hsent : Unanswered 4 6 [2, 9] (timedOut .works) := 
    ⟨110, List.mem_of_getElem? (show (timedOut .works)[9]? = _ from rfl)⟩
  cases (hkeeps [1, 0] hsaved hsent).symm.trans (files_putFile ..)

end Irlume.Emitter.Stream

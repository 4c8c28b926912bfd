import Irlume.Emitter.Stream.Mode
import Irlume.Lib.Interleaving

/-!
# Which files a stream touches

A stream that has the lock touches no file but the record of its camera, and one that goes ahead without
the lock touches none.
-/

namespace Irlume.Emitter.Stream

open Irlume.Lib

def OnFiles : Op → Prop
  | .openLock _ => True
  | .flock _ => True
  | .readRecord _ => True
  | .publish _ _ => True
  | .removeRecord _ => True
  | _ => False

/-- The calls that leave the files alone, or are on the record file at `path`. -/
def AtPath (path : Text) : Op → Prop
  | .openLock _ => False
  | .flock _ => False
  | .readRecord q => q = path
  | .publish q _ => q = path
  | .removeRecord q => q = path
  | _ => True

section

variable {P : Op → Prop} {u v : UInt8} {wanted current : Bytes} {m : UvcMode}

variable {r : StreamRecord}

section

variable (hr : ∀ op, AtPath r.path op → P op)

include hr

theorem calls_markApplied :
    Program.Calls P (fun a => ∀ r', a = .ok r' ∨ a = .error r' → r'.path = r.path) r.markApplied := by
  refine ⟨hr _ rfl, fun a => ?_⟩
  cases a with
  | ok a =>
    rintro r' (hr' | hr') <;> cases hr'
    rfl
  | error a =>
    rintro r' (hr' | hr') <;> cases hr'
    rfl

theorem calls_retire :
    Program.Calls P (fun a => ∀ r', a = .ok r' → r'.path = r.path) r.retire := by
  unfold StreamRecord.retire
  split
  · intro r' hr'
    cases hr'
    rfl
  · refine ⟨hr _ rfl, fun a => ?_⟩
    cases a with
    | ok a =>
      intro r' hr'
      cases hr'
      rfl
    | error a => nofun

theorem calls_resolve {α : Type} {a : α} :
    Program.Calls P (fun _ => True) (r.resolve >>= fun () => (.result a : Run α)) :=
  ⟨hr _ rfl, fun _ => trivial⟩

end

/-- The record of a write, if it has one, is at a path the caller may use. -/
def RecordAt (P : Op → Prop) (record : Option StreamRecord) : Prop :=
  ∀ r, record = some r → ∀ op, AtPath r.path op → P op

theorem RecordAt.of_path {r r' : StreamRecord} (hr : ∀ op, AtPath r.path op → P op)
    (hpath : r'.path = r.path) : RecordAt P (some r') := by
  intro r'' hr''
  cases hr''
  rw [hpath]
  exact hr

variable {lock : Bool}

section

variable (hfree : ∀ op, ¬ OnFiles op → P op)

include hfree

theorem calls_forwardWrite {record : Option StreamRecord} (hrecord : RecordAt P record) :
    Program.Calls P
      (fun a => ∀ write, a = .ok write → RecordAt P write.record ∧ (write.lock = true → lock = true))
      (forwardWrite u v wanted current record lock) := by
  refine ⟨hfree _ id, fun a => ?_⟩
  cases a with
  | error a =>
    cases record with
    | none => nofun
    | some r => exact ⟨hrecord r rfl _ rfl, fun _ => nofun⟩
  | ok a =>
    refine ⟨hfree _ id, fun a => ?_⟩
    cases a with
    | ok a =>
      cases record with
      | none =>
        intro write hwrite
        cases hwrite
        exact ⟨nofun, id⟩
      | some r =>
        refine (calls_markApplied (hrecord r rfl)).bind fun a hpath => ?_
        cases a with
        | ok r' =>
          intro write hwrite
          cases hwrite
          exact ⟨.of_path (hrecord r rfl) (hpath r' (.inl rfl)), id⟩
        | error r' =>
          intro write hwrite
          cases hwrite
          exact ⟨.of_path (hrecord r rfl) (hpath r' (.inr rfl)), id⟩
    | error e =>
      cases record with
      | none =>
        intro write hwrite
        cases hwrite
        exact ⟨nofun, nofun⟩
      | some r =>
        refine ⟨hrecord r rfl _ rfl, fun _ write hwrite => ?_⟩
        cases hwrite
        exact ⟨nofun, nofun⟩

theorem calls_putBack :
    Program.Calls P (fun _ => True) m.putBack := by
  refine ⟨hfree _ id, fun a => ?_⟩
  cases a with
  | error e => trivial
  | ok now =>
    simp only
    split
    · trivial
    · refine ⟨hfree _ id, fun a => ?_⟩
      cases a with
      | error e => trivial
      | ok a =>
        refine ⟨hfree _ id, fun a => ?_⟩
        cases a with
        | error e => trivial
        | ok a =>
          refine ⟨hfree _ id, fun a => ?_⟩
          cases a <;> trivial

theorem calls_finish (hrecord : RecordAt P m.record) :
    Program.Calls P (fun _ => True) m.finish := by
  have hrestore : Program.Calls P (fun _ => True) m.restoreInner := by
    unfold UvcMode.restoreInner
    cases hr : m.record with
    | none =>
      refine (calls_putBack hfree).bind fun a _ => ?_
      cases a <;> trivial
    | some r =>
      refine (calls_retire (hrecord r hr)).bind fun a hpath => ?_
      cases a with
      | error r' => trivial
      | ok r' =>
        have hr' : ∀ op, AtPath r'.path op → P op := by
          rw [hpath r' rfl]
          exact hrecord r hr
        refine (calls_putBack hfree).bind fun a _ => ?_
        cases a with
        | ok a => exact calls_resolve hr'
        | error e => exact (calls_markApplied hr').bind fun _ _ => trivial
  unfold UvcMode.finish
  split
  · exact ⟨hfree _ id, fun _ => hrestore.bind fun _ _ => ⟨hfree _ id, fun _ => trivial⟩⟩
  · trivial

end

variable [Sha256] {id : CameraIdentity}

theorem calls_save (hat : ∀ op, AtPath (recordPath id) op → P op) :
    Program.Calls P (fun a => ∀ r, a = .ok r → r.path = recordPath id) (save id u v wanted current) := by
  refine ⟨hat _ trivial, fun a => ?_⟩
  cases a with
  | error a => nofun
  | ok a =>
    refine ⟨hat _ rfl, fun a => ?_⟩
    cases a with
    | error a => nofun
    | ok found =>
      simp only
      split
      · nofun
      · refine ⟨hat _ rfl, fun a => ?_⟩
        cases a with
        | error a => nofun
        | ok a =>
          intro r hr
          cases hr
          rfl

theorem calls_claim (hat : ∀ op, AtPath (recordPath id) op → P op) :
    Program.Calls P (fun a => ∀ value r, a = some (value, r) → r.path = recordPath id)
      (claim id u v current) := by
  refine ⟨hat _ trivial, fun a => ?_⟩
  cases a with
  | error a => nofun
  | ok a =>
    refine ⟨hat _ rfl, fun a => ?_⟩
    match a with
    | .error () => nofun
    | .ok none => nofun
    | .ok (some .unparseable) => nofun
    | .ok (some (.record r)) =>
      simp only
      split
      · nofun
      · intro value r' hr'
        cases hr'
        rfl

theorem calls_arm {write : CaptureWrite}
    (hlock : write.lock = true → ∀ op, AtPath (recordPath id) op → P op)
    (hrecord : RecordAt P write.record) :
    Program.Calls P (fun m => RecordAt P m.record) (arm id u v wanted write) := by
  unfold arm
  cases write.outcome with
  | wrote => exact hrecord
  | alreadyHeld =>
    simp only
    split
    · next hl =>
      refine (calls_claim (hlock hl)).bind fun a hpath => ?_
      match a, hpath with
      | none, _ => exact nofun
      | some (value, r), hpath =>
        intro r' hr'
        cases hr'
        exact hpath value r rfl ▸ hlock hl
    · exact nofun
  | nothing => exact nofun

theorem calls_readAndWrite {len : Nat} (hfree : ∀ op, ¬ OnFiles op → P op)
    (hlock : lock = true → ∀ op, AtPath (recordPath id) op → P op) :
    Program.Calls P
      (fun a => ∀ write, a = .ok write → RecordAt P write.record ∧ (write.lock = true → lock = true))
      (readAndWrite id u v len wanted lock) := by
  have hnone : RecordAt P none := nofun
  refine ⟨hfree _ (fun h => h), fun a => ?_⟩
  cases a with
  | error e => nofun
  | ok current =>
    simp only
    split
    · intro write hwrite
      cases hwrite
      exact ⟨nofun, fun h => h⟩
    split
    · next hl =>
      have hrefused : ∀ write, (.ok CaptureWrite.refused : Written) = .ok write →
          RecordAt P write.record ∧ (write.lock = true → lock = true) := by
        intro write hwrite
        cases hwrite
        exact ⟨nofun, nofun⟩
      refine (calls_save (hlock hl)).bind fun a hpath => ?_
      match a, hpath with
      | .ok r, hpath =>
        have hrecord : RecordAt P (some r) := by
          intro r' hr'
          cases hr'
          exact hpath r rfl ▸ hlock hl
        subst hl
        exact (calls_forwardWrite hfree hrecord).mono fun a ha write hwrite =>
          ⟨(ha write hwrite).1, fun _ => rfl⟩
      | .error (.refused why), _ => exact hrefused
      | .error .protectedRecord, _ => exact hrefused
      | .error .unavailable, _ =>
        subst hl
        exact calls_forwardWrite hfree hnone
    · next hl =>
      exact (calls_forwardWrite hfree hnone).mono fun a ha write hwrite =>
        ⟨(ha write hwrite).1, fun h => nomatch (ha write hwrite).2 h⟩

theorem calls_stream {len : Nat} (hfree : ∀ op, ¬ OnFiles op → P op)
    (hlock : lock = true → ∀ op, AtPath (recordPath id) op → P op) :
    Program.Calls P (fun _ => True) (readAndWrite id u v len wanted lock >>= fun
      | .error _ => .result ()
      | .ok write => arm id u v wanted write >>= fun mode => mode.finish) := by
  refine (calls_readAndWrite hfree hlock).bind fun a ha => ?_
  cases a with
  | error e => trivial
  | ok write =>
    obtain ⟨hrecord, hl⟩ := ha write rfl
    exact (calls_arm (fun h => hlock (hl h)) hrecord).bind fun mode hmode => calls_finish hfree hmode

end

end Irlume.Emitter.Stream

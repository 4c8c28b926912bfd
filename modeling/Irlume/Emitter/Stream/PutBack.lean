import Irlume.Emitter.Stream.Displaced

/-!
# The programs of a stream keep what was displaced

Program by program: a record is saved only where no change is outstanding, a claim hands over what was displaced
by the change it finds, and a mode that is armed takes back with its restore the change it owns.
-/

namespace Irlume.Emitter.Stream

open Irlume.Lib

/-! ## The record of a handle -/

structure StreamRecord.InPlace (path : Text) (r : StreamRecord) (w : World) : Prop where
  path : r.path = path
  file : w.files r.path = some (.record r.record)

/-- The record of a write of `wanted` to come. -/
structure StreamWrite.Prepares (v₀ : Control → Bytes) (c : Control) (wanted : Bytes) (r : StreamWrite) :
    Prop where
  state : r.state = .prepared
  control : r.control = c
  applied : r.applied = toHex wanted
  displaced : r.displaced = toHex (v₀ c)

/-- A mode that is armed owns the one change outstanding. -/
structure UvcMode.Owns (path : Text) (v₀ : Control → Bytes) (m : UvcMode) (r : StreamRecord)
    (w : World) : Prop where
  record : m.record = some r
  inPlace : r.InPlace path w
  control : r.record.control = (m.unit, m.selector)
  outstanding : Outstanding v₀ r.record w
  applied : m.applied = w.control (m.unit, m.selector)
  restore : m.restore = v₀ (m.unit, m.selector)

variable {path : Text} {v₀ : Control → Bytes} {w t : World} {r : StreamWrite} {u s : UInt8}
  {wanted : Bytes} {h : StreamRecord} {m : UvcMode}

section

variable (hI : Kept path v₀ w)

include hI

theorem safe_resolve {α : Type} {a : α} {Q : α → World → Prop}
    (hpath : h.path = path) (hresting : ∀ c, Resting v₀ w c) (hQ : Q a (w.putFile path none)) :
    Safe path v₀ Q (h.resolve >>= fun () => .result a) w := by
  refine ⟨hI, fun answer t ht => ?_⟩
  subst hpath
  obtain rfl := reacts_removeRecord ht
  exact ⟨hI.putFile (fun c => .inl (hresting c)) nofun, hQ⟩

theorem safe_markApplied (hplace : h.InPlace path w)
    (hstands : Outstanding v₀ h.record w ∨ Resting v₀ w h.record.control ∧
      fromHex h.record.applied ≠ some (w.control h.record.control)) :
    Safe path v₀ (fun a t => ∃ h', a = .ok h' ∧ h'.InPlace path t ∧ SameWrite h'.record h.record ∧
        t.control = w.control ∧ t.log = w.log)
      h.markApplied w := by
  obtain ⟨rfl, hfile⟩ := hplace
  refine ⟨hI, fun a t ht => ?_⟩
  obtain ⟨rfl, rfl⟩ := reacts_publish ht
  have hI' : Kept h.path v₀ (w.putFile h.path
      (some (.record { h.record with state := .applied }))) := by
    refine hI.putFile (fun c => ?_) fun r hr _ happlied => ?_
    · by_cases hc : c = h.record.control
      · subst hc
        exact hstands.symm.imp (·.1) fun hout => ⟨_, rfl, rfl, hout.version ⟨rfl, rfl, rfl⟩⟩
      · exact .inl (hI.resting_of_ne hfile hc)
    · cases hr
      obtain hout | ⟨-, hne⟩ := hstands
      · exact hout.version ⟨rfl, rfl, rfl⟩
      · exact absurd happlied hne
  exact ⟨hI', { h with record := { h.record with state := .applied } }, rfl,
    ⟨rfl, Function.update_self ..⟩, ⟨rfl, rfl, rfl⟩, rfl, rfl⟩

theorem safe_retire (hplace : h.InPlace path w)
    (hout : Outstanding v₀ h.record w) :
    Safe path v₀ (fun a t => ∃ h', a = .ok h' ∧ h'.InPlace path t ∧ SameWrite h'.record h.record ∧
        h'.record.state = .prepared ∧ t.control = w.control ∧ t.log = w.log) h.retire w := by
  obtain ⟨rfl, hfile⟩ := hplace
  unfold StreamRecord.retire
  split
  · next hstate => exact ⟨hI, h, rfl, ⟨rfl, hfile⟩, ⟨rfl, rfl, rfl⟩, hstate, rfl, rfl⟩
  · refine ⟨hI, fun a t ht => ?_⟩
    obtain ⟨rfl, rfl⟩ := reacts_publish ht
    refine ⟨hI.putFile (fun c => ?_) fun r hr hstate => ?_, _, rfl, ⟨rfl, Function.update_self ..⟩,
      ⟨rfl, rfl, rfl⟩, rfl, rfl, rfl⟩
    · by_cases hc : c = h.record.control
      · exact .inr ⟨_, rfl, hc.symm, hout.version ⟨rfl, rfl, rfl⟩⟩
      · exact .inl (hI.resting_of_ne hfile hc)
    · cases hr
      cases hstate

end

/-! ## The write -/

def WrittenWell (path : Text) (v₀ : Control → Bytes) (u s : UInt8) (wanted : Bytes) :
    Written → World → Prop
  | .ok write, t =>
    match write.outcome with
    | .wrote =>
      ∃ h, write.record = some h ∧ h.InPlace path t ∧ h.record.control = (u, s) ∧
        Outstanding v₀ h.record t ∧ wanted = t.control (u, s) ∧ write.current = v₀ (u, s)
    | .alreadyHeld => write.current = wanted ∧ write.current = t.control (u, s)
    | .nothing => True
  | .error _, _ => True

theorem safe_forwardWrite {current : Bytes} (hI : Kept path v₀ w) (hplace : h.InPlace path w)
    (hprepares : h.record.Prepares v₀ (u, s) wanted) (hrest : Resting v₀ w (u, s))
    (hne : wanted ≠ v₀ (u, s)) (hcurrent : current = v₀ (u, s)) :
    Safe path v₀ (WrittenWell path v₀ u s wanted) (forwardWrite u s wanted current (some h) false)
      w := by
  have hcontrol := hprepares.control
  have hfile : w.files path = some (.record h.record) := hplace.path ▸ hplace.file
  have hresting : ∀ c, Resting v₀ w c := fun c => by
    by_cases hc : c = h.record.control
    · rw [hc, hcontrol]
      exact hrest
    · exact hI.resting_of_ne hfile hc
  refine ⟨hI, fun a t ht => ?_⟩
  obtain rfl := reacts_beforeForwardWrite ht
  cases a with
  | error e => exact safe_resolve hI hplace.path hresting trivial
  | ok a =>
    refine ⟨hI, fun a t' ht => ?_⟩
    obtain ⟨rfl, rfl⟩ | ⟨rfl, e, rfl⟩ := reacts_setCur ht
    · have hset : t.set .forward (u, s) wanted = t.set .forward h.record.control wanted := by
        rw [hcontrol]
      rw [hset]
      obtain ⟨hI', hout⟩ := hI.forwarded hfile hprepares.state hprepares.applied
        (hcontrol ▸ hprepares.displaced) (hcontrol ▸ hrest) (hcontrol ▸ hne)
      refine (safe_markApplied hI' ⟨hplace.path, hplace.file⟩ (.inl hout)).bind
        fun a t hI ⟨h', ha, hplace', hversion, hsame, hlog⟩ => ?_
      subst ha
      refine ⟨hI, h', rfl, hplace', ?_, ?_, ?_, hcurrent⟩
      · exact hversion.control.trans hcontrol
      · exact (hout.version hversion).transfer hsame fun c => by rw [hlog]
      · rw [hsame, ← hcontrol]
        simp [World.set]
    · have hI' : Kept path v₀ (t.note (.sent .forward (u, s) (t.control (u, s)) wanted false)) :=
        hI.failed trivial fun _ => hne
      exact safe_resolve hI' hplace.path (fun c => (hresting c).transfer rfl fun _ => earliest_failed)
        trivial

/-! ## The restore -/

def JustRestored (c : Control) (w : World) : Prop :=
  ∃ before log, w.log = .sent .restoring c before (w.control c) true :: log

section

variable (hI : Kept path v₀ w)

include hI

theorem safe_putBack (hfile : w.files path = some (.record r))
    (hstate : r.state = .prepared) (hcontrol : r.control = (m.unit, m.selector))
    (hout : Outstanding v₀ r w) (happlied : m.applied = w.control (m.unit, m.selector))
    (hrestore : m.restore = v₀ (m.unit, m.selector)) :
    Safe path v₀ (fun a t => t.files = w.files ∧
        (a = .ok () → (∀ c, Resting v₀ t c) ∧ JustRestored (m.unit, m.selector) t) ∧
        (Outstanding v₀ r t ∨ Resting v₀ t r.control ∧
          fromHex r.applied ≠ some (t.control r.control))) m.putBack w := by
  refine ⟨hI, fun a t ht => ?_⟩
  obtain ⟨rfl, hnow⟩ := reacts_getCur ht
  cases a with
  | error e => exact ⟨hI, rfl, nofun, .inl hout⟩
  | ok now =>
    -- nobody else writes, so the control still holds what was applied
    obtain rfl : now = m.applied := (hnow now rfl).trans happlied.symm
    simp only [ne_eq, not_true_eq_false, if_false]
    refine ⟨hI, fun a t' ht => ?_⟩
    obtain rfl := reacts_requireRestore ht
    cases a with
    | error e => exact ⟨hI, rfl, nofun, .inl hout⟩
    | ok a =>
      refine ⟨hI, fun a t ht => ?_⟩
      have hset := reacts_setCur ht
      rw [hrestore, ← hcontrol] at hset
      obtain ⟨rfl, rfl⟩ | ⟨rfl, e, rfl⟩ := hset
      · obtain ⟨hI', hresting⟩ := hI.restored hfile hstate hout
        have hleft : fromHex r.applied ≠
            some ((t'.set .restoring r.control (v₀ r.control)).control r.control) := by
          rw [hout.applied, fromHex_toHex, (hresting r.control).1]
          exact fun heq => hout.changed (Option.some.inj heq)
        refine ⟨hI', fun a t ht => ?_⟩
        obtain ⟨rfl, -⟩ := reacts_getCur ht
        cases a with
        | error e => exact ⟨hI', rfl, nofun, .inr ⟨hresting _, hleft⟩⟩
        | ok restored =>
          refine ⟨hI', rfl, fun _ => ⟨hresting, ?_⟩, .inr ⟨hresting _, hleft⟩⟩
          refine ⟨t'.control r.control, t'.log, ?_⟩
          rw [← hcontrol, (hresting r.control).1]
          rfl
      · have hI' := hI.failed (hI.follows hout (t'.control r.control) false) nofun
        exact ⟨hI', rfl, nofun, .inl (hout.transfer rfl fun _ => earliest_failed)⟩

theorem safe_restoreInner (hm : m.Owns path v₀ h w) :
    Safe path v₀ (fun a t => a = .ok () → JustRestored (m.unit, m.selector) t) m.restoreInner w := by
  obtain ⟨hrecord, hplace, hcontrol, hout, happlied, hrestore⟩ := hm
  unfold UvcMode.restoreInner
  simp only [hrecord]
  refine (safe_retire hI hplace hout).bind
    fun a t hI ⟨h', ha, hplace', hversion, hstate, hsame, hlog⟩ => ?_
  subst ha
  have hcontrol' := hversion.control.trans hcontrol
  have hout' : Outstanding v₀ h'.record t :=
    (hout.version hversion).transfer hsame fun c => by rw [hlog]
  obtain ⟨rfl, hfile⟩ := hplace'
  refine (safe_putBack hI hfile hstate hcontrol' hout' (by rw [hsame]; exact happlied) hrestore).bind
    fun a t' hI ⟨hfiles, hdone, hstands⟩ => ?_
  cases a with
  | ok a =>
    obtain ⟨hresting, before, log, hjust⟩ := hdone rfl
    exact safe_resolve hI rfl hresting fun _ => ⟨before, log, hjust⟩
  | error e =>
    refine (safe_markApplied hI ⟨rfl, hfiles ▸ hfile⟩ hstands).bind fun a t hI _ => ⟨hI, nofun⟩

theorem safe_finish (hm : m.armed = true → ∃ h, m.Owns path v₀ h w) :
    Safe path v₀ (fun _ _ => True) m.finish w := by
  unfold UvcMode.finish
  split
  · next harmed =>
    obtain ⟨h, hm⟩ := hm harmed
    refine ⟨hI, fun a t ht => ?_⟩
    obtain rfl := reacts_streams ht
    refine (safe_restoreInner hI hm).bind fun answer t hI hdone => ?_
    refine ⟨hI, fun a t' ht => ?_⟩
    obtain rfl := reacts_ended ht
    refine ⟨hI.ended ?_, trivial⟩
    cases answer with
    | error e => trivial
    | ok a =>
      obtain ⟨before, log, hlog⟩ := hdone rfl
      exact ⟨before, log, hlog⟩
  · exact ⟨hI, trivial⟩

end

section

variable [Sha256] {id : CameraIdentity}

section

variable (hI : Kept path v₀ w)

include hI

theorem safe_acquire :
    Safe path v₀ (fun a t => t = w ∧ a ≠ .error .unavailable) (acquire id) w := by
  refine ⟨hI, fun a t ht => ?_⟩
  obtain rfl := reacts_protect ht
  cases a with
  | error u => exact ⟨hI, rfl, nofun⟩
  | ok u =>
    refine ⟨hI, fun a t ht => ?_⟩
    obtain ⟨rfl, file, rfl⟩ := reacts_openLock ht
    refine ⟨hI, fun a t ht => ?_⟩
    obtain ⟨rfl, hne⟩ := reacts_flock ht
    cases a with
    | error e => exact ⟨hI, rfl, hne⟩
    | ok u =>
      refine ⟨hI, fun a t ht => ?_⟩
      obtain rfl := reacts_protect ht
      cases a with
      | error u => exact ⟨hI, rfl, nofun⟩
      | ok u => exact ⟨hI, rfl, nofun⟩

section

variable (hpath : recordPath id = path)

include hpath

theorem safe_save
    (hne : w.control (u, s) ≠ wanted) :
    Safe path v₀ (fun a t => a ≠ .error .unavailable ∧ ∀ h, a = .ok h →
        h.InPlace path t ∧ h.record.Prepares v₀ (u, s) wanted ∧ Resting v₀ t (u, s) ∧
          wanted ≠ v₀ (u, s) ∧ w.control (u, s) = v₀ (u, s))
      (save id u s wanted (w.control (u, s))) w := by
  subst hpath
  refine ⟨hI, fun a t ht => ?_⟩
  obtain rfl := reacts_protect ht
  cases a with
  | error u => exact ⟨hI, nofun, nofun⟩
  | ok u' =>
    refine ⟨hI, fun a t' ht => ?_⟩
    obtain ⟨rfl, rfl⟩ := reacts_readRecord ht
    simp only
    cases hgate : saveGate (t'.files (recordPath id)) u s (t'.control (u, s)) with
    | error why => exact ⟨hI, nofun, nofun⟩
    | ok u' =>
      -- a record that may be replaced is not about a change still in the control
      have hresting : ∀ c, Resting v₀ t' c := by
        refine fun c => hI.resting fun r hr hout => ?_
        rw [hr] at hgate
        obtain ⟨hcontrol, applied, happlied, hne⟩ := superseded_of_saveGate hgate
        rw [hout.applied, fromHex_toHex, Option.some.injEq, hcontrol] at happlied
        exact hne happlied.symm
      have hv₀ := (hresting (u, s)).1
      refine ⟨hI, fun a t ht => ?_⟩
      obtain ⟨rfl, rfl⟩ := reacts_publish ht
      have hI' : Kept (recordPath id) v₀ (t'.putFile (recordPath id)
          (some (.record (prepared id u s wanted (t'.control (u, s)))))) :=
        hI.putFile (fun c => .inl (hresting c)) fun r hr hstate => by
          cases hr
          cases hstate
      refine ⟨hI', nofun, fun h hh => ?_⟩
      cases hh
      refine ⟨⟨rfl, Function.update_self ..⟩, ⟨rfl, rfl, rfl, by rw [← hv₀]; rfl⟩, ?_,
        fun heq => hne (hv₀.trans heq.symm), hv₀⟩
      exact (hresting (u, s)).transfer rfl fun _ => rfl

theorem safe_claim :
    Safe path v₀ (fun a t => t = w ∧ ∀ displaced h, a = some (displaced, h) →
        h.InPlace path t ∧ h.record.control = (u, s) ∧ Outstanding v₀ h.record t ∧
          displaced = v₀ (u, s))
      (claim id u s (w.control (u, s))) w := by
  subst hpath
  refine ⟨hI, fun a t ht => ?_⟩
  obtain rfl := reacts_protect ht
  cases a with
  | error u => exact ⟨hI, rfl, nofun⟩
  | ok u' =>
    refine ⟨hI, fun a t' ht => ?_⟩
    obtain ⟨rfl, rfl⟩ := reacts_readRecord ht
    cases hfile : t'.files (recordPath id) with
    | none => exact ⟨hI, rfl, nofun⟩
    | some contents =>
      cases contents with
      | unparseable => exact ⟨hI, rfl, nofun⟩
      | record r =>
        simp only
        cases hclaims : recordClaims r id u s (t'.control (u, s)) with
        | error why => exact ⟨hI, rfl, nofun⟩
        | ok value =>
          refine ⟨hI, rfl, fun displaced h hh => ?_⟩
          cases hh
          obtain ⟨hstate, hcontrol, happlied, hdisplaced⟩ := of_recordClaims hclaims
          have hout := hI.claims r hfile hstate (hcontrol ▸ happlied)
          rw [hout.displaced, fromHex_toHex, Option.some.injEq, hcontrol] at hdisplaced
          exact ⟨⟨rfl, hfile⟩, hcontrol, hout, hdisplaced.symm⟩

theorem safe_readAndWrite {len : Nat} :
    Safe path v₀ (WrittenWell path v₀ u s wanted) (readAndWrite id u s len wanted true) w := by
  refine ⟨hI, fun a t ht => ?_⟩
  obtain ⟨rfl, hcurrent⟩ := reacts_getCur ht
  cases a with
  | error e => exact ⟨hI, trivial⟩
  | ok current =>
    obtain rfl := hcurrent current rfl
    simp only [if_true]
    split
    · next heq => exact ⟨hI, heq, rfl⟩
    · next hne =>
      refine (safe_save hI hpath hne).bind fun a t hI ⟨havailable, hsaved⟩ => ?_
      match a, hsaved with
      | .ok h, hsaved =>
        obtain ⟨hplace, hprepares, hrest, hwanted, hcurrent⟩ := hsaved h rfl
        exact safe_forwardWrite hI hplace hprepares hrest hwanted hcurrent
      | .error (.refused why), _ => exact ⟨hI, trivial⟩
      | .error .protectedRecord, _ => exact ⟨hI, trivial⟩
      | .error .unavailable, _ => exact absurd rfl havailable

theorem safe_writeIfDifferentInner {len : Nat} :
    Safe path v₀ (WrittenWell path v₀ u s wanted) (writeIfDifferentInner id u s len wanted) w := by
  refine (safe_acquire hI).bind fun a t hI ⟨_, havailable⟩ => ?_
  match a with
  | .ok () => exact safe_readAndWrite hI hpath
  | .error .busy => exact ⟨hI, trivial⟩
  | .error .protectedRecord => exact ⟨hI, trivial⟩
  | .error .unavailable => exact absurd rfl havailable

theorem safe_arm {write : CaptureWrite}
    (hwritten : WrittenWell path v₀ u s wanted (.ok write) w) :
    Safe path v₀ (fun m t => m.armed = true → ∃ h, m.Owns path v₀ h t)
      (arm id u s wanted write) w := by
  unfold arm
  unfold WrittenWell at hwritten
  cases houtcome : write.outcome with
  | wrote =>
    simp only [houtcome] at hwritten
    obtain ⟨h, hrecord, hplace, hcontrol, hout, happlied, hcurrent⟩ := hwritten
    exact ⟨hI, fun _ => ⟨h, hrecord, hplace, hcontrol, hout, happlied, hcurrent⟩⟩
  | alreadyHeld =>
    simp only [houtcome] at hwritten
    obtain ⟨hwanted, hcurrent⟩ := hwritten
    simp only
    split
    · rw [hcurrent]
      refine (safe_claim hI hpath).bind fun a t hI ⟨ht, hclaimed⟩ => ?_
      subst ht
      match a, hclaimed with
      | none, _ => exact ⟨hI, nofun⟩
      | some (displaced, h), hclaimed =>
        obtain ⟨hplace, hcontrol, hout, hdisplaced⟩ := hclaimed displaced h rfl
        exact ⟨hI, fun _ => ⟨h, rfl, hplace, hcontrol, hout, hwanted.symm.trans hcurrent, hdisplaced⟩⟩
    · exact ⟨hI, nofun⟩
  | nothing => exact ⟨hI, nofun⟩

end

/-! ## Every run -/

theorem safe_session {session : Session}
    (hpath : recordPath session.id = path) :
    Safe path v₀ (fun _ _ => True) session.program w := by
  refine (safe_writeIfDifferentInner hI hpath).bind fun a t hI hwritten => ?_
  cases a with
  | error e => exact ⟨hI, trivial⟩
  | ok write =>
    exact (safe_arm hI hpath hwritten).bind fun mode t hI hm => safe_finish hI hm

end

/-- **Streams put back only what they displaced.** In every state of every run of streams on one
camera, killed anywhere, with any requests to the camera failing: each restoring write sent what its
control held before the earliest forward write not undone since, which is no value irlume applied to
it, and each stream that claimed or wrote and ended normally left its control at that value. -/
theorem restores_displaced {camera : CameraIdentity} {w₀ : World} {es : List Event}
    (hlog : w₀.log = []) (hfree : Unclaimed camera w₀)
    (hevents : ∀ x ∈ steps step (Sessions.idle w₀) es,
      Sessions.Answers FilesWork x.1 x.2 ∧
        Sessions.Starts (fun s : Session => s.id = camera) x.2) :
    ∀ m ∈ states step (Sessions.idle w₀) es, Orderly m.world.log := by
  intro m hm
  have hsound := Sessions.states_sound (I := Kept (recordPath camera) w₀.control)
    (fun s w hid hI => safe_session hI (congrArg recordPath hid))
    (fun w x w' hI hx => Option.some.inj hx ▸ hI) hevents
    (Sessions.sound_idle (.untouched hlog hfree)) m hm
  exact (Sessions.Sound.world hsound).orderly

end

/-! ## A leftover claimed -/

def untouched : World where
  control _ := [1, 0]
  files _ := none
  log := []

def faceAuthStream : Session where
  id := laptop
  unit := 4
  selector := 6
  len := 2
  wanted := [2, 9]

/-- A stream writes, confirms its record, and is killed; the next one finds the value in place, claims
it, and puts back what the first one displaced. -/
def leftoverClaimed : List Event :=
  .start faceAuthStream :: List.replicate 11 (.answer .works) ++
    .outside () :: .start faceAuthStream :: List.replicate 15 (.answer .works)

set_option maxRecDepth 100000 in
/-- A killed stream's leftover is claimed and put back. -/
theorem restores_displaced_leftoverClaimed :
    letI := keepingDigest
    ∃ m, run step (Sessions.idle untouched) leftoverClaimed = some m ∧
      m.world.log = [.ended (4, 6) (.ok ()) [1, 0], .sent .restoring (4, 6) [2, 9] [1, 0] true,
        .sent .forward (4, 6) [1, 0] [2, 9] true] ∧
      Orderly m.world.log := by
  let := keepingDigest
  have hruns : (run step (Sessions.idle untouched) leftoverClaimed).map (fun m => m.world.log) =
      some [.ended (4, 6) (.ok ()) [1, 0], .sent .restoring (4, 6) [2, 9] [1, 0] true,
        .sent .forward (4, 6) [1, 0] [2, 9] true] := by decide
  obtain ⟨m, hm, hlog⟩ := Option.map_eq_some_iff.1 hruns
  have hevents : ∀ x ∈ steps step (Sessions.idle untouched) leftoverClaimed,
      Sessions.Answers FilesWork x.1 x.2 ∧
        Sessions.Starts (fun s : Session => s.id = laptop) x.2 := by
    intro x hx
    obtain ⟨es₁, es₂, hes, -, -⟩ := mem_steps_iff.1 hx
    have hmem : x.2 ∈ leftoverClaimed := by
      rw [hes]
      exact List.mem_append_right _ List.mem_cons_self
    have hcases : x.2 = .start faceAuthStream ∨ x.2 = .outside () ∨ x.2 = .answer .works := by
      simp only [leftoverClaimed, List.cons_append, List.mem_cons, List.mem_append,
        List.mem_replicate] at hmem
      grind
    refine ⟨?_, ?_⟩
    · have hworks : ∀ ch, x.2 = .answer ch → ch ≠ .fileFails := by
        rintro ch hch rfl
        obtain h | h | h := hcases <;> rw [hch] at h <;> cases h
      obtain ⟨⟨world, running⟩, e⟩ := x
      cases e with
      | answer ch =>
        cases running with
        | result a => trivial
        | call op next => exact hworks ch rfl
      | _ => trivial
    · obtain h | h | h := hcases <;> rw [h]
      · exact rfl
      · trivial
      · trivial
  have hfree : Unclaimed laptop untouched := fun r hr => nomatch hr
  have hmem : m ∈ states step (Sessions.idle untouched) leftoverClaimed := by
    simpa using mem_states_of_run hm []
  exact ⟨m, hm, hlog, restores_displaced rfl hfree hevents m hmem⟩

end Irlume.Emitter.Stream

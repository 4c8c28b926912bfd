import Irlume.Emitter.Exploration

/-!
# No exploratory write is left without undo data, while each configuration keeps the ones before it

Each program of a session is safe for the cover (`Guarded`): a control is written only while it is covered, a
record is removed only once its control is back or named by a durable configuration. What the sessions do not
look at is which control the configuration on disk names when they publish another.
-/

namespace Irlume.Emitter

open Irlume.Lib
open ExploratoryWrite
open Uvc (msxuFaceAuthentication)

section

variable [Sha256] {device : Device} {camera id : CameraIdentity} {orig : Control → Bytes} {w t : World}
  {ch : Choice} {path own : Text} {r : PendingWrite} {p : ExploratoryWrite}

/-! ## Recovery -/

/-- The record's path is this reading's own, or nothing is to be seen at its own. -/
def Aside (id : CameraIdentity) (path : Text) (w : World) : Prop :=
  path = recordPath (filingKey id) ∨ Free (recordPath (filingKey id)) w

def Recovered (id : CameraIdentity) (a : RecoveryOutcome) (t : World) : Prop :=
  a.blocksDiscovery = false → Free (recordPath (filingKey id)) t

theorem Aside.put {o : WriteOutcome} {content : Option PendingWrite} (h : Aside id path w) :
    Aside id path { w with store := w.store.put path o content } := by
  obtain rfl | hfree := h
  · exact .inl rfl
  · by_cases hpath : path = recordPath (filingKey id)
    · exact .inl hpath
    · refine .inr ?_
      unfold Free
      rw [Store.put_other (Ne.symm hpath)]
      exact hfree

theorem Aside.free (h : Aside id path w) (hfree : Free path w) : Free (recordPath (filingKey id)) w := by
  obtain rfl | h := h
  · exact hfree
  · exact h

omit [Sha256] in
theorem safe_controlNow {I : World → Prop} {R : World → Op → Choice → Prop} (h : I w) :
    Program.Safe (Program.reactsBy (World.perform device) R) I
      (fun a t => t = w ∧ ∀ now, a = some now → now.current = w.control r.control) (controlNow r) w := by
  refine ⟨h, fun a t ⟨ch, _, ht⟩ => ?_⟩
  obtain rfl := perform_getLen ht
  cases a with
  | error e => exact ⟨h, rfl, nofun⟩
  | ok len =>
    simp only
    split
    · exact ⟨h, rfl, nofun⟩
    refine ⟨h, fun a t ⟨ch, _, ht⟩ => ?_⟩
    obtain rfl := perform_getInfo ht
    cases a with
    | error e => exact ⟨h, rfl, nofun⟩
    | ok info =>
      refine ⟨h, fun a t ⟨ch, _, ht⟩ => ?_⟩
      obtain ⟨rfl, hcurrent⟩ := perform_getCur ht
      cases a with
      | error e => exact ⟨h, rfl, nofun⟩
      | ok current =>
        refine ⟨h, rfl, fun now hnow => ?_⟩
        cases hnow
        exact hcurrent current rfl

theorem safe_clearRestored {outcome : RecoveryOutcome} (h : Guarded device camera orig w)
    (haside : Aside id path w) (hspares : Spares camera w path r.control)
    (hback : w.control r.control = orig r.control) :
    Safe device camera orig (Recovered id) (clearRestored path outcome) w := by
  refine ⟨h, fun a t ⟨ch, _, ht⟩ => ?_⟩
  obtain ⟨rfl, hgone⟩ | ⟨o, rfl, rfl⟩ := perform_clear ht
  · cases a with
    | error u => exact ⟨h, nofun⟩
    | ok u => exact ⟨h, fun _ => haside.free hgone⟩
  · have hI := h.clear hspares (.inl hback) o
    cases o with
    | durable =>
      refine ⟨hI, fun _ => haside.put.free ?_⟩
      unfold Free
      rw [Store.put_same]
      rfl
    | _ => exact ⟨hI, nofun⟩

omit [Sha256] in
theorem PendingWrite.Undo.original_eq (h : r.Undo device orig) {v : Bytes}
    (hv : fromHex r.original = some v) : v = orig r.control := by
  rw [h.original, fromHex_toHex] at hv
  exact (Option.some.inj hv).symm

section

variable (h : Guarded device camera orig w)

include h

theorem safe_spentRecordRecovery {attempts : Nat}
    (haside : Aside id path w) (hvisible : (w.store.files path).visible = some r)
    (hundo : r.Undo device orig) :
    Safe device camera orig (Recovered id) (spentRecordRecovery r path attempts) w := by
  refine (safe_controlNow h).bind fun a t hI ⟨ht, hnow⟩ => ?_
  subst ht
  cases a with
  | none => exact ⟨hI, nofun⟩
  | some now =>
    simp only
    cases hdecision : restoreDecision r now with
    | alreadyRestored =>
      refine safe_clearRestored h haside (spares_of_visible hvisible) ?_
      rw [← hnow now rfl]
      exact hundo.original_eq (restoreDecision_alreadyRestored hdecision)
    | refuse why => exact ⟨hI, nofun⟩
    | write original => exact ⟨hI, nofun⟩

theorem safe_giveBack {why : Unresolved} (hown : r.Own camera)
    (hundo : r.Undo device orig) (hspares : Spares camera w path r.control) :
    Safe device camera orig (Recovered id) (giveBack path r why) w := by
  refine ⟨h, fun a t ⟨ch, _, ht⟩ => ?_⟩
  obtain ⟨o, -, rfl⟩ := perform_saveAt ht
  have hI := h.save hown hundo hspares o
  cases a <;> exact ⟨hI, nofun⟩

theorem safe_writeBack {original : Bytes}
    (haside : Aside id path w) (hspares : Spares camera w path r.control)
    (horiginal : original = orig r.control) (hheld : Held camera w r.control) :
    Safe device camera orig (Recovered id) (writeBack r path original) w := by
  refine ⟨h, fun a t ⟨ch, _, ht⟩ => ?_⟩
  obtain rfl | ⟨rfl, e, rfl⟩ := perform_setCur ht
  · have hI := h.set hheld (.inl horiginal)
    cases a with
    | error e => exact ⟨hI, nofun⟩
    | ok u =>
      refine ⟨hI, fun a t ⟨ch, _, ht⟩ => ?_⟩
      obtain ⟨rfl, hback⟩ := perform_getCur ht
      cases a with
      | error e => exact ⟨hI, nofun⟩
      | ok back =>
        simp only
        split
        · next heq => exact safe_clearRestored hI haside hspares ((hback back rfl).symm.trans (heq.trans horiginal))
        · exact ⟨hI, nofun⟩
  · exact ⟨h, nofun⟩

theorem safe_restoreCounted {original : Bytes}
    (haside : Aside id path w) (hvisible : (w.store.files path).visible = some r)
    (hown : r.Own camera) (hundo : r.Undo device orig) (horiginal : original = orig r.control)
    (hne : w.control r.control ≠ original) :
    Safe device camera orig (Recovered id) (restoreCounted r path original) w := by
  have hspent : r.spent.Undo device orig := ⟨hundo.original, hundo.attempted⟩
  have hownSpent : r.spent.Own camera := hown
  have hspares : Spares camera w path r.control := spares_of_visible hvisible
  have hsparesSpent : Spares camera w path r.spent.control := hspares
  refine ⟨h, fun a t ⟨ch, _, ht⟩ => ?_⟩
  obtain ⟨o, rfl, rfl⟩ := perform_saveAt ht
  have hI := h.save hownSpent hspent hsparesSpent o
  cases o with
  | failed => exact ⟨hI, nofun⟩
  | visible => exact ⟨hI, nofun⟩
  | durable =>
    have hput : ((w.store.put path .durable (some r.spent)).files path).visible = some r.spent := by
      rw [Store.put_same]
      rfl
    have hspares : Spares camera { w with store := w.store.put path .durable (some r.spent) } path
        r.spent.control := spares_of_visible hput
    have haside' : Aside id path { w with store := w.store.put path .durable (some r.spent) } :=
      haside.put
    simp only [Store.saved, countedAttemptAuthorizesWrite, Bool.not_true, Bool.false_eq_true, if_false]
    cases hattempted : fromHex r.attempted with
    | none => exact safe_giveBack hI hown hundo hspares
    | some attempted =>
      refine ⟨hI, fun a t ⟨ch, _, ht⟩ => ?_⟩
      obtain ⟨rfl, -⟩ := perform_getCur ht
      cases a with
      | error e => exact safe_giveBack hI hown hundo hspares
      | ok now =>
        simp only
        split
        · exact safe_writeBack hI haside' hspares horiginal (hI.held_of_ne (horiginal ▸ hne))
        · exact safe_giveBack hI hown hundo hspares

end

theorem safe_recoverRecord (hid : id.Reads camera) (h : Guarded device camera orig w)
    (haside : Aside id path w) (hvisible : (w.store.files path).visible = some r)
    (hdescribes : describesThisCamera r id = true) :
    Safe device camera orig (Recovered id) (recoverRecord id path r) w := by
  have hown : r.Own camera :=
    ⟨(fingerprint_of_identityAuthorizes hdescribes).trans hid.fingerprint,
      (usbDevpath_of_identityAuthorizes hdescribes).trans hid.usbDevpath⟩
  have hundo := h.found hvisible hown
  refine ⟨h, fun running t ⟨ch, _, ht⟩ => ?_⟩
  obtain ⟨rfl, -⟩ := perform_store ht trivial rfl
  cases happlies : recordApplies r id running with
  | error m =>
    cases m with
    | differentCamera =>
      exact absurd happlies (ne_differentCamera (hown.1.trans hid.fingerprint.symm))
    | outOfAttempts attempts =>
      simp only [happlies]
      exact safe_spentRecordRecovery h haside hvisible hundo
    | _ =>
      simp only [happlies]
      exact ⟨h, nofun⟩
  | ok u =>
    simp only [happlies]
    refine (safe_controlNow h).bind fun a t' hI ⟨ht, hnow⟩ => ?_
    subst ht
    cases a with
    | none => exact ⟨hI, nofun⟩
    | some now =>
      simp only
      cases hdecision : restoreDecision r now with
      | alreadyRestored =>
        refine safe_clearRestored h haside (spares_of_visible hvisible) ?_
        rw [← hnow now rfl]
        exact hundo.original_eq (restoreDecision_alreadyRestored hdecision)
      | refuse why => exact ⟨hI, nofun⟩
      | write original =>
        obtain ⟨horiginal, -, hne⟩ := restoreDecision_write hdecision
        exact safe_restoreCounted h haside hvisible hown hundo (hundo.original_eq horiginal)
          (hnow now rfl ▸ hne)

theorem safe_recoverPendingWriteLocked (hid : id.Reads camera) (h : Guarded device camera orig w) :
    Safe device camera orig (Recovered id) (recoverPendingWriteLocked id) w := by
  have hload : Safe device camera orig (fun a t => t = w ∧ Loaded w.store id a) (load id) w :=
    safe_load World.store
      (fun {op a w'} hreact hop => by
        obtain ⟨ch, -, ht⟩ := hreact
        cases op with
        | legacyRecords | readRecord | allRecords =>
          obtain ⟨rfl, hanswer⟩ := perform_store ht trivial rfl
          exact ⟨rfl, ch, hanswer⟩
        | _ => exact hop.elim) h
  refine hload.bind fun a t hI ⟨ht, hloaded⟩ => ?_
  subst ht
  match a, hloaded with
  | .error .unexaminable, _ => exact ⟨hI, nofun⟩
  | .error .damaged, _ => exact ⟨hI, nofun⟩
  | .ok .nothing, hfree => exact ⟨hI, fun _ => hfree⟩
  | .ok (.sameModelElsewhere record), _ => exact ⟨hI, nofun⟩
  | .ok (.mine path record), ⟨hvisible, hdescribes, haside⟩ =>
    exact safe_recoverRecord hid hI haside hvisible hdescribes

/-! ## Discovery -/

def Discovered (device : Device) (camera : CameraIdentity) (orig : Control → Bytes) (own : Text) :
    Discovery → World → Prop
  | .ok (.applied lit p), t =>
    p.Guards device camera orig own t ∧ (lit.unit, lit.selector) = p.control
  | _, _ => True

theorem safe_trySelectors {ms : Uvc.ExtensionUnit} {selectors : List UInt8} {sawInconclusive : Bool}
    (hid : id.Reads camera) (h : Guarded device camera orig w)
    (hfree : Free (recordPath (filingKey id)) w) :
    Safe device camera orig (Discovered device camera orig (recordPath (filingKey id)))
      (trySelectors id ms selectors sawInconclusive) w := by
  induction selectors generalizing w sawInconclusive with
  | nil => exact ⟨h, trivial⟩
  | cons selector rest ih =>
    unfold trySelectors
    split
    · exact ih h hfree
    · refine (safe_tryDocumentedControl hid h hfree).bind fun a t hI htried => ?_
      match a, htried with
      | .ok (.lit lit p), hlit => exact ⟨hI, hlit⟩
      | .ok (.activeByDeviceDefault lit), _ => exact ⟨hI, trivial⟩
      | .ok .alreadyApplied, hfree => exact ih hI hfree
      | .ok .inconclusive, hfree => exact ih hI hfree
      | .ok .notUsable, hfree => exact ih hI hfree
      | .error .measurement, _ => exact ⟨hI, trivial⟩
      | .error (.restore e), _ => exact ⟨hI, trivial⟩
      | .error .journal, _ => exact ⟨hI, trivial⟩
      | .error .guard, _ => exact ⟨hI, trivial⟩
      | .error (.query e), _ => exact ⟨hI, trivial⟩

theorem safe_discover (hid : id.Reads camera) (h : Guarded device camera orig w) :
    Safe device camera orig (Discovered device camera orig (recordPath (filingKey id))) (discover id)
      w := by
  unfold discover
  cases id.microsoftXu with
  | none => exact ⟨h, trivial⟩
  | some ms =>
    refine ⟨h, fun a t ⟨ch, _, ht⟩ => ?_⟩
    obtain ⟨rfl, -⟩ := perform_store ht trivial rfl
    match a with
    | .ok false => exact ⟨h, trivial⟩
    | .error () => exact ⟨h, trivial⟩
    | .ok true =>
      refine (safe_recoverPendingWriteLocked hid h).bind fun recovery t hI hrecovered => ?_
      cases hblocks : recovery.blocksDiscovery with
      | true => exact ⟨hI, trivial⟩
      | false => exact safe_trySelectors hid hI (hrecovered hblocks)

/-! ## The caller -/

theorem safe_commit (h : Guarded device camera orig w) (hg : p.Guards device camera orig own w)
    (hconf : w.conf.Both (Named camera p.control)) :
    Safe device camera orig (fun a t => a.2.Guards device camera orig own t ∨ a.2.resolved = true)
      p.commit w := by
  refine ⟨h, fun a t ⟨ch, _, ht⟩ => ?_⟩
  obtain ⟨hI, -, hkept⟩ := hg.clear h (.inr hconf) ht
  cases a with
  | error u => exact ⟨hI, .inl (hkept hconf)⟩
  | ok u => exact ⟨hI, .inr rfl⟩

theorem safe_finish {lit : EmitterControl} (hid : id.Reads camera) (h : Guarded device camera orig w)
    (hg : p.Guards device camera orig own w) (hlit : (lit.unit, lit.selector) = p.control) :
    Safe device camera orig (fun _ _ => True) (finish id lit p) w := by
  refine Program.Safe.bind (Q := fun a t => a.2.Guards device camera orig own t ∧
    a.2.control = p.control) ?_ fun a t hI ⟨hg, hcontrol⟩ => ?_
  · refine ⟨h, fun a t ⟨ch, _, ht⟩ => ?_⟩
    obtain ⟨rfl, -⟩ := perform_getCur ht
    cases a with
    | error e => exact ⟨h, hg.arm false, rfl⟩
    | ok now => exact ⟨h, hg, rfl⟩
  obtain ⟨a, p'⟩ := a
  cases a with
  | error u => exact safe_leave hI hg fun _ => trivial
  | ok u =>
    let conf : EmitterConf := { usbId := id.usbId, unit := lit.unit, selector := lit.selector }
    have hnamed : Named camera p'.control (some conf) :=
      ⟨conf, rfl, hid.usbId, hlit.trans hcontrol.symm⟩
    refine ⟨hI, fun a t' ⟨ch, hkeeps, ht⟩ => ?_⟩
    obtain ⟨o, hok, rfl, hpublished⟩ := perform_saveConf ht
    have hI' : Guarded device camera orig (t.putConf o conf) :=
      hI.putConf hid.usbId fun ho => hkeeps.published (hpublished ho)
    have hg' := hg.putConf hnamed o
    cases a with
    | error u =>
      refine ⟨hI', fun found t ⟨ch, _, ht⟩ => ?_⟩
      obtain rfl := perform_loadConf ht
      simp only
      split
      · exact safe_leave hI' (hg'.arm false) fun _ => trivial
      · exact safe_leave hI' hg' fun _ => trivial
    | ok u =>
      obtain rfl := hok rfl
      refine (safe_commit hI' hg' ⟨hnamed, hnamed⟩).bind fun a t hI hleft => ?_
      obtain ⟨a, p''⟩ := a
      have hleave : ∀ r : Except Unit Unit,
          Safe device camera orig (fun _ _ => True) (p''.leave r) t := by
        intro r
        obtain hg | hresolved := hleft
        · exact safe_leave hI hg fun _ => trivial
        · rw [leave_of_resolved hresolved]
          exact ⟨hI, trivial⟩
      cases a with
      | error u => exact hleave _
      | ok u => exact hleave _

theorem safe_session {s : Session} (hid : s.id.Reads camera) (h : Guarded device camera orig w) :
    Safe device camera orig (fun _ _ => True) s.program w := by
  cases s with
  | recovery id =>
    refine ⟨h, fun a t ⟨ch, _, ht⟩ => ?_⟩
    obtain ⟨rfl, -⟩ := perform_store ht trivial rfl
    match a with
    | .ok true => exact (safe_recoverPendingWriteLocked hid h).bind fun _ t hI _ => ⟨hI, trivial⟩
    | .ok false => exact ⟨h, trivial⟩
    | .error () => exact ⟨h, trivial⟩
  | discovery id =>
    refine (safe_discover hid h).bind fun a t hI hdiscovered => ?_
    match a, hdiscovered with
    | .ok (.applied lit pending), ⟨hg, hlit⟩ =>
      refine ⟨hI, fun finishes t ⟨ch, _, ht⟩ => ?_⟩
      obtain ⟨rfl, -⟩ := perform_store ht trivial rfl
      cases finishes with
      | true => exact (safe_finish hid hI hg hlit).bind fun _ t hI _ => ⟨hI, trivial⟩
      | false => exact safe_drop hI hg
    | .ok (.activeByDeviceDefault lit), _ => exact ⟨hI, trivial⟩
    | .error e, _ => exact ⟨hI, trivial⟩

/-! ## Every run -/

/-- **Undo data.** While each configuration published keeps the controls the durable one names, every
control is at its original, or a durable record has that original and the value attempted, or the
configuration that names it is durable: in every state of every run of discoveries and recovery passes,
with kills, power losses and failures anywhere. -/
theorem protected_of_keeps {w₀ : World} {es : List Event} (huntouched : Untouched camera orig w₀)
    (hevents : ∀ x ∈ steps (step device) (Sessions.idle w₀) es,
      Sessions.Answers (KeepsNamed camera orig) x.1 x.2 ∧
        Sessions.Starts (fun s : Session => s.id.Reads camera) x.2) :
    ∀ m ∈ states (step device) (Sessions.idle w₀) es, ∀ c, Undoable camera orig m.world c := by
  intro m hm c
  have hsound := Sessions.states_sound (I := Guarded device camera orig)
    (fun s w hid hI => safe_session hid hI) (fun w x w' hI hx => hI.outside hx) hevents
    (Sessions.sound_idle (.untouched huntouched)) m hm
  exact (Sessions.Sound.world hsound).undoable c

/-! ## What is on disk -/

omit [Sha256] in
theorem perform_listed {op : Op} {a : op.Answer} (hw : w.store.Listed)
    (h : w.perform device op ch = some (a, t)) : t.store.Listed := by
  cases op with
  | getLen u s =>
    obtain rfl := perform_getLen h
    exact hw
  | getInfo u s =>
    obtain rfl := perform_getInfo h
    exact hw
  | getOf q u s n =>
    by_cases hq : q = .cur
    · subst hq
      obtain ⟨rfl, -⟩ := perform_getCur h
      exact hw
    · obtain ⟨rfl, -⟩ := perform_getOf h hq
      exact hw
  | setCur u s v =>
    obtain rfl | ⟨rfl, -⟩ := perform_setCur h <;> exact hw
  | saveAt path r =>
    obtain ⟨o, -, rfl⟩ := perform_saveAt h
    exact hw.put path o (some r)
  | clear path =>
    obtain ⟨rfl, -⟩ | ⟨o, -, rfl⟩ := perform_clear h
    · exact hw
    · exact hw.put path o none
  | saveConf usbId u s =>
    obtain ⟨o, -, rfl, -⟩ := perform_saveConf h
    exact hw
  | loadConf usbId =>
    obtain rfl := perform_loadConf h
    exact hw
  | _ =>
    obtain ⟨rfl, -⟩ := perform_store h (by exact trivial) rfl
    exact hw

theorem run_listed {m m' : State} {es : List Event} (hm : m.world.store.Listed)
    (h : run (step device) m es = some m') : m'.world.store.Listed := by
  refine run_invariant (I := fun m : State => m.world.store.Listed) (fun {m e m'} hm hs => ?_) hm h
  obtain ⟨w, running⟩ := m
  cases e with
  | start s =>
    cases running with
    | result a =>
      cases hs
      exact hm
    | call op next => cases hs
  | answer ch =>
    cases running with
    | result a => cases hs
    | call op next =>
      obtain ⟨⟨a, t⟩, hperform, rfl⟩ := Option.map_eq_some_iff.1 hs
      exact perform_listed hm hperform
  | outside x =>
    cases x with
    | kill =>
      cases hs
      exact hm
    | powerLoss keptRecords keptConf =>
      cases hs
      exact hm.powerLoss _

theorem not_undoable {c : Control} (hlisted : w.store.Listed) (hcontrol : w.control c ≠ orig c)
    (hrecords : w.store.names.all fun path => (w.store.files path).durable.isNone)
    (hconf : ∀ f, w.conf.durable = some f → (f.unit, f.selector) ≠ c) :
    ¬ Undoable camera orig w c := by
  rintro (horig | ⟨path, r, hr, -⟩ | ⟨f, hf, -, hc⟩)
  · exact hcontrol horig
  · by_cases hpath : path ∈ w.store.names
    · have hnone := List.all_eq_true.1 hrecords path hpath
      rw [hr] at hnone
      cases hnone
    · rw [hlisted path hpath] at hr
      cases hr
  · exact hconf f hf hc

end

/-! ## Two discoveries on one camera -/

/-- A camera whose torch has a usable default, and whose face authentication has one mode to apply. -/
def laptopDevice : Device where
  len c := if c.2 = msxuIrTorch then 8 else 9
  value
    | .default, c => if c.2 = msxuIrTorch then [2, 0, 0, 0, 50, 0, 0, 0] else [1, 1, 1, 0, 0, 0, 0, 0, 0]
    | .max, c => if c.2 = msxuIrTorch then [7, 0, 0, 0, 100, 0, 0, 0] else [1, 1, 3, 0, 0, 0, 0, 0, 0]
    | .res, c => if c.2 = msxuIrTorch then [0, 0, 0, 0, 1, 0, 0, 0] else [0, 0, 0, 0, 0, 0, 0, 0, 0]
    | _, c => if c.2 = msxuIrTorch then [0, 0, 0, 0, 0, 0, 0, 0] else [0, 0, 0, 0, 0, 0, 0, 0, 0]

def asFound : World where
  control c := if c.2 = msxuIrTorch then [1, 0, 0, 0, 0, 0, 0, 0] else [1, 1, 1, 0, 0, 0, 0, 0, 0]
  store := .empty
  conf := .settled none

/-- A burst of mean brightness 10, or 80, with what its frames show of alternating illumination. -/
def dark (d1 : Option OpticalD1Verdict) : Choice :=
  .measures (some { brightness := 0x41200000, d1Optical := d1, d1Metadata := none })

def bright (d1 : Option OpticalD1Verdict) : Choice :=
  .measures (some { brightness := 0x42A00000, d1Optical := d1, d1Metadata := none })

def noRecord [Sha256] : List Choice :=
  [.replies true, .replies false, .works, .lists [recordPath (filingKey laptop)]]

def torchWritten : List Choice :=
  [.number 3, .works, .works, .works, .number 3, .works, .works, .works, dark none, .replies false,
    .file .durable, .works, .replies false, .works, .works, .works]

def faceAuthWritten : List Choice :=
  [.number 3, .works, .works, .works, .works, dark (some .refuted), .replies false, .file .durable,
    .works, .replies false, .works, .works, .works]

/-- What was lit is applied for good, confirmed, published, and its record removed. -/
def finished : List Choice :=
  [.replies false, .works, .works, .replies true, .works, .file .durable, .file .durable]

/-- The picture does not follow the torch, then does follow face authentication. -/
def firstDiscovery [Sha256] : List Choice :=
  noRecord ++ torchWritten ++ [dark none, .works, .works, dark none, .replies true, .works, .file .durable] ++
    faceAuthWritten ++ [bright (some .proven), .works, .works, dark (some .refuted)] ++ finished

def secondDiscovery [Sha256] : List Choice :=
  noRecord ++ torchWritten ++ [bright none, .works, .works, dark none, .replies false, .replies false] ++
    finished

def twoDiscoveries [Sha256] : List Event :=
  .start (.discovery laptop) :: firstDiscovery.map .answer ++
    .start (.discovery laptop) :: secondDiscovery.map .answer

def publishesFirst (m : State) : Bool :=
  m.world.conf.durable.isNone ||
    match m.running with
    | .call (.saveConf _ _ _) _ => false
    | _ => true

theorem answers_of_publishesFirst [Sha256] {camera : CameraIdentity} {orig : Control → Bytes}
    {m : State} {e : Event} (h : publishesFirst m = true) :
    Sessions.Answers (KeepsNamed camera orig) m e := by
  obtain ⟨w, running⟩ := m
  cases e with
  | answer ch =>
    cases running with
    | result a => trivial
    | call op next =>
      cases op with
      | saveConf usbId u s =>
        have hnone : w.conf.durable = none := by simpa [publishesFirst] using h
        have hkeeps : ∀ c ≠ (u, s), Named camera c w.conf.durable →
            w.control c = orig c ∨ ∃ path, Recorded camera w c path := by
          rintro c - ⟨f, hf, -⟩
          rw [hnone] at hf
          cases hf
        cases ch with
        | file o =>
          cases o with
          | failed => trivial
          | _ => exact hkeeps
        | _ => exact hkeeps
      | _ => trivial
  | _ => trivial

theorem untouched_asFound [Sha256] : Untouched laptop asFound.control asFound :=
  ⟨rfl, fun _ => ⟨nofun, nofun⟩⟩

def faceAuth : Control := (4, msxuFaceAuthentication)

def oneDiscovery [Sha256] : List Event := .start (.discovery laptop) :: firstDiscovery.map .answer

set_option maxRecDepth 100000 in
/-- A discovery that leaves face authentication on. -/
theorem protected_of_keeps_oneDiscovery :
    letI := keepingDigest
    ∃ m, run (step laptopDevice) (Sessions.idle asFound) oneDiscovery = some m ∧
      m.world.control faceAuth ≠ asFound.control faceAuth ∧
      ∀ c, Undoable laptop asFound.control m.world c := by
  let := keepingDigest
  have hruns : (run (step laptopDevice) (Sessions.idle asFound) oneDiscovery).map (fun m =>
      decide (m.world.control faceAuth = asFound.control faceAuth)) = some false := by decide
  obtain ⟨m, hm, hcontrol⟩ := Option.map_eq_some_iff.1 hruns
  have hfirst : (steps (step laptopDevice) (Sessions.idle asFound) oneDiscovery).all
      (fun x => publishesFirst x.1) = true := by decide
  have hstarts : ∀ e ∈ oneDiscovery, Sessions.Starts (fun s : Session => s.id.Reads laptop) e := by
    intro e he
    obtain rfl | he := List.mem_cons.1 he
    · exact .inl rfl
    · obtain ⟨ch, -, rfl⟩ := List.mem_map.1 he
      trivial
  have hevents : ∀ x ∈ steps (step laptopDevice) (Sessions.idle asFound) oneDiscovery,
      Sessions.Answers (KeepsNamed laptop asFound.control) x.1 x.2 ∧
        Sessions.Starts (fun s : Session => s.id.Reads laptop) x.2 := by
    intro x hx
    obtain ⟨es₁, es₂, hes, -, -⟩ := mem_steps_iff.1 hx
    refine ⟨answers_of_publishesFirst (List.all_eq_true.1 hfirst x hx), hstarts x.2 ?_⟩
    rw [hes]
    exact List.mem_append_right _ List.mem_cons_self
  have hmem : m ∈ states (step laptopDevice) (Sessions.idle asFound) oneDiscovery := by
    simpa using mem_states_of_run hm []
  exact ⟨m, hm, of_decide_eq_false hcontrol,
    protected_of_keeps untouched_asFound hevents m hmem⟩

set_option maxRecDepth 100000 in
/-- **Lost undo data.** The second discovery publishes the torch over the configuration that named face
authentication. Both controls were changed, no record is left, and one of them is named nowhere. -/
theorem not_protected_twoDiscoveries :
    letI := keepingDigest
    Untouched laptop asFound.control asFound ∧
      ∃ m, run (step laptopDevice) (Sessions.idle asFound) twoDiscoveries = some m ∧
        ¬ Undoable laptop asFound.control m.world faceAuth := by
  let := keepingDigest
  refine ⟨untouched_asFound, ?_⟩
  have hruns : (run (step laptopDevice) (Sessions.idle asFound) twoDiscoveries).map (fun m =>
      (decide (m.world.control faceAuth = asFound.control faceAuth),
        m.world.store.names.all fun path => (m.world.store.files path).durable.isNone,
        m.world.conf.durable.map fun f => (f.unit, f.selector))) =
      some (false, true, some (4, msxuIrTorch)) := by decide
  obtain ⟨m, hm, hends⟩ := Option.map_eq_some_iff.1 hruns
  obtain ⟨hcontrol, hrest⟩ := Prod.ext_iff.1 hends
  obtain ⟨hrecords, hconf⟩ := Prod.ext_iff.1 hrest
  refine ⟨m, hm, not_undoable (run_listed (fun _ _ => rfl) hm) (of_decide_eq_false hcontrol) hrecords
    fun f hf hc => ?_⟩
  rw [hf] at hconf
  exact absurd ((Option.some.inj hconf).symm.trans hc) (by decide)

end Irlume.Emitter

import Irlume.Emitter.UndoData

/-!
# The programs of one control keep the cover

What each call does to the world, and from it, program by program, that trying one control keeps every
control covered: it is written only under a record in force, and the record is removed only behind a
read of the original.
-/

namespace Irlume.Emitter

open Irlume.Lib

variable [Sha256] {device : Device} {camera id : CameraIdentity} {orig : Control → Bytes} {w t : World}
  {ch : Choice} {path own : Text} {r : PendingWrite} {p : ExploratoryWrite}

/-! ## What the calls do -/

section

omit [Sha256]

variable {u s : UInt8}

theorem perform_getLen {a : Except XuError Nat}
    (h : w.perform device (.getLen u s) ch = some (a, t)) : t = w := by
  cases ch <;> cases h <;> rfl

theorem perform_getInfo {a : Except XuError UInt8}
    (h : w.perform device (.getInfo u s) ch = some (a, t)) : t = w := by
  cases ch <;> cases h <;> rfl

variable {a : Except XuError Bytes}

theorem sized_eq {v : Bytes} {n : Nat} (h : w.sized v n = some (a, t)) :
    t = w ∧ a = .ok v := by
  unfold World.sized at h
  split at h
  · cases h
    exact ⟨rfl, rfl⟩
  · cases h

theorem perform_getCur {n : Nat}
    (h : w.perform device (getCur u s n) ch = some (a, t)) :
    t = w ∧ ∀ v, a = .ok v → v = w.control (u, s) := by
  cases ch with
  | works =>
    obtain ⟨rfl, rfl⟩ := sized_eq h
    exact ⟨rfl, fun v hv => (Except.ok.inj hv).symm⟩
  | cameraFails e took =>
    cases h
    exact ⟨rfl, nofun⟩
  | _ => cases h

theorem perform_getOf {q : Query} {n : Nat}
    (h : w.perform device (.getOf q u s n) ch = some (a, t)) (hq : q ≠ .cur) :
    t = w ∧ ∀ v, a = .ok v → v = device.value q (u, s) := by
  cases ch with
  | works =>
    have hsized : w.sized (device.value q (u, s)) n = some (a, t) := by
      cases q with
      | cur => exact absurd rfl hq
      | _ => exact h
    obtain ⟨rfl, rfl⟩ := sized_eq hsized
    exact ⟨rfl, fun v hv => (Except.ok.inj hv).symm⟩
  | cameraFails e took =>
    cases q <;> cases h <;> exact ⟨rfl, nofun⟩
  | _ => cases q <;> cases h

theorem perform_setCur {v : Bytes} {a : Except XuError Unit}
    (h : w.perform device (.setCur u s v) ch = some (a, t)) :
    t = w.set (u, s) v ∨ t = w ∧ ∃ e, a = .error e := by
  cases ch with
  | works =>
    cases h
    exact .inl rfl
  | cameraFails e took =>
    cases h
    cases took with
    | true => exact .inl rfl
    | false => exact .inr ⟨rfl, e, rfl⟩
  | _ => cases h

theorem perform_saveAt {a : Except Unit AtomicWrite}
    (h : w.perform device (.saveAt path r) ch = some (a, t)) :
    ∃ o, a = Store.saved o ∧ t = { w with store := w.store.put path o (some r) } := by
  obtain ⟨⟨a, store⟩, hanswer, heq⟩ := Option.map_eq_some_iff.1 h
  cases heq
  obtain ⟨o, ha, rfl⟩ := Store.answer_saveAt hanswer
  exact ⟨o, ha, rfl⟩

theorem perform_loadConf {usbId : Text} {a : Option Control}
    (h : w.perform device (.loadConf usbId) ch = some (a, t)) : t = w := by
  cases ch <;> cases h <;> rfl

theorem perform_saveConf {usbId : Text} {a : Except Unit Unit}
    (h : w.perform device (.saveConf usbId u s) ch = some (a, t)) :
    ∃ o, (a = .ok () → o = .durable) ∧ t = w.putConf o { usbId, unit := u, selector := s } ∧
      (o ≠ .failed → ch ≠ .file .failed) := by
  cases ch with
  | file o =>
    cases h
    refine ⟨o, fun hok => ?_, rfl, fun ho hch => ho (Choice.file.inj hch)⟩
    cases o with
    | durable => rfl
    | _ => cases hok
  | fails =>
    cases h
    exact ⟨.durable, nofun, rfl, fun _ => nofun⟩
  | _ => cases h

theorem perform_clear {a : Except Unit Unit} (h : w.perform device (.clear path) ch = some (a, t)) :
    (t = w ∧ (w.store.files path).visible = none) ∨
      ∃ o, a = Store.removed o ∧ t = { w with store := w.store.put path o none } := by
  obtain ⟨⟨a, store⟩, hanswer, heq⟩ := Option.map_eq_some_iff.1 h
  cases heq
  obtain ⟨rfl, hgone⟩ | ⟨o, ha, rfl⟩ := Store.answer_clear hanswer
  · exact .inl ⟨rfl, hgone⟩
  · exact .inr ⟨o, ha, rfl⟩

theorem perform_store {op : Op} {a : op.Answer} (h : w.perform device op ch = some (a, t))
    (hop : Store.Reads op)
    (hperform : w.perform device op ch =
      (w.store.answer op ch).map fun (a, store) => (a, { w with store })) :
    t = w ∧ w.store.answer op ch = some (a, w.store) := by
  rw [hperform] at h
  obtain ⟨⟨a, store⟩, hanswer, heq⟩ := Option.map_eq_some_iff.1 h
  cases heq
  obtain rfl := Store.answer_reads hop hanswer
  exact ⟨rfl, hanswer⟩

end

/-- The choices that keep what the configuration on disk names. -/
abbrev Reacts (device : Device) (camera : CameraIdentity) (orig : Control → Bytes) :
    Program.Reacts World Op Op.Answer :=
  Program.reactsBy (World.perform device) (KeepsNamed camera orig)

/-- The cover holds all through a program, and `Q` of its result. -/
abbrev Safe {α : Type} (device : Device) (camera : CameraIdentity) (orig : Control → Bytes)
    (Q : α → World → Prop) (p : Run α) (w : World) : Prop :=
  Program.Safe (Reacts device camera orig) (Guarded device camera orig) Q p w

variable {u s : UInt8}

theorem KeepsNamed.published {usbId : Text}
    (h : KeepsNamed camera orig w (.saveConf usbId u s) ch) (hch : ch ≠ .file .failed) :
    ∀ c ≠ (u, s), Named camera c w.conf.durable →
      w.control c = orig c ∨ ∃ path, Recorded camera w c path := by
  cases ch with
  | file o =>
    cases o with
    | failed => exact absurd rfl hch
    | _ => exact h
  | _ => exact h

/-- No record is to be seen at `path`. -/
def Free (path : Text) (w : World) : Prop := (w.store.files path).visible = none

/-! ## The guard -/

namespace ExploratoryWrite

theorem Guards.clear (h : Guarded device camera orig w) (hg : p.Guards device camera orig own w)
    (hback : w.control p.control = orig p.control ∨ w.conf.Both (Named camera p.control))
    {a : Except Unit Unit} (ht : w.perform device (.clear p.recordPath) ch = some (a, t)) :
    Guarded device camera orig t ∧ (a = .ok () → Free own t) ∧
      (w.conf.Both (Named camera p.control) → p.Guards device camera orig own t) := by
  obtain ⟨hpath, horiginal, hattempted, hspares, hheld⟩ := hg
  rw [hpath] at ht
  obtain ⟨rfl, hgone⟩ | ⟨o, rfl, rfl⟩ := perform_clear ht
  · exact ⟨h, fun _ => hgone, fun _ => ⟨hpath, horiginal, hattempted, hspares, hheld⟩⟩
  · refine ⟨h.clear hspares hback o, fun hok => ?_, fun hconf => ?_⟩
    · cases o with
      | durable =>
        unfold Free
        rw [Store.put_same]
        rfl
      | _ => cases hok
    · refine ⟨hpath, horiginal, hattempted, ?_, .inl hconf⟩
      rintro c' ⟨⟨r', hr', hown, hcontrol⟩, hdurable⟩
      refine hspares c' ?_
      rw [Store.put_same] at hr' hdurable
      cases o with
      | failed => exact ⟨⟨r', hr', hown, hcontrol⟩, hdurable⟩
      | _ => cases hr'

theorem safe_verifyRestored (h : Guarded device camera orig w) :
    Safe device camera orig (fun a t => t = w ∧ (a = .ok () → w.control p.control = p.original))
      p.verifyRestored w := by
  refine ⟨h, fun a t ⟨ch, _, ht⟩ => ?_⟩
  obtain ⟨rfl, hv⟩ := perform_getCur ht
  cases a with
  | error e => exact ⟨h, rfl, nofun⟩
  | ok now =>
    refine ⟨h, rfl, fun hok => ?_⟩
    by_cases hnow : now = p.original
    · rw [← hnow]
      exact (hv now rfl).symm
    · rw [if_neg hnow] at hok
      cases hok

section

variable (h : Guarded device camera orig w) (hg : p.Guards device camera orig own w)

include h hg

theorem safe_confirmRestored :
    Safe device camera orig
      (fun a t => a.2.exploratoryValueIsLive = p.exploratoryValueIsLive ∧
        (a.1 = .ok () → a.2.resolved = true ∧ Free own t)) p.confirmRestored w := by
  refine (safe_verifyRestored h).bind fun a t hI ⟨ht, hback⟩ => ?_
  subst ht
  cases a with
  | error u => exact ⟨hI, rfl, nofun⟩
  | ok u =>
    have hcontrol := (hback rfl).trans hg.original
    refine ⟨hI, fun a t ⟨ch, _, ht⟩ => ?_⟩
    obtain ⟨hI, hfree, -⟩ := hg.clear h (.inl hcontrol) ht
    cases a with
    | error u => exact ⟨hI, rfl, nofun⟩
    | ok u => exact ⟨hI, rfl, fun _ => ⟨rfl, hfree rfl⟩⟩

theorem safe_drop :
    Safe device camera orig (fun _ _ => True) p.drop w := by
  unfold drop
  split
  · exact ⟨h, trivial⟩
  · refine ⟨h, fun a t ⟨ch, _, ht⟩ => ?_⟩
    obtain rfl | ⟨rfl, e, rfl⟩ := perform_setCur ht
    · have hI := h.set hg.held (.inl hg.original)
      cases a with
      | error e => exact ⟨hI, trivial⟩
      | ok u =>
        exact (safe_confirmRestored hI ((hg.set _ _).arm false)).bind fun a t hI _ => ⟨hI, trivial⟩
    · exact ⟨h, trivial⟩

theorem safe_leave {α : Type} {a : α} {Q : α → World → Prop} (hQ : ∀ t, Q a t) :
    Safe device camera orig Q (p.leave a) w :=
  (safe_drop h hg).bind fun _ t hI _ => ⟨hI, hQ t⟩

/-! ## One control -/

def TriedWell (device : Device) (camera : CameraIdentity) (orig : Control → Bytes) (own : Text) :
    Tried → World → Prop
  | .ok (.lit control p), t =>
    p.Guards device camera orig own t ∧ (control.unit, control.selector) = p.control
  | .ok _, t => Free own t
  | .error _, _ => True

variable {r : Tried}

theorem safe_confirm (hlive : p.exploratoryValueIsLive = false)
    (hr : ∀ t, Free own t → TriedWell device camera orig own r t) :
    Safe device camera orig (TriedWell device camera orig own) (p.confirm r) w := by
  refine (safe_confirmRestored h hg).bind fun a t hI ⟨hkept, hdone⟩ => ?_
  obtain ⟨a, p'⟩ := a
  cases a with
  | error u =>
    simp only [leave_of_disarmed (hkept.trans hlive)]
    exact ⟨hI, trivial⟩
  | ok u =>
    obtain ⟨hresolved, hfree⟩ := hdone rfl
    simp only [leave_of_resolved hresolved]
    exact ⟨hI, hr t hfree⟩

theorem safe_restoreOnce :
    Safe device camera orig
      (fun a t => a.2 = { p with exploratoryValueIsLive := false } ∧
        a.2.Guards device camera orig own t) p.restoreOnce w := by
  refine ⟨h, fun a t ⟨ch, _, ht⟩ => ?_⟩
  obtain rfl | ⟨rfl, e, rfl⟩ := perform_setCur ht
  · exact ⟨h.set hg.held (.inl hg.original), rfl, (hg.set _ _).arm false⟩
  · exact ⟨h, rfl, hg.arm false⟩

theorem safe_undo (hr : ∀ t, Free own t → TriedWell device camera orig own r t) :
    Safe device camera orig (TriedWell device camera orig own) (p.undo r) w := by
  refine (safe_restoreOnce h hg).bind fun a t hI ⟨hp, hg⟩ => ?_
  obtain ⟨a, p'⟩ := a
  obtain rfl := hp
  cases a with
  | error e =>
    simp only [leave_of_disarmed]
    exact ⟨hI, trivial⟩
  | ok u => exact safe_confirm hI hg rfl hr

theorem safe_abandon (hlive : p.exploratoryValueIsLive = false) (hcontrol : w.control p.control = p.original)
    (hr : ∀ t, Free own t → TriedWell device camera orig own r t) :
    Safe device camera orig (TriedWell device camera orig own) (p.abandon r) w := by
  refine Program.Safe.bind (Q := fun a t => a.2.exploratoryValueIsLive = false ∧
    (a.1 = .ok () → a.2.resolved = true ∧ Free own t)) ?_ fun a t hI ⟨hkept, hdone⟩ => ?_
  · refine ⟨h, fun a t ⟨ch, _, ht⟩ => ?_⟩
    obtain ⟨hI, hfree, -⟩ := hg.clear h (.inl (hcontrol.trans hg.original)) ht
    cases a with
    | error u => exact ⟨hI, hlive, nofun⟩
    | ok u => exact ⟨hI, hlive, fun _ => ⟨rfl, hfree rfl⟩⟩
  · obtain ⟨a, p'⟩ := a
    cases a with
    | error u =>
      simp only [leave_of_disarmed hkept]
      exact ⟨hI, trivial⟩
    | ok u =>
      obtain ⟨hresolved, hfree⟩ := hdone rfl
      simp only [leave_of_resolved hresolved]
      exact ⟨hI, hr t hfree⟩

theorem safe_applyExploratory :
    Safe device camera orig
      (fun a t => a.2.Guards device camera orig own t ∧ a.2.control = p.control ∧
        (a.1 ≠ .ok () → a.2.exploratoryValueIsLive = false)) p.applyExploratory w := by
  refine ⟨h, fun a t ⟨ch, _, ht⟩ => ?_⟩
  obtain rfl | ⟨rfl, e, rfl⟩ := perform_setCur ht
  · have hI := h.set hg.held (.inr hg.attempted)
    cases a with
    | error e => exact ⟨hI, (hg.set _ _).arm false, rfl, fun _ => rfl⟩
    | ok u => exact ⟨hI, (hg.set _ _).arm true, rfl, fun hne => absurd rfl hne⟩
  · exact ⟨h, hg.arm false, rfl, fun _ => rfl⟩

theorem safe_applyForGood (hlive : p.exploratoryValueIsLive = false) :
    Safe device camera orig (TriedWell device camera orig own) p.applyForGood w := by
  refine ⟨h, fun aborted t ⟨ch, _, ht⟩ => ?_⟩
  obtain ⟨rfl, -⟩ := perform_store ht trivial rfl
  cases aborted with
  | true =>
    simp only [leave_of_disarmed hlive]
    exact ⟨h, trivial⟩
  | false =>
    refine ⟨h, fun allowed t ⟨ch, _, ht⟩ => ?_⟩
    obtain ⟨rfl, -⟩ := perform_store ht trivial rfl
    cases allowed with
    | error u => exact safe_confirm h hg hlive fun _ _ => trivial
    | ok u =>
      refine (safe_applyExploratory h hg).bind fun a t hI ⟨hg, _, hdisarmed⟩ => ?_
      obtain ⟨a, p'⟩ := a
      cases a with
      | error e =>
        simp only [leave_of_disarmed (hdisarmed nofun)]
        exact ⟨hI, trivial⟩
      | ok u => exact ⟨hI, hg, rfl⟩

theorem safe_conclude {before lit afterRestore : SetupMeasurement}
    (hlive : p.exploratoryValueIsLive = false) :
    Safe device camera orig (TriedWell device camera orig own) (conclude before lit afterRestore p)
      w := by
  have hinconclusive : Safe device camera orig (TriedWell device camera orig own)
      (p.confirm (.ok .inconclusive)) w := safe_confirm h hg hlive fun _ hfree => hfree
  have hforGood := safe_applyForGood h hg hlive
  unfold conclude
  simp only
  split
  · exact hinconclusive
  split
  · exact hforGood
  refine ⟨h, fun weak t ⟨ch, _, ht⟩ => ?_⟩
  obtain ⟨rfl, -⟩ := perform_store ht trivial rfl
  cases weak with
  | true => exact hinconclusive
  | false =>
    refine ⟨h, fun bright t ⟨ch, _, ht⟩ => ?_⟩
    obtain ⟨rfl, -⟩ := perform_store ht trivial rfl
    cases bright with
    | true => exact hinconclusive
    | false =>
      simp only
      split
      · exact hinconclusive
      · exact hforGood

end

theorem safe_judge {before lit : SetupMeasurement} (h : Guarded device camera orig w)
    (hg : p.Guards device camera orig own w) :
    Safe device camera orig (TriedWell device camera orig own) (judge before lit p) w := by
  unfold judge
  split
  · exact safe_undo h hg fun _ hfree => hfree
  refine (safe_restoreOnce h hg).bind fun a t hI ⟨hp, hg⟩ => ?_
  obtain ⟨a, p'⟩ := a
  obtain rfl := hp
  cases a with
  | error e =>
    simp only [leave_of_disarmed]
    exact ⟨hI, trivial⟩
  | ok u =>
    refine (safe_verifyRestored hI).bind fun a t hI ⟨ht, _⟩ => ?_
    subst ht
    cases a with
    | error u =>
      simp only [leave_of_disarmed]
      exact ⟨hI, trivial⟩
    | ok u =>
      refine ⟨hI, fun measured t ⟨ch, _, ht⟩ => ?_⟩
      obtain ⟨rfl, -⟩ := perform_store ht trivial rfl
      cases measured with
      | none => exact safe_confirm hI hg rfl fun _ _ => trivial
      | some afterRestore => exact safe_conclude hI hg rfl

theorem safe_explore {before : SetupMeasurement} {len : Nat} (h : Guarded device camera orig w)
    (hg : p.Guards device camera orig own w) (hlive : p.exploratoryValueIsLive = false)
    (hcontrol : w.control p.control = p.original) :
    Safe device camera orig (TriedWell device camera orig own) (explore before len p) w := by
  refine ⟨h, fun now t ⟨ch, _, ht⟩ => ?_⟩
  obtain ⟨rfl, hnow⟩ := perform_getCur ht
  cases now with
  | error e =>
    simp only [leave_of_disarmed hlive]
    exact ⟨h, trivial⟩
  | ok now =>
    -- nobody else writes, so the control still holds what was read
    obtain rfl : now = p.original := (hnow now rfl).trans hcontrol
    simp only [ne_eq, not_true_eq_false, if_false]
    refine ⟨h, fun aborted t ⟨ch, _, ht⟩ => ?_⟩
    obtain ⟨rfl, -⟩ := perform_store ht trivial rfl
    cases aborted with
    | true =>
      simp only [leave_of_disarmed hlive]
      exact ⟨h, trivial⟩
    | false =>
      refine ⟨h, fun allowed t ⟨ch, _, ht⟩ => ?_⟩
      obtain ⟨rfl, -⟩ := perform_store ht trivial rfl
      cases allowed with
      | error u => exact safe_abandon h hg hlive hcontrol fun _ _ => trivial
      | ok u =>
        refine (safe_applyExploratory h hg).bind fun a t hI ⟨hg, _, hdisarmed⟩ => ?_
        obtain ⟨a, p'⟩ := a
        cases a with
        | error e =>
          simp only [leave_of_disarmed (hdisarmed nofun)]
          exact ⟨hI, trivial⟩
        | ok u =>
          refine Program.Safe.bind (Q := fun a t => a.2.Guards device camera orig own t ∧
            ∀ e, a.1 = .error e → a.2.exploratoryValueIsLive = false) ?_ fun a t hI ⟨hg, hd⟩ => ?_
          · refine ⟨hI, fun a t ⟨ch, _, ht⟩ => ?_⟩
            obtain ⟨rfl, -⟩ := perform_getCur ht
            cases a with
            | error e => exact ⟨hI, hg.arm false, fun _ _ => rfl⟩
            | ok now => exact ⟨hI, hg, nofun⟩
          · obtain ⟨a, p'⟩ := a
            cases a with
            | error e =>
              simp only [leave_of_disarmed (hd e rfl)]
              exact ⟨hI, trivial⟩
            | ok applied =>
              simp only
              split
              · exact safe_undo hI hg fun _ hfree => hfree
              · refine ⟨hI, fun measured t ⟨ch, _, ht⟩ => ?_⟩
                obtain ⟨rfl, -⟩ := perform_store ht trivial rfl
                cases measured with
                | none => exact safe_undo hI hg fun _ _ => trivial
                | some lit => exact safe_judge hI hg

end ExploratoryWrite

open ExploratoryWrite

theorem safe_intendedValue {len : Nat} (h : Guarded device camera orig w) :
    Safe device camera orig
      (fun a t => t = w ∧ ∀ v, a = .ok (.ok v) → device.intended (u, s) = .ok v)
      (intendedValue u s len) w := by
  refine ⟨h, fun a t ⟨ch, _, ht⟩ => ?_⟩
  obtain ⟨rfl, hdef⟩ := perform_getOf ht nofun
  cases a with
  | error e => exact ⟨h, rfl, nofun⟩
  | ok default =>
    obtain rfl := hdef default rfl
    by_cases htorch : s = msxuIrTorch
    · subst htorch
      simp only [if_true]
      refine ⟨h, fun a t ⟨ch, _, ht⟩ => ?_⟩
      obtain rfl := perform_getInfo ht
      cases a with
      | error e => exact ⟨h, rfl, nofun⟩
      | ok info =>
        simp only
        split
        · exact ⟨h, rfl, nofun⟩
        refine ⟨h, fun a t ⟨ch, _, ht⟩ => ?_⟩
        obtain ⟨rfl, hmin⟩ := perform_getOf ht nofun
        cases a with
        | error e => exact ⟨h, rfl, nofun⟩
        | ok min =>
          obtain rfl := hmin min rfl
          refine ⟨h, fun a t ⟨ch, _, ht⟩ => ?_⟩
          obtain ⟨rfl, hmax⟩ := perform_getOf ht nofun
          cases a with
          | error e => exact ⟨h, rfl, nofun⟩
          | ok max =>
            obtain rfl := hmax max rfl
            refine ⟨h, fun a t ⟨ch, _, ht⟩ => ?_⟩
            obtain ⟨rfl, hres⟩ := perform_getOf ht nofun
            cases a with
            | error e => exact ⟨h, rfl, nofun⟩
            | ok res =>
              obtain rfl := hres res rfl
              exact ⟨h, rfl, fun v hv => Except.ok.inj hv⟩
    · simp only [htorch, if_false]
      refine ⟨h, fun a t ⟨ch, _, ht⟩ => ?_⟩
      obtain ⟨rfl, hmax⟩ := perform_getOf ht nofun
      cases a with
      | error e => exact ⟨h, rfl, nofun⟩
      | ok max =>
        obtain rfl := hmax max rfl
        refine ⟨h, rfl, fun v hv => ?_⟩
        -- the minimum and the resolution play no part here
        have hsame : device.intended (u, s) =
            intendedFrom s (device.value .default (u, s)) [] (device.value .max (u, s)) [] := by
          simp [Device.intended, intendedFrom, htorch]
        rw [hsame]
        exact Except.ok.inj hv

theorem safe_alreadySet {len : Nat} {original : Bytes} {intended : IntendedValue}
    (h : Guarded device camera orig w) (hfree : Free own w) :
    Safe device camera orig (TriedWell device camera orig own) (alreadySet u s len original intended)
      w := by
  refine ⟨h, fun a t ⟨ch, _, ht⟩ => ?_⟩
  obtain ⟨rfl, -⟩ := perform_getCur ht
  cases a with
  | error e => exact ⟨h, trivial⟩
  | ok now =>
    simp only
    split
    · exact ⟨h, hfree⟩
    · split <;> exact ⟨h, hfree⟩

theorem safe_open {len : Nat} {attempted : Bytes} (hid : id.Reads camera)
    (h : Guarded device camera orig w) (hfree : Free (recordPath (filingKey id)) w)
    (hattempted : device.Wants (u, s) attempted) :
    Safe device camera orig
      (fun a t => ∀ p, a = some p → p.Guards device camera orig (recordPath (filingKey id)) t ∧
        p.exploratoryValueIsLive = false ∧ t.control p.control = w.control (u, s) ∧
        p.original = orig (u, s))
      (ExploratoryWrite.open id u s len (orig (u, s)) attempted) w := by
  have hown : (ExploratoryWrite.record id u s len (orig (u, s)) attempted).Own camera :=
    ⟨hid.fingerprint, hid.usbDevpath⟩
  have hundo : (ExploratoryWrite.record id u s len (orig (u, s)) attempted).Undo device orig :=
    ⟨rfl, attempted, hattempted, rfl⟩
  refine ⟨h, fun a t ⟨ch, _, ht⟩ => ?_⟩
  obtain ⟨o, rfl, rfl⟩ := perform_saveAt ht
  have hI := h.save hown hundo (spares_of_gone hfree) o
  cases o with
  | failed => exact ⟨hI, nofun⟩
  | visible => exact ⟨hI, nofun⟩
  | durable =>
    refine ⟨hI, fun p hp => ?_⟩
    cases hp
    have hput : (w.store.put (recordPath (filingKey id)) .durable
        (some (ExploratoryWrite.record id u s len (orig (u, s)) attempted))).files
          (recordPath (filingKey id)) = .settled (some _) := Store.put_same ..
    have hcovers : ∃ r, some (ExploratoryWrite.record id u s len (orig (u, s)) attempted) = some r ∧
        r.Own camera ∧ r.control = (u, s) := ⟨_, rfl, hown, rfl⟩
    have hspares : Spares camera
        { w with store := w.store.put (recordPath (filingKey id)) .durable
                            (some (ExploratoryWrite.record id u s len (orig (u, s)) attempted)) }
        (recordPath (filingKey id))
        (ExploratoryWrite.record id u s len (orig (u, s)) attempted).control :=
      spares_of_visible (congrArg DurableFile.visible hput)
    exact ⟨⟨rfl, rfl, hattempted, hspares,
      .inr ⟨_, (congrArg (DurableFile.Both _) hput).mpr ⟨hcovers, hcovers⟩⟩⟩, rfl, rfl, rfl⟩

/-- **One control.** -/
theorem safe_tryDocumentedControl (hid : id.Reads camera)
    (h : Guarded device camera orig w) (hfree : Free (recordPath (filingKey id)) w) :
    Safe device camera orig (TriedWell device camera orig (recordPath (filingKey id)))
      (tryDocumentedControl id u s) w := by
  refine ⟨h, fun a t ⟨ch, _, ht⟩ => ?_⟩
  obtain rfl := perform_getInfo ht
  cases a with
  | error e => exact ⟨h, trivial⟩
  | ok info =>
    simp only
    split
    · exact ⟨h, hfree⟩
    refine ⟨h, fun a t ⟨ch, _, ht⟩ => ?_⟩
    obtain rfl := perform_getLen ht
    cases a with
    | error e => exact ⟨h, trivial⟩
    | ok len =>
      refine ⟨h, fun a t ⟨ch, _, ht⟩ => ?_⟩
      obtain ⟨rfl, horiginal⟩ := perform_getCur ht
      cases a with
      | error e => exact ⟨h, trivial⟩
      | ok original =>
        obtain rfl := horiginal original rfl
        refine (safe_intendedValue h).bind fun a t hI ⟨ht, hintended⟩ => ?_
        subst ht
        match a, hintended with
        | .error e, _ => exact ⟨h, trivial⟩
        | .ok (.error e), _ => exact ⟨h, hfree⟩
        | .ok (.ok intended), hintended =>
          have hwants : device.Wants (u, s) intended.payload := ⟨intended, hintended intended rfl, rfl⟩
          by_cases hset : t.control (u, s) = intended.payload
          · simp only [hset, if_true]
            exact safe_alreadySet h hfree
          simp only [hset, if_false]
          -- off the value setup applies, the control is at its original
          have horig : t.control (u, s) = orig (u, s) :=
            (h.value (u, s)).resolve_right fun hv => hset (hv.unique hwants)
          refine ⟨h, fun measured t' ⟨ch, _, ht⟩ => ?_⟩
          obtain ⟨rfl, -⟩ := perform_store ht trivial rfl
          cases measured with
          | none => exact ⟨h, trivial⟩
          | some before =>
            refine ⟨h, fun aborted t' ⟨ch, _, ht⟩ => ?_⟩
            obtain ⟨rfl, -⟩ := perform_store ht trivial rfl
            cases aborted with
            | true => exact ⟨h, trivial⟩
            | false =>
              simp only [horig]
              refine (safe_open hid h hfree hwants).bind fun a t' hI hopen => ?_
              cases a with
              | none => exact ⟨hI, trivial⟩
              | some p =>
                obtain ⟨hg, hlive, hcontrol, hp⟩ := hopen p rfl
                exact safe_explore hI hg hlive (hcontrol.trans (horig.trans hp.symm))

end Irlume.Emitter

import Irlume.Emitter.Camera

/-!
# What covers a change

Every record about the camera is of one kind: it has the original of its control and the value setup would apply
(`Undo`). One lemma for each change of the world keeps the cover.
-/

namespace Irlume.Emitter

open Irlume.Lib

def Device.intended (device : Device) (c : Control) : Except PayloadRefusal IntendedValue :=
  intendedFrom c.2 (device.value .default c) (device.value .min c) (device.value .max c)
    (device.value .res c)

def Device.Wants (device : Device) (c : Control) (v : Bytes) : Prop :=
  ∃ intended, device.intended c = .ok intended ∧ intended.payload = v

theorem Device.Wants.unique {device : Device} {c : Control} {v v' : Bytes} (h : device.Wants c v)
    (h' : device.Wants c v') : v = v' := by
  obtain ⟨i, hi, rfl⟩ := h
  obtain ⟨i', hi', rfl⟩ := h'
  obtain rfl := Except.ok.inj (hi.symm.trans hi')
  rfl

/-- The record of a change this setup makes. -/
structure PendingWrite.Undo (device : Device) (orig : Control → Bytes) (r : PendingWrite) : Prop where
  original : r.original = toHex (orig r.control)
  attempted : ∃ v, device.Wants r.control v ∧ r.attempted = toHex v

variable [Sha256] {device : Device} {camera : CameraIdentity} {orig : Control → Bytes} {w : World}
  {c : Control} {path : Text} {r : PendingWrite}

/-- A control off its original is held by a configuration that names it or by a record in force, both in what a
reader sees and in what a power loss would leave, so that no power loss takes the cover away. -/
def Held (camera : CameraIdentity) (w : World) (c : Control) : Prop :=
  w.conf.Both (Named camera c) ∨ ∃ path, Recorded camera w c path

/-- Nobody but `c` is covered by the record at `path`. -/
def Spares (camera : CameraIdentity) (w : World) (path : Text) (c : Control) : Prop :=
  ∀ c', Recorded camera w c' path → c' = c

theorem spares_of_visible (h : (w.store.files path).visible = some r) :
    Spares camera w path r.control := by
  rintro c' ⟨⟨r', hr', -, rfl⟩, -⟩
  cases h.symm.trans hr'
  rfl

theorem spares_of_gone (h : (w.store.files path).visible = none) : Spares camera w path c := by
  rintro c' ⟨⟨r', hr', -⟩, -⟩
  rw [h] at hr'
  cases hr'

/-- Every control that is off its original is covered. -/
structure Guarded (device : Device) (camera : CameraIdentity) (orig : Control → Bytes) (w : World) :
    Prop where
  value : ∀ c, w.control c = orig c ∨ device.Wants c (w.control c)
  records : ∀ path, (w.store.files path).Both fun content =>
    ∀ r, content = some r → r.Own camera → r.Undo device orig
  held : ∀ c, w.control c = orig c ∨ Held camera w c

namespace Guarded

theorem untouched (h : Untouched camera orig w) : Guarded device camera orig w where
  value c := .inl (congrFun h.control c)
  records path := (h.records path).mono fun _ hforeign r hr hown => (hforeign r hr hown).elim
  held c := .inl (congrFun h.control c)

variable (h : Guarded device camera orig w)

include h

theorem undoable (c : Control) : Undoable camera orig w c := by
  obtain horig | hheld := h.held c
  · exact .inl horig
  · obtain hvalue | hwants := h.value c
    · exact .inl hvalue
    obtain hconf | ⟨path, -, r, hr, hown, rfl⟩ := hheld
    · exact .inr (.inr hconf.2)
    · have hundo := (h.records path).2 r hr hown
      obtain ⟨v, hv, hattempted⟩ := hundo.attempted
      exact .inr (.inl ⟨path, r, hr, hown, rfl, hundo.original, hv.unique hwants ▸ hattempted⟩)

/-! ## What keeps the cover -/

theorem set {v : Bytes} (hheld : Held camera w c)
    (hv : v = orig c ∨ device.Wants c v) : Guarded device camera orig (w.set c v) where
  value c' := by
    obtain rfl | hne := eq_or_ne c' c
    · simpa [World.set] using hv
    · simpa [World.set, Function.update_of_ne hne] using h.value c'
  records := h.records
  held c' := by
    obtain rfl | hne := eq_or_ne c' c
    · exact .inr hheld
    · exact (h.held c').imp (fun horig => (Function.update_of_ne hne ..).trans horig) id

theorem save (hown : r.Own camera) (hundo : r.Undo device orig)
    (hspares : Spares camera w path r.control) (o : WriteOutcome) :
    Guarded device camera orig { w with store := w.store.put path o (some r) } where
  value := h.value
  records q := by
    obtain rfl | hne := eq_or_ne q path
    · rw [Store.put_same]
      refine (h.records q).replace o fun r' hr' _ => ?_
      cases hr'
      exact hundo
    · rw [Store.put_other hne]
      exact h.records q
  held c := by
    obtain horig | hconf | ⟨q, hq⟩ := h.held c
    · exact .inl horig
    · exact .inr (.inl hconf)
    · refine .inr (.inr ⟨q, ?_⟩)
      obtain rfl | hne := eq_or_ne q path
      · obtain rfl := hspares c hq
        unfold Recorded
        rw [Store.put_same]
        exact DurableFile.Both.replace hq o ⟨r, rfl, hown, rfl⟩
      · unfold Recorded
        rw [Store.put_other hne]
        exact hq

theorem clear (hspares : Spares camera w path c)
    (hback : w.control c = orig c ∨ w.conf.Both (Named camera c)) (o : WriteOutcome) :
    Guarded device camera orig { w with store := w.store.put path o none } where
  value := h.value
  records q := by
    obtain rfl | hne := eq_or_ne q path
    · rw [Store.put_same]
      exact (h.records q).replace o nofun
    · rw [Store.put_other hne]
      exact h.records q
  held c' := by
    obtain horig | hconf | ⟨q, hq⟩ := h.held c'
    · exact .inl horig
    · exact .inr (.inl hconf)
    · obtain rfl | hne := eq_or_ne q path
      · obtain rfl := hspares c' hq
        exact hback.imp id .inl
      · refine .inr (.inr ⟨q, ?_⟩)
        unfold Recorded
        rw [Store.put_other hne]
        exact hq

theorem putConf {o : WriteOutcome} {conf : EmitterConf}
    (hconf : conf.usbId = camera.usbId)
    (hkeeps : o ≠ .failed → ∀ c ≠ (conf.unit, conf.selector), Named camera c w.conf.durable →
      w.control c = orig c ∨ ∃ path, Recorded camera w c path) :
    Guarded device camera orig (w.putConf o conf) where
  value := h.value
  records := h.records
  held c := by
    obtain horig | hnamed | hrecorded := h.held c
    · exact .inl horig
    · obtain rfl | hne := eq_or_ne c (conf.unit, conf.selector)
      · exact .inr (.inl (hnamed.replace o ⟨conf, rfl, hconf, rfl⟩))
      · by_cases ho : o = .failed
        · subst ho
          exact .inr (.inl hnamed)
        · exact (hkeeps ho c hne hnamed.2).imp id .inr
    · exact .inr (.inr hrecorded)

theorem outside {x : Outside} {w' : World}
    (hx : w.outside x = some w') : Guarded device camera orig w' := by
  cases x with
  | kill =>
    cases hx
    exact h
  | powerLoss keptRecords keptConf =>
    cases hx
    exact {
      value := h.value
      records := fun path => (h.records path).powerLoss _
      held := fun c => (h.held c).imp id fun hheld =>
        hheld.imp (·.powerLoss keptConf) fun ⟨path, hpath⟩ => ⟨path, hpath.powerLoss _⟩ }

theorem held_of_ne (hne : w.control c ≠ orig c) :
    Held camera w c := (h.held c).resolve_left hne

theorem found (hr : (w.store.files path).visible = some r)
    (hown : r.Own camera) : r.Undo device orig := (h.records path).1 r hr hown

end Guarded

/-! ## The guard of a write -/

namespace ExploratoryWrite

def control (p : ExploratoryWrite) : Control := (p.unit, p.selector)

structure Guards (device : Device) (camera : CameraIdentity) (orig : Control → Bytes) (own : Text)
    (p : ExploratoryWrite) (w : World) : Prop where
  path : p.recordPath = own
  original : p.original = orig p.control
  attempted : device.Wants p.control p.attempted
  spares : Spares camera w own p.control
  held : Held camera w p.control

variable {own : Text} {p : ExploratoryWrite}

variable (h : Guards device camera orig own p w)

include h

theorem Guards.set (c : Control) (v : Bytes) :
    Guards device camera orig own p (w.set c v) :=
  ⟨h.path, h.original, h.attempted, h.spares, h.held⟩

theorem Guards.arm (live : Bool) :
    Guards device camera orig own { p with exploratoryValueIsLive := live } w :=
  ⟨h.path, h.original, h.attempted, h.spares, h.held⟩

theorem Guards.putConf {conf : EmitterConf}
    (hconf : Named camera p.control (some conf)) (o : WriteOutcome) :
    Guards device camera orig own p (w.putConf o conf) :=
  ⟨h.path, h.original, h.attempted, h.spares, h.held.imp (·.replace o hconf) id⟩

end ExploratoryWrite

end Irlume.Emitter

import Irlume.Uninstall.Retention

/-!
# What an unfinished attempt leaves in the record

The byte in which the two marks first differ is that of `retain`, and every change that is not synced keeps it.
A holder of the lock that found the record unmarked knows that every attempt before it is done.
-/

namespace Irlume.Uninstall

open Irlume.Lib

/-! ## Marks -/

def markAt : Nat := 25

/-- The record is that of an attempt that is not done, or is being made it. -/
def IsMarked (file : List UInt8) : Prop := file[markAt]? = retain[markAt]?

instance (c : List UInt8) : Decidable (IsMarked c) := inferInstanceAs (Decidable (_ = _))

theorem retain_at : retain[markAt]? = some 114 := by decide +kernel

theorem isMarked_retain : IsMarked retain := rfl

theorem not_isMarked_nil : ¬ IsMarked [] := by decide +kernel

theorem not_isMarked_clean : ¬ IsMarked clean := by decide +kernel

theorem puts_retain_keeps {i : Nat} {bs : List UInt8} (h : bs <+: retain.drop i) :
    ∀ e ∈ puts i bs, ∀ c, IsMarked c → IsMarked (e.apply c) := by
  intro e he c hc
  rw [IsMarked, retain_at] at hc ⊢
  obtain ⟨j, b, rfl, hle, hb⟩ := mem_puts he
  refine getElem?_put hc fun hj => ?_
  subst hj
  have hat : (retain.drop i)[markAt - i]? = some b := by
    obtain ⟨rest, hrest⟩ := h
    rw [← hrest, List.getElem?_append_left (List.getElem?_eq_some_iff.1 hb).1, hb]
  rw [List.getElem?_drop, Nat.add_sub_cancel' hle, retain_at] at hat
  exact (Option.some.inj hat).symm

theorem resize_keeps {n : Nat} (hn : markAt < n) :
    ∀ e ∈ [FileEdit.resize n], ∀ c, IsMarked c → IsMarked (e.apply c) := by
  intro e he c hc
  rw [List.mem_singleton.1 he]
  rw [IsMarked, retain_at] at hc ⊢
  exact getElem?_resize hc hn

/-! ## The invariant -/

def World.Unfinished (w : World) : Prop := ∃ a ∈ w.begun, a.done = false

theorem World.done_of_not_unfinished {w : World} (h : ¬ w.Unfinished) : ∀ a ∈ w.begun, a.done = true := by
  intro a ha
  by_contra hdone
  exact h ⟨a, ha, by simpa using hdone⟩

/-- Every attempt before one that found the record unmarked is done, and so is every one that evicts. -/
structure Orderly (begun : List Begun) : Prop where
  certain : ∀ (i : Nat) (a : Begun), begun[i]? = some a → a.uncertain = false →
    ∀ (j : Nat) (b : Begun), j < i → begun[j]? = some b → b.done = true
  evicted : ∀ a ∈ begun, a.evicted = true → a.done = true

/-- While an attempt whose `begin` has returned is not done, the record is marked and no power loss unmarks it.
-/
structure Marked (w : World) : Prop where
  entry : w.Unfinished → w.entry = true
  entryDurable : w.Unfinished → w.entryDurable = true
  file : w.Unfinished → w.file.Keeps IsMarked
  orderly : Orderly w.begun

/-- The process holds the record's lock. -/
structure Locked (p : Nat) (w : World) : Prop where
  entry : w.entry = true
  lock : w.lock = some p

/-- Only the holder of the lock changes the record. -/
def Meets (p : Nat) (_ : Unit) (w : World) : Op → Prop
  | .flock => w.entry = true
  | .read _ => Locked p w
  | .write i bs => Locked p w ∧ (bs <+: retain.drop i ∨ ¬ w.Unfinished)
  | .setLen n => Locked p w ∧ markAt < n
  | .sync => Locked p w
  | .syncParent => Locked p w
  | .begun uncertain => Locked p w ∧ w.file = .settled retain ∧ w.entryDurable = true ∧
      (uncertain = false → ¬ w.Unfinished)
  | .completing n => Locked p w ∧ ∃ a, w.begun[n]? = some a ∧ a.uncertain = false
  | .evict n => Locked p w ∧ ∃ a, w.begun[n]? = some a ∧ a.done = true
  | _ => True

/-- What the others leave a process: the record stays where it is, and as it is where the process holds its
lock. -/
structure Rely (p : Nat) (w w' : World) : Prop where
  marked : Marked w → Marked w'
  entry : w.entry = true → w'.entry = true
  locked : Locked p w → w' = w

theorem Rely.refl (p : Nat) (w : World) : Rely p w w := ⟨id, id, fun _ => rfl⟩

theorem Rely.trans {p : Nat} {a b c : World} (hab : Rely p a b) (hbc : Rely p b c) : Rely p a c := by
  refine ⟨fun h => hbc.marked (hab.marked h), fun h => hbc.entry (hab.entry h), fun h => ?_⟩
  obtain rfl := hab.locked h
  exact hbc.locked h

/-! ## What the calls do -/

section

variable {w t : World} {p : Nat} {c : Choice}

theorem Marked.setFile (h : Marked w) {f : InPlaceFile} (hf : w.Unfinished → f.Keeps IsMarked) :
    Marked { w with file := f } := ⟨h.entry, h.entryDurable, hf, h.orderly⟩

theorem Marked.setLock (h : Marked w) (l : Option Nat) : Marked { w with lock := l } :=
  ⟨h.entry, h.entryDurable, h.file, h.orderly⟩

variable {begun : List Begun}

theorem Orderly.concat (h : Orderly begun) {uncertain : Bool}
    (hcertain : uncertain = false → ∀ a ∈ begun, a.done = true) :
    Orderly (begun ++ [⟨uncertain, false, false⟩]) := by
  refine ⟨fun i a ha hu j b hj hb => ?_, fun a ha he => ?_⟩
  · rw [List.getElem?_append] at ha
    have hlt : j < begun.length := by
      split at ha
      · omega
      · have hi := (List.getElem?_eq_some_iff.1 ha).1
        rw [List.length_singleton] at hi
        omega
    rw [List.getElem?_append_left hlt] at hb
    split at ha
    · exact h.certain i a ha hu j b hj hb
    · have hlast := List.mem_of_getElem? ha
      rw [List.mem_singleton] at hlast
      rw [hlast] at hu
      exact hcertain hu b (List.mem_of_getElem? hb)
  · rcases List.mem_append.1 ha with ha | ha
    · exact h.evicted a ha he
    · rw [List.mem_singleton.1 ha] at he
      cases he

variable {f : Begun → Begun}

theorem of_getElem?_modify {n i : Nat} {a : Begun}
    (h : (begun.modify n f)[i]? = some a) :
    ∃ a', begun[i]? = some a' ∧ (a = a' ∨ i = n ∧ a = f a') := by
  rw [List.getElem?_modify, Option.map_eq_map, Option.map_eq_some_iff] at h
  obtain ⟨a', ha', heq⟩ := h
  refine ⟨a', ha', ?_⟩
  split at heq
  · next hn => exact .inr ⟨hn.symm, heq.symm⟩
  · exact .inl heq.symm

variable {n : Nat}

theorem Orderly.modify (h : Orderly begun)
    (hu : ∀ a, (f a).uncertain = a.uncertain) (hd : ∀ a, a.done = true → (f a).done = true)
    (he : ∀ a, begun[n]? = some a → (f a).evicted = true → (f a).done = true) :
    Orderly (begun.modify n f) := by
  refine ⟨fun i a ha hua j b hj hb => ?_, fun a ha hev => ?_⟩
  · obtain ⟨a', ha', hcase⟩ := of_getElem?_modify ha
    have hua' : a'.uncertain = false := by
      rcases hcase with rfl | ⟨-, rfl⟩
      · exact hua
      · rw [← hu a', hua]
    obtain ⟨b', hb', hcase'⟩ := of_getElem?_modify hb
    have hdone := h.certain i a' ha' hua' j b' hj hb'
    rcases hcase' with rfl | ⟨-, rfl⟩
    · exact hdone
    · exact hd b' hdone
  · obtain ⟨i, hi⟩ := List.mem_iff_getElem?.1 ha
    obtain ⟨a', ha', hcase⟩ := of_getElem?_modify hi
    rcases hcase with rfl | ⟨rfl, rfl⟩
    · exact h.evicted a (List.mem_of_getElem? ha') hev
    · exact he a' ha' hev

theorem unfinished_of_modify (hd : ∀ a, a.done = true → (f a).done = true)
    (h : ∃ a ∈ w.begun.modify n f, a.done = false) : w.Unfinished := by
  obtain ⟨a, ha, hdone⟩ := h
  obtain ⟨i, hi⟩ := List.mem_iff_getElem?.1 ha
  obtain ⟨a', ha', hcase⟩ := of_getElem?_modify hi
  refine ⟨a', List.mem_of_getElem? ha', ?_⟩
  rcases hcase with rfl | ⟨-, rfl⟩
  · exact hdone
  · by_contra hnot
    rw [hd a' (by simpa using hnot)] at hdone
    cases hdone

theorem Marked.modify (h : Marked w)
    (hu : ∀ a, (f a).uncertain = a.uncertain) (hd : ∀ a, a.done = true → (f a).done = true)
    (he : ∀ a, w.begun[n]? = some a → (f a).evicted = true → (f a).done = true) :
    Marked { w with begun := w.begun.modify n f } :=
  ⟨fun hun => h.entry (unfinished_of_modify hd hun), fun hun => h.entryDurable (unfinished_of_modify hd hun),
    fun hun => h.file (unfinished_of_modify hd hun), h.orderly.modify hu hd he⟩

/-! ### One call each -/

theorem perform_createNew {a : Except OpenError Unit} (h : World.perform p () w .createNew c = some (a, t)) :
    (t = w ∧ (a = .error .alreadyExists → w.entry = true) ∧ a ≠ .ok ()) ∨
      (w.entry = false ∧ a = .ok () ∧ t = { w with entry := true, file := .settled [] }) := by
  cases c with
  | works =>
    simp only [World.perform] at h
    split at h
    · next hentry =>
      cases h
      exact .inl ⟨rfl, fun _ => hentry, nofun⟩
    · next hentry =>
      cases h
      exact .inr ⟨by simpa using hentry, rfl, rfl⟩
  | fails e =>
    cases h
    exact .inl ⟨rfl, nofun, nofun⟩
  | _ => cases h

variable {a : Except Text Unit}

theorem perform_flock (h : World.perform p () w .flock c = some (a, t)) :
    (t = w ∧ a ≠ .ok ()) ∨ (w.lock = none ∧ a = .ok () ∧ t = { w with lock := some p }) := by
  cases c with
  | works =>
    simp only [World.perform] at h
    split at h
    · cases h
      exact .inl ⟨rfl, nofun⟩
    · next hfree =>
      cases h
      exact .inr ⟨hfree, rfl, rfl⟩
  | fails e =>
    cases h
    exact .inl ⟨rfl, nofun⟩
  | _ => cases h

theorem perform_read {fresh : Bool} {a : Except Text (List UInt8)}
    (h : World.perform p () w (.read fresh) c = some (a, t)) :
    t = w ∧ ∀ previous, a = .ok previous → previous = w.file.visible.take 128 := by
  cases c with
  | works =>
    cases h
    exact ⟨rfl, fun previous hp => (Except.ok.inj hp).symm⟩
  | fails e =>
    cases h
    exact ⟨rfl, nofun⟩
  | _ => cases h

theorem perform_write {i : Nat} {bs : List UInt8} {a : Except Text Nat}
    (h : World.perform p () w (.write i bs) c = some (a, t)) :
    (t = w ∧ ∀ n, a ≠ .ok n) ∨
      ∃ n, n ≤ bs.length ∧ a = .ok n ∧ t = { w with file := w.file.write i (bs.take n) } := by
  cases c with
  | works =>
    cases h
    exact .inr ⟨bs.length, le_rfl, rfl, by rw [List.take_length]⟩
  | short n =>
    simp only [World.perform] at h
    split at h
    · next hlt =>
      cases h
      exact .inr ⟨n, le_of_lt hlt, rfl, rfl⟩
    · cases h
  | fails e =>
    cases h
    exact .inl ⟨rfl, nofun⟩
  | _ => cases h

theorem perform_setLen (h : World.perform p () w (.setLen n) c = some (a, t)) :
    (t = w ∧ a ≠ .ok ()) ∨ t = { w with file := w.file.resize n } := by
  cases c with
  | works =>
    cases h
    exact .inr rfl
  | fails e =>
    cases h
    exact .inl ⟨rfl, nofun⟩
  | _ => cases h

theorem perform_sync (h : World.perform p () w .sync c = some (a, t)) :
    (t = w ∧ a ≠ .ok ()) ∨ t = { w with file := w.file.sync } := by
  cases c with
  | works =>
    cases h
    exact .inr rfl
  | fails e =>
    cases h
    exact .inl ⟨rfl, nofun⟩
  | _ => cases h

theorem perform_syncParent (h : World.perform p () w .syncParent c = some (a, t)) :
    (t = w ∧ a ≠ .ok ()) ∨ t = { w with entryDurable := w.entry } := by
  cases c with
  | works =>
    cases h
    exact .inr rfl
  | fails e =>
    cases h
    exact .inl ⟨rfl, nofun⟩
  | _ => cases h

theorem perform_begun {uncertain : Bool} {a : Nat}
    (h : World.perform p () w (.begun uncertain) c = some (a, t)) :
    a = w.begun.length ∧ t = { w with begun := w.begun ++ [⟨uncertain, false, false⟩] } := by
  cases c with
  | works =>
    cases h
    exact ⟨rfl, rfl⟩
  | _ => cases h

theorem perform_completing {a : Unit} (h : World.perform p () w (.completing n) c = some (a, t)) :
    t = { w with begun := w.begun.modify n fun a => { a with completing := true } } := by
  cases c with
  | works =>
    cases h
    rfl
  | _ => cases h

theorem perform_evict {a : Unit} (h : World.perform p () w (.evict n) c = some (a, t)) :
    t = { w with begun := w.begun.modify n fun a => { a with evicted := true } } := by
  cases c with
  | works =>
    cases h
    rfl
  | _ => cases h

theorem perform_drop {a : Unit} (h : World.perform p () w .drop c = some (a, t)) : t = w.leave p := by
  cases c with
  | works =>
    cases h
    rfl
  | _ => cases h

def Looks : Op → Prop
  | .openParent | .pin | .openPinned | .seek | .teardown | .stillQuiescent => True
  | _ => False

theorem perform_looks {op : Op} {a : op.Answer} (hop : Looks op) (h : World.perform p () w op c = some (a, t)) :
    t = w := by
  cases op <;> first | exact hop.elim | (cases c <;> cases h <;> rfl)

/-! ### All of them -/

theorem Marked.call {op : Op} {a : op.Answer} (h : Marked w) (hmeets : Meets p () w op)
    (ht : World.perform p () w op c = some (a, t)) : Marked t := by
  cases op with
  | createNew =>
    obtain ⟨rfl, -⟩ | ⟨hentry, -, rfl⟩ := perform_createNew ht
    · exact h
    · have hno : ¬ w.Unfinished := by
        intro hun
        rw [h.entry hun] at hentry
        cases hentry
      exact ⟨fun hun => absurd hun hno, fun hun => absurd hun hno, fun hun => absurd hun hno, h.orderly⟩
  | flock =>
    obtain ⟨rfl, -⟩ | ⟨-, -, rfl⟩ := perform_flock ht
    · exact h
    · exact h.setLock _
  | read fresh => exact (perform_read ht).1 ▸ h
  | write i bs =>
    obtain ⟨rfl, -⟩ | ⟨n, -, -, rfl⟩ := perform_write ht
    · exact h
    · refine h.setFile fun hun => ?_
      obtain hprefix | hno := hmeets.2
      · exact (h.file hun).change (puts_retain_keeps ((List.take_prefix n bs).trans hprefix))
      · exact absurd hun hno
  | setLen n =>
    obtain ⟨rfl, -⟩ | rfl := perform_setLen ht
    · exact h
    · exact h.setFile fun hun => (h.file hun).change (resize_keeps hmeets.2)
  | sync =>
    obtain ⟨rfl, -⟩ | rfl := perform_sync ht
    · exact h
    · exact h.setFile fun hun => (h.file hun).sync
  | syncParent =>
    obtain ⟨rfl, -⟩ | rfl := perform_syncParent ht
    · exact h
    · exact ⟨h.entry, h.entry, h.file, h.orderly⟩
  | drop =>
    obtain rfl := perform_drop ht
    exact h.setLock _
  | begun uncertain =>
    obtain ⟨-, rfl⟩ := perform_begun ht
    obtain ⟨hlocked, hfile, hdurable, hcertain⟩ := hmeets
    refine ⟨fun _ => hlocked.entry, fun _ => hdurable, fun _ => ?_, h.orderly.concat fun hu => ?_⟩
    · rw [hfile]
      exact InPlaceFile.keeps_settled isMarked_retain
    · exact World.done_of_not_unfinished (hcertain hu)
  | completing n =>
    obtain rfl := perform_completing ht
    obtain ⟨-, b, hb, hu⟩ := hmeets
    refine h.modify (fun _ => rfl) (fun a ha => ?_) fun a ha _ => ?_
    · rw [Begun.done, Bool.and_eq_true] at ha
      rw [Begun.done, ha.2]
      rfl
    · cases hb.symm.trans ha
      rw [Begun.done, hu]
      rfl
  | evict n =>
    obtain rfl := perform_evict ht
    obtain ⟨-, b, hb, hdone⟩ := hmeets
    refine h.modify (fun _ => rfl) (fun a ha => ha) fun a ha _ => ?_
    cases hb.symm.trans ha
    exact hdone
  | _ => exact perform_looks (by exact trivial) ht ▸ h

theorem Rely.call {q : Nat} (hq : q ≠ p) {op : Op} {a : op.Answer} (hmeets : Meets p () w op)
    (ht : World.perform p () w op c = some (a, t)) : Rely q w t := by
  refine ⟨fun h => h.call hmeets ht, fun hentry => ?_, fun hlocked => ?_⟩
  · cases op with
    | createNew =>
      obtain ⟨rfl, -⟩ | ⟨-, -, rfl⟩ := perform_createNew ht
      · exact hentry
      · rfl
    | flock =>
      obtain ⟨rfl, -⟩ | ⟨-, -, rfl⟩ := perform_flock ht <;> exact hentry
    | read fresh => exact (perform_read ht).1 ▸ hentry
    | write i bs =>
      obtain ⟨rfl, -⟩ | ⟨n, -, -, rfl⟩ := perform_write ht <;> exact hentry
    | setLen n =>
      obtain ⟨rfl, -⟩ | rfl := perform_setLen ht <;> exact hentry
    | sync =>
      obtain ⟨rfl, -⟩ | rfl := perform_sync ht <;> exact hentry
    | syncParent =>
      obtain ⟨rfl, -⟩ | rfl := perform_syncParent ht <;> exact hentry
    | drop =>
      obtain rfl := perform_drop ht
      exact hentry
    | begun uncertain =>
      obtain ⟨-, rfl⟩ := perform_begun ht
      exact hentry
    | completing n =>
      obtain rfl := perform_completing ht
      exact hentry
    | evict n =>
      obtain rfl := perform_evict ht
      exact hentry
    | _ => exact perform_looks (by exact trivial) ht ▸ hentry
  · have hnot : ¬ Locked p w := by
      intro hp
      exact hq (Option.some.inj (hlocked.lock.symm.trans hp.lock))
    cases op with
    | createNew =>
      obtain ⟨rfl, -⟩ | ⟨hentry, -⟩ := perform_createNew ht
      · rfl
      · rw [hlocked.entry] at hentry
        cases hentry
    | flock =>
      obtain ⟨rfl, -⟩ | ⟨hfree, -⟩ := perform_flock ht
      · rfl
      · rw [hlocked.lock] at hfree
        cases hfree
    | drop =>
      obtain rfl := perform_drop ht
      rw [World.leave, hlocked.lock, Option.filter_some, if_pos (by simpa using hq), ← hlocked.lock]
    | read | sync | syncParent => exact absurd hmeets hnot
    | write | setLen | begun | completing | evict => exact absurd hmeets.1 hnot
    | _ => exact perform_looks (by exact trivial) ht

end

end Irlume.Uninstall

import Mathlib.Data.Nat.Basic
import Irlume.Retry.World

/-!
# The password guess budget of retry recovery

A reset asks for the account's password. Each guess is charged before the verifier is called, so the
charges in either view of the recovery file are never behind the verifications. From the fifth
charge on, the settlement of a guess arms a delay, and no guess is charged before the delay has run
out within one boot. The invariant follows the latest verification through that cycle: its charge is
pending, or its delay is armed, or a delay has been waited out since.
-/

namespace Irlume.Retry

open Irlume.Lib Relation

/-! ## What is counted -/

def chargedIn (content : Option Attempts) : Nat := (content.map (·.failures)).getD 0

def verifiedSinceEmptied : List Note → Nat
  | [] => 0
  | .verified _ _ :: ns => verifiedSinceEmptied ns + 1
  | .emptied :: _ => 0
  | _ :: ns => verifiedSinceEmptied ns

/-- A call of the verifier: the charge it was for, when it was made, and what happened since. -/
structure Guess where
  charge : Nat
  tick : Tick
  later : List Note

/-- The latest call of the verifier since the recovery record was last written empty. -/
def latestGuess : List Note → Option Guess
  | [] => none
  | .verified charge tick :: _ => some { charge, tick, later := [] }
  | .emptied :: _ => none
  | n :: ns => (latestGuess ns).map fun g => { g with later := n :: g.later }

/-- When the recovery record's delay was armed, or ran out, or the verifier was called. -/
def Note.tick : Note → Option Tick
  | .delayed now => some now
  | .lapsed now => some now
  | .verified _ now => some now
  | _ => none

/-- Since the guess, a delay was armed and ran its full length within one boot. -/
def Waited (g : Guess) : Prop :=
  ∃ d e : Tick, [.lapsed e, .delayed d].Sublist g.later ∧ d.boot = e.boot ∧ d.nanos + delay ≤ e.nanos

/-- A verification at `now` is separated from the guess before it. In one boot, a full delay has
passed since each settlement in between. -/
def Separated (g : Guess) (now : Tick) : Prop :=
  Waited g ∧ (g.tick.boot = now.boot → ∀ d, .delayed d ∈ g.later →
    d.boot = now.boot ∧ g.tick.nanos ≤ d.nanos ∧ d.nanos + delay ≤ now.nanos)

def Spaced : List Note → Prop
  | [] => True
  | .verified _ now :: ns =>
    Spaced ns ∧ ∀ g, latestGuess ns = some g → delayAfter ≤ g.charge → Separated g now
  | _ :: ns => Spaced ns

def Guess.push (g : Guess) (n : Note) : Guess := { g with later := n :: g.later }

def Note.between : Note → Bool
  | .verified _ _ | .emptied => false
  | _ => true

theorem verifiedSinceEmptied_cons {n : Note} (h : n.between = true) (ns : List Note) :
    verifiedSinceEmptied (n :: ns) = verifiedSinceEmptied ns := by
  cases n <;> first | rfl | cases h

theorem latestGuess_cons {n : Note} (h : n.between = true) (ns : List Note) :
    latestGuess (n :: ns) = (latestGuess ns).map (·.push n) := by
  cases n <;> first | rfl | cases h

theorem spaced_cons {n : Note} (h : n.between = true) (ns : List Note) :
    Spaced (n :: ns) ↔ Spaced ns := by
  cases n <;> first | rfl | cases h

variable {g : Guess}

theorem Waited.push (h : Waited g) (n : Note) : Waited (g.push n) := by
  obtain ⟨d, e, hs, hrest⟩ := h
  exact ⟨d, e, hs.cons n, hrest⟩

theorem latestGuess_mem {ns : List Note} (h : latestGuess ns = some g) :
    .verified g.charge g.tick ∈ ns ∧ g.later ⊆ ns := by
  induction ns generalizing g with
  | nil => cases h
  | cons n ns ih =>
    by_cases hn : n.between = true
    · rw [latestGuess_cons hn, Option.map_eq_some_iff] at h
      obtain ⟨g', hg', rfl⟩ := h
      obtain ⟨hmem, hlater⟩ := ih hg'
      exact ⟨List.mem_cons_of_mem _ hmem, List.cons_subset_cons n hlater⟩
    · cases n with
      | verified c t =>
        cases h
        exact ⟨List.mem_cons_self, List.nil_subset _⟩
      | emptied => cases h
      | _ => exact absurd rfl hn

/-! ## The invariant -/

/-- The guess is not over: its charge is pending or its delay is armed, in this view of the file. -/
def Holds (g : Guess) (content : Option Attempts) : Prop :=
  ∃ t, content = some t ∧ g.charge ≤ t.failures ∧
    (t.pending = true ∨ ∃ c d, t.cooldown = some c ∧ .delayed d ∈ g.later ∧ c.bootId = d.boot ∧
      c.deadlineNanos = d.nanos + delay)

structure Guarded (notes : List Note) (content : Option Attempts) : Prop where
  counted : verifiedSinceEmptied notes ≤ chargedIn content
  held : ∀ g, latestGuess notes = some g → delayAfter ≤ g.charge → Holds g content ∨ Waited g

/-- A delay armed at `d` in this boot has run out, or a reader sees it. -/
def Elapsed (now : Tick) (content : Option Attempts) (d : Tick) : Prop :=
  d.nanos + delay ≤ now.nanos ∨ ∃ t c, content = some t ∧ t.cooldown = some c ∧
    c.bootId = now.boot ∧ d.nanos + delay ≤ c.deadlineNanos

/-- The invariant of the recovery file and its history, at `now` in the last of `boots`. -/
structure Paced (boots : List String) (now : Tick) (d : Disk) : Prop where
  within : verifiedSinceEmptied d.notes ≤ recoveryLimit
  spaced : Spaced d.notes
  guarded : d.recovery.Both (Guarded d.notes)
  here : now.boot ∈ boots
  known : ∀ n ∈ d.notes, ∀ t, n.tick = some t →
    t.boot ∈ boots ∧ (t.boot = now.boot → t.nanos ≤ now.nanos)
  ordered : ∀ g, latestGuess d.notes = some g → g.tick.boot = now.boot →
    ∀ n ∈ g.later, ∀ t, n.tick = some t → t.boot = now.boot ∧ g.tick.nanos ≤ t.nanos
  elapsed : ∀ g, latestGuess d.notes = some g → ∀ t, .delayed t ∈ g.later → t.boot = now.boot →
    Elapsed now d.recovery.visible t

theorem Holds.push {content : Option Attempts} (h : Holds g content) (n : Note) :
    Holds (g.push n) content := by
  obtain ⟨t, ht, hc, hp | ⟨c, d, hcd, hd, hrest⟩⟩ := h
  · exact ⟨t, ht, hc, .inl hp⟩
  · exact ⟨t, ht, hc, .inr ⟨c, d, hcd, List.mem_cons_of_mem _ hd, hrest⟩⟩

section Moves

variable {a : Account} {boots : List String} {now : Tick} {d : Disk}

section

variable (h : Paced boots now d)

include h

theorem Paced.congr {d' : Disk} (hr : d'.recovery = d.recovery)
    (hn : d'.notes = d.notes) : Paced boots now d' := by
  obtain ⟨face, recovery, notes⟩ := d'
  obtain rfl : recovery = d.recovery := hr
  obtain rfl : notes = d.notes := hn
  exact ⟨h.within, h.spaced, h.guarded, h.here, h.known, h.ordered, h.elapsed⟩

theorem Paced.rewritten {recovery : DurableFile Attempts}
    (hg : recovery.Both (Guarded d.notes))
    (he : ∀ g, latestGuess d.notes = some g → ∀ t, .delayed t ∈ g.later → t.boot = now.boot →
      Elapsed now recovery.visible t) :
    Paced boots now { d with recovery } :=
  ⟨h.within, h.spaced, hg, h.here, h.known, h.ordered, he⟩

theorem Paced.noted {n : Note} (hb : n.between = true)
    (ht : ∀ t, n.tick = some t → t = now) {recovery : DurableFile Attempts}
    (hg : recovery.Both (Guarded (n :: d.notes)))
    (he : ∀ g, latestGuess d.notes = some g → ∀ t, .delayed t ∈ n :: g.later → t.boot = now.boot →
      Elapsed now recovery.visible t) :
    Paced boots now { d with recovery, notes := n :: d.notes } where
  within := by
    rw [verifiedSinceEmptied_cons hb]
    exact h.within
  spaced := (spaced_cons hb _).2 h.spaced
  guarded := hg
  here := h.here
  known := by
    rintro m hm t hmt
    obtain rfl | hm := List.mem_cons.1 hm
    · obtain rfl := ht t hmt
      exact ⟨h.here, fun _ => Nat.le_refl _⟩
    · exact h.known m hm t hmt
  ordered := by
    rintro g hg' hboot m hm t hmt
    rw [latestGuess_cons hb, Option.map_eq_some_iff] at hg'
    obtain ⟨g, hg', rfl⟩ := hg'
    obtain rfl | hm := List.mem_cons.1 hm
    · obtain rfl := ht t hmt
      exact ⟨rfl, (h.known _ (latestGuess_mem hg').1 _ rfl).2 hboot⟩
    · exact h.ordered g hg' hboot m hm t hmt
  elapsed := by
    rintro g hg' t hmem hboot
    rw [latestGuess_cons hb, Option.map_eq_some_iff] at hg'
    obtain ⟨g, hg', rfl⟩ := hg'
    exact he g hg' t hmem hboot

end

theorem Guarded.push {notes : List Note} {content : Option Attempts} (h : Guarded notes content)
    {n : Note} (hb : n.between = true) : Guarded (n :: notes) content where
  counted := by
    rw [verifiedSinceEmptied_cons hb]
    exact h.counted
  held := by
    rintro g hg hc
    rw [latestGuess_cons hb, Option.map_eq_some_iff] at hg
    obtain ⟨g, hg, rfl⟩ := hg
    exact (h.held g hg hc).imp (·.push n) (·.push n)

theorem Paced.aside (h : Paced boots now d) {n : Note} (hb : n.between = true)
    (hd : ∀ t, n ≠ .delayed t) (ht : n.tick = none) :
    Paced boots now { d with notes := n :: d.notes } := by
  refine h.noted hb (by simp [ht]) (h.guarded.mono fun _ hg => hg.push hb) ?_
  rintro g hg t hmem hboot
  obtain rfl | hmem := List.mem_cons.1 hmem
  · exact absurd rfl (hd t)
  · exact h.elapsed g hg t hmem hboot

theorem Paced.sync (h : Paced boots now d) :
    Paced boots now { d with recovery := d.recovery.sync } :=
  h.rewritten h.guarded.sync h.elapsed

variable {t : Attempts}

theorem ShowsRecovery.charged_eq (h : ShowsRecovery a d t) :
    chargedIn d.recovery.visible = t.failures := by
  obtain ⟨hv, rfl⟩ | ⟨hd, -⟩ := h
  · rw [hv]
    rfl
  · rw [hd]
    rfl

theorem Holds.of_shows {g : Guess} (h : Holds g d.recovery.visible)
    (ht : ShowsRecovery a d t) : Holds g (some t) := by
  obtain ⟨hv, -⟩ | ⟨hd, -⟩ := ht
  · obtain ⟨t', ht', -⟩ := h
    rw [hv] at ht'
    cases ht'
  · rw [hd] at h
    exact h

theorem Elapsed.of_shows {e : Tick} (h : Elapsed now d.recovery.visible e)
    (ht : ShowsRecovery a d t) : Elapsed now (some t) e := by
  obtain hle | ⟨t', c, hv', hrest⟩ := h
  · exact .inl hle
  · obtain ⟨hv, -⟩ | ⟨hd, -⟩ := ht
    · rw [hv] at hv'
      cases hv'
    · rw [hd] at hv'
      exact .inr ⟨t, c, by rw [Option.some.inj hv'], by rw [Option.some.inj hv']; exact hrest⟩

theorem ShowsRecovery.undelayed (h : ShowsRecovery a d t)
    (hf : t.failures < delayAfter) : t.cooldown = none := by
  obtain ⟨-, rfl⟩ | ⟨-, hv⟩ := h
  · rfl
  · unfold Attempts.validate at hv
    cases hc : t.cooldown with
    | none => rfl
    | some c =>
      simp only [hc, Bool.and_eq_true, Option.all_some, decide_eq_true_eq] at hv
      omega

variable {o : WriteOutcome}

theorem visible_write {α : Type} {f : DurableFile α} (ho : o ≠ .failed) (x : α) :
    (f.write o x).visible = some x := by
  cases o with
  | failed => exact absurd rfl ho
  | durable => rfl
  | visible => rfl

variable (h : Paced boots now d)

include h

section

variable (ht : ShowsRecovery a d t)

include ht

theorem Paced.settledDelayed (ho : o ≠ .failed) :
    Paced boots now (Recovery.writeRecovery d [.delayed now] (t.delayed now) o) := by
  have hshown : Guarded (.delayed now :: d.notes) (some (t.delayed now)) := by
    have hv : Guarded d.notes d.recovery.visible := h.guarded.1
    refine ⟨?_, ?_⟩
    · rw [verifiedSinceEmptied_cons rfl]
      exact Nat.le_trans hv.counted ht.charged_eq.le
    · rintro g hg hc
      rw [latestGuess_cons rfl, Option.map_eq_some_iff] at hg
      obtain ⟨g, hg, rfl⟩ := hg
      obtain hh | hw := hv.held g hg hc
      · obtain ⟨t', ht', hle, -⟩ := hh.of_shows ht
        cases ht'
        exact .inl ⟨_, rfl, hle, .inr ⟨_, now, rfl, List.mem_cons_self, rfl, rfl⟩⟩
      · exact .inr (hw.push _)
  refine h.noted (n := .delayed now) rfl (by rintro t ⟨⟩; rfl)
    ((h.guarded.mono fun _ hg => hg.push rfl).write o hshown) ?_
  rintro g hg e hmem hboot
  rw [visible_write ho]
  refine .inr ⟨_, _, rfl, rfl, rfl, ?_⟩
  have hle : e.nanos ≤ now.nanos := by
    obtain he | hmem := List.mem_cons.1 hmem
    · rw [Note.delayed.inj he]
    · exact (h.known _ ((latestGuess_mem hg).2 hmem) e rfl).2 hboot
  exact Nat.add_le_add_right hle delay

theorem Paced.settledFree (hf : t.failures < delayAfter) :
    Paced boots now (Recovery.writeRecovery d [] { t with pending := false } o) := by
  have hv : Guarded d.notes d.recovery.visible := h.guarded.1
  have hshown : Guarded d.notes (some { t with pending := false }) := by
    refine ⟨Nat.le_trans hv.counted ht.charged_eq.le, fun g hg hc => .inr ?_⟩
    obtain hh | hw := hv.held g hg hc
    · obtain ⟨t', ht', hle, -⟩ := hh.of_shows ht
      cases ht'
      omega
    · exact hw
  refine h.rewritten (h.guarded.write o hshown) ?_
  rintro g hg e hmem hboot
  obtain hle | ⟨t', c, ht', hc, -⟩ := (h.elapsed g hg e hmem hboot).of_shows ht
  · exact .inl hle
  · cases ht'
    rw [ht.undelayed hf] at hc
    cases hc

variable (hp : t.pending = false)

include hp

theorem Paced.settledLapsed {c : Cooldown}
    (hc : t.cooldown = some c) (hb : c.bootId = now.boot) (hd : c.deadlineNanos ≤ now.nanos) :
    Paced boots now (Recovery.writeRecovery d [.lapsed now] { t with cooldown := none } o) := by
  have hshown : Guarded (.lapsed now :: d.notes) (some { t with cooldown := none }) := by
    have hv : Guarded d.notes d.recovery.visible := h.guarded.1
    refine ⟨?_, ?_⟩
    · rw [verifiedSinceEmptied_cons rfl]
      exact Nat.le_trans hv.counted ht.charged_eq.le
    · rintro g hg hcharge
      rw [latestGuess_cons rfl, Option.map_eq_some_iff] at hg
      obtain ⟨g, hg, rfl⟩ := hg
      right
      obtain hh | hw := hv.held g hg hcharge
      · obtain ⟨t', ht', -, hp' | ⟨c', e, hc', he, hboot, hdead⟩⟩ := hh.of_shows ht
        all_goals cases ht'
        · rw [hp] at hp'
          cases hp'
        · obtain rfl : c = c' := Option.some.inj (hc.symm.trans hc')
          refine ⟨e, now, ?_, hboot.symm.trans hb, hdead ▸ hd⟩
          exact (List.singleton_sublist.2 he).cons_cons (.lapsed now)
      · exact hw.push _
  refine h.noted (n := .lapsed now) rfl (by rintro t ⟨⟩; rfl)
    ((h.guarded.mono fun _ hg => hg.push rfl).write o hshown) ?_
  rintro g hg e hmem hboot
  obtain he | hmem := List.mem_cons.1 hmem
  · cases he
  · obtain hle | ⟨t', c', ht', hc', -, hle⟩ := (h.elapsed g hg e hmem hboot).of_shows ht
    · exact .inl hle
    · cases ht'
      obtain rfl : c = c' := Option.some.inj (hc.symm.trans hc')
      exact .inl (Nat.le_trans hle hd)

theorem Paced.waited (hc : t.cooldown = none) {g : Guess}
    (hg : latestGuess d.notes = some g) (hcharge : delayAfter ≤ g.charge) : Waited g := by
  obtain hh | hw := h.guarded.1.held g hg hcharge
  · obtain ⟨t', ht', -, hp' | ⟨c', e, hc', -⟩⟩ := hh.of_shows ht
    all_goals cases ht'
    · rw [hp] at hp'
      cases hp'
    · rw [hc] at hc'
      cases hc'
  · exact hw

theorem Paced.charge (hc : t.cooldown = none) :
    Paced boots now (Recovery.writeRecovery d []
      { t with failures := t.failures + 1, pending := true } o) := by
  have hv : Guarded d.notes d.recovery.visible := h.guarded.1
  have hshown : Guarded d.notes (some { t with failures := t.failures + 1, pending := true }) := by
    refine ⟨?_, fun g hg hcharge => .inr (h.waited ht hp hc hg hcharge)⟩
    exact Nat.le_succ_of_le (Nat.le_trans hv.counted ht.charged_eq.le)
  refine h.rewritten (h.guarded.write o hshown) ?_
  rintro g hg e hmem hboot
  obtain hle | ⟨t', c, ht', hc', -⟩ := (h.elapsed g hg e hmem hboot).of_shows ht
  · exact .inl hle
  · cases ht'
    rw [hc] at hc'
    cases hc'

end

theorem Paced.empty :
    Paced boots now (Recovery.writeRecovery d [.emptied] (Attempts.empty a) o) where
  within := Nat.zero_le _
  spaced := h.spaced
  guarded := ⟨⟨Nat.zero_le _, nofun⟩, ⟨Nat.zero_le _, nofun⟩⟩
  here := h.here
  known := by
    rintro n hn t hnt
    obtain rfl | hn := List.mem_cons.1 hn
    · cases hnt
    · exact h.known n hn t hnt
  ordered := nofun
  elapsed := nofun

theorem Paced.asides {ns : List Note}
    (hns : ∀ n ∈ ns, n.between = true ∧ (∀ t, n ≠ .delayed t) ∧ n.tick = none) :
    Paced boots now { d with notes := ns ++ d.notes } := by
  induction ns with
  | nil => exact h
  | cons n ns ih =>
    obtain ⟨hb, hd, ht⟩ := hns n List.mem_cons_self
    exact (ih fun n hn => hns n (List.mem_cons_of_mem _ hn)).aside hb hd ht

theorem Paced.settle {s t : Attempts}
    (ht : ShowsRecovery a d t) (hs : t.settle now = .ok (s, true)) (ho : o ≠ .failed) :
    Paced boots now (Recovery.writeRecovery d (Recovery.delayNotes t s now) s o) := by
  obtain ⟨-, -, ⟨-, -, rfl⟩ | ⟨hf, rfl⟩⟩ | ⟨hp, -, c, hc, hb, hd, rfl⟩ | ⟨-, hc, -⟩ :=
    Attempts.settle_ok hs
  · exact h.settledDelayed ht ho
  · have hn : Recovery.delayNotes t { t with pending := false } now = [] := by
      simp [Recovery.delayNotes, ht.undelayed hf]
    rw [hn]
    exact h.settledFree ht hf
  · have hn : Recovery.delayNotes t { t with cooldown := none } now = [.lapsed now] := by
      simp [Recovery.delayNotes, hc]
    rw [hn]
    exact h.settledLapsed ht hp hc hb hd
  · cases hc

theorem Paced.move {d' : Disk} (hm : Move a now d d') :
    Paced boots now d' := by
  cases hm with
  | syncFace => exact h.congr rfl rfl
  | syncRecovery => exact h.sync
  | @update policy d r s notes o hr hs hn hv ho =>
    have hns : ∀ n ∈ notes, n.between = true ∧ (∀ t, n ≠ .delayed t) ∧ n.tick = none := by
      rw [hn, Store.cooldownNotes]
      split
      · simp
      · split <;> simp [Note.between, Note.tick]
    exact (h.asides hns).congr rfl rfl
  | reserve => exact h.congr rfl rfl
  | admission => exact (h.aside (n := .admitted) rfl nofun rfl).congr rfl rfl
  | reset => exact (h.aside (n := .reset) rfl nofun rfl).congr rfl rfl
  | settleRecovery ht hs hv ho => exact h.settle ht hs ho
  | charge ht hp hc => exact h.charge ht hp hc
  | empty => exact h.empty

theorem Paced.moves {d' : Disk} (hm : Moves a now d d') :
    Paced boots now d' := by
  induction hm with
  | refl => exact h
  | tail _ hm ih => exact ih.move hm

end Moves

/-! ## The steps -/

def Reserved (d : Disk) : Prop :=
  ∃ t, d.recovery = .settled (some t) ∧ t.failures ≤ recoveryLimit ∧ t.pending = true ∧
    t.cooldown = none ∧ verifiedSinceEmptied d.notes < t.failures ∧
    ∀ g, latestGuess d.notes = some g → delayAfter ≤ g.charge → Waited g

structure GuessGuarded (w : World) : Prop where
  paced : Paced w.boots w.now w.disk
  reserved : w.operation = some (.recovery (.reserved false)) → Reserved w.disk

variable {now : Tick} {boots : List String}

variable {d : Disk}

theorem Charge.reserved {a : Account} {t : Attempts}
    (h : Charge a d t) (hp : Paced boots now d) : Reserved (charged d t) := by
  refine ⟨_, rfl, ?_, rfl, h.undelayed, ?_, ?_⟩
  · have hv := h.valid
    simp only [Attempts.validate, Bool.and_eq_true, decide_eq_true_eq] at hv
    exact hv.1.1.2
  · exact Nat.lt_succ_of_le (Nat.le_trans hp.guarded.1.counted h.shows.charged_eq.le)
  · exact fun g hg hc => hp.waited h.shows h.settled h.undelayed hg hc

section

variable (h : Paced boots now d)

include h

theorem Paced.tick
    {nanos : Nat} (hn : now.nanos ≤ nanos) : Paced boots { now with nanos } d where
  within := h.within
  spaced := h.spaced
  guarded := h.guarded
  here := h.here
  known n hn' t ht := ⟨(h.known n hn' t ht).1, fun hb => Nat.le_trans ((h.known n hn' t ht).2 hb) hn⟩
  ordered := h.ordered
  elapsed g hg t ht hb := by
    obtain hle | hc := h.elapsed g hg t ht hb
    · exact .inl (Nat.le_trans hle hn)
    · exact .inr hc

theorem Paced.reboot
    {boot : String} (hb : boot ∉ boots) (nanos : Nat) (kept : Bool) :
    Paced (boot :: boots) ⟨boot, nanos⟩ { d with recovery := d.recovery.powerLoss kept } := by
  have hold : ∀ n ∈ d.notes, ∀ t, n.tick = some t → t.boot ≠ boot := by
    rintro n hn t ht rfl
    exact hb (h.known n hn t ht).1
  refine ⟨h.within, h.spaced, h.guarded.powerLoss kept, List.mem_cons_self, ?_, ?_, ?_⟩
  · exact fun n hn t ht => ⟨List.mem_cons_of_mem _ (h.known n hn t ht).1,
      fun he => absurd he (hold n hn t ht)⟩
  · exact fun g hg he => absurd he (hold _ (latestGuess_mem hg).1 _ rfl)
  · exact fun g hg t ht he => absurd he (hold _ ((latestGuess_mem hg).2 ht) t rfl)

theorem Paced.verify
    (hr : Reserved d) : Paced boots now (after (Recovery.verifying now) d) := by
  obtain ⟨t, ht, hle, hp, hc, hlt, hw⟩ := hr
  have he : after (Recovery.verifying now) d =
      { d with notes := .verified t.failures now :: d.notes } := by
    obtain ⟨face, recovery, notes⟩ := d
    obtain rfl : recovery = .settled (some t) := ht
    rfl
  rw [he]
  have hguarded : Guarded (.verified t.failures now :: d.notes) (some t) := by
    refine ⟨hlt, ?_⟩
    rintro g hg -
    cases hg
    exact .inl ⟨t, rfl, Nat.le_refl _, .inl hp⟩
  refine ⟨Nat.le_trans hlt hle, ⟨h.spaced, ?_⟩, ?_, h.here, ?_, ?_, ?_⟩
  · refine fun g hg hcharge => ⟨hw g hg hcharge, fun hboot e hmem => ?_⟩
    obtain ⟨hb, hafter⟩ := h.ordered g hg hboot _ hmem e rfl
    refine ⟨hb, hafter, ?_⟩
    obtain hle | ⟨t', c, ht', hc', -⟩ := h.elapsed g hg e hmem hb
    · exact hle
    · rw [ht] at ht'
      cases ht'
      rw [hc] at hc'
      cases hc'
  · rw [ht]
    exact ⟨hguarded, hguarded⟩
  · rintro n hn e hne
    obtain rfl | hn := List.mem_cons.1 hn
    · cases hne
      exact ⟨h.here, fun _ => Nat.le_refl _⟩
    · exact h.known n hn e hne
  · rintro g hg - n hn
    cases hg
    cases hn
  · rintro g hg e hmem
    cases hg
    cases hmem

end

theorem Paced.ended {d d' : Disk} (h : Paced boots now d)
    (he : d' = d ∨ ∃ e, d' = { d with notes := .ended e :: d.notes }) : Paced boots now d' := by
  obtain rfl | ⟨e, rfl⟩ := he
  · exact h
  · exact h.aside (n := .ended e) rfl nofun rfl

theorem GuessGuarded.step {a : Account} {w w' : World} {e : Event} (h : GuessGuarded w)
    (hs : w.step a e = some w') : GuessGuarded w' := by
  cases World.step_acts hs with
  | tick hn => exact ⟨h.paced.tick hn, h.reserved⟩
  | @reboot boot nanos notes faceKept recoveryKept hv hb hn =>
    have hloss := h.paced.reboot hb nanos recoveryKept
    refine ⟨?_, nofun⟩
    obtain rfl | ⟨e, rfl⟩ := hn
    · exact hloss.congr rfl rfl
    · exact (hloss.ended (.inr ⟨e, rfl⟩)).congr rfl rfl
  | moved hm =>
    obtain ⟨d, hd, he⟩ := hm.disk
    refine ⟨?_, fun ho => absurd ho hm.holder⟩
    rw [hm.now, hm.boots]
    exact (h.paced.moves hd).ended he
  | refused => exact h
  | charged hd ht =>
    have hp := h.paced.moves hd
    exact ⟨hp.moves ht.moves, fun _ => ht.reserved hp⟩
  | verify ok ho => exact ⟨h.paced.verify (h.reserved ho), nofun⟩

/-! ## The guesses of every run -/

theorem Spaced.separated {newer older : List Note} {charge : Nat}
    (h : Spaced (newer ++ .verified charge now :: older))
    (hg : latestGuess older = some g) (hcharge : delayAfter ≤ g.charge) : Separated g now := by
  induction newer with
  | nil => exact h.2 g hg hcharge
  | cons n ns ih =>
    refine ih ?_
    cases n with
    | verified c t => exact h.1
    | _ => exact h

/-- However resets are asked for, abandoned between charge and completion, torn or refused, through
crashes, power losses and new boots: the verifier is called at most `recoveryLimit` times before the
recovery record is written empty, and a call after one for the fifth charge or a later one comes
after a delay that ran its full length within one boot. When both calls are made in one boot, a full
delay lies between each settlement since the earlier call and the later call. -/
theorem guesses_within_budget {a : Account} {face : DurableFile Record}
    {recovery : DurableFile Attempts} {now : Tick} {past : List String} {es : List Event} {w : World}
    (h : run (World.step a) (.start face recovery now past) es = some w) :
    verifiedSinceEmptied w.disk.notes ≤ recoveryLimit ∧
      ∀ newer charge tick older g, w.disk.notes = newer ++ .verified charge tick :: older →
        latestGuess older = some g → delayAfter ≤ g.charge →
        Waited g ∧ (g.tick.boot = tick.boot → ∀ d, .delayed d ∈ g.later →
          d.boot = tick.boot ∧ g.tick.nanos ≤ d.nanos ∧ d.nanos + delay ≤ tick.nanos) := by
  have hstart : GuessGuarded (.start face recovery now past) := by
    have hguard : ∀ c, Guarded [] c := fun c => ⟨Nat.zero_le _, nofun⟩
    exact ⟨⟨Nat.zero_le _, trivial, ⟨hguard _, hguard _⟩, List.mem_cons_self, nofun, nofun, nofun⟩,
      nofun⟩
  have hw : GuessGuarded w := run_invariant GuessGuarded.step hstart h
  refine ⟨hw.paced.within, fun newer charge tick older g hn hg hcharge => ?_⟩
  have hspaced : Spaced w.disk.notes := hw.paced.spaced
  rw [hn] at hspaced
  exact hspaced.separated hg hcharge

/-- Alice has four guesses on record, and the next two are wrong. -/
def aliceGuessing : World :=
  let guessed : Attempts := { Attempts.empty alice with failures := 4 }
  .start (.settled none) (.settled (some guessed)) ⟨bootA, 0⟩ []

def aliceGuesses : List Event :=
  [.openRecovery, .reserve false .none, .verify false, .refuse defaultPolicy .none,
    .tick delay, .reserve false .none, .verify false]

/-- The fifth guess is settled at the tick it was made, and the sixth waits for the delay. -/
theorem guesses_within_budget_sixth :
    ∃ w, run (World.step alice) aliceGuessing aliceGuesses = some w ∧
      w.disk.notes = [.verified 6 ⟨bootA, delay⟩, .lapsed ⟨bootA, delay⟩, .delayed ⟨bootA, 0⟩,
        .verified 5 ⟨bootA, 0⟩] ∧
      verifiedSinceEmptied w.disk.notes ≤ recoveryLimit ∧
      Waited ⟨5, ⟨bootA, 0⟩, [.lapsed ⟨bootA, delay⟩, .delayed ⟨bootA, 0⟩]⟩ := by
  have h : run (World.step alice) aliceGuessing aliceGuesses = some _ := rfl
  have hbudget := guesses_within_budget h
  exact ⟨_, h, rfl, hbudget.1, (hbudget.2 [] 6 _ _ _ rfl rfl (by decide)).1⟩

end Irlume.Retry

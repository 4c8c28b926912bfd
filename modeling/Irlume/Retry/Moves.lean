import Mathlib.Logic.Relation
import Irlume.Lib.Ends
import Irlume.Retry.Store

/-!
# What the operations can do to the disk

Every operation of the store is a sequence of moves: a sync of a file it read, and a write it made. The
specifications below say that each operation, whatever fails in it, only makes moves.
-/

namespace Irlume.Retry

open Irlume.Lib Relation

/-- What a successful read of the face record says about the disk. -/
def Shows (a : Account) (d : Disk) (r : Record) : Prop :=
  (d.face.visible = none ∧ r = Record.empty a) ∨
    (d.face = DurableFile.settled (some r) ∧ r.validate a = true)

variable {r : Record}

theorem Shows.congr {a : Account} {d e : Disk} (h : Shows a d r)
    (he : e.face = d.face) : Shows a e r := by
  unfold Shows
  rw [he]
  exact h

def ShowsRecovery (a : Account) (d : Disk) (t : Attempts) : Prop :=
  (d.recovery.visible = none ∧ t = Attempts.empty a) ∨
    (d.recovery = DurableFile.settled (some t) ∧ t.validate a = true)

variable {t : Attempts}

theorem ShowsRecovery.congr {a : Account} {d e : Disk} (h : ShowsRecovery a d t)
    (he : e.recovery = d.recovery) : ShowsRecovery a e t := by
  unfold ShowsRecovery
  rw [he]
  exact h

/-- The updates of the face record that charge no request: those of a check, of a status, and of a
denial. -/
inductive Update (policy : Policy) (now : Tick) : Record → Record → Prop
  | check {r s t : Record} (hs : r.settleAbandoned policy now = .ok s)
      (ht : s.refreshCooldown policy now = .ok t) : Update policy now r t
  | settle {r s : Record} (hs : r.settleAbandoned policy now = .ok s) : Update policy now r s
  | neutral {r : Record} (hp : r.pending = true) : Update policy now r r.settled
  | strike {r s : Record} (hp : r.pending = true) (hs : r.settled.strike policy now = .ok s) :
    Update policy now r s

/-- One effect of an operation that runs at `now`. -/
inductive Move (a : Account) (now : Tick) : Disk → Disk → Prop
  | syncFace (d : Disk) : Move a now d { d with face := d.face.sync }
  | syncRecovery (d : Disk) : Move a now d { d with recovery := d.recovery.sync }
  | update {policy : Policy} {d : Disk} {r s : Record} {notes : List Note} {o : WriteOutcome} (hr : Shows a d r)
      (hs : Update policy now r s) (hn : notes = Store.cooldownNotes r s now)
      (hv : s.validate ⟨s.uid, s.account⟩ = true) (ho : o ≠ .failed) :
      Move a now d (Store.writeFace d notes s o)
  /-- A reservation whose write is not known to be durable admits nothing. -/
  | reserve {d : Disk} {r s : Record} (hr : Shows a d r)
      (hs : FaceAttempt.reserve r = some s) (hv : s.validate ⟨s.uid, s.account⟩ = true) :
      Move a now d (Store.writeFace d [] s .visible)
  | admission {d : Disk} {r s : Record} (hr : Shows a d r)
      (hs : FaceAttempt.reserve r = some s) (hv : s.validate ⟨s.uid, s.account⟩ = true) :
      Move a now d (Store.writeFace d [.admitted] s .durable)
  | reset {d : Disk} {o : WriteOutcome} (ho : o ≠ .failed) :
      Move a now d (Store.writeFace d [.reset] (Record.reset a) o)
  | settleRecovery {d : Disk} {s t : Attempts} {o : WriteOutcome} (ht : ShowsRecovery a d t)
      (hs : t.settle now = .ok (s, true)) (hv : s.validate a = true) (ho : o ≠ .failed) :
      Move a now d (Recovery.writeRecovery d (Recovery.delayNotes t s now) s o)
  | charge {d : Disk} {t : Attempts} {o : WriteOutcome} (ht : ShowsRecovery a d t)
      (hp : t.pending = false) (hc : t.cooldown = none)
      (hv : { t with failures := t.failures + 1, pending := true }.validate a = true)
      (ho : o ≠ .failed) :
      Move a now d
        (Recovery.writeRecovery d [] { t with failures := t.failures + 1, pending := true } o)
  | empty {d : Disk} {o : WriteOutcome} (ho : o ≠ .failed) :
      Move a now d (Recovery.writeRecovery d [.emptied] (Attempts.empty a) o)

abbrev Moves (a : Account) (now : Tick) : Disk → Disk → Prop :=
  ReflTransGen (Move a now)

variable {a : Account} {policy : Policy} {now : Tick} {d : Disk}

/-- The operation only makes moves, whatever fails in it. -/
abbrev OnlyMoves {ε α : Type} (a : Account) (now : Tick) (x : EStateM ε Disk α)
    (d : Disk) (Q : α → Disk → Prop) : Prop :=
  Ends x d (fun b e => Moves a now d e ∧ Q b e) (Moves a now d)

theorem onlyMoves_chain {ε α β : Type} {x : EStateM ε Disk α} {f : α → EStateM ε Disk β}
    {Q : α → Disk → Prop} {Q' : β → Disk → Prop} (hx : OnlyMoves a now x d Q)
    (hf : ∀ b e, Q b e → OnlyMoves a now (f b) e Q') :
    OnlyMoves a now (x >>= f) d Q' :=
  .chain hx hf

theorem require_moves {ε : Type} (c : Bool) (e : ε) :
    OnlyMoves a now (require c e) d fun _ d' => c = true ∧ d' = d := by
  unfold require
  split
  · next hc => exact .pure ⟨.refl, hc, rfl⟩
  · exact .throw .refl

theorem clocked_moves (ok : Bool) :
    OnlyMoves a now (clocked now ok) d fun _ e => e = d := by
  refine onlyMoves_chain (require_moves _ _) ?_
  rintro - e ⟨-, rfl⟩
  exact (require_moves _ _).mono (fun _ _ h => ⟨h.1, h.2.2⟩) fun _ h => h

theorem ofExcept_moves {α : Type} (x : Except Failure α) :
    OnlyMoves a now (ofExcept x) d fun b e => x = .ok b ∧ e = d := by
  cases x with
  | ok b => exact .pure ⟨.refl, rfl, rfl⟩
  | error e => exact .throw .refl

/-! ## The face record -/

theorem read_moves (ok : Bool) :
    OnlyMoves a now (Store.read a ok) d fun r e => Shows a e r ∧ e.recovery = d.recovery := by
  refine onlyMoves_chain (require_moves _ _) ?_
  rintro - e ⟨-, rfl⟩
  refine .bind (.get ?_)
  split
  · next hv => exact .pure ⟨.refl, .inl ⟨hv, rfl⟩, rfl⟩
  · next r hr =>
    refine onlyMoves_chain (Q := fun _ e' => e' = { e with face := e.face.sync })
      (.set ⟨.single (.syncFace e), rfl⟩) ?_
    rintro - _ rfl
    refine onlyMoves_chain (require_moves _ _) ?_
    rintro - _ ⟨hv, rfl⟩
    exact .pure ⟨.refl, .inr ⟨by simp only [DurableFile.sync, DurableFile.settled, hr], hv⟩, rfl⟩

theorem commit_ends (notes : List Note) (r : Record) (o : WriteOutcome) :
    Ends (Store.commit notes r o) d
      (fun _ e => r.validate ⟨r.uid, r.account⟩ = true ∧ e = Store.writeFace d notes r .durable)
      (fun e => e = d ∨ (r.validate ⟨r.uid, r.account⟩ = true ∧
        e = Store.writeFace d notes r .visible)) := by
  unfold Store.commit require
  refine .bind ?_
  split
  · next hv =>
    refine .pure ?_
    cases o with
    | failed => exact .throw (.inl rfl)
    | visible => exact .bind (.modified (.throw (.inr ⟨hv, rfl⟩)))
    | durable => exact .modified ⟨hv, rfl⟩
  · exact .throw (.inl rfl)

theorem commit_moves {notes : List Note} (o : WriteOutcome)
    (h : r.validate ⟨r.uid, r.account⟩ = true →
      ∀ o, o ≠ .failed → Move a now d (Store.writeFace d notes r o)) :
    OnlyMoves a now (Store.commit notes r o) d fun _ e => e.recovery = d.recovery := by
  refine (commit_ends notes r o).mono ?_ ?_
  · rintro - e ⟨hv, rfl⟩
    exact ⟨.single (h hv _ (by decide)), rfl⟩
  · rintro e (rfl | ⟨hv, rfl⟩)
    · exact .refl
    · exact .single (h hv _ (by decide))

theorem commitChanged_moves {r s : Record} (o : WriteOutcome) (hr : Shows a d r)
    (hs : Update policy now r s) :
    OnlyMoves a now (Store.commitChanged r s now o) d fun _ e => e.recovery = d.recovery := by
  unfold Store.commitChanged
  split
  · exact .pure ⟨.refl, rfl⟩
  · exact commit_moves o fun hv o ho => .update hr hs rfl hv ho

theorem check_moves (f : Faults) :
    OnlyMoves a now (Store.check a policy now f) d fun _ _ => True := by
  refine onlyMoves_chain (clocked_moves _) ?_
  rintro - e rfl
  refine onlyMoves_chain (read_moves _) ?_
  rintro r e ⟨hr, -⟩
  refine onlyMoves_chain (ofExcept_moves _) ?_
  rintro s _ ⟨hs, rfl⟩
  refine onlyMoves_chain (ofExcept_moves _) ?_
  rintro t _ ⟨ht, rfl⟩
  refine onlyMoves_chain (commitChanged_moves _ hr (.check hs ht)) ?_
  rintro - e -
  exact .pure ⟨.refl, trivial⟩

theorem begin_moves (f : Faults) :
    OnlyMoves a now (FaceAttempt.begin a policy now f) d fun _ _ => True := by
  refine onlyMoves_chain (check_moves _) ?_
  rintro limited e -
  split
  · exact .pure ⟨.refl, trivial⟩
  · refine onlyMoves_chain (read_moves _) ?_
    rintro r e ⟨hr, -⟩
    split
    · exact .pure ⟨.refl, trivial⟩
    · next s hs =>
      refine .bind ((commit_ends [] s (f.write 1)).mono ?_ ?_)
      · rintro - e ⟨hv, rfl⟩
        exact .bind (.modified (.pure ⟨.single (.admission hr hs hv), trivial⟩))
      · rintro e (rfl | ⟨hv, rfl⟩)
        · exact .refl
        · exact .single (.reserve hr hs hv)

theorem strikeFor_moves (kind : OutcomeKind) (clock : Bool) (hp : r.pending = true) :
    OnlyMoves a now (FaceAttempt.strikeFor kind policy now clock r.settled) d fun s e =>
      Update policy now r s ∧ e = d := by
  unfold FaceAttempt.strikeFor
  split
  · refine onlyMoves_chain (clocked_moves _) ?_
    rintro - _ rfl
    exact (ofExcept_moves _).mono (fun s _ h => ⟨h.1, .strike hp h.2.1, h.2.2⟩) fun _ h => h
  · exact .pure ⟨.refl, .neutral hp, rfl⟩

theorem denied_moves (outcome : Outcome) (f : Faults) :
    OnlyMoves a now (FaceAttempt.denied a policy outcome now f) d fun _ _ => True := by
  refine onlyMoves_chain (require_moves _ _) ?_
  rintro - e ⟨-, rfl⟩
  refine onlyMoves_chain (read_moves _) ?_
  rintro r e ⟨hr, -⟩
  refine onlyMoves_chain (require_moves _ _) ?_
  rintro - _ ⟨hp, rfl⟩
  refine onlyMoves_chain (strikeFor_moves _ _ hp) ?_
  rintro s _ ⟨hs, rfl⟩
  exact (commit_moves _ fun hv o ho => .update hr hs rfl hv ho).mono
    (fun _ _ h => ⟨h.1, trivial⟩) fun _ h => h

theorem delivered_moves (f : Faults) :
    OnlyMoves a now (FaceAttempt.delivered a f) d fun _ _ => True := by
  refine onlyMoves_chain (read_moves _) ?_
  rintro r e ⟨-, -⟩
  refine onlyMoves_chain (require_moves _ _) ?_
  rintro - _ ⟨-, rfl⟩
  exact (commit_moves _ fun _ o ho => .reset ho).mono (fun _ _ h => ⟨h.1, trivial⟩) fun _ h => h

/-! ## The recovery record -/

theorem recovery_read_moves (ok : Bool) :
    OnlyMoves a now (Recovery.read a ok) d fun t e =>
      ShowsRecovery a e t ∧ e.face = d.face := by
  refine onlyMoves_chain (require_moves _ _) ?_
  rintro - e ⟨-, rfl⟩
  refine .bind (.get ?_)
  split
  · next hv =>
    refine onlyMoves_chain (require_moves _ _) ?_
    rintro - _ ⟨-, rfl⟩
    exact .pure ⟨.refl, .inl ⟨hv, rfl⟩, rfl⟩
  · next t ht =>
    refine onlyMoves_chain (Q := fun _ e' => e' = { e with recovery := e.recovery.sync })
      (.set ⟨.single (.syncRecovery e), rfl⟩) ?_
    rintro - _ rfl
    refine onlyMoves_chain (require_moves _ _) ?_
    rintro - _ ⟨hv, rfl⟩
    exact .pure ⟨.refl, .inr ⟨by simp only [DurableFile.sync, DurableFile.settled, ht], hv⟩, rfl⟩

theorem recovery_commit_ends (notes : List Note) (t : Attempts) (o : WriteOutcome) :
    Ends (Recovery.commit a notes t o) d
      (fun _ e => t.validate a = true ∧ e = Recovery.writeRecovery d notes t .durable)
      (fun e => e = d ∨ (t.validate a = true ∧
        e = Recovery.writeRecovery d notes t .visible)) := by
  unfold Recovery.commit require
  refine .bind ?_
  split
  · next hv =>
    refine .pure ?_
    cases o with
    | failed => exact .throw (.inl rfl)
    | visible => exact .bind (.modified (.throw (.inr ⟨hv, rfl⟩)))
    | durable => exact .modified ⟨hv, rfl⟩
  · exact .throw (.inl rfl)

theorem recovery_commit_moves {notes : List Note} (o : WriteOutcome)
    (h : t.validate a = true →
      ∀ o, o ≠ .failed → Move a now d (Recovery.writeRecovery d notes t o)) :
    OnlyMoves a now (Recovery.commit a notes t o) d fun _ e =>
      t.validate a = true ∧ e.recovery = .settled (some t) := by
  refine (recovery_commit_ends notes t o).mono ?_ ?_
  · rintro - e ⟨hv, rfl⟩
    exact ⟨.single (h hv _ (by decide)), hv, rfl⟩
  · rintro e (rfl | ⟨hv, rfl⟩)
    · exact .refl
    · exact .single (h hv _ (by decide))

theorem settleWritten_moves (o : WriteOutcome) (ht : ShowsRecovery a d t) :
    OnlyMoves a now (Recovery.settleWritten a t now o) d fun s e =>
      ShowsRecovery a e s ∧ s.pending = false := by
  refine onlyMoves_chain (ofExcept_moves _) ?_
  rintro ⟨s, changed⟩ _ ⟨hs, rfl⟩
  cases changed with
  | true =>
    refine onlyMoves_chain (recovery_commit_moves o fun hv o ho => .settleRecovery ht hs hv ho) ?_
    rintro - e ⟨hv, he⟩
    exact .pure ⟨.refl, .inr ⟨he, hv⟩, Attempts.settle_pending hs⟩
  | false =>
    obtain rfl : s = t := Attempts.settle_unchanged hs
    exact .pure ⟨.refl, ht, Attempts.settle_pending hs⟩

theorem statusInner_moves (f : Faults) :
    OnlyMoves a now (Recovery.statusInner a policy now f) d fun _ _ => True := by
  refine onlyMoves_chain (read_moves _) ?_
  rintro r e ⟨hr, -⟩
  refine onlyMoves_chain (recovery_read_moves _) ?_
  rintro t e' ⟨ht, he⟩
  refine onlyMoves_chain (clocked_moves _) ?_
  rintro - _ rfl
  refine onlyMoves_chain (ofExcept_moves _) ?_
  rintro s _ ⟨hs, rfl⟩
  refine onlyMoves_chain (commitChanged_moves _ (hr.congr he) (.settle hs)) ?_
  rintro - e he
  refine onlyMoves_chain (settleWritten_moves _ (ht.congr he)) ?_
  rintro t e -
  exact .pure ⟨.refl, trivial⟩

/-- What a charged guess is: the durable write, over a settled record without a delay, of one
failure more. -/
structure Charge (a : Account) (d : Disk) (t : Attempts) : Prop where
  shows : ShowsRecovery a d t
  settled : t.pending = false
  undelayed : t.cooldown = none
  valid : { t with failures := t.failures + 1, pending := true }.validate a = true

def charged (d : Disk) (t : Attempts) : Disk :=
  Recovery.writeRecovery d [] { t with failures := t.failures + 1, pending := true } .durable

theorem Charge.moves (h : Charge a d t) : Moves a now d (charged d t) :=
  .single (.charge h.shows h.settled h.undelayed h.valid (by decide))

theorem reserve_moves (admin : Bool) (f : Faults) :
    Ends (Recovery.reserve a admin now f) d
      (fun b e => (b = true → admin = false →
          ∃ d₁ t, Moves a now d d₁ ∧ Charge a d₁ t ∧ e = charged d₁ t) ∧ Moves a now d e)
      (Moves a now d) := by
  refine .chain_from .refl (read_moves _) ?_
  rintro r e he ⟨-, -⟩
  refine .chain_from he (recovery_read_moves _) ?_
  rintro t e he ⟨ht, -⟩
  split
  · next hadmin => exact .pure ⟨fun _ h => absurd h (by rw [hadmin]; decide), he⟩
  · refine .chain_from he (clocked_moves _) ?_
    rintro - e he rfl
    refine .chain_from he (settleWritten_moves _ ht) ?_
    rintro s e he ⟨hs, hp⟩
    split
    · exact .pure ⟨nofun, he⟩
    · next hc =>
      simp only [Bool.or_eq_true, not_or, Option.not_isSome_iff_eq_none] at hc
      refine .bind ((recovery_commit_ends [] _ (f.write 1)).mono ?_ ?_)
      · rintro - _ ⟨hv, rfl⟩
        have hcharge : Charge a e s := ⟨hs, hp, hc.2, hv⟩
        exact .pure ⟨fun _ _ => ⟨e, s, he, hcharge, rfl⟩, he.trans hcharge.moves⟩
      · rintro _ (rfl | ⟨hv, rfl⟩)
        · exact he
        · exact he.tail (.charge hs hp hc.2 hv (by decide))

theorem complete_moves (active : Nat → Bool) (f : Faults) :
    OnlyMoves a now (Recovery.complete a active f) d fun _ _ => True := by
  refine onlyMoves_chain (.adapted (read_moves _)) ?_
  rintro r e -
  refine onlyMoves_chain (.adapted (recovery_read_moves _)) ?_
  rintro t e -
  refine onlyMoves_chain (require_moves _ _) ?_
  rintro - _ -
  refine onlyMoves_chain (.adapted (commit_moves _ fun _ o ho => .reset ho)) ?_
  rintro - e -
  refine onlyMoves_chain (require_moves _ _) ?_
  rintro - e -
  refine onlyMoves_chain (.adapted (recovery_commit_moves _ fun _ o ho => .empty ho)) ?_
  rintro - e -
  exact (require_moves _ _).mono (fun _ _ h => ⟨h.1, trivial⟩) fun _ h => h

end Irlume.Retry

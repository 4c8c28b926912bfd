import Irlume.Lib.Machine
import Irlume.Retry.Moves

/-!
# One account's retry state over time

The machine every result of this directory is about: one account's files, the clock, and who holds
the account's operation lock. An admitted face attempt holds it until it ends; so does a recovery,
whose reset is taken part by part. Between any two events the process may crash, the power may fail,
and time passes.

A boot has an id of its own, and the clock of one boot runs forward.
-/

namespace Irlume.Retry

open Irlume.Lib

/-- How far a recovery's reset has come. -/
inductive Phase where
  | idle
  /-- The first lock section is done. -/
  | reserved (admin : Bool)
  | verified (ok : Bool)
  deriving DecidableEq

/-- Who holds the account's operation lock. A face attempt keeps the policy it began under. -/
inductive Holder where
  | face (policy : Policy)
  | recovery (phase : Phase)
  deriving DecidableEq

structure World where
  disk : Disk
  now : Tick
  /-- The boots so far, the current one included. -/
  boots : List String
  operation : Option Holder

inductive Event where
  | tick (nanos : Nat)
  | reboot (boot : String) (nanos : Nat) (faceKept recoveryKept : Bool)
  /-- The process dies; the kernel drops its locks. -/
  | crash
  | begin (policy : Policy) (f : Faults)
  | denied (outcome : Outcome) (f : Faults)
  | delivered (f : Faults)
  /-- The attempt is dropped without an outcome. -/
  | drop
  | openRecovery
  | status (policy : Policy) (f : Faults)
  | reserve (admin : Bool) (f : Faults)
  | verify (ok : Bool)
  /-- The reset is refused: the client left, or the password was wrong. -/
  | refuse (policy : Policy) (f : Faults)
  | complete (active : Nat → Bool) (f : Faults)
  | closeRecovery

def Event.isReboot : Event → Bool
  | .reboot .. => true
  | _ => false

namespace World

/-- A daemon starts on the files it finds; `past` are the boots before this one. -/
def start (face : DurableFile Record) (recovery : DurableFile Attempts) (now : Tick)
    (past : List String) : World :=
  { disk := { face, recovery, notes := [] }, now, boots := now.boot :: past, operation := none }

def onDisk (w : World) (d : Disk) : World := { w with disk := d }

def released (w : World) : World := { w with operation := none }

def noted (w : World) (n : Note) : World :=
  { w with disk := { w.disk with notes := n :: w.disk.notes } }

def abandoned (w : World) : World :=
  match w.operation with
  | some (.face _) => (w.noted (.ended .abandoned)).released
  | _ => w.released

variable (a : Account)

/-- What an event does; `none` when it cannot happen in this state. -/
def step (w : World) : Event → Option World
  | .tick nanos =>
    if w.now.nanos ≤ nanos ∧ nanos < 2 ^ 64 then some { w with now := { w.now with nanos } }
    else none
  | .reboot boot nanos faceKept recoveryKept =>
    if validBoot boot ∧ boot ∉ w.boots ∧ nanos < 2 ^ 64 then
      let w := w.abandoned
      some { w with
        disk := { w.disk with
          face := w.disk.face.powerLoss faceKept
          recovery := w.disk.recovery.powerLoss recoveryKept }
        now := { boot, nanos }
        boots := boot :: w.boots }
    else none
  | .crash => some w.abandoned
  | .begin policy f =>
    match w.operation with
    | some _ => some w
    | none =>
      let op := FaceAttempt.begin a policy w.now f
      let w' := w.onDisk (after op w.disk)
      some (if answer op w.disk = some true then { w' with operation := some (.face policy) } else w')
  | .denied outcome f =>
    match w.operation with
    | some (.face policy) =>
      -- The attempt is over whether or not its outcome could be recorded.
      let w' := w.onDisk (after (FaceAttempt.denied a policy outcome w.now f) w.disk)
      some (w'.noted (.ended (if outcome.granted then .abandoned else .denied outcome.kind))).released
    | _ => none
  | .delivered f =>
    match w.operation with
    | some (.face _) => some (w.onDisk (after (FaceAttempt.delivered a f) w.disk)).released
    | _ => none
  | .drop =>
    match w.operation with
    | some (.face _) => some w.abandoned
    | _ => none
  | .openRecovery =>
    if w.operation = none then some { w with operation := some (.recovery .idle) } else none
  | .status policy f =>
    if w.operation = some (.recovery .idle) then
      some (w.onDisk (after (Recovery.statusInner a policy w.now f) w.disk))
    else none
  | .reserve admin f =>
    if w.operation = some (.recovery .idle) then
      let op := Recovery.reserve a admin w.now f
      let w' := w.onDisk (after op w.disk)
      some (if answer op w.disk = some true then
        { w' with operation := some (.recovery (.reserved admin)) } else w')
    else none
  | .verify ok =>
    if w.operation = some (.recovery (.reserved false)) then
      some { w.onDisk (after (Recovery.verifying w.now) w.disk) with
        operation := some (.recovery (.verified ok)) }
    else none
  | .refuse policy f =>
    if w.operation = some (.recovery (.reserved false)) ∨
        w.operation = some (.recovery (.verified false)) then
      some { w.onDisk (after (Recovery.statusInner a policy w.now f) w.disk) with
        operation := some (.recovery .idle) }
    else none
  | .complete active f =>
    if w.operation = some (.recovery (.reserved true)) ∨
        w.operation = some (.recovery (.verified true)) then
      some { w.onDisk (after (Recovery.complete a active f) w.disk) with
        operation := some (.recovery .idle) }
    else none
  | .closeRecovery =>
    match w.operation with
    | some (.recovery _) => some w.released
    | _ => none

/-! ## A reset, part by part -/

variable {a}

variable {policy : Policy}

variable {c : Recovery.Call}

theorem after_refuse (d : Disk) :
    after (Recovery.refuse a policy c) d =
      after (Recovery.statusInner a policy c.settleAt c.settleFaults) d := by
  unfold Recovery.refuse Recovery.orElse
  rw [after_bind, after_adaptExcept]
  split <;> rfl

variable {w : World}

variable {f : Faults}

theorem tick_eq {t : Tick} (hboot : t.boot = w.now.boot) : { w.now with nanos := t.nanos } = t :=
  congrArg (Tick.mk · t.nanos) hboot.symm

theorem run_refuse {t : Tick}
    (ho : w.operation = some (.recovery (.reserved false)) ∨
      w.operation = some (.recovery (.verified false)))
    (hboot : t.boot = w.now.boot) (hn : w.now.nanos ≤ t.nanos) (hlt : t.nanos < 2 ^ 64) :
    run (step a) w [.tick t.nanos, .refuse policy f] =
      some { w with
        disk := after (Recovery.statusInner a policy t f) w.disk
        now := t
        operation := some (.recovery .idle) } := by
  rw [run_cons, step, if_pos ⟨hn, hlt⟩, Option.bind_some, run_cons, step, if_pos ho, tick_eq hboot]
  rfl

theorem step_reserve {admin : Bool} (ho : w.operation = some (.recovery .idle)) :
    w.step a (.reserve admin f) =
      some { w with
        disk := after (Recovery.reserve a admin w.now f) w.disk
        operation := if answer (Recovery.reserve a admin w.now f) w.disk = some true then
          some (.recovery (.reserved admin)) else some (.recovery .idle) } := by
  simp only [step, ho, if_true, onDisk, Option.some.injEq]
  split <;> rfl

theorem run_complete {active : Nat → Bool}
    (ho : w.operation = some (.recovery (.reserved true)) ∨
      w.operation = some (.recovery (.verified true))) :
    run (step a) w [.complete active f] =
      some { w with
        disk := after (Recovery.complete a active f) w.disk
        operation := some (.recovery .idle) } := by
  rw [run_cons, step, if_pos ho]
  rfl

theorem run_verify {ok : Bool} {t : Tick}
    (ho : w.operation = some (.recovery (.reserved false)))
    (hboot : t.boot = w.now.boot) (hn : w.now.nanos ≤ t.nanos) (hlt : t.nanos < 2 ^ 64) :
    run (step a) w [.tick t.nanos, .verify ok] =
      some { w with
        disk := after (Recovery.verifying t) w.disk
        now := t
        operation := some (.recovery (.verified ok)) } := by
  rw [run_cons, step, if_pos ⟨hn, hlt⟩, Option.bind_some, run_cons, step, if_pos ho, tick_eq hboot]
  rfl

/-- The events of `Recovery::reset` once the guess is charged. -/
def proceedEvents (policy : Policy) (c : Recovery.Call) : List Event :=
  let refused := [.tick c.settleAt.nanos, .refuse policy c.settleFaults]
  if c.admin then [.complete c.active c.completeFaults]
  else if c.activeVerify then
    [.tick c.verifyAt.nanos, .verify c.verify] ++
      if c.verify then [.complete c.active c.completeFaults] else refused
  else refused

/-- When the last part of it runs. -/
def proceedsUntil (c : Recovery.Call) : Tick :=
  if c.admin then c.reserveAt else if c.activeVerify && c.verify then c.verifyAt else c.settleAt

/-- The first part of the call lets it go on. -/
def charges (a : Account) (w : World) (c : Recovery.Call) : Bool :=
  c.activeFirst && answer (Recovery.reserve a c.admin c.reserveAt c.reserveFaults) w.disk = some true

/-- **The events of `Recovery::reset`**, at the call's own times and with its own faults. -/
def resetEvents (a : Account) (w : World) (policy : Policy) (c : Recovery.Call) : List Event :=
  if c.activeFirst then
    .reserve c.admin c.reserveFaults :: if charges a w c then proceedEvents policy c else []
  else []

/-- The parts of the call run in the boot of `w`, the first one now. -/
structure Timed (w : World) (c : Recovery.Call) : Prop where
  reserveAt : c.reserveAt = w.now
  verifyAt : c.verifyAt.boot = w.now.boot
  settleAt : c.settleAt.boot = w.now.boot
  le_verify : w.now.nanos ≤ c.verifyAt.nanos
  verify_le : c.verifyAt.nanos ≤ c.settleAt.nanos
  settle_lt : c.settleAt.nanos < 2 ^ 64

theorem proceed_run (ho : w.operation = some (.recovery (.reserved c.admin))) (ht : Timed w c) :
    run (step a) w (proceedEvents policy c) =
      some { w with
        disk := after (Recovery.proceed a policy c) w.disk
        now := proceedsUntil c
        operation := some (.recovery .idle) } := by
  obtain ⟨hreserve, hverify, hsettle, hle, hle', hlt⟩ := ht
  unfold proceedEvents Recovery.proceed proceedsUntil
  cases hadmin : c.admin with
  | true =>
    rw [hadmin] at ho
    exact (run_complete (.inl ho)).trans (by rw [hreserve]; rfl)
  | false =>
    rw [hadmin] at ho
    cases hactive : c.activeVerify with
    | false =>
      refine (run_refuse (.inl ho) hsettle (by omega) hlt).trans ?_
      rw [← after_refuse]
      rfl
    | true =>
      have hrun : ∀ ok, run (step a) w [.tick c.verifyAt.nanos, .verify ok] = _ := fun ok =>
        run_verify ho hverify hle (by omega)
      have hafter : ∀ rest : EStateM Recovery.Refusal Disk Unit,
          after (Recovery.orElse (Recovery.verifying c.verifyAt) .unavailable >>= fun _ => rest) w.disk =
            after rest (after (Recovery.verifying c.verifyAt) w.disk) := fun rest => by
        rw [Recovery.orElse, after_bind, after_adaptExcept, answer_adaptExcept]
        rfl
      cases hok : c.verify with
      | true =>
        refine (run_append_some.2 ⟨_, hrun true, run_complete (.inr rfl)⟩).trans ?_
        rw [← hafter]
        rfl
      | false =>
        refine (run_append_some.2 ⟨_, hrun false, run_refuse (.inr rfl) (hsettle.trans hverify.symm) hle' hlt⟩).trans ?_
        rw [← after_refuse, ← hafter]
        rfl

/-- **A call of `Recovery::reset` is a run of the machine**: the events of its parts leave the disk that the call
leaves, the clock where its last part ran, and the recovery idle. -/
theorem reset_run (ho : w.operation = some (.recovery .idle)) (ht : Timed w c) :
    run (step a) w (resetEvents a w policy c) =
      some { w with
        disk := after (Recovery.reset a policy c) w.disk
        now := if charges a w c then proceedsUntil c else w.now } := by
  obtain ⟨disk, now, boots, operation⟩ := w
  obtain rfl : operation = some (.recovery .idle) := ho
  let w : World := ⟨disk, now, boots, some (.recovery .idle)⟩
  unfold resetEvents charges Recovery.reset Recovery.orElse
  rw [after_bind, ht.reserveAt]
  cases c.activeFirst with
  | false => rfl
  | true =>
    change _ = some { w with disk := after (EStateM.adaptExcept _ _ >>= _) w.disk, now := _ }
    rw [after_bind, after_adaptExcept, answer_adaptExcept, if_pos rfl, run_cons, step_reserve rfl, Option.bind_some]
    change run _ { w with disk := after (Recovery.reserve a c.admin w.now c.reserveFaults) w.disk, operation := _ } _ = _
    cases hcharged : answer (Recovery.reserve a c.admin w.now c.reserveFaults) w.disk with
    | none => rfl
    | some charged =>
      cases charged with
      | false => rfl
      | true =>
        exact proceed_run (w := { w with
          disk := after (Recovery.reserve a c.admin w.now c.reserveFaults) w.disk
          operation := some (.recovery (.reserved c.admin)) }) rfl
          ⟨ht.reserveAt, ht.verifyAt, ht.settleAt, ht.le_verify, ht.verify_le, ht.settle_lt⟩

end World

def alice : Account := ⟨1000, "alice"⟩

def defaultPolicy : Policy := (Policy.parse "5" "30").1

def bootA : String := "01234567-89ab-cdef-0123-456789abcdef"

namespace World

/-- A wrong password, on an account with no records. -/
def wrongGuess : Recovery.Call :=
  ⟨false, true, true, fun _ => true, false, ⟨bootA, 0⟩, ⟨bootA, 1⟩, ⟨bootA, 2⟩, .none, .none, .none⟩

theorem reset_run_wrongGuess :
    let w := { World.start ⟨none, none⟩ ⟨none, none⟩ ⟨bootA, 0⟩ [] with operation := some (.recovery .idle) }
    run (step alice) w [.reserve false .none, .tick 1, .verify false, .tick 2, .refuse defaultPolicy .none] =
      some { w with
        disk := after (Recovery.reset alice defaultPolicy wrongGuess) w.disk
        now := ⟨bootA, 2⟩ } := by
  intro w
  have hcharges : charges alice w wrongGuess = true := by decide +kernel
  have hrun : run (step alice) w (resetEvents alice w defaultPolicy wrongGuess) = _ :=
    reset_run rfl ⟨rfl, rfl, rfl, by decide, by decide, by decide⟩
  rw [resetEvents, hcharges] at hrun
  exact hrun

variable {a : Account} {w : World}

/-! ## What a step can do -/

/-- The step changed the disk by moves at the current tick, and by at most a note that an attempt
ended. The holder it leaves has no guess charged to it. -/
structure Moved (a : Account) (w w' : World) : Prop where
  disk : ∃ d, Moves a w.now w.disk d ∧
    (w'.disk = d ∨ ∃ e, w'.disk = { d with notes := .ended e :: d.notes })
  now : w'.now = w.now
  boots : w'.boots = w.boots
  holder : w'.operation ≠ some (.recovery (.reserved false))

/-- Every step is one of these. -/
inductive Acts (a : Account) (w : World) : Event → World → Prop
  | tick {nanos : Nat} (hn : w.now.nanos ≤ nanos) (hlt : nanos < 2 ^ 64) :
    Acts a w (.tick nanos) { w with now := { w.now with nanos } }
  | reboot {boot : String} {nanos : Nat} {notes : List Note} (faceKept recoveryKept : Bool)
      (hv : validBoot boot = true) (hb : boot ∉ w.boots)
      (hn : notes = w.disk.notes ∨ ∃ e, notes = .ended e :: w.disk.notes) :
      Acts a w (.reboot boot nanos faceKept recoveryKept) {
        disk := ⟨w.disk.face.powerLoss faceKept, w.disk.recovery.powerLoss recoveryKept, notes⟩
        now := ⟨boot, nanos⟩
        boots := boot :: w.boots
        operation := none }
  | moved {e : Event} {w' : World} (h : Moved a w w') : Acts a w e w'
  | refused {e : Event} : Acts a w e w
  | charged {e : Event} {d : Disk} {t : Attempts} (hd : Moves a w.now w.disk d)
      (ht : Charge a d t) :
      Acts a w e { w with disk := charged d t, operation := some (.recovery (.reserved false)) }
  | verify (ok : Bool) (ho : w.operation = some (.recovery (.reserved false))) :
    Acts a w (.verify ok) { w.onDisk (after (Recovery.verifying w.now) w.disk) with
      operation := some (.recovery (.verified ok)) }

theorem abandoned_eq (w : World) :
    w.abandoned = w.released ∨ w.abandoned = (w.noted (.ended .abandoned)).released := by
  unfold abandoned
  split
  · exact .inr rfl
  · exact .inl rfl

theorem Moved.of_abandoned (w : World) : Moved a w w.abandoned := by
  obtain h | h := abandoned_eq w <;> rw [h]
  · exact ⟨⟨_, .refl, .inl rfl⟩, rfl, rfl, nofun⟩
  · exact ⟨⟨_, .refl, .inr ⟨_, rfl⟩⟩, rfl, rfl, nofun⟩

theorem Moved.of_moves {d : Disk} (h : Moves a w.now w.disk d) {op : Option Holder}
    (hop : op ≠ some (.recovery (.reserved false))) :
    Moved a w { w.onDisk d with operation := op } :=
  ⟨⟨_, h, .inl rfl⟩, rfl, rfl, hop⟩

theorem OnlyMoves.after {ε α : Type} {now : Tick} {x : EStateM ε Disk α} {Q : α → Disk → Prop}
    {d : Disk} (h : OnlyMoves a now x d Q) : Moves a now d (after x d) :=
  h.after_of fun _ _ h => h.1

theorem step_acts {w w' : World} {e : Event} (h : w.step a e = some w') : Acts a w e w' := by
  cases e with
  | tick nanos =>
    simp only [step, Option.ite_none_right_eq_some, Option.some.injEq] at h
    obtain ⟨⟨hn, hlt⟩, rfl⟩ := h
    exact .tick hn hlt
  | reboot boot nanos faceKept recoveryKept =>
    simp only [step, Option.ite_none_right_eq_some, Option.some.injEq] at h
    obtain ⟨⟨hv, hb, -⟩, rfl⟩ := h
    obtain hw | hw := abandoned_eq w <;> rw [hw]
    · exact .reboot faceKept recoveryKept hv hb (.inl rfl)
    · exact .reboot faceKept recoveryKept hv hb (.inr ⟨_, rfl⟩)
  | crash =>
    cases h
    exact .moved (.of_abandoned w)
  | begin policy f =>
    simp only [step] at h
    split at h
    · cases h
      exact .refused
    · next ho =>
      cases h
      split
      · exact .moved (.of_moves (OnlyMoves.after (begin_moves f)) nofun)
      · exact .moved (.of_moves (OnlyMoves.after (begin_moves f)) (by rw [ho]; nofun))
  | denied outcome f =>
    simp only [step] at h
    split at h
    · cases h
      exact .moved ⟨⟨_, OnlyMoves.after (denied_moves outcome f), .inr ⟨_, rfl⟩⟩,
        rfl, rfl, nofun⟩
    · cases h
  | delivered f =>
    simp only [step] at h
    split at h
    · cases h
      exact .moved (.of_moves (OnlyMoves.after (delivered_moves f)) nofun)
    · cases h
  | drop =>
    simp only [step] at h
    split at h
    · cases h
      exact .moved (.of_abandoned w)
    · cases h
  | openRecovery =>
    simp only [step, Option.ite_none_right_eq_some, Option.some.injEq] at h
    obtain ⟨-, rfl⟩ := h
    exact .moved ⟨⟨_, .refl, .inl rfl⟩, rfl, rfl, nofun⟩
  | status policy f =>
    simp only [step, Option.ite_none_right_eq_some, Option.some.injEq] at h
    obtain ⟨ho, rfl⟩ := h
    exact .moved (.of_moves (OnlyMoves.after (statusInner_moves f)) (by rw [ho]; nofun))
  | reserve admin f =>
    simp only [step, Option.ite_none_right_eq_some, Option.some.injEq] at h
    obtain ⟨ho, rfl⟩ := h
    split
    · next hb =>
      cases admin with
      | true => exact .moved (.of_moves ((reserve_moves true f).after_of fun _ _ h => h.2) nofun)
      | false =>
        obtain ⟨d, t, hd, ht, he⟩ := ((reserve_moves false f).of_answer hb).1 rfl rfl
        rw [he]
        exact .charged hd ht
    · exact .moved (.of_moves ((reserve_moves admin f).after_of fun _ _ h => h.2)
        (by rw [ho]; nofun))
  | verify ok =>
    simp only [step, Option.ite_none_right_eq_some, Option.some.injEq] at h
    obtain ⟨ho, rfl⟩ := h
    exact .verify ok ho
  | refuse policy f =>
    simp only [step, Option.ite_none_right_eq_some, Option.some.injEq] at h
    obtain ⟨-, rfl⟩ := h
    exact .moved (.of_moves (OnlyMoves.after (statusInner_moves f)) nofun)
  | complete active f =>
    simp only [step, Option.ite_none_right_eq_some, Option.some.injEq] at h
    obtain ⟨-, rfl⟩ := h
    exact .moved (.of_moves (OnlyMoves.after (complete_moves active f)) nofun)
  | closeRecovery =>
    simp only [step] at h
    split at h
    · cases h
      exact .moved ⟨⟨_, .refl, .inl rfl⟩, rfl, rfl, nofun⟩
    · cases h

end World

end Irlume.Retry

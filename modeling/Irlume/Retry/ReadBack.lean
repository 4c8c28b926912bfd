import Irlume.Retry.Cooldown

/-!
# What the store writes reads back

A commit refuses a record that fails its own check, which to the account is a refusal as well. For an account
whose name a record may hold no operation ever makes such a commit: an operation does the same with any two ways
to commit that agree on valid records (`Commits.Agree`).
-/

namespace Irlume.Retry

open Irlume.Lib Relation

/-! ## The operations with their commits as a parameter -/

/-- The two `commit`s, of the face record and of the recovery record. -/
structure Commits where
  face : List Note → Record → WriteOutcome → Io Unit
  recovery : List Note → Attempts → WriteOutcome → Io Unit

namespace Commits

def source (a : Account) : Commits := ⟨Store.commit, Recovery.commit a⟩

/-- The store's own, but a face record is written whatever it holds. -/
def unchecked (a : Account) : Commits :=
  { source a with face := fun notes r _ => modify fun d => Store.writeFace d notes r .durable }

section

variable (c : Commits)

def commitChanged (before record : Record) (now : Tick) (o : WriteOutcome) : Io Unit :=
  if record = before then pure () else c.face (Store.cooldownNotes before record now) record o

def check (a : Account) (policy : Policy) (now : Tick) (f : Faults) : Io Bool := do
  clocked now f.clock
  let before ← Store.read a (f.read 0)
  let record ← ofExcept (before.settleAbandoned policy now)
  let record ← ofExcept (record.refreshCooldown policy now)
  c.commitChanged before record now (f.write 0)
  return record.limited now

def begin (a : Account) (policy : Policy) (now : Tick) (f : Faults) : Io Bool := do
  let limited ← c.check a policy now f
  if limited then return false else
  let record ← Store.read a (f.read 1)
  match FaceAttempt.reserve record with
  | none => return false
  | some record =>
    c.face [] record (f.write 1)
    note .admitted
    return true

def denied (a : Account) (policy : Policy) (outcome : Outcome) (now : Tick) (f : Faults) : Io Unit := do
  require (!outcome.granted) .invalid
  let before ← Store.read a (f.read 0)
  require before.pending .invalid
  let record ← FaceAttempt.strikeFor outcome.kind policy now f.clock before.settled
  c.face (Store.cooldownNotes before record now) record (f.write 0)

def delivered (a : Account) (f : Faults) : Io Unit := do
  let record ← Store.read a (f.read 0)
  require record.pending .invalid
  c.face [.reset] (Record.reset a) (f.write 0)

def settleWritten (t : Attempts) (now : Tick) (o : WriteOutcome) : Io Attempts := do
  let s ← ofExcept (t.settle now)
  if s.2 then
    c.recovery (Recovery.delayNotes t s.1 now) s.1 o
    return s.1
  else return s.1

def statusInner (a : Account) (policy : Policy) (now : Tick) (f : Faults) : Io Recovery.Status := do
  let before ← Store.read a (f.read 0)
  let recovery ← Recovery.read a (f.read 1)
  clocked now f.clock
  let face ← ofExcept (before.settleAbandoned policy now)
  c.commitChanged before face now (f.write 0)
  let recovery ← c.settleWritten recovery now (f.write 1)
  return {
    unsuccessfulRequests := face.budget.map (·.unsuccessfulRequests)
    limit := faceLimit
    resetRequired := face.budget.any fun b => b.unsuccessfulRequests ≥ faceLimit
    failures := face.strikes
    cooldownSeconds := Recovery.remaining now face.cooldown
    recoveryFailures := recovery.failures
    recoveryCooldownSeconds := Recovery.remaining now recovery.cooldown
    recoveryRequired := recovery.failures ≥ recoveryLimit }

def reserve (a : Account) (admin : Bool) (now : Tick) (f : Faults) : Io Bool := do
  let _ ← Store.read a (f.read 0)
  let t ← Recovery.read a (f.read 1)
  if admin then return true else
  clocked now f.clock
  let t ← c.settleWritten t now (f.write 0)
  if t.failures ≥ recoveryLimit || t.cooldown.isSome then return false else
  c.recovery [] { t with failures := t.failures + 1, pending := true } (f.write 1)
  return true

def complete (a : Account) (active : Nat → Bool) (f : Faults) : EStateM Recovery.Refusal Disk Unit := do
  let _ ← Recovery.orElse (Store.read a (f.read 0)) .unavailable
  let _ ← Recovery.orElse (Recovery.read a (f.read 1)) .unavailable
  require (active 0) .refused
  Recovery.orElse (c.face [.reset] (Record.reset a) (f.write 0)) .unconfirmed
  require (active 1) .unconfirmed
  Recovery.orElse (c.recovery [.emptied] (Attempts.empty a) (f.write 1)) .unconfirmed
  require (active 2) .unconfirmed

end

/-- They do the same with every valid record. -/
structure Agree (a : Account) (c c' : Commits) : Prop where
  face : ∀ notes (r : Record) o, r.validate a = true → c.face notes r o = c'.face notes r o
  recovery : ∀ notes (t : Attempts) o, t.validate a = true →
    c.recovery notes t o = c'.recovery notes t o

/-- Every operation does the same with them. -/
structure Same (a : Account) (c c' : Commits) : Prop where
  check : ∀ policy now f, c.check a policy now f = c'.check a policy now f
  begin : ∀ policy now f, c.begin a policy now f = c'.begin a policy now f
  denied : ∀ policy outcome now f, c.denied a policy outcome now f = c'.denied a policy outcome now f
  delivered : ∀ f, c.delivered a f = c'.delivered a f
  status : ∀ policy now f, c.statusInner a policy now f = c'.statusInner a policy now f
  reserve : ∀ admin now f, c.reserve a admin now f = c'.reserve a admin now f
  complete : ∀ active f, c.complete a active f = c'.complete a active f

theorem source_operations (a : Account) :
    (source a).check a = Store.check a ∧ (source a).begin a = FaceAttempt.begin a ∧
      (source a).denied a = FaceAttempt.denied a ∧ (source a).delivered a = FaceAttempt.delivered a ∧
      (source a).statusInner a = Recovery.statusInner a ∧ (source a).reserve a = Recovery.reserve a ∧
      (source a).complete a = Recovery.complete a :=
  ⟨rfl, rfl, rfl, rfl, rfl, rfl, rfl⟩

end Commits

/-! ## What the operations read is valid -/

theorem bind_congr_ends {ε σ α β : Type} {x : EStateM ε σ α} {f g : α → EStateM ε σ β}
    {Q : α → Prop} (hx : ∀ s, Ends x s (fun b _ => Q b) (fun _ => True)) (hfg : ∀ b, Q b → f b = g b) :
    x >>= f = x >>= g := by
  funext s
  change EStateM.bind x f s = EStateM.bind x g s
  have hends := hx s
  unfold Ends EStateM.run at hends
  unfold EStateM.bind
  cases hs : x s with
  | ok b t =>
    rw [hs] at hends
    simp only [hfg b hends]
  | error e t => rfl

theorem ends_any {ε σ α : Type} (x : EStateM ε σ α) (s : σ) :
    Ends x s (fun _ _ => True) (fun _ => True) := by
  unfold Ends
  split <;> trivial

section Reads

variable {a : Account} {policy : Policy} {now : Tick} {d : Disk}

theorem validate_reset (h : (Record.empty a).validate a = true) :
    (Record.reset a).validate a = true :=
  Record.validate_of h rfl rfl rfl rfl rfl

theorem Attempts.validate_empty (a : Account) : (Attempts.empty a).validate a = true := by
  simp [Attempts.validate, Attempts.empty]

theorem Shows.valid (hname : (Record.empty a).validate a = true) {r : Record} (h : Shows a d r) :
    r.validate a = true := by
  obtain ⟨-, rfl⟩ | ⟨-, hv⟩ := h
  · exact hname
  · exact hv

theorem ShowsRecovery.valid {t : Attempts} (h : ShowsRecovery a d t) : t.validate a = true := by
  obtain ⟨-, rfl⟩ | ⟨-, hv⟩ := h
  · exact Attempts.validate_empty a
  · exact hv

theorem read_valid (hname : (Record.empty a).validate a = true) (ok : Bool) :
    Ends (Store.read a ok) d (fun r _ => r.validate a = true) (fun _ => True) := by
  have hread : OnlyMoves a ⟨"", 0⟩ (Store.read a ok) d _ := read_moves ok
  exact hread.mono (fun _ _ h => h.2.1.valid hname) fun _ _ => trivial

theorem recovery_read_valid (ok : Bool) :
    Ends (Recovery.read a ok) d (fun t _ => t.validate a = true) (fun _ => True) := by
  have hread : OnlyMoves a ⟨"", 0⟩ (Recovery.read a ok) d _ := recovery_read_moves ok
  exact hread.mono (fun _ _ h => h.2.1.valid) fun _ _ => trivial

theorem ofExcept_ends {α : Type} (x : Except Failure α) :
    Ends (ofExcept x) d (fun b _ => x = .ok b) (fun _ => True) := by
  cases x with
  | ok b => exact .pure rfl
  | error e => exact .throw trivial

theorem require_ends {ε : Type} (c : Bool) (e : ε) :
    Ends (require c e) d (fun _ _ => c = true) (fun _ => True) := by
  unfold require
  split
  · next hc => exact .pure hc
  · exact .throw trivial

theorem clocked_ends (ok : Bool) :
    Ends (clocked now ok) d (fun _ _ => validBoot now.boot = true) (fun _ => True) :=
  .bind ((require_ends ok _).mono (fun _ _ _ => require_ends _ _) fun _ _ => trivial)

theorem strikeFor_ends (kind : OutcomeKind) (clock : Bool) {r : Record} (hr : r.validate a = true) :
    Ends (FaceAttempt.strikeFor kind policy now clock r) d (fun s _ => s.validate a = true)
      (fun _ => True) := by
  unfold FaceAttempt.strikeFor
  split
  · refine .bind ((clocked_ends clock).mono ?_ fun _ _ => trivial)
    intro _ _ hb
    exact (ofExcept_ends _).mono (fun s _ hs => Record.validate_strike hr hb hs) fun _ _ => trivial
  · exact .pure hr

theorem Attempts.validate_settle {t s : Attempts} {changed : Bool} (h : t.validate a = true)
    (hb : validBoot now.boot = true) (hs : t.settle now = .ok (s, changed)) : s.validate a = true := by
  obtain ⟨-, -, ⟨hf, -, rfl⟩ | ⟨-, rfl⟩⟩ | ⟨-, -, c, -, -, -, rfl⟩ | ⟨-, -, rfl, -⟩ :=
    Attempts.settle_ok hs
  · simp only [Attempts.validate, Attempts.delayed, Bool.and_eq_true] at h ⊢
    refine ⟨⟨h.1.1, rfl⟩, ?_⟩
    simp [hb, hf]
  · simp only [Attempts.validate, Bool.and_eq_true] at h ⊢
    exact ⟨⟨h.1.1, rfl⟩, h.2⟩
  · simp only [Attempts.validate, Bool.and_eq_true] at h ⊢
    exact ⟨h.1, rfl⟩
  · exact h

theorem Attempts.validate_charge {t : Attempts} (h : t.validate a = true)
    (hlt : t.failures < recoveryLimit) (hc : t.cooldown = none) :
    { t with failures := t.failures + 1, pending := true }.validate a = true := by
  have hle : t.failures + 1 ≤ recoveryLimit := hlt
  simp only [Attempts.validate, Bool.and_eq_true, decide_eq_true_eq] at h ⊢
  exact ⟨⟨⟨h.1.1.1, hle⟩, by simp⟩, by simp [hc]⟩

end Reads

/-! ## Only valid records are committed -/

namespace Commits

variable {a : Account} {c c' : Commits}

section

variable (h : Agree a c c')

include h

theorem Agree.commitChanged {r s : Record} (hs : s.validate a = true) (now : Tick)
    (o : WriteOutcome) : c.commitChanged r s now o = c'.commitChanged r s now o := by
  unfold Commits.commitChanged
  rw [h.face _ s _ hs]

variable (hname : (Record.empty a).validate a = true)

include hname

theorem Agree.check (policy : Policy)
    (now : Tick) (f : Faults) : c.check a policy now f = c'.check a policy now f := by
  refine bind_congr_ends (fun d => clocked_ends f.clock) fun _ hb => ?_
  refine bind_congr_ends (fun d => read_valid hname _) fun r hr => ?_
  refine bind_congr_ends (fun d => ofExcept_ends _) fun s hs => ?_
  refine bind_congr_ends (fun d => ofExcept_ends _) fun t ht => ?_
  have hvalid := Record.validate_refreshCooldown (Record.validate_settleAbandoned hr hb hs) hb ht
  rw [h.commitChanged hvalid]

theorem Agree.begin (policy : Policy)
    (now : Tick) (f : Faults) : c.begin a policy now f = c'.begin a policy now f := by
  unfold Commits.begin
  rw [h.check hname]
  refine bind_congr_ends (fun d => ends_any _ d) fun limited _ => ?_
  split
  · rfl
  refine bind_congr_ends (fun d => read_valid hname _) fun r hr => ?_
  cases hs : FaceAttempt.reserve r with
  | none => rfl
  | some s =>
    dsimp only
    rw [h.face _ s _ (reserve_valid hr hs)]

theorem Agree.denied (policy : Policy)
    (outcome : Outcome) (now : Tick) (f : Faults) :
    c.denied a policy outcome now f = c'.denied a policy outcome now f := by
  refine bind_congr_ends (fun d => ends_any _ d) fun _ _ => ?_
  refine bind_congr_ends (fun d => read_valid hname _) fun r hr => ?_
  refine bind_congr_ends (fun d => ends_any _ d) fun _ _ => ?_
  refine bind_congr_ends (fun d => strikeFor_ends _ _ (Record.validate_settled hr)) fun s hs => ?_
  exact h.face _ s _ hs

theorem Agree.delivered (f : Faults) :
    c.delivered a f = c'.delivered a f := by
  refine bind_congr_ends (fun d => ends_any _ d) fun _ _ => ?_
  refine bind_congr_ends (fun d => ends_any _ d) fun _ _ => ?_
  exact h.face _ _ _ (validate_reset hname)

end

theorem settleWritten_valid {t : Attempts} {now : Tick} {d : Disk} (o : WriteOutcome)
    (ht : t.validate a = true) (hb : validBoot now.boot = true) :
    Ends (c.settleWritten t now o) d (fun s _ => s.validate a = true) (fun _ => True) := by
  refine .bind ((ofExcept_ends _).mono ?_ fun _ _ => trivial)
  rintro ⟨s, changed⟩ e hs
  have hvalid := Attempts.validate_settle ht hb hs
  cases changed with
  | true => exact .bind ((ends_any _ e).mono (fun _ _ _ => .pure hvalid) fun _ _ => trivial)
  | false => exact .pure hvalid

variable (h : Agree a c c')

include h

theorem Agree.settleWritten {t : Attempts} {now : Tick} (o : WriteOutcome)
    (ht : t.validate a = true) (hb : validBoot now.boot = true) :
    c.settleWritten t now o = c'.settleWritten t now o := by
  refine bind_congr_ends (fun d => ofExcept_ends _) ?_
  rintro ⟨s, changed⟩ hs
  rw [h.recovery _ s _ (Attempts.validate_settle ht hb hs)]

theorem Agree.status (hname : (Record.empty a).validate a = true) (policy : Policy)
    (now : Tick) (f : Faults) : c.statusInner a policy now f = c'.statusInner a policy now f := by
  refine bind_congr_ends (fun d => read_valid hname _) fun r hr => ?_
  refine bind_congr_ends (fun d => recovery_read_valid _) fun t ht => ?_
  refine bind_congr_ends (fun d => clocked_ends f.clock) fun _ hb => ?_
  refine bind_congr_ends (fun d => ofExcept_ends _) fun s hs => ?_
  rw [h.commitChanged (Record.validate_settleAbandoned hr hb hs), h.settleWritten _ ht hb]

theorem Agree.reserve (admin : Bool) (now : Tick) (f : Faults) :
    c.reserve a admin now f = c'.reserve a admin now f := by
  refine bind_congr_ends (fun d => ends_any _ d) fun _ _ => ?_
  refine bind_congr_ends (fun d => recovery_read_valid _) fun t ht => ?_
  split
  · rfl
  refine bind_congr_ends (fun d => clocked_ends f.clock) fun _ hb => ?_
  rw [h.settleWritten _ ht hb]
  refine bind_congr_ends (fun d => settleWritten_valid _ ht hb) fun s hs => ?_
  split
  · rfl
  · next hroom =>
    simp only [Bool.or_eq_true, decide_eq_true_eq, not_or, Nat.not_le,
      Option.not_isSome_iff_eq_none] at hroom
    rw [h.recovery _ _ _ (Attempts.validate_charge hs hroom.1 hroom.2)]

theorem Agree.complete (hname : (Record.empty a).validate a = true)
    (active : Nat → Bool) (f : Faults) : c.complete a active f = c'.complete a active f := by
  unfold Commits.complete
  rw [h.face _ _ _ (validate_reset hname), h.recovery _ _ _ (Attempts.validate_empty a)]

theorem Agree.same (hname : (Record.empty a).validate a = true) : Same a c c' where
  check := h.check hname
  begin := h.begin hname
  denied := h.denied hname
  delivered := h.delivered hname
  status := h.status hname
  reserve := h.reserve
  complete := h.complete hname

end Commits

/-! ## The files over a run -/

def Accepts {α : Type} (check : α → Bool) (content : Option α) : Prop :=
  ∀ r, content = some r → check r = true

/-- Both views of both files hold what the next read takes. -/
structure Legible (a : Account) (d : Disk) : Prop where
  face : d.face.Both (Accepts (·.validate a))
  recovery : d.recovery.Both (Accepts (·.validate a))

section Files

variable {a : Account} {now : Tick} {d d' : Disk}

theorem accepts_some {α : Type} {check : α → Bool} {r : α} (h : check r = true) :
    Accepts check (some r) := by
  rintro _ ⟨⟩
  exact h

variable {r s : Record} {policy : Policy}

theorem Record.strike_account (h : r.strike policy now = .ok s) :
    s.uid = r.uid ∧ s.account = r.account := by
  obtain ⟨-, rfl⟩ | ⟨-, -, rfl⟩ | ⟨-, -, -, rfl⟩ := Record.strike_ok h <;> exact ⟨rfl, rfl⟩

theorem Record.settleAbandoned_account
    (h : r.settleAbandoned policy now = .ok s) : s.uid = r.uid ∧ s.account = r.account := by
  obtain ⟨-, rfl⟩ | ⟨-, h⟩ := Record.settleAbandoned_ok h
  · exact ⟨rfl, rfl⟩
  · have hstrike := Record.strike_account h
    exact hstrike

theorem Record.refreshCooldown_account
    (h : r.refreshCooldown policy now = .ok s) : s.uid = r.uid ∧ s.account = r.account := by
  obtain ⟨c, -, -, -, rfl⟩ | ⟨c, -, -, -, rfl⟩ | ⟨c, -, -, -, rfl⟩ | ⟨-, -, -, rfl⟩ |
    ⟨-, -, rfl⟩ := Record.refreshCooldown_ok h <;> exact ⟨rfl, rfl⟩

theorem Update.account (h : Update policy now r s) :
    s.uid = r.uid ∧ s.account = r.account := by
  cases h with
  | check hs ht =>
    obtain ⟨huid, haccount⟩ := Record.refreshCooldown_account ht
    obtain ⟨huid', haccount'⟩ := Record.settleAbandoned_account hs
    exact ⟨huid.trans huid', haccount.trans haccount'⟩
  | settle hs => exact Record.settleAbandoned_account hs
  | neutral hp => exact ⟨rfl, rfl⟩
  | strike hp hs =>
    have hstrike := Record.strike_account hs
    exact hstrike

theorem reserve_account (h : FaceAttempt.reserve r = some s) :
    s.uid = r.uid ∧ s.account = r.account := by
  unfold FaceAttempt.reserve at h
  cases hb : r.budget with
  | none =>
    simp only [hb, Option.isNone_none, if_true, Record.initializeBudget] at h
    cases h
    exact ⟨rfl, rfl⟩
  | some b =>
    simp only [hb, Option.isNone_some, Bool.false_eq_true, if_false] at h
    split at h
    · cases h
    · cases h
      exact ⟨rfl, rfl⟩

theorem Shows.account {r : Record} (h : Shows a d r) : r.uid = a.uid ∧ r.account = a.name := by
  obtain ⟨-, rfl⟩ | ⟨-, hv⟩ := h
  · exact ⟨rfl, rfl⟩
  · obtain rfl := Record.account_of_validate hv
    exact ⟨rfl, rfl⟩

theorem Shows.valid_of (h : Shows a d r)
    (hs : s.uid = r.uid ∧ s.account = r.account)
    (hv : s.validate ⟨s.uid, s.account⟩ = true) : s.validate a = true := by
  obtain ⟨huid, haccount⟩ := h.account
  rw [hs.1, hs.2, huid, haccount] at hv
  exact hv

theorem Legible.move (h : Legible a d) (hname : (Record.empty a).validate a = true)
    (hm : Move a now d d') : Legible a d' := by
  obtain ⟨hface, hrecovery⟩ := h
  cases hm with
  | syncFace => exact ⟨hface.sync, hrecovery⟩
  | syncRecovery => exact ⟨hface, hrecovery.sync⟩
  | update hr hs hn hv ho =>
    exact ⟨hface.write _ (accepts_some (hr.valid_of hs.account hv)), hrecovery⟩
  | reserve hr hs hv =>
    exact ⟨hface.write _ (accepts_some (hr.valid_of (reserve_account hs) hv)), hrecovery⟩
  | admission hr hs hv =>
    exact ⟨hface.write _ (accepts_some (hr.valid_of (reserve_account hs) hv)), hrecovery⟩
  | reset ho => exact ⟨hface.write _ (accepts_some (validate_reset hname)), hrecovery⟩
  | settleRecovery ht hs hv ho => exact ⟨hface, hrecovery.write _ (accepts_some hv)⟩
  | charge ht hp hc hv ho => exact ⟨hface, hrecovery.write _ (accepts_some hv)⟩
  | empty ho =>
    exact ⟨hface, hrecovery.write _ (accepts_some (Attempts.validate_empty a))⟩

theorem Legible.moves (h : Legible a d) (hname : (Record.empty a).validate a = true)
    (hm : Moves a now d d') : Legible a d' := by
  induction hm with
  | refl => exact h
  | tail _ hm ih => exact ih.move hname hm

theorem Legible.step {w w' : World} {e : Event} (hname : (Record.empty a).validate a = true)
    (h : Legible a w.disk) (hs : w.step a e = some w') : Legible a w'.disk := by
  cases World.step_acts hs with
  | tick => exact h
  | reboot faceKept recoveryKept _ _ hn =>
    exact ⟨h.face.powerLoss faceKept, h.recovery.powerLoss recoveryKept⟩
  | moved hm =>
    obtain ⟨d, hd, he | ⟨e, he⟩⟩ := hm.disk <;> rw [he]
    · exact h.moves hname hd
    · have hmoved := h.moves hname hd
      exact ⟨hmoved.face, hmoved.recovery⟩
  | refused => exact h
  | charged hd ht => exact h.moves hname (hd.trans ht.moves)
  | verify => exact ⟨h.face, h.recovery⟩

theorem Legible.read (h : Legible a d) : ∃ r, answer (Store.read a true) d = some r := by
  have hends : Ends (Store.read a true) d (fun _ _ => True) (fun _ => False) := by
    refine .bind (.pure (.bind (.get ?_)))
    split
    · exact .pure trivial
    · next r hr =>
      have hv : r.validate a = true := h.face.1 r hr
      refine .bind (.set ?_)
      simp only [hv, require, if_true]
      exact .bind (.pure (.pure trivial))
  obtain ⟨r, hr, -⟩ | ⟨-, hfalse⟩ := hends.answered
  · exact ⟨r, hr⟩
  · exact hfalse.elim

theorem Legible.recovery_read (h : Legible a d) :
    ∃ t, answer (Recovery.read a true) d = some t := by
  have hends : Ends (Recovery.read a true) d (fun _ _ => True) (fun _ => False) := by
    refine .bind (.pure (.bind (.get ?_)))
    split
    · simp only [Attempts.validate_empty, require, if_true]
      exact .bind (.pure (.pure trivial))
    · next t ht =>
      have hv : t.validate a = true := h.recovery.1 t ht
      refine .bind (.set ?_)
      simp only [hv, require, if_true]
      exact .bind (.pure (.pure trivial))
  obtain ⟨t, ht, -⟩ | ⟨-, hfalse⟩ := hends.answered
  · exact ⟨t, ht⟩
  · exact hfalse.elim

end Files

/-! ## The coupled fields -/

/-- A face record's fields that only make sense together. -/
structure Record.Coupled (r : Record) : Prop where
  cooled : ∀ c, r.cooldown = some c → r.strikes = 0 ∧ c.durationNanos ≤ c.deadlineNanos
  charged : r.pending = true → 0 < r.count

/-- A recovery record's. -/
structure Attempts.Coupled (t : Attempts) : Prop where
  delayed : ∀ c, t.cooldown = some c → c.durationNanos ≤ c.deadlineNanos
  charged : t.pending = true → 0 < t.failures

theorem Record.coupled_of_validate {a : Account} {r : Record} (h : r.validate a = true) :
    r.Coupled where
  cooled c hc := by
    have hfits := Record.cooldownFits_of_validate h
    simp only [Record.cooldownFits, hc, Option.all_some, Bool.and_eq_true, decide_eq_true_eq,
      beq_iff_eq] at hfits
    exact ⟨hfits.2, hfits.1.2⟩
  charged hp := by
    have hfits := Record.budgetFits_of_validate h
    unfold Record.pending at hp
    cases hb : r.budget with
    | none => simp [hb] at hp
    | some b =>
      simp only [hb, Option.any_some] at hp
      simp only [Record.budgetFits, hb, Option.all_some, hp, Bool.true_and, Bool.and_eq_true,
        Bool.not_eq_true', beq_eq_false_iff_ne] at hfits
      simp only [Record.count, hb, Option.map_some, Option.getD_some]
      omega

theorem Attempts.coupled_of_validate {a : Account} {t : Attempts} (h : t.validate a = true) :
    t.Coupled where
  delayed c hc := by
    simp only [Attempts.validate, hc, Option.all_some, Bool.and_eq_true, decide_eq_true_eq,
      beq_iff_eq] at h
    obtain ⟨-, ⟨⟨-, hd⟩, hle⟩, -⟩ := h
    omega
  charged hp := by
    simp only [Attempts.validate, hp, Bool.true_and, Bool.and_eq_true, Bool.not_eq_true',
      beq_eq_false_iff_ne] at h
    obtain ⟨⟨-, hne⟩, -⟩ := h
    omega

theorem Accepts.mono {α : Type} {check : α → Bool} {P : α → Prop} (hP : ∀ r, check r = true → P r)
    {content : Option α} (h : Accepts check content) :
    ∀ r, content = some r → check r = true ∧ P r :=
  fun r hr => ⟨h r hr, hP r (h r hr)⟩

/-! ## What is written reads back -/

/-- For an account whose name a record may hold: the operations commit only records that pass their
check (no operation can tell two ways to commit apart that agree on those), and in every run the
files hold records the next read answers with, their coupled fields in order. -/
theorem commits_read_back {a : Account} (hname : (Record.empty a).validate a = true) :
    (∀ c c', Commits.Agree a c c' → Commits.Same a c c') ∧
    ∀ {face : DurableFile Record} {recovery : DurableFile Attempts} {now : Tick}
      {past : List String} {es : List Event} {w : World},
      face.Both (Accepts (·.validate a)) → recovery.Both (Accepts (·.validate a)) →
      run (World.step a) (.start face recovery now past) es = some w →
      (w.disk.face.Both fun content =>
        ∀ r, content = some r → r.validate a = true ∧ r.Coupled) ∧
      (w.disk.recovery.Both fun content =>
        ∀ t, content = some t → t.validate a = true ∧ t.Coupled) ∧
      (∃ r, answer (Store.read a true) w.disk = some r) ∧
      ∃ t, answer (Recovery.read a true) w.disk = some t := by
  refine ⟨fun c c' h => h.same hname, ?_⟩
  intro face recovery now past es w hface hrecovery hrun
  have hstart : Legible a (World.start face recovery now past).disk := ⟨hface, hrecovery⟩
  have h := run_invariant (I := fun w : World => Legible a w.disk) (Legible.step hname) hstart hrun
  exact ⟨h.face.mono fun _ => Accepts.mono fun r => Record.coupled_of_validate,
    h.recovery.mono fun _ => Accepts.mono fun t => Attempts.coupled_of_validate,
    h.read, h.recovery_read⟩

/-- Alice's records read back after an attempt that was denied. -/
theorem commits_read_back_alice :
    Commits.Same alice (Commits.source alice) (Commits.source alice) ∧
    ∃ w, run (World.step alice) (.start (.settled none) (.settled none) ⟨bootA, 0⟩ [])
        [.begin defaultPolicy .none, .denied ⟨false, .spoof⟩ .none] = some w ∧
      ∃ r, w.disk.face.visible = some r ∧ r.strikes = 1 ∧ r.validate alice = true := by
  have h := commits_read_back (a := alice) (by decide)
  have hnone : ∀ {α : Type} (check : α → Bool), (DurableFile.settled none).Both (Accepts check) :=
    fun check => ⟨nofun, nofun⟩
  obtain ⟨w, hrun, hstrikes⟩ := Option.map_eq_some_iff.1
    (show (run (World.step alice) (.start (.settled none) (.settled none) ⟨bootA, 0⟩ [])
        [.begin defaultPolicy .none, .denied ⟨false, .spoof⟩ .none]).map
      (fun w => w.disk.face.visible.map (·.strikes)) = some (some 1) by decide)
  obtain ⟨r, hr, hone⟩ := Option.map_eq_some_iff.1 hstrikes
  obtain ⟨hface, -⟩ := h.2 (hnone _) (hnone _) hrun
  exact ⟨h.1 _ _ ⟨fun _ _ _ _ => rfl, fun _ _ _ _ => rfl⟩, w, hrun, r, hr, hone, (hface.1 r hr).1⟩

/-- An account without a name: the first reservation is handed to a commit that refuses it. -/
theorem commits_read_back_nameless :
    ∃ a : Account, ¬∀ c c', Commits.Agree a c c' → Commits.Same a c c' := by
  refine ⟨⟨0, ""⟩, fun h => ?_⟩
  have hagree : Commits.Agree ⟨0, ""⟩ (.source ⟨0, ""⟩) (.unchecked ⟨0, ""⟩) := by
    refine ⟨fun notes r o hv => ?_, fun _ _ _ _ => rfl⟩
    simp only [Record.validate, Bool.and_eq_true, beq_iff_eq] at hv
    obtain ⟨⟨⟨⟨⟨-, haccount⟩, hempty⟩, -⟩, -⟩, -⟩ := hv
    rw [haccount] at hempty
    exact absurd hempty (by decide)
  have hbegin := (h _ _ hagree).begin defaultPolicy ⟨bootA, 0⟩ .none
  have hanswer := congrArg
    (fun op => answer op ⟨.settled none, .settled none, []⟩) hbegin
  exact absurd hanswer (by decide)

end Irlume.Retry

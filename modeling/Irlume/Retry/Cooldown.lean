import Mathlib.Data.Nat.Basic
import Irlume.Retry.World

/-!
# The cooldown

Strikes come from two places: a denial records its own, and an attempt without an outcome is found and struck by
the next check. Here the two are tallied against the attempts that ended.
-/

namespace Irlume.Retry

open Irlume.Lib

/-! ## What is counted -/

def Ending.strikes : Ending → Bool
  | .denied kind => kind.strikes
  | .abandoned => true

/-- The attempts that ended in a strike since the cooldown was last cleared or the record reset;
`base` before any of that. -/
def struckSince (base : Nat) : List Note → Nat
  | [] => base
  | .ended e :: ns => if e.strikes then struckSince base ns + 1 else struckSince base ns
  | .cleared :: _ => 0
  | .reset :: _ => 0
  | _ :: ns => struckSince base ns

def armedSince : List Note → Option Tick
  | [] => none
  | .armed now :: _ => some now
  | .cleared :: _ => none
  | .reset :: _ => none
  | _ :: ns => armedSince ns

/-- The cooldown on record has run its length in the boot it was last armed in. -/
def RanOut (policy : Policy) (now : Tick) (notes : List Note) : Prop :=
  ∃ t, armedSince notes = some t ∧ t.boot = now.boot ∧ t.nanos + policy.nanos ≤ now.nanos

/-- The strikes of a record, an attempt that waits for its settlement included. -/
def unsettled (r : Record) : Nat := r.strikes + if r.pending then 1 else 0

theorem unsettled_of_settled {r : Record} (h : r.pending = false) : unsettled r = r.strikes := by
  rw [unsettled, h]
  rfl

/-! ## The operations when nothing fails -/

def Finds (a : Account) (d : Disk) (r : Record) : Prop :=
  (d.face = .settled none ∧ r = Record.empty a) ∨
    (d.face = .settled (some r) ∧ r.validate a = true)

def Checked (policy : Policy) (now : Tick) (r t : Record) : Prop :=
  ∃ s, r.settleAbandoned policy now = .ok s ∧ s.refreshCooldown policy now = .ok t

def rewritten (d : Disk) (r t : Record) (now : Tick) : Disk :=
  if t = r then d else Store.writeFace d (Store.cooldownNotes r t now) t .durable

section Operations

variable {a : Account} {policy : Policy} {now : Tick} {d : Disk} {r t : Record}

theorem read_finds (h : Finds a d r) :
    Ends (Store.read a true) d (fun s e => s = r ∧ e = d) (fun _ => False) := by
  refine .bind (.pure (.bind (.get ?_)))
  obtain ⟨hd, rfl⟩ | ⟨hd, hv⟩ := h
  · simp only [hd, DurableFile.settled]
    exact .pure ⟨rfl, rfl⟩
  · simp only [hd, DurableFile.settled]
    refine .bind (.set ?_)
    simp only [hv, require, if_true]
    refine .bind (.pure (.pure ⟨rfl, ?_⟩))
    obtain ⟨face, recovery, notes⟩ := d
    obtain rfl : face = _ := hd
    rfl

theorem commit_finds (notes : List Note) (hv : t.validate a = true) :
    Ends (Store.commit notes t .durable) d (fun _ e => e = Store.writeFace d notes t .durable)
      (fun _ => False) := by
  have hself : t.validate ⟨t.uid, t.account⟩ = true := by
    rw [Record.account_of_validate hv]
    exact hv
  simp only [Store.commit, require, hself, if_true]
  exact .bind (.pure (.modified rfl))

theorem clocked_finds (hb : validBoot now.boot = true) :
    Ends (clocked now true) d (fun _ e => e = d) (fun _ => False) := by
  simp only [clocked, require, hb, if_true]
  exact .bind (.pure (.pure rfl))

theorem Checked.of_empty (h : Checked policy now (Record.empty a) t) : t = Record.empty a := by
  obtain ⟨s, hs, ht⟩ := h
  obtain rfl : Record.empty a = s := Except.ok.inj hs
  obtain ⟨c, hc, -⟩ | ⟨c, hc, -⟩ | ⟨c, hc, -⟩ | ⟨-, hl, -⟩ | ⟨-, -, rfl⟩ :=
    Record.refreshCooldown_ok ht
  · cases hc
  · cases hc
  · cases hc
  · have hone := policy.one_le_limit
    have hzero : (Record.empty a).strikes = 0 := rfl
    omega
  · rfl

theorem Checked.valid (h : Checked policy now r t) (hv : r.validate a = true)
    (hb : validBoot now.boot = true) : t.validate a = true := by
  obtain ⟨s, hs, ht⟩ := h
  exact Record.validate_refreshCooldown (Record.validate_settleAbandoned hv hb hs) hb ht

theorem Finds.checked (h : Finds a d r) (hc : Checked policy now r t)
    (hb : validBoot now.boot = true) : Finds a (rewritten d r t now) t := by
  unfold rewritten
  split
  · next he => exact he ▸ h
  · next hne =>
    obtain ⟨-, rfl⟩ | ⟨-, hv⟩ := h
    · exact absurd hc.of_empty hne
    · exact .inr ⟨rfl, hc.valid hv hb⟩

theorem check_finds (policy : Policy) (h : Finds a d r) (hb : validBoot now.boot = true) :
    Ends (Store.check a policy now .none) d
      (fun b e => ∃ t, Checked policy now r t ∧ b = t.limited now ∧ e = rewritten d r t now)
      (fun e => e = d ∧ ∀ t, ¬Checked policy now r t) := by
  unfold Store.check
  refine .bind ((clocked_finds hb).mono ?_ fun _ h => h.elim)
  intro _ e he
  subst he
  refine .bind ((read_finds h).mono ?_ fun _ h => h.elim)
  rintro s e ⟨hs, he⟩
  subst hs he
  refine .bind ?_
  cases hs : s.settleAbandoned policy now with
  | error err => exact .throw ⟨rfl, fun t ⟨s', hs', _⟩ => by rw [hs] at hs'; cases hs'⟩
  | ok s' =>
    refine .pure (.bind ?_)
    cases ht : s'.refreshCooldown policy now with
    | error err =>
      refine .throw ⟨rfl, fun t ⟨s'', hs', ht'⟩ => ?_⟩
      rw [hs, Except.ok.injEq] at hs'
      rw [← hs', ht] at ht'
      cases ht'
    | ok t =>
      have hc : Checked policy now s t := ⟨s', hs, ht⟩
      refine .pure (.bind ?_)
      unfold Store.commitChanged
      split
      · next he => exact .pure (.pure ⟨t, hc, rfl, by rw [rewritten, if_pos he]⟩)
      · next hne =>
        obtain ⟨-, rfl⟩ | ⟨-, hv⟩ := h
        · exact absurd hc.of_empty hne
        · refine (commit_finds _ (hc.valid hv hb)).mono ?_ fun _ h => h.elim
          intro _ e he
          exact .pure ⟨t, hc, rfl, by rw [rewritten, if_neg hne, he]⟩

theorem reserve_ok {s : Record} (h : FaceAttempt.reserve t = some s) :
    s.pending = true ∧ s.strikes = t.strikes ∧ s.cooldown = t.cooldown := by
  unfold FaceAttempt.reserve at h
  cases hb : t.budget with
  | none =>
    simp only [hb, Option.isNone_none, if_true, Record.initializeBudget] at h
    cases h
    exact ⟨rfl, rfl, rfl⟩
  | some b =>
    simp only [hb, Option.isNone_some, Bool.false_eq_true, if_false] at h
    split at h
    · cases h
    · cases h
      exact ⟨rfl, rfl, rfl⟩

theorem reserve_valid {s : Record} (hv : t.validate a = true)
    (h : FaceAttempt.reserve t = some s) : s.validate a = true := by
  have hversion := Record.versionFits_iff.1 (Record.versionFits_of_validate hv)
  have hcool : t.cooldownFits = true := Record.cooldownFits_of_validate hv
  unfold FaceAttempt.reserve at h
  cases hb : t.budget with
  | none =>
    simp only [hb, Option.isNone_none, if_true, Record.initializeBudget] at h
    cases h
    exact Record.validate_of hv rfl rfl rfl rfl hcool
  | some b =>
    simp only [hb, Option.isNone_some, Bool.false_eq_true, if_false] at h
    split at h
    · cases h
    · next hlt =>
      cases h
      refine Record.validate_of hv rfl rfl ?_ ?_ hcool
      · refine Record.versionFits_iff.2 (.inr ⟨?_, rfl⟩)
        simpa [hb] using hversion
      · have hle : b.unsuccessfulRequests + 1 ≤ faceLimit := by omega
        simpa [Record.budgetFits] using hle

theorem begin_finds (policy : Policy) (h : Finds a d r) (hb : validBoot now.boot = true) :
    Ends (FaceAttempt.begin a policy now .none) d
      (fun b e => ∃ t, Checked policy now r t ∧
        ((b = false ∧ e = rewritten d r t now) ∨
          (b = true ∧ t.limited now = false ∧ ∃ s, FaceAttempt.reserve t = some s ∧
            s.validate a = true ∧ e = Store.writeFace (rewritten d r t now) [.admitted] s .durable)))
      (fun e => e = d ∧ ((∀ t, ¬Checked policy now r t) ∨ r = Record.empty a)) := by
  unfold FaceAttempt.begin
  refine .bind ((check_finds policy h hb).mono ?_ fun e he => ⟨he.1, .inl he.2⟩)
  rintro limited e ⟨t, hc, rfl, rfl⟩
  split
  · exact .pure ⟨t, hc, .inl ⟨rfl, rfl⟩⟩
  · next hl =>
    have hfinds := h.checked hc hb
    refine .bind ((read_finds hfinds).mono ?_ fun _ h => h.elim)
    rintro _ e ⟨rfl, rfl⟩
    split
    · exact .pure ⟨_, hc, .inl ⟨rfl, rfl⟩⟩
    · next s hs =>
      by_cases hv : s.validate a = true
      · refine .bind ((commit_finds _ hv).mono ?_ fun _ h => h.elim)
        rintro - _ rfl
        refine .bind (.modified (.pure ⟨_, hc, .inr ⟨rfl, ?_, s, hs, hv, rfl⟩⟩))
        simpa using hl
      · obtain ⟨hd, rfl⟩ | ⟨-, hvr⟩ := h
        · obtain rfl := hc.of_empty
          have hself : s.validate ⟨s.uid, s.account⟩ = false := by
            cases hs
            exact Bool.eq_false_iff.2 hv
          simp only [Store.commit, require, hself]
          refine .bind (.bind (.throw ⟨?_, .inr trivial⟩))
          rw [rewritten, if_pos rfl]
        · exact absurd (reserve_valid (hc.valid hvr hb) hs) hv

theorem denied_finds (policy : Policy) (h : Finds a d r) (hp : r.pending = true) (hb : validBoot now.boot = true)
    (outcome : Outcome) :
    Ends (FaceAttempt.denied a policy outcome now .none) d
      (fun _ e => outcome.granted = false ∧ ∃ s,
        ((outcome.kind.strikes = false ∧ s = r.settled) ∨
          (outcome.kind.strikes = true ∧ r.settled.strike policy now = .ok s)) ∧
        s.validate a = true ∧ e = Store.writeFace d (Store.cooldownNotes r s now) s .durable)
      (fun e => e = d ∧ (outcome.granted = true ∨ outcome.kind.strikes = true)) := by
  have hv : r.validate a = true := by
    obtain ⟨-, rfl⟩ | ⟨-, hv⟩ := h
    · cases hp
    · exact hv
  unfold FaceAttempt.denied require
  refine .bind ?_
  split
  · next hg =>
    refine .pure (.bind ((read_finds h).mono ?_ fun _ h => h.elim))
    rintro s e ⟨rfl, rfl⟩
    simp only [hp, if_true]
    refine .bind (.pure (.bind ?_))
    unfold FaceAttempt.strikeFor
    split
    · next hk =>
      refine .bind ((clocked_finds hb).mono ?_ fun _ h => h.elim)
      rintro - _ rfl
      cases hs : s.settled.strike policy now with
      | error err => exact .throw ⟨rfl, .inr hk⟩
      | ok s' =>
        have hv' := Record.validate_strike (Record.validate_settled hv) hb hs
        refine .pure ((commit_finds _ hv').mono ?_ fun _ h => h.elim)
        rintro - _ rfl
        exact ⟨by simpa using hg, s', .inr ⟨hk, rfl⟩, hv', rfl⟩
    · next hk =>
      refine .pure ((commit_finds _ (Record.validate_settled hv)).mono ?_ fun _ h => h.elim)
      rintro - _ rfl
      exact ⟨by simpa using hg, _, .inl ⟨by simpa using hk, rfl⟩, Record.validate_settled hv, rfl⟩
  · next hg => exact .throw ⟨rfl, .inl (by simpa using hg)⟩

theorem delivered_finds (h : Finds a d r) (hp : r.pending = true) :
    Ends (FaceAttempt.delivered a .none) d
      (fun _ e => (Record.reset a).validate a = true ∧
        e = Store.writeFace d [.reset] (Record.reset a) .durable)
      (fun _ => False) := by
  have hv : (Record.reset a).validate a = true := by
    obtain ⟨-, rfl⟩ | ⟨-, hv⟩ := h
    · cases hp
    · obtain rfl := Record.account_of_validate hv
      exact Record.validate_of hv rfl rfl rfl rfl rfl
  unfold FaceAttempt.delivered
  refine .bind ((read_finds h).mono ?_ fun _ h => h.elim)
  rintro s e ⟨rfl, rfl⟩
  simp only [require, hp, if_true]
  refine .bind (.pure ((commit_finds _ hv).mono ?_ fun _ h => h))
  rintro - _ rfl
  exact ⟨hv, rfl⟩

end Operations

/-! ## What a check makes of the strikes -/

section Checks

variable {policy : Policy} {now : Tick} {r t : Record}

theorem Checked.uncooled (h : Checked policy now r t) (hc : r.cooldown = none) :
    t.pending = false ∧
      ((unsettled r < policy.limit ∧ t.cooldown = none ∧ t.strikes = unsettled r) ∨
        (policy.limit ≤ unsettled r ∧ t.strikes = 0 ∧
          t.cooldown = some ⟨now.boot, now.nanos + policy.nanos, policy.nanos⟩)) := by
  obtain ⟨s, hs, ht⟩ := h
  have hp : t.pending = false := by
    rw [Record.pending_eq_of_budget (Record.refreshCooldown_budget ht)]
    exact Record.settleAbandoned_pending hs
  refine ⟨hp, ?_⟩
  unfold unsettled
  obtain ⟨hpending, rfl⟩ | ⟨hpending, hs⟩ := Record.settleAbandoned_ok hs
  · rw [hpending]
    obtain ⟨c, hc', -⟩ | ⟨c, hc', -⟩ | ⟨c, hc', -⟩ | ⟨-, hl, -, rfl⟩ | ⟨-, hl, rfl⟩ :=
      Record.refreshCooldown_ok ht
    · rw [hc] at hc'; cases hc'
    · rw [hc] at hc'; cases hc'
    · rw [hc] at hc'; cases hc'
    · exact .inr ⟨hl, rfl, rfl⟩
    · exact .inl ⟨hl, hc, rfl⟩
  · rw [hpending]
    obtain ⟨hsome, -⟩ | ⟨-, hl, rfl⟩ | ⟨-, hl, -, rfl⟩ := Record.strike_ok hs
    · rw [Record.settled_cooldown, hc] at hsome
      cases hsome
    · obtain ⟨c, hc', -⟩ | ⟨c, hc', -⟩ | ⟨c, hc', -⟩ | ⟨-, hl', -⟩ | ⟨-, -, rfl⟩ :=
        Record.refreshCooldown_ok ht
      · exact absurd (hc.symm.trans hc') nofun
      · exact absurd (hc.symm.trans hc') nofun
      · exact absurd (hc.symm.trans hc') nofun
      · exact absurd hl' (Nat.not_le.2 hl)
      · exact .inl ⟨hl, hc, rfl⟩
    · have hpos := policy.nanos_pos
      obtain ⟨c, hc', hb, -⟩ | ⟨c, hc', -, hd, -⟩ | ⟨c, -, -, -, rfl⟩ | ⟨hc', -⟩ | ⟨hc', -⟩ :=
        Record.refreshCooldown_ok ht
      · exact absurd (Option.some.inj hc' ▸ rfl) hb
      · cases hc'
        simp only at hd
        omega
      · exact .inr ⟨hl, rfl, rfl⟩
      · cases hc'
      · cases hc'

theorem Checked.cooled (h : Checked policy now r t) (hp : r.pending = false) {c : Cooldown}
    (hc : r.cooldown = some c) :
    (c.bootId ≠ now.boot ∧ t = r.armed now c.durationNanos) ∨
      (c.bootId = now.boot ∧ c.deadlineNanos ≤ now.nanos ∧
        t = { r with cooldown := none, strikes := 0 }) ∨
      (c.bootId = now.boot ∧ now.nanos < c.deadlineNanos ∧ t = r) := by
  obtain ⟨s, hs, ht⟩ := h
  obtain ⟨-, rfl⟩ | ⟨hp', -⟩ := Record.settleAbandoned_ok hs
  · obtain ⟨c', hc', hb, -, rfl⟩ | ⟨c', hc', hb, hd, rfl⟩ | ⟨c', hc', hb, hd, rfl⟩ | ⟨hc', -⟩ |
      ⟨hc', -⟩ := Record.refreshCooldown_ok ht
    · cases hc.symm.trans hc'
      exact .inl ⟨hb, rfl⟩
    · cases hc.symm.trans hc'
      exact .inr (.inl ⟨hb, hd, rfl⟩)
    · cases hc.symm.trans hc'
      exact .inr (.inr ⟨hb, hd, rfl⟩)
    · rw [hc] at hc'; cases hc'
    · rw [hc] at hc'; cases hc'
  · rw [hp] at hp'
    cases hp'

theorem strike_uncooled (hn : now.nanos + policy.nanos < 2 ^ 64) (hs : r.strikes < policy.limit)
    (hc : r.cooldown = none) :
    ∃ s, r.strike policy now = .ok s ∧ ((s.cooldown = none ∧ s.strikes < policy.limit) ∨
      s.cooldown = some ⟨now.boot, now.nanos + policy.nanos, policy.nanos⟩) := by
  have hle := policy.limit_le
  have hfits : r.strikes + 1 < 2 ^ 32 := by omega
  simp only [Record.strike, hc, Option.isNone_none, if_true, hfits, ge_iff_le]
  by_cases hl : policy.limit ≤ r.strikes + 1
  · rw [if_pos hl, Record.arm, if_pos hn]
    exact ⟨_, rfl, .inr rfl⟩
  · rw [if_neg hl]
    exact ⟨_, rfl, .inl ⟨rfl, Nat.lt_of_not_le hl⟩⟩

theorem exists_checked (hn : now.nanos + policy.nanos < 2 ^ 64) (hs : r.strikes < policy.limit)
    (hp : ∀ c, r.cooldown = some c → r.pending = false ∧ c.durationNanos = policy.nanos ∧
      (c.bootId = now.boot → c.deadlineNanos - now.nanos ≤ policy.nanos)) :
    ∃ t, Checked policy now r t := by
  cases hc : r.cooldown with
  | some c =>
    obtain ⟨hpending, hd, hb⟩ := hp c hc
    have hsettled : r.settleAbandoned policy now = .ok r := by
      rw [Record.settleAbandoned_eq, hpending]
      rfl
    by_cases hboot : c.bootId = now.boot
    · by_cases hdead : now.nanos ≥ c.deadlineNanos
      · refine ⟨{ r with cooldown := none, strikes := 0 }, r, hsettled, ?_⟩
        have hle := hb hboot
        simp only [Record.refreshCooldown, hc, hboot, ne_eq, not_true_eq_false, if_false, hd, hdead,
          if_true]
        rw [if_neg (by omega)]
      · refine ⟨r, r, hsettled, ?_⟩
        have hle := hb hboot
        simp only [Record.refreshCooldown, hc, hboot, ne_eq, not_true_eq_false, if_false, hd, hdead]
        rw [if_neg (by omega)]
    · refine ⟨r.armed now policy.nanos, r, hsettled, ?_⟩
      simp only [Record.refreshCooldown, hc, ne_eq, hboot, not_false_eq_true, if_true, hd]
      rw [Record.arm, if_pos hn]
  | none =>
    by_cases hpending : r.pending = true
    · obtain ⟨s, hstrike, ⟨hc', hlt⟩ | hc'⟩ :=
        strike_uncooled (r := r.settled) hn hs hc
      all_goals
        have hsettled : r.settleAbandoned policy now = .ok s := by
          rw [Record.settleAbandoned_eq, if_pos hpending]
          exact hstrike
      · refine ⟨s, s, hsettled, ?_⟩
        simp only [Record.refreshCooldown, hc', ge_iff_le]
        rw [if_neg (by omega)]
      · have hpos := policy.nanos_pos
        refine ⟨s, s, hsettled, ?_⟩
        simp only [Record.refreshCooldown, hc', ne_eq, not_true_eq_false, if_false]
        rw [if_neg (by omega), if_neg (by omega)]
    · refine ⟨r, r, ?_, ?_⟩
      · rw [Record.settleAbandoned_eq, if_neg hpending]
      · simp only [Record.refreshCooldown, hc, ge_iff_le]
        rw [if_neg (by omega)]

end Checks

/-! ## The tally -/

/-- A record against the attempts that ended, under one policy; `live` while an attempt has not. -/
structure Tallied (policy : Policy) (base : Nat) (live : Bool) (notes : List Note) (r : Record) :
    Prop where
  below : r.strikes < policy.limit
  struck : r.cooldown = none →
    (if live then r.strikes else unsettled r) = struckSince base notes
  cooled : ∀ c, r.cooldown = some c → r.pending = false ∧ c.durationNanos = policy.nanos ∧
    ∃ t, armedSince notes = some t ∧ c.bootId = t.boot ∧ c.deadlineNanos = t.nanos + policy.nanos
  live : live = true → r.pending = true ∧ r.cooldown = none

section Tally

variable {a : Account} {policy : Policy} {base : Nat} {now : Tick} {notes : List Note} {r : Record}

theorem cooldownNotes_cases (r t : Record) (now : Tick) :
    (t.cooldown = r.cooldown ∧ Store.cooldownNotes r t now = []) ∨
      (t.cooldown ≠ r.cooldown ∧ (∃ c, t.cooldown = some c) ∧
        Store.cooldownNotes r t now = [.armed now]) ∨
      (t.cooldown = none ∧ (∃ c, r.cooldown = some c) ∧
        Store.cooldownNotes r t now = [.cleared]) := by
  unfold Store.cooldownNotes
  by_cases he : t.cooldown = r.cooldown
  · exact .inl ⟨he, if_pos he⟩
  · right
    rw [if_neg he]
    cases ht : t.cooldown with
    | some c => exact .inl ⟨ht ▸ he, ⟨c, rfl⟩, rfl⟩
    | none =>
      refine .inr ⟨rfl, ?_, rfl⟩
      rw [ht] at he
      exact Option.ne_none_iff_exists'.1 (Ne.symm he)

theorem Tallied.of_armed {t : Record} (hp : t.pending = false) (hs : t.strikes = 0)
    (hc : t.cooldown = some ⟨now.boot, now.nanos + policy.nanos, policy.nanos⟩)
    (hne : t.cooldown ≠ r.cooldown) :
    Tallied policy base false (Store.cooldownNotes r t now ++ notes) t := by
  have hn : Store.cooldownNotes r t now = [.armed now] := by
    obtain ⟨he, -⟩ | ⟨-, -, hn⟩ | ⟨he, -⟩ := cooldownNotes_cases r t now
    · exact absurd he hne
    · exact hn
    · rw [hc] at he
      cases he
  rw [hn]
  refine ⟨hs ▸ policy.one_le_limit, ?_, ?_, nofun⟩
  · intro he
    rw [hc] at he
    cases he
  · intro c hc'
    cases hc.symm.trans hc'
    exact ⟨hp, rfl, now, rfl, rfl, rfl⟩

theorem Tallied.checked {t : Record} (h : Tallied policy base false notes r)
    (hc : Checked policy now r t) :
    t.pending = false ∧ (∀ c, t.cooldown = some c → now.nanos < c.deadlineNanos) ∧
      Tallied policy base false (Store.cooldownNotes r t now ++ notes) t := by
  have hpos := policy.nanos_pos
  cases hcool : r.cooldown with
  | none =>
    obtain ⟨hp, ⟨hlt, hnone, hstrikes⟩ | ⟨hle, hzero, hsome⟩⟩ := hc.uncooled hcool
    · refine ⟨hp, by rw [hnone]; nofun, ?_⟩
      have hn : Store.cooldownNotes r t now = [] := if_pos (hnone.trans hcool.symm)
      rw [hn]
      refine ⟨hstrikes ▸ hlt, fun _ => ?_, fun c hc' => ?_, nofun⟩
      · have hstruck := h.struck hcool
        simp only [Bool.false_eq_true, if_false] at hstruck ⊢
        rw [unsettled, hp, hstrikes, List.nil_append, ← hstruck]
        rfl
      · rw [hnone] at hc'
        cases hc'
    · refine ⟨hp, fun c hc' => ?_, .of_armed hp hzero hsome (by rw [hsome, hcool]; nofun)⟩
      cases hsome.symm.trans hc'
      exact Nat.lt_add_of_pos_right hpos
  | some c =>
    obtain ⟨hp, hd, at', hat, hboot, hdead⟩ := h.cooled c hcool
    obtain ⟨hb, rfl⟩ | ⟨-, -, rfl⟩ | ⟨-, hlt, rfl⟩ := hc.cooled hp hcool
    · refine ⟨hp, fun c' hc' => ?_, .of_armed hp rfl (by rw [hd]; rfl) ?_⟩
      · cases hc'
        exact Nat.lt_add_of_pos_right (hd ▸ hpos)
      · rw [hcool]
        intro he
        exact hb (Option.some.inj he ▸ rfl)
    · have hn : Store.cooldownNotes r { r with cooldown := none, strikes := 0 } now = [.cleared] := by
        simp [Store.cooldownNotes, hcool]
      rw [hn]
      refine ⟨hp, nofun, policy.one_le_limit, fun _ => ?_, nofun, nofun⟩
      have hp' : ({ r with cooldown := none, strikes := 0 } : Record).pending = false := hp
      simp [unsettled, hp', struckSince]
    · have hn : Store.cooldownNotes t t now = [] := if_pos rfl
      rw [hn]
      refine ⟨hp, fun c' hc' => ?_, h⟩
      cases hcool.symm.trans hc'
      exact hlt

theorem rewritten_notes (d : Disk) (r t : Record) (now : Tick) :
    (rewritten d r t now).notes = Store.cooldownNotes r t now ++ d.notes := by
  unfold rewritten
  split
  · next he => rw [he, Store.cooldownNotes, if_pos rfl, List.nil_append]
  · rfl

def ArmedBefore (boots : List String) (now : Tick) (notes : List Note) : Prop :=
  ∀ t, armedSince notes = some t → t.boot ∈ boots ∧ (t.boot = now.boot → t.nanos ≤ now.nanos)

theorem ArmedBefore.cooldownNotes {boots : List String} (h : ArmedBefore boots now notes)
    (hb : now.boot ∈ boots) (r t : Record) :
    ArmedBefore boots now (Store.cooldownNotes r t now ++ notes) := by
  obtain ⟨-, hn⟩ | ⟨-, -, hn⟩ | ⟨-, -, hn⟩ := cooldownNotes_cases r t now <;> rw [hn]
  · exact h
  · intro t ht
    cases ht
    exact ⟨hb, fun _ => Nat.le_refl _⟩
  · exact nofun

end Tally

/-! ## The steps -/

def World.live (w : World) : Bool :=
  match w.operation with
  | some (.face _) => true
  | _ => false

/-- An event of face attempts under `policy` in which nothing fails, or of the machine itself. -/
def Event.Plain (policy : Policy) : Event → Prop
  | .begin p f => p = policy ∧ f = .none
  | .denied _ f => f = .none
  | .delivered f => f = .none
  | .tick _ | .reboot .. | .crash | .drop => True
  | _ => False

structure Cooling (a : Account) (policy : Policy) (base : Nat) (w : World) : Prop where
  booted : validBoot w.now.boot = true
  here : w.now.boot ∈ w.boots
  armed : ArmedBefore w.boots w.now w.disk.notes
  holder : w.operation = none ∨ w.operation = some (.face policy)
  tallied : ∃ r, Finds a w.disk r ∧ Tallied policy base w.live w.disk.notes r

section Steps

variable {a : Account} {policy : Policy} {base : Nat} {w w' : World}

theorem Finds.powerLoss {d : Disk} {r : Record} (h : Finds a d r) (kept : Bool)
    (recovery : DurableFile Attempts) (notes : List Note) :
    Finds a ⟨d.face.powerLoss kept, recovery, notes⟩ r := by
  have hsettled : ∀ c : Option Record, (DurableFile.settled c).powerLoss kept = .settled c := by
    intro c
    cases kept <;> rfl
  obtain ⟨hd, hr⟩ | ⟨hd, hv⟩ := h
  · exact .inl ⟨by rw [hd, hsettled], hr⟩
  · exact .inr ⟨by rw [hd, hsettled], hv⟩

variable {notes : List Note}

theorem Tallied.abandoned {r : Record} (h : Tallied policy base true notes r)
    {e : Ending} (he : e.strikes = true) : Tallied policy base false (.ended e :: notes) r := by
  obtain ⟨hp, hc⟩ := h.live rfl
  refine ⟨h.below, fun _ => ?_, fun c hc' => ?_, nofun⟩
  · have hstruck := h.struck hc
    simp only [if_true] at hstruck
    simp [unsettled, hp, struckSince, he, hstruck]
  · rw [hc] at hc'
    cases hc'

theorem Cooling.abandoned (h : Cooling a policy base w) : Cooling a policy base w.abandoned := by
  obtain ⟨r, hr, ht⟩ := h.tallied
  obtain ho | ho := h.holder
  · have hl : w.live = false := by rw [World.live, ho]
    have hw : w.abandoned = w := by
      simp only [World.abandoned, ho, World.released]
      rw [← ho]
    rw [hw]
    exact h
  · have hl : w.live = true := by rw [World.live, ho]
    have hw : w.abandoned = (w.noted (.ended .abandoned)).released := by
      simp only [World.abandoned, ho]
    rw [hw]
    rw [hl] at ht
    exact ⟨h.booted, h.here, h.armed, .inl rfl, r, hr, ht.abandoned rfl⟩

theorem Cooling.reboot (h : Cooling a policy base w) {boot : String}
    (hv : validBoot boot = true) (hb : boot ∉ w.boots) (nanos : Nat) (faceKept recoveryKept : Bool) :
    Cooling a policy base { w with
      disk := { w.disk with
        face := w.disk.face.powerLoss faceKept
        recovery := w.disk.recovery.powerLoss recoveryKept }
      now := { boot, nanos }
      boots := boot :: w.boots } := by
  obtain ⟨r, hr, ht⟩ := h.tallied
  refine ⟨hv, List.mem_cons_self, fun t hat => ?_, h.holder, r, hr.powerLoss _ _ _, ht⟩
  obtain ⟨hmem, -⟩ := h.armed t hat
  refine ⟨List.mem_cons_of_mem _ hmem, fun he => ?_⟩
  obtain rfl : t.boot = boot := he
  exact absurd hmem hb

theorem Tallied.admitted {r s : Record} {now : Tick}
    (h : Tallied policy base false notes r) (hp : r.pending = false)
    (hrun : ∀ c, r.cooldown = some c → now.nanos < c.deadlineNanos) (hl : r.limited now = false)
    (hs : FaceAttempt.reserve r = some s) : Tallied policy base true (.admitted :: notes) s := by
  have hc : r.cooldown = none := by
    cases hc : r.cooldown with
    | none => rfl
    | some c => simp [Record.limited, hc, hrun c hc] at hl
  obtain ⟨hpending, hstrikes, hcool⟩ := reserve_ok hs
  have hstruck := h.struck hc
  refine ⟨hstrikes ▸ h.below, fun _ => ?_, fun c hc' => ?_, fun _ => ⟨hpending, hcool.trans hc⟩⟩
  · simpa [unsettled, hp, hstrikes, struckSince] using hstruck
  · rw [hcool, hc] at hc'
    cases hc'

theorem Cooling.begin (h : Cooling a policy base w) (ho : w.operation = none) :
    Cooling a policy base
      (if answer (FaceAttempt.begin a policy w.now .none) w.disk = some true then
        { w.onDisk (after (FaceAttempt.begin a policy w.now .none) w.disk) with
          operation := some (.face policy) }
      else w.onDisk (after (FaceAttempt.begin a policy w.now .none) w.disk)) := by
  obtain ⟨r, hr, ht⟩ := h.tallied
  have hlive : w.live = false := by rw [World.live, ho]
  rw [hlive] at ht
  obtain ⟨b, hb, t, hc, ⟨rfl, he⟩ | ⟨rfl, hl, s, hs, hv, he⟩⟩ | ⟨hb, he, -⟩ :=
    (begin_finds policy hr h.booted).answered
  · obtain ⟨-, -, ht'⟩ := ht.checked hc
    rw [hb, if_neg (by decide), he]
    refine ⟨h.booted, h.here, ?_, h.holder, t, hr.checked hc h.booted, ?_⟩
    · simp only [World.onDisk, rewritten_notes]
      exact h.armed.cooldownNotes h.here r t
    · have hlive' : (w.onDisk (rewritten w.disk r t w.now)).live = false := hlive
      rw [hlive']
      simp only [World.onDisk, rewritten_notes]
      exact ht'
  · obtain ⟨hp, hrun, ht'⟩ := ht.checked hc
    rw [hb, if_pos rfl, he]
    refine ⟨h.booted, h.here, ?_, .inr rfl, s, .inr ⟨rfl, hv⟩, ?_⟩
    · have harmed := h.armed.cooldownNotes h.here r t
      rw [← rewritten_notes] at harmed
      exact harmed
    · have htally := ht'.admitted hp hrun hl hs
      rw [← rewritten_notes] at htally
      exact htally
  · rw [hb, if_neg (by simp), he]
    exact h

theorem Tallied.denied {r s : Record} {now : Tick} {kind : OutcomeKind}
    (h : Tallied policy base true notes r)
    (hs : (kind.strikes = false ∧ s = r.settled) ∨
      (kind.strikes = true ∧ r.settled.strike policy now = .ok s)) :
    Tallied policy base false (.ended (.denied kind) :: (Store.cooldownNotes r s now ++ notes)) s := by
  obtain ⟨hp, hc⟩ := h.live rfl
  have hstruck : r.strikes = struckSince base notes := h.struck hc
  obtain ⟨hk, rfl⟩ | ⟨hk, hs⟩ := hs
  · have hn : Store.cooldownNotes r r.settled now = [] := if_pos rfl
    rw [hn]
    refine ⟨h.below, fun _ => ?_, fun c hc' => ?_, nofun⟩
    · simp [unsettled, struckSince, Ending.strikes, hk, hstruck]
    · exact absurd (hc.symm.trans hc') nofun
  · have hpending : s.pending = false := by
      rw [Record.pending_eq_of_budget (Record.strike_budget hs), Record.pending_settled]
    obtain ⟨hsome, -⟩ | ⟨-, hl, rfl⟩ | ⟨-, -, -, rfl⟩ := Record.strike_ok hs
    · rw [Record.settled_cooldown, hc] at hsome
      cases hsome
    · have hn : Store.cooldownNotes r { r.settled with strikes := r.settled.strikes + 1 } now = [] :=
        if_pos rfl
      rw [hn]
      refine ⟨hl, fun _ => ?_, fun c hc' => ?_, nofun⟩
      · have hstrikes := unsettled_of_settled hpending
        simpa [struckSince, Ending.strikes, hk, hstruck] using hstrikes
      · exact absurd (hc.symm.trans hc') nofun
    · have harmed : Tallied policy base false
          (Store.cooldownNotes r (r.settled.armed now policy.nanos) now ++ notes)
          (r.settled.armed now policy.nanos) :=
        .of_armed hpending rfl rfl (by rw [hc]; nofun)
      exact ⟨harmed.below, nofun, harmed.cooled, nofun⟩

variable (h : Cooling a policy base w)

include h

theorem Cooling.denied (ho : w.operation = some (.face policy))
    (outcome : Outcome) :
    Cooling a policy base
      ((w.onDisk (after (FaceAttempt.denied a policy outcome w.now .none) w.disk)).noted
        (.ended (if outcome.granted then .abandoned else .denied outcome.kind))).released := by
  obtain ⟨r, hr, ht⟩ := h.tallied
  have hlive : w.live = true := by rw [World.live, ho]
  rw [hlive] at ht
  obtain ⟨hp, -⟩ := ht.live rfl
  obtain ⟨-, -, hg, s, hs, hv, he⟩ | ⟨-, he, hout⟩ :=
    (denied_finds policy hr hp h.booted outcome).answered
  · rw [hg, if_neg (by decide), he]
    exact ⟨h.booted, h.here, h.armed.cooldownNotes h.here r s, .inl rfl, s, .inr ⟨rfl, hv⟩,
      ht.denied hs⟩
  · rw [he]
    refine ⟨h.booted, h.here, h.armed, .inl rfl, r, hr, ht.abandoned ?_⟩
    split
    · rfl
    · next hg => exact hout.resolve_left hg

theorem Cooling.delivered (ho : w.operation = some (.face policy)) :
    Cooling a policy base (w.onDisk (after (FaceAttempt.delivered a .none) w.disk)).released := by
  obtain ⟨r, hr, ht⟩ := h.tallied
  have hlive : w.live = true := by rw [World.live, ho]
  rw [hlive] at ht
  obtain ⟨hp, -⟩ := ht.live rfl
  obtain ⟨-, -, hv, he⟩ | ⟨-, he⟩ := (delivered_finds hr hp).answered
  · rw [he]
    exact ⟨h.booted, h.here, nofun, .inl rfl, _, .inr ⟨rfl, hv⟩, policy.one_le_limit, fun _ => rfl,
      nofun, nofun⟩
  · exact he.elim

theorem Cooling.step {e : Event} (he : e.Plain policy)
    (hs : w.step a e = some w') : Cooling a policy base w' := by
  cases e with
  | tick nanos =>
    simp only [World.step, Option.ite_none_right_eq_some, Option.some.injEq] at hs
    obtain ⟨⟨hn, -⟩, rfl⟩ := hs
    refine ⟨h.booted, h.here, fun t ht => ?_, h.holder, h.tallied⟩
    exact ⟨(h.armed t ht).1, fun hb => Nat.le_trans ((h.armed t ht).2 hb) hn⟩
  | reboot boot nanos faceKept recoveryKept =>
    simp only [World.step, Option.ite_none_right_eq_some, Option.some.injEq] at hs
    obtain ⟨⟨hv, hb, -⟩, rfl⟩ := hs
    have hboots : w.abandoned.boots = w.boots := by
      obtain hw | hw := World.abandoned_eq w <;> rw [hw] <;> rfl
    exact h.abandoned.reboot hv (hboots ▸ hb) nanos faceKept recoveryKept
  | crash =>
    cases hs
    exact h.abandoned
  | begin p f =>
    obtain ⟨rfl, rfl⟩ := he
    simp only [World.step] at hs
    split at hs
    · cases hs
      exact h
    · next ho =>
      cases hs
      exact h.begin ho
  | denied outcome f =>
    obtain rfl : f = .none := he
    simp only [World.step] at hs
    split at hs
    · next p ho =>
      cases hs
      have hp : p = policy := by
        obtain hn | hf := h.holder
        · rw [hn] at ho; cases ho
        · rw [hf] at ho; cases ho; rfl
      subst hp
      exact h.denied ho outcome
    · cases hs
  | delivered f =>
    obtain rfl : f = .none := he
    simp only [World.step] at hs
    split at hs
    · next p ho =>
      cases hs
      have hp : p = policy := by
        obtain hn | hf := h.holder
        · rw [hn] at ho; cases ho
        · rw [hf] at ho; cases ho; rfl
      subst hp
      exact h.delivered ho
    · cases hs
  | drop =>
    simp only [World.step] at hs
    split at hs
    · cases hs
      exact h.abandoned
    · cases hs
  | _ => exact he.elim

end Steps

/-! ## The cooldown of every run -/

section Enforced

variable {a : Account} {policy : Policy} {base : Nat} {now : Tick} {notes : List Note}
  {r t : Record}

theorem limited_of_running {c : Cooldown} (hc : t.cooldown = some c)
    (hlt : now.nanos < c.deadlineNanos) : t.limited now = true := by
  simp [Record.limited, hc, hlt]

theorem Tallied.limited (h : Tallied policy base false notes r) (hc : Checked policy now r t)
    (hlimit : policy.limit ≤ struckSince base notes) (hran : ¬RanOut policy now notes) :
    t.limited now = true ∧
      ((∀ at₀, armedSince notes = some at₀ → at₀.boot ≠ now.boot) →
        armedSince (Store.cooldownNotes r t now ++ notes) = some now) := by
  have hrun := (h.checked hc).2.1
  cases hcool : r.cooldown with
  | none =>
    have hstruck : unsettled r = struckSince base notes := h.struck hcool
    obtain ⟨-, ⟨hlt, -⟩ | ⟨-, -, hsome⟩⟩ := hc.uncooled hcool
    · omega
    · refine ⟨limited_of_running hsome (hrun _ hsome), fun _ => ?_⟩
      obtain ⟨he, -⟩ | ⟨-, -, hn⟩ | ⟨he, -⟩ := cooldownNotes_cases r t now
      · rw [hsome, hcool] at he
        cases he
      · rw [hn]
        rfl
      · rw [hsome] at he
        cases he
  | some c =>
    obtain ⟨hp, -, at₀, hat, hboot, hdead⟩ := h.cooled c hcool
    obtain ⟨hb, rfl⟩ | ⟨hb, hle, -⟩ | ⟨hb, hlt, rfl⟩ := hc.cooled hp hcool
    · refine ⟨limited_of_running rfl (hrun _ rfl), fun _ => ?_⟩
      obtain ⟨he, -⟩ | ⟨-, -, hn⟩ | ⟨he, -⟩ :=
        cooldownNotes_cases r (r.armed now c.durationNanos) now
      · rw [hcool] at he
        exact absurd (Option.some.inj he ▸ rfl) hb
      · rw [hn]
        rfl
      · cases he
    · exact absurd ⟨at₀, hat, hboot.symm.trans hb, hdead ▸ hle⟩ hran
    · exact ⟨limited_of_running hcool hlt, fun hne => absurd (hboot.symm.trans hb) (hne at₀ hat)⟩

def strikesIn (content : Option Record) : Nat := (content.map unsettled).getD 0

theorem Cooling.start {content : Option Record} {recovery : DurableFile Attempts}
    {past : List String}
    (hstart : ∀ r, content = some r →
      r.validate a = true ∧ r.cooldown = none ∧ r.strikes < policy.limit)
    (hboot : validBoot now.boot = true) :
    Cooling a policy (strikesIn content) (.start (.settled content) recovery now past) := by
  refine ⟨hboot, List.mem_cons_self, nofun, .inl rfl, ?_⟩
  cases content with
  | none =>
    exact ⟨_, .inl ⟨rfl, rfl⟩, policy.one_le_limit, fun _ => rfl, nofun, nofun⟩
  | some r =>
    obtain ⟨hv, hc, hs⟩ := hstart r rfl
    exact ⟨r, .inr ⟨rfl, hv⟩, hs, fun _ => rfl, fun c hc' => absurd (hc.symm.trans hc') nofun, nofun⟩

/-- Under one policy, with every write durable: once `limit` attempts have ended in a strike since
the cooldown was last cleared or the record reset, `begin` admits nothing until the cooldown has run
its length in the boot it was last armed in. It answers `None`, as long as the deadline of a cooldown
armed now can be represented, and a cooldown not yet armed in this boot starts over in full. Each
attempt that ended in a strike, abandoned ones included, is exactly one strike on record. -/
theorem cooldown_enforced {content : Option Record} {recovery : DurableFile Attempts}
    {past : List String} {es : List Event} {w : World}
    (hstart : ∀ r, content = some r →
      r.validate a = true ∧ r.cooldown = none ∧ r.strikes < policy.limit)
    (hboot : validBoot now.boot = true) (hplain : ∀ e ∈ es, e.Plain policy)
    (h : run (World.step a) (.start (.settled content) recovery now past) es = some w) :
    (policy.limit ≤ struckSince (strikesIn content) w.disk.notes →
      ¬RanOut policy w.now w.disk.notes →
      answer (FaceAttempt.begin a policy w.now .none) w.disk ≠ some true ∧
        (w.now.nanos + policy.nanos < 2 ^ 64 →
          answer (FaceAttempt.begin a policy w.now .none) w.disk = some false ∧
            ((∀ t, armedSince w.disk.notes = some t → t.boot ≠ w.now.boot) →
              armedSince (after (FaceAttempt.begin a policy w.now .none) w.disk).notes =
                some w.now))) ∧
      ∀ r, w.disk.face.visible = some r → r.cooldown = none →
        (if w.live then r.strikes else unsettled r) =
          struckSince (strikesIn content) w.disk.notes := by
  have hw : Cooling a policy (strikesIn content) w :=
    run_invariant_of (fun he hc hs => hc.step he hs) hplain (Cooling.start hstart hboot) h
  obtain ⟨r, hr, ht⟩ := hw.tallied
  constructor
  · intro hlimit hran
    have hlive : w.live = false := by
      by_contra hlive
      rw [Bool.not_eq_false] at hlive
      rw [hlive] at ht
      have hstruck : r.strikes = _ := ht.struck (ht.live rfl).2
      have hbelow := ht.below
      omega
    rw [hlive] at ht
    obtain ⟨b, hb, t, hc, ⟨rfl, he⟩ | ⟨rfl, hl, -⟩⟩ | ⟨hb, -, hfail⟩ :=
      (begin_finds policy hr hw.booted).answered
    · rw [hb, he, rewritten_notes]
      exact ⟨by decide, fun _ => ⟨rfl, (ht.limited hc hlimit hran).2⟩⟩
    · rw [(ht.limited hc hlimit hran).1] at hl
      cases hl
    · rw [hb]
      refine ⟨by decide, fun hn => ?_⟩
      obtain hnone | rfl := hfail
      · obtain ⟨t, hc⟩ := exists_checked hn ht.below fun c hc => by
          obtain ⟨hp, hd, at₀, hat, hboot, hdead⟩ := ht.cooled c hc
          refine ⟨hp, hd, fun hb => ?_⟩
          have hle := (hw.armed at₀ hat).2 (hboot.symm.trans hb)
          omega
        exact absurd hc (hnone t)
      · have hstruck : unsettled (Record.empty a) = _ := ht.struck rfl
        have hzero : unsettled (Record.empty a) = 0 := rfl
        have hone := policy.one_le_limit
        omega
  · intro r' hv hc
    obtain ⟨hd, -⟩ | ⟨hd, -⟩ := hr
    · rw [hd] at hv
      cases hv
    · rw [hd] at hv
      obtain rfl := Option.some.inj hv
      exact ht.struck hc

end Enforced

def strictPolicy : Policy := (Policy.parse "1" "30").1

/-- Alice after an attempt she abandoned, begun `nanos` after the boot. -/
def aliceAbandoned (nanos : Nat) : World :=
  let w := World.start (.settled none) (.settled none) ⟨bootA, nanos⟩ []
  (run (World.step alice) w [.begin strictPolicy .none, .drop]).getD w

/-- One abandoned attempt is the limit: the next is refused, and the cooldown armed. -/
theorem cooldown_enforced_abandoned :
    answer (FaceAttempt.begin alice strictPolicy ⟨bootA, 7⟩ .none) (aliceAbandoned 7).disk =
        some false ∧
      armedSince (after (FaceAttempt.begin alice strictPolicy ⟨bootA, 7⟩ .none)
        (aliceAbandoned 7).disk).notes = some ⟨bootA, 7⟩ := by
  have h : run (World.step alice) (.start (.settled none) (.settled none) ⟨bootA, 7⟩ [])
      [.begin strictPolicy .none, .drop] = some (aliceAbandoned 7) := rfl
  have hplain : ∀ e ∈ [Event.begin strictPolicy .none, .drop], e.Plain strictPolicy := by
    simp [Event.Plain]
  have hran : ¬RanOut strictPolicy ⟨bootA, 7⟩ (aliceAbandoned 7).disk.notes := by
    rintro ⟨t, ht, -⟩
    cases ht
  have hstart : ∀ r, (none : Option Record) = some r →
      r.validate alice = true ∧ r.cooldown = none ∧ r.strikes < strictPolicy.limit := nofun
  have hnone := ((cooldown_enforced hstart (by decide) hplain h).1 (by decide) hran).2 (by decide)
  exact ⟨hnone.1, hnone.2 nofun⟩

/-- Past the last tick from which a deadline can be represented, `begin` reports a failure where the
limit is reached, not `None`. -/
theorem cooldown_unrepresentable_deadline :
    ¬∀ (a : Account) (policy : Policy) (content : Option Record) (recovery : DurableFile Attempts)
      (now : Tick) (past : List String) (es : List Event) (w : World),
      (∀ r, content = some r → r.validate a = true ∧ r.cooldown = none ∧ r.strikes < policy.limit) →
      validBoot now.boot = true → (∀ e ∈ es, e.Plain policy) →
      run (World.step a) (.start (.settled content) recovery now past) es = some w →
      policy.limit ≤ struckSince (strikesIn content) w.disk.notes →
      ¬RanOut policy w.now w.disk.notes →
      answer (FaceAttempt.begin a policy w.now .none) w.disk = some false := by
  intro hall
  have hrun : run (World.step alice)
      (.start (.settled none) (.settled none) ⟨bootA, 18446744073709551615⟩ [])
      [.begin strictPolicy .none, .drop] = some (aliceAbandoned 18446744073709551615) := rfl
  have hplain : ∀ e ∈ [Event.begin strictPolicy .none, .drop], e.Plain strictPolicy := by
    simp [Event.Plain]
  have hfalse := hall alice strictPolicy none _ _ _ _ _ nofun (by decide) hplain hrun (by decide)
    (by rintro ⟨t, ht, -⟩; cases ht)
  have hnone : answer (FaceAttempt.begin alice strictPolicy ⟨bootA, 18446744073709551615⟩ .none)
      (aliceAbandoned 18446744073709551615).disk = none := by decide
  rw [show (aliceAbandoned 18446744073709551615).now = ⟨bootA, 18446744073709551615⟩ from rfl,
    hnone] at hfalse
  cases hfalse

end Irlume.Retry

import Irlume.Lease.Authority

/-!
# Exclusive, fair and never lost

Each thing a call can do to the state keeps its two maps tied to the calls (`Exact`). A fresh request registers
and then takes the round a woken one takes, so a step is one of four: a refusal, a registration, a round, a
drop.
-/

namespace Irlume.Lease

open Irlume.Lib

variable {κ : Type} [LinearOrder κ]

theorem eq_succ_of_checkedSucc {n m : Nat} (h : checkedSucc n = some m) : m = n + 1 := by
  unfold checkedSucc at h
  split at h
  · exact (Option.some.inj h).symm
  · cases h

namespace LeaseState

variable {s : LeaseState κ} {n : Nat} {keys : List κ}

/-! ## What can be granted -/

omit [LinearOrder κ] in
theorem free_iff : s.free keys = true ↔ ∀ k ∈ keys, s.active k = none := by
  simp [free, List.all_eq_true]

theorem earlierConflict_iff : s.earlierConflict n keys = true ↔
    ∃ m < n, ∃ waiting, s.waiters m = some waiting ∧ ∃ k ∈ waiting, k ∈ keys := by
  simp only [earlierConflict, List.any_eq_true, List.mem_range, Option.any_eq_true, decide_eq_true_eq]

theorem grantable_iff : s.grantable n keys = true ↔
    (∀ m < n, ∀ waiting, s.waiters m = some waiting → ∀ k ∈ waiting, k ∉ keys) ∧
      ∀ k ∈ keys, s.active k = none := by
  rw [grantable, Bool.and_eq_true, free_iff, Bool.not_eq_true', ← Bool.not_eq_true, earlierConflict_iff]
  simp only [not_exists, not_and]

variable {keys' : List κ}

omit [LinearOrder κ] in
theorem removeWaiter_waiters {m : Nat} :
    (s.removeWaiter n).waiters m = some keys' ↔ m ≠ n ∧ s.waiters m = some keys' := by
  unfold removeWaiter
  dsimp only
  rw [Function.update_apply]
  split
  · next heq => simp [heq]
  · next hne => simp [hne]

def grant (s : LeaseState κ) (n token : Nat) (keys : List κ) (operation : CameraOperationKind) :
    LeaseState κ :=
  { s.removeWaiter n with
    nextToken := token
    active := fun key => if key ∈ keys then some ⟨token, operation⟩ else s.active key }

def register (s : LeaseState κ) (n : Nat) (keys : List κ) : LeaseState κ :=
  { s with nextWaiter := n, waiters := Function.update s.waiters n (some keys) }

theorem grantable_of_grant {m token : Nat} {operation : CameraOperationKind}
    (hn : s.waiters n = some keys) (h : (s.grant n token keys operation).grantable m keys' = true) :
    s.grantable m keys' = true := by
  rw [grantable_iff] at h ⊢
  obtain ⟨hearlier, hfree⟩ := h
  have happart : ∀ k ∈ keys', k ∉ keys ∧ s.active k = none := by
    intro k hk
    have hk' := hfree k hk
    unfold grant at hk'
    dsimp only at hk'
    split at hk'
    · cases hk'
    · next hnot => exact ⟨hnot, hk'⟩
  refine ⟨fun m' hm' waiting hwaiting k hk hmem => ?_, fun k hk => (happart k hk).2⟩
  by_cases heq : m' = n
  · subst heq
    cases hn.symm.trans hwaiting
    exact (happart k hmem).1 hk
  · refine hearlier m' hm' waiting ?_ k hk hmem
    unfold grant removeWaiter
    dsimp only
    rw [Function.update_of_ne heq]
    exact hwaiting

theorem grantable_register {m : Nat} (hm : m ≤ n) :
    (s.register n keys).grantable m keys' = s.grantable m keys' := by
  rw [Bool.eq_iff_iff, grantable_iff, grantable_iff]
  unfold register
  dsimp only
  refine and_congr_left' (forall₂_congr fun m' hm' => ?_)
  rw [Function.update_of_ne (by omega)]

end LeaseState

/-! ## The maps and the calls -/

/-- `asleep` and `held` are the requests and the permits that the state accounts for. -/
structure Exact (s : LeaseState κ) (asleep : Nat → Option (Nat × List κ))
    (held : Nat → Option (AuthorityPermit κ)) : Prop where
  waiters : ∀ n keys, s.waiters n = some keys ↔ ∃ r, asleep r = some (n, keys)
  numbers : ∀ {r r' : Nat} {n : Nat} {keys keys' : List κ}, asleep r = some (n, keys) →
    asleep r' = some (n, keys') → r = r'
  numbered : ∀ {r n : Nat} {keys : List κ}, asleep r = some (n, keys) → n ≤ s.nextWaiter
  active : ∀ k token, (s.active k).map ActiveLease.token = some token ↔
    ∃ r p, held r = some p ∧ k ∈ p.keys ∧ p.token = token
  exclusive : ∀ {r r' : Nat} {p p' : AuthorityPermit κ} {k : κ}, held r = some p → held r' = some p' →
    k ∈ p.keys → k ∈ p'.keys → r = r'

namespace Exact

variable {s : LeaseState κ} {asleep : Nat → Option (Nat × List κ)}
  {held : Nat → Option (AuthorityPermit κ)} {r n : Nat} {keys : List κ}

theorem register (h : Exact s asleep held) (hr : asleep r = none) (hn : n = s.nextWaiter + 1) :
    Exact (s.register n keys) (Function.update asleep r (some (n, keys))) held where
  waiters m keys' := by
    unfold LeaseState.register
    dsimp only
    by_cases hm : m = n
    · subst hm
      rw [Function.update_self]
      constructor
      · intro heq
        cases heq
        exact ⟨r, Function.update_self ..⟩
      · rintro ⟨r', hr'⟩
        by_cases heq : r' = r
        · subst heq
          rw [Function.update_self] at hr'
          cases hr'
          rfl
        · rw [Function.update_of_ne heq] at hr'
          have := h.numbered hr'
          omega
    · rw [Function.update_of_ne hm, h.waiters]
      refine exists_congr fun r' => ?_
      by_cases heq : r' = r
      · subst heq
        rw [Function.update_self, hr]
        simp [Ne.symm hm]
      · rw [Function.update_of_ne heq]
  numbers {r₁ r₂ m keys₁ keys₂} h₁ h₂ := by
    rw [Function.update_apply] at h₁ h₂
    split at h₁ <;> split at h₂
    · next e₁ e₂ => exact e₁.trans e₂.symm
    · cases h₁
      have := h.numbered h₂
      omega
    · cases h₂
      have := h.numbered h₁
      omega
    · exact h.numbers h₁ h₂
  numbered {r' m keys'} h' := by
    rw [Function.update_apply] at h'
    change m ≤ n
    split at h'
    · cases h'
      exact Nat.le_refl _
    · have := h.numbered h'
      omega
  active := h.active
  exclusive := h.exclusive

variable (h : Exact s asleep held)

include h

omit [LinearOrder κ] in
theorem leave (hr : asleep r = some (n, keys)) :
    Exact (s.removeWaiter n) (Function.update asleep r none) held where
  waiters m keys' := by
    unfold LeaseState.removeWaiter
    dsimp only
    by_cases hm : m = n
    · subst hm
      rw [Function.update_self]
      simp only [reduceCtorEq, false_iff, not_exists]
      intro r' hr'
      rw [Function.update_apply] at hr'
      split at hr'
      · cases hr'
      · next hne => exact hne (h.numbers hr' hr)
    · rw [Function.update_of_ne hm, h.waiters]
      refine exists_congr fun r' => ?_
      by_cases heq : r' = r
      · subst heq
        rw [Function.update_self, hr]
        simp [Ne.symm hm]
      · rw [Function.update_of_ne heq]
  numbers {r₁ r₂ m keys₁ keys₂} h₁ h₂ := by
    rw [Function.update_apply] at h₁ h₂
    split at h₁
    · cases h₁
    · split at h₂
      · cases h₂
      · exact h.numbers h₁ h₂
  numbered {r' m keys'} h' := by
    rw [Function.update_apply] at h'
    split at h'
    · cases h'
    · exact h.numbered h'
  active := h.active
  exclusive := h.exclusive

theorem grant {token : Nat} {operation : CameraOperationKind}
    (hr : asleep r = some (n, keys)) (hheld : held r = none) (hfree : ∀ k ∈ keys, s.active k = none) :
    Exact (s.grant n token keys operation) (Function.update asleep r none)
      (Function.update held r (some ⟨token, keys⟩)) where
  waiters := (h.leave hr).waiters
  numbers := (h.leave hr).numbers
  numbered := (h.leave hr).numbered
  active k t := by
    unfold LeaseState.grant
    dsimp only
    by_cases hk : k ∈ keys
    · rw [if_pos hk]
      constructor
      · intro heq
        exact ⟨r, ⟨token, keys⟩, Function.update_self .., hk, Option.some.inj heq⟩
      · rintro ⟨r', p, hp, hkp, rfl⟩
        rw [Function.update_apply] at hp
        split at hp
        · cases hp
          rfl
        · have hactive := (h.active k p.token).2 ⟨r', p, hp, hkp, rfl⟩
          rw [hfree k hk] at hactive
          cases hactive
    · rw [if_neg hk, h.active]
      refine exists_congr fun r' => exists_congr fun p => ?_
      by_cases heq : r' = r
      · subst heq
        rw [Function.update_self, hheld]
        constructor
        · rintro ⟨hp, -⟩
          cases hp
        · rintro ⟨hp, hkp, -⟩
          cases hp
          exact absurd hkp hk
      · rw [Function.update_of_ne heq]
  exclusive {r₁ r₂ p₁ p₂ k} h₁ h₂ hk₁ hk₂ := by
    have hnone : ∀ {r' p}, held r' = some p → k ∈ p.keys → k ∉ keys := by
      intro r' p hp hkp hk
      have hactive := (h.active k p.token).2 ⟨r', p, hp, hkp, rfl⟩
      rw [hfree k hk] at hactive
      cases hactive
    rw [Function.update_apply] at h₁ h₂
    split at h₁ <;> split at h₂
    · next e₁ e₂ => exact e₁.trans e₂.symm
    · cases h₁
      exact absurd hk₁ (hnone h₂ hk₂)
    · cases h₂
      exact absurd hk₂ (hnone h₁ hk₁)
    · exact h.exclusive h₁ h₂ hk₁ hk₂

theorem drop {p : AuthorityPermit κ} (hr : held r = some p) :
    Exact (s.drop p) asleep (Function.update held r none) where
  waiters := h.waiters
  numbers := h.numbers
  numbered := h.numbered
  active k t := by
    have hown : k ∈ p.keys → (s.active k).any (·.token = p.token) = true := by
      intro hk
      obtain ⟨lease, hlease, htoken⟩ := Option.map_eq_some_iff.1 ((h.active k p.token).2 ⟨r, p, hr, hk, rfl⟩)
      rw [hlease, Option.any_some, htoken]
      exact decide_eq_true rfl
    unfold LeaseState.drop
    dsimp only
    by_cases hk : k ∈ p.keys
    · rw [if_pos ⟨hk, hown hk⟩]
      simp only [Option.map_none, reduceCtorEq, false_iff, not_exists, not_and]
      intro r' p' hp' hkp'
      rw [Function.update_apply] at hp'
      split at hp'
      · cases hp'
      · next hne => exact absurd (h.exclusive hp' hr hkp' hk) hne
    · rw [if_neg (fun hc => hk hc.1), h.active]
      refine exists_congr fun r' => exists_congr fun p' => ?_
      by_cases heq : r' = r
      · subst heq
        rw [Function.update_self, hr]
        constructor
        · rintro ⟨hp, hkp, -⟩
          cases hp
          exact absurd hkp hk
        · rintro ⟨hp, -⟩
          cases hp
      · rw [Function.update_of_ne heq]
  exclusive {r₁ r₂ p₁ p₂ k} h₁ h₂ hk₁ hk₂ := by
    rw [Function.update_apply] at h₁ h₂
    split at h₁
    · cases h₁
    · split at h₂
      · cases h₂
      · exact h.exclusive h₁ h₂ hk₁ hk₂

end Exact

namespace World

/-! ## One step -/

def Accounts (w : World κ) : Prop :=
  Exact w.state (fun r => (w.calls r).asleep?) (fun r => (w.calls r).permit?)

/-- A request that could be granted has been signalled since it fell asleep. -/
def NoLost (w : World κ) : Prop :=
  ∀ r n keys, (w.calls r).asleep? = some (n, keys) → w.state.grantable n keys = true →
    (w.calls r).signalled = true

omit [LinearOrder κ] in
theorem move_calls (w : World κ) (r r' : Nat) (s : LeaseState κ) (c : Call κ) (b : Bool) :
    (w.move r s c b).calls r' =
      if r' = r then c else if b then (w.calls r').signal else w.calls r' := by
  unfold move
  dsimp only
  rw [Function.update_apply]

omit [LinearOrder κ] in
theorem asleep?_move (w : World κ) (r : Nat) (s : LeaseState κ) (c : Call κ) (b : Bool) :
    (fun r' => ((w.move r s c b).calls r').asleep?) =
      Function.update (fun r' => (w.calls r').asleep?) r c.asleep? := by
  funext r'
  rw [move_calls, Function.update_apply]
  split
  · rfl
  · cases b
    · rfl
    · exact Call.asleep?_signal _

omit [LinearOrder κ] in
theorem permit?_move (w : World κ) (r : Nat) (s : LeaseState κ) (c : Call κ) (b : Bool) :
    (fun r' => ((w.move r s c b).calls r').permit?) =
      Function.update (fun r' => (w.calls r').permit?) r c.permit? := by
  funext r'
  rw [move_calls, Function.update_apply]
  split
  · rfl
  · cases b
    · rfl
    · exact Call.permit?_signal _

/-- The round of a request that is asleep as `n`. -/
inductive Round (w : World κ) (r n : Nat) (keys : List κ) (operation : CameraOperationKind) :
    World κ → Prop where
  | failed (error : AcquireError) :
      Round w r n keys operation (w.move r (w.state.removeWaiter n) (.idle (some error)) true)
  | granted (token : Nat) (h : w.state.grantable n keys = true) :
      Round w r n keys operation
        (w.move r (w.state.grant n token keys operation) (.holding n ⟨token, keys⟩) false)
  | sleeps (h : w.state.grantable n keys = false) :
      Round w r n keys operation (w.move r w.state (.asleep n keys operation false) false)

theorem round_cases (w : World κ) (r n : Nat) (keys : List κ) (operation : CameraOperationKind)
    (expired : Bool) :
    let s := w.state.round n keys operation expired
    Round w r n keys operation (w.move r s.state (settle n keys operation s.outcome) s.notified) := by
  intro s
  simp only [s, LeaseState.round]
  cases hgrantable : w.state.grantable n keys with
  | true =>
    rw [if_pos rfl]
    cases checkedSucc w.state.nextToken with
    | none => exact .failed _
    | some token => exact .granted token hgrantable
  | false =>
    rw [if_neg Bool.false_ne_true]
    cases expired with
    | true => exact .failed _
    | false => exact .sleeps hgrantable

def register (w : World κ) (r n : Nat) (keys : List κ) (operation : CameraOperationKind) : World κ :=
  w.move r (w.state.register n keys) (.asleep n keys operation false) false

omit [LinearOrder κ] in
theorem move_register (w : World κ) (r n : Nat) (keys : List κ) (operation : CameraOperationKind)
    (s : LeaseState κ) (c : Call κ) (b : Bool) :
    (w.register r n keys operation).move r s c b = w.move r s c b := by
  have hcalls : ((w.register r n keys operation).move r s c b).calls = (w.move r s c b).calls := by
    funext r'
    rw [move_calls, move_calls, register, move_calls]
    split
    · rfl
    · rw [if_neg Bool.false_ne_true]
  unfold move at hcalls ⊢
  dsimp only at hcalls
  rw [hcalls]

inductive Stepped (w : World κ) : Event κ → World κ → Prop where
  | refused {r : Nat} {keys : List κ} {operation : CameraOperationKind} {expired : Bool}
      {before : Option AcquireError} (hr : w.calls r = .idle before) (error : AcquireError) :
      Stepped w (.acquire r keys operation expired) (w.move r w.state (.idle (some error)) false)
  | fresh {r : Nat} {keys : List κ} {operation : CameraOperationKind} {expired : Bool}
      {before : Option AcquireError} {w' : World κ} (hr : w.calls r = .idle before)
      (h : (w.register r (w.state.nextWaiter + 1) (LeaseState.keySet keys) operation).Round r
        (w.state.nextWaiter + 1) (LeaseState.keySet keys) operation w') :
      Stepped w (.acquire r keys operation expired) w'
  | woken {r n : Nat} {keys : List κ} {operation : CameraOperationKind} {timedOut expired : Bool}
      {signalled : Bool} {w' : World κ} (hr : w.calls r = .asleep n keys operation signalled)
      (h : w.Round r n keys operation w') : Stepped w (.wake r timedOut expired) w'
  | dropped {r n : Nat} {p : AuthorityPermit κ} (hr : w.calls r = .holding n p) :
      Stepped w (.dropPermit r) (w.move r (w.state.drop p) (.idle none) true)

variable {w w' : World κ} {e : Event κ}

theorem stepped (h : w.step e = some w') : w.Stepped e w' := by
  cases e with
  | acquire r keys operation expired =>
    simp only [step] at h
    split at h
    · next before hr =>
      cases h
      unfold LeaseState.acquire
      split
      · exact .refused hr _
      · cases hwaiter : checkedSucc w.state.nextWaiter with
        | none => exact .refused hr _
        | some n =>
          obtain rfl := eq_succ_of_checkedSucc hwaiter
          refine .fresh hr ?_
          have hround := round_cases (w.register r (w.state.nextWaiter + 1) (LeaseState.keySet keys)
            operation) r (w.state.nextWaiter + 1) (LeaseState.keySet keys) operation expired
          dsimp only at hround
          rwa [move_register] at hround
    · cases h
  | wake r timedOut expired =>
    simp only [step] at h
    split at h
    · next n keys operation signalled hr =>
      cases h
      refine .woken hr ?_
      unfold LeaseState.wake
      cases timedOut with
      | true => exact .failed _
      | false => exact round_cases w r n keys operation expired
    · cases h
  | dropPermit r =>
    simp only [step] at h
    split at h
    · next n p hr =>
      cases h
      exact .dropped hr
    · cases h

/-! ## What every step keeps -/

variable {keys : List κ} {r n : Nat} {operation : CameraOperationKind}

theorem Accounts.round
    {signalled : Bool} (h : w.Accounts) (hr : w.calls r = .asleep n keys operation signalled)
    (hround : w.Round r n keys operation w') : w'.Accounts := by
  have hasleep : (w.calls r).asleep? = some (n, keys) := by rw [hr]; rfl
  have hheld : (w.calls r).permit? = none := by rw [hr]; rfl
  unfold Accounts
  cases hround with
  | failed error =>
    have hnoPermit : (Call.idle (κ := κ) (some error)).permit? = (w.calls r).permit? := hheld.symm
    rw [asleep?_move, permit?_move, hnoPermit, Function.update_eq_self r fun r' => (w.calls r').permit?]
    exact h.leave hasleep
  | granted token hgrantable =>
    rw [asleep?_move, permit?_move]
    exact h.grant hasleep hheld (LeaseState.grantable_iff.1 hgrantable).2
  | sleeps hgrantable =>
    have hsame : (Call.asleep n keys operation false).asleep? = (w.calls r).asleep? := hasleep.symm
    have hnoPermit : (Call.asleep n keys operation false).permit? = (w.calls r).permit? := hheld.symm
    rw [asleep?_move, permit?_move, hsame, hnoPermit, Function.update_eq_self r fun r' => (w.calls r').asleep?,
      Function.update_eq_self r fun r' => (w.calls r').permit?]
    exact h

variable {w : World κ}

theorem Accounts.register {r : Nat}
    {before : Option AcquireError} (h : w.Accounts) (hr : w.calls r = .idle before) :
    (w.register r (w.state.nextWaiter + 1) keys operation).Accounts := by
  have hasleep : (w.calls r).asleep? = none := by rw [hr]; rfl
  have hheld : (Call.asleep (w.state.nextWaiter + 1) keys operation false).permit? =
      (w.calls r).permit? := by rw [hr]; rfl
  unfold Accounts World.register
  rw [asleep?_move, permit?_move, hheld, Function.update_eq_self r fun r' => (w.calls r').permit?]
  exact Exact.register h hasleep rfl

theorem Accounts.stepped (h : w.Accounts) (hstep : w.Stepped e w') :
    w'.Accounts := by
  cases hstep with
  | @refused r _ _ _ before hr error =>
    have hasleep : (Call.idle (κ := κ) (some error)).asleep? = (w.calls r).asleep? := by rw [hr]; rfl
    have hheld : (Call.idle (κ := κ) (some error)).permit? = (w.calls r).permit? := by rw [hr]; rfl
    unfold Accounts
    rw [asleep?_move, permit?_move, hasleep, hheld, Function.update_eq_self r fun r' => (w.calls r').asleep?,
      Function.update_eq_self r fun r' => (w.calls r').permit?]
    exact h
  | fresh hr hround => exact (h.register hr).round (by rw [World.register, move_calls, if_pos rfl]) hround
  | woken hr hround => exact h.round hr hround
  | @dropped r n p hr =>
    have hasleep : (Call.idle (κ := κ) none).asleep? = (w.calls r).asleep? := by rw [hr]; rfl
    unfold Accounts
    rw [asleep?_move, permit?_move, hasleep, Function.update_eq_self r fun r' => (w.calls r').asleep?]
    exact Exact.drop h (by rw [hr]; rfl)

/-! ## No wake-up is missed -/

omit [LinearOrder κ] in
theorem signalled_of_notified {r : Nat} {s : LeaseState κ} {c : Call κ}
    (hc : c.asleep? = none) {r' : Nat} {a : Nat × List κ}
    (h : ((w.move r s c true).calls r').asleep? = some a) :
    ((w.move r s c true).calls r').signalled = true := by
  rw [move_calls] at h ⊢
  split at h
  · rw [hc] at h
    cases h
  · next hne =>
    rw [if_pos rfl, Call.asleep?_signal] at h
    rw [if_neg hne, if_pos rfl]
    exact Call.signalled_signal h

/-- What sleeps and can be granted after a step of `r` did and could before it, or the step has
signalled all that sleep. -/
def Wakes (w w' : World κ) (r : Nat) : Prop :=
  ∀ r' n keys, (w'.calls r').asleep? = some (n, keys) → w'.state.grantable n keys = true →
    (r' ≠ r ∧ (w.calls r').asleep? = some (n, keys) ∧ w.state.grantable n keys = true ∧
      (w'.calls r').signalled = (w.calls r').signalled) ∨
    (w'.notified = true ∧ ∀ r' a, (w'.calls r').asleep? = some a → (w'.calls r').signalled = true)

theorem wakes_of_silent {r : Nat} {s : LeaseState κ} {c : Call κ}
    (hcaller : ∀ n keys, c.asleep? = some (n, keys) → s.grantable n keys = false)
    (hothers : ∀ r' n keys, r' ≠ r → (w.calls r').asleep? = some (n, keys) →
      s.grantable n keys = true → w.state.grantable n keys = true) :
    Wakes w (w.move r s c false) r := by
  intro r' n keys hasleep hgrantable
  rw [move_calls] at hasleep ⊢
  split at hasleep
  · have hfalse := hcaller n keys hasleep
    rw [move, hfalse] at hgrantable
    cases hgrantable
  · next hne =>
    rw [if_neg hne, if_neg Bool.false_ne_true]
    exact .inl ⟨hne, hasleep, hothers r' n keys hne hasleep hgrantable, rfl⟩

theorem Round.wakes
    {signalled : Bool} (h : w.Accounts) (hr : w.calls r = .asleep n keys operation signalled)
    (hround : w.Round r n keys operation w') : Wakes w w' r := by
  cases hround with
  | failed error => exact fun _ _ _ _ _ => .inr ⟨rfl, fun r' a => signalled_of_notified rfl⟩
  | granted token hown =>
    have hn : w.state.waiters n = some keys := (h.waiters n keys).2 ⟨r, by rw [hr]; rfl⟩
    refine wakes_of_silent (fun _ _ hc => by cases hc) fun _ _ _ _ _ hgrantable => ?_
    exact LeaseState.grantable_of_grant hn hgrantable
  | sleeps hown =>
    refine wakes_of_silent (fun m keys' hc => ?_) fun _ _ _ _ _ hgrantable => hgrantable
    cases hc
    exact hown

theorem Stepped.wakes (h : w.Accounts) (hstep : w.Stepped e w') :
    Wakes w w' e.caller := by
  cases hstep with
  | refused hr error =>
    exact wakes_of_silent (fun _ _ hc => by cases hc) fun _ _ _ _ _ hgrantable => hgrantable
  | @fresh r keys operation _ before _ hr hround =>
    intro r' m keys' hasleep hgrantable
    have hwakes := hround.wakes (h.register hr) (by rw [World.register, move_calls, if_pos rfl])
    obtain ⟨hne, hbefore, hcould, hsignalled⟩ | hall := hwakes r' m keys' hasleep hgrantable
    · rw [World.register, move_calls, if_neg hne, if_neg Bool.false_ne_true] at hbefore hsignalled
      refine .inl ⟨hne, hbefore, ?_, hsignalled⟩
      have hm := h.numbered hbefore
      rwa [World.register, move, LeaseState.grantable_register (by omega)] at hcould
    · exact .inr hall
  | woken hr hround => exact hround.wakes h hr
  | dropped hr => exact fun _ _ _ _ _ => .inr ⟨rfl, fun r' a => signalled_of_notified rfl⟩

theorem NoLost.stepped (h : w.NoLost) (haccounts : w.Accounts)
    (hstep : w.Stepped e w') : w'.NoLost := by
  intro r n keys hasleep hgrantable
  obtain ⟨-, hbefore, hcould, hsignalled⟩ | ⟨-, hall⟩ := hstep.wakes haccounts r n keys hasleep hgrantable
  · rw [hsignalled]
    exact h r n keys hbefore hcould
  · exact hall r _ hasleep

/-! ## What a step grants and what it gives up -/

/-- What the claims of a step's caller come to. -/
structure Fair (w : World κ) (e : Event κ) (w' : World κ) : Prop where
  /-- A fresh request draws a number above those of all that wait. -/
  behind : ∀ r keys operation expired, e = .acquire r keys operation expired →
    ∀ n, (w'.calls r).waiter? = some n →
      ∀ r' m keys', (w.calls r').asleep? = some (m, keys') → m < n
  /-- A request keeps its number and its keys while it waits. -/
  keeps : ∀ r a b, (w.calls r).asleep? = some a → (w'.calls r).asleep? = some b → a = b
  /-- A permit shares no key with an earlier request that still waits. -/
  granted : ∀ n p, (w.calls e.caller).permit? = none → w'.calls e.caller = .holding n p →
    ∀ r m keys, (w'.calls r).asleep? = some (m, keys) → m < n → ∀ k ∈ keys, k ∉ p.keys
  /-- An error leaves the waiters of the others, and the active keys as they were. -/
  failed : ∀ error, w'.calls e.caller = .idle (some error) → w'.state.active = w.state.active ∧
    ∀ n keys, w'.state.waiters n = some keys ↔
      w.state.waiters n = some keys ∧ (w.calls e.caller).asleep? ≠ some (n, keys)
  /-- Whoever becomes grantable has been signalled by the step, with all that sleep. -/
  signals : ∀ r n keys, (w'.calls r).asleep? = some (n, keys) → w'.state.grantable n keys = true →
    ¬((w.calls r).asleep? = some (n, keys) ∧ w.state.grantable n keys = true) →
      w'.notified = true ∧ ∀ r' a, (w'.calls r').asleep? = some a → (w'.calls r').signalled = true

/-- How the round of `r` ends for `r`, and that the others stay where they are. -/
structure RoundEnds (w : World κ) (r n : Nat) (keys : List κ) (w' : World κ) : Prop where
  waiter : ∀ m, (w'.calls r).waiter? = some m → m = n
  asleep : ∀ a, (w'.calls r).asleep? = some a → a = (n, keys)
  others : ∀ r', r' ≠ r → (w'.calls r').asleep? = (w.calls r').asleep?
  granted : ∀ m p, w'.calls r = .holding m p → m = n ∧ p.keys = keys ∧
    w.state.grantable n keys = true
  failed : ∀ error, w'.calls r = .idle (some error) → w'.state = w.state.removeWaiter n

theorem Round.ends (hround : w.Round r n keys operation w') : RoundEnds w r n keys w' := by
  have hothers : ∀ s c b r', r' ≠ r →
      ((w.move r s c b).calls r').asleep? = (w.calls r').asleep? := by
    intro s c b r' hne
    rw [move_calls, if_neg hne]
    cases b
    · rfl
    · exact Call.asleep?_signal _
  have hcaller : ∀ s c b, (w.move r s c b).calls r = c := fun s c b => by rw [move_calls, if_pos rfl]
  cases hround with
  | failed error =>
    refine ⟨?_, ?_, hothers _ _ _, ?_, fun _ _ => rfl⟩
    all_goals
      rw [hcaller]
      intros
      contradiction
  | granted token hgrantable =>
    refine ⟨?_, ?_, hothers _ _ _, ?_, ?_⟩
    all_goals rw [hcaller]
    · exact fun m hm => (Option.some.inj hm).symm
    · intros
      contradiction
    · intro m p h
      cases h
      exact ⟨rfl, rfl, hgrantable⟩
    · intros
      contradiction
  | sleeps hgrantable =>
    refine ⟨?_, ?_, hothers _ _ _, ?_, ?_⟩
    all_goals rw [hcaller]
    · exact fun m hm => (Option.some.inj hm).symm
    · exact fun a ha => (Option.some.inj ha).symm
    · intros
      contradiction
    · intros
      contradiction

theorem RoundEnds.apart (hends : RoundEnds w r n keys w')
    (h : w.Accounts) {m : Nat} {p : AuthorityPermit κ} (hholds : w'.calls r = .holding m p)
    {r' m' : Nat} {keys' : List κ} (hasleep : (w'.calls r').asleep? = some (m', keys')) (hlt : m' < m) :
    ∀ k ∈ keys', k ∉ p.keys := by
  obtain ⟨rfl, rfl, hgrantable⟩ := hends.granted m p hholds
  have hne : r' ≠ r := by
    rintro rfl
    rw [hholds] at hasleep
    cases hasleep
  rw [hends.others r' hne] at hasleep
  exact (LeaseState.grantable_iff.1 hgrantable).1 m' hlt keys' ((h.waiters m' keys').2 ⟨r', hasleep⟩)

theorem signals_of_wakes {r₀ : Nat} (h : Wakes w w' r₀) (r n : Nat) (keys : List κ)
    (hasleep : (w'.calls r).asleep? = some (n, keys)) (hgrantable : w'.state.grantable n keys = true)
    (hnew : ¬((w.calls r).asleep? = some (n, keys) ∧ w.state.grantable n keys = true)) :
    w'.notified = true ∧ ∀ r' a, (w'.calls r').asleep? = some a → (w'.calls r').signalled = true := by
  obtain ⟨-, hbefore, hcould, -⟩ | hall := h r n keys hasleep hgrantable
  · exact absurd ⟨hbefore, hcould⟩ hnew
  · exact hall

theorem Stepped.fair (h : w.Accounts) (hstep : w.Stepped e w') :
    Fair w e w' := by
  have hsignals := signals_of_wakes (hstep.wakes h)
  cases hstep with
  | @refused r _ _ _ before hr error =>
    have hcaller : (w.move r w.state (.idle (some error)) false).calls r = .idle (some error) := by
      rw [move_calls, if_pos rfl]
    refine ⟨?_, ?_, ?_, ?_, hsignals⟩
    · rintro _ _ _ _ ⟨⟩ n hn
      rw [hcaller] at hn
      cases hn
    · intro r' a b ha hb
      rw [move_calls] at hb
      split at hb
      · cases hb
      · exact Option.some.inj (ha.symm.trans hb)
    · intro n p _ hp
      rw [Event.caller, hcaller] at hp
      cases hp
    · intro _ _
      refine ⟨rfl, fun n keys => ?_⟩
      rw [Event.caller, hr]
      simp [Call.asleep?, move]
  | @fresh r keys operation expired before _ hr hround =>
    have hends := hround.ends
    have hregistered : (w.register r (w.state.nextWaiter + 1) (LeaseState.keySet keys)
        operation).Accounts := h.register hr
    have hbefore : ∀ r', r' ≠ r → (w'.calls r').asleep? = (w.calls r').asleep? := by
      intro r' hne
      rw [hends.others r' hne, World.register, move_calls, if_neg hne, if_neg Bool.false_ne_true]
    refine ⟨?_, ?_, ?_, ?_, hsignals⟩
    · rintro _ _ _ _ ⟨⟩ n hn r' m keys' hasleep
      have hm := h.numbered hasleep
      have hn' := hends.waiter n hn
      omega
    · intro r' a b ha hb
      have hne : r' ≠ r := by
        rintro rfl
        rw [hr] at ha
        cases ha
      rw [hbefore r' hne] at hb
      exact Option.some.inj (ha.symm.trans hb)
    · intro n p _ hp r' m keys' hasleep hlt
      exact hends.apart hregistered hp hasleep hlt
    · intro error herror
      rw [hends.failed error herror]
      refine ⟨rfl, fun m keys' => ?_⟩
      have hfresh : w.state.waiters m = some keys' → m ≠ w.state.nextWaiter + 1 := by
        intro hm
        obtain ⟨r', hr'⟩ := (h.waiters m keys').1 hm
        have := h.numbered hr'
        omega
      rw [LeaseState.removeWaiter_waiters, Event.caller, hr]
      simp only [World.register, move, LeaseState.register, Function.update_apply]
      constructor
      · rintro ⟨hne, hm⟩
        rw [if_neg hne] at hm
        exact ⟨hm, fun heq => by cases heq⟩
      · rintro ⟨hm, -⟩
        exact ⟨hfresh hm, by rwa [if_neg (hfresh hm)]⟩
  | @woken r n keys operation timedOut expired signalled _ hr hround =>
    have hends := hround.ends
    have hasleep : (w.calls r).asleep? = some (n, keys) := by rw [hr]; rfl
    refine ⟨?_, ?_, ?_, ?_, hsignals⟩
    · rintro _ _ _ _ ⟨⟩
    · intro r' a b ha hb
      by_cases hne : r' = r
      · subst hne
        rw [hasleep] at ha
        exact (Option.some.inj ha).symm.trans (hends.asleep b hb).symm
      · rw [hends.others r' hne] at hb
        exact Option.some.inj (ha.symm.trans hb)
    · intro m p _ hp r' m' keys' hasleep' hlt
      exact hends.apart h hp hasleep' hlt
    · intro error herror
      rw [hends.failed error herror]
      refine ⟨rfl, fun m keys' => ?_⟩
      have hn : w.state.waiters n = some keys := (h.waiters n keys).2 ⟨r, hasleep⟩
      rw [LeaseState.removeWaiter_waiters, Event.caller, hasleep]
      constructor
      · rintro ⟨hne, hm⟩
        exact ⟨hm, fun heq => hne (Prod.mk.inj (Option.some.inj heq)).1.symm⟩
      · rintro ⟨hm, hnot⟩
        refine ⟨?_, hm⟩
        rintro rfl
        exact hnot (congrArg (fun x => some (m, x)) (Option.some.inj (hn.symm.trans hm)))
  | @dropped r n p hr =>
    have hcaller : (w.move r (w.state.drop p) (.idle none) true).calls r = .idle none := by
      rw [move_calls, if_pos rfl]
    refine ⟨?_, ?_, ?_, ?_, hsignals⟩
    · rintro _ _ _ _ ⟨⟩
    · intro r' a b ha hb
      rw [move_calls] at hb
      split at hb
      · cases hb
      · rw [if_pos rfl, Call.asleep?_signal] at hb
        exact Option.some.inj (ha.symm.trans hb)
    · intro m q _ hq
      rw [Event.caller, hcaller] at hq
      cases hq
    · intro error herror
      rw [Event.caller, hcaller] at herror
      cases herror

/-! ## Every run -/

/-- What holds of the authority and its calls at every moment. -/
structure Sound (w : World κ) : Prop where
  exclusive : ∀ r r' p p' k, (w.calls r).permit? = some p → (w.calls r').permit? = some p' →
    k ∈ p.keys → k ∈ p'.keys → r = r'
  active : ∀ k token, (w.state.active k).map ActiveLease.token = some token ↔
    ∃ r p, (w.calls r).permit? = some p ∧ k ∈ p.keys ∧ p.token = token
  waiters : ∀ n keys, w.state.waiters n = some keys ↔ ∃ r, (w.calls r).asleep? = some (n, keys)
  /-- A request that can be granted has been signalled since it fell asleep. -/
  noLost : w.NoLost
  oldest : (∀ r, (w.calls r).permit? = none) → ∀ n keys, w.state.waiters n = some keys →
    (∀ m keys', w.state.waiters m = some keys' → n ≤ m) → w.state.grantable n keys = true

theorem Accounts.sound (h : w.Accounts) (hlost : w.NoLost) : w.Sound where
  exclusive _ _ _ _ _ hp hp' hk hk' := h.exclusive hp hp' hk hk'
  active := h.active
  waiters := h.waiters
  noLost := hlost
  oldest hfree n keys _ holdest := by
    rw [LeaseState.grantable_iff]
    refine ⟨fun m hm waiting hwaiting => ?_, fun k _ => ?_⟩
    · have := holdest m waiting hwaiting
      omega
    · cases hactive : w.state.active k with
      | none => rfl
      | some lease =>
        obtain ⟨r, p, hp, -⟩ := (h.active k lease.token).1 (by rw [hactive]; rfl)
        rw [hfree r] at hp
        cases hp

omit [LinearOrder κ] in
theorem accounts_new : (new : World κ).Accounts where
  waiters n keys := by simp [new, LeaseState.new, Call.asleep?]
  numbers h := by cases h
  numbered h := by cases h
  active k token := by simp [new, LeaseState.new, Call.permit?]
  exclusive h := by cases h

theorem accounts_run {events : List (Event κ)} (h : run step new events = some w) :
    w.Accounts ∧ w.NoLost := by
  refine run_invariant (I := fun w => w.Accounts ∧ w.NoLost) ?_ ⟨accounts_new, ?_⟩ h
  · intro s e s' hs hstep
    exact ⟨hs.1.stepped (stepped hstep), hs.2.stepped hs.1 (stepped hstep)⟩
  · intro r n keys hasleep
    cases hasleep

/-- **Camera leases are exclusive, fair and never lost.** -/
theorem leases_exclusive_fair {events : List (Event κ)} {w : World κ}
    (h : run step new events = some w) :
    w.Sound ∧ ∀ e w', w.step e = some w' → Fair w e w' := by
  obtain ⟨haccounts, hlost⟩ := accounts_run h
  exact ⟨haccounts.sound hlost, fun e w' hstep => (stepped hstep).fair haccounts⟩

/-- A second camera is asked for with one that is held, and granted when that is dropped. -/
def sampleRun : List (Event Nat) :=
  [.acquire 0 [1] .setup false, .acquire 1 [2, 1] .preview false, .dropPermit 0, .wake 1 false false]

/-- The waiter has its permit. -/
theorem leases_exclusive_fair_sample : ∃ w, run step (new : World Nat) sampleRun = some w ∧
    (w.calls 1).permit? = some ⟨2, [1, 2]⟩ ∧ w.Sound :=
  ⟨_, rfl, rfl, (@leases_exclusive_fair Nat _ sampleRun _ rfl).1⟩

end World

end Irlume.Lease

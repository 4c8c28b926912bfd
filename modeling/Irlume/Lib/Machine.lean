import Mathlib.Algebra.GroupWithZero.Nat
import Mathlib.Data.List.Basic
import Mathlib.Data.List.Induction
import Mathlib.Order.Basic

/-!
# Guarded machines and their runs

A machine takes events. An event the machine cannot take in a state is refused (`none`), so a run
is a list of events each of which was enabled when it came. Every nondeterministic choice (a fault,
a tick, a crash) is part of the event, which keeps the step function executable.
-/

namespace Irlume.Lib

universe u v

variable {σ : Type u} {ε : Type v}

/-- Take the events in order; `none` when one of them is not enabled. -/
def run (step : σ → ε → Option σ) : σ → List ε → Option σ
  | s, [] => some s
  | s, e :: es => (step s e).bind fun s' => run step s' es

/-- The states a run passes through, the first included. A refused event ends the list. -/
def states (step : σ → ε → Option σ) : σ → List ε → List σ
  | s, [] => [s]
  | s, e :: es =>
    match step s e with
    | none => [s]
    | some s' => s :: states step s' es

/-- The steps a run takes, each with the state it is taken in. -/
def steps (step : σ → ε → Option σ) : σ → List ε → List (σ × ε)
  | _, [] => []
  | s, e :: es =>
    match step s e with
    | none => []
    | some s' => (s, e) :: steps step s' es

variable {step : σ → ε → Option σ}

@[simp] theorem run_nil (s : σ) : run step s [] = some s := rfl

theorem run_cons (s : σ) (e : ε) (es : List ε) :
    run step s (e :: es) = (step s e).bind fun s' => run step s' es := rfl

variable {es : List ε} {s t : σ}

theorem run_cons_some {e : ε} :
    run step s (e :: es) = some t ↔ ∃ m, step s e = some m ∧ run step m es = some t := by
  rw [run_cons, Option.bind_eq_some_iff]

theorem run_append (s : σ) (es fs : List ε) :
    run step s (es ++ fs) = (run step s es).bind fun m => run step m fs := by
  induction es generalizing s with
  | nil => rfl
  | cons e es ih =>
    rw [List.cons_append, run_cons, run_cons]
    cases step s e with
    | none => rfl
    | some m => exact ih m

variable {es fs : List ε}

theorem run_append_some :
    run step s (es ++ fs) = some t ↔ ∃ m, run step s es = some m ∧ run step m fs = some t := by
  rw [run_append, Option.bind_eq_some_iff]

theorem run_concat_some {e : ε} :
    run step s (es ++ [e]) = some t ↔ ∃ m, run step s es = some m ∧ step m e = some t := by
  simp only [run_append_some, run_cons_some, run_nil, Option.some.injEq, exists_eq_right]

theorem mem_states_of_run (h : run step s es = some t) (fs : List ε) :
    t ∈ states step s (es ++ fs) := by
  induction es generalizing s with
  | nil =>
    rw [run_nil, Option.some.injEq] at h
    subst h
    cases fs with
    | nil => simp [states]
    | cons e fs =>
      rw [List.nil_append, states]
      split <;> simp
  | cons e es ih =>
    obtain ⟨m, hm, ht⟩ := run_cons_some.1 h
    rw [List.cons_append, states, hm]
    exact List.mem_cons_of_mem _ (ih ht)

theorem end_mem_states (h : run step s es = some t) : t ∈ states step s es := by
  have ht := mem_states_of_run h []
  rwa [List.append_nil] at ht

theorem exists_run_of_mem_states (h : t ∈ states step s es) :
    ∃ es₁ es₂, es = es₁ ++ es₂ ∧ run step s es₁ = some t := by
  induction es generalizing s with
  | nil => exact ⟨[], [], rfl, by rw [states, List.mem_singleton] at h; rw [h, run_nil]⟩
  | cons e es ih =>
    rw [states] at h
    split at h
    · exact ⟨[], e :: es, rfl, by rw [List.mem_singleton] at h; rw [h, run_nil]⟩
    · next m hm =>
      rcases List.mem_cons.1 h with rfl | h
      · exact ⟨[], e :: es, rfl, run_nil t⟩
      · obtain ⟨es₁, es₂, rfl, hrun⟩ := ih h
        exact ⟨e :: es₁, es₂, rfl, run_cons_some.2 ⟨m, hm, hrun⟩⟩

theorem mem_steps_iff {s : σ} {x : σ × ε} : x ∈ steps step s es ↔
    ∃ es₁ es₂, es = es₁ ++ x.2 :: es₂ ∧ run step s es₁ = some x.1 ∧ (step x.1 x.2).isSome := by
  induction es generalizing s with
  | nil => simp [steps]
  | cons e es ih =>
    rw [steps]
    cases hm : step s e with
    | none =>
      simp only [List.not_mem_nil, false_iff]
      rintro ⟨es₁, es₂, heq, hrun, hsome⟩
      cases es₁ with
      | nil =>
        cases heq
        cases hrun
        rw [hm] at hsome
        cases hsome
      | cons e' es₁ =>
        cases heq
        rw [run_cons, hm] at hrun
        cases hrun
    | some m =>
      rw [List.mem_cons, ih]
      constructor
      · rintro (rfl | ⟨es₁, es₂, rfl, hrun, hsome⟩)
        · exact ⟨[], es, rfl, rfl, by rw [hm]; rfl⟩
        · exact ⟨e :: es₁, es₂, rfl, run_cons_some.2 ⟨m, hm, hrun⟩, hsome⟩
      · rintro ⟨es₁, es₂, heq, hrun, hsome⟩
        cases es₁ with
        | nil =>
          cases heq
          exact .inl (Prod.ext (Option.some.inj hrun).symm rfl)
        | cons e' es₁ =>
          cases heq
          obtain ⟨m', hm', hrun⟩ := run_cons_some.1 hrun
          cases hm.symm.trans hm'
          exact .inr ⟨es₁, es₂, rfl, hrun, hsome⟩

theorem mem_steps_append_left {s : σ} {x : σ × ε} (h : x ∈ steps step s es) :
    x ∈ steps step s (es ++ fs) := by
  obtain ⟨es₁, es₂, rfl, hrun, hsome⟩ := mem_steps_iff.1 h
  exact mem_steps_iff.2 ⟨es₁, es₂ ++ fs, by rw [List.append_assoc, List.cons_append], hrun, hsome⟩

theorem mem_steps_append_right {s m : σ} {x : σ × ε} (hm : run step s es = some m)
    (h : x ∈ steps step m fs) : x ∈ steps step s (es ++ fs) := by
  obtain ⟨fs₁, fs₂, rfl, hrun, hsome⟩ := mem_steps_iff.1 h
  refine mem_steps_iff.2 ⟨es ++ fs₁, fs₂, by rw [List.append_assoc], ?_, hsome⟩
  exact run_append_some.2 ⟨m, hm, hrun⟩

variable {I : σ → Prop} {C : σ → ε → Prop}

theorem run_invariant_steps
    (hstep : ∀ {s e s'}, C s e → I s → step s e = some s' → I s')
    (hC : ∀ x ∈ steps step s es, C x.1 x.2) (hs : I s)
    (h : run step s es = some t) : I t := by
  induction es generalizing s with
  | nil =>
    rw [run_nil, Option.some.injEq] at h
    exact h ▸ hs
  | cons e es ih =>
    obtain ⟨m, hm, ht⟩ := run_cons_some.1 h
    rw [steps, hm] at hC
    obtain ⟨he, hes⟩ := List.forall_mem_cons.1 hC
    exact ih hes (hstep he hs hm) ht

theorem states_invariant_steps (hstep : ∀ {s e s'}, C s e → I s → step s e = some s' → I s') {s : σ}
    (hC : ∀ x ∈ steps step s es, C x.1 x.2) (hs : I s) : ∀ t ∈ states step s es, I t := by
  induction es generalizing s with
  | nil => simpa [states] using hs
  | cons e es ih =>
    rw [states]
    rw [steps] at hC
    cases hm : step s e with
    | none => simpa using hs
    | some m =>
      rw [hm] at hC
      obtain ⟨he, hes⟩ := List.forall_mem_cons.1 hC
      exact List.forall_mem_cons.2 ⟨hs, ih hes (hstep he hs hm)⟩

theorem run_invariant_of {P : ε → Prop}
    (hstep : ∀ {s e s'}, P e → I s → step s e = some s' → I s') (hP : ∀ e ∈ es, P e) (hs : I s)
    (h : run step s es = some t) : I t := by
  refine run_invariant_steps (C := fun _ => P) hstep (fun x hx => ?_) hs h
  obtain ⟨es₁, es₂, rfl, -, -⟩ := mem_steps_iff.1 hx
  exact hP x.2 (List.mem_append_right _ List.mem_cons_self)

/-- **The invariant rule.** What every enabled step keeps, a whole run keeps. -/
theorem run_invariant (hstep : ∀ {s e s'}, I s → step s e = some s' → I s') (hs : I s)
    (h : run step s es = some t) : I t :=
  run_invariant_of (P := fun _ => True) (fun _ => hstep) (fun _ _ => trivial) hs h

theorem run_invariant_past {I : List ε → σ → Prop} (hnil : I [] s)
    (hstep : ∀ {past m e m'}, run step s past = some m → I past m → step m e = some m' →
      I (past ++ [e]) m') (h : run step s es = some t) : I es t := by
  induction es using List.reverseRecOn generalizing t with
  | nil =>
    rw [run_nil, Option.some.injEq] at h
    exact h ▸ hnil
  | append_singleton es e ih =>
    obtain ⟨m, hm, ht⟩ := run_concat_some.1 h
    exact hstep hm (ih hm) ht

/-- **Two runs side by side.** What pairs of steps keep, each taken under its condition, two runs of paired
events keep. -/
theorem run_related {τ : Type*} {φ : Type*} {step' : τ → φ → Option τ} {R : σ → τ → Prop}
    {E : ε → φ → Prop} {D : τ → φ → Prop}
    (hstep : ∀ {s s' e t t' f}, R s t → E e f → C s e → D t f → step s e = some s' → step' t f = some t' → R s' t') {fs : List φ} (hE : List.Forall₂ E es fs) {s s' : σ} {t t' : τ} (hs : R s t)
    (hC : ∀ x ∈ steps step s es, C x.1 x.2) (hD : ∀ x ∈ steps step' t fs, D x.1 x.2)
    (h : run step s es = some s') (h' : run step' t fs = some t') : R s' t' := by
  induction hE generalizing s t with
  | nil =>
    rw [run_nil, Option.some.injEq] at h h'
    exact h ▸ h' ▸ hs
  | cons he _ ih =>
    obtain ⟨m, hm, hrun⟩ := run_cons_some.1 h
    obtain ⟨n, hn, hrun'⟩ := run_cons_some.1 h'
    rw [steps, hm] at hC
    rw [steps, hn] at hD
    obtain ⟨hCe, hCes⟩ := List.forall_mem_cons.1 hC
    obtain ⟨hDf, hDfs⟩ := List.forall_mem_cons.1 hD
    exact ih (hstep hs he hCe hDf hm hn) hCes hDfs hrun hrun'

/-- **The exactness rule.** When a step from a good state ends in a good state exactly if it meets a
condition on the state before it, all the states of a run are good exactly if all its steps meet
the condition. -/
theorem states_forall_iff_steps {P : σ → Prop}
    (hstep : ∀ {s e s'}, P s → step s e = some s' → (P s' ↔ C s e)) {s : σ} (hs : P s)
    (es : List ε) :
    (∀ t ∈ states step s es, P t) ↔ ∀ x ∈ steps step s es, C x.1 x.2 := by
  induction es generalizing s with
  | nil => simp [states, steps, hs]
  | cons e es ih =>
    cases hm : step s e with
    | none => simp [states, steps, hm, hs]
    | some m =>
      simp only [states, steps, hm, List.forall_mem_cons]
      constructor
      · intro h
        have hPm : P m := h.2 m (by cases es <;> simp [states]; split <;> simp)
        exact ⟨(hstep hs hm).1 hPm, (ih hPm).1 h.2⟩
      · intro h
        have hPm : P m := (hstep hs hm).2 h.1
        exact ⟨hs, (ih hPm).2 h.2⟩

end Irlume.Lib

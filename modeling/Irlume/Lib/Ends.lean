import Mathlib.Tactic.Common

/-!
# How a fallible stateful operation ends

An `EStateM` operation ends with an answer or with an error, and in either case leaves a state: a failure does
not undo what was written before it.

The rules below follow the constructors of a `do` block, so that a proof about an operation reads in the order
of its statements.
-/

namespace Irlume.Lib

universe u

variable {ε σ α β : Type u}

/-- `x`, started in `s`, ends in `Q` of its answer and the state it leaves, or fails in `E` of the state it
leaves. -/
def Ends (x : EStateM ε σ α) (s : σ) (Q : α → σ → Prop) (E : σ → Prop) : Prop :=
  match x.run s with
  | .ok a t => Q a t
  | .error _ t => E t

/-- The state it leaves. -/
def after (x : EStateM ε σ α) (s : σ) : σ :=
  match x.run s with
  | .ok _ t => t
  | .error _ t => t

/-- Its answer, where it has one. -/
def answer (x : EStateM ε σ α) (s : σ) : Option α :=
  match x.run s with
  | .ok a _ => some a
  | .error _ _ => none

section

variable (x : EStateM ε σ α)

theorem after_bind (f : α → EStateM ε σ β) (s : σ) :
    after (x >>= f) s =
      match answer x s with
      | some a => after (f a) (after x s)
      | none => after x s := by
  change (match EStateM.bind x f s with
    | .ok _ t => t
    | .error _ t => t) = _
  unfold EStateM.bind answer after EStateM.run
  cases x s <;> rfl

theorem after_adaptExcept {ε' : Type u} (f : ε → ε') (s : σ) :
    after (EStateM.adaptExcept f x) s = after x s := by
  unfold after EStateM.run EStateM.adaptExcept
  cases x s <;> rfl

theorem answer_adaptExcept {ε' : Type u} (f : ε → ε') (s : σ) :
    answer (EStateM.adaptExcept f x) s = answer x s := by
  unfold answer EStateM.run EStateM.adaptExcept
  cases x s <;> rfl

end

namespace Ends

variable {x : EStateM ε σ α} {s : σ} {Q Q' : α → σ → Prop} {E E' : σ → Prop}

/-! ## The rules -/

theorem mono (h : Ends x s Q E) (hQ : ∀ a t, Q a t → Q' a t) (hE : ∀ t, E t → E' t) :
    Ends x s Q' E' := by
  unfold Ends at h ⊢
  split at h
  · exact hQ _ _ h
  · exact hE _ h

theorem pure {a : α} (h : Q a s) : Ends (Pure.pure a : EStateM ε σ α) s Q E := h

theorem throw {e : ε} (h : E s) : Ends (MonadExcept.throw e : EStateM ε σ α) s Q E := h

theorem get {Q : σ → σ → Prop} (h : Q s s) : Ends (MonadState.get : EStateM ε σ σ) s Q E := h

theorem set {Q : PUnit → σ → Prop} {t : σ} (h : Q ⟨⟩ t) :
    Ends (MonadStateOf.set t : EStateM ε σ PUnit) s Q E := h

theorem modified {Q : PUnit → σ → Prop} {f : σ → σ} (h : Q ⟨⟩ (f s)) :
    Ends (modify f : EStateM ε σ PUnit) s Q E := h

theorem adapted {ε' : Type u} {f : ε → ε'} (h : Ends x s Q E) :
    Ends (EStateM.adaptExcept f x) s Q E := by
  unfold Ends EStateM.run EStateM.adaptExcept at *
  cases hx : x s with
  | ok a t =>
    simp only [hx] at h ⊢
    exact h
  | error e t =>
    simp only [hx] at h ⊢
    exact h

variable {f : α → EStateM ε σ β}

theorem bind {Q : β → σ → Prop}
    (h : Ends x s (fun a t => Ends (f a) t Q E) E) : Ends (x >>= f) s Q E := by
  unfold Ends at h ⊢
  change match EStateM.bind x f s with
    | .ok a t => Q a t
    | .error _ t => E t
  unfold EStateM.bind
  change match x s with
    | .ok a t => _
    | .error _ t => E t at h
  cases hx : x s with
  | ok a t =>
    rw [hx] at h
    exact h
  | error e t =>
    rw [hx] at h
    exact h

/-- A first part that only moves the state along a transitive relation; the rest goes on from where
the block has come since `s₀`. -/
theorem chain_from {R : σ → σ → Prop} [IsTrans σ R] {s₀ : σ}
    {Q : α → σ → Prop} {Q' : β → σ → Prop} (hs : R s₀ s)
    (hx : Ends x s (fun a t => R s t ∧ Q a t) (R s))
    (hf : ∀ a t, R s₀ t → Q a t → Ends (f a) t Q' (R s₀)) : Ends (x >>= f) s Q' (R s₀) := by
  refine .bind (hx.mono ?_ fun t ht => IsTrans.trans _ _ _ hs ht)
  rintro a t ⟨hst, hQ⟩
  exact hf a t (IsTrans.trans _ _ _ hs hst) hQ

theorem chain {R : σ → σ → Prop} [Std.Refl R] [IsTrans σ R]
    {Q : α → σ → Prop} {Q' : β → σ → Prop} (hx : Ends x s (fun a t => R s t ∧ Q a t) (R s))
    (hf : ∀ a t, Q a t → Ends (f a) t (fun b u => R t u ∧ Q' b u) (R t)) :
    Ends (x >>= f) s (fun b u => R s u ∧ Q' b u) (R s) := by
  refine chain_from (Std.Refl.refl s) hx fun a t hst hQ => ?_
  refine (hf a t hQ).mono ?_ fun u htu => IsTrans.trans _ _ _ hst htu
  rintro b u ⟨htu, hQ'⟩
  exact ⟨IsTrans.trans _ _ _ hst htu, hQ'⟩

/-! ## What the end says about the answer and the state -/

theorem answered (h : Ends x s Q E) :
    (∃ a, answer x s = some a ∧ Q a (after x s)) ∨ (answer x s = none ∧ E (after x s)) := by
  unfold Ends at h
  unfold answer after
  cases hx : x.run s with
  | ok a t =>
    rw [hx] at h
    exact .inl ⟨a, rfl, h⟩
  | error e t =>
    rw [hx] at h
    exact .inr ⟨rfl, h⟩

theorem after_of {P : σ → Prop} (h : Ends x s Q P) (hQ : ∀ a t, Q a t → P t) :
    P (after x s) := by
  obtain ⟨a, -, hq⟩ | ⟨-, hp⟩ := h.answered
  · exact hQ a _ hq
  · exact hp

theorem of_answer {a : α} (h : Ends x s Q E) (ha : answer x s = some a) : Q a (after x s) := by
  obtain ⟨b, hb, hq⟩ | ⟨hn, -⟩ := h.answered
  · cases hb.symm.trans ha
    exact hq
  · rw [hn] at ha
    cases ha

end Ends

end Irlume.Lib

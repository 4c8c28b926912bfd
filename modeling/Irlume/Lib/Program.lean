import Irlume.Lib.Machine

/-!
# Programs that make calls, and worlds that answer them

What the world does with a call is a partial function of the world, the call and a choice; the choice is
everything the program does not decide (a fault, a measurement, what a device leaves behind), so that a world
can be run.

What is `Safe` stays so when the program is stopped anywhere. `Sessions` runs one program at a time in a world
that outlives it: programs are started, their calls are answered, and an outside event drops the program
wherever it is.
-/

namespace Irlume.Lib

universe u v w x

/-- A program has a result, or makes a call and goes on with the answer. -/
inductive Program (Op : Type u) (Answer : Op → Type v) (α : Type w) where
  | result (a : α)
  | call (op : Op) (next : Answer op → Program Op Answer α)

namespace Program

variable {Op : Type u} {Answer : Op → Type v} {α β γ : Type w}

/-- Run `p`, then what `k` makes of its result. -/
def bind (p : Program Op Answer α) (k : α → Program Op Answer β) : Program Op Answer β :=
  match p with
  | .result a => k a
  | .call op next => .call op fun answer => (next answer).bind k

instance : Monad (Program Op Answer) where
  pure := .result
  bind := bind

def ask (op : Op) : Program Op Answer (Answer op) := .call op .result

@[simp] theorem pure_eq (a : α) : (pure a : Program Op Answer α) = .result a := rfl

@[simp] theorem result_bind (a : α) (k : α → Program Op Answer β) : (.result a) >>= k = k a := rfl

@[simp] theorem call_bind (op : Op) (next : Answer op → Program Op Answer α)
    (k : α → Program Op Answer β) :
    (.call op next) >>= k = .call op fun answer => next answer >>= k := rfl

theorem bind_assoc (p : Program Op Answer α) (f : α → Program Op Answer β)
    (g : β → Program Op Answer γ) : (p >>= f) >>= g = p >>= fun a => f a >>= g := by
  induction p with
  | result a => rfl
  | call op next ih =>
    simp only [call_bind]
    exact congrArg (call op) (funext ih)

/-- How a world reacts: the answers it may give to a call, each with the world it leaves. -/
abbrev Reacts (σ : Type x) (Op : Type u) (Answer : Op → Type v) : Type _ :=
  σ → (op : Op) → Answer op → σ → Prop

section

variable {σ : Type x} {R : Reacts σ Op Answer} {I : σ → Prop}

/-- Whatever the world answers, `I` holds between any two calls and `Q` of the result. -/
def Safe (R : Reacts σ Op Answer) (I : σ → Prop) (Q : α → σ → Prop) :
    Program Op Answer α → σ → Prop
  | .result a, s => I s ∧ Q a s
  | .call op next, s => I s ∧ ∀ answer s', R s op answer s' → Safe R I Q (next answer) s'

variable {Q Q' : α → σ → Prop} {p : Program Op Answer α} {s : σ}

variable (h : Safe R I Q p s)

include h

theorem Safe.invariant : I s := by
  cases p with
  | result a => exact h.1
  | call op next => exact h.1

theorem Safe.mono (hQ : ∀ a t, I t → Q a t → Q' a t) : Safe R I Q' p s := by
  induction p generalizing s with
  | result a => exact ⟨h.1, hQ a s h.1 h.2⟩
  | call op next ih => exact ⟨h.1, fun answer t ht => ih answer (h.2 answer t ht)⟩

/-- **The rule of sequence.** -/
theorem Safe.bind {k : α → Program Op Answer β} {Q' : β → σ → Prop}
    (hk : ∀ a t, I t → Q a t → Safe R I Q' (k a) t) : Safe R I Q' (p >>= k) s := by
  induction p generalizing s with
  | result a => exact hk a s h.1 h.2
  | call op next ih => exact ⟨h.1, fun answer t ht => ih answer (h.2 answer t ht)⟩

end

/-- The reactions a choice leads to, for the choices `C` allows. -/
def reactsBy {σ : Type x} {C : Type*} (perform : σ → (op : Op) → C → Option (Answer op × σ))
    (allowed : σ → Op → C → Prop) : Reacts σ Op Answer :=
  fun s op answer t => ∃ c, allowed s op c ∧ perform s op c = some (answer, t)

end Program

/-! ## One program at a time -/

/-- A world and the program running in it; a result means that none is. -/
structure Sessions (σ : Type*) (Op : Type*) (Answer : Op → Type*) where
  world : σ
  running : Program Op Answer Unit

/-- What happens to a world and its program. -/
inductive SessionEvent (S C X : Type*) where
  /-- A program is started where none is running. -/
  | start (s : S)
  /-- The pending call is answered as the choice says. -/
  | answer (c : C)
  /-- Something happens to the world, and the program, if one is running, is gone. -/
  | outside (x : X)

namespace Sessions

variable {σ S C X : Type*} {Op : Type*} {Answer : Op → Type*}

def idle (world : σ) : Sessions σ Op Answer := ⟨world, .result ()⟩

def step (program : S → Program Op Answer Unit)
    (perform : σ → (op : Op) → C → Option (Answer op × σ)) (outside : σ → X → Option σ)
    (m : Sessions σ Op Answer) : SessionEvent S C X → Option (Sessions σ Op Answer)
  | .start s =>
    match m.running with
    | .result _ => some ⟨m.world, program s⟩
    | .call _ _ => none
  | .answer c =>
    match m.running with
    | .result _ => none
    | .call op next => (perform m.world op c).map fun (answer, world) => ⟨world, next answer⟩
  | .outside x => (outside m.world x).map idle

/-- Whether the choice that answers the pending call is one of those `allowed`. -/
def Answers (allowed : σ → Op → C → Prop) (m : Sessions σ Op Answer) : SessionEvent S C X → Prop
  | .answer c =>
    match m.running with
    | .result _ => True
    | .call op _ => allowed m.world op c
  | _ => True

/-- The programs `start` admits. -/
def Starts (admits : S → Prop) : SessionEvent S C X → Prop
  | .start s => admits s
  | _ => True

/-- The programs `A` admits in the world they are started in. -/
def StartsIn (A : σ → S → Prop) (m : Sessions σ Op Answer) : SessionEvent S C X → Prop
  | .start s => A m.world s
  | _ => True

variable {program : S → Program Op Answer Unit}
  {perform : σ → (op : Op) → C → Option (Answer op × σ)} {outside : σ → X → Option σ}
  {allowed : σ → Op → C → Prop} {admits : S → Prop} {I : σ → Prop}

variable {m : Sessions σ Op Answer} {e : SessionEvent S C X}

theorem answers_of_forall (h : ∀ w op c, allowed w op c) (m : Sessions σ Op Answer)
    (e : SessionEvent S C X) : Answers allowed m e := by
  obtain ⟨world, running⟩ := m
  cases e with
  | answer c =>
    cases running with
    | result a => trivial
    | call op next => exact h world op c
  | _ => trivial

theorem starts_of_forall (h : ∀ s, admits s) (e : SessionEvent S C X) : Starts admits e := by
  cases e with
  | start s => exact h s
  | _ => trivial

/-- What is running is safe. -/
def Sound (perform : σ → (op : Op) → C → Option (Answer op × σ)) (allowed : σ → Op → C → Prop)
    (I : σ → Prop) (m : Sessions σ Op Answer) : Prop :=
  Program.Safe (Program.reactsBy perform allowed) I (fun _ _ => True) m.running m.world

theorem sound_idle {world : σ} (h : I world) :
    Sound perform allowed I (idle world : Sessions σ Op Answer) := ⟨h, trivial⟩

variable {m m' : Sessions σ Op Answer}

/-- **One event.** Safe programs and harmless outside events keep what is running safe. -/
theorem Sound.step (hprogram : ∀ s w, admits s → I w →
      Program.Safe (Program.reactsBy perform allowed) I (fun _ _ => True) (program s) w)
    (houtside : ∀ w x w', I w → outside w x = some w' → I w')
    (hallowed : Answers allowed m e) (hadmits : Starts admits e)
    (h : Sound perform allowed I m) (hstep : Sessions.step program perform outside m e = some m') :
    Sound perform allowed I m' := by
  obtain ⟨world, running⟩ := m
  have hI : I world := Program.Safe.invariant h
  cases e with
  | start s =>
    cases running with
    | result a =>
      cases hstep
      exact hprogram s world hadmits hI
    | call op next => cases hstep
  | answer c =>
    cases running with
    | result a => cases hstep
    | call op next =>
      obtain ⟨⟨answer, w'⟩, hperform, rfl⟩ := Option.map_eq_some_iff.1 hstep
      exact h.2 answer w' ⟨c, hallowed, hperform⟩
  | outside x =>
    obtain ⟨w', hw', rfl⟩ := Option.map_eq_some_iff.1 hstep
    exact sound_idle (houtside world x w' hI hw')

/-- **Every run.** The invariant holds in every world that sessions pass through, when the programs
started are safe and the choices are among those allowed. -/
theorem states_sound {es : List (SessionEvent S C X)}
    (hprogram : ∀ s w, admits s → I w →
      Program.Safe (Program.reactsBy perform allowed) I (fun _ _ => True) (program s) w)
    (houtside : ∀ w x w', I w → outside w x = some w' → I w')
    (hevents : ∀ x ∈ steps (Sessions.step program perform outside) m es,
      Answers allowed x.1 x.2 ∧ Starts admits x.2)
    (h : Sound perform allowed I m) :
    ∀ t ∈ states (Sessions.step program perform outside) m es, Sound perform allowed I t :=
  states_invariant_steps (I := Sound perform allowed I)
    (C := fun m e => Answers allowed m e ∧ Starts admits e)
    (fun hC hm hs => hm.step hprogram houtside hC.1 hC.2 hs) hevents h

theorem Sound.world (h : Sound perform allowed I m) : I m.world :=
  Program.Safe.invariant h

end Sessions

end Irlume.Lib

import Irlume.Lib.Guarded
import Irlume.Lib.Interleaving

/-!
# Interleaved programs that may fail, in worlds that may be lost

`Fallible.Steady` is the rule for a program that ends at its first error. `Processes.stepWith` runs processes
in a world to which something may happen that ends all of them, a power loss or a reboot;
`Processes.states_soundWith` holds of its runs, also where only some answers are `allowed`.
-/

namespace Irlume.Lib

universe u v w x

namespace Fallible

variable {Op : Type u} {Answer : Op → Type v} {ε α β : Type w} {σ : Type x} {rely : σ → σ → Prop}
  {pre : σ → Op → Prop} {R : Program.Reacts σ Op Answer} {Q : α → σ → Prop} {E : ε → σ → Prop} {s : σ}

/-- Whatever the world answers, and whatever the others do before each call: every call meets `pre`, a success
comes with `Q` and an error with `E`. -/
def Steady (rely : σ → σ → Prop) (pre : σ → Op → Prop) (R : Program.Reacts σ Op Answer) (Q : α → σ → Prop)
    (E : ε → σ → Prop) (p : Fallible Op Answer ε α) (s : σ) : Prop :=
  Program.Steady rely pre R (Ends Q E) p.run s

/-- **The rule of sequence.** -/
theorem Steady.bind {p : Fallible Op Answer ε α} {k : α → Fallible Op Answer ε β} {Q' : β → σ → Prop}
    (hrefl : ∀ s, rely s s) (hE : ∀ e s s', E e s → rely s s' → E e s') (h : Steady rely pre R Q E p s)
    (hk : ∀ a t, Q a t → Steady rely pre R Q' E (k a) t) : Steady rely pre R Q' E (p >>= k) s := by
  refine Program.Steady.bind hrefl h fun result t hresult => ?_
  cases result with
  | ok a => exact hk a t hresult
  | error e => exact fun s' hs => hE e t s' hresult hs

end Fallible

namespace Processes

variable {σ S C X : Type*} {Op : Type*} {Answer : Op → Type*}

/-- Only the answers that are `allowed`. -/
def restrict (allowed : Nat → S → σ → Op → C → Prop) [∀ p s w op c, Decidable (allowed p s w op c)]
    (perform : Nat → S → σ → (op : Op) → C → Option (Answer op × σ)) (p : Nat) (s : S) (w : σ) (op : Op)
    (c : C) : Option (Answer op × σ) :=
  if allowed p s w op c then perform p s w op c else none

inductive WorldEvent (S C X : Type*) where
  | process (e : ProcessEvent S C)
  /-- Something happens to the world, and every process is gone. -/
  | outside (x : X)

def stepWith (program : S → Program Op Answer Unit)
    (perform : Nat → S → σ → (op : Op) → C → Option (Answer op × σ)) (leave : Nat → σ → σ)
    (outside : σ → X → σ) (m : Processes σ S Op Answer) : WorldEvent S C X → Option (Processes σ S Op Answer)
  | .process e => step program perform leave m e
  | .outside x => some (idle (outside m.world x))

/-- The pending call is answered as is `allowed`. -/
def Answers (allowed : Nat → S → σ → Op → C → Prop) (m : Processes σ S Op Answer) : WorldEvent S C X → Prop
  | .process (.answer p c) =>
    match m.running p with
    | some (s, .call op _) => allowed p s m.world op c
    | _ => True
  | _ => True

instance (allowed : Nat → S → σ → Op → C → Prop) [∀ p s w op c, Decidable (allowed p s w op c)]
    (m : Processes σ S Op Answer) (e : WorldEvent S C X) : Decidable (Answers allowed m e) := by
  unfold Answers
  split
  · split <;> infer_instance
  · infer_instance

variable {program : S → Program Op Answer Unit}
  {perform : Nat → S → σ → (op : Op) → C → Option (Answer op × σ)} {leave : Nat → σ → σ}
  {outside : σ → X → σ} {allowed : Nat → S → σ → Op → C → Prop}
  [∀ p s w op c, Decidable (allowed p s w op c)] {I : σ → Prop} {rely : Nat → S → σ → σ → Prop}
  {pre : Nat → S → σ → Op → Prop} {m m' : Processes σ S Op Answer} {e : WorldEvent S C X}

theorem stepWith_restrict (ha : Answers allowed m e)
    (hstep : stepWith program perform leave outside m e = some m') :
    stepWith program (restrict allowed perform) leave outside m e = some m' := by
  cases e with
  | outside x => exact hstep
  | process e =>
    cases e with
    | start p s => exact hstep
    | kill p => exact hstep
    | answer p c =>
      simp only [stepWith, step] at hstep ⊢
      simp only [Answers] at ha
      split at hstep
      · next s op next hp =>
        simp only [hp] at ha
        have hrestrict : restrict allowed perform p s m.world op c = perform p s m.world op c := if_pos ha
        rw [hrestrict]
        exact hstep
      · cases hstep

/-- **One event**, for processes any of which may be started. -/
theorem Sound.stepWith (h : Sound (restrict allowed perform) (fun _ => True) I rely pre m)
    (hc : Compatible program (restrict allowed perform) leave (fun _ => True) I rely pre)
    (houtside : ∀ w x, I w → I (outside w x)) (ha : Answers allowed m e)
    (hstep : Processes.stepWith program perform leave outside m e = some m') :
    Sound (restrict allowed perform) (fun _ => True) I rely pre m' := by
  have hstep := stepWith_restrict ha hstep
  cases e with
  | outside x =>
    cases hstep
    exact sound_idle (houtside m.world x h.world)
  | process e =>
    refine h.step hc ?_ hstep
    cases e <;> trivial

/-- **Every interleaving**, in a world that may be lost. -/
theorem states_soundWith (hc : Compatible program (restrict allowed perform) leave (fun _ => True) I rely pre)
    (houtside : ∀ w x, I w → I (outside w x)) {world : σ} {es : List (WorldEvent S C X)} (hI : I world)
    (ha : ∀ x ∈ steps (Processes.stepWith program perform leave outside) (idle world) es,
      Answers allowed x.1 x.2) :
    ∀ m ∈ states (Processes.stepWith program perform leave outside) (idle world : Processes σ S Op Answer) es,
      Sound (restrict allowed perform) (fun _ => True) I rely pre m :=
  states_invariant_steps (I := Sound (restrict allowed perform) (fun _ => True) I rely pre)
    (C := Answers allowed) (fun hC hm hs => hm.stepWith hc houtside hC hs) ha (sound_idle hI)

end Processes

end Irlume.Lib

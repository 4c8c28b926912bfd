import Irlume.Lib.Guarded

/-!
# The calls a program has made

A program that meets a world of which nothing is assumed is known by the calls it made and what they were
answered. A log of them, the newest first, is a world of its own: every answer is possible in it, and it only
grows. What is `Guarded` in that world keeps its rule on every log the program can leave behind.
-/

namespace Irlume.Lib

universe u v w

/-- The calls made so far with their answers, the newest first. -/
abbrev Transcript (Op : Type u) (Answer : Op → Type v) : Type (max u v) := List (Sigma Answer)

namespace Program

variable {Op : Type u} {Answer : Op → Type v} {α : Type w}

/-- Every answer is possible, and is put in the log. -/
def heard : Reacts (Transcript Op Answer) Op Answer := fun log op answer log' => log' = ⟨op, answer⟩ :: log

/-- What is left of `p` once it has made the calls of a log, if these are the calls it makes. -/
def after [DecidableEq Op] (p : Program Op Answer α) : Transcript Op Answer → Option (Program Op Answer α)
  | [] => some p
  | ⟨op, answer⟩ :: earlier =>
    match p.after earlier with
    | some (.call op' next) => if h : op = op' then some (next (h ▸ answer)) else none
    | _ => none

end Program

namespace Transcript

variable {Op : Type u} {Answer : Op → Type v} {G : Transcript Op Answer → Op → Prop}

/-- Each call was permitted by those before it. -/
def Conforms (G : Transcript Op Answer → Op → Prop) : Transcript Op Answer → Prop
  | [] => True
  | m :: earlier => G earlier m.1 ∧ Conforms G earlier

theorem Conforms.of_mem {later earlier : Transcript Op Answer} {m : Sigma Answer}
    (h : Conforms G (later ++ m :: earlier)) : G earlier m.1 := by
  induction later with
  | nil => exact h.1
  | cons _ later ih => exact ih h.2

end Transcript

namespace Program

variable {Op : Type u} {Answer : Op → Type v} {α : Type w} [DecidableEq Op]
  {I : Transcript Op Answer → Prop} {G : Transcript Op Answer → Op → Prop}
  {Q : α → Transcript Op Answer → Prop} {p p' : Program Op Answer α} {log : Transcript Op Answer}

/-- **Every log.** A guarded program keeps its rule on each log it can leave, and what is left of it is guarded
there. -/
theorem Guarded.after (h : Guarded heard I G Q p []) (hafter : p.after log = some p') :
    Transcript.Conforms G log ∧ Guarded heard I G Q p' log := by
  induction log generalizing p' with
  | nil =>
    cases hafter
    exact ⟨trivial, h⟩
  | cons m earlier ih =>
    obtain ⟨op, answer⟩ := m
    unfold Program.after at hafter
    split at hafter
    · next op' next hearlier =>
      obtain ⟨hconforms, hcall⟩ := ih hearlier
      split at hafter
      · next hop =>
        subst hop
        cases hafter
        exact ⟨⟨hcall.2.1, hconforms⟩, hcall.2.2 answer _ rfl⟩
      · cases hafter
    · cases hafter

end Program

namespace Fallible

variable {Op : Type u} {Answer : Op → Type v} {ε : Type v} {α β : Type v}

def ask (op : Op) : Fallible Op Answer ε (Answer op) := ExceptT.mk (.call op fun answer => .result (.ok answer))

section

variable {I : Transcript Op Answer → Prop} {G : Transcript Op Answer → Op → Prop} {E : ε → Transcript Op Answer → Prop}
  {log : Transcript Op Answer}

theorem guarded_ask {Q : β → Transcript Op Answer → Prop} (op : Op) {k : Answer op → Fallible Op Answer ε β}
    (hI : I log) (hop : G log op)
    (hk : ∀ answer, Guarded Program.heard I G Q E (k answer) (⟨op, answer⟩ :: log)) :
    Guarded Program.heard I G Q E (ask op >>= k) log := by
  refine ⟨hI, hop, fun answer log' hlog => ?_⟩
  subst hlog
  exact hk answer

end

end Fallible

end Irlume.Lib

/-!
## A program among others

The world of a program that others change while it runs: before each of its calls is answered they take any
steps.

A condition that no step can bring about holds in every world of a run that ends with it, so what is known of
the end may be used all along (`Guarded.outcome`).
-/

namespace Irlume.Lib

universe u v

namespace Program

variable {σ X C : Type*} {Op : Type u} {Answer : Op → Type v} {α : Type*}

/-- A call behind any steps of the others. -/
def among (other : σ → X → Option σ) (perform : σ → (op : Op) → C → Option (Answer op × σ)) :
    σ → (op : Op) → List X × C → Option (Answer op × σ) :=
  fun s op c => (run other s c.1).bind fun t => perform t op c.2

/-- A run is the list of what was decided at each call. -/
def outcome (perform : σ → (op : Op) → C → Option (Answer op × σ)) :
    Program Op Answer α → σ → List C → Option (α × σ)
  | .result a, s, [] => some (a, s)
  | .result _, _, _ :: _ => none
  | .call _ _, _, [] => none
  | .call op next, s, c :: cs => (perform s op c).bind fun r => outcome perform (next r.1) r.2 cs

/-- What is possible in a world that ends up as `B` says. -/
def upTo (B : σ → Prop) (perform : σ → (op : Op) → C → Option (Answer op × σ)) : Reacts σ Op Answer :=
  fun s op answer t => B t ∧ ∃ c, perform s op c = some (answer, t)

/-- What a part of the program establishes is of use to the next part only when the steps of the others keep it.
-/
def Stable (other : σ → X → Option σ) (P : σ → Prop) : Prop :=
  ∀ s x t, P s → other s x = some t → P t

variable {other : σ → X → Option σ} {perform : σ → (op : Op) → C → Option (Answer op × σ)} {P P' : σ → Prop}

theorem Stable.run (h : Stable other P) {s t : σ} {xs : List X} (hs : P s) (hrun : run other s xs = some t) : P t :=
  run_invariant (fun hP hstep => h _ _ _ hP hstep) hs hrun

theorem Stable.and (h : Stable other P) (h' : Stable other P') : Stable other fun s => P s ∧ P' s :=
  fun s x t hs hstep => ⟨h s x t hs.1 hstep, h' s x t hs.2 hstep⟩

/-- **Every run**, with what is known of its end: where no step brings `B` about, it held all along. -/
theorem Guarded.outcome {B I : σ → Prop} {G : σ → Op → Prop} {Q : α → σ → Prop}
    (hB : ∀ s op c answer t, perform s op c = some (answer, t) → B t → B s)
    {p : Program Op Answer α} {s t : σ} {cs : List C} {a : α} (h : Guarded (upTo B perform) I G Q p s)
    (hrun : outcome perform p s cs = some (a, t)) (ht : B t) : I t ∧ Q a t := by
  suffices hboth : B s ∧ (Guarded (upTo B perform) I G Q p s → I t ∧ Q a t) from hboth.2 h
  clear h
  induction p generalizing s cs with
  | result a =>
    cases cs with
    | nil =>
      cases hrun
      exact ⟨ht, id⟩
    | cons c cs => cases hrun
  | call op next ih =>
    cases cs with
    | nil => cases hrun
    | cons c cs =>
      obtain ⟨⟨answer, s'⟩, hperform, hrun⟩ := Option.bind_eq_some_iff.1 hrun
      obtain ⟨hs', hnext⟩ := ih answer hrun
      exact ⟨hB _ _ _ _ _ hperform hs', fun h => hnext (h.2.2 answer s' ⟨hs', c, hperform⟩)⟩

end Program

namespace Fallible

variable {σ X C : Type*} {Op : Type u} {Answer : Op → Type v} {ε : Type v} {α β : Type v}
  {other : σ → X → Option σ} {perform : σ → (op : Op) → C → Option (Answer op × σ)} {B I P : σ → Prop}

/-- Wherever `P` holds, `Q` holds of what `p` gives and `I` all along; nothing is said of an error but `I`. -/
def Gives (other : σ → X → Option σ) (perform : σ → (op : Op) → C → Option (Answer op × σ)) (B I : σ → Prop)
    (P : σ → Prop) (p : Fallible Op Answer ε α) (Q : α → σ → Prop) : Prop :=
  ∀ s, I s → P s →
    Guarded (Program.upTo B (Program.among other perform)) I (fun _ _ => True) Q (fun _ _ => True) p s

variable {Q : α → σ → Prop} {p : Fallible Op Answer ε α}

theorem gives_pure {a : α} (h : ∀ s, I s → P s → Q a s) :
    Gives other perform B I P (pure a : Fallible Op Answer ε α) Q :=
  fun s hI hP => guarded_pure hI (h s hI hP)

theorem gives_throw {e : ε} : Gives other perform B I P (throw e : Fallible Op Answer ε α) Q :=
  fun _ hI _ => guarded_throw hI trivial

section

variable (h : Gives other perform B I P p Q)

include h

theorem Gives.bind {R : β → σ → Prop} {k : α → Fallible Op Answer ε β}
    (hk : ∀ a, Gives other perform B I (Q a) (k a) R) : Gives other perform B I P (p >>= k) R :=
  fun s hI hP => (h s hI hP).bind fun a t hIt hQ => hk a t hIt hQ

theorem Gives.mono {P' : σ → Prop} {Q' : α → σ → Prop}
    (hP : ∀ s, I s → P' s → P s) (hQ : ∀ a s, I s → Q a s → Q' a s) : Gives other perform B I P' p Q' :=
  fun s hI hP' => (h s hI (hP s hI hP')).mono hQ fun _ _ _ _ => trivial

theorem Gives.weaken {P' : σ → Prop} (hP : ∀ s, P' s → P s) :
    Gives other perform B I P' p Q :=
  h.mono (fun s _ => hP s) fun _ _ _ hQ => hQ

end

theorem gives_exists {ι : Sort*} {P : ι → σ → Prop} (h : ∀ i, Gives other perform B I (P i) p Q) :
    Gives other perform B I (fun s => ∃ i, P i s) p Q :=
  fun s hI ⟨i, hP⟩ => h i s hI hP

theorem gives_of {φ : Prop} (h : φ → Gives other perform B I P p Q) :
    Gives other perform B I (fun s => φ ∧ P s) p Q :=
  fun s hI hP => h hP.1 s hI hP.2

/-- **One call among others.** What is known before it must be stable. -/
theorem gives_ask {op : Op} {Q : Answer op → σ → Prop} (hI : Program.Stable other I) (hP : Program.Stable other P)
    (h : ∀ s c answer t, I s → P s → B t → perform s op c = some (answer, t) → I t ∧ Q answer t) :
    Gives other perform B I P (ask op : Fallible Op Answer ε (Answer op)) Q := by
  intro s hIs hPs
  refine ⟨hIs, trivial, ?_⟩
  rintro answer t ⟨hB, ⟨xs, c⟩, hperform⟩
  obtain ⟨s', hrun, hperform⟩ := Option.bind_eq_some_iff.1 hperform
  exact h s' c answer t (hI.run hIs hrun) (hP.run hPs hrun) hB hperform

theorem Gives.attempt {R : Except ε α → σ → Prop} (h : Gives other perform B I P p Q)
    (hok : ∀ a s, I s → Q a s → R (.ok a) s) (herror : ∀ e s, I s → R (.error e) s) :
    Gives other perform B I P (attempt p) R :=
  fun s hI hP => (h s hI hP).attempt hok fun e t hIt _ => herror e t hIt

end Fallible

end Irlume.Lib

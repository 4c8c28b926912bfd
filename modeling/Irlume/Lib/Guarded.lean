import Irlume.Lib.Program

/-!
# Programs and what they may ask

`Guarded` is `Safe` with a condition on every call, at the point where the program makes it. It is the rule for
claims about a call that must not be made too early: whatever was answered before, the condition holds of the
world the call is made in.
-/

namespace Irlume.Lib

universe u v w x

namespace Program

variable {Op : Type u} {Answer : Op → Type v} {α β : Type w} {σ : Type x}

/-- Whatever the world answers, `I` holds between any two calls, `G` of every call, and `Q` of the result. -/
def Guarded (R : Reacts σ Op Answer) (I : σ → Prop) (G : σ → Op → Prop) (Q : α → σ → Prop) :
    Program Op Answer α → σ → Prop
  | .result a, s => I s ∧ Q a s
  | .call op next, s => I s ∧ G s op ∧ ∀ answer s', R s op answer s' → Guarded R I G Q (next answer) s'

variable {R : Reacts σ Op Answer} {I I' : σ → Prop} {G G' : σ → Op → Prop} {Q Q' : α → σ → Prop}
  {p : Program Op Answer α} {s : σ}

variable (h : Guarded R I G Q p s)

include h

theorem Guarded.invariant : I s := by
  cases p with
  | result a => exact h.1
  | call op next => exact h.1

theorem Guarded.mono (hQ : ∀ a t, I t → Q a t → Q' a t) :
    Guarded R I G Q' p s := by
  induction p generalizing s with
  | result a => exact ⟨h.1, hQ a s h.1 h.2⟩
  | call op next ih => exact ⟨h.1, h.2.1, fun answer t ht => ih answer (h.2.2 answer t ht)⟩

theorem Guarded.weaken (hI : ∀ t, I t → I' t) (hG : ∀ t op, I t → G t op → G' t op) :
    Guarded R I' G' (fun a t => I t ∧ Q a t) p s := by
  induction p generalizing s with
  | result a => exact ⟨hI s h.1, h⟩
  | call op next ih =>
    exact ⟨hI s h.1, hG s op h.1 h.2.1, fun answer t ht => ih answer (h.2.2 answer t ht)⟩

theorem Guarded.keeps {J : σ → Prop} (hJ : J s)
    (hstep : ∀ t op answer t', J t → G t op → R t op answer t' → J t') :
    Guarded R (fun t => I t ∧ J t) (fun t op => J t ∧ G t op) Q p s := by
  induction p generalizing s with
  | result a => exact ⟨⟨h.1, hJ⟩, h.2⟩
  | call op next ih =>
    refine ⟨⟨h.1, hJ⟩, ⟨hJ, h.2.1⟩, fun answer t ht => ?_⟩
    exact ih answer (h.2.2 answer t ht) (hstep s op answer t hJ h.2.1 ht)

/-- **The rule of sequence.** -/
theorem Guarded.bind {k : α → Program Op Answer β} {Q' : β → σ → Prop}
    (hk : ∀ a t, I t → Q a t → Guarded R I G Q' (k a) t) : Guarded R I G Q' (p >>= k) s := by
  induction p generalizing s with
  | result a => exact hk a s h.1 h.2
  | call op next ih => exact ⟨h.1, h.2.1, fun answer t ht => ih answer (h.2.2 answer t ht)⟩

end Program

/-! ## One program at a time -/

namespace Sessions

variable {σ S C X : Type*} {Op : Type*} {Answer : Op → Type*}
  {program : S → Program Op Answer Unit}
  {perform : σ → (op : Op) → C → Option (Answer op × σ)} {outside : σ → X → Option σ}
  {allowed : σ → Op → C → Prop} {A : σ → S → Prop} {I : σ → Prop} {G : σ → Op → Prop}

/-- What is running is guarded. -/
def Minds (perform : σ → (op : Op) → C → Option (Answer op × σ)) (allowed : σ → Op → C → Prop)
    (I : σ → Prop) (G : σ → Op → Prop) (m : Sessions σ Op Answer) : Prop :=
  Program.Guarded (Program.reactsBy perform allowed) I G (fun _ _ => True) m.running m.world

/-- What is running is guarded, and leaves `J` when it ends. -/
def Leaves (perform : σ → (op : Op) → C → Option (Answer op × σ)) (allowed : σ → Op → C → Prop)
    (I : σ → Prop) (G : σ → Op → Prop) (J : σ → Prop) (m : Sessions σ Op Answer) : Prop :=
  Program.Guarded (Program.reactsBy perform allowed) I G (fun _ => J) m.running m.world

theorem minds_idle {world : σ} (h : I world) :
    Minds perform allowed I G (idle world : Sessions σ Op Answer) := ⟨h, trivial⟩

variable {m : Sessions σ Op Answer}

theorem Leaves.world {J : σ → Prop} (h : Leaves perform allowed I G J m) : I m.world :=
  Program.Guarded.invariant h

theorem Minds.world (h : Minds perform allowed I G m) : I m.world :=
  Leaves.world (J := fun _ => True) h

def pending (m : Sessions σ Op Answer) : Option Op :=
  match m.running with
  | .call op _ => some op
  | .result _ => none

theorem Leaves.of_pending {J : σ → Prop} (h : Leaves perform allowed I G J m) {op : Op}
    (hpending : m.pending = some op) : G m.world op := by
  obtain ⟨world, running⟩ := m
  cases running with
  | result a => cases hpending
  | call op' next =>
    cases hpending
    exact h.2.1

theorem Minds.of_pending (h : Minds perform allowed I G m) {op : Op}
    (hpending : m.pending = some op) : G m.world op :=
  Leaves.of_pending (J := fun _ => True) h hpending

instance [∀ w op c, Decidable (allowed w op c)] (m : Sessions σ Op Answer) (e : SessionEvent S C X) :
    Decidable (Answers allowed m e) := by
  unfold Answers
  split
  · split <;> infer_instance
  · infer_instance

instance [∀ w s, Decidable (A w s)] (m : Sessions σ Op Answer) (e : SessionEvent S C X) :
    Decidable (StartsIn A m e) := by
  unfold StartsIn
  split <;> infer_instance

theorem startsIn_of_forall (h : ∀ w s, A w s) (m : Sessions σ Op Answer) (e : SessionEvent S C X) :
    StartsIn A m e := by
  cases e with
  | start s => exact h m.world s
  | _ => trivial

theorem StartsIn.mono {B : σ → S → Prop} {e : SessionEvent S C X} (h : StartsIn A m e)
    (hAB : ∀ w s, A w s → B w s) : StartsIn B m e := by
  cases e with
  | start s => exact hAB _ s h
  | _ => trivial

section

variable {J : σ → Prop} {m' : Sessions σ Op Answer} {e : SessionEvent S C X}
  (hprogram : ∀ s w, A w s → I w → J w →
    Program.Guarded (Program.reactsBy perform allowed) I G (fun _ => J) (program s) w)
  (houtside : ∀ w x w', I w → outside w x = some w' → I w' ∧ J w')

include hprogram houtside

/-- **One event.** Programs that are guarded where `J` holds and leave it, and outside events that do no harm, keep
what is running so. -/
theorem Leaves.step (hallowed : Answers allowed m e) (hadmits : StartsIn A m e)
    (h : Leaves perform allowed I G J m) (hstep : Sessions.step program perform outside m e = some m') :
    Leaves perform allowed I G J m' := by
  obtain ⟨world, running⟩ := m
  cases e with
  | start s =>
    cases running with
    | result a =>
      cases hstep
      exact hprogram s world hadmits h.1 h.2
    | call op next => cases hstep
  | answer c =>
    cases running with
    | result a => cases hstep
    | call op next =>
      obtain ⟨⟨answer, w'⟩, hperform, rfl⟩ := Option.map_eq_some_iff.1 hstep
      exact h.2.2 answer w' ⟨c, hallowed, hperform⟩
  | outside x =>
    obtain ⟨w', hw', rfl⟩ := Option.map_eq_some_iff.1 hstep
    exact houtside world x w' (Program.Guarded.invariant h) hw'

/-- **Every state of a run.** -/
theorem states_leaves {es : List (SessionEvent S C X)}
    (hevents : ∀ x ∈ steps (Sessions.step program perform outside) m es,
      Answers allowed x.1 x.2 ∧ StartsIn A x.1 x.2)
    (h : Leaves perform allowed I G J m) :
    ∀ t ∈ states (Sessions.step program perform outside) m es, Leaves perform allowed I G J t :=
  states_invariant_steps (I := Leaves perform allowed I G J)
    (C := fun m e => Answers allowed m e ∧ StartsIn A m e)
    (fun hC hm hs => Leaves.step hprogram houtside hC.1 hC.2 hm hs) hevents h

end

/-- **Every state of a run**, for programs that leave nothing in particular. -/
theorem states_minds {es : List (SessionEvent S C X)}
    (hprogram : ∀ s w, A w s → I w →
      Program.Guarded (Program.reactsBy perform allowed) I G (fun _ _ => True) (program s) w)
    (houtside : ∀ w x w', I w → outside w x = some w' → I w')
    (hevents : ∀ x ∈ steps (Sessions.step program perform outside) m es,
      Answers allowed x.1 x.2 ∧ StartsIn A x.1 x.2)
    (h : Minds perform allowed I G m) :
    ∀ t ∈ states (Sessions.step program perform outside) m es, Minds perform allowed I G t :=
  states_leaves (fun s w hadmits hI _ => hprogram s w hadmits hI)
    (fun w x w' hI hw' => ⟨houtside w x w' hI hw', trivial⟩) hevents h

end Sessions

end Irlume.Lib

/-!
## Programs that may fail

A program whose result may be an error, in the monad in which the first error ends it. `Guarded` is carried
through it by one rule for what follows a success and one for what an error leaves.
-/

namespace Irlume.Lib

universe u v w x

/-- A program that ends at its first error. -/
abbrev Fallible (Op : Type u) (Answer : Op → Type v) (ε : Type w) : Type w → Type _ :=
  ExceptT ε (Program Op Answer)

namespace Fallible

variable {Op : Type u} {Answer : Op → Type v} {ε : Type w} {α β : Type w}

def attempt (p : Fallible Op Answer ε α) : Fallible Op Answer ε (Except ε α) :=
  ExceptT.mk (p.run >>= fun result => .result (.ok result))

section

variable {σ : Type x} {R : Program.Reacts σ Op Answer} {I : σ → Prop} {G : σ → Op → Prop} {s : σ}

def Ends (Q : α → σ → Prop) (E : ε → σ → Prop) : Except ε α → σ → Prop
  | .ok a, t => Q a t
  | .error e, t => E e t

/-- Whatever the world answers, `I` holds between any two calls, `G` of every call, `Q` of a success and `E` of
an error. -/
def Guarded (R : Program.Reacts σ Op Answer) (I : σ → Prop) (G : σ → Op → Prop) (Q : α → σ → Prop)
    (E : ε → σ → Prop) (p : Fallible Op Answer ε α) (s : σ) : Prop :=
  Program.Guarded R I G (Ends Q E) p.run s

variable {Q : α → σ → Prop} {E E' : ε → σ → Prop} {p : Fallible Op Answer ε α}

theorem guarded_pure {a : α} (hI : I s) (hQ : Q a s) :
    Guarded R I G Q E (pure a : Fallible Op Answer ε α) s :=
  ⟨hI, hQ⟩

theorem guarded_throw {e : ε} (hI : I s) (hE : E e s) :
    Guarded R I G Q E (throw e : Fallible Op Answer ε α) s :=
  ⟨hI, hE⟩

/-- **The rule of sequence.** -/
theorem Guarded.bind {k : α → Fallible Op Answer ε β} {Q' : β → σ → Prop} (h : Guarded R I G Q E p s)
    (hk : ∀ a t, I t → Q a t → Guarded R I G Q' E (k a) t) : Guarded R I G Q' E (p >>= k) s := by
  refine Program.Guarded.bind h fun result t hI hresult => ?_
  cases result with
  | ok a => exact hk a t hI hresult
  | error e => exact ⟨hI, hresult⟩

theorem Guarded.mono {Q' : α → σ → Prop} (h : Guarded R I G Q E p s) (hQ : ∀ a t, I t → Q a t → Q' a t)
    (hE : ∀ e t, I t → E e t → E' e t) : Guarded R I G Q' E' p s := by
  refine Program.Guarded.mono h fun result t hI hresult => ?_
  cases result with
  | ok a => exact hQ a t hI hresult
  | error e => exact hE e t hI hresult

theorem Guarded.attempt {P : Except ε α → σ → Prop} (h : Guarded R I G Q E p s)
    (hok : ∀ a t, I t → Q a t → P (.ok a) t) (herror : ∀ e t, I t → E e t → P (.error e) t) :
    Guarded R I G P E' (attempt p) s := by
  refine Program.Guarded.bind h fun result t hI hresult => ?_
  cases result with
  | ok a => exact ⟨hI, hok a t hI hresult⟩
  | error e => exact ⟨hI, herror e t hI hresult⟩

theorem Guarded.weaken {J : σ → Prop} {H : σ → Op → Prop} (h : Guarded R I G Q E p s)
    (hI : ∀ t, I t → J t) (hG : ∀ t op, I t → G t op → H t op) :
    Guarded R J H (fun a t => I t ∧ Q a t) (fun e t => I t ∧ E e t) p s := by
  refine Program.Guarded.mono (Program.Guarded.weaken h hI hG) fun result t _ hresult => ?_
  cases result with
  | ok a => exact hresult
  | error e => exact hresult

end

end Fallible

end Irlume.Lib

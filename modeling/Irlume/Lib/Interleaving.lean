import Irlume.Lib.Program

/-!
# Interleaved programs

Many processes, each running one program, share a world. A call is answered in one step, and between two calls
of one process the others may act. When every call that meets `pre` is what the others rely on, what is `Steady`
holds of every interleaving.
-/

namespace Irlume.Lib

universe u v w x

namespace Program

variable {Op : Type u} {Answer : Op → Type v} {α β : Type w} {σ : Type x}

/-- Whatever the world answers, and whatever the others do before each call, every call meets `pre` and
a result comes with `Q`. -/
def Steady (rely : σ → σ → Prop) (pre : σ → Op → Prop) (R : Reacts σ Op Answer) (Q : α → σ → Prop) :
    Program Op Answer α → σ → Prop
  | .result a, s => ∀ s', rely s s' → Q a s'
  | .call op next, s => ∀ s', rely s s' →
    pre s' op ∧ ∀ answer t, R s' op answer t → Steady rely pre R Q (next answer) t

variable {rely : σ → σ → Prop} {pre : σ → Op → Prop} {R : Reacts σ Op Answer} {Q : α → σ → Prop}
  {p : Program Op Answer α} {s s' : σ}

theorem Steady.of_rely (htrans : ∀ {a b c}, rely a b → rely b c → rely a c)
    (h : Steady rely pre R Q p s) (hs : rely s s') : Steady rely pre R Q p s' := by
  cases p with
  | result a => exact fun t ht => h t (htrans hs ht)
  | call op next => exact fun t ht => h t (htrans hs ht)

/-- **The rule of sequence.** -/
theorem Steady.bind {k : α → Program Op Answer β} {Q' : β → σ → Prop} (hrefl : ∀ s, rely s s)
    (h : Steady rely pre R Q p s) (hk : ∀ a t, Q a t → Steady rely pre R Q' (k a) t) :
    Steady rely pre R Q' (p >>= k) s := by
  induction p generalizing s with
  | result a => exact hk a s (h s (hrefl s))
  | call op next ih =>
    exact fun s' hs => ⟨(h s' hs).1, fun answer t ht => ih answer ((h s' hs).2 answer t ht)⟩

/-- Whatever the answers, every call is one of `P` and the result one of `Q`. -/
def Calls (P : Op → Prop) (Q : α → Prop) : Program Op Answer α → Prop
  | .result a => Q a
  | .call op next => P op ∧ ∀ answer, Calls P Q (next answer)

variable {P : Op → Prop}

theorem Calls.mono {Q Q' : α → Prop} (h : Calls P Q p) (hQ : ∀ a, Q a → Q' a) :
    Calls P Q' p := by
  induction p with
  | result a => exact hQ a h
  | call op next ih => exact ⟨h.1, fun answer => ih answer (h.2 answer)⟩

theorem Calls.bind {Q : α → Prop} {Q' : β → Prop} {k : α → Program Op Answer β}
    (h : Calls P Q p) (hk : ∀ a, Q a → Calls P Q' (k a)) : Calls P Q' (p >>= k) := by
  induction p with
  | result a => exact hk a h
  | call op next ih => exact ⟨h.1, fun answer => ih answer (h.2 answer)⟩

/-- What neither the others nor the process itself can end makes its calls meet `pre`. -/
theorem Steady.of_calls {Q : α → Prop} {K : σ → Prop}
    (hrely : ∀ {a b}, K a → rely a b → K b) (hreact : ∀ {a op answer b}, K a → R a op answer b → K b)
    (hpre : ∀ {a op}, K a → P op → pre a op) (h : Calls P Q p) (hK : K s) :
    Steady rely pre R (fun a _ => Q a) p s := by
  induction p generalizing s with
  | result a => exact fun _ _ => h
  | call op next ih =>
    exact fun s' hs => ⟨hpre (hrely hK hs) h.1,
      fun answer t ht => ih answer (h.2 answer) (hreact (hrely hK hs) ht)⟩

end Program

/-! ## Processes -/

/-- A world, and what each process runs in it. -/
structure Processes (σ : Type*) (S : Type*) (Op : Type*) (Answer : Op → Type*) where
  world : σ
  running : Nat → Option (S × Program Op Answer Unit)

inductive ProcessEvent (S C : Type*) where
  /-- A process that runs nothing starts a program. -/
  | start (p : Nat) (s : S)
  /-- The pending call of a process is answered as the choice says. -/
  | answer (p : Nat) (c : C)
  /-- A process is gone, wherever its program is. -/
  | kill (p : Nat)

namespace Processes

variable {σ S C : Type*} {Op : Type*} {Answer : Op → Type*}

def idle (world : σ) : Processes σ S Op Answer := ⟨world, fun _ => none⟩

def ended (leave : Nat → σ → σ) (m : Processes σ S Op Answer) (p : Nat) : Processes σ S Op Answer where
  world := leave p m.world
  running := Function.update m.running p none

def goOn (leave : Nat → σ → σ) (m : Processes σ S Op Answer) (p : Nat) (s : S) (world : σ) :
    Program Op Answer Unit → Processes σ S Op Answer
  | .result _ => ended leave { m with world } p
  | .call op next => ⟨world, Function.update m.running p (some (s, .call op next))⟩

/-- A process starts, has its call answered, or is killed; `leave` is what its end does to the world. -/
def step (program : S → Program Op Answer Unit)
    (perform : Nat → S → σ → (op : Op) → C → Option (Answer op × σ)) (leave : Nat → σ → σ)
    (m : Processes σ S Op Answer) : ProcessEvent S C → Option (Processes σ S Op Answer)
  | .start p s =>
    match m.running p with
    | none => some (goOn leave m p s m.world (program s))
    | some _ => none
  | .answer p c =>
    match m.running p with
    | some (s, .call op next) =>
      (perform p s m.world op c).map fun (answer, world) => goOn leave m p s world (next answer)
    | _ => none
  | .kill p => some (ended leave m p)

/-- The programs `start` admits. -/
def Starts (admits : S → Prop) : ProcessEvent S C → Prop
  | .start _ s => admits s
  | _ => True

variable {program : S → Program Op Answer Unit}
  {perform : Nat → S → σ → (op : Op) → C → Option (Answer op × σ)} {leave : Nat → σ → σ}
  {admits : S → Prop} {I : σ → Prop} {rely : Nat → S → σ → σ → Prop}
  {pre : Nat → S → σ → Op → Prop}

def reacts (perform : Nat → S → σ → (op : Op) → C → Option (Answer op × σ)) (p : Nat) (s : S) :
    Program.Reacts σ Op Answer :=
  fun w op answer t => ∃ c, perform p s w op c = some (answer, t)

/-- The invariant holds, and every program is steady where it is. -/
structure Sound (perform : Nat → S → σ → (op : Op) → C → Option (Answer op × σ)) (admits : S → Prop)
    (I : σ → Prop) (rely : Nat → S → σ → σ → Prop) (pre : Nat → S → σ → Op → Prop)
    (m : Processes σ S Op Answer) : Prop where
  world : I m.world
  running : ∀ p s prog, m.running p = some (s, prog) → admits s ∧
    Program.Steady (rely p s) (pre p s) (reacts perform p s) (fun _ _ => True) prog m.world

/-- What composes steady programs: their calls and their ends keep the invariant, and are what the
others rely on. -/
structure Compatible (program : S → Program Op Answer Unit)
    (perform : Nat → S → σ → (op : Op) → C → Option (Answer op × σ)) (leave : Nat → σ → σ)
    (admits : S → Prop) (I : σ → Prop) (rely : Nat → S → σ → σ → Prop)
    (pre : Nat → S → σ → Op → Prop) : Prop where
  refl : ∀ p s w, rely p s w w
  trans : ∀ {p s a b c}, rely p s a b → rely p s b c → rely p s a c
  steady : ∀ p s w, admits s → I w →
    Program.Steady (rely p s) (pre p s) (reacts perform p s) (fun _ _ => True) (program s) w
  call : ∀ {p s w op c answer t}, admits s → I w → pre p s w op →
    perform p s w op c = some (answer, t) → I t ∧ ∀ q s', q ≠ p → rely q s' w t
  leave : ∀ {p w}, I w → I (leave p w) ∧ ∀ q s, q ≠ p → rely q s w (leave p w)

theorem sound_idle {world : σ} (h : I world) :
    Sound perform admits I rely pre (idle world : Processes σ S Op Answer) := ⟨h, nofun⟩

namespace Sound

variable {m m' : Processes σ S Op Answer}

variable (h : Sound perform admits I rely pre m)

include h

theorem pending (hrefl : ∀ p s w, rely p s w w) {p : Nat}
    {s : S} {op : Op} {next : Answer op → Program Op Answer Unit}
    (hp : m.running p = some (s, .call op next)) : admits s ∧ pre p s m.world op :=
  ⟨(h.running p s _ hp).1, ((h.running p s _ hp).2 m.world (hrefl p s m.world)).1⟩

variable (hc : Compatible program perform leave admits I rely pre)

include hc

theorem ended {p : Nat} {w : σ} (hI : I w)
    (hrely : ∀ q s', q ≠ p → rely q s' m.world w) :
    Sound perform admits I rely pre (Processes.ended leave { m with world := w } p) where
  world := (hc.leave hI).1
  running q s prog hq := by
    have hne : q ≠ p := by
      rintro rfl
      have hnone : (Processes.ended leave { m with world := w } q).running q = none :=
        Function.update_self ..
      rw [hnone] at hq
      cases hq
    obtain ⟨hadmits, hsteady⟩ := h.running q s prog ((Function.update_of_ne hne ..).symm.trans hq)
    exact ⟨hadmits, hsteady.of_rely hc.trans (hc.trans (hrely q s hne) ((hc.leave hI).2 q s hne))⟩

theorem goOn {p : Nat} {s : S} {w : σ}
    {prog : Program Op Answer Unit} (hadmits : admits s) (hI : I w)
    (hrely : ∀ q s', q ≠ p → rely q s' m.world w)
    (hsteady : Program.Steady (rely p s) (pre p s) (reacts perform p s) (fun _ _ => True) prog w) :
    Sound perform admits I rely pre (m.goOn leave p s w prog) := by
  cases prog with
  | result a => exact h.ended hc hI hrely
  | call op next =>
    refine ⟨hI, fun q s' prog' hq => ?_⟩
    by_cases hne : q = p
    · subst hne
      have hsome : (m.goOn leave q s w (.call op next)).running q = some (s, .call op next) :=
        Function.update_self ..
      obtain ⟨rfl, rfl⟩ := Prod.mk.inj (Option.some.inj (hsome.symm.trans hq))
      exact ⟨hadmits, hsteady⟩
    · obtain ⟨hadmits', hsteady'⟩ := h.running q s' prog' ((Function.update_of_ne hne ..).symm.trans hq)
      exact ⟨hadmits', hsteady'.of_rely hc.trans (hrely q s' hne)⟩

/-- **One event.** -/
theorem step {e : ProcessEvent S C}
    (hadmits : Starts admits e) (hstep : Processes.step program perform leave m e = some m') :
    Sound perform admits I rely pre m' := by
  have hrefl : ∀ p q s', q ≠ p → rely q s' m.world m.world := fun p q s' _ => hc.refl q s' m.world
  cases e with
  | start p s =>
    simp only [Processes.step] at hstep
    split at hstep
    · cases hstep
      exact h.goOn hc hadmits h.world (hrefl p) (hc.steady p s _ hadmits h.world)
    · cases hstep
  | answer p c =>
    simp only [Processes.step] at hstep
    split at hstep
    · next s op next hp =>
      obtain ⟨⟨answer, w⟩, hperform, rfl⟩ := Option.map_eq_some_iff.1 hstep
      obtain ⟨hs, hpre⟩ := h.pending hc.refl hp
      obtain ⟨hI, hrely⟩ := hc.call hs h.world hpre hperform
      refine h.goOn hc hs hI hrely ?_
      exact ((h.running p s _ hp).2 m.world (hc.refl p s m.world)).2 answer w ⟨c, hperform⟩
    · cases hstep
  | kill p =>
    cases hstep
    exact h.ended hc h.world (hrefl p)

end Sound

/-- **Every interleaving.** -/
theorem states_sound (hc : Compatible program perform leave admits I rely pre) {world : σ}
    {es : List (ProcessEvent S C)} (hI : I world) (hadmits : ∀ e ∈ es, Starts admits e) :
    ∀ m ∈ states (step program perform leave) (idle world : Processes σ S Op Answer) es,
      Sound perform admits I rely pre m := by
  refine states_invariant_steps (I := Sound perform admits I rely pre)
    (C := fun _ e => Starts admits e) (fun hC hm hs => hm.step hc hC hs) (fun x hx => ?_)
    (sound_idle hI)
  obtain ⟨es₁, es₂, rfl, -, -⟩ := mem_steps_iff.1 hx
  exact hadmits x.2 (List.mem_append_right _ List.mem_cons_self)

end Processes

end Irlume.Lib

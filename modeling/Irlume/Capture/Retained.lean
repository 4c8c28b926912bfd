import Irlume.Capture.Custody

/-!
# No owner is freed while its stream may run

An owner that is dropped had its producer quiescent at a moment since it was handed over, and what a
quarantined producer is handed is retained.
-/

namespace Irlume.Capture

open Irlume.Lib

variable {s s' t : Process} {es es' : List Event} {i : Nat} {running : Running} {owner : Owner} {p : Nat}

/-! ## What a later state keeps -/

namespace Process

def phase (s : Process) (p : Nat) : Phase := (s.memory.producers p).phase

structure Later (s t : Process) : Prop where
  memory : s.memory.Later t.memory
  handed : s.handed <+: t.handed

theorem Later.trans {s₁ s₂ s₃ : Process} (h : s₁.Later s₂) (h' : s₂.Later s₃) : s₁.Later s₃ :=
  ⟨h.memory.trans h'.memory, h.handed.trans h'.handed⟩

theorem Later.handed_eq (h : s.Later t) (howner : s.handed[owner]? = some p) : t.handed[owner]? = some p := by
  obtain ⟨more, hmore⟩ := h.handed
  obtain ⟨hlt, -⟩ := List.getElem?_eq_some_iff.1 howner
  rw [← hmore, List.getElem?_append_left hlt, howner]

end Process

variable {e : Event}

theorem step_later (h : step s e = some s') : s.Later s' := by
  cases e with
  | call c =>
    obtain rfl := step_call_iff.1 h
    exact ⟨.refl _, List.prefix_append _ _⟩
  | step i =>
    obtain ⟨running, -, -, rfl⟩ := step_step_iff.1 h
    exact ⟨(advance_spec _ _).later, List.prefix_refl _⟩

theorem run_later (h : run step s es = some t) : s.Later t :=
  run_invariant (I := fun m => s.Later m) (fun hs hstep => hs.trans (step_later hstep))
    ⟨.refl _, List.prefix_refl _⟩ h

def Quarantined (s : Process) (owner : Owner) : Prop :=
  ∃ p, s.handed[owner]? = some p ∧ s.phase p = .unconfirmed

theorem Quarantined.later (h : Quarantined s owner) (hlater : s.Later t) : Quarantined t owner := by
  obtain ⟨p, howner, hphase⟩ := h
  exact ⟨p, hlater.handed_eq howner, hlater.memory.unconfirmed p hphase⟩

theorem run_never_unconfirmed (h : run step s es = some t) (hp : t.phase p ≠ .unconfirmed) :
    ∀ m ∈ states step s es, m.phase p ≠ .unconfirmed := by
  intro m hm hphase
  obtain ⟨es₁, es₂, rfl, hrun⟩ := exists_run_of_mem_states hm
  obtain ⟨m', hm', ht⟩ := run_append_some.1 h
  cases hm'.symm.trans hrun
  exact hp ((run_later ht).memory.unconfirmed p hphase)

/-- At a moment of the run the owner was handed over, and its producer was quiescent and had never been
quarantined. -/
def Released (es : List Event) (owner : Owner) : Prop :=
  ∃ es₁ es₂ t p, es = es₁ ++ es₂ ∧ run step .initial es₁ = some t ∧ t.handed[owner]? = some p ∧
    (t.phase p = .neverStarted ∨ t.phase p = .stopped) ∧
    ∀ m ∈ states step .initial es₁, m.phase p ≠ .unconfirmed

theorem released_of_quiescent (h : run step .initial es = some t) (howner : t.handed[owner]? = some p)
    (hp : t.phase p = .neverStarted ∨ t.phase p = .stopped) : Released es owner := by
  refine ⟨es, [], t, p, (List.append_nil es).symm, h, howner, hp, run_never_unconfirmed h ?_⟩
  rcases hp with hp | hp <;> simp [hp]

theorem Released.append (h : Released es owner) (more : List Event) : Released (es ++ more) owner := by
  obtain ⟨es₁, es₂, t, p, rfl, hrest⟩ := h
  exact ⟨es₁, es₂ ++ more, t, p, List.append_assoc .., hrest⟩

/-! ## Where an owner is says what became of its producer -/

def Rest.Accounted (past : List Event) (s : Process) : Rest → Prop
  | .afterStop p owner => s.handed[owner]? = some p
  | .drop owners => ∀ owner ∈ owners, Released past owner
  | .retain owners | .append owners _ => ∀ owner ∈ owners, Quarantined s owner
  | _ => True

theorem Rest.Accounted.later {rest : Rest} (h : rest.Accounted es s) (hlater : s.Later t)
    (more : List Event) : rest.Accounted (es ++ more) t := by
  cases rest with
  | afterStop p owner => exact hlater.handed_eq h
  | drop owners => exact fun owner howner => (h owner howner).append more
  | retain owners => exact fun owner howner => (h owner howner).later hlater
  | append owners firstFault => exact fun owner howner => (h owner howner).later hlater
  | _ => trivial

/-- What holds of the owners that no call holds. -/
structure Kept (past : List Event) (s : Process) : Prop where
  deferred : ∀ p, ∀ owner ∈ (s.memory.producers p).deferred,
    s.phase p = .producing ∧ s.handed[owner]? = some p
  retained : ∀ owner ∈ s.memory.domain.retained, Quarantined s owner
  dropped : ∀ owner ∈ s.memory.dropped, Released past owner

theorem Kept.setProducer {state : Producer} (h : Kept es s) (hlater : s.Later t)
    (hmemory : t.memory = s.memory.setProducer p state)
    (hstate : ∀ owner ∈ state.deferred, state.phase = .producing ∧ s.handed[owner]? = some p)
    (more : List Event) : Kept (es ++ more) t where
  deferred q owner howner := by
    by_cases hne : q = p
    · subst hne
      have heq : t.memory.producers q = state := by simp [hmemory, Memory.setProducer]
      rw [heq] at howner
      obtain ⟨hphase, hhanded⟩ := hstate owner howner
      exact ⟨by rw [Process.phase, heq, hphase], hlater.handed_eq hhanded⟩
    · have heq : t.memory.producers q = s.memory.producers q := by simp [hmemory, Memory.setProducer, hne]
      rw [heq] at howner
      obtain ⟨hphase, hhanded⟩ := h.deferred q owner howner
      exact ⟨by rw [Process.phase, heq]; exact hphase, hlater.handed_eq hhanded⟩
  retained owner howner := by
    rw [hmemory] at howner
    exact (h.retained owner howner).later hlater
  dropped owner howner := by
    rw [hmemory] at howner
    exact (h.dropped owner howner).append more

theorem Kept.of_producers (h : Kept es s) (hlater : s.Later t)
    (hproducers : t.memory.producers = s.memory.producers) {more : List Event}
    (hretained : ∀ owner ∈ t.memory.domain.retained,
      owner ∈ s.memory.domain.retained ∨ Quarantined t owner)
    (hdropped : ∀ owner ∈ t.memory.dropped, owner ∈ s.memory.dropped ∨ Released (es ++ more) owner) :
    Kept (es ++ more) t where
  deferred q owner howner := by
    rw [hproducers] at howner
    obtain ⟨hphase, hhanded⟩ := h.deferred q owner howner
    exact ⟨by rw [Process.phase, hproducers]; exact hphase, hlater.handed_eq hhanded⟩
  retained owner howner :=
    (hretained owner howner).elim (fun hold => (h.retained owner hold).later hlater) id
  dropped owner howner :=
    (hdropped owner howner).elim (fun hold => (h.dropped owner hold).append more) id

/-- **One step of a call.** Only a quiescent producer has a call drop what it was handed, and only a
quarantined one has it retained. -/
theorem Kept.advanced {rest rest' : Rest} (h : Kept es s) (hrest : rest.Accounted es s)
    (hrun : run step .initial es = some s) (hrun' : run step .initial (es ++ [e]) = some t)
    (hlater : s.Later t) (hadvances : Advances s.memory rest t.memory rest') :
    rest'.Accounted (es ++ [e]) t ∧ Kept (es ++ [e]) t := by
  obtain ⟨m, calls, handed⟩ := t
  change Advances s.memory rest m rest' at hadvances
  have hsame : m = s.memory → Kept (es ++ [e]) ⟨m, calls, handed⟩ := by
    rintro rfl
    exact h.of_producers hlater rfl (fun _ howner => .inl howner) fun _ howner => .inl howner
  cases hadvances with
  | stays _ hidle => exact ⟨by cases hidle <;> trivial, hsame rfl⟩
  | @begins p _ hphase =>
    refine ⟨trivial, h.setProducer hlater rfl (fun owner howner => ?_) _⟩
    cases hphase.symm.trans (h.deferred p owner howner).1
  | @stops p =>
    refine ⟨fun owner howner => ?_, h.setProducer hlater rfl (fun _ h => absurd h List.not_mem_nil) _⟩
    refine released_of_quiescent hrun' (hlater.handed_eq (h.deferred p owner howner).2) (.inr ?_)
    simp [Process.phase, Memory.setProducer]
  | @quarantines p =>
    refine ⟨fun owner howner => ?_, h.setProducer hlater rfl (fun _ h => absurd h List.not_mem_nil) _⟩
    refine ⟨p, hlater.handed_eq (h.deferred p owner howner).2, ?_⟩
    simp [Process.phase, Memory.setProducer]
  | frees hquiescent =>
    refine ⟨List.forall_mem_singleton.2 ?_, hsame rfl⟩
    exact (released_of_quiescent hrun hrest (Producer.isQuiescent_iff.1 hquiescent)).append _
  | @defers p owner _ hphase =>
    refine ⟨trivial, h.setProducer hlater rfl (fun owner' howner' => ?_) _⟩
    rcases List.mem_append.1 howner' with hold | hnew
    · exact h.deferred p owner' hold
    · rw [List.mem_singleton.1 hnew]
      exact ⟨hphase, hrest⟩
  | retains hphase =>
    exact ⟨List.forall_mem_singleton.2 (Quarantined.later ⟨_, hrest, hphase⟩ hlater), hsame rfl⟩
  | @drops owner owners =>
    obtain ⟨howner, howners⟩ := List.forall_mem_cons.1 hrest
    refine ⟨fun owner' h' => (howners owner' h').append _,
      h.of_producers hlater rfl (fun _ h' => .inl h') fun owner' h' => ?_⟩
    rcases List.mem_append.1 h' with hold | hnew
    · exact .inl hold
    · rw [List.mem_singleton.1 hnew]
      exact .inr (howner.append _)
  | faults =>
    exact ⟨fun owner howner => (hrest owner howner).later hlater,
      h.of_producers hlater rfl (fun _ h' => .inl h') fun _ h' => .inl h'⟩
  | appends hidle =>
    refine ⟨by cases hidle <;> trivial, h.of_producers hlater rfl (fun owner' h' => ?_) fun _ h' => .inl h'⟩
    rcases List.mem_append.1 h' with hold | hnew
    · exact .inl hold
    · exact .inr ((hrest owner' hnew).later hlater)
  | reports => exact ⟨trivial, h.of_producers hlater rfl (fun _ h' => .inl h') fun _ h' => .inl h'⟩

/-- The account of every owner, the calls' included. -/
structure Sound (past : List Event) (s : Process) : Prop where
  owned : Owned s
  kept : Kept past s
  calls : ∀ {i : Nat} {running : Running}, s.calls[i]? = some running → running.rest.Accounted past s

theorem sound_initial : Sound [] .initial where
  owned := owned_initial
  kept := ⟨nofun, nofun, nofun⟩
  calls := nofun

theorem Sound.step (h : Sound es s) (hrun : run step .initial es = some s)
    (hstep : step s e = some s') : Sound (es ++ [e]) s' := by
  have hlater := step_later hstep
  cases e with
  | call c =>
    obtain rfl := step_call_iff.1 hstep
    refine ⟨h.owned.called c, h.kept.of_producers hlater rfl ?_ ?_, ?_⟩
    · exact fun owner howner => .inl howner
    · exact fun owner howner => .inl howner
    · intro j running hj
      rw [calls_called] at hj
      split at hj
      · cases hj
        cases c with
        | afterStop p => simp [Call.enter, Rest.Accounted, Call.hands]
        | _ => trivial
      · exact (h.calls hj).later hlater _
  | step i =>
    obtain ⟨running, hi, -, rfl⟩ := step_step_iff.1 hstep
    obtain ⟨hrest, hkept⟩ := h.kept.advanced (h.calls hi) hrun (run_concat_some.2 ⟨s, hrun, hstep⟩) hlater
      (advance_spec _ _)
    refine ⟨h.owned.advanced hi, hkept, ?_⟩
    intro j running' hj
    rw [calls_advanced hi] at hj
    split at hj
    · cases hj
      exact hrest
    · exact (h.calls hj).later hlater _

/-- **Every order of the steps.** -/
theorem run_sound (h : run step .initial es = some s) : Sound es s :=
  run_invariant_past sound_initial (fun hrun hm hstep => hm.step hrun hstep) h

theorem Advances.dropped {m m' : Memory} {rest rest' : Rest} (h : Advances m rest m' rest')
    (howner : owner ∈ m'.dropped) (hnew : owner ∉ m.dropped) : ∃ owners, rest = .drop owners ∧ owner ∈ owners := by
  cases h with
  | drops =>
    rcases List.mem_append.1 howner with hold | hfirst
    · exact absurd hold hnew
    · exact ⟨_, rfl, List.mem_singleton.1 hfirst ▸ List.mem_cons_self⟩
  | _ => exact absurd howner hnew

theorem dropped_step (hstep : step s e = some s') (howner : owner ∈ s'.memory.dropped)
    (hnew : owner ∉ s.memory.dropped) :
    ∃ (i : Nat) (call : Call) (owners : List Owner),
      s.calls[i]? = some ⟨call, .drop owners⟩ ∧ owner ∈ owners := by
  cases e with
  | call c =>
    obtain rfl := step_call_iff.1 hstep
    exact absurd howner hnew
  | step i =>
    obtain ⟨⟨call, rest⟩, hi, -, rfl⟩ := step_step_iff.1 hstep
    obtain ⟨owners, rfl, hin⟩ := (advance_spec s.memory rest).dropped howner hnew
    exact ⟨i, call, owners, hi, hin⟩

/-! ## A quarantined producer -/

/-- An owner is retained, or the call it was handed over in is still on its way there. -/
def Retaining (s : Process) (p : Nat) (owner : Owner) : Prop :=
  owner ∈ s.memory.domain.retained ∨ ∃ (i : Nat) (rest : Rest), s.calls[i]? = some ⟨.afterStop p, rest⟩ ∧
    (rest = .afterStop p owner ∨ rest = .retain [owner] ∨ ∃ firstFault, rest = .append [owner] firstFault)

theorem Retaining.advanced (h : Retaining s p owner) (hp : s.phase p = .unconfirmed)
    (hi : s.calls[i]? = some running) : Retaining (s.advanced i running) p owner := by
  rcases h with hretained | ⟨j, rest, hj, hrest⟩
  · exact .inl ((advance_spec s.memory running.rest).later.retained.subset hretained)
  · by_cases hij : i = j
    · subst hij
      cases hi.symm.trans hj
      have hnext := calls_advanced hi i
      rw [if_pos rfl] at hnext
      rcases hrest with rfl | rfl | ⟨firstFault, rfl⟩
      · refine .inr ⟨i, _, hnext, .inr (.inl ?_)⟩
        have hafter : (s.memory.producers p).afterStop owner = (s.memory.producers p, .retain) := by
          simp only [Producer.afterStop, show (s.memory.producers p).phase = .unconfirmed from hp]
        simp only [advance, hafter]
      · exact .inr ⟨i, _, hnext, .inr (.inr ⟨_, rfl⟩)⟩
      · exact .inl (List.mem_append_right _ (List.mem_singleton_self owner))
    · exact .inr ⟨j, rest, by rw [calls_advanced hi, if_neg hij, hj], hrest⟩

theorem Retaining.called (h : Retaining s p owner) (c : Call) : Retaining (s.called c) p owner := by
  refine h.imp_right fun ⟨j, rest, hj, hrest⟩ => ⟨j, rest, ?_, hrest⟩
  obtain ⟨hlt, -⟩ := List.getElem?_eq_some_iff.1 hj
  rw [calls_called, if_neg (Nat.ne_of_lt hlt), hj]

/-- Every owner handed over to `p` from the `n`-th on is retained or on its way there. -/
def RetainsFrom (n p : Nat) (s : Process) : Prop :=
  s.phase p = .unconfirmed ∧ n ≤ s.handed.length ∧
    ∀ owner, n ≤ owner → s.handed[owner]? = some p → Retaining s p owner

theorem RetainsFrom.step {n : Nat} (h : RetainsFrom n p s) (hstep : step s e = some s') :
    RetainsFrom n p s' := by
  have hlater := step_later hstep
  obtain ⟨hphase, hn, howners⟩ := h
  refine ⟨hlater.memory.unconfirmed p hphase, Nat.le_trans hn hlater.handed.length_le, ?_⟩
  intro owner hle hhanded
  cases e with
  | call c =>
    obtain rfl := step_call_iff.1 hstep
    by_cases hlt : owner < s.handed.length
    · refine (howners owner hle ?_).called c
      rwa [handed_called, List.getElem?_append_left hlt] at hhanded
    · -- The owner is the one this call hands over.
      rw [handed_called, List.getElem?_append_right (Nat.le_of_not_lt hlt)] at hhanded
      cases c with
      | afterStop q =>
        obtain ⟨hlt', heq⟩ := List.getElem?_eq_some_iff.1 hhanded
        have howner : owner = s.handed.length :=
          Nat.le_antisymm (Nat.sub_eq_zero_iff_le.1 (Nat.lt_one_iff.1 hlt')) (Nat.le_of_not_lt hlt)
        have hq : q = p := by simpa [Call.hands] using heq
        subst hq howner
        exact .inr ⟨s.calls.length, _, by rw [calls_called, if_pos rfl]; rfl, .inl rfl⟩
      | _ => cases hhanded
  | step i =>
    obtain ⟨running, hi, -, rfl⟩ := step_step_iff.1 hstep
    exact (howners owner hle hhanded).advanced hphase hi

theorem run_retains (hp : s.phase p = .unconfirmed) (h : run step s es = some t) :
    RetainsFrom s.handed.length p t := by
  refine run_invariant (fun hm hstep => hm.step hstep) ⟨hp, Nat.le_refl _, ?_⟩ h
  intro owner hle howner
  rw [List.getElem?_eq_none hle] at howner
  cases howner

/-! ## The fault flag -/

/-- A report of an unconfirmed stop has set the flag before it returns. -/
def Faults (s : Process) : Prop := ∀ (i p : Nat) (rest : Rest),
  s.calls[i]? = some ⟨.unconfirmed p, rest⟩ →
    rest = .unconfirmed p ∨ (∃ owners, rest = .retain owners) ∨ s.memory.domain.faulted = true

theorem Faults.step (h : Faults s) (hstep : step s e = some s') : Faults s' := by
  have hlater := step_later hstep
  intro j p rest hj
  cases e with
  | call c =>
    obtain rfl := step_call_iff.1 hstep
    rw [calls_called] at hj
    split at hj
    · obtain ⟨rfl, rfl⟩ := Running.mk.inj (Option.some.inj hj)
      exact .inl rfl
    · exact h j p rest hj
  | step i =>
    obtain ⟨running, hi, -, rfl⟩ := step_step_iff.1 hstep
    rw [calls_advanced hi] at hj
    split at hj
    · next hij =>
      obtain ⟨call, old⟩ := running
      obtain ⟨rfl, rfl⟩ := Running.mk.inj (Option.some.inj hj)
      rcases h i p old hi with rfl | ⟨owners, rfl⟩ | hfaulted
      · exact .inr (.inl ⟨_, rfl⟩)
      · exact .inr (.inr rfl)
      · exact .inr (.inr (hlater.memory.faulted hfaulted))
    · exact (h j p rest hj).imp_right (Or.imp_right hlater.memory.faulted)

theorem run_faults (h : run step .initial es = some s) : Faults s :=
  run_invariant (fun hm hstep => hm.step hstep) (fun _ _ _ hi => by cases hi) h

/-- A call of `begin` that has not checked a faulted domain yet will be refused. -/
def Refuses (i p : Nat) (s : Process) : Prop :=
  s.memory.domain.faulted = true ∧ ∀ rest, s.calls[i]? = some ⟨.begin p, rest⟩ →
    rest = .begin p ∨ rest = .returned (.admission (.error .unconfirmedShutdown))

theorem Refuses.step (h : Refuses i p s) (hstep : step s e = some s') : Refuses i p s' := by
  obtain ⟨hfaulted, hi⟩ := h
  refine ⟨(step_later hstep).memory.faulted hfaulted, fun rest hrest => ?_⟩
  cases e with
  | call c =>
    obtain rfl := step_call_iff.1 hstep
    rw [calls_called] at hrest
    split at hrest
    · obtain ⟨rfl, rfl⟩ := Running.mk.inj (Option.some.inj hrest)
      exact .inl rfl
    · exact hi rest hrest
  | step j =>
    obtain ⟨⟨call, old⟩, hj, hreturned, rfl⟩ := step_step_iff.1 hstep
    rw [calls_advanced hj] at hrest
    split at hrest
    · next hij =>
      subst hij
      obtain ⟨rfl, rfl⟩ := Running.mk.inj (Option.some.inj hrest)
      rcases hi old hj with rfl | rfl
      · right
        simp only [advance, Domain.check, hfaulted, if_true]
      · cases hreturned
    · exact hi rest hrest

/-! ## Whole runs -/

def OnePlace (s : Process) (owner : Owner) : Prop :=
  ∃ place, (s.holds place).count owner = 1 ∧ ∀ other, other ≠ place → owner ∉ s.holds other

/-- **No owner is freed while its stream may run.** In every order of the atomic steps of any number of
calls on any number of producers: an owner that was handed over is in one place; the step that drops it comes
after a moment, not before the hand-over, at which its producer was quiescent and had never been quarantined;
what is retained stays so; a producer that is quarantined is never quiescent again, and what it is handed from
then on is retained; and a `begin` that checks the domain after a report of an unconfirmed stop returned fails. -/
theorem freed_only_after_stop (h : run step .initial es = some s) :
    (∀ owner, owner < s.handed.length → OnePlace s owner) ∧
    (∀ e s' owner, step s e = some s' → owner ∈ s'.memory.dropped → owner ∉ s.memory.dropped →
      Released es owner) ∧
    ∀ es' t, run step s es' = some t →
      s.memory.domain.retained <+: t.memory.domain.retained ∧
      (∀ p, s.phase p = .unconfirmed → (t.memory.producers p).isQuiescent = false ∧
        ∀ owner, s.handed.length ≤ owner → t.handed[owner]? = some p → Retaining t p owner) ∧
      ∀ (i p : Nat) (value : Returned), s.calls[i]? = some ⟨.unconfirmed p, .returned value⟩ →
        ∀ j q : Nat, (∀ rest, s.calls[j]? = some ⟨.begin q, rest⟩ → rest = .begin q) →
          t.calls[j]? ≠ some ⟨.begin q, .returned (.admission (.ok ()))⟩ := by
  have hsound := run_sound h
  refine ⟨fun owner howner => ?_, fun e s' owner hstep hin hout => ?_, fun es' t ht => ⟨?_, ?_, ?_⟩⟩
  · exact hsound.owned.custody.one_place ((hsound.owned.handed owner).2 howner)
  · obtain ⟨i, call, owners, hi, howner⟩ := dropped_step hstep hin hout
    exact hsound.calls hi owner howner
  · exact (run_later ht).memory.retained
  · intro p hp
    obtain ⟨hphase, -, howners⟩ := run_retains hp ht
    refine ⟨?_, howners⟩
    rw [Producer.isQuiescent, show (t.memory.producers p).phase = .unconfirmed from hphase]
  · intro i p value hi j q hj hbegun
    have hfaulted : s.memory.domain.faulted = true := by
      obtain hrest | ⟨owners, hrest⟩ | hfaulted := run_faults h i p _ hi
      · cases hrest
      · cases hrest
      · exact hfaulted
    have hrefuses : Refuses j q t :=
      run_invariant (fun hm hstep => hm.step hstep) ⟨hfaulted, fun rest hrest => .inl (hj rest hrest)⟩ ht
    obtain hrest | hrest := hrefuses.2 _ hbegun
    · cases hrest
    · cases hrest

/-- A stream starts, an owner waits for it, and its stop is not confirmed. -/
def unconfirmedStop : List Event :=
  [.call (.begin 0), .step 0, .step 0, .call (.afterStop 0), .step 1, .call (.unconfirmed 0),
    .step 2, .step 2, .step 2, .step 2]

/-- After a stop that was not confirmed the owner is never freed. -/
theorem freed_only_after_stop_unconfirmed : ∃ s, run step .initial unconfirmedStop = some s ∧
    OnePlace s 0 ∧ ∀ es t, run step s es = some t → 0 ∈ t.memory.domain.retained ∧
      (t.memory.producers 0).isQuiescent = false := by
  have hsome : (run step .initial unconfirmedStop).isSome := by decide
  obtain ⟨s, hs⟩ := Option.isSome_iff_exists.1 hsome
  have hfacts : (run step .initial unconfirmedStop).map
      (fun s => (s.handed.length, s.memory.domain.retained, s.phase 0)) = some (1, [0], .unconfirmed) := by
    decide
  rw [hs, Option.map_some, Option.some.injEq, Prod.mk.injEq, Prod.mk.injEq] at hfacts
  obtain ⟨hhanded, hretained, hphase⟩ := hfacts
  obtain ⟨hplace, -, hlater⟩ := freed_only_after_stop hs
  refine ⟨s, hs, hplace 0 (by omega), fun es t ht => ?_⟩
  obtain ⟨hgrown, hquarantined, -⟩ := hlater es t ht
  rw [hretained] at hgrown
  exact ⟨hgrown.subset (List.mem_singleton_self 0), (hquarantined 0 hphase).1⟩

end Irlume.Capture

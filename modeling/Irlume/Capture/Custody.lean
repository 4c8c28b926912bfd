import Irlume.Capture.Shutdown

/-!
# What one step does with owners

No step undoes a quarantine, a fault or a retention, and every step moves the owners it handles from one place
to another. So every owner that was handed over is in one place, whatever the order of the steps.
-/

namespace Irlume.Capture

open Irlume.Lib

/-! ## One atomic step -/

namespace Memory

/-- What no step undoes. -/
structure Later (m m' : Memory) : Prop where
  unconfirmed : ∀ p, (m.producers p).phase = .unconfirmed → (m'.producers p).phase = .unconfirmed
  faulted : m.domain.faulted = true → m'.domain.faulted = true
  retained : m.domain.retained <+: m'.domain.retained

theorem Later.refl (m : Memory) : m.Later m := ⟨fun _ h => h, id, List.prefix_refl _⟩

theorem Later.trans {m₁ m₂ m₃ : Memory} (h : m₁.Later m₂) (h' : m₂.Later m₃) : m₁.Later m₃ where
  unconfirmed p hp := h'.unconfirmed p (h.unconfirmed p hp)
  faulted hf := h'.faulted (h.faulted hf)
  retained := h.retained.trans h'.retained

theorem later_setProducer {m : Memory} {p : Nat} {state : Producer}
    (h : (m.producers p).phase = .unconfirmed → state.phase = .unconfirmed) :
    m.Later (m.setProducer p state) where
  unconfirmed q hq := by
    by_cases hne : q = p
    · subst hne
      simpa [setProducer] using h hq
    · simpa [setProducer, hne] using hq
  faulted hf := hf
  retained := List.prefix_refl _

end Memory

namespace Producer

variable {state state' : Producer} {owner : Owner} {deferred : List Owner}

theorem begin_eq_ok (h : state.begin = .ok state') :
    state.phase = .neverStarted ∧ state' = ⟨.producing, state.deferred⟩ := by
  unfold begin at h
  split at h
  · cases h
  · next hphase =>
    rw [not_not] at hphase
    exact ⟨hphase, (Except.ok.inj h).symm⟩

theorem stopped_eq_some (h : state.stopped = some (state', deferred)) :
    state.phase ≠ .unconfirmed ∧ state' = ⟨.stopped, []⟩ ∧ deferred = state.deferred := by
  unfold stopped at h
  split at h
  · cases h
  · next hphase =>
    cases h
    exact ⟨hphase, rfl, rfl⟩

theorem isQuiescent_iff : state.isQuiescent = true ↔ state.phase = .neverStarted ∨ state.phase = .stopped := by
  unfold isQuiescent
  split <;> simp_all

theorem afterStop_spec (state : Producer) (owner : Owner) :
    (state.afterStop owner = (state, .drop) ∧ state.isQuiescent = true) ∨
    (state.afterStop owner = ({ state with deferred := state.deferred ++ [owner] }, .leaveDeferred) ∧
      state.phase = .producing) ∨
    (state.afterStop owner = (state, .retain) ∧ state.phase = .unconfirmed) := by
  unfold afterStop isQuiescent
  cases hphase : state.phase <;> simp

end Producer

/-- A call that neither has owners nor is about to get any. -/
inductive Rest.Idle : Rest → Prop where
  | beginChecked (p : Nat) : Idle (.beginChecked p)
  | sayFault : Idle .sayFault
  | returned (value : Returned) : Idle (.returned value)

/-- All that one atomic step can do to the memory and to the call that takes it. -/
inductive Advances (m : Memory) : Rest → Memory → Rest → Prop where
  | stays {rest rest' : Rest} (howners : rest.owners = []) (hidle : rest'.Idle) : Advances m rest m rest'
  | begins {p : Nat} {value : Returned} (hphase : (m.producers p).phase = .neverStarted) :
      Advances m (.beginChecked p) (m.setProducer p ⟨.producing, (m.producers p).deferred⟩) (.returned value)
  | stops {p : Nat} (hphase : (m.producers p).phase ≠ .unconfirmed) :
      Advances m (.stopped p) (m.setProducer p ⟨.stopped, []⟩) (.drop (m.producers p).deferred)
  | quarantines {p : Nat} :
      Advances m (.unconfirmed p) (m.setProducer p ⟨.unconfirmed, []⟩) (.retain (m.producers p).deferred)
  | frees {p : Nat} {owner : Owner} (hquiescent : (m.producers p).isQuiescent = true) :
      Advances m (.afterStop p owner) m (.drop [owner])
  | defers {p : Nat} {owner : Owner} {value : Returned} (hphase : (m.producers p).phase = .producing) :
      Advances m (.afterStop p owner)
        (m.setProducer p ⟨(m.producers p).phase, (m.producers p).deferred ++ [owner]⟩) (.returned value)
  | retains {p : Nat} {owner : Owner} (hphase : (m.producers p).phase = .unconfirmed) :
      Advances m (.afterStop p owner) m (.retain [owner])
  | drops {owner : Owner} {owners : List Owner} :
      Advances m (.drop (owner :: owners)) { m with dropped := m.dropped ++ [owner] } (.drop owners)
  | faults {owners : List Owner} {firstFault : Bool} :
      Advances m (.retain owners) (m.setDomain { m.domain with faulted := true }) (.append owners firstFault)
  | appends {owners : List Owner} {firstFault : Bool} {rest' : Rest} (hidle : rest'.Idle) :
      Advances m (.append owners firstFault)
        (m.setDomain { m.domain with retained := m.domain.retained ++ owners }) rest'
  | reports {line : String} {value : Returned} :
      Advances m .sayFault { m with stderr := m.stderr ++ [line] } (.returned value)

theorem Memory.setProducer_self (m : Memory) (p : Nat) : m.setProducer p (m.producers p) = m := by
  simp [setProducer]

theorem advance_spec (m : Memory) (rest : Rest) : Advances m rest (advance m rest).1 (advance m rest).2 := by
  cases rest with
  | check | isQuiescent | returned => exact .stays rfl (.returned _)
  | begin p =>
    simp only [advance]
    split
    · exact .stays rfl (.returned _)
    · exact .stays rfl (.beginChecked _)
  | beginChecked p =>
    simp only [advance]
    split
    · exact .stays rfl (.returned _)
    · next state hbegin =>
      obtain ⟨hphase, rfl⟩ := Producer.begin_eq_ok hbegin
      exact .begins hphase
  | stopped p =>
    simp only [advance]
    split
    · exact .stays rfl (.returned _)
    · next state deferred hstopped =>
      obtain ⟨hphase, rfl, rfl⟩ := Producer.stopped_eq_some hstopped
      exact .stops hphase
  | unconfirmed p => exact .quarantines
  | afterStop p owner =>
    simp only [advance]
    obtain ⟨heq, h⟩ | ⟨heq, h⟩ | ⟨heq, h⟩ := (m.producers p).afterStop_spec owner <;> rw [heq]
    · simpa only [m.setProducer_self] using .frees h
    · exact .defers h
    · simpa only [m.setProducer_self] using .retains h
  | drop owners =>
    cases owners with
    | nil => exact .stays rfl (.returned _)
    | cons owner owners => exact .drops
  | retain owners => exact .faults
  | append owners firstFault => cases firstFault <;> exact .appends (by constructor)
  | sayFault => exact .reports

section

variable {m m' : Memory} {rest rest' : Rest}

theorem Rest.Idle.owners_eq (h : rest.Idle) : rest.owners = [] := by
  cases h <;> rfl

/-- **What no step undoes.** -/
theorem Advances.later (h : Advances m rest m' rest') : m.Later m' := by
  cases h with
  | stays | frees | retains => exact .refl m
  | begins hphase => exact Memory.later_setProducer fun hp => by simp [hphase] at hp
  | stops hphase => exact Memory.later_setProducer fun hp => absurd hp hphase
  | quarantines => exact Memory.later_setProducer fun _ => rfl
  | defers => exact Memory.later_setProducer id
  | faults => exact ⟨fun _ hp => hp, fun _ => rfl, List.prefix_refl _⟩
  | appends => exact ⟨fun _ hp => hp, id, List.prefix_append _ _⟩
  | drops | reports => exact ⟨fun _ hp => hp, id, List.prefix_refl _⟩

end

/-! ## Custody -/

/-- Where an owner can be. -/
inductive Place where
  /-- In the hands of a call: being handed over, retained or dropped. -/
  | call (i : Nat)
  | deferred (producer : Nat)
  | retained
  | dropped
  deriving DecidableEq

namespace Process

def holds (s : Process) : Place → List Owner
  | .call i => (s.calls[i]?).elim [] (·.rest.owners)
  | .deferred p => (s.memory.producers p).deferred
  | .retained => s.memory.domain.retained
  | .dropped => s.memory.dropped

/-- The process after the call of number `i` took a step. -/
def advanced (s : Process) (i : Nat) (running : Running) : Process where
  memory := (advance s.memory running.rest).1
  calls := s.calls.set i ⟨running.call, (advance s.memory running.rest).2⟩
  handed := s.handed

end Process

variable {s s' : Process} {i : Nat} {running : Running}

theorem step_step_iff : step s (.step i) = some s' ↔
    ∃ running, s.calls[i]? = some running ∧ running.rest.isReturned = false ∧ s' = s.advanced i running := by
  simp only [step]
  cases hi : s.calls[i]? with
  | none => simp
  | some running =>
    simp only [Option.some.injEq, exists_eq_left']
    cases running.rest.isReturned with
    | true => simp
    | false => simpa [Process.advanced] using eq_comm

theorem calls_advanced (hi : s.calls[i]? = some running) (j : Nat) :
    (s.advanced i running).calls[j]? =
      if i = j then some ⟨running.call, (advance s.memory running.rest).2⟩ else s.calls[j]? := by
  obtain ⟨hlt, -⟩ := List.getElem?_eq_some_iff.1 hi
  simp [Process.advanced, List.getElem?_set, hlt]

/-- Where the owners a step can reach are: `mine` is the call's own. -/
inductive Seat where
  | mine
  | deferred (producer : Nat)
  | retained
  | dropped

namespace Seat

def place (i : Nat) : Seat → Place
  | .mine => .call i
  | .deferred p => .deferred p
  | .retained => .retained
  | .dropped => .dropped

theorem place_injective (i : Nat) : Function.Injective (place i) := by
  intro a b h
  cases a <;> cases b <;> simp_all [place]

end Seat

def view (m : Memory) (rest : Rest) : Seat → List Owner
  | .mine => rest.owners
  | .deferred p => (m.producers p).deferred
  | .retained => m.domain.retained
  | .dropped => m.dropped

section

variable (hi : s.calls[i]? = some running)

include hi

theorem holds_place (seat : Seat) :
    s.holds (seat.place i) = view s.memory running.rest seat := by
  cases seat with
  | mine => simp only [Seat.place, Process.holds, hi, Option.elim_some, view]
  | deferred p => rfl
  | retained => rfl
  | dropped => rfl

theorem holds_advanced_place (seat : Seat) :
    (s.advanced i running).holds (seat.place i) =
      view (advance s.memory running.rest).1 (advance s.memory running.rest).2 seat :=
  holds_place (s := s.advanced i running) (by rw [calls_advanced hi, if_pos rfl]) seat

theorem holds_advanced_others {place : Place}
    (h : ∀ seat : Seat, seat.place i ≠ place) : (s.advanced i running).holds place = s.holds place := by
  cases place with
  | call j =>
    have hij : i ≠ j := fun heq => h .mine (by rw [heq]; rfl)
    simp only [Process.holds, calls_advanced hi, hij, if_false]
  | deferred p => exact absurd rfl (h (.deferred p))
  | retained => exact absurd rfl (h .retained)
  | dropped => exact absurd rfl (h .dropped)

end

theorem view_setProducer {m : Memory} {p : Nat} {state : Producer} {rest rest' : Rest}
    (hdeferred : state.deferred = (m.producers p).deferred) (howners : rest'.owners = rest.owners)
    (seat : Seat) : view (m.setProducer p state) rest' seat = view m rest seat := by
  cases seat with
  | mine => exact howners
  | deferred q =>
    by_cases hne : q = p
    · subst hne
      simpa [view, Memory.setProducer] using hdeferred
    · simp [view, Memory.setProducer, hne]
  | retained => rfl
  | dropped => rfl

theorem moves_take {m : Memory} {p : Nat} {phase : Phase} {rest rest' : Rest} (hrest : rest.owners = [])
    (hrest' : rest'.owners = (m.producers p).deferred) :
    Moves (view m rest) (view (m.setProducer p ⟨phase, []⟩) rest') (.deferred p) .mine
      (m.producers p).deferred where
  ne := nofun
  source_eq := by simp [view, Memory.setProducer]
  target_eq := by simp [view, hrest, hrest']
  others seat hsource htarget := by
    cases seat with
    | mine => exact absurd rfl htarget
    | deferred q =>
      have hne : q ≠ p := fun heq => hsource (by rw [heq])
      simp [view, Memory.setProducer, hne]
    | retained => rfl
    | dropped => rfl

/-- **A step moves owners from one seat to another.** -/
theorem Advances.moves {m m' : Memory} {rest rest' : Rest} (h : Advances m rest m' rest') :
    ∃ source target moved, Moves (view m rest) (view m' rest') source target moved := by
  have hstay : (∀ seat, view m' rest' seat = view m rest seat) →
      ∃ source target moved, Moves (view m rest) (view m' rest') source target moved :=
    fun h => ⟨.mine, .dropped, [], .of_eq h nofun⟩
  cases h with
  | stays howners hidle =>
    refine hstay fun seat => ?_
    cases seat with
    | mine => exact hidle.owners_eq.trans howners.symm
    | _ => rfl
  | frees | retains | faults | reports => exact hstay fun seat => by cases seat <;> rfl
  | begins => exact hstay (view_setProducer rfl rfl)
  | stops | quarantines => exact ⟨_, _, _, moves_take rfl rfl⟩
  | @defers p owner =>
    refine ⟨.mine, .deferred p, [owner], nofun, rfl, by simp [view, Memory.setProducer], ?_⟩
    intro seat hmine hdeferred
    cases seat with
    | mine => exact absurd rfl hmine
    | deferred q =>
      have hne : q ≠ p := fun h => hdeferred (by rw [h])
      simp [view, Memory.setProducer, hne]
    | retained => rfl
    | dropped => rfl
  | @drops owner owners =>
    refine ⟨.mine, .dropped, [owner], nofun, rfl, rfl, ?_⟩
    intro seat hmine hdropped
    cases seat with
    | mine => exact absurd rfl hmine
    | dropped => exact absurd rfl hdropped
    | deferred q => rfl
    | retained => rfl
  | @appends owners firstFault _ hidle =>
    have hmine : owners = owners ++ rest'.owners := by rw [hidle.owners_eq, List.append_nil]
    refine ⟨.mine, .retained, owners, nofun, hmine, rfl, ?_⟩
    intro seat hmine hretained
    cases seat with
    | mine => exact absurd rfl hmine
    | retained => exact absurd rfl hretained
    | deferred q => rfl
    | dropped => rfl

theorem moves_advanced (hi : s.calls[i]? = some running) : ∃ source target moved,
    Moves s.holds (s.advanced i running).holds source target moved := by
  obtain ⟨source, target, moved, h⟩ := (advance_spec s.memory running.rest).moves
  exact ⟨_, _, moved, h.frame (Seat.place i) (Seat.place_injective i) (holds_place hi)
    (holds_advanced_place hi) fun p hp => holds_advanced_others hi hp⟩

def Process.called (s : Process) (c : Call) : Process where
  memory := s.memory
  calls := s.calls ++ [⟨c, c.enter s.handed.length⟩]
  handed := s.handed ++ c.hands

theorem step_call_iff {c : Call} : step s (.call c) = some s' ↔ s' = s.called c :=
  Option.some_inj.trans eq_comm

@[simp] theorem handed_called (s : Process) (c : Call) : (s.called c).handed = s.handed ++ c.hands := rfl

theorem calls_called (s : Process) (c : Call) (j : Nat) : (s.called c).calls[j]? =
    if j = s.calls.length then some ⟨c, c.enter s.handed.length⟩ else s.calls[j]? := by
  unfold Process.called
  by_cases hj : j = s.calls.length
  · simp [hj]
  · rw [if_neg hj]
    rcases Nat.lt_or_gt_of_ne hj with hlt | hgt
    · exact List.getElem?_append_left hlt
    · rw [List.getElem?_eq_none (by simp; omega), List.getElem?_eq_none (by omega)]

/-- Every owner that was handed over is under custody, and no other. -/
structure Owned (s : Process) : Prop where
  custody : Custody s.holds
  handed : ∀ owner, (∃ place, owner ∈ s.holds place) ↔ owner < s.handed.length

theorem Owned.called (h : Owned s) (c : Call) : Owned (s.called c) := by
  have hnew : ∀ place, s.handed.length ∉ s.holds place := fun place hplace =>
    (Nat.lt_irrefl _ ((h.handed _).1 ⟨place, hplace⟩)).elim
  have hmine : s.holds (.call s.calls.length) = [] := by simp [Process.holds]
  have hholds : (s.called c).holds (.call s.calls.length) = (c.enter s.handed.length).owners := by
    simp [Process.holds, calls_called]
  have hothers : ∀ place, place ≠ .call s.calls.length → (s.called c).holds place = s.holds place := by
    intro place hne
    cases place with
    | call j =>
      have hj : j ≠ s.calls.length := fun heq => hne (by rw [heq])
      simp only [Process.holds, calls_called, if_neg hj]
    | deferred p => rfl
    | retained => rfl
    | dropped => rfl
  by_cases hafter : ∃ p, c = .afterStop p
  · obtain ⟨p, rfl⟩ := hafter
    have henters : Enters s.holds (s.called (.afterStop p)).holds (.call s.calls.length) s.handed.length :=
      ⟨hnew, by rw [hholds, hmine]; rfl, hothers⟩
    refine ⟨h.custody.enters henters, fun owner => ?_⟩
    have hlength : (s.called (.afterStop p)).handed.length = s.handed.length + 1 := by
      simp [Process.called, Call.hands]
    rw [henters.exists_mem_iff, h.handed, hlength]
    exact Nat.lt_succ_iff_lt_or_eq.symm
  · have hnone : (c.enter s.handed.length).owners = [] ∧ c.hands = [] := by
      cases c with
      | afterStop p => exact absurd ⟨p, rfl⟩ hafter
      | _ => exact ⟨rfl, rfl⟩
    have heq : (s.called c).holds = s.holds := by
      funext place
      by_cases hplace : place = .call s.calls.length
      · rw [hplace, hholds, hmine, hnone.1]
      · exact hothers place hplace
    have hlength : (s.called c).handed.length = s.handed.length := by simp [Process.called, hnone.2]
    exact ⟨heq ▸ h.custody, fun owner => by rw [heq, hlength]; exact h.handed owner⟩

theorem Owned.advanced (h : Owned s) (hi : s.calls[i]? = some running) : Owned (s.advanced i running) := by
  obtain ⟨source, target, moved, hmoves⟩ := moves_advanced hi
  refine ⟨h.custody.moves hmoves, fun owner => ?_⟩
  rw [hmoves.exists_mem_iff h.custody]
  exact h.handed owner

theorem owned_initial : Owned .initial := by
  have hnone : ∀ place, Process.initial.holds place = [] := by
    intro place
    cases place <;> rfl
  refine ⟨⟨fun place => ?_, fun hx => ?_⟩, fun owner => ?_⟩
  · rw [hnone]
    exact List.nodup_nil
  · rw [hnone] at hx
    cases hx
  · simp only [hnone, List.not_mem_nil, exists_false, false_iff]
    exact Nat.not_lt_zero owner

end Irlume.Capture

import Mathlib.Data.List.Forall2

/-!
# The dispatch of a stack of handlers

A stack is a list of handlers, each on a level. Each that is reached is called, and its table says what
comes of the value it returned: nothing (`ignore`), a number of handlers passed over (`jump`), or a change
of the verdict (`settle`). A stack inside a stack is on the next level. It starts with a handler of its own
(`enter`), which is the one a jump over the inner stack counts.

How the verdict changes is left open (`Rules`).
-/

namespace Irlume.Lib

universe u

variable {κ κ' ρ ε σ : Type u}

/-- What a table says of a value. -/
inductive Effect (ε : Type u) where
  | ignore
  | jump (n : Nat)
  | settle (e : ε)

/-- What is done at a handler. -/
inductive Job (κ ρ ε : Type u) where
  /-- A stack is entered, whose handlers come next, one level down. -/
  | enter
  | call (place : κ) (table : ρ → Effect ε)

structure Handler (κ ρ ε : Type u) where
  level : Nat
  job : Job κ ρ ε

/-- The level of a handler and the place it calls, which is all a jump goes by. -/
def Handler.shape (h : Handler κ ρ ε) : Nat × Option κ :=
  (h.level, match h.job with
    | .enter => none
    | .call place _ => some place)

/-- How a verdict comes about. -/
structure Rules (ρ ε σ : Type u) where
  start : σ
  /-- From the verdict the stack was entered with and the verdict so far: the next one, and whether the
  stack is left with it. -/
  settle : ε → ρ → σ → σ → σ × Bool
  jumped : ρ → σ → σ
  /-- A jump over more handlers than the stack has. -/
  overrun : σ → σ

/-- Which handlers the next ones are. -/
inductive Mode where
  | run
  /-- A jump from `level` with `left` handlers of that level still to pass. -/
  | skip (level left : Nat)
  /-- The stack on `level` is left. -/
  | leave (level : Nat)

/-- How it goes on above a handler that is passed over; `none` for one that is reached. -/
def Mode.past : Mode → Nat → Option Mode
  | .run, _ => none
  | .skip origin left, level =>
    if origin < level then some (.skip origin left)
    else if origin = level then
      match left with
      | 0 => none
      | left + 1 => some (.skip origin left)
    else none
  | .leave origin, level => if origin ≤ level then some (.leave origin) else none

def Mode.isShort : Mode → Bool
  | .skip _ left => 0 < left
  | _ => false

/-- How far a dispatch has come. -/
structure Walk (κ σ : Type u) where
  mode : Mode
  verdict : σ
  /-- The verdict each level was last entered with. -/
  entered : Nat → σ
  /-- The places that were called, in order. -/
  visited : List κ

section Dispatch

variable (rules : Rules ρ ε σ) (results : κ → ρ)

def Walk.start : Walk κ σ :=
  { mode := .run, verdict := rules.start, entered := fun _ => rules.start, visited := [] }

def Walk.landed (w : Walk κ σ) : Walk κ σ :=
  { w with mode := .run, verdict := if w.mode.isShort then rules.overrun w.verdict else w.verdict }

def Walk.take (w : Walk κ σ) (level : Nat) (r : ρ) : Effect ε → Walk κ σ
  | .ignore => w
  | .jump n => { w with mode := .skip level n, verdict := rules.jumped r w.verdict }
  | .settle e =>
    let (verdict, leaves) := rules.settle e r (w.entered level) w.verdict
    { w with verdict, mode := if leaves then .leave level else .run }

/-- A handler that is not passed over. -/
def Walk.reach (w : Walk κ σ) (h : Handler κ ρ ε) : Walk κ σ :=
  match h.job with
  | .enter => { w with entered := Function.update w.entered (h.level + 1) w.verdict }
  | .call place table =>
    Walk.take rules { w with visited := w.visited ++ [place] } h.level (results place)
      (table (results place))

def Walk.step (w : Walk κ σ) (h : Handler κ ρ ε) : Walk κ σ :=
  match w.mode.past h.level with
  | some mode => { w with mode }
  | none => Walk.reach rules results (w.landed rules) h

/-- The places that are called and the verdict, when each place returns what `results` has for it. -/
def dispatch (hs : List (Handler κ ρ ε)) : List κ × σ :=
  let w := (hs.foldl (Walk.step rules results) (Walk.start rules)).landed rules
  (w.visited, w.verdict)

end Dispatch

/-! ## Stacks that go alike -/

section Alike

variable (f : κ' → κ) (results : κ → ρ) (results' : κ' → ρ)

/-- The same handler, or two that are ignored; at the places `f` takes to each other. -/
inductive Alike : Handler κ ρ ε → Handler κ' ρ ε → Prop where
  | enter (level : Nat) : Alike ⟨level, .enter⟩ ⟨level, .enter⟩
  | same {level : Nat} {place : κ'} {table : ρ → Effect ε} (h : results (f place) = results' place) :
    Alike ⟨level, .call (f place) table⟩ ⟨level, .call place table⟩
  | ignored {level : Nat} {place : κ'} {table table' : ρ → Effect ε}
    (h : table (results (f place)) = .ignore) (h' : table' (results' place) = .ignore) :
    Alike ⟨level, .call (f place) table⟩ ⟨level, .call place table'⟩

/-- The two walks are at the same point. -/
structure Agrees (w : Walk κ σ) (w' : Walk κ' σ) : Prop where
  mode : w.mode = w'.mode
  verdict : w.verdict = w'.verdict
  entered : w.entered = w'.entered
  visited : w.visited = w'.visited.map f

variable {f results results'} {rules : Rules ρ ε σ} {w : Walk κ σ} {w' : Walk κ' σ}
  {h : Handler κ ρ ε} {h' : Handler κ' ρ ε}

theorem Alike.level (hh : Alike f results results' h h') : h.level = h'.level := by
  cases hh <;> rfl

theorem Alike.shape (hh : Alike f results results' h h') :
    h.shape = (h'.shape.1, h'.shape.2.map f) := by
  cases hh <;> rfl

variable {hs : List (Handler κ ρ ε)} {hs' : List (Handler κ' ρ ε)}

theorem shape_alike (hh : List.Forall₂ (Alike f results results') hs hs') :
    hs.map Handler.shape = hs'.map fun h => (h.shape.1, h.shape.2.map f) := by
  induction hh with
  | nil => rfl
  | cons hhead _ ih => rw [List.map_cons, List.map_cons, hhead.shape, ih]

section

variable (hw : Agrees f w w')

include hw

theorem Agrees.landed : Agrees f (w.landed rules) (w'.landed rules) := by
  refine ⟨rfl, ?_, hw.entered, hw.visited⟩
  rw [Walk.landed, Walk.landed, hw.mode, hw.verdict]

theorem Agrees.visit (place : κ') :
    Agrees f { w with visited := w.visited ++ [f place] } { w' with visited := w'.visited ++ [place] } := by
  refine ⟨hw.mode, hw.verdict, hw.entered, ?_⟩
  rw [hw.visited, List.map_append, List.map_singleton]

theorem Agrees.take (level : Nat) (r : ρ) (effect : Effect ε) :
    Agrees f (w.take rules level r effect) (w'.take rules level r effect) := by
  cases effect with
  | ignore => exact hw
  | jump n => exact ⟨rfl, congrArg (rules.jumped r) hw.verdict, hw.entered, hw.visited⟩
  | settle e =>
    unfold Walk.take
    rw [hw.entered, hw.verdict]
    exact ⟨rfl, rfl, rfl, hw.visited⟩

theorem Agrees.reach (hh : Alike f results results' h h') :
    Agrees f (w.reach rules results h) (w'.reach rules results' h') := by
  cases hh with
  | enter level =>
    refine ⟨hw.mode, hw.verdict, ?_, hw.visited⟩
    rw [Walk.reach, Walk.reach, hw.entered, hw.verdict]
  | same heq =>
    unfold Walk.reach
    dsimp only
    rw [heq]
    exact (hw.visit _).take _ _ _
  | ignored hig hig' =>
    unfold Walk.reach
    dsimp only
    rw [hig, hig']
    exact hw.visit _

theorem Agrees.step (hh : Alike f results results' h h') :
    Agrees f (w.step rules results h) (w'.step rules results' h') := by
  unfold Walk.step
  rw [hw.mode, hh.level]
  cases w'.mode.past h'.level with
  | some mode => exact ⟨rfl, hw.verdict, hw.entered, hw.visited⟩
  | none => exact hw.landed.reach hh

theorem Agrees.foldl
    (hh : List.Forall₂ (Alike f results results') hs hs') :
    Agrees f (hs.foldl (Walk.step rules results) w) (hs'.foldl (Walk.step rules results') w') := by
  induction hh generalizing w w' with
  | nil => exact hw
  | cons hhead _ ih => exact ih (hw.step hhead)

theorem Agrees.dispatch
    (hh : List.Forall₂ (Alike f results results') hs hs') :
    ((hs.foldl (Walk.step rules results) w).landed rules).visited =
        ((hs'.foldl (Walk.step rules results') w').landed rules).visited.map f ∧
      ((hs.foldl (Walk.step rules results) w).landed rules).verdict =
        ((hs'.foldl (Walk.step rules results') w').landed rules).verdict :=
  ⟨(hw.foldl hh).landed.visited, (hw.foldl hh).landed.verdict⟩

end

/-- **Handlers that are ignored** may be exchanged for others that are ignored, whatever these return: no other
handler is reached that was not, none is passed over, and the verdict is the same. -/
theorem dispatch_alike (rules : Rules ρ ε σ)
    (hh : List.Forall₂ (Alike f results results') hs hs') :
    (dispatch rules results hs).1 = (dispatch rules results' hs').1.map f ∧
      (dispatch rules results hs).2 = (dispatch rules results' hs').2 :=
  Agrees.dispatch ⟨rfl, rfl, rfl, rfl⟩ hh

theorem alike_self {results results' : κ → ρ}
    (h : ∀ hd ∈ hs, ∀ place table, hd.job = .call place table → results place = results' place) :
    List.Forall₂ (Alike id results results') hs hs := by
  rw [List.forall₂_same]
  intro hd hmem
  obtain ⟨level, job⟩ := hd
  cases job with
  | enter => exact .enter level
  | call place table =>
    have hsame : Alike id results results' ⟨level, .call (id place) table⟩ ⟨level, .call place table⟩ :=
      .same (h _ hmem place table rfl)
    exact hsame

end Alike

/-! ## A handler above the stack -/

section Above

variable {rules : Rules ρ ε σ} {results : κ → ρ} {before : List κ}

def Walk.above (before : List κ) (w : Walk κ σ) : Walk κ σ := { w with visited := before ++ w.visited }

section

variable (w : Walk κ σ)

theorem Walk.above_take (level : Nat) (r : ρ) (effect : Effect ε) :
    (w.above before).take rules level r effect = (w.take rules level r effect).above before := by
  cases effect <;> rfl

theorem Walk.above_reach (h : Handler κ ρ ε) :
    (w.above before).reach rules results h = (w.reach rules results h).above before := by
  unfold Walk.reach
  cases h.job with
  | enter => rfl
  | call place table =>
    dsimp only
    rw [← Walk.above_take]
    simp [Walk.above]

theorem Walk.above_step (h : Handler κ ρ ε) :
    (w.above before).step rules results h = (w.step rules results h).above before := by
  have hmode : (w.above before).mode = w.mode := rfl
  unfold Walk.step
  rw [hmode]
  cases w.mode.past h.level with
  | some mode => rfl
  | none => exact Walk.above_reach (w.landed rules) h

theorem Walk.above_foldl (hs : List (Handler κ ρ ε)) :
    hs.foldl (Walk.step rules results) (w.above before) =
      (hs.foldl (Walk.step rules results) w).above before := by
  induction hs generalizing w with
  | nil => rfl
  | cons h hs ih => rw [List.foldl_cons, List.foldl_cons, Walk.above_step, ih]

end

theorem dispatch_cons_ignored {level : Nat} {place : κ} {table : ρ → Effect ε}
    (h : table (results place) = .ignore) (hs : List (Handler κ ρ ε)) :
    dispatch rules results (⟨level, .call place table⟩ :: hs) =
      (place :: (dispatch rules results hs).1, (dispatch rules results hs).2) := by
  have hfirst : (Walk.start rules).step rules results ⟨level, .call place table⟩ =
      (Walk.start rules).above [place] := by
    simp [Walk.step, Walk.start, Mode.past, Walk.landed, Mode.isShort, Walk.reach, h, Walk.take, Walk.above]
  unfold dispatch
  rw [List.foldl_cons, hfirst, Walk.above_foldl]
  rfl

end Above

end Irlume.Lib

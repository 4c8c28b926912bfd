import Irlume.Pam.Reading
import Irlume.Lib.Encoding

/-!
# Session delivery

`session_reaches_reseal`: the session lines of a stack are read with their includes expanded, a substack as one
step, and a backward pass tells whether a rule that reseals is on every path through the steps. A path takes any
action of each rule, and the steps are those of the lines libpam would put in the chain.
-/

namespace Irlume.Pam.Delivery

open Irlume.Lib

/-! ## Steps -/

inductive Step where
  | reseal
  | rule (actions : ReturnValue → Action)
  | substack (steps : List Step)

inductive SessionLine where
  | other
  | step (s : Step)
  | stack (name : Text) (substack : Bool)

/-- `none` where the line is not understood. -/
def sessionLine (line : Text) : Option SessionLine :=
  if isAtInclude line then (atIncludeTarget line).map fun name => .stack name false
  else
    match head line with
    | none => some .other
    | some h =>
      if h.phase ≠ .session then some .other
      else if h.namesStack then h.stackName.map fun name => .stack name h.isSubstack
      else
        match rule line with
        | none => none
        | some r =>
          if controlIsRejected r.control then none
          else if (irlumeRule line).isSome && r.args.contains "reseal".toList then some (.step .reseal)
          else (controlActions r.control).map fun actions => .step (.rule actions)

/-! ## Expansion -/

def sessionStackMaxBytes : Nat := 64 * 1024

/-- How much may still be read. -/
structure Budget where
  lines : Nat
  reads : Nat

section Parse

variable (read : Text → Option Text)

/-- One line more; `follow` reads a stack the line names, where one may still be followed. -/
def parseLine (follow : Option (Text → Budget → Option (List Step × Budget)))
    (parsed : List Step × Budget) (line : Text) : Option (List Step × Budget) :=
  let (steps, budget) := parsed
  if budget.lines = 0 then none
  else
    let budget := { budget with lines := budget.lines - 1 }
    match sessionLine line with
    | none => none
    | some .other => some (steps, budget)
    | some (.step s) => some (steps ++ [s], budget)
    | some (.stack name substack) =>
      match follow with
      | none => none
      | some follow =>
        if budget.lines = 0 || budget.reads = 0 then none
        else
          match read name with
          | none => none
          | some text =>
            (follow text { budget with reads := budget.reads - 1 }).map fun (nested, budget) =>
              (if substack then steps ++ [.substack nested] else steps ++ nested, budget)

def parseText (follow : Option (Text → Budget → Option (List Step × Budget))) (text : Text) (budget : Budget) :
    Option (List Step × Budget) :=
  if sessionStackMaxBytes < byteLength text || hasLineContinuation text || (unreadableLine text).isSome then none
  else (lines text).foldlM (parseLine read follow) ([], budget)

/-- The steps of a text; `left` stacks may still be followed. -/
def parseSession : Nat → Text → Budget → Option (List Step × Budget)
  | 0 => parseText read none
  | left + 1 => parseText read (some (parseSession left))

end Parse

/-! ## The backward pass -/

mutual

def cell (onReturn : Bool) (behind : List Bool) : Step → Bool
  | .reseal => true
  | .substack nested => (suffix (behind.headD onReturn) nested).headD (behind.headD onReturn)
  | .rule actions => allReturnValues.all fun r =>
    match actions r with
    | .done | .die => onReturn
    | .jump n => behind.getD (min n (behind.length - 1)) onReturn
    | .ignore | .ok | .bad | .reset => behind.headD onReturn

def suffix (onReturn : Bool) : List Step → List Bool
  | [] => [onReturn]
  | step :: rest => cell onReturn (suffix onReturn rest) step :: suffix onReturn rest

end

def reaches (steps : List Step) (onReturn : Bool) : Bool := (suffix onReturn steps).headD onReturn

/-- `session_reaches_reseal`. -/
def sessionReachesReseal (read : Text → Option Text) (content : Text) : Bool :=
  (parseSession read includeDepth content { lines := 4096, reads := 64 }).any fun (steps, _) =>
    reaches steps false

/-! ## Paths -/

/-- A way through the steps of a level, with the rules on it. -/
inductive Path : List Step → List Step → Prop
  | nil : Path [] []
  | reseal {rest trace : List Step} (h : Path rest trace) : Path (.reseal :: rest) (.reseal :: trace)
  /-- `done` and `die` leave the level. -/
  | leave {actions : ReturnValue → Action} {rest : List Step} (r : ReturnValue)
      (hr : actions r = .done ∨ actions r = .die) : Path (.rule actions :: rest) [.rule actions]
  | jump {actions : ReturnValue → Action} {rest trace : List Step} (r : ReturnValue) (n : Nat)
      (hr : actions r = .jump n) (h : Path (rest.drop n) trace) :
      Path (.rule actions :: rest) (.rule actions :: trace)
  | next {actions : ReturnValue → Action} {rest trace : List Step} (r : ReturnValue)
      (hr : actions r = .ignore ∨ actions r = .ok ∨ actions r = .bad ∨ actions r = .reset)
      (h : Path rest trace) : Path (.rule actions :: rest) (.rule actions :: trace)
  | substack {nested inner rest trace : List Step} (hnested : Path nested inner) (h : Path rest trace) :
      Path (.substack nested :: rest) (inner ++ trace)

/-! ### The cells -/

section

variable {steps rest nested trace : List Step} {onReturn : Bool} {actions : ReturnValue → Action} {r : ReturnValue}
  {n : Nat}

theorem length_suffix : (suffix onReturn steps).length = steps.length + 1 := by
  induction steps with
  | nil => rfl
  | cons step rest ih => rw [suffix, List.length_cons, ih, List.length_cons]

theorem getD_suffix (n : Nat) : (suffix onReturn steps).getD n onReturn = reaches (steps.drop n) onReturn := by
  induction steps generalizing n with
  | nil =>
    rw [List.drop_nil]
    cases n <;> rfl
  | cons step rest ih =>
    cases n with
    | zero => rw [List.drop_zero, reaches, suffix, List.getD_cons_zero, List.headD_cons]
    | succ n => rw [suffix, List.getD_cons_succ, ih, List.drop_succ_cons]

theorem reaches_reseal : reaches (.reseal :: rest) onReturn = true := rfl

theorem reaches_substack :
    reaches (.substack nested :: rest) onReturn = reaches nested (reaches rest onReturn) := rfl

def after (onReturn : Bool) (rest : List Step) : Action → Bool
  | .done | .die => onReturn
  | .jump n => reaches (rest.drop n) onReturn
  | .ignore | .ok | .bad | .reset => reaches rest onReturn

theorem mem_allReturnValues (r : ReturnValue) : r ∈ allReturnValues := by
  cases r <;> decide

theorem reaches_rule :
    reaches (.rule actions :: rest) onReturn = true ↔ ∀ r, after onReturn rest (actions r) = true := by
  have hjump : ∀ n, (suffix onReturn rest).getD (min n ((suffix onReturn rest).length - 1)) onReturn =
      reaches (rest.drop n) onReturn := by
    intro n
    rw [getD_suffix, length_suffix, Nat.add_sub_cancel]
    rcases Nat.le_total n rest.length with hle | hle
    · rw [Nat.min_eq_left hle]
    · rw [Nat.min_eq_right hle, List.drop_of_length_le hle, List.drop_length]
  have hcell : ∀ r, (match actions r with
      | .done | .die => onReturn
      | .jump n => (suffix onReturn rest).getD (min n ((suffix onReturn rest).length - 1)) onReturn
      | .ignore | .ok | .bad | .reset => (suffix onReturn rest).headD onReturn) =
      after onReturn rest (actions r) := by
    intro r
    cases actions r <;> first | rfl | exact hjump _
  rw [reaches, suffix, List.headD_cons, cell, List.all_eq_true]
  constructor
  · intro h r
    rw [← hcell]
    exact h r (mem_allReturnValues r)
  · intro h r _
    rw [hcell]
    exact h r

/-! ### Every path -/

theorem mem_of_reaches (hpath : Path steps trace) (h : reaches steps onReturn = true) :
    Step.reseal ∈ trace ∨ onReturn = true := by
  induction hpath generalizing onReturn with
  | nil => exact .inr h
  | reseal _ _ => exact .inl List.mem_cons_self
  | leave r hr =>
    have hafter := reaches_rule.1 h r
    rcases hr with hr | hr <;> rw [hr] at hafter <;> exact .inr hafter
  | jump r n hr _ ih =>
    have hafter := reaches_rule.1 h r
    rw [hr] at hafter
    exact (ih hafter).imp_left (List.mem_cons_of_mem _)
  | @next _ rest _ r hr _ ih =>
    have hafter := reaches_rule.1 h r
    have hrest : reaches rest onReturn = true := by
      rcases hr with hr | hr | hr | hr <;> rw [hr] at hafter <;> exact hafter
    exact (ih hrest).imp_left (List.mem_cons_of_mem _)
  | substack _ _ ihNested ih =>
    rw [reaches_substack] at h
    rcases ihNested h with hmem | hrest
    · exact .inl (List.mem_append_left _ hmem)
    · exact (ih hrest).imp_left (List.mem_append_right _)

theorem sizeOf_drop_le (n : Nat) (steps : List Step) : sizeOf (steps.drop n) ≤ sizeOf steps := by
  induction steps generalizing n with
  | nil => rw [List.drop_nil]
  | cons step rest ih =>
    cases n with
    | zero => exact Nat.le_refl _
    | succ n =>
      have hle := ih n
      rw [List.drop_succ_cons, List.cons.sizeOf_spec]
      omega

theorem exists_path (steps : List Step) (onReturn : Bool) (h : reaches steps onReturn = false) :
    onReturn = false ∧ ∃ trace, Path steps trace ∧ Step.reseal ∉ trace := by
  match steps with
  | [] => exact ⟨h, [], .nil, List.not_mem_nil⟩
  | .reseal :: rest => cases reaches_reseal.symm.trans h
  | .substack nested :: rest =>
    rw [reaches_substack] at h
    obtain ⟨hrest, inner, hinner, hnot⟩ := exists_path nested (reaches rest onReturn) h
    obtain ⟨hreturn, trace, htrace, hnot'⟩ := exists_path rest onReturn hrest
    refine ⟨hreturn, inner ++ trace, .substack hinner htrace, fun hmem => ?_⟩
    exact (List.mem_append.1 hmem).elim hnot hnot'
  | .rule actions :: rest =>
    obtain ⟨r, hr⟩ : ∃ r, after onReturn rest (actions r) = false := by
      by_contra hall
      have htrue : ∀ r, after onReturn rest (actions r) = true := fun r => by
        by_contra hfalse
        exact hall ⟨r, by simpa using hfalse⟩
      rw [reaches_rule.2 htrue] at h
      cases h
    have hcons : ∀ {trace}, Step.reseal ∉ trace → Step.reseal ∉ Step.rule actions :: trace := by
      intro trace hnot hmem
      exact (List.mem_cons.1 hmem).elim nofun hnot
    have hnext : ∀ hr : actions r = .ignore ∨ actions r = .ok ∨ actions r = .bad ∨ actions r = .reset,
        reaches rest onReturn = false →
        onReturn = false ∧ ∃ trace, Path (.rule actions :: rest) trace ∧ Step.reseal ∉ trace := by
      intro hr hrest
      obtain ⟨hreturn, trace, htrace, hnot⟩ := exists_path rest onReturn hrest
      exact ⟨hreturn, _, .next r hr htrace, hcons hnot⟩
    cases haction : actions r with
    | done =>
      rw [haction] at hr
      exact ⟨hr, _, .leave r (.inl haction), hcons List.not_mem_nil⟩
    | die =>
      rw [haction] at hr
      exact ⟨hr, _, .leave r (.inr haction), hcons List.not_mem_nil⟩
    | jump n =>
      rw [haction] at hr
      have hle := sizeOf_drop_le n rest
      obtain ⟨hreturn, trace, htrace, hnot⟩ := exists_path (rest.drop n) onReturn hr
      exact ⟨hreturn, _, .jump r n haction htrace, hcons hnot⟩
    | ignore =>
      rw [haction] at hr
      exact hnext (.inl haction) hr
    | ok =>
      rw [haction] at hr
      exact hnext (.inr (.inl haction)) hr
    | bad =>
      rw [haction] at hr
      exact hnext (.inr (.inr (.inl haction))) hr
    | reset =>
      rw [haction] at hr
      exact hnext (.inr (.inr (.inr haction))) hr
termination_by sizeOf steps
decreasing_by all_goals simp_wf <;> omega

/-- **The backward pass** says so exactly where every path passes a reseal rule, whichever it is. -/
theorem reaches_iff : reaches steps false = true ↔ ∀ trace, Path steps trace → Step.reseal ∈ trace := by
  constructor
  · intro h trace hpath
    exact (mem_of_reaches hpath h).resolve_right (by decide)
  · intro h
    by_contra hfalse
    obtain ⟨-, trace, htrace, hnot⟩ := exists_path steps false (by simpa using hfalse)
    exact hnot (h trace htrace)

end

/-! ## What is expanded -/

/-- The steps of a stack's lines: those of an included stack in the place of the line that names it, and a
substack as one. -/
inductive Expands (read : Text → Option Text) : List Text → List Step → Prop
  | nil : Expands read [] []
  | other {line : Text} {ls : List Text} {steps : List Step} (hline : sessionLine line = some .other)
      (h : Expands read ls steps) : Expands read (line :: ls) steps
  | step {line : Text} {ls : List Text} {s : Step} {steps : List Step}
      (hline : sessionLine line = some (.step s)) (h : Expands read ls steps) :
      Expands read (line :: ls) (s :: steps)
  | included {line name text : Text} {ls : List Text} {nested steps : List Step}
      (hline : sessionLine line = some (.stack name false)) (hread : read name = some text)
      (hnested : Expands read (lines text) nested) (h : Expands read ls steps) :
      Expands read (line :: ls) (nested ++ steps)
  | substack {line name text : Text} {ls : List Text} {nested steps : List Step}
      (hline : sessionLine line = some (.stack name true)) (hread : read name = some text)
      (hnested : Expands read (lines text) nested) (h : Expands read ls steps) :
      Expands read (line :: ls) (.substack nested :: steps)

section

variable {read : Text → Option Text} {ls ls' : List Text} {steps steps' : List Step} {budget budget' : Budget}
  {content line : Text} {follow : Option (Text → Budget → Option (List Step × Budget))}

theorem Expands.append (h : Expands read ls steps) (h' : Expands read ls' steps') :
    Expands read (ls ++ ls') (steps ++ steps') := by
  induction h with
  | nil => exact h'
  | other hline _ ih => exact .other hline ih
  | step hline _ ih => exact .step hline ih
  | included hline hread hnested _ _ ih =>
    rw [List.append_assoc]
    exact .included hline hread hnested ih
  | substack hline hread hnested _ _ ih => exact .substack hline hread hnested ih

theorem Expands.unique (h : Expands read ls steps) (h' : Expands read ls steps') : steps = steps' := by
  induction h generalizing steps' with
  | nil =>
    cases h'
    rfl
  | other hline _ ih =>
    cases h' with
    | other _ h' => exact ih h'
    | step hline' _ | included hline' _ _ _ | substack hline' _ _ _ => cases hline.symm.trans hline'
  | step hline _ ih =>
    cases h' with
    | step hline' h' =>
      cases hline.symm.trans hline'
      rw [ih h']
    | other hline' _ | included hline' _ _ _ | substack hline' _ _ _ => cases hline.symm.trans hline'
  | included hline hread _ _ ihNested ih =>
    cases h' with
    | included hline' hread' hnested' h' =>
      cases hline.symm.trans hline'
      cases hread.symm.trans hread'
      rw [ihNested hnested', ih h']
    | other hline' _ | step hline' _ | substack hline' _ _ _ => cases hline.symm.trans hline'
  | substack hline hread _ _ ihNested ih =>
    cases h' with
    | substack hline' hread' hnested' h' =>
      cases hline.symm.trans hline'
      cases hread.symm.trans hread'
      rw [ihNested hnested', ih h']
    | other hline' _ | step hline' _ | included hline' _ _ _ => cases hline.symm.trans hline'

def Follows (read : Text → Option Text) (follow : Option (Text → Budget → Option (List Step × Budget))) : Prop :=
  ∀ f ∈ follow, ∀ text budget nested budget', f text budget = some (nested, budget') →
    Expands read (lines text) nested

section

variable (hfollow : Follows read follow)

include hfollow

theorem parseLine_expands
    (h : parseLine read follow (steps, budget) line = some (steps', budget')) :
    ∃ added, steps' = steps ++ added ∧ Expands read [line] added := by
  simp only [parseLine] at h
  split at h
  · cases h
  · split at h
    · cases h
    · next hline =>
      cases h
      exact ⟨[], (List.append_nil _).symm, .other hline .nil⟩
    · next s hline =>
      cases h
      exact ⟨[s], rfl, .step hline .nil⟩
    · next name substack hline =>
      split at h
      · cases h
      · next f =>
        split at h
        · cases h
        · split at h
          · cases h
          · next text hread =>
            obtain ⟨⟨nested, budget''⟩, hf, heq⟩ := Option.map_eq_some_iff.1 h
            have hnested := hfollow f rfl text _ nested budget'' hf
            cases substack with
            | false =>
              cases heq
              have hadded := Expands.included hline hread hnested .nil
              rw [List.append_nil] at hadded
              exact ⟨nested, rfl, hadded⟩
            | true =>
              cases heq
              exact ⟨[.substack nested], rfl, .substack hline hread hnested .nil⟩

theorem foldlM_parseLine_expands
    (h : ls.foldlM (parseLine read follow) (steps, budget) = some (steps', budget')) :
    ∃ added, steps' = steps ++ added ∧ Expands read ls added := by
  induction ls generalizing steps budget with
  | nil =>
    cases h
    exact ⟨[], (List.append_nil _).symm, .nil⟩
  | cons line ls ih =>
    rw [List.foldlM_cons] at h
    obtain ⟨⟨mid, budgetMid⟩, hline, hrest⟩ := Option.bind_eq_some_iff.1 h
    obtain ⟨first, rfl, hfirst⟩ := parseLine_expands hfollow hline
    obtain ⟨added, rfl, hadded⟩ := ih hrest
    exact ⟨first ++ added, by rw [List.append_assoc], hfirst.append hadded⟩

theorem parseText_expands
    (h : parseText read follow content budget = some (steps, budget')) : Expands read (lines content) steps := by
  unfold parseText at h
  split at h
  · cases h
  · obtain ⟨added, rfl, hadded⟩ := foldlM_parseLine_expands hfollow h
    exact hadded

end

theorem parseSession_expands {left : Nat} (h : parseSession read left content budget = some (steps, budget')) :
    Expands read (lines content) steps := by
  induction left generalizing content budget steps budget' with
  | zero =>
    have hfollow : Follows read none := fun _ hf => by cases hf
    exact parseText_expands hfollow h
  | succ left ih =>
    refine parseText_expands (fun f hf text budget nested budget' hparse => ?_) h
    cases hf
    exact ih hparse

end

/-- **Delivery is proved exactly**: the backward pass is true where every path through the steps passes a
reseal rule and nowhere else; and a stack it is true for expands to such steps. -/
theorem sessionReachesReseal_exact :
    (∀ steps, reaches steps false = true ↔ ∀ trace, Path steps trace → Step.reseal ∈ trace) ∧
    ∀ read content, sessionReachesReseal read content = true →
      ∃ steps, Expands read (lines content) steps ∧
        ∀ steps', Expands read (lines content) steps' → ∀ trace, Path steps' trace → Step.reseal ∈ trace := by
  refine ⟨fun steps => reaches_iff, fun read content h => ?_⟩
  obtain ⟨⟨steps, budget⟩, hparse, hreaches⟩ := (Option.any_eq_true _ _).1 h
  have hexpands := parseSession_expands hparse
  refine ⟨steps, hexpands, fun steps' h' => ?_⟩
  rw [← hexpands.unique h']
  exact reaches_iff.1 hreaches

/-! ### A stack that delivers -/

def tokenStack : Text := "session substack token\nsession required pam_unix.so\n"

def readToken (name : Text) : Option Text :=
  if name = "token" then
    some "session [success=1 default=ignore] pam_a.so\nsession optional pam_irlume.so reseal\nsession optional pam_irlume.so reseal\n"
  else none

/-- A stack that includes another. -/
theorem sessionReachesReseal_exact_token :
    sessionReachesReseal readToken tokenStack = true ∧
      ∃ steps, Expands readToken (lines tokenStack) steps ∧ ∀ trace, Path steps trace → Step.reseal ∈ trace := by
  have hreaches : sessionReachesReseal readToken tokenStack = true := by
    unfold readToken tokenStack
    repeat rw [String.toList_ofList]
    decide +kernel
  obtain ⟨steps, hexpands, hall⟩ := sessionReachesReseal_exact.2 readToken tokenStack hreaches
  exact ⟨hreaches, steps, hexpands, hall steps hexpands⟩

end Irlume.Pam.Delivery

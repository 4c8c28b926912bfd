import Irlume.Sealed.Proper

/-!
# A record bound to a uid serves no other

The operations run one after the other on one account name, and each may be cut off between any two of its
calls.
-/

namespace Irlume.Sealed

open Irlume.Lib

variable {Blob Wrap : Type}

abbrev Machine (Blob Wrap : Type) := Sessions (World Blob Wrap) (Op Blob Wrap) Answer

/-- An outside event is the end of the process. -/
abbrev Event (Blob Wrap : Type) := SessionEvent Call (Choice Blob Wrap) Unit

def step (opens : Bytes → Wrap → Option Bytes) (user : Text) :
    Machine Blob Wrap → Event Blob Wrap → Option (Machine Blob Wrap) :=
  Sessions.step (run opens user) perform fun w _ => some w

/-- Whether the call is one of those on an armed keyring or on a template key. -/
def Call.serves : Call → Bool
  | .armGnomeToken _ => false
  | _ => true

variable {sealedBytes : Blob → Bytes} {opens : Bytes → Wrap → Option Bytes} {honest : Prop} {user : Text}
  {w w₀ : World Blob Wrap} {m₁ : Machine Blob Wrap} {file : File} {u : Nat} {es₁ es₂ : List (Event Blob Wrap)}

/-- **A whole operation.** -/
theorem guarded_run {call : Call} (hcall : call.serves = true) :
    Program.Guarded (Reacted sealedBytes opens honest) (fun _ => True) (Proper sealedBytes opens honest)
      (fun _ _ => True) (run opens user call) w := by
  have harm : ∀ password, call ≠ .armGnomeToken password := by
    rintro password rfl
    cases hcall
  refine Program.Guarded.bind (proceeds_operation harm) fun returned w' _ hreturned => ?_
  have hanswered : Answered sealedBytes opens honest w' call returned := by
    cases returned with
    | ok secret => exact hreturned
    | error e => exact answered_of_error
  exact ⟨trivial, hanswered, fun _ _ _ => ⟨trivial, trivial⟩⟩

theorem carries_of_proper {w' : World Blob Wrap} {op : Op Blob Wrap} {answer : Answer op}
    (hcarries : w.Carries file u) (hproper : Proper sealedBytes opens honest w op)
    (h : Reacted sealedBytes opens honest w op answer w') : w'.Carries file u := by
  obtain ⟨r, rfl⟩ | ⟨rfl, -⟩ | ⟨target, env, rfl, rfl⟩ := reacted_cases h
  · obtain ⟨env, hstored, huid⟩ := hcarries
    exact ⟨env, by cases file <;> exact hstored, huid⟩
  · exact hproper.elim
  · by_cases htarget : file = target
    · subst htarget
      exact ⟨env, World.stored_store_self w file env, hproper.bound u hcarries⟩
    · obtain ⟨env', hstored, huid⟩ := hcarries
      exact ⟨env', (World.stored_store_of_ne w htarget env).trans hstored, huid⟩

/-! ## Runs -/

/-- What is running makes proper calls only, and `J` holds. -/
abbrev Minded (sealedBytes : Blob → Bytes) (opens : Bytes → Wrap → Option Bytes) (honest : Prop)
    (J : World Blob Wrap → Prop) : Machine Blob Wrap → Prop :=
  Sessions.Minds perform (Allowed sealedBytes opens honest) (fun w => True ∧ J w)
    fun w op => J w ∧ Proper sealedBytes opens honest w op

variable {J : World Blob Wrap → Prop} {m : Machine Blob Wrap} {es : List (Event Blob Wrap)}

/-- **What proper calls keep, every state of a run keeps.** -/
theorem states_minded
    (hkeeps : ∀ w op answer w', J w → Proper sealedBytes opens honest w op →
      Reacted sealedBytes opens honest w op answer w' → J w')
    (hcalls : ∀ call, .start call ∈ es → call.serves = true)
    (hanswers : ∀ x ∈ steps (step opens user) m es, Sessions.Answers (Allowed sealedBytes opens honest) x.1 x.2)
    (h : Minded sealedBytes opens honest J m) :
    ∀ t ∈ states (step opens user) m es, Minded sealedBytes opens honest J t := by
  refine Sessions.states_minds (A := fun _ call => call.serves = true)
    (fun call w hcall hJ => Program.Guarded.keeps (guarded_run hcall) hJ.2 hkeeps) ?_ ?_ h
  · intro w _ w' hJ hw'
    cases hw'
    exact hJ
  · intro x hx
    refine ⟨hanswers x hx, ?_⟩
    obtain ⟨before, after, rfl, -⟩ := mem_steps_iff.1 hx
    obtain ⟨m, e⟩ := x
    cases e with
    | start call => exact hcalls call (by simp)
    | _ => trivial

theorem Minded.since (h : Minded sealedBytes opens honest (fun _ => True) m)
    (hkeeps : ∀ w op answer w', J w → Proper sealedBytes opens honest w op →
      Reacted sealedBytes opens honest w op answer w' → J w') (hJ : J m.world) :
    Minded sealedBytes opens honest J m := by
  have hkept := Program.Guarded.keeps h hJ fun w op answer w' hJ hG => hkeeps w op answer w' hJ hG.2
  exact (hkept.weaken (fun w hw => ⟨trivial, hw.2⟩) fun w op _ hG => ⟨hG.1, hG.2.2⟩).mono fun _ _ _ _ => trivial

theorem minded_idle (hJ : J w) : Minded sealedBytes opens honest J (Sessions.idle w) :=
  Sessions.minds_idle ⟨trivial, hJ⟩

/-- **A record bound to a uid serves no other.** Whatever the account database, the TPM and the writes do at each call,
once an envelope carries a uid it carries it in every later state, and an operation that returns a secret or a key has
resolved the name to that uid. -/
theorem bound_serves_uid (hcalls : ∀ call, .start call ∈ es₁ ++ es₂ → call.serves = true)
    (hrun : Lib.run (step opens user) (Sessions.idle w₀) es₁ = some m₁) (hcarries : m₁.world.Carries file u) :
    ∀ m ∈ states (step opens user) m₁ es₂, m.world.Carries file u ∧
      ∀ call secret, call.file = file → m.pending = some (.reply call (.ok (some secret))) →
        m.world.resolved = some (.uid u) ∧ ∀ key, call ≠ .moveKeptKeyWith key := by
  -- Nothing is asked of the TPM and the wrap, so what a blob holds is of no account.
  have hany : ∀ (m : Machine Blob Wrap) es, ∀ x ∈ steps (step opens user) m es,
      Sessions.Answers (Allowed (fun _ => []) opens False) x.1 x.2 := fun m es x _ =>
    Sessions.answers_of_forall (fun _ _ _ => False.elim) x.1 x.2
  have hcut : Minded (fun _ => []) opens False (fun _ => True) m₁ :=
    states_minded (fun _ _ _ _ _ _ _ => trivial) (fun call h => hcalls call (List.mem_append_left _ h)) (hany _ _)
      (minded_idle trivial) m₁ (end_mem_states hrun)
  have hkeeps : ∀ (w : World Blob Wrap) op answer w', w.Carries file u → Proper (fun _ => []) opens False w op →
      Reacted (fun _ => []) opens False w op answer w' → w'.Carries file u := fun _ _ _ _ => carries_of_proper
  intro m hm
  have hminded := states_minded hkeeps (fun call h => hcalls call (List.mem_append_right _ h)) (hany _ _)
    (hcut.since hkeeps hcarries) m hm
  refine ⟨hminded.world.2, fun call secret hfile hpending => ?_⟩
  obtain ⟨hcarries, hanswered⟩ := hminded.of_pending hpending
  exact ⟨hanswered.bound secret rfl u (hfile.symm ▸ hcarries), hanswered.keptKey secret rfl⟩

/-! ## A record bound by a reseal -/

section

abbrev PlainWrap := Bytes × Bytes

def opensPlain (q : Bytes) (wrap : PlainWrap) : Option Bytes := if q = wrap.1 then some wrap.2 else none

/-- No call fails, the name is uid 1000, and the TPM unseals the bytes. -/
def works (bytes : Bytes) (wrap : PlainWrap) : Choice Bytes PlainWrap where
  error := none
  resolution := .uid 1000
  available := false
  gain := none
  written := .durable
  bytes
  blob := some bytes
  wrap := some wrap

def unboundWorld : World Bytes PlainWrap where
  keyring := .holds { blob := [7], secret := .loginPassword, passwordWrap := none, uid := none }
  templateKey := .missing
  resolved := none
  minted := none
  keyringWrites := 0

def bindingReseal : List (Event Bytes PlainWrap) :=
  .start (.resealPassword [7] none) :: List.replicate 11 (.answer (works [7] ([], [])))

def laterUnseal : List (Event Bytes PlainWrap) :=
  .start .unsealSecret :: List.replicate 5 (.answer (works [7] ([], [])))

set_option maxRecDepth 10000 in
/-- A reseal records the uid, and the unseal after it resolved it. -/
theorem bound_serves_uid_reseal : ∃ m₁ m₂,
    Lib.run (step opensPlain "ada".toList) (Sessions.idle unboundWorld) bindingReseal = some m₁ ∧
      m₁.world.Carries .keyring 1000 ∧
      Lib.run (step opensPlain "ada".toList) m₁ laterUnseal = some m₂ ∧
      m₂.pending = some (.reply .unsealSecret (.ok (some [7]))) ∧ m₂.world.Carries .keyring 1000 ∧
      m₂.world.resolved = some (.uid 1000) := by
  have hruns : ((Lib.run (step opensPlain "ada".toList) (Sessions.idle unboundWorld) bindingReseal).bind fun m₁ =>
      (Lib.run (step opensPlain "ada".toList) m₁ laterUnseal).map fun m₂ => (m₁.world.keyring, m₂.pending)) =
        some (.holds { blob := [7], secret := .loginPassword, passwordWrap := none, uid := some 1000 },
          some (.reply .unsealSecret (.ok (some [7])))) := rfl
  obtain ⟨m₁, h₁, hlater⟩ := Option.bind_eq_some_iff.1 hruns
  obtain ⟨m₂, h₂, hends⟩ := Option.map_eq_some_iff.1 hlater
  obtain ⟨hstored, hpending⟩ := Prod.mk.inj hends
  have hcarries : m₁.world.Carries .keyring 1000 := ⟨_, hstored, rfl⟩
  have hcalls : ∀ call, .start call ∈ bindingReseal ++ laterUnseal → call.serves = true := by
    intro call h
    simp [bindingReseal, laterUnseal] at h
    rcases h with rfl | rfl <;> rfl
  obtain ⟨hcarried, hreturned⟩ :=
    bound_serves_uid hcalls h₁ hcarries m₂ (end_mem_states h₂)
  exact ⟨m₁, m₂, h₁, hcarries, h₂, hpending, hcarried, (hreturned .unsealSecret [7] rfl hpending).1⟩

end

end Irlume.Sealed

/-!
## A GNOME keyring token survives every reseal

An arm mints one token and writes one envelope of it, sealed and wrapped.
-/

namespace Irlume.Sealed

open Irlume.Lib

variable {Blob Wrap : Type} {sealedBytes : Blob → Bytes} {opens : Bytes → Wrap → Option Bytes} {honest : Prop}
  {α : Type} {user : Text} {w w' w₀ : World Blob Wrap} {n : Nat} {token : Bytes}

/-! ## The arm -/

def Arming (sealedBytes : Blob → Bytes) (opens : Bytes → Wrap → Option Bytes) (n : Nat) (w : World Blob Wrap) :
    Op Blob Wrap → Prop
  | .publish file env => file = .keyring ∧ w.keyringWrites = n ∧
      ∃ token, w.minted = some token ∧ HoldsToken sealedBytes opens token env
  | .mintGnomeToken => w.keyringWrites = n
  | .reply call _ => call.resealsUnder = none
  | _ => True

/-- Nothing was written since, and the last token minted. -/
structure Unwritten (n : Nat) (token : Option Bytes) (w : World Blob Wrap) : Prop where
  writes : w.keyringWrites = n
  minted : w.minted = token

variable {op : Op Blob Wrap}

variable {answer : Answer op}

theorem Unwritten.quiet {t : Option Bytes} (h : Unwritten n t w)
    (hop : op.quiet = true) (hreact : Reacted sealedBytes opens honest w op answer w') : Unwritten n t w' := by
  obtain ⟨r, rfl⟩ | ⟨rfl, -⟩ | ⟨file, env, rfl, -⟩ := reacted_cases hreact
  · exact { writes := h.writes, minted := h.minted }
  · cases hop
  · cases hop

theorem arming_of_quiet (hop : op.quiet = true) : Arming sealedBytes opens n w op := by
  cases op with
  | publish file env | reply call returned | mintGnomeToken => cases hop
  | _ => trivial

/-- A part of an arm. -/
abbrev Arms (sealedBytes : Blob → Bytes) (opens : Bytes → Wrap → Option Bytes) (n : Nat)
    (Q : α → World Blob Wrap → Prop) (p : Records Blob Wrap α) (w : World Blob Wrap) : Prop :=
  Follows sealedBytes opens True (Arming sealedBytes opens n) (fun _ _ => True) Q p w

theorem Reads.arms {base : World Blob Wrap} {P : α → World Blob Wrap → Prop} {p : Records Blob Wrap α}
    {t : Option Bytes} (h : Reads sealedBytes opens True base P p w) (hunwritten : Unwritten n t w) :
    Arms sealedBytes opens n (fun a w' => Unwritten n t w' ∧ P a w') p w := by
  have hkept := Program.Guarded.keeps h hunwritten fun w op answer w' hJ hop hreact => hJ.quiet hop hreact
  refine (hkept.weaken (fun _ _ => trivial) fun _ _ _ hG => arming_of_quiet hG.2).mono ?_
  rintro result w' - ⟨⟨_, hunwritten⟩, hends⟩
  cases result with
  | ok a => exact ⟨hunwritten, hends.2⟩
  | error e => trivial

theorem arms_saveEnvelope {env : SealedEnvelope Blob Wrap} (hunwritten : Unwritten n (some token) w)
    (hholds : HoldsToken sealedBytes opens token env) :
    Arms sealedBytes opens n (fun _ _ => True) (saveEnvelope .keyring env) w := by
  have hpublish : Arming sealedBytes opens n w (.publish .keyring env) :=
    ⟨rfl, hunwritten.writes, token, hunwritten.minted, hholds⟩
  refine follows_ask (.publish .keyring env) hpublish fun answer w' _ => ?_
  cases answer with
  | ok written =>
    cases written with
    | durable => exact follows_pure trivial
    | visibleNotDurable e => exact follows_throw trivial
  | error e => exact ⟨trivial, trivial⟩

variable {password : Bytes}

theorem arms_armGnomeToken (hwrites : w.keyringWrites = n) :
    Arms sealedBytes opens n (fun _ _ => True) (armGnomeToken user password) w := by
  unfold armGnomeToken
  dsimp only
  split
  · exact ⟨trivial, trivial⟩
  refine follows_ask .newAccount trivial fun _ w₁ hreact => ?_
  obtain ⟨c, -, hperform⟩ := hreact
  obtain rfl := (Prod.mk.inj (Option.some.inj hperform)).2
  have hunwritten : Unwritten n w.minted { w with resolved := none } := ⟨hwrites, rfl⟩
  refine ((reads_uidToRecord (.refl _) _ _).arms hunwritten).bind fun uid w₂ _ ⟨hunwritten, _⟩ => ?_
  refine follows_ask .mintGnomeToken hunwritten.writes fun token w₃ hreact => ?_
  obtain ⟨c, -, hperform⟩ := hreact
  cases hperform
  have hminted : Unwritten n (some c.bytes) { w₂ with minted := some c.bytes } := ⟨hunwritten.writes, rfl⟩
  refine ((reads_seal (.refl _) c.bytes).arms hminted).bind fun env w₄ _ ⟨hminted, hsealed⟩ => ?_
  refine ((reads_wrap (.refl _) password c.bytes).arms hminted).bind fun wrap w₅ _ ⟨hminted, hwraps⟩ => ?_
  have hholds : HoldsToken sealedBytes opens c.bytes
      { env with secret := .gnomeKeyringToken, passwordWrap := some wrap, uid } := {
    kind := rfl
    sealed := hsealed trivial
    wrapped := ⟨wrap, password, rfl, hwraps trivial⟩ }
  exact (arms_saveEnvelope hminted hholds).bind fun _ _ _ _ => follows_pure trivial

/-- **An arm.** -/
theorem guarded_arm (hwrites : w.keyringWrites = n) :
    Program.Guarded (Reacted sealedBytes opens True) (fun _ => True) (Arming sealedBytes opens n) (fun _ _ => True)
      (run opens user (.armGnomeToken password)) w := by
  have harm : Arms sealedBytes opens n (fun _ _ => True) (operation opens user (.armGnomeToken password)) w :=
    (arms_armGnomeToken hwrites).bind fun _ _ _ _ => follows_pure trivial
  exact Program.Guarded.bind harm fun _ _ _ _ => ⟨trivial, rfl, fun _ _ _ => ⟨trivial, trivial⟩⟩

/-! ## The token on disk -/

/-- The token minted is the one on disk, since a write after the first `n`. -/
structure Survives (sealedBytes : Blob → Bytes) (opens : Bytes → Wrap → Option Bytes) (n : Nat) (token : Bytes)
    (w : World Blob Wrap) : Prop where
  written : n < w.keyringWrites
  minted : w.minted = some token
  armed : Armed sealedBytes opens token w

def Surviving (sealedBytes : Blob → Bytes) (opens : Bytes → Wrap → Option Bytes) (token : Bytes) (w : World Blob Wrap) :
    Op Blob Wrap → Prop
  | .publish file env => file = .keyring → HoldsToken sealedBytes opens token env
  | .mintGnomeToken => False
  | .reply call returned =>
    ∀ password, call.resealsUnder = some password → returned.isOk = true → OpensUnder opens token password w
  | _ => True

section

variable (h : Survives sealedBytes opens n token w)

include h

theorem Survives.step
    (hop : Surviving sealedBytes opens token w op) (hreact : Reacted sealedBytes opens honest w op answer w') :
    Survives sealedBytes opens n token w' := by
  obtain ⟨r, rfl⟩ | ⟨rfl, -⟩ | ⟨file, env, rfl, rfl⟩ := reacted_cases hreact
  · exact { written := h.written, minted := h.minted, armed := h.armed }
  · exact hop.elim
  · cases file with
    | keyring => exact { written := Nat.lt_succ_of_lt h.written, minted := h.minted, armed := ⟨env, rfl, hop rfl⟩ }
    | templateKey => exact { written := h.written, minted := h.minted, armed := h.armed }

theorem Survives.of_arming
    (hop : Arming sealedBytes opens n w op) : Surviving sealedBytes opens token w op := by
  cases op with
  | publish file env => exact absurd hop.2.1 h.written.ne'
  | mintGnomeToken => exact absurd hop h.written.ne'
  | reply call returned =>
    intro password hpassword
    rw [show call.resealsUnder = none from hop] at hpassword
    cases hpassword
  | _ => trivial

theorem Survives.of_proper
    (hop : Proper sealedBytes opens True w op) : Surviving sealedBytes opens token w op := by
  cases op with
  | publish file env => exact fun hfile => hop.token trivial hfile token h.armed
  | mintGnomeToken => exact hop
  | reply call returned => exact fun password hpassword hok => hop.opened trivial password hpassword hok token h.armed
  | _ => trivial

end

def ArmedSince (sealedBytes : Blob → Bytes) (opens : Bytes → Wrap → Option Bytes) (n : Nat) (w : World Blob Wrap) :
    Prop :=
  w.keyringWrites = n ∨ ∃ token, Survives sealedBytes opens n token w

theorem ArmedSince.step (h : ArmedSince sealedBytes opens n w)
    (hop : Arming sealedBytes opens n w op) (hreact : Reacted sealedBytes opens honest w op answer w') :
    ArmedSince sealedBytes opens n w' := by
  obtain hwrites | ⟨token, hsurvives⟩ := h
  · obtain ⟨r, rfl⟩ | ⟨rfl, t, rfl⟩ | ⟨file, env, rfl, rfl⟩ := reacted_cases hreact
    · exact .inl hwrites
    · exact .inl hwrites
    · obtain ⟨rfl, -, token, hminted, hholds⟩ := hop
      refine .inr ⟨token, { written := ?_, minted := hminted, armed := ⟨env, rfl, hholds⟩ }⟩
      exact hwrites ▸ Nat.lt_succ_self w.keyringWrites
  · exact .inr ⟨token, hsurvives.step (hsurvives.of_arming hop) hreact⟩

/-! ## Runs -/

abbrev Surviving.Minded (sealedBytes : Blob → Bytes) (opens : Bytes → Wrap → Option Bytes) (n : Nat) (token : Bytes) :
    Machine Blob Wrap → Prop :=
  Sessions.Minds perform (Allowed sealedBytes opens True) (Survives sealedBytes opens n token)
    (Surviving sealedBytes opens token)

variable {m m₁ : Machine Blob Wrap} {es : List (Event Blob Wrap)}

theorem Survives.minded {I : World Blob Wrap → Prop} {G : World Blob Wrap → Op Blob Wrap → Prop}
    (hsurvives : Survives sealedBytes opens n token m.world)
    (h : Sessions.Minds perform (Allowed sealedBytes opens True) I G m)
    (hG : ∀ w op, Survives sealedBytes opens n token w → G w op → Surviving sealedBytes opens token w op) :
    Surviving.Minded sealedBytes opens n token m := by
  have hkept := Program.Guarded.keeps h hsurvives fun w op answer w' hJ hop hreact => hJ.step (hG w op hJ hop) hreact
  exact (hkept.weaken (fun _ hw => hw.2) fun w op _ hop => hG w op hop.1 hop.2).mono fun _ _ _ _ => trivial

theorem allowed_of_truthful {e : Event Blob Wrap} (h : Sessions.Answers (fun _ => Truthful sealedBytes opens) m e) :
    Sessions.Answers (Allowed sealedBytes opens True) m e := by
  obtain ⟨world, running⟩ := m
  cases e with
  | answer c =>
    cases running with
    | result a => trivial
    | call op next => exact fun _ => h
  | _ => trivial

theorem serves_of_resealsUnder {call : Call} (h : call.resealsUnder.isSome = true) : call.serves = true := by
  cases call with
  | armGnomeToken password => cases h
  | _ => rfl

theorem survives_of_arm {choices : List (Choice Blob Wrap)}
    (harm : Lib.run (step opens user) (Sessions.idle w₀) (.start (.armGnomeToken password) :: choices.map .answer) =
      some m₁)
    (hwrote : m₁.world.keyringWrites ≠ w₀.keyringWrites)
    (hanswers : ∀ x ∈ steps (step opens user) (Sessions.idle w₀) (.start (.armGnomeToken password) :: choices.map .answer),
      Sessions.Answers (Allowed sealedBytes opens True) x.1 x.2) :
    ∃ token, Surviving.Minded sealedBytes opens w₀.keyringWrites token m₁ := by
  let started : Machine Blob Wrap := ⟨w₀, run opens user (.armGnomeToken password)⟩
  have hrun : Lib.run (step opens user) started (choices.map .answer) = some m₁ := harm
  have hstarted : Sessions.Minds perform (Allowed sealedBytes opens True)
      (fun w => True ∧ ArmedSince sealedBytes opens w₀.keyringWrites w)
      (fun w op => ArmedSince sealedBytes opens w₀.keyringWrites w ∧ Arming sealedBytes opens w₀.keyringWrites w op)
      started :=
    Program.Guarded.keeps (guarded_arm rfl) (.inl rfl) fun _ _ _ _ hJ hop hreact => hJ.step hop hreact
  have hevents : ∀ x ∈ steps (step opens user) started (choices.map .answer),
      Sessions.Answers (Allowed sealedBytes opens True) x.1 x.2 ∧ Sessions.StartsIn (fun _ _ => False) x.1 x.2 := by
    intro x hx
    refine ⟨hanswers x (List.mem_cons_of_mem _ hx), ?_⟩
    obtain ⟨before, after, hchoices, -⟩ := mem_steps_iff.1 hx
    obtain ⟨c, -, hc⟩ : ∃ c ∈ choices, .answer c = x.2 := List.mem_map.1 (hchoices ▸ by simp)
    rw [← hc]
    trivial
  have harmed := Sessions.states_minds (fun _ _ h => h.elim)
    (fun _ _ _ hI hw' => by obtain rfl := Option.some.inj hw'; exact hI) hevents hstarted m₁
    (end_mem_states hrun)
  obtain hwrites | ⟨token, hsurvives⟩ := harmed.world.2
  · exact absurd hwrites hwrote
  · exact ⟨token, hsurvives.minded harmed fun _ _ hsurvives hop => hsurvives.of_arming hop.2⟩

theorem states_surviving (h : Surviving.Minded sealedBytes opens n token m)
    (hcalls : ∀ call, .start call ∈ es → call.resealsUnder.isSome = true)
    (hanswers : ∀ x ∈ steps (step opens user) m es, Sessions.Answers (Allowed sealedBytes opens True) x.1 x.2) :
    ∀ t ∈ states (step opens user) m es, Surviving.Minded sealedBytes opens n token t := by
  refine Sessions.states_minds (A := fun _ call => call.serves = true) ?_ ?_ ?_ h
  · intro call w hserves hsurvives
    exact hsurvives.minded (m := ⟨w, run opens user call⟩) (guarded_run hserves) fun _ _ hsurvives => hsurvives.of_proper
  · intro w _ w' hsurvives hw'
    cases hw'
    exact hsurvives
  · intro x hx
    refine ⟨hanswers x hx, ?_⟩
    obtain ⟨before, after, rfl, -⟩ := mem_steps_iff.1 hx
    obtain ⟨m, e⟩ := x
    cases e with
    | start call => exact serves_of_resealsUnder (hcalls call (by simp))
    | _ => trivial

/-- **A GNOME keyring token survives every reseal.** From the write of an arm on, in every run of reseals and re-arms,
whatever fails, the envelope on disk is a token envelope whose seal and whose wrap are the token that was minted, and
after each that succeeds the wrap opens under the password it was given. -/
theorem token_survives {password : Bytes} {choices : List (Choice Blob Wrap)}
    (harm : Lib.run (step opens user) (Sessions.idle w₀) (.start (.armGnomeToken password) :: choices.map .answer) =
      some m₁)
    (hwrote : m₁.world.keyringWrites ≠ w₀.keyringWrites)
    (hcalls : ∀ call, .start call ∈ es → call.resealsUnder.isSome = true)
    (htruthful : ∀ x ∈ steps (step opens user) (Sessions.idle w₀)
      (.start (.armGnomeToken password) :: choices.map .answer ++ es),
      Sessions.Answers (fun _ => Truthful sealedBytes opens) x.1 x.2) :
    ∃ token, m₁.world.minted = some token ∧ ∀ m ∈ states (step opens user) m₁ es,
      Armed sealedBytes opens token m.world ∧
        ∀ call returned, m.pending = some (.reply call (.ok returned)) → ∀ given, call.resealsUnder = some given →
          OpensUnder opens token given m.world := by
  obtain ⟨token, hminded⟩ := survives_of_arm harm hwrote fun x hx =>
    allowed_of_truthful (htruthful x (mem_steps_append_left hx))
  refine ⟨token, hminded.world.minted, fun m hm => ?_⟩
  have hsurviving := states_surviving hminded hcalls
    (fun x hx => allowed_of_truthful (htruthful x (mem_steps_append_right harm hx))) m hm
  refine ⟨hsurviving.world.armed, fun call returned hpending given hgiven => ?_⟩
  exact hsurviving.of_pending hpending given hgiven rfl

/-! ## A token re-armed under a new password -/

section

theorem wraps_plain_iff {wrap : PlainWrap} {password secret : Bytes} :
    Wraps opensPlain wrap password secret ↔ wrap = (password, secret) := by
  constructor
  · intro h
    have hopens : opensPlain password wrap = some secret := h.opens_self
    unfold opensPlain at hopens
    split at hopens
    · next hpassword => exact Prod.ext hpassword.symm (Option.some.inj hopens)
    · cases hopens
  · rintro rfl q
    rfl

instance (op : Op Bytes PlainWrap) (c : Choice Bytes PlainWrap) :
    Decidable (Truthful id opensPlain op c) :=
  match op with
  | .tpmSeal secret => decidable_of_iff (∀ blob ∈ c.blob, blob = secret) (by rfl)
  | .tpmUnseal _ env => decidable_of_iff (c.bytes = env.blob) (by rfl)
  | .wrap password secret => decidable_of_iff (∀ wrap ∈ c.wrap, wrap = (password, secret)) (by simp [Truthful, wraps_plain_iff])
  | .newAccount | .resolution | .pathExists _ | .load _ | .publish _ _ | .moveAvailable _ | .moveGain _ _
  | .deriveKey _ _ | .mintGnomeToken | .lockUserState | .createKeyDir | .reply _ _ => .isTrue trivial

def emptyWorld : World Bytes PlainWrap where
  keyring := .missing
  templateKey := .missing
  resolved := none
  minted := none
  keyringWrites := 0

def armChoices : List (Choice Bytes PlainWrap) := List.replicate 7 (works [9] ([1], [9]))

/-- The TPM still unseals the token, and the login password is another one. -/
def rearm : List (Event Bytes PlainWrap) :=
  .start (.rearmGnomeToken [2]) :: List.replicate 8 (.answer (works [9] ([2], [9])))

set_option maxRecDepth 10000 in
/-- An arm under one password and a re-arm under another. -/
theorem token_survives_rearm : ∃ m₁ m₂,
    Lib.run (step opensPlain "ada".toList) (Sessions.idle emptyWorld)
      (.start (.armGnomeToken [1]) :: armChoices.map .answer) = some m₁ ∧
      Lib.run (step opensPlain "ada".toList) m₁ rearm = some m₂ ∧
      m₂.pending = some (.reply (.rearmGnomeToken [2]) (.ok (some [9]))) ∧
      Armed id opensPlain [9] m₂.world ∧ OpensUnder opensPlain [9] [2] m₂.world := by
  have hruns : ((Lib.run (step opensPlain "ada".toList) (Sessions.idle emptyWorld)
      (.start (.armGnomeToken [1]) :: armChoices.map .answer)).bind fun m₁ =>
        (Lib.run (step opensPlain "ada".toList) m₁ rearm).map fun m₂ =>
          (m₁.world.keyringWrites, m₁.world.minted, m₂.pending)) =
      some (1, some [9], some (.reply (.rearmGnomeToken [2]) (.ok (some [9])))) := rfl
  obtain ⟨m₁, h₁, hlater⟩ := Option.bind_eq_some_iff.1 hruns
  obtain ⟨m₂, h₂, hends⟩ := Option.map_eq_some_iff.1 hlater
  obtain ⟨hwrites, hends⟩ := Prod.mk.inj hends
  obtain ⟨hminted, hpending⟩ := Prod.mk.inj hends
  have hwrote : m₁.world.keyringWrites ≠ emptyWorld.keyringWrites := by
    rw [hwrites]
    decide
  have hcalls : ∀ call, .start call ∈ rearm → call.resealsUnder.isSome = true := by
    intro call h
    simp [rearm] at h
    rw [h]
    rfl
  have htruthful : ∀ x ∈ steps (step opensPlain "ada".toList) (Sessions.idle emptyWorld)
      (.start (.armGnomeToken [1]) :: armChoices.map .answer ++ rearm),
      Sessions.Answers (fun _ => Truthful id opensPlain) x.1 x.2 := by decide
  obtain ⟨token, htoken, hsurvives⟩ := token_survives h₁ hwrote hcalls htruthful
  obtain rfl := Option.some.inj (hminted.symm.trans htoken)
  obtain ⟨harmed, hopens⟩ := hsurvives m₂ (end_mem_states h₂)
  exact ⟨m₁, m₂, h₁, h₂, hpending, harmed, hopens _ _ hpending [2] rfl⟩

end

end Irlume.Sealed

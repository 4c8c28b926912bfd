import Irlume.Authenticate.Module

/-!
# No face attempt the stack did not ask for

What the module may ask of the daemon is decided by the calls before it (`Permitted`). Each gate of
`authenticate` settles one condition of a request that starts a face scan, so every log the module leaves,
however it is cut short, conforms.
-/

namespace Irlume.Authenticate

open Irlume.Lib Irlume.Pam

abbrev Log := Transcript Op Answer

/-! ## Reading a log -/

def Request.facing : Request → Bool
  | .authenticate _ _ _ _ | .unsealPassword _ _ => true
  | .health | .faceSensorStatus _ => false

def Op.facing : Op → Bool
  | .request r | .requestUntil r _ => r.facing
  | _ => false

def Op.isRequest : Op → Bool
  | .request _ | .requestUntil _ _ => true
  | _ => false

def Op.asksToken : Op → Bool
  | .getCachedAuthtok | .getAuthtok _ => true
  | _ => false

def tokenCached (token : Bytes) : Sigma Answer := ⟨.getCachedAuthtok, .ok (some token)⟩

def tokenAnswered (prompt : Option Text) (token : Bytes) : Sigma Answer := ⟨.getAuthtok prompt, .ok (some token)⟩

def tokenCleared : Sigma Answer := ⟨.clearAuthtok, .ok ()⟩

def ReadsYes (token : Bytes) : Prop := classifyIntentInput (some token) = .confirmed

def Unscanned (log : Log) : Prop := ∀ m ∈ log, m.1.facing = false

/-- The prompts whose `yes` is a face choice, and so no password: COSMIC's. -/
def IsCosmicChoice (args : List Text) (s : Surroundings) (prompt : Option Text) : Prop :=
  cosmicChoice args s = true ∧ prompt = some cosmicFacePrompt

/-- COSMIC's choice, or the confirmation of a privileged service. -/
def IsFaceChoice (args : List Text) (s : Surroundings) (prompt : Option Text) : Prop :=
  IsCosmicChoice args s prompt ∨ s.requiresConfirmation = true ∧ prompt = none

/-- PAM held and was given no token that is not empty, but for face choices. -/
structure NoPassword (choice : Option Text → Prop) (log : Log) : Prop where
  cached : ∀ token, tokenCached token ∈ log → token = []
  typed : ∀ prompt token, tokenAnswered prompt token ∈ log → token = [] ∨ ReadsYes token ∧ choice prompt

def Consumed (log : Log) : Prop :=
  ∀ later prompt token earlier, log = later ++ tokenAnswered prompt token :: earlier → tokenCleared ∈ later

def Confirmed (args : List Text) (s : Surroundings) (log : Log) : Prop :=
  has args "wait" = false ∧ has args "unseal" = false ∧
    (s.privilegedFaceConsentRequired = false ∨ ∃ token, tokenAnswered none token ∈ log ∧ ReadsYes token)

/-- What every request that starts a scan needs, a first one or a later one. -/
structure Prepared (choice : Option Text → Prop) (args : List Text) (s : Surroundings) (log : Log) : Prop where
  here : s.isRemoteSession = false
  password : NoPassword choice log
  consumed : Consumed log
  confirmed : s.requiresConfirmation = true → Confirmed args s log

/-- A request was refused before any scan, and no other scan was asked for. -/
def RefusedFirst (log : Log) : Prop :=
  ∃ r earlier, log = ⟨.request r, some .unsealUnavailable⟩ :: earlier ∧ Unscanned earlier

structure MayScan (choice : Option Text → Prop) (args : List Text) (s : Surroundings) (log : Log) : Prop
    extends Prepared choice args s log where
  once : s.requiresConfirmation = true → Unscanned log
  again : has args "wait" = false → Unscanned log ∨ RefusedFirst log

/-- What may be called after these calls. -/
structure Permitted (choice : Option Text → Prop) (args : List Text) (s : Surroundings) (log : Log) (op : Op) :
    Prop where
  consumed : op.isRequest = true → Consumed log
  scan : op.facing = true → MayScan choice args s log

def delivery (user : Text) (secret : Bytes) : KeyringSecretKind → Sigma Answer
  | .loginPassword => ⟨.setAuthtok secret, .ok ()⟩
  | .kdeWalletKey => ⟨.handKeyToWalletDaemon user secret, .started⟩
  | .gnomeKeyringToken => ⟨.sendSecret gkrTokenStashKey secret, .ok ()⟩

/-- The last call is a reply that granted a live face, or the delivery of the secret that the reply before it
released. -/
def Granted (user : Text) (log : Log) : Prop :=
  (∃ structured service intent declined situation earlier,
    log = ⟨.request (.authenticate structured user service intent), some (.authResult true true declined situation)⟩ ::
      earlier) ∨
  ∃ service secret kind earlier, log = delivery user secret kind ::
    ⟨.request (.unsealPassword user service), some (.passwordUnsealed secret kind)⟩ :: earlier

def GrantedLast (user : Text) (log : Log) : Prop :=
  Granted user log ∨ ∃ earlier, log = ⟨.userHasLiveSession user, true⟩ :: earlier ∧ Granted user earlier

def codes : List ReturnValue := [.success, .ignore, .abort]

structure Returns (s : Surroundings) (code : ReturnValue) (log : Log) : Prop where
  allowed : code ∈ codes
  success : code = .success → ∃ user, userOf s = some user ∧ GrantedLast user log

def readBefore (time : Time) : Sigma Answer → Bool
  | ⟨.now, now⟩ => now < time
  | _ => false

/-- The rounds ran out: the stack waits, and in every round the clock was still short of the deadline. -/
def Waited (args : List Text) (fuel : Nat) (log : Log) : Prop :=
  fuel = 0 ∨ has args "wait" = true ∧
    ∃ start : Time, ⟨.now, start⟩ ∈ log ∧ fuel ≤ log.countP (readBefore (start + waitBudget))

def Leaves (args : List Text) (s : Surroundings) (fuel : Nat) : Exit → Log → Prop
  | .returned code => Returns s code
  | .rounds => Waited args fuel

/-! ## The rules -/

variable {args : List Text} {s : Surroundings} {fuel : Nat} {log log' : Log} {α β : Type}

/-- Whatever the answers, the requests are in place; `Q` holds of the result. -/
abbrev Follows (args : List Text) (s : Surroundings) (fuel : Nat) (Q : α → Log → Prop) (p : Module α) (log : Log) :
    Prop :=
  Fallible.Guarded Program.heard (fun _ => True) (Permitted (IsFaceChoice args s) args s) Q (Leaves args s fuel) p log

variable {Q : α → Log → Prop} {Q' : β → Log → Prop}

theorem follows_pure {a : α} (h : Q a log) : Follows args s fuel Q (pure a) log := Fallible.guarded_pure trivial h

theorem permitted_of_not_request {choice : Option Text → Prop} {op : Op} (h : op.isRequest = false) :
    Permitted choice args s log op := by
  refine ⟨fun hop => ?_, fun hop => ?_⟩
  · rw [h] at hop
    cases hop
  · cases op with
    | request r | requestUntil r deadline => cases h
    | _ => cases hop

theorem follows_ask (op : Op) (hop : op.isRequest = false) {k : Answer op → Module β}
    (hk : ∀ answer, Follows args s fuel Q' (k answer) (⟨op, answer⟩ :: log)) :
    Follows args s fuel Q' (ask op >>= k) log :=
  Fallible.guarded_ask op trivial (permitted_of_not_request hop) hk

theorem follows_leave {code : ReturnValue} (h : code ∈ [ReturnValue.ignore, .abort]) :
    Follows args s fuel Q (leave code) log := by
  refine Fallible.guarded_throw trivial ⟨List.mem_cons_of_mem _ h, fun hsuccess => ?_⟩
  subst hsuccess
  cases h with
  | tail _ h => cases h with
    | tail _ h => cases h

theorem follows_ignore : Follows args s fuel Q (leave .ignore) log := follows_leave (List.mem_cons_self ..)

theorem follows_abort : Follows args s fuel Q (leave .abort) log :=
  follows_leave (List.mem_cons_of_mem _ (List.mem_cons_self ..))

/-! ## What the gates settle -/

section

variable {choice : Option Text → Prop} {m : Sigma Answer}

theorem Unscanned.cons (h : Unscanned log) (hm : m.1.facing = false) : Unscanned (m :: log) :=
  List.forall_mem_cons.2 ⟨hm, h⟩

section

variable (h : NoPassword choice log)

include h

theorem NoPassword.cons (hcached : ∀ token, m ≠ tokenCached token)
    (htyped : ∀ prompt token, m ≠ tokenAnswered prompt token) : NoPassword choice (m :: log) where
  cached token htoken := h.cached token ((List.mem_cons.1 htoken).resolve_left fun heq => hcached token heq.symm)
  typed prompt token htoken :=
    h.typed prompt token ((List.mem_cons.1 htoken).resolve_left fun heq => htyped prompt token heq.symm)

theorem NoPassword.answered {prompt : Option Text} {token : Bytes}
    (htoken : token = [] ∨ ReadsYes token ∧ choice prompt) : NoPassword choice (tokenAnswered prompt token :: log) where
  cached token' htoken' := h.cached token' ((List.mem_cons.1 htoken').resolve_left nofun)
  typed prompt' token' htoken' := by
    rcases List.mem_cons.1 htoken' with htoken' | htoken'
    · cases htoken'
      exact htoken
    · exact h.typed prompt' token' htoken'

theorem NoPassword.cached_nil : NoPassword choice (tokenCached [] :: log) where
  cached token htoken := by
    rcases List.mem_cons.1 htoken with htoken | htoken
    · cases htoken
      rfl
    · exact h.cached token htoken
  typed prompt token htoken := h.typed prompt token ((List.mem_cons.1 htoken).resolve_left nofun)

end

theorem Consumed.cons (h : Consumed log) (hm : ∀ prompt token, m ≠ tokenAnswered prompt token) :
    Consumed (m :: log) := by
  intro later prompt token earlier heq
  cases later with
  | nil => exact absurd (List.cons.inj heq).1 (hm prompt token)
  | cons _ later => exact List.mem_cons_of_mem _ (h later prompt token earlier (List.cons.inj heq).2)

theorem consumed_cleared (m : Sigma Answer) (log : Log) : Consumed (tokenCleared :: m :: log) := by
  intro later prompt' token' earlier heq
  cases later with
  | nil => cases (List.cons.inj heq).1
  | cons _ later =>
    obtain ⟨rfl, -⟩ := List.cons.inj heq
    exact List.mem_cons_self ..

end

theorem not_tokenCached {op : Op} (h : op.asksToken = false) (answer : Answer op) (token : Bytes) :
    (⟨op, answer⟩ : Sigma Answer) ≠ tokenCached token := by
  intro heq
  obtain rfl : op = .getCachedAuthtok := congrArg Sigma.fst heq
  cases h

theorem not_tokenAnswered {op : Op} (h : op.asksToken = false) (answer : Answer op) (prompt : Option Text)
    (token : Bytes) : (⟨op, answer⟩ : Sigma Answer) ≠ tokenAnswered prompt token := by
  intro heq
  obtain rfl : op = .getAuthtok prompt := congrArg Sigma.fst heq
  cases h

/-- What holds before a first scan. -/
structure Gated (args : List Text) (s : Surroundings) (log : Log) : Prop where
  here : s.isRemoteSession = false
  password : NoPassword (IsFaceChoice args s) log
  consumed : Consumed log
  unscanned : Unscanned log

namespace Gated

variable (h : Gated args s log)

include h

theorem cons {m : Sigma Answer} (hcached : ∀ token, m ≠ tokenCached token)
    (htyped : ∀ prompt token, m ≠ tokenAnswered prompt token) (hm : m.1.facing = false) : Gated args s (m :: log) where
  here := h.here
  password := h.password.cons hcached htyped
  consumed := h.consumed.cons htyped
  unscanned := h.unscanned.cons hm

theorem idle (op : Op) (htoken : op.asksToken = false) (hscan : op.facing = false)
    (answer : Answer op) : Gated args s (⟨op, answer⟩ :: log) :=
  h.cons (not_tokenCached htoken answer) (not_tokenAnswered htoken answer) hscan

theorem taken {prompt : Option Text} {token : Bytes}
    (htoken : token = [] ∨ ReadsYes token ∧ IsFaceChoice args s prompt) :
    Gated args s (tokenCleared :: tokenAnswered prompt token :: log) where
  here := h.here
  password := (h.password.answered htoken).cons nofun nofun
  consumed := consumed_cleared _ _
  unscanned := (h.unscanned.cons rfl).cons rfl

theorem permitted_probe (op : Op) (hop : op.facing = false) :
    Permitted (IsFaceChoice args s) args s log op where
  consumed _ := h.consumed
  scan hscan := by
    rw [hop] at hscan
    cases hscan

end Gated

/-- A face choice: confirmed, it is a `yes` that was taken out again. -/
def Chosen (args : List Text) (s : Surroundings) (prompt : Option Text) (c : IntentConfirmation) (log : Log) : Prop :=
  c = .confirmed → Gated args s log ∧ ∃ token, tokenAnswered prompt token ∈ log ∧ ReadsYes token

theorem follows_fallback {prompt : Option Text} : Follows args s fuel (Chosen args s prompt) (pure .fallback) log :=
  follows_pure nofun

section

variable (h : Gated args s log)

include h

theorem follows_resolve {prompt : Option Text} (hchoice : IsFaceChoice args s prompt)
    (token : Bytes) :
    Follows args s fuel (Chosen args s prompt)
      (resolveIntentInput (classifyIntentInput (some token)) (ask .clearAuthtok)) (tokenAnswered prompt token :: log) := by
  unfold resolveIntentInput
  cases hinput : classifyIntentInput (some token) with
  | password => exact follows_fallback
  | empty =>
    refine follows_ask .clearAuthtok rfl fun answer => ?_
    cases answer with
    | ok _ => exact follows_fallback
    | error _ => exact follows_pure nofun
  | confirmed =>
    refine follows_ask .clearAuthtok rfl fun answer => ?_
    cases answer with
    | ok _ =>
      refine follows_pure fun _ => ⟨h.taken (.inr ⟨hinput, hchoice⟩), token, ?_, hinput⟩
      exact List.mem_cons_of_mem _ (List.mem_cons_self ..)
    | error _ => exact follows_pure nofun

theorem follows_confirmFaceIntent {kind : ServiceKind} (hrequires : s.requiresConfirmation = true) :
    Follows args s fuel (Chosen args s none) (confirmFaceIntent kind) log := by
  unfold confirmFaceIntent
  split
  · exact follows_fallback
  refine follows_ask (.info faceIntentInfo) rfl fun shown => ?_
  cases shown with
  | error _ => exact follows_fallback
  | ok _ =>
    refine follows_ask (.getAuthtok none) rfl fun answer => ?_
    rcases answer with _ | _ | token
    · exact follows_fallback
    · exact follows_fallback
    · exact follows_resolve (h.idle _ rfl rfl _) (.inr ⟨hrequires, rfl⟩) token

theorem follows_askCosmicFace (hcosmic : cosmicChoice args s = true) :
    Follows args s fuel (Chosen args s cosmicFacePrompt) askCosmicFace log := by
  refine follows_ask (.getAuthtok cosmicFacePrompt) rfl fun answer => ?_
  rcases answer with _ | _ | token
  · exact follows_fallback
  · exact follows_fallback
  · exact follows_resolve h (.inl ⟨hcosmic, rfl⟩) token

theorem follows_confirmCosmicFace (hcosmic : cosmicChoice args s = true) :
    Follows args s fuel (Chosen args s cosmicFacePrompt) confirmCosmicFace log := by
  refine follows_ask .getCachedAuthtok rfl fun answer => ?_
  rcases answer with _ | _ | _ | ⟨b, token⟩
  · exact follows_fallback
  · exact follows_askCosmicFace (h.cons (fun _ heq => by cases heq) nofun rfl) hcosmic
  · have hcached : Gated args s (tokenCached [] :: log) :=
      ⟨h.here, h.password.cached_nil, h.consumed.cons nofun, h.unscanned.cons rfl⟩
    refine follows_ask .clearAuthtok rfl fun answer => ?_
    cases answer with
    | ok _ => exact follows_askCosmicFace (hcached.idle _ rfl rfl _) hcosmic
    | error _ => exact follows_pure nofun
  · exact follows_fallback

theorem follows_cosmicGate :
    Follows args s fuel (fun _ log' => Gated args s log') (cosmicGate args s) log := by
  unfold cosmicGate
  split
  · next hcosmic =>
    refine (follows_confirmCosmicFace h hcosmic).bind fun c log' _ hc => ?_
    cases c with
    | confirmed => exact follows_pure (hc rfl).1
    | fallback => exact follows_ignore
    | abort => exact follows_abort
  · exact follows_pure h

end

/-- What the typed token leaves: an empty answer to the probe is still to be taken out. -/
def Typed (args : List Text) (s : Surroundings) (token : Option Bytes) (log : Log) : Prop :=
  (token = none ∨ token = some [] ∧ probes args = false) ∧ Gated args s log ∨
    (∃ b bytes, token = some (b :: bytes)) ∨
    token = some [] ∧ probes args = true ∧
      ∃ earlier, log = tokenAnswered passwordPrompt [] :: earlier ∧ Gated args s earlier

theorem follows_typedToken (h : Gated args s log) : Follows args s fuel (Typed args s) (typedToken args s) log := by
  unfold typedToken
  split
  · exact follows_pure (.inl ⟨.inl rfl, h⟩)
  split
  · next hprobes =>
    refine follows_ask (.getAuthtok passwordPrompt) rfl fun answer => ?_
    rcases answer with _ | _ | _ | ⟨b, bytes⟩
    · exact follows_ignore
    · exact follows_ignore
    · exact follows_pure (.inr (.inr ⟨rfl, hprobes, log, rfl, h⟩))
    · exact follows_pure (.inr (.inl ⟨b, bytes, rfl⟩))
  · next hprobes =>
    refine follows_ask .getCachedAuthtok rfl fun answer => ?_
    have hnone : ∀ answer : PamResult (Option Bytes), (∀ token, answer ≠ .ok (some token)) →
        Gated args s (⟨.getCachedAuthtok, answer⟩ :: log) := fun answer hanswer =>
      h.cons (fun token heq => by cases heq; exact hanswer token rfl) nofun rfl
    rcases answer with e | _ | _ | ⟨b, bytes⟩
    · exact follows_pure (.inl ⟨.inl rfl, hnone _ nofun⟩)
    · exact follows_pure (.inl ⟨.inl rfl, hnone _ nofun⟩)
    · refine follows_pure (.inl ⟨.inr ⟨rfl, Bool.eq_false_iff.2 hprobes⟩, ?_⟩)
      exact ⟨h.here, h.password.cached_nil, h.consumed.cons nofun, h.unscanned.cons rfl⟩
    · exact follows_pure (.inr (.inl ⟨b, bytes, rfl⟩))

theorem follows_deferToTyped (h : Gated args s log) :
    Follows args s fuel (fun _ log' => Gated args s log') (deferToTyped args s) log := by
  refine (follows_typedToken h).bind fun token log' _ htyped => ?_
  rcases htyped with ⟨rfl | ⟨rfl, hprobes⟩, hgated⟩ | ⟨b, bytes, rfl⟩ | ⟨rfl, hprobes, earlier, rfl, hgated⟩
  · exact follows_pure hgated
  · simp only [ne_eq, not_true_eq_false, if_false, hprobes, Bool.false_eq_true]
    exact follows_pure hgated
  · exact follows_ignore
  · simp only [ne_eq, not_true_eq_false, if_false, if_pos hprobes]
    refine follows_ask .clearAuthtok rfl fun answer => ?_
    cases answer with
    | ok _ => exact follows_pure (hgated.taken (.inl rfl))
    | error _ => exact follows_ignore

/-! ## The intent of a privileged service -/

theorem follows_request (r : Request) (deadline : Time) (hr : r.facing = false) (h : Gated args s log)
    {k : Option Response → Module β}
    (hk : ∀ answer, Gated args s (⟨.requestUntil r deadline, answer⟩ :: log) →
      Follows args s fuel Q' (k answer) (⟨.requestUntil r deadline, answer⟩ :: log)) :
    Follows args s fuel Q' (ask (.requestUntil r deadline) >>= k) log :=
  Fallible.guarded_ask (Op.requestUntil r deadline) trivial (h.permitted_probe (.requestUntil r deadline) hr) fun answer =>
    hk answer (h.idle (.requestUntil r deadline) rfl hr answer)

theorem follows_privilegedFaceIsRgbOnly (h : Gated args s log) :
    Follows args s fuel (fun _ log' => Gated args s log') privilegedFaceIsRgbOnly log := by
  refine follows_ask .now rfl fun start => ?_
  refine follows_request .health _ rfl (h.idle _ rfl rfl _) fun health hgated => ?_
  rcases health with _ | health
  · exact follows_pure hgated
  cases health with
  | health tier splitTrust =>
    dsimp only
    split
    · refine follows_request (.faceSensorStatus none) _ rfl hgated fun status hgated => ?_
      rcases status with _ | status
      · exact follows_pure hgated
      · cases status with
        | _ => exact follows_pure hgated
    · exact follows_pure hgated
  | _ => exact follows_pure hgated

theorem follows_intentGate (h : Gated args s log) :
    Follows args s fuel (fun _ log' => Gated args s log' ∧ (s.requiresConfirmation = true → Confirmed args s log'))
      (intentGate args s) log := by
  unfold intentGate
  cases hkind : s.serviceKind with
  | none => exact follows_pure ⟨h, fun hrequires => by simp [Surroundings.requiresConfirmation, hkind] at hrequires⟩
  | some kind =>
    have hiff : s.requiresConfirmation = kind.requiresFaceIntentConfirmation := by
      simp [Surroundings.requiresConfirmation, hkind]
    dsimp only
    split
    · next hrequires =>
      split
      · exact follows_ignore
      · next hflags =>
        obtain ⟨hwait, hunseal⟩ := Bool.or_eq_false_iff.1 (Bool.eq_false_iff.2 hflags)
        refine (follows_privilegedFaceIsRgbOnly h).bind fun rgbOnly log' _ hgated => ?_
        cases rgbOnly with
        | true => exact follows_ignore
        | false =>
          simp only [Bool.false_eq_true, if_false]
          split
          · next hwaived =>
            exact follows_pure ⟨hgated, fun _ => ⟨hwait, hunseal, .inl (Bool.not_eq_true' _ ▸ hwaived)⟩⟩
          · refine (follows_confirmFaceIntent hgated (hiff.trans hrequires)).bind fun c log'' _ hc => ?_
            cases c with
            | confirmed => exact follows_pure ⟨(hc rfl).1, fun _ => ⟨hwait, hunseal, .inr (hc rfl).2⟩⟩
            | fallback => exact follows_ignore
            | abort => exact follows_abort
    · next hrequires => exact follows_pure ⟨h, fun hrequired => absurd (hiff ▸ hrequired) hrequires⟩

/-! ## The attempts -/

/-- What holds before an attempt. -/
structure Ready (args : List Text) (s : Surroundings) (log : Log) : Prop extends
    Prepared (IsFaceChoice args s) args s log where
  unscanned : has args "wait" = false → Unscanned log

theorem Prepared.idle (h : Prepared (IsFaceChoice args s) args s log) (op : Op) (hop : op.asksToken = false)
    (answer : Answer op) : Prepared (IsFaceChoice args s) args s (⟨op, answer⟩ :: log) where
  here := h.here
  password := h.password.cons (not_tokenCached hop answer) (not_tokenAnswered hop answer)
  consumed := h.consumed.cons (not_tokenAnswered hop answer)
  confirmed hrequires := by
    obtain ⟨hwait, hunseal, hconsent⟩ := h.confirmed hrequires
    refine ⟨hwait, hunseal, hconsent.imp_right ?_⟩
    rintro ⟨token, htoken, hyes⟩
    exact ⟨token, List.mem_cons_of_mem _ htoken, hyes⟩

variable {user : Text}

/-- What a scan leaves: what it was prepared by, and a success only if it was granted. -/
structure Scanned (args : List Text) (s : Surroundings) (user : Text) (log : Log) (code : ReturnValue) (log' : Log) :
    Prop where
  grown : log <:+ log'
  prepared : Prepared (IsFaceChoice args s) args s log'
  allowed : code ∈ codes
  granted : code = .success → Granted user log'

theorem Scanned.of_ignore (hgrown : log <:+ log') (h : Prepared (IsFaceChoice args s) args s log') :
    Scanned args s user log .ignore log' where
  grown := hgrown
  prepared := h
  allowed := by decide
  granted := nofun

theorem follows_scan (r : Request) (h : MayScan (IsFaceChoice args s) args s log) {k : Option Response → Module β}
    (hk : ∀ answer, Prepared (IsFaceChoice args s) args s (⟨.request r, answer⟩ :: log) →
      Follows args s fuel Q' (k answer) (⟨.request r, answer⟩ :: log)) :
    Follows args s fuel Q' (ask (.request r) >>= k) log :=
  Fallible.guarded_ask (Op.request r) trivial ⟨fun _ => h.consumed, fun _ => h⟩ fun answer =>
    hk answer (h.toPrepared.idle (.request r) rfl answer)

theorem follows_tryVerify (h : MayScan (IsFaceChoice args s) args s log) (intent : Option IntentAttestation) :
    Follows args s fuel (Scanned args s user log) (tryVerify s user intent) log := by
  unfold tryVerify
  refine follows_scan _ h fun answer hprepared => ?_
  have hgrown : log <:+ ⟨.request (.authenticate false user s.serviceLossy intent), answer⟩ :: log :=
    List.suffix_cons ..
  have hignore : Scanned args s user log .ignore _ := Scanned.of_ignore hgrown hprepared
  rcases answer with _ | reply
  · exact follows_pure hignore
  cases reply with
  | authResult granted live declined situation =>
    cases granted with
    | true =>
      cases live with
      | true =>
        refine follows_pure { hignore with allowed := by decide, granted := fun _ => .inl ?_ }
        exact ⟨false, s.serviceLossy, intent, declined, situation, log, rfl⟩
      | false => exact follows_pure hignore
    | false =>
      dsimp only
      split
      · exact follows_pure { hignore with allowed := by decide, granted := nofun }
      split
      · next action _ =>
        refine follows_ask (.info ("irlume: ".toList ++ action)) rfl fun answer => follows_pure ?_
        exact Scanned.of_ignore (hgrown.trans (List.suffix_cons ..)) (hprepared.idle _ rfl answer)
      · exact follows_pure hignore
  | _ => exact follows_pure hignore

theorem follows_releaseSecret {user : Text} {secret : Bytes} {kind : KeyringSecretKind}
    (h : Prepared (IsFaceChoice args s) args s log) :
    Follows args s fuel (fun released log' => log <:+ log' ∧ Prepared (IsFaceChoice args s) args s log' ∧
        (codeFor released = .success → log' = delivery user secret kind :: log))
      (releaseSecret user secret kind) log := by
  cases kind with
  | loginPassword =>
    simp only [releaseSecret, secretCstring]
    by_cases hnul : 0 ∈ secret
    · rw [if_pos hnul]
      exact follows_pure ⟨List.suffix_refl log, h, nofun⟩
    · rw [if_neg hnul]
      refine follows_ask (.setAuthtok secret) rfl fun answer => ?_
      have hafter := h.idle (.setAuthtok secret) rfl answer
      cases answer with
      | ok _ => exact follows_pure ⟨List.suffix_cons .., hafter, fun _ => rfl⟩
      | error _ => exact follows_pure ⟨List.suffix_cons .., hafter, nofun⟩
  | kdeWalletKey =>
    refine follows_ask (.handKeyToWalletDaemon user secret) rfl fun answer => ?_
    have hafter := h.idle (.handKeyToWalletDaemon user secret) rfl answer
    cases answer with
    | started => exact follows_pure ⟨List.suffix_cons .., hafter, fun _ => rfl⟩
    | notReady | failed => exact follows_pure ⟨List.suffix_cons .., hafter, nofun⟩
  | gnomeKeyringToken =>
    refine follows_ask (.sendSecret gkrTokenStashKey secret) rfl fun answer => ?_
    have hafter := h.idle (.sendSecret gkrTokenStashKey secret) rfl answer
    cases answer with
    | ok _ => exact follows_pure ⟨List.suffix_cons .., hafter, fun _ => rfl⟩
    | error _ => exact follows_pure ⟨List.suffix_cons .., hafter, nofun⟩

theorem Ready.mayScan (h : Ready args s log) : MayScan (IsFaceChoice args s) args s log where
  toPrepared := h.toPrepared
  once hrequires := h.unscanned (h.confirmed hrequires).1
  again hwait := .inl (h.unscanned hwait)

theorem codeFor_mem (released : Released) : codeFor released ∈ codes := by
  cases released <;> decide

/-- **One attempt.** -/
theorem follows_attempt (h : Ready args s log) (intent : Option IntentAttestation) :
    Follows args s fuel (fun result log' => Scanned args s user log result.1 log') (attempt args s user intent) log := by
  unfold attempt
  split
  · next hunseal =>
    refine Fallible.Guarded.bind (Q := fun result log' => log <:+ log' ∧ Prepared (IsFaceChoice args s) args s log' ∧
      (∀ released, result = .delivered released → codeFor released = .success → Granted user log') ∧
      (result = .unavailable → ∃ r, log' = ⟨.request r, some .unsealUnavailable⟩ :: log)) ?_ ?_
    · unfold tryUnseal
      refine follows_scan _ h.mayScan fun answer hprepared => ?_
      rcases answer with _ | reply
      · exact follows_pure ⟨List.suffix_cons .., hprepared, by simp, by simp⟩
      cases reply with
      | passwordUnsealed secret kind =>
        refine (follows_releaseSecret hprepared).bind fun released log' _ hreleased => ?_
        refine follows_pure ⟨(List.suffix_cons ..).trans hreleased.1, hreleased.2.1, ?_, by simp⟩
        intro released' heq hsuccess
        cases heq
        exact .inr ⟨s.serviceName, secret, kind, log, hreleased.2.2 hsuccess⟩
      | unsealUnavailable => exact follows_pure ⟨List.suffix_cons .., hprepared, by simp, fun _ => ⟨_, rfl⟩⟩
      | _ => exact follows_pure ⟨List.suffix_cons .., hprepared, by simp, by simp⟩
    · rintro result log' - ⟨hgrown, hprepared, hdelivered, hunavailable⟩
      cases result with
      | delivered released =>
        exact follows_pure ⟨hgrown, hprepared, codeFor_mem released, hdelivered released rfl⟩
      | unavailable =>
        obtain ⟨r, rfl⟩ := hunavailable rfl
        dsimp only
        split
        · have hscan : MayScan (IsFaceChoice args s) args s (⟨.request r, some .unsealUnavailable⟩ :: log) := {
            hprepared with
            once := fun hrequires => by rw [(h.confirmed hrequires).2.1] at hunseal; cases hunseal
            again := fun hwait => .inr ⟨r, log, rfl, h.unscanned hwait⟩ }
          refine (follows_tryVerify hscan none).bind fun code log'' _ hscanned => follows_pure ?_
          exact { hscanned with grown := (List.suffix_cons ..).trans hscanned.grown }
        · exact follows_pure (Scanned.of_ignore (List.suffix_cons ..) hprepared)
      | failed => exact follows_pure (Scanned.of_ignore hgrown hprepared)
  · exact (follows_tryVerify h.mayScan intent).bind fun code log' _ hscanned => follows_pure hscanned

/-- **One round of the loop**: what the loop leaves with, or that the attempt did not settle the matter. -/
theorem follows_settle {result : ReturnValue × Released} {start : Log} (huser : userOf s = some user)
    (h : Scanned args s user start result.1 log) :
    Follows args s fuel (fun _ log' => log' = log) (settle args user result) log := by
  unfold settle
  split
  · exact follows_abort
  split
  · next hsuccess =>
    have hgranted : Granted user log := h.granted hsuccess
    have hleave : Follows args s fuel (fun _ log' => log' = log) (leave .success : Module Unit) log :=
      Fallible.guarded_throw trivial ⟨by decide, fun _ => ⟨user, huser, .inl hgranted⟩⟩
    split
    · refine follows_ask (.userHasLiveSession user) rfl fun live => ?_
      cases live with
      | false => exact follows_ignore
      | true => exact Fallible.guarded_throw trivial ⟨by decide, fun _ => ⟨user, huser, .inr ⟨log, rfl, hgranted⟩⟩⟩
    · exact hleave
  · exact follows_pure rfl

def Waiting (deadline : Time) (rounds : Nat) (log : Log) : Prop :=
  ∃ start : Time, ⟨.now, start⟩ ∈ log ∧ deadline = start + waitBudget ∧ rounds ≤ log.countP (readBefore deadline)

/-- **The retry loop.** By induction on the rounds left: a stack that waits goes on prepared, any other leaves with
its first attempt. -/
theorem follows_attempts (huser : userOf s = some user) (intent : Option IntentAttestation) {deadline : Time} {n : Nat}
    (h : Ready args s log) (hn : n ≤ fuel) (hwait : n < fuel → has args "wait" = true)
    (hdeadline : Waiting deadline (fuel - n) log) :
    Follows args s fuel (Returns s) (attempts args s user intent deadline n) log := by
  induction n generalizing log with
  | zero =>
    refine Fallible.guarded_throw trivial ?_
    obtain ⟨start, hstart, rfl, hcount⟩ := hdeadline
    rcases Nat.eq_zero_or_pos fuel with rfl | hpos
    · exact .inl rfl
    · exact .inr ⟨hwait hpos, start, hstart, hcount⟩
  | succ n ih =>
    refine (follows_attempt h intent).bind fun result log' _ hscanned => ?_
    refine (follows_settle huser hscanned).bind fun _ log'' _ hsame => ?_
    subst hsame
    have hignore : ∀ log', Follows args s fuel (Returns s) (pure .ignore) log' := fun log' =>
      follows_pure ⟨by decide, nofun⟩
    split
    · exact hignore _
    · next hwaits =>
      refine follows_ask .now rfl fun now => ?_
      split
      · exact hignore _
      · next hearly =>
        refine follows_ask (.sleep waitRetryGap) rfl fun _ => ?_
        have hwaits : has args "wait" = true := by simpa using hwaits
        refine ih ?_ (Nat.le_of_succ_le hn) (fun _ => hwaits) ?_
        · refine { (hscanned.prepared.idle .now rfl now).idle (.sleep waitRetryGap) rfl () with
            unscanned := fun hno => ?_ }
          rw [hwaits] at hno
          cases hno
        · obtain ⟨start, hstart, hdeadline, hcount⟩ := hdeadline
          have hmem := hscanned.grown.subset hstart
          refine ⟨start, List.mem_cons_of_mem _ (List.mem_cons_of_mem _ hmem), hdeadline, ?_⟩
          have hmono := hscanned.grown.sublist.countP_le (p := readBefore deadline)
          have hread : readBefore deadline ⟨.now, now⟩ = true := decide_eq_true (Nat.not_le.1 hearly)
          rw [List.countP_cons_of_neg (by simp [readBefore]), List.countP_cons_of_pos hread]
          omega

/-! ## The whole function -/

theorem follows_firewall {body : Module ReturnValue} (h : Follows args s fuel (Returns s) body log) :
    Fallible.Guarded Program.heard (fun _ => True) (Permitted (IsFaceChoice args s) args s) (Returns s)
      (fun e log' => e = .rounds ∧ Waited args fuel log') (firewall body) log := by
  refine Program.Guarded.bind h fun result log' _ hresult => ?_
  rcases result with (code | _) | code
  · exact ⟨trivial, hresult⟩
  · exact ⟨trivial, rfl, hresult⟩
  · exact ⟨trivial, hresult⟩

theorem gated_nil (h : s.isRemoteSession = false) : Gated args s [] where
  here := h
  password := ⟨fun _ h => absurd h List.not_mem_nil, fun _ _ h => absurd h List.not_mem_nil⟩
  consumed := by
    intro later prompt token earlier heq
    cases List.append_eq_nil_iff.1 heq.symm |>.2
  unscanned := fun _ h => absurd h List.not_mem_nil

theorem follows_authenticate (args : List Text) (s : Surroundings) (fuel : Nat) :
    Fallible.Guarded Program.heard (fun _ => True) (Permitted (IsFaceChoice args s) args s) (Returns s)
      (fun e log => e = .rounds ∧ Waited args fuel log) (authenticate args s fuel) [] := by
  refine follows_firewall ?_
  have hignore : ∀ log, Follows args s fuel (Returns s) (pure .ignore) log := fun log =>
    follows_pure ⟨by decide, nofun⟩
  cases huser : userOf s with
  | none => exact hignore _
  | some user =>
    dsimp only
    split
    · exact hignore _
    split
    · exact hignore _
    next hremote _ =>
    have hgated : Gated args s [] := gated_nil (Bool.eq_false_iff.2 hremote)
    split
    · refine follows_ask .getCachedAuthtok rfl fun answer => ?_
      rcases answer with _ | _ | _ | ⟨b, bytes⟩
      · exact hignore _
      · exact hignore _
      · exact hignore _
      · exact follows_ask (.sendSecret resealStashKey (b :: bytes)) rfl fun _ => hignore _
    · refine (follows_cosmicGate hgated).bind fun _ log _ hgated => ?_
      refine (follows_deferToTyped hgated).bind fun _ log _ hgated => ?_
      refine (follows_intentGate hgated).bind fun intent log _ hintent => ?_
      refine follows_ask .now rfl fun start => ?_
      have hprepared : Prepared (IsFaceChoice args s) args s log :=
        ⟨hintent.1.here, hintent.1.password, hintent.1.consumed, hintent.2⟩
      refine follows_attempts huser intent ?_ (Nat.le_refl fuel) (fun h => absurd h (Nat.lt_irrefl _)) ?_
      · exact { hprepared.idle .now rfl start with unscanned := fun _ => hintent.1.unscanned.cons rfl }
      · exact ⟨start, List.mem_cons_self .., rfl, by simp⟩

/-- What holds of a call of the module, wherever it is cut short. -/
structure KeepsStack (choice : Option Text → Prop) (args : List Text) (s : Surroundings) (fuel : Nat) (log : Log)
    (rest : Program Op Answer (Except Exit ReturnValue)) : Prop where
  calls : Transcript.Conforms (Permitted choice args s) log
  next : ∀ op next, rest = .call op next → Permitted choice args s log op
  returns : ∀ code, rest = .result (.ok code) → Returns s code log
  ends : ∀ e, rest = .result (.error e) → e = .rounds ∧ Waited args fuel log

/-- **The module never weakens its stack.** -/
theorem authenticate_keepsStack (args : List Text) (s : Surroundings) (fuel : Nat) {log : Log}
    {rest : Program Op Answer (Except Exit ReturnValue)} (hafter : (authenticate args s fuel).run.after log = some rest) :
    KeepsStack (IsFaceChoice args s) args s fuel log rest := by
  obtain ⟨hcalls, hrest⟩ := (follows_authenticate args s fuel).after hafter
  refine ⟨hcalls, ?_, ?_, ?_⟩
  · rintro op next rfl
    exact hrest.2.1
  · rintro code rfl
    exact hrest.2
  · rintro e rfl
    exact hrest.2

/-! ## A confirmation at a prompt of `sudo` -/

/-- A local user at a prompt of `sudo`, on a machine that asks for the confirmation. -/
def sudoPrompt : Surroundings where
  user := .ok (some (bytes "max".toList))
  rhost := .ok none
  xdisplay := .ok none
  tty := .ok (some (bytes "/dev/pts/1".toList))
  service := .ok (some (bytes "sudo".toList))
  consentRequesterIsLocal := true
  elevationCallerIsLocal := true
  sshConnection := false
  sshTty := false
  privilegedFaceConsentRequired := true

/-- The user types `yes`, and the daemon grants. -/
def sudoLog : Log :=
  [⟨.request (.authenticate false "max".toList (some "sudo".toList) (some .pamConversation)),
      some (.authResult true true false [])⟩,
    ⟨.now, (0 : Nat)⟩, tokenCleared, tokenAnswered none (bytes "yes".toList), ⟨.info faceIntentInfo, .ok ()⟩,
    ⟨.requestUntil .health 1500, none⟩, ⟨.now, (0 : Nat)⟩, ⟨.getCachedAuthtok, .ok none⟩]

theorem after_sudoLog : (authenticate [] sudoPrompt 1).run.after sudoLog = some (.result (.ok .success)) := rfl

/-- A `sudo` prompt that ends in a grant. -/
theorem authenticate_keepsStack_sudo :
    KeepsStack (IsFaceChoice [] sudoPrompt) [] sudoPrompt 1 sudoLog (.result (.ok .success)) :=
  authenticate_keepsStack [] sudoPrompt 1 after_sudoLog

/-- The `yes` is a token typed before the scan, and no choice of COSMIC's. -/
theorem not_authenticate_keepsStack : ¬ ∀ (args : List Text) (s : Surroundings) (fuel : Nat) (log : Log)
    (rest : Program Op Answer (Except Exit ReturnValue)), (authenticate args s fuel).run.after log = some rest →
      KeepsStack (IsCosmicChoice args s) args s fuel log rest := by
  intro h
  have hscan := (h [] sudoPrompt 1 sudoLog _ after_sudoLog).calls.1.scan rfl
  have htyped := hscan.password.typed none (bytes "yes".toList)
    (List.mem_cons_of_mem _ (List.mem_cons_of_mem _ (List.mem_cons_self ..)))
  rcases htyped with hnil | ⟨-, hcosmic, -⟩
  · cases hnil
  · cases hcosmic

end Irlume.Authenticate

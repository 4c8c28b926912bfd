import Irlume.Keyring.Waiter

/-!
# One delivery, to the daemon that was checked

What the waiter may send is decided by the calls before it (`Permitted`). A `CHANGE` needs a log in which
nothing has closed the matter: on the bus it goes to the owner under trial, without the bus to any listener.
Each loop keeps to this round by round, so every log the waiter leaves, however it is cut short, conforms.
-/

namespace Irlume.Keyring

open Irlume.Lib

abbrev Log := Transcript Op Answer

/-! ## Reading a log -/

/-- A call and an answer after which no `CHANGE` is sent. -/
def closes : Sigma Answer → Bool
  | ⟨.stopRequested, answer⟩ => answer
  | ⟨.keyringExists, answer⟩ => !answer
  | ⟨.send .unlock _ _, _⟩ => true
  | ⟨.send .change _ _, .answered .ok _⟩ => true
  | ⟨.send .change _ (.owner _), .answered .denied _⟩ => true
  | ⟨.send .change _ (.ownerOrManager _), .answered .denied _⟩ => true
  | _ => false

/-- A `CHANGE` that succeeded. -/
def changed : Sigma Answer → Bool
  | ⟨.send .change _ _, .answered .ok _⟩ => true
  | _ => false

def busUp : Log → Bool
  | [] => false
  | ⟨.connectBus, answer⟩ :: earlier => answer.isOk || busUp earlier
  | ⟨.owner, answer⟩ :: earlier => answer.isOk && busUp earlier
  | ⟨.nextOwnerChange _, answer⟩ :: earlier => answer.isOk && busUp earlier
  | _ :: earlier => busUp earlier

def ownerUnderTrial : Log → Option String
  | [] => none
  | ⟨.owner, .ok current⟩ :: _ => current
  | ⟨.nextOwnerChange _, .ok (some change)⟩ :: _ => change
  | _ :: earlier => ownerUnderTrial earlier

def Going (log : Log) : Prop := ∀ m ∈ log, closes m = false

def Named (pid : Nat) (owner : String) (log : Log) : Prop :=
  ∃ earlier, log = ⟨.keyringExists, true⟩ :: ⟨.ownerPid owner, some pid⟩ :: earlier ∧
    ownerUnderTrial earlier = some owner

def Checked (token : List UInt8) (pid : Nat) (owner : String) (log : Log) : Prop :=
  ∃ peer earlier, log = ⟨.identify owner, .serves pid⟩ ::
    ⟨.send .change [token, token] (.owner pid), .peerMismatch peer⟩ :: earlier ∧ Named pid owner earlier

/-- Whom a `CHANGE` may be meant for, after these calls. -/
def MayReach (token : List UInt8) (log : Log) : Expect → Prop
  | .owner pid => busUp log = true ∧ ∃ owner, Named pid owner log
  | .ownerOrManager pid => busUp log = true ∧ ∃ owner, Checked token pid owner log
  | .peer _ => False
  | .anyPeer => busUp log = false

/-- What may be called after these calls: anything but a request that is out of place. -/
def Permitted (token : List UInt8) (log : Log) : Op → Prop
  | .send .change args expect => args = [token, token] ∧ Going log ∧ MayReach token log expect
  | .send .unlock args expect => args = [token] ∧ ∃ before peer earlier,
      log = ⟨.send .change [token, token] before, .answered .ok peer⟩ :: earlier ∧ expect = .peer peer ∧ Going earlier
  | _ => True

def Outcome.isDelivered : Outcome → Bool
  | .delivered _ _ => true
  | _ => false

/-- The outcome is a delivery exactly when a `CHANGE` succeeded. -/
def Settles (outcome : Outcome) (log : Log) : Prop := outcome.isDelivered = log.any changed

variable {m : Sigma Answer}

theorem not_changed_of_not_closes (h : closes m = false) : changed m = false := by
  obtain ⟨op, answer⟩ := m
  cases op with
  | send kind args expect =>
    cases kind with
    | unlock => rfl
    | change =>
      cases answer with
      | answered result pid =>
        cases result with
        | ok => cases h
        | _ => rfl
      | _ => rfl
  | _ => rfl

theorem Going.not_changed {log : Log} (h : Going log) : log.any changed = false := by
  rw [List.any_eq_false]
  intro m hm
  rw [not_changed_of_not_closes (h m hm)]
  nofun

theorem Going.cons {log : Log} (h : Going log) (hm : closes m = false) : Going (m :: log) :=
  List.forall_mem_cons.2 ⟨hm, h⟩

theorem Going.settles {log : Log} (h : Going log) {outcome : Outcome} (ho : outcome.isDelivered = false) :
    Settles outcome log :=
  ho.trans h.not_changed.symm

/-! ## The rules -/

variable {token : List UInt8} {plan : Plan} {log : Log} {α β : Type}

/-- Whatever the answers, the requests are in place and no time goes below zero; `Q` holds of the result. -/
abbrev Follows (token : List UInt8) (Q : α → Log → Prop) (p : Waiter α) (log : Log) : Prop :=
  Fallible.Guarded Program.heard (fun _ => True) (Permitted token) Q (fun cut _ => cut ≠ .underflow) p log

variable {Q : α → Log → Prop} {Q' : β → Log → Prop}

theorem follows_pure {a : α} (h : Q a log) : Follows token Q (pure a) log := Fallible.guarded_pure trivial h

theorem follows_rounds : Follows token Q (throw .rounds) log := Fallible.guarded_throw trivial nofun

theorem follows_ask (op : Op) {k : Answer op → Waiter β} (hop : Permitted token log op)
    (hk : ∀ answer, Follows token Q' (k answer) (⟨op, answer⟩ :: log)) :
    Follows token Q' (ask op >>= k) log := by
  have hask : Follows token (fun answer log' => log' = ⟨op, answer⟩ :: log) (ask op) log :=
    ⟨trivial, hop, fun _ _ hlog => ⟨trivial, hlog⟩⟩
  refine hask.bind fun answer log' _ hlog => ?_
  subst hlog
  exact hk answer

theorem follows_ask_last (op : Op) {Q : Answer op → Log → Prop} (hop : Permitted token log op)
    (hQ : ∀ answer, Q answer (⟨op, answer⟩ :: log)) : Follows token Q (ask op) log :=
  ⟨trivial, hop, fun answer _ hlog => ⟨trivial, hlog ▸ hQ answer⟩⟩

theorem follows_sub {a b : Time} {k : Time → Waiter β} (hle : b ≤ a)
    (hk : Follows token Q' (k (a - b)) log) : Follows token Q' (sub a b >>= k) log := by
  unfold sub
  rw [if_pos hle]
  exact hk

/-- What calls that ask or say nothing of weight leave as it was. -/
structure SameAs (log log' : Log) : Prop where
  going : Going log → Going log'
  bus : busUp log' = busUp log
  owner : ownerUnderTrial log' = ownerUnderTrial log

theorem SameAs.refl (log : Log) : SameAs log log := ⟨id, rfl, rfl⟩

theorem SameAs.trans {a b c : Log} (hab : SameAs a b) (hbc : SameAs b c) : SameAs a c :=
  ⟨hbc.going ∘ hab.going, hbc.bus.trans hab.bus, hbc.owner.trans hab.owner⟩

def Idle : Op → Prop
  | .now | .controlSocketExists | .sleep _ | .log _ | .report _ | .ownerPid _ | .identify _ => True
  | _ => False

theorem sameAs_idle (op : Op) (h : Idle op) (answer : Answer op) : SameAs log (⟨op, answer⟩ :: log) := by
  cases op with
  | now | controlSocketExists | sleep pause | log event | report status | ownerPid owner | identify owner =>
    exact ⟨fun hgoing => hgoing.cons rfl, rfl, rfl⟩
  | _ => cases h

theorem permitted_idle {op : Op} (h : Idle op) : Permitted token log op := by
  cases op with
  | send op args expect => cases h
  | _ => trivial

theorem follows_idle (op : Op) {k : Answer op → Waiter β} (hop : Idle op)
    (hk : ∀ answer, SameAs log (⟨op, answer⟩ :: log) → Follows token Q' (k answer) (⟨op, answer⟩ :: log)) :
    Follows token Q' (ask op >>= k) log :=
  follows_ask op (permitted_idle hop) fun answer => hk answer (sameAs_idle op hop answer)

theorem follows_once {made : Bool} {step : Waiter Unit}
    (h : Follows token (fun _ log' => SameAs log log') step log) :
    Follows token (fun _ log' => SameAs log log') (once made step) log := by
  unfold once
  split
  · exact follows_pure (.refl log)
  · exact h

/-- What the check of the clock may find: the wait ends without a delivery, or its deadline is ahead. -/
def InTime (plan : Plan) (now : Time) : Option Outcome → Prop
  | some outcome => outcome.isDelivered = false
  | none => now < plan.deadline

theorem follows_waitedOut {now : Time} :
    Follows token (fun result log' => SameAs log log' ∧ InTime plan now result) (waitedOut plan now) log := by
  have hlate : ∀ log', SameAs log log' →
      Follows token (fun result log' => SameAs log log' ∧ InTime plan now result)
        (if plan.deadline ≤ now then pure (some (Outcome.gaveUp plan.boundSecs)) else pure none) log' := by
    intro log' hsame
    split
    · exact follows_pure ⟨hsame, rfl⟩
    · next hahead => exact follows_pure ⟨hsame, Nat.lt_of_not_le hahead⟩
  unfold waitedOut
  extract_lets late
  split
  · refine follows_idle .controlSocketExists trivial fun present hsame => ?_
    cases present with
    | true => exact hlate _ hsame
    | false => exact follows_pure ⟨hsame, rfl⟩
  · exact hlate _ (.refl log)

/-! ## Without a bus -/

theorem follows_delivered {pid : Nat} (h : log.any changed = true) :
    Follows token Settles (delivered plan pid) log := by
  refine follows_ask .now trivial fun now => follows_pure ?_
  change true = (false || log.any changed)
  rw [h]
  rfl

theorem follows_unlock {before : Expect} {peer : Nat} {k : Sent → Waiter β} (hgoing : Going log)
    (hk : ∀ answer, Follows token Q' (k answer) (⟨.send .unlock [token] (.peer peer), answer⟩ ::
      ⟨.send .change [token, token] before, .answered .ok peer⟩ :: log)) :
    Follows token Q' (World.send .unlock [token] (.peer peer) >>= k)
      (⟨.send .change [token, token] before, .answered .ok peer⟩ :: log) :=
  follows_ask (.send .unlock [token] (.peer peer)) ⟨rfl, before, peer, log, rfl, rfl, hgoing⟩ hk

theorem follows_pollWait {n : Nat} {waiting : Bool} (hgoing : Going log) (hbus : busUp log = false)
    (ih : ∀ {log : Log} {waiting : Bool}, Going log → busUp log = false →
      Follows token Settles (pollRounds token plan n waiting) log) :
    Follows token Settles (do
      once waiting (World.report .waiting)
      let now ← World.now
      match ← waitedOut plan now with
      | some outcome => return outcome
      | none =>
        let left ← sub plan.deadline now
        World.sleep (min pollInterval left)
        pollRounds token plan n true) log := by
  have hreport : Follows token (fun _ log' => SameAs log log') (World.report .waiting) log :=
    follows_ask_last (.report .waiting) trivial (sameAs_idle (.report .waiting) trivial)
  refine (follows_once hreport).bind fun _ log' _ hsame => ?_
  refine follows_idle .now trivial fun now hnow => ?_
  refine follows_waitedOut.bind fun result log'' _ hresult => ?_
  obtain ⟨hwaited, hresult⟩ := hresult
  have hall := (hsame.trans hnow).trans hwaited
  cases result with
  | some outcome => exact follows_pure ((hall.going hgoing).settles hresult)
  | none =>
    refine follows_sub (Nat.le_of_lt hresult) ?_
    refine follows_idle (.sleep (min pollInterval (plan.deadline - now))) trivial fun _ hsleep => ?_
    have hall := hall.trans hsleep
    exact ih (hall.going hgoing) (hall.bus.trans hbus)

theorem follows_pollRounds {n : Nat} {waiting : Bool} (hgoing : Going log) (hbus : busUp log = false) :
    Follows token Settles (pollRounds token plan n waiting) log := by
  induction n generalizing log waiting with
  | zero => exact follows_rounds
  | succ n ih =>
    refine follows_ask .stopRequested trivial fun stop => ?_
    cases stop with
    | true => exact follows_pure hgoing.not_changed.symm
    | false =>
      refine follows_ask .keyringExists trivial fun present => ?_
      cases present with
      | false => exact follows_pure hgoing.not_changed.symm
      | true =>
        have hready : Going (⟨.keyringExists, true⟩ :: ⟨.stopRequested, false⟩ :: log) :=
          (hgoing.cons rfl).cons rfl
        refine follows_ask (.send .change [token, token] .anyPeer) ⟨rfl, hready, hbus⟩ fun sent => ?_
        cases sent with
        | unreachable => exact follows_pollWait (hready.cons rfl) hbus ih
        | peerMismatch peer => exact follows_pollWait (hready.cons rfl) hbus ih
        | answered result peer =>
          cases result with
          | ok => exact follows_unlock hready fun _ => follows_delivered rfl
          | _ => exact follows_pollWait (hready.cons rfl) hbus ih

theorem follows_pollControl {n : Nat} (hgoing : Going log) (hbus : busUp log = false) :
    Follows token Settles (pollControl token plan n) log :=
  follows_ask (.log .noBus) trivial fun _ => follows_pollRounds (hgoing.cons rfl) hbus

/-! ## On the bus -/

structure OnBus (owner : Option String) (log : Log) : Prop where
  going : Going log
  bus : busUp log = true
  named : ∀ name, owner = some name → ownerUnderTrial log = some name

theorem OnBus.same {owner : Option String} {log' : Log} (h : OnBus owner log) (hsame : SameAs log log') :
    OnBus owner log' :=
  ⟨hsame.going h.going, hsame.bus.trans h.bus, fun name hname => hsame.owner.trans (h.named name hname)⟩

theorem OnBus.taken {owner : Option String} (h : OnBus owner log) : OnBus none log := ⟨h.going, h.bus, nofun⟩

/-- What the `CHANGE` of an attempt leaves: an answer, heard last, or a reason to try no further. -/
def Answered (token : List UInt8) : Except Attempt Sent → Log → Prop
  | .ok sent, log => ∃ before earlier, log = ⟨.send .change [token, token] before, sent⟩ :: earlier ∧ OnBus none earlier
  | .error attempt, log => (∀ outcome, attempt ≠ .done outcome) ∧ OnBus none log

def Attempted : Attempt → Log → Prop
  | .done outcome, log => Settles outcome log
  | _, log => OnBus none log

theorem follows_changeOwner {owner : String} {pid : Nat} (h : OnBus none log) (hnamed : Named pid owner log) :
    Follows token (Answered token) (changeOwner token owner pid) log := by
  refine follows_ask (.send .change [token, token] (.owner pid)) ⟨rfl, h.going, h.bus, owner, hnamed⟩
    fun sent => ?_
  cases sent with
  | unreachable => exact follows_pure ⟨_, _, rfl, h⟩
  | answered result peer => exact follows_pure ⟨_, _, rfl, h⟩
  | peerMismatch peer =>
    have hmismatch : OnBus none (⟨.send .change [token, token] (.owner pid), .peerMismatch peer⟩ :: log) :=
      ⟨h.going.cons rfl, h.bus, nofun⟩
    refine follows_idle (.identify owner) trivial fun identity hsame => ?_
    cases identity with
    | gone => exact follows_pure ⟨nofun, hmismatch.same hsame⟩
    | mismatch ownerPid => exact follows_pure ⟨nofun, hmismatch.same hsame⟩
    | serves checked =>
      dsimp only
      split
      · next hchecked =>
        subst hchecked
        have hready := hmismatch.same hsame
        refine follows_ask (.send .change [token, token] (.ownerOrManager checked))
          ⟨rfl, hready.going, hready.bus, owner, peer, log, rfl, hnamed⟩ fun sent => ?_
        exact follows_pure ⟨_, _, rfl, hready⟩
      · exact follows_pure ⟨nofun, hmismatch.same hsame⟩

theorem follows_afterChange {before : Expect} {pid : Nat} {sent : Sent} (h : OnBus none log) :
    Follows token Attempted (match afterChange sent with
      | .unlock peerPid => do
        let _ ← World.send .unlock [token] (.peer peerPid)
        return .done (← delivered plan pid)
      | .stale _ => return .done (.stale pid)
      | .mismatch peerPid => return .mismatch pid (some peerPid)
      | .retry => return .retry) (⟨.send .change [token, token] before, sent⟩ :: log) := by
  have hopen : closes ⟨.send .change [token, token] before, sent⟩ = false →
      OnBus none (⟨.send .change [token, token] before, sent⟩ :: log) :=
    fun hsent => ⟨h.going.cons hsent, h.bus, nofun⟩
  cases sent with
  | unreachable => exact follows_pure (hopen rfl)
  | peerMismatch peer => exact follows_pure (hopen rfl)
  | answered result peer =>
    cases result with
    | ok =>
      refine follows_unlock h.going fun _ => ?_
      exact (follows_delivered rfl).bind fun outcome log' _ hsettles => follows_pure hsettles
    | denied => exact follows_pure h.going.not_changed.symm
    | _ => exact follows_pure (hopen rfl)

theorem follows_tryOwner {owner : String} (h : OnBus (some owner) log) :
    Follows token Attempted (tryOwner token plan owner) log := by
  refine follows_idle (.ownerPid owner) trivial fun pid hsame => ?_
  cases pid with
  | none => exact follows_pure (h.same hsame).taken
  | some pid =>
    refine follows_ask .keyringExists trivial fun present => ?_
    cases present with
    | false => exact follows_pure (h.same hsame).going.not_changed.symm
    | true =>
      have hready : OnBus none (⟨.keyringExists, true⟩ :: ⟨.ownerPid owner, some pid⟩ :: log) :=
        ⟨(h.same hsame).going.cons rfl, h.bus, nofun⟩
      refine (follows_changeOwner hready ⟨log, rfl, h.named owner rfl⟩).bind fun result log' _ hresult => ?_
      cases result with
      | error attempt =>
        refine follows_pure ?_
        cases attempt with
        | done outcome => exact (hresult.1 outcome rfl).elim
        | _ => exact hresult.2
      | ok sent =>
        obtain ⟨before, earlier, rfl, hearlier⟩ := hresult
        exact follows_afterChange hearlier

def Watched : Except Outcome Watch → Log → Prop
  | .error outcome, log => Settles outcome log
  | .ok watch, log => watch.owner = none ∧ OnBus none log

variable {watch : Watch}

theorem follows_tryCurrent (h : OnBus watch.owner log) :
    Follows token Watched (tryCurrent token plan watch) log := by
  unfold tryCurrent
  cases howner : watch.owner with
  | none => exact follows_pure ⟨howner, h.taken⟩
  | some name =>
    refine (follows_tryOwner (howner ▸ h)).bind fun attempt log' _ hattempt => ?_
    cases attempt with
    | done outcome => exact follows_pure hattempt
    | retry => exact follows_idle .now trivial fun _ hsame => follows_pure ⟨rfl, hattempt.same hsame⟩
    | mismatch ownerPid peerPid =>
      have hlog : Follows token (fun _ log'' => SameAs log' log'')
          (World.log (.identityMismatch ownerPid peerPid)) log' :=
        follows_ask_last (.log (.identityMismatch ownerPid peerPid)) trivial
          (sameAs_idle (.log (.identityMismatch ownerPid peerPid)) trivial)
      exact (follows_once hlog).bind fun _ log'' _ hsame => follows_pure ⟨rfl, hattempt.same hsame⟩

theorem follows_announce :
    Follows token (fun watch' log' => watch'.owner = watch.owner ∧ SameAs log log') (announce plan watch) log := by
  have hannounce : Follows token (fun _ log' => SameAs log log') (do
      World.log (.waiting plan.boundSecs plan.uid)
      World.report .waiting) log := by
    refine follows_idle (.log (.waiting plan.boundSecs plan.uid)) trivial fun _ hlog => ?_
    exact follows_ask_last (.report .waiting) trivial
      fun answer => hlog.trans (sameAs_idle (.report .waiting) trivial answer)
  exact (follows_once hannounce).bind fun _ log' _ hsame => follows_pure ⟨rfl, hsame⟩

theorem follows_slice {now : Time} (hdeadline : now < plan.deadline)
    (hretry : ¬ (watch.retryAt.any (· ≤ now)) = true) :
    Follows token (fun _ log' => log' = log) (slice plan watch now) log := by
  refine follows_sub (Nat.le_of_lt hdeadline) ?_
  cases hdue : watch.retryAt with
  | none => exact follows_pure rfl
  | some due =>
    have hahead : now < due := by
      rw [hdue] at hretry
      simpa using hretry
    exact follows_sub (Nat.le_of_lt hahead) (follows_pure rfl)

theorem follows_busRounds {fuel n : Nat} (h : OnBus watch.owner log) :
    Follows token Settles (busRounds token plan fuel n watch) log := by
  induction n generalizing log watch with
  | zero => exact follows_rounds
  | succ n ih =>
    refine follows_ask .stopRequested trivial fun stop => ?_
    cases stop with
    | true => exact follows_pure h.going.not_changed.symm
    | false =>
      have h : OnBus watch.owner (⟨.stopRequested, false⟩ :: log) := ⟨h.going.cons rfl, h.bus, h.named⟩
      refine (follows_tryCurrent h).bind fun result log₁ _ hresult => ?_
      cases result with
      | error outcome => exact follows_pure hresult
      | ok watch =>
        refine follows_announce.bind fun watch' log₂ _ hannounced => ?_
        refine follows_idle .now trivial fun now hnow => ?_
        refine follows_waitedOut.bind fun ended log₃ _ hended => ?_
        have hbus : OnBus none log₃ := hresult.2.same ((hannounced.2.trans hnow).trans hended.1)
        cases ended with
        | some outcome => exact follows_pure (hbus.going.settles hended.2)
        | none =>
          dsimp only
          split
          · refine follows_ask .owner trivial fun answer => ?_
            cases answer with
            | error lost => exact follows_pollControl (hbus.going.cons rfl) rfl
            | ok current => exact ih ⟨hbus.going.cons rfl, hbus.bus, fun name hname => hname⟩
          · next hretry =>
            refine (follows_slice hended.2 hretry).bind fun timeout log₄ _ hlog => ?_
            subst hlog
            refine follows_ask (.nextOwnerChange timeout) trivial fun answer => ?_
            cases answer with
            | error lost => exact follows_pollControl (hbus.going.cons rfl) rfl
            | ok change =>
              cases change with
              | none =>
                refine ih ⟨hbus.going.cons rfl, hbus.bus, fun name hname => ?_⟩
                rw [hannounced.1, hresult.1] at hname
                cases hname
              | some change => exact ih ⟨hbus.going.cons rfl, hbus.bus, fun name hname => hname⟩

theorem follows_onBus {fuel : Nat} (hgoing : Going log) (hbus : busUp log = true) :
    Follows token Settles (onBus token plan fuel) log := by
  refine follows_ask .owner trivial fun answer => ?_
  cases answer with
  | error lost => exact follows_pollControl (hgoing.cons rfl) rfl
  | ok owner => exact follows_busRounds ⟨hgoing.cons rfl, hbus, fun name hname => hname⟩

theorem follows_waitAndDeliver {fuel n : Nat} (hgoing : Going log) (hbus : busUp log = false) :
    Follows token Settles (waitAndDeliver token plan fuel n) log := by
  induction n generalizing log with
  | zero => exact follows_rounds
  | succ n ih =>
    refine follows_ask .stopRequested trivial fun stop => ?_
    cases stop with
    | true => exact follows_pure hgoing.not_changed.symm
    | false =>
      refine follows_ask .connectBus trivial fun answer => ?_
      cases answer with
      | ok _ => exact follows_onBus ((hgoing.cons rfl).cons rfl) rfl
      | error lost =>
        refine follows_idle .now trivial fun now hsame => ?_
        have hgoing := hsame.going ((hgoing.cons rfl).cons rfl)
        split
        · exact follows_pollControl hgoing hbus
        · next hahead =>
          refine follows_sub (Nat.le_of_lt (Nat.lt_of_not_le hahead)) ?_
          refine follows_idle (.sleep (min busRetry (plan.busDeadline - now))) trivial fun _ hsleep => ?_
          exact ih (hsleep.going hgoing) hbus

theorem follows_run {fuel : Nat} : Follows token Settles (run token plan fuel) [] := by
  refine (follows_waitAndDeliver (List.forall_mem_nil _) rfl).bind fun outcome log _ hsettles => ?_
  refine follows_ask (.log outcome.event) trivial fun _ => ?_
  exact follows_ask (.report outcome.status) trivial fun _ => follows_pure hsettles

/-! ## Every log -/

def isRequest : Sigma Answer → Bool
  | ⟨.send _ _ _, _⟩ => true
  | _ => false

theorem not_isRequest_of_closes {later earlier : Log}
    (h : Transcript.Conforms (Permitted token) (later ++ m :: earlier)) (hcloses : closes m = true)
    (hchanged : changed m = false) : ∀ request ∈ later, isRequest request = false := by
  intro request hrequest
  obtain ⟨after, before, rfl⟩ := List.append_of_mem hrequest
  obtain ⟨op, answer⟩ := request
  cases op with
  | send kind args expect =>
    have hsplit : after ++ (⟨.send kind args expect, answer⟩ : Sigma Answer) :: before ++ m :: earlier =
        after ++ ⟨.send kind args expect, answer⟩ :: (before ++ m :: earlier) := by
      rw [List.append_assoc, List.cons_append]
    have hpermitted := (hsplit ▸ h).of_mem
    cases kind with
    | change =>
      have hopen := hpermitted.2.1 m (List.mem_append_right _ List.mem_cons_self)
      rw [hcloses] at hopen
      cases hopen
    | unlock =>
      obtain ⟨_, target, peer, rest, hlog, _, hgoing⟩ := hpermitted
      cases before with
      | nil =>
        obtain ⟨rfl, _⟩ := List.cons.inj hlog
        cases hchanged
      | cons first before =>
        obtain ⟨_, rfl⟩ := List.cons.inj hlog
        have hopen := hgoing m (List.mem_append_right _ List.mem_cons_self)
        rw [hcloses] at hopen
        cases hopen
  | _ => rfl

/-- **One delivery.** However a wait goes and wherever it is cut short, each call is one that the calls before it
permit; nothing is sent after an `UNLOCK`, an owner's refusal, a keyring found missing or a stop; an outcome is a
delivery exactly when a `CHANGE` succeeded; and no subtraction of times goes below zero. -/
theorem delivered_once (token : List UInt8) (plan : Plan) (fuel : Nat)
    (rest : Program Op Answer (Except Cut Outcome)) {log : Log} (hlog : (run token plan fuel).run.after log = some rest) :
    Transcript.Conforms (Permitted token) log ∧
    (∀ later m earlier, log = later ++ m :: earlier → closes m = true → changed m = false →
      ∀ request ∈ later, isRequest request = false) ∧
    (∀ outcome, rest = .result (.ok outcome) → (outcome.isDelivered = true ↔ ∃ m ∈ log, changed m = true)) ∧
    rest ≠ .result (.error .underflow) := by
  obtain ⟨hconforms, hrest⟩ := Program.Guarded.after follows_run hlog
  refine ⟨hconforms, ?_, ?_, ?_⟩
  · rintro later m earlier rfl hcloses hchanged
    exact not_isRequest_of_closes hconforms hcloses hchanged
  · rintro outcome rfl
    have hsettles : outcome.isDelivered = log.any changed := hrest.2
    rw [hsettles, List.any_eq_true]
  · rintro rfl
    exact hrest.2 rfl

/-- A daemon that is up answers the first `CHANGE`. -/
theorem delivered_once_atLogin :
    Transcript.Conforms (Permitted [7])
      [⟨.report .delivered, ()⟩, ⟨.log (.delivered 3 4242), ()⟩, ⟨.now, 3000000⟩,
        ⟨.send .unlock [[7]] (.peer 4242), .answered .ok 4242⟩,
        ⟨.send .change [[7], [7]] (.owner 4242), .answered .ok 4242⟩, ⟨.keyringExists, true⟩,
        ⟨.ownerPid ":1.7", some 4242⟩, ⟨.stopRequested, false⟩, ⟨.owner, .ok (some ":1.7")⟩,
        ⟨.connectBus, .ok ()⟩, ⟨.stopRequested, false⟩] :=
  (delivered_once [7] ⟨0, seconds 120, 1234⟩ 1 (.result (.ok (.delivered 3 4242))) rfl).1

end Irlume.Keyring

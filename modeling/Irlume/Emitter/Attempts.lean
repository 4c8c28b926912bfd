import Irlume.Emitter.Store

/-!
# Recovery writes are bounded

One undo record, any number of recovery passes over it, each cut off anywhere, with other programs
free to change the control between two requests: the camera answers whatever it likes. The world keeps
a log of the requests.

The count in the record is never behind the writes made (`Bounded.record`), in what a reader sees and
in what a power loss would leave. So no sequence of reverted counts lets a fourth write through.
-/

namespace Irlume.Emitter.Attempts

open Irlume.Lib

/-! ## The world of a record -/

/-- A request of a recovery pass, with what matters of its answer. -/
inductive Request where
  /-- `GET_CUR`, and the value it returned. -/
  | read (unit selector : UInt8) (value : Option Bytes)
  | asked
  | sent (unit selector : UInt8) (payload : Bytes)
  | removed (path : Text)

def Request.isSent : Request → Bool
  | .sent _ _ _ => true
  | _ => false

structure World where
  store : Store
  log : List Request

def World.note (w : World) (r : Request) : World := { w with log := r :: w.log }

/-- How many `SET_CUR` requests were sent. -/
def World.sends (w : World) : Nat := w.log.countP Request.isSent

def perform (w : World) : (op : Op) → Choice → Option (op.Answer × World)
  | .getLen _ _, .number n => some (.ok n, w.note .asked)
  | .getLen _ _, .cameraFails e _ => some (.error e, w.note .asked)
  | .getInfo _ _, .number n => some (.ok (UInt8.ofNat n), w.note .asked)
  | .getInfo _ _, .cameraFails e _ => some (.error e, w.note .asked)
  | .getOf .cur unit selector size, .answers value =>
    if value.length = size then some (.ok value, w.note (.read unit selector (some value))) else none
  | .getOf .cur unit selector _, .cameraFails e _ =>
    some (.error e, w.note (.read unit selector none))
  | .setCur unit selector payload, .works => some (.ok (), w.note (.sent unit selector payload))
  | .setCur unit selector payload, .cameraFails e _ =>
    some (.error e, w.note (.sent unit selector payload))
  | .clear path, c =>
    (w.store.answer (.clear path) c).map fun (a, store) =>
      (a, { w with store }.note (.removed path))
  | op, c => (w.store.answer op c).map fun (a, store) => (a, { w with store })

/-- What happens between two passes: the process is killed, or the machine loses power. -/
inductive Outside where
  | kill
  | powerLoss (kept : List Text)

def outside (w : World) : Outside → Option World
  | .kill => some w
  | .powerLoss kept => some { w with store := w.store.powerLoss kept }

section

variable [Sha256]

def pass (id : CameraIdentity) : Run Unit := recoverPendingWrite id >>= fun _ => .result ()

abbrev State := Sessions World Op Op.Answer

def step : State → SessionEvent CameraIdentity Choice Outside → Option State :=
  Sessions.step pass perform outside

end

/-- The store with one record, whose filing ended as `o` says. -/
def World.filed (path : Text) (record : PendingWrite) (o : WriteOutcome) : World where
  store := Store.empty.put path o (some record)
  log := []

/-! ## What holds of every world -/

/-- The same change: a version of a record differs in its attempts and its owner. -/
structure SameChange (r r₀ : PendingWrite) : Prop where
  control : r.control = r₀.control
  original : r.original = r₀.original
  attempted : r.attempted = r₀.attempted

/-- What a request may be that follows `before`. -/
def Follows (path : Text) (r₀ : PendingWrite) (before : Option Request) : Request → Prop
  | .sent unit selector payload =>
    (unit, selector) = r₀.control ∧ fromHex r₀.original = some payload ∧
      ∃ value, before = some (.read unit selector (some value)) ∧ fromHex r₀.attempted = some value
  | .removed p =>
    p = path ∧ ∃ unit selector value, (unit, selector) = r₀.control ∧
      before = some (.read unit selector (some value)) ∧ fromHex r₀.original = some value
  | _ => True

def Orderly (path : Text) (r₀ : PendingWrite) : List Request → Prop
  | [] => True
  | r :: rest => Follows path r₀ rest.head? r ∧ Orderly path r₀ rest

structure Bounded (path : Text) (r₀ : PendingWrite) (w : World) : Prop where
  elsewhere : ∀ p ≠ path, w.store.files p = .settled none
  /-- No version of the record counts fewer attempts than there were writes. -/
  record : (w.store.files path).Both fun content =>
    ∀ r, content = some r → SameChange r r₀ ∧ w.sends ≤ r.restoreAttempts
  sends_le : w.sends ≤ maxRestoreAttempts
  orderly : Orderly path r₀ w.log

variable {path : Text} {r₀ r : PendingWrite} {w w' : World} {c : Choice}

theorem SameChange.refl : SameChange r r := ⟨rfl, rfl, rfl⟩

theorem SameChange.spent (h : SameChange r r₀) : SameChange r.spent r₀ :=
  ⟨h.control, h.original, h.attempted⟩

namespace Bounded

theorem filed (o : WriteOutcome) : Bounded path r₀ (.filed path r₀ o) where
  elsewhere p hp := Store.put_other hp ..
  record := by
    rw [World.filed, Store.put_same]
    exact DurableFile.Both.replace ⟨nofun, nofun⟩ _ fun r hr => by
      cases hr
      exact ⟨.refl, Nat.zero_le _⟩
  sends_le := Nat.zero_le _
  orderly := trivial

variable (h : Bounded path r₀ w)

include h

theorem note {q : Request} (hq : q.isSent = false)
    (hfollows : Follows path r₀ w.log.head? q) : Bounded path r₀ (w.note q) := by
  have hsends : (w.note q).sends = w.sends := by simp [World.sends, World.note, hq]
  exact {
    elsewhere := h.elsewhere
    record := hsends ▸ h.record
    sends_le := hsends ▸ h.sends_le
    orderly := ⟨hfollows, h.orderly⟩ }

theorem put {content : Option PendingWrite}
    (hr : ∀ r, content = some r → SameChange r r₀ ∧ w.sends ≤ r.restoreAttempts) (o : WriteOutcome) :
    Bounded path r₀ { w with store := w.store.put path o content } where
  elsewhere p hp := (Store.put_other hp ..).trans (h.elsewhere p hp)
  record := by
    rw [Store.put_same]
    exact h.record.replace o hr
  sends_le := h.sends_le
  orderly := h.orderly

theorem powerLoss (kept : List Text) :
    Bounded path r₀ { w with store := w.store.powerLoss kept } where
  elsewhere p hp := by
    change (w.store.files p).powerLoss _ = _
    rw [h.elsewhere p hp]
    exact DurableFile.powerLoss_settled none _
  record := h.record.powerLoss _
  sends_le := h.sends_le
  orderly := h.orderly

theorem found {p : Text} (hp : (w.store.files p).visible = some r) :
    p = path ∧ SameChange r r₀ ∧ w.sends ≤ r.restoreAttempts := by
  have hpath : p = path := by
    by_contra hne
    rw [h.elsewhere p hne] at hp
    cases hp
  subst hpath
  exact ⟨rfl, h.record.1 r hp⟩

end Bounded

/-! ## What the calls do -/

variable {unit selector : UInt8}

theorem perform_getLen {a : Except XuError Nat}
    (h : perform w (.getLen unit selector) c = some (a, w')) : w' = w.note .asked := by
  cases c <;> cases h <;> rfl

theorem perform_getInfo {a : Except XuError UInt8}
    (h : perform w (.getInfo unit selector) c = some (a, w')) : w' = w.note .asked := by
  cases c <;> cases h <;> rfl

theorem perform_getCur {size : Nat} {a : Except XuError Bytes}
    (h : perform w (getCur unit selector size) c = some (a, w')) :
    w' = w.note (.read unit selector a.toOption) := by
  cases c with
  | answers value =>
    unfold perform getCur at h
    simp only at h
    split at h
    · cases h
      rfl
    · cases h
  | cameraFails e took =>
    cases h
    rfl
  | _ => cases h

theorem perform_setCur {payload : Bytes} {a : Except XuError Unit}
    (h : perform w (.setCur unit selector payload) c = some (a, w')) :
    w' = w.note (.sent unit selector payload) := by
  cases c <;> cases h <;> rfl

theorem perform_saveAt {p : Text} {a : Except Unit AtomicWrite}
    (h : perform w (.saveAt p r) c = some (a, w')) :
    ∃ o, a = Store.saved o ∧ w' = { w with store := w.store.put p o (some r) } := by
  obtain ⟨⟨a, store⟩, hanswer, heq⟩ := Option.map_eq_some_iff.1 h
  cases heq
  obtain ⟨o, ha, rfl⟩ := Store.answer_saveAt hanswer
  exact ⟨o, ha, rfl⟩

theorem perform_clear {p : Text} {a : Except Unit Unit}
    (h : perform w (.clear p) c = some (a, w')) :
    w' = w.note (.removed p) ∨
      ∃ o, w' = { w with store := w.store.put p o none }.note (.removed p) := by
  obtain ⟨⟨a, store⟩, hanswer, heq⟩ := Option.map_eq_some_iff.1 h
  cases heq
  obtain ⟨rfl, -⟩ | ⟨o, -, rfl⟩ := Store.answer_clear hanswer
  · exact .inl rfl
  · exact .inr ⟨o, rfl⟩

theorem perform_store {op : Op} {a : op.Answer} (h : perform w op c = some (a, w'))
    (hop : Store.Reads op)
    (hperform : perform w op c = (w.store.answer op c).map fun (a, store) => (a, { w with store })) : w' = w ∧ w.store.answer op c = some (a, w.store) := by
  rw [hperform] at h
  obtain ⟨⟨a, store⟩, hanswer, heq⟩ := Option.map_eq_some_iff.1 h
  cases heq
  obtain rfl := Store.answer_reads hop hanswer
  exact ⟨rfl, hanswer⟩

/-! ## What the programs do -/

/-- Every choice may be made. -/
abbrev Reacts : Program.Reacts World Op Op.Answer := Program.reactsBy perform fun _ _ _ => True

/-- The bound holds all through a program, and `Q` of its result. -/
abbrev Safe {α : Type} (path : Text) (r₀ : PendingWrite) (Q : α → World → Prop) (p : Run α)
    (w : World) : Prop := Program.Safe Reacts (Bounded path r₀) Q p w

/-- The requests made since only read. -/
structure OnlyRead (w t : World) : Prop where
  store : t.store = w.store
  sends : t.sends = w.sends

theorem OnlyRead.note {t : World} (h : OnlyRead w t) {q : Request} (hq : q.isSent = false) :
    OnlyRead w (t.note q) where
  store := h.store
  sends := by simpa [World.sends, World.note, hq] using h.sends

section

variable (h : Bounded path r₀ w)

include h

theorem safe_controlNow :
    Safe path r₀ (fun a t => OnlyRead w t ∧ ∀ now, a = some now →
      t.log.head? = some (.read r.unit r.selector (some now.current))) (controlNow r) w := by
  refine ⟨h, fun a t ⟨c, _, ht⟩ => ?_⟩
  obtain rfl := perform_getLen ht
  have h₁ := h.note (q := .asked) rfl trivial
  have hread₁ : OnlyRead w (w.note .asked) := OnlyRead.note ⟨rfl, rfl⟩ rfl
  cases a with
  | error e => exact ⟨h₁, hread₁, nofun⟩
  | ok len =>
    by_cases hlen : len = r.len
    case neg =>
      simp only [hlen, ne_eq, not_false_eq_true, if_true]
      exact ⟨h₁, hread₁, nofun⟩
    simp only [hlen, ne_eq, not_true_eq_false, if_false]
    refine ⟨h₁, fun a t ⟨c, _, ht⟩ => ?_⟩
    obtain rfl := perform_getInfo ht
    have h₂ := h₁.note (q := .asked) rfl trivial
    have hread₂ := hread₁.note (q := .asked) rfl
    cases a with
    | error e => exact ⟨h₂, hread₂, nofun⟩
    | ok info =>
      refine ⟨h₂, fun a t ⟨c, _, ht⟩ => ?_⟩
      obtain rfl := perform_getCur ht
      have h₃ := h₂.note (q := .read r.unit r.selector a.toOption) rfl trivial
      have hread₃ := hread₂.note (q := .read r.unit r.selector a.toOption) rfl
      cases a with
      | error e => exact ⟨h₃, hread₃, nofun⟩
      | ok current =>
        refine ⟨h₃, hread₃, fun now hnow => ?_⟩
        cases hnow
        rfl

variable (hr : SameChange r r₀)

include hr

theorem safe_clearRestored {outcome : RecoveryOutcome} {value : Bytes}
    (hread : w.log.head? = some (.read r.unit r.selector (some value)))
    (hvalue : fromHex r.original = some value) :
    Safe path r₀ (fun _ _ => True) (clearRestored path outcome) w := by
  have hfollows : Follows path r₀ w.log.head? (.removed path) :=
    ⟨rfl, r.unit, r.selector, value, hr.control, hread, hr.original ▸ hvalue⟩
  refine ⟨h, fun a t ⟨c, _, ht⟩ => ?_⟩
  have hI : Bounded path r₀ t := by
    obtain rfl | ⟨o, rfl⟩ := perform_clear ht
    · exact h.note rfl hfollows
    · have hnone : ∀ r, (none : Option PendingWrite) = some r →
          SameChange r r₀ ∧ w.sends ≤ r.restoreAttempts := nofun
      exact (h.put hnone o).note rfl hfollows
  cases a <;> exact ⟨hI, trivial⟩

theorem safe_spentRecordRecovery {attempts : Nat} :
    Safe path r₀ (fun _ _ => True) (spentRecordRecovery r path attempts) w := by
  refine (safe_controlNow h).bind fun a t hI ⟨_, hnow⟩ => ?_
  cases a with
  | none => exact ⟨hI, trivial⟩
  | some now =>
    simp only
    cases hdecision : restoreDecision r now with
    | alreadyRestored =>
      exact safe_clearRestored hI hr (hnow now rfl) (restoreDecision_alreadyRestored hdecision)
    | refuse why => exact ⟨hI, trivial⟩
    | write original => exact ⟨hI, trivial⟩

theorem safe_giveBack {why : Unresolved}
    (hcount : w.sends ≤ r.restoreAttempts) :
    Safe path r₀ (fun _ _ => True) (giveBack path r why) w := by
  refine ⟨h, fun a t ⟨c, _, ht⟩ => ?_⟩
  obtain ⟨o, -, rfl⟩ := perform_saveAt ht
  have hback : ∀ r', some r = some r' → SameChange r' r₀ ∧ w.sends ≤ r'.restoreAttempts := by
    intro r' hr'
    cases hr'
    exact ⟨hr, hcount⟩
  have hI := h.put hback o
  cases a <;> exact ⟨hI, trivial⟩

/-- **The one write of a pass.** Both versions of the record count it already. -/
theorem safe_writeBack {original value : Bytes}
    (hcounted : w.store.files path = .settled (some r.spent)) (hcount : w.sends ≤ r.restoreAttempts)
    (hlt : r.restoreAttempts < maxRestoreAttempts)
    (hread : w.log.head? = some (.read r.unit r.selector (some value)))
    (hattempted : fromHex r.attempted = some value) (horiginal : fromHex r.original = some original) :
    Safe path r₀ (fun _ _ => True) (writeBack r path original) w := by
  refine ⟨h, fun a t ⟨c, _, ht⟩ => ?_⟩
  obtain rfl := perform_setCur ht
  have hsends : (w.note (.sent r.unit r.selector original)).sends = w.sends + 1 :=
    List.countP_cons_of_pos rfl
  have hI : Bounded path r₀ (w.note (.sent r.unit r.selector original)) := {
    elsewhere := h.elsewhere
    record := by
      change (w.store.files path).Both _
      rw [hcounted]
      have hspent : ∀ r', some r.spent = some r' →
          SameChange r' r₀ ∧ (w.note (.sent r.unit r.selector original)).sends ≤ r'.restoreAttempts := by
        intro r' hr'
        cases hr'
        exact ⟨hr.spent, by rw [hsends]; exact Nat.succ_le_succ hcount⟩
      exact ⟨hspent, hspent⟩
    sends_le := by rw [hsends]; omega
    orderly := ⟨⟨hr.control, hr.original ▸ horiginal, value, hread, hr.attempted ▸ hattempted⟩,
      h.orderly⟩ }
  cases a with
  | error e => exact ⟨hI, trivial⟩
  | ok u =>
    refine ⟨hI, fun a t ⟨c, _, ht⟩ => ?_⟩
    obtain rfl := perform_getCur ht
    have hI' := hI.note (q := .read r.unit r.selector a.toOption) rfl trivial
    cases a with
    | error e => exact ⟨hI', trivial⟩
    | ok back =>
      by_cases hback : back = original
      · simp only [hback, if_true]
        subst hback
        exact safe_clearRestored hI' hr rfl horiginal
      · simp only [hback, if_false]
        exact ⟨hI', trivial⟩

theorem safe_restoreCounted {original : Bytes}
    (hcount : w.sends ≤ r.restoreAttempts) (hlt : r.restoreAttempts < maxRestoreAttempts)
    (horiginal : fromHex r.original = some original) :
    Safe path r₀ (fun _ _ => True) (restoreCounted r path original) w := by
  refine ⟨h, fun a t ⟨c, _, ht⟩ => ?_⟩
  obtain ⟨o, rfl, rfl⟩ := perform_saveAt ht
  have hspent : ∀ r', some r.spent = some r' → SameChange r' r₀ ∧ w.sends ≤ r'.restoreAttempts := by
    intro r' hr'
    cases hr'
    exact ⟨hr.spent, Nat.le_succ_of_le hcount⟩
  have hI := h.put hspent o
  cases o with
  | failed => exact ⟨hI, trivial⟩
  | visible => exact ⟨hI, trivial⟩
  | durable =>
    simp only [Store.saved, countedAttemptAuthorizesWrite, Bool.not_true, Bool.false_eq_true, if_false]
    cases hattempted : fromHex r.attempted with
    | none => exact safe_giveBack hI hr hcount
    | some attempted =>
      refine ⟨hI, fun a t ⟨c, _, ht⟩ => ?_⟩
      obtain rfl := perform_getCur ht
      have hI' := hI.note (q := .read r.unit r.selector a.toOption) rfl trivial
      cases a with
      | error e => exact safe_giveBack hI' hr hcount
      | ok now =>
        obtain rfl | hnow := eq_or_ne now attempted
        · simp only [if_true]
          exact safe_writeBack hI' hr (Store.put_same ..) hcount hlt rfl hattempted horiginal
        · simp only [hnow, if_false]
          exact safe_giveBack hI' hr hcount

end

section

variable [Sha256] {id : CameraIdentity}

theorem safe_recoverRecord (h : Bounded path r₀ w) (hr : SameChange r r₀)
    (hcount : w.sends ≤ r.restoreAttempts) :
    Safe path r₀ (fun _ _ => True) (recoverRecord id path r) w := by
  refine ⟨h, fun running t ⟨c, _, ht⟩ => ?_⟩
  obtain ⟨rfl, -⟩ := perform_store ht trivial rfl
  cases happlies : recordApplies r id running with
  | error m =>
    cases m with
    | outOfAttempts attempts =>
      simp only [happlies]
      exact safe_spentRecordRecovery h hr
    | _ =>
      simp only [happlies]
      exact ⟨h, trivial⟩
  | ok u =>
    simp only [happlies]
    refine (safe_controlNow h).bind fun a t hI ⟨hread, hnow⟩ => ?_
    cases a with
    | none => exact ⟨hI, trivial⟩
    | some now =>
      simp only
      cases hdecision : restoreDecision r now with
      | alreadyRestored =>
        exact safe_clearRestored hI hr (hnow now rfl) (restoreDecision_alreadyRestored hdecision)
      | refuse why => exact ⟨hI, trivial⟩
      | write original =>
        exact safe_restoreCounted hI hr (hread.sends ▸ hcount) (lt_of_recordApplies happlies)
          (restoreDecision_write hdecision).1

/-- **One pass**, cut off anywhere. -/
theorem safe_pass (h : Bounded path r₀ w) : Safe path r₀ (fun _ _ => True) (pass id) w := by
  refine Program.Safe.bind (Q := fun _ _ => True) ?_ fun a t hI _ => ⟨hI, trivial⟩
  refine ⟨h, fun granted t ⟨c, _, ht⟩ => ?_⟩
  obtain ⟨rfl, -⟩ := perform_store ht trivial rfl
  cases granted with
  | error u => exact ⟨h, trivial⟩
  | ok granted =>
    cases granted with
    | false => exact ⟨h, trivial⟩
    | true =>
      refine (safe_load World.store ?_ h).bind fun a t hI ⟨ht, hloaded⟩ => ?_
      · rintro op a w' ⟨c, _, hc⟩ hop
        cases op <;> first
          | exact False.elim hop
          | (obtain ⟨rfl, hc⟩ := perform_store hc trivial rfl; exact ⟨rfl, c, hc⟩)
      · subst ht
        cases a with
        | error e => cases e <;> exact ⟨hI, trivial⟩
        | ok situation =>
          cases situation with
          | nothing => exact ⟨hI, trivial⟩
          | sameModelElsewhere r => exact ⟨hI, trivial⟩
          | mine p r =>
            obtain ⟨rfl, hr, hcount⟩ := hI.found hloaded.1
            exact safe_recoverRecord hI hr hcount

/-! ## Every run -/

omit [Sha256] in
theorem removed_of_perform {op : Op} {a : op.Answer} (h : perform w op c = some (a, w'))
    (hbefore : (w.store.files path).visible ≠ none) (hafter : (w'.store.files path).visible = none) :
    w'.log.head? = some (.removed path) := by
  have hsame : w'.store = w.store → False := fun hstore => hbefore (hstore ▸ hafter)
  cases op with
  | getLen u s =>
    obtain rfl := perform_getLen h
    exact (hsame rfl).elim
  | getInfo u s =>
    obtain rfl := perform_getInfo h
    exact (hsame rfl).elim
  | getOf q u s n =>
    cases q with
    | cur =>
      obtain rfl := perform_getCur h
      exact (hsame rfl).elim
    | _ => cases c <;> cases h
  | setCur u s p =>
    obtain rfl := perform_setCur h
    exact (hsame rfl).elim
  | saveAt p r =>
    obtain ⟨o, -, rfl⟩ := perform_saveAt h
    by_cases hp : path = p
    · subst hp
      simp only [Store.put_same] at hafter
      cases o with
      | failed => exact absurd hafter hbefore
      | _ => cases hafter
    · simp only [Store.put_other hp] at hafter
      exact absurd hafter hbefore
  | clear p =>
    by_cases hp : path = p
    · subst hp
      obtain rfl | ⟨o, rfl⟩ := perform_clear h <;> rfl
    · obtain rfl | ⟨o, rfl⟩ := perform_clear h
      · exact absurd hafter hbefore
      · simp only [World.note, Store.put_other hp] at hafter
        exact absurd hafter hbefore
  | _ =>
    obtain ⟨rfl, -⟩ := perform_store h trivial rfl
    exact (hsame rfl).elim

theorem bounded_of_run {o : WriteOutcome} {es : List (SessionEvent CameraIdentity Choice Outside)}
    {m : State} (hrun : run step (.idle (.filed path r₀ o)) es = some m) :
    Bounded path r₀ m.world := by
  have houtside : ∀ w x w', Bounded path r₀ w → outside w x = some w' → Bounded path r₀ w' := by
    intro w x w' h hx
    cases x with
    | kill =>
      cases hx
      exact h
    | powerLoss kept =>
      cases hx
      exact h.powerLoss kept
  have hpass : ∀ (id : CameraIdentity) w, True → Bounded path r₀ w →
      Safe path r₀ (fun _ _ => True) (pass id) w := fun _ _ _ h => safe_pass h
  have hmem : m ∈ states step (.idle (.filed path r₀ o)) es := by
    simpa using mem_states_of_run hrun []
  exact (Sessions.states_sound hpass houtside
    (fun x _ => ⟨Sessions.answers_of_forall (fun _ _ _ => trivial) _ _,
      Sessions.starts_of_forall (fun _ => trivial) _⟩)
    (Sessions.sound_idle (Bounded.filed o)) m hmem).world

/-- **Recovery writes are bounded and undo only what the record says.** Over every run of passes by
anyone on one record, cut off anywhere: the writes never exceed the attempts allowed; each sends the
recorded original to the recorded control, right after a `GET_CUR` that returned the value attempted;
a removal comes right after a `GET_CUR` that returned the original; and a record that disappears from
a reader was removed so, or lost with the power. -/
theorem recovery_bounded (path : Text) (r₀ : PendingWrite) (o : WriteOutcome)
    (es : List (SessionEvent CameraIdentity Choice Outside)) (m : State)
    (hrun : run step (.idle (.filed path r₀ o)) es = some m) :
    m.world.sends ≤ maxRestoreAttempts ∧ Orderly path r₀ m.world.log ∧
      ∀ e m', step m e = some m' → (m.world.store.files path).visible ≠ none →
        (m'.world.store.files path).visible = none →
        (∃ kept, e = .outside (.powerLoss kept)) ∨ m'.world.log.head? = some (.removed path) := by
  have hbounded := bounded_of_run hrun
  refine ⟨hbounded.sends_le, hbounded.orderly, fun e m' hstep hbefore hafter => ?_⟩
  obtain ⟨w, running⟩ := m
  cases e with
  | start id =>
    cases running with
    | result a =>
      cases hstep
      exact absurd hafter hbefore
    | call op next => cases hstep
  | answer c =>
    cases running with
    | result a => cases hstep
    | call op next =>
      obtain ⟨⟨a, w'⟩, hperform, rfl⟩ := Option.map_eq_some_iff.1 hstep
      exact .inr (removed_of_perform hperform hbefore hafter)
  | outside x =>
    cases x with
    | kill =>
      cases hstep
      exact absurd hafter hbefore
    | powerLoss kept => exact .inl ⟨kept, rfl⟩

end

/-! ## A torch left lit -/

def leftTorch : PendingWrite :=
  letI := keepingDigest
  { schemaVersion := 1, descriptorSha256 := fingerprint laptop, usbId := laptop.usbId,
    interfaceNumber := 0, unit := 4, selector := 10, len := 2, original := toHex [1, 0],
    attempted := toHex [2, 9], restoreAttempts := 0, bootId := none, pid := none,
    serial := laptop.serial, usbDevpath := laptop.usbDevpath }

def torchPath : Text := "torch.json"

/-- A pass that finds the record by scanning and writes the original back, killed before it can read
the control again. -/
def writtenBack : List (SessionEvent CameraIdentity Choice Outside) :=
  [.start laptop, .answer (.replies true), .answer (.replies false), .answer .works,
    .answer (.lists [torchPath]), .answer (.replies false), .answer (.number 2), .answer (.number 3),
    .answer (.answers [2, 9]), .answer (.file .durable), .answer (.answers [2, 9]), .answer .works,
    .outside .kill]

set_option maxRecDepth 100000 in
/-- A pass that writes the torch back. -/
theorem recovery_bounded_writtenBack :
    letI := keepingDigest
    ∃ m, run step (.idle (.filed torchPath leftTorch .durable)) writtenBack = some m ∧
      m.world.sends = 1 ∧ m.world.sends ≤ maxRestoreAttempts ∧
      Orderly torchPath leftTorch m.world.log := by
  let := keepingDigest
  have hruns : (run step (.idle (.filed torchPath leftTorch .durable)) writtenBack).map
      (fun m => m.world.sends) = some 1 := by decide
  obtain ⟨m, hm, hsends⟩ := Option.map_eq_some_iff.1 hruns
  obtain ⟨hbound, horderly, -⟩ := recovery_bounded torchPath leftTorch .durable writtenBack m hm
  exact ⟨m, hm, hsends, hbound, horderly⟩

end Irlume.Emitter.Attempts

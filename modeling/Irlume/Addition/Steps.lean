import Irlume.Addition.Kept

/-!
# What the parts of an addition give

Up to the commit's own publication an addition keeps hold of three facts: what the secondary store was when its digest
was first taken (`Seen`), what was loaded after that (`Since`), and that nothing has been published. Under the state
lock nobody else takes a step, so what the last checks read is still there when the store is written.
-/

namespace Irlume.Addition

open Irlume.Lib Irlume.Cameras
open Irlume.Replacement (Files Record Instr)
open Irlume.Sealed (Error Resolution)

/-- Among the contents the files have had, and the one the capture was validated against, none collide. -/
def Collisionless (sha256Hex : Bytes → Text) (start : Bytes) (w : World) : Prop :=
  DigestsDistinct sha256Hex w.stores ∧ DigestsDistinct sha256Hex (start :: w.primaries)

section

variable {Enr : Type} {α β ε : Type} {sha256Hex : Bytes → Text} {start : Bytes} {P : World → Prop}
  {Q : α → World → Prop} {calls : Op → Bool}

/-- What a part of the addition gives among the others. -/
abbrev Gives (sha256Hex : Bytes → Text) (start : Bytes) (P : World → Prop) (p : Calls Enr α) (Q : α → World → Prop) :
    Prop :=
  Fallible.Gives otherStep (perform sha256Hex) (Collisionless sha256Hex start) (World.Sound sha256Hex) P p Q

theorem gives_call {op : Op} {Q : Answer Enr op → World → Prop} (hP : Program.Stable otherStep P)
    (h : ∀ w (choice : Choice Enr) answer t, w.Sound sha256Hex → P w → t.Sound sha256Hex →
      Collisionless sha256Hex start t → perform sha256Hex w op choice = some (answer, t) → Q answer t) :
    Gives sha256Hex start P (ask op) Q := by
  refine Fallible.gives_ask sound_stable hP fun w choice answer t hw hPw hB hperform => ?_
  have ht := hw.perform hperform
  exact ⟨ht, h w choice answer t hw hPw ht hB hperform⟩

theorem gives_ask {op : Op} (hP : Kept Enr sha256Hex calls P) (hop : calls op = true) :
    Gives sha256Hex start P (ask op : Calls Enr _) fun _ => P :=
  gives_call hP.others fun w choice answer t _ hPw _ _ hperform => hP.calls w op choice answer t hop hPw hperform

theorem gives_refuseIf {p : Prop} [Decidable p] {e : Error} :
    Gives sha256Hex start P (refuseIf p e : Calls Enr Unit) fun _ w => ¬p ∧ P w := by
  unfold refuseIf
  split
  · exact Fallible.gives_throw
  · next hp => exact Fallible.gives_pure fun w _ hP => ⟨hp, hP⟩

theorem gives_orThrow {r : Except ε α} {f : ε → Error} :
    Gives sha256Hex start P (orThrow r f : Calls Enr α) fun a w => r = .ok a ∧ P w := by
  cases r with
  | ok a => exact Fallible.gives_pure fun w _ hP => ⟨rfl, hP⟩
  | error e => exact Fallible.gives_throw

theorem gives_unless {p : Prop} [Decidable p] {e : Error} {k : Calls Enr α}
    (h : ¬p → Gives sha256Hex start P k Q) : Gives sha256Hex start P (refuseIf p e >>= fun _ => k) Q :=
  gives_refuseIf.bind fun _ => Fallible.gives_of h

theorem gives_ok {r : Except ε α} {f : ε → Error} {k : α → Calls Enr β} {Q : β → World → Prop}
    (h : ∀ a, r = .ok a → Gives sha256Hex start P (k a) Q) :
    Gives sha256Hex start P (orThrow r f >>= k) Q :=
  gives_orThrow.bind fun a => Fallible.gives_of (h a)

theorem gives_askOk {op : Op} {ε : Type} {f : ε → Error} {r : Answer Enr op → Except ε α}
    {k : α → Calls Enr β} {Q : β → World → Prop} (hP : Kept Enr sha256Hex calls P) (hop : calls op = true)
    (h : ∀ a, Gives sha256Hex start P (k a) Q) :
    Gives sha256Hex start P (ask op >>= fun answer => orThrow (r answer) f >>= k) Q :=
  (gives_ask hP hop).bind fun _ => gives_ok fun a _ => h a

end

/-! ## Reading the two files -/

section

variable {Scan Calib Enr : Type} {start : Bytes} {P : World → Prop} {calls : Op → Bool} {c : Codec Scan Calib}

theorem perform_readStore {sha256Hex : Bytes → Text} {w t : World} {reading : Reading} {choice : Choice Enr}
    {x : Option Bytes} (h : perform sha256Hex w (.readStore reading) choice = some (.ok x, t)) :
    x = t.store ∧ (reading ≠ .digest → t.loaded = some x) ∧
      (w.firstRead = none → t.firstRead = some (reading, x)) := by
  obtain ⟨t', hact, rfl⟩ := perform_iff.1 h
  obtain ⟨hanswer, rfl⟩ := Prod.mk.inj (Option.some.inj hact)
  unfold Choice.orIo at hanswer
  split at hanswer
  · cases hanswer
  · next hnone =>
    cases hanswer
    unfold World.readStore World.recorded
    rw [hnone]
    refine ⟨rfl, fun hreading => ?_, fun hnone => ?_⟩
    · simp [hreading, World.noted]
    · simp [hnone, World.noted]

theorem perform_readPrimary {sha256Hex : Bytes → Text} {w t : World} {choice : Choice Enr}
    {x : Option Bytes} (h : perform sha256Hex w .readPrimary choice = some (.ok x, t)) : x = t.primary := by
  obtain ⟨t', hact, rfl⟩ := perform_iff.1 h
  obtain ⟨hanswer, rfl⟩ := Prod.mk.inj (Option.some.inj hact)
  unfold Choice.orIo at hanswer
  split at hanswer
  · cases hanswer
  · exact (Except.ok.inj hanswer).symm

theorem gives_optionalFileDigest (hP : Kept Enr c.sha256Hex calls P)
    (hdigest : calls (.readStore .digest) = true) :
    Gives c.sha256Hex start P (optionalFileDigest c : Calls Enr _) fun d w =>
      (d = w.store.map c.sha256Hex ∧ Collisionless c.sha256Hex start w) ∧ P w := by
  have hread : Gives c.sha256Hex start P (ask (.readStore .digest) : Calls Enr _) fun answer w =>
      (∀ x, answer = .ok x → x = w.store) ∧ Collisionless c.sha256Hex start w ∧ P w := by
    refine gives_call hP.others fun w choice answer t _ hPw _ hB hperform => ⟨?_, hB, ?_⟩
    · rintro x rfl
      exact (perform_readStore hperform).1
    · exact hP.calls w _ choice answer t hdigest hPw hperform
  refine hread.bind fun answer => gives_ok fun x hx => Fallible.gives_pure ?_
  rintro w - ⟨hstore, hB, hPw⟩
  exact ⟨⟨by rw [hstore x hx], hB⟩, hPw⟩

theorem gives_readPrimary (hP : Kept Enr c.sha256Hex calls P) (hprimary : calls .readPrimary = true) :
    Gives c.sha256Hex start P (ask .readPrimary : Calls Enr _) fun answer w =>
      (∀ x, answer = .ok x → x = w.primary ∧
        (x.map c.sha256Hex = some (c.sha256Hex start) → w.primary = some start)) ∧ P w := by
  refine gives_call hP.others fun w choice answer t _ hPw hsound hB hperform => ⟨?_, ?_⟩
  · rintro x rfl
    obtain rfl := perform_readPrimary hperform
    refine ⟨rfl, fun hsame => ?_⟩
    obtain ⟨p, hp, hdigest⟩ := Option.map_eq_some_iff.1 hsame
    have hmem : p ∈ start :: t.primaries := List.mem_cons_of_mem _ (hsound.primary p hp)
    rw [hp, hB.2 p hmem start List.mem_cons_self hdigest]
  · exact hP.calls w _ choice answer t hprimary hPw hperform

/-! ## Loading the secondary store -/

inductive LoadsAs (c : Codec Scan Calib) : Option Bytes → Option (SecondaryStore Scan Calib) → Prop where
  | absent : LoadsAs c none none
  | present (bytes : Bytes) (key : Option Bytes) (store : SecondaryStore Scan Calib)
      (h : c.load key bytes = .ok store) : LoadsAs c (some bytes) (some store)

/-- Nothing is published, and what the first digest was taken of is known. -/
def Opened (found : Option Bytes) (w : World) : Prop := Seen found w ∧ Unbegun w

/-- Nothing is read and nothing published. -/
def Unread (w : World) : Prop := w.firstRead = none ∧ Unbegun w

theorem gives_firstDigest :
    Gives c.sha256Hex start Unread (optionalFileDigest c : Calls Enr _) fun d w =>
      ∃ found : Option Bytes, d = found.map c.sha256Hex ∧ Opened found w := by
  have hothers : Program.Stable otherStep Unread := fun w x t h hstep =>
    ⟨(other_reads hstep).1.trans h.1, (show Kept Enr c.sha256Hex _ Unbegun from unbegun_kept).others w x t h.2 hstep⟩
  have hread : Gives c.sha256Hex start Unread (ask (.readStore .digest) : Calls Enr _) fun answer w =>
      ∀ x, answer = .ok x → Opened x w := by
    refine gives_call hothers fun w choice answer t _ h hsound _ hperform => ?_
    rintro x rfl
    obtain ⟨rfl, -, hfirst⟩ := perform_readStore hperform
    exact ⟨⟨hfirst h.1, hsound.store⟩, unbegun_kept.calls w _ choice _ t rfl h.2 hperform⟩
  refine hread.bind fun answer => gives_ok fun x hx => Fallible.gives_pure ?_
  exact fun w _ hopened => ⟨x, rfl, hopened x hx⟩

def Tracked (found content : Option Bytes) (w : World) : Prop := Since found content w ∧ Opened found w

theorem opened_kept (found : Option Bytes) : Kept Enr c.sha256Hex (fun op => !op.begins) (Opened found) :=
  ((seen_kept found).mono fun _ _ => rfl).and unbegun_kept

theorem tracked_kept (found content : Option Bytes) :
    Kept Enr c.sha256Hex Op.isQuiet (Tracked found content) :=
  (since_kept found content).and ((opened_kept found).mono fun _ => Op.begins_of_isQuiet)

variable {found : Option Bytes}

theorem gives_readStore (reading : Reading) (hreading : reading ≠ .digest) :
    Gives c.sha256Hex start (Opened found) (ask (.readStore reading) : Calls Enr _) fun answer w =>
      (∀ content, answer = .ok content → Since found content w) ∧ Opened found w := by
  have hkept : Kept Enr c.sha256Hex (fun op => !op.begins) (Opened found) := opened_kept found
  refine gives_call hkept.others fun w choice answer t _ hw _ _ hperform => ?_
  have ht := hkept.calls w _ choice answer t rfl hw hperform
  refine ⟨?_, ht⟩
  rintro content rfl
  obtain ⟨rfl, hloaded, -⟩ := perform_readStore hperform
  refine ⟨hloaded hreading, fun hne b hb => ⟨ht.1.2 b hb, ?_⟩⟩
  rw [hb] at hne
  exact hne

theorem gives_loadSecondaryWithKey (key : Option Bytes) :
    Gives c.sha256Hex start (Opened found) (loadSecondaryWithKey c key : Calls Enr _) fun store w =>
      ∃ content, LoadsAs c content store ∧ Tracked found content w := by
  refine (gives_readStore .load nofun).bind fun answer => gives_ok fun content hcontent => ?_
  cases content with
  | none =>
    refine Fallible.gives_pure ?_
    rintro w - ⟨hsince, hopened⟩
    exact ⟨none, .absent, hsince none hcontent, hopened⟩
  | some bytes =>
    refine gives_ok fun store hstore => Fallible.gives_pure ?_
    rintro w - ⟨hsince, hopened⟩
    exact ⟨some bytes, .present bytes key store hstore, hsince _ hcontent, hopened⟩

theorem gives_loadSecondary :
    Gives c.sha256Hex start (Opened found) (loadSecondary c : Calls Enr _) fun store w =>
      ∃ content, LoadsAs c content store ∧ Tracked found content w := by
  refine (gives_readStore .version nofun).bind fun answer => gives_ok fun content hcontent => ?_
  cases content with
  | none =>
    refine Fallible.gives_pure ?_
    rintro w - ⟨hsince, hopened⟩
    exact ⟨none, .absent, hsince none hcontent, hopened⟩
  | some bytes =>
    refine Fallible.Gives.weaken (P := Opened found) ?_ fun _ h => h.2
    refine gives_unless fun _ => gives_ok fun declared _ => ?_
    split
    · exact gives_askOk (opened_kept found) rfl fun key => gives_loadSecondaryWithKey key
    · exact gives_loadSecondaryWithKey none

/-! ## Under the state lock -/

variable {host : Host Enr} {user : Text} {α : Type}

section

variable (hP : Kept Enr c.sha256Hex Op.staysLocked P)

include hP

theorem gives_readRecord :
    Gives c.sha256Hex start P (readRecord host user) fun _ => P := by
  refine gives_askOk hP rfl fun record => ?_
  cases record with
  | none => exact Fallible.gives_pure fun _ _ h => h
  | some record => exact gives_unless fun _ => Fallible.gives_pure fun _ _ h => h

theorem gives_execAll (record : Record) (instrs : List Instr) :
    Gives c.sha256Hex start P (execAll record instrs : Calls Enr Unit) fun _ => P := by
  induction instrs with
  | nil => exact Fallible.gives_pure fun _ _ h => h
  | cons instr instrs ih => exact gives_askOk hP rfl fun _ => ih

theorem gives_settleBy (finishes : Bool) :
    Gives c.sha256Hex start P (settleBy host user finishes) fun _ => P := by
  refine (gives_readRecord hP).bind fun record => ?_
  cases record with
  | none => exact Fallible.gives_pure fun _ _ h => h
  | some record => exact gives_execAll hP record _

theorem gives_settleInterrupted :
    Gives c.sha256Hex start P (settleInterrupted c host user) fun _ => P := by
  refine (gives_readRecord hP).bind fun record => ?_
  cases record with
  | none => exact Fallible.gives_pure fun _ _ h => h
  | some record => exact gives_askOk hP rfl fun _ => gives_settleBy hP _

end

theorem gives_acquire (hP : Kept Enr c.sha256Hex Op.isQuiet P) :
    Gives c.sha256Hex start P (ask .acquire : Calls Enr _) fun answer w => answer = .ok () → Locked P w := by
  refine gives_call hP.others fun w choice answer t _ hPw _ _ hperform => ?_
  have ht := hP.calls w _ choice answer t rfl hPw hperform
  rintro rfl
  refine ⟨?_, ht⟩
  obtain ⟨t', hact, rfl⟩ := perform_iff.1 hperform
  dsimp only [act] at hact
  split at hact
  · cases hact
  · split at hact
    · cases hact
      rfl
    · cases hact

/-- **A part under the state lock**: the lock is taken, an interrupted replacement settled, and the lock released. -/
theorem gives_withStateLock {part : Calls Enr α} {Q : α → World → Prop} (hP : Kept Enr c.sha256Hex Op.isQuiet P)
    (hpart : Gives c.sha256Hex start (Locked P) part Q)
    (hQ : ∀ a, Kept Enr c.sha256Hex (fun op => op = .release) (Q a)) :
    Gives c.sha256Hex start P (withStateLock c host user part) Q := by
  refine (gives_acquire hP).bind fun answer => ?_
  refine gives_ok fun u hu => ?_
  refine Fallible.Gives.weaken (P := Locked P) ?_ fun w h => h hu
  have hattempt : Gives c.sha256Hex start (Locked P)
      (Fallible.attempt (settleInterrupted c host user >>= fun _ => part)) fun result w =>
        ∀ a, result = .ok a → Q a w := by
    refine Fallible.Gives.attempt ((gives_settleInterrupted hP.locked).bind fun _ => hpart) ?_ fun _ _ _ => nofun
    rintro a w - hQw a' heq
    exact Except.ok.inj heq ▸ hQw
  refine hattempt.bind fun result => ?_
  have hkept : Kept Enr c.sha256Hex (fun op => op = .release) fun w => ∀ a, result = .ok a → Q a w :=
    { others := fun w x t h hstep a ha => (hQ a).others w x t (h a ha) hstep
      calls := fun w op choice answer t hop h hperform a ha =>
        (hQ a).calls w op choice answer t hop (h a ha) hperform }
  refine (gives_ask hkept (by simp)).bind fun _ => ?_
  exact gives_orThrow.mono (fun _ _ h => h) fun a w _ h => h.2 a h.1

/-! ## Preparing -/

structure MadeFor (c : Codec Scan Calib) (store : SecondaryStore Scan Calib)
    (commit : PreparedSecondaryCommit Scan Calib) : Prop where
  holds : commit.store = store
  valid : store.validate = .ok ()
  written : ∃ key nonce, commit.bytes = c.storeBytes store key nonce

variable {store : SecondaryStore Scan Calib} {digest : Text}

theorem gives_prepareWithIntentKey {key : Option Bytes} (hP : Kept Enr c.sha256Hex calls P)
    (hnonce : calls .encryptionNonce = true) (hdir : calls .createStoreDir = true) :
    Gives c.sha256Hex start P (prepareWithIntentKey c store digest key : Calls Enr _) fun commit w =>
      MadeFor c store commit ∧ P w := by
  refine gives_ok fun _ _ => gives_unless fun _ => ?_
  have hkey : Gives c.sha256Hex start P (encryptionNonce key : Calls Enr _) fun _ => P := by
    cases key with
    | none => exact Fallible.gives_pure fun _ _ h => h
    | some key => exact (gives_ask hP hnonce).bind fun _ => gives_orThrow.mono (fun _ _ h => h) fun _ _ _ h => h.2
  refine hkey.bind fun nonce => gives_askOk hP hdir fun _ => ?_
  refine gives_orThrow.mono (fun _ _ h => h) ?_
  rintro commit w - ⟨hcommit, hPw⟩
  obtain ⟨hvalid, rfl⟩ := prepareWithIntentKey_ok hcommit
  exact ⟨⟨rfl, hvalid, key, nonce, rfl⟩, hPw⟩

theorem gives_prepareWithKeyContext {key : Bytes} (hP : Kept Enr c.sha256Hex Op.staysLocked P) :
    Gives c.sha256Hex start P (prepareWithKeyContext c store digest key : Calls Enr _) fun prepared w =>
      MadeFor c store prepared.commit ∧ P w := by
  refine (gives_prepareWithIntentKey hP rfl rfl).bind fun commit => Fallible.gives_of fun hcommit => ?_
  exact gives_askOk hP rfl fun _ => Fallible.gives_pure fun w _ h => ⟨hcommit, h⟩

theorem gives_withCameraStoreKey (hP : Kept Enr c.sha256Hex Op.isQuiet P) :
    Gives c.sha256Hex start P (withCameraStoreKey c host user store digest) fun prepared w =>
      MadeFor c store prepared.commit ∧ P w := by
  have hlocked : Gives c.sha256Hex start (Locked P) (ask .cameraStoreKey >>= fun answer => orThrow answer id >>= fun key =>
      Fallible.attempt (prepareWithKeyContext c store digest key) : Calls Enr _) fun result w =>
        ∀ prepared, result = .ok prepared → MadeFor c store prepared.commit ∧ P w := by
    refine gives_askOk hP.locked rfl fun key => ?_
    refine Fallible.Gives.attempt (gives_prepareWithKeyContext hP.locked) ?_ fun _ _ _ => nofun
    rintro prepared w - ⟨hmade, hlocked⟩ prepared' heq
    exact Except.ok.inj heq ▸ ⟨hmade, hlocked.2⟩
  have hreleased : ∀ result : Except Error (Prepared Scan Calib),
      Kept Enr c.sha256Hex (fun op => op = .release) fun w =>
        ∀ prepared, result = .ok prepared → MadeFor c store prepared.commit ∧ P w := fun result =>
    { others := fun w x t h hstep prepared hp => ⟨(h prepared hp).1, hP.others w x t (h prepared hp).2 hstep⟩
      calls := fun w op choice answer t hop h hperform prepared hp => by
        obtain rfl : op = .release := by simpa using hop
        exact ⟨(h prepared hp).1, hP.calls w _ choice answer t rfl (h prepared hp).2 hperform⟩ }
  refine Fallible.Gives.bind (Q := fun finished w => ∀ result, finished = .ok result → ∀ prepared,
    result = .ok prepared → MadeFor c store prepared.commit ∧ P w) ?_ fun finished => ?_
  · refine (gives_withStateLock hP hlocked hreleased).attempt ?_ fun _ _ _ => nofun
    rintro result w - h result' heq
    exact Except.ok.inj heq ▸ h
  refine gives_ok fun result hresult => ?_
  refine gives_orThrow.mono (fun _ _ h => h) ?_
  rintro prepared w - ⟨hprepared, h⟩
  exact h result hresult prepared hprepared

theorem gives_prepareWithIntent (hP : Kept Enr c.sha256Hex Op.isQuiet P) :
    Gives c.sha256Hex start P (prepareWithIntent c host user store digest) fun prepared w =>
      MadeFor c store prepared.commit ∧ P w := by
  refine (gives_ask hP rfl).bind fun available => ?_
  split
  · exact gives_withCameraStoreKey hP
  · refine (gives_prepareWithIntentKey hP rfl rfl).bind fun commit => ?_
    exact Fallible.gives_pure fun w _ h => h

end

end Irlume.Addition

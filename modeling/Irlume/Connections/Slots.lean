import Irlume.Lib.Machine
import Mathlib.Data.List.Perm.Basic

/-!
# Connection slots

`connection_slots.rs`: how many connections the daemon serves at once, and how many of them one account may
hold. Every `take` and every `Slot::drop` holds the mutex for its whole body, so what threads do at once is one
order of these calls, and a run is any order.
-/

namespace Irlume.Connections

open Irlume.Lib

abbrev Uid := UInt32

/-- Why a connection got no slot. -/
inductive Refusal where
  | poolFull
  | accountFull

/-- The counters. `byUid` is the map: an account with no entry is `none`. -/
structure Held where
  all : Nat
  byUid : Uid → Option Nat

def Held.default : Held := { all := 0, byUid := fun _ => none }

/-- The limits of `ConnectionSlots`. -/
structure Limits where
  total : Nat
  rootReserved : Nat
  perAccount : Nat

def withLimits (total rootReserved perAccount : Nat) : Limits :=
  { total, rootReserved := min rootReserved total, perAccount }

def Limits.new : Limits := withLimits 64 16 12

structure Slot where
  account : Option Uid
  deriving DecidableEq

namespace Limits

variable (l : Limits)

def ceiling (uid : Option Uid) : Nat := if uid = some 0 then l.total else l.total - l.rootReserved

/-- `take`: the counters as it leaves them, and its answer. -/
def take (held : Held) (uid : Option Uid) : Held × Except Refusal Slot :=
  if l.ceiling uid ≤ held.all then (held, .error .poolFull)
  else
    match uid.filter (· ≠ 0) with
    | none => ({ held with all := held.all + 1 }, .ok { account := none })
    | some u =>
      -- The entry is made before the account's limit is looked at.
      let n := (held.byUid u).getD 0
      if l.perAccount ≤ n then
        ({ held with byUid := Function.update held.byUid u (some n) }, .error .accountFull)
      else
        ({ all := held.all + 1, byUid := Function.update held.byUid u (some (n + 1)) },
          .ok { account := some u })

end Limits

/-- `Slot::drop`. -/
def Slot.drop (slot : Slot) (held : Held) : Held :=
  let all := held.all - 1
  match slot.account with
  | none => { held with all }
  | some u =>
    match held.byUid u with
    | none => { held with all }
    | some n =>
      { all, byUid := Function.update held.byUid u (if n - 1 = 0 then none else some (n - 1)) }

/-! ## Runs -/

/-- A slot that is held, and the peer it was taken for. -/
structure Taken where
  peer : Option Uid
  slot : Slot
  deriving DecidableEq

/-- The counters, and beside them the slots that are really held, each with the peer it was taken for. -/
structure World where
  held : Held
  live : List Taken

def World.initial : World := { held := .default, live := [] }

inductive Event where
  | take (uid : Option Uid)
  | drop (i : Nat)

def Limits.step (l : Limits) (w : World) : Event → Option World
  | .take uid =>
    match l.take w.held uid with
    | (held, .ok slot) => some { held, live := { peer := uid, slot } :: w.live }
    | (held, .error _) => some { w with held }
  | .drop i => w.live[i]?.map fun t => { held := t.slot.drop w.held, live := w.live.eraseIdx i }

def World.heldBy (w : World) (u : Uid) : Nat := w.live.countP fun t => t.peer = some u

def Taken.Proper (t : Taken) : Prop := t.slot.account = t.peer.filter (· ≠ 0)

/-- The counters are those of the slots that are held. -/
structure Counted (l : Limits) (w : World) : Prop where
  proper : ∀ t ∈ w.live, t.Proper
  all : w.held.all = w.live.length
  total : w.held.all ≤ l.total
  root : w.held.byUid 0 = none
  uid : ∀ u, u ≠ 0 → (w.held.byUid u).getD 0 = w.heldBy u
  entry : 0 < l.perAccount → ∀ u, w.held.byUid u ≠ some 0
  account : ∀ u, u ≠ 0 → w.heldBy u ≤ l.perAccount

/-! ## What a call does -/

theorem update_getD {m : Uid → Option Nat} {u v : Uid} {x : Option Nat} :
    (Function.update m u x v).getD 0 = if v = u then x.getD 0 else (m v).getD 0 := by
  rw [Function.update_apply]
  split <;> rfl

namespace Limits

variable (l : Limits) {held held' : Held} {uid : Option Uid} {slot : Slot} {e : Refusal}

/-- What `take` does. -/
inductive Takes (held : Held) (uid : Option Uid) : Held × Except Refusal Slot → Prop where
  | poolFull : l.ceiling uid ≤ held.all → Takes held uid (held, .error .poolFull)
  | accountFull (u : Uid) : uid = some u → u ≠ 0 → l.perAccount ≤ (held.byUid u).getD 0 →
      Takes held uid ({ held with
        byUid := Function.update held.byUid u (some ((held.byUid u).getD 0)) }, .error .accountFull)
  | uncounted : held.all < l.ceiling uid → uid.filter (· ≠ 0) = none →
      Takes held uid ({ held with all := held.all + 1 }, .ok { account := none })
  | counted (u : Uid) : held.all < l.ceiling uid → uid = some u → u ≠ 0 →
      (held.byUid u).getD 0 < l.perAccount →
      Takes held uid ({
        all := held.all + 1
        byUid := Function.update held.byUid u (some ((held.byUid u).getD 0 + 1)) },
        .ok { account := some u })

theorem takes (held : Held) (uid : Option Uid) : l.Takes held uid (l.take held uid) := by
  unfold take
  split
  · next hfull => exact .poolFull hfull
  next hroom =>
  rw [Nat.not_le] at hroom
  split
  · next hnone => exact .uncounted hroom hnone
  next u hu =>
  obtain ⟨rfl, hne⟩ := Option.filter_eq_some_iff.1 hu
  have hne : u ≠ 0 := by simpa using hne
  dsimp only
  split
  · next hcap => exact .accountFull u rfl hne hcap
  · next hcap => exact .counted u hroom rfl hne (Nat.not_le.1 hcap)

theorem ceiling_le : l.ceiling uid ≤ l.total := by
  unfold ceiling
  split <;> omega

theorem lt_ceiling_of_take (h : l.take held uid = (held', .ok slot)) : held.all < l.ceiling uid := by
  have htakes := l.takes held uid
  rw [h] at htakes
  cases htakes with
  | uncounted hroom => exact hroom
  | counted _ hroom => exact hroom

end Limits

/-! ## The counters stay exact -/

namespace Counted

variable {l : Limits} {w w' : World}

theorem initial : Counted l .initial where
  proper := nofun
  all := rfl
  total := Nat.zero_le _
  root := rfl
  uid := by simp [World.initial, Held.default, World.heldBy]
  entry := by simp [World.initial, Held.default]
  account := by simp [World.initial, World.heldBy]

theorem take (h : Counted l w) {uid : Option Uid} (hstep : l.step w (.take uid) = some w') :
    Counted l w' := by
  simp only [Limits.step] at hstep
  have htakes := l.takes w.held uid
  generalize l.take w.held uid = answer at htakes hstep
  have hceiling : l.ceiling uid ≤ l.total := l.ceiling_le
  cases htakes with
  | poolFull =>
    cases hstep
    exact h
  | accountFull u hu hne hcap =>
    cases hstep
    have hsame : ∀ v, (Function.update w.held.byUid u (some ((w.held.byUid u).getD 0)) v).getD 0 =
        (w.held.byUid v).getD 0 := by
      intro v
      rw [update_getD]
      split
      · next heq => rw [heq, Option.getD_some]
      · rfl
    refine { h with root := ?_, uid := ?_, entry := ?_ }
    · exact (Function.update_of_ne (Ne.symm hne) _ _).trans h.root
    · intro v hv
      exact (hsame v).trans (h.uid v hv)
    · -- The entry was there already, or the account could hold nothing.
      intro hpos v hv
      have hn : 0 < (w.held.byUid u).getD 0 := Nat.lt_of_lt_of_le hpos hcap
      dsimp only at hv
      rw [Function.update_apply] at hv
      split at hv
      · rw [Option.some.inj hv] at hn
        omega
      · exact h.entry hpos v hv
  | uncounted hroom hnone =>
    cases hstep
    have hother : ∀ u, u ≠ 0 → uid ≠ some u := by
      rintro u hu rfl
      rw [Option.filter_eq_none_iff] at hnone
      simp [hu] at hnone
    refine {
      proper := ?_
      all := by simp [h.all]
      total := Nat.le_trans hroom hceiling
      root := h.root
      uid := ?_
      entry := h.entry
      account := ?_ }
    · intro t ht
      rcases List.mem_cons.1 ht with rfl | ht
      · exact hnone.symm
      · exact h.proper t ht
    · intro u hu
      have hcount := h.uid u hu
      simpa [World.heldBy, hother u hu] using hcount
    · intro u hu
      have hcount := h.account u hu
      simpa [World.heldBy, hother u hu] using hcount
  | counted u hroom hu hne hcap =>
    subst hu
    cases hstep
    have hcount := h.uid u hne
    have hheld : ∀ v,
        World.heldBy { w with live := { peer := some u, slot := { account := some u } } :: w.live } v =
          w.heldBy v + if v = u then 1 else 0 := by
      intro v
      rw [World.heldBy, List.countP_cons]
      simp [World.heldBy, eq_comm]
    refine {
      proper := ?_
      all := by simp [h.all]
      total := Nat.le_trans hroom hceiling
      root := ?_
      uid := ?_
      entry := ?_
      account := ?_ }
    · intro t ht
      rcases List.mem_cons.1 ht with rfl | ht
      · exact (Option.filter_some_pos (by simpa using hne)).symm
      · exact h.proper t ht
    · exact (Function.update_of_ne (Ne.symm hne) _ _).trans h.root
    · intro v hv
      refine Eq.trans update_getD (Eq.trans ?_ (hheld v).symm)
      split
      · next heq => rw [heq, Option.getD_some, hcount]
      · rw [h.uid v hv, Nat.add_zero]
    · intro hpos v hv
      dsimp only at hv
      rw [Function.update_apply] at hv
      split at hv
      · cases hv
      · exact h.entry hpos v hv
    · intro v hv
      refine Nat.le_trans (Nat.le_of_eq (hheld v)) ?_
      have hacc := h.account v hv
      split
      · next heq =>
        subst heq
        omega
      · exact hacc

theorem drop (h : Counted l w) {i : Nat} (hstep : l.step w (.drop i) = some w') : Counted l w' := by
  obtain ⟨t, ht, rfl⟩ := Option.map_eq_some_iff.1 hstep
  have hmem := List.mem_of_getElem? ht
  have hproper := h.proper t hmem
  obtain ⟨hi, hget⟩ := List.getElem?_eq_some_iff.1 ht
  have hperm : w.live.Perm (t :: w.live.eraseIdx i) := by
    rw [← hget]
    exact (List.getElem_cons_eraseIdx_perm hi).symm
  have hlength : w.live.length = (w.live.eraseIdx i).length + 1 := by
    rw [hperm.length_eq, List.length_cons]
  have hheld : ∀ v, w.heldBy v =
      (w.live.eraseIdx i).countP (fun t => t.peer = some v) + if t.peer = some v then 1 else 0 := by
    intro v
    rw [World.heldBy, hperm.countP_eq, List.countP_cons]
    simp
  have hrest : ∀ t' ∈ w.live.eraseIdx i, t'.Proper :=
    fun t' ht' => h.proper t' (List.mem_of_mem_eraseIdx ht')
  have hall := h.all
  have htotal := h.total
  cases haccount : t.slot.account with
  | none =>
    -- The peer was root's or unknown.
    have hother : ∀ u, u ≠ 0 → t.peer ≠ some u := by
      intro u hu hpeer
      rw [Taken.Proper, haccount, hpeer, Option.filter_some_pos (by simpa using hu)] at hproper
      cases hproper
    have heq : t.slot.drop w.held = { w.held with all := w.held.all - 1 } := by
      simp only [Slot.drop, haccount]
    rw [heq]
    refine {
      proper := hrest
      all := by simp only; omega
      total := by simp only; omega
      root := h.root
      uid := ?_
      entry := h.entry
      account := ?_ }
    · intro u hu
      have hcount := h.uid u hu
      rw [hheld u, if_neg (hother u hu)] at hcount
      exact hcount
    · intro u hu
      have hacc := h.account u hu
      rw [hheld u, if_neg (hother u hu)] at hacc
      exact hacc
  | some u =>
    have hpeer : t.peer = some u ∧ u ≠ 0 := by
      rw [Taken.Proper, haccount] at hproper
      simpa using Option.filter_eq_some_iff.1 hproper.symm
    obtain ⟨hpeer, hne⟩ := hpeer
    -- The account holds the slot, so it has an entry.
    have hcount := h.uid u hne
    rw [hheld u, if_pos hpeer] at hcount
    obtain ⟨n, hn⟩ : ∃ n, w.held.byUid u = some n := by
      cases hentry : w.held.byUid u with
      | none =>
        rw [hentry, Option.getD_none] at hcount
        omega
      | some n => exact ⟨n, rfl⟩
    rw [hn, Option.getD_some] at hcount
    have heq : t.slot.drop w.held = {
        all := w.held.all - 1
        byUid := Function.update w.held.byUid u (if n - 1 = 0 then none else some (n - 1)) } := by
      simp only [Slot.drop, haccount, hn]
    rw [heq]
    refine {
      proper := hrest
      all := by simp only; omega
      total := by simp only; omega
      root := ?_
      uid := ?_
      entry := ?_
      account := ?_ }
    · exact (Function.update_of_ne (Ne.symm hne) _ _).trans h.root
    · intro v hv
      refine Eq.trans update_getD ?_
      simp only [World.heldBy]
      by_cases hvu : v = u
      · subst hvu
        rw [if_pos rfl]
        split
        · rw [Option.getD_none]
          omega
        · rw [Option.getD_some]
          omega
      · have hcountv := h.uid v hv
        rw [hheld v, hpeer, if_neg (by simpa using Ne.symm hvu)] at hcountv
        rw [if_neg hvu]
        exact hcountv
    · intro hpos v hv
      dsimp only at hv
      rw [Function.update_apply] at hv
      split at hv
      · split at hv
        · cases hv
        · next hzero => exact hzero (Option.some.inj hv)
      · exact h.entry hpos v hv
    · intro v hv
      have hacc := h.account v hv
      have hsplit := hheld v
      refine Nat.le_trans ?_ hacc
      rw [hsplit]
      exact Nat.le_add_right _ _

theorem step (h : Counted l w) {e : Event} (hstep : l.step w e = some w') : Counted l w' := by
  cases e with
  | take uid => exact h.take hstep
  | drop i => exact h.drop hstep

theorem run (events : List Event) (hrun : Lib.run l.step .initial events = some w) : Counted l w :=
  run_invariant (fun h hstep => h.step hstep) initial hrun

theorem held_eq_default (h : Counted l w) (hpos : 0 < l.perAccount) (hlive : w.live = []) :
    w.held = .default := by
  have hall : w.held.all = 0 := by rw [h.all, hlive, List.length_nil]
  have huid : w.held.byUid = fun _ => none := by
    funext u
    by_cases hu : u = 0
    · rw [hu, h.root]
    · have hcount := h.uid u hu
      rw [World.heldBy, hlive, List.countP_nil] at hcount
      cases hentry : w.held.byUid u with
      | none => rfl
      | some n =>
        rw [hentry, Option.getD_some] at hcount
        subst hcount
        exact absurd hentry (h.entry hpos u)
  exact congr (congrArg Held.mk hall) huid

end Counted

/-- For all limits and every order of takes and drops: the counters are those of the slots that are held,
within the limits, and root has no entry; a slot is taken only below what the peer may fill; and, unless no
account may hold any slot, an account that holds none has no entry, so that with every slot dropped the state
is the initial one. -/
theorem connection_slots (total reserved perAccount : Nat) (events : List Event) (w : World)
    (hrun : Lib.run (withLimits total reserved perAccount).step .initial events = some w) :
    w.held.all = w.live.length ∧ w.held.all ≤ total ∧ w.held.byUid 0 = none ∧
      (∀ u, (w.held.byUid u).getD 0 = if u = 0 then 0 else w.heldBy u) ∧
      (∀ u, u ≠ 0 → w.heldBy u ≤ perAccount) ∧
      (∀ uid held slot, (withLimits total reserved perAccount).take w.held uid = (held, .ok slot) →
        w.held.all < total ∧ (uid ≠ some 0 → w.held.all < total - min reserved total)) ∧
      (0 < perAccount → (∀ u, w.held.byUid u ≠ some 0) ∧ (w.live = [] → w = .initial)) := by
  have hcounted := Counted.run events hrun
  refine ⟨hcounted.all, hcounted.total, hcounted.root, ?_, hcounted.account, ?_, ?_⟩
  · intro u
    split
    · next hu => rw [hu, hcounted.root, Option.getD_none]
    · next hu => exact hcounted.uid u hu
  · intro uid held slot htake
    have hlt := Limits.lt_ceiling_of_take _ htake
    refine ⟨Nat.lt_of_lt_of_le hlt (Limits.ceiling_le _), ?_⟩
    intro huid
    rwa [Limits.ceiling, if_neg huid] at hlt
  · intro hpos
    refine ⟨hcounted.entry hpos, ?_⟩
    intro hlive
    exact congr (congrArg World.mk (hcounted.held_eq_default hpos hlive)) hlive

/-- Root and one account take and give back their slots under the daemon's limits. -/
theorem connection_slots_sample :
    ∃ w, Lib.run Limits.new.step .initial
        [.take (some 0), .take (some 1000), .drop 1, .drop 0] = some w ∧ w = .initial := by
  have hrun : ((Lib.run Limits.new.step .initial
      [.take (some 0), .take (some 1000), .drop 1, .drop 0]).map fun w => w.live) = some [] := by
    decide
  obtain ⟨w, hw, hlive⟩ := Option.map_eq_some_iff.1 hrun
  exact ⟨w, hw, (connection_slots 64 16 12 _ w hw).2.2.2.2.2.2 (by decide) |>.2 hlive⟩

/-- Where no account may hold a slot, an account that is refused keeps an empty entry. -/
theorem connection_slots_noAccountSlots :
    ∃ w, Lib.run (withLimits 64 16 0).step .initial [.take (some 1000)] = some w ∧ w.live = [] ∧
      w ≠ .initial := by
  refine ⟨_, rfl, rfl, ?_⟩
  intro heq
  have hentry := congrFun (congrArg (fun w => w.held.byUid) heq) 1000
  revert hentry
  decide

end Irlume.Connections

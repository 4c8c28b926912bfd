import Irlume.Diagnostics.Recent

/-!
# What a reader is shown

The rings hold, of each owner, its latest events that had not expired at the last call (`Kept`), as long as no
account had to give way.
-/

namespace Irlume.Diagnostics

open Std Irlume.Lib

variable {Kind Capture Camera : Type}

/-! ## Rings -/

def log (h : List (Call Kind Capture Camera)) : List (Entry Kind × Nat) := (recorded h).zipIdx 1

def stored (x : Entry Kind × Nat) : TimedShareSafeEvent Kind := x.1.timed (min x.2 u64Max)

/-- The entry had not expired when the cutoff was `cutoffMs`. -/
def fresh (cutoffMs : Nat) (x : Entry Kind × Nat) : Bool := cutoffMs ≤ x.1.nowMs

def ringOf (l : List (Entry Kind × Nat)) (cutoffMs : Nat) (owner : Owner) : List (TimedShareSafeEvent Kind) :=
  (((l.filter fun x => x.1.owner = owner).filter (fresh cutoffMs)).rtake maxShareSafeEvents).map stored

def Ordered (l : List (Entry Kind × Nat)) : Prop := l.Pairwise fun a b => a.1.nowMs ≤ b.1.nowMs

variable {l : List (Entry Kind × Nat)}

theorem Ordered.lasting (h : Ordered l) (cutoffMs : Nat) : Lasting (fresh cutoffMs) l :=
  List.Pairwise.imp (fun hab ha => by simp only [fresh, decide_eq_true_eq] at *; omega) h

theorem Ordered.filter (h : Ordered l) (p : Entry Kind × Nat → Bool) :
    Ordered (l.filter p) := List.Pairwise.filter p h

theorem ringOf_filter (hl : Ordered l) {cutoffMs cutoffMs' : Nat}
    (hcutoff : cutoffMs ≤ cutoffMs') (owner : Owner) :
    (ringOf l cutoffMs owner).dropWhile (fun event => !decide (cutoffMs' ≤ event.recordedMs)) =
      ringOf l cutoffMs' owner := by
  have hkept : Lasting (fresh cutoffMs') ((l.filter fun x => x.1.owner = owner).filter (fresh cutoffMs)) :=
    ((hl.filter _).filter _).lasting _
  have hmap : (fun event : TimedShareSafeEvent Kind => !decide (cutoffMs' ≤ event.recordedMs)) ∘ stored =
      fun x => !fresh cutoffMs' x := rfl
  have hboth : (fun x : Entry Kind × Nat => fresh cutoffMs' x && fresh cutoffMs x) = fresh cutoffMs' := by
    funext x
    simp only [fresh, Bool.and_eq_left_iff_imp, decide_eq_true_eq]
    omega
  have hring : Lasting (fresh cutoffMs')
      (((l.filter fun x => x.1.owner = owner).filter (fresh cutoffMs)).rtake maxShareSafeEvents) :=
    hkept.sublist (List.drop_sublist _ _)
  rw [ringOf, List.dropWhile_map, hmap, hring.dropWhile_eq_filter, hkept.filter_rtake, List.filter_filter, hboth,
    ringOf]

variable {cutoffMs : Nat}

theorem ringOf_append_self {x : Entry Kind × Nat}
    (hx : fresh cutoffMs x = true) :
    ringOf (l ++ [x]) cutoffMs x.1.owner =
      (ringOf l cutoffMs x.1.owner).rtake (maxShareSafeEvents - 1) ++ [stored x] := by
  have hself : ([x].filter fun y => y.1.owner = x.1.owner) = [x] := List.filter_cons_of_pos (by simp)
  have hfresh : [x].filter (fresh cutoffMs) = [x] := List.filter_cons_of_pos hx
  have hcut : (ringOf l cutoffMs x.1.owner).rtake (maxShareSafeEvents - 1) =
      (((l.filter fun y => y.1.owner = x.1.owner).filter (fresh cutoffMs)).rtake (maxShareSafeEvents - 1)).map stored := by
    rw [ringOf, ← map_rtake, rtake_rtake _ (Nat.sub_le _ _)]
  rw [hcut, ringOf, List.filter_append, hself, List.filter_append, hfresh,
    show maxShareSafeEvents = maxShareSafeEvents - 1 + 1 from rfl, List.rtake_concat_succ, List.map_append]
  rfl

theorem ringOf_append_of_ne {x : Entry Kind × Nat} {owner : Owner}
    (hx : x.1.owner ≠ owner) : ringOf (l ++ [x]) cutoffMs owner = ringOf l cutoffMs owner := by
  have hother : ([x].filter fun y => y.1.owner = owner) = [] := List.filter_cons_of_neg (by simpa using hx)
  rw [ringOf, List.filter_append, hother, List.append_nil, ringOf]

/-! ## What the calls keep -/

variable {rings : Rings Kind} {nowMs : Nat}

theorem mem_pruneExpired {owner : Owner} (h : owner ∈ pruneExpired rings nowMs) :
    owner ∈ rings := ExtTreeMap.mem_of_mem_filterMap h

theorem pruneExpired_getElem? (rings : Rings Kind) (nowMs : Nat) (owner : Owner) :
    (pruneExpired rings nowMs)[owner]? = (rings[owner]?).bind fun events =>
      let kept := events.dropWhile fun event => !decide (nowMs - maxHistoryMs ≤ event.recordedMs)
      if kept.isEmpty then none else some kept := ExtTreeMap.getElem?_filterMap'

theorem pruneExpired_getD (rings : Rings Kind) (nowMs : Nat) (owner : Owner) :
    (pruneExpired rings nowMs).getD owner [] =
      (rings.getD owner []).dropWhile fun event => !decide (nowMs - maxHistoryMs ≤ event.recordedMs) := by
  rw [ExtTreeMap.getD_eq_getD_getElem?, ExtTreeMap.getD_eq_getD_getElem?, pruneExpired_getElem?]
  cases rings[owner]? with
  | none => rfl
  | some events =>
    simp only [Option.bind_some, Option.getD_some]
    split
    · next h => rw [List.isEmpty_iff.1 h, Option.getD_none]
    · rfl

theorem pruneExpired_ne_nil (rings : Rings Kind) (nowMs : Nat) (owner : Owner) :
    (pruneExpired rings nowMs)[owner]? ≠ some [] := by
  rw [pruneExpired_getElem?]
  cases rings[owner]? with
  | none => rintro ⟨⟩
  | some events =>
    simp only [Option.bind_some]
    split
    · rintro ⟨⟩
    · next h => exact fun h' => h (by rw [Option.some.inj h', List.isEmpty_nil])

variable {accounts : Finset Nat}

theorem countP_keys_le
    (h : ∀ uid, Owner.account uid ∈ rings → uid ∈ accounts) : rings.keys.countP Owner.isAccount ≤ accounts.card := by
  have hnodup : (rings.keys.filterMap Owner.account?).Nodup := by
    refine rings.nodup_keys.filterMap fun a b uid ha hb => ?_
    rw [Option.mem_def, Owner.account?_eq_some_iff] at ha hb
    rw [ha, hb]
  have hsub : (rings.keys.filterMap Owner.account?).toFinset ⊆ accounts := by
    intro uid huid
    obtain ⟨owner, howner, huid⟩ := List.mem_filterMap.1 (List.mem_toFinset.1 huid)
    rw [Owner.account?_eq_some_iff] at huid
    exact h uid (huid ▸ ExtTreeMap.mem_keys.1 howner)
  have hlength : rings.keys.countP Owner.isAccount = (rings.keys.filterMap Owner.account?).length := by
    rw [List.length_filterMap_eq_countP]
    refine List.countP_congr fun owner _ => ?_
    cases owner <;> simp [Owner.isAccount, Owner.account?]
  rw [hlength, ← List.toFinset_card_of_nodup hnodup]
  exact Finset.card_le_card hsub

theorem makeRoomForAnAccount_of_card {uid : Nat}
    (h : ∀ uid, Owner.account uid ∈ rings → uid ∈ accounts) (hcard : accounts.card ≤ maxAccountRings)
    (huid : uid ∈ accounts) (hnew : Owner.account uid ∉ rings) : makeRoomForAnAccount rings = rings := by
  have hrest : ∀ other, Owner.account other ∈ rings → other ∈ accounts.erase uid := fun other hother =>
    Finset.mem_erase.2 ⟨fun heq => hnew (heq ▸ hother), h other hother⟩
  have hcount := countP_keys_le hrest
  have herase := Finset.card_erase_lt_of_mem huid
  rw [makeRoomForAnAccount, if_pos (by omega)]

/-- The state after a history in which no account had to give way. -/
structure Kept (h : List (Call Kind Capture Camera)) (accounts : Finset Nat) (nowMs : Nat)
    (inner : Inner Kind Capture Camera) : Prop where
  ordered : Ordered (log h)
  past : ∀ e ∈ recorded h, e.nowMs ≤ nowMs
  nextSequence : inner.nextSequence = min ((recorded h).length + 1) u64Max
  present : ∀ owner : Owner, inner.rings[owner]? ≠ some []
  accounts : ∀ uid, Owner.account uid ∈ inner.rings → uid ∈ accounts
  rings : ∃ cutoffMs ≤ nowMs - maxHistoryMs, ∀ owner, inner.rings.getD owner [] = ringOf (log h) cutoffMs owner

namespace Kept

variable {h : List (Call Kind Capture Camera)} {accounts : Finset Nat} {nowMs : Nat} {inner : Inner Kind Capture Camera}

theorem new : Kept ([] : List (Call Kind Capture Camera)) accounts 0 .new where
  ordered := .nil
  past := nofun
  nextSequence := rfl
  present _ := by simp [Inner.new]
  accounts _ h := by simp [Inner.new] at h
  rings := ⟨0, Nat.zero_le _, fun owner => by simp [Inner.new, ringOf, log, recorded]⟩

section

variable (hk : Kept h accounts nowMs inner)

include hk

theorem mono {nowMs' : Nat} (hle : nowMs ≤ nowMs') : Kept h accounts nowMs' inner :=
  { hk with
    past := fun e he => (hk.past e he).trans hle
    rings := by
      obtain ⟨cutoffMs, hcutoff, hrings⟩ := hk.rings
      exact ⟨cutoffMs, by omega, hrings⟩ }

theorem pruneExpired :
    (∀ owner, (pruneExpired inner.rings nowMs).getD owner [] = ringOf (log h) (nowMs - maxHistoryMs) owner) ∧
      ∀ uid, Owner.account uid ∈ Diagnostics.pruneExpired inner.rings nowMs → uid ∈ accounts := by
  obtain ⟨cutoffMs, hcutoff, hrings⟩ := hk.rings
  refine ⟨fun owner => ?_, fun uid huid => hk.accounts uid (mem_pruneExpired huid)⟩
  rw [pruneExpired_getD, hrings, ringOf_filter hk.ordered hcutoff]

theorem snapshot (sort : SequenceSort Kind) (sinceMs peerUid : Nat) :
    Kept (h ++ [.snapshot sort nowMs sinceMs peerUid]) accounts nowMs (snapshotFor inner sort nowMs sinceMs peerUid).2 := by
  have hrecorded : recorded (h ++ [.snapshot sort nowMs sinceMs peerUid]) = recorded h := by
    rw [recorded, List.filterMap_append]
    exact List.append_nil _
  have hlog : log (h ++ [.snapshot sort nowMs sinceMs peerUid]) = log h := by rw [log, hrecorded, log]
  obtain ⟨hrings, haccounts⟩ := hk.pruneExpired
  exact {
    ordered := hlog ▸ hk.ordered
    past := hrecorded ▸ hk.past
    nextSequence := hrecorded ▸ hk.nextSequence
    present := pruneExpired_ne_nil _ _
    accounts := haccounts
    rings := ⟨nowMs - maxHistoryMs, le_rfl, hlog ▸ hrings⟩ }

theorem publish (capture : Capture) (cameras : List Camera) :
    Kept (h ++ [.publishSupportContext capture cameras]) accounts nowMs { inner with capture := some capture, cameras } := by
  have hrecorded : recorded (h ++ [.publishSupportContext capture cameras]) = recorded h := by
    rw [recorded, List.filterMap_append]
    exact List.append_nil _
  have hlog : log (h ++ [.publishSupportContext capture cameras]) = log h := by rw [log, hrecorded, log]
  exact {
    ordered := hlog ▸ hk.ordered
    past := hrecorded ▸ hk.past
    nextSequence := hrecorded ▸ hk.nextSequence
    present := hk.present
    accounts := hk.accounts
    rings := hlog ▸ hk.rings }

end

theorem recordLocked_eq {e : Entry Kind} (hk : Kept h accounts e.nowMs inner) (hcard : accounts.card ≤ maxAccountRings)
    (howner : ∀ uid, e.owner = .account uid → uid ∈ accounts) :
    recordLocked inner e = { inner with
      nextSequence := saturatingAdd inner.nextSequence 1
      rings := (Diagnostics.pruneExpired inner.rings e.nowMs).insert e.owner
        ((ringOf (log h) (e.nowMs - maxHistoryMs) e.owner).rtake (maxShareSafeEvents - 1) ++
          [stored (e, (recorded h).length + 1)]) } := by
  obtain ⟨hrings, haccounts⟩ := hk.pruneExpired
  have hroom : (if e.owner.isAccount ∧ e.owner ∉ Diagnostics.pruneExpired inner.rings e.nowMs then
      makeRoomForAnAccount (Diagnostics.pruneExpired inner.rings e.nowMs) else Diagnostics.pruneExpired inner.rings e.nowMs) =
      Diagnostics.pruneExpired inner.rings e.nowMs := by
    split
    · next h =>
      obtain ⟨haccount, hnew⟩ := h
      cases howner' : e.owner with
      | account uid => exact makeRoomForAnAccount_of_card haccounts hcard (howner uid howner') (howner' ▸ hnew)
      | daemon | unresolved => rw [howner'] at haccount; cases haccount
    · rfl
  rw [recordLocked, hroom, hrings, stored, hk.nextSequence]

theorem record {e : Entry Kind} (hk : Kept h accounts e.nowMs inner) (hcard : accounts.card ≤ maxAccountRings)
    (howner : ∀ uid, e.owner = .account uid → uid ∈ accounts) :
    Kept (h ++ [.record e]) accounts e.nowMs (recordLocked inner e) := by
  have hrecorded : recorded (h ++ [.record e]) = recorded h ++ [e] := by
    rw [recorded, List.filterMap_append]
    rfl
  have hlog : log (h ++ [.record e]) = log h ++ [(e, (recorded h).length + 1)] := by
    rw [log, hrecorded, List.zipIdx_append, Nat.add_comm]
    rfl
  obtain ⟨hrings, haccounts⟩ := hk.pruneExpired
  rw [hk.recordLocked_eq hcard howner]
  exact {
    ordered := by
      rw [hlog]
      refine List.pairwise_append.2 ⟨hk.ordered, List.pairwise_singleton _ _, fun x hx y hy => ?_⟩
      obtain rfl := List.mem_singleton.1 hy
      exact hk.past _ (List.fst_mem_of_mem_zipIdx hx)
    past := by
      rw [hrecorded]
      intro e' he'
      rcases List.mem_append.1 he' with he' | he'
      · exact hk.past e' he'
      · exact (congrArg Entry.nowMs (List.mem_singleton.1 he')).le
    nextSequence := by
      rw [hrecorded, List.length_append, List.length_singleton, hk.nextSequence]
      exact saturatingAdd_min _ _
    present := fun owner => by
      rw [ExtTreeMap.getElem?_insert]
      split
      · exact fun h => List.append_ne_nil_of_right_ne_nil _ (List.cons_ne_nil _ _) (Option.some.inj h)
      · exact pruneExpired_ne_nil _ _ _
    accounts := fun uid huid => by
      rcases ExtTreeMap.mem_insert.1 huid with huid | huid
      · exact howner uid (LawfulEqCmp.eq_of_compare huid)
      · exact haccounts uid huid
    rings := by
      refine ⟨e.nowMs - maxHistoryMs, le_rfl, fun owner => ?_⟩
      rw [hlog, ExtTreeMap.getD_insert]
      split
      · next heq =>
        obtain rfl := LawfulEqCmp.eq_of_compare heq
        have hfresh : fresh (e.nowMs - maxHistoryMs) (e, (recorded h).length + 1) = true :=
          decide_eq_true (Nat.sub_le _ _)
        exact (ringOf_append_self hfresh).symm
      · next hcompare =>
        have hne : e.owner ≠ owner := fun heq => hcompare (heq ▸ ReflCmp.compare_self)
        rw [hrings, ringOf_append_of_ne hne] }

end Kept

/-- What is asked of a history: the clock does not go back, and the accounts that record events all have a ring. -/
structure Fair (h : List (Call Kind Capture Camera)) (nowMs : Nat) : Prop where
  clock : (readings h ++ [nowMs]).Pairwise (· ≤ ·)
  accounts : (accountsOf (recorded h)).card ≤ maxAccountRings

variable {h : List (Call Kind Capture Camera)}

theorem kept_after
    (hclock : (readings h ++ [nowMs]).Pairwise (· ≤ ·)) (haccounts : accountsOf (recorded h) ⊆ accounts)
    (hcard : accounts.card ≤ maxAccountRings) : Kept h accounts nowMs (after h) := by
  induction h using List.reverseRecOn generalizing nowMs with
  | nil => exact Kept.new.mono (Nat.zero_le _)
  | append_singleton h c ih =>
    have hbefore : accountsOf (recorded h) ⊆ accounts := by
      refine subset_trans (fun uid huid => ?_) haccounts
      rw [accountsOf, List.mem_toFinset] at huid ⊢
      rw [recorded, List.filterMap_append, List.filterMap_append]
      exact List.mem_append_left _ huid
    have hafter : after (h ++ [c]) = Call.run (after h) c := by
      rw [after, List.foldl_append]
      rfl
    have hreadings : readings (h ++ [c]) = readings h ++ [c].filterMap Call.nowMs? := List.filterMap_append
    rw [hafter]
    rw [hreadings, List.append_assoc] at hclock
    cases c with
    | record e =>
      have hsplit : readings h ++ ([e.nowMs] ++ [nowMs]) = (readings h ++ [e.nowMs]) ++ [nowMs] :=
        (List.append_assoc _ _ _).symm
      obtain ⟨hclock, -, hle⟩ := List.pairwise_append.1 (hsplit ▸ hclock)
      refine ((ih hclock hbefore).record hcard fun uid huid => ?_).mono
        (hle _ (List.mem_append_right _ List.mem_cons_self) _ List.mem_cons_self)
      refine haccounts (List.mem_toFinset.2 (List.mem_filterMap.2 ⟨e, ?_, Owner.account?_eq_some_iff.2 huid⟩))
      rw [recorded, List.filterMap_append]
      exact List.mem_append_right _ List.mem_cons_self
    | snapshot sort snapshotMs sinceMs peerUid =>
      have hsplit : readings h ++ ([snapshotMs] ++ [nowMs]) = (readings h ++ [snapshotMs]) ++ [nowMs] :=
        (List.append_assoc _ _ _).symm
      obtain ⟨hclock, -, hle⟩ := List.pairwise_append.1 (hsplit ▸ hclock)
      exact ((ih hclock hbefore).snapshot sort sinceMs peerUid).mono
        (hle _ (List.mem_append_right _ List.mem_cons_self) _ List.mem_cons_self)
    | publishSupportContext capture cameras => exact (ih hclock hbefore).publish capture cameras

/-! ## What a snapshot reads -/

def ownerOf (x : Entry Kind × Nat) : Owner := x.1.owner

def kept (l : List (Entry Kind × Nat)) (cutoffMs : Nat) : List (Entry Kind × Nat) :=
  (held ownerOf maxShareSafeEvents l).filter (fresh cutoffMs)

def inWindow (nowMs sinceMs : Nat) (x : Entry Kind × Nat) : Bool := nowMs - x.1.nowMs ≤ window sinceMs

def readable (l : List (Entry Kind × Nat)) (nowMs sinceMs peerUid : Nat) : List (Entry Kind × Nat) :=
  ((kept l (nowMs - maxHistoryMs)).filter fun x => (ownerOf x).visibleTo peerUid).filter (inWindow nowMs sinceMs)

def shownAt (nowMs : Nat) (x : Entry Kind × Nat) : ShareSafeEvent Kind := x.1.shown nowMs (min x.2 u64Max)

theorem ringOf_eq (hl : Ordered l) (cutoffMs : Nat) (owner : Owner) :
    ringOf l cutoffMs owner = ((kept l cutoffMs).filter fun x => ownerOf x = owner).map stored := by
  have hheld := filter_held ownerOf maxShareSafeEvents l owner
  have hlasting : Lasting (fresh cutoffMs) (l.filter fun x => ownerOf x = owner) := (hl.filter _).lasting cutoffMs
  rw [kept, List.filter_comm, hheld, hlasting.filter_rtake]
  rfl

theorem flatMap_rings (v : Owner → Bool) :
    (rings.toList.filter fun entry => v entry.1).flatMap (·.2) =
      (rings.keys.filter v).flatMap fun owner => rings.getD owner [] := by
  rw [← ExtTreeMap.map_fst_toList_eq_keys, List.filter_map, List.flatMap_map]
  refine List.flatMap_congr fun entry hentry => ?_
  have hsome := ExtTreeMap.mem_toList_iff_getElem?_eq_some.1 (List.mem_filter.1 hentry).1
  rw [ExtTreeMap.getD_eq_getD_getElem?, hsome, Option.getD_some]

theorem flatMap_rings_perm (hl : Ordered l)
    (hrings : ∀ owner, rings.getD owner [] = ringOf l cutoffMs owner) (v : Owner → Bool) :
    ((rings.toList.filter fun entry => v entry.1).flatMap (·.2)).Perm
      (((kept l cutoffMs).filter fun x => v (ownerOf x)).map stored) := by
  have hkeys : ((kept l cutoffMs).filter fun x => ownerOf x ∈ rings.keys.filter v) =
      (kept l cutoffMs).filter fun x => v (ownerOf x) := by
    refine List.filter_congr fun x hx => ?_
    have hkey : ownerOf x ∈ rings := by
      by_contra hnot
      have hnil := hrings (ownerOf x)
      rw [ExtTreeMap.getD_eq_fallback hnot, ringOf_eq hl, eq_comm, List.map_eq_nil_iff, List.filter_eq_nil_iff] at hnil
      exact hnil x hx (decide_eq_true rfl)
    rw [Bool.eq_iff_iff, decide_eq_true_eq, List.mem_filter, ExtTreeMap.mem_keys, and_iff_right hkey]
  have hflat : ((rings.keys.filter v).flatMap fun owner => rings.getD owner []) =
      ((rings.keys.filter v).flatMap fun owner => (kept l cutoffMs).filter fun x => ownerOf x = owner).map stored := by
    rw [List.map_flatMap]
    refine List.flatMap_congr fun owner _ => ?_
    rw [hrings, ringOf_eq hl]
  rw [flatMap_rings, hflat, ← hkeys]
  exact (flatMap_filter_perm (rings.nodup_keys.filter v) ownerOf _).map stored

theorem merged_perm (hl : Ordered l)
    (hrings : ∀ owner, rings.getD owner [] = ringOf l (nowMs - maxHistoryMs) owner) (sinceMs peerUid : Nat) :
    (merged rings nowMs sinceMs peerUid).Perm ((readable l nowMs sinceMs peerUid).map (shownAt nowMs)) := by
  refine ((flatMap_rings_perm hl hrings fun owner => owner.visibleTo peerUid).filterMap _).trans (.of_eq ?_)
  rw [List.filterMap_map, readable]
  generalize (kept l (nowMs - maxHistoryMs)).filter (fun x => (ownerOf x).visibleTo peerUid) = visible
  induction visible with
  | nil => rfl
  | cons x visible ih =>
    by_cases hx : nowMs - x.1.nowMs ≤ window sinceMs
    · have hpos : inWindow nowMs sinceMs x = true := decide_eq_true hx
      rw [List.filter_cons_of_pos hpos, List.map_cons, ← ih]
      exact List.filterMap_cons_some (if_pos hx)
    · have hneg : ¬inWindow nowMs sinceMs x = true := fun h => hx (of_decide_eq_true h)
      rw [List.filter_cons_of_neg hneg, ← ih]
      exact List.filterMap_cons_none (if_neg hx)

theorem sequences_lt (hcount : (recorded h).length ≤ u64Max) (nowMs : Nat) :
    ((log h).map (shownAt nowMs)).Pairwise fun a b => a.sequence < b.sequence := by
  have hsnd : ((log h).map Prod.snd).Pairwise (· < ·) := by
    rw [log, List.zipIdx_map_snd]
    exact List.pairwise_lt_range'
  rw [List.pairwise_map] at hsnd ⊢
  refine hsnd.imp_of_mem fun {x y} _ hy hlt => ?_
  have hbound : y.2 < (recorded h).length + 1 := List.snd_lt_of_mem_zipIdx hy
  change min x.2 u64Max < min y.2 u64Max
  omega

theorem sort_eq (sort : SequenceSort Kind) {events ordered : List (ShareSafeEvent Kind)} (hperm : events.Perm ordered)
    (hordered : ordered.Pairwise fun a b => a.sequence < b.sequence) : sort.sort events = ordered := by
  have hnodup : (ordered.map (·.sequence)).Nodup := (List.pairwise_map.2 hordered).imp Nat.ne_of_lt
  have hsort : (sort.sort events).Perm ordered := (sort.perm events).trans hperm
  refine hsort.eq_of_pairwise (fun a b ha hb hab hba => ?_) (sort.sorted events) (hordered.imp Nat.le_of_lt)
  exact List.inj_on_of_nodup_map hnodup (hsort.mem_iff.1 ha) hb (Nat.le_antisymm hab hba)

theorem renumbered_map (l : List (Entry Kind × Nat)) (nowMs : Nat) :
    renumbered (l.map (shownAt nowMs)) = ((l.map Prod.fst).zipIdx 1).map fun (e, sequence) => e.shown nowMs sequence := by
  rw [renumbered, List.zipIdx_map, List.zipIdx_map, List.map_map, List.map_map]
  rfl

theorem map_fst_readable (l : List (Entry Kind)) (k nowMs sinceMs peerUid : Nat) :
    (readable (l.zipIdx k) nowMs sinceMs peerUid).map Prod.fst =
      (held Entry.owner maxShareSafeEvents (l.filter fun e => e.owner.visibleTo peerUid)).filter
        fun e => nowMs - e.nowMs ≤ window sinceMs := by
  have hfst : l = (l.zipIdx k).map Prod.fst := (List.zipIdx_map_fst k l).symm
  have hvisible : (l.filter fun e => e.owner.visibleTo peerUid) =
      ((l.zipIdx k).filter fun x => (ownerOf x).visibleTo peerUid).map Prod.fst := by
    conv_lhs => rw [hfst, List.filter_map]
    rfl
  have hheld := held_filter ownerOf maxShareSafeEvents (fun owner => owner.visibleTo peerUid) (l.zipIdx k)
  rw [hvisible, held_map, List.filter_map, readable, kept]
  congr 1
  rw [List.filter_filter, List.filter_filter]
  refine Eq.trans ?_ (congrArg (List.filter _) hheld.symm)
  rw [List.filter_filter]
  refine List.filter_congr fun x _ => ?_
  have hfresh : inWindow nowMs sinceMs x = true → fresh (nowMs - maxHistoryMs) x = true := by
    intro h
    have h : nowMs - x.1.nowMs ≤ min sinceMs maxHistoryMs := of_decide_eq_true h
    refine decide_eq_true ?_
    omega
  change _ = (inWindow nowMs sinceMs x && _)
  cases hx : inWindow nowMs sinceMs x with
  | false => simp
  | true => simp [hfresh hx]

/-- What a snapshot merges, cuts and renumbers is computed from the events the reader may see alone. -/
theorem snapshotFor_events
    {inner : Inner Kind Capture Camera} (hk : Kept h accounts nowMs inner) (hcount : (recorded h).length ≤ u64Max)
    (sort : SequenceSort Kind) (sinceMs : Nat) {p : Nat} (hp : p ≠ 0) :
    (snapshotFor inner sort nowMs sinceMs p).1.events = listed nowMs sinceMs (visible p h) := by
  have hordered : ((readable (log h) nowMs sinceMs p).map (shownAt nowMs)).Pairwise fun a b => a.sequence < b.sequence :=
    (sequences_lt hcount nowMs).sublist (.map _ ((List.filter_sublist.trans List.filter_sublist).trans
      (List.filter_sublist.trans (held_sublist _ _ _))))
  have hsort := sort_eq sort (merged_perm hk.ordered hk.pruneExpired.1 sinceMs p) hordered
  have hread := map_fst_readable (recorded h) 1 nowMs sinceMs p
  have hlisted : renumbered (((readable (log h) nowMs sinceMs p).map (shownAt nowMs)).rtake maxShareSafeEvents) =
      listed nowMs sinceMs (visible p h) := by
    rw [← map_rtake, renumbered_map, map_rtake, log, hread]
    rfl
  have hlength : (listed nowMs sinceMs (visible p h)).length ≤ maxShareSafeEvents := by
    rw [listed, List.length_map, List.length_zipIdx, List.rtake, List.length_drop]
    omega
  rw [snapshotFor]
  simp only [if_neg hp, SupportSnapshot.bounded, hsort, hlisted]
  exact rtake_of_length_le hlength

theorem snapshotFor_unavailable (inner : Inner Kind Capture Camera) (sort : SequenceSort Kind) (nowMs sinceMs : Nat)
    {p : Nat} (hp : p ≠ 0) : (snapshotFor inner sort nowMs sinceMs p).1.unavailable =
      [{ «section» := .recentEvents, reason := .notAuthorized }] := by
  rw [snapshotFor]
  simp only [if_neg hp]
  rfl

/-- **What others record does not show.** Two histories with the same events that a reader other than root may see,
whatever else they record, are read alike: the events listed are computed from the visible ones, and the unavailable
sections are the same. -/
theorem recent_events_of_visible {p : Nat} (hp : p ≠ 0) {h₁ h₂ : List (Call Kind Capture Camera)} {nowMs : Nat}
    (hfair₁ : Fair h₁ nowMs) (hfair₂ : Fair h₂ nowMs) (hcount₁ : (recorded h₁).length ≤ u64Max)
    (hcount₂ : (recorded h₂).length ≤ u64Max) (hvisible : visible p h₁ = visible p h₂) (sort₁ sort₂ : SequenceSort Kind)
    (sinceMs : Nat) :
    ((snapshotFor (after h₁) sort₁ nowMs sinceMs p).1.events = (snapshotFor (after h₂) sort₂ nowMs sinceMs p).1.events ∧
      (snapshotFor (after h₁) sort₁ nowMs sinceMs p).1.unavailable =
        (snapshotFor (after h₂) sort₂ nowMs sinceMs p).1.unavailable) ∧
    (snapshotFor (after h₁) sort₁ nowMs sinceMs p).1.events = listed nowMs sinceMs (visible p h₁) := by
  have hevents₁ := snapshotFor_events (kept_after hfair₁.clock subset_rfl hfair₁.accounts) hcount₁ sort₁ sinceMs hp
  have hevents₂ := snapshotFor_events (kept_after hfair₂.clock subset_rfl hfair₂.accounts) hcount₂ sort₂ sinceMs hp
  refine ⟨⟨?_, ?_⟩, hevents₁⟩
  · rw [hevents₁, hevents₂, hvisible]
  · rw [snapshotFor_unavailable _ _ _ _ hp, snapshotFor_unavailable _ _ _ _ hp]

/-! ## When the numbers are exhausted -/

section Exhausted

variable {l m : List (Entry Kind × Nat)} {cutoffMs : Nat} {owner : Owner}

theorem ringOf_append_left (h : ∀ x ∈ l, x.1.owner ≠ owner) : ringOf (l ++ m) cutoffMs owner = ringOf m cutoffMs owner := by
  have hnil : (l.filter fun x => x.1.owner = owner) = [] :=
    List.filter_eq_nil_iff.2 fun x hx => by simpa using h x hx
  rw [ringOf, List.filter_append, hnil, List.nil_append, ringOf]

theorem ringOf_append_right (h : ∀ x ∈ m, x.1.owner ≠ owner) :
    ringOf (l ++ m) cutoffMs owner = ringOf l cutoffMs owner := by
  have hnil : (m.filter fun x => x.1.owner = owner) = [] :=
    List.filter_eq_nil_iff.2 fun x hx => by simpa using h x hx
  rw [ringOf, List.filter_append, hnil, List.append_nil, ringOf]

theorem ringOf_exhausted {es : List (Entry Kind)} {k : Nat} (hk : u64Max ≤ k) :
    ringOf (es.zipIdx k) cutoffMs owner =
      (((es.filter fun e => e.owner = owner).filter fun e => cutoffMs ≤ e.nowMs).rtake maxShareSafeEvents).map
        fun e => e.timed u64Max := by
  have hstored : ((es.zipIdx k).filter fun x => x.1.owner = owner).filter (fresh cutoffMs) =
      (es.zipIdx k).filter (fun x => (fun e : Entry Kind => decide (cutoffMs ≤ e.nowMs) && decide (e.owner = owner)) x.1) :=
    List.filter_filter
  have hfst : ((es.filter fun e => e.owner = owner).filter fun e => cutoffMs ≤ e.nowMs) =
      ((es.zipIdx k).filter (fun x => (fun e : Entry Kind => decide (cutoffMs ≤ e.nowMs) && decide (e.owner = owner))
        x.1)).map Prod.fst := by
    rw [List.filter_filter]
    conv_lhs => rw [← List.zipIdx_map_fst k es, List.filter_map]
    rfl
  rw [ringOf, hstored, hfst, ← map_rtake, List.map_map]
  refine List.map_congr_left fun x hx => ?_
  have hx : x ∈ es.zipIdx k := (List.mem_filter.1 (List.mem_of_mem_drop hx)).1
  rw [stored, Nat.min_eq_right (hk.trans (List.le_snd_of_mem_zipIdx hx))]
  rfl

theorem rings_ext {rings rings' : Rings Kind} (h : ∀ owner : Owner, rings.getD owner [] = rings'.getD owner [])
    (hrings : ∀ owner : Owner, rings[owner]? ≠ some []) (hrings' : ∀ owner : Owner, rings'[owner]? ≠ some []) :
    rings = rings' := by
  refine ExtTreeMap.ext_getElem? fun owner => ?_
  have howner := h owner
  rw [ExtTreeMap.getD_eq_getD_getElem?, ExtTreeMap.getD_eq_getD_getElem?] at howner
  cases hget : rings[owner]? with
  | none =>
    cases hget' : rings'[owner]? with
    | none => rfl
    | some ring =>
      rw [hget, hget'] at howner
      exact absurd (hget'.trans (congrArg some howner.symm)) (hrings' owner)
  | some ring =>
    cases hget' : rings'[owner]? with
    | none =>
      rw [hget, hget'] at howner
      exact absurd (hget.trans (congrArg some howner)) (hrings owner)
    | some ring' =>
      rw [hget, hget'] at howner
      exact congrArg some howner

end Exhausted

section Samples

def SequenceSort.stable : SequenceSort Nat where
  sort events := events.mergeSort fun a b => a.sequence ≤ b.sequence
  perm events := List.mergeSort_perm events _
  sorted events := (List.pairwise_mergeSort (by simpa using fun _ _ _ => Nat.le_trans) (by simpa using fun _ _ => Nat.le_total _ _)
    events).imp of_decide_eq_true

def sampleEntry (owner : Owner) (kind : Nat) : Entry Nat :=
  { owner, nowMs := 0, operationId := Vector.replicate 16 7, operation := .status, kind }

/-- Calls of `record`, all at the same time. -/
def sampleCalls (entries : List (Entry Nat)) : List (Call Nat Unit Unit) := entries.map .record

def logins : List (Entry Nat) := [sampleEntry .daemon 0, sampleEntry (.account 1) 1, sampleEntry (.account 1000) 2]

theorem fair_logins : Fair (sampleCalls logins) 5 ∧ Fair (sampleCalls (logins.eraseIdx 1)) 5 :=
  ⟨⟨by decide, by decide⟩, ⟨by decide, by decide⟩⟩

theorem length_logins : (recorded (sampleCalls logins)).length = 3 ∧
    (recorded (sampleCalls (logins.eraseIdx 1))).length = 2 := ⟨rfl, rfl⟩

/-- uid 1000 reads its login and the daemon's events, whether or not another account logs in between. -/
theorem recent_events_of_visible_login :
    ((snapshotFor (after (sampleCalls logins)) .stable 5 1000 1000).1.events =
        (snapshotFor (after (sampleCalls (logins.eraseIdx 1))) .stable 5 1000 1000).1.events ∧
      (snapshotFor (after (sampleCalls logins)) .stable 5 1000 1000).1.unavailable =
        (snapshotFor (after (sampleCalls (logins.eraseIdx 1))) .stable 5 1000 1000).1.unavailable) ∧
    (snapshotFor (after (sampleCalls logins)) .stable 5 1000 1000).1.events =
      listed 5 1000 (visible 1000 (sampleCalls logins)) :=
  recent_events_of_visible (by decide) fair_logins.1 fair_logins.2 (length_logins.1 ▸ by decide)
    (length_logins.2 ▸ by decide) rfl .stable .stable 1000

def between : List (Entry Nat) := [sampleEntry .daemon 0, sampleEntry (.account 1000) 1, sampleEntry .daemon 2]

def last : List (Entry Nat) := [sampleEntry .daemon 0, sampleEntry .daemon 2, sampleEntry (.account 1000) 1]

def hidden (n : Nat) : List (Entry Nat) := List.replicate n (sampleEntry (.account 1) 0)

theorem recorded_sampleCalls (entries : List (Entry Nat)) : recorded (sampleCalls entries) = entries := by
  rw [recorded, sampleCalls, List.filterMap_map]
  exact List.filterMap_some

theorem visible_hidden (n : Nat) (entries : List (Entry Nat)) :
    visible 1000 (sampleCalls (hidden n ++ entries)) = visible 1000 (sampleCalls entries) := by
  rw [visible, visible, recorded_sampleCalls, recorded_sampleCalls, List.filter_append, hidden, List.filter_replicate,
    if_neg (by decide), List.nil_append]

theorem fair_sampleCalls {entries : List (Entry Nat)} (accounts : Finset Nat) (hcard : accounts.card ≤ maxAccountRings)
    (h : ∀ e ∈ entries, e.nowMs = 0 ∧ ∀ uid, e.owner = .account uid → uid ∈ accounts) :
    Fair (sampleCalls entries) 0 where
  clock := by
    have hzero : ∀ t ∈ readings (sampleCalls entries) ++ [0], t = 0 := by
      intro t ht
      rcases List.mem_append.1 ht with ht | ht
      · rw [readings, sampleCalls, List.filterMap_map] at ht
        obtain ⟨e, he, ht⟩ := List.mem_filterMap.1 ht
        exact (Option.some.inj ht).symm.trans (h e he).1
      · exact List.mem_singleton.1 ht
    exact List.pairwise_of_forall_mem_list fun a ha b hb => (hzero a ha).trans (hzero b hb).symm |>.le
  accounts := by
    refine (Finset.card_le_card fun uid huid => ?_).trans hcard
    rw [accountsOf, List.mem_toFinset, recorded_sampleCalls] at huid
    obtain ⟨e, he, huid⟩ := List.mem_filterMap.1 huid
    exact (h e he).2 uid (Owner.account?_eq_some_iff.1 huid)

theorem fair_hidden (n : Nat) {entries : List (Entry Nat)}
    (h : ∀ e ∈ entries, e.nowMs = 0 ∧ e.owner ∈ [.daemon, .account 1000]) :
    Fair (sampleCalls (hidden n ++ entries)) 0 := by
  refine fair_sampleCalls {1, 1000} (by decide) fun e he => ?_
  rcases List.mem_append.1 he with he | he
  · obtain rfl := List.eq_of_mem_replicate he
    refine ⟨rfl, fun uid huid => ?_⟩
    rw [← Owner.account.inj huid]
    decide
  · refine ⟨(h e he).1, fun uid huid => ?_⟩
    have howner := (h e he).2
    rw [huid] at howner
    simp at howner
    simp [howner]

theorem merged_exhausted {n : Nat} (hn : u64Max ≤ n) (sinceMs peerUid : Nat) :
    merged (pruneExpired (after (sampleCalls (hidden n ++ between))).rings 0) 0 sinceMs peerUid =
      merged (pruneExpired (after (sampleCalls (hidden n ++ last))).rings 0) 0 sinceMs peerUid := by
  have hkept : ∀ entries, Fair (sampleCalls (hidden n ++ entries)) 0 → ∀ owner,
      (pruneExpired (after (sampleCalls (hidden n ++ entries))).rings 0).getD owner [] =
        ringOf ((hidden n).zipIdx 1 ++ entries.zipIdx (1 + n)) 0 owner := fun entries hfair owner => by
    have hlog : log (sampleCalls (hidden n ++ entries)) = (hidden n).zipIdx 1 ++ entries.zipIdx (1 + n) := by
      rw [log, recorded_sampleCalls, List.zipIdx_append, hidden, List.length_replicate]
    rw [(kept_after hfair.clock subset_rfl hfair.accounts).pruneExpired.1 owner, hlog]
    rfl
  have hother : ∀ x ∈ (hidden n).zipIdx 1, x.1.owner = .account 1 := fun x hx =>
    congrArg Entry.owner (List.eq_of_mem_replicate (List.fst_mem_of_mem_zipIdx hx))
  have hfair : Fair (sampleCalls (hidden n ++ between)) 0 := fair_hidden n (by decide)
  have hfair' : Fair (sampleCalls (hidden n ++ last)) 0 := fair_hidden n (by decide)
  congr 1
  refine rings_ext (fun owner => ?_) (pruneExpired_ne_nil _ _) (pruneExpired_ne_nil _ _)
  rw [hkept between hfair, hkept last hfair']
  by_cases howner : owner = .account 1
  · have hnot : ∀ entries : List (Entry Nat), (∀ e ∈ entries, e.owner ≠ .account 1) →
        ∀ x ∈ entries.zipIdx (1 + n), x.1.owner ≠ owner := fun entries h x hx =>
      howner ▸ h x.1 (List.fst_mem_of_mem_zipIdx hx)
    rw [ringOf_append_right (hnot between (by decide)), ringOf_append_right (hnot last (by decide))]
  · have hnot : ∀ x ∈ (hidden n).zipIdx 1, x.1.owner ≠ owner := fun x hx h => howner (h ▸ hother x hx)
    rw [ringOf_append_left hnot, ringOf_append_left hnot, ringOf_exhausted (by omega), ringOf_exhausted (by omega)]
    cases owner with
    | daemon | unresolved => rfl
    | account uid => by_cases huid : 1000 = uid <;> simp [between, last, sampleEntry, huid]

theorem events_exhausted {n : Nat} (hn : u64Max ≤ n) (sort : SequenceSort Nat) (nowMs : Nat) (h : nowMs = 0) :
    (snapshotFor (after (sampleCalls (hidden n ++ between))) sort nowMs 0 1000).1.events =
      (snapshotFor (after (sampleCalls (hidden n ++ last))) sort nowMs 0 1000).1.events := by
  subst h
  rw [snapshotFor, snapshotFor, SupportSnapshot.bounded, SupportSnapshot.bounded]
  simp only [merged_exhausted hn]

/-- **What does show**: once as many events of others are recorded as there are numbers, the order in which the
daemon's events and the reader's came is lost, whatever way events of equal numbers are sorted. -/
theorem not_recent_events_of_visible :
    (Fair (sampleCalls (hidden u64Max ++ between)) 0 ∧ Fair (sampleCalls between) 0 ∧
      visible 1000 (sampleCalls (hidden u64Max ++ between)) = visible 1000 (sampleCalls between)) ∧
    (Fair (sampleCalls (hidden u64Max ++ last)) 0 ∧ Fair (sampleCalls last) 0 ∧
      visible 1000 (sampleCalls (hidden u64Max ++ last)) = visible 1000 (sampleCalls last)) ∧
    ¬∃ sort : SequenceSort Nat,
      (snapshotFor (after (sampleCalls (hidden u64Max ++ between))) sort 0 0 1000).1.events =
          (snapshotFor (after (sampleCalls between)) sort 0 0 1000).1.events ∧
        (snapshotFor (after (sampleCalls (hidden u64Max ++ last))) sort 0 0 1000).1.events =
          (snapshotFor (after (sampleCalls last)) sort 0 0 1000).1.events := by
  have hbetween : Fair (sampleCalls between) 0 := fair_hidden 0 (by decide)
  have hlast : Fair (sampleCalls last) 0 := fair_hidden 0 (by decide)
  refine ⟨⟨fair_hidden _ (by decide), hbetween, visible_hidden _ _⟩, ⟨fair_hidden _ (by decide), hlast, visible_hidden _ _⟩,
    ?_⟩
  rintro ⟨sort, h₁, h₂⟩
  have hsame : (snapshotFor (after (sampleCalls (hidden u64Max ++ between))) sort 0 0 1000).1.events =
      (snapshotFor (after (sampleCalls (hidden u64Max ++ last))) sort 0 0 1000).1.events :=
    events_exhausted le_rfl sort 0 rfl
  have hlisted := h₁.symm.trans (hsame.trans h₂)
  rw [snapshotFor_events (kept_after hbetween.clock subset_rfl hbetween.accounts) (by decide) sort 0 (by decide),
    snapshotFor_events (kept_after hlast.clock subset_rfl hlast.accounts) (by decide) sort 0 (by decide)] at hlisted
  exact absurd hlisted (by decide)

end Samples

end Irlume.Diagnostics

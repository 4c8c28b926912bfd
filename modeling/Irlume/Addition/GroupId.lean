import Irlume.Addition.Publish

/-!
# Derived group ids

`derive_group_id` tries `cam-<stem>`, `cam-<stem>-2`, `cam-<stem>-3` and so on. Its counter is an `i32`, an
integer with no type given, so the last id tried is `cam-<stem>-2147483646`.
-/

namespace Irlume.Addition

open Irlume.Lib Irlume.Cameras

def i32Max : Nat := 2 ^ 31 - 1

/-- The loop of `derive_group_id`; `none` when `suffix += 1` overflows. -/
def searchId (taken : List Text) (stem : Text) (suffix : Nat) (candidate : Text) : Option Text :=
  if candidate ∈ taken then
    if suffix + 1 ≤ i32Max then
      searchId taken stem (suffix + 1) ("cam-" ++ stem ++ "-" ++ decimal suffix)
    else none
  else some candidate
termination_by i32Max - suffix

/-- `derive_group_id` with its counter; `none` is the overflow, a panic where overflows are checked. -/
def deriveGroupIdCounted {Scan Calib : Type} (store : SecondaryStore Scan Calib) (rgb ir : Option Text) :
    Option CameraGroupId :=
  let stem := idStem rgb ir
  (searchId (store.groups.map fun g => g.id.text) stem 2 ("cam-" ++ stem)).bind fun id =>
    (newGroupId id).toOption

/-- The `k`th id the search tries. -/
def nthId (rgb ir : Option Text) : Nat → Text := candidate (idStem rgb ir) 2 ("cam-" ++ idStem rgb ir)

/-! ## The search -/

section

variable {taken : List Text} {stem first id : Text} {suffix : Nat}

theorem searchId_some (h : searchId taken stem suffix first = some id) :
    id ∉ taken ∧ ∃ k, (k = 0 ∨ suffix + k ≤ i32Max) ∧ id = candidate stem suffix first k := by
  induction suffix, first using searchId.induct taken stem with
  | case1 suffix first htaken hfits ih =>
    rw [searchId, if_pos htaken, if_pos hfits] at h
    obtain ⟨hfree, k, hk, rfl⟩ := ih h
    refine ⟨hfree, k + 1, .inr (by omega), ?_⟩
    cases k with
    | zero => rfl
    | succ k => simp only [candidate, show suffix + (k + 1) = suffix + 1 + k by omega]
  | case2 suffix first htaken hfits =>
    rw [searchId, if_pos htaken, if_neg hfits] at h
    cases h
  | case3 suffix first hfree =>
    rw [searchId, if_neg hfree] at h
    cases h
    exact ⟨hfree, 0, .inl rfl, rfl⟩

/-- The counter overflows where every id it has a number for is taken. -/
theorem searchId_none_iff (hsuffix : suffix ≤ i32Max) :
    searchId taken stem suffix first = none ↔
      ∀ k ≤ i32Max - suffix, candidate stem suffix first k ∈ taken := by
  induction suffix, first using searchId.induct taken stem with
  | case1 suffix first htaken hfits ih =>
    rw [searchId, if_pos htaken, if_pos hfits, ih hfits]
    have hnext : ∀ k, candidate stem (suffix + 1) ("cam-" ++ stem ++ "-" ++ decimal suffix) k =
        candidate stem suffix first (k + 1) := by
      intro k
      cases k with
      | zero => rfl
      | succ k => simp only [candidate, show suffix + (k + 1) = suffix + 1 + k by omega]
    constructor
    · intro hall k hk
      cases k with
      | zero => exact htaken
      | succ k => exact hnext k ▸ hall k (by omega)
    · intro hall k hk
      exact hnext k ▸ hall (k + 1) (by omega)
  | case2 suffix first htaken hfits =>
    rw [searchId, if_pos htaken, if_neg hfits]
    refine iff_of_true rfl fun k hk => ?_
    obtain rfl : k = 0 := by omega
    exact htaken
  | case3 suffix first hfree =>
    rw [searchId, if_neg hfree]
    exact iff_of_false (Option.some_ne_none _) fun hall => hfree (hall 0 (Nat.zero_le _))

/-- The search with enough steps for the store comes to the same id. -/
theorem searchId_eq_freeId {fuel : Nat} (h : searchId taken stem suffix first = some id)
    (hfree : freeId taken stem fuel suffix first ∉ taken) : freeId taken stem fuel suffix first = id := by
  induction suffix, first using searchId.induct taken stem generalizing fuel with
  | case1 suffix first htaken hfits ih =>
    rw [searchId, if_pos htaken, if_pos hfits] at h
    cases fuel with
    | zero => exact absurd htaken hfree
    | succ fuel =>
      rw [freeId, if_pos htaken] at hfree ⊢
      exact ih h hfree
  | case2 suffix first htaken hfits =>
    rw [searchId, if_pos htaken, if_neg hfits] at h
    cases h
  | case3 suffix first hnot =>
    rw [searchId, if_neg hnot] at h
    cases fuel with
    | zero => exact Option.some.inj h
    | succ fuel =>
      rw [freeId, if_neg hnot]
      exact Option.some.inj h

end

/-! ## The length of an id -/

theorem byteLength_pos {t : Text} (h : t ≠ []) : 0 < byteLength t := by
  obtain ⟨c, t, rfl⟩ := List.exists_cons_of_ne_nil h
  rw [byteLength, bytes_cons, List.length_append, String.length_utf8EncodeChar]
  exact Nat.add_pos_left c.utf8Size_pos _

theorem idChar_ascii (c : Char) :
    (if isAsciiAlphanumeric c then c.toLower else '-').toNat < 128 := by
  have hlower : ∀ n : Fin 128, (Char.ofNat n).toLower.toNat < 128 := by decide
  split
  · next h =>
    rw [isAsciiAlphanumeric, Bool.and_eq_true, decide_eq_true_eq] at h
    simpa only [Char.ofNat_toNat] using hlower ⟨c.toNat, h.1⟩
  · decide

theorem idStem_ascii {rgb ir : Option Text} {c : Char} (hc : c ∈ idStem rgb ir) : c.toNat < 128 := by
  unfold idStem at hc
  dsimp only at hc
  split at hc
  · exact (by simp : ∀ c ∈ ("camera" : Text), c.toNat < 128) c hc
  · obtain ⟨d, -, rfl⟩ := List.mem_map.1 (List.mem_of_mem_take
      ((List.dropWhile_sublist _).subset ((List.rdropWhile_prefix _ _).subset hc)))
    exact idChar_ascii d

theorem length_idStem_le (rgb ir : Option Text) : (idStem rgb ir).length ≤ maxIdBytes - 16 := by
  unfold idStem
  dsimp only
  split
  · decide
  · exact ((List.rdropWhile_prefix _ _).length_le.trans (List.dropWhile_sublist _).length_le).trans
      (List.length_take_le ..)

/-- The sixteen bytes kept back are enough for the prefix and every suffix of an `i32`. -/
theorem byteLength_nthId_le {rgb ir : Option Text} {k : Nat} (hk : k + 1 ≤ i32Max) :
    byteLength (nthId rgb ir k) ≤ maxIdBytes := by
  have hstem := length_idStem_le rgb ir
  have hascii : byteLength (idStem rgb ir) = (idStem rgb ir).length := byteLength_ascii fun _ => idStem_ascii
  have hprefix : byteLength "cam-" = 4 := by decide
  have hdash : byteLength "-" = 1 := by decide
  have hroom : maxIdBytes - 16 = 240 ∧ maxIdBytes = 256 := by decide
  cases k with
  | zero =>
    rw [nthId, candidate, byteLength_append, hprefix, hascii]
    omega
  | succ k =>
    have hdigits : byteLength (decimal (2 + k)) ≤ 10 := by
      rw [byteLength_ascii fun c hc => ?_, decimal_eq, Nat.length_toDigits_le_iff (by decide) (by decide)]
      · have hmax : i32Max < 10 ^ 10 := by decide
        omega
      · have hdigit := decimal_isDigit hc
        simp only [Char.isDigit, Bool.and_eq_true, decide_eq_true_eq] at hdigit
        exact Nat.lt_of_le_of_lt hdigit.2 (by decide)
    rw [nthId, candidate, byteLength_append, byteLength_append, byteLength_append, hprefix, hdash, hascii]
    omega

theorem nthId_ne_nil (rgb ir : Option Text) (k : Nat) : nthId rgb ir k ≠ [] := by
  cases k <;> simp [nthId, candidate]

/-! ## The derived id -/

section

variable {Scan Calib : Type} {store : SecondaryStore Scan Calib} {rgb ir : Option Text}

theorem deriveGroupIdCounted_eq {id : CameraGroupId} (h : deriveGroupIdCounted store rgb ir = some id) :
    id.text = deriveGroupId store rgb ir := by
  obtain ⟨text, hsearch, hnew⟩ := Option.bind_eq_some_iff.1 h
  have hfree : deriveGroupId store rgb ir ∉ store.groups.map fun g => g.id.text := by
    intro hmem
    obtain ⟨g, hg, heq⟩ := List.mem_map.1 hmem
    exact deriveGroupId_free store rgb ir g hg heq
  unfold newGroupId at hnew
  split at hnew
  · cases hnew
    exact (searchId_eq_freeId hsearch hfree).symm
  · cases hnew

theorem deriveGroupIdCounted_none_iff : deriveGroupIdCounted store rgb ir = none ↔
    ∀ k ≤ i32Max - 2, nthId rgb ir k ∈ store.groups.map fun g => g.id.text := by
  rw [deriveGroupIdCounted]
  refine Iff.trans ?_ (searchId_none_iff (by decide))
  constructor
  · intro hnone
    cases hsearch : searchId (store.groups.map fun g => g.id.text) (idStem rgb ir) 2 ("cam-" ++ idStem rgb ir) with
    | none => rfl
    | some text =>
      obtain ⟨-, k, hk, htext⟩ := searchId_some hsearch
      have hmax : 2 < i32Max := by decide
      have hok : text ≠ [] ∧ byteLength text ≤ maxIdBytes :=
        htext ▸ ⟨nthId_ne_nil rgb ir k, byteLength_nthId_le (by omega)⟩
      simp only [hsearch, Option.bind_some, newGroupId, dif_pos hok] at hnone
      cases hnone
  · intro hsearch
    simp only [hsearch, Option.bind_none]

/-- A derived id is no group's, and its counter overflows only when each of the 2147483646 ids it has a
number for is some group's. -/
theorem deriveGroupIdCounted_exact (store : SecondaryStore Scan Calib) (rgb ir : Option Text) :
    (∀ id, deriveGroupIdCounted store rgb ir = some id →
      id.text = deriveGroupId store rgb ir ∧ 0 < byteLength id.text ∧ byteLength id.text ≤ maxIdBytes ∧
        ∀ g ∈ store.groups, g.id ≠ id) ∧
    (deriveGroupIdCounted store rgb ir = none ↔
      ∀ k < 2147483646, nthId rgb ir k ∈ store.groups.map fun g => g.id.text) ∧
    (deriveGroupIdCounted store rgb ir = none → 2147483646 ≤ store.groups.length) := by
  have hnone : deriveGroupIdCounted store rgb ir = none ↔
      ∀ k < 2147483646, nthId rgb ir k ∈ store.groups.map fun g => g.id.text := by
    rw [deriveGroupIdCounted_none_iff]
    have hmax : i32Max - 2 + 1 = 2147483646 := by decide
    exact forall_congr' fun k => imp_congr_left (by omega)
  refine ⟨fun id h => ⟨deriveGroupIdCounted_eq h, byteLength_pos id.nonempty, id.bounded, fun g hg heq => ?_⟩,
    hnone, fun h => ?_⟩
  · exact deriveGroupId_free store rgb ir g hg (heq ▸ deriveGroupIdCounted_eq h)
  have hnodup : ((List.range 2147483646).map (nthId rgb ir)).Nodup :=
    List.Nodup.map (candidate_injective _) List.nodup_range
  have hsub : (List.range 2147483646).map (nthId rgb ir) ⊆ store.groups.map fun g => g.id.text := by
    intro id hid
    obtain ⟨k, hk, rfl⟩ := List.mem_map.1 hid
    exact hnone.1 h k (List.mem_range.1 hk)
  have hlength := (List.subperm_of_subset hnodup hsub).length_le
  rwa [List.length_map, List.length_range, List.length_map] at hlength

end

/-- A store with a group for every id the search has a number for. -/
def crowdedStore : SecondaryStore Unit Unit where
  formatVersion := 1
  owner := "alice"
  generation := 1
  primarySnapshotSha256 := []
  groups := (List.range 2147483646).pmap (fun k hk => {
    id := ⟨nthId none none k, nthId_ne_nil none none k, byteLength_nthId_le hk⟩
    pair := .ordinary none none
    profiles := [] }) fun k hk => Nat.lt_of_lt_of_le (List.mem_range.1 hk) (by decide)

/-- A store with every id the counter comes to. -/
theorem not_deriveGroupIdCounted_crowded : crowdedStore.groups.length = 2147483646 ∧
    crowdedStore.groups.length < 10 ^ 10 ∧ deriveGroupIdCounted crowdedStore none none = none := by
  have hlength : crowdedStore.groups.length = 2147483646 := by
    rw [crowdedStore, List.length_pmap, List.length_range]
  refine ⟨hlength, by rw [hlength]; decide, ?_⟩
  refine deriveGroupIdCounted_none_iff.2 fun k hk => ?_
  have hmax : i32Max - 2 < 2147483646 := by decide
  rw [crowdedStore, List.map_pmap]
  exact List.mem_pmap.2 ⟨k, List.mem_range.2 (by omega), rfl⟩

end Irlume.Addition

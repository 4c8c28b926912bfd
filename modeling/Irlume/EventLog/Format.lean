import Irlume.EventLog.Pcr7
import Mathlib.Data.List.Nodup
import Mathlib.Data.List.Perm.Subperm
import Mathlib.Data.Nat.Bitwise

/-!
# The format of the event log

A log is written as a header and one event after the other. `events` takes exactly what is written so: each part
is read where it is written and nowhere else.
-/

namespace Irlume.EventLog

open Irlume.Lib Irlume.Lib.Reader

/-! ## What is written -/

/-- A Spec ID event. -/
structure Header where
  platformClass : Vector UInt8 4
  minor : UInt8
  major : UInt8
  errata : UInt8
  uintnSize : UInt8
  algorithms : List (UInt16 × UInt16)
  vendorInfo : List UInt8
  version : 2 ≤ major
  uintn : uintnSize = 1 ∨ uintnSize = 2
  nonempty : algorithms ≠ []
  length_le : algorithms.length ≤ 64
  distinct : (algorithms.map Prod.fst).Nodup
  vendor : vendorInfo.length < 256

namespace Header

def sizes (h : Header) : List (UInt16 × Nat) := h.algorithms.map fun e => (e.1, e.2.toNat)

def spec (h : Header) : List UInt8 :=
  specIdEvent03 ++ h.platformClass.toList ++ [h.minor, h.major, h.errata, h.uintnSize] ++
    bytes32 (UInt32.ofNat h.algorithms.length) ++ h.algorithms.flatMap (fun e => bytes16 e.1 ++ bytes16 e.2) ++
    UInt8.ofNat h.vendorInfo.length :: h.vendorInfo

def bytes (h : Header) : List UInt8 :=
  bytes32 0 ++ bytes32 evNoAction ++ List.replicate 20 0 ++ bytes32 (UInt32.ofNat h.spec.length) ++ h.spec

end Header

/-- An event with a digest of each algorithm, in any order. -/
structure Entry (sizes : List (UInt16 × Nat)) where
  pcr : UInt32
  kind : UInt32
  digests : List (UInt16 × List UInt8)
  data : List UInt8
  each : (digests.map Prod.fst).Perm (sizes.map Prod.fst)
  sized : ∀ e ∈ digests, (e.1, e.2.length) ∈ sizes
  length_lt : data.length < 2 ^ 32

namespace Entry

variable {sizes : List (UInt16 × Nat)}

def bytes (x : Entry sizes) : List UInt8 :=
  bytes32 x.pcr ++ bytes32 x.kind ++ bytes32 (UInt32.ofNat x.digests.length) ++
    x.digests.flatMap (fun e => bytes16 e.1 ++ e.2) ++ bytes32 (UInt32.ofNat x.data.length) ++ x.data

/-- What is read of an event: its SHA-256 digest is one of 32 bytes. -/
def event (x : Entry sizes) : Event where
  pcr := x.pcr
  kind := x.kind
  sha256 := if (tpmAlgSha256, 32) ∈ sizes then x.digests.lookup tpmAlgSha256 else none
  data := x.data

end Entry

/-- A log of at most as many events as are read. -/
structure Log where
  header : Header
  entries : List (Entry header.sizes)
  length_le : entries.length ≤ maxEvents

def Log.bytes (l : Log) : List UInt8 := l.header.bytes ++ l.entries.flatMap Entry.bytes

def Log.events (l : Log) : List Event := l.entries.map Entry.event

variable {bs rest : List UInt8} {sizes : List (UInt16 × Nat)}

/-! ## The table of algorithms -/

variable {n : Nat}

theorem algorithms_succ_eq_some_iff {out : List (UInt16 × Nat)} :
    algorithms (n + 1) sizes bs = some (out, rest) ↔ ∃ id size mid, bs = bytes16 id ++ (bytes16 size ++ mid) ∧
      id ∉ sizes.map Prod.fst ∧ algorithms n (sizes ++ [(id, size.toNat)]) mid = some (out, rest) := by
  have hfresh : ∀ id : UInt16, ¬ (sizes.any fun e => decide (e.1 = id)) = true ↔ id ∉ sizes.map Prod.fst := by
    intro id
    simp
  conv_lhs => rw [algorithms]
  simp only [bind_eq_some_iff, u16_eq_some_iff, unless_eq_some_iff, hfresh]
  constructor
  · rintro ⟨id, _, rfl, size, mid, rfl, hid, hrest⟩
    exact ⟨id, size, mid, rfl, hid, hrest⟩
  · rintro ⟨id, size, mid, rfl, hid, hrest⟩
    exact ⟨id, _, rfl, size, mid, rfl, hid, hrest⟩

theorem algorithms_eq_some_iff {out : List (UInt16 × Nat)} :
    algorithms n sizes bs = some (out, rest) ↔ ∃ table : List (UInt16 × UInt16), table.length = n ∧
      (table.map Prod.fst).Nodup ∧ (∀ id ∈ table.map Prod.fst, id ∉ sizes.map Prod.fst) ∧
      out = sizes ++ table.map (fun e => (e.1, e.2.toNat)) ∧
      bs = table.flatMap (fun e => bytes16 e.1 ++ bytes16 e.2) ++ rest := by
  induction n generalizing sizes bs with
  | zero =>
    unfold algorithms
    rw [pure_eq_some_iff]
    constructor
    · rintro ⟨rfl, rfl⟩
      exact ⟨[], rfl, List.nodup_nil, nofun, (List.append_nil _).symm, rfl⟩
    · rintro ⟨table, hlength, -, -, rfl, rfl⟩
      obtain rfl := List.length_eq_zero_iff.1 hlength
      exact ⟨(List.append_nil _).symm, rfl⟩
  | succ n ih =>
    rw [algorithms_succ_eq_some_iff]
    simp only [ih]
    constructor
    · rintro ⟨id, size, _, rfl, hid, table, rfl, hdistinct, hfresh, rfl, rfl⟩
      refine ⟨(id, size) :: table, rfl, ?_, ?_, by simp, by simp⟩
      · rw [List.map_cons, List.nodup_cons]
        exact ⟨fun hmem => hfresh id hmem (by simp), hdistinct⟩
      · rw [List.map_cons, List.forall_mem_cons]
        exact ⟨hid, fun other hmem hin => hfresh other hmem (by rw [List.map_append]; exact List.mem_append_left _ hin)⟩
    · rintro ⟨table, hlength, hdistinct, hfresh, rfl, rfl⟩
      obtain ⟨⟨id, size⟩, table, rfl⟩ := List.exists_cons_of_length_eq_add_one hlength
      rw [List.map_cons, List.nodup_cons] at hdistinct
      rw [List.map_cons, List.forall_mem_cons] at hfresh
      refine ⟨id, size, _, by simp, hfresh.1, table, Nat.succ.inj hlength, hdistinct.2, ?_, by simp, rfl⟩
      intro other hmem hin
      rw [List.map_append, List.mem_append] at hin
      rcases hin with hin | hin
      · exact hfresh.2 other hmem hin
      · obtain rfl := List.mem_singleton.1 hin
        exact hdistinct.1 hmem

/-! ## The header -/

theorem length_four {l : List UInt8} (h : l.length = 4) : ∃ a b c d, l = [a, b, c, d] := by
  match l, h with
  | [a, b, c, d], _ => exact ⟨a, b, c, d, rfl⟩

theorem specId_sound (h : specId bs = some (sizes, rest)) : ∃ x : Header, x.sizes = sizes ∧ bs = x.spec ++ rest := by
  unfold specId at h
  simp only [bind_eq_some_iff, take_eq_some_iff, unless_eq_some_iff] at h
  obtain ⟨signature, _, ⟨-, rfl⟩, hsignature, platform, _, ⟨hplatform, rfl⟩, version, _, ⟨hversion, rfl⟩, h⟩ := h
  obtain ⟨minor, major, errata, uintnSize, rfl⟩ := length_four hversion
  dsimp only at h
  simp only [bind_eq_some_iff, unless_eq_some_iff, u32_eq_some_iff, algorithms_eq_some_iff, take_eq_some_iff] at h
  obtain ⟨hchecked, count, _, rfl, hcount, _, _, ⟨table, hlength, hdistinct, -, rfl, rfl⟩, one, _, ⟨hone, rfl⟩, h⟩ := h
  obtain ⟨vendorSize, rfl⟩ := List.length_eq_one_iff.1 hone
  simp only [bind_eq_some_iff, take_eq_some_iff, pure_eq_some_iff] at h
  obtain ⟨vendorInfo, _, ⟨hvendor, rfl⟩, hsizes, rfl⟩ := h
  rw [not_or, UInt8.not_lt, not_not] at hchecked
  rw [not_or, UInt32.not_lt] at hcount
  have hpositive : table ≠ [] := by
    rintro rfl
    exact hcount.1 (UInt32.toNat_inj.1 hlength.symm)
  have hfew : table.length ≤ 64 := by
    rw [hlength]
    exact hcount.2
  have hplatform4 : platform.toArray.size = 4 := hplatform
  refine ⟨⟨⟨platform.toArray, hplatform4⟩, minor, major, errata, uintnSize, table, vendorInfo, hchecked.1, hchecked.2,
    hpositive, hfew, hdistinct, ?_⟩, hsizes, ?_⟩
  · rw [hvendor]
    exact vendorSize.toNat_lt
  · have hcounted : UInt32.ofNat table.length = count := by rw [hlength, UInt32.ofNat_toNat]
    have hsized : UInt8.ofNat vendorInfo.length = vendorSize := by rw [hvendor, UInt8.ofNat_toNat]
    unfold Header.spec
    dsimp only
    rw [hcounted, hsized, not_not.1 hsignature]
    simp

theorem specId_complete (x : Header) : specId (x.spec ++ rest) = some (x.sizes, rest) := by
  have hparts : x.spec ++ rest = specIdEvent03 ++ (x.platformClass.toList ++
      ([x.minor, x.major, x.errata, x.uintnSize] ++ (bytes32 (UInt32.ofNat x.algorithms.length) ++
        (x.algorithms.flatMap (fun e => bytes16 e.1 ++ bytes16 e.2) ++
          ([UInt8.ofNat x.vendorInfo.length] ++ (x.vendorInfo ++ rest)))))) := by
    unfold Header.spec
    simp
  have hfew := x.length_le
  have hcount : (UInt32.ofNat x.algorithms.length).toNat = x.algorithms.length :=
    UInt32.toNat_ofNat_of_lt' (Nat.lt_of_le_of_lt hfew (by decide))
  have hvendor : (UInt8.ofNat x.vendorInfo.length).toNat = x.vendorInfo.length := UInt8.toNat_ofNat_of_lt' x.vendor
  have hchecked : ¬ (x.major < 2 ∨ ¬ (x.uintnSize = 1 ∨ x.uintnSize = 2)) := by
    rw [not_or, UInt8.not_lt, not_not]
    exact ⟨x.version, x.uintn⟩
  have hcounted : ¬ (UInt32.ofNat x.algorithms.length = 0 ∨ maxAlgorithms < UInt32.ofNat x.algorithms.length) := by
    rw [not_or, UInt32.not_lt, UInt32.le_iff_toNat_le, hcount]
    refine ⟨fun hzero => x.nonempty ?_, hfew⟩
    have hlength := congrArg UInt32.toNat hzero
    rw [hcount] at hlength
    exact List.length_eq_zero_iff.1 hlength
  rw [hparts]
  unfold specId
  simp only [bind_eq_some_iff, take_eq_some_iff, unless_eq_some_iff]
  refine ⟨specIdEvent03, _, ⟨rfl, rfl⟩, not_not.2 rfl, _, _, ⟨Vector.length_toList, rfl⟩, _, _, ⟨rfl, rfl⟩, ?_⟩
  simp only [bind_eq_some_iff, unless_eq_some_iff, u32_eq_some_iff, algorithms_eq_some_iff, take_eq_some_iff]
  refine ⟨hchecked, _, _, rfl, hcounted, x.sizes, _, ⟨x.algorithms, hcount.symm, x.distinct, nofun, rfl, rfl⟩, _, _,
    ⟨rfl, rfl⟩, ?_⟩
  simp only [bind_eq_some_iff, take_eq_some_iff, pure_eq_some_iff, true_and]
  exact ⟨x.vendorInfo, rest, ⟨hvendor.symm, rfl⟩, rfl⟩

@[simp]
theorem length_bytes16 {v : UInt16} : (bytes16 v).length = 2 := length_lowBytes

@[simp]
theorem length_bytes32 {v : UInt32} : (bytes32 v).length = 4 := length_lowBytes

theorem length_spec_lt (x : Header) : x.spec.length < 2 ^ 32 := by
  have hfew := x.length_le
  have hvendor := x.vendor
  have hsignature : specIdEvent03.length = 16 := rfl
  unfold Header.spec
  simp only [List.length_append, List.length_cons, List.length_nil, List.length_flatMap, length_bytes16, length_bytes32,
    Vector.length_toList, hsignature, List.map_const', List.sum_replicate_nat]
  omega

theorem replicate_of_not_any {l : List UInt8} (hlength : l.length = n)
    (h : ¬ l.any (· ≠ 0) = true) :
    l = List.replicate n 0 := by
  refine List.eq_replicate_iff.2 ⟨hlength, fun b hb => ?_⟩
  by_contra hne
  exact h (List.any_eq_true.2 ⟨b, hb, decide_eq_true hne⟩)

/-- **The header** is read exactly where it is written. -/
theorem specIdEvent_eq_some_iff :
    specIdEvent bs = some (sizes, rest) ↔ ∃ x : Header, x.sizes = sizes ∧ bs = x.bytes ++ rest := by
  unfold specIdEvent
  simp only [bind_eq_some_iff, take_eq_some_iff, unless_eq_some_iff, u32_eq_some_iff]
  constructor
  · rintro ⟨pcr, _, rfl, kind, _, rfl, digest, _, ⟨hdigest, rfl⟩, size, _, rfl, spec, mid, ⟨hspec, rfl⟩, hfixed, h⟩
    rw [not_or, not_or, not_not, not_not] at hfixed
    obtain ⟨rfl, rfl, hzero⟩ := hfixed
    cases hparse : parseAll specId spec with
    | none =>
      rw [hparse] at h
      cases h
    | some out =>
      rw [hparse] at h
      obtain ⟨rfl, rfl⟩ := pure_eq_some_iff.1 h
      obtain ⟨x, rfl, rfl⟩ := specId_sound (parseAll_eq_some_iff.1 hparse)
      rw [List.append_nil] at hspec
      have hsize : UInt32.ofNat x.spec.length = size := by rw [hspec, UInt32.ofNat_toNat]
      refine ⟨x, rfl, ?_⟩
      unfold Header.bytes
      rw [hsize, replicate_of_not_any hdigest hzero]
      simp
  · rintro ⟨x, rfl, rfl⟩
    have hsize : (UInt32.ofNat x.spec.length).toNat = x.spec.length := UInt32.toNat_ofNat_of_lt' (length_spec_lt x)
    have hparse : parseAll specId x.spec = some x.sizes := by
      have hread : specId (x.spec ++ []) = some (x.sizes, []) := specId_complete x
      rw [List.append_nil] at hread
      exact parseAll_eq_some_iff.2 hread
    refine ⟨0, _, ?_, evNoAction, _, rfl, List.replicate 20 0, _, ⟨rfl, rfl⟩, UInt32.ofNat x.spec.length, _, rfl, x.spec, rest,
      ⟨hsize.symm, rfl⟩, ?_, ?_⟩
    · unfold Header.bytes
      simp only [List.append_assoc]
    · simp
    · rw [hparse]
      exact pure_eq_some_iff.2 ⟨rfl, rfl⟩

/-! ## The mask -/

def Marks (sizes : List (UInt16 × Nat)) (seen : UInt64) (ids : List UInt16) : Prop :=
  ∀ i id size, sizes[i]? = some (id, size) → (seen.toNat.testBit i = true ↔ id ∈ ids)

theorem marks_nil : Marks sizes 0 [] := by
  intro i id size _
  simp

theorem toNat_bit {i : Nat} (hi : i < 64) : ((1 : UInt64) <<< i.toUInt64).toNat = 2 ^ i := by
  have hindex : i.toUInt64.toNat = i := UInt64.toNat_ofNat_of_lt' (Nat.lt_of_lt_of_le hi (by decide))
  have hpow : 2 ^ i < 2 ^ 64 := Nat.pow_lt_pow_right (by decide) hi
  rw [UInt64.toNat_shiftLeft, hindex, Nat.mod_eq_of_lt hi, UInt64.toNat_one, Nat.one_shiftLeft, Nat.mod_eq_of_lt hpow]

variable {seen : UInt64}

theorem and_bit_eq_zero_iff {i : Nat} (hi : i < 64) :
    seen &&& (1 <<< i.toUInt64) = 0 ↔ ¬ seen.toNat.testBit i = true := by
  rw [← UInt64.toNat_inj, UInt64.toNat_and, toNat_bit hi, Nat.and_two_pow, UInt64.toNat_zero]
  cases seen.toNat.testBit i with
  | false => simp
  | true => simp

theorem index_eq_iff {i j size size' : Nat} {id id' : UInt16} (hdistinct : (sizes.map Prod.fst).Nodup)
    (hi : sizes[i]? = some (id, size)) (hj : sizes[j]? = some (id', size')) : i = j ↔ id = id' := by
  have hlt : i < (sizes.map Prod.fst).length := by
    rw [List.length_map]
    exact (List.getElem?_eq_some_iff.1 hi).1
  rw [← List.getElem?_inj hlt hdistinct, List.getElem?_map, List.getElem?_map, hi, hj, Option.map_some, Option.map_some,
    Option.some.injEq]

variable {id : UInt16}

theorem Marks.insert {ids : List UInt16} {i size : Nat} (h : Marks sizes seen ids)
    (hdistinct : (sizes.map Prod.fst).Nodup) (hfew : sizes.length ≤ 64) (hi : sizes[i]? = some (id, size)) :
    Marks sizes (seen ||| (1 <<< i.toUInt64)) (id :: ids) := by
  intro j id' size' hj
  have hlt : i < sizes.length := (List.getElem?_eq_some_iff.1 hi).1
  rw [UInt64.toNat_or, toNat_bit (by omega), Nat.testBit_or, Nat.testBit_two_pow, Bool.or_eq_true, decide_eq_true_iff,
    h j id' size' hj, List.mem_cons, or_comm, index_eq_iff hdistinct hi hj, eq_comm]

theorem findIdx?_eq_some_iff {i : Nat} (hdistinct : (sizes.map Prod.fst).Nodup) :
    sizes.findIdx? (fun e => e.1 = id) = some i ↔ ∃ size, sizes[i]? = some (id, size) := by
  rw [List.findIdx?_eq_some_iff_getElem]
  constructor
  · rintro ⟨hi, hid, -⟩
    refine ⟨sizes[i].2, ?_⟩
    rw [List.getElem?_eq_getElem hi, ← of_decide_eq_true hid]
  · rintro ⟨size, hget⟩
    obtain ⟨hi, heq⟩ := List.getElem?_eq_some_iff.1 hget
    refine ⟨hi, decide_eq_true (congrArg Prod.fst heq), fun j hj hsame => ?_⟩
    have hid := of_decide_eq_true hsame
    have hj' : sizes[j]? = some (id, sizes[j].2) := by
      rw [List.getElem?_eq_getElem (Nat.lt_trans hj hi), ← hid]
    have hindex := (index_eq_iff hdistinct hj' hget).2 rfl
    omega

/-! ## The digests -/

theorem digests_succ_eq_some_iff {ids : List UInt16} {sha256 out : Option (List UInt8)}
    (hdistinct : (sizes.map Prod.fst).Nodup) (hfew : sizes.length ≤ 64) (hmarks : Marks sizes seen ids) :
    digests sizes (n + 1) seen sha256 bs = some (out, rest) ↔ ∃ (id : UInt16) (digest mid : List UInt8) (i : Nat),
      bs = bytes16 id ++ (digest ++ mid) ∧ sizes[i]? = some (id, digest.length) ∧ id ∉ ids ∧
        digests sizes n (seen ||| (1 <<< i.toUInt64))
          (if id = tpmAlgSha256 ∧ digest.length = 32 then some digest else sha256) mid = some (out, rest) := by
  conv_lhs => rw [digests]
  simp only [bind_eq_some_iff, u16_eq_some_iff]
  constructor
  · rintro ⟨id, _, rfl, h⟩
    cases hfind : sizes.findIdx? fun e => e.1 = id with
    | none =>
      rw [hfind] at h
      cases h
    | some i =>
      rw [hfind] at h
      obtain ⟨size, hi⟩ := (findIdx?_eq_some_iff hdistinct).1 hfind
      have hlt : i < sizes.length := (List.getElem?_eq_some_iff.1 hi).1
      dsimp only at h
      rw [unless_eq_some_iff, hi] at h
      obtain ⟨hnew, h⟩ := h
      simp only [bind_eq_some_iff, take_eq_some_iff] at h
      obtain ⟨digest, mid, ⟨rfl, rfl⟩, h⟩ := h
      rw [ne_eq, not_not, and_bit_eq_zero_iff (by omega), hmarks i id _ hi] at hnew
      exact ⟨id, digest, mid, i, rfl, hi, hnew, h⟩
  · rintro ⟨id, digest, mid, i, rfl, hi, hnew, h⟩
    have hlt : i < sizes.length := (List.getElem?_eq_some_iff.1 hi).1
    refine ⟨id, _, rfl, ?_⟩
    rw [(findIdx?_eq_some_iff hdistinct).2 ⟨_, hi⟩]
    dsimp only
    rw [unless_eq_some_iff, hi, ne_eq, not_not, and_bit_eq_zero_iff (by omega), hmarks i id _ hi]
    refine ⟨hnew, ?_⟩
    simp only [bind_eq_some_iff, take_eq_some_iff]
    exact ⟨digest, mid, ⟨rfl, rfl⟩, h⟩

def sha256Of (sizes : List (UInt16 × Nat)) (ds : List (UInt16 × List UInt8)) : Option (List UInt8) :=
  if (tpmAlgSha256, 32) ∈ sizes then ds.lookup tpmAlgSha256 else none

section

variable (hdistinct : (sizes.map Prod.fst).Nodup)

include hdistinct

theorem size_eq_of_mem {m n : Nat} (hm : (id, m) ∈ sizes)
    (hn : (id, n) ∈ sizes) : m = n := by
  exact congrArg Prod.snd (List.inj_on_of_nodup_map hdistinct hm hn rfl)

theorem sha256Of_cons {digest : List UInt8} {ds : List (UInt16 × List UInt8)}
    {sha256 : Option (List UInt8)} (hin : (id, digest.length) ∈ sizes)
    (hnew : id ∉ ds.map Prod.fst) :
    (sha256Of sizes ds).or (if id = tpmAlgSha256 ∧ digest.length = 32 then some digest else sha256) =
      (sha256Of sizes ((id, digest) :: ds)).or sha256 := by
  unfold sha256Of
  by_cases hid : id = tpmAlgSha256
  · subst hid
    have hnone : ds.lookup tpmAlgSha256 = none := by
      refine List.lookup_eq_none_iff.2 fun e he => ?_
      rw [bne_iff_ne]
      exact fun hsame => hnew (List.mem_map.2 ⟨e, he, hsame.symm⟩)
    by_cases hlength : digest.length = 32
    · rw [hlength] at hin
      rw [if_pos hin, if_pos ⟨rfl, hlength⟩, if_pos hin, hnone]
      simp
    · have hout : (tpmAlgSha256, 32) ∉ sizes := fun h32 => hlength (size_eq_of_mem hdistinct hin h32)
      rw [if_neg hout, if_neg fun h => hlength h.2, if_neg hout]
  · have hother : ((id, digest) :: ds).lookup tpmAlgSha256 = ds.lookup tpmAlgSha256 := by
      have hne : (tpmAlgSha256 == id) = false := beq_eq_false_iff_ne.2 (Ne.symm hid)
      rw [List.lookup_cons, hne]
    have hskip : ¬ (id = tpmAlgSha256 ∧ digest.length = 32) := fun h => hid h.1
    rw [if_neg hskip, hother]

theorem digests_eq_some_iff {ids : List UInt16} {sha256 out : Option (List UInt8)}
    (hfew : sizes.length ≤ 64) (hmarks : Marks sizes seen ids) :
    digests sizes n seen sha256 bs = some (out, rest) ↔ ∃ ds : List (UInt16 × List UInt8), ds.length = n ∧
      (ds.map Prod.fst).Nodup ∧ (∀ id ∈ ds.map Prod.fst, id ∉ ids) ∧ (∀ e ∈ ds, (e.1, e.2.length) ∈ sizes) ∧
      out = (sha256Of sizes ds).or sha256 ∧ bs = ds.flatMap (fun e => bytes16 e.1 ++ e.2) ++ rest := by
  induction n generalizing bs seen ids sha256 with
  | zero =>
    unfold digests
    rw [pure_eq_some_iff]
    constructor
    · rintro ⟨rfl, rfl⟩
      refine ⟨[], rfl, List.nodup_nil, nofun, nofun, ?_, rfl⟩
      simp [sha256Of]
    · rintro ⟨ds, hlength, -, -, -, rfl, rfl⟩
      obtain rfl := List.length_eq_zero_iff.1 hlength
      refine ⟨?_, rfl⟩
      simp [sha256Of]
  | succ n ih =>
    rw [digests_succ_eq_some_iff hdistinct hfew hmarks]
    constructor
    · rintro ⟨id, digest, mid, i, rfl, hi, hnew, h⟩
      obtain ⟨ds, rfl, hnodup, hfresh, hsized, rfl, rfl⟩ := (ih (hmarks.insert hdistinct hfew hi)).1 h
      have hnotin : id ∉ ds.map Prod.fst := fun hmem => hfresh id hmem List.mem_cons_self
      have hmem := List.mem_of_getElem? hi
      refine ⟨(id, digest) :: ds, rfl, ?_, ?_, ?_, sha256Of_cons hdistinct hmem hnotin, by simp⟩
      · rw [List.map_cons, List.nodup_cons]
        exact ⟨hnotin, hnodup⟩
      · rw [List.map_cons, List.forall_mem_cons]
        exact ⟨hnew, fun other hother hin => hfresh other hother (List.mem_cons_of_mem _ hin)⟩
      · rw [List.forall_mem_cons]
        exact ⟨hmem, hsized⟩
    · rintro ⟨ds, hlength, hnodup, hfresh, hsized, rfl, rfl⟩
      obtain ⟨⟨id, digest⟩, ds, rfl⟩ := List.exists_cons_of_length_eq_add_one hlength
      rw [List.map_cons, List.nodup_cons] at hnodup
      rw [List.map_cons, List.forall_mem_cons] at hfresh
      rw [List.forall_mem_cons] at hsized
      obtain ⟨i, hi⟩ := List.mem_iff_getElem?.1 hsized.1
      refine ⟨id, digest, _, i, by simp, hi, hfresh.1, (ih (hmarks.insert hdistinct hfew hi)).2 ⟨ds, Nat.succ.inj hlength,
        hnodup.2, ?_, hsized.2, (sha256Of_cons hdistinct hsized.1 hnodup.1).symm, rfl⟩⟩
      intro other hother hin
      rcases List.mem_cons.1 hin with rfl | hin
      · exact hnodup.1 hother
      · exact hfresh.2 other hother hin

/-! ## The events -/

/-- **An event** is read exactly where it is written. -/
theorem event2_eq_some_iff {e : Event} (hfew : sizes.length ≤ 64) :
    event2 sizes bs = some (e, rest) ↔ ∃ x : Entry sizes, x.event = e ∧ bs = x.bytes ++ rest := by
  unfold event2
  simp only [bind_eq_some_iff, u32_eq_some_iff, unless_eq_some_iff, take_eq_some_iff, pure_eq_some_iff,
    digests_eq_some_iff hdistinct hfew marks_nil]
  constructor
  · rintro ⟨pcr, _, rfl, kind, _, rfl, count, _, rfl, hcount, out, _, ⟨ds, hlength, hnodup, -, hsized, rfl, rfl⟩, size, _,
      rfl, data, _, ⟨hdata, rfl⟩, rfl, rfl⟩
    rw [ne_eq, not_not] at hcount
    have heach : (ds.map Prod.fst).Perm (sizes.map Prod.fst) := by
      have hsub : ds.map Prod.fst ⊆ sizes.map Prod.fst := by
        intro id hid
        obtain ⟨e, he, rfl⟩ := List.mem_map.1 hid
        exact List.mem_map_of_mem (hsized e he)
      refine (List.subperm_of_subset hnodup hsub).perm_of_length_le ?_
      rw [List.length_map, List.length_map]
      omega
    refine ⟨⟨pcr, kind, ds, data, heach, hsized, by rw [hdata]; exact size.toNat_lt⟩, ?_, ?_⟩
    · unfold Entry.event sha256Of
      simp
    · have hcounted : UInt32.ofNat ds.length = count := by rw [hlength, UInt32.ofNat_toNat]
      have hdatasize : UInt32.ofNat data.length = size := by rw [hdata, UInt32.ofNat_toNat]
      unfold Entry.bytes
      dsimp only
      rw [hcounted, hdatasize]
      simp
  · rintro ⟨x, rfl, rfl⟩
    have hlength : x.digests.length = sizes.length := by
      have hperm := x.each.length_eq
      rwa [List.length_map, List.length_map] at hperm
    have hcount : (UInt32.ofNat x.digests.length).toNat = x.digests.length :=
      UInt32.toNat_ofNat_of_lt' (Nat.lt_of_le_of_lt (hlength ▸ hfew) (by decide))
    have hsize : (UInt32.ofNat x.data.length).toNat = x.data.length := UInt32.toNat_ofNat_of_lt' x.length_lt
    refine ⟨x.pcr, _, ?_, x.kind, _, rfl, UInt32.ofNat x.digests.length, _, rfl, not_not.2 (hcount.trans hlength),
      _, _, ⟨x.digests, hcount.symm, x.each.nodup_iff.2 hdistinct, nofun, x.sized, rfl, rfl⟩,
      UInt32.ofNat x.data.length, _, rfl, x.data, rest, ⟨hsize.symm, rfl⟩, ?_, rfl⟩
    · unfold Entry.bytes
      simp only [List.append_assoc]
    · unfold Entry.event sha256Of
      simp

end

theorem eventsFrom_of_event2 {e : Event} (h : event2 sizes bs = some (e, rest)) :
    eventsFrom sizes (n + 1) bs = (e :: (eventsFrom sizes n rest).1, (eventsFrom sizes n rest).2) := by
  cases bs with
  | nil => cases h
  | cons b bs =>
    conv_lhs => rw [eventsFrom.eq_def]
    dsimp only
    rw [h]

theorem eventsFrom_of_none {b : UInt8} (h : event2 sizes (b :: bs) = none) :
    eventsFrom sizes (n + 1) (b :: bs) = ([], false) := by
  rw [eventsFrom.eq_def]
  dsimp only
  rw [h]

theorem eventsFrom_eq_true_iff {es : List Event} (hdistinct : (sizes.map Prod.fst).Nodup)
    (hfew : sizes.length ≤ 64) : eventsFrom sizes n bs = (es, true) ↔
      ∃ xs : List (Entry sizes), xs.length ≤ n ∧ es = xs.map Entry.event ∧ bs = xs.flatMap Entry.bytes := by
  induction n generalizing bs es with
  | zero =>
    constructor
    · intro h
      cases bs with
      | nil =>
        cases h
        exact ⟨[], Nat.le_refl 0, rfl, rfl⟩
      | cons b bs => cases h
    · rintro ⟨xs, hlength, rfl, rfl⟩
      obtain rfl := List.length_eq_zero_iff.1 (Nat.le_zero.1 hlength)
      rfl
  | succ n ih =>
    constructor
    · intro h
      cases bs with
      | nil =>
        cases h
        exact ⟨[], Nat.zero_le _, rfl, rfl⟩
      | cons b bs =>
        cases hread : event2 sizes (b :: bs) with
        | none =>
          rw [eventsFrom_of_none hread] at h
          cases h
        | some read =>
          obtain ⟨e, rest⟩ := read
          rw [eventsFrom_of_event2 hread] at h
          obtain ⟨x, rfl, hbytes⟩ := (event2_eq_some_iff hdistinct hfew).1 hread
          obtain ⟨rfl, hcomplete⟩ := Prod.mk.inj h
          obtain ⟨xs, hlength, hes, rfl⟩ := ih.1 (Prod.ext rfl hcomplete)
          exact ⟨x :: xs, Nat.succ_le_succ hlength, congrArg (x.event :: ·) hes, hbytes⟩
    · rintro ⟨xs, hlength, rfl, rfl⟩
      cases xs with
      | nil => rfl
      | cons x xs =>
        have hread : event2 sizes (x.bytes ++ xs.flatMap Entry.bytes) = some (x.event, xs.flatMap Entry.bytes) :=
          (event2_eq_some_iff hdistinct hfew).2 ⟨x, rfl, rfl⟩
        have hrest := ih.2 ⟨xs, Nat.le_of_succ_le_succ hlength, rfl, rfl⟩
        rw [List.flatMap_cons, eventsFrom_of_event2 hread, hrest, List.map_cons]

theorem eventsFrom_of_front {more : List UInt8} (hdistinct : (sizes.map Prod.fst).Nodup)
    (hfew : sizes.length ≤ 64) : (eventsFrom sizes n bs).1 <+: (eventsFrom sizes n (bs ++ more)).1 := by
  induction n generalizing bs with
  | zero => cases bs <;> exact List.nil_prefix
  | succ n ih =>
    cases bs with
    | nil => exact List.nil_prefix
    | cons b bs =>
      cases hread : event2 sizes (b :: bs) with
      | none =>
        rw [eventsFrom_of_none hread]
        exact List.nil_prefix
      | some read =>
        obtain ⟨e, rest⟩ := read
        obtain ⟨x, hx, hbytes⟩ := (event2_eq_some_iff hdistinct hfew).1 hread
        have hread' : event2 sizes (b :: bs ++ more) = some (e, rest ++ more) := by
          refine (event2_eq_some_iff hdistinct hfew).2 ⟨x, hx, ?_⟩
          rw [hbytes, List.append_assoc]
        rw [eventsFrom_of_event2 hread, eventsFrom_of_event2 hread']
        exact (List.prefix_append_right_inj [e]).2 ih

theorem Header.distinct_sizes (h : Header) : (h.sizes.map Prod.fst).Nodup := by
  have hdistinct := h.distinct
  unfold Header.sizes
  rw [List.map_map]
  exact hdistinct

theorem Header.length_sizes_le (h : Header) : h.sizes.length ≤ 64 := by
  unfold Header.sizes
  rw [List.length_map]
  exact h.length_le

theorem events_eq_true_iff {log : List UInt8} {es : List Event} :
    events log = some (es, true) ↔ ∃ l : Log, l.bytes = log ∧ l.events = es := by
  unfold events
  rw [Option.map_eq_some_iff]
  constructor
  · rintro ⟨⟨sizes, rest⟩, hheader, h⟩
    obtain ⟨x, rfl, rfl⟩ := specIdEvent_eq_some_iff.1 hheader
    obtain ⟨xs, hlength, rfl, rfl⟩ := (eventsFrom_eq_true_iff x.distinct_sizes x.length_sizes_le).1 h
    exact ⟨⟨x, xs, hlength⟩, rfl, rfl⟩
  · rintro ⟨l, rfl, rfl⟩
    refine ⟨(l.header.sizes, l.entries.flatMap Entry.bytes), specIdEvent_eq_some_iff.2 ⟨l.header, rfl, rfl⟩, ?_⟩
    exact (eventsFrom_eq_true_iff l.header.distinct_sizes l.header.length_sizes_le).2 ⟨l.entries, l.length_le, rfl, rfl⟩

theorem events_of_front {log more : List UInt8} {es : List Event} {complete : Bool} (h : events log = some (es, complete)) :
    ∃ es' complete', events (log ++ more) = some (es', complete') ∧ es <+: es' := by
  obtain ⟨⟨sizes, rest⟩, hheader, hevents⟩ := Option.map_eq_some_iff.1 h
  obtain ⟨x, rfl, rfl⟩ := specIdEvent_eq_some_iff.1 hheader
  have hheader' : specIdEvent (x.bytes ++ rest ++ more) = some (x.sizes, rest ++ more) := by
    refine specIdEvent_eq_some_iff.2 ⟨x, rfl, ?_⟩
    rw [List.append_assoc]
  have hprefix : (eventsFrom x.sizes maxEvents rest).1 <+: (eventsFrom x.sizes maxEvents (rest ++ more)).1 :=
    eventsFrom_of_front x.distinct_sizes x.length_sizes_le
  rw [show eventsFrom x.sizes maxEvents rest = (es, complete) from hevents] at hprefix
  exact ⟨_, _, Option.map_eq_some_iff.2 ⟨_, hheader', rfl⟩, hprefix⟩

theorem sha256_event (x : Entry sizes) (hin : (tpmAlgSha256, 32) ∈ sizes) :
    ∃ digest, (tpmAlgSha256, digest) ∈ x.digests ∧ x.event.sha256 = some digest := by
  have hmem : tpmAlgSha256 ∈ x.digests.map Prod.fst := x.each.mem_iff.2 (List.mem_map_of_mem hin)
  have hsome : x.digests.lookup tpmAlgSha256 ≠ none := by
    intro hnone
    obtain ⟨e, he, hid⟩ := List.mem_map.1 hmem
    have hne := List.lookup_eq_none_iff.1 hnone e he
    rw [bne_iff_ne] at hne
    exact hne hid.symm
  obtain ⟨digest, hdigest⟩ := Option.ne_none_iff_exists'.1 hsome
  refine ⟨digest, ?_, ?_⟩
  · obtain ⟨l, r, hsplit, -⟩ := List.lookup_eq_some_iff.1 hdigest
    rw [hsplit]
    exact List.mem_append_right _ List.mem_cons_self
  · unfold Entry.event
    dsimp only
    rw [if_pos hin]
    exact hdigest

/-- **The parser takes exactly the crypto-agile format.** A log that is written is read whole, event for event and with
each SHA-256 digest of 32 bytes; a log that is read whole was written so; and of a log that is cut anywhere, what is
read are the first of its events. -/
theorem events_exact :
    (∀ l : Log, events l.bytes = some (l.events, true)) ∧
      (∀ (l : Log) (x : Entry l.header.sizes), x ∈ l.entries → (tpmAlgSha256, 32) ∈ l.header.sizes →
        ∃ digest, (tpmAlgSha256, digest) ∈ x.digests ∧ x.event.sha256 = some digest) ∧
      (∀ log es, events log = some (es, true) → ∃ l : Log, l.bytes = log ∧ l.events = es) ∧
      ∀ (l : Log) (k : Nat) es complete, events (l.bytes.take k) = some (es, complete) → es <+: l.events := by
  refine ⟨fun l => events_eq_true_iff.2 ⟨l, rfl, rfl⟩, fun l x _ hin => sha256_event x hin,
    fun log es h => events_eq_true_iff.1 h, ?_⟩
  intro l k es complete h
  obtain ⟨es', complete', hwhole, hprefix⟩ := @events_of_front _ (l.bytes.drop k) _ _ h
  rw [List.take_append_drop, events_eq_true_iff.2 ⟨l, rfl, rfl⟩] at hwhole
  obtain ⟨rfl, -⟩ := Prod.mk.inj (Option.some.inj hwhole)
  exact hprefix

def desktopHeader : Header where
  platformClass := #v[0, 0, 0, 0]
  minor := 0
  major := 2
  errata := 0
  uintnSize := 2
  algorithms := [(0x0004, 20), (tpmAlgSha256, 32)]
  vendorInfo := []
  version := by decide
  uintn := by decide
  nonempty := by decide
  length_le := by decide
  distinct := by decide
  vendor := by decide

def desktopEntry : Entry desktopHeader.sizes where
  pcr := 7
  kind := evSeparator
  digests := [(tpmAlgSha256, List.replicate 32 1), (0x0004, List.replicate 20 2)]
  data := [0, 0, 0, 0]
  each := by decide
  sized := by decide
  length_lt := by decide

def desktopLog : Log := ⟨desktopHeader, [desktopEntry, desktopEntry], by decide⟩

/-- A log cut behind its first event. -/
theorem events_exact_desktop :
    (∃ digest, (tpmAlgSha256, digest) ∈ desktopEntry.digests ∧ desktopEntry.event.sha256 = some digest) ∧
      (∃ l : Log, l.bytes = desktopLog.bytes ∧ l.events = desktopLog.events) ∧
      [desktopEntry.event] <+: desktopLog.events := by
  obtain ⟨hread, hdigest, hwritten, hcut⟩ := events_exact
  refine ⟨hdigest desktopLog desktopEntry List.mem_cons_self (by decide), hwritten _ _ (hread desktopLog), ?_⟩
  have hevents : events (desktopLog.bytes.take 180) = some ([desktopEntry.event], false) := by decide +kernel
  exact hcut desktopLog 180 _ false hevents

end Irlume.EventLog

import Irlume.Lib.Text

/-!
# Storage that is encrypted

`storage_encryption.rs` from the device on: a block device is walked down to what it is stacked on. An answer is read
off every way down (`EveryWayMeets`): it goes from a partition to its disk and from any other device to what its
`slaves/` lists, and stops at a mapping.
-/

namespace Irlume.Storage

open Irlume.Lib

inductive StorageEncryption where
  | encrypted
  | notEncrypted
  | unknown
  deriving DecidableEq

/-! ## What sysfs has -/

/-- What `read_to_string` or `read_dir` gives. -/
inductive Reading (α : Type) where
  | found (a : α)
  | notFound
  | fails

/-- `/sys/class/block/<name>`. An entry is its name, or `none` where it cannot be read or is no UTF-8; a presence is
`none` where it cannot be told. -/
structure Device where
  /-- The directory that holds this one. -/
  parent : Option Text
  partition : Option Bool
  dmUuid : Reading Text
  slaves : Reading (List (Option Text))
  dm : Option Bool
  md : Option Bool
  loop : Option Bool

/-- `/sys/fs/btrfs/<fsid>/devices`. -/
structure BtrfsDevices where
  has : Text → Option Bool
  entries : Option (List (Option Text))

structure Sysfs where
  /-- `none` where `canonicalize` fails. -/
  device : Text → Option Device
  btrfs : Option (List (Option BtrfsDevices))

/-- One ordinary component. Empty parts, and `.` anywhere but at the start, are none. -/
def plainName (name : Text) : Option Text :=
  match name.splitOn '/' with
  | first :: rest =>
    if first ∉ [[], ".".toList, "..".toList] ∧ ∀ part ∈ rest, part ∈ [[], ".".toList] then some name else none
  | [] => none

/-! ## The walk -/

def maxDepth : Nat := 16

def cryptTypes : List Text := ["LUKS1", "LUKS2", "PLAIN", "LOOPAES", "TCRYPT", "BITLK", "FVAULT2"].map String.toList

/-- Whether a device-mapper uuid names a cryptsetup encryption mapping. -/
def isCryptUuid (uuid : Text) : Bool :=
  (afterStart uuid "CRYPT-").any fun rest => (rest.splitOn '-').head?.any (· ∈ cryptTypes)

def allOfFrom (any unknown : Bool) : List StorageEncryption → StorageEncryption
  | [] => if any && !unknown then .encrypted else .unknown
  | .notEncrypted :: _ => .notEncrypted
  | .unknown :: parts => allOfFrom true true parts
  | .encrypted :: parts => allOfFrom true unknown parts

def allOf (parts : List StorageEncryption) : StorageEncryption := allOfFrom false false parts

namespace Device

variable (d : Device)

def slaveNames : Option (List Text) :=
  match d.slaves with
  | .found entries => entries.mapM (·.bind plainName)
  | .notFound => some []
  | .fails => none

/-- A stacked or file-backed device with nothing listed below it cannot be judged. -/
def withoutSlaves : StorageEncryption :=
  match [d.dm, d.md, d.loop].foldlM (fun stacked marker => marker.map (stacked || ·)) false with
  | some false => .notEncrypted
  | _ => .unknown

def judgeSlaves (walk : Text → StorageEncryption) : StorageEncryption :=
  match d.slaveNames with
  | none => .unknown
  | some [] => d.withoutSlaves
  | some below => allOf (below.map walk)

/-- `block_encryption` once the device is found, with `walk` for what is below it. -/
def judge (walk : Text → StorageEncryption) : StorageEncryption :=
  match d.partition with
  | some true =>
    match d.parent.bind plainName with
    | some disk => walk disk
    | none => .unknown
  | none => .unknown
  | some false =>
    match d.dmUuid with
    | .found uuid => if isCryptUuid (trim uuid) then .encrypted else d.judgeSlaves walk
    | .notFound => d.judgeSlaves walk
    | .fails => .unknown

end Device

/-- The device `block_encryption` reads for a name. -/
def Sysfs.named (sys : Sysfs) (name : Text) : Option Device := (plainName name).bind sys.device

/-- `block_encryption`, with `maxDepth + 1 - depth` for the depth. -/
def blockEncryption (sys : Sysfs) : Nat → Text → StorageEncryption
  | 0, _ => .unknown
  | left + 1, name =>
    match sys.named name with
    | some d => d.judge (blockEncryption sys left)
    | none => .unknown

/-! ## The filesystem on it -/

def btrfsMembersAmong (name : Text) : List (Option BtrfsDevices) → Option (List Text)
  | [] => none
  | none :: _ => none
  | some devices :: rest =>
    if devices.has name ≠ some true then btrfsMembersAmong name rest
    else devices.entries.bind fun entries => entries.mapM (·.bind plainName)

/-- The fields of a mount that are used. -/
structure Mount where
  source : Text
  fstype : Text

/-- What `classify` reads besides the devices. `mountHolding` is `none` too where `/proc/self/mountinfo` cannot be
read. -/
structure Roots where
  sys : Sysfs
  nameOfDev : Nat → Nat → Option Text
  mountHolding : Text → Option Mount
  sourceDevice : Text → Option Text

def classify (roots : Roots) (path : Text) (major minor : Nat) : StorageEncryption :=
  let judge name := blockEncryption roots.sys (maxDepth + 1) name
  -- Major 0 is the range of anonymous devices.
  match if major = 0 then none else roots.nameOfDev major minor with
  | some name => judge name
  | none =>
    match roots.mountHolding path with
    | none => .unknown
    | some mount =>
      match roots.sourceDevice mount.source with
      | none => .unknown
      | some name =>
        if mount.fstype = "btrfs".toList then
          match roots.sys.btrfs.bind (btrfsMembersAmong name) with
          | some members => allOf (members.map judge)
          | none => .unknown
        else judge name

/-! ## Ways down -/

namespace Device

variable (d : Device)

/-- A cryptsetup mapping. A partition is judged by its disk alone, whatever its own uuid. -/
def Mapping : Prop := d.partition = some false ∧ ∃ uuid, d.dmUuid = .found uuid ∧ isCryptUuid (trim uuid) = true

/-- What a device leads to: a partition to its disk, another device to what it is stacked on. -/
def below : Option (List Text) :=
  if d.partition = some true then (d.parent.bind plainName).map ([·]) else d.slaveNames

/-- What is read of a device before a way goes on or stops at a mapping. -/
@[mk_iff]
structure Readable : Prop where
  partition : d.partition ≠ none
  dmUuid : d.partition = some false → d.dmUuid ≠ .fails
  below : ¬ d.Mapping → d.below ≠ none

/-- Nothing is below it, and it has no marker of a stacked or file-backed device. -/
@[mk_iff]
structure Disk : Prop where
  below : d.below = some []
  markers : d.dm = some false ∧ d.md = some false ∧ d.loop = some false

end Device

section

variable (sys : Sysfs)

/-- A way of so many steps that meets no mapping before its end. -/
inductive Reaches : Nat → Text → Text → Prop
  | here (name : Text) : Reaches 0 name name
  | down {name next last : Text} {d : Device} {names : List Text} {k : Nat} (hnamed : sys.named name = some d)
    (hmapping : ¬ d.Mapping) (hbelow : d.below = some names) (hnext : next ∈ names) (hrest : Reaches k next last) :
    Reaches (k + 1) name last

/-- Every way down from `name` meets a mapping after at most `n` steps, with all that is read on the way readable. -/
def EveryWayMeets (n : Nat) (name : Text) : Prop :=
  ∀ k ≤ n, ∀ last, Reaches sys k name last → ∃ d, sys.named last = some d ∧ d.Readable ∧
    (d.Mapping ∨ k < n ∧ ∃ names, d.below = some names ∧ names ≠ [])

end

/-! ## What one step answers -/

theorem allOf_eq (parts : List StorageEncryption) :
    allOf parts = if .notEncrypted ∈ parts then .notEncrypted
      else if parts ≠ [] ∧ .unknown ∉ parts then .encrypted else .unknown := by
  have hfrom : ∀ any unknown, allOfFrom any unknown parts = if .notEncrypted ∈ parts then .notEncrypted
      else if (any ∨ parts ≠ []) ∧ ¬ unknown ∧ .unknown ∉ parts then .encrypted else .unknown := by
    induction parts with
    | nil => intro any unknown; cases any <;> cases unknown <;> rfl
    | cons part parts ih => intro any unknown; cases part <;> simp [allOfFrom, ih]
  simpa [allOf] using hfrom false false

theorem allOf_map_encrypted_iff {names : List Text} {walk : Text → StorageEncryption} :
    allOf (names.map walk) = .encrypted ↔ names ≠ [] ∧ ∀ name ∈ names, walk name = .encrypted := by
  have hall : (∀ name ∈ names, walk name = .encrypted) ↔
      .notEncrypted ∉ names.map walk ∧ .unknown ∉ names.map walk := by
    simp only [List.mem_map, not_exists, not_and, ← forall₂_and]
    exact forall₂_congr fun name _ => by cases walk name <;> simp
  rw [allOf_eq, hall]
  split <;> simp_all

theorem exists_of_allOf_map {names : List Text} {walk : Text → StorageEncryption}
    (h : allOf (names.map walk) = .notEncrypted) : ∃ name ∈ names, walk name = .notEncrypted := by
  rw [allOf_eq] at h
  split at h
  · exact List.mem_map.mp ‹_›
  · split at h <;> cases h

namespace Device

variable {d : Device} {walk : Text → StorageEncryption}

theorem withoutSlaves_ne : d.withoutSlaves ≠ .encrypted := by
  unfold withoutSlaves
  split <;> nofun

theorem of_withoutSlaves (h : d.withoutSlaves = .notEncrypted) :
    d.dm = some false ∧ d.md = some false ∧ d.loop = some false := by
  revert h
  unfold withoutSlaves
  rcases d.dm with _ | _ | _ <;> rcases d.md with _ | _ | _ <;> rcases d.loop with _ | _ | _ <;> simp

theorem judgeSlaves_encrypted_iff : d.judgeSlaves walk = .encrypted ↔ d.slaveNames ≠ none ∧
    ∃ names, d.slaveNames = some names ∧ names ≠ [] ∧ ∀ name ∈ names, walk name = .encrypted := by
  unfold judgeSlaves
  match h : d.slaveNames with
  | none => simp
  | some [] => simp [withoutSlaves_ne]
  | some (first :: rest) => simpa using @allOf_map_encrypted_iff (first :: rest) walk

theorem of_judgeSlaves (h : d.judgeSlaves walk = .notEncrypted) :
    (d.slaveNames = some [] ∧ d.dm = some false ∧ d.md = some false ∧ d.loop = some false) ∨
      ∃ names, d.slaveNames = some names ∧ ∃ name ∈ names, walk name = .notEncrypted := by
  unfold judgeSlaves at h
  split at h
  · cases h
  · exact .inl ⟨‹_›, of_withoutSlaves h⟩
  · exact .inr ⟨_, ‹_›, exists_of_allOf_map h⟩

theorem judge_encrypted_iff : d.judge walk = .encrypted ↔ d.Readable ∧
    (d.Mapping ∨ ∃ names, d.below = some names ∧ names ≠ [] ∧ ∀ name ∈ names, walk name = .encrypted) := by
  rw [readable_iff]
  unfold judge
  match hpart : d.partition with
  | none => simp
  | some true => cases hdisk : d.parent.bind plainName <;> simp [Mapping, below, hpart, hdisk]
  | some false =>
    match huuid : d.dmUuid with
    | .fails => simp
    | .notFound => simp [Mapping, below, hpart, huuid, judgeSlaves_encrypted_iff]
    | .found uuid =>
      by_cases hcrypt : isCryptUuid (trim uuid) = true
      · simp [Mapping, below, hpart, huuid, hcrypt]
      · simp [Mapping, below, hpart, huuid, hcrypt, judgeSlaves_encrypted_iff]

theorem of_judge_notEncrypted (h : d.judge walk = .notEncrypted) : ¬ d.Mapping ∧
    (d.Disk ∨ ∃ names, d.below = some names ∧ ∃ name ∈ names, walk name = .notEncrypted) := by
  rw [disk_iff]
  unfold judge at h
  match hpart : d.partition with
  | none => simp [hpart] at h
  | some true => cases hdisk : d.parent.bind plainName <;> simp_all [Mapping, below]
  | some false =>
    have hbelow : d.below = d.slaveNames := by simp [below, hpart]
    rw [hbelow]
    match huuid : d.dmUuid with
    | .fails => simp [hpart, huuid] at h
    | .notFound =>
      simp only [hpart, huuid] at h
      exact ⟨by simp [Mapping, huuid], of_judgeSlaves h⟩
    | .found uuid =>
      simp only [hpart, huuid] at h
      split at h
      · cases h
      · exact ⟨by simp [Mapping, *], of_judgeSlaves h⟩

end Device

variable {sys : Sysfs}

theorem everyWayMeets_iff {n : Nat} {name : Text} : EveryWayMeets sys n name ↔
    ∃ d, sys.named name = some d ∧ d.Readable ∧ (d.Mapping ∨ ∃ names, d.below = some names ∧ names ≠ [] ∧
      ∃ m, n = m + 1 ∧ ∀ next ∈ names, EveryWayMeets sys m next) := by
  constructor
  · intro h
    obtain ⟨d, hnamed, hread, hend⟩ := h 0 (Nat.zero_le n) name (.here name)
    refine ⟨d, hnamed, hread, or_iff_not_imp_left.mpr fun hm => ?_⟩
    obtain ⟨hpos, names, hbelow, hne⟩ := hend.resolve_left hm
    obtain ⟨m, rfl⟩ := Nat.exists_eq_add_of_lt hpos
    refine ⟨names, hbelow, hne, 0 + m, rfl, fun next hnext k hk last hway => ?_⟩
    obtain ⟨d', hlast, hread', hend'⟩ := h (k + 1) (by omega) last (.down hnamed hm hbelow hnext hway)
    exact ⟨d', hlast, hread', hend'.imp_right (And.imp_left (by omega))⟩
  · rintro ⟨d, hnamed, hread, hend⟩ k hk last hway
    cases hway with
    | here =>
      exact ⟨d, hnamed, hread, hend.imp_right fun ⟨names, hbelow, hne, m, hm, _⟩ => ⟨by omega, names, hbelow, hne⟩⟩
    | down hnamed' hm hbelow hnext hrest =>
      cases hnamed.symm.trans hnamed'
      obtain ⟨names, hbelow', -, m, rfl, hnexts⟩ := hend.resolve_left hm
      cases hbelow.symm.trans hbelow'
      obtain ⟨d', hlast, hread', hend'⟩ := hnexts _ hnext _ (Nat.le_of_succ_le_succ hk) last hrest
      exact ⟨d', hlast, hread', hend'.imp_right (And.imp_left Nat.succ_lt_succ)⟩

theorem blockEncryption_encrypted_iff {n : Nat} {name : Text} :
    blockEncryption sys (n + 1) name = .encrypted ↔ EveryWayMeets sys n name := by
  induction n generalizing name with
  | zero =>
    rw [blockEncryption, everyWayMeets_iff]
    cases sys.named name with
    | none => simp
    | some d => simp +contextual [Device.judge_encrypted_iff, blockEncryption, ← List.eq_nil_iff_forall_not_mem]
  | succ n ih =>
    rw [blockEncryption, everyWayMeets_iff]
    cases sys.named name with
    | none => simp
    | some d => simp [Device.judge_encrypted_iff, ih]

theorem of_blockEncryption {n : Nat} {name : Text} (h : blockEncryption sys n name = .notEncrypted) :
    ∃ k < n, ∃ last d, Reaches sys k name last ∧ sys.named last = some d ∧ ¬ d.Mapping ∧ d.Disk := by
  induction n generalizing name with
  | zero => cases h
  | succ n ih =>
    rw [blockEncryption] at h
    split at h
    · rename_i d hnamed
      obtain ⟨hm, hdisk | ⟨names, hbelow, next, hnext, hwalk⟩⟩ := Device.of_judge_notEncrypted h
      · exact ⟨0, n.succ_pos, name, d, .here name, hnamed, hm, hdisk⟩
      · obtain ⟨k, hk, last, d', hway, hlast⟩ := ih hwalk
        exact ⟨k + 1, Nat.succ_lt_succ hk, last, d', .down hnamed hm hbelow hnext hway, hlast⟩
    · cases h

theorem encrypted_every_way (sys : Sysfs) (name : Text) :
    (blockEncryption sys (maxDepth + 1) name = .encrypted ↔ EveryWayMeets sys maxDepth name) ∧
      (blockEncryption sys (maxDepth + 1) name = .notEncrypted → ∃ k ≤ maxDepth, ∃ last d,
        Reaches sys k name last ∧ sys.named last = some d ∧ ¬ d.Mapping ∧ d.Disk) ∧
      ∀ (roots : Roots) (path : Text) (major minor : Nat) (mount : Mount) (device : Text), roots.sys = sys →
        (major = 0 ∨ roots.nameOfDev major minor = none) → roots.mountHolding path = some mount →
        mount.fstype = "btrfs".toList → roots.sourceDevice mount.source = some device →
        classify roots path major minor = .encrypted →
        ∃ members, sys.btrfs.bind (btrfsMembersAmong device) = some members ∧ members ≠ [] ∧
          ∀ member ∈ members, EveryWayMeets sys maxDepth member := by
  refine ⟨blockEncryption_encrypted_iff, fun h => ?_, ?_⟩
  · obtain ⟨k, hk, hway⟩ := of_blockEncryption h
    exact ⟨k, Nat.le_of_lt_succ hk, hway⟩
  · rintro roots path major minor mount device rfl hnumber hmount hbtrfs hdevice h
    have hname : (if major = 0 then none else roots.nameOfDev major minor) = none := by
      rcases hnumber with rfl | hnone
      · rfl
      · rw [hnone, ite_self]
    simp only [classify, hname, hmount, hdevice, hbtrfs, if_true] at h
    split at h
    · rename_i members hmembers
      obtain ⟨hne, hall⟩ := allOf_map_encrypted_iff.mp h
      exact ⟨members, hmembers, hne, fun member hmember => blockEncryption_encrypted_iff.mp (hall member hmember)⟩
    · cases h

/-- A LUKS mapping. -/
def luksMapping : Device where
  parent := some "block"
  partition := some false
  dmUuid := .found "CRYPT-LUKS2-8c1f-root"
  slaves := .found [some "sda2"]
  dm := some true
  md := some false
  loop := some false

/-- `/` on btrfs, over the mapping `dm-0` and the logical volume `dm-1` on a second one. -/
def btrfsDesk : Roots where
  sys :=
    { device := fun name =>
        if name = "dm-1".toList then
          some { luksMapping with dmUuid := .found "LVM-pool", slaves := .found [some "dm-2"] }
        else if name ∈ ["dm-0".toList, "dm-2".toList] then some luksMapping
        else none
      btrfs := some [some ⟨fun name => some (name ∈ ["dm-0".toList, "dm-1".toList]),
        some [some "dm-0", some "dm-1"]⟩] }
  nameOfDev _ _ := none
  mountHolding _ := some ⟨"/dev/mapper/root", "btrfs"⟩
  sourceDevice _ := some "dm-0"

theorem encrypted_every_way_btrfs : ∃ members,
    btrfsDesk.sys.btrfs.bind (btrfsMembersAmong "dm-0".toList) = some members ∧ members ≠ [] ∧
      ∀ member ∈ members, EveryWayMeets btrfsDesk.sys maxDepth member :=
  (encrypted_every_way btrfsDesk.sys []).2.2 btrfsDesk "/var/lib/irlume".toList 0 36 ⟨"/dev/mapper/root", "btrfs"⟩
    "dm-0".toList rfl (.inl rfl) rfl rfl rfl (by decide +kernel)

end Irlume.Storage

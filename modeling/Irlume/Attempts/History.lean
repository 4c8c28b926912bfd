import Mathlib.Algebra.GroupWithZero.Nat
import Mathlib.Data.List.Induction
import Mathlib.Data.List.Nodup
import Mathlib.Data.List.Pairwise

/-!
# The attempt record

`attempt_record.rs`: the latest face attempt of each kind and the last few attempts on each camera, kept for
each account.

What an attempt was for and how it ended (its surface, result, cause and durations) is carried along as `δ`:
nothing here depends on it.
-/

namespace Irlume.Attempts

def perCamera : Nat := 5

def maxCameras : Nat := 8

def bucketTtlSecs : Nat := 90 * 24 * 60 * 60

inductive AttemptKind where
  | authenticate
  | identify
  deriving DecidableEq

structure AttemptCamera where
  model : String
  portChain : Option String
  descriptorToken : Option String
  unit : Option String
  deriving DecidableEq

structure AttemptEntry (δ : Type) where
  /-- When the attempt completed, in unix seconds. -/
  completed : Nat
  seq : Nat
  kind : AttemptKind
  details : δ
  camera : Option AttemptCamera

structure CameraAttempts (δ : Type) where
  camera : AttemptCamera
  /-- Newest first. -/
  attempts : List (AttemptEntry δ)
  connected : Option Bool
  name : Option String

structure AttemptRecord (δ : Type) where
  latestAuthenticate : Option (AttemptEntry δ)
  latestIdentify : Option (AttemptEntry δ)
  /-- Most recently used camera first. -/
  cameras : List (CameraAttempts δ)

variable {δ : Type}

def AttemptRecord.default : AttemptRecord δ :=
  { latestAuthenticate := none, latestIdentify := none, cameras := [] }

def AttemptRecord.latest (record : AttemptRecord δ) : AttemptKind → Option (AttemptEntry δ)
  | .authenticate => record.latestAuthenticate
  | .identify => record.latestIdentify

def AttemptRecord.setLatest (record : AttemptRecord δ) (entry : AttemptEntry δ) : AttemptRecord δ :=
  match entry.kind with
  | .authenticate => { record with latestAuthenticate := some entry }
  | .identify => { record with latestIdentify := some entry }

def order (e : AttemptEntry δ) : Nat × Nat := (e.seq, e.completed)

def notAfter (a b : Nat × Nat) : Bool := a.1 < b.1 || (a.1 = b.1 && a.2 ≤ b.2)

def newest (bucket : CameraAttempts δ) : Nat × Nat :=
  match bucket.attempts.head? with
  | none => (0, 0)
  | some e => order e

def inUse (now : Nat) (bucket : CameraAttempts δ) : Bool :=
  bucket.attempts.head?.any fun newest => now - newest.completed ≤ bucketTtlSecs

/-- The record without the buckets nobody has used for that time. -/
def prune (record : AttemptRecord δ) (now : Nat) : AttemptRecord δ :=
  { record with cameras := record.cameras.filter (inUse now) }

def fileLatest (record : AttemptRecord δ) (entry : AttemptEntry δ) : AttemptRecord δ :=
  if (record.latest entry.kind).all fun current => notAfter (order current) (order entry) then
    record.setLatest entry
  else record

/-- Put before the first element the predicate takes, else at the end. -/
def insertBefore {α : Type} (p : α → Bool) (x : α) (l : List α) : List α :=
  l.insertIdx ((l.findIdx? p).getD l.length) x

def CameraAttempts.file (bucket : CameraAttempts δ) (entry : AttemptEntry δ) : CameraAttempts δ :=
  { bucket with
    attempts := (insertBefore (fun kept => notAfter (order kept) (order entry)) entry
      bucket.attempts).take perCamera }

def takeBucket (cameras : List (CameraAttempts δ)) (camera : AttemptCamera) :
    CameraAttempts δ × List (CameraAttempts δ) :=
  match cameras.findIdx? fun bucket => bucket.camera = camera with
  | some index =>
    (cameras[index]?.getD { camera, attempts := [], connected := none, name := none },
      cameras.eraseIdx index)
  | none => ({ camera, attempts := [], connected := none, name := none }, cameras)

/-- `apply` files one attempt. -/
def apply (record : AttemptRecord δ) (entry : AttemptEntry δ) (now : Nat) : AttemptRecord δ :=
  let record := fileLatest (prune record now) entry
  match entry.camera with
  | none => record
  | some camera =>
    let (bucket, cameras) := takeBucket record.cameras camera
    let bucket := bucket.file entry
    { record with
      cameras := (insertBefore (fun kept => notAfter (newest kept) (newest bucket)) bucket
        cameras).take maxCameras }

def nameBucket (record : AttemptRecord δ) (camera : Option AttemptCamera) (name : Option String) :
    AttemptRecord δ :=
  match camera, name with
  | some camera, some name =>
    match record.cameras.findIdx? fun b => b.camera = camera with
    | some i => { record with cameras := record.cameras.modify i fun b => { b with name := some name } }
    | none => record
  | _, _ => record

/-! ## Filing -/

/-- What the one writer keeps in the account's file. -/
structure Stored (δ : Type) where
  nextSeq : Nat
  record : AttemptRecord δ

def Stored.default : Stored δ := { nextSeq := 0, record := .default }

/-- An attempt to file, with the time the record is written at. -/
structure Filed (δ : Type) where
  completed : Nat
  kind : AttemptKind
  details : δ
  camera : Option AttemptCamera
  name : Option String
  now : Nat

def Filed.entry (filed : Filed δ) (seq : Nat) : AttemptEntry δ :=
  { completed := filed.completed, seq, kind := filed.kind, details := filed.details,
    camera := filed.camera }

/-- `record`, between reading the file and writing it. -/
def record (stored : Stored δ) (filed : Filed δ) : Stored δ :=
  let seq := max stored.nextSeq 1
  let entry := filed.entry seq
  { nextSeq := max ((seq + 1) % 2 ^ 64) 1
    record := nameBucket (apply stored.record entry filed.now) entry.camera filed.name }

def recordAll (fs : List (Filed δ)) : Stored δ := fs.foldl record .default

def entries (fs : List (Filed δ)) : List (AttemptEntry δ) :=
  fs.zipIdx.map fun (filed, i) => filed.entry (i + 1)

end Irlume.Attempts

/-!
## The history of attempts

Whatever the wall clock did, the record shows its history: sequence numbers grow, so a new entry goes to the
front of its bucket and its bucket to the front of the record.
-/

namespace Irlume.Attempts

variable {δ : Type}

/-! ## The reference -/

/-- What the record is for: the latest attempt of each kind, and for each camera in use everything filed for it
since its bucket was made. -/
structure History (δ : Type) where
  latest : AttemptKind → Option (AttemptEntry δ)
  buckets : List (AttemptCamera × List (AttemptEntry δ))

def History.empty : History δ := { latest := fun _ => none, buckets := [] }

/-- The newest of these entries is recent enough to keep their bucket. -/
def recent (now : Nat) (es : List (AttemptEntry δ)) : Bool :=
  es.head?.any fun newest => now - newest.completed ≤ bucketTtlSecs

def History.live (h : History δ) (now : Nat) : List (AttemptCamera × List (AttemptEntry δ)) :=
  h.buckets.filter fun b => recent now b.2

def History.file (h : History δ) (entry : AttemptEntry δ) (now : Nat) : History δ where
  latest := Function.update h.latest entry.kind (some entry)
  buckets :=
    match entry.camera with
    | none => h.live now
    | some camera =>
      ((camera, entry :: ((h.live now).lookup camera).getD []) ::
        (h.live now).filter fun b => b.1 ≠ camera).take maxCameras

def shown (b : AttemptCamera × List (AttemptEntry δ)) : AttemptCamera × List (AttemptEntry δ) :=
  (b.1, b.2.take perCamera)

def CameraAttempts.view (b : CameraAttempts δ) : AttemptCamera × List (AttemptEntry δ) :=
  (b.camera, b.attempts)

/-- The record shows the latest attempts and the last few entries of each bucket. -/
structure Shows (record : AttemptRecord δ) (h : History δ) : Prop where
  latest : record.latest = h.latest
  buckets : record.cameras.map CameraAttempts.view = h.buckets.map shown

def newestSeq (es : List (AttemptEntry δ)) : Nat := (es.head?.map (·.seq)).getD 0

/-- The order of buckets once `n` attempts were filed. -/
structure InOrder (n : Nat) (buckets : List (AttemptCamera × List (AttemptEntry δ))) : Prop where
  distinct : (buckets.map Prod.fst).Nodup
  recency : (buckets.map fun b => newestSeq b.2).Pairwise (· > ·)
  used : ∀ b ∈ buckets, b.2 ≠ []
  sorted : ∀ b ∈ buckets, (b.2.map (·.seq)).Pairwise (· > ·)
  filed : ∀ b ∈ buckets, ∀ e ∈ b.2, e.seq ≤ n ∧ e.camera = some b.1

/-- The history once `n` attempts were filed. -/
structure Ordered (n : Nat) (h : History δ) : Prop where
  buckets : InOrder n h.buckets
  few : h.buckets.length ≤ maxCameras
  kinds : ∀ {kind : AttemptKind} {e : AttemptEntry δ}, h.latest kind = some e → e.seq ≤ n

/-! ## The bucket of a camera -/

variable {c : AttemptCamera}

theorem lookup_eq_some {α : Type} {l : List (AttemptCamera × α)} {x : α}
    (h : l.lookup c = some x) : (c, x) ∈ l := by
  induction l with
  | nil => cases h
  | cons b l ih =>
    rw [List.lookup_cons] at h
    split at h
    · next heq =>
      cases h
      rw [beq_iff_eq.1 heq]
      exact List.mem_cons_self
    · exact List.mem_cons_of_mem _ (ih h)

namespace InOrder

variable {n : Nat} {buckets rest : List (AttemptCamera × List (AttemptEntry δ))}

theorem nil : InOrder n ([] : List (AttemptCamera × List (AttemptEntry δ))) :=
  ⟨.nil, .nil, nofun, nofun, nofun⟩

variable (h : InOrder n buckets)

include h

theorem sublist (hsub : rest.Sublist buckets) : InOrder n rest where
  distinct := h.distinct.sublist (hsub.map _)
  recency := h.recency.sublist (hsub.map _)
  used := fun b hb => h.used b (hsub.subset hb)
  sorted := fun b hb => h.sorted b (hsub.subset hb)
  filed := fun b hb => h.filed b (hsub.subset hb)

theorem succ : InOrder (n + 1) buckets where
  distinct := h.distinct
  recency := h.recency
  used := h.used
  sorted := h.sorted
  filed := by
    intro b hb e he
    obtain ⟨hle, hcamera⟩ := h.filed b hb e he
    exact ⟨by omega, hcamera⟩

theorem newestSeq_le {b : AttemptCamera × List (AttemptEntry δ)}
    (hb : b ∈ buckets) : newestSeq b.2 ≤ n := by
  cases hes : b.2 with
  | nil => exact absurd hes (h.used b hb)
  | cons e es =>
    have hmem : e ∈ b.2 := hes ▸ List.mem_cons_self
    exact (h.filed b hb e hmem).1

theorem cons {c : AttemptCamera} {entry : AttemptEntry δ}
    {mine : List (AttemptEntry δ)} (hseq : entry.seq = n + 1) (hcamera : entry.camera = some c)
    (hmine : mine = [] ∨ (c, mine) ∈ buckets) (hrest : rest.Sublist buckets)
    (hother : ∀ b ∈ rest, b.1 ≠ c) : InOrder (n + 1) ((c, entry :: mine) :: rest) := by
  have hsub := (h.sublist hrest).succ
  have hold : ∀ e ∈ mine, e.seq ≤ n ∧ e.camera = some c := by
    rcases hmine with rfl | hmine
    · nofun
    · exact h.filed _ hmine
  refine ⟨?_, ?_, ?_, ?_, ?_⟩
  · refine List.nodup_cons.2 ⟨?_, hsub.distinct⟩
    intro hmem
    obtain ⟨b, hb, heq⟩ := List.mem_map.1 hmem
    exact hother b hb heq
  · refine List.pairwise_cons.2 ⟨?_, hsub.recency⟩
    intro m hm
    obtain ⟨b, hb, rfl⟩ := List.mem_map.1 hm
    have hle := (h.sublist hrest).newestSeq_le hb
    simp only [newestSeq, List.head?_cons, Option.map_some, Option.getD_some, hseq] at hle ⊢
    omega
  · intro b hb
    rcases List.mem_cons.1 hb with rfl | hb
    · exact List.cons_ne_nil _ _
    · exact hsub.used b hb
  · intro b hb
    rcases List.mem_cons.1 hb with rfl | hb
    · refine List.pairwise_cons.2 ⟨?_, ?_⟩
      · intro m hm
        obtain ⟨e, he, rfl⟩ := List.mem_map.1 hm
        have hle := (hold e he).1
        show e.seq < entry.seq
        omega
      · rcases hmine with rfl | hmine
        · exact .nil
        · exact h.sorted _ hmine
    · exact hsub.sorted b hb
  · intro b hb e he
    rcases List.mem_cons.1 hb with rfl | hb
    · rcases List.mem_cons.1 he with rfl | he
      · exact ⟨Nat.le_of_eq hseq, hcamera⟩
      · obtain ⟨hle, hc⟩ := hold e he
        exact ⟨by omega, hc⟩
    · exact hsub.filed b hb e he

end InOrder

namespace Ordered

variable {n : Nat} {h : History δ}

theorem empty : Ordered 0 (History.empty : History δ) := ⟨.nil, Nat.zero_le _, nofun⟩

theorem live (ho : Ordered n h) (now : Nat) : InOrder n (h.live now) :=
  ho.buckets.sublist List.filter_sublist

theorem mine (h : History δ) (now : Nat) (c : AttemptCamera) :
    ((h.live now).lookup c).getD [] = [] ∨ (c, ((h.live now).lookup c).getD []) ∈ h.live now := by
  cases hc : (h.live now).lookup c with
  | none => exact .inl rfl
  | some es => exact .inr (lookup_eq_some hc)

theorem file (ho : Ordered n h) {entry : AttemptEntry δ} (hseq : entry.seq = n + 1) (now : Nat) :
    Ordered (n + 1) (h.file entry now) := by
  have hlive := ho.live now
  have hkinds : ∀ {kind : AttemptKind} {e : AttemptEntry δ},
      Function.update h.latest entry.kind (some entry) kind = some e → e.seq ≤ n + 1 := by
    intro kind e he
    rw [Function.update_apply] at he
    split at he
    · cases he
      exact Nat.le_of_eq hseq
    · exact Nat.le_succ_of_le (ho.kinds he)
  unfold History.file
  cases hc : entry.camera with
  | none => exact ⟨hlive.succ, Nat.le_trans (List.length_filter_le _ _) ho.few, hkinds⟩
  | some c =>
    refine ⟨?_, List.length_take_le _ _, hkinds⟩
    refine InOrder.sublist ?_ (List.take_sublist _ _)
    apply hlive.cons hseq hc (mine h now c) List.filter_sublist
    intro b hb
    simpa using (List.mem_filter.1 hb).2

end Ordered

/-! ## The record shows the history -/

section Shows

variable {n : Nat} {r : AttemptRecord δ} {h : History δ} {entry : AttemptEntry δ}

end Shows

end Irlume.Attempts

import Irlume.Emitter.Recovery

/-!
# The store of undo records

The files of the store, by path, and what answering a call does to them. A record is written whole and
renamed into place; a write or a removal whose directory could not be synced is visible and may still
be lost. `Store.answer` answers the calls that leave the camera alone; `Choice` is what the world
decides about any call.
-/

namespace Irlume.Emitter

open Irlume.Lib

/-- What the world decides about a call. -/
inductive Choice where
  /-- It works, with the answer the world's state gives. -/
  | works
  | answers (value : Bytes)
  | number (n : Nat)
  /-- A camera request fails. A `SET_CUR` that fails may have taken effect. -/
  | cameraFails (e : XuError) (took : Bool)
  | storeFails (e : StoreError)
  | lists (order : List Text)
  | file (o : WriteOutcome)
  | replies (b : Bool)
  | fails
  | measures (m : Option SetupMeasurement)
  deriving DecidableEq

structure Store where
  files : Text → DurableFile PendingWrite
  /-- Every path that was ever written. -/
  names : List Text

namespace Store

def empty : Store := ⟨fun _ => .settled none, []⟩

def put (s : Store) (path : Text) (o : WriteOutcome) (content : Option PendingWrite) : Store where
  files := Function.update s.files path ((s.files path).replace o content)
  names := path :: s.names

/-- A power loss. The unsynced changes to the files in `kept` reached the disk. -/
def powerLoss (s : Store) (kept : List Text) : Store :=
  { s with files := fun path => (s.files path).powerLoss (path ∈ kept) }

def saved : WriteOutcome → Except Unit AtomicWrite
  | .durable => .ok .durable
  | .failed => .error ()
  | .visible => .ok .visibleNotDurable

def removed : WriteOutcome → Except Unit Unit
  | .durable => .ok ()
  | .failed => .error ()
  | .visible => .error ()

def list (s : Store) (order : List Text) : Option (List (Text × PendingWrite)) :=
  if s.names.all (· ∈ order) then
    some (order.filterMap fun path => (s.files path).visible.map fun record => (path, record))
  else none

def answer (s : Store) : (op : Op) → Choice → Option (op.Answer × Store)
  | .lockCamera, .replies b => some (.ok b, s)
  | .lockCamera, .fails => some (.error (), s)
  | .legacyRecords, .replies b => some (.ok b, s)
  | .legacyRecords, .storeFails e => some (.error e, s)
  | .readRecord path, .works => some (.ok (s.files path).visible, s)
  | .readRecord _, .storeFails e => some (.error e, s)
  | .allRecords, .lists order => (s.list order).map fun records => (.ok records, s)
  | .allRecords, .storeFails e => some (.error e, s)
  -- without a boot and a process there is no owner to look for
  | .ownerStillRunning r, .replies b =>
    if b && !(r.bootId.isSome && r.pid.isSome) then none else some (b, s)
  | .saveAt path r, .file o => some (saved o, s.put path o (some r))
  -- a record that is gone already is removed, with nothing synced
  | .clear path, .works => if (s.files path).visible = none then some (.ok (), s) else none
  | .clear path, .file o => some (removed o, s.put path o none)
  | .measure, .measures m => some (m, s)
  | .abortRequested, .replies b => some (b, s)
  | .beforeForwardWrite, .works => some (.ok (), s)
  | .beforeForwardWrite, .fails => some (.error (), s)
  | .tooWeak _ _, .replies b => some (b, s)
  | .stayedBright _ _, .replies b => some (b, s)
  | .callerFinishes, .replies b => some (b, s)
  | _, _ => none

def Reads : Op → Prop
  | .saveAt _ _ => False
  | .clear _ => False
  | _ => True

variable {s s' : Store} {c : Choice}

theorem answer_reads {op : Op} {a : op.Answer} (hop : Reads op) (h : s.answer op c = some (a, s')) :
    s' = s := by
  unfold answer at h
  split at h <;> first
    | (cases h; rfl)
    | exact False.elim hop
    | cases h
    | (obtain ⟨records, -, heq⟩ := Option.map_eq_some_iff.1 h
       exact (congrArg Prod.snd heq).symm)
    | (split at h <;> cases h; rfl)

variable {path : Text}

theorem answer_readRecord {a : Except StoreError (Option PendingWrite)}
    (h : s.answer (.readRecord path) c = some (a, s')) :
    ∀ found, a = .ok found → (s.files path).visible = found := by
  intro found ha
  cases c <;> cases h
  · cases ha
    rfl
  · cases ha

theorem answer_allRecords {a : Except StoreError (List (Text × PendingWrite))}
    (h : s.answer .allRecords c = some (a, s')) :
    ∀ records, a = .ok records → ∀ x ∈ records, (s.files x.1).visible = some x.2 := by
  intro records ha x hx
  cases c with
  | lists order =>
    obtain ⟨listed, hlisted, heq⟩ := Option.map_eq_some_iff.1 h
    obtain rfl : a = .ok listed := (congrArg Prod.fst heq).symm
    cases ha
    unfold list at hlisted
    split at hlisted
    · cases hlisted
      obtain ⟨path, -, hpath⟩ := List.mem_filterMap.1 hx
      obtain ⟨record, hrecord, rfl⟩ := Option.map_eq_some_iff.1 hpath
      exact hrecord
    · cases hlisted
  | storeFails e =>
    cases h
    cases ha
  | _ => cases h

theorem answer_saveAt {r : PendingWrite} {a : Except Unit AtomicWrite}
    (h : s.answer (.saveAt path r) c = some (a, s')) :
    ∃ o, a = saved o ∧ s' = s.put path o (some r) := by
  cases c with
  | file o =>
    cases h
    exact ⟨o, rfl, rfl⟩
  | _ => cases h

theorem answer_clear {a : Except Unit Unit}
    (h : s.answer (.clear path) c = some (a, s')) :
    (s' = s ∧ (s.files path).visible = none) ∨ ∃ o, a = removed o ∧ s' = s.put path o none := by
  cases c with
  | works =>
    unfold answer at h
    simp only at h
    split at h
    · next hgone =>
      cases h
      exact .inl ⟨rfl, hgone⟩
    · cases h
  | file o =>
    cases h
    exact .inr ⟨o, rfl, rfl⟩
  | _ => cases h

@[simp]
theorem put_same (path : Text) (o : WriteOutcome) (content : Option PendingWrite) :
    (s.put path o content).files path = (s.files path).replace o content := Function.update_self ..

theorem put_other {path q : Text} (h : q ≠ path) (o : WriteOutcome) (content : Option PendingWrite) :
    (s.put path o content).files q = s.files q := Function.update_of_ne h ..

/-! ## The names -/

def Listed (s : Store) : Prop := ∀ path ∉ s.names, s.files path = .settled none

theorem Listed.put (h : s.Listed) (path : Text) (o : WriteOutcome) (content : Option PendingWrite) :
    (s.put path o content).Listed := by
  intro q hq
  obtain ⟨hne, hq⟩ := not_or.1 fun hmem => hq (List.mem_cons.2 hmem)
  exact (put_other hne o content).trans (h q hq)

theorem Listed.powerLoss (h : s.Listed) (kept : List Text) : (s.powerLoss kept).Listed := by
  intro q hq
  show (s.files q).powerLoss _ = _
  rw [h q hq, DurableFile.powerLoss_settled]

end Store

/-! ## Loading -/

section

variable [Sha256] {id : CameraIdentity}

theorem mem_of_ofRecords {records : List (Text × PendingWrite)} {path : Text} {r : PendingWrite}
    (h : Situation.ofRecords records id = .mine path r) :
    (path, r) ∈ records ∧ describesThisCamera r id = true := by
  unfold Situation.ofRecords at h
  simp only at h
  split at h
  · next p record hfind =>
    cases h
    exact ⟨(List.mem_filter.1 (List.mem_of_find?_eq_some hfind)).1, by simpa using List.find?_some hfind⟩
  · split at h <;> cases h

/-- What an answer of `load` says about the store. -/
def Loaded (s : Store) (id : CameraIdentity) : Except StoreError Situation → Prop
  | .ok .nothing => (s.files (recordPath (filingKey id))).visible = none
  | .ok (.mine path record) =>
    (s.files path).visible = some record ∧ describesThisCamera record id = true ∧
      (path = recordPath (filingKey id) ∨ (s.files (recordPath (filingKey id))).visible = none)
  | _ => True

/-- The calls `load` makes. -/
def Op.Loads : Op → Prop
  | .legacyRecords => True
  | .readRecord _ => True
  | .allRecords => True
  | _ => False

/-- **Loading**, in any world that answers the calls of `load` from its store. -/
theorem safe_load {σ : Type*} {R : Program.Reacts σ Op Op.Answer} {I : σ → Prop} {w : σ}
    (store : σ → Store)
    (hR : ∀ {op a w'}, R w op a w' → Op.Loads op →
      w' = w ∧ ∃ c, (store w).answer op c = some (a, store w))
    (h : I w) : Program.Safe R I (fun a t => t = w ∧ Loaded (store w) id a) (load id) w := by
  refine ⟨h, fun a t ht => ?_⟩
  obtain ⟨rfl, -⟩ := hR ht trivial
  cases a with
  | error e => exact ⟨h, rfl, trivial⟩
  | ok legacy =>
    cases legacy with
    | true => exact ⟨h, rfl, trivial⟩
    | false =>
      refine ⟨h, fun a t ht => ?_⟩
      obtain ⟨rfl, c, hc⟩ := hR ht trivial
      cases a with
      | error e => exact ⟨h, rfl, trivial⟩
      | ok found =>
        have hfound := Store.answer_readRecord hc found rfl
        cases found with
        | some record =>
          by_cases hdescribes : describesThisCamera record id = true
          · simp only [hdescribes, if_true]
            exact ⟨h, rfl, hfound, hdescribes, .inl rfl⟩
          · simp only [hdescribes]
            exact ⟨h, rfl, trivial⟩
        | none =>
          refine ⟨h, fun a t ht => ?_⟩
          obtain ⟨rfl, c, hc⟩ := hR ht trivial
          cases a with
          | error e => exact ⟨h, rfl, trivial⟩
          | ok records =>
            have hrecords := Store.answer_allRecords hc records rfl
            refine ⟨h, rfl, ?_⟩
            cases hof : Situation.ofRecords records id with
            | nothing => exact hfound
            | mine path record =>
              obtain ⟨hmem, hdescribes⟩ := mem_of_ofRecords hof
              exact ⟨hrecords _ hmem, hdescribes, .inr hfound⟩
            | sameModelElsewhere record => trivial

end

end Irlume.Emitter

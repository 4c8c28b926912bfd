import Irlume.EventLog.Pcr7
import Irlume.Lib.HashChain

/-!
# A verified reading is bound to the value of PCR 7

Two logs that account for the same value extended PCR 7 with the same digests: the replay is a hash chain from
zero. An event that is read hashes to its digest, so two of them with the same type and digest are the same
event.
-/

namespace Irlume.EventLog

open Irlume.Lib

variable {sha256 : List UInt8 → Vector UInt8 32}

/-! ## What a verified log satisfies -/

/-- What `verifiedPcr7` established when it accepted a log. -/
structure Accounts (sha256 : List UInt8 → Vector UInt8 32) (log : List UInt8) (value : Vector UInt8 32)
    (out : Pcr7) (es : List Event) : Prop where
  events : events log = some (es, true)
  replay : replay sha256 es 7 = some value
  reading : pcr7 sha256 es = out
  unverified : out.unverified = 0
  malformed : out.malformed = 0

variable {log : List UInt8}

variable {value : Vector UInt8 32}

theorem verifiedPcr7_ok_iff {out : Pcr7} :
    verifiedPcr7 sha256 log value = .ok out ↔ ∃ es, Accounts sha256 log value out es := by
  constructor
  · intro h
    obtain ⟨⟨es, complete⟩, hevents, h⟩ := bind_ok_iff.1 h
    have hevents := okOr_ok_iff.1 hevents
    cases complete with
    | false => cases h
    | true =>
      obtain ⟨replayed, hreplay, h⟩ := bind_ok_iff.1 h
      have hreplay := okOr_ok_iff.1 hreplay
      by_cases hvalue : replayed = value
      · subst hvalue
        simp only [ne_eq, not_true_eq_false, if_false] at h
        by_cases hunverified : 0 < (pcr7 sha256 es).unverified
        · rw [if_pos hunverified] at h
          cases h
        · rw [if_neg hunverified] at h
          by_cases hmalformed : 0 < (pcr7 sha256 es).malformed
          · rw [if_pos hmalformed] at h
            cases h
          · rw [if_neg hmalformed] at h
            cases h
            exact ⟨es, hevents, hreplay, rfl, Nat.eq_zero_of_not_pos hunverified,
              Nat.eq_zero_of_not_pos hmalformed⟩
      · simp only [ne_eq, hvalue, not_false_eq_true, if_true] at h
        cases h
  · rintro ⟨es, hevents, hreplay, rfl, hunverified, hmalformed⟩
    simp [verifiedPcr7, hevents, hreplay, hunverified, hmalformed, okOr, bind, Except.bind, pure,
      Except.pure]

/-! ## Replay -/

def loggedDigests (events : List Event) : List (List UInt8) :=
  (extended events 7).filterMap Event.sha256

theorem replay_eq_some {events : List Event} {pcr : UInt32}
    (h : replay sha256 events pcr = some value) :
    (extended events pcr).map Event.sha256 = ((extended events pcr).filterMap Event.sha256).map some ∧
      ((extended events pcr).filterMap Event.sha256).foldl (extendValue sha256) zeroValue = value := by
  unfold replay at h
  revert h
  generalize extended events pcr = es
  generalize zeroValue = start
  intro h
  induction es generalizing start with
  | nil => exact ⟨rfl, Option.some.inj h⟩
  | cons e es ih =>
    rw [List.foldlM_cons] at h
    obtain ⟨next, hnext, hrest⟩ := Option.bind_eq_some_iff.1 h
    obtain ⟨digest, hdigest, rfl⟩ := Option.map_eq_some_iff.1 hnext
    obtain ⟨hsome, hvalue⟩ := ih _ hrest
    rw [List.map_cons, List.filterMap_cons_some hdigest, List.map_cons, hsome, hdigest]
    exact ⟨rfl, hvalue⟩

/-- What reading a log hashes: the values and digests of the replay, and the data of the events whose
digest is checked. -/
def hashedInputs (sha256 : List UInt8 → Vector UInt8 32) (events : List Event) : List (List UInt8) :=
  (chainInputs (extendValue sha256) zeroValue (loggedDigests events)).map (fun x => x.1.toList ++ x.2) ++
    ((extended events 7).filter (isChecked sha256)).map Event.data

/-- What `verifiedPcr7` hashes on a log. -/
def usedInputs (sha256 : List UInt8 → Vector UInt8 32) (log : List UInt8) : List (List UInt8) :=
  ((events log).map fun e => hashedInputs sha256 e.1).getD []

structure CollisionFree (sha256 : List UInt8 → Vector UInt8 32) (inputs : List (List UInt8)) : Prop where
  injective : ∀ x ∈ inputs, ∀ y ∈ inputs, sha256 x = sha256 y → x = y
  ne_zero : ∀ x ∈ inputs, sha256 x ≠ zeroValue

variable {es : List Event}

theorem mem_usedInputs_chain {complete : Bool}
    (hevents : events log = some (es, complete)) {x : Vector UInt8 32 × List UInt8}
    (hx : x ∈ chainInputs (extendValue sha256) zeroValue (loggedDigests es)) :
    x.1.toList ++ x.2 ∈ usedInputs sha256 log := by
  rw [usedInputs, hevents]
  exact List.mem_append_left _ (List.mem_map.2 ⟨x, hx, rfl⟩)

variable {e : Event}

theorem mem_usedInputs_data {complete : Bool}
    (hevents : events log = some (es, complete)) (he : e ∈ extended es 7)
    (hchecked : isChecked sha256 e = true) : e.data ∈ usedInputs sha256 log := by
  rw [usedInputs, hevents]
  exact List.mem_append_right _ (List.mem_map_of_mem (List.mem_filter.2 ⟨he, hchecked⟩))

theorem extendValue_injective {inputs : List (List UInt8)} (hfree : CollisionFree sha256 inputs)
    {x y : Vector UInt8 32 × List UInt8} (hx : x.1.toList ++ x.2 ∈ inputs)
    (hy : y.1.toList ++ y.2 ∈ inputs)
    (h : extendValue sha256 x.1 x.2 = extendValue sha256 y.1 y.2) : x = y := by
  have hinput := hfree.injective _ hx _ hy h
  obtain ⟨hvalue, hdigest⟩ := List.append_inj hinput (by simp)
  exact Prod.ext (Vector.toList_inj.1 hvalue) hdigest

section Two

variable {log₁ log₂ : List UInt8} {value : Vector UInt8 32} {p₁ p₂ : Pcr7} {es₁ es₂ : List Event}

theorem Accounts.loggedDigests_eq (h₁ : Accounts sha256 log₁ value p₁ es₁)
    (h₂ : Accounts sha256 log₂ value p₂ es₂)
    (hfree : CollisionFree sha256 (usedInputs sha256 log₁ ++ usedInputs sha256 log₂)) :
    loggedDigests es₁ = loggedDigests es₂ := by
  have hleft : ∀ {x}, x ∈ chainInputs (extendValue sha256) zeroValue (loggedDigests es₁) →
      x.1.toList ++ x.2 ∈ usedInputs sha256 log₁ ++ usedInputs sha256 log₂ :=
    fun hx => List.mem_append_left _ (mem_usedInputs_chain h₁.events hx)
  have hright : ∀ {x}, x ∈ chainInputs (extendValue sha256) zeroValue (loggedDigests es₂) →
      x.1.toList ++ x.2 ∈ usedInputs sha256 log₁ ++ usedInputs sha256 log₂ :=
    fun hx => List.mem_append_right _ (mem_usedInputs_chain h₂.events hx)
  apply @foldl_injective _ _ (extendValue sha256) zeroValue
  · intro x hx y hy heq
    exact extendValue_injective hfree (hleft hx) (hright hy) heq
  · intro x hx
    exact hfree.ne_zero _ (hleft hx)
  · intro y hy
    exact hfree.ne_zero _ (hright hy)
  · exact (replay_eq_some h₁.replay).2.trans (replay_eq_some h₂.replay).2.symm

theorem Accounts.sha256_eq (h₁ : Accounts sha256 log₁ value p₁ es₁)
    (h₂ : Accounts sha256 log₂ value p₂ es₂)
    (hfree : CollisionFree sha256 (usedInputs sha256 log₁ ++ usedInputs sha256 log₂)) :
    (extended es₁ 7).map Event.sha256 = (extended es₂ 7).map Event.sha256 := by
  have hsame := h₁.loggedDigests_eq h₂ hfree
  unfold loggedDigests at hsame
  rw [(replay_eq_some h₁.replay).1, (replay_eq_some h₂.replay).1, hsame]

end Two

/-! ## Reading -/

section Unverified

variable (out : Pcr7) (data : List UInt8)

@[simp]
theorem readSecureBoot_unverified : (out.readSecureBoot data).unverified = out.unverified := by
  unfold Pcr7.readSecureBoot
  repeat' split
  all_goals rfl

@[simp]
theorem readConfiguration_unverified : (out.readConfiguration data).unverified = out.unverified := by
  unfold Pcr7.readConfiguration
  split
  · dsimp only
    split
    · exact readSecureBoot_unverified out _
    · rfl
  · rfl

@[simp]
theorem readAuthority_unverified : (out.readAuthority data).unverified = out.unverified := by
  unfold Pcr7.readAuthority
  split <;> rfl

@[simp]
theorem readSeparator_unverified : (out.readSeparator data).unverified = out.unverified := by
  unfold Pcr7.readSeparator
  split <;> rfl

@[simp]
theorem read_unverified (event : Event) : (out.read sha256 event).unverified = out.unverified := by
  unfold Pcr7.read
  repeat' split
  all_goals first | exact readConfiguration_unverified .. | exact readAuthority_unverified .. |
    exact readSeparator_unverified .. | rfl

end Unverified

theorem pcr7Step_unverified (state : Pcr7 × Bool) (event : Event) :
    (pcr7Step sha256 state event).1.unverified =
      state.1.unverified + if isUnverified sha256 event then 1 else 0 := by
  simp only [pcr7Step, read_unverified]
  repeat' split
  all_goals rfl

theorem pcr7_unverified (events : List Event) :
    (pcr7 sha256 events).unverified = (extended events 7).countP (isUnverified sha256) := by
  have hfold : ∀ (es : List Event) (state : Pcr7 × Bool),
      (es.foldl (pcr7Step sha256) state).1.unverified =
        state.1.unverified + es.countP (isUnverified sha256) := by
    intro es
    induction es with
    | nil => intro state; rfl
    | cons e es ih =>
      intro state
      rw [List.foldl_cons, ih, pcr7Step_unverified, List.countP_cons]
      omega
  rw [pcr7, hfold]
  exact Nat.zero_add _

theorem Accounts.verified {out : Pcr7}
    (h : Accounts sha256 log value out es) (he : e ∈ extended es 7)
    (hchecked : isChecked sha256 e = true) : e.sha256 = some (sha256 e.data).toList := by
  have hcount : (extended es 7).countP (isUnverified sha256) = 0 := by
    rw [← pcr7_unverified, h.reading, h.unverified]
  have hnot := List.countP_eq_zero.1 hcount e he
  simp only [isUnverified, hchecked, Bool.true_and, decide_eq_true_eq] at hnot
  exact not_not.1 hnot

variable {e₁ e₂ : Event}

theorem isErrorSeparator_congr (hkind : e₁.kind = e₂.kind)
    (hdigest : e₁.sha256 = e₂.sha256) :
    isErrorSeparator sha256 e₁ = isErrorSeparator sha256 e₂ := by
  rw [isErrorSeparator, isErrorSeparator, hkind, hdigest]

theorem isChecked_congr (hkind : e₁.kind = e₂.kind) (hdigest : e₁.sha256 = e₂.sha256) :
    isChecked sha256 e₁ = isChecked sha256 e₂ := by
  rw [isChecked, isChecked, hkind, isErrorSeparator_congr hkind hdigest]

theorem isUnverified_of_unchecked (h : isChecked sha256 e = false) :
    isUnverified sha256 e = false := by
  rw [isUnverified, h, Bool.false_and]

theorem read_congr_of_unchecked (hkind : e₁.kind = e₂.kind)
    (hdigest : e₁.sha256 = e₂.sha256) (hunchecked : isChecked sha256 e₁ = false) (out : Pcr7) :
    out.read sha256 e₁ = out.read sha256 e₂ := by
  have herror := @isErrorSeparator_congr sha256 _ _ hkind hdigest
  unfold Pcr7.read
  cases hseparator : isErrorSeparator sha256 e₁ with
  | true =>
    have hkind₁ : e₁.kind = evSeparator := by
      simp only [isErrorSeparator, Bool.and_eq_true, decide_eq_true_eq] at hseparator
      exact hseparator.1
    rw [hseparator] at herror
    simp [← herror, hkind₁, ← hkind, evSeparator, evEfiVariableDriverConfig, evEfiVariableAuthority,
      evEfiAction]
  | false =>
    simp only [isChecked, hseparator, Bool.not_false, Bool.and_true, isRead, Bool.or_eq_false_iff,
      decide_eq_false_iff_not] at hunchecked
    rw [hseparator] at herror
    obtain ⟨⟨⟨hconfig, hsep⟩, hauthority⟩, haction⟩ := hunchecked
    simp [← herror, ← hkind, hconfig, hsep, hauthority, haction]

/-- Of an event that is not read, the reading takes the type and the digest alone. -/
theorem pcr7Step_congr (hpcr : e₁.pcr = e₂.pcr) (hkind : e₁.kind = e₂.kind)
    (hdigest : e₁.sha256 = e₂.sha256) (hdata : isChecked sha256 e₁ = true → e₁.data = e₂.data)
    (state : Pcr7 × Bool) : pcr7Step sha256 state e₁ = pcr7Step sha256 state e₂ := by
  cases hchecked : isChecked sha256 e₁ with
  | true =>
    have hdata := hdata hchecked
    have hsame : e₁ = e₂ := by
      cases e₁
      cases e₂
      simp only at hpcr hkind hdigest hdata
      rw [hpcr, hkind, hdigest, hdata]
    rw [hsame]
  | false =>
    have hchecked₂ : isChecked sha256 e₂ = false := isChecked_congr hkind hdigest ▸ hchecked
    simp only [pcr7Step, isUnverified_of_unchecked hchecked, isUnverified_of_unchecked hchecked₂, hkind,
      Bool.false_eq_true, if_false, read_congr_of_unchecked hkind hdigest hchecked]

theorem foldl_pcr7Step_congr {l m : List Event} (hkind : l.map Event.kind = m.map Event.kind)
    (hdigest : l.map Event.sha256 = m.map Event.sha256)
    (hstep : ∀ e₁ ∈ l, ∀ e₂ ∈ m, e₁.kind = e₂.kind → e₁.sha256 = e₂.sha256 → ∀ state,
      pcr7Step sha256 state e₁ = pcr7Step sha256 state e₂) (state : Pcr7 × Bool) :
    l.foldl (pcr7Step sha256) state = m.foldl (pcr7Step sha256) state := by
  induction l generalizing m state with
  | nil =>
    rw [List.map_nil, eq_comm, List.map_eq_nil_iff] at hkind
    rw [hkind]
  | cons e₁ l ih =>
    cases m with
    | nil => cases hkind
    | cons e₂ m =>
      obtain ⟨hkind₁, hkinds⟩ := List.cons.inj hkind
      obtain ⟨hdigest₁, hdigests⟩ := List.cons.inj hdigest
      rw [List.foldl_cons, List.foldl_cons,
        hstep e₁ List.mem_cons_self e₂ List.mem_cons_self hkind₁ hdigest₁]
      apply ih hkinds hdigests
      intro e he e' he'
      exact hstep e (List.mem_cons_of_mem _ he) e' (List.mem_cons_of_mem _ he')

theorem pcr_of_mem_extended {events : List Event} {pcr : UInt32}
    (h : e ∈ extended events pcr) : e.pcr = pcr := by
  have hkept := (List.mem_filter.1 h).2
  simp only [Bool.and_eq_true, decide_eq_true_eq] at hkept
  exact hkept.1

theorem Accounts.reading_eq {log₁ log₂ : List UInt8} {value₁ value₂ : Vector UInt8 32} {p₁ p₂ : Pcr7}
    {es₁ es₂ : List Event} (h₁ : Accounts sha256 log₁ value₁ p₁ es₁)
    (h₂ : Accounts sha256 log₂ value₂ p₂ es₂)
    (hfree : CollisionFree sha256 (usedInputs sha256 log₁ ++ usedInputs sha256 log₂))
    (hkind : (extended es₁ 7).map Event.kind = (extended es₂ 7).map Event.kind)
    (hdigest : (extended es₁ 7).map Event.sha256 = (extended es₂ 7).map Event.sha256) : p₁ = p₂ := by
  rw [← h₁.reading, ← h₂.reading, pcr7, pcr7, foldl_pcr7Step_congr hkind hdigest]
  intro e₁ he₁ e₂ he₂ hkind' hdigest'
  apply pcr7Step_congr _ hkind' hdigest'
  · intro hchecked
    have hchecked₂ : isChecked sha256 e₂ = true := isChecked_congr hkind' hdigest' ▸ hchecked
    have hhash := Option.some.inj ((h₁.verified he₁ hchecked).symm.trans
      (hdigest'.trans (h₂.verified he₂ hchecked₂)))
    apply hfree.injective _ _ _ _ (Vector.toList_inj.1 hhash)
    · exact List.mem_append_left _ (mem_usedInputs_data h₁.events he₁ hchecked)
    · exact List.mem_append_right _ (mem_usedInputs_data h₂.events he₂ hchecked₂)
  · rw [pcr_of_mem_extended he₁, pcr_of_mem_extended he₂]

/-! ## The reading is bound to the value -/

/-- **A verified reading of PCR 7 is bound to its value.** As long as SHA-256 is injective on what was
hashed and does not hash it to zero, two logs that account for the same value extended PCR 7 with the
same SHA-256 digests in the same order; when the types of those events are the same too, the
readings are equal. -/
theorem verified_pcr7_bound {log₁ log₂ : List UInt8} {value : Vector UInt8 32} {p₁ p₂ : Pcr7}
    (hfree : CollisionFree sha256 (usedInputs sha256 log₁ ++ usedInputs sha256 log₂))
    (h₁ : verifiedPcr7 sha256 log₁ value = .ok p₁) (h₂ : verifiedPcr7 sha256 log₂ value = .ok p₂) :
    ∃ es₁ es₂, events log₁ = some (es₁, true) ∧ events log₂ = some (es₂, true) ∧
      (extended es₁ 7).length = (extended es₂ 7).length ∧
      (extended es₁ 7).map Event.sha256 = (extended es₂ 7).map Event.sha256 ∧
      (∀ e ∈ extended es₁ 7, e.sha256.isSome) ∧
      ((extended es₁ 7).map Event.kind = (extended es₂ 7).map Event.kind → p₁ = p₂) := by
  obtain ⟨es₁, h₁⟩ := verifiedPcr7_ok_iff.1 h₁
  obtain ⟨es₂, h₂⟩ := verifiedPcr7_ok_iff.1 h₂
  have hdigest := h₁.sha256_eq h₂ hfree
  refine ⟨es₁, es₂, h₁.events, h₂.events, ?_, hdigest, ?_, fun hkind => h₁.reading_eq h₂ hfree hkind hdigest⟩
  · have hlength := congrArg List.length hdigest
    rwa [List.length_map, List.length_map] at hlength
  · intro e he
    have hmem : e.sha256 ∈ (extended es₁ 7).map Event.sha256 := List.mem_map_of_mem he
    rw [(replay_eq_some h₁.replay).1] at hmem
    obtain ⟨digest, -, hdigest⟩ := List.mem_map.1 hmem
    rw [← hdigest]
    rfl

/-! ## A laptop's log -/

def laptopSecureBoot : List UInt8 :=
  efiGlobalVariable.toList ++ [10, 0, 0, 0, 0, 0, 0, 0] ++ [1, 0, 0, 0, 0, 0, 0, 0] ++
    secureBootName.flatMap (fun c => [UInt8.ofNat c.toNat, 0]) ++ [1]

def laptopSecureBootDigest : Vector UInt8 32 :=
  #v[0xcc, 0xfc, 0x4b, 0xb3, 0x28, 0x88, 0xa3, 0x45, 0xbc, 0x8a, 0xea, 0xda, 0xba, 0x55, 0x2b,
     0x62, 0x7d, 0x99, 0x34, 0x8c, 0x76, 0x76, 0x81, 0xab, 0x31, 0x41, 0xf5, 0xb0, 0x1e, 0x40,
     0xa4, 0x0e]

def laptopSeparatorDigest : Vector UInt8 32 :=
  #v[0xdf, 0x3f, 0x61, 0x98, 0x04, 0xa9, 0x2f, 0xdb, 0x40, 0x57, 0x19, 0x2d, 0xc4, 0x3d, 0xd7,
     0x48, 0xea, 0x77, 0x8a, 0xdc, 0x52, 0xbc, 0x49, 0x8c, 0xe8, 0x05, 0x24, 0xc0, 0x14, 0xb8,
     0x11, 0x19]

def laptopFirstValue : Vector UInt8 32 :=
  #v[0xe5, 0x8a, 0xda, 0x1b, 0xa7, 0x5f, 0x2e, 0x47, 0x22, 0xb5, 0x39, 0x82, 0x45, 0x98, 0xad,
     0x5e, 0x10, 0xc5, 0x5f, 0x2e, 0x4a, 0xea, 0xb2, 0x03, 0x3f, 0x3b, 0x0a, 0x8e, 0xe3, 0xf3,
     0xec, 0xa6]

def laptopValue : Vector UInt8 32 :=
  #v[0x3a, 0x76, 0x5f, 0xab, 0x0c, 0x45, 0x55, 0xe8, 0x05, 0x96, 0x4d, 0x8c, 0x75, 0x23, 0x18,
     0x94, 0xf4, 0x5c, 0x5a, 0x6f, 0x21, 0x61, 0x73, 0x8c, 0xf1, 0x57, 0x01, 0x52, 0x50, 0xa3,
     0xe6, 0x24]

def laptopSha256 (bs : List UInt8) : Vector UInt8 32 :=
  if bs = laptopSecureBoot then laptopSecureBootDigest
  else if bs = [0, 0, 0, 0] then laptopSeparatorDigest
  else if bs = [1, 0, 0, 0] then
    #v[0x67, 0xab, 0xdd, 0x72, 0x10, 0x24, 0xf0, 0xff, 0x4e, 0x0b, 0x3f, 0x4c, 0x2f, 0xc1, 0x3b,
       0xc5, 0xba, 0xd4, 0x2d, 0x0b, 0x78, 0x51, 0xd4, 0x56, 0xd8, 0x8d, 0x20, 0x3d, 0x15, 0xaa,
       0xa4, 0x50]
  else if bs = zeroValue.toList ++ laptopSecureBootDigest.toList then laptopFirstValue
  else laptopValue

def laptopHeader : List UInt8 :=
  [0, 0, 0, 0, 3, 0, 0, 0] ++ List.replicate 20 0 ++ [33, 0, 0, 0] ++ specIdEvent03 ++
    [0, 0, 0, 0, 0, 2, 0, 2, 1, 0, 0, 0, 0x0b, 0, 32, 0, 0]

def laptopEvent (pcr : UInt8) (kind : List UInt8) (digest : Vector UInt8 32) (data : List UInt8) :
    List UInt8 :=
  [pcr, 0, 0, 0] ++ kind ++ [1, 0, 0, 0, 0x0b, 0] ++ digest.toList ++
    [UInt8.ofNat data.length, 0, 0, 0] ++ data

def laptopLog : List UInt8 :=
  laptopHeader ++ laptopEvent 7 [1, 0, 0, 0x80] laptopSecureBootDigest laptopSecureBoot ++
    laptopEvent 7 [4, 0, 0, 0] laptopSeparatorDigest [0, 0, 0, 0]

def laptopLongerLog : List UInt8 :=
  laptopHeader ++ laptopEvent 0 [4, 0, 0, 0] laptopSeparatorDigest [0, 0, 0, 0] ++
    laptopEvent 7 [1, 0, 0, 0x80] laptopSecureBootDigest laptopSecureBoot ++
    laptopEvent 7 [3, 0, 0, 0] zeroValue [5] ++
    laptopEvent 7 [4, 0, 0, 0] laptopSeparatorDigest [0, 0, 0, 0]

def laptopReading : Pcr7 :=
  { secureBoot := some true
    configuration := [{ guid := efiGlobalVariable, name := secureBootName, data := true }]
    leadingConfiguration := 1 }

/-- Two logs of one value, the longer one with events that are not read. -/
theorem verified_pcr7_bound_laptop :
    verifiedPcr7 laptopSha256 laptopLog laptopValue = .ok laptopReading ∧
      ∃ es₁ es₂, events laptopLog = some (es₁, true) ∧ events laptopLongerLog = some (es₂, true) ∧
        (extended es₁ 7).length = (extended es₂ 7).length ∧
        (extended es₁ 7).map Event.sha256 = (extended es₂ 7).map Event.sha256 ∧
        (∀ e ∈ extended es₁ 7, e.sha256.isSome) ∧
        ((extended es₁ 7).map Event.kind = (extended es₂ 7).map Event.kind →
          laptopReading = laptopReading) := by
  have hfirst : verifiedPcr7 laptopSha256 laptopLog laptopValue = .ok laptopReading := by
    decide +kernel
  have hlonger : verifiedPcr7 laptopSha256 laptopLongerLog laptopValue = .ok laptopReading := by
    decide +kernel
  have hfree : CollisionFree laptopSha256
      (usedInputs laptopSha256 laptopLog ++ usedInputs laptopSha256 laptopLongerLog) :=
    ⟨by decide +kernel, by decide +kernel⟩
  exact ⟨hfirst, verified_pcr7_bound hfree hfirst hlonger⟩

end Irlume.EventLog

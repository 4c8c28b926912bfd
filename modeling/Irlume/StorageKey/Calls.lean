import Irlume.StorageKey.Settle

/-!
# What the calls do

One rule for each call: what its answer says of the world it was made in, and what it leaves.
-/

namespace Irlume.StorageKey

open Irlume.Lib

/-- What a step is to keep to: which answers it may be given, what holds between its calls, and what holds when
it writes a file, evicts a key or answers doctor. -/
structure Contract where
  allowed : World → Op → Choice → Prop
  keeps : World → Prop
  saves : World → Record → Prop
  publishes : World → EnvelopeId → Option ParentKey → Prop
  evicts : World → Handle → Bytes → Prop
  replies : World → List StorageKeyEntry → Prop

def Contract.asks (c : Contract) (w : World) : Op → Prop
  | .saveRecord record => c.saves w record
  | .writeEnvelope id parent => c.publishes w id parent
  | .evict handle name => c.evicts w handle name
  | .reply entries => c.replies w entries
  | _ => True

/-- Whatever the world answers among what is allowed, the step keeps to the contract, and `Q` holds of a success. -/
abbrev SafeIn (c : Contract) {α : Type} (Q : α → World → Prop) (p : Run α) (w : World) : Prop :=
  Fallible.Guarded (Program.reactsBy World.perform c.allowed) c.keeps c.asks Q (fun _ _ => True) p w

variable {c : Contract} {w : World}

/-! ## The files -/

theorem safe_bootId {Q : Option Boot → World → Prop} (hI : c.keeps w)
    (h : ∀ boot, boot = none ∨ boot = some w.boot → Q boot w) : SafeIn c Q bootId w := by
  refine ⟨hI, trivial, fun a t ⟨ch, _, ht⟩ => ?_⟩
  cases ch <;> cases ht
  · exact ⟨hI, h _ (.inr rfl)⟩
  · exact ⟨hI, h _ (.inl rfl)⟩

theorem safe_plan {Q : Except Text Plan → World → Prop} (hI : c.keeps w)
    (h : ∀ plan, c.allowed w .plan (.plan plan) → Q plan w) : SafeIn c Q daExemptKeyPlan w := by
  refine ⟨hI, trivial, fun a t ⟨ch, hch, ht⟩ => ?_⟩
  cases ch <;> cases ht
  exact ⟨hI, h _ hch⟩

theorem safe_lock {Q : Unit → World → Prop} (hI : c.keeps w) (h : Q () w) : SafeIn c Q lock w := by
  refine ⟨hI, trivial, fun a t ⟨ch, _, ht⟩ => ?_⟩
  cases ch <;> cases ht
  · exact ⟨hI, h⟩
  · exact ⟨hI, trivial⟩

theorem safe_readRecord {Q : Record → World → Prop} {publishing : Option EnvelopeId} (hI : c.keeps w)
    (h : Q w.disk.loaded w) (hfails : ∀ e, c.allowed w (.loadRecord publishing) (.fails e) → Q default w) :
    SafeIn c Q (.lift (call (.loadRecord publishing))) w := by
  refine ⟨hI, trivial, fun a t ⟨ch, hch, ht⟩ => ?_⟩
  cases ch <;> cases ht
  · exact ⟨hI, h⟩
  · exact ⟨hI, hfails _ hch⟩

theorem safe_saveRecord {Q : Unit → World → Prop} {record : Record} (hI : c.keeps w)
    (hsaves : c.saves w record)
    (hwrite : ∀ o, c.allowed w (.saveRecord record) (.file o) → c.keeps { w with disk := w.disk.saveRecord o record })
    (h : Q () { w with disk := w.disk.saveRecord .durable record }) :
    SafeIn c Q (saveRecord record) w := by
  refine ⟨hI, hsaves, fun a t ⟨ch, hch, ht⟩ => ?_⟩
  cases ch with
  | file o =>
    cases ht
    cases o with
    | durable => exact ⟨hwrite _ hch, h⟩
    | failed => exact ⟨hwrite _ hch, trivial⟩
    | visible => exact ⟨hwrite _ hch, trivial⟩
  | _ => cases ht

theorem safe_envelopePaths {Q : List EnvelopeId → World → Prop} {kind : EnvelopeKind} (hI : c.keeps w)
    (h : ∀ ids, c.allowed w (.envelopePaths kind) (.skips ids) → Q ((w.disk.paths kind).filter (· ∉ ids)) w) :
    SafeIn c Q (envelopePaths kind) w := by
  refine ⟨hI, trivial, fun a t ⟨ch, hch, ht⟩ => ?_⟩
  cases ch <;> cases ht
  · exact ⟨hI, trivial⟩
  · exact ⟨hI, h _ hch⟩

theorem safe_loadEnvelope {Q : Option (Option ParentKey) → World → Prop} {id : EnvelopeId} (hI : c.keeps w)
    (hnone : Q none w)
    (hsome : ∀ parent, (w.disk.envelopes id).visible = some (.sealed parent) → Q (some parent) w) :
    SafeIn c Q (loadEnvelope id) w := by
  refine ⟨hI, trivial, fun a t ⟨ch, hch, ht⟩ => ?_⟩
  cases ch <;> try cases ht
  · refine ⟨hI, ?_⟩
    change Q _ _
    split
    · next parent hvisible => exact hsome parent hvisible
    · exact hnone
  · exact ⟨hI, hnone⟩

variable {Q : Bool → World → Prop}

theorem safe_metadata {id : EnvelopeId} (hI : c.keeps w)
    (h : Q (w.disk.envelopes id).visible.isSome w)
    (hfails : ∀ e, c.allowed w (.metadata id) (.fails e) → Q false w) : SafeIn c Q (metadata id) w := by
  refine ⟨hI, trivial, fun a t ⟨ch, hch, ht⟩ => ?_⟩
  cases ch <;> cases ht
  · exact ⟨hI, h⟩
  · exact ⟨hI, hfails _ hch⟩

theorem safe_writeEnvelope {Q : AtomicWrite → World → Prop} {id : EnvelopeId} {parent : Option ParentKey}
    (hI : c.keeps w) (hpublishes : c.publishes w id parent)
    (hwrite : ∀ o, c.allowed w (.writeEnvelope id parent) (.file o) →
      c.keeps { w with disk := w.disk.writeEnvelope o id parent })
    (h : ∀ written o, o ≠ .failed → Q written { w with disk := w.disk.writeEnvelope o id parent }) :
    SafeIn c Q (writeEnvelope id parent) w := by
  refine ⟨hI, hpublishes, fun a t ⟨ch, hch, ht⟩ => ?_⟩
  cases ch with
  | file o =>
    cases ht
    cases o with
    | durable => exact ⟨hwrite _ hch, h .durable .durable (by simp)⟩
    | failed => exact ⟨hwrite _ hch, trivial⟩
    | visible => exact ⟨hwrite _ hch, h .visibleNotDurable .visible (by simp)⟩
  | _ => cases ht

theorem safe_reply {Q : Unit → World → Prop} {entries : List StorageKeyEntry} (hI : c.keeps w)
    (hreplies : c.replies w entries) (h : Q () w) : SafeIn c Q (reply entries) w := by
  refine ⟨hI, hreplies, fun a t ⟨ch, _, ht⟩ => ?_⟩
  cases ch <;> cases ht
  exact ⟨hI, h⟩

/-! ## The TPM -/

theorem safe_openTpm {Q : Unit → World → Prop} (hI : c.keeps w) (hopened : c.keeps { w with tpm := w.tpm.opened })
    (h : Q () { w with tpm := w.tpm.opened }) : SafeIn c Q openTpm w := by
  refine ⟨hI, trivial, fun a t ⟨ch, _, ht⟩ => ?_⟩
  cases ch <;> cases ht
  · exact ⟨hopened, h⟩
  · exact ⟨hI, trivial⟩

variable {handle : Handle}

theorem safe_nameAt {Q : Option Bytes → World → Prop} (hI : c.keeps w)
    (h : Q ((w.tpm.key handle).map (·.name)) w) : SafeIn c Q (nameAt handle) w := by
  refine ⟨hI, trivial, fun a t ⟨ch, _, ht⟩ => ?_⟩
  cases ch <;> cases ht
  · exact ⟨hI, h⟩
  · exact ⟨hI, trivial⟩

theorem safe_persistentAvail {Q : Nat → World → Prop} (hI : c.keeps w) (h : ∀ n, Q n w) :
    SafeIn c Q persistentAvail w := by
  refine ⟨hI, trivial, fun a t ⟨ch, _, ht⟩ => ?_⟩
  cases ch <;> cases ht
  · exact ⟨hI, trivial⟩
  · exact ⟨hI, h _⟩

theorem safe_derive {Q : Except Failure Bytes → World → Prop} (hI : c.keeps w) (herror : ∀ failure, Q (.error failure) w)
    (hderived : ∀ key, c.keeps { w with tpm := w.tpm.derivedKey key })
    (h : ∀ key, Q (.ok key.name) { w with tpm := w.tpm.derivedKey key }) : SafeIn c Q derive w := by
  refine ⟨hI, trivial, fun a t ⟨ch, _, ht⟩ => ?_⟩
  cases ch <;> cases ht
  · exact ⟨hI, herror _⟩
  · exact ⟨hderived _, h _⟩

theorem safe_ownerNames {Q : List (Handle × Bytes) → World → Prop} (hI : c.keeps w) (h : Q w.tpm.owners w) :
    SafeIn c Q ownerNames w := by
  refine ⟨hI, trivial, fun a t ⟨ch, _, ht⟩ => ?_⟩
  cases ch <;> cases ht
  · exact ⟨hI, h⟩
  · exact ⟨hI, trivial⟩

theorem safe_persist {Q : Except Failure Unit → World → Prop} (hI : c.keeps w)
    (herror : ∀ failure, Q (.error failure) w)
    (hpersisted : ∀ key, w.tpm.key handle = none → c.keeps { w with tpm := w.tpm.persisted handle key })
    (h : ∀ key answer, w.tpm.key handle = none → Q answer { w with tpm := w.tpm.persisted handle key }) :
    SafeIn c Q (persist handle) w := by
  refine ⟨hI, trivial, fun a t ⟨ch, _, ht⟩ => ?_⟩
  cases ch with
  | works =>
    simp only [World.perform, World.worked] at ht
    split at ht
    · next key hfree _ =>
      cases ht
      exact ⟨hpersisted key hfree, h key _ hfree⟩
    · cases ht
  | lost e =>
    simp only [World.perform, World.lost] at ht
    split at ht
    · next key hfree _ =>
      cases ht
      exact ⟨hpersisted key hfree, h key _ hfree⟩
    · cases ht
  | refuses failure =>
    cases ht
    exact ⟨hI, herror failure⟩
  | _ => cases ht

theorem safe_derivesOriginal {Q : Option Bool → World → Prop} (hI : c.keeps w) (hnone : Q none w)
    (hcompared : ∀ key gives, c.keeps { w with tpm := w.tpm.compared handle key gives })
    (h : ∀ key gives, w.tpm.key handle = some key →
      Q (some gives) { w with tpm := w.tpm.compared handle key gives }) :
    SafeIn c Q (derivesOriginal handle) w := by
  refine ⟨hI, trivial, fun a t ⟨ch, _, ht⟩ => ?_⟩
  cases ch with
  | tells gives =>
    simp only [World.perform] at ht
    split at ht
    · next key hkey =>
      split at ht
      · cases ht
        exact ⟨hcompared key gives, h key gives hkey⟩
      · cases ht
        exact ⟨hI, hnone⟩
    · cases ht
      exact ⟨hI, hnone⟩
  | fails e =>
    cases ht
    exact ⟨hI, trivial⟩
  | _ => cases ht

theorem safe_evict {name : Bytes} (hI : c.keeps w)
    (hevicts : c.evicts w handle name) (hevicted : c.keeps { w with tpm := w.tpm.evicted handle }) (hstays : Q false w)
    (h : Q true { w with tpm := w.tpm.evicted handle }) : SafeIn c Q (evict handle name) w := by
  refine ⟨hI, hevicts, fun a t ⟨ch, _, ht⟩ => ?_⟩
  cases ch with
  | works =>
    simp only [World.perform, World.worked] at ht
    split at ht
    · cases ht
      exact ⟨hevicted, h⟩
    · cases ht
      exact ⟨hI, hstays⟩
  | lost e =>
    simp only [World.perform, World.lost] at ht
    split at ht
    · cases ht
      exact ⟨hevicted, trivial⟩
    · cases ht
  | fails e =>
    cases ht
    exact ⟨hI, trivial⟩
  | _ => cases ht

theorem safe_holdsDaExemptKey {name : Bytes} (hI : c.keeps w)
    (h : Q (w.tpm.holds handle name) w) : SafeIn c Q (holdsDaExemptKey handle name) w := by
  refine ⟨hI, trivial, fun a t ⟨ch, _, ht⟩ => ?_⟩
  cases ch <;> cases ht
  · exact ⟨hI, h⟩
  · exact ⟨hI, trivial⟩

theorem safe_isWeak (hI : c.keeps w) (h : ∀ weak, Q weak w) :
    SafeIn c Q (isWeak handle) w := by
  refine ⟨hI, trivial, fun a t ⟨ch, _, ht⟩ => ?_⟩
  cases ch <;> cases ht
  · exact ⟨hI, trivial⟩
  · exact ⟨hI, h _⟩

theorem safe_derivedIsWeak (hI : c.keeps w) (h : ∀ weak, Q weak w) :
    SafeIn c Q derivedIsWeak w := by
  refine ⟨hI, trivial, fun a t ⟨ch, _, ht⟩ => ?_⟩
  cases ch <;> cases ht
  · exact ⟨hI, trivial⟩
  · exact ⟨hI, h _⟩

theorem safe_firmware {Q : Nat × Nat → World → Prop} (hI : c.keeps w) (h : ∀ version, Q version w) :
    SafeIn c Q firmware w := by
  refine ⟨hI, trivial, fun a t ⟨ch, _, ht⟩ => ?_⟩
  cases ch <;> cases ht
  · exact ⟨hI, trivial⟩
  · exact ⟨hI, h _⟩

theorem safe_keyCheck {Q : StorageKeyCheck → World → Prop} {name : Bytes} (hI : c.keeps w)
    (h : ∀ check, Q check w) : SafeIn c Q (daExemptKeyCheck handle name) w := by
  refine ⟨hI, trivial, fun a t ⟨ch, _, ht⟩ => ?_⟩
  cases ch <;> cases ht
  · exact ⟨hI, trivial⟩
  · exact ⟨hI, h _⟩

end Irlume.StorageKey

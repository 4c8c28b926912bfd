import Irlume.Cameras.Store
import Irlume.Lib.Machine

/-!
# Publishing the secondary store

A publication writes an intent journal that carries the new store, then the store, then removes the
journal; each write is one rename. Whoever finds a journal completes the publication from the bytes in
it (`resolve_commit`), and every mutation resolves before it loads the store it changes.

The mutators of an account are serialized, so the machine has one of them at a time, stopped at any
point between two file steps. What serialization to JSON, base64 and the cipher do is not this
repository's: `Codec` has their functions, and `Codec.Lawful` what is relied on.
-/

namespace Irlume.Cameras

open Irlume.Lib

abbrev Bytes := List UInt8

structure CommitIntent where
  formatVersion : Nat
  generation : Nat
  primarySnapshotSha256 : Text
  newSecondaryB64 : Text
  deriving DecidableEq

/-- The fields of a JSON document that are looked up by name. -/
structure Doc where
  formatVersion : Option Nat
  keyId : Option Text
  enc : Option Text

/-- Serialization, base64, the cipher and the digest. -/
structure Codec (Scan Calib : Type) where
  storeJson : SecondaryStore Scan Calib → Bytes
  readStore : Bytes → Option (SecondaryStore Scan Calib)
  envelopeJson : Nat → Text → Text → Bytes
  readDoc : Bytes → Option Doc
  intentJson : CommitIntent → Bytes
  readIntent : Bytes → Option CommitIntent
  encode64 : Bytes → Text
  decode64 : Text → Option Bytes
  encrypt : Bytes → Bytes → Bytes → Bytes
  decrypt : Bytes → Bytes → Option Bytes
  sha256Hex : Bytes → Text

variable {Scan Calib : Type}

/-- What was written reads back as what it was, or not at all; of a store only the generation is relied
on. -/
structure Codec.Lawful (c : Codec Scan Calib) : Prop where
  readIntent_intentJson : ∀ i i', c.readIntent (c.intentJson i) = some i' → i' = i
  decode64_encode64 : ∀ b b', c.decode64 (c.encode64 b) = some b' → b' = b
  readStore_storeJson : ∀ s s', c.readStore (c.storeJson s) = some s' → s'.generation = s.generation
  readDoc_storeJson : ∀ s d, c.readDoc (c.storeJson s) = some d → d.formatVersion = some s.formatVersion
  readDoc_envelopeJson : ∀ v k e d, c.readDoc (c.envelopeJson v k e) = some d →
    d = ⟨some v, some k, some e⟩
  decrypt_encrypt : ∀ k k' n p x, c.decrypt k' (c.encrypt k n p) = some x → x = p

def secondaryEncEnvelopeVersion : Nat := 2
def intentFormatVersion : Nat := 1
def maxStoreBytes : Nat := 8 * 1024 * 1024

inductive CommitError where
  | store (error : SecondaryStoreError)
  | corruptJournal
  | unsupportedJournalVersion (version : Nat)
  | payloadUndecodable
  | payloadCorrupt
  | noFormatVersion
  | noUsableKeyId
  | noEncField
  | encNotBase64
  | implausiblyShort
  | disagreesWithMetadata

inductive CommitResolution where
  | clean
  | completed

/-! ## Loading -/

/-- The store in an envelope, opened with `key`. -/
def Codec.openEnvelope (c : Codec Scan Calib) (doc : Doc) (key : Option Bytes) :
    Except SecondaryStoreError Bytes := do
  let key ← okOr key
    (.invalid "the secondary store is encrypted and its template key is unavailable")
  let claimed ← okOr doc.keyId (.corrupt "encrypted store has no key_id")
  if claimed ≠ c.sha256Hex key then
    .error (.corrupt "the store was encrypted with a different template key")
  else do
    let enc ← okOr doc.enc (.corrupt "encrypted store has no enc field")
    let blob ← okOr (c.decode64 enc) (.corrupt "enc is not base64: ")
    okOr (c.decrypt key blob) (.corrupt "store failed to decrypt: ")

/-- `parse_store_bytes`: plaintext, or an envelope. -/
def Codec.parseStoreBytes (c : Codec Scan Calib) (bytes : Bytes) (key : Option Bytes) :
    Except SecondaryStoreError (SecondaryStore Scan Calib) := do
  let doc ← okOr (c.readDoc bytes) (.corrupt [])
  let declared ← okOr doc.formatVersion (.corrupt "no format_version")
  let storeBytes ←
    (if declared = secondaryStoreVersion then .ok bytes
    else if declared = secondaryEncEnvelopeVersion then c.openEnvelope doc key
    else .error (.incompatibleVersion (min declared (2 ^ 32 - 1))))
  let store ← okOr (c.readStore storeBytes) (.corrupt [])
  store.validate
  return store

/-- `load_secondary_with_key` on a file that exists. -/
def Codec.load (c : Codec Scan Calib) (key : Option Bytes) (bytes : Bytes) :
    Except SecondaryStoreError (SecondaryStore Scan Calib) :=
  if maxStoreBytes < bytes.length then
    .error (.invalid ("store larger than " ++ decimal maxStoreBytes ++ " bytes"))
  else c.parseStoreBytes bytes key

/-! ## Preparing a publication -/

/-- A publication that is ready: the bytes of the store and those of its journal. -/
structure PreparedSecondaryCommit (Scan Calib : Type) where
  store : SecondaryStore Scan Calib
  bytes : Bytes
  journal : Bytes

def Codec.storeBytes (c : Codec Scan Calib) (store : SecondaryStore Scan Calib) (key : Option Bytes)
    (nonce : Bytes) : Bytes :=
  match key with
  | some key =>
    c.envelopeJson secondaryEncEnvelopeVersion (c.sha256Hex key)
      (c.encode64 (c.encrypt key nonce (c.storeJson store)))
  | none => c.storeJson store

def Codec.prepareWithIntentKey (c : Codec Scan Calib) (store : SecondaryStore Scan Calib)
    (primarySnapshotSha256 : Text) (key : Option Bytes) (nonce : Bytes) :
    Except CommitError (PreparedSecondaryCommit Scan Calib) :=
  match store.validate with
  | .error e => .error (.store e)
  | .ok _ =>
    if store.primarySnapshotSha256 ≠ primarySnapshotSha256 then
      .error (.store (.invalid "store binding disagrees with the transaction's primary digest"))
    else
      .ok { store
            bytes := c.storeBytes store key nonce
            journal := c.intentJson
              { formatVersion := intentFormatVersion
                generation := store.generation
                primarySnapshotSha256
                newSecondaryB64 := c.encode64 (c.storeBytes store key nonce) } }

/-! ## Reading a journal -/

def Codec.checkEnvelope (c : Codec Scan Calib) (doc : Doc) : Except CommitError Unit := do
  let _ ← okOr (doc.keyId.filter (· ≠ [])) .noUsableKeyId
  let enc ← okOr doc.enc .noEncField
  let blob ← okOr (c.decode64 enc) .encNotBase64
  refuseIf (blob.length ≤ 12 + 16) .implausiblyShort

def Codec.checkPlain (c : Codec Scan Calib) (intent : CommitIntent) (bytes : Bytes) :
    Except CommitError Unit := do
  let store ← okOr (c.readStore bytes) .payloadCorrupt
  match store.validate with
  | .error e => .error (.store e)
  | .ok _ =>
    refuseIf (store.generation ≠ intent.generation ||
      store.primarySnapshotSha256 ≠ intent.primarySnapshotSha256) .disagreesWithMetadata

def Codec.journalPayload (c : Codec Scan Calib) (journal : Bytes) : Except CommitError Bytes := do
  let intent ← okOr (c.readIntent journal) .corruptJournal
  refuseIf (intent.formatVersion ≠ intentFormatVersion)
    (.unsupportedJournalVersion intent.formatVersion)
  let bytes ← okOr (c.decode64 intent.newSecondaryB64) .payloadUndecodable
  let doc ← okOr (c.readDoc bytes) .payloadCorrupt
  let declared ← okOr doc.formatVersion .noFormatVersion
  (if declared = secondaryEncEnvelopeVersion then c.checkEnvelope doc else c.checkPlain intent bytes)
  return bytes

/-! ## The machine -/

/-- Where the mutator of an account stands. -/
inductive Doing (Scan Calib : Type) where
  | idle
  /-- `resolve_commit` has read a journal and renames its payload over the store next. -/
  | completing (payload : Bytes)
  /-- `resolve_commit` removes the journal next. -/
  | dropping
  /-- `resolve_commit` has returned. -/
  | resolved (resolution : CommitResolution)
  | loaded (current : Option (SecondaryStore Scan Calib))
  /-- `publish` renames the journal into place next. -/
  | publishing (commit : PreparedSecondaryCommit Scan Calib)
  /-- `publish` renames the store into place next. -/
  | journaled (commit : PreparedSecondaryCommit Scan Calib)
  /-- `publish` removes the journal next. -/
  | stored (commit : PreparedSecondaryCommit Scan Calib)

/-- The two files and the mutator. `prepared` and `visible` are history: every publication prepared so
far, and the last one whose journal became visible. -/
structure Publishing (Scan Calib : Type) where
  journal : Option Bytes
  store : Option Bytes
  doing : Doing Scan Calib
  prepared : List (PreparedSecondaryCommit Scan Calib)
  visible : Option (PreparedSecondaryCommit Scan Calib)

inductive PublishEvent (Scan Calib : Type) where
  /-- `resolve_commit` reads the journal. -/
  | resolve
  | renameStore
  | removeJournal
  | load (key : Option Bytes)
  | prepare (store : SecondaryStore Scan Calib) (primarySnapshotSha256 : Text) (key : Option Bytes)
      (nonce : Bytes)
  | renameJournal
  /-- The mutator returns, fails or crashes. -/
  | stop

def laterThan (store : SecondaryStore Scan Calib) (current : Option (SecondaryStore Scan Calib)) : Bool :=
  current.all fun c => c.generation < store.generation

def resolveStep (c : Codec Scan Calib) (s : Publishing Scan Calib) : Publishing Scan Calib :=
  match s.journal with
  | none => { s with doing := .resolved .clean }
  | some journal =>
    match c.journalPayload journal with
    | .error _ => { s with doing := .idle }
    | .ok payload => { s with doing := .completing payload }

def loadStep (c : Codec Scan Calib) (key : Option Bytes) (s : Publishing Scan Calib) :
    Publishing Scan Calib :=
  match s.store with
  | none => { s with doing := .loaded none }
  | some bytes =>
    match c.load key bytes with
    | .error _ => { s with doing := .idle }
    | .ok store => { s with doing := .loaded (some store) }

def publishStep (c : Codec Scan Calib) (s : Publishing Scan Calib) :
    PublishEvent Scan Calib → Option (Publishing Scan Calib)
  | .resolve =>
    match s.doing with
    | .idle => some (resolveStep c s)
    | .resolved _ => some (resolveStep c s)
    | _ => none
  | .renameStore =>
    match s.doing with
    | .completing payload => some { s with store := some payload, doing := .dropping }
    | .journaled p => some { s with store := some p.bytes, doing := .stored p }
    | _ => none
  | .removeJournal =>
    match s.doing with
    | .dropping => some { s with journal := none, doing := .resolved .completed }
    | .stored _ => some { s with journal := none, doing := .idle }
    | _ => none
  | .load key =>
    match s.doing with
    | .resolved _ => some (loadStep c key s)
    | _ => none
  | .prepare store digest key nonce =>
    match s.doing with
    | .loaded current =>
      if laterThan store current then
        match c.prepareWithIntentKey store digest key nonce with
        | .error _ => some { s with doing := .idle }
        | .ok p => some { s with doing := .publishing p, prepared := s.prepared ++ [p] }
      else none
    | _ => none
  | .renameJournal =>
    match s.doing with
    | .publishing p => some { s with journal := some p.journal, doing := .journaled p, visible := some p }
    | _ => none
  | .stop => some { s with doing := .idle }

/-! ## What a prepared publication reads back as -/

def Made (c : Codec Scan Calib) (p : PreparedSecondaryCommit Scan Calib) : Prop :=
  ∃ digest key nonce, c.prepareWithIntentKey p.store digest key nonce = .ok p

variable {c : Codec Scan Calib}

variable {p : PreparedSecondaryCommit Scan Calib}

variable {store : SecondaryStore Scan Calib} {key : Option Bytes}

theorem prepareWithIntentKey_ok {digest : Text}
    {nonce : Bytes}
    (h : c.prepareWithIntentKey store digest key nonce = .ok p) :
    store.validate = .ok () ∧ p = { store
                                    bytes := c.storeBytes store key nonce
                                    journal := c.intentJson
                                      { formatVersion := intentFormatVersion
                                        generation := store.generation
                                        primarySnapshotSha256 := digest
                                        newSecondaryB64 := c.encode64 (c.storeBytes store key nonce) } } := by
  unfold Codec.prepareWithIntentKey at h
  split at h
  · cases h
  · next hvalid =>
    split at h
    · cases h
    · exact ⟨hvalid, (Except.ok.inj h).symm⟩

theorem Made.of_prepare {digest : Text}
    {nonce : Bytes}
    (h : c.prepareWithIntentKey store digest key nonce = .ok p) : Made c p ∧ p.store = store := by
  obtain rfl := (prepareWithIntentKey_ok h).2
  exact ⟨⟨digest, key, nonce, h⟩, rfl⟩

theorem Made.journalPayload (law : c.Lawful) (h : Made c p)
    {payload : Bytes} (hread : c.journalPayload p.journal = .ok payload) : payload = p.bytes := by
  obtain ⟨digest, key, nonce, h⟩ := h
  obtain ⟨-, hp⟩ := prepareWithIntentKey_ok h
  have hjournal := congrArg PreparedSecondaryCommit.journal hp
  have hbytes := congrArg PreparedSecondaryCommit.bytes hp
  simp only at hjournal hbytes
  rw [hjournal] at hread
  rw [hbytes]
  obtain ⟨intent, hintent, hread⟩ := bind_ok_iff.1 hread
  obtain rfl := law.readIntent_intentJson _ _ (okOr_ok_iff.1 hintent)
  obtain ⟨_, -, hread⟩ := bind_ok_iff.1 hread
  obtain ⟨bytes, hdecode, hread⟩ := bind_ok_iff.1 hread
  obtain rfl := law.decode64_encode64 _ _ (okOr_ok_iff.1 hdecode)
  obtain ⟨doc, -, hread⟩ := bind_ok_iff.1 hread
  obtain ⟨declared, -, hread⟩ := bind_ok_iff.1 hread
  obtain ⟨_, -, hread⟩ := bind_ok_iff.1 hread
  exact (Except.ok.inj hread).symm

theorem Made.load (law : c.Lawful) (h : Made c p) (hload : c.load key p.bytes = .ok store) :
    store.generation = p.store.generation := by
  obtain ⟨digest, key', nonce, h⟩ := h
  obtain ⟨hvalid, hp⟩ := prepareWithIntentKey_ok h
  have hbytes := congrArg PreparedSecondaryCommit.bytes hp
  simp only at hbytes
  rw [hbytes] at hload
  have hversion := (SecondaryStore.validated hvalid).version
  unfold Codec.load at hload
  split at hload
  · cases hload
  · obtain ⟨doc, hdoc, hload⟩ := bind_ok_iff.1 hload
    obtain ⟨declared, hdeclared, hload⟩ := bind_ok_iff.1 hload
    obtain ⟨plain, hplain, hload⟩ := bind_ok_iff.1 hload
    obtain ⟨read, hstore, hload⟩ := bind_ok_iff.1 hload
    obtain ⟨_, -, hload⟩ := bind_ok_iff.1 hload
    cases hload
    rw [okOr_ok_iff] at hdoc hdeclared hstore
    suffices heq : plain = c.storeJson p.store by
      exact law.readStore_storeJson _ _ (heq ▸ hstore)
    cases key' with
    | none =>
      rw [law.readDoc_storeJson _ _ hdoc, hversion] at hdeclared
      cases hdeclared
      rw [if_pos rfl] at hplain
      exact (Except.ok.inj hplain).symm
    | some k =>
      obtain rfl := law.readDoc_envelopeJson _ _ _ _ hdoc
      cases hdeclared
      rw [if_neg (by decide), if_pos rfl] at hplain
      obtain ⟨k', -, hplain⟩ := bind_ok_iff.1 hplain
      obtain ⟨claimed, -, hplain⟩ := bind_ok_iff.1 hplain
      split at hplain
      · cases hplain
      · obtain ⟨enc, henc, hplain⟩ := bind_ok_iff.1 hplain
        obtain ⟨blob, hblob, hplain⟩ := bind_ok_iff.1 hplain
        rw [okOr_ok_iff] at henc hblob hplain
        cases henc
        obtain rfl := law.decode64_encode64 _ _ hblob
        exact law.decrypt_encrypt _ _ _ _ _ hplain

/-! ## The invariant -/

/-- The store file before the first mutation, with no journal beside it. -/
def startPublishing (initial : Option Bytes) : Publishing Scan Calib where
  journal := none
  store := initial
  doing := .idle
  prepared := []
  visible := none

/-- Whatever key opens a store file, the store in it is of generation `g`. -/
def OfGeneration (c : Codec Scan Calib) (file : Option Bytes) (g : Nat) : Prop :=
  ∀ bytes key store, file = some bytes → c.load key bytes = .ok store → store.generation = g

def lastVisible (initial : Option Bytes) (s : Publishing Scan Calib) : Option Bytes :=
  match s.visible with
  | some p => some p.bytes
  | none => initial

/-- What holds of where the mutator stands, with the stored store of generation `g`. -/
def Placed (s : Publishing Scan Calib) (g : Nat) : Prop :=
  match s.doing with
  | .idle => True
  | .completing payload => ∃ p, s.visible = some p ∧ s.journal = some p.journal ∧ payload = p.bytes
  | .dropping => ∃ p, s.visible = some p ∧ s.store = some p.bytes
  | .resolved _ => s.journal = none
  | .loaded current => s.journal = none ∧ (current.elim 0 fun store => store.generation) = g
  | .publishing p => s.journal = none ∧ p ∈ s.prepared ∧ g ≤ p.store.generation
  | .journaled p => s.visible = some p ∧ s.journal = some p.journal
  | .stored p => s.visible = some p ∧ s.store = some p.bytes

/-- The store file holds bytes of a publication or the first ones, of generation `g`, and a journal is
that of the last visible publication, of no earlier generation; without one the store file holds that
publication. -/
structure Published (c : Codec Scan Calib) (initial : Option Bytes) (s : Publishing Scan Calib) (g : Nat) :
    Prop where
  made : ∀ p ∈ s.prepared, Made c p
  holds : s.store = initial ∨ ∃ p ∈ s.prepared, s.store = some p.bytes
  generation : OfGeneration c s.store g
  absent : s.store = none → g = 0
  seen : ∀ p, s.visible = some p → p ∈ s.prepared
  pending : s.journal = none ∨
    ∃ p, s.visible = some p ∧ s.journal = some p.journal ∧ g ≤ p.store.generation
  settled : s.journal = none → s.store = lastVisible initial s
  placed : Placed s g

namespace Published

variable {initial : Option Bytes} {s : Publishing Scan Calib} {g : Nat}

variable {doing : Doing Scan Calib}

theorem move (h : Published c initial s g)
    (hplaced : Placed { s with doing } g) : Published c initial { s with doing } g :=
  { made := h.made, holds := h.holds, generation := h.generation, absent := h.absent, seen := h.seen,
    pending := h.pending, settled := h.settled, placed := hplaced }

theorem resolve (law : c.Lawful) (h : Published c initial s g) : Published c initial (resolveStep c s) g := by
  unfold resolveStep
  split
  · next hnone => exact h.move hnone
  · next journal hsome =>
    split
    · exact h.move trivial
    · next payload hpayload =>
      rcases h.pending with hnone | ⟨p, hvisible, hjournal, -⟩
      · rw [hsome] at hnone
        cases hnone
      · apply h.move
        rw [hsome] at hjournal
        cases hjournal
        exact ⟨p, hvisible, hsome, (h.made p (h.seen p hvisible)).journalPayload law hpayload⟩

variable {p : PreparedSecondaryCommit Scan Calib}

theorem rename (law : c.Lawful) (h : Published c initial s g)
    (hvisible : s.visible = some p) (hjournal : s.journal = some p.journal)
    (hplaced : Placed { s with store := some p.bytes, doing } p.store.generation) :
    g ≤ p.store.generation ∧
      Published c initial { s with store := some p.bytes, doing } p.store.generation := by
  have hmem := h.seen p hvisible
  constructor
  · rcases h.pending with hnone | ⟨q, hq, -, hle⟩
    · rw [hjournal] at hnone
      cases hnone
    · rw [hvisible] at hq
      cases hq
      exact hle
  · refine ⟨h.made, .inr ⟨p, hmem, rfl⟩, ?_, ?_, h.seen, .inr ⟨p, hvisible, hjournal, Nat.le_refl _⟩, ?_,
      hplaced⟩
    · intro bytes key store hbytes hload
      cases hbytes
      exact (h.made p hmem).load law hload
    · intro hnone
      cases hnone
    · intro hnone
      rw [hjournal] at hnone
      cases hnone

section

variable (h : Published c initial s g)

include h

theorem remove
    (hvisible : s.visible = some p) (hstore : s.store = some p.bytes)
    (hplaced : Placed { s with journal := none, doing } g) :
    Published c initial { s with journal := none, doing } g := by
  refine ⟨h.made, h.holds, h.generation, h.absent, h.seen, .inl rfl, ?_, hplaced⟩
  intro _
  rw [hstore, lastVisible, hvisible]

theorem load (hjournal : s.journal = none) (key : Option Bytes) :
    Published c initial (loadStep c key s) g := by
  unfold loadStep
  split
  · next hnone =>
    apply h.move
    exact ⟨hjournal, (h.absent hnone).symm⟩
  · next bytes hbytes =>
    split
    · exact h.move trivial
    · next store hstore =>
      apply h.move
      exact ⟨hjournal, h.generation bytes key store hbytes hstore⟩

theorem prepare (hjournal : s.journal = none) (hmade : Made c p)
    (hle : g ≤ p.store.generation) :
    Published c initial { s with doing := .publishing p, prepared := s.prepared ++ [p] } g := by
  refine ⟨?_, ?_, h.generation, h.absent, ?_, h.pending, h.settled, hjournal, by simp, hle⟩
  · intro q hq
    rcases List.mem_append.1 hq with hq | hq
    · exact h.made q hq
    · rw [List.mem_singleton.1 hq]
      exact hmade
  · rcases h.holds with hinitial | ⟨q, hq, hstore⟩
    · exact .inl hinitial
    · exact .inr ⟨q, List.mem_append_left _ hq, hstore⟩
  · intro q hq
    exact List.mem_append_left _ (h.seen q hq)

theorem write
    (hmem : p ∈ s.prepared) (hle : g ≤ p.store.generation) :
    Published c initial { s with journal := some p.journal, doing := .journaled p, visible := some p } g := by
  refine ⟨h.made, h.holds, h.generation, h.absent, ?_, .inr ⟨p, rfl, rfl, hle⟩, ?_, rfl, rfl⟩
  · intro q hq
    cases hq
    exact hmem
  · intro hnone
    cases hnone

end

theorem step (law : c.Lawful) (h : Published c initial s g) {e : PublishEvent Scan Calib}
    {s' : Publishing Scan Calib} (hstep : publishStep c s e = some s') :
    ∃ g', g ≤ g' ∧ Published c initial s' g' := by
  have hplaced := h.placed
  cases e with
  | resolve =>
    simp only [publishStep] at hstep
    split at hstep
    · cases hstep
      exact ⟨g, Nat.le_refl _, h.resolve law⟩
    · cases hstep
      exact ⟨g, Nat.le_refl _, h.resolve law⟩
    · cases hstep
  | renameStore =>
    simp only [publishStep] at hstep
    split at hstep
    · next payload hdoing =>
      cases hstep
      simp only [Placed, hdoing] at hplaced
      obtain ⟨p, hvisible, hjournal, rfl⟩ := hplaced
      exact ⟨_, h.rename law hvisible hjournal ⟨p, hvisible, rfl⟩⟩
    · next p hdoing =>
      cases hstep
      simp only [Placed, hdoing] at hplaced
      exact ⟨_, h.rename law hplaced.1 hplaced.2 ⟨hplaced.1, rfl⟩⟩
    · cases hstep
  | removeJournal =>
    simp only [publishStep] at hstep
    split at hstep
    · next hdoing =>
      cases hstep
      simp only [Placed, hdoing] at hplaced
      obtain ⟨p, hvisible, hstore⟩ := hplaced
      exact ⟨g, Nat.le_refl _, h.remove hvisible hstore rfl⟩
    · next p hdoing =>
      cases hstep
      simp only [Placed, hdoing] at hplaced
      exact ⟨g, Nat.le_refl _, h.remove hplaced.1 hplaced.2 trivial⟩
    · cases hstep
  | load key =>
    simp only [publishStep] at hstep
    split at hstep
    · next r hdoing =>
      cases hstep
      simp only [Placed, hdoing] at hplaced
      exact ⟨g, Nat.le_refl _, h.load hplaced key⟩
    · cases hstep
  | prepare store digest key nonce =>
    simp only [publishStep] at hstep
    split at hstep
    · next current hdoing =>
      simp only [Placed, hdoing] at hplaced
      split at hstep
      · next hlater =>
        split at hstep
        · cases hstep
          exact ⟨g, Nat.le_refl _, h.move trivial⟩
        · next p hp =>
          cases hstep
          obtain ⟨hmade, rfl⟩ := Made.of_prepare hp
          refine ⟨g, Nat.le_refl _, h.prepare hplaced.1 hmade ?_⟩
          rw [← hplaced.2]
          cases current with
          | none => exact Nat.zero_le _
          | some old =>
            have hlt : old.generation < p.store.generation := by simpa [laterThan] using hlater
            exact hlt.le
      · cases hstep
    · cases hstep
  | renameJournal =>
    simp only [publishStep] at hstep
    split at hstep
    · next p hdoing =>
      cases hstep
      simp only [Placed, hdoing] at hplaced
      exact ⟨g, Nat.le_refl _, h.write hplaced.2.1 hplaced.2.2⟩
    · cases hstep
  | stop =>
    cases hstep
    exact ⟨g, Nat.le_refl _, h.move trivial⟩

theorem run (law : c.Lawful) (h : Published c initial s g) {es : List (PublishEvent Scan Calib)}
    {t : Publishing Scan Calib} (hrun : Lib.run (publishStep c) s es = some t) :
    ∃ g', g ≤ g' ∧ Published c initial t g' := by
  induction es generalizing s g with
  | nil =>
    cases hrun
    exact ⟨g, Nat.le_refl _, h⟩
  | cons e es ih =>
    obtain ⟨m, hm, hrest⟩ := run_cons_some.1 hrun
    obtain ⟨g₁, hle₁, h₁⟩ := h.step law hm
    obtain ⟨g₂, hle₂, h₂⟩ := ih h₁ hrest
    exact ⟨g₂, hle₁.trans hle₂, h₂⟩

end Published

theorem published_start {initial : Option Bytes} (h : ∃ g, OfGeneration c initial g) :
    ∃ g, Published c initial (startPublishing initial) g := by
  obtain ⟨g, hg⟩ := h
  cases initial with
  | none =>
    refine ⟨0, ?_⟩
    constructor
    all_goals simp [startPublishing, OfGeneration, lastVisible, Placed]
  | some bytes =>
    refine ⟨g, ?_⟩
    constructor
    case generation => exact hg
    all_goals simp [startPublishing, lastVisible, Placed]

/-- **Publication**: in every run of serialized mutations, each stopped anywhere, the store file holds
the bytes of one prepared publication or the first ones; after a successful `resolve_commit` it holds the
last publication whose journal became visible, and resolving again finds nothing to do; and the
generation of the stored store never decreases. -/
theorem publication_crash_atomic (c : Codec Scan Calib) (law : c.Lawful) (initial : Option Bytes)
    (hinitial : ∃ g, OfGeneration c initial g) (es fs : List (PublishEvent Scan Calib))
    (s t : Publishing Scan Calib) (hs : run (publishStep c) (startPublishing initial) es = some s)
    (ht : run (publishStep c) s fs = some t) :
    (s.store = initial ∨ ∃ p ∈ s.prepared, s.store = some p.bytes) ∧
    (∀ resolution, s.doing = .resolved resolution →
      s.store = lastVisible initial s ∧
        publishStep c s .resolve = some { s with doing := .resolved .clean }) ∧
    (∀ old new key key' before after, s.store = some old → t.store = some new →
      c.load key old = .ok before → c.load key' new = .ok after →
        before.generation ≤ after.generation) := by
  obtain ⟨g₀, h₀⟩ := published_start hinitial
  obtain ⟨g, -, h⟩ := h₀.run law hs
  obtain ⟨g', hle, h'⟩ := h.run law ht
  refine ⟨h.holds, ?_, ?_⟩
  · intro resolution hdoing
    have hjournal := h.placed
    simp only [Placed, hdoing] at hjournal
    refine ⟨h.settled hjournal, ?_⟩
    simp only [publishStep, hdoing, resolveStep, hjournal]
  · intro old new key key' before after hold hnew hbefore hafter
    rw [h.generation old key before hold hbefore, h'.generation new key' after hnew hafter]
    exact hle

/-! A store without groups, as serialization and base64 write it. -/

def firstStore : SecondaryStore Unit Unit where
  formatVersion := 1
  owner := ['o']
  generation := 1
  primarySnapshotSha256 := sha256OfNothing
  groups := []

def firstStoreJson : Bytes :=
  bytes ("\x7b\"format_version\":1,\"owner\":\"o\",\"generation\":1,\"primary_snap" ++
    "shot_sha256\":\"e3b0c44298fc1c149afbf4c8996fb92427ae41e4649b93" ++
    "4ca495991b7852b855\",\"groups\":[]\x7d")

def firstStoreB64 : Text :=
  "eyJmb3JtYXRfdmVyc2lvbiI6MSwib3duZXIiOiJvIiwiZ2VuZXJhdGlvbiI6" ++
    "MSwicHJpbWFyeV9zbmFwc2hvdF9zaGEyNTYiOiJlM2IwYzQ0Mjk4ZmMxYzE0" ++
    "OWFmYmY0Yzg5OTZmYjkyNDI3YWU0MWU0NjQ5YjkzNGNhNDk1OTkxYjc4NTJi" ++
    "ODU1IiwiZ3JvdXBzIjpbXX0="

def firstIntent : CommitIntent where
  formatVersion := 1
  generation := 1
  primarySnapshotSha256 := sha256OfNothing
  newSecondaryB64 := firstStoreB64

def firstIntentJson : Bytes :=
  bytes ("\x7b\"format_version\":1,\"generation\":1,\"primary_snapshot_sha256\":\"" ++ sha256OfNothing ++
    "\",\"new_secondary_b64\":\"" ++ firstStoreB64 ++ "\"\x7d")

def firstCodec : Codec Unit Unit where
  storeJson s := if s.generation = 1 ∧ s.formatVersion = 1 then firstStoreJson else []
  readStore b := if b = firstStoreJson then some firstStore else none
  envelopeJson _ _ _ := []
  readDoc b := if b = firstStoreJson then some ⟨some 1, none, none⟩ else none
  intentJson i := if i = firstIntent then firstIntentJson else []
  readIntent b := if b = firstIntentJson then some firstIntent else none
  encode64 b := if b = firstStoreJson then firstStoreB64 else []
  decode64 t := if t = firstStoreB64 then some firstStoreJson else none
  encrypt _ _ _ := []
  decrypt _ _ := none
  sha256Hex _ := sha256OfNothing

theorem firstCodec_lawful : firstCodec.Lawful := by
  have hstore : firstStoreJson ≠ [] := by decide
  have hintent : firstIntentJson ≠ [] := by decide
  have hb64 : firstStoreB64 ≠ [] := by decide
  constructor
  · intro i i' h
    by_cases hi : i = firstIntent
    · simpa [firstCodec, hi, eq_comm] using h
    · simp [firstCodec, hi, hintent.symm] at h
  · intro b b' h
    by_cases hb : b = firstStoreJson
    · simpa [firstCodec, hb, eq_comm] using h
    · simp [firstCodec, hb, hb64.symm] at h
  · intro s s' h
    by_cases hs : s.generation = 1 ∧ s.formatVersion = 1
    · obtain rfl : firstStore = s' := by simpa [firstCodec, hs] using h
      exact hs.1.symm
    · simp [firstCodec, hs, hstore.symm] at h
  · intro s d h
    by_cases hs : s.generation = 1 ∧ s.formatVersion = 1
    · obtain rfl : ⟨some 1, none, none⟩ = d := by simpa [firstCodec, hs] using h
      rw [hs.2]
    · simp [firstCodec, hs, hstore.symm] at h
  · intro v k e d h
    simp [firstCodec, hstore.symm] at h
  · intro k k' n p x h
    cases h

/-- A publication that stops right after its journal, which the next mutator completes. -/
def stoppedPublication : List (PublishEvent Unit Unit) :=
  [.resolve, .load none, .prepare firstStore sha256OfNothing none [], .renameJournal, .stop, .resolve,
    .renameStore, .removeJournal]

/-- A publication that was stopped is completed from its journal. -/
theorem publication_crash_atomic_stopped :
    ∃ s, run (publishStep firstCodec) (startPublishing none) stoppedPublication = some s ∧
      s.store = some firstStoreJson ∧ s.store = lastVisible none s := by
  have hok : (run (publishStep firstCodec) (startPublishing none) stoppedPublication).any
      (fun s => s.store = some firstStoreJson &&
        match s.doing with | .resolved .completed => true | _ => false) = true := by
    unfold stoppedPublication firstCodec firstIntentJson firstIntent firstStoreB64 firstStoreJson
      firstStore sha256OfNothing
    repeat rw [String.toList_ofList]
    decide +kernel
  cases h : run (publishStep firstCodec) (startPublishing none) stoppedPublication with
  | none =>
    rw [h] at hok
    cases hok
  | some s =>
    rw [h, Option.any_some, Bool.and_eq_true, decide_eq_true_eq] at hok
    have hatomic := publication_crash_atomic firstCodec firstCodec_lawful none
      ⟨0, fun _ _ _ hnone => by cases hnone⟩ _ [] s s h rfl
    obtain ⟨hstore, hdoing⟩ := hok
    split at hdoing
    · next heq => exact ⟨s, rfl, hstore, (hatomic.2.1 _ heq).1⟩
    · cases hdoing

end Irlume.Cameras

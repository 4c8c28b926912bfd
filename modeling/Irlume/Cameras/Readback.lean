import Irlume.Cameras.Files
import Irlume.Lib.Base64

/-!
# What a publication reads back as

`prepare_with_intent_key` and `save_secondary_with_key` encode a store alike, and the three loaders take the
same bytes. The loaders refuse a file of more than `maxStoreBytes`, and the saver refuses to write one; the
publisher has no bound. The journal of a publication is accepted in any case.
-/

namespace Irlume.Cameras

open Irlume.Lib

variable {Scan Calib : Type}

def keyLen : Nat := 32
def nonceLen : Nat := 12
def tagLen : Nat := 16

/-! ## Writing -/

/-- `crypto::encrypt` with the nonce it draws. -/
def Codec.encryptWith (c : Codec Scan Calib) (key nonce plaintext : Bytes) : Except Text Bytes :=
  if key.length ≠ keyLen then
    .error ("policy: key must be " ++ decimal keyLen ++ " bytes, got " ++ decimal key.length)
  else .ok (c.encrypt key nonce plaintext)

def Codec.encodeStore (c : Codec Scan Calib) (store : SecondaryStore Scan Calib) (key : Option Bytes) (nonce : Bytes) :
    Except Text Bytes :=
  match key with
  | some key => do
    let blob ← c.encryptWith key nonce (c.storeJson store)
    return c.envelopeJson secondaryEncEnvelopeVersion (c.sha256Hex key) (c.encode64 blob)
  | none => .ok (c.storeJson store)

inductive PrepareError where
  | store (error : SecondaryStoreError)
  | io (detail : Text)

def intentOf (c : Codec Scan Calib) (store : SecondaryStore Scan Calib) (digest : Text) (bytes : Bytes) :
    CommitIntent where
  formatVersion := intentFormatVersion
  generation := store.generation
  primarySnapshotSha256 := digest
  newSecondaryB64 := c.encode64 bytes

/-- `prepare_with_intent_key`, with the key that `crypto::encrypt` takes and what comes of the directory it makes. What
it prepares is what `prepareWithIntentKey` prepares (`prepareWithIntentKey_of_prepare`). -/
def Codec.prepare (c : Codec Scan Calib) (createDir : Except Text Unit) (store : SecondaryStore Scan Calib)
    (primarySnapshotSha256 : Text) (key : Option Bytes) (nonce : Bytes) :
    Except PrepareError (PreparedSecondaryCommit Scan Calib) := do
  store.validate.mapError .store
  refuseIf (store.primarySnapshotSha256 ≠ primarySnapshotSha256)
    (.store (.invalid "store binding disagrees with the transaction's primary digest"))
  let bytes ← (c.encodeStore store key nonce).mapError .io
  createDir.mapError .io
  return { store, bytes, journal := c.intentJson (intentOf c store primarySnapshotSha256 bytes) }

/-- The bytes `save_secondary_with_key` writes. -/
def Codec.saveSecondaryWithKey (c : Codec Scan Calib) (store : SecondaryStore Scan Calib) (key : Option Bytes)
    (nonce : Bytes) : Except SecondaryStoreError Bytes := do
  store.validate
  let bytes ← (c.encodeStore store key nonce).mapError .io
  refuseIf (maxStoreBytes < bytes.length) (.invalid "serialized store exceeds the size bound")
  return bytes

/-! ## Loading -/

def tooLarge : SecondaryStoreError := .invalid ("store larger than " ++ decimal maxStoreBytes ++ " bytes")

/-- `load_secondary_with_key` of what reading the file gives. -/
def Codec.loadSecondaryWithKey (c : Codec Scan Calib) (file : Except Text (Option Bytes)) (key : Option Bytes) :
    Except SecondaryStoreError (Option (SecondaryStore Scan Calib)) :=
  match file with
  | .error e => .error (.io e)
  | .ok none => .ok none
  | .ok (some bytes) => (c.load key bytes).map some

def Codec.declaredVersion (c : Codec Scan Calib) (bytes : Bytes) : Except SecondaryStoreError Nat := do
  let doc ← okOr (c.readDoc bytes) (.corrupt [])
  okOr doc.formatVersion (.corrupt "no format_version")

/-- `store_user`, of the file's stem. -/
def storeUser (stem : Option Text) : Except SecondaryStoreError Text :=
  okOr stem (.invalid "secondary store path has no file stem")

/-- `load_secondary_resolved`: the key is asked for where the file is an envelope. -/
def Codec.loadSecondaryResolved (c : Codec Scan Calib) (stem : Option Text) (file : Except Text (Option Bytes))
    (keyFor : Text → Except SecondaryStoreError (Option Bytes)) :
    Except SecondaryStoreError (Option (SecondaryStore Scan Calib)) :=
  match file with
  | .error e => .error (.io e)
  | .ok none => .ok none
  | .ok (some bytes) => do
    refuseIf (maxStoreBytes < bytes.length) tooLarge
    let declared ← c.declaredVersion bytes
    if declared = secondaryEncEnvelopeVersion then do
      let user ← storeUser stem
      let key ← keyFor user
      c.loadSecondaryWithKey file key
    else c.loadSecondaryWithKey file none

/-- `load_secondary_with_source`, with the request's key source. -/
def Codec.loadSecondaryWithSource (c : Codec Scan Calib) (stem : Option Text) (file : Except Text (Option Bytes))
    (templateKey : Text → Except Text (Option Bytes)) :
    Except SecondaryStoreError (Option (SecondaryStore Scan Calib)) :=
  match file with
  | .error e => .error (.io e)
  | .ok none => .ok none
  | .ok (some bytes) => do
    refuseIf (maxStoreBytes < bytes.length) tooLarge
    let declared ← c.declaredVersion bytes
    if declared ≠ secondaryEncEnvelopeVersion then (c.parseStoreBytes bytes none).map some
    else do
      let user ← storeUser stem
      let key ← (templateKey user).mapError fun e =>
        .invalid ("the account template key is unavailable: " ++ e)
      (c.parseStoreBytes bytes key).map some

/-! ## What is taken back -/

/-- Serialization, base64 and the cipher take back what they made of one publication, and the lengths of what they
make. -/
structure Codec.Inverts (c : Codec Scan Calib) (store : SecondaryStore Scan Calib) (digest : Text) (key : Option Bytes)
    (nonce : Bytes) : Prop where
  decode64_encode64 : ∀ b, c.decode64 (c.encode64 b) = some b
  readStore_storeJson : c.readStore (c.storeJson store) = some store
  readDoc_storeJson :
    ∃ doc, c.readDoc (c.storeJson store) = some doc ∧ doc.formatVersion = some store.formatVersion
  readDoc_envelopeJson : ∀ k ∈ key, ∀ enc, enc = c.encode64 (c.encrypt k nonce (c.storeJson store)) →
    c.readDoc (c.envelopeJson secondaryEncEnvelopeVersion (c.sha256Hex k) enc) =
      some ⟨some secondaryEncEnvelopeVersion, some (c.sha256Hex k), some enc⟩
  readIntent_intentJson : ∀ bytes, c.encodeStore store key nonce = .ok bytes →
    c.readIntent (c.intentJson (intentOf c store digest bytes)) = some (intentOf c store digest bytes)
  decrypt_encrypt : ∀ k ∈ key, k.length = keyLen →
    c.decrypt k (c.encrypt k nonce (c.storeJson store)) = some (c.storeJson store)
  storeJson_ne_nil : c.storeJson store ≠ []
  length_sha256Hex : ∀ k ∈ key, (c.sha256Hex k).length = 64
  length_encrypt : ∀ k ∈ key, k.length = keyLen →
    (c.encrypt k nonce (c.storeJson store)).length = nonceLen + (c.storeJson store).length + tagLen
  length_encode64 : ∀ b, (c.encode64 b).length = 4 * ((b.length + 2) / 3)
  /-- Around the two texts, which are ASCII and need no escapes, there are 41 bytes. -/
  length_envelopeJson : ∀ k ∈ key, ∀ enc, enc = c.encode64 (c.encrypt k nonce (c.storeJson store)) →
    (c.envelopeJson secondaryEncEnvelopeVersion (c.sha256Hex k) enc).length = 41 + (c.sha256Hex k).length + enc.length

/-- How long the file of a store is whose JSON has `n` bytes. -/
def publishedLength (key : Option Bytes) (n : Nat) : Nat :=
  if key.isSome then 41 + 64 + 4 * ((nonceLen + n + tagLen + 2) / 3) else n

section

variable {c : Codec Scan Calib} {createDir : Except Text Unit} {store : SecondaryStore Scan Calib} {digest : Text}
  {key : Option Bytes} {key' nonce bytes : Bytes} {p : PreparedSecondaryCommit Scan Calib}

theorem encryptWith_ok_iff {k plaintext blob : Bytes} :
    c.encryptWith k nonce plaintext = .ok blob ↔ k.length = keyLen ∧ c.encrypt k nonce plaintext = blob := by
  unfold Codec.encryptWith
  split
  · next hne =>
    simp only [reduceCtorEq, false_iff, not_and]
    intro heq
    exact absurd heq hne
  · next heq =>
    rw [Except.ok.injEq]
    simp [not_not.1 heq]

theorem encodeStore_ok_iff : c.encodeStore store key nonce = .ok bytes ↔
    (∀ k ∈ key, k.length = keyLen) ∧ c.storeBytes store key nonce = bytes := by
  cases key with
  | none => simp [Codec.encodeStore, Codec.storeBytes]
  | some k =>
    simp only [Codec.encodeStore, Codec.storeBytes, Option.mem_some_iff, forall_eq']
    constructor
    · intro h
      obtain ⟨blob, hblob, h⟩ := bind_ok_iff.1 h
      obtain ⟨hlength, rfl⟩ := encryptWith_ok_iff.1 hblob
      exact ⟨hlength, Except.ok.inj h⟩
    · rintro ⟨hlength, rfl⟩
      exact bind_ok_iff.2 ⟨_, encryptWith_ok_iff.2 ⟨hlength, rfl⟩, rfl⟩

theorem prepare_ok (h : c.prepare createDir store digest key nonce = .ok p) :
    store.validate = .ok () ∧ store.primarySnapshotSha256 = digest ∧
      ∃ bytes, c.encodeStore store key nonce = .ok bytes ∧
        p = { store, bytes, journal := c.intentJson (intentOf c store digest bytes) } := by
  obtain ⟨_, hvalid, h⟩ := bind_ok_iff.1 h
  obtain ⟨_, hdigest, h⟩ := bind_ok_iff.1 h
  obtain ⟨bytes, hbytes, h⟩ := bind_ok_iff.1 h
  obtain ⟨_, -, h⟩ := bind_ok_iff.1 h
  refine ⟨mapError_ok_iff.1 hvalid, ?_, bytes, mapError_ok_iff.1 hbytes, (Except.ok.inj h).symm⟩
  simpa using refuseIf_ok_iff.1 hdigest

theorem prepareWithIntentKey_of_prepare (h : c.prepare createDir store digest key nonce = .ok p) :
    c.prepareWithIntentKey store digest key nonce = .ok p := by
  obtain ⟨hvalid, rfl, bytes, hbytes, rfl⟩ := prepare_ok h
  obtain ⟨-, rfl⟩ := encodeStore_ok_iff.1 hbytes
  simp only [Codec.prepareWithIntentKey, hvalid, ne_eq, not_true_eq_false, if_false]
  rfl

/-! ### The store -/

section

variable (law : c.Inverts store digest key nonce)

include law

theorem length_encodeStore (h : c.encodeStore store key nonce = .ok bytes) :
    bytes.length = publishedLength key (c.storeJson store).length := by
  obtain ⟨hkey, rfl⟩ := encodeStore_ok_iff.1 h
  cases key with
  | none => rfl
  | some k =>
    have hlength := law.length_envelopeJson k rfl _ rfl
    rw [law.length_sha256Hex k rfl, law.length_encode64, law.length_encrypt k rfl (hkey k rfl)] at hlength
    exact hlength

theorem parseStoreBytes_encodeStore (hvalid : store.validate = .ok ())
    (h : c.encodeStore store key nonce = .ok bytes) : c.parseStoreBytes bytes key = .ok store := by
  obtain ⟨hkey, rfl⟩ := encodeStore_ok_iff.1 h
  have hplain : okOr (c.readStore (c.storeJson store)) (SecondaryStoreError.corrupt []) = .ok store :=
    okOr_ok_iff.2 law.readStore_storeJson
  cases key with
  | none =>
    obtain ⟨doc, hdoc, hversion⟩ := law.readDoc_storeJson
    rw [(SecondaryStore.validated hvalid).version] at hversion
    refine bind_ok_iff.2 ⟨doc, okOr_ok_iff.2 hdoc, bind_ok_iff.2 ⟨_, okOr_ok_iff.2 hversion, ?_⟩⟩
    refine bind_ok_iff.2 ⟨c.storeJson store, if_pos rfl, bind_ok_iff.2 ⟨store, hplain, ?_⟩⟩
    exact bind_ok_iff.2 ⟨(), hvalid, rfl⟩
  | some k =>
    have hdoc := law.readDoc_envelopeJson k rfl _ rfl
    refine bind_ok_iff.2 ⟨_, okOr_ok_iff.2 hdoc, bind_ok_iff.2 ⟨_, rfl, ?_⟩⟩
    refine bind_ok_iff.2 ⟨c.storeJson store, ?_, bind_ok_iff.2 ⟨store, hplain, ?_⟩⟩
    · rw [if_neg (by decide), if_pos rfl]
      refine bind_ok_iff.2 ⟨k, rfl, bind_ok_iff.2 ⟨_, rfl, ?_⟩⟩
      rw [if_neg (not_not.2 rfl)]
      refine bind_ok_iff.2 ⟨_, rfl, bind_ok_iff.2 ⟨_, okOr_ok_iff.2 (law.decode64_encode64 _), ?_⟩⟩
      exact okOr_ok_iff.2 (law.decrypt_encrypt k rfl (hkey k rfl))
    · exact bind_ok_iff.2 ⟨(), hvalid, rfl⟩

theorem declaredVersion_encodeStore (hvalid : store.validate = .ok ())
    (h : c.encodeStore store key nonce = .ok bytes) :
    c.declaredVersion bytes = .ok (if key.isSome then secondaryEncEnvelopeVersion else secondaryStoreVersion) := by
  obtain ⟨-, rfl⟩ := encodeStore_ok_iff.1 h
  cases key with
  | none =>
    obtain ⟨doc, hdoc, hversion⟩ := law.readDoc_storeJson
    rw [(SecondaryStore.validated hvalid).version] at hversion
    exact bind_ok_iff.2 ⟨doc, okOr_ok_iff.2 hdoc, okOr_ok_iff.2 hversion⟩
  | some k => exact bind_ok_iff.2 ⟨_, okOr_ok_iff.2 (law.readDoc_envelopeJson k rfl _ rfl), rfl⟩

end

/-! ### The journal -/

theorem checkEnvelope_ok (law : c.Inverts store digest (some key') nonce) (hkey : key'.length = keyLen) :
    c.checkEnvelope ⟨some secondaryEncEnvelopeVersion, some (c.sha256Hex key'),
      some (c.encode64 (c.encrypt key' nonce (c.storeJson store)))⟩ = .ok () := by
  have hid : c.sha256Hex key' ≠ [] := by
    apply List.ne_nil_of_length_pos
    rw [law.length_sha256Hex key' rfl]
    decide
  have hlong : ¬ (c.encrypt key' nonce (c.storeJson store)).length ≤ 12 + 16 := by
    have hpos := List.length_pos_iff.2 law.storeJson_ne_nil
    rw [law.length_encrypt key' rfl hkey, nonceLen, tagLen]
    omega
  refine bind_ok_iff.2 ⟨c.sha256Hex key', okOr_ok_iff.2 ?_, bind_ok_iff.2 ⟨_, rfl, ?_⟩⟩
  · rw [Option.filter_some, if_pos (decide_eq_true hid)]
  · exact bind_ok_iff.2 ⟨_, okOr_ok_iff.2 (law.decode64_encode64 _), refuseIf_ok_iff.2 (decide_eq_false hlong)⟩

theorem checkPlain_ok (law : c.Inverts store digest key nonce) (hvalid : store.validate = .ok ())
    (hdigest : store.primarySnapshotSha256 = digest) :
    c.checkPlain (intentOf c store digest bytes) (c.storeJson store) = .ok () := by
  refine bind_ok_iff.2 ⟨store, okOr_ok_iff.2 law.readStore_storeJson, ?_⟩
  rw [hvalid]
  apply refuseIf_ok_iff.2
  simp [intentOf, hdigest]

/-- **The journal of a publication gives what it publishes.** -/
theorem journalPayload_prepare (law : c.Inverts store digest key nonce)
    (h : c.prepare createDir store digest key nonce = .ok p) : c.journalPayload p.journal = .ok p.bytes := by
  obtain ⟨hvalid, hdigest, bytes, hbytes, rfl⟩ := prepare_ok h
  have hintent := law.readIntent_intentJson bytes hbytes
  obtain ⟨hkey, rfl⟩ := encodeStore_ok_iff.1 hbytes
  refine bind_ok_iff.2 ⟨_, okOr_ok_iff.2 hintent, bind_ok_iff.2 ⟨(), refuseIf_ok_iff.2 rfl, ?_⟩⟩
  refine bind_ok_iff.2 ⟨_, okOr_ok_iff.2 (law.decode64_encode64 _), ?_⟩
  cases key with
  | none =>
    obtain ⟨doc, hdoc, hversion⟩ := law.readDoc_storeJson
    rw [(SecondaryStore.validated hvalid).version] at hversion
    refine bind_ok_iff.2 ⟨doc, okOr_ok_iff.2 hdoc, bind_ok_iff.2 ⟨_, okOr_ok_iff.2 hversion, ?_⟩⟩
    exact bind_ok_iff.2 ⟨(), checkPlain_ok law hvalid hdigest, rfl⟩
  | some k =>
    refine bind_ok_iff.2 ⟨_, okOr_ok_iff.2 (law.readDoc_envelopeJson k rfl _ rfl), bind_ok_iff.2 ⟨_, rfl, ?_⟩⟩
    exact bind_ok_iff.2 ⟨(), checkEnvelope_ok law (hkey k rfl), rfl⟩

/-- `resolve_commit` takes the journal: wherever it is found, and the store has not been staged, the store becomes what
was to be published. -/
def Codec.Accepts (c : Codec Scan Calib) (p : PreparedSecondaryCommit Scan Calib) : Prop :=
  ∀ pid secondary (d : Directory), d (intentPathFor secondary) = some p.journal →
    d (commitStaging pid secondary) = none →
      (c.resolveCommit pid secondary .none d).1 = .ok .completed ∧
        (c.resolveCommit pid secondary .none d).2 secondary = some p.bytes

theorem accepts_prepare (law : c.Inverts store digest key nonce)
    (h : c.prepare createDir store digest key nonce = .ok p) : c.Accepts p := by
  intro pid secondary d hjournal hstore
  rw [resolveCommit_of_free hjournal (journalPayload_prepare law h) hstore]
  refine ⟨rfl, ?_⟩
  dsimp only
  rw [Function.update_of_ne intentPathFor_ne.symm, Function.update_self]

/-! ### The loaders -/

structure Codec.Loads (c : Codec Scan Calib) (bytes : Bytes) (key : Option Bytes) (store : SecondaryStore Scan Calib) :
    Prop where
  withKey : c.loadSecondaryWithKey (.ok (some bytes)) key = .ok (some store)
  resolved : ∀ user keyFor, keyFor user = .ok key →
    c.loadSecondaryResolved (some user) (.ok (some bytes)) keyFor = .ok (some store)
  withSource : ∀ user templateKey, templateKey user = .ok key →
    c.loadSecondaryWithSource (some user) (.ok (some bytes)) templateKey = .ok (some store)

/-- The three loaders refuse the file as too large, whatever key they have. -/
structure Codec.Refuses (c : Codec Scan Calib) (bytes : Bytes) : Prop where
  withKey : ∀ key, c.loadSecondaryWithKey (.ok (some bytes)) key = .error tooLarge
  resolved : ∀ stem keyFor, c.loadSecondaryResolved stem (.ok (some bytes)) keyFor = .error tooLarge
  withSource : ∀ stem templateKey, c.loadSecondaryWithSource stem (.ok (some bytes)) templateKey = .error tooLarge

theorem refuses_of_lt (h : maxStoreBytes < bytes.length) : c.Refuses bytes := by
  have hrefused : refuseIf (decide (maxStoreBytes < bytes.length)) tooLarge = .error tooLarge :=
    if_pos (decide_eq_true h)
  refine ⟨fun key => ?_, fun stem keyFor => ?_, fun stem templateKey => ?_⟩
  · simp only [Codec.loadSecondaryWithKey, Codec.load, if_pos h]
    rfl
  · simp only [Codec.loadSecondaryResolved, hrefused]
    rfl
  · simp only [Codec.loadSecondaryWithSource, hrefused]
    rfl

theorem not_loads_of_refuses (h : c.Refuses bytes) : ¬ c.Loads bytes key store := by
  intro hloads
  have hload := hloads.withKey
  rw [h.withKey] at hload
  cases hload

/-- **A file that is short enough is loaded as the store it was encoded from.** -/
theorem loads_encodeStore (law : c.Inverts store digest key nonce) (hvalid : store.validate = .ok ())
    (h : c.encodeStore store key nonce = .ok bytes) (hlength : bytes.length ≤ maxStoreBytes) :
    c.Loads bytes key store := by
  have hparse := parseStoreBytes_encodeStore law hvalid h
  have hversion := declaredVersion_encodeStore law hvalid h
  have hshort : refuseIf (decide (maxStoreBytes < bytes.length)) tooLarge = .ok () :=
    refuseIf_ok_iff.2 (decide_eq_false (Nat.not_lt.2 hlength))
  have hload : c.loadSecondaryWithKey (.ok (some bytes)) key = .ok (some store) := by
    simp only [Codec.loadSecondaryWithKey, Codec.load, if_neg (Nat.not_lt.2 hlength), hparse]
    rfl
  refine ⟨hload, fun user keyFor hkey => ?_, fun user templateKey hkey => ?_⟩
  · refine bind_ok_iff.2 ⟨(), hshort, bind_ok_iff.2 ⟨_, hversion, ?_⟩⟩
    cases key with
    | none => exact hload
    | some k => exact bind_ok_iff.2 ⟨user, rfl, bind_ok_iff.2 ⟨some k, hkey, hload⟩⟩
  · refine bind_ok_iff.2 ⟨(), hshort, bind_ok_iff.2 ⟨_, hversion, ?_⟩⟩
    cases key with
    | none =>
      rw [if_pos (by decide), hparse]
      rfl
    | some k =>
      refine bind_ok_iff.2 ⟨user, rfl, bind_ok_iff.2 ⟨some k, mapError_ok_iff.2 hkey, ?_⟩⟩
      rw [hparse]
      rfl

theorem loads_saveSecondaryWithKey (law : c.Inverts store digest key nonce)
    (h : c.saveSecondaryWithKey store key nonce = .ok bytes) : c.Loads bytes key store := by
  obtain ⟨_, hvalid, h⟩ := bind_ok_iff.1 h
  obtain ⟨encoded, hencoded, h⟩ := bind_ok_iff.1 h
  obtain ⟨_, hshort, h⟩ := bind_ok_iff.1 h
  obtain rfl := Except.ok.inj h
  have hlength : encoded.length ≤ maxStoreBytes := by simpa using refuseIf_ok_iff.1 hshort
  exact loads_encodeStore law hvalid (mapError_ok_iff.1 hencoded) hlength

/-- **What is published reads back** exactly where the JSON of the store is short enough; where it is not, every loader
refuses the file that `resolve_commit` takes from the journal. -/
theorem publication_reads_back_exact (c : Codec Scan Calib) (createDir : Except Text Unit)
    (store : SecondaryStore Scan Calib) (digest : Text) (key : Option Bytes) (nonce : Bytes)
    (p : PreparedSecondaryCommit Scan Calib) (law : c.Inverts store digest key nonce)
    (h : c.prepare createDir store digest key nonce = .ok p) :
    (c.Loads p.bytes key store ∧ c.Accepts p ↔
      publishedLength key (c.storeJson store).length ≤ maxStoreBytes) ∧
    (maxStoreBytes < publishedLength key (c.storeJson store).length → c.Refuses p.bytes ∧ c.Accepts p) := by
  have haccepts := accepts_prepare law h
  obtain ⟨hvalid, -, bytes, hbytes, rfl⟩ := prepare_ok h
  rw [← length_encodeStore law hbytes]
  refine ⟨⟨fun ⟨hloads, _⟩ => ?_, fun hlength => ⟨loads_encodeStore law hvalid hbytes hlength, haccepts⟩⟩,
    fun hlength => ⟨refuses_of_lt hlength, haccepts⟩⟩
  exact Nat.not_lt.1 fun hlength => not_loads_of_refuses (refuses_of_lt hlength) hloads

end

/-! ## A store with one long scan

The embedding of the scan is `n + 1` zeros. -/

def zeros : Nat → Text
  | 0 => "0.0"
  | n + 1 => "0.0," ++ zeros n

theorem byteLength_zeros (n : Nat) : byteLength (zeros n) = 3 + 4 * n := by
  induction n with
  | zero => rfl
  | succ n ih =>
    have hzero : byteLength "0.0," = 4 := rfl
    rw [zeros, byteLength_append, ih, hzero]
    omega

def zeroStore (n : Nat) : SecondaryStore Nat Empty where
  formatVersion := 1
  owner := "alice"
  generation := 1
  primarySnapshotSha256 := sha256OfNothing
  groups :=
    [{ id := ⟨"g1", by decide, by decide⟩
       pair := .ordinary (some "046d:085e:e179cb54") (some "046d:085e:e179cb54")
       profiles := [⟨"main", [n], []⟩] }]

def textBefore : Text :=
  "\x7b\"format_version\":1,\"owner\":\"alice\",\"generation\":1,\"primary_snapshot_sha256\":\"" ++ sha256OfNothing ++
    "\",\"groups\":[\x7b\"id\":\"g1\",\"pair\":\x7b\"rgb\":\"046d:085e:e179cb54\",\"ir\":\"046d:085e:e179cb54\"\x7d," ++
    "\"profiles\":[\x7b\"profile\":\"main\",\"scans\":[\x7b\"name\":\"s\",\"rgb\":["

def textAfter : Text :=
  "],\"ir\":null,\"ir_space\":null,\"embed_space\":null,\"ir_depth\":0.0,\"ir_brightness\":0.0,\"pitch\":0.0\x7d]," ++
    "\"ir_calibs\":\x7b\x7d\x7d]\x7d]\x7d"

def zeroStoreText (n : Nat) : Text := textBefore ++ zeros n ++ textAfter

def intentText (i : CommitIntent) : Text :=
  "\x7b\"format_version\":" ++ decimal i.formatVersion ++ ",\"generation\":" ++ decimal i.generation ++
    ",\"primary_snapshot_sha256\":\"" ++ i.primarySnapshotSha256 ++ "\",\"new_secondary_b64\":\"" ++
    i.newSecondaryB64 ++ "\"\x7d"

def zeroIntent (n : Nat) : CommitIntent where
  formatVersion := 1
  generation := 1
  primarySnapshotSha256 := sha256OfNothing
  newSecondaryB64 := Base64.encode (bytes (zeroStoreText n))

def zeroCodec (n : Nat) : Codec Nat Empty where
  storeJson _ := bytes (zeroStoreText n)
  readStore b := if b = bytes (zeroStoreText n) then some (zeroStore n) else none
  envelopeJson _ _ _ := []
  readDoc b := if b = bytes (zeroStoreText n) then some ⟨some 1, none, none⟩ else none
  intentJson i := bytes (intentText i)
  readIntent b := if b = bytes (intentText (zeroIntent n)) then some (zeroIntent n) else none
  encode64 := Base64.encode
  decode64 := Base64.decode
  encrypt _ _ _ := []
  decrypt _ _ := none
  sha256Hex _ := sha256OfNothing

theorem byteLength_zeros_le (n : Nat) : 3 + 4 * n ≤ byteLength (zeroStoreText n) :=
  calc 3 + 4 * n ≤ byteLength textBefore + (3 + 4 * n) := Nat.le_add_left _ _
    _ ≤ byteLength textBefore + (3 + 4 * n) + byteLength textAfter := Nat.le_add_right _ _
    _ = byteLength (zeroStoreText n) := by
      rw [zeroStoreText, byteLength_append, byteLength_append, byteLength_zeros]

theorem zeroCodec_inverts (n : Nat) : (zeroCodec n).Inverts (zeroStore n) sha256OfNothing none [] where
  decode64_encode64 := Base64.decode_encode
  readStore_storeJson := by
    simp only [zeroCodec, if_true]
  readDoc_storeJson := by
    refine ⟨⟨some 1, none, none⟩, ?_, rfl⟩
    simp only [zeroCodec, if_true]
  readDoc_envelopeJson _ h := by cases h
  readIntent_intentJson bytes h := by
    obtain ⟨-, rfl⟩ := encodeStore_ok_iff.1 h
    simp only [intentOf, zeroCodec]
    exact if_pos rfl
  decrypt_encrypt _ h := by cases h
  storeJson_ne_nil := List.ne_nil_of_length_pos (Nat.lt_of_lt_of_le (by omega) (byteLength_zeros_le n))
  length_sha256Hex _ h := by cases h
  length_encrypt _ h := by cases h
  length_encode64 := Base64.length_encode
  length_envelopeJson _ h := by cases h

theorem validate_zeroStore (n : Nat) : (zeroStore n).validate = .ok () := by
  have howner : outOfBounds "alice" = false := by decide
  have hdigest : (!isLowercaseHex64 sha256OfNothing) = false := by decide +kernel
  have hidentity : outOfBounds "046d:085e:e179cb54" = false := by decide
  have hprofile : outOfBounds "main" = false := by decide
  have hgroups : validateGroups (zeroStore n).groups = .ok () := by
    refine bind_ok_iff.2 ⟨(), ?_, rfl⟩
    refine bind_ok_iff.2 ⟨(), refuseIf_ok_iff.2 rfl, bind_ok_iff.2 ⟨(), refuseIf_ok_iff.2 ?_, ?_⟩⟩
    · simp only [PairBinding.rgbIdentity, PairBinding.irIdentity, List.any_cons, List.any_nil, Option.any_some,
        hidentity, Bool.or_self]
    · refine bind_ok_iff.2 ⟨(), refuseIf_ok_iff.2 (by simp), ?_⟩
      refine bind_ok_iff.2 ⟨(), refuseIf_ok_iff.2 hprofile, bind_ok_iff.2 ⟨(), refuseIf_ok_iff.2 ?_, ?_⟩⟩
      · simp [maxScansPerProfileGroup]
      · exact bind_ok_iff.2 ⟨(), refuseIf_ok_iff.2 rfl, bind_ok_iff.2 ⟨(), refuseIf_ok_iff.2 rfl, rfl⟩⟩
  have htotal : totalScans (zeroStore n).groups = 1 := rfl
  refine bind_ok_iff.2 ⟨(), refuseIf_ok_iff.2 rfl, bind_ok_iff.2 ⟨(), refuseIf_ok_iff.2 howner, ?_⟩⟩
  refine bind_ok_iff.2 ⟨(), refuseIf_ok_iff.2 hdigest, bind_ok_iff.2 ⟨(), refuseIf_ok_iff.2 rfl, ?_⟩⟩
  refine bind_ok_iff.2 ⟨(), hgroups, bind_ok_iff.2 ⟨(), refuseIf_ok_iff.2 (by rw [htotal]; decide), ?_⟩⟩
  exact bind_ok_iff.2 ⟨(), refuseIf_ok_iff.2 rfl, rfl⟩

def zeroCommit (n : Nat) : PreparedSecondaryCommit Nat Empty where
  store := zeroStore n
  bytes := bytes (zeroStoreText n)
  journal := bytes (intentText (zeroIntent n))

theorem prepare_zeroStore (n : Nat) :
    (zeroCodec n).prepare (.ok ()) (zeroStore n) sha256OfNothing none [] = .ok (zeroCommit n) := by
  refine bind_ok_iff.2 ⟨(), mapError_ok_iff.2 (validate_zeroStore n), bind_ok_iff.2 ⟨(), refuseIf_ok_iff.2 ?_, ?_⟩⟩
  · exact decide_eq_false (not_not.2 rfl)
  · exact bind_ok_iff.2 ⟨_, rfl, bind_ok_iff.2 ⟨(), rfl, rfl⟩⟩

def PublicationsReadBack (c : Codec Scan Calib) : Prop :=
  ∀ createDir store digest key nonce p, c.Inverts store digest key nonce →
    c.prepare createDir store digest key nonce = .ok p → c.Loads p.bytes key store ∧ c.Accepts p

/-- Two million numbers are too many. -/
theorem not_publicationsReadBack_zeros : ¬ PublicationsReadBack (zeroCodec 2100000) := by
  intro hall
  have hloads := (hall _ _ _ _ _ _ (zeroCodec_inverts _) (prepare_zeroStore _)).1
  have hlong : maxStoreBytes < (zeroCommit 2100000).bytes.length :=
    Nat.lt_of_lt_of_le (by decide) (byteLength_zeros_le 2100000)
  exact not_loads_of_refuses (refuses_of_lt hlong) hloads

/-- Eight numbers are not. -/
theorem publication_reads_back_exact_eight :
    publishedLength none (bytes (zeroStoreText 7)).length ≤ maxStoreBytes ∧
      (zeroCodec 7).Loads (zeroCommit 7).bytes none (zeroStore 7) ∧ (zeroCodec 7).Accepts (zeroCommit 7) := by
  have hshort : publishedLength none (bytes (zeroStoreText 7)).length ≤ maxStoreBytes := by
    unfold zeroStoreText textBefore textAfter sha256OfNothing
    repeat rw [String.toList_ofList]
    decide +kernel
  exact ⟨hshort, (publication_reads_back_exact (zeroCodec 7) (.ok ()) (zeroStore 7) sha256OfNothing none []
    (zeroCommit 7) (zeroCodec_inverts 7) (prepare_zeroStore 7)).1.2 hshort⟩

theorem loads_saveSecondaryWithKey_eight : (zeroCodec 7).Loads (bytes (zeroStoreText 7)) none (zeroStore 7) := by
  refine loads_saveSecondaryWithKey (zeroCodec_inverts 7) (bind_ok_iff.2 ⟨(), validate_zeroStore 7, ?_⟩)
  refine bind_ok_iff.2 ⟨_, rfl, bind_ok_iff.2 ⟨(), refuseIf_ok_iff.2 (decide_eq_false (Nat.not_lt.2 ?_)), rfl⟩⟩
  decide +kernel

end Irlume.Cameras

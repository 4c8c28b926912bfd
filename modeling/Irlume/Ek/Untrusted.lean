import Irlume.Ek.Judge
import Irlume.Lib.BoundedSearch
import Irlume.Lib.EarlyExit

/-!
# Verifying an EK certificate

`irlume-core/src/ek_cert.rs`: `EkCertificate::verify` and `PathSearch`. The paths to a listed root are searched
twice, through irlume's own certificates alone and then with those of the TPM's chain indices added; each path
found is judged.
-/

namespace Irlume.Ek

open Irlume.Lib

/-- At most this many CA certificates between the EK certificate and the root. -/
def maxIntermediates : Nat := 6

def maxPaths : Nat := 32

def maxSearchSteps : Nat := 2048

def searchBounds : SearchBounds := ⟨maxPaths, maxSearchSteps, maxIntermediates⟩

section

variable [X509]

/-- The vendor roots and intermediates irlume trusts. -/
structure Anchors where
  roots : List Parsed
  intermediates : List Parsed

def certifiedKey (leaf : Parsed) : Option EkPublicKey :=
  (spkiKey leaf.cert.publicKey).filter fun key => (usableKey key).isOk

structure EkCertificate where
  leaf : Parsed
  key : Option EkPublicKey
  certified : key = certifiedKey leaf

/-! ## The pool -/

def Anchors.listed (anchors : Anchors) (der : Bytes) : Bool :=
  (anchors.roots ++ anchors.intermediates).any fun c => c.der = der

def Anchors.unlisted (anchors : Anchors) (tpmChain : List Bytes) : List Parsed :=
  (tpmChain.filter fun der => !anchors.listed der).filterMap Parsed.new

def Anchors.own (anchors : Anchors) : Chain :=
  anchors.intermediates.map (·, .listed) ++ anchors.roots.map (·, .root)

def Anchors.pool (anchors : Anchors) (tpmChain : List Bytes) : Chain :=
  anchors.own ++ (anchors.unlisted tpmChain).map (·, .tpmChain)

def Anchors.searches (anchors : Anchors) (tpmChain : List Bytes) : List Chain :=
  if (anchors.unlisted tpmChain).isEmpty then [anchors.pool tpmChain]
  else [anchors.own, anchors.pool tpmChain]

/-! ## The search -/

/-- A candidate can be the issuer unless both key identifiers are present and differ. -/
def keyIdsAgree (child issuer : Parsed) : Bool :=
  match child.authorityKeyId, issuer.subjectKeyId with
  | some aki, some ski => aki = ski
  | _, _ => true

def pathGraph (leaf : Parsed) (pool : Chain) : SearchGraph Parsed where
  candidates := pool.map fun (candidate, source) => (candidate, source = .root)
  admits child candidate :=
    candidate.subjectCanonical = child.issuerCanonical && candidate.der ≠ child.der &&
      candidate.der ≠ leaf.der && keyIdsAgree child candidate

def pathSearch (leaf : Parsed) (pool : Chain) : Search Parsed :=
  (pathGraph leaf pool).search searchBounds leaf

def missingIssuer (leaf : Parsed) (pool : Chain) : Option Text :=
  (pathSearch leaf pool).deadEnd.map fun child => nameText child.issuer

/-! ## The verdict -/

def chainLink (leaf : Bool) (entry : Parsed × CertificateSource) : ChainLink :=
  ⟨entry.1.label leaf, entry.1.cert.notBefore, entry.1.cert.notAfter, entry.2⟩

/-- A path for the report. Its first certificate is the EK certificate. -/
def report : Chain → List ChainLink
  | [] => []
  | first :: rest => chainLink true first :: rest.map (chainLink false)

/-- What the paths judged so far gave. -/
structure Tally where
  refusal : Option Refusal
  unverifiable : Option Unverifiable
  missingIssuer : Option Text

namespace EkCertificate

variable (ek : EkCertificate)

def chainOf (pool : Chain) (path : List Nat) : Chain := (ek.leaf, .leaf) :: path.filterMap fun i => pool[i]?

def judgeNext (key : EkPublicKey) (manufacturer : Nat) (pool : Chain) (tally : Tally) (path : List Nat) :
    Except VerifiedChain Tally :=
  match judgePath (ek.chainOf pool path) (some (key, manufacturer)) with
  | .verified (some tpm) => .error ⟨tpm, report (ek.chainOf pool path)⟩
  | .verified none => .ok tally
  | .refused r => .ok { tally with refusal := tally.refusal.or (some r) }
  | .unverifiable u => .ok { tally with unverifiable := tally.unverifiable.or (some u) }

def searchPool (key : EkPublicKey) (manufacturer : Nat) (tally : Tally) (pool : Chain) :
    Except VerifiedChain Tally := do
  let tally ← (pathSearch ek.leaf pool).paths.foldlM (ek.judgeNext key manufacturer pool) tally
  -- The last search saw every certificate: its missing issuer.
  return { tally with missingIssuer := missingIssuer ek.leaf pool }

def unverified (tally : Tally) : ChainVerdict :=
  match tally.refusal with
  | some r => .refused r
  | none =>
    .unverifiable (tally.unverifiable.getD
      (.issuerNotListed (tally.missingIssuer.getD (nameText ek.leaf.issuer))))

def verify (tpmChain : List Bytes) (anchors : Anchors) (manufacturer : Nat) : ChainVerdict :=
  match ek.key with
  | none => .unverifiable .leafKey
  | some key =>
    match (anchors.searches tpmChain).foldlM (ek.searchPool key manufacturer) ⟨none, none, none⟩ with
    | .error chain => .verified chain
    | .ok tally => ek.unverified tally

end EkCertificate

/-! ## Judging keeps the first refusal -/

namespace EkCertificate

variable {ek : EkCertificate} {key : EkPublicKey} {manufacturer : Nat} {pool : Chain} {tally tally' : Tally}

theorem judgeNext_refusal {path : List Nat} {r : Refusal} (hr : tally.refusal = some r)
    (h : ek.judgeNext key manufacturer pool tally path = .ok tally') : tally'.refusal = some r := by
  unfold judgeNext at h
  split at h
  · cases h
  · cases h
    exact hr
  · cases h
    simp [hr]
  · cases h
    exact hr

theorem searchPool_refusal {r : Refusal} (hr : tally.refusal = some r)
    (h : ek.searchPool key manufacturer tally pool = .ok tally') : tally'.refusal = some r := by
  unfold searchPool at h
  cases hpaths : (pathSearch ek.leaf pool).paths.foldlM (ek.judgeNext key manufacturer pool) tally with
  | error chain => rw [hpaths] at h; cases h
  | ok next =>
    rw [hpaths] at h
    have hnext := foldlM_invariant (P := fun tally => tally.refusal = some r)
      (fun _ _ _ hr h => judgeNext_refusal hr h) hr hpaths
    cases h
    exact hnext

end EkCertificate

end

end Irlume.Ek

/-!
## What the chain indices cannot do

Any process that can define NV indices chooses the certificates of the TPM's chain indices. They can help a
path to be found; they cannot take back a verified path or a refusal that irlume's own certificates give, a
signature that fails on one of them is no evidence, and however they issue each other the search is bounded.
-/

namespace Irlume.Ek

open Irlume.Lib

section

variable [X509]

/-! ## Failing signatures -/

def touchesTpmChain (child parent : Parsed × CertificateSource) : Bool :=
  child.2 = .tpmChain || parent.2 = .tpmChain

/-- The signature at position `i` of the chain does not verify. -/
structure FailsAt (chain : Chain) (i : Nat) (child parent : Parsed × CertificateSource) : Prop where
  childAt : chain[i]? = some child
  parentAt : chain[i + 1]? = some parent
  fails : ∃ link, linkCheck child.1 parent.1 = .ok link ∧ link.verify child.1 = false

variable {child parent : Parsed × CertificateSource} {rest : Chain}

variable {i : Nat}

theorem FailsAt.tail {first : Parsed × CertificateSource}
    (h : FailsAt (first :: rest) (i + 1) child parent) :
    FailsAt rest i child parent := ⟨h.childAt, h.parentAt, h.fails⟩

theorem FailsAt.cons {first : Parsed × CertificateSource}
    (h : FailsAt rest i child parent) :
    FailsAt (first :: rest) (i + 1) child parent := ⟨h.childAt, h.parentAt, h.fails⟩

theorem FailsAt.head {first second : Parsed × CertificateSource}
    (h : FailsAt (first :: second :: rest) 0 child parent) :
    ∃ link, linkCheck first.1 second.1 = .ok link ∧ link.verify first.1 = false := by
  obtain ⟨hchild, hparent, hfails⟩ := h
  obtain rfl : first = child := by simpa using hchild
  obtain rfl : second = parent := by simpa using hparent
  exact hfails

variable {chain : Chain}

theorem FailsAt.unique {child parent child' parent' : Parsed × CertificateSource}
    (h : FailsAt chain i child parent) (h' : FailsAt chain i child' parent') :
    child = child' ∧ parent = parent' :=
  ⟨Option.some.inj (h.childAt.symm.trans h'.childAt), Option.some.inj (h.parentAt.symm.trans h'.parentAt)⟩

/-- The first failing signature decides what is said of the signatures. -/
structure FirstFailure (leaf : Bool) (chain : Chain) (result : PathResult) : Prop where
  exists_first : ∃ j child parent, FailsAt chain j child parent ∧
    (∀ i child' parent', FailsAt chain i child' parent' → j ≤ i) ∧
    result = failedSignature (leaf && j == 0) child parent

variable {leaf : Bool} {links : List Link}

theorem linkChecks_cons (h : linkChecks leaf (child :: parent :: rest) = .ok links) :
    ∃ link below, linkCheck child.1 parent.1 = .ok link ∧ linkChecks false (parent :: rest) = .ok below ∧
      links = link :: below := by
  obtain ⟨childCert, childSource⟩ := child
  obtain ⟨parentCert, parentSource⟩ := parent
  rw [linkChecks] at h
  cases hlink : linkCheck childCert parentCert with
  | error algorithm => rw [hlink] at h; cases h
  | ok link =>
    rw [hlink] at h
    cases hbelow : linkChecks false ((parentCert, parentSource) :: rest) with
    | error u => simp only [hbelow] at h; cases h
    | ok below =>
      simp only [hbelow] at h
      exact ⟨link, below, rfl, rfl, (Except.ok.inj h).symm⟩

theorem checkSignatures_some {result : PathResult}
    (hlinks : linkChecks leaf chain = .ok links) (h : checkSignatures leaf chain links = some result) :
    FirstFailure leaf chain result := by
  induction chain generalizing leaf links with
  | nil => cases h
  | cons child rest ih =>
    cases rest with
    | nil => cases h
    | cons parent rest =>
      obtain ⟨link, below, hlink, hbelow, rfl⟩ := linkChecks_cons hlinks
      rw [checkSignatures] at h
      split at h
      · next hverifies =>
        obtain ⟨j, child', parent', hfails, hfirst, hresult⟩ := (ih hbelow h).exists_first
        refine ⟨j + 1, child', parent', hfails.cons, fun i c p hi => ?_, ?_⟩
        · cases i with
          | zero =>
            obtain ⟨link', hlink', hno⟩ := hi.head
            obtain rfl := Except.ok.inj (hlink.symm.trans hlink')
            rw [hverifies] at hno
            cases hno
          | succ i => exact Nat.succ_le_succ (hfirst i c p hi.tail)
        · simpa using hresult
      · next hno =>
        refine ⟨0, child, parent, ⟨rfl, rfl, link, hlink, by simpa using hno⟩, fun _ _ _ _ => Nat.zero_le _, ?_⟩
        simpa using (Option.some.inj h).symm

theorem checkSignatures_none
    (hlinks : linkChecks leaf chain = .ok links) (h : checkSignatures leaf chain links = none) (i : Nat)
    (child parent : Parsed × CertificateSource) : ¬ FailsAt chain i child parent := by
  induction chain generalizing leaf links i with
  | nil => exact fun hi => by simpa using hi.childAt
  | cons first rest ih =>
    cases rest with
    | nil => exact fun hi => by simpa using hi.parentAt
    | cons second rest =>
      obtain ⟨link, below, hlink, hbelow, rfl⟩ := linkChecks_cons hlinks
      rw [checkSignatures] at h
      split at h
      · next hverifies =>
        intro hi
        cases i with
        | zero =>
          obtain ⟨link', hlink', hno⟩ := hi.head
          obtain rfl := Except.ok.inj (hlink.symm.trans hlink')
          rw [hverifies] at hno
          cases hno
        | succ i => exact ih hbelow h i hi.tail
      · cases h

theorem judgePath_refused {leaf : Option (EkPublicKey × Nat)} {r : Refusal}
    (h : judgePath chain leaf = .refused r)
    (hfails : FailsAt chain i child parent) (htouches : touchesTpmChain child parent = true) :
    ∃ j < i, ∃ child' parent', FailsAt chain j child' parent' ∧ touchesTpmChain child' parent' = false ∧
      r = .signature (child'.1.label (leaf.isSome && j == 0)) (nameText parent'.1.subject) := by
  unfold judgePath at h
  simp only at h
  split at h
  · cases h
  · split at h
    · cases h
    · next links hlinks =>
      split at h
      · next result hsome =>
        obtain ⟨j, child', parent', hj, hfirst, rfl⟩ := (checkSignatures_some hlinks hsome).exists_first
        unfold failedSignature at h
        simp only at h
        split at h
        · next hown =>
          simp only [Bool.and_eq_true, Bool.not_eq_true'] at hown
          have hown' : touchesTpmChain child' parent' = false := hown.1.1
          refine ⟨j, Nat.lt_of_le_of_ne (hfirst i child parent hfails) ?_, child', parent', hj, hown', ?_⟩
          · rintro rfl
            obtain ⟨rfl, rfl⟩ := hj.unique hfails
            rw [htouches] at hown'
            cases hown'
          · exact (PathResult.refused.inj h).symm
        · cases h
      · next hnone => exact absurd hfails (checkSignatures_none hlinks hnone i child parent)

/-! ## Two runs -/

theorem Anchors.unlisted_nil (anchors : Anchors) : anchors.unlisted [] = [] := rfl

theorem Anchors.searches_nil (anchors : Anchors) : anchors.searches [] = [anchors.own] := by
  simp [Anchors.searches, Anchors.pool, Anchors.unlisted_nil]

theorem Anchors.searches_eq (anchors : Anchors) (tpmChain : List Bytes) :
    ∃ more, anchors.searches tpmChain = anchors.own :: more := by
  unfold Anchors.searches
  split
  · next hempty =>
    rw [List.isEmpty_iff] at hempty
    exact ⟨[], by simp [Anchors.pool, hempty]⟩
  · exact ⟨[anchors.pool tpmChain], rfl⟩

namespace EkCertificate

variable {ek : EkCertificate} {anchors : Anchors} {key : EkPublicKey} {manufacturer : Nat}

theorem verify_eq (anchors : Anchors) (manufacturer : Nat) (hkey : ek.key = some key)
    (tpmChain : List Bytes) : ∃ more,
    ek.verify tpmChain anchors manufacturer =
      match ek.searchPool key manufacturer ⟨none, none, none⟩ anchors.own with
      | .error chain => .verified chain
      | .ok tally =>
        match List.foldlM (ek.searchPool key manufacturer) tally more with
        | .error chain => .verified chain
        | .ok tally => ek.unverified tally := by
  obtain ⟨more, hmore⟩ := anchors.searches_eq tpmChain
  refine ⟨more, ?_⟩
  simp only [verify, hkey, hmore, List.foldlM_cons]
  cases ek.searchPool key manufacturer ⟨none, none, none⟩ anchors.own with
  | error chain => rfl
  | ok tally => rfl

theorem verify_nil (hkey : ek.key = some key) : ek.verify [] anchors manufacturer =
    match ek.searchPool key manufacturer ⟨none, none, none⟩ anchors.own with
    | .error chain => .verified chain
    | .ok tally => ek.unverified tally := by
  simp only [verify, hkey, Anchors.searches_nil, List.foldlM_cons, List.foldlM_nil]
  cases ek.searchPool key manufacturer ⟨none, none, none⟩ anchors.own with
  | error chain => rfl
  | ok tally => rfl

theorem unverified_refused {tally : Tally} {r : Refusal} :
    ek.unverified tally = .refused r ↔ tally.refusal = some r := by
  unfold unverified
  split
  · next hsome => simp [hsome]
  · next hnone => simp [hnone]

theorem unverified_ne_verified {tally : Tally} {chain : VerifiedChain} :
    ek.unverified tally ≠ .verified chain := by
  unfold unverified
  split <;> simp

theorem verified_stays {tpmChain : List Bytes} {chain : VerifiedChain}
    (h : ek.verify [] anchors manufacturer = .verified chain) :
    ek.verify tpmChain anchors manufacturer = .verified chain := by
  cases hkey : ek.key with
  | none => simp [verify, hkey] at h
  | some key =>
    obtain ⟨more, hmore⟩ := verify_eq anchors manufacturer hkey tpmChain
    rw [verify_nil hkey] at h
    rw [hmore]
    split at h
    · exact h
    · exact absurd h unverified_ne_verified

theorem refused_stays {tpmChain : List Bytes} {r : Refusal}
    (h : ek.verify [] anchors manufacturer = .refused r) :
    (∃ chain, ek.verify tpmChain anchors manufacturer = .verified chain) ∨
      ek.verify tpmChain anchors manufacturer = .refused r := by
  cases hkey : ek.key with
  | none => simp [verify, hkey] at h
  | some key =>
    obtain ⟨more, hmore⟩ := verify_eq anchors manufacturer hkey tpmChain
    rw [verify_nil hkey] at h
    rw [hmore]
    split at h
    · cases h
    · next tally _ =>
      have hrefusal := unverified_refused.1 h
      cases hrest : List.foldlM (ek.searchPool key manufacturer) tally more with
      | error chain => exact .inl ⟨chain, rfl⟩
      | ok tally' =>
        refine .inr ?_
        have hkept := foldlM_invariant (P := fun tally => tally.refusal = some r)
          (fun _ _ _ hr h => searchPool_refusal hr h) hrefusal hrest
        exact unverified_refused.2 hkept

end EkCertificate

/-! ## However the chain certificates issue each other -/

structure Bounded (leaf : Parsed) (pool : Chain) : Prop where
  paths : (pathSearch leaf pool).paths.length ≤ maxPaths
  tried : (pathSearch leaf pool).tried ≤ maxSearchSteps
  /-- The recursion ends by itself: allowing it to go deeper changes nothing. -/
  ends : ∀ more, (pathGraph leaf pool).extend searchBounds (maxIntermediates + 1 + more)
    ⟨[], none, maxSearchSteps, 0⟩ [] leaf = pathSearch leaf pool

theorem pathSearch_bounded (leaf : Parsed) (pool : Chain) : Bounded leaf pool where
  paths := (SearchGraph.search_bounded leaf).1
  tried := (SearchGraph.search_bounded leaf).2
  ends _ := SearchGraph.extend_fuel _ _ _ _ (Nat.zero_le _) (Nat.le_add_left _ _)

/-- **Untrusted bytes cannot spoil a verdict.** -/
theorem untrusted_cannot_spoil (ek : EkCertificate) (anchors : Anchors) (manufacturer : Nat)
    (tpmChain : List Bytes) :
    (∀ chain, ek.verify [] anchors manufacturer = .verified chain →
      ek.verify tpmChain anchors manufacturer = .verified chain) ∧
    (∀ r, ek.verify [] anchors manufacturer = .refused r →
      (∃ chain, ek.verify tpmChain anchors manufacturer = .verified chain) ∨
        ek.verify tpmChain anchors manufacturer = .refused r) ∧
    (∀ (chain : Chain) (leaf : Option (EkPublicKey × Nat)) (r : Refusal), judgePath chain leaf = .refused r →
      ∀ i child parent, FailsAt chain i child parent → touchesTpmChain child parent = true →
        ∃ j < i, ∃ child' parent', FailsAt chain j child' parent' ∧
          touchesTpmChain child' parent' = false ∧
          r = .signature (child'.1.label (leaf.isSome && j == 0)) (nameText parent'.1.subject)) ∧
    ∀ pool, Bounded ek.leaf pool :=
  ⟨fun _ h => EkCertificate.verified_stays h, fun _ h => EkCertificate.refused_stays h,
    fun _ _ _ h _ _ _ hfails htouches => judgePath_refused h hfails htouches,
    fun pool => pathSearch_bounded ek.leaf pool⟩

end

/-! ## A TPM certified through a CA -/

/-- A P-256 certificate. The value of its basic constraints and of its key usage is `[1]` where it is a CA's. -/
def sampleCertificate (subject issuer : Text) (value : Bytes) (more : List Extension) : Certificate where
  version := .v3
  subject := ⟨[[([], .text subject)]], subject, false⟩
  issuer := ⟨[[([], .text issuer)]], issuer, false⟩
  notBefore := 0
  notAfter := 0
  publicKey := ⟨⟨oid.ecPublicKey, some ⟨.other 6, []⟩⟩, some (0x04 :: List.replicate 64 0)⟩
  extensions := some (⟨oid.basicConstraints, true, value⟩ :: ⟨oid.keyUsage, true, value⟩ ::
    ⟨oid.subjectAltName, true, []⟩ :: more)
  tbsSignature := ⟨oid.ecdsaSha256, none⟩
  signatureAlgorithm := ⟨oid.ecdsaSha256, none⟩
  signature := some []
  tbs := []

/-- The certificate of a TPM that the CA `[3]` issued. -/
def issuedCertificate : Certificate := sampleCertificate "TPM" "CA" [] []

def caCertificate : Certificate := sampleCertificate "CA" "Root" [1] []

def rootCertificate : Certificate := sampleCertificate "Root" "Root" [1] []

/-- The decoders for six certificates. `[0]` and `[1]` are self-issued, the second with a subject key identifier
that does not parse; `[5]` has the names of the CA `[3]` and a signature that does not verify. -/
local instance sampleX509 : X509 where
  certificate der :=
    if der = [0] then some (sampleCertificate "TPM" "TPM" [] [])
    else if der = [1] then some (sampleCertificate "TPM" "TPM" [] [⟨oid.subjectKeyId, false, []⟩])
    else if der = [2] then some issuedCertificate
    else if der = [3] then some caCertificate
    else if der = [4] then some rootCertificate
    else if der = [5] then some { caCertificate with signature := some [0] }
    else none
  basicConstraints value := some ⟨value = [1], none⟩
  keyUsage value := some [if value = [1] then .keyCertSign else .keyAgreement]
  extendedKeyUsage _ := none
  subjectAltName _ := some [.directoryName [⟨oid.tpmManufacturer, ⟨.utf8String, [0]⟩⟩,
    ⟨oid.tpmModel, ⟨.utf8String, [1]⟩⟩, ⟨oid.tpmVersion, ⟨.utf8String, [2]⟩⟩]]
  subjectKeyId _ := none
  authorityKeyId _ := none
  certificatePolicies _ := none
  stringText value := some (if value.value = [0] then "id:49465800" else "SLB9670")
  rsaPublicKey _ := none
  objectIdentifier _ := some oid.p256
  algorithmIdentifier _ := none
  pssParams _ := none
  rsaAccepts _ _ := false
  onCurve _ _ _ := true
  verifies _ _ _ signature := signature = []

def sampleEk (leaf : Parsed) : EkCertificate := ⟨leaf, certifiedKey leaf, rfl⟩

def sampleManufacturer : Nat := 0x49465800

def issuedEk : EkCertificate := sampleEk ⟨[2], issuedCertificate, rfl⟩

def issuingRoot : Parsed := ⟨[4], rootCertificate, rfl⟩

/-- A chain that is verified, and a certificate more in the chain indices. -/
theorem untrusted_cannot_spoil_forgedCa :
    ∃ chain, chain.path.length = 3 ∧
      issuedEk.verify [] ⟨[issuingRoot], [⟨[3], caCertificate, rfl⟩]⟩ sampleManufacturer = .verified chain ∧
      issuedEk.verify [[5]] ⟨[issuingRoot], [⟨[3], caCertificate, rfl⟩]⟩ sampleManufacturer = .verified chain :=
  ⟨_, rfl, rfl, (untrusted_cannot_spoil _ _ _ _).1 _ rfl⟩

end Irlume.Ek

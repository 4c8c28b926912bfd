import Irlume.Ek.Certificate

/-!
# Judging one path

`irlume-core/src/ek_cert.rs`: the checks of the extensions, of the CAs, of the EK certificate's profile, and
`judge_path`, which makes them on one path from the EK certificate to a root.
-/

namespace Irlume.Ek

open Irlume.Lib

/-! ## Verdicts -/

/-- Where a certificate on a verified path came from. -/
inductive CertificateSource where
  | leaf
  | tpmChain
  | listed
  | root
  deriving DecidableEq

/-- One certificate on a verified path. -/
structure ChainLink where
  name : Text
  notBefore : Nat
  notAfter : Nat
  source : CertificateSource

structure TpmIdentity where
  manufacturer : Nat
  model : Text
  version : Text

structure VerifiedChain where
  tpm : TpmIdentity
  path : List ChainLink

/-- Why the EK certificate does not fit the EK Credential Profile. -/
inductive LeafProblem where
  | notVersion3
  | basicConstraints
  | isCa
  | keyUsageMissing
  | keyUsageWrong
  | noAlternativeName
  | alternativeNameNotCritical
  | conflictingAttributes
  | noManufacturer
  | manufacturerDiffers (certificate tpm : Nat)
  | noModel
  | noVersion
  | purpose
  | purposeCritical

/-- Evidence against the certificate on a path to a pinned root. -/
inductive Refusal where
  | signature (certificate issuer : Text)
  | notACa (certificate : Text)
  | noCertSign (certificate : Text)
  | pathLength (certificate : Text)
  | caPurpose (certificate : Text)
  | leaf (problem : LeafProblem)

/-- Why no path can be judged. -/
inductive Unverifiable where
  | issuerNotListed (issuer : Text)
  | algorithm (certificate algorithm : Text)
  | criticalExtension (certificate extension : Text)
  | constraints (certificate : Text)
  | malformed (certificate detail : Text)
  | leafKey

inductive ChainVerdict where
  | verified (chain : VerifiedChain)
  | refused (r : Refusal)
  | unverifiable (u : Unverifiable)

inductive PathResult where
  | verified (tpm : Option TpmIdentity)
  | refused (r : Refusal)
  | unverifiable (u : Unverifiable)

section

variable [X509]

/-! ## Extensions -/

def isConstraint (id : Oid) : Bool :=
  id ∈ [oid.nameConstraints, oid.policyConstraints, oid.policyMappings, oid.inhibitAnyPolicy]

/-- Whether the value of an extension irlume processes parses; `none` for another extension. -/
def parses (ext : Extension) : Option Bool :=
  if ext.id = oid.basicConstraints then some (X509.basicConstraints ext.value).isSome
  else if ext.id = oid.keyUsage then some (X509.keyUsage ext.value).isSome
  else if ext.id = oid.extKeyUsage then some (X509.extendedKeyUsage ext.value).isSome
  else if ext.id = oid.subjectAltName then some (X509.subjectAltName ext.value).isSome
  else if ext.id = oid.subjectKeyId then some (X509.subjectKeyId ext.value).isSome
  else if ext.id = oid.authorityKeyId then some (X509.authorityKeyId ext.value).isSome
  else if ext.id = oid.certificatePolicies then some (X509.certificatePolicies ext.value).isSome
  else none

def checkEach (certificate : Text) : List Oid → List Extension → Except Unverifiable Unit
  | _, [] => .ok ()
  | seen, ext :: rest =>
    if ext.id ∈ seen then .error (.malformed certificate "an extension appears twice")
    else if isConstraint ext.id then .error (.constraints certificate)
    else
      match parses ext with
      | some true => checkEach certificate (seen ++ [ext.id]) rest
      | some false => .error (.malformed certificate "an extension does not parse")
      | none =>
        if ext.critical then .error (.criticalExtension certificate ext.id.text)
        else checkEach certificate (seen ++ [ext.id]) rest

/-- Every critical extension must be one irlume processes, the ones it reads must parse, and none may
repeat. -/
def checkExtensions (cert : Parsed) (leaf : Bool) : Except Unverifiable Unit :=
  match cert.cert.extensions with
  | none => .ok ()
  | some extensions => checkEach (cert.label leaf) [] extensions

/-! ## CAs -/

/-- The path length a CA leaves of `max`, when it may issue. -/
def checkBasicConstraints (ca : Parsed) (max : Nat) : Except Refusal Nat :=
  match ca.extension oid.basicConstraints X509.basicConstraints with
  | some (_, bc) =>
    if bc.ca then
      if !ca.selfIssued && max = 0 then .error (.pathLength (nameText ca.subject))
      else
        let left := if ca.selfIssued then max else max - 1
        .ok (match bc.pathLenConstraint with
          | none => left
          | some limit => min left limit)
    else .error (.notACa (nameText ca.subject))
  | none => .error (.notACa (nameText ca.subject))

def checkCertSign (ca : Parsed) : Except Refusal Unit :=
  match ca.extension oid.keyUsage X509.keyUsage with
  | some (_, usage) =>
    if KeyUsages.keyCertSign ∈ usage then .ok () else .error (.noCertSign (nameText ca.subject))
  | none => .error (.noCertSign (nameText ca.subject))

def checkPurpose (ca : Parsed) : Except Refusal Unit :=
  match ca.extension oid.extKeyUsage X509.extendedKeyUsage with
  | some (_, purposes) =>
    if purposes.any fun id => id = oid.tcgKpEkCertificate || id = oid.anyExtendedKeyUsage then .ok ()
    else .error (.caPurpose (nameText ca.subject))
  | none => .ok ()

def checkCasFrom : Nat → List Parsed → Except Refusal Unit
  | _, [] => .ok ()
  | max, ca :: below => do
    let left ← checkBasicConstraints ca max
    checkCertSign ca
    checkPurpose ca
    checkCasFrom left below

/-- The CA constraints for the CAs below the root, given top-most last. -/
def checkCas (cas : List Parsed) : Except Refusal Unit := checkCasFrom cas.length cas.reverse

/-! ## The EK certificate -/

/-- A TCG `id:` value: `id:` and eight hex digits. -/
def tcgId (text : Text) : Option Nat := do
  let hex ← afterStart text "id:"
  if hex.length = 8 ∧ hex.all (fun c => c.isDigit || ('a' ≤ c && c ≤ 'f') || ('A' ≤ c && c ≤ 'F')) then
    some (hex.foldl (fun n c => n * 16 +
      (if c.isDigit then c.toNat - '0'.toNat else if c.isUpper then c.toNat - 'A'.toNat + 10
        else c.toNat - 'a'.toNat + 10)) 0)
  else none

def attributeText (value : Any) : Option Text :=
  match value.tag with
  | .utf8String | .printableString | .ia5String => X509.stringText value
  | _ => none

structure TpmAttributes where
  manufacturer : Option Text
  model : Option Text
  version : Option Text

/-- What a slot holds once a value for it is found; `none` for two values that differ. -/
def fillSlot (slot : Option Text) (text : Text) : Option (Option Text) :=
  match slot with
  | some existing => if existing ≠ text then none else some (some text)
  | none => some (some text)

def readAttribute (found : TpmAttributes) (entry : Attribute) : Except LeafProblem TpmAttributes :=
  let slot : Option (Option Text × (Option Text → TpmAttributes)) :=
    if entry.id = oid.tpmManufacturer then
      some (found.manufacturer, fun v => { found with manufacturer := v })
    else if entry.id = oid.tpmModel then some (found.model, fun v => { found with model := v })
    else if entry.id = oid.tpmVersion then some (found.version, fun v => { found with version := v })
    else none
  match slot with
  | none => .ok found
  | some (held, put) =>
    match attributeText entry.value with
    | none => .ok found
    | some text =>
      match fillSlot held text with
      | none => .error .conflictingAttributes
      | some filled => .ok (put filled)

def readNames (found : TpmAttributes) (directoryNames : Nat) :
    List GeneralName → Except LeafProblem (TpmAttributes × Nat)
  | [] => .ok (found, directoryNames)
  | .other :: rest => readNames found directoryNames rest
  | .directoryName attributes :: rest => do
    let found ← attributes.foldlM readAttribute found
    readNames found (directoryNames + 1) rest

def maxAttributeChars : Nat := 64

def checkLeafUsage (cert : Parsed) (key : EkPublicKey) : Except LeafProblem Unit :=
  let needed : KeyUsages :=
    match key with
    | .rsa _ _ => .keyEncipherment
    | .ecc _ _ _ => .keyAgreement
  match cert.extension oid.keyUsage X509.keyUsage with
  | some (true, usage) => if needed ∈ usage then .ok () else .error .keyUsageWrong
  | _ => .error .keyUsageMissing

/-- The profile makes the Extended Key Usage optional and non-critical. -/
def checkLeafPurpose (cert : Parsed) : Except LeafProblem Unit :=
  match cert.extension oid.extKeyUsage X509.extendedKeyUsage with
  | none => .ok ()
  | some (critical, purposes) =>
    if critical then .error .purposeCritical
    else if oid.tcgKpEkCertificate ∈ purposes then .ok ()
    else .error .purpose

def checkLeafConstraints (cert : Parsed) : Except LeafProblem Unit :=
  match cert.extension oid.basicConstraints X509.basicConstraints with
  | some (critical, bc) =>
    if critical && !bc.ca then .ok () else if bc.ca then .error .isCa else .error .basicConstraints
  | none => .error .basicConstraints

def checkLeafNames (cert : Parsed) (tpmManufacturer : Nat) : Except LeafProblem TpmIdentity :=
  match cert.extension oid.subjectAltName X509.subjectAltName with
  | none => .error .noAlternativeName
  | some (critical, names) => do
    if cert.subject.isEmpty && !critical then throw .alternativeNameNotCritical
    let (found, directoryNames) ← readNames ⟨none, none, none⟩ 0 names
    if directoryNames = 0 then throw .noAlternativeName
    match found.manufacturer.bind tcgId with
    | none => throw .noManufacturer
    | some manufacturer =>
      if manufacturer ≠ tpmManufacturer then throw (.manufacturerDiffers manufacturer tpmManufacturer)
      match found.model.filter (!·.isEmpty) with
      | none => throw .noModel
      | some model =>
        match found.version.filter (!·.isEmpty) with
        | none => throw .noVersion
        | some version =>
          return ⟨manufacturer, bounded model maxAttributeChars, bounded version maxAttributeChars⟩

def checkLeaf (cert : Parsed) (key : EkPublicKey) (tpmManufacturer : Nat) : Except LeafProblem TpmIdentity := do
  if cert.cert.version ≠ .v3 then throw .notVersion3
  checkLeafConstraints cert
  checkLeafUsage cert key
  checkLeafPurpose cert
  checkLeafNames cert tpmManufacturer

/-! ## Paths -/

abbrev Chain := List (Parsed × CertificateSource)

def checkAllExtensions : Bool → List Parsed → Except Unverifiable Unit
  | _, [] => .ok ()
  | leaf, cert :: rest => do
    checkExtensions cert leaf
    checkAllExtensions false rest

def linkChecks : Bool → Chain → Except Unverifiable (List Link)
  | leaf, (child, _) :: (parent, source) :: rest =>
    match linkCheck child parent with
    | .error algorithm => .error (.algorithm (child.label leaf) algorithm)
    | .ok link => do
      let links ← linkChecks false ((parent, source) :: rest)
      return link :: links
  | _, _ => .ok []

def failedSignature (leaf : Bool) (child parent : Parsed × CertificateSource) : PathResult :=
  let fromTpmChain := child.2 = .tpmChain || parent.2 = .tpmChain
  if !fromTpmChain && child.1.authorityKeyId.isSome && parent.1.subjectKeyId.isSome then
    .refused (.signature (child.1.label leaf) (nameText parent.1.subject))
  else .unverifiable (.issuerNotListed (nameText child.1.issuer))

/-- What the first signature that does not verify says of the path; `none` when all verify. -/
def checkSignatures : Bool → Chain → List Link → Option PathResult
  | leaf, child :: parent :: rest, link :: links =>
    if link.verify child.1 then checkSignatures false (parent :: rest) links
    else some (failedSignature leaf child parent)
  | _, _, _ => none

/-- Judge one path: its first certificate is the one being judged, its last one a root. With `leaf`, the
first must also be an EK certificate for that key and that TPM manufacturer. -/
def judgePath (chain : Chain) (leaf : Option (EkPublicKey × Nat)) : PathResult :=
  let belowRoot := chain.dropLast.map (·.1)
  match checkAllExtensions leaf.isSome belowRoot with
  | .error u => .unverifiable u
  | .ok () =>
    match linkChecks leaf.isSome chain with
    | .error u => .unverifiable u
    | .ok links =>
      match checkSignatures leaf.isSome chain links with
      | some result => result
      | none =>
        match checkCas (if leaf.isSome then belowRoot.drop 1 else belowRoot) with
        | .error r => .refused r
        | .ok () =>
          match leaf, chain with
          | some (key, manufacturer), (cert, _) :: _ =>
            match checkLeaf cert key manufacturer with
            | .ok tpm => .verified (some tpm)
            | .error problem => .refused (.leaf problem)
          | _, _ => .verified none

end

end Irlume.Ek

import Irlume.Lib.Text

/-!
# Certificates

`irlume-core/src/ek_cert.rs`: what is read of a certificate, and how its issuer may have signed it. The DER
parser, the decoders of the extensions and of the keys, and the signature verification are given (`X509`).
-/

namespace Irlume.Ek

open Irlume.Lib

abbrev Bytes := List UInt8

abbrev Oid := List Nat

def Oid.text (id : Oid) : Text := ['.'].intercalate (id.map fun n => (toString n).toList)

/-! ## Object identifiers -/

namespace oid

def rsaEncryption : Oid := [1, 2, 840, 113549, 1, 1, 1]
def rsaesOaep : Oid := [1, 2, 840, 113549, 1, 1, 7]
def mgf1 : Oid := [1, 2, 840, 113549, 1, 1, 8]
def rsassaPss : Oid := [1, 2, 840, 113549, 1, 1, 10]
def sha256WithRsa : Oid := [1, 2, 840, 113549, 1, 1, 11]
def sha384WithRsa : Oid := [1, 2, 840, 113549, 1, 1, 12]
def sha512WithRsa : Oid := [1, 2, 840, 113549, 1, 1, 13]
def md5WithRsa : Oid := [1, 2, 840, 113549, 1, 1, 4]
def sha1WithRsa : Oid := [1, 2, 840, 113549, 1, 1, 5]
def sha224WithRsa : Oid := [1, 2, 840, 113549, 1, 1, 14]
def ecPublicKey : Oid := [1, 2, 840, 10045, 2, 1]
def ecdsaSha1 : Oid := [1, 2, 840, 10045, 4, 1]
def ecdsaSha224 : Oid := [1, 2, 840, 10045, 4, 3, 1]
def ecdsaSha256 : Oid := [1, 2, 840, 10045, 4, 3, 2]
def ecdsaSha384 : Oid := [1, 2, 840, 10045, 4, 3, 3]
def ecdsaSha512 : Oid := [1, 2, 840, 10045, 4, 3, 4]
def p256 : Oid := [1, 2, 840, 10045, 3, 1, 7]
def p384 : Oid := [1, 3, 132, 0, 34]
def p521 : Oid := [1, 3, 132, 0, 35]
def sha256 : Oid := [2, 16, 840, 1, 101, 3, 4, 2, 1]
def sha384 : Oid := [2, 16, 840, 1, 101, 3, 4, 2, 2]
def sha512 : Oid := [2, 16, 840, 1, 101, 3, 4, 2, 3]

def subjectKeyId : Oid := [2, 5, 29, 14]
def keyUsage : Oid := [2, 5, 29, 15]
def subjectAltName : Oid := [2, 5, 29, 17]
def basicConstraints : Oid := [2, 5, 29, 19]
def nameConstraints : Oid := [2, 5, 29, 30]
def certificatePolicies : Oid := [2, 5, 29, 32]
def policyMappings : Oid := [2, 5, 29, 33]
def authorityKeyId : Oid := [2, 5, 29, 35]
def policyConstraints : Oid := [2, 5, 29, 36]
def extKeyUsage : Oid := [2, 5, 29, 37]
def inhibitAnyPolicy : Oid := [2, 5, 29, 54]
def anyExtendedKeyUsage : Oid := [2, 5, 29, 37, 0]

def tcgKpEkCertificate : Oid := [2, 23, 133, 8, 1]
def tpmManufacturer : Oid := [2, 23, 133, 2, 1]
def tpmModel : Oid := [2, 23, 133, 2, 2]
def tpmVersion : Oid := [2, 23, 133, 2, 3]

end oid

/-! ## What a certificate holds -/

inductive Tag where
  | null
  | utf8String
  | printableString
  | ia5String
  | other (number : Nat)
  deriving DecidableEq

structure Any where
  tag : Tag
  value : Bytes
  deriving DecidableEq

def Any.isNull (a : Any) : Bool := a = ⟨.null, []⟩

structure AlgorithmIdentifier where
  oid : Oid
  parameters : Option Any
  deriving DecidableEq

structure SubjectPublicKeyInfo where
  algorithm : AlgorithmIdentifier
  /-- `none` when the bits are no whole bytes. -/
  key : Option Bytes

/-- An attribute value as RFC 5280 7.1 compares it. -/
inductive CanonicalValue where
  | text (value : Text)
  | other (tag : Tag) (value : Bytes)
  deriving DecidableEq

abbrev CanonicalName := List (List (Oid × CanonicalValue))

/-- A name, with the form it is compared in and the one it is shown in. -/
structure Name where
  canonical : CanonicalName
  shown : Text
  isEmpty : Bool

structure Extension where
  id : Oid
  critical : Bool
  value : Bytes

inductive Version where
  | v1
  | v2
  | v3
  deriving DecidableEq

structure Certificate where
  version : Version
  subject : Name
  issuer : Name
  notBefore : Nat
  notAfter : Nat
  publicKey : SubjectPublicKeyInfo
  extensions : Option (List Extension)
  tbsSignature : AlgorithmIdentifier
  signatureAlgorithm : AlgorithmIdentifier
  signature : Option Bytes
  tbs : Bytes

structure BasicConstraints where
  ca : Bool
  pathLenConstraint : Option Nat

inductive KeyUsages where
  | keyEncipherment
  | keyAgreement
  | keyCertSign
  | other (bit : Nat)
  deriving DecidableEq

structure Attribute where
  id : Oid
  value : Any

inductive GeneralName where
  | directoryName (attributes : List Attribute)
  | other

structure PssParams where
  hash : Option AlgorithmIdentifier
  maskGen : Option AlgorithmIdentifier
  saltLen : Option Nat
  trailer : Option Nat

inductive EccCurve where
  | nistP256
  | nistP384
  | nistP521

inductive EkPublicKey where
  | rsa (modulus : Bytes) (exponent : Nat)
  | ecc (curve : EccCurve) (x y : Bytes)

inductive HashAlg where
  | sha256
  | sha384
  | sha512
  deriving DecidableEq

/-- A signature scheme irlume accepts. -/
inductive Scheme where
  | rsaPkcs1 (hash : HashAlg)
  | rsaPss (hash : HashAlg) (salt : Nat)
  | ecdsa (hash : HashAlg)

/-- The parser, the decoders and the signature verification. -/
class X509 where
  certificate : Bytes → Option Certificate
  basicConstraints : Bytes → Option BasicConstraints
  keyUsage : Bytes → Option (List KeyUsages)
  extendedKeyUsage : Bytes → Option (List Oid)
  subjectAltName : Bytes → Option (List GeneralName)
  subjectKeyId : Bytes → Option Bytes
  authorityKeyId : Bytes → Option (Option Bytes)
  certificatePolicies : Bytes → Option Unit
  stringText : Any → Option Text
  /-- The modulus without leading zero bytes, and the exponent. -/
  rsaPublicKey : Bytes → Option (Bytes × Bytes)
  objectIdentifier : Any → Option Oid
  algorithmIdentifier : Any → Option AlgorithmIdentifier
  pssParams : Any → Option PssParams
  /-- Whether the RSA implementation takes this modulus and exponent. -/
  rsaAccepts : Bytes → Nat → Bool
  onCurve : EccCurve → Bytes → Bytes → Bool
  verifies : EkPublicKey → Scheme → Bytes → Bytes → Bool

/-! ## Parsed certificates -/

section

variable [X509]

structure Parsed where
  der : Bytes
  cert : Certificate
  parsed : X509.certificate der = some cert

theorem Parsed.ext_der {p q : Parsed} (h : p.der = q.der) : p = q := by
  obtain ⟨der, cert, hp⟩ := p
  obtain ⟨der', cert', hq⟩ := q
  obtain rfl : der = der' := h
  cases hp.symm.trans hq
  rfl

def maxNameChars : Nat := 160

def bounded (text : Text) (maxChars : Nat) : Text := text.take maxChars

def nameText (name : Name) : Text := bounded name.shown maxNameChars

namespace Parsed

def new (der : Bytes) : Option Parsed :=
  match h : X509.certificate der with
  | none => none
  | some cert => some ⟨der, cert, h⟩

def subject (p : Parsed) : Name := p.cert.subject

def issuer (p : Parsed) : Name := p.cert.issuer

def subjectCanonical (p : Parsed) : CanonicalName := p.subject.canonical

def issuerCanonical (p : Parsed) : CanonicalName := p.issuer.canonical

def extension {T : Type} (p : Parsed) (id : Oid) (decode : Bytes → Option T) : Option (Bool × T) :=
  match (p.cert.extensions.getD []).find? fun ext => ext.id = id with
  | none => none
  | some ext => (decode ext.value).map fun value => (ext.critical, value)

def subjectKeyId (p : Parsed) : Option Bytes :=
  (p.extension oid.subjectKeyId X509.subjectKeyId).map (·.2)

def authorityKeyId (p : Parsed) : Option Bytes :=
  (p.extension oid.authorityKeyId X509.authorityKeyId).bind (·.2)

def selfIssued (p : Parsed) : Bool := p.subjectCanonical = p.issuerCanonical

def label (p : Parsed) (leaf : Bool) : Text :=
  if leaf then "the EK certificate" else nameText p.subject

end Parsed

/-! ## Keys and signatures -/

def EccCurve.fromOid (id : Oid) : Option EccCurve :=
  if id = oid.p256 then some .nistP256
  else if id = oid.p384 then some .nistP384
  else if id = oid.p521 then some .nistP521
  else none

def EccCurve.fieldBytes : EccCurve → Nat
  | .nistP256 => 32
  | .nistP384 => 48
  | .nistP521 => 66

def beNumber (bytes : Bytes) : Nat := bytes.foldl (fun n b => n * 256 + b.toNat) 0

def spkiKey (spki : SubjectPublicKeyInfo) : Option EkPublicKey := do
  let keyBytes ← spki.key
  if spki.algorithm.oid = oid.rsaEncryption ∨ spki.algorithm.oid = oid.rsaesOaep then
    if spki.algorithm.oid = oid.rsaEncryption ∧ spki.algorithm.parameters.any (!·.isNull) then none
    else
      let (modulus, exponent) ← X509.rsaPublicKey keyBytes
      if exponent.isEmpty ∨ 4 < exponent.length then none
      else some (.rsa modulus (beNumber exponent))
  else if spki.algorithm.oid = oid.ecPublicKey then
    let curveOid ← spki.algorithm.parameters.bind X509.objectIdentifier
    let curve ← EccCurve.fromOid curveOid
    match keyBytes with
    | 0x04 :: point =>
      if point.length = 2 * curve.fieldBytes then
        some (.ecc curve (point.take curve.fieldBytes) (point.drop curve.fieldBytes))
      else none
    | _ => none
  else none

def HashAlg.fromOid (id : Oid) : Option HashAlg :=
  if id = oid.sha256 then some .sha256
  else if id = oid.sha384 then some .sha384
  else if id = oid.sha512 then some .sha512
  else none

def HashAlg.len : HashAlg → Nat
  | .sha256 => 32
  | .sha384 => 48
  | .sha512 => 64

def pssScheme (alg : AlgorithmIdentifier) : Option Scheme := do
  let params ← alg.parameters.bind X509.pssParams
  let hashId ← params.hash
  if hashId.parameters.any (!·.isNull) then none
  else
    let hash ← HashAlg.fromOid hashId.oid
    let maskGen ← params.maskGen
    if maskGen.oid ≠ oid.mgf1 then none
    else
      let mgfHash ← maskGen.parameters.bind X509.algorithmIdentifier
      if HashAlg.fromOid mgfHash.oid ≠ some hash ∨ mgfHash.parameters.any (!·.isNull) then none
      else if params.trailer.any (· ≠ 1) then none
      else some (.rsaPss hash (params.saltLen.getD 20))

/-- The scheme an AlgorithmIdentifier names, or the name to report for one irlume does not accept. -/
def scheme (alg : AlgorithmIdentifier) : Except Text Scheme :=
  let plain (s : Scheme) : Except Text Scheme :=
    if alg.parameters.all (·.isNull) then .ok s else .error (alg.oid.text ++ " with parameters".toList)
  if alg.oid = oid.sha256WithRsa then plain (.rsaPkcs1 .sha256)
  else if alg.oid = oid.sha384WithRsa then plain (.rsaPkcs1 .sha384)
  else if alg.oid = oid.sha512WithRsa then plain (.rsaPkcs1 .sha512)
  else if alg.oid = oid.ecdsaSha256 then plain (.ecdsa .sha256)
  else if alg.oid = oid.ecdsaSha384 then plain (.ecdsa .sha384)
  else if alg.oid = oid.ecdsaSha512 then plain (.ecdsa .sha512)
  else if alg.oid = oid.rsassaPss then
    match pssScheme alg with
    | some s => .ok s
    | none => .error "RSASSA-PSS with SHA-1 or unusual parameters"
  else if alg.oid = oid.sha1WithRsa then .error "sha1WithRSAEncryption"
  else if alg.oid = oid.md5WithRsa then .error "md5WithRSAEncryption"
  else if alg.oid = oid.sha224WithRsa then .error "sha224WithRSAEncryption"
  else if alg.oid = oid.ecdsaSha1 then .error "ecdsa-with-SHA1"
  else if alg.oid = oid.ecdsaSha224 then .error "ecdsa-with-SHA224"
  else .error alg.oid.text

def minRsaBits : Nat := 2048
def maxRsaBits : Nat := 4096

def modulusBits : Bytes → Nat
  | [] => 0
  | b :: rest => rest.length * 8 + if b = 0 then 0 else Nat.log2 b.toNat + 1

def usableKey : EkPublicKey → Except Text Unit
  | .rsa modulus exponent =>
    let bits := modulusBits modulus
    let shown := "RSA-".toList ++ (toString bits).toList
    if bits < minRsaBits ∨ maxRsaBits < bits then .error shown
    else if X509.rsaAccepts modulus exponent then .ok ()
    else .error (shown ++ " with an unusable modulus or exponent".toList)
  | .ecc curve x y =>
    if X509.onCurve curve x y then .ok () else .error "an ECC key that is not on its curve"

/-- The key and scheme for one link, after checking irlume accepts both. -/
structure Link where
  key : EkPublicKey
  scheme : Scheme

def Link.verify (link : Link) (child : Parsed) : Bool :=
  match child.cert.signature with
  | none => false
  | some signature =>
    match link.key, link.scheme with
    | .rsa _ _, .rsaPkcs1 _ | .rsa _ _, .rsaPss _ _ | .ecc _ _ _, .ecdsa _ =>
      X509.verifies link.key link.scheme child.cert.tbs signature
    | _, _ => false

/-- Check that irlume accepts how `parent` signed `child`. Errs with the name of what it does not accept. -/
def linkCheck (child parent : Parsed) : Except Text Link := do
  if child.cert.signatureAlgorithm ≠ child.cert.tbsSignature then
    throw "signature algorithm fields that differ".toList
  let scheme ← scheme child.cert.signatureAlgorithm
  let spki := parent.cert.publicKey
  let refused : Except Text EkPublicKey :=
    .error ("an issuer key of type ".toList ++ spki.algorithm.oid.text)
  let key ← match spkiKey spki with
    | some key@(.rsa _ _) =>
      if spki.algorithm.oid = oid.rsaEncryption then (usableKey key).map fun () => key else refused
    | some key@(.ecc _ _ _) => (usableKey key).map fun () => key
    | none => refused
  match key, scheme with
  | .rsa _ _, .rsaPkcs1 _ | .rsa _ _, .rsaPss _ _ => return ⟨key, scheme⟩
  | .ecc .nistP521 _ _, .ecdsa hash =>
    if hash.len * 2 < EccCurve.nistP521.fieldBytes then
      throw "ecdsa on P-521 with a hash shorter than SHA-384".toList
    else return ⟨key, scheme⟩
  | .ecc _ _ _, .ecdsa _ => return ⟨key, scheme⟩
  | _, _ => throw "a signature algorithm that does not fit the issuer's key".toList

end

end Irlume.Ek

import Irlume.Ek.Untrusted
import Irlume.Lib.RunningLimit

/-!
# Valid paths

What a path from an EK certificate to a root must satisfy, certificate by certificate.
-/

namespace Irlume.Ek

open Irlume.Lib

section

variable [X509]

/-! ## What each certificate must satisfy -/

def extensionsOf (cert : Parsed) : List Extension := cert.cert.extensions.getD []

/-- Each critical extension is one irlume processes, none repeats, and there are no constraints. -/
structure Understood (cert : Parsed) : Prop where
  nodup : ((extensionsOf cert).map (·.id)).Nodup
  noConstraints : ∀ ext ∈ extensionsOf cert, isConstraint ext.id = false
  critical : ∀ ext ∈ extensionsOf cert, ext.critical = true → (parses ext).isSome = true

/-- Each extension that irlume processes, critical or not, parses. -/
def Readable (cert : Parsed) : Prop := ∀ ext ∈ extensionsOf cert, parses ext ≠ some false

/-- `parent` has an accepted key that made the signature of `child` with an accepted scheme. -/
def Signed (child parent : Parsed) : Prop :=
  ∃ link, linkCheck child parent = .ok link ∧ link.verify child = true

structure Issued (child parent : Parsed) : Prop where
  names : parent.subjectCanonical = child.issuerCanonical
  keyIds : keyIdsAgree child parent = true
  signed : Signed child parent

structure MayIssue (ca : Parsed) : Prop where
  isCa : ∃ critical bc, ca.extension oid.basicConstraints X509.basicConstraints = some (critical, bc) ∧
    bc.ca = true
  certSign : ∃ critical usage, ca.extension oid.keyUsage X509.keyUsage = some (critical, usage) ∧
    KeyUsages.keyCertSign ∈ usage
  purpose : ∀ critical purposes,
    ca.extension oid.extKeyUsage X509.extendedKeyUsage = some (critical, purposes) →
      oid.tcgKpEkCertificate ∈ purposes ∨ oid.anyExtendedKeyUsage ∈ purposes

def countsForLength (ca : Parsed) : Bool := !ca.selfIssued

def pathLimit (ca : Parsed) : Option Nat :=
  (ca.extension oid.basicConstraints X509.basicConstraints).bind (·.2.pathLenConstraint)

/-- A path for the EK certificate: through `cas`, the issuer of the EK certificate first, to `root`. -/
structure ValidPath (ek : EkCertificate) (manufacturer : Nat) (cas : List Parsed) (root : Parsed) : Prop where
  short : cas.length ≤ maxIntermediates
  issued : List.IsChain Issued (ek.leaf :: cas ++ [root])
  understood : ∀ cert ∈ ek.leaf :: cas, Understood cert
  mayIssue : ∀ ca ∈ cas, MayIssue ca
  lengths : ∀ below ca above k, cas = below ++ ca :: above → pathLimit ca = some k →
    below.countP countsForLength ≤ k
  leaf : ∃ key tpm, ek.key = some key ∧ checkLeaf ek.leaf key manufacturer = .ok tpm

variable {cas : List Parsed}

theorem limitsKept_reverse : LimitsKept countsForLength pathLimit cas.reverse ↔
    ∀ below ca above k, cas = below ++ ca :: above → pathLimit ca = some k →
      below.countP countsForLength ≤ k := by
  constructor
  · rintro h below ca above k rfl hk
    have hkept := h above.reverse ca below.reverse k (by simp) hk
    rwa [List.countP_reverse] at hkept
  · intro h above ca below k heq hk
    have hkept := h below.reverse ca above.reverse k (by simpa using congrArg List.reverse heq) hk
    rwa [List.countP_reverse] at hkept

/-! ## The extensions -/

theorem checkEach_ok_iff {certificate : Text} {seen : List Oid} {exts : List Extension} :
    checkEach certificate seen exts = .ok () ↔
      (exts.map (·.id)).Nodup ∧ (∀ ext ∈ exts, ext.id ∉ seen) ∧
        ∀ ext ∈ exts, isConstraint ext.id = false ∧ parses ext ≠ some false ∧
          (ext.critical = true → (parses ext).isSome = true) := by
  induction exts generalizing seen with
  | nil => simp [checkEach]
  | cons ext rest ih =>
    have hnext : checkEach certificate (seen ++ [ext.id]) rest = .ok () ↔
        ((rest.map (·.id)).Nodup ∧ (∀ e ∈ rest, e.id ∉ seen) ∧ ∀ e ∈ rest, e.id ≠ ext.id) ∧
          ∀ e ∈ rest, isConstraint e.id = false ∧ parses e ≠ some false ∧
            (e.critical = true → (parses e).isSome = true) := by
      rw [ih]
      simp only [List.mem_append, List.mem_singleton, not_or, forall_and, and_assoc]
    have hids : ext.id ∉ rest.map (·.id) ↔ ∀ e ∈ rest, e.id ≠ ext.id := by
      simp only [List.mem_map, not_exists, not_and]
    rw [checkEach, List.map_cons, List.nodup_cons, hids]
    simp only [List.forall_mem_cons]
    split
    · next hseen => simp [hseen]
    · next hseen =>
      split
      · next hconstraint => simp [hconstraint]
      · next hconstraint =>
        simp only [Bool.not_eq_true] at hconstraint
        cases hparses : parses ext with
        | none =>
          cases hcritical : ext.critical with
          | true => simp
          | false =>
            simp only [Bool.false_eq_true, if_false, hnext]
            tauto
        | some parsed =>
          cases parsed with
          | true =>
            simp only [hnext]
            simp only [Option.isSome_some, ne_eq, Option.some.injEq, Bool.true_eq_false, not_false_eq_true,
              implies_true]
            tauto
          | false => simp

theorem checkExtensions_ok_iff {cert : Parsed} (leaf : Bool) :
    checkExtensions cert leaf = .ok () ↔ Understood cert ∧ Readable cert := by
  unfold checkExtensions
  have hlist : ∀ exts, extensionsOf cert = exts →
      (checkEach (cert.label leaf) [] exts = .ok () ↔ Understood cert ∧ Readable cert) := by
    rintro exts rfl
    rw [checkEach_ok_iff]
    constructor
    · rintro ⟨hnodup, -, hall⟩
      exact ⟨⟨hnodup, fun e he => (hall e he).1, fun e he => (hall e he).2.2⟩, fun e he => (hall e he).2.1⟩
    · rintro ⟨hunderstood, hreadable⟩
      exact ⟨hunderstood.nodup, by simp, fun e he =>
        ⟨hunderstood.noConstraints e he, hreadable e he, hunderstood.critical e he⟩⟩
  split
  · next hnone =>
    have hnil := hlist [] (by rw [extensionsOf, hnone]; rfl)
    rwa [checkEach] at hnil
  · next exts hsome => exact hlist exts (by rw [extensionsOf, hsome]; rfl)

theorem checkAllExtensions_ok_iff (leaf : Bool) {certs : List Parsed} :
    checkAllExtensions leaf certs = .ok () ↔ ∀ cert ∈ certs, Understood cert ∧ Readable cert := by
  induction certs generalizing leaf with
  | nil => simp [checkAllExtensions]
  | cons cert rest ih =>
    rw [checkAllExtensions, List.forall_mem_cons, ← checkExtensions_ok_iff leaf, ← ih false]
    cases checkExtensions cert leaf with
    | error u => simp [bind, Except.bind]
    | ok a => simp [bind, Except.bind]

/-! ## The signatures -/

def SignedChain (chain : Chain) : Prop := List.IsChain (fun child parent => Signed child.1 parent.1) chain

theorem signatures_ok_iff (leaf : Bool) {chain : Chain} :
    (∃ links, linkChecks leaf chain = .ok links ∧ checkSignatures leaf chain links = none) ↔
      SignedChain chain := by
  unfold SignedChain
  induction chain generalizing leaf with
  | nil => simp [linkChecks, checkSignatures]
  | cons child rest ih =>
    cases rest with
    | nil => simp [linkChecks, checkSignatures]
    | cons parent rest =>
      rw [List.isChain_cons_cons, ← ih false]
      constructor
      · rintro ⟨links, hlinks, hnone⟩
        obtain ⟨childCert, childSource⟩ := child
        obtain ⟨parentCert, parentSource⟩ := parent
        rw [linkChecks] at hlinks
        cases hlink : linkCheck childCert parentCert with
        | error algorithm => rw [hlink] at hlinks; cases hlinks
        | ok link =>
          cases hbelow : linkChecks false ((parentCert, parentSource) :: rest) with
          | error u => simp only [hlink, hbelow] at hlinks; cases hlinks
          | ok below =>
            simp only [hlink, hbelow] at hlinks
            cases hlinks
            rw [checkSignatures] at hnone
            split at hnone
            · next hverifies => exact ⟨⟨link, hlink, hverifies⟩, below, rfl, hnone⟩
            · cases hnone
      · rintro ⟨⟨link, hlink, hverifies⟩, below, hbelow, hnone⟩
        refine ⟨link :: below, ?_, ?_⟩
        · simp only [linkChecks, hlink, hbelow]
          rfl
        · rw [checkSignatures, if_pos hverifies]
          exact hnone

/-! ## The CAs -/

variable {ca : Parsed}

theorem checkCertSign_ok_iff : checkCertSign ca = .ok () ↔
    ∃ critical usage, ca.extension oid.keyUsage X509.keyUsage = some (critical, usage) ∧
      KeyUsages.keyCertSign ∈ usage := by
  unfold checkCertSign
  cases ca.extension oid.keyUsage X509.keyUsage with
  | none => simp
  | some found =>
    obtain ⟨critical, usage⟩ := found
    simp

theorem checkPurpose_ok_iff : checkPurpose ca = .ok () ↔ ∀ critical purposes,
    ca.extension oid.extKeyUsage X509.extendedKeyUsage = some (critical, purposes) →
      oid.tcgKpEkCertificate ∈ purposes ∨ oid.anyExtendedKeyUsage ∈ purposes := by
  unfold checkPurpose
  cases ca.extension oid.extKeyUsage X509.extendedKeyUsage with
  | none => simp
  | some found =>
    obtain ⟨critical, purposes⟩ := found
    have hany : (purposes.any fun id => id = oid.tcgKpEkCertificate || id = oid.anyExtendedKeyUsage) = true ↔
        oid.tcgKpEkCertificate ∈ purposes ∨ oid.anyExtendedKeyUsage ∈ purposes := by
      simp only [List.any_eq_true, Bool.or_eq_true, decide_eq_true_eq]
      constructor
      · rintro ⟨id, hid, rfl | rfl⟩
        · exact .inl hid
        · exact .inr hid
      · rintro (hid | hid)
        · exact ⟨_, hid, .inl rfl⟩
        · exact ⟨_, hid, .inr rfl⟩
    have hall : (∀ critical' purposes', some (critical, purposes) = some (critical', purposes') →
        oid.tcgKpEkCertificate ∈ purposes' ∨ oid.anyExtendedKeyUsage ∈ purposes') ↔
          oid.tcgKpEkCertificate ∈ purposes ∨ oid.anyExtendedKeyUsage ∈ purposes := by
      constructor
      · exact fun h => h critical purposes rfl
      · rintro h _ _ ⟨rfl, rfl⟩
        exact h
    rw [hall, ← hany]
    simp only [ite_eq_left_iff, reduceCtorEq, imp_false, Decidable.not_not]

theorem checkBasicConstraints_ok_iff {max left : Nat} :
    checkBasicConstraints ca max = .ok left ↔
      (∃ critical bc, ca.extension oid.basicConstraints X509.basicConstraints = some (critical, bc) ∧
        bc.ca = true) ∧ passLimit countsForLength pathLimit max ca = some left := by
  unfold checkBasicConstraints passLimit pathLimit countsForLength
  cases ca.extension oid.basicConstraints X509.basicConstraints with
  | none => simp
  | some found =>
    obtain ⟨critical, ca', limit⟩ := found
    cases ca' with
    | false => simp
    | true =>
      cases hself : ca.selfIssued with
      | true => cases limit <;> simp
      | false =>
        cases max with
        | zero => simp
        | succ max => cases limit <;> simp

theorem checkCasFrom_ok_iff {max : Nat} : checkCasFrom max cas = .ok () ↔
    withinLimits countsForLength pathLimit max cas = true ∧ ∀ ca ∈ cas, MayIssue ca := by
  induction cas generalizing max with
  | nil => simp [checkCasFrom, withinLimits]
  | cons ca below ih =>
    have hmay : MayIssue ca ↔
        (∃ critical bc, ca.extension oid.basicConstraints X509.basicConstraints = some (critical, bc) ∧
          bc.ca = true) ∧ checkCertSign ca = .ok () ∧ checkPurpose ca = .ok () := by
      rw [checkCertSign_ok_iff, checkPurpose_ok_iff]
      exact ⟨fun h => ⟨h.isCa, h.certSign, h.purpose⟩, fun h => ⟨h.1, h.2.1, h.2.2⟩⟩
    rw [List.forall_mem_cons, hmay, withinLimits]
    constructor
    · intro h
      rw [checkCasFrom] at h
      cases hbasic : checkBasicConstraints ca max with
      | error r => rw [hbasic] at h; cases h
      | ok left =>
        cases hsign : checkCertSign ca with
        | error r => rw [hbasic, hsign] at h; cases h
        | ok a =>
          cases hpurpose : checkPurpose ca with
          | error r => rw [hbasic, hsign, hpurpose] at h; cases h
          | ok b =>
            rw [hbasic, hsign, hpurpose] at h
            obtain ⟨hca, hpass⟩ := checkBasicConstraints_ok_iff.1 hbasic
            obtain ⟨hwithin, hrest⟩ := ih.1 h
            rw [hpass]
            exact ⟨hwithin, ⟨hca, rfl, rfl⟩, hrest⟩
    · rintro ⟨hwithin, ⟨hca, hsign, hpurpose⟩, hrest⟩
      cases hpass : passLimit countsForLength pathLimit max ca with
      | none => rw [hpass] at hwithin; cases hwithin
      | some left =>
        rw [hpass] at hwithin
        have hbasic := checkBasicConstraints_ok_iff.2 ⟨hca, hpass⟩
        have hbelow := ih.2 ⟨hwithin, hrest⟩
        rw [checkCasFrom, hbasic, hsign, hpurpose]
        exact hbelow

theorem checkCas_ok_iff : checkCas cas = .ok () ↔
    (∀ below ca above k, cas = below ++ ca :: above → pathLimit ca = some k →
      below.countP countsForLength ≤ k) ∧ ∀ ca ∈ cas, MayIssue ca := by
  rw [checkCas, checkCasFrom_ok_iff, ← limitsKept_reverse, ← withinLimits_length, List.length_reverse]
  simp only [List.mem_reverse]

/-! ## The path -/

/-- **What is verified.** A path from an EK certificate is verified for a TPM exactly when each certificate is
signed by the next, the extensions below the root are understood and parse, the CAs may issue within the path
lengths, and the first certificate is an EK certificate of that TPM. -/
theorem judgePath_verified_iff {leaf : Parsed} {cas : Chain} {root : Parsed × CertificateSource}
    {key : EkPublicKey} {manufacturer : Nat} {tpm : TpmIdentity} :
    judgePath ((leaf, .leaf) :: cas ++ [root]) (some (key, manufacturer)) = .verified (some tpm) ↔
      SignedChain ((leaf, .leaf) :: cas ++ [root]) ∧
      (∀ cert ∈ leaf :: cas.map (·.1), Understood cert ∧ Readable cert) ∧
      checkCas (cas.map (·.1)) = .ok () ∧ checkLeaf leaf key manufacturer = .ok tpm := by
  have hbelow : (((leaf, CertificateSource.leaf) :: (cas ++ [root])).dropLast).map (·.1) =
      leaf :: cas.map (·.1) := by
    rw [← List.cons_append, List.dropLast_concat, List.map_cons]
  rw [List.cons_append, ← checkAllExtensions_ok_iff true, ← signatures_ok_iff true]
  simp only [judgePath, hbelow, Option.isSome_some, if_true, List.drop_succ_cons, List.drop_zero]
  cases checkAllExtensions true (leaf :: cas.map (·.1)) with
  | error u => simp
  | ok a =>
    cases hlinks : linkChecks true ((leaf, .leaf) :: (cas ++ [root])) with
    | error u => simp
    | ok links =>
      cases hsignatures : checkSignatures true ((leaf, .leaf) :: (cas ++ [root])) links with
      | some result =>
        have hne : result ≠ .verified (some tpm) := by
          obtain ⟨j, child, parent, -, -, rfl⟩ := (checkSignatures_some hlinks hsignatures).exists_first
          unfold failedSignature
          simp only
          split <;> simp
        simp [hsignatures, hne]
      | none =>
        cases checkCas (cas.map (·.1)) with
        | error r => simp [hsignatures]
        | ok b =>
          cases checkLeaf leaf key manufacturer with
          | error problem => simp [hsignatures]
          | ok tpm' => simp [hsignatures]

end

end Irlume.Ek

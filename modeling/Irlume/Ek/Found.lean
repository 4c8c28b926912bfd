import Irlume.Ek.Path
import Mathlib.Data.Fin.SuccPred
import Mathlib.Data.List.Chain

/-!
# Every valid path counts

The verdict of a search is compared with the valid paths to the listed roots. The path found may be a shorter
one than a given path: a path that passes through a root ends there, and one that names a certificate twice in a
row names it once (`exists_direct`).
-/

namespace Irlume.Ek

open Irlume.Lib

section

variable [X509]

structure PoolPath (pool : Chain) (cas : Chain) (root : Parsed × CertificateSource) : Prop where
  entries : ∃ positions : List (Fin pool.length), positions.Nodup ∧ positions.map pool.get = cas ++ [root]
  isRoot : root.2 = .root

variable {leaf child : Parsed} {pool more cas : Chain} {root : Parsed × CertificateSource}

theorem PoolPath.append (h : PoolPath pool cas root) : PoolPath (pool ++ more) cas root := by
  obtain ⟨⟨positions, hnodup, hmap⟩, hroot⟩ := h
  have hle : pool.length ≤ (pool ++ more).length := by simp
  refine ⟨⟨positions.map (Fin.castLE hle), hnodup.map (Fin.castLE_injective hle), ?_⟩, hroot⟩
  rw [← hmap, List.map_map]
  refine List.map_congr_left fun i _ => ?_
  simp [List.getElem_append_left]

theorem Anchors.mem_roots {anchors : Anchors} {tpmChain : List Bytes}
    (hmem : root ∈ anchors.pool tpmChain) (hroot : root.2 = .root) : root.1 ∈ anchors.roots := by
  obtain ⟨cert, source⟩ := root
  obtain rfl : source = .root := hroot
  simpa [Anchors.pool, Anchors.own] using hmem

/-! ## A direct path -/

def Distinct (entries : Chain) : Prop := List.IsChain (fun a b => b.1.der ≠ a.1.der) entries

theorem exists_direct (hroot : root.2 = .root)
    (hissued : List.IsChain Issued (child :: (cas ++ [root]).map (·.1))) :
    ∃ cas' root', cas'.Sublist cas ∧ (cas' ++ [root']).Sublist (cas ++ [root]) ∧ root'.2 = .root ∧
      (∀ ca ∈ cas', ca.2 ≠ .root) ∧ Distinct (cas' ++ [root']) ∧
      List.IsChain Issued (child :: (cas' ++ [root']).map (·.1)) := by
  induction cas generalizing child with
  | nil =>
    exact ⟨[], root, List.Sublist.refl _, List.Sublist.refl _, hroot, by simp, .singleton _, hissued⟩
  | cons ca cas ih =>
    rw [List.cons_append, List.map_cons, List.isChain_cons_cons] at hissued
    obtain ⟨hfirst, hrest⟩ := hissued
    by_cases hca : ca.2 = .root
    · refine ⟨[], ca, List.nil_sublist _, ?_, hca, by simp, .singleton _, ?_⟩
      · exact List.singleton_sublist.2 (by simp)
      · simpa using hfirst
    · obtain ⟨cas', root', hcas, hentries, hroot', hnot, hdistinct, hchain⟩ := ih hrest
      obtain ⟨next, rest, hnext⟩ := List.exists_cons_of_ne_nil (List.append_ne_nil_of_right_ne_nil cas'
        (List.cons_ne_nil root' []))
      rw [hnext, List.map_cons, List.isChain_cons_cons] at hchain
      by_cases hsame : next.1.der = ca.1.der
      · -- The CA issues a copy of itself: the copy takes its place.
        refine ⟨cas', root', hcas.cons ca, hentries.cons ca, hroot', hnot, hdistinct, ?_⟩
        rw [hnext, List.map_cons, List.isChain_cons_cons, Parsed.ext_der hsame]
        exact ⟨hfirst, Parsed.ext_der hsame ▸ hchain.2⟩
      · refine ⟨ca :: cas', root', hcas.cons_cons ca, hentries.cons_cons ca, hroot', ?_, ?_, ?_⟩
        · simpa [hca] using hnot
        · rw [List.cons_append, hnext, Distinct, List.isChain_cons_cons]
          exact ⟨hsame, hnext ▸ hdistinct⟩
        · rw [List.cons_append, hnext, List.map_cons, List.map_cons, List.isChain_cons_cons,
            List.isChain_cons_cons]
          exact ⟨hfirst, hchain⟩

/-! ## Paths of the search -/

def Admitted (leaf child candidate : Parsed) : Prop :=
  candidate.subjectCanonical = child.issuerCanonical ∧ candidate.der ≠ child.der ∧
    candidate.der ≠ leaf.der ∧ keyIdsAgree child candidate = true

theorem admits_iff {candidate : Parsed} :
    (pathGraph leaf pool).admits child candidate = true ↔ Admitted leaf child candidate := by
  simp only [pathGraph, Admitted, Bool.and_eq_true, decide_eq_true_eq, and_assoc]

theorem candidates_get (i : Fin pool.length) :
    (pathGraph leaf pool).candidates[i.val]? = some ((pool.get i).1, decide ((pool.get i).2 = .root)) := by
  simp [pathGraph]

theorem leads_of_chain {positions : List (Fin pool.length)} (hmap : positions.map pool.get = cas ++ [root])
    (hroot : root.2 = .root) (hnot : ∀ ca ∈ cas, ca.2 ≠ .root)
    (hadmits : List.IsChain (Admitted leaf) (child :: (cas ++ [root]).map (·.1))) :
    (pathGraph leaf pool).Leads child (positions.map (·.val)) := by
  induction cas generalizing child positions with
  | nil =>
    obtain ⟨i, rest, rfl, hi, hrest⟩ := List.map_eq_cons_iff.1 hmap
    obtain rfl := List.map_eq_nil_iff.1 hrest
    refine ⟨_, _, candidates_get i, admits_iff.2 ?_, ?_⟩
    · rw [hi]
      exact (List.isChain_cons_cons.1 hadmits).1
    · rw [if_pos (by rw [hi]; exact decide_eq_true hroot), List.map_nil]
  | cons ca cas ih =>
    obtain ⟨i, rest, rfl, hi, hrest⟩ := List.map_eq_cons_iff.1 hmap
    rw [List.cons_append, List.map_cons, List.isChain_cons_cons] at hadmits
    refine ⟨_, _, candidates_get i, admits_iff.2 (hi ▸ hadmits.1), ?_⟩
    have hca : ca.2 ≠ .root := hnot ca List.mem_cons_self
    simp only [hi, hca, decide_false, Bool.false_eq_true, if_false]
    exact ih hrest (fun c hc => hnot c (List.mem_cons_of_mem ca hc)) hadmits.2

theorem exists_of_leads {path : List Nat} (h : (pathGraph leaf pool).Leads child path) :
    ∃ (positions : List (Fin pool.length)) (cas : Chain) (root : Parsed × CertificateSource),
      positions.map (·.val) = path ∧ positions.map pool.get = cas ++ [root] ∧ root.2 = .root ∧
        List.IsChain (Admitted leaf) (child :: (cas ++ [root]).map (·.1)) := by
  induction path generalizing child with
  | nil => exact h.elim
  | cons i path ih =>
    obtain ⟨candidate, goal, hcandidate, hadmits, hgoes⟩ := h
    have hi : i < pool.length := by
      have := (List.getElem?_eq_some_iff.1 hcandidate).1
      simpa [pathGraph] using this
    have hget : (pathGraph leaf pool).candidates[i]? = _ := candidates_get ⟨i, hi⟩
    rw [hcandidate, Option.some.injEq, Prod.mk.injEq] at hget
    obtain ⟨rfl, rfl⟩ := hget
    have hadmitted := admits_iff.1 hadmits
    split at hgoes
    · next hroot =>
      subst hgoes
      refine ⟨[⟨i, hi⟩], [], pool.get ⟨i, hi⟩, rfl, rfl, by simpa using hroot, ?_⟩
      rw [List.nil_append, List.map_cons, List.isChain_cons_cons]
      exact ⟨hadmitted, .singleton _⟩
    · obtain ⟨positions, cas, root, hvals, hmap, hroot, hchain⟩ := ih hgoes
      refine ⟨⟨i, hi⟩ :: positions, pool.get ⟨i, hi⟩ :: cas, root, ?_, ?_, hroot, ?_⟩
      · rw [List.map_cons, hvals]
      · rw [List.map_cons, hmap, List.cons_append]
      · rw [List.cons_append, List.map_cons, List.isChain_cons_cons]
        exact ⟨hadmitted, hchain⟩

theorem not_ca_of_checkLeaf {key : EkPublicKey} {manufacturer : Nat} {tpm : TpmIdentity}
    (h : checkLeaf leaf key manufacturer = .ok tpm) : ¬ MayIssue leaf := by
  intro hmay
  obtain ⟨critical, bc, hbc, hca⟩ := hmay.isCa
  have hconstraints : checkLeafConstraints leaf = .error .isCa := by
    simp [checkLeafConstraints, hbc, hca]
  unfold checkLeaf at h
  rw [hconstraints] at h
  split at h <;> cases h

theorem admitted_of_issued {entries : Chain}
    (hissued : List.IsChain Issued (child :: entries.map (·.1))) (hdistinct : Distinct entries)
    (hhead : ∀ e, entries.head? = some e → e.1.der ≠ child.der)
    (hleaf : ∀ e ∈ entries, e.1.der ≠ leaf.der) :
    List.IsChain (Admitted leaf) (child :: entries.map (·.1)) := by
  induction entries generalizing child with
  | nil => exact .singleton _
  | cons e entries ih =>
    rw [List.map_cons, List.isChain_cons_cons] at hissued ⊢
    obtain ⟨hfirst, hrest⟩ := hissued
    refine ⟨⟨hfirst.names, hhead e rfl, hleaf e List.mem_cons_self, hfirst.keyIds⟩, ?_⟩
    refine ih hrest ?_ ?_ fun e' he' => hleaf e' (List.mem_cons_of_mem e he')
    · exact List.IsChain.tail hdistinct
    · intro next hnext
      cases entries with
      | nil => cases hnext
      | cons next' entries =>
        cases hnext
        exact (List.isChain_cons_cons.1 hdistinct).1

theorem issued_of_admitted {entries : Chain}
    (hadmitted : List.IsChain (Admitted leaf) (child :: entries.map (·.1)))
    (hsigned : List.IsChain Signed (child :: entries.map (·.1))) :
    List.IsChain Issued (child :: entries.map (·.1)) := by
  induction entries generalizing child with
  | nil => exact .singleton _
  | cons e entries ih =>
    rw [List.map_cons, List.isChain_cons_cons] at hadmitted hsigned ⊢
    obtain ⟨⟨hnames, -, -, hids⟩, hadmitted⟩ := hadmitted
    exact ⟨⟨hnames, hids, hsigned.1⟩, ih hadmitted hsigned.2⟩

/-! ## From the search to the verdict -/

namespace EkCertificate

variable {ek : EkCertificate} {anchors : Anchors} {manufacturer : Nat} {tpmChain : List Bytes}
  {key : EkPublicKey} {verdict : VerifiedChain}

theorem chainOf_positions (positions : List (Fin pool.length)) :
    ek.chainOf pool (positions.map (·.val)) = (ek.leaf, .leaf) :: positions.map pool.get := by
  rw [chainOf, List.filterMap_map]
  congr 1
  rw [← List.filterMap_eq_map]
  refine List.filterMap_congr fun i _ => ?_
  simp

theorem judgeNext_error_iff {tally : Tally} {path : List Nat} :
    ek.judgeNext key manufacturer pool tally path = .error verdict ↔
      judgePath (ek.chainOf pool path) (some (key, manufacturer)) = .verified (some verdict.tpm) ∧
        verdict.path = report (ek.chainOf pool path) := by
  obtain ⟨tpm, path'⟩ := verdict
  unfold judgeNext
  split
  · next tpm' hjudge =>
    simp only [Except.error.injEq, VerifiedChain.mk.injEq, hjudge, PathResult.verified.injEq,
      Option.some.injEq]
    exact and_congr_right fun _ => eq_comm
  · next hjudge => simp [hjudge]
  · next r hjudge => simp [hjudge]
  · next u hjudge => simp [hjudge]

theorem searchPool_error_iff {tally : Tally} : ek.searchPool key manufacturer tally pool = .error verdict ↔
    (pathSearch ek.leaf pool).paths.foldlM (ek.judgeNext key manufacturer pool) tally = .error verdict := by
  unfold searchPool
  cases (pathSearch ek.leaf pool).paths.foldlM (ek.judgeNext key manufacturer pool) tally with
  | error v => simp [bind, Except.bind]
  | ok t => simp [bind, Except.bind, pure, Except.pure]

variable (hkey : ek.key = some key)

include hkey

theorem verify_verified_iff :
    ek.verify tpmChain anchors manufacturer = .verified verdict ↔
      (anchors.searches tpmChain).foldlM (ek.searchPool key manufacturer) ⟨none, none, none⟩ =
        .error verdict := by
  simp only [verify, hkey]
  split
  · next v h => simp [h]
  · next t h => simp [h, unverified_ne_verified]

theorem exists_of_verified
    (h : ek.verify tpmChain anchors manufacturer = .verified verdict) :
    ∃ pool ∈ anchors.searches tpmChain, ∃ path ∈ (pathSearch ek.leaf pool).paths,
      judgePath (ek.chainOf pool path) (some (key, manufacturer)) = .verified (some verdict.tpm) ∧
        verdict.path = report (ek.chainOf pool path) := by
  obtain ⟨pool, hpool, _, hsearch⟩ := exists_of_foldlM_error ((verify_verified_iff hkey).1 h)
  obtain ⟨path, hpath, _, hjudge⟩ := exists_of_foldlM_error (searchPool_error_iff.1 hsearch)
  exact ⟨pool, hpool, path, hpath, judgeNext_error_iff.1 hjudge⟩

theorem verified_of_exists {pool : Chain} {path : List Nat} {tpm : TpmIdentity}
    (hpool : pool ∈ anchors.searches tpmChain) (hpath : path ∈ (pathSearch ek.leaf pool).paths)
    (hjudge : judgePath (ek.chainOf pool path) (some (key, manufacturer)) = .verified (some tpm)) :
    ∃ verdict, ek.verify tpmChain anchors manufacturer = .verified verdict := by
  have hstops : ∃ verdict, (anchors.searches tpmChain).foldlM (ek.searchPool key manufacturer)
      ⟨none, none, none⟩ = .error verdict := by
    refine foldlM_error_of_mem hpool fun tally => ?_
    have hpaths : ∃ verdict, (pathSearch ek.leaf pool).paths.foldlM
        (ek.judgeNext key manufacturer pool) tally = .error verdict :=
      foldlM_error_of_mem hpath fun tally => ⟨⟨tpm, _⟩, judgeNext_error_iff.2 ⟨hjudge, rfl⟩⟩
    obtain ⟨verdict, hverdict⟩ := hpaths
    exact ⟨verdict, searchPool_error_iff.2 hverdict⟩
  obtain ⟨verdict, hverdict⟩ := hstops
  exact ⟨verdict, (verify_verified_iff hkey).2 hverdict⟩

end EkCertificate

/-! ## Sound and complete -/

variable {ek : EkCertificate} {anchors : Anchors} {manufacturer : Nat} {tpmChain : List Bytes}

theorem signedChain_iff : SignedChain ((leaf, .leaf) :: cas ++ [root]) ↔
    List.IsChain Signed (leaf :: (cas ++ [root]).map (·.1)) :=
  (List.isChain_map (R := Signed) (fun entry : Parsed × CertificateSource => entry.1)).symm

theorem map_append_root : (cas ++ [root]).map (·.1) = cas.map (·.1) ++ [root.1] := by
  rw [List.map_append, List.map_singleton]

theorem Anchors.poolPath_of_search (hpool : pool ∈ anchors.searches tpmChain) (h : PoolPath pool cas root) :
    PoolPath (anchors.pool tpmChain) cas root := by
  unfold Anchors.searches at hpool
  split at hpool
  · exact List.mem_singleton.1 hpool ▸ h
  · simp only [List.mem_cons, List.not_mem_nil, or_false] at hpool
    rcases hpool with rfl | rfl
    · exact h.append
    · exact h

theorem Anchors.pool_mem_searches : anchors.pool tpmChain ∈ anchors.searches tpmChain := by
  unfold Anchors.searches
  split <;> simp

theorem PoolPath.root_mem (h : PoolPath pool cas root) : root ∈ pool := by
  obtain ⟨⟨positions, -, hmap⟩, -⟩ := h
  have hroot : root ∈ positions.map pool.get := hmap ▸ List.mem_append_right cas List.mem_cons_self
  obtain ⟨i, -, rfl⟩ := List.mem_map.1 hroot
  exact List.get_mem pool i

/-- A verdict of verified has a valid path to a listed root. -/
theorem verified_sound {verdict : VerifiedChain}
    (h : ek.verify tpmChain anchors manufacturer = .verified verdict) :
    ∃ cas root, PoolPath (anchors.pool tpmChain) cas root ∧ root.1 ∈ anchors.roots ∧
      ValidPath ek manufacturer (cas.map (·.1)) root.1 ∧
      verdict.path = report ((ek.leaf, .leaf) :: cas ++ [root]) := by
  cases hkey : ek.key with
  | none => simp [EkCertificate.verify, hkey] at h
  | some key =>
    obtain ⟨pool, hpool, path, hpath, hjudge, hreport⟩ := EkCertificate.exists_of_verified hkey h
    have hisPath := SearchGraph.search_sound hpath
    obtain ⟨positions, cas, root, rfl, hmap, hroot, hadmitted⟩ := exists_of_leads hisPath.leads
    have hpath' : PoolPath pool cas root := ⟨⟨positions, hisPath.nodup.of_map _, hmap⟩, hroot⟩
    have hlisted := Anchors.poolPath_of_search hpool hpath'
    rw [EkCertificate.chainOf_positions, hmap] at hjudge hreport
    obtain ⟨hsigned, hextensions, hcas, hleaf⟩ := judgePath_verified_iff.1 hjudge
    obtain ⟨hlengths, hmay⟩ := checkCas_ok_iff.1 hcas
    refine ⟨cas, root, hlisted, Anchors.mem_roots hlisted.root_mem hroot, ?_, hreport⟩
    refine ⟨?_, ?_, fun cert hcert => (hextensions cert hcert).1, hmay, hlengths, key, _, hkey, hleaf⟩
    · have hlength := hisPath.length
      have hsame := congrArg List.length hmap
      simp only [List.length_map, List.length_append, List.length_singleton] at hlength hsame ⊢
      rw [hsame] at hlength
      exact Nat.le_of_succ_le_succ hlength
    · have hissued := issued_of_admitted hadmitted (signedChain_iff.1 hsigned)
      rwa [map_append_root] at hissued

/-- When a valid path of distinct pool entries exists whose extensions can be read, and the search reaches none
of its bounds, the verdict is verified. -/
theorem verified_complete (hpath : PoolPath (anchors.pool tpmChain) cas root)
    (hvalid : ValidPath ek manufacturer (cas.map (·.1)) root.1)
    (hreadable : ∀ cert ∈ ek.leaf :: cas.map (·.1), Readable cert) (hroot : root.1.der ≠ ek.leaf.der)
    (hnot : ¬ SearchGraph.Exhausted searchBounds (pathSearch ek.leaf (anchors.pool tpmChain))) :
    ∃ verdict, ek.verify tpmChain anchors manufacturer = .verified verdict := by
  obtain ⟨⟨positions, hnodup, hmap⟩, hisRoot⟩ := hpath
  obtain ⟨key, tpm, hkey, hleaf⟩ := hvalid.leaf
  have hissued : List.IsChain Issued (ek.leaf :: (cas ++ [root]).map (·.1)) := by
    rw [map_append_root]
    exact hvalid.issued
  obtain ⟨cas', root', hcas, hentries, hisRoot', hnotRoot, hdistinct, hissued'⟩ :=
    exists_direct hisRoot hissued
  obtain ⟨positions', hpositions, hmap'⟩ := List.sublist_map_iff.1 (hmap ▸ hentries)
  -- No certificate of the path is the EK certificate, which is no CA.
  have hother : ∀ e ∈ cas' ++ [root'], e.1.der ≠ ek.leaf.der := by
    intro e he
    rcases List.mem_append.1 (hentries.subset he) with hca | hlast
    · intro hsame
      have hmay := hvalid.mayIssue e.1 (List.mem_map_of_mem hca)
      exact not_ca_of_checkLeaf hleaf (Parsed.ext_der hsame ▸ hmay)
    · rwa [List.mem_singleton.1 hlast]
  have hadmitted := admitted_of_issued hissued' hdistinct
    (fun e he => hother e (List.mem_of_mem_head? he)) hother
  have hfound : positions'.map (·.val) ∈ (pathSearch ek.leaf (anchors.pool tpmChain)).paths := by
    refine SearchGraph.search_complete hnot
      ⟨leads_of_chain hmap'.symm hisRoot' hnotRoot hadmitted, ?_, ?_⟩
    · exact (hnodup.sublist hpositions).map Fin.val_injective
    · have hsame := congrArg List.length hmap'
      have hshort := hvalid.short
      have hfewer := hcas.length_le
      simp only [List.length_map, List.length_append, List.length_singleton] at hsame hshort ⊢
      rw [← hsame]
      exact Nat.succ_le_succ (Nat.le_trans hfewer hshort)
  have hsub : (cas'.map (·.1)).Sublist (cas.map (·.1)) := hcas.map _
  have hjudge : judgePath (ek.chainOf (anchors.pool tpmChain) (positions'.map (·.val)))
      (some (key, manufacturer)) = .verified (some tpm) := by
    rw [EkCertificate.chainOf_positions, ← hmap']
    refine judgePath_verified_iff.2 ⟨?_, ?_, checkCas_ok_iff.2 ⟨?_, ?_⟩, hleaf⟩
    · exact signedChain_iff.2 (hissued'.imp fun _ _ h => h.signed)
    · intro cert hcert
      have hmem : cert ∈ ek.leaf :: cas.map (·.1) := (hsub.cons_cons ek.leaf).subset hcert
      exact ⟨hvalid.understood cert hmem, hreadable cert hmem⟩
    · exact limitsKept_reverse.1 ((limitsKept_reverse.2 hvalid.lengths).sublist hsub.reverse)
    · exact fun ca hca => hvalid.mayIssue ca (hsub.subset hca)
  exact EkCertificate.verified_of_exists hkey Anchors.pool_mem_searches hfound hjudge

/-- **Verified certificates have a valid path, and such a path is found.** For the path to count, what irlume
reads of its certificates must parse, and its root is not the EK certificate itself. -/
theorem verified_path (ek : EkCertificate) (anchors : Anchors) (manufacturer : Nat) (tpmChain : List Bytes) :
    (∀ verdict, ek.verify tpmChain anchors manufacturer = .verified verdict →
      ∃ cas root, PoolPath (anchors.pool tpmChain) cas root ∧ root.1 ∈ anchors.roots ∧
        ValidPath ek manufacturer (cas.map (·.1)) root.1 ∧
        verdict.path = report ((ek.leaf, .leaf) :: cas ++ [root])) ∧
    ∀ cas root, PoolPath (anchors.pool tpmChain) cas root →
      ValidPath ek manufacturer (cas.map (·.1)) root.1 →
      (∀ cert ∈ ek.leaf :: cas.map (·.1), Readable cert) → root.1.der ≠ ek.leaf.der →
      ¬ SearchGraph.Exhausted searchBounds (pathSearch ek.leaf (anchors.pool tpmChain)) →
      ∃ verdict, ek.verify tpmChain anchors manufacturer = .verified verdict :=
  ⟨fun _ h => verified_sound h, fun _ _ hpath hvalid hreadable hroot hnot =>
    verified_complete hpath hvalid hreadable hroot hnot⟩

end

attribute [local instance] sampleX509

/-- A certificate issued by a CA below the root. -/
theorem verified_path_throughCa : ∃ verdict,
    issuedEk.verify [[5], [3]] ⟨[issuingRoot], []⟩ sampleManufacturer = .verified verdict ∧
    ∃ ca root, PoolPath (Anchors.pool ⟨[issuingRoot], []⟩ [[5], [3]]) [ca] root ∧
      ValidPath issuedEk sampleManufacturer [ca.1] root.1 := by
  refine ⟨_, rfl, ?_⟩
  obtain ⟨cas, root, hpath, -, hvalid, hreport⟩ :=
    (verified_path issuedEk ⟨[issuingRoot], []⟩ sampleManufacturer [[5], [3]]).1 _ rfl
  have hlength := congrArg List.length hreport
  simp only [report, List.cons_append, List.length_cons, List.length_map, List.length_append] at hlength
  obtain ⟨ca, rfl⟩ := List.length_eq_one_iff.1 (Nat.succ.inj (Nat.succ.inj hlength)).symm
  exact ⟨ca, root, hpath, hvalid⟩

/-! ## Valid paths that are not found -/

def sampleRoot : Parsed := ⟨[0], sampleCertificate "TPM" "TPM" [] [], rfl⟩

def unreadLeaf : Parsed := ⟨[1], sampleCertificate "TPM" "TPM" [] [⟨oid.subjectKeyId, false, []⟩], rfl⟩

def sampleAnchors : Anchors := ⟨[sampleRoot], []⟩

theorem sample_poolPath : PoolPath (sampleAnchors.pool []) [] (sampleRoot, .root) where
  entries := ⟨[⟨0, by decide⟩], List.nodup_singleton _, rfl⟩
  isRoot := rfl

variable {leaf : Parsed}

section

variable (h : leaf = sampleRoot ∨ leaf = unreadLeaf)

include h

theorem sample_understood : Understood leaf := by
  rcases h with rfl | rfl
  · exact ⟨by decide, by decide, by decide⟩
  · exact ⟨by decide, by decide, by decide⟩

theorem sample_issued : Issued leaf sampleRoot := by
  rcases h with rfl | rfl
  · exact ⟨rfl, rfl, _, rfl, rfl⟩
  · exact ⟨rfl, rfl, _, rfl, rfl⟩

theorem sample_checkLeaf :
    ∃ key tpm, (sampleEk leaf).key = some key ∧ checkLeaf leaf key sampleManufacturer = .ok tpm := by
  rcases h with rfl | rfl
  · exact ⟨_, _, rfl, rfl⟩
  · exact ⟨_, _, rfl, rfl⟩

theorem sample_valid :
    ValidPath (sampleEk leaf) sampleManufacturer [] sampleRoot where
  short := Nat.zero_le _
  issued := List.isChain_cons_cons.2 ⟨sample_issued h, .singleton _⟩
  understood _ hcert := List.mem_singleton.1 hcert ▸ sample_understood h
  mayIssue := by simp
  lengths := by simp
  leaf := sample_checkLeaf h

end

/-- The listed root is a valid path for the certificate, and the search is not cut short. -/
structure Missed (leaf : Parsed) : Prop where
  pool : PoolPath (sampleAnchors.pool []) [] (sampleRoot, .root)
  valid : ValidPath (sampleEk leaf) sampleManufacturer [] sampleRoot
  searched : ¬ SearchGraph.Exhausted searchBounds (pathSearch leaf (sampleAnchors.pool []))
  missed : ∀ verdict, (sampleEk leaf).verify [] sampleAnchors sampleManufacturer ≠ .verified verdict

/-- Not every valid path counts: the first certificate has an extension that does not parse, the second is
itself the listed root. -/
theorem not_verified_path : Missed unreadLeaf ∧ Missed sampleRoot := by
  constructor
  · refine ⟨sample_poolPath, sample_valid (.inr rfl), by decide, ?_⟩
    have hverdict : (sampleEk unreadLeaf).verify [] sampleAnchors sampleManufacturer =
        .unverifiable (.malformed "the EK certificate" "an extension does not parse") := rfl
    rw [hverdict]
    simp
  · refine ⟨sample_poolPath, sample_valid (.inl rfl), by decide, ?_⟩
    have hverdict : (sampleEk sampleRoot).verify [] sampleAnchors sampleManufacturer =
        .unverifiable (.issuerNotListed "TPM") := rfl
    rw [hverdict]
    simp

end Irlume.Ek

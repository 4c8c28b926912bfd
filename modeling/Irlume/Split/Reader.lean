import Irlume.Split.Publish

/-!
# Readers of a split publication

A reader that finds a valid generation found what one publication committed: the `cameras.conf` it read was that
publication's, and the digest in it is the digest of that publication's records, so the bytes it read are theirs
whatever the generation file went through in between.
-/

namespace Irlume.Split

open Irlume.Lib Irlume.Config

/-! ## Names -/

theorem decimal_injective {m n : Nat} (h : decimal m = decimal n) : m = n := by
  rw [← decimalValue_decimal m, h, decimalValue_decimal]

theorem generationName_injective {m n : Nat} (h : generationName m = generationName n) : m = n :=
  decimal_injective (List.append_cancel_right h)

variable {n : Nat}

theorem parseGenerationName_eq_some {name : Text} (h : parseGenerationName name = some n) :
    name = generationName n ∧ 1 ≤ n ∧ n < 2 ^ 64 := by
  unfold parseGenerationName at h
  split at h
  · next hend =>
    obtain ⟨stem, rfl⟩ := hend
    have htake : (stem ++ generationEnd).take ((stem ++ generationEnd).length - generationEnd.length) = stem := by
      simp
    simp only [htake] at h
    split at h
    · next hstem =>
      cases h
      rw [generationName, canonicalDecimal_iff.1 hstem.1]
      exact ⟨rfl, hstem.2.2, hstem.2.1⟩
    · cases h
  · cases h

theorem isWriterTemp_generationName (n : Nat) : isWriterTemp (generationName n) = false := by
  have hstart : afterStart (generationName n) ['.'] = none := by
    cases hd : decimal n with
    | nil => exact absurd hd (decimal_ne_nil n)
    | cons c t =>
      have hc : c ≠ '.' := by
        intro heq
        have hdigit : c.isDigit = true := decimal_isDigit (hd ▸ List.mem_cons_self)
        rw [heq] at hdigit
        cases hdigit
      rw [generationName, hd, afterStart, if_neg]
      simp [startsWith, hc.symm]
  rw [isWriterTemp, hstart]
  rfl

theorem mem_listGenerations {files : Directory} {unlisted : List Text} {name : Text}
    (h : (n, name) ∈ listGenerations files unlisted) : name = generationName n := by
  rw [listGenerations, List.mem_insertionSort] at h
  obtain ⟨name', -, hmap⟩ := List.mem_filterMap.1 h
  obtain ⟨m, hparse, heq⟩ := Option.map_eq_some_iff.1 hmap
  cases heq
  exact (parseGenerationName_eq_some hparse).1

theorem lookup_sweepTemps (files : Directory) (left : List Text) (n : Nat) :
    (sweepTemps files left).lookup (generationName n) = files.lookup (generationName n) := by
  unfold sweepTemps
  have hnot : generationName n ∉ files.keys.filter fun name => isWriterTemp name && name ∉ left := by
    simp [isWriterTemp_generationName]
  revert hnot
  generalize files.keys.filter (fun name => isWriterTemp name && name ∉ left) = names
  intro hnot
  induction names generalizing files with
  | nil => rfl
  | cons name names ih =>
    rw [List.mem_cons, not_or] at hnot
    rw [List.foldl_cons, ih _ hnot.2, AList.lookup_erase_ne hnot.1]

/-! ## Digests -/

section Digest

variable {sha256 : List UInt8 → Vector UInt8 32}

theorem hexByte_lower (b : UInt8) : byteLength (hexByte b) = 2 ∧ (hexByte b).all isLowerHex = true := by
  apply forall_uint8 _ b
  decide +kernel

theorem hexByte_injective {b c : UInt8} (h : hexByte b = hexByte c) : b = c := by
  have hvalue : ∀ b : UInt8, ∃ x y, hexByte b = [x, y] ∧ (hexValue x.toUInt8).bind (fun h =>
      (hexValue y.toUInt8).map fun l => (h <<< 4) ||| l) = some b := by
    intro b
    refine ⟨_, _, rfl, ?_⟩
    apply forall_uint8 _ b
    decide +kernel
  obtain ⟨x, y, hb, hbv⟩ := hvalue b
  obtain ⟨x', y', hc, hcv⟩ := hvalue c
  rw [hb, hc] at h
  simp only [List.cons.injEq, and_true] at h
  rw [h.1, h.2, hcv] at hbv
  exact (Option.some.inj hbv).symm

theorem hexBytes_injective {l m : List UInt8} (h : hexBytes l = hexBytes m) : l = m := by
  induction l generalizing m with
  | nil =>
    cases m with
    | nil => rfl
    | cons c m => cases h
  | cons b l ih =>
    cases m with
    | nil => cases h
    | cons c m =>
      obtain ⟨hhead, htail⟩ := List.append_inj h rfl
      rw [hexByte_injective hhead, ih htail]

theorem digestValue_eq_iff {bs cs : List UInt8} :
    digestValue sha256 bs = digestValue sha256 cs ↔ sha256 bs = sha256 cs := by
  constructor
  · intro h
    exact Vector.toList_inj.1 (hexBytes_injective h)
  · intro h
    rw [digestValue, digestValue, h]

theorem digestValue_canonical (l : List UInt8) :
    byteLength (hexBytes l) = 2 * l.length ∧ (hexBytes l).all isLowerHex = true := by
  induction l with
  | nil => decide
  | cons b l ih =>
    obtain ⟨hlength, hlower⟩ := hexByte_lower b
    rw [hexBytes, List.flatMap_cons, ← hexBytes, byteLength_append, hlength, ih.1, List.all_append, hlower, ih.2,
      List.length_cons]
    exact ⟨by omega, rfl⟩

theorem isCanonicalDigest_digestKey (bs : List UInt8) : isCanonicalDigest (digestKey sha256 bs) = true := by
  obtain ⟨hlength, hlower⟩ := digestValue_canonical (sha256 bs).toList
  rw [Vector.length_toList] at hlength
  have hstart : afterStart (digestKey sha256 bs) "sha256:".toList = some (digestValue sha256 bs) :=
    afterStart_append digestStart _
  rw [isCanonicalDigest, hstart, Option.any_some, digestValue, hlength, hlower]
  rfl

end Digest

/-! ## The checks of a publication -/

variable {p : Publication}

theorem beginPublication_ok {obs : CameraConfObservation} {call : Call}
    (h : beginPublication obs call = .ok p) :
    isUnreadable obs.selection = false ∧ obs.selection.isMalformed = false ∧
      (∀ key, call.selected = some key → call.records.any (recordMatches · key) = true) ∧
      p = { call, predecessor := (splitKeysIn obs).map Prod.fst } := by
  unfold beginPublication at h
  split at h
  · cases h
  · next hread =>
    split at h
    · cases h
    · next hmalformed =>
      split at h
      · cases h
      · next hselected =>
        rw [Bool.or_eq_true, not_or] at hmalformed
        refine ⟨Bool.eq_false_iff.2 hread, Bool.eq_false_iff.2 hmalformed.1, ?_, (Except.ok.inj h).symm⟩
        intro key hkey
        simpa [hkey] using hselected

theorem le_foldl_max (l : List Nat) (a : Nat) : a ≤ l.foldl max a ∧ ∀ x ∈ l, x ≤ l.foldl max a := by
  induction l generalizing a with
  | nil => simp
  | cons y l ih =>
    obtain ⟨hstart, hrest⟩ := ih (max a y)
    rw [List.foldl_cons]
    refine ⟨by omega, ?_⟩
    intro x hx
    rcases List.mem_cons.1 hx with rfl | hx
    · omega
    · exact hrest x hx

theorem newGeneration_ok {listed : List (Nat × Text)} {text : Text}
    (h : newGeneration p listed = .ok (n, text)) :
    serializeGeneration p.call.records = .ok text ∧ 1 ≤ n ∧ n < 2 ^ 64 ∧
      (∀ e ∈ listed, e.1 < n) ∧ ∀ g, p.predecessor = some g → g < n := by
  obtain ⟨m, hm, h⟩ := bind_ok_iff.1 h
  obtain ⟨t, ht, h⟩ := bind_ok_iff.1 h
  cases h
  refine ⟨mapError_ok_iff.1 ht, ?_⟩
  have hnext := okOr_ok_iff.1 hm
  unfold nextGeneration at hnext
  split at hnext
  · next hlt =>
    cases hnext
    refine ⟨by omega, hlt, ?_, ?_⟩
    · intro e he
      have hle := (le_foldl_max _ 0).2 e.1 (List.mem_append_left p.predecessor.toList (List.mem_map_of_mem he))
      exact Nat.lt_succ_of_le hle
    · intro g hg
      have hle := (le_foldl_max _ 0).2 g (List.mem_append_right (listed.map Prod.fst) (Option.mem_toList.2 hg))
      exact Nat.lt_succ_of_le hle
  · cases hnext

/-! ## A commit is read back -/

theorem name_eq_iff {key key' : SelectionKey} : key.name = key'.name ↔ key = key' :=
  ⟨name_injective, congrArg _⟩

variable {out : Text}

theorem observe_conf_bytes (s : Host) (h : s.conf = some (bytes out)) :
    s.observe = parseCameraConf out := by
  simp [Host.observe, Host.readConf, h, ofBytes_bytes, observeCameraConf]

variable {s : Host}

theorem published_of_observed {set : List (Text × Text)} {remove : List Text}
    (hmalformed : s.observe.selection.isMalformed = false)
    (h : publishKvChanges confPath s.readConf s.conf.isSome set remove = .ok out) :
    (∀ u ∈ set, configKeyIsSerializable u.1 = true ∧ configValueIsSerializable u.2 = true) ∧
      ∃ existing, WellFormed existing ∧ (parseCameraConf existing).selection = s.observe.selection ∧
        applyKvChanges existing set remove = out := by
  obtain ⟨hcheck, existing, hexisting, hout⟩ := publishKvChanges_ok_iff.1 h
  refine ⟨checkUpdates_ok_iff.1 hcheck, existing, ?_⟩
  have hparse : (parseCameraConf existing).selection = s.observe.selection := by
    rcases hexisting with hok | ⟨rfl, hmissing, e, herror, hkind⟩
    · rw [Host.observe, hok, observeCameraConf]
    · rw [Host.observe, herror, observeCameraConf, if_pos ⟨hkind, hmissing⟩]
      decide
  refine ⟨wellFormed_of_parse ?_, hparse, hout⟩
  rw [hparse, hmalformed]

theorem isCanonicalGeneration_decimal (hpos : 1 ≤ n) (hlt : n < 2 ^ 64) :
    isCanonicalGeneration (decimal n) = true := by
  have hcanonical : canonicalDecimal (decimal n) = true := by
    rw [canonicalDecimal_iff, decimalValue_decimal]
  simp only [isCanonicalGeneration, hcanonical, decimalValue_decimal, Bool.true_and, Bool.and_eq_true,
    decide_eq_true_eq]
  exact ⟨hlt, hpos⟩

theorem pairText_ok {selected : Option SplitPairKey} {pair : Option Text}
    (h : pairText selected = .ok pair) :
    (selected = none ∧ pair = none) ∨
      ∃ key text, selected = some key ∧ pair = some text ∧ SplitPairKey.parseCanonical text = .ok key := by
  cases selected with
  | none => exact .inl ⟨rfl, (Except.ok.inj h).symm⟩
  | some key =>
    unfold pairText at h
    cases hformat : key.formatCanonical with
    | error e => simp [hformat] at h
    | ok text =>
      simp only [hformat, Except.ok.injEq] at h
      exact .inr ⟨key, text, rfl, h.symm, SplitPairKey.parseCanonical_ok_iff.2 hformat⟩

theorem parse_reference {existing digest : Text} {pair : Option Text}
    (hold : WellFormed existing) (hpos : 1 ≤ n) (hlt : n < 2 ^ 64)
    (hdigest : isCanonicalDigest digest = true)
    (hpair : ∀ text, pair = some text → ∃ key, SplitPairKey.parseCanonical text = .ok key)
    (hset : ∀ u ∈ referenceSet n digest pair,
      configKeyIsSerializable u.1 = true ∧ configValueIsSerializable u.2 = true) :
    (parseCameraConf (applyKvChanges existing (referenceSet n digest pair) (referenceRemove pair))).selection =
        (parseCameraConf existing).selection ∧
      (parseCameraConf (applyKvChanges existing (referenceSet n digest pair) (referenceRemove pair))).split =
        .reference n digest pair := by
  have hnodup : ((referenceSet n digest pair).map Prod.fst).Nodup := by
    cases pair <;> simp [referenceSet, name_eq_iff]
  have hother : ∀ key ∉ splitKeys, key.name ∉ (referenceSet n digest pair).map Prod.fst ∧
      key.name ∉ referenceRemove pair := by
    intro key hkey
    simp only [splitKeys, List.mem_cons, List.not_mem_nil, or_false, not_or] at hkey
    cases pair <;> simp [referenceSet, referenceRemove, name_eq_iff, hkey]
  refine (parse_splitChanges hold hset hnodup hother ?_ (.inr ⟨_, _, _, rfl⟩)).2
  have hgeneration : valueAfter existing (referenceSet n digest pair) (referenceRemove pair)
      .splitGeneration = some (decimal n) := by
    simp [valueAfter, setPlace, referenceSet, List.zipIdx]
  have hdig : valueAfter existing (referenceSet n digest pair) (referenceRemove pair)
      .splitDigest = some digest := by
    simp [valueAfter, setPlace, referenceSet, List.zipIdx, name_eq_iff]
  have hp : valueAfter existing (referenceSet n digest pair) (referenceRemove pair) .splitPair = pair := by
    cases pair <;> simp [valueAfter, setPlace, referenceSet, referenceRemove, List.zipIdx, name_eq_iff]
  have hvalid : (pair.all fun v => (SplitPairKey.parseCanonical v).toBool) = true := by
    cases pair with
    | none => rfl
    | some text =>
      obtain ⟨key, hkey⟩ := hpair text rfl
      simp [hkey, Except.toBool]
  rw [hgeneration, hdig, hp]
  simp [splitOf, isCanonicalGeneration_decimal hpos hlt, hdigest, hvalid, decimalValue_decimal]

theorem parse_removal {existing : Text} (hold : WellFormed existing) :
    (parseCameraConf (applyKvChanges existing [] (splitKeys.map SelectionKey.name))).selection =
        (parseCameraConf existing).selection ∧
      (parseCameraConf (applyKvChanges existing [] (splitKeys.map SelectionKey.name))).split = .none := by
  have hother : ∀ key ∉ splitKeys, key.name ∉ ([] : List (Text × Text)).map Prod.fst ∧
      key.name ∉ splitKeys.map SelectionKey.name := by
    intro key hkey
    simp only [splitKeys, List.mem_cons, List.not_mem_nil, or_false, not_or] at hkey
    simp [splitKeys, name_eq_iff, hkey]
  refine (parse_splitChanges hold (by simp) (by simp) hother ?_ (.inl rfl)).2
  simp [valueAfter, setPlace, splitKeys, name_eq_iff, splitOf]

/-! ## What the holder of the lock relies on -/

/-- A publication whose generation file is on disk and not yet named. -/
structure Written (s : Host) (p : Publication) (n : Nat) (text : Text) : Prop where
  begun : beginPublication s.observe p.call = .ok p
  some_record : p.call.records ≠ []
  serialized : serializeGeneration p.call.records = .ok text
  positive : 1 ≤ n
  fits : n < 2 ^ 64
  above : ∀ g, p.predecessor = some g → g < n
  on_disk : s.files.lookup (generationName n) = some (bytes text)

/-- What the holder of the lock may rely on. -/
def StageOk (s : Host) : Prop :=
  match s.stage with
  | .checked p => beginPublication s.observe p.call = .ok p
  | .written p n text => Written s p n text
  | _ => True

section Machine

variable {sha256 : List UInt8 → Vector UInt8 32} {s s' : Host}

inductive Step (sha256 : List UInt8 → Vector UInt8 32) (s : Host) : Event → Host → Prop
  | publish {call : Call} {left : List Text} {p : Publication} (hstage : s.stage = .idle)
      (hbegin : beginPublication s.observe call = .ok p) :
      Step sha256 s (.publish call left) { s with files := sweepTemps s.files left, stage := .checked p }
  | write {unlisted : List Text} {p : Publication} {n : Nat} {text : Text}
      (hstage : s.stage = .checked p) (hrecords : p.call.records ≠ [])
      (hnew : newGeneration p (listGenerations s.files unlisted) = .ok (n, text)) :
      Step sha256 s (.write unlisted)
        { s with files := s.files.insert (generationName n) (bytes text), stage := .written p n text }
  | commitRemoval {p : Publication} {out : Text} (hstage : s.stage = .checked p)
      (hrecords : p.call.records = [])
      (hout : confWithoutReference s.readConf s.conf.isSome = .ok out) :
      Step sha256 s .commit
        { s with conf := some (bytes out), stage := .committed p.predecessor.toList }
  | commitReference {p : Publication} {n : Nat} {text out : Text} (hstage : s.stage = .written p n text)
      (hout : confWithReference sha256 s.readConf s.conf.isSome p n text = .ok out) :
      Step sha256 s .commit
        { s with conf := some (bytes out), stage := .committed (kept n p.predecessor) }
  | list {unlisted : List Text} {keep : List Nat} (hstage : s.stage = .committed keep) :
      Step sha256 s (.list unlisted)
        { s with stage := .retaining (retentionTargets s.files unlisted keep) }
  | remove {removed : Bool} {name : Text} {todo : List Text} (hstage : s.stage = .retaining (name :: todo)) :
      Step sha256 s (.remove removed)
        { s with files := removeFile s removed name, stage := .retaining todo }
  | sweep {unlisted : List Text} (hstage : s.stage = .idle) :
      Step sha256 s (.sweep unlisted)
        { s with stage := .sweeping
                   (sweepTargets s.files unlisted ((splitKeysIn s.observe).map Prod.fst)) }
  | sweepRemove {removed : Bool} {name : Text} {todo : List Text}
      (hstage : s.stage = .sweeping (name :: todo)) :
      Step sha256 s (.sweepRemove removed)
        { s with files := removeFile s removed name, stage := .sweeping todo }
  | stop : Step sha256 s .stop { s with stage := .idle }

theorem commitStep_inv (h : commitStep sha256 s = some s') : Step sha256 s .commit s' := by
  unfold commitStep at h
  split at h
  · next p hstage =>
    split at h
    · next hrecords =>
      split at h
      · next out hout => exact Option.some.inj h ▸ .commitRemoval hstage hrecords hout
      · cases h
    · cases h
  · next p n text hstage =>
    split at h
    · next out hout => exact Option.some.inj h ▸ .commitReference hstage hout
    · cases h
  · cases h

theorem writeStep_inv {unlisted : List Text} (h : writeStep s unlisted = some s') :
    Step sha256 s (.write unlisted) s' := by
  unfold writeStep at h
  split at h
  · next p hstage =>
    split at h
    · cases h
    · next hrecords =>
      split at h
      · next n text hnew => exact Option.some.inj h ▸ .write hstage hrecords hnew
      · cases h
  · cases h

theorem step_inv {e : Event} (h : step sha256 s e = some s') : Step sha256 s e s' := by
  cases e with
  | publish call left =>
    simp only [step] at h
    split at h
    · next p hstage hbegin => exact Option.some.inj h ▸ .publish hstage hbegin
    · cases h
  | write unlisted => exact writeStep_inv h
  | commit => exact commitStep_inv h
  | list unlisted =>
    simp only [step] at h
    split at h
    · next keep hstage => exact Option.some.inj h ▸ .list hstage
    · cases h
  | remove removed =>
    simp only [step] at h
    split at h
    · next name todo hstage => exact Option.some.inj h ▸ .remove hstage
    · cases h
  | sweep unlisted =>
    simp only [step] at h
    split at h
    · next hstage => exact Option.some.inj h ▸ .sweep hstage
    · cases h
  | sweepRemove removed =>
    simp only [step] at h
    split at h
    · next name todo hstage => exact Option.some.inj h ▸ .sweepRemove hstage
    · cases h
  | stop => exact Option.some.inj h ▸ .stop

/-- **A commit is read back** as the reference of its own call. -/
theorem observe_commit_reference {p : Publication} {n : Nat} {text out : Text} (hw : Written s p n text)
    (hout : confWithReference sha256 s.readConf s.conf.isSome p n text = .ok out) :
    ∃ pair, pairText p.call.selected = .ok pair ∧
      (parseCameraConf out).selection = s.observe.selection ∧
      (parseCameraConf out).split = .reference n (digestKey sha256 (bytes text)) pair := by
  obtain ⟨pair, hpair, hpublish⟩ := bind_ok_iff.1 hout
  obtain ⟨-, hmalformed, -⟩ := beginPublication_ok hw.begun
  obtain ⟨hset, existing, hwell, hselection, rfl⟩ :=
    published_of_observed hmalformed (mapError_ok_iff.1 hpublish)
  have hparses : ∀ t, pair = some t → ∃ key, SplitPairKey.parseCanonical t = .ok key := by
    intro t ht
    rcases pairText_ok hpair with ⟨-, hnone⟩ | ⟨key, t', -, hsome, hparse⟩
    · rw [hnone] at ht
      cases ht
    · rw [hsome] at ht
      exact ⟨key, Option.some.inj ht ▸ hparse⟩
  obtain ⟨hsame, hsplit⟩ := parse_reference hwell hw.positive hw.fits
    (@isCanonicalDigest_digestKey sha256 (bytes text)) hparses hset
  exact ⟨pair, hpair, hsame.trans hselection, hsplit⟩

theorem observe_commit_removal {out : Text} (hmalformed : s.observe.selection.isMalformed = false)
    (hout : confWithoutReference s.readConf s.conf.isSome = .ok out) :
    (parseCameraConf out).selection = s.observe.selection ∧ (parseCameraConf out).split = .none := by
  obtain ⟨-, existing, hwell, hselection, rfl⟩ :=
    published_of_observed hmalformed (mapError_ok_iff.1 hout)
  obtain ⟨hsame, hsplit⟩ := parse_removal hwell
  exact ⟨hsame.trans hselection, hsplit⟩

theorem stageOk_step {e : Event} (hs : StageOk s) (h : step sha256 s e = some s') : StageOk s' := by
  cases step_inv h with
  | publish hstage hbegin =>
    have hp := (beginPublication_ok hbegin).2.2.2
    rw [hp] at hbegin ⊢
    exact hbegin
  | write hstage hrecords hnew =>
    obtain ⟨hserialized, hpos, hlt, -, habove⟩ := newGeneration_ok hnew
    rw [StageOk, hstage] at hs
    exact ⟨hs, hrecords, hserialized, hpos, hlt, habove, AList.lookup_insert _⟩
  | commitRemoval => trivial
  | commitReference => trivial
  | list => trivial
  | remove => trivial
  | sweep => trivial
  | sweepRemove => trivial
  | stop => trivial

end Machine

/-! ## What a valid read found -/

section Valid

variable {sha256 : List UInt8 → Vector UInt8 32} {g : Nat} {records : List AuthorizationRecord}
  {selected : Option SplitPairKey}

def Selects (pair : Option Text) (selected : Option SplitPairKey) : Prop :=
  (pair = none ∧ selected = none) ∨
    ∃ text key, pair = some text ∧ SplitPairKey.parseCanonical text = .ok key ∧ selected = some key

variable {read : Nat → Except IoError (List UInt8)}

variable {pair : Option Text}

theorem readGeneration_valid {n : Nat} {digest : Text}
    (h : readGeneration sha256 n digest pair read = .ok (.valid g records selected)) :
    g = n ∧ Selects pair selected ∧ ∃ text, read n = .ok (bytes text) ∧
      afterStart digest digestStart = some (digestValue sha256 (bytes text)) ∧
      parseGeneration text = .valid records := by
  unfold readGeneration at h
  split at h
  · split at h
    · cases h
    · cases h
  · next bs hread =>
    split at h
    · cases h
    · next hdigest =>
      rw [not_not] at hdigest
      split at h
      · cases h
      · cases h
      · next rs hmap =>
        obtain ⟨text, hbytes, hparse⟩ := Option.map_eq_some_iff.1 hmap
        rw [ofBytes_eq_some_iff] at hbytes
        subst hbytes
        have hfound : rs = records → ∃ text', read n = .ok (bytes text') ∧
            afterStart digest digestStart = some (digestValue sha256 (bytes text')) ∧
            parseGeneration text' = .valid records := fun heq => ⟨text, hread, hdigest, heq ▸ hparse⟩
        split at h
        · simp only [Except.ok.injEq, SplitReadState.valid.injEq] at h
          obtain ⟨rfl, hrecords, hselected⟩ := h
          exact ⟨rfl, .inl ⟨rfl, hselected.symm⟩, hfound hrecords⟩
        · next t =>
          split at h
          · next key hkey =>
            split at h
            · simp only [Except.ok.injEq, SplitReadState.valid.injEq] at h
              obtain ⟨rfl, hrecords, hselected⟩ := h
              exact ⟨rfl, .inr ⟨t, key, rfl, hkey, hselected.symm⟩, hfound hrecords⟩
            · cases h
          · cases h

theorem readObservation_valid {obs : CameraConfObservation}
    (h : readObservation sha256 obs read = .ok (.valid g records selected)) :
    isUnreadable obs.selection = false ∧ ∃ digest pair, obs.split = .reference g digest pair ∧
      readGeneration sha256 g digest pair read = .ok (.valid g records selected) := by
  unfold readObservation at h
  split at h
  · cases h
  · next hread =>
    refine ⟨Bool.eq_false_iff.2 hread, ?_⟩
    split at h
    · cases h
    · split at h
      · cases h
      · cases h
      · split at h
        · cases h
        · next other hne hother =>
          cases h
          exact (hne _ _ _ rfl).elim
        · cases h
      · next n digest pair hsplit =>
        obtain ⟨rfl, -⟩ := readGeneration_valid h
        exact ⟨digest, pair, hsplit, h⟩

theorem readCameraSelectionWith_valid {first second : CameraConfObservation}
    {read₁ read₂ : Nat → Except IoError (List UInt8)}
    (h : (readCameraSelectionWith sha256 first second read₁ read₂).split = .valid g records selected) :
    readObservation sha256 first read₁ = .ok (.valid g records selected) ∨
      readObservation sha256 second read₂ = .ok (.valid g records selected) := by
  unfold readCameraSelectionWith at h
  split at h
  · next split hread => exact .inl (hread.trans (congrArg Except.ok h))
  · right
    simp only at h
    split at h
    · split at h <;> cases h
    · split at h
      · next split hread => exact hread.trans (congrArg Except.ok h)
      · cases h

theorem valid_attempt {s t : Host} {confFault fileFault : Option IoError}
    (h : readObservation sha256 (s.observeWith confFault) (t.readFileWith fileFault) =
      .ok (.valid g records selected)) :
    ∃ digest pair, s.observe.split = .reference g digest pair ∧ Selects pair selected ∧
      ∃ text, t.files.lookup (generationName g) = some (bytes text) ∧
        afterStart digest digestStart = some (digestValue sha256 (bytes text)) ∧
        parseGeneration text = .valid records := by
  obtain ⟨hread, digest, pair, hsplit, hgeneration⟩ := readObservation_valid h
  obtain ⟨-, hselects, text, hfile, hdigest, hparse⟩ := readGeneration_valid hgeneration
  refine ⟨digest, pair, ?_, hselects, text, ?_, hdigest, hparse⟩
  · cases confFault with
    | none => exact hsplit
    | some e =>
      simp only [Host.observeWith, observeCameraConf] at hsplit
      split at hsplit <;> cases hsplit
  · cases fileFault with
    | some e => cases hfile
    | none =>
      simp only [Host.readFileWith, Host.readFile] at hfile
      split at hfile
      · next bs hlookup => rw [hlookup, Except.ok.inj hfile]
      · cases hfile

theorem readGeneration_written {n : Nat} {text : Text}
    (hread : read n = .ok (bytes text))
    (hserialized : serializeGeneration records = .ok text) (hpair : pairText selected = .ok pair)
    (hresolves : ∀ key, selected = some key → records.any (recordMatches · key) = true) :
    readGeneration sha256 n (digestKey sha256 (bytes text)) pair read =
      .ok (.valid n records selected) := by
  have hparse : (ofBytes (bytes text)).map parseGeneration = some (.valid records) := by
    rw [ofBytes_bytes, Option.map_some, parseGeneration_of_serialized hserialized]
  have hdigest : afterStart (digestKey sha256 (bytes text)) digestStart =
      some (digestValue sha256 (bytes text)) := afterStart_append _ _
  unfold readGeneration
  rw [hread]
  simp only [hdigest, hparse, ne_eq, not_true_eq_false, if_false]
  rcases pairText_ok hpair with ⟨rfl, rfl⟩ | ⟨key, t, rfl, rfl, hkey⟩
  · rfl
  · simp only [hkey, hresolves key rfl, if_true]

theorem readObservation_reference {obs : CameraConfObservation} {g : Nat} {digest : Text}
    (hread : isUnreadable obs.selection = false) (hmalformed : obs.selection.isMalformed = false)
    (hsplit : obs.split = .reference g digest pair) :
    readObservation sha256 obs read = readGeneration sha256 g digest pair read := by
  simp [readObservation, hread, hmalformed, hsplit]

end Valid

/-! ## A host that nothing is done to -/

def Host.current (sha256 : List UInt8 → Vector UInt8 32) (s : Host) : SplitReadState :=
  (readCameraSelection sha256 s s s s {}).split

theorem readFile_lookup {bs : List UInt8}
    (h : s.files.lookup (generationName n) = some bs) : s.readFile n = .ok bs := by
  rw [Host.readFile, h]

variable {sha256 : List UInt8 → Vector UInt8 32}

theorem current_of_readObservation
    {state : SplitReadState} (h : readObservation sha256 s.observe s.readFile = .ok state) :
    s.current sha256 = state := by
  have hread : readObservation sha256 (s.observeWith none) (s.readFileWith none) = .ok state := h
  rw [Host.current, readCameraSelection, readCameraSelectionWith, hread]

theorem readObservation_committed {m s t : Host}
    {text out : Text} (hw : Written m p n text)
    (hout : confWithReference sha256 m.readConf m.conf.isSome p n text = .ok out)
    (hconf : s.conf = some (bytes out)) (hfile : t.files.lookup (generationName n) = some (bytes text)) :
    readObservation sha256 s.observe t.readFile = .ok (.valid n p.call.records p.call.selected) := by
  obtain ⟨hread, hmalformed, hresolves, -⟩ := beginPublication_ok hw.begun
  obtain ⟨pair, hpair, hselection, hsplit⟩ := observe_commit_reference hw hout
  rw [← observe_conf_bytes s hconf] at hselection hsplit
  rw [← hselection] at hread hmalformed
  rw [readObservation_reference hread hmalformed hsplit]
  exact readGeneration_written (readFile_lookup hfile) hw.serialized hpair hresolves

theorem current_commit_reference {m s : Host}
    {text out : Text} (hw : Written m p n text)
    (hout : confWithReference sha256 m.readConf m.conf.isSome p n text = .ok out)
    (hconf : s.conf = some (bytes out)) (hfiles : s.files = m.files) :
    s.current sha256 = .valid n p.call.records p.call.selected :=
  current_of_readObservation (readObservation_committed hw hout hconf (hfiles ▸ hw.on_disk))

theorem current_commit_removal {m s : Host} (hbegin : beginPublication m.observe p.call = .ok p)
    (hout : confWithoutReference m.readConf m.conf.isSome = .ok out)
    (hconf : s.conf = some (bytes out)) : s.current sha256 = .absent := by
  obtain ⟨hread, hmalformed, -⟩ := beginPublication_ok hbegin
  obtain ⟨hselection, hsplit⟩ := observe_commit_removal hmalformed hout
  rw [← observe_conf_bytes s hconf] at hselection hsplit
  rw [← hselection] at hread hmalformed
  apply current_of_readObservation
  simp [readObservation, hread, hmalformed, hsplit]

/-! ## Where the content of `cameras.conf` comes from -/

def Event.isPublish : Event → Bool
  | .publish _ _ => true
  | _ => false

section Runs

variable (sha256 : List UInt8 → Vector UInt8 32)

/-- In the run `es` from `s₀`, the publication `call` began and no other one since. -/
def Begun (es : List Event) (call : Call) : Prop :=
  ∃ before left during, es = before ++ .publish call left :: during ∧
    ∀ e ∈ during, e.isPublish = false

/-- In the run `es` from `s₀`, the publication `call` committed the content `conf`. -/
def CommittedBy (s₀ : Host) (es : List Event) (conf : Option (List UInt8)) (call : Call) : Prop :=
  ∃ before after m m', es = before ++ .commit :: after ∧ Begun before call ∧
    run (step sha256) s₀ before = some m ∧ step sha256 m .commit = some m' ∧ m'.conf = conf

variable {sha256} {s₀ s : Host} {es : List Event}

variable {call : Call}

theorem Begun.concat (h : Begun es call) {e : Event} (he : e.isPublish = false) :
    Begun (es ++ [e]) call := by
  obtain ⟨before, left, during, rfl, hnone⟩ := h
  refine ⟨before, left, during ++ [e], by simp, ?_⟩
  intro f hf
  rcases List.mem_append.1 hf with hf | hf
  · exact hnone f hf
  · rw [List.mem_singleton.1 hf, he]

theorem Begun.unique {call call' : Call} (h : Begun es call) (h' : Begun es call') : call = call' := by
  have hlast : ∀ {call}, Begun es call →
      ∃ left, (es.filter Event.isPublish).getLast? = some (.publish call left) := by
    intro call h
    obtain ⟨before, left, during, rfl, hnone⟩ := h
    have hduring : during.filter Event.isPublish = [] := by
      apply List.filter_eq_nil_iff.2
      intro e he
      rw [hnone e he]
      exact Bool.false_ne_true
    refine ⟨left, ?_⟩
    rw [List.filter_append, List.filter_cons_of_pos rfl, hduring, List.getLast?_concat]
  obtain ⟨left, hcall⟩ := hlast h
  obtain ⟨left', hcall'⟩ := hlast h'
  rw [hcall] at hcall'
  cases hcall'
  rfl

def Stage.publication : Stage → Option Publication
  | .checked p => some p
  | .written p _ _ => some p
  | _ => none

theorem begun_of_stage (hidle : s₀.stage = .idle) (h : run (step sha256) s₀ es = some s)
    {p : Publication} (hp : s.stage.publication = some p) : Begun es p.call := by
  induction es using List.reverseRecOn generalizing s with
  | nil =>
    cases h
    rw [hidle] at hp
    cases hp
  | append_singleton es e ih =>
    obtain ⟨m, hm, hlast⟩ := run_append_some.1 h
    obtain ⟨t, ht, hnil⟩ := run_cons_some.1 hlast
    cases hnil
    cases step_inv ht with
    | @publish call left p' hstage hbegin =>
      obtain rfl := Option.some.inj hp
      have hcall : p'.call = call := by rw [(beginPublication_ok hbegin).2.2.2]
      rw [hcall]
      exact ⟨es, left, [], rfl, by simp⟩
    | write hstage hrecords hnew =>
      cases hp
      exact (ih hm (by rw [hstage]; rfl)).concat rfl
    | commitRemoval => cases hp
    | commitReference => cases hp
    | list => cases hp
    | remove => cases hp
    | sweep => cases hp
    | sweepRemove => cases hp
    | stop => cases hp

theorem CommittedBy.concat {conf : Option (List UInt8)}
    (h : CommittedBy sha256 s₀ es conf call) (fs : List Event) :
    CommittedBy sha256 s₀ (es ++ fs) conf call := by
  obtain ⟨before, after, m, m', rfl, hrest⟩ := h
  exact ⟨before, after ++ fs, m, m', by simp, hrest⟩

theorem conf_step {e : Event} {s' : Host} (h : step sha256 s e = some s') (he : e ≠ .commit) :
    s'.conf = s.conf := by
  cases step_inv h with
  | commitRemoval => exact absurd rfl he
  | commitReference => exact absurd rfl he
  | publish => rfl
  | write => rfl
  | list => rfl
  | remove => rfl
  | sweep => rfl
  | sweepRemove => rfl
  | stop => rfl

variable (hidle : s₀.stage = .idle)

include hidle

theorem conf_origin (h : run (step sha256) s₀ es = some s) :
    s.conf = s₀.conf ∨ ∃ call, CommittedBy sha256 s₀ es s.conf call := by
  induction es using List.reverseRecOn generalizing s with
  | nil => exact .inl (Option.some.inj h ▸ rfl)
  | append_singleton es e ih =>
    obtain ⟨m, hm, hlast⟩ := run_append_some.1 h
    obtain ⟨t, ht, hnil⟩ := run_cons_some.1 hlast
    obtain rfl := Option.some.inj hnil
    by_cases he : e = .commit
    · subst he
      have hp : ∃ p, m.stage.publication = some p := by
        cases step_inv ht with
        | commitRemoval hstage => exact ⟨_, by rw [hstage]; rfl⟩
        | commitReference hstage => exact ⟨_, by rw [hstage]; rfl⟩
      obtain ⟨p, hp⟩ := hp
      exact .inr ⟨p.call, es, [], m, t, rfl, begun_of_stage hidle hm hp, hm, ht, rfl⟩
    · rw [conf_step ht he]
      rcases ih hm with hsame | ⟨call, hcall⟩
      · exact .inl hsame
      · exact .inr ⟨call, hcall.concat [e]⟩

theorem stageOk_run (h : run (step sha256) s₀ es = some s) : StageOk s := by
  apply run_invariant (fun hs ht => stageOk_step hs ht) _ h
  rw [StageOk, hidle]
  trivial

theorem CommittedBy.reference
    (h : CommittedBy sha256 s₀ es s.conf call) {g : Nat} {digest : Text} {pair : Option Text}
    (hsplit : s.observe.split = .reference g digest pair) :
    ∃ before after m text, es = before ++ after ∧ run (step sha256) s₀ before = some m ∧
      serializeGeneration call.records = .ok text ∧ 1 ≤ g ∧ g < 2 ^ 64 ∧
      m.files.lookup (generationName g) = some (bytes text) ∧
      digest = digestKey sha256 (bytes text) ∧ pairText call.selected = .ok pair := by
  obtain ⟨before, after, m, m', rfl, hbegun, hm, hcommit, hconf⟩ := h
  have hok := stageOk_run hidle hm
  have hread : ∀ {out}, m'.conf = some (bytes out) → (parseCameraConf out).split = .reference g digest pair := by
    intro out hout
    rw [← observe_conf_bytes s (hconf.symm.trans hout), hsplit]
  cases step_inv hcommit with
  | commitRemoval hstage hrecords hout =>
    rw [StageOk, hstage] at hok
    have hnone := (observe_commit_removal (beginPublication_ok hok).2.1 hout).2
    rw [hread rfl] at hnone
    cases hnone
  | @commitReference p n text out hstage hout =>
    rw [StageOk, hstage] at hok
    have hcall : p.call = call := (begun_of_stage hidle hm (by rw [hstage]; rfl)).unique hbegun
    obtain ⟨pair', hpair, -, hparsed⟩ := observe_commit_reference hok hout
    rw [hread rfl] at hparsed
    obtain ⟨rfl, rfl, rfl⟩ := SplitConfObservation.reference.inj hparsed
    rw [← hcall]
    exact ⟨before, .commit :: after, m, text, rfl, hm, hok.serialized, hok.positive, hok.fits,
      hok.on_disk, rfl, hpair⟩

end Runs

/-! ## Readers never see a mix -/

def generationBytes (s : Host) : List (List UInt8) :=
  s.files.entries.filterMap fun e => (parseGenerationName e.1).map fun _ => e.2

def DigestsDistinct (sha256 : List UInt8 → Vector UInt8 32) (contents : List (List UInt8)) : Prop :=
  ∀ b ∈ contents, ∀ c ∈ contents, sha256 b = sha256 c → b = c

theorem parseGenerationName_generationName (hpos : 1 ≤ n) (hlt : n < 2 ^ 64) :
    parseGenerationName (generationName n) = some n := by
  have hcanonical : canonicalDecimal (decimal n) = true := by
    rw [canonicalDecimal_iff, decimalValue_decimal]
  have htake : (generationName n).take ((generationName n).length - generationEnd.length) = decimal n := by
    simp [generationName]
  have hend : generationEnd <:+ generationName n := List.suffix_append _ _
  rw [parseGenerationName, if_pos hend]
  simp only [htake, decimalValue_decimal]
  rw [if_pos ⟨hcanonical, hlt, hpos⟩]

theorem mem_generationBytes {bs : List UInt8} (hpos : 1 ≤ n) (hlt : n < 2 ^ 64)
    (h : s.files.lookup (generationName n) = some bs) : bs ∈ generationBytes s := by
  apply List.mem_filterMap.2
  refine ⟨⟨generationName n, bs⟩, AList.mem_lookup_iff.1 h, ?_⟩
  rw [parseGenerationName_generationName hpos hlt]
  rfl

section Mix

variable {sha256 : List UInt8 → Vector UInt8 32} {s₀ s t : Host} {es fs : List Event} {g : Nat}
  {records : List AuthorizationRecord} {selected : Option SplitPairKey}

/-- What `cameras.conf` in `s` names: a generation, and the selection of `call`. -/
def Names (s : Host) (g : Nat) (selected : Option SplitPairKey) : Prop :=
  ∃ digest pair, s.observe.split = .reference g digest pair ∧ pairText selected = .ok pair

theorem Selects.unique {pair : Option Text} {selected selected' : Option SplitPairKey}
    (h : Selects pair selected) (h' : pairText selected' = .ok pair) : selected' = selected := by
  rcases h with ⟨rfl, rfl⟩ | ⟨text, key, rfl, hkey, rfl⟩
  · rcases pairText_ok h' with ⟨rfl, -⟩ | ⟨key, text, -, hsome, -⟩
    · rfl
    · cases hsome
  · rcases pairText_ok h' with ⟨-, hnone⟩ | ⟨key', text', rfl, hsome, hkey'⟩
    · cases hnone
    · cases hsome
      rw [hkey] at hkey'
      rw [Except.ok.inj hkey']

theorem attempt_committed (hidle : s₀.stage = .idle) (hnone : splitKeysIn s₀.observe = none)
    (hs : run (step sha256) s₀ es = some s) (ht : run (step sha256) s fs = some t) {rest : List Event}
    (hdistinct : DigestsDistinct sha256
      ((states (step sha256) s₀ (es ++ fs ++ rest)).flatMap generationBytes))
    {confFault fileFault : Option IoError}
    (h : readObservation sha256 (s.observeWith confFault) (t.readFileWith fileFault) =
      .ok (.valid g records selected)) :
    ∃ call, CommittedBy sha256 s₀ es s.conf call ∧ Names s g call.selected ∧
      call.records = records ∧ call.selected = selected := by
  obtain ⟨digest, pair, hsplit, hselects, text, hfile, hdigest, hparse⟩ := valid_attempt h
  rcases conf_origin hidle hs with hsame | ⟨call, hcall⟩
  · have hobserve : s.observe = s₀.observe := by rw [Host.observe, Host.observe, Host.readConf, Host.readConf, hsame]
    rw [splitKeysIn, ← hobserve, hsplit] at hnone
    cases hnone
  · obtain ⟨before, after, m, text', rfl, hm, hserialized, hpos, hlt, hdisk, rfl, hpair⟩ :=
      hcall.reference hidle hsplit
    have hrun := run_append_some.2 ⟨s, hs, ht⟩
    have hm' : m ∈ states (step sha256) s₀ (before ++ after ++ fs ++ rest) := by
      rw [List.append_assoc, List.append_assoc]
      exact mem_states_of_run hm _
    have ht' : t ∈ states (step sha256) s₀ (before ++ after ++ fs ++ rest) := mem_states_of_run hrun _
    have hbytes : bytes text' = bytes text := by
      apply hdistinct _ (List.mem_flatMap.2 ⟨m, hm', mem_generationBytes hpos hlt hdisk⟩) _
        (List.mem_flatMap.2 ⟨t, ht', mem_generationBytes hpos hlt hfile⟩)
      rw [digestKey, afterStart_append] at hdigest
      exact digestValue_eq_iff.1 (Option.some.inj hdigest)
    obtain rfl := bytes_injective hbytes
    have hrecords := parseGeneration_of_serialized hserialized
    rw [hparse] at hrecords
    obtain rfl := GenerationObservation.valid.inj hrecords
    exact ⟨call, hcall, ⟨_, pair, hsplit, hpair⟩, rfl, hselects.unique hpair⟩

/-- **Readers never see a mix.** The host runs any publications, crashes and sweeps; the reader's four
accesses fall at any moments of that run. What a valid read returns is what one publication was
given, and `cameras.conf` named it at the first or at the second observation of the read. -/
theorem valid_read_is_one_publication {s₁ s₂ s₃ s₄ : Host} {es₁ es₂ es₃ es₄ : List Event}
    (hidle : s₀.stage = .idle) (hnone : splitKeysIn s₀.observe = none)
    (h₁ : run (step sha256) s₀ es₁ = some s₁) (h₂ : run (step sha256) s₁ es₂ = some s₂)
    (h₃ : run (step sha256) s₂ es₃ = some s₃) (h₄ : run (step sha256) s₃ es₄ = some s₄)
    (hdistinct : DigestsDistinct sha256
      ((states (step sha256) s₀ (es₁ ++ es₂ ++ es₃ ++ es₄)).flatMap generationBytes))
    (faults : ReadFaults)
    (hvalid : (readCameraSelection sha256 s₁ s₂ s₃ s₄ faults).split = .valid g records selected) :
    ∃ call, call.records = records ∧ call.selected = selected ∧
      ((CommittedBy sha256 s₀ es₁ s₁.conf call ∧ Names s₁ g selected) ∨
        (CommittedBy sha256 s₀ (es₁ ++ es₂ ++ es₃) s₃.conf call ∧ Names s₃ g selected)) := by
  have hrun₃ : run (step sha256) s₀ (es₁ ++ es₂ ++ es₃) = some s₃ :=
    run_append_some.2 ⟨s₂, run_append_some.2 ⟨s₁, h₁, h₂⟩, h₃⟩
  rcases readCameraSelectionWith_valid hvalid with hfirst | hsecond
  · rw [List.append_assoc (es₁ ++ es₂)] at hdistinct
    obtain ⟨call, hcall, hnames, hrecords, rfl⟩ := attempt_committed hidle hnone h₁ h₂ hdistinct hfirst
    exact ⟨call, hrecords, rfl, .inl ⟨hcall, hnames⟩⟩
  · rw [← List.append_nil (es₁ ++ es₂ ++ es₃ ++ es₄)] at hdistinct
    obtain ⟨call, hcall, hnames, hrecords, rfl⟩ := attempt_committed hidle hnone hrun₃ h₄ hdistinct hsecond
    exact ⟨call, hrecords, rfl, .inr ⟨hcall, hnames⟩⟩

end Mix

/-- SHA-256 on the one generation of `laptopRun`. -/
def laptopSha256 : List UInt8 → Vector UInt8 32 := fun _ =>
  #v[212, 85, 59, 25, 238, 95, 142, 132, 133, 140, 150, 233, 226, 157, 149, 175,
    65, 174, 81, 36, 210, 12, 191, 19, 240, 125, 93, 190, 14, 182, 132, 147]

def freshHost : Host := { conf := none, files := ∅, stage := .idle }

def laptopCall : Call := { records := [laptopRecord], selected := none }

def laptopRun : List Event := [.publish laptopCall [], .write []]

/-- The same records, with their pair selected. -/
def pairCall : Call where
  records := [laptopRecord]
  selected := some ⟨⟨"5986:2113:ü=1", "0000:00:14.0", .usb2, [8]⟩,
    ⟨"5986:1141", "0000:00:14.0", .superSpeed, [1, 25]⟩⟩

/-- The first publication ends, and the file of a second one is written. -/
def pairRun : List Event := [.list [], .stop, .publish pairCall [], .write []]

theorem laptopRun_written : ∃ m s t u p n text, run (step laptopSha256) freshHost laptopRun = some m ∧
    m.stage = .written p n text ∧ p.call = laptopCall ∧ n = 1 ∧ step laptopSha256 m .commit = some s ∧
    run (step laptopSha256) s pairRun = some t ∧ t.files.lookup (generationName n) = some (bytes text) ∧
    step laptopSha256 t .commit = some u := by
  have hstage : ((run (step laptopSha256) freshHost laptopRun).bind fun m =>
      match m.stage with
      | .written p n text => (step laptopSha256 m .commit).bind fun s =>
        (run (step laptopSha256) s pairRun).bind fun t => (step laptopSha256 t .commit).map fun _ =>
          (p.call, n, decide (t.files.lookup (generationName n) = some (bytes text)))
      | _ => none) = some (laptopCall, 1, true) := by
    decide +kernel
  obtain ⟨m, hm, hmatch⟩ := Option.bind_eq_some_iff.1 hstage
  split at hmatch
  · next p n text hwritten =>
    obtain ⟨s, hs, hmatch⟩ := Option.bind_eq_some_iff.1 hmatch
    obtain ⟨t, ht, hmatch⟩ := Option.bind_eq_some_iff.1 hmatch
    obtain ⟨u, hu, hmatch⟩ := Option.map_eq_some_iff.1 hmatch
    simp only [Prod.mk.injEq, decide_eq_true_eq] at hmatch
    obtain ⟨hcall, hn, hlookup⟩ := hmatch
    exact ⟨m, s, t, u, p, n, text, hm, hwritten, hcall, hn, hs, ht, hlookup, hu⟩
  · cases hmatch

/-- The file of the second publication is written between the first observation and the read of the file that it
names; the second publication commits before the reader has the file. -/
theorem valid_read_is_one_publication_laptop :
    ∃ s t u, run (step laptopSha256) freshHost (laptopRun ++ [.commit]) = some s ∧
      run (step laptopSha256) s pairRun = some t ∧ run (step laptopSha256) t [.commit] = some u ∧
      (readCameraSelection laptopSha256 s t u u {}).split = .valid 1 [laptopRecord] none ∧
      ∃ call, call.records = [laptopRecord] ∧ call.selected = none ∧
        ((CommittedBy laptopSha256 freshHost (laptopRun ++ [.commit]) s.conf call ∧ Names s 1 none) ∨
          (CommittedBy laptopSha256 freshHost (laptopRun ++ [.commit] ++ pairRun ++ [.commit]) u.conf call ∧
            Names u 1 none)) := by
  obtain ⟨m, s, t, u, p, n, text, hm, hstage, hcall, rfl, hcommit, hpair, hlookup, hu⟩ := laptopRun_written
  have hok := stageOk_run rfl hm
  rw [StageOk, hstage] at hok
  have hrun : run (step laptopSha256) freshHost (laptopRun ++ [.commit]) = some s :=
    run_append_some.2 ⟨m, hm, run_cons_some.2 ⟨s, hcommit, rfl⟩⟩
  have hcommit' : run (step laptopSha256) t [.commit] = some u := run_cons_some.2 ⟨u, hu, rfl⟩
  have hread : readObservation laptopSha256 s.observe t.readFile = .ok (.valid 1 [laptopRecord] none) := by
    cases step_inv hcommit with
    | commitRemoval hchecked =>
      rw [hstage] at hchecked
      cases hchecked
    | commitReference hwritten hout =>
      rw [hstage] at hwritten
      obtain ⟨rfl, rfl, rfl⟩ := Stage.written.inj hwritten
      have hfound : SplitReadState.valid 1 p.call.records p.call.selected = .valid 1 [laptopRecord] none := by
        rw [hcall]
        rfl
      rw [← hfound]
      exact readObservation_committed hok hout rfl hlookup
  have hvalid : (readCameraSelection laptopSha256 s t u u {}).split = .valid 1 [laptopRecord] none := by
    have hread' : readObservation laptopSha256 (s.observeWith none) (t.readFileWith none) = _ := hread
    rw [readCameraSelection, readCameraSelectionWith, hread']
  -- Both publications write the same records.
  have hdistinct : DigestsDistinct laptopSha256
      ((states (step laptopSha256) freshHost (laptopRun ++ [.commit] ++ pairRun ++ [.commit] ++ [])).flatMap
        generationBytes) := by
    unfold DigestsDistinct
    decide +kernel
  have hnone : splitKeysIn freshHost.observe = none := by decide
  exact ⟨s, t, u, hrun, hpair, hcommit', hvalid,
    valid_read_is_one_publication rfl hnone hrun hpair hcommit' rfl hdistinct {} hvalid⟩

end Irlume.Split

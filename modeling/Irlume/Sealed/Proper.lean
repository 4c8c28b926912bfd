import Irlume.Sealed.Kept

/-!
# Every operation is proper

The parts of an operation that write nothing keep the files and what was resolved (`Same`), so what a load found is
still there when the envelope is written. One lemma for each function says what its result is worth to its caller.
-/

namespace Irlume.Sealed

open Irlume.Lib

variable {Blob Wrap : Type} {sealedBytes : Blob → Bytes} {opens : Bytes → Wrap → Option Bytes} {honest : Prop}
  {α β : Type} {w w' base : World Blob Wrap} {file : File} {user : Text} {env : SealedEnvelope Blob Wrap}

/-! ## Parts that write nothing -/

/-- The files are what they were, and what was resolved still is. -/
structure Same (w w' : World Blob Wrap) : Prop where
  keyring : w'.keyring = w.keyring
  templateKey : w'.templateKey = w.templateKey
  resolved : ∀ r, w.resolved = some r → w'.resolved = some r

namespace Same

theorem refl (w : World Blob Wrap) : Same w w := ⟨rfl, rfl, fun _ h => h⟩

theorem stored (h : Same w w') (file : File) : w'.stored file = w.stored file := by
  cases file with
  | keyring => exact h.keyring
  | templateKey => exact h.templateKey

theorem trans {w'' : World Blob Wrap} (h : Same w w') (h' : Same w' w'') : Same w w'' where
  keyring := h'.keyring.trans h.keyring
  templateKey := h'.templateKey.trans h.templateKey
  resolved r hr := h'.resolved r (h.resolved r hr)

theorem resolve (h : Same base w) {r : Resolution} (hnone : w.resolved = none) :
    Same base { w with resolved := some r } where
  keyring := h.keyring
  templateKey := h.templateKey
  resolved s hs := by
    rw [h.resolved s hs] at hnone
    cases hnone

end Same

def Op.quiet (op : Op Blob Wrap) : Bool :=
  match op with
  | .resolution => true
  | op => op.reads

theorem Op.quiet_of_reads {op : Op Blob Wrap} (h : op.reads = true) : op.quiet = true := by
  cases op with
  | resolution => rfl
  | _ => exact h

/-- A part that writes nothing. -/
abbrev Reads (sealedBytes : Blob → Bytes) (opens : Bytes → Wrap → Option Bytes) (honest : Prop) (base : World Blob Wrap)
    (P : α → World Blob Wrap → Prop) (p : Records Blob Wrap α) (w : World Blob Wrap) : Prop :=
  Follows sealedBytes opens honest (fun _ op => op.quiet = true) (fun _ => Same base)
    (fun a w' => Same base w' ∧ P a w') p w

section

variable {P : α → World Blob Wrap → Prop}

theorem reads_pure {a : α} (hbase : Same base w) (h : P a w) : Reads sealedBytes opens honest base P (pure a) w :=
  follows_pure ⟨hbase, h⟩

theorem reads_throw {e : Error} (hbase : Same base w) : Reads sealedBytes opens honest base P (throw e) w :=
  follows_throw hbase

theorem reads_ask (op : Op Blob Wrap) (hop : op.reads = true) {k : Answer op → Records Blob Wrap α}
    (hk : ∀ answer, Reacted sealedBytes opens honest w op answer w → Reads sealedBytes opens honest base P (k answer) w) :
    Reads sealedBytes opens honest base P (ask op >>= k) w :=
  follows_read op hop (Op.quiet_of_reads hop) hk

theorem Reads.since {p : Records Blob Wrap α} (h : Reads sealedBytes opens honest w P p w) (hbase : Same base w) :
    Reads sealedBytes opens honest base (fun a w' => Same w w' ∧ P a w') p w :=
  h.mono (fun _ _ _ ⟨hsame, hP⟩ => ⟨hbase.trans hsame, hsame, hP⟩) fun _ _ _ hsame => hbase.trans hsame

variable (hbase : Same base w)

include hbase

theorem reads_load :
    Reads sealedBytes opens honest base (fun env _ => base.stored file = .holds env) (load file) w := by
  refine reads_ask (.load file) rfl fun answer hreact => ?_
  cases answer with
  | ok env => exact reads_pure hbase ((hbase.stored file).symm.trans (stored_of_load hreact))
  | error e => exact reads_throw hbase

theorem reads_seal (secret : Bytes) :
    Reads sealedBytes opens honest base (fun env _ => honest → sealedBytes env.blob = secret) (Tpm.seal secret) w := by
  refine reads_ask (.tpmSeal secret) rfl fun answer hreact => ?_
  cases answer with
  | ok blob => exact reads_pure hbase (sealed_of_seal hreact)
  | error e => exact reads_throw hbase

theorem reads_unseal (mode : UnsealMode) (env : SealedEnvelope Blob Wrap) :
    Reads sealedBytes opens honest base (fun secret _ => honest → secret = sealedBytes env.blob)
      (Tpm.unseal mode env) w := by
  refine reads_ask (.tpmUnseal mode env) rfl fun answer hreact => ?_
  cases answer with
  | ok secret => exact reads_pure hbase (eq_of_unseal hreact)
  | error e => exact reads_throw hbase

theorem reads_wrap (password secret : Bytes) :
    Reads sealedBytes opens honest base (fun wrap _ => honest → Wraps opens wrap password secret)
      (Recovery.wrap password secret) w := by
  refine reads_ask (.wrap password secret) rfl fun answer hreact => ?_
  cases answer with
  | ok wrap => exact reads_pure hbase (wraps_of_wrap hreact)
  | error e => exact reads_throw hbase

theorem reads_unwrap (password : Bytes) (wrap : Wrap) (refusal : Text) :
    Reads sealedBytes opens honest base (fun secret _ => opens password wrap = some secret)
      (Recovery.unwrap opens password wrap refusal) w := by
  unfold Recovery.unwrap
  split
  · next secret hopens => exact reads_pure hbase hopens
  · exact reads_throw hbase

end

/-! ## The account -/

theorem reads_resolution (hbase : Same base w) :
    Reads sealedBytes opens honest base (fun r w' => w'.resolved = some r) (ask .resolution) w := by
  refine ⟨trivial, rfl, fun r w' hreact => ⟨trivial, ?_⟩⟩
  obtain ⟨c, -, hperform⟩ := hreact
  simp only [perform] at hperform
  split at hperform
  · next r' hresolved =>
    cases hperform
    exact ⟨hbase, hresolved⟩
  · next hnone =>
    cases hperform
    exact ⟨hbase.resolve hnone, rfl⟩

theorem reads_require (hbase : Same base w) (record : Record) (recorded : Option Nat) :
    Reads sealedBytes opens honest base (fun _ w' => ∀ u, recorded = some u → w'.resolved = some (.uid u))
      (Account.require user record recorded) w := by
  refine Fallible.Guarded.bind (Q := fun owner w' => Same base w' ∧
    (owner.usable = true → ∀ u, recorded = some u → w'.resolved = some (.uid u))) ?_ ?_
  · unfold Account.owner
    split
    · exact reads_pure hbase fun _ => nofun
    · next recorded =>
      refine (reads_resolution hbase).bind fun resolution w' _ ⟨hsame, hresolved⟩ => ?_
      cases resolution with
      | uid current =>
        refine reads_pure hsame ?_
        split
        · next hcurrent =>
          rintro - u hu
          cases hu
          rw [hresolved, hcurrent]
        · nofun
      | noAccount => exact reads_pure hsame nofun
      | unknown => exact reads_pure hsame nofun
  · rintro owner w' - ⟨hsame, husable⟩
    split
    · next hnone => exact reads_pure hsame (husable (refusalMessage_eq_none_iff.1 hnone))
    · exact reads_throw hsame

theorem reads_uidToRecord (hbase : Same base w) (record : Record) (existing : Option Nat) :
    Reads sealedBytes opens honest base (fun uid w' => (∀ u, existing = some u → uid = some u) ∧
        (existing = none → ∀ u, uid = some u → w'.resolved = some (.uid u)))
      (Account.uidToRecord user record existing) w := by
  refine (reads_resolution hbase).bind fun resolution w' _ ⟨hsame, hresolved⟩ => ?_
  split
  · next uid =>
    refine reads_pure hsame ⟨nofun, fun _ u hu => ?_⟩
    rw [hresolved, Option.some.inj hu]
  · next uid recorded =>
    split
    · exact reads_pure hsame ⟨fun u hu => hu, nofun⟩
    · exact reads_throw hsame
  · exact reads_throw hsame
  · exact reads_pure hsame ⟨nofun, fun _ => nofun⟩
  · exact reads_pure hsame ⟨fun u hu => hu, nofun⟩
  · exact reads_throw hsame

/-! ## Candidates -/

variable {P : α → World Blob Wrap → Prop} {p : Records Blob Wrap α}

theorem reads_attempt (h : Reads sealedBytes opens honest base P p w) :
    Reads sealedBytes opens honest base (fun r w' => ∀ a, r = .ok a → P a w') (Fallible.attempt p) w := by
  refine h.attempt (fun a w' _ ⟨hsame, hP⟩ => ⟨hsame, fun b hb => ?_⟩) (fun e w' _ hsame => ⟨hsame, nofun⟩)
  cases hb
  exact hP

theorem reads_checkRoundTrip (hbase : Same base w) (mode : UnsealMode) (candidate : SealedEnvelope Blob Wrap)
    (secret : Bytes) (mismatch : Text) :
    Reads sealedBytes opens honest base (fun _ _ => True) (checkRoundTrip mode candidate secret mismatch) w := by
  refine (reads_unseal hbase mode candidate).bind fun _ w' _ ⟨hsame, _⟩ => ?_
  split
  · exact reads_throw hsame
  · exact reads_pure hsame trivial

structure TokenUnder (sealedBytes : Blob → Bytes) (opens : Bytes → Wrap → Option Bytes) (token password : Bytes)
    (env : SealedEnvelope Blob Wrap) : Prop where
  holds : HoldsToken sealedBytes opens token env
  opened : ∃ wrap, env.passwordWrap = some wrap ∧ opens password wrap = some token

theorem Wraps.opens_self {wrap : Wrap} {password secret : Bytes} (h : Wraps opens wrap password secret) :
    opens password wrap = some secret := by
  rw [h, if_pos rfl]

theorem reads_freshToken (hbase : Same base w) (token password : Bytes) (uid : Option Nat) :
    Reads sealedBytes opens honest base
      (fun env _ => env.uid = uid ∧ (honest → TokenUnder sealedBytes opens token password env))
      (freshToken token password uid) w := by
  refine (reads_seal hbase token).bind fun fresh w' _ ⟨hsame, hsealed⟩ => ?_
  refine (reads_wrap hsame password token).bind fun wrap w'' _ ⟨hsame, hwraps⟩ => ?_
  refine reads_pure hsame ⟨rfl, fun hhonest => ?_⟩
  exact {
    holds := { kind := rfl, sealed := hsealed hhonest, wrapped := ⟨wrap, password, rfl, hwraps hhonest⟩ }
    opened := ⟨wrap, rfl, (hwraps hhonest).opens_self⟩ }

/-- The kind and the wrap are carried over, and so is the uid. -/
structure Climbed (sealedBytes : Blob → Bytes) (honest : Prop) (token : Bytes) (env candidate : SealedEnvelope Blob Wrap) :
    Prop where
  uid : ∀ u, env.uid = some u → candidate.uid = some u
  kind : candidate.secret = .gnomeKeyringToken
  wrap : candidate.passwordWrap = env.passwordWrap
  sealed : honest → sealedBytes candidate.blob = token

theorem reads_climbedToken (hbase : Same base w) (env : SealedEnvelope Blob Wrap) (token : Bytes) :
    Reads sealedBytes opens honest base
      (fun r _ => ∀ candidate gain, r = some (candidate, gain) → Climbed sealedBytes honest token env candidate)
      (climbedToken user env token) w := by
  refine reads_ask (.moveAvailable env) rfl fun available _ => ?_
  split
  · exact reads_pure hbase nofun
  refine (reads_attempt (reads_uidToRecord hbase .keyringToken env.uid)).bind fun uid w' _ ⟨hsame, huid⟩ => ?_
  cases uid with
  | error e => exact reads_pure hsame nofun
  | ok uid =>
    refine (reads_seal hsame token).bind fun candidate w'' _ ⟨hsame, hsealed⟩ => ?_
    refine reads_ask (.moveGain _ env) rfl fun gain _ => ?_
    cases gain with
    | none => exact reads_pure hsame nofun
    | some gain =>
      refine (reads_checkRoundTrip hsame _ _ _ _).bind fun _ w''' _ ⟨hsame, _⟩ => ?_
      refine reads_pure hsame fun candidate' gain' heq => ?_
      cases heq
      exact { uid := (huid uid rfl).1, kind := rfl, wrap := rfl, sealed := hsealed }

theorem reads_deriveSecret (hbase : Same base w) (kind : SecretKind) (password : Bytes) (walletSalt : Option Bytes) :
    Reads sealedBytes opens honest base (fun _ _ => True) (deriveSecret kind password walletSalt) w := by
  unfold deriveSecret
  split
  · exact reads_pure hbase trivial
  · next salt =>
    refine reads_ask (.deriveKey password salt) rfl fun answer _ => ?_
    cases answer with
    | ok secret => exact reads_pure hbase trivial
    | error e => exact reads_throw hbase
  · exact reads_throw hbase
  · exact reads_throw hbase

theorem reads_unsealSecretAs (hbase : Same base w) :
    Reads sealedBytes opens honest base (fun _ w' => ∀ u, base.Carries .keyring u → w'.resolved = some (.uid u))
      (unsealSecretAs user) w := by
  refine reads_ask (.pathExists .keyring) rfl fun there _ => ?_
  split
  · exact reads_throw hbase
  refine (reads_load hbase).bind fun env w' _ ⟨hsame, hstored⟩ => ?_
  refine (reads_require hsame _ _).bind fun _ w'' _ ⟨hsame, hrequired⟩ => ?_
  refine ((reads_unseal (.refl _) .initializing env).since hsame).bind fun _ w''' _ ⟨hsame, hsince, _⟩ => ?_
  refine reads_pure hsame fun u hcarries => hsince.resolved _ (hrequired u ?_)
  exact hcarries.uid_eq hstored

/-! ## Parts that write -/

/-- A part of which nothing is asked when it fails. -/
abbrev Proceeds (sealedBytes : Blob → Bytes) (opens : Bytes → Wrap → Option Bytes) (honest : Prop)
    (Q : α → World Blob Wrap → Prop) (p : Records Blob Wrap α) (w : World Blob Wrap) : Prop :=
  Follows sealedBytes opens honest (Proper sealedBytes opens honest) (fun _ _ => True) Q p w

theorem proper_of_quiet {op : Op Blob Wrap} (hop : op.quiet = true) : Proper sealedBytes opens honest w op := by
  cases op with
  | publish file env | reply call returned | mintGnomeToken => cases hop
  | _ => trivial

/-- A part that writes nothing, among the calls that `G` asks for. -/
theorem Reads.guards {G : World Blob Wrap → Op Blob Wrap → Prop}
    (h : Reads sealedBytes opens honest base P p w)
    (hG : ∀ w op, op.quiet = true → G w op) :
    Follows sealedBytes opens honest G (fun _ _ => True) (fun a w' => Same base w' ∧ P a w') p w :=
  (Fallible.Guarded.weaken h (fun _ _ => trivial) fun w op _ => hG w op).mono (fun _ _ _ h => h.2) fun _ _ _ _ => trivial

theorem Reads.proceeds (h : Reads sealedBytes opens honest base P p w) :
    Proceeds sealedBytes opens honest (fun a w' => Same base w' ∧ P a w') p w :=
  h.guards fun _ _ => proper_of_quiet

variable {Q : α → World Blob Wrap → Prop}

theorem proceeds_ask {E : Error → World Blob Wrap → Prop} (op : Op Blob Wrap)
    (hop : op.reads = true) {k : Answer op → Records Blob Wrap α}
    (hk : ∀ answer, Reacted sealedBytes opens honest w op answer w →
      Follows sealedBytes opens honest (Proper sealedBytes opens honest) E Q (k answer) w) :
    Follows sealedBytes opens honest (Proper sealedBytes opens honest) E Q (ask op >>= k) w :=
  follows_read op hop (proper_of_quiet (Op.quiet_of_reads hop)) hk

theorem proceeds_throw {e : Error} :
    Proceeds sealedBytes opens honest Q (throw e) w :=
  follows_throw trivial

theorem proceeds_throw_bind {Q : β → World Blob Wrap → Prop} {e : Error} {k : α → Records Blob Wrap β} :
    Proceeds sealedBytes opens honest Q (throw e >>= k) w :=
  ⟨trivial, trivial⟩

section

variable (hkept : Kept sealedBytes opens honest w file env)

include hkept

theorem follows_publishMove :
    Follows sealedBytes opens honest (Proper sealedBytes opens honest) (fun _ w' => w' = w) (fun _ w' => w' = w.store file env)
      (publishMove file env) w := by
  refine follows_ask (.publish file env) hkept fun answer w' hreact => ?_
  cases answer with
  | ok written =>
    obtain ⟨-, rfl⟩ | ⟨hfailed, -⟩ := published hreact
    · exact follows_pure rfl
    · cases hfailed
  | error e =>
    obtain ⟨hok, -⟩ | ⟨-, rfl⟩ := published hreact
    · cases hok
    · exact follows_throw rfl

theorem proceeds_publishMove :
    Proceeds sealedBytes opens honest (fun _ w' => w' = w.store file env) (publishMove file env) w :=
  (follows_publishMove hkept).mono (fun _ _ _ h => h) fun _ _ _ _ => trivial

theorem proceeds_saveEnvelope :
    Proceeds sealedBytes opens honest (fun _ w' => w' = w.store file env) (saveEnvelope file env) w := by
  refine follows_ask (.publish file env) hkept fun answer w' hreact => ?_
  cases answer with
  | ok written =>
    obtain ⟨-, rfl⟩ | ⟨hfailed, -⟩ := published hreact
    · cases written with
      | durable => exact follows_pure rfl
      | visibleNotDurable e => exact proceeds_throw
    · cases hfailed
  | error e => exact proceeds_throw

end

theorem kept_of_stored {current : SealedEnvelope Blob Wrap} (hstored : w.stored file = .holds current)
    (huid : ∀ u, current.uid = some u → env.uid = some u)
    (htoken : honest → file = .keyring → ∀ token, HoldsToken sealedBytes opens token current →
      HoldsToken sealedBytes opens token env) : Kept sealedBytes opens honest w file env where
  bound u hcarries := huid u (hcarries.uid_eq hstored)
  token hhonest hfile token harmed := by
    subst hfile
    obtain ⟨current', hcurrent, hholds⟩ := harmed
    obtain rfl := Stored.holds.inj (hstored.symm.trans hcurrent)
    exact htoken hhonest rfl token hholds

theorem proceeds_newAccount {k : Unit → Records Blob Wrap α}
    (hk : Proceeds sealedBytes opens honest Q (k ()) { w with resolved := none }) :
    Proceeds sealedBytes opens honest Q (ask .newAccount >>= k) w := by
  refine follows_ask .newAccount trivial fun _ w' hreact => ?_
  obtain ⟨c, -, hperform⟩ := hreact
  obtain rfl := (Prod.mk.inj (Option.some.inj hperform)).2
  exact hk

@[simp] theorem stored_newAccount (w : World Blob Wrap) (file : File) :
    ({ w with resolved := none } : World Blob Wrap).stored file = w.stored file := by
  cases file <;> rfl

/-! ## The keyring envelope -/

def Resealed (sealedBytes : Blob → Bytes) (opens : Bytes → Wrap → Option Bytes) (honest : Prop) (password : Bytes)
    (w : World Blob Wrap) : Prop :=
  honest → ∀ token, Armed sealedBytes opens token w → OpensUnder opens token password w

variable {password token : Bytes}

theorem resealed_of_stored (hstored : w.stored .keyring = .holds env)
    (hsealed : honest → sealedBytes env.blob = token)
    (hopened : honest → ∃ wrap, env.passwordWrap = some wrap ∧ opens password wrap = some token) :
    Resealed sealedBytes opens honest password w := by
  rintro hhonest token' ⟨env', hstored', hholds⟩
  obtain rfl := Stored.holds.inj (hstored.symm.trans hstored')
  obtain ⟨wrap, hwrap, hopens⟩ := hopened hhonest
  obtain rfl : token = token' := (hsealed hhonest).symm.trans hholds.sealed
  exact ⟨env, wrap, hstored, hwrap, hopens⟩

variable {password : Bytes}

theorem resealed_of_kind (hstored : w.stored .keyring = .holds env)
    (hkind : env.secret ≠ .gnomeKeyringToken) : Resealed sealedBytes opens honest password w := by
  rintro - token ⟨env', hstored', hholds⟩
  obtain rfl := Stored.holds.inj (hstored.symm.trans hstored')
  exact absurd hholds.kind hkind

theorem proceeds_recordUidOnUnbound (hstored : w.stored .keyring = .holds env) :
    Proceeds sealedBytes opens honest (fun _ w' => ∃ uid, w'.stored .keyring = .holds { env with uid })
      (recordUidOnUnbound user env) w := by
  unfold recordUidOnUnbound
  split
  · exact follows_pure ⟨env.uid, hstored⟩
  next hunbound =>
  have hnone : env.uid = none := by simpa using hunbound
  refine (reads_attempt (reads_uidToRecord (.refl w) _ none)).proceeds.bind fun uid w' _ ⟨hsame, _⟩ => ?_
  have hstored' : w'.stored .keyring = .holds env := (hsame.stored _).trans hstored
  rcases uid with e | _ | uid
  · exact follows_pure ⟨env.uid, hstored'⟩
  · exact follows_pure ⟨env.uid, hstored'⟩
  · have hkept : Kept sealedBytes opens honest w' .keyring { env with uid := some uid } :=
      kept_of_stored hstored' (fun u hu => by rw [hnone] at hu; cases hu) fun _ _ token hholds =>
        ⟨hholds.kind, hholds.sealed, hholds.wrapped⟩
    refine (proceeds_saveEnvelope hkept).mono (fun _ w'' _ hstore => ⟨some uid, ?_⟩) fun _ _ _ h => h
    rw [hstore, World.stored_store_self]

theorem Climbed.holds {token : Bytes} {candidate : SealedEnvelope Blob Wrap}
    (h : Climbed sealedBytes honest token env candidate) (hhonest : honest)
    (hholds : HoldsToken sealedBytes opens token env) : HoldsToken sealedBytes opens token candidate where
  kind := h.kind
  sealed := h.sealed hhonest
  wrapped := h.wrap ▸ hholds.wrapped

theorem proceeds_resealUnsealed (hstored : w.stored .keyring = .holds env)
    (hsealed : honest → token = sealedBytes env.blob) :
    Proceeds sealedBytes opens honest (fun _ => Resealed sealedBytes opens honest password)
      (resealUnsealed opens user password env token) w := by
  have htoken : ∀ token', honest → HoldsToken sealedBytes opens token' env → token' = token := fun token' hhonest hholds =>
    hholds.sealed.symm.trans (hsealed hhonest).symm
  unfold resealUnsealed
  split
  · next hcurrent =>
    have hopened : ∃ wrap, env.passwordWrap = some wrap ∧ opens password wrap = some token := by
      simpa [Option.any_eq_true] using hcurrent
    refine (reads_climbedToken (.refl w) env token).proceeds.bind fun r w' _ ⟨hsame, hclimbed⟩ => ?_
    have hstored' : w'.stored .keyring = .holds env := (hsame.stored _).trans hstored
    split
    · next stronger gain hclimbed =>
      have hclimbed := hclimbed stronger gain rfl
      have hkept : Kept sealedBytes opens honest w' .keyring stronger :=
        kept_of_stored hstored' hclimbed.uid fun hhonest _ token' hholds => by
          obtain rfl := htoken token' hhonest hholds
          exact hclimbed.holds hhonest hholds
      refine (proceeds_publishMove hkept).bind fun _ w'' _ hstore => ?_
      refine follows_pure (resealed_of_stored (hstore ▸ World.stored_store_self ..) hclimbed.sealed fun _ => ?_)
      rw [hclimbed.wrap]
      exact hopened
    · refine (proceeds_recordUidOnUnbound hstored').bind fun _ w'' _ ⟨uid, hstored''⟩ => ?_
      exact follows_pure (resealed_of_stored hstored'' (fun hhonest => (hsealed hhonest).symm) fun _ => hopened)
  · refine (reads_wrap (.refl w) password token).proceeds.bind fun wrap w₁ _ ⟨hsame₁, hwraps⟩ => ?_
    refine (reads_uidToRecord hsame₁ .keyringToken env.uid).proceeds.bind fun uid w₂ _ ⟨hsame₂, huid, _⟩ => ?_
    -- The refreshed envelope, and what is written in the same write.
    let refreshed : SealedEnvelope Blob Wrap := { env with passwordWrap := some wrap, uid }
    have hrefreshed : ∀ token', honest → HoldsToken sealedBytes opens token' env →
        HoldsToken sealedBytes opens token' refreshed := fun token' hhonest hholds => by
      obtain rfl := htoken token' hhonest hholds
      exact { hholds with wrapped := ⟨wrap, password, rfl, hwraps hhonest⟩ }
    have hopened : honest → ∃ wrap', refreshed.passwordWrap = some wrap' ∧ opens password wrap' = some token :=
      fun hhonest => ⟨wrap, rfl, (hwraps hhonest).opens_self⟩
    refine (reads_attempt (reads_climbedToken hsame₂ refreshed token)).proceeds.bind fun r w₃ _ ⟨hsame₃, hclimbed⟩ => ?_
    have hstored₃ : w₃.stored .keyring = .holds env := (hsame₃.stored _).trans hstored
    dsimp only
    split
    · next stronger gain hclimbed =>
      have hclimbed := hclimbed _ rfl stronger gain rfl
      have hkept : Kept sealedBytes opens honest w₃ .keyring stronger :=
        kept_of_stored hstored₃ (fun u hu => hclimbed.uid u (huid u hu)) fun hhonest _ token' hholds => by
          obtain rfl := htoken token' hhonest hholds
          exact hclimbed.holds hhonest (hrefreshed _ hhonest hholds)
      refine (proceeds_publishMove hkept).bind fun _ w' _ hstore => follows_pure ?_
      exact resealed_of_stored (hstore ▸ World.stored_store_self ..) hclimbed.sealed (hclimbed.wrap ▸ hopened)
    · have hkept : Kept sealedBytes opens honest w₃ .keyring refreshed :=
        kept_of_stored hstored₃ huid fun hhonest _ token' hholds => hrefreshed token' hhonest hholds
      refine (proceeds_saveEnvelope hkept).bind fun _ w' _ hstore => follows_pure ?_
      have hstored' : w'.stored .keyring = .holds refreshed := hstore ▸ World.stored_store_self ..
      exact resealed_of_stored hstored' (fun hhonest => (hsealed hhonest).symm) hopened

theorem HoldsToken.eq_of_opens {token secret password : Bytes} {wrap : Wrap}
    (h : HoldsToken sealedBytes opens token env) (hwrap : env.passwordWrap = some wrap)
    (hopens : opens password wrap = some secret) : secret = token := by
  obtain ⟨wrap', password', hwrap', hwraps⟩ := h.wrapped
  cases hwrap.symm.trans hwrap'
  rw [hwraps] at hopens
  split at hopens
  · exact (Option.some.inj hopens).symm
  · cases hopens

structure Rebuilt (sealedBytes : Blob → Bytes) (opens : Bytes → Wrap → Option Bytes) (honest : Prop) (password : Bytes)
    (uid : Option Nat) (w w' : World Blob Wrap) : Prop where
  resolved : ∀ r, w.resolved = some r → w'.resolved = some r
  carries : ∀ u, w'.Carries .keyring u → uid = some u
  resealed : Resealed sealedBytes opens honest password w'

section

variable (hstored : w.stored .keyring = .holds env)

include hstored

theorem proceeds_rebuild {uid : Option Nat}
    {k : Records Blob Wrap α}
    (htoken : honest → ∀ token', HoldsToken sealedBytes opens token' env → token' = token)
    (huid : ∀ u, env.uid = some u → uid = some u)
    (hk : ∀ w', Rebuilt sealedBytes opens honest password uid w w' → Proceeds sealedBytes opens honest Q k w') :
    Proceeds sealedBytes opens honest Q
      (do
        let fresh ← freshToken token password uid
        saveEnvelope .keyring fresh
        k) w := by
  refine (reads_freshToken (.refl w) token password uid).proceeds.bind fun fresh w₁ _ ⟨hsame, hfresh, hunder⟩ => ?_
  have hkept : Kept sealedBytes opens honest w₁ .keyring fresh :=
    kept_of_stored ((hsame.stored _).trans hstored) (fun u hu => hfresh.trans (huid u hu)) fun hhonest _ token' hholds => by
      obtain rfl := htoken hhonest token' hholds
      exact (hunder hhonest).holds
  refine (proceeds_saveEnvelope hkept).bind fun _ w₂ _ hstore => hk w₂ ?_
  have hstored' : w₂.stored .keyring = .holds fresh := hstore ▸ World.stored_store_self ..
  refine { resolved := fun r hr => ?_, carries := fun u hu => hfresh.symm.trans (hu.uid_eq hstored'), resealed := ?_ }
  · rw [hstore, World.resolved_store]
    exact hsame.resolved r hr
  · exact resealed_of_stored hstored' (fun hhonest => (hunder hhonest).holds.sealed) fun hhonest =>
      (hunder hhonest).opened

theorem proceeds_resealFromWrap {unsealErr : Error} :
    Proceeds sealedBytes opens honest (fun _ => Resealed sealedBytes opens honest password)
      (resealFromWrap opens user password env unsealErr) w := by
  unfold resealFromWrap
  split
  · exact proceeds_throw
  next wrap hwrap =>
  refine (reads_unwrap (.refl w) password wrap _).proceeds.bind fun token w₁ _ ⟨hsame₁, hopens⟩ => ?_
  refine (reads_uidToRecord hsame₁ .keyringToken env.uid).proceeds.bind fun uid w₂ _ ⟨hsame₂, huid, _⟩ => ?_
  exact proceeds_rebuild ((hsame₂.stored _).trans hstored)
    (fun _ token' hholds => (hholds.eq_of_opens hwrap hopens).symm) huid fun w' hrebuilt => follows_pure hrebuilt.resealed

theorem proceeds_resealToken :
    Proceeds sealedBytes opens honest (fun _ => Resealed sealedBytes opens honest password)
      (resealToken opens user password env) w := by
  refine proceeds_ask (.tpmUnseal .initializing env) rfl fun answer hreact => ?_
  cases answer with
  | ok token => exact proceeds_resealUnsealed hstored (eq_of_unseal hreact)
  | error e => exact proceeds_resealFromWrap hstored

theorem proceeds_sealSecretFor {secret : Bytes} {kind : SecretKind}
    (hkind : env.secret ≠ .gnomeKeyringToken) :
    Proceeds sealedBytes opens honest
      (fun _ w' => ∃ env', w'.stored .keyring = .holds env' ∧ env'.secret ≠ .gnomeKeyringToken)
      (sealSecretFor user secret kind env.uid) w := by
  unfold sealSecretFor
  dsimp only
  split
  · exact proceeds_throw_bind
  next htoken =>
  split
  · exact proceeds_throw_bind
  split
  · exact proceeds_throw_bind
  refine (reads_uidToRecord (.refl w) _ env.uid).proceeds.bind fun uid w₁ _ ⟨hsame₁, huid, _⟩ => ?_
  refine (reads_seal hsame₁ secret).proceeds.bind fun fresh w₂ _ ⟨hsame₂, _⟩ => ?_
  have hkept : Kept sealedBytes opens honest w₂ .keyring { fresh with secret := kind, uid } :=
    kept_of_stored ((hsame₂.stored _).trans hstored) huid fun _ _ token hholds => absurd hholds.kind hkind
  refine (proceeds_saveEnvelope hkept).mono (fun _ w' _ hstore => ?_) fun _ _ _ h => h
  exact ⟨_, hstore ▸ World.stored_store_self .., htoken⟩

theorem proceeds_resealCurrent {secret : Bytes}
    (hkind : env.secret ≠ .gnomeKeyringToken) :
    Proceeds sealedBytes opens honest
      (fun _ w' => ∃ env', w'.stored .keyring = .holds env' ∧ env'.secret ≠ .gnomeKeyringToken)
      (resealCurrent user env.secret secret) w := by
  refine proceeds_ask (.load .keyring) rfl fun answer hreact => ?_
  cases answer with
  | error e => exact follows_pure ⟨env, hstored, hkind⟩
  | ok current =>
    obtain rfl := Stored.holds.inj (hstored.symm.trans (stored_of_load hreact))
    have hunbound : ∀ {w'}, Same w w' → Proceeds sealedBytes opens honest
        (fun _ w' => ∃ env', w'.stored .keyring = .holds env' ∧ env'.secret ≠ .gnomeKeyringToken)
        (do
          recordUidOnUnbound user env
          return Reseal.unchanged) w' := fun hsame =>
      (proceeds_recordUidOnUnbound ((hsame.stored _).trans hstored)).bind fun _ _ _ ⟨_, hstored'⟩ =>
        follows_pure ⟨_, hstored', hkind⟩
    refine proceeds_ask (.moveAvailable env) rfl fun available _ => ?_
    cases available with
    | false => exact hunbound (.refl w)
    | true =>
      refine (reads_attempt (reads_uidToRecord (.refl w) _ env.uid)).proceeds.bind fun r w₁ _ ⟨hsame₁, huid⟩ => ?_
      cases r with
      | error e => exact hunbound hsame₁
      | ok uid =>
        refine (reads_seal hsame₁ secret).proceeds.bind fun candidate w₂ _ ⟨hsame₂, _⟩ => ?_
        refine proceeds_ask (.moveGain _ env) rfl fun gain _ => ?_
        cases gain with
        | none => exact hunbound hsame₂
        | some gain =>
          refine (reads_checkRoundTrip hsame₂ _ _ _ _).proceeds.bind fun _ w₃ _ ⟨hsame₃, _⟩ => ?_
          have hkept : Kept sealedBytes opens honest w₃ .keyring { candidate with secret := env.secret, uid } :=
            kept_of_stored ((hsame₃.stored _).trans hstored) (huid uid rfl).1 fun _ _ token hholds =>
              absurd hholds.kind hkind
          refine (proceeds_publishMove hkept).bind fun _ w' _ hstore => follows_pure ?_
          exact ⟨{ candidate with secret := env.secret, uid }, hstore ▸ World.stored_store_self .., hkind⟩

end

theorem proceeds_resealPassword {walletSalt : Option Bytes} :
    Proceeds sealedBytes opens honest (fun _ => Resealed sealedBytes opens honest password)
      (resealPassword opens user password walletSalt) w := by
  unfold resealPassword
  dsimp only
  split
  · exact proceeds_throw_bind
  refine proceeds_ask (.pathExists .keyring) rfl fun there hthere => ?_
  split
  · next hnone =>
    -- Nothing is there, so no token is either.
    obtain rfl : there = false := by simpa using hnone
    refine follows_pure fun _ token ⟨env, hstored, _⟩ => ?_
    cases (missing_of_pathExists hthere).symm.trans hstored
  refine (reads_load (.refl w)).proceeds.bind fun env w₁ _ ⟨hsame₁, hstored⟩ => ?_
  refine proceeds_newAccount ?_
  have hstored₁ : ({ w₁ with resolved := none } : World Blob Wrap).stored .keyring = .holds env :=
    (stored_newAccount w₁ .keyring).trans ((hsame₁.stored _).trans hstored)
  refine (reads_require (.refl _) _ _).proceeds.bind fun _ w₂ _ ⟨hsame₂, _⟩ => ?_
  have hstored₂ : w₂.stored .keyring = .holds env := (hsame₂.stored _).trans hstored₁
  split
  · exact proceeds_resealToken hstored₂
  next hkind =>
  have hresealed : ∀ {w' : World Blob Wrap},
      (∃ env', w'.stored .keyring = .holds env' ∧ env'.secret ≠ .gnomeKeyringToken) →
        Resealed sealedBytes opens honest password w' := fun ⟨_, hstored', hkind'⟩ => resealed_of_kind hstored' hkind'
  refine (reads_attempt (reads_deriveSecret (.refl w₂) _ _ _)).proceeds.bind fun r w₃ _ ⟨hsame₃, _⟩ => ?_
  cases r with
  | error e => exact proceeds_throw
  | ok secret =>
    refine (reads_attempt (reads_unsealSecretAs hsame₃)).proceeds.bind fun r w₄ _ ⟨hsame₄, _⟩ => ?_
    have hstored₄ : w₄.stored .keyring = .holds env := (hsame₄.stored _).trans hstored₂
    have hseal : Proceeds sealedBytes opens honest (fun _ => Resealed sealedBytes opens honest password)
        (do
          sealSecretFor user secret env.secret env.uid
          return Reseal.resealed) w₄ :=
      (proceeds_sealSecretFor hstored₄ hkind).bind fun _ w' _ h => follows_pure (hresealed h)
    cases r with
    | error e => exact hseal
    | ok current =>
      dsimp only
      split
      · exact (proceeds_resealCurrent hstored₄ hkind).mono (fun _ _ _ h => hresealed h) fun _ _ _ h => h
      · exact hseal

def Resolved (file : File) (w : World Blob Wrap) : Prop := ∀ u, w.Carries file u → w.resolved = some (.uid u)

theorem Same.resolved_of (h : Same base w) (hbase : Resolved file base) : Resolved file w := fun u hcarries => by
  obtain ⟨env, hstored, huid⟩ := hcarries
  exact h.resolved _ (hbase u ⟨env, (h.stored file).symm.trans hstored, huid⟩)

theorem resolved_of_require (hstored : w.stored file = .holds env)
    (h : ∀ u, env.uid = some u → w.resolved = some (.uid u)) : Resolved file w := fun u hcarries =>
  h u (hcarries.uid_eq hstored)

theorem proceeds_rearmGnomeToken :
    Proceeds sealedBytes opens honest
      (fun _ w' => Resolved .keyring w' ∧ Resealed sealedBytes opens honest password w')
      (rearmGnomeToken opens user password) w := by
  refine (reads_load (.refl w)).proceeds.bind fun env w₁ _ ⟨hsame₁, hstored⟩ => ?_
  refine proceeds_newAccount ?_
  have hstored₁ : ({ w₁ with resolved := none } : World Blob Wrap).stored .keyring = .holds env :=
    (stored_newAccount w₁ .keyring).trans ((hsame₁.stored _).trans hstored)
  refine (reads_require (.refl _) _ _).proceeds.bind fun _ w₂ _ ⟨hsame₂, hrequired⟩ => ?_
  have hstored₂ : w₂.stored .keyring = .holds env := (hsame₂.stored _).trans hstored₁
  dsimp only
  split
  · exact proceeds_throw_bind
  have hrest : ∀ token, (honest → ∀ token', HoldsToken sealedBytes opens token' env → token' = token) →
      Proceeds sealedBytes opens honest
        (fun _ w' => Resolved .keyring w' ∧ Resealed sealedBytes opens honest password w')
        (do
          let uid ← Account.uidToRecord user .keyringToken env.uid
          let fresh ← freshToken token password uid
          saveEnvelope .keyring fresh
          return token) w₂ := by
    intro token htoken
    refine (reads_uidToRecord (.refl w₂) .keyringToken env.uid).proceeds.bind fun uid w₃ _ ⟨hsame₃, huid, hnew⟩ => ?_
    refine proceeds_rebuild ((hsame₃.stored _).trans hstored₂) htoken huid fun w₄ hrebuilt => ?_
    refine follows_pure ⟨fun u hcarries => hrebuilt.resolved _ ?_, hrebuilt.resealed⟩
    have hu := hrebuilt.carries u hcarries
    cases hold : env.uid with
    | none => exact hnew hold u hu
    | some v =>
      obtain rfl : v = u := Option.some.inj ((huid v hold).symm.trans hu)
      exact hsame₃.resolved _ (hrequired v hold)
  refine proceeds_ask (.tpmUnseal .initializing env) rfl fun answer hreact => ?_
  cases answer with
  | ok token => exact hrest token fun hhonest token' hholds => hholds.sealed.symm.trans (eq_of_unseal hreact hhonest).symm
  | error unsealErr =>
    cases hwrap : env.passwordWrap with
    | none => exact proceeds_throw_bind
    | some wrap =>
      dsimp only
      unfold Recovery.unwrap
      split
      · next token hopens => exact hrest token fun _ token' hholds => (hholds.eq_of_opens hwrap hopens).symm
      · exact proceeds_throw_bind

theorem proceeds_unsealSecret :
    Proceeds sealedBytes opens honest (fun _ => Resolved .keyring) (unsealSecret user) w := by
  refine proceeds_newAccount ?_
  refine (reads_unsealSecretAs (.refl _)).proceeds.mono (fun _ w' _ ⟨hsame, hresolved⟩ u hcarries => ?_) fun _ _ _ h => h
  obtain ⟨env, hstored, huid⟩ := hcarries
  exact hresolved u ⟨env, (hsame.stored _).symm.trans hstored, huid⟩

theorem proceeds_releaseTokenWithPassword :
    Proceeds sealedBytes opens honest (fun _ => Resolved .keyring) (releaseTokenWithPassword opens user password) w := by
  refine proceeds_ask (.pathExists .keyring) rfl fun there _ => ?_
  split
  · exact proceeds_throw_bind
  refine (reads_load (.refl w)).proceeds.bind fun env w₁ _ ⟨hsame₁, hstored⟩ => ?_
  refine proceeds_newAccount ?_
  have hstored₁ : ({ w₁ with resolved := none } : World Blob Wrap).stored .keyring = .holds env :=
    (stored_newAccount w₁ .keyring).trans ((hsame₁.stored _).trans hstored)
  refine (reads_require (.refl _) _ _).proceeds.bind fun _ w₂ _ ⟨hsame₂, hrequired⟩ => ?_
  have hresolved : Resolved .keyring w₂ := resolved_of_require ((hsame₂.stored _).trans hstored₁) hrequired
  dsimp only
  split
  · exact proceeds_throw_bind
  split
  · exact proceeds_throw
  · exact (reads_unwrap (.refl w₂) password _ _).proceeds.mono (fun _ _ _ ⟨hsame, _⟩ => hsame.resolved_of hresolved)
      fun _ _ _ h => h

/-! ## The template key -/

variable {key : Bytes}

theorem proceeds_moveBestEffort {mode : UnsealMode} (hstored : w.stored .templateKey = .holds env)
    {E : Error → World Blob Wrap → Prop} :
    Follows sealedBytes opens honest (Proper sealedBytes opens honest) E
      (fun _ w' => (∀ r, w.resolved = some r → w'.resolved = some r) ∧
        ∀ u, w'.Carries .templateKey u → env.uid = some u) (moveBestEffort mode env key) w := by
  have hsettled : ∀ {w'}, Same w w' → Follows sealedBytes opens honest (Proper sealedBytes opens honest) E
      (fun _ w' => (∀ r, w.resolved = some r → w'.resolved = some r) ∧
        ∀ u, w'.Carries .templateKey u → env.uid = some u) (pure ()) w' := fun hsame =>
    follows_pure ⟨hsame.resolved, fun u hcarries => hcarries.uid_eq ((hsame.stored _).trans hstored)⟩
  refine proceeds_ask (.moveAvailable env) rfl fun available _ => ?_
  split
  · exact hsettled (.refl w)
  have hattempt : ∀ {β : Type} {P : β → World Blob Wrap → Prop} {p : Records Blob Wrap β} {w'},
      Reads sealedBytes opens honest w P p w' →
        Follows sealedBytes opens honest (Proper sealedBytes opens honest) E (fun _ w' => Same w w') (Fallible.attempt p) w' := fun h =>
    (Fallible.Guarded.weaken h (fun _ _ => trivial) fun _ _ _ => proper_of_quiet).attempt (fun _ _ _ h => h.2.1)
      fun _ _ _ h => h.2
  refine (hattempt (reads_seal (.refl w) key)).bind fun r w₁ _ hsame₁ => ?_
  cases r with
  | error e => exact hsettled hsame₁
  | ok candidate =>
    let moved : SealedEnvelope Blob Wrap := { candidate with uid := env.uid }
    refine proceeds_ask (.moveGain moved env) rfl fun gain _ => ?_
    cases gain with
    | none => exact hsettled hsame₁
    | some gain =>
      refine (hattempt (reads_checkRoundTrip hsame₁ mode moved key templateKeyMismatch)).bind fun r w₂ _ hsame₂ => ?_
      cases r with
      | error e => exact hsettled hsame₂
      | ok _ =>
        have hkept : Kept sealedBytes opens honest w₂ .templateKey moved :=
          kept_of_stored ((hsame₂.stored _).trans hstored) (fun u hu => hu) fun _ => nofun
        have hpublish : Follows sealedBytes opens honest (Proper sealedBytes opens honest) E (fun _ w' => w' = w₂.store .templateKey moved ∨ w' = w₂)
            (Fallible.attempt (publishMove .templateKey moved)) w₂ :=
          (follows_publishMove hkept).attempt (fun _ _ _ h => .inl h) fun _ _ _ h => .inr h
        refine hpublish.bind fun r w₃ _ hpublished => ?_
        rcases hpublished with rfl | rfl
        · refine follows_pure ⟨fun r hr => ?_, fun u hcarries => ?_⟩
          · rw [World.resolved_store]
            exact hsame₂.resolved r hr
          · have huid : moved.uid = some u := hcarries.uid_eq (World.stored_store_self w₂ .templateKey moved)
            exact huid
        · exact hsettled hsame₂

theorem proceeds_loadKeyWith {policy : KeyLoadPolicy} :
    Proceeds sealedBytes opens honest (fun _ => Resolved .templateKey) (loadKeyWith user policy) w := by
  refine proceeds_ask (.pathExists .templateKey) rfl fun there _ => ?_
  dsimp only
  split
  · exact proceeds_throw_bind
  refine (reads_load (.refl w)).proceeds.bind fun env w₁ _ ⟨hsame₁, hstored⟩ => ?_
  refine (reads_require hsame₁ _ _).proceeds.bind fun _ w₂ _ ⟨hsame₂, hrequired⟩ => ?_
  refine (reads_unseal (.refl w₂) _ env).proceeds.bind fun key w₃ _ ⟨hsame₃, _⟩ => ?_
  have hstored₃ : w₃.stored .templateKey = .holds env := (hsame₃.stored _).trans ((hsame₂.stored _).trans hstored)
  have hresolved : ∀ u, env.uid = some u → w₃.resolved = some (.uid u) := fun u hu =>
    hsame₃.resolved _ (hrequired u hu)
  split
  · refine (proceeds_moveBestEffort hstored₃).bind fun _ w₄ _ ⟨hkept, hcarried⟩ => follows_pure fun u hcarries => ?_
    exact hkept _ (hresolved u (hcarried u hcarries))
  · exact follows_pure (resolved_of_require hstored₃ hresolved)

theorem proceeds_moveWith : Proceeds sealedBytes opens honest (fun _ _ => True) (moveWith user) w := by
  refine (reads_load (.refl w)).proceeds.bind fun env w₁ _ ⟨hsame₁, hstored⟩ => ?_
  refine proceeds_ask (.moveAvailable env) rfl fun available _ => ?_
  split
  · exact follows_pure trivial
  refine proceeds_newAccount ?_
  have hstored₁ : ({ w₁ with resolved := none } : World Blob Wrap).stored .templateKey = .holds env :=
    (stored_newAccount w₁ .templateKey).trans ((hsame₁.stored _).trans hstored)
  refine (reads_require (.refl _) _ _).proceeds.bind fun _ w₂ _ ⟨hsame₂, _⟩ => ?_
  refine (reads_unseal hsame₂ .move env).proceeds.bind fun key w₃ _ ⟨hsame₃, _⟩ => ?_
  refine (reads_seal hsame₃ key).proceeds.bind fun candidate w₄ _ ⟨hsame₄, _⟩ => ?_
  refine proceeds_ask (.moveGain _ env) rfl fun gain _ => ?_
  cases gain with
  | none => exact follows_pure trivial
  | some gain =>
    refine (reads_checkRoundTrip hsame₄ _ _ _ _).proceeds.bind fun _ w₅ _ ⟨hsame₅, _⟩ => ?_
    have hkept : Kept sealedBytes opens honest w₅ .templateKey { candidate with uid := env.uid } :=
      kept_of_stored ((hsame₅.stored _).trans hstored₁) (fun u hu => hu) fun _ => nofun
    exact (proceeds_publishMove hkept).bind fun _ _ _ _ => follows_pure trivial

theorem proceeds_moveKeptKeyWith :
    Proceeds sealedBytes opens honest (fun _ _ => True) (moveKeptKeyWith key) w := by
  refine proceeds_ask (.load .templateKey) rfl fun answer hreact => ?_
  cases answer with
  | error e => exact follows_pure trivial
  | ok env => exact (proceeds_moveBestEffort (stored_of_load hreact)).mono (fun _ _ _ _ => trivial) fun _ _ _ h => h

theorem proceeds_resealKey :
    Proceeds sealedBytes opens honest (fun _ _ => True) (resealKey user key) w := by
  refine proceeds_ask .lockUserState rfl fun answer _ => ?_
  cases answer with
  | error e => exact proceeds_throw_bind
  | ok _ =>
    refine proceeds_ask (.load .templateKey) rfl fun answer hreact => ?_
    -- A file that holds no envelope carries no uid.
    have hexisting : ∀ u, w.Carries .templateKey u → answer.toOption.bind SealedEnvelope.uid = some u := by
      rintro u ⟨env, hstored, henv⟩
      rw [load_of_stored hreact hstored]
      exact henv
    refine proceeds_newAccount ?_
    refine (reads_uidToRecord (.refl _) .templateKey _).proceeds.bind fun uid w₁ _ ⟨hsame₁, huid, _⟩ => ?_
    dsimp only
    split
    · exact proceeds_throw_bind
    refine proceeds_ask .createKeyDir rfl fun created _ => ?_
    cases created with
    | error e => exact proceeds_throw_bind
    | ok _ =>
      refine (reads_seal hsame₁ key).proceeds.bind fun fresh w₂ _ ⟨hsame₂, _⟩ => ?_
      have hkept : Kept sealedBytes opens honest w₂ .templateKey { fresh with uid } := {
        bound := fun u ⟨env, hstored, henv⟩ => huid u (hexisting u ⟨env, (hsame₂.stored _).symm.trans hstored, henv⟩)
        token := fun _ => nofun }
      exact (proceeds_saveEnvelope hkept).mono (fun _ _ _ _ => trivial) fun _ _ _ h => h

/-! ## One operation -/

theorem answered_of_error {call : Call} {e : Error} : Answered sealedBytes opens honest w call (.error e) where
  bound := nofun
  keptKey := nofun
  opened _ _ _ := nofun

/-- **Every operation.** Every envelope it publishes keeps what the one before held, and its answer stands on the
account it resolved and on the wrap it left. -/
theorem proceeds_operation {call : Call} (hcall : ∀ password, call ≠ .armGnomeToken password) :
    Proceeds sealedBytes opens honest (fun secret w' => Answered sealedBytes opens honest w' call (.ok secret))
      (operation opens user call) w := by
  cases call with
  | armGnomeToken password => exact absurd rfl (hcall password)
  | rearmGnomeToken password =>
    refine proceeds_rearmGnomeToken.bind fun secret w' _ ⟨hresolved, hresealed⟩ => follows_pure ?_
    refine { bound := fun _ _ => hresolved, keptKey := fun _ _ _ => nofun, opened := fun hhonest password' hpassword _ => ?_ }
    cases hpassword
    exact hresealed hhonest
  | resealPassword password walletSalt =>
    refine proceeds_resealPassword.bind fun _ w' _ hresealed => follows_pure ?_
    refine { bound := nofun, keptKey := nofun, opened := fun hhonest password' hpassword _ => ?_ }
    cases hpassword
    exact hresealed hhonest
  | unsealSecret =>
    exact proceeds_unsealSecret.bind fun _ w' _ hresolved =>
      follows_pure { bound := fun _ _ => hresolved, keptKey := fun _ _ _ => nofun, opened := fun _ => nofun }
  | releaseTokenWithPassword password =>
    exact proceeds_releaseTokenWithPassword.bind fun _ w' _ hresolved =>
      follows_pure { bound := fun _ _ => hresolved, keptKey := fun _ _ _ => nofun, opened := fun _ => nofun }
  | loadKeyWith policy resolved =>
    have hload : ∀ w : World Blob Wrap, Proceeds sealedBytes opens honest
        (fun secret w' => Answered sealedBytes opens honest w' (.loadKeyWith policy resolved) (.ok secret))
        (some <$> loadKeyWith user policy) w := fun w =>
      proceeds_loadKeyWith.bind fun _ w' _ hresolved =>
        follows_pure { bound := fun _ _ => hresolved, keptKey := fun _ _ _ => nofun, opened := fun _ => nofun }
    refine proceeds_newAccount ?_
    cases resolved with
    | true => exact (reads_resolution (.refl _)).proceeds.bind fun _ w' _ _ => hload w'
    | false => exact hload _
  | moveWith => exact proceeds_moveWith.bind fun _ w' _ _ => follows_pure { bound := nofun, keptKey := nofun, opened := fun _ => nofun }
  | moveKeptKeyWith key =>
    exact proceeds_moveKeptKeyWith.bind fun _ w' _ _ => follows_pure { bound := nofun, keptKey := nofun, opened := fun _ => nofun }
  | resealKey key =>
    exact proceeds_resealKey.bind fun _ w' _ _ => follows_pure { bound := nofun, keptKey := nofun, opened := fun _ => nofun }

end Irlume.Sealed

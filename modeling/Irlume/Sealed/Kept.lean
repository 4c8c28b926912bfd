import Irlume.Sealed.Operations

/-!
# What an operation may write, and what it may answer

`Kept` is what an envelope published in the place of another keeps of it: the uid it carries, and, with a TPM that
unseals what was sealed and a wrap that opens under its own password alone, the GNOME keyring token. `Answered` is what
an answer to the caller stands on. Every operation but an arm keeps to both at each of its calls (`guarded_operation`),
from any state of the files and whatever is answered.
-/

namespace Irlume.Sealed

open Irlume.Lib

/-! ## The rules -/

section

variable {Blob Wrap : Type} (sealedBytes : Blob → Bytes) (opens : Bytes → Wrap → Option Bytes)

def Wraps (w : Wrap) (password secret : Bytes) : Prop := ∀ q, opens q w = if q = password then some secret else none

structure HoldsToken (token : Bytes) (env : SealedEnvelope Blob Wrap) : Prop where
  kind : env.secret = .gnomeKeyringToken
  sealed : sealedBytes env.blob = token
  wrapped : ∃ w password, env.passwordWrap = some w ∧ Wraps opens w password token

def Armed (token : Bytes) (w : World Blob Wrap) : Prop :=
  ∃ env, w.keyring = .holds env ∧ HoldsToken sealedBytes opens token env

/-- The choices of a TPM that seals what it is given and unseals what was sealed, and of a wrap that opens under its own
password alone. -/
def Truthful (op : Op Blob Wrap) (c : Choice Blob Wrap) : Prop :=
  match op with
  | .tpmSeal secret => ∀ blob, c.blob = some blob → sealedBytes blob = secret
  | .tpmUnseal _ env => c.bytes = sealedBytes env.blob
  | .wrap password secret => ∀ w, c.wrap = some w → Wraps opens w password secret
  | _ => True

/-- The choices allowed: any, or those of an `honest` TPM and wrap. -/
def Allowed (honest : Prop) (_ : World Blob Wrap) (op : Op Blob Wrap) (c : Choice Blob Wrap) : Prop :=
  honest → Truthful sealedBytes opens op c

/-- What an envelope published keeps of the one it replaces. -/
structure Kept (honest : Prop) (w : World Blob Wrap) (file : File) (env : SealedEnvelope Blob Wrap) : Prop where
  bound : ∀ u, w.Carries file u → env.uid = some u
  token : honest → file = .keyring → ∀ token, Armed sealedBytes opens token w → HoldsToken sealedBytes opens token env

def OpensUnder (token password : Bytes) (w : World Blob Wrap) : Prop :=
  ∃ env wrap, w.keyring = .holds env ∧ env.passwordWrap = some wrap ∧ opens password wrap = some token

def Call.resealsUnder : Call → Option Bytes
  | .rearmGnomeToken password | .resealPassword password _ => some password
  | _ => none

/-- What an answer to the caller stands on. -/
structure Answered (honest : Prop) (w : World Blob Wrap) (call : Call) (returned : Returned) : Prop where
  bound : ∀ secret, returned = .ok (some secret) → ∀ u, w.Carries call.file u → w.resolved = some (.uid u)
  keptKey : ∀ secret, returned = .ok (some secret) → ∀ key, call ≠ .moveKeptKeyWith key
  opened : honest → ∀ password, call.resealsUnder = some password → returned.isOk = true →
    ∀ token, Armed sealedBytes opens token w → OpensUnder opens token password w

def Proper (honest : Prop) (w : World Blob Wrap) : Op Blob Wrap → Prop
  | .publish file env => Kept sealedBytes opens honest w file env
  | .reply call returned => Answered sealedBytes opens honest w call returned
  | .mintGnomeToken => False
  | _ => True

end

variable {Blob Wrap : Type} {sealedBytes : Blob → Bytes} {opens : Bytes → Wrap → Option Bytes} {honest : Prop}
  {α β : Type} {w w' base : World Blob Wrap} {G : World Blob Wrap → Op Blob Wrap → Prop}
  {E : Error → World Blob Wrap → Prop} {file : File}

abbrev Reacted (sealedBytes : Blob → Bytes) (opens : Bytes → Wrap → Option Bytes) (honest : Prop) :
    Program.Reacts (World Blob Wrap) (Op Blob Wrap) Answer :=
  Program.reactsBy perform (Allowed sealedBytes opens honest)

/-- `G` holds of every call, `Q` of a result and `E` of an error. -/
abbrev Follows (sealedBytes : Blob → Bytes) (opens : Bytes → Wrap → Option Bytes) (honest : Prop)
    (G : World Blob Wrap → Op Blob Wrap → Prop) (E : Error → World Blob Wrap → Prop) (Q : α → World Blob Wrap → Prop)
    (p : Records Blob Wrap α) (w : World Blob Wrap) : Prop :=
  Fallible.Guarded (Reacted sealedBytes opens honest) (fun _ => True) G Q E p w

variable {Q : α → World Blob Wrap → Prop} {Q' : β → World Blob Wrap → Prop}

theorem follows_pure {a : α} (h : Q a w) : Follows sealedBytes opens honest G E Q (pure a) w :=
  Fallible.guarded_pure trivial h

theorem follows_throw {e : Error} (h : E e w) : Follows sealedBytes opens honest G E Q (throw e) w :=
  Fallible.guarded_throw trivial h

theorem follows_ask (op : Op Blob Wrap) {k : Answer op → Records Blob Wrap β} (hop : G w op)
    (hk : ∀ answer w', Reacted sealedBytes opens honest w op answer w' →
      Follows sealedBytes opens honest G E Q' (k answer) w') :
    Follows sealedBytes opens honest G E Q' (ask op >>= k) w :=
  ⟨trivial, hop, fun answer w' hreact => hk answer w' hreact⟩

def Op.reads : Op Blob Wrap → Bool
  | .newAccount | .resolution | .publish _ _ | .mintGnomeToken | .reply _ _ => false
  | _ => true

theorem eq_of_reads {op : Op Blob Wrap} {answer : Answer op} (hop : op.reads = true)
    (h : Reacted sealedBytes opens honest w op answer w') : w' = w := by
  obtain ⟨c, -, hperform⟩ := h
  cases op with
  | newAccount | resolution | publish file env | mintGnomeToken | reply call returned => cases hop
  | pathExists file | load file =>
    simp only [perform] at hperform
    split at hperform <;> exact ((Prod.mk.inj (Option.some.inj hperform)).2).symm
  | tpmSeal secret =>
    simp only [perform] at hperform
    split at hperform
    · exact ((Prod.mk.inj (Option.some.inj hperform)).2).symm
    · exact ((Prod.mk.inj (Option.some.inj hperform)).2).symm
    · cases hperform
  | wrap password secret =>
    simp only [perform] at hperform
    split at hperform
    · exact ((Prod.mk.inj (Option.some.inj hperform)).2).symm
    · split at hperform
      · exact ((Prod.mk.inj (Option.some.inj hperform)).2).symm
      · exact ((Prod.mk.inj (Option.some.inj hperform)).2).symm
      · cases hperform
  | _ => exact ((Prod.mk.inj (Option.some.inj hperform)).2).symm

theorem follows_read (op : Op Blob Wrap) (hop : op.reads = true) (hG : G w op) {k : Answer op → Records Blob Wrap β}
    (hk : ∀ answer, Reacted sealedBytes opens honest w op answer w →
      Follows sealedBytes opens honest G E Q' (k answer) w) :
    Follows sealedBytes opens honest G E Q' (ask op >>= k) w := by
  refine follows_ask op hG fun answer w' hreact => ?_
  obtain rfl := eq_of_reads hop hreact
  exact hk answer hreact

/-! ## What the calls answer -/

variable {env : SealedEnvelope Blob Wrap}

theorem stored_of_load
    (h : Reacted sealedBytes opens honest w (.load file) (.ok env) w') : w.stored file = .holds env := by
  obtain ⟨c, -, hperform⟩ := h
  simp only [perform] at hperform
  split at hperform
  · cases hperform
  · cases hperform
  · next env' hstored =>
    obtain rfl := Except.ok.inj (Prod.mk.inj (Option.some.inj hperform)).1
    exact hstored

theorem load_of_stored {answer : Except Error (SealedEnvelope Blob Wrap)}
    (h : Reacted sealedBytes opens honest w (.load file) answer w') (hstored : w.stored file = .holds env) :
    answer = .ok env := by
  obtain ⟨c, -, hperform⟩ := h
  simp only [perform, hstored] at hperform
  exact (Prod.mk.inj (Option.some.inj hperform)).1.symm

theorem missing_of_pathExists (h : Reacted sealedBytes opens honest w (.pathExists file) false w') :
    w.stored file = .missing := by
  obtain ⟨c, -, hperform⟩ := h
  simp only [perform] at hperform
  split at hperform
  · assumption
  · cases hperform
  · cases hperform

theorem sealed_of_seal {secret : Bytes} {blob : Blob}
    (h : Reacted sealedBytes opens honest w (.tpmSeal secret) (.ok blob) w') : honest → sealedBytes blob = secret := by
  obtain ⟨c, hallowed, hperform⟩ := h
  intro hhonest
  simp only [perform] at hperform
  split at hperform
  · cases hperform
  · next hblob =>
    obtain rfl := Except.ok.inj (Prod.mk.inj (Option.some.inj hperform)).1
    exact hallowed hhonest _ hblob
  · cases hperform

theorem Choice.or_eq_ok_iff {c : Choice Blob Wrap} {a b : α} : c.or a = .ok b ↔ c.error = none ∧ a = b := by
  unfold Choice.or
  cases c.error <;> simp

theorem eq_of_unseal {mode : UnsealMode} {secret : Bytes}
    (h : Reacted sealedBytes opens honest w (.tpmUnseal mode env) (.ok secret) w') :
    honest → secret = sealedBytes env.blob := by
  obtain ⟨c, hallowed, hperform⟩ := h
  intro hhonest
  have hok : c.or c.bytes = .ok secret := (Prod.mk.inj (Option.some.inj hperform)).1
  obtain ⟨-, rfl⟩ := Choice.or_eq_ok_iff.1 hok
  exact hallowed hhonest

theorem wraps_of_wrap {password secret : Bytes} {wrap : Wrap}
    (h : Reacted sealedBytes opens honest w (.wrap password secret) (.ok wrap) w') :
    honest → Wraps opens wrap password secret := by
  obtain ⟨c, hallowed, hperform⟩ := h
  intro hhonest
  simp only [perform] at hperform
  split at hperform
  · cases hperform
  split at hperform
  · cases hperform
  · next hwrap =>
    obtain rfl := Except.ok.inj (Prod.mk.inj (Option.some.inj hperform)).1
    exact hallowed hhonest _ hwrap
  · cases hperform

theorem published {answer : Except Error AtomicWrite}
    (h : Reacted sealedBytes opens honest w (.publish file env) answer w') :
    answer.isOk = true ∧ w' = w.store file env ∨ answer.isOk = false ∧ w' = w := by
  obtain ⟨c, -, hperform⟩ := h
  simp only [perform] at hperform
  split at hperform
  · cases hperform
    exact .inr ⟨rfl, rfl⟩
  · cases hperform
    exact .inl ⟨rfl, rfl⟩

theorem reacted_cases {op : Op Blob Wrap} {answer : Answer op} (h : Reacted sealedBytes opens honest w op answer w') :
    (∃ r, w' = { w with resolved := r }) ∨ (op = .mintGnomeToken ∧ ∃ token, w' = { w with minted := some token }) ∨
      ∃ file env, op = .publish file env ∧ w' = w.store file env := by
  cases op with
  | publish file env =>
    obtain ⟨-, rfl⟩ | ⟨-, rfl⟩ := published h
    · exact .inr (.inr ⟨file, env, rfl, rfl⟩)
    · exact .inl ⟨w'.resolved, rfl⟩
  | newAccount | reply call returned =>
    obtain ⟨c, -, hperform⟩ := h
    cases hperform
    exact .inl ⟨_, rfl⟩
  | resolution =>
    obtain ⟨c, -, hperform⟩ := h
    simp only [perform] at hperform
    split at hperform <;> obtain ⟨-, rfl⟩ := Prod.mk.inj (Option.some.inj hperform) <;> exact .inl ⟨_, rfl⟩
  | mintGnomeToken =>
    obtain ⟨c, -, hperform⟩ := h
    cases hperform
    exact .inr (.inl ⟨rfl, c.bytes, rfl⟩)
  | _ =>
    obtain rfl := eq_of_reads rfl h
    exact .inl ⟨w'.resolved, rfl⟩

end Irlume.Sealed

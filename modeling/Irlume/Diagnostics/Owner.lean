import Mathlib.Algebra.GroupWithZero.Nat
import Mathlib.Data.Nat.Basic
import Std.Data.ExtTreeMap

/-!
# Whose history an operation is

The owner of an operation decides who reads it, in the recent events and in live status alike. An account's
work is read by the account and by root.
-/

namespace Irlume.Diagnostics

open Std

/-- An opaque identifier shared by the events of one operation. -/
abbrev OperationId := Vector UInt8 16

inductive Owner where
  /-- Work of root that names no account, and the daemon's own. -/
  | daemon
  | account (uid : Nat)
  /-- Work root started for an account that did not resolve. -/
  | unresolved
  deriving DecidableEq

namespace Owner

def visibleTo (owner : Owner) (peerUid : Nat) : Bool :=
  match owner with
  | .daemon => true
  | .account uid => peerUid = 0 || uid = peerUid
  | .unresolved => peerUid = 0

def isAccount : Owner → Bool
  | .account _ => true
  | _ => false

def account? : Owner → Option Nat
  | .account uid => some uid
  | _ => none

theorem account?_eq_some_iff {owner : Owner} {uid : Nat} : owner.account? = some uid ↔ owner = .account uid := by
  cases owner <;> simp [account?]

def rank : Owner → Nat × Nat
  | .daemon => (0, 0)
  | .account uid => (1, uid)
  | .unresolved => (2, 0)

/-- The derived order. -/
instance : Ord Owner := ⟨compareLex (compareOn fun o => o.rank.1) (compareOn fun o => o.rank.2)⟩

instance : TransOrd Owner := inferInstanceAs (TransCmp (compareLex _ _))

theorem rank_injective : Function.Injective rank := by
  intro a b h
  cases a <;> cases b <;> simp_all [rank]

instance : LawfulEqOrd Owner where
  eq_of_compare {a b} h := by
    obtain ⟨h₁, h₂⟩ := compareLex_eq_eq.1 h
    exact rank_injective (Prod.ext (LawfulEqCmp.eq_of_compare h₁) (LawfulEqCmp.eq_of_compare h₂))

end Owner

end Irlume.Diagnostics

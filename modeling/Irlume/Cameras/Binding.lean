import Irlume.Split.Key
import Mathlib.Data.List.Lex
import Mathlib.Order.Lattice

/-!
# Account bindings and complete keys

`binding_key.rs`: a stored binding is an ordinary pair of identities, either of which may be missing,
or a split pair. What takes part in a choice of camera is its complete key, and complete keys are
ordered by their components, ordinary before split.
-/

namespace Irlume.Cameras

open Irlume.Lib Irlume.Split

/-- A stored binding, the historical partial ordinary one included. -/
inductive PairBinding where
  | ordinary (rgb ir : Option Text)
  | split (key : SplitPairKey)
  deriving DecidableEq

inductive CompletePairKey where
  | ordinary (rgb ir : Text)
  | split (key : SplitPairKey)
  deriving DecidableEq

inductive BindingError where
  | invalidSplitKey
  /-- "split binding component out of bounds" -/
  | outOfBounds
  | notComplete
  deriving DecidableEq

def bounded (text : Text) : Bool := text ≠ [] && byteLength text ≤ 256

def boundedUnit (unit : SplitUnitKey) : Bool :=
  bounded unit.identity && bounded unit.controller && unit.ports.length ≤ 6

def validateSplit (key : SplitPairKey) : Except BindingError Unit :=
  match key.formatCanonical with
  | .error _ => .error .invalidSplitKey
  | .ok _ => if boundedUnit key.rgb && boundedUnit key.ir then .ok () else .error .outOfBounds

def PairBinding.validate : PairBinding → Except BindingError Unit
  | .ordinary _ _ => .ok ()
  | .split key => validateSplit key

def PairBinding.completeKey (b : PairBinding) : Option CompletePairKey :=
  match b.validate with
  | .error _ => none
  | .ok _ =>
    match b with
    | .ordinary (some rgb) (some ir) =>
      if rgb ≠ [] ∧ ir ≠ [] then some (.ordinary rgb ir) else none
    | .ordinary _ _ => none
    | .split key => some (.split key)

def CompletePairKey.validate : CompletePairKey → Except BindingError Unit
  | .ordinary rgb ir => if rgb = [] ∨ ir = [] then .error .notComplete else .ok ()
  | .split key => validateSplit key

def CompletePairKey.isSplit : CompletePairKey → Bool
  | .ordinary _ _ => false
  | .split _ => true

/-! ## Order -/

def textRank (t : Text) : List Nat := (bytes t).map UInt8.toNat

def domainRank : SplitDomain → Nat
  | .superSpeed => 0
  | .usb2 => 1

def unitRank (u : SplitUnitKey) : List (List Nat) :=
  [textRank u.identity, textRank u.controller, [domainRank u.domain], u.ports.map UInt8.toNat]

def CompletePairKey.rank : CompletePairKey → List (List Nat)
  | .ordinary rgb ir => [[0], textRank rgb, textRank ir]
  | .split key => [1] :: (unitRank key.rgb ++ unitRank key.ir)

theorem map_toNat_injective {bs cs : List UInt8} (h : bs.map UInt8.toNat = cs.map UInt8.toNat) :
    bs = cs := by
  apply List.map_injective_iff.2 _ h
  intro b c hbc
  exact UInt8.toNat_inj.1 hbc

theorem textRank_injective {t u : Text} (h : textRank t = textRank u) : t = u :=
  bytes_injective (map_toNat_injective h)

theorem unitRank_injective {u v : SplitUnitKey} (h : unitRank u = unitRank v) : u = v := by
  obtain ⟨identity, controller, domain, ports⟩ := u
  obtain ⟨identity', controller', domain', ports'⟩ := v
  simp only [unitRank, List.cons.injEq, and_true] at h
  obtain ⟨hidentity, hcontroller, hdomain, hports⟩ := h
  obtain rfl := textRank_injective hidentity
  obtain rfl := textRank_injective hcontroller
  obtain rfl := map_toNat_injective hports
  cases domain <;> cases domain' <;> simp_all [domainRank]

theorem CompletePairKey.rank_injective : Function.Injective CompletePairKey.rank := by
  intro k k' h
  cases k with
  | ordinary rgb ir =>
    cases k' with
    | ordinary rgb' ir' =>
      simp only [CompletePairKey.rank, List.cons.injEq, and_true, true_and] at h
      rw [textRank_injective h.1, textRank_injective h.2]
    | split key' => simp [CompletePairKey.rank, unitRank] at h
  | split key =>
    cases k' with
    | ordinary rgb' ir' => simp [CompletePairKey.rank, unitRank] at h
    | split key' =>
      obtain ⟨-, h⟩ := List.cons.inj h
      obtain ⟨hrgb, hir⟩ := List.append_inj h rfl
      obtain ⟨rgb, ir⟩ := key
      obtain ⟨rgb', ir'⟩ := key'
      obtain rfl : rgb = rgb' := unitRank_injective hrgb
      obtain rfl : ir = ir' := unitRank_injective hir
      rfl

instance : LinearOrder CompletePairKey := LinearOrder.lift' CompletePairKey.rank CompletePairKey.rank_injective

end Irlume.Cameras

import Mathlib.Algebra.Order.BigOperators.Group.List
import Mathlib.Algebra.Order.Ring.Int

/-!
# Soroban values

The value types the contracts exchange with the host: addresses, `i128` and
`u128` numbers, byte strings and `Vec`s. A `Vec` is indexed by `u32`, so its
length is below `2 ^ 32` by construction; an `i128` argument is in range by
construction.
-/

namespace WowmaxStellar

/-- An account or contract address. The contracts compare addresses for equality
and, in the Aquarius adapter, by the host's total order. -/
structure Address where
  id : Nat
deriving DecidableEq, Repr

instance : LinearOrder Address :=
  LinearOrder.lift' Address.id (by rintro ⟨a⟩ ⟨b⟩ h; simpa using h)

def i128Max : Int := 2 ^ 127 - 1

def i128Min : Int := -2 ^ 127

/-- `x` is representable as an `i128`. -/
def InI128 (x : Int) : Prop := i128Min ≤ x ∧ x ≤ i128Max

instance (x : Int) : Decidable (InI128 x) :=
  inferInstanceAs (Decidable (_ ∧ _))

/-- `i128` values, as they arrive in arguments. -/
abbrev I128 := { x : Int // InI128 x }

/-- `i128::from`, on a `u32`. -/
def I128.ofUInt32 (n : UInt32) : I128 :=
  ⟨n.toNat, by
    have hn := n.toNat_lt
    unfold InI128 i128Min i128Max
    omega⟩

/-- The `as u128` cast: the two's complement bits of the value read unsigned. -/
def asU128 (x : Int) : Nat := (x % 2 ^ 128).toNat

/-- The `as i128` cast of a `u128` value. -/
def asI128 (x : Nat) : Int := Int.bmod x (2 ^ 128)

/-- On the non-negative range the `u128` cast is the identity; the amount guards
run before every cast because it is not on the negative one. -/
theorem asU128_of_nonneg {x : Int} (hx : 0 ≤ x) (hmax : x ≤ i128Max) :
    (asU128 x : Int) = x := by
  unfold asU128 i128Max at *
  omega

/-- A `u128` below `2 ^ 127` survives the cast. -/
theorem asI128_of_le {x : Nat} (hmax : (x : Int) ≤ i128Max) : asI128 x = x := by
  unfold asI128 i128Max Int.bmod at *
  dsimp only
  split <;> omega

/-- `BytesN<32>`. -/
abbrev BytesN32 := Vector UInt8 32

/-- The host's `Vec`: at most `u32::MAX` elements. -/
abbrev Vec (α : Type) := { l : List α // l.length < 2 ^ 32 }

def Vec.len {α : Type} (v : Vec α) : Nat := v.val.length

@[simp] theorem Vec.take_len {α : Type} (v : Vec α) : v.val.take v.len = v.val :=
  List.take_length

@[simp] theorem Vec.drop_len {α : Type} (v : Vec α) : v.val.drop v.len = [] :=
  List.drop_length

/-- A `Vec` of the images; the length is unchanged. -/
def Vec.map {α β : Type} (f : α → β) (v : Vec α) : Vec β :=
  ⟨v.val.map f, by rw [List.length_map]; exact v.property⟩

/-- `vec![&env, a]` -/
def Vec.single {α : Type} (a : α) : Vec α := ⟨[a], by simp⟩

/-- `vec![&env, a, b]` -/
def Vec.pair {α : Type} (a b : α) : Vec α := ⟨[a, b], by simp⟩

def Vec.reverse {α : Type} (v : Vec α) : Vec α :=
  ⟨v.val.reverse, by rw [List.length_reverse]; exact v.property⟩

@[simp] theorem Vec.single_val {α : Type} (a : α) : (Vec.single a).val = [a] := rfl

@[simp] theorem Vec.pair_val {α : Type} (a b : α) : (Vec.pair a b).val = [a, b] := rfl

@[simp] theorem Vec.map_val {α β : Type} (f : α → β) (v : Vec α) :
    (v.map f).val = v.val.map f := rfl

@[simp] theorem Vec.reverse_val {α : Type} (v : Vec α) : v.reverse.val = v.val.reverse := rfl

@[simp] theorem Vec.len_reverse {α : Type} (v : Vec α) : v.reverse.len = v.len :=
  List.length_reverse

@[simp] theorem Vec.len_map {α β : Type} (f : α → β) (v : Vec α) :
    (v.map f).len = v.len := List.length_map f

end WowmaxStellar

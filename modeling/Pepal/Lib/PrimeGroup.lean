import Mathlib.Data.ZMod.Basic
import Mathlib.GroupTheory.OrderOfElement
import Mathlib.GroupTheory.SpecificGroups.Cyclic.Basic
import Mathlib.Algebra.Field.ZMod
import Mathlib.Algebra.BigOperators.Group.Finset.Basic

/-!
# Groups of prime order with exponents in the scalar field

Pairing libraries and elliptic-curve libraries expose the same interface: a
commutative group of prime order `r`, written multiplicatively, and scalars
taken modulo `r`. Exponentiation reads the scalar as its least non-negative
representative. Everything a protocol proof needs is that this
exponentiation is a bilinear pairing of the scalar field with the group
(`gpow_add`, `gpow_mul`, `mul_gpow`) and that a non-trivial element separates
scalars (`gpow_injective`) and reaches the whole group (`exists_gpow`).
-/

namespace PrimeOrder

/-- A commutative group whose order is the prime `r`. -/
class PrimeOrderGroup (r : outParam ℕ) (G : Type*) extends CommGroup G where
  prime : r.Prime
  card_eq : Nat.card G = r

/-- The scalars `ZMod r` themselves, written multiplicatively. -/
instance (r : ℕ) [hr : Fact r.Prime] : PrimeOrderGroup r (Multiplicative (ZMod r)) where
  prime := hr.out
  card_eq := by
    rw [Nat.card_congr Multiplicative.toAdd]
    exact Nat.card_zmod r

variable {r : ℕ} {G : Type*} [PrimeOrderGroup r G]

/-- `x` to the power of a scalar, through the scalar's least non-negative
representative. -/
def gpow (x : G) (e : ZMod r) : G := x ^ e.val

/-- `g` generates the group. -/
def IsGenerator (g : G) : Prop := ∀ x : G, ∃ n : ℕ, g ^ n = x

/-! ## The exponent laws -/

theorem pow_mod_order (x : G) (n : ℕ) : x ^ (n % r) = x ^ n := by
  have h := pow_mod_natCard x n
  rwa [PrimeOrderGroup.card_eq (G := G)] at h

@[simp]
theorem gpow_natCast (x : G) (n : ℕ) : gpow x (n : ZMod r) = x ^ n := by
  unfold gpow
  rw [ZMod.val_natCast, pow_mod_order]

theorem order_neZero (G : Type*) [PrimeOrderGroup r G] : NeZero r :=
  ⟨(PrimeOrderGroup.prime (G := G)).ne_zero⟩

theorem order_fact (G : Type*) [PrimeOrderGroup r G] : Fact r.Prime :=
  ⟨PrimeOrderGroup.prime (G := G)⟩

/-- Every scalar is a natural number, so a law of `ZMod r` exponents is a law
of natural exponents. -/
theorem scalar_induction (G : Type*) [PrimeOrderGroup r G] {P : ZMod r → Prop}
    (h : ∀ n : ℕ, P (n : ZMod r)) (e : ZMod r) : P e := by
  have := order_neZero G
  rw [← ZMod.natCast_zmod_val e]
  exact h _

@[simp]
theorem gpow_zero (x : G) : gpow x (0 : ZMod r) = 1 := by
  simpa using gpow_natCast x 0

@[simp]
theorem gpow_one (x : G) : gpow x (1 : ZMod r) = x := by
  simpa using gpow_natCast x 1

@[simp]
theorem one_gpow (e : ZMod r) : gpow (1 : G) e = 1 := one_pow _

theorem gpow_add (x : G) (s t : ZMod r) : gpow x (s + t) = gpow x s * gpow x t := by
  induction s using scalar_induction G with
  | h m =>
      induction t using scalar_induction G with
      | h n => rw [← Nat.cast_add, gpow_natCast, gpow_natCast, gpow_natCast, pow_add]

theorem gpow_mul (x : G) (s t : ZMod r) : gpow x (s * t) = gpow (gpow x s) t := by
  induction s using scalar_induction G with
  | h m =>
      induction t using scalar_induction G with
      | h n => rw [← Nat.cast_mul, gpow_natCast, gpow_natCast, gpow_natCast, pow_mul]

theorem mul_gpow (x y : G) (e : ZMod r) : gpow (x * y) e = gpow x e * gpow y e :=
  mul_pow x y e.val

theorem gpow_neg (x : G) (e : ZMod r) : gpow x (-e) = (gpow x e)⁻¹ := by
  rw [eq_inv_iff_mul_eq_one, ← gpow_add, neg_add_cancel, gpow_zero]

theorem gpow_sub (x : G) (s t : ZMod r) : gpow x (s - t) = gpow x s * (gpow x t)⁻¹ := by
  rw [sub_eq_add_neg, gpow_add, gpow_neg]

theorem gpow_comm (x : G) (s t : ZMod r) : gpow (gpow x s) t = gpow (gpow x t) s := by
  rw [← gpow_mul, mul_comm, gpow_mul]

theorem gpow_pow (x : G) (n : ℕ) (e : ZMod r) : gpow (x ^ n) e = gpow x ((n : ZMod r) * e) := by
  rw [gpow_mul, gpow_natCast]

/-- A product of powers of one element is the power of the sum. -/
theorem prod_gpow (x : G) (n : ℕ) (e : ℕ → ZMod r) :
    ∏ i ∈ Finset.range n, gpow x (e i) = gpow x (∑ i ∈ Finset.range n, e i) := by
  induction n with
  | zero => simp
  | succ n ih => rw [Finset.prod_range_succ, Finset.sum_range_succ, ih, gpow_add]

/-! ## Non-trivial elements -/

/-- In a group of prime order the generators are exactly the elements other
than `1`. -/
theorem IsGenerator.ne_one {g : G} (hg : IsGenerator g) : g ≠ 1 := by
  rintro rfl
  have hprime : r.Prime := PrimeOrderGroup.prime (G := G)
  have htriv : ∀ x : G, x = 1 := by
    intro x
    obtain ⟨n, rfl⟩ := hg x
    exact one_pow n
  have hone : Nat.card G = 1 := by
    rw [Nat.card_eq_one_iff_unique]
    exact ⟨⟨fun x y => (htriv x).trans (htriv y).symm⟩, ⟨1⟩⟩
  rw [PrimeOrderGroup.card_eq (G := G)] at hone
  exact hprime.one_lt.ne' hone

theorem isGenerator_of_ne_one {g : G} (hg : g ≠ 1) : IsGenerator g := by
  have := order_fact G
  intro x
  exact mem_powers_of_prime_card (PrimeOrderGroup.card_eq (G := G)) hg

theorem gpow_eq_one_iff {g : G} (hg : g ≠ 1) {e : ZMod r} : gpow g e = 1 ↔ e = 0 := by
  have := order_fact G
  have hord : orderOf g = r :=
    orderOf_eq_prime (by simpa using (gpow_natCast g r).symm) hg
  constructor
  · intro h
    have hdvd : orderOf g ∣ e.val := orderOf_dvd_of_pow_eq_one (n := e.val) h
    rw [hord] at hdvd
    rw [← ZMod.natCast_zmod_val e]
    exact (ZMod.natCast_eq_zero_iff _ _).mpr hdvd
  · rintro rfl
    exact gpow_zero g

theorem gpow_ne_one {g : G} (hg : g ≠ 1) {e : ZMod r} (he : e ≠ 0) : gpow g e ≠ 1 :=
  fun h => he ((gpow_eq_one_iff hg).mp h)

theorem gpow_injective {g : G} (hg : g ≠ 1) : Function.Injective (gpow g : ZMod r → G) := by
  intro s t h
  rw [← sub_eq_zero, ← gpow_eq_one_iff hg, gpow_sub, h, mul_inv_cancel]

theorem exists_gpow {g : G} (hg : g ≠ 1) (x : G) : ∃ e : ZMod r, gpow g e = x := by
  obtain ⟨n, hn⟩ := isGenerator_of_ne_one hg x
  exact ⟨n, by rw [gpow_natCast, hn]⟩

/-- Raising to a non-zero scalar loses nothing. -/
theorem gpow_left_injective {e : ZMod r} (he : e ≠ 0) :
    Function.Injective (fun x : G => gpow x e) := by
  have := order_fact G
  intro x y h
  have key : gpow (gpow x e) e⁻¹ = gpow (gpow y e) e⁻¹ := congrArg (gpow · e⁻¹) h
  rwa [← gpow_mul, ← gpow_mul, mul_inv_cancel₀ he, gpow_one, gpow_one] at key

end PrimeOrder

import Mathlib.NumberTheory.LucasPrimality
import Mathlib.Tactic.NormNum.Prime
import Mathlib.Tactic.ReduceModChar
import Pepal.Images.KeyCheck

/-!
# The patterns that one key allows

The check of the sender is an equation in the group, so it fixes the sum of
the choice bits modulo the order `r` only. With 256 parts the sum ranges over
all numbers below `2 ^ 256`, and `r` is smaller: a key below `2 ^ 256 - r` has
a second pattern, the bits of the key plus `r`, which the check accepts and in
which `detect_wm` finds errors.
-/

namespace Pepal.Images

open PrimeOrder ObliviousTransfer

variable {r : ℕ} {G : Type*} [PrimeOrderGroup r G]

/-! ## Numbers put together from bits -/

theorem binarySum_succ (n : ℕ) (c : ℕ → ℕ) :
    binarySum (n + 1) c = c 0 + 2 * binarySum n fun i => c (i + 1) := by
  unfold binarySum
  rw [Finset.sum_range_succ', pow_zero, one_mul, add_comm, Finset.mul_sum]
  congr 1
  apply Finset.sum_congr rfl
  intro i _
  rw [pow_succ']
  ring

theorem binarySum_lt {n : ℕ} {c : ℕ → ℕ} (hc : ∀ i < n, c i < 2) : binarySum n c < 2 ^ n := by
  induction n generalizing c with
  | zero => simp [binarySum]
  | succ n ih =>
      have hfirst := hc 0 (by omega)
      have hrest := ih fun i hi => hc (i + 1) (by omega)
      rw [binarySum_succ, pow_succ']
      omega

/-- The bits are the digits of their number. -/
theorem digit_binarySum {n : ℕ} {c : ℕ → ℕ} (hc : ∀ i < n, c i < 2) {i : ℕ} (hi : i < n) :
    Numeral.digit 2 (binarySum n c) i = c i := by
  induction n generalizing c i with
  | zero => omega
  | succ n ih =>
      have hfirst := hc 0 (by omega)
      rw [binarySum_succ]
      cases i with
      | zero => rw [Numeral.digit_zero, Nat.add_mul_mod_self_left, Nat.mod_eq_of_lt hfirst]
      | succ i =>
          rw [Numeral.digit_succ, Nat.add_mul_div_left _ _ (by omega), Nat.div_eq_of_lt hfirst,
            Nat.zero_add]
          exact ih (fun j hj => hc (j + 1) (by omega)) (by omega)

theorem binarySum_digits {n m : ℕ} (hm : m < 2 ^ n) : binarySum n (Numeral.digit 2 m) = m := by
  unfold binarySum
  rw [Numeral.sum_digits, Nat.mod_eq_of_lt hm]

/-- A number below twice the order is a scalar or that plus the order. -/
theorem natCast_eq_iff {m : ℕ} [NeZero r] (hm : m < 2 * r) (sk : Zr r) :
    (m : Zr r) = sk ↔ m = sk.val ∨ m = sk.val + r := by
  have hlt := ZMod.val_lt sk
  constructor
  · rintro rfl
    rw [ZMod.val_natCast]
    by_cases hsmall : m < r
    · exact Or.inl (Nat.mod_eq_of_lt hsmall).symm
    · right
      have hmod : m % r = m - r := by
        rw [Nat.mod_eq_sub_mod (by omega), Nat.mod_eq_of_lt (by omega)]
      omega
  · rintro (rfl | rfl)
    · exact ZMod.natCast_zmod_val sk
    · rw [Nat.cast_add, ZMod.natCast_self, add_zero, ZMod.natCast_zmod_val]

/-- The bits that `detect_wm` compares with are those of the key. -/
theorem mainBits_getD [NeZero r] (hr : r < 2 ^ 256) (sk : Zr r) {i : ℕ} (hi : i < 256) :
    (padBitstring (Zr_to_bs sk)).getD (256 - 1 - i) 0 = Numeral.digit 2 sk.val i := by
  have hlength := length_mainBits sk (lt_trans (ZMod.val_lt sk) hr)
  rw [List.getD_eq_getElem?_getD, mainBits_getElem? sk hlength hi, Option.getD_some]

/-! ## The patterns that pass -/

section Patterns

variable [DecidableEq G]

/-- The test of `main` passes for 256 answers with the choice bits `c`. -/
def Passes (s0 : Sender r G) (R : Recipient r G) (g : G) (a : Zr r) (b : ℕ → Zr r)
    (c : ℕ → ℕ) : Prop :=
  skVerified (s0.initA g a) (answers (gpow g a) g 256 c b) (R.init_x.get_Cb g)
    (R.get_Cs g) = true

/-- Only the bits that `detect_wm` compares with pass. -/
def OnePattern (s0 : Sender r G) (R : Recipient r G) (g : G) (a : Zr r) (b : ℕ → Zr r) : Prop :=
  ∀ c : ℕ → ℕ, (∀ i < 256, c i < 2) → Passes s0 R g a b c →
    ∀ i < 256, c i = (padBitstring (Zr_to_bs R.sk)).getD (256 - 1 - i) 0

/-- A recipient of 256 parts that has drawn its scalars. -/
structure Drawn (s0 : Sender r G) (R : Recipient r G) (b : ℕ → Zr r) : Prop where
  sender : s0.sec_par = 256
  recipient : R.sec_par = 256
  scalars : R.b_arr = (List.range 256).map b

variable {s0 : Sender r G} {R : Recipient r G} {g : G} {a : Zr r} {b : ℕ → Zr r}

theorem passes_iff (h : Drawn s0 R b) (hr : 2 ^ 255 < r) (hg : g ≠ 1) (ha : a ≠ 0) {c : ℕ → ℕ}
    (hc : ∀ i < 256, c i < 2) :
    Passes s0 R g a b c ↔ binarySum 256 c = R.sk.val ∨ binarySum 256 c = R.sk.val + r := by
  have := order_neZero G
  have hsum := binarySum_lt hc
  have hscalars : R.b_arr = (List.range R.sec_par).map b := by rw [h.recipient, h.scalars]
  have hparts : R.sec_par = s0.sec_par := by rw [h.recipient, h.sender]
  have hcheck := skVerified_honest_iff s0 c b (isGenerator_of_ne_one hg) ha R hparts hscalars
  rw [h.sender] at hcheck
  unfold Passes
  rw [hcheck, weightSum_eq_binarySum (by omega), natCast_eq_iff (by omega)]

/-- Powers of the neutral element tell nothing. -/
theorem passes_of_one (ha : a ≠ 0) (c : ℕ → ℕ) (h : s0.sec_par = 256) : Passes s0 R 1 a b c := by
  have hcheck := skVerified_iff s0 (g := 1) c b ha (R.init_x.get_Cb 1) (R.get_Cs 1)
  rw [h] at hcheck
  unfold Passes
  rw [hcheck, Recipient.get_Cb, Recipient.get_Cs]
  simp only [one_gpow, inv_one, mul_one]

/-- Of the neutral element every pattern passes, so also one with another
first bit. -/
theorem not_onePattern_one (hr : r < 2 ^ 256) (h : s0.sec_par = 256) (ha : a ≠ 0) :
    ¬ OnePattern s0 R 1 a b := by
  have := order_neZero G
  intro hone
  have hlt : Numeral.digit 2 R.sk.val 0 < 2 := Numeral.digit_lt (by omega) _ _
  have hfirst := hone (fun i => 1 - Numeral.digit 2 R.sk.val i) (fun i _ => by omega)
    (passes_of_one ha _ h) 0 (by omega)
  rw [mainBits_getD hr R.sk (by omega)] at hfirst
  omega

/-- A key that leaves room for the order has a second pattern. -/
theorem not_onePattern_of_lt (hr : 2 ^ 255 < r) (hr' : r < 2 ^ 256) (h : Drawn s0 R b)
    (hg : g ≠ 1) (ha : a ≠ 0) (hroom : R.sk.val + r < 2 ^ 256) : ¬ OnePattern s0 R g a b := by
  have := order_neZero G
  have hdigit : ∀ m, ∀ i < 256, Numeral.digit 2 m i < 2 :=
    fun m i _ => Numeral.digit_lt (by omega) m i
  intro hone
  have hpasses : Passes s0 R g a b (Numeral.digit 2 (R.sk.val + r)) :=
    (passes_iff h hr hg ha (hdigit _)).mpr (Or.inr (binarySum_digits hroom))
  have hsame := hone _ (hdigit _) hpasses
  have heq : R.sk.val + r = R.sk.val :=
    calc R.sk.val + r
        = binarySum 256 (Numeral.digit 2 (R.sk.val + r)) := (binarySum_digits hroom).symm
      _ = binarySum 256 (Numeral.digit 2 R.sk.val) := by
        apply Finset.sum_congr rfl
        intro i hi
        rw [hsame i (Finset.mem_range.mp hi),
          mainBits_getD hr' R.sk (Finset.mem_range.mp hi)]
      _ = R.sk.val := binarySum_digits (by omega)
  have hpos := NeZero.pos r
  omega

/-- **When a key has one pattern.** For a generator and an order of 256 bits it
does exactly if the key plus the order has no room in 256 bits. -/
theorem onePattern_iff (hr : 2 ^ 255 < r) (hr' : r < 2 ^ 256) (h : Drawn s0 R b) (g : G)
    (ha : a ≠ 0) :
    OnePattern s0 R g a b ↔ g ≠ 1 ∧ 2 ^ 256 ≤ R.sk.val + r := by
  constructor
  · intro hone
    have hg : g ≠ 1 := by
      rintro rfl
      exact not_onePattern_one hr' h.sender ha hone
    refine ⟨hg, ?_⟩
    by_contra hroom
    exact not_onePattern_of_lt hr hr' h hg ha (not_le.mp hroom) hone
  · rintro ⟨hg, hroom⟩ c hc hpasses i hi
    have := order_neZero G
    rcases (passes_iff h hr hg ha hc).mp hpasses with hsum | hsum
    · rw [mainBits_getD hr' R.sk hi, ← hsum, digit_binarySum hc hi]
    · have hlt := binarySum_lt hc
      omega

end Patterns

/-! ## The order in `pairing.param` -/

def pairingOrder : ℕ :=
  57896044834337671048990610861680074622792037721917437400053371852785446813697

theorem pairingOrder_eq : pairingOrder = 2 ^ 255 + 2 ^ 227 + 1 := by norm_num [pairingOrder]

theorem prime_dvd_pairingOrder {q : ℕ} (hq : q.Prime) (hdvd : q ∣ pairingOrder - 1) :
    q = 2 ∨ q = 17 ∨ q = 15790321 := by
  have hfactors : pairingOrder - 1 = 2 ^ 227 * (17 * 15790321) := by norm_num [pairingOrder]
  rw [hfactors] at hdvd
  rcases hq.dvd_mul.mp hdvd with htwo | hrest
  · exact Or.inl ((Nat.prime_dvd_prime_iff_eq hq Nat.prime_two).mp (hq.dvd_of_dvd_pow htwo))
  · rcases hq.dvd_mul.mp hrest with hsmall | hlarge
    · exact Or.inr (Or.inl ((Nat.prime_dvd_prime_iff_eq hq (by norm_num)).mp hsmall))
    · exact Or.inr (Or.inr ((Nat.prime_dvd_prime_iff_eq hq (by norm_num)).mp hlarge))

/-- 3 generates the units. -/
theorem prime_pairingOrder : pairingOrder.Prime := by
  apply lucas_primality pairingOrder 3
  · unfold pairingOrder
    norm_num
    reduce_mod_char
  · intro q hq hdvd
    rcases prime_dvd_pairingOrder hq hdvd with rfl | rfl | rfl
    · unfold pairingOrder
      norm_num
      reduce_mod_char
      decide
    · unfold pairingOrder
      norm_num
      reduce_mod_char
      decide
    · unfold pairingOrder
      norm_num
      reduce_mod_char
      decide

instance : Fact pairingOrder.Prime := ⟨prime_pairingOrder⟩

theorem pairingOrder_bounds : 2 ^ 255 < pairingOrder ∧ pairingOrder < 2 ^ 256 := by
  rw [pairingOrder_eq]
  norm_num

def pairingG : Multiplicative (ZMod pairingOrder) := Multiplicative.ofAdd 1

theorem pairingG_ne_one : pairingG ≠ 1 := by
  intro h
  have hone : (1 : ZMod pairingOrder) = 0 := h
  exact one_ne_zero hone

def pairingSender : Sender pairingOrder (Multiplicative (ZMod pairingOrder)) :=
  { sec_par := 256, message_len := 0, message := fun _ _ => [], a := 0, A := 1 }

/-- A recipient that draws the scalar 1 for each part. -/
def pairingRecipient (sk : Zr pairingOrder) :
    Recipient pairingOrder (Multiplicative (ZMod pairingOrder)) :=
  { Recipient.mk' _ sk (padBitstring (Zr_to_bs sk)) 256 0 with
    b_arr := (List.range 256).map fun _ => 1 }

theorem drawn_pairing (sk : Zr pairingOrder) :
    Drawn pairingSender (pairingRecipient sk) fun _ => 1 := ⟨rfl, rfl, rfl⟩

theorem onePattern_pairing :
    OnePattern pairingSender (pairingRecipient (-1)) pairingG 1 (fun _ => 1) ↔
      pairingG ≠ 1 ∧ 2 ^ 256 ≤ (-1 : Zr pairingOrder).val + pairingOrder :=
  onePattern_iff pairingOrder_bounds.1 pairingOrder_bounds.2 (drawn_pairing (-1)) pairingG
    one_ne_zero

/-- **Two patterns for one key**: the key 0, of which the sender's test accepts
256 zero bits and, as well, the bits of the order. -/
theorem two_patterns :
    pairingOrder.Prime ∧ 2 ^ 255 < pairingOrder ∧ pairingOrder < 2 ^ 256 ∧
      Passes pairingSender (pairingRecipient 0) pairingG 1 (fun _ => 1) (fun _ => 0) ∧
      Passes pairingSender (pairingRecipient 0) pairingG 1 (fun _ => 1)
        (Numeral.digit 2 pairingOrder) ∧
      Numeral.digit 2 pairingOrder 0 = 1 ∧
      ¬ OnePattern pairingSender (pairingRecipient 0) pairingG 1 fun _ => 1 := by
  have hbits : ∀ i < 256, Numeral.digit 2 pairingOrder i < 2 :=
    fun i _ => Numeral.digit_lt (by omega) _ _
  have hkey : (pairingRecipient 0).sk.val = 0 := ZMod.val_zero
  have hpasses : ∀ {c : ℕ → ℕ}, (∀ i < 256, c i < 2) →
      (Passes pairingSender (pairingRecipient 0) pairingG 1 (fun _ => 1) c ↔
        binarySum 256 c = (pairingRecipient 0).sk.val ∨
          binarySum 256 c = (pairingRecipient 0).sk.val + pairingOrder) :=
    fun hc => passes_iff (drawn_pairing 0) pairingOrder_bounds.1 pairingG_ne_one one_ne_zero hc
  refine ⟨prime_pairingOrder, pairingOrder_bounds.1, pairingOrder_bounds.2, ?_, ?_, ?_, ?_⟩
  · rw [hpasses fun i _ => by omega, hkey]
    exact Or.inl (by simp [binarySum])
  · rw [hpasses hbits, hkey, Nat.zero_add]
    exact Or.inr (binarySum_digits pairingOrder_bounds.2)
  · rw [Numeral.digit_zero, pairingOrder]
  · apply not_onePattern_of_lt pairingOrder_bounds.1 pairingOrder_bounds.2 (drawn_pairing 0)
      pairingG_ne_one one_ne_zero
    rw [hkey, Nat.zero_add]
    exact pairingOrder_bounds.2

end Pepal.Images

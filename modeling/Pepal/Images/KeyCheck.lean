import Pepal.Images.Transfer
import Mathlib.Algebra.BigOperators.Ring.Finset

/-!
# The sender's secret-key check

`product_Bs` and `init_x` are folds of the same weights, `pow2`, so the check
of `main` is an instance of `ObliviousTransfer.weighted_check_iff`: it solves
for `Cs` once `Cb` is fixed. Against the honest `Cb` it accepts exactly the
choice vectors that encode the committed key; against a `Cb` of the
recipient's choosing it accepts any key at all.

The weights are powers taken in the scalar ring with the index reduced modulo
`r`, so they are the powers of two only while there are no more parts than
the group order; `main` has 256 parts and an order of 256 bits.
-/

namespace Pepal.Images

open PrimeOrder ObliviousTransfer

variable {r : ℕ} {G : Type*} [PrimeOrderGroup r G]

/-! ## The two folds -/

theorem foldl_mul_eq_prod {M : Type*} [CommMonoid M] (f : ℕ → M) (n : ℕ) :
    (List.range n).foldl (fun product i => product * f i) 1 = ∏ i ∈ Finset.range n, f i := by
  induction n with
  | zero => simp
  | succ n ih => rw [List.range_succ, List.foldl_append, ih, Finset.prod_range_succ]; rfl

theorem foldl_add_eq_sum {M : Type*} [AddCommMonoid M] (f : ℕ → M) (n : ℕ) :
    (List.range n).foldl (fun power k => power + f k) 0 = ∑ k ∈ Finset.range n, f k := by
  induction n with
  | zero => simp
  | succ n ih => rw [List.range_succ, List.foldl_append, ih, Finset.sum_range_succ]; rfl

/-- The answers of a recipient with choice bits `c` and scalars `b`. -/
def answers (A g : G) (n : ℕ) (c : ℕ → ℕ) (b : ℕ → Zr r) : List G :=
  (List.range n).map fun i => blind A g (c i) (b i)

/-- The sum a choice vector stands for, under the weights of the code. -/
def weightSum (n : ℕ) (c : ℕ → ℕ) : Zr r := ∑ i ∈ Finset.range n, pow2 r i * (c i : Zr r)

/-- The sum a choice vector stands for, under powers of two. -/
def binarySum (n : ℕ) (c : ℕ → ℕ) : ℕ := ∑ i ∈ Finset.range n, 2 ^ i * c i

theorem product_Bs_answers (s : Sender r G) {n : ℕ} (hn : s.sec_par = n) (A g : G)
    (c : ℕ → ℕ) (b : ℕ → Zr r) :
    s.product_Bs (answers A g n c b) =
      gpow A (weightSum n c) * gpow g (∑ i ∈ Finset.range n, pow2 r i * b i) := by
  unfold Sender.product_Bs weightSum
  rw [hn, foldl_mul_eq_prod, ← prod_blind]
  apply Finset.prod_congr rfl
  intro i hi
  have hi' : i < n := Finset.mem_range.mp hi
  rw [answers, List.getD_eq_getElem?_getD]
  simp [hi']

omit [PrimeOrderGroup r G] in
theorem init_x_eq (R : Recipient r G) {b : ℕ → Zr r}
    (hb : R.b_arr = (List.range R.sec_par).map b) :
    R.init_x.x = ∑ k ∈ Finset.range R.sec_par, pow2 r k * b k := by
  unfold Recipient.init_x
  simp only [foldl_add_eq_sum]
  apply Finset.sum_congr rfl
  intro k hk
  have hk' : k < R.sec_par := Finset.mem_range.mp hk
  rw [hb, List.getD_eq_getElem?_getD]
  simp [hk']

/-- With no more parts than the group order the weights are powers of two. -/
theorem weightSum_eq_binarySum {n : ℕ} (hn : n ≤ r) (c : ℕ → ℕ) :
    (weightSum n c : Zr r) = (binarySum n c : Zr r) := by
  unfold weightSum binarySum
  rw [Nat.cast_sum]
  apply Finset.sum_congr rfl
  intro i hi
  have hi' : i < n := Finset.mem_range.mp hi
  rw [pow2_of_lt (by omega), Nat.cast_mul]

/-! ## The check, solved -/

section Check

variable [DecidableEq G] (s0 : Sender r G) {g : G} {a : Zr r} (c : ℕ → ℕ) (b : ℕ → Zr r)

/-- For given answers and a given `Cb` there is one `Cs` the check accepts. -/
theorem skVerified_iff (ha : a ≠ 0) (Cb Cs : G) :
    skVerified (s0.initA g a) (answers (gpow g a) g s0.sec_par c b) Cb Cs = true ↔
      Cs = gpow g (weightSum s0.sec_par c) *
        gpow (Cb⁻¹ * gpow g (∑ i ∈ Finset.range s0.sec_par, pow2 r i * b i)) a⁻¹ := by
  unfold skVerified
  rw [decide_eq_true_iff, product_Bs_answers (s0.initA g a) (n := s0.sec_par) rfl]
  exact weighted_check_iff ha _ _ Cb Cs

/-- Against the honest `Cb` the check accepts exactly the choice vectors whose
weighted sum is the key. -/
theorem skVerified_honest_iff (hg : IsGenerator g) (ha : a ≠ 0) (R : Recipient r G)
    (hn : R.sec_par = s0.sec_par) (hb : R.b_arr = (List.range R.sec_par).map b) :
    skVerified (s0.initA g a) (answers (gpow g a) g s0.sec_par c b)
        (R.init_x.get_Cb g) (R.get_Cs g) = true ↔
      weightSum s0.sec_par c = R.sk := by
  rw [skVerified_iff s0 c b ha, Recipient.get_Cb, init_x_eq R hb, hn, inv_mul_cancel,
    one_gpow, mul_one, Recipient.get_Cs]
  exact ⟨fun h => (gpow_injective hg.ne_one h).symm, fun h => by rw [h]⟩

end Check

/-! ## The bit string of `main` -/

/-- Every weight of a set bit of a key is the power of two: a set bit of a
scalar stands below its order. -/
theorem pow2_mul_bit (sk : Zr r) [NeZero r] (i : ℕ) :
    pow2 r i * (Numeral.digit 2 sk.val i : Zr r) =
      ((2 ^ i * Numeral.digit 2 sk.val i : ℕ) : Zr r) := by
  by_cases hi : i < r
  · rw [pow2_of_lt hi, Nat.cast_mul]
  · -- there is no bit of weight above the order
    have hlt : sk.val < 2 ^ i :=
      calc sk.val < r := ZMod.val_lt sk
        _ ≤ i := by omega
        _ < 2 ^ i := Nat.lt_two_pow_self
    rw [Numeral.digit_eq_zero hlt]
    simp

/-- The bits `initB_arr` reads off the padded bit string sum up to the key. -/
theorem weightSum_bits (sk : Zr r) [NeZero r] {n : ℕ} (hsk : sk.val < 2 ^ n) :
    (weightSum n (Numeral.digit 2 sk.val) : Zr r) = sk := by
  unfold weightSum
  rw [Finset.sum_congr rfl fun i _ => pow2_mul_bit sk i, ← Nat.cast_sum,
    Numeral.sum_digits, Nat.mod_eq_of_lt hsk, ZMod.natCast_zmod_val]

theorem mainBits_lt_two (sk : Zr r) : ∀ bit ∈ padBitstring (Zr_to_bs sk), bit < 2 := by
  intro bit hbit
  rw [padBitstring_Zr_to_bs sk rfl] at hbit
  obtain ⟨j, -, rfl⟩ := List.mem_map.mp hbit
  exact Numeral.digit_lt (by omega) _ _

/-- A key of at most 256 bits is padded to 256. -/
theorem length_mainBits (sk : Zr r) (hsk : sk.val < 2 ^ 256) :
    (padBitstring (Zr_to_bs sk)).length = 256 := by
  have hle := (Nat.length_toDigits_le_iff (by decide : 1 < 2) (by decide : 0 < 256)).mpr hsk
  rw [length_padBitstring, Zr_to_bs_eq, List.length_map]
  omega

theorem mainBits_getElem? (sk : Zr r) {n : ℕ} (hn : (padBitstring (Zr_to_bs sk)).length = n)
    {i : ℕ} (hi : i < n) :
    (padBitstring (Zr_to_bs sk))[n - 1 - i]? = some (Numeral.digit 2 sk.val i) := by
  rw [padBitstring_Zr_to_bs sk hn, List.getElem?_map,
    List.getElem?_range (by omega : n - 1 - i < n)]
  simp [show n - 1 - (n - 1 - i) = i by omega]

/-- The recipient of `main` answers part `i` with bit `i` of its key. -/
theorem initB_arr_main (A g : G) (sk : Zr r) {n : ℕ}
    (hn : (padBitstring (Zr_to_bs sk)).length = n) (message_len : ℤ) (new_b : ℕ → Zr r) :
    (Recipient.mk' G sk (padBitstring (Zr_to_bs sk)) n message_len).initB_arr A g new_b =
      { Recipient.mk' G sk (padBitstring (Zr_to_bs sk)) n message_len with
        b_arr := (List.range n).map new_b
        B_arr := answers A g n (Numeral.digit 2 sk.val) new_b } := by
  rw [initB_arr_eq _ _ _ _ (mainBits_lt_two sk)]
  simp only [Recipient.mk', List.nil_append, answers, Recipient.choice]
  congr 1
  apply List.map_congr_left
  intro i hi
  rw [List.getD_eq_getElem?_getD, mainBits_getElem? sk hn (List.mem_range.mp hi),
    Option.getD_some]

/-- **The check of `main` passes for every key.** -/
theorem skVerified_main [DecidableEq G] (s0 : Sender r G) {n : ℕ} (hs0 : s0.sec_par = n) {g : G}
    (a sk : Zr r) (hn : (padBitstring (Zr_to_bs sk)).length = n) (message_len : ℤ)
    (new_b : ℕ → Zr r) :
    let R := (Recipient.mk' G sk (padBitstring (Zr_to_bs sk)) n message_len).initB_arr
      (gpow g a) g new_b
    skVerified (s0.initA g a) R.B_arr (R.init_x.get_Cb g) (R.get_Cs g) = true := by
  intro R
  have := order_neZero G
  have hR : R = _ := initB_arr_main (gpow g a) g sk hn message_len new_b
  have hx := init_x_eq (R := R) (b := new_b) (by rw [hR]; rfl)
  unfold skVerified
  rw [decide_eq_true_iff, Recipient.get_Cb, hx, hR,
    product_Bs_answers (s0.initA g a) (n := n) hs0, weightSum_bits sk (val_lt_two_pow sk hn),
    mul_comm, gpow_comm g a sk]
  rfl

/-! ## Exactness -/

/-- **What the check accepts.** Against the recipient's honest `Cb` and `Cs`
it accepts a choice vector exactly when the vector's weighted sum is the
committed key, which for no more parts than the group order is its binary
value; and it accepts the vector `main` derives from the key itself, for
every key of at most 256 bits. -/
theorem sk_check_exact [DecidableEq G] {g : G} (hg : IsGenerator g) {a : Zr r} (ha : a ≠ 0)
    (sk : Zr r) (b : ℕ → Zr r) :
    (∀ (n : ℕ) (c : ℕ → ℕ) (s0 : Sender r G) (R : Recipient r G),
      s0.sec_par = n → R.sec_par = n → R.sk = sk → R.b_arr = (List.range n).map b →
      let passes := skVerified (s0.initA g a) (answers (gpow g a) g n c b)
        (R.init_x.get_Cb g) (R.get_Cs g)
      (passes = true ↔ weightSum n c = sk) ∧
        (n ≤ r → (passes = true ↔ (binarySum n c : Zr r) = sk))) ∧
    (r ≤ 2 ^ 256 → ∀ (s0 : Sender r G) (message_len : ℤ), s0.sec_par = 256 →
      let R := (Recipient.mk' G sk (padBitstring (Zr_to_bs sk)) 256 message_len).initB_arr
        (gpow g a) g b
      skVerified (s0.initA g a) R.B_arr (R.init_x.get_Cb g) (R.get_Cs g) = true) := by
  constructor
  · rintro n c s0 R rfl hn rfl hb passes
    have hiff : passes = true ↔ weightSum s0.sec_par c = R.sk :=
      skVerified_honest_iff s0 c b hg ha R hn (by rw [hn]; exact hb)
    refine ⟨hiff, fun hle => ?_⟩
    rw [hiff, weightSum_eq_binarySum hle]
  · intro hr s0 message_len hs0
    have := order_neZero G
    have hsk : sk.val < 2 ^ 256 := lt_of_lt_of_le (ZMod.val_lt sk) hr
    exact skVerified_main s0 hs0 a sk (length_mainBits sk hsk) message_len b

/-- Over the scalars modulo 3, with two parts: the vector `(0, 1)` passes for
the key 2, and so do the 256 bits of that key. -/
theorem sk_check_exact_mod_three :
    let g : Multiplicative (ZMod 3) := Multiplicative.ofAdd 1
    let s0 (n : ℕ) : Sender 3 (Multiplicative (ZMod 3)) :=
      { sec_par := n, message_len := 0, message := fun _ _ => [], a := 0, A := 1 }
    let R : Recipient 3 (Multiplicative (ZMod 3)) :=
      { Recipient.mk' _ 2 [1, 0] 2 0 with b_arr := [1, 2] }
    let R256 := (Recipient.mk' _ 2 (padBitstring (Zr_to_bs (2 : Zr 3))) 256 0).initB_arr
      (gpow g 1) g (fun i => (i + 1 : Zr 3))
    skVerified ((s0 2).initA g 1) (answers (gpow g 1) g 2 (fun i => i) (fun i => (i + 1 : Zr 3)))
        (R.init_x.get_Cb g) (R.get_Cs g) = true ∧
      skVerified ((s0 256).initA g 1) R256.B_arr (R256.init_x.get_Cb g) (R256.get_Cs g) =
        true := by
  intro g s0 R R256
  have exact_at := sk_check_exact (g := g) (isGenerator_of_ne_one (by decide))
    (a := 1) (by decide) 2 (fun i => (i + 1 : Zr 3))
  refine ⟨?_, exact_at.2 (by norm_num) (s0 256) 0 rfl⟩
  exact ((exact_at.1 2 (fun i => i) (s0 2) R rfl rfl rfl (by decide)).2 (by norm_num)).mpr
    (by decide)

/-- With more parts than the group order the weights wrap around: modulo 3
the vector `(0, 0, 0, 1)` has value 8, congruent to the key 2, and the check
rejects it, because the code weighs part 3 with `2 ^ 0`. -/
theorem sk_check_rejects_key :
    let g : Multiplicative (ZMod 3) := Multiplicative.ofAdd 1
    let s : Sender 3 (Multiplicative (ZMod 3)) :=
      Sender.initA
        { sec_par := 4, message_len := 0, message := fun _ _ => [], a := 0, A := 1 } g 1
    let R : Recipient 3 (Multiplicative (ZMod 3)) :=
      { Recipient.mk' _ 2 [1, 0, 0, 0] 4 0 with b_arr := [0, 0, 0, 0] }
    let c : ℕ → ℕ := fun i => if i = 3 then 1 else 0
    (binarySum 4 c : Zr 3) = R.sk ∧
      skVerified s (answers s.A g 4 c fun _ => 0) (R.init_x.get_Cb g) (R.get_Cs g) = false := by
  decide

/-! ## Soundness -/

/-- A recipient that may choose `Cb` passes the check with any key `t`
whatever it answered, and needs no more than the sender's `A` to do so. -/
theorem forged_Cb_passes [DecidableEq G] (s0 : Sender r G) (g : G) (a t : Zr r)
    (B_arr : List G) :
    skVerified (s0.initA g a) B_arr
      ((s0.initA g a).product_Bs B_arr * (gpow (s0.initA g a).A t)⁻¹) (gpow g t) = true := by
  have hA : gpow (gpow g t) a = gpow (s0.initA g a).A t := gpow_comm g t a
  unfold skVerified
  rw [decide_eq_true_iff, show (s0.initA g a).a = a from rfl, hA, inv_mul_cancel_right]

/-- The one accepted `Cs` is the right one exactly for one `Cb`. -/
theorem accepted_Cs_iff {g : G} {a : Zr r} (ha : a ≠ 0) (S C T : Zr r) (Cb : G) :
    gpow g S * gpow (Cb⁻¹ * gpow g T) a⁻¹ = gpow g C ↔
      Cb = gpow g T * gpow (gpow g a) (S - C) := by
  have := order_fact G
  have hinv : a⁻¹ ≠ 0 := inv_ne_zero ha
  calc gpow g S * gpow (Cb⁻¹ * gpow g T) a⁻¹ = gpow g C
      ↔ gpow (Cb⁻¹ * gpow g T) a⁻¹ = gpow (gpow g (a * (C - S))) a⁻¹ := by
        rw [← gpow_mul, mul_comm a, mul_assoc, mul_inv_cancel₀ ha, mul_one, gpow_sub,
          eq_mul_inv_iff_mul_eq, mul_comm]
    _ ↔ Cb⁻¹ * gpow g T = gpow g (a * (C - S)) :=
        (gpow_left_injective hinv).eq_iff
    _ ↔ Cb = gpow g T * gpow (gpow g a) (S - C) := by
        rw [← gpow_mul, ← neg_sub C S, mul_neg, gpow_neg, inv_mul_eq_iff_eq_mul,
          eq_mul_inv_iff_mul_eq, eq_comm]

/-- **What the check proves about the committed key.** For given answers, an
accepted `Cs` is `g` to the power of the choice vector's value exactly when
`Cb` is the element an honest recipient computes from its scalars (up to the
factor `slack`, which is 1 for no more parts than the group order); any other
`Cb` lets some wrong `Cs` through. -/
theorem sk_check_sound_iff [DecidableEq G] (g : G) {a : Zr r} (ha : a ≠ 0) (n : ℕ)
    (c : ℕ → ℕ) (b : ℕ → Zr r) (s0 : Sender r G) (hs0 : s0.sec_par = n)
    (R : Recipient r G) (hn : R.sec_par = n) (hb : R.b_arr = (List.range n).map b) (Cb : G) :
    let accepts := fun Cs : G =>
      skVerified (s0.initA g a) (answers (gpow g a) g n c b) Cb Cs = true
    let slack : G := gpow (gpow g a) (weightSum n c - (binarySum n c : Zr r))
    ((∀ Cs, accepts Cs → Cs = gpow g (binarySum n c : Zr r)) ↔
        Cb = R.init_x.get_Cb g * slack) ∧
      (∀ Cs, accepts Cs →
        (Cs = gpow g (binarySum n c : Zr r) ↔ Cb = R.init_x.get_Cb g * slack)) ∧
      (n ≤ r → slack = 1) := by
  intro accepts slack
  subst hs0
  have haccepts := skVerified_iff s0 (g := g) (a := a) c b ha Cb
  have hCb : R.init_x.get_Cb g =
      gpow g (∑ i ∈ Finset.range s0.sec_par, pow2 r i * b i) := by
    rw [Recipient.get_Cb, init_x_eq R (by rw [hn]; exact hb), hn]
  have hright : ∀ Cs, accepts Cs →
      (Cs = gpow g (binarySum s0.sec_par c : Zr r) ↔ Cb = R.init_x.get_Cb g * slack) := by
    intro Cs hCs
    rw [(haccepts Cs).mp hCs, hCb]
    exact accepted_Cs_iff ha _ _ _ Cb
  refine ⟨⟨fun h => ?_, fun h Cs hCs => (hright Cs hCs).mpr h⟩, hright, fun hle => ?_⟩
  · have hpass := (haccepts _).mpr rfl
    exact (hright _ hpass).mp (h _ hpass)
  · show gpow (gpow g a) (weightSum s0.sec_par c - (binarySum s0.sec_par c : Zr r)) = 1
    rw [weightSum_eq_binarySum hle, sub_self, gpow_zero]

/-- Over the scalars modulo 3, with two parts answered for the vector `(0, 1)`
and the honest `Cb`: the accepted `Cs` is `g ^ 2`. -/
theorem sk_check_sound_mod_three :
    let g : Multiplicative (ZMod 3) := Multiplicative.ofAdd 1
    let s0 : Sender 3 (Multiplicative (ZMod 3)) :=
      { sec_par := 2, message_len := 0, message := fun _ _ => [], a := 0, A := 1 }
    let R : Recipient 3 (Multiplicative (ZMod 3)) :=
      { Recipient.mk' _ 2 [1, 0] 2 0 with b_arr := [1, 2] }
    let B := answers (gpow g 1) g 2 (fun i => i) (fun i => (i + 1 : Zr 3))
    skVerified (s0.initA g 1) B (R.init_x.get_Cb g) (gpow g 2) = true ∧
      gpow g 2 = gpow g (binarySum 2 (fun i => i) : Zr 3) := by
  intro g s0 R B
  have hpass : skVerified (s0.initA g 1) B (R.init_x.get_Cb g) (gpow g 2) = true := by decide
  have hsound := sk_check_sound_iff g (a := 1) (by decide) 2 (fun i => i)
    (fun i => (i + 1 : Zr 3)) s0 rfl R rfl (by decide) (R.init_x.get_Cb g)
  have hslack := hsound.2.2 (by norm_num)
  exact ⟨hpass, hsound.1.mpr (by rw [hslack, mul_one]) _ hpass⟩

/-- A recipient that answers all 256 parts with choice 0, so that the bits it
can receive spell 0, passes the check with `Cs = g ^ 1`. -/
theorem sk_check_accepts_wrong_key :
    let g : Multiplicative (ZMod 3) := Multiplicative.ofAdd 1
    let s : Sender 3 (Multiplicative (ZMod 3)) :=
      Sender.initA
        { sec_par := 256, message_len := 0, message := fun _ _ => [], a := 0, A := 1 } g 1
    let B := answers s.A g 256 (fun _ => 0) (fun _ => 1)
    let Cb := s.product_Bs B * (gpow s.A 1)⁻¹
    skVerified s B Cb (gpow g 1) = true ∧
      gpow g 1 ≠ gpow g (binarySum 256 (fun _ => 0) : Zr 3) := by
  intro g s B Cb
  refine ⟨forged_Cb_passes _ g 1 1 B, ?_⟩
  have hzero : binarySum 256 (fun _ => 0) = 0 := by simp [binarySum]
  rw [hzero]
  decide

end Pepal.Images

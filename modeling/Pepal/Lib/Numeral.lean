import Mathlib.Data.Nat.Basic
import Mathlib.Algebra.BigOperators.Group.Finset.Basic
import Mathlib.Algebra.BigOperators.Intervals
import Mathlib.Data.Nat.Digits.Defs
import Mathlib.Tactic.Ring

/-!
# Positional numerals

The minimal numeral of a natural number is `Nat.toDigits`; what programs work
with is that numeral padded to a fixed width, read by position from either
end, and big-endian byte strings. The facts here say which digit stands where
(`padDigits_getElem`) and that reading the digits back, as a weighted sum from
the right or as a fold from the left, gives the number (`sum_digits`,
`foldl_digits`).
-/

namespace Numeral

/-! ## Digits by weight -/

/-- The digit of weight `b ^ i`. -/
def digit (b n i : ℕ) : ℕ := n / b ^ i % b

theorem digit_zero (b n : ℕ) : digit b n 0 = n % b := by simp [digit]

theorem digit_succ (b n i : ℕ) : digit b n (i + 1) = digit b (n / b) i := by
  unfold digit
  rw [pow_succ', Nat.div_div_eq_div_mul]

theorem digit_lt {b : ℕ} (hb : 0 < b) (n i : ℕ) : digit b n i < b := Nat.mod_lt _ hb

theorem digit_eq_zero {b n i : ℕ} (h : n < b ^ i) : digit b n i = 0 := by
  simp [digit, Nat.div_eq_of_lt h]

/-- The digits of a number that was put together from digits. -/
theorem digit_ofDigits {b : ℕ} {digits : List ℕ} (h : ∀ d ∈ digits, d < b) (i : ℕ) :
    digit b (Nat.ofDigits b digits) i = digits.getD i 0 := by
  induction digits generalizing i with
  | nil => simp [digit]
  | cons d digits ih =>
      have hd : d < b := h d List.mem_cons_self
      have hrest := ih fun d' hd' => h d' (List.mem_cons_of_mem _ hd')
      rw [Nat.ofDigits_cons]
      cases i with
      | zero => rw [digit_zero, Nat.add_mul_mod_self_left, Nat.mod_eq_of_lt hd, List.getD_cons_zero]
      | succ i =>
          rw [digit_succ, Nat.add_mul_div_left _ _ (by omega), Nat.div_eq_of_lt hd, Nat.zero_add,
            hrest, List.getD_cons_succ]

/-- The weighted sum of the low `w` digits is the number modulo `b ^ w`. -/
theorem sum_digits (b n w : ℕ) :
    ∑ i ∈ Finset.range w, b ^ i * digit b n i = n % b ^ w := by
  induction w with
  | zero => simp [Nat.mod_one]
  | succ w ih => rw [Finset.sum_range_succ, ih, Nat.mod_pow_succ, digit]

/-- Reading the low `w` digits from the most significant one gives the number
modulo `b ^ w`. -/
theorem foldl_digits (b n w : ℕ) :
    ((List.range w).map fun j => digit b n (w - 1 - j)).foldl
      (fun acc d => b * acc + d) 0 = n % b ^ w := by
  induction w generalizing n with
  | zero => simp [Nat.mod_one]
  | succ w ih =>
      have hhead : ((List.range w).map fun j => digit b n (w + 1 - 1 - j))
          = (List.range w).map fun j => digit b (n / b) (w - 1 - j) := by
        apply List.map_congr_left
        intro j hj
        have hj' : j < w := List.mem_range.mp hj
        rw [show w + 1 - 1 - j = (w - 1 - j) + 1 by omega, digit_succ]
      rw [List.range_succ, List.map_append, List.foldl_append, hhead, ih]
      simp only [List.map_cons, List.map_nil, List.foldl_cons, List.foldl_nil]
      rw [show w + 1 - 1 - w = 0 by omega, digit_zero, pow_succ', Nat.mod_mul]
      ring

/-! ## The minimal numeral and its padding -/

/-- From the right, the minimal numeral lists the digits by weight. -/
theorem toDigits_reverse_getElem? {b : ℕ} (hb : 1 < b) (n i : ℕ)
    (hi : i < (Nat.toDigits b n).length) :
    (Nat.toDigits b n).reverse[i]? = some (Nat.digitChar (digit b n i)) := by
  induction i generalizing n with
  | zero =>
      rw [Nat.toDigits_eq_if hb, digit_zero]
      split
      · rename_i hlt
        simp [Nat.mod_eq_of_lt hlt]
      · simp
  | succ i ih =>
      rw [Nat.toDigits_eq_if hb] at hi ⊢
      split at hi
      · simp at hi
      · rename_i hge
        rw [if_neg hge, digit_succ]
        simpa using ih (n / b) (by simpa using hi)

theorem binary_digitChar {d : ℕ} (hd : d < 2) :
    (Nat.digitChar d = '0' ∧ d = 0) ∨ (Nat.digitChar d = '1' ∧ d = 1) := by
  obtain rfl | rfl : d = 0 ∨ d = 1 := by omega
  · exact Or.inl ⟨rfl, rfl⟩
  · exact Or.inr ⟨rfl, rfl⟩

theorem toDigits_two_binary (n : ℕ) : ∀ c ∈ Nat.toDigits 2 n, c = '0' ∨ c = '1' := by
  intro c hc
  obtain ⟨i, hi, rfl⟩ := List.getElem_of_mem (List.mem_reverse.mpr hc)
  have hi' : i < (Nat.toDigits 2 n).length := by simpa using hi
  have hget := toDigits_reverse_getElem? (by omega : 1 < 2) n i hi'
  rw [List.getElem?_eq_getElem hi, Option.some_inj] at hget
  rw [hget]
  exact (binary_digitChar (digit_lt (by omega) n i)).imp And.left And.left

/-- The minimal numeral, filled with zeros on the left up to width `w`. -/
def padDigits (b w n : ℕ) : List Char :=
  List.replicate (w - (Nat.toDigits b n).length) '0' ++ Nat.toDigits b n

theorem length_padDigits {b w n : ℕ} (hb : 1 < b) (hw : 0 < w) (hn : n < b ^ w) :
    (padDigits b w n).length = w := by
  have hle := (Nat.length_toDigits_le_iff hb hw).mpr hn
  rw [padDigits, List.length_append, List.length_replicate]
  omega

/-- Position `j` of the padded numeral holds the digit of weight
`b ^ (w - 1 - j)`, whether it is part of the numeral or of the padding. -/
theorem padDigits_getElem? {b w n : ℕ} (hb : 1 < b) (hw : 0 < w) (hn : n < b ^ w)
    {j : ℕ} (hj : j < w) :
    (padDigits b w n)[j]? = some (Nat.digitChar (digit b n (w - 1 - j))) := by
  have hle := (Nat.length_toDigits_le_iff hb hw).mpr hn
  by_cases hpad : j < w - (Nat.toDigits b n).length
  · have hlen : (Nat.toDigits b n).length ≤ w - 1 - j := by omega
    have hpos : 0 < w - 1 - j := lt_of_lt_of_le Nat.length_toDigits_pos hlen
    have hzero : digit b n (w - 1 - j) = 0 :=
      digit_eq_zero ((Nat.length_toDigits_le_iff hb hpos).mp hlen)
    rw [padDigits, List.getElem?_append_left (by simpa using hpad), hzero,
      List.getElem?_replicate, if_pos hpad]
    rfl
  · have hrev := toDigits_reverse_getElem? hb n (w - 1 - j) (by omega)
    rw [List.getElem?_reverse (by omega)] at hrev
    rw [padDigits, List.getElem?_append_right (by simpa using hpad),
      List.length_replicate, ← hrev]
    congr 1
    omega

/-- A padded numeral, position by position. -/
theorem padDigits_eq_map {b w n : ℕ} (hb : 1 < b) (hw : 0 < w) (hn : n < b ^ w) :
    padDigits b w n =
      (List.range w).map fun j => Nat.digitChar (digit b n (w - 1 - j)) := by
  apply List.ext_getElem?
  intro j
  by_cases hj : j < w
  · rw [padDigits_getElem? hb hw hn hj]
    simp [hj]
  · rw [List.getElem?_eq_none (by rw [length_padDigits hb hw hn]; omega),
      List.getElem?_eq_none (by simp; omega)]

/-! ## Bytes -/

/-- The number a byte string denotes, most significant byte first. -/
def beNat (bytes : List UInt8) : ℕ :=
  bytes.foldl (fun n byte => 256 * n + byte.toNat) 0

/-- The low `len` bytes of a number, most significant byte first. -/
def beBytes (len n : ℕ) : List UInt8 :=
  (List.range len).map fun j => UInt8.ofNat (digit 256 n (len - 1 - j))

end Numeral

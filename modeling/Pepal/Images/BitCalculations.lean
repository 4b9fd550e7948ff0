import Mathlib.Data.Nat.Choose.Basic
import Mathlib.Data.Nat.Factorial.BigOperators
import Pepal.Lib.Fallible
import Pepal.Lib.Occupancy

/-!
# The estimate of leaked bits

`bit_calculations.py`. A key has `k` bits, each watermarked into `l` cells, and
`m` of the `k * l` cells are leaked; `genList` lists an estimate of the number
of bits that are leaked with them, for several `m`. An exception of Python is
`none`. The numbers are exact: the division is that of the rationals, and the
rounding to four decimals is left out.
-/

namespace Pepal.Images

/-- `range(start, stop, step)`, for a step that is not 0. -/
def range (start stop step : ℤ) : List ℤ :=
  let length := if 0 < step then (stop - start + step - 1) / step
    else (start - stop - step - 1) / -step
  (List.range length.toNat).map fun i : ℕ => start + i * step

/-- `functools.reduce(op.mul, ..)`, which raises an exception for no numbers. -/
def reduceMul : List ℤ → Option ℤ
  | [] => none
  | x :: xs => some (xs.foldl (· * ·) x)

def ncr (n r : ℤ) : Option ℤ := do
  let r := min r (n - r)
  if r = 0 then return 1
  let numer ← reduceMul (range n (n - r) (-1))
  let denom ← reduceMul (range 1 (r + 1) 1)
  if denom = 0 then none else return numer.fdiv denom

/-- The `val` that `genList` computes for one `m`. -/
def leaked (k l m : ℤ) : Option ℚ := do
  let rest ← ncr ((k - 1) * l) m
  let all ← ncr (k * l) m
  if all = 0 then none
  else
    let ratio : ℚ := 1 - rest / all
    return k * ratio

/-- `k` is the global variable that the script sets. -/
def genList (k l : ℤ) : Option (List ℚ × List ℚ) := do
  let mval := range 50 (256 * l) 50
  let output ← mval.mapM (leaked k l)
  let mval2 := mval.map fun m : ℤ => (m * 100 : ℚ) / (256 * l)
  return (mval2, output)

/-! ## Binomial coefficients -/

theorem reduceMul_map (f : ℕ → ℤ) {n : ℕ} (hn : n ≠ 0) :
    reduceMul ((List.range n).map f) = some (∏ i ∈ Finset.range n, f i) := by
  obtain ⟨n, rfl⟩ := Nat.exists_eq_succ_of_ne_zero hn
  have hfold : ∀ (xs : List ℤ) (x : ℤ), xs.foldl (· * ·) x = x * xs.prod := by
    intro xs
    induction xs with
    | nil => simp
    | cons y ys ih =>
        intro x
        rw [List.foldl_cons, ih, List.prod_cons, mul_assoc]
  rw [List.range_succ_eq_map, List.map_cons, reduceMul, hfold, ← List.prod_cons, ← List.map_cons,
    ← List.range_succ_eq_map]
  rfl

theorem range_down (n r : ℕ) :
    range n ((n : ℤ) - r) (-1) = (List.range r).map fun i : ℕ => (n : ℤ) - i := by
  have hlength : ((n : ℤ) - ((n : ℤ) - r) - -1 - 1) / - -1 = r := by
    rw [neg_neg, Int.ediv_one]
    ring
  unfold range
  dsimp only
  rw [if_neg (by omega), hlength, Int.toNat_natCast]
  apply List.map_congr_left
  intro i _
  ring

theorem range_up (r : ℕ) :
    range 1 ((r : ℤ) + 1) 1 = (List.range r).map fun i : ℕ => (i : ℤ) + 1 := by
  have hlength : ((r : ℤ) + 1 - 1 + 1 - 1) / 1 = r := by
    rw [Int.ediv_one]
    ring
  unfold range
  dsimp only
  rw [if_pos (by omega), hlength, Int.toNat_natCast]
  apply List.map_congr_left
  intro i _
  ring

/-- The numerator is a falling product. -/
theorem reduceMul_down {n r : ℕ} (hr : r ≠ 0) (hrn : r ≤ n) :
    reduceMul (range n ((n : ℤ) - r) (-1)) = some (n.descFactorial r : ℤ) := by
  rw [range_down, reduceMul_map _ hr, Nat.descFactorial_eq_prod_range, Nat.cast_prod]
  congr 1
  apply Finset.prod_congr rfl
  intro i hi
  have hle : i ≤ n := by
    have hlt := Finset.mem_range.mp hi
    omega
  rw [Nat.cast_sub hle]

theorem reduceMul_up {r : ℕ} (hr : r ≠ 0) :
    reduceMul (range 1 ((r : ℤ) + 1) 1) = some (r.factorial : ℤ) := by
  rw [range_up, reduceMul_map _ hr, ← Finset.prod_range_add_one_eq_factorial, Nat.cast_prod]
  rfl

/-- **`ncr` is the binomial coefficient**, up to the size of the whole. -/
theorem ncr_eq_choose {n m : ℕ} (hm : m ≤ n) : ncr n m = some (n.choose m : ℤ) := by
  -- the smaller of the two sides is taken
  obtain ⟨r, hr, hrn, hchoose⟩ : ∃ r : ℕ, min (m : ℤ) ((n : ℤ) - m) = r ∧ r ≤ n ∧
      n.choose r = n.choose m := by
    rcases le_total m (n - m) with hle | hle
    · exact ⟨m, by omega, hm, rfl⟩
    · exact ⟨n - m, by omega, by omega, Nat.choose_symm hm⟩
  unfold ncr
  rw [hr]
  by_cases hzero : r = 0
  · subst hzero
    rw [← hchoose, Nat.choose_zero_right]
    rfl
  · have hzero' : ((r : ℕ) : ℤ) ≠ 0 := Nat.cast_ne_zero.mpr hzero
    have hfactorial : (r.factorial : ℤ) ≠ 0 := Nat.cast_ne_zero.mpr r.factorial_ne_zero
    have hquotient : (n.descFactorial r : ℤ).fdiv (r.factorial : ℤ) = (n.choose m : ℤ) := by
      rw [← hchoose, Nat.choose_eq_descFactorial_div_factorial,
        Int.fdiv_eq_ediv_of_nonneg _ (Int.natCast_nonneg _), Int.natCast_ediv]
    simp only [if_neg hzero', reduceMul_down hzero hrn, reduceMul_up hzero, Option.pure_def,
      Option.bind_eq_bind, Option.bind_some, if_neg hfactorial, hquotient]

/-! ## The estimate -/

/-- The bit that a cell carries. -/
def bitOfCell {k l : ℕ} (cell : Fin k × Fin l) : Fin k := cell.1

theorem card_others (k l : ℕ) (bit : Fin k) :
    (Occupancy.others (bitOfCell (l := l)) bit).card = (k - 1) * l := by
  have hothers : Occupancy.others (bitOfCell (l := l)) bit = {bit}ᶜ ×ˢ Finset.univ := by
    ext cell
    simp [Occupancy.mem_others, bitOfCell]
  rw [hothers, Finset.card_product, Finset.card_compl, Finset.card_singleton, Fintype.card_fin,
    Finset.card_univ, Fintype.card_fin]

/-- The estimate in binomial coefficients, up to the size of what is left without
a bit. -/
theorem leaked_eq_ratio {k l m : ℕ} (hk : 1 ≤ k) (hm : m ≤ (k - 1) * l) :
    leaked k l m =
      some (k * (1 - (((k - 1) * l).choose m : ℚ) / ((k * l).choose m : ℚ))) := by
  have hle : m ≤ k * l := le_trans hm (Nat.mul_le_mul_right l (Nat.sub_le k 1))
  have hrest : ((k : ℤ) - 1) * l = ((k - 1) * l : ℕ) := by
    rw [Nat.cast_mul, Nat.cast_sub hk, Nat.cast_one]
  have hall : (k : ℤ) * l = (k * l : ℕ) := (Nat.cast_mul k l).symm
  have hpos : ((k * l).choose m : ℤ) ≠ 0 := Nat.cast_ne_zero.mpr (Nat.choose_pos hle).ne'
  unfold leaked
  rw [hrest, hall]
  simp only [ncr_eq_choose hm, ncr_eq_choose hle, Option.pure_def, Option.bind_eq_bind,
    Option.bind_some, if_neg hpos, Int.cast_natCast]

/-- **The estimate is the expectation**: the average, over all choices of `m`
cells of the `k * l`, of the number of bits with a chosen cell. -/
theorem leaked_eq_average {k l m : ℕ} (hk : 1 ≤ k) (hm : m ≤ (k - 1) * l) :
    leaked k l m = some (Occupancy.average (bitOfCell (k := k) (l := l)) m) := by
  have hcells : Fintype.card (Fin k × Fin l) = k * l := by
    rw [Fintype.card_prod, Fintype.card_fin, Fintype.card_fin]
  have hle : m ≤ k * l := le_trans hm (Nat.mul_le_mul_right l (Nat.sub_le k 1))
  have haverage := Occupancy.average_hit (bitOfCell (k := k) (l := l)) (card_others k l)
    (hle.trans_eq hcells.symm)
  rw [hcells, Fintype.card_fin] at haverage
  rw [leaked_eq_ratio hk hm, haverage]

theorem leaked_eq_average_two :
    leaked (2 : ℕ) (2 : ℕ) (1 : ℕ) =
      some (Occupancy.average (bitOfCell (k := 2) (l := 2)) 1) :=
  leaked_eq_average (by decide) (by decide)

/-! ## The samples -/

/-- `ncr` raises an exception for more than the whole: the other side is smaller
than 0, and there are no numbers to multiply. -/
theorem ncr_eq_none {n m : ℕ} (hm : n < m) : ncr n m = none := by
  have hmin : min (m : ℤ) ((n : ℤ) - m) = (n : ℤ) - m := min_eq_right (by omega)
  have hzero : (n : ℤ) - m ≠ 0 := by omega
  have hempty : range n ((n : ℤ) - ((n : ℤ) - m)) (-1) = [] := by
    have hlength : (((n : ℤ) - ((n : ℤ) - ((n : ℤ) - m)) - -1 - 1) / - -1).toNat = 0 := by
      rw [neg_neg, Int.ediv_one]
      omega
    unfold range
    dsimp only
    rw [if_neg (by omega), hlength]
    rfl
  unfold ncr
  rw [hmin]
  simp only [if_neg hzero, hempty, reduceMul, Option.bind_eq_bind, Option.bind_none]

/-- The samples are the multiples of 50 below the number of cells. -/
theorem mem_samples {l : ℕ} {x : ℤ} :
    x ∈ range 50 (256 * (l : ℤ)) 50 ↔ ∃ i : ℕ, x = (50 * (i + 1) : ℕ) ∧ x < 256 * l := by
  unfold range
  dsimp only
  rw [if_pos (by omega), List.mem_map]
  constructor
  · rintro ⟨i, hi, rfl⟩
    have hlt := List.mem_range.mp hi
    exact ⟨i, by omega, by omega⟩
  · rintro ⟨i, rfl, hlt⟩
    exact ⟨i, List.mem_range.mpr (by omega), by omega⟩

/-- For a key of 256 bits `genList` raises no exception: for every sample both
calls of `ncr` give the binomial coefficient, and the division is not by 0. -/
structure Defined (l : ℕ) : Prop where
  rest : ∀ m : ℕ, (m : ℤ) ∈ range 50 (256 * (l : ℤ)) 50 →
    ncr ((256 - 1) * l) m = some (((256 - 1) * l).choose m : ℤ)
  all : ∀ m : ℕ, (m : ℤ) ∈ range 50 (256 * (l : ℤ)) 50 →
    ncr (256 * l) m = some ((256 * l).choose m : ℤ)
  divisor : ∀ m : ℕ, (m : ℤ) ∈ range 50 (256 * (l : ℤ)) 50 → ncr (256 * l) m ≠ some 0
  returns : ∃ lists, genList 256 l = some lists

theorem cast_rest (l : ℕ) : ((256 : ℤ) - 1) * l = ((256 - 1) * l : ℕ) := by
  push_cast
  ring

theorem cast_all (l : ℕ) : (256 : ℤ) * l = (256 * l : ℕ) := by
  push_cast
  ring

/-- A multiple of 50 is below `255 * l`, or it is not below the next one, which
`5 * l % 50` tells. -/
theorem sample_le {l m : ℕ} (h : l + 5 * l % 50 ≤ 50)
    (hm : (m : ℤ) ∈ range 50 (256 * (l : ℤ)) 50) : m ≤ (256 - 1) * l := by
  obtain ⟨i, hi, hlt⟩ := mem_samples.mp hm
  rcases Nat.lt_or_ge i (5 * l + 5 * l / 50) with hbelow | habove
  · omega
  · omega

theorem sample_gt {l : ℕ} (h : 50 < l + 5 * l % 50) :
    ∃ m : ℕ, (m : ℤ) ∈ range 50 (256 * (l : ℤ)) 50 ∧ (256 - 1) * l < m := by
  refine ⟨50 * (5 * l + 5 * l / 50 + 1), mem_samples.mpr ?_, ?_⟩
  · exact ⟨5 * l + 5 * l / 50, rfl, by omega⟩
  · omega

theorem genList_returns {l : ℕ} (h : l + 5 * l % 50 ≤ 50) :
    ∃ lists, genList 256 l = some lists := by
  have hleaked : ∀ x ∈ range 50 (256 * (l : ℤ)) 50, leaked 256 l x =
      some (256 * (1 - (((256 - 1) * l).choose x.toNat : ℚ) / ((256 * l).choose x.toNat : ℚ))) := by
    intro x hx
    obtain ⟨i, rfl, -⟩ := mem_samples.mp hx
    exact leaked_eq_ratio (k := 256) (by decide) (sample_le h hx)
  unfold genList
  dsimp only
  rw [Fallible.mapM_of_some hleaked]
  exact ⟨_, rfl⟩

/-- One sample above `255 * l`, and `genList` raises an exception. -/
theorem genList_eq_none {l : ℕ} (h : 50 < l + 5 * l % 50) : genList 256 l = none := by
  obtain ⟨m, hm, hgt⟩ := sample_gt h
  have hraises : leaked 256 l m = none := by
    unfold leaked
    rw [cast_rest, ncr_eq_none hgt]
    rfl
  rw [Option.eq_none_iff_forall_ne_some]
  intro lists hlists
  obtain ⟨output, houtput, -⟩ := Option.bind_eq_some_iff.mp hlists
  obtain ⟨val, hval⟩ := Fallible.exists_of_mapM houtput hm
  cases hraises.symm.trans hval

/-- **When `genList` is defined**: no multiple of 50 lies strictly between
`255 * l` and `256 * l`. -/
theorem defined_iff (l : ℕ) : Defined l ↔ l + 5 * l % 50 ≤ 50 := by
  constructor
  · intro hdefined
    obtain ⟨lists, hlists⟩ := hdefined.returns
    by_contra hgt
    rw [genList_eq_none (by omega)] at hlists
    cases hlists
  · intro h
    have hle : ∀ m : ℕ, (m : ℤ) ∈ range 50 (256 * (l : ℤ)) 50 → m ≤ 256 * l := by
      intro m hm
      have hbelow := sample_le h hm
      omega
    constructor
    · intro m hm
      rw [cast_rest]
      exact ncr_eq_choose (sample_le h hm)
    · intro m hm
      rw [cast_all]
      exact ncr_eq_choose (hle m hm)
    · intro m hm hzero
      rw [cast_all, ncr_eq_choose (hle m hm)] at hzero
      exact (Nat.choose_pos (hle m hm)).ne' (Nat.cast_eq_zero.mp (Option.some.inj hzero))
    · exact genList_returns h

/-- With 9 cells for each bit the sample 2300 is above `255 * 9 = 2295`. -/
theorem genList_nine :
    (2300 : ℤ) ∈ range 50 (256 * 9) 50 ∧ ncr (255 * 9) 2300 = none ∧ genList 256 9 = none ∧
      ¬ Defined 9 := by
  refine ⟨?_, ncr_eq_none (n := 2295) (m := 2300) (by decide), ?_, ?_⟩
  · exact (mem_samples (l := 9)).mpr ⟨45, rfl, by decide⟩
  · exact genList_eq_none (l := 9) (by decide)
  · intro hdefined
    obtain ⟨lists, hlists⟩ := hdefined.returns
    cases (genList_eq_none (l := 9) (by decide)).symm.trans hlists

end Pepal.Images

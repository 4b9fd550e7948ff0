import Pepal.Lib.Numeral
import Mathlib.Data.List.TakeWhile

/-!
# Decimal text

Integers as signed decimal numerals, the inverse, and fields of fixed width as
dates have them.
-/

namespace Numeral

/-! ## Signed numerals -/

def decimal (n : ℤ) : List Char :=
  if n < 0 then '-' :: Nat.toDigits 10 n.natAbs else Nat.toDigits 10 n.natAbs

/-- One digit or more, and nothing else. -/
def ofDigits (text : List Char) : Option ℕ :=
  if text ≠ [] ∧ text.all Char.isDigit = true then some (Nat.ofDigitChars 10 text 0) else none

/-- An optional sign and digits. -/
def ofDecimal (text : List Char) : Option ℤ :=
  match text with
  | '-' :: digits => (ofDigits digits).map fun n : ℕ => -(n : ℤ)
  | '+' :: digits => (ofDigits digits).map fun n : ℕ => (n : ℤ)
  | digits => (ofDigits digits).map fun n : ℕ => (n : ℤ)

theorem isDigit_toDigits {n : ℕ} {c : Char} (hc : c ∈ Nat.toDigits 10 n) : c.isDigit = true :=
  Nat.isDigit_of_mem_toDigits (by omega) (by omega) hc

theorem all_toDigits (n : ℕ) : (Nat.toDigits 10 n).all Char.isDigit = true :=
  List.all_eq_true.mpr fun _ hc => isDigit_toDigits hc

theorem ofDigits_toDigits (n : ℕ) : ofDigits (Nat.toDigits 10 n) = some n := by
  unfold ofDigits
  rw [if_pos ⟨Nat.toDigits_ne_nil, all_toDigits n⟩, Nat.ofDigitChars_ten_toDigits]

/-- A numeral without sign starts with a digit. -/
theorem toDigits_ne_sign (n : ℕ) {c : Char} {rest : List Char} (hc : c.isDigit = false) :
    Nat.toDigits 10 n ≠ c :: rest := by
  intro h
  have hdigit : c.isDigit = true := isDigit_toDigits (by rw [h]; exact List.mem_cons_self)
  rw [hc] at hdigit
  cases hdigit

theorem ofDecimal_toDigits (n : ℕ) : ofDecimal (Nat.toDigits 10 n) = some (n : ℤ) := by
  unfold ofDecimal
  split
  · rename_i h
    exact absurd h (toDigits_ne_sign n (by decide))
  · rename_i h
    exact absurd h (toDigits_ne_sign n (by decide))
  · rw [ofDigits_toDigits]
    rfl

/-- **An integer is read back from its numeral.** -/
theorem ofDecimal_decimal (n : ℤ) : ofDecimal (decimal n) = some n := by
  unfold decimal
  by_cases hn : n < 0
  · rw [if_pos hn]
    show (ofDigits (Nat.toDigits 10 n.natAbs)).map (fun m : ℕ => -(m : ℤ)) = some n
    rw [ofDigits_toDigits, Option.map_some]
    congr 1
    omega
  · rw [if_neg hn, ofDecimal_toDigits]
    congr 1
    omega

/-- Only zero has a leading zero. -/
theorem toDigits_head {n : ℕ} (hn : 0 < n) :
    ∃ c rest, Nat.toDigits 10 n = c :: rest ∧ c ≠ '0' ∧ c.isDigit = true := by
  induction n using Nat.strongRecOn with
  | ind n ih =>
      rw [Nat.toDigits_eq_if (by omega)]
      by_cases hlt : n < 10
      · rw [if_pos hlt]
        have key : ∀ d < 10, 0 < d → Nat.digitChar d ≠ '0' ∧ (Nat.digitChar d).isDigit = true := by
          decide
        exact ⟨_, _, rfl, (key n hlt hn).1, (key n hlt hn).2⟩
      · rw [if_neg hlt]
        obtain ⟨c, rest, htext, hc, hdigit⟩ := ih (n / 10) (by omega) (by omega)
        rw [htext]
        exact ⟨c, _, rfl, hc, hdigit⟩

/-- The text is a decimal integer: an optional sign, and digits. -/
def Decimal (text : List Char) (n : ℤ) : Prop :=
  ∃ digits : List Char, digits ≠ [] ∧ digits.all Char.isDigit = true ∧
    ((text = digits ∧ n = Nat.ofDigitChars 10 digits 0) ∨
      (text = '+' :: digits ∧ n = Nat.ofDigitChars 10 digits 0) ∨
      (text = '-' :: digits ∧ n = -(Nat.ofDigitChars 10 digits 0 : ℕ)))

theorem ofDigits_eq_some {text : List Char} {n : ℕ} :
    ofDigits text = some n ↔
      text ≠ [] ∧ text.all Char.isDigit = true ∧ Nat.ofDigitChars 10 text 0 = n := by
  unfold ofDigits
  split
  · rename_i h
    rw [Option.some.injEq, and_iff_right h.1, and_iff_right h.2]
  · rename_i h
    constructor
    · intro hnone
      cases hnone
    · rintro ⟨hne, hdigits, -⟩
      exact absurd ⟨hne, hdigits⟩ h

theorem map_ofDigits_eq_some {text : List Char} {f : ℕ → ℤ} {n : ℤ} :
    (ofDigits text).map f = some n ↔
      text ≠ [] ∧ text.all Char.isDigit = true ∧ f (Nat.ofDigitChars 10 text 0) = n := by
  rw [Option.map_eq_some_iff]
  constructor
  · rintro ⟨m, hm, rfl⟩
    obtain ⟨hne, hdigits, rfl⟩ := ofDigits_eq_some.mp hm
    exact ⟨hne, hdigits, rfl⟩
  · rintro ⟨hne, hdigits, rfl⟩
    exact ⟨_, ofDigits_eq_some.mpr ⟨hne, hdigits, rfl⟩, rfl⟩

/-- Digits do not start with a sign. -/
theorem digits_ne_sign {digits : List Char} (h : digits.all Char.isDigit = true) {c : Char}
    {rest : List Char} (hc : c.isDigit = false) : digits ≠ c :: rest := by
  rintro rfl
  rw [List.all_cons, hc] at h
  cases h

/-- **The texts that are read as a number.** -/
theorem ofDecimal_eq_some {text : List Char} {n : ℤ} :
    ofDecimal text = some n ↔ Decimal text n := by
  constructor
  · intro h
    unfold ofDecimal at h
    split at h
    · obtain ⟨hne, hdigits, rfl⟩ := map_ofDigits_eq_some.mp h
      exact ⟨_, hne, hdigits, Or.inr (Or.inr ⟨rfl, rfl⟩)⟩
    · obtain ⟨hne, hdigits, rfl⟩ := map_ofDigits_eq_some.mp h
      exact ⟨_, hne, hdigits, Or.inr (Or.inl ⟨rfl, rfl⟩)⟩
    · obtain ⟨hne, hdigits, rfl⟩ := map_ofDigits_eq_some.mp h
      exact ⟨_, hne, hdigits, Or.inl ⟨rfl, rfl⟩⟩
  · rintro ⟨digits, hne, hdigits, ⟨rfl, rfl⟩ | ⟨rfl, rfl⟩ | ⟨rfl, rfl⟩⟩
    · unfold ofDecimal
      split
      · exact absurd rfl (digits_ne_sign hdigits (by decide))
      · exact absurd rfl (digits_ne_sign hdigits (by decide))
      · exact map_ofDigits_eq_some.mpr ⟨hne, hdigits, rfl⟩
    · exact map_ofDigits_eq_some.mpr ⟨hne, hdigits, rfl⟩
    · exact map_ofDigits_eq_some.mpr ⟨hne, hdigits, rfl⟩

theorem dropWhile_digits {text : List Char} (h : text.all Char.isDigit = true) :
    text.dropWhile Char.isDigit = [] :=
  List.dropWhile_eq_nil_iff.mpr (List.all_eq_true.mp h)

/-! ## Fields of fixed width -/

/-- The field of `w` digits at the start of a text, and the rest. -/
def takeField (w : ℕ) (text : List Char) : Option (ℕ × List Char) :=
  if (text.take w).length = w ∧ (text.take w).all Char.isDigit = true then
    some (Nat.ofDigitChars 10 (text.take w) 0, text.drop w)
  else none

theorem ofDigitChars_lt {text : List Char} (h : text.all Char.isDigit = true) (value : ℕ) :
    Nat.ofDigitChars 10 text value < (value + 1) * 10 ^ text.length := by
  induction text generalizing value with
  | nil => simp [Nat.ofDigitChars_nil]
  | cons c text ih =>
      rw [List.all_cons, Bool.and_eq_true] at h
      have hc : c.toNat - 48 < 10 := by
        have hdigit := h.1
        unfold Char.isDigit at hdigit
        rw [Bool.and_eq_true, decide_eq_true_eq, decide_eq_true_eq] at hdigit
        have htoNat : c.toNat ≤ 57 := hdigit.2
        omega
      rw [Nat.ofDigitChars_cons, List.length_cons, pow_succ]
      calc Nat.ofDigitChars 10 text (10 * value + (c.toNat - '0'.toNat))
          < (10 * value + (c.toNat - '0'.toNat) + 1) * 10 ^ text.length := ih h.2 _
        _ ≤ ((value + 1) * 10) * 10 ^ text.length :=
            Nat.mul_le_mul_right _ (by
              have hzero : '0'.toNat = 48 := rfl
              omega)
        _ = (value + 1) * (10 ^ text.length * 10) := by ring

/-- The text is a field of `w` digits with the value. -/
structure Field (w : ℕ) (text : List Char) (n : ℕ) : Prop where
  width : text.length = w
  digits : text.all Char.isDigit = true
  value : Nat.ofDigitChars 10 text 0 = n

theorem takeField_eq_some {w n : ℕ} {text rest : List Char} :
    takeField w text = some (n, rest) ↔ ∃ field, Field w field n ∧ text = field ++ rest := by
  constructor
  · intro h
    unfold takeField at h
    split at h
    · rename_i hfield
      obtain ⟨hvalue, hrest⟩ := Prod.mk.inj (Option.some.inj h)
      refine ⟨text.take w, ⟨hfield.1, hfield.2, hvalue⟩, ?_⟩
      rw [← hrest, List.take_append_drop]
    · cases h
  · rintro ⟨field, hfield, rfl⟩
    unfold takeField
    rw [List.take_left' hfield.width, List.drop_left' hfield.width,
      if_pos ⟨hfield.width, hfield.digits⟩, hfield.value]

theorem takeField_lt {w n : ℕ} {text rest : List Char} (h : takeField w text = some (n, rest)) :
    n < 10 ^ w := by
  unfold takeField at h
  split at h
  · rename_i hfield
    obtain ⟨rfl, -⟩ := Prod.mk.inj (Option.some.inj h)
    have hlt := ofDigitChars_lt hfield.2 0
    rwa [hfield.1, Nat.zero_add, one_mul] at hlt
  · cases h

theorem ofDigitChars_padDigits (w n : ℕ) : Nat.ofDigitChars 10 (padDigits 10 w n) 0 = n := by
  rw [padDigits, Nat.ofDigitChars_append, Nat.ofDigitChars_replicate_zero, Nat.mul_zero,
    Nat.ofDigitChars_ten_toDigits]

theorem all_padDigits (w n : ℕ) : (padDigits 10 w n).all Char.isDigit = true := by
  rw [padDigits, List.all_append, all_toDigits, Bool.and_true, List.all_eq_true]
  intro c hc
  rw [List.eq_of_mem_replicate hc]
  decide

/-- A padded field is read back, whatever follows it. -/
theorem takeField_padDigits {w n : ℕ} (hw : 0 < w) (hn : n < 10 ^ w) (rest : List Char) :
    takeField w (padDigits 10 w n ++ rest) = some (n, rest) := by
  have hlength := length_padDigits (by omega : 1 < 10) hw hn
  unfold takeField
  rw [List.take_left' hlength, List.drop_left' hlength, if_pos ⟨hlength, all_padDigits w n⟩,
    ofDigitChars_padDigits]

end Numeral

import Pepal.Lib.Decimal

/-!
# The Go functions the chaincodes call on text

`strconv`, `strings` and `big.Int.SetString`, as documented. A Go `int` has 64
bits; sums and differences wrap around.
-/

namespace Pepal.Chain

/-! ## strconv -/

def minInt : ℤ := -2 ^ 63
def maxInt : ℤ := 2 ^ 63 - 1

/-- The value of an `int` after an operation. -/
def wrapInt (n : ℤ) : ℤ := Int.bmod n (2 ^ 64)

def Itoa (n : ℤ) : String := String.ofList (Numeral.decimal n)

/-- `strconv.Atoi`: the number, and whether the error is not nil. Text that is
no numeral gives 0, a numeral out of range the nearest `int`. -/
def Atoi (s : String) : ℤ × Bool :=
  match Numeral.ofDecimal s.toList with
  | none => (0, true)
  | some n =>
      if n < minInt then (minInt, true)
      else if maxInt < n then (maxInt, true)
      else (n, false)

theorem wrapInt_eq {n : ℤ} (hmin : minInt ≤ n) (hmax : n ≤ maxInt) : wrapInt n = n := by
  unfold minInt at hmin
  unfold maxInt at hmax
  exact Int.bmod_eq_of_le (by omega) (by omega)

/-- Below the range the value comes out at its top. -/
theorem wrapInt_of_lt {n : ℤ} (hlow : -2 ^ 64 ≤ n) (hn : n < minInt) : wrapInt n = n + 2 ^ 64 := by
  have hshift : wrapInt (n + 2 ^ 64) = wrapInt n := Int.add_bmod_right n (2 ^ 64)
  unfold minInt at hn
  rw [← hshift]
  apply wrapInt_eq
  · unfold minInt
    omega
  · unfold maxInt
    omega

/-- A difference is not more than what was taken from, unless it wraps. -/
theorem wrapInt_sub_le_iff {b d : ℤ} (hb : minInt ≤ b ∧ b ≤ maxInt) (hd : 0 ≤ d ∧ d ≤ maxInt) :
    wrapInt (b - d) ≤ b ↔ minInt ≤ b - d := by
  obtain ⟨hlow, hhigh⟩ := hb
  obtain ⟨hnonneg, hmax⟩ := hd
  constructor
  · intro hle
    by_contra hlt
    have hwrap : wrapInt (b - d) = b - d + 2 ^ 64 := by
      apply wrapInt_of_lt
      · unfold minInt at hlow
        unfold maxInt at hmax
        omega
      · omega
    rw [hwrap] at hle
    unfold maxInt at hmax
    omega
  · intro hmin
    rw [wrapInt_eq hmin (by omega)]
    omega

/-- A difference of two numbers that are not negative is in range. -/
theorem wrapInt_sub_of_nonneg {b d : ℤ} (hb : 0 ≤ b ∧ b ≤ maxInt) (hd : 0 ≤ d ∧ d ≤ maxInt) :
    wrapInt (b - d) = b - d := by
  obtain ⟨hb, hhigh⟩ := hb
  obtain ⟨hd, hmax⟩ := hd
  apply wrapInt_eq
  · unfold maxInt at hmax
    unfold minInt
    omega
  · omega

theorem minInt_le_wrapInt (n : ℤ) : minInt ≤ wrapInt n := by
  have h := Int.le_bmod (x := n) (m := 2 ^ 64) (by omega)
  unfold minInt wrapInt
  omega

theorem wrapInt_le_maxInt (n : ℤ) : wrapInt n ≤ maxInt := by
  have h := Int.bmod_lt (x := n) (m := 2 ^ 64) (by omega)
  unfold maxInt wrapInt
  omega

/-- Taking the same from two numbers in range, with or without wrapping, keeps
them apart. -/
theorem wrapInt_sub_inj {a b d : ℤ} (ha : minInt ≤ a ∧ a ≤ maxInt) (hb : minInt ≤ b ∧ b ≤ maxInt)
    (h : wrapInt (a - d) = wrapInt (b - d)) : a = b := by
  have hadd := Int.add_bmod_eq_add_bmod_right d h
  rw [sub_add_cancel, sub_add_cancel] at hadd
  change wrapInt a = wrapInt b at hadd
  rwa [wrapInt_eq ha.1 ha.2, wrapInt_eq hb.1 hb.2] at hadd

/-- An operation is exact when its value is in range. -/
theorem wrapInt_eq_iff {n : ℤ} : wrapInt n = n ↔ minInt ≤ n ∧ n ≤ maxInt := by
  constructor
  · intro h
    rw [← h]
    exact ⟨minInt_le_wrapInt n, wrapInt_le_maxInt n⟩
  · rintro ⟨hmin, hmax⟩
    exact wrapInt_eq hmin hmax

theorem minInt_le_Atoi (s : String) : minInt ≤ (Atoi s).1 := by
  unfold Atoi
  split
  · decide
  · split
    · exact le_refl _
    · split
      · decide
      · show minInt ≤ _
        omega

theorem Atoi_le_maxInt (s : String) : (Atoi s).1 ≤ maxInt := by
  unfold Atoi
  split
  · decide
  · split
    · decide
    · split
      · exact le_refl _
      · show _ ≤ maxInt
        omega

/-- **What `Itoa` writes `Atoi` reads.** -/
theorem Atoi_Itoa {n : ℤ} (hmin : minInt ≤ n) (hmax : n ≤ maxInt) : Atoi (Itoa n) = (n, false) := by
  unfold Atoi Itoa
  rw [String.toList_ofList, Numeral.ofDecimal_decimal]
  show (if n < minInt then _ else if maxInt < n then _ else _) = _
  rw [if_neg (by omega), if_neg (by omega)]

/-- **When `Atoi` succeeds**: on the decimal integers that are an `int`. -/
theorem Atoi_ok {s : String} {n : ℤ} :
    Atoi s = (n, false) ↔ Numeral.Decimal s.toList n ∧ minInt ≤ n ∧ n ≤ maxInt := by
  rw [← Numeral.ofDecimal_eq_some]
  unfold Atoi
  cases Numeral.ofDecimal s.toList with
  | none => simp
  | some m =>
      dsimp only
      split
      · rename_i hlow
        simp only [Prod.mk.injEq, Bool.true_eq_false, and_false, Option.some.injEq, false_iff]
        rintro ⟨rfl, hmin, -⟩
        exact absurd hlow (not_lt.mpr hmin)
      · rename_i hlow
        split
        · rename_i hhigh
          simp only [Prod.mk.injEq, Bool.true_eq_false, and_false, Option.some.injEq, false_iff]
          rintro ⟨rfl, -, hmax⟩
          exact absurd hhigh (not_lt.mpr hmax)
        · rename_i hhigh
          simp only [Prod.mk.injEq, and_true, Option.some.injEq]
          constructor
          · rintro rfl
            exact ⟨rfl, not_lt.mp hlow, not_lt.mp hhigh⟩
          · exact And.left

/-- An amount that is read and is not negative passes the check of a request. -/
theorem not_invalid {amount : ℤ} (h : 0 ≤ amount) : ¬ (false = true ∨ amount < 0) := by
  rintro (hfalse | hneg)
  · cases hfalse
  · exact absurd h (not_le.mpr hneg)

/-- A balance that was computed reads back as computed. -/
theorem Atoi_Itoa_wrapInt (n : ℤ) : (Atoi (Itoa (wrapInt n))).1 = wrapInt n := by
  rw [Atoi_Itoa (minInt_le_wrapInt n) (wrapInt_le_maxInt n)]

/-! ## strings -/

/-- The pieces of a text between separators. -/
def splitAt (sep : Char) : List Char → List (List Char)
  | [] => [[]]
  | c :: text =>
      if c = sep then [] :: splitAt sep text
      else match splitAt sep text with
        | piece :: pieces => (c :: piece) :: pieces
        | [] => [[c]]

/-- `strings.Split(s, ",")` -/
def Split (s : String) : List String := (splitAt ',' s.toList).map String.ofList

/-- `strings.Join(elems, ",")` -/
def Join (elems : List String) : String := String.intercalate "," elems

theorem splitAt_append {sep : Char} {piece : List Char} (h : sep ∉ piece) (text : List Char) :
    splitAt sep (piece ++ sep :: text) = piece :: splitAt sep text := by
  induction piece with
  | nil => exact if_pos rfl
  | cons c piece ih =>
      have hc : c ≠ sep := fun heq => h (by rw [heq]; exact List.mem_cons_self)
      have hrest := ih fun hmem => h (List.mem_cons_of_mem _ hmem)
      rw [List.cons_append, splitAt, if_neg hc, hrest]

theorem splitAt_eq {sep : Char} {piece : List Char} (h : sep ∉ piece) :
    splitAt sep piece = [piece] := by
  induction piece with
  | nil => rfl
  | cons c piece ih =>
      have hc : c ≠ sep := fun heq => h (by rw [heq]; exact List.mem_cons_self)
      have hrest := ih fun hmem => h (List.mem_cons_of_mem _ hmem)
      rw [splitAt, if_neg hc, hrest]

theorem comma_not_mem_decimal (n : ℤ) : ',' ∉ Numeral.decimal n := by
  intro hmem
  have hdigits : ',' ∉ Nat.toDigits 10 n.natAbs := fun h =>
    absurd (Numeral.isDigit_toDigits h) (by decide)
  unfold Numeral.decimal at hmem
  split at hmem
  · rcases List.mem_cons.mp hmem with hsign | hrest
    · exact absurd hsign (by decide)
    · exact hdigits hrest
  · exact hdigits hmem

/-- Two numbers with a comma between them. -/
theorem Split_pair (r s : ℤ) : Split (Itoa r ++ "," ++ Itoa s) = [Itoa r, Itoa s] := by
  have htext :
      (Itoa r ++ "," ++ Itoa s).toList = Numeral.decimal r ++ ',' :: Numeral.decimal s := by
    unfold Itoa
    rw [String.toList_append, String.toList_append, String.toList_ofList (l := Numeral.decimal r),
      String.toList_ofList (l := Numeral.decimal s), List.append_assoc]
    rfl
  unfold Split
  rw [htext, splitAt_append (comma_not_mem_decimal r), splitAt_eq (comma_not_mem_decimal s)]
  rfl

/-! ## big.Int -/

def digitValue (c : Char) : Option ℕ :=
  if '0' ≤ c ∧ c ≤ '9' then some (c.toNat - 48)
  else if 'a' ≤ c ∧ c ≤ 'z' then some (c.toNat - 87)
  else if 'A' ≤ c ∧ c ≤ 'Z' then some (c.toNat - 55)
  else none

/-- The digit loop of `nat.scan`: value and number of the digits. `prev` is
`'0'` after a digit or a base prefix, where an underscore may follow, `'_'`
after an underscore, where a digit must, and `'.'` at the start. -/
def scanDigits (base : ℕ) : List Char → ℕ → ℕ → Char → Option (ℕ × ℕ)
  | [], value, count, prev => if prev = '_' then none else some (value, count)
  | c :: text, value, count, prev =>
      if c = '_' then
        if prev = '0' then scanDigits base text value count '_' else none
      else match digitValue c with
        | some d =>
            if d < base then scanDigits base text (base * value + d) (count + 1) '0' else none
        | none => none

/-- The numeral without sign in base 0: the base is read off the prefix. -/
def scanNat : List Char → Option ℕ
  | '0' :: c :: text =>
      if c = 'x' ∨ c = 'X' then prefixed 16 text
      else if c = 'o' ∨ c = 'O' then prefixed 8 text
      else if c = 'b' ∨ c = 'B' then prefixed 2 text
      else (scanDigits 8 (c :: text) 0 0 '0').map Prod.fst
  | text => unprefixed text
where
  prefixed (base : ℕ) (text : List Char) : Option ℕ :=
    match scanDigits base text 0 0 '0' with
    | some (value, count) => if count = 0 then none else some value
    | none => none
  unprefixed (text : List Char) : Option ℕ :=
    match scanDigits 10 text 0 0 '.' with
    | some (value, count) => if count = 0 then none else some value
    | none => none

/-- `SetString(s, 0)`, when it succeeds. -/
def SetString (s : String) : Option ℤ :=
  match s.toList with
  | '-' :: text => (scanNat text).map fun n : ℕ => -(n : ℤ)
  | '+' :: text => (scanNat text).map fun n : ℕ => (n : ℤ)
  | text => (scanNat text).map fun n : ℕ => (n : ℤ)

theorem digitValue_of_isDigit {c : Char} (hc : c.isDigit = true) :
    digitValue c = some (c.toNat - 48) ∧ c.toNat - 48 < 10 := by
  unfold Char.isDigit at hc
  rw [Bool.and_eq_true, decide_eq_true_eq, decide_eq_true_eq] at hc
  obtain ⟨hlow, hhigh⟩ := hc
  constructor
  · unfold digitValue
    rw [if_pos ⟨hlow, hhigh⟩]
  · have htoNat : c.toNat ≤ 57 := hhigh
    omega

theorem scanDigits_digits {text : List Char} (h : text.all Char.isDigit = true) (value count : ℕ)
    {prev : Char} (hprev : prev ≠ '_') :
    scanDigits 10 text value count prev =
      some (Nat.ofDigitChars 10 text value, count + text.length) := by
  induction text generalizing value count prev with
  | nil => exact if_neg hprev
  | cons c text ih =>
      rw [List.all_cons, Bool.and_eq_true] at h
      obtain ⟨hvalue, hlt⟩ := digitValue_of_isDigit h.1
      have hc : c ≠ '_' := by
        rintro rfl
        exact absurd h.1 (by decide)
      rw [scanDigits, if_neg hc, hvalue]
      show (if c.toNat - 48 < 10 then _ else none) = _
      rw [if_pos hlt, ih h.2 _ _ (by decide), Nat.ofDigitChars_cons, List.length_cons]
      congr 2
      omega

/-- A decimal numeral as `String()` prints it has no base prefix. -/
theorem scanNat_toDigits (n : ℕ) : scanNat (Nat.toDigits 10 n) = some n := by
  obtain rfl | hn : n = 0 ∨ 0 < n := Nat.eq_zero_or_pos n
  · rfl
  · obtain ⟨c, rest, htext, hc, -⟩ := Numeral.toDigits_head hn
    -- the first digit is not 0, so the base is ten
    have hscan := scanDigits_digits (Numeral.all_toDigits n) 0 0 (by decide : '.' ≠ '_')
    rw [Nat.ofDigitChars_ten_toDigits] at hscan
    have hcount : 0 + (Nat.toDigits 10 n).length ≠ 0 := by
      have := Nat.length_toDigits_pos (b := 10) (n := n)
      omega
    have hunprefixed : scanNat.unprefixed (Nat.toDigits 10 n) = some n := by
      unfold scanNat.unprefixed
      rw [hscan]
      exact if_neg hcount
    rw [htext] at hunprefixed ⊢
    unfold scanNat
    split
    · rename_i h
      exact absurd (List.cons.inj h).1 hc
    · exact hunprefixed

/-- **What `String` prints `SetString` reads.** -/
theorem SetString_decimal (n : ℤ) : SetString (Itoa n) = some n := by
  unfold SetString Itoa
  rw [String.toList_ofList]
  unfold Numeral.decimal
  by_cases hn : n < 0
  · rw [if_pos hn]
    show (scanNat (Nat.toDigits 10 n.natAbs)).map (fun m : ℕ => -(m : ℤ)) = some n
    rw [scanNat_toDigits, Option.map_some]
    congr 1
    omega
  · rw [if_neg hn]
    split
    · rename_i h
      exact absurd h (Numeral.toDigits_ne_sign _ (by decide))
    · rename_i h
      exact absurd h (Numeral.toDigits_ne_sign _ (by decide))
    · rw [scanNat_toDigits, Option.map_some]
      congr 1
      omega

theorem digitValue_digitChar {d : ℕ} (hd : d < 10) :
    digitValue (Nat.digitChar d) = some d ∧ Nat.digitChar d ≠ '_' := by
  revert d
  decide

/-- The digit loop on digits. -/
theorem scanDigits_digitChar {base : ℕ} (hbase : base ≤ 10) {digits : List ℕ}
    (h : ∀ d ∈ digits, d < base) (value count : ℕ) {prev : Char} (hprev : prev ≠ '_') :
    scanDigits base (digits.map Nat.digitChar) value count prev =
      some (digits.foldl (fun value d => base * value + d) value, count + digits.length) := by
  induction digits generalizing value count prev with
  | nil => exact if_neg hprev
  | cons d digits ih =>
      obtain ⟨hd, hrest⟩ := List.forall_mem_cons.mp h
      obtain ⟨hvalue, hc⟩ := digitValue_digitChar (Nat.lt_of_lt_of_le hd hbase)
      rw [List.map_cons, scanDigits, if_neg hc, hvalue]
      show (if d < base then _ else none) = _
      rw [if_pos hd, ih hrest _ _ (by decide), List.foldl_cons, List.length_cons]
      congr 2
      omega

/-- **What `SetString` reads of binary digits after the prefix.** -/
theorem SetString_binary {s : String} {digits : List ℕ} (hdigits : digits ≠ [])
    (h : ∀ d ∈ digits, d < 2) (hs : s.toList = '0' :: 'b' :: digits.map Nat.digitChar) :
    SetString s = some ((digits.foldl (fun value d => 2 * value + d) 0 : ℕ) : ℤ) := by
  have hscan := scanDigits_digitChar (by decide : 2 ≤ 10) h 0 0 (by decide : '0' ≠ '_')
  have hcount : 0 + digits.length ≠ 0 := by
    have := List.length_pos_of_ne_nil hdigits
    omega
  have hprefixed : scanNat.prefixed 2 (digits.map Nat.digitChar) =
      some (digits.foldl (fun value d => 2 * value + d) 0) := by
    unfold scanNat.prefixed
    rw [hscan]
    exact if_neg hcount
  unfold SetString
  rw [hs]
  show (scanNat.prefixed 2 (digits.map Nat.digitChar)).map (fun n : ℕ => (n : ℤ)) = _
  rw [hprefixed]
  rfl

end Pepal.Chain

import Pepal.Lib.Decimal
import Mathlib.Data.List.DropRight
import Mathlib.Tactic.NormNum

/-!
# Time

`time.Time` as the chaincodes use it: a date, a clock reading and an offset
from UTC. Only the offset distinguishes locations, and instants are compared
in UTC. Two texts come up: the layout `01/02/2006` of the clients' expiry
dates, and the RFC 3339 text of a record, which the record's own
serialization has to read back (`parseRFC3339_rfc3339`).
-/

namespace Pepal.Chain

open Numeral

def isLeap (year : ℕ) : Bool := year % 4 == 0 && (year % 100 != 0 || year % 400 == 0)

def daysIn (month year : ℕ) : ℕ :=
  if month = 2 then (if isLeap year then 29 else 28)
  else if month = 4 ∨ month = 6 ∨ month = 9 ∨ month = 11 then 30
  else 31

structure Civil where
  year : ℕ
  month : ℕ
  day : ℕ
  hour : ℕ
  minute : ℕ
  second : ℕ
  nanosecond : ℕ
  /-- minutes east of UTC -/
  offset : ℤ
deriving DecidableEq

def Civil.Valid (c : Civil) : Prop :=
  (1 ≤ c.month ∧ c.month ≤ 12) ∧ (1 ≤ c.day ∧ c.day ≤ daysIn c.month c.year) ∧
    c.hour < 24 ∧ c.minute < 60 ∧ c.second < 60 ∧ c.nanosecond < 10 ^ 9 ∧
    -1440 < c.offset ∧ c.offset < 1440

instance (c : Civil) : Decidable c.Valid := by
  unfold Civil.Valid
  infer_instance

structure Time extends Civil where
  valid : toCivil.Valid
deriving DecidableEq

/-- `time.Time{}` -/
def zeroTime : Time where
  year := 1
  month := 1
  day := 1
  hour := 0
  minute := 0
  second := 0
  nanosecond := 0
  offset := 0
  valid := by decide

/-- Midnight in UTC. -/
def Date (year month day : ℕ) (hmonth : 1 ≤ month ∧ month ≤ 12)
    (hday : 1 ≤ day ∧ day ≤ daysIn month year) : Time where
  year := year
  month := month
  day := day
  hour := 0
  minute := 0
  second := 0
  nanosecond := 0
  offset := 0
  valid := ⟨hmonth, hday, by norm_num⟩

/-! ## Instants -/

/-- Days before the year in the proleptic Gregorian calendar. -/
def daysBeforeYear (year : ℕ) : ℕ :=
  365 * year + (year + 3) / 4 - (year + 99) / 100 + (year + 399) / 400

def daysBeforeMonth (month year : ℕ) : ℕ :=
  ((List.range month).drop 1).foldl (fun days m => days + daysIn m year) 0

/-- Nanoseconds since the start of year 0, UTC. -/
def Time.instant (t : Time) : ℤ :=
  let days := daysBeforeYear t.year + daysBeforeMonth t.month t.year + (t.day - 1)
  let seconds : ℤ := days * 86400 + t.hour * 3600 + t.minute * 60 + t.second -
    t.offset * 60
  seconds * 10 ^ 9 + t.nanosecond

def Time.After (t u : Time) : Bool := decide (u.instant < t.instant)

/-! ## The layout of expiry dates -/

def layout : String := "01/02/2006"

def quote (s : String) : String := "\"" ++ s ++ "\""

/-- `t.Format("01/02/2006")` -/
def Time.Format (t : Time) : String :=
  String.ofList (padDigits 10 2 t.month ++ '/' :: padDigits 10 2 t.day ++
    '/' :: padDigits 10 4 t.year)

/-- `ParseError.Error()` when an element of the layout does not fit. -/
def cannotParse (value : String) (rest : List Char) (elem : String) : String :=
  "parsing time " ++ quote value ++ " as " ++ quote layout ++ ": cannot parse " ++
    quote (String.ofList rest) ++ " as " ++ quote elem

def outOfRange (value what : String) : String :=
  "parsing time " ++ quote value ++ ": " ++ what ++ " out of range"

def expect (c : Char) : List Char → Option (List Char)
  | x :: rest => if x = c then some rest else none
  | [] => none

/-- An element of the layout or the slash between two. -/
def orCannotParse {α : Type} (value : String) (rest : List Char) (elem : String) :
    Option α → Except String α
  | some x => .ok x
  | none => .error (cannotParse value rest elem)

/-- `time.Parse("01/02/2006", value)`; the error is its text. -/
def Parse (value : String) : Except String Time := do
  let text := value.toList
  let (month, text) ← orCannotParse value text "01" (takeField 2 text)
  if hmonth : 1 ≤ month ∧ month ≤ 12 then
    let text ← orCannotParse value text "/" (expect '/' text)
    let (day, text) ← orCannotParse value text "02" (takeField 2 text)
    let text ← orCannotParse value text "/" (expect '/' text)
    let (year, text) ← orCannotParse value text "2006" (takeField 4 text)
    if text ≠ [] then
      .error ("parsing time " ++ quote value ++ ": extra text: " ++ String.ofList text)
    else if hday : 1 ≤ day ∧ day ≤ daysIn month year then
      .ok (Date year month day hmonth hday)
    else .error (outOfRange value "day")
  else .error (outOfRange value "month")

/-! ## RFC 3339 -/

/-- The fraction of a second without trailing zeros. -/
def fraction (nanosecond : ℕ) : List Char :=
  if nanosecond = 0 then []
  else '.' :: (padDigits 10 9 nanosecond).rdropWhile (· == '0')

def zone (offset : ℤ) : List Char :=
  if offset = 0 then ['Z']
  else (if offset < 0 then '-' else '+') ::
    (padDigits 10 2 (offset.natAbs / 60) ++ ':' :: padDigits 10 2 (offset.natAbs % 60))

def Time.rfc3339 (t : Time) : List Char :=
  padDigits 10 4 t.year ++ '-' :: (padDigits 10 2 t.month ++ '-' :: (padDigits 10 2 t.day ++
    'T' :: (padDigits 10 2 t.hour ++ ':' :: (padDigits 10 2 t.minute ++
      ':' :: (padDigits 10 2 t.second ++ (fraction t.nanosecond ++ zone t.offset))))))

/-- The fraction as nanoseconds; digits after the ninth are dropped. -/
def takeFraction : List Char → Option (ℕ × List Char)
  | '.' :: text =>
      let digits := text.takeWhile Char.isDigit
      if digits = [] then none
      else
        let nine := (digits ++ List.replicate (9 - digits.length) '0').take 9
        some (Nat.ofDigitChars 10 nine 0, text.dropWhile Char.isDigit)
  | text => some (0, text)

def takeZone : List Char → Option ℤ
  | ['Z'] => some 0
  | sign :: text => do
      let (hours, text) ← takeField 2 text
      let text ← expect ':' text
      let (minutes, text) ← takeField 2 text
      if text ≠ [] ∨ 60 ≤ minutes then none
      else if sign = '+' then some (60 * hours + minutes : ℕ)
      else if sign = '-' then some (-(60 * hours + minutes : ℕ))
      else none
  | [] => none

def parseRFC3339 (text : List Char) : Option Time := do
  let (year, text) ← takeField 4 text
  let text ← expect '-' text
  let (month, text) ← takeField 2 text
  let text ← expect '-' text
  let (day, text) ← takeField 2 text
  let text ← expect 'T' text
  let (hour, text) ← takeField 2 text
  let text ← expect ':' text
  let (minute, text) ← takeField 2 text
  let text ← expect ':' text
  let (second, text) ← takeField 2 text
  let (nanosecond, text) ← takeFraction text
  let offset ← takeZone text
  let c : Civil :=
    { year := year, month := month, day := day, hour := hour, minute := minute,
      second := second, nanosecond := nanosecond, offset := offset }
  if h : c.Valid then some ⟨c, h⟩ else none

/-! ## Reading back RFC 3339 -/

theorem rdropWhile_append_zeros (digits : List Char) :
    digits.rdropWhile (· == '0') ++
      List.replicate (digits.length - (digits.rdropWhile (· == '0')).length) '0' = digits := by
  have hsplit := List.rdropWhile_append_rtakeWhile (p := (· == '0')) (l := digits)
  have hzeros : digits.rtakeWhile (· == '0') =
      List.replicate (digits.rtakeWhile (· == '0')).length '0' := by
    apply List.eq_replicate_of_mem
    intro c hc
    have hbeq : (c == '0') = true := List.mem_rtakeWhile_imp (p := fun x => x == '0') hc
    exact eq_of_beq hbeq
  have hlength : (digits.rtakeWhile (· == '0')).length =
      digits.length - (digits.rdropWhile (· == '0')).length := by
    have := congrArg List.length hsplit
    rw [List.length_append] at this
    omega
  rw [← hlength, ← hzeros]
  exact hsplit

theorem takeWhile_digits_append {digits : List Char} (h : digits.all Char.isDigit = true)
    {c : Char} (hc : c.isDigit = false) (rest : List Char) :
    (digits ++ c :: rest).takeWhile Char.isDigit = digits ∧
      (digits ++ c :: rest).dropWhile Char.isDigit = c :: rest := by
  have hall := List.all_eq_true.mp h
  constructor
  · rw [List.takeWhile_append_of_pos hall, List.takeWhile_cons_of_neg (by rw [hc]; decide),
      List.append_nil]
  · rw [List.dropWhile_append_of_pos hall, List.dropWhile_cons_of_neg (by rw [hc]; decide)]

theorem takeFraction_fraction {n : ℕ} (hn : n < 10 ^ 9) {c : Char} (hc : c.isDigit = false)
    (hdot : c ≠ '.') (rest : List Char) :
    takeFraction (fraction n ++ c :: rest) = some (n, c :: rest) := by
  unfold fraction
  by_cases hzero : n = 0
  · rw [if_pos hzero, hzero, List.nil_append]
    unfold takeFraction
    split
    · rename_i h
      exact absurd (List.cons.inj h).1 hdot
    · rfl
  · rw [if_neg hzero]
    have hlength := length_padDigits (by omega : 1 < 10) (by omega : 0 < 9) hn
    have hzeros := rdropWhile_append_zeros (padDigits 10 9 n)
    rw [hlength] at hzeros
    have hne : (padDigits 10 9 n).rdropWhile (· == '0') ≠ [] := by
      intro hnil
      have hvalue := ofDigitChars_padDigits 9 n
      rw [← hzeros, hnil, List.nil_append, Nat.ofDigitChars_replicate_zero] at hvalue
      omega
    have hdigits : ((padDigits 10 9 n).rdropWhile (· == '0')).all Char.isDigit = true := by
      have hall := all_padDigits 9 n
      rw [← hzeros, List.all_append, Bool.and_eq_true] at hall
      exact hall.1
    obtain ⟨htake, hdrop⟩ := takeWhile_digits_append hdigits hc rest
    show takeFraction ('.' :: ((padDigits 10 9 n).rdropWhile (· == '0') ++ c :: rest)) = _
    unfold takeFraction
    simp only [htake, hdrop]
    rw [if_neg hne, hzeros, List.take_of_length_le (le_of_eq hlength), ofDigitChars_padDigits]

theorem takeZone_zone {offset : ℤ} (hlow : -1440 < offset) (hhigh : offset < 1440) :
    takeZone (zone offset) = some offset := by
  unfold zone
  by_cases hzero : offset = 0
  · rw [if_pos hzero, hzero]
    rfl
  · have hh : takeField 2 (padDigits 10 2 (offset.natAbs / 60) ++
        ':' :: padDigits 10 2 (offset.natAbs % 60)) = _ :=
      takeField_padDigits (by omega) (by omega) _
    have hm : takeField 2 (padDigits 10 2 (offset.natAbs % 60)) =
        some (offset.natAbs % 60, []) := by
      have h := takeField_padDigits (by omega : 0 < 2)
        (by omega : offset.natAbs % 60 < 10 ^ 2) []
      rwa [List.append_nil] at h
    rw [if_neg hzero]
    have hcons : ∀ sign : Char, sign = '-' ∨ sign = '+' → takeZone (sign ::
        (padDigits 10 2 (offset.natAbs / 60) ++ ':' :: padDigits 10 2 (offset.natAbs % 60))) =
        if sign = '+' then some (offset.natAbs : ℤ)
        else if sign = '-' then some (-(offset.natAbs : ℤ)) else none := by
      intro sign hsign
      have hsum : 60 * (offset.natAbs / 60) + offset.natAbs % 60 = offset.natAbs := by omega
      unfold takeZone
      split
      · rename_i h
        rcases hsign with rfl | rfl
        · exact absurd (List.cons.inj h).1 (by decide)
        · exact absurd (List.cons.inj h).1 (by decide)
      · rename_i h
        obtain ⟨rfl, rfl⟩ := List.cons.inj h
        rw [hh]
        show (takeField 2 (padDigits 10 2 (offset.natAbs % 60))).bind _ = _
        rw [hm]
        show (if ([] : List Char) ≠ [] ∨ 60 ≤ offset.natAbs % 60 then _ else _) = _
        rw [if_neg (by
          rintro (h | h)
          · exact h rfl
          · omega), hsum]
      · rename_i h
        cases h
    by_cases hneg : offset < 0
    · rw [if_pos hneg, hcons '-' (Or.inl rfl), if_neg (by decide), if_pos rfl]
      congr 1
      omega
    · rw [if_neg hneg, hcons '+' (Or.inr rfl), if_pos rfl]
      congr 1
      omega

/-- The zone never looks like a fraction. -/
theorem zone_head (offset : ℤ) :
    ∃ c rest, zone offset = c :: rest ∧ c.isDigit = false ∧ c ≠ '.' := by
  unfold zone
  by_cases hzero : offset = 0
  · rw [if_pos hzero]
    exact ⟨'Z', [], rfl, by decide, by decide⟩
  · rw [if_neg hzero]
    by_cases hneg : offset < 0
    · rw [if_pos hneg]
      exact ⟨'-', _, rfl, by decide, by decide⟩
    · rw [if_neg hneg]
      exact ⟨'+', _, rfl, by decide, by decide⟩

theorem daysIn_le (month year : ℕ) : daysIn month year ≤ 31 := by
  unfold daysIn
  split
  · split
    · omega
    · omega
  · split
    · omega
    · omega

theorem bind_takeField {α : Type} {w n : ℕ} (hw : 0 < w) (hn : n < 10 ^ w) (rest : List Char)
    (f : ℕ × List Char → Option α) :
    (takeField w (padDigits 10 w n ++ rest)).bind f = f (n, rest) := by
  rw [takeField_padDigits hw hn, Option.bind_some]

theorem bind_expect {α : Type} (c : Char) (rest : List Char) (f : List Char → Option α) :
    (expect c (c :: rest)).bind f = f rest := by
  rw [expect, if_pos rfl, Option.bind_some]

/-- **A time is read back from its RFC 3339 text.** -/
theorem parseRFC3339_rfc3339 (t : Time) (hyear : t.year < 10 ^ 4) :
    parseRFC3339 t.rfc3339 = some t := by
  obtain ⟨⟨-, hmonth⟩, ⟨-, hday⟩, hhour, hminute, hsecond, hnano, hlow, hhigh⟩ := t.valid
  have hdays := daysIn_le t.month t.year
  -- the fraction has no fixed length: it ends where the zone begins
  obtain ⟨z, rest, hz, hzdigit, hzdot⟩ := zone_head t.offset
  have hfraction := takeFraction_fraction hnano hzdigit hzdot rest
  rw [← hz] at hfraction
  unfold parseRFC3339 Time.rfc3339
  refine (bind_takeField (by omega) hyear _ _).trans ?_
  refine (bind_expect '-' _ _).trans ?_
  refine (bind_takeField (by omega) (by omega) _ _).trans ?_
  refine (bind_expect '-' _ _).trans ?_
  refine (bind_takeField (by omega) (by omega) _ _).trans ?_
  refine (bind_expect 'T' _ _).trans ?_
  refine (bind_takeField (by omega) (by omega) _ _).trans ?_
  refine (bind_expect ':' _ _).trans ?_
  refine (bind_takeField (by omega) (by omega) _ _).trans ?_
  refine (bind_expect ':' _ _).trans ?_
  refine (bind_takeField (by omega) (by omega) _ _).trans ?_
  show ((takeFraction (fraction t.nanosecond ++ zone t.offset)).bind fun x => _) = _
  rw [hfraction]
  show ((takeZone (zone t.offset)).bind fun x => _) = _
  rw [takeZone_zone hlow hhigh]
  exact dif_pos t.valid

theorem year_of_parseRFC3339 {text : List Char} {t : Time} (h : parseRFC3339 text = some t) :
    t.year < 10 ^ 4 := by
  unfold parseRFC3339 at h
  obtain ⟨⟨year, text⟩, hyear, h⟩ := Option.bind_eq_some_iff.mp h
  obtain ⟨text, -, h⟩ := Option.bind_eq_some_iff.mp h
  obtain ⟨⟨month, text⟩, -, h⟩ := Option.bind_eq_some_iff.mp h
  obtain ⟨text, -, h⟩ := Option.bind_eq_some_iff.mp h
  obtain ⟨⟨day, text⟩, -, h⟩ := Option.bind_eq_some_iff.mp h
  obtain ⟨text, -, h⟩ := Option.bind_eq_some_iff.mp h
  obtain ⟨⟨hour, text⟩, -, h⟩ := Option.bind_eq_some_iff.mp h
  obtain ⟨text, -, h⟩ := Option.bind_eq_some_iff.mp h
  obtain ⟨⟨minute, text⟩, -, h⟩ := Option.bind_eq_some_iff.mp h
  obtain ⟨text, -, h⟩ := Option.bind_eq_some_iff.mp h
  obtain ⟨⟨second, text⟩, -, h⟩ := Option.bind_eq_some_iff.mp h
  obtain ⟨⟨nanosecond, text⟩, -, h⟩ := Option.bind_eq_some_iff.mp h
  obtain ⟨offset, -, h⟩ := Option.bind_eq_some_iff.mp h
  dsimp only at h
  split at h
  · rw [← Option.some.inj h]
    exact takeField_lt hyear
  · cases h

/-! ## Dates -/

/-- What follows an element of the layout runs on its value only. -/
theorem bind_orCannotParse {α β : Type} {value elem : String} {rest : List Char} {x : Option α}
    {f : α → Except String β} {z : β} (h : (orCannotParse value rest elem x).bind f = .ok z) :
    ∃ y, x = some y ∧ f y = .ok z := by
  cases x with
  | none => cases h
  | some y => exact ⟨y, rfl, h⟩

theorem orCannotParse_some {α β : Type} {value elem : String} {rest : List Char} (x : α)
    (f : α → Except String β) : (orCannotParse value rest elem (some x)).bind f = f x := rfl

theorem expect_eq_some {c : Char} {text rest : List Char} :
    expect c text = some rest ↔ text = c :: rest := by
  cases text with
  | nil => simp [expect]
  | cons x text =>
      rw [expect]
      by_cases hx : x = c
      · rw [if_pos hx, hx, Option.some.injEq, List.cons.injEq, and_iff_right rfl]
      · rw [if_neg hx]
        simp [hx]

/-- A date of the calendar, written `MM/DD/YYYY`. -/
def IsDate (value : String) (t : Time) : Prop :=
  ∃ mm dd yyyy : List Char, ∃ month day year : ℕ, ∃ hmonth hday,
    value.toList = mm ++ '/' :: (dd ++ '/' :: yyyy) ∧
      Field 2 mm month ∧ Field 2 dd day ∧ Field 4 yyyy year ∧ t = Date year month day hmonth hday

/-- **The texts that are read as a date.** -/
theorem Parse_ok {value : String} {t : Time} : Parse value = .ok t ↔ IsDate value t := by
  constructor
  · intro h
    unfold Parse at h
    obtain ⟨⟨month, text⟩, hmm, h⟩ := bind_orCannotParse h
    dsimp only at h
    split at h
    · rename_i hmonth
      obtain ⟨text₁, hslash, h⟩ := bind_orCannotParse h
      obtain ⟨⟨day, text₂⟩, hdd, h⟩ := bind_orCannotParse h
      obtain ⟨text₃, hslash', h⟩ := bind_orCannotParse h
      obtain ⟨⟨year, rest⟩, hyyyy, h⟩ := bind_orCannotParse h
      dsimp only at h
      split at h
      · cases h
      · rename_i hrest
        split at h
        · rename_i hday
          have hdate := Except.ok.inj h
          obtain ⟨mm, hfield, hvalue⟩ := takeField_eq_some.mp hmm
          obtain ⟨dd, hfield', rfl⟩ := takeField_eq_some.mp hdd
          obtain ⟨yyyy, hfield'', rfl⟩ := takeField_eq_some.mp hyyyy
          have htext := expect_eq_some.mp hslash
          have htext₁ := expect_eq_some.mp hslash'
          dsimp only at htext htext₁
          rw [not_not.mp hrest, List.append_nil] at htext₁
          refine ⟨mm, dd, yyyy, month, day, year, hmonth, hday, ?_, hfield, hfield', hfield'',
            hdate.symm⟩
          rw [hvalue, htext, htext₁]
        · cases h
    · cases h
  · rintro ⟨mm, dd, yyyy, month, day, year, hmonth, hday, hvalue, hmm, hdd, hyyyy, rfl⟩
    have hmonths : takeField 2 (mm ++ '/' :: (dd ++ '/' :: yyyy)) =
        some (month, '/' :: (dd ++ '/' :: yyyy)) := takeField_eq_some.mpr ⟨mm, hmm, rfl⟩
    have hdays : takeField 2 (dd ++ '/' :: yyyy) = some (day, '/' :: yyyy) :=
      takeField_eq_some.mpr ⟨dd, hdd, rfl⟩
    have hyears : takeField 4 yyyy = some (year, []) :=
      takeField_eq_some.mpr ⟨yyyy, hyyyy, (List.append_nil yyyy).symm⟩
    unfold Parse
    rw [hvalue]
    dsimp only
    rw [hmonths]
    refine (dif_pos hmonth).trans ?_
    rw [expect_eq_some.mpr rfl]
    refine (orCannotParse_some _ _).trans ?_
    dsimp only
    rw [hdays]
    refine (orCannotParse_some _ _).trans ?_
    dsimp only
    rw [expect_eq_some.mpr rfl]
    refine (orCannotParse_some _ _).trans ?_
    rw [hyears]
    refine (orCannotParse_some _ _).trans ?_
    exact (if_neg (not_not.mpr rfl)).trans (dif_pos hday)

/-- A date that was parsed has four digits for the year, and is midnight in
UTC. -/
theorem year_of_Parse {value : String} {t : Time} (h : Parse value = .ok t) :
    t.year < 10 ^ 4 := by
  unfold Parse at h
  obtain ⟨⟨month, text⟩, -, h⟩ := bind_orCannotParse h
  dsimp only at h
  split at h
  · obtain ⟨text, -, h⟩ := bind_orCannotParse h
    obtain ⟨⟨day, text⟩, -, h⟩ := bind_orCannotParse h
    obtain ⟨text, -, h⟩ := bind_orCannotParse h
    obtain ⟨⟨year, text⟩, hyear, h⟩ := bind_orCannotParse h
    dsimp only at h
    split at h
    · cases h
    · split at h
      · rw [← Except.ok.inj h]
        exact takeField_lt hyear
      · cases h
  · cases h

end Pepal.Chain

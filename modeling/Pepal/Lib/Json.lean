import Pepal.Lib.Decimal
import Pepal.Lib.JsonText

/-!
# JSON values

Values are printed without spaces and read back by a stack machine over the
tokens: the stack holds the arrays and objects that are still open. The round
trip (`parse_print`) is one statement about the machine: fed the tokens of a
value it ends up with that value and the stack it started with.

A number is its literal, carried with the proof that it is one.
-/

namespace Json

/-! ## Numbers -/

/-- The grammar after the integer part and the fraction: an exponent. -/
def isExponent : List Char → Bool
  | [] => true
  | e :: rest =>
      (e = 'e' || e = 'E') &&
        let digits := match rest with
          | '+' :: rest => rest
          | '-' :: rest => rest
          | rest => rest
        !digits.isEmpty && digits.all Char.isDigit

/-- The grammar after the integer part. -/
def isFraction : List Char → Bool
  | '.' :: c :: rest => c.isDigit && isExponent (rest.dropWhile Char.isDigit)
  | rest => isExponent rest

def isUnsigned : List Char → Bool
  | '0' :: rest => isFraction rest
  | c :: rest => c.isDigit && isFraction (rest.dropWhile Char.isDigit)
  | [] => false

def isNumber : List Char → Bool
  | '-' :: rest => isUnsigned rest
  | text => isUnsigned text

structure Number where
  literal : List Char
  valid : isNumber literal = true
deriving DecidableEq

/-- The numeral of an integer is a number. -/
theorem isNumber_decimal (n : ℤ) : isNumber (Numeral.decimal n) = true := by
  have hnat : ∀ m : ℕ, isUnsigned (Nat.toDigits 10 m) = true := by
    intro m
    obtain rfl | hm : m = 0 ∨ 0 < m := Nat.eq_zero_or_pos m
    · rfl
    · obtain ⟨c, rest, htext, hc, hdigit⟩ := Numeral.toDigits_head hm
      have hall := Numeral.all_toDigits m
      rw [htext, List.all_cons, Bool.and_eq_true] at hall
      rw [htext]
      unfold isUnsigned
      split
      · rename_i h
        exact absurd (List.cons.inj h).1 hc
      · rename_i h
        obtain ⟨rfl, rfl⟩ := List.cons.inj h
        rw [hdigit, Numeral.dropWhile_digits hall.2]
        rfl
      · rename_i h
        cases h
  unfold Numeral.decimal
  by_cases hn : n < 0
  · rw [if_pos hn]
    exact hnat n.natAbs
  · rw [if_neg hn]
    unfold isNumber
    split
    · rename_i h
      exact absurd h (Numeral.toDigits_ne_sign _ (by decide))
    · exact hnat n.natAbs

def Number.ofInt (n : ℤ) : Number := ⟨Numeral.decimal n, isNumber_decimal n⟩

/-! ## Values and their text -/

inductive Value where
  | null
  | bool (b : Bool)
  | num (n : Number)
  | str (text : List Char)
  | arr (items : List Value)
  | obj (members : List (List Char × Value))

def nullWord : List Char := ['n', 'u', 'l', 'l']
def trueWord : List Char := ['t', 'r', 'u', 'e']
def falseWord : List Char := ['f', 'a', 'l', 's', 'e']

mutual
def tokens : Value → List Token
  | .null => [.bare nullWord]
  | .bool b => [.bare (if b then trueWord else falseWord)]
  | .num n => [.bare n.literal]
  | .str text => [.str text]
  | .arr [] => [.lbrack, .rbrack]
  | .arr (x :: xs) => .lbrack :: (tokens x ++ itemsTail xs)
  | .obj [] => [.lbrace, .rbrace]
  | .obj ((k, x) :: ms) => .lbrace :: .str k :: .colon :: (tokens x ++ membersTail ms)
def itemsTail : List Value → List Token
  | [] => [.rbrack]
  | x :: xs => .comma :: (tokens x ++ itemsTail xs)
def membersTail : List (List Char × Value) → List Token
  | [] => [.rbrace]
  | (k, x) :: ms => .comma :: .str k :: .colon :: (tokens x ++ membersTail ms)
end

def print (v : Value) : List Char := printTokens (tokens v)

/-! ## The stack machine -/

/-- An open array with its items so far, or an open object with its members
so far and the key whose value is being read. -/
inductive Frame where
  | item (items : List Value)
  | member (members : List (List Char × Value)) (key : List Char)

/-- What comes next: a value; the first item or the first key of what was just
opened, or its end; a key; the colon after it; or what may follow a value. -/
inductive State where
  | value (stack : List Frame)
  | firstItem (stack : List Frame)
  | firstKey (stack : List Frame)
  | key (members : List (List Char × Value)) (stack : List Frame)
  | colon (members : List (List Char × Value)) (k : List Char) (stack : List Frame)
  | done (v : Value) (stack : List Frame)

def scalar (text : List Char) : Option Value :=
  if text = nullWord then some .null
  else if text = trueWord then some (.bool true)
  else if text = falseWord then some (.bool false)
  else if h : isNumber text = true then some (.num ⟨text, h⟩)
  else none

def stepValue (stack : List Frame) : Token → Option State
  | .lbrack => some (.firstItem stack)
  | .lbrace => some (.firstKey stack)
  | .str text => some (.done (.str text) stack)
  | .bare text => (scalar text).map fun v => .done v stack
  | _ => none

def step : State → Token → Option State
  | .value stack, t => stepValue stack t
  | .firstItem stack, .rbrack => some (.done (.arr []) stack)
  | .firstItem stack, t => stepValue (.item [] :: stack) t
  | .firstKey stack, .rbrace => some (.done (.obj []) stack)
  | .firstKey stack, .str k => some (.colon [] k stack)
  | .key ms stack, .str k => some (.colon ms k stack)
  | .colon ms k stack, .colon => some (.value (.member ms k :: stack))
  | .done v (.item xs :: stack), .comma => some (.value (.item (xs ++ [v]) :: stack))
  | .done v (.item xs :: stack), .rbrack => some (.done (.arr (xs ++ [v])) stack)
  | .done v (.member ms k :: stack), .comma => some (.key (ms ++ [(k, v)]) stack)
  | .done v (.member ms k :: stack), .rbrace => some (.done (.obj (ms ++ [(k, v)])) stack)
  | _, _ => none

def parseTokens (ts : List Token) : Option Value :=
  match ts.foldlM step (.value []) with
  | some (.done v []) => some v
  | _ => none

def parse (text : List Char) : Option Value := (lex text).bind parseTokens

/-! ## Reading back the tokens -/

theorem isDigit_isBare {c : Char} (hc : c.isDigit = true) : isBare c = true := by
  unfold isBare Char.isAlphanum
  rw [hc]
  simp

theorem isNumber_ne_nil {text : List Char} (h : isNumber text = true) : text ≠ [] := by
  rintro rfl
  cases h

theorem isExponent_bare {text : List Char} (h : isExponent text = true) :
    ∀ c ∈ text, isBare c = true := by
  cases text with
  | nil => simp
  | cons e rest =>
      unfold isExponent at h
      rw [Bool.and_eq_true] at h
      obtain ⟨he, hrest⟩ := h
      have hebare : isBare e = true := by
        rw [Bool.or_eq_true, decide_eq_true_eq, decide_eq_true_eq] at he
        rcases he with rfl | rfl
        · decide
        · decide
      have hall : ∀ digits : List Char, (!digits.isEmpty && digits.all Char.isDigit) = true →
          ∀ c ∈ digits, isBare c = true := by
        intro digits hdigits c hc
        rw [Bool.and_eq_true] at hdigits
        exact isDigit_isBare (List.all_eq_true.mp hdigits.2 c hc)
      intro c hc
      rcases List.mem_cons.mp hc with rfl | hc
      · exact hebare
      · split at hrest
        · rcases List.mem_cons.mp hc with rfl | hc
          · decide
          · exact hall _ hrest c hc
        · rcases List.mem_cons.mp hc with rfl | hc
          · decide
          · exact hall _ hrest c hc
        · exact hall _ hrest c hc

/-- Dropping digits drops nothing else. -/
theorem bare_of_dropWhile {text : List Char}
    (h : ∀ c ∈ text.dropWhile Char.isDigit, isBare c = true) : ∀ c ∈ text, isBare c = true := by
  intro c hc
  rw [← List.takeWhile_append_dropWhile (p := Char.isDigit) (l := text)] at hc
  rcases List.mem_append.mp hc with hc | hc
  · exact isDigit_isBare (List.mem_takeWhile_imp hc)
  · exact h c hc

theorem isFraction_bare {text : List Char} (h : isFraction text = true) :
    ∀ c ∈ text, isBare c = true := by
  unfold isFraction at h
  split at h
  · rename_i c rest
    rw [Bool.and_eq_true] at h
    intro x hx
    rcases List.mem_cons.mp hx with rfl | hx
    · decide
    rcases List.mem_cons.mp hx with rfl | hx
    · exact isDigit_isBare h.1
    · exact bare_of_dropWhile (isExponent_bare h.2) x hx
  · exact isExponent_bare h

theorem isUnsigned_bare {text : List Char} (h : isUnsigned text = true) :
    ∀ c ∈ text, isBare c = true := by
  unfold isUnsigned at h
  split at h
  · intro x hx
    rcases List.mem_cons.mp hx with rfl | hx
    · decide
    · exact isFraction_bare h x hx
  · rw [Bool.and_eq_true] at h
    intro x hx
    rcases List.mem_cons.mp hx with rfl | hx
    · exact isDigit_isBare h.1
    · exact bare_of_dropWhile (isFraction_bare h.2) x hx
  · cases h

theorem isNumber_bare {text : List Char} (h : isNumber text = true) :
    ∀ c ∈ text, isBare c = true := by
  unfold isNumber at h
  split at h
  · intro x hx
    rcases List.mem_cons.mp hx with rfl | hx
    · decide
    · exact isUnsigned_bare h x hx
  · exact isUnsigned_bare h

/-- A word is no number. -/
theorem scalar_number (n : Number) : scalar n.literal = some (.num n) := by
  have hne : ∀ word, isNumber word = false → n.literal ≠ word := by
    intro word hword heq
    have hvalid := n.valid
    rw [heq, hword] at hvalid
    cases hvalid
  unfold scalar
  rw [if_neg (hne _ (by decide)), if_neg (hne _ (by decide)), if_neg (hne _ (by decide)),
    dif_pos n.valid]

theorem scalar_bool (b : Bool) :
    scalar (if b then trueWord else falseWord) = some (.bool b) := by
  cases b
  · rfl
  · rfl

/-- An array that is not empty is read like its items, one after the other. -/
theorem step_firstItem (stack : List Frame) (v : Value) (rest : List Token) :
    (tokens v ++ rest).foldlM step (.firstItem stack) =
      (tokens v ++ rest).foldlM step (.value (.item [] :: stack)) := by
  cases v with
  | arr items =>
      cases items with
      | nil => simp [tokens, step]
      | cons x xs => simp [tokens, step]
  | obj members =>
      cases members with
      | nil => simp [tokens, step]
      | cons m ms => simp [tokens, step]
  | _ => simp [tokens, step]

mutual
theorem run_tokens : ∀ (v : Value) (stack : List Frame) (rest : List Token),
    (tokens v ++ rest).foldlM step (.value stack) = rest.foldlM step (.done v stack)
  | .null, stack, rest => rfl
  | .bool b, stack, rest => by
      show (((scalar (if b then trueWord else falseWord)).map fun v => State.done v stack).bind
        fun s => rest.foldlM step s) = _
      rw [scalar_bool]
      rfl
  | .num n, stack, rest => by
      show (((scalar n.literal).map fun v => State.done v stack).bind
        fun s => rest.foldlM step s) = _
      rw [scalar_number]
      rfl
  | .str text, stack, rest => rfl
  | .arr [], stack, rest => by
      rw [tokens]
      rfl
  | .arr (x :: xs), stack, rest => by
      rw [tokens]
      show ((tokens x ++ itemsTail xs) ++ rest).foldlM step (.firstItem stack) = _
      -- the first item is read as any other value, then the tail as items
      rw [List.append_assoc, step_firstItem, run_tokens x, run_items xs x [] stack rest]
      rfl
  | .obj [], stack, rest => by
      rw [tokens]
      rfl
  | .obj ((k, x) :: ms), stack, rest => by
      rw [tokens]
      show ((tokens x ++ membersTail ms) ++ rest).foldlM step
        (.value (.member [] k :: stack)) = _
      rw [List.append_assoc, run_tokens x, run_members ms x k [] stack rest]
      rfl
theorem run_items : ∀ (xs : List Value) (x : Value) (pre : List Value) (stack : List Frame)
    (rest : List Token),
    (itemsTail xs ++ rest).foldlM step (.done x (.item pre :: stack)) =
      rest.foldlM step (.done (.arr (pre ++ x :: xs)) stack)
  | [], x, pre, stack, rest => by
      rw [itemsTail]
      rfl
  | y :: ys, x, pre, stack, rest => by
      rw [itemsTail]
      show ((tokens y ++ itemsTail ys) ++ rest).foldlM step
        (.value (.item (pre ++ [x]) :: stack)) = _
      rw [List.append_assoc, run_tokens y, run_items ys y (pre ++ [x]) stack rest,
        List.append_assoc]
      rfl
theorem run_members : ∀ (ms : List (List Char × Value)) (x : Value) (k : List Char)
    (pre : List (List Char × Value)) (stack : List Frame) (rest : List Token),
    (membersTail ms ++ rest).foldlM step (.done x (.member pre k :: stack)) =
      rest.foldlM step (.done (.obj (pre ++ (k, x) :: ms)) stack)
  | [], x, k, pre, stack, rest => by
      rw [membersTail]
      rfl
  | (k', y) :: ms, x, k, pre, stack, rest => by
      rw [membersTail]
      show ((tokens y ++ membersTail ms) ++ rest).foldlM step
        (.value (.member (pre ++ [(k, x)]) k' :: stack)) = _
      rw [List.append_assoc, run_tokens y, run_members ms y k' (pre ++ [(k, x)]) stack rest,
        List.append_assoc]
      rfl
end

/-! ## The round trip -/

/-- A list that starts with punctuation may stand after anything. -/
theorem separated_append {ts ts' : List Token} (h : Separated ts) (h' : Separated ts')
    (hhead : ∀ t rest, ts' = t :: rest → t.isBare = false) : Separated (ts ++ ts') := by
  induction ts with
  | nil => exact h'
  | cons t ts ih =>
      cases ts with
      | nil =>
          cases ts' with
          | nil => exact h
          | cons t' rest => exact ⟨fun _ => hhead t' rest rfl, h'⟩
      | cons u ts => exact ⟨h.1, ih h.2⟩

/-- Punctuation or a string may stand before anything. -/
theorem separated_cons {t : Token} {ts : List Token} (ht : t.isBare = false)
    (h : Separated ts) : Separated (t :: ts) := by
  cases ts with
  | nil => trivial
  | cons t' ts => exact ⟨fun hbare => absurd hbare (by rw [ht]; decide), h⟩

theorem itemsTail_head (xs : List Value) (t : Token) (rest : List Token)
    (h : itemsTail xs = t :: rest) : t.isBare = false := by
  cases xs <;> rw [itemsTail] at h <;> obtain ⟨rfl, -⟩ := List.cons.inj h <;> rfl

theorem membersTail_head (ms : List (List Char × Value)) (t : Token) (rest : List Token)
    (h : membersTail ms = t :: rest) : t.isBare = false := by
  cases ms <;> rw [membersTail] at h <;> obtain ⟨rfl, -⟩ := List.cons.inj h <;> rfl

mutual
theorem separated_tokens : ∀ v : Value, Separated (tokens v)
  | .null => trivial
  | .bool _ => trivial
  | .num _ => trivial
  | .str _ => trivial
  | .arr [] => by
      rw [tokens]
      exact separated_cons rfl trivial
  | .arr (x :: xs) => by
      rw [tokens]
      exact separated_cons rfl
        (separated_append (separated_tokens x) (separated_items xs) (itemsTail_head xs))
  | .obj [] => by
      rw [tokens]
      exact separated_cons rfl trivial
  | .obj ((k, x) :: ms) => by
      rw [tokens]
      exact separated_cons rfl (separated_cons rfl (separated_cons rfl
        (separated_append (separated_tokens x) (separated_members ms) (membersTail_head ms))))
theorem separated_items : ∀ xs : List Value, Separated (itemsTail xs)
  | [] => by
      rw [itemsTail]
      trivial
  | x :: xs => by
      rw [itemsTail]
      exact separated_cons rfl
        (separated_append (separated_tokens x) (separated_items xs) (itemsTail_head xs))
theorem separated_members : ∀ ms : List (List Char × Value), Separated (membersTail ms)
  | [] => by
      rw [membersTail]
      trivial
  | (k, x) :: ms => by
      rw [membersTail]
      exact separated_cons rfl (separated_cons rfl (separated_cons rfl
        (separated_append (separated_tokens x) (separated_members ms) (membersTail_head ms))))
end

def AllGood (ts : List Token) : Prop := ∀ t ∈ ts, t.Good

theorem allGood_nil : AllGood [] := fun _ h => absurd h List.not_mem_nil

theorem allGood_cons {t : Token} {ts : List Token} (ht : t.Good) (h : AllGood ts) :
    AllGood (t :: ts) := by
  intro u hu
  rcases List.mem_cons.mp hu with rfl | hu
  · exact ht
  · exact h u hu

theorem allGood_append {ts ts' : List Token} (h : AllGood ts) (h' : AllGood ts') :
    AllGood (ts ++ ts') := by
  intro u hu
  rcases List.mem_append.mp hu with hu | hu
  · exact h u hu
  · exact h' u hu

mutual
theorem good_tokens : ∀ v : Value, AllGood (tokens v)
  | .null => allGood_cons ⟨by decide, List.all_eq_true.mp rfl⟩ allGood_nil
  | .bool b => by
      cases b
      · exact allGood_cons ⟨by decide, List.all_eq_true.mp rfl⟩ allGood_nil
      · exact allGood_cons ⟨by decide, List.all_eq_true.mp rfl⟩ allGood_nil
  | .num n => allGood_cons ⟨isNumber_ne_nil n.valid, isNumber_bare n.valid⟩ allGood_nil
  | .str _ => allGood_cons trivial allGood_nil
  | .arr [] => by
      rw [tokens]
      exact allGood_cons trivial (allGood_cons trivial allGood_nil)
  | .arr (x :: xs) => by
      rw [tokens]
      exact allGood_cons trivial (allGood_append (good_tokens x) (good_items xs))
  | .obj [] => by
      rw [tokens]
      exact allGood_cons trivial (allGood_cons trivial allGood_nil)
  | .obj ((k, x) :: ms) => by
      rw [tokens]
      exact allGood_cons trivial (allGood_cons trivial (allGood_cons trivial
        (allGood_append (good_tokens x) (good_members ms))))
theorem good_items : ∀ xs : List Value, AllGood (itemsTail xs)
  | [] => by
      rw [itemsTail]
      exact allGood_cons trivial allGood_nil
  | x :: xs => by
      rw [itemsTail]
      exact allGood_cons trivial (allGood_append (good_tokens x) (good_items xs))
theorem good_members : ∀ ms : List (List Char × Value), AllGood (membersTail ms)
  | [] => by
      rw [membersTail]
      exact allGood_cons trivial allGood_nil
  | (k, x) :: ms => by
      rw [membersTail]
      exact allGood_cons trivial (allGood_cons trivial (allGood_cons trivial
        (allGood_append (good_tokens x) (good_members ms))))
end

theorem parseTokens_tokens (v : Value) : parseTokens (tokens v) = some v := by
  unfold parseTokens
  rw [← List.append_nil (tokens v), run_tokens]
  rfl

/-- **Every value is read back from its text.** -/
theorem parse_print (v : Value) : parse (print v) = some v := by
  unfold parse print
  rw [lex_print (good_tokens v) (separated_tokens v)]
  exact parseTokens_tokens v

end Json

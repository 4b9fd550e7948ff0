import Mathlib.Data.List.Basic
import Mathlib.Tactic.Common

/-!
# JSON text: tokens

Lexing as a fold over the characters: the state is the tokens read so far and
what the current character is part of. A string token holds the characters it
denotes, escapes undone; anything else that is not punctuation, a number or
one of the three words, is a `bare` token and is sorted out later.

A bare token has no closing character: it ends where punctuation or space
begins. So a token list is read back from its text when no two bare tokens
are neighbours (`lex_print`).
-/

namespace Json

inductive Token where
  | lbrace | rbrace | lbrack | rbrack | colon | comma
  | str (text : List Char)
  | bare (text : List Char)
deriving DecidableEq

/-! ## Strings -/

def hexDigit (d : ℕ) : Char := if d < 10 then Char.ofNat (48 + d) else Char.ofNat (87 + d)

def hexVal (c : Char) : Option ℕ :=
  if '0' ≤ c ∧ c ≤ '9' then some (c.toNat - 48)
  else if 'a' ≤ c ∧ c ≤ 'f' then some (c.toNat - 87)
  else if 'A' ≤ c ∧ c ≤ 'F' then some (c.toNat - 55)
  else none

/-- The four digits of a `\u` escape. -/
def hex4 (n : ℕ) : List Char :=
  [hexDigit (n / 4096 % 16), hexDigit (n / 256 % 16), hexDigit (n / 16 % 16), hexDigit (n % 16)]

/-- How a character stands in a string: the short escapes for quote,
backslash, newline, carriage return and tab, `\u` escapes for the other control
characters, for the three that are special in HTML and for the two line
separators, itself otherwise. -/
def escape (c : Char) : List Char :=
  if c = '"' then ['\\', '"']
  else if c = '\\' then ['\\', '\\']
  else if c = '\n' then ['\\', 'n']
  else if c = '\r' then ['\\', 'r']
  else if c = '\t' then ['\\', 't']
  else if c.toNat < 32 ∨ c = '<' ∨ c = '>' ∨ c = '&' ∨ c.toNat = 8232 ∨ c.toNat = 8233 then
    '\\' :: 'u' :: hex4 c.toNat
  else [c]

/-- The character after a backslash, other than `u`. -/
def unescape (c : Char) : Option Char :=
  if c = '"' then some '"'
  else if c = '\\' then some '\\'
  else if c = '/' then some '/'
  else if c = 'b' then some '\x08'
  else if c = 'f' then some '\x0c'
  else if c = 'n' then some '\n'
  else if c = 'r' then some '\r'
  else if c = 't' then some '\t'
  else none

def Token.print : Token → List Char
  | .lbrace => ['{'] | .rbrace => ['}'] | .lbrack => ['['] | .rbrack => [']']
  | .colon => [':'] | .comma => [',']
  | .str text => '"' :: (text.flatMap escape ++ ['"'])
  | .bare text => text

def printTokens (tokens : List Token) : List Char := tokens.flatMap Token.print

/-! ## The lexer -/

/-- What the next character is part of. `high` is a high surrogate that waits
for its low one; alone it counts as the replacement character. -/
inductive Mode where
  | between
  | bare (text : List Char)
  | string (text : List Char) (high : Option ℕ)
  | escape (text : List Char) (high : Option ℕ)
  | hex (text : List Char) (high : Option ℕ) (digits : List ℕ)

def isBare (c : Char) : Bool :=
  c.isAlphanum || c = '+' || c = '-' || c = '.'

def replacement : Char := Char.ofNat 65533

def settle (text : List Char) (high : Option ℕ) : List Char :=
  match high with
  | some _ => text ++ [replacement]
  | none => text

/-- A `\u` unit with no high surrogate before it. -/
def loneUnit (text : List Char) (n : ℕ) : Mode :=
  if 55296 ≤ n ∧ n < 56320 then .string text (some n)
  else if 56320 ≤ n ∧ n < 57344 then .string (text ++ [replacement]) none
  else .string (text ++ [Char.ofNat n]) none

def unit (text : List Char) (high : Option ℕ) (n : ℕ) : Mode :=
  match high with
  | some h =>
      if 56320 ≤ n ∧ n < 57344 then
        .string (text ++ [Char.ofNat (65536 + (h - 55296) * 1024 + (n - 56320))]) none
      else loneUnit (text ++ [replacement]) n
  | none => loneUnit text n

/-- A character that starts a token, or space. -/
def start (tokens : List Token) (c : Char) : Option (List Token × Mode) :=
  if c = ' ' ∨ c = '\t' ∨ c = '\n' ∨ c = '\r' then some (tokens, .between)
  else if c = '{' then some (tokens ++ [.lbrace], .between)
  else if c = '}' then some (tokens ++ [.rbrace], .between)
  else if c = '[' then some (tokens ++ [.lbrack], .between)
  else if c = ']' then some (tokens ++ [.rbrack], .between)
  else if c = ':' then some (tokens ++ [.colon], .between)
  else if c = ',' then some (tokens ++ [.comma], .between)
  else if c = '"' then some (tokens, .string [] none)
  else if isBare c then some (tokens, .bare [c])
  else none

def lexChar : List Token × Mode → Char → Option (List Token × Mode)
  | (tokens, .between), c => start tokens c
  | (tokens, .bare text), c =>
      if isBare c then some (tokens, .bare (text ++ [c])) else start (tokens ++ [.bare text]) c
  | (tokens, .string text high), c =>
      if c = '"' then some (tokens ++ [.str (settle text high)], .between)
      else if c = '\\' then some (tokens, .escape text high)
      else if c.toNat < 32 then none
      else some (tokens, .string (settle text high ++ [c]) none)
  | (tokens, .escape text high), c =>
      if c = 'u' then some (tokens, .hex text high [])
      else (unescape c).map fun x => (tokens, .string (settle text high ++ [x]) none)
  | (tokens, .hex text high digits), c =>
      (hexVal c).map fun d =>
        match digits with
        | [d1, d2, d3] => (tokens, unit text high (4096 * d1 + 256 * d2 + 16 * d3 + d))
        | _ => (tokens, .hex text high (digits ++ [d]))

def finish : List Token × Mode → Option (List Token)
  | (tokens, .between) => some tokens
  | (tokens, .bare text) => some (tokens ++ [.bare text])
  | _ => none

def lex (text : List Char) : Option (List Token) :=
  (text.foldlM lexChar ([], .between)).bind finish

/-! ## Reading back one string -/

theorem hexVal_hexDigit {d : ℕ} (hd : d < 16) : hexVal (hexDigit d) = some d := by
  have key : ∀ d < 16, hexVal (hexDigit d) = some d := by decide
  exact key d hd

theorem loneUnit_char (text : List Char) (c : Char) :
    loneUnit text c.toNat = .string (text ++ [c]) none := by
  have hvalid := c.valid
  have hn : c.toNat < 55296 ∨ 57343 < c.toNat := by
    rcases hvalid with h | ⟨h, -⟩
    · exact Or.inl h
    · exact Or.inr h
  unfold loneUnit
  rw [if_neg (by omega), if_neg (by omega), Char.ofNat_toNat]

theorem foldlM_hex4 (tokens : List Token) (text : List Char) {c : Char}
    (hc : c.toNat < 65536) :
    (hex4 c.toNat).foldlM lexChar (tokens, .hex text none []) =
      some (tokens, .string (text ++ [c]) none) := by
  have hsum : 4096 * (c.toNat / 4096 % 16) + 256 * (c.toNat / 256 % 16) +
      16 * (c.toNat / 16 % 16) + c.toNat % 16 = c.toNat := by omega
  simp only [hex4, List.foldlM_cons, List.foldlM_nil, lexChar,
    hexVal_hexDigit (Nat.mod_lt _ (by omega : 0 < 16)), Option.map_some, Option.bind_eq_bind,
    Option.bind_some, List.nil_append, List.cons_append, hsum, unit, loneUnit_char]
  rfl

theorem foldlM_escape (tokens : List Token) (text : List Char) (c : Char) :
    (escape c).foldlM lexChar (tokens, .string text none) =
      some (tokens, .string (text ++ [c]) none) := by
  unfold escape
  split
  · subst c
    rfl
  split
  · subst c
    rfl
  split
  · subst c
    rfl
  split
  · subst c
    rfl
  split
  · subst c
    rfl
  split
  · rename_i hspecial
    have hc : c.toNat < 65536 := by
      rcases hspecial with h | rfl | rfl | rfl | h | h
      · omega
      · decide
      · decide
      · decide
      · omega
      · omega
    have hu : ['\\', 'u'].foldlM lexChar (tokens, .string text none) =
        some (tokens, .hex text none []) := rfl
    show (['\\', 'u'] ++ hex4 c.toNat).foldlM lexChar (tokens, .string text none) = _
    rw [List.foldlM_append, hu]
    exact foldlM_hex4 tokens text hc
  · rename_i hquote hback _ _ _ hspecial
    have hlow : ¬ c.toNat < 32 := fun h => hspecial (Or.inl h)
    show (lexChar (tokens, .string text none) c).bind some = _
    rw [lexChar, if_neg hquote, if_neg hback, if_neg hlow]
    rfl

theorem foldlM_escapes (tokens : List Token) (pre text : List Char) :
    (text.flatMap escape).foldlM lexChar (tokens, .string pre none) =
      some (tokens, .string (pre ++ text) none) := by
  induction text generalizing pre with
  | nil => simp
  | cons c text ih =>
      rw [List.flatMap_cons, List.foldlM_append, foldlM_escape]
      show (text.flatMap escape).foldlM lexChar (tokens, .string (pre ++ [c]) none) = _
      rw [ih, List.append_assoc]
      rfl

/-! ## Reading back a token list -/

def Token.isBare : Token → Bool
  | .bare _ => true
  | _ => false

/-- A token that its own text denotes. -/
def Token.Good : Token → Prop
  | .bare text => text ≠ [] ∧ ∀ c ∈ text, Json.isBare c = true
  | _ => True

/-- No two bare tokens are neighbours. -/
def Separated : List Token → Prop
  | t :: t' :: rest => (t.isBare = true → t'.isBare = false) ∧ Separated (t' :: rest)
  | _ => True

/-- The state when the text of a token is read: a bare one may go on. -/
def readTo (tokens : List Token) : Token → List Token × Mode
  | .bare text => (tokens, .bare text)
  | t => (tokens ++ [t], .between)

theorem finish_readTo (tokens : List Token) (t : Token) :
    finish (readTo tokens t) = some (tokens ++ [t]) := by
  cases t <;> rfl

theorem start_bare (tokens : List Token) {c : Char} (hc : isBare c = true) :
    start tokens c = some (tokens, .bare [c]) := by
  have hne : ∀ x, isBare x = false → c ≠ x := by
    rintro x hx rfl
    rw [hx] at hc
    cases hc
  unfold start
  rw [if_neg, if_neg (hne '{' (by decide)), if_neg (hne '}' (by decide)),
    if_neg (hne '[' (by decide)), if_neg (hne ']' (by decide)), if_neg (hne ':' (by decide)),
    if_neg (hne ',' (by decide)), if_neg (hne '"' (by decide)), if_pos hc]
  rintro (h | h | h | h)
  · exact hne ' ' (by decide) h
  · exact hne '\t' (by decide) h
  · exact hne '\n' (by decide) h
  · exact hne '\r' (by decide) h

theorem foldlM_bare (tokens : List Token) (pre text : List Char)
    (h : ∀ c ∈ text, isBare c = true) :
    text.foldlM lexChar (tokens, .bare pre) = some (tokens, .bare (pre ++ text)) := by
  induction text generalizing pre with
  | nil => simp
  | cons c text ih =>
      have hstep : lexChar (tokens, .bare pre) c = some (tokens, .bare (pre ++ [c])) :=
        if_pos (h c List.mem_cons_self)
      rw [List.foldlM_cons, hstep]
      show text.foldlM lexChar (tokens, .bare (pre ++ [c])) = _
      rw [ih _ fun x hx => h x (List.mem_cons_of_mem _ hx), List.append_assoc]
      rfl

theorem lex_token (tokens : List Token) {t : Token} (ht : t.Good) :
    t.print.foldlM lexChar (tokens, .between) = some (readTo tokens t) := by
  cases t with
  | bare text =>
      obtain ⟨hne, hall⟩ := ht
      obtain ⟨c, rest, rfl⟩ := List.exists_cons_of_ne_nil hne
      show ((start tokens c).bind fun s => rest.foldlM lexChar s) = _
      rw [start_bare tokens (hall c List.mem_cons_self)]
      exact foldlM_bare tokens [c] rest fun x hx => hall x (List.mem_cons_of_mem _ hx)
  | str text =>
      have hopen : ['"'].foldlM lexChar (tokens, Mode.between) =
          some (tokens, .string [] none) := rfl
      show (['"'] ++ (text.flatMap escape ++ ['"'])).foldlM lexChar (tokens, .between) = _
      rw [List.foldlM_append, hopen]
      show (text.flatMap escape ++ ['"']).foldlM lexChar (tokens, .string [] none) = _
      rw [List.foldlM_append, foldlM_escapes]
      rfl
  | lbrace => rfl
  | rbrace => rfl
  | lbrack => rfl
  | rbrack => rfl
  | colon => rfl
  | comma => rfl

/-- A bare token ends where the next token starts. -/
theorem lex_next (tokens : List Token) {t t' : Token} (ht' : t'.Good)
    (hsep : t.isBare = true → t'.isBare = false) :
    t'.print.foldlM lexChar (readTo tokens t) = some (readTo (tokens ++ [t]) t') := by
  rw [← lex_token (tokens ++ [t]) ht']
  cases t with
  | bare text =>
      have hbare := hsep rfl
      cases t' with
      | bare text' => cases hbare
      | _ => rfl
  | _ => rfl

theorem lex_rest (tokens : List Token) (t : Token) (ts : List Token)
    (hgood : ∀ t' ∈ ts, t'.Good) (hsep : Separated (t :: ts)) :
    ((printTokens ts).foldlM lexChar (readTo tokens t)).bind finish = some (tokens ++ t :: ts) := by
  induction ts generalizing tokens t with
  | nil => exact finish_readTo tokens t
  | cons t' ts ih =>
      obtain ⟨hfirst, hrest⟩ := hsep
      have hprint : printTokens (t' :: ts) = t'.print ++ printTokens ts := rfl
      rw [hprint, List.foldlM_append, lex_next tokens (hgood t' List.mem_cons_self) hfirst]
      show ((printTokens ts).foldlM lexChar (readTo (tokens ++ [t]) t')).bind finish = _
      rw [ih _ _ (fun x hx => hgood x (List.mem_cons_of_mem _ hx)) hrest, List.append_assoc]
      rfl

/-- **A separated token list is read back from its text.** -/
theorem lex_print {ts : List Token} (hgood : ∀ t ∈ ts, t.Good) (hsep : Separated ts) :
    lex (printTokens ts) = some ts := by
  cases ts with
  | nil => rfl
  | cons t ts =>
      have hprint : printTokens (t :: ts) = t.print ++ printTokens ts := rfl
      unfold lex
      rw [hprint, List.foldlM_append, lex_token [] (hgood t List.mem_cons_self)]
      exact lex_rest [] t ts (fun x hx => hgood x (List.mem_cons_of_mem _ hx)) hsep

end Json

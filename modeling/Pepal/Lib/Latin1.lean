import Pepal.Lib.Json

/-!
# JSON text read one byte a character

A text is sent as UTF-8, and the receiver takes each byte for a character.
Characters below 128 come out as they are; any other one comes out as two to
four characters between 128 and 255, the first of them at least 192.

JSON survives this as JSON: its syntax and its escapes are all below 128. The
value that is read differs from the one that was written in its strings only,
and what was escaped there is not changed either (`parse_misread`).
-/

namespace Json

/-- A byte as a character. -/
def ofByte (b : UInt8) : Char := Char.ofNat b.toNat

/-- What a character comes out as. -/
def misread (c : Char) : List Char := (String.utf8EncodeChar c).map ofByte

theorem toNat_ofByte (b : UInt8) : (ofByte b).toNat = b.toNat := by
  have hb : b.toNat < 256 := b.toNat_lt
  have hvalid : b.toNat.isValidChar := Or.inl (by omega)
  unfold ofByte Char.ofNat
  rw [dif_pos hvalid]
  rfl

theorem ofByte_toNat {c : Char} (h : c.toNat < 256) : ofByte (UInt8.ofNat c.toNat) = c := by
  unfold ofByte
  rw [UInt8.toNat_ofNat_of_lt' h, Char.ofNat_toNat]

theorem misread_of_lt {c : Char} (h : c.toNat < 128) : misread c = [c] := by
  have hle : c.val.toNat ≤ 0x7f := Nat.le_of_lt_succ h
  unfold misread String.utf8EncodeChar
  rw [if_pos hle, List.map_singleton]
  exact congrArg (fun x => [x]) (ofByte_toNat (h.trans (by decide)))

theorem misread_of_ge {c : Char} (h : 128 ≤ c.toNat) :
    (∃ x ∈ misread c, 192 ≤ x.toNat) ∧ ∀ x ∈ misread c, 128 ≤ x.toNat ∧ x.toNat < 256 := by
  have hle : ¬ c.val.toNat ≤ 0x7f := by
    show ¬ c.toNat ≤ 127
    omega
  unfold misread String.utf8EncodeChar
  simp only [if_neg hle]
  split_ifs <;>
    simp only [List.map_cons, List.map_nil, List.mem_cons, List.not_mem_nil, or_false,
      forall_eq_or_imp, exists_eq_or_imp, toNat_ofByte, UInt8.toNat_ofNat', forall_eq,
      exists_eq_left] <;>
    omega

theorem flatMap_misread_of_lt {text : List Char} (h : ∀ c ∈ text, c.toNat < 128) :
    text.flatMap misread = text := by
  induction text with
  | nil => rfl
  | cons c text ih =>
      rw [List.flatMap_cons, misread_of_lt (h c List.mem_cons_self),
        ih fun x hx => h x (List.mem_cons_of_mem c hx)]
      rfl

/-! ## Strings -/

/-- A line separator: above 127, but escaped. -/
def isLineSeparator (c : Char) : Bool := c.toNat == 8232 || c.toNat == 8233

/-- What a character of a string comes out as. -/
def reread (c : Char) : List Char := if isLineSeparator c then [c] else misread c

theorem reread_of_lt {c : Char} (h : c.toNat < 128) : reread c = [c] := by
  unfold reread
  rw [misread_of_lt h, ite_self]

theorem reread_of_separator {c : Char} (h : isLineSeparator c = true) : reread c = [c] := by
  unfold reread
  rw [if_pos h]

theorem hex4_lt (n : ℕ) : ∀ x ∈ hex4 n, x.toNat < 128 := by
  have key : ∀ d < 16, (hexDigit d).toNat < 128 := by decide
  simp only [hex4, List.mem_cons, List.not_mem_nil, or_false]
  rintro x (rfl | rfl | rfl | rfl) <;> exact key _ (Nat.mod_lt _ (by decide))

/-- Below 128 or escaped, a character stands for itself as ASCII text. -/
theorem escape_lt {c : Char} (h : c.toNat < 128 ∨ isLineSeparator c = true) :
    ∀ x ∈ escape c, x.toNat < 128 := by
  have hpair : ∀ {a b : Char}, a.toNat < 128 → b.toNat < 128 → ∀ x ∈ [a, b], x.toNat < 128 := by
    intro a b ha hb x hx
    rcases List.mem_pair.mp hx with rfl | rfl
    · exact ha
    · exact hb
  unfold escape
  split
  · exact hpair (by decide) (by decide)
  split
  · exact hpair (by decide) (by decide)
  split
  · exact hpair (by decide) (by decide)
  split
  · exact hpair (by decide) (by decide)
  split
  · exact hpair (by decide) (by decide)
  split
  · intro x hx
    rcases List.mem_cons.mp hx with rfl | hx
    · decide
    rcases List.mem_cons.mp hx with rfl | hx
    · decide
    · exact hex4_lt _ x hx
  · rename_i hspecial
    intro x hx
    obtain rfl := List.mem_singleton.mp hx
    rcases h with h | h
    · exact h
    · unfold isLineSeparator at h
      rw [Bool.or_eq_true, beq_iff_eq, beq_iff_eq] at h
      exact absurd (Or.inr (Or.inr (Or.inr (Or.inr h)))) hspecial

/-- Above 127 only the line separators are escaped. -/
theorem escape_of_ge {c : Char} (h : 128 ≤ c.toNat) (hsep : isLineSeparator c = false) :
    escape c = [c] := by
  have hne : ∀ x : Char, x.toNat < 128 → c ≠ x := by
    rintro x hx rfl
    omega
  unfold isLineSeparator at hsep
  rw [Bool.or_eq_false_iff, beq_eq_false_iff_ne, beq_eq_false_iff_ne] at hsep
  unfold escape
  rw [if_neg (hne _ (by decide)), if_neg (hne _ (by decide)), if_neg (hne _ (by decide)),
    if_neg (hne _ (by decide)), if_neg (hne _ (by decide)), if_neg]
  rintro (hlow | rfl | rfl | rfl | hline | hpar)
  · omega
  · exact absurd h (by decide)
  · exact absurd h (by decide)
  · exact absurd h (by decide)
  · exact hsep.1 hline
  · exact hsep.2 hpar

theorem flatMap_escape_of_ge {text : List Char} (h : ∀ c ∈ text, 128 ≤ c.toNat ∧ c.toNat < 256) :
    text.flatMap escape = text := by
  induction text with
  | nil => rfl
  | cons c text ih =>
      obtain ⟨hlow, hhigh⟩ := h c List.mem_cons_self
      have hsep : isLineSeparator c = false := by
        unfold isLineSeparator
        rw [Bool.or_eq_false_iff, beq_eq_false_iff_ne, beq_eq_false_iff_ne]
        omega
      rw [List.flatMap_cons, escape_of_ge hlow hsep,
        ih fun x hx => h x (List.mem_cons_of_mem c hx)]
      rfl

/-- What is misread of an escaped character is what stands for its misreading. -/
theorem flatMap_misread_escape (c : Char) :
    (escape c).flatMap misread = (reread c).flatMap escape := by
  by_cases hplain : c.toNat < 128 ∨ isLineSeparator c = true
  · have hself : reread c = [c] := by
      rcases hplain with h | h
      · exact reread_of_lt h
      · exact reread_of_separator h
    rw [flatMap_misread_of_lt (escape_lt hplain), hself, List.flatMap_singleton]
  · rw [not_or, not_lt, Bool.not_eq_true] at hplain
    obtain ⟨hge, hsep⟩ := hplain
    have hmisread : reread c = misread c := by
      unfold reread
      rw [hsep, if_neg Bool.false_ne_true]
    rw [escape_of_ge hge hsep, List.flatMap_singleton, hmisread,
      flatMap_escape_of_ge (misread_of_ge hge).2]

theorem flatMap_misread_escapes (text : List Char) :
    (text.flatMap escape).flatMap misread = (text.flatMap reread).flatMap escape := by
  rw [List.flatMap_assoc, List.flatMap_assoc]
  simp only [flatMap_misread_escape]

/-! ## Values -/

section MapText

variable (f : List Char → List Char)

def Token.mapText : Token → Token
  | .str text => .str (f text)
  | t => t

mutual
/-- A value with its strings changed, keys included. -/
def mapText : Value → Value
  | .null => .null
  | .bool b => .bool b
  | .num n => .num n
  | .str text => .str (f text)
  | .arr items => .arr (mapItems items)
  | .obj members => .obj (mapMembers members)
def mapItems : List Value → List Value
  | [] => []
  | x :: xs => mapText x :: mapItems xs
def mapMembers : List (List Char × Value) → List (List Char × Value)
  | [] => []
  | (k, x) :: ms => (f k, mapText x) :: mapMembers ms
end

mutual
theorem tokens_mapText : ∀ v : Value, tokens (mapText f v) = (tokens v).map (Token.mapText f)
  | .null => rfl
  | .bool _ => rfl
  | .num _ => rfl
  | .str _ => rfl
  | .arr [] => rfl
  | .arr (x :: xs) => by
      rw [mapText, mapItems, tokens, tokens_mapText x, items_mapText xs, tokens, List.map_cons,
        List.map_append]
      rfl
  | .obj [] => rfl
  | .obj ((k, x) :: ms) => by
      rw [mapText, mapMembers, tokens, tokens_mapText x, members_mapText ms, tokens]
      simp only [List.map_cons, List.map_append]
      rfl
theorem items_mapText : ∀ xs : List Value,
    itemsTail (mapItems f xs) = (itemsTail xs).map (Token.mapText f)
  | [] => rfl
  | x :: xs => by
      rw [mapItems, itemsTail, tokens_mapText x, items_mapText xs, itemsTail, List.map_cons,
        List.map_append]
      rfl
theorem members_mapText : ∀ ms : List (List Char × Value),
    membersTail (mapMembers f ms) = (membersTail ms).map (Token.mapText f)
  | [] => rfl
  | (k, x) :: ms => by
      rw [mapMembers, membersTail, tokens_mapText x, members_mapText ms, membersTail]
      simp only [List.map_cons, List.map_append]
      rfl
end

end MapText

theorem isBare_lt {c : Char} (h : isBare c = true) : c.toNat < 128 := by
  unfold isBare Char.isAlphanum Char.isAlpha Char.isUpper Char.isLower Char.isDigit at h
  simp only [Bool.or_eq_true, decide_eq_true_eq, Bool.and_eq_true, ge_iff_le,
    UInt32.le_iff_toNat_le] at h
  rcases h with (((((⟨-, hZ⟩ | ⟨-, hz⟩) | ⟨-, h9⟩) | rfl) | rfl) | rfl)
  · exact hZ.trans_lt (by decide)
  · exact hz.trans_lt (by decide)
  · exact h9.trans_lt (by decide)
  · decide
  · decide
  · decide

def rereadText (text : List Char) : List Char := text.flatMap reread

/-- A string without characters above 127, other than line separators, comes out
as it is. -/
theorem rereadText_eq {text : List Char}
    (h : ∀ c ∈ text, c.toNat < 128 ∨ isLineSeparator c = true) : rereadText text = text := by
  induction text with
  | nil => rfl
  | cons c text ih =>
      have hself : reread c = [c] := by
        rcases h c List.mem_cons_self with hlow | hsep
        · exact reread_of_lt hlow
        · exact reread_of_separator hsep
      have hrest : rereadText text = text := ih fun x hx => h x (List.mem_cons_of_mem c hx)
      unfold rereadText at hrest ⊢
      rw [List.flatMap_cons, hself, hrest]
      rfl

theorem two_le_length_misread {c : Char} (h : 128 ≤ c.toNat) : 2 ≤ (misread c).length := by
  have hsize : c.utf8Size ≠ 1 := by
    rw [Ne, Char.utf8Size_eq_one_iff, UInt32.le_iff_toNat_le]
    show ¬ c.toNat ≤ 127
    omega
  have hpos := c.utf8Size_pos
  rw [misread, List.length_map, String.length_utf8EncodeChar]
  omega

theorem length_reread (c : Char) :
    (reread c).length = 1 ∧ (c.toNat < 128 ∨ isLineSeparator c = true) ∨
      2 ≤ (reread c).length ∧ ¬ (c.toNat < 128 ∨ isLineSeparator c = true) := by
  by_cases hplain : c.toNat < 128 ∨ isLineSeparator c = true
  · left
    refine ⟨?_, hplain⟩
    rcases hplain with h | h
    · rw [reread_of_lt h, List.length_singleton]
    · rw [reread_of_separator h, List.length_singleton]
  · right
    refine ⟨?_, hplain⟩
    rw [not_or, not_lt, Bool.not_eq_true] at hplain
    unfold reread
    rw [hplain.2, if_neg Bool.false_ne_true]
    exact two_le_length_misread hplain.1

theorem length_le_rereadText (text : List Char) : text.length ≤ (rereadText text).length := by
  induction text with
  | nil => exact Nat.zero_le _
  | cons c text ih =>
      unfold rereadText at ih ⊢
      rw [List.flatMap_cons, List.length_append, List.length_cons]
      rcases length_reread c with ⟨hone, -⟩ | ⟨htwo, -⟩
      · omega
      · omega

/-- Any other string comes out longer. -/
theorem length_lt_rereadText {text : List Char} {c : Char} (hc : c ∈ text)
    (h : ¬ (c.toNat < 128 ∨ isLineSeparator c = true)) :
    text.length < (rereadText text).length := by
  obtain ⟨before, after, rfl⟩ := List.append_of_mem hc
  have hbefore := length_le_rereadText before
  have hafter := length_le_rereadText after
  have hchar : 2 ≤ (reread c).length := by
    rcases length_reread c with ⟨-, hplain⟩ | ⟨htwo, -⟩
    · exact absurd hplain h
    · exact htwo
  unfold rereadText at hbefore hafter ⊢
  rw [List.flatMap_append, List.flatMap_cons, List.length_append, List.length_append,
    List.length_append, List.length_cons]
  omega

/-- **A string comes out as it is exactly where its characters are below 128 or
line separators.** -/
theorem rereadText_eq_iff {text : List Char} :
    rereadText text = text ↔ ∀ c ∈ text, c.toNat < 128 ∨ isLineSeparator c = true := by
  constructor
  · intro hsame c hc
    by_contra h
    have hlt := length_lt_rereadText hc h
    rw [hsame] at hlt
    exact absurd hlt (Nat.lt_irrefl _)
  · exact rereadText_eq

theorem flatMap_misread_token {t : Token} (ht : t.Good) :
    t.print.flatMap misread = (t.mapText rereadText).print := by
  cases t with
  | str text =>
      show ('"' :: (text.flatMap escape ++ ['"'])).flatMap misread =
        '"' :: ((text.flatMap reread).flatMap escape ++ ['"'])
      rw [List.flatMap_cons, List.flatMap_append, flatMap_misread_escapes, List.flatMap_singleton,
        misread_of_lt (by decide)]
      rfl
  | bare text => exact flatMap_misread_of_lt fun c hc => isBare_lt (ht.2 c hc)
  | lbrace => exact flatMap_misread_of_lt (List.forall_mem_singleton.mpr (by decide))
  | rbrace => exact flatMap_misread_of_lt (List.forall_mem_singleton.mpr (by decide))
  | lbrack => exact flatMap_misread_of_lt (List.forall_mem_singleton.mpr (by decide))
  | rbrack => exact flatMap_misread_of_lt (List.forall_mem_singleton.mpr (by decide))
  | colon => exact flatMap_misread_of_lt (List.forall_mem_singleton.mpr (by decide))
  | comma => exact flatMap_misread_of_lt (List.forall_mem_singleton.mpr (by decide))

theorem flatMap_misread_tokens {ts : List Token} (hts : AllGood ts) :
    (printTokens ts).flatMap misread = printTokens (ts.map (Token.mapText rereadText)) := by
  unfold printTokens
  rw [List.flatMap_assoc, List.flatMap_map]
  exact List.flatMap_congr fun t ht => flatMap_misread_token (hts t ht)

/-- **A misread text is read as the value with its strings misread.** -/
theorem parse_misread (v : Value) :
    parse ((print v).flatMap misread) = some (mapText rereadText v) := by
  have hprint : (print v).flatMap misread = print (mapText rereadText v) := by
    unfold print
    rw [flatMap_misread_tokens (good_tokens v), tokens_mapText]
  rw [hprint, parse_print]

end Json

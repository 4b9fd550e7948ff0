import Pepal.Pgm.HeaderBounds

/-!
# Well-formed files

The header of a binary PGM file as the format has it, whatever the programs make
of it: numerals of any length, and between them blanks and comments, each from a
`#` to the end of its line. The programs know no comments and have room for 8
digits; without comments this is all that keeps them from the numbers.
-/

namespace Pepal.Pgm

/-- A blank, or a comment with the end of its line. -/
inductive Filler : List UInt8 → Prop
  | blank {x : UInt8} (h : isBlank x = true) : Filler [x]
  | comment {text : List UInt8} (h : 10 ∉ text) : Filler (35 :: (text ++ [10]))

/-- The value of a numeral. -/
def value (text : List Char) : ℕ := Nat.ofDigitChars 10 text 0

/-- The header of a file: the numerals, and what stands before each of them and
after the last. -/
structure P5 where
  widthText : List Char
  heightText : List Char
  maxvalText : List Char
  gap₁ : List (List UInt8)
  gap₂ : List (List UInt8)
  gap₃ : List (List UInt8)
  last : List UInt8
  numerals : ∀ text ∈ [widthText, heightText, maxvalText],
    text ≠ [] ∧ text.all Char.isDigit = true
  gaps : ∀ gap ∈ [gap₁, gap₂, gap₃], gap ≠ [] ∧ ∀ piece ∈ gap, Filler piece
  ends : Filler last
  width_pos : 0 < value widthText
  height_pos : 0 < value heightText
  maxval_pos : 0 < value maxvalText
  maxval_lt : value maxvalText < 2 ^ 16

namespace P5

def width (f : P5) : ℕ := value f.widthText

def height (f : P5) : ℕ := value f.heightText

def maxval (f : P5) : ℕ := value f.maxvalText

/-- What follows `P5`. -/
def numbers (f : P5) : List UInt8 :=
  f.gap₁.flatten ++ bytes f.widthText ++ f.gap₂.flatten ++ bytes f.heightText ++
    f.gap₃.flatten ++ bytes f.maxvalText ++ f.last

def text (f : P5) : List UInt8 := [80, 53] ++ f.numbers

def header (f : P5) : Header :=
  { width := f.width, height := f.height, max_grey := f.maxval }

/-- No comment. -/
def Plain (f : P5) : Prop := ∀ piece ∈ f.gap₁ ++ f.gap₂ ++ f.gap₃ ++ [f.last], 35 ∉ piece

/-- Every numeral fits its array. -/
def Short (f : P5) : Prop := ∀ text ∈ [f.widthText, f.heightText, f.maxvalText], text.length ≤ 8

/-- The programs read the numbers of the file, and go on with its `rest`. -/
def Reads (f : P5) (rest : List UInt8) : Prop :=
  readNumbers (f.numbers ++ rest) = some (f.header, rest)

end P5

theorem blank_of_filler {piece : List UInt8} (h : Filler piece) (hplain : 35 ∉ piece) :
    ∃ x, isBlank x = true ∧ piece = [x] := by
  rcases h with hx | -
  · exact ⟨_, hx, rfl⟩
  · exact absurd List.mem_cons_self hplain

theorem blanks_flatten {gap : List (List UInt8)}
    (h : gap ≠ [] ∧ ∀ piece ∈ gap, Filler piece) (hplain : ∀ piece ∈ gap, 35 ∉ piece) :
    Blanks gap.flatten ∧ gap.flatten ≠ [] := by
  obtain ⟨hne, hfiller⟩ := h
  constructor
  · intro x hx
    obtain ⟨piece, hpiece, hx⟩ := List.mem_flatten.mp hx
    obtain ⟨y, hy, rfl⟩ := blank_of_filler (hfiller piece hpiece) (hplain piece hpiece)
    rwa [List.mem_singleton.mp hx]
  · obtain ⟨piece, gap, rfl⟩ := List.exists_cons_of_ne_nil hne
    obtain ⟨y, -, rfl⟩ :=
      blank_of_filler (hfiller piece List.mem_cons_self) (hplain piece List.mem_cons_self)
    exact List.cons_ne_nil y _

/-- A header without comments: blanks, and one after the last numeral. -/
theorem P5.Plain.blanks {f : P5} (h : f.Plain) :
    (Blanks f.gap₁.flatten ∧ f.gap₁.flatten ≠ []) ∧
      (Blanks f.gap₂.flatten ∧ f.gap₂.flatten ≠ []) ∧
      (Blanks f.gap₃.flatten ∧ f.gap₃.flatten ≠ []) ∧
      ∃ b, isBlank b = true ∧ f.last = [b] := by
  simp only [P5.Plain, List.mem_append, List.mem_singleton] at h
  exact ⟨blanks_flatten (f.gaps _ (by simp)) fun _ hp => h _ (.inl (.inl (.inl hp))),
    blanks_flatten (f.gaps _ (by simp)) fun _ hp => h _ (.inl (.inl (.inr hp))),
    blanks_flatten (f.gaps _ (by simp)) fun _ hp => h _ (.inl (.inr hp)),
    blank_of_filler f.ends (h _ (.inr rfl))⟩

/-! ## Long numerals -/

theorem read_number_long {text : List UInt8} (htext : ∀ x ∈ text, isBlank x = false) {x : UInt8}
    (hx : isBlank x = false) {room : ℕ} (hroom : room ≤ text.length + 1) (b : UInt8)
    (rest : List UInt8) : read_number room x (text ++ b :: rest) = none := by
  induction text generalizing x room with
  | nil =>
      rcases room with _ | room
      · rfl
      · obtain rfl : room = 0 := by
          rw [List.length_nil] at hroom
          omega
        rw [read_number, hx, if_neg Bool.false_ne_true]
        rfl
  | cons y text ih =>
      have hy : isBlank y = false := htext y List.mem_cons_self
      have hrest : ∀ z ∈ text, isBlank z = false := fun z hz => htext z (List.mem_cons_of_mem y hz)
      rcases room with _ | room
      · rfl
      · rw [List.length_cons] at hroom
        rw [read_number, hx, if_neg Bool.false_ne_true]
        show (read_number room y (text ++ b :: rest)).map _ = none
        rw [ih hrest hy (by omega), Option.map_none]

/-- A numeral that is read fits. -/
theorem number_of_nextNumber {blanks : List UInt8} (hblanks : Blanks blanks) {text : List Char}
    (htext : text ≠ [] ∧ text.all Char.isDigit = true) {b x : UInt8} {rest : List UInt8}
    {r : ℤ × UInt8 × List UInt8}
    (h : nextNumber x (blanks ++ (bytes text ++ b :: rest)) = some r) :
    Number text (value text) := by
  refine ⟨htext.1, htext.2, ?_, rfl⟩
  by_contra hlong
  obtain ⟨d, ds, rfl⟩ := List.exists_cons_of_ne_nil htext.1
  have hdigit : ∀ c ∈ d :: ds, isBlank (UInt8.ofNat c.toNat) = false :=
    fun c hc => not_isBlank_digit (List.all_eq_true.mp htext.2 c hc)
  have hd := hdigit d List.mem_cons_self
  have hds : ∀ y ∈ bytes ds, isBlank y = false := by
    intro y hy
    obtain ⟨c, hc, rfl⟩ := List.mem_map.mp hy
    exact hdigit c (List.mem_cons_of_mem d hc)
  have hroom : 9 ≤ (bytes ds).length + 1 := by
    rw [List.length_cons] at hlong
    rw [bytes, List.length_map]
    omega
  have hnext : get_next_non_space x (blanks ++ (bytes (d :: ds) ++ b :: rest)) =
      some (UInt8.ofNat d.toNat, bytes ds ++ b :: rest) :=
    get_next_non_space_blanks hblanks hd x _
  have hnone := read_number_long hds hd hroom b rest
  unfold nextNumber at h
  simp only [hnext, hnone, Option.bind_eq_bind, Option.bind_some, Option.bind_none] at h
  cases h

/-- **Without comments the numbers are read where the numerals fit.** -/
theorem P5.reads_of_short {f : P5} (hplain : f.Plain) (hshort : f.Short) (rest : List UInt8) :
    f.Reads rest := by
  obtain ⟨h₁, h₂, h₃, b, hb, hlast⟩ := hplain.blanks
  have hnumber : ∀ text ∈ [f.widthText, f.heightText, f.maxvalText],
      Number text (value text) := by
    intro text htext
    exact ⟨(f.numerals text htext).1, (f.numerals text htext).2, hshort text htext, rfl⟩
  have hb' : Blanks [b] := by
    intro x hx
    rwa [List.mem_singleton.mp hx]
  have hheader : HasHeader (80 :: 53 :: (f.numbers ++ rest)) f.width f.height f.maxval rest := by
    refine ⟨_, _, _, [b], _, _, _, ?_, h₁, h₂, h₃, ⟨hb', rfl⟩, hnumber f.widthText (by simp),
      hnumber f.heightText (by simp), hnumber f.maxvalText (by simp)⟩
    rw [P5.numbers, hlast]
    simp only [List.append_assoc, List.cons_append, List.nil_append]
  exact readNumbers_of_readHeader (readHeader_of_hasHeader hheader "")

theorem P5.short_of_reads {f : P5} (hplain : f.Plain) {rest : List UInt8}
    {r : Header × List UInt8} (h : readNumbers (f.numbers ++ rest) = some r) : f.Short := by
  obtain ⟨h₁, h₂, h₃, b, hb, hlast⟩ := hplain.blanks
  obtain ⟨c₂, r₂, hgap₂, hc₂, hr₂⟩ := exists_blank h₂
  obtain ⟨c₃, r₃, hgap₃, hc₃, hr₃⟩ := exists_blank h₃
  have hfile : f.numbers ++ rest = f.gap₁.flatten ++ (bytes f.widthText ++ c₂ ::
      (r₂ ++ (bytes f.heightText ++ c₃ :: (r₃ ++ (bytes f.maxvalText ++ b :: rest))))) := by
    rw [P5.numbers, hlast, hgap₂, hgap₃]
    simp only [List.append_assoc, List.cons_append, List.nil_append]
  rw [hfile] at h
  obtain ⟨⟨n₁, x₁, orig₁⟩, hfirst, h⟩ := Option.bind_eq_some_iff.mp h
  obtain ⟨⟨n₂, x₂, orig₂⟩, hsecond, h⟩ := Option.bind_eq_some_iff.mp h
  obtain ⟨⟨n₃, x₃, orig₃⟩, hthird, -⟩ := Option.bind_eq_some_iff.mp h
  have hw := number_of_nextNumber h₁.1 (f.numerals _ (by simp)) hfirst
  obtain ⟨y₁, hfirst'⟩ := nextNumber_number h₁.1 hw hc₂ 32
    (r₂ ++ (bytes f.heightText ++ c₃ :: (r₃ ++ (bytes f.maxvalText ++ b :: rest))))
  cases hfirst.symm.trans hfirst'
  have hh := number_of_nextNumber hr₂ (f.numerals _ (by simp)) hsecond
  obtain ⟨y₂, hsecond'⟩ := nextNumber_number hr₂ hh hc₃ x₁
    (r₃ ++ (bytes f.maxvalText ++ b :: rest))
  cases hsecond.symm.trans hsecond'
  have hm := number_of_nextNumber hr₃ (f.numerals _ (by simp)) hthird
  intro text htext
  simp only [List.mem_cons, List.not_mem_nil, or_false] at htext
  rcases htext with rfl | rfl | rfl
  · exact hw.short
  · exact hh.short
  · exact hm.short

/-- Without comments, what is read is what stands there. -/
theorem P5.reads_of_readNumbers {f : P5} (hplain : f.Plain) {rest : List UInt8}
    {r : Header × List UInt8} (h : readNumbers (f.numbers ++ rest) = some r) : f.Reads rest :=
  P5.reads_of_short hplain (P5.short_of_reads hplain h) rest

theorem readHeader_text (f : P5) (rest : List UInt8) (wrongFormat : String) :
    readHeader wrongFormat (f.text ++ rest) = liftM (readNumbers (f.numbers ++ rest)) := by
  show (if (80 : UInt8) ≠ 80 ∨ (53 : UInt8) ≠ 53 then throw wrongFormat
    else liftM (readNumbers (f.numbers ++ rest))) = _
  rw [if_neg (by decide)]

theorem P5.Reads.readHeader {f : P5} {rest : List UInt8} (h : f.Reads rest)
    (wrongFormat : String) :
    Pgm.readHeader wrongFormat (f.text ++ rest) = pure (f.header, rest) := by
  rw [readHeader_text, h]
  rfl

/-- What is read of a header without comments. -/
theorem header_of_read {f : P5} (hplain : f.Plain) {rest rest' : List UInt8} {h : Header}
    {wrongFormat : String} (hread : readHeader wrongFormat (f.text ++ rest) = pure (h, rest')) :
    f.Reads rest ∧ h = f.header := by
  rw [readHeader_text] at hread
  rcases hsome : readNumbers (f.numbers ++ rest) with _ | r
  · rw [hsome] at hread
    cases hread
  · have hreads := P5.reads_of_readNumbers hplain hsome
    rw [hreads] at hread
    exact ⟨hreads, (Prod.mk.inj (Except.ok.inj (Option.some.inj hread))).1.symm⟩

/-! ## Written headers -/

theorem value_toDigits (n : ℕ) : value (Nat.toDigits 10 n) = n := Nat.ofDigitChars_ten_toDigits

/-- Numbers that a header may have. -/
structure Numbers where
  width : ℕ
  height : ℕ
  maxval : ℕ
  width_pos : 0 < width
  height_pos : 0 < height
  maxval_pos : 0 < maxval
  maxval_lt : maxval < 2 ^ 16

/-- With one byte a sample. -/
def Numbers.bytewise (width height : ℕ) (hw : 0 < width) (hh : 0 < height) : Numbers where
  width := width
  height := height
  maxval := 255
  width_pos := hw
  height_pos := hh
  maxval_pos := Nat.succ_pos 254
  maxval_lt := Nat.le_of_ble_eq_true rfl

/-- A header as the programs write it. -/
def P5.written (n : Numbers) : P5 where
  widthText := Nat.toDigits 10 n.width
  heightText := Nat.toDigits 10 n.height
  maxvalText := Nat.toDigits 10 n.maxval
  gap₁ := [[32]]
  gap₂ := [[32]]
  gap₃ := [[32]]
  last := [10]
  numerals := by
    intro text htext
    simp only [List.mem_cons, List.not_mem_nil, or_false] at htext
    rcases htext with rfl | rfl | rfl
    · exact ⟨Nat.toDigits_ne_nil, Numeral.all_toDigits _⟩
    · exact ⟨Nat.toDigits_ne_nil, Numeral.all_toDigits _⟩
    · exact ⟨Nat.toDigits_ne_nil, Numeral.all_toDigits _⟩
  gaps := by
    intro gap hgap
    simp only [List.mem_cons, List.not_mem_nil, or_false, or_self] at hgap
    subst hgap
    refine ⟨List.cons_ne_nil _ _, ?_⟩
    intro piece hpiece
    rw [List.mem_singleton.mp hpiece]
    exact .blank rfl
  ends := .blank rfl
  width_pos := n.width_pos.trans_eq (value_toDigits _).symm
  height_pos := n.height_pos.trans_eq (value_toDigits _).symm
  maxval_pos := n.maxval_pos.trans_eq (value_toDigits _).symm
  maxval_lt := (value_toDigits _).trans_lt n.maxval_lt

theorem header_written (n : Numbers) :
    (P5.written n).width = n.width ∧ (P5.written n).height = n.height ∧
      (P5.written n).maxval = n.maxval :=
  ⟨value_toDigits _, value_toDigits _, value_toDigits _⟩

theorem plain_written (n : Numbers) : (P5.written n).Plain := by
  intro piece hpiece
  have hblank : piece = [32] ∨ piece = [10] := by
    simpa [P5.written, or_assoc] using hpiece
  rcases hblank with rfl | rfl
  · decide
  · decide

theorem reads_written {n : Numbers} (hwidth : n.width < 10 ^ 8) (hheight : n.height < 10 ^ 8)
    (rest : List UInt8) : (P5.written n).Reads rest := by
  refine P5.reads_of_short (plain_written n) ?_ rest
  have hshort : ∀ k < 10 ^ 8, (Nat.toDigits 10 k).length ≤ 8 := by
    intro k hk
    exact (Nat.length_toDigits_le_iff (by decide) (by decide)).mpr hk
  intro text htext
  simp only [P5.written, List.mem_cons, List.not_mem_nil, or_false] at htext
  rcases htext with rfl | rfl | rfl
  · exact hshort n.width hwidth
  · exact hshort n.height hheight
  · exact hshort n.maxval (n.maxval_lt.trans (by decide))

/-! ## Runs without an error message -/

/-- A run that does not end with an error message. -/
def Silent {α : Type} (r : Run α) : Prop := ∀ text, r ≠ throw text

namespace Silent

variable {α β : Type}

theorem of_pure (a : α) : Silent (pure a : Run α) := by
  rintro text ⟨⟩

theorem of_option (o : Option α) : Silent (liftM o : Run α) := by
  rcases o with _ | a
  · rintro text ⟨⟩
  · rintro text ⟨⟩

theorem bind {r : Run α} {k : α → Run β} (hr : Silent r) (hk : ∀ a, Silent (k a)) :
    Silent (r >>= k) := by
  rcases r with _ | text | a
  · rintro text ⟨⟩
  · exact absurd rfl (hr text)
  · exact hk a

theorem foldlM {f : β → α → Run β} (hf : ∀ b a, Silent (f b a)) (l : List α) (b : β) :
    Silent (l.foldlM f b) := by
  induction l generalizing b with
  | nil => exact of_pure b
  | cons a l ih =>
      rw [List.foldlM_cons]
      exact (hf b a).bind fun b' => ih b'

end Silent

/-- The header of a well-formed file is no wrong format. -/
theorem silent_readHeader (f : P5) (rest : List UInt8) (wrongFormat : String) :
    Silent (readHeader wrongFormat (f.text ++ rest)) := by
  rw [readHeader_text]
  exact Silent.of_option _

theorem exists_of_bind {α β : Type} {o : Option α} {k : α → Run β} {b : β}
    (h : (liftM o : Run α) >>= k = pure b) : ∃ a, o = some a ∧ k a = pure b := by
  rcases o with _ | a
  · cases h
  · exact ⟨a, rfl, h⟩

end Pepal.Pgm

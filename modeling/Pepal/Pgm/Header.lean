import Pepal.Lib.Decimal
import Pepal.Lib.Latin1
import Pepal.Lib.Tiling

/-!
# The header of a PGM file

What `split_pgm.cc` and `join_pgm.cc` share: the functions that read the header,
and C++ as far as they use it. `none` stands for a run without defined result:
an `int` out of range, a division by zero, an access outside an array or to a
cell never written, a loop without end. A run that prints an error and exits
with 1 is an exception with what it prints. The warning for a `max_grey` above
255 changes nothing and is left out.
-/

namespace Pepal.Pgm

open Json (ofByte ofByte_toNat)

abbrev Run (α : Type) : Type := ExceptT String Option α

def undefined {α : Type} : Run α := (none : Option (Except String α))

theorem liftM_some {α : Type} (a : α) : (liftM (some a) : Run α) = pure a := rfl

/-! ## int -/

/-- The `int` with this value. -/
def int (n : ℤ) : Option ℤ := if -2 ^ 31 ≤ n ∧ n < 2 ^ 31 then some n else none

def add (a b : ℤ) : Option ℤ := int (a + b)

def mul (a b : ℤ) : Option ℤ := int (a * b)

def div (a b : ℤ) : Option ℤ := if b = 0 then none else int (a.tdiv b)

def mod (a b : ℤ) : Option ℤ := if b = 0 then none else int (a.tmod b)

theorem int_eq_some {n m : ℤ} (h : int n = some m) : m = n := by
  unfold int at h
  split at h
  · cases h
    rfl
  · cases h

theorem add_eq_some {a b c : ℤ} (h : add a b = some c) : c = a + b := int_eq_some h

theorem mul_eq_some {a b c : ℤ} (h : mul a b = some c) : c = a * b := int_eq_some h

section Nat

variable {a b : ℕ}

theorem int_natCast (h : a < 2 ^ 31) : int a = some (a : ℤ) := by
  unfold int
  rw [if_pos ⟨by omega, by omega⟩]

theorem add_natCast (h : a + b < 2 ^ 31) : add a b = some ((a + b : ℕ) : ℤ) := by
  unfold add
  rw [← Nat.cast_add, int_natCast h]

theorem mul_natCast (h : a * b < 2 ^ 31) : mul a b = some ((a * b : ℕ) : ℤ) := by
  unfold mul
  rw [← Nat.cast_mul, int_natCast h]

theorem lt_of_mul {n : ℤ} (h : mul a b = some n) : a * b < 2 ^ 31 := by
  unfold mul int at h
  split at h
  · rename_i hbounds
    rw [← Nat.cast_mul] at hbounds
    omega
  · cases h

theorem div_natCast (ha : a < 2 ^ 31) (hb : 0 < b) : div a b = some ((a / b : ℕ) : ℤ) := by
  unfold div
  rw [if_neg (by omega), ← Int.ofNat_tdiv, int_natCast ((Nat.div_le_self a b).trans_lt ha)]

theorem div_eq_some {c : ℤ} (h : div a b = some c) : c = ((a / b : ℕ) : ℤ) := by
  unfold div at h
  split at h
  · cases h
  · rw [int_eq_some h, Int.ofNat_tdiv]

theorem mod_eq_some {c : ℤ} (h : mod a b = some c) : c = ((a % b : ℕ) : ℤ) := by
  unfold mod at h
  split at h
  · cases h
  · rw [int_eq_some h, Int.ofNat_tmod]

theorem mod_natCast (ha : a < 2 ^ 31) (hb : 0 < b) : mod a b = some ((a % b : ℕ) : ℤ) := by
  unfold mod
  rw [if_neg (by omega), ← Int.ofNat_tmod, int_natCast ((Nat.mod_le a b).trans_lt ha)]

end Nat

/-! ## Bytes and text -/

def bytes (text : List Char) : List UInt8 := text.map fun c => UInt8.ofNat c.toNat

/-- `out << n` -/
def print (n : ℤ) : List UInt8 := bytes (Numeral.decimal n)

def isspace (c : Char) : Bool := c = ' ' || decide (9 ≤ c.toNat ∧ c.toNat ≤ 13)

def atoi (text : List UInt8) : Option ℤ :=
  match (text.map ofByte).dropWhile isspace with
  | '-' :: rest => int (-(Nat.ofDigitChars 10 (rest.takeWhile Char.isDigit) 0 : ℕ))
  | '+' :: rest => int (Nat.ofDigitChars 10 (rest.takeWhile Char.isDigit) 0 : ℕ)
  | rest => int (Nat.ofDigitChars 10 (rest.takeWhile Char.isDigit) 0 : ℕ)

/-! ## Reading -/

/-- `x == ' ' || x == '\n' || x == '\r' || x == '\t'` -/
def isBlank (x : UInt8) : Bool := x = 32 || x = 10 || x = 13 || x = 9

/-- The buffer and the rest of the file. At the end of the file `read` leaves
the buffer as it is, so that after a blank the loop goes on for ever. -/
def get_next_non_space (buffer : UInt8) : List UInt8 → Option (UInt8 × List UInt8)
  | [] => if isBlank buffer then none else some (buffer, [])
  | x :: orig => if isBlank x then get_next_non_space x orig else some (x, orig)

/-- What is written after the first byte of `num`, without the closing zero, and
the rest of the file; `room` bytes are left of the array, and `x` is the last
that was written. -/
def read_number : (room : ℕ) → (x : UInt8) → List UInt8 → Option (List UInt8 × List UInt8)
  | 0, _, _ => none
  | room + 1, x, orig =>
      if isBlank x then some ([], orig)
      else
        let next := orig.headD x
        (read_number room next orig.tail).map fun (num, rest) => (next :: num, rest)

/-- The next number: `x` is the buffer that the calls share, and the arrays have
10 bytes. -/
def nextNumber (x : UInt8) (orig : List UInt8) : Option (ℤ × UInt8 × List UInt8) := do
  let (x, orig) ← get_next_non_space x orig
  let (num, orig) ← read_number 9 x orig
  let n ← atoi (x :: num)
  some (n, x, orig)

structure Header where
  width : ℤ
  height : ℤ
  max_grey : ℤ

/-- The three numbers, after `P5`. -/
def readNumbers (orig : List UInt8) : Option (Header × List UInt8) := do
  let (width, x, orig) ← nextNumber 32 orig
  let (height, x, orig) ← nextNumber x orig
  let (max_grey, _, orig) ← nextNumber x orig
  some ({ width := width, height := height, max_grey := max_grey }, orig)

/-- The header and the rest of the file, or the error for a wrong format. Of a
shorter file `ident` keeps cells never written. -/
def readHeader (wrongFormat : String) : List UInt8 → Run (Header × List UInt8)
  | i :: j :: orig => if i ≠ 80 ∨ j ≠ 53 then throw wrongFormat else readNumbers orig
  | [i] => if i ≠ 80 then throw wrongFormat else undefined
  | [] => undefined

/-- `content`, as far as the file goes. -/
def readContent (width height : ℤ) (orig : List UInt8) : Option (List UInt8) := do
  let n ← mul width height
  if n < 0 then none else some (orig.take n.toNat)

/-- `content[i]` -/
def get (content : List UInt8) (i : ℤ) : Option UInt8 :=
  if i < 0 then none else content[i.toNat]?

/-- `out << "P5 " << width << " " << height << " " << max_grey << '\n'` -/
def printHeader (h : Header) : List UInt8 :=
  [80, 53, 32] ++ print h.width ++ [32] ++ print h.height ++ [32] ++ print h.max_grey ++ [10]

/-! ## Images and their files -/

/-- An image with one byte a pixel, row by row. -/
structure Image where
  width : ℕ
  height : ℕ
  max_grey : ℕ
  raster : List UInt8
  depth : max_grey ≤ 255
  size : raster.length = width * height

def Image.pixel (im : Image) (x y : ℕ) : UInt8 := im.raster.getD (x + y * im.width) 0

def Blanks (text : List UInt8) : Prop := ∀ x ∈ text, isBlank x = true

/-- A numeral of at most 8 digits. -/
structure Number (text : List Char) (n : ℕ) : Prop where
  nonempty : text ≠ []
  digits : text.all Char.isDigit = true
  short : text.length ≤ 8
  value : Nat.ofDigitChars 10 text 0 = n

/-- A binary PGM file without comments: the three numbers with blanks before
them, one blank, the raster. -/
def Encodes (file : List UInt8) (im : Image) : Prop :=
  ∃ b₁ b₂ b₃ b : List UInt8, ∃ w h m : List Char,
    file = [80, 53] ++ b₁ ++ bytes w ++ b₂ ++ bytes h ++ b₃ ++ bytes m ++ b ++ im.raster ∧
      (Blanks b₁ ∧ b₁ ≠ []) ∧ (Blanks b₂ ∧ b₂ ≠ []) ∧ (Blanks b₃ ∧ b₃ ≠ []) ∧
      (Blanks b ∧ b.length = 1) ∧
      Number w im.width ∧ Number h im.height ∧ Number m im.max_grey

/-- A file that begins with a header of these numbers, and goes on with `rest`. -/
def HasHeader (file : List UInt8) (width height max_grey : ℕ) (rest : List UInt8) : Prop :=
  ∃ b₁ b₂ b₃ b : List UInt8, ∃ w h m : List Char,
    file = [80, 53] ++ b₁ ++ bytes w ++ b₂ ++ bytes h ++ b₃ ++ bytes m ++ b ++ rest ∧
      (Blanks b₁ ∧ b₁ ≠ []) ∧ (Blanks b₂ ∧ b₂ ≠ []) ∧ (Blanks b₃ ∧ b₃ ≠ []) ∧
      (Blanks b ∧ b.length = 1) ∧
      Number w width ∧ Number h height ∧ Number m max_grey

theorem hasHeader_of_encodes {file : List UInt8} {im : Image} (h : Encodes file im) :
    HasHeader file im.width im.height im.max_grey im.raster := h

theorem Number.lt {text : List Char} {n : ℕ} (h : Number text n) : n < 10 ^ 8 := by
  have hlt := Numeral.ofDigitChars_lt h.digits 0
  rw [h.value, Nat.zero_add, Nat.one_mul] at hlt
  exact hlt.trans_le (Nat.pow_le_pow_right (by decide) h.short)

theorem decimal_natCast (n : ℕ) : Numeral.decimal n = Nat.toDigits 10 n := by
  unfold Numeral.decimal
  rw [if_neg (by omega), Int.natAbs_natCast]

/-- What `out << n` writes. -/
theorem number_decimal {n : ℕ} (hn : n < 10 ^ 8) : Number (Numeral.decimal n) n := by
  rw [decimal_natCast]
  exact ⟨Nat.toDigits_ne_nil, Numeral.all_toDigits n,
    (Nat.length_toDigits_le_iff (by decide) (by decide)).mpr hn, Nat.ofDigitChars_ten_toDigits⟩

/-! ## Reading a well-formed header -/

theorem toNat_of_isDigit {c : Char} (h : c.isDigit = true) : 48 ≤ c.toNat ∧ c.toNat ≤ 57 := by
  unfold Char.isDigit at h
  rw [Bool.and_eq_true, decide_eq_true_eq, decide_eq_true_eq] at h
  exact h

theorem not_isBlank_digit {c : Char} (h : c.isDigit = true) :
    isBlank (UInt8.ofNat c.toNat) = false := by
  obtain ⟨hlow, hhigh⟩ := toNat_of_isDigit h
  have hne : ∀ x : UInt8, x.toNat < 48 → UInt8.ofNat c.toNat ≠ x := by
    rintro x hx rfl
    rw [UInt8.toNat_ofNat'] at hx
    omega
  unfold isBlank
  simp only [hne 32 (by decide), hne 10 (by decide), hne 13 (by decide), hne 9 (by decide),
    decide_false, Bool.or_false]

theorem map_ofByte_bytes {text : List Char} (h : text.all Char.isDigit = true) :
    (bytes text).map ofByte = text := by
  unfold bytes
  rw [List.map_map]
  refine (List.map_congr_left fun c hc => ?_).trans (List.map_id text)
  have hdigit := toNat_of_isDigit (List.all_eq_true.mp h c hc)
  exact ofByte_toNat (by omega)

theorem get_next_non_space_blanks {blanks : List UInt8} (hblanks : Blanks blanks) {x : UInt8}
    (hx : isBlank x = false) (buffer : UInt8) (rest : List UInt8) :
    get_next_non_space buffer (blanks ++ x :: rest) = some (x, rest) := by
  induction blanks generalizing buffer with
  | nil =>
      show get_next_non_space buffer (x :: rest) = _
      rw [get_next_non_space, hx, if_neg Bool.false_ne_true]
  | cons b blanks ih =>
      have hb : isBlank b = true := hblanks b List.mem_cons_self
      show get_next_non_space buffer (b :: (blanks ++ x :: rest)) = _
      rw [get_next_non_space, if_pos hb, ih fun y hy => hblanks y (List.mem_cons_of_mem b hy)]

/-- The bytes of a number are read with the blank after it. -/
theorem read_number_digits {text : List UInt8} (htext : ∀ x ∈ text, isBlank x = false)
    {b : UInt8} (hb : isBlank b = true) {x : UInt8} (hx : isBlank x = false) {room : ℕ}
    (hroom : text.length + 2 ≤ room) (rest : List UInt8) :
    read_number room x (text ++ b :: rest) = some (text ++ [b], rest) := by
  obtain ⟨room, rfl⟩ : ∃ r, room = r + 1 := ⟨room - 1, by omega⟩
  induction text generalizing x room with
  | nil =>
      obtain ⟨room, rfl⟩ : ∃ r, room = r + 1 := ⟨room - 1, by simp at hroom; omega⟩
      rw [read_number, hx, if_neg Bool.false_ne_true]
      show (read_number (room + 1) b rest).map _ = _
      rw [read_number, if_pos hb]
      rfl
  | cons y text ih =>
      have hy : isBlank y = false := htext y List.mem_cons_self
      have hrest : ∀ z ∈ text, isBlank z = false := fun z hz => htext z (List.mem_cons_of_mem y hz)
      rw [List.length_cons] at hroom
      obtain ⟨room, rfl⟩ : ∃ r, room = r + 1 := ⟨room - 1, by omega⟩
      rw [read_number, hx, if_neg Bool.false_ne_true]
      show (read_number (room + 1) y (text ++ b :: rest)).map _ = _
      rw [ih hrest hy room (by omega)]
      rfl

theorem isDigit_ofByte_blank {b : UInt8} (hb : isBlank b = true) : (ofByte b).isDigit = false := by
  unfold isBlank at hb
  simp only [Bool.or_eq_true, decide_eq_true_eq] at hb
  rcases hb with ((rfl | rfl) | rfl) | rfl
  · rfl
  · rfl
  · rfl
  · rfl

/-- Digits are read up to what is no digit. -/
theorem atoi_digits {text : List Char} (hne : text ≠ []) (hdigits : text.all Char.isDigit = true)
    {rest : List UInt8} (hrest : (rest.map ofByte).takeWhile Char.isDigit = []) :
    atoi (bytes text ++ rest) = int (Nat.ofDigitChars 10 text 0 : ℕ) := by
  obtain ⟨d, ds, rfl⟩ := List.exists_cons_of_ne_nil hne
  have hd : d.isDigit = true := List.all_eq_true.mp hdigits d List.mem_cons_self
  have hbound := toNat_of_isDigit hd
  have hspace : isspace d = false := by
    unfold isspace
    rw [Bool.or_eq_false_iff, decide_eq_false_iff_not, decide_eq_false_iff_not]
    refine ⟨?_, by omega⟩
    rintro rfl
    exact absurd hd (by decide)
  have htake : (d :: (ds ++ rest.map ofByte)).takeWhile Char.isDigit = d :: ds := by
    rw [← List.cons_append, List.takeWhile_append_of_pos (List.all_eq_true.mp hdigits), hrest,
      List.append_nil]
  unfold atoi
  rw [List.map_append, map_ofByte_bytes hdigits, List.cons_append,
    List.dropWhile_cons_of_neg (by rw [hspace]; exact Bool.false_ne_true)]
  split
  · rename_i heq
    obtain ⟨rfl, -⟩ := List.cons.inj heq
    exact absurd hd (by decide)
  · rename_i heq
    obtain ⟨rfl, -⟩ := List.cons.inj heq
    exact absurd hd (by decide)
  · rw [htake]

theorem atoi_number {text : List Char} {n : ℕ} (h : Number text n) {b : UInt8}
    (hb : isBlank b = true) : atoi (bytes text ++ [b]) = some (n : ℤ) := by
  have hrest : ([b].map ofByte).takeWhile Char.isDigit = [] :=
    List.takeWhile_cons_of_neg (by rw [isDigit_ofByte_blank hb]; exact Bool.false_ne_true)
  have hlt := h.lt
  rw [atoi_digits h.nonempty h.digits hrest, h.value, int_natCast (by omega)]

/-- `atoi` of an argument. -/
theorem atoi_print_eq (n : ℕ) : atoi (print n) = int n := by
  unfold print
  rw [← List.append_nil (bytes _), decimal_natCast, atoi_digits Nat.toDigits_ne_nil
    (Numeral.all_toDigits n) rfl, Nat.ofDigitChars_ten_toDigits]

theorem atoi_print {n : ℕ} (hn : n < 2 ^ 31) : atoi (print n) = some (n : ℤ) := by
  rw [atoi_print_eq, int_natCast hn]

theorem nextNumber_number {blanks : List UInt8} (hblanks : Blanks blanks) {text : List Char}
    {n : ℕ} (h : Number text n) {b : UInt8} (hb : isBlank b = true) (x : UInt8)
    (rest : List UInt8) :
    ∃ y, nextNumber x (blanks ++ (bytes text ++ b :: rest)) = some ((n : ℤ), y, rest) := by
  obtain ⟨d, ds, rfl⟩ := List.exists_cons_of_ne_nil h.nonempty
  have hdigit : ∀ c ∈ d :: ds, isBlank (UInt8.ofNat c.toNat) = false :=
    fun c hc => not_isBlank_digit (List.all_eq_true.mp h.digits c hc)
  have hd := hdigit d List.mem_cons_self
  have hds : ∀ y ∈ bytes ds, isBlank y = false := by
    intro y hy
    obtain ⟨c, hc, rfl⟩ := List.mem_map.mp hy
    exact hdigit c (List.mem_cons_of_mem d hc)
  have hshort : (bytes ds).length + 2 ≤ 9 := by
    have hlen := h.short
    rw [List.length_cons] at hlen
    rw [bytes, List.length_map]
    omega
  have hread := read_number_digits hds hb hd hshort rest
  have hatoi := atoi_number h hb
  refine ⟨UInt8.ofNat d.toNat, ?_⟩
  unfold nextNumber
  have hnext : get_next_non_space x (blanks ++ (bytes (d :: ds) ++ b :: rest)) =
      some (UInt8.ofNat d.toNat, bytes ds ++ b :: rest) :=
    get_next_non_space_blanks hblanks hd x _
  have hatoi' : atoi (UInt8.ofNat d.toNat :: (bytes ds ++ [b])) = some (n : ℤ) := hatoi
  simp only [hnext, hread, hatoi', Option.bind_eq_bind, Option.bind_some]

/-- A run of blanks that follows a number loses its first to the number. -/
theorem exists_blank {blanks : List UInt8} (h : Blanks blanks ∧ blanks ≠ []) :
    ∃ b rest, blanks = b :: rest ∧ isBlank b = true ∧ Blanks rest := by
  obtain ⟨hblanks, hne⟩ := h
  obtain ⟨b, rest, rfl⟩ := List.exists_cons_of_ne_nil hne
  exact ⟨b, rest, rfl, hblanks b List.mem_cons_self,
    fun y hy => hblanks y (List.mem_cons_of_mem b hy)⟩

/-- **A well-formed header is read, up to the first byte after it.** -/
theorem readHeader_of_hasHeader {file rest : List UInt8} {width height max_grey : ℕ}
    (h : HasHeader file width height max_grey rest) (wrongFormat : String) :
    readHeader wrongFormat file =
      pure ({ width := width, height := height, max_grey := max_grey }, rest) := by
  obtain ⟨b₁, b₂, b₃, b, w, ht, m, rfl, h₁, h₂, h₃, h₄, hw, hh, hm⟩ := h
  obtain ⟨c₂, r₂, rfl, hc₂, hr₂⟩ := exists_blank h₂
  obtain ⟨c₃, r₃, rfl, hc₃, hr₃⟩ := exists_blank h₃
  obtain ⟨c, rfl⟩ := List.length_eq_one_iff.mp h₄.2
  have hc : isBlank c = true := h₄.1 c List.mem_cons_self
  obtain ⟨y₁, hfirst⟩ := nextNumber_number h₁.1 hw hc₂ 32
    (r₂ ++ (bytes ht ++ c₃ :: (r₃ ++ (bytes m ++ c :: rest))))
  obtain ⟨y₂, hsecond⟩ := nextNumber_number hr₂ hh hc₃ y₁ (r₃ ++ (bytes m ++ c :: rest))
  obtain ⟨y₃, hthird⟩ := nextNumber_number hr₃ hm hc y₂ rest
  have hnumbers : readNumbers (b₁ ++ (bytes w ++ c₂ :: (r₂ ++ (bytes ht ++ c₃ ::
      (r₃ ++ (bytes m ++ c :: rest)))))) =
      some ({ width := width, height := height, max_grey := max_grey }, rest) := by
    unfold readNumbers
    simp only [hfirst, hsecond, hthird, Option.bind_eq_bind, Option.bind_some]
  simp only [List.append_assoc, List.cons_append, List.nil_append]
  show (if (80 : UInt8) ≠ 80 ∨ (53 : UInt8) ≠ 53 then throw wrongFormat
    else liftM (readNumbers _)) = _
  rw [if_neg (by decide), hnumbers]
  rfl

theorem readHeader_of_encodes {file : List UInt8} {im : Image} (h : Encodes file im)
    (wrongFormat : String) :
    readHeader wrongFormat file =
      pure ({ width := im.width, height := im.height, max_grey := im.max_grey }, im.raster) :=
  readHeader_of_hasHeader (hasHeader_of_encodes h) wrongFormat

/-! ## Writing -/

/-- The file that the programs write of an image. -/
def Image.encode (im : Image) : List UInt8 :=
  printHeader { width := im.width, height := im.height, max_grey := im.max_grey } ++ im.raster

/-- The file of an image under another `max_grey`. -/
def Image.encodeAs (im : Image) (max_grey : ℕ) : List UInt8 :=
  printHeader { width := im.width, height := im.height, max_grey := max_grey } ++ im.raster

/-- What `printHeader` writes is read again. -/
theorem hasHeader_printHeader {width height max_grey : ℕ} (hw : width < 10 ^ 8)
    (hh : height < 10 ^ 8) (hm : max_grey < 10 ^ 8) (rest : List UInt8) :
    HasHeader (printHeader { width := width, height := height, max_grey := max_grey } ++ rest)
      width height max_grey rest := by
  have hblank : ∀ {x : UInt8}, isBlank x = true → Blanks [x] := by
    intro x hx y hy
    rwa [List.mem_singleton.mp hy]
  refine ⟨[32], [32], [32], [10], _, _, _, ?_, ⟨hblank rfl, List.cons_ne_nil _ _⟩,
    ⟨hblank rfl, List.cons_ne_nil _ _⟩, ⟨hblank rfl, List.cons_ne_nil _ _⟩, ⟨hblank rfl, rfl⟩,
    number_decimal hw, number_decimal hh, number_decimal hm⟩
  rfl

theorem encodes_encode {im : Image} (hw : im.width < 10 ^ 8) (hh : im.height < 10 ^ 8) :
    Encodes im.encode im :=
  hasHeader_printHeader hw hh (im.depth.trans_lt (by decide)) im.raster

theorem HasHeader.lt {file rest : List UInt8} {width height max_grey : ℕ}
    (h : HasHeader file width height max_grey rest) :
    width < 10 ^ 8 ∧ height < 10 ^ 8 ∧ max_grey < 10 ^ 8 := by
  obtain ⟨-, -, -, -, w, ht, m, -, -, -, -, -, hw, hh, hm⟩ := h
  exact ⟨hw.lt, hh.lt, hm.lt⟩

theorem lt_of_encodes {file : List UInt8} {im : Image} (h : Encodes file im) :
    im.width < 10 ^ 8 ∧ im.height < 10 ^ 8 :=
  ⟨(hasHeader_of_encodes h).lt.1, (hasHeader_of_encodes h).lt.2.1⟩

/-- `content`, where the size is an `int`. -/
theorem readContent_eq {width height : ℕ} (h : width * height < 2 ^ 31) (rest : List UInt8) :
    readContent width height rest = some (rest.take (width * height)) := by
  unfold readContent
  rw [mul_natCast h]
  show (if ((width * height : ℕ) : ℤ) < 0 then none
    else some (rest.take ((width * height : ℕ) : ℤ).toNat)) = _
  rw [if_neg (by omega), Int.toNat_natCast]

theorem readContent_raster (im : Image) (h : im.width * im.height < 2 ^ 31) :
    readContent im.width im.height im.raster = some im.raster := by
  rw [readContent_eq h, ← im.size, List.take_length]

theorem get_pixel {im : Image} {x y : ℕ} (hx : x < im.width) (hy : y < im.height) :
    get im.raster ((x + y * im.width : ℕ) : ℤ) = some (im.pixel x y) := by
  have hplace : x + y * im.width < im.raster.length := by
    rw [im.size]
    exact Tiling.place_lt hx hy
  unfold get Image.pixel
  rw [if_neg (by omega), Int.toNat_natCast, List.getD_eq_getElem?_getD,
    List.getElem?_eq_getElem hplace]
  rfl

end Pepal.Pgm

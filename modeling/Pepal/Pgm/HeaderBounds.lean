import Pepal.Lib.Loop
import Pepal.Pgm.Header

/-!
# The bounds of the header reader

`get_next_non_space` and `read_number` as the loops that they are in the source:
both test the last byte read and never the state of the stream, and at the end
of the file `read` leaves the byte as it is. Every state of the second loop
writes a byte at its `counter`, the closing zero the last, and the arrays have
10 bytes. The calls end within the arrays exactly for the files that have three
tokens of at most 8 bytes, each with a blank after it.
-/

namespace Pepal.Pgm

open StateTransition
open Json (ofByte)

/-- The byte that the loops test, and the rest of the file. -/
structure Stream where
  x : UInt8
  orig : List UInt8

/-- `orig->read(buffer, 1)` -/
def Stream.read (s : Stream) : Stream := ⟨s.orig.headD s.x, s.orig.tail⟩

/-- A round of `get_next_non_space`. -/
def skipRound (s : Stream) : Option Stream := if isBlank s.x then some s.read else none

structure Numbering extends Stream where
  counter : ℕ

/-- A round of `read_number`. -/
def numberRound (s : Numbering) : Option Numbering :=
  if isBlank s.x then none else some ⟨s.toStream.read, s.counter + 1⟩

def InBuffer (s : Numbering) : Prop := ∀ t, Reaches numberRound s t → t.counter < 10

/-- The calls for `n` numbers end, within the arrays. -/
def Safe : (n : ℕ) → Stream → Prop
  | 0, _ => True
  | n + 1, s =>
      ∃ first ∈ eval skipRound s.read, InBuffer ⟨first, 1⟩ ∧
        ∃ last ∈ eval numberRound ⟨first, 1⟩, Safe n ⟨first.x, last.orig⟩

/-- The header of a file, with what the cells of `ident` hold before they are
read. -/
def HeaderSafe (ident : UInt8 × UInt8) (file : List UInt8) : Prop :=
  file.headD ident.1 = 80 → file.tail.headD ident.2 = 53 → Safe 3 ⟨32, file.drop 2⟩

/-! ## The loops and the functions -/

theorem eq_mk_iff {s : Stream} {x : UInt8} {orig : List UInt8} :
    s = ⟨x, orig⟩ ↔ some (x, orig) = some (s.x, s.orig) := by
  rcases s with ⟨y, rest⟩
  simp only [Stream.mk.injEq, Option.some.injEq, Prod.mk.injEq, eq_comm]

theorem skip_ends_iff {s t : Stream} :
    t ∈ eval skipRound s.read ↔ get_next_non_space s.x s.orig = some (t.x, t.orig) := by
  rcases s with ⟨x, orig⟩
  induction orig generalizing x with
  | nil =>
      show t ∈ eval skipRound ⟨x, []⟩ ↔ (if isBlank x then none else some (x, [])) = _
      by_cases hx : isBlank x = true
      · -- the blank stays in the buffer
        have hstays : skipRound ⟨x, []⟩ = some ⟨x, []⟩ := if_pos hx
        have hendless : t ∉ eval skipRound ⟨x, []⟩ := by
          refine Loop.endless (I := fun s => s = ⟨x, []⟩) ?_ rfl t
          rintro s rfl
          exact ⟨_, hstays, rfl⟩
        rw [if_pos hx]
        constructor
        · intro hend
          exact absurd hend hendless
        · rintro ⟨⟩
      · have hdone : skipRound ⟨x, []⟩ = none := if_neg hx
        rw [if_neg hx, Loop.mem_eval_iff_of_done hdone, eq_mk_iff]
  | cons y orig ih =>
      show t ∈ eval skipRound ⟨y, orig⟩ ↔ (if isBlank y then get_next_non_space y orig
        else some (y, orig)) = _
      by_cases hy : isBlank y = true
      · have hround : skipRound ⟨y, orig⟩ = some (Stream.read ⟨y, orig⟩) := if_pos hy
        rw [if_pos hy, Loop.eval_of_round hround, ih y]
      · have hdone : skipRound ⟨y, orig⟩ = none := if_neg hy
        rw [if_neg hy, Loop.mem_eval_iff_of_done hdone, eq_mk_iff]

/-- `read_number` has a result where its loop ends in the room that the array
has left. -/
theorem number_ends_iff {s : Numbering} {room : ℕ} (hroom : s.counter + room = 10)
    {rest : List UInt8} :
    (∃ num, read_number room s.x s.orig = some (num, rest)) ↔
      InBuffer s ∧ ∃ last ∈ eval numberRound s, last.orig = rest := by
  induction room generalizing s with
  | zero =>
      constructor
      · rintro ⟨num, ⟨⟩⟩
      · rintro ⟨hin, -⟩
        have hcounter := hin s .refl
        omega
  | succ room ih =>
      unfold InBuffer
      by_cases hx : isBlank s.x = true
      · have hdone : numberRound s = none := if_pos hx
        rw [read_number, if_pos hx, Loop.forall_reaches_of_done hdone]
        constructor
        · rintro ⟨num, ⟨⟩⟩
          exact ⟨by omega, s, Loop.mem_eval_of_done hdone, rfl⟩
        · rintro ⟨-, last, hlast, rfl⟩
          rw [Loop.mem_eval_iff_of_done hdone] at hlast
          exact ⟨[], by rw [hlast]⟩
      · have hround : numberRound s = some ⟨s.toStream.read, s.counter + 1⟩ := if_neg hx
        rw [read_number, if_neg hx, Loop.forall_reaches_of_round hround,
          Loop.eval_of_round hround, and_assoc]
        have hcounter : s.counter + 1 + room = 10 := by omega
        have hnext := ih (s := ⟨s.toStream.read, s.counter + 1⟩) hcounter
        constructor
        · rintro ⟨num, hnum⟩
          obtain ⟨⟨num', rest'⟩, hread, ⟨⟩⟩ := Option.map_eq_some_iff.mp hnum
          exact ⟨by omega, hnext.mp ⟨num', hread⟩⟩
        · rintro ⟨-, hends⟩
          obtain ⟨num, hread⟩ := hnext.mpr hends
          exact ⟨_, Option.map_eq_some_iff.mpr ⟨_, hread, rfl⟩⟩

/-- The first byte of the array is written before the call. -/
theorem read_number_ends_iff (first : Stream) {rest : List UInt8} :
    (∃ num, read_number 9 first.x first.orig = some (num, rest)) ↔
      InBuffer ⟨first, 1⟩ ∧ ∃ last ∈ eval numberRound ⟨first, 1⟩, last.orig = rest := by
  have hroom : (⟨first, 1⟩ : Numbering).counter + 9 = 10 := rfl
  exact number_ends_iff hroom

theorem safe_succ_iff {n : ℕ} {s : Stream} :
    Safe (n + 1) s ↔ ∃ x orig num rest, get_next_non_space s.x s.orig = some (x, orig) ∧
      read_number 9 x orig = some (num, rest) ∧ Safe n ⟨x, rest⟩ := by
  constructor
  · rintro ⟨first, hfirst, hin, last, hlast, hsafe⟩
    obtain ⟨num, hnum⟩ := (read_number_ends_iff first).mpr ⟨hin, last, hlast, rfl⟩
    exact ⟨first.x, first.orig, num, last.orig, skip_ends_iff.mp hfirst, hnum, hsafe⟩
  · rintro ⟨x, orig, num, rest, hfirst, hnum, hsafe⟩
    have hfirst' : (⟨x, orig⟩ : Stream) ∈ eval skipRound s.read := skip_ends_iff.mpr hfirst
    obtain ⟨hin, last, hlast, rfl⟩ := (read_number_ends_iff ⟨x, orig⟩).mp ⟨num, hnum⟩
    exact ⟨⟨x, orig⟩, hfirst', hin, last, hlast, hsafe⟩

/-! ## Which files are read -/

/-- What fits into an array, with the blank after it and the closing zero. -/
structure Token (text : List UInt8) : Prop where
  nonempty : text ≠ []
  short : text.length ≤ 8
  nonblank : ∀ x ∈ text, isBlank x = false

/-- `n` tokens with blanks before them, and one blank after each. -/
def Headed : (n : ℕ) → List UInt8 → Prop
  | 0, _ => True
  | n + 1, orig => ∃ blanks text b rest, orig = blanks ++ (text ++ b :: rest) ∧ Blanks blanks ∧
      Token text ∧ isBlank b = true ∧ Headed n rest

theorem get_next_non_space_eq_some {x y : UInt8} {orig rest : List UInt8}
    (h : get_next_non_space x orig = some (y, rest)) :
    isBlank y = false ∧
      (rest = [] ∨ ∃ blanks, orig = blanks ++ y :: rest ∧ Blanks blanks) := by
  induction orig generalizing x with
  | nil =>
      rw [get_next_non_space] at h
      by_cases hx : isBlank x = true
      · rw [if_pos hx] at h
        cases h
      · rw [if_neg hx] at h
        cases h
        exact ⟨Bool.eq_false_of_not_eq_true hx, .inl rfl⟩
  | cons z orig ih =>
      rw [get_next_non_space] at h
      by_cases hz : isBlank z = true
      · rw [if_pos hz] at h
        rcases ih h with ⟨hy, hend | ⟨blanks, rfl, hblanks⟩⟩
        · exact ⟨hy, .inl hend⟩
        · exact ⟨hy, .inr ⟨z :: blanks, rfl, List.forall_mem_cons.mpr ⟨hz, hblanks⟩⟩⟩
      · rw [if_neg hz] at h
        cases h
        refine ⟨Bool.eq_false_of_not_eq_true hz, .inr ⟨[], rfl, ?_⟩⟩
        rintro b ⟨⟩

theorem read_number_eq_some {room : ℕ} {x : UInt8} {orig num rest : List UInt8}
    (hx : isBlank x = false) (h : read_number room x orig = some (num, rest)) :
    ∃ text b, orig = text ++ b :: rest ∧ (∀ y ∈ text, isBlank y = false) ∧ isBlank b = true ∧
      text.length + 2 ≤ room := by
  induction room generalizing x orig num with
  | zero => cases h
  | succ room ih =>
      rw [read_number, hx, if_neg Bool.false_ne_true] at h
      obtain ⟨⟨num', rest'⟩, hread, ⟨⟩⟩ := Option.map_eq_some_iff.mp h
      rcases orig with _ | ⟨y, orig⟩
      · -- at the end of the file the byte is read again and again
        obtain ⟨text, b, hempty, -⟩ := ih hx hread
        cases (List.append_ne_nil_of_right_ne_nil text (List.cons_ne_nil b rest)) hempty.symm
      · by_cases hy : isBlank y = true
        · rcases room with _ | room
          · cases hread
          · rw [List.headD_cons, List.tail_cons, read_number, if_pos hy] at hread
            cases hread
            refine ⟨[], y, rfl, ?_, hy, by simp⟩
            rintro z ⟨⟩
        · have hy' := Bool.eq_false_of_not_eq_true hy
          obtain ⟨text, b, rfl, htext, hb, hlength⟩ := ih hy' hread
          refine ⟨y :: text, b, rfl, List.forall_mem_cons.mpr ⟨hy', htext⟩, hb, ?_⟩
          rw [List.length_cons]
          omega

/-- A call of each function ends within the array where the file goes on with a
token. -/
theorem safe_succ_iff_token {n : ℕ} {s : Stream} :
    Safe (n + 1) s ↔ ∃ blanks y text b rest, s.orig = blanks ++ y :: (text ++ b :: rest) ∧
      Blanks blanks ∧ Token (y :: text) ∧ isBlank b = true ∧ Safe n ⟨y, rest⟩ := by
  rw [safe_succ_iff]
  constructor
  · rintro ⟨x, orig, num, rest, hfirst, hnum, hsafe⟩
    obtain ⟨hx, hplace⟩ := get_next_non_space_eq_some hfirst
    obtain ⟨text, b, rfl, htext, hb, hlength⟩ := read_number_eq_some hx hnum
    rcases hplace with hempty | ⟨blanks, horig, hblanks⟩
    · cases (List.append_ne_nil_of_right_ne_nil text (List.cons_ne_nil b rest)) hempty
    · refine ⟨blanks, x, text, b, rest, horig, hblanks, ?_, hb, hsafe⟩
      refine ⟨List.cons_ne_nil x text, ?_, List.forall_mem_cons.mpr ⟨hx, htext⟩⟩
      rw [List.length_cons]
      omega
  · rintro ⟨blanks, y, text, b, rest, horig, hblanks, htoken, hb, hsafe⟩
    obtain ⟨hy, htext⟩ := List.forall_mem_cons.mp htoken.nonblank
    have hlength := htoken.short
    rw [List.length_cons] at hlength
    refine ⟨y, text ++ b :: rest, text ++ [b], rest, ?_, ?_, hsafe⟩
    · rw [horig]
      exact get_next_non_space_blanks hblanks hy s.x _
    · exact read_number_digits htext hb hy (by omega) rest

theorem safe_iff_headed {n : ℕ} {s : Stream} : Safe n s ↔ Headed n s.orig := by
  induction n generalizing s with
  | zero => exact Iff.rfl
  | succ n ih =>
      rw [safe_succ_iff_token]
      constructor
      · rintro ⟨blanks, y, text, b, rest, horig, hblanks, htoken, hb, hsafe⟩
        exact ⟨blanks, y :: text, b, rest, horig, hblanks, htoken, hb, ih.mp hsafe⟩
      · rintro ⟨blanks, text, b, rest, horig, hblanks, htoken, hb, hheaded⟩
        obtain ⟨y, text, rfl⟩ := List.exists_cons_of_ne_nil htoken.nonempty
        exact ⟨blanks, y, text, b, rest, horig, hblanks, htoken, hb, ih.mpr hheaded⟩

/-- **The header reader ends within its arrays for the files with three tokens
that fit, and for what is no PGM file.** -/
theorem headerSafe_iff (ident : UInt8 × UInt8) (file : List UInt8) :
    HeaderSafe ident file ↔
      (file.headD ident.1 = 80 → file.tail.headD ident.2 = 53 → Headed 3 (file.drop 2)) := by
  unfold HeaderSafe
  rw [safe_iff_headed]

/-- `P5` and a blank, where the first call does not end, and a width of 9 digits,
whose closing zero has no place. -/
theorem header_endless_and_overrun :
    ¬ HeaderSafe (0, 0) [80, 53, 32] ∧
      ¬ HeaderSafe (0, 0) (bytes "P5 123456789 1 255\n".toList) := by
  constructor
  · intro hsafe
    obtain ⟨x, orig, num, rest, hfirst, -, -⟩ := safe_succ_iff.mp (hsafe rfl rfl)
    have hnone : get_next_non_space 32 [32] = none := by decide
    cases hnone.symm.trans hfirst
  · intro hsafe
    obtain ⟨x, orig, num, rest, hfirst, hnum, -⟩ := safe_succ_iff.mp (hsafe rfl rfl)
    have hsome : get_next_non_space 32 (bytes " 123456789 1 255\n".toList) =
        some (49, bytes "23456789 1 255\n".toList) := by decide
    obtain ⟨rfl, rfl⟩ := Prod.mk.inj (Option.some.inj (hsome.symm.trans hfirst))
    have hnone : read_number 9 49 (bytes "23456789 1 255\n".toList) = none := by decide
    cases hnone.symm.trans hnum

/-! ## The functions of the model -/

theorem safe_of_nextNumber {x y : UInt8} {orig rest : List UInt8} {m : ℤ} {n : ℕ}
    (h : nextNumber x orig = some (m, y, rest)) (hsafe : Safe n ⟨y, rest⟩) :
    Safe (n + 1) ⟨x, orig⟩ := by
  obtain ⟨⟨z, orig'⟩, hfirst, h⟩ := Option.bind_eq_some_iff.mp h
  obtain ⟨⟨num, rest'⟩, hnum, h⟩ := Option.bind_eq_some_iff.mp h
  obtain ⟨m', -, ⟨⟩⟩ := Option.bind_eq_some_iff.mp h
  exact safe_succ_iff.mpr ⟨y, orig', num, rest, hfirst, hnum, hsafe⟩

/-- Where `readNumbers` has a result, all loops have ended within the arrays. -/
theorem safe_of_readNumbers {orig rest : List UInt8} {h : Header}
    (hread : readNumbers orig = some (h, rest)) : Safe 3 ⟨32, orig⟩ := by
  obtain ⟨⟨width, x, orig₁⟩, hwidth, hread⟩ := Option.bind_eq_some_iff.mp hread
  obtain ⟨⟨height, y, orig₂⟩, hheight, hread⟩ := Option.bind_eq_some_iff.mp hread
  obtain ⟨⟨max_grey, z, orig₃⟩, hmax, -⟩ := Option.bind_eq_some_iff.mp hread
  exact safe_of_nextNumber hwidth (safe_of_nextNumber hheight (safe_of_nextNumber hmax trivial))

theorem readNumbers_of_readHeader {wrongFormat : String} {file rest : List UInt8} {h : Header}
    (hread : readHeader wrongFormat file = pure (h, rest)) :
    readNumbers (file.drop 2) = some (h, rest) := by
  rcases file with _ | ⟨i, _ | ⟨j, orig⟩⟩
  · cases hread
  · rw [readHeader] at hread
    split at hread
    · cases hread
    · cases hread
  · rw [readHeader] at hread
    split at hread
    · cases hread
    · rcases hnumbers : readNumbers orig with _ | ⟨h', rest'⟩
      · rw [hnumbers] at hread
        cases hread
      · rw [hnumbers] at hread
        cases hread
        exact hnumbers

/-- **A header that the model reads is read within the arrays.** -/
theorem headerSafe_of_readHeader {wrongFormat : String} {file rest : List UInt8} {h : Header}
    (hread : readHeader wrongFormat file = pure (h, rest)) (ident : UInt8 × UInt8) :
    HeaderSafe ident file := by
  intro _ _
  exact safe_of_readNumbers (readNumbers_of_readHeader hread)

/-! ## How large the numbers are -/

/-- The digits that `atoi` finds are among those of the text. -/
theorem length_takeWhile_le_countP {α : Type} {p : α → Bool} {l m : List α} (h : l.Sublist m) :
    (l.takeWhile p).length ≤ m.countP p := by
  have hall : (l.takeWhile p).countP p = (l.takeWhile p).length :=
    List.countP_eq_length.mpr fun _ => List.mem_takeWhile_imp
  rw [← hall]
  exact ((l.takeWhile_sublist p).trans h).countP_le

theorem ofDigitChars_takeWhile_lt {l m : List Char} (h : l.Sublist m) :
    Nat.ofDigitChars 10 (l.takeWhile Char.isDigit) 0 < 10 ^ m.countP Char.isDigit := by
  have hdigits : (l.takeWhile Char.isDigit).all Char.isDigit = true :=
    List.all_eq_true.mpr fun _ => List.mem_takeWhile_imp
  have hlt := Numeral.ofDigitChars_lt hdigits 0
  rw [Nat.zero_add, Nat.one_mul] at hlt
  exact hlt.trans_le (Nat.pow_le_pow_right (by decide) (length_takeWhile_le_countP h))

/-- The value is bounded by the number of digits of the text. -/
theorem atoi_lt {text : List UInt8} {n : ℤ} (h : atoi text = some n) :
    n < (10 ^ (text.map ofByte).countP Char.isDigit : ℕ) := by
  have hdrop := (text.map ofByte).dropWhile_sublist isspace
  unfold atoi at h
  split at h
  · rw [int_eq_some h]
    have hpos := Nat.pow_pos (n := (text.map ofByte).countP Char.isDigit) (show 0 < 10 by decide)
    omega
  · rename_i rest heq
    rw [int_eq_some h, Nat.cast_lt]
    refine ofDigitChars_takeWhile_lt (List.Sublist.trans ?_ hdrop)
    rw [heq]
    exact List.sublist_cons_self _ _
  · rw [int_eq_some h, Nat.cast_lt]
    exact ofDigitChars_takeWhile_lt hdrop

theorem nextNumber_lt {x y : UInt8} {orig rest : List UInt8} {n : ℤ}
    (h : nextNumber x orig = some (n, y, rest)) : n < 10 ^ 8 := by
  obtain ⟨⟨z, orig'⟩, hfirst, h⟩ := Option.bind_eq_some_iff.mp h
  obtain ⟨⟨num, rest'⟩, hnum, h⟩ := Option.bind_eq_some_iff.mp h
  obtain ⟨m, hatoi, ⟨⟩⟩ := Option.bind_eq_some_iff.mp h
  obtain ⟨hy, -⟩ := get_next_non_space_eq_some hfirst
  obtain ⟨text, b, rfl, htext, hb, hlength⟩ := read_number_eq_some hy hnum
  rw [read_number_digits htext hb hy hlength] at hnum
  obtain ⟨rfl, -⟩ := Prod.mk.inj (Option.some.inj hnum)
  -- the blank is no digit, and at most 8 bytes stand before it
  have hcount : ((y :: (text ++ [b])).map ofByte).countP Char.isDigit ≤ 8 := by
    rw [← List.cons_append, List.map_append, List.countP_append]
    have hblank : ([b].map ofByte).countP Char.isDigit = 0 := by
      rw [List.map_singleton, List.countP_singleton, isDigit_ofByte_blank hb]
      rfl
    have hle := List.countP_le_length (p := Char.isDigit) (l := (y :: text).map ofByte)
    rw [List.length_map, List.length_cons] at hle
    omega
  have hpow : 10 ^ ((y :: (text ++ [b])).map ofByte).countP Char.isDigit ≤ 10 ^ 8 :=
    Nat.pow_le_pow_right (by decide) hcount
  have hlt := atoi_lt hatoi
  omega

/-- **The width and the height that are read have at most 8 digits.** -/
theorem readHeader_lt {wrongFormat : String} {file rest : List UInt8} {h : Header}
    (hread : readHeader wrongFormat file = pure (h, rest)) :
    h.width < 10 ^ 8 ∧ h.height < 10 ^ 8 := by
  have hnumbers := readNumbers_of_readHeader hread
  obtain ⟨⟨width, x, orig₁⟩, hwidth, hnumbers⟩ := Option.bind_eq_some_iff.mp hnumbers
  obtain ⟨⟨height, y, orig₂⟩, hheight, hnumbers⟩ := Option.bind_eq_some_iff.mp hnumbers
  obtain ⟨⟨max_grey, z, orig₃⟩, -, ⟨⟩⟩ := Option.bind_eq_some_iff.mp hnumbers
  exact ⟨nextNumber_lt hwidth, nextNumber_lt hheight⟩

end Pepal.Pgm

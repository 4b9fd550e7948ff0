import Mathlib.Data.List.Basic

/-!
# Bytes read as UTF-8

A reader that meets bytes which are no character puts the replacement character
in the place of the first of them and goes on with the next one. So it makes a
text of any bytes (`decode`), and of those that are the encoding of a text this
text (`decode_encode`). Where it had to put nothing in, the bytes are such an
encoding (`encode_decode_of_not_mem`).
-/

namespace Utf8

/-- `String.utf8EncodeChar` for a text. -/
def encode (text : List Char) : List UInt8 := text.flatMap String.utf8EncodeChar

theorem encode_cons (c : Char) (text : List Char) :
    encode (c :: text) = String.utf8EncodeChar c ++ encode text := rfl

/-- The character that the bytes begin with. -/
def first? (b : List UInt8) : Option Char := b.toByteArray.utf8DecodeChar? 0

theorem first?_append (c : Char) (rest : List UInt8) :
    first? (String.utf8EncodeChar c ++ rest) = some c := by
  unfold first?
  rw [List.toByteArray_append, ByteArray.utf8DecodeChar?_utf8EncodeChar_append]

theorem of_first? {b : List UInt8} {c : Char} (h : first? b = some c) :
    b = String.utf8EncodeChar c ++ b.drop c.utf8Size := by
  obtain ⟨rest, hrest⟩ := ByteArray.exists_of_utf8DecodeChar?_eq_some h
  have hlist : b = String.utf8EncodeChar c ++ rest.data.toList := by
    have hdata := congrArg (fun x : ByteArray => x.data.toList) hrest
    simpa using hdata
  have hlength : (String.utf8EncodeChar c).length = c.utf8Size := String.length_utf8EncodeChar c
  rw [hlist, ← hlength, List.drop_left]

def replacement : Char := '\uFFFD'

def decode (b : List UInt8) : List Char :=
  match b with
  | [] => []
  | x :: rest =>
      match first? (x :: rest) with
      | some c => c :: decode ((x :: rest).drop c.utf8Size)
      | none => replacement :: decode rest
termination_by b.length
decreasing_by
  · have hpos := c.utf8Size_pos
    rw [List.length_drop, List.length_cons]
    omega
  · exact Nat.lt_succ_self _

theorem encode_char_ne_nil (c : Char) (rest : List UInt8) :
    ∃ x xs, String.utf8EncodeChar c ++ rest = x :: xs := by
  apply List.exists_cons_of_ne_nil
  intro hnil
  have hlength := congrArg List.length hnil
  rw [List.length_append, String.length_utf8EncodeChar, List.length_nil] at hlength
  have hpos := c.utf8Size_pos
  omega

theorem decode_append (c : Char) (rest : List UInt8) :
    decode (String.utf8EncodeChar c ++ rest) = c :: decode rest := by
  obtain ⟨x, xs, hcons⟩ := encode_char_ne_nil c rest
  have hfirst := first?_append c rest
  have hdrop : (String.utf8EncodeChar c ++ rest).drop c.utf8Size = rest := by
    rw [← String.length_utf8EncodeChar c, List.drop_left]
  rw [hcons] at hfirst hdrop ⊢
  rw [decode, hfirst]
  dsimp only
  rw [hdrop]

/-- **What was encoded is read back.** -/
theorem decode_encode (text : List Char) : decode (encode text) = text := by
  induction text with
  | nil => rw [encode, List.flatMap_nil, decode]
  | cons c text ih => rw [encode_cons, decode_append, ih]

/-- **Bytes that are read without a replacement are those of the text.** -/
theorem encode_decode_of_not_mem {b : List UInt8} (h : replacement ∉ decode b) :
    encode (decode b) = b := by
  -- along the steps of the decoder
  fun_induction decode b with
  | case1 => rfl
  | case2 x rest c hfirst ih =>
      rw [encode_cons, ih fun hmem => h (List.mem_cons_of_mem c hmem), ← of_first? hfirst]
  | case3 x rest hfirst ih => exact absurd List.mem_cons_self h

/-- The bytes are the encoding of a text. -/
def Valid (b : List UInt8) : Prop := ∃ text, encode text = b

theorem lt_of_mem_encodeChar {c : Char} {x : UInt8} (hx : x ∈ String.utf8EncodeChar c) :
    x.toNat < 248 := by
  unfold String.utf8EncodeChar at hx
  dsimp only at hx
  split_ifs at hx <;>
    simp only [List.mem_cons, List.not_mem_nil, or_false] at hx <;>
    rcases hx with rfl | rfl | rfl | rfl <;>
    simp only [UInt8.toNat_ofNat'] <;>
    omega

/-- Bytes from 248 on come up in no encoding. -/
theorem not_valid_of_mem {b : List UInt8} {x : UInt8} (hx : x ∈ b) (hlarge : 248 ≤ x.toNat) :
    ¬ Valid b := by
  rintro ⟨text, rfl⟩
  obtain ⟨c, -, hc⟩ := List.mem_flatMap.mp hx
  have := lt_of_mem_encodeChar hc
  omega

end Utf8

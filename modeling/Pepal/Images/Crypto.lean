import Pepal.Lib.PrimeGroup
import Pepal.Lib.CounterMode

/-!
# The image program's cryptographic helpers

`crypto.h` and the part of the PBC wrapper (`Zr.cc`, `G.cc`, `G1.cc`) it uses.
PBC's group is a `PrimeOrderGroup`, its scalars are `ZMod r`, and
`element_pow_zn` is `gpow` on the group and `Zr.pow` on the scalars: both
read the exponent as its representative below `r`. The serialisation of group
elements, SHA-256 and the AES block function are parameters (`CryptoLib`);
hexadecimal encoding and counter mode are written out. What the C++ leaves
without a defined result (a read outside a buffer, an exception that nothing
catches) is `none`.
-/

namespace Pepal.Images

open PrimeOrder

abbrev Bytes : Type := List UInt8

abbrev Zr (r : ℕ) : Type := ZMod r

/-- What the program takes from PBC and Crypto++. -/
structure CryptoLib (G : Type*) where
  /-- `element_to_bytes_compressed` -/
  toBytesCompressed : G → Bytes
  /-- `CryptoPP::SHA256` -/
  SHA256 : Bytes → Bytes
  /-- `AES::Encryption` of one block, under a key -/
  AES : Bytes → Bytes → Bytes

/-! ## Scalars -/

/-- `Zr::operator^`: `element_pow_zn` on the scalar ring itself. The exponent
is a scalar too, so it is reduced modulo `r` before it is used. -/
def Zr.pow {r : ℕ} (x e : Zr r) : Zr r := x ^ e.val

/-- `Zr::dump` in base 2: the minimal binary numeral and a newline. -/
def Zr.dump {r : ℕ} (sk : Zr r) : List Char := Nat.toDigits 2 sk.val ++ ['\n']

/-- `pw = 2; pw = pw ^ i`, with `2` and `i` made scalars first. -/
def pow2 (r i : ℕ) : Zr r := Zr.pow (2 : Zr r) (i : Zr r)

theorem pow2_eq (r i : ℕ) : pow2 r i = 2 ^ (i % r) := by
  unfold pow2 Zr.pow
  rw [ZMod.val_natCast]

/-- Below the group order the weight really is the power of two. -/
theorem pow2_of_lt {r i : ℕ} (h : i < r) : pow2 r i = ((2 ^ i : ℕ) : Zr r) := by
  rw [pow2_eq, Nat.mod_eq_of_lt h]
  push_cast
  rfl

/-! ## Sizes and buffers -/

/-- A `size_t` in an `int`: the low 32 bits, with a sign. -/
def intOfSize (len : ℕ) : ℤ := ((len : ℤ) + 2 ^ 31) % 2 ^ 32 - 2 ^ 31

theorem intOfSize_eq_iff {len : ℕ} : intOfSize len = len ↔ len < 2 ^ 31 := by
  unfold intOfSize
  omega

theorem intOfSize_lt (len : ℕ) : intOfSize len < 2 ^ 31 := by
  unfold intOfSize
  omega

/-- The first `count` bytes of a buffer. -/
def readBuffer (buffer : Bytes) (count : ℕ) : Option Bytes :=
  if count ≤ buffer.length then some (buffer.take count) else none

theorem readBuffer_length (buffer : Bytes) : readBuffer buffer buffer.length = some buffer := by
  rw [readBuffer, if_pos le_rfl, List.take_length]

theorem length_of_readBuffer {buffer bytes : Bytes} {count : ℕ}
    (h : readBuffer buffer count = some bytes) : bytes.length = count := by
  unfold readBuffer at h
  split at h
  case isTrue hcount => rw [← Option.some.inj h, List.length_take, min_eq_left hcount]
  case isFalse => cases h

/-- `string plain(plaintext, plaintext + m_len)`, which for an `m_len` below 0
throws. -/
def plain (plaintext : Bytes) (m_len : ℤ) : Option Bytes :=
  if 0 ≤ m_len then readBuffer plaintext m_len.toNat else none

theorem plain_length (plaintext : Bytes) : plain plaintext plaintext.length = some plaintext := by
  rw [plain, if_pos (Int.natCast_nonneg _), Int.toNat_natCast, readBuffer_length]

theorem length_of_plain {plaintext text : Bytes} {m_len : ℤ}
    (h : plain plaintext m_len = some text) : (text.length : ℤ) = m_len := by
  unfold plain at h
  split at h
  case isTrue hnonneg => rw [length_of_readBuffer h, Int.toNat_of_nonneg hnonneg]
  case isFalse => cases h

/-! ## Hashing and encryption -/

def KEYLENGTH : ℕ := 32

/-- `AES::BLOCKSIZE`, which is how much of the iv `SetKeyWithIV` reads. -/
def BLOCKSIZE : ℕ := 16

/-- One letter of `HexEncoder`'s default (upper case) alphabet. -/
def hexDigit (d : ℕ) : UInt8 := if d < 10 then UInt8.ofNat (48 + d) else UInt8.ofNat (55 + d)

def hexEncode (data : Bytes) : Bytes :=
  data.flatMap fun byte => [hexDigit (byte.toNat / 16), hexDigit (byte.toNat % 16)]

variable {G : Type*}

/-- The hexadecimal text of the SHA-256 digest of the compressed element. -/
def sha256_G1 (L : CryptoLib G) (arg : G) : Bytes :=
  hexEncode (L.SHA256 (L.toBytesCompressed arg))

/-- `CTR_Mode<AES>` keyed as both `encrypt_new` and `decrypt_new` key it: the
first `KEYLENGTH` bytes of the key buffer and an all-zero iv. The `iv`
argument of the two functions is overwritten before it is read. -/
def aesCtr (L : CryptoLib G) (key data : Bytes) : Bytes :=
  CounterMode.ctr (L.AES (key.take KEYLENGTH))
    ((List.replicate KEYLENGTH 0).take BLOCKSIZE) data

/-- Encrypts the first `m_len` bytes of the plaintext buffer. -/
def encrypt_new (L : CryptoLib G) (key_ plaintext : Bytes) (m_len : ℤ) : Option Bytes :=
  (plain plaintext m_len).map (aesCtr L key_)

/-- The recovered text, copied to a new buffer of `len` bytes. -/
def decrypt_new (L : CryptoLib G) (key : Bytes) (_iv : ℕ) (ciphertext : Bytes) (len : ℤ) :
    Option Bytes :=
  let recovered := aesCtr L key ciphertext
  if recovered.length ≤ len then some recovered else none

theorem length_aesCtr (L : CryptoLib G) (key data : Bytes) :
    (aesCtr L key data).length = data.length := by
  simp [aesCtr]

/-- Under one key, decrypting what was encrypted into a buffer of its length
gives it back. -/
theorem decrypt_encrypt (L : CryptoLib G) (key text : Bytes) (iv : ℕ) :
    decrypt_new L key iv (aesCtr L key text) text.length = some text := by
  have hrecovered : aesCtr L key (aesCtr L key text) = text := CounterMode.ctr_ctr _ _ _
  unfold decrypt_new
  dsimp only
  rw [hrecovered, if_pos le_rfl]

/-! ## The key as a bit string -/

/-- The loop over the dumped digits: `size` counts the newline, which the loop
leaves out, and a character that is no binary digit would be skipped. -/
def Zr_to_bs {r : ℕ} (sk : Zr r) : List ℕ :=
  let sk_bits := Zr.dump sk
  (List.range (sk_bits.length - 1)).foldl (fun res i =>
    if sk_bits.getD i '\x00' = '0' then res ++ [0]
    else if sk_bits.getD i '\x00' = '1' then res ++ [1]
    else res) []

/-- The `while` loop of `main` that fills the bit string up with leading
zeros. -/
def padBitstring (bitstring : List ℕ) : List ℕ :=
  if bitstring.length < 256 then padBitstring (0 :: bitstring) else bitstring
termination_by 256 - bitstring.length

/-- The number a binary digit character stands for. -/
def bitOf (c : Char) : ℕ := if c = '1' then 1 else 0

theorem bitOf_digitChar {d : ℕ} (hd : d < 2) : bitOf (Nat.digitChar d) = d := by
  rcases Numeral.binary_digitChar hd with ⟨hc, rfl⟩ | ⟨hc, rfl⟩ <;> rw [hc] <;> rfl

/-- The digit loop is the digit-wise reading of the numeral. -/
theorem Zr_to_bs_eq {r : ℕ} (sk : Zr r) :
    Zr_to_bs sk = (Nat.toDigits 2 sk.val).map bitOf := by
  have key : ∀ k, k ≤ (Nat.toDigits 2 sk.val).length →
      (List.range k).foldl (fun res i =>
        if (Zr.dump sk).getD i '\x00' = '0' then res ++ [0]
        else if (Zr.dump sk).getD i '\x00' = '1' then res ++ [1]
        else res) [] = ((Nat.toDigits 2 sk.val).take k).map bitOf := by
    intro k
    induction k with
    | zero => simp
    | succ k ih =>
        intro hk
        have hlt : k < (Nat.toDigits 2 sk.val).length := hk
        have hget : (Zr.dump sk).getD k '\x00' = (Nat.toDigits 2 sk.val)[k] := by
          simp [Zr.dump, List.getD, List.getElem?_append_left hlt, hlt]
        rw [List.range_succ, List.foldl_append, ih (by omega)]
        simp only [List.foldl_cons, List.foldl_nil, hget]
        rw [List.take_succ_eq_append_getElem hlt, List.map_append]
        rcases Numeral.toDigits_two_binary sk.val _ (List.getElem_mem hlt) with h | h <;>
          rw [h] <;> rfl
  have hsize : (Zr.dump sk).length - 1 = (Nat.toDigits 2 sk.val).length := by
    simp [Zr.dump]
  unfold Zr_to_bs
  simp only [hsize]
  rw [key _ le_rfl, List.take_length]

theorem padBitstring_eq (bitstring : List ℕ) :
    padBitstring bitstring = List.replicate (256 - bitstring.length) 0 ++ bitstring := by
  fun_induction padBitstring bitstring with
  | case1 bitstring hlt ih =>
      rw [ih, List.length_cons,
        show 256 - bitstring.length = (256 - (bitstring.length + 1)) + 1 by omega,
        List.replicate_succ']
      simp
  | case2 bitstring hge => simp [show 256 - bitstring.length = 0 by omega]

theorem length_padBitstring (bitstring : List ℕ) :
    (padBitstring bitstring).length = max 256 bitstring.length := by
  rw [padBitstring_eq, List.length_append, List.length_replicate]
  omega

/-- The bit string has room for the key. -/
theorem val_lt_two_pow {r : ℕ} (sk : Zr r) {n : ℕ} (hn : (padBitstring (Zr_to_bs sk)).length = n) :
    sk.val < 2 ^ n := by
  rw [length_padBitstring, Zr_to_bs_eq, List.length_map] at hn
  exact (Nat.length_toDigits_le_iff (by decide) (by omega)).mp (by omega)

/-- The bit string of `main`: position `j` holds the bit of weight
`2 ^ (n - 1 - j)` of the key. -/
theorem padBitstring_Zr_to_bs {r : ℕ} (sk : Zr r) {n : ℕ}
    (hn : (padBitstring (Zr_to_bs sk)).length = n) :
    padBitstring (Zr_to_bs sk) =
      (List.range n).map fun j => Numeral.digit 2 sk.val (n - 1 - j) := by
  have hlength := hn
  rw [length_padBitstring, Zr_to_bs_eq, List.length_map] at hlength
  have hpad := Numeral.padDigits_eq_map (by omega : 1 < 2) (by omega : 0 < n) (val_lt_two_pow sk hn)
  have hbits : padBitstring (Zr_to_bs sk) = (Numeral.padDigits 2 n sk.val).map bitOf := by
    have hfill : 256 - (Nat.toDigits 2 sk.val).length = n - (Nat.toDigits 2 sk.val).length := by
      omega
    rw [padBitstring_eq, Zr_to_bs_eq, Numeral.padDigits, List.length_map, hfill]
    simp [bitOf]
  rw [hbits, hpad, List.map_map]
  apply List.map_congr_left
  intro j _
  exact bitOf_digitChar (Numeral.digit_lt (by omega) _ _)

end Pepal.Images

import Pepal.Lib.Numeral

/-!
# Counter mode

A block cipher in counter mode is a keystream generator: block `i` of the
keystream is the encryption of the counter `iv + i`, and a text is encrypted
by xoring the keystream into it. Encryption and decryption are the same
function, so decrypting under the same key and iv undoes encryption whatever
the block cipher is (`ctr_ctr`), and a ciphertext is as long as its plaintext
(`length_ctr`).
-/

namespace CounterMode

open Numeral

/-- `data` xored with the keystream `ks` from position `n` on. -/
def xorFrom (ks : ℕ → UInt8) : ℕ → List UInt8 → List UInt8
  | _, [] => []
  | n, byte :: rest => (byte ^^^ ks n) :: xorFrom ks (n + 1) rest

@[simp]
theorem length_xorFrom (ks : ℕ → UInt8) (n : ℕ) (data : List UInt8) :
    (xorFrom ks n data).length = data.length := by
  induction data generalizing n with
  | nil => rfl
  | cons byte rest ih => simp [xorFrom, ih]

theorem xorFrom_xorFrom (ks : ℕ → UInt8) (n : ℕ) (data : List UInt8) :
    xorFrom ks n (xorFrom ks n data) = data := by
  induction data generalizing n with
  | nil => rfl
  | cons byte rest ih =>
      rw [xorFrom, xorFrom, ih, UInt8.xor_assoc, UInt8.xor_self, UInt8.xor_zero]

/-- The counter for block `i`: `iv + i` in as many bytes, wrapping around. -/
def counterBlock (iv : List UInt8) (i : ℕ) : List UInt8 :=
  beBytes iv.length (beNat iv + i)

/-- Byte `j` of the keystream of a block function under `iv`. -/
def keystream (block : List UInt8 → List UInt8) (iv : List UInt8) (j : ℕ) : UInt8 :=
  (block (counterBlock iv (j / iv.length))).getD (j % iv.length) 0

def ctr (block : List UInt8 → List UInt8) (iv data : List UInt8) : List UInt8 :=
  xorFrom (keystream block iv) 0 data

@[simp]
theorem length_ctr (block : List UInt8 → List UInt8) (iv data : List UInt8) :
    (ctr block iv data).length = data.length := length_xorFrom _ _ _

@[simp]
theorem ctr_ctr (block : List UInt8 → List UInt8) (iv data : List UInt8) :
    ctr block iv (ctr block iv data) = data :=
  xorFrom_xorFrom _ _ _

end CounterMode

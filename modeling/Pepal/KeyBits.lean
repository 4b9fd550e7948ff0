import Pepal.Images.KeyCheck
import Pepal.Software.Delivery

/-!
# The bits of a key

Both programs make bits of a key, in ways of their own: the image program prints
the scalar in base 2 into a stream and reads the digits off the text one by one,
filling up in front, the software program cuts the text of `bin` and has `zfill`
fill it up. For an integer of at most 256 bits both have its 256 bits, the most
significant one first.
-/

namespace Pepal

open PrimeOrder
open Images (Zr Zr_to_bs padBitstring padBitstring_Zr_to_bs length_mainBits mainBits_lt_two
  mainBits_getElem?)
open Software (Receiver ReceiverRandom Msg bin zfill zfill_bin intOfLetter)

/-- The `bitstring` of `main` for the scalar of an integer. -/
def imageBits (r sk : ℕ) : List ℕ := padBitstring (Zr_to_bs (sk : Zr r))

/-- The `bitstring` of `receiver_transfer4`. -/
def softwareBits (sk : ℕ) : List Char := zfill ((bin sk).drop 2) 256

/-- What both conversions have to make of an integer. -/
structure ExactBits (r sk : ℕ) : Prop where
  length : (imageBits r sk).length = 256
  binary : ∀ entry ∈ imageBits r sk, entry = 0 ∨ entry = 1
  entry : ∀ i < 256, (imageBits r sk)[255 - i]? = some (sk.testBit i).toNat
  sum : ∑ i ∈ Finset.range 256, 2 ^ i * (imageBits r sk).getD (255 - i) 0 = sk
  letters : softwareBits sk = (imageBits r sk).map Nat.digitChar
  digits : (softwareBits sk).mapM intOfLetter = some (imageBits r sk)
  stored : ∀ (q : ℕ) (G : Type) [PrimeOrderGroup q G] (T : ReceiverRandom q)
    (R R' : Receiver q G) (msg : Msg G), R.receiver_sk = some (sk : ℤ) →
      R.receiver_transfer4 T = some (R', msg) → R'.bitstring = some (softwareBits sk)

section Conversions

variable {r sk : ℕ}

theorem val_key (hr : sk < r) : (sk : Zr r).val = sk := ZMod.val_natCast_of_lt hr

theorem length_imageBits (hsk : sk < 2 ^ 256) (hr : sk < r) : (imageBits r sk).length = 256 := by
  apply length_mainBits
  rw [val_key hr]
  exact hsk

theorem imageBits_eq (hsk : sk < 2 ^ 256) (hr : sk < r) :
    imageBits r sk = (List.range 256).map fun j => Numeral.digit 2 sk (255 - j) := by
  have hbits := padBitstring_Zr_to_bs (sk : Zr r) (length_imageBits hsk hr)
  rw [val_key hr] at hbits
  exact hbits

theorem imageBits_getElem? (hsk : sk < 2 ^ 256) (hr : sk < r) {i : ℕ} (hi : i < 256) :
    (imageBits r sk)[255 - i]? = some (Numeral.digit 2 sk i) := by
  have hget := mainBits_getElem? (sk : Zr r) (length_imageBits hsk hr) hi
  rw [val_key hr] at hget
  exact hget

/-- The weighted sum of the entries, from the last one on. -/
theorem sum_imageBits (hsk : sk < 2 ^ 256) (hr : sk < r) :
    ∑ i ∈ Finset.range 256, 2 ^ i * (imageBits r sk).getD (255 - i) 0 = sk := by
  have hdigits : ∀ i ∈ Finset.range 256,
      2 ^ i * (imageBits r sk).getD (255 - i) 0 = 2 ^ i * Numeral.digit 2 sk i := by
    intro i hi
    rw [List.getD_eq_getElem?_getD, imageBits_getElem? hsk hr (Finset.mem_range.mp hi),
      Option.getD_some]
  rw [Finset.sum_congr rfl hdigits, Numeral.sum_digits, Nat.mod_eq_of_lt hsk]

/-- The two conversions give the same digits. -/
theorem softwareBits_eq (hsk : sk < 2 ^ 256) (hr : sk < r) :
    softwareBits sk = (imageBits r sk).map Nat.digitChar := by
  have hpad := Numeral.padDigits_eq_map (by decide : 1 < 2) (by decide : 0 < 256) hsk
  rw [softwareBits, zfill_bin, hpad, imageBits_eq hsk hr, List.map_map]
  rfl

end Conversions

/-- `int` of a binary digit. -/
theorem intOfLetter_digitChar {d : ℕ} (hd : d < 2) : intOfLetter (Nat.digitChar d) = some d := by
  rcases Numeral.binary_digitChar hd with ⟨hc, rfl⟩ | ⟨hc, rfl⟩
  · rw [hc]
    rfl
  · rw [hc]
    rfl

/-- **The conversion of a key is exact** in both programs, for every integer of
at most 256 bits, 0 included. -/
theorem keyBits_exact {r sk : ℕ} (hsk : sk < 2 ^ 256) (hr : sk < r) : ExactBits r sk where
  length := length_imageBits hsk hr
  binary := by
    intro entry hentry
    have hlt := mainBits_lt_two (sk : Zr r) entry hentry
    omega
  entry := by
    intro i hi
    rw [imageBits_getElem? hsk hr hi, Nat.toNat_testBit, Numeral.digit]
  sum := sum_imageBits hsk hr
  letters := softwareBits_eq hsk hr
  digits := by
    have hread := Fallible.mapM_map_of_some (φ := id) fun entry hentry =>
      intOfLetter_digitChar (mainBits_lt_two (sk : Zr r) entry hentry)
    rw [List.map_id] at hread
    rw [softwareBits_eq hsk hr]
    exact hread
  stored := by
    intro q G _ T R R' msg hkey h
    exact Software.bitstring_of_receiver_transfer4 hkey h

/-- The keys 0 and 6 over the scalars modulo 7. -/
theorem keyBits_exact_seven : ExactBits 7 0 ∧ ExactBits 7 6 :=
  ⟨keyBits_exact (by decide) (by decide), keyBits_exact (by decide) (by decide)⟩

end Pepal

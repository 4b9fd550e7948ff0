import Mathlib.Data.Fintype.BigOperators
import Mathlib.Data.Fintype.Pigeonhole
import Pepal.Images.Transfer

/-!
# How much of the hash keys the cipher

`sha256_G1` gives the digest as hexadecimal text, two letters for each byte,
and AES is keyed with the first `KEYLENGTH` of these letters. So 16 of the 32
bytes of the digest decide the key. Sender and recipient cut at the same
place, and every transfer decrypts.
-/

namespace Pepal.Images

open PrimeOrder

variable {r : ℕ} {G : Type*} [PrimeOrderGroup r G]

/-- The digest that `sha256_G1` writes down. -/
def digest (L : CryptoLib G) (x : G) : Bytes := L.SHA256 (L.toBytesCompressed x)

/-- What AES is keyed with. -/
def aesKey (L : CryptoLib G) (x : G) : Bytes := (sha256_G1 L x).take KEYLENGTH

/-! ## Hexadecimal text -/

theorem hexEncode_cons (byte : UInt8) (data : Bytes) :
    hexEncode (byte :: data) =
      hexDigit (byte.toNat / 16) :: hexDigit (byte.toNat % 16) :: hexEncode data := rfl

/-- The text of the first bytes is the beginning of the text. -/
theorem take_hexEncode (n : ℕ) (data : Bytes) :
    (hexEncode data).take (2 * n) = hexEncode (data.take n) := by
  induction n generalizing data with
  | zero =>
      rw [Nat.mul_zero, List.take_zero, List.take_zero]
      rfl
  | succ n ih =>
      cases data with
      | nil => exact List.take_nil
      | cons byte data =>
          rw [Nat.mul_succ, hexEncode_cons, List.take_succ_cons, List.take_succ_cons, ih data,
            List.take_succ_cons, hexEncode_cons]

theorem hexDigit_inj {d e : ℕ} (hd : d < 16) (he : e < 16) (h : hexDigit d = hexDigit e) :
    d = e := by
  have hdigits : ∀ d < 16, ∀ e < 16, hexDigit d = hexDigit e → d = e := by decide
  exact hdigits d hd e he h

/-- Two letters give back their byte. -/
theorem byte_of_hexDigits {byte byte' : UInt8}
    (hhigh : hexDigit (byte.toNat / 16) = hexDigit (byte'.toNat / 16))
    (hlow : hexDigit (byte.toNat % 16) = hexDigit (byte'.toNat % 16)) : byte = byte' := by
  have hbyte := byte.toNat_lt
  have hbyte' := byte'.toNat_lt
  have hdiv := hexDigit_inj (by omega) (by omega) hhigh
  have hmod := hexDigit_inj (Nat.mod_lt _ (by omega)) (Nat.mod_lt _ (by omega)) hlow
  apply UInt8.toNat_inj.mp
  rw [← Nat.div_add_mod byte.toNat 16, hdiv, hmod, Nat.div_add_mod]

theorem hexEncode_injective : Function.Injective hexEncode := by
  intro data
  induction data with
  | nil =>
      intro data' h
      cases data' with
      | nil => rfl
      | cons byte' data' => cases h
  | cons byte data ih =>
      intro data' h
      cases data' with
      | nil => cases h
      | cons byte' data' =>
          rw [hexEncode_cons, hexEncode_cons] at h
          obtain ⟨hhigh, htail⟩ := List.cons.inj h
          obtain ⟨hlow, hdata⟩ := List.cons.inj htail
          rw [byte_of_hexDigits hhigh hlow, ih hdata]

/-! ## The key -/

theorem aesKey_eq (L : CryptoLib G) (x : G) : aesKey L x = hexEncode ((digest L x).take 16) :=
  take_hexEncode 16 (digest L x)

/-- Half of the digest decides the key. -/
theorem aesKey_eq_iff (L : CryptoLib G) (x y : G) :
    aesKey L x = aesKey L y ↔ (digest L x).take 16 = (digest L y).take 16 := by
  rw [aesKey_eq, aesKey_eq]
  exact hexEncode_injective.eq_iff

theorem getEncrypted_aesKey {L : CryptoLib G} {s : OT_Sender r G} {B : G}
    {ret ret' : EncryptedReturn} (h : s.getEncrypted L B ret = some ret') {i : ℕ} (hi : i < 2) :
    ∃ text, plain (s.message i) s.message_len = some text ∧
      ret'.ciphertext i = CounterMode.ctr (L.AES (aesKey L (s.k B i)))
        ((List.replicate KEYLENGTH 0).take BLOCKSIZE) text := getEncrypted_ciphertext h hi

theorem decryptE_aesKey (L : CryptoLib G) (R : OT_Recipient r G) (A : G) (ert : EncryptedReturn)
    (hc : R.bit_c < 2) :
    (R.makeKeys L A).decryptE L ert = (ert.iv R.bit_c).bind fun _ =>
      let recovered := CounterMode.ctr (L.AES (aesKey L (R.k A)))
        ((List.replicate KEYLENGTH 0).take BLOCKSIZE) (ert.ciphertext R.bit_c)
      if recovered.length ≤ ert.message_len then some recovered else none :=
  decryptE_eq L R A ert hc

/-- **When different digests give different keys.** `aesKey` is what both
parties key AES with, and of two digests it tells no more than whether their
first 16 bytes are the same. -/
theorem aesKey_ne_iff (L : CryptoLib G) :
    (∀ x y : G, (digest L x ≠ digest L y → aesKey L x ≠ aesKey L y) ↔
      ¬ (digest L x ≠ digest L y ∧ (digest L x).take 16 = (digest L y).take 16)) ∧
    (∀ (s : OT_Sender r G) (B : G) (ret ret' : EncryptedReturn),
      s.getEncrypted L B ret = some ret' → ∀ i < 2,
        ∃ text, plain (s.message i) s.message_len = some text ∧
          ret'.ciphertext i = CounterMode.ctr (L.AES (aesKey L (s.k B i)))
            ((List.replicate KEYLENGTH 0).take BLOCKSIZE) text) ∧
    ∀ (R : OT_Recipient r G) (A : G) (ert : EncryptedReturn), R.bit_c < 2 →
      (R.makeKeys L A).decryptE L ert = (ert.iv R.bit_c).bind fun _ =>
        let recovered := CounterMode.ctr (L.AES (aesKey L (R.k A)))
          ((List.replicate KEYLENGTH 0).take BLOCKSIZE) (ert.ciphertext R.bit_c)
        if recovered.length ≤ ert.message_len then some recovered else none := by
  refine ⟨?_, fun s B ret ret' h i hi => getEncrypted_aesKey h hi,
    fun R A ert hc => decryptE_aesKey L R A ert hc⟩
  intro x y
  rw [Ne, Ne, aesKey_eq_iff]
  constructor
  · rintro h ⟨hdigests, hkeys⟩
    exact h hdigests hkeys
  · intro h hdigests hkeys
    exact h ⟨hdigests, hkeys⟩

/-! ## Keys that coincide -/

/-- **No hash makes up for it.** In a group of more than `2 ^ 128` elements
with different digests two of them have the same key. -/
theorem exists_same_aesKey {L : CryptoLib G} (hlength : ∀ x, (digest L x).length = 32)
    (hdigests : Function.Injective (digest L)) (hcard : 2 ^ 128 < Nat.card G) :
    ∃ x y : G, digest L x ≠ digest L y ∧ aesKey L x = aesKey L y := by
  have hpos : 0 < Nat.card G := by omega
  have hfinite : Finite G := (Nat.card_pos_iff.mp hpos).2
  have := Fintype.ofFinite G
  -- the first half of the digest, as one of 2 ^ 128 vectors
  let half : G → List.Vector (Fin 256) 16 := fun x =>
    ⟨((digest L x).take 16).map UInt8.toFin, by
      rw [List.length_map, List.length_take, hlength x]
      rfl⟩
  have hvectors : Fintype.card (List.Vector (Fin 256) 16) < Fintype.card G := by
    rw [card_vector, Fintype.card_fin, ← Nat.card_eq_fintype_card]
    exact lt_of_eq_of_lt (by norm_num) hcard
  obtain ⟨x, y, hne, hhalf⟩ := Fintype.exists_ne_map_eq_of_card_lt half hvectors
  have hbyte : Function.Injective UInt8.toFin := fun _ _ h => UInt8.toFin_inj.mp h
  have hbytes : (digest L x).take 16 = (digest L y).take 16 :=
    List.map_injective_iff.mpr hbyte (congrArg Subtype.val hhalf)
  exact ⟨x, y, fun h => hne (hdigests h), (aesKey_eq_iff L x y).mpr hbytes⟩

/-- Digests of 32 bytes that end with the exponent of the element. -/
def endingLib : CryptoLib (Multiplicative (ZMod 3)) where
  toBytesCompressed x := [UInt8.ofNat x.toAdd.val]
  SHA256 data := List.replicate (32 - data.length) 0 ++ data
  AES key block := List.zipWith (· ^^^ ·) key block

/-- **Keys that should differ**: two digests that differ in the last byte. -/
theorem aesKey_lost :
    (digest endingLib 1).length = 32 ∧ (digest endingLib (Multiplicative.ofAdd 1)).length = 32 ∧
      digest endingLib 1 ≠ digest endingLib (Multiplicative.ofAdd 1) ∧
      aesKey endingLib 1 = aesKey endingLib (Multiplicative.ofAdd 1) := by
  refine ⟨rfl, rfl, by decide, ?_⟩
  rw [aesKey_eq_iff]
  rfl

end Pepal.Images

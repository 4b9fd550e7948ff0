import Pepal.Images.CipherKey

/-!
# The keystreams of the sender

The sender encrypts two messages for each part, each in counter mode under a
key of its own. Part number and fresh randomness do not enter the key, and the
counter starts at zero every time, so two ciphertexts share their keystream
as soon as they share their key, which is half of a digest. That is for the
recipient to decide: the element that is hashed is a function of its answer `B`,
and the only test of the answers is one of their product, which some `Cb` passes
whatever they are.
-/

namespace Pepal.Images

open PrimeOrder ObliviousTransfer

variable {r : ℕ} {G : Type*} [PrimeOrderGroup r G]

/-- What `SetKeyWithIV` is given for one of the two ciphertexts of a part. -/
def Sender.keyIV (L : CryptoLib G) (s : Sender r G) (B_arr : List G) (part bit : ℕ) :
    Bytes × Bytes :=
  (aesKey L ((s.new_OT_Sender part).k (B_arr.getD part 1) bit),
    (List.replicate KEYLENGTH 0).take BLOCKSIZE)

/-- What `getEncrypted` makes of the message under that key and iv. -/
theorem getEncrypted_keyIV {L : CryptoLib G} {s : Sender r G} {B_arr : List G} {part : ℕ}
    {ret ret' : EncryptedReturn}
    (h : (s.new_OT_Sender part).getEncrypted L (B_arr.getD part 1) ret = some ret') {bit : ℕ}
    (hbit : bit < 2) :
    ∃ text, plain (s.message part bit) s.message_len = some text ∧
      ret'.ciphertext bit =
        CounterMode.ctr (L.AES (s.keyIV L B_arr part bit).1) (s.keyIV L B_arr part bit).2 text :=
  getEncrypted_aesKey h hbit

/-- No two encryptions of the run are under the same key and iv. -/
def NoneReused (L : CryptoLib G) (s : Sender r G) (B_arr : List G) : Prop :=
  ∀ part < s.sec_par, ∀ bit < 2, ∀ part' < s.sec_par, ∀ bit' < 2,
    (part, bit) ≠ (part', bit') → s.keyIV L B_arr part bit ≠ s.keyIV L B_arr part' bit'

/-- No two answers are the same, and none is another one times `A`. -/
def Unrelated (A : G) (n : ℕ) (B_arr : List G) : Prop :=
  ∀ i < n, ∀ j < n, i ≠ j →
    B_arr.getD i 1 ≠ B_arr.getD j 1 ∧ B_arr.getD i 1 ≠ A * B_arr.getD j 1

/-- Where two encryptions are keyed by different elements, already the first half
of the digests is different. -/
def HalvesDiffer (L : CryptoLib G) (A : G) (a : Zr r) (n : ℕ) (B_arr : List G) : Prop :=
  ∀ part < n, ∀ bit < 2, ∀ part' < n, ∀ bit' < 2,
    let x := senderKey A a (B_arr.getD part 1) bit
    let y := senderKey A a (B_arr.getD part' 1) bit'
    x ≠ y → (digest L x).take 16 ≠ (digest L y).take 16

theorem keyIV_eq_iff (L : CryptoLib G) (s : Sender r G) (B_arr : List G)
    {part bit part' bit' : ℕ} (hbit : bit < 2) (hbit' : bit' < 2) :
    s.keyIV L B_arr part bit = s.keyIV L B_arr part' bit' ↔
      (digest L (senderKey s.A s.a (B_arr.getD part 1) bit)).take 16 =
        (digest L (senderKey s.A s.a (B_arr.getD part' 1) bit')).take 16 := by
  have hkey : ∀ p {b : ℕ}, b < 2 → (s.new_OT_Sender p).k (B_arr.getD p 1) b =
      senderKey s.A s.a (B_arr.getD p 1) b :=
    fun p b hb => k_eq_senderKey (s.new_OT_Sender p) (B_arr.getD p 1) hb
  rw [← aesKey_eq_iff, ← hkey part hbit, ← hkey part' hbit']
  unfold Sender.keyIV
  rw [Prod.mk.injEq]
  exact ⟨fun h => h.1, fun h => ⟨h, rfl⟩⟩

/-- When all encryptions of the run are keyed by different elements. -/
theorem senderKeys_distinct_iff {A : G} (hA : A ≠ 1) {a : Zr r} (ha : a ≠ 0) (n : ℕ)
    (B_arr : List G) :
    (∀ part < n, ∀ bit < 2, ∀ part' < n, ∀ bit' < 2, (part, bit) ≠ (part', bit') →
      senderKey A a (B_arr.getD part 1) bit ≠ senderKey A a (B_arr.getD part' 1) bit') ↔
      Unrelated A n B_arr := by
  constructor
  · intro h i hi j hj hij
    have hne : ∀ bit bit' : ℕ, (i, bit) ≠ (j, bit') :=
      fun bit bit' heq => hij (Prod.mk.inj heq).1
    constructor
    · intro hsame
      apply h i hi 0 (by omega) j hj 0 (by omega) (hne 0 0)
      rw [senderKey_eq_iff ha, hsame]
    · intro hshift
      apply h i hi 1 (by omega) j hj 0 (by omega) (hne 1 0)
      rw [senderKey_eq_iff ha, hshift, pow_zero, pow_one, mul_one, mul_comm]
  · intro h part hpart bit hbit part' hpart' bit' hbit' hne hkey
    rw [senderKey_eq_iff ha] at hkey
    by_cases hpart_eq : part = part'
    · -- the two keys of one part differ by a power of A
      subst hpart_eq
      have hbits : bit ≠ bit' := fun heq => hne (by rw [heq])
      have hpow := mul_left_cancel hkey
      rcases (by omega : bit = 0 ∧ bit' = 1 ∨ bit = 1 ∧ bit' = 0) with ⟨rfl, rfl⟩ | ⟨rfl, rfl⟩
      · rw [pow_one, pow_zero] at hpow
        exact hA hpow
      · rw [pow_one, pow_zero] at hpow
        exact hA hpow.symm
    · obtain ⟨hsame, hshift⟩ := h part hpart part' hpart' hpart_eq
      obtain ⟨-, hshift'⟩ := h part' hpart' part hpart (Ne.symm hpart_eq)
      by_cases hbits : bit = bit'
      · rw [hbits] at hkey
        exact hsame (mul_right_cancel hkey)
      · rcases (by omega : bit = 0 ∧ bit' = 1 ∨ bit = 1 ∧ bit' = 0) with ⟨rfl, rfl⟩ | ⟨rfl, rfl⟩
        · rw [pow_one, pow_zero, mul_one] at hkey
          exact hshift' (by rw [← hkey, mul_comm])
        · rw [pow_one, pow_zero, mul_one] at hkey
          exact hshift (by rw [hkey, mul_comm])

/-- **When no key is used twice**, over the two encryptions of every part. -/
theorem noneReused_iff (L : CryptoLib G) {g : G} (hg : IsGenerator g) (s0 : Sender r G) {a : Zr r}
    (ha : a ≠ 0) (B_arr : List G) :
    NoneReused L (s0.initA g a) B_arr ↔
      Unrelated (gpow g a) s0.sec_par B_arr ∧ HalvesDiffer L (gpow g a) a s0.sec_par B_arr := by
  have hkeys : ∀ part bit part' bit', bit < 2 → bit' < 2 →
      ((s0.initA g a).keyIV L B_arr part bit = (s0.initA g a).keyIV L B_arr part' bit' ↔
        (digest L (senderKey (gpow g a) a (B_arr.getD part 1) bit)).take 16 =
          (digest L (senderKey (gpow g a) a (B_arr.getD part' 1) bit')).take 16) :=
    fun part bit part' bit' hbit hbit' => keyIV_eq_iff L (s0.initA g a) B_arr hbit hbit'
  have hdistinct := senderKeys_distinct_iff (gpow_ne_one hg.ne_one ha) ha s0.sec_par B_arr
  constructor
  · intro h
    constructor
    · rw [← hdistinct]
      intro part hpart bit hbit part' hpart' bit' hbit' hne hsame
      apply h part hpart bit hbit part' hpart' bit' hbit' hne
      rw [hkeys _ _ _ _ hbit hbit', hsame]
    · intro part hpart bit hbit part' hpart' bit' hbit' x y hxy hhalf
      refine h part hpart bit hbit part' hpart' bit' hbit' ?_ ?_
      · intro heq
        obtain ⟨rfl, rfl⟩ := Prod.mk.inj heq
        exact hxy rfl
      · exact (hkeys _ _ _ _ hbit hbit').mpr hhalf
  · rintro ⟨hunrelated, hhalves⟩ part hpart bit hbit part' hpart' bit' hbit' hne hkey
    have hxy := hdistinct.mpr hunrelated part hpart bit hbit part' hpart' bit' hbit' hne
    exact hhalves part hpart bit hbit part' hpart' bit' hbit' hxy
      ((hkeys _ _ _ _ hbit hbit').mp hkey)

/-- Whatever the answers and `Cs`, the recipient finds a `Cb` that passes. -/
theorem exists_Cb [DecidableEq G] (s : Sender r G) (B_arr : List G) (Cs : G) :
    skVerified s B_arr (s.product_Bs B_arr * (gpow Cs s.a)⁻¹) Cs = true := by
  unfold skVerified
  rw [decide_eq_true_iff, inv_mul_cancel_right]

/-- **When no keystream is used twice.** For every list of answers that passes
the test of the sender, with any `Cb` and `Cs`, all encryptions of the run are
under different keys and ivs exactly if no two answers are the same, none is
another one times `A`, and no two of the elements that then key the encryptions
have digests with one first half. -/
theorem keystreams_distinct_iff [DecidableEq G] (L : CryptoLib G) {g : G} (hg : IsGenerator g)
    (s0 : Sender r G) {a : Zr r} (ha : a ≠ 0) :
    ∀ B_arr : List G, B_arr.length = s0.sec_par → ∀ Cb Cs : G,
      skVerified (s0.initA g a) B_arr Cb Cs = true →
        (NoneReused L (s0.initA g a) B_arr ↔
          Unrelated (gpow g a) s0.sec_par B_arr ∧
            HalvesDiffer L (gpow g a) a s0.sec_par B_arr) :=
  fun B_arr _ _ _ _ => noneReused_iff L hg s0 ha B_arr

theorem digestLib_injective : Function.Injective (digest digestLib) := by
  have hexponents : ∀ x y : ZMod 3, digest digestLib (Multiplicative.ofAdd x) =
      digest digestLib (Multiplicative.ofAdd y) → x = y := by decide
  intro x y h
  exact hexponents x.toAdd y.toAdd h

theorem endingLib_injective : Function.Injective (digest endingLib) := by
  have hexponents : ∀ x y : ZMod 3, digest endingLib (Multiplicative.ofAdd x) =
      digest endingLib (Multiplicative.ofAdd y) → x = y := by decide
  intro x y h
  exact hexponents x.toAdd y.toAdd h

def smallG : Multiplicative (ZMod 3) := Multiplicative.ofAdd 1

/-- A sender of `n` parts with two messages of one byte for each, and `A = g`. -/
def smallSender (n : ℕ) : Sender 3 (Multiplicative (ZMod 3)) :=
  Sender.initA
    { sec_par := n, message_len := 1, message := fun part j => [UInt8.ofNat (part + j)]
      a := 0, A := 1 } smallG 1

theorem keystreams_distinct_single :
    NoneReused digestLib (smallSender 1) [smallG] ↔
      Unrelated (gpow smallG 1) 1 [smallG] ∧ HalvesDiffer digestLib (gpow smallG 1) 1 1 [smallG] :=
  keystreams_distinct_iff digestLib (isGenerator_of_ne_one (by decide)) _ (by decide) [smallG] rfl
    _ 1 (exists_Cb (smallSender 1) [smallG] 1)

/-- **A keystream that is used twice**: the recipient answers both parts with
the generator and chooses `Cb` so that the test passes; the first messages of
both parts are encrypted under one key and one iv. With digests that begin alike
it is so for the two messages of one part. -/
theorem keystream_reused :
    Function.Injective (digest digestLib) ∧ (smallSender 2).a ≠ 0 ∧
      (∃ Cb, skVerified (smallSender 2) [smallG, smallG] Cb 1 = true) ∧
      (smallSender 2).keyIV digestLib [smallG, smallG] 0 0 =
        (smallSender 2).keyIV digestLib [smallG, smallG] 1 0 ∧
      Function.Injective (digest endingLib) ∧
      (∃ Cb, skVerified (smallSender 1) [smallG] Cb 1 = true) ∧
      (smallSender 1).keyIV endingLib [smallG] 0 0 =
        (smallSender 1).keyIV endingLib [smallG] 0 1 := by
  refine ⟨digestLib_injective, by decide, ⟨_, exists_Cb _ _ _⟩, rfl, endingLib_injective,
    ⟨_, exists_Cb _ _ _⟩, ?_⟩
  rw [keyIV_eq_iff endingLib (smallSender 1) [smallG] (by decide) (by decide)]
  decide

end Pepal.Images

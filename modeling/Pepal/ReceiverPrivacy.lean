import Pepal.Images.Transfer
import Pepal.Software.Delivery

/-!
# What the sender learns of the choice bits

Both programs answer with `A ^ c * g ^ b`, the image program under one `A` for
all parts, the software program under one for each row. As long as every
scalar is drawn anew the answers say nothing of the bits: for every `A` of the
sender's choosing and every two choice vectors they are the same family.
-/

namespace Pepal

open PrimeOrder ObliviousTransfer

variable {r : ℕ} {G : Type} [PrimeOrderGroup r G]

/-! ## The image program -/

namespace Images

/-- The answers of a new recipient with choice bits `c`. -/
def sentB (A g : G) (sk : Zr r) (c : List ℕ) (n : ℕ) (message_len : ℤ)
    (b : Fin n → Zr r) : List G :=
  ((Recipient.mk' G sk c n message_len).initB_arr A g (scalars b)).B_arr

theorem sentB_eq (A g : G) (sk : Zr r) {c : List ℕ} (hc : ∀ bit ∈ c, bit = 0 ∨ bit = 1)
    (n : ℕ) (message_len : ℤ) (b : Fin n → Zr r) :
    sentB A g sk c n message_len b =
      (List.range n).map fun i =>
        blind A g ((Recipient.mk' G sk c n message_len).choice i) (scalars b i) := by
  have hbits : ∀ bit ∈ (Recipient.mk' G sk c n message_len).bitstring, bit < 2 := by
    intro bit hbit
    rcases hc bit hbit with rfl | rfl
    · omega
    · omega
  unfold sentB
  rw [initB_arr_eq _ A g (scalars b) hbits]
  rfl

end Images

/-! ## The software program -/

namespace Software

/-- The answers of the receiver in step 4, as the message that is sent. -/
def sentB (R : Receiver r G) (recRandVals : ℕ → ZR r) (b : Fin 256 → ZR r) : Option (Msg G) :=
  (R.receiver_transfer4 { b := scalars b, recRandVals := recRandVals }).map Prod.snd

/-- The letters of a key that is not negative are bits. -/
theorem isBit_of_nonneg {sk : ℤ} (h : 0 ≤ sk) {i : ℕ} (hi : i < 256) :
    ∃ bit, IsBit (zfill ((bin sk).drop 2) 256) i bit := by
  obtain ⟨n, rfl⟩ := Int.eq_ofNat_of_zero_le h
  have hbin : (bin n).drop 2 = Nat.toDigits 2 n := by
    rw [bin, if_neg (by omega)]
    rfl
  rw [hbin, zfill_padDigits, Numeral.padDigits]
  have hlt : i < (List.replicate (256 - (Nat.toDigits 2 n).length) '0' ++
      Nat.toDigits 2 n).length := by
    rw [List.length_append, List.length_replicate]
    omega
  have hget := List.getElem?_eq_getElem hlt
  rcases List.mem_append.mp (List.getElem_mem hlt) with hpad | hdigit
  · rw [List.eq_of_mem_replicate hpad] at hget
    exact ⟨0, Or.inl ⟨hget, rfl⟩⟩
  · rcases Numeral.toDigits_two_binary n _ hdigit with hzero | hone
    · rw [hzero] at hget
      exact ⟨0, Or.inl ⟨hget, rfl⟩⟩
    · rw [hone] at hget
      exact ⟨1, Or.inr ⟨hget, rfl⟩⟩

/-- Every vector of 256 bits is that of some key. -/
theorem exists_key {bit : ℕ → ℕ} (hbit : ∀ i, bit i = 0 ∨ bit i = 1) :
    ∃ sk : ℤ, 0 ≤ sk ∧ ∀ i < 256, IsBit (zfill ((bin sk).drop 2) 256) i (bit i) := by
  -- least significant digit first, which is the last letter
  let digits := (List.range 256).map fun i => bit (255 - i)
  have hdigits : ∀ d ∈ digits, d < 2 := by
    intro d hd
    obtain ⟨i, -, rfl⟩ := List.mem_map.mp hd
    rcases hbit (255 - i) with h | h
    · rw [h]
      omega
    · rw [h]
      omega
  have hlt : Nat.ofDigits 2 digits < 2 ^ 256 := by
    have hpow := Nat.ofDigits_lt_base_pow_length (by omega : 1 < 2) hdigits
    rwa [List.length_map, List.length_range] at hpow
  refine ⟨(Nat.ofDigits 2 digits : ℕ), Int.natCast_nonneg _, ?_⟩
  intro i hi
  have hkey : keyBit (Nat.ofDigits 2 digits) i = bit i := by
    rw [keyBit, Numeral.digit_ofDigits hdigits, List.getD_eq_getElem?_getD, List.getElem?_map,
      List.getElem?_range (by omega)]
    show bit (255 - (255 - i)) = bit i
    congr 1
    omega
  rw [← hkey]
  exact isBit_zfill hlt i hi

/-- The answers, for any list of elements that is long enough. -/
theorem sentB_eq {R : Receiver r G} {g : G} {sk : ℤ} {elgPoints : List (List G)} {A : List G}
    {bit : ℕ → ℕ} (hg : R.g = some g) (hsk : R.receiver_sk = some sk)
    (hS3 : R.S3 = some { elgPoints := elgPoints, A := A }) (hA : 256 ≤ A.length)
    (hbit : ∀ i < 256, IsBit (zfill ((bin sk).drop 2) 256) i (bit i))
    (recRandVals : ℕ → ZR r) (b : Fin 256 → ZR r) :
    sentB R recRandVals b =
      some (.B ((List.range 256).map fun i => blind (A.getD i 1) g (bit i) (scalars b i))) := by
  unfold sentB Receiver.receiver_transfer4
  simp -implicitDefEqProofs only [hg, hsk, hS3, Option.bind_eq_bind, Option.bind_some]
  rw [mapM_row (g := fun i => blind (A.getD i 1) g (bit i) (scalars b i))]
  · rfl
  · intro i hi
    have hget : A[i]? = some (A.getD i 1) := by
      rw [List.getD_eq_getElem?_getD, List.getElem?_eq_getElem (by omega)]
      rfl
    rw [hget]
    rcases hbit i hi with ⟨hc, hb⟩ | ⟨hc, hb⟩
    · rw [hc, hb]
      rfl
    · rw [hc, hb]
      rfl

end Software

/-- **The answers hide the choice bits.** In both programs, for every `A` and
every two choice vectors of one length, the answers over all vectors of scalars
are the same family: every vector of group elements for exactly one vector of
scalars. In the software program the choice vector is that of the key, and every
vector is that of some key. -/
theorem choices_hidden {g : G} (hg : IsGenerator g) :
    (∀ (n : ℕ) (message_len : ℤ) (A : G) (sk sk' : Images.Zr r) (c c' : List ℕ), c.length = n →
      c'.length = n → (∀ bit ∈ c, bit = 0 ∨ bit = 1) → (∀ bit ∈ c', bit = 0 ∨ bit = 1) →
        SameFamily n id (Images.sentB A g sk c n message_len)
          (Images.sentB A g sk' c' n message_len)) ∧
    (∀ (R R' : Software.Receiver r G) (sk sk' : ℤ) (elgPoints : List (List G)) (A : List G)
      (recRandVals : ℕ → Software.ZR r), R.g = some g → R'.g = some g →
        R.S3 = some { elgPoints := elgPoints, A := A } →
        R'.S3 = some { elgPoints := elgPoints, A := A } → 256 ≤ A.length →
        R.receiver_sk = some sk → R'.receiver_sk = some sk' → 0 ≤ sk → 0 ≤ sk' →
          SameFamily 256 (fun B : List G => some (Software.Msg.B B))
            (Software.sentB R recRandVals) (Software.sentB R' recRandVals)) ∧
    ∀ bit : ℕ → ℕ, (∀ i, bit i = 0 ∨ bit i = 1) →
      ∃ sk : ℤ, 0 ≤ sk ∧ ∀ i < 256,
        Software.IsBit (Software.zfill ((Software.bin sk).drop 2) 256) i (bit i) := by
  refine ⟨?_, ?_, fun bit hbit => Software.exists_key hbit⟩
  · rintro n message_len A sk sk' c c' - - hc hc'
    exact sameFamily_of_answers hg.ne_one Function.injective_id
      (Images.sentB_eq A g sk hc n message_len) (Images.sentB_eq A g sk' hc' n message_len)
  · intro R R' sk sk' elgPoints A recRandVals hRg hRg' hS3 hS3' hA hsk hsk' hnonneg hnonneg'
    choose! bit hbit using fun i (hi : i < 256) => Software.isBit_of_nonneg hnonneg hi
    choose! bit' hbit' using fun i (hi : i < 256) => Software.isBit_of_nonneg hnonneg' hi
    have hmessage : Function.Injective fun B : List G => some (Software.Msg.B B) := by
      intro B B' h
      exact Software.Msg.B.inj (Option.some.inj h)
    exact sameFamily_of_answers hg.ne_one hmessage
      (Software.sentB_eq hRg hsk hS3 hA hbit recRandVals)
      (Software.sentB_eq hRg' hsk' hS3' hA hbit' recRandVals)

/-- A receiver before step 4, against a sender that answers `g` in every row. -/
def smallReceiver (sk : ℤ) : Software.Receiver 3 (Multiplicative (ZMod 3)) :=
  { state := some 4, files := fun _ => none, g := some (Multiplicative.ofAdd 1)
    receiver_sk := some sk
    S3 := some { elgPoints := [], A := List.replicate 256 (Multiplicative.ofAdd 1) } }

theorem choices_hidden_small :
    SameFamily 2 id
        (Images.sentB (Multiplicative.ofAdd (2 : ZMod 3)) (Multiplicative.ofAdd 1) 1 [0, 1] 2 4)
        (Images.sentB (Multiplicative.ofAdd (2 : ZMod 3)) (Multiplicative.ofAdd 1) 2 [1, 0] 2 4) ∧
      SameFamily 256 (fun B : List (Multiplicative (ZMod 3)) => some (Software.Msg.B B))
        (Software.sentB (smallReceiver 5) fun _ => 0)
        (Software.sentB (smallReceiver 6) fun _ => 0) := by
  have h := choices_hidden (g := Multiplicative.ofAdd (1 : ZMod 3))
    (isGenerator_of_ne_one (by decide))
  refine ⟨?_, ?_⟩
  · exact h.1 2 4 _ 1 2 [0, 1] [1, 0] rfl rfl (by decide) (by decide)
  · exact h.2.1 (smallReceiver 5) (smallReceiver 6) 5 6 [] _ (fun _ => 0) rfl rfl rfl rfl
      (by rw [List.length_replicate]) rfl rfl (by decide) (by decide)

end Pepal

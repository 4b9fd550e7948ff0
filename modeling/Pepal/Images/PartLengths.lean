import Pepal.Images.Detection

/-!
# The lengths of the parts

`watermark` reads every file into a buffer of its own size, and there is one
`message_len` for all of them, the size of the last file as an `int`. With it
`getEncrypted` reads every buffer, and `finish` writes every part. Before a part
can be written it has to be received, which is no matter of lengths alone:
`decryptE` loads something through a pointer that nothing sets.
-/

namespace Pepal.Images

open PrimeOrder

variable {r : ℕ} {G : Type*} [PrimeOrderGroup r G]

/-- The number of parts in `main`. -/
def parts (R_sk : Zr r) : ℕ := (padBitstring (Zr_to_bs R_sk)).length

/-- The sender in `main`. -/
def mainSender (public_g : G) (R_sk a : Zr r) (files : ℕ → ℕ → Bytes) : Sender r G :=
  (readSender G (parts R_sk) files).initA public_g a

/-- The rounds of the loop of `finish` for a part, each of which writes a byte. -/
def Recipient.rounds (R : Recipient r G) : ℕ := R.message_len.toNat

section Run

variable (L : CryptoLib G) (public_g : G) (R_sk a : Zr r) (new_b : ℕ → Zr r)
  (enc : ℕ → EncryptedReturn) (files : ℕ → ℕ → Bytes)

/-- Every part is encrypted over its own length, and the part that the recipient
chose is written over its own: nothing is read past a buffer, and no byte is
lost. -/
structure OwnLengths [DecidableEq G] : Prop where
  used : ∀ part < parts R_sk, ∀ j < 2,
    ((mainSender public_g R_sk a files).new_OT_Sender part).message_len = (files part j).length
  read : ∀ part < parts R_sk, ∀ j < 2,
    let ot_s := (mainSender public_g R_sk a files).new_OT_Sender part
    plain (ot_s.message j) ot_s.message_len = some (files part j)
  written : ∃ R out, main L public_g R_sk a new_b enc files = some (.ok R) ∧
    R.finish = some out ∧ ∀ part < parts R_sk,
      R.rounds = (files part (R.new_OT_Recipient part).bit_c).length ∧
        recOut out part = files part (R.new_OT_Recipient part).bit_c

/-- All files are as long as the last one that is read, and an `int` holds that
length. -/
def SameLengths : Prop := ∀ part < parts R_sk, ∀ j < 2,
  (files part j).length = (files (parts R_sk - 1) 1).length ∧ (files part j).length < 2 ^ 31

variable {L public_g R_sk a new_b enc files}

theorem message_len_mainSender (part : ℕ) :
    ((mainSender public_g R_sk a files).new_OT_Sender part).message_len =
      intOfSize (files (parts R_sk - 1) 1).length :=
  message_len_readSender files (bits_pos R_sk)

theorem message_mainSender {part j : ℕ} (hpart : part < parts R_sk) (hj : j < 2) :
    ((mainSender public_g R_sk a files).new_OT_Sender part).message j = files part j :=
  message_readSender files hpart hj

theorem bit_of_main [DecidableEq G] {R : Recipient r G}
    (h : main L public_g R_sk a new_b enc files = some (.ok R)) {part : ℕ}
    (hpart : part < parts R_sk) :
    (R.new_OT_Recipient part).bit_c = Numeral.digit 2 R_sk.val part := by
  obtain ⟨hbitstring, hsec, -⟩ := fields_of_main rfl h
  have hbit := mainBits_getElem? R_sk rfl hpart
  unfold Recipient.new_OT_Recipient
  rw [hsec, hbitstring]
  dsimp only
  rw [List.getD_eq_getElem?_getD, hbit, Option.getD_some]

/-- If the one length is every file's own, all files have the same. -/
theorem sameLengths_of_used
    (h : ∀ part < parts R_sk, ∀ j < 2,
      ((mainSender public_g R_sk a files).new_OT_Sender part).message_len =
        (files part j).length) : SameLengths R_sk files := by
  intro part hpart j hj
  have hlast := h (parts R_sk - 1) (Nat.sub_lt (bits_pos R_sk) Nat.one_pos) 1 (by omega)
  have hused := h part hpart j hj
  rw [message_len_mainSender] at hlast hused
  have hlength : (files part j).length = (files (parts R_sk - 1) 1).length :=
    Nat.cast_injective (hused.symm.trans hlast)
  rw [hlength]
  exact ⟨rfl, intOfSize_eq_iff.mp hlast⟩

/-- **When every part has its own length**: exactly when all lengths are the
same, and below `2 ^ 31`, and the load of `decryptE` succeeds in every part. -/
theorem ownLengths_iff [DecidableEq G] :
    OwnLengths L public_g R_sk a new_b enc files ↔
      SameLengths R_sk files ∧ Readable R_sk enc (parts R_sk) := by
  constructor
  · rintro ⟨hused, -, R, out, hmain, -, -⟩
    exact ⟨sameLengths_of_used hused, fun part hpart =>
      (transferred_of_main rfl hmain hpart).load⟩
  · rintro ⟨hsame, hload⟩
    have hlast : (files (parts R_sk - 1) 1).length < 2 ^ 31 :=
      (hsame (parts R_sk - 1) (Nat.sub_lt (bits_pos R_sk) Nat.one_pos) 1 (by omega)).2
    have hint : ∀ part < parts R_sk, ∀ j < 2,
        intOfSize (files (parts R_sk - 1) 1).length = (files part j).length := by
      intro part hpart j hj
      rw [(hsame part hpart j hj).1]
      exact intOfSize_eq_iff.mpr hlast
    obtain ⟨R, hmain, hlen, hfinish⟩ := main_honest L public_g a new_b rfl
      (fun part hpart j hj => (hsame part hpart j hj).1) hlast hload
    refine ⟨?_, ?_, R, _, hmain, hfinish, ?_⟩
    · intro part hpart j hj
      rw [message_len_mainSender]
      exact hint part hpart j hj
    · intro part hpart j hj
      dsimp only
      rw [message_len_mainSender, message_mainSender hpart hj, hint part hpart j hj, plain_length]
    · intro part hpart
      have hbit : Numeral.digit 2 R_sk.val part < 2 := Numeral.digit_lt (by omega) _ _
      rw [bit_of_main hmain hpart]
      refine ⟨?_, recOut_map_range hpart⟩
      unfold Recipient.rounds
      rw [hlen, Int.toNat_natCast, (hsame part hpart _ hbit).1]

end Run

/-- The two versions of part 0 have two bytes and none, all other files one. -/
def unevenFiles (part j : ℕ) : Bytes :=
  if part = 0 then (if j = 0 then [1, 2] else []) else [3]

/-- **Parts of different lengths**: the last byte of one version of part 0 is not
encrypted, and of the other a byte is read past the end. -/
theorem uneven_lengths :
    let g : Multiplicative (ZMod 3) := Multiplicative.ofAdd 1
    let ot_s := (mainSender g 2 1 unevenFiles).new_OT_Sender 0
    plain (ot_s.message 0) ot_s.message_len = some [1] ∧
      plain (ot_s.message 1) ot_s.message_len = none ∧
      ∀ enc : ℕ → EncryptedReturn,
        ¬ OwnLengths digestLib g 2 1 (fun i => (i : Zr 3)) enc unevenFiles := by
  intro g ot_s
  have hparts : parts (2 : Zr 3) = 256 := length_bits_two
  have hpos : 0 < parts (2 : Zr 3) := bits_pos 2
  have hlen : ot_s.message_len = 1 := by
    rw [message_len_mainSender, hparts]
    rfl
  have hzero : ot_s.message 0 = [1, 2] := message_mainSender hpos (by decide)
  have hone : ot_s.message 1 = [] := message_mainSender hpos (by decide)
  refine ⟨?_, ?_, ?_⟩
  · rw [hzero, hlen]
    rfl
  · rw [hone, hlen]
    rfl
  · intro enc hown
    have hused := hown.used 0 hpos 0 (by decide)
    rw [hlen] at hused
    cases hused

end Pepal.Images

import Pepal.Images.NDA

/-!
# Watermark detection

After the transfer `main` writes the received parts to files and asks two
programs how well each part correlates with the two signatures. They are
outside of this development: what they print for a part is an argument, two
numbers of which only the comparison matters. `detect_wm` reads a bit off every
part and compares it with the bit string, which it reverses as `initB_arr` and
`new_OT_Recipient` do.
-/

namespace Pepal.Images

open PrimeOrder

variable {r : ℕ} {G : Type*} [PrimeOrderGroup r G]

section Detector

variable {D : Type*} [LT D] [DecidableLT D]

/-- `corr0 < corr1` for the part, as the number that `detect_wm` takes it for.
`corr` has what the two programs print for the original part with this number
and a received file. -/
def detectedBit (corr : ℕ → Bytes → D × D) (rec_out : ℕ → Bytes) (i : ℕ) : ℕ :=
  if (corr i (rec_out i)).1 < (corr i (rec_out i)).2 then 1 else 0

/-- The number of errors, and what is returned. -/
def detect_wm (corr : ℕ → Bytes → D × D) (rec_out : ℕ → Bytes) (bitstring : List ℕ) : ℕ × Bool :=
  let sec_par := bitstring.length
  let errorcount := (List.range sec_par).foldl (fun errorcount i =>
    if detectedBit corr rec_out i ≠ bitstring.getD ((sec_par - 1) - i) 0 then errorcount + 1
    else errorcount) 0
  (errorcount, if errorcount ≠ 0 then false else true)

theorem foldl_count (P : ℕ → Prop) [DecidablePred P] (n : ℕ) :
    (List.range n).foldl (fun count i => if P i then count + 1 else count) 0 =
      (List.range n).countP fun i => decide (P i) := by
  induction n with
  | zero => rfl
  | succ n ih =>
      rw [List.range_succ, List.foldl_append, ih, List.countP_append, List.foldl_cons,
        List.foldl_nil, List.countP_singleton]
      by_cases hn : P n
      · simp [hn]
      · simp [hn]

/-- **The errors are the parts on which the detector and the recipient
disagree**, whatever the correlations. -/
theorem errorcount_eq {R : Recipient r G} (hR : R.sec_par = R.bitstring.length)
    (corr : ℕ → Bytes → D × D) (rec_out : ℕ → Bytes) :
    (detect_wm corr rec_out R.bitstring).1 = (List.range R.sec_par).countP fun i =>
      decide (detectedBit corr rec_out i ≠ (R.new_OT_Recipient i).bit_c) := by
  rw [hR]
  refine (foldl_count _ _).trans ?_
  unfold Recipient.new_OT_Recipient
  rw [hR]

omit [PrimeOrderGroup r G] in
/-- There is no error when every part gives the bit of the key. -/
theorem errorcount_eq_zero_iff {corr : ℕ → Bytes → D × D} {rec_out : ℕ → Bytes} (sk : Zr r) {n : ℕ}
    (hn : (padBitstring (Zr_to_bs sk)).length = n) :
    (detect_wm corr rec_out (padBitstring (Zr_to_bs sk))).1 = 0 ↔
      ∀ i < n, detectedBit corr rec_out i = Numeral.digit 2 sk.val i := by
  have hcount : (detect_wm corr rec_out (padBitstring (Zr_to_bs sk))).1 = _ := foldl_count _ _
  have hbit : ∀ i < n, (padBitstring (Zr_to_bs sk)).getD (n - 1 - i) 0 =
      Numeral.digit 2 sk.val i := by
    intro i hi
    rw [List.getD_eq_getElem?_getD, mainBits_getElem? sk hn hi, Option.getD_some]
  rw [hcount, List.countP_eq_zero, hn]
  simp only [List.mem_range, decide_eq_true_eq, not_not]
  constructor
  · intro h i hi
    rw [h i hi, hbit i hi]
  · intro h i hi
    rw [h i hi, hbit i hi]

omit [PrimeOrderGroup r G] in
/-- Detection succeeds when every part gives the bit of the key. -/
theorem detect_wm_of_bits {corr : ℕ → Bytes → D × D} {rec_out : ℕ → Bytes} (sk : Zr r) {n : ℕ}
    (hn : (padBitstring (Zr_to_bs sk)).length = n)
    (h : ∀ i < n, detectedBit corr rec_out i = Numeral.digit 2 sk.val i) :
    detect_wm corr rec_out (padBitstring (Zr_to_bs sk)) = (0, true) ∧
      ∑ i ∈ Finset.range n, 2 ^ i * detectedBit corr rec_out i = sk.val := by
  constructor
  · have hcount := (errorcount_eq_zero_iff sk hn).mpr h
    refine Prod.ext hcount ?_
    exact if_neg (not_not.mpr hcount)
  · have hsum : ∀ i ∈ Finset.range n,
        2 ^ i * detectedBit corr rec_out i = 2 ^ i * Numeral.digit 2 sk.val i := by
      intro i hi
      rw [h i (Finset.mem_range.mp hi)]
    rw [Finset.sum_congr rfl hsum, Numeral.sum_digits, Nat.mod_eq_of_lt (val_lt_two_pow sk hn)]

/-- The correlations are right for what was received: higher for signature 1
where the part carries it, and not higher where it carries signature 0. -/
def Tells (corr : ℕ → Bytes → D × D) (files : ℕ → ℕ → Bytes) (rec_out : ℕ → Bytes) (i : ℕ) : Prop :=
  (rec_out i = files i 1 → (corr i (rec_out i)).1 < (corr i (rec_out i)).2) ∧
    (rec_out i = files i 0 → ¬ (corr i (rec_out i)).1 < (corr i (rec_out i)).2)

theorem detectedBit_of_tells {corr : ℕ → Bytes → D × D} {files : ℕ → ℕ → Bytes}
    {rec_out : ℕ → Bytes} {i c : ℕ} (h : Tells corr files rec_out i) (hc : c < 2)
    (hreceived : rec_out i = files i c) : detectedBit corr rec_out i = c := by
  obtain rfl | rfl : c = 0 ∨ c = 1 := by omega
  · exact if_neg (h.2 hreceived)
  · exact if_pos (h.1 hreceived)

/-- The files that `detect_wm` opens, by their number. -/
def recOut (out : List Bytes) (i : ℕ) : Bytes := out.getD i []

section Run

variable [DecidableEq G]

variable (D) in
/-- What an honest run promises: it completes, and with correlations that are
right for the parts it has received, `detect_wm` counts no error, and the detected
bits are those of the key. -/
def ReadsKey (L : CryptoLib G) (public_g : G) (R_sk a : Zr r) (new_b : ℕ → Zr r)
    (enc : ℕ → EncryptedReturn) (files : ℕ → ℕ → Bytes) (n : ℕ) : Prop :=
  ∃ (R : Recipient r G) (out : List Bytes),
    main L public_g R_sk a new_b enc files = some (.ok R) ∧ R.finish = some out ∧
      ∀ corr : ℕ → Bytes → D × D, (∀ part < n, Tells corr files (recOut out) part) →
        detect_wm corr (recOut out) (padBitstring (Zr_to_bs R_sk)) = (0, true) ∧
          ∑ i ∈ Finset.range n, 2 ^ i * detectedBit corr (recOut out) i = R_sk.val

variable {L : CryptoLib G} {public_g : G} {R_sk a : Zr r} {new_b : ℕ → Zr r}
  {enc : ℕ → EncryptedReturn} {files : ℕ → ℕ → Bytes} {n len : ℕ}

theorem recOut_map_range {f : ℕ → Bytes} {i : ℕ} (hi : i < n) :
    recOut ((List.range n).map f) i = f i := by
  unfold recOut
  rw [List.getD_eq_getElem?_getD, List.getElem?_map, List.getElem?_range hi, Option.map_some,
    Option.getD_some]

omit [DecidableLT D] in
/-- Parts that are cut off are none of the files, and any correlations are right
for them. -/
theorem tells_of_cut (hlen : ∀ part < n, ∀ j < 2, (files part j).length = len)
    {rec_out : ℕ → Bytes} {part : ℕ} (hpart : part < n) (hcut : (rec_out part).length ≠ len)
    (corr : ℕ → Bytes → D × D) : Tells corr files rec_out part := by
  constructor
  · intro hone
    exact absurd (by rw [hone, hlen part hpart 1 (by omega)]) hcut
  · intro hzero
    exact absurd (by rw [hzero, hlen part hpart 0 (by omega)]) hcut

/-- The correlations that show the wrong bit for every part. -/
theorem exists_wrong (hlt : ∃ x y : D, x < y) (hge : ∃ x y : D, ¬ x < y) {c : ℕ} (hc : c < 2) :
    ∃ corr : ℕ → Bytes → D × D, ∀ rec_out i, detectedBit corr rec_out i ≠ c := by
  obtain ⟨x, y, hxy⟩ := hlt
  obtain ⟨u, v, huv⟩ := hge
  obtain rfl | rfl : c = 0 ∨ c = 1 := by omega
  · refine ⟨fun _ _ => (x, y), fun rec_out i => ?_⟩
    unfold detectedBit
    rw [if_pos hxy]
    exact Nat.one_ne_zero
  · refine ⟨fun _ _ => (u, v), fun rec_out i => ?_⟩
    unfold detectedBit
    rw [if_neg huv]
    exact Nat.zero_ne_one

/-- In a run that reads back the key an `int` held the length: otherwise what is
received is cut off, and shows nothing. -/
theorem length_of_readsKey (hD : ∃ x y : D, x < y) (hD' : ∃ x y : D, ¬ x < y)
    (hn : (padBitstring (Zr_to_bs R_sk)).length = n)
    (hlen : ∀ part < n, ∀ j < 2, (files part j).length = len)
    (h : ReadsKey D L public_g R_sk a new_b enc files n) : len < 2 ^ 31 := by
  obtain ⟨R, out, hmain, hfinish, hread⟩ := h
  have hn0 : 0 < n := hn ▸ bits_pos R_sk
  rw [finish_of_main hn hmain] at hfinish
  obtain rfl := Option.some.inj hfinish
  by_contra hge
  have hcut : ∀ part < n, (recOut ((List.range n).map R.result) part).length ≠ len := by
    intro part hpart hsame
    have hlength := length_of_plain (transferred_of_main hn hmain hpart).text
    rw [(fields_of_main hn hmain).2.2, hlen (n - 1) (by omega) 1 (by omega)] at hlength
    rw [recOut_map_range hpart] at hsame
    rw [hsame] at hlength
    exact hge (intOfSize_eq_iff.mp hlength.symm)
  obtain ⟨corr, hwrong⟩ := exists_wrong hD hD' (Numeral.digit_lt (by omega : 0 < 2) R_sk.val 0)
  have hzero := (hread corr fun part hpart => tells_of_cut hlen hpart (hcut part hpart) corr).1
  have hbits := (errorcount_eq_zero_iff R_sk hn).mp (congrArg Prod.fst hzero)
  exact hwrong _ 0 (hbits 0 hn0)

theorem readsKey_of_readable (hn : (padBitstring (Zr_to_bs R_sk)).length = n)
    (hlen : ∀ part < n, ∀ j < 2, (files part j).length = len) (hlt : len < 2 ^ 31)
    (hload : Readable R_sk enc n) : ReadsKey D L public_g R_sk a new_b enc files n := by
  obtain ⟨R, hmain, -, hfinish⟩ := main_honest L public_g a new_b hn hlen hlt hload
  refine ⟨R, _, hmain, hfinish, ?_⟩
  intro corr htells
  apply detect_wm_of_bits R_sk hn
  intro i hi
  exact detectedBit_of_tells (htells i hi) (Numeral.digit_lt (by omega) _ _) (recOut_map_range hi)

variable (L public_g R_sk a new_b enc) in
/-- **When detection reads back the key** of an honest run: exactly if an `int`
holds the length of the files and the load of `decryptE` succeeds in every part.
After any run that completes, and for any correlations, it counts the parts whose
detected bit is not the bit that the recipient used. The numbers in `D` only have
to be of different sizes. -/
theorem detection_reads_key_iff (hD : ∃ x y : D, x < y) (hD' : ∃ x y : D, ¬ x < y)
    (hn : (padBitstring (Zr_to_bs R_sk)).length = n) :
    (∀ (files : ℕ → ℕ → Bytes) (len : ℕ), (∀ part < n, ∀ j < 2, (files part j).length = len) →
      (ReadsKey D L public_g R_sk a new_b enc files n ↔
        len < 2 ^ 31 ∧ Readable R_sk enc n)) ∧
    ∀ (files : ℕ → ℕ → Bytes) (R : Recipient r G) (out : List Bytes),
      main L public_g R_sk a new_b enc files = some (.ok R) → R.finish = some out →
      ∀ corr : ℕ → Bytes → D × D,
        (detect_wm corr (recOut out) (padBitstring (Zr_to_bs R_sk))).1 =
          (List.range n).countP fun i =>
            decide (detectedBit corr (recOut out) i ≠ (R.new_OT_Recipient i).bit_c) := by
  constructor
  · intro files len hlen
    constructor
    · intro h
      refine ⟨length_of_readsKey hD hD' hn hlen h, ?_⟩
      obtain ⟨R, out, hmain, -, -⟩ := h
      intro part hpart
      exact (transferred_of_main hn hmain hpart).load
    · rintro ⟨hlt, hload⟩
      exact readsKey_of_readable hn hlen hlt hload
  · intro files R out hmain _ corr
    obtain ⟨hbitstring, hsec, -⟩ := fields_of_main hn hmain
    rw [← hbitstring, ← hsec]
    exact errorcount_eq (by rw [hsec, hbitstring, hn]) corr (recOut out)

end Run

/-- A key over the scalars modulo 3, with parts of the one byte that they carry. -/
def ReadsSmall (R_sk a : Zr 3) (iv : ℕ → Option ℕ) : Prop :=
  ReadsKey ℕ digestLib (Multiplicative.ofAdd (1 : ZMod 3)) R_sk a (fun i => (i : Zr 3))
    (fun _ => unsetReturn iv) (fun _ j => [UInt8.ofNat j]) 256

theorem length_bits_two : (padBitstring (Zr_to_bs (2 : Zr 3))).length = 256 :=
  length_mainBits 2 (lt_of_lt_of_le (ZMod.val_lt (2 : Zr 3)) (by norm_num))

theorem detection_reads_two : ReadsSmall 2 2 fun _ => some 0 :=
  ((detection_reads_key_iff (D := ℕ) digestLib (Multiplicative.ofAdd (1 : ZMod 3)) 2 2
    (fun i => (i : Zr 3)) (fun _ => unsetReturn fun _ => some 0) ⟨0, 1, by decide⟩
    ⟨0, 0, by decide⟩ length_bits_two).1 (fun _ j => [UInt8.ofNat j]) 1 fun _ _ _ _ => rfl).mpr
    ⟨by decide, fun _ _ => Option.some_ne_none 0⟩

/-- **Detection that is never reached**: the pointer leads to nothing that can be
read. -/
theorem detection_not_reached : ¬ ReadsSmall 2 2 fun _ => none := by
  rintro ⟨R, out, hmain, -, -⟩
  exact (transferred_of_main length_bits_two hmain (by decide : 0 < 256)).load rfl

end Detector

end Pepal.Images

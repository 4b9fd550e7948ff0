import Pepal.Images.KeyCheck
import Pepal.Lib.Fallible

/-!
# The image program, start to end

`main` puts the pieces together: the watermarked parts are read, the key
becomes the bit string, the parties exchange `A` and the `B`s, the sender
checks the key and the parts are transferred. An honest run never stops at
the check. It completes where every part gets through, and leaves in
`result[part]` the part carrying bit `part` of the key.
-/

namespace Pepal.Images

open PrimeOrder ObliviousTransfer

variable {r : ℕ} {G : Type*} [PrimeOrderGroup r G]

omit [PrimeOrderGroup r G] in
/-- The reading loop stores every file, and the length of the last one. -/
theorem watermark_eq (s : Sender r G) (files : ℕ → ℕ → Bytes) :
    s.watermark files =
      { s with
        message := fun i =>
          if i < s.sec_par then
            Function.update (Function.update (s.message i) 0 (files i 0)) 1 (files i 1)
          else s.message i
        message_len :=
          if s.sec_par = 0 then s.message_len
          else intOfSize (files (s.sec_par - 1) 1).length } := by
  have key : ∀ k, (List.range k).foldl (fun s i =>
      (List.range 2).foldl (fun s j =>
        { s with
          message := Function.update s.message i
            (Function.update (s.message i) j (files i j))
          message_len := intOfSize (files i j).length }) s) s =
      { s with
        message := fun i =>
          if i < k then
            Function.update (Function.update (s.message i) 0 (files i 0)) 1 (files i 1)
          else s.message i
        message_len :=
          if k = 0 then s.message_len else intOfSize (files (k - 1) 1).length } := by
    intro k
    induction k with
    | zero => simp
    | succ k ih =>
        rw [List.range_succ (n := k), List.foldl_append, ih, List.foldl_cons, List.foldl_nil]
        have h2 : List.range 2 = [0, 1] := rfl
        rw [h2]
        simp only [List.foldl_cons, List.foldl_nil, Nat.succ_ne_zero, if_false,
          Nat.add_sub_cancel]
        congr 1
        funext i
        by_cases hik : i = k
        · subst hik
          simp
        · have hiff : i < k + 1 ↔ i < k := by omega
          simp [hik, hiff]
  exact key s.sec_par

omit [PrimeOrderGroup r G] in
theorem bits_pos (R_sk : Zr r) : 0 < (padBitstring (Zr_to_bs R_sk)).length := by
  rw [length_padBitstring]
  omega

/-- The sender in `main`, before `initA`. -/
def readSender (G : Type*) [PrimeOrderGroup r G] (n : ℕ) (files : ℕ → ℕ → Bytes) : Sender r G :=
  Sender.watermark
    { sec_par := n, message_len := 0, message := fun _ _ => [], a := 0, A := 1 } files

/-- The recipient in `main`, before `init_x`. -/
def answeringRecipient (public_g : G) (R_sk a : Zr r) (new_b : ℕ → Zr r) (n : ℕ)
    (message_len : ℤ) : Recipient r G :=
  (Recipient.mk' G R_sk (padBitstring (Zr_to_bs R_sk)) n message_len).initB_arr
    (gpow public_g a) public_g new_b

theorem message_readSender {n part j : ℕ} (files : ℕ → ℕ → Bytes) (hpart : part < n) (hj : j < 2) :
    (readSender (r := r) G n files).message part j = files part j := by
  unfold readSender
  rw [watermark_eq]
  dsimp only
  rw [if_pos hpart]
  obtain rfl | rfl : j = 0 ∨ j = 1 := by omega
  · simp
  · simp

theorem message_len_readSender {n : ℕ} (files : ℕ → ℕ → Bytes) (hn : 0 < n) :
    (readSender (r := r) G n files).message_len = intOfSize (files (n - 1) 1).length := by
  unfold readSender
  rw [watermark_eq]
  exact if_neg hn.ne'

/-- What has to go well in the transfer of a part: both files can be read over the
one length, and so can the entry of `iv` that goes with the bit. The text is what
is read of the file that carries it. -/
structure Transferred (R_sk : Zr r) (enc : ℕ → EncryptedReturn) (files : ℕ → ℕ → Bytes)
    (m_len : ℤ) (part : ℕ) (text : Bytes) : Prop where
  plain : ∀ j < 2, plain (files part j) m_len ≠ none
  load : (enc part).iv (Numeral.digit 2 R_sk.val part) ≠ none
  text : Images.plain (files part (Numeral.digit 2 R_sk.val part)) m_len = some text

/-- Every part can load the entry of `iv` that goes with its bit of the key. -/
def Readable (R_sk : Zr r) (enc : ℕ → EncryptedReturn) (n : ℕ) : Prop :=
  ∀ part < n, (enc part).iv (Numeral.digit 2 R_sk.val part) ≠ none

section Main

variable [DecidableEq G] {L : CryptoLib G} {public_g : G} {R_sk a : Zr r} {new_b : ℕ → Zr r}
  {enc : ℕ → EncryptedReturn} {files : ℕ → ℕ → Bytes} {n : ℕ}

/-- `main` with its pieces named: an honest run passes the check, so that it is as
good as the transfer of its parts. -/
theorem main_eq (hn : (padBitstring (Zr_to_bs R_sk)).length = n) :
    main L public_g R_sk a new_b enc files =
      (otLoop L ((readSender G n files).initA public_g a)
        (answeringRecipient public_g R_sk a new_b n
          (readSender (r := r) G n files).message_len).init_x enc (List.range n)).map .ok := by
  subst hn
  have hsec : (readSender (r := r) G (padBitstring (Zr_to_bs R_sk)).length files).sec_par =
      (padBitstring (Zr_to_bs R_sk)).length := by
    unfold readSender
    rw [watermark_eq]
  exact if_pos (skVerified_main _ hsec a R_sk rfl _ new_b)

omit [DecidableEq G] in
/-- The transfer of a part in `main`. -/
theorem ot_main_eq_some_iff (hn : (padBitstring (Zr_to_bs R_sk)).length = n) {part : ℕ}
    (hpart : part < n) {m : Bytes} :
    ot L (((readSender G n files).initA public_g a).new_OT_Sender part)
        ((answeringRecipient public_g R_sk a new_b n
          (readSender (r := r) G n files).message_len).init_x.new_OT_Recipient part)
        (enc part) = some m ↔
      Transferred R_sk enc files (intOfSize (files (n - 1) 1).length) part m := by
  have hbits : ∀ bit ∈ padBitstring (Zr_to_bs R_sk), bit = 0 ∨ bit = 1 := by
    intro bit hbit
    have := mainBits_lt_two R_sk bit hbit
    omega
  have hc2 : Numeral.digit 2 R_sk.val part < 2 := Numeral.digit_lt (by omega) _ _
  have hlen : (readSender (r := r) G n files).message_len =
      intOfSize (files (n - 1) 1).length :=
    message_len_readSender files (Nat.zero_lt_of_lt hpart)
  have hlt : (readSender (r := r) G n files).message_len < 2 ^ 31 := by
    rw [hlen]
    exact intOfSize_lt _
  have hmessage : ∀ j < 2, (readSender (r := r) G n files).message part j = files part j :=
    fun j hj => message_readSender files hpart hj
  have hbit := mainBits_getElem? R_sk hn hpart
  subst hn
  have honest := honest_ot_eq_some_iff (L := L) public_g a R_sk new_b
    (readSender (r := r) G (padBitstring (Zr_to_bs R_sk)).length files).message enc hbits hpart
    hbit hlt (m := m)
  refine Iff.trans honest ?_
  rw [hlen, hmessage _ hc2]
  constructor
  · rintro ⟨hplain, hload, htext⟩
    refine ⟨?_, hload, htext⟩
    intro j hj
    rw [← hmessage j hj]
    exact hplain j hj
  · rintro ⟨hplain, hload, htext⟩
    refine ⟨?_, hload, htext⟩
    intro j hj
    rw [hmessage j hj]
    exact hplain j hj

/-- When `main` completes, and with what. -/
theorem main_eq_ok_iff (hn : (padBitstring (Zr_to_bs R_sk)).length = n) {R' : Recipient r G} :
    main L public_g R_sk a new_b enc files = some (.ok R') ↔
      ∃ result : ℕ → Bytes,
        (∀ part < n, Transferred R_sk enc files (intOfSize (files (n - 1) 1).length) part
          (result part)) ∧
        R' = { (answeringRecipient public_g R_sk a new_b n
            (intOfSize (files (n - 1) 1).length)).init_x with
          result := fun part => if part < n then result part else [] } := by
  have hlen : (readSender (r := r) G n files).message_len =
      intOfSize (files (n - 1) 1).length :=
    message_len_readSender files (hn ▸ bits_pos R_sk)
  have hempty : (answeringRecipient public_g R_sk a new_b n
      (intOfSize (files (n - 1) 1).length)).init_x.result = fun _ => [] := by
    unfold answeringRecipient
    rw [initB_arr_main _ _ R_sk hn]
    rfl
  have hparts : ∀ result : ℕ → Bytes, (∀ part ∈ List.range n,
      ot L (((readSender G n files).initA public_g a).new_OT_Sender part)
        ((answeringRecipient public_g R_sk a new_b n
          (readSender (r := r) G n files).message_len).init_x.new_OT_Recipient part)
        (enc part) = some (result part)) ↔
      ∀ part < n, Transferred R_sk enc files (intOfSize (files (n - 1) 1).length) part
        (result part) := by
    intro result
    constructor
    · intro h part hpart
      exact (ot_main_eq_some_iff hn hpart).mp (h part (List.mem_range.mpr hpart))
    · intro h part hpart
      have hlt := List.mem_range.mp hpart
      exact (ot_main_eq_some_iff hn hlt).mpr (h part hlt)
  rw [main_eq hn, Option.map_eq_some_iff]
  constructor
  · rintro ⟨R1, hloop, hok⟩
    obtain rfl := Except.ok.inj hok
    obtain ⟨result, hresult, rfl⟩ := otLoop_eq_some_iff.mp hloop
    refine ⟨result, (hparts result).mp hresult, ?_⟩
    simp only [hlen, hempty, List.mem_range]
  · rintro ⟨result, hresult, rfl⟩
    refine ⟨_, otLoop_eq_some_iff.mpr ⟨result, (hparts result).mpr hresult, rfl⟩, ?_⟩
    simp only [hlen, hempty, List.mem_range]

/-- After a run that completes the recipient holds the bit string and one length
for all parts. -/
theorem fields_of_main (hn : (padBitstring (Zr_to_bs R_sk)).length = n) {R : Recipient r G}
    (h : main L public_g R_sk a new_b enc files = some (.ok R)) :
    R.bitstring = padBitstring (Zr_to_bs R_sk) ∧ R.sec_par = n ∧
      R.message_len = intOfSize (files (n - 1) 1).length := by
  obtain ⟨result, -, rfl⟩ := (main_eq_ok_iff hn).mp h
  unfold answeringRecipient
  rw [initB_arr_main _ _ R_sk hn]
  exact ⟨rfl, rfl, rfl⟩

theorem transferred_of_main (hn : (padBitstring (Zr_to_bs R_sk)).length = n) {R : Recipient r G}
    (h : main L public_g R_sk a new_b enc files = some (.ok R)) {part : ℕ} (hpart : part < n) :
    Transferred R_sk enc files R.message_len part (R.result part) := by
  rw [(fields_of_main hn h).2.2]
  obtain ⟨result, hresult, rfl⟩ := (main_eq_ok_iff hn).mp h
  dsimp only
  rw [if_pos hpart]
  exact hresult part hpart

/-- What `finish` then writes. -/
theorem finish_of_main (hn : (padBitstring (Zr_to_bs R_sk)).length = n) {R : Recipient r G}
    (h : main L public_g R_sk a new_b enc files = some (.ok R)) :
    R.finish = some ((List.range n).map R.result) := by
  unfold Recipient.finish
  rw [(fields_of_main hn h).2.1]
  refine Fallible.mapM_of_some fun part hpart => ?_
  -- the part has the announced length, so that the loop reads all of it
  have hlength := length_of_plain (transferred_of_main hn h (List.mem_range.mp hpart)).text
  rw [← hlength, Int.toNat_natCast, readBuffer_length]

/-- **An honest run of the image program completes** when all files have one
length, which an `int` holds, and all loads succeed; and the recipient ends up
with the parts that carry the bits of its key. -/
theorem main_honest (L : CryptoLib G) (public_g : G) (a : Zr r) (new_b : ℕ → Zr r)
    (hn : (padBitstring (Zr_to_bs R_sk)).length = n) {len : ℕ}
    (hlen : ∀ part < n, ∀ j < 2, (files part j).length = len) (hlt : len < 2 ^ 31)
    (hload : Readable R_sk enc n) :
    ∃ R : Recipient r G, main L public_g R_sk a new_b enc files = some (.ok R) ∧
      R.message_len = len ∧
      R.finish =
        some ((List.range n).map fun part => files part (Numeral.digit 2 R_sk.val part)) := by
  have hn0 : 0 < n := hn ▸ bits_pos R_sk
  have hm_len : intOfSize (files (n - 1) 1).length = len := by
    rw [hlen (n - 1) (by omega) 1 (by omega)]
    exact intOfSize_eq_iff.mpr hlt
  have hplain : ∀ part < n, ∀ j < 2, plain (files part j) len = some (files part j) := by
    intro part hpart j hj
    rw [← hlen part hpart j hj, plain_length]
  have hparts : ∀ part < n,
      Transferred R_sk enc files (intOfSize (files (n - 1) 1).length) part
        (files part (Numeral.digit 2 R_sk.val part)) := by
    intro part hpart
    rw [hm_len]
    refine ⟨?_, hload part hpart, hplain part hpart _ (Numeral.digit_lt (by omega) _ _)⟩
    intro j hj
    rw [hplain part hpart j hj]
    exact Option.some_ne_none _
  have hmain : main L public_g R_sk a new_b enc files = some (.ok _) :=
    (main_eq_ok_iff hn).mpr ⟨_, hparts, rfl⟩
  refine ⟨_, hmain, (fields_of_main hn hmain).2.2.trans hm_len, ?_⟩
  rw [finish_of_main hn hmain]
  refine congrArg some (List.map_congr_left fun part hpart => ?_)
  exact if_pos (List.mem_range.mp hpart)

end Main

end Pepal.Images

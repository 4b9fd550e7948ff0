import Pepal.Lib.ObliviousTransfer
import Pepal.Images.Parties

/-!
# The image transfer delivers the chosen parts

One lemma per loop first (`initB_arr_eq`, `otLoop_eq_some_iff`, the two-entry
loops of `getEncrypted` and `makeKeys`), then one transfer (`ot_eq_some_iff`),
then the whole loop. The key formulas of the two C++ classes are those of
`ObliviousTransfer`, so agreement and separation of the keys come from there.
What the keys do not decide is whether the program gets to the end at all, with
the length in an `int` and a pointer that is never set.
-/

namespace Pepal.Images

open PrimeOrder ObliviousTransfer

variable {r : ℕ} {G : Type*} [PrimeOrderGroup r G]

/-! ## One transfer -/

/-- It returns if both messages can be read over the length of the sender. -/
theorem getEncrypted_eq_some_iff {L : CryptoLib G} {s : OT_Sender r G} {B : G}
    {ret ret' : EncryptedReturn} :
    s.getEncrypted L B ret = some ret' ↔
      ∃ text : ℕ → Bytes, (∀ i < 2, plain (s.message i) s.message_len = some (text i)) ∧
        ret' =
          { message_len := intOfSize (text 1).length
            ciphertext := Function.update
              (Function.update ret.ciphertext 0 (aesCtr L (sha256_G1 L (s.k B 0)) (text 0)))
              1 (aesCtr L (sha256_G1 L (s.k B 1)) (text 1))
            iv := ret.iv } := by
  have hrange : List.range 2 = [0, 1] := rfl
  unfold OT_Sender.getEncrypted encrypt_new
  simp only [hrange, List.foldlM_cons, List.foldlM_nil, Option.bind_eq_bind, Option.bind_map,
    Option.pure_def, Function.comp_def, Option.bind_eq_some_iff, length_aesCtr, Option.some.injEq]
  constructor
  · rintro ⟨_, ⟨text, htext, rfl⟩, _, ⟨text', htext', rfl⟩, rfl⟩
    refine ⟨fun i => if i = 0 then text else text', ?_, rfl⟩
    intro i hi
    obtain rfl | rfl : i = 0 ∨ i = 1 := by omega
    · exact htext
    · exact htext'
  · rintro ⟨text, htext, rfl⟩
    exact ⟨_, ⟨_, htext 0 (by omega), rfl⟩, _, ⟨_, htext 1 (by omega), rfl⟩, rfl⟩

theorem getEncrypted_ciphertext {L : CryptoLib G} {s : OT_Sender r G} {B : G}
    {ret ret' : EncryptedReturn} (h : s.getEncrypted L B ret = some ret') {i : ℕ} (hi : i < 2) :
    ∃ text, plain (s.message i) s.message_len = some text ∧
      ret'.ciphertext i = aesCtr L (sha256_G1 L (s.k B i)) text := by
  obtain ⟨text, htext, rfl⟩ := getEncrypted_eq_some_iff.mp h
  refine ⟨text i, htext i hi, ?_⟩
  obtain rfl | rfl : i = 0 ∨ i = 1 := by omega
  · rfl
  · rfl

theorem makeKeys_key (L : CryptoLib G) (R : OT_Recipient r G) (A : G) {i : ℕ} (hi : i < 2) :
    (R.makeKeys L A).key i = sha256_G1 L (R.k A) := by
  obtain rfl | rfl : i = 0 ∨ i = 1 := by omega
  · rfl
  · rfl

theorem decryptE_eq (L : CryptoLib G) (R : OT_Recipient r G) (A : G) (ert : EncryptedReturn)
    (hc : R.bit_c < 2) :
    (R.makeKeys L A).decryptE L ert = (ert.iv R.bit_c).bind fun iv =>
      decrypt_new L (sha256_G1 L (R.k A)) iv (ert.ciphertext R.bit_c) ert.message_len := by
  have hbit : (R.makeKeys L A).bit_c = R.bit_c := rfl
  unfold OT_Recipient.decryptE
  rw [hbit, makeKeys_key L R A (by omega), makeKeys_key L R A (by omega)]
  obtain h | h : R.bit_c = 0 ∨ R.bit_c = 1 := by omega
  · rw [if_pos h, h]
    rfl
  · rw [if_neg (by omega), h]
    rfl

/-- When the recipient's element is the one keying the ciphertext it opens, one
transfer gives it the bytes that were encrypted. It does not get so far where a
message is shorter than the sender's length, that length is below 0, or `iv` does
not lead to something that can be loaded. -/
theorem ot_eq_some_iff {L : CryptoLib G} {s : OT_Sender r G} {R : OT_Recipient r G}
    {enc : EncryptedReturn} {m : Bytes} (hc : R.bit_c < 2) (hkey : R.k s.A = s.k R.B R.bit_c)
    (hlen : s.message_len < 2 ^ 31) :
    ot L s R enc = some m ↔
      (∀ j < 2, plain (s.message j) s.message_len ≠ none) ∧ enc.iv R.bit_c ≠ none ∧
        plain (s.message R.bit_c) s.message_len = some m := by
  -- both texts have the announced length, so what is decrypted fits into the buffer
  have hdecrypt : ∀ text : ℕ → Bytes,
      (∀ i < 2, plain (s.message i) s.message_len = some (text i)) → ∀ iv,
      decrypt_new L (sha256_G1 L (s.k R.B R.bit_c)) iv
        (Function.update
          (Function.update enc.ciphertext 0 (aesCtr L (sha256_G1 L (s.k R.B 0)) (text 0)))
          1 (aesCtr L (sha256_G1 L (s.k R.B 1)) (text 1)) R.bit_c)
        (intOfSize (text 1).length) = some (text R.bit_c) := by
    intro text htext iv
    have hone := length_of_plain (htext 1 (by omega))
    have hbit := length_of_plain (htext R.bit_c hc)
    have hsize : intOfSize (text 1).length = (text R.bit_c).length := by
      rw [hbit, ← hone]
      exact intOfSize_eq_iff.mpr (by omega)
    have hcipher : Function.update
        (Function.update enc.ciphertext 0 (aesCtr L (sha256_G1 L (s.k R.B 0)) (text 0)))
        1 (aesCtr L (sha256_G1 L (s.k R.B 1)) (text 1)) R.bit_c =
          aesCtr L (sha256_G1 L (s.k R.B R.bit_c)) (text R.bit_c) := by
      obtain h | h : R.bit_c = 0 ∨ R.bit_c = 1 := by omega
      · rw [h]
        rfl
      · rw [h]
        rfl
    rw [hsize, hcipher, decrypt_encrypt]
  unfold ot
  rw [Option.bind_eq_bind, Option.bind_eq_some_iff]
  constructor
  · rintro ⟨enc', hget, hdec⟩
    obtain ⟨text, htext, rfl⟩ := getEncrypted_eq_some_iff.mp hget
    rw [decryptE_eq L R s.A _ hc, hkey, Option.bind_eq_some_iff] at hdec
    obtain ⟨iv, hiv, hdec⟩ := hdec
    rw [hdecrypt text htext] at hdec
    refine ⟨?_, ?_, ?_⟩
    · intro j hj
      rw [htext j hj]
      exact Option.some_ne_none _
    · rw [show enc.iv R.bit_c = some iv from hiv]
      exact Option.some_ne_none _
    · rw [htext R.bit_c hc, hdec]
  · rintro ⟨hplain, hload, hm⟩
    obtain ⟨iv, hiv⟩ := Option.ne_none_iff_exists'.mp hload
    choose text htext using fun (j : ℕ) (hj : j < 2) => Option.ne_none_iff_exists'.mp (hplain j hj)
    have htexts : ∀ i < 2, plain (s.message i) s.message_len =
        some (if h : i < 2 then text i h else []) := by
      intro i hi
      rw [dif_pos hi]
      exact htext i hi
    refine ⟨_, getEncrypted_eq_some_iff.mpr ⟨_, htexts, rfl⟩, ?_⟩
    rw [decryptE_eq L R s.A _ hc, hkey]
    dsimp only
    rw [hiv, Option.bind_some, hdecrypt _ htexts, ← htexts R.bit_c hc, hm]

theorem k_eq_senderKey (s : OT_Sender r G) (B : G) {i : ℕ} (hi : i < 2) :
    s.k B i = senderKey s.A s.a B i := by
  unfold OT_Sender.k senderKey
  obtain rfl | rfl : i = 0 ∨ i = 1 := by omega
  · simp
  · simp

/-! ## The loops of the recipient -/

/-- The element `initB_arr` computes for a choice bit. -/
theorem newB_eq_blind (A g : G) {c : ℕ} (hc : c < 2) (b : Zr r) :
    (if c = 0 then gpow g b else A * gpow g b) = blind A g c b := by
  unfold blind
  obtain rfl | rfl : c = 0 ∨ c = 1 := by omega
  · simp
  · simp

/-- The choice bit of a part: bit strings are most significant bit first. -/
def Recipient.choice (R : Recipient r G) (part : ℕ) : ℕ :=
  R.bitstring.getD (R.sec_par - 1 - part) 0

theorem initB_arr_eq (R : Recipient r G) (A g : G) (new_b : ℕ → Zr r)
    (hbits : ∀ bit ∈ R.bitstring, bit < 2) :
    R.initB_arr A g new_b =
      { R with
        b_arr := R.b_arr ++ (List.range R.sec_par).map new_b
        B_arr := R.B_arr ++
          (List.range R.sec_par).map fun i => blind A g (R.choice i) (new_b i) } := by
  have hchoice : ∀ i, R.choice i < 2 := by
    intro i
    unfold Recipient.choice
    rw [List.getD_eq_getElem?_getD]
    cases hget : R.bitstring[R.sec_par - 1 - i]? with
    | none => simp
    | some bit => exact hbits bit (List.mem_of_getElem? hget)
  have key : ∀ k, (List.range k).foldl (Recipient.initB_round A g new_b) R =
      { R with
        b_arr := R.b_arr ++ (List.range k).map new_b
        B_arr := R.B_arr ++
          (List.range k).map fun i => blind A g (R.choice i) (new_b i) } := by
    intro k
    induction k with
    | zero => simp
    | succ k ih =>
        rw [List.range_succ, List.foldl_append, ih]
        simp only [List.foldl_cons, List.foldl_nil, List.map_append, List.map_cons,
          List.map_nil, ← List.append_assoc, ← newB_eq_blind A g (hchoice k)]
        rfl
  exact key R.sec_par

/-- The loop gets through if every transfer does, and stores what they give. -/
theorem otLoop_eq_some_iff {L : CryptoLib G} {s : Sender r G} {R R' : Recipient r G}
    {enc : ℕ → EncryptedReturn} {parts : List ℕ} :
    otLoop L s R enc parts = some R' ↔
      ∃ result : ℕ → Bytes,
        (∀ part ∈ parts,
          ot L (s.new_OT_Sender part) (R.new_OT_Recipient part) (enc part) = some (result part)) ∧
        R' = { R with result := fun part =>
          if part ∈ parts then result part else R.result part } := by
  unfold otLoop
  induction parts generalizing R with
  | nil => simp [eq_comm]
  | cons p rest ih =>
      rw [List.foldlM_cons, Option.bind_eq_bind, Option.bind_eq_some_iff]
      constructor
      · rintro ⟨R1, hfirst, hrest⟩
        obtain ⟨m, hm, rfl⟩ := Option.map_eq_some_iff.mp hfirst
        obtain ⟨result, hresult, rfl⟩ := ih.mp hrest
        -- a part that comes again later is stored again
        refine ⟨fun part => if part ∈ rest then result part else m, ?_, ?_⟩
        · intro part hpart
          dsimp only
          by_cases hin : part ∈ rest
          · rw [if_pos hin]
            exact hresult part hin
          · obtain rfl : part = p := (List.mem_cons.mp hpart).resolve_right hin
            rw [if_neg hin]
            exact hm
        · congr 1
          funext part
          by_cases hin : part ∈ rest
          · simp [hin]
          · by_cases hp : part = p
            · subst hp
              simp [hin]
            · simp [hin, hp]
      · rintro ⟨result, hresult, rfl⟩
        refine ⟨_, Option.map_eq_some_iff.mpr ⟨_, hresult p List.mem_cons_self, rfl⟩,
          ih.mpr ⟨result, ?_, ?_⟩⟩
        · intro part hpart
          exact hresult part (List.mem_cons_of_mem p hpart)
        · congr 1
          funext part
          by_cases hin : part ∈ rest
          · simp [hin]
          · by_cases hp : part = p
            · subst hp
              simp [hin]
            · simp [hin, hp]

theorem ot_of_otLoop {L : CryptoLib G} {s : Sender r G} {R R' : Recipient r G}
    {enc : ℕ → EncryptedReturn} {parts : List ℕ} (h : otLoop L s R enc parts = some R') {part : ℕ}
    (hpart : part ∈ parts) :
    ot L (s.new_OT_Sender part) (R.new_OT_Recipient part) (enc part) = some (R'.result part) := by
  obtain ⟨result, hresult, rfl⟩ := otLoop_eq_some_iff.mp h
  dsimp only
  rw [if_pos hpart, hresult part hpart]

/-- Where every transfer gets through, so does the loop. -/
theorem otLoop_of_ot {L : CryptoLib G} {s : Sender r G} {R : Recipient r G}
    {enc : ℕ → EncryptedReturn} {parts : List ℕ} {result : ℕ → Bytes}
    (h : ∀ part ∈ parts,
      ot L (s.new_OT_Sender part) (R.new_OT_Recipient part) (enc part) = some (result part)) :
    ∃ R', otLoop L s R enc parts = some R' ∧ ∀ part ∈ parts, R'.result part = result part := by
  refine ⟨_, otLoop_eq_some_iff.mpr ⟨result, h, rfl⟩, ?_⟩
  intro part hpart
  exact if_pos hpart

/-! ## The whole transfer -/

section Honest

variable (L : CryptoLib G) (public_g : G) (a sk : Zr r) (new_b : ℕ → Zr r)
variable (bitstring : List ℕ) (message : ℕ → ℕ → Bytes) (message_len : ℤ)
variable (enc : ℕ → EncryptedReturn)

/-- The sender after `initA`, holding `message`. -/
def honestSender : Sender r G :=
  Sender.initA
    { sec_par := bitstring.length, message_len := message_len, message := message,
      a := 0, A := 1 } public_g a

/-- The recipient after `initB_arr` against that sender's `A`. -/
def honestRecipient : Recipient r G :=
  (Recipient.mk' G sk bitstring bitstring.length message_len).initB_arr
    (gpow public_g a) public_g new_b

variable {bitstring}

theorem honestRecipient_part (hbits : ∀ bit ∈ bitstring, bit = 0 ∨ bit = 1) {part c : ℕ}
    (hpart : part < bitstring.length)
    (hc : bitstring[bitstring.length - 1 - part]? = some c) :
    (honestRecipient public_g a sk new_b bitstring message_len).new_OT_Recipient part =
      { message_len := message_len, bit_c := c,
        B := blind (gpow public_g a) public_g c (new_b part), b := new_b part,
        key := fun _ => [] } := by
  have hlt : ∀ bit ∈ bitstring, bit < 2 := by
    intro bit hbit
    rcases hbits bit hbit with rfl | rfl <;> omega
  unfold honestRecipient
  rw [initB_arr_eq _ _ _ _ hlt]
  simp [Recipient.new_OT_Recipient, Recipient.mk', Recipient.choice, hpart, hc]

/-- In every part the element the recipient hashes keys the ciphertext it
chose. -/
theorem honest_key_agrees (hbits : ∀ bit ∈ bitstring, bit = 0 ∨ bit = 1) {part c : ℕ}
    (hpart : part < bitstring.length)
    (hc : bitstring[bitstring.length - 1 - part]? = some c) :
    let ot_s := (honestSender public_g a bitstring message message_len).new_OT_Sender part
    let ot_r :=
      (honestRecipient public_g a sk new_b bitstring message_len).new_OT_Recipient part
    ot_r.k ot_s.A = ot_s.k ot_r.B c := by
  intro ot_s ot_r
  have hc2 : c < 2 := by
    rcases hbits c (List.mem_of_getElem? hc) with rfl | rfl <;> omega
  have hr : ot_r = _ :=
    honestRecipient_part public_g a sk new_b message_len hbits hpart hc
  rw [k_eq_senderKey _ _ hc2, hr]
  exact (senderKey_chosen public_g a (new_b part) c).symm

/-- Unless `a` is zero it is not the element keying the other ciphertext. -/
theorem honest_key_separates {public_g : G} (hg : IsGenerator public_g) {a : Zr r} (ha : a ≠ 0)
    (hbits : ∀ bit ∈ bitstring, bit = 0 ∨ bit = 1) {part c : ℕ}
    (hpart : part < bitstring.length)
    (hc : bitstring[bitstring.length - 1 - part]? = some c) :
    let ot_s := (honestSender public_g a bitstring message message_len).new_OT_Sender part
    let ot_r :=
      (honestRecipient public_g a sk new_b bitstring message_len).new_OT_Recipient part
    ot_r.k ot_s.A ≠ ot_s.k ot_r.B (1 - c) := by
  intro ot_s ot_r
  have := order_fact G
  have hr : ot_r = _ :=
    honestRecipient_part public_g a sk new_b message_len hbits hpart hc
  have hbit : (c : Zr r) ≠ ((1 - c : ℕ) : Zr r) := by
    rcases hbits c (List.mem_of_getElem? hc) with rfl | rfl
    · simp
    · simp
  rw [k_eq_senderKey _ _ (by omega), hr]
  exact senderKey_other hg.ne_one ha (new_b part) hbit

/-- A transfer of an honest run. -/
theorem honest_ot_eq_some_iff {L : CryptoLib G} {message_len : ℤ}
    (hbits : ∀ bit ∈ bitstring, bit = 0 ∨ bit = 1) {part c : ℕ}
    (hpart : part < bitstring.length)
    (hc : bitstring[bitstring.length - 1 - part]? = some c) (hlen : message_len < 2 ^ 31)
    {m : Bytes} :
    ot L ((honestSender public_g a bitstring message message_len).new_OT_Sender part)
      ((honestRecipient public_g a sk new_b bitstring message_len).new_OT_Recipient part)
      (enc part) = some m ↔
      (∀ j < 2, plain (message part j) message_len ≠ none) ∧ (enc part).iv c ≠ none ∧
        plain (message part c) message_len = some m := by
  have hc2 : c < 2 := by
    rcases hbits c (List.mem_of_getElem? hc) with rfl | rfl <;> omega
  have hbit : ((honestRecipient public_g a sk new_b bitstring message_len).new_OT_Recipient
      part).bit_c = c :=
    congrArg OT_Recipient.bit_c
      (honestRecipient_part public_g a sk new_b message_len hbits hpart hc)
  have hkey := honest_key_agrees public_g a sk new_b message message_len hbits hpart hc
  rw [← hbit] at hkey
  rw [ot_eq_some_iff (by rw [hbit]; exact hc2) hkey hlen, hbit]
  rfl

/-- What the run promises, when the parts are transferred in this order: it
completes, `result[part]` is the message selected by the bit of weight
`2 ^ part`, and the recipient holds the key of that ciphertext and, unless `a` is
zero, not of the other. -/
structure TransferCorrect (bitstring : List ℕ) (parts : List ℕ) : Prop where
  results : ∃ R, otLoop L (honestSender public_g a bitstring message message_len)
      (honestRecipient public_g a sk new_b bitstring message_len) enc parts = some R ∧
    ∀ part < bitstring.length, ∀ c, bitstring[bitstring.length - 1 - part]? = some c →
      R.result part = message part c
  keys : ∀ part < bitstring.length, ∀ c, bitstring[bitstring.length - 1 - part]? = some c →
    let ot_s := (honestSender public_g a bitstring message message_len).new_OT_Sender part
    let ot_r :=
      (honestRecipient public_g a sk new_b bitstring message_len).new_OT_Recipient part
    ot_r.k ot_s.A = ot_s.k ot_r.B c ∧ (a ≠ 0 → ot_r.k ot_s.A ≠ ot_s.k ot_r.B (1 - c))

variable {L public_g a sk new_b message message_len enc}

/-- In a run that completes every part got past the load through `iv`, and what
is stored is the message as far as the sender's length goes. -/
theorem of_honest_otLoop (hbits : ∀ bit ∈ bitstring, bit = 0 ∨ bit = 1)
    (hlen : message_len < 2 ^ 31) {parts : List ℕ} {R : Recipient r G}
    (h : otLoop L (honestSender public_g a bitstring message message_len)
      (honestRecipient public_g a sk new_b bitstring message_len) enc parts = some R)
    {part c : ℕ} (hmem : part ∈ parts) (hpart : part < bitstring.length)
    (hc : bitstring[bitstring.length - 1 - part]? = some c) :
    (enc part).iv c ≠ none ∧ plain (message part c) message_len = some (R.result part) :=
  ((honest_ot_eq_some_iff public_g a sk new_b message enc hbits hpart hc hlen).mp
    (ot_of_otLoop h hmem)).2

variable {len : ℕ}

/-- Messages of one length, which fits into an `int`, can be read, and a part with
a load that succeeds gets through. -/
theorem honest_ot (hbits : ∀ bit ∈ bitstring, bit = 0 ∨ bit = 1) (hlt : len < 2 ^ 31) {part c : ℕ}
    (hlen : ∀ j < 2, (message part j).length = len) (hpart : part < bitstring.length)
    (hc : bitstring[bitstring.length - 1 - part]? = some c) (hload : (enc part).iv c ≠ none) :
    ot L ((honestSender public_g a bitstring message (intOfSize len)).new_OT_Sender part)
      ((honestRecipient public_g a sk new_b bitstring (intOfSize len)).new_OT_Recipient part)
      (enc part) = some (message part c) := by
  have hc2 : c < 2 := by
    rcases hbits c (List.mem_of_getElem? hc) with rfl | rfl <;> omega
  have hplain : ∀ j < 2, plain (message part j) (intOfSize len) = some (message part j) := by
    intro j hj
    rw [intOfSize_eq_iff.mpr hlt, ← hlen j hj, plain_length]
  rw [honest_ot_eq_some_iff public_g a sk new_b message enc hbits hpart hc (intOfSize_lt len)]
  refine ⟨?_, hload, hplain c hc2⟩
  intro j hj
  rw [hplain j hj]
  exact Option.some_ne_none _

variable (L public_g a sk new_b) in
/-- A run whose loads all succeed completes. -/
theorem honest_otLoop (hbits : ∀ bit ∈ bitstring, bit = 0 ∨ bit = 1)
    (hlen : ∀ part < bitstring.length, ∀ j < 2, (message part j).length = len)
    {parts : List ℕ} (hparts : ∀ part ∈ parts, part < bitstring.length)
    (hload : ∀ part < bitstring.length, len < 2 ^ 31 ∧
      ∀ c, bitstring[bitstring.length - 1 - part]? = some c → (enc part).iv c ≠ none) :
    ∃ R, otLoop L (honestSender public_g a bitstring message (intOfSize len))
        (honestRecipient public_g a sk new_b bitstring (intOfSize len)) enc parts = some R ∧
      ∀ part ∈ parts, ∀ c, bitstring[bitstring.length - 1 - part]? = some c →
        R.result part = message part c := by
  have hbit : ∀ part < bitstring.length, bitstring[bitstring.length - 1 - part]? =
      some (bitstring.getD (bitstring.length - 1 - part) 0) := by
    intro part hpart
    have hlt : bitstring.length - 1 - part < bitstring.length := by omega
    rw [List.getD_eq_getElem?_getD, List.getElem?_eq_getElem hlt, Option.getD_some]
  have hots : ∀ part ∈ parts, ot L
      ((honestSender public_g a bitstring message (intOfSize len)).new_OT_Sender part)
      ((honestRecipient public_g a sk new_b bitstring (intOfSize len)).new_OT_Recipient part)
      (enc part) = some (message part (bitstring.getD (bitstring.length - 1 - part) 0)) := by
    intro part hmem
    have hpart := hparts part hmem
    obtain ⟨hlt, hiv⟩ := hload part hpart
    exact honest_ot hbits hlt (hlen part hpart) hpart (hbit part hpart) (hiv _ (hbit part hpart))
  obtain ⟨R, hR, hresult⟩ := otLoop_of_ot hots
  refine ⟨R, hR, ?_⟩
  intro part hmem c hc
  rw [hbit part (hparts part hmem)] at hc
  rw [hresult part hmem, Option.some.inj hc]

/-- **When the image transfer is correct end to end**, whatever order the parts
are transferred in: exactly if in every part the length of the messages fits into
an `int` and `decryptE` can load what it loads through `iv`. -/
theorem transfer_correct_iff (hg : IsGenerator public_g)
    (hbits : ∀ bit ∈ bitstring, bit = 0 ∨ bit = 1)
    (hlen : ∀ part < bitstring.length, ∀ j < 2, (message part j).length = len)
    {parts : List ℕ} (hparts : parts.Perm (List.range bitstring.length)) :
    TransferCorrect L public_g a sk new_b message (intOfSize len) enc bitstring parts ↔
      ∀ part < bitstring.length, len < 2 ^ 31 ∧
        ∀ c, bitstring[bitstring.length - 1 - part]? = some c → (enc part).iv c ≠ none := by
  have hmem : ∀ part, part ∈ parts ↔ part < bitstring.length := by
    intro part
    rw [hparts.mem_iff, List.mem_range]
  constructor
  · rintro ⟨⟨R, hR, hresult⟩, -⟩ part hpart
    have hlt : bitstring.length - 1 - part < bitstring.length := by omega
    have hrun : ∀ c, bitstring[bitstring.length - 1 - part]? = some c → _ := fun c hc =>
      of_honest_otLoop hbits (intOfSize_lt len) hR ((hmem part).mpr hpart) hpart hc
    constructor
    · have hc := List.getElem?_eq_getElem hlt
      have hplain := (hrun _ hc).2
      rw [hresult part hpart _ hc] at hplain
      have hc2 : bitstring[bitstring.length - 1 - part] < 2 := by
        rcases hbits _ (List.getElem_mem hlt) with h | h <;> omega
      have hlength := length_of_plain hplain
      rw [hlen part hpart _ hc2] at hlength
      exact intOfSize_eq_iff.mp hlength.symm
    · intro c hc
      exact (hrun c hc).1
  · intro hload
    obtain ⟨R, hR, hresult⟩ := honest_otLoop L public_g a sk new_b hbits hlen
      (fun part h => (hmem part).mp h) hload
    refine ⟨⟨R, hR, fun part hpart => hresult part ((hmem part).mpr hpart)⟩, ?_⟩
    intro part hpart c hc
    refine ⟨honest_key_agrees public_g a sk new_b message _ hbits hpart hc, ?_⟩
    intro ha
    exact honest_key_separates sk new_b message _ hg ha hbits hpart hc

end Honest

/-! ## Two parts -/

/-- The digest of an element of the group of order 3 begins with its exponent. -/
def digestLib : CryptoLib (Multiplicative (ZMod 3)) where
  toBytesCompressed x := [UInt8.ofNat x.toAdd.val]
  SHA256 data := data ++ List.replicate (32 - data.length) 0
  AES key block := List.zipWith (· ^^^ ·) key block

/-- `enc` before anything is assigned to it, with a pointer through which this can
be loaded. -/
def unsetReturn (iv : ℕ → Option ℕ) : EncryptedReturn where
  message_len := 0
  ciphertext := fun _ => []
  iv := iv

/-- Two parts over the scalars modulo 3, transferred last first: the bit string
`[1, 0]` selects message 0 of part 0 and message 1 of part 1. -/
def TwoParts (a sk : Zr 3) (iv : ℕ → Option ℕ) : Prop :=
  TransferCorrect digestLib (Multiplicative.ofAdd (1 : ZMod 3)) a sk (fun i => (i : Zr 3))
    (fun part j => [UInt8.ofNat part, UInt8.ofNat j]) (intOfSize 2) (fun _ => unsetReturn iv)
    [1, 0] [1, 0]

theorem transfer_correct_two_parts : TwoParts 2 2 fun _ => some 0 := by
  have hg : IsGenerator (Multiplicative.ofAdd (1 : ZMod 3)) := isGenerator_of_ne_one (by decide)
  have hbits : ∀ bit ∈ [1, 0], bit = 0 ∨ bit = 1 := by decide
  have hlen : ∀ part < [1, 0].length, ∀ j < 2, [UInt8.ofNat part, UInt8.ofNat j].length = 2 :=
    fun _ _ _ _ => rfl
  have hperm : [1, 0].Perm (List.range [1, 0].length) := by decide
  exact (transfer_correct_iff hg hbits hlen hperm).mpr fun _ _ =>
    ⟨by decide, fun _ _ => Option.some_ne_none 0⟩

/-- **A pointer that nothing sets**: where it leads to nothing that can be read, the
first transfer does not get through. -/
theorem transfer_unset_iv : ¬ TwoParts 2 2 fun _ => none := by
  rintro ⟨⟨R, hR, -⟩, -⟩
  have hbits : ∀ bit ∈ [1, 0], bit = 0 ∨ bit = 1 := by decide
  have hzero : [1, 0][[1, 0].length - 1 - 0]? = some 0 := rfl
  have hload := (of_honest_otLoop hbits (intOfSize_lt 2) hR (by decide) (by decide) hzero).1
  exact hload rfl

end Pepal.Images

import Pepal.Software.Steps
import Std.Data.String.ToNat

/-!
# An honest run of the software transfer

The configuration after each step, up to step 8, where the receiver has taken
off the last layer, and then to step 16, where the files are written. The
layers come off a row's point in the order they were put on: the key of the
oblivious transfer (steps 5 and 6), the sender's scalar (steps 3 and 7), the
receiver's scalar (steps 6 and 8).

The runs to step 8 are over any letters the receiver reads as bits; keys from
`0` to `2 ^ 256 - 1` give such letters, most significant bit first.
-/

namespace Pepal.Software

open PrimeOrder ObliviousTransfer

/-- What is relied on of Charm: its serialization and its encryption, under
keys that are hashes, are undone by their inverses. -/
structure Charm.Lawful {G : Type} (C : Charm G) : Prop where
  bytesToObject_objectToBytes : ∀ x, C.bytesToObject (C.objectToBytes x) = some x
  decrypt_encrypt : ∀ bytes1 iv message,
    C.decrypt (SHA2 C bytes1) (C.encrypt (SHA2 C bytes1) iv message) = some message

variable {r : ℕ} {G : Type} [PrimeOrderGroup r G]

/-! ## The letters of the key -/

/-- The string `receiver_transfer4` makes of the key. -/
def Input.bitstring (I : Input r G) : List Char := zfill ((bin I.key).drop 2) 256

theorem zfill_padDigits (n : ℕ) : zfill (Nat.toDigits 2 n) 256 = Numeral.padDigits 2 256 n := by
  have hdigit : ∀ c ∈ Nat.toDigits 2 n, c.isDigit :=
    fun c hc => Nat.isDigit_of_mem_toDigits (by omega) (by omega) hc
  -- digits are no signs, so the fill goes in front
  unfold zfill Numeral.padDigits
  split
  · rename_i rest hcons
    have hplus := hdigit '+' (by rw [hcons]; exact List.mem_cons_self)
    exact absurd hplus (by decide)
  · rename_i rest hcons
    have hminus := hdigit '-' (by rw [hcons]; exact List.mem_cons_self)
    exact absurd hminus (by decide)
  · rfl

theorem zfill_bin (n : ℕ) : zfill ((bin n).drop 2) 256 = Numeral.padDigits 2 256 n := by
  have hbin : (bin n).drop 2 = Nat.toDigits 2 n := by
    rw [bin, if_neg (by omega)]
    rfl
  rw [hbin, zfill_padDigits]

/-- The `i`-th most significant of the 256 bits of a number. -/
def keyBit (n i : ℕ) : ℕ := Numeral.digit 2 n (255 - i)

/-- A number of 256 bits is written out most significant bit first. -/
theorem isBit_zfill {n : ℕ} (hn : n < 2 ^ 256) :
    ∀ i < 256, IsBit (zfill ((bin n).drop 2) 256) i (keyBit n i) := by
  intro i hi
  have hget := Numeral.padDigits_getElem? (by omega : 1 < 2) (by omega : 0 < 256) hn hi
  rw [← zfill_bin] at hget
  have hlt : keyBit n i < 2 := Numeral.digit_lt (by omega) _ _
  obtain h | h : keyBit n i = 0 ∨ keyBit n i = 1 := by omega
  · refine Or.inl ⟨?_, h⟩
    exact hget.trans (congrArg (fun d => some (Nat.digitChar d)) h)
  · refine Or.inr ⟨?_, h⟩
    exact hget.trans (congrArg (fun d => some (Nat.digitChar d)) h)

omit [PrimeOrderGroup r G] in
theorem isBit_keyBit {I : Input r G} {n : ℕ} (hkey : I.key = n) (hn : n < 2 ^ 256) :
    ∀ i < 256, IsBit I.bitstring i (keyBit n i) := by
  unfold Input.bitstring
  rw [hkey]
  exact isBit_zfill hn

/-! ## Steps 1 to 8 -/

section Run

variable {C : Charm G} (I : Input r G)

def Input.sender_pk : G := gpow I.sender.g I.sender.sender_sk

def Input.common_pk : G := I.sender_pk ^ I.key

/-- The sender's encryption of a point under the common key. -/
def Input.elgPoint (i j : ℕ) : G :=
  I.sender.groupPoints i j * gpow I.common_pk (I.sender.randomVals i)

def Input.A (i : ℕ) : G := gpow I.sender.g (I.sender.a i)

/-- The receiver's answer in a row whose bit is `bit`. -/
def Input.B (bit : ℕ → ℕ) (i : ℕ) : G := blind (I.A i) I.sender.g (bit i) (I.receiver.b i)

def Input.enc (C : Charm G) (bit : ℕ → ℕ) (i j : ℕ) : Bytes :=
  C.encrypt (SHA2 C (C.objectToBytes (senderKey (I.A i) (I.sender.a i) (I.B bit i) j)))
    (I.sender.iv5 i j) (C.objectToBytes (I.elgPoint i j))

def Input.reRandEnc (bit : ℕ → ℕ) (i : ℕ) : G :=
  I.elgPoint i (bit i) * gpow I.common_pk (I.receiver.recRandVals i)

def Input.decSenderLayer (bit : ℕ → ℕ) (i : ℕ) : G :=
  I.reRandEnc bit i * (gpow I.common_pk (I.sender.randomVals i))⁻¹

/-- The receiver's layer comes off last and the point is left. -/
theorem layers_cancel (bit : ℕ → ℕ) (i : ℕ) :
    I.decSenderLayer bit i * (gpow I.common_pk (I.receiver.recRandVals i))⁻¹ =
      I.sender.groupPoints i (bit i) := by
  unfold Input.decSenderLayer Input.reRandEnc Input.elgPoint
  rw [mul_right_comm _ _ (gpow I.common_pk (I.sender.randomVals i))⁻¹, mul_inv_cancel_right,
    mul_inv_cancel_right]

/-- The chosen ciphertext opens under the key the receiver derives. -/
theorem enc_opens (hC : C.Lawful) (bit : ℕ → ℕ) (i : ℕ) :
    (C.decrypt (SHA2 C (C.objectToBytes (gpow (I.A i) (I.receiver.b i))))
      (I.enc C bit i (bit i))).bind C.bytesToObject = some (I.elgPoint i (bit i)) := by
  have hagree : senderKey (I.A i) (I.sender.a i) (I.B bit i) (bit i) =
      gpow (I.A i) (I.receiver.b i) := senderKey_chosen _ _ _ _
  unfold Input.enc
  rw [hagree, hC.decrypt_encrypt]
  exact hC.bytesToObject_objectToBytes _

def Input.sender1 : Sender r G :=
  { state := some 3, files := I.senderFiles, g := some I.sender.g
    sender_pk := some I.sender_pk, sender_sk := some I.sender.sender_sk }

def Input.receiver2 : Receiver r G :=
  { state := some 4, files := I.receiverFiles
    S := some { g := I.sender.g, sender_pk := I.sender_pk }
    g := some I.sender.g, sender_pk := some I.sender_pk, receiver_sk := some I.key
    receiver_pk := some (I.sender.g ^ I.key), common_pk := some I.common_pk }

def Input.sender3 (C : Charm G) : Sender r G :=
  { I.sender1 with
    S2 := some { receiver_pk := I.sender.g ^ I.key, common_pk := I.common_pk }
    randomVals := some (row I.sender.randomVals), elgPoints := some (table I.elgPoint)
    A := some (row I.A), a := some (row I.sender.a), common_pk := some I.common_pk
    hashedPoints := some (table fun i j =>
      SHA2 C (C.objectToBytes (I.sender.groupPoints i j)))
    state := some 5 }

def Input.receiver4 (bit : ℕ → ℕ) : Receiver r G :=
  { I.receiver2 with
    S3 := some { elgPoints := table I.elgPoint, A := row I.A }
    b := some (row I.receiver.b), B := some (row (I.B bit)), bitstring := some I.bitstring
    A := some (row I.A), state := some 6 }

def Input.sender5 (C : Charm G) (bit : ℕ → ℕ) : Sender r G :=
  { I.sender3 C with
    B := some (row (I.B bit)), enc := some (table (I.enc C bit)), state := some 7 }

def Input.receiver6 (C : Charm G) (bit : ℕ → ℕ) : Receiver r G :=
  { I.receiver4 bit with
    enc := some (table (I.enc C bit)), recRandVals := some (row I.receiver.recRandVals)
    reRandEnc := some (row (I.reRandEnc bit)), state := some 8 }

def Input.sender7 (C : Charm G) (bit : ℕ → ℕ) : Sender r G :=
  { I.sender5 C bit with
    reRandEnc := some (row (I.reRandEnc bit))
    decSenderLayer := some (row (I.decSenderLayer bit)), state := some 9 }

def Input.receiver8 (C : Charm G) (bit : ℕ → ℕ) : Receiver r G :=
  { I.receiver6 C bit with
    decSenderLayer := some (row (I.decSenderLayer bit))
    decRecLayer := some (row fun i => I.sender.groupPoints i (bit i)), state := some 10 }

/-- One more step, the sender's, from a configuration with a message. -/
theorem senderStep {I : Input r G} {k : ℕ} {cfg : Config r G} {m m' : Msg G}
    {s' : Sender r G} (hrun : SoftwareTransfer C I k = some cfg) (hk : k % 2 = 0)
    (hm : cfg.message = some m)
    (hcall : (cfg.sender.receive m).call C I.sender = some (s', m')) :
    SoftwareTransfer C I (k + 1) = some { cfg with sender := s', message := some m' } := by
  rw [SoftwareTransfer, hrun]
  show (if k % 2 = 0 then cfg.senderTurn C I else cfg.receiverTurn C I) = _
  rw [if_pos hk, Config.senderTurn, hm]
  simp only [hcall, Option.bind_eq_bind, Option.bind_some, Option.pure_def]

theorem receiverStep {I : Input r G} {k : ℕ} {cfg : Config r G} {m m' : Msg G}
    {R : Receiver r G} (hrun : SoftwareTransfer C I k = some cfg) (hk : k % 2 = 1)
    (hm : cfg.message = some m)
    (hcall : (cfg.receiver.receive m).call C I.key I.receiver = some (R, m')) :
    SoftwareTransfer C I (k + 1) = some { cfg with receiver := R, message := some m' } := by
  rw [SoftwareTransfer, hrun]
  show (if k % 2 = 0 then cfg.senderTurn C I else cfg.receiverTurn C I) = _
  rw [if_neg (by omega), Config.receiverTurn, hm]
  simp only [hcall, Option.bind_eq_bind, Option.bind_some, Option.pure_def]

/-- The first three steps need nothing of the key. -/
theorem run_three (C : Charm G) :
    SoftwareTransfer C I 3 = some
      { sender := I.sender3 C, receiver := I.receiver2
        message := some (.S3 { elgPoints := table I.elgPoint, A := row I.A }) } := by
  have h1 : SoftwareTransfer C I 1 = some
      { sender := I.sender1, receiver := { state := some 2, files := I.receiverFiles }
        message := some (.S { g := I.sender.g, sender_pk := I.sender_pk }) } := rfl
  have h2 := receiverStep h1 rfl rfl (R := I.receiver2) rfl
  have h3 : (I.sender1.receive
      (.S2 { receiver_pk := I.sender.g ^ I.key, common_pk := I.common_pk })).sender_transfer3
      C I.sender = some (I.sender3 C, .S3 { elgPoints := table I.elgPoint, A := row I.A }) :=
    sender_transfer3_eq (g := I.sender.g)
      (m := { receiver_pk := I.sender.g ^ I.key, common_pk := I.common_pk }) I.sender rfl rfl
  exact senderStep h2 rfl rfl h3

variable {I} {bit : ℕ → ℕ}

/-- The run up to the receiver's last decryption. -/
theorem run_eight (hC : C.Lawful) (hbit : ∀ i < 256, IsBit I.bitstring i (bit i)) :
    SoftwareTransfer C I 8 = some
      { sender := I.sender7 C bit, receiver := I.receiver8 C bit
        message := some (.msg "OK") } := by
  have h4 : (I.receiver2.receive
      (.S3 { elgPoints := table I.elgPoint, A := row I.A })).receiver_transfer4 I.receiver =
      some (I.receiver4 bit, .B (row (I.B bit))) :=
    receiver_transfer4_eq I.receiver rfl rfl rfl hbit
  have h5 : ((I.sender3 C).receive (.B (row (I.B bit)))).init_ot5 C I.sender =
      some (I.sender5 C bit, .enc (table (I.enc C bit))) :=
    init_ot5_eq I.sender rfl rfl rfl rfl
  have h6 : ((I.receiver4 bit).receive (.enc (table (I.enc C bit)))).recv_ot6 C I.receiver =
      some (I.receiver6 C bit, .reRandEnc (row (I.reRandEnc bit))) :=
    recv_ot6_eq I.receiver rfl rfl rfl rfl rfl rfl hbit fun i _ => enc_opens I hC bit i
  have h7 : ((I.sender5 C bit).receive (.reRandEnc (row (I.reRandEnc bit)))).sender_dec_layer7 =
      some (I.sender7 C bit, .decSenderLayer (row (I.decSenderLayer bit))) :=
    sender_dec_layer7_eq rfl rfl rfl rfl
  have h8 : ((I.receiver6 C bit).receive
      (.decSenderLayer (row (I.decSenderLayer bit)))).final_recv8 =
      some (I.receiver8 C bit, .msg "OK") := by
    rw [final_recv8_eq rfl rfl rfl, row_congr fun i _ => layers_cancel I bit i]
    rfl
  have run4 := receiverStep (run_three I C) rfl rfl h4
  have run5 := senderStep run4 rfl rfl h5
  have run6 := receiverStep run5 rfl rfl h6
  have run7 := senderStep run6 rfl rfl h7
  exact receiverStep run7 rfl rfl h8

/-! ## Steps 9 to 16 -/

/-- The two ciphertexts of a row's files. -/
def Input.out (I : Input r G) (C : Charm G) (content : ℕ → ℕ → Bytes) (i j : ℕ) : Bytes :=
  C.encrypt (SHA2 C (C.objectToBytes (I.sender.groupPoints i j))) (I.sender.iv9 i j)
    (content i j)

/-- The parties when the receiver has all four slices but the last. -/
def Input.receiver14 (I : Input r G) (C : Charm G) (bit : ℕ → ℕ) (content : ℕ → ℕ → Bytes) :
    Receiver r G :=
  { I.receiver8 C bit with
    outArray1 := some ((table (I.out C content)).flatten.take 128)
    outArray2 := some (slice (table (I.out C content)).flatten 128 256)
    outArray3 := some (slice (table (I.out C content)).flatten 256 384)
    state := some 16 }

def Input.sender15 (I : Input r G) (C : Charm G) (bit : ℕ → ℕ) (content : ℕ → ℕ → Bytes) :
    Sender r G :=
  { I.sender7 C bit with
    outArray_store := some (table (I.out C content)).flatten, msg := some "GotIt"
    state := none }

/-- The sender's files are where `send_encryptions9` looks for them. -/
structure Input.HasFiles (I : Input r G) (C : Charm G) (content : ℕ → ℕ → Bytes) : Prop where
  jar : ∃ count, show_jar_classes C I.senderFiles "HelloWorld0_wm0.jar" = some count
  wm : ∀ i < 256, ∀ j < 2, I.senderFiles (fileToSend i j) = some (content i j)

theorem run_fifteen (hC : C.Lawful) (hbit : ∀ i < 256, IsBit I.bitstring i (bit i))
    {content : ℕ → ℕ → Bytes} (hfiles : I.HasFiles C content) :
    SoftwareTransfer C I 15 = some
      { sender := I.sender15 C bit content, receiver := I.receiver14 C bit content
        message := some (.outArray4 (slice (table (I.out C content)).flatten 384 512)) } := by
  obtain ⟨count, hjar⟩ := hfiles.jar
  have h130 : (table (I.out C content)).flatten[130]? = some (I.out C content 65 0) :=
    flatten_table_getElem? (I.out C content) (by omega : 65 < 256) (by omega : 0 < 2)
  let s9 : Sender r G :=
    { I.sender7 C bit with
      outArray_store := some (table (I.out C content)).flatten, msg := some "OK"
      state := some 11 }
  have h9 : ((I.sender7 C bit).receive (.msg "OK")).send_encryptions9 C I.sender =
      some (s9, .outArray1 ((table (I.out C content)).flatten.take 128)) :=
    send_encryptions9_eq I.sender hjar rfl hfiles.wm
  have h11 : (s9.receive (.msg "GotIt")).send_enc_part2_11 =
      some ({ s9 with msg := some "GotIt", state := some 13 },
        .outArray2 (slice (table (I.out C content)).flatten 128 256)) := by
    show ((table (I.out C content)).flatten[130]?.bind fun _ => _) = _
    rw [h130]
    rfl
  -- from here on the slices are only passed on
  have run9 := senderStep (run_eight hC hbit) rfl rfl h9
  have run10 := receiverStep run9 rfl rfl rfl
  have run11 := senderStep run10 rfl rfl h11
  have run12 := receiverStep run11 rfl rfl rfl
  have run13 := senderStep run12 rfl rfl rfl
  have run14 := receiverStep run13 rfl rfl rfl
  exact senderStep run14 rfl rfl rfl

theorem fileReceived_injective {i j : ℕ} (h : fileReceived i = fileReceived j) : i = j := by
  have hlist := congrArg String.toList h
  unfold fileReceived at hlist
  rw [String.toList_append, String.toList_append, String.toList_append,
    String.toList_append] at hlist
  have hdigits := List.append_cancel_left (List.append_cancel_right hlist)
  exact Nat.repr_injective (String.toList_injective hdigits)

/-- Each file written by the loop at the end is the string of its index. -/
theorem writeFiles_eq (files : Files) (xs : List Bytes) {i : ℕ} (hi : i < xs.length) :
    writeFiles files xs (fileReceived i) = xs[i]? := by
  have key : ∀ n, (List.range n).foldl (fun files i =>
      Function.update files (fileReceived i) xs[i]?) files (fileReceived i) =
      if i < n then xs[i]? else files (fileReceived i) := by
    intro n
    induction n with
    | zero => rfl
    | succ n ih =>
        rw [List.range_succ, List.foldl_append, List.foldl_cons, List.foldl_nil]
        -- the round writes file n and, the names being different, no other
        by_cases hin : i = n
        · subst hin
          rw [Function.update_self, if_pos (by omega)]
        · have hne : fileReceived i ≠ fileReceived n := fun h => hin (fileReceived_injective h)
          rw [Function.update_of_ne hne, ih]
          exact if_congr (by omega) rfl rfl
  rw [writeFiles, key, if_pos hi]

omit [PrimeOrderGroup r G] in
theorem out_opens (hC : C.Lawful) (content : ℕ → ℕ → Bytes) (i : ℕ) :
    C.decrypt (SHA2 C (C.objectToBytes (I.sender.groupPoints i (bit i))))
      (I.out C content i (bit i)) = some (content i (bit i)) :=
  hC.decrypt_encrypt _ _ _

/-- The whole run. -/
theorem run_sixteen (hC : C.Lawful) (hbit : ∀ i < 256, IsBit I.bitstring i (bit i))
    {content : ℕ → ℕ → Bytes} (hfiles : I.HasFiles C content) :
    ∃ cfg, SoftwareTransfer C I 16 = some cfg ∧ cfg.receiver.state = none ∧
      cfg.receiver.decRecLayer = some (row fun i => I.sender.groupPoints i (bit i)) ∧
      cfg.receiver.decryptedStrings C = some (row fun i => content i (bit i)) ∧
      ∀ i < 256, cfg.receiver.files (fileReceived i) = some (content i (bit i)) := by
  have hstrings : ((I.receiver14 C bit content).receive
      (.outArray4 (slice (table (I.out C content)).flatten 384 512))).decryptedStrings C =
      some (row fun i => content i (bit i)) :=
    decryptedStrings_eq rfl rfl rfl rfl rfl rfl hbit fun i _ => out_opens hC content i
  have run16 := receiverStep (run_fifteen hC hbit hfiles) rfl rfl
    (rec_enc_part4_16_eq rfl hstrings)
  refine ⟨_, run16, rfl, rfl, (decryptedStrings_done _ _).trans hstrings, ?_⟩
  intro i hi
  have hlength : i < (row fun i => content i (bit i)).length := by
    rw [length_row]
    exact hi
  dsimp only
  rw [writeFiles_eq _ _ hlength, row_getElem? _ hi]

/-! ## Delivery -/

/-- Reading the bits back, most significant first. -/
theorem foldl_keyBit {n : ℕ} (hn : n < 2 ^ 256) :
    (row (keyBit n)).foldl (fun sk bit => 2 * sk + bit) 0 = n :=
  (Numeral.foldl_digits 2 n 256).trans (Nat.mod_eq_of_lt hn)

/-- **The software transfer delivers the chosen files.** The honest run
completes; row `i` ends with the point and the file selected by the `i`-th most
significant bit of the key, the file is on the receiver's disk, and the
watermark bits of the files, read in order, are the key. -/
theorem transfer_delivers (hC : C.Lawful) (hlow : 0 ≤ I.key) (hhigh : I.key < 2 ^ 256)
    {content : ℕ → ℕ → Bytes} (hfiles : I.HasFiles C content) :
    ∃ cfg, SoftwareTransfer C I 16 = some cfg ∧ cfg.receiver.state = none ∧
      let bit := keyBit I.key.toNat
      cfg.receiver.decRecLayer = some (row fun i => I.sender.groupPoints i (bit i)) ∧
      cfg.receiver.decryptedStrings C = some (row fun i => content i (bit i)) ∧
      (∀ i < 256, cfg.receiver.files (fileReceived i) = some (content i (bit i))) ∧
      ∀ wm : Bytes → ℕ, (∀ i < 256, ∀ j < 2, wm (content i j) = j) →
        ∀ files, cfg.receiver.decryptedStrings C = some files →
          (((files.map wm).foldl (fun sk bit => 2 * sk + bit) 0 : ℕ) : ℤ) = I.key := by
  have hkey : I.key = (I.key.toNat : ℤ) := (Int.toNat_of_nonneg hlow).symm
  have hn : I.key.toNat < 2 ^ 256 := by omega
  have hbit := isBit_keyBit hkey hn
  obtain ⟨cfg, hrun, hstate, hdec, hstrings, hdisk⟩ := run_sixteen hC hbit hfiles
  refine ⟨cfg, hrun, hstate, hdec, hstrings, hdisk, ?_⟩
  intro wm hwm files hread
  rw [hstrings] at hread
  obtain rfl := Option.some.inj hread
  have hbits : (row fun i => content i (keyBit I.key.toNat i)).map wm =
      row (keyBit I.key.toNat) := by
    rw [map_row]
    exact row_congr fun i hi => hwm i hi _ (hbit i hi).lt
  rw [hbits, foldl_keyBit hn, ← hkey]

end Run

/-! ## A small run

Scalars modulo 3, the key 5 in the last three rows (1, 0, 1), and ciphertexts
that hide the message by adding a byte. -/

def smallCharm : Charm (Multiplicative (ZMod 3)) where
  objectToBytes := fun x => [UInt8.ofNat x.toAdd.val]
  bytesToObject := fun bytes =>
    bytes.head?.map fun byte => Multiplicative.ofAdd (byte.toNat : ZMod 3)
  sha256 := fun data => data
  encrypt := fun key _ message => message.map (· + key.foldl (· + ·) 0)
  decrypt := fun key text => some (text.map (· - key.foldl (· + ·) 0))
  infolist := fun _ => some ["HelloWorld.class"]

def smallInput : Input 3 (Multiplicative (ZMod 3)) where
  key := 5
  sender :=
    { g := Multiplicative.ofAdd 1, sender_sk := -1
      groupPoints := fun i j => Multiplicative.ofAdd ((i + j : ℕ) : ZMod 3)
      randomVals := fun i => i, a := fun i => i, iv5 := fun _ _ => [], iv9 := fun _ _ => [] }
  receiver := { b := fun i => i + 1, recRandVals := fun i => i - 1 }
  senderFiles := fun name => some name.toByteArray.data.toList
  receiverFiles := fun _ => none

theorem smallCharm_lawful : smallCharm.Lawful where
  bytesToObject_objectToBytes := by
    intro x
    have hbyte : ∀ x : ZMod 3, ((UInt8.ofNat x.val).toNat : ZMod 3) = x := by decide
    exact congrArg some (congrArg Multiplicative.ofAdd (hbyte x.toAdd))
  decrypt_encrypt := by
    intro bytes1 iv message
    show some ((message.map _).map _) = some message
    rw [List.map_map]
    simp [Function.comp_def]

theorem transfer_delivers_small :
    ∃ cfg, SoftwareTransfer smallCharm smallInput 16 = some cfg ∧
      cfg.receiver.files (fileReceived 253) = smallInput.senderFiles (fileToSend 253 1) ∧
      cfg.receiver.files (fileReceived 254) = smallInput.senderFiles (fileToSend 254 0) ∧
      cfg.receiver.files (fileReceived 255) = smallInput.senderFiles (fileToSend 255 1) := by
  have hfiles : smallInput.HasFiles smallCharm fun i j =>
      (fileToSend i j).toByteArray.data.toList :=
    ⟨⟨_, rfl⟩, fun _ _ _ _ => rfl⟩
  have hlow : 0 ≤ smallInput.key := by decide
  have hhigh : smallInput.key < 2 ^ 256 := by
    show (5 : ℤ) < 2 ^ 256
    norm_num
  obtain ⟨cfg, hrun, -, -, -, hdisk, -⟩ :=
    transfer_delivers smallCharm_lawful hlow hhigh hfiles
  have h253 : keyBit smallInput.key.toNat 253 = 1 := by decide
  have h254 : keyBit smallInput.key.toNat 254 = 0 := by decide
  have h255 : keyBit smallInput.key.toNat 255 = 1 := by decide
  refine ⟨cfg, hrun, ?_, ?_, ?_⟩
  · rw [hdisk 253 (by omega), h253]
    rfl
  · rw [hdisk 254 (by omega), h254]
    rfl
  · rw [hdisk 255 (by omega), h255]
    rfl

end Pepal.Software

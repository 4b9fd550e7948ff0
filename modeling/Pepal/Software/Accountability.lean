import Pepal.Chain.Account
import Pepal.Chain.Signing
import Pepal.Software.Traces

/-!
# Who pays for a leak

`penalty` asks for a signature of the owner and one of the user, and only what it
finds of the user's counts in the end. So nothing is taken from a key as long as
nobody has a signature that verifies under it.

An owner who finds the files of a receiver comes to one. The marks spell the
number that was in the receiver's `key.txt`, and with `0b` before them they are a
private key for the signing tool. The penalty then goes through exactly if that
number is the private key of the user in the contract, which nothing in the
transfer has looked at.
-/

namespace Pepal

namespace Chain

theorem ECDSASig.makePrivateKey_of_read {C : GoCrypto} {privateKeyD publicKeyB64 : String} {d : ℤ}
    (hd : SetString privateKeyD = some d) {publicKeyBytes : Bytes}
    (hdecode : C.DecodeString publicKeyB64 = (publicKeyBytes, false)) {key : C.Key}
    (hparse : C.ParsePKIXPublicKey publicKeyBytes = some (.ecdsa key)) :
    makePrivateKey C privateKeyD publicKeyB64 = (⟨some key, some d⟩, none) := by
  unfold makePrivateKey
  simp only [hdecode, hd, hparse]
  rfl

namespace Apdlcc

variable {C : GoCrypto} {ledger : Ledger} {tx : Tx} {u : String}

/-! ## Nothing without a signature -/

/-- The transaction carries a message and, where `penalty` looks for the signature
of the user, one that verifies under the key. -/
def Signs (C : GoCrypto) (u : String) (tx : Tx) : Prop :=
  ∃ fn first message hubSig userSig, tx.args = [fn, first, message, hubSig, userSig] ∧
    verifyEntry C (bytes message) u userSig = some true

/-- The transaction is a request that succeeds and that names the key. -/
def Names (u : String) (ledger : Ledger) (tx : Tx) : Prop :=
  ∃ s r ip port dt amount, Requests (tx.stub ledger) s r ip port dt amount ∧ (u = s ∨ u = r)

/-- The key is not that of a user whose contract is penalized. -/
def Spared (u : String) (ledger : Ledger) : Prop :=
  (record ledger).SoftwareUser.PubKey = u → (record ledger).Status ≠ "penalized"

/-- A penalty is signed by the user of the contract. -/
theorem signs_of_penalizes {message hubSig userSig : String}
    (h : Penalizes C (tx.stub ledger) message hubSig userSig) :
    Signs C (record ledger).SoftwareUser.PubKey tx := by
  obtain ⟨first, hargs⟩ := h.args
  have hverified : verifyAll C (bytes message) (signers ledger) [hubSig, userSig] = true :=
    h.verified
  obtain ⟨-, huser⟩ := (verifyAll_pair C (bytes message) _ _ hubSig userSig).mp hverified
  exact ⟨_, first, message, hubSig, userSig, hargs, huser⟩

/-- Only requests change what is stored under a key that has not signed. -/
theorem next_of_unsigned (hsound : Sound ledger) (hu : u ≠ ContractKey) (hsigns : ¬ Signs C u tx)
    (hnames : ¬ Names u ledger tx) : (chaincode C).next ledger tx u = ledger u := by
  have hhappens := happens C ledger tx
  generalize (chaincode C).next ledger tx = ledger' at hhappens ⊢
  cases hhappens with
  | initialized _ _ => exact commit_put_of_ne hu _ _
  | requested _ hrequests =>
      rw [ledger_request ledger hu hrequests, if_neg]
      rintro (⟨hs, -⟩ | ⟨hr, -⟩)
      · exact hnames ⟨_, _, _, _, _, _, hrequests, Or.inl hs⟩
      · exact hnames ⟨_, _, _, _, _, _, hrequests, Or.inr hr⟩
  | penalized _ hpenalizes =>
      have huser : u ≠ (record ledger).SoftwareUser.PubKey := by
        rintro rfl
        exact hsigns (signs_of_penalizes hpenalizes)
      unfold penaltyWrites
      rw [commit_append, commit_put_of_ne hu]
      exact commit_put_of_ne huser _ _
  | refunded _ hrefunds => exact absurd hrefunds (hsound.not_refunds rfl)
  | unchanged => rfl

theorem spared_of_status {status : String} (h : (record ledger).Status = status)
    (hne : status ≠ "penalized") : Spared u ledger := by
  intro _
  rw [h]
  exact hne

theorem spared_next (hsound : Sound ledger) (hsigns : ¬ Signs C u tx) (h : Spared u ledger) :
    Spared u ((chaincode C).next ledger tx) := by
  have hhappens := happens C ledger tx
  generalize (chaincode C).next ledger tx = ledger' at hhappens ⊢
  cases hhappens with
  | initialized _ hwritten =>
      rcases record_init ledger hwritten with hrecord | hrecord
      · exact spared_of_status (congrArg APDL.Status hrecord) (by decide : "init" ≠ "penalized")
      · exact spared_of_status (congrArg APDL.Status hrecord) (by decide : "" ≠ "penalized")
  | requested _ hrequests =>
      exact spared_of_status (congrArg APDL.Status (record_request hrequests))
        (by decide : "download_requested" ≠ "penalized")
  | penalized _ hpenalizes =>
      have huser : (record ledger).SoftwareUser.PubKey ≠ u := by
        rintro rfl
        exact hsigns (signs_of_penalizes hpenalizes)
      rcases record_penalty ledger tx with hrecord | hrecord | hrecord
      · intro hsame
        rw [hrecord] at hsame
        exact absurd hsame huser
      · exact spared_of_status (congrArg APDL.Status hrecord) (by decide : "" ≠ "penalized")
      · unfold Spared
        rw [hrecord]
        exact h
  | refunded _ hrefunds => exact absurd hrefunds (hsound.not_refunds rfl)
  | unchanged => exact h

theorem unsigned_run (hu : u ≠ ContractKey) {txs : List Tx} (hsigns : ∀ tx ∈ txs, ¬ Signs C u tx)
    (hsound : Sound ledger) (hspared : Spared u ledger) :
    Runs.Along (chaincode C).next
        (fun ledger tx => (chaincode C).next ledger tx u ≠ ledger u → Names u ledger tx)
        ledger txs ∧
      Spared u (Runs.run (chaincode C).next ledger txs) := by
  induction txs generalizing ledger with
  | nil => exact ⟨trivial, hspared⟩
  | cons tx txs ih =>
      obtain ⟨htx, hrest⟩ := List.forall_mem_cons.mp hsigns
      obtain ⟨halong, hend⟩ := ih hrest (sound_next hsound tx) (spared_next hsound htx hspared)
      refine ⟨⟨?_, halong⟩, hend⟩
      intro hchanged
      by_contra hnames
      exact hchanged (next_of_unsigned hsound hu htx hnames)

/-- **Nobody pays without having signed.** In every run in which no transaction
carries a signature that verifies under a key, only requests that name the key
change what is stored under it, and no contract of its is penalized. -/
theorem unsigned_spared (C : GoCrypto) (hu : u ≠ ContractKey) {txs : List Tx}
    (hsigns : ∀ tx ∈ txs, ¬ Signs C u tx) :
    Runs.Along (chaincode C).next
        (fun ledger tx => (chaincode C).next ledger tx u ≠ ledger u → Names u ledger tx)
        emptyLedger txs ∧
      Spared u ((chaincode C).run txs) :=
  unsigned_run hu hsigns (sound_zero rfl)
    (spared_of_status (congrArg APDL.Status (Unmarshal_empty true)) (by decide : "" ≠ "penalized"))

/-- A penalty against B with a signature that is not B's. -/
def forgedRun : List Tx :=
  [initTx, request "A" "B" "100", penaltyCall (signature 65 109) (signature 65 109)]

theorem not_signs_forgedRun : ∀ tx ∈ forgedRun, ¬ Signs byteCrypto "B" tx := by
  have hforged : ¬ Signs byteCrypto "B" (penaltyCall (signature 65 109) (signature 65 109)) := by
    rintro ⟨fn, first, message, hubSig, userSig, hargs, hverified⟩
    have hterms : message = "m" ∧ hubSig = signature 65 109 ∧ userSig = signature 65 109 := by
      simpa [penaltyCall, invoke, eq_comm] using (congrArg (List.drop 2) hargs)
    obtain ⟨rfl, rfl, rfl⟩ := hterms
    rw [signature, verifyEntry_bytes "B" 66 rfl (bytes "m") 65 109] at hverified
    exact absurd hverified (by decide)
  have hlength : ∀ tx : Tx, tx.args.length ≠ 5 → ¬ Signs byteCrypto "B" tx := by
    rintro tx hlength ⟨fn, first, message, hubSig, userSig, hargs, -⟩
    exact hlength (congrArg List.length hargs)
  rw [forgedRun, List.forall_mem_cons, List.forall_mem_cons, List.forall_mem_singleton]
  exact ⟨hlength _ (by decide), hlength _ (by decide), hforged⟩

theorem unsigned_spared_B : Spared "B" ((chaincode byteCrypto).run forgedRun) :=
  (unsigned_spared byteCrypto (by decide) not_signs_forgedRun).2

/-! ## Evidence -/

/-- A penalty call as the owner makes it who has found a private key: the message
is signed with the tool, with this private key and the public key of the user
in the contract, and where the owner signs there is some signature that can be
read. -/
structure Evidence (C : GoCrypto) (privateKeyD : String) (ledger : Ledger) (userKey : C.Key)
    (tx : Tx) : Prop where
  call : tx.call = .Invoke
  key : ∃ publicKeyBytes,
    C.DecodeString (record ledger).SoftwareUser.PubKey = (publicKeyBytes, false) ∧
      C.ParsePKIXPublicKey publicKeyBytes = some (.ecdsa userKey)
  signed : ∃ message hubSig rStr sStr random,
    AsksPenalty (tx.stub ledger) message hubSig (rStr ++ "," ++ sStr) ∧
      WellFormed C (bytes message) ((record ledger).SoftwareOwner.PubKey, hubSig) ∧
      ECDSASig.sign C random (bytes message) privateKeyD (record ledger).SoftwareUser.PubKey =
        some (rStr, sStr, none)

/-- The contract is penalized, and the deposit is taken from what its user has. -/
structure Charged (ledger ledger' : Ledger) : Prop where
  contract : record ledger' = { record ledger with Status := "penalized" }
  user : balance ledger' (record ledger).SoftwareUser.PubKey =
    wrapInt (balance ledger (record ledger).SoftwareUser.PubKey - (record ledger).DepositAmount)

/-- A penalty call that gets as far as the signatures is decided by them. -/
theorem success_iff_verified {message hubSig userSig : String} (hcall : tx.call = .Invoke)
    (h : AsksPenalty (tx.stub ledger) message hubSig userSig) :
    ((chaincode C).answer ledger tx).1.isSuccess = true ↔
      verifySig C (bytes message) (signers ledger) [hubSig, userSig] = true := by
  obtain ⟨first, hargs⟩ := h.args
  rw [answer_Invoke C ledger hcall, penalty_success_iff hargs]
  constructor
  · rintro ⟨message', hubSig', userSig', hpenalizes⟩
    obtain ⟨rfl, rfl, rfl⟩ := hpenalizes.toAsksPenalty.terms hargs
    exact hpenalizes.verified
  · intro hverified
    exact ⟨message, hubSig, userSig, h, hverified⟩

/-- Evidence that is accepted takes the deposit. -/
theorem charged_of_success {privateKeyD : String} {userKey : C.Key}
    (h : Evidence C privateKeyD ledger userKey tx)
    (hsuccess : ((chaincode C).answer ledger tx).1.isSuccess = true) (htaken : Taken tx)
    (hempty : (record ledger).SoftwareUser.PubKey ≠ "")
    (hcontract : (record ledger).SoftwareUser.PubKey ≠ ContractKey) :
    Charged ledger ((chaincode C).next ledger tx) := by
  obtain ⟨_, _, _, _, _, hasks, -⟩ := h.signed
  have hput : (tx.stub ledger).rejects 2 (record ledger).SoftwareUser.PubKey = false :=
    rejects_of_taken htaken hempty
  rw [next_of_penalizes h.call ⟨hasks, (success_iff_verified h.call hasks).mp hsuccess⟩]
  constructor
  · rw [record_penalty_eq, if_pos (htaken 3)]
  · rw [balance_penalty (Or.inl hcontract), if_pos ⟨rfl, hput⟩, charged_of_read ledger (htaken 1)]

/-- **Evidence is accepted exactly against the one whose private key was found.** -/
theorem evidence_iff {Owns : ℤ → C.Key → Prop} (hC : C.Binds Owns) {privateKeyD : String} {d : ℤ}
    (hd : SetString privateKeyD = some d) {userKey : C.Key}
    (h : Evidence C privateKeyD ledger userKey tx) :
    ((chaincode C).answer ledger tx).1.isSuccess = true ↔ Owns d userKey := by
  obtain ⟨publicKeyBytes, hdecode, hparse⟩ := h.key
  obtain ⟨message, hubSig, rStr, sStr, random, hasks, hwell, hsign⟩ := h.signed
  have hkey := ECDSASig.makePrivateKey_of_read hd hdecode hparse
  have hparse' : C.ParsePKIXPublicKey (C.DecodeString (record ledger).SoftwareUser.PubKey).1 =
      some (.ecdsa userKey) := by
    rw [hdecode]
    exact hparse
  rw [ECDSASig.sign_eq hkey] at hsign
  split at hsign
  · cases hsign
  · cases hsign
  · rename_i r s hsigned
    simp only [Option.some.injEq, Prod.mk.injEq, and_true] at hsign
    obtain ⟨rfl, rfl⟩ := hsign
    rw [success_iff_verified h.call hasks]
    show verifyAll C (bytes message) _ _ = true ↔ _
    rw [signers, verifyAll_pair, verifyEntry_pair hparse', Option.some.injEq,
      hC random userKey d (bytes message) r s hsigned]
    exact and_iff_right hwell

end Apdlcc

end Chain

namespace Software

open Chain (GoCrypto Tx Ledger SetString emptyLedger)
open Chain.ECDSASig (scalarCrypto OwnsByte)
open Chain.Apdlcc (ContractKey Charged Evidence Taken chaincode record)

/-! ## The key in the files -/

/-- The private key that the signing tool is given, from what `extractBit` prints
for the files in their order. -/
def leakedKey (bits : List String) : String := "0b" ++ String.join bits

theorem toList_leakedKey {bit : ℕ → ℕ} (hbit : ∀ i < 256, bit i < 2) :
    (leakedKey (row fun i => toString (bit i))).toList =
      '0' :: 'b' :: (row bit).map Nat.digitChar := by
  have hdigit : ∀ j < 2, (toString j).toList = [Nat.digitChar j] := by decide
  have hrow : (row fun i => (toString (bit i)).toList) = row fun i => [Nat.digitChar (bit i)] :=
    row_congr fun i hi => hdigit (bit i) (hbit i hi)
  unfold leakedKey
  rw [String.toList_append, String.toList_join, List.flatMap_def, map_row, hrow, map_row, row, row,
    ← List.flatMap_def, List.map_eq_flatMap]
  rfl

variable {r : ℕ} {G : Type} [PrimeOrder.PrimeOrderGroup r G] {Cm : Charm G} {I : Input r G}

omit [PrimeOrder.PrimeOrderGroup r G] in
/-- **The tool reads the number of `key.txt`** off the bits. -/
theorem SetString_leakedKey (hlow : 0 ≤ I.key) (hhigh : I.key < 2 ^ 256) :
    SetString (leakedKey (row fun i => toString (keyBit I.key.toNat i))) = some I.key := by
  have hlt : ∀ i, keyBit I.key.toNat i < 2 := fun i => Numeral.digit_lt (by decide) _ _
  have hbits : ∀ d ∈ row (keyBit I.key.toNat), d < 2 := by
    intro d hd
    obtain ⟨i, -, rfl⟩ := List.mem_map.mp hd
    exact hlt i
  have hne : row (keyBit I.key.toNat) ≠ [] := by
    intro hnil
    have hlength := length_row (keyBit I.key.toNat)
    rw [hnil] at hlength
    cases hlength
  rw [Chain.SetString_binary hne hbits (toList_leakedKey fun i _ => hlt i),
    foldl_keyBit (toNat_key_lt hlow hhigh), Int.toNat_of_nonneg hlow]

/-! ## The penalty for a leak -/

/-- The message is signed with the scalar 5. -/
def penaltyOfFive : Tx :=
  Chain.Apdlcc.penaltyCall (Chain.Apdlcc.signature 65 109) (Chain.Apdlcc.signature 5 109)

theorem evidence_five {ledger : Ledger} {user ip port : String} {dt : Chain.Time} {amount : ℤ}
    (hrecord : record ledger = Chain.Apdlcc.requested "A" user ip port dt amount)
    {privateKeyD : String} (hd : SetString privateKeyD = some 5) {userKey : UInt8}
    (huser : scalarCrypto.ParsePKIXPublicKey (scalarCrypto.DecodeString user).1 =
      some (.ecdsa userKey)) :
    Evidence scalarCrypto privateKeyD ledger userKey penaltyOfFive := by
  have howner : scalarCrypto.ParsePKIXPublicKey (scalarCrypto.DecodeString "A").1 =
      some (.ecdsa (65 : UInt8)) := rfl
  have hhash : (Chain.hashToInt (Chain.bytes "m") : ℤ) = 109 := by decide
  refine ⟨rfl, ⟨_, rfl, ?_⟩, "m", Chain.Apdlcc.signature 65 109, Chain.Itoa 5, Chain.Itoa 109,
    (0 : UInt8), ⟨⟨"penalty", rfl⟩, rfl, ?_, ?_⟩, ?_, ?_⟩
  · rw [hrecord]
    exact huser
  · show (record ledger).Status ≠ "init"
    rw [hrecord]
    show "download_requested" ≠ "init"
    decide
  · show (record ledger).Status ≠ "penalized"
    rw [hrecord]
    show "download_requested" ≠ "penalized"
    decide
  · rw [hrecord]
    show (Chain.verifyEntry scalarCrypto _ "A" (Chain.Itoa 65 ++ "," ++ Chain.Itoa 109)).isSome = _
    rw [Chain.verifyEntry_pair howner]
    rfl
  · rw [hrecord, ← hhash]
    exact Chain.ECDSASig.sign_eq (Chain.ECDSASig.makePrivateKey_of_read hd rfl huser)

/-- The ledger after a request for the keys A and `user`. -/
def openedAgainst (user : String) : Ledger :=
  (chaincode scalarCrypto).next emptyLedger (Chain.Apdlcc.request "A" user "100")

theorem record_openedAgainst (user : String) : record (openedAgainst user) =
    Chain.Apdlcc.requested "A" user "10.0.0.2" "8080" Chain.Apdlcc.expiry 100 := by
  have hrequests := Chain.Apdlcc.requests_request emptyLedger "A" user
    (by decide : Chain.Atoi "100" = (100, false)) (by decide)
  rw [openedAgainst, Chain.Apdlcc.next_of_requests rfl hrequests]
  exact Chain.Apdlcc.record_request hrequests

/-- The public key of the scalar 5. -/
def keyFive : String := String.ofList [Char.ofNat 5]

end Software

end Pepal

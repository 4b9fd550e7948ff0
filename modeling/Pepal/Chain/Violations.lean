import Pepal.Chain.Creation
import Pepal.Chain.Evidence

/-!
# Penalties in the chaincode for many contracts

`penalty` of `multiapdlcc` checks the signatures under the keys that it reads
back from the record. The codec leaves them out, so it checks them under two
empty texts, which are no keys. No penalty is ever applied, whoever has signed
and in whatever order.
-/

namespace Pepal.Chain

theorem ne_empty_of_signed {C : GoCrypto} (hC : C.RefusesEmpty) {message : Bytes}
    {publicKey sig : String} (h : Signed C message publicKey sig) : publicKey ≠ "" := by
  rintro rfl
  obtain ⟨publicKeyBytes, key, _, _, _, _, _, hbytes, hkey, -⟩ := h
  have hempty := hC.decode_empty
  rw [hbytes] at hempty
  rw [show publicKeyBytes = [] from hempty, hC.parse_empty] at hkey
  cases hkey

theorem signed_bytes {publicKey : String} {key : UInt8}
    (hdecode : byteCrypto.DecodeString publicKey = ([key], false)) {message : Bytes} {r s : ℤ}
    (hr : r = key.toNat) (hs : s = hashToInt message) :
    Signed byteCrypto message publicKey (Apdlcc.signature r s) :=
  ⟨[key], key, Itoa r, Itoa s, [], r, s, hdecode, rfl, Split_pair _ _, SetString_decimal _,
    SetString_decimal _, decide_eq_true ⟨hr, hs⟩⟩

namespace Multiapdlcc

variable {C : GoCrypto} {ContractKey : String}

/-- The keys are read back empty. -/
theorem signers_eq (ledger : Ledger) (key : String) : signers ledger key = ["", ""] := by
  obtain ⟨howner, huser⟩ := PubKey_Unmarshal (ledger key)
  rw [signers, howner, huser]

/-- **No penalty succeeds.** -/
theorem penalty_refused (hC : C.RefusesEmpty) (ledger : Ledger) {tx : Tx}
    (hcall : tx.call = .Invoke) {params : List String} (hfn : tx.args = "penalty" :: params) :
    ¬ ((chaincode C ContractKey).answer ledger tx).1.isSuccess = true := by
  have hstub : (tx.stub ledger).args = "penalty" :: params := hfn
  rw [(chaincode C ContractKey).answer_of_Invoke ledger hcall]
  show ¬ (execute (Invoke C ContractKey) (tx.stub ledger)).1.isSuccess = true
  rw [penalty_success_iff hstub]
  rintro ⟨message, recipientSig, senderSig, key, -, hverified⟩
  rw [signers_eq] at hverified
  exact Apdlcc.not_verified_zero hC _ _ _ hverified

/-- There is a record of the contract, and both parties have signed the message. -/
structure Justified (C : GoCrypto) (ledger : Ledger) (apdl : APDL)
    (message recipientSig senderSig : String) : Prop where
  stored : Marshal false apdl =
    some (ledger (contractKey apdl.SoftwareOwner.PubKey apdl.SoftwareUser.PubKey))
  owner : Signed C (bytes message) apdl.SoftwareOwner.PubKey senderSig
  user : Signed C (bytes message) apdl.SoftwareUser.PubKey recipientSig

/-- The call finds the parties of the contract and counts the violation. -/
structure GoesThrough (C : GoCrypto) (ContractKey : String) (ledger : Ledger) (apdl : APDL)
    (tx : Tx) : Prop where
  parties : signers ledger (contractKey apdl.SoftwareOwner.PubKey apdl.SoftwareUser.PubKey) =
    [apdl.SoftwareOwner.PubKey, apdl.SoftwareUser.PubKey]
  succeeds : ((chaincode C ContractKey).answer ledger tx).1.isSuccess = true
  counted : count ((chaincode C ContractKey).next ledger tx) apdl.SoftwareUser.PubKey =
    count ledger apdl.SoftwareUser.PubKey + apdl.DepositAmount

/-- **No justified penalty goes through.** The record is read back for other
parties, and the call fails and changes nothing. -/
theorem justified_penalty_refused (hC : C.RefusesEmpty) {ledger : Ledger} {apdl : APDL}
    {message recipientSig senderSig : String}
    (h : Justified C ledger apdl message recipientSig senderSig) {tx : Tx}
    (hcall : tx.call = .Invoke)
    (hargs : tx.args = ["penalty", message, recipientSig, senderSig, apdl.SoftwareOwner.PubKey,
      apdl.SoftwareUser.PubKey]) :
    signers ledger (contractKey apdl.SoftwareOwner.PubKey apdl.SoftwareUser.PubKey) ≠
        [apdl.SoftwareOwner.PubKey, apdl.SoftwareUser.PubKey] ∧
      ((chaincode C ContractKey).answer ledger tx).1.isSuccess = false ∧
      (chaincode C ContractKey).next ledger tx = ledger ∧
      ¬ GoesThrough C ContractKey ledger apdl tx := by
  have hfails : ¬ ((chaincode C ContractKey).answer ledger tx).1.isSuccess = true :=
    penalty_refused hC ledger hcall hargs
  refine ⟨?_, Bool.eq_false_of_not_eq_true hfails, Chaincode.next_of_failure hfails, ?_⟩
  · intro hparties
    rw [signers_eq] at hparties
    exact ne_empty_of_signed hC h.owner (List.cons.inj hparties).1.symm
  · intro hthrough
    exact hfails hthrough.succeeds

/-- A ledger with one contract. -/
def holding (apdl : APDL) : Ledger :=
  Function.update emptyLedger (contractKey apdl.SoftwareOwner.PubKey apdl.SoftwareUser.PubKey)
    ((Marshal false apdl).getD "")

theorem stored_holding {apdl : APDL} (h : apdl.Storable) :
    Marshal false apdl =
      some (holding apdl (contractKey apdl.SoftwareOwner.PubKey apdl.SoftwareUser.PubKey)) := by
  obtain ⟨b, hb, -⟩ := Unmarshal_Marshal false h
  rw [holding, Function.update_self, hb, Option.getD_some]

def contractAB : APDL := requested "A" "B" "10.0.0.2" "8080" Apdlcc.expiry 100

theorem storable_AB : contractAB.Storable := ⟨by decide, by decide, by decide⟩

theorem justified_AB : Justified byteCrypto (holding contractAB) contractAB "m"
    (Apdlcc.signature 66 109) (Apdlcc.signature 65 109) where
  stored := stored_holding storable_AB
  owner := signed_bytes (rfl : byteCrypto.DecodeString "A" = ([65], false)) (by decide) (by decide)
  user := signed_bytes (rfl : byteCrypto.DecodeString "B" = ([66], false)) (by decide) (by decide)

def penaltyAB : Tx :=
  Apdlcc.invoke ["penalty", "m", Apdlcc.signature 66 109, Apdlcc.signature 65 109, "A", "B"]

theorem justified_penalty_refused_AB :
    signers (holding contractAB) (contractKey "A" "B") ≠ ["A", "B"] ∧
      ((chaincode byteCrypto "").answer (holding contractAB) penaltyAB).1.isSuccess = false ∧
      (chaincode byteCrypto "").next (holding contractAB) penaltyAB = (holding contractAB) ∧
      ¬ GoesThrough byteCrypto "" (holding contractAB) contractAB penaltyAB :=
  justified_penalty_refused byteCrypto_refusesEmpty justified_AB rfl rfl

/-- **A penalty that should go through**: the contract of A and B is stored, both
have signed, no call fails, and the deposit of 100 is not counted. -/
theorem justified_penalty_lost :
    Justified byteCrypto (holding contractAB) contractAB "m" (Apdlcc.signature 66 109)
        (Apdlcc.signature 65 109) ∧
      ∀ ContractKey,
        ¬ GoesThrough byteCrypto ContractKey (holding contractAB) contractAB penaltyAB := by
  refine ⟨justified_AB, ?_⟩
  intro ContractKey hthrough
  exact penalty_refused byteCrypto_refusesEmpty (holding contractAB) rfl rfl hthrough.succeeds

end Multiapdlcc

end Pepal.Chain

import Pepal.Chain.ECDSASig
import Pepal.Chain.Shim

/-!
# The chaincode for many contracts

`multiapdlcc.go`. Contracts have keys of their own, made of the two public
keys, and what is stored under a public key is a count of violations. The
fields for the public keys are written `pubKey`, so the encoder leaves them
out: in every record that is read back they are empty.
-/

namespace Pepal.Chain.Multiapdlcc

def StartAmount : ℤ := 0
def ContractKeyPrefix : String := "contract"
def SenderIP : String := "0.0.0.0"
def SenderPort : String := "0"

variable (C : GoCrypto)

def verifySig (message : Bytes) (publicKeys signatures : List String) : Bool :=
  verifyAll C message publicKeys signatures

def Init : Shim Response := return .Success "[+] Init completed\n"

/-- The contract that a download request creates. -/
def requested : String → String → String → String → Time → ℤ → APDL :=
  newContract SenderIP SenderPort

def download_request (fn : String) : Shim Response := do
  let args ← GetStringArgs
  match args with
  | [senderPublicKey, recipientPublicKey, depositAmount, depositTime, recipientIP,
      recipientPort] =>
      let (amount, err) := Atoi depositAmount
      if err ∨ amount < 0 then return .Error "Invalid amount passed"
      else match Parse depositTime with
        | .error _ => return .Error "Invalid time passed"
        | .ok dt => do
            let now ← Now
            if !dt.After now then return .Error "Invalid time passed"
            else do
              let contractKey := ContractKeyPrefix ++ senderPublicKey ++ recipientPublicKey
              let apdl := requested senderPublicKey recipientPublicKey recipientIP recipientPort
                dt amount
              let initialAmount := Itoa StartAmount
              -- only the last of these errors is looked at
              let _ ← PutState senderPublicKey initialAmount
              let _ ← PutState recipientPublicKey initialAmount
              let (b, _) ← MarshalAPDL false apdl
              let err ← PutState contractKey b
              if err then
                return .Error "[-] Failed to process download request transaction. Error!"
              else return .Success fn
  | _ =>
      return .Error ("Incorrect arguments. Expecting [sender_pk, recipient_pk, " ++
        "deposit_amount, deposit_time, recipient_ip, recipient_port]")

def penalty (args : List String) : Shim Response :=
  match args with
  | [message, recipientSig, senderSig, s_pubKey, r_pubKey] => do
      let contractKey := ContractKeyPrefix ++ s_pubKey ++ r_pubKey
      let (contract, err) ← GetState contractKey
      if err then return .Error "[-] Failed to get contract"
      else
        let apdl := Unmarshal false contract
        let publicKeys := [apdl.SoftwareOwner.PubKey, apdl.SoftwareUser.PubKey]
        if verifySig C (bytes message) publicKeys [recipientSig, senderSig] = false then
          return .Error "[-] Signature verification failed. Penalty not applied."
        else do
          let (value, _) ← GetState apdl.SoftwareUser.PubKey
          let (balance, _) := Atoi value
          let endBalance := Itoa (wrapInt (balance + apdl.DepositAmount))
          let _ ← PutState apdl.SoftwareUser.PubKey endBalance
          let (b, _) ← MarshalAPDL false { apdl with Status := "penalized" }
          let _ ← PutState contractKey b
          return .Success "[+] Penalty applied\n"
  | _ => return .Error "need to pass recipient sig"

/-- The file does not declare the `ContractKey` that `refund` writes to. -/
def refund (ContractKey : String) (args : List String) : Shim Response :=
  match args with
  | [_, _, _, s_pubKey, r_pubKey] => do
      let (contract, err) ← GetState (ContractKeyPrefix ++ s_pubKey ++ r_pubKey)
      if err then do
        let text ← ErrorText
        return .Error text
      else
        let apdl := Unmarshal false contract
        if apdl.Status ≠ "download_request" then
          return .Error ("[-] Invalid status for refund. Current status: " ++ apdl.Status)
        else do
          let tnow ← Now
          if tnow.After apdl.ContractExpiry then do
            let (b, _) ← MarshalAPDL false { apdl with Status := "expired" }
            let _ ← PutState ContractKey b
            return .Success "[+] APDL contract expired."
          else return .Error "[-] APDL contract not yet expired"
  | _ => return .Error "need to pass recipient sig"

def Invoke (ContractKey : String) : Shim Response := do
  let (fn, args) ← GetFunctionAndParameters
  if fn = "download_request" then download_request fn
  else if fn = "penalty" then penalty C args
  else if fn = "refund" then refund ContractKey args
  else return .Success fn

def chaincode (ContractKey : String) : Chaincode := { Init := Init, Invoke := Invoke C ContractKey }

/-! ## What is on the ledger -/

/-- The violations of a party. -/
def count (ledger : Ledger) (key : String) : ℤ := (Atoi (ledger key)).1

variable (stub : Stub)

def requestWrites (s r ip port : String) (dt : Time) (amount : ℤ) : List (String × String) :=
  stub.put 0 s (Itoa StartAmount) ++ stub.put 1 r (Itoa StartAmount) ++
    stub.put 2 (ContractKeyPrefix ++ s ++ r)
      (stub.marshal false (requested s r ip port dt amount)).1

/-- The writes of a penalty call for the contract under the key. -/
def penaltyWrites (contractKey : String) : List (String × String) :=
  let apdl := Unmarshal false (stub.state contractKey)
  let value := (stub.get 1 apdl.SoftwareUser.PubKey).1
  stub.put 2 apdl.SoftwareUser.PubKey (Itoa (wrapInt ((Atoi value).1 + apdl.DepositAmount))) ++
    stub.put 3 contractKey (stub.marshal false { apdl with Status := "penalized" }).1

def refundWrites (ContractKey contractKey : String) : List (String × String) :=
  let apdl := Unmarshal false (stub.state contractKey)
  stub.put 1 ContractKey (stub.marshal false { apdl with Status := "expired" }).1

theorem execute_download_request (fn : String) :
    execute (download_request fn) stub =
      match stub.args with
      | [s, r, depositAmount, depositTime, ip, port] =>
          if (Atoi depositAmount).2 ∨ (Atoi depositAmount).1 < 0 then
            (.Error "Invalid amount passed", [])
          else match Parse depositTime with
            | .error _ => (.Error "Invalid time passed", [])
            | .ok dt =>
                if !dt.After (stub.env.now 0) then (.Error "Invalid time passed", [])
                else
                  let writes := requestWrites stub s r ip port dt (Atoi depositAmount).1
                  if stub.rejects 2 (ContractKeyPrefix ++ s ++ r) then
                    (.Error "[-] Failed to process download request transaction. Error!", writes)
                  else (.Success fn, writes)
      | _ =>
          (.Error ("Incorrect arguments. Expecting [sender_pk, recipient_pk, " ++
            "deposit_amount, deposit_time, recipient_ip, recipient_port]"), []) := by
  unfold execute download_request
  rw [outcome_args]
  split
  · simp only [outcome_ite]
    split
    · rfl
    · split
      · rfl
      · simp only [outcome_MarshalAPDL, outcome_PutState, outcome_Now, outcome_ite, outcome_pure]
        split
        · rfl
        · split
          · rfl
          · rfl
  · rfl

theorem execute_penalty (args : List String) :
    execute (penalty C args) stub =
      match args with
      | [message, recipientSig, senderSig, s_pubKey, r_pubKey] =>
          let contractKey := ContractKeyPrefix ++ s_pubKey ++ r_pubKey
          let apdl := Unmarshal false (stub.state contractKey)
          if stub.env.fails 0 then (.Error "[-] Failed to get contract", [])
          else if verifySig C (bytes message)
              [apdl.SoftwareOwner.PubKey, apdl.SoftwareUser.PubKey]
              [recipientSig, senderSig] = false then
            (.Error "[-] Signature verification failed. Penalty not applied.", [])
          else (.Success "[+] Penalty applied\n", penaltyWrites stub contractKey)
      | _ => (.Error "need to pass recipient sig", []) := by
  unfold execute penalty
  split
  · simp only [outcome_GetState, outcome_MarshalAPDL, outcome_PutState, outcome_ite, outcome_pure]
    rcases stub.get_cases 0 _ with ⟨h0, hget⟩ | ⟨h0, hget⟩
    · rw [hget, h0]
      rfl
    · rw [hget, h0]
      rfl
  · rfl

theorem execute_refund (ContractKey : String) (args : List String) :
    execute (refund ContractKey args) stub =
      match args with
      | [_, _, _, s_pubKey, r_pubKey] =>
          let contractKey := ContractKeyPrefix ++ s_pubKey ++ r_pubKey
          let apdl := Unmarshal false (stub.state contractKey)
          if stub.env.fails 0 then (.Error stub.env.errorText, [])
          else if apdl.Status ≠ "download_request" then
            (.Error ("[-] Invalid status for refund. Current status: " ++ apdl.Status), [])
          else if (stub.env.now 0).After apdl.ContractExpiry then
            (.Success "[+] APDL contract expired.", refundWrites stub ContractKey contractKey)
          else (.Error "[-] APDL contract not yet expired", [])
      | _ => (.Error "need to pass recipient sig", []) := by
  unfold execute refund
  split
  · simp only [outcome_GetState, outcome_MarshalAPDL, outcome_PutState, outcome_ErrorText,
      outcome_Now, outcome_ite, outcome_pure]
    rcases stub.get_cases 0 _ with ⟨h0, hget⟩ | ⟨h0, hget⟩
    · rw [hget, h0]
      rfl
    · rw [hget, h0]
      rfl
  · rfl

theorem execute_Invoke (ContractKey : String) :
    execute (Invoke C ContractKey) stub =
      match stub.args with
      | [] => (.Success "", [])
      | fn :: params =>
          if fn = "download_request" then execute (download_request fn) stub
          else if fn = "penalty" then execute (penalty C params) stub
          else if fn = "refund" then execute (refund ContractKey params) stub
          else (.Success fn, []) := by
  unfold execute Invoke
  rw [outcome_function, Stub.function]
  cases stub.args with
  | nil => rfl
  | cons fn params => simp only [outcome_ite, outcome_pure]

/-! ## When a penalty call succeeds -/

/-- The keys that have to sign, as they are read back. -/
def signers (ledger : Ledger) (contractKey : String) : List String :=
  [(Unmarshal false (ledger contractKey)).SoftwareOwner.PubKey,
    (Unmarshal false (ledger contractKey)).SoftwareUser.PubKey]

/-- The transaction is a penalty call that gets as far as the signatures. -/
structure AsksPenalty (message recipientSig senderSig contractKey : String) : Prop where
  args : ∃ s_pubKey r_pubKey, contractKey = ContractKeyPrefix ++ s_pubKey ++ r_pubKey ∧
    stub.args = ["penalty", message, recipientSig, senderSig, s_pubKey, r_pubKey]
  read : stub.env.fails 0 = false

variable {C stub}

theorem penalty_success_iff {ContractKey : String} {params : List String}
    (hfn : stub.args = "penalty" :: params) :
    (execute (Invoke C ContractKey) stub).1.isSuccess = true ↔
      ∃ message recipientSig senderSig contractKey,
        AsksPenalty stub message recipientSig senderSig contractKey ∧
          verifySig C (bytes message) (signers stub.state contractKey)
            [recipientSig, senderSig] = true := by
  constructor
  · intro h
    rw [execute_Invoke, hfn] at h
    change (execute (penalty C params) stub).1.isSuccess = true at h
    rw [execute_penalty] at h
    split at h
    · rename_i message recipientSig senderSig s_pubKey r_pubKey
      dsimp only at h
      split at h
      · cases h
      · rename_i hread
        split at h
        · cases h
        · rename_i hverified
          exact ⟨message, recipientSig, senderSig, _,
            ⟨⟨s_pubKey, r_pubKey, rfl, hfn⟩, by simpa using hread⟩,
            Bool.of_not_eq_false hverified⟩
    · cases h
  · rintro ⟨message, recipientSig, senderSig, contractKey, hasks, hverified⟩
    obtain ⟨s_pubKey, r_pubKey, rfl, hargs⟩ := hasks.args
    rw [execute_Invoke, hargs]
    show (execute (penalty C [message, recipientSig, senderSig, s_pubKey, r_pubKey])
      stub).1.isSuccess = true
    unfold signers at hverified
    rw [execute_penalty]
    simp only [hasks.read, hverified]
    rfl

end Pepal.Chain.Multiapdlcc

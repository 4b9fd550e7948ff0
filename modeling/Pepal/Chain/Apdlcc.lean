import Pepal.Chain.ECDSASig
import Pepal.Chain.Shim

/-!
# The chaincode for one contract

`apdlcc.go`. The ledger holds one contract, under `ContractKey`, and the
balances of its two parties under their public keys. Each operation is a
program over the shim; after the programs there is one equation for each,
which says what it answers and what it writes, and `Invoke_success`, which
says what a successful transaction can have been. Later proofs use these and
do not look into the programs again.
-/

namespace Pepal.Chain.Apdlcc

def StartAmount : ℤ := 75000
def ContractKey : String := "contract"
def SenderIP : String := "0.0.0.0"
def SenderPort : String := "0"

variable (C : GoCrypto)

def verifySig (message : Bytes) (publicKeys signatures : List String) : Bool :=
  verifyAll C message publicKeys signatures

/-- The record that `Init` writes. -/
def initial (now : Time) : APDL :=
  { Status := "init", SoftwareOwner := zeroParty, SoftwareUser := zeroParty
    ContractExpiry := now, DepositAmount := 0 }

def Init : Shim Response := do
  let now ← Now
  let (b, _) ← MarshalAPDL true (initial now)
  let err ← PutState ContractKey b
  if err then return .Error "[-] Failed to process download request transaction. Error!"
  else return .Success "[+] Init completed\n"

/-- The contract that a download request creates. -/
def requested : String → String → String → String → Time → ℤ → APDL :=
  newContract SenderIP SenderPort

/-- The error for a call of `download_request` with too few or too many arguments. -/
def incorrectArguments (args : List String) : String :=
  "Incorrect number of arguments. Got " ++ Itoa args.length ++ ": " ++ Join args ++
    "Expecting [sender_pk, recipient_pk, deposit_amount, deposit_time, recipient_ip, " ++
    "recipient_port]"

def download_request (fn : String) : Shim Response := do
  let args ← GetStringArgs
  match args with
  | [_, senderPublicKey, recipientPublicKey, depositAmount, depositTime, recipientIP,
      recipientPort] =>
      let (amount, err) := Atoi depositAmount
      if err ∨ amount < 0 then return .Error "Invalid amount passed"
      else match Parse depositTime with
        | .error text =>
            return .Error ("Unable to parse: " ++ depositTime ++ " Error: " ++ text)
        | .ok dt => do
            let now ← Now
            if !dt.After now then do
              let now ← Now
              return .Error ("Invalid (past) time passed: " ++ dt.Format ++ ". Time Now: " ++
                now.Format)
            else do
              let apdl := requested senderPublicKey recipientPublicKey recipientIP recipientPort
                dt amount
              let initialAmount := Itoa (wrapInt (StartAmount - amount))
              -- only the last of these errors is looked at
              let _ ← PutState senderPublicKey initialAmount
              let _ ← PutState recipientPublicKey initialAmount
              let (b, _) ← MarshalAPDL true apdl
              let err ← PutState ContractKey b
              if err then
                return .Error "[-] Failed to process download request transaction. Error!"
              else return .Success fn
  | _ => return .Error (incorrectArguments args)

/-- The error of `penalty` when the signatures do not verify. -/
def verificationFailed (apdl : APDL) (hubSig userSig : String) : String :=
  let cmp1 := apdl.SoftwareOwner.PubKey ++ " vs. " ++ hubSig
  let cmp2 := apdl.SoftwareUser.PubKey ++ " vs. " ++ userSig
  "[-] Signature verification failed. Penalty not applied. comparisons: " ++ cmp1 ++ "---" ++ cmp2

def penalty (args : List String) : Shim Response :=
  match args with
  | [_, message, hubSig, userSig] => do
      let (contract, err) ← GetState ContractKey
      if err then return .Error "[-] Failed to get contract"
      else
        let apdl := Unmarshal true contract
        if apdl.Status = "init" ∨ apdl.Status = "penalized" then
          return .Error ("[-] Invalid status for penalty. Current status: " ++ apdl.Status)
        else
          let publicKeys := [apdl.SoftwareOwner.PubKey, apdl.SoftwareUser.PubKey]
          if verifySig C (bytes message) publicKeys [hubSig, userSig] = false then
            return .Error (verificationFailed apdl hubSig userSig)
          else do
            let (value, _) ← GetState apdl.SoftwareUser.PubKey
            let (balance, _) := Atoi value
            let endBalance := Itoa (wrapInt (balance - apdl.DepositAmount))
            let _ ← PutState apdl.SoftwareUser.PubKey endBalance
            let (b, _) ← MarshalAPDL true { apdl with Status := "penalized" }
            let _ ← PutState ContractKey b
            return .Success "[+] Penalty applied\n"
  | _ => return .Error "need to pass recipient sig"

def refund : Shim Response := do
  let (contract, err) ← GetState ContractKey
  if err then do
    let text ← ErrorText
    return .Error text
  else
    let apdl := Unmarshal true contract
    if apdl.Status ≠ "download_request" then
      return .Error ("[-] Invalid status for refund. Current status: " ++ apdl.Status)
    else do
      let tnow ← Now
      if tnow.After apdl.ContractExpiry then do
        let (b, _) ← MarshalAPDL true { apdl with Status := "expired" }
        let _ ← PutState ContractKey b
        let (value, _) ← GetState apdl.SoftwareUser.PubKey
        let (balance, _) := Atoi value
        let endBalance := Itoa (wrapInt (balance + apdl.DepositAmount))
        let _ ← PutState apdl.SoftwareUser.PubKey endBalance
        return .Success "[+] APDL contract expired."
      else return .Error "[-] APDL contract not yet expired"

def get_status : Shim Response := do
  let (contract, err) ← GetState ContractKey
  if err then do
    let text ← ErrorText
    return .Error text
  else return .Success contract

/-- The branches shadow `err`, so at the end it is nil and the result, by
default the name of the function, is returned. -/
def Invoke : Shim Response := do
  let (fn, args) ← GetFunctionAndParameters
  if fn = "download_request" then download_request fn
  else if fn = "penalty" then penalty C args
  else if fn = "refund" then refund
  else if fn = "get_status" then get_status
  else return .Success fn

def chaincode : Chaincode := { Init := Init, Invoke := Invoke C }

/-! ## What is on the ledger -/

def record (ledger : Ledger) : APDL := Unmarshal true (ledger ContractKey)

def balance (ledger : Ledger) (key : String) : ℤ := (Atoi (ledger key)).1

variable (stub : Stub)

/-- The write of `Init`. -/
def initWrites : List (String × String) :=
  stub.put 0 ContractKey (stub.marshal true (initial (stub.env.now 0))).1

def requestWrites (s r ip port : String) (dt : Time) (amount : ℤ) : List (String × String) :=
  stub.put 0 s (Itoa (wrapInt (StartAmount - amount))) ++
    stub.put 1 r (Itoa (wrapInt (StartAmount - amount))) ++
      stub.put 2 ContractKey (stub.marshal true (requested s r ip port dt amount)).1

/-- The user's balance after a penalty, from what is read of it. -/
def charged : ℤ :=
  wrapInt ((Atoi (stub.get 1 (record stub.state).SoftwareUser.PubKey).1).1 -
    (record stub.state).DepositAmount)

def penaltyWrites : List (String × String) :=
  stub.put 2 (record stub.state).SoftwareUser.PubKey (Itoa (charged stub)) ++
    stub.put 3 ContractKey (stub.marshal true { record stub.state with Status := "penalized" }).1

/-- The user's balance after a refund. -/
def repaid : ℤ :=
  wrapInt ((Atoi (stub.get 2 (record stub.state).SoftwareUser.PubKey).1).1 +
    (record stub.state).DepositAmount)

def refundWrites : List (String × String) :=
  stub.put 1 ContractKey (stub.marshal true { record stub.state with Status := "expired" }).1 ++
    stub.put 3 (record stub.state).SoftwareUser.PubKey (Itoa (repaid stub))

/-- The transaction is a download request that passes every check. -/
structure Requests (s r ip port : String) (dt : Time) (amount : ℤ) : Prop where
  args : ∃ depositAmount depositTime,
    stub.args = ["download_request", s, r, depositAmount, depositTime, ip, port] ∧
      Atoi depositAmount = (amount, false) ∧ Parse depositTime = .ok dt
  nonneg : 0 ≤ amount
  future : dt.After (stub.env.now 0) = true
  written : stub.env.fails 2 = false

/-- The transaction is a penalty call that gets as far as the signatures. -/
structure AsksPenalty (message hubSig userSig : String) : Prop where
  args : ∃ first, stub.args = ["penalty", first, message, hubSig, userSig]
  read : stub.env.fails 0 = false
  notInit : (record stub.state).Status ≠ "init"
  notPenalized : (record stub.state).Status ≠ "penalized"

/-- The keys that have to sign. -/
def signers (ledger : Ledger) : List String :=
  [(record ledger).SoftwareOwner.PubKey, (record ledger).SoftwareUser.PubKey]

/-- The transaction is a penalty call that passes every check. -/
structure Penalizes (message hubSig userSig : String) : Prop
    extends AsksPenalty stub message hubSig userSig where
  verified : verifySig C (bytes message) (signers stub.state) [hubSig, userSig] = true

structure Refunds : Prop where
  args : ∃ params, stub.args = "refund" :: params
  read : stub.env.fails 0 = false
  status : (record stub.state).Status = "download_request"
  expired : (stub.env.now 0).After (record stub.state).ContractExpiry = true

theorem rejects_ContractKey (call : ℕ) : stub.rejects call ContractKey = stub.env.fails call :=
  Bool.false_or _

theorem execute_Init :
    execute Init stub =
      if stub.env.fails 0 then
        (.Error "[-] Failed to process download request transaction. Error!", initWrites stub)
      else (.Success "[+] Init completed\n", initWrites stub) := by
  unfold execute Init
  simp only [outcome_Now, outcome_MarshalAPDL, outcome_PutState, outcome_ite, outcome_pure,
    rejects_ContractKey]
  split
  · rfl
  · rfl

theorem execute_penalty (args : List String) :
    execute (penalty C args) stub =
      match args with
      | [_, message, hubSig, userSig] =>
          let apdl := record stub.state
          if stub.env.fails 0 then (.Error "[-] Failed to get contract", [])
          else if apdl.Status = "init" ∨ apdl.Status = "penalized" then
            (.Error ("[-] Invalid status for penalty. Current status: " ++ apdl.Status), [])
          else if verifySig C (bytes message) (signers stub.state) [hubSig, userSig] = false then
            (.Error (verificationFailed apdl hubSig userSig), [])
          else (.Success "[+] Penalty applied\n", penaltyWrites stub)
      | _ => (.Error "need to pass recipient sig", []) := by
  unfold execute penalty
  split
  · simp only [outcome_GetState, outcome_MarshalAPDL, outcome_PutState, outcome_ite, outcome_pure]
    rcases stub.get_cases 0 ContractKey with ⟨h0, hget⟩ | ⟨h0, hget⟩
    · rw [hget, h0]
      rfl
    · rw [hget, h0]
      rfl
  · rfl

theorem execute_refund :
    execute refund stub =
      let apdl := record stub.state
      if stub.env.fails 0 then (.Error stub.env.errorText, [])
      else if apdl.Status ≠ "download_request" then
        (.Error ("[-] Invalid status for refund. Current status: " ++ apdl.Status), [])
      else if (stub.env.now 0).After apdl.ContractExpiry then
        (.Success "[+] APDL contract expired.", refundWrites stub)
      else (.Error "[-] APDL contract not yet expired", []) := by
  unfold execute refund
  simp only [outcome_GetState, outcome_MarshalAPDL, outcome_PutState, outcome_ErrorText,
    outcome_Now, outcome_ite, outcome_pure]
  rcases stub.get_cases 0 ContractKey with ⟨h0, hget⟩ | ⟨h0, hget⟩
  · rw [hget, h0]
    rfl
  · rw [hget, h0]
    rfl

theorem execute_get_status :
    execute get_status stub =
      (if stub.env.fails 0 then .Error stub.env.errorText else .Success (stub.state ContractKey),
        []) := by
  unfold execute get_status
  simp only [outcome_GetState, outcome_ErrorText, outcome_ite, outcome_pure]
  rcases stub.get_cases 0 ContractKey with ⟨h0, hget⟩ | ⟨h0, hget⟩
  · rw [hget, h0]
    rfl
  · rw [hget, h0]
    rfl

theorem execute_download_request (fn : String) :
    execute (download_request fn) stub =
      match stub.args with
      | [_, s, r, depositAmount, depositTime, ip, port] =>
          if (Atoi depositAmount).2 ∨ (Atoi depositAmount).1 < 0 then
            (.Error "Invalid amount passed", [])
          else match Parse depositTime with
            | .error text =>
                (.Error ("Unable to parse: " ++ depositTime ++ " Error: " ++ text), [])
            | .ok dt =>
                if !dt.After (stub.env.now 0) then
                  (.Error ("Invalid (past) time passed: " ++ dt.Format ++ ". Time Now: " ++
                    (stub.env.now 1).Format), [])
                else
                  let writes := requestWrites stub s r ip port dt (Atoi depositAmount).1
                  if stub.env.fails 2 then
                    (.Error "[-] Failed to process download request transaction. Error!", writes)
                  else (.Success fn, writes)
      | _ => (.Error (incorrectArguments stub.args), []) := by
  unfold execute download_request
  rw [outcome_args]
  split
  · simp only [outcome_ite]
    split
    · rfl
    · split
      · rfl
      · simp only [outcome_MarshalAPDL, outcome_PutState, outcome_Now, outcome_ite, outcome_pure,
          rejects_ContractKey]
        split
        · rfl
        · split
          · rfl
          · rfl
  · rfl

/-- `Invoke` by the name of the function. -/
theorem execute_Invoke :
    execute (Invoke C) stub =
      match stub.args with
      | [] => (.Success "", [])
      | fn :: params =>
          if fn = "download_request" then execute (download_request fn) stub
          else if fn = "penalty" then execute (penalty C params) stub
          else if fn = "refund" then execute refund stub
          else if fn = "get_status" then execute get_status stub
          else (.Success fn, []) := by
  unfold execute Invoke
  rw [outcome_function, Stub.function]
  cases stub.args with
  | nil => rfl
  | cons fn params =>
      simp only [outcome_ite, outcome_pure]

/-! ## When the operations succeed -/

section Success

variable {C : GoCrypto} {stub : Stub}

/-- The terms of a request are in its arguments. -/
theorem Requests.terms {s r ip port : String} {dt : Time} {amount : ℤ}
    (h : Requests stub s r ip port dt amount)
    {first s' r' depositAmount depositTime ip' port' : String}
    (hargs : stub.args = [first, s', r', depositAmount, depositTime, ip', port']) :
    s = s' ∧ r = r' ∧ ip = ip' ∧ port = port' ∧ Atoi depositAmount = (amount, false) ∧
      Parse depositTime = .ok dt := by
  obtain ⟨_, _, hargs', hamount, hdt⟩ := h.args
  have heq := hargs'.symm.trans hargs
  simp only [List.cons.injEq, and_true] at heq
  obtain ⟨-, rfl, rfl, rfl, rfl, rfl, rfl⟩ := heq
  exact ⟨rfl, rfl, rfl, rfl, hamount, hdt⟩

theorem Requests.unique {stub' : Stub} (hstub : stub.args = stub'.args)
    {s s' r r' ip ip' port port' : String} {dt dt' : Time} {amount amount' : ℤ}
    (h : Requests stub s r ip port dt amount) (h' : Requests stub' s' r' ip' port' dt' amount') :
    s = s' ∧ r = r' ∧ ip = ip' ∧ port = port' ∧ dt = dt' ∧ amount = amount' := by
  obtain ⟨depositAmount, depositTime, hargs, hamount, hdt⟩ := h'.args
  obtain ⟨rfl, rfl, rfl, rfl, hamount', hdt'⟩ := h.terms (hstub.trans hargs)
  obtain ⟨rfl, -⟩ := Prod.mk.inj (hamount'.symm.trans hamount)
  exact ⟨rfl, rfl, rfl, rfl, Except.ok.inj (hdt'.symm.trans hdt), rfl⟩

theorem AsksPenalty.terms {message hubSig userSig : String}
    (h : AsksPenalty stub message hubSig userSig) {fn first message' hubSig' userSig' : String}
    (hargs : stub.args = [fn, first, message', hubSig', userSig']) :
    message = message' ∧ hubSig = hubSig' ∧ userSig = userSig' := by
  obtain ⟨_, hargs'⟩ := h.args
  have heq := hargs'.symm.trans hargs
  simp only [List.cons.injEq, and_true] at heq
  exact heq.2.2

theorem execute_of_requests {s r ip port : String} {dt : Time} {amount : ℤ}
    (h : Requests stub s r ip port dt amount) :
    execute (Invoke C) stub =
      (.Success "download_request", requestWrites stub s r ip port dt amount) := by
  obtain ⟨depositAmount, depositTime, hargs, hamount, hdt⟩ := h.args
  rw [execute_Invoke, hargs]
  show execute (download_request "download_request") stub = _
  rw [execute_download_request]
  simp only [hargs, hamount, hdt, h.future, h.written]
  rw [if_neg (not_invalid h.nonneg)]
  rfl

/-- **A download request succeeds exactly when it passes the checks.** -/
theorem request_success_iff {params : List String}
    (hfn : stub.args = "download_request" :: params) :
    (execute (Invoke C) stub).1.isSuccess = true ↔
      ∃ s r ip port dt amount, Requests stub s r ip port dt amount := by
  constructor
  · intro h
    rw [execute_Invoke, hfn] at h
    change (execute (download_request "download_request") stub).1.isSuccess = true at h
    rw [execute_download_request] at h
    split at h
    · rename_i first s r depositAmount depositTime ip port hargs
      obtain ⟨rfl, -⟩ := List.cons.inj (hargs.symm.trans hfn)
      split at h
      · cases h
      · rename_i hamount
        rw [not_or, Bool.not_eq_true, not_lt] at hamount
        split at h
        · cases h
        · rename_i dt hdt
          split at h
          · cases h
          · rename_i hfuture
            dsimp only at h
            split at h
            · cases h
            · rename_i hwritten
              exact ⟨s, r, ip, port, dt, (Atoi depositAmount).1,
                ⟨depositAmount, depositTime, hargs, Prod.ext rfl hamount.1, hdt⟩, hamount.2,
                by simpa using hfuture, by simpa using hwritten⟩
    · cases h
  · rintro ⟨s, r, ip, port, dt, amount, h⟩
    rw [execute_of_requests h]
    rfl

theorem execute_of_penalizes {message hubSig userSig : String}
    (h : Penalizes C stub message hubSig userSig) :
    execute (Invoke C) stub = (.Success "[+] Penalty applied\n", penaltyWrites stub) := by
  obtain ⟨first, hargs⟩ := h.args
  have hstatus : ¬ ((record stub.state).Status = "init" ∨
      (record stub.state).Status = "penalized") := not_or.mpr ⟨h.notInit, h.notPenalized⟩
  rw [execute_Invoke, hargs]
  show execute (penalty C [first, message, hubSig, userSig]) stub = _
  rw [execute_penalty]
  simp only [h.read, h.verified]
  rw [if_neg Bool.false_ne_true, if_neg hstatus]
  rfl

/-- **A penalty call succeeds exactly when it passes the checks.** -/
theorem penalty_success_iff {params : List String} (hfn : stub.args = "penalty" :: params) :
    (execute (Invoke C) stub).1.isSuccess = true ↔
      ∃ message hubSig userSig, Penalizes C stub message hubSig userSig := by
  constructor
  · intro h
    rw [execute_Invoke, hfn] at h
    change (execute (penalty C params) stub).1.isSuccess = true at h
    rw [execute_penalty] at h
    split at h
    · rename_i first message hubSig userSig
      dsimp only at h
      split at h
      · cases h
      · rename_i hread
        split at h
        · cases h
        · rename_i hstatus
          split at h
          · cases h
          · rename_i hverified
            obtain ⟨hinit, hpenalized⟩ := not_or.mp hstatus
            refine ⟨message, hubSig, userSig, ?_, by simpa using hverified⟩
            exact ⟨⟨first, hfn⟩, by simpa using hread, hinit, hpenalized⟩
    · cases h
  · rintro ⟨message, hubSig, userSig, h⟩
    rw [execute_of_penalizes h]
    rfl

theorem execute_of_refunds (h : Refunds stub) :
    execute (Invoke C) stub = (.Success "[+] APDL contract expired.", refundWrites stub) := by
  obtain ⟨params, hargs⟩ := h.args
  rw [execute_Invoke, hargs]
  show execute refund stub = _
  rw [execute_refund]
  simp only [h.read, h.status, h.expired]
  rfl

/-- **A refund succeeds exactly when it passes the checks.** -/
theorem refund_success_iff {params : List String} (hfn : stub.args = "refund" :: params) :
    (execute (Invoke C) stub).1.isSuccess = true ↔ Refunds stub := by
  constructor
  · intro h
    rw [execute_Invoke, hfn] at h
    change (execute refund stub).1.isSuccess = true at h
    rw [execute_refund] at h
    dsimp only at h
    split at h
    · cases h
    · rename_i hread
      split at h
      · cases h
      · rename_i hstatus
        split at h
        · rename_i hexpired
          exact ⟨⟨params, hfn⟩, by simpa using hread, not_not.mp hstatus, hexpired⟩
        · cases h
  · intro h
    rw [execute_of_refunds h]
    rfl

/-- What a successful call has been, with its writes. -/
inductive Done (C : GoCrypto) (stub : Stub) : List (String × String) → Prop
  | requested {s r ip port : String} {dt : Time} {amount : ℤ}
      (h : Requests stub s r ip port dt amount) :
      Done C stub (requestWrites stub s r ip port dt amount)
  | penalized {message hubSig userSig : String} (h : Penalizes C stub message hubSig userSig) :
      Done C stub (penaltyWrites stub)
  | refunded (h : Refunds stub) : Done C stub (refundWrites stub)
  | read : Done C stub []

/-- **What a successful call of `Invoke` can have been.** -/
theorem Invoke_success (h : (execute (Invoke C) stub).1.isSuccess = true) :
    Done C stub (execute (Invoke C) stub).2 := by
  cases hargs : stub.args with
  | nil =>
      rw [execute_Invoke, hargs]
      exact .read
  | cons fn params =>
      by_cases hrequest : fn = "download_request"
      · rw [hrequest] at hargs
        obtain ⟨s, r, ip, port, dt, amount, hrequests⟩ := (request_success_iff hargs).mp h
        rw [execute_of_requests hrequests]
        exact .requested hrequests
      · by_cases hpenalty : fn = "penalty"
        · rw [hpenalty] at hargs
          obtain ⟨message, hubSig, userSig, hpenalizes⟩ := (penalty_success_iff hargs).mp h
          rw [execute_of_penalizes hpenalizes]
          exact .penalized hpenalizes
        · by_cases hrefund : fn = "refund"
          · rw [hrefund] at hargs
            have hrefunds := (refund_success_iff hargs).mp h
            rw [execute_of_refunds hrefunds]
            exact .refunded hrefunds
          · have hwrites : (execute (Invoke C) stub).2 = [] := by
              rw [execute_Invoke, hargs]
              dsimp only
              rw [if_neg hrequest, if_neg hpenalty, if_neg hrefund, execute_get_status]
              split
              · rfl
              · rfl
            rw [hwrites]
            exact .read

end Success

end Pepal.Chain.Apdlcc

import Pepal.Software.ContractText

/-!
# What a download needs

The sender service asks the chaincode for the contract and begins the transfer
if it can read the user's address. So whether a download is served is decided by
the run of the chaincode, and of all that happens in it by one thing: the port in
the last request. Neither a penalty nor the time nor the downloads before it make
a difference.
-/

namespace Pepal

namespace Chain.Apdlcc

variable {C : GoCrypto}

/-- The port that the contract names after a transaction, from what the client
sees of it. -/
def portAfter (C : GoCrypto) (ledger : Ledger) (tx : Tx) (port : String) : String :=
  if ((chaincode C).answer ledger tx).1.isSuccess then
    match tx.call, tx.args with
    | .Init, _ => ""
    | .Invoke, ["download_request", _, _, _, _, _, recipientPort] => recipientPort
    | .Invoke, _ => port
  else port

/-- The port of the last request that succeeded in the run, and no text before
the first and after `Init`. -/
def lastPort (C : GoCrypto) : Ledger → String → List Tx → String
  | _, port, [] => port
  | ledger, port, tx :: txs =>
      lastPort C ((chaincode C).next ledger tx) (portAfter C ledger tx port) txs

/-- The contract names the port, and its text is that of a record or missing. -/
structure Ported (ledger : Ledger) (port : String) : Prop where
  port : (record ledger).SoftwareUser.Port = port
  text : ledger ContractKey = "" ∨ Marshal true (record ledger) = some (ledger ContractKey)

/-! ## The text of the contract after a transaction -/

/-- What the encoder leaves of a record that it takes. -/
theorem text_marshal {stub : Stub} (h : stub.env.marshalFails = false) {a : APDL}
    (hstorable : a.Storable) : Marshal true a = some (stub.marshal true a).1 := by
  obtain ⟨b, hb, -⟩ := Unmarshal_Marshal true hstorable
  rw [Stub.marshal, h, if_neg Bool.false_ne_true, hb]

theorem ported_of_text {ledger : Ledger} {a : APDL} (hstorable : a.Storable)
    (h : Marshal true a = some (ledger ContractKey)) : Ported ledger a.SoftwareUser.Port := by
  obtain ⟨b, hb, hread⟩ := Unmarshal_Marshal true hstorable
  obtain rfl := Option.some.inj (hb.symm.trans h)
  have hrecord : record ledger = a := hread
  exact ⟨by rw [hrecord], Or.inr (by rw [hrecord, h])⟩

theorem ported_of_empty {ledger : Ledger} (h : ledger ContractKey = "") : Ported ledger "" where
  port := by
    unfold record
    rw [h]
    rfl
  text := Or.inl h

theorem ported_init (ledger : Ledger) {tx : Tx} (h : tx.env.fails 0 = false) :
    Ported (commit ledger (initWrites (tx.stub ledger))) "" := by
  have hput : (tx.stub ledger).rejects 0 ContractKey = false := by
    rw [rejects_ContractKey]
    exact h
  have htext : commit ledger (initWrites (tx.stub ledger)) ContractKey =
      ((tx.stub ledger).marshal true (initial (tx.env.now 0))).1 := by
    unfold initWrites
    rw [commit_put_same hput]
    rfl
  by_cases hyear : (tx.env.now 0).year < 10 ^ 4
  · have hstorable : (initial (tx.env.now 0)).Storable := ⟨hyear, (by decide : minInt ≤ 0),
      (by decide : (0 : ℤ) ≤ maxInt)⟩
    apply ported_of_text hstorable
    rw [htext]
    exact text_marshal tx.marshals hstorable
  · -- a clock after the year 9999
    have hnone : Marshal true (initial (tx.env.now 0)) = none := if_neg hyear
    refine ported_of_empty ?_
    rw [htext, Stub.marshal_none _ hnone]

theorem ported_request {ledger : Ledger} {tx : Tx} {s r ip port : String} {dt : Time} {amount : ℤ}
    (h : Requests (tx.stub ledger) s r ip port dt amount) :
    Ported (commit ledger (requestWrites (tx.stub ledger) s r ip port dt amount)) port :=
  ported_of_text (storable_requested h) (text_request h)

theorem ported_penalty {ledger : Ledger} {tx : Tx} (h : tx.env.fails 3 = false) {port : String}
    (hported : Ported ledger port) :
    Ported (commit ledger (penaltyWrites (tx.stub ledger))) port := by
  have hput : (tx.stub ledger).rejects 3 ContractKey = false := by
    rw [rejects_ContractKey]
    exact h
  have hstorable : { record ledger with Status := "penalized" }.Storable :=
    storable_Unmarshal true (ledger ContractKey)
  have hpenalized : Ported (commit ledger (penaltyWrites (tx.stub ledger)))
      { record ledger with Status := "penalized" }.SoftwareUser.Port := by
    apply ported_of_text hstorable
    unfold penaltyWrites
    rw [commit_append, commit_put_same hput]
    exact text_marshal tx.marshals hstorable
  rwa [← hported.port]

/-! ## The port of the last request -/

theorem portAfter_of_request {ledger : Ledger} {tx : Tx} (hcall : tx.call = .Invoke)
    {s r ip port : String} {dt : Time} {amount : ℤ}
    (h : Requests (tx.stub ledger) s r ip port dt amount) (before : String) :
    portAfter C ledger tx before = port := by
  obtain ⟨depositAmount, depositTime, hargs, -⟩ := h.args
  have hargs' : tx.args = ["download_request", s, r, depositAmount, depositTime, ip, port] := hargs
  unfold portAfter
  rw [answer_Invoke C ledger hcall, execute_of_requests h, hcall, hargs']
  rfl

theorem portAfter_of_other {ledger : Ledger} {tx : Tx} (hcall : tx.call = .Invoke)
    (hargs : ∀ params, tx.args ≠ "download_request" :: params) (port : String) :
    portAfter C ledger tx port = port := by
  unfold portAfter
  rw [hcall]
  split
  · split
    · contradiction
    · rename_i hrequest
      exact absurd hrequest (hargs _)
    · rfl
  · rfl

/-- **A transaction keeps the port of the last request in the contract**, if a
penalty that is accepted is written. -/
theorem ported_next {ledger : Ledger} {tx : Tx} {port : String} (hsound : Sound ledger)
    (hwritten : tx.env.fails 3 = false) (h : Ported ledger port) :
    Ported ((chaincode C).next ledger tx) (portAfter C ledger tx port) := by
  by_cases hsuccess : ((chaincode C).answer ledger tx).1.isSuccess = true
  · cases hcall : tx.call with
    | Init =>
        have hport : portAfter C ledger tx port = "" := by
          unfold portAfter
          rw [if_pos hsuccess, hcall]
        rw [hport, Chaincode.next_of_success hsuccess]
        rw [(chaincode C).answer_of_Init ledger hcall] at hsuccess ⊢
        change (execute Init (tx.stub ledger)).1.isSuccess = true at hsuccess
        show Ported (commit ledger (execute Init (tx.stub ledger)).2) ""
        rw [execute_Init] at hsuccess ⊢
        cases h0 : (tx.stub ledger).env.fails 0 with
        | true =>
            rw [h0] at hsuccess
            cases hsuccess
        | false => exact ported_init ledger h0
    | Invoke =>
        by_cases hargs : ∃ params, tx.args = "download_request" :: params
        · obtain ⟨params, hargs⟩ := hargs
          have hfn : (tx.stub ledger).args = "download_request" :: params := hargs
          rw [answer_Invoke C ledger hcall] at hsuccess
          obtain ⟨s, r, ip, port', dt, amount, hrequests⟩ := (request_success_iff hfn).mp hsuccess
          rw [portAfter_of_request hcall hrequests, next_of_requests hcall hrequests]
          exact ported_request hrequests
        · rw [portAfter_of_other hcall fun params heq => hargs ⟨params, heq⟩]
          have hhappens := happens C ledger tx
          generalize (chaincode C).next ledger tx = ledger' at hhappens ⊢
          cases hhappens with
          | initialized hcall' =>
              rw [hcall] at hcall'
              cases hcall'
          | requested _ hrequests =>
              obtain ⟨_, _, hargs', -⟩ := hrequests.args
              exact absurd ⟨_, hargs'⟩ hargs
          | penalized => exact ported_penalty hwritten h
          | refunded _ hrefunds => exact absurd hrefunds (hsound.not_refunds rfl)
          | unchanged => exact h
  · have hport : portAfter C ledger tx port = port := if_neg hsuccess
    rw [hport, Chaincode.next_of_failure hsuccess]
    exact h

/-- **The contract of a run names the port of the last request.** -/
theorem ported_run {txs : List Tx} (hwritten : ∀ tx ∈ txs, tx.env.fails 3 = false)
    {ledger : Ledger} {port : String} (hsound : Sound ledger) (h : Ported ledger port) :
    Ported (Runs.run (chaincode C).next ledger txs) (lastPort C ledger port txs) := by
  induction txs generalizing ledger port with
  | nil => exact h
  | cons tx txs ih =>
      have htx := hwritten tx List.mem_cons_self
      exact ih (fun tx' htx' => hwritten tx' (List.mem_cons_of_mem tx htx')) (sound_next hsound tx)
        (ported_next hsound htx h)

end Chain.Apdlcc

namespace Software.SenderService

open Chain (GoCrypto Stub Tx emptyLedger byteCrypto execute)
open Chain.Apdlcc (ContractKey chaincode initTx request penaltyCall signature lastPort Ported)
open Json (Value rereadText)

/-- The service begins a transfer. -/
def Begins (actions : List Action) : Prop := ∃ host port, Action.connect host port ∈ actions

/-- Without a text there is no contract to read. -/
theorem get_status_of_empty {stub : Stub} {payload : String} {n : Rest.Network}
    (hempty : stub.state ContractKey = "")
    (hread : (execute Chain.Apdlcc.get_status stub).1 = .Success payload)
    (hanswers : n.Answers payload) (username : String) :
    get_status (Rest.send (Rest.outcome username n)) = none := by
  rw [send_of_answers hread hanswers, hempty]
  rfl

/-- **What a download needs.** In every state of every run, a download is served
exactly if the port in the last request is an integer, as Python reads it: not
before the first request, and after it however often the download has been
served, whether the contract is penalized, and whether it has expired. -/
theorem transfers_iff (C : GoCrypto) {txs : List Tx}
    (hwritten : ∀ tx ∈ txs, tx.env.fails 3 = false) {stub : Stub}
    (hstub : stub.state = (chaincode C).run txs) {payload : String}
    (hread : (execute Chain.Apdlcc.get_status stub).1 = .Success payload) {n : Rest.Network}
    (hanswers : n.Answers payload) {req_data : Value} (htxid : HasTxid req_data)
    (username : String) (w : World) :
    Begins (download_request w req_data (Rest.send (Rest.outcome username n))).1 ↔
      (int (rereadText (lastPort C emptyLedger "" txs).toList)).isSome = true := by
  have hported : Ported stub.state (lastPort C emptyLedger "" txs) := by
    rw [hstub]
    exact Chain.Apdlcc.ported_run hwritten (Chain.Apdlcc.sound_zero rfl)
      (Chain.Apdlcc.ported_of_empty rfl)
  rcases hported.text with hempty | hrecord
  · have hport : lastPort C emptyLedger "" txs = "" := by
      rw [← hported.port, Chain.Apdlcc.record, hempty]
      rfl
    rw [download_request_raises htxid (get_status_of_empty hempty hread hanswers username), hport]
    constructor
    · rintro ⟨host, port, hmem⟩
      cases hmem
    · intro h
      cases h
  · have hstatus := get_status_of_answers hrecord hread hanswers username
    rw [hported.port] at hstatus
    cases hport : int (rereadText (lastPort C emptyLedger "" txs).toList) with
    | none =>
        rw [hport] at hstatus
        rw [download_request_raises htxid hstatus]
        constructor
        · rintro ⟨host, port, hmem⟩
          cases hmem
        · intro h
          cases h
    | some port =>
        rw [hport] at hstatus
        rw [download_request_valid htxid hstatus]
        exact iff_of_true ⟨_, _, (connect_mem_beginOT w _ port _ _).mpr ⟨rfl, rfl⟩⟩ rfl

/-- A request for the keys A and B, and a penalty with their signatures. -/
def penalizedRun : List Tx :=
  [initTx, request "A" "B" "100", penaltyCall (signature 5 7) (signature 66 109)]

theorem lastPort_penalizedRun : lastPort byteCrypto emptyLedger "" penalizedRun = "8080" := by
  have hother : ∀ params, (penaltyCall (signature 5 7) (signature 66 109)).args ≠
      "download_request" :: params := by
    intro params heq
    exact absurd (List.cons.inj heq).1 (by decide)
  have hamount : Chain.Atoi "100" = (100, false) := by decide
  simp only [penalizedRun, lastPort]
  rw [Chain.Apdlcc.portAfter_of_other rfl hother, Chain.Apdlcc.portAfter_of_request rfl
    (Chain.Apdlcc.requests_request _ "A" "B" hamount (by decide))]

/-- The user who has paid the penalty is served. -/
theorem transfers_iff_penalized :
    Begins (download_request ⟨true, true⟩ postTxid (Rest.send (Rest.outcome "hub"
      (onePeer ((chaincode byteCrypto).run penalizedRun ContractKey))))).1 := by
  have hcalm : ∀ tx ∈ penalizedRun, tx.env.fails 3 = false := by
    intro tx htx
    rcases List.mem_cons.mp htx with rfl | htx
    · rfl
    · rcases List.mem_cons.mp htx with rfl | htx
      · rfl
      · rw [List.mem_singleton.mp htx]
        rfl
  generalize hledger : (chaincode byteCrypto).run penalizedRun = ledger
  have hstub : (readCall ledger).state = (chaincode byteCrypto).run penalizedRun := hledger.symm
  refine (transfers_iff byteCrypto hcalm hstub (read_readCall ledger) (onePeer_answers _)
    postTxid_hasTxid "hub" ⟨true, true⟩).mpr ?_
  rw [lastPort_penalizedRun]
  decide

end Software.SenderService

end Pepal

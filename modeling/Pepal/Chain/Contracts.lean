import Pepal.Chain.Transactions

/-!
# The life of a contract

A contract begins with a download request and should end with a penalty or,
after its expiry, with a refund. Neither end is safe. The ledger has one place
for a contract, so the next request, of whatever parties, replaces it. And a
refund asks for the status `download_request`, which no operation writes: a
request leaves `download_requested`. Nor does an end last, if it is a refund: the
penalty asks whether the status is one of two, and `expired` is neither.
-/

namespace Pepal.Chain.Apdlcc

variable {C : GoCrypto}

/-! ## Refunds -/

/-- The transaction ends the contract and gives the deposit back. -/
structure Recovers (C : GoCrypto) (ledger : Ledger) (tx : Tx) : Prop where
  succeeds : ((chaincode C).answer ledger tx).1.isSuccess = true
  expired : (record ((chaincode C).next ledger tx)).Status = "expired"
  raised : balance ((chaincode C).next ledger tx) (record ledger).SoftwareUser.PubKey =
    balance ledger (record ledger).SoftwareUser.PubKey + (record ledger).DepositAmount

theorem refund_fails {ledger : Ledger} (h : Sound ledger) {tx : Tx} (hcall : tx.call = .Invoke)
    {params : List String} (hfn : tx.args = "refund" :: params) :
    ¬ ((chaincode C).answer ledger tx).1.isSuccess = true := by
  rw [answer_Invoke C ledger hcall, refund_success_iff hfn]
  exact h.not_refunds rfl

/-- **No deposit is ever recovered.** On a reachable ledger, whatever its
contract and whatever the clock, a refund fails and changes nothing. -/
theorem deposit_never_recovered {ledger : Ledger} (h : (chaincode C).Reachable ledger) {tx : Tx}
    (hcall : tx.call = .Invoke) {params : List String} (hfn : tx.args = "refund" :: params) :
    ¬ Recovers C ledger tx ∧ ((chaincode C).answer ledger tx).1.isSuccess = false ∧
      (chaincode C).next ledger tx = ledger := by
  have hfails := refund_fails (C := C) (sound_of_reachable h) hcall hfn
  refine ⟨?_, ?_, ?_⟩
  · intro hrecovers
    exact hfails hrecovers.succeeds
  · exact Bool.eq_false_of_not_eq_true hfails
  · exact Chaincode.next_of_failure hfails

/-- A refund a year after the expiry of the contract. -/
def lateRefund : Tx :=
  { call := .Invoke, args := ["refund"]
    env := { calm with now := fun _ => newYear 2031 }, marshals := rfl }

theorem deposit_never_recovered_opened :
    ¬ Recovers byteCrypto opened lateRefund ∧
      ((chaincode byteCrypto).answer opened lateRefund).1.isSuccess = false ∧
        (chaincode byteCrypto).next opened lateRefund = opened :=
  deposit_never_recovered reachable_opened rfl rfl

/-- **A deposit that should be recovered**: the contract is open, its expiry
has passed, no call fails, and the refund is refused. -/
theorem expired_deposit_kept :
    (chaincode byteCrypto).Reachable opened ∧
      record opened = requested "A" "B" "10.0.0.2" "8080" expiry 100 ∧
        (lateRefund.env.now 0).After expiry = true ∧ ¬ Recovers byteCrypto opened lateRefund := by
  have hfails := refund_fails (C := byteCrypto) (sound_of_reachable reachable_opened)
    (rfl : lateRefund.call = .Invoke) rfl
  refine ⟨reachable_opened, record_opened, by decide, ?_⟩
  intro hrecovers
  exact hfails hrecovers.succeeds

/-! ## A second request -/

/-- The open contract of the ledger is that of the two parties. -/
structure Pending (ledger : Ledger) (s r : String) : Prop where
  status : (record ledger).Status = "download_requested"
  owner : (record ledger).SoftwareOwner.PubKey = s
  user : (record ledger).SoftwareUser.PubKey = r

/-- A penalty touches the contract and the balance of its user. -/
theorem next_of_penalizes_of_ne {ledger : Ledger} {tx : Tx} (hcall : tx.call = .Invoke)
    {message hubSig userSig : String} (h : Penalizes C (tx.stub ledger) message hubSig userSig)
    {key : String} (hcontract : key ≠ ContractKey)
    (huser : key ≠ (record ledger).SoftwareUser.PubKey) :
    (chaincode C).next ledger tx key = ledger key := by
  rw [next_of_penalizes hcall h, penaltyWrites, commit_append, commit_put_of_ne hcontract]
  exact commit_put_of_ne huser ledger _

/-- What is left of the contract of `s` and `r` once there is one of `s'` and
`r'`. -/
structure Replaced (C : GoCrypto) (s r s' r' : String) (after : Ledger) : Prop where
  gone : ¬ Pending after s r
  /-- A penalty is checked under the new keys. -/
  checked : ∀ (call : Tx) (message hubSig userSig : String), call.call = .Invoke →
    Penalizes C (call.stub after) message hubSig userSig →
      verifySig C (bytes message) [s', r'] [hubSig, userSig] = true
  /-- A penalty charges the new user. -/
  untouched : ∀ (call : Tx) (message hubSig userSig : String), call.call = .Invoke →
    Penalizes C (call.stub after) message hubSig userSig →
      ∀ key, key ≠ ContractKey → key ≠ r' → (chaincode C).next after call key = after key
  /-- A refund fails. -/
  kept : ∀ (call : Tx) (params : List String), call.call = .Invoke →
    call.args = "refund" :: params → ¬ Recovers C after call

theorem replaced_of_record {after : Ledger} (hreach : (chaincode C).Reachable after)
    {s r s' r' ip port : String} {dt : Time} {amount : ℤ}
    (hrecord : record after = requested s' r' ip port dt amount) (hne : (s', r') ≠ (s, r)) :
    Replaced C s r s' r' after := by
  have howner : (record after).SoftwareOwner.PubKey = s' := by rw [hrecord]; rfl
  have huser : (record after).SoftwareUser.PubKey = r' := by rw [hrecord]; rfl
  constructor
  · intro hstill
    apply hne
    rw [← hstill.owner, ← hstill.user, howner, huser]
  · intro call message hubSig userSig _ hpenalizes
    have hverified := hpenalizes.verified
    change verifySig C (bytes message) (signers after) _ = true at hverified
    rwa [signers, howner, huser] at hverified
  · intro call message hubSig userSig hcall hpenalizes key hcontract hkey
    rw [← huser] at hkey
    exact next_of_penalizes_of_ne hcall hpenalizes hcontract hkey
  · intro call params hcall hfn hrecovers
    exact refund_fails (sound_of_reachable hreach) hcall hfn hrecovers.succeeds

/-- **A second request ends the first contract.** On every reachable ledger
with an open contract, the success of a request for other parties replaces
it. -/
theorem pending_contract_lost {ledger : Ledger} (hreach : (chaincode C).Reachable ledger)
    {s r : String} (hpending : Pending ledger s r) {tx : Tx} (hcall : tx.call = .Invoke)
    {s' r' amount date ip port : String}
    (hargs : tx.args = ["download_request", s', r', amount, date, ip, port])
    (hne : (s', r') ≠ (s, r)) (hsuccess : ((chaincode C).answer ledger tx).1.isSuccess = true) :
    record ((chaincode C).next ledger tx) ≠ record ledger ∧
      Replaced C s r s' r' ((chaincode C).next ledger tx) := by
  rw [answer_Invoke C ledger hcall] at hsuccess
  obtain ⟨s'', r'', ip', port', dt, deposit, hrequests⟩ := (request_success_iff hargs).mp hsuccess
  obtain ⟨rfl, rfl, -⟩ := hrequests.terms hargs
  have hrecord : record ((chaincode C).next ledger tx) =
      requested s'' r'' ip' port' dt deposit := by
    rw [next_of_requests hcall hrequests]
    exact record_request hrequests
  have hreplaced := replaced_of_record (hreach.step tx) hrecord hne
  refine ⟨?_, hreplaced⟩
  -- the old record would still be pending
  intro hsame
  apply hreplaced.gone
  constructor
  · rw [hsame, hpending.status]
  · rw [hsame, hpending.owner]
  · rw [hsame, hpending.user]

theorem pending_opened : Pending opened "A" "B" where
  status := by rw [record_opened]; rfl
  owner := by rw [record_opened]; rfl
  user := by rw [record_opened]; rfl

theorem requests_second :
    Requests ((request "C" "D" "100").stub opened) "C" "D" "10.0.0.2" "8080" expiry 100 :=
  requests_request opened "C" "D" (by decide) (by decide)

theorem answer_second :
    ((chaincode byteCrypto).answer opened (request "C" "D" "100")).1.isSuccess = true := by
  rw [answer_Invoke byteCrypto opened rfl, execute_of_requests requests_second]
  rfl

theorem pending_contract_lost_opened :
    record ((chaincode byteCrypto).next opened (request "C" "D" "100")) ≠ record opened ∧
      Replaced byteCrypto "A" "B" "C" "D"
        ((chaincode byteCrypto).next opened (request "C" "D" "100")) :=
  pending_contract_lost reachable_opened pending_opened rfl rfl (by decide) answer_second

/-- **A contract that should not be lost**: with the signatures of A and B a
penalty succeeds, and after the request of C for D the same call fails. -/
theorem first_contract_lost :
    (chaincode byteCrypto).Reachable opened ∧ Pending opened "A" "B" ∧
      ((chaincode byteCrypto).answer opened
        (penaltyCall (signature 65 109) (signature 66 109))).1.isSuccess = true ∧
      ((chaincode byteCrypto).answer opened (request "C" "D" "100")).1.isSuccess = true ∧
      ¬ Pending ((chaincode byteCrypto).next opened (request "C" "D" "100")) "A" "B" ∧
      ¬ ((chaincode byteCrypto).answer ((chaincode byteCrypto).next opened (request "C" "D" "100"))
        (penaltyCall (signature 65 109) (signature 66 109))).1.isSuccess = true := by
  have hrecord : record ((chaincode byteCrypto).next opened (request "C" "D" "100")) =
      requested "C" "D" "10.0.0.2" "8080" expiry 100 := by
    rw [next_of_requests rfl requests_second]
    exact record_request requests_second
  have hne : ("C", "D") ≠ ("A", "B") := by decide
  have hreplaced := replaced_of_record (reachable_opened.step _) hrecord hne
  refine ⟨reachable_opened, pending_opened, ?_, answer_second, hreplaced.gone, ?_⟩
  · rw [answer_Invoke byteCrypto opened rfl, execute_of_penalizes (penalizes_opened 65 109)]
    rfl
  · rw [answer_Invoke byteCrypto _ rfl, penalty_success_iff rfl]
    rintro ⟨message, hubSig, userSig, hpenalizes⟩
    have hverified := hreplaced.checked _ _ _ _ rfl hpenalizes
    obtain ⟨rfl, rfl, rfl⟩ := hpenalizes.toAsksPenalty.terms rfl
    obtain ⟨-, huser⟩ := (verifyAll_pair byteCrypto (bytes "m") "C" "D" _ _).mp hverified
    rw [signature, verifyEntry_bytes "D" 68 rfl] at huser
    revert huser
    decide

/-! ## A settled contract -/

/-- The statuses that the operations write. -/
def written : List String := ["init", "download_requested", "penalized", "expired"]

/-- The transaction asks for a penalty or a refund. -/
structure Settles (tx : Tx) : Prop where
  call : tx.call = .Invoke
  function : ∃ params, tx.args = "penalty" :: params ∨ tx.args = "refund" :: params

/-- The transaction is a penalty call that can read the contract and is signed by
its parties. -/
def Accuses (C : GoCrypto) (ledger : Ledger) (tx : Tx) : Prop :=
  ∃ first message hubSig userSig, tx.args = ["penalty", first, message, hubSig, userSig] ∧
    tx.env.fails 0 = false ∧
      verifySig C (bytes message) (signers ledger) [hubSig, userSig] = true

structure Refused (C : GoCrypto) (ledger : Ledger) (tx : Tx) : Prop where
  fails : ((chaincode C).answer ledger tx).1.isSuccess = false
  unchanged : (chaincode C).next ledger tx = ledger

theorem refused_iff {ledger : Ledger} {tx : Tx} :
    Refused C ledger tx ↔ ¬ ((chaincode C).answer ledger tx).1.isSuccess = true := by
  constructor
  · intro hrefused hsuccess
    exact Bool.false_ne_true (hrefused.fails.symm.trans hsuccess)
  · intro hfails
    exact ⟨Bool.eq_false_of_not_eq_true hfails, Chaincode.next_of_failure hfails⟩

/-- Of a contract that is settled only an expired one is penalized. -/
theorem penalty_of_settled {ledger : Ledger} (hstatus : (record ledger).Status ∈ written)
    (hsettled : (record ledger).Status ≠ "download_requested") {tx : Tx}
    (hcall : tx.call = .Invoke) {params : List String} (hfn : tx.args = "penalty" :: params) :
    ((chaincode C).answer ledger tx).1.isSuccess = true ↔
      (record ledger).Status = "expired" ∧ Accuses C ledger tx := by
  have hstub : (tx.stub ledger).args = "penalty" :: params := hfn
  rw [answer_Invoke C ledger hcall, penalty_success_iff hstub]
  constructor
  · rintro ⟨message, hubSig, userSig, hpenalizes⟩
    have hinit : (record ledger).Status ≠ "init" := hpenalizes.notInit
    have hpenalized : (record ledger).Status ≠ "penalized" := hpenalizes.notPenalized
    obtain ⟨first, hargs⟩ := hpenalizes.args
    refine ⟨?_, first, message, hubSig, userSig, hargs, hpenalizes.read, hpenalizes.verified⟩
    simpa [written, hinit, hsettled, hpenalized] using hstatus
  · rintro ⟨hexpired, first, message, hubSig, userSig, hargs, hread, hverified⟩
    have hne : ∀ status, status ≠ "expired" → (record ledger).Status ≠ status := by
      intro status hother
      rw [hexpired]
      exact hother.symm
    exact ⟨message, hubSig, userSig,
      ⟨⟨first, hargs⟩, hread, hne "init" (by decide), hne "penalized" (by decide)⟩, hverified⟩

/-- The status that a refund asks for is none that is written. -/
theorem refund_of_written {ledger : Ledger} (hstatus : (record ledger).Status ∈ written) {tx : Tx}
    (hcall : tx.call = .Invoke) {params : List String} (hfn : tx.args = "refund" :: params) :
    ¬ ((chaincode C).answer ledger tx).1.isSuccess = true := by
  have hstub : (tx.stub ledger).args = "refund" :: params := hfn
  rw [answer_Invoke C ledger hcall, refund_success_iff hstub]
  intro hrefunds
  have hrequest : (record ledger).Status = "download_request" := hrefunds.status
  rw [hrequest] at hstatus
  exact absurd hstatus (by decide)

theorem refused_of_settled_iff {ledger : Ledger} (hstatus : (record ledger).Status ∈ written)
    (hsettled : (record ledger).Status ≠ "download_requested") {tx : Tx} (h : Settles tx) :
    Refused C ledger tx ↔ ¬ ((record ledger).Status = "expired" ∧ Accuses C ledger tx) := by
  rw [refused_iff]
  obtain ⟨params, hpenalty | hrefund⟩ := h.function
  · rw [penalty_of_settled hstatus hsettled h.call hpenalty]
  · have hfails := refund_of_written (C := C) hstatus h.call hrefund
    have haccuses : ¬ Accuses C ledger tx := by
      rintro ⟨first, message, hubSig, userSig, hargs, -⟩
      exact absurd (List.cons.inj (hrefund.symm.trans hargs)).1 (by decide)
    exact iff_of_true hfails fun h => haccuses h.2

/-- **When a settled contract stays settled**: unless it has expired and its
parties sign a penalty. What is refused changes nothing, so that runs of such
transactions leave the ledger as it is. -/
theorem settled_stays_iff (C : GoCrypto) {ledger : Ledger}
    (hstatus : (record ledger).Status ∈ written) :
    (∀ tx, Settles tx →
      (((record ledger).Status ≠ "download_requested" → Refused C ledger tx) ↔
        ¬ ((record ledger).Status = "expired" ∧ Accuses C ledger tx))) ∧
    ((record ledger).Status ≠ "download_requested" → ∀ txs : List Tx,
      (∀ tx ∈ txs, Settles tx ∧
        ¬ ((record ledger).Status = "expired" ∧ Accuses C ledger tx)) →
      Runs.run (chaincode C).next ledger txs = ledger) := by
  constructor
  · intro tx hsettles
    by_cases hopen : (record ledger).Status = "download_requested"
    · have hexpired : (record ledger).Status ≠ "expired" := by
        rw [hopen]
        decide
      exact iff_of_true (fun hne => absurd hopen hne) fun h => hexpired h.1
    · rw [← refused_of_settled_iff hstatus hopen hsettles]
      exact forall_prop_of_true hopen
  · intro hsettled txs htxs
    induction txs with
    | nil => rfl
    | cons tx txs ih =>
        obtain ⟨hsettles, hharmless⟩ := htxs tx List.mem_cons_self
        have hrefused := (refused_of_settled_iff hstatus hsettled hsettles).mpr hharmless
        show Runs.run _ ((chaincode C).next ledger tx) txs = ledger
        rw [hrefused.unchanged]
        exact ih fun tx' htx' => htxs tx' (List.mem_cons_of_mem tx htx')

theorem not_expired_next {ledger : Ledger} (hsound : Sound ledger)
    (h : (record ledger).Status ≠ "expired") (tx : Tx) :
    (record ((chaincode C).next ledger tx)).Status ≠ "expired" := by
  have hother : ∀ {ledger' : Ledger} {apdl : APDL}, record ledger' = apdl →
      apdl.Status ≠ "expired" → (record ledger').Status ≠ "expired" := by
    rintro _ _ rfl hne
    exact hne
  have hhappens := happens C ledger tx
  generalize (chaincode C).next ledger tx = ledger' at hhappens ⊢
  cases hhappens with
  | initialized hcall hwritten =>
      rcases record_init ledger hwritten with hrecord | hrecord
      · exact hother hrecord (by decide : "init" ≠ "expired")
      · exact hother hrecord (by decide)
  | requested hcall hrequests =>
      exact hother (record_request hrequests) (by decide : "download_requested" ≠ "expired")
  | penalized hcall hpenalizes =>
      rcases record_penalty ledger tx with hrecord | hrecord | hrecord
      · exact hother hrecord (by decide : "penalized" ≠ "expired")
      · exact hother hrecord (by decide)
      · exact hother hrecord h
  | refunded hcall hrefunds => exact absurd hrefunds (hsound.not_refunds rfl)
  | unchanged => exact h

/-- In runs of the chaincode the status is never written, since no refund
succeeds: the one defect hides the other. -/
theorem not_expired_of_reachable {ledger : Ledger} (h : (chaincode C).Reachable ledger) :
    (record ledger).Status ≠ "expired" :=
  invariant_of_sound h (by decide) fun _ tx hsound hl => not_expired_next hsound hl tx

/-- The contract of A and B after a refund. -/
def refundedAB : APDL :=
  { requested "A" "B" "10.0.0.2" "8080" expiry 100 with Status := "expired" }

def expiredLedger : Ledger :=
  Function.update emptyLedger ContractKey ((Marshal true refundedAB).getD "")

theorem record_expiredLedger : record expiredLedger = refundedAB := by
  have hstorable : refundedAB.Storable := ⟨by decide, by decide, by decide⟩
  obtain ⟨b, hb, hread⟩ := Unmarshal_Marshal true hstorable
  rw [record, expiredLedger, Function.update_self, hb]
  exact hread

theorem status_expiredLedger : (record expiredLedger).Status = "expired" := by
  rw [record_expiredLedger]
  rfl

theorem written_expiredLedger : (record expiredLedger).Status ∈ written := by
  rw [status_expiredLedger]
  decide

theorem settled_expiredLedger : (record expiredLedger).Status ≠ "download_requested" := by
  rw [status_expiredLedger]
  decide

theorem settled_stays_refunded :
    Runs.run (chaincode byteCrypto).next expiredLedger [lateRefund, lateRefund] =
      expiredLedger := by
  refine (settled_stays_iff byteCrypto written_expiredLedger).2 settled_expiredLedger
    [lateRefund, lateRefund] ?_
  have hlate : Settles lateRefund ∧
      ¬ ((record expiredLedger).Status = "expired" ∧
        Accuses byteCrypto expiredLedger lateRefund) := by
    refine ⟨⟨rfl, [], Or.inr rfl⟩, ?_⟩
    rintro ⟨-, first, message, hubSig, userSig, hargs, -⟩
    exact absurd (List.cons.inj hargs).1 (by decide)
  simpa using hlate

/-- **A refunded contract that is penalized**: the deposit of A and B has been
given back, and B's signature of `m` is enough for a penalty. -/
theorem expired_penalized :
    (record expiredLedger).Status = "expired" ∧
      ((chaincode byteCrypto).answer expiredLedger
        (penaltyCall (signature 65 109) (signature 66 109))).1.isSuccess = true ∧
      (record ((chaincode byteCrypto).next expiredLedger
        (penaltyCall (signature 65 109) (signature 66 109)))).Status = "penalized" ∧
      ¬ Refused byteCrypto expiredLedger (penaltyCall (signature 65 109) (signature 66 109)) := by
  have hsigners : signers expiredLedger = ["A", "B"] := by
    rw [signers, record_expiredLedger]
    rfl
  have hsuccess : ((chaincode byteCrypto).answer expiredLedger
      (penaltyCall (signature 65 109) (signature 66 109))).1.isSuccess = true :=
    (penalty_of_settled written_expiredLedger settled_expiredLedger rfl rfl).mpr
      ⟨status_expiredLedger, _, _, _, _, rfl, rfl, verified_AB hsigners 65 109⟩
  have hpenalizes := hsuccess
  rw [answer_Invoke byteCrypto expiredLedger rfl, penalty_success_iff rfl] at hpenalizes
  obtain ⟨message, hubSig, userSig, hpenalizes⟩ := hpenalizes
  have hput : (penaltyCall (signature 65 109) (signature 66 109)).env.fails 3 = false := rfl
  refine ⟨status_expiredLedger, hsuccess, ?_, fun hrefused => refused_iff.mp hrefused hsuccess⟩
  rw [next_of_penalizes rfl hpenalizes, record_penalty_eq, if_pos hput]

end Pepal.Chain.Apdlcc

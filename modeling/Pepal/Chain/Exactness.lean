import Pepal.Chain.Settlement

/-!
# Whether the sums are exact

An amount is checked against 0 and against nothing else, and an `int` wraps
around. What both parties start with is always exact, since 75000 less an
amount is in range. The penalty takes the amount a second time: from about 2^62
on the balance can pass the least `int` and come out at the top, so that a
penalty enriches its user. A call of the ledger that fails unnoticed, or a key that is
that of the contract, makes the stored balance wrong as well.
-/

namespace Pepal.Chain.Apdlcc

variable {C : GoCrypto}

/-- What the transaction stores is the sum or difference that the operation is
to make. -/
structure Exact (C : GoCrypto) (ledger : Ledger) (tx : Tx) : Prop where
  creation : tx.call = .Invoke → ∀ s r ip port dt amount,
    Requests (tx.stub ledger) s r ip port dt amount → ∀ u, u = s ∨ u = r →
      balance ((chaincode C).next ledger tx) u = StartAmount - amount
  penalty : tx.call = .Invoke → ∀ message hubSig userSig,
    Penalizes C (tx.stub ledger) message hubSig userSig →
      balance ((chaincode C).next ledger tx) (record ledger).SoftwareUser.PubKey =
          balance ledger (record ledger).SoftwareUser.PubKey - (record ledger).DepositAmount ∧
        balance ((chaincode C).next ledger tx) (record ledger).SoftwareUser.PubKey ≤
          balance ledger (record ledger).SoftwareUser.PubKey
  refund : tx.call = .Invoke → Refunds (tx.stub ledger) →
    balance ((chaincode C).next ledger tx) (record ledger).SoftwareUser.PubKey =
      balance ledger (record ledger).SoftwareUser.PubKey + (record ledger).DepositAmount

/-! ## Conditions on the state before -/

/-- The key is not that of the contract and takes the starting balance, or has it. -/
def OpensExactly (ledger : Ledger) (tx : Tx) (s r : String) (amount : ℤ) (u : String) : Prop :=
  if u = ContractKey then amount = StartAmount
  else (u = s ∧ (tx.stub ledger).rejects 0 s = false) ∨
    (u = r ∧ (tx.stub ledger).rejects 1 r = false) ∨ balance ledger u = StartAmount - amount

/-- The balance is written, was read, and is still an `int` after the deposit is
taken. -/
def ChargesExactly (ledger : Ledger) (tx : Tx) : Prop :=
  if (tx.stub ledger).rejects 2 (record ledger).SoftwareUser.PubKey = true ∨
      ((record ledger).SoftwareUser.PubKey = ContractKey ∧ tx.env.fails 3 = false) then
    (record ledger).DepositAmount = 0
  else if tx.env.fails 1 = true then balance ledger (record ledger).SoftwareUser.PubKey = 0
  else minInt ≤ balance ledger (record ledger).SoftwareUser.PubKey - (record ledger).DepositAmount

/-- The balance is written, was read, and is still an `int` with the deposit. -/
def RepaysExactly (ledger : Ledger) (tx : Tx) : Prop :=
  if (tx.stub ledger).rejects 3 (record ledger).SoftwareUser.PubKey = true then
    (if (record ledger).SoftwareUser.PubKey = ContractKey ∧ tx.env.fails 1 = false then
      balance ledger (record ledger).SoftwareUser.PubKey + (record ledger).DepositAmount = 0
    else (record ledger).DepositAmount = 0)
  else if tx.env.fails 2 = true then balance ledger (record ledger).SoftwareUser.PubKey = 0
  else
    minInt ≤ balance ledger (record ledger).SoftwareUser.PubKey + (record ledger).DepositAmount ∧
      balance ledger (record ledger).SoftwareUser.PubKey + (record ledger).DepositAmount ≤ maxInt

/-- The transaction meets the condition of its operation. -/
structure InRange (C : GoCrypto) (ledger : Ledger) (tx : Tx) : Prop where
  creation : tx.call = .Invoke → ∀ s r ip port dt amount,
    Requests (tx.stub ledger) s r ip port dt amount → ∀ u, u = s ∨ u = r →
      OpensExactly ledger tx s r amount u
  penalty : tx.call = .Invoke → ∀ message hubSig userSig,
    Penalizes C (tx.stub ledger) message hubSig userSig → ChargesExactly ledger tx
  refund : tx.call = .Invoke → Refunds (tx.stub ledger) → RepaysExactly ledger tx

/-! ## Each operation -/

theorem creation_exact_iff {ledger : Ledger} {tx : Tx} {s r ip port : String} {dt : Time}
    {amount : ℤ} (h : Requests (tx.stub ledger) s r ip port dt amount) (u : String) :
    balance (commit ledger (requestWrites (tx.stub ledger) s r ip port dt amount)) u =
      StartAmount - amount ↔ OpensExactly ledger tx s r amount u := by
  unfold OpensExactly
  by_cases hu : u = ContractKey
  · rw [if_pos hu, hu, requestWrites, commit_append, balance_put_record h.written]
    omega
  · rw [if_neg hu, balance_request hu h]
    by_cases hnamed : (u = s ∧ (tx.stub ledger).rejects 0 s = false) ∨
        (u = r ∧ (tx.stub ledger).rejects 1 r = false)
    · rw [if_pos hnamed]
      simp only [true_iff]
      rcases hnamed with hs | hr
      · exact Or.inl hs
      · exact Or.inr (Or.inl hr)
    · rw [if_neg hnamed, ← or_assoc, or_iff_right hnamed]

/-- The charge is exact when it is computed from the balance, in range. -/
theorem charged_exact_iff {ledger : Ledger} (h : Sound ledger) (tx : Tx) :
    charged (tx.stub ledger) =
        balance ledger (record ledger).SoftwareUser.PubKey - (record ledger).DepositAmount ↔
      if tx.env.fails 1 = true then balance ledger (record ledger).SoftwareUser.PubKey = 0
      else minInt ≤
        balance ledger (record ledger).SoftwareUser.PubKey - (record ledger).DepositAmount := by
  have hbounds := balance_bounds ledger (record ledger).SoftwareUser.PubKey
  have hdeposit := deposit_bounds h
  by_cases hread : tx.env.fails 1 = true
  · rw [if_pos hread, charged_unread h hread]
    omega
  · rw [if_neg hread, charged_of_read ledger (Bool.eq_false_of_not_eq_true hread), wrapInt_eq_iff]
    have hmax : balance ledger (record ledger).SoftwareUser.PubKey -
        (record ledger).DepositAmount ≤ maxInt := by omega
    exact and_iff_left hmax

theorem penalty_exact_iff {ledger : Ledger} (hsound : Sound ledger) (hexclusive : Exclusive ledger)
    (tx : Tx) :
    balance (commit ledger (penaltyWrites (tx.stub ledger))) (record ledger).SoftwareUser.PubKey =
        balance ledger (record ledger).SoftwareUser.PubKey - (record ledger).DepositAmount ↔
      ChargesExactly ledger tx := by
  unfold ChargesExactly
  rw [balance_user_penalty hexclusive]
  split
  · omega
  · exact charged_exact_iff hsound tx

/-- What a refund stores under the key of the user. -/
theorem balance_refund (ledger : Ledger) (tx : Tx) :
    balance (commit ledger (refundWrites (tx.stub ledger))) (record ledger).SoftwareUser.PubKey =
      if (tx.stub ledger).rejects 3 (record ledger).SoftwareUser.PubKey = true then
        (if (record ledger).SoftwareUser.PubKey = ContractKey ∧ tx.env.fails 1 = false then 0
        else balance ledger (record ledger).SoftwareUser.PubKey)
      else repaid (tx.stub ledger) := by
  have hwrites : commit ledger (refundWrites (tx.stub ledger)) =
      commit (commit ledger ((tx.stub ledger).put 1 ContractKey
        ((tx.stub ledger).marshal true { record ledger with Status := "expired" }).1))
        ((tx.stub ledger).put 3 (record ledger).SoftwareUser.PubKey
          (Itoa (repaid (tx.stub ledger)))) :=
    commit_append ledger _ _
  rw [hwrites]
  cases hput : (tx.stub ledger).rejects 3 (record ledger).SoftwareUser.PubKey with
  | true =>
      rw [commit_put_rejected hput, if_pos rfl]
      by_cases hkey : (record ledger).SoftwareUser.PubKey = ContractKey
      · rw [hkey]
        cases hwritten : tx.env.fails 1 with
        | true =>
            have hrejects : (tx.stub ledger).rejects 1 ContractKey = true :=
              (rejects_ContractKey _ 1).trans hwritten
            rw [commit_put_rejected hrejects, if_neg fun h => Bool.false_ne_true h.2.symm]
        | false => rw [if_pos ⟨rfl, rfl⟩, balance_put_record hwritten]
      · rw [if_neg fun h => hkey h.1, balance, commit_put_of_ne hkey, balance]
  | false =>
      rw [if_neg Bool.false_ne_true, balance, commit_put_same hput]
      exact Atoi_Itoa_wrapInt _

theorem repaid_of_read (ledger : Ledger) {tx : Tx} (h : tx.env.fails 2 = false) :
    repaid (tx.stub ledger) = wrapInt
      (balance ledger (record ledger).SoftwareUser.PubKey + (record ledger).DepositAmount) := by
  have hstub : (tx.stub ledger).env.fails 2 = false := h
  unfold repaid balance Stub.get
  rw [hstub, if_neg Bool.false_ne_true]
  rfl

theorem repaid_unread (ledger : Ledger) {tx : Tx} (h : tx.env.fails 2 = true) :
    repaid (tx.stub ledger) = (record ledger).DepositAmount := by
  have hstub : (tx.stub ledger).env.fails 2 = true := h
  have hread : repaid (tx.stub ledger) = wrapInt (0 + (record ledger).DepositAmount) := by
    unfold repaid Stub.get
    rw [if_pos hstub]
    rfl
  obtain ⟨-, hmin, hmax⟩ := storable_Unmarshal true (ledger ContractKey)
  rw [hread, zero_add]
  exact wrapInt_eq hmin hmax

theorem refund_exact_iff (ledger : Ledger) (tx : Tx) :
    balance (commit ledger (refundWrites (tx.stub ledger))) (record ledger).SoftwareUser.PubKey =
        balance ledger (record ledger).SoftwareUser.PubKey + (record ledger).DepositAmount ↔
      RepaysExactly ledger tx := by
  unfold RepaysExactly
  rw [balance_refund]
  split
  · split
    · exact eq_comm
    · omega
  · split
    · rename_i hread
      rw [repaid_unread ledger hread]
      omega
    · rename_i hread
      rw [repaid_of_read ledger (Bool.eq_false_of_not_eq_true hread), wrapInt_eq_iff]

/-! ## Along runs -/

theorem exact_iff_inRange {ledger : Ledger} (hreach : (chaincode C).Reachable ledger) (tx : Tx) :
    Exact C ledger tx ↔ InRange C ledger tx := by
  have hsound := sound_of_reachable hreach
  have hexclusive := exclusive_of_reachable hreach
  constructor
  · intro h
    constructor
    · intro hcall s r ip port dt amount hrequests u hu
      have hstored := h.creation hcall s r ip port dt amount hrequests u hu
      rw [next_of_requests hcall hrequests] at hstored
      exact (creation_exact_iff hrequests u).mp hstored
    · intro hcall message hubSig userSig hpenalizes
      obtain ⟨hstored, -⟩ := h.penalty hcall message hubSig userSig hpenalizes
      rw [next_of_penalizes hcall hpenalizes] at hstored
      exact (penalty_exact_iff hsound hexclusive tx).mp hstored
    · intro hcall hrefunds
      exact absurd hrefunds (hsound.not_refunds rfl)
  · intro h
    constructor
    · intro hcall s r ip port dt amount hrequests u hu
      rw [next_of_requests hcall hrequests]
      exact (creation_exact_iff hrequests u).mpr
        (h.creation hcall s r ip port dt amount hrequests u hu)
    · intro hcall message hubSig userSig hpenalizes
      have hcharges := h.penalty hcall message hubSig userSig hpenalizes
      have hstored := (penalty_exact_iff hsound hexclusive tx).mpr hcharges
      rw [next_of_penalizes hcall hpenalizes, hstored]
      have hdeposit := hsound.deposit
      exact ⟨rfl, by omega⟩
    · intro hcall hrefunds
      exact absurd hrefunds (hsound.not_refunds rfl)

/-- **When the sums are exact.** A transaction on a reachable ledger stores exact
balances exactly if it meets the condition of its operation, and so do all
transactions of a run. No refund succeeds in a run; on whatever ledger one does,
its condition is exact too. -/
theorem arithmetic_exact_iff (C : GoCrypto) :
    (∀ (ledger : Ledger) (tx : Tx), (chaincode C).Reachable ledger →
      (Exact C ledger tx ↔ InRange C ledger tx)) ∧
    (∀ txs : List Tx, Runs.Along (chaincode C).next (Exact C) emptyLedger txs ↔
      Runs.Along (chaincode C).next (InRange C) emptyLedger txs) ∧
    ∀ (ledger : Ledger) (tx : Tx), tx.call = .Invoke → Refunds (tx.stub ledger) →
      (balance ((chaincode C).next ledger tx) (record ledger).SoftwareUser.PubKey =
        balance ledger (record ledger).SoftwareUser.PubKey + (record ledger).DepositAmount ↔
          RepaysExactly ledger tx) := by
  refine ⟨?_, ?_, ?_⟩
  · intro ledger tx hreach
    exact exact_iff_inRange hreach tx
  · intro txs
    exact Runs.along_iff (fun ledger tx hreach => exact_iff_inRange hreach tx)
      (Runs.Reachable.init emptyLedger)
  · intro ledger tx hcall hrefunds
    rw [next_of_refunds hcall hrefunds]
    exact refund_exact_iff ledger tx

/-- The request for the largest deposit. -/
def largest : Tx := request "A" "B" "9223372036854775807"

def openedLargest : Ledger := (chaincode byteCrypto).next initialized largest

theorem requests_largest :
    Requests (largest.stub initialized) "A" "B" "10.0.0.2" "8080" expiry maxInt :=
  requests_request initialized "A" "B" (by decide : Atoi "9223372036854775807" = (maxInt, false))
    (by decide)

/-- **A penalty that enriches**: the largest deposit is accepted and leaves B
with 75000 - (2^63 - 1); after the penalty B has 75002. -/
theorem penalty_raises_balance :
    (chaincode byteCrypto).Reachable openedLargest ∧
      Penalizes byteCrypto (penaltyOfB.stub openedLargest) "m" (signature 65 109)
        (signature 66 109) ∧
      balance openedLargest "B" = 75000 - (2 ^ 63 - 1) ∧
      balance ((chaincode byteCrypto).next openedLargest penaltyOfB) "B" = 75002 ∧
      ¬ Exact byteCrypto openedLargest penaltyOfB ∧
      ¬ Runs.Along (chaincode byteCrypto).next (Exact byteCrypto) emptyLedger
        [initTx, largest, penaltyOfB] := by
  have hrecord : record openedLargest = requested "A" "B" "10.0.0.2" "8080" expiry maxInt := by
    rw [openedLargest, next_of_requests rfl requests_largest]
    exact record_request requests_largest
  have huser : (record openedLargest).SoftwareUser.PubKey = "B" := by
    rw [hrecord]
    rfl
  have hpenalizes := penalizes_requested hrecord 65 109
  have hbefore : balance openedLargest "B" = 75000 - (2 ^ 63 - 1) := by
    rw [openedLargest, next_of_requests rfl requests_largest,
      balance_request (by decide) requests_largest, if_pos (Or.inr ⟨rfl, rfl⟩)]
    rfl
  have hafter : balance ((chaincode byteCrypto).next openedLargest penaltyOfB) "B" = 75002 := by
    rw [penaltyOfB, balance_penaltyCall hrecord, hbefore]
    decide
  have hinexact : ¬ Exact byteCrypto openedLargest penaltyOfB := by
    intro hexact
    obtain ⟨-, hle⟩ := hexact.penalty rfl _ _ _ hpenalizes
    rw [huser, hbefore] at hle
    exact absurd (hafter.symm.trans_le hle) (by decide)
  refine ⟨⟨[initTx, largest], rfl⟩, hpenalizes, hbefore, hafter, hinexact, ?_⟩
  rintro ⟨-, -, hlast, -⟩
  exact hinexact hlast

end Pepal.Chain.Apdlcc

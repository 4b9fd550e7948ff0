import Pepal.Chain.Multiapdlcc
import Pepal.Chain.Transactions

/-!
# A download request to both chaincodes

Both chaincodes take a download request with the same six parameters, and both
count its arguments with `GetStringArgs`, which puts the name of the function
before them. `apdlcc` counts it too and skips it. `multiapdlcc` does not: it
refuses six parameters, and of five it takes the name of the function for the
key of the owner.
-/

namespace Pepal.Chain

/-! ## The requests that `multiapdlcc` takes -/

namespace Multiapdlcc

variable {C : GoCrypto} {ContractKey : String}

/-- `contractKey`, the place of the contract of the two parties. -/
abbrev contractKey (s r : String) : String := ContractKeyPrefix ++ s ++ r

/-- The transaction is a download request that passes every check. -/
structure Requests (stub : Stub) (s r ip port : String) (dt : Time) (amount : ℤ) : Prop where
  function : stub.function.1 = "download_request"
  args : ∃ depositAmount depositTime,
    stub.args = [s, r, depositAmount, depositTime, ip, port] ∧
      Atoi depositAmount = (amount, false) ∧ Parse depositTime = .ok dt
  nonneg : 0 ≤ amount
  future : dt.After (stub.env.now 0) = true
  written : stub.env.fails 2 = false

/-- The first argument is the name of the function. -/
theorem Requests.owner {stub : Stub} {s r ip port : String} {dt : Time} {amount : ℤ}
    (h : Requests stub s r ip port dt amount) : s = "download_request" := by
  obtain ⟨depositAmount, depositTime, hargs, -, -⟩ := h.args
  have hfunction := h.function
  rw [Stub.function, hargs] at hfunction
  exact hfunction

theorem contractKey_ne_empty (s r : String) : contractKey s r ≠ "" := by
  intro h
  have htext := congrArg String.toList h
  rw [String.toList_append, String.toList_append] at htext
  exact absurd (List.append_eq_nil_iff.mp (List.append_eq_nil_iff.mp htext).1).1 (by decide)

theorem rejects_contractKey (stub : Stub) (call : ℕ) (s r : String) :
    stub.rejects call (contractKey s r) = stub.env.fails call := by
  unfold Stub.rejects
  rw [beq_eq_false_iff_ne.mpr (contractKey_ne_empty s r), Bool.false_or]

theorem execute_of_requests {stub : Stub} {s r ip port : String} {dt : Time} {amount : ℤ}
    (h : Requests stub s r ip port dt amount) :
    execute (Invoke C ContractKey) stub =
      (.Success "download_request", requestWrites stub s r ip port dt amount) := by
  obtain ⟨depositAmount, depositTime, hargs, hamount, hdt⟩ := h.args
  have hs := h.owner
  subst hs
  rw [execute_Invoke, hargs]
  show execute (download_request "download_request") stub = _
  rw [execute_download_request]
  simp only [hargs, hamount, hdt, h.future, rejects_contractKey, h.written]
  rw [if_neg (not_invalid h.nonneg)]
  rfl

/-- **A download request succeeds exactly when it passes the checks.** -/
theorem request_success_iff {stub : Stub} {params : List String}
    (hfn : stub.args = "download_request" :: params) :
    (execute (Invoke C ContractKey) stub).1.isSuccess = true ↔
      ∃ s r ip port dt amount, Requests stub s r ip port dt amount := by
  constructor
  · intro h
    rw [execute_Invoke, hfn] at h
    change (execute (download_request "download_request") stub).1.isSuccess = true at h
    rw [execute_download_request] at h
    split at h
    · rename_i s r depositAmount depositTime ip port hargs
      split at h
      · cases h
      · rename_i hamount
        rw [not_or, Bool.not_eq_true, not_lt] at hamount
        split at h
        · cases h
        · rename_i dt hdt
          split at h
          · cases h
          · rename_i hfuture
            dsimp only at h
            split at h
            · cases h
            · rename_i hwritten
              rw [rejects_contractKey, Bool.not_eq_true] at hwritten
              refine ⟨s, r, ip, port, dt, (Atoi depositAmount).1, ?_,
                ⟨depositAmount, depositTime, hargs, Prod.ext rfl hamount.1, hdt⟩, hamount.2,
                by simpa using hfuture, hwritten⟩
              rw [Stub.function, hfn]
    · cases h
  · rintro ⟨s, r, ip, port, dt, amount, h⟩
    rw [execute_of_requests h]
    rfl

/-- Six parameters are seven arguments. -/
theorem request_refused {stub : Stub} {s r depositAmount depositTime ip port : String}
    (hargs : stub.args = ["download_request", s, r, depositAmount, depositTime, ip, port]) :
    ¬ (execute (Invoke C ContractKey) stub).1.isSuccess = true := by
  rw [request_success_iff hargs]
  rintro ⟨s', r', ip', port', dt, amount, hrequests⟩
  obtain ⟨depositAmount', depositTime', hargs', -, -⟩ := hrequests.args
  have hlength := congrArg List.length (hargs.symm.trans hargs')
  exact absurd hlength (by simp)

end Multiapdlcc

/-! ## What a request asks for -/

/-- The parameters ask for a contract: two keys, a decimal integer from 0 to the
largest `int`, a date that is still to come, an address and a port. -/
structure Asks (params : List String) (now : Time) (s r ip port : String) (dt : Time)
    (amount : ℤ) : Prop where
  params : ∃ depositAmount depositTime, params = [s, r, depositAmount, depositTime, ip, port] ∧
    Numeral.Decimal depositAmount.toList amount ∧ IsDate depositTime dt
  nonneg : 0 ≤ amount
  le_maxInt : amount ≤ maxInt
  future : dt.After now = true

namespace Apdlcc

variable {C : GoCrypto}

theorem requests_iff_asks {stub : Stub} {params : List String}
    (hfn : stub.args = "download_request" :: params) {s r ip port : String} {dt : Time}
    {amount : ℤ} :
    Requests stub s r ip port dt amount ↔
      Asks params (stub.env.now 0) s r ip port dt amount ∧ stub.env.fails 2 = false := by
  constructor
  · intro h
    obtain ⟨depositAmount, depositTime, hargs, hamount, hdt⟩ := h.args
    obtain ⟨hdecimal, -, hmax⟩ := Atoi_ok.mp hamount
    have hparams := (List.cons.inj (hfn.symm.trans hargs)).2
    exact ⟨⟨⟨depositAmount, depositTime, hparams, hdecimal, Parse_ok.mp hdt⟩, h.nonneg, hmax,
      h.future⟩, h.written⟩
  · rintro ⟨h, hwritten⟩
    obtain ⟨depositAmount, depositTime, rfl, hdecimal, hdt⟩ := h.params
    have hmin : minInt ≤ amount := le_trans (by decide) h.nonneg
    exact ⟨⟨depositAmount, depositTime, hfn, Atoi_ok.mpr ⟨hdecimal, hmin, h.le_maxInt⟩,
      Parse_ok.mpr hdt⟩, h.nonneg, h.future, hwritten⟩

theorem accepts_iff_asks (ledger : Ledger) {tx : Tx} (hcall : tx.call = .Invoke)
    {params : List String} (hfn : tx.args = "download_request" :: params) :
    ((chaincode C).answer ledger tx).1.isSuccess = true ↔
      ∃ s r ip port dt amount, Asks params (tx.env.now 0) s r ip port dt amount ∧
        tx.env.fails 2 = false := by
  have hstub : (tx.stub ledger).args = "download_request" :: params := hfn
  rw [answer_Invoke C ledger hcall, request_success_iff hstub]
  simp only [requests_iff_asks hstub]
  rfl

end Apdlcc

/-! ## The same request to both chaincodes -/

/-- The two records are of one contract: the parties, the expiry, the deposit. -/
structure SameTerms (a b : APDL) : Prop where
  owner : a.SoftwareOwner = b.SoftwareOwner
  user : a.SoftwareUser = b.SoftwareUser
  expiry : a.ContractExpiry = b.ContractExpiry
  deposit : a.DepositAmount = b.DepositAmount

/-- `multiapdlcc` accepts the transaction too and stores the contract that
`apdlcc` stores. -/
structure Follows (C : GoCrypto) (ContractKey : String) (ledger ledger' : Ledger) (tx : Tx)
    (s r : String) : Prop where
  accepts : ((Multiapdlcc.chaincode C ContractKey).answer ledger' tx).1.isSuccess = true
  stores : SameTerms (Apdlcc.record ((Apdlcc.chaincode C).next ledger tx))
    (Unmarshal false
      ((Multiapdlcc.chaincode C ContractKey).next ledger' tx (Multiapdlcc.contractKey s r)))

/-- **When the chaincodes agree on a request**: only when `apdlcc` has nothing
to agree on. -/
theorem creation_agrees_iff (C : GoCrypto) (ContractKey : String) (ledger ledger' : Ledger)
    {tx : Tx} (hcall : tx.call = .Invoke) {s r depositAmount depositTime ip port : String}
    (hargs : tx.args = ["download_request", s, r, depositAmount, depositTime, ip, port]) :
    (((Apdlcc.chaincode C).answer ledger tx).1.isSuccess = true →
        Follows C ContractKey ledger ledger' tx s r) ↔
      ¬ ∃ dt amount, Asks [s, r, depositAmount, depositTime, ip, port] (tx.env.now 0) s r ip port
        dt amount ∧ tx.env.fails 2 = false := by
  have hrefused : ¬ ((Multiapdlcc.chaincode C ContractKey).answer ledger' tx).1.isSuccess =
      true := by
    rw [(Multiapdlcc.chaincode C ContractKey).answer_of_Invoke ledger' hcall]
    exact Multiapdlcc.request_refused hargs
  rw [Apdlcc.accepts_iff_asks ledger hcall hargs]
  constructor
  · rintro h ⟨dt, amount, hasks⟩
    exact hrefused (h ⟨s, r, ip, port, dt, amount, hasks⟩).accepts
  · rintro h ⟨s', r', ip', port', dt, amount, hasks⟩
    refine absurd ⟨dt, amount, ?_⟩ h
    obtain ⟨_, _, hparams, -, -⟩ := hasks.1.params
    simp only [List.cons.injEq, and_true] at hparams
    obtain ⟨rfl, rfl, -, -, rfl, rfl⟩ := hparams
    exact hasks

/-- A request without a number for the deposit. -/
theorem creation_agrees_free :
    ¬ ((Apdlcc.chaincode byteCrypto).answer emptyLedger
        (Apdlcc.request "A" "B" "free")).1.isSuccess = true ∧
      (((Apdlcc.chaincode byteCrypto).answer emptyLedger
        (Apdlcc.request "A" "B" "free")).1.isSuccess = true →
        Follows byteCrypto "" emptyLedger emptyLedger (Apdlcc.request "A" "B" "free") "A" "B") := by
  have hfree : ∀ amount, ¬ Numeral.Decimal "free".toList amount := by
    intro amount hdecimal
    have hread := Numeral.ofDecimal_eq_some.mpr hdecimal
    have hnone : Numeral.ofDecimal "free".toList = none := rfl
    rw [hnone] at hread
    cases hread
  have hasks : ∀ s r ip port dt amount,
      ¬ Asks ["A", "B", "free", "01/01/2030", "10.0.0.2", "8080"] zeroTime s r ip port dt
        amount := by
    intro s r ip port dt amount h
    obtain ⟨_, _, hparams, hdecimal, -⟩ := h.params
    simp only [List.cons.injEq] at hparams
    obtain ⟨-, -, rfl, -⟩ := hparams
    exact hfree amount hdecimal
  constructor
  · rw [Apdlcc.accepts_iff_asks emptyLedger rfl rfl]
    rintro ⟨s, r, ip, port, dt, amount, h, -⟩
    exact hasks s r ip port dt amount h
  · refine (creation_agrees_iff byteCrypto "" emptyLedger emptyLedger rfl rfl).mpr ?_
    rintro ⟨dt, amount, h, -⟩
    exact hasks "A" "B" "10.0.0.2" "8080" dt amount h

/-- **A request on which they disagree**: `apdlcc` opens the contract of A and B
with a deposit of 100, and `multiapdlcc` refuses it. -/
theorem creation_disagrees :
    ((Apdlcc.chaincode byteCrypto).answer emptyLedger
        (Apdlcc.request "A" "B" "100")).1.isSuccess = true ∧
      ∀ ContractKey ledger', ¬ Follows byteCrypto ContractKey emptyLedger ledger'
        (Apdlcc.request "A" "B" "100") "A" "B" := by
  have hrequests := Apdlcc.requests_request emptyLedger "A" "B"
    (by decide : Atoi "100" = (100, false)) (by decide)
  constructor
  · rw [Apdlcc.answer_Invoke byteCrypto emptyLedger rfl, Apdlcc.execute_of_requests hrequests]
    rfl
  · intro ContractKey ledger' hfollows
    have haccepts := hfollows.accepts
    rw [(Multiapdlcc.chaincode byteCrypto ContractKey).answer_of_Invoke ledger' rfl] at haccepts
    exact Multiapdlcc.request_refused rfl haccepts

end Pepal.Chain

import Pepal.Chain.Multiapdlcc
import Pepal.Chain.Transactions

/-!
# Whether a penalty lasts

A penalty takes the deposit from the balance of the user. A download request
writes the balances of both parties anew, from the starting amount, so it
gives a penalized user the balance of a fresh one. `Keeps` is the exact
condition under which a transaction does not raise a balance; runs of such
transactions never raise it.

In `multiapdlcc` the count of violations cannot be cleared, for the reason
that it is never raised: the user of every record that is read back has the
empty key, and the ledger takes no empty key.
-/

namespace Pepal.Chain.Apdlcc

variable {C : GoCrypto}

/-- The transaction writes a contract record. -/
def WritesContract (C : GoCrypto) (ledger : Ledger) (tx : Tx) : Prop :=
  (tx.call = .Init ∧ tx.env.fails 0 = false) ∨
    (tx.call = .Invoke ∧ ∃ s r ip port dt amount,
      Requests (tx.stub ledger) s r ip port dt amount) ∨
    (tx.call = .Invoke ∧ tx.env.fails 3 = false ∧ ∃ message hubSig userSig,
      Penalizes C (tx.stub ledger) message hubSig userSig)

/-- The transaction does not raise the balance stored under `u`. -/
structure Keeps (C : GoCrypto) (u : String) (ledger : Ledger) (tx : Tx) : Prop where
  /-- A request that sets the balance does not set it higher. -/
  request : u ≠ ContractKey → tx.call = .Invoke → ∀ s r ip port dt amount,
    Requests (tx.stub ledger) s r ip port dt amount →
      (u = s ∧ (tx.stub ledger).rejects 0 s = false) ∨
        (u = r ∧ (tx.stub ledger).rejects 1 r = false) →
      StartAmount - amount ≤ balance ledger u
  /-- A penalty reads the balance and does not leave the range of an `int`; if
  it fails to read it, it takes it for 0. -/
  penalty : u ≠ ContractKey ∨ tx.env.fails 3 = true → tx.call = .Invoke →
    ∀ message hubSig userSig, Penalizes C (tx.stub ledger) message hubSig userSig →
      u = (record ledger).SoftwareUser.PubKey →
      (tx.stub ledger).rejects 2 (record ledger).SoftwareUser.PubKey = false →
      (tx.env.fails 1 = false ∧ minInt ≤ balance ledger u - (record ledger).DepositAmount) ∨
        (tx.env.fails 1 = true ∧ -(record ledger).DepositAmount ≤ balance ledger u)
  /-- The place of the contract holds no balance. -/
  contract : u = ContractKey → WritesContract C ledger tx → 0 ≤ balance ledger u

theorem balance_bounds (ledger : Ledger) (u : String) :
    minInt ≤ balance ledger u ∧ balance ledger u ≤ maxInt :=
  ⟨minInt_le_Atoi (ledger u), Atoi_le_maxInt (ledger u)⟩

theorem deposit_bounds {ledger : Ledger} (h : Sound ledger) :
    0 ≤ (record ledger).DepositAmount ∧ (record ledger).DepositAmount ≤ maxInt :=
  ⟨h.deposit, (storable_Unmarshal true (ledger ContractKey)).2.2⟩

theorem charged_of_read (ledger : Ledger) {tx : Tx} (h : tx.env.fails 1 = false) :
    charged (tx.stub ledger) = wrapInt
      (balance ledger (record ledger).SoftwareUser.PubKey - (record ledger).DepositAmount) := by
  have hstub : (tx.stub ledger).env.fails 1 = false := h
  unfold charged balance Stub.get
  rw [hstub, if_neg Bool.false_ne_true]
  rfl

theorem charged_of_failed (ledger : Ledger) {tx : Tx} (h : tx.env.fails 1 = true) :
    charged (tx.stub ledger) = wrapInt (0 - (record ledger).DepositAmount) := by
  have hstub : (tx.stub ledger).env.fails 1 = true := h
  unfold charged Stub.get
  rw [if_pos hstub]
  rfl

theorem charged_unread {ledger : Ledger} (h : Sound ledger) {tx : Tx}
    (hread : tx.env.fails 1 = true) :
    charged (tx.stub ledger) = -(record ledger).DepositAmount := by
  rw [charged_of_failed ledger hread,
    wrapInt_sub_of_nonneg ⟨le_refl 0, by decide⟩ (deposit_bounds h), zero_sub]

/-- Read or not, what is no balance counts as 0. -/
theorem charged_of_no_balance {ledger : Ledger} (h : Sound ledger)
    (hzero : balance ledger (record ledger).SoftwareUser.PubKey = 0) (tx : Tx) :
    charged (tx.stub ledger) = -(record ledger).DepositAmount := by
  cases hread : tx.env.fails 1 with
  | false =>
      rw [charged_of_read ledger hread, hzero,
        wrapInt_sub_of_nonneg ⟨le_refl 0, by decide⟩ (deposit_bounds h), zero_sub]
  | true => exact charged_unread h hread

/-- When a penalty leaves no more than there was. -/
theorem charged_le_iff {ledger : Ledger} (h : Sound ledger) (tx : Tx) :
    charged (tx.stub ledger) ≤ balance ledger (record ledger).SoftwareUser.PubKey ↔
      (tx.env.fails 1 = false ∧ minInt ≤
          balance ledger (record ledger).SoftwareUser.PubKey - (record ledger).DepositAmount) ∨
        (tx.env.fails 1 = true ∧
          -(record ledger).DepositAmount ≤ balance ledger (record ledger).SoftwareUser.PubKey) := by
  have hbounds := balance_bounds ledger (record ledger).SoftwareUser.PubKey
  have hdeposit := deposit_bounds h
  cases hread : tx.env.fails 1 with
  | false =>
      rw [charged_of_read ledger hread, wrapInt_sub_le_iff hbounds hdeposit]
      constructor
      · intro hmin
        exact Or.inl ⟨rfl, hmin⟩
      · rintro (⟨-, hmin⟩ | ⟨hfalse, -⟩)
        · exact hmin
        · cases hfalse
  | true =>
      rw [charged_unread h hread]
      constructor
      · intro hle
        exact Or.inr ⟨rfl, hle⟩
      · rintro (⟨hfalse, -⟩ | ⟨-, hle⟩)
        · cases hfalse
        · exact hle

/-- A new record leaves no balance in its place. -/
theorem balance_ContractKey {ledger : Ledger} {tx : Tx} (h : WritesContract C ledger tx) :
    balance ((chaincode C).next ledger tx) ContractKey = 0 := by
  rcases h with ⟨hcall, hwritten⟩ | ⟨hcall, s, r, ip, port, dt, amount, hrequests⟩ |
    ⟨hcall, hwritten, message, hubSig, userSig, hpenalizes⟩
  · rw [next_of_init hcall hwritten]
    exact balance_put_record hwritten ledger _
  · rw [next_of_requests hcall hrequests, requestWrites, commit_append]
    exact balance_put_record hrequests.written _ _
  · rw [next_of_penalizes hcall hpenalizes, penaltyWrites, commit_append]
    exact balance_put_record hwritten _ _

/-- **When a transaction does not raise a balance.** -/
theorem balance_next_le_iff {ledger : Ledger} (hreach : (chaincode C).Reachable ledger) (tx : Tx)
    (u : String) :
    balance ((chaincode C).next ledger tx) u ≤ balance ledger u ↔ Keeps C u ledger tx := by
  have hsound := sound_of_reachable hreach
  constructor
  · intro hle
    constructor
    · intro hu hcall s r ip port dt amount hrequests hnamed
      rw [next_of_requests hcall hrequests, balance_request hu hrequests, if_pos hnamed] at hle
      exact hle
    · intro hu hcall message hubSig userSig hpenalizes huser hwritten
      rw [next_of_penalizes hcall hpenalizes, balance_penalty hu, if_pos ⟨huser, hwritten⟩,
        huser] at hle
      rw [huser]
      exact (charged_le_iff hsound tx).mp hle
    · intro hu hwrites
      rw [hu, balance_ContractKey hwrites] at hle
      rwa [hu]
  · intro hkeeps
    have hcontract : u = ContractKey → WritesContract C ledger tx →
        balance ((chaincode C).next ledger tx) u ≤ balance ledger u := by
      intro hu hwrites
      have hnonneg := hkeeps.contract hu hwrites
      rw [hu] at hnonneg ⊢
      rwa [balance_ContractKey hwrites]
    -- each kind of transaction either writes a record over u or is one the condition speaks of
    have hhappens := happens C ledger tx
    generalize (chaincode C).next ledger tx = ledger' at hhappens hcontract ⊢
    cases hhappens with
    | initialized hcall hwritten =>
        by_cases hu : u = ContractKey
        · exact hcontract hu (Or.inl ⟨hcall, hwritten⟩)
        · rw [balance_init hu]
    | requested hcall hrequests =>
        by_cases hu : u = ContractKey
        · exact hcontract hu (Or.inr (Or.inl ⟨hcall, _, _, _, _, _, _, hrequests⟩))
        · rw [balance_request hu hrequests]
          split
          · rename_i hnamed
            exact hkeeps.request hu hcall _ _ _ _ _ _ hrequests hnamed
          · exact le_refl _
    | penalized hcall hpenalizes =>
        by_cases hwritten : u = ContractKey ∧ tx.env.fails 3 = false
        · exact hcontract hwritten.1
            (Or.inr (Or.inr ⟨hcall, hwritten.2, _, _, _, hpenalizes⟩))
        · have hu : u ≠ ContractKey ∨ tx.env.fails 3 = true := by
            rw [not_and_or, Bool.not_eq_false] at hwritten
            exact hwritten
          rw [balance_penalty hu]
          split
          · rename_i hcharges
            have hcondition := hkeeps.penalty hu hcall _ _ _ hpenalizes hcharges.1 hcharges.2
            rw [hcharges.1] at hcondition ⊢
            exact (charged_le_iff hsound tx).mpr hcondition
          · exact le_refl _
    | refunded hcall hrefunds => exact absurd hrefunds (hsound.not_refunds rfl)
    | unchanged => exact le_refl _

/-- **A balance is never raised along a run that keeps it.** -/
theorem balance_run_le {u : String} {ledger : Ledger} (hreach : (chaincode C).Reachable ledger)
    {txs : List Tx} (h : Runs.Along (chaincode C).next (Keeps C u) ledger txs) :
    balance (Runs.run (chaincode C).next ledger txs) u ≤ balance ledger u := by
  refine Runs.related_of_along (R := fun l l' => balance l' u ≤ balance l u)
    (fun _ => le_refl _) (fun hle hle' => le_trans hle' hle) ?_ hreach h
  intro l tx hl hkeeps
  exact (balance_next_le_iff hl tx u).mpr hkeeps

end Pepal.Chain.Apdlcc

/-! ## The count of violations -/

namespace Pepal.Chain.Multiapdlcc

variable {C : GoCrypto}

theorem zero_of_put_record {stub : Stub} {call : ℕ} {key : String} {apdl : APDL}
    {w : String × String} (h : w ∈ stub.put call key (stub.marshal false apdl).1) :
    (Atoi w.2).1 = 0 := by
  obtain ⟨rfl, -⟩ := mem_put h
  exact stub.Atoi_marshal false apdl

theorem zero_of_requestWrites {stub : Stub} {s r ip port : String} {dt : Time} {amount : ℤ}
    {w : String × String} (h : w ∈ requestWrites stub s r ip port dt amount) :
    (Atoi w.2).1 = 0 := by
  have hstart : (Atoi (Itoa StartAmount)).1 = 0 := by
    rw [Atoi_Itoa (by decide) (by decide)]
    rfl
  rcases List.mem_append.mp h with hparties | hcontract
  · rcases List.mem_append.mp hparties with howner | huser
    · obtain ⟨rfl, -⟩ := mem_put howner
      exact hstart
    · obtain ⟨rfl, -⟩ := mem_put huser
      exact hstart
  · exact zero_of_put_record hcontract

/-- The balance goes to the empty key, which is refused. -/
theorem zero_of_penaltyWrites {stub : Stub} {contractKey : String} {w : String × String}
    (h : w ∈ penaltyWrites stub contractKey) : (Atoi w.2).1 = 0 := by
  rcases List.mem_append.mp h with huser | hcontract
  · obtain ⟨-, hput⟩ := mem_put huser
    rw [(PubKey_Unmarshal _).2] at hput
    cases hput
  · exact zero_of_put_record hcontract

theorem zero_of_download_request {fn : String} {stub : Stub} {w : String × String}
    (h : w ∈ (execute (download_request fn) stub).2) : (Atoi w.2).1 = 0 := by
  rw [execute_download_request] at h
  split at h
  · split at h
    · cases h
    · split at h
      · cases h
      · split at h
        · cases h
        · dsimp only at h
          -- with an error or without, the writes are the same
          split at h
          · exact zero_of_requestWrites h
          · exact zero_of_requestWrites h
  · cases h

theorem zero_of_penalty {args : List String} {stub : Stub} {w : String × String}
    (h : w ∈ (execute (penalty C args) stub).2) : (Atoi w.2).1 = 0 := by
  rw [execute_penalty] at h
  split at h
  · dsimp only at h
    split at h
    · cases h
    · split at h
      · cases h
      · exact zero_of_penaltyWrites h
  · cases h

theorem zero_of_refund {ContractKey : String} {args : List String} {stub : Stub}
    {w : String × String} (h : w ∈ (execute (refund ContractKey args) stub).2) :
    (Atoi w.2).1 = 0 := by
  rw [execute_refund] at h
  split at h
  · dsimp only at h
    split at h
    · cases h
    · split at h
      · cases h
      · split at h
        · exact zero_of_put_record h
        · cases h
  · cases h

/-- Every value that a call writes reads as no violations. -/
theorem zero_of_written (ContractKey : String) (stub : Stub) {w : String × String}
    (h : w ∈ (execute (Invoke C ContractKey) stub).2) : (Atoi w.2).1 = 0 := by
  rw [execute_Invoke] at h
  split at h
  · cases h
  · split at h
    · exact zero_of_download_request h
    · split at h
      · exact zero_of_penalty h
      · split at h
        · exact zero_of_refund h
        · cases h

theorem zero_of_answer (ContractKey : String) (ledger : Ledger) (tx : Tx) {w : String × String}
    (h : w ∈ ((chaincode C ContractKey).answer ledger tx).2) : (Atoi w.2).1 = 0 := by
  cases hcall : tx.call with
  | Init =>
      rw [(chaincode C ContractKey).answer_of_Init ledger hcall] at h
      cases h
  | Invoke =>
      rw [(chaincode C ContractKey).answer_of_Invoke ledger hcall] at h
      exact zero_of_written ContractKey (tx.stub ledger) h

/-- No party has a violation. -/
def Clear (ledger : Ledger) : Prop := ∀ key, count ledger key = 0

theorem clear_next (ContractKey : String) {ledger : Ledger} (h : Clear ledger) (tx : Tx) :
    Clear ((chaincode C ContractKey).next ledger tx) := by
  unfold Chaincode.next
  dsimp only
  split
  · exact commit_forall (P := fun value => (Atoi value).1 = 0)
      (fun w hw => zero_of_answer ContractKey ledger tx hw) h
  · exact h

/-- **No violation is ever counted.** -/
theorem clear_of_reachable {ContractKey : String} {ledger : Ledger}
    (h : (chaincode C ContractKey).Reachable ledger) : Clear ledger :=
  h.invariant (fun _ => rfl) fun _ tx hclear => clear_next ContractKey hclear tx

end Pepal.Chain.Multiapdlcc

/-! ## Penalties along runs -/

namespace Pepal.Chain

/-- **When a penalty lasts.** Along a run of `apdlcc` whose transactions all
keep the balance under `u` it is never raised, and no other transaction of a
reachable ledger leaves it as low. In `multiapdlcc` no count is ever
lowered. -/
theorem penalty_lasts_iff (C : GoCrypto) (ContractKey : String) :
    (∀ (u : String) (before after : List Tx),
      Runs.Along (Apdlcc.chaincode C).next (Apdlcc.Keeps C u) ((Apdlcc.chaincode C).run before)
        after →
      Apdlcc.balance ((Apdlcc.chaincode C).run (before ++ after)) u ≤
        Apdlcc.balance ((Apdlcc.chaincode C).run before) u) ∧
    (∀ (u : String) (ledger : Ledger) (tx : Tx), (Apdlcc.chaincode C).Reachable ledger →
      (Apdlcc.balance ((Apdlcc.chaincode C).next ledger tx) u ≤ Apdlcc.balance ledger u ↔
        Apdlcc.Keeps C u ledger tx)) ∧
    ∀ (before after : List Tx) (key : String),
      Multiapdlcc.count ((Multiapdlcc.chaincode C ContractKey).run before) key ≤
        Multiapdlcc.count ((Multiapdlcc.chaincode C ContractKey).run (before ++ after)) key := by
  refine ⟨?_, ?_, ?_⟩
  · intro u before after h
    rw [Chaincode.run, Runs.run_append]
    exact Apdlcc.balance_run_le ⟨before, rfl⟩ h
  · intro u ledger tx hreach
    exact Apdlcc.balance_next_le_iff hreach tx u
  · intro before after key
    have hclear : ∀ txs, Multiapdlcc.Clear ((Multiapdlcc.chaincode C ContractKey).run txs) :=
      fun txs => Multiapdlcc.clear_of_reachable ⟨txs, rfl⟩
    rw [hclear before key, hclear (before ++ after) key]

namespace Apdlcc

def penaltyRun : List Tx :=
  [initTx, request "A" "B" "100", penaltyCall (signature 65 109) (signature 66 109)]

/-- The ledger after a penalty against B. -/
def penalizedOnce : Ledger :=
  (chaincode byteCrypto).next opened (penaltyCall (signature 65 109) (signature 66 109))

theorem balance_opened : balance opened "B" = 74900 := by
  rw [opened, next_of_requests rfl requests_opened, balance_request (by decide) requests_opened,
    if_pos (Or.inr ⟨rfl, rfl⟩)]
  rfl

/-- B pays the deposit of the contract of A and B. -/
theorem balance_penaltyCall {ledger : Ledger} {ip port : String} {dt : Time} {amount : ℤ}
    (h : record ledger = requested "A" "B" ip port dt amount) (r s : ℤ) :
    balance ((chaincode byteCrypto).next ledger
        (penaltyCall (signature r s) (signature 66 109))) "B" =
      wrapInt (balance ledger "B" - amount) := by
  have huser : (record ledger).SoftwareUser.PubKey = "B" := by
    rw [h]
    rfl
  have hdeposit : (record ledger).DepositAmount = amount := by
    rw [h]
    rfl
  have hwritten : ∀ tx : Tx, tx.env.fails 2 = false →
      (tx.stub ledger).rejects 2 (record ledger).SoftwareUser.PubKey = false := by
    intro tx htx
    rw [huser]
    exact (Bool.false_or _).trans htx
  calc balance ((chaincode byteCrypto).next ledger
          (penaltyCall (signature r s) (signature 66 109))) "B"
      = charged ((penaltyCall (signature r s) (signature 66 109)).stub ledger) := by
        rw [next_of_penalizes rfl (penalizes_requested h r s), balance_penalty (Or.inl (by decide))]
        exact if_pos ⟨huser.symm, hwritten _ rfl⟩
    _ = wrapInt (balance ledger (record ledger).SoftwareUser.PubKey -
          (record ledger).DepositAmount) := charged_of_read ledger rfl
    _ = wrapInt (balance ledger "B" - amount) := by rw [huser, hdeposit]

theorem balance_penalizedOnce : balance penalizedOnce "B" = 74800 := by
  rw [penalizedOnce, balance_penaltyCall record_opened, balance_opened]
  exact wrapInt_eq (by decide) (by decide)

/-- A request of C for D leaves B alone. -/
theorem keeps_other (ledger : Ledger) : Keeps byteCrypto "B" ledger (request "C" "D" "0") where
  request := by
    rintro - - s r ip port dt amount hrequests hnamed
    obtain ⟨rfl, rfl, -⟩ := hrequests.terms rfl
    rcases hnamed with ⟨hs, -⟩ | ⟨hr, -⟩
    · exact absurd hs (by decide)
    · exact absurd hr (by decide)
  penalty := by
    rintro - - message hubSig userSig hpenalizes
    exact absurd hpenalizes (not_penalizes_of_request rfl)
  contract := fun h => absurd h (by decide)

end Apdlcc

theorem penalty_lasts_once :
    Apdlcc.balance ((Apdlcc.chaincode byteCrypto).run
        (Apdlcc.penaltyRun ++ [Apdlcc.request "C" "D" "0"])) "B" ≤
      Apdlcc.balance ((Apdlcc.chaincode byteCrypto).run Apdlcc.penaltyRun) "B" :=
  (penalty_lasts_iff byteCrypto "contract").1 "B" Apdlcc.penaltyRun
    [Apdlcc.request "C" "D" "0"] ⟨Apdlcc.keeps_other _, trivial⟩

/-- **A penalty that should last**: a request of C for B, without a deposit,
gives B the balance of a fresh user. -/
theorem penalty_erased :
    (Apdlcc.chaincode byteCrypto).Reachable Apdlcc.penalizedOnce ∧
      Apdlcc.Penalizes byteCrypto ((Apdlcc.penaltyCall (Apdlcc.signature 65 109)
        (Apdlcc.signature 66 109)).stub Apdlcc.opened) "m" (Apdlcc.signature 65 109)
        (Apdlcc.signature 66 109) ∧
      (Apdlcc.record Apdlcc.opened).SoftwareUser.PubKey = "B" ∧
      Apdlcc.balance Apdlcc.penalizedOnce "B" = 74800 ∧
      Apdlcc.balance ((Apdlcc.chaincode byteCrypto).next Apdlcc.penalizedOnce
        (Apdlcc.request "C" "B" "0")) "B" = 75000 := by
  have hrequests := Apdlcc.requests_request Apdlcc.penalizedOnce "C" "B"
    (by decide : Atoi "0" = (0, false)) (le_refl 0)
  refine ⟨Apdlcc.reachable_opened.step _, Apdlcc.penalizes_opened 65 109, ?_,
    Apdlcc.balance_penalizedOnce, ?_⟩
  · rw [Apdlcc.record_opened]
    rfl
  · rw [Apdlcc.next_of_requests rfl hrequests, Apdlcc.balance_request (by decide) hrequests,
      if_pos (Or.inr ⟨rfl, rfl⟩)]
    rfl

end Pepal.Chain

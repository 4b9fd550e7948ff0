import Pepal.Chain.Creation

/-!
# Contracts and balances in one ledger

`multiapdlcc` keeps the contract of two parties under a prefix and their two
keys, and the violations of a party under its key alone. The owner of every
contract that it accepts is the text `download_request`, so no two contracts
share a place. But nothing is checked about the key of the user: one that
begins with the prefix can be the place of a contract, and a request for it
writes a number there.
-/

namespace Pepal.Chain.Multiapdlcc

variable {C : GoCrypto} {ContractKey : String}

/-! ## Places -/

theorem contractKey_inj {s r s' r' : String} :
    contractKey s r = contractKey s' r' ↔ s ++ r = s' ++ r' := by
  constructor
  · intro h
    have htext := congrArg String.toList h
    simp only [String.toList_append, List.append_assoc, List.append_cancel_left_eq] at htext
    apply String.toList_injective
    rw [String.toList_append, String.toList_append, htext]
  · intro h
    show ContractKeyPrefix ++ s ++ r = ContractKeyPrefix ++ s' ++ r'
    rw [String.append_assoc, String.append_assoc, h]

theorem contractKey_ne_user (s r : String) : contractKey s r ≠ r := by
  intro h
  have hlength := congrArg (fun key => key.toList.length) h
  simp only [String.toList_append, List.length_append] at hlength
  have hprefix : ContractKeyPrefix.toList.length = 8 := rfl
  omega

/-- The name of the function does not begin with the prefix. -/
theorem contractKey_ne_owner (s r : String) : contractKey s r ≠ "download_request" := by
  intro h
  have htext := congrArg (fun key => key.toList.head?) h
  simp only [String.toList_append, List.append_assoc] at htext
  have hhead : ∀ rest : List Char, (ContractKeyPrefix.toList ++ rest).head? = some 'c' :=
    fun _ => rfl
  rw [hhead] at htext
  exact absurd htext (by decide)

/-- No contract stands in the place of another or of a balance. -/
structure Separate (s r s' r' : String) : Prop where
  contracts : contractKey s r ≠ contractKey s' r'
  balances : ∀ key ∈ [contractKey s r, contractKey s' r'], ∀ party ∈ [s, r, s', r'], key ≠ party

section Accepted

variable {stub stub' : Stub} {s r s' r' ip ip' port port' : String} {dt dt' : Time}
  {amount amount' : ℤ}

/-- Of two requests that are accepted the users differ, so their contracts have
different places. -/
theorem contractKey_ne_of_requests (h : Requests stub s r ip port dt amount)
    (h' : Requests stub' s' r' ip' port' dt' amount') (hne : (s, r) ≠ (s', r')) :
    contractKey s r ≠ contractKey s' r' := by
  rw [Ne, contractKey_inj, h.owner, h'.owner]
  intro heq
  have htext := congrArg String.toList heq
  rw [String.toList_append, String.toList_append, List.append_cancel_left_eq] at htext
  apply hne
  rw [h.owner, h'.owner, String.toList_injective htext]

theorem separate_iff (h : Requests stub s r ip port dt amount)
    (h' : Requests stub' s' r' ip' port' dt' amount') (hne : (s, r) ≠ (s', r')) :
    Separate s r s' r' ↔ r' ≠ contractKey s r ∧ r ≠ contractKey s' r' := by
  constructor
  · intro hseparate
    constructor
    · exact (hseparate.balances _ (by simp) r' (by simp)).symm
    · exact (hseparate.balances _ (by simp) r (by simp)).symm
  · rintro ⟨huser', huser⟩
    refine ⟨contractKey_ne_of_requests h h' hne, ?_⟩
    have hs := h.owner
    have hs' := h'.owner
    subst hs hs'
    simp only [List.forall_mem_cons, List.not_mem_nil, false_implies, implies_true, and_true]
    exact ⟨⟨contractKey_ne_owner _ _, contractKey_ne_user _ _, contractKey_ne_owner _ _,
      huser'.symm⟩, contractKey_ne_owner _ _, huser.symm, contractKey_ne_owner _ _,
      contractKey_ne_user _ _⟩

end Accepted

/-! ## Runs of requests -/

theorem answer_Invoke (C : GoCrypto) (ContractKey : String) (ledger : Ledger) {tx : Tx}
    (hcall : tx.call = .Invoke) :
    (chaincode C ContractKey).answer ledger tx = execute (Invoke C ContractKey) (tx.stub ledger) :=
  (chaincode C ContractKey).answer_of_Invoke ledger hcall

theorem next_of_requests {ledger : Ledger} {tx : Tx} (hcall : tx.call = .Invoke)
    {s r ip port : String} {dt : Time} {amount : ℤ}
    (h : Requests (tx.stub ledger) s r ip port dt amount) :
    (chaincode C ContractKey).next ledger tx =
      commit ledger (requestWrites (tx.stub ledger) s r ip port dt amount) := by
  have hanswer := answer_Invoke C ContractKey ledger hcall
  rw [execute_of_requests h] at hanswer
  exact Chaincode.next_of_answer hanswer

/-- What is read back of an accepted contract: all but the keys. -/
theorem record_request {ledger : Ledger} {tx : Tx} {s r ip port : String} {dt : Time} {amount : ℤ}
    (h : Requests (tx.stub ledger) s r ip port dt amount) :
    Unmarshal false (commit ledger (requestWrites (tx.stub ledger) s r ip port dt amount)
      (contractKey s r)) = (requested s r ip port dt amount).visible false := by
  have hput : (tx.stub ledger).rejects 2 (contractKey s r) = false := by
    rw [rejects_contractKey, h.written]
  obtain ⟨depositAmount, depositTime, -, hamount, hdt⟩ := h.args
  obtain ⟨-, hmin, hmax⟩ := Atoi_ok.mp hamount
  rw [requestWrites, commit_append, commit_put_same hput,
    Stub.Unmarshal_marshal tx.marshals false ⟨year_of_Parse hdt, hmin, hmax⟩]

theorem user_request {ledger : Ledger} {stub : Stub} {s r ip port : String} {dt : Time}
    {amount : ℤ} (hput : stub.rejects 1 r = false) :
    commit ledger (requestWrites stub s r ip port dt amount) r = Itoa StartAmount := by
  rw [requestWrites, commit_append, commit_put_of_ne (contractKey_ne_user s r).symm, commit_append,
    commit_put_same hput]

/-- The transaction is a download request. -/
structure IsRequest (tx : Tx) : Prop where
  call : tx.call = .Invoke
  args : ∃ params, tx.args = "download_request" :: params

/-- A request changes nothing but the keys of its parties and the place of
their contract. -/
theorem next_of_request {ledger : Ledger} {tx : Tx} (h : IsRequest tx) {key : String}
    (hkey : ∀ s r ip port dt amount, Requests (tx.stub ledger) s r ip port dt amount →
      key ≠ s ∧ key ≠ r ∧ key ≠ contractKey s r) :
    (chaincode C ContractKey).next ledger tx key = ledger key := by
  by_cases hsuccess : ((chaincode C ContractKey).answer ledger tx).1.isSuccess = true
  · obtain ⟨params, hfn⟩ := h.args
    have hstub : (tx.stub ledger).args = "download_request" :: params := hfn
    rw [answer_Invoke C ContractKey ledger h.call, request_success_iff hstub] at hsuccess
    obtain ⟨s, r, ip, port, dt, amount, hrequests⟩ := hsuccess
    obtain ⟨hs, hr, hcontract⟩ := hkey s r ip port dt amount hrequests
    rw [next_of_requests h.call hrequests, requestWrites, commit_append, commit_append,
      commit_put_of_ne hcontract, commit_put_of_ne hr, commit_put_of_ne hs]
  · rw [Chaincode.next_of_failure hsuccess]

/-- A request of other parties whose user is not the place of the contract. -/
structure LeavesContract (s r : String) (ledger : Ledger) (tx : Tx) : Prop
    extends IsRequest tx where
  others : ∀ s' r' ip port dt amount, Requests (tx.stub ledger) s' r' ip port dt amount →
    (s', r') ≠ (s, r) ∧ r' ≠ contractKey s r

/-- A request of other parties whose contract has another place than the party. -/
structure LeavesBalance (party : String) (ledger : Ledger) (tx : Tx) : Prop
    extends IsRequest tx where
  others : ∀ s r ip port dt amount, Requests (tx.stub ledger) s r ip port dt amount →
    party ≠ s ∧ party ≠ r ∧ party ≠ contractKey s r

/-- Steps that leave a key leave it along a run. -/
theorem run_of_leaves {P : Ledger → Tx → Prop} {key : String}
    (hstep : ∀ ledger tx, P ledger tx → (chaincode C ContractKey).next ledger tx key = ledger key)
    {ledger : Ledger} {txs : List Tx}
    (h : Runs.Along (chaincode C ContractKey).next P ledger txs) :
    Runs.run (chaincode C ContractKey).next ledger txs key = ledger key := by
  refine Runs.related_of_along (R := fun l l' => l' key = l key) (fun _ => rfl)
    (fun {l l' l''} (hfirst : l' key = l key) (hsecond : l'' key = l' key) =>
      hsecond.trans hfirst) ?_ (Runs.Reachable.init ledger) h
  intro l tx _ hleaves
  exact hstep l tx hleaves

/-- **When the places of contracts and balances are kept apart.** Two accepted
requests are separate exactly when neither user is the place of the other
contract. Requests of other parties for which this holds leave a contract and a
balance as they are. -/
theorem keys_separate_iff (C : GoCrypto) (ContractKey : String) :
    (∀ (stub stub' : Stub) (s r ip port s' r' ip' port' : String) (dt dt' : Time)
      (amount amount' : ℤ), Requests stub s r ip port dt amount →
      Requests stub' s' r' ip' port' dt' amount' → (s, r) ≠ (s', r') →
      (Separate s r s' r' ↔ r' ≠ contractKey s r ∧ r ≠ contractKey s' r')) ∧
    (∀ (stub : Stub) (s r ip port : String) (dt : Time) (amount : ℤ),
      Requests stub s r ip port dt amount → ∀ (ledger : Ledger) (txs : List Tx),
      Runs.Along (chaincode C ContractKey).next (LeavesContract s r) ledger txs →
      Runs.run (chaincode C ContractKey).next ledger txs (contractKey s r) =
        ledger (contractKey s r)) ∧
    ∀ (party : String) (ledger : Ledger) (txs : List Tx),
      Runs.Along (chaincode C ContractKey).next (LeavesBalance party) ledger txs →
      Runs.run (chaincode C ContractKey).next ledger txs party = ledger party := by
  refine ⟨?_, ?_, ?_⟩
  · intro stub stub' s r ip port s' r' ip' port' dt dt' amount amount' h h' hne
    exact separate_iff h h' hne
  · intro stub s r ip port dt amount h ledger txs halong
    refine run_of_leaves ?_ halong
    intro l tx hleaves
    apply next_of_request hleaves.toIsRequest
    intro s' r' ip' port' dt' amount' hrequests
    obtain ⟨hne, huser⟩ := hleaves.others s' r' ip' port' dt' amount' hrequests
    refine ⟨?_, huser.symm, contractKey_ne_of_requests h hrequests hne.symm⟩
    rw [hrequests.owner]
    exact contractKey_ne_owner s r
  · intro party ledger txs halong
    refine run_of_leaves ?_ halong
    intro l tx hleaves
    exact next_of_request hleaves.toIsRequest hleaves.others

/-! ## A user that is the place of a contract -/

/-- A request that `multiapdlcc` accepts. -/
def requestOf (r : String) : Tx :=
  Apdlcc.invoke ["download_request", r, "100", "01/01/2030", "10.0.0.2", "8080"]

theorem requests_requestOf (ledger : Ledger) (r : String) :
    Requests ((requestOf r).stub ledger) "download_request" r "10.0.0.2" "8080" Apdlcc.expiry
      100 where
  function := rfl
  args := ⟨"100", "01/01/2030", rfl, by decide, rfl⟩
  nonneg := by decide
  future := by
    show Apdlcc.expiry.After zeroTime = true
    decide
  written := rfl

/-- The requests for B and for D leave each other alone. -/
theorem keys_separate_BD :
    Separate "download_request" "B" "download_request" "D" :=
  ((keys_separate_iff byteCrypto "").1 _ _ _ _ _ _ _ _ _ _ _ _ _ _
    (requests_requestOf emptyLedger "B") (requests_requestOf emptyLedger "D") (by decide)).mpr
    ⟨by decide, by decide⟩

/-- The text stored under the contract of B. -/
def placeOfB : String := contractKey "download_request" "B"

def openedB : Ledger := (chaincode byteCrypto "").next emptyLedger (requestOf "B")

/-- **Two requests that are not kept apart**: the second, for the user whose key
is the place of B's contract, writes a number over the contract. -/
theorem contract_overwritten :
    Requests ((requestOf "B").stub emptyLedger) "download_request" "B" "10.0.0.2" "8080"
        Apdlcc.expiry 100 ∧
      Requests ((requestOf placeOfB).stub openedB) "download_request" placeOfB "10.0.0.2" "8080"
        Apdlcc.expiry 100 ∧
      ("download_request", "B") ≠ ("download_request", placeOfB) ∧
      ¬ Separate "download_request" "B" "download_request" placeOfB ∧
      (Unmarshal false (openedB placeOfB)).Status = "download_requested" ∧
      (chaincode byteCrypto "").next openedB (requestOf placeOfB) placeOfB = "0" := by
  have hB := requests_requestOf emptyLedger "B"
  have hplace := requests_requestOf openedB placeOfB
  have hne : ("download_request", "B") ≠ ("download_request", placeOfB) := by decide
  refine ⟨hB, hplace, hne, ?_, ?_, ?_⟩
  · intro hseparate
    exact ((separate_iff hB hplace hne).mp hseparate).1 rfl
  · rw [openedB, next_of_requests rfl hB]
    exact congrArg APDL.Status (record_request hB)
  · rw [next_of_requests rfl hplace]
    exact user_request rfl

end Pepal.Chain.Multiapdlcc

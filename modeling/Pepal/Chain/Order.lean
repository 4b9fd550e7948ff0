import Pepal.Chain.ContractKeys
import Pepal.Chain.Violations

/-!
# The order of transactions

`multiapdlcc` keeps a contract for each user, and the clients of different users
do not wait for one another. Of the transactions only requests ever write, and
neither whether a request is accepted nor what it writes depends on the ledger
(`effect_of_reachable`). So a run leaves the writes of its requests, and two
orders of the same transactions leave the same ledger if no two requests are for
one user and no user is the place of a contract.
-/

namespace Pepal.Chain

/-! ## Writes that can change places -/

theorem commit_update_comm {key value : String} {writes : List (String × String)}
    (h : ∀ w ∈ writes, w.1 = key → w.2 = value) (ledger : Ledger) :
    commit (Function.update ledger key value) writes =
      Function.update (commit ledger writes) key value := by
  induction writes generalizing ledger with
  | nil => rfl
  | cons w writes ih =>
      have hrest := ih fun w' hw' => h w' (List.mem_cons_of_mem w hw')
      show commit (Function.update (Function.update ledger key value) w.1 w.2) writes =
        Function.update (commit (Function.update ledger w.1 w.2) writes) key value
      by_cases hkey : w.1 = key
      · have hvalue := h w List.mem_cons_self hkey
        rw [hkey, hvalue, Function.update_idem, hrest, Function.update_idem]
      · rw [Function.update_comm fun heq => hkey heq.symm, hrest]

/-- **Writes commute** if what both write to one key is the same. -/
theorem commit_comm {writes more : List (String × String)}
    (h : ∀ w ∈ writes, ∀ w' ∈ more, w'.1 = w.1 → w'.2 = w.2) (ledger : Ledger) :
    commit (commit ledger writes) more = commit (commit ledger more) writes := by
  induction writes generalizing ledger with
  | nil => rfl
  | cons w writes ih =>
      show commit (commit (Function.update ledger w.1 w.2) writes) more =
        commit (Function.update (commit ledger more) w.1 w.2) writes
      rw [ih fun w' hw' => h w' (List.mem_cons_of_mem w hw'),
        commit_update_comm (h w List.mem_cons_self)]

/-- The writes that are made, of a transaction that succeeds. -/
def Chaincode.effect (cc : Chaincode) (ledger : Ledger) (tx : Tx) : List (String × String) :=
  if (cc.answer ledger tx).1.isSuccess then (cc.answer ledger tx).2 else []

theorem Chaincode.next_eq_effect (cc : Chaincode) (ledger : Ledger) (tx : Tx) :
    cc.next ledger tx = commit ledger (cc.effect ledger tx) := by
  unfold Chaincode.next Chaincode.effect
  dsimp only
  split
  · rfl
  · rfl

namespace Multiapdlcc

variable {C : GoCrypto} {ContractKey : String}

/-! ## No transaction depends on the ledger -/

/-- No record has the status that a refund asks for. -/
def Quiet (ledger : Ledger) : Prop :=
  ∀ key, (Unmarshal false (ledger key)).Status ≠ "download_request"

theorem quiet_empty : Quiet emptyLedger := by
  intro key
  show (Unmarshal false "").Status ≠ "download_request"
  rw [Unmarshal_empty]
  decide

theorem refund_refused {ledger : Ledger} (h : Quiet ledger) {tx : Tx} (hcall : tx.call = .Invoke)
    {params : List String} (hfn : tx.args = "refund" :: params) :
    ¬ ((chaincode C ContractKey).answer ledger tx).1.isSuccess = true := by
  have hstub : (tx.stub ledger).args = "refund" :: params := hfn
  rw [answer_Invoke C ContractKey ledger hcall, execute_Invoke, hstub]
  show ¬ (execute (refund ContractKey params) (tx.stub ledger)).1.isSuccess = true
  rw [execute_refund]
  split
  · rename_i s_pubKey r_pubKey
    have hstatus : (Unmarshal false ((tx.stub ledger).state
        (ContractKeyPrefix ++ s_pubKey ++ r_pubKey))).Status ≠ "download_request" := h _
    dsimp only
    by_cases hread : (tx.stub ledger).env.fails 0 = true
    · rw [if_pos hread]
      exact Bool.false_ne_true
    · rw [if_neg hread, if_pos hstatus]
      exact Bool.false_ne_true
  · exact Bool.false_ne_true

/-- A request passes the same checks on every ledger. -/
theorem Requests.on {ledger : Ledger} {tx : Tx} {s r ip port : String} {dt : Time} {amount : ℤ}
    (h : Requests (tx.stub ledger) s r ip port dt amount) (ledger' : Ledger) :
    Requests (tx.stub ledger') s r ip port dt amount :=
  ⟨h.function, h.args, h.nonneg, h.future, h.written⟩

theorem answer_of_requests {ledger : Ledger} {tx : Tx} (hcall : tx.call = .Invoke)
    {s r ip port : String} {dt : Time} {amount : ℤ}
    (h : Requests (tx.stub ledger) s r ip port dt amount) :
    (chaincode C ContractKey).answer ledger tx =
      (.Success "download_request", requestWrites (tx.stub emptyLedger) s r ip port dt amount) := by
  rw [answer_Invoke C ContractKey ledger hcall]
  exact execute_of_requests h

/-- The transaction is a request that is accepted, with what it asks for. -/
structure Accepted (tx : Tx) (s r ip port : String) (dt : Time) (amount : ℤ) : Prop where
  call : tx.call = .Invoke
  requests : Requests (tx.stub emptyLedger) s r ip port dt amount

/-- What is not a request fails, or succeeds and writes nothing. -/
theorem effect_of_not_accepted (hC : C.RefusesEmpty) {ledger : Ledger} (h : Quiet ledger) {tx : Tx}
    (hother : ¬ ∃ s r ip port dt amount, Accepted tx s r ip port dt amount) :
    (chaincode C ContractKey).effect ledger tx = [] := by
  unfold Chaincode.effect
  split
  · rename_i hsuccess
    cases hcall : tx.call with
    | Init =>
        rw [(chaincode C ContractKey).answer_of_Init ledger hcall]
        rfl
    | Invoke =>
        have hanswer := answer_Invoke C ContractKey ledger hcall
        cases hargs : tx.args with
        | nil =>
            rw [hanswer, execute_Invoke, show (tx.stub ledger).args = [] from hargs]
        | cons fn params =>
            have hstub : (tx.stub ledger).args = fn :: params := hargs
            by_cases hrequest : fn = "download_request"
            · rw [hrequest] at hstub
              rw [hanswer, request_success_iff hstub] at hsuccess
              obtain ⟨s, r, ip, port, dt, amount, hrequests⟩ := hsuccess
              exact absurd ⟨s, r, ip, port, dt, amount, hcall, hrequests.on emptyLedger⟩ hother
            · by_cases hpenalty : fn = "penalty"
              · rw [hpenalty] at hargs
                exact absurd hsuccess (penalty_refused hC ledger hcall hargs)
              · by_cases hrefund : fn = "refund"
                · rw [hrefund] at hargs
                  exact absurd hsuccess (refund_refused h hcall hargs)
                · rw [hanswer, execute_Invoke, hstub]
                  dsimp only
                  rw [if_neg hrequest, if_neg hpenalty, if_neg hrefund]
  · rfl

theorem effect_of_accepted {ledger : Ledger} {tx : Tx} {s r ip port : String} {dt : Time}
    {amount : ℤ} (h : Accepted tx s r ip port dt amount) :
    (chaincode C ContractKey).effect ledger tx =
      requestWrites (tx.stub emptyLedger) s r ip port dt amount := by
  unfold Chaincode.effect
  rw [answer_of_requests h.call (h.requests.on ledger)]
  rfl

/-- **What a transaction writes does not depend on the ledger.** -/
theorem effect_eq (hC : C.RefusesEmpty) {ledger : Ledger} (h : Quiet ledger) (tx : Tx) :
    (chaincode C ContractKey).effect ledger tx =
      (chaincode C ContractKey).effect emptyLedger tx := by
  by_cases haccepted : ∃ s r ip port dt amount, Accepted tx s r ip port dt amount
  · obtain ⟨s, r, ip, port, dt, amount, haccepted⟩ := haccepted
    rw [effect_of_accepted haccepted, effect_of_accepted haccepted]
  · rw [effect_of_not_accepted hC h haccepted, effect_of_not_accepted hC quiet_empty haccepted]

theorem mem_requestWrites {stub : Stub} {s r ip port : String} {dt : Time} {amount : ℤ}
    {w : String × String} (h : w ∈ requestWrites stub s r ip port dt amount) :
    ((w.1 = s ∨ w.1 = r) ∧ w.2 = Itoa StartAmount) ∨
      (w.1 = contractKey s r ∧
        w.2 = (stub.marshal false (requested s r ip port dt amount)).1) := by
  rcases List.mem_append.mp h with hparties | hcontract
  · rcases List.mem_append.mp hparties with howner | huser
    · obtain ⟨rfl, -⟩ := mem_put howner
      exact Or.inl ⟨Or.inl rfl, rfl⟩
    · obtain ⟨rfl, -⟩ := mem_put huser
      exact Or.inl ⟨Or.inr rfl, rfl⟩
  · obtain ⟨rfl, -⟩ := mem_put hcontract
    exact Or.inr ⟨rfl, rfl⟩

theorem quiet_commit {ledger : Ledger} (h : Quiet ledger) {tx : Tx} {s r ip port : String}
    {dt : Time} {amount : ℤ} (haccepted : Accepted tx s r ip port dt amount) :
    Quiet (commit ledger (requestWrites (tx.stub emptyLedger) s r ip port dt amount)) := by
  refine commit_forall (P := fun value => (Unmarshal false value).Status ≠ "download_request")
    ?_ h
  intro w hw
  rcases mem_requestWrites hw with ⟨-, hvalue⟩ | ⟨-, hvalue⟩
  · rw [hvalue, Unmarshal_Itoa]
    decide
  · obtain ⟨depositAmount, depositTime, -, hamount, hdt⟩ := haccepted.requests.args
    obtain ⟨-, hmin, hmax⟩ := Atoi_ok.mp hamount
    have hmarshal : (tx.stub emptyLedger).env.marshalFails = false := tx.marshals
    rw [hvalue, Stub.Unmarshal_marshal hmarshal false ⟨year_of_Parse hdt, hmin, hmax⟩]
    show "download_requested" ≠ "download_request"
    decide

theorem quiet_next (hC : C.RefusesEmpty) {ledger : Ledger} (h : Quiet ledger) (tx : Tx) :
    Quiet ((chaincode C ContractKey).next ledger tx) := by
  rw [Chaincode.next_eq_effect]
  by_cases haccepted : ∃ s r ip port dt amount, Accepted tx s r ip port dt amount
  · obtain ⟨s, r, ip, port, dt, amount, haccepted⟩ := haccepted
    rw [effect_of_accepted haccepted]
    exact quiet_commit h haccepted
  · rw [effect_of_not_accepted hC h haccepted, commit_nil]
    exact h

theorem quiet_of_reachable (hC : C.RefusesEmpty) {ledger : Ledger}
    (h : (chaincode C ContractKey).Reachable ledger) : Quiet ledger :=
  h.invariant quiet_empty fun _ tx hquiet => quiet_next hC hquiet tx

/-- A run leaves the writes that its transactions make on their own. -/
theorem run_eq_commit (hC : C.RefusesEmpty) (txs : List Tx) {ledger : Ledger} (h : Quiet ledger) :
    Runs.run (chaincode C ContractKey).next ledger txs =
      txs.foldl (fun l tx => commit l ((chaincode C ContractKey).effect emptyLedger tx))
        ledger := by
  induction txs generalizing ledger with
  | nil => rfl
  | cons tx txs ih =>
      have hquiet : Quiet ((chaincode C ContractKey).next ledger tx) := quiet_next hC h tx
      have hnext := ih hquiet
      rw [Chaincode.next_eq_effect, effect_eq hC h] at hnext
      show Runs.run _ ((chaincode C ContractKey).next ledger tx) txs = _
      rw [Chaincode.next_eq_effect, effect_eq hC h]
      exact hnext

/-- **No transaction depends on the ledger**, in any run of the chaincode. -/
theorem effect_of_reachable (hC : C.RefusesEmpty) {ledger : Ledger}
    (h : (chaincode C ContractKey).Reachable ledger) (tx : Tx) :
    (chaincode C ContractKey).effect ledger tx = (chaincode C ContractKey).effect emptyLedger tx ∧
      ((chaincode C ContractKey).effect ledger tx = [] ∨
        ∃ s r ip port dt amount, Accepted tx s r ip port dt amount) := by
  have hquiet := quiet_of_reachable hC h
  refine ⟨effect_eq hC hquiet tx, ?_⟩
  by_cases haccepted : ∃ s r ip port dt amount, Accepted tx s r ip port dt amount
  · exact Or.inr haccepted
  · exact Or.inl (effect_of_not_accepted hC hquiet haccepted)

theorem effect_of_reachable_openedB :
    (chaincode byteCrypto "").effect openedB penaltyAB =
        (chaincode byteCrypto "").effect emptyLedger penaltyAB ∧
      ((chaincode byteCrypto "").effect openedB penaltyAB = [] ∨
        ∃ s r ip port dt amount, Accepted penaltyAB s r ip port dt amount) :=
  effect_of_reachable byteCrypto_refusesEmpty ⟨[requestOf "B"], rfl⟩ penaltyAB

/-! ## The order of requests -/

/-- The requests are not for one user, and neither user is the place of the
contract of the other. -/
def Apart (tx tx' : Tx) : Prop :=
  ∀ s r ip port dt amount, Accepted tx s r ip port dt amount →
    ∀ s' r' ip' port' dt' amount', Accepted tx' s' r' ip' port' dt' amount' →
      r ≠ r' ∧ r ≠ contractKey s' r' ∧ r' ≠ contractKey s r

theorem Apart.symm {tx tx' : Tx} (h : Apart tx tx') : Apart tx' tx := by
  intro s r ip port dt amount haccepted s' r' ip' port' dt' amount' haccepted'
  obtain ⟨husers, huser, huser'⟩ := h _ _ _ _ _ _ haccepted' _ _ _ _ _ _ haccepted
  exact ⟨husers.symm, huser', huser⟩

/-- Of two requests that are apart, what both write is the number of violations
that every party starts with. -/
theorem written_eq {tx tx' : Tx} (h : Apart tx tx') {s r ip port : String} {dt : Time} {amount : ℤ}
    (haccepted : Accepted tx s r ip port dt amount) {s' r' ip' port' : String} {dt' : Time}
    {amount' : ℤ} (haccepted' : Accepted tx' s' r' ip' port' dt' amount')
    {w w' : String × String}
    (hw : w ∈ requestWrites (tx.stub emptyLedger) s r ip port dt amount)
    (hw' : w' ∈ requestWrites (tx'.stub emptyLedger) s' r' ip' port' dt' amount')
    (hkey : w'.1 = w.1) : w'.2 = w.2 := by
  obtain ⟨husers, huser, huser'⟩ := h _ _ _ _ _ _ haccepted _ _ _ _ _ _ haccepted'
  have hs := haccepted.requests.owner
  have hs' := haccepted'.requests.owner
  subst hs hs'
  rcases mem_requestWrites hw with ⟨hparty, hvalue⟩ | ⟨hcontract, -⟩
  · rcases mem_requestWrites hw' with ⟨-, hvalue'⟩ | ⟨hcontract', -⟩
    · rw [hvalue, hvalue']
    · exfalso
      rw [hcontract'] at hkey
      rcases hparty with howner | hnamed
      · exact contractKey_ne_owner _ _ (hkey.trans howner)
      · exact huser (hnamed.symm.trans hkey.symm)
  · exfalso
    rw [hcontract] at hkey
    rcases mem_requestWrites hw' with ⟨howner' | hnamed', -⟩ | ⟨hcontract', -⟩
    · exact contractKey_ne_owner _ _ (hkey.symm.trans howner')
    · exact huser' (hnamed'.symm.trans hkey)
    · have hplace := contractKey_inj.mp (hkey.symm.trans hcontract')
      have htext := congrArg String.toList hplace
      rw [String.toList_append, String.toList_append, List.append_cancel_left_eq] at htext
      exact husers (String.toList_injective htext)

theorem effect_comm (hC : C.RefusesEmpty) {tx tx' : Tx} (h : Apart tx tx') (ledger : Ledger) :
    commit (commit ledger ((chaincode C ContractKey).effect emptyLedger tx))
        ((chaincode C ContractKey).effect emptyLedger tx') =
      commit (commit ledger ((chaincode C ContractKey).effect emptyLedger tx'))
        ((chaincode C ContractKey).effect emptyLedger tx) := by
  by_cases haccepted : ∃ s r ip port dt amount, Accepted tx s r ip port dt amount
  · by_cases haccepted' : ∃ s r ip port dt amount, Accepted tx' s r ip port dt amount
    · obtain ⟨s, r, ip, port, dt, amount, haccepted⟩ := haccepted
      obtain ⟨s', r', ip', port', dt', amount', haccepted'⟩ := haccepted'
      rw [effect_of_accepted haccepted, effect_of_accepted haccepted']
      exact commit_comm (fun w hw w' hw' => written_eq h haccepted haccepted' hw hw') ledger
    · rw [effect_of_not_accepted hC quiet_empty haccepted', commit_nil, commit_nil]
  · rw [effect_of_not_accepted hC quiet_empty haccepted, commit_nil, commit_nil]

/-- **The order of transactions is of no account**, if the requests among them are
apart. -/
theorem run_eq_of_perm (hC : C.RefusesEmpty) {txs txs' : List Tx} (hperm : txs.Perm txs')
    (hapart : txs.Pairwise Apart) :
    (chaincode C ContractKey).run txs = (chaincode C ContractKey).run txs' := by
  have hcomm : ∀ tx ∈ txs, ∀ tx' ∈ txs, ∀ ledger : Ledger,
      commit (commit ledger ((chaincode C ContractKey).effect emptyLedger tx))
          ((chaincode C ContractKey).effect emptyLedger tx') =
        commit (commit ledger ((chaincode C ContractKey).effect emptyLedger tx'))
          ((chaincode C ContractKey).effect emptyLedger tx) := by
    intro tx htx tx' htx' ledger
    by_cases hsame : tx = tx'
    · rw [hsame]
    · have hsymm : Std.Symm Apart := ⟨fun _ _ => Apart.symm⟩
      exact effect_comm hC (hapart.forall htx htx' hsame) ledger
  show Runs.run _ emptyLedger txs = Runs.run _ emptyLedger txs'
  rw [run_eq_commit hC txs quiet_empty, run_eq_commit hC txs' quiet_empty]
  exact hperm.foldl_eq' hcomm emptyLedger

theorem user_of_accepted {u s r ip port : String} {dt : Time} {amount : ℤ}
    (h : Accepted (requestOf u) s r ip port dt amount) : s = "download_request" ∧ r = u := by
  obtain ⟨depositAmount, depositTime, hargs, -, -⟩ := h.requests.args
  have hterms : ["download_request", u, "100", "01/01/2030", "10.0.0.2", "8080"] =
      [s, r, depositAmount, depositTime, ip, port] := hargs
  simp only [List.cons.injEq] at hterms
  exact ⟨hterms.1.symm, hterms.2.1.symm⟩

/-- The requests for B and for D may come in either order. -/
theorem run_eq_of_perm_BD :
    (chaincode byteCrypto "").run [requestOf "B", requestOf "D"] =
      (chaincode byteCrypto "").run [requestOf "D", requestOf "B"] := by
  refine run_eq_of_perm byteCrypto_refusesEmpty (List.Perm.swap _ _ _) ?_
  rw [List.pairwise_pair]
  intro s r ip port dt amount haccepted s' r' ip' port' dt' amount' haccepted'
  obtain ⟨rfl, rfl⟩ := user_of_accepted haccepted
  obtain ⟨rfl, rfl⟩ := user_of_accepted haccepted'
  exact ⟨by decide, by decide, by decide⟩

end Multiapdlcc

end Pepal.Chain

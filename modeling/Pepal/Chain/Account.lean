import Pepal.Chain.Balances
import Pepal.Chain.Evidence

/-!
# The account book

What a client sees of `apdlcc` are the calls and whether they succeed. This is
enough to tell the balance of every party: a `Book` is told one entry for each
transaction and keeps, for each party, whether a request has named it, with
what deposit, and whether the contract has been penalized since. Along every
run in which the ledger takes all calls, the balances are those of the book.

A request starts the accounts of both parties anew, so the book keeps nothing
of what was before it.
-/

namespace Pepal.Chain.Apdlcc

/-- What the last request that names a party has led to. -/
inductive Account where
  | fresh
  | requested (amount : ℤ)
  | penalized (amount : ℤ)
deriving DecidableEq

def Account.balance : Account → ℤ
  | .fresh => 0
  | .requested amount => StartAmount - amount
  | .penalized amount => wrapInt (StartAmount - amount - amount)

/-- The deposit is taken once for each request. -/
def Account.charge : Account → Account
  | .requested amount => .penalized amount
  | account => account

inductive Entry where
  | initialized
  | requested (s r : String) (amount : ℤ)
  | penalized
  | nothing
deriving DecidableEq

structure Book where
  /-- the user of the contract -/
  user : String
  accounts : String → Account

def emptyBook : Book := { user := "", accounts := fun _ => .fresh }

def Book.enter (book : Book) : Entry → Book
  | .initialized => { book with user := "" }
  | .requested s r amount =>
      { user := r
        accounts := Function.update (Function.update book.accounts s (.requested amount)) r
          (.requested amount) }
  | .penalized =>
      { book with
        accounts := Function.update book.accounts book.user (book.accounts book.user).charge }
  | .nothing => book

/-! ## What is entered -/

def Call.entry (args : List String) : Call → Entry
  | .Init => .initialized
  | .Invoke =>
      match args with
      | [] => .nothing
      | fn :: params =>
          if fn = "download_request" then
            match params with
            | s :: r :: depositAmount :: _ => .requested s r (Atoi depositAmount).1
            | _ => .nothing
          else if fn = "penalty" then .penalized
          else .nothing

/-- A transaction that fails is not entered. -/
def entry (tx : Tx) (response : Response) : Entry :=
  if response.isSuccess then Call.entry tx.args tx.call else .nothing

/-- The entries of a run, by the calls and the answers. -/
def entries (C : GoCrypto) : Ledger → List Tx → List Entry
  | _, [] => []
  | ledger, tx :: txs =>
      entry tx ((chaincode C).answer ledger tx).1 :: entries C ((chaincode C).next ledger tx) txs

variable {C : GoCrypto}

/-- What a transaction has made of the ledger, with what is entered for it. -/
inductive Enters (C : GoCrypto) (ledger : Ledger) (tx : Tx) : Entry → Ledger → Prop
  | initialized (hwritten : tx.env.fails 0 = false) :
      Enters C ledger tx .initialized (commit ledger (initWrites (tx.stub ledger)))
  | requested {s r ip port : String} {dt : Time} {amount : ℤ}
      (h : Requests (tx.stub ledger) s r ip port dt amount) :
      Enters C ledger tx (.requested s r amount)
        (commit ledger (requestWrites (tx.stub ledger) s r ip port dt amount))
  | penalized {message hubSig userSig : String}
      (h : Penalizes C (tx.stub ledger) message hubSig userSig) :
      Enters C ledger tx .penalized (commit ledger (penaltyWrites (tx.stub ledger)))
  | nothing : Enters C ledger tx .nothing ledger

theorem entry_request (s r depositAmount : String) (params : List String) :
    Call.entry ("download_request" :: s :: r :: depositAmount :: params) .Invoke =
      .requested s r (Atoi depositAmount).1 := by
  simp only [Call.entry, if_true]

theorem entry_penalty (params : List String) :
    Call.entry ("penalty" :: params) .Invoke = .penalized := by
  have hfn : ¬ "penalty" = "download_request" := by decide
  simp only [Call.entry, if_neg hfn, if_true]

/-- Only three functions change the ledger, and a refund never succeeds. -/
theorem next_of_other {ledger : Ledger} (hsound : Sound ledger) {tx : Tx}
    (hcall : tx.call = .Invoke) (hrequest : ∀ params, tx.args ≠ "download_request" :: params)
    (hpenalty : ∀ params, tx.args ≠ "penalty" :: params) :
    (chaincode C).next ledger tx = ledger := by
  have hhappens := happens C ledger tx
  generalize (chaincode C).next ledger tx = ledger' at hhappens ⊢
  cases hhappens with
  | initialized hinit hwritten =>
      rw [hcall] at hinit
      cases hinit
  | requested hinvoke h =>
      obtain ⟨_, _, hargs, -, -⟩ := h.args
      exact absurd hargs (hrequest _)
  | penalized hinvoke h =>
      obtain ⟨_, hargs⟩ := h.args
      exact absurd hargs (hpenalty _)
  | refunded hinvoke h => exact absurd h (hsound.not_refunds rfl)
  | unchanged => rfl

theorem entry_of_other {args : List String}
    (hrequest : ∀ params, args ≠ "download_request" :: params)
    (hpenalty : ∀ params, args ≠ "penalty" :: params) : Call.entry args .Invoke = .nothing := by
  cases args with
  | nil => rfl
  | cons fn params =>
      have hfn : fn ≠ "download_request" := fun h => hrequest params (by rw [h])
      have hfn' : fn ≠ "penalty" := fun h => hpenalty params (by rw [h])
      exact (if_neg hfn).trans (if_neg hfn')

theorem enters_of_Invoke {ledger : Ledger} (hsound : Sound ledger) {tx : Tx}
    (hcall : tx.call = .Invoke)
    (hsuccess : (execute (Invoke C) (tx.stub ledger)).1.isSuccess = true) :
    Enters C ledger tx (Call.entry tx.args .Invoke) ((chaincode C).next ledger tx) := by
  by_cases hrequest : ∃ params, tx.args = "download_request" :: params
  · obtain ⟨params, hargs⟩ := hrequest
    obtain ⟨s, r, ip, port, dt, amount, hrequests⟩ := (request_success_iff hargs).mp hsuccess
    obtain ⟨depositAmount, depositTime, hterms, hamount, -⟩ := hrequests.args
    have htx : tx.args = ["download_request", s, r, depositAmount, depositTime, ip, port] := hterms
    rw [next_of_requests hcall hrequests, htx, entry_request, hamount]
    exact .requested hrequests
  · by_cases hpenalty : ∃ params, tx.args = "penalty" :: params
    · obtain ⟨params, hargs⟩ := hpenalty
      obtain ⟨message, hubSig, userSig, hpenalizes⟩ := (penalty_success_iff hargs).mp hsuccess
      rw [next_of_penalizes hcall hpenalizes, hargs, entry_penalty]
      exact .penalized hpenalizes
    · rw [not_exists] at hrequest hpenalty
      rw [entry_of_other hrequest hpenalty, next_of_other hsound hcall hrequest hpenalty]
      exact .nothing

/-- **A transaction does what is entered for it.** -/
theorem enters {ledger : Ledger} (hsound : Sound ledger) (tx : Tx) :
    Enters C ledger tx (entry tx ((chaincode C).answer ledger tx).1)
      ((chaincode C).next ledger tx) := by
  unfold entry
  by_cases hsuccess : ((chaincode C).answer ledger tx).1.isSuccess = true
  · rw [if_pos hsuccess]
    cases hcall : tx.call with
    | Init =>
        rw [(chaincode C).answer_of_Init ledger hcall] at hsuccess
        change (execute Init (tx.stub ledger)).1.isSuccess = true at hsuccess
        have hwritten : tx.env.fails 0 = false := by
          apply Bool.eq_false_of_not_eq_true
          intro hfails
          have hstub : (tx.stub ledger).env.fails 0 = true := hfails
          rw [execute_Init, hstub] at hsuccess
          cases hsuccess
        rw [next_of_init hcall hwritten]
        exact .initialized hwritten
    | Invoke =>
        rw [answer_Invoke C ledger hcall] at hsuccess
        exact enters_of_Invoke hsound hcall hsuccess
  · rw [if_neg hsuccess, Chaincode.next_of_failure hsuccess]
    exact .nothing

/-! ## The ledger agrees with the book -/

/-- The ledger takes every call of the transaction. -/
def Taken (tx : Tx) : Prop := ∀ call, tx.env.fails call = false

structure Agrees (ledger : Ledger) (book : Book) : Prop where
  user : (record ledger).SoftwareUser.PubKey = book.user
  /-- what a penalty will take from the user is the deposit of its last request -/
  deposit : Closed ledger ∨
    book.accounts book.user = .requested (record ledger).DepositAmount
  balance : ∀ u, u ≠ "" → u ≠ ContractKey → balance ledger u = (book.accounts u).balance

theorem agrees_empty : Agrees emptyLedger emptyBook where
  user := by
    show (Unmarshal true "").SoftwareUser.PubKey = ""
    rw [Unmarshal_empty]
    rfl
  deposit := Or.inl (Or.inr (Or.inr (Unmarshal_empty true)))
  balance := fun _ _ _ => rfl

theorem rejects_of_taken {ledger : Ledger} {tx : Tx} (htaken : Taken tx) {call : ℕ} {key : String}
    (hkey : key ≠ "") : (tx.stub ledger).rejects call key = false := by
  have hfails : (tx.stub ledger).env.fails call = false := htaken call
  simp [Stub.rejects, hkey, hfails]

theorem agrees_init {ledger : Ledger} {book : Book} (h : Agrees ledger book) {tx : Tx}
    (hwritten : tx.env.fails 0 = false) :
    Agrees (commit ledger (initWrites (tx.stub ledger))) (book.enter .initialized) := by
  have hrecord := record_init ledger hwritten
  refine ⟨?_, Or.inl ?_, ?_⟩
  · rcases hrecord with hrecord | hrecord
    · rw [hrecord]
      rfl
    · rw [hrecord]
      rfl
  · rcases hrecord with hrecord | hrecord
    · left
      rw [hrecord]
      rfl
    · exact Or.inr (Or.inr hrecord)
  · intro u hempty hcontract
    rw [balance_init hcontract]
    exact h.balance u hempty hcontract

theorem agrees_request {ledger : Ledger} {book : Book} (h : Agrees ledger book) {tx : Tx}
    (htaken : Taken tx) {s r ip port : String} {dt : Time} {amount : ℤ}
    (hrequests : Requests (tx.stub ledger) s r ip port dt amount) :
    Agrees (commit ledger (requestWrites (tx.stub ledger) s r ip port dt amount))
      (book.enter (.requested s r amount)) := by
  have hrecord := record_request hrequests
  refine ⟨?_, Or.inr ?_, ?_⟩
  · rw [hrecord]
    rfl
  · rw [hrecord]
    exact Function.update_self ..
  · intro u hempty hcontract
    have hput : ∀ call, (tx.stub ledger).rejects call u = false :=
      fun call => rejects_of_taken htaken hempty
    rw [balance_request hcontract hrequests]
    show _ = (Function.update (Function.update book.accounts s _) r _ u).balance
    by_cases hr : u = r
    · subst hr
      rw [if_pos (Or.inr ⟨rfl, hput 1⟩), Function.update_self]
      rfl
    · rw [Function.update_of_ne hr]
      by_cases hs : u = s
      · subst hs
        rw [if_pos (Or.inl ⟨rfl, hput 0⟩), Function.update_self]
        rfl
      · rw [if_neg (not_or.mpr ⟨fun hnamed => hs hnamed.1, fun hnamed => hr hnamed.1⟩),
          Function.update_of_ne hs]
        exact h.balance u hempty hcontract

theorem agrees_penalty {ledger : Ledger} {book : Book} (h : Agrees ledger book) {tx : Tx}
    (htaken : Taken tx) {message hubSig userSig : String}
    (hpenalizes : Penalizes C (tx.stub ledger) message hubSig userSig) :
    Agrees (commit ledger (penaltyWrites (tx.stub ledger))) (book.enter .penalized) := by
  have hrecord := record_penalty_eq ledger tx
  rw [if_pos (htaken 3)] at hrecord
  refine ⟨?_, Or.inl (Or.inr (Or.inl ?_)), ?_⟩
  · rw [hrecord]
    exact h.user
  · rw [hrecord]
  · intro u hempty hcontract
    rw [balance_penalty (Or.inl hcontract), h.user]
    show _ = (Function.update book.accounts book.user _ u).balance
    by_cases hu : u = book.user
    · have hput : (tx.stub ledger).rejects 2 book.user = false :=
        rejects_of_taken htaken (hu ▸ hempty)
      rw [if_pos ⟨hu, hput⟩, hu, Function.update_self, charged_of_read ledger (htaken 1), h.user]
      rcases h.deposit with hclosed | hopen
      · -- a closed contract that can be penalized is none, and has no user
        rcases hclosed with hinit | hpenalized | hnone
        · exact absurd hinit hpenalizes.notInit
        · exact absurd hpenalized hpenalizes.notPenalized
        · have huser := h.user
          rw [hnone] at huser
          exact absurd (hu.trans huser.symm) hempty
      · have hbalance := h.balance book.user (hu ▸ hempty) (hu ▸ hcontract)
        rw [hbalance, hopen]
        rfl
    · rw [if_neg fun hnamed => hu hnamed.1, Function.update_of_ne hu]
      exact h.balance u hempty hcontract

/-- **A transaction keeps the ledger and the book in agreement.** -/
theorem agrees_next {ledger : Ledger} {book : Book} (hsound : Sound ledger)
    (h : Agrees ledger book) {tx : Tx} (htaken : Taken tx) :
    Agrees ((chaincode C).next ledger tx)
      (book.enter (entry tx ((chaincode C).answer ledger tx).1)) := by
  have henters := enters (C := C) hsound tx
  generalize entry tx ((chaincode C).answer ledger tx).1 = e at henters ⊢
  generalize (chaincode C).next ledger tx = ledger' at henters ⊢
  cases henters with
  | initialized hwritten => exact agrees_init h hwritten
  | requested hrequests => exact agrees_request h htaken hrequests
  | penalized hpenalizes => exact agrees_penalty h htaken hpenalizes
  | nothing => exact h

theorem agrees_run {txs : List Tx} (htaken : ∀ tx ∈ txs, Taken tx) {ledger : Ledger} {book : Book}
    (hsound : Sound ledger) (h : Agrees ledger book) :
    Agrees (Runs.run (chaincode C).next ledger txs)
      ((entries C ledger txs).foldl Book.enter book) := by
  induction txs generalizing ledger book with
  | nil => exact h
  | cons tx txs ih =>
      exact ih (fun t ht => htaken t (List.mem_cons_of_mem tx ht)) (sound_next hsound tx)
        (agrees_next hsound h (htaken tx List.mem_cons_self))

end Pepal.Chain.Apdlcc

import Pepal.Chain.Evidence

/-!
# Whether success means success

Each operation of `apdlcc` keeps its errors in one variable, which the next call
overwrites, or drops them. A request looks at the error of its last write only, a
penalty and a refund at that of their first read only, and nobody at those of
`json.Marshal`. So a transaction answers `Success` with writes refused and
balances not read. Here are the calls of each operation, in order, and those whose
error is looked at.
-/

namespace Pepal.Chain.Apdlcc

variable {C : GoCrypto}

/-- A call that can fail; the calls of the ledger are numbered. -/
inductive FallibleCall where
  | GetState (call : ℕ) (key : String)
  | PutState (call : ℕ) (key : String)
  | Marshal (apdl : APDL)

/-- Whether the error of the call is not nil. -/
def FallibleCall.err (stub : Stub) : FallibleCall → Bool
  | .GetState call key => (stub.get call key).2
  | .PutState call key => stub.rejects call key
  | .Marshal apdl => (stub.marshal true apdl).2

/-- None of the calls has failed. -/
def AllMade (stub : Stub) (calls : List FallibleCall) : Prop := ∀ c ∈ calls, c.err stub = false

/-! ## The calls of each operation -/

variable (stub : Stub)

def initCalls : List FallibleCall :=
  [.Marshal (initial (stub.env.now 0)), .PutState 0 ContractKey]

def initUnchecked : List FallibleCall := [.Marshal (initial (stub.env.now 0))]

def requestUnchecked (s r ip port : String) (dt : Time) (amount : ℤ) : List FallibleCall :=
  [.PutState 0 s, .PutState 1 r, .Marshal (requested s r ip port dt amount)]

def requestCalls (s r ip port : String) (dt : Time) (amount : ℤ) : List FallibleCall :=
  requestUnchecked s r ip port dt amount ++ [.PutState 2 ContractKey]

def penaltyUnchecked : List FallibleCall :=
  [.GetState 1 (record stub.state).SoftwareUser.PubKey,
    .PutState 2 (record stub.state).SoftwareUser.PubKey,
    .Marshal { record stub.state with Status := "penalized" }, .PutState 3 ContractKey]

def penaltyCalls : List FallibleCall := .GetState 0 ContractKey :: penaltyUnchecked stub

def refundUnchecked : List FallibleCall :=
  [.Marshal { record stub.state with Status := "expired" }, .PutState 1 ContractKey,
    .GetState 2 (record stub.state).SoftwareUser.PubKey,
    .PutState 3 (record stub.state).SoftwareUser.PubKey]

def refundCalls : List FallibleCall := .GetState 0 ContractKey :: refundUnchecked stub

section Listed

variable {stub}

theorem allMade_append {calls more : List FallibleCall} :
    AllMade stub (calls ++ more) ↔ AllMade stub calls ∧ AllMade stub more :=
  List.forall_mem_append

theorem allMade_cons {c : FallibleCall} {calls : List FallibleCall} :
    AllMade stub (c :: calls) ↔ c.err stub = false ∧ AllMade stub calls :=
  List.forall_mem_cons

theorem allMade_singleton {c : FallibleCall} : AllMade stub [c] ↔ c.err stub = false :=
  List.forall_mem_singleton

/-! ## The lists have all calls of the ledger -/

def FallibleCall.number : FallibleCall → Option ℕ
  | .GetState call _ => some call
  | .PutState call _ => some call
  | .Marshal _ => none

/-- The ledger calls among these are those that a run of the program has made. -/
def Lists (calls : List FallibleCall) (e : Exec) : Prop :=
  calls.filterMap FallibleCall.number = List.range e.calls

theorem bind_apply {α β : Type} (t : Shim α) (f : α → Shim β) (e : Exec) :
    (t >>= f) stub e = f (t stub e).1 stub (t stub e).2 := rfl

theorem ite_apply_shim (c : Prop) [Decidable c] (t u : Shim Response) (e : Exec) :
    (if c then t else u) stub e = if c then t stub e else u stub e :=
  apply_ite (fun p : Shim Response => p stub e) c t u

def start : Exec := { readings := 0, calls := 0, writes := [] }

theorem get_of_read {call : ℕ} (h : stub.env.fails call = false) (key : String) :
    stub.get call key = (stub.state key, false) := by
  rw [Stub.get, h]
  rfl

theorem lists_penalty {message hubSig userSig : String}
    (h : Penalizes C stub message hubSig userSig) :
    Lists (penaltyCalls stub) (Invoke C stub start).2 := by
  obtain ⟨first, hargs⟩ := h.args
  have hstatus : ¬ ((Unmarshal true (stub.state ContractKey)).Status = "init" ∨
      (Unmarshal true (stub.state ContractKey)).Status = "penalized") :=
    not_or.mpr ⟨h.notInit, h.notPenalized⟩
  have hverified : verifySig C (bytes message)
      [(Unmarshal true (stub.state ContractKey)).SoftwareOwner.PubKey,
        (Unmarshal true (stub.state ContractKey)).SoftwareUser.PubKey] [hubSig, userSig] = true :=
    h.verified
  unfold Invoke
  rw [bind_apply, GetFunctionAndParameters, Stub.function, hargs]
  show Lists _ (penalty C [first, message, hubSig, userSig] stub start).2
  unfold penalty
  simp only [bind_apply, ite_apply_shim, GetState, start, get_of_read h.read, hverified]
  rw [if_neg Bool.false_ne_true, if_neg hstatus]
  rfl

theorem lists_refund (h : Refunds stub) : Lists (refundCalls stub) (Invoke C stub start).2 := by
  obtain ⟨params, hargs⟩ := h.args
  have hstatus : ¬ (Unmarshal true (stub.state ContractKey)).Status ≠ "download_request" :=
    not_not.mpr h.status
  have hexpired : (stub.env.now 0).After (Unmarshal true (stub.state ContractKey)).ContractExpiry =
    true := h.expired
  unfold Invoke
  rw [bind_apply, GetFunctionAndParameters, Stub.function, hargs]
  show Lists _ (refund stub start).2
  unfold refund
  simp only [bind_apply, ite_apply_shim, GetState, Now, start, get_of_read h.read, hexpired]
  rw [if_neg Bool.false_ne_true, if_neg hstatus]
  rfl

theorem lists_request {s r ip port : String} {dt : Time} {amount : ℤ}
    (h : Requests stub s r ip port dt amount) :
    Lists (requestCalls s r ip port dt amount) (Invoke C stub start).2 := by
  obtain ⟨depositAmount, depositTime, hargs, hamount, hdt⟩ := h.args
  unfold Invoke
  rw [bind_apply, GetFunctionAndParameters, Stub.function, hargs]
  show Lists _ (download_request "download_request" stub start).2
  unfold download_request
  rw [bind_apply, GetStringArgs, hargs]
  have hfuture : ¬ (!dt.After (Now stub start).1) = true := by
    rw [Now, start, h.future]
    exact Bool.false_ne_true
  simp only [hamount, hdt]
  rw [ite_apply_shim, if_neg (not_invalid h.nonneg), bind_apply, ite_apply_shim, if_neg hfuture]
  rw [bind_apply, bind_apply, bind_apply, bind_apply, ite_apply_shim]
  split
  · rfl
  · rfl

theorem lists_init : Lists (initCalls stub) (Init stub start).2 := by
  unfold Init
  simp only [bind_apply, ite_apply_shim]
  split
  · rfl
  · rfl

/-! ## Success -/

/-- The write of the contract is looked at. -/
theorem requestCalls_iff {s r ip port : String} {dt : Time} {amount : ℤ}
    (h : Requests stub s r ip port dt amount) :
    AllMade stub (requestCalls s r ip port dt amount) ↔
      AllMade stub (requestUnchecked s r ip port dt amount) := by
  have hwritten : (FallibleCall.PutState 2 ContractKey).err stub = false :=
    (rejects_ContractKey stub 2).trans h.written
  rw [requestCalls, allMade_append, allMade_singleton, and_iff_left hwritten]

/-- The read of the contract is looked at. -/
theorem allMade_cons_read {calls : List FallibleCall} (h : stub.env.fails 0 = false) :
    AllMade stub (.GetState 0 ContractKey :: calls) ↔ AllMade stub calls := by
  have hread : (FallibleCall.GetState 0 ContractKey).err stub = false :=
    congrArg Prod.snd (get_of_read h ContractKey)
  rw [allMade_cons, and_iff_right hread]

theorem init_success_iff : (execute Init stub).1.isSuccess = true ↔ stub.env.fails 0 = false := by
  rw [execute_Init]
  cases stub.env.fails 0 with
  | true => simp [Response.isSuccess]
  | false => simp [Response.isSuccess]

theorem initCalls_iff (h : stub.env.fails 0 = false) :
    AllMade stub (initCalls stub) ↔ AllMade stub (initUnchecked stub) := by
  have hwritten : (FallibleCall.PutState 0 ContractKey).err stub = false :=
    (rejects_ContractKey stub 0).trans h
  have hcalls : initCalls stub = initUnchecked stub ++ [.PutState 0 ContractKey] := rfl
  rw [hcalls, allMade_append, allMade_singleton, and_iff_left hwritten]

end Listed

/-- **When success means success**: when, in an operation that passes its checks,
none of the calls fails whose errors are dropped. -/
theorem success_reports_iff (C : GoCrypto) (stub : Stub) :
    (((execute Init stub).1.isSuccess = true → AllMade stub (initCalls stub)) ↔
      (stub.env.fails 0 = false → AllMade stub (initUnchecked stub))) ∧
    (∀ params, stub.args = "download_request" :: params →
      (((execute (Invoke C) stub).1.isSuccess = true → ∃ s r ip port dt amount,
          Requests stub s r ip port dt amount ∧
            AllMade stub (requestCalls s r ip port dt amount)) ↔
        ∀ s r ip port dt amount, Requests stub s r ip port dt amount →
          AllMade stub (requestUnchecked s r ip port dt amount))) ∧
    (∀ params, stub.args = "penalty" :: params →
      (((execute (Invoke C) stub).1.isSuccess = true → AllMade stub (penaltyCalls stub)) ↔
        ∀ message hubSig userSig, Penalizes C stub message hubSig userSig →
          AllMade stub (penaltyUnchecked stub))) ∧
    ∀ params, stub.args = "refund" :: params →
      (((execute (Invoke C) stub).1.isSuccess = true → AllMade stub (refundCalls stub)) ↔
        (Refunds stub → AllMade stub (refundUnchecked stub))) := by
  refine ⟨?_, ?_, ?_, ?_⟩
  · rw [init_success_iff]
    exact forall_congr' initCalls_iff
  · intro params hfn
    rw [request_success_iff hfn]
    constructor
    · intro h s r ip port dt amount hrequests
      obtain ⟨s', r', ip', port', dt', amount', hrequests', hmade⟩ :=
        h ⟨s, r, ip, port, dt, amount, hrequests⟩
      obtain ⟨rfl, rfl, rfl, rfl, rfl, rfl⟩ := hrequests.unique rfl hrequests'
      exact (requestCalls_iff hrequests).mp hmade
    · rintro h ⟨s, r, ip, port, dt, amount, hrequests⟩
      exact ⟨s, r, ip, port, dt, amount, hrequests,
        (requestCalls_iff hrequests).mpr (h s r ip port dt amount hrequests)⟩
  · intro params hfn
    rw [penalty_success_iff hfn]
    constructor
    · intro h message hubSig userSig hpenalizes
      exact (allMade_cons_read hpenalizes.read).mp (h ⟨message, hubSig, userSig, hpenalizes⟩)
    · rintro h ⟨message, hubSig, userSig, hpenalizes⟩
      exact (allMade_cons_read hpenalizes.read).mpr (h message hubSig userSig hpenalizes)
  · intro params hfn
    rw [refund_success_iff hfn]
    exact forall_congr' fun hrefunds => allMade_cons_read hrefunds.read

/-- The penalty of `penaltyOfB` on a ledger that takes no writes. -/
def unwritten : Tx :=
  { penaltyOfB with env := { calm with fails := fun call => 2 ≤ call }, marshals := rfl }

/-- The request for A and B on a ledger that fails to take the owner's balance. -/
def unpaid : Tx :=
  { request "A" "B" "100" with env := { calm with fails := fun call => call = 0 }, marshals := rfl }

/-- **Success without the writes**: a penalty is answered with "Penalty applied"
and nothing has changed, and a request with success and the owner has no
balance. -/
theorem success_unwritten :
    ((chaincode byteCrypto).answer opened unwritten).1 = .Success "[+] Penalty applied\n" ∧
      (chaincode byteCrypto).next opened unwritten = opened ∧
      ¬ AllMade (unwritten.stub opened) (penaltyCalls (unwritten.stub opened)) ∧
      ((chaincode byteCrypto).answer emptyLedger unpaid).1 = .Success "download_request" ∧
      (chaincode byteCrypto).next emptyLedger unpaid "A" = "" := by
  have hpenalizes : Penalizes byteCrypto (unwritten.stub opened) "m" (signature 65 109)
      (signature 66 109) :=
    { (penalizes_opened 65 109) with args := (penalizes_opened 65 109).args, read := rfl }
  have hrequests : Requests (unpaid.stub emptyLedger) "A" "B" "10.0.0.2" "8080" expiry 100 :=
    { requests_request emptyLedger "A" "B" (by decide : Atoi "100" = (100, false)) (by decide) with
      written := rfl }
  refine ⟨?_, ?_, ?_, ?_, ?_⟩
  · rw [answer_Invoke byteCrypto opened rfl, execute_of_penalizes hpenalizes]
  · have hrejects : ∀ (call : ℕ) (key : String), 2 ≤ call →
        (unwritten.stub opened).rejects call key = true := by
      intro call key hcall
      have hfails : (unwritten.stub opened).env.fails call = true := decide_eq_true hcall
      rw [Stub.rejects, hfails, Bool.or_true]
    rw [next_of_penalizes rfl hpenalizes, penaltyWrites, commit_append,
      commit_put_rejected (hrejects 3 _ (by decide)),
      commit_put_rejected (hrejects 2 _ (by decide))]
  · intro hmade
    have hput := hmade (.PutState 3 ContractKey) (by simp [penaltyCalls, penaltyUnchecked])
    exact Bool.false_ne_true (hput.symm.trans (rejects_ContractKey _ 3))
  · rw [answer_Invoke byteCrypto emptyLedger rfl, execute_of_requests hrequests]
  · rw [next_of_requests rfl hrequests, ledger_request emptyLedger (by decide) hrequests]
    rfl

end Pepal.Chain.Apdlcc

import Mathlib.Logic.Function.Basic
import Pepal.Lib.Runs
import Pepal.Chain.Contract

/-!
# The chaincode shim

What a chaincode sees of the ledger while one transaction runs. `GetState`
reads the ledger as it was before the transaction, `PutState` adds to a write
set, and the writes are made only if the transaction answers `Success`. An
absent key reads as the empty text, and a key that is the empty text is
refused.

Everything else that the outside decides is in `Env`: the clock, which calls
of the ledger fail, whether the encoder fails.
-/

namespace Pepal.Chain

abbrev Ledger := String → String

/-- `peer.Response` -/
inductive Response where
  | Success (payload : String)
  | Error (message : String)
deriving DecidableEq

structure Env where
  /-- the readings of `time.Now()`, in order -/
  now : ℕ → Time
  /-- which of the calls of `GetState` and `PutState` fail, in order -/
  fails : ℕ → Bool
  marshalFails : Bool
  /-- `err.Error()` of a failed call -/
  errorText : String

/-- `shim.ChaincodeStubInterface` -/
structure Stub where
  state : Ledger
  args : List String
  env : Env

/-- The transaction so far. -/
structure Exec where
  readings : ℕ
  calls : ℕ
  writes : List (String × String)

def Stub.get (stub : Stub) (call : ℕ) (key : String) : String × Bool :=
  if stub.env.fails call then ("", true) else (stub.state key, false)

def Stub.rejects (stub : Stub) (call : ℕ) (key : String) : Bool :=
  key == "" || stub.env.fails call

/-- The write that a call of `PutState` leaves. -/
def Stub.put (stub : Stub) (call : ℕ) (key value : String) : List (String × String) :=
  if stub.rejects call key then [] else [(key, value)]

/-- `json.Marshal(apdl)`: the text, and whether the error is not nil. With an
error there is no text. -/
def Stub.marshal (stub : Stub) (exported : Bool) (apdl : APDL) : String × Bool :=
  match if stub.env.marshalFails then none else Marshal exported apdl with
  | some b => (b, false)
  | none => ("", true)

def Shim (α : Type) : Type := Stub → Exec → α × Exec

instance : Monad Shim where
  pure a := fun _ e => (a, e)
  bind x f := fun stub e => f (x stub e).1 stub (x stub e).2

def GetStringArgs : Shim (List String) := fun stub e => (stub.args, e)

def Stub.function (stub : Stub) : String × List String :=
  match stub.args with
  | [] => ("", [])
  | fn :: params => (fn, params)

def GetFunctionAndParameters : Shim (String × List String) := fun stub e => (stub.function, e)

/-- The value, and whether the error is not nil. -/
def GetState (key : String) : Shim (String × Bool) := fun stub e =>
  (stub.get e.calls key, { e with calls := e.calls + 1 })

/-- Whether the error is not nil. -/
def PutState (key value : String) : Shim Bool := fun stub e =>
  (stub.rejects e.calls key,
    { e with calls := e.calls + 1, writes := e.writes ++ stub.put e.calls key value })

/-- `time.Now()` -/
def Now : Shim Time := fun stub e =>
  (stub.env.now e.readings, { e with readings := e.readings + 1 })

/-- `err.Error()` after a failed call of `GetState` -/
def ErrorText : Shim String := fun stub e => (stub.env.errorText, e)

def MarshalAPDL (exported : Bool) (apdl : APDL) : Shim (String × Bool) := fun stub e =>
  (stub.marshal exported apdl, e)

def Shim.outcome (t : Shim Response) (stub : Stub) (e : Exec) : Response × List (String × String) :=
  ((t stub e).1, (t stub e).2.writes)

/-- The answer and the write set. -/
def execute (t : Shim Response) (stub : Stub) : Response × List (String × String) :=
  t.outcome stub { readings := 0, calls := 0, writes := [] }

/-! ## What each call does to the rest of a program -/

section Outcome

variable (stub : Stub) (e : Exec)

theorem outcome_pure (r : Response) : (pure r : Shim Response).outcome stub e = (r, e.writes) := rfl

theorem outcome_ite (c : Prop) [Decidable c] (t u : Shim Response) :
    (if c then t else u).outcome stub e = if c then t.outcome stub e else u.outcome stub e :=
  apply_ite (fun p : Shim Response => p.outcome stub e) c t u

theorem outcome_args (f : List String → Shim Response) :
    (GetStringArgs >>= f).outcome stub e = (f stub.args).outcome stub e := rfl

theorem outcome_function (f : String × List String → Shim Response) :
    (GetFunctionAndParameters >>= f).outcome stub e = (f stub.function).outcome stub e := rfl

theorem outcome_GetState (key : String) (f : String × Bool → Shim Response) :
    (GetState key >>= f).outcome stub e =
      (f (stub.get e.calls key)).outcome stub { e with calls := e.calls + 1 } := rfl

theorem outcome_PutState (key value : String) (f : Bool → Shim Response) :
    (PutState key value >>= f).outcome stub e =
      (f (stub.rejects e.calls key)).outcome stub
        { e with calls := e.calls + 1, writes := e.writes ++ stub.put e.calls key value } := rfl

theorem outcome_Now (f : Time → Shim Response) :
    (Now >>= f).outcome stub e =
      (f (stub.env.now e.readings)).outcome stub { e with readings := e.readings + 1 } := rfl

theorem outcome_ErrorText (f : String → Shim Response) :
    (ErrorText >>= f).outcome stub e = (f stub.env.errorText).outcome stub e := rfl

theorem outcome_MarshalAPDL (exported : Bool) (apdl : APDL) (f : String × Bool → Shim Response) :
    (MarshalAPDL exported apdl >>= f).outcome stub e =
      (f (stub.marshal exported apdl)).outcome stub e := rfl

end Outcome

theorem Stub.Unmarshal_marshal {stub : Stub} (h : stub.env.marshalFails = false) (exported : Bool)
    {apdl : APDL} (ha : apdl.Storable) :
    Unmarshal exported (stub.marshal exported apdl).1 = apdl.visible exported := by
  obtain ⟨b, hb, hread⟩ := Unmarshal_Marshal exported ha
  unfold Stub.marshal
  rw [h, if_neg Bool.false_ne_true, hb]
  exact hread

theorem Stub.marshal_none (stub : Stub) {exported : Bool} {apdl : APDL}
    (h : Marshal exported apdl = none) : stub.marshal exported apdl = ("", true) := by
  unfold Stub.marshal
  rw [h, ite_self]

theorem Stub.Atoi_marshal (stub : Stub) (exported : Bool) (apdl : APDL) :
    (Atoi (stub.marshal exported apdl).1).1 = 0 := by
  unfold Stub.marshal
  split
  · rename_i b h
    split at h
    · cases h
    · exact Atoi_Marshal h
  · rfl

/-- A key is read as it was before the transaction, or not at all. -/
theorem Stub.get_cases (stub : Stub) (call : ℕ) (key : String) :
    (stub.env.fails call = true ∧ stub.get call key = ("", true)) ∨
      (stub.env.fails call = false ∧ stub.get call key = (stub.state key, false)) := by
  unfold Stub.get
  cases h : stub.env.fails call with
  | true => exact Or.inl ⟨rfl, rfl⟩
  | false => exact Or.inr ⟨rfl, rfl⟩

/-! ## Writes -/

def commit (ledger : Ledger) (writes : List (String × String)) : Ledger :=
  writes.foldl (fun l w => Function.update l w.1 w.2) ledger

theorem commit_nil (ledger : Ledger) : commit ledger [] = ledger := rfl

theorem commit_append (ledger : Ledger) (writes more : List (String × String)) :
    commit ledger (writes ++ more) = commit (commit ledger writes) more := List.foldl_append

/-- What holds of every value on the ledger and of every value written holds
of every value after the writes. -/
theorem commit_forall {P : String → Prop} {writes : List (String × String)}
    (hwrites : ∀ w ∈ writes, P w.2) {ledger : Ledger} (h : ∀ key, P (ledger key)) (key : String) :
    P (commit ledger writes key) := by
  induction writes generalizing ledger with
  | nil => exact h key
  | cons w writes ih =>
      -- the rest of the writes starts from a ledger that has the property too
      refine ih (fun w' hw' => hwrites w' (List.mem_cons_of_mem w hw')) ?_
      intro other
      show P (Function.update ledger w.1 w.2 other)
      by_cases hother : other = w.1
      · rw [hother, Function.update_self]
        exact hwrites w List.mem_cons_self
      · rw [Function.update_of_ne hother]
        exact h other

theorem mem_put {stub : Stub} {call : ℕ} {key value : String} {w : String × String}
    (h : w ∈ stub.put call key value) : w = (key, value) ∧ stub.rejects call key = false := by
  unfold Stub.put at h
  split at h
  · cases h
  · rename_i hrejects
    exact ⟨List.mem_singleton.mp h, Bool.eq_false_of_not_eq_true hrejects⟩

theorem commit_put_same {stub : Stub} {call : ℕ} {key : String}
    (h : stub.rejects call key = false) (ledger : Ledger) (value : String) :
    commit ledger (stub.put call key value) key = value := by
  rw [Stub.put, h]
  exact Function.update_self key value ledger

theorem commit_put_rejected {stub : Stub} {call : ℕ} {key : String}
    (h : stub.rejects call key = true) (ledger : Ledger) (value : String) :
    commit ledger (stub.put call key value) = ledger := by
  rw [Stub.put, if_pos h, commit_nil]

theorem commit_put_of_ne {stub : Stub} {call : ℕ} {key other : String} (h : other ≠ key)
    (ledger : Ledger) (value : String) :
    commit ledger (stub.put call key value) other = ledger other := by
  unfold Stub.put
  split
  · rfl
  · exact Function.update_of_ne h value ledger

/-- A put changes its key to the value, unless it is rejected, and no other. -/
theorem commit_put (stub : Stub) (call : ℕ) (key value : String) (ledger : Ledger)
    (other : String) :
    commit ledger (stub.put call key value) other =
      if other = key ∧ stub.rejects call key = false then value else ledger other := by
  by_cases hkey : other = key
  · subst hkey
    cases hrejects : stub.rejects call other with
    | false => rw [commit_put_same hrejects, if_pos ⟨rfl, rfl⟩]
    | true => rw [commit_put_rejected hrejects, if_neg fun h => Bool.false_ne_true h.2.symm]
  · rw [commit_put_of_ne hkey, if_neg fun h => hkey h.1]

/-! ## Runs -/

structure Chaincode where
  Init : Shim Response
  Invoke : Shim Response

inductive Call where
  | Init
  | Invoke

/-- A transaction of a run. Its arguments are texts, so they are bytes in UTF-8.
The encoder refuses only what it has to. -/
structure Tx where
  call : Call
  args : List String
  env : Env
  marshals : env.marshalFails = false

def Tx.stub (tx : Tx) (ledger : Ledger) : Stub :=
  { state := ledger, args := tx.args, env := tx.env }

def Chaincode.code (cc : Chaincode) : Call → Shim Response
  | .Init => cc.Init
  | .Invoke => cc.Invoke

def Chaincode.answer (cc : Chaincode) (ledger : Ledger) (tx : Tx) :
    Response × List (String × String) :=
  execute (cc.code tx.call) (tx.stub ledger)

theorem Chaincode.answer_of_Init (cc : Chaincode) (ledger : Ledger) {tx : Tx}
    (hcall : tx.call = .Init) : cc.answer ledger tx = execute cc.Init (tx.stub ledger) := by
  unfold Chaincode.answer
  rw [hcall]
  rfl

theorem Chaincode.answer_of_Invoke (cc : Chaincode) (ledger : Ledger) {tx : Tx}
    (hcall : tx.call = .Invoke) : cc.answer ledger tx = execute cc.Invoke (tx.stub ledger) := by
  unfold Chaincode.answer
  rw [hcall]
  rfl

def Response.isSuccess : Response → Bool
  | .Success _ => true
  | .Error _ => false

/-- The ledger after the transaction. -/
def Chaincode.next (cc : Chaincode) (ledger : Ledger) (tx : Tx) : Ledger :=
  let (response, writes) := cc.answer ledger tx
  if response.isSuccess then commit ledger writes else ledger

theorem Chaincode.next_of_success {cc : Chaincode} {ledger : Ledger} {tx : Tx}
    (h : (cc.answer ledger tx).1.isSuccess = true) :
    cc.next ledger tx = commit ledger (cc.answer ledger tx).2 := if_pos h

theorem Chaincode.next_of_answer {cc : Chaincode} {ledger : Ledger} {tx : Tx} {payload : String}
    {writes : List (String × String)} (h : cc.answer ledger tx = (.Success payload, writes)) :
    cc.next ledger tx = commit ledger writes := by
  rw [Chaincode.next_of_success (by rw [h]; rfl), h]

theorem Chaincode.next_of_failure {cc : Chaincode} {ledger : Ledger} {tx : Tx}
    (h : ¬ (cc.answer ledger tx).1.isSuccess = true) : cc.next ledger tx = ledger := if_neg h

def emptyLedger : Ledger := fun _ => ""

abbrev Chaincode.run (cc : Chaincode) (txs : List Tx) : Ledger := Runs.run cc.next emptyLedger txs

abbrev Chaincode.Reachable (cc : Chaincode) (ledger : Ledger) : Prop :=
  Runs.Reachable cc.next emptyLedger ledger

end Pepal.Chain

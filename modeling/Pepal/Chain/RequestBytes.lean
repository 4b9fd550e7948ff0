import Pepal.Lib.Utf8
import Pepal.Chain.Transactions

/-!
# A download request in bytes

A Go string is bytes, and a caller may pass any. Elsewhere the arguments are
texts. Here `download_request` of `apdlcc.go` is once more, on bytes: a key is
taken as it is, number and date are read off the bytes, and `encoding/json`
writes the replacement character for a byte that belongs to no character. On
texts it is the program on texts (`answer_bytes`, `next_bytes`). On other bytes
it accepts a contract too, with parties that nobody asked for.
-/

namespace Pepal.Chain.Raw

open Apdlcc (StartAmount ContractKey SenderIP SenderPort)

/-! ## Strings -/

/-- The bytes as `encoding/json` and the printing functions read them. -/
def goText (s : Bytes) : String := String.ofList (Utf8.decode s)

/-- The bytes are a text in UTF-8. -/
def IsText (s : Bytes) : Prop := ∃ text : String, bytes text = s

theorem goText_bytes (text : String) : goText (bytes text) = text := by
  have hdecode : Utf8.decode (bytes text) = text.toList := Utf8.decode_encode text.toList
  rw [goText, hdecode, String.ofList_toList]

theorem bytes_injective : Function.Injective bytes :=
  Function.LeftInverse.injective goText_bytes

theorem isText_iff {s : Bytes} : IsText s ↔ bytes (goText s) = s := by
  constructor
  · rintro ⟨text, rfl⟩
    rw [goText_bytes]
  · intro h
    exact ⟨goText s, h⟩

/-- Bytes that are read without a replacement. -/
theorem isText_of_not_mem {s : Bytes} (h : Utf8.replacement ∉ (goText s).toList) : IsText s := by
  rw [goText, String.toList_ofList] at h
  refine isText_iff.mpr ?_
  show Utf8.encode (goText s).toList = s
  rw [goText, String.toList_ofList, Utf8.encode_decode_of_not_mem h]

theorem not_isText_of_mem {s : Bytes} {x : UInt8} (hx : x ∈ s) (hlarge : 248 ≤ x.toNat) :
    ¬ IsText s := by
  rintro ⟨text, htext⟩
  exact Utf8.not_valid_of_mem hx hlarge ⟨text.toList, htext⟩

theorem replacement_not_mem {digits : List Char} (h : digits.all Char.isDigit = true) :
    Utf8.replacement ∉ digits := by
  intro hmem
  have hdigit := List.all_eq_true.mp h _ hmem
  revert hdigit
  decide

/-- A decimal integer is ASCII. -/
theorem isText_of_Atoi {s : Bytes} {n : ℤ} (h : Atoi (goText s) = (n, false)) : IsText s := by
  apply isText_of_not_mem
  intro hmem
  obtain ⟨digits, -, hdigits, htext⟩ := (Atoi_ok.mp h).1
  have hnot := replacement_not_mem hdigits
  rcases htext with ⟨htext, -⟩ | ⟨htext, -⟩ | ⟨htext, -⟩
  · rw [htext] at hmem
    exact hnot hmem
  · rw [htext] at hmem
    exact hnot ((List.mem_cons.mp hmem).resolve_left (by decide))
  · rw [htext] at hmem
    exact hnot ((List.mem_cons.mp hmem).resolve_left (by decide))

/-- And so is a date. -/
theorem isText_of_Parse {s : Bytes} {dt : Time} (h : Parse (goText s) = .ok dt) : IsText s := by
  apply isText_of_not_mem
  intro hmem
  obtain ⟨mm, dd, yyyy, month, day, year, hmonth, hday, htext, hmm, hdd, hyyyy, -⟩ :=
    Parse_ok.mp h
  rw [htext, List.mem_append, List.mem_cons, List.mem_append, List.mem_cons] at hmem
  rcases hmem with hin | hslash | hin | hslash | hin
  · exact replacement_not_mem hmm.digits hin
  · exact absurd hslash (by decide)
  · exact replacement_not_mem hdd.digits hin
  · exact absurd hslash (by decide)
  · exact replacement_not_mem hyyyy.digits hin

/-! ## The contract -/

structure Party where
  PubKey : Bytes
  IPAddress : Bytes
  Port : Bytes

structure APDL where
  Status : Bytes
  SoftwareOwner : Party
  SoftwareUser : Party
  ContractExpiry : Time
  DepositAmount : ℤ

def Party.text (p : Party) : Chain.Party :=
  { PubKey := goText p.PubKey, IPAddress := goText p.IPAddress, Port := goText p.Port }

def Party.ofText (p : Chain.Party) : Party :=
  { PubKey := bytes p.PubKey, IPAddress := bytes p.IPAddress, Port := bytes p.Port }

/-- The record that the encoder reads. -/
def APDL.text (a : APDL) : Chain.APDL :=
  { Status := goText a.Status, SoftwareOwner := a.SoftwareOwner.text
    SoftwareUser := a.SoftwareUser.text, ContractExpiry := a.ContractExpiry
    DepositAmount := a.DepositAmount }

def APDL.ofText (a : Chain.APDL) : APDL :=
  { Status := bytes a.Status, SoftwareOwner := .ofText a.SoftwareOwner
    SoftwareUser := .ofText a.SoftwareUser, ContractExpiry := a.ContractExpiry
    DepositAmount := a.DepositAmount }

/-- The contract that a download request creates. -/
def requested (senderPublicKey recipientPublicKey recipientIP recipientPort : Bytes) (dt : Time)
    (amount : ℤ) : APDL :=
  { Status := bytes "download_requested"
    SoftwareOwner :=
      { PubKey := senderPublicKey, IPAddress := bytes SenderIP, Port := bytes SenderPort }
    SoftwareUser :=
      { PubKey := recipientPublicKey, IPAddress := recipientIP, Port := recipientPort }
    ContractExpiry := dt, DepositAmount := amount }

theorem bytes_goText (text : String) : bytes (goText (bytes text)) = bytes text := by
  rw [goText_bytes]

/-- What is read back of the contract: it has the parties that were asked for only
where they are texts. -/
theorem ofText_text_eq_iff {s r ip port : Bytes} {dt : Time} {amount : ℤ} :
    APDL.ofText (requested s r ip port dt amount).text = requested s r ip port dt amount ↔
      IsText s ∧ IsText r ∧ IsText ip ∧ IsText port := by
  simp only [isText_iff, APDL.ofText, APDL.text, Party.ofText, Party.text, requested,
    bytes_goText, APDL.mk.injEq, Party.mk.injEq, true_and, and_true]

/-! ## The shim -/

abbrev Ledger := Bytes → Bytes

structure Stub where
  args : List Bytes
  env : Env

structure Exec where
  readings : ℕ
  calls : ℕ
  writes : List (Bytes × Bytes)

def Stub.rejects (stub : Stub) (call : ℕ) (key : Bytes) : Bool :=
  key.isEmpty || stub.env.fails call

/-- The write that a call of `PutState` leaves. -/
def Stub.put (stub : Stub) (call : ℕ) (key value : Bytes) : List (Bytes × Bytes) :=
  if stub.rejects call key then [] else [(key, value)]

/-- `json.Marshal(apdl)`. A byte that belongs to no character becomes the replacement
character; it is written as an escape, here as the character that this is read as. -/
def Stub.marshal (stub : Stub) (apdl : APDL) : Bytes × Bool :=
  match if stub.env.marshalFails then none else Chain.Marshal true apdl.text with
  | some b => (bytes b, false)
  | none => ([], true)

def Shim (α : Type) : Type := Stub → Exec → α × Exec

instance : Monad Shim where
  pure a := fun _ e => (a, e)
  bind x f := fun stub e => f (x stub e).1 stub (x stub e).2

def GetStringArgs : Shim (List Bytes) := fun stub e => (stub.args, e)

def PutState (key value : Bytes) : Shim Bool := fun stub e =>
  (stub.rejects e.calls key,
    { e with calls := e.calls + 1, writes := e.writes ++ stub.put e.calls key value })

def Now : Shim Time := fun stub e =>
  (stub.env.now e.readings, { e with readings := e.readings + 1 })

def MarshalAPDL (apdl : APDL) : Shim (Bytes × Bool) := fun stub e => (stub.marshal apdl, e)

def Shim.outcome (t : Shim Response) (stub : Stub) (e : Exec) : Response × List (Bytes × Bytes) :=
  ((t stub e).1, (t stub e).2.writes)

section Outcome

variable (stub : Stub) (e : Exec)

theorem outcome_pure (r : Response) : (pure r : Shim Response).outcome stub e = (r, e.writes) := rfl

theorem outcome_ite (c : Prop) [Decidable c] (t u : Shim Response) :
    (if c then t else u).outcome stub e = if c then t.outcome stub e else u.outcome stub e :=
  apply_ite (fun p : Shim Response => p.outcome stub e) c t u

theorem outcome_args (f : List Bytes → Shim Response) :
    (GetStringArgs >>= f).outcome stub e = (f stub.args).outcome stub e := rfl

theorem outcome_PutState (key value : Bytes) (f : Bool → Shim Response) :
    (PutState key value >>= f).outcome stub e =
      (f (stub.rejects e.calls key)).outcome stub
        { e with calls := e.calls + 1, writes := e.writes ++ stub.put e.calls key value } := rfl

theorem outcome_Now (f : Time → Shim Response) :
    (Now >>= f).outcome stub e =
      (f (stub.env.now e.readings)).outcome stub { e with readings := e.readings + 1 } := rfl

theorem outcome_MarshalAPDL (apdl : APDL) (f : Bytes × Bool → Shim Response) :
    (MarshalAPDL apdl >>= f).outcome stub e = (f (stub.marshal apdl)).outcome stub e := rfl

end Outcome

/-! ## The program -/

/-- The texts of the answer are given as they are read. -/
def download_request (fn : Bytes) : Shim Response := do
  let args ← GetStringArgs
  match args with
  | [_, senderPublicKey, recipientPublicKey, depositAmount, depositTime, recipientIP,
      recipientPort] =>
      let (amount, err) := Atoi (goText depositAmount)
      if err ∨ amount < 0 then return .Error "Invalid amount passed"
      else match Parse (goText depositTime) with
        | .error text =>
            return .Error ("Unable to parse: " ++ goText depositTime ++ " Error: " ++ text)
        | .ok dt => do
            let now ← Now
            if !dt.After now then do
              let now ← Now
              return .Error ("Invalid (past) time passed: " ++ dt.Format ++ ". Time Now: " ++
                now.Format)
            else do
              let apdl := requested senderPublicKey recipientPublicKey recipientIP recipientPort
                dt amount
              let initialAmount := bytes (Itoa (wrapInt (StartAmount - amount)))
              let _ ← PutState senderPublicKey initialAmount
              let _ ← PutState recipientPublicKey initialAmount
              let (b, _) ← MarshalAPDL apdl
              let err ← PutState (bytes ContractKey) b
              if err then
                return .Error "[-] Failed to process download request transaction. Error!"
              else return .Success (goText fn)
  | _ => return .Error (Apdlcc.incorrectArguments (args.map goText))

/-- A transaction that calls `Invoke` with the function's name and parameters. -/
structure Tx where
  params : List Bytes
  env : Env
  marshals : env.marshalFails = false

def Tx.stub (tx : Tx) : Stub := { args := bytes "download_request" :: tx.params, env := tx.env }

/-- The answer and the write set. -/
def answer (tx : Tx) : Response × List (Bytes × Bytes) :=
  (download_request (bytes "download_request")).outcome tx.stub
    { readings := 0, calls := 0, writes := [] }

def commit (ledger : Ledger) (writes : List (Bytes × Bytes)) : Ledger :=
  writes.foldl (fun l w => Function.update l w.1 w.2) ledger

/-- The ledger after the transaction. -/
def next (ledger : Ledger) (tx : Tx) : Ledger :=
  let (response, writes) := answer tx
  if response.isSuccess then commit ledger writes else ledger

def record (ledger : Ledger) : APDL :=
  .ofText (Chain.Unmarshal true (goText (ledger (bytes ContractKey))))

def requestWrites (stub : Stub) (s r ip port : Bytes) (dt : Time) (amount : ℤ) :
    List (Bytes × Bytes) :=
  stub.put 0 s (bytes (Itoa (wrapInt (StartAmount - amount)))) ++
    stub.put 1 r (bytes (Itoa (wrapInt (StartAmount - amount)))) ++
      stub.put 2 (bytes ContractKey) (stub.marshal (requested s r ip port dt amount)).1

theorem rejects_ContractKey (stub : Stub) (call : ℕ) :
    stub.rejects call (bytes ContractKey) = stub.env.fails call := Bool.false_or _

/-- What the program answers and writes. -/
theorem answer_eq (tx : Tx) :
    answer tx =
      match tx.params with
      | [s, r, depositAmount, depositTime, ip, port] =>
          if (Atoi (goText depositAmount)).2 ∨ (Atoi (goText depositAmount)).1 < 0 then
            (.Error "Invalid amount passed", [])
          else match Parse (goText depositTime) with
            | .error text =>
                (.Error ("Unable to parse: " ++ goText depositTime ++ " Error: " ++ text), [])
            | .ok dt =>
                if !dt.After (tx.stub.env.now 0) then
                  (.Error ("Invalid (past) time passed: " ++ dt.Format ++ ". Time Now: " ++
                    (tx.stub.env.now 1).Format), [])
                else
                  let writes := requestWrites tx.stub s r ip port dt (Atoi (goText depositAmount)).1
                  if tx.stub.env.fails 2 then
                    (.Error "[-] Failed to process download request transaction. Error!", writes)
                  else (.Success "download_request", writes)
      | _ =>
          (.Error (Apdlcc.incorrectArguments ("download_request" :: tx.params.map goText)),
            []) := by
  have hname : goText (bytes "download_request") = "download_request" := goText_bytes _
  unfold answer download_request
  rw [outcome_args]
  split
  · rename_i _ s r depositAmount depositTime ip port hargs
    have hparams : tx.params = [s, r, depositAmount, depositTime, ip, port] :=
      (List.cons.inj hargs).2
    rw [hparams]
    simp only [outcome_ite]
    split
    · rfl
    · split
      · rfl
      · simp only [outcome_MarshalAPDL, outcome_PutState, outcome_Now, outcome_ite, outcome_pure,
          rejects_ContractKey, hname]
        split
        · rfl
        · split
          · rfl
          · rfl
  · rename_i hargs
    split
    · rename_i s r depositAmount depositTime ip port hparams
      exact absurd (congrArg (bytes "download_request" :: ·) hparams)
        (hargs _ s r depositAmount depositTime ip port)
    · rw [outcome_pure]
      show (Response.Error (Apdlcc.incorrectArguments
        (goText (bytes "download_request") :: tx.params.map goText)), _) = _
      rw [hname]

/-! ## On texts -/

/-- A ledger in bytes that has these texts under the texts. -/
def Shows (ledger : Ledger) (texts : Chain.Ledger) : Prop :=
  ∀ key : String, ledger (bytes key) = bytes (texts key)

/-- A write of texts. -/
def write (w : String × String) : Bytes × Bytes := (bytes w.1, bytes w.2)

theorem commit_write {ledger : Ledger} {texts : Chain.Ledger} (h : Shows ledger texts)
    (writes : List (String × String)) :
    Shows (commit ledger (writes.map write)) (Chain.commit texts writes) := by
  induction writes generalizing ledger texts with
  | nil => exact h
  | cons w writes ih =>
      refine ih fun key => ?_
      show Function.update ledger (bytes w.1) (bytes w.2) (bytes key) =
        bytes (Function.update texts w.1 w.2 key)
      by_cases hkey : key = w.1
      · rw [hkey, Function.update_self, Function.update_self]
      · have hbytes : bytes key ≠ bytes w.1 := fun heq => hkey (bytes_injective heq)
        rw [Function.update_of_ne hkey, Function.update_of_ne hbytes, h key]

theorem isEmpty_bytes (text : String) : (bytes text).isEmpty = (text == "") := by
  rw [Bool.eq_iff_iff, List.isEmpty_iff, beq_iff_eq]
  constructor
  · intro h
    exact bytes_injective h
  · rintro rfl
    rfl

/-- The transaction with these parameters. -/
def ofTx (tx : Chain.Tx) (params : List String) : Tx :=
  { params := params.map bytes, env := tx.env, marshals := tx.marshals }

theorem put_bytes (tx : Chain.Tx) (params : List String) (ledger : Chain.Ledger) (call : ℕ)
    (key value : String) :
    (ofTx tx params).stub.put call (bytes key) (bytes value) =
      ((tx.stub ledger).put call key value).map write := by
  have hrejects : (ofTx tx params).stub.rejects call (bytes key) =
      (tx.stub ledger).rejects call key := by
    unfold Stub.rejects Chain.Stub.rejects
    rw [isEmpty_bytes]
    rfl
  unfold Stub.put Chain.Stub.put
  rw [hrejects]
  split
  · rfl
  · rfl

theorem marshal_bytes (tx : Chain.Tx) (params : List String) (ledger : Chain.Ledger)
    (s r ip port : String) (dt : Time) (amount : ℤ) :
    ((ofTx tx params).stub.marshal (requested (bytes s) (bytes r) (bytes ip) (bytes port) dt
      amount)).1 =
        bytes ((tx.stub ledger).marshal true (Apdlcc.requested s r ip port dt amount)).1 := by
  have htext : (requested (bytes s) (bytes r) (bytes ip) (bytes port) dt amount).text =
      Apdlcc.requested s r ip port dt amount := by
    simp only [requested, APDL.text, Party.text, goText_bytes]
    rfl
  have henv : (ofTx tx params).stub.env = (tx.stub ledger).env := rfl
  unfold Stub.marshal Chain.Stub.marshal
  rw [htext, henv]
  cases if (tx.stub ledger).env.marshalFails = true then none
      else Chain.Marshal true (Apdlcc.requested s r ip port dt amount) with
  | none => rfl
  | some b => rfl

theorem requestWrites_bytes (tx : Chain.Tx) (params : List String) (ledger : Chain.Ledger)
    (s r ip port : String) (dt : Time) (amount : ℤ) :
    requestWrites (ofTx tx params).stub (bytes s) (bytes r) (bytes ip) (bytes port) dt amount =
      (Apdlcc.requestWrites (tx.stub ledger) s r ip port dt amount).map write := by
  unfold requestWrites Apdlcc.requestWrites
  rw [marshal_bytes tx params ledger, put_bytes tx params ledger, put_bytes tx params ledger,
    put_bytes tx params ledger, List.map_append, List.map_append]

/-- **On texts the program does what it does with texts.** -/
theorem answer_bytes (C : GoCrypto) (ledger : Chain.Ledger) {tx : Chain.Tx}
    (hcall : tx.call = .Invoke) {params : List String} (hfn : tx.args = "download_request" :: params) :
    answer (ofTx tx params) =
      (((Apdlcc.chaincode C).answer ledger tx).1,
        ((Apdlcc.chaincode C).answer ledger tx).2.map write) := by
  have hargs : (tx.stub ledger).args = "download_request" :: params := hfn
  have hanswer : (Apdlcc.chaincode C).answer ledger tx =
      execute (Apdlcc.download_request "download_request") (tx.stub ledger) := by
    rw [Apdlcc.answer_Invoke C ledger hcall, Apdlcc.execute_Invoke, hargs]
    rfl
  have hlist : (params.map bytes).map goText = params := by
    rw [List.map_map]
    exact (List.map_congr_left fun text _ => goText_bytes text).trans (List.map_id params)
  have hparams : (ofTx tx params).params = params.map bytes := rfl
  rw [hanswer, answer_eq, Apdlcc.execute_download_request, hargs, hparams, hlist]
  split
  · -- six parameters, which are the bytes of what is read off them
    rename_i _ s r depositAmount depositTime ip port hsix
    obtain rfl : params = [goText s, goText r, goText depositAmount, goText depositTime, goText ip,
        goText port] := by
      rw [← hlist, hsix]
      rfl
    obtain ⟨hs, hr, -, -, hip, hport⟩ : bytes (goText s) = s ∧ bytes (goText r) = r ∧
        bytes (goText depositAmount) = depositAmount ∧ bytes (goText depositTime) = depositTime ∧
        bytes (goText ip) = ip ∧ bytes (goText port) = port := by
      simpa only [List.map_cons, List.map_nil, List.cons.injEq, and_true] using hsix
    have hwrites := requestWrites_bytes tx [goText s, goText r, goText depositAmount,
      goText depositTime, goText ip, goText port] ledger (goText s) (goText r) (goText ip)
      (goText port)
    rw [hs, hr, hip, hport] at hwrites
    dsimp only
    rw [show (ofTx tx _).stub.env = (tx.stub ledger).env from rfl]
    split
    · rfl
    · cases hparse : Parse (goText depositTime) with
      | error text => rfl
      | ok dt =>
          dsimp only
          rw [hwrites]
          split
          · rfl
          · split
            · rfl
            · rfl
  · rename_i hsix
    split
    · rename_i _ s r depositAmount depositTime ip port hlong
      exact absurd (congrArg (List.map bytes) (List.cons.inj hlong).2) (hsix _ _ _ _ _ _)
    · rfl

/-- **Ledgers that show the same still do after a request.** -/
theorem next_bytes (C : GoCrypto) {ledger : Ledger} {texts : Chain.Ledger} (h : Shows ledger texts)
    {tx : Chain.Tx} (hcall : tx.call = .Invoke) {params : List String}
    (hfn : tx.args = "download_request" :: params) :
    Shows (next ledger (ofTx tx params)) ((Apdlcc.chaincode C).next texts tx) := by
  unfold next Chaincode.next
  rw [answer_bytes C texts hcall hfn]
  dsimp only
  split
  · exact commit_write h _
  · exact h

end Pepal.Chain.Raw

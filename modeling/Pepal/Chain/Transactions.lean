import Pepal.Chain.Apdlcc

/-!
# Transactions on the one contract

What a transaction of `apdlcc` makes of the ledger: one of five things
(`happens`). For each there is a lemma about the contract record and one about
the balances. The invariant that comes out of them, `Sound`, keeps the status
of every record among those that the chaincode writes.
-/

namespace Pepal.Chain.Apdlcc

variable {C : GoCrypto}

/-- What a transaction can have made of the ledger. -/
inductive Happens (C : GoCrypto) (ledger : Ledger) (tx : Tx) : Ledger → Prop
  | initialized (hcall : tx.call = .Init) (hwritten : tx.env.fails 0 = false) :
      Happens C ledger tx (commit ledger (initWrites (tx.stub ledger)))
  | requested (hcall : tx.call = .Invoke) {s r ip port : String} {dt : Time} {amount : ℤ}
      (h : Requests (tx.stub ledger) s r ip port dt amount) :
      Happens C ledger tx (commit ledger (requestWrites (tx.stub ledger) s r ip port dt amount))
  | penalized (hcall : tx.call = .Invoke) {message hubSig userSig : String}
      (h : Penalizes C (tx.stub ledger) message hubSig userSig) :
      Happens C ledger tx (commit ledger (penaltyWrites (tx.stub ledger)))
  | refunded (hcall : tx.call = .Invoke) (h : Refunds (tx.stub ledger)) :
      Happens C ledger tx (commit ledger (refundWrites (tx.stub ledger)))
  | unchanged : Happens C ledger tx ledger

/-- **A transaction does one of five things.** -/
theorem happens (C : GoCrypto) (ledger : Ledger) (tx : Tx) :
    Happens C ledger tx ((chaincode C).next ledger tx) := by
  by_cases hsuccess : ((chaincode C).answer ledger tx).1.isSuccess = true
  · rw [Chaincode.next_of_success hsuccess]
    cases hcall : tx.call with
    | Init =>
        rw [(chaincode C).answer_of_Init ledger hcall] at hsuccess ⊢
        change (execute Init (tx.stub ledger)).1.isSuccess = true at hsuccess
        show Happens C ledger tx (commit ledger (execute Init (tx.stub ledger)).2)
        rw [execute_Init] at hsuccess ⊢
        cases h0 : (tx.stub ledger).env.fails 0 with
        | true =>
            rw [h0] at hsuccess
            cases hsuccess
        | false => exact .initialized hcall h0
    | Invoke =>
        rw [(chaincode C).answer_of_Invoke ledger hcall] at hsuccess ⊢
        have hdone : Done C (tx.stub ledger) (execute (Invoke C) (tx.stub ledger)).2 :=
          Invoke_success hsuccess
        show Happens C ledger tx (commit ledger (execute (Invoke C) (tx.stub ledger)).2)
        generalize (execute (Invoke C) (tx.stub ledger)).2 = writes at hdone ⊢
        cases hdone with
        | requested h => exact .requested hcall h
        | penalized h => exact .penalized hcall h
        | refunded h => exact .refunded hcall h
        | read => exact .unchanged
  · rw [Chaincode.next_of_failure hsuccess]
    exact .unchanged

theorem answer_Invoke (C : GoCrypto) (ledger : Ledger) {tx : Tx} (hcall : tx.call = .Invoke) :
    (chaincode C).answer ledger tx = execute (Invoke C) (tx.stub ledger) :=
  (chaincode C).answer_of_Invoke ledger hcall

theorem next_of_init {ledger : Ledger} {tx : Tx} (hcall : tx.call = .Init)
    (hwritten : tx.env.fails 0 = false) :
    (chaincode C).next ledger tx = commit ledger (initWrites (tx.stub ledger)) := by
  have hanswer : (chaincode C).answer ledger tx = execute Init (tx.stub ledger) :=
    (chaincode C).answer_of_Init ledger hcall
  have hstub : (tx.stub ledger).env.fails 0 = false := hwritten
  rw [execute_Init, hstub] at hanswer
  exact Chaincode.next_of_answer hanswer

theorem next_of_requests {ledger : Ledger} {tx : Tx} (hcall : tx.call = .Invoke)
    {s r ip port : String} {dt : Time} {amount : ℤ}
    (h : Requests (tx.stub ledger) s r ip port dt amount) :
    (chaincode C).next ledger tx =
      commit ledger (requestWrites (tx.stub ledger) s r ip port dt amount) := by
  have hanswer := answer_Invoke C ledger hcall
  rw [execute_of_requests h] at hanswer
  exact Chaincode.next_of_answer hanswer

theorem next_of_penalizes {ledger : Ledger} {tx : Tx} (hcall : tx.call = .Invoke)
    {message hubSig userSig : String} (h : Penalizes C (tx.stub ledger) message hubSig userSig) :
    (chaincode C).next ledger tx = commit ledger (penaltyWrites (tx.stub ledger)) := by
  have hanswer := answer_Invoke C ledger hcall
  rw [execute_of_penalizes h] at hanswer
  exact Chaincode.next_of_answer hanswer

theorem next_of_refunds {ledger : Ledger} {tx : Tx} (hcall : tx.call = .Invoke)
    (h : Refunds (tx.stub ledger)) :
    (chaincode C).next ledger tx = commit ledger (refundWrites (tx.stub ledger)) := by
  have hanswer := answer_Invoke C ledger hcall
  rw [execute_of_refunds h] at hanswer
  exact Chaincode.next_of_answer hanswer

theorem not_requests_of_penalty {ledger : Ledger} {tx : Tx} {params : List String}
    (hargs : tx.args = "penalty" :: params) {s r ip port : String} {dt : Time} {amount : ℤ} :
    ¬ Requests (tx.stub ledger) s r ip port dt amount := by
  intro hrequests
  obtain ⟨_, _, hargs', -, -⟩ := hrequests.args
  have heq : "penalty" = "download_request" := (List.cons.inj (hargs.symm.trans hargs')).1
  exact absurd heq (by decide)

theorem not_penalizes_of_request {ledger : Ledger} {tx : Tx} {params : List String}
    (hargs : tx.args = "download_request" :: params) {message hubSig userSig : String} :
    ¬ Penalizes C (tx.stub ledger) message hubSig userSig := by
  intro hpenalizes
  obtain ⟨first, hargs'⟩ := hpenalizes.args
  have heq : "download_request" = "penalty" := (List.cons.inj (hargs.symm.trans hargs')).1
  exact absurd heq (by decide)

/-! ## The record after a transaction -/

theorem storable_requested {stub : Stub} {s r ip port : String} {dt : Time} {amount : ℤ}
    (h : Requests stub s r ip port dt amount) : (requested s r ip port dt amount).Storable := by
  obtain ⟨depositAmount, depositTime, -, hamount, hdt⟩ := h.args
  refine ⟨year_of_Parse hdt, ?_, ?_⟩
  · have hmin := minInt_le_Atoi depositAmount
    rwa [hamount] at hmin
  · have hmax := Atoi_le_maxInt depositAmount
    rwa [hamount] at hmax

/-- **An accepted request leaves the contract that it asked for.** -/
theorem record_request {ledger : Ledger} {tx : Tx} {s r ip port : String} {dt : Time} {amount : ℤ}
    (h : Requests (tx.stub ledger) s r ip port dt amount) :
    record (commit ledger (requestWrites (tx.stub ledger) s r ip port dt amount)) =
      requested s r ip port dt amount := by
  have hput : (tx.stub ledger).rejects 2 ContractKey = false := by
    rw [rejects_ContractKey, h.written]
  unfold record requestWrites
  rw [commit_append, commit_put_same hput,
    Stub.Unmarshal_marshal tx.marshals true (storable_requested h), visible_exported]

/-- A clock after the year 9999 leaves no record. -/
theorem record_init (ledger : Ledger) {tx : Tx} (h : tx.env.fails 0 = false) :
    record (commit ledger (initWrites (tx.stub ledger))) = initial (tx.env.now 0) ∨
      record (commit ledger (initWrites (tx.stub ledger))) = zeroAPDL := by
  have hput : (tx.stub ledger).rejects 0 ContractKey = false := by
    rw [rejects_ContractKey]
    exact h
  unfold record initWrites
  rw [commit_put_same hput]
  by_cases hyear : (tx.env.now 0).year < 10 ^ 4
  · have hstorable : (initial (tx.env.now 0)).Storable := ⟨hyear, (by decide : minInt ≤ 0),
      (by decide : (0 : ℤ) ≤ maxInt)⟩
    exact Or.inl (Stub.Unmarshal_marshal tx.marshals true hstorable)
  · have hnone : Marshal true (initial (tx.env.now 0)) = none := if_neg hyear
    -- the error is not looked at, and no text is stored
    right
    show Unmarshal true ((tx.stub ledger).marshal true (initial (tx.env.now 0))).1 = zeroAPDL
    rw [Stub.marshal_none _ hnone, Unmarshal_empty]

/-- What a penalty makes of the record. If the ledger refuses the contract, a
balance may still stand in its place, for a user whose key is that of the
contract. -/
theorem record_penalty_eq (ledger : Ledger) (tx : Tx) :
    record (commit ledger (penaltyWrites (tx.stub ledger))) =
      if tx.env.fails 3 = false then { record ledger with Status := "penalized" }
      else if (record ledger).SoftwareUser.PubKey = ContractKey ∧ tx.env.fails 2 = false then
        zeroAPDL
      else record ledger := by
  have hread : Unmarshal true ((tx.stub ledger).marshal true
      { record ledger with Status := "penalized" }).1 =
      { record ledger with Status := "penalized" } :=
    Stub.Unmarshal_marshal tx.marshals true (storable_Unmarshal true (ledger ContractKey))
  unfold penaltyWrites
  rw [commit_append, record, commit_put, rejects_ContractKey]
  cases hwritten : tx.env.fails 3 with
  | false =>
      rw [if_pos ⟨rfl, hwritten⟩, if_pos rfl]
      exact hread
  | true =>
      have hfails : ¬ (ContractKey = ContractKey ∧ (tx.stub ledger).env.fails 3 = false) := by
        rintro ⟨-, hfalse⟩
        exact Bool.false_ne_true (hfalse.symm.trans hwritten)
      -- the record is as the write of the balance has left it
      rw [if_neg hfails, if_neg (by simp), commit_put]
      by_cases huser : (record ledger).SoftwareUser.PubKey = ContractKey
      · have hrejects : (tx.stub ledger).rejects 2 (record ledger).SoftwareUser.PubKey =
            tx.env.fails 2 := by
          rw [huser]
          exact rejects_ContractKey _ 2
        cases hbalance : tx.env.fails 2 with
        | false =>
            rw [if_pos ⟨huser.symm, hrejects.trans hbalance⟩, if_pos ⟨huser, rfl⟩]
            exact Unmarshal_Itoa true _
        | true =>
            rw [if_neg fun h => Bool.false_ne_true (h.2.symm.trans (hrejects.trans hbalance)),
              if_neg fun h => Bool.false_ne_true h.2.symm]
            rfl
      · rw [if_neg fun h => huser h.1.symm, if_neg fun h => huser h.1]
        rfl

/-- After a penalty the contract is penalized, unless a write failed. -/
theorem record_penalty (ledger : Ledger) (tx : Tx) :
    record (commit ledger (penaltyWrites (tx.stub ledger))) =
        { record ledger with Status := "penalized" } ∨
      record (commit ledger (penaltyWrites (tx.stub ledger))) = zeroAPDL ∨
      record (commit ledger (penaltyWrites (tx.stub ledger))) = record ledger := by
  rw [record_penalty_eq]
  split
  · exact Or.inl rfl
  · split
    · exact Or.inr (Or.inl rfl)
    · exact Or.inr (Or.inr rfl)

/-! ## The balances after a transaction -/

theorem balance_init {ledger : Ledger} {tx : Tx} {u : String} (hu : u ≠ ContractKey) :
    balance (commit ledger (initWrites (tx.stub ledger))) u = balance ledger u := by
  unfold balance initWrites
  rw [commit_put_of_ne hu]

/-- What both parties start with is in range. -/
theorem wrapInt_start {stub : Stub} {s r ip port : String} {dt : Time} {amount : ℤ}
    (h : Requests stub s r ip port dt amount) :
    wrapInt (StartAmount - amount) = StartAmount - amount :=
  wrapInt_sub_of_nonneg ⟨by decide, by decide⟩ ⟨h.nonneg, (storable_requested h).2.2⟩

/-- **An accepted request writes the starting balance for both parties.** -/
theorem ledger_request (ledger : Ledger) {stub : Stub} {u : String} (hu : u ≠ ContractKey)
    {s r ip port : String} {dt : Time} {amount : ℤ} (h : Requests stub s r ip port dt amount) :
    commit ledger (requestWrites stub s r ip port dt amount) u =
      if (u = s ∧ stub.rejects 0 s = false) ∨ (u = r ∧ stub.rejects 1 r = false) then
        Itoa (StartAmount - amount)
      else ledger u := by
  unfold requestWrites
  rw [wrapInt_start h, commit_append, commit_append, commit_put_of_ne hu, commit_put, commit_put]
  by_cases hr : u = r ∧ stub.rejects 1 r = false
  · rw [if_pos hr, if_pos (Or.inr hr)]
  · rw [if_neg hr]
    by_cases hs : u = s ∧ stub.rejects 0 s = false
    · rw [if_pos hs, if_pos (Or.inl hs)]
    · rw [if_neg hs, if_neg (not_or.mpr ⟨hs, hr⟩)]

theorem balance_request {ledger : Ledger} {tx : Tx} {u : String} (hu : u ≠ ContractKey)
    {s r ip port : String} {dt : Time} {amount : ℤ}
    (h : Requests (tx.stub ledger) s r ip port dt amount) :
    balance (commit ledger (requestWrites (tx.stub ledger) s r ip port dt amount)) u =
      if (u = s ∧ (tx.stub ledger).rejects 0 s = false) ∨
          (u = r ∧ (tx.stub ledger).rejects 1 r = false) then StartAmount - amount
      else balance ledger u := by
  unfold balance
  rw [ledger_request ledger hu h]
  split
  · rw [← wrapInt_start h, Atoi_Itoa_wrapInt]
  · rfl

/-- **A penalty changes the balance of the user.** -/
theorem balance_penalty {ledger : Ledger} {tx : Tx} {u : String}
    (hu : u ≠ ContractKey ∨ tx.env.fails 3 = true) :
    balance (commit ledger (penaltyWrites (tx.stub ledger))) u =
      if u = (record ledger).SoftwareUser.PubKey ∧
          (tx.stub ledger).rejects 2 (record ledger).SoftwareUser.PubKey = false then
        charged (tx.stub ledger)
      else balance ledger u := by
  have hcontract : ∀ (l : Ledger) (value : String),
      commit l ((tx.stub ledger).put 3 ContractKey value) u = l u := by
    intro l value
    rcases hu with hne | hfails
    · exact commit_put_of_ne hne l value
    · have hrejects : (tx.stub ledger).rejects 3 ContractKey = true := by
        rw [rejects_ContractKey]
        exact hfails
      rw [commit_put_rejected hrejects]
  have hput := commit_put (tx.stub ledger) 2 (record ledger).SoftwareUser.PubKey
    (Itoa (charged (tx.stub ledger))) ledger u
  unfold balance penaltyWrites
  rw [commit_append, hcontract]
  refine (congrArg (fun value => (Atoi value).1) hput).trans ?_
  split
  · exact Atoi_Itoa_wrapInt _
  · rfl

/-- Where a record stands there is no balance. -/
theorem balance_put_record {stub : Stub} {call : ℕ} (h : stub.env.fails call = false)
    (ledger : Ledger) (apdl : APDL) :
    balance (commit ledger (stub.put call ContractKey (stub.marshal true apdl).1)) ContractKey =
      0 := by
  have hput : stub.rejects call ContractKey = false := by rw [rejects_ContractKey, h]
  unfold balance
  rw [commit_put_same hput]
  exact stub.Atoi_marshal true apdl

/-! ## Every reachable ledger -/

/-- The statuses that the chaincode writes, and that of no record. -/
def statuses : List String := ["", "init", "download_requested", "penalized", "expired"]

structure Sound (ledger : Ledger) : Prop where
  status : (record ledger).Status ∈ statuses
  deposit : 0 ≤ (record ledger).DepositAmount

/-- No record has the status that a refund asks for. -/
theorem Sound.not_refunds {ledger : Ledger} (h : Sound ledger) {stub : Stub}
    (hstub : stub.state = ledger) : ¬ Refunds stub := by
  intro hrefunds
  have hstatus := h.status
  rw [← hstub, hrefunds.status] at hstatus
  exact absurd hstatus (by decide)

theorem sound_of_record {ledger : Ledger} {apdl : APDL} (h : record ledger = apdl)
    (hstatus : apdl.Status ∈ statuses) (hdeposit : 0 ≤ apdl.DepositAmount) : Sound ledger := by
  subst h
  exact ⟨hstatus, hdeposit⟩

theorem sound_zero {ledger : Ledger} (h : record ledger = zeroAPDL) : Sound ledger :=
  sound_of_record h (by decide) (by decide)

/-- **A transaction keeps the records sound.** -/
theorem sound_next {ledger : Ledger} (h : Sound ledger) (tx : Tx) :
    Sound ((chaincode C).next ledger tx) := by
  have hhappens := happens C ledger tx
  generalize (chaincode C).next ledger tx = ledger' at hhappens ⊢
  cases hhappens with
  | initialized hcall hwritten =>
      rcases record_init ledger hwritten with hrecord | hrecord
      · exact sound_of_record hrecord (by simp [statuses, initial]) (le_refl 0)
      · exact sound_zero hrecord
  | requested hcall hrequests =>
      exact sound_of_record (record_request hrequests) (by simp [statuses, requested, newContract])
        hrequests.nonneg
  | penalized hcall hpenalizes =>
      rcases record_penalty ledger tx with hrecord | hrecord | hrecord
      · exact sound_of_record hrecord (by simp [statuses]) h.deposit
      · exact sound_zero hrecord
      · exact sound_of_record hrecord h.status h.deposit
  -- the status it asks for is not among those that are written
  | refunded hcall hrefunds => exact absurd hrefunds (h.not_refunds rfl)
  | unchanged => exact h

theorem sound_of_reachable {ledger : Ledger} (h : (chaincode C).Reachable ledger) : Sound ledger :=
  h.invariant (sound_zero rfl) fun _ tx hsound => sound_next hsound tx

/-- The text of that contract. -/
theorem text_request {ledger : Ledger} {tx : Tx} {s r ip port : String} {dt : Time} {amount : ℤ}
    (h : Requests (tx.stub ledger) s r ip port dt amount) :
    Marshal true (requested s r ip port dt amount) =
      some (commit ledger (requestWrites (tx.stub ledger) s r ip port dt amount) ContractKey) := by
  have hput : (tx.stub ledger).rejects 2 ContractKey = false := by
    rw [rejects_ContractKey, h.written]
  have hmarshals : (tx.stub ledger).env.marshalFails = false := tx.marshals
  obtain ⟨b, hb, -⟩ := Unmarshal_Marshal true (storable_requested h)
  unfold requestWrites
  rw [commit_append, commit_put_same hput, Stub.marshal, hmarshals, if_neg Bool.false_ne_true, hb]

/-- A property that transactions keep where the records are sound. -/
theorem invariant_of_sound {P : Ledger → Prop} {ledger : Ledger}
    (h : (chaincode C).Reachable ledger) (hinit : P emptyLedger)
    (hstep : ∀ l tx, Sound l → P l → P ((chaincode C).next l tx)) : P ledger := by
  have hempty : Sound emptyLedger ∧ P emptyLedger := ⟨sound_zero rfl, hinit⟩
  have hnext : ∀ l tx, Sound l ∧ P l →
      Sound ((chaincode C).next l tx) ∧ P ((chaincode C).next l tx) := by
    rintro l tx ⟨hsound, hl⟩
    exact ⟨sound_next hsound tx, hstep l tx hsound hl⟩
  exact (Runs.Reachable.invariant h hempty hnext).2

/-! ## A run to compute with -/

/-- The clock stands still and no call fails. -/
def calm : Env :=
  { now := fun _ => zeroTime, fails := fun _ => false, marshalFails := false, errorText := "" }

def invoke (args : List String) : Tx :=
  { call := .Invoke, args := args, env := calm, marshals := rfl }

def newYear (year : ℕ) : Time := Date year 1 1 (by decide) ⟨le_refl 1, Nat.le_of_ble_eq_true rfl⟩

def expiry : Time := newYear 2030

def request (s r depositAmount : String) : Tx :=
  invoke ["download_request", s, r, depositAmount, "01/01/2030", "10.0.0.2", "8080"]

/-- The terms of the contract that `request` asks for. -/
theorem requests_request (ledger : Ledger) (s r : String) {depositAmount : String} {amount : ℤ}
    (hamount : Atoi depositAmount = (amount, false)) (hnonneg : 0 ≤ amount) :
    Requests ((request s r depositAmount).stub ledger) s r "10.0.0.2" "8080" expiry amount where
  args := ⟨depositAmount, "01/01/2030", rfl, hamount, rfl⟩
  nonneg := hnonneg
  future := by
    show expiry.After zeroTime = true
    decide
  written := rfl

def initTx : Tx := { call := .Init, args := [], env := calm, marshals := rfl }

def initialized : Ledger := (chaincode byteCrypto).next emptyLedger initTx

/-- The ledger after a request for the keys A and B and a deposit of 100. -/
def opened : Ledger := (chaincode byteCrypto).next initialized (request "A" "B" "100")

theorem reachable_opened : (chaincode byteCrypto).Reachable opened :=
  ⟨[initTx, request "A" "B" "100"], rfl⟩

theorem requests_opened :
    Requests ((request "A" "B" "100").stub initialized) "A" "B" "10.0.0.2" "8080" expiry 100 :=
  requests_request initialized "A" "B" (by decide) (by decide)

theorem record_opened : record opened = requested "A" "B" "10.0.0.2" "8080" expiry 100 := by
  rw [opened, next_of_requests rfl requests_opened]
  exact record_request requests_opened

def signature (r s : ℤ) : String := Itoa r ++ "," ++ Itoa s

def penaltyCall (hubSig userSig : String) : Tx :=
  invoke ["penalty", "penalty", "m", hubSig, userSig]

/-- B's signature of the message `m` is (66, 109); any two numbers pass for
that of A. -/
theorem verified_AB {ledger : Ledger} (h : signers ledger = ["A", "B"]) (r s : ℤ) :
    verifySig byteCrypto (bytes "m") (signers ledger) [signature r s, signature 66 109] = true := by
  have howner := verifyEntry_bytes "A" 65 rfl (bytes "m") r s
  have huser := verifyEntry_bytes "B" 66 rfl (bytes "m") 66 109
  show verifyAll byteCrypto (bytes "m") (signers ledger) [signature r s, signature 66 109] = true
  rw [h, verifyAll_pair]
  constructor
  · rw [WellFormed, signature, howner]
    rfl
  · rw [signature, huser]
    decide

theorem penalizes_requested {ledger : Ledger} {ip port : String} {dt : Time} {amount : ℤ}
    (h : record ledger = requested "A" "B" ip port dt amount) (r s : ℤ) :
    Penalizes byteCrypto ((penaltyCall (signature r s) (signature 66 109)).stub ledger) "m"
      (signature r s) (signature 66 109) where
  args := ⟨"penalty", rfl⟩
  read := rfl
  notInit := by
    show (record ledger).Status ≠ "init"
    rw [h]
    show "download_requested" ≠ "init"
    decide
  notPenalized := by
    show (record ledger).Status ≠ "penalized"
    rw [h]
    show "download_requested" ≠ "penalized"
    decide
  verified := by
    have hsigners : signers ledger = ["A", "B"] := by
      rw [signers, h]
      rfl
    exact verified_AB hsigners r s

theorem penalizes_opened (r s : ℤ) :
    Penalizes byteCrypto ((penaltyCall (signature r s) (signature 66 109)).stub opened) "m"
      (signature r s) (signature 66 109) := penalizes_requested record_opened r s

end Pepal.Chain.Apdlcc

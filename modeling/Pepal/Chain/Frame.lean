import Pepal.Chain.Balances
import Pepal.Chain.Evidence

/-!
# What a penalty touches

A penalty that succeeds writes two keys: that of the user and that of the
contract. The record is decoded, its status is set, and it is encoded again as
a whole; the balance goes through `Atoi` and `Itoa`. `Touches` says that
nothing but the status and the balance is changed by this, and how.

The balance is read by a second `GetState`, whose error is dropped. If that
read fails, the balance counts as 0, whatever it is.
-/

namespace Pepal.Chain.Apdlcc

variable {C : GoCrypto}

/-- What a penalty makes of a balance. -/
def charge (balance deposit : ℤ) : ℤ := wrapInt (balance - deposit)

/-- Of the whole ledger only the status and the balance of the user change,
and the balance to a value that the balance and the deposit determine. -/
structure Touches (change : ℤ → ℤ → ℤ) (ledger after : Ledger) : Prop where
  frame : ∀ key, key ≠ ContractKey → key ≠ (record ledger).SoftwareUser.PubKey →
    after key = ledger key
  contract : record after = { record ledger with Status := "penalized" }
  user : balance after (record ledger).SoftwareUser.PubKey =
    change (balance ledger (record ledger).SoftwareUser.PubKey) (record ledger).DepositAmount

/-- The ledger takes both writes of a penalty. -/
structure Accepted (ledger : Ledger) (tx : Tx) : Prop where
  user : (tx.stub ledger).rejects 2 (record ledger).SoftwareUser.PubKey = false
  contract : tx.env.fails 3 = false

/-- The penalty touches only what it must; one that fails writes nothing. -/
structure Framed (C : GoCrypto) (change : ℤ → ℤ → ℤ) (ledger : Ledger) (tx : Tx) : Prop where
  success : ((chaincode C).answer ledger tx).1.isSuccess = true → Accepted ledger tx →
    Touches change ledger ((chaincode C).next ledger tx)
  failure : ((chaincode C).answer ledger tx).1.isSuccess = false →
    ((chaincode C).answer ledger tx).2 = []

/-- The balance is read, or is the 0 that it counts as. For a user whose key
is that of the contract there is no balance afterwards. -/
structure Sees (ledger : Ledger) (tx : Tx) : Prop where
  read : (record ledger).SoftwareUser.PubKey ≠ ContractKey →
    tx.env.fails 1 = false ∨ balance ledger (record ledger).SoftwareUser.PubKey = 0
  apart : (record ledger).SoftwareUser.PubKey = ContractKey →
    charge (balance ledger ContractKey) (record ledger).DepositAmount = 0

/-- A penalty that fails has written nothing before. -/
theorem penalty_failure_writes {stub : Stub} {params : List String}
    (hargs : stub.args = "penalty" :: params)
    (hfails : (execute (Invoke C) stub).1.isSuccess = false) :
    (execute (Invoke C) stub).2 = [] := by
  rw [execute_Invoke, hargs] at hfails ⊢
  change (execute (penalty C params) stub).1.isSuccess = false at hfails
  show (execute (penalty C params) stub).2 = []
  rw [execute_penalty] at hfails ⊢
  split
  · dsimp only at hfails ⊢
    split
    · rfl
    · rename_i hread
      rw [if_neg hread] at hfails
      split
      · rfl
      · rename_i hstatus
        rw [if_neg hstatus] at hfails
        split
        · rfl
        -- past the last check it succeeds
        · rename_i hverified
          rw [if_neg hverified] at hfails
          cases hfails
  · rfl

theorem frame_penalty (ledger : Ledger) (tx : Tx) {key : String} (hcontract : key ≠ ContractKey)
    (huser : key ≠ (record ledger).SoftwareUser.PubKey) :
    commit ledger (penaltyWrites (tx.stub ledger)) key = ledger key := by
  have hstub : key ≠ (record (tx.stub ledger).state).SoftwareUser.PubKey := huser
  unfold penaltyWrites
  rw [commit_append, commit_put_of_ne hcontract, commit_put_of_ne hstub]

theorem balance_accepted {ledger : Ledger} {tx : Tx} (h : Accepted ledger tx) :
    balance (commit ledger (penaltyWrites (tx.stub ledger))) (record ledger).SoftwareUser.PubKey =
      if (record ledger).SoftwareUser.PubKey = ContractKey then 0
      else charged (tx.stub ledger) := by
  by_cases hkey : (record ledger).SoftwareUser.PubKey = ContractKey
  · rw [if_pos hkey, hkey, penaltyWrites, commit_append]
    exact balance_put_record h.contract _ _
  · rw [if_neg hkey, balance_penalty (Or.inl hkey), if_pos ⟨rfl, h.user⟩]

/-- A balance that is not read is charged like one of 0. -/
theorem charged_eq_charge_iff (ledger : Ledger) (tx : Tx) :
    charged (tx.stub ledger) =
        charge (balance ledger (record ledger).SoftwareUser.PubKey)
          (record ledger).DepositAmount ↔
      tx.env.fails 1 = false ∨ balance ledger (record ledger).SoftwareUser.PubKey = 0 := by
  cases hread : tx.env.fails 1 with
  | false =>
      rw [charged_of_read ledger hread]
      exact iff_of_true rfl (Or.inl rfl)
  | true =>
      have hbounds := balance_bounds ledger (record ledger).SoftwareUser.PubKey
      have hfalse : ¬ true = false := by simp
      rw [charged_of_failed ledger hread, charge, or_iff_right hfalse]
      constructor
      · exact fun h => (wrapInt_sub_inj ⟨by decide, by decide⟩ hbounds h).symm
      · intro hzero
        rw [hzero]

/-- What is left to ask of a penalty whose writes are accepted. -/
theorem touches_iff {ledger : Ledger} {tx : Tx} (h : Accepted ledger tx) :
    Touches charge ledger (commit ledger (penaltyWrites (tx.stub ledger))) ↔ Sees ledger tx := by
  have hbalance := balance_accepted h
  constructor
  · intro htouches
    have huser := htouches.user
    rw [hbalance] at huser
    constructor
    · intro hkey
      rw [if_neg hkey] at huser
      exact (charged_eq_charge_iff ledger tx).mp huser
    · intro hkey
      rw [if_pos hkey, hkey] at huser
      exact huser.symm
  · intro hsees
    refine ⟨fun key hcontract huser => frame_penalty ledger tx hcontract huser, ?_, ?_⟩
    · rw [record_penalty_eq, if_pos h.contract]
    · rw [hbalance]
      by_cases hkey : (record ledger).SoftwareUser.PubKey = ContractKey
      · rw [if_pos hkey, hkey]
        exact (hsees.apart hkey).symm
      · rw [if_neg hkey]
        exact (charged_eq_charge_iff ledger tx).mpr (hsees.read hkey)

/-- **When a penalty touches only what it must.** -/
theorem penalty_framed_iff (C : GoCrypto) (ledger : Ledger) {tx : Tx} (hcall : tx.call = .Invoke)
    {params : List String} (hargs : tx.args = "penalty" :: params) :
    Framed C charge ledger tx ↔
      ∀ message hubSig userSig, Penalizes C (tx.stub ledger) message hubSig userSig →
        Accepted ledger tx → Sees ledger tx := by
  have hstub : (tx.stub ledger).args = "penalty" :: params := hargs
  have hsuccess : ((chaincode C).answer ledger tx).1.isSuccess = true ↔
      ∃ message hubSig userSig, Penalizes C (tx.stub ledger) message hubSig userSig := by
    rw [answer_Invoke C ledger hcall]
    exact penalty_success_iff hstub
  constructor
  · intro hframed message hubSig userSig hpenalizes haccepted
    have htouches := hframed.success (hsuccess.mpr ⟨message, hubSig, userSig, hpenalizes⟩) haccepted
    rw [next_of_penalizes hcall hpenalizes] at htouches
    exact (touches_iff haccepted).mp htouches
  · intro hsees
    constructor
    · intro hanswer haccepted
      obtain ⟨message, hubSig, userSig, hpenalizes⟩ := hsuccess.mp hanswer
      rw [next_of_penalizes hcall hpenalizes]
      exact (touches_iff haccepted).mpr (hsees message hubSig userSig hpenalizes haccepted)
    · intro hfails
      rw [answer_Invoke C ledger hcall] at hfails ⊢
      exact penalty_failure_writes hstub hfails

/-- The user of a contract that is penalized has a public key, so its key is
that of the contract only if this text decodes to one. -/
theorem user_ne_ContractKey (hC : C.ParsePKIXPublicKey (C.DecodeString ContractKey).1 = none)
    {ledger : Ledger} {tx : Tx} {message hubSig userSig : String}
    (h : Penalizes C (tx.stub ledger) message hubSig userSig) :
    (record ledger).SoftwareUser.PubKey ≠ ContractKey := by
  intro hkey
  obtain ⟨-, huser⟩ := (verifyAll_pair C (bytes message) _ _ hubSig userSig).mp h.verified
  change verifyEntry C (bytes message) (record ledger).SoftwareUser.PubKey userSig = some true
    at huser
  rw [hkey, verifyEntry] at huser
  dsimp only at huser
  rw [hC] at huser
  cases huser

/-- For real keys it comes down to the read of the balance. -/
theorem sees_iff (hC : C.ParsePKIXPublicKey (C.DecodeString ContractKey).1 = none)
    {ledger : Ledger} {tx : Tx} {message hubSig userSig : String}
    (h : Penalizes C (tx.stub ledger) message hubSig userSig) :
    Sees ledger tx ↔
      tx.env.fails 1 = false ∨ balance ledger (record ledger).SoftwareUser.PubKey = 0 := by
  have hkey := user_ne_ContractKey hC h
  constructor
  · exact fun hsees => hsees.read hkey
  · exact fun hread => ⟨fun _ => hread, fun hcontract => absurd hcontract hkey⟩

/-! ## A penalty that does not see the balance -/

/-- The penalty against B, where the ledger fails to read the balance. -/
def unread : Tx :=
  { call := .Invoke, args := penaltyOfB.args, marshals := rfl
    env := { calm with fails := fun call => call == 1 } }

theorem user_opened : (record opened).SoftwareUser.PubKey = "B" := by
  rw [record_opened]
  rfl

theorem deposit_opened : (record opened).DepositAmount = 100 := by
  rw [record_opened]
  rfl

theorem penalty_framed_opened :
    Framed byteCrypto charge opened penaltyOfB ↔
      ∀ message hubSig userSig,
        Penalizes byteCrypto (penaltyOfB.stub opened) message hubSig userSig →
          Accepted opened penaltyOfB → Sees opened penaltyOfB :=
  penalty_framed_iff byteCrypto opened rfl rfl

theorem penalizes_unread :
    Penalizes byteCrypto (unread.stub opened) "m" (signature 65 109) (signature 66 109) where
  args := ⟨"penalty", rfl⟩
  read := rfl
  notInit := (penalizes_opened 65 109).notInit
  notPenalized := (penalizes_opened 65 109).notPenalized
  verified := (penalizes_opened 65 109).verified

theorem accepted_unread : Accepted opened unread where
  user := by
    rw [user_opened]
    rfl
  contract := rfl

theorem accepted_opened : Accepted opened penaltyOfB where
  user := by
    rw [user_opened]
    rfl
  contract := rfl

/-- **No function gives the balance after a penalty**: the one of 74900 becomes
74800 when it is read, and -100 when it is not, and both calls succeed. -/
theorem balance_unread :
    balance ((chaincode byteCrypto).next opened penaltyOfB) "B" = 74800 ∧
      balance ((chaincode byteCrypto).next opened unread) "B" = -100 ∧
      ¬ ∃ change : ℤ → ℤ → ℤ, ∀ tx : Tx, tx.call = .Invoke →
        (∃ params, tx.args = "penalty" :: params) → Framed byteCrypto change opened tx := by
  have hread : balance ((chaincode byteCrypto).next opened penaltyOfB) "B" = 74800 :=
    balance_penalizedOnce
  have hunread : balance ((chaincode byteCrypto).next opened unread) "B" = -100 := by
    have hcharged : charged (unread.stub opened) = wrapInt (0 - (record opened).DepositAmount) :=
      charged_of_failed opened rfl
    have hbalance := balance_accepted accepted_unread
    rw [user_opened, if_neg (by decide), hcharged, deposit_opened] at hbalance
    rw [next_of_penalizes rfl penalizes_unread, hbalance]
    exact wrapInt_eq (by decide) (by decide)
  refine ⟨hread, hunread, ?_⟩
  rintro ⟨change, hframed⟩
  have hsuccess : ∀ {tx : Tx}, tx.call = .Invoke →
      Penalizes byteCrypto (tx.stub opened) "m" (signature 65 109) (signature 66 109) →
      ((chaincode byteCrypto).answer opened tx).1.isSuccess = true := by
    intro tx hcall hpenalizes
    rw [answer_Invoke byteCrypto opened hcall, execute_of_penalizes hpenalizes]
    rfl
  have hseen := ((hframed penaltyOfB rfl ⟨_, rfl⟩).success
    (hsuccess rfl (penalizes_opened 65 109)) accepted_opened).user
  have hunseen := ((hframed unread rfl ⟨_, rfl⟩).success
    (hsuccess rfl penalizes_unread) accepted_unread).user
  rw [user_opened] at hseen hunseen
  rw [hread] at hseen
  rw [hunread, ← hseen] at hunseen
  exact absurd hunseen (by decide)

end Pepal.Chain.Apdlcc

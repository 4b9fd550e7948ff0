import Pepal.Chain.Balances
import Pepal.Chain.Contracts
import Pepal.Chain.Evidence

/-!
# The money of a contract

A download request takes the deposit from what both parties start with, and a
refund would give it back to the user. So a contract that is open holds a
deposit, and a penalty should forfeit it. It takes it from the user once more,
and nobody gets either. Only a deposit of 0, or a ledger that fails at the
right calls, leaves the sum as it was (`Conserves`).

Nor is the deposit compared with what a party has: a request accepts any
deposit that is not negative, and a penalty subtracts without a look at the
balance. `Affords` is the condition under which no balance goes below 0.
-/

namespace Pepal.Chain.Apdlcc

variable {C : GoCrypto}

/-! ## The place of the contract -/

/-- The place of the contract holds no balance, or no record. -/
def Exclusive (ledger : Ledger) : Prop :=
  balance ledger ContractKey = 0 ∨ record ledger = zeroAPDL

theorem exclusive_next {ledger : Ledger} (hsound : Sound ledger) (h : Exclusive ledger) (tx : Tx) :
    Exclusive ((chaincode C).next ledger tx) := by
  by_cases hwrites : WritesContract C ledger tx
  · exact Or.inl (balance_ContractKey hwrites)
  · have hhappens := happens C ledger tx
    generalize (chaincode C).next ledger tx = ledger' at hhappens ⊢
    cases hhappens with
    | initialized hcall hwritten => exact absurd (Or.inl ⟨hcall, hwritten⟩) hwrites
    | requested hcall hrequests =>
        exact absurd (Or.inr (Or.inl ⟨hcall, _, _, _, _, _, _, hrequests⟩)) hwrites
    | penalized hcall hpenalizes =>
        have hfails : tx.env.fails 3 = true := by
          apply Bool.eq_true_of_not_eq_false
          intro hwritten
          exact hwrites (Or.inr (Or.inr ⟨hcall, hwritten, _, _, _, hpenalizes⟩))
        unfold Exclusive
        rw [record_penalty_eq, if_neg (by simp [hfails]), balance_penalty (Or.inr hfails)]
        by_cases huser : (record ledger).SoftwareUser.PubKey = ContractKey ∧ tx.env.fails 2 = false
        · rw [if_pos huser]
          exact Or.inr rfl
        · have hkept : ¬ (ContractKey = (record ledger).SoftwareUser.PubKey ∧
              (tx.stub ledger).rejects 2 (record ledger).SoftwareUser.PubKey = false) := by
            rintro ⟨hkey, hput⟩
            rw [← hkey, rejects_ContractKey] at hput
            exact huser ⟨hkey.symm, hput⟩
          rw [if_neg huser, if_neg hkept]
          exact h
    | refunded hcall hrefunds => exact absurd hrefunds (hsound.not_refunds rfl)
    | unchanged => exact h

theorem exclusive_of_reachable {ledger : Ledger} (h : (chaincode C).Reachable ledger) :
    Exclusive ledger :=
  invariant_of_sound h (Or.inl rfl) fun _ tx hsound hl => exclusive_next hsound hl tx

/-! ## What a penalty does to the sum -/

/-- The deposit that the contract holds: that of an open one. -/
def held (ledger : Ledger) : ℤ :=
  if (record ledger).Status = "download_requested" then (record ledger).DepositAmount else 0

def funds (s r : String) (ledger : Ledger) : ℤ := balance ledger s + balance ledger r + held ledger

/-- The settling transaction leaves the sum as it is. -/
def Conserves (ledger : Ledger) (tx : Tx) : Prop :=
  -- the ledger takes neither of the writes
  ((tx.stub ledger).rejects 2 (record ledger).SoftwareUser.PubKey = true ∧
    tx.env.fails 3 = true) ∨
  -- there is no deposit, and the balance is read before it is written
  ((record ledger).DepositAmount = 0 ∧
    ((tx.stub ledger).rejects 2 (record ledger).SoftwareUser.PubKey = true ∨
      tx.env.fails 1 = false)) ∨
  -- the balance is not read, and what is written in its place makes up for the loss
  ((tx.stub ledger).rejects 2 (record ledger).SoftwareUser.PubKey = false ∧
    tx.env.fails 1 = true ∧
    balance ledger (record ledger).SoftwareUser.PubKey =
      if tx.env.fails 3 = true then -(record ledger).DepositAmount
      else -(2 * (record ledger).DepositAmount))

/-- A charge and what is still held do not make up for the deposit. -/
theorem wrapInt_sub_add_iff {b d held : ℤ} (hb : minInt ≤ b ∧ b ≤ maxInt)
    (hd : 0 ≤ d ∧ d ≤ maxInt) (hheld : held = 0 ∨ held = d) :
    wrapInt (b - d) + held = b + d ↔ d = 0 := by
  obtain ⟨hlow, hhigh⟩ := hb
  obtain ⟨hnonneg, hmax⟩ := hd
  by_cases hmin : minInt ≤ b - d
  · rw [wrapInt_eq hmin (by omega)]
    rcases hheld with rfl | rfl
    · omega
    · omega
  · have hwrap : wrapInt (b - d) = b - d + 2 ^ 64 := by
      apply wrapInt_of_lt
      · unfold minInt at hlow
        unfold maxInt at hmax
        omega
      · omega
    rw [hwrap]
    unfold maxInt at hmax
    rcases hheld with rfl | rfl
    · omega
    · omega

/-- A penalty does not touch the owner. -/
theorem balance_owner_penalty {ledger : Ledger} (hexclusive : Exclusive ledger) {s : String}
    (hrecord : record ledger ≠ zeroAPDL) (hne : s ≠ (record ledger).SoftwareUser.PubKey) (tx : Tx) :
    balance (commit ledger (penaltyWrites (tx.stub ledger))) s = balance ledger s := by
  by_cases hs : s ≠ ContractKey ∨ tx.env.fails 3 = true
  · rw [balance_penalty hs, if_neg fun h => hne h.1]
  · rw [not_or, not_not, Bool.not_eq_true] at hs
    obtain ⟨rfl, hwritten⟩ := hs
    rw [hexclusive.resolve_right hrecord, penaltyWrites, commit_append]
    exact balance_put_record hwritten _ _

theorem held_of_open {ledger : Ledger} (h : (record ledger).Status = "download_requested") :
    held ledger = (record ledger).DepositAmount := if_pos h

theorem record_ne_zero_of_open {ledger : Ledger}
    (h : (record ledger).Status = "download_requested") : record ledger ≠ zeroAPDL := by
  intro hnone
  rw [hnone] at h
  exact absurd h (by decide)

/-- A penalty that is written, or lost to a balance, leaves nothing held. -/
theorem held_penalty (ledger : Ledger) (tx : Tx) :
    held (commit ledger (penaltyWrites (tx.stub ledger))) =
      if tx.env.fails 3 = false ∨
          ((record ledger).SoftwareUser.PubKey = ContractKey ∧ tx.env.fails 2 = false) then 0
      else held ledger := by
  have hrecord := record_penalty_eq ledger tx
  by_cases hwritten : tx.env.fails 3 = false
  · rw [if_pos (Or.inl hwritten), held, hrecord, if_pos hwritten]
    exact if_neg (by simp)
  · by_cases hlost : (record ledger).SoftwareUser.PubKey = ContractKey ∧ tx.env.fails 2 = false
    · rw [if_pos (Or.inr hlost), held, hrecord, if_neg hwritten, if_pos hlost]
      exact if_neg (by decide)
    · rw [if_neg (not_or.mpr ⟨hwritten, hlost⟩), held, hrecord, if_neg hwritten, if_neg hlost]
      rfl

/-- The user is charged where the balance is written and the contract is not
written over it. -/
theorem balance_user_penalty {ledger : Ledger} (hexclusive : Exclusive ledger) (tx : Tx) :
    balance (commit ledger (penaltyWrites (tx.stub ledger))) (record ledger).SoftwareUser.PubKey =
      if (tx.stub ledger).rejects 2 (record ledger).SoftwareUser.PubKey = true ∨
          ((record ledger).SoftwareUser.PubKey = ContractKey ∧ tx.env.fails 3 = false) then
        balance ledger (record ledger).SoftwareUser.PubKey
      else charged (tx.stub ledger) := by
  by_cases hplace : (record ledger).SoftwareUser.PubKey = ContractKey ∧ tx.env.fails 3 = false
  · -- the record has stood in the place of the balance before
    obtain ⟨hkey, hwritten⟩ := hplace
    have hrecord : record ledger ≠ zeroAPDL := by
      intro hnone
      rw [hnone] at hkey
      exact absurd hkey (by decide)
    rw [if_pos (Or.inr ⟨hkey, hwritten⟩), hkey, hexclusive.resolve_right hrecord, penaltyWrites,
      commit_append, balance_put_record hwritten]
  · have hkeeps : (record ledger).SoftwareUser.PubKey ≠ ContractKey ∨ tx.env.fails 3 = true := by
      rw [not_and_or, Bool.not_eq_false] at hplace
      exact hplace
    rw [balance_penalty hkeeps]
    cases hput : (tx.stub ledger).rejects 2 (record ledger).SoftwareUser.PubKey with
    | true => rw [if_neg (by simp), if_pos (Or.inl rfl)]
    | false => rw [if_pos ⟨rfl, rfl⟩, if_neg (not_or.mpr ⟨Bool.false_ne_true, hplace⟩)]

/-- What the user of an open contract has after a penalty, together with what
the contract still holds. The last case is that of a user whose key is the
place of the contract. -/
theorem penalty_sum {ledger : Ledger} (hexclusive : Exclusive ledger)
    (hopen : (record ledger).Status = "download_requested") (tx : Tx) {user : String}
    (huser : (record ledger).SoftwareUser.PubKey = user) :
    ((tx.stub ledger).rejects 2 user = true ∧
      balance (commit ledger (penaltyWrites (tx.stub ledger))) user +
        held (commit ledger (penaltyWrites (tx.stub ledger))) =
          balance ledger user +
            if tx.env.fails 3 = true then (record ledger).DepositAmount else 0) ∨
    ((tx.stub ledger).rejects 2 user = false ∧
      balance (commit ledger (penaltyWrites (tx.stub ledger))) user +
        held (commit ledger (penaltyWrites (tx.stub ledger))) =
          charged (tx.stub ledger) +
            if tx.env.fails 3 = true then (record ledger).DepositAmount else 0) ∨
    ((tx.stub ledger).rejects 2 user = false ∧ balance ledger user = 0 ∧
      balance (commit ledger (penaltyWrites (tx.stub ledger))) user +
        held (commit ledger (penaltyWrites (tx.stub ledger))) =
          if tx.env.fails 3 = true then charged (tx.stub ledger) else 0) := by
  subst huser
  rw [balance_user_penalty hexclusive, held_penalty, held_of_open hopen]
  by_cases hkey : (record ledger).SoftwareUser.PubKey = ContractKey
  · have hzero : balance ledger (record ledger).SoftwareUser.PubKey = 0 := by
      rw [hkey]
      exact hexclusive.resolve_right (record_ne_zero_of_open hopen)
    have hrejects : (tx.stub ledger).rejects 2 (record ledger).SoftwareUser.PubKey =
        tx.env.fails 2 := by
      rw [hkey]
      exact rejects_ContractKey _ 2
    rw [hrejects, hzero]
    cases hput : tx.env.fails 2 with
    | true =>
        left
        cases hwritten : tx.env.fails 3 with
        | true => simp
        | false => simp
    | false =>
        right
        right
        cases hwritten : tx.env.fails 3 with
        | true => simp [hkey]
        | false => simp [hkey]
  · have hheld : (if tx.env.fails 3 = false ∨
          ((record ledger).SoftwareUser.PubKey = ContractKey ∧ tx.env.fails 2 = false) then 0
        else (record ledger).DepositAmount) =
          if tx.env.fails 3 = true then (record ledger).DepositAmount else 0 := by
      cases hwritten : tx.env.fails 3 with
      | false => rfl
      | true => simp [hkey]
    rw [hheld]
    cases hput : (tx.stub ledger).rejects 2 (record ledger).SoftwareUser.PubKey with
    | true => simp
    | false => simp [hkey]

/-- **When a penalty conserves the sum.** -/
theorem penalty_conserves_iff {ledger : Ledger} (hsound : Sound ledger)
    (hexclusive : Exclusive ledger) (hopen : (record ledger).Status = "download_requested")
    (tx : Tx) {user : String} (huser : (record ledger).SoftwareUser.PubKey = user) :
    balance (commit ledger (penaltyWrites (tx.stub ledger))) user +
        held (commit ledger (penaltyWrites (tx.stub ledger))) =
      balance ledger user + (record ledger).DepositAmount ↔ Conserves ledger tx := by
  have hbounds := balance_bounds ledger user
  have hdeposit := deposit_bounds hsound
  have hsum := penalty_sum hexclusive hopen tx huser
  unfold Conserves
  rw [huser]
  rcases hsum with ⟨hput, hsum⟩ | ⟨hput, hsum⟩ | ⟨hput, hzero, hsum⟩
  · rw [hsum, hput]
    cases tx.env.fails 3 with
    | false => simp
    | true => simp
  · have hheld : (if tx.env.fails 3 = true then (record ledger).DepositAmount else 0) = 0 ∨
        (if tx.env.fails 3 = true then (record ledger).DepositAmount else 0) =
          (record ledger).DepositAmount := by
      split
      · exact Or.inr rfl
      · exact Or.inl rfl
    rw [hsum, hput]
    cases hread : tx.env.fails 1 with
    | false =>
        rw [charged_of_read ledger hread, huser, wrapInt_sub_add_iff hbounds hdeposit hheld]
        simp
    | true =>
        rw [charged_unread hsound hread]
        cases tx.env.fails 3 with
        | false =>
            simp
            omega
        | true =>
            simp
            omega
  · -- what is read in the place of the contract is no balance
    have hcharged := charged_of_no_balance hsound (by rw [huser, hzero]) tx
    rw [hsum, hput, hzero, hcharged]
    cases tx.env.fails 3 with
    | false =>
        cases tx.env.fails 1 with
        | false =>
            simp
            omega
        | true =>
            simp
            omega
    | true =>
        cases tx.env.fails 1 with
        | false =>
            simp
            omega
        | true =>
            simp
            omega

/-- **When settling a contract conserves money.** On every reachable ledger with
an open contract between two keys, a successful penalty leaves the balances and
the deposit held with the same sum exactly if `Conserves` says so. No refund
succeeds. -/
theorem settling_conserves_iff {ledger : Ledger} (hreach : (chaincode C).Reachable ledger)
    {s r : String} (hpending : Pending ledger s r) (hne : s ≠ r) {tx : Tx}
    (h : Succeeds C "penalty" ledger tx ∨ Succeeds C "refund" ledger tx) :
    funds s r ((chaincode C).next ledger tx) = funds s r ledger ↔ Conserves ledger tx := by
  have hsound := sound_of_reachable hreach
  have hexclusive := exclusive_of_reachable hreach
  rcases h with hpenalty | hrefund
  · obtain ⟨message, hubSig, userSig, hpenalizes⟩ := penalizes_of_succeeds hpenalty
    have hrecord : record ledger ≠ zeroAPDL := record_ne_zero_of_open hpending.status
    have howner : s ≠ (record ledger).SoftwareUser.PubKey := by
      rw [hpending.user]
      exact hne
    rw [next_of_penalizes hpenalty.call hpenalizes, funds, funds,
      balance_owner_penalty hexclusive hrecord howner, held_of_open hpending.status, add_assoc,
      add_assoc, add_right_inj]
    exact penalty_conserves_iff hsound hexclusive hpending.status tx hpending.user
  · obtain ⟨params, hargs⟩ := hrefund.args
    exact absurd hrefund.success (refund_fails hsound hrefund.call hargs)

/-- A contract without a deposit. -/
def openedFree : Ledger := (chaincode byteCrypto).next initialized (request "A" "B" "0")

theorem record_openedFree : record openedFree = requested "A" "B" "10.0.0.2" "8080" expiry 0 := by
  have hrequests := requests_request initialized "A" "B" (by decide : Atoi "0" = (0, false))
    (le_refl 0)
  rw [openedFree, next_of_requests rfl hrequests]
  exact record_request hrequests

theorem reachable_openedFree : (chaincode byteCrypto).Reachable openedFree :=
  ⟨[initTx, request "A" "B" "0"], rfl⟩

theorem pending_openedFree : Pending openedFree "A" "B" where
  status := by rw [record_openedFree]; rfl
  owner := by rw [record_openedFree]; rfl
  user := by rw [record_openedFree]; rfl

theorem settling_conserves_free :
    funds "A" "B" ((chaincode byteCrypto).next openedFree penaltyOfB) =
      funds "A" "B" openedFree ↔ Conserves openedFree penaltyOfB :=
  settling_conserves_iff reachable_openedFree pending_openedFree (by decide)
    (Or.inl (succeeds_of_penalizes rfl (penalizes_requested record_openedFree 65 109)))

/-- **A deposit that is lost**: 100 are held and B has 74900; after the penalty
nothing is held and B has 74800. -/
theorem deposit_charged_twice :
    (chaincode byteCrypto).Reachable opened ∧ Pending opened "A" "B" ∧
      Succeeds byteCrypto "penalty" opened penaltyOfB ∧
      balance ((chaincode byteCrypto).next opened penaltyOfB) "A" = balance opened "A" ∧
      balance ((chaincode byteCrypto).next opened penaltyOfB) "B" = balance opened "B" - 100 ∧
      held opened = 100 ∧ held ((chaincode byteCrypto).next opened penaltyOfB) = 0 ∧
      funds "A" "B" ((chaincode byteCrypto).next opened penaltyOfB) ≠
        funds "A" "B" opened := by
  have hexclusive := exclusive_of_reachable reachable_opened
  have hrecord : record opened ≠ zeroAPDL := record_ne_zero_of_open pending_opened.status
  have huser : (record opened).SoftwareUser.PubKey = "B" := pending_opened.user
  have hnext : (chaincode byteCrypto).next opened penaltyOfB =
      commit opened (penaltyWrites (penaltyOfB.stub opened)) :=
    next_of_penalizes rfl (penalizes_opened 65 109)
  have howner : balance ((chaincode byteCrypto).next opened penaltyOfB) "A" =
      balance opened "A" := by
    rw [hnext]
    exact balance_owner_penalty hexclusive hrecord (by rw [huser]; decide) penaltyOfB
  have hcharged : balance ((chaincode byteCrypto).next opened penaltyOfB) "B" =
      balance opened "B" - 100 := by
    rw [balance_opened]
    exact balance_penalizedOnce
  have hheld : held opened = 100 := by
    rw [held_of_open pending_opened.status, record_opened]
    rfl
  have hsettled : held ((chaincode byteCrypto).next opened penaltyOfB) = 0 := by
    rw [hnext, held_penalty]
    exact if_pos (Or.inl rfl)
  refine ⟨reachable_opened, pending_opened, succeeds_of_penalizes rfl (penalizes_opened 65 109),
    howner, hcharged, hheld, hsettled, ?_⟩
  rw [funds, funds, howner, hcharged, hheld, hsettled]
  omega

/-! ## Balances below 0 -/

/-- The balances of the parties of the current contract are not negative. -/
structure Solvent (ledger : Ledger) : Prop where
  owner : 0 ≤ balance ledger (record ledger).SoftwareOwner.PubKey
  user : 0 ≤ balance ledger (record ledger).SoftwareUser.PubKey

/-- The transaction takes no more than there is. -/
structure Affords (C : GoCrypto) (ledger : Ledger) (tx : Tx) : Prop where
  /-- A request that writes a balance asks for a deposit that a party can pay. -/
  request : tx.call = .Invoke → ∀ s r ip port dt amount,
    Requests (tx.stub ledger) s r ip port dt amount →
      (s ≠ ContractKey ∧ (tx.stub ledger).rejects 0 s = false) ∨
        (r ≠ ContractKey ∧ (tx.stub ledger).rejects 1 r = false) →
      amount ≤ StartAmount
  /-- A penalty that writes a balance has read one that covers the deposit. -/
  penalty : tx.call = .Invoke → ∀ message hubSig userSig,
    Penalizes C (tx.stub ledger) message hubSig userSig →
      (record ledger).SoftwareUser.PubKey ≠ ContractKey →
      (tx.stub ledger).rejects 2 (record ledger).SoftwareUser.PubKey = false →
      (record ledger).DepositAmount ≤
        (Atoi ((tx.stub ledger).get 1 (record ledger).SoftwareUser.PubKey).1).1

/-- No balance is negative. -/
def Covered (ledger : Ledger) : Prop := ∀ key, key ≠ ContractKey → 0 ≤ balance ledger key

theorem solvent_of_covered {ledger : Ledger} (hexclusive : Exclusive ledger)
    (h : Covered ledger) : Solvent ledger := by
  have hparty : ∀ key, (record ledger = zeroAPDL → key = "") → 0 ≤ balance ledger key := by
    intro key hnone
    by_cases hkey : key = ContractKey
    · rcases hexclusive with hzero | hrecord
      · rw [hkey, hzero]
      · exact h key (by rw [hnone hrecord]; decide)
    · exact h key hkey
  constructor
  · apply hparty
    intro hrecord
    rw [hrecord]
    rfl
  · apply hparty
    intro hrecord
    rw [hrecord]
    rfl

theorem charged_nonneg_iff {ledger : Ledger} (hsound : Sound ledger) (h : Covered ledger) (tx : Tx)
    (hkey : (record ledger).SoftwareUser.PubKey ≠ ContractKey) :
    0 ≤ charged (tx.stub ledger) ↔ (record ledger).DepositAmount ≤
      (Atoi ((tx.stub ledger).get 1 (record ledger).SoftwareUser.PubKey).1).1 := by
  have hread : 0 ≤ (Atoi ((tx.stub ledger).get 1 (record ledger).SoftwareUser.PubKey).1).1 := by
    rcases (tx.stub ledger).get_cases 1 (record ledger).SoftwareUser.PubKey with
      ⟨-, hget⟩ | ⟨-, hget⟩
    · rw [hget]
      exact le_refl 0
    · rw [hget]
      exact h _ hkey
  have hcharged : charged (tx.stub ledger) =
      (Atoi ((tx.stub ledger).get 1 (record ledger).SoftwareUser.PubKey).1).1 -
        (record ledger).DepositAmount :=
    wrapInt_sub_of_nonneg ⟨hread, Atoi_le_maxInt _⟩ (deposit_bounds hsound)
  rw [hcharged]
  omega

theorem covered_next {ledger : Ledger} (hsound : Sound ledger) (h : Covered ledger) {tx : Tx}
    (haffords : Affords C ledger tx) : Covered ((chaincode C).next ledger tx) := by
  intro key hkey
  have hhappens := happens C ledger tx
  generalize (chaincode C).next ledger tx = ledger' at hhappens ⊢
  cases hhappens with
  | initialized hcall hwritten =>
      rw [balance_init hkey]
      exact h key hkey
  | @requested hcall s r ip port dt amount hrequests =>
      rw [balance_request hkey hrequests]
      split
      · rename_i hnamed
        have hamount : amount ≤ StartAmount := by
          apply haffords.request hcall _ _ _ _ _ _ hrequests
          rcases hnamed with ⟨rfl, hput⟩ | ⟨rfl, hput⟩
          · exact Or.inl ⟨hkey, hput⟩
          · exact Or.inr ⟨hkey, hput⟩
        omega
      · exact h key hkey
  | penalized hcall hpenalizes =>
      rw [balance_penalty (Or.inl hkey)]
      split
      · rename_i hcharges
        have huser : (record ledger).SoftwareUser.PubKey ≠ ContractKey := by
          rw [← hcharges.1]
          exact hkey
        rw [charged_nonneg_iff hsound h tx huser]
        exact haffords.penalty hcall _ _ _ hpenalizes huser hcharges.2
      · exact h key hkey
  | refunded hcall hrefunds => exact absurd hrefunds (hsound.not_refunds rfl)
  | unchanged => exact h key hkey

theorem covered_run {ledger : Ledger} (hreach : (chaincode C).Reachable ledger)
    (h : Covered ledger) {txs : List Tx}
    (haffords : Runs.Along (chaincode C).next (Affords C) ledger txs) :
    Covered (Runs.run (chaincode C).next ledger txs) := by
  refine Runs.related_of_along (R := fun l l' => Covered l → Covered l')
    (fun _ => id) (fun hfirst hsecond hcovered => hsecond (hfirst hcovered)) ?_ hreach haffords h
  intro l tx hl hafford hcovered
  exact covered_next (sound_of_reachable hl) hcovered hafford

/-- What a request asks for is what its parties have then. -/
theorem affords_of_solvent {ledger : Ledger} (hsound : Sound ledger) (h : Covered ledger) {tx : Tx}
    (hsolvent : Solvent ((chaincode C).next ledger tx)) : Affords C ledger tx := by
  constructor
  · intro hcall s r ip port dt amount hrequests hnamed
    have howner := hsolvent.owner
    have huser := hsolvent.user
    rw [next_of_requests hcall hrequests, record_request hrequests] at howner huser
    change 0 ≤ balance _ s at howner
    change 0 ≤ balance _ r at huser
    rcases hnamed with ⟨hs, hput⟩ | ⟨hr, hput⟩
    · rw [balance_request hs hrequests, if_pos (Or.inl ⟨rfl, hput⟩)] at howner
      omega
    · rw [balance_request hr hrequests, if_pos (Or.inr ⟨rfl, hput⟩)] at huser
      omega
  · intro hcall message hubSig userSig hpenalizes hkey hput
    have huser := hsolvent.user
    have hsame : (record (commit ledger (penaltyWrites (tx.stub ledger)))).SoftwareUser =
        (record ledger).SoftwareUser := by
      rw [record_penalty_eq]
      split
      · rfl
      · rw [if_neg fun hlost => hkey hlost.1]
    rw [next_of_penalizes hcall hpenalizes, hsame, balance_penalty (Or.inl hkey),
      if_pos ⟨rfl, hput⟩] at huser
    exact (charged_nonneg_iff hsound h tx hkey).mp huser

/-- **When balances stay at or above 0.** In a run whose transactions all
afford what they take, the parties of the contract have no negative balance in
any ledger. And where no balance is negative, a transaction leaves the parties
so exactly if it affords what it takes. -/
theorem balances_nonneg_iff (C : GoCrypto) :
    (∀ txs : List Tx, Runs.Along (chaincode C).next (Affords C) emptyLedger txs →
      Solvent ((chaincode C).run txs)) ∧
    ∀ (ledger : Ledger) (tx : Tx), (chaincode C).Reachable ledger → Covered ledger →
      (Solvent ((chaincode C).next ledger tx) ↔ Affords C ledger tx) := by
  constructor
  · intro txs haffords
    have hempty : Covered emptyLedger := fun _ _ => le_refl 0
    exact solvent_of_covered (exclusive_of_reachable ⟨txs, rfl⟩)
      (covered_run (Runs.Reachable.init emptyLedger) hempty haffords)
  · intro ledger tx hreach hcovered
    have hsound := sound_of_reachable hreach
    constructor
    · exact affords_of_solvent hsound hcovered
    · intro haffords
      exact solvent_of_covered (exclusive_of_reachable (hreach.step tx))
        (covered_next hsound hcovered haffords)

theorem affords_initTx (ledger : Ledger) : Affords byteCrypto ledger initTx where
  request := fun hcall => nomatch hcall
  penalty := fun hcall => nomatch hcall

theorem affords_request (ledger : Ledger) (u v depositAmount : String) {amount : ℤ}
    (hamount : Atoi depositAmount = (amount, false)) (hle : amount ≤ StartAmount) :
    Affords byteCrypto ledger (request u v depositAmount) where
  request := by
    rintro - s r ip port dt amount' hrequests -
    obtain ⟨-, -, -, -, hamount', -⟩ := hrequests.terms rfl
    obtain ⟨rfl, -⟩ := Prod.mk.inj (hamount.symm.trans hamount')
    exact hle
  penalty := by
    rintro - message hubSig userSig hpenalizes
    exact absurd hpenalizes (not_penalizes_of_request rfl)

theorem affords_penaltyOfB : Affords byteCrypto opened penaltyOfB where
  request := by
    rintro - s r ip port dt amount hrequests
    exact absurd hrequests (not_requests_of_penalty rfl)
  penalty := by
    rintro - message hubSig userSig - - -
    have hdeposit : (record opened).DepositAmount = 100 := by
      rw [record_opened]
      rfl
    have hread : (Atoi ((penaltyOfB.stub opened).get 1 "B").1).1 = balance opened "B" := rfl
    rw [hdeposit, pending_opened.user, hread, balance_opened]
    decide

theorem balances_nonneg_penaltyRun :
    Solvent ((chaincode byteCrypto).run [initTx, request "A" "B" "100", penaltyOfB]) :=
  (balances_nonneg_iff byteCrypto).1 [initTx, request "A" "B" "100", penaltyOfB]
    ⟨affords_initTx emptyLedger,
      affords_request initialized "A" "B" "100" (by decide : Atoi "100" = (100, false))
        (by decide),
      affords_penaltyOfB, trivial⟩

/-- **A deposit that nobody can pay** is accepted: A and B have 75000, and
after a request with a deposit of 100000 both have -25000. -/
theorem balances_overdrawn :
    ((chaincode byteCrypto).answer initialized (request "A" "B" "100000")).1.isSuccess = true ∧
      balance ((chaincode byteCrypto).run [initTx, request "A" "B" "100000"]) "A" = -25000 ∧
      balance ((chaincode byteCrypto).run [initTx, request "A" "B" "100000"]) "B" = -25000 ∧
      ¬ Solvent ((chaincode byteCrypto).run [initTx, request "A" "B" "100000"]) := by
  have hrequests := requests_request initialized "A" "B"
    (by decide : Atoi "100000" = (100000, false)) (by decide)
  have hrun : (chaincode byteCrypto).run [initTx, request "A" "B" "100000"] =
      commit initialized (requestWrites ((request "A" "B" "100000").stub initialized) "A" "B"
        "10.0.0.2" "8080" expiry 100000) :=
    next_of_requests (C := byteCrypto) rfl hrequests
  have hA : balance ((chaincode byteCrypto).run [initTx, request "A" "B" "100000"]) "A" =
      -25000 := by
    rw [hrun, balance_request (by decide) hrequests, if_pos (Or.inl ⟨rfl, rfl⟩)]
    rfl
  have hB : balance ((chaincode byteCrypto).run [initTx, request "A" "B" "100000"]) "B" =
      -25000 := by
    rw [hrun, balance_request (by decide) hrequests, if_pos (Or.inr ⟨rfl, rfl⟩)]
    rfl
  refine ⟨?_, hA, hB, ?_⟩
  · exact (succeeds_of_requests rfl hrequests).success
  · rintro ⟨howner, -⟩
    have hrecord : record ((chaincode byteCrypto).run [initTx, request "A" "B" "100000"]) =
        requested "A" "B" "10.0.0.2" "8080" expiry 100000 := by
      rw [hrun]
      exact record_request hrequests
    rw [hrecord] at howner
    change 0 ≤ balance _ "A" at howner
    rw [hA] at howner
    exact absurd howner (by decide)

end Pepal.Chain.Apdlcc

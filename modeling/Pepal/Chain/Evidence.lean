import Pepal.Chain.Transactions

/-!
# How often a penalty can be taken

The guard of `penalty` names the statuses that it refuses. What carries it is
that only a download request leads away from them: a ledger that is `Closed`
stays so until a request succeeds, and on a closed ledger no penalty does. So
there is one penalty for each request.

It is not one penalty for each piece of evidence. The signatures are of a
message that says nothing of the contract, and they are good for the next
contract of the same keys.
-/

namespace Pepal.Chain

/-- What is relied on of the packages here: no bytes are no public key. -/
structure GoCrypto.RefusesEmpty (C : GoCrypto) : Prop where
  decode_empty : (C.DecodeString "").1 = []
  parse_empty : C.ParsePKIXPublicKey [] = none

theorem byteCrypto_refusesEmpty : byteCrypto.RefusesEmpty := ⟨rfl, rfl⟩

namespace Apdlcc

variable {C : GoCrypto}

/-- The transaction calls the function and succeeds. -/
structure Succeeds (C : GoCrypto) (fn : String) (ledger : Ledger) (tx : Tx) : Prop where
  call : tx.call = .Invoke
  args : ∃ params, tx.args = fn :: params
  success : ((chaincode C).answer ledger tx).1.isSuccess = true

theorem penalizes_of_succeeds {ledger : Ledger} {tx : Tx} (h : Succeeds C "penalty" ledger tx) :
    ∃ message hubSig userSig, Penalizes C (tx.stub ledger) message hubSig userSig := by
  obtain ⟨params, hargs⟩ := h.args
  have hsuccess := h.success
  rw [answer_Invoke C ledger h.call] at hsuccess
  exact (penalty_success_iff hargs).mp hsuccess

theorem succeeds_of_requests {ledger : Ledger} {tx : Tx} (hcall : tx.call = .Invoke)
    {s r ip port : String} {dt : Time} {amount : ℤ}
    (h : Requests (tx.stub ledger) s r ip port dt amount) :
    Succeeds C "download_request" ledger tx where
  call := hcall
  args := by
    obtain ⟨depositAmount, depositTime, hargs, -, -⟩ := h.args
    exact ⟨_, hargs⟩
  success := by
    rw [answer_Invoke C ledger hcall, execute_of_requests h]
    rfl

/-! ## One penalty for each request -/

/-- The contract is not yet open, is penalized, or is none. -/
def Closed (ledger : Ledger) : Prop :=
  (record ledger).Status = "init" ∨ (record ledger).Status = "penalized" ∨
    record ledger = zeroAPDL

/-- The empty text is no key, so nobody signs for no contract. -/
theorem not_verified_zero (hC : C.RefusesEmpty) (message : Bytes) (hubSig userSig : String) :
    ¬ verifySig C message [zeroAPDL.SoftwareOwner.PubKey, zeroAPDL.SoftwareUser.PubKey]
      [hubSig, userSig] = true := by
  intro hverified
  obtain ⟨-, huser⟩ := (verifyAll_pair C message "" "" hubSig userSig).mp hverified
  unfold verifyEntry at huser
  dsimp only at huser
  rw [hC.decode_empty, hC.parse_empty] at huser
  cases huser

theorem Closed.not_penalizes (hC : C.RefusesEmpty) {ledger : Ledger} (h : Closed ledger) {tx : Tx}
    {message hubSig userSig : String} :
    ¬ Penalizes C (tx.stub ledger) message hubSig userSig := by
  intro hpenalizes
  rcases h with hinit | hpenalized | hnone
  · exact hpenalizes.notInit hinit
  · exact hpenalizes.notPenalized hpenalized
  · have hverified := hpenalizes.verified
    change verifySig C (bytes message) (signers ledger) _ = true at hverified
    rw [signers, hnone] at hverified
    exact not_verified_zero hC _ _ _ hverified

/-- **Only a request opens a closed ledger.** -/
theorem request_of_opened (hC : C.RefusesEmpty) {ledger : Ledger} (h : Closed ledger) {tx : Tx}
    (hopened : ¬ Closed ((chaincode C).next ledger tx)) :
    ∃ s r ip port dt amount, tx.call = .Invoke ∧
      Requests (tx.stub ledger) s r ip port dt amount := by
  have hhappens := happens C ledger tx
  generalize (chaincode C).next ledger tx = ledger' at hhappens hopened
  cases hhappens with
  | initialized hcall hwritten =>
      exfalso
      apply hopened
      rcases record_init ledger hwritten with hrecord | hrecord
      · left
        rw [hrecord]
        rfl
      · exact Or.inr (Or.inr hrecord)
  | requested hcall hrequests => exact ⟨_, _, _, _, _, _, hcall, hrequests⟩
  | penalized hcall hpenalizes => exact absurd hpenalizes (Closed.not_penalizes hC h)
  | refunded hcall hrefunds =>
      have hstatus : (record ledger).Status = "download_request" := hrefunds.status
      exfalso
      rcases h with hinit | hpenalized | hnone
      · rw [hinit] at hstatus
        exact absurd hstatus (by decide)
      · rw [hpenalized] at hstatus
        exact absurd hstatus (by decide)
      · rw [hnone] at hstatus
        exact absurd hstatus (by decide)
  | unchanged => exact absurd h hopened

/-- A penalty whose contract is written closes the ledger. -/
theorem closed_of_penalizes {ledger : Ledger} {tx : Tx} (hcall : tx.call = .Invoke)
    {message hubSig userSig : String} (h : Penalizes C (tx.stub ledger) message hubSig userSig)
    (hwritten : tx.env.fails 3 = false) : Closed ((chaincode C).next ledger tx) := by
  right
  left
  rw [next_of_penalizes hcall h, record_penalty_eq, if_pos hwritten]

theorem run_append (C : GoCrypto) (before after : List Tx) :
    (chaincode C).run (before ++ after) =
      Runs.run (chaincode C).next ((chaincode C).run before) after :=
  Runs.run_append _ _ _ _

/-- **One penalty for each request.** In every run, between two successful
penalties there is a successful download request, provided that the ledger has
accepted the contract that the first of them wrote. -/
theorem penalty_once (hC : C.RefusesEmpty) {before between : List Tx} {tx tx' : Tx}
    (hfirst : Succeeds C "penalty" ((chaincode C).run before) tx)
    (haccepted : tx.env.fails 3 = false)
    (hsecond : Succeeds C "penalty" ((chaincode C).run (before ++ tx :: between)) tx') :
    ∃ pre request post, between = pre ++ request :: post ∧
      Succeeds C "download_request" ((chaincode C).run (before ++ tx :: pre)) request := by
  obtain ⟨_, _, _, hpenalizes⟩ := penalizes_of_succeeds hfirst
  obtain ⟨_, _, _, hpenalizes'⟩ := penalizes_of_succeeds hsecond
  have hclosed := closed_of_penalizes hfirst.call hpenalizes haccepted
  have hlost : ¬ Closed (Runs.run (chaincode C).next
      ((chaincode C).next ((chaincode C).run before) tx) between) := by
    intro h
    rw [run_append] at hpenalizes'
    exact Closed.not_penalizes hC h hpenalizes'
  obtain ⟨pre, request, post, hbetween, hpre, hopened⟩ := Runs.exists_lost hclosed hlost
  obtain ⟨s, r, ip, port, dt, amount, hcall, hrequests⟩ := request_of_opened hC hpre hopened
  refine ⟨pre, request, post, hbetween, ?_⟩
  rw [run_append]
  exact succeeds_of_requests hcall hrequests

theorem succeeds_of_penalizes {ledger : Ledger} {tx : Tx} (hcall : tx.call = .Invoke)
    {message hubSig userSig : String}
    (h : Penalizes C (tx.stub ledger) message hubSig userSig) :
    Succeeds C "penalty" ledger tx where
  call := hcall
  args := by
    obtain ⟨first, hargs⟩ := h.args
    exact ⟨_, hargs⟩
  success := by
    rw [answer_Invoke C ledger hcall, execute_of_penalizes h]
    rfl

/-- A penalty that takes two numbers for the signature of A. -/
def penaltyOfB : Tx := penaltyCall (signature 65 109) (signature 66 109)

/-- The ledger after a request, a penalty and the same request again. -/
def reopened : Ledger :=
  (chaincode byteCrypto).run [initTx, request "A" "B" "100", penaltyOfB, request "A" "B" "100"]

theorem record_reopened : record reopened = requested "A" "B" "10.0.0.2" "8080" expiry 100 := by
  have hrequests := requests_request ((chaincode byteCrypto).next opened penaltyOfB) "A" "B"
    (by decide : Atoi "100" = (100, false)) (by decide)
  show record ((chaincode byteCrypto).next ((chaincode byteCrypto).next opened penaltyOfB)
    (request "A" "B" "100")) = _
  rw [next_of_requests rfl hrequests]
  exact record_request hrequests

theorem penalty_once_reopened :
    ∃ pre tx post, [request "A" "B" "100"] = pre ++ tx :: post ∧
      Succeeds byteCrypto "download_request"
        ((chaincode byteCrypto).run ([initTx, request "A" "B" "100"] ++ penaltyOfB :: pre)) tx :=
  penalty_once byteCrypto_refusesEmpty (succeeds_of_penalizes rfl (penalizes_opened 65 109)) rfl
    (succeeds_of_penalizes rfl (penalizes_requested record_reopened 65 109) :
      Succeeds byteCrypto "penalty" _ penaltyOfB)

/-! ## One penalty for each piece of evidence -/

section Evidence

variable (C) (message hubSig userSig : String)

/-- The transaction is a successful penalty for this evidence. -/
def Accepts (ledger : Ledger) (tx : Tx) : Prop :=
  tx.call = .Invoke ∧ Penalizes C (tx.stub ledger) message hubSig userSig

/-- The evidence is good for the contract on the ledger. -/
structure Usable (ledger : Ledger) : Prop where
  notInit : (record ledger).Status ≠ "init"
  notPenalized : (record ledger).Status ≠ "penalized"
  verified : verifySig C (bytes message) (signers ledger) [hubSig, userSig] = true

/-- The transaction does not make the evidence good again. -/
structure Guards (ledger : Ledger) (tx : Tx) : Prop where
  /-- A request is not for two keys that the evidence convicts. -/
  request : tx.call = .Invoke → ∀ s r ip port dt amount,
    Requests (tx.stub ledger) s r ip port dt amount →
      ¬ verifySig C (bytes message) [s, r] [hubSig, userSig] = true
  /-- A penalty for the evidence does not leave the contract as it is. -/
  penalty : Accepts C message hubSig userSig ledger tx →
    tx.env.fails 3 = false ∨
      ((record ledger).SoftwareUser.PubKey = ContractKey ∧ tx.env.fails 2 = false)

variable {C message hubSig userSig}

theorem usable_iff {ledger : Ledger} :
    Usable C message hubSig userSig ledger ↔
      ∃ tx, Accepts C message hubSig userSig ledger tx := by
  constructor
  · intro h
    exact ⟨invoke ["penalty", "penalty", message, hubSig, userSig], rfl,
      ⟨⟨"penalty", rfl⟩, rfl, h.notInit, h.notPenalized⟩, h.verified⟩
  · rintro ⟨tx, -, h⟩
    exact ⟨h.notInit, h.notPenalized, h.verified⟩

/-- Only the record matters. -/
theorem Usable.congr {ledger ledger' : Ledger} (hrecord : record ledger' = record ledger)
    (h : Usable C message hubSig userSig ledger) : Usable C message hubSig userSig ledger' := by
  obtain ⟨hinit, hpenalized, hverified⟩ := h
  unfold signers at hverified
  rw [← hrecord] at hinit hpenalized hverified
  exact ⟨hinit, hpenalized, hverified⟩

theorem Closed.not_usable (hC : C.RefusesEmpty) {ledger : Ledger} (h : Closed ledger) :
    ¬ Usable C message hubSig userSig ledger := by
  intro husable
  obtain ⟨tx, -, hpenalizes⟩ := usable_iff.mp husable
  exact Closed.not_penalizes hC h hpenalizes

theorem usable_requested {ledger : Ledger} {s r ip port : String} {dt : Time} {amount : ℤ}
    (h : record ledger = requested s r ip port dt amount) :
    Usable C message hubSig userSig ledger ↔
      verifySig C (bytes message) [s, r] [hubSig, userSig] = true := by
  have hstatus : (record ledger).Status = "download_requested" := by
    rw [h]
    rfl
  have hsigners : signers ledger = [s, r] := by
    rw [signers, h]
    rfl
  constructor
  · intro husable
    rw [← hsigners]
    exact husable.verified
  · intro hverified
    rw [← hsigners] at hverified
    refine ⟨?_, ?_, hverified⟩
    · rw [hstatus]
      decide
    · rw [hstatus]
      decide

/-- Evidence that a penalty has taken is good no more, or the penalty has left
the contract as it was. -/
theorem usable_penalized (hC : C.RefusesEmpty) {ledger : Ledger} {tx : Tx}
    (h : Usable C message hubSig userSig ledger) :
    Usable C message hubSig userSig (commit ledger (penaltyWrites (tx.stub ledger))) ↔
      ¬ (tx.env.fails 3 = false ∨
        ((record ledger).SoftwareUser.PubKey = ContractKey ∧ tx.env.fails 2 = false)) := by
  have hrecord := record_penalty_eq ledger tx
  by_cases hwritten : tx.env.fails 3 = false
  · rw [if_pos hwritten] at hrecord
    have hclosed : Closed (commit ledger (penaltyWrites (tx.stub ledger))) := by
      right
      left
      rw [hrecord]
    exact iff_of_false (Closed.not_usable hC hclosed) (not_not.mpr (Or.inl hwritten))
  · rw [if_neg hwritten] at hrecord
    by_cases huser : (record ledger).SoftwareUser.PubKey = ContractKey ∧ tx.env.fails 2 = false
    · rw [if_pos huser] at hrecord
      have hclosed : Closed (commit ledger (penaltyWrites (tx.stub ledger))) :=
        Or.inr (Or.inr hrecord)
      exact iff_of_false (Closed.not_usable hC hclosed) (not_not.mpr (Or.inr huser))
    · rw [if_neg huser] at hrecord
      exact iff_of_true (h.congr hrecord) (not_or.mpr ⟨hwritten, huser⟩)

/-- **When used evidence stays used.** -/
theorem not_usable_next_iff (hC : C.RefusesEmpty) {ledger : Ledger}
    (hreach : (chaincode C).Reachable ledger) {tx : Tx}
    (h : Accepts C message hubSig userSig ledger tx ∨ ¬ Usable C message hubSig userSig ledger) :
    ¬ Usable C message hubSig userSig ((chaincode C).next ledger tx) ↔
      Guards C message hubSig userSig ledger tx := by
  constructor
  · intro hnext
    constructor
    · intro hcall s r ip port dt amount hrequests hverified
      rw [next_of_requests hcall hrequests, usable_requested (record_request hrequests)] at hnext
      exact hnext hverified
    · rintro ⟨hcall, hpenalizes⟩
      rw [next_of_penalizes hcall hpenalizes,
        usable_penalized hC (usable_iff.mpr ⟨tx, hcall, hpenalizes⟩)] at hnext
      exact not_not.mp hnext
  · rintro ⟨hrequest, hpenalty⟩ hnext
    rcases h with haccepts | hunusable
    · rw [next_of_penalizes haccepts.1 haccepts.2,
        usable_penalized hC (usable_iff.mpr ⟨tx, haccepts⟩)] at hnext
      exact hnext (hpenalty haccepts)
    · -- what was not usable becomes so by a new record only
      have hhappens := happens C ledger tx
      generalize (chaincode C).next ledger tx = ledger' at hhappens hnext
      cases hhappens with
      | initialized hcall hwritten =>
          rcases record_init ledger hwritten with hrecord | hrecord
          · apply hnext.notInit
            rw [hrecord]
            rfl
          · exact Closed.not_usable hC (Or.inr (Or.inr hrecord)) hnext
      | requested hcall hrequests =>
          rw [usable_requested (record_request hrequests)] at hnext
          exact hrequest hcall _ _ _ _ _ _ hrequests hnext
      | penalized hcall hpenalizes =>
          rcases record_penalty ledger tx with hrecord | hrecord | hrecord
          · apply hnext.notPenalized
            rw [hrecord]
          · exact Closed.not_usable hC (Or.inr (Or.inr hrecord)) hnext
          · exact hunusable (hnext.congr hrecord.symm)
      | refunded hcall hrefunds =>
          exact absurd hrefunds ((sound_of_reachable hreach).not_refunds rfl)
      | unchanged => exact hunusable hnext

/-- Used evidence stays used along a run that guards it. -/
theorem not_usable_run (hC : C.RefusesEmpty) {ledger : Ledger}
    (hreach : (chaincode C).Reachable ledger) (h : ¬ Usable C message hubSig userSig ledger)
    {txs : List Tx}
    (hguards : Runs.Along (chaincode C).next (Guards C message hubSig userSig) ledger txs) :
    ¬ Usable C message hubSig userSig (Runs.run (chaincode C).next ledger txs) := by
  refine Runs.related_of_along
    (R := fun l l' => ¬ Usable C message hubSig userSig l → ¬ Usable C message hubSig userSig l')
    (fun _ => id) (fun hfirst hsecond hunusable => hsecond (hfirst hunusable)) ?_ hreach hguards h
  intro l tx hl hguard hunusable
  exact (not_usable_next_iff hC hl (Or.inr hunusable)).mpr hguard

end Evidence

/-- **When evidence is good for one penalty.** After its first success no
penalty for the same evidence succeeds in a run that guards it, and a
transaction that does not guard used evidence makes it good again. -/
theorem evidence_once_iff (hC : C.RefusesEmpty) (message hubSig userSig : String) :
    (∀ (before between : List Tx) (tx tx' : Tx),
      Accepts C message hubSig userSig ((chaincode C).run before) tx →
      Runs.Along (chaincode C).next (Guards C message hubSig userSig) ((chaincode C).run before)
        (tx :: between) →
      ¬ Accepts C message hubSig userSig ((chaincode C).run (before ++ tx :: between)) tx') ∧
    ∀ (ledger : Ledger) (tx : Tx), (chaincode C).Reachable ledger →
      (Accepts C message hubSig userSig ledger tx ∨
        ¬ ∃ tx', Accepts C message hubSig userSig ledger tx') →
      ((¬ ∃ tx', Accepts C message hubSig userSig ((chaincode C).next ledger tx) tx') ↔
        Guards C message hubSig userSig ledger tx) := by
  constructor
  · rintro before between tx tx' haccepts ⟨hguard, hguards⟩ haccepts'
    have hreach : (chaincode C).Reachable ((chaincode C).run before) := ⟨before, rfl⟩
    have hused := (not_usable_next_iff hC hreach (Or.inl haccepts)).mpr hguard
    apply not_usable_run hC (hreach.step tx) hused hguards
    rw [usable_iff]
    rw [run_append] at haccepts'
    exact ⟨tx', haccepts'⟩
  · intro ledger tx hreach h
    rw [← usable_iff] at h ⊢
    exact not_usable_next_iff hC hreach h

/-- D has not signed the evidence against B. -/
theorem not_verified_other :
    ¬ verifySig byteCrypto (bytes "m") ["C", "D"] [signature 65 109, signature 66 109] = true := by
  intro hverified
  obtain ⟨-, huser⟩ := (verifyAll_pair byteCrypto (bytes "m") "C" "D" _ _).mp hverified
  rw [signature, verifyEntry_bytes "D" 68 rfl] at huser
  revert huser
  decide

theorem guards_penaltyOfB :
    Guards byteCrypto "m" (signature 65 109) (signature 66 109) opened penaltyOfB where
  request := by
    rintro - s r ip port dt amount hrequests
    exact absurd hrequests (not_requests_of_penalty rfl)
  penalty := fun _ => Or.inl rfl

theorem guards_other (ledger : Ledger) :
    Guards byteCrypto "m" (signature 65 109) (signature 66 109) ledger
      (request "C" "D" "0") where
  request := by
    rintro - s r ip port dt amount hrequests
    obtain ⟨rfl, rfl, -⟩ := hrequests.terms rfl
    exact not_verified_other
  penalty := by
    rintro ⟨-, hpenalizes⟩
    exact absurd hpenalizes (not_penalizes_of_request rfl)

theorem evidence_once_other :
    ¬ Accepts byteCrypto "m" (signature 65 109) (signature 66 109)
      ((chaincode byteCrypto).run
        ([initTx, request "A" "B" "100"] ++ penaltyOfB :: [request "C" "D" "0"])) penaltyOfB :=
  (evidence_once_iff byteCrypto_refusesEmpty "m" (signature 65 109) (signature 66 109)).1
    [initTx, request "A" "B" "100"] [request "C" "D" "0"] penaltyOfB penaltyOfB
    ⟨rfl, penalizes_opened 65 109⟩ ⟨guards_penaltyOfB, guards_other _, trivial⟩

/-- **Evidence that should not be used again**: after a second request of A for
B the same call, with the same signatures, is one more penalty. -/
theorem evidence_replayed :
    Accepts byteCrypto "m" (signature 65 109) (signature 66 109)
        ((chaincode byteCrypto).run [initTx, request "A" "B" "100"]) penaltyOfB ∧
      Accepts byteCrypto "m" (signature 65 109) (signature 66 109)
        ((chaincode byteCrypto).run
          ([initTx, request "A" "B" "100"] ++ penaltyOfB :: [request "A" "B" "100"]))
        penaltyOfB :=
  ⟨⟨rfl, penalizes_opened 65 109⟩, rfl, penalizes_requested record_reopened 65 109⟩

end Apdlcc

end Pepal.Chain

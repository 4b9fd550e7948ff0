import Pepal.Chain.Transactions

/-!
# Two peers and two clocks

Every endorsing peer executes a proposal with its own clock, and a client can
only use answers that agree. `Invoke` reads the clock to accept or to reject:
where two peers accept, they answer and write the same. `Init` writes the
reading into the record, so two peers agree on it only by chance.
-/

namespace Pepal.Chain

def Stub.withClock (stub : Stub) (now : ℕ → Time) : Stub :=
  { stub with env := { stub.env with now := now } }

/-- What a peer whose clock reads `now` answers and writes. -/
def Chaincode.endorse (cc : Chaincode) (call : Call) (stub : Stub) (now : ℕ → Time) :
    Response × List (String × String) :=
  execute (cc.code call) (stub.withClock now)

namespace Apdlcc

variable {C : GoCrypto}

/-! ## Invoke -/

theorem withClock_requests {stub : Stub} {now now' : ℕ → Time} {params : List String}
    (hfn : stub.args = "download_request" :: params)
    (h : (execute (Invoke C) (stub.withClock now)).1.isSuccess = true)
    (h' : (execute (Invoke C) (stub.withClock now')).1.isSuccess = true) :
    execute (Invoke C) (stub.withClock now) = execute (Invoke C) (stub.withClock now') := by
  have hclock : ∀ clock, (stub.withClock clock).args = "download_request" :: params := fun _ => hfn
  obtain ⟨s, r, ip, port, dt, amount, hrequests⟩ := (request_success_iff (hclock now)).mp h
  obtain ⟨s', r', ip', port', dt', amount', hrequests'⟩ :=
    (request_success_iff (hclock now')).mp h'
  -- the terms of the contract are in the arguments
  have hargs : (stub.withClock now).args = (stub.withClock now').args := rfl
  obtain ⟨rfl, rfl, rfl, rfl, rfl, rfl⟩ := hrequests.unique hargs hrequests'
  rw [execute_of_requests hrequests, execute_of_requests hrequests']
  rfl

theorem withClock_penalizes {stub : Stub} {now now' : ℕ → Time} {params : List String}
    (hfn : stub.args = "penalty" :: params)
    (h : (execute (Invoke C) (stub.withClock now)).1.isSuccess = true)
    (h' : (execute (Invoke C) (stub.withClock now')).1.isSuccess = true) :
    execute (Invoke C) (stub.withClock now) = execute (Invoke C) (stub.withClock now') := by
  have hclock : ∀ clock, (stub.withClock clock).args = "penalty" :: params := fun _ => hfn
  obtain ⟨_, _, _, hpenalizes⟩ := (penalty_success_iff (hclock now)).mp h
  obtain ⟨_, _, _, hpenalizes'⟩ := (penalty_success_iff (hclock now')).mp h'
  rw [execute_of_penalizes hpenalizes, execute_of_penalizes hpenalizes']
  rfl

theorem withClock_refunds {stub : Stub} {now now' : ℕ → Time} {params : List String}
    (hfn : stub.args = "refund" :: params)
    (h : (execute (Invoke C) (stub.withClock now)).1.isSuccess = true)
    (h' : (execute (Invoke C) (stub.withClock now')).1.isSuccess = true) :
    execute (Invoke C) (stub.withClock now) = execute (Invoke C) (stub.withClock now') := by
  have hclock : ∀ clock, (stub.withClock clock).args = "refund" :: params := fun _ => hfn
  rw [execute_of_refunds ((refund_success_iff (hclock now)).mp h),
    execute_of_refunds ((refund_success_iff (hclock now')).mp h')]
  rfl

/-- **Where two peers accept a call of `Invoke` they agree.** -/
theorem Invoke_agrees {stub : Stub} {now now' : ℕ → Time}
    (h : (execute (Invoke C) (stub.withClock now)).1.isSuccess = true)
    (h' : (execute (Invoke C) (stub.withClock now')).1.isSuccess = true) :
    execute (Invoke C) (stub.withClock now) = execute (Invoke C) (stub.withClock now') := by
  cases hargs : stub.args with
  | nil =>
      have hnil : ∀ clock, (stub.withClock clock).args = [] := fun _ => hargs
      rw [execute_Invoke, execute_Invoke, hnil now, hnil now']
  | cons fn params =>
      by_cases hrequest : fn = "download_request"
      · rw [hrequest] at hargs
        exact withClock_requests hargs h h'
      · by_cases hpenalty : fn = "penalty"
        · rw [hpenalty] at hargs
          exact withClock_penalizes hargs h h'
        · by_cases hrefund : fn = "refund"
          · rw [hrefund] at hargs
            exact withClock_refunds hargs h h'
          · have hcons : ∀ clock, (stub.withClock clock).args = fn :: params := fun _ => hargs
            rw [execute_Invoke, execute_Invoke, hcons now, hcons now']
            dsimp only
            rw [if_neg hrequest, if_neg hpenalty, if_neg hrefund, if_neg hrequest, if_neg hpenalty,
              if_neg hrefund, execute_get_status, execute_get_status]
            rfl

/-! ## Init -/

theorem execute_Init_success {stub : Stub} (h : stub.env.fails 0 = false) :
    execute Init stub = (.Success "[+] Init completed\n", initWrites stub) := by
  rw [execute_Init, h]
  rfl

theorem Init_success_iff (stub : Stub) :
    (execute Init stub).1.isSuccess = true ↔ stub.env.fails 0 = false := by
  rw [execute_Init]
  cases stub.env.fails 0 with
  | false => exact iff_of_true rfl rfl
  | true => exact iff_of_false (by simp [Response.isSuccess]) (by simp)

/-- Two clock readings that have the same text, or none. -/
def SameText (t t' : Time) : Prop := t = t' ∨ (10 ^ 4 ≤ t.year ∧ 10 ^ 4 ≤ t'.year)

theorem marshal_initial_eq_iff {stub : Stub} (h : stub.env.marshalFails = false) (t t' : Time) :
    (stub.marshal true (initial t)).1 = (stub.marshal true (initial t')).1 ↔ SameText t t' := by
  have hread : ∀ {u : Time}, u.year < 10 ^ 4 →
      Unmarshal true (stub.marshal true (initial u)).1 = initial u :=
    fun hu => Stub.Unmarshal_marshal h true
      ⟨hu, (by decide : minInt ≤ 0), (by decide : (0 : ℤ) ≤ maxInt)⟩
  have hnone : ∀ {u : Time}, 10 ^ 4 ≤ u.year → (stub.marshal true (initial u)).1 = "" := by
    intro u hu
    have hmarshal : Marshal true (initial u) = none := if_neg (not_lt.mpr hu)
    rw [Stub.marshal_none stub hmarshal]
  have hne : ∀ u : Time, initial u ≠ Unmarshal true "" :=
    fun u heq => absurd (congrArg APDL.Status heq) (by decide : "init" ≠ "")
  constructor
  · intro heq
    have hsame := congrArg (Unmarshal true) heq
    rcases lt_or_ge t.year (10 ^ 4) with ht | ht
    · rw [hread ht] at hsame
      rcases lt_or_ge t'.year (10 ^ 4) with ht' | ht'
      · rw [hread ht'] at hsame
        exact Or.inl (congrArg APDL.ContractExpiry hsame)
      · rw [hnone ht'] at hsame
        exact absurd hsame (hne t)
    · rcases lt_or_ge t'.year (10 ^ 4) with ht' | ht'
      · rw [hread ht', hnone ht] at hsame
        exact absurd hsame.symm (hne t')
      · exact Or.inr ⟨ht, ht'⟩
  · rintro (rfl | ⟨ht, ht'⟩)
    · rfl
    · rw [hnone ht, hnone ht']

theorem initWrites_withClock_eq_iff {stub : Stub} (h : stub.env.fails 0 = false)
    (now now' : ℕ → Time) :
    initWrites (stub.withClock now) = initWrites (stub.withClock now') ↔
      stub.env.marshalFails = true ∨ SameText (now 0) (now' 0) := by
  have hput : ∀ (clock : ℕ → Time) (value : String),
      (stub.withClock clock).put 0 ContractKey value = [(ContractKey, value)] := by
    intro clock value
    have hrejects : (stub.withClock clock).rejects 0 ContractKey = false := by
      rw [rejects_ContractKey]
      exact h
    rw [Stub.put, hrejects]
    rfl
  have htext : initWrites (stub.withClock now) = initWrites (stub.withClock now') ↔
      (stub.marshal true (initial (now 0))).1 = (stub.marshal true (initial (now' 0))).1 := by
    rw [initWrites, initWrites, hput, hput, List.cons.injEq, Prod.mk.injEq]
    exact ⟨fun heq => heq.1.2, fun heq => ⟨⟨rfl, heq⟩, rfl⟩⟩
  rw [htext]
  cases hmarshal : stub.env.marshalFails with
  | false =>
      rw [marshal_initial_eq_iff hmarshal]
      simp
  | true =>
      unfold Stub.marshal
      rw [hmarshal]
      exact iff_of_true rfl (Or.inl rfl)

/-! ## Two peers -/

/-- What the two peers write does not depend on their clocks. -/
def ClockFree (call : Call) (stub : Stub) (now now' : ℕ → Time) : Prop :=
  call = .Invoke ∨ stub.env.fails 0 = true ∨ stub.env.marshalFails = true ∨
    SameText (now 0) (now' 0)

/-- **When two peers agree.** Two peers that execute the same transaction on
the same ledger and both accept it give the same answer and the same writes
exactly if the call is one of `Invoke`, or `Init` fails or writes the same text
for both clocks. -/
theorem endorsements_agree_iff (C : GoCrypto) (call : Call) (stub : Stub) (now now' : ℕ → Time) :
    (((chaincode C).endorse call stub now).1.isSuccess = true →
      ((chaincode C).endorse call stub now').1.isSuccess = true →
        (chaincode C).endorse call stub now = (chaincode C).endorse call stub now') ↔
      ClockFree call stub now now' := by
  cases call with
  | Invoke => exact iff_of_true Invoke_agrees (Or.inl rfl)
  | Init =>
      have hanswer : ∀ clock, (chaincode C).endorse .Init stub clock =
          execute Init (stub.withClock clock) := fun _ => rfl
      rw [hanswer, hanswer, Init_success_iff, Init_success_iff]
      show (stub.env.fails 0 = false → stub.env.fails 0 = false → _) ↔ _
      unfold ClockFree
      cases hwritten : stub.env.fails 0 with
      | true => simp
      | false =>
          have hagree : execute Init (stub.withClock now) = execute Init (stub.withClock now') ↔
              initWrites (stub.withClock now) = initWrites (stub.withClock now') := by
            have hclock : ∀ clock, (stub.withClock clock).env.fails 0 = false := fun _ => hwritten
            rw [execute_Init_success (hclock now), execute_Init_success (hclock now'),
              Prod.mk.injEq]
            exact ⟨And.right, fun heq => ⟨rfl, heq⟩⟩
          rw [hagree, initWrites_withClock_eq_iff hwritten]
          simp

/-- **Two peers that should agree**: both accept `Init`, one in the year 1 and
one at the start of 2031, and write different records. -/
theorem init_endorsements_differ :
    ((chaincode byteCrypto).endorse .Init (initTx.stub emptyLedger)
        fun _ => zeroTime).1.isSuccess = true ∧
      ((chaincode byteCrypto).endorse .Init (initTx.stub emptyLedger)
        fun _ => newYear 2031).1.isSuccess = true ∧
      ((chaincode byteCrypto).endorse .Init (initTx.stub emptyLedger) fun _ => zeroTime).2 ≠
        ((chaincode byteCrypto).endorse .Init (initTx.stub emptyLedger)
          fun _ => newYear 2031).2 := by
  have hanswer : ∀ clock, (chaincode byteCrypto).endorse .Init (initTx.stub emptyLedger) clock =
      (.Success "[+] Init completed\n", initWrites ((initTx.stub emptyLedger).withClock clock)) :=
    fun _ => execute_Init_success rfl
  rw [hanswer, hanswer]
  refine ⟨rfl, rfl, ?_⟩
  intro hsame
  have hwritten : (initTx.stub emptyLedger).env.fails 0 = false := rfl
  rcases (initWrites_withClock_eq_iff hwritten _ _).mp hsame with hfalse | heq | ⟨hyear, -⟩
  · exact Bool.false_ne_true hfalse
  · exact absurd (congrArg (fun t : Time => t.year) heq) (by decide)
  · exact absurd hyear (by decide)

end Apdlcc

end Pepal.Chain

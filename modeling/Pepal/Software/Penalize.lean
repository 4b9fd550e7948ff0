import Pepal.Software.SenderService

/-!
# The answer to a penalty

`penalize` of `senderService.py`, from the answer of the REST layer on. It takes
an answer with a payload for a success; the status is looked at only where there
is no payload. But `invokeChaincode` gives every object that it resolves with a
payload, failures included.
-/

namespace Pepal

namespace Rest

/-- The call comes back with an object for a failure: an endorsement is bad, or
all are good and connecting to the event hubs throws. -/
def Network.Refuses (n : Network) : Prop :=
  n.getRegisteredUsers = .ok () ∧ ∃ results, n.sendTransactionProposal = .ok results ∧
    ((∃ p ∈ results, p.good = false) ∨ results ≠ [] ∧ ∃ stack, n.newEventHubs = .error stack)

section Outcome

variable {username : String} {n : Network}

theorem all_good_iff {results : List ProposalResponse} :
    results.all ProposalResponse.good = true ↔ ¬ ∃ p ∈ results, p.good = false := by
  simp only [List.all_eq_true, not_exists, not_and, Bool.not_eq_false]

/-- A refused call comes back with status 500. -/
theorem status_of_refuses (username : String) (h : n.Refuses) :
    ∃ r, outcome username n = .ok (some r) ∧ r.status = 500 := by
  obtain ⟨hu, results, hp, hfails⟩ := h
  by_cases hbad : ∃ p ∈ results, p.good = false
  · have hall : results.all ProposalResponse.good = false :=
      Bool.eq_false_of_not_eq_true fun hgood => all_good_iff.mp hgood hbad
    exact ⟨badProposal results, outcome_bad hu hp hall, rfl⟩
  · obtain ⟨hne, stack, hhubs⟩ := hfails.resolve_left hbad
    have hgood := all_good_iff.mpr hbad
    obtain ⟨p, results, rfl⟩ := List.exists_cons_of_ne_nil hne
    cases p with
    | error text => cases hgood
    | response r => exact ⟨_, outcome_hub_error hu hp hgood hhubs, rfl⟩

/-- Any other object is the first endorsement. -/
theorem status_of_not_refuses (h : ¬ n.Refuses) {r : Response}
    (hr : outcome username n = .ok (some r)) : r.status = 200 := by
  cases hu : n.getRegisteredUsers with
  | error err =>
      rw [outcome_user_error hu] at hr
      cases hr
  | ok =>
  cases hp : n.sendTransactionProposal with
  | error err => exact absurd hr (outcome_proposal_error hu hp r)
  | ok results =>
  have hgood : results.all ProposalResponse.good = true :=
    all_good_iff.mpr fun hbad => h ⟨hu, results, hp, .inl hbad⟩
  cases results with
  | nil => exact absurd hr (outcome_nil hu hp r)
  | cons p results =>
  cases p with
  | error text => cases hgood
  | response first =>
  cases hhubs : n.newEventHubs with
  | error stack => exact absurd ⟨hu, _, hp, .inr ⟨List.cons_ne_nil _ _, stack, hhubs⟩⟩ h
  | ok eventhubs =>
      rw [outcome_good hu hp hgood hhubs] at hr
      cases hr
      simpa [ProposalResponse.good] using List.all_eq_true.mp hgood _ List.mem_cons_self

end Outcome

end Rest

namespace Software.SenderService

open Json (Value ofByte)
open Rest (Network Response outcome send)

/-- What is printed of the answer; after a success, the text of the payload. -/
inductive Verdict where
  | successful (message : Option (List Char))
  | didNotWork
  | invalid
  | nothing

/-- The branches that report no success. -/
inductive Verdict.Failed : Verdict → Prop
  | didNotWork : Failed .didNotWork
  | invalid : Failed .invalid

/-- `v == 200`; statuses are written without a fraction. -/
def is200 : Value → Bool
  | .num n => Numeral.ofDecimal n.literal == some 200
  | _ => false

/-- From the answer to the REST call, as in `get_status`. -/
def penalize (result : Option Value) : Option Verdict := do
  let res ← result
  if (← contains "payload" res) = true then do
    let payload ← subscript res "payload"
    if (← contains "data" payload) = true then do
      let message ← convert_to_string (← subscript payload "data")
      some (.successful (some message))
    else some (.successful none)
  else do
    if (← contains "status" res) = true then do
      let status ← subscript res "status"
      if is200 status = false then some .didNotWork else some .nothing
    else some .invalid

theorem contains_data_braces : contains "data" (Rest.Payload.toJson .braces) = some false := rfl

theorem contains_data_buffer (data : List UInt8) :
    contains "data" (Rest.Payload.toJson (.buffer data)) = some true := rfl

/-- **Whatever comes back is taken for a success.** -/
theorem penalize_toJson (r : Response) :
    ∃ message, penalize (some r.toJson) = some (.successful message) := by
  unfold penalize
  rcases hpayload : r.payload with data | _
  · refine ⟨some (data.map ofByte), ?_⟩
    simp only [Option.bind_eq_bind, Option.bind_some, contains_payload, subscript_payload,
      hpayload, contains_data_buffer, subscript_data, convert_to_string_data, if_true]
  · refine ⟨none, ?_⟩
    simp only [Option.bind_eq_bind, Option.bind_some, contains_payload, subscript_payload,
      hpayload, contains_data_braces, if_true, Bool.false_eq_true, if_false]

/-- For every object that the call resolves with, the success branch is taken
exactly for status 200, and a failure branch for any other. -/
def Classifies (username : String) (n : Network) : Prop :=
  ∀ r, outcome username n = .ok (some r) →
    ((∃ message, penalize (send (outcome username n)) = some (.successful message)) ↔
        r.status = 200) ∧
      (r.status ≠ 200 → ∃ verdict, penalize (send (outcome username n)) = some verdict ∧
        verdict.Failed)

theorem status_of_classifies {username : String} {n : Network} (h : Classifies username n)
    {r : Response} (hr : outcome username n = .ok (some r)) : r.status = 200 := by
  have hsuccess := (h r hr).1.mp
  rw [hr] at hsuccess
  exact hsuccess (penalize_toJson r)

/-- **The answer to a penalty is classified right where the call is not refused.** -/
theorem classifies_iff (username : String) (n : Network) :
    Classifies username n ↔ ¬ n.Refuses := by
  constructor
  · intro h hrefuses
    obtain ⟨r, hr, hstatus⟩ := Rest.status_of_refuses username hrefuses
    rw [status_of_classifies h hr] at hstatus
    exact absurd hstatus (by decide)
  · intro hrefuses r hr
    have hstatus := Rest.status_of_not_refuses hrefuses hr
    refine ⟨iff_of_true ?_ hstatus, fun hne => absurd hstatus hne⟩
    rw [hr]
    exact penalize_toJson r

/-- One peer, whose chaincode answers with an error. -/
def unverified : Network where
  getRegisteredUsers := .ok ()
  sendTransactionProposal := .ok [.response
    { status := 500, message := some "[-] Signature verification failed.", payload := .buffer [] }]
  newEventHubs := .ok [.code "VALID"]
  sendTransaction := .ok "SUCCESS"

/-- The penalty is not applied, and reported as successful. -/
theorem unverified_successful :
    outcome "hub" unverified =
        .ok (some { status := 500, message := some "[object Object]", payload := .braces }) ∧
      penalize (send (outcome "hub" unverified)) = some (.successful none) ∧
      ¬ Classifies "hub" unverified := by
  have hout : outcome "hub" unverified =
      .ok (some { status := 500, message := some "[object Object]", payload := .braces }) := rfl
  refine ⟨hout, rfl, ?_⟩
  intro h
  exact absurd (status_of_classifies h hout) (by decide)

end Software.SenderService

end Pepal

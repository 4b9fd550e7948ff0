import Mathlib.Data.Int.Notation
import Pepal.Lib.Promise

/-!
# The transaction of the REST layer

`invokeChaincode` of `app/invoke-transaction.js`. It is a chain of four
handlers around the calls of `fabric-client`: look the user up, have the
proposal endorsed, have the transaction ordered and wait for the event hubs,
report. What the calls settle to is the record `Network`. The handlers share
one variable, `log_info`, which is null at the start and what the promise
resolves with at the end.

A rejection that is an `Error` has a stack; of its text only the message is
kept. A property of undefined or null cannot be read or written: that throws.
-/

namespace Pepal.Rest

/-- What a promise is rejected with. -/
inductive Thrown where
  | error (stack : String)
  | other (text : String)
  | undefined

/-- `payload`: a `Buffer`, or `{}`. -/
inductive Payload where
  | buffer (data : List UInt8)
  | braces
deriving DecidableEq

/-- The `response` of a proposal response, and `log_info`; the message of an
`err` without a stack is undefined. -/
structure Response where
  status : ℤ
  message : Option String
  payload : Payload
deriving DecidableEq

/-- An entry of `results[0]`: a proposal response, or the error of a peer. -/
inductive ProposalResponse where
  | response (response : Response)
  | error (text : String)

/-- What an event hub reports of the transaction within 30 seconds. -/
inductive HubOutcome where
  | code (code : String)
  | timeout
deriving DecidableEq

/-- What the calls settle to. -/
structure Network where
  getRegisteredUsers : Except Thrown Unit
  sendTransactionProposal : Except Thrown (List ProposalResponse)
  /-- one outcome for each hub, or the stack of the error that it throws -/
  newEventHubs : Except String (List HubOutcome)
  /-- the status of the orderer's reply -/
  sendTransaction : Except Thrown String

/-- What is passed to the last handlers as `response`. -/
inductive Value where
  | undefined
  | text (text : String)
  | reply (status : String)

/-- A handler: it may change `log_info`, and what it throws rejects. -/
abbrev Handler (α : Type) : Type := Promise (Option Response) Thrown α

def typeError (message : String) : Thrown := .error ("TypeError: " ++ message)

/-- `err.stack` -/
def Thrown.stack : Thrown → Handler (Option String)
  | .error stack => pure (some stack)
  | .other _ => pure none
  | .undefined => Promise.reject (typeError "Cannot read property 'stack' of undefined")

/-- `response.status`; a text has none. -/
def Value.status : Value → Handler (Option String)
  | .reply status => pure (some status)
  | .text _ => pure none
  | .undefined => Promise.reject (typeError "Cannot read property 'status' of undefined")

/-- `'Failed to enroll user ...' + err` -/
def Thrown.toString : Thrown → String
  | .error stack => stack
  | .other text => text
  | .undefined => "undefined"

/-- `"" + results[0][0]` -/
def ProposalResponse.toString : ProposalResponse → String
  | .response _ => "[object Object]"
  | .error text => "Error: " ++ text

/-- `proposalResponses[i].response && proposalResponses[i].response.status === 200` -/
def ProposalResponse.good : ProposalResponse → Bool
  | .response r => r.status == 200
  | .error _ => false

/-- What the loop makes of `log_info` at a bad response. -/
def badProposal (results : List ProposalResponse) : Response :=
  { status := 500, message := results.head?.map ProposalResponse.toString, payload := .braces }

/-- A round of the loop over `proposalResponses`, on `all_good` and `log_info`. -/
def examine (results : List ProposalResponse) (acc : Bool × Option Response)
    (p : ProposalResponse) : Bool × Option Response :=
  if p.good then (acc.1 && true, acc.2) else (acc.1 && false, some (badProposal results))

/-- `txPromise`: `resolve()` or `reject()` -/
def HubOutcome.txPromise : HubOutcome → Except Thrown Value
  | .code c => if c ≠ "VALID" then .error .undefined else .ok .undefined
  | .timeout => .error .undefined

/-- `results[0]` of `Promise.all` -/
def firstResult (results : List Value) : Value := results.headD .undefined

def notCommitted : String :=
  "Failed to send transaction and get notifications within the timeout period."

def notEndorsed : String :=
  "Failed to send Proposal or receive valid response. Response null or status is not 200. " ++
    "exiting..."

/-- `Promise.all` of the orderer's reply and the event hubs, with its handlers. -/
def commit (n : Network) (eventhubs : List HubOutcome) : Handler Value :=
  let sendPromise := n.sendTransaction.map Value.reply
  let eventPromises := eventhubs.map HubOutcome.txPromise
  (Promise.settled (Promise.all (sendPromise :: eventPromises))).andThen
    (fun results => pure (firstResult results)) (fun _ => pure (.text notCommitted))

/-- The handler of the endorsements. -/
def sendTransaction (n : Network) (results : List ProposalResponse) : Handler Value := do
  let log_info ← Promise.get
  let (all_good, log_info) := results.foldl (examine results) (true, log_info)
  Promise.set log_info
  if all_good then
    match results with
    | .response response :: _ => do
        Promise.set (some response)
        match n.newEventHubs with
        | .error stack => Promise.reject (.error stack)
        | .ok eventhubs => commit n eventhubs
    | .error _ :: _ =>
        Promise.reject (typeError "Cannot read property 'status' of undefined")
    | [] => Promise.reject (typeError "Cannot read property 'response' of undefined")
  else return .text notEndorsed

/-- The text that is returned is `err.stack`: the `+` binds more tightly than
the conditional, whose test is never the empty text. -/
def proposalFailed (err : Thrown) : Handler Value := do
  match ← err.stack with
  | some stack => return .text stack
  | none => return .undefined

/-- The last handler. What would set the status to 500 in its second branch is
a comment. -/
def report (response : Value) : Handler (Option Response) := do
  let status ← response.status
  if status = some "SUCCESS" then Promise.get
  else Promise.get

/-- The last handler for an error. -/
def reportError (err : Thrown) : Handler (Option Response) := do
  let stack ← err.stack
  match ← Promise.get with
  | none => Promise.reject (typeError "Cannot set property 'status' of null")
  | some _ =>
      let log_info := { status := 500, message := stack, payload := .buffer [] }
      Promise.set (some log_info)
      return some log_info

def invokeChaincode (username : String) (n : Network) : Handler (Option Response) :=
  (((Promise.settled n.getRegisteredUsers).andThen
      (fun _ => Promise.settled n.sendTransactionProposal)
      (fun err => Promise.reject
        (.error ("Error: Failed to enroll user '" ++ username ++ "'. " ++ err.toString)))).andThen
    (sendTransaction n) proposalFailed).andThen report reportError

/-- What the promise settles to. -/
def outcome (username : String) (n : Network) : Except Thrown (Option Response) :=
  (invokeChaincode username n none).1

/-! ## The four handlers -/

section Handlers

variable {n : Network} {results : List ProposalResponse}

/-- The loop over the responses: they are all good, or `log_info` is of the
last bad one. -/
theorem foldl_examine (first results : List ProposalResponse) (all_good : Bool)
    (log_info : Option Response) :
    results.foldl (examine first) (all_good, log_info) =
      (all_good && results.all ProposalResponse.good,
        if results.all ProposalResponse.good then log_info else some (badProposal first)) := by
  induction results generalizing all_good log_info with
  | nil => simp
  | cons p results ih =>
      rw [List.foldl_cons, examine, List.all_cons]
      cases hp : p.good with
      | true =>
          rw [if_pos rfl, ih]
          simp only [Bool.and_true, Bool.true_and]
      | false =>
          rw [if_neg Bool.false_ne_true, ih]
          simp only [Bool.and_false, Bool.false_and, ite_self, if_neg Bool.false_ne_true]

theorem sendTransaction_bad (hbad : results.all ProposalResponse.good = false)
    (log_info : Option Response) :
    sendTransaction n results log_info = (.ok (.text notEndorsed), some (badProposal results)) := by
  unfold sendTransaction
  rw [Promise.bind_get, foldl_examine, hbad]
  rfl

/-- With good endorsements `log_info` is the first of them, whatever becomes of
the transaction. -/
theorem sendTransaction_good {r : Response}
    (hgood : (ProposalResponse.response r :: results).all ProposalResponse.good = true)
    (log_info : Option Response) :
    sendTransaction n (.response r :: results) log_info =
      match n.newEventHubs with
      | .error stack => (.error (.error stack), some r)
      | .ok eventhubs => commit n eventhubs (some r) := by
  unfold sendTransaction
  rw [Promise.bind_get, foldl_examine, hgood]
  cases n.newEventHubs with
  | error stack => rfl
  | ok eventhubs => rfl

theorem commit_resolves (eventhubs : List HubOutcome) (log_info : Option Response) :
    ∃ v, v ≠ .undefined ∧ commit n eventhubs log_info = (.ok v, log_info) := by
  unfold commit
  cases hsend : n.sendTransaction with
  | error e => exact ⟨.text notCommitted, nofun, rfl⟩
  | ok status =>
      cases hall : Promise.all (eventhubs.map HubOutcome.txPromise) with
      | error e =>
          refine ⟨.text notCommitted, nofun, Promise.andThen_of_error (e := e) ?_⟩
          rw [Promise.settled_apply, Except.map, Promise.all, hall]
      | ok values =>
          refine ⟨.reply status, nofun, Promise.andThen_of_ok (a := .reply status :: values) ?_⟩
          rw [Promise.settled_apply, Except.map, Promise.all, hall]

theorem report_of_ne {v : Value} (hv : v ≠ .undefined) (log_info : Option Response) :
    report v log_info = (.ok log_info, log_info) := by
  cases v with
  | undefined => exact absurd rfl hv
  | text text => rfl
  | reply status =>
      unfold report
      rw [Value.status, Promise.pure_bind, ite_self]
      rfl

theorem reportError_some (stack : String) (r : Response) :
    reportError (.error stack) (some r) =
      (.ok (some { status := 500, message := some stack, payload := .buffer [] }),
        some { status := 500, message := some stack, payload := .buffer [] }) := rfl

end Handlers

/-! ## What is reported -/

section Reported

variable {username : String} {n : Network} {results : List ProposalResponse}

theorem outcome_user_error {err : Thrown} (h : n.getRegisteredUsers = .error err) :
    outcome username n = .ok none := by
  unfold outcome invokeChaincode
  rw [h]
  rfl

/-- After the endorsements the first of the last handlers runs, or the second. -/
theorem outcome_of_sent {v : Value} {log_info : Option Response}
    (hu : n.getRegisteredUsers = .ok ()) (hp : n.sendTransactionProposal = .ok results)
    (hsent : sendTransaction n results none = (.ok v, log_info)) :
    outcome username n = (report v log_info).1 := by
  have hchain : (Promise.settled (.ok results)).andThen (sendTransaction n) proposalFailed none =
      (.ok v, log_info) := (Promise.andThen_of_ok (Promise.settled_apply _ _)).trans hsent
  unfold outcome invokeChaincode
  rw [hu, hp]
  exact congrArg Prod.fst (Promise.andThen_of_ok hchain)

theorem outcome_of_thrown {err : Thrown} {log_info : Option Response}
    (hu : n.getRegisteredUsers = .ok ()) (hp : n.sendTransactionProposal = .ok results)
    (hsent : sendTransaction n results none = (.error err, log_info)) :
    outcome username n = (reportError err log_info).1 := by
  have hchain : (Promise.settled (.ok results)).andThen (sendTransaction n) proposalFailed none =
      (.error err, log_info) := (Promise.andThen_of_ok (Promise.settled_apply _ _)).trans hsent
  unfold outcome invokeChaincode
  rw [hu, hp]
  exact congrArg Prod.fst (Promise.andThen_of_error hchain)

/-- The proposal fails: nothing is in `log_info`, and no status comes back. -/
theorem outcome_proposal_error {err : Thrown} (hu : n.getRegisteredUsers = .ok ())
    (hp : n.sendTransactionProposal = .error err) (info : Response) :
    outcome username n ≠ .ok (some info) := by
  unfold outcome invokeChaincode
  rw [hu, hp]
  cases err with
  | error stack => nofun
  | other text => nofun
  | undefined => nofun

/-- Without a response `all_good` is true, and the loop has not set `log_info`. -/
theorem outcome_nil (hu : n.getRegisteredUsers = .ok ())
    (hp : n.sendTransactionProposal = .ok []) (info : Response) :
    outcome username n ≠ .ok (some info) := by
  rw [outcome_of_thrown hu hp rfl]
  nofun

theorem outcome_bad (hu : n.getRegisteredUsers = .ok ())
    (hp : n.sendTransactionProposal = .ok results)
    (hbad : results.all ProposalResponse.good = false) :
    outcome username n = .ok (some (badProposal results)) := by
  rw [outcome_of_sent hu hp (sendTransaction_bad hbad none),
    report_of_ne (v := .text notEndorsed) nofun]

theorem outcome_hub_error {r : Response} {stack : String} (hu : n.getRegisteredUsers = .ok ())
    (hp : n.sendTransactionProposal = .ok (.response r :: results))
    (hgood : (ProposalResponse.response r :: results).all ProposalResponse.good = true)
    (hhubs : n.newEventHubs = .error stack) :
    outcome username n =
      .ok (some { status := 500, message := some stack, payload := .buffer [] }) := by
  have hsent :
      sendTransaction n (.response r :: results) none = (.error (.error stack), some r) := by
    rw [sendTransaction_good hgood, hhubs]
  rw [outcome_of_thrown hu hp hsent, reportError_some]

/-- With good endorsements and event hubs the first response is what comes back,
ordered and committed or not. -/
theorem outcome_good {r : Response} {eventhubs : List HubOutcome}
    (hu : n.getRegisteredUsers = .ok ())
    (hp : n.sendTransactionProposal = .ok (.response r :: results))
    (hgood : (ProposalResponse.response r :: results).all ProposalResponse.good = true)
    (hhubs : n.newEventHubs = .ok eventhubs) :
    outcome username n = .ok (some r) := by
  obtain ⟨v, hv, hcommit⟩ := commit_resolves (n := n) eventhubs (some r)
  have hsent : sendTransaction n (.response r :: results) none = (.ok v, some r) := by
    rw [sendTransaction_good hgood, hhubs]
    exact hcommit
  rw [outcome_of_sent hu hp hsent, report_of_ne hv]

end Reported

/-- Endorsed, ordered and committed by every peer that is listened to. -/
structure Network.Committed (n : Network) : Prop where
  endorsed : ∃ results, n.sendTransactionProposal = .ok results ∧ results ≠ [] ∧
    ∀ p ∈ results, p.good = true
  ordered : n.sendTransaction = .ok "SUCCESS"
  valid : ∃ eventhubs, n.newEventHubs = .ok eventhubs ∧ ∀ hub ∈ eventhubs, hub = .code "VALID"

/-- An object comes back, and its status is 200 exactly where the transaction
is committed. -/
def Reports (username : String) (n : Network) : Prop :=
  ∃ info, outcome username n = .ok (some info) ∧ (info.status = 200 ↔ n.Committed)

/-- Some endorsements come, and what is well endorsed and listened for commits. -/
structure Network.Commits (n : Network) : Prop where
  enrolled : n.getRegisteredUsers = .ok ()
  answered : ∃ results, n.sendTransactionProposal = .ok results ∧ results ≠ [] ∧
    ((∀ p ∈ results, p.good = true) → ∀ eventhubs, n.newEventHubs = .ok eventhubs →
      n.sendTransaction = .ok "SUCCESS" ∧ ∀ hub ∈ eventhubs, hub = .code "VALID")

section Cases

variable {username : String} {n : Network} {results : List ProposalResponse}

theorem not_committed_of_bad (hp : n.sendTransactionProposal = .ok results)
    (hbad : ¬ ∀ p ∈ results, p.good = true) : ¬ n.Committed := by
  rintro ⟨⟨results', hp', -, hgood⟩, -, -⟩
  rw [hp, Except.ok.injEq] at hp'
  exact hbad (hp' ▸ hgood)

theorem reports_of_bad (hu : n.getRegisteredUsers = .ok ())
    (hp : n.sendTransactionProposal = .ok results)
    (hbad : ¬ ∀ p ∈ results, p.good = true) : Reports username n := by
  refine ⟨badProposal results, outcome_bad hu hp ?_, ?_⟩
  · rw [← Bool.not_eq_true, List.all_eq_true]
    exact hbad
  · exact iff_of_false (by simp [badProposal]) (not_committed_of_bad hp hbad)

theorem reports_of_hub_error {r : Response} {stack : String} (hu : n.getRegisteredUsers = .ok ())
    (hp : n.sendTransactionProposal = .ok (.response r :: results))
    (hgood : ∀ p ∈ ProposalResponse.response r :: results, p.good = true)
    (hhubs : n.newEventHubs = .error stack) : Reports username n := by
  refine ⟨_, outcome_hub_error hu hp (List.all_eq_true.mpr hgood) hhubs, ?_⟩
  refine iff_of_false (by simp) ?_
  rintro ⟨-, -, eventhubs, hhubs', -⟩
  rw [hhubs] at hhubs'
  cases hhubs'

/-- With good endorsements and event hubs the status is 200. -/
theorem reports_iff_of_good {r : Response} {eventhubs : List HubOutcome}
    (hu : n.getRegisteredUsers = .ok ())
    (hp : n.sendTransactionProposal = .ok (.response r :: results))
    (hgood : ∀ p ∈ ProposalResponse.response r :: results, p.good = true)
    (hhubs : n.newEventHubs = .ok eventhubs) :
    Reports username n ↔
      n.sendTransaction = .ok "SUCCESS" ∧ ∀ hub ∈ eventhubs, hub = .code "VALID" := by
  have hout : outcome username n = .ok (some r) :=
    outcome_good hu hp (List.all_eq_true.mpr hgood) hhubs
  have hstatus : r.status = 200 := by
    simpa [ProposalResponse.good] using hgood (.response r) List.mem_cons_self
  constructor
  · rintro ⟨info, hinfo, hiff⟩
    obtain rfl : r = info := by
      rw [hout] at hinfo
      injection hinfo with hinfo
      injection hinfo
    obtain ⟨-, hordered, eventhubs', hhubs', hvalid⟩ := hiff.mp hstatus
    obtain rfl : eventhubs = eventhubs' := by
      rw [hhubs] at hhubs'
      injection hhubs'
    exact ⟨hordered, hvalid⟩
  · rintro ⟨hordered, hvalid⟩
    have hcommitted : n.Committed :=
      ⟨⟨_, hp, List.cons_ne_nil _ _, hgood⟩, hordered, eventhubs, hhubs, hvalid⟩
    exact ⟨r, hout, iff_of_true hstatus hcommitted⟩

theorem commits_iff (hu : n.getRegisteredUsers = .ok ())
    (hp : n.sendTransactionProposal = .ok results) (hne : results ≠ []) :
    n.Commits ↔ ((∀ p ∈ results, p.good = true) → ∀ eventhubs, n.newEventHubs = .ok eventhubs →
      n.sendTransaction = .ok "SUCCESS" ∧ ∀ hub ∈ eventhubs, hub = .code "VALID") := by
  constructor
  · rintro ⟨-, results', hp', -, hcommits⟩
    rw [hp, Except.ok.injEq] at hp'
    rw [hp']
    exact hcommits
  · exact fun hcommits => ⟨hu, results, hp, hne, hcommits⟩

end Cases

/-- The status is right exactly where nothing fails after good endorsements:
the first response is in `log_info` before the transaction is ordered. -/
theorem reports_iff_commits (username : String) (n : Network) : Reports username n ↔ n.Commits := by
  cases hu : n.getRegisteredUsers with
  | error err =>
      refine iff_of_false ?_ fun hcommits => ?_
      · rintro ⟨info, hinfo, -⟩
        rw [outcome_user_error hu] at hinfo
        cases hinfo
      · cases hu.symm.trans hcommits.enrolled
  | ok =>
  cases hp : n.sendTransactionProposal with
  | error err =>
      refine iff_of_false ?_ ?_
      · rintro ⟨info, hinfo, -⟩
        exact outcome_proposal_error hu hp info hinfo
      · rintro ⟨-, results, hp', -⟩
        cases hp.symm.trans hp'
  | ok results =>
  cases results with
  | nil =>
      refine iff_of_false ?_ ?_
      · rintro ⟨info, hinfo, -⟩
        exact outcome_nil hu hp info hinfo
      · rintro ⟨-, results, hp', hne, -⟩
        cases hp.symm.trans hp'
        exact hne rfl
  | cons p results =>
  rw [commits_iff hu hp (List.cons_ne_nil _ _)]
  by_cases hgood : ∀ q ∈ p :: results, q.good = true
  · cases p with
    | error text => cases hgood (.error text) List.mem_cons_self
    | response r =>
    cases hhubs : n.newEventHubs with
    | error stack => exact iff_of_true (reports_of_hub_error hu hp hgood hhubs) fun _ _ => nofun
    | ok eventhubs =>
        rw [reports_iff_of_good hu hp hgood hhubs]
        constructor
        · rintro hcommits - _ ⟨⟩
          exact hcommits
        · exact fun hcommits => hcommits hgood eventhubs rfl
  · exact iff_of_true (reports_of_bad hu hp hgood) fun hall => absurd hall hgood

/-- One good endorsement, ordered, and a peer that does not commit in time. -/
def timedOut : Network where
  getRegisteredUsers := .ok ()
  sendTransactionProposal :=
    .ok [.response { status := 200, message := some "", payload := .buffer [] }]
  newEventHubs := .ok [.timeout]
  sendTransaction := .ok "SUCCESS"

theorem timeout_reported :
    outcome "Jim" timedOut =
        .ok (some { status := 200, message := some "", payload := .buffer [] }) ∧
      ¬ timedOut.Committed ∧ ¬ Reports "Jim" timedOut := by
  have hout : outcome "Jim" timedOut =
      .ok (some { status := 200, message := some "", payload := .buffer [] }) := rfl
  have hcommitted : ¬ timedOut.Committed := by
    rintro ⟨-, -, eventhubs, ⟨⟩, hvalid⟩
    cases hvalid .timeout List.mem_cons_self
  refine ⟨hout, hcommitted, ?_⟩
  rintro ⟨info, hinfo, hiff⟩
  rw [hout] at hinfo
  cases hinfo
  exact hcommitted (hiff.mp rfl)

end Pepal.Rest

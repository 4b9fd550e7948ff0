import Mathlib.Data.List.Infix
import Pepal.Lib.Turns

/-!
# Who signs

All requests to the REST server share the client of their organisation, and the
client has one `_userContext`: whoever is in it signs. `getRegisteredUsers` of
`app/helper.js` sets it on its way to the user: to null, to the user that is
stored, to the admin, to the user that is newly enrolled. The proposal of a
transaction is signed when the user is there, the transaction when the
endorsements are, and between the two other requests have their turns.

A turn is what the server does with the answer to one call, the promise handlers
that follow included, up to the next call that leaves the process. Answers come
in any order, and any call may fail; of an error only its text is kept. A user
is given by the name for which its certificate is issued.
-/

namespace Pepal.Rest

/-- Which endpoint the request is for: `POST /users`, `queryChaincode` and the
queries like it, `invokeChaincode`, or one that acts for the organisation. -/
inductive Caller where
  | users
  | queryChaincode
  | invokeChaincode
  | orgAdmin
deriving DecidableEq

/-- The calls that a request waits for. -/
inductive Waiting where
  -- `getRegisteredUsers`
  | newDefaultKeyValueStore
  | getUserContext
  | register
  | enroll
  | setEnrollment
  -- `getAdminUser`
  | adminKeyValueStore
  | adminUserContext
  | adminEnroll
  | adminSetEnrollment
  | adminSetUserContext
  -- `getOrgAdmin`
  | orgKeyValueStore
  | createUserKeys
  | createUserSaved
  -- `invokeChaincode`
  | sendTransactionProposal
  | sendTransaction
deriving DecidableEq

structure Request where
  caller : Caller
  username : String
  waiting : Waiting
deriving DecidableEq

/-- What `getRegisteredUsers` hands to its caller: a user, the text of an error,
or null or undefined. -/
inductive Registered where
  | user (name : String)
  | text (text : String)
  | nothing
deriving DecidableEq

/-- What others see of a request. -/
inductive Deed where
  | proposed (username : String) (user : Registered) (signer : String)
  | ordered (username signer : String)
  | administered (signer : String)
  /-- a `POST /users` is answered, with a token exactly where it succeeded -/
  | answered (username : String) (success : Bool) (message : String)
deriving DecidableEq

/-- The key of the organisation, and `admins[0]` of the configuration. -/
structure Config where
  userOrg : String
  admin : String

/-- An answer: an error, or a value, of which only one thing matters, whether
there is a user of the name in the store, or whether all endorsements are good. -/
abbrev Answer : Type := Except String Bool

/-- `client._userContext` -/
abbrev UserContext : Type := Option String

abbrev Turn : Type := Turns.Turn UserContext Request Deed

abbrev Server : Type := Turns.System UserContext Request Deed

def ends (context : UserContext) (deeds : List Deed) : Turn := ⟨context, none, deeds⟩

def waits (context : UserContext) (r : Request) (waiting : Waiting) (deeds : List Deed) : Turn :=
  ⟨context, some { r with waiting := waiting }, deeds⟩

/-- The handler that the user is handed to. `newTransactionID` throws where the
context is null, and `/users` has no handler for what is thrown at
`user._enrollmentSecret`. -/
def handOver (r : Request) (user : Registered) (context : UserContext) : Turn :=
  match r.caller with
  | .users =>
      match user with
      | .nothing => ends context []
      | _ => ends context [.answered r.username true (r.username ++ " enrolled Successfully")]
  | .queryChaincode =>
      match context with
      | none => ends context []
      | some signer => ends context [.proposed r.username user signer]
  | .invokeChaincode =>
      match context with
      | none => ends context []
      | some signer => waits context r .sendTransactionProposal [.proposed r.username user signer]
  | .orgAdmin => ends context []

/-- The last handler for an error: it returns the text, which `/users` takes for
a failure and the others for a user. -/
def handOverError (r : Request) (text : String) (context : UserContext) : Turn :=
  match r.caller with
  | .users => ends context [.answered r.username false text]
  | _ => handOver r (.text text) context

/-- After a failed registration: with `Error:` in the text the `member` that is
set is the admin who should have registered the user, or none. Any other text is
taken for an enrolment, and that has no key. -/
def registrationFailed (r : Request) (member : Option String) (text : String)
    (context : UserContext) : Turn :=
  if "Error:".toList <:+: text.toList then
    match member with
    | some name => handOver r (.user name) (some name)
    | none => handOver r .nothing context
  else handOver r (.text "Error: Invalid parameter. Must have a valid private key.") context

def noRegistrar : String := "Error: Missing required argument \"registrar\""

/-- `'peer'+userOrg+'Admin'` -/
def Config.orgAdmin (C : Config) : String := "peer" ++ C.userOrg ++ "Admin"

/-- A turn of a request. -/
def turn (C : Config) (r : Request) (answer : Answer) (context : UserContext) : Turn :=
  match r.waiting, answer with
  | .newDefaultKeyValueStore, .error text => handOverError r text context
  | .newDefaultKeyValueStore, .ok _ => waits none r .getUserContext []
  | .getUserContext, .error text => handOverError r text context
  | .getUserContext, .ok true => handOver r (.user r.username) (some r.username)
  | .getUserContext, .ok false => waits context r .adminKeyValueStore []
  | .adminKeyValueStore, .error text => registrationFailed r none text context
  | .adminKeyValueStore, .ok _ => waits none r .adminUserContext []
  | .adminUserContext, .error text => registrationFailed r none text context
  | .adminUserContext, .ok true => waits (some C.admin) r .register []
  | .adminUserContext, .ok false => waits context r .adminEnroll []
  -- what fails in the enrolment of the admin is caught, and there is no registrar
  | .adminEnroll, .error _ => registrationFailed r none noRegistrar context
  | .adminEnroll, .ok _ => waits context r .adminSetEnrollment []
  | .adminSetEnrollment, .error _ => registrationFailed r none noRegistrar context
  | .adminSetEnrollment, .ok _ => waits (some C.admin) r .adminSetUserContext []
  | .adminSetUserContext, .error _ => registrationFailed r none noRegistrar context
  | .adminSetUserContext, .ok _ => waits context r .register []
  | .register, .error text => registrationFailed r (some C.admin) text context
  | .register, .ok _ => waits context r .enroll []
  | .enroll, .error text => handOver r (.text text) context
  | .enroll, .ok _ => waits context r .setEnrollment []
  | .setEnrollment, .error text => handOver r (.text text) context
  | .setEnrollment, .ok _ => handOver r (.user r.username) (some r.username)
  | .orgKeyValueStore, .error _ => ends context []
  | .orgKeyValueStore, .ok _ => waits none r .createUserKeys []
  | .createUserKeys, .error _ => ends context []
  | .createUserKeys, .ok _ => waits (some C.orgAdmin) r .createUserSaved []
  | .createUserSaved, .error _ => ends context []
  | .createUserSaved, .ok _ =>
      match context with
      | none => ends context []
      | some signer => ends context [.administered signer]
  | .sendTransactionProposal, .ok true =>
      match context with
      | none => ends context []
      | some signer => waits context r .sendTransaction [.ordered r.username signer]
  | .sendTransactionProposal, _ => ends context []
  | .sendTransaction, _ => ends context []

/-- A request as it comes in. -/
def incoming (caller : Caller) (username : String) : Request :=
  { caller, username
    waiting := match caller with
      | .orgAdmin => .orgKeyValueStore
      | _ => .newDefaultKeyValueStore }

def start : Server := { shared := none, processes := [], done := [] }

def serve (C : Config) (s : Server) (events : List (Turns.Event Request Answer)) : Server :=
  Runs.run (Turns.next (turn C)) s events

/-! ## What a turn can do -/

section Turn

variable {C : Config} {r q : Request} {context : UserContext} {user : Registered} {d : Deed}

/-- Everything that a turn can do. A user is handed over in the context that is
set for it; what is not a user, in whatever context there is, and only after an
error. -/
inductive Happens (C : Config) (r : Request) (context : UserContext) : Answer → Turn → Prop
  | waits {answer : Answer} {context' : UserContext} {waiting : Waiting}
      (hproposal : waiting ≠ .sendTransactionProposal)
      (horg : waiting = .createUserSaved → context' = some C.orgAdmin) :
      Happens C r context answer (waits context' r waiting [])
  | ends {answer : Answer} : Happens C r context answer (ends context [])
  | own {b : Bool} :
      Happens C r context (.ok b) (handOver r (.user r.username) (some r.username))
  | admin {text : String} :
      Happens C r context (.error text) (handOver r (.user C.admin) (some C.admin))
  | nobody {text : String} {user : Registered} (hnobody : ∀ name, user ≠ .user name) :
      Happens C r context (.error text) (handOver r user context)
  | failed {text : String} : Happens C r context (.error text) (handOverError r text context)
  | administered {b : Bool} {signer : String} (hwaiting : r.waiting = .createUserSaved)
      (hcontext : context = some signer) :
      Happens C r context (.ok b) (ends context [.administered signer])
  | ordered {b : Bool} {signer : String} (hwaiting : r.waiting = .sendTransactionProposal)
      (hcontext : context = some signer) :
      Happens C r context (.ok b)
        (waits context r .sendTransaction [.ordered r.username signer])

theorem happens_registrationFailed {text message : String} {member : Option String}
    (hmember : ∀ name, member = some name → name = C.admin) :
    Happens C r context (.error text) (registrationFailed r member message context) := by
  unfold registrationFailed
  split
  · cases member with
    | none => exact .nobody nofun
    | some name =>
        rw [hmember name rfl]
        exact .admin
  · exact .nobody nofun

theorem happens (C : Config) (r : Request) (answer : Answer) (context : UserContext) :
    Happens C r context answer (turn C r answer context) := by
  have hnone : ∀ name, (none : Option String) = some name → name = C.admin := nofun
  have hadmin : ∀ name, some C.admin = some name → name = C.admin := by
    rintro name ⟨⟩
    rfl
  unfold turn
  split
  case h_1 => exact .failed
  case h_3 => exact .failed
  case h_4 => exact .own
  case h_6 => exact happens_registrationFailed hnone
  case h_8 => exact happens_registrationFailed hnone
  case h_11 => exact happens_registrationFailed hnone
  case h_13 => exact happens_registrationFailed hnone
  case h_15 => exact happens_registrationFailed hnone
  case h_17 => exact happens_registrationFailed hadmin
  case h_19 => exact .nobody nofun
  case h_21 => exact .nobody nofun
  case h_22 => exact .own
  case h_26 => exact .waits nofun fun _ => rfl
  case h_28 hwaiting =>
    split
    · exact .ends
    · exact .administered hwaiting rfl
  case h_29 hwaiting =>
    split
    · exact .ends
    · exact .ordered hwaiting rfl
  all_goals first
    | exact .ends
    | exact .waits nofun nofun

theorem done_handOver (h : d ∈ (handOver r user context).done) :
    (∃ message, d = .answered r.username true message) ∨
      ∃ signer, context = some signer ∧ d = .proposed r.username user signer := by
  unfold handOver ends waits at h
  split at h
  · split at h
    · cases h
    · exact Or.inl ⟨_, List.mem_singleton.mp h⟩
  · split at h
    · cases h
    · exact Or.inr ⟨_, rfl, List.mem_singleton.mp h⟩
  · split at h
    · cases h
    · exact Or.inr ⟨_, rfl, List.mem_singleton.mp h⟩
  · cases h

/-- A request that goes on keeps its user and the context in which it signed. -/
theorem process_handOver (h : (handOver r user context).process = some q) :
    q = { r with waiting := .sendTransactionProposal } ∧
      (handOver r user context).shared = context := by
  unfold handOver ends waits at h ⊢
  split at h
  · split at h
    · cases h
    · cases h
  · split at h
    · cases h
    · cases h
  · split at h
    · cases h
    · cases h
      exact ⟨rfl, rfl⟩
  · cases h

theorem done_handOverError {text : String} (h : d ∈ (handOverError r text context).done) :
    d = .answered r.username false text ∨ d ∈ (handOver r (.text text) context).done := by
  unfold handOverError ends at h
  split at h
  · exact Or.inl (List.mem_singleton.mp h)
  · exact Or.inr h

end Turn

/-! ## Whose proposal it is -/

/-- A request starts as one that comes in. -/
def Incoming (r : Request) : Prop := ∃ caller username, r = incoming caller username

/-- Whoever is handed over signs, and it is the user who asks or the admin. -/
def SignsAsHanded (C : Config) : Deed → Prop
  | .proposed username user signer =>
      ∀ name, user = .user name → signer = name ∧ (name = username ∨ name = C.admin)
  | _ => True

/-- The user who asks signs the proposal. -/
def SignsAsAsked : Deed → Prop
  | .proposed username _ signer => signer = username
  | _ => True

section Proposals

variable {C : Config} {r : Request} {context : UserContext}

theorem signsAsHanded_handOver {user : Registered} (h : ∀ name, user = .user name →
      context = some name ∧ (name = r.username ∨ name = C.admin)) :
    ∀ d ∈ (handOver r user context).done, SignsAsHanded C d := by
  intro d hd
  rcases done_handOver hd with ⟨message, rfl⟩ | ⟨signer, hsigner, rfl⟩
  · trivial
  · intro name hname
    obtain ⟨hcontext, hwho⟩ := h name hname
    rw [hsigner] at hcontext
    exact ⟨Option.some.inj hcontext, hwho⟩

theorem signsAsHanded_turn (answer : Answer) :
    ∀ d ∈ (turn C r answer context).done, SignsAsHanded C d := by
  have h := happens C r answer context
  generalize turn C r answer context = t at h
  cases h with
  | waits hproposal horg => nofun
  | ends => nofun
  | own =>
      refine signsAsHanded_handOver ?_
      rintro name ⟨⟩
      exact ⟨rfl, Or.inl rfl⟩
  | admin =>
      refine signsAsHanded_handOver ?_
      rintro name ⟨⟩
      exact ⟨rfl, Or.inr rfl⟩
  | nobody hnobody =>
      refine signsAsHanded_handOver ?_
      intro name hname
      exact absurd hname (hnobody name)
  | failed =>
      intro d hd
      rcases done_handOverError hd with rfl | hd
      · trivial
      · refine signsAsHanded_handOver ?_ d hd
        intro name hname
        cases hname
  | administered hwaiting hcontext =>
      intro d hd
      rw [List.mem_singleton.mp hd]
      trivial
  | ordered hwaiting hcontext =>
      intro d hd
      rw [List.mem_singleton.mp hd]
      trivial

theorem signsAsAsked_turn (b : Bool) :
    ∀ d ∈ (turn C r (.ok b) context).done, SignsAsAsked d := by
  intro d hd
  have h := happens C r (.ok b) context
  generalize turn C r (.ok b) context = t at h hd
  cases h with
  | waits hproposal horg => cases hd
  | ends => cases hd
  | own =>
      rcases done_handOver hd with ⟨message, rfl⟩ | ⟨signer, hsigner, rfl⟩
      · trivial
      · exact (Option.some.inj hsigner).symm
  | administered hwaiting hcontext =>
      rw [List.mem_singleton.mp hd]
      trivial
  | ordered hwaiting hcontext =>
      rw [List.mem_singleton.mp hd]
      trivial

/-- **Whose proposal it is.** In whatever order requests have their turns and
whatever fails, a proposal for which a user is handed over is signed by that
user, who is the one that asks or the admin. Where no call fails it is the one
that asks. -/
theorem proposals_signed (C : Config) (events : List (Turns.Event Request Answer)) :
    (∀ d ∈ (serve C start events).done, SignsAsHanded C d) ∧
      ((∀ i text, .answer i (.error text) ∉ events) →
        ∀ d ∈ (serve C start events).done, SignsAsAsked d) := by
  constructor
  · refine Turns.forall_done (fun _ => True) (fun _ => True) ?_ ?_ ?_ ?_
    · intro r answer context _ _
      exact ⟨fun _ _ => trivial, signsAsHanded_turn answer⟩
    · rintro (r | ⟨i, answer⟩) _
      · trivial
      · trivial
    · exact fun _ _ _ => trivial
    · nofun
  · intro hok
    refine Turns.forall_done (fun _ => True) (fun answer => ∃ b, answer = .ok b) ?_ ?_ ?_ ?_
    · rintro r answer context - ⟨b, rfl⟩
      exact ⟨fun _ _ => trivial, signsAsAsked_turn b⟩
    · rintro (r | ⟨i, answer⟩) he
      · trivial
      · cases answer with
        | error text => exact absurd he (hok i text)
        | ok b => exact ⟨b, rfl⟩
    · exact fun _ _ _ => trivial
    · nofun

end Proposals

/-! ## Requests one after the other -/

/-- Every signature is that of the user who asks, or of the admin of the
organisation where one acts for it. -/
def SignsForItself (C : Config) : Deed → Prop
  | .proposed username _ signer => signer = username
  | .ordered username signer => signer = username
  | .administered signer => signer = C.orgAdmin
  | .answered _ _ _ => True

/-- What a request leaves in the context until it signs again. -/
structure Keeps (C : Config) (context : UserContext) (r : Request) : Prop where
  proposal : r.waiting = .sendTransactionProposal → context = some r.username
  org : r.waiting = .createUserSaved → context = some C.orgAdmin

section Serial

variable {C : Config} {r : Request} {context : UserContext}

theorem keeps_incoming (caller : Caller) (username : String) (context : UserContext) :
    Keeps C context (incoming caller username) := by
  cases caller with
  | users => exact ⟨nofun, nofun⟩
  | queryChaincode => exact ⟨nofun, nofun⟩
  | invokeChaincode => exact ⟨nofun, nofun⟩
  | orgAdmin => exact ⟨nofun, nofun⟩

/-- A turn without an error signs for itself in the context that the request has
kept, and keeps the one that it leaves. -/
theorem keeps_turn {b : Bool} (hkeeps : Keeps C context r) :
    (∀ q, (turn C r (.ok b) context).process = some q →
      Keeps C (turn C r (.ok b) context).shared q) ∧
      ∀ d ∈ (turn C r (.ok b) context).done, SignsForItself C d := by
  have h := happens C r (.ok b) context
  generalize turn C r (.ok b) context = t at h
  cases h with
  | waits hproposal horg =>
      constructor
      · rintro q ⟨⟩
        exact ⟨fun hw => absurd hw hproposal, horg⟩
      · nofun
  | ends => exact ⟨nofun, nofun⟩
  | own =>
      constructor
      · intro q hq
        obtain ⟨rfl, hshared⟩ := process_handOver hq
        exact ⟨fun _ => hshared, nofun⟩
      · intro d hd
        rcases done_handOver hd with ⟨message, rfl⟩ | ⟨signer, hsigner, rfl⟩
        · trivial
        · exact (Option.some.inj hsigner).symm
  | administered hwaiting hcontext =>
      constructor
      · nofun
      · intro d hd
        rw [List.mem_singleton.mp hd]
        exact Option.some.inj (hcontext.symm.trans (hkeeps.org hwaiting))
  | ordered hwaiting hcontext =>
      constructor
      · rintro q ⟨⟩
        exact ⟨nofun, nofun⟩
      · intro d hd
        rw [List.mem_singleton.mp hd]
        exact Option.some.inj (hcontext.symm.trans (hkeeps.proposal hwaiting))

/-- **Requests that do not overlap sign for themselves**: where a request is
taken up only after the one before it has ended, and no call fails, the proposal
and the transaction are both signed by the user who asks. -/
theorem serial_signatures (C : Config) {events : List (Turns.Event Request Answer)}
    (hin : ∀ r, .start r ∈ events → Incoming r) (hok : ∀ i text, .answer i (.error text) ∉ events)
    (hserial : Runs.Along (Turns.next (turn C)) Turns.Serial start events) :
    ∀ d ∈ (serve C start events).done, SignsForItself C d := by
  refine Turns.forall_done_of_serial (Keeps C) Incoming (fun answer => ∃ b, answer = .ok b)
    ?_ ?_ ?_ hserial ?_ ?_
  · rintro r context ⟨caller, username, rfl⟩
    exact keeps_incoming caller username context
  · rintro r answer context hkeeps ⟨b, rfl⟩
    exact keeps_turn hkeeps
  · rintro (r | ⟨i, answer⟩) he
    · exact hin r he
    · cases answer with
      | error text => exact absurd he (hok i text)
      | ok b => exact ⟨b, rfl⟩
  · exact Turns.Alone.of_none fun _ => rfl
  · nofun

/-- An invocation by a stored user, up to the reply of the orderer. -/
def invocation (i : ℕ) (username : String) : List (Turns.Event Request Answer) :=
  [.start (incoming .invokeChaincode username), .answer i (.ok true), .answer i (.ok true),
    .answer i (.ok true), .answer i (.ok true)]

theorem serial_signatures_two :
    let s := serve ⟨"org1", "admin"⟩ start (invocation 0 "u" ++ invocation 1 "v")
    s.done.length = 4 ∧ ∀ d ∈ s.done, SignsForItself ⟨"org1", "admin"⟩ d := by
  refine ⟨rfl, serial_signatures ⟨"org1", "admin"⟩ ?_ ?_ ?_⟩
  · intro r hr
    simp only [invocation, List.cons_append, List.nil_append, List.mem_cons,
      Turns.Event.start.injEq, reduceCtorEq, false_or, List.not_mem_nil, or_false] at hr
    rcases hr with rfl | rfl
    · exact ⟨_, _, rfl⟩
    · exact ⟨_, _, rfl⟩
  · simp [invocation]
  · refine ⟨?_, trivial, trivial, trivial, trivial, ?_, trivial, trivial, trivial, trivial, trivial⟩
    · intro i
      rfl
    · intro i
      cases i with
      | zero => rfl
      | succ i => rfl

/-- Between the endorsement that a user has asked for and the transaction the
request of another user is taken up: the transaction is signed by that user. -/
theorem overlapping_signatures (C : Config) (u v : String) :
    (serve C start
      [.start (incoming .invokeChaincode u), .answer 0 (.ok true), .answer 0 (.ok true),
        .start (incoming .invokeChaincode v), .answer 1 (.ok true), .answer 1 (.ok true),
        .answer 0 (.ok true)]).done =
      [.proposed u (.user u) u, .proposed v (.user v) v, .ordered u v] := rfl

end Serial

/-! ## Users who are not registered -/

section Unregistered

variable {C : Config} {s : Server} {i : ℕ} {caller : Caller} {username : String}
  {answers : List Answer} {events more : List (Turns.Event Request Answer)}

/-- The user is not stored, and the admin is, or is enrolled. -/
def AdminReady (answers : List Answer) : Prop :=
  (∃ b₁ b₂, answers = [.ok b₁, .ok false, .ok b₂, .ok true]) ∨
    ∃ b₁ b₂ b₃ b₄ b₅,
      answers = [.ok b₁, .ok false, .ok b₂, .ok false, .ok b₃, .ok b₄, .ok b₅]

theorem path_register (hcaller : caller ≠ .orgAdmin) (h : AdminReady answers) :
    Turns.Path (turn C) (incoming caller username) answers
      { caller, username, waiting := .register } := by
  have hwaiting : (incoming caller username).waiting = .newDefaultKeyValueStore := by
    cases caller with
    | orgAdmin => exact absurd rfl hcaller
    | users => rfl
    | queryChaincode => rfl
    | invokeChaincode => rfl
  have hincoming : incoming caller username =
      { caller, username, waiting := .newDefaultKeyValueStore } := by
    rw [← hwaiting]
    rfl
  rw [hincoming]
  rcases h with ⟨b₁, b₂, rfl⟩ | ⟨b₁, b₂, b₃, b₄, b₅, rfl⟩
  · exact .turn (fun _ => rfl) (fun _ => rfl) (.turn (fun _ => rfl) (fun _ => rfl)
      (.turn (fun _ => rfl) (fun _ => rfl) (.turn (fun _ => rfl) (fun _ => rfl) (.here _))))
  · exact .turn (fun _ => rfl) (fun _ => rfl) (.turn (fun _ => rfl) (fun _ => rfl)
      (.turn (fun _ => rfl) (fun _ => rfl) (.turn (fun _ => rfl) (fun _ => rfl)
        (.turn (fun _ => rfl) (fun _ => rfl) (.turn (fun _ => rfl) (fun _ => rfl)
          (.turn (fun _ => rfl) (fun _ => rfl) (.here _)))))))

/-- The request waits for the registration, whatever other requests have done, and
has done nothing yet. -/
theorem process_register (hi : s.process i = some (incoming caller username))
    (hcaller : caller ≠ .orgAdmin) (hready : AdminReady (Turns.answersTo i events)) :
    (serve C s events).process i = some { caller, username, waiting := .register } ∧
      Turns.doneBy (turn C) i s events = [] :=
  Turns.process_of_path hi (path_register hcaller hready)

theorem turn_register_error {text : String} (herror : "Error:".toList <:+: text.toList)
    (context : UserContext) :
    turn C { caller, username, waiting := .register } (.error text) context =
      handOver { caller, username, waiting := .register } (.user C.admin) (some C.admin) :=
  if_pos herror

/-- **Whoever cannot be registered acts as the admin.** The registration of a
user fails, which it also does where the CA has the name already: the proposal of
the request is signed by the admin, in every run. -/
theorem unregistered_signs_as_admin (hi : s.process i = some (incoming caller username))
    (hcaller : caller = .queryChaincode ∨ caller = .invokeChaincode)
    (hready : AdminReady (Turns.answersTo i events)) {text : String}
    (herror : "Error:".toList <:+: text.toList) :
    (serve C s (events ++ [.answer i (.error text)])).done =
      (serve C s events).done ++ [.proposed username (.user C.admin) C.admin] := by
  have hcaller' : caller ≠ .orgAdmin := by
    rcases hcaller with rfl | rfl
    · nofun
    · nofun
  have hprocess := (process_register (C := C) hi hcaller' hready).1
  unfold serve at hprocess ⊢
  rw [Runs.run_concat, Turns.next_answer hprocess, turn_register_error herror]
  rcases hcaller with rfl | rfl
  · rfl
  · rfl

theorem unregistered_signs_as_admin_u :
    (serve ⟨"org1", "admin"⟩ start ([.start (incoming .invokeChaincode "u"), .answer 0 (.ok true),
      .answer 0 (.ok false), .answer 0 (.ok true), .answer 0 (.ok true)] ++
        [.answer 0 (.error "Error: is already registered")])).done =
      [.proposed "u" (.user "admin") "admin"] :=
  @unregistered_signs_as_admin ⟨"org1", "admin"⟩
    (serve ⟨"org1", "admin"⟩ start [.start (incoming .invokeChaincode "u")]) 0 .invokeChaincode "u"
    [.answer 0 (.ok true), .answer 0 (.ok false), .answer 0 (.ok true), .answer 0 (.ok true)]
    rfl (Or.inr rfl) (Or.inl ⟨true, true, rfl⟩) "Error: is already registered" (by decide)

/-- A `POST /users` on its way from the registration to its answer. -/
def Registering (username : String) (r : Request) : Prop :=
  ∃ waiting, (waiting = .register ∨ waiting = .enroll ∨ waiting = .setEnrollment) ∧
    r = { caller := .users, username, waiting }

/-- Whatever the CA answers. -/
theorem registering_turn {r : Request} (h : Registering username r) (answer : Answer)
    (context : UserContext) :
    ((turn C r answer context).process = none ∧ (turn C r answer context).done =
        [.answered username true (username ++ " enrolled Successfully")]) ∨
      ∃ q, (turn C r answer context).process = some q ∧ Registering username q ∧
        (turn C r answer context).done = [] := by
  obtain ⟨waiting, hwaiting, rfl⟩ := h
  rcases hwaiting with rfl | rfl | rfl
  · cases answer with
    | ok b => exact Or.inr ⟨_, rfl, ⟨.enroll, Or.inr (Or.inl rfl), rfl⟩, rfl⟩
    | error text =>
        left
        show (registrationFailed _ _ _ _).process = none ∧ (registrationFailed _ _ _ _).done = _
        unfold registrationFailed
        split
        · exact ⟨rfl, rfl⟩
        · exact ⟨rfl, rfl⟩
  · cases answer with
    | ok b => exact Or.inr ⟨_, rfl, ⟨.setEnrollment, Or.inr (Or.inr rfl), rfl⟩, rfl⟩
    | error text => exact Or.inl ⟨rfl, rfl⟩
  · cases answer with
    | ok b => exact Or.inl ⟨rfl, rfl⟩
    | error text => exact Or.inl ⟨rfl, rfl⟩

/-- **A registration is answered with success whatever the CA says.** Once the
admin is there, the one answer that `POST /users` comes to has `success` and a
token, in every run, whether or not the user is registered and enrolled. -/
theorem users_answered_with_success (hi : s.process i = some (incoming .users username))
    (hready : AdminReady (Turns.answersTo i events))
    (hended : (serve C s (events ++ more)).process i = none) :
    Turns.doneBy (turn C) i s (events ++ more) =
      [.answered username true (username ++ " enrolled Successfully")] := by
  obtain ⟨hprocess, hdone⟩ := process_register (C := C) hi nofun hready
  unfold serve at hended hprocess
  rw [Runs.run_append] at hended
  rw [Turns.doneBy_append, hdone, List.nil_append]
  exact Turns.doneBy_of_ended (Registering username) (fun _ a v h => registering_turn h a v)
    hprocess ⟨.register, Or.inl rfl, rfl⟩ hended

/-- The name is taken, and another user is registered in between. -/
theorem users_answered_with_success_u :
    Turns.doneBy (turn ⟨"org1", "admin"⟩) 0
      (serve ⟨"org1", "admin"⟩ start [.start (incoming .users "u")])
      ([.answer 0 (.ok true), .answer 0 (.ok false), .answer 0 (.ok true), .answer 0 (.ok true),
          .start (incoming .users "v"), .answer 1 (.ok true)] ++
        [.answer 0 (.error "Error: is already registered")]) =
      [.answered "u" true "u enrolled Successfully"] :=
  users_answered_with_success rfl (Or.inl ⟨true, true, rfl⟩) rfl

end Unregistered

end Pepal.Rest

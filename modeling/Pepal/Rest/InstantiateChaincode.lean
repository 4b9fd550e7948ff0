import Mathlib.Data.List.Infix
import Pepal.Lib.Turns

/-!
# Deployments that overlap

`app/instantiate-chaincode.js` keeps the id of its transaction and the hub on
which it listens for the commit in two variables of the module, `tx_id` and
`eh`, which all deployments share. A deployment sets `tx_id` before it asks for
endorsements and reads it again when they are there, and whichever hub is in
`eh` when the transaction is committed, or when the time is over, is the one
that it disconnects.

A turn is, as for the signatures, what the server does with the answer to one
call. Ids and hubs are numbered in the order in which they are made. Of an
error only its text is kept, and the text of a transaction's validation code is
what the peers say, so that it is a parameter.
-/

namespace Pepal.Rest.Instantiate

/-- The variables of the module, with the numbers of ids and hubs made so far and
the hubs that have been disconnected. -/
structure Variables where
  made : ℕ
  tx_id : Option ℕ
  hubs : ℕ
  eh : Option ℕ
  disconnected : List ℕ

/-- What a deployment waits for. -/
inductive Waiting where
  | getOrgAdmin
  | channelInitialize
  | sendInstantiateProposal (own : ℕ)
  /-- the orderer, who may have replied, and the listener, who may have been
  called with `VALID` -/
  | committing (own deployId hub : ℕ) (reply : Option String) (valid : Bool)
  /-- the request is answered, but the listener is there, and perhaps the timer -/
  | late (hub : ℕ) (timer : Bool)
deriving DecidableEq

inductive Answer where
  | error (text : String)
  | user
  /-- the channel is initialized, and perhaps `newTransactionID` throws -/
  | initialized (thrown : Option String)
  /-- which endorsements have status 200, and perhaps the new hub cannot connect -/
  | results (good : List Bool) (thrown : Option String)
  | status (status : String)
  | committed
  | timeout
deriving DecidableEq

/-- The answer to the request: success, for a deployment that made the id `own`
and listened for `deployId`, or the text that is sent instead. -/
inductive Deed where
  | success (own deployId : ℕ)
  | failure (message : String)
deriving DecidableEq

abbrev Turn : Type := Turns.Turn Variables Waiting Deed

abbrev Server : Type := Turns.System Variables Waiting Deed

def ends (v : Variables) (deeds : List Deed) : Turn := ⟨v, none, deeds⟩

def waits (v : Variables) (p : Waiting) : Turn := ⟨v, some p, []⟩

/-- `eh = client.newEventHub()` -/
def Variables.newEventHub (v : Variables) : Variables :=
  { v with hubs := v.hubs + 1, eh := some v.hubs }

/-- `eh.disconnect()`, which takes the listeners of the hub away -/
def Variables.disconnect (v : Variables) : Variables :=
  { v with disconnected := v.eh.toList ++ v.disconnected }

def notOrdered (status : String) : Deed :=
  .failure ("Failed to order the transaction. Error code: " ++ status)

/-- Where the handlers before it return a text, the last handler asks the text
for its status. -/
def failed : Deed := notOrdered "undefined"

def ordered (own deployId : ℕ) (status : String) : Deed :=
  if status = "SUCCESS" then .success own deployId else notOrdered status

/-- The handler of the endorsements. All of no endorsements are good. -/
def endorsed (own : ℕ) (good : List Bool) (thrown : Option String) (v : Variables) : Turn :=
  if good.all id then
    match good, v.tx_id with
    | [], _ => ends v [.failure "TypeError: Cannot read property 'response' of undefined"]
    | _, none => ends v [.failure "TypeError: Cannot read property 'getTransactionID' of null"]
    | _, some deployId =>
        match thrown with
        | some text => ends v.newEventHub [.failure text]
        | none => waits v.newEventHub (.committing own deployId v.hubs none false)
  else ends v [failed]

/-- The listener is called, and what it disconnects need not be its own hub. -/
def committed (codes : ℕ → String) (own deployId hub : ℕ) (reply : Option String)
    (v : Variables) : Turn :=
  if codes deployId = "VALID" then
    match reply with
    | some status => ends v.disconnect [ordered own deployId status]
    | none => waits v.disconnect (.committing own deployId hub none true)
  else ends v.disconnect [failed]

/-- The time is over, and the listener is still there if it was another hub that
was disconnected. -/
def timedOut (hub : ℕ) (v : Variables) (deeds : List Deed) : Turn :=
  ⟨v.disconnect, if hub ∈ v.disconnect.disconnected then none else some (.late hub false), deeds⟩

/-- A turn of a deployment. An answer to another call than the one it waits for
is none, and neither is the call of a listener whose hub is disconnected. -/
def turn (codes : ℕ → String) (p : Waiting) (answer : Answer) (v : Variables) : Turn :=
  match p, answer with
  | .getOrgAdmin, .error _ => ends v [failed]
  | .getOrgAdmin, .user => waits v .channelInitialize
  | .channelInitialize, .error _ => ends v [failed]
  | .channelInitialize, .initialized (some _) => ends v [failed]
  | .channelInitialize, .initialized none =>
      waits { v with made := v.made + 1, tx_id := some v.made } (.sendInstantiateProposal v.made)
  | .sendInstantiateProposal _, .error _ => ends v [failed]
  | .sendInstantiateProposal own, .results good thrown => endorsed own good thrown v
  | .committing own deployId hub none false, .status status =>
      waits v (.committing own deployId hub (some status) false)
  | .committing own deployId _ none true, .status status => ends v [ordered own deployId status]
  | .committing _ _ hub none false, .error _ => ⟨v, some (.late hub true), [failed]⟩
  | .committing _ _ _ none true, .error _ => ends v [failed]
  | .committing own deployId hub reply false, .committed =>
      if hub ∈ v.disconnected then waits v (.committing own deployId hub reply false)
      else committed codes own deployId hub reply v
  | .committing _ _ hub _ false, .timeout => timedOut hub v [failed]
  | .late hub timer, .committed =>
      if hub ∈ v.disconnected then waits v (.late hub timer) else ends v.disconnect []
  | .late hub true, .timeout => timedOut hub v []
  | p, _ => waits v p

def start : Server :=
  { shared := { made := 0, tx_id := none, hubs := 0, eh := none, disconnected := [] }
    processes := []
    done := [] }

def serve (codes : ℕ → String) (s : Server) (events : List (Turns.Event Waiting Answer)) :
    Server :=
  Runs.run (Turns.next (turn codes)) s events

/-! ## What a turn can do -/

/-- The hub that the deployment listens on. -/
def Waiting.hub : Waiting → Option ℕ
  | .committing _ _ hub _ false => some hub
  | .late hub _ => some hub
  | _ => none

/-- There are endorsements, and all are good. -/
def Endorsed (good : List Bool) : Prop := good ≠ [] ∧ good.all id = true

/-- The request is not answered yet. -/
def Waiting.owes : Waiting → Bool
  | .late _ _ => false
  | _ => true

/-- Everything that a turn can do. -/
inductive Happens (codes : ℕ → String) (v : Variables) : Waiting → Answer → Turn → Prop
  | stays {p : Waiting} {a : Answer} : Happens codes v p a (waits v p)
  | initializes {a : Answer} : Happens codes v .getOrgAdmin a (waits v .channelInitialize)
  | fails {p : Waiting} {a : Answer} {message : String} (howes : p.owes = true) :
      Happens codes v p a (ends v [.failure message])
  | makes : Happens codes v .channelInitialize (.initialized none)
      (waits { v with made := v.made + 1, tx_id := some v.made } (.sendInstantiateProposal v.made))
  | opens {own deployId : ℕ} {good : List Bool} (hgood : Endorsed good)
      (hid : v.tx_id = some deployId) :
      Happens codes v (.sendInstantiateProposal own) (.results good none)
        (waits v.newEventHub (.committing own deployId v.hubs none false))
  | connectFails {own : ℕ} {good : List Bool} {text : String} (hgood : Endorsed good) :
      Happens codes v (.sendInstantiateProposal own) (.results good (some text))
        (ends v.newEventHub [.failure text])
  | replied {own deployId hub : ℕ} {status : String} :
      Happens codes v (.committing own deployId hub none false) (.status status)
        (waits v (.committing own deployId hub (some status) false))
  | orders {own deployId hub : ℕ} {status : String} :
      Happens codes v (.committing own deployId hub none true) (.status status)
        (ends v [ordered own deployId status])
  | rejected {own deployId hub : ℕ} {text : String} :
      Happens codes v (.committing own deployId hub none false) (.error text)
        ⟨v, some (.late hub true), [failed]⟩
  | heard {own deployId hub : ℕ} (hvalid : codes deployId = "VALID") :
      Happens codes v (.committing own deployId hub none false) .committed
        (waits v.disconnect (.committing own deployId hub none true))
  | heardLast {own deployId hub : ℕ} {status : String} (hvalid : codes deployId = "VALID") :
      Happens codes v (.committing own deployId hub (some status) false) .committed
        (ends v.disconnect [ordered own deployId status])
  | invalid {own deployId hub : ℕ} {reply : Option String} :
      Happens codes v (.committing own deployId hub reply false) .committed
        (ends v.disconnect [failed])
  | heardLate {hub : ℕ} {timer : Bool} :
      Happens codes v (.late hub timer) .committed (ends v.disconnect [])
  | timedOut {own deployId hub : ℕ} {reply : Option String} :
      Happens codes v (.committing own deployId hub reply false) .timeout
        (timedOut hub v [failed])
  | timedOutLate {hub : ℕ} : Happens codes v (.late hub true) .timeout (timedOut hub v [])

theorem happens_endorsed {codes : ℕ → String} {v : Variables} (own : ℕ) (good : List Bool)
    (thrown : Option String) : Happens codes v (.sendInstantiateProposal own)
      (.results good thrown) (endorsed own good thrown v) := by
  unfold endorsed
  split
  · rename_i hall
    cases good with
    | nil => exact .fails rfl
    | cons first rest =>
        have hgood : Endorsed (first :: rest) := ⟨List.cons_ne_nil first rest, hall⟩
        cases hid : v.tx_id with
        | none => exact .fails rfl
        | some deployId =>
            cases thrown with
            | none => exact .opens hgood hid
            | some text => exact .connectFails hgood
  · exact .fails rfl

theorem happens_committed {codes : ℕ → String} {v : Variables} (own deployId hub : ℕ)
    (reply : Option String) : Happens codes v (.committing own deployId hub reply false)
      .committed (committed codes own deployId hub reply v) := by
  unfold committed
  split
  · cases reply with
    | none => exact .heard ‹_›
    | some status => exact .heardLast ‹_›
  · exact .invalid

theorem happens (codes : ℕ → String) (p : Waiting) (a : Answer) (v : Variables) :
    Happens codes v p a (turn codes p a v) := by
  unfold turn
  split
  case h_2 => exact .initializes
  case h_5 => exact .makes
  case h_7 => exact happens_endorsed _ _ _
  case h_8 => exact .replied
  case h_9 => exact .orders
  case h_10 => exact .rejected
  case h_12 =>
    split
    · exact .stays
    · exact happens_committed _ _ _ _
  case h_13 => exact .timedOut
  case h_14 =>
    split
    · exact .stays
    · exact .heardLate
  case h_15 => exact .timedOutLate
  case h_16 => exact .stays
  all_goals exact .fails rfl

section Runs

variable {codes : ℕ → String} {v v' : Variables} {p : Waiting} {a : Answer}

/-! ## One answer -/

theorem process_timedOut {hub : ℕ} {deeds : List Deed} {q : Waiting}
    (h : (timedOut hub v deeds).process = some q) :
    q = .late hub false ∧ hub ∉ v.disconnect.disconnected := by
  unfold timedOut at h
  dsimp only at h
  split at h
  · cases h
  · cases h
    exact ⟨rfl, ‹_›⟩

theorem owes_timedOut (hub : ℕ) (v : Variables) (deeds : List Deed) :
    (timedOut hub v deeds).process.any Waiting.owes = false := by
  cases h : (timedOut hub v deeds).process with
  | none => rfl
  | some q =>
      obtain ⟨rfl, -⟩ := process_timedOut h
      rfl

/-- A turn answers the request exactly where the deployment owes the answer and
does not owe it any more. -/
theorem answers_turn (codes : ℕ → String) (p : Waiting) (a : Answer) (v : Variables) :
    (turn codes p a v).done.length +
      (if (turn codes p a v).process.any Waiting.owes then 1 else 0) =
        if p.owes then 1 else 0 := by
  have h := happens codes p a v
  generalize turn codes p a v = t at h
  cases h with
  | stays => exact Nat.zero_add _
  | fails howes =>
      rw [if_pos howes]
      rfl
  | timedOut =>
      rw [owes_timedOut]
      rfl
  | timedOutLate =>
      rw [owes_timedOut]
      rfl
  | _ => rfl

/-- A deployment up to its endorsements. -/
def proposal (i : ℕ) : List (Turns.Event Waiting Answer) :=
  [.start .getOrgAdmin, .answer i .user, .answer i (.initialized none)]

/-- What comes after the endorsements when all goes well. -/
def transaction (i : ℕ) : List (Turns.Event Waiting Answer) :=
  [.answer i (.results [true] none), .answer i (.status "SUCCESS"), .answer i .committed]

theorem start_mem_deployment {i : ℕ} {p : Waiting} (h : .start p ∈ proposal i ++ transaction i) :
    p = .getOrgAdmin := by
  simpa [proposal, transaction] using h

/-- What is reported as a success is valid, and was made by the deployment or
after its own. -/
def Reported (codes : ℕ → String) : Deed → Prop
  | .success own deployId => own ≤ deployId ∧ codes deployId = "VALID"
  | .failure _ => True

/-- Ids are only added, and whatever comes into `tx_id` is a new one. -/
def Changes (v v' : Variables) : Prop :=
  v.made ≤ v'.made ∧ (v'.tx_id = v.tx_id ∨ ∃ id, v'.tx_id = some id ∧ v.made ≤ id)

/-- What a deployment relies on. -/
def Relies (codes : ℕ → String) (v : Variables) : Waiting → Prop
  | .sendInstantiateProposal own => own < v.made ∧ ∃ id, v.tx_id = some id ∧ own ≤ id
  | .committing own deployId _ _ valid =>
      own ≤ deployId ∧ (valid = true → codes deployId = "VALID")
  | _ => True

theorem Changes.refl (v : Variables) : Changes v v := ⟨Nat.le_refl _, Or.inl rfl⟩

theorem Relies.mono (hchanges : Changes v v') (h : Relies codes v p) : Relies codes v' p := by
  obtain ⟨hmade, hid⟩ := hchanges
  cases p with
  | sendInstantiateProposal own =>
      obtain ⟨hown, id, htx, hle⟩ := h
      refine ⟨Nat.lt_of_lt_of_le hown hmade, ?_⟩
      rcases hid with hsame | ⟨id', htx', hnew⟩
      · exact ⟨id, hsame.trans htx, hle⟩
      · exact ⟨id', htx', (Nat.le_of_lt hown).trans hnew⟩
  | committing own deployId hub reply valid => exact h
  | getOrgAdmin => trivial
  | channelInitialize => trivial
  | late hub timer => trivial

theorem reported_ordered {own deployId : ℕ} {status : String} (hle : own ≤ deployId)
    (hvalid : codes deployId = "VALID") : Reported codes (ordered own deployId status) := by
  unfold ordered
  split
  · exact ⟨hle, hvalid⟩
  · trivial

theorem reported_turn (h : Relies codes v p) :
    Changes v (turn codes p a v).shared ∧
      (∀ q, (turn codes p a v).process = some q → Relies codes (turn codes p a v).shared q) ∧
      ∀ d ∈ (turn codes p a v).done, Reported codes d := by
  have hturn := happens codes p a v
  generalize turn codes p a v = t at hturn
  have hnothing : ∀ d ∈ ([] : List Deed), Reported codes d := nofun
  have hfailure : ∀ message, ∀ d ∈ [Deed.failure message], Reported codes d :=
    fun message => List.forall_mem_singleton.mpr trivial
  have hordered : ∀ {own deployId : ℕ} {status : String}, own ≤ deployId →
      codes deployId = "VALID" → ∀ d ∈ [ordered own deployId status], Reported codes d :=
    fun hle hvalid => List.forall_mem_singleton.mpr (reported_ordered hle hvalid)
  cases hturn with
  | stays =>
      refine ⟨.refl v, ?_, hnothing⟩
      rintro q ⟨⟩
      exact h
  | initializes =>
      refine ⟨.refl v, ?_, hnothing⟩
      rintro q ⟨⟩
      trivial
  | fails howes => exact ⟨.refl v, nofun, hfailure _⟩
  | makes =>
      refine ⟨⟨Nat.le_succ _, Or.inr ⟨_, rfl, Nat.le_refl _⟩⟩, ?_, hnothing⟩
      rintro q ⟨⟩
      exact ⟨Nat.lt_succ_self _, _, rfl, Nat.le_refl _⟩
  | opens _ hid =>
      obtain ⟨-, id, htx, hle⟩ := h
      obtain rfl := Option.some.inj (htx.symm.trans hid)
      refine ⟨.refl v, ?_, hnothing⟩
      rintro q ⟨⟩
      exact ⟨hle, nofun⟩
  | connectFails _ => exact ⟨.refl v, nofun, hfailure _⟩
  | replied =>
      refine ⟨.refl v, ?_, hnothing⟩
      rintro q ⟨⟩
      exact h
  | orders => exact ⟨.refl v, nofun, hordered h.1 (h.2 rfl)⟩
  | rejected =>
      refine ⟨.refl v, ?_, hfailure _⟩
      rintro q ⟨⟩
      trivial
  | heard hvalid =>
      refine ⟨.refl v, ?_, hnothing⟩
      rintro q ⟨⟩
      exact ⟨h.1, fun _ => hvalid⟩
  | heardLast hvalid => exact ⟨.refl v, nofun, hordered h.1 hvalid⟩
  | invalid => exact ⟨.refl v, nofun, hfailure _⟩
  | heardLate => exact ⟨.refl v, nofun, hnothing⟩
  | timedOut =>
      refine ⟨.refl v, ?_, hfailure _⟩
      intro q hq
      obtain ⟨rfl, -⟩ := process_timedOut hq
      trivial
  | timedOutLate =>
      refine ⟨.refl v, ?_, hnothing⟩
      intro q hq
      obtain ⟨rfl, -⟩ := process_timedOut hq
      trivial

/-- **A success is some valid transaction.** However deployments overlap, one
that is answered with success has listened for a transaction that the peers say
is valid, and that is its own or one that was made after it. -/
theorem success_of_valid (codes : ℕ → String) {events : List (Turns.Event Waiting Answer)}
    (hin : ∀ p, .start p ∈ events → p = .getOrgAdmin) :
    ∀ d ∈ (serve codes start events).done, Reported codes d := by
  refine Turns.forall_done_of_rely (Relies codes) Changes (fun p => p = .getOrgAdmin)
    (fun _ => True) (fun _ _ _ => Relies.mono) ?_ (fun _ _ _ h _ => reported_turn h) ?_ nofun nofun
  · rintro p v rfl
    trivial
  · rintro (p | ⟨i, a⟩) he
    · exact hin p he
    · trivial

theorem success_of_valid_one :
    let s := serve (fun _ => "VALID") start (proposal 0 ++ transaction 0)
    s.done = [.success 0 0] ∧ ∀ d ∈ s.done, Reported (fun _ => "VALID") d :=
  ⟨rfl, success_of_valid (fun _ => "VALID") fun _ => start_mem_deployment⟩

/-- The second deployment makes its id before the first has its endorsements: the
first is answered with success for a transaction that is not valid, and the
listener for it is never called. -/
example : (serve (fun id => if id = 0 then "MVCC_READ_CONFLICT" else "VALID")
    start (proposal 0 ++ proposal 1 ++ transaction 0 ++ transaction 1)).done =
      [.success 0 1, .success 1 1] := rfl

/-- The second deployment opens its hub before the transaction of the first is
committed: its hub is disconnected, and it is told that its own has failed. -/
example : (serve (fun _ => "VALID") start
    (proposal 0 ++ [.answer 0 (.results [true] none)] ++ proposal 1 ++
      [.answer 1 (.results [true] none), .answer 0 (.status "SUCCESS"), .answer 0 .committed,
        .answer 1 (.status "SUCCESS"), .answer 1 .committed, .answer 1 .timeout])).done =
      [.success 0 0, failed] := rfl

/-! ## Deployments that do not disturb each other -/

/-- A deployment makes its id while no other waits for endorsements, and opens
its hub, which it does when it is endorsed, while no other listens. -/
def Undisturbed (s : Server) : Turns.Event Waiting Answer → Prop
  | .start p => p = .getOrgAdmin
  | .answer i (.initialized none) =>
      s.process i = some .channelInitialize →
        ∀ j own, s.process j ≠ some (.sendInstantiateProposal own)
  | .answer i (.results good _) =>
      (∃ own, s.process i = some (.sendInstantiateProposal own)) → Endorsed good →
        ∀ j p, s.process j = some p → p.hub = none
  | _ => True

def Listens (v : Variables) (hub : ℕ) : Prop := v.eh = some hub ∧ hub ∉ v.disconnected

/-- The variables are as the deployment left them. -/
structure Fits (v : Variables) (p : Waiting) : Prop where
  made : ∀ own, p = .sendInstantiateProposal own → v.tx_id = some own
  own : ∀ own deployId hub reply valid, p = .committing own deployId hub reply valid →
    deployId = own
  listens : ∀ hub, p.hub = some hub → Listens v hub

/-- Hubs have numbers below that of the next. -/
def Numbered (v : Variables) : Prop :=
  (∀ hub, v.eh = some hub → hub < v.hubs) ∧ ∀ hub ∈ v.disconnected, hub < v.hubs

def ForItself : Deed → Prop
  | .success own deployId => deployId = own
  | .failure _ => True

structure Orderly (s : Server) : Prop where
  numbered : Numbered s.shared
  fits : ∀ i p, s.process i = some p → Fits s.shared p
  one : ∀ i j p q, s.process i = some p → s.process j = some q → p.hub ≠ none → q.hub ≠ none →
    i = j
  done : ∀ d ∈ s.done, ForItself d

theorem Numbered.newEventHub (h : Numbered v) : Numbered v.newEventHub := by
  refine ⟨?_, fun hub hmem => Nat.lt_succ_of_lt (h.2 hub hmem)⟩
  rintro hub ⟨⟩
  exact Nat.lt_succ_self _

theorem Numbered.disconnect (h : Numbered v) : Numbered v.disconnect := by
  refine ⟨h.1, fun hub hmem => ?_⟩
  rcases List.mem_append.mp hmem with hmem | hmem
  · exact h.1 hub (Option.mem_toList.mp hmem)
  · exact h.2 hub hmem

/-- The new hub is connected. -/
theorem Numbered.listens (h : Numbered v) : Listens v.newEventHub v.hubs :=
  ⟨rfl, fun hmem => Nat.lt_irrefl _ (h.2 _ hmem)⟩

theorem Fits.of_hub_none (h : Fits v p) (hid : v'.tx_id = v.tx_id) (hhub : p.hub = none) :
    Fits v' p where
  made own hp := hid.trans (h.made own hp)
  own := h.own
  listens hub hp := by
    rw [hhub] at hp
    cases hp

theorem Listens.mem_disconnect {hub : ℕ} (h : Listens v hub) : hub ∈ v.disconnect.disconnected :=
  List.mem_append_left _ (Option.mem_toList.mpr h.1)

/-- What a turn of one deployment has to do so that all stays in order. -/
theorem Orderly.answer {s : Server} (h : Orderly s) {i : ℕ} (hi : s.process i = some p) {t : Turn}
    (ht : turn codes p a s.shared = t) (hnumbered : Numbered t.shared)
    (hself : ∀ q, t.process = some q → Fits t.shared q)
    (hothers : ∀ j q, j ≠ i → s.process j = some q → Fits t.shared q)
    (hone : ∀ q, t.process = some q → q.hub ≠ none →
      p.hub ≠ none ∨ ∀ j q', s.process j = some q' → q'.hub = none)
    (hdone : ∀ d ∈ t.done, ForItself d) :
    Orderly (Turns.next (turn codes) s (.answer i a)) where
  numbered := by
    rw [Turns.next_answer hi, ht]
    exact hnumbered
  fits := by
    intro j q hj
    rw [Turns.process_answer hi, ht] at hj
    rw [Turns.next_answer hi, ht]
    split at hj
    · exact hself q hj
    · exact hothers j q ‹_› hj
  one := by
    have hcross : ∀ j q q', j ≠ i → t.process = some q → s.process j = some q' →
        q.hub ≠ none → q'.hub = none := by
      intro j q q' hne hq hj hhub
      by_contra hhub'
      rcases hone q hq hhub with hp | hnone
      · exact hne (h.one j i q' p hj hi hhub' hp)
      · exact hhub' (hnone j q' hj)
    intro j k q q' hj hk hq hq'
    rw [Turns.process_answer hi, ht] at hj hk
    split at hj
    · split at hk
      · exact (‹j = i›).trans (‹k = i›).symm
      · exact absurd (hcross k q q' ‹_› hj hk hq) hq'
    · split at hk
      · exact absurd (hcross j q' q ‹_› hk hj hq') hq
      · exact h.one j k q q' hj hk hq hq'
  done := by
    intro d hd
    rw [Turns.next_answer hi, ht] at hd
    rcases List.mem_append.mp hd with hd | hd
    · exact h.done d hd
    · exact hdone d hd

/-- The one that listens disconnects the hub of no other. -/
theorem Orderly.others_disconnect {s : Server} (h : Orderly s) {i : ℕ}
    (hi : s.process i = some p) (hhub : p.hub ≠ none) (j : ℕ) (q : Waiting) (hne : j ≠ i)
    (hj : s.process j = some q) : Fits s.shared.disconnect q := by
  refine (h.fits j q hj).of_hub_none rfl ?_
  by_contra hq
  exact hne (h.one j i q p hj hi hq hhub)

theorem forItself_failure (message : String) : ∀ d ∈ [Deed.failure message], ForItself d :=
  List.forall_mem_singleton.mpr trivial

theorem forItself_ordered {own deployId : ℕ} (status : String) (hown : deployId = own) :
    ∀ d ∈ [ordered own deployId status], ForItself d := by
  rw [List.forall_mem_singleton]
  unfold ordered
  split
  · exact hown
  · trivial

/-- A deployment that neither waits for endorsements nor for a commit. -/
theorem Fits.idle {q : Waiting} (h : q = .getOrgAdmin ∨ q = .channelInitialize) : Fits v q := by
  rcases h with rfl | rfl
  · exact ⟨nofun, nofun, nofun⟩
  · exact ⟨nofun, nofun, nofun⟩

theorem fits_timedOut {hub : ℕ} {deeds : List Deed} {q : Waiting} (hlistens : Listens v hub)
    (hq : (timedOut hub v deeds).process = some q) : Fits (timedOut hub v deeds).shared q :=
  absurd hlistens.mem_disconnect (process_timedOut hq).2

theorem orderly_answer {s : Server} (h : Orderly s) {i : ℕ} (hi : s.process i = some p)
    (hquiet : Undisturbed s (.answer i a)) : Orderly (Turns.next (turn codes) s (.answer i a)) := by
  have hp := h.fits i p hi
  have hsame : ∀ j q, j ≠ i → s.process j = some q → Fits s.shared q :=
    fun j q _ hj => h.fits j q hj
  have hturn := happens codes p a s.shared
  generalize ht : turn codes p a s.shared = t at hturn
  cases hturn with
  | stays =>
      refine h.answer hi ht h.numbered ?_ hsame ?_ nofun
      · rintro q ⟨⟩
        exact hp
      · rintro q ⟨⟩ hhub
        exact Or.inl hhub
  | initializes =>
      refine h.answer hi ht h.numbered ?_ hsame ?_ nofun
      · rintro q ⟨⟩
        exact .idle (Or.inr rfl)
      · rintro q ⟨⟩ hhub
        exact absurd rfl hhub
  | fails howes => exact h.answer hi ht h.numbered nofun hsame nofun (forItself_failure _)
  | makes =>
      refine h.answer hi ht h.numbered ?_ ?_ ?_ nofun
      · rintro q ⟨⟩
        refine ⟨?_, nofun, nofun⟩
        rintro own ⟨⟩
        rfl
      · intro j q _ hj
        have hq := h.fits j q hj
        refine ⟨?_, hq.own, hq.listens⟩
        rintro own rfl
        exact absurd hj (hquiet hi j own)
      · rintro q ⟨⟩ hhub
        exact absurd rfl hhub
  | opens hgood hid =>
      have hnone := hquiet ⟨_, hi⟩ hgood
      obtain rfl := Option.some.inj ((hp.made _ rfl).symm.trans hid)
      refine h.answer hi ht h.numbered.newEventHub ?_ ?_ ?_ nofun
      · rintro q ⟨⟩
        refine ⟨nofun, ?_, ?_⟩
        · rintro _ _ _ _ _ ⟨⟩
          rfl
        · rintro hub ⟨⟩
          exact h.numbered.listens
      · intro j q _ hj
        exact (h.fits j q hj).of_hub_none rfl (hnone j q hj)
      · intro q _ _
        exact Or.inr hnone
  | connectFails hgood =>
      have hnone := hquiet ⟨_, hi⟩ hgood
      refine h.answer hi ht h.numbered.newEventHub nofun ?_ nofun (forItself_failure _)
      intro j q _ hj
      exact (h.fits j q hj).of_hub_none rfl (hnone j q hj)
  | replied =>
      refine h.answer hi ht h.numbered ?_ hsame ?_ nofun
      · rintro q ⟨⟩
        refine ⟨nofun, ?_, hp.listens⟩
        rintro _ _ _ _ _ ⟨⟩
        exact hp.own _ _ _ _ _ rfl
      · intro q _ _
        exact Or.inl nofun
  | orders =>
      exact h.answer hi ht h.numbered nofun hsame nofun
        (forItself_ordered _ (hp.own _ _ _ _ _ rfl))
  | rejected =>
      refine h.answer hi ht h.numbered ?_ hsame ?_ (forItself_failure _)
      · rintro q ⟨⟩
        exact ⟨nofun, nofun, hp.listens⟩
      · intro q _ _
        exact Or.inl nofun
  | heard hvalid =>
      refine h.answer hi ht h.numbered.disconnect ?_ (h.others_disconnect hi nofun) ?_ nofun
      · rintro q ⟨⟩
        refine ⟨nofun, ?_, nofun⟩
        rintro _ _ _ _ _ ⟨⟩
        exact hp.own _ _ _ _ _ rfl
      · rintro q ⟨⟩ hhub
        exact absurd rfl hhub
  | heardLast hvalid =>
      exact h.answer hi ht h.numbered.disconnect nofun (h.others_disconnect hi nofun) nofun
        (forItself_ordered _ (hp.own _ _ _ _ _ rfl))
  | invalid =>
      exact h.answer hi ht h.numbered.disconnect nofun (h.others_disconnect hi nofun) nofun
        (forItself_failure _)
  | heardLate =>
      exact h.answer hi ht h.numbered.disconnect nofun (h.others_disconnect hi nofun) nofun nofun
  | timedOut =>
      refine h.answer hi ht h.numbered.disconnect ?_ (h.others_disconnect hi nofun) ?_
        (forItself_failure _)
      · exact fun q => fits_timedOut (hp.listens _ rfl)
      · intro q _ _
        exact Or.inl nofun
  | timedOutLate =>
      refine h.answer hi ht h.numbered.disconnect ?_ (h.others_disconnect hi nofun) ?_ nofun
      · exact fun q => fits_timedOut (hp.listens _ rfl)
      · intro q _ _
        exact Or.inl nofun

theorem orderly_next {s : Server} (e : Turns.Event Waiting Answer) (hquiet : Undisturbed s e)
    (h : Orderly s) : Orderly (Turns.next (turn codes) s e) := by
  cases e with
  | start p =>
      obtain rfl : p = .getOrgAdmin := hquiet
      refine ⟨h.numbered, ?_, ?_, h.done⟩
      · intro i q hq
        rw [Turns.process_start] at hq
        split at hq
        · cases hq
          exact .idle (Or.inl rfl)
        · exact h.fits i q hq
      · intro i j q q' hq hq' hhub hhub'
        rw [Turns.process_start] at hq hq'
        split at hq
        · cases hq
          exact absurd rfl hhub
        · split at hq'
          · cases hq'
            exact absurd rfl hhub'
          · exact h.one i j q q' hq hq' hhub hhub'
  | answer i a =>
      cases hi : s.process i with
      | none =>
          rw [Turns.next_answer_none hi]
          exact h
      | some p => exact orderly_answer h hi hquiet

theorem orderly_start : Orderly start where
  numbered := ⟨nofun, nofun⟩
  fits := nofun
  one := nofun
  done := nofun

/-- **Deployments that do not disturb each other.** Where ids are made and hubs
opened one deployment at a time, and whatever else overlaps, a deployment that is
answered with success has listened for its own transaction, and none that listens
has had its hub disconnected. -/
theorem own_of_undisturbed (codes : ℕ → String) {events : List (Turns.Event Waiting Answer)}
    (hquiet : Runs.Along (Turns.next (turn codes)) Undisturbed start events) :
    (∀ own deployId, .success own deployId ∈ (serve codes start events).done → deployId = own) ∧
      ∀ i p hub, (serve codes start events).process i = some p → p.hub = some hub →
        hub ∉ (serve codes start events).shared.disconnected := by
  have h : Orderly (serve codes start events) :=
    Runs.invariant_of_along Orderly (fun _ e => orderly_next e) orderly_start hquiet
  constructor
  · intro own deployId hmem
    exact h.done _ hmem
  · intro i p hub hi hhub
    exact ((h.fits i p hi).listens hub hhub).2

/-- The second deployment asks for endorsements while the first waits for its
commit, and does not get them. -/
theorem own_of_undisturbed_two :
    let events : List (Turns.Event Waiting Answer) := [.start .getOrgAdmin, .start .getOrgAdmin,
      .answer 0 .user, .answer 1 .user, .answer 0 (.initialized none),
      .answer 0 (.results [true] none), .answer 1 (.initialized none),
      .answer 1 (.results [false] none), .answer 0 .committed, .answer 0 (.status "SUCCESS")]
    let s := serve (fun _ => "VALID") start events
    (∀ own deployId, .success own deployId ∈ s.done → deployId = own) ∧
      ∀ i p hub, s.process i = some p → p.hub = some hub → hub ∉ s.shared.disconnected := by
  refine own_of_undisturbed (fun _ => "VALID") ⟨rfl, rfl, trivial, trivial, ?_, ?_, ?_, ?_, trivial,
    trivial, trivial⟩
  · rintro - (_ | _ | j) own ⟨⟩
  · rintro - - (_ | _ | j) p ⟨⟩
    · rfl
    · rfl
  · rintro - (_ | _ | j) own ⟨⟩
  · rintro - ⟨-, hgood⟩
    cases hgood

end Runs

end Pepal.Rest.Instantiate

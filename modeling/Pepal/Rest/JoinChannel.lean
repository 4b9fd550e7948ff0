import Pepal.Lib.Turns

/-!
# Joins that overlap

`app/join-channel.js` opens one event hub for each peer that is to join a channel
and waits for the answers of the peers and for a block of the channel from each
hub. All hubs of all joins are in the list `allEventhubs` of the module, and a
join that ends disconnects every hub in the list that is connected, which takes
the listeners of the other joins away.

A join that fails is not answered at all: nobody catches the rejection. And where
a timer or a block of another channel rejects, there is no error whose stack could
be logged, so that an exception comes before the hubs are disconnected.

Hubs are numbered in the order in which they are opened.
-/

namespace Pepal.Rest.Join

/-- The hubs opened so far, those of them that are connected, and those that have
been disconnected. -/
structure Variables where
  hubs : ℕ
  connected : List ℕ
  closed : List ℕ

/-- The promise of a hub: whether its timer runs and whether it is fulfilled. -/
structure Listener where
  hub : ℕ
  timer : Bool
  resolved : Bool
deriving DecidableEq

/-- What a join waits for. Of the peers' answers it looks at the first only, whether
that has status 200. -/
inductive Waiting where
  | getOrgAdmin
  | getGenesisBlock
  | joining (listeners : List Listener) (response : Option Bool)
  /-- the join has ended, and its hubs are in the list -/
  | left (hubs : List ℕ)
deriving DecidableEq

inductive Answer where
  | error
  | user
  /-- the hubs that are opened, and whether there is an exception after them -/
  | genesisBlock (opened : ℕ) (thrown : Bool)
  | responses (good : Bool)
  | connected (hub : ℕ)
  /-- a block, and if it has one transaction, whether that is of the channel -/
  | block (hub : ℕ) (fits : Option Bool)
  | timeout (hub : ℕ)
  /-- the peer ends the connection -/
  | lost (hub : ℕ)
deriving DecidableEq

/-- The one answer that a request can have. -/
inductive Deed where
  | success
deriving DecidableEq

abbrev Turn : Type := Turns.Turn Variables Waiting Deed

abbrev Server : Type := Turns.System Variables Waiting Deed

def ends (v : Variables) (hubs : List ℕ) : Turn := ⟨v, some (.left hubs), []⟩

def waits (v : Variables) (p : Waiting) : Turn := ⟨v, some p, []⟩

/-- The peer has registered the hub. -/
def Variables.connect (v : Variables) (hub : ℕ) : Variables :=
  { v with connected := hub :: v.connected }

/-- `eventhub.disconnect()` -/
def Variables.disconnect (v : Variables) (hub : ℕ) : Variables :=
  { v with connected := v.connected.filter (· ≠ hub), closed := hub :: v.closed }

/-- The loop over `allEventhubs`, and whether `disconnect` has thrown in it: it
signs with the user context of the client, which may be gone. -/
def disconnectAll (throws : ℕ → Bool) : List ℕ → Variables → Variables × Bool
  | [], v => (v, false)
  | hub :: hubs, v =>
      if hub ∈ v.connected then
        if throws hub then (v.disconnect hub, true)
        else disconnectAll throws hubs (v.disconnect hub)
      else disconnectAll throws hubs v

def closeConnections (throws : ℕ → Bool) (v : Variables) : Variables × Bool :=
  disconnectAll throws (List.range v.hubs) v

/-- A join that fails with an error. -/
def fails (throws : ℕ → Bool) (v : Variables) (hubs : List ℕ) : Turn :=
  ends (closeConnections throws v).1 hubs

def hubsOf (listeners : List Listener) : List ℕ := listeners.map Listener.hub

/-- `Promise.all`, and the handler of the results. -/
def settle (throws : ℕ → Bool) (listeners : List Listener) (response : Option Bool)
    (v : Variables) : Turn :=
  match response with
  | some good =>
      if listeners.all Listener.resolved then
        let (v', thrown) := closeConnections throws v
        ⟨v', some (.left (hubsOf listeners)), if good ∧ thrown = false then [.success] else []⟩
      else waits v (.joining listeners response)
  | none => waits v (.joining listeners response)

def clear (hub : ℕ) (l : Listener) : Listener :=
  if l.hub = hub then { l with timer := false } else l

def resolve (hub : ℕ) (l : Listener) : Listener :=
  if l.hub = hub then { l with timer := false, resolved := true } else l

/-- The listener gets a block. -/
def heard (throws : ℕ → Bool) (listeners : List Listener) (response : Option Bool) (hub : ℕ)
    (fits : Option Bool) (v : Variables) : Turn :=
  match fits with
  | none => waits v (.joining (listeners.map (clear hub)) response)
  | some true => settle throws (listeners.map (resolve hub)) response v
  | some false =>
      -- the rejection is without effect where the promise is fulfilled
      if ∃ l ∈ listeners, l.hub = hub ∧ l.resolved = false then ends v (hubsOf listeners)
      else waits v (.joining (listeners.map (clear hub)) response)

/-- The listeners for hubs that have just been opened. -/
def opens (hubs opened : ℕ) : List Listener :=
  (List.range opened).map fun k => { hub := hubs + k, timer := true, resolved := false }

def Waiting.hubs : Waiting → List ℕ
  | .joining listeners _ => hubsOf listeners
  | .left hubs => hubs
  | _ => []

/-- The hub is one of the join's and has not been disconnected. -/
def Listens (v : Variables) (p : Waiting) (hub : ℕ) : Prop := hub ∈ p.hubs ∧ hub ∉ v.closed

instance (v : Variables) (p : Waiting) (hub : ℕ) : Decidable (Listens v p hub) :=
  inferInstanceAs (Decidable (_ ∧ _))

/-- A turn of a join. `throws` says for which hubs `disconnect` throws. -/
def turn (throws : ℕ → Bool) (p : Waiting) (answer : Answer) (v : Variables) : Turn :=
  match p, answer with
  | .getOrgAdmin, .error => fails throws v []
  | .getOrgAdmin, .user => waits v .getGenesisBlock
  | .getGenesisBlock, .error => fails throws v []
  | .getGenesisBlock, .genesisBlock opened thrown =>
      let v' := { v with hubs := v.hubs + opened }
      if thrown then fails throws v' (hubsOf (opens v.hubs opened))
      else waits v' (.joining (opens v.hubs opened) none)
  | .joining listeners none, .error => fails throws v (hubsOf listeners)
  | .joining listeners none, .responses good => settle throws listeners (some good) v
  | .joining listeners response, .block hub fits =>
      if Listens v (.joining listeners response) hub then heard throws listeners response hub fits v
      else waits v (.joining listeners response)
  | .joining listeners response, .timeout hub =>
      if ∃ l ∈ listeners, l.hub = hub ∧ l.timer = true then ends v (hubsOf listeners)
      else waits v (.joining listeners response)
  | p, .connected hub => if Listens v p hub then waits (v.connect hub) p else waits v p
  | p, .lost hub => if Listens v p hub then waits (v.disconnect hub) p else waits v p
  | p, _ => waits v p

def start : Server :=
  { shared := { hubs := 0, connected := [], closed := [] }, processes := [], done := [] }

def serve (throws : ℕ → Bool) (s : Server) (events : List (Turns.Event Waiting Answer)) : Server :=
  Runs.run (Turns.next (turn throws)) s events

/-! ## What a turn can do -/

/-- One of the listeners still waits for a block from the hub. -/
def Waits (listeners : List Listener) (hub : ℕ) : Prop :=
  ∃ l ∈ listeners, l.hub = hub ∧ l.resolved = false

theorem Waits.mem_hubsOf {listeners : List Listener} {hub : ℕ} (h : Waits listeners hub) :
    hub ∈ hubsOf listeners := by
  obtain ⟨l, hl, rfl, -⟩ := h
  exact List.mem_map_of_mem hl

/-- What a join that waits still needs. -/
inductive Needs : Waiting → Answer → Prop
  | responses {listeners : List Listener} {response : Option Bool} (h : response ≠ some true) :
      Needs (.joining listeners response) (.responses true)
  | block {listeners : List Listener} {response : Option Bool} {hub : ℕ}
      (h : Waits listeners hub) : Needs (.joining listeners response) (.block hub (some true))

/-- The join has opened its hubs and can still be answered. -/
inductive Open (v : Variables) : Waiting → Prop
  | joining {listeners : List Listener} {response : Option Bool} (hgood : response ≠ some false)
      (hopen : ∀ hub, Waits listeners hub → hub ∉ v.closed)
      (hneeds : ∃ b, Needs (.joining listeners response) b) : Open v (.joining listeners response)

/-- What rejects without an error. -/
inductive Rejects : Answer → Prop
  | timeout (hub : ℕ) : Rejects (.timeout hub)
  | block (hub : ℕ) : Rejects (.block hub (some false))

/-- Everything that a turn can do. -/
inductive Happens (throws : ℕ → Bool) (v : Variables) : Waiting → Answer → Turn → Prop
  | stays {p : Waiting} {a : Answer} (h : Open v p → ¬ Needs p a) : Happens throws v p a (waits v p)
  | connects {p : Waiting} {hub : ℕ} (h : Listens v p hub) :
      Happens throws v p (.connected hub) (waits (v.connect hub) p)
  | loses {p : Waiting} {hub : ℕ} (h : Listens v p hub) :
      Happens throws v p (.lost hub) (waits (v.disconnect hub) p)
  | starts : Happens throws v .getOrgAdmin .user (waits v .getGenesisBlock)
  | opens {opened : ℕ} : Happens throws v .getGenesisBlock (.genesisBlock opened false)
      (waits { v with hubs := v.hubs + opened } (.joining (opens v.hubs opened) none))
  | stops {p : Waiting} {a : Answer} (opened : ℕ) (hp : p = .getOrgAdmin ∨ p = .getGenesisBlock)
      (ha : ¬ Rejects a) : Happens throws v p a
        (fails throws { v with hubs := v.hubs + opened } (hubsOf (opens v.hubs opened)))
  | fails {listeners : List Listener} :
      Happens throws v (.joining listeners none) .error (fails throws v (hubsOf listeners))
  | responds {listeners : List Listener} {good : Bool} :
      Happens throws v (.joining listeners none) (.responses good)
        (settle throws listeners (some good) v)
  | hears {listeners : List Listener} {response : Option Bool} {hub : ℕ}
      (h : Listens v (.joining listeners response) hub) :
      Happens throws v (.joining listeners response) (.block hub (some true))
        (settle throws (listeners.map (resolve hub)) response v)
  | clears {listeners : List Listener} {response : Option Bool} {hub : ℕ} {fits : Option Bool}
      (hfits : fits ≠ some true) : Happens throws v (.joining listeners response) (.block hub fits)
        (waits v (.joining (listeners.map (clear hub)) response))
  | rejects {listeners : List Listener} {response : Option Bool} {a : Answer} (h : Rejects a) :
      Happens throws v (.joining listeners response) a (ends v (hubsOf listeners))

theorem happens (throws : ℕ → Bool) (p : Waiting) (a : Answer) (v : Variables) :
    Happens throws v p a (turn throws p a v) := by
  unfold turn
  split
  case h_1 => exact .stops 0 (Or.inl rfl) nofun
  case h_2 => exact .starts
  case h_3 => exact .stops 0 (Or.inr rfl) nofun
  case h_4 =>
    rename_i opened thrown
    cases thrown with
    | true => exact .stops opened (Or.inr rfl) nofun
    | false => exact .opens
  case h_5 => exact .fails
  case h_6 => exact .responds
  case h_7 =>
    split
    · unfold heard
      split
      · exact .clears nofun
      · exact .hears ‹_›
      · split
        · exact .rejects (.block _)
        · exact .clears nofun
    · rename_i hub fits hdeaf
      refine .stays ?_
      rintro (⟨-, hopen, -⟩) (h | h)
      exact hdeaf ⟨h.mem_hubsOf, hopen hub h⟩
  case h_8 =>
    split
    · exact .rejects (.timeout _)
    · exact .stays nofun
  case h_9 =>
    split
    · exact .connects ‹_›
    · exact .stays nofun
  case h_10 =>
    split
    · exact .loses ‹_›
    · exact .stays nofun
  case h_11 =>
    rename_i hresponses hblock _
    refine .stays ?_
    rintro (@⟨listeners, response, hgood, -, -⟩) (h | h)
    · match response with
      | none => exact hresponses _ _ rfl rfl
      | some false => exact hgood rfl
      | some true => exact h rfl
    · exact hblock _ _ _ _ rfl rfl

/-- Everything that `settle` can do. -/
inductive Settles (throws : ℕ → Bool) (v : Variables) (listeners : List Listener) :
    Option Bool → Turn → Prop
  | waits {response : Option Bool} {b : Answer} (h : Needs (.joining listeners response) b) :
      Settles throws v listeners response (waits v (.joining listeners response))
  | ends {good : Bool} (hall : ∀ l ∈ listeners, l.resolved = true) :
      Settles throws v listeners (some good)
        ⟨(closeConnections throws v).1, some (.left (hubsOf listeners)),
          if good ∧ (closeConnections throws v).2 = false then [.success] else []⟩

theorem settles (throws : ℕ → Bool) (v : Variables) (listeners : List Listener)
    (response : Option Bool) :
    Settles throws v listeners response (settle throws listeners response v) := by
  unfold settle
  split
  · split
    · rename_i hall
      exact .ends (List.all_eq_true.mp hall)
    · rename_i hall
      have hpending : ∃ l ∈ listeners, l.resolved = false := by
        simpa only [List.all_eq_true, not_forall, Bool.not_eq_true, exists_prop] using hall
      obtain ⟨l, hl, hl'⟩ := hpending
      exact .waits (.block ⟨l, hl, rfl, hl'⟩)
  · exact .waits (.responses nofun)

section Runs

variable {throws : ℕ → Bool} {v : Variables} {p : Waiting} {a : Answer} {hub : ℕ}
  {listeners : List Listener} {response : Option Bool}

/-! ## Hubs that are disconnected -/

theorem closed_disconnectAll (h : hub ∈ v.closed) (hubs : List ℕ) :
    hub ∈ (disconnectAll throws hubs v).1.closed := by
  induction hubs generalizing v with
  | nil => exact h
  | cons hub' hubs ih =>
      have hstays : hub ∈ (v.disconnect hub').closed := List.mem_cons_of_mem _ h
      unfold disconnectAll
      split
      · split
        · exact hstays
        · exact ih hstays
      · exact ih h

theorem disconnectAll_silent (hthrows : ∀ hub, throws hub = false) (hubs : List ℕ)
    (v : Variables) : (disconnectAll throws hubs v).2 = false := by
  induction hubs generalizing v with
  | nil => rfl
  | cons hub hubs ih =>
      unfold disconnectAll
      rw [hthrows hub, if_neg Bool.false_ne_true]
      split
      · exact ih _
      · exact ih v

/-- Where nothing throws, every hub in the list that is connected is disconnected. -/
theorem disconnectAll_closes (hthrows : ∀ hub, throws hub = false) {hubs : List ℕ}
    (hmem : hub ∈ hubs) (hconnected : hub ∈ v.connected) :
    hub ∈ (disconnectAll throws hubs v).1.closed := by
  induction hubs generalizing v with
  | nil => cases hmem
  | cons hub' hubs ih =>
      unfold disconnectAll
      rw [hthrows hub', if_neg Bool.false_ne_true]
      by_cases heq : hub = hub'
      · subst heq
        rw [if_pos hconnected]
        exact closed_disconnectAll List.mem_cons_self hubs
      · have hrest := (List.mem_cons.mp hmem).resolve_left heq
        split
        · refine ih hrest (List.mem_filter.mpr ⟨hconnected, ?_⟩)
          exact decide_eq_true heq
        · exact ih hrest hconnected

theorem closed_settle (h : hub ∈ v.closed) (listeners : List Listener) (response : Option Bool) :
    hub ∈ (settle throws listeners response v).shared.closed := by
  have hsettle := settles throws v listeners response
  generalize settle throws listeners response v = t at hsettle
  cases hsettle with
  | waits _ => exact h
  | ends _ => exact closed_disconnectAll h _

/-- A hub that is disconnected stays so. -/
theorem closed_turn (h : hub ∈ v.closed) : hub ∈ (turn throws p a v).shared.closed := by
  have hturn := happens throws p a v
  generalize turn throws p a v = t at hturn
  cases hturn with
  | stays _ => exact h
  | connects _ => exact h
  | loses _ => exact List.mem_cons_of_mem _ h
  | starts => exact h
  | opens => exact h
  | stops opened _ _ => exact closed_disconnectAll (v := { v with hubs := v.hubs + opened }) h _
  | fails => exact closed_disconnectAll h _
  | responds => exact closed_settle h _ _
  | hears _ => exact closed_settle h _ _
  | clears _ => exact h
  | rejects _ => exact h

/-! ## Hubs are numbered as they are opened -/

/-- The hub is connected or has been disconnected. -/
def Known (v : Variables) (hub : ℕ) : Prop := hub ∈ v.connected ∨ hub ∈ v.closed

/-- The hubs that are known, and those of the join, have been opened. -/
structure Opened (v : Variables) (t : Turn) : Prop where
  more : v.hubs ≤ t.shared.hubs
  known : ∀ hub, Known t.shared hub → hub < t.shared.hubs
  hubs : ∀ q, t.process = some q → ∀ hub ∈ q.hubs, hub < t.shared.hubs

theorem mem_hubsOf_opens {hubs opened : ℕ} (h : hub ∈ hubsOf (opens hubs opened)) :
    hubs ≤ hub ∧ hub < hubs + opened := by
  unfold hubsOf opens at h
  rw [List.map_map] at h
  obtain ⟨k, hk, rfl⟩ := List.mem_map.mp h
  exact ⟨Nat.le_add_right _ _, Nat.add_lt_add_left (List.mem_range.mp hk) hubs⟩

theorem clear_hub (hub : ℕ) (l : Listener) : (clear hub l).hub = l.hub := by
  unfold clear
  split
  · rfl
  · rfl

theorem resolve_hub (hub : ℕ) (l : Listener) : (resolve hub l).hub = l.hub := by
  unfold resolve
  split
  · rfl
  · rfl

theorem hubsOf_map {f : Listener → Listener} (hf : ∀ l, (f l).hub = l.hub)
    (listeners : List Listener) : hubsOf (listeners.map f) = hubsOf listeners := by
  unfold hubsOf
  rw [List.map_map]
  exact List.map_congr_left fun l _ => hf l

theorem hubs_disconnectAll (throws : ℕ → Bool) (hubs : List ℕ) (v : Variables) :
    (disconnectAll throws hubs v).1.hubs = v.hubs := by
  induction hubs generalizing v with
  | nil => rfl
  | cons hub hubs ih =>
      unfold disconnectAll
      split
      · split
        · rfl
        · exact ih _
      · exact ih v

theorem Known.of_disconnect {hub' : ℕ} (h : Known (v.disconnect hub') hub) :
    Known v hub ∨ hub = hub' := by
  rcases h with h | h
  · exact Or.inl (Or.inl (List.mem_filter.mp h).1)
  · exact (List.mem_cons.mp h).symm.imp_left Or.inr

theorem Known.of_disconnectAll {hubs : List ℕ} (h : Known (disconnectAll throws hubs v).1 hub) :
    Known v hub := by
  induction hubs generalizing v with
  | nil => exact h
  | cons hub' hubs ih =>
      unfold disconnectAll at h
      split at h
      · rename_i hconnected
        have hknown : Known (v.disconnect hub') hub := by
          split at h
          · exact h
          · exact ih h
        rcases hknown.of_disconnect with hknown | rfl
        · exact hknown
        · exact Or.inl hconnected
      · exact ih h

theorem opened_waits {v' : Variables} (hmore : v.hubs ≤ v'.hubs)
    (hknown : ∀ hub, Known v' hub → hub < v'.hubs) (hhubs : ∀ hub ∈ p.hubs, hub < v'.hubs) :
    Opened v (waits v' p) where
  more := hmore
  known := hknown
  hubs := fun _ hq => Option.some.inj hq ▸ hhubs

theorem opened_closes {v' : Variables} {hubs : List ℕ} (hmore : v.hubs ≤ v'.hubs)
    (hknown : ∀ hub, Known v' hub → hub < v'.hubs) (hhubs : ∀ hub ∈ hubs, hub < v'.hubs)
    (ds : List Deed) : Opened v ⟨(closeConnections throws v').1, some (.left hubs), ds⟩ where
  more := (hubs_disconnectAll throws _ v').symm ▸ hmore
  known := by
    intro hub hhub
    rw [closeConnections, hubs_disconnectAll]
    exact hknown hub hhub.of_disconnectAll
  hubs := by
    intro q hq
    obtain rfl := Option.some.inj hq
    rw [closeConnections, hubs_disconnectAll]
    exact hhubs

theorem opened_settle (hhubs : ∀ hub ∈ hubsOf listeners, hub < v.hubs)
    (hknown : ∀ hub, Known v hub → hub < v.hubs) (response : Option Bool) :
    Opened v (settle throws listeners response v) := by
  have hsettle := settles throws v listeners response
  generalize settle throws listeners response v = t at hsettle
  cases hsettle with
  | waits _ => exact opened_waits (Nat.le_refl _) hknown hhubs
  | ends _ => exact opened_closes (Nat.le_refl _) hknown hhubs _

theorem opened_turn (hhubs : ∀ hub ∈ p.hubs, hub < v.hubs)
    (hknown : ∀ hub, Known v hub → hub < v.hubs) : Opened v (turn throws p a v) := by
  have hturn := happens throws p a v
  generalize turn throws p a v = t at hturn
  have hle : v.hubs ≤ v.hubs := Nat.le_refl _
  have hmore : ∀ opened hub : ℕ, Known v hub → hub < v.hubs + opened :=
    fun opened hub hhub => Nat.lt_add_right opened (hknown hub hhub)
  cases hturn with
  | stays _ => exact opened_waits hle hknown hhubs
  | connects h =>
      refine opened_waits hle (fun hub' hhub' => ?_) hhubs
      rcases hhub' with hhub' | hhub'
      · rcases List.mem_cons.mp hhub' with rfl | hhub'
        · exact hhubs _ h.1
        · exact hknown hub' (Or.inl hhub')
      · exact hknown hub' (Or.inr hhub')
  | loses h =>
      refine opened_waits hle (fun hub' hhub' => ?_) hhubs
      rcases hhub'.of_disconnect with hhub' | rfl
      · exact hknown hub' hhub'
      · exact hhubs _ h.1
  | starts => exact opened_waits hle hknown hhubs
  | @opens opened =>
      exact opened_waits (Nat.le_add_right _ _) (hmore opened)
        fun _ hhub => (mem_hubsOf_opens hhub).2
  | stops opened _ _ =>
      exact opened_closes (Nat.le_add_right _ _) (hmore opened)
        (fun _ hhub => (mem_hubsOf_opens hhub).2) _
  | fails => exact opened_closes hle hknown hhubs _
  | responds => exact opened_settle hhubs hknown _
  | hears _ =>
      refine opened_settle ?_ hknown _
      rw [hubsOf_map (resolve_hub _)]
      exact hhubs
  | clears _ =>
      refine opened_waits hle hknown ?_
      rw [Waiting.hubs, hubsOf_map (clear_hub _)]
      exact hhubs
  | rejects _ =>
      refine ⟨hle, hknown, fun q hq => ?_⟩
      obtain rfl := Option.some.inj hq
      exact hhubs

theorem hubs_settle {q : Waiting} (hq : (settle throws listeners response v).process = some q) :
    q.hubs = hubsOf listeners := by
  have hsettle := settles throws v listeners response
  generalize settle throws listeners response v = t at hsettle hq
  cases hsettle with
  | waits _ =>
      obtain rfl := Option.some.inj hq
      rfl
  | ends _ =>
      obtain rfl := Option.some.inj hq
      rfl

/-- A join keeps its hubs or opens new ones. -/
theorem hubs_turn {q : Waiting} (hq : (turn throws p a v).process = some q) (hmem : hub ∈ q.hubs) :
    hub ∈ p.hubs ∨ v.hubs ≤ hub := by
  have hturn := happens throws p a v
  generalize turn throws p a v = t at hturn hq
  cases hturn with
  | stays _ => exact Or.inl (Option.some.inj hq ▸ hmem)
  | connects _ => exact Or.inl (Option.some.inj hq ▸ hmem)
  | loses _ => exact Or.inl (Option.some.inj hq ▸ hmem)
  | starts =>
      obtain rfl := Option.some.inj hq
      cases hmem
  | opens =>
      obtain rfl := Option.some.inj hq
      exact Or.inr (mem_hubsOf_opens hmem).1
  | stops _ _ _ =>
      obtain rfl := Option.some.inj hq
      exact Or.inr (mem_hubsOf_opens hmem).1
  | fails =>
      obtain rfl := Option.some.inj hq
      exact Or.inl hmem
  | responds =>
      rw [hubs_settle hq] at hmem
      exact Or.inl hmem
  | hears _ =>
      rw [hubs_settle hq, hubsOf_map (resolve_hub _)] at hmem
      exact Or.inl hmem
  | clears _ =>
      obtain rfl := Option.some.inj hq
      rw [Waiting.hubs, hubsOf_map (clear_hub _)] at hmem
      exact Or.inl hmem
  | rejects _ =>
      obtain rfl := Option.some.inj hq
      exact Or.inl hmem

/-- Every hub that a join has, or that is known, has been opened, and no two joins
have one in common. -/
structure Numbered (s : Server) : Prop where
  known : ∀ hub, Known s.shared hub → hub < s.shared.hubs
  hubs : ∀ i p, s.process i = some p → ∀ hub ∈ p.hubs, hub < s.shared.hubs
  apart : ∀ i j p q, s.process i = some p → s.process j = some q → i ≠ j → ∀ hub ∈ p.hubs,
    hub ∉ q.hubs

theorem numbered_start : Numbered start where
  known := by
    rintro hub (h | h)
    · cases h
    · cases h
  hubs := by
    intro i p hp
    rw [Turns.System.process, start, List.getElem?_nil] at hp
    cases hp
  apart := by
    intro i j p q hp
    rw [Turns.System.process, start, List.getElem?_nil] at hp
    cases hp

theorem numbered_next {s : Server} {e : Turns.Event Waiting Answer}
    (he : Turns.Within (· = .getOrgAdmin) (fun _ => True) e) (h : Numbered s) :
    Numbered (Turns.next (turn throws) s e) := by
  cases e with
  | start p =>
      obtain rfl : p = .getOrgAdmin := he
      have hnew : ∀ i q, (Turns.next (turn throws) s (.start .getOrgAdmin)).process i = some q →
          s.process i = some q ∨ q.hubs = [] := by
        intro i q hq
        rw [Turns.process_start] at hq
        split at hq
        · obtain rfl := Option.some.inj hq
          exact Or.inr rfl
        · exact Or.inl hq
      refine ⟨h.known, fun i q hq hub hhub => ?_, fun i j q q' hq hq' hne hub hhub hhub' => ?_⟩
      · rcases hnew i q hq with hq | hnone
        · exact h.hubs i q hq hub hhub
        · rw [hnone] at hhub
          cases hhub
      · rcases hnew i q hq with hq | hnone
        · rcases hnew j q' hq' with hq' | hnone'
          · exact h.apart i j q q' hq hq' hne hub hhub hhub'
          · rw [hnone'] at hhub'
            cases hhub'
        · rw [hnone] at hhub
          cases hhub
  | answer i a =>
      cases hi : s.process i with
      | none =>
          rw [Turns.next_answer_none hi]
          exact h
      | some p =>
          have hturn : Opened s.shared (turn throws p a s.shared) :=
            opened_turn (h.hubs i p hi) h.known
          -- the hubs of the join are its old ones, or newer than those of the others
          have hother : ∀ j q q', j ≠ i → s.process j = some q →
              (turn throws p a s.shared).process = some q' → ∀ hub ∈ q'.hubs, hub ∉ q.hubs := by
            intro j q q' hne hj hq' hub hhub hhub'
            rcases hubs_turn hq' hhub with hold | hnew
            · exact h.apart j i q p hj hi hne hub hhub' hold
            · exact Nat.not_lt_of_le hnew (h.hubs j q hj hub hhub')
          refine ⟨?_, fun j q hq => ?_, fun j k q q' hq hq' hne hub hhub hhub' => ?_⟩
          · rw [Turns.next_answer hi]
            exact hturn.known
          · rw [Turns.process_answer hi] at hq
            rw [Turns.next_answer hi]
            split at hq
            · exact hturn.hubs q hq
            · exact fun hub hhub => Nat.lt_of_lt_of_le (h.hubs j q hq hub hhub) hturn.more
          · rw [Turns.process_answer hi] at hq hq'
            split at hq
            · split at hq'
              · exact hne ((‹j = i›).trans (‹k = i›).symm)
              · exact hother k q' q ‹_› hq' hq hub hhub hhub'
            · split at hq'
              · exact hother j q q' ‹_› hq hq' hub hhub' hhub
              · exact h.apart j k q q' hq hq' hne hub hhub hhub'

theorem numbered_serve {events : List (Turns.Event Waiting Answer)}
    (hin : ∀ p, .start p ∈ events → p = .getOrgAdmin) {s : Server} (h : Numbered s) :
    Numbered (serve throws s events) := by
  induction events generalizing s with
  | nil => exact h
  | cons e events ih =>
      refine ih (fun p hp => hin p (List.mem_cons_of_mem e hp)) (numbered_next ?_ h)
      cases e with
      | start p => exact hin p List.mem_cons_self
      | answer i a => trivial

/-! ## Joins that wait for a block -/

theorem Waits.clear (h : Waits listeners hub) (hub' : ℕ) :
    Waits (listeners.map (Join.clear hub')) hub := by
  obtain ⟨l, hl, hhub, hpending⟩ := h
  refine ⟨_, List.mem_map_of_mem hl, ?_⟩
  unfold Join.clear
  split
  · exact ⟨hhub, hpending⟩
  · exact ⟨hhub, hpending⟩

theorem Waits.resolve (h : Waits listeners hub) {hub' : ℕ} (hne : hub' ≠ hub) :
    Waits (listeners.map (Join.resolve hub')) hub := by
  obtain ⟨l, hl, hhub, hpending⟩ := h
  refine ⟨_, List.mem_map_of_mem hl, ?_⟩
  have hother : ¬ l.hub = hub' := fun heq => hne (heq.symm.trans hhub)
  rw [Join.resolve, if_neg hother]
  exact ⟨hhub, hpending⟩

/-- The join has ended, or it will not be answered without this. -/
inductive Held (b : Answer) : Waiting → Prop
  | needs {p : Waiting} (h : Needs p b) : Held b p
  | left (hubs : List ℕ) : Held b (.left hubs)

/-- A block is of no use where the listener is gone. -/
def Useless (v : Variables) (b : Answer) : Prop :=
  ∃ hub, b = .block hub (some true) ∧ hub ∈ v.closed

theorem Useless.mono {b : Answer} {v' : Variables} (h : Useless v b)
    (hchanges : ∀ hub ∈ v.closed, hub ∈ v'.closed) : Useless v' b := by
  obtain ⟨hub, hblock, hclosed⟩ := h
  exact ⟨hub, hblock, hchanges hub hclosed⟩

/-- A join that has ended does nothing any more. -/
theorem left_turn (h : ∃ hubs, p = .left hubs) (throws : ℕ → Bool) (a : Answer) (v : Variables) :
    (turn throws p a v).done = [] ∧
      ∀ q, (turn throws p a v).process = some q → ∃ hubs, q = .left hubs := by
  obtain ⟨hubs, rfl⟩ := h
  have hturn := happens throws (.left hubs) a v
  generalize turn throws (.left hubs) a v = t at hturn
  cases hturn with
  | stays _ => exact ⟨rfl, fun q hq => ⟨hubs, (Option.some.inj hq).symm⟩⟩
  | connects _ => exact ⟨rfl, fun q hq => ⟨hubs, (Option.some.inj hq).symm⟩⟩
  | loses _ => exact ⟨rfl, fun q hq => ⟨hubs, (Option.some.inj hq).symm⟩⟩
  | stops _ hp _ => rcases hp with hp | hp <;> cases hp

theorem settle_of_needs {b : Answer} (hb : Needs (.joining listeners response) b) (v : Variables) :
    (∀ q, (settle throws listeners response v).process = some q → Held b q) ∧
      (settle throws listeners response v).done = [] := by
  have hsettle := settles throws v listeners response
  generalize settle throws listeners response v = t at hsettle
  cases hsettle with
  | waits _ => exact ⟨fun q hq => Option.some.inj hq ▸ .needs hb, rfl⟩
  | @ends good hall =>
      cases hb with
      | block h =>
          obtain ⟨l, hl, -, hpending⟩ := h
          rw [hall l hl] at hpending
          cases hpending
      | responses h =>
          refine ⟨fun q hq => Option.some.inj hq ▸ .left _, if_neg ?_⟩
          rintro ⟨hgood, -⟩
          exact h (congrArg some hgood)

/-- What a join needs it needs until it gets it. -/
theorem held_turn {b : Answer} (hp : Held b p) (ha : Useless v b ∨ a ≠ b) :
    (∀ q, (turn throws p a v).process = some q → Held b q) ∧ (turn throws p a v).done = [] := by
  cases hp with
  | left hubs =>
      obtain ⟨hdone, hleft⟩ := left_turn ⟨hubs, rfl⟩ throws a v
      refine ⟨fun q hq => ?_, hdone⟩
      obtain ⟨hubs', rfl⟩ := hleft q hq
      exact .left hubs'
  | needs hb =>
      have hturn := happens throws p a v
      generalize turn throws p a v = t at hturn
      cases hturn with
      | stays _ => exact ⟨fun q hq => Option.some.inj hq ▸ .needs hb, rfl⟩
      | connects _ => exact ⟨fun q hq => Option.some.inj hq ▸ .needs hb, rfl⟩
      | loses _ => exact ⟨fun q hq => Option.some.inj hq ▸ .needs hb, rfl⟩
      | starts => cases hb
      | opens => cases hb
      | stops _ _ _ => exact ⟨fun q hq => Option.some.inj hq ▸ .left _, rfl⟩
      | fails => exact ⟨fun q hq => Option.some.inj hq ▸ .left _, rfl⟩
      | @responds listeners good =>
          refine settle_of_needs ?_ v
          cases hb with
          | block h => exact .block h
          | responses _ =>
              refine .responses fun hgood => ?_
              rcases ha with ⟨_, ⟨⟩, _⟩ | hne
              exact hne (congrArg _ (Option.some.inj hgood))
      | @hears listeners response hub' hlistens =>
          refine settle_of_needs ?_ v
          cases hb with
          | responses h => exact .responses h
          | @block _ _ hub h =>
              refine .block (h.resolve ?_)
              rintro rfl
              rcases ha with ⟨_, heq, hclosed⟩ | hne
              · cases heq
                exact hlistens.2 hclosed
              · exact hne rfl
      | clears _ =>
          refine ⟨fun q hq => Option.some.inj hq ▸ .needs ?_, rfl⟩
          cases hb with
          | responses h => exact .responses h
          | block h => exact .block (h.clear _)
      | rejects _ => exact ⟨fun q hq => Option.some.inj hq ▸ .left _, rfl⟩

/-- **A join is not answered without all that it needs**, and not at all once a hub
that it waits for has been disconnected. -/
theorem doneBy_of_needs {s : Server} {i : ℕ} {b : Answer} (hp : s.process i = some p)
    (hb : Needs p b) {events : List (Turns.Event Waiting Answer)}
    (h : Useless s.shared b ∨ .answer i b ∉ events) :
    Turns.doneBy (turn throws) i s events = [] := by
  have hnever : ∀ d ∈ Turns.doneBy (turn throws) i s events, False := by
    refine Turns.forall_doneBy_of_rely
      (fun v p => Held b p ∧ (Useless v b ∨ .answer i b ∉ events))
      (fun v v' => ∀ hub ∈ v.closed, hub ∈ v'.closed)
      (fun a => .answer i a ∈ events) (fun _ _ _ _ => closed_turn) ?_ ?_ (fun _ ha => ha)
      (Turns.lt_of_process hp) ?_
    · rintro v v' p hchanges ⟨hheld, huseless⟩
      exact ⟨hheld, huseless.imp_left fun h => h.mono hchanges⟩
    · rintro p a v ⟨hheld, huseless⟩ ha
      have hother : Useless v b ∨ a ≠ b := by
        refine huseless.imp_right fun hmissing => ?_
        rintro rfl
        exact hmissing ha
      obtain ⟨hstays, hdone⟩ : (∀ q, (turn throws p a v).process = some q → Held b q) ∧
          (turn throws p a v).done = [] := held_turn hheld hother
      rw [hdone]
      refine ⟨fun q hq => ⟨hstays q hq, huseless.imp_left fun h => ?_⟩, nofun⟩
      exact h.mono fun _ => closed_turn
    · intro q hq
      obtain rfl := Option.some.inj (hp.symm.trans hq)
      exact ⟨.needs hb, h⟩
  exact List.eq_nil_iff_forall_not_mem.mpr hnever

/-! ## A join that ends -/

/-- With this answer the join ends. -/
def Ends (throws : ℕ → Bool) (s : Server) (i : ℕ) (a : Answer) : Prop :=
  ∃ p, s.process i = some p ∧ (∀ hubs, p ≠ .left hubs) ∧
    ∃ hubs, (turn throws p a s.shared).process = some (.left hubs)

theorem closeConnections_closes (hthrows : ∀ hub, throws hub = false) (hlt : hub < v.hubs)
    (hconnected : hub ∈ v.connected) : hub ∈ (closeConnections throws v).1.closed :=
  disconnectAll_closes hthrows (List.mem_range.mpr hlt) hconnected

theorem settle_closes (hthrows : ∀ hub, throws hub = false) (hlt : hub < v.hubs)
    (hconnected : hub ∈ v.connected) {hubs : List ℕ}
    (hleft : (settle throws listeners response v).process = some (.left hubs)) :
    hub ∈ (settle throws listeners response v).shared.closed := by
  have hsettle := settles throws v listeners response
  generalize settle throws listeners response v = t at hsettle hleft
  cases hsettle with
  | waits _ => cases hleft
  | ends _ => exact closeConnections_closes hthrows hlt hconnected

/-- A join that ends, unless it is rejected without an error, disconnects the hubs
that are connected, whoever has opened them. -/
theorem turn_closes (hthrows : ∀ hub, throws hub = false) (hlt : hub < v.hubs)
    (hconnected : hub ∈ v.connected) (hnot : ∀ hubs, p ≠ .left hubs) (ha : ¬ Rejects a)
    {hubs : List ℕ} (hleft : (turn throws p a v).process = some (.left hubs)) :
    hub ∈ (turn throws p a v).shared.closed := by
  have hturn := happens throws p a v
  generalize turn throws p a v = t at hturn hleft
  cases hturn with
  | stays _ => exact absurd (Option.some.inj hleft) (hnot hubs)
  | connects _ => exact absurd (Option.some.inj hleft) (hnot hubs)
  | loses _ => exact absurd (Option.some.inj hleft) (hnot hubs)
  | starts => cases hleft
  | opens => cases hleft
  | stops opened _ _ =>
      exact closeConnections_closes hthrows (Nat.lt_add_right opened hlt) hconnected
  | fails => exact closeConnections_closes hthrows hlt hconnected
  | responds => exact settle_closes hthrows hlt hconnected hleft
  | hears _ => exact settle_closes hthrows hlt hconnected hleft
  | clears _ => cases hleft
  | rejects h => exact absurd h ha

/-- **A join that ends spoils the others.** Once it has ended, with a success or with
an error, a join that waits for a block from a hub that was connected is never
answered, whatever comes. -/
theorem spoiled (hthrows : ∀ hub, throws hub = false)
    {events : List (Turns.Event Waiting Answer)} (hin : ∀ p, .start p ∈ events → p = .getOrgAdmin)
    {i j : ℕ} (hp : (serve throws start events).process i = some p)
    (hwaits : Needs p (.block hub (some true)))
    (hconnected : hub ∈ (serve throws start events).shared.connected)
    (hends : Ends throws (serve throws start events) j a) (ha : ¬ Rejects a)
    (later : List (Turns.Event Waiting Answer)) :
    Turns.doneBy (turn throws) i
      (Turns.next (turn throws) (serve throws start events) (.answer j a)) later = [] := by
  have hnumbered : Numbered (serve throws start events) := numbered_serve hin numbered_start
  generalize serve throws start events = s at *
  obtain ⟨p', hj, hnot, hubs, hleft⟩ := hends
  by_cases hij : i = j
  · subst hij
    obtain rfl := Option.some.inj (hp.symm.trans hj)
    have hprocess : (Turns.next (turn throws) s (.answer i a)).process i = some (.left hubs) := by
      rw [Turns.process_answer hp, if_pos rfl, hleft]
    refine Turns.doneBy_of_over (fun p => ∃ hubs, p = .left hubs)
      (fun p a v h => left_turn h throws a v) (Turns.lt_of_process hprocess) (fun q hq => ?_) later
    exact ⟨hubs, Option.some.inj (hq.symm.trans hprocess)⟩
  · have hprocess : (Turns.next (turn throws) s (.answer j a)).process i = some p := by
      rw [Turns.process_answer hj, if_neg hij]
      exact hp
    refine doneBy_of_needs hprocess hwaits (Or.inl ⟨hub, rfl, ?_⟩)
    rw [Turns.next_answer hj]
    exact turn_closes hthrows (hnumbered.known hub (Or.inl hconnected)) hconnected hnot ha hleft

/-- A join of one peer, up to its first block. -/
def joins (i hub : ℕ) : List (Turns.Event Waiting Answer) :=
  [.answer i .user, .answer i (.genesisBlock 1 false), .answer i (.connected hub),
    .answer i (.responses true)]

def overlapping : List (Turns.Event Waiting Answer) :=
  .start .getOrgAdmin :: .start .getOrgAdmin :: (joins 0 0 ++ joins 1 1)

theorem start_mem_overlapping (h : .start p ∈ overlapping) : p = .getOrgAdmin := by
  unfold overlapping joins at h
  simpa using h

/-- The first of two joins succeeds and the second is not answered, though its block
comes. -/
theorem spoiled_second :
    let s := Turns.next (turn fun _ => false) (serve (fun _ => false) start overlapping)
      (.answer 0 (.block 0 (some true)))
    s.done = [.success] ∧
      Turns.doneBy (turn fun _ => false) 1 s [.answer 1 (.block 1 (some true))] = [] := by
  have hwaits : Needs (.joining (opens 1 1) (some true)) (.block 1 (some true)) :=
    .block ⟨_, List.mem_singleton_self _, rfl, rfl⟩
  have hends : Ends (fun _ => false) (serve (fun _ => false) start overlapping) 0
      (.block 0 (some true)) :=
    ⟨.joining (opens 0 1) (some true), rfl, nofun, [0], rfl⟩
  exact ⟨rfl, spoiled (fun _ => rfl) (fun _ => start_mem_overlapping) rfl hwaits
    List.mem_cons_self hends nofun _⟩

end Runs

end Pepal.Rest.Join

import Pepal.Rest.JoinChannel

/-!
# A join that is not disturbed

The hubs of two joins are different ones. So what a join loses without ending, it
takes from no other: whether a join is answered depends on what it gets itself, as
long as the others do not end.
-/

namespace Pepal.Rest.Join

section Runs

variable {throws : ℕ → Bool} {v : Variables} {p : Waiting} {a : Answer} {hub : ℕ}
  {listeners : List Listener} {response : Option Bool}

/-! ## What may happen -/

/-- What a join that waits does not recover from. -/
inductive Fails : Answer → Prop
  | error : Fails .error
  | responses : Fails (.responses false)
  | lost (hub : ℕ) : Fails (.lost hub)
  | rejects {a : Answer} (h : Rejects a) : Fails a

/-- Nothing goes wrong for join `i`, and no other join ends, unless it is rejected
without an error. -/
def Calm (throws : ℕ → Bool) (i : ℕ) (s : Server) : Turns.Event Waiting Answer → Prop
  | .start p => p = .getOrgAdmin
  | .answer j a => if j = i then ¬ Fails a else Ends throws s j a → Rejects a

/-! ## What the join does -/

theorem Waits.of_clear {hub' : ℕ} (h : Waits (listeners.map (Join.clear hub')) hub) :
    Waits listeners hub := by
  obtain ⟨l', hl', hhub, hpending⟩ := h
  obtain ⟨l, hl, rfl⟩ := List.mem_map.mp hl'
  refine ⟨l, hl, (clear_hub hub' l).symm.trans hhub, ?_⟩
  unfold Join.clear at hpending
  split at hpending
  · exact hpending
  · exact hpending

theorem Waits.of_resolve {hub' : ℕ} (h : Waits (listeners.map (Join.resolve hub')) hub) :
    Waits listeners hub ∧ hub ≠ hub' := by
  obtain ⟨l', hl', hhub, hpending⟩ := h
  obtain ⟨l, hl, rfl⟩ := List.mem_map.mp hl'
  rw [resolve_hub] at hhub
  unfold Join.resolve at hpending
  split at hpending
  · cases hpending
  · rename_i hne
    exact ⟨⟨l, hl, hhub, hpending⟩, hhub ▸ hne⟩

/-- The turn is the last, with a success, or takes its answer off what the join
needs. -/
def Advances (p : Waiting) (a : Answer) (t : Turn) : Prop :=
  ((∀ q, t.process = some q → ∃ hubs, q = .left hubs) ∧ t.done = [.success]) ∨
    ∃ q, t.process = some q ∧ t.done = [] ∧ Open t.shared q ∧
      ∀ b, Needs q b → Needs p b ∧ b ≠ a

theorem advances_waits {q : Waiting} (hopen : Open v q)
    (hless : ∀ b, Needs q b → Needs p b ∧ b ≠ a) : Advances p a (waits v q) :=
  Or.inr ⟨q, rfl, rfl, hopen, hless⟩

theorem advances_settle (hthrows : ∀ hub, throws hub = false) (hgood : response ≠ some false)
    (hopen : ∀ hub, Waits listeners hub → hub ∉ v.closed)
    (hless : ∀ b, Needs (.joining listeners response) b → Needs p b ∧ b ≠ a) :
    Advances p a (settle throws listeners response v) := by
  have hsettle := settles throws v listeners response
  generalize settle throws listeners response v = t at hsettle
  cases hsettle with
  | waits h => exact advances_waits (.joining hgood hopen ⟨_, h⟩) hless
  | @ends good hall =>
      refine Or.inl ⟨fun q hq => ⟨_, (Option.some.inj hq).symm⟩, if_pos ⟨?_, ?_⟩⟩
      · exact eq_true_of_ne_false fun hbad => hgood (congrArg some hbad)
      · exact disconnectAll_silent hthrows _ v

theorem advances_turn (hthrows : ∀ hub, throws hub = false) (hopen : Open v p) (ha : ¬ Fails a) :
    Advances p a (turn throws p a v) := by
  have hturn := happens throws p a v
  generalize turn throws p a v = t at hturn
  have hneeds : ∃ b, Needs p b := by
    cases hopen with
    | joining _ _ h => exact h
  cases hturn with
  | stays h =>
      refine advances_waits hopen fun b hb => ⟨hb, ?_⟩
      rintro rfl
      exact h hopen hb
  | connects _ =>
      cases hopen with
      | joining hgood hclosed _ =>
          refine advances_waits (.joining hgood hclosed hneeds) fun b hb => ⟨hb, ?_⟩
          rintro rfl
          cases hb
  | loses _ => exact absurd (.lost _) ha
  | starts => cases hopen
  | opens => cases hopen
  | stops _ hp _ =>
      rcases hp with rfl | rfl
      · cases hopen
      · cases hopen
  | fails => exact absurd .error ha
  | @responds listeners good =>
      cases hopen with
      | joining _ hclosed _ =>
          have hgood : good = true := by
            refine eq_true_of_ne_false ?_
            rintro rfl
            exact ha .responses
          subst hgood
          refine advances_settle hthrows nofun hclosed fun b hb => ?_
          cases hb with
          | responses h => exact absurd rfl h
          | block h => exact ⟨.block h, nofun⟩
  | hears _ =>
      cases hopen with
      | joining hgood hclosed _ =>
          refine advances_settle hthrows hgood (fun hub' h => hclosed hub' h.of_resolve.1) ?_
          intro b hb
          cases hb with
          | responses h => exact ⟨.responses h, nofun⟩
          | block h =>
              refine ⟨.block h.of_resolve.1, fun heq => h.of_resolve.2 ?_⟩
              cases heq
              rfl
  | clears hfits =>
      cases hopen with
      | joining hgood hclosed _ =>
          obtain ⟨b, hb⟩ := hneeds
          refine advances_waits (.joining hgood (fun hub' h => hclosed hub' h.of_clear) ⟨b, ?_⟩) ?_
          · cases hb with
            | responses h => exact .responses h
            | block h => exact .block (h.clear _)
          · intro b hb
            cases hb with
            | responses h => exact ⟨.responses h, nofun⟩
            | block h =>
                refine ⟨.block h.of_clear, fun heq => hfits ?_⟩
                cases heq
                rfl
  | rejects h => exact absurd (.rejects h) ha

/-- A join that has just opened its hubs can be answered: they are new. -/
theorem open_of_opens {s : Server} (h : Numbered s) (opened : ℕ) :
    Open (turn throws .getGenesisBlock (.genesisBlock opened false) s.shared).shared
      (.joining (opens s.shared.hubs opened) none) := by
  refine .joining nofun (fun hub hwaits hclosed => ?_) ⟨_, .responses nofun⟩
  have hold := h.known hub (Or.inr hclosed)
  exact absurd (mem_hubsOf_opens hwaits.mem_hubsOf).1 (Nat.not_le_of_lt hold)

/-! ## What the others do -/

theorem closed_of_settle (hclosed : hub ∈ (settle throws listeners response v).shared.closed)
    (hstays : ∀ hubs, (settle throws listeners response v).process ≠ some (.left hubs)) :
    hub ∈ v.closed := by
  have hsettle := settles throws v listeners response
  generalize settle throws listeners response v = t at hsettle hclosed hstays
  cases hsettle with
  | waits _ => exact hclosed
  | ends _ => exact absurd rfl (hstays _)

/-- A join that does not end disconnects no hub but its own. -/
theorem closed_of_turn (hclosed : hub ∈ (turn throws p a v).shared.closed)
    (hstays : (∀ hubs, p ≠ .left hubs) →
      (∃ hubs, (turn throws p a v).process = some (.left hubs)) → Rejects a) :
    hub ∈ v.closed ∨ hub ∈ p.hubs := by
  have hturn := happens throws p a v
  generalize turn throws p a v = t at hturn hclosed hstays
  cases hturn with
  | stays _ => exact Or.inl hclosed
  | connects _ => exact Or.inl hclosed
  | loses h =>
      rcases List.mem_cons.mp hclosed with rfl | hclosed
      · exact Or.inr h.1
      · exact Or.inl hclosed
  | starts => exact Or.inl hclosed
  | opens => exact Or.inl hclosed
  | stops _ hp ha =>
      refine absurd (hstays ?_ ⟨_, rfl⟩) ha
      rcases hp with rfl | rfl
      · exact nofun
      · exact nofun
  | fails => cases hstays nofun ⟨_, rfl⟩
  | responds =>
      refine Or.inl (closed_of_settle hclosed fun hubs hleft => ?_)
      cases hstays nofun ⟨hubs, hleft⟩
  | hears _ =>
      refine Or.inl (closed_of_settle hclosed fun hubs hleft => ?_)
      cases hstays nofun ⟨hubs, hleft⟩
  | clears _ => exact Or.inl hclosed
  | rejects _ => exact Or.inl hclosed

/-- The hubs of a join stay connected while others do not end. -/
theorem open_of_calm {s : Server} {i j : ℕ} (hnumbered : Numbered s) (hj : j ≠ i)
    (hi : s.process i = some p) (hcalm : Calm throws i s (.answer j a))
    (hopen : Open s.shared p) : Open (Turns.next (turn throws) s (.answer j a)).shared p := by
  rw [Calm, if_neg hj] at hcalm
  cases hq : s.process j with
  | none =>
      rw [Turns.next_answer_none hq]
      exact hopen
  | some q =>
      rw [Turns.next_answer hq]
      obtain ⟨hgood, hopen, hneeds⟩ := hopen
      -- what the other join disconnects without ending is a hub of its own
      refine .joining hgood (fun hub hwaits hclosed => ?_) hneeds
      have hstays : (∀ hubs, q ≠ .left hubs) →
          (∃ hubs, (turn throws q a s.shared).process = some (.left hubs)) → Rejects a :=
        fun hnot hleft => hcalm ⟨q, hq, hnot, hleft⟩
      rcases closed_of_turn hclosed hstays with hold | hother
      · exact hopen hub hwaits hold
      · exact hnumbered.apart i j _ q hi hq (Ne.symm hj) hub hwaits.mem_hubsOf hother

/-! ## A whole run -/

theorem numbered_of_calm {s : Server} {i : ℕ} {e : Turns.Event Waiting Answer}
    (hcalm : Calm throws i s e) (h : Numbered s) : Numbered (Turns.next (turn throws) s e) := by
  refine numbered_next ?_ h
  cases e with
  | start p => exact hcalm
  | answer j a => trivial

/-- The other join goes on. -/
theorem calm_of_goes_on {s : Server} {i j : ℕ} (hj : j ≠ i)
    (h : ∀ q, s.process j = some q → ∀ hubs,
      (turn throws q a s.shared).process ≠ some (.left hubs)) :
    Calm throws i s (.answer j a) := by
  rw [Calm, if_neg hj]
  rintro ⟨q, hq, -, hubs, hleft⟩
  exact absurd hleft (h q hq hubs)

/-- **A join is answered exactly if it gets all that it needs**, in whatever order
that comes, whatever joins are started in the meantime and whatever connections
they lose, as long as nothing goes wrong for it and no other join ends. -/
theorem joined_iff (hthrows : ∀ hub, throws hub = false)
    {before : List (Turns.Event Waiting Answer)}
    (hin : ∀ p, .start p ∈ before → p = .getOrgAdmin) {i : ℕ}
    (hp : (serve throws start before).process i = some p)
    (hopen : Open (serve throws start before).shared p)
    {events : List (Turns.Event Waiting Answer)}
    (hcalm : Runs.Along (Turns.next (turn throws)) (Calm throws i) (serve throws start before)
      events) :
    Turns.doneBy (turn throws) i (serve throws start before) events = [.success] ↔
      ∀ b, Needs p b → .answer i b ∈ events := by
  have hnumbered : Numbered (serve throws start before) := numbered_serve hin numbered_start
  constructor
  · intro hdone b hb
    by_contra hmissing
    rw [doneBy_of_needs hp hb (Or.inr hmissing)] at hdone
    cases hdone
  · refine Turns.doneBy_of_needs Open (fun s e => Calm throws i s e ∧ Numbered s)
      (fun p => ∃ hubs, p = .left hubs) ?_ (fun p a v h => left_turn h throws a v) ?_ ?_ hp hopen
      (Runs.along_and_of_invariant Numbered (fun _ _ => numbered_of_calm) hnumbered hcalm)
    · rintro v p ⟨-, -, hneeds⟩
      exact hneeds
    · rintro s p a ⟨hcalm, -⟩ hopen
      exact advances_turn hthrows hopen (by rwa [Calm, if_pos rfl] at hcalm)
    · rintro s p j a hj hi ⟨hcalm, hnumbered⟩ hopen
      exact open_of_calm hnumbered hj hi hcalm hopen

/-- A second join opens its hub in the meantime and loses it. -/
theorem joined_with_second :
    Turns.doneBy (turn fun _ => false) 0
      (serve (fun _ => false) start (.start .getOrgAdmin :: joins 0 0))
      ([.start .getOrgAdmin] ++ joins 1 1 ++
        [.answer 1 (.lost 1), .answer 0 (.block 0 (some true))]) = [.success] := by
  have hneeds : Needs (.joining (opens 0 1) (some true)) (.block 0 (some true)) :=
    .block ⟨_, List.mem_singleton_self _, rfl, rfl⟩
  have hopen : Open ⟨1, [0], []⟩ (.joining (opens 0 1) (some true)) :=
    .joining nofun nofun ⟨_, hneeds⟩
  have hin : ∀ p, .start p ∈ (.start .getOrgAdmin :: joins 0 0) → p = .getOrgAdmin := by
    intro p hp
    simpa [joins] using hp
  refine (joined_iff (fun _ => rfl) hin rfl hopen ?_).mpr ?_
  · refine ⟨rfl, calm_of_goes_on (by decide) ?_, calm_of_goes_on (by decide) ?_,
      calm_of_goes_on (by decide) ?_, calm_of_goes_on (by decide) ?_,
      calm_of_goes_on (by decide) ?_, ?_, trivial⟩
    · rintro q ⟨⟩ hubs ⟨⟩
    · rintro q ⟨⟩ hubs ⟨⟩
    · rintro q ⟨⟩ hubs ⟨⟩
    · rintro q ⟨⟩ hubs ⟨⟩
    · rintro q ⟨⟩ hubs ⟨⟩
    · show ¬ Fails (.block 0 (some true))
      rintro (_ | _ | _ | ⟨⟨⟩⟩)
  · rintro b (h | ⟨l, hl, rfl, -⟩)
    · exact absurd rfl h
    · obtain rfl := List.mem_singleton.mp hl
      exact List.mem_append_right _ (List.mem_cons_of_mem _ List.mem_cons_self)

end Runs

end Pepal.Rest.Join

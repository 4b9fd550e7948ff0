import Pepal.Lib.Runs

/-!
# Processes that take turns

Processes that share a variable and run one at a time. A process waits for an
answer; with the answer it has a turn, in which it may change the variable and
do things that others see, and after which it waits again or has ended. In
which order the answers come is left open, and so is how many processes there
are.

What every turn does, whatever the others have made of the variable, is done in
every run (`forall_done`), and so is what it does where the others keep what it
relies on (`forall_done_of_rely`). Where a turn answers exactly when its process
owes no answer any more, every process answers once (`length_doneBy`). A
process comes, with the answers that it is given, to where it would come alone
(`process_of_path`). And where a process starts only after the others have ended,
a turn may rely on what the process itself has made of the variable
(`forall_done_of_serial`).
-/

namespace Turns

variable {V P A D : Type}

/-- What a turn makes of the variable, what the process waits for after it, if
it goes on, and what it has done. -/
structure Turn (V P D : Type) where
  shared : V
  process : Option P
  done : List D

/-- Processes by their number, in the order in which they started. -/
structure System (V P D : Type) where
  shared : V
  processes : List (Option P)
  done : List D

inductive Event (P A : Type) where
  | start (p : P)
  | answer (i : ℕ) (a : A)
deriving DecidableEq

def System.process (s : System V P D) (i : ℕ) : Option P := s.processes[i]?.join

/-- An answer for a process that does not wait is ignored. -/
def next (program : P → A → V → Turn V P D) (s : System V P D) : Event P A → System V P D
  | .start p => { s with processes := s.processes ++ [some p] }
  | .answer i a =>
      match s.process i with
      | none => s
      | some p =>
          let t := program p a s.shared
          { shared := t.shared, processes := s.processes.set i t.process, done := s.done ++ t.done }

/-! ## One step -/

section Step

variable {program : P → A → V → Turn V P D} {s : System V P D} {i : ℕ} {p : P}

theorem lt_of_process (h : s.process i = some p) : i < s.processes.length := by
  by_contra hge
  rw [System.process, List.getElem?_eq_none (Nat.le_of_not_lt hge)] at h
  cases h

theorem process_start (program : P → A → V → Turn V P D) (s : System V P D) (p : P) (i : ℕ) :
    (next program s (.start p)).process i =
      if i = s.processes.length then some p else s.process i := by
  unfold next System.process
  rcases Nat.lt_trichotomy i s.processes.length with hlt | rfl | hgt
  · rw [if_neg (Nat.ne_of_lt hlt), List.getElem?_append_left hlt]
  · rw [if_pos rfl, List.getElem?_append_right (Nat.le_refl _), Nat.sub_self]
    rfl
  · rw [if_neg (Nat.ne_of_gt hgt), List.getElem?_eq_none (Nat.le_of_lt hgt), List.getElem?_eq_none]
    rw [List.length_append, List.length_singleton]
    exact hgt

theorem next_answer (h : s.process i = some p) (a : A) : next program s (.answer i a) =
    { shared := (program p a s.shared).shared
      processes := s.processes.set i (program p a s.shared).process
      done := s.done ++ (program p a s.shared).done } := by
  unfold next
  simp only [h]

theorem next_answer_none (h : s.process i = none) (a : A) : next program s (.answer i a) = s := by
  unfold next
  simp only [h]

theorem process_answer (h : s.process i = some p) (a : A) (j : ℕ) :
    (next program s (.answer i a)).process j =
      if j = i then (program p a s.shared).process else s.process j := by
  rw [next_answer h]
  unfold System.process
  dsimp only
  rcases eq_or_ne j i with rfl | hne
  · rw [if_pos rfl, List.getElem?_set_self (lt_of_process h)]
    rfl
  · rw [if_neg hne, List.getElem?_set_ne hne.symm]

theorem process_answer_of_ne {j : ℕ} (hne : j ≠ i) (a : A) :
    (next program s (.answer j a)).process i = s.process i := by
  cases hj : s.process j with
  | none => rw [next_answer_none hj]
  | some q => rw [process_answer hj, if_neg (Ne.symm hne)]

theorem length_le_next (program : P → A → V → Turn V P D) (s : System V P D) (e : Event P A) :
    s.processes.length ≤ (next program s e).processes.length := by
  cases e with
  | start p =>
      show _ ≤ (s.processes ++ [some p]).length
      rw [List.length_append]
      exact Nat.le_add_right _ _
  | answer i a =>
      cases hi : s.process i with
      | none =>
          have hsame : next program s (.answer i a) = s := next_answer_none hi a
          exact Nat.le_of_eq (congrArg (fun s => s.processes.length) hsame.symm)
      | some p =>
          rw [next_answer hi]
          exact Nat.le_of_eq List.length_set.symm

end Step

/-! ## What every turn does -/

section Rules

variable {program : P → A → V → Turn V P D} {Good : D → Prop}

/-- The events start processes and give answers of certain kinds. -/
def Within (Starts : P → Prop) (Allowed : A → Prop) : Event P A → Prop
  | .start p => Starts p
  | .answer _ a => Allowed a

/-- **Rely and guarantee.** A process may rely on a condition on the variable
that no turn of another takes away: every turn changes the variable only as
`Changes` allows, and the condition outlasts such changes. -/
theorem forall_done_of_rely (Inv : V → P → Prop) (Changes : V → V → Prop) (Starts : P → Prop)
    (Allowed : A → Prop) (hstable : ∀ v v' p, Changes v v' → Inv v p → Inv v' p)
    (hstart : ∀ p v, Starts p → Inv v p)
    (hturn : ∀ p a v, Inv v p → Allowed a →
      Changes v (program p a v).shared ∧
        (∀ q, (program p a v).process = some q → Inv (program p a v).shared q) ∧
        ∀ d ∈ (program p a v).done, Good d)
    {events : List (Event P A)} (hevents : ∀ e ∈ events, Within Starts Allowed e)
    {s : System V P D} (hprocess : ∀ i p, s.process i = some p → Inv s.shared p)
    (hdone : ∀ d ∈ s.done, Good d) : ∀ d ∈ (Runs.run (next program) s events).done, Good d := by
  induction events generalizing s with
  | nil => exact hdone
  | cons e events ih =>
      have he := hevents e List.mem_cons_self
      have hrest := fun e' he' => hevents e' (List.mem_cons_of_mem e he')
      cases e with
      | start p =>
          refine ih hrest ?_ hdone
          intro i q hq
          rw [process_start] at hq
          split at hq
          · cases hq
            exact hstart _ _ he
          · exact hprocess i q hq
      | answer i a =>
          cases hi : s.process i with
          | none =>
              refine ih hrest ?_ ?_
              · rw [next_answer_none hi]
                exact hprocess
              · rw [next_answer_none hi]
                exact hdone
          | some p =>
              obtain ⟨hchanges, hgoes, hgood⟩ := hturn p a s.shared (hprocess i p hi) he
              refine ih hrest ?_ ?_
              · intro j q hq
                rw [process_answer hi] at hq
                rw [next_answer hi]
                split at hq
                · exact hgoes q hq
                · exact hstable _ _ _ hchanges (hprocess j q hq)
              · intro d hd
                rw [next_answer hi] at hd
                rcases List.mem_append.mp hd with hd | hd
                · exact hdone d hd
                · exact hgood d hd

/-- **What every turn does is done in every run**, in whatever order the turns
are taken. -/
theorem forall_done (Inv : P → Prop) (Allowed : A → Prop)
    (hturn : ∀ p a v, Inv p → Allowed a →
      (∀ q, (program p a v).process = some q → Inv q) ∧ ∀ d ∈ (program p a v).done, Good d)
    {events : List (Event P A)} (hevents : ∀ e ∈ events, Within Inv Allowed e)
    {s : System V P D} (hprocess : ∀ i p, s.process i = some p → Inv p)
    (hdone : ∀ d ∈ s.done, Good d) : ∀ d ∈ (Runs.run (next program) s events).done, Good d :=
  forall_done_of_rely (fun _ => Inv) (fun _ _ => True) Inv Allowed (fun _ _ _ _ h => h)
    (fun _ _ h => h) (fun p a v h ha => ⟨trivial, hturn p a v h ha⟩) hevents hprocess hdone

/-! ## One answer for each process -/

/-- What process `i` has done in its turns. -/
def doneBy (program : P → A → V → Turn V P D) (i : ℕ) : System V P D → List (Event P A) → List D
  | _, [] => []
  | s, .start p :: events => doneBy program i (next program s (.start p)) events
  | s, .answer j a :: events =>
      (if j = i then (s.process j).elim [] fun p => (program p a s.shared).done else []) ++
        doneBy program i (next program s (.answer j a)) events

theorem doneBy_append (program : P → A → V → Turn V P D) (i : ℕ) (s : System V P D)
    (events more : List (Event P A)) :
    doneBy program i s (events ++ more) =
      doneBy program i s events ++ doneBy program i (Runs.run (next program) s events) more := by
  induction events generalizing s with
  | nil => rfl
  | cons e events ih =>
      cases e with
      | start p => exact ih _
      | answer j a =>
          rw [List.cons_append, doneBy, doneBy, ih, List.append_assoc]
          rfl

/-- The number of answers that process `i` owes. -/
def owed (owes : P → Bool) (s : System V P D) (i : ℕ) : ℕ :=
  if (s.process i).any owes then 1 else 0

theorem owed_of_ge {owes : P → Bool} {s : System V P D} {i : ℕ} (h : s.processes.length ≤ i) :
    owed owes s i = 0 := by
  unfold owed System.process
  rw [List.getElem?_eq_none h]
  rfl

theorem owed_answer {owes : P → Bool} {s : System V P D}
    (hturn : ∀ p a v, (program p a v).done.length +
      (if (program p a v).process.any owes then 1 else 0) = if owes p then 1 else 0)
    (i j : ℕ) (a : A) :
    (if j = i then (s.process j).elim [] fun p => (program p a s.shared).done else []).length +
      owed owes (next program s (.answer j a)) i = owed owes s i := by
  cases hj : s.process j with
  | none =>
      rw [next_answer_none hj]
      split
      · exact Nat.zero_add _
      · exact Nat.zero_add _
  | some p =>
      unfold owed
      rw [process_answer hj]
      by_cases hij : j = i
      · subst hij
        rw [if_pos rfl, if_pos rfl, hj]
        exact hturn p a s.shared
      · rw [if_neg hij, if_neg (Ne.symm hij)]
        exact Nat.zero_add _

/-- **Every process answers once**, if a turn answers exactly where its process
does not owe an answer any more: what a process has answered and what it owes is
one answer, from its start on. -/
theorem length_doneBy {owes : P → Bool} (Starts : P → Prop)
    (hstart : ∀ p, Starts p → owes p = true)
    (hturn : ∀ p a v, (program p a v).done.length +
      (if (program p a v).process.any owes then 1 else 0) = if owes p then 1 else 0)
    {events : List (Event P A)} (hevents : ∀ e ∈ events, Within Starts (fun _ => True) e)
    (s : System V P D) {i : ℕ} (hi : i < (Runs.run (next program) s events).processes.length) :
    (doneBy program i s events).length + owed owes (Runs.run (next program) s events) i =
      if i < s.processes.length then owed owes s i else 1 := by
  induction events generalizing s with
  | nil =>
      have hi' : i < s.processes.length := hi
      rw [if_pos hi']
      exact Nat.zero_add _
  | cons e events ih =>
      have hrest := ih (fun e' he' => hevents e' (List.mem_cons_of_mem e he')) (next program s e) hi
      cases e with
      | start p =>
          have hp : owes p = true := hstart p (hevents _ List.mem_cons_self)
          refine hrest.trans ?_
          have hlength : (next program s (.start p)).processes.length = s.processes.length + 1 :=
            List.length_append
          unfold owed
          rw [hlength, process_start]
          rcases Nat.lt_trichotomy i s.processes.length with hlt | rfl | hgt
          · rw [if_pos (Nat.lt_succ_of_lt hlt), if_neg (Nat.ne_of_lt hlt), if_pos hlt]
          · rw [if_pos (Nat.lt_succ_self _), if_pos rfl, if_neg (Nat.lt_irrefl _)]
            exact if_pos hp
          · rw [if_neg (Nat.not_lt.mpr hgt), if_neg (Nat.not_lt.mpr (Nat.le_of_lt hgt))]
      | answer j a =>
          have hlength : (next program s (.answer j a)).processes.length = s.processes.length := by
            cases hj : s.process j with
            | none => rw [next_answer_none hj]
            | some p =>
                rw [next_answer hj]
                exact List.length_set
          have hanswer := owed_answer (s := s) hturn i j a
          rw [hlength] at hrest
          rw [doneBy, List.length_append, Nat.add_assoc]
          refine (congrArg (_ + ·) hrest).trans ?_
          by_cases hlt : i < s.processes.length
          · rw [if_pos hlt, if_pos hlt]
            exact hanswer
          · -- a process that has not started yet has no turn
            rw [owed_of_ge (Nat.le_of_not_lt hlt)] at hanswer
            rw [if_neg hlt, if_neg hlt]
            exact congrArg (· + 1) (Nat.eq_zero_of_add_eq_zero_right hanswer)

/-! ## What one process does -/

/-- **What a process does from a condition on**, if the turns of the others do not
take the condition away. -/
theorem forall_doneBy_of_rely (Inv : V → P → Prop) (Changes : V → V → Prop) (Allowed : A → Prop)
    (hchanges : ∀ p a v, Changes v (program p a v).shared)
    (hstable : ∀ v v' p, Changes v v' → Inv v p → Inv v' p)
    (hturn : ∀ p a v, Inv v p → Allowed a →
      (∀ q, (program p a v).process = some q → Inv (program p a v).shared q) ∧
        ∀ d ∈ (program p a v).done, Good d)
    {i : ℕ} {events : List (Event P A)} (hevents : ∀ a, .answer i a ∈ events → Allowed a)
    {s : System V P D} (hi : i < s.processes.length)
    (hprocess : ∀ p, s.process i = some p → Inv s.shared p) :
    ∀ d ∈ doneBy program i s events, Good d := by
  induction events generalizing s with
  | nil => exact nofun
  | cons e events ih =>
      have hrest := fun a ha => hevents a (List.mem_cons_of_mem e ha)
      have hi' := Nat.lt_of_lt_of_le hi (length_le_next program s e)
      cases e with
      | start p =>
          refine ih hrest hi' fun q hq => ?_
          rw [process_start, if_neg (Nat.ne_of_lt hi)] at hq
          exact hprocess q hq
      | answer j a =>
          intro d hd
          rw [doneBy] at hd
          cases hj : s.process j with
          | none =>
              rw [hj, next_answer_none hj] at hd
              rcases List.mem_append.mp hd with hown | hlater
              · rw [Option.elim_none, ite_self] at hown
                cases hown
              · exact ih hrest hi hprocess d hlater
          | some p =>
              rw [hj, Option.elim_some] at hd
              rcases List.mem_append.mp hd with hown | hlater
              · by_cases hji : j = i
                · subst hji
                  rw [if_pos rfl] at hown
                  have ha := hevents a List.mem_cons_self
                  exact (hturn p a s.shared (hprocess p hj) ha).2 d hown
                · rw [if_neg hji] at hown
                  cases hown
              · refine ih hrest hi' (fun q hq => ?_) d hlater
                rw [process_answer hj] at hq
                rw [next_answer hj]
                by_cases hij : i = j
                · subst hij
                  rw [if_pos rfl] at hq
                  have ha := hevents a List.mem_cons_self
                  exact (hturn p a s.shared (hprocess p hj) ha).1 q hq
                · rw [if_neg hij] at hq
                  exact hstable _ _ _ (hchanges p a s.shared) (hprocess q hq)

/-- A process that is over does nothing any more. -/
theorem doneBy_of_over (Over : P → Prop)
    (hover : ∀ p a v, Over p → (program p a v).done = [] ∧
      ∀ q, (program p a v).process = some q → Over q)
    {i : ℕ} {s : System V P D} (hi : i < s.processes.length)
    (h : ∀ p, s.process i = some p → Over p) (events : List (Event P A)) :
    doneBy program i s events = [] := by
  have hnever : ∀ d ∈ doneBy program i s events, False := by
    refine forall_doneBy_of_rely (fun _ => Over) (fun _ _ => True) (fun _ => True)
      (fun _ _ _ => trivial) (fun _ _ _ _ h => h) ?_ (fun _ _ => trivial) hi h
    intro p a v hp _
    obtain ⟨hdone, hstays⟩ := hover p a v hp
    rw [hdone]
    exact ⟨hstays, nofun⟩
  exact List.eq_nil_iff_forall_not_mem.mpr hnever

/-- **A process that is given all that it needs ends**, in whatever order that
comes, if nothing else happens to it: a turn is the last, or it goes on and no
longer needs its answer. -/
theorem doneBy_of_needs (Inv : V → P → Prop) (Calm : System V P D → Event P A → Prop)
    (Over : P → Prop) {Needs : P → A → Prop} {i : ℕ} {ds : List D}
    (hneeds : ∀ v p, Inv v p → ∃ b, Needs p b)
    (hover : ∀ p a v, Over p → (program p a v).done = [] ∧
      ∀ q, (program p a v).process = some q → Over q)
    (hown : ∀ s p a, Calm s (.answer i a) → Inv s.shared p →
      ((∀ q, (program p a s.shared).process = some q → Over q) ∧
          (program p a s.shared).done = ds) ∨
        ∃ q, (program p a s.shared).process = some q ∧ (program p a s.shared).done = [] ∧
          Inv (program p a s.shared).shared q ∧ ∀ b, Needs q b → Needs p b ∧ b ≠ a)
    (hothers : ∀ s p j a, j ≠ i → s.process i = some p → Calm s (.answer j a) → Inv s.shared p →
      Inv (next program s (.answer j a)).shared p)
    {events : List (Event P A)} {s : System V P D} {p : P} (hp : s.process i = some p)
    (hinv : Inv s.shared p) (hcalm : Runs.Along (next program) Calm s events)
    (hall : ∀ b, Needs p b → .answer i b ∈ events) : doneBy program i s events = ds := by
  induction events generalizing s p with
  | nil =>
      obtain ⟨b, hb⟩ := hneeds _ p hinv
      cases hall b hb
  | cons e events ih =>
      obtain ⟨he, hcalm⟩ := hcalm
      have hlt := lt_of_process hp
      have hlater : ∀ b, Needs p b → .answer i b ≠ e → .answer i b ∈ events := by
        intro b hb hne
        exact (List.mem_cons.mp (hall b hb)).resolve_left hne
      cases e with
      | start p' =>
          refine ih ?_ hinv hcalm fun b hb => hlater b hb nofun
          rw [process_start, if_neg (Nat.ne_of_lt hlt)]
          exact hp
      | answer j a =>
          rw [doneBy]
          by_cases hj : j = i
          · subst hj
            rw [if_pos rfl, hp, Option.elim_some]
            rcases hown s p a he hinv with ⟨hended, hdone⟩ | ⟨q, hq, hdone, hinv', hless⟩
            · have hlt' := Nat.lt_of_lt_of_le hlt (length_le_next program s (.answer j a))
              have hlast : ∀ q, (next program s (.answer j a)).process j = some q → Over q := by
                intro q hq
                rw [process_answer hp, if_pos rfl] at hq
                exact hended q hq
              rw [hdone, doneBy_of_over Over hover hlt' hlast, List.append_nil]
            · rw [hdone, List.nil_append]
              refine ih (p := q) ?_ ?_ hcalm fun b hb => ?_
              · rw [process_answer hp, if_pos rfl, hq]
              · rw [next_answer hp]
                exact hinv'
              · refine hlater b (hless b hb).1 fun heq => (hless b hb).2 ?_
                cases heq
                rfl
          · rw [if_neg hj, List.nil_append]
            have hinv' := hothers s p j a hj hp he hinv
            refine ih ?_ hinv' hcalm fun b hb => hlater b hb fun heq => hj ?_
            · rw [process_answer_of_ne hj]
              exact hp
            · cases heq
              rfl

/-! ## One process in a run of many -/

/-- The answers to process `i`, in their order. -/
def answersTo (i : ℕ) : List (Event P A) → List A
  | [] => []
  | .start _ :: events => answersTo i events
  | .answer j a :: events => if j = i then a :: answersTo i events else answersTo i events

/-- With these answers a process comes from `p` to `q` and does nothing on the way,
whatever the variable. -/
inductive Path (program : P → A → V → Turn V P D) : P → List A → P → Prop
  | here (p : P) : Path program p [] p
  | turn {p q r : P} {a : A} {answers : List A} (hturn : ∀ v, (program p a v).process = some q)
      (hdone : ∀ v, (program p a v).done = []) (hrest : Path program q answers r) :
      Path program p (a :: answers) r

/-- **A process comes to where its own answers lead**, whatever the others do
between them. -/
theorem process_of_path {events : List (Event P A)} {s : System V P D} {i : ℕ} {p q : P}
    (hp : s.process i = some p) (hpath : Path program p (answersTo i events) q) :
    (Runs.run (next program) s events).process i = some q ∧ doneBy program i s events = [] := by
  induction events generalizing s p with
  | nil =>
      cases hpath
      exact ⟨hp, rfl⟩
  | cons e events ih =>
      cases e with
      | start p' =>
          refine ih ?_ hpath
          rw [process_start, if_neg (Nat.ne_of_lt (lt_of_process hp))]
          exact hp
      | answer j a =>
          rw [doneBy]
          by_cases hj : j = i
          · subst hj
            rw [answersTo, if_pos rfl] at hpath
            cases hpath with
            | turn hturn hdone hrest =>
                rw [if_pos rfl, hp, Option.elim_some, hdone, List.nil_append]
                refine ih ?_ hrest
                rw [process_answer hp, if_pos rfl]
                exact hturn s.shared
          · rw [answersTo, if_neg hj] at hpath
            rw [if_neg hj, List.nil_append]
            refine ih ?_ hpath
            rw [process_answer_of_ne hj]
            exact hp

theorem doneBy_of_none {s : System V P D} {i : ℕ} (hi : i < s.processes.length)
    (h : s.process i = none) (events : List (Event P A)) : doneBy program i s events = [] :=
  doneBy_of_over (fun _ => False) nofun hi (fun p hp => Option.some_ne_none p (hp.symm.trans h))
    events

/-- **A process that does one thing, at its end**, has done that and nothing else
when it has ended. -/
theorem doneBy_of_ended (Inv : P → Prop) {ds : List D}
    (hturn : ∀ p a v, Inv p →
      ((program p a v).process = none ∧ (program p a v).done = ds) ∨
        ∃ q, (program p a v).process = some q ∧ Inv q ∧ (program p a v).done = [])
    {s : System V P D} {i : ℕ} {p : P} (hp : s.process i = some p) (hinv : Inv p)
    {events : List (Event P A)} (hended : (Runs.run (next program) s events).process i = none) :
    doneBy program i s events = ds := by
  induction events generalizing s p with
  | nil => cases hp.symm.trans hended
  | cons e events ih =>
      cases e with
      | start p' =>
          refine ih ?_ hinv hended
          rw [process_start, if_neg (Nat.ne_of_lt (lt_of_process hp))]
          exact hp
      | answer j a =>
          rw [doneBy]
          by_cases hj : j = i
          · subst hj
            rw [if_pos rfl, hp, Option.elim_some]
            have hprocess : (next program s (.answer j a)).process j =
                (program p a s.shared).process := by
              rw [process_answer hp, if_pos rfl]
            rcases hturn p a s.shared hinv with ⟨hnone, hdone⟩ | ⟨q, hq, hinv', hdone⟩
            · have hlt := Nat.lt_of_lt_of_le (lt_of_process hp)
                (length_le_next program s (.answer j a))
              rw [hdone, doneBy_of_none hlt (hprocess.trans hnone), List.append_nil]
            · rw [hdone, List.nil_append]
              exact ih (hprocess.trans hq) hinv' hended
          · rw [if_neg hj, List.nil_append]
            refine ih ?_ hinv hended
            rw [process_answer_of_ne hj]
            exact hp

/-! ## One process after the other -/

/-- A process starts only where none waits. -/
def Serial (s : System V P D) : Event P A → Prop
  | .start _ => ∀ i, s.process i = none
  | .answer _ _ => True

/-- One process at most, and the variable is as it left it. -/
structure Alone (Inv : V → P → Prop) (s : System V P D) : Prop where
  one : ∀ i j p q, s.process i = some p → s.process j = some q → i = j
  kept : ∀ i p, s.process i = some p → Inv s.shared p

theorem Alone.of_none {Inv : V → P → Prop} {s : System V P D} (h : ∀ i, s.process i = none) :
    Alone Inv s where
  one := by
    intro i j p q hi
    rw [h i] at hi
    cases hi
  kept := by
    intro i p hi
    rw [h i] at hi
    cases hi

theorem Alone.start {Inv : V → P → Prop} {s : System V P D} {p : P} (hp : ∀ v, Inv v p)
    (hnone : ∀ i, s.process i = none) : Alone Inv (next program s (.start p)) where
  one := by
    intro i j q q' hi hj
    rw [process_start] at hi hj
    split at hi
    · split at hj
      · simp_all
      · rw [hnone j] at hj
        cases hj
    · rw [hnone i] at hi
      cases hi
  kept := by
    intro i q hi
    rw [process_start] at hi
    split at hi
    · cases hi
      exact hp _
    · rw [hnone i] at hi
      cases hi

/-- **In a serial run every turn finds the variable as the process left it.** -/
theorem forall_done_of_serial (Inv : V → P → Prop) (Starts : P → Prop) (Allowed : A → Prop)
    (hstart : ∀ p v, Starts p → Inv v p)
    (hturn : ∀ p a v, Inv v p → Allowed a →
      (∀ q, (program p a v).process = some q → Inv (program p a v).shared q) ∧
        ∀ d ∈ (program p a v).done, Good d)
    {events : List (Event P A)} (hevents : ∀ e ∈ events, Within Starts Allowed e)
    {s : System V P D} (hserial : Runs.Along (next program) Serial s events)
    (halone : Alone Inv s) (hdone : ∀ d ∈ s.done, Good d) :
    ∀ d ∈ (Runs.run (next program) s events).done, Good d := by
  induction events generalizing s with
  | nil => exact hdone
  | cons e events ih =>
      have he := hevents e List.mem_cons_self
      have hrest := fun e' he' => hevents e' (List.mem_cons_of_mem e he')
      obtain ⟨hnow, hafter⟩ := hserial
      cases e with
      | start p => exact ih hrest hafter (Alone.start (fun v => hstart p v he) hnow) hdone
      | answer i a =>
          cases hi : s.process i with
          | none =>
              rw [next_answer_none hi] at hafter
              show ∀ d ∈ (Runs.run (next program) (next program s (.answer i a)) events).done,
                Good d
              rw [next_answer_none hi]
              exact ih hrest hafter halone hdone
          | some p =>
              obtain ⟨hgoes, hgood⟩ := hturn p a s.shared (halone.kept i p hi) he
              -- the others do not wait, so that the process that has the turn stays the only one
              have honly : ∀ j q, (next program s (.answer i a)).process j = some q →
                  j = i ∧ (program p a s.shared).process = some q := by
                intro j q hq
                rw [process_answer hi] at hq
                split at hq
                · exact ⟨‹_›, hq⟩
                · exact absurd (halone.one j i q p hq hi) ‹_›
              refine ih hrest hafter ⟨?_, ?_⟩ ?_
              · intro j k q q' hj hk
                exact (honly j q hj).1.trans (honly k q' hk).1.symm
              · intro j q hj
                rw [next_answer hi]
                exact hgoes q (honly j q hj).2
              · intro d hd
                rw [next_answer hi] at hd
                rcases List.mem_append.mp hd with hd | hd
                · exact hdone d hd
                · exact hgood d hd

end Rules

end Turns

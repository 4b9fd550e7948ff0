import Mathlib.Tactic.Common

/-!
# Runs of a deterministic system

A system is a function `next` from a state and an input to a state, and a run
is a fold. An invariant is proved for one step and then holds in every
reachable state. A property that needs something of the steps taken, not only
of the states reached, is proved along the run: the condition is stated for
one step, `Along` says that all steps of a run meet it, and a preorder that
every such step respects holds between the ends of the run. And a property that
holds at the start of a run and not at its end is lost at some step.
-/

namespace Runs

variable {σ τ : Type*} (next : σ → τ → σ)

def run (s : σ) (inputs : List τ) : σ := inputs.foldl next s

theorem run_append (s : σ) (inputs more : List τ) :
    run next s (inputs ++ more) = run next (run next s inputs) more := List.foldl_append

theorem run_concat (s : σ) (inputs : List τ) (t : τ) :
    run next s (inputs ++ [t]) = next (run next s inputs) t := run_append next s inputs [t]

/-- Some run from `init` ends in the state. -/
def Reachable (init s : σ) : Prop := ∃ inputs, run next init inputs = s

/-- Every step of the run meets the condition. -/
def Along (P : σ → τ → Prop) : σ → List τ → Prop
  | _, [] => True
  | s, t :: inputs => P s t ∧ Along P (next s t) inputs

variable {next}

theorem Reachable.init (init : σ) : Reachable next init init := ⟨[], rfl⟩

theorem Reachable.step {init s : σ} (h : Reachable next init s) (t : τ) :
    Reachable next init (next s t) := by
  obtain ⟨inputs, rfl⟩ := h
  exact ⟨inputs ++ [t], run_concat next init inputs t⟩

theorem run_invariant {Inv : σ → Prop} (hstep : ∀ s t, Inv s → Inv (next s t)) {s : σ}
    (h : Inv s) (inputs : List τ) : Inv (run next s inputs) := by
  induction inputs generalizing s with
  | nil => exact h
  | cons t inputs ih => exact ih (hstep s t h)

/-- **An invariant of the steps holds in every reachable state.** -/
theorem Reachable.invariant {Inv : σ → Prop} {init s : σ} (h : Reachable next init s)
    (hinit : Inv init) (hstep : ∀ s t, Inv s → Inv (next s t)) : Inv s := by
  obtain ⟨inputs, rfl⟩ := h
  exact run_invariant hstep hinit inputs

/-- **What a run loses it loses at a step.** -/
theorem exists_lost {P : σ → Prop} {s : σ} (h : P s) {inputs : List τ}
    (hlost : ¬ P (run next s inputs)) :
    ∃ before t after, inputs = before ++ t :: after ∧ P (run next s before) ∧
      ¬ P (next (run next s before) t) := by
  induction inputs generalizing s with
  | nil => exact absurd h hlost
  | cons t inputs ih =>
      by_cases hstep : P (next s t)
      · obtain ⟨before, t', after, rfl, hbefore, hstep'⟩ := ih hstep hlost
        exact ⟨t :: before, t', after, rfl, hbefore, hstep'⟩
      · exact ⟨[], t, inputs, rfl, h, hstep⟩

theorem along_and {P Q : σ → τ → Prop} {s : σ} {inputs : List τ} :
    Along next (fun s t => P s t ∧ Q s t) s inputs ↔
      Along next P s inputs ∧ Along next Q s inputs := by
  induction inputs generalizing s with
  | nil => exact ⟨fun _ => ⟨trivial, trivial⟩, fun _ => trivial⟩
  | cons t inputs ih => exact (and_congr Iff.rfl ih).trans and_and_and_comm

theorem along_append {P : σ → τ → Prop} {s : σ} {inputs more : List τ} :
    Along next P s (inputs ++ more) ↔
      Along next P s inputs ∧ Along next P (run next s inputs) more := by
  induction inputs generalizing s with
  | nil => exact ⟨fun h => ⟨trivial, h⟩, And.right⟩
  | cons t inputs ih => exact (and_congr Iff.rfl ih).trans and_assoc.symm

/-- **A run that does not meet a condition has a first step that does not.** -/
theorem exists_first_not {P : σ → τ → Prop} {s : σ} {inputs : List τ}
    (h : ¬ Along next P s inputs) :
    ∃ before t after, inputs = before ++ t :: after ∧ Along next P s before ∧
      ¬ P (run next s before) t := by
  induction inputs generalizing s with
  | nil => exact absurd trivial h
  | cons t inputs ih =>
      by_cases ht : P s t
      · obtain ⟨before, t', after, rfl, hbefore, ht'⟩ := ih fun hinputs => h ⟨ht, hinputs⟩
        exact ⟨t :: before, t', after, rfl, ⟨ht, hbefore⟩, ht'⟩
      · exact ⟨[], t, inputs, rfl, trivial, ht⟩

/-- Conditions that agree at every reachable state agree along runs. -/
theorem along_iff {init : σ} {P Q : σ → τ → Prop}
    (h : ∀ s t, Reachable next init s → (P s t ↔ Q s t)) {s : σ} (hs : Reachable next init s)
    {inputs : List τ} : Along next P s inputs ↔ Along next Q s inputs := by
  induction inputs generalizing s with
  | nil => exact Iff.rfl
  | cons t inputs ih => exact and_congr (h s t hs) (ih (hs.step t))

/-- **An invariant of the steps that a run takes** holds at its end. -/
theorem invariant_of_along (Inv : σ → Prop) {P : σ → τ → Prop}
    (hstep : ∀ s t, P s t → Inv s → Inv (next s t)) {s : σ} (hs : Inv s) {inputs : List τ}
    (h : Along next P s inputs) : Inv (run next s inputs) := by
  induction inputs generalizing s with
  | nil => exact hs
  | cons t inputs ih =>
      obtain ⟨ht, hinputs⟩ := h
      exact ih (hstep s t ht hs) hinputs

/-- A condition whose steps keep an invariant is met together with the invariant. -/
theorem along_and_of_invariant (Inv : σ → Prop) {P : σ → τ → Prop}
    (hstep : ∀ s t, P s t → Inv s → Inv (next s t)) {s : σ} (hs : Inv s) {inputs : List τ}
    (h : Along next P s inputs) : Along next (fun s t => P s t ∧ Inv s) s inputs := by
  induction inputs generalizing s with
  | nil => trivial
  | cons t inputs ih =>
      obtain ⟨ht, hinputs⟩ := h
      exact ⟨⟨ht, hs⟩, ih (hstep s t ht hs) hinputs⟩

/-- **Steps that respect a preorder respect it along the run.** -/
theorem related_of_along {init : σ} {P : σ → τ → Prop} {R : σ → σ → Prop} (hrefl : ∀ s, R s s)
    (htrans : ∀ {s s' s''}, R s s' → R s' s'' → R s s'')
    (hstep : ∀ s t, Reachable next init s → P s t → R s (next s t)) {s : σ}
    (hs : Reachable next init s) {inputs : List τ} (h : Along next P s inputs) :
    R s (run next s inputs) := by
  induction inputs generalizing s with
  | nil => exact hrefl s
  | cons t inputs ih =>
      obtain ⟨ht, hinputs⟩ := h
      exact htrans (hstep s t hs ht) (ih (hs.step t) hinputs)

end Runs

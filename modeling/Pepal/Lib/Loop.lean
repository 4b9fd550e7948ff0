import Mathlib.Computability.StateTransition

/-!
# Loops without a bound

A `while` loop is its round: a function from a state to the next one, or to
nothing when the loop ends. `StateTransition.eval` is the state in which the
loop ends, if it does, and `Reaches` has the states that it passes through. The
rules here are those of a loop that is followed round by round: what one round
does, what holds of all states that are reached, and when there is no end.
-/

namespace Loop

open StateTransition

variable {σ : Type*} {round : σ → Option σ} {s t : σ}

theorem mem_eval_of_done (h : round s = none) : s ∈ eval round s :=
  mem_eval.mpr ⟨.refl, h⟩

theorem mem_eval_iff_of_done (h : round s = none) : t ∈ eval round s ↔ t = s := by
  constructor
  · intro hend
    exact Part.mem_unique hend (mem_eval_of_done h)
  · rintro rfl
    exact mem_eval_of_done h

theorem eval_of_round (h : round s = some t) : eval round s = eval round t :=
  reaches_eval (.single h)

/-- A property of all states that are reached, by the first round. -/
theorem forall_reaches_iff {P : σ → Prop} :
    (∀ t, Reaches round s t → P t) ↔
      P s ∧ ∀ t, round s = some t → ∀ u, Reaches round t u → P u := by
  constructor
  · intro h
    refine ⟨h s .refl, ?_⟩
    intro t hround u hreaches
    exact h u (.head hround hreaches)
  · rintro ⟨hs, hnext⟩ t hreaches
    rcases Relation.ReflTransGen.cases_head hreaches with rfl | ⟨u, hround, hrest⟩
    · exact hs
    · exact hnext u hround t hrest

theorem forall_reaches_of_done {P : σ → Prop} (h : round s = none) :
    (∀ t, Reaches round s t → P t) ↔ P s := by
  rw [forall_reaches_iff, h]
  simp

theorem forall_reaches_of_round {P : σ → Prop} (h : round s = some t) :
    (∀ u, Reaches round s u → P u) ↔ P s ∧ ∀ u, Reaches round t u → P u := by
  rw [forall_reaches_iff, h]
  simp

/-- What every round keeps holds of all states that are reached. -/
theorem invariant_of_reaches {I : σ → Prop} (hround : ∀ s t, round s = some t → I s → I t)
    (hs : I s) (hreaches : Reaches round s t) : I t := by
  induction hreaches with
  | refl => exact hs
  | tail _ hlast ih => exact hround _ _ hlast ih

/-- **A loop whose invariant always allows another round has no end.** -/
theorem endless {I : σ → Prop} (hround : ∀ s, I s → ∃ t, round s = some t ∧ I t) (hs : I s)
    (t : σ) : t ∉ eval round s := by
  intro hend
  obtain ⟨hreaches, hdone⟩ := mem_eval.mp hend
  have hkept : ∀ s t, round s = some t → I s → I t := by
    intro s t hst hI
    obtain ⟨u, hsu, hu⟩ := hround s hI
    rw [hst] at hsu
    rwa [Option.some.inj hsu]
  obtain ⟨u, hnext, -⟩ := hround t (invariant_of_reaches hkept hs hreaches)
  rw [hdone] at hnext
  cases hnext

end Loop

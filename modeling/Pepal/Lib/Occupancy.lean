import Mathlib.Algebra.BigOperators.Ring.Finset
import Mathlib.Algebra.Group.Action.Defs
import Mathlib.Algebra.Order.Field.Rat
import Mathlib.Data.Finset.Powerset
import Mathlib.Data.Fintype.BigOperators
import Mathlib.Data.Nat.Cast.Field
import Mathlib.Tactic.FieldSimp
import Mathlib.Tactic.Ring

/-!
# How many groups a choice hits

Cells are arranged in groups, and a number of cells is chosen. Summed over all
choices of one size, the number of groups with a chosen cell is counted group
by group: a choice misses a group if it is made among the other cells
(`sum_hit_add_missed`). For groups of one size this gives the average
(`average_hit`).
-/

namespace Occupancy

open Finset

variable {Cell Group : Type*} [DecidableEq Group]

/-- The number of groups that contain a chosen cell. -/
def hit (group : Cell → Group) (chosen : Finset Cell) : ℕ := #(chosen.image group)

variable [Fintype Cell]

/-- The cells outside of a group. -/
def others (group : Cell → Group) (g : Group) : Finset Cell := {x | group x ≠ g}

theorem mem_others {group : Cell → Group} {g : Group} {x : Cell} :
    x ∈ others group g ↔ group x ≠ g := by
  rw [others, mem_filter, and_iff_right (mem_univ x)]

variable [DecidableEq Cell]

theorem hit_add_missed [Fintype Group] (group : Cell → Group) (chosen : Finset Cell) :
    hit group chosen + #{g : Group | chosen ⊆ others group g} = Fintype.card Group := by
  have hmissed : ({g : Group | chosen ⊆ others group g} : Finset Group) =
      (chosen.image group)ᶜ := by
    ext g
    simp only [mem_filter, mem_univ, true_and, mem_compl, mem_image, subset_iff, mem_others]
    constructor
    · rintro hall ⟨x, hx, hg⟩
      exact hall hx hg
    · intro hnone x hx hg
      exact hnone ⟨x, hx, hg⟩
  rw [hmissed, hit, card_add_card_compl]

/-- The choices that miss a group are made among the other cells. -/
theorem card_missing (group : Cell → Group) (m : ℕ) (g : Group) :
    #{chosen ∈ powersetCard m univ | chosen ⊆ others group g} = (#(others group g)).choose m := by
  rw [← card_powersetCard]
  congr 1
  ext chosen
  simp only [mem_filter, mem_powersetCard, subset_univ, true_and]
  exact and_comm

/-- **Double counting**, over the choices and over the groups that they miss. -/
theorem sum_hit_add_missed [Fintype Group] (group : Cell → Group) (m : ℕ) :
    ∑ chosen ∈ powersetCard m univ, hit group chosen +
        ∑ g : Group, (#(others group g)).choose m =
      Fintype.card Group * (Fintype.card Cell).choose m := by
  have hmissed : ∑ g : Group, (#(others group g)).choose m =
      ∑ chosen ∈ powersetCard m univ, #{g : Group | chosen ⊆ others group g} := by
    simp only [← card_missing, card_filter]
    exact sum_comm
  rw [hmissed, ← sum_add_distrib, sum_congr rfl fun chosen _ => hit_add_missed group chosen,
    sum_const, card_powersetCard, card_univ, smul_eq_mul, mul_comm]

/-- The average over all choices of `m` cells of the number of groups hit. -/
def average (group : Cell → Group) (m : ℕ) : ℚ :=
  (∑ chosen ∈ powersetCard m univ, (hit group chosen : ℚ)) / #(powersetCard m (univ : Finset Cell))

/-- **The average number of groups hit**, where outside of each group there are
`rest` cells. -/
theorem average_hit [Fintype Group] (group : Cell → Group) {m rest : ℕ}
    (hrest : ∀ g, #(others group g) = rest)
    (hm : m ≤ Fintype.card Cell) :
    average group m = Fintype.card Group *
      (1 - (rest.choose m : ℚ) / ((Fintype.card Cell).choose m : ℚ)) := by
  have hmissed : ∑ g : Group, (#(others group g)).choose m =
      Fintype.card Group * rest.choose m := by
    simp only [hrest, sum_const, card_univ, smul_eq_mul]
  have hcount := sum_hit_add_missed group m
  rw [hmissed] at hcount
  have hcast : (∑ chosen ∈ powersetCard m univ, (hit group chosen : ℚ)) +
      Fintype.card Group * (rest.choose m : ℚ) =
        Fintype.card Group * ((Fintype.card Cell).choose m : ℚ) := by
    exact_mod_cast hcount
  have hpos : ((Fintype.card Cell).choose m : ℚ) ≠ 0 :=
    Nat.cast_ne_zero.mpr (Nat.choose_pos hm).ne'
  unfold average
  rw [card_powersetCard, card_univ, eq_sub_of_add_eq hcast]
  field_simp

end Occupancy

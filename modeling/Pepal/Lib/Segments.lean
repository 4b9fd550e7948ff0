import Mathlib.Algebra.Order.Ring.Nat
import Mathlib.Data.List.Count
import Mathlib.Data.List.Nodup
import Mathlib.Data.List.Pairwise
import Mathlib.Data.List.Perm.Subperm

/-!
# Segments of cells

Cells are numbered from 0. A list of segments, each with the number of its first
cell and a length, goes over every cell below `n` once, and over no other,
exactly if every segment ends below `n`, no two share a cell and the lengths add up
to `n`: apart and inside there is no room for a gap.
-/

namespace Segments

/-- The numbers below `n`, each once. -/
def Once (cells : List ℕ) (n : ℕ) : Prop := (∀ p ∈ cells, p < n) ∧ ∀ p < n, cells.count p = 1

theorem once_iff {cells : List ℕ} {n : ℕ} :
    Once cells n ↔ (∀ p ∈ cells, p < n) ∧ cells.Nodup ∧ cells.length = n := by
  constructor
  · rintro ⟨hlt, hcount⟩
    have hnodup : cells.Nodup := by
      refine List.nodup_iff_count_le_one.mpr fun p => ?_
      by_cases hp : p ∈ cells
      · exact (hcount p (hlt p hp)).le
      · rw [List.count_eq_zero_of_not_mem hp]
        exact Nat.zero_le 1
    have hperm : cells.Perm (List.range n) := by
      refine (List.perm_ext_iff_of_nodup hnodup List.nodup_range).mpr fun p => ?_
      rw [List.mem_range]
      constructor
      · exact hlt p
      · intro hp
        exact List.count_pos_iff.mp ((hcount p hp).symm ▸ Nat.one_pos)
    exact ⟨hlt, hnodup, hperm.length_eq.trans List.length_range⟩
  · rintro ⟨hlt, hnodup, hlength⟩
    have hsub : cells ⊆ List.range n := fun p hp => List.mem_range.mpr (hlt p hp)
    have hperm : cells.Perm (List.range n) :=
      (hnodup.subperm hsub).perm_of_length_le (List.length_range.trans hlength.symm).le
    refine ⟨hlt, fun p hp => ?_⟩
    rw [hperm.count_eq]
    exact List.count_eq_one_of_mem List.nodup_range (List.mem_range.mpr hp)

section Cells

variable {ι : Type} (start length : ι → ℕ)

def cells (segments : List ι) : List ℕ :=
  segments.flatMap fun r => List.range' (start r) (length r)

/-- Two segments without a common cell. -/
def Apart (r r' : ι) : Prop :=
  start r + length r ≤ start r' ∨ start r' + length r' ≤ start r

instance : Std.Symm (Apart start length) where
  symm _ _ h := h.symm

variable {start length} {segments : List ι}

theorem disjoint_iff_apart {r r' : ι} (hr : 0 < length r) (hr' : 0 < length r') :
    List.Disjoint (List.range' (start r) (length r)) (List.range' (start r') (length r')) ↔
      Apart start length r r' := by
  unfold Apart
  constructor
  · intro h
    by_contra hoverlap
    have hmax : max (start r) (start r') ∈ List.range' (start r) (length r) := by
      rw [List.mem_range'_1]
      omega
    have hmax' : max (start r) (start r') ∈ List.range' (start r') (length r') := by
      rw [List.mem_range'_1]
      omega
    exact h hmax hmax'
  · intro h p hp hp'
    rw [List.mem_range'_1] at hp hp'
    omega

theorem length_cells : (cells start length segments).length = (segments.map length).sum := by
  unfold cells
  rw [List.length_flatMap]
  simp only [List.length_range']

theorem forall_cells_lt {n : ℕ} (hpos : ∀ r ∈ segments, 0 < length r) :
    (∀ p ∈ cells start length segments, p < n) ↔ ∀ r ∈ segments, start r + length r ≤ n := by
  simp only [cells, List.mem_flatMap, List.mem_range'_1]
  constructor
  · intro h r hr
    have hlast := h (start r + length r - 1) ⟨r, hr, by have := hpos r hr; omega⟩
    omega
  · rintro h p ⟨r, hr, hp⟩
    have hend := h r hr
    omega

theorem nodup_cells (hnodup : segments.Nodup) (hpos : ∀ r ∈ segments, 0 < length r) :
    (cells start length segments).Nodup ↔
      ∀ r ∈ segments, ∀ r' ∈ segments, r ≠ r' → Apart start length r r' := by
  unfold cells
  rw [List.nodup_flatMap]
  constructor
  · rintro ⟨-, hdisjoint⟩ r hr r' hr' hne
    have hapart : segments.Pairwise (Apart start length) :=
      hdisjoint.imp_of_mem fun hr hr' h => (disjoint_iff_apart (hpos _ hr) (hpos _ hr')).mp h
    exact hapart.forall hr hr' hne
  · intro hapart
    refine ⟨fun r _ => List.nodup_range', ?_⟩
    refine hnodup.pairwise_of_forall_ne fun r hr r' hr' hne => ?_
    exact (disjoint_iff_apart (hpos r hr) (hpos r' hr')).mpr (hapart r hr r' hr' hne)

/-- **Segments that are inside and apart, and long enough together, go over every cell
once.** -/
theorem once_cells_iff {n : ℕ} (hnodup : segments.Nodup) (hpos : ∀ r ∈ segments, 0 < length r) :
    Once (cells start length segments) n ↔ (∀ r ∈ segments, start r + length r ≤ n) ∧
      (∀ r ∈ segments, ∀ r' ∈ segments, r ≠ r' → Apart start length r r') ∧
      (segments.map length).sum = n := by
  rw [once_iff, forall_cells_lt hpos, nodup_cells hnodup hpos, length_cells]

end Cells

end Segments

import Mathlib.Algebra.Order.Ring.Nat
import Mathlib.Data.List.Basic
import Mathlib.Tactic.Ring
import Pepal.Lib.Fallible

/-!
# Rectangles stored in rows, and their tiles

`rows w h f` is the rectangle with `f x y` at column `x` and row `y`, listed row
by row, so that this entry is the one at `x + y * w`. A rectangle of `s` by `s`
tiles of width `w` and height `h` is `s * w` wide; the tile in tile row `i` and
tile column `j` has its corner at column `w * j` and row `h * i`.

Cells are stored to one by one and are empty before. Where the tiles are stored
each at its place, the cells hold the whole rectangle at the end, whatever the
order within a tile (`stored_tiles`).
-/

namespace Tiling

variable {α : Type}

/-! ## Rows -/

def rows (w h : ℕ) (f : ℕ → ℕ → α) : List α :=
  (List.range h).flatMap fun y => (List.range w).map fun x => f x y

theorem rows_succ (w h : ℕ) (f : ℕ → ℕ → α) :
    rows w (h + 1) f = (List.range w).map (fun x => f x 0) ++ rows w h fun x y => f x (y + 1) := by
  unfold rows
  rw [List.range_succ_eq_map, List.flatMap_cons, List.flatMap_map]

theorem length_rows (w h : ℕ) (f : ℕ → ℕ → α) : (rows w h f).length = w * h := by
  induction h generalizing f with
  | zero => rfl
  | succ h ih =>
      rw [rows_succ, List.length_append, List.length_map, List.length_range, ih]
      ring

theorem mem_rows {w h : ℕ} {f : ℕ → ℕ → α} {a : α} :
    a ∈ rows w h f ↔ ∃ x y, x < w ∧ y < h ∧ f x y = a := by
  simp only [rows, List.mem_flatMap, List.mem_map, List.mem_range]
  constructor
  · rintro ⟨y, hy, x, hx, hf⟩
    exact ⟨x, y, hx, hy, hf⟩
  · rintro ⟨x, y, hx, hy, hf⟩
    exact ⟨y, hy, x, hx, hf⟩

theorem map_rows {β : Type} (w h : ℕ) (f : ℕ → ℕ → α) (g : α → β) :
    (rows w h f).map g = rows w h fun x y => g (f x y) := by
  simp only [rows, List.map_flatMap, List.map_map, Function.comp_def]

theorem getElem?_rows {w h : ℕ} (f : ℕ → ℕ → α) {x y : ℕ} (hx : x < w) (hy : y < h) :
    (rows w h f)[x + y * w]? = some (f x y) := by
  induction h generalizing f y with
  | zero => exact absurd hy (Nat.not_lt_zero y)
  | succ h ih =>
      rw [rows_succ]
      cases y with
      | zero =>
          rw [Nat.zero_mul, Nat.add_zero, List.getElem?_append_left, List.getElem?_map,
            List.getElem?_range hx]
          · rfl
          · rwa [List.length_map, List.length_range]
      | succ y =>
          have hpast : x + (y + 1) * w = w + (x + y * w) := by ring
          rw [hpast, List.getElem?_append_right, List.length_map, List.length_range,
            Nat.add_sub_cancel_left, ih _ (Nat.lt_of_succ_lt_succ hy)]
          rw [List.length_map, List.length_range]
          exact Nat.le_add_right w _

/-- Every place of a rectangle is at some column and row. -/
theorem exists_place {w h p : ℕ} (hp : p < w * h) : ∃ x y, x < w ∧ y < h ∧ p = x + y * w := by
  have hw : 0 < w := by
    rcases Nat.eq_zero_or_pos w with rfl | hw
    · rw [Nat.zero_mul] at hp
      exact absurd hp (Nat.not_lt_zero p)
    · exact hw
  exact ⟨p % w, p / w, Nat.mod_lt p hw, Nat.div_lt_of_lt_mul hp, (Nat.mod_add_div' p w).symm⟩

theorem place_lt {w h x y : ℕ} (hx : x < w) (hy : y < h) : x + y * w < w * h := by
  calc x + y * w < w + y * w := Nat.add_lt_add_right hx _
    _ = w * (y + 1) := by ring
    _ ≤ w * h := Nat.mul_le_mul_left w hy

/-- A list of the right length is a rectangle. -/
theorem rows_getD {w h : ℕ} {l : List α} (hl : l.length = w * h) (d : α) :
    rows w h (fun x y => l.getD (x + y * w) d) = l := by
  apply List.ext_getElem?
  intro p
  by_cases hp : p < w * h
  · obtain ⟨x, y, hx, hy, rfl⟩ := exists_place hp
    rw [getElem?_rows _ hx hy, List.getD_eq_getElem?_getD, List.getElem?_eq_getElem (by omega)]
    rfl
  · rw [List.getElem?_eq_none (by rw [length_rows]; omega), List.getElem?_eq_none (by omega)]

theorem rows_congr {w h : ℕ} {f g : ℕ → ℕ → α}
    (hfg : ∀ x y, x < w → y < h → f x y = g x y) : rows w h f = rows w h g := by
  unfold rows
  rw [List.flatMap_def, List.flatMap_def]
  refine congrArg List.flatten (List.map_congr_left fun y hy => ?_)
  exact List.map_congr_left fun x hx => hfg x y (List.mem_range.mp hx) (List.mem_range.mp hy)

/-! ## Loops over rows and columns -/

/-- Two loops, over the rows and in a row over the columns. -/
def rowsM (w h : ℕ) (f : ℕ → ℕ → Option α) : Option (List α) :=
  ((List.range h).mapM fun y => (List.range w).mapM fun x => f x y).map List.flatten

theorem rowsM_of_some {w h : ℕ} {f : ℕ → ℕ → Option α} {g : ℕ → ℕ → α}
    (hf : ∀ x y, x < w → y < h → f x y = some (g x y)) : rowsM w h f = some (rows w h g) := by
  have hrow : ∀ y ∈ List.range h, ((List.range w).mapM fun x => f x y) =
      some ((List.range w).map fun x => g x y) :=
    fun y hy => Fallible.mapM_of_some fun x hx =>
      hf x y (List.mem_range.mp hx) (List.mem_range.mp hy)
  unfold rowsM rows
  rw [Fallible.mapM_of_some hrow, Option.map_some, List.flatMap_def]

theorem rowsM_some_map {β : Type} {w h : ℕ} {f : ℕ → ℕ → Option α} {g : ℕ → ℕ → Option β}
    {φ : α → β} (hfg : ∀ x y a, x < w → y < h → f x y = some a → g x y = some (φ a)) {l : List α}
    (hl : rowsM w h f = some l) : rowsM w h g = some (l.map φ) := by
  obtain ⟨cells, hcells, rfl⟩ := Option.map_eq_some_iff.mp hl
  have hrows := Fallible.mapM_some_map (g := fun y => (List.range w).mapM fun x => g x y)
    (φ := List.map φ)
    (fun y hy row hrow => Fallible.mapM_some_map
      (fun x hx a => hfg x y a (List.mem_range.mp hx) (List.mem_range.mp hy)) hrow) hcells
  unfold rowsM
  rw [hrows, Option.map_some, List.map_flatten]

/-- The results of two loops, from those of the inner body. -/
theorem rowsM_eq_some {w h : ℕ} {f : ℕ → ℕ → Option α} {g : ℕ → ℕ → α}
    (hfg : ∀ x y a, x < w → y < h → f x y = some a → a = g x y) {l : List α}
    (hl : rowsM w h f = some l) : l = rows w h g := by
  have hrows := rowsM_some_map (g := fun x y => some (g x y)) (φ := id)
    (fun x y a hx hy ha => congrArg some (hfg x y a hx hy ha).symm) hl
  rw [rowsM_of_some fun _ _ _ _ => rfl, List.map_id] at hrows
  exact (Option.some.inj hrows).symm

/-! ## Cells -/

/-- The cells after some stores. -/
def stored (cells : List (Option α)) (writes : List (ℕ × α)) : List (Option α) :=
  writes.foldl (fun cells w => cells.set w.1 (some w.2)) cells

theorem stored_append (cells : List (Option α)) (writes more : List (ℕ × α)) :
    stored cells (writes ++ more) = stored (stored cells writes) more := List.foldl_append

theorem length_stored (cells : List (Option α)) (writes : List (ℕ × α)) :
    (stored cells writes).length = cells.length := by
  induction writes generalizing cells with
  | nil => rfl
  | cons w writes ih => exact (ih _).trans List.length_set

/-- A cell that holds what `g` says of its place, or is stored to, holds it at
the end, if every store is of what `g` says. -/
theorem getElem?_stored {g : ℕ → α} {writes : List (ℕ × α)} (hg : ∀ w ∈ writes, w.2 = g w.1)
    {cells : List (Option α)} {p : ℕ} (hp : p < cells.length)
    (h : cells[p]? = some (some (g p)) ∨ p ∈ writes.map Prod.fst) :
    (stored cells writes)[p]? = some (some (g p)) := by
  induction writes generalizing cells with
  | nil => exact h.resolve_right List.not_mem_nil
  | cons w writes ih =>
      have hrest : ∀ w' ∈ writes, w'.2 = g w'.1 := fun w' hw' => hg w' (List.mem_cons_of_mem w hw')
      show (stored (cells.set w.1 (some w.2)) writes)[p]? = _
      apply ih hrest (by rwa [List.length_set])
      by_cases hw : w.1 = p
      · left
        rw [hw, List.getElem?_set_self hp, hg w List.mem_cons_self, hw]
      · rw [List.getElem?_set_ne hw]
        rcases h with hcell | hmem
        · exact Or.inl hcell
        · rw [List.map_cons, List.mem_cons] at hmem
          exact Or.inr (hmem.resolve_left fun heq => hw heq.symm)

/-! ## Tiles -/

/-- The stores of the tile in row `i` and column `j` of the tiles. -/
def tileWrites (s w h : ℕ) (f : ℕ → ℕ → α) (i j : ℕ) : List (ℕ × α) :=
  rows w h fun l k => ((w * j + l) + (h * i + k) * (s * w), f (w * j + l) (h * i + k))

theorem tile_lt {s n a b : ℕ} (ha : a < s) (hb : b < n) : n * a + b < s * n := by
  calc n * a + b < n * a + n := Nat.add_lt_add_left hb _
    _ = n * (a + 1) := by ring
    _ ≤ n * s := Nat.mul_le_mul_left n ha
    _ = s * n := Nat.mul_comm n s

theorem exists_tile {s n x : ℕ} (hx : x < s * n) : ∃ a b, a < s ∧ b < n ∧ n * a + b = x := by
  obtain ⟨b, a, hb, ha, rfl⟩ := exists_place (w := n) (h := s) (by rwa [Nat.mul_comm])
  exact ⟨a, b, ha, hb, by ring⟩

/-- What is to be in a rectangle at each place. -/
def entry (w : ℕ) (f : ℕ → ℕ → α) (p : ℕ) : α := f (p % w) (p / w)

theorem entry_place {w x : ℕ} (hx : x < w) (f : ℕ → ℕ → α) (y : ℕ) :
    entry w f (x + y * w) = f x y := by
  unfold entry
  rw [Nat.add_mul_mod_self_right, Nat.mod_eq_of_lt hx,
    Nat.add_mul_div_right _ _ (Nat.zero_lt_of_lt hx), Nat.div_eq_of_lt hx, Nat.zero_add]

theorem tileWrites_entry {s w h : ℕ} {f : ℕ → ℕ → α} {i j : ℕ} (hj : j < s) :
    ∀ wr ∈ tileWrites s w h f i j, wr.2 = entry (s * w) f wr.1 := by
  intro wr hwr
  obtain ⟨l, k, hl, -, rfl⟩ := mem_rows.mp hwr
  exact (entry_place (tile_lt hj hl) f _).symm

/-- Every place is in some tile. -/
theorem mem_tileWrites {s w h p : ℕ} (f : ℕ → ℕ → α) (hp : p < s * w * (s * h)) :
    ∃ t < s * s, p ∈ (tileWrites s w h f (t / s) (t % s)).map Prod.fst := by
  obtain ⟨x, y, hx, hy, rfl⟩ := exists_place hp
  obtain ⟨j, l, hj, hl, rfl⟩ := exists_tile hx
  obtain ⟨i, k, hi, hk, rfl⟩ := exists_tile hy
  refine ⟨j + i * s, place_lt hj hi, ?_⟩
  have hdiv : (j + i * s) / s = i := by
    rw [Nat.add_mul_div_right _ _ (Nat.zero_lt_of_lt hj), Nat.div_eq_of_lt hj, Nat.zero_add]
  have hmod : (j + i * s) % s = j := by
    rw [Nat.add_mul_mod_self_right, Nat.mod_eq_of_lt hj]
  rw [hdiv, hmod]
  exact List.mem_map.mpr ⟨_, mem_rows.mpr ⟨l, k, hl, hk, rfl⟩, rfl⟩

/-- **The tiles, each stored at its place, make up the rectangle.** -/
theorem stored_tiles (s w h : ℕ) (f : ℕ → ℕ → α) :
    stored (List.replicate (s * w * (s * h)) none)
        ((List.range (s * s)).flatMap fun t => tileWrites s w h f (t / s) (t % s)) =
      (rows (s * w) (s * h) f).map some := by
  apply List.ext_getElem?
  intro p
  by_cases hp : p < s * w * (s * h)
  · have hvalue : ∀ wr ∈ (List.range (s * s)).flatMap fun t => tileWrites s w h f (t / s) (t % s),
        wr.2 = entry (s * w) f wr.1 := by
      intro wr hwr
      obtain ⟨t, ht, hwr⟩ := List.mem_flatMap.mp hwr
      have hs : 0 < s := Nat.pos_of_mul_pos_left (Nat.zero_lt_of_lt (List.mem_range.mp ht))
      exact tileWrites_entry (Nat.mod_lt t hs) wr hwr
    have hcover : p ∈ ((List.range (s * s)).flatMap fun t =>
        tileWrites s w h f (t / s) (t % s)).map Prod.fst := by
      obtain ⟨t, ht, hmem⟩ := mem_tileWrites f hp
      rw [List.map_flatMap]
      exact List.mem_flatMap.mpr ⟨t, List.mem_range.mpr ht, hmem⟩
    rw [getElem?_stored hvalue (by rwa [List.length_replicate]) (Or.inr hcover)]
    obtain ⟨x, y, hx, hy, rfl⟩ := exists_place hp
    rw [List.getElem?_map, getElem?_rows f hx hy, entry_place hx]
    rfl
  · rw [List.getElem?_eq_none, List.getElem?_eq_none]
    · rw [List.length_map, length_rows]
      exact Nat.le_of_not_lt hp
    · rw [length_stored, List.length_replicate]
      exact Nat.le_of_not_lt hp

end Tiling

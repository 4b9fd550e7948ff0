import Pepal.Lib.Segments
import Pepal.Pgm.Join
import Pepal.Pgm.WellFormed

/-!
# Where join stores the parts

The size of the buffer comes from the first part, the place of every part from
its own width and height. So the rows of the parts, one segment of the buffer
each, need not lie in it, nor side by side: they do where all parts have one
size, and in general where they are inside, apart and long enough together.
-/

namespace Pepal.Pgm

open Tiling

/-- The places of `storePart`, without the bytes. -/
def partPlaces (width_new : ℤ) (h : Header) (sqrt_n i : ℤ) : Option (List ℤ) := do
  let down ← mul (← mul width_new h.height) (← div i sqrt_n)
  let upper_left ← add down (← mul h.width (← mod i sqrt_n))
  rowsM h.width.toNat h.height.toNat fun l k => do add (← add upper_left l) (← mul k width_new)

theorem place_of_write {p l k W w : ℤ} {content : List UInt8} {write : ℤ × UInt8}
    (h : (do
      let place ← add (← add p l) (← mul k W)
      let x ← get content (← add (← mul k w) l)
      some (place, x)) = some write) :
    (do add (← add p l) (← mul k W)) = some write.1 := by
  obtain ⟨m, hm, h⟩ := Option.bind_eq_some_iff.mp h
  obtain ⟨q, hq, h⟩ := Option.bind_eq_some_iff.mp h
  obtain ⟨a, ha, h⟩ := Option.bind_eq_some_iff.mp h
  obtain ⟨r, -, h⟩ := Option.bind_eq_some_iff.mp h
  obtain ⟨b, -, h⟩ := Option.bind_eq_some_iff.mp h
  obtain ⟨x, -, ⟨⟩⟩ := Option.bind_eq_some_iff.mp h
  simp only [hm, hq, ha, Option.bind_eq_bind, Option.bind_some]

/-- A part that is stored is stored at these places. -/
theorem partPlaces_of_storePart {j j' : Joined} {h : Header} {content : List UInt8} {sqrt_n i : ℤ}
    (hstore : storePart j h content sqrt_n i = some j') :
    ∃ writes : List (ℤ × UInt8), partPlaces j.width_new h sqrt_n i = some (writes.map Prod.fst) ∧
      writes.foldlM store j.content_new = some j'.content_new := by
  obtain ⟨a, ha, hstore⟩ := Option.bind_eq_some_iff.mp hstore
  obtain ⟨b, hb, hstore⟩ := Option.bind_eq_some_iff.mp hstore
  obtain ⟨down, hdown, hstore⟩ := Option.bind_eq_some_iff.mp hstore
  obtain ⟨c, hc, hstore⟩ := Option.bind_eq_some_iff.mp hstore
  obtain ⟨d, hd, hstore⟩ := Option.bind_eq_some_iff.mp hstore
  obtain ⟨upper_left, hcorner, hstore⟩ := Option.bind_eq_some_iff.mp hstore
  obtain ⟨writes, hwrites, hstore⟩ := Option.bind_eq_some_iff.mp hstore
  obtain ⟨content_new, hcontent, ⟨⟩⟩ := Option.bind_eq_some_iff.mp hstore
  have hplaces := rowsM_some_map (φ := Prod.fst)
    (fun l k write _ _ hwrite => place_of_write hwrite) hwrites
  refine ⟨writes, ?_, hcontent⟩
  unfold partPlaces
  simp only [ha, hb, hdown, hc, hd, hcorner, Option.bind_eq_bind, Option.bind_some]
  exact hplaces

/-- Every place that a run stores to is in the output, and every place of the
output is stored to once. Without parts there is no output. -/
def WritesOnce (s : ℕ) (files : ℕ → List UInt8) : Prop :=
  0 < s ∧ atoi (print (s * s : ℕ)) = some ((s * s : ℕ) : ℤ) ∧
    ∃ (h : ℕ → Header) (rest : ℕ → List UInt8) (j : Joined) (size : ℤ) (places : ℕ → List ℤ),
      (∀ t < s * s, readHeader "Wrong file format \n" (files t) = pure (h t, rest t)) ∧
      start (h 0) s = some j ∧ mul j.width_new j.height_new = some size ∧
      (∀ t < s * s, partPlaces j.width_new (h t) s t = some (places t)) ∧
      (∀ p ∈ (List.range (s * s)).flatMap places, 0 ≤ p ∧ p < size) ∧
      ∀ p, 0 ≤ p → p < size → ((List.range (s * s)).flatMap places).count p = 1

/-- Join ends with an error, or stores to every place of its output once. -/
def ErrorOrOnce (source : String) (s : ℕ) (files : ℕ → List UInt8) : Prop :=
  (∃ text, join source (print (s * s : ℕ)) (fun t => some (files t)) = throw text) ∨
    WritesOnce s files

/-! ## The rows of the parts -/

/-- Where row `k` of part `t` begins, in an output of width `W`. -/
def rowStart (W s w h t k : ℕ) : ℕ := W * h * (t / s) + w * (t % s) + k * W

/-- What the sizes of `s * s` parts have to be: the output has an `int` of pixels,
and the rows are inside, apart and long enough together. -/
structure Tiles (s : ℕ) (w h : ℕ → ℕ) : Prop where
  parts : 0 < s
  size : w 0 * s * (h 0 * s) < 2 ^ 31
  inside : ∀ t < s * s, ∀ k < h t,
    rowStart (w 0 * s) s (w t) (h t) t k + w t ≤ w 0 * s * (h 0 * s)
  apart : ∀ t < s * s, ∀ k < h t, ∀ t' < s * s, ∀ k' < h t', (t = t' → k ≠ k') →
    rowStart (w 0 * s) s (w t) (h t) t k + w t ≤ rowStart (w 0 * s) s (w t') (h t') t' k' ∨
      rowStart (w 0 * s) s (w t') (h t') t' k' + w t' ≤ rowStart (w 0 * s) s (w t) (h t) t k
  area : ((List.range (s * s)).map fun t => w t * h t).sum = w 0 * s * (h 0 * s)

/-- The rows, by part and number. -/
def rowsOf (s : ℕ) (h : ℕ → ℕ) : List (Σ _ : ℕ, ℕ) :=
  (List.range (s * s)).sigma fun t => List.range (h t)

section Rows

variable {W s : ℕ} {w h : ℕ → ℕ}

theorem mem_rowsOf {r : Σ _ : ℕ, ℕ} : r ∈ rowsOf s h ↔ r.1 < s * s ∧ r.2 < h r.1 := by
  rcases r with ⟨t, k⟩
  rw [rowsOf, List.mem_sigma, List.mem_range, List.mem_range]

theorem nodup_rowsOf (s : ℕ) (h : ℕ → ℕ) : (rowsOf s h).Nodup :=
  List.nodup_range.sigma fun _ => List.nodup_range

/-- The places of all parts are the cells of their rows. -/
theorem cells_rowsOf (W s : ℕ) (w h : ℕ → ℕ) :
    Segments.cells (fun r : Σ _ : ℕ, ℕ => rowStart W s (w r.1) (h r.1) r.1 r.2)
        (fun r => w r.1) (rowsOf s h) =
      (List.range (s * s)).flatMap fun t =>
        rows (w t) (h t) fun l k => rowStart W s (w t) (h t) t k + l := by
  unfold Segments.cells rowsOf List.sigma
  rw [List.flatMap_assoc]
  refine List.flatMap_congr fun t _ => ?_
  unfold rows
  rw [List.flatMap_map]
  exact List.flatMap_congr fun k _ => List.range'_eq_map_range

theorem sum_rowsOf (s : ℕ) (w h : ℕ → ℕ) :
    ((rowsOf s h).map fun r => w r.1).sum =
      ((List.range (s * s)).map fun t => w t * h t).sum := by
  have hlength : (Segments.cells (fun r : Σ _ : ℕ, ℕ => rowStart 0 s (w r.1) (h r.1) r.1 r.2)
      (fun r => w r.1) (rowsOf s h)).length = _ := Segments.length_cells
  rw [← hlength, cells_rowsOf, List.length_flatMap]
  simp only [length_rows]

end Rows

/-! ## The places of one part -/

section Part

variable {W H w h s i : ℕ} {max_grey : ℤ}

theorem place_of_some {p l k W a : ℤ} (ha : (do add (← add p l) (← mul k W)) = some a) :
    a = p + l + k * W := by
  obtain ⟨m, hm, ha⟩ := Option.bind_eq_some_iff.mp ha
  obtain ⟨q, hq, ha⟩ := Option.bind_eq_some_iff.mp ha
  rw [add_eq_some ha, add_eq_some hm, mul_eq_some hq]

/-- A part with places has a corner. -/
theorem exists_corner {width_new sqrt_n i : ℤ} {h : Header} {places : List ℤ}
    (hplaces : partPlaces width_new h sqrt_n i = some places) :
    ∃ b c, div i sqrt_n = some b ∧ mod i sqrt_n = some c ∧
      (rowsM h.width.toNat h.height.toNat fun l k => do
        add (← add (width_new * h.height * b + h.width * c) l) (← mul k width_new)) =
          some places := by
  obtain ⟨a, ha, hplaces⟩ := Option.bind_eq_some_iff.mp hplaces
  obtain ⟨b, hb, hplaces⟩ := Option.bind_eq_some_iff.mp hplaces
  obtain ⟨down, hdown, hplaces⟩ := Option.bind_eq_some_iff.mp hplaces
  obtain ⟨c, hc, hplaces⟩ := Option.bind_eq_some_iff.mp hplaces
  obtain ⟨d, hd, hplaces⟩ := Option.bind_eq_some_iff.mp hplaces
  obtain ⟨upper_left, hcorner, hplaces⟩ := Option.bind_eq_some_iff.mp hplaces
  refine ⟨b, c, hb, hc, ?_⟩
  rw [← mul_eq_some ha, ← mul_eq_some hdown, ← mul_eq_some hd, ← add_eq_some hcorner]
  exact hplaces

/-- Where all expressions are `int`s, the places are those of the rows. -/
theorem partPlaces_eq_some {places : List ℤ}
    (hplaces : partPlaces W { width := w, height := h, max_grey := max_grey } s i = some places) :
    places = (rows w h fun l k => rowStart W s w h i k + l).map Nat.cast := by
  obtain ⟨b, c, hb, hc, hrows⟩ := exists_corner hplaces
  rw [map_rows]
  refine rowsM_eq_some (fun l k a _ _ ha => ?_) hrows
  rw [place_of_some ha, div_eq_some hb, mod_eq_some hc, rowStart]
  push_cast
  ring

theorem partPlaces_of {width_new sqrt_n i a b down c d upper_left : ℤ} {h : Header}
    {places : List ℤ} (ha : mul width_new h.height = some a) (hb : div i sqrt_n = some b)
    (hdown : mul a b = some down) (hc : mod i sqrt_n = some c) (hd : mul h.width c = some d)
    (hcorner : add down d = some upper_left)
    (hplaces : (rowsM h.width.toNat h.height.toNat fun l k => do
      add (← add upper_left l) (← mul k width_new)) = some places) :
    partPlaces width_new h sqrt_n i = some places := by
  unfold partPlaces
  simp only [ha, hb, hdown, hc, hd, hcorner, Option.bind_eq_bind, Option.bind_some]
  exact hplaces

theorem place_of_values {p l k W m q a : ℤ} (hm : add p l = some m) (hq : mul k W = some q)
    (ha : add m q = some a) : (do add (← add p l) (← mul k W)) = some a := by
  simp only [hm, hq, ha, Option.bind_eq_bind, Option.bind_some]

/-- The last row bounds the height of a part. -/
theorem height_le_of_inside (hh : 0 < h) (hw : 0 < w)
    (hinside : ∀ k < h, rowStart W s w h i k + w ≤ W * H) : h ≤ H := by
  have hlast := hinside (h - 1) (Nat.sub_lt hh Nat.one_pos)
  unfold rowStart at hlast
  have hlt : (h - 1) * W < H * W := by
    rw [Nat.mul_comm H]
    omega
  have hrow := Nat.lt_of_mul_lt_mul_right hlt
  omega

/-- The places of a part inside the output are `int`s. -/
theorem partPlaces_eq (hs : 0 < s) (hi : i < 2 ^ 31) (hw : 0 < w) (hh : 0 < h)
    (hsize : W * H < 2 ^ 31) (hinside : ∀ k < h, rowStart W s w h i k + w ≤ W * H) :
    partPlaces W { width := w, height := h, max_grey := max_grey } s i =
      some ((rows w h fun l k => rowStart W s w h i k + l).map Nat.cast) := by
  have hfirst := hinside 0 hh
  unfold rowStart at hfirst
  have harea : W * h < 2 ^ 31 :=
    (Nat.mul_le_mul_left W (height_le_of_inside hh hw hinside)).trans_lt hsize
  have hdown : mul ((W * h : ℕ) : ℤ) ((i / s : ℕ) : ℤ) = some ((W * h * (i / s) : ℕ) : ℤ) :=
    mul_natCast (by omega)
  have hright : mul (w : ℤ) ((i % s : ℕ) : ℤ) = some ((w * (i % s) : ℕ) : ℤ) :=
    mul_natCast (by omega)
  have hcorner : add ((W * h * (i / s) : ℕ) : ℤ) ((w * (i % s) : ℕ) : ℤ) =
      some ((W * h * (i / s) + w * (i % s) : ℕ) : ℤ) := add_natCast (by omega)
  rw [map_rows]
  refine partPlaces_of (mul_natCast harea) (div_natCast hi hs) hdown (mod_natCast hi hs) hright
    hcorner (rowsM_of_some fun l k hl hk => ?_)
  have hcol : l < w := hl
  have hrow := hinside k hk
  unfold rowStart at hrow ⊢
  have hm : add ((W * h * (i / s) + w * (i % s) : ℕ) : ℤ) l =
      some ((W * h * (i / s) + w * (i % s) + l : ℕ) : ℤ) := add_natCast (by omega)
  have hq : mul k W = some ((k * W : ℕ) : ℤ) := mul_natCast (by omega)
  have hsum : W * h * (i / s) + w * (i % s) + l + k * W =
      W * h * (i / s) + w * (i % s) + k * W + l := by ring
  refine place_of_values hm hq ?_
  rw [← hsum]
  exact add_natCast (by omega)

end Part

/-- Once, for places that are `int`s. -/
theorem once_cast {cells : List ℕ} {n : ℕ} :
    ((∀ p ∈ cells.map (Nat.cast : ℕ → ℤ), 0 ≤ p ∧ p < n) ∧
        ∀ p : ℤ, 0 ≤ p → p < n → (cells.map (Nat.cast : ℕ → ℤ)).count p = 1) ↔
      Segments.Once cells n := by
  have hcount : ∀ p : ℕ, (cells.map (Nat.cast : ℕ → ℤ)).count (p : ℤ) = cells.count p :=
    fun p => List.count_map_of_injective cells _ Nat.cast_injective p
  constructor
  · rintro ⟨hlt, honce⟩
    refine ⟨fun p hp => ?_, fun p hp => ?_⟩
    · exact Nat.cast_lt.mp (hlt p (List.mem_map_of_mem hp)).2
    · exact (hcount p).symm.trans (honce p (Int.natCast_nonneg p) (Nat.cast_lt.mpr hp))
  · rintro ⟨hlt, honce⟩
    refine ⟨fun p hp => ?_, fun p hp hlt' => ?_⟩
    · obtain ⟨q, hq, rfl⟩ := List.mem_map.mp hp
      exact ⟨Int.natCast_nonneg q, Nat.cast_lt.mpr (hlt q hq)⟩
    · obtain ⟨q, rfl⟩ := Int.eq_ofNat_of_zero_le hp
      exact (hcount q).trans (honce q (Nat.cast_lt.mp hlt'))

/-! ## Tiles and stores -/

/-- The places of all parts of these sizes. -/
def allPlaces (s : ℕ) (w h : ℕ → ℕ) : List ℕ :=
  (List.range (s * s)).flatMap fun t =>
    rows (w t) (h t) fun l k => rowStart (w 0 * s) s (w t) (h t) t k + l

section Sizes

variable {s : ℕ} {w h : ℕ → ℕ}

/-- The rows go over the output once where they tile it. -/
theorem once_iff_tiles (hs : 0 < s) (hw : ∀ t, 0 < w t) (hsize : w 0 * s * (h 0 * s) < 2 ^ 31) :
    Segments.Once (allPlaces s w h) (w 0 * s * (h 0 * s)) ↔ Tiles s w h := by
  rw [allPlaces, ← cells_rowsOf, Segments.once_cells_iff (nodup_rowsOf s h) fun r _ => hw r.1,
    sum_rowsOf]
  constructor
  · rintro ⟨hinside, hapart, harea⟩
    refine ⟨hs, hsize, ?_, ?_, harea⟩
    · intro t ht k hk
      exact hinside ⟨t, k⟩ (mem_rowsOf.mpr ⟨ht, hk⟩)
    · intro t ht k hk t' ht' k' hk' hne
      refine hapart ⟨t, k⟩ (mem_rowsOf.mpr ⟨ht, hk⟩) ⟨t', k'⟩ (mem_rowsOf.mpr ⟨ht', hk'⟩) ?_
      rintro ⟨⟩
      exact hne rfl rfl
  · intro htiles
    refine ⟨?_, ?_, htiles.area⟩
    · intro r hr
      obtain ⟨ht, hk⟩ := mem_rowsOf.mp hr
      exact htiles.inside r.1 ht r.2 hk
    · rintro ⟨t, k⟩ hr ⟨t', k'⟩ hr' hne
      obtain ⟨ht, hk⟩ := mem_rowsOf.mp hr
      obtain ⟨ht', hk'⟩ := mem_rowsOf.mp hr'
      refine htiles.apart t ht k hk t' ht' k' hk' ?_
      rintro rfl rfl
      exact hne rfl

theorem Tiles.parts_lt (htiles : Tiles s w h) (hw : 0 < w 0) (hh : 0 < h 0) : s * s < 2 ^ 31 :=
  (Nat.mul_le_mul (Nat.le_mul_of_pos_left s hw) (Nat.le_mul_of_pos_left s hh)).trans_lt
    htiles.size

end Sizes

/-! ## Parts of one size -/

section Equal

variable {w h s t t' k k' : ℕ}

/-- Row `k` of the part is in row `h * (t / s) + k` of the output. -/
theorem rowStart_equal (w h s t k : ℕ) :
    rowStart (w * s) s w h t k = w * (t % s) + (h * (t / s) + k) * (w * s) := by
  unfold rowStart
  ring

theorem end_le_of_lt {y y' : ℕ} (hs : 0 < s) (hy : y < y') :
    w * (t % s) + y * (w * s) + w ≤ y' * (w * s) := by
  have hcol : w * (t % s) + w ≤ w * s := Nat.mul_le_mul_left w (Nat.mod_lt t hs)
  calc w * (t % s) + y * (w * s) + w = w * (t % s) + w + y * (w * s) := by ring
    _ ≤ w * s + y * (w * s) := Nat.add_le_add_right hcol _
    _ = (y + 1) * (w * s) := by ring
    _ ≤ y' * (w * s) := Nat.mul_le_mul_right _ hy

theorem inside_equal (ht : t < s * s) (hk : k < h) :
    rowStart (w * s) s w h t k + w ≤ w * s * (h * s) := by
  have hs : 0 < s := Nat.pos_of_mul_pos_left (Nat.zero_lt_of_lt ht)
  have hrow : h * (t / s) + k < h * s := by
    rw [Nat.mul_comm h s]
    exact tile_lt (Nat.div_lt_of_lt_mul ht) hk
  rw [rowStart_equal, Nat.mul_comm (w * s)]
  exact end_le_of_lt hs hrow

/-- Rows of parts that are in one row of the output. -/
theorem eq_of_row_eq (hk : k < h) (hk' : k' < h) (hrow : h * (t / s) + k = h * (t' / s) + k') :
    t / s = t' / s ∧ k = k' := by
  have hh : 0 < h := Nat.zero_lt_of_lt hk
  have hdiv := congrArg (· / h) hrow
  have hmod := congrArg (· % h) hrow
  simp only [Nat.mul_add_div hh, Nat.mul_add_mod, Nat.div_eq_of_lt hk, Nat.div_eq_of_lt hk',
    Nat.mod_eq_of_lt hk, Nat.mod_eq_of_lt hk', Nat.add_zero] at hdiv hmod
  exact ⟨hdiv, hmod⟩

theorem apart_equal (hs : 0 < s) (hk : k < h) (hk' : k' < h) (hne : t = t' → k ≠ k') :
    rowStart (w * s) s w h t k + w ≤ rowStart (w * s) s w h t' k' ∨
      rowStart (w * s) s w h t' k' + w ≤ rowStart (w * s) s w h t k := by
  rw [rowStart_equal, rowStart_equal]
  rcases Nat.lt_trichotomy (h * (t / s) + k) (h * (t' / s) + k') with hrow | hrow | hrow
  · exact Or.inl ((end_le_of_lt hs hrow).trans (Nat.le_add_left _ _))
  · -- in one row of the output the parts are side by side
    obtain ⟨hdown, hrows⟩ := eq_of_row_eq hk hk' hrow
    have hcols : t % s ≠ t' % s := by
      intro hcol
      refine hne ?_ hrows
      rw [← Nat.div_add_mod t s, ← Nat.div_add_mod t' s, hdown, hcol]
    rw [hrow]
    rcases Nat.lt_or_gt_of_ne hcols with hlt | hlt
    · have hle : w * (t % s) + w ≤ w * (t' % s) := Nat.mul_le_mul_left w hlt
      left
      omega
    · have hle : w * (t' % s) + w ≤ w * (t % s) := Nat.mul_le_mul_left w hlt
      right
      omega
  · exact Or.inr ((end_le_of_lt hs hrow).trans (Nat.le_add_left _ _))

/-- **Parts of one size tile the output.** -/
theorem tiles_of_equal {w h : ℕ → ℕ} (hs : 0 < s) (hsize : w 0 * s * (h 0 * s) < 2 ^ 31)
    (hequal : ∀ t < s * s, w t = w 0 ∧ h t = h 0) : Tiles s w h := by
  refine ⟨hs, hsize, ?_, ?_, ?_⟩
  · intro t ht k hk
    rw [(hequal t ht).2] at hk
    rw [(hequal t ht).1, (hequal t ht).2]
    exact inside_equal ht hk
  · intro t ht k hk t' ht' k' hk' hne
    rw [(hequal t ht).2] at hk
    rw [(hequal t' ht').2] at hk'
    rw [(hequal t ht).1, (hequal t ht).2, (hequal t' ht').1, (hequal t' ht').2]
    exact apart_equal hs hk hk' hne
  · have hareas : ((List.range (s * s)).map fun t => w t * h t) =
        (List.range (s * s)).map fun _ => w 0 * h 0 := by
      refine List.map_congr_left fun t ht => ?_
      rw [(hequal t (List.mem_range.mp ht)).1, (hequal t (List.mem_range.mp ht)).2]
    rw [hareas, List.map_const', List.sum_replicate_nat, List.length_range]
    ring

end Equal


/-! ## Runs of join -/

def widths (f : ℕ → P5) (t : ℕ) : ℕ := (f t).width

def heights (f : ℕ → P5) (t : ℕ) : ℕ := (f t).height

section Run

variable {f : ℕ → P5} {rest : ℕ → List UInt8} {s : ℕ}

theorem widths_pos (f : ℕ → P5) (t : ℕ) : 0 < widths f t := (f t).width_pos

theorem heights_pos (f : ℕ → P5) (t : ℕ) : 0 < heights f t := (f t).height_pos

theorem silent_join (source : String) (f : ℕ → P5) (rest : ℕ → List UInt8) (s : ℕ) :
    Silent (join source (print (s * s : ℕ)) fun t => some ((f t).text ++ rest t)) := by
  unfold join
  rcases hn : atoi (print (s * s : ℕ)) with _ | n
  · rintro text ⟨⟩
  · have hvalue : n = ((s * s : ℕ) : ℤ) := by
      rw [atoi_print_eq] at hn
      exact int_eq_some hn
    rw [liftM_some, pure_bind, hvalue, is_square_mul_self, if_neg (by decide)]
    refine Silent.bind (Silent.foldlM (fun joined t => ?_) _ _) fun joined => Silent.of_option _
    refine (silent_readHeader (f t) (rest t) _).bind fun r => ?_
    refine (Silent.of_option _).bind fun content => (Silent.of_option _).bind fun j => ?_
    exact (Silent.of_option _).bind fun j => Silent.of_pure _

theorem start_eq_some {h : Header} {sqrt_n : ℤ} {j : Joined} (hj : start h sqrt_n = some j) :
    j.width_new = h.width * sqrt_n ∧ j.height_new = h.height * sqrt_n := by
  obtain ⟨width_new, hw, hj⟩ := Option.bind_eq_some_iff.mp hj
  obtain ⟨height_new, hh, ⟨⟩⟩ := Option.bind_eq_some_iff.mp hj
  exact ⟨mul_eq_some hw, mul_eq_some hh⟩

theorem flatMap_places {w h : ℕ → ℕ} {places : ℕ → List ℤ} (hplaces : ∀ t < s * s,
      places t = (rows (w t) (h t) fun l k =>
        rowStart (w 0 * s) s (w t) (h t) t k + l).map Nat.cast) :
    (List.range (s * s)).flatMap places = (allPlaces s w h).map Nat.cast := by
  rw [allPlaces, List.map_flatMap]
  exact List.flatMap_congr fun t ht => hplaces t (List.mem_range.mp ht)

theorem writesOnce_of_tiles (hread : ∀ t < s * s, (f t).Reads (rest t))
    (htiles : Tiles s (widths f) (heights f)) :
    WritesOnce s fun t => (f t).text ++ rest t := by
  have hparts := htiles.parts_lt (widths_pos f 0) (heights_pos f 0)
  have hsize := htiles.size
  have hW : widths f 0 * s < 2 ^ 31 :=
    (Nat.le_mul_of_pos_right _ (Nat.mul_pos (heights_pos f 0) htiles.parts)).trans_lt hsize
  have hH : heights f 0 * s < 2 ^ 31 :=
    (Nat.le_mul_of_pos_left _ (Nat.mul_pos (widths_pos f 0) htiles.parts)).trans_lt hsize
  have hplaces : ∀ t < s * s,
      partPlaces ((widths f 0 * s : ℕ) : ℤ) (f t).header s t = some
        ((rows (widths f t) (heights f t) fun l k =>
          rowStart (widths f 0 * s) s (widths f t) (heights f t) t k + l).map Nat.cast) :=
    fun t ht => partPlaces_eq htiles.parts (ht.trans hparts) (widths_pos f t) (heights_pos f t)
      hsize (htiles.inside t ht)
  have honce := once_cast.mpr ((once_iff_tiles htiles.parts (widths_pos f) hsize).mpr htiles)
  rw [← flatMap_places fun t _ => rfl] at honce
  exact ⟨htiles.parts, atoi_print hparts, fun t => (f t).header, rest, _, _, _,
    fun t ht => (hread t ht).readHeader _, start_of (mul_natCast hW) (mul_natCast hH) rfl,
    mul_natCast hsize, hplaces, honce.1, honce.2⟩

theorem tiles_of_writesOnce (hplain : ∀ t < s * s, (f t).Plain)
    (hwrites : WritesOnce s fun t => (f t).text ++ rest t) :
    (∀ t < s * s, (f t).Reads (rest t)) ∧ Tiles s (widths f) (heights f) := by
  obtain ⟨hs, -, h, rest', j, size, places, hread, hstart, hsize, hplaces, hlt, honce⟩ := hwrites
  have hheaders := fun t ht => header_of_read (hplain t ht) (hread t ht)
  refine ⟨fun t ht => (hheaders t ht).1, ?_⟩
  obtain ⟨hW, hH⟩ := start_eq_some hstart
  rw [(hheaders 0 (Nat.mul_pos hs hs)).2] at hW hH
  have hW' : j.width_new = ((widths f 0 * s : ℕ) : ℤ) := hW.trans (Nat.cast_mul _ _).symm
  have hH' : j.height_new = ((heights f 0 * s : ℕ) : ℤ) := hH.trans (Nat.cast_mul _ _).symm
  rw [hW', hH'] at hsize
  have hvalue : size = ((widths f 0 * s * (heights f 0 * s) : ℕ) : ℤ) :=
    (mul_eq_some hsize).trans (Nat.cast_mul _ _).symm
  have hrows : ∀ t < s * s, places t = (rows (widths f t) (heights f t) fun l k =>
      rowStart (widths f 0 * s) s (widths f t) (heights f t) t k + l).map Nat.cast := by
    intro t ht
    have hpart := hplaces t ht
    rw [hW', (hheaders t ht).2] at hpart
    exact partPlaces_eq_some hpart
  rw [flatMap_places hrows, hvalue] at hlt honce
  exact (once_iff_tiles hs (widths_pos f) (lt_of_mul hsize)).mp (once_cast.mp ⟨hlt, honce⟩)

theorem tiles_of_errorOrOnce (hplain : ∀ t < s * s, (f t).Plain) {source : String}
    (h : ErrorOrOnce source s fun t => (f t).text ++ rest t) :
    (∀ t < s * s, (f t).Reads (rest t)) ∧ Tiles s (widths f) (heights f) := by
  rcases h with ⟨text, herror⟩ | hwrites
  · exact absurd herror (silent_join source f rest s text)
  · exact tiles_of_writesOnce hplain hwrites

end Run

/-- **Join stores to every place of its output once where the headers are read
and the rows of the parts tile the output**, and without comments only there. -/
theorem errorOrOnce_iff (source : String) (s : ℕ) (f : ℕ → P5) (rest : ℕ → List UInt8) :
    ((∀ t < s * s, (f t).Reads (rest t)) ∧ Tiles s (widths f) (heights f) →
        ErrorOrOnce source s fun t => (f t).text ++ rest t) ∧
      ((∀ t < s * s, (f t).Plain) → ErrorOrOnce source s (fun t => (f t).text ++ rest t) →
        (∀ t < s * s, (f t).Reads (rest t)) ∧ Tiles s (widths f) (heights f)) := by
  constructor
  · rintro ⟨hread, htiles⟩
    exact Or.inr (writesOnce_of_tiles hread htiles)
  · intro hplain h
    exact tiles_of_errorOrOnce hplain h

/-- Parts of one column: the second has four rows, all others one. -/
def tallNumbers (t : ℕ) : Numbers :=
  .bytewise 1 (if t = 1 then 4 else 1) Nat.one_pos (by
    split
    · exact Nat.succ_pos 3
    · exact Nat.one_pos)

/-- The output of the four parts has four pixels; the last byte of the second
part is stored at place 7. -/
theorem tall_not_once :
    ¬ ErrorOrOnce "/tmp/NDA/rec_out" 2 fun t =>
      (P5.written (tallNumbers t)).text ++ List.replicate (tallNumbers t).height 7 := by
  intro h
  obtain ⟨-, htiles⟩ := tiles_of_errorOrOnce (fun t _ => plain_written _) h
  have hwidth : ∀ t, widths (fun t => P5.written (tallNumbers t)) t = 1 :=
    fun t => (header_written (tallNumbers t)).1
  have hheight : ∀ t, heights (fun t => P5.written (tallNumbers t)) t = if t = 1 then 4 else 1 :=
    fun t => (header_written (tallNumbers t)).2.1
  have hinside := htiles.inside 1 (by decide) 3 (by rw [hheight]; decide)
  simp only [hwidth, hheight, rowStart] at hinside
  exact absurd hinside (by decide)

end Pepal.Pgm

import Pepal.Pgm.HeaderBounds
import Pepal.Pgm.Split

/-!
# The index arithmetic of split

What `split_pgm.cc` forms from the header, the arguments and the counters of its
loops. The size that `malloc` gets is formed in `size_t`, with 64 bits and no
sign; the line after it forms the same product in `int`, as all the others.
-/

namespace Pepal.Pgm

open Tiling

def size_t (n : ℤ) : ℕ := (n % 2 ^ 64).toNat

/-- `sizeof(char) * width*height` -/
def allocated (width height : ℤ) : ℕ := size_t (size_t (1 * size_t width) * size_t height)

/-- The indices of one run: every expression has a value, `content` has the size
of the image, and every read is inside. -/
structure InRange (width height width_split height_split : ℕ) : Prop where
  size : mul width height = some ((width * height : ℕ) : ℤ)
  allocated : allocated width height = width * height
  reads : ∀ i j : ℕ, i < height_split → j < width_split →
    ∃ w h upper_left : ℤ, div width width_split = some w ∧ div height height_split = some h ∧
      upperLeft width w h i j = some upper_left ∧
      ∀ l k : ℕ, (l : ℤ) < w → (k : ℤ) < h →
        ∃ p < width * height, readIndex width upper_left l k = some (p : ℤ)

section Nat

variable {width height : ℕ}

theorem size_t_natCast {n : ℕ} (h : n < 2 ^ 64) : size_t n = n := by
  unfold size_t
  rw [Int.emod_eq_of_lt (by omega) (by omega), Int.toNat_natCast]

theorem allocated_eq (hwidth : width < 2 ^ 31) (hheight : height < 2 ^ 31) :
    allocated width height = width * height := by
  have hsize : width * height < 2 ^ 64 :=
    (Nat.mul_lt_mul'' hwidth hheight).trans (by decide)
  unfold allocated
  rw [size_t_natCast (by omega), size_t_natCast (by omega), one_mul, size_t_natCast (by omega),
    ← Nat.cast_mul, size_t_natCast hsize]

end Nat

/-- **The indices of a run are in range where the number of pixels is an `int`**,
whatever the number of parts. -/
theorem inRange_iff {file rest : List UInt8} {width height : ℕ} {max_grey : ℤ}
    (hread : readHeader "Wrong file format in split\n" file =
      pure ({ width := width, height := height, max_grey := max_grey }, rest))
    {width_split height_split : ℕ} (hws : 0 < width_split) (hhs : 0 < height_split) :
    InRange width height width_split height_split ↔ width * height < 2 ^ 31 := by
  obtain ⟨hwidth, hheight⟩ := readHeader_lt hread
  simp only at hwidth hheight
  have hwidth' : width < 2 ^ 31 := by omega
  have hheight' : height < 2 ^ 31 := by omega
  constructor
  · intro h
    exact lt_of_mul h.size
  · intro hsize
    refine ⟨mul_natCast hsize, allocated_eq hwidth' hheight', ?_⟩
    intro i j hi hj
    refine ⟨_, _, _, div_natCast hwidth' hws, div_natCast hheight' hhs,
      upperLeft_eq hsize hwidth' hi hj, ?_⟩
    intro l k hl hk
    have hl' : l < width / width_split := Nat.cast_lt.mp hl
    have hk' : k < height / height_split := Nat.cast_lt.mp hk
    obtain ⟨hx, hy⟩ := pixel_lt hi hj hl' hk'
    exact ⟨_, place_lt hx hy, readIndex_eq hsize hi hj hl' hk'⟩

/-- A header and nothing after it. -/
def headerOnly (width height : ℕ) : List UInt8 :=
  printHeader { width := width, height := height, max_grey := 255 }

theorem readHeader_headerOnly {width height : ℕ} (hw : width < 10 ^ 8) (hh : height < 10 ^ 8)
    (wrongFormat : String) :
    readHeader wrongFormat (headerOnly width height) =
      pure ({ width := width, height := height, max_grey := 255 }, []) := by
  have h : HasHeader (headerOnly width height ++ []) width height 255 [] :=
    hasHeader_printHeader hw hh (by decide) []
  rw [List.append_nil] at h
  exact readHeader_of_hasHeader h wrongFormat

theorem inRange_small : InRange 30 20 3 7 ↔ 30 * 20 < 2 ^ 31 :=
  inRange_iff (readHeader_headerOnly (by decide) (by decide) _) (by decide) (by decide)

/-- An image of 50000 by 50000 pixels: the product is no `int`, although the
memory is allocated for it. -/
theorem large_not_inRange :
    readHeader "Wrong file format in split\n" (headerOnly 50000 50000) =
        pure ({ width := 50000, height := 50000, max_grey := 255 }, []) ∧
      allocated 50000 50000 = 50000 * 50000 ∧ mul 50000 50000 = none ∧
      ¬ InRange 50000 50000 1 1 := by
  refine ⟨readHeader_headerOnly (by decide) (by decide) _, by decide, by decide, ?_⟩
  intro h
  exact absurd (lt_of_mul h.size) (by decide)

end Pepal.Pgm

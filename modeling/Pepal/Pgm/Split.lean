import Pepal.Pgm.Header

/-!
# Splitting an image

`split_pgm.cc`: `width_split` times `height_split` parts of one size, each a PGM
file of its own; what remains at the right and below is dropped. A part file is
given by its number instead of its name.
-/

namespace Pepal.Pgm

open Tiling

/-- The two inner loops: the bytes of a part, from its corner on. -/
def readPart (content : List UInt8) (stride upper_left width height : ℤ) : Option (List UInt8) :=
  rowsM width.toNat height.toNat fun l k => do
    get content (← add (← add upper_left l) (← mul stride k))

/-- The body of the two outer loops: the number of the part, and the file. -/
def writePart (h : Header) (width_split height_split : ℤ) (content : List UInt8) (i j : ℤ) :
    Option (ℤ × List UInt8) := do
  let part ← add (← mul i width_split) j
  let width ← div h.width width_split
  let height ← div h.height height_split
  let upper_left ← add (← mul (← mul h.width height) i) (← mul width j)
  let raster ← readPart content h.width upper_left width height
  some (part, printHeader { h with width := width, height := height } ++ raster)

/-- From the arguments and the file, the parts in the order they are written. -/
def split (width_split height_split orig : List UInt8) : Run (List (ℤ × List UInt8)) := do
  let width_split ← atoi width_split
  let height_split ← atoi height_split
  let (h, orig) ← readHeader "Wrong file format in split\n" orig
  let content ← readContent h.width h.height orig
  rowsM width_split.toNat height_split.toNat fun j i =>
    writePart h width_split height_split content i j

/-! ## The expressions of the loops -/

/-- `stride * height * i + width * j`, for a part of this width and height. -/
def upperLeft (stride width height i j : ℤ) : Option ℤ := do
  add (← mul (← mul stride height) i) (← mul width j)

/-- `upper_left + l + width * k` -/
def readIndex (stride upper_left l k : ℤ) : Option ℤ := do
  add (← add upper_left l) (← mul stride k)

/-- The body of the outer loops, with the expressions by their names. -/
theorem writePart_indices (h : Header) (width_split height_split : ℤ) (content : List UInt8)
    (i j : ℤ) :
    writePart h width_split height_split content i j = (do
      let part ← add (← mul i width_split) j
      let width ← div h.width width_split
      let height ← div h.height height_split
      let upper_left ← upperLeft h.width width height i j
      let raster ← rowsM width.toNat height.toNat fun l k => do
        get content (← readIndex h.width upper_left l k)
      some (part, printHeader { h with width := width, height := height } ++ raster)) := by
  unfold writePart readPart upperLeft readIndex
  simp only [bind_assoc]

theorem upperLeft_of {stride width height i j a b c d : ℤ} (ha : mul stride height = some a)
    (hb : mul a i = some b) (hc : mul width j = some c) (hd : add b c = some d) :
    upperLeft stride width height i j = some d := by
  unfold upperLeft
  simp only [ha, hb, hc, hd, Option.bind_eq_bind, Option.bind_some]

theorem readIndex_of {stride upper_left l k a b c : ℤ} (ha : add upper_left l = some a)
    (hb : mul stride k = some b) (hc : add a b = some c) :
    readIndex stride upper_left l k = some c := by
  unfold readIndex
  simp only [ha, hb, hc, Option.bind_eq_bind, Option.bind_some]

/-! ## The parts -/

/-- A part of an image that is split `s` by `s`. -/
def Image.tile (im : Image) (s i j : ℕ) : Image where
  width := im.width / s
  height := im.height / s
  max_grey := im.max_grey
  raster := rows (im.width / s) (im.height / s) fun l k =>
    im.pixel (im.width / s * j + l) (im.height / s * i + k)
  depth := im.depth
  size := length_rows _ _ _

theorem tile_width (im : Image) (s i j : ℕ) : (im.tile s i j).width = im.width / s := rfl

theorem tile_height (im : Image) (s i j : ℕ) : (im.tile s i j).height = im.height / s := rfl

/-- The corner of a part is an `int`, also where the parts are empty. -/
theorem corner_lt {W w h a b i j N : ℕ} (hi : i < b) (hj : j < a) (hw : w * a ≤ W) (hW : W < N)
    (harea : W * (h * b) < N) : W * h * i + w * j < N := by
  have hcol : w * j ≤ W := (Nat.mul_le_mul_left w hj.le).trans hw
  rcases Nat.eq_zero_or_pos h with rfl | hh
  · rw [Nat.mul_zero, Nat.zero_mul, Nat.zero_add]
    exact hcol.trans_lt hW
  · calc W * h * i + w * j ≤ W * h * i + W * h :=
          Nat.add_le_add_left (hcol.trans (Nat.le_mul_of_pos_right W hh)) _
      _ = W * h * (i + 1) := by ring
      _ ≤ W * h * b := Nat.mul_le_mul_left _ hi
      _ = W * (h * b) := by ring
      _ < N := harea

/-- The corner of a part, where the number of pixels is an `int`. -/
theorem upperLeft_eq {width height width_split height_split i j : ℕ}
    (hsize : width * height < 2 ^ 31) (hwidth : width < 2 ^ 31) (hi : i < height_split)
    (hj : j < width_split) :
    upperLeft width (width / width_split : ℕ) (height / height_split : ℕ) i j =
      some ((width * (height / height_split) * i + width / width_split * j : ℕ) : ℤ) := by
  have harea : width * (height / height_split * height_split) < 2 ^ 31 :=
    (Nat.mul_le_mul_left _ (Nat.div_mul_le_self _ _)).trans_lt hsize
  have hcorner := corner_lt hi hj (Nat.div_mul_le_self width width_split) hwidth harea
  have hstride : mul width (height / height_split : ℕ) =
      some ((width * (height / height_split) : ℕ) : ℤ) :=
    mul_natCast ((Nat.mul_le_mul_left _ (Nat.div_le_self _ _)).trans_lt hsize)
  have hdown : mul ((width * (height / height_split) : ℕ) : ℤ) i =
      some ((width * (height / height_split) * i : ℕ) : ℤ) := mul_natCast (by omega)
  have hright : mul ((width / width_split : ℕ) : ℤ) j =
      some ((width / width_split * j : ℕ) : ℤ) := mul_natCast (by omega)
  exact upperLeft_of hstride hdown hright (add_natCast hcorner)

/-- The pixel of a part is a pixel of the image. -/
theorem pixel_lt {width height width_split height_split i j l k : ℕ} (hi : i < height_split)
    (hj : j < width_split) (hl : l < width / width_split) (hk : k < height / height_split) :
    width / width_split * j + l < width ∧ height / height_split * i + k < height :=
  ⟨(tile_lt hj hl).trans_le (Nat.mul_div_le _ _), (tile_lt hi hk).trans_le (Nat.mul_div_le _ _)⟩

/-- The index of the pixel at column `l` and row `k` of a part. -/
theorem readIndex_eq {width height width_split height_split i j l k : ℕ}
    (hsize : width * height < 2 ^ 31) (hi : i < height_split) (hj : j < width_split)
    (hl : l < width / width_split) (hk : k < height / height_split) :
    readIndex width
        ((width * (height / height_split) * i + width / width_split * j : ℕ) : ℤ) l k =
      some ((width / width_split * j + l + (height / height_split * i + k) * width : ℕ) : ℤ) := by
  obtain ⟨hx, hy⟩ := pixel_lt hi hj hl hk
  have hlt := place_lt hx hy
  have hplace : width * (height / height_split) * i + width / width_split * j + l + width * k =
      width / width_split * j + l + (height / height_split * i + k) * width := by ring
  have hadd : add ((width * (height / height_split) * i + width / width_split * j : ℕ) : ℤ) l =
      some ((width * (height / height_split) * i + width / width_split * j + l : ℕ) : ℤ) :=
    add_natCast (by omega)
  have hmul : mul width k = some ((width * k : ℕ) : ℤ) := mul_natCast (by omega)
  rw [← hplace]
  exact readIndex_of hadd hmul (add_natCast (by omega))

/-- The pixel of a part that the inner loops read. -/
theorem get_tile {im : Image} (hsize : im.width * im.height < 2 ^ 31) {s i j l k : ℕ}
    (hi : i < s) (hj : j < s) (hl : l < im.width / s) (hk : k < im.height / s) :
    (do get im.raster (← readIndex im.width
          ((im.width * (im.height / s) * i + im.width / s * j : ℕ) : ℤ) l k)) =
      some (im.pixel (im.width / s * j + l) (im.height / s * i + k)) := by
  obtain ⟨hx, hy⟩ := pixel_lt hi hj hl hk
  have hindex := readIndex_eq hsize hi hj hl hk
  exact (congrArg (· >>= get im.raster) hindex).trans (get_pixel hx hy)

/-- The body of the outer loops, from the values of its expressions. -/
theorem writePart_of {h : Header} {width_split height_split i j a part width height
    upper_left : ℤ} {content raster : List UInt8} (ha : mul i width_split = some a)
    (hpart : add a j = some part) (hwidth : div h.width width_split = some width)
    (hheight : div h.height height_split = some height)
    (hcorner : upperLeft h.width width height i j = some upper_left)
    (hraster : (rowsM width.toNat height.toNat fun l k => do
      get content (← readIndex h.width upper_left l k)) = some raster) :
    writePart h width_split height_split content i j =
      some (part, printHeader { h with width := width, height := height } ++ raster) := by
  rw [writePart_indices]
  simp only [ha, hpart, hwidth, hheight, hcorner, Option.bind_eq_bind, Option.bind_some]
  exact Option.bind_eq_some_iff.mpr ⟨raster, hraster, rfl⟩

theorem writePart_eq {im : Image} (hsize : im.width * im.height < 2 ^ 31)
    (hwidth : im.width < 10 ^ 8) (hheight : im.height < 10 ^ 8) {s i j : ℕ} (hi : i < s)
    (hj : j < s) (hint : s * s < 2 ^ 31) (max_grey : ℕ) :
    writePart { width := im.width, height := im.height, max_grey := max_grey } s s im.raster
      i j = some (((i * s + j : ℕ) : ℤ), (im.tile s i j).encodeAs max_grey) := by
  have hs : 0 < s := Nat.zero_lt_of_lt hi
  have hindex : i * s + j < 2 ^ 31 := by
    rw [Nat.add_comm]
    exact (Tiling.place_lt hj hi).trans hint
  have hpart : mul (i : ℤ) s = some ((i * s : ℕ) : ℤ) := mul_natCast (by omega)
  exact writePart_of hpart (add_natCast hindex) (div_natCast (by omega) hs)
    (div_natCast (by omega) hs) (upperLeft_eq hsize (by omega) hi hj)
    (rowsM_of_some fun l k hl hk => get_tile hsize hi hj hl hk)

/-- The parts of an image, each with its number. -/
def Image.tiles (im : Image) (s : ℕ) : List (ℤ × List UInt8) :=
  rows s s fun j i => (((i * s + j : ℕ) : ℤ), (im.tile s i j).encode)

/-- The parts, under another `max_grey`. -/
def Image.tilesAs (im : Image) (max_grey s : ℕ) : List (ℤ × List UInt8) :=
  rows s s fun j i => (((i * s + j : ℕ) : ℤ), (im.tile s i j).encodeAs max_grey)

theorem split_of {width_split height_split orig rest content : List UInt8} {a b : ℤ} {h : Header}
    {parts : List (ℤ × List UInt8)} (ha : atoi width_split = some a)
    (hb : atoi height_split = some b)
    (hh : readHeader "Wrong file format in split\n" orig = pure (h, rest))
    (hcontent : readContent h.width h.height rest = some content)
    (hparts : rowsM a.toNat b.toNat (fun j i => writePart h a b content i j) = some parts) :
    split width_split height_split orig = pure parts := by
  unfold split
  rw [ha, hb, hh, liftM_some, liftM_some, pure_bind, pure_bind, pure_bind]
  show ((liftM (readContent h.width h.height rest) : Run _) >>= _) = _
  rw [hcontent, liftM_some, pure_bind, hparts, liftM_some]

theorem split_of_readHeader {file rest : List UInt8} {im : Image} {max_grey : ℕ}
    (hread : readHeader "Wrong file format in split\n" file =
      pure ({ width := im.width, height := im.height, max_grey := max_grey }, rest))
    (hwidth : im.width < 10 ^ 8) (hheight : im.height < 10 ^ 8)
    (hrest : rest.take (im.width * im.height) = im.raster)
    (hsize : im.width * im.height < 2 ^ 31) {s : ℕ} (hint : s * s < 2 ^ 31) :
    split (print s) (print s) file = pure (im.tilesAs max_grey s) := by
  have hs : s < 2 ^ 31 := (Nat.le_mul_self s).trans_lt hint
  have hcontent := readContent_eq hsize rest
  rw [hrest] at hcontent
  exact split_of (atoi_print hs) (atoi_print hs) hread hcontent
    (rowsM_of_some fun j i hj hi => writePart_eq hsize hwidth hheight hi hj hint max_grey)

/-- **A file is split into the parts of the image that its first bytes are.** -/
theorem split_of_hasHeader {file rest : List UInt8} {im : Image} {max_grey : ℕ}
    (h : HasHeader file im.width im.height max_grey rest)
    (hrest : rest.take (im.width * im.height) = im.raster)
    (hsize : im.width * im.height < 2 ^ 31) {s : ℕ} (hint : s * s < 2 ^ 31) :
    split (print s) (print s) file = pure (im.tilesAs max_grey s) :=
  split_of_readHeader (readHeader_of_hasHeader h _) h.lt.1 h.lt.2.1 hrest hsize hint

/-- **The image is split into its parts.** -/
theorem split_eq {file : List UInt8} {im : Image} (h : Encodes file im)
    (hsize : im.width * im.height < 2 ^ 31) {s : ℕ} (hint : s * s < 2 ^ 31) :
    split (print s) (print s) file = pure (im.tiles s) := by
  have hraster : im.raster.take (im.width * im.height) = im.raster := by
    rw [← im.size, List.take_length]
  exact split_of_hasHeader (hasHeader_of_encodes h) hraster hsize hint

end Pepal.Pgm

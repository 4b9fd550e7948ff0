import Mathlib.Data.Nat.Sqrt
import Pepal.Pgm.Split

/-!
# Joining the parts

`join_pgm.cc`: a square number of parts, each with its own header. The first
part decides the size of the output; every part is stored at its place in a
buffer of that size, and the buffer is written at the end. A part file is given
by its number; `source` stands only in the message for one that is missing.
-/

namespace Pepal.Pgm

open Tiling

/-- The root of a negative number is no `int`. -/
def is_square (x : ℤ) : Bool :=
  let tmp : ℤ := Nat.sqrt x.toNat
  decide (0 ≤ x) && decide (x = tmp * tmp)

/-- The output: what is written at the first part, and the buffer. -/
structure Joined where
  header : List UInt8
  width_new : ℤ
  height_new : ℤ
  content_new : List (Option UInt8)

/-- What is done at the first part. -/
def start (h : Header) (sqrt_n : ℤ) : Option Joined := do
  let width_new ← mul h.width sqrt_n
  let height_new ← mul h.height sqrt_n
  some
    { header := printHeader { h with width := width_new, height := height_new }
      width_new := width_new, height_new := height_new
      content_new := List.replicate (height_new * width_new).toNat none }

/-- `content_new[i] = x` -/
def store (content_new : List (Option UInt8)) (w : ℤ × UInt8) : Option (List (Option UInt8)) :=
  if 0 ≤ w.1 ∧ w.1.toNat < content_new.length then some (content_new.set w.1.toNat (some w.2))
  else none

/-- The two inner loops: where the bytes of a part are stored. -/
def places (content : List UInt8) (width height width_new upper_left : ℤ) :
    Option (List (ℤ × UInt8)) :=
  rowsM width.toNat height.toNat fun l k => do
    let place ← add (← add upper_left l) (← mul k width_new)
    let x ← get content (← add (← mul k width) l)
    some (place, x)

def storePart (j : Joined) (h : Header) (content : List UInt8) (sqrt_n i : ℤ) : Option Joined := do
  let down ← mul (← mul j.width_new h.height) (← div i sqrt_n)
  let upper_left ← add down (← mul h.width (← mod i sqrt_n))
  let writes ← places content h.width h.height j.width_new upper_left
  let content_new ← writes.foldlM store j.content_new
  some { j with content_new := content_new }

/-- The body of the loop over the parts. Before the first there is no output. -/
def joinPart (source : String) (files : ℕ → Option (List UInt8)) (sqrt_n : ℤ)
    (joined : Option Joined) (i : ℕ) : Run (Option Joined) :=
  match files i with
  | none => throw ("Could not open " ++ source ++ toString i ++ ".pgm\n")
  | some file => do
      let (h, file) ← readHeader "Wrong file format \n" file
      let content ← readContent h.width h.height file
      let j ← (joined.elim (start h sqrt_n) some : Option Joined)
      let j ← storePart j h content sqrt_n i
      return some j

/-- The last loop; without parts `width_new` was never set. -/
def finish : Option Joined → Option (List UInt8)
  | none => none
  | some j => do
      let n ← mul j.width_new j.height_new
      let raster ← (List.range n.toNat).mapM fun i => j.content_new[i]?.join
      some (j.header ++ raster)

def join (source : String) (n_split : List UInt8) (files : ℕ → Option (List UInt8)) :
    Run (List UInt8) := do
  let n_split ← atoi n_split
  if is_square n_split = false then throw "n_split must be square \n"
  else do
    let joined ← (List.range n_split.toNat).foldlM
      (joinPart source files (Nat.sqrt n_split.toNat)) none
    finish joined

/-- The part with a number, as it was written. -/
def handOver (parts : List (ℤ × List UInt8)) (i : ℕ) : Option (List UInt8) :=
  (parts.find? fun part => part.1 == (i : ℤ)).map Prod.snd

/-! ## Loops -/

theorem foldlM_store {writes : List (ℕ × UInt8)} {cells : List (Option UInt8)}
    (h : ∀ w ∈ writes, w.1 < cells.length) :
    (writes.map fun w => ((w.1 : ℤ), w.2)).foldlM store cells = some (stored cells writes) := by
  induction writes generalizing cells with
  | nil => rfl
  | cons w writes ih =>
      have hw : store cells ((w.1 : ℤ), w.2) = some (cells.set w.1 (some w.2)) := by
        unfold store
        rw [if_pos ⟨Int.natCast_nonneg _, h w List.mem_cons_self⟩, Int.toNat_natCast]
      rw [List.map_cons, List.foldlM_cons, hw]
      exact ih fun w' hw' => by
        rw [List.length_set]
        exact h w' (List.mem_cons_of_mem w hw')

/-- A buffer that was written everywhere. -/
theorem mapM_cells (l : List UInt8) :
    ((List.range l.length).mapM fun i => (l.map some)[i]?.join) = some l := by
  have hcell : ∀ i ∈ List.range l.length, (l.map some)[i]?.join = some (l.getD i 0) := by
    intro i hi
    rw [List.mem_range] at hi
    rw [List.getElem?_map, List.getD_eq_getElem?_getD, List.getElem?_eq_getElem hi]
    rfl
  rw [Fallible.mapM_of_some hcell]
  congr 1
  apply List.ext_getElem?
  intro i
  rw [List.getElem?_map]
  by_cases hi : i < l.length
  · rw [List.getElem?_range hi, List.getElem?_eq_getElem hi, Option.map_some,
      List.getD_eq_getElem?_getD, List.getElem?_eq_getElem hi]
    rfl
  · rw [List.getElem?_eq_none (by rw [List.length_range]; omega),
      List.getElem?_eq_none (by omega)]
    rfl

/-! ## Storing a part -/

section Part

variable {s w h i j : ℕ} {f : ℕ → ℕ → UInt8} {content : List UInt8}

theorem place_of_sums {p l k W n m q a r b : ℤ} {x : UInt8} (hm : add p l = some m)
    (hq : mul k W = some q) (ha : add m q = some a) (hr : mul k n = some r)
    (hb : add r l = some b) (hx : get content b = some x) :
    (do
      let place ← add (← add p l) (← mul k W)
      let x ← get content (← add (← mul k n) l)
      some (place, x)) = some (a, x) := by
  simp only [hm, hq, ha, hr, hb, hx, Option.bind_eq_bind, Option.bind_some]

/-- The byte at column `l` and row `k` of a part, and where it is stored. -/
theorem place_eq (hsize : s * w * (s * h) < 2 ^ 31) (hi : i < s) (hj : j < s) {l k : ℕ}
    (hl : l < w) (hk : k < h)
    (hget : get content ((l + k * w : ℕ) : ℤ) = some (f (w * j + l) (h * i + k))) :
    (do
      let place ← add (← add ((s * w * h * i + w * j : ℕ) : ℤ) l) (← mul k ((s * w : ℕ) : ℤ))
      let x ← get content (← add (← mul k w) l)
      some (place, x)) =
      some (((w * j + l + (h * i + k) * (s * w) : ℕ) : ℤ), f (w * j + l) (h * i + k)) := by
  have hplace : s * w * h * i + w * j + l + k * (s * w) =
      w * j + l + (h * i + k) * (s * w) := by ring
  have hlt : w * j + l + (h * i + k) * (s * w) < s * w * (s * h) :=
    place_lt (tile_lt hj hl) (tile_lt hi hk)
  have hs : 0 < s := Nat.zero_lt_of_lt hi
  have hinner : k * w ≤ k * (s * w) := Nat.mul_le_mul_left k (Nat.le_mul_of_pos_left w hs)
  have hm : add ((s * w * h * i + w * j : ℕ) : ℤ) l =
      some ((s * w * h * i + w * j + l : ℕ) : ℤ) := add_natCast (by omega)
  have hq : mul k ((s * w : ℕ) : ℤ) = some ((k * (s * w) : ℕ) : ℤ) := mul_natCast (by omega)
  have ha : add ((s * w * h * i + w * j + l : ℕ) : ℤ) ((k * (s * w) : ℕ) : ℤ) =
      some ((w * j + l + (h * i + k) * (s * w) : ℕ) : ℤ) := by
    rw [← hplace]
    exact add_natCast (by omega)
  have hr : mul k w = some ((k * w : ℕ) : ℤ) := mul_natCast (by omega)
  have hb : add ((k * w : ℕ) : ℤ) l = some ((l + k * w : ℕ) : ℤ) := by
    rw [Nat.add_comm l]
    exact add_natCast (by omega)
  exact place_of_sums hm hq ha hr hb hget

theorem places_eq (hsize : s * w * (s * h) < 2 ^ 31) (hi : i < s) (hj : j < s)
    (hget : ∀ l k, l < w → k < h →
      get content ((l + k * w : ℕ) : ℤ) = some (f (w * j + l) (h * i + k))) :
    places content w h ((s * w : ℕ) : ℤ) ((s * w * h * i + w * j : ℕ) : ℤ) =
      some ((tileWrites s w h f i j).map fun wr => ((wr.1 : ℤ), wr.2)) := by
  unfold tileWrites
  rw [map_rows]
  exact rowsM_of_some fun l k hl hk => place_eq hsize hi hj hl hk (hget l k hl hk)

theorem tileWrites_lt (hi : i < s) (hj : j < s) :
    ∀ wr ∈ tileWrites s w h f i j, wr.1 < s * w * (s * h) := by
  intro wr hwr
  obtain ⟨l, k, hl, hk, rfl⟩ := mem_rows.mp hwr
  exact place_lt (tile_lt hj hl) (tile_lt hi hk)

end Part

/-- The body of the loop after the headers, from the values of its expressions. -/
theorem storePart_of {j : Joined} {h : Header} {content : List UInt8} {sqrt_n i a b c d e
    upper_left : ℤ} {writes : List (ℤ × UInt8)} {content_new : List (Option UInt8)}
    (ha : mul j.width_new h.height = some a) (hb : div i sqrt_n = some b) (hc : mul a b = some c)
    (hd : mod i sqrt_n = some d) (he : mul h.width d = some e)
    (hcorner : add c e = some upper_left)
    (hwrites : places content h.width h.height j.width_new upper_left = some writes)
    (hstore : writes.foldlM store j.content_new = some content_new) :
    storePart j h content sqrt_n i = some { j with content_new := content_new } := by
  unfold storePart
  simp only [ha, hb, hc, hd, he, hcorner, hwrites, hstore, Option.bind_eq_bind, Option.bind_some]

/-! ## The joined image -/

/-- What is left of an image that is split `s` by `s`. -/
def Image.cropped (im : Image) (s : ℕ) : Image where
  width := s * (im.width / s)
  height := s * (im.height / s)
  max_grey := im.max_grey
  raster := rows (s * (im.width / s)) (s * (im.height / s)) im.pixel
  depth := im.depth
  size := length_rows _ _ _

/-- The output after `t` parts. -/
def Image.joined (im : Image) (s t : ℕ) : Joined where
  header := printHeader
    { width := (im.cropped s).width, height := (im.cropped s).height, max_grey := im.max_grey }
  width_new := (im.cropped s).width
  height_new := (im.cropped s).height
  content_new := stored
    (List.replicate (s * (im.width / s) * (s * (im.height / s))) none)
    ((List.range t).flatMap fun t =>
      tileWrites s (im.width / s) (im.height / s) im.pixel (t / s) (t % s))

/-- The state of the loop over the parts. -/
def Image.joinedAfter (im : Image) (s t : ℕ) : Option Joined :=
  if t = 0 then none else some (im.joined s t)

/-- The header of what is left, under another `max_grey`. -/
def Image.croppedHeader (im : Image) (max_grey s : ℕ) : List UInt8 :=
  printHeader
    { width := (im.cropped s).width, height := (im.cropped s).height, max_grey := max_grey }

def Image.joinedAs (im : Image) (max_grey s t : ℕ) : Joined :=
  { im.joined s t with header := im.croppedHeader max_grey s }

def Image.joinedAfterAs (im : Image) (max_grey s t : ℕ) : Option Joined :=
  (im.joinedAfter s t).map fun j => { j with header := im.croppedHeader max_grey s }

section Joining

variable {im : Image} {s : ℕ}

theorem joinedAfterAs_zero (im : Image) (max_grey s : ℕ) : im.joinedAfterAs max_grey s 0 = none :=
  rfl

theorem joinedAfterAs_of_ne {t : ℕ} (ht : t ≠ 0) (im : Image) (max_grey s : ℕ) :
    im.joinedAfterAs max_grey s t = some (im.joinedAs max_grey s t) := by
  unfold Image.joinedAfterAs Image.joinedAfter
  rw [if_neg ht]
  rfl

theorem cropped_area_le (im : Image) (s : ℕ) :
    s * (im.width / s) * (s * (im.height / s)) ≤ im.width * im.height :=
  Nat.mul_le_mul (Nat.mul_div_le _ _) (Nat.mul_div_le _ _)

theorem length_joined (im : Image) (s t : ℕ) :
    (im.joined s t).content_new.length = s * (im.width / s) * (s * (im.height / s)) := by
  show (stored _ _).length = _
  rw [length_stored, List.length_replicate]

theorem start_of {h : Header} {sqrt_n width_new height_new : ℤ} {n : ℕ}
    (hw : mul h.width sqrt_n = some width_new) (hh : mul h.height sqrt_n = some height_new)
    (hn : (height_new * width_new).toNat = n) :
    start h sqrt_n = some
      { header := printHeader { h with width := width_new, height := height_new }
        width_new := width_new, height_new := height_new
        content_new := List.replicate n none } := by
  unfold start
  simp only [hw, hh, hn, Option.bind_eq_bind, Option.bind_some]

theorem start_eq (hwidth : im.width < 2 ^ 31) (hheight : im.height < 2 ^ 31) (max_grey i j : ℕ) :
    start { width := ((im.tile s i j).width : ℤ), height := ((im.tile s i j).height : ℤ)
            max_grey := (max_grey : ℤ) } s = some (im.joinedAs max_grey s 0) := by
  have hw : mul ((im.width / s : ℕ) : ℤ) s = some ((s * (im.width / s) : ℕ) : ℤ) := by
    rw [Nat.mul_comm s]
    exact mul_natCast ((Nat.div_mul_le_self _ _).trans_lt hwidth)
  have hh : mul ((im.height / s : ℕ) : ℤ) s = some ((s * (im.height / s) : ℕ) : ℤ) := by
    rw [Nat.mul_comm s]
    exact mul_natCast ((Nat.div_mul_le_self _ _).trans_lt hheight)
  exact start_of hw hh (by
    rw [← Nat.cast_mul, Int.toNat_natCast]
    exact Nat.mul_comm _ _)

theorem get_tile_raster (im : Image) (s i j : ℕ) {l k : ℕ} (hl : l < im.width / s)
    (hk : k < im.height / s) :
    get (im.tile s i j).raster ((l + k * (im.width / s) : ℕ) : ℤ) =
      some (im.pixel (im.width / s * j + l) (im.height / s * i + k)) := by
  unfold get
  rw [if_neg (by omega), Int.toNat_natCast]
  exact getElem?_rows _ hl hk

theorem joinedAs_succ (im : Image) (max_grey s t : ℕ) :
    im.joinedAs max_grey s (t + 1) =
      { im.joinedAs max_grey s t with
        content_new := stored (im.joinedAs max_grey s t).content_new
          (tileWrites s (im.width / s) (im.height / s) im.pixel (t / s) (t % s)) } := by
  unfold Image.joinedAs Image.joined
  rw [List.range_succ, List.flatMap_append, stored_append, List.flatMap_singleton]

/-- One more part. -/
theorem storePart_tile (hsize : im.width * im.height < 2 ^ 31) (hwidth : im.width < 10 ^ 8)
    {t : ℕ} (ht : t < s * s) (hint : s * s < 2 ^ 31) (max_grey : ℕ) :
    storePart (im.joinedAs max_grey s t)
        { width := ((im.tile s (t / s) (t % s)).width : ℤ)
          height := ((im.tile s (t / s) (t % s)).height : ℤ), max_grey := (max_grey : ℤ) }
        (im.tile s (t / s) (t % s)).raster s t = some (im.joinedAs max_grey s (t + 1)) := by
  have hs : 0 < s := Nat.pos_of_mul_pos_left (Nat.zero_lt_of_lt ht)
  have hi : t / s < s := Nat.div_lt_of_lt_mul ht
  have hj : t % s < s := Nat.mod_lt t hs
  have harea : s * (im.width / s) * (s * (im.height / s)) < 2 ^ 31 :=
    (cropped_area_le im s).trans_lt hsize
  have hW : s * (im.width / s) < 2 ^ 31 :=
    (Nat.mul_div_le im.width s).trans_lt (by omega)
  have hcols : im.width / s * (t % s) < 2 ^ 31 := by
    refine lt_of_le_of_lt ?_ hW
    rw [Nat.mul_comm s]
    exact Nat.mul_le_mul_left _ hj.le
  have hrows : s * (im.width / s) * (im.height / s) * (t / s) < 2 ^ 31 := by
    refine lt_of_le_of_lt ?_ harea
    rw [Nat.mul_assoc, Nat.mul_comm s (im.height / s)]
    exact Nat.mul_le_mul_left _ (Nat.mul_le_mul_left _ hi.le)
  have hstride : s * (im.width / s) * (im.height / s) < 2 ^ 31 := by
    refine lt_of_le_of_lt ?_ harea
    exact Nat.mul_le_mul_left _ (Nat.le_mul_of_pos_left _ hs)
  have hcorner : s * (im.width / s) * (im.height / s) * (t / s) +
      im.width / s * (t % s) < 2 ^ 31 :=
    corner_lt hi hj (Nat.mul_comm _ s).le hW (by rwa [Nat.mul_comm (im.height / s)])
  rw [joinedAs_succ]
  exact storePart_of (mul_natCast hstride) (div_natCast (ht.trans hint) hs) (mul_natCast hrows)
    (mod_natCast (ht.trans hint) hs) (mul_natCast hcols) (add_natCast hcorner)
    (places_eq harea hi hj fun l k hl hk => get_tile_raster im s _ _ hl hk)
    (foldlM_store fun wr hwr => (tileWrites_lt hi hj wr hwr).trans_eq (length_joined im s t).symm)

theorem joinPart_of {source : String} {files : ℕ → Option (List UInt8)} {sqrt_n : ℤ}
    {joined : Option Joined} {i : ℕ} {file rest content : List UInt8} {h : Header} {j j' : Joined}
    (hfile : files i = some file)
    (hheader : readHeader "Wrong file format \n" file = pure (h, rest))
    (hcontent : readContent h.width h.height rest = some content)
    (hjoined : joined.elim (start h sqrt_n) some = some j)
    (hstore : storePart j h content sqrt_n i = some j') :
    joinPart source files sqrt_n joined i = pure (some j') := by
  unfold joinPart
  simp only [hfile, hheader, pure_bind]
  rw [hcontent, liftM_some, pure_bind, hjoined, liftM_some, pure_bind, hstore, liftM_some,
    pure_bind]

/-- The loop over the parts, from the state after `t` of them. -/
theorem joinPart_tile (hsize : im.width * im.height < 2 ^ 31) (hwidth : im.width < 10 ^ 8)
    (hheight : im.height < 10 ^ 8) {max_grey : ℕ} {t : ℕ} (ht : t < s * s) (hint : s * s < 2 ^ 31)
    (source : String) {files : ℕ → Option (List UInt8)} {file : List UInt8}
    (hfile : files t = some file)
    (hheader : HasHeader file (im.tile s (t / s) (t % s)).width (im.tile s (t / s) (t % s)).height
      max_grey (im.tile s (t / s) (t % s)).raster) :
    joinPart source files s (im.joinedAfterAs max_grey s t) t =
      pure (im.joinedAfterAs max_grey s (t + 1)) := by
  have hw : (im.tile s (t / s) (t % s)).width ≤ im.width := by
    rw [tile_width]
    exact Nat.div_le_self _ _
  have hh : (im.tile s (t / s) (t % s)).height ≤ im.height := by
    rw [tile_height]
    exact Nat.div_le_self _ _
  have harea := (Nat.mul_le_mul hw hh).trans_lt hsize
  rw [joinedAfterAs_of_ne (Nat.succ_ne_zero t)]
  refine joinPart_of hfile (readHeader_of_hasHeader hheader _) (readContent_raster _ harea) ?_
    (storePart_tile hsize hwidth ht hint max_grey)
  by_cases hfirst : t = 0
  · rw [hfirst, joinedAfterAs_zero, Option.elim_none]
    exact start_eq (by omega) (by omega) _ _ _
  · rw [joinedAfterAs_of_ne hfirst, Option.elim_some]

theorem finish_of {j : Joined} {n : ℤ} {raster : List UInt8}
    (hn : mul j.width_new j.height_new = some n) (hlength : n.toNat = raster.length)
    (hcells : j.content_new = raster.map some) : finish (some j) = some (j.header ++ raster) := by
  unfold finish
  simp only [hn, hlength, hcells, mapM_cells, Option.bind_eq_bind, Option.bind_some]

/-- After all parts the buffer is the image. -/
theorem finish_joined (hsize : im.width * im.height < 2 ^ 31) (max_grey : ℕ) :
    finish (some (im.joinedAs max_grey s (s * s))) =
      some ((im.cropped s).encodeAs max_grey) := by
  have harea : (im.cropped s).width * (im.cropped s).height < 2 ^ 31 :=
    (cropped_area_le im s).trans_lt hsize
  have hcells : (im.joinedAs max_grey s (s * s)).content_new = (im.cropped s).raster.map some :=
    stored_tiles s (im.width / s) (im.height / s) im.pixel
  exact finish_of (mul_natCast harea) (by rw [Int.toNat_natCast, (im.cropped s).size]) hcells

theorem is_square_mul_self (s : ℕ) : is_square ((s * s : ℕ) : ℤ) = true := by
  unfold is_square
  rw [Int.toNat_natCast, Nat.sqrt_eq, Bool.and_eq_true, decide_eq_true_eq, decide_eq_true_eq]
  exact ⟨Int.natCast_nonneg _, Nat.cast_mul s s⟩

theorem join_of {source : String} {text out : List UInt8} {files : ℕ → Option (List UInt8)} {n : ℤ}
    {joined : Option Joined} (hn : atoi text = some n) (hsquare : is_square n = true)
    (hparts : (List.range n.toNat).foldlM (joinPart source files (Nat.sqrt n.toNat)) none =
      pure joined)
    (hfinish : finish joined = some out) : join source text files = pure out := by
  unfold join
  rw [hn, liftM_some, pure_bind, hsquare, if_neg (by decide), hparts, pure_bind,
    hfinish, liftM_some]

/-- **The parts are joined to what is left of the image**, however their headers
are laid out. -/
theorem join_hasHeader (hs : 0 < s) (hsize : im.width * im.height < 2 ^ 31)
    (hwidth : im.width < 10 ^ 8) (hheight : im.height < 10 ^ 8) {max_grey : ℕ}
    (hint : s * s < 2 ^ 31) (source : String) {files : ℕ → Option (List UInt8)}
    (hfiles : ∀ t < s * s, ∃ file, files t = some file ∧
      HasHeader file (im.width / s) (im.height / s) max_grey
        (im.tile s (t / s) (t % s)).raster) :
    join source (print (s * s : ℕ)) files = pure ((im.cropped s).encodeAs max_grey) := by
  have hlast : im.joinedAfterAs max_grey s (s * s) = some (im.joinedAs max_grey s (s * s)) :=
    joinedAfterAs_of_ne (Nat.mul_pos hs hs).ne' _ _ _
  have hloop : (List.range (s * s)).foldlM (joinPart source files s) none =
      pure (some (im.joinedAs max_grey s (s * s))) := by
    rw [← hlast]
    refine Fallible.foldlM_range (im.joinedAfterAs max_grey s) fun t ht => ?_
    obtain ⟨file, hfile, hheader⟩ := hfiles t ht
    exact joinPart_tile hsize hwidth hheight ht hint source hfile hheader
  refine join_of (atoi_print hint) (is_square_mul_self s) ?_ (finish_joined hsize max_grey)
  rw [Int.toNat_natCast, Nat.sqrt_eq]
  exact hloop

/-- The parts may carry another `max_grey` than the image. -/
theorem join_tilesAs (hs : 0 < s) (hsize : im.width * im.height < 2 ^ 31)
    (hwidth : im.width < 10 ^ 8) (hheight : im.height < 10 ^ 8) {max_grey : ℕ}
    (hgrey : max_grey < 10 ^ 8) (hint : s * s < 2 ^ 31) (source : String)
    {files : ℕ → Option (List UInt8)}
    (hfiles : ∀ t < s * s, files t = some ((im.tile s (t / s) (t % s)).encodeAs max_grey)) :
    join source (print (s * s : ℕ)) files = pure ((im.cropped s).encodeAs max_grey) := by
  have hw : im.width / s ≤ im.width := Nat.div_le_self _ _
  have hh : im.height / s ≤ im.height := Nat.div_le_self _ _
  exact join_hasHeader hs hsize hwidth hheight hint source fun t ht =>
    ⟨_, hfiles t ht, hasHeader_printHeader (hw.trans_lt hwidth) (hh.trans_lt hheight) hgrey _⟩

theorem join_eq (hs : 0 < s) (hsize : im.width * im.height < 2 ^ 31) (hwidth : im.width < 10 ^ 8)
    (hheight : im.height < 10 ^ 8) (hint : s * s < 2 ^ 31) (source : String)
    {files : ℕ → Option (List UInt8)}
    (hfiles : ∀ t < s * s, files t = some (im.tile s (t / s) (t % s)).encode) :
    join source (print (s * s : ℕ)) files = pure (im.cropped s).encode :=
  join_tilesAs hs hsize hwidth hheight (im.depth.trans_lt (by decide)) hint source hfiles

theorem handOver_tilesAs {t : ℕ} (ht : t < s * s) (max_grey : ℕ) :
    handOver (im.tilesAs max_grey s) t =
      some ((im.tile s (t / s) (t % s)).encodeAs max_grey) := by
  have hs : 0 < s := Nat.pos_of_mul_pos_left (Nat.zero_lt_of_lt ht)
  have hmem : (((t / s * s + t % s : ℕ) : ℤ), (im.tile s (t / s) (t % s)).encodeAs max_grey) ∈
      im.tilesAs max_grey s :=
    mem_rows.mpr ⟨t % s, t / s, Nat.mod_lt t hs, Nat.div_lt_of_lt_mul ht, rfl⟩
  have hsome : ((im.tilesAs max_grey s).find? fun part => part.1 == (t : ℤ)).isSome = true := by
    refine List.find?_isSome.mpr ⟨_, hmem, ?_⟩
    rw [Nat.div_add_mod', beq_self_eq_true]
  obtain ⟨part, hpart⟩ := Option.isSome_iff_exists.mp hsome
  -- a part with this number is the one that was found
  obtain ⟨j, i, hj, -, rfl⟩ := mem_rows.mp (List.mem_of_find?_eq_some hpart)
  have hnumber : i * s + j = t := by
    have hbeq := List.find?_some hpart
    exact Int.ofNat_inj.mp (beq_iff_eq.mp hbeq)
  have hrow : t / s = i := by
    rw [← hnumber, Nat.add_comm, Nat.add_mul_div_right _ _ hs, Nat.div_eq_of_lt hj, Nat.zero_add]
  have hcol : t % s = j := by
    rw [← hnumber, Nat.add_comm, Nat.add_mul_mod_self_right, Nat.mod_eq_of_lt hj]
  unfold handOver
  rw [hpart, hrow, hcol, Option.map_some]

theorem handOver_tiles {t : ℕ} (ht : t < s * s) :
    handOver (im.tiles s) t = some (im.tile s (t / s) (t % s)).encode :=
  handOver_tilesAs ht im.max_grey

end Joining

/-! ## The round trip -/

/-- Splitting and joining keep the covered region. -/
def RoundTrip (source : String) (file : List UInt8) (im : Image) (s : ℕ) : Prop :=
  ∃ parts out im', split (print s) (print s) file = pure parts ∧
    join source (print (s * s : ℕ)) (handOver parts) = pure out ∧ Encodes out im' ∧
    im'.width = s * (im.width / s) ∧ im'.height = s * (im.height / s) ∧
    im'.max_grey = im.max_grey ∧
    (∀ x y, x < s * (im.width / s) → y < s * (im.height / s) → im'.pixel x y = im.pixel x y) ∧
    (s ∣ im.width → s ∣ im.height → im'.raster = im.raster)

theorem pixel_cropped (im : Image) {s x y : ℕ} (hx : x < s * (im.width / s))
    (hy : y < s * (im.height / s)) : (im.cropped s).pixel x y = im.pixel x y := by
  have hget : (im.cropped s).raster[x + y * (im.cropped s).width]? = some (im.pixel x y) :=
    getElem?_rows im.pixel hx hy
  show (im.cropped s).raster.getD (x + y * (im.cropped s).width) 0 = _
  rw [List.getD_eq_getElem?_getD, hget, Option.getD_some]

theorem raster_cropped {im : Image} {s : ℕ} (hw : s ∣ im.width) (hh : s ∣ im.height) :
    (im.cropped s).raster = im.raster := by
  show rows (s * (im.width / s)) (s * (im.height / s)) im.pixel = _
  rw [Nat.mul_div_cancel' hw, Nat.mul_div_cancel' hh]
  exact rows_getD im.size 0

theorem roundTrip {file : List UInt8} {im : Image} (h : Encodes file im)
    (hsize : im.width * im.height < 2 ^ 31) {s : ℕ} (hs : 1 ≤ s) (hint : s * s < 2 ^ 31)
    (source : String) : RoundTrip source file im s := by
  obtain ⟨hwidth, hheight⟩ := lt_of_encodes h
  have hjoin := join_eq hs hsize hwidth hheight hint source fun t ht => handOver_tiles ht
  have hencodes : Encodes (im.cropped s).encode (im.cropped s) :=
    encodes_encode ((Nat.mul_div_le im.width s).trans_lt hwidth)
      ((Nat.mul_div_le im.height s).trans_lt hheight)
  exact ⟨im.tiles s, _, im.cropped s, split_eq h hsize hint, hjoin, hencodes, rfl, rfl, rfl,
    fun x y hx hy => pixel_cropped im hx hy, raster_cropped⟩

/-- Three columns and two rows; two of the bytes are blanks. -/
def smallImage : Image where
  width := 3
  height := 2
  max_grey := 255
  raster := [7, 32, 10, 0, 255, 128]
  depth := le_refl 255
  size := rfl

theorem roundTrip_small : RoundTrip "/tmp/out" smallImage.encode smallImage 2 :=
  roundTrip (encodes_encode (by decide) (by decide)) (by decide) (by decide) (by decide) "/tmp/out"

/-- `P5 1 1 000000255`, and a pixel. -/
def longNumber : List UInt8 :=
  [80, 53, 32, 49, 32, 49, 32] ++ [48, 48, 48, 48, 48, 48, 50, 53, 53] ++ [10, 7]

/-- From 46341 on the number of parts is no `int`, and a number of nine digits
does not fit its array. -/
theorem roundTrip_fails :
    ¬ RoundTrip "/tmp/out" smallImage.encode smallImage 46341 ∧
      ∀ parts, split (print 1) (print 1) longNumber ≠ pure parts := by
  constructor
  · rintro ⟨parts, out, im', -, hjoin, -⟩
    have hnone : atoi (print ((46341 * 46341 : ℕ) : ℤ)) = none := by
      rw [atoi_print_eq]
      exact if_neg (by decide)
    unfold join at hjoin
    rw [hnone] at hjoin
    cases hjoin
  · intro parts hsplit
    have hnone : readNumbers (longNumber.drop 2) = none := rfl
    have hheader : readHeader "Wrong file format in split\n" longNumber = undefined := by
      show (liftM (readNumbers (longNumber.drop 2)) : Run _) = _
      rw [hnone]
      rfl
    have hone : atoi (print 1) = some 1 := atoi_print (n := 1) (by decide)
    unfold split at hsplit
    rw [hone, liftM_some, pure_bind, pure_bind, hheader] at hsplit
    cases hsplit

end Pepal.Pgm

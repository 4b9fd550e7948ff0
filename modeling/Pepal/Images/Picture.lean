import Pepal.Images.Detection
import Pepal.Pgm.Join

/-!
# The picture, start to end

`Sender::watermark` has the whole image marked, splits it 16 by 16 and has
every part marked twice, with the signatures for 0 and for 1. The marked parts
are what `main` transfers, and `Recipient::finish` joins what it has received.
The parts have one size, so all files of marked parts have one length, and the
picture at the end shows in every tile the part with the bit of the key.

The marking program is outside of this development. `wm_cox_e` takes a
signature and a file; what is relied on is that it writes a picture of the same
size. Once `split` or a marking has failed, `watermark` goes on without the
file; here it ends. All of it is under the condition that the transfer gets
through, with a pointer that nothing sets (`Readable`).
-/

namespace Pepal.Images

open PrimeOrder Pgm

/-! ## Putting parts together -/

/-- `pgm_writepgm` of the library that the marking program uses: the header is
laid out in three lines. -/
def pgm_writepgm (im : Image) : Bytes :=
  [80, 53, 10] ++ print im.width ++ [32] ++ print im.height ++ [10] ++ print im.max_grey ++ [10] ++
    im.raster

theorem encodes_writepgm {im : Image} (hw : im.width < 10 ^ 8) (hh : im.height < 10 ^ 8) :
    Encodes (pgm_writepgm im) im := by
  have hblank : ∀ {x : UInt8}, isBlank x = true → Blanks [x] := by
    intro x hx y hy
    rwa [List.mem_singleton.mp hy]
  refine ⟨[10], [32], [10], [10], _, _, _, ?_, ⟨hblank rfl, List.cons_ne_nil _ _⟩,
    ⟨hblank rfl, List.cons_ne_nil _ _⟩, ⟨hblank rfl, List.cons_ne_nil _ _⟩, ⟨hblank rfl, rfl⟩,
    number_decimal hw, number_decimal hh, number_decimal (im.depth.trans_lt (by decide))⟩
  rfl

/-- Two images of one size and depth. -/
structure SameSize (im im' : Image) : Prop where
  width : im.width = im'.width
  height : im.height = im'.height
  max_grey : im.max_grey = im'.max_grey

theorem image_eq {im im' : Image} (hsize : SameSize im im') (hraster : im.raster = im'.raster) :
    im = im' := by
  obtain ⟨hwidth, hheight, hgrey⟩ := hsize
  cases im
  cases im'
  subst hwidth hheight hgrey hraster
  rfl

theorem length_writepgm {im im' : Image} (h : SameSize im im') :
    (pgm_writepgm im).length = (pgm_writepgm im').length := by
  unfold pgm_writepgm
  simp only [List.length_append, im.size, im'.size, h.width, h.height, h.max_grey]

theorem length_print_le {n : ℕ} (hn : n < 10 ^ 8) : (print n).length ≤ 8 := by
  unfold print bytes
  rw [List.length_map]
  exact (number_decimal hn).short

/-- The file of a part is so small that an `int` holds its length. -/
theorem length_writepgm_tile {im : Image} (hsize : im.width * im.height < 2 ^ 31)
    (hw : im.width < 10 ^ 8) (hh : im.height < 10 ^ 8) :
    (pgm_writepgm (im.tile 16 0 0)).length < 2 ^ 31 := by
  have hwidth := length_print_le (show (im.tile 16 0 0).width < 10 ^ 8 by rw [tile_width]; omega)
  have hheight := length_print_le (show (im.tile 16 0 0).height < 10 ^ 8 by rw [tile_height]; omega)
  have hgrey := length_print_le ((im.tile 16 0 0).depth.trans_lt (by decide))
  have harea : 256 * ((im.width / 16) * (im.height / 16)) ≤ im.width * im.height := by
    calc 256 * ((im.width / 16) * (im.height / 16))
        = (16 * (im.width / 16)) * (16 * (im.height / 16)) := by ring
      _ ≤ im.width * im.height :=
        Nat.mul_le_mul (Nat.mul_div_le im.width 16) (Nat.mul_div_le im.height 16)
  have hraster : (im.tile 16 0 0).raster.length = (im.width / 16) * (im.height / 16) :=
    (im.tile 16 0 0).size
  unfold pgm_writepgm
  simp only [List.length_append, List.length_cons, List.length_nil, hraster]
  omega

/-- The picture whose tiles, `s` by `s`, are these. -/
def assemble (s : ℕ) (first : Image) (tiles : ℕ → Image) : Image where
  width := s * first.width
  height := s * first.height
  max_grey := first.max_grey
  raster := Tiling.rows (s * first.width) (s * first.height) fun x y =>
    (tiles (y / first.height * s + x / first.width)).pixel (x % first.width) (y % first.height)
  depth := first.depth
  size := Tiling.length_rows _ _ _

section Assemble

variable {s : ℕ} {first : Image} {tiles : ℕ → Image}

theorem pixel_assemble {t l k : ℕ} (ht : t < s * s) (hl : l < first.width) (hk : k < first.height) :
    (assemble s first tiles).pixel (first.width * (t % s) + l) (first.height * (t / s) + k) =
      (tiles t).pixel l k := by
  have hs : 0 < s := Nat.pos_of_mul_pos_left (Nat.zero_lt_of_lt ht)
  have hx := Tiling.tile_lt (Nat.mod_lt t hs) hl
  have hy := Tiling.tile_lt (Nat.div_lt_of_lt_mul ht) hk
  have hcol : (first.width * (t % s) + l) / first.width = t % s := by
    rw [Nat.mul_add_div (Nat.zero_lt_of_lt hl), Nat.div_eq_of_lt hl, Nat.add_zero]
  have hrow : (first.height * (t / s) + k) / first.height = t / s := by
    rw [Nat.mul_add_div (Nat.zero_lt_of_lt hk), Nat.div_eq_of_lt hk, Nat.add_zero]
  have hget : (assemble s first tiles).raster[first.width * (t % s) + l +
      (first.height * (t / s) + k) * (s * first.width)]? = _ := Tiling.getElem?_rows _ hx hy
  show (assemble s first tiles).raster.getD (first.width * (t % s) + l +
    (first.height * (t / s) + k) * (s * first.width)) 0 = _
  rw [List.getD_eq_getElem?_getD, hget, Option.getD_some, hcol, hrow, Nat.mul_add_mod,
    Nat.mul_add_mod, Nat.mod_eq_of_lt hl, Nat.mod_eq_of_lt hk, Nat.mul_comm, Nat.div_add_mod]

theorem width_assemble (hs : 0 < s) : (assemble s first tiles).width / s = first.width :=
  Nat.mul_div_cancel_left _ hs

theorem height_assemble (hs : 0 < s) : (assemble s first tiles).height / s = first.height :=
  Nat.mul_div_cancel_left _ hs

/-- Splitting the picture gives the tiles again. -/
theorem raster_tile_assemble {t : ℕ} (ht : t < s * s) (hsize : SameSize (tiles t) first) :
    ((assemble s first tiles).tile s (t / s) (t % s)).raster = (tiles t).raster := by
  have hs : 0 < s := Nat.pos_of_mul_pos_left (Nat.zero_lt_of_lt ht)
  have hlength : (tiles t).raster.length = first.width * first.height := by
    rw [(tiles t).size, hsize.width, hsize.height]
  have hrows := Tiling.rows_getD hlength 0
  show Tiling.rows _ _ _ = _
  rw [width_assemble hs, height_assemble hs, ← hrows]
  refine Tiling.rows_congr fun l k hl hk => ?_
  rw [pixel_assemble ht hl hk, ← hsize.width]
  rfl

theorem tile_assemble {t : ℕ} (ht : t < s * s) (hsize : SameSize (tiles t) first) :
    (assemble s first tiles).tile s (t / s) (t % s) = tiles t := by
  have hs : 0 < s := Nat.pos_of_mul_pos_left (Nat.zero_lt_of_lt ht)
  refine image_eq ⟨?_, ?_, hsize.max_grey.symm⟩ (raster_tile_assemble ht hsize)
  · rw [tile_width, width_assemble hs, hsize.width]
  · rw [tile_height, height_assemble hs, hsize.height]

end Assemble

/-! ## The program from file to file -/

variable {r : ℕ} {G : Type*} [PrimeOrderGroup r G] [DecidableEq G] {Sig : Type}

/-- `cox_out0_<i>.pgm` and `cox_out1_<i>.pgm`, from the part `out<i>.pgm`. -/
def markedParts (wm_cox_e : Sig → Bytes → Bytes) (sig_j : ℕ → Sig) (parts : List (ℤ × Bytes))
    (sec_par : ℕ) : Option (List (List Bytes)) :=
  (List.range sec_par).mapM fun i =>
    (List.range 2).mapM fun j => (handOver parts i).map (wm_cox_e (sig_j j))

/-- `NDA_out_complete.pgm`, from the file with the image. -/
def picture (L : CryptoLib G) (public_g : G) (R_sk a : Zr r) (new_b : ℕ → Zr r)
    (enc : ℕ → EncryptedReturn) (wm_cox_e : Sig → Bytes → Bytes) (sig : Sig) (sig_j : ℕ → Sig)
    (inputfile : Bytes) : Run Bytes := do
  let sec_par := (padBitstring (Zr_to_bs R_sk)).length
  let parts ← split (print (16 : ℕ)) (print (16 : ℕ)) (wm_cox_e sig inputfile)
  let message ← (markedParts wm_cox_e sig_j parts sec_par : Option _)
  match main L public_g R_sk a new_b enc fun i j => (message.getD i []).getD j [] with
  | none => undefined
  | some (.error printed) => throw printed
  | some (.ok R) =>
      let out ← (R.finish : Option _)
      join "/tmp/NDA/rec_out" (print sec_par) fun i => out[i]?

/-- What the marking program makes of the parts of an image: pictures of their
size. -/
structure Marks (wm_cox_e : Sig → Bytes → Bytes) (sig_j : ℕ → Sig) (im : Image)
    (marked : ℕ → ℕ → Image) : Prop where
  written : ∀ t < 16 * 16, ∀ j < 2,
    wm_cox_e (sig_j j) (im.tile 16 (t / 16) (t % 16)).encode = pgm_writepgm (marked t j)
  size : ∀ t < 16 * 16, ∀ j < 2, SameSize (marked t j) (im.tile 16 0 0)

/-- The files that are transferred. -/
theorem markedParts_eq {wm_cox_e : Sig → Bytes → Bytes} {sig_j : ℕ → Sig} {im : Image}
    {marked : ℕ → ℕ → Image} (h : Marks wm_cox_e sig_j im marked) :
    markedParts wm_cox_e sig_j (im.tiles 16) (16 * 16) =
      some ((List.range (16 * 16)).map fun t =>
        (List.range 2).map fun j => pgm_writepgm (marked t j)) := by
  refine Fallible.mapM_of_some fun t ht => Fallible.mapM_of_some fun j hj => ?_
  rw [List.mem_range] at ht hj
  rw [handOver_tiles ht, Option.map_some, h.written t ht j hj]

theorem getD_marked (marked : ℕ → ℕ → Image) {n t j : ℕ} (ht : t < n) (hj : j < 2) :
    (((List.range n).map fun t => (List.range 2).map fun j => pgm_writepgm (marked t j)).getD t
      []).getD j [] = pgm_writepgm (marked t j) := by
  rw [List.getD_eq_getElem?_getD, List.getD_eq_getElem?_getD, List.getElem?_map,
    List.getElem?_range ht, Option.map_some, Option.getD_some, List.getElem?_map,
    List.getElem?_range hj, Option.map_some, Option.getD_some]

/-- The picture that a recipient with this key receives. -/
def received (im : Image) (marked : ℕ → ℕ → Image) (R_sk : Zr r) : Image :=
  assemble 16 (im.tile 16 0 0) fun t => marked t (Numeral.digit 2 R_sk.val t)

theorem encode_cropped {im : Image} {s : ℕ} (hw : s ∣ im.width) (hh : s ∣ im.height) :
    (im.cropped s).encodeAs im.max_grey = im.encode := by
  unfold Image.encodeAs Image.encode
  rw [raster_cropped hw hh]
  show printHeader { width := (s * (im.width / s) : ℕ), height := (s * (im.height / s) : ℕ)
                     max_grey := im.max_grey } ++ _ = _
  rw [Nat.mul_div_cancel' hw, Nat.mul_div_cancel' hh]

/-- What is received joins to the picture. -/
theorem join_received {im : Image} {marked : ℕ → ℕ → Image} {wm_cox_e : Sig → Bytes → Bytes}
    {sig_j : ℕ → Sig} (h : Marks wm_cox_e sig_j im marked) (hsize : im.width * im.height < 2 ^ 31)
    (hwidth : im.width < 10 ^ 8) (hheight : im.height < 10 ^ 8) (R_sk : Zr r) (source : String)
    {files : ℕ → Option Bytes}
    (hfiles : ∀ t < 16 * 16,
      files t = some (pgm_writepgm (marked t (Numeral.digit 2 R_sk.val t)))) :
    join source (print (16 * 16 : ℕ)) files = pure (received im marked R_sk).encode := by
  have hs : 0 < 16 := by decide
  have hw : 16 * (im.width / 16) ≤ im.width := Nat.mul_div_le _ _
  have hh : 16 * (im.height / 16) ≤ im.height := Nat.mul_div_le _ _
  have hparts : ∀ t < 16 * 16, ∃ file, files t = some file ∧
      HasHeader file ((received im marked R_sk).width / 16) ((received im marked R_sk).height / 16)
        (received im marked R_sk).max_grey
        ((received im marked R_sk).tile 16 (t / 16) (t % 16)).raster := by
    intro t ht
    have hsame := h.size t ht _ (Numeral.digit_lt (by decide : 0 < 2) R_sk.val t)
    have hpart : (marked t (Numeral.digit 2 R_sk.val t)).width < 10 ^ 8 := by
      rw [hsame.width, tile_width]
      omega
    have hpart' : (marked t (Numeral.digit 2 R_sk.val t)).height < 10 ^ 8 := by
      rw [hsame.height, tile_height]
      omega
    have hencodes := encodes_writepgm hpart hpart'
    refine ⟨_, hfiles t ht, ?_⟩
    unfold received
    rw [width_assemble hs, height_assemble hs, raster_tile_assemble ht hsame, ← hsame.width,
      ← hsame.height]
    show HasHeader _ _ _ (im.tile 16 0 0).max_grey _
    rw [← hsame.max_grey]
    exact hasHeader_of_encodes hencodes
  have hjoin := join_hasHeader hs ((Nat.mul_le_mul hw hh).trans_lt hsize) (hw.trans_lt hwidth)
    (hh.trans_lt hheight) (by decide) source hparts
  rw [hjoin, encode_cropped (Dvd.intro _ rfl) (Dvd.intro _ rfl)]

/-- The program ends with that picture, when the transfer gets through. -/
theorem picture_received (L : CryptoLib G) (public_g : G) {R_sk : Zr r} (a : Zr r)
    (new_b : ℕ → Zr r) {enc : ℕ → EncryptedReturn} {wm_cox_e : Sig → Bytes → Bytes} {sig : Sig}
    {sig_j : ℕ → Sig} {inputfile : Bytes} {im : Image} {marked : ℕ → ℕ → Image}
    (hn : (padBitstring (Zr_to_bs R_sk)).length = 16 * 16) (hload : Readable R_sk enc (16 * 16))
    (him : Encodes (wm_cox_e sig inputfile) im) (hsize : im.width * im.height < 2 ^ 31)
    (h : Marks wm_cox_e sig_j im marked) :
    picture L public_g R_sk a new_b enc wm_cox_e sig sig_j inputfile =
      pure (received im marked R_sk).encode := by
  obtain ⟨hwidth, hheight⟩ := lt_of_encodes him
  have hsplit := split_eq him hsize (by decide : 16 * 16 < 2 ^ 31)
  have hlength : ∀ part < 16 * 16, ∀ j < 2,
      ((((List.range (16 * 16)).map fun t => (List.range 2).map fun j =>
        pgm_writepgm (marked t j)).getD part []).getD j []).length =
          (pgm_writepgm (im.tile 16 0 0)).length := by
    intro part hpart j hj
    rw [getD_marked marked hpart hj]
    exact length_writepgm (h.size part hpart j hj)
  obtain ⟨R, hmain, -, hfinish⟩ := main_honest L public_g a new_b hn hlength
    (length_writepgm_tile hsize hwidth hheight) hload
  have hout : ∀ t < 16 * 16,
      ((List.range (16 * 16)).map fun part => (((List.range (16 * 16)).map fun t =>
        (List.range 2).map fun j => pgm_writepgm (marked t j)).getD part []).getD
          (Numeral.digit 2 R_sk.val part) [])[t]? =
        some (pgm_writepgm (marked t (Numeral.digit 2 R_sk.val t))) := by
    intro t ht
    rw [List.getElem?_map, List.getElem?_range ht, Option.map_some,
      getD_marked marked ht (Numeral.digit_lt (by decide) _ _)]
  unfold picture
  rw [hn, hsplit, pure_bind, markedParts_eq h, liftM_some, pure_bind, hmain]
  dsimp only
  rw [hfinish, liftM_some, pure_bind]
  exact join_received h hsize hwidth hheight R_sk "/tmp/NDA/rec_out" hout

/-- **The recipient gets the picture with its key in it.** For every image and
every key, if all loads of the transfer succeed, the picture at the end has the
image's size up to multiples of 16, and each of its tiles is the part that was
marked with the bit of the key. -/
theorem picture_eq (L : CryptoLib G) (public_g : G) {R_sk : Zr r} (a : Zr r) (new_b : ℕ → Zr r)
    {enc : ℕ → EncryptedReturn} {wm_cox_e : Sig → Bytes → Bytes} {sig : Sig} {sig_j : ℕ → Sig}
    {inputfile : Bytes} {im : Image} {marked : ℕ → ℕ → Image}
    (hn : (padBitstring (Zr_to_bs R_sk)).length = 16 * 16) (hload : Readable R_sk enc (16 * 16))
    (him : Encodes (wm_cox_e sig inputfile) im) (hsize : im.width * im.height < 2 ^ 31)
    (h : Marks wm_cox_e sig_j im marked) :
    ∃ final : Image,
      picture L public_g R_sk a new_b enc wm_cox_e sig sig_j inputfile = pure final.encode ∧
        final.width = 16 * (im.width / 16) ∧ final.height = 16 * (im.height / 16) ∧
        ∀ t < 16 * 16, ∀ l < im.width / 16, ∀ k < im.height / 16,
          final.pixel (im.width / 16 * (t % 16) + l) (im.height / 16 * (t / 16) + k) =
            (marked t (Numeral.digit 2 R_sk.val t)).pixel l k :=
  ⟨received im marked R_sk, picture_received L public_g a new_b hn hload him hsize h, rfl, rfl,
    fun _ ht _ hl _ hk => pixel_assemble ht hl hk⟩

/-! ## The key in the picture -/

/-- The file of an image determines it, among those of its size. -/
theorem image_of_encode {im im' : Image} (hsize : SameSize im im')
    (h : im.encode = im'.encode) : im = im' := by
  unfold Image.encode at h
  rw [hsize.width, hsize.height, hsize.max_grey] at h
  exact image_eq hsize (List.append_cancel_left h)

omit [PrimeOrderGroup r G] [DecidableEq G] in
theorem val_eq_of_digits {R_sk R_sk' : Zr r}
    (hn : (padBitstring (Zr_to_bs R_sk)).length = 16 * 16)
    (hn' : (padBitstring (Zr_to_bs R_sk')).length = 16 * 16)
    (h : ∀ t < 16 * 16, Numeral.digit 2 R_sk.val t = Numeral.digit 2 R_sk'.val t) :
    R_sk.val = R_sk'.val := by
  rw [← Nat.mod_eq_of_lt (val_lt_two_pow R_sk hn), ← Nat.mod_eq_of_lt (val_lt_two_pow R_sk' hn'),
    ← Numeral.sum_digits, ← Numeral.sum_digits]
  refine Finset.sum_congr rfl fun t ht => ?_
  rw [h t (Finset.mem_range.mp ht)]

/-- **A picture shows whose it is.** If the two marks make a difference in every
part, two recipients whose transfers get through and whose runs end with the same
picture have the same key. -/
theorem key_of_picture (L : CryptoLib G) (public_g : G) {R_sk R_sk' : Zr r} {a a' : Zr r}
    {new_b new_b' : ℕ → Zr r} {enc enc' : ℕ → EncryptedReturn} {wm_cox_e : Sig → Bytes → Bytes}
    {sig : Sig} {sig_j : ℕ → Sig} {inputfile : Bytes} {im : Image} {marked : ℕ → ℕ → Image}
    (hn : (padBitstring (Zr_to_bs R_sk)).length = 16 * 16)
    (hn' : (padBitstring (Zr_to_bs R_sk')).length = 16 * 16)
    (hload : Readable R_sk enc (16 * 16)) (hload' : Readable R_sk' enc' (16 * 16))
    (him : Encodes (wm_cox_e sig inputfile) im) (hsize : im.width * im.height < 2 ^ 31)
    (h : Marks wm_cox_e sig_j im marked)
    (hmarks : ∀ t < 16 * 16, (marked t 0).raster ≠ (marked t 1).raster)
    (heq : picture L public_g R_sk a new_b enc wm_cox_e sig sig_j inputfile =
      picture L public_g R_sk' a' new_b' enc' wm_cox_e sig sig_j inputfile) : R_sk = R_sk' := by
  have := order_fact G
  rw [picture_received L public_g a new_b hn hload him hsize h,
    picture_received L public_g a' new_b' hn' hload' him hsize h] at heq
  have hencode : (received im marked R_sk).encode = (received im marked R_sk').encode :=
    Except.ok.inj (Option.some.inj heq)
  have himage : received im marked R_sk = received im marked R_sk' :=
    image_of_encode ⟨rfl, rfl, rfl⟩ hencode
  refine ZMod.val_injective r (val_eq_of_digits hn hn' fun t ht => ?_)
  have hd : Numeral.digit 2 R_sk.val t < 2 := Numeral.digit_lt (by decide) _ _
  have hd' : Numeral.digit 2 R_sk'.val t < 2 := Numeral.digit_lt (by decide) _ _
  have htile : (marked t (Numeral.digit 2 R_sk.val t)).raster =
      (marked t (Numeral.digit 2 R_sk'.val t)).raster := by
    have hsplit : ((received im marked R_sk).tile 16 (t / 16) (t % 16)).raster =
        (marked t (Numeral.digit 2 R_sk.val t)).raster :=
      raster_tile_assemble ht (h.size t ht _ hd)
    have hsplit' : ((received im marked R_sk').tile 16 (t / 16) (t % 16)).raster =
        (marked t (Numeral.digit 2 R_sk'.val t)).raster :=
      raster_tile_assemble ht (h.size t ht _ hd')
    rw [← hsplit, ← hsplit', himage]
  have hne := hmarks t ht
  generalize Numeral.digit 2 R_sk.val t = c at hd htile ⊢
  generalize Numeral.digit 2 R_sk'.val t = c' at hd' htile ⊢
  obtain rfl | rfl : c = 0 ∨ c = 1 := by omega
  · obtain rfl | rfl : c' = 0 ∨ c' = 1 := by omega
    · rfl
    · exact absurd htile hne
  · obtain rfl | rfl : c' = 0 ∨ c' = 1 := by omega
    · exact absurd htile.symm hne
    · rfl

/-- **The key is read from the picture alone.** The picture that a recipient has
at the end, when the transfer gets through, is split again, and its parts are put
before the detector in place of the received ones: if the correlations are right
for them, no bit is wrong, and the bits are those of the recipient's key. -/
theorem key_read_from_picture {D : Type*} [LT D] [DecidableLT D] (L : CryptoLib G) (public_g : G)
    {R_sk : Zr r} (a : Zr r) (new_b : ℕ → Zr r) {enc : ℕ → EncryptedReturn}
    {wm_cox_e : Sig → Bytes → Bytes} {sig : Sig} {sig_j : ℕ → Sig} {inputfile : Bytes} {im : Image}
    {marked : ℕ → ℕ → Image} (hn : (padBitstring (Zr_to_bs R_sk)).length = 16 * 16)
    (hload : Readable R_sk enc (16 * 16)) (him : Encodes (wm_cox_e sig inputfile) im)
    (hsize : im.width * im.height < 2 ^ 31) (h : Marks wm_cox_e sig_j im marked) :
    ∃ file parts, picture L public_g R_sk a new_b enc wm_cox_e sig sig_j inputfile = pure file ∧
      split (print (16 : ℕ)) (print (16 : ℕ)) file = pure parts ∧
      ∀ corr : ℕ → Bytes → D × D,
        (∀ t < 16 * 16, Tells corr (fun t j => (marked t j).encode)
          (fun t => (handOver parts t).getD []) t) →
        detect_wm corr (fun t => (handOver parts t).getD []) (padBitstring (Zr_to_bs R_sk)) =
            (0, true) ∧
          ∑ t ∈ Finset.range (16 * 16),
            2 ^ t * detectedBit corr (fun t => (handOver parts t).getD []) t = R_sk.val := by
  obtain ⟨hwidth, hheight⟩ := lt_of_encodes him
  have hw : 16 * (im.width / 16) ≤ im.width := Nat.mul_div_le _ _
  have hh : 16 * (im.height / 16) ≤ im.height := Nat.mul_div_le _ _
  have hencodes : Encodes (received im marked R_sk).encode (received im marked R_sk) :=
    encodes_encode (hw.trans_lt hwidth) (hh.trans_lt hheight)
  have hsplit := split_eq hencodes ((Nat.mul_le_mul hw hh).trans_lt hsize)
    (by decide : 16 * 16 < 2 ^ 31)
  refine ⟨_, _, picture_received L public_g a new_b hn hload him hsize h, hsplit, ?_⟩
  intro corr htells
  apply detect_wm_of_bits R_sk hn
  intro t ht
  have hdigit : Numeral.digit 2 R_sk.val t < 2 := Numeral.digit_lt (by decide) _ _
  apply detectedBit_of_tells (htells t ht) hdigit
  have htile : (received im marked R_sk).tile 16 (t / 16) (t % 16) =
      marked t (Numeral.digit 2 R_sk.val t) := tile_assemble ht (h.size t ht _ hdigit)
  rw [handOver_tiles ht, Option.getD_some, htile]

/-! ## A run -/

/-- A marking that adds a number to every pixel. -/
def raise (number : UInt8) (im : Image) : Image :=
  { im with
    raster := im.raster.map (· + number)
    size := (List.length_map _).trans im.size }

/-- The program that does so. -/
def raiseFile (number : UInt8) (file : Bytes) : Bytes :=
  match readHeader "" file with
  | some (.ok (h, raster)) =>
      [80, 53, 10] ++ print h.width ++ [32] ++ print h.height ++ [10] ++ print h.max_grey ++ [10] ++
        raster.map (· + number)
  | _ => []

theorem raiseFile_eq (number : UInt8) {file : Bytes} {im : Image} (h : Encodes file im) :
    raiseFile number file = pgm_writepgm (raise number im) := by
  have hread : readHeader "" file =
      some (.ok ({ width := im.width, height := im.height, max_grey := im.max_grey }, im.raster)) :=
    readHeader_of_encodes h ""
  unfold raiseFile
  rw [hread]
  rfl

theorem depth_grey : 255 ≤ 255 := Nat.le_refl 255

theorem size_grey : (List.replicate 256 (7 : UInt8)).length = 16 * 16 := List.length_replicate

/-- Sixteen rows and columns of one grey. -/
def greyImage : Image where
  width := 16
  height := 16
  max_grey := 255
  raster := List.replicate 256 7
  depth := depth_grey
  size := size_grey

/-- The parts of the image with the mark 9, with the mark 0 or 1 each. -/
def raisedParts (t j : ℕ) : Image :=
  raise (UInt8.ofNat j) ((raise 9 greyImage).tile 16 (t / 16) (t % 16))

theorem marks_raisedParts : Marks raiseFile UInt8.ofNat (raise 9 greyImage) raisedParts where
  written := fun _ _ _ _ => raiseFile_eq _ (encodes_encode
    (show 16 / 16 < 10 ^ 8 by decide) (show 16 / 16 < 10 ^ 8 by decide))
  size := fun _ _ _ _ => ⟨rfl, rfl, rfl⟩

theorem encodes_greyImage : Encodes (raiseFile 9 greyImage.encode) (raise 9 greyImage) := by
  have hgrey : Encodes greyImage.encode greyImage := encodes_encode (by decide) (by decide)
  rw [raiseFile_eq 9 hgrey]
  exact encodes_writepgm (by decide) (by decide)

/-- Two numbers raise an image that has a pixel to different images. -/
theorem raise_ne {im : Image} (hpos : 0 < im.raster.length) {number number' : UInt8}
    (hne : number ≠ number') : (raise number im).raster ≠ (raise number' im).raster := by
  intro heq
  have hmap : im.raster.map (· + number) = im.raster.map (· + number') := heq
  exact hne ((UInt8.add_right_inj _).mp (List.map_inj_left.mp hmap _ (List.getElem_mem hpos)))

theorem raisedParts_ne (t : ℕ) : (raisedParts t 0).raster ≠ (raisedParts t 1).raster := by
  refine raise_ne ?_ (by decide)
  rw [Image.size]
  show 0 < 16 / 16 * (16 / 16)
  decide

/-- A run in which every load gives the address 0. -/
def greyRun (R_sk a : Zr 3) : Run Bytes :=
  picture digestLib (Multiplicative.ofAdd 1) R_sk a (fun i => (i : Zr 3))
    (fun _ => unsetReturn fun _ => some 0) raiseFile 9 UInt8.ofNat greyImage.encode

theorem readable_greyRun (R_sk : Zr 3) :
    Readable R_sk (fun _ => unsetReturn fun _ => some 0) (16 * 16) :=
  fun _ _ => Option.some_ne_none 0

/-- A recipient with the key 2 receives the second tile with the mark 1 and all
others with the mark 0. -/
theorem picture_eq_grey : ∃ final : Image,
    greyRun 2 2 = pure final.encode ∧
      final.width = 16 * (16 / 16) ∧ final.height = 16 * (16 / 16) ∧
      ∀ t < 16 * 16, ∀ l < 16 / 16, ∀ k < 16 / 16,
        final.pixel (16 / 16 * (t % 16) + l) (16 / 16 * (t / 16) + k) =
          (raisedParts t (Numeral.digit 2 (2 : Zr 3).val t)).pixel l k :=
  picture_eq digestLib _ 2 (fun i => (i : Zr 3)) length_bits_two (readable_greyRun 2)
    encodes_greyImage (by decide) marks_raisedParts

/-- Two runs with different randomness. -/
theorem key_of_picture_grey : greyRun 2 2 = greyRun 2 1 ∧ (2 : Zr 3) = 2 := by
  have hrun : ∀ a : Zr 3, greyRun 2 a = pure (received (raise 9 greyImage) raisedParts 2).encode :=
    fun a => picture_received digestLib _ a _ length_bits_two (readable_greyRun 2)
      encodes_greyImage (by decide) marks_raisedParts
  have hsame : greyRun 2 2 = greyRun 2 1 := (hrun 2).trans (hrun 1).symm
  exact ⟨hsame, key_of_picture digestLib _ length_bits_two length_bits_two
    (readable_greyRun 2) (readable_greyRun 2) encodes_greyImage (by decide) marks_raisedParts
    (fun t _ => raisedParts_ne t) hsame⟩

/-- A detector that knows the parts with the mark 1. -/
def greyCorr (t : ℕ) (file : Bytes) : ℕ × ℕ :=
  if file = (raisedParts t 1).encode then (0, 1) else (1, 0)

theorem tells_greyCorr (rec_out : ℕ → Bytes) (t : ℕ) :
    Tells greyCorr (fun t j => (raisedParts t j).encode) rec_out t := by
  constructor
  · intro hone
    rw [greyCorr, if_pos hone]
    decide
  · intro hzero
    have hne : rec_out t ≠ (raisedParts t 1).encode := by
      rw [hzero]
      intro heq
      exact raisedParts_ne t (congrArg Image.raster (image_of_encode ⟨rfl, rfl, rfl⟩ heq))
    rw [greyCorr, if_neg hne]
    decide

theorem key_read_from_picture_grey :
    ∃ file parts, greyRun 2 2 = pure file ∧
      split (print (16 : ℕ)) (print (16 : ℕ)) file = pure parts ∧
      detect_wm greyCorr (fun t => (handOver parts t).getD [])
        (padBitstring (Zr_to_bs (2 : Zr 3))) = (0, true) := by
  obtain ⟨file, parts, hpicture, hsplit, hread⟩ := key_read_from_picture (D := ℕ) digestLib
    (Multiplicative.ofAdd 1) 2 (fun i => (i : Zr 3)) length_bits_two (readable_greyRun 2)
    encodes_greyImage (by decide) marks_raisedParts
  exact ⟨file, parts, hpicture, hsplit, (hread greyCorr fun t _ => tells_greyCorr _ t).1⟩

end Pepal.Images

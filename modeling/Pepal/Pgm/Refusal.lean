import Pepal.Pgm.Join
import Pepal.Pgm.WellFormed

/-!
# Images with two bytes a sample

Above a `max_grey` of 255 both programs print that the value is not supported,
and go on. `content` has a byte for every pixel, so of a raster with two bytes a
sample the second half is never read.
-/

namespace Pepal.Pgm

/-- A well-formed file: a sample takes two bytes where one is not enough. -/
structure P5File extends P5 where
  raster : List UInt8
  size : raster.length = toP5.width * toP5.height * (if toP5.maxval ≤ 255 then 1 else 2)

namespace P5File

def file (f : P5File) : List UInt8 := f.text ++ f.raster

/-- The image that the programs see, with a byte for every pixel. -/
def seen (f : P5File) : Image where
  width := f.width
  height := f.height
  max_grey := 0
  raster := f.raster.take (f.width * f.height)
  depth := Nat.zero_le _
  size := by
    have hle : f.width * f.height ≤ f.raster.length := by
      rw [f.size]
      refine Nat.le_mul_of_pos_right _ ?_
      split
      · exact Nat.one_pos
      · exact Nat.two_pos
    rw [List.length_take, min_eq_left hle]

end P5File

/-- Split ends with an error, or the parts that it writes are joined to a file
with the header and the complete raster of the original. -/
def RefusedOrKept (source : String) (f : P5File) (s : ℕ) : Prop :=
  (∃ text, split (print s) (print s) f.file = throw text) ∨
    ∃ parts out, split (print s) (print s) f.file = pure parts ∧
      join source (print (s * s : ℕ)) (handOver parts) = pure out ∧
      HasHeader out f.width f.height f.maxval f.raster

/-! ## What split does with the file -/

theorem silent_split (f : P5File) (width_split height_split : List UInt8) :
    Silent (split width_split height_split f.file) := by
  unfold split
  refine (Silent.of_option _).bind fun a => (Silent.of_option _).bind fun b => ?_
  refine (silent_readHeader f.toP5 f.raster _).bind fun r => ?_
  exact (Silent.of_option _).bind fun content => Silent.of_option _

/-- A run to the end has read a header, and the size of its image was an `int`. -/
theorem read_of_split {f : P5File} {width_split height_split : List UInt8}
    {parts : List (ℤ × List UInt8)} (h : split width_split height_split f.file = pure parts) :
    ∃ header rest content, readNumbers (f.numbers ++ f.raster) = some (header, rest) ∧
      readContent header.width header.height rest = some content := by
  unfold split at h
  obtain ⟨a, -, h⟩ := exists_of_bind h
  obtain ⟨b, -, h⟩ := exists_of_bind h
  rw [P5File.file, readHeader_text] at h
  obtain ⟨⟨header, rest⟩, hread, h⟩ := exists_of_bind h
  obtain ⟨content, hcontent, -⟩ := exists_of_bind h
  exact ⟨header, rest, content, hread, hcontent⟩

theorem lt_of_readContent {width height : ℕ} {rest content : List UInt8}
    (h : readContent width height rest = some content) : width * height < 2 ^ 31 := by
  unfold readContent at h
  obtain ⟨n, hn, -⟩ := Option.bind_eq_some_iff.mp h
  exact lt_of_mul hn

section Supported

variable {f : P5File} {s : ℕ}

theorem lt_of_reads (hread : f.Reads f.raster) : f.width < 10 ^ 8 ∧ f.height < 10 ^ 8 := by
  obtain ⟨hwidth, hheight⟩ := readHeader_lt (hread.readHeader "")
  have hwidth' : (f.width : ℤ) < 10 ^ 8 := hwidth
  have hheight' : (f.height : ℤ) < 10 ^ 8 := hheight
  exact ⟨by omega, by omega⟩

/-- The number of parts is an `int` where the number of pixels is. -/
theorem parts_lt (hsize : f.width * f.height < 2 ^ 31) (hw : s ∣ f.width) (hh : s ∣ f.height) :
    s * s < 2 ^ 31 :=
  (Nat.mul_le_mul (Nat.le_of_dvd f.width_pos hw) (Nat.le_of_dvd f.height_pos hh)).trans_lt hsize

theorem split_file (hread : f.Reads f.raster) (hsize : f.width * f.height < 2 ^ 31)
    (hw : s ∣ f.width) (hh : s ∣ f.height) :
    split (print s) (print s) f.file = pure (f.seen.tilesAs f.maxval s) := by
  obtain ⟨hwidth, hheight⟩ := lt_of_reads hread
  exact split_of_readHeader (hread.readHeader _) hwidth hheight rfl hsize
    (parts_lt hsize hw hh)

/-- Of the raster the joined file has a byte for every pixel. -/
theorem join_file (hread : f.Reads f.raster) (hsize : f.width * f.height < 2 ^ 31)
    (hw : s ∣ f.width) (hh : s ∣ f.height) (source : String) :
    join source (print (s * s : ℕ)) (handOver (f.seen.tilesAs f.maxval s)) =
      pure (printHeader f.header ++ f.raster.take (f.width * f.height)) := by
  obtain ⟨hwidth, hheight⟩ := lt_of_reads hread
  have hs : 0 < s := Nat.pos_of_dvd_of_pos hw f.width_pos
  have hgrey : f.maxval < 10 ^ 8 := f.maxval_lt.trans (by decide)
  have hjoin : join source (print (s * s : ℕ)) (handOver (f.seen.tilesAs f.maxval s)) =
      pure ((f.seen.cropped s).encodeAs f.maxval) :=
    join_tilesAs hs hsize hwidth hheight hgrey (parts_lt hsize hw hh) source
      fun t ht => handOver_tilesAs ht f.maxval
  have hraster : (f.seen.cropped s).raster = f.raster.take (f.width * f.height) :=
    raster_cropped hw hh
  have hcols : (f.seen.cropped s).width = f.width := Nat.mul_div_cancel' hw
  have hrows : (f.seen.cropped s).height = f.height := Nat.mul_div_cancel' hh
  rw [hjoin, Image.encodeAs, hraster, hcols, hrows]
  rfl

theorem hasHeader_out (hread : f.Reads f.raster) (rest : List UInt8) :
    HasHeader (printHeader f.header ++ rest) f.width f.height f.maxval rest := by
  obtain ⟨hwidth, hheight⟩ := lt_of_reads hread
  exact hasHeader_printHeader hwidth hheight (f.maxval_lt.trans (by decide)) rest

theorem kept_of_supported (hread : f.Reads f.raster) (hdepth : f.maxval ≤ 255)
    (hsize : f.width * f.height < 2 ^ 31) (hw : s ∣ f.width) (hh : s ∣ f.height)
    (source : String) : RefusedOrKept source f s := by
  right
  have hraster : f.raster.take (f.width * f.height) = f.raster := by
    have hlength := f.size
    rw [if_pos hdepth, Nat.mul_one] at hlength
    rw [← hlength, List.take_length]
  have hjoin := join_file hread hsize hw hh source
  rw [hraster] at hjoin
  exact ⟨_, _, split_file hread hsize hw hh, hjoin, hasHeader_out hread f.raster⟩

/-- Above 255 half of the raster is lost. -/
theorem depth_of_kept (hread : f.Reads f.raster) (hsize : f.width * f.height < 2 ^ 31)
    (hw : s ∣ f.width) (hh : s ∣ f.height) {source : String} {parts : List (ℤ × List UInt8)}
    {out : List UInt8} (hsplit : split (print s) (print s) f.file = pure parts)
    (hjoin : join source (print (s * s : ℕ)) (handOver parts) = pure out)
    (hout : HasHeader out f.width f.height f.maxval f.raster) : f.maxval ≤ 255 := by
  by_contra hdepth
  cases (split_file hread hsize hw hh).symm.trans hsplit
  cases (join_file hread hsize hw hh source).symm.trans hjoin
  have hhalf := hasHeader_out hread (f.raster.take (f.width * f.height))
  have hread' := (readHeader_of_hasHeader hout "").symm.trans (readHeader_of_hasHeader hhalf "")
  have hraster : f.raster = f.raster.take (f.width * f.height) :=
    (Prod.mk.inj (Except.ok.inj (Option.some.inj hread'))).2
  have hlength := f.size
  rw [if_neg hdepth] at hlength
  have htake : f.raster.length ≤ f.width * f.height := by
    rw [hraster]
    exact List.length_take_le _ _
  have hpos : 0 < f.width * f.height := Nat.mul_pos f.width_pos f.height_pos
  omega

/-- Without comments the file has to be supported. -/
theorem supported_of_kept (hplain : f.Plain) (hw : s ∣ f.width) (hh : s ∣ f.height)
    {source : String} (h : RefusedOrKept source f s) :
    f.Reads f.raster ∧ f.maxval ≤ 255 ∧ f.width * f.height < 2 ^ 31 := by
  rcases h with ⟨text, hrefused⟩ | ⟨parts, out, hsplit, hjoin, hout⟩
  · exact absurd hrefused (silent_split f _ _ text)
  · obtain ⟨header, rest, content, hnumbers, hcontent⟩ := read_of_split hsplit
    have hread := P5.reads_of_readNumbers hplain hnumbers
    cases hread.symm.trans hnumbers
    have hsize : f.width * f.height < 2 ^ 31 := lt_of_readContent hcontent
    exact ⟨hread, depth_of_kept hread hsize hw hh hsplit hjoin hout, hsize⟩

end Supported

/-- **An image is refused or kept where its numbers are read, a sample is one
byte and the number of pixels is an `int`**, and without comments only there. -/
theorem refusedOrKept_iff (source : String) (f : P5File) {s : ℕ} (hw : s ∣ f.width)
    (hh : s ∣ f.height) :
    (f.Reads f.raster ∧ f.maxval ≤ 255 ∧ f.width * f.height < 2 ^ 31 →
        RefusedOrKept source f s) ∧
      (f.Plain → RefusedOrKept source f s →
        f.Reads f.raster ∧ f.maxval ≤ 255 ∧ f.width * f.height < 2 ^ 31) := by
  constructor
  · rintro ⟨hread, hdepth, hsize⟩
    exact kept_of_supported hread hdepth hsize hw hh source
  · intro hplain h
    exact supported_of_kept hplain hw hh h

def byteNumbers : Numbers := .bytewise 2 2 (Nat.succ_pos 1) (Nat.succ_pos 1)

/-- Two columns and two rows. -/
def byteFile : P5File where
  toP5 := .written byteNumbers
  raster := [7, 32, 10, 255]
  size := by
    obtain ⟨hw, hh, hm⟩ := header_written byteNumbers
    rw [hw, hh, hm]
    rfl

theorem byteFile_kept : RefusedOrKept "/tmp/out" byteFile 2 := by
  obtain ⟨hw, hh, hm⟩ := header_written byteNumbers
  have hread : byteFile.Reads byteFile.raster := reads_written (by decide) (by decide) _
  have hsize : byteFile.width * byteFile.height < 2 ^ 31 := by
    show (P5.written byteNumbers).width * (P5.written byteNumbers).height < 2 ^ 31
    rw [hw, hh]
    decide
  exact (refusedOrKept_iff "/tmp/out" byteFile (dvd_of_eq hw.symm) (dvd_of_eq hh.symm)).1
    ⟨hread, hm.le, hsize⟩

def sampleNumbers : Numbers where
  width := 1
  height := 1
  maxval := 65535
  width_pos := Nat.one_pos
  height_pos := Nat.one_pos
  maxval_pos := Nat.succ_pos 65534
  maxval_lt := Nat.le_of_ble_eq_true rfl

/-- One sample of two bytes. -/
def sampleFile : P5File where
  toP5 := .written sampleNumbers
  raster := [18, 52]
  size := by
    obtain ⟨hw, hh, hm⟩ := header_written sampleNumbers
    rw [hw, hh, hm]
    rfl

/-- The second byte of the sample is lost. -/
theorem sampleFile_damaged :
    ¬ RefusedOrKept "/tmp/out" sampleFile 1 ∧
      ∃ parts, split (print 1) (print 1) sampleFile.file = pure parts ∧
        join "/tmp/out" (print 1) (handOver parts) =
          pure (printHeader sampleFile.header ++ [18]) := by
  obtain ⟨hw, hh, hm⟩ := header_written sampleNumbers
  have hread : sampleFile.Reads sampleFile.raster := reads_written (by decide) (by decide) _
  have hpixels : sampleFile.width * sampleFile.height = 1 := by
    show (P5.written sampleNumbers).width * (P5.written sampleNumbers).height = 1
    rw [hw, hh]
    rfl
  have hsize : sampleFile.width * sampleFile.height < 2 ^ 31 := hpixels.trans_lt (by decide)
  constructor
  · intro h
    have hdepth := (supported_of_kept (plain_written _) (one_dvd _) (one_dvd _) h).2.1
    exact absurd (hm.symm.trans_le hdepth) (by decide)
  · refine ⟨_, split_file hread hsize (one_dvd _) (one_dvd _), ?_⟩
    have hjoin := join_file hread hsize (one_dvd _) (one_dvd _) "/tmp/out"
    rw [hpixels] at hjoin
    exact hjoin

end Pepal.Pgm

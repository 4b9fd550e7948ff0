import Pepal.Software.Delivery

/-!
# Traces in the software

`apdl.py` has SandMark put one of two numbers into a program, and looks for them
in a program that has come to light. `make_files.py` lays out 256 copies of the two
marked programs for the transfer. So the files that a receiver is left with carry
the bits of the key, and `apdl.py` finds them again.

The names that `make_files.py` writes and those that the transfer opens differ in
one letter, which is small in one of them. On a file system that tells small
letters from capitals the transfer ends there.

SandMark itself is outside of this development.
-/

namespace Pepal.Software

open PrimeOrder

/-! ## Disks -/

/-- What a file is found by. -/
def found : Bool → String → String
  | true, name => String.ofList (name.toList.map Char.toLower)
  | false, name => name

/-- The files that a program sees. -/
def view (caseless : Bool) (disk : Files) : Files := fun name => disk (found caseless name)

def writeFile (caseless : Bool) (disk : Files) (name : String) (content : Bytes) : Files :=
  Function.update disk (found caseless name) (some content)

/-! ## The marks -/

/-- The commands `-E` and `-R` of SandMark with the key 4198. `none` is a command
that fails; `recognize` gives the `str` of what is printed. -/
structure SandMark where
  embed : Bytes → String → Option Bytes
  recognize : Bytes → Option String

def zeroWm : String := "6666666"

def oneWm : String := "8888888"

/-- `part in text` -/
def contains (text part : String) : Prop := part.toList <:+: text.toList

instance (text part : String) : Decidable (contains text part) :=
  inferInstanceAs (Decidable (part.toList <:+: text.toList))

/-- The `wm` of a bit. -/
def wmOf (wmBit : ℤ) : String := if wmBit = 0 then zeroWm else oneWm

def watermark (S : SandMark) (caseless : Bool) (disk : Files) (rawFile outFile : String)
    (wmBit : ℤ) : Files :=
  match (view caseless disk rawFile).bind fun content => S.embed content (wmOf wmBit) with
  | some marked => writeFile caseless disk outFile marked
  | none => disk

/-- What is printed as the watermark, if anything is. -/
def extractBit (S : SandMark) (files : Files) (wmFile : String) : Option String := do
  let content ← files wmFile
  let detected ← S.recognize content
  if contains detected zeroWm then return "0"
  else if contains detected oneWm then return "1"
  else return detected

/-! ## The files of the transfer -/

/-- The names in `write_files`, seen from the sender's directory. -/
def fileMade (i j : ℕ) : String :=
  if j = 0 then "./files_to_send/HelloWorld" ++ toString i ++ "_wm0.jar"
  else "./files_to_send/HelloWorld" ++ toString i ++ "_wm1.jar"

def write_files (caseless : Bool) (disk : Files) : Option Files := do
  let content0 ← view caseless disk (fileMade 0 0)
  let content1 ← view caseless disk (fileMade 0 1)
  return (List.range 256).foldl (fun disk i =>
    writeFile caseless (writeFile caseless disk (fileMade i 0) content0) (fileMade i 1) content1)
    disk

/-- What the sender does before a transfer: both marks, then the copies. -/
def prepare (S : SandMark) (caseless : Bool) (disk : Files) (rawFile : String) : Option Files :=
  let disk := watermark S caseless disk rawFile (fileMade 0 0) 0
  let disk := watermark S caseless disk rawFile (fileMade 0 1) 1
  write_files caseless disk

/-! ## Names -/

theorem toList_found (caseless : Bool) (name : String) :
    (found caseless name).toList =
      name.toList.map (if caseless then Char.toLower else id) := by
  cases caseless with
  | false => exact (List.map_id _).symm
  | true => exact String.toList_ofList

theorem toList_fileMade {i j : ℕ} (hj : j < 2) :
    (fileMade i j).toList = "./files_to_send/HelloWorld".toList ++ (toString i).toList ++
      ("_wm".toList ++ Nat.digitChar j :: ".jar".toList) := by
  obtain rfl | rfl : j = 0 ∨ j = 1 := by omega
  · show ("./files_to_send/HelloWorld" ++ toString i ++ "_wm0.jar").toList = _
    rw [String.toList_append, String.toList_append]
    rfl
  · show ("./files_to_send/HelloWorld" ++ toString i ++ "_wm1.jar").toList = _
    rw [String.toList_append, String.toList_append]
    rfl

theorem toList_fileToSend {i j : ℕ} (hj : j < 2) :
    (fileToSend i j).toList = "./files_to_send/Helloworld".toList ++ (toString i).toList ++
      ("_wm".toList ++ Nat.digitChar j :: ".jar".toList) := by
  obtain rfl | rfl : j = 0 ∨ j = 1 := by omega
  · show ("./files_to_send/Helloworld" ++ toString i ++ "_wm0.jar").toList = _
    rw [String.toList_append, String.toList_append]
    rfl
  · show ("./files_to_send/Helloworld" ++ toString i ++ "_wm1.jar").toList = _
    rw [String.toList_append, String.toList_append]
    rfl

/-- Digits are found by themselves. -/
theorem toLower_digit {c : Char} (h : c.isDigit = true) : c.toLower = c := by
  unfold Char.toLower
  unfold Char.isDigit at h
  grind

theorem map_digits (caseless : Bool) (i : ℕ) :
    (toString i).toList.map (if caseless then Char.toLower else id) = (toString i).toList := by
  have hfixed : ∀ c ∈ (toString i).toList, (if caseless then Char.toLower else id) c = c := by
    intro c hc
    have hdigit : c.isDigit = true := by
      have hrepr : (toString i).toList = Nat.toDigits 10 i := String.toList_ofList
      rw [hrepr] at hc
      exact Nat.isDigit_of_mem_toDigits (by decide) (by decide) hc
    cases caseless with
    | false => rfl
    | true => exact toLower_digit hdigit
  exact (List.map_congr_left hfixed).trans (List.map_id _)

theorem toList_found_fileMade (caseless : Bool) {i j : ℕ} (hj : j < 2) :
    (found caseless (fileMade i j)).toList =
      "./files_to_send/HelloWorld".toList.map (if caseless then Char.toLower else id) ++
        (toString i).toList ++ ("_wm".toList ++ Nat.digitChar j :: ".jar".toList).map
          (if caseless then Char.toLower else id) := by
  rw [toList_found, toList_fileMade hj, List.map_append, List.map_append, map_digits]

theorem found_fileMade_injective {caseless : Bool} {i j i' j' : ℕ} (hj : j < 2) (hj' : j' < 2)
    (h : found caseless (fileMade i j) = found caseless (fileMade i' j')) : i = i' ∧ j = j' := by
  have hlist := congrArg String.toList h
  rw [toList_found_fileMade caseless hj, toList_found_fileMade caseless hj'] at hlist
  obtain ⟨hstart, hend⟩ := List.append_inj' hlist rfl
  have hdigits := String.toList_injective (List.append_cancel_left hstart)
  refine ⟨Nat.repr_injective hdigits, ?_⟩
  obtain rfl | rfl : j = 0 ∨ j = 1 := by omega
  · obtain rfl | rfl : j' = 0 ∨ j' = 1 := by omega
    · rfl
    · cases caseless with
      | false => exact absurd hend (by decide)
      | true => exact absurd hend (by decide)
  · obtain rfl | rfl : j' = 0 ∨ j' = 1 := by omega
    · cases caseless with
      | false => exact absurd hend (by decide)
      | true => exact absurd hend (by decide)
    · rfl

/-- Without capitals the names that are opened are the names that are made. -/
theorem found_fileToSend {i j : ℕ} (hj : j < 2) :
    found true (fileToSend i j) = found true (fileMade i j) := by
  refine String.toList_injective ?_
  rw [toList_found, toList_found, toList_fileMade hj, toList_fileToSend hj, List.map_append,
    List.map_append, List.map_append, List.map_append]
  rfl

theorem fileToSend_ne {i j i' j' : ℕ} (hj : j < 2) (hj' : j' < 2) :
    fileToSend i j ≠ fileMade i' j' := by
  intro h
  have hlist : (fileToSend i j).toList.take 22 = (fileMade i' j').toList.take 22 := by rw [h]
  rw [toList_fileToSend hj, toList_fileMade hj', List.append_assoc, List.append_assoc,
    List.take_append_of_le_length (by decide), List.take_append_of_le_length (by decide)] at hlist
  exact absurd hlist (by decide)

/-! ## The disk that the transfer reads -/

section Disk

variable {caseless : Bool} {disk : Files}

theorem view_writeFile_self (name : String) (content : Bytes) :
    view caseless (writeFile caseless disk name content) name = some content :=
  Function.update_self _ _ _

theorem writeFile_of_ne {name : String} {content : Bytes} {key : String}
    (h : key ≠ found caseless name) : writeFile caseless disk name content key = disk key :=
  Function.update_of_ne h _ _

/-- The files after some rounds of the loop. -/
def copies (caseless : Bool) (disk : Files) (content : ℕ → Bytes) (n : ℕ) : Files :=
  (List.range n).foldl (fun disk i =>
    writeFile caseless (writeFile caseless disk (fileMade i 0) (content 0)) (fileMade i 1)
      (content 1)) disk

theorem copies_succ (content : ℕ → Bytes) (n : ℕ) :
    copies caseless disk content (n + 1) =
      writeFile caseless (writeFile caseless (copies caseless disk content n) (fileMade n 0)
        (content 0)) (fileMade n 1) (content 1) := by
  unfold copies
  rw [List.range_succ, List.foldl_append]
  rfl

theorem view_copies (content : ℕ → Bytes) {n i j : ℕ} (hi : i < n) (hj : j < 2) :
    view caseless (copies caseless disk content n) (fileMade i j) = some (content j) := by
  induction n with
  | zero => omega
  | succ n ih =>
      rw [copies_succ]
      by_cases hin : i = n
      · subst hin
        obtain rfl | rfl : j = 0 ∨ j = 1 := by omega
        · have hne : found caseless (fileMade i 0) ≠ found caseless (fileMade i 1) := by
            intro h
            exact absurd (found_fileMade_injective (by decide) (by decide) h).2 (by decide)
          rw [view, writeFile_of_ne hne]
          exact view_writeFile_self _ _
        · exact view_writeFile_self _ _
      · have hne : ∀ j' < 2, found caseless (fileMade i j) ≠ found caseless (fileMade n j') :=
          fun j' hj' h => hin (found_fileMade_injective hj hj' h).1
        rw [view, writeFile_of_ne (hne 1 (by decide)), writeFile_of_ne (hne 0 (by decide))]
        exact ih (by omega)

/-- The loop writes no other files. -/
theorem copies_of_ne (content : ℕ → Bytes) {key : String}
    (h : ∀ i, ∀ j < 2, key ≠ found caseless (fileMade i j)) (n : ℕ) :
    copies caseless disk content n key = disk key := by
  induction n with
  | zero => rfl
  | succ n ih =>
      rw [copies_succ, writeFile_of_ne (h n 1 (by decide)), writeFile_of_ne (h n 0 (by decide)), ih]

/-- What is relied on of SandMark: it marks the program, and names the number in
what it prints about the marked program, and not the other number. -/
structure SandMark.Marks (S : SandMark) (raw : Bytes) (jar : ℕ → Bytes) : Prop where
  embedded : ∀ j : ℕ, j < 2 → S.embed raw (wmOf j) = some (jar j)
  recognized : ∀ j : ℕ, j < 2 → ∃ text, S.recognize (jar j) = some text ∧ contains text (wmOf j) ∧
    ∀ j' : ℕ, j' < 2 → contains text (wmOf j') → j' = j

variable {S : SandMark} {raw : Bytes} {jar : ℕ → Bytes} {rawFile : String}

theorem watermark_eq (hS : S.Marks raw jar) (hraw : view caseless disk rawFile = some raw) {j : ℕ}
    (hj : j < 2) (outFile : String) :
    watermark S caseless disk rawFile outFile j = writeFile caseless disk outFile (jar j) := by
  unfold watermark
  rw [hraw, Option.bind_some, hS.embedded j hj]

/-- The sender's disk when the transfer starts. -/
theorem prepare_eq (hS : S.Marks raw jar) (hraw : view caseless disk rawFile = some raw)
    (hother : found caseless rawFile ≠ found caseless (fileMade 0 0)) :
    prepare S caseless disk rawFile =
      some (copies caseless (writeFile caseless (writeFile caseless disk (fileMade 0 0) (jar 0))
        (fileMade 0 1) (jar 1)) jar 256) := by
  have hne : found caseless (fileMade 0 0) ≠ found caseless (fileMade 0 1) := by
    intro h
    exact absurd (found_fileMade_injective (by decide) (by decide) h).2 (by decide)
  have hraw' : view caseless (writeFile caseless disk (fileMade 0 0) (jar 0)) rawFile = some raw :=
    (writeFile_of_ne hother).trans hraw
  have hzero : view caseless (writeFile caseless (writeFile caseless disk (fileMade 0 0) (jar 0))
      (fileMade 0 1) (jar 1)) (fileMade 0 0) = some (jar 0) :=
    (writeFile_of_ne hne).trans (view_writeFile_self _ _)
  have h0 := watermark_eq hS hraw (by decide : 0 < 2) (fileMade 0 0)
  have h1 := watermark_eq hS hraw' (by decide : 1 < 2) (fileMade 0 1)
  rw [Nat.cast_zero] at h0
  rw [Nat.cast_one] at h1
  unfold prepare
  simp only [h0, h1]
  unfold write_files
  rw [hzero, view_writeFile_self]
  rfl

/-- A file with a mark is found to have it. -/
theorem extractBit_eq (hS : S.Marks raw jar) {files : Files} {wmFile : String} {j : ℕ} (hj : j < 2)
    (hfile : files wmFile = some (jar j)) : extractBit S files wmFile = some (toString j) := by
  obtain ⟨text, htext, hcontains, honly⟩ := hS.recognized j hj
  unfold extractBit
  rw [hfile]
  show (S.recognize (jar j)).bind _ = _
  rw [htext]
  obtain rfl | rfl : j = 0 ∨ j = 1 := by omega
  · exact if_pos hcontains
  · have hzero : ¬ contains text zeroWm := fun h => absurd (honly 0 (by decide) h) (by decide)
    exact (if_neg hzero).trans (if_pos hcontains)

end Disk

/-! ## The transfer -/

section Transfer

variable {r : ℕ} {G : Type} [PrimeOrderGroup r G] {C : Charm G} {I : Input r G}

omit [PrimeOrderGroup r G] in
/-- A file that cannot be opened ends the step. -/
theorem send_encryptions9_none (T : SenderRandom r G) {s : Sender r G} {hashed : ℕ → ℕ → Bytes}
    (hhashed : s.hashedPoints = some (table hashed)) (hmissing : s.files (fileToSend 0 0) = none) :
    s.send_encryptions9 C T = none := by
  rw [Option.eq_none_iff_forall_not_mem]
  intro out hout
  unfold Sender.send_encryptions9 at hout
  obtain ⟨_, -, hout⟩ := Option.bind_eq_some_iff.mp hout
  obtain ⟨points, hpoints, hout⟩ := Option.bind_eq_some_iff.mp hout
  obtain rfl := Option.some.inj (hhashed.symm.trans hpoints)
  obtain ⟨points, hpoints, hout⟩ := Option.bind_eq_some_iff.mp hout
  rw [table_getElem? hashed (by decide)] at hpoints
  obtain rfl := Option.some.inj hpoints
  obtain ⟨rows, hrows, -⟩ := Option.bind_eq_some_iff.mp hout
  -- the first round of the outer loop, and in it the first of the inner
  have hzero : 0 ∈ List.range (table hashed).length := by
    rw [length_table]
    decide
  obtain ⟨_, hrow⟩ := Fallible.exists_of_mapM hrows hzero
  have hzero' : 0 ∈ List.range ((List.range 2).map (hashed 0)).length := by
    rw [List.length_map, List.length_range]
    decide
  obtain ⟨_, hfile⟩ := Fallible.exists_of_mapM hrow hzero'
  rw [hmissing] at hfile
  cases hfile

theorem run_stops (hC : C.Lawful) {bit : ℕ → ℕ} (hbit : ∀ i < 256, IsBit I.bitstring i (bit i))
    (hmissing : I.senderFiles (fileToSend 0 0) = none) {k : ℕ} (hk : 9 ≤ k) :
    SoftwareTransfer C I k = none := by
  induction k, hk using Nat.le_induction with
  | base =>
      have h9 : ((I.sender7 C bit).receive (.msg "OK")).send_encryptions9 C I.sender = none :=
        send_encryptions9_none I.sender rfl hmissing
      rw [SoftwareTransfer, run_eight hC hbit]
      show ((((I.sender7 C bit).receive (.msg "OK")).send_encryptions9 C I.sender).bind _) = none
      rw [h9]
      rfl
  | succ k _ ih =>
      rw [SoftwareTransfer, ih]
      rfl

omit [PrimeOrderGroup r G] in
theorem toNat_key_lt (hlow : 0 ≤ I.key) (hhigh : I.key < 2 ^ 256) : I.key.toNat < 2 ^ 256 := by
  omega

omit [PrimeOrderGroup r G] in
theorem isBit_key (hlow : 0 ≤ I.key) (hhigh : I.key < 2 ^ 256) :
    ∀ i < 256, IsBit I.bitstring i (keyBit I.key.toNat i) :=
  isBit_keyBit (Int.toNat_of_nonneg hlow).symm (toNat_key_lt hlow hhigh)

/-- Where the names are found, the transfer completes and `extractBit` reads the
bits of the key off the files. -/
theorem read_of_transfer (hC : C.Lawful) (hlow : 0 ≤ I.key) (hhigh : I.key < 2 ^ 256)
    {S : SandMark} {raw : Bytes} {jar : ℕ → Bytes} (hS : S.Marks raw jar) {disk : Files}
    {rawFile : String} (hraw : view true disk rawFile = some raw)
    (hother : found true rawFile ≠ found true (fileMade 0 0))
    (hfiles : (prepare S true disk rawFile).map (view true) = some I.senderFiles)
    (hjar : ∃ count, show_jar_classes C I.senderFiles "HelloWorld0_wm0.jar" = some count) :
    ∃ cfg, SoftwareTransfer C I 16 = some cfg ∧
      (List.range 256).mapM (fun i => extractBit S cfg.receiver.files (fileReceived i)) =
        some (row fun i => toString (keyBit I.key.toNat i)) := by
  have hbit := isBit_key hlow hhigh
  rw [prepare_eq hS hraw hother, Option.map_some, Option.some.injEq] at hfiles
  have hhas : I.HasFiles C fun _ j => jar j := by
    refine ⟨hjar, fun i hi j hj => ?_⟩
    rw [← hfiles, view, found_fileToSend hj]
    exact view_copies jar hi hj
  obtain ⟨cfg, hrun, -, -, -, hdisk⟩ := run_sixteen hC hbit hhas
  refine ⟨cfg, hrun, mapM_row fun i hi => ?_⟩
  exact extractBit_eq hS (hbit i hi).lt (hdisk i hi)

/-- **The files of a receiver carry the key.** The sender marks a program with
both numbers and makes the copies. On a file system that does not tell small
letters from capitals the transfer completes, for every key of at most 256 bits
and all random choices; `extractBit` then reads off the received files, in their
order, the bits of the key. On one that does, no transfer gets to the files. -/
theorem software_traces (hC : C.Lawful) (hlow : 0 ≤ I.key) (hhigh : I.key < 2 ^ 256)
    {caseless : Bool} {S : SandMark} {raw : Bytes} {jar : ℕ → Bytes} (hS : S.Marks raw jar)
    {disk : Files} {rawFile : String} (hraw : view caseless disk rawFile = some raw)
    (hother : found caseless rawFile ≠ found caseless (fileMade 0 0))
    (hfree : disk (fileToSend 0 0) = none)
    (hfiles : (prepare S caseless disk rawFile).map (view caseless) = some I.senderFiles)
    (hjar : ∃ count, show_jar_classes C I.senderFiles "HelloWorld0_wm0.jar" = some count) :
    (caseless = true → ∃ cfg, SoftwareTransfer C I 16 = some cfg ∧
      (List.range 256).mapM (fun i => extractBit S cfg.receiver.files (fileReceived i)) =
        some (row fun i => toString (keyBit I.key.toNat i)) ∧
      (((row (keyBit I.key.toNat)).foldl (fun sk bit => 2 * sk + bit) 0 : ℕ) : ℤ) = I.key) ∧
    (caseless = false → ∀ k, 9 ≤ k → SoftwareTransfer C I k = none) := by
  constructor
  · rintro rfl
    obtain ⟨cfg, hrun, hbits⟩ := read_of_transfer hC hlow hhigh hS hraw hother hfiles hjar
    refine ⟨cfg, hrun, hbits, ?_⟩
    rw [foldl_keyBit (toNat_key_lt hlow hhigh), Int.toNat_of_nonneg hlow]
  · rintro rfl k hk
    rw [prepare_eq hS hraw hother, Option.map_some, Option.some.injEq] at hfiles
    refine run_stops hC (isBit_key hlow hhigh) ?_ hk
    have hne : ∀ i, ∀ j < 2, found false (fileToSend 0 0) ≠ found false (fileMade i j) :=
      fun i j hj => fileToSend_ne (by decide) hj
    rw [← hfiles, view, copies_of_ne jar hne, writeFile_of_ne (hne 0 1 (by decide)),
      writeFile_of_ne (hne 0 0 (by decide))]
    exact hfree

end Transfer

/-! ## A small program -/

/-- A program is replaced by the number of its mark. -/
def smallSandMark : SandMark where
  embed := fun _ wm => some (if wm = zeroWm then [0] else [1])
  recognize := fun jar => some (if jar = [0] then "the mark is 6666666" else "the mark is 8888888")

theorem smallSandMark_marks : smallSandMark.Marks [7] fun j => [UInt8.ofNat j] where
  embedded := by
    intro j hj
    obtain rfl | rfl : j = 0 ∨ j = 1 := by omega
    · rfl
    · rfl
  recognized := by
    intro j hj
    obtain rfl | rfl : j = 0 ∨ j = 1 := by omega
    · refine ⟨"the mark is 6666666", rfl, by decide, fun j' hj' hcontains => ?_⟩
      obtain rfl | rfl : j' = 0 ∨ j' = 1 := by omega
      · rfl
      · exact absurd hcontains (by decide)
    · refine ⟨"the mark is 8888888", rfl, by decide, fun j' hj' hcontains => ?_⟩
      obtain rfl | rfl : j' = 0 ∨ j' = 1 := by omega
      · exact absurd hcontains (by decide)
      · rfl

/-- The program, and the file that the transfer lists. -/
def smallDisk (caseless : Bool) : Files := fun name =>
  if name = found caseless "HelloWorld0.jar" ∨ name = found caseless "HelloWorld0_wm0.jar" then
    some [7]
  else none

def smallFiles (caseless : Bool) : Files :=
  view caseless (copies caseless (writeFile caseless (writeFile caseless (smallDisk caseless)
    (fileMade 0 0) [0]) (fileMade 0 1) [1]) (fun j => [UInt8.ofNat j]) 256)

def smallTraces (caseless : Bool) : Input 3 (Multiplicative (ZMod 3)) :=
  { smallInput with senderFiles := smallFiles caseless }

theorem found_ne_fileMade {caseless : Bool} {name : String} {i j : ℕ} (hj : j < 2)
    (hname : name.toList.head? = some 'H') :
    found caseless name ≠ found caseless (fileMade i j) := by
  intro h
  have hlist : (found caseless name).toList.head? =
      (found caseless (fileMade i j)).toList.head? := by rw [h]
  rw [toList_found_fileMade caseless hj, toList_found, List.head?_map, hname] at hlist
  cases caseless with
  | false => exact absurd (Option.some.inj hlist) (by decide)
  | true => exact absurd (Option.some.inj hlist) (by decide)

theorem smallTraces_key (caseless : Bool) :
    0 ≤ (smallTraces caseless).key ∧ (smallTraces caseless).key < 2 ^ 256 := by
  constructor
  · exact Int.natCast_nonneg 5
  · show (5 : ℤ) < 2 ^ 256
    norm_num

theorem view_smallDisk (caseless : Bool) :
    view caseless (smallDisk caseless) "HelloWorld0.jar" = some [7] :=
  if_pos (Or.inl rfl)

theorem found_smallDisk (caseless : Bool) :
    found caseless "HelloWorld0.jar" ≠ found caseless (fileMade 0 0) :=
  found_ne_fileMade (by decide) rfl

theorem senderFiles_smallTraces (caseless : Bool) :
    (smallTraces caseless).senderFiles = smallFiles caseless := by
  dsimp only [smallTraces]

theorem prepare_smallDisk (caseless : Bool) :
    (prepare smallSandMark caseless (smallDisk caseless) "HelloWorld0.jar").map (view caseless) =
      some (smallTraces caseless).senderFiles := by
  rw [senderFiles_smallTraces,
    prepare_eq smallSandMark_marks (view_smallDisk caseless) (found_smallDisk caseless)]
  rfl

theorem jar_smallTraces (caseless : Bool) :
    ∃ count, show_jar_classes smallCharm (smallTraces caseless).senderFiles
      "HelloWorld0_wm0.jar" = some count := by
  have hne : ∀ i, ∀ j < 2, found caseless "HelloWorld0_wm0.jar" ≠ found caseless (fileMade i j) :=
    fun i j hj => found_ne_fileMade hj rfl
  have hfile : smallFiles caseless "HelloWorld0_wm0.jar" = some [7] := by
    unfold smallFiles view
    rw [copies_of_ne _ hne, writeFile_of_ne (hne 0 1 (by decide)),
      writeFile_of_ne (hne 0 0 (by decide))]
    exact if_pos (Or.inr rfl)
  unfold show_jar_classes
  rw [senderFiles_smallTraces, hfile]
  exact ⟨_, rfl⟩

/-- The key 5, on either file system. -/
theorem software_traces_small :
    (∃ cfg, SoftwareTransfer smallCharm (smallTraces true) 16 = some cfg ∧
      (List.range 256).mapM
          (fun i => extractBit smallSandMark cfg.receiver.files (fileReceived i)) =
        some (row fun i => toString (keyBit (smallTraces true).key.toNat i))) ∧
    SoftwareTransfer smallCharm (smallTraces false) 16 = none := by
  have hfree : ∀ caseless, smallDisk caseless (fileToSend 0 0) = none := by
    intro caseless
    cases caseless with
    | false => rfl
    | true => rfl
  have htraces := fun caseless => software_traces (I := smallTraces caseless) smallCharm_lawful
    (smallTraces_key caseless).1 (smallTraces_key caseless).2 smallSandMark_marks
    (view_smallDisk caseless) (found_smallDisk caseless) (hfree caseless)
    (prepare_smallDisk caseless) (jar_smallTraces caseless)
  constructor
  · obtain ⟨cfg, hrun, hbits, -⟩ := (htraces true).1 rfl
    exact ⟨cfg, hrun, hbits⟩
  · exact (htraces false).2 rfl 16 (by decide)

end Pepal.Software

import Mathlib.Data.Nat.Size
import Pepal.Images.Crypto
import Pepal.Lib.TextFile
import Pepal.Pgm.Header

/-!
# The stream of a key's digits

`memstream.c`: a stream that writes to memory, for systems without
`open_memstream`. The library for streams calls the four functions below, at
times and with pieces of its own choice; `Zr_to_bs` reads what `fclose` leaves.

The block of memory starts with 4096 zeros and is doubled when it is full. Every
call comes with the answer that `realloc` would give in it. `*ptr` points to the
block of the stream at all times: a refused `realloc` leaves the block as it is,
only `contents` is NULL from then on. Memory outside of the block and an `int`
that overflows are `undefined`, a failed assertion is an error.
-/

namespace Pepal.Images

open Pgm TextFile

/-! ## The functions -/

inductive Errno
  | ENOMEM
  | EINVAL
deriving DecidableEq, Repr

/-- `struct memstream`, with what the caller's `ptr` and `sizeloc` point to. -/
structure Memstream where
  position : ℤ
  size : ℤ
  capacity : ℤ
  /-- The block that `*ptr` points to, and `contents` too unless it is NULL. -/
  block : Bytes
  isNull : Bool
  sizeloc : ℤ
deriving DecidableEq, Repr

def assert (condition : Prop) [Decidable condition] : Run Unit :=
  if condition then pure () else throw "Assertion failed"

/-- `contents[size]` -/
def Memstream.last (ms : Memstream) : Run UInt8 :=
  if ms.isNull ∨ ms.size < 0 then undefined
  else match ms.block[ms.size.toNat]? with
    | some byte => pure byte
    | none => undefined

/-- `memcpy(contents + position, buf, count)` -/
def memcpy (block : Bytes) (position : ℤ) (buf : Bytes) : Run Bytes :=
  if 0 ≤ position ∧ position + buf.length ≤ block.length then
    pure (overwrite block position.toNat buf)
  else undefined

/-- The loop of `memstream_grow`. An `int` above 0 can be doubled at most 30
times. -/
def double (minsize : ℤ) : ℕ → ℤ → Run ℤ
  | 0, _ => undefined
  | rounds + 1, newcap =>
      if newcap ≤ minsize then do
        let newcap ← (mul newcap 2 : Option ℤ)
        double minsize rounds newcap
      else pure newcap

def memstream_grow (ms : Memstream) (minsize : ℤ) (granted : Bool) :
    Run (Except Errno Unit × Memstream) := do
  let newcap ← (mul ms.capacity 2 : Option ℤ)
  if ms.isNull then return (.error .ENOMEM, ms)
  let newcap ← double minsize 31 newcap
  if granted then
    return (.ok (), { ms with
      block := ms.block ++ List.replicate (newcap - ms.capacity).toNat 0
      capacity := newcap })
  else return (.error .ENOMEM, { ms with isNull := true })

/-- The bytes that are read come from the start of the block. -/
def memstream_read (ms : Memstream) (count : ℤ) : Run (Except Errno Bytes × Memstream) := do
  if ms.isNull then return (.error .ENOMEM, ms)
  let left ← (int (ms.size - ms.position) : Option ℤ)
  let n := min left count
  if n < 1 then return (.ok [], ms)
  if ms.block.length < n then undefined
  let position ← (add ms.position n : Option ℤ)
  return (.ok (ms.block.take n.toNat), { ms with position := position })

def Memstream.resize (ms : Memstream) : Memstream :=
  if ms.size < ms.position then { ms with size := ms.position, sizeloc := ms.position } else ms

/-- The end of a write and of a seek. -/
def Memstream.settle (ms : Memstream) (answer : ℤ) : Run (Except Errno ℤ × Memstream) := do
  let ms := ms.resize
  assert (ms.size < ms.capacity)
  let last ← ms.last
  assert (last = 0)
  return (.ok answer, ms)

/-- `memstream_write`, once there is room. -/
def memstream_store (ms : Memstream) (buf : Bytes) : Run (Except Errno ℤ × Memstream) := do
  let block ← memcpy ms.block ms.position buf
  let position ← (add ms.position buf.length : Option ℤ)
  { ms with block := block, position := position }.settle buf.length

def memstream_write (ms : Memstream) (buf : Bytes) (granted : Bool) :
    Run (Except Errno ℤ × Memstream) := do
  if ms.isNull then return (.error .ENOMEM, ms)
  let needed ← (add ms.position buf.length : Option ℤ)
  if ms.capacity ≤ needed then
    match ← memstream_grow ms needed granted with
    | (.error e, ms) => return (.error e, ms)
    | (.ok (), ms) => memstream_store ms buf
  else memstream_store ms buf

inductive Whence
  | SEEK_SET
  | SEEK_CUR
  | SEEK_END
  | other
deriving DecidableEq, Repr

/-- The `fpos_t` with this value. -/
def fpos (n : ℤ) : Option ℤ := if -2 ^ 63 ≤ n ∧ n < 2 ^ 63 then some n else none

/-- The position asked for, if `whence` is a valid one. -/
def Memstream.target (ms : Memstream) (offset : ℤ) : Whence → Option (Option ℤ)
  | .SEEK_SET => some (some offset)
  | .SEEK_CUR => (fpos (ms.position + offset)).map some
  | .SEEK_END => (fpos (ms.size + offset)).map some
  | .other => some none

/-- The conversion of an `fpos_t` to `int`. -/
def toInt (pos : ℤ) : ℤ := pos.bmod (2 ^ 32)

/-- `memstream_seek`, once there is room or no memory for it. -/
def memstream_move (ms : Memstream) (pos : ℤ) : Run (Except Errno ℤ × Memstream) :=
  { ms with position := toInt pos }.settle pos

def memstream_seek (ms : Memstream) (offset : ℤ) (whence : Whence) (granted : Bool) :
    Run (Except Errno ℤ × Memstream) := do
  if ms.isNull then return (.error .ENOMEM, ms)
  match ← (ms.target offset whence : Option (Option ℤ)) with
  | none => return (.error .EINVAL, ms)
  | some pos =>
      if ms.capacity ≤ pos then
        -- the answer is not looked at
        let (_, ms) ← memstream_grow ms (toInt pos) granted
        memstream_move ms pos
      else memstream_move ms pos

/-- The answer, and what `ptr` and `sizeloc` point to afterwards. -/
def memstream_close (ms : Memstream) : Run (Except Errno Unit × Bytes × ℤ) := do
  if ms.isNull then return (.error .ENOMEM, ms.block, ms.sizeloc)
  let size := min ms.size ms.position
  assert (size < ms.capacity)
  let block ← memcpy ms.block size [0]
  return (.ok (), block, size)

/-- `open_memstream`, when both allocations succeed. -/
def open_memstream : Memstream where
  position := 0
  size := 0
  capacity := 4096
  block := List.replicate 4096 0
  isNull := false
  sizeloc := 0

/-! ## The file that a stream holds -/

def target (f : File UInt8) (offset : ℤ) : Whence → Option ℤ
  | .SEEK_SET => some offset
  | .SEEK_CUR => some (f.position + offset)
  | .SEEK_END => some (f.text.length + offset)
  | .other => none

/-- The least power of two above the length, from 4096 on. -/
def capacityOf (length : ℕ) : ℕ := 2 ^ max 12 length.size

/-- The stream that holds a file, in a block of this size. -/
def holdingIn (f : File UInt8) (capacity : ℕ) : Memstream where
  position := f.position
  size := f.text.length
  capacity := capacity
  block := f.text ++ List.replicate (capacity - f.text.length) 0
  isNull := false
  sizeloc := f.text.length

/-- The stream that holds a file. -/
def holding (f : File UInt8) : Memstream := holdingIn f (capacityOf f.text.length)

/-- The stream that held a file when memory was refused. -/
def lost (f : File UInt8) : Memstream := { holding f with isNull := true }

/-! ## The block -/

theorem undefined_bind {α β : Type} (g : α → Run β) : (undefined >>= g : Run β) = undefined := rfl

theorem lt_capacityOf (length : ℕ) : length < capacityOf length :=
  Nat.lt_size_self length |>.trans_le (Nat.pow_le_pow_right (by decide) (le_max_right _ _))

theorem le_capacityOf (length : ℕ) : 4096 ≤ capacityOf length :=
  Nat.pow_le_pow_right (by decide : 0 < 2) (le_max_left 12 length.size)

theorem size_le {length : ℕ} (h : length < 2 ^ 30) : max 12 length.size ≤ 30 :=
  max_le (by decide) (Nat.size_le.mpr h)

theorem capacityOf_le {length : ℕ} (h : length < 2 ^ 30) : capacityOf length ≤ 2 ^ 30 :=
  Nat.pow_le_pow_right (by decide) (size_le h)

/-- A text that grows within its block keeps it. -/
theorem capacityOf_eq {length longer : ℕ} (h : length ≤ longer)
    (hroom : longer < capacityOf length) : capacityOf longer = capacityOf length := by
  have hle : longer.size ≤ max 12 length.size := Nat.size_le.mpr hroom
  have hge : length.size ≤ longer.size := Nat.size_le_size h
  unfold capacityOf
  congr 1
  omega

theorem mul_two_pow {k : ℕ} (hk : k < 30) :
    mul ((2 ^ k : ℕ) : ℤ) 2 = some ((2 ^ (k + 1) : ℕ) : ℤ) := by
  have hpow : 2 ^ k * 2 < 2 ^ 31 := by
    rw [← Nat.pow_succ]
    exact Nat.pow_lt_pow_right (by decide) (by omega)
  rw [Nat.pow_succ]
  exact mul_natCast hpow

theorem double_eq {minsize : ℕ} (h : minsize < 2 ^ 30) {rounds k : ℕ} (hrounds : 31 ≤ k + rounds)
    (hk : k ≤ 30) : double minsize rounds ((2 ^ k : ℕ) : ℤ) =
      pure ((2 ^ max k minsize.size : ℕ) : ℤ) := by
  have hsize : minsize.size ≤ 30 := Nat.size_le.mpr h
  induction rounds generalizing k with
  | zero => omega
  | succ rounds ih =>
      unfold double
      by_cases hle : 2 ^ k ≤ minsize
      · have hlt : k < minsize.size := Nat.lt_size.mpr hle
        rw [if_pos (by exact_mod_cast hle), mul_two_pow (by omega), liftM_some, pure_bind,
          ih (by omega) (by omega), max_eq_right hlt.le, max_eq_right (Nat.succ_le_of_lt hlt)]
      · have hge : minsize.size ≤ k := Nat.size_le.mpr (by omega)
        rw [if_neg (by exact_mod_cast hle), max_eq_left hge]

/-- From a GiB on the doubling overflows. -/
theorem double_undefined {minsize : ℕ} (h : 2 ^ 30 ≤ minsize) (rounds : ℕ) {k : ℕ} (hk : k ≤ 30) :
    double minsize rounds ((2 ^ k : ℕ) : ℤ) = undefined := by
  induction rounds generalizing k with
  | zero => rfl
  | succ rounds ih =>
      have hle : 2 ^ k ≤ minsize := (Nat.pow_le_pow_right (by decide) hk).trans h
      unfold double
      rw [if_pos (by exact_mod_cast hle)]
      rcases hk.lt_or_eq with hlt | rfl
      · rw [mul_two_pow hlt, liftM_some, pure_bind, ih hlt]
      · rfl

section Block

variable {f : File UInt8}

theorem block_grown {capacity newcap : ℕ} (h : f.text.length ≤ capacity) (hle : capacity ≤ newcap) :
    (holdingIn f capacity).block ++ List.replicate ((newcap : ℤ) - capacity).toNat 0 =
      (holdingIn f newcap).block := by
  show f.text ++ List.replicate _ 0 ++ _ = f.text ++ List.replicate _ 0
  rw [List.append_assoc, List.replicate_append_replicate]
  congr 2
  omega

theorem length_block (f : File UInt8) : (holding f).block.length = capacityOf f.text.length := by
  show (f.text ++ List.replicate _ 0).length = _
  rw [List.length_append, List.length_replicate, Nat.add_sub_of_le (lt_capacityOf _).le]

theorem capacity_le_iff {n : ℕ} : (holding f).capacity ≤ n ↔ capacityOf f.text.length ≤ n :=
  Nat.cast_le

/-- The doubling, up to the answer of `realloc`. -/
theorem memstream_grow_eq {n : ℕ} (hroom : capacityOf f.text.length ≤ n) (hn : n < 2 ^ 30)
    (granted : Bool) : memstream_grow (holding f) n granted =
      if granted then pure (.ok (), holdingIn f (capacityOf n))
      else pure (.error .ENOMEM, lost f) := by
  have hlt : max 12 f.text.length.size < 30 :=
    (Nat.pow_lt_pow_iff_right (by decide : 1 < 2)).mp (hroom.trans_lt hn)
  have hsize : max 12 f.text.length.size < n.size := Nat.lt_size.mpr hroom
  have hle : capacityOf f.text.length ≤ capacityOf n :=
    Nat.pow_le_pow_right (by decide) (by omega)
  have hmul : mul (capacityOf f.text.length : ℕ) 2 = _ := mul_two_pow hlt
  have hdouble : double n 31 ((2 ^ (max 12 f.text.length.size + 1) : ℕ) : ℤ) =
      pure ((capacityOf n : ℕ) : ℤ) := by
    rw [double_eq hn (by omega) (by omega), max_eq_right hsize]
    unfold capacityOf
    rw [max_eq_right (by omega)]
  unfold memstream_grow
  show ((mul (capacityOf f.text.length : ℕ) 2 : Option ℤ) >>= _ : Run _) = _
  rw [hmul, liftM_some, pure_bind]
  show (double n 31 _ >>= _ : Run _) = _
  rw [hdouble, pure_bind]
  cases granted with
  | false => rfl
  | true =>
      show pure (Except.ok (), ({ holding f with
        block := (holdingIn f (capacityOf f.text.length)).block ++ List.replicate
          ((capacityOf n : ℤ) - (capacityOf f.text.length : ℕ)).toNat 0
        capacity := (capacityOf n : ℕ) } : Memstream)) = _
      rw [block_grown (lt_capacityOf _).le hle]
      rfl

theorem memstream_grow_undefined (hlength : f.text.length < 2 ^ 30) {n : ℕ} (hn : 2 ^ 30 ≤ n)
    (granted : Bool) : memstream_grow (holding f) n granted = undefined := by
  unfold memstream_grow
  show ((mul (capacityOf f.text.length : ℕ) 2 : Option ℤ) >>= _ : Run _) = _
  rcases (size_le hlength).lt_or_eq with hlt | heq
  · have hmul : mul (capacityOf f.text.length : ℕ) 2 = _ := mul_two_pow hlt
    rw [hmul, liftM_some, pure_bind]
    show (double n 31 _ >>= _ : Run _) = _
    rw [double_undefined hn 31 hlt, undefined_bind]
  · rw [capacityOf, heq]
    rfl

theorem resize_eq (position size : ℕ) (capacity : ℤ) (block : Bytes) (isNull : Bool) :
    Memstream.resize ⟨position, size, capacity, block, isNull, size⟩ =
      ⟨position, (max size position : ℕ), capacity, block, isNull, (max size position : ℕ)⟩ := by
  unfold Memstream.resize
  by_cases h : size < position
  · have hlt : (size : ℤ) < position := by exact_mod_cast h
    rw [if_pos hlt, max_eq_right h.le]
  · have hle : ¬(size : ℤ) < position := by exact_mod_cast h
    rw [if_neg hle, max_eq_left (by omega)]

/-- The byte behind the text. -/
theorem last_eq {capacity : ℕ} (h : f.text.length < capacity) :
    (holdingIn f capacity).last = pure 0 := by
  have hget : (holdingIn f capacity).block[f.text.length]? = some 0 := by
    show (f.text ++ List.replicate _ 0)[_]? = _
    rw [List.getElem?_append_right le_rfl, Nat.sub_self, List.getElem?_replicate,
      if_pos (by omega)]
  unfold Memstream.last
  rw [if_neg (by
    show ¬(false = true ∨ (f.text.length : ℤ) < 0)
    simp)]
  show (match (holdingIn f capacity).block[(f.text.length : ℤ).toNat]? with
    | some byte => pure byte
    | none => undefined : Run UInt8) = _
  rw [Int.toNat_natCast, hget]

theorem memcpy_eq {capacity : ℕ} {buf : Bytes} (h : f.position + buf.length ≤ capacity)
    (hlength : f.text.length ≤ capacity) :
    memcpy (holdingIn f capacity).block f.position buf =
      pure (holdingIn (f.write buf) capacity).block := by
  have hroom : f.text.length + (capacity - f.text.length) = capacity :=
    Nat.add_sub_of_le hlength
  unfold memcpy
  show (if 0 ≤ (f.position : ℤ) ∧ (f.position : ℤ) + buf.length ≤
      ((f.text ++ List.replicate (capacity - f.text.length) 0).length : ℕ) then _ else _) = _
  rw [List.length_append, List.length_replicate, hroom,
    if_pos ⟨Int.natCast_nonneg _, by exact_mod_cast h⟩, Int.toNat_natCast]
  show pure (overwrite (f.text ++ List.replicate (capacity - f.text.length) 0) f.position buf) = _
  rw [overwrite_padded f.within buf 0 (by rw [hroom]; exact h), hroom]
  rfl

theorem assert_size {capacity : ℕ} (h : f.text.length < capacity) :
    assert ((holdingIn f capacity).size < (holdingIn f capacity).capacity) = pure () := by
  have hlt : (f.text.length : ℤ) < capacity := by exact_mod_cast h
  exact if_pos hlt

/-- The end of a write or a seek: the assertions hold. -/
theorem settle_eq {capacity length : ℕ} (h : f.text.length < capacity)
    (hlength : f.text.length = max length f.position) (answer : ℤ) :
    Memstream.settle ⟨f.position, length, capacity, (holdingIn f capacity).block, false, length⟩
      answer = pure (.ok answer, holdingIn f capacity) := by
  have hresize : Memstream.resize
      ⟨f.position, length, capacity, (holdingIn f capacity).block, false, length⟩ =
        holdingIn f capacity := by
    rw [resize_eq, ← hlength]
    rfl
  unfold Memstream.settle
  simp only [hresize]
  rw [assert_size h, pure_bind, last_eq h, pure_bind]
  exact pure_bind _ _

theorem settle_fails (ms : Memstream) (h : ¬ms.resize.size < ms.resize.capacity) (answer : ℤ) :
    ms.settle answer = throw "Assertion failed" := by
  unfold Memstream.settle assert
  simp only [if_neg h]
  rfl

theorem memstream_store_eq {capacity : ℕ} {buf : Bytes}
    (h : f.position + buf.length < capacity) (hlength : f.text.length < capacity)
    (hcapacity : capacity ≤ 2 ^ 30) : memstream_store (holdingIn f capacity) buf =
      pure (.ok buf.length, holdingIn (f.write buf) capacity) := by
  have hadd : add (holdingIn f capacity).position buf.length =
      some ((f.position + buf.length : ℕ) : ℤ) := add_natCast (by omega)
  have hlt : (f.write buf).text.length < capacity := by
    rw [File.length_write]
    exact max_lt hlength h
  unfold memstream_store
  show (memcpy (holdingIn f capacity).block f.position buf >>= _) = _
  rw [memcpy_eq h.le hlength.le, pure_bind, hadd, liftM_some, pure_bind]
  exact settle_eq hlt (f.length_write buf) _

theorem toInt_eq {n : ℕ} (h : n < 2 ^ 30) : toInt n = n := by
  unfold toInt
  rw [Int.bmod_eq_of_le (by omega) (by omega)]

theorem block_seek {capacity pos : ℕ} (h : pos < capacity) (hlength : f.text.length < capacity) :
    (holdingIn (f.seek 0 pos) capacity).block = (holdingIn f capacity).block := by
  show f.text ++ List.replicate _ 0 ++ List.replicate (capacity - (f.seek 0 pos).text.length) 0 =
    f.text ++ List.replicate _ 0
  rw [List.append_assoc, List.replicate_append_replicate, File.length_seek]
  congr 2
  omega

theorem memstream_move_eq {capacity pos : ℕ} (h : pos < capacity)
    (hlength : f.text.length < capacity) (hcapacity : capacity ≤ 2 ^ 30) :
    memstream_move (holdingIn f capacity) pos =
      pure (.ok (pos : ℤ), holdingIn (f.seek 0 pos) capacity) := by
  have hlt : (f.seek 0 pos).text.length < capacity := by
    rw [File.length_seek]
    exact max_lt hlength h
  unfold memstream_move
  rw [toInt_eq (by omega)]
  show Memstream.settle ⟨(pos : ℕ), f.text.length, capacity, (holdingIn f capacity).block, false,
    f.text.length⟩ _ = _
  rw [← block_seek h hlength]
  exact settle_eq hlt (f.length_seek 0 pos) _

end Block

/-! ## One call -/

section Calls

variable {f : File UInt8} (hlength : f.text.length < 2 ^ 30)

include hlength

theorem memstream_read_eq (count : ℤ) :
    memstream_read (holding f) count =
      pure (.ok (f.text.take (f.read count.toNat).1.length),
        holding (f.read count.toNat).2) := by
  have hwithin := f.within
  have hcap := lt_capacityOf f.text.length
  have hleft : int ((holding f).size - (holding f).position) =
      some ((f.text.length - f.position : ℕ) : ℤ) := by
    rw [← int_natCast (by omega : f.text.length - f.position < 2 ^ 31), Nat.cast_sub hwithin]
    rfl
  have hcount : (f.read count.toNat).1.length = min count.toNat (f.text.length - f.position) := by
    show ((f.text.drop f.position).take count.toNat).length = _
    rw [List.length_take, List.length_drop]
  unfold memstream_read
  rw [hcount]
  show ((int ((holding f).size - (holding f).position) : Option ℤ) >>= _ : Run _) = _
  rw [hleft, liftM_some, pure_bind]
  by_cases hn : min ((f.text.length - f.position : ℕ) : ℤ) count < 1
  · -- nothing is left, or nothing asked for
    have hzero : min count.toNat (f.text.length - f.position) = 0 := by omega
    have hfile : (f.read count.toNat).2 = f := by
      refine File.ext ?_ rfl
      show f.position + min count.toNat (f.text.length - f.position) = f.position
      rw [hzero, Nat.add_zero]
    simp only [if_pos hn]
    rw [hzero, hfile, List.take_zero]
  · have hnat : min ((f.text.length - f.position : ℕ) : ℤ) count =
        (min count.toNat (f.text.length - f.position) : ℕ) := by omega
    have hroom : ¬(((holding f).block.length : ℕ) : ℤ) <
        (min count.toNat (f.text.length - f.position) : ℕ) := by
      rw [length_block]
      omega
    have hadd : add (holding f).position (min count.toNat (f.text.length - f.position) : ℕ) =
        some ((f.position + min count.toNat (f.text.length - f.position) : ℕ) : ℤ) :=
      add_natCast (by omega)
    have htake : (holding f).block.take (min count.toNat (f.text.length - f.position)) =
        f.text.take (min count.toNat (f.text.length - f.position)) :=
      List.take_append_of_le_length (by omega)
    simp only [if_neg hn]
    simp only [hnat, if_neg hroom, hadd, liftM_some, pure_bind, Int.toNat_natCast, htake]
    rfl

theorem memstream_write_eq {buf : Bytes} (hn : f.position + buf.length < 2 ^ 30) {granted : Bool}
    (hserved : granted = true ∨ f.position + buf.length < capacityOf f.text.length) :
    memstream_write (holding f) buf granted =
      pure (.ok (buf.length : ℤ), holding (f.write buf)) := by
  have hadd : add (holding f).position buf.length =
      some ((f.position + buf.length : ℕ) : ℤ) := add_natCast (by omega)
  have hlt := lt_capacityOf f.text.length
  unfold memstream_write
  show ((add (holding f).position buf.length : Option ℤ) >>= _ : Run _) = _
  rw [hadd, liftM_some, pure_bind]
  by_cases hroom : capacityOf f.text.length ≤ f.position + buf.length
  · have hgranted : granted = true := hserved.resolve_right (by omega)
    have hlen : (f.write buf).text.length = f.position + buf.length := by
      rw [File.length_write]
      omega
    have hcap := lt_capacityOf (f.position + buf.length)
    rw [if_pos (capacity_le_iff.mpr hroom), memstream_grow_eq hroom hn, hgranted, if_pos rfl,
      pure_bind]
    show memstream_store (holdingIn f (capacityOf (f.position + buf.length))) buf = _
    rw [memstream_store_eq hcap (by omega) (capacityOf_le hn), ← hlen]
    rfl
  · have hsame : capacityOf (f.write buf).text.length = capacityOf f.text.length := by
      refine capacityOf_eq ?_ ?_
      · rw [File.length_write]
        exact le_max_left _ _
      · rw [File.length_write]
        omega
    rw [if_neg (mt capacity_le_iff.mp hroom)]
    show memstream_store (holdingIn f (capacityOf f.text.length)) buf = _
    rw [memstream_store_eq (by omega) hlt (capacityOf_le hlength), ← hsame]
    rfl

/-- A write that would make a GiB. -/
theorem memstream_write_undefined {buf : Bytes} (hn : 2 ^ 30 ≤ f.position + buf.length)
    (granted : Bool) : memstream_write (holding f) buf granted = undefined := by
  unfold memstream_write
  show ((add (holding f).position buf.length : Option ℤ) >>= _ : Run _) = _
  by_cases hadd : f.position + buf.length < 2 ^ 31
  · have hcap : capacityOf f.text.length ≤ f.position + buf.length :=
      (capacityOf_le hlength).trans hn
    have heq : add (holding f).position buf.length =
        some ((f.position + buf.length : ℕ) : ℤ) := add_natCast hadd
    rw [heq, liftM_some, pure_bind, if_pos (capacity_le_iff.mpr hcap),
      memstream_grow_undefined hlength hn, undefined_bind]
  · have hlarge : ¬(-2 ^ 31 ≤ (holding f).position + (buf.length : ℤ) ∧
        (holding f).position + (buf.length : ℤ) < 2 ^ 31) := by
      show ¬(_ ∧ (f.position : ℤ) + (buf.length : ℤ) < 2 ^ 31)
      omega
    unfold add int
    rw [if_neg hlarge]
    rfl

omit hlength in
/-- A write that needs memory and gets none. -/
theorem memstream_write_refused {buf : Bytes} (hn : f.position + buf.length < 2 ^ 30)
    (hroom : capacityOf f.text.length ≤ f.position + buf.length) :
    memstream_write (holding f) buf false = pure (.error .ENOMEM, lost f) := by
  have hadd : add (holding f).position buf.length =
      some ((f.position + buf.length : ℕ) : ℤ) := add_natCast (by omega)
  unfold memstream_write
  show ((add (holding f).position buf.length : Option ℤ) >>= _ : Run _) = _
  rw [hadd, liftM_some, pure_bind, if_pos (capacity_le_iff.mpr hroom), memstream_grow_eq hroom hn]
  rfl

omit hlength in
theorem target_holding {offset : ℤ} {whence : Whence} {pos : ℕ}
    (htarget : target f offset whence = some (pos : ℤ)) (hn : pos < 2 ^ 30) :
    (holding f).target offset whence = some (some (pos : ℤ)) := by
  have hfpos : fpos (pos : ℤ) = some (pos : ℤ) := if_pos (by omega)
  cases whence with
  | SEEK_SET => exact congrArg some htarget
  | SEEK_CUR =>
      have heq : (holding f).position + offset = pos := Option.some.inj htarget
      show (fpos ((holding f).position + offset)).map some = _
      rw [heq, hfpos]
      rfl
  | SEEK_END =>
      have heq : (holding f).size + offset = pos := Option.some.inj htarget
      show (fpos ((holding f).size + offset)).map some = _
      rw [heq, hfpos]
      rfl
  | other => cases htarget

theorem memstream_seek_eq {offset : ℤ} {whence : Whence} {pos : ℕ}
    (htarget : target f offset whence = some (pos : ℤ)) (hn : pos < 2 ^ 30) {granted : Bool}
    (hserved : granted = true ∨ pos < capacityOf f.text.length) :
    memstream_seek (holding f) offset whence granted =
      pure (.ok (pos : ℤ), holding (f.seek 0 pos)) := by
  have hlt := lt_capacityOf f.text.length
  unfold memstream_seek
  show (((holding f).target offset whence : Option (Option ℤ)) >>= _ : Run _) = _
  rw [target_holding htarget hn, liftM_some, pure_bind]
  by_cases hroom : capacityOf f.text.length ≤ pos
  · have hgranted : granted = true := hserved.resolve_right (by omega)
    have hlen : (f.seek 0 pos).text.length = pos := by
      rw [File.length_seek]
      omega
    have hcap := lt_capacityOf pos
    show (if (holding f).capacity ≤ (pos : ℤ) then _ else _) = _
    rw [if_pos (capacity_le_iff.mpr hroom), toInt_eq hn, memstream_grow_eq hroom hn, hgranted,
      if_pos rfl, pure_bind]
    show memstream_move (holdingIn f (capacityOf pos)) pos = _
    rw [memstream_move_eq hcap (by omega) (capacityOf_le hn), holding, hlen]
  · have hsame : capacityOf (f.seek 0 pos).text.length = capacityOf f.text.length := by
      refine capacityOf_eq ?_ ?_
      · rw [File.length_seek]
        exact le_max_left _ _
      · rw [File.length_seek]
        omega
    show (if (holding f).capacity ≤ (pos : ℤ) then _ else _) = _
    rw [if_neg (mt capacity_le_iff.mp hroom)]
    show memstream_move (holdingIn f (capacityOf f.text.length)) pos = _
    rw [memstream_move_eq (by omega) hlt (capacityOf_le hlength), holding, hsame]

omit hlength in
/-- A seek that needs memory and gets none does not look at the answer. -/
theorem memstream_seek_refused {offset : ℤ} {whence : Whence} {pos : ℕ}
    (htarget : target f offset whence = some (pos : ℤ)) (hn : pos < 2 ^ 30)
    (hroom : capacityOf f.text.length ≤ pos) :
    memstream_seek (holding f) offset whence false = throw "Assertion failed" := by
  have hlt := lt_capacityOf f.text.length
  have hassert : ¬((pos : ℕ) : ℤ) < (capacityOf f.text.length : ℕ) := by omega
  unfold memstream_seek
  show (((holding f).target offset whence : Option (Option ℤ)) >>= _ : Run _) = _
  rw [target_holding htarget hn, liftM_some, pure_bind]
  show (if (holding f).capacity ≤ (pos : ℤ) then _ else _) = _
  rw [if_pos (capacity_le_iff.mpr hroom), toInt_eq hn, memstream_grow_eq hroom hn,
    if_neg Bool.false_ne_true, pure_bind]
  refine settle_fails ⟨toInt pos, f.text.length, capacityOf f.text.length, (lost f).block, true,
    f.text.length⟩ ?_ pos
  rw [toInt_eq hn, resize_eq, max_eq_right (hlt.le.trans hroom)]
  exact hassert

end Calls

/-- `ptr` and `size` are those of a text with a null byte behind it. -/
structure Delivers (ptr : Bytes) (size : ℤ) (text : Bytes) : Prop where
  length : size = text.length
  start : ptr.take text.length = text
  null : ptr[text.length]? = some 0

theorem delivers_block (f : File UInt8) : Delivers (holding f).block f.text.length f.text where
  length := rfl
  start := List.take_left' rfl
  null := by
    have hlt := lt_capacityOf f.text.length
    show (f.text ++ List.replicate _ 0)[_]? = _
    rw [List.getElem?_append_right le_rfl, Nat.sub_self, List.getElem?_replicate,
      if_pos (by omega)]

theorem memstream_close_eq (f : File UInt8) :
    ∃ ptr, memstream_close (holding f) = pure (.ok (), ptr, (f.close.length : ℤ)) ∧
      Delivers ptr f.close.length f.close := by
  have hwithin := f.within
  have hlt := lt_capacityOf f.text.length
  have hclose : f.close.length = f.position := by
    show (f.text.take f.position).length = _
    rw [List.length_take, Nat.min_eq_left hwithin]
  have hmin : min (holding f).size (holding f).position = (f.position : ℕ) := by
    show min ((f.text.length : ℕ) : ℤ) (f.position : ℕ) = _
    omega
  have hassert : assert (((f.position : ℕ) : ℤ) < (holding f).capacity) = pure () := by
    refine if_pos ?_
    show ((f.position : ℕ) : ℤ) < (capacityOf f.text.length : ℕ)
    omega
  have hcopy : memcpy (holding f).block ((f.position : ℕ) : ℤ) [0] =
      pure (overwrite (holding f).block f.position [0]) := by
    refine if_pos ⟨Int.natCast_nonneg _, ?_⟩
    rw [length_block, List.length_singleton]
    omega
  have hposition : f.position ≤ (holding f).block.length := by
    rw [length_block]
    omega
  refine ⟨overwrite (holding f).block f.position [0], ?_, ⟨rfl, ?_, ?_⟩⟩
  · unfold memstream_close
    show (assert (min (holding f).size (holding f).position < _) >>= fun _ =>
      memcpy (holding f).block (min (holding f).size (holding f).position) [0] >>= _) = _
    simp only [hmin, hclose]
    rw [hassert, pure_bind, hcopy, pure_bind]
  · rw [hclose, take_of_overwrite hposition]
    exact List.take_append_of_le_length hwithin
  · rw [hclose, getElem?_overwrite hposition (List.cons_ne_nil _ _)]
    rfl

end Pepal.Images

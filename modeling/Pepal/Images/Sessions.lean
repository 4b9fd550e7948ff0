import Pepal.Images.Memstream
import Pepal.Lib.Runs

/-!
# Sessions with the stream

The library for streams opens a stream, calls its functions in some order, with
`realloc` granting memory or not, and closes it. Beside every session stands what
it does to a file. A stream that gets its memory holds the text of the file after
every call; one that does not keeps the text for the caller.
-/

namespace Pepal.Images

open Pgm TextFile

/-! ## Runs -/

inductive Call
  | read (count : ℤ)
  | write (buf : Bytes)
  | seek (offset : ℤ) (whence : Whence)
deriving DecidableEq, Repr

inductive Reply
  | data (buf : Bytes)
  | value (n : ℤ)
  | failed (e : Errno)
deriving DecidableEq, Repr

def Reply.ofData : Except Errno Bytes → Reply
  | .ok buf => .data buf
  | .error e => .failed e

def Reply.ofValue : Except Errno ℤ → Reply
  | .ok n => .value n
  | .error e => .failed e

def Call.answer (ms : Memstream) (granted : Bool) : Call → Run (Reply × Memstream)
  | .read count => (fun x => (Reply.ofData x.1, x.2)) <$> memstream_read ms count
  | .write buf => (fun x => (Reply.ofValue x.1, x.2)) <$> memstream_write ms buf granted
  | .seek offset whence =>
      (fun x => (Reply.ofValue x.1, x.2)) <$> memstream_seek ms offset whence granted

/-- The answers to all calls, each with what `realloc` would answer in it. -/
def replyAll : Memstream → List (Call × Bool) → Run (List Reply × Memstream)
  | ms, [] => pure ([], ms)
  | ms, (call, granted) :: calls => do
      let (reply, ms) ← call.answer ms granted
      let (replies, ms) ← replyAll ms calls
      return (reply :: replies, ms)

/-- From `open_memstream` to `fclose`. -/
def session (calls : List (Call × Bool)) :
    Run (List Reply × Except Errno Unit × Bytes × ℤ) := do
  let (replies, ms) ← replyAll open_memstream calls
  let closed ← memstream_close ms
  return (replies, closed)

/-! ## The file that is meant -/

/-- The file after a call, and its answer. -/
def Call.onFile (f : File UInt8) : Call → Reply × File UInt8
  | .read count => (.data (f.read count.toNat).1, (f.read count.toNat).2)
  | .write buf => (.value buf.length, f.write buf)
  | .seek offset whence =>
      match target f offset whence with
      | some pos => (.value pos, f.seek 0 pos.toNat)
      | none => (.failed .EINVAL, f)

/-- The position that a call moves to, before which there has to be room. -/
def Call.needed (f : File UInt8) : Call → ℤ
  | .read _ => f.position
  | .write buf => f.position + buf.length
  | .seek offset whence => (target f offset whence).getD f.position

/-- The stream holds less than a GiB. -/
def Fits (f : File UInt8) (call : Call) : Prop := 0 ≤ call.needed f ∧ call.needed f < 2 ^ 30

/-- The call needs no more memory than there is, or gets it. -/
def Served (f : File UInt8) (call : Call × Bool) : Prop :=
  call.2 = true ∨ call.1.needed f < capacityOf f.text.length

/-- The file after a call. -/
def fileNext (f : File UInt8) (call : Call × Bool) : File UInt8 := (call.1.onFile f).2

/-- The answers to all calls. -/
def replies (reply : File UInt8 → Call → Reply) : File UInt8 → List (Call × Bool) → List Reply
  | _, [] => []
  | f, call :: calls => reply f call.1 :: replies reply (fileNext f call) calls

/-- The answer of the stream, which reads from the start of the text. -/
def streamReply (f : File UInt8) : Call → Reply
  | .read count => .data (f.text.take (f.read count.toNat).1.length)
  | call => (call.onFile f).1

theorem open_eq : open_memstream = holding File.empty := rfl

/-! ## All calls -/

theorem exists_pos {f : File UInt8} {offset : ℤ} {whence : Whence} {pos : ℤ}
    (htarget : target f offset whence = some pos) (hfits : Fits f (.seek offset whence)) :
    ∃ n : ℕ, pos = n ∧ n < 2 ^ 30 ∧ (Call.seek offset whence).needed f = n := by
  have hneeded : (Call.seek offset whence).needed f = pos := by
    show (target f offset whence).getD f.position = pos
    rw [htarget]
    rfl
  obtain ⟨hpos, hlt⟩ := hfits
  rw [hneeded] at hpos hlt
  exact ⟨pos.toNat, by omega, by omega, by omega⟩

/-- **One call, on the stream and on the file.** -/
theorem answer_eq {f : File UInt8} (hlength : f.text.length < 2 ^ 30) {call : Call}
    {granted : Bool} (hfits : Fits f call) (hserved : Served f (call, granted)) :
    call.answer (holding f) granted = pure (streamReply f call, holding (call.onFile f).2) := by
  cases call with
  | read count =>
      show _ <$> memstream_read (holding f) count = _
      rw [memstream_read_eq hlength, map_pure]
      rfl
  | write buf =>
      have hn : (f.position : ℤ) + buf.length < 2 ^ 30 := hfits.2
      have hserved' : granted = true ∨ f.position + buf.length < capacityOf f.text.length :=
        hserved.imp_right Int.ofNat_lt.mp
      show _ <$> memstream_write (holding f) buf granted = _
      rw [memstream_write_eq hlength (by omega) hserved', map_pure]
      rfl
  | seek offset whence =>
      show _ <$> memstream_seek (holding f) offset whence granted = _
      cases htarget : target f offset whence with
      | none =>
          cases whence with
          | other => rfl
          | SEEK_SET => cases htarget
          | SEEK_CUR => cases htarget
          | SEEK_END => cases htarget
      | some pos =>
          obtain ⟨n, rfl, hn, hneeded⟩ := exists_pos htarget hfits
          have hserved' : granted = true ∨ n < capacityOf f.text.length := by
            unfold Served at hserved
            rw [hneeded] at hserved
            exact_mod_cast hserved
          have hreply : (Call.seek offset whence).onFile f = (.value n, f.seek 0 n) := by
            unfold Call.onFile
            simp only [htarget, Int.toNat_natCast]
          rw [memstream_seek_eq hlength htarget hn hserved', map_pure]
          show _ = pure (((Call.seek offset whence).onFile f).1, _)
          rw [hreply]
          rfl

theorem length_fileNext {f : File UInt8} (hlength : f.text.length < 2 ^ 30) {call : Call × Bool}
    (hfits : Fits f call.1) : (fileNext f call).text.length < 2 ^ 30 := by
  obtain ⟨call, granted⟩ := call
  cases call with
  | read count => exact hlength
  | write buf =>
      have hn : (f.position : ℤ) + buf.length < 2 ^ 30 := hfits.2
      show (f.write buf).text.length < 2 ^ 30
      rw [File.length_write]
      omega
  | seek offset whence =>
      unfold fileNext Call.onFile
      cases htarget : target f offset whence with
      | none =>
          simp only [htarget]
          exact hlength
      | some pos =>
          obtain ⟨n, rfl, hn, -⟩ := exists_pos htarget hfits
          simp only [htarget, Int.toNat_natCast]
          rw [File.length_seek]
          exact max_lt hlength hn

theorem length_run {f : File UInt8} (hlength : f.text.length < 2 ^ 30)
    {calls : List (Call × Bool)}
    (h : Runs.Along fileNext (fun f call => Fits f call.1) f calls) :
    (Runs.run fileNext f calls).text.length < 2 ^ 30 :=
  Runs.invariant_of_along (fun f : File UInt8 => f.text.length < 2 ^ 30)
    (fun _ _ hfits hlength => length_fileNext hlength hfits) hlength h

theorem replyAll_eq {f : File UInt8} (hlength : f.text.length < 2 ^ 30)
    {calls : List (Call × Bool)}
    (h : Runs.Along fileNext (fun f call => Fits f call.1 ∧ Served f call) f calls) :
    replyAll (holding f) calls =
      pure (replies streamReply f calls, holding (Runs.run fileNext f calls)) := by
  induction calls generalizing f with
  | nil => rfl
  | cons call calls ih =>
      obtain ⟨⟨hfits, hserved⟩, h⟩ := h
      unfold replyAll
      rw [answer_eq hlength hfits hserved, pure_bind]
      show (replyAll (holding (fileNext f call)) calls >>= _) = _
      rw [ih (length_fileNext hlength hfits) h, pure_bind]
      rfl

/-! ## The stream as a file -/

/-- What stands at the position is what stands at the start, as far as the call
reads it. -/
def ReadsStart (f : File UInt8) (call : Call × Bool) : Prop :=
  match call.1 with
  | .read count => f.text.take (f.read count.toNat).1.length = (f.read count.toNat).1
  | _ => True

theorem streamReply_iff {f : File UInt8} {call : Call × Bool} :
    streamReply f call.1 = (call.1.onFile f).1 ↔ ReadsStart f call := by
  obtain ⟨call, granted⟩ := call
  cases call with
  | read count => exact ⟨fun h => Reply.data.inj h, fun h => congrArg Reply.data h⟩
  | write buf => exact ⟨fun _ => trivial, fun _ => rfl⟩
  | seek offset whence => exact ⟨fun _ => trivial, fun _ => rfl⟩

theorem replies_iff {f : File UInt8} {calls : List (Call × Bool)} :
    replies streamReply f calls = replies (fun f call => (call.onFile f).1) f calls ↔
      Runs.Along fileNext ReadsStart f calls := by
  induction calls generalizing f with
  | nil => exact ⟨fun _ => trivial, fun _ => rfl⟩
  | cons call calls ih =>
      unfold replies
      rw [List.cons.injEq, ih, streamReply_iff]
      rfl

/-- **A stream that gets its memory is a file.** Whatever is written, read and
sought below a GiB, no assertion fails, the block holds the text of the file and
`fclose` leaves it up to the position, with a null byte behind it. The answers are
those of the file if and only if whatever is read stands at the start of the text
as well. -/
theorem session_eq_file {calls : List (Call × Bool)}
    (hfits : Runs.Along fileNext (fun f call => Fits f call.1) File.empty calls)
    (hserved : Runs.Along fileNext Served File.empty calls) :
    (∃ ptr size, session calls = pure (replies streamReply File.empty calls, .ok (), ptr, size) ∧
      Delivers ptr size (Runs.run fileNext File.empty calls).close) ∧
      (replies streamReply File.empty calls =
          replies (fun f call => (call.onFile f).1) File.empty calls ↔
        Runs.Along fileNext ReadsStart File.empty calls) := by
  obtain ⟨ptr, hclose, hdelivers⟩ := memstream_close_eq (Runs.run fileNext File.empty calls)
  refine ⟨⟨ptr, _, ?_, hdelivers⟩, replies_iff⟩
  unfold session
  rw [open_eq, replyAll_eq (by decide) (Runs.along_and.mpr ⟨hfits, hserved⟩), pure_bind]
  show (memstream_close (holding (Runs.run fileNext File.empty calls)) >>= _) = _
  rw [hclose, pure_bind]

/-- Three bytes, of which the last two are read back, and one more. -/
def smallSession : List (Call × Bool) :=
  [(.write [1, 2, 2], false), (.seek 1 .SEEK_SET, false), (.read 2, true), (.write [9], false)]

theorem session_eq_file_small :
    (∃ ptr size, session smallSession =
        pure (replies streamReply File.empty smallSession, .ok (), ptr, size) ∧
      Delivers ptr size (Runs.run fileNext File.empty smallSession).close) ∧
      (replies streamReply File.empty smallSession =
          replies (fun f call => (call.onFile f).1) File.empty smallSession ↔
        Runs.Along fileNext ReadsStart File.empty smallSession) :=
  session_eq_file
    ⟨⟨by decide, by decide⟩, ⟨by decide, by decide⟩, ⟨by decide, by decide⟩,
      ⟨by decide, by decide⟩, trivial⟩
    ⟨Or.inr (by decide), Or.inr (by decide), Or.inl rfl, Or.inr (by decide), trivial⟩

-- the stream reads the first two bytes again
example : replies streamReply File.empty smallSession =
    [.value 3, .value 1, .data [1, 2], .value 1] := by decide

/-! ## A GiB -/

theorem replyAll_append (ms : Memstream) (calls more : List (Call × Bool)) :
    replyAll ms (calls ++ more) = (do
      let (replies, ms) ← replyAll ms calls
      let (replies', ms) ← replyAll ms more
      return (replies ++ replies', ms)) := by
  induction calls generalizing ms with
  | nil =>
      show replyAll ms more = (replyAll ms more >>= fun x => pure ([] ++ x.1, x.2))
      exact (bind_pure _).symm
  | cons call calls ih =>
      rw [List.cons_append, replyAll, replyAll]
      simp only [ih, bind_assoc, pure_bind, List.cons_append]

/-- **The stream cannot hold a GiB.** In a session that gets its memory the
behaviour is undefined from the first write on that ends at 2 ^ 30 or behind, since
the doubling of the block overflows. -/
theorem session_too_long {before after : List (Call × Bool)} {buf : Bytes} {granted : Bool}
    (hfits : Runs.Along fileNext (fun f call => Fits f call.1) File.empty before)
    (hserved : Runs.Along fileNext Served File.empty before)
    (hlong : 2 ^ 30 ≤ (Runs.run fileNext File.empty before).position + buf.length) :
    session (before ++ (.write buf, granted) :: after) = undefined := by
  have hanswers := replyAll_eq (by decide) (Runs.along_and.mpr ⟨hfits, hserved⟩)
  have hlength := length_run (f := File.empty) (by decide) hfits
  unfold session
  rw [open_eq, replyAll_append, hanswers, pure_bind]
  simp only [replyAll, Call.answer]
  rw [memstream_write_undefined hlength hlong]
  rfl

theorem session_too_long_once :
    session [(.write (List.replicate (2 ^ 30) 7), true)] = undefined := by
  refine @session_too_long [] [] (List.replicate (2 ^ 30) 7) true trivial trivial ?_
  rw [List.length_replicate]
  exact Nat.le_add_left _ _

/-! ## Memory that is refused -/

/-- Without its block the stream answers nothing any more, and keeps it for the
caller. -/
theorem replyAll_lost {ms : Memstream} (h : ms.isNull = true) (calls : List (Call × Bool)) :
    replyAll ms calls = pure (List.replicate calls.length (.failed .ENOMEM), ms) := by
  induction calls with
  | nil => rfl
  | cons call calls ih =>
      obtain ⟨call, granted⟩ := call
      have hanswer : call.answer ms granted = pure (.failed .ENOMEM, ms) := by
        cases call with
        | read count =>
            show _ <$> memstream_read ms count = _
            unfold memstream_read
            rw [if_pos h]
            rfl
        | write buf =>
            show _ <$> memstream_write ms buf granted = _
            unfold memstream_write
            rw [if_pos h]
            rfl
        | seek offset whence =>
            show _ <$> memstream_seek ms offset whence granted = _
            unfold memstream_seek
            rw [if_pos h]
            rfl
      unfold replyAll
      rw [hanswer, pure_bind]
      show (replyAll ms calls >>= _) = _
      rw [ih, pure_bind]
      rfl

/-- A call that gets no memory: a write fails, a seek ends the program. -/
theorem answer_refused {f : File UInt8} {call : Call} {granted : Bool} (hfits : Fits f call)
    (hrefused : ¬ Served f (call, granted)) :
    ((∃ buf, call = .write buf) ∧
        call.answer (holding f) granted = pure (.failed .ENOMEM, lost f)) ∨
      ((∃ offset whence, call = .seek offset whence) ∧
        call.answer (holding f) granted = throw "Assertion failed") := by
  have hgranted : granted = false := Bool.eq_false_iff.mpr fun h => hrefused (Or.inl h)
  have hroom : (capacityOf f.text.length : ℤ) ≤ call.needed f :=
    not_lt.mp fun h => hrefused (Or.inr h)
  subst hgranted
  cases call with
  | read count =>
      have hposition : (capacityOf f.text.length : ℤ) ≤ f.position := hroom
      have hlt := lt_capacityOf f.text.length
      have hwithin := f.within
      omega
  | write buf =>
      have hn : (f.position : ℤ) + buf.length < 2 ^ 30 := hfits.2
      have hroom' : (capacityOf f.text.length : ℤ) ≤ f.position + buf.length := hroom
      refine Or.inl ⟨⟨buf, rfl⟩, ?_⟩
      show _ <$> memstream_write (holding f) buf false = _
      rw [memstream_write_refused (by omega) (by omega), map_pure]
      rfl
  | seek offset whence =>
      refine Or.inr ⟨⟨offset, whence, rfl⟩, ?_⟩
      show _ <$> memstream_seek (holding f) offset whence false = _
      cases htarget : target f offset whence with
      | none =>
          have hposition : (capacityOf f.text.length : ℤ) ≤ f.position := by
            have hneeded : (Call.seek offset whence).needed f = f.position := by
              show (target f offset whence).getD f.position = _
              rw [htarget]
              rfl
            rwa [hneeded] at hroom
          have hlt := lt_capacityOf f.text.length
          have hwithin := f.within
          omega
      | some pos =>
          obtain ⟨n, rfl, hn, hneeded⟩ := exists_pos htarget hfits
          rw [hneeded] at hroom
          rw [memstream_seek_refused htarget hn (by exact_mod_cast hroom)]
          rfl

/-- The memory that a stream works without. -/
def Refused (before : List (Call × Bool)) (call : Call × Bool) : Prop :=
  Runs.Along fileNext Served File.empty before ∧
    ¬ Served (Runs.run fileNext File.empty before) call

/-- **Nothing is lost that was written before memory is refused**, and nothing is
added after. If some call of a session does not get its memory, the first one is
a write or a seek. After a write all later calls fail, `fclose` too, and the
caller has the whole text as it was before. After a seek the program ends with a
failed assertion. -/
theorem session_refused {calls : List (Call × Bool)}
    (hfits : Runs.Along fileNext (fun f call => Fits f call.1) File.empty calls)
    (hrefused : ¬ Runs.Along fileNext Served File.empty calls) :
    ∃ before call after, calls = before ++ call :: after ∧ Refused before call ∧
      ((∃ buf, call.1 = .write buf) ∧
          (∃ ptr size, session calls =
              pure (replies streamReply File.empty before ++
                List.replicate (after.length + 1) (.failed .ENOMEM), .error .ENOMEM, ptr, size) ∧
            Delivers ptr size (Runs.run fileNext File.empty before).text) ∨
        (∃ offset whence, call.1 = .seek offset whence) ∧
          session calls = throw "Assertion failed") := by
  obtain ⟨before, ⟨call, granted⟩, after, rfl, hserved, hcall⟩ := Runs.exists_first_not hrefused
  obtain ⟨hbefore, hfit, -⟩ := Runs.along_append.mp hfits
  have hanswers := replyAll_eq (by decide) (Runs.along_and.mpr ⟨hbefore, hserved⟩)
  refine ⟨before, (call, granted), after, rfl, ⟨hserved, hcall⟩, ?_⟩
  unfold session
  rw [open_eq, replyAll_append, hanswers, pure_bind]
  simp only [replyAll]
  rcases answer_refused hfit hcall with ⟨hwrite, hanswer⟩ | ⟨hseek, hanswer⟩
  · refine Or.inl ⟨hwrite, _, _, ?_, delivers_block _⟩
    rw [hanswer]
    simp only [pure_bind]
    rw [replyAll_lost rfl, pure_bind]
    rfl
  · refine Or.inr ⟨hseek, ?_⟩
    rw [hanswer]
    rfl

/-- A byte, a position at the end of the first block, and a byte too many. -/
def fullSession : List (Call × Bool) :=
  [(.write [7], false), (.seek 4095 .SEEK_SET, true), (.write [8], false)]

theorem session_refused_full :
    ∃ before call after, fullSession = before ++ call :: after ∧ Refused before call ∧
      ((∃ buf, call.1 = .write buf) ∧
          (∃ ptr size, session fullSession =
              pure (replies streamReply File.empty before ++
                List.replicate (after.length + 1) (.failed .ENOMEM), .error .ENOMEM, ptr, size) ∧
            Delivers ptr size (Runs.run fileNext File.empty before).text) ∨
        (∃ offset whence, call.1 = .seek offset whence) ∧
          session fullSession = throw "Assertion failed") := by
  refine session_refused
    ⟨⟨by decide, by decide⟩, ⟨by decide, by decide⟩, ⟨by decide, by decide⟩, trivial⟩ ?_
  rintro ⟨-, -, hgranted | hneeded, -⟩
  · cases hgranted
  · revert hneeded
    decide +kernel

/-! ## The digits of a key -/

/-- The loop of `Zr_to_bs` over what the stream has left. -/
def readBits (sk_bits : Bytes) (size : ℤ) : List ℕ :=
  (List.range (size - 1).toNat).foldl (fun res i =>
    if sk_bits.getD i 0 = 48 then res ++ [0]
    else if sk_bits.getD i 0 = 49 then res ++ [1]
    else res) []

/-- What the library for streams does with pieces of a text. -/
def writes (pieces : List (Bytes × Bool)) : List (Call × Bool) :=
  pieces.map fun piece => (.write piece.1, piece.2)

theorem run_writes (f : File UInt8) (pieces : List (Bytes × Bool)) :
    Runs.run fileNext f (writes pieces) = f.write (pieces.map Prod.fst).flatten := by
  rw [← File.writes_eq]
  unfold Runs.run writes
  rw [List.foldl_map, List.foldl_map]
  rfl

/-- Short texts need no memory but the first block. -/
theorem along_writes {f : File UInt8} {pieces : List (Bytes × Bool)}
    (h : f.position + (pieces.map Prod.fst).flatten.length < 4096) :
    Runs.Along fileNext (fun f call => Fits f call.1) f (writes pieces) ∧
      Runs.Along fileNext Served f (writes pieces) := by
  induction pieces generalizing f with
  | nil => exact ⟨trivial, trivial⟩
  | cons piece pieces ih =>
      rw [List.map_cons, List.flatten_cons, List.length_append, ← Nat.add_assoc] at h
      have hcap := le_capacityOf f.text.length
      have hneeded : (Call.write piece.1).needed f = (f.position + piece.1.length : ℕ) := rfl
      obtain ⟨hfits, hserved⟩ := ih (f := f.write piece.1) h
      refine ⟨⟨⟨?_, ?_⟩, hfits⟩, Or.inr ?_, hserved⟩
      · show 0 ≤ (Call.write piece.1).needed f
        omega
      · show (Call.write piece.1).needed f < 2 ^ 30
        omega
      · show (Call.write piece.1).needed f < _
        omega

theorem readBits_eq {r : ℕ} (sk : Zr r) {ptr : Bytes} {size : ℤ}
    (h : Delivers ptr size (bytes (Zr.dump sk))) : readBits ptr size = Zr_to_bs sk := by
  have hlength : (bytes (Zr.dump sk)).length = (Zr.dump sk).length := List.length_map _
  have hsize : (size - 1).toNat = (Zr.dump sk).length - 1 := by
    have := h.length
    omega
  unfold readBits Zr_to_bs
  rw [hsize]
  refine List.foldl_ext _ _ _ fun res i hi => ?_
  have hi' : i < (Nat.toDigits 2 sk.val).length := by
    have := List.mem_range.mp hi
    simpa [Zr.dump] using this
  have hdump : (Zr.dump sk)[i]? = some (Nat.toDigits 2 sk.val)[i] := by
    unfold Zr.dump
    rw [List.getElem?_append_left hi', List.getElem?_eq_getElem hi']
  have hbyte : ptr[i]? = some (UInt8.ofNat (Nat.toDigits 2 sk.val)[i].toNat) := by
    have hlt : i < (bytes (Zr.dump sk)).length := by
      rw [hlength]
      have := List.mem_range.mp hi
      omega
    have htake : (ptr.take (bytes (Zr.dump sk)).length)[i]? = ptr[i]? :=
      List.getElem?_take_of_lt hlt
    rw [← htake, h.start, bytes, List.getElem?_map, hdump]
    rfl
  rw [List.getD_eq_getElem?_getD, List.getD_eq_getElem?_getD, hbyte, hdump, Option.getD_some,
    Option.getD_some]
  rcases Numeral.toDigits_two_binary sk.val _ (List.getElem_mem hi') with hdigit | hdigit <;>
    rw [hdigit] <;> rfl

/-- **The bits of a key do not depend on the stream.** However the digits of a
key are cut into pieces, and whatever memory would be refused, `Zr_to_bs` has
the bits of the key, as long as the key has at most 4094 of them. -/
theorem Zr_to_bs_of_stream {r : ℕ} (sk : Zr r) {pieces : List (Bytes × Bool)}
    (hpieces : (pieces.map Prod.fst).flatten = bytes (Zr.dump sk))
    (hlength : (Zr.dump sk).length < 4096) :
    ∃ replies ptr size, session (writes pieces) = pure (replies, .ok (), ptr, size) ∧
      Delivers ptr size (bytes (Zr.dump sk)) ∧ readBits ptr size = Zr_to_bs sk := by
  have hbytes : (bytes (Zr.dump sk)).length < 4096 := by
    rwa [bytes, List.length_map]
  have hshort : (File.empty : File UInt8).position + (pieces.map Prod.fst).flatten.length <
      4096 := by
    rw [hpieces]
    exact (Nat.zero_add _).trans_lt hbytes
  obtain ⟨hfits, hserved⟩ := along_writes hshort
  obtain ⟨⟨ptr, size, hsession, hdelivers⟩, -⟩ := session_eq_file hfits hserved
  have hclose : (Runs.run fileNext File.empty (writes pieces)).close = bytes (Zr.dump sk) := by
    rw [run_writes, File.close_write, hpieces]
    rfl
  rw [hclose] at hdelivers
  exact ⟨_, ptr, size, hsession, hdelivers, readBits_eq sk hdelivers⟩

/-- The digits of 6, in pieces. -/
theorem Zr_to_bs_of_stream_six :
    ∃ replies ptr size,
      session (writes [([49], true), ([49, 48], false), ([10], false)]) =
          pure (replies, .ok (), ptr, size) ∧
        Delivers ptr size (bytes (Zr.dump (6 : Zr 7))) ∧ readBits ptr size = Zr_to_bs (6 : Zr 7) :=
  Zr_to_bs_of_stream (6 : Zr 7) (by decide +kernel) (by decide +kernel)

end Pepal.Images

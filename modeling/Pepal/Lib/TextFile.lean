import Mathlib.Data.List.Basic
import Mathlib.Tactic.Common

/-!
# A file as a text and a position in it

Writing replaces what stands at the position and goes on behind the end of the
text, moving to a position behind the end fills up with blanks. The position is
never behind the end. It does not matter into how many pieces a text is cut that
is written (`writes_eq`), nor whether the text is kept with blanks behind its
end, as long as these leave room (`overwrite_padded`).
-/

namespace TextFile

variable {α : Type}

/-- The text with other letters from the position on. -/
def overwrite (text : List α) (position : ℕ) (letters : List α) : List α :=
  text.take position ++ letters ++ text.drop (position + letters.length)

section Overwrite

variable {text : List α} {position : ℕ} (h : position ≤ text.length)

include h

theorem length_overwrite (letters : List α) :
    (overwrite text position letters).length = max text.length (position + letters.length) := by
  unfold overwrite
  rw [List.length_append, List.length_append, List.length_take, List.length_drop]
  omega

theorem take_overwrite (letters : List α) :
    (overwrite text position letters).take (position + letters.length) =
      text.take position ++ letters :=
  List.take_left' (by rw [List.length_append, List.length_take, Nat.min_eq_left h])

theorem drop_overwrite (letters : List α) :
    (overwrite text position letters).drop (position + letters.length) =
      text.drop (position + letters.length) :=
  List.drop_left' (by rw [List.length_append, List.length_take, Nat.min_eq_left h])

/-- What stands in front of the letters stays. -/
theorem take_of_overwrite (letters : List α) :
    (overwrite text position letters).take position = text.take position := by
  unfold overwrite
  rw [List.append_assoc, List.take_left' (by rw [List.length_take, Nat.min_eq_left h])]

theorem getElem?_overwrite {letters : List α} (hletters : letters ≠ []) :
    (overwrite text position letters)[position]? = letters.head? := by
  have hlength : (text.take position).length = position := by
    rw [List.length_take, Nat.min_eq_left h]
  unfold overwrite
  rw [List.append_assoc, List.getElem?_append_right (Nat.le_of_eq hlength), hlength, Nat.sub_self,
    List.getElem?_append_left (List.length_pos_iff.mpr hletters), List.head?_eq_getElem?]

/-- Letters that are written one after the other. -/
theorem overwrite_overwrite (letters more : List α) :
    overwrite (overwrite text position letters) (position + letters.length) more =
      overwrite text position (letters ++ more) := by
  have hdrop : (overwrite text position letters).drop
      (position + letters.length + more.length) =
        text.drop (position + letters.length + more.length) := by
    rw [← List.drop_drop, drop_overwrite h, List.drop_drop]
  show (overwrite text position letters).take _ ++ more ++ _ = _
  rw [take_overwrite h, hdrop]
  unfold overwrite
  rw [List.length_append, ← Nat.add_assoc, ← List.append_assoc]

/-- Letters that are written into a text with room behind its end. -/
theorem overwrite_padded (letters : List α) (blank : α) {room : ℕ}
    (hroom : position + letters.length ≤ text.length + room) :
    overwrite (text ++ List.replicate room blank) position letters =
      overwrite text position letters ++
        List.replicate (text.length + room - (overwrite text position letters).length) blank := by
  rw [length_overwrite h]
  unfold overwrite
  rw [List.take_append_of_le_length h, List.drop_append, List.drop_replicate]
  simp only [List.append_assoc]
  congr 4
  omega

end Overwrite

/-- A text and a position in it. -/
structure File (α : Type) where
  position : ℕ
  text : List α
  within : position ≤ text.length

namespace File

def empty : File α := ⟨0, [], Nat.le_refl 0⟩

/-- The letters at the position, at most so many, and the file behind them. -/
def read (f : File α) (count : ℕ) : List α × File α :=
  ((f.text.drop f.position).take count,
    { position := f.position + min count (f.text.length - f.position)
      text := f.text
      within := by
        have := f.within
        omega })

def write (f : File α) (letters : List α) : File α where
  position := f.position + letters.length
  text := overwrite f.text f.position letters
  within := by
    rw [length_overwrite f.within]
    exact Nat.le_max_right _ _

/-- Moving to a position. -/
def seek (blank : α) (f : File α) (position : ℕ) : File α where
  position := position
  text := f.text ++ List.replicate (position - f.text.length) blank
  within := by
    rw [List.length_append, List.length_replicate]
    omega

/-- What stays when the file is closed. -/
def close (f : File α) : List α := f.text.take f.position

theorem ext {f f' : File α} (hposition : f.position = f'.position) (htext : f.text = f'.text) :
    f = f' := by
  cases f
  cases f'
  cases hposition
  cases htext
  rfl

@[simp] theorem length_write (f : File α) (letters : List α) :
    (f.write letters).text.length = max f.text.length (f.position + letters.length) :=
  length_overwrite f.within letters

@[simp] theorem length_seek (blank : α) (f : File α) (position : ℕ) :
    (f.seek blank position).text.length = max f.text.length position := by
  show (f.text ++ List.replicate (position - f.text.length) blank).length = _
  rw [List.length_append, List.length_replicate]
  omega

theorem write_nil (f : File α) : f.write [] = f := by
  refine ext (Nat.add_zero _) ?_
  show f.text.take _ ++ [] ++ f.text.drop (f.position + 0) = _
  rw [List.append_nil, Nat.add_zero, List.take_append_drop]

theorem write_write (f : File α) (letters more : List α) :
    (f.write letters).write more = f.write (letters ++ more) := by
  refine ext ?_ (overwrite_overwrite f.within letters more)
  show f.position + letters.length + more.length = f.position + (letters ++ more).length
  rw [List.length_append, Nat.add_assoc]

/-- **The pieces a text is written in do not matter.** -/
theorem writes_eq (f : File α) (pieces : List (List α)) :
    pieces.foldl write f = f.write pieces.flatten := by
  induction pieces generalizing f with
  | nil => exact (write_nil f).symm
  | cons piece pieces ih =>
      show pieces.foldl write (f.write piece) = _
      rw [ih, write_write, List.flatten_cons]

/-- What is left of a file after writing. -/
theorem close_write (f : File α) (letters : List α) :
    (f.write letters).close = f.text.take f.position ++ letters :=
  take_overwrite f.within letters

end File

end TextFile

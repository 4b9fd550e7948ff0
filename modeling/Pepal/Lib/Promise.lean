import Mathlib.Tactic.Common

/-!
# Promises

A promise as it settles: with a value or with a reason, once its handlers have
done to the variables they share what they do. A handler is itself a promise,
and what it throws is a rejection. `p.then(f, g)` is `andThen p f g`: one of the
two handlers runs, and what it throws does not come to the other, but to the
handlers of the next `then`.
-/

/-- A promise over variables `σ`, rejected with an `ε` or resolved with an `α`. -/
def Promise (σ ε α : Type) : Type := σ → Except ε α × σ

namespace Promise

variable {σ ε α β : Type}

/-- A promise that no handler of this program settles. -/
def settled (outcome : Except ε α) : Promise σ ε α := fun s => (outcome, s)

def resolve (a : α) : Promise σ ε α := settled (.ok a)

def reject (e : ε) : Promise σ ε α := settled (.error e)

/-- `p.then(f, g)` -/
def andThen (p : Promise σ ε α) (f : α → Promise σ ε β) (g : ε → Promise σ ε β) :
    Promise σ ε β := fun s =>
  match p s with
  | (.ok a, s') => f a s'
  | (.error e, s') => g e s'

/-- The statements of a handler, up to the first that throws. -/
instance : Monad (Promise σ ε) where
  pure := resolve
  bind p f := p.andThen f reject

def get : Promise σ ε σ := fun s => (.ok s, s)

def set (s : σ) : Promise σ ε Unit := fun _ => (.ok (), s)

/-- `Promise.all`. Of several reasons the first in the list is kept, which need
not be the first in time. -/
def all : List (Except ε α) → Except ε (List α)
  | [] => .ok []
  | .error e :: _ => .error e
  | .ok a :: outcomes =>
      match all outcomes with
      | .ok as => .ok (a :: as)
      | .error e => .error e

/-! ## How a chain settles -/

section Chain

variable {p : Promise σ ε α} {f : α → Promise σ ε β} {g : ε → Promise σ ε β} {s s' : σ}

theorem andThen_of_ok {a : α} (h : p s = (.ok a, s')) : p.andThen f g s = f a s' := by
  rw [andThen, h]

theorem andThen_of_error {e : ε} (h : p s = (.error e, s')) : p.andThen f g s = g e s' := by
  rw [andThen, h]

theorem pure_bind (a : α) (f : α → Promise σ ε β) : (pure a >>= f) = f a := rfl

theorem bind_get (f : σ → Promise σ ε β) (s : σ) : (get >>= f) s = f s s := rfl

theorem settled_apply (outcome : Except ε α) (s : σ) : settled outcome s = (outcome, s) := rfl

end Chain

end Promise

import Mathlib.Tactic.Common

/-!
# Loops that can fail

A loop over a list whose body can fail ends with a result if and only if every
round has one. Where the results of all rounds are known, so is the list of
them (`mapM_of_some`), and where the state after every round is, so is the state
at the end (`foldlM_range`).
-/

namespace Fallible

variable {α β γ : Type}

/-- A loop none of whose rounds fails. -/
theorem mapM_of_some {l : List α} {f : α → Option β} {g : α → β}
    (h : ∀ a ∈ l, f a = some (g a)) : l.mapM f = some (l.map g) := by
  induction l with
  | nil => rfl
  | cons a l ih =>
      rw [List.mapM_cons, h a List.mem_cons_self, ih fun x hx => h x (List.mem_cons_of_mem a hx)]
      rfl

/-- In a loop that completes no round has failed. -/
theorem exists_of_mapM {l : List α} {f : α → Option β} {bs : List β}
    (h : l.mapM f = some bs) {a : α} (ha : a ∈ l) : ∃ b, f a = some b := by
  induction l generalizing bs with
  | nil => cases ha
  | cons x l ih =>
      rw [List.mapM_cons] at h
      obtain ⟨b, hb, h⟩ := Option.bind_eq_some_iff.mp h
      obtain ⟨bs', hbs', -⟩ := Option.bind_eq_some_iff.mp h
      rcases List.mem_cons.mp ha with rfl | ha
      · exact ⟨b, hb⟩
      · exact ih hbs' ha

/-- What is known of the results of one loop, of those of another. -/
theorem mapM_some_map {l : List α} {f : α → Option β} {g : α → Option γ} {φ : β → γ}
    (h : ∀ a ∈ l, ∀ b, f a = some b → g a = some (φ b)) {bs : List β} (hbs : l.mapM f = some bs) :
    l.mapM g = some (bs.map φ) := by
  induction l generalizing bs with
  | nil =>
      cases hbs
      rfl
  | cons a l ih =>
      rw [List.mapM_cons] at hbs
      obtain ⟨b, hb, hbs⟩ := Option.bind_eq_some_iff.mp hbs
      obtain ⟨bs', hbs', ⟨⟩⟩ := Option.bind_eq_some_iff.mp hbs
      rw [List.mapM_cons, h a List.mem_cons_self b hb,
        ih (fun x hx => h x (List.mem_cons_of_mem a hx)) hbs']
      rfl

/-- A loop over what another loop has made. -/
theorem mapM_map_of_some {l : List α} {g : α → β} {f : β → Option γ} {φ : α → γ}
    (h : ∀ a ∈ l, f (g a) = some (φ a)) : (l.map g).mapM f = some (l.map φ) := by
  rw [List.mapM_map]
  exact mapM_of_some h

/-- A loop whose state after `i` rounds is known. -/
theorem foldlM_range {m : Type → Type} [Monad m] [LawfulMonad m] {σ : Type} {f : σ → ℕ → m σ}
    (state : ℕ → σ) {n : ℕ} (h : ∀ i < n, f (state i) i = pure (state (i + 1))) :
    (List.range n).foldlM f (state 0) = pure (state n) := by
  induction n with
  | zero => rfl
  | succ n ih =>
      rw [List.range_succ, List.foldlM_append, ih fun i hi => h i (Nat.lt_succ_of_lt hi), pure_bind]
      show (f (state n) n >>= pure) = _
      rw [bind_pure, h n (Nat.lt_succ_self n)]

end Fallible

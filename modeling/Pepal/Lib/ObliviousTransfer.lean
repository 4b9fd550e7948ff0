import Pepal.Lib.PrimeGroup

/-!
# Diffie–Hellman oblivious transfer

The one-out-of-two transfer over a group of prime order. The sender publishes
`A = g ^ a`; a receiver with choice `c` answers with `B = A ^ c * g ^ b`; the
sender derives one key per message, `(B / A ^ j) ^ a`, and the receiver the
single key `A ^ b`. The receiver's key is the sender's key for the chosen
message (`senderKey_chosen`) and, unless `A` is trivial, not its key for any
other (`senderKey_other`). What the sender sees of the choice is blinded by a
bijection of the receiver's scalar (`blind_bijective`).

The last section is about many transfers under one `A`: the weighted product
of the answers determines the weighted sum of the choices
(`weighted_check_iff`).
-/

namespace ObliviousTransfer

open PrimeOrder

variable {r : ℕ} {G : Type*} [PrimeOrderGroup r G]

/-- The receiver's answer for choice `c` under blinding scalar `b`. -/
def blind (A g : G) (c : ℕ) (b : ZMod r) : G := A ^ c * gpow g b

/-- The sender's key for message `j`. -/
def senderKey (A : G) (a : ZMod r) (B : G) (j : ℕ) : G := gpow (B * (A ^ j)⁻¹) a

def receiverKey (A : G) (b : ZMod r) : G := gpow A b

/-! ## Key agreement -/

theorem senderKey_chosen (g : G) (a b : ZMod r) (c : ℕ) :
    senderKey (gpow g a) a (blind (gpow g a) g c b) c = receiverKey (gpow g a) b := by
  unfold senderKey blind receiverKey
  rw [mul_comm, ← mul_assoc, inv_mul_cancel, one_mul, gpow_comm]

/-- The sender's keys for two messages differ by a power of `A`. -/
theorem senderKey_mul (A : G) (a : ZMod r) (B : G) (j k : ℕ) :
    senderKey A a B j = senderKey A a B k * gpow A (((k : ZMod r) - (j : ZMod r)) * a) := by
  unfold senderKey
  rw [gpow_mul, ← mul_gpow, gpow_sub, gpow_natCast, gpow_natCast, mul_assoc,
    inv_mul_cancel_left]

/-- The sender's keys for two messages are different unless `A` is trivial. -/
theorem senderKey_ne {g : G} (hg : g ≠ 1) {a : ZMod r} (ha : a ≠ 0) (B : G) {j k : ℕ}
    (hjk : (j : ZMod r) ≠ k) :
    senderKey (gpow g a) a B j ≠ senderKey (gpow g a) a B k := by
  have := order_fact G
  rw [senderKey_mul _ a B j k]
  intro h
  rw [mul_eq_left, gpow_eq_one_iff (gpow_ne_one hg ha)] at h
  rcases mul_eq_zero.mp h with hsub | hzero
  · exact hjk (sub_eq_zero.mp hsub).symm
  · exact ha hzero

/-- When two keys of the sender for two answers are the same. -/
theorem senderKey_eq_iff {a : ZMod r} (ha : a ≠ 0) (A B B' : G) (j k : ℕ) :
    senderKey A a B j = senderKey A a B' k ↔ B * A ^ k = B' * A ^ j := by
  unfold senderKey
  rw [(gpow_left_injective ha).eq_iff, mul_inv_eq_iff_eq_mul, mul_right_comm, eq_mul_inv_iff_mul_eq]

/-- The receiver's key is none of the sender's keys for the messages it did
not choose. -/
theorem senderKey_other {g : G} (hg : g ≠ 1) {a : ZMod r} (ha : a ≠ 0) (b : ZMod r)
    {c j : ℕ} (hcj : (c : ZMod r) ≠ j) :
    receiverKey (gpow g a) b ≠ senderKey (gpow g a) a (blind (gpow g a) g c b) j := by
  rw [← senderKey_chosen g a b c]
  exact senderKey_ne hg ha _ hcj

/-- For every `A`, honest or not, each group element is the answer for each
choice under exactly one blinding scalar. -/
theorem blind_bijective {g : G} (hg : g ≠ 1) (A : G) (c : ℕ) :
    Function.Bijective (blind A g c : ZMod r → G) := by
  constructor
  · intro s t h
    exact gpow_injective hg (mul_left_cancel h)
  · intro B
    obtain ⟨e, he⟩ := exists_gpow hg ((A ^ c)⁻¹ * B)
    exact ⟨e, by rw [blind, he, mul_inv_cancel_left]⟩

/-! ## What the answers hide -/

section Hiding

/-- The scalars of a vector, zero from its end on. -/
def scalars {n : ℕ} (b : Fin n → ZMod r) (i : ℕ) : ZMod r := if h : i < n then b ⟨i, h⟩ else 0

theorem scalars_of_lt {n : ℕ} (b : Fin n → ZMod r) (i : Fin n) : scalars b i = b i := dif_pos i.isLt

/-- For every vector of elements there is one vector of scalars that answers
with it, whatever the choices and whatever the elements `A`. -/
theorem existsUnique_answers {g : G} (hg : g ≠ 1) {n : ℕ} (A : ℕ → G) (c : ℕ → ℕ) {v : List G}
    (hv : v.length = n) :
    ∃! b : Fin n → ZMod r,
      (List.range n).map (fun i => blind (A i) g (c i) (scalars b i)) = v := by
  subst hv
  have hanswers : ∀ b : Fin v.length → ZMod r,
      (List.range v.length).map (fun i => blind (A i) g (c i) (scalars b i)) = v ↔
        ∀ i : Fin v.length, blind (A i) g (c i) (b i) = v[i] := by
    intro b
    constructor
    · intro h i
      rw [← scalars_of_lt b i]
      have hget : ((List.range v.length).map fun i => blind (A i) g (c i) (scalars b i))[i]? =
          v[i]? := by rw [h]
      simpa using hget
    · intro h
      apply List.ext_getElem
      · simp
      · intro i hi hi'
        rw [List.getElem_map, List.getElem_range]
        exact (congrArg (blind (A i) g (c i)) (scalars_of_lt b ⟨i, hi'⟩)).trans (h ⟨i, hi'⟩)
  -- one scalar for each answer
  choose b hb using fun i : Fin v.length => (blind_bijective hg (A i) (c i)).surjective v[i]
  refine ⟨b, (hanswers b).mpr hb, ?_⟩
  intro b' hb'
  funext i
  apply (blind_bijective hg (A i) (c i)).injective
  rw [(hanswers b').mp hb' i, hb i]

/-- Two families over the vectors of `n` scalars take the same values equally
often: each message of `n` elements for exactly one vector. -/
structure SameFamily {α : Type*} (n : ℕ) (message : List G → α)
    (f f' : (Fin n → ZMod r) → α) : Prop where
  first : ∀ v : List G, v.length = n → ∃! b, f b = message v
  second : ∀ v : List G, v.length = n → ∃! b, f' b = message v
  multiplicity : ∀ x, Nat.card { b // f b = x } = Nat.card { b // f' b = x }

omit [PrimeOrderGroup r G] in
theorem card_fiber {α : Type*} {n : ℕ} {message : List G → α} {f : (Fin n → ZMod r) → α}
    (hmessage : ∀ b, ∃ v : List G, v.length = n ∧ f b = message v)
    (hunique : ∀ v : List G, v.length = n → ∃! b, f b = message v) (x : α)
    [Decidable (∃ v : List G, v.length = n ∧ message v = x)] :
    Nat.card { b // f b = x } = if ∃ v : List G, v.length = n ∧ message v = x then 1 else 0 := by
  split
  · rename_i h
    obtain ⟨v, hv, rfl⟩ := h
    obtain ⟨b, hb, hall⟩ := hunique v hv
    exact Nat.card_eq_one_iff_exists.mpr ⟨⟨b, hb⟩, fun b' => Subtype.ext (hall b' b'.2)⟩
  · rename_i h
    have hempty : IsEmpty { b // f b = x } := by
      constructor
      rintro ⟨b, hb⟩
      obtain ⟨v, hv, hmessage⟩ := hmessage b
      exact h ⟨v, hv, hmessage.symm.trans hb⟩
    exact Nat.card_of_isEmpty

/-- Two families that answer with blinded elements are the same. -/
theorem sameFamily_of_answers {α : Type*} {g : G} (hg : g ≠ 1) {n : ℕ} {message : List G → α}
    (hmessage : Function.Injective message) {A A' : ℕ → G} {c c' : ℕ → ℕ}
    {f f' : (Fin n → ZMod r) → α}
    (hf : ∀ b, f b = message ((List.range n).map fun i => blind (A i) g (c i) (scalars b i)))
    (hf' : ∀ b, f' b =
      message ((List.range n).map fun i => blind (A' i) g (c' i) (scalars b i))) :
    SameFamily n message f f' := by
  have hunique : ∀ {A : ℕ → G} {c : ℕ → ℕ} {f : (Fin n → ZMod r) → α},
      (∀ b, f b = message ((List.range n).map fun i => blind (A i) g (c i) (scalars b i))) →
        ∀ v : List G, v.length = n → ∃! b, f b = message v := by
    intro A c f hf v hv
    simp only [hf, hmessage.eq_iff]
    exact existsUnique_answers hg A c hv
  have hvalues : ∀ {A : ℕ → G} {c : ℕ → ℕ} {f : (Fin n → ZMod r) → α},
      (∀ b, f b = message ((List.range n).map fun i => blind (A i) g (c i) (scalars b i))) →
        ∀ b, ∃ v : List G, v.length = n ∧ f b = message v :=
    fun hf b => ⟨_, by simp, hf b⟩
  refine ⟨hunique hf, hunique hf', ?_⟩
  intro x
  classical
  rw [card_fiber (hvalues hf) (hunique hf), card_fiber (hvalues hf') (hunique hf')]

end Hiding

/-! ## Many answers under one `A` -/

/-- The weighted product of the answers: the weighted sum of the choices in the
exponent of `A`, that of the blinding scalars in the exponent of `g`. -/
theorem prod_blind (A g : G) (n : ℕ) (c : ℕ → ℕ) (b w : ℕ → ZMod r) :
    ∏ i ∈ Finset.range n, gpow (blind A g (c i) (b i)) (w i) =
      gpow A (∑ i ∈ Finset.range n, w i * (c i : ZMod r)) *
        gpow g (∑ i ∈ Finset.range n, w i * b i) := by
  rw [← prod_gpow, ← prod_gpow, ← Finset.prod_mul_distrib]
  apply Finset.prod_congr rfl
  intro i _
  rw [blind, mul_gpow, gpow_pow, ← gpow_mul, mul_comm (w i), mul_comm (w i)]

/-- The sender's test of a weighted product against two elements `Cb`, `Cs`
of the receiver's making, solved for `Cs`. -/
theorem weighted_check_iff {g : G} {a : ZMod r} (ha : a ≠ 0) (S T : ZMod r) (Cb Cs : G) :
    gpow (gpow g a) S * gpow g T = Cb * gpow Cs a ↔
      Cs = gpow g S * gpow (Cb⁻¹ * gpow g T) a⁻¹ := by
  have := order_fact G
  constructor
  · intro h
    have hCs : gpow Cs a = Cb⁻¹ * (gpow (gpow g a) S * gpow g T) := by
      rw [h, inv_mul_cancel_left]
    have hroot : gpow (gpow Cs a) a⁻¹ = Cs := by
      rw [← gpow_mul, mul_inv_cancel₀ ha, gpow_one]
    rw [← hroot, hCs, mul_left_comm, mul_gpow, gpow_comm g a S, ← gpow_mul (gpow g S),
      mul_inv_cancel₀ ha, gpow_one]
  · rintro rfl
    rw [mul_gpow, ← gpow_mul _ a⁻¹, inv_mul_cancel₀ ha, gpow_one, gpow_comm g a S,
      mul_left_comm, mul_inv_cancel_left]

end ObliviousTransfer

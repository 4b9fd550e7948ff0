import Pepal.Software.Delivery

/-!
# What the receiver sees of the point it did not choose

The sender sends the encrypted points twice: in step 5 under the keys of the
oblivious transfer, one of which the receiver can derive, and before that, in
step 3, in the clear. The receiver reads only `A` from that message, but the
points are in it, and both columns of a row are encrypted with one random
scalar. So the receiver can take the quotient of the two columns, and with the
point it recovers in step 8 the other point follows.

Hiding is stated with two runs: is there, for another point in the place of
the one not chosen, some randomness of the sender under which the receiver
sees the same?
-/

namespace Pepal.Software

open PrimeOrder

variable {r : ℕ} {G : Type} [PrimeOrderGroup r G] {C : Charm G} {I : Input r G}

/-! ## Runs that get past step 4 read bits -/

theorem mem_bin_tail {n : ℤ} {c : Char} (hc : c ∈ (bin n).drop 2) :
    c = 'b' ∨ c = '0' ∨ c = '1' := by
  unfold bin at hc
  by_cases hneg : n < 0
  · rw [if_pos hneg] at hc
    rcases List.mem_cons.mp hc with rfl | hc
    · exact Or.inl rfl
    · exact Or.inr (Numeral.toDigits_two_binary _ c hc)
  · rw [if_neg hneg] at hc
    exact Or.inr (Numeral.toDigits_two_binary _ c hc)

theorem mem_zfill {s : List Char} {width : ℕ} {c : Char} (hc : c ∈ zfill s width) :
    c = '0' ∨ c ∈ s := by
  unfold zfill at hc
  split at hc
  · rcases List.mem_cons.mp hc with rfl | hc
    · exact Or.inr List.mem_cons_self
    · rcases List.mem_append.mp hc with hc | hc
      · exact Or.inl (List.eq_of_mem_replicate hc)
      · exact Or.inr (List.mem_cons_of_mem _ hc)
  · rcases List.mem_cons.mp hc with rfl | hc
    · exact Or.inr List.mem_cons_self
    · rcases List.mem_append.mp hc with hc | hc
      · exact Or.inl (List.eq_of_mem_replicate hc)
      · exact Or.inr (List.mem_cons_of_mem _ hc)
  · rcases List.mem_append.mp hc with hc | hc
    · exact Or.inl (List.eq_of_mem_replicate hc)
    · exact Or.inr hc

omit [PrimeOrderGroup r G] in
/-- A letter of the key that `int` accepts is a bit. -/
theorem isBit_of_intOfLetter {i d : ℕ} {c : Char} (hc : I.bitstring[i]? = some c)
    (hd : intOfLetter c = some d) : ∃ bit, IsBit I.bitstring i bit := by
  have hmem : c = '0' ∨ c ∈ (bin I.key).drop 2 := mem_zfill (List.mem_of_getElem? hc)
  have hletter : c = 'b' ∨ c = '0' ∨ c = '1' := by
    rcases hmem with rfl | hmem
    · exact Or.inr (Or.inl rfl)
    · exact mem_bin_tail hmem
  rcases hletter with rfl | rfl | rfl
  · have hnone : intOfLetter 'b' = none := by decide
    rw [hnone] at hd
    cases hd
  · exact ⟨0, Or.inl ⟨hc, rfl⟩⟩
  · exact ⟨1, Or.inr ⟨hc, rfl⟩⟩

theorem run_prefix {k : ℕ} {cfg : Config r G} (hrun : SoftwareTransfer C I (k + 1) = some cfg) :
    ∃ cfg', SoftwareTransfer C I k = some cfg' := by
  obtain ⟨cfg', h, -⟩ := Option.bind_eq_some_iff.mp hrun
  exact ⟨cfg', h⟩

/-- Every row's letter is a bit once step 4 is done: a negative key leaves a
`b` among the letters, and `int` raises on it. -/
theorem isBit_of_run {cfg : Config r G} (hrun : SoftwareTransfer C I 8 = some cfg) :
    ∃ bit : ℕ → ℕ, ∀ i < 256, IsBit I.bitstring i (bit i) := by
  -- back from step 8 to step 4, where the letters are read
  obtain ⟨_, hrun⟩ := run_prefix hrun
  obtain ⟨_, hrun⟩ := run_prefix hrun
  obtain ⟨_, hrun⟩ := run_prefix hrun
  obtain ⟨cfg4, hrun⟩ := run_prefix hrun
  rw [SoftwareTransfer, run_three] at hrun
  obtain ⟨cfg3, hcfg3, hturn⟩ := Option.bind_eq_some_iff.mp hrun
  obtain rfl := Option.some.inj hcfg3
  rw [if_neg (by omega), Config.receiverTurn] at hturn
  obtain ⟨m, hm, hturn⟩ := Option.bind_eq_some_iff.mp hturn
  obtain rfl := Option.some.inj hm
  obtain ⟨out, hout, -⟩ := Option.bind_eq_some_iff.mp hturn
  have hletters := letters_of_receiver_transfer4 (R := I.receiver2.receive
    (.S3 { elgPoints := table I.elgPoint, A := row I.A })) rfl hout
  have hrow : ∀ i < 256, ∃ bit, IsBit I.bitstring i bit := by
    intro i hi
    obtain ⟨c, d, hc, hd⟩ := hletters i hi
    exact isBit_of_intOfLetter hc hd
  choose! bit hbit using hrow
  exact ⟨bit, hbit⟩

/-! ## The view -/

/-- The group elements that bear on row `i` and that the receiver holds after
step 8: the points of message `S3`, its recovered point, and the layer the
sender removed. -/
structure View (G : Type) where
  elgPoints : Option (List (List G))
  decRecLayer : Option G
  decSenderLayer : Option (List G)

def Config.view (cfg : Config r G) (i : ℕ) : View G where
  elgPoints := cfg.receiver.S3.map fun S3 => S3.elgPoints
  decRecLayer := cfg.receiver.decRecLayer.bind fun points => points[i]?
  decSenderLayer := cfg.receiver.decSenderLayer

/-- The input with the point of row `i` and column `j` replaced, and other
scalars for `ElGamalEnc2`. -/
def Input.replace (I : Input r G) (i j : ℕ) (Q : G) (randomVals : ℕ → ZR r) : Input r G :=
  { I with
    sender := { I.sender with
      groupPoints := Function.update I.sender.groupPoints i
        (Function.update (I.sender.groupPoints i) j Q)
      randomVals := randomVals } }

theorem view_run (hC : C.Lawful) {bit : ℕ → ℕ}
    (hbit : ∀ i < 256, IsBit I.bitstring i (bit i)) {cfg : Config r G}
    (hrun : SoftwareTransfer C I 8 = some cfg) {i : ℕ} (hi : i < 256) :
    cfg.view i =
      { elgPoints := some (table I.elgPoint)
        decRecLayer := some (I.sender.groupPoints i (bit i))
        decSenderLayer := some (row (I.decSenderLayer bit)) } := by
  rw [run_eight hC hbit] at hrun
  obtain rfl := Option.some.inj hrun
  unfold Config.view
  congr 1
  exact row_getElem? _ hi

/-- The scalar shared by the two columns of a row cancels in their quotient. -/
theorem elgPoint_quotient (I : Input r G) (i j k : ℕ) :
    I.elgPoint i j * (I.elgPoint i k)⁻¹ * I.sender.groupPoints i k =
      I.sender.groupPoints i j := by
  unfold Input.elgPoint
  rw [mul_inv, mul_mul_mul_comm, mul_inv_cancel, mul_one, inv_mul_cancel_right]

/-- The receiver can compute the point it did not choose. -/
def View.otherPoint (v : View G) (i c : ℕ) : Option G := do
  let elgPoints ← v.elgPoints
  return (← index2 elgPoints i (1 - c)) * (← index2 elgPoints i c)⁻¹ * (← v.decRecLayer)

theorem otherPoint_view (hC : C.Lawful) {cfg : Config r G}
    (hrun : SoftwareTransfer C I 8 = some cfg) {i c : ℕ} (hi : i < 256)
    (hc : IsBit I.bitstring i c) :
    (cfg.view i).otherPoint i c = some (I.sender.groupPoints i (1 - c)) := by
  obtain ⟨bit, hbit⟩ := isBit_of_run hrun
  have hci : bit i = c := (hbit i hi).unique hc
  rw [view_run hC hbit hrun hi, hci]
  show ((index2 (table I.elgPoint) i (1 - c)).bind fun x =>
    (index2 (table I.elgPoint) i c).bind fun y => _) = _
  rw [index2_table _ hi (by omega), index2_table _ hi hc.lt]
  exact congrArg some (elgPoint_quotient I i (1 - c) c)

/-! ## Hiding -/

omit [PrimeOrderGroup r G] in
theorem replace_self (I : Input r G) (i j : ℕ) :
    I.replace i j (I.sender.groupPoints i j) I.sender.randomVals = I := by
  unfold Input.replace
  rw [Function.update_eq_self, Function.update_eq_self]

/-- Equal views come from equal points. -/
theorem point_of_view_eq (hC : C.Lawful) {cfg cfg' : Config r G} {i c : ℕ} {Q : G}
    {randomVals : ℕ → ZR r} (hrun : SoftwareTransfer C I 8 = some cfg)
    (hrun' : SoftwareTransfer C (I.replace i (1 - c) Q randomVals) 8 = some cfg')
    (hi : i < 256) (hc : IsBit I.bitstring i c) (hview : cfg'.view i = cfg.view i) :
    Q = I.sender.groupPoints i (1 - c) := by
  -- one formula of the view gives the point of either run
  have hother := otherPoint_view hC hrun hi hc
  have hother' := otherPoint_view hC hrun' hi hc
  rw [hview, hother] at hother'
  have hQ : (I.replace i (1 - c) Q randomVals).sender.groupPoints i (1 - c) = Q := by
    show Function.update I.sender.groupPoints i
      (Function.update (I.sender.groupPoints i) (1 - c) Q) i (1 - c) = Q
    rw [Function.update_self, Function.update_self]
  rw [← hQ]
  exact (Option.some.inj hother').symm

/-- **The point that was not chosen is not hidden.** Another point in its
place can show the receiver the same, whatever scalars the sender draws, only
if it is the same point; the receiver computes it from what it sees. -/
theorem unchosen_hidden_iff (hC : C.Lawful) {cfg : Config r G}
    (hrun : SoftwareTransfer C I 8 = some cfg) {i c : ℕ} (hi : i < 256)
    (hc : IsBit I.bitstring i c) (Q : G) :
    (∃ (randomVals : ℕ → ZR r) (cfg' : Config r G),
      SoftwareTransfer C (I.replace i (1 - c) Q randomVals) 8 = some cfg' ∧
        cfg'.view i = cfg.view i) ↔
      Q = I.sender.groupPoints i (1 - c) := by
  constructor
  · rintro ⟨randomVals, cfg', hrun', hview⟩
    exact point_of_view_eq hC hrun hrun' hi hc hview
  · rintro rfl
    refine ⟨I.sender.randomVals, cfg, ?_, rfl⟩
    rw [replace_self]
    exact hrun

theorem smallInput_run :
    ∃ cfg, SoftwareTransfer smallCharm smallInput 8 = some cfg :=
  ⟨_, run_eight smallCharm_lawful
    (isBit_keyBit (n := 5) rfl (by norm_num))⟩

theorem smallInput_bit : IsBit smallInput.bitstring 255 1 :=
  isBit_keyBit (n := 5) rfl (by norm_num) 255 (by omega)

/-- In the last row of the small run, where the receiver chose column 1, no
point but the sender's can stand in column 0. -/
theorem unchosen_hidden_small :
    ∃ cfg, SoftwareTransfer smallCharm smallInput 8 = some cfg ∧
      ∀ Q, (∃ (randomVals : ℕ → ZR 3) (cfg' : Config 3 (Multiplicative (ZMod 3))),
        SoftwareTransfer smallCharm (smallInput.replace 255 0 Q randomVals) 8 = some cfg' ∧
          cfg'.view 255 = cfg.view 255) ↔ Q = Multiplicative.ofAdd 0 := by
  obtain ⟨cfg, hrun⟩ := smallInput_run
  exact ⟨cfg, hrun, fun Q =>
    unchosen_hidden_iff smallCharm_lawful hrun (by omega) smallInput_bit Q⟩

/-- There the neighbouring point shows the receiver something else under every
choice of the sender's scalars. -/
theorem unchosen_not_hidden :
    ∃ cfg, SoftwareTransfer smallCharm smallInput 8 = some cfg ∧
      IsBit smallInput.bitstring 255 1 ∧
      ¬ ∃ (randomVals : ℕ → ZR 3) (cfg' : Config 3 (Multiplicative (ZMod 3))),
        SoftwareTransfer smallCharm
          (smallInput.replace 255 (1 - 1) (Multiplicative.ofAdd 1) randomVals) 8 = some cfg' ∧
        cfg'.view 255 = cfg.view 255 := by
  obtain ⟨cfg, hrun⟩ := smallInput_run
  refine ⟨cfg, hrun, smallInput_bit, ?_⟩
  rintro ⟨randomVals, cfg', hrun', hview⟩
  have hQ := point_of_view_eq smallCharm_lawful hrun hrun' (by omega) smallInput_bit hview
  exact absurd hQ (by decide)

end Pepal.Software

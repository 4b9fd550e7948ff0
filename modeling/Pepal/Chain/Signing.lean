import Pepal.Chain.ECDSASig

/-!
# Signing

`sign` makes a private key of two texts, signs, and returns the error of the
second of these steps only. Where the texts make no key it goes on with an
empty one, and what happens is up to `ecdsa.Sign`. Whether the scalar belongs
to the public key nobody asks; the signature is returned without an error and
the tool's own `verify` refuses it.
-/

namespace Pepal.Chain

/-- What is relied on of the package: a signature made with a scalar verifies
under the key of that scalar only. `Owns d key` says that `key` is the public
key of `d`. -/
def GoCrypto.Binds (C : GoCrypto) (Owns : ℤ → C.Key → Prop) : Prop :=
  ∀ random key d message r s, C.Sign random ⟨some key, some d⟩ message = .signed r s →
    (C.Verify key message r s = true ↔ Owns d key)

namespace ECDSASig

variable {C : GoCrypto} {Owns : ℤ → C.Key → Prop} {random : C.Random} {message : Bytes}
  {privateKeyD publicKeyB64 : String}

/-- The texts make a key or they do not. -/
theorem makePrivateKey_cases (C : GoCrypto) (privateKeyD publicKeyB64 : String) :
    (∃ err, makePrivateKey C privateKeyD publicKeyB64 = (⟨none, none⟩, some err)) ∨
      ∃ key d, makePrivateKey C privateKeyD publicKeyB64 = (⟨some key, some d⟩, none) ∧
        C.ParsePKIXPublicKey (C.DecodeString publicKeyB64).1 = some (.ecdsa key) := by
  unfold makePrivateKey
  dsimp only
  split
  · exact Or.inl ⟨_, rfl⟩
  · rename_i d hd
    split
    · exact Or.inl ⟨_, rfl⟩
    · split
      · rename_i key hkey
        exact Or.inr ⟨key, d, rfl, hkey⟩
      · exact Or.inl ⟨_, rfl⟩

/-- The error is overwritten: what `sign` does depends on the key alone. -/
theorem sign_eq {key : PrivateKey C.Key} {err : Option String}
    (h : makePrivateKey C privateKeyD publicKeyB64 = (key, err)) :
    sign C random message privateKeyD publicKeyB64 =
      match C.Sign random key message with
      | .panics => none
      | .failed err => some ("<nil>", "<nil>", some err)
      | .signed r s => some (Itoa r, Itoa s, none) := by
  obtain rfl : (makePrivateKey C privateKeyD publicKeyB64).1 = key := congrArg Prod.fst h
  rfl

/-- A number that is signed verifies under the key of the text. -/
theorem verify_Itoa {key : C.Key}
    (h : C.ParsePKIXPublicKey (C.DecodeString publicKeyB64).1 = some (.ecdsa key)) (r s : ℤ) :
    verify C message publicKeyB64 (Itoa r) (Itoa s) = C.Verify key message r s := by
  unfold verify
  simp only [h, newInt_Itoa]

/-! ## What signing is to do -/

/-- `sign` returns an error that is not nil. -/
def Reports (C : GoCrypto) (random : C.Random) (message : Bytes)
    (privateKeyD publicKeyB64 : String) : Prop :=
  ∃ rStr sStr err, sign C random message privateKeyD publicKeyB64 = some (rStr, sStr, some err)

/-- Signing does not panic, and it gives an error or a signature that the tool
accepts; a key that is refused, or that is not the scalar's, gives an error. -/
structure Clean (C : GoCrypto) (Owns : ℤ → C.Key → Prop) (random : C.Random) (message : Bytes)
    (privateKeyD publicKeyB64 : String) : Prop where
  returns : Reports C random message privateKeyD publicKeyB64 ∨
    ∃ rStr sStr, sign C random message privateKeyD publicKeyB64 = some (rStr, sStr, none) ∧
      verify C message publicKeyB64 rStr sStr = true
  refused : (makePrivateKey C privateKeyD publicKeyB64).2 ≠ none →
    Reports C random message privateKeyD publicKeyB64
  strange : ∀ key d, makePrivateKey C privateKeyD publicKeyB64 = (⟨some key, some d⟩, none) →
    ¬ Owns d key → Reports C random message privateKeyD publicKeyB64

/-- Where the texts make no key, `ecdsa.Sign` has an error for the empty one.
Where they make one, it has an error for that, or it does not panic on it and
the scalar belongs to the key. -/
structure Usable (C : GoCrypto) (Owns : ℤ → C.Key → Prop) (random : C.Random) (message : Bytes)
    (privateKeyD publicKeyB64 : String) : Prop where
  empty : (makePrivateKey C privateKeyD publicKeyB64).2 ≠ none →
    ∃ err, C.Sign random ⟨none, none⟩ message = .failed err
  key : ∀ key d, makePrivateKey C privateKeyD publicKeyB64 = (⟨some key, some d⟩, none) →
    (∃ err, C.Sign random ⟨some key, some d⟩ message = .failed err) ∨
      C.Sign random ⟨some key, some d⟩ message ≠ .panics ∧ Owns d key

/-- An error is returned exactly where `ecdsa.Sign` has one. -/
theorem reports_iff {key : PrivateKey C.Key} {err : Option String}
    (h : makePrivateKey C privateKeyD publicKeyB64 = (key, err)) :
    Reports C random message privateKeyD publicKeyB64 ↔
      ∃ err, C.Sign random key message = .failed err := by
  unfold Reports
  rw [sign_eq h]
  constructor
  · rintro ⟨rStr, sStr, err, hsign⟩
    split at hsign
    · cases hsign
    · rename_i failure hfailed
      exact ⟨failure, hfailed⟩
    · cases hsign
  · rintro ⟨failure, hfailed⟩
    rw [hfailed]
    exact ⟨"<nil>", "<nil>", failure, rfl⟩

/-- A key that is refused leads to an error or to a panic. -/
theorem clean_of_refused {err : String}
    (h : makePrivateKey C privateKeyD publicKeyB64 = (⟨none, none⟩, some err)) :
    Clean C Owns random message privateKeyD publicKeyB64 ↔
      Usable C Owns random message privateKeyD publicKeyB64 := by
  have hrefused : (makePrivateKey C privateKeyD publicKeyB64).2 ≠ none := by
    rw [h]
    exact Option.some_ne_none err
  have hnokey : ∀ key d,
      makePrivateKey C privateKeyD publicKeyB64 ≠ (⟨some key, some d⟩, none) := by
    intro key d hkey
    rw [h] at hkey
    cases hkey
  constructor
  · intro hclean
    constructor
    · intro _
      exact (reports_iff h).mp (hclean.refused hrefused)
    · intro key d hkey
      exact absurd hkey (hnokey key d)
  · intro husable
    have hreports : Reports C random message privateKeyD publicKeyB64 :=
      (reports_iff h).mpr (husable.empty hrefused)
    exact ⟨Or.inl hreports, fun _ => hreports, fun _ _ _ _ => hreports⟩

/-- A signature that the tool accepts is returned where `ecdsa.Sign` makes one
with the scalar of the key. -/
theorem signs_iff (hC : C.Binds Owns) {key : C.Key} {d : ℤ}
    (h : makePrivateKey C privateKeyD publicKeyB64 = (⟨some key, some d⟩, none))
    (hkey : C.ParsePKIXPublicKey (C.DecodeString publicKeyB64).1 = some (.ecdsa key)) :
    (∃ rStr sStr, sign C random message privateKeyD publicKeyB64 = some (rStr, sStr, none) ∧
      verify C message publicKeyB64 rStr sStr = true) ↔
    (∃ r s, C.Sign random ⟨some key, some d⟩ message = .signed r s) ∧ Owns d key := by
  rw [sign_eq h]
  constructor
  · rintro ⟨rStr, sStr, hsign, hverify⟩
    split at hsign
    · cases hsign
    · cases hsign
    · rename_i r s hsigned
      simp only [Option.some.injEq, Prod.mk.injEq, and_true] at hsign
      obtain ⟨rfl, rfl⟩ := hsign
      rw [verify_Itoa hkey] at hverify
      exact ⟨⟨r, s, hsigned⟩, (hC random key d message r s hsigned).mp hverify⟩
  · rintro ⟨⟨r, s, hsigned⟩, howns⟩
    rw [hsigned]
    refine ⟨Itoa r, Itoa s, rfl, ?_⟩
    rw [verify_Itoa hkey]
    exact (hC random key d message r s hsigned).mpr howns

/-- With a key it matters whose key it is. -/
theorem clean_of_key (hC : C.Binds Owns) {key : C.Key} {d : ℤ}
    (h : makePrivateKey C privateKeyD publicKeyB64 = (⟨some key, some d⟩, none))
    (hkey : C.ParsePKIXPublicKey (C.DecodeString publicKeyB64).1 = some (.ecdsa key)) :
    Clean C Owns random message privateKeyD publicKeyB64 ↔
      Usable C Owns random message privateKeyD publicKeyB64 := by
  have haccepted : ¬ (makePrivateKey C privateKeyD publicKeyB64).2 ≠ none := by
    rw [h]
    exact not_not.mpr rfl
  have hsame : ∀ key' d', makePrivateKey C privateKeyD publicKeyB64 = (⟨some key', some d'⟩, none) →
      key' = key ∧ d' = d := by
    intro key' d' hkey'
    rw [h] at hkey'
    cases hkey'
    exact ⟨rfl, rfl⟩
  constructor
  · intro hclean
    refine ⟨fun hrefused => absurd hrefused haccepted, ?_⟩
    intro key' d' hkey'
    obtain ⟨rfl, rfl⟩ := hsame key' d' hkey'
    rcases hclean.returns with hreports | hsigns
    · exact Or.inl ((reports_iff h).mp hreports)
    · obtain ⟨⟨r, s, hsigned⟩, howns⟩ := (signs_iff hC h hkey).mp hsigns
      right
      rw [hsigned]
      exact ⟨by simp, howns⟩
  · intro husable
    have hfailed : (∃ err, C.Sign random ⟨some key, some d⟩ message = .failed err) →
        Reports C random message privateKeyD publicKeyB64 := (reports_iff h).mpr
    refine ⟨?_, fun hrefused => absurd hrefused haccepted, ?_⟩
    · rcases husable.key key d h with hreports | ⟨hreturns, howns⟩
      · exact Or.inl (hfailed hreports)
      · cases hsign : C.Sign random ⟨some key, some d⟩ message with
        | panics => exact absurd hsign hreturns
        | failed err => exact Or.inl (hfailed ⟨err, hsign⟩)
        | signed r s => exact Or.inr ((signs_iff hC h hkey).mpr ⟨⟨r, s, hsign⟩, howns⟩)
    · intro key' d' hkey' hstrange
      obtain ⟨rfl, rfl⟩ := hsame key' d' hkey'
      rcases husable.key key' d' h with hreports | ⟨-, howns⟩
      · exact hfailed hreports
      · exact absurd howns hstrange

/-- **When signing fails cleanly or gives a valid signature.** -/
theorem sign_clean_iff (hC : C.Binds Owns) (random : C.Random) (message : Bytes)
    (privateKeyD publicKeyB64 : String) :
    Clean C Owns random message privateKeyD publicKeyB64 ↔
      Usable C Owns random message privateKeyD publicKeyB64 := by
  rcases makePrivateKey_cases C privateKeyD publicKeyB64 with ⟨err, h⟩ | ⟨key, d, h, hkey⟩
  · exact clean_of_refused h
  · exact clean_of_key hC h hkey

/-! ## Packages that sign with the scalar -/

/-- As `byteCrypto`, but the first number of a signature is the scalar that
made it. -/
def scalarCrypto : GoCrypto :=
  { byteCrypto with
    Sign := fun _ privateKey message =>
      match privateKey.PublicKey, privateKey.D with
      | some _, some d => .signed d (hashToInt message)
      | _, _ => .panics }

def firstByte : scalarCrypto.Random := (0 : UInt8)

/-- The scalar of a key is the byte that it is. -/
def OwnsByte (d : ℤ) (key : UInt8) : Prop := d = key.toNat

theorem scalarCrypto_binds : scalarCrypto.Binds OwnsByte := by
  intro random key d message r s hsign
  change SignResult.signed d (hashToInt message) = .signed r s at hsign
  obtain ⟨rfl, rfl⟩ := SignResult.signed.inj hsign
  show decide (d = key.toNat ∧ (hashToInt message : ℤ) = hashToInt message) = true ↔ _
  rw [decide_eq_true_eq]
  exact and_iff_left rfl

theorem sign_clean_A :
    Clean scalarCrypto OwnsByte firstByte (bytes "m") (Itoa 65) "A" ↔
      Usable scalarCrypto OwnsByte firstByte (bytes "m") (Itoa 65) "A" :=
  sign_clean_iff scalarCrypto_binds firstByte (bytes "m") (Itoa 65) "A"

theorem makePrivateKey_x :
    makePrivateKey scalarCrypto "x" "A" =
      (⟨none, none⟩, some "[-] Unable to parse private key D") := by
  have hscalar : SetString "x" = none := by decide
  unfold makePrivateKey
  simp only [hscalar]

theorem makePrivateKey_66 :
    makePrivateKey scalarCrypto (Itoa 66) "A" = (⟨some (65 : UInt8), some 66⟩, none) := by
  unfold makePrivateKey
  simp only [SetString_decimal]
  rfl

/-- **Signing that should fail cleanly**: a text that is no scalar makes it
panic, and the scalar of B with the key of A gives a signature without an error
that A's key refuses. -/
theorem sign_unclean :
    sign scalarCrypto firstByte (bytes "m") "x" "A" = none ∧
      ¬ Clean scalarCrypto OwnsByte firstByte (bytes "m") "x" "A" ∧
      sign scalarCrypto firstByte (bytes "m") (Itoa 66) "A" = some (Itoa 66, Itoa 109, none) ∧
      verify scalarCrypto (bytes "m") "A" (Itoa 66) (Itoa 109) = false ∧
      ¬ Clean scalarCrypto OwnsByte firstByte (bytes "m") (Itoa 66) "A" := by
  have hpanics : sign scalarCrypto firstByte (bytes "m") "x" "A" = none := sign_eq makePrivateKey_x
  have hhash : (hashToInt (bytes "m") : ℤ) = 109 := by decide
  have hsigned : sign scalarCrypto firstByte (bytes "m") (Itoa 66) "A" =
      some (Itoa 66, Itoa 109, none) := by
    rw [← hhash]
    exact sign_eq makePrivateKey_66
  have hreports : ∀ privateKeyD,
      sign scalarCrypto firstByte (bytes "m") privateKeyD "A" = none ∨
        (∃ r s, sign scalarCrypto firstByte (bytes "m") privateKeyD "A" = some (r, s, none)) →
      ¬ Reports scalarCrypto firstByte (bytes "m") privateKeyD "A" := by
    rintro privateKeyD (hnone | ⟨r, s, hsome⟩) ⟨rStr, sStr, err, hsign⟩
    · rw [hnone] at hsign
      cases hsign
    · rw [hsome] at hsign
      cases hsign
  refine ⟨hpanics, ?_, hsigned, ?_, ?_⟩
  · intro hclean
    refine hreports "x" (Or.inl hpanics) (hclean.refused ?_)
    rw [makePrivateKey_x]
    exact Option.some_ne_none _
  · rw [verify_Itoa (rfl : scalarCrypto.ParsePKIXPublicKey (scalarCrypto.DecodeString "A").1 =
      some (.ecdsa (65 : UInt8)))]
    decide
  · intro hclean
    refine hreports (Itoa 66) (Or.inr ⟨_, _, hsigned⟩) (hclean.strange _ _ makePrivateKey_66 ?_)
    show ¬ (66 : ℤ) = ((65 : UInt8).toNat : ℤ)
    decide

end ECDSASig

end Pepal.Chain

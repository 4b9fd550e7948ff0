import Pepal.Lib.Numeral
import Pepal.Chain.Golang

/-!
# Signatures

The command line tool that signs (`ECDSASig.go`) and the check of several
signatures, which the tool and both chaincodes carry in three copies. The
packages under them (`crypto/ecdsa`, `crypto/x509`, `encoding/base64`) are not
part of the repository: they are the record `GoCrypto`, and what is relied on
of them is `GoCrypto.Lawful`.

A Go string that is signed or verified is its bytes.
-/

namespace Pepal.Chain

abbrev Bytes := List UInt8

/-- `[]byte(s)` -/
def bytes (s : String) : Bytes := s.toList.flatMap String.utf8EncodeChar

/-- What `x509.ParsePKIXPublicKey` returns without an error. -/
inductive PKIXKey (Key : Type) where
  | ecdsa (key : Key)
  | other

/-- `ecdsa.PrivateKey`; the fields of `&ecdsa.PrivateKey{}` are absent. -/
structure PrivateKey (Key : Type) where
  PublicKey : Option Key
  D : Option ℤ

inductive SignResult where
  | panics
  | failed (err : String)
  | signed (r s : ℤ)

structure GoCrypto where
  /-- `ecdsa.PublicKey` on `elliptic.P256()` -/
  Key : Type
  /-- what is read from an `io.Reader` -/
  Random : Type
  /-- `base64.URLEncoding.DecodeString`: bytes, and whether the error is not nil -/
  DecodeString : String → Bytes × Bool
  EncodeToString : Bytes → String
  ParsePKIXPublicKey : Bytes → Option (PKIXKey Key)
  MarshalPKIXPublicKey : Key → Bytes
  GenerateKey : Random → Option (ℤ × Key)
  Sign : Random → PrivateKey Key → Bytes → SignResult
  Verify : Key → Bytes → ℤ → ℤ → Bool
  /-- value of `z` after `z.SetString(s, 0)` has failed, which is undefined -/
  undefinedInt : String → ℤ

namespace ECDSASig

variable (C : GoCrypto)

/-- `r := new(big.Int)` and `r.SetString(s, 0)`, the result unchecked. -/
def newInt (s : String) : ℤ := (SetString s).getD (C.undefinedInt s)

def makePrivateKey (privateKeyD publicKeyB64 : String) : PrivateKey C.Key × Option String :=
  let (publicKeyBytes, err) := C.DecodeString publicKeyB64
  match SetString privateKeyD with
  | none => (⟨none, none⟩, some "[-] Unable to parse private key D")
  | some d =>
      if err then (⟨none, none⟩, some "[-] Unable to parse private key D")
      else
        -- the error of the parser is not looked at, only the type of the key
        match C.ParsePKIXPublicKey publicKeyBytes with
        | some (.ecdsa publicKey) => (⟨some publicKey, some d⟩, none)
        | _ => (⟨none, none⟩, some "[-] Unable to parse public key")

/-- Public key and signing key; without a key pair the code panics. -/
def generateKeys (random : C.Random) : Option (String × String) :=
  match C.GenerateKey random with
  | some (d, publicKey) =>
      some (C.EncodeToString (C.MarshalPKIXPublicKey publicKey), Itoa d)
  | none => none

/-- `rStr`, `sStr` and `err`; `none` when `ecdsa.Sign` panics. The error of
`makePrivateKey` is overwritten by that of `ecdsa.Sign`, and the text of a nil
integer is `<nil>`. -/
def sign (random : C.Random) (message : Bytes) (privateKeyD publicKeyB64 : String) :
    Option (String × String × Option String) :=
  let (privateKey, _) := makePrivateKey C privateKeyD publicKeyB64
  match C.Sign random privateKey message with
  | .panics => none
  | .failed err => some ("<nil>", "<nil>", some err)
  | .signed r s => some (Itoa r, Itoa s, none)

def verify (message : Bytes) (publicKeyB64 rStr sStr : String) : Bool :=
  let (publicKeyBytes, _) := C.DecodeString publicKeyB64
  match C.ParsePKIXPublicKey publicKeyBytes with
  | some (.ecdsa publicKey) => C.Verify publicKey message (newInt C rStr) (newInt C sStr)
  | _ => false

end ECDSASig

/-! ## The check of several signatures -/

section Verify

variable (C : GoCrypto) (message : Bytes)

/-- A round of the loop: the new value of `verified`, or `return false`. -/
def verifyEntry (publicKey signature : String) : Option Bool :=
  let (publicKeyBytes, _) := C.DecodeString publicKey
  match C.ParsePKIXPublicKey publicKeyBytes with
  | none => none
  | some key =>
      match Split signature with
      | r :: s :: _ =>
          match key with
          | .ecdsa publicKey =>
              some (C.Verify publicKey message (ECDSASig.newInt C r) (ECDSASig.newInt C s))
          | .other => none
      | _ => none

/-- The loop over keys and signatures. Every round overwrites `verified`. -/
def verifyLoop : List (String × String) → Bool → Bool
  | [], verified => verified
  | (publicKey, signature) :: entries, _ =>
      match verifyEntry C message publicKey signature with
      | none => false
      | some verified => verifyLoop entries verified

def verifyAll (publicKeys signatures : List String) : Bool :=
  if publicKeys.length ≠ signatures.length then false
  else verifyLoop C message (publicKeys.zip signatures) false

def ECDSASig.verifyMulti (publicKeys signatures : List String) : Bool :=
  verifyAll C message publicKeys signatures

/-! ## What the loop computes -/

/-- The code reads a key and two numbers off the entry. -/
def WellFormed (entry : String × String) : Prop :=
  (verifyEntry C message entry.1 entry.2).isSome = true

/-- What a round that does not return has read. -/
theorem of_verifyEntry {publicKey signature : String} {verified : Bool}
    (h : verifyEntry C message publicKey signature = some verified) :
    ∃ key r s more, C.ParsePKIXPublicKey (C.DecodeString publicKey).1 = some (.ecdsa key) ∧
      Split signature = r :: s :: more ∧
      C.Verify key message (ECDSASig.newInt C r) (ECDSASig.newInt C s) = verified := by
  unfold verifyEntry at h
  dsimp only at h
  split at h
  · cases h
  · rename_i key hparse
    split at h
    · rename_i r s more hsplit
      cases key with
      | ecdsa key => exact ⟨key, r, s, more, hparse, hsplit, Option.some.inj h⟩
      | other => cases h
    · cases h

theorem verifyLoop_append (entries : List (String × String)) (last : String × String)
    (verified : Bool) :
    verifyLoop C message (entries ++ [last]) verified = true ↔
      (∀ entry ∈ entries, WellFormed C message entry) ∧
        verifyEntry C message last.1 last.2 = some true := by
  -- no round looks at the verdict of the one before it
  induction entries generalizing verified with
  | nil =>
      rw [List.nil_append, verifyLoop]
      cases verifyEntry C message last.1 last.2 with
      | none => simp
      | some b => simp [verifyLoop]
  | cons entry entries ih =>
      rw [List.cons_append, verifyLoop, List.forall_mem_cons, WellFormed]
      cases verifyEntry C message entry.1 entry.2 with
      | none => simp
      | some b => simp only [ih, Option.isSome_some, true_and]

/-- **What the check decides.** The lists have one length and are not empty,
every entry is well formed, and the last one verifies. -/
theorem verifyAll_eq_true (publicKeys signatures : List String) :
    verifyAll C message publicKeys signatures = true ↔
      publicKeys.length = signatures.length ∧
        (∀ entry ∈ publicKeys.zip signatures, WellFormed C message entry) ∧
        ∃ last ∈ (publicKeys.zip signatures).getLast?,
          verifyEntry C message last.1 last.2 = some true := by
  unfold verifyAll
  by_cases hlength : publicKeys.length = signatures.length
  · rw [if_neg (not_not.mpr hlength)]
    rcases List.eq_nil_or_concat (publicKeys.zip signatures) with hnil | ⟨entries, last, hlast⟩
    · rw [hnil]
      simp [verifyLoop]
    · rw [hlast, List.concat_eq_append, verifyLoop_append]
      constructor
      · rintro ⟨hentries, hverified⟩
        refine ⟨hlength, ?_, last, List.getLast?_concat, hverified⟩
        intro entry hentry
        rcases List.mem_append.mp hentry with hmem | hmem
        · exact hentries entry hmem
        · rw [List.mem_singleton.mp hmem, WellFormed, hverified]
          rfl
      · rintro ⟨-, hentries, last', hlast', hverified⟩
        rw [List.getLast?_concat, Option.mem_some_iff] at hlast'
        rw [hlast']
        exact ⟨fun entry hentry => hentries entry (List.mem_append_left _ hentry), hverified⟩
  · rw [if_pos hlength]
    exact ⟨fun h => absurd h Bool.false_ne_true, fun h => absurd h.1 hlength⟩

theorem verifyAll_concat {publicKeys signatures : List String}
    (hlength : publicKeys.length = signatures.length) (publicKey signature : String) :
    verifyAll C message (publicKeys ++ [publicKey]) (signatures ++ [signature]) = true ↔
      (∀ entry ∈ publicKeys.zip signatures, WellFormed C message entry) ∧
        verifyEntry C message publicKey signature = some true := by
  unfold verifyAll
  rw [if_neg (by simp [hlength]), List.zip_append hlength]
  exact verifyLoop_append C message _ (publicKey, signature) false

/-- Of two signatures the first only has to be well formed. -/
theorem verifyAll_pair (first second firstSig secondSig : String) :
    verifyAll C message [first, second] [firstSig, secondSig] = true ↔
      WellFormed C message (first, firstSig) ∧
        verifyEntry C message second secondSig = some true := by
  have hlength : [first].length = [firstSig].length := rfl
  have h := verifyAll_concat C message hlength second secondSig
  rwa [List.zip_cons_cons, List.zip_nil_left, List.forall_mem_singleton] at h

/-! ## What the check is for -/

/-- The text is an ECDSA key and the other text a signature of the message
under it. -/
def Signed (publicKey signature : String) : Prop :=
  ∃ publicKeyBytes key r s more rValue sValue,
    C.DecodeString publicKey = (publicKeyBytes, false) ∧
      C.ParsePKIXPublicKey publicKeyBytes = some (.ecdsa key) ∧
      Split signature = r :: s :: more ∧ SetString r = some rValue ∧ SetString s = some sValue ∧
      C.Verify key message rValue sValue = true

/-- Every party has signed. -/
def EverySigned (publicKeys signatures : List String) : Prop :=
  publicKeys.length = signatures.length ∧
    ∀ (i : ℕ) (publicKey signature : String), publicKeys[i]? = some publicKey →
      signatures[i]? = some signature → Signed C message publicKey signature

/-- What the loop does not notice in an entry: `ecdsa.Verify` refuses it, or there
is an error from base64 or from one of the two `SetString`. -/
structure Flawed (publicKey signature : String) : Prop where
  unnoticed : verifyEntry C message publicKey signature = some false ∨
    (C.DecodeString publicKey).2 = true ∨
    ∃ r s more, Split signature = r :: s :: more ∧ (SetString r = none ∨ SetString s = none)

/-- The kind of lists on which the loop goes wrong: it gets to the end, the
last entry verifies, and there is something in an entry that it has not noticed. -/
structure Overlooks (publicKeys signatures : List String) : Prop where
  sameLength : publicKeys.length = signatures.length
  wellFormed : ∀ entry ∈ publicKeys.zip signatures, WellFormed C message entry
  lastVerifies : ∃ last ∈ (publicKeys.zip signatures).getLast?,
    verifyEntry C message last.1 last.2 = some true
  flawed : ∃ entry ∈ publicKeys.zip signatures, Flawed C message entry.1 entry.2

theorem verifyEntry_of_signed {publicKey signature : String}
    (h : Signed C message publicKey signature) :
    verifyEntry C message publicKey signature = some true := by
  obtain ⟨publicKeyBytes, key, r, s, more, rValue, sValue, hbytes, hkey, hsig, hr, hs, hverify⟩ := h
  unfold verifyEntry ECDSASig.newInt
  simp only [hbytes, hkey, hsig, hr, hs, Option.getD_some, hverify]

/-- What a well-formed entry can lack of a signature. -/
theorem not_signed_iff {publicKey signature : String}
    (h : WellFormed C message (publicKey, signature)) :
    ¬ Signed C message publicKey signature ↔ Flawed C message publicKey signature := by
  constructor
  · intro hunsigned
    constructor
    by_contra hnone
    obtain ⟨hverify, hbase64, hnumbers⟩ :
        verifyEntry C message publicKey signature ≠ some false ∧
          (C.DecodeString publicKey).2 ≠ true ∧
          ¬ ∃ r s more, Split signature = r :: s :: more ∧
            (SetString r = none ∨ SetString s = none) := by
      simpa only [not_or] using hnone
    obtain ⟨verified, hentry⟩ := Option.isSome_iff_exists.mp h
    obtain rfl : verified = true := Bool.eq_true_of_not_eq_false fun hfalse =>
      hverify (by rw [← hfalse]; exact hentry)
    obtain ⟨key, r, s, more, hparse, hsplit, hpasses⟩ := of_verifyEntry C message hentry
    have hr : SetString r ≠ none := fun hr => hnumbers ⟨r, s, more, hsplit, Or.inl hr⟩
    have hs : SetString s ≠ none := fun hs => hnumbers ⟨r, s, more, hsplit, Or.inr hs⟩
    obtain ⟨rValue, hrValue⟩ := Option.ne_none_iff_exists'.mp hr
    obtain ⟨sValue, hsValue⟩ := Option.ne_none_iff_exists'.mp hs
    rw [ECDSASig.newInt, ECDSASig.newInt, hrValue, hsValue] at hpasses
    exact hunsigned ⟨_, key, r, s, more, rValue, sValue,
      Prod.ext rfl (Bool.eq_false_of_not_eq_true hbase64), hparse, hsplit, hrValue, hsValue,
      hpasses⟩
  · rintro ⟨hrefused | hbase64 | ⟨r, s, more, hsplit, hnumber⟩⟩ hsigned
    · rw [verifyEntry_of_signed C message hsigned] at hrefused
      cases hrefused
    · obtain ⟨publicKeyBytes, _, _, _, _, _, _, hbytes, -⟩ := hsigned
      rw [hbytes] at hbase64
      cases hbase64
    · obtain ⟨_, _, r', s', more', rValue, sValue, -, -, hsplit', hr, hs, -⟩ := hsigned
      rw [hsplit] at hsplit'
      obtain ⟨rfl, htail⟩ := List.cons.inj hsplit'
      obtain ⟨rfl, -⟩ := List.cons.inj htail
      rcases hnumber with hnone | hnone
      · rw [hnone] at hr
        cases hr
      · rw [hnone] at hs
        cases hs

theorem everySigned_iff_zip {publicKeys signatures : List String}
    (hlength : publicKeys.length = signatures.length) :
    EverySigned C message publicKeys signatures ↔
      ∀ entry ∈ publicKeys.zip signatures, Signed C message entry.1 entry.2 := by
  constructor
  · rintro ⟨-, h⟩ entry hentry
    obtain ⟨i, hi⟩ := List.mem_iff_getElem?.mp hentry
    obtain ⟨hkey, hsig⟩ := List.getElem?_zip_eq_some.mp hi
    exact h i entry.1 entry.2 hkey hsig
  · intro h
    refine ⟨hlength, ?_⟩
    intro i publicKey signature hkey hsig
    have hi : (publicKeys.zip signatures)[i]? = some (publicKey, signature) :=
      List.getElem?_zip_eq_some.mpr ⟨hkey, hsig⟩
    exact h (publicKey, signature) (List.mem_of_getElem? hi)

/-- **The check is sound except where the loop overlooks an entry.** -/
theorem verifyAll_sound_iff (publicKeys signatures : List String) :
    (verifyAll C message publicKeys signatures = true →
        EverySigned C message publicKeys signatures) ↔
      ¬ Overlooks C message publicKeys signatures := by
  rw [verifyAll_eq_true]
  constructor
  · rintro h ⟨hlength, hwell, hlast, entry, hentry, hflawed⟩
    have hsigned := h ⟨hlength, hwell, hlast⟩
    exact (not_signed_iff C message (hwell entry hentry)).mpr hflawed
      ((everySigned_iff_zip C message hlength).mp hsigned entry hentry)
  · rintro h ⟨hlength, hwell, hlast⟩
    rw [everySigned_iff_zip C message hlength]
    intro entry hentry
    by_contra hunsigned
    exact h ⟨hlength, hwell, hlast, entry, hentry,
      (not_signed_iff C message (hwell entry hentry)).mp hunsigned⟩

end Verify

/-! ## What is relied on of the packages -/

/-- `hashToInt` of `crypto/ecdsa` on a curve of 256 bits: the leftmost 32
bytes as a number. -/
def hashToInt (message : Bytes) : ℕ := Numeral.beNat (message.take 32)

structure GoCrypto.Lawful (C : GoCrypto) : Prop where
  decode_encode : ∀ b, C.DecodeString (C.EncodeToString b) = (b, false)
  parse_marshal : ∀ key, C.ParsePKIXPublicKey (C.MarshalPKIXPublicKey key) = some (.ecdsa key)
  /-- An honest signature verifies exactly for the number that was signed. -/
  verify_sign : ∀ random d key, C.GenerateKey random = some (d, key) →
    ∀ random' message r s, C.Sign random' ⟨some key, some d⟩ message = .signed r s →
      ∀ message', C.Verify key message' r s = true ↔ hashToInt message' = hashToInt message

/-- The decoders undo the encoders, and what is signed verifies. -/
structure GoCrypto.Accepting (C : GoCrypto) : Prop where
  decode_encode : ∀ b, C.DecodeString (C.EncodeToString b) = (b, false)
  parse_marshal : ∀ key, C.ParsePKIXPublicKey (C.MarshalPKIXPublicKey key) = some (.ecdsa key)
  verify_sign : ∀ random d key, C.GenerateKey random = some (d, key) →
    ∀ random' message r s, C.Sign random' ⟨some key, some d⟩ message = .signed r s →
      C.Verify key message r s = true

theorem GoCrypto.Lawful.accepting {C : GoCrypto} (hC : C.Lawful) : C.Accepting where
  decode_encode := hC.decode_encode
  parse_marshal := hC.parse_marshal
  verify_sign random d key hgenerate random' message r s hsigned :=
    (hC.verify_sign random d key hgenerate random' message r s hsigned message).mpr rfl

namespace ECDSASig

variable {C : GoCrypto}

/-- The tool reads its own keys. -/
theorem makePrivateKey_generated (hC : C.Accepting) (d : ℤ) (key : C.Key) :
    makePrivateKey C (Itoa d) (C.EncodeToString (C.MarshalPKIXPublicKey key)) =
      (⟨some key, some d⟩, none) := by
  unfold makePrivateKey
  simp only [hC.decode_encode, SetString_decimal, hC.parse_marshal]
  rfl

/-- A signature that `sign` returns under a generated key. -/
structure Honest (C : GoCrypto) (message : Bytes) (publicKeyB64 rStr sStr : String) : Prop where
  signed : ∃ random random' privateKeyD, generateKeys C random = some (publicKeyB64, privateKeyD) ∧
    sign C random' message privateKeyD publicKeyB64 = some (rStr, sStr, none)

/-- What is behind the texts of an honest signature. -/
theorem sign_of_honest (hC : C.Accepting) {message : Bytes} {publicKeyB64 rStr sStr : String}
    (h : Honest C message publicKeyB64 rStr sStr) :
    ∃ random d key random' r s, C.GenerateKey random = some (d, key) ∧
      C.Sign random' ⟨some key, some d⟩ message = .signed r s ∧
      publicKeyB64 = C.EncodeToString (C.MarshalPKIXPublicKey key) ∧ rStr = Itoa r ∧
      sStr = Itoa s := by
  obtain ⟨random, random', privateKeyD, hkeys, hsign⟩ := h.signed
  unfold generateKeys at hkeys
  split at hkeys
  · rename_i d key hgenerate
    obtain ⟨rfl, rfl⟩ := Prod.mk.inj (Option.some.inj hkeys)
    unfold sign at hsign
    rw [makePrivateKey_generated hC] at hsign
    dsimp only at hsign
    split at hsign
    · cases hsign
    · exact absurd (congrArg (fun x => x.2.2) (Option.some.inj hsign)) (Option.some_ne_none _)
    · rename_i r s hsigned
      obtain ⟨hr, hs⟩ := Prod.mk.inj (Option.some.inj hsign)
      exact ⟨random, d, key, random', r, s, hgenerate, hsigned, rfl, hr.symm,
        (Prod.mk.inj hs).1.symm⟩
  · cases hkeys

theorem numbers_of_honest (hC : C.Lawful) {message : Bytes} {publicKeyB64 rStr sStr : String}
    (h : Honest C message publicKeyB64 rStr sStr) :
    ∃ key r s, publicKeyB64 = C.EncodeToString (C.MarshalPKIXPublicKey key) ∧ rStr = Itoa r ∧
      sStr = Itoa s ∧
      ∀ message', C.Verify key message' r s = true ↔ hashToInt message' = hashToInt message := by
  obtain ⟨random, d, key, random', r, s, hgenerate, hsigned, hkey, hr, hs⟩ :=
    sign_of_honest hC.accepting h
  exact ⟨key, r, s, hkey, hr, hs,
    hC.verify_sign random d key hgenerate random' message r s hsigned⟩

theorem newInt_Itoa (n : ℤ) : newInt C (Itoa n) = n := by
  rw [newInt, SetString_decimal, Option.getD_some]

/-- **An honest signature is accepted for the messages with its number.** -/
theorem verify_honest (hC : C.Lawful) {message : Bytes} {publicKeyB64 rStr sStr : String}
    (h : Honest C message publicKeyB64 rStr sStr) (message' : Bytes) :
    verify C message' publicKeyB64 rStr sStr = true ↔ hashToInt message' = hashToInt message := by
  obtain ⟨key, r, s, rfl, rfl, rfl, hverify⟩ := numbers_of_honest hC h
  unfold verify
  simp only [hC.decode_encode, hC.parse_marshal, newInt_Itoa]
  exact hverify message'

end ECDSASig

theorem verifyEntry_pair {C : GoCrypto} {publicKey : String} {key : C.Key}
    (h : C.ParsePKIXPublicKey (C.DecodeString publicKey).1 = some (.ecdsa key)) (message : Bytes)
    (r s : ℤ) :
    verifyEntry C message publicKey (Itoa r ++ "," ++ Itoa s) =
      some (C.Verify key message r s) := by
  unfold verifyEntry
  simp only [h, Split_pair, ECDSASig.newInt_Itoa]

theorem verifyEntry_honest {C : GoCrypto} (hC : C.Lawful) {message : Bytes}
    {publicKeyB64 rStr sStr : String} (h : ECDSASig.Honest C message publicKeyB64 rStr sStr)
    (message' : Bytes) :
    verifyEntry C message' publicKeyB64 (rStr ++ "," ++ sStr) = some true ↔
      hashToInt message' = hashToInt message := by
  obtain ⟨key, r, s, rfl, rfl, rfl, hverify⟩ := ECDSASig.numbers_of_honest hC h
  have hkey : C.ParsePKIXPublicKey
      (C.DecodeString (C.EncodeToString (C.MarshalPKIXPublicKey key))).1 = some (.ecdsa key) := by
    rw [hC.decode_encode, hC.parse_marshal]
  rw [verifyEntry_pair hkey, Option.some.injEq]
  exact hverify message'

/-- The check accepts what the tool has signed. -/
theorem verifyEntry_signed {C : GoCrypto} (hC : C.Accepting) {message : Bytes}
    {publicKeyB64 rStr sStr : String} (h : ECDSASig.Honest C message publicKeyB64 rStr sStr) :
    verifyEntry C message publicKeyB64 (rStr ++ "," ++ sStr) = some true := by
  obtain ⟨random, d, key, random', r, s, hgenerate, hsigned, rfl, rfl, rfl⟩ :=
    ECDSASig.sign_of_honest hC h
  have hkey : C.ParsePKIXPublicKey
      (C.DecodeString (C.EncodeToString (C.MarshalPKIXPublicKey key))).1 = some (.ecdsa key) := by
    rw [hC.decode_encode, hC.parse_marshal]
  rw [verifyEntry_pair hkey, hC.verify_sign random d key hgenerate random' message r s hsigned]

/-! ## Packages to compute with -/

/-- Keys are bytes, a text is its characters, and a signature is the key and
the number that was signed. -/
def byteCrypto : GoCrypto where
  Key := UInt8
  Random := UInt8
  DecodeString s := (s.toList.map fun c => UInt8.ofNat c.toNat, false)
  EncodeToString b := String.ofList (b.map fun x => Char.ofNat x.toNat)
  ParsePKIXPublicKey
    | [key] => some (.ecdsa key)
    | _ => none
  MarshalPKIXPublicKey key := [key]
  GenerateKey random := some (random.toNat, random)
  Sign _ privateKey message :=
    match privateKey.PublicKey with
    | some key => .signed key.toNat (hashToInt message)
    | none => .panics
  Verify key message r s := decide (r = key.toNat ∧ s = hashToInt message)
  undefinedInt _ := 0

theorem verifyEntry_bytes (publicKey : String) (key : UInt8)
    (h : byteCrypto.ParsePKIXPublicKey (byteCrypto.DecodeString publicKey).1 = some (.ecdsa key))
    (message : Bytes) (r s : ℤ) :
    verifyEntry byteCrypto message publicKey (Itoa r ++ "," ++ Itoa s) =
      some (decide (r = key.toNat ∧ s = hashToInt message)) := verifyEntry_pair h message r s

theorem byteCrypto_lawful : byteCrypto.Lawful where
  decode_encode b := by
    show ((String.ofList (b.map fun x => Char.ofNat x.toNat)).toList.map
      fun c => UInt8.ofNat c.toNat, false) = (b, false)
    have hbyte : ∀ x : UInt8, UInt8.ofNat (Char.ofNat x.toNat).toNat = x := by
      intro x
      have hvalid : x.toNat.isValidChar := Or.inl (by have := x.toNat_lt; omega)
      have hchar : (Char.ofNat x.toNat).toNat = x.toNat := by
        rw [Char.ofNat, dif_pos hvalid]
        rfl
      rw [hchar, UInt8.ofNat_toNat]
    rw [String.toList_ofList, List.map_map]
    congr 1
    exact (List.map_congr_left fun x _ => hbyte x).trans (List.map_id b)
  parse_marshal _ := rfl
  verify_sign := by
    intro random d key _ random' message r s hsign message'
    change SignResult.signed key.toNat (hashToInt message) = .signed r s at hsign
    obtain ⟨rfl, rfl⟩ := SignResult.signed.inj hsign
    show decide _ = true ↔ _
    rw [decide_eq_true_eq]
    constructor
    · rintro ⟨-, h⟩
      exact (Int.ofNat_inj.mp h).symm
    · intro h
      exact ⟨rfl, congrArg Int.ofNat h.symm⟩

end Pepal.Chain

import Mathlib.Data.List.Forall2
import Pepal.Chain.Multiapdlcc
import Pepal.Chain.Transactions

/-!
# What a signature is worth

Three questions about the check of signatures. Does it ask for a signature of
every party? It does not: the loop keeps only the verdict on the last entry,
and a penalty goes through with any text of the right form in the place of the
owner's signature. Is a signature bound to the message? The message is handed
to `ecdsa` as it is, so only its leftmost 32 bytes count, and again one that is
not the last may be of anything. For both there is the exact condition under
which the answer is the expected one.

And are the signatures that the tool prints accepted? They are, for any number
of parties: its decimal texts are read back as the numbers they stand for.
-/

namespace Pepal.Chain

variable (C : GoCrypto)

/-! ## A signature of every party -/

/-- The penalty call carries valid signatures of owner and user. -/
def BothSigned (ledger : Ledger) (args : List String) : Prop :=
  ∃ first message hubSig userSig, args = ["penalty", first, message, hubSig, userSig] ∧
    EverySigned C (bytes message) (Apdlcc.signers ledger) [hubSig, userSig]

/-- The same for `multiapdlcc`, under the keys that it reads back. -/
def BothSignedMulti (ledger : Ledger) (args : List String) : Prop :=
  ∃ message recipientSig senderSig s_pubKey r_pubKey,
    args = ["penalty", message, recipientSig, senderSig, s_pubKey, r_pubKey] ∧
      EverySigned C (bytes message)
        (Multiapdlcc.signers ledger (Multiapdlcc.ContractKeyPrefix ++ s_pubKey ++ r_pubKey))
        [recipientSig, senderSig]

variable {C}

theorem everySigned_of_not_overlooks {message : Bytes} {publicKeys signatures : List String}
    (h : ¬ Overlooks C message publicKeys signatures)
    (hverified : verifyAll C message publicKeys signatures = true) :
    EverySigned C message publicKeys signatures :=
  (verifyAll_sound_iff C message publicKeys signatures).mpr h hverified

theorem verifyAll_of_overlooks {message : Bytes} {publicKeys signatures : List String}
    (h : Overlooks C message publicKeys signatures) :
    verifyAll C message publicKeys signatures = true ∧
      ¬ EverySigned C message publicKeys signatures := by
  have hverified : verifyAll C message publicKeys signatures = true :=
    (verifyAll_eq_true C message publicKeys signatures).mpr
      ⟨h.sameLength, h.wellFormed, h.lastVerifies⟩
  refine ⟨hverified, ?_⟩
  intro hsigned
  exact (verifyAll_sound_iff C message publicKeys signatures).mp (fun _ => hsigned) h

/-- A penalty asks for both signatures exactly where the loop overlooks none. -/
theorem penalty_sound_iff (ledger : Ledger) {tx : Tx} (hcall : tx.call = .Invoke)
    {params : List String} (hfn : tx.args = "penalty" :: params) :
    (((Apdlcc.chaincode C).answer ledger tx).1.isSuccess = true → BothSigned C ledger tx.args) ↔
      ¬ ∃ message hubSig userSig, Apdlcc.AsksPenalty (tx.stub ledger) message hubSig userSig ∧
        Overlooks C (bytes message) (Apdlcc.signers ledger) [hubSig, userSig] := by
  rw [Apdlcc.answer_Invoke C ledger hcall, Apdlcc.penalty_success_iff hfn]
  constructor
  · rintro h ⟨message, hubSig, userSig, hasks, hoverlooks⟩
    obtain ⟨hverified, hunsigned⟩ := verifyAll_of_overlooks hoverlooks
    obtain ⟨_, message', hubSig', userSig', hargs', hsigned⟩ :=
      h ⟨message, hubSig, userSig, hasks, hverified⟩
    obtain ⟨rfl, rfl, rfl⟩ := hasks.terms hargs'
    exact hunsigned hsigned
  · rintro h ⟨message, hubSig, userSig, hpenalizes⟩
    obtain ⟨first, hargs⟩ := hpenalizes.args
    refine ⟨first, message, hubSig, userSig, hargs, ?_⟩
    apply everySigned_of_not_overlooks
    · intro hoverlooks
      exact h ⟨message, hubSig, userSig, hpenalizes.toAsksPenalty, hoverlooks⟩
    · exact hpenalizes.verified

theorem penalty_sound_iff_multi (ContractKey : String) (ledger : Ledger) {tx : Tx}
    (hcall : tx.call = .Invoke) {params : List String} (hfn : tx.args = "penalty" :: params) :
    (((Multiapdlcc.chaincode C ContractKey).answer ledger tx).1.isSuccess = true →
        BothSignedMulti C ledger tx.args) ↔
      ¬ ∃ message recipientSig senderSig contractKey,
        Multiapdlcc.AsksPenalty (tx.stub ledger) message recipientSig senderSig contractKey ∧
          Overlooks C (bytes message) (Multiapdlcc.signers ledger contractKey)
            [recipientSig, senderSig] := by
  have hanswer : (Multiapdlcc.chaincode C ContractKey).answer ledger tx =
      execute (Multiapdlcc.Invoke C ContractKey) (tx.stub ledger) :=
    (Multiapdlcc.chaincode C ContractKey).answer_of_Invoke ledger hcall
  rw [hanswer, Multiapdlcc.penalty_success_iff hfn]
  constructor
  · rintro h ⟨message, recipientSig, senderSig, contractKey, hasks, hoverlooks⟩
    obtain ⟨hverified, hunsigned⟩ := verifyAll_of_overlooks hoverlooks
    obtain ⟨message', recipientSig', senderSig', s_pubKey', r_pubKey', hargs', hsigned⟩ :=
      h ⟨message, recipientSig, senderSig, contractKey, hasks, hverified⟩
    obtain ⟨s_pubKey, r_pubKey, rfl, hargs⟩ := hasks.args
    have heq := hargs.symm.trans hargs'
    simp only [List.cons.injEq, true_and, and_true] at heq
    obtain ⟨rfl, rfl, rfl, rfl, rfl⟩ := heq
    exact hunsigned hsigned
  · rintro h ⟨message, recipientSig, senderSig, contractKey, hasks, hverified⟩
    obtain ⟨s_pubKey, r_pubKey, rfl, hargs⟩ := hasks.args
    refine ⟨message, recipientSig, senderSig, s_pubKey, r_pubKey, hargs, ?_⟩
    apply everySigned_of_not_overlooks
    · intro hoverlooks
      exact h ⟨message, recipientSig, senderSig, _, hasks, hoverlooks⟩
    · exact hverified

/-- **When every signature is checked.** The three checks accept only lists
that every party has signed, and a penalty on a reachable ledger goes through
only with both signatures, exactly where the last entry does not cover for
another one. -/
theorem every_signature_checked_iff (C : GoCrypto) (ContractKey : String) :
    (∀ (message : Bytes) (publicKeys signatures : List String),
      ((ECDSASig.verifyMulti C message publicKeys signatures = true →
          EverySigned C message publicKeys signatures) ↔
        ¬ Overlooks C message publicKeys signatures) ∧
      ((Apdlcc.verifySig C message publicKeys signatures = true →
          EverySigned C message publicKeys signatures) ↔
        ¬ Overlooks C message publicKeys signatures) ∧
      ((Multiapdlcc.verifySig C message publicKeys signatures = true →
          EverySigned C message publicKeys signatures) ↔
        ¬ Overlooks C message publicKeys signatures)) ∧
    (∀ (ledger : Ledger) (tx : Tx) (params : List String),
      (Apdlcc.chaincode C).Reachable ledger → tx.call = .Invoke → tx.args = "penalty" :: params →
        ((((Apdlcc.chaincode C).answer ledger tx).1.isSuccess = true →
            BothSigned C ledger tx.args) ↔
          ¬ ∃ message hubSig userSig, Apdlcc.AsksPenalty (tx.stub ledger) message hubSig userSig ∧
            Overlooks C (bytes message) (Apdlcc.signers ledger) [hubSig, userSig])) ∧
    (∀ (ledger : Ledger) (tx : Tx) (params : List String),
      (Multiapdlcc.chaincode C ContractKey).Reachable ledger → tx.call = .Invoke →
        tx.args = "penalty" :: params →
        ((((Multiapdlcc.chaincode C ContractKey).answer ledger tx).1.isSuccess = true →
            BothSignedMulti C ledger tx.args) ↔
          ¬ ∃ message recipientSig senderSig contractKey,
            Multiapdlcc.AsksPenalty (tx.stub ledger) message recipientSig senderSig contractKey ∧
              Overlooks C (bytes message) (Multiapdlcc.signers ledger contractKey)
                [recipientSig, senderSig])) := by
  refine ⟨?_, ?_, ?_⟩
  · intro message publicKeys signatures
    have h := verifyAll_sound_iff C message publicKeys signatures
    exact ⟨h, h, h⟩
  · intro ledger tx params _ hcall hfn
    exact penalty_sound_iff ledger hcall hfn
  · intro ledger tx params _ hcall hfn
    exact penalty_sound_iff_multi ContractKey ledger hcall hfn

theorem every_signature_checked_opened :
    ((((Apdlcc.chaincode byteCrypto).answer Apdlcc.opened
        (Apdlcc.penaltyCall (Apdlcc.signature 65 109) (Apdlcc.signature 66 109))).1.isSuccess =
          true → BothSigned byteCrypto Apdlcc.opened
            (Apdlcc.penaltyCall (Apdlcc.signature 65 109) (Apdlcc.signature 66 109)).args) ↔
      ¬ ∃ message hubSig userSig,
        Apdlcc.AsksPenalty ((Apdlcc.penaltyCall (Apdlcc.signature 65 109)
          (Apdlcc.signature 66 109)).stub Apdlcc.opened) message hubSig userSig ∧
        Overlooks byteCrypto (bytes message) (Apdlcc.signers Apdlcc.opened) [hubSig, userSig]) :=
  (every_signature_checked_iff byteCrypto "contract").2.1 Apdlcc.opened _ _
    Apdlcc.reachable_opened rfl rfl

/-- A text of the right form passes for the signature of A. -/
theorem not_signed_zero :
    ¬ EverySigned byteCrypto (bytes "m") ["A", "B"]
      [Apdlcc.signature 0 0, Apdlcc.signature 66 109] := by
  rintro ⟨-, h⟩
  have hverified := verifyEntry_of_signed byteCrypto (bytes "m") (h 0 _ _ rfl rfl)
  rw [Apdlcc.signature, verifyEntry_bytes "A" 65 rfl] at hverified
  revert hverified
  decide

/-- **A penalty without the owner's signature.** -/
theorem unsigned_penalty_applied :
    (ECDSASig.verifyMulti byteCrypto (bytes "m") ["A", "B"]
        [Apdlcc.signature 0 0, Apdlcc.signature 66 109] = true ∧
      ¬ EverySigned byteCrypto (bytes "m") ["A", "B"]
        [Apdlcc.signature 0 0, Apdlcc.signature 66 109]) ∧
    (Apdlcc.chaincode byteCrypto).Reachable Apdlcc.opened ∧
    ((Apdlcc.chaincode byteCrypto).answer Apdlcc.opened
      (Apdlcc.penaltyCall (Apdlcc.signature 0 0) (Apdlcc.signature 66 109))).1.isSuccess = true ∧
    ¬ BothSigned byteCrypto Apdlcc.opened
      (Apdlcc.penaltyCall (Apdlcc.signature 0 0) (Apdlcc.signature 66 109)).args := by
  have hpenalizes := Apdlcc.penalizes_opened 0 0
  have hsigners : Apdlcc.signers Apdlcc.opened = ["A", "B"] := by
    rw [Apdlcc.signers, Apdlcc.record_opened]
    rfl
  refine ⟨⟨?_, not_signed_zero⟩, Apdlcc.reachable_opened, ?_, ?_⟩
  · have hverified := hpenalizes.verified
    change verifyAll byteCrypto (bytes "m") (Apdlcc.signers Apdlcc.opened) _ = true at hverified
    rwa [hsigners] at hverified
  · rw [Apdlcc.answer_Invoke byteCrypto Apdlcc.opened rfl, Apdlcc.execute_of_penalizes hpenalizes]
    rfl
  · rintro ⟨first, message, hubSig, userSig, hargs, hsigned⟩
    have heq : ["penalty", "penalty", "m", Apdlcc.signature 0 0, Apdlcc.signature 66 109] =
        ["penalty", first, message, hubSig, userSig] := hargs
    simp only [List.cons.injEq, true_and, and_true] at heq
    obtain ⟨-, rfl, rfl, rfl⟩ := heq
    rw [hsigners] at hsigned
    exact not_signed_zero hsigned

/-! ## A signature of the whole message -/

/-- The signature stands somewhere in the lists, beside its key. -/
def Among (publicKeyB64 signature : String) (publicKeys signatures : List String) : Prop :=
  (publicKeyB64, signature) ∈ publicKeys.zip signatures

/-- No check accepts the signature for the message: neither alone nor, wherever it
stands among them, with these. -/
structure Refused (C : GoCrypto) (message : Bytes) (publicKeyB64 rStr sStr : String)
    (publicKeys signatures : List String) : Prop where
  verify : ECDSASig.verify C message publicKeyB64 rStr sStr = false
  verifyMulti : Among publicKeyB64 (rStr ++ "," ++ sStr) publicKeys signatures →
    ECDSASig.verifyMulti C message publicKeys signatures = false
  apdlcc : Among publicKeyB64 (rStr ++ "," ++ sStr) publicKeys signatures →
    Apdlcc.verifySig C message publicKeys signatures = false
  multiapdlcc : Among publicKeyB64 (rStr ++ "," ++ sStr) publicKeys signatures →
    Multiapdlcc.verifySig C message publicKeys signatures = false

/-- The kind of lists in which a signature stands and is not looked at: every entry
has the right form, and it is another one that stands last and verifies. -/
structure Covered (C : GoCrypto) (message : Bytes) (publicKeyB64 signature : String)
    (publicKeys signatures : List String) : Prop where
  among : Among publicKeyB64 signature publicKeys signatures
  sameLength : publicKeys.length = signatures.length
  wellFormed : ∀ entry ∈ publicKeys.zip signatures, WellFormed C message entry
  lastVerifies : ∃ last ∈ (publicKeys.zip signatures).getLast?, last ≠ (publicKeyB64, signature) ∧
    verifyEntry C message last.1 last.2 = some true

/-- Lists with a signature of another message pass only where it is covered. -/
theorem verifyAll_eq_true_iff_covered {C : GoCrypto} (hC : C.Lawful) {message message' : Bytes}
    {publicKeyB64 rStr sStr : String} (h : ECDSASig.Honest C message publicKeyB64 rStr sStr)
    (hne : hashToInt message' ≠ hashToInt message) {publicKeys signatures : List String}
    (hamong : Among publicKeyB64 (rStr ++ "," ++ sStr) publicKeys signatures) :
    verifyAll C message' publicKeys signatures = true ↔
      Covered C message' publicKeyB64 (rStr ++ "," ++ sStr) publicKeys signatures := by
  rw [verifyAll_eq_true]
  constructor
  · rintro ⟨hlength, hwell, last, hlast, hverified⟩
    refine ⟨hamong, hlength, hwell, last, hlast, ?_, hverified⟩
    rintro rfl
    exact hne ((verifyEntry_honest hC h message').mp hverified)
  · rintro ⟨-, hlength, hwell, last, hlast, -, hverified⟩
    exact ⟨hlength, hwell, last, hlast, hverified⟩

/-- **When a signature is bound to its message.** An honest signature of one
message is refused for another, alone and wherever it stands among others, exactly
when their leftmost 32 bytes are different numbers and no other signature stands
last and covers for it. -/
theorem signature_bound_iff {C : GoCrypto} (hC : C.Lawful) {message : Bytes}
    {publicKeyB64 rStr sStr : String} (h : ECDSASig.Honest C message publicKeyB64 rStr sStr)
    (message' : Bytes) (publicKeys signatures : List String) :
    Refused C message' publicKeyB64 rStr sStr publicKeys signatures ↔
      hashToInt message' ≠ hashToInt message ∧
        ¬ Covered C message' publicKeyB64 (rStr ++ "," ++ sStr) publicKeys signatures := by
  constructor
  · intro hrefused
    have hne : hashToInt message' ≠ hashToInt message := by
      intro heq
      have hverified := (ECDSASig.verify_honest hC h message').mpr heq
      rw [hrefused.verify] at hverified
      cases hverified
    refine ⟨hne, ?_⟩
    intro hcovered
    have hverified := (verifyAll_eq_true_iff_covered hC h hne hcovered.among).mpr hcovered
    have hrefuses : verifyAll C message' publicKeys signatures = false :=
      hrefused.verifyMulti hcovered.among
    rw [hrefuses] at hverified
    cases hverified
  · rintro ⟨hne, hcovered⟩
    have hall : Among publicKeyB64 (rStr ++ "," ++ sStr) publicKeys signatures →
        verifyAll C message' publicKeys signatures = false := by
      intro hamong
      apply Bool.eq_false_of_not_eq_true
      rwa [verifyAll_eq_true_iff_covered hC h hne hamong]
    refine ⟨?_, hall, hall, hall⟩
    apply Bool.eq_false_of_not_eq_true
    intro hverified
    exact hne ((ECDSASig.verify_honest hC h message').mp hverified)

/-- The signature of A is the number that was signed. -/
theorem honest_bytes (message : Bytes) :
    ECDSASig.Honest byteCrypto message (String.ofList ['A']) (Itoa 65)
      (Itoa (hashToInt message)) := by
  have hkey : ECDSASig.makePrivateKey byteCrypto (Itoa 65) (String.ofList ['A']) =
      (⟨some (65 : UInt8), some 65⟩, none) :=
    ECDSASig.makePrivateKey_generated byteCrypto_lawful.accepting 65 (65 : UInt8)
  refine ⟨⟨(65 : UInt8), (65 : UInt8), Itoa 65, rfl, ?_⟩⟩
  unfold ECDSASig.sign
  rw [hkey]
  rfl

theorem signature_bound_two :
    Refused byteCrypto [2] (String.ofList ['A']) (Itoa 65) (Itoa (hashToInt [1]))
        [String.ofList ['A']] [Itoa 65 ++ "," ++ Itoa (hashToInt [1])] ↔
      hashToInt [2] ≠ hashToInt [1] ∧
        ¬ Covered byteCrypto [2] (String.ofList ['A']) (Itoa 65 ++ "," ++ Itoa (hashToInt [1]))
          [String.ofList ['A']] [Itoa 65 ++ "," ++ Itoa (hashToInt [1])] :=
  signature_bound_iff byteCrypto_lawful (honest_bytes [1]) [2] _ _

/-- **One signature for two messages** that differ only after 32 bytes. And with
messages that differ at once: before a signature of the second message by B the
signature of the first by A is not looked at. -/
theorem signature_not_bound :
    (List.replicate 32 0 ++ [1] ≠ (List.replicate 32 0 ++ [2] : Bytes) ∧
      ECDSASig.Honest byteCrypto (List.replicate 32 0 ++ [1]) (String.ofList ['A']) (Itoa 65)
        (Itoa 0) ∧
      ECDSASig.verify byteCrypto (List.replicate 32 0 ++ [2]) (String.ofList ['A']) (Itoa 65)
        (Itoa 0) = true) ∧
    ECDSASig.Honest byteCrypto [1] (String.ofList ['A']) (Itoa 65) (Itoa (hashToInt [1])) ∧
      ECDSASig.verifyMulti byteCrypto [2] [String.ofList ['A'], String.ofList ['B']]
        [Itoa 65 ++ "," ++ Itoa (hashToInt [1]), Itoa 66 ++ "," ++ Itoa (hashToInt [2])] =
          true := by
  refine ⟨⟨by decide, honest_bytes (List.replicate 32 0 ++ [1]), ?_⟩, honest_bytes [1], ?_⟩
  · exact (ECDSASig.verify_honest byteCrypto_lawful
      (honest_bytes (List.replicate 32 0 ++ [1])) _).mpr rfl
  · refine (verifyAll_pair byteCrypto [2] _ _ _ _).mpr ⟨?_, ?_⟩
    · rw [WellFormed, verifyEntry_bytes (String.ofList ['A']) 65 rfl]
      rfl
    · rw [verifyEntry_bytes (String.ofList ['B']) 66 rfl]
      decide

/-! ## Signatures of several parties -/

/-- The text is a signature of the message as the tool prints it, made with the
key that the tool made for the public key. -/
def ToolSigned (C : GoCrypto) (message : Bytes) (publicKeyB64 signature : String) : Prop :=
  ∃ rStr sStr, ECDSASig.Honest C message publicKeyB64 rStr sStr ∧
    signature = rStr ++ "," ++ sStr

theorem verifyEntry_of_toolSigned {C : GoCrypto} (hC : C.Accepting) {message : Bytes}
    {publicKeyB64 signature : String} (h : ToolSigned C message publicKeyB64 signature) :
    verifyEntry C message publicKeyB64 signature = some true := by
  obtain ⟨rStr, sStr, hhonest, rfl⟩ := h
  exact verifyEntry_signed hC hhonest

theorem verifyAll_of_toolSigned {C : GoCrypto} (hC : C.Accepting) {message : Bytes}
    {publicKeys signatures : List String} (hne : publicKeys ≠ [])
    (h : List.Forall₂ (ToolSigned C message) publicKeys signatures) :
    verifyAll C message publicKeys signatures = true := by
  obtain ⟨hlength, hzip⟩ := List.forall₂_iff_zip.mp h
  have hsigned : ∀ entry ∈ publicKeys.zip signatures,
      verifyEntry C message entry.1 entry.2 = some true := by
    rintro ⟨publicKeyB64, signature⟩ hentry
    exact verifyEntry_of_toolSigned hC (hzip hentry)
  have hzipne : publicKeys.zip signatures ≠ [] := by
    intro hnil
    rcases List.zip_eq_nil_iff.mp hnil with hkeys | hsignatures
    · exact hne hkeys
    · rw [hsignatures, List.length_nil] at hlength
      exact hne (List.length_eq_zero_iff.mp hlength)
  rw [verifyAll_eq_true]
  refine ⟨hlength, ?_, (publicKeys.zip signatures).getLast hzipne, ?_, ?_⟩
  · intro entry hentry
    rw [WellFormed, hsigned entry hentry]
    rfl
  · rw [List.getLast?_eq_some_getLast hzipne]
    rfl
  · exact hsigned _ (List.getLast_mem hzipne)

/-- **What the tool signs the chaincodes accept**, for any number of parties. -/
theorem tool_signatures_accepted {C : GoCrypto} (hC : C.Accepting) (message : Bytes)
    {publicKeys signatures : List String} (hne : publicKeys ≠ [])
    (h : List.Forall₂ (ToolSigned C message) publicKeys signatures) :
    ECDSASig.verifyMulti C message publicKeys signatures = true ∧
      Apdlcc.verifySig C message publicKeys signatures = true ∧
      Multiapdlcc.verifySig C message publicKeys signatures = true :=
  ⟨verifyAll_of_toolSigned hC hne h, verifyAll_of_toolSigned hC hne h,
    verifyAll_of_toolSigned hC hne h⟩

theorem toolSigned_bytes (message : Bytes) :
    ToolSigned byteCrypto message (String.ofList ['A'])
      (Itoa 65 ++ "," ++ Itoa (hashToInt message)) :=
  ⟨_, _, honest_bytes message, rfl⟩

/-- A signs twice. -/
theorem tool_signatures_accepted_two :
    ECDSASig.verifyMulti byteCrypto [1] [String.ofList ['A'], String.ofList ['A']]
        [Itoa 65 ++ "," ++ Itoa (hashToInt [1]), Itoa 65 ++ "," ++ Itoa (hashToInt [1])] = true ∧
      Apdlcc.verifySig byteCrypto [1] [String.ofList ['A'], String.ofList ['A']]
        [Itoa 65 ++ "," ++ Itoa (hashToInt [1]), Itoa 65 ++ "," ++ Itoa (hashToInt [1])] = true ∧
      Multiapdlcc.verifySig byteCrypto [1] [String.ofList ['A'], String.ofList ['A']]
        [Itoa 65 ++ "," ++ Itoa (hashToInt [1]), Itoa 65 ++ "," ++ Itoa (hashToInt [1])] = true :=
  tool_signatures_accepted byteCrypto_lawful.accepting [1] (List.cons_ne_nil _ _)
    (.cons (toolSigned_bytes [1]) (.cons (toolSigned_bytes [1]) .nil))

end Pepal.Chain

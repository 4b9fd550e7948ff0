import Pepal.Software.SenderService

/-!
# The texts of a contract at its clients

The sender service (`convert_to_string`, `json.loads`) and the web UI
(`returnJSON`) decode the payload of `get_status` alike: each byte becomes a
character of its own, and the text is read as JSON. The payload is UTF-8, so
what is above ASCII comes out as several characters. The two line separators
come out right: Go writes them as escapes.
-/

namespace Pepal.Software

open Chain (APDL Stub Tx Ledger GoCrypto byteCrypto emptyLedger encodeString execute)
open Chain.Apdlcc (ContractKey Requests chaincode request requested)
open Json (Value mapText rereadText isLineSeparator ofByte)
open SenderService (subscript convert_to_string rereadUser)

/-! ## The decoders -/

/-- `obj['payload']['data']` -/
def payloadData (result : Option Value) : Option Value := do
  subscript (← subscript (← result) "payload") "data"

/-- `json.loads(convert_to_string(data))` -/
def SenderService.loads (data : Value) : Option Value := do
  Json.parse (← convert_to_string data)

namespace WebUI

/-- `String.fromCharCode(v)`: the 16 low bits are a code unit. Surrogates and what
is no integer are left out. -/
def fromCharCode : Value → Option Char
  | .num n =>
      match Numeral.ofDecimal n.literal with
      | some k =>
          let unit := (k % 2 ^ 16).toNat
          if unit.isValidChar then some (Char.ofNat unit) else none
      | none => none
  | _ => none

def returnJSON (byteArray : Value) : Option Value :=
  match byteArray with
  | .arr items => do Json.parse (← items.mapM fromCharCode)
  | _ => none

theorem fromCharCode_number (b : UInt8) : fromCharCode (Rest.number b.toNat) = some (ofByte b) := by
  have hb : b.toNat < 256 := b.toNat_lt
  have hread : Numeral.ofDecimal (Json.Number.ofInt b.toNat).literal = some (b.toNat : ℤ) :=
    Numeral.ofDecimal_decimal (b.toNat : ℤ)
  have hunit : ((b.toNat : ℤ) % 2 ^ 16).toNat = b.toNat := by
    rw [Int.emod_eq_of_lt (Int.natCast_nonneg _) (by omega), Int.toNat_natCast]
  have hvalid : b.toNat.isValidChar := Or.inl (by omega)
  unfold fromCharCode Rest.number
  simp only [hread, hunit, if_pos hvalid]
  rfl

/-- Both decoders make the same of a list of bytes. -/
theorem returnJSON_data (data : List UInt8) :
    returnJSON (.arr (data.map fun b => Rest.number b.toNat)) = Json.parse (data.map ofByte) := by
  have hchars : (data.map fun b => Rest.number b.toNat).mapM fromCharCode =
      some (data.map ofByte) :=
    Fallible.mapM_map_of_some fun b _ => fromCharCode_number b
  unfold returnJSON
  simp only [hchars, Option.bind_eq_bind, Option.bind_some]

end WebUI

theorem SenderService.loads_data (data : List UInt8) :
    loads (.arr (data.map fun b => Rest.number b.toNat)) = Json.parse (data.map ofByte) := by
  unfold loads
  simp only [SenderService.convert_to_string_data, Option.bind_eq_bind, Option.bind_some]

/-! ## What is decoded -/

/-- A decoded contract has these keys of the parties and this address of the
user. -/
def Gives (contract : Option Value) (s r ip port : String) : Prop :=
  ∃ v owner user, contract = some v ∧ subscript v "SoftwareOwner" = some owner ∧
    subscript v "SoftwareUser" = some user ∧ subscript owner "PubKey" = some (encodeString s) ∧
    subscript user "PubKey" = some (encodeString r) ∧
    subscript user "IPAddress" = some (encodeString ip) ∧
    subscript user "Port" = some (encodeString port)

/-- Both clients get these texts out of the answer. -/
def Survives (result : Option Value) (s r ip port : String) : Prop :=
  ∃ data, payloadData result = some data ∧ Gives (SenderService.loads data) s r ip port ∧
    Gives (WebUI.returnJSON data) s r ip port

/-- The texts of a record that come from the request. -/
def texts (a : APDL) : List String :=
  [a.SoftwareOwner.PubKey, a.SoftwareUser.PubKey, a.SoftwareUser.IPAddress, a.SoftwareUser.Port]

/-- ASCII, and the characters above it that are sent as escapes. -/
def PlainText (text : String) : Prop :=
  ∀ c ∈ text.toList, c.toNat < 128 ∨ isLineSeparator c = true

theorem str_eq_encodeString {text : String} :
    some (Value.str (rereadText text.toList)) = some (encodeString text) ↔ PlainText text := by
  rw [Option.some.injEq, encodeString, Value.str.injEq, Json.rereadText_eq_iff]
  exact Iff.rfl

theorem forall_texts {a : APDL} {P : String → Prop} :
    (∀ text ∈ texts a, P text) ↔ P a.SoftwareOwner.PubKey ∧ P a.SoftwareUser.PubKey ∧
      P a.SoftwareUser.IPAddress ∧ P a.SoftwareUser.Port := by
  simp only [texts, List.mem_cons, List.not_mem_nil, or_false, forall_eq_or_imp, forall_eq]

/-- A misread record has its texts where they are plain. -/
theorem gives_misread (a : APDL) :
    Gives (some (mapText rereadText (a.toJson true))) a.SoftwareOwner.PubKey a.SoftwareUser.PubKey
        a.SoftwareUser.IPAddress a.SoftwareUser.Port ↔ ∀ text ∈ texts a, PlainText text := by
  have howner : subscript (mapText rereadText (a.toJson true)) "SoftwareOwner" =
      some (mapText rereadText (a.SoftwareOwner.toJson true)) := rfl
  have hownerKey : subscript (mapText rereadText (a.SoftwareOwner.toJson true)) "PubKey" =
      some (.str (rereadText a.SoftwareOwner.PubKey.toList)) := rfl
  have huserKey : subscript (rereadUser a) "PubKey" =
      some (.str (rereadText a.SoftwareUser.PubKey.toList)) := rfl
  rw [forall_texts]
  constructor
  · rintro ⟨v, owner, user, ⟨⟩, hv, hv', hkey, hkey', hip, hport⟩
    cases howner.symm.trans hv
    cases (SenderService.subscript_user a).symm.trans hv'
    exact ⟨str_eq_encodeString.mp (hownerKey.symm.trans hkey),
      str_eq_encodeString.mp (huserKey.symm.trans hkey'),
      str_eq_encodeString.mp ((SenderService.subscript_IPAddress a).symm.trans hip),
      str_eq_encodeString.mp ((SenderService.subscript_Port a).symm.trans hport)⟩
  · rintro ⟨hkey, hkey', hip, hport⟩
    exact ⟨_, _, _, rfl, howner, SenderService.subscript_user a,
      hownerKey.trans (str_eq_encodeString.mpr hkey),
      huserKey.trans (str_eq_encodeString.mpr hkey'),
      (SenderService.subscript_IPAddress a).trans (str_eq_encodeString.mpr hip),
      (SenderService.subscript_Port a).trans (str_eq_encodeString.mpr hport)⟩

/-- The payload of an answer with the text of a record. -/
theorem survives_success {a : APDL} {contract : String} (h : Chain.Marshal true a = some contract) :
    Survives (some (Rest.success contract).toJson) a.SoftwareOwner.PubKey a.SoftwareUser.PubKey
        a.SoftwareUser.IPAddress a.SoftwareUser.Port ↔ ∀ text ∈ texts a, PlainText text := by
  have hdata : payloadData (some (Rest.success contract).toJson) =
      some (.arr ((Chain.bytes contract).map fun b => Rest.number b.toNat)) := by
    unfold payloadData
    simp only [Option.bind_eq_bind, Option.bind_some, SenderService.subscript_payload]
    rfl
  unfold Survives
  rw [hdata]
  constructor
  · rintro ⟨data, ⟨⟩, hservice, -⟩
    rwa [SenderService.loads_data, SenderService.parse_payload h, gives_misread] at hservice
  · intro hplain
    have hgives := (gives_misread a).mpr hplain
    rw [← SenderService.parse_payload h] at hgives
    refine ⟨_, rfl, ?_, ?_⟩
    · rwa [SenderService.loads_data]
    · rwa [WebUI.returnJSON_data]

theorem send_of_answers {stub : Stub} {payload : String} {n : Rest.Network}
    (hread : (execute Chain.Apdlcc.get_status stub).1 = .Success payload)
    (hanswers : n.Answers payload) (username : String) :
    Rest.send (Rest.outcome username n) = some (Rest.success (stub.state ContractKey)).toJson := by
  rw [Rest.outcome_of_answers hanswers, Rest.send]
  rw [Chain.Apdlcc.execute_get_status] at hread
  split at hread
  · cases hread
  · cases hread
    rfl

/-! ## The texts of a request -/

/-- The contract of a request with these texts is on the ledger, in any status. -/
def Standing (ledger : Ledger) (s r ip port : String) : Prop :=
  ∃ status dt amount, Chain.Marshal true { requested s r ip port dt amount with Status := status } =
    some (ledger ContractKey)

theorem standing_of_request (C : GoCrypto) {ledger : Ledger} {tx : Tx} (hcall : tx.call = .Invoke)
    {s r ip port : String} {dt : Chain.Time} {amount : ℤ}
    (h : Requests (tx.stub ledger) s r ip port dt amount) :
    Standing ((chaincode C).next ledger tx) s r ip port := by
  rw [Chain.Apdlcc.next_of_requests hcall h]
  exact ⟨"download_requested", dt, amount, Chain.Apdlcc.text_request h⟩

/-- **The texts of a request survive the way to both clients where they are
ASCII**, up to the line separators. -/
theorem texts_survive_iff {s r ip port : String} {stub : Stub} {payload : String}
    {n : Rest.Network} (hstanding : Standing stub.state s r ip port)
    (hread : (execute Chain.Apdlcc.get_status stub).1 = .Success payload)
    (hanswers : n.Answers payload) (username : String) :
    Survives (Rest.send (Rest.outcome username n)) s r ip port ↔
      ∀ text ∈ [s, r, ip, port], PlainText text := by
  obtain ⟨status, dt, amount, hrecord⟩ := hstanding
  rw [send_of_answers hread hanswers]
  exact survives_success hrecord

/-! ## A name with a letter above ASCII -/

/-- The ledger after a request for this key of the user. -/
def openedFor (user : String) : Ledger :=
  (chaincode byteCrypto).next emptyLedger (request "A" user "100")

/-- The call that reads a ledger. -/
def readCall (ledger : Ledger) : Stub where
  state := ledger
  args := ["get_status", "get_status"]
  env := Chain.Apdlcc.calm

theorem standing_openedFor (user : String) :
    Standing (openedFor user) "A" user "10.0.0.2" "8080" := by
  have hamount : Chain.Atoi "100" = (100, false) := by decide
  exact standing_of_request byteCrypto rfl
    (Chain.Apdlcc.requests_request emptyLedger "A" user hamount (by decide))

theorem read_readCall (ledger : Ledger) :
    (execute Chain.Apdlcc.get_status (readCall ledger)).1 = .Success (ledger ContractKey) := rfl

theorem ascii_survives :
    Survives (Rest.send (Rest.outcome "hub"
      (SenderService.onePeer (openedFor "B" ContractKey)))) "A" "B" "10.0.0.2" "8080" := by
  have hstanding : Standing (readCall (openedFor "B")).state "A" "B" "10.0.0.2" "8080" :=
    standing_openedFor "B"
  apply (texts_survive_iff hstanding (read_readCall (openedFor "B"))
    (SenderService.onePeer_answers _) "hub").mpr
  intro text htext c hc
  have hascii : (["A", "B", "10.0.0.2", "8080"].all fun text =>
      text.toList.all fun c => decide (c.toNat < 128)) = true := rfl
  have hall := List.all_eq_true.mp (List.all_eq_true.mp hascii text htext) c hc
  exact Or.inl (of_decide_eq_true hall)

/-- Both clients take the key for two other letters. -/
theorem umlaut_changed :
    ¬ Survives (Rest.send (Rest.outcome "hub"
        (SenderService.onePeer (openedFor "ü" ContractKey)))) "A" "ü" "10.0.0.2" "8080" ∧
      rereadText "ü".toList = ['Ã', '¼'] := by
  constructor
  · obtain ⟨status, dt, amount, hrecord⟩ := standing_openedFor "ü"
    rw [send_of_answers (read_readCall (openedFor "ü")) (SenderService.onePeer_answers _) "hub"]
    intro h
    have hplain := (survives_success hrecord).mp h "ü" (List.mem_cons_of_mem _ List.mem_cons_self)
    rcases hplain 'ü' (by decide) with hlow | hsep
    · exact absurd hlow (by decide)
    · exact absurd hsep (by decide)
  · decide

end Pepal.Software

import Pepal.Lib.Fallible
import Pepal.Lib.Latin1
import Pepal.Chain.Transactions
import Pepal.Rest.InvokeTransaction

/-!
# The sender service

`senderService.py`, as far as a download request goes, and the way a contract
takes to it: `get_status` of the chaincode answers with the text on the ledger,
the REST layer sends that as a list of bytes, the service takes each byte for a
character and decodes the contract. `none` stands for an exception, `print` is
left out.

The service connects to a fixed address and does not look at the status of the
contract; the lines that connect to the user's address are a comment.
-/

namespace Pepal

/-! ## What the REST layer sends -/

namespace Rest

open Json (Number)

def member (key : String) (v : Json.Value) : List Char × Json.Value := (key.toList, v)

def number (n : ℤ) : Json.Value := .num (Number.ofInt n)

/-- A `Buffer` is sent as the list of its bytes. -/
def Payload.toJson : Payload → Json.Value
  | .buffer data =>
      .obj [member "type" (.str "Buffer".toList),
        member "data" (.arr (data.map fun b => number b.toNat))]
  | .braces => .obj []

/-- A member that is undefined is not sent. -/
def Response.toJson (r : Response) : Json.Value :=
  let message := match r.message with
    | some text => [member "message" (.str text.toList)]
    | none => []
  .obj (member "status" (number r.status) :: message ++ [member "payload" r.payload.toJson])

/-- `res.send(message)`, after what `invokeChaincode` settles to. Of null nothing
is sent, and after a rejection there is no answer. -/
def send : Except Thrown (Option Response) → Option Json.Value
  | .ok (some message) => some message.toJson
  | _ => none

end Rest

namespace Software.SenderService

open Json (Value)

/-! ## Python -/

/-- `key in v` -/
def contains (key : String) : Value → Option Bool
  | .obj members => some (members.any fun m => m.1 == key.toList)
  | .arr items => some (items.any fun
      | .str text => text == key.toList
      | _ => false)
  | .str text => some (text.tails.any key.toList.isPrefixOf)
  | _ => none

/-- `v[key]`; of several members the last counts. -/
def subscript (v : Value) (key : String) : Option Value :=
  match v with
  | .obj members => (members.reverse.find? fun m => m.1 == key.toList).map Prod.snd
  | _ => none

/-- `chr(v)`; surrogates are left out. -/
def chr : Value → Option Char
  | .num n =>
      match Numeral.ofDecimal n.literal with
      | some k => if 0 ≤ k ∧ k.toNat.isValidChar then some (Char.ofNat k.toNat) else none
      | none => none
  | .bool b => some (if b then '\x01' else '\x00')
  | _ => none

def convert_to_string (array : Value) : Option (List Char) :=
  match array with
  | .arr items => items.mapM chr
  | .str [] => some []
  | .obj [] => some []
  | _ => none

def isSpace (c : Char) : Bool :=
  c.toNat ∈ [9, 10, 11, 12, 13, 32, 133, 160, 5760, 8232, 8233, 8239, 8287, 12288] ||
    decide (8192 ≤ c.toNat ∧ c.toNat ≤ 8202)

def strip (text : List Char) : List Char :=
  ((text.dropWhile isSpace).reverse.dropWhile isSpace).reverse

/-- Digits, with single underscores between them. -/
def digits (value : ℕ) (afterDigit : Bool) : List Char → Option ℕ
  | [] => if afterDigit then some value else none
  | c :: text =>
      if c.isDigit then digits (10 * value + (c.toNat - 48)) true text
      else if c = '_' ∧ afterDigit = true then digits value false text
      else none

/-- `int(text)`; digits of other scripts cannot come out of a payload. -/
def int (text : List Char) : Option ℤ :=
  match strip text with
  | '-' :: rest => (digits 0 false rest).map fun n : ℕ => -(n : ℤ)
  | '+' :: rest => (digits 0 false rest).map fun n : ℕ => (n : ℤ)
  | rest => (digits 0 false rest).map fun n : ℕ => (n : ℤ)

/-- `int(v)`; the members of a contract are texts. -/
def intOf : Value → Option ℤ
  | .str text => int text
  | _ => none

/-! ## The service -/

/-- From the answer to the REST call, `none` where there is none or it is no
JSON: whether the transaction is valid, and the address of the user. What is
valid is any contract. -/
def get_status (result : Option Value) : Option (Bool × Value × ℤ) := do
  let obj ← result
  if (← contains "payload" obj) = false then some (false, .str ['0'], 0)
  else do
    let data ← subscript (← subscript obj "payload") "data"
    let decoded_string ← convert_to_string data
    let contract ← Json.parse decoded_string
    let _ ← subscript (← subscript contract "SoftwareUser") "IPAddress"
    if (← contains "SoftwareUser" contract) = false then some (false, .str ['0'], 0)
    else do
      let user ← subscript contract "SoftwareUser"
      some (true, ← subscript user "IPAddress", ← intOf (← subscript user "Port"))

inductive Action where
  | connect (host : String) (port : ℤ)
  | execute
deriving DecidableEq

/-- Whether the connection is made, and whether the transfer over it returns. -/
structure World where
  connects : Bool
  returns : Bool

/-- What is done, and whether it returns. -/
def beginOT (w : World) (_user_ip : Value) (_user_port : ℤ) : List Action × Bool :=
  let HOST := "127.0.0.1"
  let PORT := 6000
  if w.connects then ([.connect HOST PORT, .execute], w.returns) else ([.connect HOST PORT], false)

/-- What is done, and the page that is answered. -/
def download_request (w : World) (req_data : Value) (result : Option Value) :
    List Action × Option String :=
  match contains "txid" req_data with
  | none => ([], none)
  | some false => ([], some "no txid in POST request")
  | some true =>
      match subscript req_data "txid", get_status result with
      | some _, some (true, user_ip, user_port) =>
          let (actions, returns) := beginOT w user_ip user_port
          (actions, if returns then some "<h1>OT completed</h1>" else none)
      | some _, some (false, _, _) => ([], some "<h1>txid invalid</h1>")
      | _, _ => ([], none)

/-! ## What comes out of the payload -/

open Json (misread reread rereadText mapText ofByte)

theorem chr_number (b : UInt8) : chr (Rest.number b.toNat) = some (ofByte b) := by
  have hb : b.toNat < 256 := b.toNat_lt
  have hvalid : (0 : ℤ) ≤ b.toNat ∧ (b.toNat : ℤ).toNat.isValidChar :=
    ⟨Int.natCast_nonneg _, Or.inl (by omega)⟩
  have hread : Numeral.ofDecimal (Json.Number.ofInt b.toNat).literal = some (b.toNat : ℤ) :=
    Numeral.ofDecimal_decimal (b.toNat : ℤ)
  unfold chr Rest.number
  simp only [hread, if_pos hvalid]
  rfl

/-- The bytes come back one a character. -/
theorem convert_to_string_data (data : List UInt8) :
    convert_to_string (.arr (data.map fun b => Rest.number b.toNat)) = some (data.map ofByte) := by
  show (data.map fun b => Rest.number b.toNat).mapM chr = _
  exact Fallible.mapM_map_of_some fun b _ => chr_number b

theorem map_ofByte_bytes (s : String) : (Chain.bytes s).map ofByte = s.toList.flatMap misread :=
  List.map_flatMap

/-- What is decoded is the record with its strings misread. -/
theorem parse_payload {a : Chain.APDL} {contract : String}
    (h : Chain.Marshal true a = some contract) :
    Json.parse ((Chain.bytes contract).map ofByte) = some (mapText rereadText (a.toJson true)) := by
  have hprint : contract.toList = Json.print (a.toJson true) := by
    unfold Chain.Marshal at h
    split at h
    · injection h with h
      rw [← h, String.toList_ofList]
    · cases h
  rw [map_ofByte_bytes, hprint, Json.parse_misread]

theorem contains_payload (r : Rest.Response) : contains "payload" r.toJson = some true := by
  rcases r with ⟨status, message, payload⟩
  cases message with
  | none => rfl
  | some text => rfl

theorem subscript_payload (r : Rest.Response) :
    subscript r.toJson "payload" = some r.payload.toJson := by
  rcases r with ⟨status, message, payload⟩
  cases message with
  | none => rfl
  | some text => rfl

theorem subscript_data (data : List UInt8) :
    subscript (Rest.Payload.buffer data).toJson "data" =
      some (.arr (data.map fun b => Rest.number b.toNat)) := rfl

/-- The user of a misread record. -/
def rereadUser (a : Chain.APDL) : Value := mapText rereadText (a.SoftwareUser.toJson true)

theorem subscript_user (a : Chain.APDL) :
    subscript (mapText rereadText (a.toJson true)) "SoftwareUser" = some (rereadUser a) := rfl

theorem contains_user (a : Chain.APDL) :
    contains "SoftwareUser" (mapText rereadText (a.toJson true)) = some true := rfl

theorem subscript_IPAddress (a : Chain.APDL) :
    subscript (rereadUser a) "IPAddress" =
      some (.str (rereadText a.SoftwareUser.IPAddress.toList)) := rfl

theorem subscript_Port (a : Chain.APDL) :
    subscript (rereadUser a) "Port" = some (.str (rereadText a.SoftwareUser.Port.toList)) := rfl

/-- A contract is valid if its port is an integer, whatever its status; else the
service raises. -/
theorem get_status_of_record {a : Chain.APDL} {contract : String}
    (h : Chain.Marshal true a = some contract) {r : Rest.Response}
    (hpayload : r.payload = .buffer (Chain.bytes contract)) :
    get_status (some r.toJson) =
      (int (rereadText a.SoftwareUser.Port.toList)).map fun port =>
        (true, .str (rereadText a.SoftwareUser.IPAddress.toList), port) := by
  simp only [get_status, Option.bind_eq_bind, Option.bind_some, contains_payload,
    subscript_payload, hpayload, subscript_data, convert_to_string_data, parse_payload h,
    subscript_user, contains_user, subscript_IPAddress, subscript_Port, intOf]
  cases int (rereadText a.SoftwareUser.Port.toList) with
  | none => rfl
  | some port => rfl

/-! ## Which texts are integers -/

/-- What `int` reads is made of. -/
def isIntChar (c : Char) : Bool := isSpace c || c.isDigit || c == '_' || c == '+' || c == '-'

theorem mem_dropWhile {text : List Char} {c : Char} (hc : c ∈ text) :
    isSpace c = true ∨ c ∈ text.dropWhile isSpace := by
  rw [← List.takeWhile_append_dropWhile (p := isSpace) (l := text), List.mem_append] at hc
  exact hc.imp_left List.mem_takeWhile_imp

theorem mem_strip {text : List Char} {c : Char} (hc : c ∈ text) :
    isSpace c = true ∨ c ∈ strip text := by
  rcases mem_dropWhile hc with hspace | hc
  · exact Or.inl hspace
  · unfold strip
    rw [List.mem_reverse]
    exact mem_dropWhile (List.mem_reverse.mpr hc)

theorem digits_chars {value : ℕ} {afterDigit : Bool} {text : List Char} {n : ℕ}
    (h : digits value afterDigit text = some n) : ∀ c ∈ text, c.isDigit = true ∨ c = '_' := by
  induction text generalizing value afterDigit with
  | nil => exact fun c hc => absurd hc List.not_mem_nil
  | cons d text ih =>
      intro c hc
      rw [digits] at h
      split at h
      · rename_i hd
        rcases List.mem_cons.mp hc with rfl | hc
        · exact Or.inl hd
        · exact ih h c hc
      · split at h
        · rename_i hunderscore
          rcases List.mem_cons.mp hc with rfl | hc
          · exact Or.inr hunderscore.1
          · exact ih h c hc
        · cases h

theorem isIntChar_of_int {text : List Char} {k : ℤ} (h : int text = some k) :
    ∀ c ∈ text, isIntChar c = true := by
  have hdigits : ∀ {rest : List Char} {n : ℕ}, digits 0 false rest = some n →
      ∀ c ∈ rest, isIntChar c = true := by
    intro rest n hn c hc
    unfold isIntChar
    rcases digits_chars hn c hc with hdigit | rfl
    · simp [hdigit]
    · simp
  have hstrip : ∀ c ∈ strip text, isIntChar c = true := by
    intro c hc
    unfold int at h
    split at h
    · rename_i rest heq
      obtain ⟨n, hn, -⟩ := Option.map_eq_some_iff.mp h
      rcases List.mem_cons.mp (heq ▸ hc) with rfl | hc
      · rfl
      · exact hdigits hn c hc
    · rename_i rest heq
      obtain ⟨n, hn, -⟩ := Option.map_eq_some_iff.mp h
      rcases List.mem_cons.mp (heq ▸ hc) with rfl | hc
      · rfl
      · exact hdigits hn c hc
    · obtain ⟨n, hn, -⟩ := Option.map_eq_some_iff.mp h
      exact hdigits hn c hc
  intro c hc
  rcases mem_strip hc with hspace | hc
  · unfold isIntChar
    rw [hspace]
    rfl
  · exact hstrip c hc

theorem isIntChar_bound {c : Char} (h : isIntChar c = true) : c.toNat < 192 ∨ 256 ≤ c.toNat := by
  unfold isIntChar isSpace at h
  simp only [Bool.or_eq_true, decide_eq_true_eq, beq_iff_eq, List.mem_cons, List.not_mem_nil,
    or_false] at h
  rcases h with ((((hspace | hrange) | hdigit) | rfl) | rfl) | rfl
  · omega
  · omega
  · have hbare : Json.isBare c = true := by simp [Json.isBare, Char.isAlphanum, hdigit]
    have hlow := Json.isBare_lt hbare
    omega
  · exact Or.inl (by decide)
  · exact Or.inl (by decide)
  · exact Or.inl (by decide)

/-- A text that comes out as an integer was that integer before. -/
theorem int_of_reread {text : List Char} {k : ℤ} (h : int (rereadText text) = some k) :
    int text = some k := by
  have hsame : rereadText text = text := by
    apply Json.rereadText_eq
    intro c hc
    by_contra hc'
    rw [not_or, not_lt, Bool.not_eq_true] at hc'
    obtain ⟨hge, hsep⟩ := hc'
    obtain ⟨⟨x, hx, hfirst⟩, hall⟩ := Json.misread_of_ge hge
    have hmem : x ∈ rereadText text := by
      refine List.mem_flatMap.mpr ⟨c, hc, ?_⟩
      unfold reread
      rwa [hsep, if_neg Bool.false_ne_true]
    have hbound := isIntChar_bound (isIntChar_of_int h x hmem)
    have hlt := (hall x hx).2
    omega
  rwa [hsame] at h

end Software.SenderService

/-! ## From the ledger to the service -/

namespace Rest

/-- How a peer answers for a chaincode that succeeds. -/
def success (payload : String) : Response :=
  { status := 200, message := some "", payload := .buffer (Chain.bytes payload) }

/-- The peers answer with this payload, and there are event hubs to listen to. -/
structure Network.Answers (n : Network) (payload : String) : Prop where
  enrolled : n.getRegisteredUsers = .ok ()
  endorsed : ∃ results, n.sendTransactionProposal = .ok (.response (success payload) :: results) ∧
    ∀ p ∈ results, p.good = true
  hubs : ∃ eventhubs, n.newEventHubs = .ok eventhubs

theorem outcome_of_answers {n : Network} {payload : String} (h : n.Answers payload)
    (username : String) : outcome username n = .ok (some (success payload)) := by
  obtain ⟨hu, ⟨results, hp, hgood⟩, eventhubs, hhubs⟩ := h
  refine outcome_good hu hp (List.all_eq_true.mpr ?_) hhubs
  rintro p hp'
  rcases List.mem_cons.mp hp' with rfl | hp'
  · rfl
  · exact hgood p hp'

end Rest

namespace Software.SenderService

open Chain (APDL Stub execute)
open Json (Value rereadText)

/-- A `POST` with a `txid`. -/
def HasTxid (req_data : Value) : Prop :=
  ∃ members, req_data = .obj members ∧ contains "txid" req_data = some true

/-- The transfer is begun for an open contract only, and towards its user. -/
def Guarded (a : APDL) (actions : List Action) : Prop :=
  ∀ host port, Action.connect host port ∈ actions →
    a.Status = "download_requested" ∧ host = a.SoftwareUser.IPAddress ∧
      int a.SoftwareUser.Port.toList = some port

theorem subscript_txid {req_data : Value} (h : HasTxid req_data) :
    ∃ txid, subscript req_data "txid" = some txid := by
  obtain ⟨members, rfl, hcontains⟩ := h
  injection hcontains with hany
  obtain ⟨m, hm, hkey⟩ := List.any_eq_true.mp hany
  have hfound : (members.reverse.find? fun m => m.1 == "txid".toList).isSome = true :=
    List.find?_isSome.mpr ⟨m, List.mem_reverse.mpr hm, hkey⟩
  obtain ⟨found, hfound⟩ := Option.isSome_iff_exists.mp hfound
  exact ⟨found.2, by rw [subscript, hfound, Option.map_some]⟩

section Request

variable {w : World} {req_data : Value} {result : Option Value}

theorem download_request_raises (htxid : HasTxid req_data) (h : get_status result = none) :
    download_request w req_data result = ([], none) := by
  obtain ⟨txid, hsub⟩ := subscript_txid htxid
  obtain ⟨members, -, hcontains⟩ := htxid
  unfold download_request
  simp only [hcontains, hsub, h]

theorem download_request_valid {ip : Value} {port : ℤ} (htxid : HasTxid req_data)
    (h : get_status result = some (true, ip, port)) :
    (download_request w req_data result).1 = (beginOT w ip port).1 := by
  obtain ⟨txid, hsub⟩ := subscript_txid htxid
  obtain ⟨members, -, hcontains⟩ := htxid
  unfold download_request
  simp only [hcontains, hsub, h]

end Request

/-- Whatever the user's address is. -/
theorem connect_mem_beginOT (w : World) (ip : Value) (port : ℤ) (host : String) (target : ℤ) :
    Action.connect host target ∈ (beginOT w ip port).1 ↔ host = "127.0.0.1" ∧ target = 6000 := by
  unfold beginOT
  cases w.connects with
  | true => simp
  | false => simp

/-- What the service makes of the contract on the ledger. -/
theorem get_status_of_answers {a : APDL} {stub : Stub} {payload : String} {n : Rest.Network}
    (hrecord : Chain.Marshal true a = some (stub.state Chain.Apdlcc.ContractKey))
    (hread : (execute Chain.Apdlcc.get_status stub).1 = .Success payload)
    (hanswers : n.Answers payload) (username : String) :
    get_status (Rest.send (Rest.outcome username n)) =
      (int (rereadText a.SoftwareUser.Port.toList)).map fun port =>
        (true, .str (rereadText a.SoftwareUser.IPAddress.toList), port) := by
  have hpayload : payload = stub.state Chain.Apdlcc.ContractKey := by
    rw [Chain.Apdlcc.execute_get_status] at hread
    split at hread
    · cases hread
    · injection hread with hread
      exact hread.symm
  rw [Rest.outcome_of_answers hanswers, hpayload]
  exact get_status_of_record hrecord (r := Rest.success _) rfl

/-! ## A contract on the same machine -/

/-- A contract between parties of this machine. -/
def localContract (status : String) : APDL :=
  { Chain.newContract "0.0.0.0" "0" "hub" "user" "127.0.0.1" "6000" Chain.zeroTime 100 with
    Status := status }

/-- The call that reads it. -/
def readContract (status : String) : Stub where
  state := fun _ => (Chain.Marshal true (localContract status)).getD ""
  args := ["get_status", "get_status"]
  env := Chain.Apdlcc.calm

/-- A network with one peer, which answers with it. -/
def onePeer (payload : String) : Rest.Network where
  getRegisteredUsers := .ok ()
  sendTransactionProposal := .ok [.response (Rest.success payload)]
  newEventHubs := .ok [.code "VALID"]
  sendTransaction := .ok "SUCCESS"

theorem onePeer_answers (payload : String) : (onePeer payload).Answers payload where
  enrolled := rfl
  endorsed := ⟨[], rfl, fun _ h => absurd h List.not_mem_nil⟩
  hubs := ⟨_, rfl⟩

theorem localContract_text (status : String) :
    Chain.Marshal true (localContract status) =
      some ((readContract status).state Chain.Apdlcc.ContractKey) := rfl

/-- `{"txid": "1"}` -/
def postTxid : Value := .obj [Rest.member "txid" (.str ['1'])]

theorem postTxid_hasTxid : HasTxid postTxid := ⟨_, rfl, rfl⟩

theorem get_status_readContract (status : String) :
    (execute Chain.Apdlcc.get_status (readContract status)).1 =
      .Success ((readContract status).state Chain.Apdlcc.ContractKey) := rfl

theorem localContract_port (status : String) :
    int (rereadText (localContract status).SoftwareUser.Port.toList) = some 6000 := by
  have hascii : ("6000".toList.all fun c => decide (c.toNat < 128)) = true := rfl
  have hsame : rereadText "6000".toList = "6000".toList :=
    Json.rereadText_eq fun c hc =>
      Or.inl (of_decide_eq_true (List.all_eq_true.mp hascii c hc))
  show int (rereadText "6000".toList) = _
  rw [hsame]
  rfl

/-- Where the user's port is an integer, the service happens to do what it
should; where it is none, the service raises. -/
theorem guarded_iff {a : APDL} {stub : Stub} {payload : String} {n : Rest.Network}
    {req_data : Value}
    (hrecord : Chain.Marshal true a = some (stub.state Chain.Apdlcc.ContractKey))
    (hread : (execute Chain.Apdlcc.get_status stub).1 = .Success payload)
    (hanswers : n.Answers payload) (htxid : HasTxid req_data) (username : String) (w : World) :
    Guarded a (download_request w req_data (Rest.send (Rest.outcome username n))).1 ↔
      ∀ port, int (rereadText a.SoftwareUser.Port.toList) = some port →
        a.Status = "download_requested" ∧ a.SoftwareUser.IPAddress = "127.0.0.1" ∧
          port = 6000 := by
  have hstatus := get_status_of_answers hrecord hread hanswers username
  cases hport : int (rereadText a.SoftwareUser.Port.toList) with
  | none =>
      rw [hport] at hstatus
      rw [download_request_raises htxid hstatus]
      exact iff_of_true (fun _ _ h => absurd h List.not_mem_nil) nofun
  | some port =>
      rw [hport] at hstatus
      rw [download_request_valid htxid hstatus]
      unfold Guarded
      simp only [connect_mem_beginOT, int_of_reread hport, Option.some.injEq]
      constructor
      · rintro h _ rfl
        obtain ⟨hopen, hhost, htarget⟩ := h "127.0.0.1" 6000 ⟨rfl, rfl⟩
        exact ⟨hopen, hhost.symm, htarget⟩
      · rintro h host target ⟨rfl, rfl⟩
        obtain ⟨hopen, hhost, htarget⟩ := h port rfl
        exact ⟨hopen, hhost.symm, htarget⟩

theorem guarded_iff_local :
    Guarded (localContract "download_requested") (download_request ⟨true, true⟩ postTxid
      (Rest.send (Rest.outcome "hub" (onePeer
        ((readContract "download_requested").state Chain.Apdlcc.ContractKey))))).1 := by
  apply (guarded_iff (localContract_text _) (get_status_readContract _) (onePeer_answers _)
    postTxid_hasTxid "hub" ⟨true, true⟩).mpr
  intro port hport
  rw [localContract_port, Option.some.injEq] at hport
  exact ⟨rfl, rfl, hport.symm⟩

/-- A transfer for a contract whose penalty is paid. -/
theorem penalized_served :
    ¬ Guarded (localContract "penalized") (download_request ⟨true, true⟩ postTxid
      (Rest.send (Rest.outcome "hub" (onePeer
        ((readContract "penalized").state Chain.Apdlcc.ContractKey))))).1 := by
  have hstatus := get_status_of_answers (localContract_text "penalized")
    (get_status_readContract "penalized") (onePeer_answers _) "hub"
  rw [localContract_port, Option.map_some] at hstatus
  rw [download_request_valid postTxid_hasTxid hstatus]
  intro h
  obtain ⟨hopen, -, -⟩ := h "127.0.0.1" 6000 ((connect_mem_beginOT _ _ _ _ _).mpr ⟨rfl, rfl⟩)
  exact absurd hopen (by decide)

end Software.SenderService

end Pepal

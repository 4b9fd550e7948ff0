import Pepal.Lib.Json
import Pepal.Chain.Golang
import Pepal.Chain.Time

/-!
# The contract record

`Party` and `APDL` of both chaincodes, with what `encoding/json` makes of
them. The two programs differ in one letter: `apdlcc` declares `PubKey`,
`multiapdlcc` declares `pubKey`, and only fields with a capital first letter
are encoded and decoded. So the codec has a parameter, `exported`.

`Unmarshal` fills in what it can: it matches keys up to case, skips members it
does not know and members of the wrong type, and stops at a time it cannot
read. The chaincodes ignore its error, so only the record it leaves matters.
-/

namespace Pepal.Chain

structure Party where
  PubKey : String
  IPAddress : String
  Port : String
deriving DecidableEq

structure APDL where
  Status : String
  SoftwareOwner : Party
  SoftwareUser : Party
  ContractExpiry : Time
  DepositAmount : ℤ
deriving DecidableEq

/-- `Party{}` -/
def zeroParty : Party := { PubKey := "", IPAddress := "", Port := "" }

/-- `var apdl APDL` -/
def zeroAPDL : APDL :=
  { Status := "", SoftwareOwner := zeroParty, SoftwareUser := zeroParty
    ContractExpiry := zeroTime, DepositAmount := 0 }

/-- The contract that a download request asks for. -/
def newContract (senderIP senderPort senderPublicKey recipientPublicKey recipientIP
    recipientPort : String) (dt : Time) (amount : ℤ) : APDL :=
  { Status := "download_requested"
    SoftwareOwner := { PubKey := senderPublicKey, IPAddress := senderIP, Port := senderPort }
    SoftwareUser :=
      { PubKey := recipientPublicKey, IPAddress := recipientIP, Port := recipientPort }
    ContractExpiry := dt, DepositAmount := amount }

/-! ## json.Marshal -/

def encodeString (s : String) : Json.Value := .str s.toList

def Party.toJson (exported : Bool) (p : Party) : Json.Value :=
  let rest := [("IPAddress".toList, encodeString p.IPAddress),
    ("Port".toList, encodeString p.Port)]
  .obj (if exported then ("PubKey".toList, encodeString p.PubKey) :: rest else rest)

def APDL.toJson (exported : Bool) (a : APDL) : Json.Value :=
  .obj [("Status".toList, encodeString a.Status),
    ("SoftwareOwner".toList, a.SoftwareOwner.toJson exported),
    ("SoftwareUser".toList, a.SoftwareUser.toJson exported),
    ("ContractExpiry".toList, .str a.ContractExpiry.rfc3339),
    ("DepositAmount".toList, .num (Json.Number.ofInt a.DepositAmount))]

/-- `json.Marshal`; a time after the year 9999 has no RFC 3339 text. -/
def Marshal (exported : Bool) (a : APDL) : Option String :=
  if a.ContractExpiry.year < 10 ^ 4 then some (String.ofList (Json.print (a.toJson exported)))
  else none

/-! ## json.Unmarshal -/

/-- Folding of letters to the ones field names are written in; the long s and
the Kelvin sign fold to ASCII letters too. -/
def foldLetter (c : Char) : Char :=
  if c.toNat = 383 then 's' else if c.toNat = 8490 then 'k' else c.toLower

def isField (name : String) (key : List Char) : Bool :=
  key.map foldLetter == name.toList.map foldLetter

def decodeString (v : Json.Value) (old : String) : String :=
  match v with
  | .str text => String.ofList text
  | _ => old

def decodeInt (v : Json.Value) (old : ℤ) : ℤ :=
  match v with
  | .num n =>
      match Numeral.ofDecimal n.literal with
      | some value => if minInt ≤ value ∧ value ≤ maxInt then value else old
      | none => old
  | _ => old

/-- The time, and whether decoding goes on. -/
def decodeTime (v : Json.Value) (old : Time) : Time × Bool :=
  match v with
  | .null => (old, true)
  | .str text =>
      match parseRFC3339 text with
      | some t => (t, true)
      | none => (zeroTime, false)
  | _ => (zeroTime, false)

def decodePartyMember (exported : Bool) (p : Party) (m : List Char × Json.Value) : Party :=
  if exported && isField "PubKey" m.1 then { p with PubKey := decodeString m.2 p.PubKey }
  else if isField "IPAddress" m.1 then { p with IPAddress := decodeString m.2 p.IPAddress }
  else if isField "Port" m.1 then { p with Port := decodeString m.2 p.Port }
  else p

def decodeParty (exported : Bool) (v : Json.Value) (old : Party) : Party :=
  match v with
  | .obj members => members.foldl (decodePartyMember exported) old
  | _ => old

def decodeMembers (exported : Bool) : List (List Char × Json.Value) → APDL → APDL
  | [], a => a
  | (key, v) :: members, a =>
      if isField "Status" key then
        decodeMembers exported members { a with Status := decodeString v a.Status }
      else if isField "SoftwareOwner" key then
        decodeMembers exported members
          { a with SoftwareOwner := decodeParty exported v a.SoftwareOwner }
      else if isField "SoftwareUser" key then
        decodeMembers exported members
          { a with SoftwareUser := decodeParty exported v a.SoftwareUser }
      else if isField "ContractExpiry" key then
        let (t, goOn) := decodeTime v a.ContractExpiry
        if goOn then decodeMembers exported members { a with ContractExpiry := t }
        else { a with ContractExpiry := t }
      else if isField "DepositAmount" key then
        decodeMembers exported members { a with DepositAmount := decodeInt v a.DepositAmount }
      else decodeMembers exported members a

/-- `json.Unmarshal(contract, &apdl)` into a new record. -/
def Unmarshal (exported : Bool) (contract : String) : APDL :=
  match Json.parse contract.toList with
  | some (.obj members) => decodeMembers exported members zeroAPDL
  | _ => zeroAPDL

/-! ## Reading back a record -/

/-- What the codec keeps of a party. -/
def Party.visible (exported : Bool) (p : Party) : Party :=
  if exported then p else { p with PubKey := "" }

def APDL.visible (exported : Bool) (a : APDL) : APDL :=
  { a with
    SoftwareOwner := a.SoftwareOwner.visible exported
    SoftwareUser := a.SoftwareUser.visible exported }

/-- A record a chaincode can hold: the expiry has an RFC 3339 text and the
deposit is an `int`. -/
def APDL.Storable (a : APDL) : Prop :=
  a.ContractExpiry.year < 10 ^ 4 ∧ minInt ≤ a.DepositAmount ∧ a.DepositAmount ≤ maxInt

theorem decodeString_encodeString (s old : String) :
    decodeString (encodeString s) old = s := String.ofList_toList

theorem decodePartyMember_PubKey (p : Party) {key : List Char} (h : isField "PubKey" key = true)
    (s : String) :
    decodePartyMember true p (key, encodeString s) = { p with PubKey := s } := by
  unfold decodePartyMember
  rw [if_pos (by rw [h]; rfl), decodeString_encodeString]

theorem decodePartyMember_IPAddress (exported : Bool) (p : Party) {key : List Char}
    (hkey : isField "PubKey" key = false) (h : isField "IPAddress" key = true) (s : String) :
    decodePartyMember exported p (key, encodeString s) = { p with IPAddress := s } := by
  unfold decodePartyMember
  rw [hkey, Bool.and_false, if_neg Bool.false_ne_true, if_pos h, decodeString_encodeString]

theorem decodePartyMember_Port (exported : Bool) (p : Party) {key : List Char}
    (hkey : isField "PubKey" key = false) (haddress : isField "IPAddress" key = false)
    (h : isField "Port" key = true) (s : String) :
    decodePartyMember exported p (key, encodeString s) = { p with Port := s } := by
  unfold decodePartyMember
  rw [hkey, Bool.and_false, if_neg Bool.false_ne_true, haddress, if_neg Bool.false_ne_true,
    if_pos h, decodeString_encodeString]

theorem decodeParty_toJson (exported : Bool) (p : Party) :
    decodeParty exported (p.toJson exported) zeroParty = p.visible exported := by
  have haddress := fun q : Party => decodePartyMember_IPAddress exported q
    (by decide : isField "PubKey" "IPAddress".toList = false)
    (by decide : isField "IPAddress" "IPAddress".toList = true) p.IPAddress
  have hport := fun q : Party => decodePartyMember_Port exported q
    (by decide : isField "PubKey" "Port".toList = false)
    (by decide : isField "IPAddress" "Port".toList = false)
    (by decide : isField "Port" "Port".toList = true) p.Port
  cases exported
  · show decodePartyMember false (decodePartyMember false zeroParty
      ("IPAddress".toList, encodeString p.IPAddress))
      ("Port".toList, encodeString p.Port) = _
    rw [haddress, hport]
    rfl
  · show decodePartyMember true (decodePartyMember true (decodePartyMember true zeroParty
      ("PubKey".toList, encodeString p.PubKey)) ("IPAddress".toList, encodeString p.IPAddress))
      ("Port".toList, encodeString p.Port) = _
    rw [decodePartyMember_PubKey zeroParty (by decide : isField "PubKey" "PubKey".toList = true),
      haddress, hport]
    rfl

theorem decodeInt_ofInt {n : ℤ} (hmin : minInt ≤ n) (hmax : n ≤ maxInt) (old : ℤ) :
    decodeInt (.num (Json.Number.ofInt n)) old = n := by
  have hread : Numeral.ofDecimal (Json.Number.ofInt n).literal = some n :=
    Numeral.ofDecimal_decimal n
  unfold decodeInt
  simp only [hread]
  exact if_pos ⟨hmin, hmax⟩

theorem decodeTime_rfc3339 {t : Time} (h : t.year < 10 ^ 4) (old : Time) :
    decodeTime (.str t.rfc3339) old = (t, true) := by
  unfold decodeTime
  simp only [parseRFC3339_rfc3339 t h]

section Members

variable (exported : Bool) (a : APDL) {key : List Char} (members : List (List Char × Json.Value))

theorem decodeMembers_Status (h : isField "Status" key = true) (s : String) :
    decodeMembers exported ((key, encodeString s) :: members) a =
      decodeMembers exported members { a with Status := s } := by
  rw [decodeMembers, if_pos h, decodeString_encodeString]

theorem decodeMembers_SoftwareOwner (h1 : isField "Status" key = false)
    (h : isField "SoftwareOwner" key = true) (v : Json.Value) :
    decodeMembers exported ((key, v) :: members) a =
      decodeMembers exported members
        { a with SoftwareOwner := decodeParty exported v a.SoftwareOwner } := by
  rw [decodeMembers, h1, if_neg Bool.false_ne_true, if_pos h]

theorem decodeMembers_SoftwareUser (h1 : isField "Status" key = false)
    (h2 : isField "SoftwareOwner" key = false) (h : isField "SoftwareUser" key = true)
    (v : Json.Value) :
    decodeMembers exported ((key, v) :: members) a =
      decodeMembers exported members
        { a with SoftwareUser := decodeParty exported v a.SoftwareUser } := by
  rw [decodeMembers, h1, h2, if_neg Bool.false_ne_true, if_neg Bool.false_ne_true, if_pos h]

theorem decodeMembers_ContractExpiry (h1 : isField "Status" key = false)
    (h2 : isField "SoftwareOwner" key = false) (h3 : isField "SoftwareUser" key = false)
    (h : isField "ContractExpiry" key = true) {t : Time} (ht : t.year < 10 ^ 4) :
    decodeMembers exported ((key, .str t.rfc3339) :: members) a =
      decodeMembers exported members { a with ContractExpiry := t } := by
  rw [decodeMembers, h1, h2, h3, if_neg Bool.false_ne_true, if_neg Bool.false_ne_true,
    if_neg Bool.false_ne_true, if_pos h, decodeTime_rfc3339 ht]
  rfl

theorem decodeMembers_DepositAmount (h1 : isField "Status" key = false)
    (h2 : isField "SoftwareOwner" key = false) (h3 : isField "SoftwareUser" key = false)
    (h4 : isField "ContractExpiry" key = false) (h : isField "DepositAmount" key = true)
    {n : ℤ} (hmin : minInt ≤ n) (hmax : n ≤ maxInt) :
    decodeMembers exported ((key, .num (Json.Number.ofInt n)) :: members) a =
      decodeMembers exported members { a with DepositAmount := n } := by
  rw [decodeMembers, h1, h2, h3, h4, if_neg Bool.false_ne_true, if_neg Bool.false_ne_true,
    if_neg Bool.false_ne_true, if_neg Bool.false_ne_true, if_pos h, decodeInt_ofInt hmin hmax]

end Members

theorem decodeMembers_toJson (exported : Bool) {a : APDL} (h : a.Storable) :
    decodeMembers exported
      [("Status".toList, encodeString a.Status),
        ("SoftwareOwner".toList, a.SoftwareOwner.toJson exported),
        ("SoftwareUser".toList, a.SoftwareUser.toJson exported),
        ("ContractExpiry".toList, .str a.ContractExpiry.rfc3339),
        ("DepositAmount".toList, .num (Json.Number.ofInt a.DepositAmount))] zeroAPDL =
      a.visible exported := by
  obtain ⟨hyear, hmin, hmax⟩ := h
  rw [decodeMembers_Status exported _ _ (by decide),
    decodeMembers_SoftwareOwner exported _ _ (by decide) (by decide),
    decodeMembers_SoftwareUser exported _ _ (by decide) (by decide) (by decide),
    decodeMembers_ContractExpiry exported _ _ (by decide) (by decide) (by decide) (by decide)
      hyear,
    decodeMembers_DepositAmount exported _ _ (by decide) (by decide) (by decide) (by decide)
      (by decide) hmin hmax, decodeMembers]
  show APDL.mk _ (decodeParty exported (a.SoftwareOwner.toJson exported) zeroParty)
    (decodeParty exported (a.SoftwareUser.toJson exported) zeroParty) _ _ = _
  rw [decodeParty_toJson, decodeParty_toJson]
  rfl

/-- **A storable record is read back, up to what the codec hides.** -/
theorem Unmarshal_Marshal (exported : Bool) {a : APDL} (h : a.Storable) :
    ∃ b, Marshal exported a = some b ∧ Unmarshal exported b = a.visible exported := by
  refine ⟨_, if_pos h.1, ?_⟩
  unfold Unmarshal
  rw [String.toList_ofList, Json.parse_print]
  exact decodeMembers_toJson exported h

theorem visible_exported (a : APDL) : a.visible true = a := rfl

/-! ## What can be read -/

theorem decodeInt_bounds (v : Json.Value) {old : ℤ} (h : minInt ≤ old ∧ old ≤ maxInt) :
    minInt ≤ decodeInt v old ∧ decodeInt v old ≤ maxInt := by
  unfold decodeInt
  split
  · split
    · split
      · assumption
      · exact h
    · exact h
  · exact h

theorem year_of_decodeTime (v : Json.Value) {old : Time} (h : old.year < 10 ^ 4) :
    (decodeTime v old).1.year < 10 ^ 4 := by
  unfold decodeTime
  split
  · exact h
  · split
    · rename_i ht
      exact year_of_parseRFC3339 ht
    · decide
  · decide

theorem storable_decodeMembers (exported : Bool) (members : List (List Char × Json.Value))
    {a : APDL} (h : a.Storable) : (decodeMembers exported members a).Storable := by
  induction members generalizing a with
  | nil => exact h
  | cons member members ih =>
      obtain ⟨key, v⟩ := member
      have htime : APDL.Storable { a with ContractExpiry := (decodeTime v a.ContractExpiry).1 } :=
        ⟨year_of_decodeTime v h.1, h.2⟩
      rw [decodeMembers]
      split
      · exact ih h
      · split
        · exact ih h
        · split
          · exact ih h
          · split
            · dsimp only
              split
              · exact ih htime
              · exact htime
            · split
              · exact ih ⟨h.1, decodeInt_bounds v h.2⟩
              · exact ih h

/-- A record that was read can be written. -/
theorem storable_Unmarshal (exported : Bool) (contract : String) :
    (Unmarshal exported contract).Storable := by
  have hzero : zeroAPDL.Storable := ⟨by decide, by decide, by decide⟩
  unfold Unmarshal
  split
  · exact storable_decodeMembers exported _ hzero
  · exact hzero

theorem PubKey_decodePartyMember (p : Party) (member : List Char × Json.Value) :
    (decodePartyMember false p member).PubKey = p.PubKey := by
  unfold decodePartyMember
  rw [Bool.false_and, if_neg Bool.false_ne_true]
  split
  · rfl
  · split
    · rfl
    · rfl

theorem PubKey_decodeParty (v : Json.Value) (old : Party) :
    (decodeParty false v old).PubKey = old.PubKey := by
  unfold decodeParty
  split
  · rename_i members
    induction members generalizing old with
    | nil => rfl
    | cons member members ih =>
        rw [List.foldl_cons, ih (decodePartyMember false old member), PubKey_decodePartyMember]
  · rfl

theorem PubKey_decodeMembers (members : List (List Char × Json.Value)) (a : APDL) :
    (decodeMembers false members a).SoftwareOwner.PubKey = a.SoftwareOwner.PubKey ∧
      (decodeMembers false members a).SoftwareUser.PubKey = a.SoftwareUser.PubKey := by
  induction members generalizing a with
  | nil => exact ⟨rfl, rfl⟩
  | cons member members ih =>
      obtain ⟨key, v⟩ := member
      rw [decodeMembers]
      split
      · exact ih _
      · split
        · obtain ⟨howner, huser⟩ :=
            ih { a with SoftwareOwner := decodeParty false v a.SoftwareOwner }
          exact ⟨howner.trans (PubKey_decodeParty v a.SoftwareOwner), huser⟩
        · split
          · obtain ⟨howner, huser⟩ :=
              ih { a with SoftwareUser := decodeParty false v a.SoftwareUser }
            exact ⟨howner, huser.trans (PubKey_decodeParty v a.SoftwareUser)⟩
          · split
            · dsimp only
              split
              · exact ih _
              · exact ⟨rfl, rfl⟩
            · split
              · exact ih _
              · exact ih _

/-- A field that is not exported stays as it is in a new record. -/
theorem PubKey_Unmarshal (contract : String) :
    (Unmarshal false contract).SoftwareOwner.PubKey = "" ∧
      (Unmarshal false contract).SoftwareUser.PubKey = "" := by
  unfold Unmarshal
  split
  · exact PubKey_decodeMembers _ zeroAPDL
  · exact ⟨rfl, rfl⟩

/-- A record in the place of a number reads as zero. -/
theorem Atoi_Marshal {exported : Bool} {a : APDL} {b : String} (h : Marshal exported a = some b) :
    (Atoi b).1 = 0 := by
  have hbrace : ∀ rest : List Char, Numeral.ofDecimal ('{' :: rest) = none := by
    intro rest
    show (Numeral.ofDigits ('{' :: rest)).map (fun n : ℕ => (n : ℤ)) = none
    rw [Numeral.ofDigits, if_neg, Option.map_none]
    rintro ⟨-, hdigits⟩
    rw [List.all_cons, Bool.and_eq_true] at hdigits
    exact absurd hdigits.1 (by decide)
  unfold Marshal at h
  split at h
  · -- the text begins with a brace, which no numeral does
    obtain ⟨rest, hrest⟩ : ∃ rest, Json.print (a.toJson exported) = '{' :: rest := ⟨_, rfl⟩
    rw [← Option.some.inj h, Atoi, String.toList_ofList, hrest, hbrace]
  · cases h

/-- A number in the place of a record leaves it empty. -/
theorem Unmarshal_Itoa (exported : Bool) (n : ℤ) : Unmarshal exported (Itoa n) = zeroAPDL := by
  have hprint : Json.print (.num (Json.Number.ofInt n)) = Numeral.decimal n := by
    unfold Json.print Json.tokens Json.printTokens
    exact List.append_nil _
  -- a numeral is JSON, but no object
  unfold Unmarshal Itoa
  rw [String.toList_ofList, ← hprint, Json.parse_print]

theorem Unmarshal_empty (exported : Bool) : Unmarshal exported "" = zeroAPDL := rfl

end Pepal.Chain

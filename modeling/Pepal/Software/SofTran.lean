import Pepal.Lib.PrimeGroup

/-!
# The software transfer

`sofTran.py`, which sender and receiver run alike: a 16-step protocol on top
of Charm's `Protocol` class. Each party keeps a dictionary, here a record of
optional fields; `Protocol.get` of a missing key raises, so it is the `none`
of the field. A received message is stored under its own name before the
function of the current state is called; the function returns the message to
send and sets the next state. Whatever raises in the source is `none`.

Random choices (points, scalars, the fresh iv of each encryption) are
arguments, so that two runs can be compared that differ in one of them.
-/

namespace Pepal.Software

open PrimeOrder

abbrev Bytes : Type := List UInt8

abbrev ZR (r : ℕ) : Type := ZMod r

/-- What the program takes from Charm, `hashlib` and `zipfile`. -/
structure Charm (G : Type) where
  objectToBytes : G → Bytes
  bytesToObject : Bytes → Option G
  sha256 : Bytes → Bytes
  /-- `SymmetricCryptoAbstraction(key).encrypt`: key, iv and message -/
  encrypt : Bytes → Bytes → Bytes → Bytes
  /-- `SymmetricCryptoAbstraction(key).decrypt`: key and ciphertext -/
  decrypt : Bytes → Bytes → Option Bytes
  /-- `ZipFile(..).infolist()`, file names only -/
  infolist : Bytes → Option (List String)

abbrev Files : Type := String → Option Bytes

/-! ## Python text -/

/-- `bin(n)` -/
def bin (n : ℤ) : List Char :=
  let digits := '0' :: 'b' :: Nat.toDigits 2 n.natAbs
  if n < 0 then '-' :: digits else digits

/-- `s.zfill(width)`: the zeros go after a sign. -/
def zfill (s : List Char) (width : ℕ) : List Char :=
  let fill := List.replicate (width - s.length) '0'
  match s with
  | '+' :: rest => '+' :: (fill ++ rest)
  | '-' :: rest => '-' :: (fill ++ rest)
  | _ => fill ++ s

/-- `int` of one letter -/
def intOfLetter (c : Char) : Option ℕ := if c.isDigit then some (c.toNat - 48) else none

/-- `xs[i][j]` -/
def index2 {α : Type*} (xs : List (List α)) (i j : ℕ) : Option α := xs[i]?.bind (·[j]?)

/-! ## The functions at the top of the file -/

section Functions

variable {r : ℕ} {G : Type} [PrimeOrderGroup r G]

def SHA2 (C : Charm G) (bytes1 : Bytes) : Bytes := C.sha256 bytes1

def generatePoints (random : ℕ → ℕ → G) (row col : ℕ) : List (List G) :=
  (List.range row).map fun i => (List.range col).map fun j => random i j

/-- One random scalar for each row, shared by its columns. -/
def ElGamalEnc2 (random : ℕ → ZR r) (values : List (List G)) (pk : G) :
    Option (List (ZR r) × List (List G)) := do
  let row := values.length
  let col := (← values[0]?).length
  let randomVal := (List.range row).map random
  let encVal ← (List.range row).mapM fun i => (List.range col).mapM fun j => do
    return (← index2 values i j) * gpow pk (← randomVal[i]?)
  return (randomVal, encVal)

def ReRandElGamal (random : ℕ → ZR r) (values : List G) (pk : G) :
    Option (List (ZR r) × List G) := do
  let row := values.length
  let randomVal := (List.range row).map random
  let encVal ← (List.range row).mapM fun i => do
    return (← values[i]?) * gpow pk (← randomVal[i]?)
  return (randomVal, encVal)

def show_jar_classes (C : Charm G) (files : Files) (jar_file : String) : Option ℕ := do
  let lst ← C.infolist (← files jar_file)
  return (lst.filter fun fn => fn.endsWith ".class").length

end Functions

/-! ## Messages and parties -/

structure S (G : Type) where
  g : G
  sender_pk : G

structure S2 (G : Type) where
  receiver_pk : G
  common_pk : G

structure S3 (G : Type) where
  elgPoints : List (List G)
  A : List G

/-- The dictionaries the parties send, each with its one key. -/
inductive Msg (G : Type) where
  | S (S : S G)
  | S2 (S2 : S2 G)
  | S3 (S3 : S3 G)
  | B (B : List G)
  | enc (enc : List (List Bytes))
  | reRandEnc (reRandEnc : List G)
  | decSenderLayer (decSenderLayer : List G)
  | msg (msg : String)
  | outArray1 (outArray1 : List Bytes)
  | outArray2 (outArray2 : List Bytes)
  | outArray3 (outArray3 : List Bytes)
  | outArray4 (outArray4 : List Bytes)

structure Sender (r : ℕ) (G : Type) where
  state : Option ℕ
  files : Files
  g : Option G := none
  sender_pk : Option G := none
  sender_sk : Option (ZR r) := none
  S2 : Option (S2 G) := none
  randomVals : Option (List (ZR r)) := none
  elgPoints : Option (List (List G)) := none
  A : Option (List G) := none
  a : Option (List (ZR r)) := none
  common_pk : Option G := none
  hashedPoints : Option (List (List Bytes)) := none
  B : Option (List G) := none
  enc : Option (List (List Bytes)) := none
  reRandEnc : Option (List G) := none
  decSenderLayer : Option (List G) := none
  outArray_store : Option (List Bytes) := none
  msg : Option String := none

structure Receiver (r : ℕ) (G : Type) where
  state : Option ℕ
  files : Files
  S : Option (S G) := none
  g : Option G := none
  sender_pk : Option G := none
  receiver_sk : Option ℤ := none
  receiver_pk : Option G := none
  common_pk : Option G := none
  S3 : Option (S3 G) := none
  b : Option (List (ZR r)) := none
  B : Option (List G) := none
  bitstring : Option (List Char) := none
  A : Option (List G) := none
  enc : Option (List (List Bytes)) := none
  recRandVals : Option (List (ZR r)) := none
  reRandEnc : Option (List G) := none
  decSenderLayer : Option (List G) := none
  decRecLayer : Option (List G) := none
  outArray1 : Option (List Bytes) := none
  outArray2 : Option (List Bytes) := none
  outArray3 : Option (List Bytes) := none
  outArray4 : Option (List Bytes) := none

/-- What the sender draws: `group.random` in the order of the steps, then the
ivs of `init_ot5` and of `send_encryptions9`. -/
structure SenderRandom (r : ℕ) (G : Type) where
  g : G
  sender_sk : ZR r
  groupPoints : ℕ → ℕ → G
  randomVals : ℕ → ZR r
  a : ℕ → ZR r
  iv5 : ℕ → ℕ → Bytes
  iv9 : ℕ → ℕ → Bytes

structure ReceiverRandom (r : ℕ) where
  b : ℕ → ZR r
  recRandVals : ℕ → ZR r

variable {r : ℕ} {G : Type} [PrimeOrderGroup r G] (C : Charm G)

/-! ## The sender's steps -/

def Sender.sender_init_transfer1 (T : SenderRandom r G) (s : Sender r G) :
    Option (Sender r G × Msg G) :=
  let sender_pk := gpow T.g T.sender_sk
  some ({ s with
    sender_pk := some sender_pk, sender_sk := some T.sender_sk, g := some T.g
    state := some 3 }, .S { g := T.g, sender_pk := sender_pk })

def Sender.sender_transfer3 (T : SenderRandom r G) (s : Sender r G) :
    Option (Sender r G × Msg G) := do
  let S2 ← s.S2
  let g ← s.g
  let common_pk := S2.common_pk
  let row := 256
  let col := 2
  let groupPoints := generatePoints T.groupPoints row col
  let hashedPoints ← (List.range row).mapM fun i => (List.range col).mapM fun j => do
    return SHA2 C (C.objectToBytes (← index2 groupPoints i j))
  let (randomVals, elgPoints) ← ElGamalEnc2 T.randomVals groupPoints common_pk
  let a := (List.range row).map T.a
  let A := (List.range row).map fun i => gpow g (T.a i)
  return ({ s with
    randomVals := some randomVals, elgPoints := some elgPoints, A := some A, a := some a
    common_pk := some common_pk, hashedPoints := some hashedPoints
    state := some 5 }, .S3 { elgPoints := elgPoints, A := A })

def Sender.init_ot5 (T : SenderRandom r G) (s : Sender r G) : Option (Sender r G × Msg G) := do
  let a ← s.a
  let A ← s.A
  let B ← s.B
  let elgPoints ← s.elgPoints
  let enc ← (List.range 256).mapM fun i => do
    let key0 := SHA2 C (C.objectToBytes (gpow (← B[i]?) (← a[i]?)))
    let key1 := SHA2 C (C.objectToBytes (gpow ((← B[i]?) * (← A[i]?)⁻¹) (← a[i]?)))
    let E0 := C.encrypt key0 (T.iv5 i 0) (C.objectToBytes (← index2 elgPoints i 0))
    let E1 := C.encrypt key1 (T.iv5 i 1) (C.objectToBytes (← index2 elgPoints i 1))
    return [E0, E1]
  return ({ s with enc := some enc, state := some 7 }, .enc enc)

/-- The `return None` on different lengths sends nothing: the run stops. -/
def Sender.sender_dec_layer7 (s : Sender r G) : Option (Sender r G × Msg G) := do
  let _g ← s.g
  let randomVals ← s.randomVals
  let reRandEnc ← s.reRandEnc
  let common_pk ← s.common_pk
  if reRandEnc.length ≠ randomVals.length then none
  else do
    let decSenderLayer ← (List.range randomVals.length).mapM fun i => do
      return (← reRandEnc[i]?) * (gpow common_pk (← randomVals[i]?))⁻¹
    return ({ s with decSenderLayer := some decSenderLayer, state := some 9 },
      .decSenderLayer decSenderLayer)

/-- The watermarked file of row `i` for bit `j`. -/
def fileToSend (i j : ℕ) : String :=
  if j = 0 then "./files_to_send/Helloworld" ++ toString i ++ "_wm0.jar"
  else "./files_to_send/Helloworld" ++ toString i ++ "_wm1.jar"

def Sender.send_encryptions9 (T : SenderRandom r G) (s : Sender r G) :
    Option (Sender r G × Msg G) := do
  let _number ← show_jar_classes C s.files "HelloWorld0_wm0.jar"
  let hashedPoints ← s.hashedPoints
  let row := hashedPoints.length
  let col := (← hashedPoints[0]?).length
  let outArray ← (List.range row).mapM fun i => (List.range col).mapM fun j => do
    let content ← s.files (fileToSend i j)
    return C.encrypt (← index2 hashedPoints i j) (T.iv9 i j) content
  let outArray := outArray.flatten
  -- the function prints this entry, which raises on a shorter list
  let _ ← outArray[130]?
  let outArray1 := outArray.take 128
  return ({ s with outArray_store := some outArray, state := some 11 }, .outArray1 outArray1)

/-- `xs[from:to]` -/
def slice {α : Type*} (xs : List α) (start stop : ℕ) : List α := (xs.take stop).drop start

def Sender.send_enc_part2_11 (s : Sender r G) : Option (Sender r G × Msg G) := do
  let outArray ← s.outArray_store
  let _ ← outArray[130]?
  return ({ s with state := some 13 }, .outArray2 (slice outArray 128 256))

def Sender.send_enc_part3_13 (s : Sender r G) : Option (Sender r G × Msg G) := do
  let outArray ← s.outArray_store
  return ({ s with state := some 15 }, .outArray3 (slice outArray 256 384))

def Sender.send_enc_part4_15 (s : Sender r G) : Option (Sender r G × Msg G) := do
  let outArray ← s.outArray_store
  return ({ s with state := none }, .outArray4 (slice outArray 384 512))

/-! ## The receiver's steps -/

/-- `key` is the integer in `key.txt`. -/
def Receiver.receiver_init_transfer2 (key : ℤ) (R : Receiver r G) :
    Option (Receiver r G × Msg G) := do
  let S ← R.S
  let g := S.g
  let sender_pk := S.sender_pk
  let receiver_sk := key
  let receiver_pk := g ^ receiver_sk
  let common_pk := sender_pk ^ receiver_sk
  return ({ R with
    sender_pk := some sender_pk, receiver_sk := some receiver_sk
    receiver_pk := some receiver_pk, common_pk := some common_pk, g := some g
    state := some 4 }, .S2 { receiver_pk := receiver_pk, common_pk := common_pk })

def Receiver.receiver_transfer4 (T : ReceiverRandom r) (R : Receiver r G) :
    Option (Receiver r G × Msg G) := do
  let g ← R.g
  let receiver_sk ← R.receiver_sk
  let S3 ← R.S3
  let A := S3.A
  let bitstring := zfill ((bin receiver_sk).drop 2) 256
  let b := (List.range 256).map T.b
  let B ← (List.range 256).mapM fun i => do
    return (← A[i]?) ^ (← intOfLetter (← bitstring[i]?)) * gpow g (T.b i)
  return ({ R with
    b := some b, B := some B, bitstring := some bitstring, A := some A
    state := some 6 }, .B B)

def Receiver.recv_ot6 (T : ReceiverRandom r) (R : Receiver r G) :
    Option (Receiver r G × Msg G) := do
  let common_pk ← R.common_pk
  let enc ← R.enc
  let bitstring ← R.bitstring
  let b ← R.b
  let _B ← R.B
  let A ← R.A
  let recElgPoints ← (List.range 256).mapM fun i => do
    let key := SHA2 C (C.objectToBytes (gpow (← A[i]?) (← b[i]?)))
    if (← bitstring[i]?) = '0' then
      let dec ← C.decrypt key (← index2 enc i 0)
      C.bytesToObject dec
    else
      -- any other letter opens the second ciphertext
      let dec ← C.decrypt key (← index2 enc i 1)
      C.bytesToObject dec
  let (recRandVals, reRandEnc) ← ReRandElGamal T.recRandVals recElgPoints common_pk
  return ({ R with
    recRandVals := some recRandVals, reRandEnc := some reRandEnc
    state := some 8 }, .reRandEnc reRandEnc)

def Receiver.final_recv8 (R : Receiver r G) : Option (Receiver r G × Msg G) := do
  let decSenderLayer ← R.decSenderLayer
  let recRandVals ← R.recRandVals
  let common_pk ← R.common_pk
  if recRandVals.length ≠ decSenderLayer.length then none
  else do
    let decRecLayer ← (List.range recRandVals.length).mapM fun i => do
      return (← decSenderLayer[i]?) * (gpow common_pk (← recRandVals[i]?))⁻¹
    return ({ R with decRecLayer := some decRecLayer, state := some 10 }, .msg "OK")

def Receiver.recv_encryptions10 (R : Receiver r G) : Option (Receiver r G × Msg G) := do
  let outArray1 ← R.outArray1
  return ({ R with outArray1 := some outArray1, state := some 12 }, .msg "GotIt")

def Receiver.rec_enc_part2_12 (R : Receiver r G) : Option (Receiver r G × Msg G) := do
  let outArray2 ← R.outArray2
  return ({ R with outArray2 := some outArray2, state := some 14 }, .msg "GotIt")

def Receiver.rec_enc_part3_14 (R : Receiver r G) : Option (Receiver r G × Msg G) := do
  let outArray3 ← R.outArray3
  return ({ R with outArray3 := some outArray3, state := some 16 }, .msg "GotIt")

/-- The local `decryptedStrings` of `rec_enc_part4_16`. A row whose letter is
neither bit appends nothing. -/
def Receiver.decryptedStrings (R : Receiver r G) : Option (List Bytes) := do
  let outArray1 ← R.outArray1
  let outArray2 ← R.outArray2
  let outArray3 ← R.outArray3
  let outArray4 ← R.outArray4
  let outArray := outArray1 ++ outArray2 ++ outArray3 ++ outArray4
  -- printed as well
  let _ ← outArray[0]?
  let bitstring ← R.bitstring
  let decRecLayer ← R.decRecLayer
  let hashPoints := decRecLayer.map fun point => SHA2 C (C.objectToBytes point)
  let rows ← (List.range hashPoints.length).mapM fun i => do
    let bit ← bitstring[i]?
    if bit = '0' then
      return [← C.decrypt (← hashPoints[i]?) (← outArray[2 * i]?)]
    else if bit = '1' then
      return [← C.decrypt (← hashPoints[i]?) (← outArray[2 * i + 1]?)]
    else
      return []
  return rows.flatten

def fileReceived (i : ℕ) : String := "./rcvd_files/HelloWorld" ++ toString i ++ ".jar"

/-- The loop at the end of `rec_enc_part4_16`. -/
def writeFiles (files : Files) (decryptedStrings : List Bytes) : Files :=
  (List.range decryptedStrings.length).foldl (fun files i =>
    Function.update files (fileReceived i) decryptedStrings[i]?) files

def Receiver.rec_enc_part4_16 (R : Receiver r G) : Option (Receiver r G × Msg G) := do
  let outArray4 ← R.outArray4
  let R := { R with outArray4 := some outArray4 }
  let decryptedStrings ← R.decryptedStrings C
  return ({ R with files := writeFiles R.files decryptedStrings, state := none },
    .msg "GotIt")

/-! ## Charm's protocol loop -/

/-- A received dictionary is merged into the party's own; keys that party
never reads are left out. -/
def Sender.receive (s : Sender r G) : Msg G → Sender r G
  | .S2 S2 => { s with S2 := some S2 }
  | .B B => { s with B := some B }
  | .reRandEnc reRandEnc => { s with reRandEnc := some reRandEnc }
  | .msg msg => { s with msg := some msg }
  | _ => s

def Receiver.receive (R : Receiver r G) : Msg G → Receiver r G
  | .S S => { R with S := some S }
  | .S3 S3 => { R with S3 := some S3 }
  | .enc enc => { R with enc := some enc }
  | .decSenderLayer decSenderLayer => { R with decSenderLayer := some decSenderLayer }
  | .outArray1 outArray1 => { R with outArray1 := some outArray1 }
  | .outArray2 outArray2 => { R with outArray2 := some outArray2 }
  | .outArray3 outArray3 => { R with outArray3 := some outArray3 }
  | .outArray4 outArray4 => { R with outArray4 := some outArray4 }
  | _ => R

/-- The table `sender_states` -/
def Sender.call (T : SenderRandom r G) (s : Sender r G) : Option (Sender r G × Msg G) :=
  match s.state with
  | some 1 => s.sender_init_transfer1 T
  | some 3 => s.sender_transfer3 C T
  | some 5 => s.init_ot5 C T
  | some 7 => s.sender_dec_layer7
  | some 9 => s.send_encryptions9 C T
  | some 11 => s.send_enc_part2_11
  | some 13 => s.send_enc_part3_13
  | some 15 => s.send_enc_part4_15
  | _ => none

/-- The table `receiver_states` -/
def Receiver.call (key : ℤ) (T : ReceiverRandom r) (R : Receiver r G) :
    Option (Receiver r G × Msg G) :=
  match R.state with
  | some 2 => R.receiver_init_transfer2 key
  | some 4 => R.receiver_transfer4 T
  | some 6 => R.recv_ot6 C T
  | some 8 => R.final_recv8
  | some 10 => R.recv_encryptions10
  | some 12 => R.rec_enc_part2_12
  | some 14 => R.rec_enc_part3_14
  | some 16 => R.rec_enc_part4_16 C
  | _ => none

/-- The two parties and the message in flight. -/
structure Config (r : ℕ) (G : Type) where
  sender : Sender r G
  receiver : Receiver r G
  message : Option (Msg G)

/-- What stays fixed over a run: the key file, the random choices and the
files each party starts with. -/
structure Input (r : ℕ) (G : Type) where
  key : ℤ
  sender : SenderRandom r G
  receiver : ReceiverRandom r
  senderFiles : Files
  receiverFiles : Files

def Config.senderTurn (I : Input r G) (cfg : Config r G) : Option (Config r G) := do
  let s := match cfg.message with
    | some m => cfg.sender.receive m
    | none => cfg.sender
  let (s, m) ← s.call C I.sender
  return { cfg with sender := s, message := some m }

def Config.receiverTurn (I : Input r G) (cfg : Config r G) : Option (Config r G) := do
  let m ← cfg.message
  let (R, m) ← (cfg.receiver.receive m).call C I.key I.receiver
  return { cfg with receiver := R, message := some m }

/-- The first `k` of the 16 steps, sender and receiver in turn. -/
def SoftwareTransfer (I : Input r G) : ℕ → Option (Config r G)
  | 0 => some
      { sender := { state := some 1, files := I.senderFiles }
        receiver := { state := some 2, files := I.receiverFiles }
        message := none }
  | k + 1 => do
      let cfg ← SoftwareTransfer I k
      if k % 2 = 0 then cfg.senderTurn C I else cfg.receiverTurn C I

end Pepal.Software

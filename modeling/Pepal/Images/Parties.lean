import Pepal.Images.Crypto

/-!
# The two parties of the image transfer

`Sender.h`, `Recipient.h` and the control flow of `NDA.cc`. C++ objects are
records, methods return the updated record, and every random scalar the
program draws is an argument. The arrays indexed by part and by bit are
functions, the `std::vector`s are lists that the loops grow.

The sender keeps one scalar `a` for all parts. The recipient's `bitstring` is
most significant bit first while parts are numbered from the least
significant bit; both `initB_arr` and `new_OT_Recipient` do the reversal.

Lengths are kept in fields of type `int`. A run that does something undefined
is `none`. The transfer can: `getEncrypted` reads as many bytes of each message
as its `message_len` says, and `decryptE` goes through the pointer `iv` of
`encrypted_return`, which nothing sets.
-/

namespace Pepal.Images

open PrimeOrder

variable {r : ℕ} {G : Type*} [PrimeOrderGroup r G]

/-! ## One transfer -/

structure EncryptedReturn where
  message_len : ℤ
  ciphertext : ℕ → Bytes
  /-- What loading `iv[0]` and `iv[1]` through the pointer gives, `none` where it
  points to nothing that can be read. -/
  iv : ℕ → Option ℕ

structure OT_Sender (r : ℕ) (G : Type*) where
  message : ℕ → Bytes
  message_len : ℤ
  A : G
  a : Zr r

/-- The array `k` of `getEncrypted`: the element that keys each ciphertext. -/
def OT_Sender.k (s : OT_Sender r G) (B : G) (i : ℕ) : G :=
  if i = 0 then gpow B s.a else gpow (B * s.A⁻¹) s.a

/-- What is stored in `ret`. The entries of the sender's own array `iv`, passed to
`encrypt_new`, are not set either, but that array is there. -/
def OT_Sender.getEncrypted (L : CryptoLib G) (s : OT_Sender r G) (B : G) (ret : EncryptedReturn) :
    Option EncryptedReturn :=
  (List.range 2).foldlM (fun ret i => do
    let hashedKey := sha256_G1 L (s.k B i)
    let cipher_str ← encrypt_new L hashedKey (s.message i) s.message_len
    return { ret with
      message_len := intOfSize cipher_str.length
      ciphertext := Function.update ret.ciphertext i cipher_str })
    { ret with message_len := s.message_len }

structure OT_Recipient (r : ℕ) (G : Type*) where
  message_len : ℤ
  bit_c : ℕ
  B : G
  b : Zr r
  key : ℕ → Bytes

/-- The array `k` of `makeKeys`: both entries are the same element. -/
def OT_Recipient.k (R : OT_Recipient r G) (A : G) : G := gpow A R.b

def OT_Recipient.makeKeys (L : CryptoLib G) (R : OT_Recipient r G) (A : G) :
    OT_Recipient r G :=
  (List.range 2).foldl (fun R i =>
    { R with key := Function.update R.key i (sha256_G1 L (R.k A)) }) R

/-- What is stored in `*result_part`. -/
def OT_Recipient.decryptE (L : CryptoLib G) (R : OT_Recipient r G) (ert : EncryptedReturn) :
    Option Bytes :=
  let c_len := ert.message_len
  if R.bit_c = 0 then do decrypt_new L (R.key 0) (← ert.iv 0) (ert.ciphertext 0) c_len
  else do decrypt_new L (R.key 1) (← ert.iv 1) (ert.ciphertext 1) c_len

/-- `ot` of `NDA.cc`: `B` goes to the sender, `A` and the two ciphertexts come
back in the local variable `enc`, which is passed as it is before anything is
assigned to it. -/
def ot (L : CryptoLib G) (ot_s : OT_Sender r G) (ot_r : OT_Recipient r G)
    (enc : EncryptedReturn) : Option Bytes := do
  let enc ← ot_s.getEncrypted L ot_r.B enc
  (ot_r.makeKeys L ot_s.A).decryptE L enc

/-! ## The sender -/

structure Sender (r : ℕ) (G : Type*) where
  sec_par : ℕ
  message_len : ℤ
  message : ℕ → ℕ → Bytes
  a : Zr r
  A : G

/-- `product_Bs`: the product of `B_arr[i] ^ (2 ^ i)`. -/
def Sender.product_Bs (s : Sender r G) (B_arr : List G) : G :=
  (List.range s.sec_par).foldl (fun product i =>
    product * gpow (B_arr.getD i 1) (pow2 r i)) 1

def Sender.initA (s : Sender r G) (g : G) (a : Zr r) : Sender r G :=
  { s with a := a, A := gpow g a }

def Sender.new_OT_Sender (s : Sender r G) (part : ℕ) : OT_Sender r G :=
  { message := s.message part, message_len := s.message_len, A := s.A, a := s.a }

/-- The reading loop of `watermark`: `files i j` is the watermarked part `i`
carrying signature `j`. The one field `message_len` is overwritten with the size
of every file read. -/
def Sender.watermark (s : Sender r G) (files : ℕ → ℕ → Bytes) : Sender r G :=
  (List.range s.sec_par).foldl (fun s i =>
    (List.range 2).foldl (fun s j =>
      { s with
        message := Function.update s.message i (Function.update (s.message i) j (files i j))
        message_len := intOfSize (files i j).length }) s) s

/-! ## The recipient -/

structure Recipient (r : ℕ) (G : Type*) where
  bitstring : List ℕ
  sec_par : ℕ
  result : ℕ → Bytes
  message_len : ℤ
  B_arr : List G
  b_arr : List (Zr r)
  sk : Zr r
  x : Zr r

/-- The constructor: the vectors start empty, `x` is set by `init_x`. -/
def Recipient.mk' (G : Type*) (sk : Zr r) (sk_bitstring : List ℕ) (sec_par : ℕ)
    (message_len : ℤ) : Recipient r G :=
  { bitstring := sk_bitstring, sec_par := sec_par, result := fun _ => [],
    message_len := message_len, B_arr := [], b_arr := [], sk := sk, x := 0 }

/-- `init_x`: the sum of `2 ^ k * b_arr[k]`. -/
def Recipient.init_x (R : Recipient r G) : Recipient r G :=
  { R with
    x := (List.range R.sec_par).foldl (fun power k =>
      power + pow2 r k * R.b_arr.getD k 0) 0 }

def Recipient.get_Cb (R : Recipient r G) (g : G) : G := gpow g R.x

def Recipient.get_Cs (R : Recipient r G) (g : G) : G := gpow g R.sk

/-- One round of `initB_arr`: `new_bi` is the scalar drawn in round `i`. -/
def Recipient.initB_round (A public_g : G) (new_b : ℕ → Zr r) (R : Recipient r G) (i : ℕ) :
    Recipient r G :=
  let new_bi := new_b i
  let new_Bi :=
    if R.bitstring.getD (R.sec_par - 1 - i) 0 = 0 then gpow public_g new_bi
    else A * gpow public_g new_bi
  { R with b_arr := R.b_arr ++ [new_bi], B_arr := R.B_arr ++ [new_Bi] }

def Recipient.initB_arr (R : Recipient r G) (A public_g : G) (new_b : ℕ → Zr r) :
    Recipient r G :=
  (List.range R.sec_par).foldl (Recipient.initB_round A public_g new_b) R

def Recipient.new_OT_Recipient (R : Recipient r G) (part : ℕ) : OT_Recipient r G :=
  let sp_p := (R.sec_par - 1) - part
  { message_len := R.message_len, bit_c := R.bitstring.getD sp_p 0,
    B := R.B_arr.getD part 1, b := R.b_arr.getD part 0, key := fun _ => [] }

/-! ## The run -/

/-- The test of `main` before the transfer starts:
`product_Bs(B) == Cb * (Cs ^ a)`. -/
def skVerified [DecidableEq G] (s : Sender r G) (B_arr : List G) (Cb Cs : G) : Bool :=
  decide (s.product_Bs B_arr = Cb * gpow Cs s.a)

/-- The transfer loop: one `ot` for each of `parts`, its output in
`result[part]`. The local variable of the call for a part is `enc part`. -/
def otLoop (L : CryptoLib G) (s : Sender r G) (R : Recipient r G) (enc : ℕ → EncryptedReturn)
    (parts : List ℕ) : Option (Recipient r G) :=
  parts.foldlM (fun R part =>
    (ot L (s.new_OT_Sender part) (R.new_OT_Recipient part) (enc part)).map fun result_part =>
      { R with result := Function.update R.result part result_part }) R

/-- `finish`: the contents of `rec_out0.pgm`, `rec_out1.pgm` and so on. A
`message_len` below 0 is no round of the loop. -/
def Recipient.finish (R : Recipient r G) : Option (List Bytes) :=
  (List.range R.sec_par).mapM fun i => readBuffer (R.result i) R.message_len.toNat

/-- `main` up to the end of the transfer, on the drawn generator, key and
scalars and on the watermarked files, with what the failed test prints before
it exits. -/
def main [DecidableEq G] (L : CryptoLib G) (public_g : G) (R_sk a : Zr r) (new_b : ℕ → Zr r)
    (enc : ℕ → EncryptedReturn) (files : ℕ → ℕ → Bytes) :
    Option (Except String (Recipient r G)) :=
  let bitstring := padBitstring (Zr_to_bs R_sk)
  let sec_par := bitstring.length
  let s : Sender r G := Sender.watermark
    { sec_par := sec_par, message_len := 0, message := fun _ _ => [], a := 0, A := 1 } files
  let R := Recipient.mk' G R_sk bitstring sec_par s.message_len
  let s := s.initA public_g a
  let R := (R.initB_arr s.A public_g new_b).init_x
  if skVerified s R.B_arr (R.get_Cb public_g) (R.get_Cs public_g) then
    (otLoop L s R enc (List.range sec_par)).map .ok
  else some (.error "[-][-][-]SK verification invalid[-][-][-]\nStopping transfer...\n")

end Pepal.Images

import Mathlib.Logic.Function.Basic
import Libccll.Comm.Def
import Libccll.Foundation.Handles

/-! `cipher/rsa.c`, built with OpenSSL 3: key pairs, their export, and encryption with them.
The calls of OpenSSL deliver objects or refuse; whether they do is a parameter of each function.
-/

namespace Libccll.Rsa

open Foundation Handles

/-- What OpenSSL hands out. -/
inductive Kind where
  | pkey
  | ctx
  | bignum
  | bld
  | params
  | rsa
  | bio
  deriving DecidableEq

/-- A program next to the files on the disk, by their names. Different names are different files. -/
abbrev Files (ν : Type) := ν → Option (List UInt8)

abbrev Openssl (ν α : Type) := Program Kind (Files ν) α

/-- `CL_RSA_PEM_FORMAT` -/
inductive PemFormat where
  | pkcs1
  | pkcs8
  deriving DecidableEq

variable {ν : Type}

-----------------------------------------------------------------------------------------
-- Generating a key pair
-----------------------------------------------------------------------------------------

/-- The calls of `cl_rsa_gen` that may fail. -/
inductive GenCall where
  | ctxNewFromName
  | keygenInit
  | setRsaKeygenBits
  | bnNew
  | bnSetWord
  | bldNew
  | bldPushBn
  | bldToParam
  | ctxSetParams
  | keygen
  deriving DecidableEq

def allowedExpn : List Int := [65537]

def allowedBits : List Int := [2048, 4096]

/-- The block of `cl_rsa_gen` that sets the exponent, with `ctx` still to be freed when it fails. -/
def setPubexp (ok : GenCall → Bool) (ctx : Handle Kind) : Openssl ν Ret := do
  let some bnExp ← acquire .bignum (ok .bnNew) | return .fail
  use bnExp
  if ok .bnSetWord = false then
    release bnExp
    return .fail
  let some bld ← acquire .bld (ok .bldNew) | do
    release bnExp
    return .fail
  use bld
  use bnExp
  if ok .bldPushBn = false then
    release bnExp
    release bld
    return .fail
  use bld
  let params ← acquire .params (ok .bldToParam)
  release bnExp
  release bld
  let some params := params | return .fail
  use ctx
  use params
  if ok .ctxSetParams = false then
    release params
    return .fail
  release params
  return .succ

/-- `cl_rsa_gen`: what it returns, and what it stores in `*pkey`, if anything; `pkey` says that the
pointer is not `NULL`.
-/
def clRsaGen (ok : GenCall → Bool) (exponent bits : Int) (pkey : Bool)
    : Openssl ν (Ret × Option (Handle Kind)) := do
  if pkey = false then
    return (.fail, none)
  if exponent ∉ allowedExpn then
    return (.fail, none)
  if bits ∉ allowedBits then
    return (.fail, none)
  let some ctx ← acquire .ctx (ok .ctxNewFromName) | return (.fail, none)
  use ctx
  if ok .keygenInit = false then
    release ctx
    return (.fail, none)
  use ctx
  if ok .setRsaKeygenBits = false then
    release ctx
    return (.fail, none)
  let set ← setPubexp ok ctx
  if set = .fail then
    release ctx
    return (.fail, none)
  use ctx
  let some pk ← acquire .pkey (ok .keygen) | do
    release ctx
    return (.fail, none)
  release ctx
  return (.succ, some pk)

/-- `cl_rsa_destroy` -/
def clRsaDestroy (pkey : Option (Handle Kind)) : Openssl ν Unit :=
  match pkey with
  | none => return ()
  | some pkey => release pkey

-----------------------------------------------------------------------------------------
-- Extracting the parts of a key
-----------------------------------------------------------------------------------------

/-- `OSSL_PKEY_PARAM_RSA_*` -/
inductive Param where
  | n
  | e
  | d
  | factor1
  | factor2
  | exponent1
  | exponent2
  | coefficient1
  deriving DecidableEq

/-- Which parameters `EVP_PKEY_get_bn_param` delivers, and whether `RSA_new` does. -/
structure Extraction where
  has : Param → Bool
  rsaNew : Bool

/-- `EVP_PKEY_get_bn_param` -/
def getBnParam (ok : Extraction) (pkey : Handle Kind) (param : Param)
    : Openssl ν (Option (Handle Kind)) := do
  use pkey
  acquire .bignum (ok.has param)

/-- `RSA_set0_*` with numbers that are not `NULL`: they belong to the `RSA` from then on. -/
def set0 (rsa : Handle Kind) : List (Handle Kind) → Openssl ν Unit
  | [] => use rsa
  | bn :: bns => do
      release bn
      set0 rsa bns

/-- The same under the condition that none is `NULL`. -/
def set0If (rsa : Handle Kind) (bns : List (Option (Handle Kind))) : Openssl ν Unit :=
  if bns.all Option.isSome = true then set0 rsa (bns.flatMap Option.toList) else pure ()

/-- The second half of `cl_rsa_extract`. -/
def fillRsa (ok : Extraction) (pkey rsa n e : Handle Kind) : Openssl ν Unit := do
  let d ← getBnParam ok pkey .d
  let p ← getBnParam ok pkey .factor1
  let q ← getBnParam ok pkey .factor2
  let dp ← getBnParam ok pkey .exponent1
  let dq ← getBnParam ok pkey .exponent2
  let qinv ← getBnParam ok pkey .coefficient1
  set0 rsa (n :: e :: d.toList)
  set0If rsa [p, q]
  set0If rsa [dp, dq, qinv]

/-- `cl_rsa_extract`; freeing `NULL` does nothing. -/
def clRsaExtract (ok : Extraction) (pkey : Handle Kind) : Openssl ν (Option (Handle Kind)) := do
  let some n ← getBnParam ok pkey .n | return none
  let some e ← getBnParam ok pkey .e | do
    release n
    return none
  let some rsa ← acquire .rsa ok.rsaNew | do
    release n
    release e
    return none
  fillRsa ok pkey rsa n e
  return some rsa

-----------------------------------------------------------------------------------------
-- Exporting a key pair
-----------------------------------------------------------------------------------------

/-- How the export of one of the two keys goes: whether there is a `BIO`, what is extracted, whether
the key is written, and what it is as text.
-/
structure Export where
  bioNew : Bool
  extraction : Extraction
  pemWrite : Bool
  pem : List UInt8

/-- The key is written to a `BIO`, as the format has it. -/
def writeKey (format : PemFormat) (ok : Export) (pkey bio : Handle Kind) : Openssl ν Ret := do
  match format with
  | .pkcs1 =>
      let some rsa ← clRsaExtract ok.extraction pkey | return .fail
      use bio
      use rsa
      release rsa
      return if ok.pemWrite = true then .succ else .fail
  | .pkcs8 =>
      use bio
      use pkey
      return if ok.pemWrite = true then .succ else .fail

/-- How a file comes out: `closed` says that all that was written got to the disk when the `BIO` was
freed, and otherwise the file holds `torn`; `removed` says that `remove` can remove it.
-/
structure FileExport extends Export where
  closed : Bool
  torn : List UInt8
  removed : Bool

section

variable [DecidableEq ν]

/-- `remove`, under the condition that there is a name. Its result is ignored. -/
def removeIf (removed : Bool) : Option ν → Openssl ν Unit
  | none => pure ()
  | some fn =>
      update fun files => if removed = true then Function.update files fn none else files

/-- One of the two blocks of `cl_rsa_to_file`, up to what it does about the other file. -/
def exportFile (format : PemFormat) (ok : FileExport) (pkey : Handle Kind)
    : Option ν → Openssl ν Ret
  | none => pure .succ
  | some fn => do
      let some bio ← acquire .bio ok.bioNew | return .fail
      update fun files => Function.update files fn (some [])
      let written ← writeKey format ok.toExport pkey bio
      if written = .fail then
        release bio
        update fun files => Function.update files fn (some ok.torn)
        removeIf ok.removed (some fn)
        return .fail
      release bio
      update fun files =>
        Function.update files fn (some (if ok.closed = true then ok.pem else ok.torn))
      return .succ

/-- `cl_rsa_to_file`, where a name or a key that is `NULL` is `none`. -/
def clRsaToFile (format : PemFormat) (pub prv : FileExport) (pkey : Option (Handle Kind))
    (pubKeyFn prvKeyFn : Option ν)
    : Openssl ν Ret := do
  let some pkey := pkey | return .fail
  let ret ← exportFile format pub pkey pubKeyFn
  if ret = .fail then
    return .fail
  let ret ← exportFile format prv pkey prvKeyFn
  if ret = .fail then
    removeIf pub.removed pubKeyFn
    return .fail
  return .succ

end

/-- Where `cl_rsa_to_bytes` puts a key: the buffer or its length may be `NULL`. -/
structure Room where
  buf : Bool
  len : Bool

/-- One of the two blocks of `cl_rsa_to_bytes`: what is put into the buffer, if anything. -/
def exportBytes (format : PemFormat) (ok : Export) (pkey : Handle Kind) (room : Room)
    : Openssl ν (Ret × Option (List UInt8)) := do
  if room.buf = false then
    return (.succ, none)
  if room.len = false then
    return (.fail, none)
  let some bio ← acquire .bio ok.bioNew | return (.fail, none)
  let written ← writeKey format ok pkey bio
  if written = .fail then
    release bio
    return (.fail, none)
  use bio
  release bio
  return (.succ, some ok.pem)

/-- `cl_rsa_to_bytes`: what it returns, and what it puts into the two buffers. -/
def clRsaToBytes (format : PemFormat) (pub prv : Export) (pkey : Option (Handle Kind))
    (pubKey prvKey : Room)
    : Openssl ν (Ret × Option (List UInt8) × Option (List UInt8)) := do
  let some pkey := pkey | return (.fail, none, none)
  let (ret, pbk) ← exportBytes format pub pkey pubKey
  if ret = .fail then
    return (.fail, none, none)
  let (ret, pvk) ← exportBytes format prv pkey prvKey
  return (ret, pbk, pvk)

-----------------------------------------------------------------------------------------
-- Encryption
-----------------------------------------------------------------------------------------

/-- What is done with the key. -/
inductive Operation where
  | encrypt
  | sign
  | verifyRecover
  | decrypt
  deriving DecidableEq

/-- The calls of `cl_rsa_enc` and `cl_rsa_dec` that may fail. -/
inductive CryptCall where
  | ctxNew
  | init
  | setRsaPadding
  | querySize
  | crypt
  deriving DecidableEq

/-- Which calls of an operation succeed, and what it makes of the input. -/
structure Crypt where
  ok : Operation → CryptCall → Bool
  output : Operation → List UInt8

/-- The body of `cl_rsa_enc` and `cl_rsa_dec`: what is returned, and what is put into the output, if
anything. `args` says that the other pointers are not `NULL`.
-/
def crypt (ssl : Crypt) (operation : Operation) (pkey : Option (Handle Kind)) (args : Bool)
    : Openssl ν (Ret × Option (List UInt8)) := do
  let ok := ssl.ok operation
  let some pkey := pkey | return (.fail, none)
  if args = false then
    return (.fail, none)
  use pkey
  let some ctx ← acquire .ctx (ok .ctxNew) | return (.fail, none)
  use ctx
  if ok .init = false then
    release ctx
    return (.fail, none)
  use ctx
  if ok .setRsaPadding = false then
    release ctx
    return (.fail, none)
  use ctx
  if ok .querySize = false then
    release ctx
    return (.fail, none)
  use ctx
  if ok .crypt = false then
    release ctx
    return (.fail, none)
  release ctx
  return (.succ, some (ssl.output operation))

/-- `cl_rsa_enc` -/
def clRsaEnc (ssl : Crypt) (pkey : Option (Handle Kind)) (withPbk args : Bool)
    : Openssl ν (Ret × Option (List UInt8)) :=
  crypt ssl (if withPbk = true then .encrypt else .sign) pkey args

/-- `cl_rsa_dec` -/
def clRsaDec (ssl : Crypt) (pkey : Option (Handle Kind)) (withPbk args : Bool)
    : Openssl ν (Ret × Option (List UInt8)) :=
  crypt ssl (if withPbk = true then .verifyRecover else .decrypt) pkey args

end Libccll.Rsa

import Mathlib.Algebra.GroupWithZero.Nat
import Libccll.Cipher.RsaObjects
import Libccll.Foundation.Transition

/-! A program that makes keys, exports them, encrypts with them and destroys them, call by call. -/

namespace Libccll.Rsa

open Foundation Handles

variable {ν : Type} [DecidableEq ν] {format : PemFormat} {files : Files ν}

/-- A call, and what OpenSSL answers in it. -/
inductive Call (ν : Type) where
  | gen (ok : GenCall → Bool) (exponent bits : Int) (pkey : Bool)
  | destroy (pkey : Option (Handle Kind))
  | toFile (pub prv : FileExport) (pkey : Option (Handle Kind)) (pubKeyFn prvKeyFn : Option ν)
  | toBytes (pub prv : Export) (pkey : Option (Handle Kind)) (pubKey prvKey : Room)
  | enc (ssl : Crypt) (pkey : Option (Handle Kind)) (withPbk args : Bool)
  | dec (ssl : Crypt) (pkey : Option (Handle Kind)) (withPbk args : Bool)

/-- The key that the call is about. -/
def Call.pkey : Call ν → Option (Handle Kind)
  | .gen _ _ _ _ => none
  | .destroy pkey => pkey
  | .toFile _ _ pkey _ _ => pkey
  | .toBytes _ _ pkey _ _ => pkey
  | .enc _ pkey _ _ => pkey
  | .dec _ pkey _ _ => pkey

/-- The keys are those that the program was given and has not destroyed. -/
structure Session (ν : Type) where
  ledger : Ledger Kind
  files : Files ν
  keys : List (Handle Kind)

def Session.initial (files : Files ν) : Session ν := ⟨Ledger.empty, files, []⟩

/-- The program makes no use of a key that it does not have. -/
def Session.Keeps (s : Session ν) (call : Call ν) : Prop := ∀ pkey ∈ call.pkey, pkey ∈ s.keys

omit [DecidableEq ν] in
instance (s : Session ν) (call : Call ν) : Decidable (s.Keeps call) :=
  inferInstanceAs (Decidable (∀ pkey ∈ call.pkey, pkey ∈ s.keys))

/-- The call is carried out. -/
def Session.perform {α : Type} (s : Session ν) (call : Openssl ν α)
    (keys : α → List (Handle Kind))
    : Session ν :=
  let (out, ledger, files) := call (s.ledger, s.files)
  ⟨ledger, files, keys out⟩

def step (format : PemFormat) (s : Session ν) : Call ν → Option (Session ν)
  | .gen ok exponent bits pkey =>
      some (s.perform (clRsaGen ok exponent bits pkey) fun out => out.2.toList ++ s.keys)
  | .destroy pkey => some (s.perform (clRsaDestroy pkey) fun _ => pkey.elim s.keys s.keys.erase)
  | .toFile pub prv pkey pubKeyFn prvKeyFn =>
      some (s.perform (clRsaToFile format pub prv pkey pubKeyFn prvKeyFn) fun _ => s.keys)
  | .toBytes pub prv pkey pubKey prvKey =>
      some (s.perform (clRsaToBytes format pub prv pkey pubKey prvKey) fun _ => s.keys)
  | .enc ssl pkey withPbk args => some (s.perform (clRsaEnc ssl pkey withPbk args) fun _ => s.keys)
  | .dec ssl pkey withPbk args => some (s.perform (clRsaDec ssl pkey withPbk args) fun _ => s.keys)

/-- How many numbers are lost in the call. -/
def Call.lost (format : PemFormat) : Call ν → Nat
  | .toFile pub prv (some _) pubKeyFn prvKeyFn =>
      pub.lostFor format pubKeyFn
      + if pub.passes format pubKeyFn = true then prv.lostFor format prvKeyFn else 0
  | .toBytes pub prv (some _) pubKey prvKey =>
      pub.lostIn format pubKey
      + if (pub.delivered format pubKey).1 ≠ .fail then prv.lostIn format prvKey else 0
  | _ => 0

/-- The keys are live, and so many numbers that were lost. -/
def Session.Accounts (s : Session ν) (n : Nat) : Prop :=
  s.ledger.misused = false
  ∧ ∃ lost : List (Handle Kind), lost.length = n ∧ s.ledger.live.Perm (s.keys ++ lost)

variable {s s' : Session ν} {n m : Nat}

omit [DecidableEq ν] in
/-- A call that leaves its keys, and loses so many numbers. -/
theorem Session.Accounts.perform {α : Type} {call : Openssl ν α} {keys : α → List (Handle Kind)}
    (accounts : s.Accounts n)
    (meets
      : Meets call s.keys s.files fun out hs' _ =>
          ∃ lost : List (Handle Kind), lost.length = m ∧ hs'.Perm (lost ++ keys out))
    : (s.perform call keys).Accounts (n + m) := by
  obtain ⟨proper, lost, length, live⟩ := accounts
  obtain ⟨hs', owns, lost', length', owned⟩ := meets lost s.ledger ⟨live, proper⟩
  refine ⟨owns.proper, lost' ++ lost, ?_, (owns.perm owned).live.trans ?_⟩
  · rw [List.length_append, length, length', Nat.add_comm]
  · rw [← List.append_assoc]
    exact List.perm_append_comm.append_right lost

omit [DecidableEq ν] in
/-- A call that leaves its keys and loses nothing. -/
theorem Session.Accounts.tidy {α : Type} {call : Openssl ν α} {keys : α → List (Handle Kind)}
    (accounts : s.Accounts n)
    (meets : Meets call s.keys s.files fun out hs' _ => hs'.Perm (keys out))
    : (s.perform call keys).Accounts (n + 0) :=
  accounts.perform (meets.mono fun _ _ _ owned => ⟨[], rfl, owned⟩)

omit [DecidableEq ν] in
theorem Session.Accounts.crypt {ssl : Crypt} {operation : Operation}
    {pkey : Option (Handle Kind)} {args : Bool} (accounts : s.Accounts n)
    (keeps : ∀ key ∈ pkey, key ∈ s.keys)
    : (s.perform (Rsa.crypt ssl operation pkey args) fun _ => s.keys).Accounts (n + 0) := by
  refine accounts.tidy ?_
  cases pkey with
  | none => exact Meets.pure (List.Perm.refl _)
  | some pkey =>
      refine (crypt_meets (keeps pkey rfl)).mono fun _ hs' _ post => ?_
      obtain ⟨-, rfl, -⟩ := post
      exact List.Perm.refl _

theorem Session.Accounts.step {call : Call ν} (accounts : s.Accounts n)
    (taken : Transition.restrict Session.Keeps (Rsa.step format) s call = some s')
    : s'.Accounts (n + call.lost format) := by
  obtain ⟨keeps, stepped⟩ := Transition.restrict_eq_some_iff.mp taken
  cases call <;> obtain rfl := Option.some.inj stepped
  case gen ok exponent bits pkey =>
    exact accounts.tidy (clRsaGen_meets.mono fun _ _ _ post => post.2.2.2)
  case destroy pkey =>
    refine accounts.tidy ?_
    cases pkey with
    | none => exact Meets.pure (List.Perm.refl _)
    | some pkey =>
        have owned := List.perm_cons_erase (keeps pkey rfl)
        refine (clRsaDestroy_meets (s.keys.erase pkey) owned).mono fun _ hs' _ post => ?_
        obtain ⟨-, rfl⟩ := post
        exact List.Perm.refl _
  case toFile pub prv pkey pubKeyFn prvKeyFn =>
    cases pkey with
    | none => exact accounts.tidy (Meets.pure (List.Perm.refl _))
    | some pkey =>
        exact accounts.perform
          ((clRsaToFile_meets (keeps pkey rfl)).mono fun _ _ _ post => post.2.2)
  case toBytes pub prv pkey pubKey prvKey =>
    cases pkey with
    | none => exact accounts.tidy (Meets.pure (List.Perm.refl _))
    | some pkey =>
        exact accounts.perform
          ((clRsaToBytes_meets (keeps pkey rfl)).mono fun _ _ _ post => post.2.2)
  case enc ssl pkey withPbk args => exact accounts.crypt keeps
  case dec ssl pkey withPbk args => exact accounts.crypt keeps

/-- The block gets as far as to open its file. -/
def FileExport.opens (file : FileExport) (fn : Option ν) : Bool := fn.isSome && file.bioNew

/-- What the file holds behind a block that passes. -/
def FileExport.text (file : FileExport) : List UInt8 :=
  if file.closed = true then file.pem else file.torn

variable {pub prv file : FileExport} {pubKeyFn prvKeyFn fn : Option ν}

/-- The names of the files that `cl_rsa_to_file` opens. -/
def opened (format : PemFormat) (pub prv : FileExport) (pubKeyFn prvKeyFn : Option ν) : List ν :=
  (if pub.opens pubKeyFn = true then pubKeyFn.toList else [])
  ++ if (pub.passes format pubKeyFn && prv.opens prvKeyFn) = true then prvKeyFn.toList else []

end Libccll.Rsa

import Libccll.Cipher.Rsa

/-! What the functions of `cipher/rsa.c` own at their end, whatever OpenSSL answers. -/

namespace Libccll.Rsa

open Foundation Handles

def retOf (done : Bool) : Ret := if done = true then .succ else .fail

theorem retOf_fail {done : Bool} (failed : retOf done = .fail) : done = false := by
  cases done with
  | false => rfl
  | true => cases failed

theorem retOf_succ {done : Bool} (passed : ¬retOf done = .fail) : done = true := by
  cases done with
  | false => exact absurd rfl passed
  | true => rfl

variable {ν : Type} {hs : List (Handle Kind)} {files : Files ν}
variable {pkey rsa bio : Handle Kind}

-----------------------------------------------------------------------------------------
-- Extraction
-----------------------------------------------------------------------------------------

/-- There is an `RSA`. -/
def Extraction.delivers (ok : Extraction) : Bool := ok.has .n && ok.has .e && ok.rsaNew

/-- How many of these numbers are lost: all that there are, unless all are there. -/
def Extraction.partly (ok : Extraction) (params : List Param) : Nat :=
  if params.all ok.has = true then 0 else (params.filter ok.has).length

/-- How many numbers `cl_rsa_extract` fails to hand over. -/
def Extraction.lost (ok : Extraction) : Nat :=
  if ok.delivers = true then
    ok.partly [.factor1, .factor2] + ok.partly [.exponent1, .exponent2, .coefficient1]
  else
    0

variable {extraction : Extraction}

theorem getBnParam_meets {param : Param}
    {post : Option (Handle Kind) → List (Handle Kind) → Files ν → Prop} (member : pkey ∈ hs)
    (later
      : ∀ bn : Option (Handle Kind),
          bn.isSome = extraction.has param → post bn (bn.toList ++ hs) files)
    : Meets (getBnParam extraction pkey param) hs files post :=
  Meets.bind <| Meets.use member <|
    Meets.acquire (fun refused => later none refused.symm) fun granted h _ =>
      later (some h) granted.symm

/-- The numbers belong to the `RSA`. -/
theorem set0_meets (rest : List (Handle Kind)) {bns : List (Handle Kind)}
    {post : Unit → List (Handle Kind) → Files ν → Prop} (owned : hs.Perm (bns ++ rest))
    (member : rsa ∈ rest) (later : post () rest files)
    : Meets (set0 rsa bns) hs files post := by
  induction bns generalizing hs with
  | nil => exact Meets.perm owned (Meets.use member later)
  | cons bn bns ih => exact Meets.bind (Meets.release (bns ++ rest) owned (ih (List.Perm.refl _)))

/-- What is delivered, counted by the parameters asked for. -/
theorem partly_eq {bns : List (Option (Handle Kind))} {params : List Param}
    (delivered : bns.map Option.isSome = params.map extraction.has)
    : (if bns.all Option.isSome = true then 0 else (bns.flatMap Option.toList).length)
      = extraction.partly params := by
  have counted
      : bns.all Option.isSome = params.all extraction.has
        ∧ (bns.flatMap Option.toList).length = (params.filter extraction.has).length := by
    induction params generalizing bns with
    | nil =>
        obtain rfl := List.map_eq_nil_iff.mp delivered
        exact ⟨rfl, rfl⟩
    | cons param params ih =>
        obtain ⟨bn, bns, rfl⟩ : ∃ bn bns', bns = bn :: bns' := by
          cases bns with
          | nil => cases delivered
          | cons bn bns => exact ⟨bn, bns, rfl⟩
        obtain ⟨here, later⟩ := List.cons.inj delivered
        obtain ⟨all, length⟩ := ih later
        rw [List.all_cons, List.all_cons, List.filter_cons, here, all]
        refine ⟨rfl, ?_⟩
        cases bn with
        | none =>
            have absent : ¬extraction.has param = true := Bool.eq_false_iff.mp here.symm
            rw [if_neg absent, List.flatMap_cons, Option.toList_none, List.nil_append, length]
        | some bn =>
            have present : extraction.has param = true := here.symm
            rw [if_pos present, List.flatMap_cons, Option.toList_some, List.singleton_append,
              List.length_cons, length, List.length_cons]
  rw [Extraction.partly, counted.1, counted.2]

/-- The numbers belong to the `RSA`, or are lost when one is missing. -/
theorem set0If_meets (params : List Param) (rest : List (Handle Kind))
    {bns : List (Option (Handle Kind))}
    {post : Unit → List (Handle Kind) → Files ν → Prop}
    (delivered : bns.map Option.isSome = params.map extraction.has)
    (owned : hs.Perm (bns.flatMap Option.toList ++ rest)) (member : rsa ∈ rest)
    (later
      : ∀ lost : List (Handle Kind),
          lost.length = extraction.partly params → post () (lost ++ rest) files)
    : Meets (set0If rsa bns) hs files post := by
  have counted := partly_eq delivered
  refine Meets.ite (fun all => ?_) fun missing => ?_
  · rw [if_pos all] at counted
    exact set0_meets rest owned member (later [] counted)
  · rw [if_neg missing] at counted
    exact Meets.perm owned (Meets.pure (later _ counted))

/-- The `RSA` has all that is there of it, but for numbers of which there are only some. -/
theorem fillRsa_meets {n e : Handle Kind} (member : pkey ∈ hs)
    : Meets (fillRsa extraction pkey rsa n e) (rsa :: e :: n :: hs) files fun _ hs' files' =>
        files' = files
        ∧ ∃ lost : List (Handle Kind),
          lost.length
            = extraction.partly [.factor1, .factor2]
              + extraction.partly [.exponent1, .exponent2, .coefficient1]
          ∧ hs'.Perm (rsa :: (lost ++ hs)) := by
  have there {hs' : List (Handle Kind)} (bns : List (Handle Kind)) (member : pkey ∈ hs')
      : pkey ∈ bns ++ hs' := List.mem_append_right bns member
  have start : pkey ∈ rsa :: e :: n :: hs := there [rsa, e, n] member
  rw [fillRsa]
  refine Meets.bind (getBnParam_meets start fun d _ => ?_)
  have more := there d.toList start
  refine Meets.bind (getBnParam_meets more fun p hasP => ?_)
  have more := there p.toList more
  refine Meets.bind (getBnParam_meets more fun q hasQ => ?_)
  have more := there q.toList more
  refine Meets.bind (getBnParam_meets more fun dp hasDp => ?_)
  have more := there dp.toList more
  refine Meets.bind (getBnParam_meets more fun dq hasDq => ?_)
  have more := there dq.toList more
  refine Meets.bind (getBnParam_meets more fun qinv hasQinv => ?_)
  have factors : [p, q].map Option.isSome = [Param.factor1, .factor2].map extraction.has := by
    simp only [List.map_cons, List.map_nil, hasP, hasQ]
  have exponents
      : [dp, dq, qinv].map Option.isSome
        = [Param.exponent1, .exponent2, .coefficient1].map extraction.has := by
    simp only [List.map_cons, List.map_nil, hasDp, hasDq, hasQinv]
  -- what is owned at the four stages differs in the order of the handles only
  refine Meets.bind <| set0_meets
    (p.toList ++ q.toList ++ (dp.toList ++ dq.toList ++ qinv.toList) ++ rsa :: hs)
    (List.perm_iff_count.mpr fun h => ?_) (by simp) ?_
  · simp only [List.count_append, List.count_cons]
    omega
  refine Meets.bind <| set0If_meets [.factor1, .factor2]
    (dp.toList ++ dq.toList ++ qinv.toList ++ rsa :: hs) factors
    (List.perm_iff_count.mpr fun h => ?_) (by simp) fun lost₁ some₁ => ?_
  · simp only [List.count_append, List.flatMap_cons, List.flatMap_nil, List.count_nil]
    omega
  refine set0If_meets [.exponent1, .exponent2, .coefficient1]
    (lost₁ ++ rsa :: hs) exponents
    (List.perm_iff_count.mpr fun h => ?_) (by simp) fun lost₂ some₂ => ?_
  · simp only [List.count_append, List.flatMap_cons, List.flatMap_nil, List.count_nil]
    omega
  refine ⟨rfl, lost₁ ++ lost₂, ?_, List.perm_iff_count.mpr fun h => ?_⟩
  · rw [List.length_append, some₁, some₂]
  · simp only [List.count_append, List.count_cons]
    omega

/-- Nothing comes of an extraction that is refused, and nothing is lost. -/
theorem refused_meets {hs' : List (Handle Kind)} (refused : extraction.delivers = false)
    (same : hs'.Perm hs)
    : Meets (Pure.pure none) hs' files fun delivered hs' files' =>
        files' = files
        ∧ delivered.isSome = extraction.delivers
        ∧ ∃ lost : List (Handle Kind),
          lost.length = extraction.lost
          ∧ hs'.Perm (delivered.toList ++ (lost ++ hs)) := by
  refine Meets.pure ⟨rfl, refused.symm, [], ?_, same⟩
  rw [Extraction.lost, refused]
  rfl

/-- `cl_rsa_extract` delivers an `RSA` that has all it was given, and loses numbers of which there
are only some.
-/
theorem clRsaExtract_meets (member : pkey ∈ hs)
    : Meets (clRsaExtract extraction pkey) hs files fun delivered hs' files' =>
        files' = files
        ∧ delivered.isSome = extraction.delivers
        ∧ ∃ lost : List (Handle Kind),
          lost.length = extraction.lost
          ∧ hs'.Perm (delivered.toList ++ (lost ++ hs)) := by
  rw [clRsaExtract]
  refine Meets.bind (getBnParam_meets member fun n hasN => ?_)
  rcases n with _ | n
  · refine refused_meets ?_ (List.Perm.refl _)
    rw [Extraction.delivers, ← hasN]
    rfl
  refine Meets.bind (getBnParam_meets (List.mem_cons_of_mem n member) fun e hasE => ?_)
  rcases e with _ | e
  · refine Meets.bind (Meets.release hs (List.Perm.refl _) (refused_meets ?_ (List.Perm.refl _)))
    rw [Extraction.delivers, ← hasN, ← hasE]
    rfl
  refine Meets.bind (Meets.acquire (fun refused => ?_) fun granted rsa _ => ?_)
  · refine Meets.bind (Meets.release (e :: hs) (List.Perm.swap n e hs) ?_)
    refine Meets.bind (Meets.release hs (List.Perm.refl _) (refused_meets ?_ (List.Perm.refl _)))
    rw [Extraction.delivers, refused, Bool.and_false]
  · refine Meets.bind (Meets.mono (fillRsa_meets member) fun _ hs' files' filled => ?_)
    obtain ⟨same, lost, length, owned⟩ := filled
    have delivers : extraction.delivers = true := by
      rw [Extraction.delivers, ← hasN, ← hasE, granted]
      rfl
    refine Meets.pure ⟨same, delivers.symm, lost, ?_, owned⟩
    rw [Extraction.lost, if_pos delivers, length]

-----------------------------------------------------------------------------------------
-- Export
-----------------------------------------------------------------------------------------

/-- The key gets into the `BIO`. -/
def Export.writes (format : PemFormat) (ok : Export) : Bool :=
  match format with
  | .pkcs1 => ok.extraction.delivers && ok.pemWrite
  | .pkcs8 => ok.pemWrite

/-- How many numbers are lost by an export that has a `BIO`. -/
def Export.lost (format : PemFormat) (ok : Export) : Nat :=
  match format with
  | .pkcs1 => if ok.bioNew = true then ok.extraction.lost else 0
  | .pkcs8 => 0

variable {format : PemFormat} {ok : Export}

theorem writeKey_meets (bioNew : ok.bioNew = true) (member : pkey ∈ hs) (member' : bio ∈ hs)
    : Meets (writeKey format ok pkey bio) hs files fun ret hs' files' =>
        files' = files
        ∧ ret = retOf (ok.writes format)
        ∧ ∃ lost : List (Handle Kind),
          lost.length = ok.lost format ∧ hs'.Perm (lost ++ hs) := by
  cases format with
  | pkcs1 =>
      rw [writeKey]
      refine Meets.bind (Meets.mono (clRsaExtract_meets member) fun rsa hs' files' extracted => ?_)
      obtain ⟨rfl, delivered, lost, length, owned⟩ := extracted
      have length' : lost.length = ok.lost .pkcs1 := by
        rw [length, Export.lost, if_pos bioNew]
      rcases rsa with _ | rsa
      · refine Meets.pure ⟨rfl, ?_, lost, length', owned⟩
        rw [Export.writes, ← delivered]
        rfl
      · have bio' : bio ∈ hs' := owned.mem_iff.mpr (by simp [member'])
        have rsa' : rsa ∈ hs' := owned.mem_iff.mpr (by simp)
        refine Meets.bind (Meets.use bio' (Meets.bind (Meets.use rsa' ?_)))
        refine Meets.bind (Meets.release (lost ++ hs) owned (Meets.pure ?_))
        refine ⟨rfl, ?_, lost, length', List.Perm.refl _⟩
        rw [Export.writes, ← delivered]
        rfl
  | pkcs8 =>
      rw [writeKey]
      exact Meets.bind (Meets.use member' (Meets.bind (Meets.use member
        (Meets.pure ⟨rfl, rfl, [], rfl, List.Perm.refl _⟩))))

/-- The key is exported. -/
def Export.done (format : PemFormat) (ok : Export) : Bool := ok.bioNew && ok.writes format

theorem Export.lost_of_refused (refused : ok.bioNew = false) : ok.lost format = 0 := by
  cases format with
  | pkcs1 => rw [Export.lost, refused]; rfl
  | pkcs8 => rfl

/-- What one of the blocks of `cl_rsa_to_bytes` comes to. -/
def Export.delivered (format : PemFormat) (ok : Export) (room : Room)
    : Ret × Option (List UInt8) :=
  if room.buf = false then (.succ, none)
  else if (room.len && ok.done format) = true then (.succ, some ok.pem)
  else (.fail, none)

/-- How many numbers are lost there. -/
def Export.lostIn (format : PemFormat) (ok : Export) (room : Room) : Nat :=
  if (room.buf && room.len) = true then ok.lost format else 0

theorem exportBytes_meets {room : Room} (member : pkey ∈ hs)
    : Meets (exportBytes format ok pkey room) hs files fun out hs' files' =>
        files' = files
        ∧ out = ok.delivered format room
        ∧ ∃ lost : List (Handle Kind),
          lost.length = ok.lostIn format room ∧ hs'.Perm (lost ++ hs) := by
  rw [exportBytes]
  refine Meets.ite (fun noBuf => Meets.pure ?_) fun buf => ?_
  · refine ⟨rfl, by rw [Export.delivered, if_pos noBuf], [], ?_, List.Perm.refl _⟩
    rw [Export.lostIn, noBuf]
    rfl
  have buf : room.buf = true := eq_true_of_ne_false buf
  have delivered : ok.delivered format room
      = if (room.len && ok.done format) = true then (.succ, some ok.pem) else (.fail, none) := by
    rw [Export.delivered, if_neg (Bool.ne_false_iff.mpr buf)]
  rw [delivered, Export.lostIn, buf, Bool.true_and]
  refine Meets.ite (fun noLen => Meets.pure ?_) fun len => ?_
  · rw [noLen]
    exact ⟨rfl, rfl, [], rfl, List.Perm.refl _⟩
  rw [eq_true_of_ne_false len, if_pos rfl, Bool.true_and, Export.done]
  refine Meets.bind (Meets.acquire (fun refused => Meets.pure ?_) fun granted bio _ => ?_)
  · rw [refused]
    exact ⟨rfl, rfl, [], (Export.lost_of_refused refused).symm, List.Perm.refl _⟩
  rw [granted, Bool.true_and]
  refine Meets.bind (Meets.mono
    (writeKey_meets granted (List.mem_cons_of_mem bio member) List.mem_cons_self)
    fun ret hs' files' written => ?_)
  obtain ⟨rfl, rfl, lost, length, owned⟩ := written
  have first : hs'.Perm (bio :: (lost ++ hs)) := owned.trans List.perm_middle
  rcases Bool.eq_false_or_eq_true (ok.writes format) with yes | no
  · rw [yes]
    have bio' : bio ∈ hs' := first.mem_iff.mpr List.mem_cons_self
    exact Meets.bind (Meets.use bio' (Meets.bind (Meets.release _ first
      (Meets.pure ⟨rfl, rfl, lost, length, List.Perm.refl _⟩))))
  · rw [no]
    exact Meets.bind (Meets.release _ first
      (Meets.pure ⟨rfl, rfl, lost, length, List.Perm.refl _⟩))

section

variable [DecidableEq ν] {file : FileExport}

/-- The files behind one of the blocks of `cl_rsa_to_file`. -/
def FileExport.leaves (format : PemFormat) (file : FileExport) (fn : Option ν) (files : Files ν)
    : Files ν :=
  match fn with
  | none => files
  | some fn =>
      if file.bioNew = false then files
      else if file.writes format = true then
        Function.update files fn (some (if file.closed = true then file.pem else file.torn))
      else Function.update files fn (if file.removed = true then none else some file.torn)

/-- The block is left without a failure. -/
def FileExport.passes (format : PemFormat) (file : FileExport) (fn : Option ν) : Bool :=
  fn.isNone || file.done format

/-- How many numbers are lost there. -/
def FileExport.lostFor (format : PemFormat) (file : FileExport) (fn : Option ν) : Nat :=
  if fn.isSome = true then file.lost format else 0

/-- Without the file, if there is a name and the file can be removed. -/
def Files.without (files : Files ν) (removed : Bool) : Option ν → Files ν
  | none => files
  | some fn => if removed = true then Function.update files fn none else files

theorem removeIf_meets {removed : Bool} {fn : Option ν}
    {post : Unit → List (Handle Kind) → Files ν → Prop}
    (later : post () hs (Files.without files removed fn))
    : Meets (removeIf removed fn) hs files post := by
  cases fn with
  | none => exact Meets.pure later
  | some fn => exact Meets.update later

theorem exportFile_meets {fn : Option ν} (member : pkey ∈ hs)
    : Meets (exportFile format file pkey fn) hs files fun ret hs' files' =>
        files' = file.leaves format fn files
        ∧ ret = retOf (file.passes format fn)
        ∧ ∃ lost : List (Handle Kind),
          lost.length = file.lostFor format fn ∧ hs'.Perm (lost ++ hs) := by
  rcases fn with _ | fn
  · exact Meets.pure ⟨rfl, rfl, [], rfl, List.Perm.refl _⟩
  rw [exportFile, FileExport.leaves, FileExport.passes, FileExport.lostFor, Export.done]
  refine Meets.bind (Meets.acquire (fun refused => Meets.pure ?_) fun granted bio _ => ?_)
  · rw [refused]
    exact ⟨rfl, rfl, [], (Export.lost_of_refused refused).symm, List.Perm.refl _⟩
  rw [granted, if_neg (show ¬true = false by decide)]
  refine Meets.bind (Meets.update (Meets.bind (Meets.mono
    (writeKey_meets granted (List.mem_cons_of_mem bio member) List.mem_cons_self)
    fun ret hs' files' written => ?_)))
  obtain ⟨rfl, rfl, lost, length, owned⟩ := written
  have first : hs'.Perm (bio :: (lost ++ hs)) := owned.trans List.perm_middle
  rcases Bool.eq_false_or_eq_true (file.writes format) with yes | no
  · rw [yes]
    refine Meets.bind (Meets.release _ first (Meets.bind (Meets.update (Meets.pure ?_))))
    exact ⟨Function.update_idem _ _ _, rfl, lost, length, List.Perm.refl _⟩
  · rw [no]
    refine Meets.bind (Meets.release _ first (Meets.bind (Meets.update (Meets.bind
      (removeIf_meets (Meets.pure ⟨?_, rfl, lost, length, List.Perm.refl _⟩))))))
    rw [Files.without, Function.update_idem, if_neg Bool.false_ne_true]
    split
    · exact Function.update_idem _ _ _
    · exact Function.update_idem _ _ _

/-- `cl_rsa_to_file` with a key. -/
theorem clRsaToFile_meets {pub prv : FileExport} {pubKeyFn prvKeyFn : Option ν}
    (member : pkey ∈ hs)
    : Meets (clRsaToFile format pub prv (some pkey) pubKeyFn prvKeyFn) hs files
        fun ret hs' files' =>
          let passes := pub.passes format pubKeyFn
          let published := pub.leaves format pubKeyFn files
          let all := prv.leaves format prvKeyFn published
          ret = retOf (passes && prv.passes format prvKeyFn)
          ∧ files'
            = (if passes = false then published
              else if prv.passes format prvKeyFn = false then Files.without all pub.removed pubKeyFn
              else all)
          ∧ ∃ lost : List (Handle Kind),
            lost.length
              = pub.lostFor format pubKeyFn
                + (if passes = true then prv.lostFor format prvKeyFn else 0)
            ∧ hs'.Perm (lost ++ hs) := by
  rw [clRsaToFile]
  refine Meets.bind (Meets.mono (exportFile_meets member) fun ret hs₁ files₁ exported => ?_)
  obtain ⟨rfl, rfl, lost₁, length₁, owned₁⟩ := exported
  rcases Bool.eq_false_or_eq_true (pub.passes format pubKeyFn) with yes | no
  · rw [yes]
    have member₁ : pkey ∈ hs₁ := owned₁.mem_iff.mpr (List.mem_append_right _ member)
    refine Meets.bind (Meets.mono (exportFile_meets member₁) fun ret hs₂ files₂ exported => ?_)
    obtain ⟨rfl, rfl, lost₂, length₂, owned₂⟩ := exported
    have both : hs₂.Perm ((lost₂ ++ lost₁) ++ hs) := by
      rw [List.append_assoc]
      exact owned₂.trans (owned₁.append_left lost₂)
    have counted
        : (lost₂ ++ lost₁).length
          = pub.lostFor format pubKeyFn + prv.lostFor format prvKeyFn := by
      rw [List.length_append, length₁, length₂, Nat.add_comm]
    rcases Bool.eq_false_or_eq_true (prv.passes format prvKeyFn) with yes' | no'
    · rw [yes']
      exact Meets.pure ⟨rfl, rfl, _, counted, both⟩
    · rw [no']
      exact Meets.bind (removeIf_meets (Meets.pure ⟨rfl, rfl, _, counted, both⟩))
  · rw [no]
    exact Meets.pure ⟨rfl, rfl, lost₁, length₁, owned₁⟩

end

/-- `cl_rsa_to_bytes` with a key. -/
theorem clRsaToBytes_meets {pub prv : Export} {pubKey prvKey : Room} (member : pkey ∈ hs)
    : Meets (clRsaToBytes format pub prv (some pkey) pubKey prvKey) hs files
        fun out hs' files' =>
          let passes := (pub.delivered format pubKey).1 ≠ .fail
          files' = files
          ∧ out
            = (if passes then
                ((prv.delivered format prvKey).1, (pub.delivered format pubKey).2,
                  (prv.delivered format prvKey).2)
              else (.fail, none, none))
          ∧ ∃ lost : List (Handle Kind),
            lost.length
              = pub.lostIn format pubKey + (if passes then prv.lostIn format prvKey else 0)
            ∧ hs'.Perm (lost ++ hs) := by
  rw [clRsaToBytes]
  refine Meets.bind (Meets.mono (exportBytes_meets member) fun out hs₁ files₁ exported => ?_)
  obtain ⟨ret, pbk⟩ := out
  obtain ⟨rfl, is, lost₁, length₁, owned₁⟩ := exported
  rw [← is]
  refine Meets.ite (fun failed => Meets.pure ?_) fun passes => ?_
  · refine ⟨rfl, (if_neg (not_not.mpr failed)).symm, lost₁, ?_, owned₁⟩
    rw [length₁, if_neg (not_not.mpr failed), Nat.add_zero]
  · have member₁ : pkey ∈ hs₁ := owned₁.mem_iff.mpr (List.mem_append_right _ member)
    refine Meets.bind (Meets.mono (exportBytes_meets member₁) fun out hs₂ files₂ exported => ?_)
    obtain ⟨ret', pvk⟩ := out
    obtain ⟨rfl, is', lost₂, length₂, owned₂⟩ := exported
    rw [← is']
    refine Meets.pure ⟨rfl, (if_pos passes).symm, lost₂ ++ lost₁, ?_, ?_⟩
    · rw [List.length_append, length₁, length₂, if_pos passes, Nat.add_comm]
    · rw [List.append_assoc]
      exact owned₂.trans (owned₁.append_left lost₂)

-----------------------------------------------------------------------------------------
-- Generation and encryption
-----------------------------------------------------------------------------------------

variable {call : GenCall → Bool} {ctx : Handle Kind}

theorem setPubexp_meets (member : ctx ∈ hs)
    : Meets (setPubexp call ctx) hs files fun ret hs' files' =>
        files' = files
        ∧ hs' = hs
        ∧ ret
          = retOf
            (call .bnNew && call .bnSetWord && call .bldNew && call .bldPushBn && call .bldToParam
              && call .ctxSetParams) := by
  rw [setPubexp]
  refine Meets.bind (Meets.acquire (fun refused => Meets.pure ?_) fun bnNew bn _ => ?_)
  · exact ⟨rfl, rfl, by rw [refused]; rfl⟩
  refine Meets.bind (Meets.use List.mem_cons_self (Meets.ite (fun refused => ?_) fun setWord => ?_))
  · refine Meets.bind (Meets.release hs (List.Perm.refl _) (Meets.pure ⟨rfl, rfl, ?_⟩))
    rw [refused, Bool.and_false]
    rfl
  refine Meets.bind (Meets.acquire (fun refused => ?_) fun bldNew bld _ => ?_)
  · refine Meets.bind (Meets.release hs (List.Perm.refl _) (Meets.pure ⟨rfl, rfl, ?_⟩))
    rw [refused, Bool.and_false]
    rfl
  have bld' : bld ∈ bld :: bn :: hs := List.mem_cons_self
  have bn' : bn ∈ bld :: bn :: hs := List.mem_cons_of_mem bld List.mem_cons_self
  have swapped : (bld :: bn :: hs).Perm (bn :: bld :: hs) := List.Perm.swap bn bld hs
  refine Meets.bind (Meets.use bld' (Meets.bind (Meets.use bn' ?_)))
  refine Meets.ite (fun refused => ?_) fun pushBn => ?_
  · refine Meets.bind (Meets.release (bld :: hs) swapped ?_)
    refine Meets.bind (Meets.release hs (List.Perm.refl _) (Meets.pure ⟨rfl, rfl, ?_⟩))
    rw [refused, Bool.and_false]
    rfl
  refine Meets.bind (Meets.use bld' (Meets.bind (Meets.acquire (fun refused => ?_) ?_)))
  · refine Meets.bind (Meets.release (bld :: hs) swapped ?_)
    refine Meets.bind (Meets.release hs (List.Perm.refl _) (Meets.pure ⟨rfl, rfl, ?_⟩))
    rw [refused, Bool.and_false]
    rfl
  intro toParam params _
  refine Meets.bind (Meets.release (params :: bld :: hs) (List.perm_iff_count.mpr fun h => ?_) ?_)
  · simp only [List.count_cons]
    omega
  refine Meets.bind (Meets.release (params :: hs) (List.Perm.swap bld params hs) ?_)
  have ctx' : ctx ∈ params :: hs := List.mem_cons_of_mem params member
  refine Meets.bind (Meets.use ctx' (Meets.bind (Meets.use List.mem_cons_self ?_)))
  refine Meets.ite (fun refused => ?_) fun setParams => ?_
  · refine Meets.bind (Meets.release hs (List.Perm.refl _) (Meets.pure ⟨rfl, rfl, ?_⟩))
    rw [refused, Bool.and_false]
    rfl
  · refine Meets.bind (Meets.release hs (List.Perm.refl _) (Meets.pure ⟨rfl, rfl, ?_⟩))
    rw [bnNew, eq_true_of_ne_false setWord, bldNew, eq_true_of_ne_false pushBn, toParam,
      eq_true_of_ne_false setParams]
    rfl

/-- Everything goes well in `cl_rsa_gen`. -/
def generates (call : GenCall → Bool) (exponent bits : Int) (pkey : Bool) : Bool :=
  pkey && decide (exponent ∈ allowedExpn) && decide (bits ∈ allowedBits)
  && call .ctxNewFromName && call .keygenInit && call .setRsaKeygenBits
  && (call .bnNew && call .bnSetWord && call .bldNew && call .bldPushBn && call .bldToParam
    && call .ctxSetParams)
  && call .keygen

/-- `cl_rsa_gen` delivers a key and nothing else, just when everything goes well. -/
theorem clRsaGen_meets {exponent bits : Int} {pkey : Bool}
    : Meets (clRsaGen call exponent bits pkey) hs files fun out hs' files' =>
        files' = files
        ∧ out.1 = retOf (generates call exponent bits pkey)
        ∧ out.2.isSome = generates call exponent bits pkey
        ∧ hs'.Perm (out.2.toList ++ hs) := by
  have failed {hs' : List (Handle Kind)} (refused : generates call exponent bits pkey = false)
      (same : hs'.Perm hs)
      : files = files
        ∧ Ret.fail = retOf (generates call exponent bits pkey)
        ∧ (none : Option (Handle Kind)).isSome = generates call exponent bits pkey
        ∧ hs'.Perm ((none : Option (Handle Kind)).toList ++ hs) := by
    rw [refused]
    exact ⟨rfl, rfl, rfl, same⟩
  rw [clRsaGen]
  refine Meets.ite (fun refused => Meets.pure (failed ?_ (List.Perm.refl _))) fun pkey' => ?_
  · rw [generates, refused]
    rfl
  refine Meets.ite (fun refused => Meets.pure (failed ?_ (List.Perm.refl _))) fun expn => ?_
  · rw [generates, decide_eq_false refused, Bool.and_false]
    rfl
  refine Meets.ite (fun refused => Meets.pure (failed ?_ (List.Perm.refl _))) fun bits' => ?_
  · rw [generates, decide_eq_false refused, Bool.and_false]
    rfl
  refine Meets.bind (Meets.acquire (fun refused => Meets.pure (failed ?_ (List.Perm.refl _))) ?_)
  · rw [generates, refused, Bool.and_false]
    rfl
  intro ctxNew ctx _
  have leave (refused : generates call exponent bits pkey = false)
      : Meets (release ctx) (ctx :: hs) files fun _ hs' files' =>
          Meets (Pure.pure (Ret.fail, none)) hs' files' fun out hs' files' =>
            files' = files
            ∧ out.1 = retOf (generates call exponent bits pkey)
            ∧ out.2.isSome = generates call exponent bits pkey
            ∧ hs'.Perm (out.2.toList ++ hs) :=
    Meets.release hs (List.Perm.refl _) (Meets.pure (failed refused (List.Perm.refl _)))
  refine Meets.bind (Meets.use List.mem_cons_self (Meets.ite (fun refused => ?_) fun init => ?_))
  · refine Meets.bind (leave ?_)
    rw [generates, refused, Bool.and_false]
    rfl
  refine Meets.bind (Meets.use List.mem_cons_self (Meets.ite (fun refused => ?_) fun sized => ?_))
  · refine Meets.bind (leave ?_)
    rw [generates, refused, Bool.and_false]
    rfl
  refine Meets.bind (Meets.mono (setPubexp_meets List.mem_cons_self) fun ret hs' files' set => ?_)
  obtain ⟨rfl, rfl, rfl⟩ := set
  refine Meets.ite (fun refused => ?_) fun set => ?_
  · refine Meets.bind (leave ?_)
    rw [generates, retOf_fail refused, Bool.and_false]
    rfl
  refine Meets.bind (Meets.use List.mem_cons_self ?_)
  refine Meets.bind (Meets.acquire (fun refused => ?_) fun keygen pk _ => ?_)
  · refine Meets.bind (leave ?_)
    rw [generates, refused, Bool.and_false]
  · refine Meets.bind (Meets.release (pk :: hs) (List.Perm.swap ctx pk hs) (Meets.pure ?_))
    have all : generates call exponent bits pkey = true := by
      rw [generates, eq_true_of_ne_false pkey', decide_eq_true (not_not.mp expn),
        decide_eq_true (not_not.mp bits'), ctxNew, eq_true_of_ne_false init,
        eq_true_of_ne_false sized, retOf_succ set, keygen]
      rfl
    rw [all]
    exact ⟨rfl, rfl, rfl, List.Perm.refl _⟩

/-- `cl_rsa_destroy` frees the key. -/
theorem clRsaDestroy_meets (rest : List (Handle Kind)) (owned : hs.Perm (pkey :: rest))
    : Meets (clRsaDestroy (some pkey)) hs files fun _ hs' files' => files' = files ∧ hs' = rest :=
  Meets.release rest owned ⟨rfl, rfl⟩

/-- All the calls of the operation succeed. -/
def Crypt.works (ssl : Crypt) (operation : Operation) : Bool :=
  let ok := ssl.ok operation
  ok .ctxNew && ok .init && ok .setRsaPadding && ok .querySize && ok .crypt

/-- What `crypt` answers with a key. -/
def Crypt.answer (ssl : Crypt) (operation : Operation) (args : Bool) : Ret × Option (List UInt8) :=
  if (args && ssl.works operation) = true then (.succ, some (ssl.output operation))
  else (.fail, none)

/-- Encryption and decryption own nothing in the end, and put something out just when they return
`SUCC`.
-/
theorem crypt_meets {ssl : Crypt} {operation : Operation} {args : Bool} (member : pkey ∈ hs)
    : Meets (crypt ssl operation (some pkey) args) hs files fun out hs' files' =>
        files' = files ∧ hs' = hs ∧ out = ssl.answer operation args := by
  have failed (refused : (args && ssl.works operation) = false)
      : files = files ∧ hs = hs ∧ (Ret.fail, none) = ssl.answer operation args := by
    rw [Crypt.answer, refused]
    exact ⟨rfl, rfl, rfl⟩
  rw [crypt]
  refine Meets.ite (fun refused => Meets.pure (failed ?_)) fun args' => ?_
  · rw [refused, Bool.false_and]
  refine Meets.bind (Meets.use member ?_)
  refine Meets.bind (Meets.acquire (fun refused => Meets.pure (failed ?_)) fun ctxNew ctx _ => ?_)
  · simp only [Crypt.works, refused, Bool.false_and, Bool.and_false]
  have leave (refused : ssl.works operation = false)
      : Meets (release ctx) (ctx :: hs) files fun _ hs' files' =>
          Meets (Pure.pure (Ret.fail, none)) hs' files' fun out hs' files' =>
            files' = files ∧ hs' = hs ∧ out = ssl.answer operation args :=
    Meets.release hs (List.Perm.refl _)
      (Meets.pure (failed (by rw [refused, Bool.and_false])))
  refine Meets.bind (Meets.use List.mem_cons_self (Meets.ite (fun refused => ?_) fun init => ?_))
  · refine Meets.bind (leave ?_)
    rw [Crypt.works, refused, Bool.and_false]
    rfl
  refine Meets.bind (Meets.use List.mem_cons_self (Meets.ite (fun refused => ?_) fun padded => ?_))
  · refine Meets.bind (leave ?_)
    rw [Crypt.works, refused, Bool.and_false]
    rfl
  refine Meets.bind (Meets.use List.mem_cons_self (Meets.ite (fun refused => ?_) fun sized => ?_))
  · refine Meets.bind (leave ?_)
    rw [Crypt.works, refused, Bool.and_false]
    rfl
  refine Meets.bind (Meets.use List.mem_cons_self (Meets.ite (fun refused => ?_) fun done => ?_))
  · refine Meets.bind (leave ?_)
    rw [Crypt.works, refused, Bool.and_false]
  · refine Meets.bind (Meets.release hs (List.Perm.refl _) (Meets.pure ⟨rfl, rfl, ?_⟩))
    rw [Crypt.answer, eq_true_of_ne_false args', Crypt.works, ctxNew, eq_true_of_ne_false init,
      eq_true_of_ne_false padded, eq_true_of_ne_false sized, eq_true_of_ne_false done]
    rfl

end Libccll.Rsa

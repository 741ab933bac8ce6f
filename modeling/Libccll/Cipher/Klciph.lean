import Mathlib.Logic.Function.Iterate
import Libccll.Comm.Def
import Libccll.Foundation.Draw

/-! The klciph encoder and decoder of cipher/klciph.c.
The random device is the list of bytes it delivers, and the clock a broken-down time.
Debug output and logging are left out; nothing else depends on them.
-/

namespace Libccll.Klciph

open Foundation

/-- Number of a cell in the 256-byte arrays `bucket` and `buffer`. -/
abbrev Cell := Fin 256

/-- Numerals denote cells. -/
instance cells_neZero : @NeZero Nat Zero.ofOfNat0 256 := ⟨by decide⟩

abbrev Bucket := Cell → Bool

abbrev Buffer := Cell → UInt8

/-- Programs reading from `frd`. -/
abbrev Frd (ε α : Type) := Draw ε UInt8 α

/-- The fields of `struct tm` in use, within the ranges `localtime` keeps them in. -/
structure Tm where
  tmSec : Nat
  tmMin : Nat
  tmHour : Nat
  tmMday : Nat
  sec_le : tmSec ≤ 60
  min_lt : tmMin < 60
  hour_lt : tmHour < 24
  mday_le : tmMday ≤ 31

/-- Midnight on the first of a month. -/
instance : Inhabited Tm :=
  ⟨0, 0, 0, 1, by decide, by decide, by decide, by decide⟩

abbrev ch14sSz : Nat := 16

/-- The characteristic table. -/
def ch14s : Vector UInt16 ch14sSz :=
  #v[0x0827, 0x8e87, 0xc35d, 0xedd3,
    0xcc88, 0xb10a, 0xcc02, 0xd631,
    0xbbc9, 0x0194, 0x1761, 0x89d9,
    0xb11f, 0x36ee, 0x1ad6, 0x2148]

def maxPlainBytes : Nat := 120

def begIdx : Cell := 97

/-- `i++; if(i == 256) i = 0`, the step of every cell index in the encoder. -/
def incIdx (i : Cell) : Cell := if i = 255 then 0 else i + 1

-----------------------------------------------------------------------------------------
-- Reading from the random device
-----------------------------------------------------------------------------------------

/-- A failed helper returns -1 (or `FAIL`), here the error `()`. -/
def getCharIdx : Frd Unit (Fin ch14sSz) := do
  let idx ← Draw.next ()
  pure (Fin.ofNat ch14sSz idx.toNat)

/-- The loop of `AGAIN4214`. -/
def getBeginIdx : Frd Unit Cell := do
  let idx ← Draw.retry () 200 (fun idx => idx.toFin ≠ begIdx)
  pure idx.toFin

def initBuffer : Frd Unit Buffer := do
  let bytes ← Draw.block () 256
  pure (fun i => bytes.getD i 0)

/-- Four consecutive cells from `idx` on, around the end, are all unused. -/
def fourFree (bucket : Bucket) (idx : Cell) : Bool :=
  let idx2 := idx
  !bucket idx2
    && !bucket (incIdx idx2)
    && !bucket (incIdx (incIdx idx2))
    && !bucket (incIdx (incIdx (incIdx idx2)))

/-- The loop of `AGAIN3439`. -/
def getDataIdx (bucket : Bucket) : Frd Unit Cell := do
  let idx ← Draw.retry () 220 (fun idx => fourFree bucket idx.toFin)
  pure idx.toFin

-----------------------------------------------------------------------------------------
-- Placing cells
-----------------------------------------------------------------------------------------

/-- The search loop with `n` passes left; `none` is the result -1. -/
def getFreePosIn (bucket : Bucket) : Nat → Cell → Option Cell
  | 0, _ => none
  | n + 1, start =>
      let start := incIdx start
      if bucket start then getFreePosIn bucket n start else some start

def getFreePos (bucket : Bucket) (start : Cell) : Option Cell :=
  getFreePosIn bucket 256 start

/-- The arrays `bucket` and `buffer` of one call. -/
structure Cells where
  bucket : Bucket
  buffer : Buffer

def Cells.put (cells : Cells) (i : Cell) (value : UInt8) : Cells :=
  { cells with buffer := Function.update cells.buffer i value }

def Cells.mark (cells : Cells) (i : Cell) : Cells :=
  { cells with bucket := Function.update cells.bucket i true }

/-- Step 2. -/
def putBegin (begidx : Cell) (buffer : Buffer) : Cells :=
  (Cells.mk (fun _ => false) buffer).put begIdx (UInt8.ofFin begidx) |>.mark begIdx

/-- Step 3: both bytes of the characteristic, the low one first. Returns `from` as well. -/
def putCharacteristic (chidx : Fin ch14sSz) (begidx : Cell) (cells : Cells) : Cells × Cell :=
  let low := (ch14s.get chidx).toUInt8
  let high := (ch14s.get chidx >>> 8).toUInt8
  if begidx = begIdx - 1 then
    ((((cells.put begidx low).mark begidx).put (begidx + 2) high).mark (begidx + 2),
      begidx + 2)
  else if begidx = 255 then
    ((((cells.put begidx low).mark begidx).put 0 high).mark 0, 0)
  else
    -- one 16-bit store on a little-endian host
    ((((cells.put begidx low).put (begidx + 1) high).mark begidx).mark (begidx + 1),
      begidx + 1)

/-- The two key bytes, both taken from the random fill of the buffer. -/
structure Keys where
  key1 : UInt8
  key2 : UInt8

/-- Steps 4 to 7; `none` is the failure of `GFROM`. Returns `from` as well. -/
def putKeysAndLen (plen : Nat) (ch1Idx : Cell) (cells : Cells)
    : Option (Cells × Keys × Cell) := do
  let start ← getFreePos cells.bucket ch1Idx
  let key1 := cells.buffer start
  let cells := cells.mark start
  let start ← getFreePos cells.bucket start
  let cells := cells.mark start
  let start ← getFreePos cells.bucket start
  let cells := (cells.put start (UInt8.ofNat plen)).mark start
  let lenIdx := start
  let start ← getFreePos cells.bucket start
  let cells := cells.mark start
  let start ← getFreePos cells.bucket start
  let key2 := cells.buffer start
  let cells := cells.mark start
  let cells := cells.put ch1Idx (cells.buffer ch1Idx ^^^ key2)
  let cells := cells.put lenIdx (cells.buffer lenIdx ^^^ key1)
  some (cells, { key1, key2 }, start)

/-- `ceil(plen / 4.0)`, exact for the lengths in use. -/
def idxAmt (plen : Nat) : Nat := (plen + 3) / 4

/-- Reserve `n` index cells after `from2`; returns the cells taken (`arr1`) and `from2`. -/
def makePlaceholders : Nat → Cells → Cell → Option (List Cell × Cells × Cell)
  | 0, cells, from2 => some ([], cells, from2)
  | n + 1, cells, from2 => do
      let from2 ← getFreePos cells.bucket from2
      let (arr1, cells, last) ← makePlaceholders n (cells.mark from2) from2
      some (from2 :: arr1, cells, last)

/-- Put the bytes of `tarr`, already encrypted, into the next free cells. -/
def putTime : List UInt8 → Cells → Cell → Option Cells
  | [], cells, _ => some cells
  | value :: tarr, cells, from2 => do
      let from2 ← getFreePos cells.bucket from2
      putTime tarr ((cells.put from2 value).mark from2) from2

/-- `tarr` with `key1` on minute and day, and `key2` on hour and second. -/
def timeBytes (now : Tm) (keys : Keys) : List UInt8 :=
  [UInt8.ofNat now.tmMin ^^^ keys.key1, UInt8.ofNat now.tmMday ^^^ keys.key1,
    UInt8.ofNat now.tmHour ^^^ keys.key2, UInt8.ofNat now.tmSec ^^^ keys.key2]

def isOdd (i : Cell) : Bool := i.val % 2 = 1

/-- The key of a data byte listed under index cell `start`. -/
def dataKey (keys : Keys) (start : Cell) : UInt8 :=
  if isOdd start then keys.key2 else keys.key1

/-- The key of index cell `start` itself. -/
def indexKey (keys : Keys) (start : Cell) : UInt8 :=
  if isOdd start then keys.key1 else keys.key2

/-- One store of `_put_data`. -/
def Cells.putByte (cells : Cells) (idx2 : Cell) (value : UInt8) : Cells :=
  (cells.put idx2 value).mark idx2

def putData (data : Mem) (len : Nat) (start idx : Cell) (keys : Keys) (cells : Cells)
    : Cells :=
  let key := dataKey keys start
  let idx2 := idx
  let cells := cells.putByte idx2 (data 0 ^^^ key)
  if len = 1 then
    cells
  else
    let idx2 := incIdx idx2
    let cells := cells.putByte idx2 (data 1 ^^^ key)
    if len = 2 then
      cells
    else
      let idx2 := incIdx idx2
      let cells := cells.putByte idx2 (data 2 ^^^ key)
      if len = 3 then
        cells
      else
        let idx2 := incIdx idx2
        cells.putByte idx2 (data 3 ^^^ key)

-----------------------------------------------------------------------------------------
-- `cl_klciph_enc`
-----------------------------------------------------------------------------------------

/-- How the body of `cl_klciph_enc` is left early once `frd` is open. -/
inductive Exit where
  /-- `goto ERR_OCR_RET4633`, which closes `frd` and returns `FAIL`. -/
  | errOcrRet4633
  /-- `return FAIL` in place; `frd` stays open. -/
  | returnFail
  deriving DecidableEq, Repr

/-- What the layout steps hand to the data loop. -/
structure Frame where
  cells : Cells
  keys : Keys
  arr1 : List Cell

/-- Steps 2 to 7, the placeholders and the time, which draw nothing. -/
def layFrame (chidx : Fin ch14sSz) (begidx : Cell) (buffer : Buffer) (plen : Nat) (now : Tm)
    : Option Frame := do
  let cells := putBegin begidx buffer
  let (cells, ch1Idx) := putCharacteristic chidx begidx cells
  let (cells, keys, start) ← putKeysAndLen plen ch1Idx cells
  let (arr1, cells, from2) ← makePlaceholders (idxAmt plen) cells start
  let cells ← putTime (timeBytes now keys) cells from2
  some { cells, keys, arr1 }

/-- Everything before the data loop. -/
def openFrame (plen : Nat) (now : Tm) : Frd Exit Frame := do
  let chidx ← Draw.failAs .errOcrRet4633 getCharIdx
  let begidx ← Draw.failAs .errOcrRet4633 getBeginIdx
  let buffer ← Draw.failAs .errOcrRet4633 initBuffer
  Draw.ofOption .returnFail (layFrame chidx begidx buffer plen now)

/-- Pass `i` of the data loop, with `start = arr1[i]`. -/
def putChunk (plain : Mem) (plen : Nat) (keys : Keys) (i : Nat) (start : Cell)
    (cells : Cells)
    : Frd Exit Cells := do
  let idx ← Draw.failAs .returnFail (getDataIdx cells.bucket)
  let cells := cells.put start (UInt8.ofFin idx ^^^ indexKey keys start)
  pure (putData (fun t => plain (4 * i + t)) (plen - 4 * i) start idx keys cells)

/-- Put the index and data, from pass `i` on. -/
def putChunks (plain : Mem) (plen : Nat) (keys : Keys)
    : Nat → List Cell → Cells → Frd Exit Cells
  | _, [], cells => pure cells
  | i, start :: arr1, cells => do
      let cells ← putChunk plain plen keys i start cells
      putChunks plain plen keys (i + 1) arr1 cells

/-- The body between `fopen` and the two ways out. -/
def encBody (plain : Mem) (plen : Nat) (now : Tm) : Frd Exit Buffer := do
  let frame ← openFrame plen now
  let cells ← putChunks plain plen frame.keys 0 frame.arr1 frame.cells
  pure cells.buffer

/-- The result of a call: return value, the caller's memory, and how often the random
device was opened and closed.
-/
structure EncOut where
  ret : Ret
  cipher : Option Mem
  clen : Option Int
  opened : Nat
  closed : Nat

/-- `none` stands for a `NULL` pointer, and for a random device that cannot be opened. -/
def clKlciphEnc (random : Option (List UInt8)) (now : Tm) (plain : Option Mem) (plen : Int)
    (cipher : Option Mem) (clen : Option Int)
    : EncOut :=
  match plain, cipher, clen with
  | some plain, some out, some _ =>
      if plen < 1 ∨ plen > maxPlainBytes then
        { ret := .fail, cipher, clen, opened := 0, closed := 0 }
      else
        match random with
        | none => { ret := .fail, cipher, clen, opened := 0, closed := 0 }
        | some frd =>
            match encBody plain plen.toNat now frd with
            | .ok (buffer, _) =>
                {
                  ret := .succ
                  cipher := some (memcpy out (fun i => buffer (Fin.ofNat 256 i)) 256)
                  clen := some 256
                  opened := 1
                  closed := 1
                }
            | .error .errOcrRet4633 =>
                { ret := .fail, cipher, clen, opened := 1, closed := 1 }
            | .error .returnFail =>
                { ret := .fail, cipher, clen, opened := 1, closed := 0 }
  | _, _, _ => { ret := .fail, cipher, clen, opened := 0, closed := 0 }

-----------------------------------------------------------------------------------------
-- `cl_klciph_dec`
-----------------------------------------------------------------------------------------

/-- A read of the decoder's `buffer`; `none` is an index outside the array. -/
def readAt (buffer : Buffer) (i : Nat) : Option UInt8 :=
  if h : i < 256 then some (buffer ⟨i, h⟩) else none

def getNextIdx (curIdx : Nat) : Nat :=
  if curIdx = 255 then 0
  else if curIdx = begIdx.val - 1 then begIdx.val + 1
  else curIdx + 1

/-- What the first six steps read. -/
structure Header where
  ch14 : UInt16
  len : UInt8
  keys : Keys
  idx : Nat

/-- Begin index, characteristic, keys and length. -/
def readHeader (buffer : Buffer) : Option Header := do
  let begidx ← readAt buffer begIdx.val
  let idx := begidx.toNat
  let ch2 ← readAt buffer idx
  let idx := getNextIdx idx
  let ch1 ← readAt buffer idx
  let idx := getNextIdx idx
  let key1 ← readAt buffer idx
  let idx := getNextIdx idx
  let idx := getNextIdx idx
  let len ← readAt buffer idx
  let idx := getNextIdx idx
  let idx := getNextIdx idx
  let key2 ← readAt buffer idx
  let ch1 := ch1 ^^^ key2
  let ch14 := ch2.toUInt16 ||| ((ch1.toUInt16 <<< 8) &&& 0xff00)
  some { ch14, len := len ^^^ key1, keys := { key1, key2 }, idx }

/-- The four time bytes of a message. -/
structure Stamp where
  min : UInt8
  day : UInt8
  hour : UInt8
  sec : UInt8

/-- Step 7: read the time after `n` index cells. -/
def readStamp (buffer : Buffer) (keys : Keys) (n idx : Nat) : Option Stamp := do
  let idx := getNextIdx^[n] idx
  let idx := getNextIdx idx
  let min ← readAt buffer idx
  let idx := getNextIdx idx
  let day ← readAt buffer idx
  let idx := getNextIdx idx
  let hour ← readAt buffer idx
  let idx := getNextIdx idx
  let sec ← readAt buffer idx
  some {
    min := min ^^^ keys.key1
    day := day ^^^ keys.key1
    hour := hour ^^^ keys.key2
    sec := sec ^^^ keys.key2
  }

/-- Step 7: a message is fresh on the same day and hour, at most six seconds later. -/
def stampFresh (stamp : Stamp) (now : Tm) : Bool :=
  let sec1 : Int := stamp.min.toNat * 60 + stamp.sec.toNat
  let secDiff : Int :=
    (UInt8.ofNat now.tmMin).toNat * 60 + (UInt8.ofNat now.tmSec).toNat - sec1
  stamp.day = UInt8.ofNat now.tmMday
    && stamp.hour = UInt8.ofNat now.tmHour
    && 0 ≤ secDiff && secDiff ≤ 6

/-- `plain_buf[k++] = value`, with `k` the number of bytes put so far. -/
def pushPlain (plainBuf : List UInt8) (value : UInt8) : Option (List UInt8) :=
  if plainBuf.length < maxPlainBytes then some (plainBuf ++ [value]) else none

/-- `if(where == 255) where = 0; else where++;` -/
def incWhere (where_ : UInt8) : UInt8 := if where_ = 255 then 0 else where_ + 1

/-- One pass of step 8: four data bytes listed under index cell `idx`. -/
def readChunk (buffer : Buffer) (keys : Keys) (idx : Nat) (plainBuf : List UInt8)
    : Option (List UInt8) := do
  let cell ← readAt buffer idx
  let odd : Bool := idx % 2 = 1
  let where_ := if odd then cell ^^^ keys.key1 else cell ^^^ keys.key2
  let key := if odd then keys.key2 else keys.key1
  let plainBuf ← pushPlain plainBuf ((← readAt buffer where_.toNat) ^^^ key)
  let where_ := incWhere where_
  let plainBuf ← pushPlain plainBuf ((← readAt buffer where_.toNat) ^^^ key)
  let where_ := incWhere where_
  let plainBuf ← pushPlain plainBuf ((← readAt buffer where_.toNat) ^^^ key)
  let where_ := incWhere where_
  pushPlain plainBuf ((← readAt buffer where_.toNat) ^^^ key)

/-- Step 8, with `n` passes left. -/
def readChunks (buffer : Buffer) (keys : Keys)
    : Nat → Nat → List UInt8 → Option (List UInt8)
  | 0, _, plainBuf => some plainBuf
  | n + 1, idx, plainBuf => do
      let idx := getNextIdx idx
      let plainBuf ← readChunk buffer keys idx plainBuf
      readChunks buffer keys n idx plainBuf

/-- The result of a call: return value and the caller's memory. -/
structure DecOut where
  ret : Ret
  plain : Option Mem
  plen : Option Int

/-- The outer `none` is an access outside an array, the inner one a rejected message. -/
def decBuffer (buffer : Buffer) (maxPlen : Int) (now : Tm) : Option (Option (List UInt8)) := do
  let header ← readHeader buffer
  if header.ch14 ∉ ch14s.toList then
    return none
  if header.len.toNat > maxPlainBytes then
    return none
  let n := idxAmt header.len.toNat
  let bali := header.len.toNat % 4
  let stamp ← readStamp buffer header.keys n header.idx
  if !stampFresh stamp now then
    return none
  let plainBuf ← readChunks buffer header.keys n header.idx []
  let k := plainBuf.length - (4 - bali) % 4
  if k ≠ header.len.toNat then
    return none
  if maxPlen < k then
    return none
  return some (plainBuf.take k)

/-- `none` is an access outside an array. -/
def clKlciphDec (cipher : Option Mem) (clen : Int) (plain : Option Mem) (plen : Option Int)
    (maxPlen : Int) (now : Tm)
    : Option DecOut :=
  match cipher, plain, plen with
  | some cipher, some out, some _ =>
      if clen ≠ 256 then
        some { ret := .fail, plain, plen }
      else
        match decBuffer (fun i => cipher i) maxPlen now with
        | none => none
        | some none => some { ret := .fail, plain, plen }
        | some (some bytes) =>
            some {
              ret := .succ
              plain := some (memcpy out (fun i => bytes.getD i 0) bytes.length)
              plen := some bytes.length
            }
  | _, _, _ => some { ret := .fail, plain, plen }

end Libccll.Klciph

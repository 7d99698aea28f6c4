import ServerTech.Foundation.Block

namespace ServerTech

/-!
# The SkyNet bip buffer

`BipBuffer` keeps at most two contiguous regions of one allocated block.
Region A holds the oldest bytes.  Region B, when it exists, starts at the
first byte of the block and holds the bytes written after it was opened.

Pointers are offsets from `m_buffer`.  The pointer `m_buffer` itself is the
offset zero, and whether it is null is the field `allocated`.  The pointer to
region B is null at run time too, so it is an `Option`.  Every access to the
block goes through `Block`, which has no result when a byte outside
`[m_buffer, m_bufferEnd)` is touched.  The sizes are natural numbers: on the
states of `BipBuffer.Valid` every subtraction of the source is exact, so
neither a wrapped `size_t` nor a truncated difference is ever observed.
-/

/-- The fields of the class.  `memory` is the content of the block. -/
structure BipBuffer where
  memory : List UInt8
  allocated : Bool
  bufferEnd : Nat
  regionAPtr : Nat
  regionASize : Nat
  regionBPtr : Option Nat
  regionBSize : Nat
  deriving DecidableEq, Repr

namespace BipBuffer

/-- The member initialisers: null pointers and empty regions. -/
def new : BipBuffer where
  memory := []
  allocated := false
  bufferEnd := 0
  regionAPtr := 0
  regionASize := 0
  regionBPtr := none
  regionBSize := 0

/-- `Allocate(size)`, where `block` is the block that `malloc(size)` returned.
Its length is `size` and its bytes are arbitrary.  The allocation is taken to
succeed, for the size zero too. -/
def allocate (b : BipBuffer) (block : List UInt8) : BipBuffer :=
  { b with memory := block, allocated := true, bufferEnd := block.length, regionAPtr := 0 }

def getAFreeSpace (b : BipBuffer) : Nat :=
  b.bufferEnd - b.regionAPtr - b.regionASize

def getSpaceBeforeA (b : BipBuffer) : Nat :=
  b.regionAPtr

def getBFreeSpace (b : BipBuffer) : Nat :=
  match b.regionBPtr with
  | none => 0
  | some ptr => b.regionAPtr - ptr - b.regionBSize

def allocateB (b : BipBuffer) : BipBuffer :=
  { b with regionBPtr := some 0 }

def getSize (b : BipBuffer) : Nat :=
  if b.allocated then b.regionASize + b.regionBSize else 0

def getContiguiousBytes (b : BipBuffer) : Nat :=
  if b.allocated then
    if b.regionASize ≠ 0 then b.regionASize else b.regionBSize
  else 0

def getBufferStart (b : BipBuffer) : Option Nat :=
  if 0 < b.regionASize then some b.regionAPtr else b.regionBPtr

def getBuffer (b : BipBuffer) : Nat :=
  match b.regionBPtr with
  | some ptr => ptr + b.regionBSize
  | none => b.regionAPtr + b.regionASize

def incrementWritten (b : BipBuffer) (len : Nat) : BipBuffer :=
  match b.regionBPtr with
  | some _ => { b with regionBSize := b.regionBSize + len }
  | none => { b with regionASize := b.regionASize + len }

/-- `GetSpace` is a `const` member, but it opens region B through the mutable
pointer when the gap below region A is the bigger one. -/
def getSpace (b : BipBuffer) : Nat × BipBuffer :=
  match b.regionBPtr with
  | some _ => (b.getBFreeSpace, b)
  | none =>
      if b.getAFreeSpace < b.getSpaceBeforeA then
        (b.allocateB.getBFreeSpace, b.allocateB)
      else (b.getAFreeSpace, b)

/-! ## Read -/

/-- "Copy as much out of region A": the bytes copied, what is left of the
count, and the buffer with region A advanced. -/
def readA (b : BipBuffer) (cnt : Nat) : Option (List UInt8 × Nat × BipBuffer) :=
  if 0 < b.regionASize then
    let aRead := if cnt > b.regionASize then b.regionASize else cnt
    (Block.load b.memory b.regionAPtr aRead).map fun data =>
      (data, cnt - aRead,
        { b with regionASize := b.regionASize - aRead, regionAPtr := b.regionAPtr + aRead })
  else some ([], cnt, b)

/-- "Data left over?": the bytes copied out of region B. -/
def readB (b : BipBuffer) (cnt : Nat) : Option (List UInt8 × BipBuffer) :=
  if 0 < cnt ∧ 0 < b.regionBSize then
    b.regionBPtr.bind fun ptr =>
      let bRead := if cnt > b.regionBSize then b.regionBSize else cnt
      (Block.load b.memory ptr bRead).map fun data =>
        (data, { b with regionBSize := b.regionBSize - bRead, regionBPtr := some (ptr + bRead) })
  else some ([], b)

/-- "Is buffer A empty?": move region B to the start of the block and make it
region A, or apply `reset` when there is no data in region B either. -/
def settle (b : BipBuffer) (reset : BipBuffer -> BipBuffer) : Option BipBuffer :=
  if b.regionASize = 0 then
    if 0 < b.regionBSize then
      b.regionBPtr.bind fun ptr =>
        (if ptr ≠ 0 then Block.move b.memory 0 ptr b.regionBSize else some b.memory).map
          fun memory =>
            { b with
              memory := memory
              regionAPtr := 0
              regionASize := b.regionBSize
              regionBPtr := none
              regionBSize := 0 }
    else some (reset b)
  else some b

/-- The assignments of the last branch of `Read`. -/
def resetRead (b : BipBuffer) : BipBuffer :=
  { b with regionBPtr := none, regionBSize := 0, regionAPtr := 0, regionASize := 0 }

/-- `Read`.  The inner option is the returned flag together with the bytes
copied to the destination; the outer one is `none` on a stray access. -/
def read (b : BipBuffer) (bytes : Nat) : Option (Option (List UInt8) × BipBuffer) :=
  if b.allocated then
    if b.regionASize + b.regionBSize < bytes then some (none, b)
    else
      (b.readA bytes).bind fun (aData, cnt, afterA) =>
        (afterA.readB cnt).bind fun (bData, afterB) =>
          (afterB.settle resetRead).map fun settled => (some (aData ++ bData), settled)
  else some (none, b)

/-! ## Remove -/

def removeA (b : BipBuffer) (cnt : Nat) : Nat × BipBuffer :=
  if 0 < b.regionASize then
    let aRem := if cnt > b.regionASize then b.regionASize else cnt
    (cnt - aRem,
      { b with regionASize := b.regionASize - aRem, regionAPtr := b.regionAPtr + aRem })
  else (cnt, b)

def removeB (b : BipBuffer) (cnt : Nat) : BipBuffer :=
  if 0 < cnt ∧ 0 < b.regionBSize then
    let bRem := if cnt > b.regionBSize then b.regionBSize else cnt
    { b with
      regionBSize := b.regionBSize - bRem
      regionBPtr := b.regionBPtr.map fun ptr => ptr + bRem }
  else b

/-- The assignments of the last branch of `Remove`.  They clear the size of
region B twice and never the size of region A, which is zero already. -/
def resetRemove (b : BipBuffer) : BipBuffer :=
  { b with regionBPtr := none, regionBSize := 0, regionAPtr := 0 }

def remove (b : BipBuffer) (len : Nat) : Option BipBuffer :=
  if b.allocated then
    let (cnt, afterA) := b.removeA len
    (afterA.removeB cnt).settle resetRemove
  else some b

/-! ## Write -/

/-- The `memcpy` to the end of region B and the growth of that region. -/
def writeB (b : BipBuffer) (ptr : Nat) (data : List UInt8) : Option (Bool × BipBuffer) :=
  if b.getBFreeSpace < data.length then some (false, b)
  else
    (Block.store b.memory (ptr + b.regionBSize) data).map fun memory =>
      (true, { b with memory := memory, regionBSize := b.regionBSize + data.length })

/-- The `memcpy` to the end of region A and the growth of that region. -/
def writeA (b : BipBuffer) (data : List UInt8) : Option (Bool × BipBuffer) :=
  if b.getAFreeSpace < data.length then some (false, b)
  else
    (Block.store b.memory (b.regionAPtr + b.regionASize) data).map fun memory =>
      (true, { b with memory := memory, regionASize := b.regionASize + data.length })

def write (b : BipBuffer) (data : List UInt8) : Option (Bool × BipBuffer) :=
  if b.allocated then
    match b.regionBPtr with
    | some ptr => b.writeB ptr data
    | none =>
        if b.getAFreeSpace < b.getSpaceBeforeA then b.allocateB.writeB 0 data
        else b.writeA data
  else some (false, b)

/-- The zero-copy commit of a client: ask for the space, store `data` behind
the pointer `GetBuffer` returns, and report it with `IncrementWritten`. -/
def commit (b : BipBuffer) (data : List UInt8) : Option BipBuffer :=
  let opened := b.getSpace.2
  (Block.store opened.memory opened.getBuffer data).map fun memory =>
    { opened with memory := memory }.incrementWritten data.length

end BipBuffer
end ServerTech

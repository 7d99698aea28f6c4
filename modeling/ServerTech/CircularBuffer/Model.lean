import ServerTech.Foundation.Block

namespace ServerTech

/-!
# The circular buffer of the IOCP library

`CircularBuffer` is a second implementation of the same two-region scheme.
It is translated from its own source and compared with `BipBuffer` afterwards.
Only `Read` and `Write` test for a missing allocation here; `GetSize`,
`GetContiguiousBytes` and `Remove` work on the fields as they are.
-/

/-- The fields of the class, with pointers as offsets from `m_buffer`. -/
structure CircularBuffer where
  memory : List UInt8
  allocated : Bool
  bufferEnd : Nat
  regionAPointer : Nat
  regionASize : Nat
  regionBPointer : Option Nat
  regionBSize : Nat
  deriving DecidableEq, Repr

namespace CircularBuffer

/-- The constructor: null pointers and empty regions. -/
def new : CircularBuffer where
  memory := []
  allocated := false
  bufferEnd := 0
  regionAPointer := 0
  regionASize := 0
  regionBPointer := none
  regionBSize := 0

/-- `Allocate(size)`, where `block` is what `malloc(size)` returned. -/
def allocate (c : CircularBuffer) (block : List UInt8) : CircularBuffer :=
  { c with memory := block, allocated := true, bufferEnd := block.length, regionAPointer := 0 }

def getAFreeSpace (c : CircularBuffer) : Nat :=
  c.bufferEnd - c.regionAPointer - c.regionASize

def getSpaceBeforeA (c : CircularBuffer) : Nat :=
  c.regionAPointer

def getBFreeSpace (c : CircularBuffer) : Nat :=
  match c.regionBPointer with
  | none => 0
  | some pointer => c.regionAPointer - pointer - c.regionBSize

def allocateB (c : CircularBuffer) : CircularBuffer :=
  { c with regionBPointer := some 0 }

def getSize (c : CircularBuffer) : Nat :=
  c.regionASize + c.regionBSize

def getContiguiousBytes (c : CircularBuffer) : Nat :=
  if c.regionASize ≠ 0 then c.regionASize else c.regionBSize

def getBufferStart (c : CircularBuffer) : Option Nat :=
  if 0 < c.regionASize then some c.regionAPointer else c.regionBPointer

def getBuffer (c : CircularBuffer) : Nat :=
  match c.regionBPointer with
  | some pointer => pointer + c.regionBSize
  | none => c.regionAPointer + c.regionASize

def incrementWritten (c : CircularBuffer) (len : Nat) : CircularBuffer :=
  match c.regionBPointer with
  | some _ => { c with regionBSize := c.regionBSize + len }
  | none => { c with regionASize := c.regionASize + len }

/-- `GetSpace` opens region B when that gains room. -/
def getSpace (c : CircularBuffer) : Nat × CircularBuffer :=
  match c.regionBPointer with
  | some _ => (c.getBFreeSpace, c)
  | none =>
      if c.getAFreeSpace < c.getSpaceBeforeA then
        (c.allocateB.getBFreeSpace, c.allocateB)
      else (c.getAFreeSpace, c)

def readA (c : CircularBuffer) (cnt : Nat) : Option (List UInt8 × Nat × CircularBuffer) :=
  if 0 < c.regionASize then
    let aRead := if cnt > c.regionASize then c.regionASize else cnt
    (Block.load c.memory c.regionAPointer aRead).map fun data =>
      (data, cnt - aRead,
        { c with
          regionASize := c.regionASize - aRead
          regionAPointer := c.regionAPointer + aRead })
  else some ([], cnt, c)

def readB (c : CircularBuffer) (cnt : Nat) : Option (List UInt8 × CircularBuffer) :=
  if 0 < cnt ∧ 0 < c.regionBSize then
    c.regionBPointer.bind fun pointer =>
      let bRead := if cnt > c.regionBSize then c.regionBSize else cnt
      (Block.load c.memory pointer bRead).map fun data =>
        (data,
          { c with
            regionBSize := c.regionBSize - bRead
            regionBPointer := some (pointer + bRead) })
  else some ([], c)

/-- The last block of `Read` and of `Remove`, which are the same here. -/
def settle (c : CircularBuffer) : Option CircularBuffer :=
  if c.regionASize = 0 then
    if 0 < c.regionBSize then
      c.regionBPointer.bind fun pointer =>
        (if pointer ≠ 0 then Block.move c.memory 0 pointer c.regionBSize else some c.memory).map
          fun memory =>
            { c with
              memory := memory
              regionAPointer := 0
              regionASize := c.regionBSize
              regionBPointer := none
              regionBSize := 0 }
    else
      some { c with
        regionBPointer := none
        regionBSize := 0
        regionAPointer := 0
        regionASize := 0 }
  else some c

/-- `Read`, with the same conventions as `BipBuffer.read`. -/
def read (c : CircularBuffer) (bytes : Nat) : Option (Option (List UInt8) × CircularBuffer) :=
  if c.allocated then
    if c.regionASize + c.regionBSize < bytes then some (none, c)
    else
      (c.readA bytes).bind fun (aData, cnt, afterA) =>
        (afterA.readB cnt).bind fun (bData, afterB) =>
          afterB.settle.map fun settled => (some (aData ++ bData), settled)
  else some (none, c)

def removeA (c : CircularBuffer) (cnt : Nat) : Nat × CircularBuffer :=
  if 0 < c.regionASize then
    let aRem := if cnt > c.regionASize then c.regionASize else cnt
    (cnt - aRem,
      { c with
        regionASize := c.regionASize - aRem
        regionAPointer := c.regionAPointer + aRem })
  else (cnt, c)

def removeB (c : CircularBuffer) (cnt : Nat) : CircularBuffer :=
  if 0 < cnt ∧ 0 < c.regionBSize then
    let bRem := if cnt > c.regionBSize then c.regionBSize else cnt
    { c with
      regionBSize := c.regionBSize - bRem
      regionBPointer := c.regionBPointer.map fun pointer => pointer + bRem }
  else c

def remove (c : CircularBuffer) (len : Nat) : Option CircularBuffer :=
  let (cnt, afterA) := c.removeA len
  (afterA.removeB cnt).settle

def writeB (c : CircularBuffer) (pointer : Nat) (data : List UInt8) :
    Option (Bool × CircularBuffer) :=
  if c.getBFreeSpace < data.length then some (false, c)
  else
    (Block.store c.memory (pointer + c.regionBSize) data).map fun memory =>
      (true, { c with memory := memory, regionBSize := c.regionBSize + data.length })

def writeA (c : CircularBuffer) (data : List UInt8) : Option (Bool × CircularBuffer) :=
  if c.getAFreeSpace < data.length then some (false, c)
  else
    (Block.store c.memory (c.regionAPointer + c.regionASize) data).map fun memory =>
      (true, { c with memory := memory, regionASize := c.regionASize + data.length })

def write (c : CircularBuffer) (data : List UInt8) : Option (Bool × CircularBuffer) :=
  if c.allocated then
    match c.regionBPointer with
    | some pointer => c.writeB pointer data
    | none =>
        if c.getAFreeSpace < c.getSpaceBeforeA then c.allocateB.writeB 0 data
        else c.writeA data
  else some (false, c)

/-- The zero-copy commit of a client, as for `BipBuffer.commit`. -/
def commit (c : CircularBuffer) (data : List UInt8) : Option CircularBuffer :=
  let opened := c.getSpace.2
  (Block.store opened.memory opened.getBuffer data).map fun memory =>
    { opened with memory := memory }.incrementWritten data.length

end CircularBuffer
end ServerTech

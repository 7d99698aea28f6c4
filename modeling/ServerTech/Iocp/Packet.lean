import ServerTech.Foundation.LittleEndian
import ServerTech.Foundation.Framing

namespace ServerTech
namespace Iocp

/-!
# Packets on the wire

`SendPacket` writes a packed six-byte `MsgHeader`, the opcode and the payload
size, and then the payload.  The header is the memory image of the struct on
a little-endian machine.  The size field has 32 bits, so a frame describes its
payload only when that is shorter than `2^32` bytes.
-/

/-- The part of `PacketBuffer` that the sockets use: the opcode and the bytes
of the underlying storage. -/
structure PacketBuffer where
  opcode : UInt16
  contents : List UInt8
  deriving DecidableEq, Repr

namespace PacketBuffer

def size (packet : PacketBuffer) : Nat :=
  packet.contents.length

/-- The size fits the size field of the header. -/
def Sized (packet : PacketBuffer) : Prop :=
  packet.size < 2 ^ 32

end PacketBuffer

/-- The memory image of `MsgHeader(opcode, size)`. -/
def msgHeader (opcode : UInt16) (size : UInt32) : List UInt8 :=
  LittleEndian.encode 2 opcode.toNat ++ LittleEndian.encode 4 size.toNat

/-- The bytes `SendPacket` sends for a packet: the header, whose size is
converted to 32 bits, and the payload. -/
def frame (packet : PacketBuffer) : List UInt8 :=
  msgHeader packet.opcode (UInt32.ofNat packet.size) ++ packet.contents

@[simp] theorem length_msgHeader (opcode : UInt16) (size : UInt32) :
    (msgHeader opcode size).length = 6 := by
  rw [msgHeader, List.length_append, LittleEndian.length_encode, LittleEndian.length_encode]

theorem length_frame (packet : PacketBuffer) : (frame packet).length = 6 + packet.size := by
  rw [frame, List.length_append, length_msgHeader]
  rfl

theorem PacketBuffer.Sized.toNat_size {packet : PacketBuffer} (sized : packet.Sized) :
    (UInt32.ofNat packet.size).toNat = packet.size :=
  UInt32.toNat_ofNat_of_lt' sized

theorem decode_opcode (opcode : UInt16) :
    UInt16.ofNat (LittleEndian.decode (LittleEndian.encode 2 opcode.toNat)) = opcode := by
  have small : opcode.toNat < 256 ^ 2 := opcode.toNat_lt
  rw [LittleEndian.decode_encode, Nat.mod_eq_of_lt small, UInt16.ofNat_toNat]

theorem decode_size (size : UInt32) :
    UInt32.ofNat (LittleEndian.decode (LittleEndian.encode 4 size.toNat)) = size := by
  have small : size.toNat < 256 ^ 4 := size.toNat_lt
  rw [LittleEndian.decode_encode, Nat.mod_eq_of_lt small, UInt32.ofNat_toNat]

/-- The header is determined by its bytes. -/
theorem msgHeader_injective {opcode opcode' : UInt16} {size size' : UInt32}
    (same : msgHeader opcode size = msgHeader opcode' size') : opcode = opcode' ∧ size = size' := by
  have parts := List.append_inj same (by rw [LittleEndian.length_encode, LittleEndian.length_encode])
  constructor
  · rw [← decode_opcode opcode, parts.1, decode_opcode]
  · rw [← decode_size size, parts.2, decode_size]

/-- Six bytes are the header of the opcode and the size they decode to. -/
theorem msgHeader_decode {bytes : List UInt8} (six : bytes.length = 6) :
    msgHeader (UInt16.ofNat (LittleEndian.decode (bytes.take 2)))
      (UInt32.ofNat (LittleEndian.decode (bytes.drop 2))) = bytes := by
  have first : (bytes.take 2).length = 2 := by
    rw [List.length_take]
    omega
  have second : (bytes.drop 2).length = 4 := by
    rw [List.length_drop]
    omega
  have smallFirst := LittleEndian.decode_lt (bytes.take 2)
  have smallSecond := LittleEndian.decode_lt (bytes.drop 2)
  rw [first] at smallFirst
  rw [second] at smallSecond
  have left := LittleEndian.encode_decode (bytes.take 2)
  have right := LittleEndian.encode_decode (bytes.drop 2)
  rw [first] at left
  rw [second] at right
  rw [msgHeader, UInt16.toNat_ofNat_of_lt' smallFirst, UInt32.toNat_ofNat_of_lt' smallSecond,
    left, right, List.take_append_drop]

/-- Two headers at the start of one list are the same header. -/
theorem header_unique {opcode opcode' : UInt16} {size size' : UInt32} {cells : List UInt8}
    (first : msgHeader opcode size <+: cells) (second : msgHeader opcode' size' <+: cells) :
    opcode = opcode' ∧ size = size' := by
  apply msgHeader_injective
  rw [List.prefix_iff_eq_take.mp first, List.prefix_iff_eq_take.mp second, length_msgHeader,
    length_msgHeader]

theorem header_isPrefix_frame (packet : PacketBuffer) :
    msgHeader packet.opcode (UInt32.ofNat packet.size) <+: frame packet :=
  List.prefix_append _ _

/-- Frames of packets whose size fits the header delimit themselves. -/
theorem frame_selfDelimiting : Framing.SelfDelimiting frame PacketBuffer.Sized where
  unique := by
    intro first second cells sizedFirst sizedSecond leadsFirst leadsSecond
    have headers := header_unique ((header_isPrefix_frame first).trans leadsFirst)
      ((header_isPrefix_frame second).trans leadsSecond)
    have sizes : first.size = second.size := by
      rw [← sizedFirst.toNat_size, headers.2, sizedSecond.toNat_size]
    have same : frame first = frame second := by
      rw [List.prefix_iff_eq_take.mp leadsFirst, List.prefix_iff_eq_take.mp leadsSecond,
        length_frame, length_frame, sizes]
    have contents := List.append_inj_right same (by rw [length_msgHeader, length_msgHeader])
    cases first
    cases second
    simp only at headers contents
    rw [headers.1, contents]
  nonempty := by
    intro packet _
    rw [length_frame]
    omega

end Iocp
end ServerTech

import ServerTech.ByteBuffer.Model
import ServerTech.Foundation.Transition

namespace ServerTech
namespace ByteBuffer

open Transition

/-!
# Which reads stay inside the buffer

A read compares `pos + len` with the size, and the sum is taken modulo 2^64.
Callers may ask for any length at any position, and some calls leave the read
position where no caller put it: `hexlike` moves it back by 16 for every full
row it prints, also from the start of the buffer.

The comparison is right for every request whose end does not pass 2^64.  A
request that passes it and whose wrapped end falls inside the buffer is taken
for one that lies inside, and touches bytes far behind the last one.
-/

/-! ## Reachable buffers -/

/-- One read, in its three forms: `read<T>()` and `read<T>(pos)` for a type of
`width` bytes, and `read(dest, len)`. -/
inductive Request
  | next (width : UInt64)
  | position (pos width : UInt64)
  | block (len : UInt64)
  deriving DecidableEq

/-- The public calls. -/
inductive Call
  | append (src : List UInt8)
  | write (item : Item)
  | readValue (type : Ty)
  | read (request : Request)
  | setRpos (position : UInt64)
  | setWpos (position : UInt64)
  | resize (newsize : UInt64)
  | clear
  | hexlike
  | appendPackGUID (guid : BitVec 64)
  | unpackGUID

namespace Request

/-- The position a request starts at. -/
def start (buffer : ByteBuffer) : Request -> UInt64
  | next _ => buffer.rpos
  | position pos _ => pos
  | block _ => buffer.rpos

/-- The number of bytes a request asks for. -/
def length : Request -> Nat
  | next width => width.toNat
  | position _ width => width.toNat
  | block len => len.toNat

/-- What a request returns, and the buffer it leaves. -/
def perform (buffer : ByteBuffer) : Request -> Option (List UInt8 × ByteBuffer)
  | next width => ByteBuffer.read width.toNat buffer
  | position pos width => (buffer.readAt pos width.toNat).map fun bytes => (bytes, buffer)
  | block len => ByteBuffer.read len.toNat buffer

/-- The indices of the vector a request touches. -/
def touched (buffer : ByteBuffer) (request : Request) : List Nat :=
  if buffer.size < ((request.start buffer).toNat + request.length) % 2 ^ 64 then []
  else List.range' (request.start buffer).toNat request.length

end Request

/-- The effect of a call on the buffer. -/
def call (buffer : ByteBuffer) : Call -> Option ByteBuffer
  | .append src => buffer.append src
  | .write item => ByteBuffer.write item.1 item.2 buffer
  | .readValue type => (ByteBuffer.readValue type buffer).map Prod.snd
  | .read request => (request.perform buffer).map Prod.snd
  | .setRpos position => some (buffer.setRpos position)
  | .setWpos position => some (buffer.setWpos position)
  | .resize newsize => buffer.resize newsize
  | .clear => some buffer.clear
  | .hexlike => buffer.hexlike
  | .appendPackGUID guid => buffer.appendPackGUID guid
  | .unpackGUID => buffer.unpackGUID.map Prod.snd

/-- A buffer that a sequence of calls produces from a new one. -/
structure Reached where
  buffer : ByteBuffer
  calls : List Call
  run : Run (Stepping call) new calls buffer

/-! ## The bounds test -/

/-- What a read should do: touch only bytes of the buffer, and return zeros
where the request does not lie wholly inside. -/
structure Inside (buffer : ByteBuffer) (request : Request) : Prop where
  touches : forall index, index ∈ request.touched buffer -> index < buffer.size
  zeros : buffer.size < (request.start buffer).toNat + request.length ->
    Exists fun after => request.perform buffer = some (List.replicate request.length 0, after)

/-- The end of the request passes 2^64 and falls inside the buffer. -/
def Wraps (buffer : ByteBuffer) (request : Request) : Prop :=
  2 ^ 64 ≤ (request.start buffer).toNat + request.length ∧
    ((request.start buffer).toNat + request.length) % 2 ^ 64 ≤ buffer.size

theorem size_lt (buffer : ByteBuffer) : buffer.size < 2 ^ 63 :=
  Nat.lt_of_le_of_lt buffer.storage.bounded (by decide)

theorem perform_cases (buffer : ByteBuffer) (request : Request) :
    Exists fun after => request.perform buffer =
      (buffer.readAt (request.start buffer) request.length).map fun bytes => (bytes, after) := by
  cases request with
  | next width => exact ⟨_, rfl⟩
  | position pos width => exact ⟨_, rfl⟩
  | block len => exact ⟨_, rfl⟩

/-- A read does what it should exactly when its end does not wrap around into
the buffer. -/
theorem inside_iff (buffer : ByteBuffer) (request : Request) :
    Inside buffer request <-> ¬ Wraps buffer request := by
  have small := size_lt buffer
  have position := (request.start buffer).toNat_lt
  refine ⟨?_, ?_⟩
  · rintro ⟨touches, _⟩ ⟨passes, falls⟩
    have last := touches ((request.start buffer).toNat + request.length - 1) (by
      rw [Request.touched, if_neg (Nat.not_lt.mpr falls)]
      exact List.mem_range'_1.mpr (by omega))
    omega
  · intro straight
    have exact_test : buffer.size < (request.start buffer).toNat + request.length <->
        buffer.size < ((request.start buffer).toNat + request.length) % 2 ^ 64 := by
      unfold Wraps at straight
      omega
    refine ⟨?_, ?_⟩
    · intro index member
      rw [Request.touched] at member
      by_cases beyond : buffer.size < ((request.start buffer).toNat + request.length) % 2 ^ 64
      · rw [if_pos beyond] at member
        cases member
      · rw [if_neg beyond] at member
        have bound := (List.mem_range'_1.mp member).2
        omega
    · intro beyond
      rcases perform_cases buffer request with ⟨after, performed⟩
      refine ⟨after, ?_⟩
      rw [performed, readAt, if_pos (exact_test.mp beyond)]
      rfl

/-- On every buffer that calls can produce, a read does what it should exactly
when its end does not wrap around into the buffer. -/
theorem reached_inside_iff (reached : Reached) (request : Request) :
    Inside reached.buffer request <-> ¬ Wraps reached.buffer request :=
  inside_iff reached.buffer request

/-- Two reads of eight bytes after a hex dump of seventeen: the dump leaves the
read position at -16, the first read moves it to -8, and the second one ends
at zero. -/
theorem hexlike_reads_outside :
    Exists fun reached : Reached => Exists fun request : Request =>
      reached.calls = [.append (List.replicate 17 1), .hexlike, .read (.next 8)] ∧
        request = .next 8 ∧ request.touched reached.buffer = List.range' (2 ^ 64 - 8) 8 ∧
        ¬ Inside reached.buffer request := by
  have facts : (execute call new
      [.append (List.replicate 17 1), .hexlike, .read (.next 8)]).map (fun buffer =>
        (buffer.rpos, buffer.size)) = some (18446744073709551608, 17) := by decide +kernel
  rcases Run.of_execute_map facts with ⟨buffer, run, fields⟩
  have rpos : buffer.rpos = 18446744073709551608 := congrArg Prod.fst fields
  have size_eq : buffer.size = 17 := congrArg Prod.snd fields
  have touched : (Request.next 8).touched buffer = List.range' (2 ^ 64 - 8) 8 := by
    rw [Request.touched, Request.start, rpos, size_eq]
    decide +kernel
  refine ⟨⟨buffer, _, run⟩, .next 8, rfl, rfl, touched, ?_⟩
  intro inside
  have first := inside.touches (2 ^ 64 - 8) (by rw [touched]; decide +kernel)
  rw [size_eq] at first
  exact absurd first (by decide)

/-! ## The string loop

The turns given to the loop are enough: every turn but the last one reads a
byte of the buffer. -/

end ByteBuffer
end ServerTech

import ServerTech.Foundation.Block
import ServerTech.Foundation.LittleEndian
import ServerTech.Foundation.Framing

namespace ServerTech
namespace Kcp

/-!
# The receive path of the test client

`Client::send` lays a frame out as three 32-bit words, the sequence number,
the time stamp and the payload length, and then the payload.  `Client::recv`
appends what arrived to a string and walks over the frames in it with a raw
pointer and a separate 32-bit counter of the bytes that are left.

The walk reads a whole header whenever the counter is positive.  With fewer
than twelve bytes left it reads the NUL behind the string and whatever the
memory holds behind that, so those bytes are an input of the model.  The walk
does not move past a frame whose size wraps to zero.  The model gives the loop
one pass for every byte the counter holds, and one more, which is all it can
need as long as every pass moves forward.
-/

/-- A frame: sequence number, time stamp and payload. -/
structure Frame where
  sn : UInt32
  ts : UInt32
  payload : List UInt8
  deriving DecidableEq, Repr

/-- The bytes `Client::send` puts on the wire for a frame. -/
def encode (frame : Frame) : List UInt8 :=
  LittleEndian.encode 4 frame.sn.toNat ++ (LittleEndian.encode 4 frame.ts.toNat ++
    (LittleEndian.encode 4 frame.payload.length ++ frame.payload))

/-- The size word of the frame, with the header counted in, does not wrap. -/
def Frame.Sized (frame : Frame) : Prop :=
  frame.payload.length + 12 < 2 ^ 32

/-- The 32-bit word at an offset of a range of memory. -/
def word (cells : List UInt8) (offset : Nat) : UInt32 :=
  UInt32.ofNat (LittleEndian.decode (Block.slice cells offset 4))

/-- The members that the receive path uses, the number of times this client
has counted itself as finished, and the frames it has processed. -/
structure Client where
  readBuffer : List UInt8
  recvBytes : UInt32
  next : UInt32
  sumrtt : UInt32
  count : UInt32
  maxrtt : UInt32
  testCount : UInt32
  isRunning : Bool
  addDelay : Bool
  finishedCnt : Nat
  processed : List Frame
  deriving DecidableEq, Repr

/-- The members as the class initialises them. -/
def Client.new (testCount : UInt32) (addDelay : Bool) : Client where
  readBuffer := []
  recvBytes := 0
  next := 0
  sumrtt := 0
  count := 0
  maxrtt := 0
  testCount := testCount
  isRunning := true
  addDelay := addDelay
  finishedCnt := 0
  processed := []

/-- What one call of `recv` gets: the bytes, the memory behind the terminating
NUL of the string, and the clock and the random delay at each frame. -/
structure Call where
  chunk : List UInt8
  beyond : List UInt8
  iclock : Nat -> UInt32
  random : Nat -> UInt32

/-- The local variables of `recv`, with the pointer as an offset. -/
structure Loop where
  client : Client
  ptr : Nat
  ret : UInt32
  deriving DecidableEq, Repr

namespace Loop

/-- The memory at the pointer. -/
def front (call : Call) (l : Loop) : List UInt8 :=
  (l.client.readBuffer ++ 0 :: call.beyond).drop l.ptr

/-- The local `sz_`, computed in 32 bits. -/
def sz (call : Call) (l : Loop) : UInt32 :=
  word (l.front call) 8 + 12

/-- The statistics and the end of the test, for the frame at the pointer. -/
def process (call : Call) (l : Loop) : Client :=
  let c := l.client
  let sn := word (l.front call) 0
  let ts := word (l.front call) 4
  let delay := if c.addDelay then call.random c.processed.length else 0
  let rtt := call.iclock c.processed.length - ts + delay
  let wrong := sn ≠ c.next
  let next := c.next + 1
  let finished := c.testCount ≤ next
  { c with
    next := next
    sumrtt := c.sumrtt + rtt
    count := c.count + 1
    maxrtt := if c.maxrtt < rtt then rtt else c.maxrtt
    isRunning := if wrong ∨ finished then false else c.isRunning
    finishedCnt := c.finishedCnt + (if wrong then 1 else 0) + (if finished then 1 else 0)
    recvBytes := c.recvBytes - l.sz call
    processed := c.processed ++
      [⟨sn, ts, Block.slice c.readBuffer (l.ptr + 12) ((l.sz call).toNat - 12)⟩] }

/-- One pass of the loop, or `none` when the condition or the `break` ends it. -/
def iterate (call : Call) (l : Loop) : Option Loop :=
  if l.client.recvBytes = 0 then none
  else if l.client.recvBytes < l.sz call then none
  else some
    { client := l.process call
      ptr := l.ptr + (l.sz call).toNat
      ret := word (l.front call) 0 }

/-- At most `fuel` passes. -/
def loop (call : Call) : Nat -> Loop -> Option Loop
  | 0, _ => none
  | fuel + 1, l =>
      match l.iterate call with
      | none => some l
      | some following => loop call fuel following

/-- What a pass needs and what it does to the walk. -/
theorem iterate_cases {call : Call} {l following : Loop}
    (pass : l.iterate call = some following) :
    l.client.recvBytes ≠ 0 ∧ l.sz call ≤ l.client.recvBytes ∧
      following.client = l.process call ∧ following.ptr = l.ptr + (l.sz call).toNat := by
  unfold iterate at pass
  by_cases empty : l.client.recvBytes = 0
  · rw [if_pos empty] at pass
    cases pass
  · by_cases short : l.client.recvBytes < l.sz call
    · rw [if_neg empty, if_pos short] at pass
      cases pass
    · rw [if_neg empty, if_neg short] at pass
      cases pass
      exact ⟨empty, UInt32.not_lt.mp short, rfl, rfl⟩

theorem iterate_isSome {call : Call} {l : Loop} (some_ : l.client.recvBytes ≠ 0)
    (enough : l.sz call ≤ l.client.recvBytes) :
    Exists fun following => l.iterate call = some following := by
  rw [iterate, if_neg some_, if_neg (UInt32.not_lt.mpr enough)]
  exact ⟨_, rfl⟩

/-- A pass uses up as much of the counter as it moves the pointer. -/
theorem iterate_recvBytes {call : Call} {l following : Loop}
    (pass : l.iterate call = some following) :
    following.client.recvBytes.toNat + (l.sz call).toNat = l.client.recvBytes.toNat := by
  rcases iterate_cases pass with ⟨_, enough, after, _⟩
  have bound := UInt32.le_iff_toNat_le.mp enough
  have left : following.client.recvBytes = l.client.recvBytes - l.sz call := by
    rw [after]
    rfl
  rw [left, UInt32.toNat_sub_of_le _ _ enough]
  omega

theorem iterate_readBuffer {call : Call} {l following : Loop}
    (pass : l.iterate call = some following) :
    following.client.readBuffer = l.client.readBuffer := by
  rw [(iterate_cases pass).2.2.1]
  rfl

theorem loop_succ_of_some {call : Call} {l following : Loop} (fuel : Nat)
    (pass : l.iterate call = some following) :
    loop call (fuel + 1) l = loop call fuel following := by
  rw [loop, pass]

theorem loop_succ_of_none {call : Call} {l : Loop} (fuel : Nat)
    (ended : l.iterate call = none) : loop call (fuel + 1) l = some l := by
  rw [loop, ended]

/-- A pass over a frame of size zero repeats itself. -/
theorem loop_stuck {call : Call} {l : Loop} (some_ : l.client.recvBytes ≠ 0)
    (zero : l.sz call = 0) (fuel : Nat) : loop call fuel l = none := by
  induction fuel generalizing l with
  | zero => rfl
  | succ fuel inductionHypothesis =>
      have enough : l.sz call ≤ l.client.recvBytes := by
        rw [zero]
        exact UInt32.zero_le
      rcases iterate_isSome some_ enough with ⟨following, pass⟩
      have used := iterate_recvBytes pass
      have ptr := (iterate_cases pass).2.2.2
      rw [zero] at used ptr
      have same : following.client.recvBytes = l.client.recvBytes := UInt32.toNat_inj.mp used
      have front : following.front call = l.front call := by
        rw [front, front, iterate_readBuffer pass, ptr]
        rfl
      rw [loop_succ_of_some fuel pass]
      apply inductionHypothesis
      · rw [same]
        exact some_
      · rw [sz, front]
        exact zero

end Loop

namespace Client

/-- The first lines of `recv`. -/
def append (c : Client) (call : Call) : Client :=
  if call.chunk = [] then c
  else
    { c with
      readBuffer := c.readBuffer ++ call.chunk
      recvBytes := c.recvBytes + UInt32.ofNat call.chunk.length }

/-- The last lines of `recv`.  The value of `substr` is not used; the call
throws when the counter is larger than the string. -/
def settle (c : Client) : Option Client :=
  if c.recvBytes = 0 then some { c with readBuffer := [] }
  else if c.readBuffer.length < c.recvBytes.toNat then none
  else some c

/-- `Client::recv`.  There is no result when the loop does not end or the end
throws. -/
def recv (c : Client) (call : Call) : Option (UInt32 × Client) :=
  let start : Loop := { client := c.append call, ptr := 0, ret := 0 }
  (start.loop call (start.client.recvBytes.toNat + 1)).bind fun l =>
    l.client.settle.map fun after => (l.ret, after)

/-- The client after a call, without the value it returns. -/
def step (c : Client) (call : Call) : Option Client :=
  (c.recv call).map Prod.snd

end Client
end Kcp
end ServerTech

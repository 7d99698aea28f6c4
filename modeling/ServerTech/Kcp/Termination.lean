import ServerTech.Kcp.Client
import Mathlib.Logic.Relation

namespace ServerTech
namespace Kcp

open Relation

/-!
# When the receive loop of the test client ends

The size of a frame is the length word behind its first eight bytes plus
twelve, in 32 bits, and the word is the peer's.  A pass takes this size off
the counter of pending bytes and moves the pointer by it.  Every size but zero
makes the counter smaller.  A length word of 2^32 - 12 makes the size zero, and
the pass then repeats itself for ever.
-/

/-! ## The walk -/

/-- The length word of the frame at a position of the memory. -/
def lengthWord (cells : List UInt8) (position : Nat) : UInt32 :=
  word (cells.drop position) 8

/-- The size of that frame as `recv` computes it. -/
def frameSize (cells : List UInt8) (position : Nat) : Nat :=
  (lengthWord cells position + 12).toNat

/-- The positions of the frames that a walk over the pending bytes comes to. -/
inductive Visited (cells : List UInt8) (pending : Nat) : Nat -> Prop
  | start : 0 < pending -> Visited cells pending 0
  | next {position : Nat} : Visited cells pending position ->
      position + frameSize cells position < pending ->
      Visited cells pending (position + frameSize cells position)

theorem frameSize_eq_zero_iff (cells : List UInt8) (position : Nat) :
    frameSize cells position = 0 <-> lengthWord cells position = 0xFFFFFFF4 := by
  rw [frameSize]
  constructor
  · intro zero
    have sum : lengthWord cells position + 12 = 0 := UInt32.toNat_inj.mp zero
    calc lengthWord cells position = lengthWord cells position + 12 - 12 :=
          (UInt32.add_sub_cancel _ _).symm
      _ = 0xFFFFFFF4 := by rw [sum]; rfl
  · intro word
    rw [word]
    rfl

/-! ## The members between two calls -/

/-- The members between two calls: the string holds at least the pending bytes. -/
structure Between where
  client : Client
  held : client.recvBytes.toNat ≤ client.readBuffer.length

/-- The loop as a call enters it. -/
def Client.entry (c : Client) (call : Call) : Loop :=
  { client := c.append call, ptr := 0, ret := 0 }

theorem Client.recv_eq (c : Client) (call : Call) :
    c.recv call = ((c.entry call).loop call ((c.entry call).client.recvBytes.toNat + 1)).bind fun l =>
      l.client.settle.map fun after => (l.ret, after) :=
  rfl

/-- The memory that the loop walks over. -/
def Client.cells (c : Client) (call : Call) : List UInt8 :=
  (c.append call).readBuffer ++ 0 :: call.beyond

/-- The number of bytes that are pending when the loop starts. -/
def Client.pending (c : Client) (call : Call) : Nat :=
  (c.append call).recvBytes.toNat

theorem Between.append_held (b : Between) (call : Call) :
    (b.client.append call).recvBytes.toNat ≤ (b.client.append call).readBuffer.length := by
  have held := b.held
  unfold Client.append
  by_cases nothing : call.chunk = []
  · rw [if_pos nothing]
    exact held
  · rw [if_neg nothing]
    simp only [UInt32.toNat_add, UInt32.toNat_ofNat', List.length_append]
    omega

/-! ## Passes -/

namespace Loop

/-- The loops that a number of passes leads to. -/
def Passes (call : Call) : Loop -> Loop -> Prop :=
  ReflTransGen fun before after => before.iterate call = some after

/-- What passes keep: the string, and the sum of the pointer and the counter. -/
structure Walked (c : Client) (call : Call) (l : Loop) : Prop where
  readBuffer : l.client.readBuffer = (c.append call).readBuffer
  sum : l.ptr + l.client.recvBytes.toNat = c.pending call
  visited : l.client.recvBytes ≠ 0 -> Visited (c.cells call) (c.pending call) l.ptr

theorem Walked.sz {c : Client} {call : Call} {l : Loop} (walked : Walked c call l) :
    (l.sz call).toNat = frameSize (c.cells call) l.ptr := by
  rw [Loop.sz, front, walked.readBuffer]
  rfl

theorem entry_walked (c : Client) (call : Call) : Walked c call (c.entry call) where
  readBuffer := rfl
  sum := Nat.zero_add _
  visited := by
    intro some_
    exact .start (Nat.pos_of_ne_zero fun zero => some_ (UInt32.toNat_inj.mp zero))

theorem Walked.iterate {c : Client} {call : Call} {l following : Loop} (walked : Walked c call l)
    (pass : l.iterate call = some following) : Walked c call following := by
  have used := iterate_recvBytes pass
  rcases iterate_cases pass with ⟨some_, _, _, moved⟩
  have size := walked.sz
  have sum := walked.sum
  refine ⟨(iterate_readBuffer pass).trans walked.readBuffer, by omega, ?_⟩
  intro left
  have positive : following.client.recvBytes.toNat ≠ 0 := fun zero => left (UInt32.toNat_inj.mp zero)
  rw [moved, size]
  exact .next (walked.visited some_) (by omega)

theorem Passes.walked {c : Client} {call : Call} {l : Loop} (passes : Passes call (c.entry call) l) :
    Walked c call l := by
  induction passes with
  | refl => exact entry_walked c call
  | tail _ pass inductionHypothesis => exact inductionHypothesis.iterate pass

/-- Every position of the walk is reached. -/
theorem passes_of_visited {c : Client} {call : Call} {position : Nat}
    (visited : Visited (c.cells call) (c.pending call) position) :
    Exists fun l => Passes call (c.entry call) l ∧ l.ptr = position ∧ l.client.recvBytes ≠ 0 := by
  induction visited with
  | start some_ =>
      refine ⟨c.entry call, .refl, rfl, ?_⟩
      intro zero
      exact Nat.lt_irrefl 0 (Nat.lt_of_lt_of_eq some_ (congrArg UInt32.toNat zero))
  | @next position _ inside inductionHypothesis =>
      rcases inductionHypothesis with ⟨l, passes, rfl, some_⟩
      have walked := passes.walked
      have size := walked.sz
      have sum := walked.sum
      have enough : l.sz call ≤ l.client.recvBytes := by
        rw [UInt32.le_iff_toNat_le]
        omega
      rcases iterate_isSome some_ enough with ⟨following, pass⟩
      have used := iterate_recvBytes pass
      refine ⟨following, passes.tail pass, ?_, ?_⟩
      · rw [(iterate_cases pass).2.2.2, size]
      · intro zero
        rw [zero, UInt32.toNat_zero] at used
        omega

/-- A loop whose passes all use something up ends. -/
theorem loop_of_decreasing {call : Call} (fuel : Nat) {l : Loop} (enough : l.client.recvBytes.toNat < fuel)
    (decreases : forall reached following, Passes call l reached ->
      reached.iterate call = some following ->
      following.client.recvBytes.toNat < reached.client.recvBytes.toNat) :
    Exists fun last => loop call fuel l = some last ∧ Passes call l last := by
  induction fuel generalizing l with
  | zero => exact absurd enough (Nat.not_lt_zero _)
  | succ fuel inductionHypothesis =>
      cases pass : l.iterate call with
      | none => exact ⟨l, loop_succ_of_none fuel pass, .refl⟩
      | some following =>
          have smaller := decreases l following .refl pass
          rcases inductionHypothesis (by omega) fun reached next passes =>
            decreases reached next (.head pass passes) with ⟨last, ended, passes⟩
          refine ⟨last, ?_, .head pass passes⟩
          rw [loop_succ_of_some fuel pass]
          exact ended

/-- A loop that comes to a frame of size zero does not end. -/
theorem loop_none_of_passes {call : Call} {l stuck : Loop} (passes : Passes call l stuck)
    (some_ : stuck.client.recvBytes ≠ 0) (zero : stuck.sz call = 0) (fuel : Nat) :
    loop call fuel l = none := by
  induction passes using ReflTransGen.head_induction_on generalizing fuel with
  | refl => exact loop_stuck some_ zero fuel
  | head pass _ inductionHypothesis =>
      cases fuel with
      | zero => rfl
      | succ fuel =>
          rw [loop_succ_of_some fuel pass]
          exact inductionHypothesis fuel

end Loop

/-- Between calls the string always holds the pending bytes. -/
theorem new_held (testCount : UInt32) (addDelay : Bool) :
    (Client.new testCount addDelay).recvBytes.toNat ≤ (Client.new testCount addDelay).readBuffer.length :=
  Nat.le_refl 0

/-! ## The result -/

/-- What it takes for a call to end: every pass makes the counter
smaller, a finite number of passes ends the loop, and the call returns. -/
structure Returns (c : Client) (call : Call) : Prop where
  decreases : forall l following, Loop.Passes call (c.entry call) l -> l.iterate call = some following ->
    following.client.recvBytes.toNat < l.client.recvBytes.toNat
  ends : Exists fun passes => Exists fun last => (c.entry call).loop call passes = some last
  returns : (c.recv call).isSome = true

theorem settle_isSome {c : Client} (held : c.recvBytes.toNat ≤ c.readBuffer.length) :
    c.settle.isSome = true := by
  rw [Client.settle]
  by_cases none_ : c.recvBytes = 0
  · rw [if_pos none_]
    rfl
  · rw [if_neg none_, if_neg (Nat.not_lt.mpr held)]
    rfl

/-- The call returns, and every pass of its loop makes the counter smaller,
exactly when no frame that the walk comes to has the length word 2^32 - 12. -/
theorem recv_returns_iff (b : Between) (call : Call) :
    Returns b.client call <-> forall position,
      Visited (b.client.cells call) (b.client.pending call) position ->
      lengthWord (b.client.cells call) position ≠ 0xFFFFFFF4 := by
  constructor
  · intro returns position visited wraps
    rcases Loop.passes_of_visited visited with ⟨l, passes, rfl, some_⟩
    have zero := (frameSize_eq_zero_iff _ _).mpr wraps
    have size := passes.walked.sz
    have enough : l.sz call ≤ l.client.recvBytes := by
      rw [UInt32.le_iff_toNat_le, size, zero]
      exact Nat.zero_le _
    rcases Loop.iterate_isSome some_ enough with ⟨following, pass⟩
    have used := Loop.iterate_recvBytes pass
    have smaller := returns.decreases l following passes pass
    omega
  · intro straight
    have decreases : forall l following, Loop.Passes call (b.client.entry call) l ->
        l.iterate call = some following ->
        following.client.recvBytes.toNat < l.client.recvBytes.toNat := by
      intro l following passes pass
      have walked := passes.walked
      have used := Loop.iterate_recvBytes pass
      have moved := mt (frameSize_eq_zero_iff _ _).mp
        (straight l.ptr (walked.visited (Loop.iterate_cases pass).1))
      have size := walked.sz
      omega
    rcases Loop.loop_of_decreasing ((b.client.entry call).client.recvBytes.toNat + 1)
      (Nat.lt_succ_self _) decreases with ⟨last, ended, passes⟩
    refine ⟨decreases, ⟨_, last, ended⟩, ?_⟩
    have walked := passes.walked
    have held : last.client.recvBytes.toNat ≤ last.client.readBuffer.length := by
      have sum := walked.sum
      have bound : b.client.pending call ≤ (b.client.append call).readBuffer.length := b.append_held call
      rw [walked.readBuffer]
      omega
    rw [Client.recv_eq, ended, Option.bind_some, Option.isSome_map]
    exact settle_isSome held

/-- A call that comes to a length word of 2^32 - 12 never returns. -/
theorem recv_none {b : Between} {call : Call} {position : Nat}
    (visited : Visited (b.client.cells call) (b.client.pending call) position)
    (wraps : lengthWord (b.client.cells call) position = 0xFFFFFFF4) :
    b.client.recv call = none := by
  rcases Loop.passes_of_visited visited with ⟨l, passes, rfl, some_⟩
  have zero : l.sz call = 0 := by
    apply UInt32.toNat_inj.mp
    rw [passes.walked.sz, (frameSize_eq_zero_iff _ _).mpr wraps]
    rfl
  rw [Client.recv_eq, Loop.loop_none_of_passes passes some_ zero, Option.bind_none]

/-- A header alone, with the length word 2^32 - 12. -/
def wrapping : Call where
  chunk := [1, 0, 0, 0, 0, 0, 0, 0, 0xF4, 0xFF, 0xFF, 0xFF]
  beyond := []
  iclock := fun _ => 0
  random := fun _ => 0

/-- The first chunk a new client receives can stop it. -/
theorem recv_wrapping : ¬ forall (b : Between) (call : Call), Returns b.client call := by
  intro claim
  have returns := (claim ⟨Client.new 10 false, new_held 10 false⟩ wrapping).returns
  have stuck : (Client.new 10 false).recv wrapping = none :=
    @recv_none ⟨Client.new 10 false, new_held 10 false⟩ wrapping 0 (.start (by decide)) (by decide)
  rw [stuck] at returns
  cases returns

end Kcp
end ServerTech

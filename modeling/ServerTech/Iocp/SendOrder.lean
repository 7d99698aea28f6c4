import ServerTech.Foundation.Tally
import ServerTech.Iocp.Socket

namespace ServerTech

/-!
# The order of outgoing bytes

The send lock is a token.  It is free, or one thread has it, or it went to the
kernel with an outstanding span, or it is lost: a thread that returned early
from `WriteCallback`, or an ignored error, took it along.  Only the thread
that has the token submits a span or removes bytes from the write buffer, so
at most one span is outstanding, and nothing is removed below it.

Other threads only append.  An append never moves region A and never writes
into it, so the bytes below an outstanding span stay where they are.
-/

namespace Ring

/-- The span is the start of region A, and holds the bytes it was submitted
with. -/
structure Covers (r : Ring) (offset : Nat) (bytes : List UInt8) : Prop where
  start : offset = r.bip.regionAPtr
  inside : bytes.length ≤ r.bip.regionASize
  same : Block.slice r.bip.memory offset bytes.length = bytes

/-- The bytes of a span are the first bytes of the content. -/
theorem Covers.take_content {r : Ring} {offset : Nat} {bytes : List UInt8}
    (covers : r.Covers offset bytes) {len : Nat} (part : len ≤ bytes.length) :
    r.content.take len = bytes.take len := by
  have inside := covers.inside
  have lengthA := r.bip_valid.length_bytesA
  have first : r.content.take len = r.bip.bytesA.take len := by
    rw [content, BipBuffer.content, List.take_append_of_le_length (by omega)]
  have whole : bytes.take len = (Block.slice r.bip.memory offset bytes.length).take len := by
    rw [covers.same]
  rw [first, whole, BipBuffer.bytesA, covers.start, Block.take_slice _ _ (by omega),
    Block.take_slice _ _ part]

theorem Covers.length_le {r : Ring} {offset : Nat} {bytes : List UInt8}
    (covers : r.Covers offset bytes) : bytes.length ≤ r.content.length := by
  have inside := covers.inside
  change _ ≤ r.bip.content.length
  rw [r.bip_valid.length_content]
  omega

/-- The contiguous bytes of a buffer make a span. -/
theorem covers_contiguious (r : Ring) (some_ : r.getContiguiousBytes ≠ 0) :
    r.Covers (r.getBufferStart.getD 0)
      (Block.slice r.buffer.memory (r.getBufferStart.getD 0) r.getContiguiousBytes) := by
  rw [getContiguiousBytes_eq] at some_ ⊢
  have start : r.getBufferStart.getD 0 = r.bip.regionAPtr := by
    have positive : 0 < r.buffer.regionASize := Nat.pos_of_ne_zero some_
    rw [getBufferStart, CircularBuffer.getBufferStart, if_pos positive]
    rfl
  have fits : r.bip.regionAPtr + r.bip.regionASize ≤ r.bip.memory.length := by
    rw [← r.bip_valid.capacity]
    exact r.bip_valid.fitsA
  have length : (Block.slice r.buffer.memory (r.getBufferStart.getD 0) r.bip.regionASize).length =
      r.bip.regionASize := by
    rw [start]
    exact Block.length_slice r.bip.memory fits
  constructor
  · exact start
  · exact Nat.le_of_eq length
  · rw [length]
    rfl

end Ring

/-- A write keeps every span. -/
theorem Ring.Covers.write {r : Ring} {offset : Nat} {bytes : List UInt8}
    (covers : r.Covers offset bytes) (data : List UInt8) : (r.write data).2.Covers offset bytes := by
  rcases covers with ⟨start, inside, same⟩
  rcases BipBuffer.opened_fields r.bip with ⟨memory, _, _, ptr, size, _⟩
  by_cases room : data.length ≤ r.space
  · have after := (r.write_of_room room).2
    rcases r.bip_valid.opened.push_regionA (r.opened_free room) (size.symm ▸ inside) with
      ⟨ptr', size', same'⟩
    constructor
    · rw [after, ptr', ptr]
      exact start
    · rw [after]
      exact Nat.le_trans (size.symm ▸ inside) size'
    · rw [after, start, ← ptr, same', memory, ptr, ← start]
      exact same
  · have after := (r.write_of_full (Nat.not_le.mp room)).2
    constructor
    · rw [after, ptr]
      exact start
    · rw [after, size]
      exact inside
    · rw [after, memory]
      exact same

namespace Iocp

open Transition

/-! ## The token -/

/-- The operations of a thread that has the token. -/
def Op.token : Op -> Nat
  | .writeCallback | .submit | .decSendLock | .handleWriteComplete _ | .remove _ => 1
  | _ => 0

/-- The bytes a thread is about to remove. -/
def Op.removal : Op -> Nat
  | .handleWriteComplete len | .remove len => len
  | _ => 0

/-- A removal is an operation of the thread that has the token. -/
theorem removal_of_token {ops : List Op} (none_ : tally Op.token ops = 0) :
    tally Op.removal ops = 0 := by
  induction ops with
  | nil => rfl
  | cons op ops inductionHypothesis =>
      rw [tally_cons] at none_
      have rest := inductionHypothesis (by omega)
      have first : op.removal = 0 := by
        cases op with
        | handleWriteComplete len => exact absurd none_ (by simp only [Op.token]; omega)
        | remove len => exact absurd none_ (by simp only [Op.token]; omega)
        | _ => rfl
      rw [tally_cons, first, rest]

/-- Where the token is. -/
inductive Holder where
  | free
  | thread (number pending : Nat)
  | kernel (span : Span)
  | lost

namespace Holder

def lock : Holder -> Int
  | free => 0
  | _ => 1

def tokens : Holder -> Nat -> Nat
  | thread number _, other => if other = number then 1 else 0
  | _, _ => 0

/-- The bytes that are transferred and not yet removed. -/
def pending : Holder -> Nat
  | thread _ count => count
  | _ => 0

def removals (holder : Holder) (other : Nat) : Nat :=
  if holder.tokens other = 0 then 0 else holder.pending

def spans : Holder -> List Span
  | kernel span => [span]
  | _ => []

/-- No thread but this one has the token. -/
def Local (holder : Holder) (number : Nat) : Prop :=
  forall other, other ≠ number -> holder.tokens other = 0

theorem thread_local (number count : Nat) : (thread number count).Local number := by
  intro other apart
  exact if_neg apart

@[simp] theorem tokens_thread (number count : Nat) : (thread number count).tokens number = 1 :=
  if_pos rfl

@[simp] theorem removals_thread (number count : Nat) :
    (thread number count).removals number = count := by
  rw [removals, tokens_thread, if_neg Nat.one_ne_zero, pending]

/-- A thread with an operation of the token has it. -/
theorem eq_thread {holder : Holder} {number : Nat} (one : holder.tokens number ≠ 0) :
    holder = thread number (holder.removals number) := by
  cases holder with
  | thread owner count =>
      simp only [tokens] at one
      by_cases own : number = owner
      · rw [own, removals_thread]
      · rw [if_neg own] at one
        exact absurd rfl one
  | _ => exact absurd rfl one

end Holder

/-- The members and logs that sending changes. -/
structure Traffic where
  writeBuffer : Ring
  writeLock : Int
  deleted : Bool
  inflight : List Span
  accepted : List (List UInt8)
  transferred : List UInt8

/-- What the place of the token says about the lock, the outstanding spans and
the bytes. -/
structure Traffic.Sound (t : Traffic) (holder : Holder) : Prop where
  alive : t.deleted = false
  lock : t.writeLock = holder.lock
  spans : t.inflight = holder.spans
  covers : forall span, span ∈ holder.spans -> t.writeBuffer.Covers span.offset span.bytes
  ledger : t.accepted.flatten = t.transferred ++ t.writeBuffer.content.drop holder.pending
  pending : holder.pending ≤ t.writeBuffer.content.length

namespace Traffic.Sound

variable {t : Traffic} {holder : Holder}

/-- Accepted bytes go behind everything that is waiting. -/
theorem written (sound : t.Sound holder) {bytes : List UInt8}
    (room : bytes.length ≤ t.writeBuffer.space) :
    { t with
      writeBuffer := (t.writeBuffer.write bytes).2
      accepted := t.accepted ++ [bytes] : Traffic }.Sound holder := by
  have content := t.writeBuffer.write_content_of_room room
  constructor
  · exact sound.alive
  · exact sound.lock
  · exact sound.spans
  · intro span member
    exact (sound.covers span member).write bytes
  · rw [List.flatten_append, List.flatten_singleton, sound.ledger, content,
      List.drop_append_of_le_length sound.pending, List.append_assoc]
  · rw [content, List.length_append]
    exact Nat.le_trans sound.pending (Nat.le_add_right _ _)

theorem refused (sound : t.Sound holder) {bytes : List UInt8}
    (full : t.writeBuffer.space < bytes.length) :
    { t with writeBuffer := (t.writeBuffer.write bytes).2 : Traffic }.Sound holder := by
  have content := t.writeBuffer.write_content_of_full full
  constructor
  · exact sound.alive
  · exact sound.lock
  · exact sound.spans
  · intro span member
    exact (sound.covers span member).write bytes
  · rw [content]
    exact sound.ledger
  · rw [content]
    exact sound.pending

theorem eq_free (sound : t.Sound holder) (idle : t.writeLock = 0) : holder = .free := by
  rw [sound.lock] at idle
  cases holder with
  | free => rfl
  | _ => cases idle

theorem lock_eq_one (sound : t.Sound holder) (locked : t.writeLock ≠ 0) : t.writeLock = 1 := by
  rw [sound.lock] at locked ⊢
  cases holder with
  | free => exact absurd rfl locked
  | _ => rfl

/-- The token moves while nothing is outstanding and nothing has to be removed. -/
theorem relocate (sound : t.Sound holder) {holder' : Holder} {lock : Int}
    (locked : lock = holder'.lock) (none_ : holder.pending = 0) (none' : holder'.pending = 0)
    (spans : holder.spans = []) (spans' : holder'.spans = []) :
    { t with writeLock := lock : Traffic }.Sound holder' := by
  constructor
  · exact sound.alive
  · exact locked
  · rw [spans', ← spans]
    exact sound.spans
  · intro span member
    rw [spans'] at member
    cases member
  · rw [none', ← none_]
    exact sound.ledger
  · rw [none']
    exact Nat.zero_le _

theorem submitted {thread : Nat} (sound : t.Sound (.thread thread 0)) {span : Span}
    (covers : t.writeBuffer.Covers span.offset span.bytes) :
    { t with inflight := t.inflight ++ [span] : Traffic }.Sound (.kernel span) := by
  constructor
  · exact sound.alive
  · exact sound.lock
  · rw [sound.spans]
    rfl
  · intro other member
    cases List.mem_singleton.mp member
    exact covers
  · exact sound.ledger
  · exact Nat.zero_le _

/-- The token comes back with a part of the span transferred. -/
theorem completed {span : Span} (sound : t.Sound (.kernel span)) (thread : Nat) {len : Nat}
    (part : len ≤ span.bytes.length) :
    { t with
      inflight := []
      transferred := t.transferred ++ span.bytes.take len : Traffic }.Sound
        (.thread thread len) := by
  have covers := sound.covers span List.mem_cons_self
  constructor
  · exact sound.alive
  · exact sound.lock
  · rfl
  · intro other member
    cases member
  · change _ = _ ++ t.writeBuffer.content.drop len
    rw [← covers.take_content part, List.append_assoc, List.take_append_drop]
    exact sound.ledger
  · exact Nat.le_trans part covers.length_le

theorem dropped {span : Span} (sound : t.Sound (.kernel span)) :
    { t with inflight := [] : Traffic }.Sound .lost := by
  constructor
  · exact sound.alive
  · exact sound.lock
  · rfl
  · intro other member
    cases member
  · exact sound.ledger
  · exact Nat.zero_le _

end Traffic.Sound

namespace Socket

def traffic (s : Socket) : Traffic :=
  ⟨s.writeBuffer, s.writeLock, s.deleted, s.inflight, s.accepted, s.transferred⟩

/-- The place of the token, and what follows from it for the bytes and for the
lists of the threads. -/
structure Order (s : Socket) (holder : Holder) : Prop where
  sound : s.traffic.Sound holder
  tokens : forall thread, tally Op.token (s.stack thread) = holder.tokens thread
  removals : forall thread, tally Op.removal (s.stack thread) = holder.removals thread

theorem new_order (block : List UInt8) : (new block).Order .free where
  sound :=
    { alive := rfl
      lock := rfl
      spans := rfl
      covers := by
        intro span member
        cases member
      ledger := by
        change [] = [] ++ (Ring.allocate block).content.drop 0
        rw [Ring.allocate_content]
        rfl
      pending := Nat.zero_le _ }
  tokens := fun _ => rfl
  removals := fun _ => rfl

variable {s after : Socket} {holder holder' : Holder} {thread : Nat} {op : Op} {ops rest : List Op}

/-- A thread at an operation of the token has it, and the rest of its list does
not concern the token. -/
theorem Order.holds (order : s.Order holder) (top : s.stack thread = op :: rest)
    (one : op.token = 1) : holder = .thread thread op.removal ∧ tally Op.token rest = 0 := by
  have tokens := order.tokens thread
  have removals := order.removals thread
  rw [top, tally_cons] at tokens removals
  have own : holder = .thread thread (holder.removals thread) := Holder.eq_thread (by omega)
  have alone : tally Op.token rest = 0 := by
    rw [own, Holder.tokens_thread] at tokens
    omega
  rw [removal_of_token alone, Nat.add_zero] at removals
  rw [removals]
  exact ⟨own, alone⟩

theorem Order.locked (order : s.Order holder) (top : s.stack thread = op :: rest)
    (one : op.token = 1) : s.writeLock = 1 := by
  have own := (order.holds top one).1
  subst own
  exact order.sound.lock

/-- A change of one thread's list, and of the place of the token as seen by that
thread. -/
theorem Order.change (order : s.Order holder)
    (stack : after.stack = Function.update s.stack thread ops)
    (sound : after.traffic.Sound holder')
    (others : forall other, other ≠ thread ->
      holder'.tokens other = holder.tokens other ∧ holder'.removals other = holder.removals other)
    (tokens : tally Op.token ops = holder'.tokens thread)
    (removals : tally Op.removal ops = holder'.removals thread) : after.Order holder' := by
  refine ⟨sound, ?_, ?_⟩
  · rw [stack, Function.forall_update_iff s.stack fun other ops => tally Op.token ops = _]
    refine ⟨tokens, ?_⟩
    intro other apart
    rw [(others other apart).1, order.tokens]
  · rw [stack, Function.forall_update_iff s.stack fun other ops => tally Op.removal ops = _]
    refine ⟨removals, ?_⟩
    intro other apart
    rw [(others other apart).2, order.removals]

theorem Order.keep (order : s.Order holder) (top : s.stack thread = op :: rest)
    (stack : after.stack = s.stack) (sound : after.traffic.Sound holder)
    (tokens : tally Op.token ops = op.token) (removals : tally Op.removal ops = op.removal) :
    (after.setStack thread (ops ++ rest)).Order holder := by
  have tokensBefore := order.tokens thread
  have removalsBefore := order.removals thread
  rw [top, tally_cons] at tokensBefore removalsBefore
  refine order.change (stack_setStack stack _ _) sound (fun _ _ => ⟨rfl, rfl⟩) ?_ ?_
  · rw [tally_append, tokens, tokensBefore]
  · rw [tally_append, removals, removalsBefore]

theorem Order.pass (order : s.Order holder)
    (stack : after.stack = Function.update s.stack thread ops)
    (sound : after.traffic.Sound holder') (here : holder.Local thread)
    (there : holder'.Local thread) (tokens : tally Op.token ops = holder'.tokens thread)
    (removals : tally Op.removal ops = holder'.removals thread) : after.Order holder' := by
  refine order.change stack sound ?_ tokens removals
  intro other apart
  rw [Holder.removals, Holder.removals, here other apart, there other apart, if_pos rfl, if_pos rfl]
  exact ⟨rfl, rfl⟩

theorem Order.leave (order : s.Order holder) (top : s.stack thread = op :: rest)
    (one : op.token = 1) (stack : after.stack = s.stack) (sound : after.traffic.Sound holder')
    (away : forall other, holder'.tokens other = 0) (quiet : tally Op.token ops = 0) :
    (after.setStack thread (ops ++ rest)).Order holder' := by
  rcases order.holds top one with ⟨own, alone⟩
  subst own
  have none_ : tally Op.token (ops ++ rest) = 0 := by rw [tally_append, quiet, alone]
  refine order.pass (stack_setStack stack _ _) sound (Holder.thread_local _ _) (fun other _ => away other) ?_ ?_
  · rw [none_, away]
  · rw [removal_of_token none_, Holder.removals, if_pos (away thread)]

/-! ## Steps -/

/-- The calls put no operation of the token on the list. -/
theorem token_ops (entry : Entry) : tally Op.token entry.ops = 0 := by
  cases entry with
  | _ => rfl

theorem payload_quiet {bytes : List UInt8} {following : List Op}
    (sends : payload op = some (bytes, following)) :
    op.token = 0 ∧ op.removal = 0 ∧ tally Op.token following = 0 := by
  rcases payload_cases sends with ⟨rfl, rfl⟩ | ⟨packet, rfl, rfl, rfl⟩ | ⟨packet, rfl, rfl, rfl⟩ <;>
    exact ⟨rfl, rfl, rfl⟩

/-- Removing what was transferred leaves what is waiting. -/
theorem Order.removed (order : s.Order holder) {len : Nat} {mutex : Mutex}
    (top : s.stack thread = .remove len :: rest) (tokens : tally Op.token ops = 1)
    (removals : tally Op.removal ops = 0) :
    ({ s with mutex := mutex, writeBuffer := s.writeBuffer.remove len }.setStack thread
      (ops ++ rest)).Order (.thread thread 0) := by
  rcases order.holds top rfl with ⟨own, alone⟩
  subst own
  refine order.pass rfl ?_ (Holder.thread_local _ _) (Holder.thread_local _ _) ?_ ?_
  · constructor
    · exact order.sound.alive
    · exact order.sound.lock
    · exact order.sound.spans
    · intro span member
      cases member
    · change _ = _ ++ (s.writeBuffer.remove len).content
      rw [s.writeBuffer.remove_content]
      exact order.sound.ledger
    · exact Nat.zero_le _
  · rw [tally_append, tokens, alone, Holder.tokens_thread]
  · rw [tally_append, removals, removal_of_token alone, Holder.removals_thread]

/-- An operation of one thread keeps the order, and loses the token only by the
early return of `WriteCallback`. -/
theorem Performs.order {s after : Socket} {holder : Holder} {thread : Nat} {op : Op}
    {ops rest : List Op} (performs : Performs s thread op after ops) (order : s.Order holder)
    (top : s.stack thread = op :: rest) :
    Exists fun holder' => (after.setStack thread (ops ++ rest)).Order holder' ∧
      (holder' = .lost -> holder = .lost ∨ (op = .writeCallback ∧ s.connected = false)) := by
  have sound := order.sound
  have alive : s.deleted = false := sound.alive
  cases performs with
  | accept sends taken room =>
      rcases payload_quiet sends with ⟨token, removal, following⟩
      refine ⟨holder, order.keep top rfl (sound.written room) ?_ ?_, Or.inl⟩
      · rw [token, tally_cons, tally_cons, following]
        rfl
      · rw [removal, tally_cons, tally_cons, removal_of_token following]
        rfl
  | refuse sends taken full =>
      rcases payload_quiet sends with ⟨token, removal, _⟩
      exact ⟨holder, order.keep top rfl (sound.refused full) token.symm removal.symm, Or.inl⟩
  | burstAccept room => exact ⟨holder, order.keep top rfl (sound.written room) rfl rfl, Or.inl⟩
  | burstRefuse full => exact ⟨holder, order.keep top rfl (sound.refused full) rfl rfl, Or.inl⟩
  | acquired idle =>
      have free := sound.eq_free idle
      subst free
      have tokens := order.tokens thread
      rw [top, tally_cons] at tokens
      have alone : tally Op.token rest = 0 := by
        change _ = 0 at tokens
        omega
      refine ⟨.thread thread 0, order.pass rfl ?_ (fun _ _ => rfl) (Holder.thread_local _ _) ?_ ?_,
        fun lost => nomatch lost⟩
      · exact sound.relocate rfl rfl rfl rfl rfl
      · rw [Holder.tokens_thread, List.singleton_append, tally_cons, alone]
        rfl
      · rw [Holder.removals_thread, List.singleton_append, tally_cons, removal_of_token alone]
        rfl
  | busy locked =>
      have one : s.writeLock = 1 := sound.lock_eq_one locked
      refine ⟨holder, order.keep top rfl ?_ rfl rfl, Or.inl⟩
      have same : { s.traffic with writeLock := 1 : Traffic } = s.traffic := by
        rw [← one]
        rfl
      change { s.traffic with writeLock := 1 : Traffic }.Sound holder
      rw [same]
      exact sound
  | early closed =>
      have own := (order.holds top rfl).1
      subst own
      refine ⟨.lost, order.leave top rfl rfl ?_ (fun _ => rfl) rfl, fun _ => Or.inr ⟨rfl, ?_⟩⟩
      · exact sound.relocate sound.lock rfl rfl rfl rfl
      · rw [alive] at closed
        exact eq_false_of_ne_true (closed.resolve_left Bool.false_ne_true)
  | submitted taken some_ =>
      have own := (order.holds top rfl).1
      subst own
      refine ⟨.kernel s.span, order.leave top rfl rfl ?_ (fun _ => rfl) rfl, fun lost => nomatch lost⟩
      exact sound.submitted (s.writeBuffer.covers_contiguious some_)
  | decSendLock =>
      have one := order.locked top rfl
      have own := (order.holds top rfl).1
      subst own
      refine ⟨.free, order.leave top rfl rfl ?_ (fun _ => rfl) rfl, fun lost => nomatch lost⟩
      refine sound.relocate ?_ rfl rfl rfl rfl
      rw [one]
      rfl
  | ignored gone =>
      rw [alive] at gone
      cases gone
  | more taken left_ => exact ⟨_, order.removed top rfl rfl, fun lost => nomatch lost⟩
  | last taken none_ => exact ⟨_, order.removed top rfl rfl, fun lost => nomatch lost⟩
  | received present some_ =>
      refine ⟨holder, order.keep top rfl sound ?_ ?_, Or.inl⟩
      · exact tally_replies (fun _ => rfl) rfl _
      · exact tally_replies (fun _ => rfl) rfl _
  | delete gone =>
      rw [alive] at gone
      cases gone
  | _ => exact ⟨holder, order.keep top rfl sound rfl rfl, Or.inl⟩

/-- A dequeued completion is the one of the only outstanding span. -/
theorem Order.outstanding (order : s.Order holder) {index : Nat} {span : Span}
    (found : s.inflight[index]? = some span) :
    holder = .kernel span ∧ s.inflight.eraseIdx index = [] := by
  have spans : s.inflight = holder.spans := order.sound.spans
  rw [spans] at found ⊢
  cases holder with
  | kernel only =>
      cases index with
      | zero =>
          cases found
          exact ⟨rfl, rfl⟩
      | succ index => cases found
  | _ => cases found

/-- The steps that lose the token: the early return of `WriteCallback`, and a
completion that is ignored. -/
def Loses (s : Socket) : Event -> Prop
  | .step thread _ => (s.stack thread).head? = some .writeCallback ∧ s.connected = false
  | .dequeueError _ _ => True
  | _ => False

/-- Every step keeps the order. -/
theorem Moves.order {s after : Socket} {holder : Holder} {event : Event}
    (moves : Moves s event after) (order : s.Order holder) :
    Exists fun holder' => after.Order holder' ∧
      (holder' = .lost -> holder = .lost ∨ s.Loses event) := by
  cases moves with
  | call idle inside =>
      rename_i thread entry
      have empty := order.tokens thread
      have nothing := order.removals thread
      rw [idle] at empty nothing
      refine ⟨holder, order.change rfl order.sound (fun _ _ => ⟨rfl, rfl⟩) ?_ ?_, Or.inl⟩
      · rw [token_ops, ← empty]
        rfl
      · rw [removal_of_token (token_ops entry), ← nothing]
        rfl
  | step top performs =>
      rcases performs.order order top with ⟨holder', order', lost⟩
      refine ⟨holder', order', fun gone => (lost gone).imp_right ?_⟩
      rintro ⟨returns, closed⟩
      refine ⟨?_, closed⟩
      rw [top, returns]
      rfl
  | dequeue idle outstanding some_ part =>
      rename_i thread index len span
      rcases order.outstanding outstanding with ⟨own, empty⟩
      subst own
      refine ⟨.thread thread len,
        order.pass rfl ?_ (fun _ _ => rfl) (Holder.thread_local _ _) ?_ ?_, fun lost => nomatch lost⟩
      · have completed := order.sound.completed thread part
        rw [← empty] at completed
        exact completed
      · rw [Holder.tokens_thread]
        rfl
      · rw [Holder.removals_thread]
        rfl
  | dequeueError idle outstanding =>
      rename_i thread index span
      rcases order.outstanding outstanding with ⟨own, empty⟩
      subst own
      refine ⟨.lost, ⟨?_, order.tokens, order.removals⟩, fun _ => Or.inr trivial⟩
      have dropped := order.sound.dropped
      rw [← empty] at dropped
      exact dropped

theorem run_order {block : List UInt8} {events : List Event} {s : Socket}
    (run : Run (Stepping next) (new block) events s) : Exists fun holder => s.Order holder := by
  refine @Run.invariant _ _ _ (fun s => Exists fun holder => s.Order holder) ?_ _ _ _ run
    ⟨.free, new_order block⟩
  rintro before event after ⟨holder, order⟩ taken
  rcases (next_moves taken).order order with ⟨holder', order', _⟩
  exact ⟨holder', order'⟩

/-- In every run at most one span is outstanding, the memory below it is what
was submitted, and the transferred bytes are the first of the accepted ones;
the accepted bytes that are not transferred are still in the write buffer. -/
theorem outgoing_order {block : List UInt8} {events : List Event} {s : Socket}
    (run : Run (Stepping next) (new block) events s) :
    s.inflight.length ≤ 1 ∧
      (forall span, span ∈ s.inflight ->
        Block.slice s.writeBuffer.buffer.memory span.offset span.bytes.length = span.bytes) ∧
      s.transferred <+: s.accepted.flatten ∧
      s.accepted.flatten.drop s.transferred.length <:+ s.writeBuffer.content := by
  rcases run_order run with ⟨holder, order⟩
  have spans : s.inflight = holder.spans := order.sound.spans
  have ledger : s.accepted.flatten = s.transferred ++ s.writeBuffer.content.drop holder.pending :=
    order.sound.ledger
  refine ⟨?_, ?_, ?_, ?_⟩
  · rw [spans]
    cases holder with
    | kernel span => exact Nat.le_refl 1
    | _ => exact Nat.zero_le 1
  · intro span member
    rw [spans] at member
    exact (order.sound.covers span member).same
  · rw [ledger]
    exact List.prefix_append _ _
  · rw [ledger, List.drop_left]
    exact List.drop_suffix _ _

/-- Two threads send five bytes, and the kernel takes two of the three it was
given. -/
def twoSenders : List Event :=
  [.call 0 .connect, .step 0 true, .step 0 true, .step 0 true, .call 0 (.send [1, 2, 3]),
    .step 0 true, .step 0 true, .step 0 true, .step 0 true, .step 0 true, .step 0 true,
    .call 1 (.send [4, 5]), .step 1 true, .step 1 true, .step 1 true, .dequeue 2 0 2, .step 2 true,
    .step 2 true, .step 2 true, .step 2 true, .step 2 true, .step 2 true]

theorem outgoing_order_twoSenders :
    Exists fun s => Run (Stepping next) (new (List.replicate 8 0)) twoSenders s ∧
      (s.accepted = [[1, 2, 3], [4, 5]] ∧ s.transferred = [1, 2] ∧ s.inflight = [⟨2, [3, 4, 5]⟩]) ∧
      s.inflight.length ≤ 1 ∧
      (forall span, span ∈ s.inflight ->
        Block.slice s.writeBuffer.buffer.memory span.offset span.bytes.length = span.bytes) ∧
      s.transferred <+: s.accepted.flatten ∧
      s.accepted.flatten.drop s.transferred.length <:+ s.writeBuffer.content := by
  have facts : (execute next (new (List.replicate 8 0)) twoSenders).map
      (fun s => (s.accepted, s.transferred, s.inflight)) =
        some ([[1, 2, 3], [4, 5]], [1, 2], [⟨2, [3, 4, 5]⟩]) := by
    decide
  rcases Run.of_execute_map facts with ⟨s, run, same⟩
  simp only [Prod.mk.injEq] at same
  exact ⟨s, run, same, outgoing_order run⟩

end Socket
end Iocp
end ServerTech

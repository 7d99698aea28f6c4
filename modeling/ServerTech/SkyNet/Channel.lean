import Mathlib.Data.List.Induction
import Mathlib.Logic.Function.Basic

namespace ServerTech
namespace SkyNet

/-!
# Channels and the event loop

A `Channel` joins a descriptor to an event loop.  It keeps the events it wants
in `listen_events_`, registers them with epoll, and keeps the events that
`Poller::Poll` reported for it in `ready_events_`.  `HandleEvent` calls the
callbacks of the ready events as long as the channel is open.

The masks of the class and those of epoll are different bits.  A call of
`epoll_ctl` that fails ends the process, so the calls recorded here are those
that succeeded.
-/

/-! ## Masks -/

/-- `Channel::READ_EVENT`. -/
def readEvent : BitVec 16 := 1

/-- `Channel::WRITE_EVENT`. -/
def writeEvent : BitVec 16 := 2

/-- `Channel::ET`. -/
def edgeTriggered : BitVec 16 := 4

/-- `EPOLLIN`. -/
def epollIn : BitVec 32 := 0x001

/-- `EPOLLPRI`. -/
def epollPri : BitVec 32 := 0x002

/-- `EPOLLOUT`. -/
def epollOut : BitVec 32 := 0x004

/-- `EPOLLET`. -/
def epollEt : BitVec 32 := 0x80000000

/-- The test `mask & bits` of a condition. -/
def has {width : Nat} (mask bits : BitVec width) : Bool :=
  decide (mask &&& bits ≠ 0)

@[simp] theorem has_or {width : Nat} (first second bits : BitVec width) :
    has (first ||| second) bits = (has first bits || has second bits) := by
  unfold has
  rw [BitVec.and_or_distrib_right]
  by_cases left : first &&& bits = 0 <;> by_cases right : second &&& bits = 0 <;>
    simp [left, right]

/-! ## The class -/

/-- The operations of `epoll_ctl`. -/
inductive ControlOp
  | add
  | mod
  deriving DecidableEq

/-- A call of `epoll_ctl` for the descriptor of a channel. -/
structure Control where
  op : ControlOp
  events : BitVec 32
  deriving DecidableEq

/-- The fields of the class that its calls use, and the calls of `epoll_ctl`
made for it. -/
structure Channel where
  isOpen : Bool
  listenEvents : BitVec 16
  readyEvents : BitVec 16
  exist : Bool
  controls : List Control
  deriving DecidableEq

/-- The two callbacks of a channel. -/
inductive Callback
  | read
  | write
  deriving DecidableEq

/-- The events that `Poller::UpdateChannel` asks epoll for. -/
def interest (listenEvents : BitVec 16) : BitVec 32 :=
  (if has listenEvents readEvent then epollIn ||| epollPri else 0) |||
    (if has listenEvents writeEvent then epollOut else 0) |||
    (if has listenEvents edgeTriggered then epollEt else 0)

namespace Channel

/-- The member initialisers. -/
def new : Channel where
  isOpen := true
  listenEvents := 0
  readyEvents := 0
  exist := false
  controls := []

/-- `Poller::UpdateChannel`. -/
def updateChannel (channel : Channel) : Channel :=
  if channel.exist then
    { channel with controls := channel.controls ++ [⟨.mod, interest channel.listenEvents⟩] }
  else
    { channel with
      exist := true
      controls := channel.controls ++ [⟨.add, interest channel.listenEvents⟩] }

def enableWrite (channel : Channel) : Channel :=
  { channel with listenEvents := channel.listenEvents ||| writeEvent }.updateChannel

/-- Unlike its siblings, this call assigns the mask. -/
def enableRead (channel : Channel) : Channel :=
  { channel with listenEvents := readEvent }.updateChannel

def enableET (channel : Channel) : Channel :=
  { channel with listenEvents := channel.listenEvents ||| edgeTriggered }.updateChannel

/-- `Close` sets the flag that it should clear. -/
def close (channel : Channel) : Channel :=
  { channel with isOpen := true }

def setReadyEvent (channel : Channel) (events : BitVec 16) : Channel :=
  let first := if has events readEvent then
    { channel with readyEvents := channel.readyEvents ||| readEvent } else channel
  let second := if has events writeEvent then
    { first with readyEvents := first.readyEvents ||| writeEvent } else first
  if has events edgeTriggered then
    { second with readyEvents := second.readyEvents ||| edgeTriggered } else second

/-- What `Poller::Poll` does with the events reported for a channel. -/
def report (channel : Channel) (events : BitVec 32) : Channel :=
  let first := if has events epollIn then channel.setReadyEvent readEvent else channel
  let second := if has events epollOut then first.setReadyEvent writeEvent else first
  if has events epollEt then second.setReadyEvent edgeTriggered else second

/-- The callbacks that `HandleEvent` invokes. -/
def handleEvent (channel : Channel) : List Callback :=
  if channel.isOpen then
    (if has channel.readyEvents readEvent then [.read] else []) ++
      (if has channel.readyEvents writeEvent then [.write] else [])
  else []

end Channel

/-- The calls that enable events. -/
inductive Enable
  | write
  | read
  | et
  deriving DecidableEq

def Channel.enable (channel : Channel) : Enable -> Channel
  | .write => channel.enableWrite
  | .read => channel.enableRead
  | .et => channel.enableET

/-- What happens to a channel.  A channel that is not among the results of
`Poll` is reported with no events. -/
inductive ChannelCall
  | enable (events : Enable)
  | poll (events : BitVec 32)
  | handleEvent
  | close

def Channel.step (channel : Channel) : ChannelCall -> Channel
  | .enable events => channel.enable events
  | .poll events => channel.report events
  | .handleEvent => channel
  | .close => channel.close

/-- A channel after some calls. -/
def Channel.run (calls : List ChannelCall) : Channel :=
  calls.foldl Channel.step Channel.new

/-! ## Readiness -/

/-- The events of the class for the events of epoll. -/
def ready (events : BitVec 32) : BitVec 16 :=
  (if has events epollIn then readEvent else 0) |||
    (if has events epollOut then writeEvent else 0) |||
    (if has events epollEt then edgeTriggered else 0)

/-- The event of the class that a callback waits for. -/
def Callback.event : Callback -> BitVec 16
  | .read => readEvent
  | .write => writeEvent

/-- The event of epoll that a callback waits for. -/
def Callback.reported : Callback -> BitVec 32
  | .read => epollIn
  | .write => epollOut

theorem has_ready (callback : Callback) (events : BitVec 32) :
    has (ready events) callback.event = has events callback.reported := by
  cases callback <;> simp only [ready, Callback.event, Callback.reported] <;>
    cases has events epollIn <;> cases has events epollOut <;> cases has events epollEt <;> decide

theorem setReadyEvent_eq (channel : Channel) :
    channel.setReadyEvent readEvent =
      { channel with readyEvents := channel.readyEvents ||| readEvent } ∧
    channel.setReadyEvent writeEvent =
      { channel with readyEvents := channel.readyEvents ||| writeEvent } ∧
    channel.setReadyEvent edgeTriggered =
      { channel with readyEvents := channel.readyEvents ||| edgeTriggered } :=
  ⟨rfl, rfl, rfl⟩

/-- A report adds to the ready events and takes nothing away. -/
theorem report_eq (channel : Channel) (events : BitVec 32) :
    channel.report events = { channel with readyEvents := channel.readyEvents ||| ready events } := by
  unfold Channel.report ready
  cases has events epollIn <;> cases has events epollOut <;> cases has events epollEt <;>
    simp [setReadyEvent_eq, BitVec.or_assoc]

theorem enable_ready (channel : Channel) (events : Enable) :
    (channel.enable events).isOpen = channel.isOpen ∧
      (channel.enable events).readyEvents = channel.readyEvents := by
  cases events with
  | write =>
      simp only [Channel.enable, Channel.enableWrite, Channel.updateChannel]
      cases channel.exist <;> exact ⟨rfl, rfl⟩
  | read =>
      simp only [Channel.enable, Channel.enableRead, Channel.updateChannel]
      cases channel.exist <;> exact ⟨rfl, rfl⟩
  | et =>
      simp only [Channel.enable, Channel.enableET, Channel.updateChannel]
      cases channel.exist <;> exact ⟨rfl, rfl⟩

/-- The mask that a call reports. -/
def ChannelCall.polled : ChannelCall -> Option (BitVec 32)
  | .poll events => some events
  | .enable _ => none
  | .handleEvent => none
  | .close => none

/-- The masks reported for the channel, in order. -/
def polls (calls : List ChannelCall) : List (BitVec 32) :=
  calls.filterMap ChannelCall.polled

/-- The mask of the most recent `Poll`. -/
def lastPoll (calls : List ChannelCall) : BitVec 32 :=
  (polls calls).getLastD 0

theorem run_snoc (calls : List ChannelCall) (call : ChannelCall) :
    Channel.run (calls ++ [call]) = (Channel.run calls).step call := by
  rw [Channel.run, List.foldl_append]
  rfl

theorem mem_polls_snoc (calls : List ChannelCall) (call : ChannelCall) (events : BitVec 32) :
    events ∈ polls (calls ++ [call]) <-> events ∈ polls calls ∨ call.polled = some events := by
  rw [polls, List.filterMap_append, List.mem_append, List.mem_filterMap, List.mem_filterMap]
  simp [polls]

theorem step_isOpen (channel : Channel) (call : ChannelCall) (opened : channel.isOpen = true) :
    (channel.step call).isOpen = true := by
  cases call with
  | enable events => exact (enable_ready channel events).1.trans opened
  | poll events =>
      rw [Channel.step, report_eq]
      exact opened
  | handleEvent => exact opened
  | close => rfl

/-- A call makes ready what it reports and keeps what is ready. -/
theorem step_ready (callback : Callback) (channel : Channel) (call : ChannelCall) :
    has (channel.step call).readyEvents callback.event = true <->
      has channel.readyEvents callback.event = true ∨
        Exists fun events => call.polled = some events ∧ has events callback.reported = true := by
  cases call with
  | enable events =>
      rw [Channel.step, (enable_ready channel events).2]
      simp [ChannelCall.polled]
  | poll events =>
      rw [Channel.step, report_eq, has_or, has_ready, Bool.or_eq_true]
      simp [ChannelCall.polled]
  | handleEvent => simp [Channel.step, ChannelCall.polled]
  | close => simp [Channel.step, Channel.close, ChannelCall.polled]

/-- A channel is never closed. -/
theorem run_isOpen (calls : List ChannelCall) : (Channel.run calls).isOpen = true := by
  induction calls using List.reverseRecOn with
  | nil => rfl
  | append_singleton calls call inductionHypothesis =>
      rw [run_snoc]
      exact step_isOpen _ call inductionHypothesis

/-- An event is ready exactly when some `Poll` has ever reported it. -/
theorem run_ready (callback : Callback) (calls : List ChannelCall) :
    has (Channel.run calls).readyEvents callback.event = true <->
      Exists fun events => events ∈ polls calls ∧ has events callback.reported = true := by
  induction calls using List.reverseRecOn with
  | nil =>
      constructor
      · intro ready
        cases callback <;> cases ready
      · rintro ⟨events, member, _⟩
        exact absurd member List.not_mem_nil
  | append_singleton calls call inductionHypothesis =>
      rw [run_snoc, step_ready, inductionHypothesis]
      constructor
      · rintro (⟨events, member, bit⟩ | ⟨events, now, bit⟩)
        · exact ⟨events, (mem_polls_snoc calls call events).mpr (.inl member), bit⟩
        · exact ⟨events, (mem_polls_snoc calls call events).mpr (.inr now), bit⟩
      · rintro ⟨events, member, bit⟩
        rcases (mem_polls_snoc calls call events).mp member with earlier | now
        · exact .inl ⟨events, earlier, bit⟩
        · exact .inr ⟨events, now, bit⟩

/-! ## Dispatch -/

/-- The callbacks are those of the most recent `Poll`, and none after a call of
`Close`. -/
structure Dispatched (callbacks : List Callback) (calls : List ChannelCall) : Prop where
  read : .read ∈ callbacks <-> .close ∉ calls ∧ has (lastPoll calls) epollIn = true
  write : .write ∈ callbacks <-> .close ∉ calls ∧ has (lastPoll calls) epollOut = true

/-- Whatever was ever reported is reported by the most recent `Poll` as well,
and nothing was reported to a channel that is closed. -/
def UpToDate (calls : List ChannelCall) : Prop :=
  forall events, events ∈ polls calls ->
    (has events epollIn = true -> .close ∉ calls ∧ has (lastPoll calls) epollIn = true) ∧
    (has events epollOut = true -> .close ∉ calls ∧ has (lastPoll calls) epollOut = true)

/-- A callback is invoked exactly when some `Poll` has ever reported its event. -/
theorem mem_handleEvent (callback : Callback) (calls : List ChannelCall) :
    callback ∈ (Channel.run calls).handleEvent <->
      Exists fun events => events ∈ polls calls ∧ has events callback.reported = true := by
  rw [← run_ready, Channel.handleEvent, if_pos (run_isOpen calls), List.mem_append]
  cases callback with
  | read => simp [Callback.event]
  | write => simp [Callback.event]

theorem lastPoll_mem {calls : List ChannelCall} {bits : BitVec 32} (absent : has 0 bits = false)
    (reported : has (lastPoll calls) bits = true) : lastPoll calls ∈ polls calls := by
  unfold lastPoll at reported ⊢
  rcases List.eq_nil_or_concat (polls calls) with empty | ⟨earlier, last, split⟩
  · rw [empty] at reported
    exact absurd (absent.symm.trans reported) Bool.false_ne_true
  · rw [split, List.concat_eq_append, List.getLastD_concat]
    exact List.mem_append_right _ (List.mem_singleton_self last)

/-- A dispatch is right exactly when nothing older than the most recent `Poll`
is left over. -/
theorem dispatched_iff (calls : List ChannelCall) :
    Dispatched (Channel.run calls).handleEvent calls <-> UpToDate calls := by
  constructor
  · intro dispatched events member
    refine ⟨?_, ?_⟩
    · intro bit
      exact dispatched.read.mp ((mem_handleEvent .read calls).mpr ⟨events, member, bit⟩)
    · intro bit
      exact dispatched.write.mp ((mem_handleEvent .write calls).mpr ⟨events, member, bit⟩)
  · intro current
    refine ⟨⟨?_, ?_⟩, ⟨?_, ?_⟩⟩
    · intro invoked
      rcases (mem_handleEvent .read calls).mp invoked with ⟨events, member, bit⟩
      exact (current events member).1 bit
    · rintro ⟨_, bit⟩
      exact (mem_handleEvent .read calls).mpr ⟨_, lastPoll_mem (by decide) bit, bit⟩
    · intro invoked
      rcases (mem_handleEvent .write calls).mp invoked with ⟨events, member, bit⟩
      exact (current events member).2 bit
    · rintro ⟨_, bit⟩
      exact (mem_handleEvent .write calls).mpr ⟨_, lastPoll_mem (by decide) bit, bit⟩

/-! ## The event loop -/

section EventLoop

variable {κ : Type} [DecidableEq κ]

/-- The channels of an event loop. -/
abbrev EventLoop (κ : Type) :=
  κ -> Channel

/-- A call on one of the channels, or a return of `epoll_wait` with the channels
and events it reports. -/
inductive LoopCall (κ : Type)
  | enable (channel : κ) (events : Enable)
  | poll (results : List (κ × BitVec 32))
  | handleEvent (channel : κ)
  | close (channel : κ)

namespace EventLoop

/-- `Poller::Poll`. -/
def poll (loop : EventLoop κ) (results : List (κ × BitVec 32)) : EventLoop κ :=
  results.foldl (fun loop result =>
    Function.update loop result.1 ((loop result.1).report result.2)) loop

def step (loop : EventLoop κ) : LoopCall κ -> EventLoop κ
  | .enable channel events => Function.update loop channel ((loop channel).enable events)
  | .poll results => loop.poll results
  | .handleEvent _ => loop
  | .close channel => Function.update loop channel (loop channel).close

def run (calls : List (LoopCall κ)) : EventLoop κ :=
  calls.foldl step fun _ => Channel.new

/-- One round of `EventLoop::Loop`. -/
def round (results : List (κ × BitVec 32)) : List (LoopCall κ) :=
  .poll results :: results.map fun result => .handleEvent result.1

/-- The events reported for a channel. -/
def reportedFor (channel : κ) : List (κ × BitVec 32) -> BitVec 32
  | [] => 0
  | result :: results =>
      if result.1 = channel then result.2 ||| reportedFor channel results
      else reportedFor channel results

/-- What a call of the loop is for one channel. -/
def callFor (channel : κ) : LoopCall κ -> Option ChannelCall
  | .enable other events => if other = channel then some (.enable events) else none
  | .poll results => some (.poll (reportedFor channel results))
  | .handleEvent other => if other = channel then some .handleEvent else none
  | .close other => if other = channel then some .close else none

/-- What has happened to one channel. -/
def history (channel : κ) (calls : List (LoopCall κ)) : List ChannelCall :=
  calls.filterMap (callFor channel)

end EventLoop

theorem ready_or (first second : BitVec 32) :
    ready (first ||| second) = ready first ||| ready second := by
  unfold ready
  simp only [has_or]
  cases has first epollIn <;> cases has first epollOut <;> cases has first epollEt <;>
    cases has second epollIn <;> cases has second epollOut <;> cases has second epollEt <;> decide

@[simp] theorem report_zero (channel : Channel) : channel.report 0 = channel := by
  have nothing : ready 0 = 0 := by decide
  rw [report_eq, nothing]
  simp

theorem report_or (channel : Channel) (first second : BitVec 32) :
    (channel.report first).report second = channel.report (first ||| second) := by
  rw [report_eq, report_eq, report_eq, ready_or, BitVec.or_assoc]

namespace EventLoop

theorem poll_channel (channel : κ) (results : List (κ × BitVec 32)) (loop : EventLoop κ) :
    loop.poll results channel = (loop channel).report (reportedFor channel results) := by
  induction results generalizing loop with
  | nil => exact (report_zero (loop channel)).symm
  | cons result results inductionHypothesis =>
      rw [poll, List.foldl_cons]
      refine (inductionHypothesis _).trans ?_
      rw [reportedFor]
      by_cases same : result.1 = channel
      · subst same
        rw [Function.update_self, if_pos rfl, report_or]
      · rw [Function.update_of_ne (Ne.symm same), if_neg same]

theorem step_channel (channel : κ) (loop : EventLoop κ) (call : LoopCall κ) :
    loop.step call channel = ((callFor channel call).elim (loop channel) (loop channel).step) := by
  cases call with
  | poll results => exact poll_channel channel results loop
  | enable other events =>
      by_cases same : other = channel
      · subst same
        simp [step, callFor, Channel.step]
      · simp [step, callFor, same, Ne.symm same]
  | handleEvent other =>
      by_cases same : other = channel
      · simp [step, callFor, same, Channel.step]
      · simp [step, callFor, same]
  | close other =>
      by_cases same : other = channel
      · subst same
        simp [step, callFor, Channel.step]
      · simp [step, callFor, same, Ne.symm same]

/-- Each channel of the loop goes its own way. -/
theorem run_channel (channel : κ) (calls : List (LoopCall κ)) :
    run calls channel = Channel.run (history channel calls) := by
  induction calls using List.reverseRecOn with
  | nil => rfl
  | append_singleton calls call inductionHypothesis =>
      have last : run (calls ++ [call]) = (run calls).step call := by
        rw [run, List.foldl_append]
        rfl
      rw [last, step_channel, inductionHypothesis, history, history, List.filterMap_append]
      cases seen : callFor channel call with
      | none =>
          rw [List.filterMap_cons_none seen, List.filterMap_nil, List.append_nil]
          rfl
      | some own =>
          rw [List.filterMap_cons_some seen, List.filterMap_nil, run_snoc]
          rfl

/-- In any run of the loop, every dispatch of a channel is right exactly when
every one of them finds nothing left over. -/
theorem run_dispatched_iff (channel : κ) (calls : List (LoopCall κ)) :
    (forall earlier later, calls = earlier ++ .handleEvent channel :: later ->
      Dispatched (run earlier channel).handleEvent (history channel earlier)) <->
    (forall earlier later, calls = earlier ++ .handleEvent channel :: later ->
      UpToDate (history channel earlier)) := by
  have each : forall earlier,
      Dispatched (run earlier channel).handleEvent (history channel earlier) <->
        UpToDate (history channel earlier) := by
    intro earlier
    rw [run_channel]
    exact dispatched_iff (history channel earlier)
  constructor
  · intro dispatched earlier later split
    exact (each earlier).mp (dispatched earlier later split)
  · intro current earlier later split
    exact (each earlier).mpr (current earlier later split)

/-- The read callback is invoked again for an event that only the round before
reported, and on a channel that is closed. -/
theorem handleEvent_stale :
    (Callback.read ∈ (run (round [((), epollIn)] ++ [.poll [((), epollOut)]]) ()).handleEvent ∧
      ¬ Dispatched (run (round [((), epollIn)] ++ [.poll [((), epollOut)]]) ()).handleEvent
        (history () (round [((), epollIn)] ++ [.poll [((), epollOut)]]))) ∧
    (Callback.read ∈ (run [.poll [((), epollIn)], .close ()] ()).handleEvent ∧
      ¬ Dispatched (run [.poll [((), epollIn)], .close ()] ()).handleEvent
        (history () [.poll [((), epollIn)], .close ()])) := by
  refine ⟨⟨by decide, ?_⟩, ⟨by decide, ?_⟩⟩
  · intro dispatched
    have fresh := (dispatched.read.mp (by decide)).2
    exact absurd fresh (by decide)
  · intro dispatched
    have opened := (dispatched.read.mp (by decide)).1
    exact opened (List.mem_cons_of_mem _ (List.mem_cons_self ..))

end EventLoop

end EventLoop

end SkyNet
end ServerTech

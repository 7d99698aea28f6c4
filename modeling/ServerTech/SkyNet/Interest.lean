import ServerTech.SkyNet.Channel

namespace ServerTech
namespace SkyNet

/-!
# What a channel listens to

Each of the three calls that enable events adds one bit to `listen_events_` and
registers the channel again, so the mask that epoll has should be everything
enabled so far, in whatever order the calls came.  `EnableRead` assigns the mask
instead of adding to it.  What was enabled before it is lost unless it is
enabled again.
-/

/-- The bit that a call should add. -/
def Enable.bit : Enable -> BitVec 16
  | .write => writeEvent
  | .read => readEvent
  | .et => edgeTriggered

/-- Everything that the calls enable. -/
def enabledBy (calls : List Enable) : BitVec 16 :=
  calls.foldl (fun mask call => mask ||| call.bit) 0

/-- A channel after some calls. -/
def Channel.enabled (calls : List Enable) : Channel :=
  calls.foldl Channel.enable Channel.new

/-- The channel of a connection with an event loop, as the constructor of
`Connection` leaves it. -/
def Connection.channel : Channel :=
  Channel.new.enableET.enableRead

/-! ## Unions -/

theorem enabledBy_snoc (calls : List Enable) (call : Enable) :
    enabledBy (calls ++ [call]) = enabledBy calls ||| call.bit := by
  rw [enabledBy, List.foldl_append]
  rfl

theorem enabledBy_eq (calls : List Enable) :
    enabledBy calls = (if .read ∈ calls then readEvent else 0) |||
      (if .write ∈ calls then writeEvent else 0) |||
      (if .et ∈ calls then edgeTriggered else 0) := by
  induction calls using List.reverseRecOn with
  | nil => rfl
  | append_singleton calls call inductionHypothesis =>
      rw [enabledBy_snoc, inductionHypothesis]
      simp only [List.mem_append, List.mem_singleton]
      by_cases read : Enable.read ∈ calls <;> by_cases write : Enable.write ∈ calls <;>
        by_cases et : Enable.et ∈ calls <;> cases call <;> simp [read, write, et] <;> decide

theorem has_bit (first second : Enable) : has first.bit second.bit = decide (second = first) := by
  cases first <;> cases second <;> decide

theorem has_enabledBy (calls : List Enable) (call : Enable) :
    has (enabledBy calls) call.bit = decide (call ∈ calls) := by
  induction calls using List.reverseRecOn with
  | nil => cases call <;> rfl
  | append_singleton calls last inductionHypothesis =>
      rw [enabledBy_snoc, has_or, inductionHypothesis, has_bit]
      simp only [List.mem_append, List.mem_singleton, Bool.decide_or]

theorem enabledBy_eq_iff (first second : List Enable) :
    enabledBy first = enabledBy second <-> forall call, call ∈ first <-> call ∈ second := by
  constructor
  · intro same call
    have bits := has_enabledBy first call
    rw [same, has_enabledBy] at bits
    exact (decide_eq_decide.mp bits).symm
  · intro same
    rw [enabledBy_eq, enabledBy_eq]
    simp only [same]

/-! ## The calls -/

/-- The calls from the last `EnableRead` on. -/
def sinceRead (calls : List Enable) : List Enable :=
  calls.foldl (fun recent call => if call = .read then [.read] else recent ++ [call]) []

/-- The operations of that many calls of `epoll_ctl`. -/
def operations : Nat -> List ControlOp
  | 0 => []
  | later + 1 => .add :: List.replicate later .mod

theorem operations_succ (count : Nat) :
    operations (count + 1) = operations count ++ [if count = 0 then .add else .mod] := by
  cases count with
  | zero => rfl
  | succ later =>
      rw [operations, operations, List.replicate_succ', if_neg (Nat.succ_ne_zero later)]
      rfl

theorem enabled_snoc (calls : List Enable) (call : Enable) :
    Channel.enabled (calls ++ [call]) = (Channel.enabled calls).enable call := by
  rw [Channel.enabled, List.foldl_append]
  rfl

/-- What the channel and epoll hold after the calls. -/
structure Holds (channel : Channel) (count : Nat) (listened : BitVec 16) : Prop where
  listen : channel.listenEvents = listened
  exist : channel.exist = decide (0 < count)
  ops : channel.controls.map Control.op = operations count
  last : 0 < count -> channel.controls.getLast?.map Control.events = some (interest listened)

/-- Every call registers the new mask, with `ADD` the first time. -/
theorem Holds.update {channel : Channel} {count : Nat} {listened : BitVec 16}
    (holds : Holds channel count listened) (mask : BitVec 16) :
    Holds { channel with listenEvents := mask }.updateChannel (count + 1) mask := by
  unfold Channel.updateChannel
  have known : channel.exist = decide (0 < count) := holds.exist
  by_cases first : count = 0
  · have absent : channel.exist = false := by
      rw [known, first]
      rfl
    simp only [absent, Bool.false_eq_true, if_false]
    refine ⟨rfl, (decide_eq_true (Nat.succ_pos count)).symm, ?_, ?_⟩
    · rw [List.map_append, holds.ops, operations_succ, if_pos first]
      rfl
    · intro _
      rw [List.getLast?_concat]
      rfl
  · have present : channel.exist = true := by
      rw [known]
      exact decide_eq_true (Nat.pos_of_ne_zero first)
    simp only [present, if_true]
    refine ⟨rfl, (decide_eq_true (Nat.succ_pos count)).symm, ?_, ?_⟩
    · rw [List.map_append, holds.ops, operations_succ, if_neg first]
      rfl
    · intro _
      rw [List.getLast?_concat]
      rfl

theorem Holds.widen {channel : Channel} {count : Nat} {recent : List Enable}
    (holds : Holds channel count (enabledBy recent)) (call : Enable) :
    Holds { channel with listenEvents := channel.listenEvents ||| call.bit }.updateChannel
      (count + 1) (enabledBy (recent ++ [call])) := by
  rw [enabledBy_snoc, ← holds.listen]
  exact holds.update (channel.listenEvents ||| call.bit)

/-- The channel listens to what was enabled since the last `EnableRead`. -/
theorem enabled_holds (calls : List Enable) :
    Holds (Channel.enabled calls) calls.length (enabledBy (sinceRead calls)) := by
  induction calls using List.reverseRecOn with
  | nil => exact ⟨rfl, rfl, rfl, fun positive => absurd positive (Nat.lt_irrefl 0)⟩
  | append_singleton calls call inductionHypothesis =>
      rw [enabled_snoc, List.length_append, List.length_singleton, sinceRead, List.foldl_append]
      cases call with
      | read => exact inductionHypothesis.update readEvent
      | write => exact inductionHypothesis.widen .write
      | et => exact inductionHypothesis.widen .et

/-! ## Accumulation -/

/-- The channel and epoll have everything that the calls enabled, and the first
call added the descriptor while the others modified it. -/
structure Accumulated (channel : Channel) (calls : List Enable) : Prop where
  listen : channel.listenEvents = enabledBy calls
  mask : calls ≠ [] ->
    channel.controls.getLast?.map Control.events = some (interest (enabledBy calls))
  ops : channel.controls.map Control.op = operations calls.length

/-- Whatever was enabled before a call of `EnableRead` is enabled again after
it. -/
def EnabledAgain (calls : List Enable) : Prop :=
  forall earlier later, calls = earlier ++ .read :: later ->
    forall call, call ∈ earlier -> call ≠ .read -> call ∈ later

/-- The calls since the last `EnableRead` end the list of calls. -/
theorem sinceRead_cases (calls : List Enable) :
    (.read ∉ calls ∧ sinceRead calls = calls) ∨
    Exists fun earlier => Exists fun later =>
      calls = earlier ++ .read :: later ∧ .read ∉ later ∧ sinceRead calls = .read :: later := by
  induction calls using List.reverseRecOn with
  | nil => exact .inl ⟨List.not_mem_nil, rfl⟩
  | append_singleton calls call inductionHypothesis =>
      have last : sinceRead (calls ++ [call]) =
          if call = .read then [.read] else sinceRead calls ++ [call] := by
        rw [sinceRead, List.foldl_append]
        rfl
      rw [last]
      by_cases read : call = .read
      · subst read
        rw [if_pos rfl]
        exact .inr ⟨calls, [], rfl, List.not_mem_nil, rfl⟩
      · rw [if_neg read]
        rcases inductionHypothesis with ⟨none, same⟩ | ⟨earlier, later, split, none, same⟩
        · refine .inl ⟨?_, by rw [same]⟩
          rw [List.mem_append, List.mem_singleton]
          rintro (before | now)
          · exact none before
          · exact read now.symm
        · refine .inr ⟨earlier, later ++ [call], ?_, ?_, ?_⟩
          · rw [split, List.append_assoc, List.cons_append]
          · rw [List.mem_append, List.mem_singleton]
            rintro (before | now)
            · exact none before
            · exact read now.symm
          · rw [same, List.cons_append]

/-- The calls behind the last `EnableRead` are behind every one. -/
theorem subset_of_split {earlier later before after : List Enable}
    (split : earlier ++ .read :: later = before ++ .read :: after) (none : .read ∉ later) :
    later ⊆ after := by
  rcases List.append_eq_append_iff.mp split with ⟨middle, _, rest⟩ | ⟨middle, _, rest⟩
  · cases middle with
    | nil =>
        rw [List.nil_append] at rest
        rw [(List.cons.inj rest).2]
        exact List.Subset.refl after
    | cons first middle =>
        rw [List.cons_append] at rest
        rw [(List.cons.inj rest).2] at none
        exact absurd (List.mem_append_right _ (List.mem_cons_self ..)) none
  · cases middle with
    | nil =>
        rw [List.nil_append] at rest
        rw [(List.cons.inj rest).2]
        exact List.Subset.refl later
    | cons first middle =>
        rw [List.cons_append] at rest
        rw [(List.cons.inj rest).2]
        intro call member
        exact List.mem_append_right _ (List.mem_cons_of_mem _ member)

theorem enabledAgain_iff (calls : List Enable) :
    (forall call, call ∈ sinceRead calls <-> call ∈ calls) <-> EnabledAgain calls := by
  rcases sinceRead_cases calls with ⟨none, same⟩ | ⟨earlier, later, split, none, same⟩
  · rw [same]
    constructor
    · rintro _ earlier later split
      rw [split] at none
      exact absurd (List.mem_append_right _ (List.mem_cons_self ..)) none
    · intro _ call
      exact Iff.rfl
  · constructor
    · rintro members before after divided call member different
      have recent : call ∈ sinceRead calls := by
        rw [members, divided]
        exact List.mem_append_left _ member
      rw [same] at recent
      have enabled : call ∈ later := (List.mem_cons.mp recent).resolve_left different
      exact subset_of_split (split.symm.trans divided) none enabled
    · intro again call
      rw [same, split, List.mem_append, List.mem_cons]
      constructor
      · intro recent
        exact .inr recent
      · rintro (before | recent)
        · by_cases read : call = .read
          · exact .inl read
          · exact .inr (again earlier later split call before read)
        · exact recent

/-- The mask is the union of everything enabled exactly when nothing enabled
before a call of `EnableRead` is left at that. -/
theorem accumulated_iff (calls : List Enable) :
    Accumulated (Channel.enabled calls) calls <-> EnabledAgain calls := by
  have holds := enabled_holds calls
  rw [← enabledAgain_iff, ← enabledBy_eq_iff]
  constructor
  · intro accumulated
    exact holds.listen.symm.trans accumulated.listen
  · intro same
    refine ⟨holds.listen.trans same, ?_, holds.ops⟩
    intro nonempty
    rw [holds.last (List.length_pos_iff.mpr nonempty), same]

/-- A connection is registered without `EPOLLET`, which the same two calls in
the other order would have kept. -/
theorem connection_not_edgeTriggered :
    Connection.channel = Channel.enabled [.et, .read] ∧
      Connection.channel.controls.map Control.events = [epollEt, epollIn ||| epollPri] ∧
      ¬ Accumulated Connection.channel [.et, .read] ∧
      has (interest (Channel.enabled [.read, .et]).listenEvents) epollEt = true := by
  refine ⟨rfl, by decide, ?_, by decide⟩
  intro accumulated
  exact absurd accumulated.listen (by decide)

end SkyNet
end ServerTech

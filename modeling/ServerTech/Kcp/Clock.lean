import ServerTech.Kcp.Frame

namespace ServerTech
namespace Kcp

open Transition

/-!
# The clock of a KCP endpoint

`ikcp_update` flushes when its time has come, and `ikcp_check` says how long a
caller may wait before the next update.  Until then no update does anything, so
a caller that waits loses nothing against one that updates all the time.  The
clock may go round.
-/

/-- How far a call of `ikcp_check` lets a caller wait. -/
def wait (kcp : Ikcpcb) (current : UInt32) : Nat :=
  Serial.offset current (ikcpCheck kcp current)

/-- The least time until a segment is due is not greater than any of the times. -/
theorem leastDue_le {current : UInt32} {segments : List Ikcpseg} {least packet : Int}
    (found : leastDue current segments least = some packet) :
    packet ≤ least ∧ (0 < least -> 0 < packet) ∧
      forall seg, seg ∈ segments -> packet ≤ itimediff seg.resendts current := by
  induction segments generalizing least with
  | nil =>
      cases found
      exact ⟨Int.le_refl _, fun positive => positive, fun _ member => nomatch member⟩
  | cons seg others inductionHypothesis =>
      rw [leastDue] at found
      by_cases due : itimediff seg.resendts current ≤ 0
      · simp only [if_pos due] at found
        cases found
      · simp only [if_neg due] at found
        rcases inductionHypothesis found with ⟨low, positive, others_⟩
        by_cases sooner : itimediff seg.resendts current < least
        · rw [if_pos sooner] at low positive
          refine ⟨by omega, fun _ => positive (by omega), fun other member => ?_⟩
          rcases List.mem_cons.mp member with rfl | deep
          · exact low
          · exact others_ other deep
        · rw [if_neg sooner] at low positive
          refine ⟨low, positive, fun other member => ?_⟩
          rcases List.mem_cons.mp member with rfl | deep
          · omega
          · exact others_ other deep

/-- What a wait keeps to: the interval, the time of the next flush, which is
near, and the times of all segments of the send buffer. -/
structure Prompt (kcp : Ikcpcb) (current : UInt32) (ahead : Nat) : Prop where
  started : kcp.updated ≠ 0
  interval : ahead ≤ kcp.interval.toNat
  flush : (ahead : Int) ≤ itimediff kcp.tsFlush current
  near : itimediff kcp.tsFlush current ≤ 10000
  segments : forall seg, seg ∈ kcp.sndBuf -> (ahead : Int) ≤ itimediff seg.resendts current

theorem toNat_ofInt {number : Int} (positive : 0 ≤ number) (small : number < 4294967296) :
    ((UInt32.ofInt number).toNat : Int) = number := by
  rw [UInt32.ofInt, UInt32.toNat_ofNat']
  omega

/-- The least of an interval and two times. -/
theorem sleep_le (interval : UInt32) {packet flush : Int} (soon : 0 < packet)
    (low : packet ≤ 2147483647) (later : 0 < flush) :
    let minimal := UInt32.ofInt (if packet < flush then packet else flush)
    let sleep := if interval ≤ minimal then interval else minimal
    sleep.toNat ≤ interval.toNat ∧ (sleep.toNat : Int) ≤ packet ∧ (sleep.toNat : Int) ≤ flush := by
  have value : ((UInt32.ofInt (if packet < flush then packet else flush)).toNat : Int) ≤ packet ∧
      ((UInt32.ofInt (if packet < flush then packet else flush)).toNat : Int) ≤ flush := by
    by_cases first : packet < flush
    · rw [if_pos first, toNat_ofInt (Int.le_of_lt soon) (by omega)]
      exact ⟨Int.le_refl _, Int.le_of_lt first⟩
    · rw [if_neg first, toNat_ofInt (Int.le_of_lt later) (by omega)]
      exact ⟨Int.not_lt.mp first, Int.le_refl _⟩
  intro minimal sleep
  have least : sleep.toNat ≤ interval.toNat ∧ sleep.toNat ≤ minimal.toNat := by
    by_cases less : interval ≤ minimal
    · have same : sleep = interval := if_pos less
      rw [same]
      exact ⟨Nat.le_refl _, UInt32.le_iff_toNat_le.mp less⟩
    · have same : sleep = minimal := if_neg less
      have more := UInt32.lt_iff_toNat_lt.mp (UInt32.not_le.mp less)
      rw [same]
      exact ⟨Nat.le_of_lt more, Nat.le_refl _⟩
  have both : (minimal.toNat : Int) ≤ packet ∧ (minimal.toNat : Int) ≤ flush := value
  omega

theorem wait_cases (kcp : Ikcpcb) (current : UInt32) :
    wait kcp current = 0 ∨ Prompt kcp current (wait kcp current) := by
  have still : Serial.offset current current = 0 := Serial.offset_self current
  unfold wait ikcpCheck
  by_cases idle : kcp.updated = 0
  · rw [if_pos idle, still]
    exact .inl rfl
  · rw [if_neg idle]
    by_cases lapsed : 10000 ≤ itimediff current kcp.tsFlush ∨
        itimediff current kcp.tsFlush < -10000
    · have now : 0 ≤ itimediff current current := by
        rw [itimediff, Serial.difference_nonneg_iff, still]
        decide
      simp only [if_pos lapsed, if_pos now, still]
      exact .inl trivial
    · simp only [if_neg lapsed]
      by_cases due : 0 ≤ itimediff current kcp.tsFlush
      · simp only [if_pos due, still]
        exact .inl trivial
      · simp only [if_neg due]
        cases found : leastDue current kcp.sndBuf 2147483647 with
        | none => exact .inl still
        | some packet =>
            right
            rcases leastDue_le found with ⟨low, positive, segments⟩
            have soon := positive (by decide)
            have opposite : itimediff kcp.tsFlush current = -itimediff current kcp.tsFlush := by
              rw [itimediff, Serial.difference_eq, Serial.offset_eq] at lapsed due
              rw [itimediff, itimediff, Serial.difference_eq, Serial.difference_eq,
                Serial.offset_eq, Serial.offset_eq]
              have one := current.toNat_lt
              have two := kcp.tsFlush.toNat_lt
              omega
            rcases sleep_le kcp.interval soon low (by omega : 0 < itimediff kcp.tsFlush current) with
              ⟨interval, early, flush⟩
            simp only
            generalize (if kcp.interval ≤ UInt32.ofInt (if packet < itimediff kcp.tsFlush current then
              packet else itimediff kcp.tsFlush current) then kcp.interval else
              UInt32.ofInt (if packet < itimediff kcp.tsFlush current then packet else
                itimediff kcp.tsFlush current)) = sleep at interval early flush ⊢
            have ahead : Serial.offset current (current + sleep) = sleep.toNat := by
              have small := sleep.toNat_lt
              have added := @Serial.offset_add current current sleep.toNat (by omega)
              rw [UInt32.ofNat_toNat, still, Nat.zero_add] at added
              exact added
            rw [ahead]
            refine ⟨idle, interval, flush, by omega, fun seg member => ?_⟩
            have le := segments seg member
            omega

/-- Before the time of a near flush an update only sets the clock. -/
theorem update_early {kcp : Ikcpcb} {current now : UInt32} {ahead : Nat}
    (prompt : Prompt kcp current ahead) (early : Serial.offset current now < ahead) :
    ikcpUpdate kcp now = ({ kcp with current := now }, .new kcp.bufferSize) := by
  have flush := prompt.flush
  have near := prompt.near
  have ahead_ : Serial.offset current kcp.tsFlush < 2147483648 :=
    Serial.difference_nonneg_iff.mp (by rw [← itimediff]; omega)
  have distance := @Serial.difference_of_offset current kcp.tsFlush current ahead_
    (by rw [Serial.offset_self]; decide)
  rw [Serial.offset_self, ← itimediff] at distance
  have slap : itimediff now kcp.tsFlush =
      (Serial.offset current now : Int) - Serial.offset current kcp.tsFlush :=
    Serial.difference_of_offset (by omega) ahead_
  have waiting : ¬ (10000 ≤ itimediff now kcp.tsFlush ∨ itimediff now kcp.tsFlush < -10000) := by
    omega
  have later : ¬ 0 ≤ itimediff now kcp.tsFlush := by omega
  rw [ikcpUpdate]
  simp only [if_neg prompt.started, if_neg waiting, if_neg later]

/-- Several updates, and all datagrams they hand over. -/
def poll (kcp : Ikcpcb) : List UInt32 -> Ikcpcb × List (List UInt8)
  | [] => (kcp, [])
  | now :: others =>
      ((poll (ikcpUpdate kcp now).1 others).1,
        (ikcpUpdate kcp now).2.output ++ (poll (ikcpUpdate kcp now).1 others).2)

/-- The clock of the control block is set by every update. -/
theorem poll_clock (kcp : Ikcpcb) (now last : UInt32) :
    poll { kcp with current := now } [last] = poll kcp [last] :=
  rfl

/-- Updates before the time that `ikcp_check` gives make no difference. -/
theorem poll_check {kcp : Ikcpcb} {current : UInt32} {polls : List UInt32}
    (early : forall now, now ∈ polls -> Serial.offset current now < wait kcp current)
    (last : UInt32) : poll kcp (polls ++ [last]) = poll kcp [last] := by
  rcases wait_cases kcp current with none_ | prompt
  · cases polls with
    | nil => rfl
    | cons now others =>
        have less := early now List.mem_cons_self
        rw [none_] at less
        exact absurd less (Nat.not_lt_zero _)
  · generalize wait kcp current = ahead at early prompt
    induction polls generalizing kcp with
    | nil => rfl
    | cons now others inductionHypothesis =>
        have idle := update_early prompt (early now List.mem_cons_self)
        have same : Prompt { kcp with current := now } current ahead :=
          ⟨prompt.started, prompt.interval, prompt.flush, prompt.near, prompt.segments⟩
        rw [List.cons_append, poll, idle, FlushBuffer.new_output, List.nil_append,
          inductionHypothesis (fun later member => early later (List.mem_cons_of_mem _ member)) same]
        exact poll_clock kcp now last

theorem poll_check_started :
    poll (ikcpUpdate (ikcpCreate 7) 0).1 ([10, 99] ++ [100]) =
      poll (ikcpUpdate (ikcpCreate 7) 0).1 [100] := by
  have early : forall now, now ∈ [10, 99] ->
      Serial.offset 0 now < wait (ikcpUpdate (ikcpCreate 7) 0).1 0 :=
    List.forall_mem_cons.mpr ⟨by decide, List.forall_mem_singleton.mpr (by decide)⟩
  exact poll_check early 100

/-! ## The pace of the flushes -/

/-- The time of the next flush is ahead by at most the interval. -/
theorem next_flush {current tsFlush interval : UInt32} (least : 0 < interval.toNat)
    (most : interval.toNat ≤ 5000) (due : 0 ≤ itimediff current tsFlush)
    (recent : itimediff current tsFlush < 10000) :
    let next := if 0 ≤ itimediff current (tsFlush + interval) then current + interval
      else tsFlush + interval
    0 < Serial.offset current next ∧ Serial.offset current next ≤ interval.toNat := by
  have one := current.toNat_lt
  have two := tsFlush.toNat_lt
  rw [itimediff, Serial.difference_eq, Serial.offset_eq] at due recent
  intro next
  by_cases passed : 0 ≤ itimediff current (tsFlush + interval)
  · have same : next = current + interval := if_pos passed
    rw [same, Serial.offset_eq, UInt32.toNat_add]
    omega
  · have same : next = tsFlush + interval := if_neg passed
    rw [itimediff, Serial.difference_eq, Serial.offset_eq, UInt32.toNat_add] at passed
    rw [same, Serial.offset_eq, UInt32.toNat_add]
    omega

/-- An update either flushes and sets a time for the next flush that is ahead by
at most the interval, or it comes too early, by at most ten seconds. -/
theorem ikcpUpdate_paced {kcp : Ikcpcb} (least : 0 < kcp.interval.toNat)
    (most : kcp.interval.toNat ≤ 5000) (current : UInt32) :
    (Exists fun updated => Exists fun tsFlush => updated ≠ 0 ∧
      0 < Serial.offset current tsFlush ∧ Serial.offset current tsFlush ≤ kcp.interval.toNat ∧
      ikcpUpdate kcp current =
        ikcpFlush { kcp with current := current, updated := updated, tsFlush := tsFlush }) ∨
    (kcp.updated ≠ 0 ∧ itimediff current kcp.tsFlush < 0 ∧ -10000 ≤ itimediff current kcp.tsFlush ∧
      ikcpUpdate kcp current = ({ kcp with current := current }, .new kcp.bufferSize)) := by
  have now : itimediff current current = 0 := by
    rw [itimediff, Serial.difference_eq, Serial.offset_self]
    rfl
  have fresh := next_flush least most (Int.le_of_eq now.symm) (by rw [now]; decide)
  have recent : ¬ (10000 ≤ (0 : Int) ∨ (0 : Int) < -10000) := by decide
  unfold ikcpUpdate
  by_cases idle : kcp.updated = 0
  · left
    simp only [if_pos idle, now, if_neg recent, Int.le_refl, if_true]
    exact ⟨1, _, by decide, fresh.1, fresh.2, rfl⟩
  · simp only [if_neg idle]
    by_cases lapsed : 10000 ≤ itimediff current kcp.tsFlush ∨
        itimediff current kcp.tsFlush < -10000
    · left
      simp only [if_pos lapsed, Int.le_refl, if_true]
      exact ⟨kcp.updated, _, idle, fresh.1, fresh.2, rfl⟩
    · simp only [if_neg lapsed]
      by_cases due : 0 ≤ itimediff current kcp.tsFlush
      · left
        have next := next_flush least most due (by omega)
        simp only [if_pos due]
        exact ⟨kcp.updated, _, idle, next.1, next.2, rfl⟩
      · right
        simp only [if_neg due]
        exact ⟨idle, by omega, by omega, trivial⟩

/-- The next flush of a clock is at most ten seconds ahead of the last update. -/
def Paced (clock : UInt32 × UInt32 × UInt32) : Prop :=
  clock.2.1 = 0 ∨
    (0 < Serial.offset clock.1 clock.2.2 ∧ Serial.offset clock.1 clock.2.2 ≤ 10000)

theorem perform_paced {kcp : Ikcpcb} (sane : Sane kcp) (paced : Paced kcp.clock) (call : IkcpCall) :
    Paced (call.perform kcp).clock := by
  have interval := sane.tuned.interval
  rcases perform_frame sane call with ⟨current, rfl⟩ | same
  · rcases ikcpUpdate_paced (by omega) interval.2 current with
      ⟨updated, tsFlush, _, ahead, near, flushed⟩ | ⟨_, late, recent, waited⟩
    · have clock : (ikcpUpdate kcp current).1.clock = (current, updated, tsFlush) := by
        rw [flushed]
        exact congrArg Prod.snd (ikcpFlush_frame _)
      right
      rw [IkcpCall.perform, clock]
      exact ⟨ahead, Nat.le_trans near (by omega)⟩
    · right
      rw [IkcpCall.perform, waited]
      rw [itimediff, Serial.difference_eq, Serial.offset_eq] at late recent
      rw [Ikcpcb.clock, Serial.offset_eq]
      have one := current.toNat_lt
      have two := kcp.tsFlush.toNat_lt
      simp only
      omega
  · have clock : (call.perform kcp).clock = kcp.clock := congrArg Prod.snd same
    rw [clock]
    exact paced

/-- After any calls, an update that comes ten seconds after the last one, or
later, flushes. -/
theorem flush_due_of_calls {conv : UInt32} {calls : List IkcpCall} {kcp : Ikcpcb}
    (run : Run calling (ikcpCreate conv) calls kcp) {now : UInt32}
    (passed : 10000 ≤ itimediff now kcp.current) :
    Exists fun updated => Exists fun tsFlush => updated ≠ 0 ∧ ikcpUpdate kcp now =
      ikcpFlush { kcp with current := now, updated := updated, tsFlush := tsFlush } := by
  have reached : Sane kcp ∧ Paced kcp.clock := by
    apply run.invariant _ ⟨sane_create conv, .inl rfl⟩
    rintro before call after ⟨sane, paced⟩ ⟨_, performed⟩
    rw [← performed]
    exact ⟨sane.perform call, perform_paced sane paced call⟩
  rcases reached with ⟨sane, paced⟩
  have interval := sane.tuned.interval
  rcases ikcpUpdate_paced (by omega) interval.2 now with
    ⟨updated, tsFlush, some_, _, _, flushed⟩ | ⟨started, late, _, _⟩
  · exact ⟨updated, tsFlush, some_, flushed⟩
  · rcases paced with idle | ⟨_, near⟩
    · exact absurd idle started
    · have ahead : Serial.offset kcp.current now < 2147483648 :=
        Serial.difference_nonneg_iff.mp (by rw [← itimediff]; omega)
      have clock : Serial.offset kcp.current kcp.tsFlush ≤ 10000 := near
      have slap := Serial.difference_of_offset ahead
        (by omega : Serial.offset kcp.current kcp.tsFlush < 2147483648)
      rw [itimediff, Serial.difference_eq, if_pos ahead] at passed
      rw [itimediff, slap] at late
      omega

theorem flush_due_of_calls_started :
    Exists fun updated => Exists fun tsFlush => updated ≠ 0 ∧
      ikcpUpdate (ikcpUpdate (ikcpCreate 7) 5).1 10005 =
        ikcpFlush { (ikcpUpdate (ikcpCreate 7) 5).1 with
          current := 10005, updated := updated, tsFlush := tsFlush } := by
  have run : Run calling (ikcpCreate 7) [.update 5] (ikcpUpdate (ikcpCreate 7) 5).1 :=
    .snoc (.refl _) ⟨rfl, rfl⟩
  exact flush_due_of_calls run (by decide)

end Kcp
end ServerTech

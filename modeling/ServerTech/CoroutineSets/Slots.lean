import ServerTech.CoroutineSets.Schedule
import Mathlib.Data.List.Basic
import Mathlib.Logic.Function.Basic
import Mathlib.Tactic.Positivity

namespace ServerTech
namespace CoroutineSets

variable {stackSize : Nat} {Func Data Registers Memory : Type}

/-!
# The table of the coroutines

What `coroutine_new` makes of the table: it finds a free slot whenever there is
one, and where there is none it doubles the table.
-/

section Slots

variable {s : Schedule stackSize Func Data Registers} {id : Int}

theorem Schedule.slot_eq (within : 0 ≤ id) : s.slot id = s.co[id.toNat]? := by
  rw [slot, if_pos within]

theorem Schedule.slot_of_occupant {c : Coroutine Func Data Registers}
    (there : s.occupant id = some c) : s.slot id = some (some c) :=
  Option.join_eq_some_iff.mp there

/-- A store changes the slot it is for. -/
theorem Schedule.occupant_store (inside : s.slot id ≠ none)
    (co : Option (Coroutine Func Data Registers)) :
    (s.store id co).occupant = Function.update s.occupant id co := by
  have within : 0 ≤ id := by
    by_contra outside
    exact inside (if_neg outside)
  rw [slot_eq within] at inside
  have bound : id.toNat < s.co.length := by
    by_contra outside
    exact inside (List.getElem?_eq_none (Nat.le_of_not_lt outside))
  funext other
  by_cases same : other = id
  · subst same
    rw [Function.update_self, occupant, slot_eq within]
    change (s.co.set other.toNat co)[other.toNat]?.join = co
    rw [List.getElem?_set_self bound]
    rfl
  · rw [Function.update_of_ne same, occupant, occupant, slot, slot]
    by_cases positive : 0 ≤ other
    · rw [if_pos positive, if_pos positive]
      change (s.co.set id.toNat co)[other.toNat]?.join = _
      rw [List.getElem?_set_ne (by omega)]
    · rw [if_neg positive, if_neg positive]

end Slots

/-- The table and its counters. -/
structure Table (s : Schedule stackSize Func Data Registers) : Prop where
  whole : (s.co.length : Int) = s.cap
  grown : Exists fun doublings => s.cap = 16 * 2 ^ doublings
  small : s.cap ≤ 1073741824
  counted : s.nco = s.co.countP Option.isSome

namespace Table

variable {s : Schedule stackSize Func Data Registers}

theorem positive (table : Table s) : 0 < s.cap := by
  rcases table.grown with ⟨doublings, grown⟩
  have power : (0 : Int) < 2 ^ doublings := by positivity
  omega

/-- An identifier is within the table exactly if it passes the assertions. -/
theorem slot_ne_none_iff (table : Table s) {id : Int} :
    s.slot id ≠ none ↔ 0 ≤ id ∧ id < s.cap := by
  have whole := table.whole
  by_cases within : 0 ≤ id
  · rw [Schedule.slot_eq within, Ne, List.getElem?_eq_none_iff]
    omega
  · rw [Schedule.slot, if_neg within]
    exact ⟨fun absurd_ => absurd rfl absurd_, fun inside => absurd inside.1 within⟩

theorem within_of_occupant (table : Table s) {id : Int} {c : Coroutine Func Data Registers}
    (there : s.occupant id = some c) : 0 ≤ id ∧ id < s.cap := by
  apply table.slot_ne_none_iff.mp
  rw [Schedule.slot_of_occupant there]
  exact Option.some_ne_none _

theorem slot_cases (table : Table s) {id : Int} (within : 0 ≤ id ∧ id < s.cap) :
    s.slot id = some (s.occupant id) := by
  have inside := table.slot_ne_none_iff.mpr within
  rw [Schedule.occupant]
  cases found : s.slot id with
  | none => exact absurd found inside
  | some co => rfl

theorem counted_le (table : Table s) : 0 ≤ s.nco ∧ s.nco ≤ s.cap := by
  have most := List.countP_le_length (p := Option.isSome) (l := s.co)
  have whole := table.whole
  have counted := table.counted
  omega

theorem entry (table : Table s) {id : Int} (within : 0 ≤ id ∧ id < s.cap) :
    Exists fun bound : id.toNat < s.co.length => s.co[id.toNat] = s.occupant id := by
  have whole := table.whole
  have bound : id.toNat < s.co.length := by omega
  have found := table.slot_cases within
  rw [Schedule.slot_eq within.1, List.getElem?_eq_getElem bound] at found
  exact ⟨bound, Option.some.inj found⟩

/-- A store within the table, which counts what goes and what comes. -/
theorem put (table : Table s) {id : Int} (within : 0 ≤ id ∧ id < s.cap)
    (co : Option (Coroutine Func Data Registers)) {after : Schedule stackSize Func Data Registers}
    (stored : after.co = s.co.set id.toNat co) (cap : after.cap = s.cap)
    (nco : after.nco =
      s.nco - (if (s.occupant id).isSome then 1 else 0) + (if co.isSome then 1 else 0)) :
    Table after where
  whole := by
    rw [stored, cap, List.length_set]
    exact table.whole
  grown := by
    rw [cap]
    exact table.grown
  small := by
    rw [cap]
    exact table.small
  counted := by
    rcases table.entry within with ⟨bound, there⟩
    have gone : (if (s.occupant id).isSome then 1 else 0) ≤ s.co.countP Option.isSome := by
      split
      case isTrue full =>
        apply List.countP_pos_iff.mpr
        refine ⟨s.co[id.toNat], List.getElem_mem bound, ?_⟩
        rw [there]
        exact full
      case isFalse => exact Nat.zero_le _
    rw [nco, stored, List.countP_set bound, there, table.counted]
    generalize s.occupant id = before at gone ⊢
    cases before <;> cases co <;>
      simp only [Option.isSome_some, Option.isSome_none, if_true, Bool.false_eq_true, if_false]
        at gone ⊢ <;> omega

theorem replace (table : Table s) {id : Int} {c : Coroutine Func Data Registers}
    (there : s.occupant id = some c) (other : Coroutine Func Data Registers)
    {after : Schedule stackSize Func Data Registers}
    (stored : after.co = s.co.set id.toNat (some other)) (cap : after.cap = s.cap)
    (nco : after.nco = s.nco) : Table after := by
  refine table.put (table.within_of_occupant there) (some other) stored cap ?_
  rw [nco, there, Option.isSome_some, Option.isSome_some, if_pos rfl, Int.sub_add_cancel]

/-- The table with twice as many slots. -/
theorem double (table : Table s) (room : s.cap * 2 ≤ 2147483647) :
    Table { s with co := s.co ++ List.replicate s.cap.toNat none, cap := s.cap * 2 } where
  whole := by
    have whole := table.whole
    change ((s.co ++ List.replicate s.cap.toNat none).length : Int) = s.cap * 2
    rw [List.length_append, List.length_replicate]
    omega
  grown := by
    rcases table.grown with ⟨doublings, grown⟩
    refine ⟨doublings + 1, ?_⟩
    change s.cap * 2 = _
    rw [grown, pow_succ, mul_assoc]
  small := by
    rcases table.grown with ⟨doublings, grown⟩
    have few : doublings < 26 := by
      by_contra many
      have large : (2 : Int) ^ 26 ≤ 2 ^ doublings :=
        pow_le_pow_right₀ (by decide) (Nat.le_of_not_lt many)
      omega
    have power : (2 : Int) ^ doublings ≤ 2 ^ 25 :=
      pow_le_pow_right₀ (by decide) (Nat.le_of_lt_succ few)
    change s.cap * 2 ≤ 1073741824
    omega
  counted := by
    change s.nco = ((s.co ++ List.replicate s.cap.toNat none).countP Option.isSome : Nat)
    rw [List.countP_append, List.countP_replicate, table.counted]
    rfl

theorem occupant_double (table : Table s) (id : Int) :
    Schedule.occupant { s with
      co := s.co ++ List.replicate s.cap.toNat none, cap := s.cap * 2 } id = s.occupant id := by
  have whole := table.whole
  rw [Schedule.occupant, Schedule.occupant, Schedule.slot, Schedule.slot]
  by_cases within : 0 ≤ id
  · rw [if_pos within, if_pos within]
    change (s.co ++ List.replicate s.cap.toNat none)[id.toNat]?.join = _
    by_cases old : id.toNat < s.co.length
    · rw [List.getElem?_append_left old]
    · rw [List.getElem?_append_right (Nat.le_of_not_lt old), List.getElem?_replicate,
        List.getElem?_eq_none (Nat.le_of_not_lt old)]
      split <;> rfl
  · rw [if_neg within, if_neg within]

theorem freeId_free (table : Table s) {i id : Int} {rounds : Nat}
    (found : s.freeId i rounds = some id) :
    (0 ≤ id ∧ id < s.cap) ∧ s.occupant id = none := by
  have positive := table.positive
  induction rounds generalizing i with
  | zero => cases found
  | succ rounds inductionHypothesis =>
      rw [Schedule.freeId] at found
      split at found
      case h_1 free =>
        cases found
        refine ⟨⟨Int.emod_nonneg _ (by omega), Int.emod_lt_of_pos _ positive⟩, ?_⟩
        rw [Schedule.occupant, free]
        rfl
      case h_2 => exact inductionHypothesis found

theorem freeId_none (table : Table s) {i : Int} {rounds : Nat}
    (none_ : s.freeId i rounds = none) {j : Int} (from_ : i ≤ j) (to_ : j < i + rounds) :
    s.occupant ((j + s.nco) % s.cap) ≠ none := by
  have positive := table.positive
  induction rounds generalizing i with
  | zero => omega
  | succ rounds inductionHypothesis =>
      rw [Schedule.freeId] at none_
      split at none_
      case h_1 => cases none_
      case h_2 taken =>
        by_cases first : i = j
        · subst first
          intro free
          apply taken
          have within : 0 ≤ (i + s.nco) % s.cap ∧ (i + s.nco) % s.cap < s.cap :=
            ⟨Int.emod_nonneg _ (by omega), Int.emod_lt_of_pos _ positive⟩
          rw [table.slot_cases within, free]
        · exact inductionHypothesis none_ (by omega) (by omega)

/-- While there are fewer coroutines than slots, the loop finds one. -/
theorem freeId_some (table : Table s) (room : s.nco < s.cap) :
    s.freeId 0 s.cap.toNat ≠ none := by
  intro none_
  have positive := table.positive
  have whole := table.whole
  have full : forall id, 0 ≤ id -> id < s.cap -> s.occupant id ≠ none := by
    intro id least less
    have passed := table.freeId_none none_ (j := (id - s.nco) % s.cap)
      (Int.emod_nonneg _ (by omega)) (by
        have below := Int.emod_lt_of_pos (id - s.nco) positive
        omega)
    rw [Int.emod_add_emod, Int.sub_add_cancel, Int.emod_eq_of_lt least less] at passed
    exact passed
  have all : s.co.countP Option.isSome = s.co.length := by
    rw [List.countP_eq_length]
    intro co member
    rcases List.getElem_of_mem member with ⟨i, bound, rfl⟩
    have occupied := full i (by omega) (by omega)
    rw [Schedule.occupant, Schedule.slot_eq (by omega), Int.toNat_natCast,
      List.getElem?_eq_getElem bound] at occupied
    cases co : s.co[i] with
    | none =>
        rw [co] at occupied
        exact absurd rfl occupied
    | some c => rfl
  have counted := table.counted
  omega

end Table

theorem table_open (stack : StackSpace stackSize UInt8) :
    Table (coroutineOpen stack : Schedule stackSize Func Data Registers) where
  whole := rfl
  grown := ⟨0, rfl⟩
  small := (by decide : ((16 : Nat) : Int) ≤ 1073741824)
  counted := rfl

theorem occupant_open (stack : StackSpace stackSize UInt8) (id : Int) :
    (coroutineOpen stack : Schedule stackSize Func Data Registers).occupant id = none := by
  rw [Schedule.occupant, Schedule.slot]
  split
  case isTrue =>
    change (List.replicate defaultCoroutine none)[id.toNat]?.join = none
    rw [List.getElem?_replicate]
    split <;> rfl
  case isFalse => rfl

/-- `coroutine_new` fails only where the table cannot grow any more.  Otherwise it
gives an identifier that was free, and leaves the other coroutines alone. -/
theorem coroutineNew_cases {s : Schedule stackSize Func Data Registers} (table : Table s)
    (func : Func) (ud : Data) :
    (coroutineNew s func ud = .error .intOverflow ∧ s.nco = 1073741824) ∨
      Exists fun after => Exists fun id => coroutineNew s func ud = .ok (after, id) ∧
        s.nco < 1073741824 ∧ Table after ∧ (0 ≤ id ∧ s.occupant id = none) ∧
        after.occupant = Function.update s.occupant id (some (coNew func ud)) ∧
        after.stack = s.stack ∧ after.running = s.running := by
  have positive := table.positive
  have counted := table.counted_le
  have whole := table.whole
  have small := table.small
  rw [coroutineNew]
  by_cases full : s.cap ≤ s.nco
  · rw [if_pos full]
    by_cases wide : 2147483647 < s.cap * 2
    · rw [if_pos wide]
      exact .inl ⟨rfl, by omega⟩
    · rw [if_neg wide]
      have doubled := table.double (by omega)
      have within : 0 ≤ s.cap ∧ s.cap < s.cap * 2 := by omega
      have free : s.occupant s.cap = none := by
        cases found : s.occupant s.cap with
        | none => rfl
        | some c => exact absurd (table.within_of_occupant found).2 (Int.lt_irrefl _)
      have same := funext table.occupant_double
      refine .inr ⟨_, s.cap, rfl, by omega, ?_, ⟨within.1, free⟩, ?_, rfl, rfl⟩
      · refine doubled.put within (some (coNew func ud)) rfl rfl ?_
        rw [congrFun same, free]
        exact (Int.sub_zero _).symm ▸ rfl
      · rw [← same]
        exact Schedule.occupant_store (doubled.slot_ne_none_iff.mpr within) _
  · rw [if_neg full]
    cases found : s.freeId 0 s.cap.toNat with
    | none => exact absurd found (table.freeId_some (by omega))
    | some id =>
        rcases table.freeId_free found with ⟨within, free⟩
        refine .inr ⟨_, id, rfl, by omega, ?_, ⟨within.1, free⟩, ?_, rfl, rfl⟩
        · refine table.put within (some (coNew func ud)) rfl rfl ?_
          rw [free]
          exact (Int.sub_zero _).symm ▸ rfl
        · exact Schedule.occupant_store (table.slot_ne_none_iff.mpr within) _

end CoroutineSets
end ServerTech

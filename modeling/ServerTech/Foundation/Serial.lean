import Mathlib.Algebra.Ring.Nat
import Mathlib.Algebra.Ring.Int.Defs
import Mathlib.Data.List.Basic

namespace ServerTech
namespace Serial

universe u

variable {α : Type u}

/-!
# Serial numbers of 32 bits

Serial numbers count round the 32-bit words.  Two of them are compared by the
signed difference, which is right as long as they lie within half the circle.
`offset` measures how far a number is ahead of a base.  Numbers that are few
steps ahead of a common base are compared by their offsets, however often the
count has gone round.
-/

/-- The signed difference of two serial numbers. -/
def difference (later earlier : UInt32) : Int :=
  (later - earlier).toInt32.toInt

/-- How far a number is ahead of a base, going round. -/
def offset (base number : UInt32) : Nat :=
  (number - base).toNat

theorem offset_eq (base number : UInt32) :
    offset base number = (number.toNat + 4294967296 - base.toNat) % 4294967296 := by
  have small := base.toNat_lt
  rw [offset, UInt32.toNat_sub]
  omega

theorem offset_lt (base number : UInt32) : offset base number < 4294967296 :=
  UInt32.toNat_lt _

theorem difference_eq (later earlier : UInt32) :
    difference later earlier =
      if offset earlier later < 2147483648 then (offset earlier later : Int)
      else offset earlier later - 4294967296 := by
  have signed : difference later earlier = ((later - earlier).toNat : Int).bmod 4294967296 := by
    rw [difference]
    exact BitVec.toInt_eq_toNat_bmod _
  have small := offset_lt earlier later
  rw [signed, ← offset]
  by_cases low : offset earlier later < 2147483648
  · rw [if_pos low, Int.bmod_eq_emod_of_lt] <;> omega
  · rw [if_neg low, Int.bmod_neg] <;> omega

/-! ## Offsets -/

@[simp] theorem offset_self (base : UInt32) : offset base base = 0 := by
  rw [offset_eq]
  omega

theorem offset_inj {base first second : UInt32} :
    offset base first = offset base second <-> first = second := by
  constructor
  · intro same
    have left := first.toNat_lt
    have right := second.toNat_lt
    have low := base.toNat_lt
    rw [offset_eq, offset_eq] at same
    apply UInt32.toNat_inj.mp
    omega
  · intro same
    rw [same]

theorem offset_eq_zero_iff {base number : UInt32} : offset base number = 0 <-> number = base := by
  rw [← offset_self base, offset_inj]

/-- The offset from a base further on. -/
theorem offset_advance {base middle number : UInt32} (passed : offset base middle ≤ offset base number) :
    offset middle number = offset base number - offset base middle := by
  have first := base.toNat_lt
  have second := middle.toNat_lt
  have third := number.toNat_lt
  rw [offset_eq, offset_eq] at passed
  rw [offset_eq, offset_eq, offset_eq]
  omega

/-- The offset of a number some steps further on. -/
theorem offset_add {base number : UInt32} {steps : Nat}
    (room : offset base number + steps < 4294967296) :
    offset base (number + UInt32.ofNat steps) = offset base number + steps := by
  have low := base.toNat_lt
  have small := number.toNat_lt
  rw [offset_eq] at room
  rw [offset_eq, offset_eq, UInt32.toNat_add, UInt32.toNat_ofNat']
  omega

theorem offset_succ {base number : UInt32} (room : offset base number + 1 < 4294967296) :
    offset base (number + 1) = offset base number + 1 :=
  offset_add room

/-! ## Counting -/

theorem succ_add_ofNat (number : UInt32) (steps : Nat) :
    number + 1 + UInt32.ofNat steps = number + UInt32.ofNat (steps + 1) := by
  rw [UInt32.ofNat_add, UInt32.add_assoc, UInt32.add_comm 1]
  rfl

theorem pred_sub_ofNat (number : UInt32) (steps : Nat) :
    number - 1 - UInt32.ofNat steps = number - UInt32.ofNat (steps + 1) := by
  have one : UInt32.ofNat 1 = 1 := rfl
  rw [UInt32.ofNat_add, one]
  grind

/-- The numbers that follow one another from a base on. -/
def consecutive (base : UInt32) : Nat -> List UInt32
  | 0 => []
  | count + 1 => base :: consecutive (base + 1) count

@[simp] theorem length_consecutive (base : UInt32) (count : Nat) :
    (consecutive base count).length = count := by
  induction count generalizing base with
  | zero => rfl
  | succ count inductionHypothesis => exact congrArg (· + 1) (inductionHypothesis (base + 1))

/-- Below the end of all words, consecutive words are consecutive numbers. -/
theorem map_toNat_consecutive {base : UInt32} {count : Nat}
    (room : base.toNat + count < 4294967296) :
    (consecutive base count).map UInt32.toNat = List.range' base.toNat count := by
  induction count generalizing base with
  | zero => rfl
  | succ count inductionHypothesis =>
      have step : (base + 1).toNat = base.toNat + 1 := by
        rw [UInt32.toNat_add, UInt32.toNat_one]
        omega
      rw [consecutive, List.map_cons, inductionHypothesis (by omega), step]
      rfl

theorem consecutive_append (base : UInt32) (first second : Nat) :
    consecutive base (first + second) =
      consecutive base first ++ consecutive (base + UInt32.ofNat first) second := by
  induction first generalizing base with
  | zero =>
      have none_ : UInt32.ofNat 0 = 0 := rfl
      rw [Nat.zero_add, none_, UInt32.add_zero, consecutive, List.nil_append]
  | succ first inductionHypothesis =>
      rw [Nat.succ_add, consecutive, consecutive, inductionHypothesis, succ_add_ofNat,
        List.cons_append]

/-! ## Comparing by difference -/

/-- Near a common base the difference is the difference of the offsets. -/
theorem difference_of_offset {base later earlier : UInt32}
    (ahead : offset base later < 2147483648) (behind : offset base earlier < 2147483648) :
    difference later earlier = offset base later - offset base earlier := by
  have first := base.toNat_lt
  have second := later.toNat_lt
  have third := earlier.toNat_lt
  rw [difference_eq]
  rw [offset_eq] at ahead behind
  rw [offset_eq, offset_eq, offset_eq]
  split <;> omega

theorem difference_of_toNat {later earlier : UInt32}
    (ahead : later.toNat < 2147483648) (behind : earlier.toNat < 2147483648) :
    difference later earlier = later.toNat - earlier.toNat := by
  have count (number : UInt32) : offset 0 number = number.toNat := by
    have small := number.toNat_lt
    rw [offset_eq, UInt32.toNat_zero]
    omega
  rw [← count] at ahead behind
  rw [difference_of_offset ahead behind, count, count]

/-- A word below the sign bit as a signed one. -/
theorem toInt_toInt32 {word : UInt32} (small : word.toNat < 2147483648) :
    word.toInt32.toInt = word.toNat := by
  have value := difference_of_toNat small (by decide : UInt32.toNat 0 < 2147483648)
  rw [difference, UInt32.sub_zero, UInt32.toNat_zero, Int.natCast_zero, Int.sub_zero] at value
  exact value

/-- A signed word that is not negative as an unsigned one. -/
theorem toNat_toUInt32 {word : Int32} (positive : 0 ≤ word.toInt) :
    (word.toUInt32.toNat : Int) = word.toInt ∧ word.toUInt32.toNat < 2147483648 := by
  have cut : word.toInt = if 2 * word.toUInt32.toNat < 4294967296 then (word.toUInt32.toNat : Int)
      else word.toUInt32.toNat - 4294967296 := BitVec.toInt_eq_toNat_cond _
  have small := word.toUInt32.toNat_lt
  split at cut <;> omega

theorem difference_nonneg_iff {later earlier : UInt32} :
    0 ≤ difference later earlier <-> offset earlier later < 2147483648 := by
  have small := offset_lt earlier later
  rw [difference_eq]
  split <;> omega

/-! ## Ascending numbers -/

/-- Every time is past some time that is at most half of the range ahead. -/
theorem exists_ahead (current target : UInt32) :
    Exists fun now => offset current now ≤ 2147483648 ∧ 0 ≤ difference now target := by
  by_cases past : 0 ≤ difference current target
  · refine ⟨current, ?_, past⟩
    rw [(@offset_eq_zero_iff current current).mpr rfl]
    exact Nat.zero_le _
  · refine ⟨target, ?_, ?_⟩
    · rw [difference_nonneg_iff, offset_eq] at past
      rw [offset_eq]
      have one := current.toNat_lt
      have two := target.toNat_lt
      omega
    · rw [difference_nonneg_iff, (@offset_eq_zero_iff target target).mpr rfl]
      exact Nat.two_pow_pos 31

/-- The numbers go up from the base and stay below the limit. -/
structure Ascending (base : UInt32) (limit : Nat) (numbers : List UInt32) : Prop where
  ordered : numbers.Pairwise fun first second => offset base first < offset base second
  below : forall number, number ∈ numbers -> offset base number < limit

theorem Ascending.nil (base : UInt32) (limit : Nat) : Ascending base limit [] where
  ordered := .nil
  below := fun _ member => nomatch member

/-- The base itself can only come first. -/
theorem Ascending.first {base : UInt32} {limit : Nat} {numbers : List UInt32}
    (ascending : Ascending base limit numbers) (member : base ∈ numbers) :
    Exists fun others => numbers = base :: others := by
  cases numbers with
  | nil => cases member
  | cons number others =>
      rcases List.mem_cons.mp member with rfl | later
      · exact ⟨others, rfl⟩
      · have less := (List.pairwise_cons.mp ascending.ordered).1 base later
        rw [@offset_eq_zero_iff base base |>.mpr rfl] at less
        exact absurd less (Nat.not_lt_zero _)

theorem Ascending.sublist {base : UInt32} {limit : Nat} {numbers fewer : List UInt32}
    (ascending : Ascending base limit numbers) (part : fewer.Sublist numbers) :
    Ascending base limit fewer where
  ordered := ascending.ordered.sublist part
  below := fun number member => ascending.below number (part.subset member)

theorem Ascending.mono {base : UInt32} {limit wider : Nat} {numbers : List UInt32}
    (ascending : Ascending base limit numbers) (more : limit ≤ wider) :
    Ascending base wider numbers where
  ordered := ascending.ordered
  below := fun number member => Nat.lt_of_lt_of_le (ascending.below number member) more

/-- The base may go up as far as the first number. -/
theorem Ascending.advance {base middle : UInt32} {limit : Nat} {numbers : List UInt32}
    (ascending : Ascending base limit numbers)
    (passed : forall number, number ∈ numbers -> offset base middle ≤ offset base number) :
    Ascending middle (limit - offset base middle) numbers where
  ordered := by
    apply ascending.ordered.imp_of_mem
    intro first second member later less
    rw [offset_advance (passed first member), offset_advance (passed second later)]
    have low := passed first member
    omega
  below := by
    intro number member
    rw [offset_advance (passed number member)]
    have low := passed number member
    have high := ascending.below number member
    omega

/-- The first number of the base itself is taken away. -/
theorem Ascending.tail {base : UInt32} {limit : Nat} {numbers : List UInt32}
    (ascending : Ascending base limit (base :: numbers)) :
    Ascending (base + 1) (limit - 1) numbers := by
  have one : limit - 1 ≤ limit := Nat.sub_le _ _
  have room := ascending.below base List.mem_cons_self
  rw [offset_self] at room
  have step : offset base (base + 1) = 1 := by
    rw [offset_succ, offset_self]
    rw [offset_self]
    decide
  rw [← step]
  apply (ascending.sublist (List.sublist_cons_self base numbers)).advance
  intro number member
  have above := (List.pairwise_cons.mp ascending.ordered).1 number member
  rw [offset_self] at above
  rw [step]
  exact above

/-- A number at the limit goes to the end. -/
theorem Ascending.snoc {base number : UInt32} {limit : Nat} {numbers : List UInt32}
    (ascending : Ascending base limit numbers) (last : offset base number = limit) :
    Ascending base (limit + 1) (numbers ++ [number]) where
  ordered := by
    rw [List.pairwise_append]
    refine ⟨ascending.ordered, List.pairwise_singleton _ _, ?_⟩
    intro first member second new
    rw [List.mem_singleton.mp new, last]
    exact ascending.below first member
  below := by
    intro other member
    rcases List.mem_append.mp member with old | new
    · exact Nat.lt_succ_of_lt (ascending.below other old)
    · rw [List.mem_singleton.mp new, last]
      exact Nat.lt_succ_self _

/-- The numbers from the base on are taken away. -/
theorem Ascending.behind_consecutive {base : UInt32} {limit count : Nat} {numbers : List UInt32}
    (ascending : Ascending base limit (consecutive base count ++ numbers)) :
    Ascending (base + UInt32.ofNat count) limit numbers := by
  induction count generalizing base limit with
  | zero =>
      have none_ : UInt32.ofNat 0 = 0 := rfl
      rw [none_, UInt32.add_zero]
      exact ascending
  | succ count inductionHypothesis =>
      rw [consecutive, List.cons_append] at ascending
      rw [← succ_add_ofNat]
      exact (inductionHypothesis ascending.tail).mono (Nat.sub_le _ _)

/-- The numbers from the limit on go to the end. -/
theorem Ascending.append_consecutive {base next : UInt32} {limit count : Nat}
    {numbers : List UInt32} (ascending : Ascending base limit numbers)
    (last : offset base next = limit) (room : limit + count < 4294967296) :
    Ascending base (limit + count) (numbers ++ consecutive next count) := by
  induction count generalizing next limit numbers with
  | zero =>
      rw [consecutive, List.append_nil]
      exact ascending
  | succ count inductionHypothesis =>
      have following : offset base (next + 1) = limit + 1 := by
        rw [offset_succ (by omega), last]
      have longer := inductionHypothesis (ascending.snoc last) following (by omega)
      rw [List.append_assoc, List.singleton_append, Nat.add_right_comm] at longer
      exact longer

/-! ## Inserting from the back -/

/-- Put an item into a reversed list by its number, starting at the last one.
An item whose number is there already is not put in. -/
def insertBack (number : α -> UInt32) (new : α) : List α -> Option (List α)
  | [] => some [new]
  | item :: before =>
      if number item = number new then none
      else if 0 < difference (number new) (number item) then some (new :: item :: before)
      else (insertBack number new before).map (item :: ·)

/-- Put an item into a list by its number, looking for its place from the end. -/
def insert (number : α -> UInt32) (new : α) (items : List α) : Option (List α) :=
  (insertBack number new items.reverse).map List.reverse

theorem insertBack_none {number : α -> UInt32} {new : α} {items : List α}
    (refused : insertBack number new items = none) : number new ∈ items.map number := by
  induction items with
  | nil => cases refused
  | cons item before inductionHypothesis =>
      rw [insertBack] at refused
      by_cases same : number item = number new
      · rw [List.map_cons, same]
        exact List.mem_cons_self
      · rw [if_neg same] at refused
        by_cases later : 0 < difference (number new) (number item)
        · rw [if_pos later] at refused
          cases refused
        · rw [if_neg later] at refused
          exact List.mem_cons_of_mem _ (inductionHypothesis (Option.map_eq_none_iff.mp refused))

/-- Where the item goes: behind the last one with an earlier number. -/
theorem insertBack_some {number : α -> UInt32} {new : α} {items result : List α}
    (inserted : insertBack number new items = some result) :
    Exists fun back => Exists fun front => items = back ++ front ∧ result = back ++ new :: front ∧
      (forall item, item ∈ back -> number item ≠ number new ∧
        difference (number new) (number item) ≤ 0) ∧
      forall item rest, front = item :: rest -> 0 < difference (number new) (number item) := by
  induction items generalizing result with
  | nil =>
      cases inserted
      exact ⟨[], [], rfl, rfl, fun _ member => (nomatch member), fun _ _ empty => (nomatch empty)⟩
  | cons item before inductionHypothesis =>
      rw [insertBack] at inserted
      by_cases same : number item = number new
      · rw [if_pos same] at inserted
        cases inserted
      · rw [if_neg same] at inserted
        by_cases later : 0 < difference (number new) (number item)
        · rw [if_pos later] at inserted
          cases inserted
          refine ⟨[], item :: before, rfl, rfl, fun _ member => (nomatch member), ?_⟩
          intro first rest equal
          cases equal
          exact later
        · rw [if_neg later] at inserted
          rcases Option.map_eq_some_iff.mp inserted with ⟨longer, deeper, rfl⟩
          rcases inductionHypothesis deeper with ⟨back, front, split, placed, behind, ahead⟩
          refine ⟨item :: back, front, ?_, ?_, ?_, ahead⟩
          · rw [split, List.cons_append]
          · rw [placed, List.cons_append]
          · intro other member
            rcases List.mem_cons.mp member with rfl | deep
            · exact ⟨same, Int.not_lt.mp later⟩
            · exact behind other deep

theorem insert_none {number : α -> UInt32} {new : α} {items : List α}
    (refused : insert number new items = none) : number new ∈ items.map number := by
  have member := insertBack_none (Option.map_eq_none_iff.mp refused)
  rw [List.map_reverse, List.mem_reverse] at member
  exact member

/-- Inserting puts the item somewhere between the others. -/
theorem insert_some {number : α -> UInt32} {new : α} {items result : List α}
    (inserted : insert number new items = some result) :
    Exists fun front => Exists fun back => items = front ++ back ∧ result = front ++ new :: back ∧
      (forall item, item ∈ back -> number item ≠ number new ∧
        difference (number new) (number item) ≤ 0) ∧
      forall rest item, front = rest ++ [item] -> 0 < difference (number new) (number item) := by
  rcases Option.map_eq_some_iff.mp inserted with ⟨reversed, found, rfl⟩
  rcases insertBack_some found with ⟨back, front, split, rfl, behind, ahead⟩
  refine ⟨front.reverse, back.reverse, ?_, ?_, ?_, ?_⟩
  · rw [← List.reverse_append, ← split, List.reverse_reverse]
  · rw [List.reverse_append, List.reverse_cons, List.append_assoc, List.singleton_append]
  · intro item member
    exact behind item (List.mem_reverse.mp member)
  · intro rest item equal
    apply ahead item rest.reverse
    rw [← List.reverse_reverse front, equal, List.reverse_append, List.reverse_singleton,
      List.singleton_append]

/-- Inserting within half the circle keeps the numbers ascending. -/
theorem Ascending.insert {number : α -> UInt32} {new : α} {items result : List α} {base : UInt32}
    {limit : Nat} (ascending : Ascending base limit (items.map number))
    (near : limit ≤ 2147483648) (room : offset base (number new) < limit)
    (inserted : Serial.insert number new items = some result) :
    Ascending base limit (result.map number) := by
  rcases insert_some inserted with ⟨front, back, rfl, rfl, behind, ahead⟩
  rw [List.map_append] at ascending
  rcases List.pairwise_append.mp ascending.ordered with ⟨left, right, across⟩
  have compared (item : α) (member : item ∈ front ++ back) :
      difference (number new) (number item) =
        offset base (number new) - offset base (number item) := by
    apply difference_of_offset (by omega)
    have low := ascending.below (number item) (by
      rw [← List.map_append]
      exact List.mem_map_of_mem member)
    omega
  rw [List.map_append, List.map_cons]
  constructor
  · rw [List.pairwise_append, List.pairwise_cons]
    refine ⟨left, ⟨?_, right⟩, ?_⟩
    · intro other member
      rcases List.mem_map.mp member with ⟨item, inside, rfl⟩
      rcases behind item inside with ⟨distinct, late⟩
      rw [compared item (List.mem_append_right _ inside)] at late
      have apart : offset base (number item) ≠ offset base (number new) := fun same =>
        distinct (offset_inj.mp same)
      omega
    · intro first member second later
      have early : offset base first < offset base (number new) := by
        rcases List.eq_nil_or_concat front with rfl | ⟨rest, last, whole⟩
        · cases member
        · rw [List.concat_eq_append] at whole
          subst whole
          have closest := ahead rest last rfl
          rw [compared last (List.mem_append_left _ (List.mem_append_right _ List.mem_cons_self))]
            at closest
          rw [List.map_append, List.map_singleton] at member left
          rcases List.mem_append.mp member with before | final
          · have lower := (List.pairwise_append.mp left).2.2 first before _ List.mem_cons_self
            omega
          · rw [List.mem_singleton.mp final]
            omega
      rcases List.mem_cons.mp later with rfl | old
      · exact early
      · exact across first member second old
  · intro other member
    rcases List.mem_append.mp member with before | after
    · exact ascending.below other (List.mem_append_left _ before)
    · rcases List.mem_cons.mp after with rfl | old
      · exact room
      · exact ascending.below other (List.mem_append_right _ old)

end Serial
end ServerTech

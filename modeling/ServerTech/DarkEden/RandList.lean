import Mathlib.Algebra.Ring.Nat
import Mathlib.Algebra.Ring.Int.Defs
import Mathlib.Data.List.Nodup
import ServerTech.Foundation.Draw

namespace ServerTech
namespace DarkEden

open Draw

/-!
# Random numbers without repetition

`GetRandList` fills a vector with the numbers of a range and draws from it.  The
test of the range and the filling loop count in 32 bits: the number of values
from `min` to `max` wraps for the full range, and a loop up to the largest value
never ends.
-/

/-! ## The function -/

/-- `for (uint32 i = min; i <= max; i++) src.push_back(i)`, for a number of
rounds. -/
def fillLoop (max : UInt32) : Nat -> UInt32 -> List UInt32 -> Option (List UInt32)
  | 0, _, _ => none
  | rounds + 1, i, src => if i ≤ max then fillLoop max rounds (i + 1) (src ++ [i]) else some src

/-- The loop of the draws with the number of those that are left.  A remainder
by zero and an access outside the vector have no result. -/
def drawLoop (rand : Nat -> UInt32) :
    Nat -> Nat -> List UInt32 -> UInt32 -> List UInt32 -> Option (List UInt32)
  | 0, _, _, _, tar => some tar
  | remaining + 1, call, src, size, tar =>
      if size = 0 then none
      else
        let index := rand call % size
        src[index.toNat]?.bind fun value =>
          (swap src index.toNat (size - 1).toNat).bind fun src =>
            drawLoop rand remaining (call + 1) src (size - 1) (tar ++ [value])

/-- `GetRandList` with the result and `tar` behind the call.  `rand` gives what
the calls of `rand` return, converted to `uint32`. -/
def getRandList (rounds : Nat) (min max count : UInt32) (rand : Nat -> UInt32) (tar : List UInt32) :
    Option (Bool × List UInt32) :=
  if max - min + 1 < count then some (false, tar)
  else
    (fillLoop max rounds min []).bind fun src =>
      let size := UInt32.ofNat src.length
      if size = 0 then some (false, tar)
      else (drawLoop rand count.toNat 0 src size tar).map fun tar => (true, tar)

/-! ## The filling loop -/

/-- The numbers from one on. -/
def numbers (first count : Nat) : List UInt32 :=
  (List.range' first count).map UInt32.ofNat

theorem fillLoop_eq {max : UInt32} (small : max.toNat < 2 ^ 32 - 1) (count : Nat) (i : UInt32)
    (src : List UInt32) (last : i.toNat + count = max.toNat + 1) :
    fillLoop max (count + 1) i src = some (src ++ numbers i.toNat count) := by
  induction count generalizing i src with
  | zero =>
      have beyond : ¬ i ≤ max := by
        rw [UInt32.le_iff_toNat_le]
        omega
      rw [fillLoop, if_neg beyond]
      exact congrArg some (List.append_nil src).symm
  | succ count inductionHypothesis =>
      have within : i ≤ max := by
        rw [UInt32.le_iff_toNat_le]
        omega
      have next : (i + 1).toNat = i.toNat + 1 := by
        rw [UInt32.toNat_add, UInt32.toNat_one]
        omega
      rw [fillLoop, if_pos within, inductionHypothesis (i + 1) (src ++ [i]) (by omega), next,
        List.append_assoc]
      have same : UInt32.ofNat i.toNat = i := UInt32.ofNat_toNat
      rw [numbers, numbers, List.range'_succ, List.map_cons, same]
      rfl

/-- No value is above the largest one. -/
theorem fillLoop_largest {max : UInt32} (largest : max.toNat = 2 ^ 32 - 1) (rounds : Nat) (i : UInt32)
    (src : List UInt32) : fillLoop max rounds i src = none := by
  induction rounds generalizing i src with
  | zero => rfl
  | succ rounds inductionHypothesis =>
      have within : i ≤ max := by
        rw [UInt32.le_iff_toNat_le]
        have bound := i.toNat_lt
        omega
      rw [fillLoop, if_pos within]
      exact inductionHypothesis (i + 1) (src ++ [i])

theorem toNat_ofNat_of_range {first count number : Nat} (small : first + count ≤ 2 ^ 32)
    (member : number ∈ List.range' first count) : (UInt32.ofNat number).toNat = number := by
  have range := List.mem_range'_1.mp member
  exact UInt32.toNat_ofNat_of_lt' (Nat.lt_of_lt_of_le range.2 small)

theorem mem_numbers {first count : Nat} (small : first + count ≤ 2 ^ 32) {value : UInt32} :
    value ∈ numbers first count <-> first ≤ value.toNat ∧ value.toNat < first + count := by
  rw [numbers, List.mem_map]
  constructor
  · rintro ⟨number, member, rfl⟩
    rw [toNat_ofNat_of_range small member]
    exact List.mem_range'_1.mp member
  · intro range
    exact ⟨value.toNat, List.mem_range'_1.mpr range, UInt32.ofNat_toNat⟩

theorem numbers_nodup {first count : Nat} (small : first + count ≤ 2 ^ 32) :
    (numbers first count).Nodup := by
  apply List.Nodup.map_on _ List.nodup_range'
  intro number member other member' same
  have values := congrArg UInt32.toNat same
  rw [toNat_ofNat_of_range small member, toNat_ofNat_of_range small member'] at values
  exact values

/-! ## The draws -/

/-- What was drawn and the first `size` entries of the vector are together a
permutation of the range. -/
theorem drawLoop_perm (rand : Nat -> UInt32) {all : List UInt32} (remaining call : Nat)
    (src : List UInt32) (size : UInt32) (tar drawn : List UInt32)
    (inside : size.toNat ≤ src.length) (enough : remaining ≤ size.toNat)
    (remains : (drawn ++ src.take size.toNat).Perm all) :
    Exists fun more => Exists fun left =>
      drawLoop rand remaining call src size tar = some (tar ++ more) ∧
      more.length = remaining ∧ (drawn ++ more ++ left).Perm all := by
  induction remaining generalizing call src size tar drawn with
  | zero =>
      refine ⟨[], src.take size.toNat, ?_, rfl, ?_⟩
      · rw [drawLoop, List.append_nil]
      · rw [List.append_nil]
        exact remains
  | succ remaining inductionHypothesis =>
      have positive : size ≠ 0 := by
        rintro rfl
        exact absurd enough (by simp)
      have nonzero : size.toNat ≠ 0 := fun same => positive (UInt32.toNat_inj.mp same)
      have least : 1 ≤ size := by
        rw [UInt32.le_iff_toNat_le, UInt32.toNat_one]
        omega
      have less : (size - 1).toNat + 1 = size.toNat := by
        rw [UInt32.toNat_sub_of_le _ _ least, UInt32.toNat_one]
        omega
      have place : (rand call % size).toNat ≤ (size - 1).toNat := by
        rw [UInt32.toNat_mod]
        have remainder := Nat.mod_lt (rand call).toNat (Nat.pos_of_ne_zero nonzero)
        omega
      rcases perm_of_swap place (show (size - 1).toNat < src.length by omega) with
        ⟨value, swapped, found, exchanged, length, shorter⟩
      rw [less] at shorter
      have next := inductionHypothesis (call + 1) swapped (size - 1) (tar ++ [value])
        (drawn ++ [value]) (by omega) (by omega) (by
          rw [List.append_assoc]
          exact (shorter.append_left drawn).trans remains)
      rcases next with ⟨more, left, returned, count, permuted⟩
      refine ⟨value :: more, left, ?_, ?_, ?_⟩
      · simp only [drawLoop, if_neg positive, found, exchanged, Option.bind_some, returned]
        rw [List.append_assoc]
        rfl
      · rw [List.length_cons, count]
      · simpa using permuted

/-- As many draws as there are values give different ones of them. -/
theorem drawLoop_all (rand : Nat -> UInt32) {all : List UInt32} (distinct : all.Nodup) {count : Nat}
    {size : UInt32} (counted : size.toNat = all.length) (enough : count ≤ all.length)
    (tar : List UInt32) :
    Exists fun drawn => drawLoop rand count 0 all size tar = some (tar ++ drawn) ∧
      drawn.length = count ∧ drawn.Nodup ∧ drawn ⊆ all := by
  have start : ([] ++ all.take size.toNat).Perm all := by
    rw [counted, List.nil_append, List.take_of_length_le (Nat.le_refl _)]
  rcases drawLoop_perm rand count 0 all size tar [] (Nat.le_of_eq counted)
      (Nat.le_trans enough (Nat.le_of_eq counted.symm)) start with ⟨drawn, left, returned, length, permuted⟩
  rw [List.nil_append] at permuted
  refine ⟨drawn, returned, length, ?_, ?_⟩
  · exact (permuted.nodup_iff.mpr distinct).of_append_left
  · intro value member
    exact permuted.subset (List.mem_append_left left member)

/-! ## The result -/

/-- What the function promises: if the range has enough values it returns true
and appends that many different ones of them, and otherwise it returns false and
leaves the vector as it is. -/
structure Draws (min max count : UInt32) (rand : Nat -> UInt32) (tar : List UInt32) : Prop where
  drawn : count.toNat ≤ max.toNat - min.toNat + 1 ->
    Exists fun rounds => Exists fun drawn =>
      getRandList rounds min max count rand tar = some (true, tar ++ drawn) ∧
      drawn.length = count.toNat ∧ drawn.Nodup ∧
      forall value, value ∈ drawn -> min ≤ value ∧ value ≤ max
  refused : max.toNat - min.toNat + 1 < count.toNat ->
    Exists fun rounds => getRandList rounds min max count rand tar = some (false, tar)

section

variable {min max count : UInt32} (rand : Nat -> UInt32) (tar : List UInt32)

/-- The number of values does not wrap, except for the full range. -/
theorem toNat_width (ordered : min ≤ max) :
    (max - min + 1).toNat = (max.toNat - min.toNat + 1) % 2 ^ 32 := by
  rw [UInt32.toNat_add, UInt32.toNat_sub_of_le _ _ ordered, UInt32.toNat_one]

theorem getRandList_refused (few : max - min + 1 < count) (rounds : Nat) :
    getRandList rounds min max count rand tar = some (false, tar) :=
  if_pos few

/-- Below the largest value the function does what it promises. -/
theorem getRandList_drawn (ordered : min ≤ max) (small : max.toNat < 2 ^ 32 - 1)
    (enough : count.toNat ≤ max.toNat - min.toNat + 1) :
    Exists fun rounds => Exists fun drawn =>
      getRandList rounds min max count rand tar = some (true, tar ++ drawn) ∧
      drawn.length = count.toNat ∧ drawn.Nodup ∧
      forall value, value ∈ drawn -> min ≤ value ∧ value ≤ max := by
  have below : min.toNat ≤ max.toNat := UInt32.le_iff_toNat_le.mp ordered
  have width : max.toNat - min.toNat + 1 < 2 ^ 32 := by omega
  have many : ¬ max - min + 1 < count := by
    rw [UInt32.lt_iff_toNat_lt, toNat_width ordered, Nat.mod_eq_of_lt width]
    omega
  have bound : min.toNat + (max.toNat - min.toNat + 1) ≤ 2 ^ 32 := by omega
  have filled := fillLoop_eq small (max.toNat - min.toNat + 1) min [] (by omega)
  rw [List.nil_append] at filled
  have length : (numbers min.toNat (max.toNat - min.toNat + 1)).length =
      max.toNat - min.toNat + 1 := by
    rw [numbers, List.length_map, List.length_range']
  have size : (UInt32.ofNat (max.toNat - min.toNat + 1)).toNat = max.toNat - min.toNat + 1 :=
    UInt32.toNat_ofNat_of_lt' width
  have positive : ¬ UInt32.ofNat (max.toNat - min.toNat + 1) = 0 := by
    intro zero
    rw [zero] at size
    exact absurd size (by simp)
  rcases drawLoop_all rand (numbers_nodup bound) (size.trans length.symm)
      (Nat.le_trans enough (Nat.le_of_eq length.symm)) tar with ⟨drawn, returned, counted, distinct, among⟩
  refine ⟨max.toNat - min.toNat + 1 + 1, drawn, ?_, counted, distinct, ?_⟩
  · rw [getRandList, if_neg many, filled, Option.bind_some]
    simp only [length, if_neg positive, returned, Option.map_some]
  · intro value member
    have range := (mem_numbers bound).mp (among member)
    rw [UInt32.le_iff_toNat_le, UInt32.le_iff_toNat_le]
    omega

/-- The function does what it promises exactly when the largest value is not the
end of the range, or too many values are asked for. -/
theorem getRandList_iff (ordered : min ≤ max) :
    Draws min max count rand tar <->
      max.toNat < 2 ^ 32 - 1 ∨ max.toNat - min.toNat + 1 < count.toNat := by
  have top := max.toNat_lt
  have asked := count.toNat_lt
  have width := toNat_width ordered
  constructor
  · intro draws
    by_contra neither
    rw [not_or, Nat.not_lt, Nat.not_lt] at neither
    rcases draws.drawn neither.2 with ⟨rounds, drawn, returned, _⟩
    rw [getRandList] at returned
    by_cases few : max - min + 1 < count
    · rw [if_pos few] at returned
      cases returned
    · rw [if_neg few, fillLoop_largest (by omega)] at returned
      cases returned
  · intro condition
    refine ⟨?_, ?_⟩
    · intro enough
      rcases condition with small | more
      · exact getRandList_drawn rand tar ordered small enough
      · exact absurd enough (Nat.not_le_of_lt more)
    · intro more
      refine ⟨0, getRandList_refused rand tar ?_ 0⟩
      rw [UInt32.lt_iff_toNat_lt, width]
      exact Nat.lt_of_le_of_lt (Nat.mod_le _ _) more

end

/-- Three of the numbers from 5 to 9. -/
theorem getRandList_iff_five : Draws 5 9 3 (fun _ => 7) [1] :=
  (getRandList_iff _ _ (by decide)).mpr (by decide)

/-- One value of the full range is refused. -/
theorem getRandList_full : ¬ Draws 0 4294967295 1 (fun _ => 0) [] := by
  intro draws
  rcases draws.drawn (by decide) with ⟨rounds, drawn, returned, _⟩
  rw [getRandList_refused _ _ (by decide)] at returned
  cases returned

end DarkEden
end ServerTech

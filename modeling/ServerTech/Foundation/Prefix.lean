import Mathlib.Data.List.Basic

namespace ServerTech
namespace Prefix

universe u v

/-!
# Prefixes across blocks

A sequence of items is written as a longer sequence of digits, a block of the
same width for each item.  Two sequences of items agree in a number of digits
when their digits begin alike.  The comparison can be made item by item: the
whole items in front are equal, and the next two agree in the digits that are
left.
-/

variable {α : Type u} {β : Type v} (digits : α -> List β)

/-- The first `count` digits are the same. -/
def Agree (count : Nat) (first second : List α) : Prop :=
  (first.flatMap digits).take count = (second.flatMap digits).take count

theorem agree_equivalence (count : Nat) : Equivalence (Agree digits count) :=
  ⟨fun _ => rfl, fun same => same.symm, fun left right => left.trans right⟩

/-- Agreeing in more digits is agreeing in fewer. -/
theorem Agree.mono {first second : List α} {fewer more : Nat} (le : fewer ≤ more)
    (agree : Agree digits more first second) : Agree digits fewer first second := by
  have cut := congrArg (List.take fewer) agree
  rw [List.take_take, List.take_take, Nat.min_eq_left le] at cut
  exact cut

variable {digits} {width : Nat} (fixed : forall item, (digits item).length = width)

include fixed

theorem length_blocks (items : List α) : (items.flatMap digits).length = width * items.length := by
  induction items with
  | nil => rfl
  | cons item items inductionHypothesis =>
      rw [List.flatMap_cons, List.length_append, fixed, inductionHypothesis, List.length_cons,
        Nat.mul_succ, Nat.add_comm]

/-- Digits in front, cut into whole items and the rest. -/
theorem take_blocks (front back : List α) (part : Nat) :
    ((front ++ back).flatMap digits).take (width * front.length + part) =
      front.flatMap digits ++ (back.flatMap digits).take part := by
  rw [List.flatMap_append, ← length_blocks fixed, List.take_length_add_append]

theorem blocks_injective (injective : Function.Injective digits) {first second : List α}
    (lengths : first.length = second.length)
    (same : first.flatMap digits = second.flatMap digits) : first = second := by
  induction first generalizing second with
  | nil => exact (List.length_eq_zero_iff.mp lengths.symm).symm
  | cons item first inductionHypothesis =>
      cases second with
      | nil => cases lengths
      | cons other second =>
          rw [List.flatMap_cons, List.flatMap_cons] at same
          rcases List.append_inj same ((fixed item).trans (fixed other).symm) with ⟨heads, tails⟩
          rw [injective heads, inductionHypothesis (Nat.succ.inj lengths) tails]

/-- Whole items in front are compared as items, and the rest by their digits. -/
theorem agree_append (injective : Function.Injective digits) {front otherFront back otherBack : List α}
    (lengths : front.length = otherFront.length) (part : Nat) :
    Agree digits (width * front.length + part) (front ++ back) (otherFront ++ otherBack) <->
      front = otherFront ∧ Agree digits part back otherBack := by
  have whole : (front.flatMap digits).length = (otherFront.flatMap digits).length := by
    rw [length_blocks fixed, length_blocks fixed, lengths]
  unfold Agree
  rw [take_blocks fixed]
  rw [lengths, take_blocks fixed]
  constructor
  · intro same
    rcases List.append_inj same whole with ⟨heads, tails⟩
    exact ⟨blocks_injective fixed injective lengths heads, tails⟩
  · rintro ⟨rfl, tails⟩
    rw [tails]

/-- Fewer digits than an item has lie in the first item. -/
theorem agree_cons {item other : α} {back otherBack : List α} {part : Nat} (within : part ≤ width) :
    Agree digits part (item :: back) (other :: otherBack) <->
      (digits item).take part = (digits other).take part := by
  unfold Agree
  rw [List.flatMap_cons, List.flatMap_cons,
    List.take_append_of_le_length (Nat.le_trans within (Nat.le_of_eq (fixed item).symm)),
    List.take_append_of_le_length (Nat.le_trans within (Nat.le_of_eq (fixed other).symm))]

end Prefix
end ServerTech

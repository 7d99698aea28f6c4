import Mathlib.Data.List.Basic

namespace ServerTech

universe u

variable {α : Type u}

/-!
# Weights of lists

The total weight of the items of a list.  A weight of zero or one counts the
items of a kind, another weight adds up an amount they carry.  Sending a
message from one list to another moves its weight, so conservation laws over
several queues are equations between such totals.
-/

/-- The sum of the weights of the items. -/
def tally (weight : α -> Nat) : List α -> Nat
  | [] => 0
  | item :: items => weight item + tally weight items

@[simp] theorem tally_nil (weight : α -> Nat) : tally weight [] = 0 :=
  rfl

@[simp] theorem tally_cons (weight : α -> Nat) (item : α) (items : List α) :
    tally weight (item :: items) = weight item + tally weight items :=
  rfl

@[simp] theorem tally_append (weight : α -> Nat) (first second : List α) :
    tally weight (first ++ second) = tally weight first + tally weight second := by
  induction first with
  | nil => rw [List.nil_append, tally_nil, Nat.zero_add]
  | cons item first inductionHypothesis =>
      rw [List.cons_append, tally_cons, tally_cons, inductionHypothesis, Nat.add_assoc]

theorem tally_le_tally {light heavy : α -> Nat} (le : forall item, light item ≤ heavy item)
    (items : List α) : tally light items ≤ tally heavy items := by
  induction items with
  | nil => exact Nat.le_refl 0
  | cons item items inductionHypothesis => exact Nat.add_le_add (le item) inductionHypothesis

theorem weight_le_tally (weight : α -> Nat) {item : α} {items : List α} (member : item ∈ items) :
    weight item ≤ tally weight items := by
  induction member with
  | head items => exact Nat.le_add_right _ _
  | tail other _ inductionHypothesis =>
      exact Nat.le_trans inductionHypothesis (Nat.le_add_left _ _)

/-- Replacing an item replaces its weight. -/
theorem tally_set (weight : α -> Nat) {items : List α} {i : Nat} {old : α} (listed : items[i]? = some old)
    (new : α) : tally weight (items.set i new) + weight old = tally weight items + weight new := by
  induction items generalizing i with
  | nil => cases listed
  | cons item items inductionHypothesis =>
      cases i with
      | zero =>
          cases listed
          rw [List.set_cons_zero, tally_cons, tally_cons]
          omega
      | succ i =>
          have rest := inductionHypothesis listed
          rw [List.set_cons_succ, tally_cons, tally_cons]
          omega

/-- Dropping an item drops its weight. -/
theorem tally_eraseIdx (weight : α -> Nat) {items : List α} {i : Nat} {old : α}
    (listed : items[i]? = some old) : tally weight (items.eraseIdx i) + weight old = tally weight items := by
  induction items generalizing i with
  | nil => cases listed
  | cons item items inductionHypothesis =>
      cases i with
      | zero =>
          cases listed
          rw [List.eraseIdx_cons_zero, tally_cons, Nat.add_comm]
      | succ i =>
          have rest := inductionHypothesis listed
          rw [List.eraseIdx_cons_succ, tally_cons, tally_cons]
          omega

end ServerTech

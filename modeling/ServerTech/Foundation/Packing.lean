import ServerTech.Foundation.Tally

namespace ServerTech

universe u

variable {α : Type u}

/-!
# Packing into groups of bounded size

Items with sizes are packed one behind the other.  Items go into an open group as
long as there is room, and a group that is closed never changes again.  Whatever
decides when a group is closed, the groups hold the items in their order and no
item is split over two groups.
-/

/-- The items are in the closed groups and in the open one, in order.  No group is
larger than the capacity, and the closed ones are not empty. -/
structure Packing (capacity : Nat) (size : α -> Nat) (items : List α) (closed : List (List α))
    (open_ : List α) : Prop where
  order : closed.flatten ++ open_ = items
  bounded : forall group, group ∈ closed -> 0 < tally size group ∧ tally size group ≤ capacity
  room : tally size open_ ≤ capacity

namespace Packing

variable {capacity : Nat} {size : α -> Nat} {items open_ : List α} {closed : List (List α)}

theorem empty (capacity : Nat) (size : α -> Nat) : Packing capacity size [] [] [] :=
  ⟨rfl, nofun, Nat.zero_le _⟩

/-- An item goes into the open group if there is room. -/
theorem extend (packing : Packing capacity size items closed open_) {item : α}
    (fits : size item + tally size open_ ≤ capacity) :
    Packing capacity size (items ++ [item]) closed (open_ ++ [item]) := by
  refine ⟨?_, packing.bounded, ?_⟩
  · rw [← List.append_assoc, packing.order]
  · rw [tally_append, tally_cons, tally_nil]
    omega

/-- The open group is closed, and a new one is opened. -/
theorem close (packing : Packing capacity size items closed open_) (some_ : 0 < tally size open_) :
    Packing capacity size items (closed ++ [open_]) [] := by
  refine ⟨?_, ?_, Nat.zero_le _⟩
  · rw [List.flatten_append, List.flatten_singleton, List.append_nil]
    exact packing.order
  · intro group listed
    rcases List.mem_append.mp listed with earlier | last
    · exact packing.bounded group earlier
    · rw [List.mem_singleton.mp last]
      exact ⟨some_, packing.room⟩

end Packing
end ServerTech

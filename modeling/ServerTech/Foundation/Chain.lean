import Mathlib.Data.List.Nodup

namespace ServerTech

universe u

variable {α : Type u}

/-!
# Linked chains

A chain of nodes in a store, from a first node, or from none, along the links to
the end.  `link` gives the link of a node, or nothing where there is no node.
-/

/-- The chain that starts at a node runs through these nodes. -/
inductive Chain (link : α -> Option (Option α)) : Option α -> List α -> Prop
  | nil : Chain link none []
  | cons {node : α} {next : Option α} {others : List α} :
      link node = some next -> Chain link next others -> Chain link (some node) (node :: others)

variable {link other : α -> Option (Option α)} {head : Option α} {nodes : List α}

namespace Chain

/-- A change of links elsewhere leaves a chain alone. -/
theorem frame (chain : Chain link head nodes)
    (same : forall node, node ∈ nodes -> other node = link node) : Chain other head nodes := by
  induction chain with
  | nil => exact .nil
  | cons found _ inductionHypothesis =>
      refine .cons ?_ (inductionHypothesis fun node member => same node (List.mem_cons_of_mem _ member))
      rw [same _ List.mem_cons_self]
      exact found

/-- The nodes of a chain that starts at a node. -/
theorem uncons {node : α} (chain : Chain link (some node) nodes) :
    Exists fun next => Exists fun others => nodes = node :: others ∧ link node = some next ∧
      Chain link next others := by
  cases chain with
  | cons found rest => exact ⟨_, _, rfl, found, rest⟩

theorem of_none (chain : Chain link none nodes) : nodes = [] := by
  cases chain
  rfl

end Chain

end ServerTech

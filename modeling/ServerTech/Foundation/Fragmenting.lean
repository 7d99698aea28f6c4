import Mathlib.Data.List.Basic

namespace ServerTech
namespace Fragmenting

universe u v

variable {α : Type u} {β : Type v} {left : α -> Nat} {load : α -> List β}

/-!
# Messages in fragments

A message is cut into fragments, and each fragment says how many of its message
are left behind it.  A sequence of fragments of complete messages can be put
together in only one way, so the messages at the front of it are known as soon
as their fragments are.
-/

/-- The fragments of one message, of which the first has this many left. -/
inductive Countdown (left : α -> Nat) : Nat -> List α -> Prop
  | last {fragment : α} : left fragment = 0 -> Countdown left 0 [fragment]
  | more {fragment : α} {count : Nat} {others : List α} : left fragment = count + 1 ->
      Countdown left count others -> Countdown left (count + 1) (fragment :: others)

/-- The fragments of complete messages, one after another. -/
inductive Messages (left : α -> Nat) (load : α -> List β) : List (List β) -> List α -> Prop
  | nil : Messages left load [] []
  | cons {count : Nat} {fragments others : List α} {messages : List (List β)} :
      Countdown left count fragments -> Messages left load messages others ->
      Messages left load (fragments.flatMap load :: messages) (fragments ++ others)

/-- The fragments up to the first one that has none left, and the others. -/
def merge (left : α -> Nat) : List α -> List α × List α
  | [] => ([], [])
  | fragment :: others =>
      if left fragment = 0 then ([fragment], others)
      else (fragment :: (merge left others).1, (merge left others).2)

theorem Countdown.length {count : Nat} {fragments : List α}
    (countdown : Countdown left count fragments) : fragments.length = count + 1 := by
  induction countdown with
  | last _ => rfl
  | more _ _ inductionHypothesis => exact congrArg (· + 1) inductionHypothesis

theorem Countdown.head {count : Nat} {fragments others : List α} {first : α} {rest : List α}
    (countdown : Countdown left count fragments) (same : fragments ++ others = first :: rest) :
    left first = count := by
  cases countdown with
  | last none_ =>
      cases same
      exact none_
  | more some_ _ =>
      cases same
      exact some_

/-- Merging finds the fragments of the first message. -/
theorem Countdown.merge {count : Nat} {fragments : List α}
    (countdown : Countdown left count fragments) (others : List α) :
    Fragmenting.merge left (fragments ++ others) = (fragments, others) := by
  induction countdown with
  | last none_ => rw [List.singleton_append, Fragmenting.merge, if_pos none_]
  | more some_ _ inductionHypothesis =>
      rw [List.cons_append, Fragmenting.merge, inductionHypothesis,
        if_neg (by rw [some_]; exact Nat.succ_ne_zero _)]

theorem Messages.append {first second : List (List β)} {fragments others : List α}
    (left_ : Messages left load first fragments) (right : Messages left load second others) :
    Messages left load (first ++ second) (fragments ++ others) := by
  induction left_ with
  | nil => exact right
  | cons countdown _ inductionHypothesis =>
      rw [List.cons_append, List.append_assoc]
      exact .cons countdown inductionHypothesis

/-- One message of its own. -/
theorem Countdown.messages {count : Nat} {fragments : List α}
    (countdown : Countdown left count fragments) :
    Messages left load [fragments.flatMap load] fragments := by
  have single : Messages left load [fragments.flatMap load] (fragments ++ []) := .cons countdown .nil
  rw [List.append_nil] at single
  exact single

theorem Messages.flatten {messages : List (List β)} {fragments : List α}
    (whole : Messages left load messages fragments) :
    messages.flatten = fragments.flatMap load := by
  induction whole with
  | nil => rfl
  | cons _ _ inductionHypothesis =>
      rw [List.flatten_cons, inductionHypothesis, List.flatMap_append]

/-- Fragments with none left are messages of their own. -/
theorem messages_of_single {fragments : List α}
    (single : forall fragment, fragment ∈ fragments -> left fragment = 0) :
    Messages left load (fragments.map load) fragments := by
  induction fragments with
  | nil => exact .nil
  | cons fragment others inductionHypothesis =>
      have first : Countdown left 0 [fragment] := .last (single fragment List.mem_cons_self)
      have joined := first.messages.append
        (inductionHypothesis fun other member => single other (List.mem_cons_of_mem _ member))
      rw [List.flatMap_singleton] at joined
      exact joined

/-- Two countdowns at the front of one sequence are the same. -/
theorem Countdown.unique {first second : Nat} {fragments others before behind : List α}
    (one : Countdown left first fragments) (two : Countdown left second others)
    (same : fragments ++ before = others ++ behind) : fragments = others ∧ before = behind := by
  have merged := one.merge before
  rw [same, two.merge behind] at merged
  exact ⟨(congrArg Prod.fst merged).symm, (congrArg Prod.snd merged).symm⟩

/-- Messages at the front of a sequence of messages are its first ones. -/
theorem Messages.rest {taken messages : List (List β)} {fragments others : List α}
    (front : Messages left load taken fragments)
    (whole : Messages left load messages (fragments ++ others)) :
    Exists fun later => messages = taken ++ later ∧ Messages left load later others := by
  induction front generalizing messages with
  | nil => exact ⟨messages, rfl, whole⟩
  | @cons count fragments between taken countdown _ inductionHypothesis =>
      generalize same : fragments ++ between ++ others = all at whole
      cases whole with
      | nil =>
          have size := congrArg List.length same
          rw [List.length_append, List.length_append, countdown.length, List.length_nil] at size
          omega
      | cons other later =>
          rw [List.append_assoc] at same
          rcases countdown.unique other same with ⟨rfl, rfl⟩
          rcases inductionHypothesis later with ⟨messages, rfl, behind⟩
          exact ⟨messages, rfl, behind⟩

theorem Messages.isPrefix {taken messages : List (List β)} {fragments all : List α}
    (front : Messages left load taken fragments) (whole : Messages left load messages all)
    (cut : fragments <+: all) : taken <+: messages := by
  rcases cut with ⟨others, rfl⟩
  rcases front.rest whole with ⟨later, rfl, _⟩
  exact List.prefix_append _ _

/-- No fragments are no messages. -/
theorem Messages.of_nil {messages : List (List β)} (whole : Messages left load messages []) :
    messages = [] := by
  generalize none_ : [] = fragments at whole
  cases whole with
  | nil => rfl
  | cons countdown _ =>
      have size := congrArg List.length none_
      rw [List.length_append, countdown.length, List.length_nil] at size
      omega

/-- The first fragment of some messages has all the fragments of its message behind it. -/
theorem Messages.enough {messages : List (List β)} {fragment : α} {others : List α}
    (whole : Messages left load messages (fragment :: others)) :
    left fragment ≤ others.length := by
  generalize same : fragment :: others = fragments at whole
  cases whole with
  | nil => cases same
  | cons countdown _ =>
      have size := congrArg List.length same
      rw [List.length_append, countdown.length, List.length_cons] at size
      rw [countdown.head same.symm]
      omega

/-- Enough fragments at the front of a sequence of messages hold the first one. -/
theorem Messages.first {messages : List (List β)} {fragments behind : List α} {fragment : α}
    {others : List α} (whole : Messages left load messages (fragments ++ behind))
    (start : fragments = fragment :: others) (enough : left fragment + 1 ≤ fragments.length) :
    Countdown left (left fragment) (merge left fragments).1 ∧
      (merge left fragments).1 ++ (merge left fragments).2 = fragments := by
  generalize same : fragments ++ behind = all at whole
  cases whole with
  | nil =>
      have size := congrArg List.length same
      rw [start, List.cons_append, List.length_cons] at size
      cases size
  | @cons count front later messages countdown _ =>
      have first : left fragment = count := by
        rw [start, List.cons_append] at same
        exact countdown.head same.symm
      have inside : front <+: fragments := by
        apply List.prefix_of_prefix_length_le (List.prefix_append front later)
        · rw [← same]
          exact List.prefix_append _ _
        · rw [countdown.length, ← first]
          exact enough
      rcases inside with ⟨rest, rfl⟩
      rw [countdown.merge rest, first]
      exact ⟨countdown, rfl⟩

end Fragmenting
end ServerTech

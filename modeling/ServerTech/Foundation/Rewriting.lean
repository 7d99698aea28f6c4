import Mathlib.Algebra.Ring.Nat
import Mathlib.Data.List.Basic
import ServerTech.Foundation.Tally

namespace ServerTech
namespace Rewriting

universe u

variable {α : Type u}

/-!
# Rewriting with one rule

A string over any alphabet is rewritten by putting one word in the place of an
occurrence of another, again and again.  Each letter carries a depth: zero in
the original string, and for the letters of an inserted word one more than the
least depth in the occurrence that it replaces.

While the occurrences have letters of bounded depth, every replacement makes a
weight of the string smaller, so there are finitely many.  Whenever the two
words do not overlap on one of the two sides, the bound is zero: the first
letter of every occurrence is an original one, or the last.
-/

/-! ## Letters with a depth -/

/-- The letters of a string with depths. -/
def text (letters : List (α × Nat)) : List α :=
  letters.map Prod.fst

/-- A word with one depth for all its letters.  The original string has depth
zero. -/
def atDepth (depth : Nat) (word : List α) : List (α × Nat) :=
  word.map fun letter => (letter, depth)

/-- The least depth of the letters. -/
def least (letters : List (α × Nat)) : Nat :=
  (letters.map Prod.snd).min?.getD 0

@[simp] theorem text_append (first second : List (α × Nat)) :
    text (first ++ second) = text first ++ text second :=
  List.map_append

@[simp] theorem text_atDepth (depth : Nat) (word : List α) : text (atDepth depth word) = word := by
  rw [text, atDepth, List.map_map]
  exact List.map_id word

/-- The least depth is that of a letter. -/
theorem least_mem {letters : List (α × Nat)} (nonempty : letters ≠ []) :
    Exists fun letter => letter ∈ letters ∧ letter.2 = least letters := by
  cases smallest : (letters.map Prod.snd).min? with
  | none =>
      have empty := List.map_eq_nil_iff.mp (List.min?_eq_none_iff.mp smallest)
      exact absurd empty nonempty
  | some depth =>
      rcases List.mem_map.mp (List.min?_mem smallest) with ⟨letter, member, same⟩
      refine ⟨letter, member, ?_⟩
      rw [same, least, smallest]
      rfl

theorem least_le {letters : List (α × Nat)} {letter : α × Nat} (member : letter ∈ letters) :
    least letters ≤ letter.2 := by
  have listed : letter.2 ∈ letters.map Prod.snd := List.mem_map_of_mem member
  cases smallest : (letters.map Prod.snd).min? with
  | none =>
      rw [List.min?_eq_none_iff.mp smallest] at listed
      exact absurd listed List.not_mem_nil
  | some depth =>
      rw [least, smallest]
      exact (List.min?_eq_some_iff.mp smallest).2 _ listed

/-! ## The weight of a string -/

/-- The weight of the letters.  A letter weighs more than a whole word of one
depth more. -/
def weight (length bound : Nat) : List (α × Nat) -> Nat :=
  tally fun letter => (length + 1) ^ (bound + 1 - letter.2)

theorem weight_append (length bound : Nat) (first second : List (α × Nat)) :
    weight length bound (first ++ second) =
      weight length bound first + weight length bound second :=
  tally_append _ first second

theorem weight_atDepth (length bound depth : Nat) (word : List α) :
    weight length bound (atDepth depth word) =
      word.length * (length + 1) ^ (bound + 1 - depth) := by
  induction word with
  | nil => exact (Nat.zero_mul _).symm
  | cons letter word inductionHypothesis =>
      rw [List.length_cons, Nat.add_comm word.length, Nat.add_mul, Nat.one_mul,
        ← inductionHypothesis]
      rfl

/-- A replacement of an occurrence with a letter of bounded depth makes the
string lighter. -/
theorem weight_lt (before : List (α × Nat)) {piece : List (α × Nat)} (after : List (α × Nat))
    (new : List α) {bound : Nat} (nonempty : piece ≠ []) (shallow : least piece ≤ bound) :
    weight new.length bound (before ++ atDepth (least piece + 1) new ++ after) <
      weight new.length bound (before ++ piece ++ after) := by
  rcases least_mem nonempty with ⟨letter, member, depth⟩
  have heavy : (new.length + 1) ^ (bound + 1 - letter.2) ≤ weight new.length bound piece :=
    weight_le_tally (fun letter => (new.length + 1) ^ (bound + 1 - letter.2)) member
  have exponent : bound + 1 - letter.2 = (bound + 1 - (least piece + 1)) + 1 := by omega
  have positive : 0 < (new.length + 1) ^ (bound + 1 - (least piece + 1)) := Nat.pow_pos (by omega)
  rw [exponent, Nat.pow_succ, Nat.mul_add, Nat.mul_one, Nat.mul_comm] at heavy
  simp only [weight_append, weight_atDepth]
  omega

/-! ## Words that do not overlap -/

/-- The strings that replacements in any order produce. -/
inductive Produced (old new str : List α) : List (α × Nat) -> Prop
  | start : Produced old new str (atDepth 0 str)
  | replace (before piece after : List (α × Nat)) :
      Produced old new str (before ++ piece ++ after) -> text piece = old ->
      Produced old new str (before ++ atDepth (least piece + 1) new ++ after)

/-- Every occurrence has a letter of the original string. -/
def Anchored (old new str : List α) : Prop :=
  forall before piece after : List (α × Nat),
    Produced old new str (before ++ piece ++ after) -> text piece = old -> least piece = 0

/-- A word ends with a proper beginning of another. -/
def Overlaps (front back : List α) : Prop :=
  Exists fun piece => piece ≠ [] ∧ piece <:+ front ∧
    Exists fun rest => rest ≠ [] ∧ back = piece ++ rest

/-- An occurrence does not begin with an ending of a word that neither contains
it nor overlaps it. -/
theorem not_comparable {old new piece rest after : List α} (contained : ¬ old <:+: new)
    (free : ¬ Overlaps new old) (nonempty : piece ≠ []) (ending : piece <:+ new)
    (same : old ++ after = piece ++ rest) : False := by
  rcases List.append_eq_append_iff.mp same with ⟨more, longer, _⟩ | ⟨more, shorter, _⟩
  · apply contained
    rcases ending with ⟨front, split⟩
    exact ⟨front, more, by rw [List.append_assoc, ← longer, split]⟩
  · by_cases whole : more = []
    · rw [whole, List.append_nil] at shorter
      rw [← shorter] at ending
      exact contained ending.isInfix
    · exact free ⟨piece, nonempty, ending, more, whole, shorter⟩

/-- The string begins with an ending of the inserted word. -/
def EndsWord (new : List α) (letters : List (α × Nat)) : Prop :=
  Exists fun piece => Exists fun rest =>
    piece ≠ [] ∧ piece <:+ new ∧ text letters = piece ++ rest

/-- A replacement further on does not touch the ending of an inserted word. -/
theorem EndsWord.replace {old new : List α} (front : List (α × Nat))
    {piece after : List (α × Nat)} (contained : ¬ old <:+: new) (free : ¬ Overlaps new old)
    (occurrence : text piece = old) (nonempty : front ≠ []) (depth : Nat)
    (before : EndsWord new (front ++ piece ++ after)) :
    EndsWord new (front ++ atDepth depth new ++ after) := by
  rcases before with ⟨word, rest, wordNonempty, ending, same⟩
  rw [text_append, text_append, occurrence, List.append_assoc] at same
  rcases List.append_eq_append_iff.mp same with ⟨more, longer, split⟩ | ⟨more, shorter, _⟩
  · by_cases whole : more = []
    · refine ⟨text front, new ++ text after, ?_, ?_, ?_⟩
      · exact fun empty => nonempty (List.map_eq_nil_iff.mp empty)
      · rw [whole, List.append_nil] at longer
        rw [← longer]
        exact ending
      · simp only [text_append, text_atDepth, List.append_assoc]
    · rw [longer] at ending
      have inside := (List.suffix_append (text front) more).trans ending
      exact (not_comparable contained free whole inside split).elim
  · refine ⟨word, more ++ new ++ text after, wordNonempty, ending, ?_⟩
    simp only [text_append, text_atDepth, shorter, List.append_assoc]

/-- An inserted letter is followed by an ending of the inserted word. -/
theorem produced_inserted {old new str : List α} {letters : List (α × Nat)}
    (contained : ¬ old <:+: new) (free : ¬ Overlaps new old)
    (produced : Produced old new str letters) {front back : List (α × Nat)} {letter : α × Nat}
    (split : letters = front ++ letter :: back) (deep : letter.2 ≠ 0) :
    EndsWord new (letter :: back) := by
  induction produced generalizing front back with
  | start =>
      have member : letter ∈ atDepth 0 str := by
        rw [split]
        exact List.mem_append_right _ (List.mem_cons_self ..)
      rcases List.mem_map.mp member with ⟨_, _, same⟩
      rw [← same] at deep
      exact absurd rfl deep
  | replace before piece after earlier occurrence inductionHypothesis =>
      have behind : forall more, after = more ++ letter :: back -> EndsWord new (letter :: back) := by
        intro more later
        apply @inductionHypothesis (before ++ piece ++ more) back
        rw [later, List.append_assoc (before ++ piece)]
      have within : forall more, atDepth (least piece + 1) new ++ after = more ++ letter :: back ->
          EndsWord new (letter :: back) := by
        intro more same
        rcases List.append_eq_append_iff.mp same with ⟨rest, _, later⟩ | ⟨ending, word, rest⟩
        · exact behind rest later
        · cases ending with
          | nil => exact behind [] rest.symm
          | cons first ending =>
              refine ⟨text (first :: ending), text after, List.cons_ne_nil _ _, ⟨text more, ?_⟩, ?_⟩
              · rw [← text_append, ← word, text_atDepth]
              · rw [← text_append, ← rest]
      rw [List.append_assoc] at split
      rcases List.append_eq_append_iff.mp split with ⟨more, _, inside⟩ | ⟨more, place, rest⟩
      · exact within more inside
      · cases more with
        | nil => exact within [] rest.symm
        | cons first more =>
            rcases List.cons.inj rest with ⟨rfl, rfl⟩
            have following := @inductionHypothesis front (more ++ piece ++ after) (by
              rw [place]
              simp only [List.append_assoc, List.cons_append])
            have replaced := EndsWord.replace (letter :: more) contained free occurrence
              (List.cons_ne_nil _ _) (least piece + 1) following
            rw [List.cons_append, List.cons_append, List.append_assoc] at replaced
            exact replaced

/-- If the new word does not end with a proper beginning of the old one, the
first letter of every occurrence is an original one. -/
theorem anchored_of_not_overlaps {old new : List α} (contained : ¬ old <:+: new)
    (free : ¬ Overlaps new old) (str : List α) : Anchored old new str := by
  intro before piece after produced occurrence
  cases piece with
  | nil =>
      rw [← occurrence] at contained
      exact absurd List.nil_infix contained
  | cons letter piece =>
      by_cases deep : letter.2 = 0
      · exact Nat.le_zero.mp (deep ▸ least_le (List.mem_cons_self ..))
      · rw [List.append_assoc] at produced
        rcases produced_inserted contained free produced rfl deep with
          ⟨word, rest, nonempty, ending, same⟩
        have split : old ++ text after = word ++ rest := by
          rw [← occurrence, ← text_append]
          exact same
        exact (not_comparable contained free nonempty ending split).elim

/-! ## Reversal -/

theorem atDepth_reverse (depth : Nat) (word : List α) :
    atDepth depth word.reverse = (atDepth depth word).reverse :=
  List.map_reverse

theorem text_reverse (letters : List (α × Nat)) : text letters.reverse = (text letters).reverse :=
  List.map_reverse

theorem least_reverse (letters : List (α × Nat)) : least letters.reverse = least letters := by
  by_cases empty : letters = []
  · rw [empty]
    rfl
  · rcases least_mem empty with ⟨first, member, same⟩
    rcases least_mem (List.reverse_ne_nil_iff.mpr empty) with ⟨second, mirrored, same'⟩
    have below := least_le (List.mem_reverse.mpr member)
    have above := least_le (List.mem_reverse.mp mirrored)
    omega

theorem Produced.reverse {old new str : List α} {letters : List (α × Nat)}
    (produced : Produced old new str letters) :
    Produced old.reverse new.reverse str.reverse letters.reverse := by
  induction produced with
  | start =>
      rw [← atDepth_reverse]
      exact .start
  | replace before piece after earlier occurrence inductionHypothesis =>
      simp only [List.reverse_append, ← atDepth_reverse] at inductionHypothesis ⊢
      rw [← List.append_assoc] at inductionHypothesis ⊢
      rw [← least_reverse]
      apply Produced.replace _ _ _ inductionHypothesis
      rw [text_reverse, occurrence]

/-- If the new word does not begin with a proper ending of the old one, the last
letter of every occurrence is an original one. -/
theorem anchored_of_not_overlaps_reverse {old new : List α} (contained : ¬ old <:+: new)
    (free : ¬ Overlaps new.reverse old.reverse) (str : List α) : Anchored old new str := by
  intro before piece after produced occurrence
  have contained : ¬ old.reverse <:+: new.reverse := fun inside =>
    contained (List.reverse_infix.mp inside)
  have mirrored := produced.reverse
  simp only [List.reverse_append] at mirrored
  rw [← List.append_assoc] at mirrored
  have same : text piece.reverse = old.reverse := by rw [text_reverse, occurrence]
  rw [← least_reverse]
  exact anchored_of_not_overlaps contained free str.reverse _ _ _ mirrored same

end Rewriting
end ServerTech

import ServerTech.Foundation.LittleEndian
import ServerTech.Foundation.Rewriting

namespace ServerTech
namespace DarkEden

open Rewriting

/-!
# Replacing a value everywhere

`replace_all` of `Util.cpp` replaces the leftmost occurrence of one string by
another and starts again from the beginning, until there is none.  It returns at
once if the new value contains the old one, since the loop would not end then.

The loop can still go on for ever: occurrences come up inside what was inserted,
and inside what is inserted for these.  It ends exactly when this nesting is
bounded.
-/

/-! ## The function -/

/-- `src.find(old_value)`. -/
def findValue (oldValue : List UInt8) : List UInt8 -> Option Nat
  | [] => if oldValue = [] then some 0 else none
  | byte :: src =>
      if (byte :: src).take oldValue.length = oldValue then some 0
      else (findValue oldValue src).map (· + 1)

/-- `src.replace(pos, len, new_value)`. -/
def replaceAt (src : List UInt8) (pos len : Nat) (newValue : List UInt8) : List UInt8 :=
  src.take pos ++ newValue ++ src.drop (pos + len)

/-- The loop of `replace_all`, for a number of rounds. -/
def replaceLoop (oldValue newValue : List UInt8) : Nat -> List UInt8 -> Option (List UInt8)
  | 0, _ => none
  | rounds + 1, src =>
      match findValue oldValue src with
      | some pos =>
          replaceLoop oldValue newValue rounds (replaceAt src pos oldValue.length newValue)
      | none => some src

def replaceAll (rounds : Nat) (str oldValue newValue : List UInt8) : Option (List UInt8) :=
  match findValue oldValue newValue with
  | some _ => some str
  | none => replaceLoop oldValue newValue rounds str

/-- The function returns, and what the loop returns does not contain the old
value. -/
def Replaces (str oldValue newValue : List UInt8) : Prop :=
  Exists fun rounds => Exists fun result =>
    replaceAll rounds str oldValue newValue = some result ∧
      (findValue oldValue newValue = none -> ¬ oldValue <:+: result)

/-! ## The search -/

theorem findValue_some {oldValue src : List UInt8} {pos : Nat}
    (found : findValue oldValue src = some pos) :
    (src.drop pos).take oldValue.length = oldValue := by
  induction src generalizing pos with
  | nil =>
      simp only [findValue, Option.ite_none_right_eq_some] at found
      rw [found.1]
      rfl
  | cons byte src inductionHypothesis =>
      rw [findValue] at found
      by_cases here : (byte :: src).take oldValue.length = oldValue
      · rw [if_pos here] at found
        cases found
        exact here
      · rw [if_neg here] at found
        rcases Option.map_eq_some_iff.mp found with ⟨later, rest, rfl⟩
        exact inductionHypothesis rest

theorem findValue_none {oldValue src : List UInt8} :
    findValue oldValue src = none <-> ¬ oldValue <:+: src := by
  induction src with
  | nil =>
      simp only [findValue, ite_eq_right_iff, List.infix_nil]
      constructor
      · intro missing empty
        cases missing empty
      · intro nonempty empty
        exact absurd empty nonempty
  | cons byte src inductionHypothesis =>
      rw [findValue, List.infix_cons_iff, List.prefix_iff_eq_take]
      by_cases here : (byte :: src).take oldValue.length = oldValue
      · rw [if_pos here]
        constructor
        · intro missing
          cases missing
        · intro absent
          exact absurd (.inl here.symm) absent
      · rw [if_neg here, Option.map_eq_none_iff, inductionHypothesis]
        constructor
        · rintro absent (now | later)
          · exact here now.symm
          · exact absent later
        · intro absent later
          exact absent (.inr later)

/-- The string around an occurrence. -/
theorem split_at_found {β : Type} (list : List β) (pos len : Nat) :
    list.take pos ++ (list.drop pos).take len ++ list.drop (pos + len) = list := by
  rw [List.append_assoc, ← List.drop_drop, List.take_append_drop, List.take_append_drop]

/-! ## Termination -/

/-- A measure that every replacement makes smaller ends the loop. -/
theorem replaceLoop_of_measure {State : Type} (oldValue newValue : List UInt8)
    (view : State -> List UInt8) (size : State -> Nat)
    (advance : forall state pos, findValue oldValue (view state) = some pos ->
      Exists fun following =>
        view following = replaceAt (view state) pos oldValue.length newValue ∧
          size following < size state)
    (state : State) :
    Exists fun rounds => Exists fun result =>
      replaceLoop oldValue newValue rounds (view state) = some result ∧ ¬ oldValue <:+: result := by
  induction bound : size state using Nat.strongRecOn generalizing state with
  | ind bound inductionHypothesis =>
      cases found : findValue oldValue (view state) with
      | none =>
          refine ⟨1, view state, ?_, findValue_none.mp found⟩
          rw [replaceLoop, found]
      | some pos =>
          rcases advance state pos found with ⟨following, same, smaller⟩
          rw [bound] at smaller
          rcases inductionHypothesis _ smaller following rfl with ⟨rounds, result, returned, free⟩
          refine ⟨rounds + 1, result, ?_, free⟩
          rw [same] at returned
          rw [replaceLoop, found]
          exact returned

/-- A byte that the old value has more often than the new one is used up. -/
theorem replaceLoop_of_count {oldValue newValue : List UInt8} {byte : UInt8}
    (fewer : newValue.count byte < oldValue.count byte) (str : List UInt8) :
    Exists fun rounds => Exists fun result =>
      replaceLoop oldValue newValue rounds str = some result ∧ ¬ oldValue <:+: result := by
  refine replaceLoop_of_measure _ _ id (fun src => src.count byte) ?_ str
  intro src pos found
  refine ⟨_, rfl, ?_⟩
  have here : (src.drop pos).take oldValue.length = oldValue := findValue_some found
  have counted := congrArg (List.count byte) (split_at_found src pos oldValue.length)
  rw [here, List.count_append, List.count_append] at counted
  change (replaceAt src pos oldValue.length newValue).count byte < src.count byte
  rw [replaceAt, List.count_append, List.count_append]
  omega

/-- The number with the given digits, the first one the least significant. -/
theorem decode_replaceAt {oldValue newValue src : List UInt8} {pos : Nat}
    (found : findValue oldValue src = some pos) (same : newValue.length = oldValue.length) :
    (replaceAt src pos oldValue.length newValue).length = src.length ∧
      Exists fun weight => 0 < weight ∧
        LittleEndian.decode (replaceAt src pos oldValue.length newValue) +
            weight * LittleEndian.decode oldValue =
          LittleEndian.decode src + weight * LittleEndian.decode newValue := by
  have split := split_at_found src pos oldValue.length
  rw [findValue_some found] at split
  have lengths := congrArg List.length split
  have values := congrArg LittleEndian.decode split
  refine ⟨?_, 256 ^ (src.take pos).length, Nat.pow_pos (by decide), ?_⟩
  · rw [← lengths, replaceAt]
    simp only [List.length_append, same]
  · rw [← values, replaceAt]
    simp only [LittleEndian.decode_append, List.length_append, same]
    omega

/-- A new value of the same length makes the number of the string smaller every
time, or larger every time. -/
theorem replaceLoop_of_length {oldValue newValue : List UInt8}
    (same : newValue.length = oldValue.length) (absent : findValue oldValue newValue = none)
    (str : List UInt8) :
    Exists fun rounds => Exists fun result =>
      replaceLoop oldValue newValue rounds str = some result ∧ ¬ oldValue <:+: result := by
  rcases Nat.lt_trichotomy (LittleEndian.decode newValue) (LittleEndian.decode oldValue) with
    smaller | equal | larger
  · refine replaceLoop_of_measure _ _ id LittleEndian.decode ?_ str
    intro src pos (found : findValue oldValue src = some pos)
    rcases (decode_replaceAt found same).2 with ⟨weight, positive, change⟩
    have product := Nat.mul_lt_mul_of_pos_left smaller positive
    have decreased : LittleEndian.decode (replaceAt src pos oldValue.length newValue) <
        LittleEndian.decode src := by
      omega
    exact ⟨_, rfl, decreased⟩
  · have values : newValue = oldValue := by
      rw [← LittleEndian.encode_decode newValue, same, equal, LittleEndian.encode_decode]
    rw [values] at absent
    exact absurd List.infix_rfl (findValue_none.mp absent)
  · refine replaceLoop_of_measure _ _ id
      (fun src => 256 ^ src.length - LittleEndian.decode src) ?_ str
    intro src pos (found : findValue oldValue src = some pos)
    rcases decode_replaceAt found same with ⟨length, weight, positive, change⟩
    have product := Nat.mul_lt_mul_of_pos_left larger positive
    have bound := LittleEndian.decode_lt (replaceAt src pos oldValue.length newValue)
    rw [length] at bound
    have decreased : 256 ^ (replaceAt src pos oldValue.length newValue).length -
          LittleEndian.decode (replaceAt src pos oldValue.length newValue) <
        256 ^ src.length - LittleEndian.decode src := by
      rw [length]
      omega
    exact ⟨_, rfl, decreased⟩

/-! ## Depths -/

/-- The bytes of an occurrence. -/
def occurrence (oldValue : List UInt8) (letters : List (UInt8 × Nat)) (pos : Nat) :
    List (UInt8 × Nat) :=
  (letters.drop pos).take oldValue.length

/-- The string of the loop after some rounds, with the depths of its bytes. -/
inductive Searched (oldValue newValue str : List UInt8) : Nat -> List (UInt8 × Nat) -> Prop
  | start : Searched oldValue newValue str 0 (atDepth 0 str)
  | replace {rounds : Nat} {letters : List (UInt8 × Nat)} {pos : Nat} :
      Searched oldValue newValue str rounds letters ->
      findValue oldValue (text letters) = some pos ->
      Searched oldValue newValue str (rounds + 1)
        (letters.take pos ++ atDepth (least (occurrence oldValue letters pos) + 1) newValue ++
          letters.drop (pos + oldValue.length))

/-- Every occurrence that the loop replaces has a byte of bounded depth. -/
def Shallow (oldValue newValue str : List UInt8) : Prop :=
  Exists fun bound => forall rounds letters pos,
    Searched oldValue newValue str rounds letters ->
      findValue oldValue (text letters) = some pos -> least (occurrence oldValue letters pos) ≤ bound

section

variable {oldValue newValue str : List UInt8} {rounds pos : Nat} {letters : List (UInt8 × Nat)}

theorem text_occurrence (found : findValue oldValue (text letters) = some pos) :
    text (occurrence oldValue letters pos) = oldValue := by
  have here := findValue_some found
  rw [text, ← List.map_drop, ← List.map_take] at here
  exact here

theorem text_replace (depth : Nat) :
    text (letters.take pos ++ atDepth depth newValue ++ letters.drop (pos + oldValue.length)) =
      replaceAt (text letters) pos oldValue.length newValue := by
  rw [text_append, text_append, text_atDepth, replaceAt]
  simp only [text, List.map_take, List.map_drop]

/-- The loop goes on from where it is after some rounds. -/
theorem Searched.loop (searched : Searched oldValue newValue str rounds letters) (more : Nat) :
    replaceLoop oldValue newValue (more + rounds) str =
      replaceLoop oldValue newValue more (text letters) := by
  induction searched generalizing more with
  | start => rw [text_atDepth, Nat.add_zero]
  | @replace rounds letters pos searched found inductionHypothesis =>
      rw [← Nat.add_assoc, Nat.add_right_comm, inductionHypothesis (more + 1), replaceLoop, found,
        text_replace]

theorem Searched.depth (searched : Searched oldValue newValue str rounds letters) :
    forall letter, letter ∈ letters -> letter.2 ≤ rounds := by
  induction searched with
  | start =>
      intro letter member
      rcases List.mem_map.mp member with ⟨_, _, rfl⟩
      exact Nat.le_refl 0
  | @replace rounds letters pos searched found inductionHypothesis =>
      have below : least (occurrence oldValue letters pos) ≤ rounds := by
        by_cases empty : occurrence oldValue letters pos = []
        · rw [empty]
          exact Nat.zero_le rounds
        · rcases least_mem empty with ⟨letter, member, depth⟩
          rw [← depth]
          exact inductionHypothesis letter (List.mem_of_mem_drop (List.mem_of_mem_take member))
      intro letter member
      rcases List.mem_append.mp member with front | back
      · rcases List.mem_append.mp front with before | inserted
        · exact Nat.le_succ_of_le (inductionHypothesis letter (List.mem_of_mem_take before))
        · rcases List.mem_map.mp inserted with ⟨_, _, rfl⟩
          exact Nat.succ_le_succ below
      · exact Nat.le_succ_of_le (inductionHypothesis letter (List.mem_of_mem_drop back))

theorem replaceLoop_more {src result : List UInt8}
    (returned : replaceLoop oldValue newValue rounds src = some result) (more : Nat) :
    replaceLoop oldValue newValue (rounds + more) src = some result := by
  induction rounds generalizing src with
  | zero => cases returned
  | succ rounds inductionHypothesis =>
      rw [Nat.succ_add, replaceLoop]
      rw [replaceLoop] at returned
      cases found : findValue oldValue src with
      | none =>
          rw [found] at returned
          exact returned
      | some pos =>
          rw [found] at returned
          exact inductionHypothesis returned

end

/-- The loop ends exactly when the depths are bounded. -/
theorem replaceLoop_iff {oldValue newValue : List UInt8}
    (absent : findValue oldValue newValue = none) (str : List UInt8) :
    (Exists fun rounds => Exists fun result =>
        replaceLoop oldValue newValue rounds str = some result ∧ ¬ oldValue <:+: result) <->
      Shallow oldValue newValue str := by
  constructor
  · rintro ⟨bound, result, returned, _⟩
    refine ⟨bound, ?_⟩
    intro rounds letters pos searched found
    have few : rounds ≤ bound := by
      rcases Nat.le_total rounds bound with below | above
      · exact below
      · have late := replaceLoop_more returned (rounds - bound)
        have going := searched.loop 0
        rw [Nat.add_sub_cancel' above] at late
        rw [Nat.zero_add, late] at going
        cases going
    by_cases empty : occurrence oldValue letters pos = []
    · rw [empty]
      exact Nat.zero_le bound
    · rcases least_mem empty with ⟨letter, member, depth⟩
      rw [← depth]
      have deep := searched.depth letter (List.mem_of_mem_drop (List.mem_of_mem_take member))
      exact Nat.le_trans deep few
  · rintro ⟨bound, shallow⟩
    have ended := replaceLoop_of_measure oldValue newValue
      (fun state : { letters // Exists fun rounds => Searched oldValue newValue str rounds letters } =>
        text state.1)
      (fun state => weight newValue.length bound state.1) ?_ ⟨_, 0, .start⟩
    · rw [text_atDepth] at ended
      exact ended
    · rintro ⟨letters, rounds, searched⟩ pos found
      have nonempty : occurrence oldValue letters pos ≠ [] := by
        intro empty
        have same := text_occurrence found
        rw [empty] at same
        rw [← same] at absent
        exact findValue_none.mp absent List.nil_infix
      refine ⟨⟨_, rounds + 1, .replace searched found⟩, text_replace _, ?_⟩
      have lighter := weight_lt (letters.take pos) (letters.drop (pos + oldValue.length)) newValue
        nonempty (shallow rounds letters pos searched found)
      rw [occurrence, split_at_found] at lighter
      exact lighter

/-- `replace_all` does what it is for exactly when it returns at once or the
insertions are nested to a bounded depth. -/
theorem replaceAll_replaces_iff (str oldValue newValue : List UInt8) :
    Replaces str oldValue newValue <->
      oldValue <:+: newValue ∨ Shallow oldValue newValue str := by
  cases absent : findValue oldValue newValue with
  | some pos =>
      have contains : oldValue <:+: newValue := by
        apply Classical.byContradiction
        intro missing
        rw [findValue_none.mpr missing] at absent
        cases absent
      refine iff_of_true ⟨0, str, ?_, ?_⟩ (.inl contains)
      · rw [replaceAll, absent]
      · intro missing
        rw [absent] at missing
        cases missing
  | none =>
      rw [← replaceLoop_iff absent]
      constructor
      · rintro ⟨rounds, result, returned, free⟩
        rw [replaceAll, absent] at returned
        exact .inr ⟨rounds, result, returned, free absent⟩
      · rintro (contains | ⟨rounds, result, returned, free⟩)
        · exact absurd contains (findValue_none.mp absent)
        · refine ⟨rounds, result, ?_, fun _ => free⟩
          rw [replaceAll, absent]
          exact returned

theorem Searched.produced {oldValue newValue str : List UInt8} {rounds : Nat}
    {letters : List (UInt8 × Nat)} (searched : Searched oldValue newValue str rounds letters) :
    Produced oldValue newValue str letters := by
  induction searched with
  | start => exact .start
  | @replace rounds letters pos searched found inductionHypothesis =>
      apply Produced.replace _ (occurrence oldValue letters pos) _ _ (text_occurrence found)
      rw [occurrence, split_at_found]
      exact inductionHypothesis

theorem shallow_of_anchored {oldValue newValue str : List UInt8}
    (anchored : Anchored oldValue newValue str) : Shallow oldValue newValue str := by
  refine ⟨0, ?_⟩
  intro rounds letters pos searched found
  apply Nat.le_of_eq
  apply anchored (letters.take pos) _ (letters.drop (pos + oldValue.length)) _ (text_occurrence found)
  rw [occurrence, split_at_found]
  exact searched.produced

/-- Two values for which the loop ends on every string: some byte is rarer in the
new one, or it is as long as the old one, or they do not overlap on one of the
sides. -/
theorem shallow_of_values {oldValue newValue : List UInt8}
    (absent : findValue oldValue newValue = none)
    (values : (Exists fun byte => newValue.count byte < oldValue.count byte) ∨
      newValue.length = oldValue.length ∨ ¬ Overlaps newValue oldValue ∨
      ¬ Overlaps newValue.reverse oldValue.reverse) (str : List UInt8) :
    Shallow oldValue newValue str := by
  have contained := findValue_none.mp absent
  rcases values with ⟨byte, fewer⟩ | same | free | free
  · exact (replaceLoop_iff absent str).mp (replaceLoop_of_count fewer str)
  · exact (replaceLoop_iff absent str).mp (replaceLoop_of_length same absent str)
  · exact shallow_of_anchored (anchored_of_not_overlaps contained free str)
  · exact shallow_of_anchored (anchored_of_not_overlaps_reverse contained free str)

/-- A space becomes "%20". -/
example : replaceAll 2 [97, 32, 98] [32] [37, 50, 48] = some [97, 37, 50, 48, 98] := by
  decide

/-! ## A loop that does not end -/

section

variable {newValue : List UInt8}

/-- Letters "b" in front of a string contain no "ab". -/
theorem findValue_behind (m : Nat) (src : List UInt8) :
    findValue [97, 98] (List.replicate m 98 ++ src) = (findValue [97, 98] src).map (· + m) := by
  induction m with
  | zero => exact Option.map_id'.symm
  | succ m inductionHypothesis =>
      have other : ¬ (98 :: (List.replicate m 98 ++ src)).take 2 = [97, 98] := by
        simp
      rw [List.replicate_succ, List.cons_append, findValue]
      change (if (98 :: (List.replicate m 98 ++ src)).take 2 = [97, 98] then _ else _) = _
      rw [if_neg other, inductionHypothesis, Option.map_map]
      rfl

theorem replaceLoop_behind {src : List UInt8} (pos : Nat)
    (found : findValue [97, 98] src = some pos) (rounds m : Nat) :
    replaceLoop [97, 98] newValue (rounds + 1) (List.replicate m 98 ++ src) =
      replaceLoop [97, 98] newValue rounds (List.replicate m 98 ++ replaceAt src pos 2 newValue) := by
  have place : replaceAt (List.replicate m 98 ++ src) (pos + m) 2 newValue =
      List.replicate m 98 ++ replaceAt src pos 2 newValue := by
    have taken := @List.take_length_add_append _ (List.replicate m 98) src pos
    have dropped := @List.drop_length_add_append _ (List.replicate m 98) src (pos + 2)
    rw [List.length_replicate] at taken dropped
    rw [replaceAt, replaceAt, Nat.add_comm pos m, taken, Nat.add_assoc, dropped]
    simp only [List.append_assoc]
  rw [replaceLoop, findValue_behind, found]
  exact congrArg (replaceLoop [97, 98] newValue rounds) place

end

/-- From "abb" two replacements lead to a longer string around another "abb". -/
theorem replaceLoop_abb (rounds m : Nat) (tail : List UInt8) :
    replaceLoop [97, 98] [98, 98, 97, 97] rounds (List.replicate m 98 ++ 97 :: 98 :: 98 :: tail) =
        none ∧
      replaceLoop [97, 98] [98, 98, 97, 97] rounds
        (List.replicate m 98 ++ 97 :: 97 :: 98 :: tail) = none := by
  induction rounds generalizing m tail with
  | zero => exact ⟨rfl, rfl⟩
  | succ rounds inductionHypothesis =>
      constructor
      · rw [replaceLoop_behind 0 rfl]
        have next := (inductionHypothesis (m + 2) tail).2
        rw [List.replicate_add, List.append_assoc] at next
        exact next
      · rw [replaceLoop_behind 1 rfl]
        exact (inductionHypothesis m (97 :: 97 :: tail)).1

/-- With "ab" and "bbaa", which does not contain it, the loop never ends on
"abb". -/
theorem replaceAll_abb :
    findValue [97, 98] [98, 98, 97, 97] = none ∧ ¬ Replaces [97, 98, 98] [97, 98] [98, 98, 97, 97] := by
  refine ⟨by decide, ?_⟩
  rintro ⟨rounds, result, returned, _⟩
  have endless := (replaceLoop_abb rounds 0 []).1
  have loop : replaceAll rounds [97, 98, 98] [97, 98] [98, 98, 97, 97] =
      replaceLoop [97, 98] [98, 98, 97, 97] rounds [97, 98, 98] := rfl
  rw [loop, show ([97, 98, 98] : List UInt8) = List.replicate 0 98 ++ 97 :: 98 :: 98 :: [] from rfl,
    endless] at returned
  cases returned

end DarkEden
end ServerTech

import ServerTech.BipBuffer.Interface
import ServerTech.Foundation.Insertion

namespace ServerTech

/-!
# Space queries are exact and invisible

`GetSpace` is a `const` member, and a `Write` that returns false stores
nothing, but both may open region B.  Two buffers that would be the same after
a space query are told apart by none of the calls below, so neither of the two
is noticed by the calls around it.
-/

namespace Method

/-- The calls that neither return a pointer nor go through one. -/
def Plain : Method -> Prop
  | .write _ | .read _ | .remove _ | .getSpace | .getSize | .getContiguiousBytes => True
  | .getBuffer | .getBufferStart | .store _ | .incrementWritten _ => False

instance decidablePlain (method : Method) : Decidable method.Plain :=
  match method with
  | .write _ | .read _ | .remove _ | .getSpace | .getSize | .getContiguiousBytes =>
      inferInstanceAs (Decidable True)
  | .getBuffer | .getBufferStart | .store _ | .incrementWritten _ =>
      inferInstanceAs (Decidable False)

/-- A space query, or a write that returned false. -/
def Silent : Method -> Reply -> Prop
  | .getSpace, _ => True
  | .write _, .flag false => True
  | _, _ => False

end Method

namespace BipBuffer

open Transition Insertion

/-! ## What a space query changes -/

theorem opened_opened (b : BipBuffer) : b.opened.opened = b.opened := by
  rcases opened_cases b with ⟨same, _⟩ | ⟨same, _, _⟩
  · rw [same, same]
  · rw [same]
    rfl

theorem space_opened (b : BipBuffer) : b.opened.space = b.space := by
  rw [space_eq_free, space_eq_free, opened_opened]

theorem getSize_opened (b : BipBuffer) : b.opened.getSize = b.getSize := by
  rcases opened_fields b with ⟨_, allocated, _, _, sizeA, sizeB⟩
  rw [getSize, getSize, allocated, sizeA, sizeB]

theorem getContiguiousBytes_opened (b : BipBuffer) :
    b.opened.getContiguiousBytes = b.getContiguiousBytes := by
  rcases opened_fields b with ⟨_, allocated, _, _, sizeA, sizeB⟩
  rw [getContiguiousBytes, getContiguiousBytes, allocated, sizeA, sizeB]

/-- Dropping bytes after a space query: either region A is used up and an empty
region B goes with it, or the gap below region A is bigger than before. -/
theorem dropFront_opened (b : BipBuffer) (n : Nat) (valid : b.Valid) :
    (b.opened.dropFront n).opened = (b.dropFront n).opened := by
  rcases opened_cases b with ⟨same, _⟩ | ⟨same, null, bigger⟩
  · rw [same]
  · have fits := valid.fitsA
    rw [same, dropFront, dropFront]
    by_cases before : n < b.regionASize
    · have still : ¬ b.bufferEnd - (b.regionAPtr + n) - (b.regionASize - n) ≥ b.regionAPtr + n := by
        simp only [getAFreeSpace, getSpaceBeforeA] at bigger
        omega
      rw [if_pos (show n < b.allocateB.regionASize from before), if_pos before]
      simp only [opened, getSpace, allocateB, null, getAFreeSpace, getSpaceBeforeA,
        if_pos (Nat.lt_of_not_le still)]
    · rw [if_neg (show ¬ n < b.allocateB.regionASize from before), if_neg before]
      rfl

/-! ## Buffers that only a space query can tell apart -/

/-- Both buffers are in order, and a space query makes them the same. -/
structure Alike (left right : BipBuffer) : Prop where
  validLeft : left.Valid
  validRight : right.Valid
  opened : left.opened = right.opened

namespace Alike

variable {left right : BipBuffer}

theorem refl (valid : left.Valid) : left.Alike left :=
  ⟨valid, valid, rfl⟩

theorem content_eq (alike : left.Alike right) : left.content = right.content := by
  rw [← opened_content left, alike.opened, opened_content]

theorem space_eq (alike : left.Alike right) : left.space = right.space := by
  rw [← space_opened left, alike.opened, space_opened]

theorem dropFront (alike : left.Alike right) (n : Nat) :
    (left.dropFront n).Alike (right.dropFront n) where
  validLeft := alike.validLeft.dropFront n
  validRight := alike.validRight.dropFront n
  opened := by
    rw [← dropFront_opened left n alike.validLeft, alike.opened,
      dropFront_opened right n alike.validRight]

/-- A space query on one side only. -/
theorem openedLeft (alike : left.Alike right) : left.opened.Alike right where
  validLeft := alike.validLeft.opened
  validRight := alike.validRight
  opened := (opened_opened left).trans alike.opened

/-- Alike buffers answer every plain call alike. -/
theorem invoke (alike : left.Alike right) (method : Method) (plain : method.Plain) :
    Exists fun reply => Exists fun leftAfter => Exists fun rightAfter =>
      left.invoke method = some (reply, leftAfter) ∧
      right.invoke method = some (reply, rightAfter) ∧ leftAfter.Alike rightAfter := by
  have validLeft := alike.validLeft
  have validRight := alike.validRight
  have same : left.opened.Alike right.opened :=
    alike.opened ▸ Alike.refl validLeft.opened
  cases method with
  | write data =>
      simp only [BipBuffer.invoke, validLeft.write_eq, validRight.write_eq, Option.map_some,
        ← alike.space_eq]
      by_cases room : data.length ≤ left.space
      · have fits : data.length ≤ left.opened.free := space_eq_free left ▸ room
        rw [if_pos room, if_pos room, ← alike.opened]
        exact ⟨_, _, _, rfl, rfl, Alike.refl (validLeft.opened.push fits)⟩
      · rw [if_neg room, if_neg room]
        exact ⟨_, _, _, rfl, rfl, same⟩
  | read bytes =>
      simp only [BipBuffer.invoke, validLeft.read_eq, validRight.read_eq, Option.map_some,
        ← alike.content_eq]
      by_cases within : bytes ≤ left.content.length
      · rw [if_pos within, if_pos within]
        exact ⟨_, _, _, rfl, rfl, alike.dropFront bytes⟩
      · rw [if_neg within, if_neg within]
        exact ⟨_, _, _, rfl, rfl, alike⟩
  | remove len =>
      simp only [BipBuffer.invoke, validLeft.remove_eq, validRight.remove_eq, Option.map_some,
        ← alike.content_eq]
      exact ⟨_, _, _, rfl, rfl, alike.dropFront _⟩
  | getSpace =>
      have space : right.getSpace.1 = left.getSpace.1 := alike.space_eq.symm
      simp only [BipBuffer.invoke, space]
      exact ⟨_, _, _, rfl, rfl, same⟩
  | getSize =>
      have size : right.getSize = left.getSize := by
        rw [← getSize_opened right, ← alike.opened, getSize_opened]
      simp only [BipBuffer.invoke, size]
      exact ⟨_, _, _, rfl, rfl, alike⟩
  | getContiguiousBytes =>
      have contiguious : right.getContiguiousBytes = left.getContiguiousBytes := by
        rw [← getContiguiousBytes_opened right, ← alike.opened, getContiguiousBytes_opened]
      simp only [BipBuffer.invoke, contiguious]
      exact ⟨_, _, _, rfl, rfl, alike⟩
  | getBuffer => exact absurd plain not_false
  | getBufferStart => exact absurd plain not_false
  | store data => exact absurd plain not_false
  | incrementWritten len => exact absurd plain not_false

/-- A silent call does no more than a space query. -/
theorem silent (alike : left.Alike right) {method : Method} {reply : Reply} {after : BipBuffer}
    (returned : left.invoke method = some (reply, after)) (silent : method.Silent reply) :
    after.Alike right := by
  cases method with
  | write data =>
      simp only [BipBuffer.invoke, alike.validLeft.write_eq, Option.map_some] at returned
      by_cases room : data.length ≤ left.space
      · rw [if_pos room] at returned
        cases returned
        exact absurd silent not_false
      · rw [if_neg room] at returned
        cases returned
        exact alike.openedLeft
  | getSpace =>
      cases returned
      exact alike.openedLeft
  | read | remove | getSize | getContiguiousBytes | getBuffer | getBufferStart | store
  | incrementWritten => exact absurd silent not_false

end Alike

theorem invisible : Invisible invoke Method.Plain Method.Silent Alike where
  same := fun _ _ method alike plain => alike.invoke method plain
  skip := fun _ _ _ _ _ alike _ returned silent => alike.silent returned silent

/-! ## Every reachable buffer -/

/-- In every state that a client reaches, a write succeeds exactly when its
data fits in what `GetSpace` returns there.  Whatever plain calls follow, with
any of them marked as inserted, all of them return; when the inserted ones are
space queries and writes that return false, the others return what they would
have returned without them. -/
theorem space_exact_invisible (block : List UInt8) {b : BipBuffer} {promised : Nat}
    {earlier : List (Method × Reply)}
    (run : Run (Method.Invokes invoke) (new.allocate block, 0) earlier (b, promised)) :
    (forall data : List UInt8, Exists fun after =>
      b.invoke (.write data) = some (.flag (decide (data.length ≤ b.getSpace.1)), after)) ∧
    forall calls : List (Bool × Method), (forall call, call ∈ calls -> call.2.Plain) ->
      Exists fun replies => results invoke b (calls.map Prod.snd) = some replies ∧
        (Silently Method.Silent calls replies ->
          results invoke b (unmarked calls) =
            some (unmarked ((calls.map Prod.fst).zip replies))) := by
  have valid := (run_covered run (allocate_covered block)).valid
  refine ⟨?_, ?_⟩
  · intro data
    simp only [BipBuffer.invoke, valid.write_eq, Option.map_some]
    change Exists fun after => _ = some (Reply.flag (decide (data.length ≤ b.space)), after)
    by_cases room : data.length ≤ b.space
    · rw [if_pos room, decide_eq_true room]
      exact ⟨_, rfl⟩
    · rw [if_neg room, decide_eq_false room]
      exact ⟨_, rfl⟩
  · intro calls plain
    have plainAll : forall method, method ∈ calls.map Prod.snd -> method.Plain := by
      intro method member
      rcases List.mem_map.mp member with ⟨call, inside, rfl⟩
      exact plain call inside
    rcases invisible.answered (Alike.refl valid) plainAll with ⟨replies, returned⟩
    exact ⟨replies, returned, invisible.unnoticed (Alike.refl valid) plain returned⟩

/-- On four bytes with the last one in use, a refused write and a space query
open region B in front of a write, a read and a space query. -/
theorem space_exact_invisible_four_bytes :
    Exists fun b => Run (Method.Invokes invoke) (new.allocate [0, 0, 0, 0], 0)
        [(.write [1, 2, 3, 4], .flag true), (.read 3, .bytes (some [1, 2, 3]))] (b, 0) ∧
      (Exists fun after => b.invoke (.write [5, 6, 7, 8]) = some (.flag false, after)) ∧
      results invoke b [.write [5], .read 2, .getSpace] =
        some [.flag true, .bytes (some [4, 5]), .size 4] := by
  have run : Run (Method.Invokes invoke) (new.allocate [0, 0, 0, 0], 0)
      [(.write [1, 2, 3, 4], .flag true), (.read 3, .bytes (some [1, 2, 3]))]
      ({ memory := [1, 2, 3, 4], allocated := true, bufferEnd := 4, regionAPtr := 3,
          regionASize := 1, regionBPtr := none, regionBSize := 0 }, 0) :=
    .cons (.intro trivial rfl) (.cons (.intro trivial rfl) (.refl _))
  rcases space_exact_invisible [0, 0, 0, 0] run with ⟨exact_, unnoticed⟩
  rcases unnoticed [(true, .write [5, 6, 7, 8]), (true, .getSpace), (false, .write [5]),
    (false, .read 2), (false, .getSpace)] (by decide) with ⟨replies, returned, same⟩
  refine ⟨_, run, exact_ [5, 6, 7, 8], ?_⟩
  cases returned.symm.trans (show _ = some
    [Reply.flag false, .size 3, .flag true, .bytes (some [4, 5]), .size 4] from rfl)
  refine same ?_
  intro entry member inserted
  simp only [List.zip_cons_cons, List.zip_nil_right, List.mem_cons, List.not_mem_nil, or_false]
    at member
  rcases member with rfl | rfl | rfl | rfl | rfl
  · trivial
  · trivial
  · exact absurd inserted Bool.false_ne_true
  · exact absurd inserted Bool.false_ne_true
  · exact absurd inserted Bool.false_ne_true

end BipBuffer
end ServerTech

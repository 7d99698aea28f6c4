import Mathlib.Algebra.Ring.Nat
import Mathlib.Algebra.Ring.Int.Defs
import Mathlib.Order.Bounds.Basic
import Mathlib.Order.WithBot
import Mathlib.Order.Lattice.Nat

namespace ServerTech
namespace DarkEden

/-!
# Directory parts of paths

`ExtractFilePath` searches a path for its last backslash, its last slash and its
last colon, and keeps the path up to the largest of the three positions.  What a
failed search returns is larger than every position, and the running maximum
starts with it, so without a backslash the maximum stays there.
-/

/-! ## The function -/

/-- `find_last_of` for one byte, with the top element for `npos`. -/
def findLastOf (path : List UInt8) (symbol : UInt8) : WithTop Nat :=
  match path.reverse.findIdx? (· == symbol) with
  | some behind => WithTop.some (path.length - 1 - behind)
  | none => ⊤

def extractFilePath (path : List UInt8) : List UInt8 :=
  let posWinDelimiter := findLastOf path 92
  let posLinuxDelimiter := findLastOf path 47
  let posDriverDelimiter := findLastOf path 58
  let pos : WithTop Nat := ⊤
  let pos := if posWinDelimiter ≠ ⊤ then posWinDelimiter else pos
  let pos := if posLinuxDelimiter ≠ ⊤ then max posLinuxDelimiter pos else pos
  let pos := if posDriverDelimiter ≠ ⊤ then max posDriverDelimiter pos else pos
  match pos with
  | ⊤ => path
  | WithTop.some pos => path.take (pos + 1)

/-! ## Directory parts -/

/-- A backslash, a slash or a colon. -/
def isSymbol (byte : UInt8) : Bool :=
  byte == 92 || byte == 47 || byte == 58

/-- The last byte is one of these. -/
def EndsInSymbol (path : List UInt8) : Prop :=
  Exists fun byte => path.getLast? = some byte ∧ isSymbol byte = true

/-- The longest prefix that ends in a backslash, a slash or a colon, and the
whole path if there is none of them. -/
structure DirectoryPart (path part : List UInt8) : Prop where
  longest : (Exists fun byte => byte ∈ path ∧ isSymbol byte = true) ->
    part <+: path ∧ EndsInSymbol part ∧
      forall other, other <+: path -> EndsInSymbol other -> other.length ≤ part.length
  whole : (forall byte, byte ∈ path -> isSymbol byte = false) -> part = path

/-! ## Last positions -/

/-- The positions of bytes of a kind. -/
def places (kind : UInt8 -> Bool) (path : List UInt8) : Set Nat :=
  {position | Exists fun byte => path[position]? = some byte ∧ kind byte = true}

theorem places_or (first second : UInt8 -> Bool) (path : List UInt8) :
    places (fun byte => first byte || second byte) path = places first path ∪ places second path := by
  ext position
  simp only [places, Set.mem_ofPred_eq, Set.mem_union, Bool.or_eq_true]
  constructor
  · rintro ⟨byte, found, kind | kind⟩
    · exact .inl ⟨byte, found, kind⟩
    · exact .inr ⟨byte, found, kind⟩
  · rintro (⟨byte, found, kind⟩ | ⟨byte, found, kind⟩)
    · exact ⟨byte, found, .inl kind⟩
    · exact ⟨byte, found, .inr kind⟩

/-- A search fails, or it finds the last position. -/
theorem findLastOf_cases (path : List UInt8) (symbol : UInt8) :
    (symbol ∉ path ∧ findLastOf path symbol = ⊤) ∨
      Exists fun position : Nat => findLastOf path symbol = WithTop.some position ∧
        IsGreatest (places (· == symbol) path) position := by
  unfold findLastOf
  cases found : path.reverse.findIdx? (· == symbol) with
  | none =>
      refine .inl ⟨?_, rfl⟩
      intro member
      have absent := List.findIdx?_eq_none_iff.mp found symbol (List.mem_reverse.mpr member)
      rw [beq_self_eq_true] at absent
      cases absent
  | some behind =>
      rcases List.findIdx?_eq_some_iff_getElem.mp found with ⟨inside, hit, before⟩
      rw [List.length_reverse] at inside
      rw [List.getElem_reverse] at hit
      refine .inr ⟨path.length - 1 - behind, rfl, ?_, ?_⟩
      · exact ⟨_, List.getElem?_eq_getElem (by omega), hit⟩
      · rintro position ⟨byte, there, same⟩
        rcases List.getElem?_eq_some_iff.mp there with ⟨bound, rfl⟩
        by_contra later
        apply before (path.length - 1 - position) (by omega)
        rw [List.getElem_reverse]
        have mirrored : path.length - 1 - (path.length - 1 - position) = position := by omega
        simp only [mirrored]
        exact same

theorem isGreatest_of_none {symbol : UInt8} {path : List UInt8} {kind : UInt8 -> Bool} {position : Nat}
    (absent : symbol ∉ path) (greatest : IsGreatest (places kind path) position) :
    IsGreatest (places (fun byte => kind byte || byte == symbol) path) position := by
  have empty : places (· == symbol) path = ∅ := by
    apply Set.eq_empty_of_forall_notMem
    rintro position ⟨byte, found, same⟩
    rw [beq_iff_eq.mp same] at found
    exact absent (List.mem_of_getElem? found)
  rw [places_or, empty, Set.union_empty]
  exact greatest

/-- One more kind of byte in the running maximum. -/
theorem max_findLastOf {path : List UInt8} (symbol : UInt8) {kind : UInt8 -> Bool} {position : Nat}
    (greatest : IsGreatest (places kind path) position) :
    Exists fun next : Nat =>
      (if findLastOf path symbol ≠ ⊤ then max (findLastOf path symbol) (WithTop.some position)
        else WithTop.some position) = WithTop.some next ∧
      IsGreatest (places (fun byte => kind byte || byte == symbol) path) next := by
  rcases findLastOf_cases path symbol with ⟨absent, failed⟩ | ⟨last, found, isLast⟩
  · refine ⟨position, ?_, isGreatest_of_none absent greatest⟩
    rw [if_neg (not_not_intro failed)]
  · refine ⟨max position last, ?_, ?_⟩
    · rw [found, if_pos (WithTop.coe_ne_top), max_comm]
      exact (WithTop.coe_max position last).symm
    · rw [places_or]
      exact greatest.union isLast

theorem extractFilePath_of_backslash {path : List UInt8} (backslash : 92 ∈ path) :
    Exists fun position : Nat => IsGreatest (places isSymbol path) position ∧
      extractFilePath path = path.take (position + 1) := by
  rcases findLastOf_cases path 92 with ⟨absent, _⟩ | ⟨last, found, greatest⟩
  · exact absurd backslash absent
  · rcases max_findLastOf 47 greatest with ⟨linux, linuxFound, linuxGreatest⟩
    rcases max_findLastOf 58 linuxGreatest with ⟨driver, driverFound, driverGreatest⟩
    refine ⟨driver, driverGreatest, ?_⟩
    have running : findLastOf path 92 ≠ ⊤ := by
      rw [found]
      exact WithTop.coe_ne_top
    simp only [extractFilePath, if_pos running]
    rw [found, linuxFound, driverFound]

/-- Without a backslash the running maximum stays at the top. -/
theorem extractFilePath_of_none {path : List UInt8} (none : 92 ∉ path) :
    extractFilePath path = path := by
  rcases findLastOf_cases path 92 with ⟨_, failed⟩ | ⟨last, _, greatest⟩
  · simp only [extractFilePath, failed, ne_eq, not_true_eq_false, max_top_right, ite_self]
  · rcases greatest.1 with ⟨byte, found, same⟩
    rw [beq_iff_eq.mp same] at found
    exact absurd (List.mem_of_getElem? found) none

/-! ## The result -/

section

variable {path : List UInt8}

theorem endsInSymbol_iff (part : List UInt8) :
    EndsInSymbol part <-> part.length - 1 ∈ places isSymbol part := by
  rw [EndsInSymbol, List.getLast?_eq_getElem?]
  rfl

/-- The prefix up to the last of the three bytes. -/
theorem directoryPart_take {position : Nat} (greatest : IsGreatest (places isSymbol path) position) :
    DirectoryPart path (path.take (position + 1)) := by
  rcases greatest with ⟨⟨last, found, symbol⟩, largest⟩
  rcases List.getElem?_eq_some_iff.mp found with ⟨inside, _⟩
  have length : (path.take (position + 1)).length = position + 1 := by
    rw [List.length_take, Nat.min_eq_left (Nat.succ_le_of_lt inside)]
  constructor
  · intro _
    refine ⟨List.take_prefix _ _, ?_, ?_⟩
    · rw [endsInSymbol_iff, length]
      refine ⟨last, ?_, symbol⟩
      rw [Nat.add_sub_cancel, List.getElem?_take_of_lt (Nat.lt_succ_self position)]
      exact found
    · intro other isPrefix ends
      rcases (endsInSymbol_iff other).mp ends with ⟨byte, there, kind⟩
      have bound := (List.getElem?_eq_some_iff.mp there).1
      have below : other.length - 1 ≤ position := by
        rcases isPrefix with ⟨rest, whole⟩
        apply largest
        rw [← whole]
        exact ⟨byte, (List.getElem?_append_left bound).trans there, kind⟩
      rw [length]
      omega
  · intro clear
    have absent := clear last (List.mem_of_getElem? found)
    rw [symbol] at absent
    cases absent

/-- The whole path is its directory part exactly when it ends in one of the three
bytes or holds none of them. -/
theorem directoryPart_self_iff :
    DirectoryPart path path <->
      EndsInSymbol path ∨ forall byte, byte ∈ path -> isSymbol byte = false := by
  constructor
  · intro part
    by_cases some : Exists fun byte => byte ∈ path ∧ isSymbol byte = true
    · exact .inl (part.longest some).2.1
    · refine .inr fun byte member => ?_
      rw [Bool.eq_false_iff]
      exact fun symbol => some ⟨byte, member, symbol⟩
  · intro condition
    refine ⟨?_, fun _ => rfl⟩
    rintro ⟨byte, member, symbol⟩
    rcases condition with ends | clear
    · exact ⟨List.prefix_refl path, ends, fun other isPrefix _ => isPrefix.length_le⟩
    · rw [clear byte member] at symbol
      cases symbol

end

/-- The result is the directory part exactly when the path has a backslash, ends
in a slash or a colon, or holds none of them. -/
theorem extractFilePath_iff (path : List UInt8) :
    DirectoryPart path (extractFilePath path) <->
      92 ∈ path ∨ EndsInSymbol path ∨ 47 ∉ path ∧ 58 ∉ path := by
  by_cases backslash : 92 ∈ path
  · rcases extractFilePath_of_backslash backslash with ⟨position, greatest, result⟩
    rw [result]
    exact iff_of_true (directoryPart_take greatest) (.inl backslash)
  · rw [extractFilePath_of_none backslash, directoryPart_self_iff]
    have clear : (forall byte, byte ∈ path -> isSymbol byte = false) <-> 47 ∉ path ∧ 58 ∉ path := by
      constructor
      · intro none
        refine ⟨fun slash => ?_, fun colon => ?_⟩
        · exact absurd (none 47 slash) (by decide)
        · exact absurd (none 58 colon) (by decide)
      · rintro ⟨noSlash, noColon⟩ byte member
        simp only [isSymbol, Bool.or_eq_false_iff, beq_eq_false_iff_ne]
        refine ⟨⟨?_, ?_⟩, ?_⟩ <;> rintro rfl <;> contradiction
    rw [clear]
    simp only [backslash, false_or]

/-- The path `a/b`. -/
theorem extractFilePath_slash :
    ¬ DirectoryPart [97, 47, 98] (extractFilePath [97, 47, 98]) := by
  intro part
  rcases part.longest ⟨47, by decide, rfl⟩ with ⟨_, ⟨byte, last, symbol⟩, _⟩
  have other : byte = 98 := Option.some.inj last.symm
  rw [other] at symbol
  cases symbol

end DarkEden
end ServerTech

import ServerTech.Foundation.Octet
import ServerTech.Foundation.Utf8

namespace ServerTech
namespace DarkEden

open Utf8

/-!
# The test for UTF-8

`_IsStringUTF8` reads a string byte by byte and keeps two variables: how many
octets the current character still needs, and whether every byte so far was
ASCII.  At the first byte of a character it counts the ones the byte starts
with, and this is all it asks of the byte.  So it recognises the shaped
sequences, whatever values they hold.

The length goes through `long`, which has 32 bits.
-/

/-- The bytes of a C string before the zero that ends it. -/
structure CString where
  bytes : List UInt8
  nulFree : forall byte, byte ∈ bytes -> byte ≠ 0

namespace CString

def strlen (str : CString) : Nat :=
  str.bytes.length

/-- `(long)strlen(str)`. -/
def iLen (str : CString) : Int :=
  (str.strlen : Int).bmod (2 ^ 32)

/-- The bytes that the loop `for( i = 0; i < iLen; i++ )` looks at. -/
def scanned (str : CString) : List UInt8 :=
  str.bytes.take str.iLen.toNat

end CString

/-- The loop over the ones of a first byte.  Eight turns shift every one out. -/
def shiftOut : Nat -> UInt8 -> UInt8 -> Option UInt8
  | 0, _, _ => none
  | turns + 1, chr, cOctets =>
      if (chr <<< 1) &&& 0x80 ≠ 0 then shiftOut turns (chr <<< 1) (cOctets + 1)
      else some (cOctets + 1)

/-- The loop of `_IsStringUTF8`, without a result when it returns FALSE. -/
def scan : List UInt8 -> UInt8 -> Bool -> Option (UInt8 × Bool)
  | [], cOctets, bAllAscii => some (cOctets, bAllAscii)
  | chr :: rest, cOctets, bAllAscii =>
      let ascii := if chr &&& 0x80 ≠ 0 then false else bAllAscii
      if cOctets = 0 then
        if 0x80 ≤ chr then
          (shiftOut 8 chr cOctets).bind fun counted =>
            if counted - 1 = 0 then none else scan rest (counted - 1) ascii
        else scan rest cOctets ascii
      else if chr &&& 0xC0 ≠ 0x80 then none
      else scan rest (cOctets - 1) ascii

/-- The tests behind the loop. -/
def verdict : Option (UInt8 × Bool) -> Bool
  | none => false
  | some (cOctets, bAllAscii) => if 0 < cOctets then false else !bAllAscii

def isStringUTF8 (str : CString) : Bool :=
  verdict (scan str.scanned 0 true)

/-! ## The tests on a byte -/

theorem highBit_iff (byte : UInt8) : byte &&& 0x80 ≠ 0 <-> NonAscii byte := by
  unfold NonAscii
  revert byte
  exact Octet.forall_octet (by decide +kernel)

theorem trailing_iff (byte : UInt8) : byte &&& 0xC0 = 0x80 <-> Trailing byte := by
  unfold Trailing Within
  revert byte
  exact Octet.forall_octet (by decide +kernel)

/-- The octets to go are those the byte announces, less the byte itself. -/
theorem shiftOut_eq (byte : UInt8) :
    NonAscii byte -> shiftOut 8 byte 0 = some (UInt8.ofNat (width byte - 1) + 1) := by
  unfold NonAscii
  revert byte
  refine Octet.forall_octet ?_
  decide +kernel

theorem width_le (byte : UInt8) : width byte ≤ 8 := by
  grind [width]

theorem width_eq_one_iff (byte : UInt8) : width byte = 1 <-> ¬ NonAscii byte := by
  grind [width, NonAscii]

/-! ## The loop -/

section Scan

variable {rest : List UInt8} {chr cOctets : UInt8} {ascii : Bool}

/-- An ASCII byte between characters. -/
theorem scan_ascii (low : ¬ NonAscii chr) : scan (chr :: rest) 0 ascii = scan rest 0 ascii := by
  have test : ¬ (0x80 : UInt8) ≤ chr := fun high => low (UInt8.le_iff_toNat_le.mp high)
  rw [scan]
  simp only [if_neg (mt (highBit_iff chr).mp low), if_true, if_neg test]

/-- A first byte of several. -/
theorem scan_lead (high : NonAscii chr) :
    scan (chr :: rest) 0 ascii =
      if width chr ≤ 1 then none else scan rest (UInt8.ofNat (width chr - 1)) false := by
  have small := width_le chr
  have test : (0x80 : UInt8) ≤ chr := UInt8.le_iff_toNat_le.mpr high
  have none_ : UInt8.ofNat (width chr - 1) = 0 <-> width chr ≤ 1 := by
    rw [← UInt8.toNat_inj, UInt8.toNat_ofNat']
    simp only [UInt8.reduceToNat]
    omega
  rw [scan]
  simp only [if_pos ((highBit_iff chr).mpr high), if_true, if_pos test, shiftOut_eq chr high,
    Option.bind_some, UInt8.add_sub_cancel, none_]

/-- A byte inside a character. -/
theorem scan_inside (inside : cOctets ≠ 0) :
    scan (chr :: rest) cOctets ascii =
      if chr &&& 0xC0 = 0x80 then scan rest (cOctets - 1) false else none := by
  rw [scan]
  simp only [if_neg inside, ne_eq, ite_not]
  by_cases trails : chr &&& 0xC0 = 0x80
  · have high : NonAscii chr := ((trailing_iff chr).mp trails).1
    rw [if_pos trails, if_pos trails, if_neg ((highBit_iff chr).mpr high)]
  · rw [if_neg trails, if_neg trails]

/-- What one turn that does not return can be. -/
theorem scan_cases {out : UInt8 × Bool} (ended : scan (chr :: rest) cOctets ascii = some out) :
    (cOctets = 0 ∧ ¬ NonAscii chr ∧ scan rest 0 ascii = some out) ∨
      (cOctets = 0 ∧ NonAscii chr ∧ 2 ≤ width chr ∧
        scan rest (UInt8.ofNat (width chr - 1)) false = some out) ∨
      (cOctets ≠ 0 ∧ Trailing chr ∧ scan rest (cOctets - 1) false = some out) := by
  by_cases between : cOctets = 0
  · subst between
    by_cases high : NonAscii chr
    · rw [scan_lead high] at ended
      by_cases few : width chr ≤ 1
      · rw [if_pos few] at ended
        cases ended
      · rw [if_neg few] at ended
        exact Or.inr (Or.inl ⟨rfl, high, by omega, ended⟩)
    · rw [scan_ascii high] at ended
      exact Or.inl ⟨rfl, high, ended⟩
  · rw [scan_inside between] at ended
    by_cases trails : chr &&& 0xC0 = 0x80
    · rw [if_pos trails] at ended
      exact Or.inr (Or.inr ⟨between, (trailing_iff chr).mp trails, ended⟩)
    · rw [if_neg trails] at ended
      cases ended

/-- The loop ends with whether all bytes were ASCII. -/
theorem scan_flag {left : UInt8} {flag : Bool} (ended : scan rest cOctets ascii = some (left, flag)) :
    flag = true <-> ascii = true ∧ forall byte, byte ∈ rest -> ¬ NonAscii byte := by
  induction rest generalizing cOctets ascii with
  | nil =>
      cases ended
      simp
  | cons chr rest inductionHypothesis =>
      rcases scan_cases ended with ⟨_, low, later⟩ | ⟨_, high, _, later⟩ | ⟨_, trails, later⟩
      · rw [inductionHypothesis later, List.forall_mem_cons]
        exact ⟨fun facts => ⟨facts.1, low, facts.2⟩, fun facts => ⟨facts.1, facts.2.2⟩⟩
      · rw [inductionHypothesis later, List.forall_mem_cons]
        exact ⟨fun facts => absurd facts.1 (by decide), fun facts => absurd high facts.2.1⟩
      · rw [inductionHypothesis later, List.forall_mem_cons]
        exact ⟨fun facts => absurd facts.1 (by decide), fun facts => absurd trails.1 facts.2.1⟩

/-- A loop that ends between characters has seen the rest of a character and
then a shaped sequence. -/
theorem scan_sequence {flag : Bool} (ended : scan rest cOctets ascii = some (0, flag)) :
    Exists fun trail => Exists fun later => rest = trail ++ later ∧
      trail.length = cOctets.toNat ∧ (forall byte, byte ∈ trail -> Trailing byte) ∧
      Sequence Shaped later := by
  induction rest generalizing cOctets ascii with
  | nil =>
      cases ended
      exact ⟨[], [], rfl, rfl, fun _ member => (nomatch member), [], fun _ member => (nomatch member), rfl⟩
  | cons chr rest inductionHypothesis =>
      rcases scan_cases ended with ⟨rfl, low, next⟩ | ⟨rfl, high, announces, next⟩ | ⟨inside, trails, next⟩
      · rcases inductionHypothesis next with ⟨trail, later, rfl, length, _, shaped⟩
        cases List.length_eq_zero_iff.mp length
        refine ⟨[], chr :: later, rfl, rfl, fun _ member => (nomatch member), ?_⟩
        have one : Shaped [chr] :=
          ⟨(width_eq_one_iff chr).mpr low, fun _ member => (nomatch member)⟩
        exact Sequence.cons one shaped
      · rcases inductionHypothesis next with ⟨trail, later, rfl, length, trailing, shaped⟩
        refine ⟨[], chr :: (trail ++ later), rfl, rfl, fun _ member => (nomatch member), ?_⟩
        have small := width_le chr
        rw [UInt8.toNat_ofNat'] at length
        have one : Shaped (chr :: trail) := ⟨by omega, trailing⟩
        exact Sequence.cons one shaped
      · rcases inductionHypothesis next with ⟨trail, later, rfl, length, trailing, shaped⟩
        refine ⟨chr :: trail, later, rfl, ?_, List.forall_mem_cons.mpr ⟨trails, trailing⟩, shaped⟩
        have positive : cOctets.toNat ≠ 0 := fun zero => inside (UInt8.toNat_inj.mp zero)
        rw [UInt8.toNat_sub_of_le _ _ (UInt8.le_iff_toNat_le.mpr (by
          simp only [UInt8.reduceToNat]; omega))] at length
        rw [List.length_cons, length]
        simp only [UInt8.reduceToNat]
        omega

/-- The bytes that a character still needs take the loop to its end. -/
theorem scan_trail {trail : List UInt8} (trailing : forall byte, byte ∈ trail -> Trailing byte)
    (few : trail.length < 256) :
    scan (trail ++ rest) (UInt8.ofNat trail.length) false = scan rest 0 false := by
  induction trail with
  | nil => rfl
  | cons chr trail inductionHypothesis =>
      rw [List.forall_mem_cons] at trailing
      rw [List.length_cons] at few
      have inside : UInt8.ofNat (trail.length + 1) ≠ 0 := by
        rw [ne_eq, ← UInt8.toNat_inj, UInt8.toNat_ofNat']
        simp only [UInt8.reduceToNat]
        omega
      have left : UInt8.ofNat (trail.length + 1) - 1 = UInt8.ofNat trail.length := by
        rw [UInt8.ofNat_add]
        exact UInt8.add_sub_cancel _ 1
      rw [List.cons_append, List.length_cons, scan_inside inside,
        if_pos ((trailing_iff chr).mpr trailing.1), left]
      exact inductionHypothesis trailing.2 (by omega)

/-- The loop passes over a shaped character. -/
theorem scan_shaped {bytes : List UInt8} (shaped : Shaped bytes) :
    Exists fun flag => scan (bytes ++ rest) 0 ascii = scan rest 0 flag := by
  match bytes, shaped with
  | chr :: trail, ⟨announces, trailing⟩ =>
      have small := width_le chr
      by_cases high : NonAscii chr
      · have several : ¬ width chr ≤ 1 := by
          intro few
          exact (width_eq_one_iff chr).mp (by omega) high
        refine ⟨false, ?_⟩
        rw [List.cons_append, scan_lead high, if_neg several, announces, Nat.add_sub_cancel]
        exact scan_trail trailing (by omega)
      · have one := (width_eq_one_iff chr).mpr high
        cases List.length_eq_zero_iff.mp (by omega : trail.length = 0)
        exact ⟨ascii, scan_ascii high⟩

end Scan

/-- The loop ends between characters exactly on the shaped sequences. -/
theorem scan_iff {text : List UInt8} {ascii : Bool} :
    (Exists fun flag => scan text 0 ascii = some (0, flag)) <-> Sequence Shaped text := by
  constructor
  · rintro ⟨flag, ended⟩
    rcases scan_sequence ended with ⟨trail, later, rfl, length, _, shaped⟩
    cases List.length_eq_zero_iff.mp length
    exact shaped
  · rintro ⟨characters, each, rfl⟩
    induction characters generalizing ascii with
    | nil => exact ⟨ascii, rfl⟩
    | cons bytes characters inductionHypothesis =>
        rw [List.forall_mem_cons] at each
        rcases @scan_shaped characters.flatten ascii bytes each.1 with ⟨flag, passed⟩
        rw [List.flatten_cons, passed]
        exact inductionHypothesis each.2

/-! ## The answer -/

/-- Some character of the text is not ASCII. -/
def Beyond (text : List UInt8) : Prop :=
  Exists fun byte => byte ∈ text ∧ NonAscii byte

/-- The test recognises the shaped sequences that are not all ASCII. -/
theorem verdict_iff (text : List UInt8) :
    verdict (scan text 0 true) = true <-> Sequence Shaped text ∧ Beyond text := by
  rw [← @scan_iff text true]
  cases ended : scan text 0 true with
  | none => simp [verdict]
  | some out =>
      rcases out with ⟨left, flag⟩
      have beyond : Beyond text <-> flag = false := by
        rw [← Bool.not_eq_true, scan_flag ended, Beyond]
        simp
      rw [beyond, verdict]
      by_cases zero : left = 0
      · subst zero
        simp
      · have positive : 0 < left := UInt8.pos_iff_ne_zero.mpr zero
        simp [positive, zero]

/-- Below 2 GiB the loop looks at the whole string. -/
theorem scanned_of_short {str : CString} (short : str.strlen < 2 ^ 31) : str.scanned = str.bytes := by
  have whole : str.iLen = str.strlen := by
    unfold CString.iLen
    rw [Int.bmod_def]
    omega
  rw [CString.scanned, whole, Int.toNat_natCast]
  exact List.take_length

/-- When the test is right.  A string below 2 GiB must not be a shaped sequence
with an irregular character.  Of a longer one the loop looks at a part, which
must be a shaped sequence that is not all ASCII if the string is well-formed
and not all ASCII, and only then. -/
structure Decides (str : CString) : Prop where
  short : str.strlen < 2 ^ 31 -> ¬ HasIrregular str.bytes
  whole : 2 ^ 31 ≤ str.strlen -> WellFormed str.bytes -> Beyond str.bytes ->
    Sequence Shaped str.scanned ∧ Beyond str.scanned
  part : 2 ^ 31 ≤ str.strlen -> Sequence Shaped str.scanned -> Beyond str.scanned ->
    WellFormed str.bytes

/-- The test is right exactly on the strings that `Decides` describes. -/
theorem isStringUTF8_iff (str : CString) :
    (isStringUTF8 str = true <-> WellFormed str.bytes ∧ Beyond str.bytes) <-> Decides str := by
  rw [isStringUTF8, verdict_iff]
  by_cases short : str.strlen < 2 ^ 31
  · rw [scanned_of_short short, wellFormed_iff_shaped]
    constructor
    · intro right
      refine ⟨fun _ irregular => ?_, fun long => absurd short (Nat.not_lt.mpr long),
        fun long => absurd short (Nat.not_lt.mpr long)⟩
      exact (right.mp ⟨irregular.shaped, irregular.nonAscii⟩).1.2 irregular
    · intro judged
      exact ⟨fun seen => ⟨⟨seen.1, judged.short short⟩, seen.2⟩, fun good => ⟨good.1.1, good.2⟩⟩
  · constructor
    · intro right
      exact ⟨fun below => absurd below short, fun _ good beyond => right.mpr ⟨good, beyond⟩,
        fun _ seen beyond => (right.mp ⟨seen, beyond⟩).1⟩
    · intro judged
      have long := Nat.not_lt.mp short
      refine ⟨fun seen => ⟨judged.part long seen.1 seen.2, ?_⟩, fun good => judged.whole long good.1 good.2⟩
      rcases seen.2 with ⟨byte, member, high⟩
      exact ⟨byte, List.mem_of_mem_take member, high⟩

/-- FF and seven trailing bytes. -/
def eight : CString where
  bytes := 0xFF :: List.replicate 7 0x80
  nulFree := by
    intro byte member
    rcases List.mem_cons.mp member with rfl | rest
    · decide
    · rw [List.eq_of_mem_replicate rest]
      decide

/-- They pass the test. -/
theorem isStringUTF8_eight :
    ¬ forall str : CString, isStringUTF8 str = true <-> WellFormed str.bytes ∧ Beyond str.bytes := by
  intro claim
  have right := (claim eight).mp (by decide)
  refine (wellFormed_iff_shaped.mp right.1).2
    ⟨[0xFF :: List.replicate 7 0x80], ?_, rfl, _, List.mem_singleton_self _, Or.inr (Or.inl (by decide))⟩
  intro bytes member
  rw [List.mem_singleton.mp member]
  refine ⟨by decide, fun byte trailing => ?_⟩
  rw [List.eq_of_mem_replicate trailing]
  exact ⟨by decide, by decide⟩

end DarkEden
end ServerTech

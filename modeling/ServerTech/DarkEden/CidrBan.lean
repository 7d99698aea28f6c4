import ServerTech.Foundation.Block
import ServerTech.Foundation.LittleEndian
import ServerTech.Foundation.Octet
import ServerTech.Foundation.Prefix

namespace ServerTech
namespace DarkEden

open Octet Prefix

/-!
# CIDR bans

`ParseCIDRBan` looks at two addresses through byte pointers.  It compares the
whole octets with `memcmp` and the bits that are left through a table of masks.
On a little-endian machine the first octet is in the lowest bits of an address,
which is where `MakeIP` puts the first number of a dotted quad.
-/

/-- The four bytes at the address of a variable. -/
def octets (address : UInt32) : List UInt8 :=
  LittleEndian.encode 4 address.toNat

/-- `memcmp` of two ranges of one length. -/
def memcmp : List UInt8 -> List UInt8 -> Int
  | first :: firsts, second :: seconds =>
      if first = second then memcmp firsts seconds else (first.toNat : Int) - second.toNat
  | _, _ => 0

/-- The table for comparing leftover bits. -/
def leftoverBitsCompare : List UInt8 :=
  [0x00, 0x80, 0xC0, 0xE0, 0xF0, 0xF8, 0xFC, 0xFE, 0xFF]

/-- The comparison of the whole octets, and of what the mask keeps of the next
one.  There is no result when an access leaves an array. -/
def compareOctets (sourceIp mask : List UInt8) (fullBytes leftoverBits : Nat) : Option Bool :=
  (Block.load sourceIp 0 fullBytes).bind fun source =>
    (Block.load mask 0 fullBytes).bind fun masked =>
      if 0 < fullBytes ∧ memcmp source masked ≠ 0 then some false
      else if 0 < leftoverBits then
        sourceIp[fullBytes]?.bind fun sourceByte =>
          mask[fullBytes]?.bind fun maskByte =>
            leftoverBitsCompare[leftoverBits]?.map fun bits =>
              decide (sourceByte &&& bits = maskByte &&& bits)
      else some true

def parseCIDRBan (ip mask maskBits : UInt32) : Option Bool :=
  if 32 < maskBits then some false
  else compareOctets (octets ip) (octets mask) (maskBits.toNat / 8) (maskBits.toNat % 8)

/-- The result of `MakeIP`, with the four numbers that `sscanf` read. -/
def makeIP (first second third fourth : UInt32) : UInt32 :=
  first ||| second <<< 8 ||| third <<< 16 ||| fourth <<< 24

/-! ## The arrays -/

theorem length_octets (address : UInt32) : (octets address).length = 4 :=
  LittleEndian.length_encode 4 _

theorem leftoverBitsCompare_eq {bits : Nat} (few : bits < 8) : leftoverBitsCompare[bits]? = some (mask bits) := by
  revert bits
  decide

theorem memcmp_eq_zero_iff {first second : List UInt8} (lengths : first.length = second.length) :
    memcmp first second = 0 <-> first = second := by
  induction first generalizing second with
  | nil =>
      cases List.length_eq_zero_iff.mp lengths.symm
      exact ⟨fun _ => rfl, fun _ => rfl⟩
  | cons byte first inductionHypothesis =>
      cases second with
      | nil => cases lengths
      | cons other second =>
          rw [memcmp]
          by_cases same : byte = other
          · rw [if_pos same, inductionHypothesis (Nat.succ.inj lengths), same, List.cons.injEq]
            simp
          · have different : byte.toNat ≠ other.toNat := fun equal => same (UInt8.toNat_inj.mp equal)
            rw [if_neg same, List.cons.injEq]
            simp only [same, false_and, iff_false]
            omega

/-! ## The comparison -/

/-- The first `count` bits of two addresses are equal, each octet read from its
most significant bit. -/
def SamePrefix (count : Nat) (first second : UInt32) : Prop :=
  Agree bits count (octets first) (octets second)

instance (count : Nat) (first second : UInt32) : Decidable (SamePrefix count first second) :=
  inferInstanceAs (Decidable (List.take _ _ = List.take _ _))

/-- Whole octets first, then the bits that are left. -/
theorem agree_cut {sourceIp mask : List UInt8} (lengths : sourceIp.length = mask.length)
    {fullBytes : Nat} (inside : fullBytes ≤ sourceIp.length) (leftoverBits : Nat) :
    Agree bits (8 * fullBytes + leftoverBits) sourceIp mask <->
      sourceIp.take fullBytes = mask.take fullBytes ∧
        Agree bits leftoverBits (sourceIp.drop fullBytes) (mask.drop fullBytes) := by
  have front : (sourceIp.take fullBytes).length = fullBytes := List.length_take_of_le inside
  have other : (mask.take fullBytes).length = fullBytes :=
    List.length_take_of_le (Nat.le_trans inside (Nat.le_of_eq lengths))
  have whole := @agree_append _ _ bits 8 length_bits bits_injective (sourceIp.take fullBytes)
    (mask.take fullBytes) (sourceIp.drop fullBytes) (mask.drop fullBytes) (front.trans other.symm)
    leftoverBits
  rw [front, List.take_append_drop, List.take_append_drop] at whole
  exact whole

/-- The comparison of the bits that are left, at an octet of both addresses. -/
theorem leftover_iff {sourceIp mask : List UInt8} {fullBytes : Nat} {sourceByte maskByte : UInt8}
    (source : sourceIp[fullBytes]? = some sourceByte) (masked : mask[fullBytes]? = some maskByte)
    {leftoverBits : Nat} (few : leftoverBits < 8) :
    sourceByte &&& Octet.mask leftoverBits = maskByte &&& Octet.mask leftoverBits <->
      Agree bits leftoverBits (sourceIp.drop fullBytes) (mask.drop fullBytes) := by
  rcases List.getElem?_eq_some_iff.mp source with ⟨inside, rfl⟩
  rcases List.getElem?_eq_some_iff.mp masked with ⟨within, rfl⟩
  rw [List.drop_eq_getElem_cons inside, List.drop_eq_getElem_cons within,
    agree_cons length_bits (Nat.le_of_lt few), and_mask_eq_iff _ _ few]

/-- Inside the arrays the function compares prefixes. -/
theorem compareOctets_iff {sourceIp mask : List UInt8} (lengths : sourceIp.length = mask.length)
    {fullBytes leftoverBits : Nat} (few : leftoverBits < 8) (inside : fullBytes ≤ sourceIp.length)
    (next : 0 < leftoverBits -> fullBytes < sourceIp.length) :
    Exists fun hit => compareOctets sourceIp mask fullBytes leftoverBits = some hit ∧
      (hit = true <-> Agree bits (8 * fullBytes + leftoverBits) sourceIp mask) := by
  have source : Block.load sourceIp 0 fullBytes = some (sourceIp.take fullBytes) :=
    Block.load_eq_some sourceIp (by omega)
  have masked : Block.load mask 0 fullBytes = some (mask.take fullBytes) :=
    Block.load_eq_some mask (by omega)
  have same : (0 < fullBytes ∧ memcmp (sourceIp.take fullBytes) (mask.take fullBytes) ≠ 0) <->
      ¬ sourceIp.take fullBytes = mask.take fullBytes := by
    rw [ne_eq, memcmp_eq_zero_iff (by rw [List.length_take, List.length_take, lengths])]
    constructor
    · exact And.right
    · intro different
      refine ⟨Nat.pos_of_ne_zero fun zero => different ?_, different⟩
      rw [zero, List.take_zero, List.take_zero]
  rw [agree_cut lengths inside, compareOctets, source, masked, Option.bind_some, Option.bind_some]
  by_cases equal : sourceIp.take fullBytes = mask.take fullBytes
  · rw [if_neg (by rw [same]; exact fun different => different equal)]
    by_cases bitsLeft : 0 < leftoverBits
    · have here : fullBytes < mask.length := Nat.lt_of_lt_of_eq (next bitsLeft) lengths
      have first := List.getElem?_eq_getElem (next bitsLeft)
      have second := List.getElem?_eq_getElem here
      rw [if_pos bitsLeft, first, second, leftoverBitsCompare_eq few]
      refine ⟨_, rfl, ?_⟩
      rw [decide_eq_true_iff, leftover_iff first second few]
      exact ⟨fun agree => ⟨equal, agree⟩, And.right⟩
    · rw [if_neg bitsLeft]
      refine ⟨true, rfl, fun _ => ⟨equal, ?_⟩, fun _ => rfl⟩
      rw [Nat.eq_zero_of_not_pos bitsLeft]
      rfl
  · rw [if_pos (same.mpr equal)]
    exact ⟨false, rfl, fun impossible => (nomatch impossible), fun both => absurd both.1 equal⟩

/-- The function tells whether the number of bits is at most 32 and the two
addresses begin with the same bits. -/
theorem parseCIDRBan_eq (ip mask maskBits : UInt32) :
    parseCIDRBan ip mask maskBits =
      some (decide (maskBits.toNat ≤ 32 ∧ SamePrefix maskBits.toNat ip mask)) := by
  have test : 32 < maskBits <-> ¬ maskBits.toNat ≤ 32 := by
    rw [UInt32.lt_iff_toNat_lt, Nat.not_le]
    rfl
  rw [parseCIDRBan]
  by_cases beyond : 32 < maskBits
  · rw [if_pos beyond, decide_eq_false (fun both => test.mp beyond both.1)]
  · have few : maskBits.toNat ≤ 32 := Nat.not_lt.mp fun many => beyond (test.mpr (Nat.not_le.mpr many))
    have source := length_octets ip
    have masked := length_octets mask
    rcases @compareOctets_iff _ _ (source.trans masked.symm) (maskBits.toNat / 8)
      (maskBits.toNat % 8) (Nat.mod_lt _ (by decide)) (by omega) (by omega) with ⟨hit, returned, prefix_⟩
    rw [Nat.div_add_mod] at prefix_
    rw [if_neg beyond, returned, Option.some.injEq]
    apply Bool.eq_iff_iff.mpr
    rw [prefix_, decide_eq_true_iff]
    exact ⟨fun agree => ⟨few, agree⟩, And.right⟩

/-- The ban with this mask and this number of bits hits the address. -/
def Hits (maskBits ip mask : UInt32) : Prop :=
  parseCIDRBan ip mask maskBits = some true

theorem hits_iff (maskBits ip mask : UInt32) :
    Hits maskBits ip mask <-> maskBits.toNat ≤ 32 ∧ SamePrefix maskBits.toNat ip mask := by
  rw [Hits, parseCIDRBan_eq, Option.some.injEq, decide_eq_true_iff]

/-- What a test of bit prefixes does for one number of bits. -/
structure PrefixTest (maskBits : UInt32) : Prop where
  returns : forall ip mask, Exists fun hit => parseCIDRBan ip mask maskBits = some hit
  hits : forall ip mask, Hits maskBits ip mask <->
    maskBits.toNat ≤ 32 ∧ SamePrefix maskBits.toNat ip mask
  equivalence : maskBits.toNat ≤ 32 -> Equivalence (Hits maskBits)
  beyond : 32 < maskBits.toNat -> forall ip mask, ¬ Hits maskBits ip mask
  antitone : forall fewer, fewer ≤ maskBits -> forall ip mask, Hits maskBits ip mask -> Hits fewer ip mask

/-- The function is a test of bit prefixes.  For more than 32 bits, which its
sanity check refuses, it hits no address. -/
theorem parseCIDRBan_prefix (maskBits : UInt32) : PrefixTest maskBits where
  returns := fun ip mask => ⟨_, parseCIDRBan_eq ip mask maskBits⟩
  hits := hits_iff maskBits
  equivalence := by
    intro few
    have prefixes : Hits maskBits = SamePrefix maskBits.toNat := by
      funext ip mask
      exact propext ((hits_iff maskBits ip mask).trans (and_iff_right few))
    rw [prefixes]
    have agree := agree_equivalence bits maskBits.toNat
    exact ⟨fun ip => agree.refl (octets ip), fun same => agree.symm same,
      fun first second => agree.trans first second⟩
  beyond := by
    intro many ip mask hit
    have few := ((hits_iff maskBits ip mask).mp hit).1
    omega
  antitone := by
    intro fewer le ip mask hit
    rcases (hits_iff maskBits ip mask).mp hit with ⟨few, agree⟩
    have bound := UInt32.le_iff_toNat_le.mp le
    exact (hits_iff fewer ip mask).mpr ⟨Nat.le_trans bound few, agree.mono bits bound⟩

/-- With 33 bits an address is not even hit by itself. -/
theorem parseCIDRBan_beyond : ¬ forall maskBits : UInt32, Equivalence (Hits maskBits) := by
  intro claim
  have itself : parseCIDRBan 0 0 33 = some true := (claim 33).refl 0
  exact absurd itself (by decide)

end DarkEden
end ServerTech

import Mathlib.Algebra.Ring.Nat
import Mathlib.Algebra.Ring.Int.Defs
import Mathlib.Data.List.Basic

namespace ServerTech
namespace Octet

/-!
# Octets and their bits

There are 256 octets, so a decidable fact about all of them is found by
evaluation.  `bits` reads an octet from its most significant bit, and a mask
with ones in the first places keeps the bits in these places and no others.
-/

/-- What holds of the octets of 256 values holds of every octet. -/
theorem forall_octet {property : UInt8 -> Prop}
    (each : forall value, value < 256 -> property (UInt8.ofNat value)) (octet : UInt8) :
    property octet := by
  have own := each octet.toNat octet.toNat_lt
  rwa [UInt8.ofNat_toNat] at own

/-- The bits of an octet, the most significant first. -/
def bits (octet : UInt8) : List Bool :=
  (List.range 8).map fun place => octet.toNat.testBit (7 - place)

@[simp] theorem length_bits (octet : UInt8) : (bits octet).length = 8 := by
  rw [bits, List.length_map, List.length_range]

/-- The octet that begins with the given bits and ends in zeros. -/
def leading : List Bool -> UInt8
  | [] => 0
  | bit :: rest => (if bit then 128 else 0) + leading rest / 2

theorem leading_bits (octet : UInt8) : leading (bits octet) = octet := by
  revert octet
  refine forall_octet ?_
  decide +kernel

theorem bits_injective : Function.Injective bits := by
  intro first second same
  rw [← leading_bits first, same, leading_bits]

/-- The octet with ones in the first places. -/
def mask (count : Nat) : UInt8 :=
  leading (List.replicate count true)

theorem bits_and (first second : UInt8) :
    bits (first &&& second) = List.zipWith and (bits first) (bits second) := by
  rw [bits, bits, bits, List.zipWith_map, List.zipWith_self]
  simp only [UInt8.toNat_and, Nat.testBit_and]

theorem bits_mask {count : Nat} (within : count < 8) :
    bits (mask count) = List.replicate count true ++ List.replicate (8 - count) false := by
  revert count
  decide +kernel

/-- A mask clears the bits behind the first places and keeps the others. -/
theorem bits_and_mask (octet : UInt8) {count : Nat} (within : count < 8) :
    bits (octet &&& mask count) = (bits octet).take count ++ List.replicate (8 - count) false := by
  have split := (List.take_append_drop count (bits octet)).symm
  have front : ((bits octet).take count).length = count := by
    rw [List.length_take, length_bits]
    omega
  rw [bits_and, bits_mask within]
  nth_rewrite 1 [split]
  rw [List.zipWith_append (by rw [front, List.length_replicate])]
  congr 1
  · exact List.ext_getElem (by simp [front]) (by simp)
  · exact List.ext_getElem (by simp) (by simp)

/-- Two octets are equal under a mask exactly when they begin with the same bits. -/
theorem and_mask_eq_iff (first second : UInt8) {count : Nat} (within : count < 8) :
    first &&& mask count = second &&& mask count <->
      (bits first).take count = (bits second).take count := by
  rw [← bits_injective.eq_iff, bits_and_mask first within, bits_and_mask second within,
    List.append_left_inj]

/-! ## Shifts -/

/-- Bits put above a number are added to it. -/
theorem or_shiftLeft {low places : Nat} (small : low < 2 ^ places) (high : Nat) :
    low ||| high <<< places = low + high * 2 ^ places := by
  rw [Nat.or_comm, ← Nat.shiftLeft_add_eq_or_of_lt small, Nat.shiftLeft_eq, Nat.add_comm]

end Octet
end ServerTech

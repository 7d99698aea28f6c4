import Mathlib.Algebra.Ring.Nat
import Mathlib.Algebra.Ring.Int.Defs
import Mathlib.Data.List.Basic

namespace ServerTech
namespace LittleEndian

/-!
# Little-endian words

A word of a given width is the list of its bytes, least significant first.
`encode` keeps the low bytes of any natural number, which is how a wider value
is stored in a narrower field.
-/

/-- The low `width` bytes of a value. -/
def encode : Nat -> Nat -> List UInt8
  | 0, _ => []
  | width + 1, value => UInt8.ofNat value :: encode width (value / 256)

/-- The value of a list of bytes. -/
def decode : List UInt8 -> Nat
  | [] => 0
  | byte :: bytes => byte.toNat + 256 * decode bytes

@[simp] theorem length_encode (width value : Nat) : (encode width value).length = width := by
  induction width generalizing value with
  | zero => rfl
  | succ width inductionHypothesis => exact congrArg (· + 1) (inductionHypothesis (value / 256))

theorem decode_lt (bytes : List UInt8) : decode bytes < 256 ^ bytes.length := by
  induction bytes with
  | nil => exact Nat.one_pos
  | cons byte bytes inductionHypothesis =>
      have small := byte.toNat_lt
      simp only [decode, List.length_cons, Nat.pow_succ]
      omega

theorem decode_append (first second : List UInt8) :
    decode (first ++ second) = decode first + 256 ^ first.length * decode second := by
  induction first with
  | nil =>
      simp only [List.nil_append, decode, List.length_nil, Nat.pow_zero]
      omega
  | cons byte first inductionHypothesis =>
      have power : 256 ^ (first.length + 1) * decode second =
          256 * (256 ^ first.length * decode second) := by
        rw [Nat.pow_succ, Nat.mul_comm (256 ^ first.length), Nat.mul_assoc]
      simp only [List.cons_append, decode, List.length_cons, inductionHypothesis, power]
      omega

/-- A value is read back modulo the width of the field. -/
theorem decode_encode (width value : Nat) :
    decode (encode width value) = value % 256 ^ width := by
  induction width generalizing value with
  | zero => simp only [encode, decode, Nat.pow_zero, Nat.mod_one]
  | succ width inductionHypothesis =>
      have low : (UInt8.ofNat value).toNat = value % 256 := UInt8.toNat_ofNat'
      rw [encode, decode, inductionHypothesis, low, Nat.pow_succ', Nat.mod_mul]

/-- The bytes are recovered from the value and the width. -/
theorem encode_decode (bytes : List UInt8) : encode bytes.length (decode bytes) = bytes := by
  induction bytes with
  | nil => rfl
  | cons byte bytes inductionHypothesis =>
      have small := byte.toNat_lt
      have high : (byte.toNat + 256 * decode bytes) / 256 = decode bytes := by omega
      have low : UInt8.ofNat (byte.toNat + 256 * decode bytes) = byte := by
        apply UInt8.toNat_inj.mp
        rw [UInt8.toNat_ofNat']
        omega
      simp only [decode, List.length_cons, encode, high, low, inductionHypothesis]

/-- A wider word is its low bytes and then the bytes of the rest. -/
theorem encode_add (first second value : Nat) :
    encode (first + second) value = encode first value ++ encode second (value / 256 ^ first) := by
  induction first generalizing value with
  | zero => rw [Nat.zero_add, encode, List.nil_append, Nat.pow_zero, Nat.div_one]
  | succ first inductionHypothesis =>
      rw [Nat.succ_add, encode, encode, inductionHypothesis, List.cons_append, Nat.div_div_eq_div_mul,
        ← Nat.pow_succ']

/-- Only zeros have the value zero. -/
theorem decode_eq_zero_iff (bytes : List UInt8) :
    decode bytes = 0 <-> forall byte, byte ∈ bytes -> byte = 0 := by
  induction bytes with
  | nil => exact ⟨fun _ _ member => (nomatch member), fun _ => rfl⟩
  | cons byte bytes inductionHypothesis =>
      rw [decode, List.forall_mem_cons, ← inductionHypothesis, ← UInt8.toNat_inj, UInt8.toNat_zero]
      omega

end LittleEndian
end ServerTech

/-!
# Little-endian bytes

A natural number as a fixed count of bytes, least significant first, and back. What does not fit
the width is dropped. `bytes_value` says that every list of bytes is the written form of its number.
-/

namespace Rowstore.LittleEndian

/-- The lowest bytes of a number, least significant first. -/
def bytes : Nat → Nat → List UInt8
  | 0, _ => []
  | width + 1, n => UInt8.ofNat n :: bytes width (n / 256)

/-- The number with the given bytes. -/
def value : List UInt8 → Nat
  | [] => 0
  | b :: bs => b.toNat + 256 * value bs

@[simp] theorem bytes_zero (n : Nat) : bytes 0 n = [] := rfl

@[simp] theorem bytes_succ (width n : Nat) :
    bytes (width + 1) n = UInt8.ofNat n :: bytes width (n / 256) := rfl

@[simp] theorem value_nil : value [] = 0 := rfl

@[simp] theorem value_cons (b : UInt8) (bs : List UInt8) :
    value (b :: bs) = b.toNat + 256 * value bs := rfl

@[simp] theorem length_bytes (width n : Nat) : (bytes width n).length = width := by
  induction width generalizing n with
  | zero => rfl
  | succ width ih => simp [ih]

/-- A list of bytes is the written form of its number. -/
theorem bytes_value (bs : List UInt8) : bytes bs.length (value bs) = bs := by
  induction bs with
  | nil => rfl
  | cons b bs ih =>
    have hb : b.toNat < 256 := b.toNat_lt
    have hdiv : (b.toNat + 256 * value bs) / 256 = value bs := by omega
    rw [List.length_cons, bytes_succ, value_cons, hdiv, ih]
    congr 1
    apply UInt8.toNat_inj.mp
    rw [UInt8.toNat_ofNat']
    omega

end Rowstore.LittleEndian

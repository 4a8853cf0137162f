import Mathlib
import Rowstore.LittleEndian

/-!
# The range of a count of bytes

A count of bytes holds the numbers below a power of 256. Main statement: `value_bytes`, which says
that writing a number and reading it back gives its remainder by that power.
-/

namespace Rowstore.LittleEndian

/-- Bytes read back give the number, less what the width cannot hold. -/
theorem value_bytes (width n : Nat) : value (bytes width n) = n % 256 ^ width := by
  induction width generalizing n with
  | zero => simp [Nat.mod_one]
  | succ width ih =>
    have hpow : 256 ^ (width + 1) = 256 * 256 ^ width := Nat.pow_succ'
    rw [bytes_succ, value_cons, ih, UInt8.toNat_ofNat', hpow, Nat.mod_mul]

/-- A number is below the first one that its bytes have no room for. -/
theorem value_lt (bs : List UInt8) : value bs < 256 ^ bs.length := by
  induction bs with
  | nil => simp
  | cons b bs ih =>
    have hb : b.toNat < 256 := b.toNat_lt
    rw [value_cons, List.length_cons, Nat.pow_succ]
    omega

end Rowstore.LittleEndian

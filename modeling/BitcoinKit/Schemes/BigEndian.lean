import Mathlib.Algebra.Ring.Nat
import Mathlib.Algebra.Order.Ring.Nat
import Mathlib.Data.List.Induction

/-! Numbers as big-endian bytes, most significant first.

        toBytes 3 258 = [0, 1, 2]          ofBytes [0, 1, 2] = 258

    At a fixed width the two are inverse to each other, up to what does not fit. -/

namespace Schemes.BigEndian

/-- The number the bytes are the digits of, to base 256. -/
def ofBytes (bytes : List UInt8) : Nat := bytes.foldl (fun n b => 256 * n + b.toNat) 0

/-- The last `width` digits of a number. -/
def toBytes : Nat → Nat → List UInt8
  | 0, _ => []
  | width + 1, n => toBytes width (n / 256) ++ [UInt8.ofNat n]

@[simp] theorem ofBytes_nil : ofBytes [] = 0 := rfl

@[simp] theorem ofBytes_concat (bytes : List UInt8) (b : UInt8) :
    ofBytes (bytes ++ [b]) = 256 * ofBytes bytes + b.toNat := by
  simp [ofBytes]

@[simp] theorem length_toBytes : ∀ width n, (toBytes width n).length = width
  | 0, _ => rfl
  | width + 1, n => by simp [toBytes, length_toBytes width]

theorem ofBytes_lt (bytes : List UInt8) : ofBytes bytes < 256 ^ bytes.length := by
  induction bytes using List.reverseRecOn with
  | nil => decide
  | append_singleton bytes b ih =>
    have hb := b.toNat_lt
    rw [ofBytes_concat, List.length_append, List.length_singleton, pow_succ]
    omega

/-- Reading what was written gives the number back, as far as it fits. -/
theorem ofBytes_toBytes : ∀ width n, ofBytes (toBytes width n) = n % 256 ^ width
  | 0, n => by simp [toBytes, Nat.mod_one]
  | width + 1, n => by
    have hbyte : (UInt8.ofNat n).toNat = n % 256 := by simp
    rw [toBytes, ofBytes_concat, ofBytes_toBytes width, hbyte, pow_succ, mul_comm (256 ^ width),
      Nat.mod_mul, add_comm]

/-- Writing what was read gives the bytes back. -/
theorem toBytes_ofBytes (bytes : List UInt8) : toBytes bytes.length (ofBytes bytes) = bytes := by
  induction bytes using List.reverseRecOn with
  | nil => rfl
  | append_singleton bytes b ih =>
    have hb := b.toNat_lt
    have hrest : (256 * ofBytes bytes + b.toNat) / 256 = ofBytes bytes := by omega
    have hlast : UInt8.ofNat (256 * ofBytes bytes + b.toNat) = b := by
      apply UInt8.toNat_inj.mp
      rw [UInt8.toNat_ofNat']
      omega
    rw [List.length_append, List.length_singleton, toBytes, ofBytes_concat, hrest, hlast, ih]

end Schemes.BigEndian

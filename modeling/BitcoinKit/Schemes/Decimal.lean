import Mathlib.Data.List.Basic
import Mathlib.Data.List.TakeWhile

/-! Numbers as they are printed: digits throughout, with a sign before a negative one, and no zero in
    front. -/

namespace Schemes

theorem isDigit_toDigits (n : Nat) : ∀ c ∈ Nat.toDigits 10 n, c.isDigit = true :=
  fun _ hc => Nat.isDigit_of_mem_toDigits (by decide) (by decide) hc

theorem digitChar_zero {n : Nat} (h : n < 10) : n.digitChar = '0' → n = 0 := by
  revert n
  decide

/-- Only 0 is printed with a leading zero. -/
theorem toDigits_head (n : Nat) : (Nat.toDigits 10 n).head? = some '0' → n = 0 := by
  induction n using Nat.strongRecOn with
  | ind n ih =>
    intro h
    by_cases hsmall : n < 10
    · rw [Nat.toDigits_of_lt_base hsmall] at h
      exact digitChar_zero hsmall (Option.some.inj h)
    · rw [Nat.toDigits_of_base_le (by decide) (by omega), List.head?_append_of_ne_nil] at h
      · have hzero := ih (n / 10) (by omega) h
        omega
      · exact Nat.toDigits_ne_nil

/-- A printed number is digits throughout. -/
theorem takeWhile_toDigits (n : Nat) :
    (Nat.toDigits 10 n).takeWhile Char.isDigit = Nat.toDigits 10 n := by
  rw [List.takeWhile_eq_self_iff]
  exact isDigit_toDigits n

/-- Digits do not begin with a sign. -/
theorem toDigits_sign (n : Nat) (sign : Char) (h : sign.isDigit = false) (digits : List Char) :
    Nat.toDigits 10 n ≠ sign :: digits := by
  intro hd
  have hc : sign.isDigit = true := isDigit_toDigits n sign (hd ▸ List.mem_cons_self ..)
  rw [h] at hc
  cases hc

theorem toList_toString (n : Nat) : (toString n).toList = Nat.toDigits 10 n := by
  rw [Nat.toString_eq_ofList_toDigits, String.toList_ofList]

theorem toList_toString_int (n : Int) :
    (toString n).toList =
      if 0 ≤ n then Nat.toDigits 10 n.toNat else '-' :: Nat.toDigits 10 (-n).toNat := by
  have htext : toString n = if 0 ≤ n then toString n.toNat else "-" ++ toString (-n).toNat :=
    Int.repr_eq_if
  rw [htext]
  split
  · exact toList_toString n.toNat
  · rw [String.toList_append, toList_toString]
    rfl

end Schemes

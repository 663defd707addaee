import BitcoinKit.Cocoa.Amounts
import Mathlib.Algebra.Order.Ring.Int
import Mathlib.Data.List.TakeWhile

/-! Amounts cross the bridge unchanged below 2^63, and only there. Above, the signed format prints a
    negative number, and the signed parse stops at its own greatest number:

        amount    2^63 − 1 ──▶ 2^63 − 1        2^63 ──▶ −2^63
        fee       2^63 − 1 ──▶ 2^63 − 1        2^63 ──▶ 2^63 − 1 -/

namespace BitcoinKit
open Schemes

theorem toInt_toInt64 (n : UInt64) : n.toInt64.toInt = n.toNat ↔ n.toNat < 2 ^ 63 := by
  have hlt := n.toNat_lt
  have hsigned : n.toInt64.toInt = Int.bmod n.toNat (2 ^ 64) := n.toBitVec.toInt_eq_toNat_bmod
  rw [hsigned, Int.bmod_def]
  omega

theorem dropWhile_toDigits (n : Nat) :
    (Nat.toDigits 10 n).dropWhile Char.isWhitespace = Nat.toDigits 10 n := by
  rw [List.dropWhile_eq_self_iff]
  intro hpos hspace
  have hdigit : ((Nat.toDigits 10 n)[0]).isDigit = true :=
    isDigit_toDigits n _ (List.getElem_mem hpos)
  generalize (Nat.toDigits 10 n)[0] = c at hdigit hspace
  simp [Char.isWhitespace] at hspace
  rcases hspace with ((rfl | rfl) | rfl) | rfl <;> simp at hdigit

theorem longLongValue_toString (n : Nat) :
    longLongValue (toString n) = Int64.ofNat (min (2 ^ 63 - 1) n) := by
  have hdrop : ((toString n).toList.dropWhile Char.isWhitespace) = Nat.toDigits 10 n := by
    rw [toList_toString, dropWhile_toDigits]
  have hvalue : Nat.ofDigitChars 10 ((Nat.toDigits 10 n).takeWhile Char.isDigit) 0 = n := by
    rw [takeWhile_toDigits, Nat.ofDigitChars_ten_toDigits]
  unfold longLongValue
  dsimp only
  rw [hdrop]
  split
  · next digits h => exact absurd h (toDigits_sign n '-' (by decide) digits)
  · next digits h => exact absurd h (toDigits_sign n '+' (by decide) digits)
  · rw [hvalue, ← Int64.ofInt_eq_ofNat]
    congr 1
    have hmax : Int64.maxValue.toInt = 2 ^ 63 - 1 := by decide
    have hmin : Int64.minValue.toInt = -2 ^ 63 := by decide
    rw [hmax, hmin]
    omega

/-- What the caller is handed for a fee. -/
theorem toNat_longLongValue (n : Nat) :
    (longLongValue (toString n)).toUInt64.toNat = min (2 ^ 63 - 1) n := by
  rw [longLongValue_toString, Int64.toUInt64_ofNat', UInt64.toNat_ofNat']
  omega

/-- Java reads the amount the application passed. -/
def AmountArrives (coins : UInt64) : Prop := bigInteger (amountText coins) = .ok (coins.toNat : Int)

theorem amountArrives_iff (coins : UInt64) : AmountArrives coins ↔ coins.toNat < 2 ^ 63 := by
  unfold AmountArrives amountText
  rw [bigInteger_toString, Except.ok.injEq, toInt_toInt64]

/-- How the preview ends once Java returns a fee. -/
theorem calculate_of_returned {lib : Lib} {drafts : Drafts} {coins : UInt64} {recipient : String}
    {c : Cocoa} {text : String}
    (h : outcome (c.runOf (onBehalfOf 0
      (feeForSendingCoins lib drafts (amountText coins) recipient))) = .ok text) :
    outcome (calculateTransactionFeeForSendingCoins lib drafts coins recipient c) =
      .ok ((longLongValue text).toUInt64, none) := by
  change Ends (calculateTransactionFeeForSendingCoins lib drafts coins recipient) c fun r _ => r = _
  unfold calculateTransactionFeeForSendingCoins
  rw [ends_bind]
  refine ends_mono (ends_callObjectMethod true _) fun r d hr => ?_
  rw [h] at hr
  cases hr.1 with
  | returned => rfl

/-- The fee Java returns is the fee the caller is handed. -/
def FeeReturns (lib : Lib) (drafts : Drafts) (coins : UInt64) (recipient : String) (c : Cocoa)
    (fee : Nat) : Prop :=
  ∃ value : UInt64, value.toNat = fee ∧
    outcome (calculateTransactionFeeForSendingCoins lib drafts coins recipient c) = .ok (value, none)

/-- Amounts and fees cross the bridge exactly below 2^63. -/
theorem amounts_cross_below (lib : Lib) (drafts : Drafts) (coins : UInt64) (recipient : String)
    (c : Cocoa) :
    (AmountArrives coins ↔ coins.toNat < 2 ^ 63) ∧
    (∀ fee : Nat, fee < 2 ^ 64 →
      outcome (c.runOf (onBehalfOf 0
        (feeForSendingCoins lib drafts (amountText coins) recipient))) = .ok (toString fee) →
      (FeeReturns lib drafts coins recipient c fee ↔ fee < 2 ^ 63)) := by
  refine ⟨amountArrives_iff coins, fun fee _ hfee => ?_⟩
  have hend := calculate_of_returned hfee
  constructor
  · rintro ⟨value, hvalue, hend'⟩
    rw [hend] at hend'
    have hsame := (Prod.mk.inj (Except.ok.inj hend')).1
    rw [← hsame, toNat_longLongValue] at hvalue
    omega
  · intro hlt
    refine ⟨_, ?_, hend⟩
    rw [toNat_longLongValue]
    omega

/-- An amount of 2^63 arrives negative, and a default fee of 2^63 is handed over as one less. -/
theorem amount_arrives_negative :
    bigInteger (amountText 9223372036854775808) = .ok (-9223372036854775808) ∧
    ¬ AmountArrives 9223372036854775808 ∧
    outcome ((Cocoa.initial .none false).runOf (onBehalfOf 0
      (feeForSendingCoins .fair ⟨9223372036854775808, fun _ _ _ => ⟨0, [], [], 0, 0, 0⟩⟩
        (amountText 0) ""))) = .ok (toString 9223372036854775808) ∧
    outcome (calculateTransactionFeeForSendingCoins .fair
      ⟨9223372036854775808, fun _ _ _ => ⟨0, [], [], 0, 0, 0⟩⟩ 0 "" (.initial .none false)) =
      .ok (9223372036854775807, none) := by
  refine ⟨by decide +kernel, ?_, by decide +kernel, by decide +kernel⟩
  unfold AmountArrives
  decide +kernel

end BitcoinKit

import BitcoinKit.Java.Payments
import BitcoinKit.Java.Report
import BitcoinKit.Schemes.Decimal

/-! The preview of a fee. A payment is completed as for a send, but without a key; the wallet is left as
    it is, and the fee is read off the draft:

        amount, recipient ─▶ request ─▶ completeTx ─▶ request.tx ─▶ fee
                                            └── signing refused: the draft stays

    Amounts come as text, so how Java reads a printed number comes first. -/

namespace BitcoinKit
open Schemes

/-! ### Printed numbers -/

theorem decimalDigits_toDigits (n : Nat) : decimalDigits (Nat.toDigits 10 n) = some n := by
  have hne : Nat.toDigits 10 n ≠ [] := Nat.toDigits_ne_nil
  have hall : (Nat.toDigits 10 n).all Char.isDigit = true := by
    rw [List.all_eq_true]
    exact isDigit_toDigits n
  have hvalue := Nat.ofDigitChars_ten_toDigits (n := n)
  rw [Nat.ofDigitChars_eq_foldl] at hvalue
  rw [decimalDigits, hall, hvalue]
  simp [hne]

theorem bigInteger_ofNat (n : Nat) : bigInteger (toString n) = .ok (n : Int) := by
  unfold bigInteger
  rw [toList_toString]
  split
  · next digits h => exact absurd h (toDigits_sign n '-' (by decide) digits)
  · next digits h => exact absurd h (toDigits_sign n '+' (by decide) digits)
  · rw [decimalDigits_toDigits]
    rfl

theorem bigInteger_neg (n : Nat) : bigInteger ("-" ++ toString n) = .ok (-(n : Int)) := by
  have htext : ("-" ++ toString n).toList = '-' :: Nat.toDigits 10 n := by
    rw [String.toList_append, toList_toString]
    rfl
  unfold bigInteger
  rw [htext]
  simp only [decimalDigits_toDigits]
  rfl

/-- Java reads every number as it is printed. -/
theorem bigInteger_toString (n : Int) : bigInteger (toString n) = .ok n := by
  have htext : toString n = if 0 ≤ n then toString n.toNat else "-" ++ toString (-n).toNat :=
    Int.repr_eq_if
  rw [htext]
  split
  · next h => rw [bigInteger_ofNat, Int.toNat_of_nonneg h]
  · next h =>
    rw [bigInteger_neg]
    exact congrArg Except.ok (by omega)

/-! ### The fee of a draft -/

/-- `BigInteger.intValue()`: the low 32 bits. -/
def intValue (n : Int) : Int32 := Int32.ofInt n

/-- What bitcoinj settles about a payment before it is signed. -/
structure Drafts where
  /-- `Transaction.REFERENCE_DEFAULT_MIN_TX_FEE`. -/
  referenceDefaultMinTxFee : Int
  /-- What `completeTx` leaves in `request.tx`, given a key or none. -/
  draft : Wallet → SendRequest → Option Bytes → TransactionView

def feeForSendingCoins (lib : Lib) (drafts : Drafts) (amount sendToAddressString : String) :
    Java String :=
  catchIf (Throwable.instanceOf addressFormatExceptionClass)
    (do
      let amountToSend ← result (bigInteger amount)
      if intValue amountToSend = 0 ∨ sendToAddressString = "" then
        pure (toString drafts.referenceDefaultMinTxFee)
      else
        let w ← get
        let sendToAddress ← result (lib.parseAddress w.networkParams sendToAddressString)
        lib.call .sendRequestTo
        let request : SendRequest := ⟨[(sendToAddress, amountToSend)], none⟩
        let (_, wallet) ← theWallet
        catchIf (Throwable.instanceOf keyCrypterExceptionClass)
          (do let _ ← result (lib.completeTx wallet request none))
          fun _ => pure ()
        pure (toString (getTransactionFee (drafts.draft wallet request none))))
    fun _ => pure (toString drafts.referenceDefaultMinTxFee)

end BitcoinKit

import BitcoinKit.Cocoa.Calls
import BitcoinKit.Java.Preview

/-! Amounts on the Cocoa side: an unsigned 64-bit number there, a decimal string on the way to Java and
    back.

        uint64_t ── "%lld" ──▶ text ──▶ BigInteger
        uint64_t ◀── longLongValue ── text ◀── BigInteger -/

namespace BitcoinKit
open Schemes

/-- `-[NSString longLongValue]`: a sign and the digits up to the first other character, clamped to the
    signed 64-bit numbers; 0 without digits. -/
def longLongValue (text : String) : Int64 :=
  let number (digits : List Char) : Int := Nat.ofDigitChars 10 (digits.takeWhile Char.isDigit) 0
  let value := match text.toList.dropWhile Char.isWhitespace with
    | '-' :: digits => -number digits
    | '+' :: digits => number digits
    | digits => number digits
  Int64.ofInt (max Int64.minValue.toInt (min Int64.maxValue.toInt value))

/-- The fee, and the error the caller's pointer is set to. -/
def calculateTransactionFeeForSendingCoins (lib : Lib) (drafts : Drafts) (coins : UInt64)
    (recipient : String) : ObjC (UInt64 × Option NSError) := do
  let (fee, error) ← callObjectMethod true
    (onBehalfOf 0 (feeForSendingCoins lib drafts (amountText coins) recipient))
  match error with
  | some error => pure (0, some error)
  | none => pure ((fee.map fun text => (longLongValue text).toUInt64).getD 0, none)

end BitcoinKit

import BitcoinKit.Cocoa.Transactions

/-! The range query never answers: it looks up `getTransaction` with two numbers, and the method of the
    class that takes two numbers is `getTransactions`. -/

namespace BitcoinKit
open Schemes

/-- The range query answers, with the part of the full list that the range says. -/
def RangeAgrees (lib : Lib) (byTime : Wallet → JavaList Transaction) (dates : Dates) (range : NSRange)
    (c : Cocoa) : Prop :=
  ∃ all, outcome (allTransactions lib byTime dates c) = .ok (some all) ∧
    outcome (transactionsWithRange lib byTime dates range c) =
      .ok (some ((all.drop range.location.toNat).take range.length.toNat))

/-- A query by a name and signature that the class does not have raises. -/
theorem ends_callObjectMethodWithName {α : Type} {name signature : String} {wantsError : Bool}
    {method : Java α} {c : Cocoa} (h : (name, signature) ∉ managerMethods) :
    Ends (callObjectMethodWithName name signature wantsError method) c fun r d =>
      r = .error ⟨"Method not found: " ++ name ++ " (" ++ signature ++ ")"⟩ ∧ d = c := by
  rw [callObjectMethodWithName, ends_bind, jMethodWithName, if_neg h, ends_throw]
  exact ⟨rfl, rfl⟩

theorem transactionsWithRange_raises (lib : Lib) (byTime : Wallet → JavaList Transaction)
    (dates : Dates) (range : NSRange) (c : Cocoa) :
    outcome (transactionsWithRange lib byTime dates range c) =
      .error ⟨"Method not found: getTransaction ((II)Ljava/lang/String;)"⟩ := by
  change Ends (transactionsWithRange lib byTime dates range) c fun r _ => r = _
  rw [transactionsWithRange, ends_bind]
  refine ends_mono (ends_callObjectMethodWithName (by decide)) fun r d hr => ?_
  rw [hr.1]
  rfl

/-- No wallet and no range has the range query agree with the full list. -/
theorem range_never_agrees (lib : Lib) (byTime : Wallet → JavaList Transaction) (dates : Dates)
    (range : NSRange) (c : Cocoa) : ¬ RangeAgrees lib byTime dates range c := by
  rintro ⟨all, -, hrange⟩
  rw [transactionsWithRange_raises] at hrange
  cases hrange

/-- A manager with a wallet of one transaction. -/
def oneListed : Cocoa :=
  { Cocoa.initial .none false with java := { World.initial .none with wallet := some 0 } }

def oneByTime (_ : Wallet) : JavaList Transaction := ⟨[⟨0, 1, [], none⟩], by decide⟩

/-- Its full list has the one transaction; the range query of just that one raises. -/
theorem range_of_one_raises :
    (outcome (allTransactions .fair oneByTime ⟨fun _ => none, 0⟩ oneListed)).map
        (fun all => all.map List.length) = .ok (some 1) ∧
      outcome (transactionsWithRange .fair oneByTime ⟨fun _ => none, 0⟩ ⟨0, 1⟩ oneListed) =
        .error ⟨"Method not found: getTransaction ((II)Ljava/lang/String;)"⟩ ∧
      ¬ RangeAgrees .fair oneByTime ⟨fun _ => none, 0⟩ ⟨0, 1⟩ oneListed := by
  have hraises := transactionsWithRange_raises .fair oneByTime ⟨fun _ => none, 0⟩ ⟨0, 1⟩ oneListed
  refine ⟨by decide +kernel, hraises, ?_⟩
  rintro ⟨all, -, hrange⟩
  rw [hraises] at hrange
  cases hrange

end BitcoinKit

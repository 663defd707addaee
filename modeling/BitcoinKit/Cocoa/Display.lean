import BitcoinKit.Cocoa.Transactions
import BitcoinKit.Schemes.Run
import Mathlib.Algebra.Order.Field.Rat

/-! What the application is shown. Native methods run on threads of the virtual machine; what they have to
    tell goes through the main queue:

        native method ──▶ main queue ──▶ fields of the manager ──▶ observers, notifications
                             ▲
        timer ── balances other than last shown

    The blocks that end a send or answer a payment are not among these. -/

namespace BitcoinKit
open Schemes

/-- The observable properties that native methods change. -/
inductive Key where
  | availableBalance | estimatedBalance | peerCount | isConnected | syncProgress | isSyncing
  deriving DecidableEq, Repr

inductive KeyValue where
  | amount (amount : UInt64)
  | count (n : NSUInteger)
  /-- A `float`, by its value. -/
  | percent (percent : ℚ)
  | flag (flag : Bool)
  deriving DecidableEq

/-- `willChangeValueForKey:`; and `didChangeValueForKey:`, with the value an observer reads then. -/
inductive KeyNotice where
  | willChange (key : Key)
  | didChange (key : Key) (value : KeyValue)
  deriving DecidableEq

/-- A notification that a transaction has changed, with the dictionary in its user info. -/
structure Posting where
  txid : String
  json : Option NSDictionary

/-- Blocks dispatched to the main queue. -/
inductive DisplayBlock where
  | onAvailableBalanceChanged
  | onEstimatedBalanceChanged
  | onPeerCountChanged (peerCount : NSUInteger)
  | onSynchronizationChanged (percent : ℚ)
  | onTransactionChanged (txid : String) (json : Option String)
  deriving DecidableEq

/-- What changes only by the blocks of the main queue. -/
structure Onscreen where
  peerCount : NSUInteger
  syncProgress : ℚ
  isSyncing : Bool
  postings : List Posting
  /-- What was raised by a block: nothing catches it, and the process ends. -/
  raised : Option NSException

structure Display extends Onscreen where
  /-- The available and the estimated balance of the Java manager's wallet, if it has one. -/
  balances : Option (Int × Int)
  lastAvailableBalance : UInt64
  lastEstimatedBalance : UInt64
  mainQueue : List DisplayBlock
  /-- What observers have been told. -/
  notices : List KeyNotice
  /-- How often a missed change of a balance was logged. -/
  missed : Nat

/-- The manager as `init` leaves it. -/
def Display.initial : Display where
  peerCount := 0
  syncProgress := 0
  isSyncing := false
  postings := []
  raised := none
  balances := none
  lastAvailableBalance := 0
  lastEstimatedBalance := 0
  mainQueue := []
  notices := []
  missed := 0

/-! ### The properties -/

namespace Display

/-- `wallet.getBalance().longValue()`, of a Java `long`. -/
def getAvailableBalance (d : Display) : Int64 :=
  match d.balances with
  | some (available, _) => .ofInt available
  | none => 0

def getEstimatedBalance (d : Display) : Int64 :=
  match d.balances with
  | some (_, estimated) => .ofInt estimated
  | none => 0

def availableBalance (d : Display) : UInt64 := d.getAvailableBalance.toUInt64

def estimatedBalance (d : Display) : UInt64 := d.getEstimatedBalance.toUInt64

def isConnected (d : Display) : Bool := d.peerCount > 0

def valueForKey (d : Display) : Key → KeyValue
  | .availableBalance => .amount d.availableBalance
  | .estimatedBalance => .amount d.estimatedBalance
  | .peerCount => .count d.peerCount
  | .isConnected => .flag d.isConnected
  | .syncProgress => .percent d.syncProgress
  | .isSyncing => .flag d.isSyncing

def willChangeValueForKey (d : Display) (key : Key) : Display :=
  { d with notices := d.notices ++ [.willChange key] }

def didChangeValueForKey (d : Display) (key : Key) : Display :=
  { d with notices := d.notices ++ [.didChange key (d.valueForKey key)] }

/-- A change that observers of `key` are told of. -/
def changing (d : Display) (key : Key) (change : Display → Display) : Display :=
  (change (d.willChangeValueForKey key)).didChangeValueForKey key

/-- The setter of a property that is observed by its key: the class does not switch off the notices that
    are given around every call of it, whatever it does. -/
def setIsSyncing (d : Display) (isSyncing : Bool) : Display :=
  d.changing .isSyncing fun d =>
    if d.isSyncing ≠ isSyncing then d.changing .isSyncing fun d => { d with isSyncing := isSyncing }
    else d

/-! ### The blocks -/

def onAvailableBalanceChanged (d : Display) : Display :=
  d.changing .availableBalance fun d => { d with lastAvailableBalance := d.availableBalance }

def onEstimatedBalanceChanged (d : Display) : Display :=
  d.changing .estimatedBalance fun d => { d with lastEstimatedBalance := d.estimatedBalance }

def onPeerCountChanged (d : Display) (peerCount : NSUInteger) : Display :=
  let statusChange := (d.peerCount > 0 ∧ peerCount = 0) ∨ (d.peerCount = 0 ∧ peerCount > 0)
  let d := d.willChangeValueForKey .peerCount
  let d := if statusChange then d.willChangeValueForKey .isConnected else d
  let d := { d with peerCount := peerCount }
  let d := d.didChangeValueForKey .peerCount
  if statusChange then d.didChangeValueForKey .isConnected else d

def onSynchronizationChanged (d : Display) (percent : ℚ) : Display :=
  (d.changing .syncProgress fun d => { d with syncProgress := percent }).setIsSyncing (percent < 100)

/-- A dictionary literal takes no `nil`. -/
def onTransactionChanged (dates : Dates) (d : Display) (txid : String) (json : Option String) : Display :=
  match json with
  | none => { d with postings := d.postings ++ [⟨txid, none⟩] }
  | some text =>
    match transactionOf dates (some text) with
    | some transaction => { d with postings := d.postings ++ [⟨txid, some transaction⟩] }
    | none => { d with raised := some ⟨"attempt to insert nil object"⟩ }

end Display

def DisplayBlock.run (dates : Dates) (d : Display) : DisplayBlock → Display
  | .onAvailableBalanceChanged => d.onAvailableBalanceChanged
  | .onEstimatedBalanceChanged => d.onEstimatedBalanceChanged
  | .onPeerCountChanged peerCount => d.onPeerCountChanged peerCount
  | .onSynchronizationChanged percent => d.onSynchronizationChanged percent
  | .onTransactionChanged txid json => d.onTransactionChanged dates txid json

/-! ### The machine -/

inductive DisplayEvent where
  /-- The Java manager's wallet has other balances, or the manager another wallet, or none. -/
  | balances (balances : Option (Int × Int))
  | onBalanceChanged
  | onPeerCountChanged (peerCount : Int32)
  | onSynchronizationUpdate (percent : ℚ)
  | onTransactionChanged (txid : String) (json : Option String)
  /-- The timer of the balances, which runs on the main thread. -/
  | verifyBalance
  /-- The main queue runs its next block. -/
  | mainQueue

namespace Display

def dispatch (d : Display) (blocks : List DisplayBlock) : Display :=
  { d with mainQueue := d.mainQueue ++ blocks }

def verifyBalance (d : Display) : Display :=
  let d := if d.availableBalance ≠ d.lastAvailableBalance then
    { d with missed := d.missed + 1 }.dispatch [.onAvailableBalanceChanged] else d
  if d.estimatedBalance ≠ d.lastEstimatedBalance then
    { d with missed := d.missed + 1 }.dispatch [.onEstimatedBalanceChanged] else d

/-- The percentage is passed as it is; a count of peers is a Java `int`. -/
def deliver (dates : Dates) (d : Display) : DisplayEvent → Display
  | .balances balances => { d with balances := balances }
  | .onBalanceChanged => d.dispatch [.onAvailableBalanceChanged, .onEstimatedBalanceChanged]
  | .onPeerCountChanged peerCount => d.dispatch [.onPeerCountChanged (.ofJint peerCount)]
  | .onSynchronizationUpdate percent => d.dispatch [.onSynchronizationChanged percent]
  | .onTransactionChanged txid json => d.dispatch [.onTransactionChanged txid json]
  | .verifyBalance => d.verifyBalance
  | .mainQueue =>
    match d.mainQueue with
    | [] => d
    | block :: blocks => block.run dates { d with mainQueue := blocks }

def tell (dates : Dates) : Display → DisplayEvent → Display :=
  halting (fun d => d.raised.isSome) (deliver dates)

end Display

end BitcoinKit

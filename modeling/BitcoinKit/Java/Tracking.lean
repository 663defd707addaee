import BitcoinKit.Java.Report

/-! Following transactions: which of them the manager listens to, and the handlers that tell the Cocoa
    side about a new or changed one.

        trackedTransactions   a hash set: membership is by transaction hash
        registrations         which objects the manager listens to: by object -/

namespace BitcoinKit
open Schemes

def trackTransaction (tx : Transaction) : Java Unit := do
  let w ← get
  if hasKey Transaction.hash w.trackedTransactions tx then pure ()
  else
    addConfidenceListener tx
    modify fun w =>
      { w with trackedTransactions := addKey Transaction.hash w.trackedTransactions tx }

def stopTrackingTransaction (tx : Transaction) : Java Unit := do
  let w ← get
  if hasKey Transaction.hash w.trackedTransactions tx then
    removeConfidenceListener tx
    modify fun w =>
      { w with trackedTransactions := removeKey Transaction.hash w.trackedTransactions tx }
  else pure ()

def trackPendingTransactions (ref : WalletRef) : Java Unit := do
  let w ← get
  for tx in (w.wallets.cell ref).transactions.filter fun tx => w.confidence tx = .pending do
    trackTransaction tx

/-- The report for a notification; a `JSONException` leaves it `null`. -/
def reportOrNull (lib : Lib) (tx : Transaction) : Java (Option TransactionJSON) :=
  catchIf (Throwable.instanceOf jsonExceptionClass)
    (do
      let json ← getJSONFromTransaction lib tx
      pure (some json))
    fun _ => pure none

def onNewTransaction (lib : Lib) (tx : Transaction) : Java Unit := do
  let w ← get
  if hasKey Transaction.hash w.trackedTransactions tx then pure ()
  else
    native .onBalanceChanged
    lib.interleave .beforeSnapshot
    let json ← reportOrNull lib tx
    lib.interleave .afterSnapshot
    native (.onTransactionChanged tx.hash json)
    let pending ← isPending tx
    if pending then
      lib.interleave .beforeListening
      trackTransaction tx
    else pure ()

def onCoinsReceived (lib : Lib) (tx : Transaction) : Java Unit := onNewTransaction lib tx

def onCoinsSent (lib : Lib) (tx : Transaction) : Java Unit := onNewTransaction lib tx

def onConfidenceChanged (lib : Lib) (tx : Transaction) (reason : ChangeReason) : Java Unit :=
  if reason = .type then do
    let pending ← isPending tx
    lib.interleave .beforeUnlistening
    (if pending then pure () else stopTrackingTransaction tx)
    native .onBalanceChanged
    lib.interleave .beforeSnapshot
    let json ← reportOrNull lib tx
    lib.interleave .afterSnapshot
    native (.onTransactionChanged tx.hash json)
  else pure ()

/-- The call at the head of the user thread's queue, as the registered listeners make it. -/
def handle (lib : Lib) : UserThreadCall → Java Unit
  | .onCoinsReceived tx => onCoinsReceived lib tx
  | .onCoinsSent tx => onCoinsSent lib tx
  | .onReorganize => native .onBalanceChanged
  | .onConfidenceChanged tx reason => onConfidenceChanged lib tx reason

def uncaughtException (exception : Throwable) : Java Unit := native (.onException exception)

end BitcoinKit

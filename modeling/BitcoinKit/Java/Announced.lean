import BitcoinKit.Java.Hearing
import BitcoinKit.Java.Watched

/-! The transaction handlers watched for one transaction: a record beside the world, newest entry first,
    of the changes of its confidence type and of the announcements of its hash.

        changed     the type of `tx` is another than before
        announced   `onTransactionChanged` was called with the hash of `tx`

    The steps of a handler in which these can fall are entered one by one, each single change of a
    window included; a label whose code announces nothing is entered as a whole. -/

namespace BitcoinKit
open Schemes

inductive Notice where | changed | announced
  deriving DecidableEq, Repr

/-- The entries for a step of the program. -/
def entered (tx : Transaction) (w v : World) (log : List Notice) : List Notice :=
  let log := if v.confidence tx = w.confidence tx then log else .changed :: log
  if (v.newsOf tx.hash).length = (w.newsOf tx.hash).length then log else .announced :: log

namespace Announced

variable (tx : Transaction)

/-- One change of confidence type. -/
def change (s : World × List Notice) (c : Transaction × ConfidenceType) : World × List Notice :=
  (s.1.changeConfidence c.1 c.2, entered tx s.1 (s.1.changeConfidence c.1 c.2) s.2)

def interleave (lib : Lib) (window : Window) : Watching (List Notice) Unit :=
  modify fun s => (lib.during window).foldl (change tx) s

def onNewTransaction (lib : Lib) (t : Transaction) : Watching (List Notice) Unit := do
  let w ← quiet get
  if hasKey Transaction.hash w.trackedTransactions t then pure ()
  else
    quiet (native .onBalanceChanged)
    interleave tx lib .beforeSnapshot
    let json ← quiet (reportOrNull lib t)
    interleave tx lib .afterSnapshot
    noted (entered tx) (native (.onTransactionChanged t.hash json))
    let pending ← quiet (isPending t)
    if pending then
      interleave tx lib .beforeListening
      quiet (trackTransaction t)
    else pure ()

def onConfidenceChanged (lib : Lib) (t : Transaction) (reason : ChangeReason) :
    Watching (List Notice) Unit :=
  if reason = .type then do
    let pending ← quiet (isPending t)
    interleave tx lib .beforeUnlistening
    quiet (if pending then pure () else stopTrackingTransaction t)
    quiet (native .onBalanceChanged)
    interleave tx lib .beforeSnapshot
    let json ← quiet (reportOrNull lib t)
    interleave tx lib .afterSnapshot
    noted (entered tx) (native (.onTransactionChanged t.hash json))
  else pure ()

def handle (lib : Lib) : UserThreadCall → Watching (List Notice) Unit
  | .onCoinsReceived t => onNewTransaction tx lib t
  | .onCoinsSent t => onNewTransaction tx lib t
  | .onReorganize => quiet (native .onBalanceChanged)
  | .onConfidenceChanged t reason => onConfidenceChanged tx lib t reason

def deliverNext (lib : Lib) : Watching (List Notice) Unit := do
  let w ← quiet get
  match w.userThread with
  | [] => pure ()
  | call :: rest =>
    quiet (modify fun w => { w with userThread := rest })
    tryCatch (handle tx lib call) fun e => quiet (uncaughtException e)

def onAck (lib : Lib) (sessionId : Int32) (t : Transaction) (callbackId : Int32) :
    Watching (List Notice) Unit :=
  catchIf (Throwable.instanceOf jsonExceptionClass)
    (do
      noted (entered tx) (lib.commitTx t)
      quiet (removeSession sessionId)
      onNewTransaction tx lib t
      quiet do
        lib.broadcastTransaction
        let ackDetails ← getPaymentRequestAckDetails lib
        native (.onPaymentRequestProcessed callbackId t.hash ackDetails))
    fun e => quiet (native (.onPaymentRequestProcessingFailed callbackId e))

def onSuccess (lib : Lib) : Pending → Watching (List Notice) Unit
  | .ack sessionId t callbackId _ => onAck tx lib sessionId t callbackId
  | future => quiet (BitcoinKit.onSuccess lib future)

def completeFuture (lib : Lib) (index : Nat) (failure : Option Throwable) :
    Watching (List Notice) Unit := do
  let w ← quiet get
  match w.pending[index]? with
  | none => pure ()
  | some future =>
    quiet (modify fun w => { w with pending := w.pending.eraseIdx index })
    Watched.onBehalfOf future.call (match failure with
      | none => onSuccess tx lib future
      | some error => quiet (onFailure error future))

def code : Label → Watching (List Notice) Unit
  | .complete lib index failure => completeFuture tx lib index failure
  | .deliver lib => Watched.onBehalfOf 0 (deliverNext tx lib)
  | label => noted (entered tx) label.code

def step (s : World × List Notice) (l : Label) : World × List Notice := after (code tx l s)

/-! ### It is the same code -/

theorem fst_changes (cs : List (Transaction × ConfidenceType)) (s : World × List Notice) :
    (cs.foldl (change tx) s).1 = s.1.changed cs := by
  induction cs generalizing s with
  | nil => rfl
  | cons c cs ih => exact ih (change tx s c)

theorem erases_interleave (lib : Lib) (window : Window) :
    Erases (interleave tx lib window) (lib.interleave window) :=
  erases_modify fun s => fst_changes tx (lib.during window) s

theorem erases_onNewTransaction (lib : Lib) (t : Transaction) :
    Erases (onNewTransaction tx lib t) (BitcoinKit.onNewTransaction lib t) := by
  refine erases_bind (erases_quiet _) fun w => erases_ite (erases_pure _) ?_
  refine erases_bind (erases_quiet _) fun _ => erases_bind (erases_interleave tx lib _) fun _ => ?_
  refine erases_bind (erases_quiet _) fun json => ?_
  refine erases_bind (erases_interleave tx lib _) fun _ => erases_bind (erases_noted _ _) fun _ => ?_
  refine erases_bind (erases_quiet _) fun pending => erases_ite ?_ (erases_pure _)
  exact erases_bind (erases_interleave tx lib _) fun _ => erases_quiet _

theorem erases_onConfidenceChanged (lib : Lib) (t : Transaction) (reason : ChangeReason) :
    Erases (onConfidenceChanged tx lib t reason) (BitcoinKit.onConfidenceChanged lib t reason) := by
  refine erases_ite (erases_bind (erases_quiet _) fun pending => ?_) (erases_pure _)
  refine erases_bind (erases_interleave tx lib _) fun _ => erases_bind (erases_quiet _) fun _ => ?_
  refine erases_bind (erases_quiet _) fun _ => erases_bind (erases_interleave tx lib _) fun _ => ?_
  refine erases_bind (erases_quiet _) fun json => ?_
  exact erases_bind (erases_interleave tx lib _) fun _ => erases_noted _ _

theorem erases_handle (lib : Lib) (call : UserThreadCall) :
    Erases (handle tx lib call) (BitcoinKit.handle lib call) := by
  cases call with
  | onCoinsReceived t => exact erases_onNewTransaction tx lib t
  | onCoinsSent t => exact erases_onNewTransaction tx lib t
  | onReorganize => exact erases_quiet (native .onBalanceChanged)
  | onConfidenceChanged t reason => exact erases_onConfidenceChanged tx lib t reason

theorem erases_deliverNext (lib : Lib) :
    Erases (deliverNext tx lib) (BitcoinKit.deliverNext lib) := by
  refine erases_bind (erases_quiet _) fun w => ?_
  cases w.userThread with
  | nil => exact erases_pure _
  | cons call rest =>
    refine erases_bind (erases_quiet _) fun _ => ?_
    exact erases_tryCatch (erases_handle tx lib call) fun e => erases_quiet _

theorem erases_onSuccess (lib : Lib) (future : Pending) :
    Erases (onSuccess tx lib future) (BitcoinKit.onSuccess lib future) := by
  cases future with
  | ack sessionId t callbackId call =>
    refine erases_catchIf ?_ fun e => erases_quiet _
    refine erases_bind (erases_noted _ _) fun _ => erases_bind (erases_quiet _) fun _ => ?_
    exact erases_bind (erases_onNewTransaction tx lib t) fun _ => erases_quiet _
  | session callbackId => exact erases_quiet _
  | broadcast sessionId t callbackId call => exact erases_quiet (onPaymentBroadcast sessionId t callbackId)
  | sent t => exact erases_quiet (native _)

theorem erases_completeFuture (lib : Lib) (index : Nat) (failure : Option Throwable) :
    Erases (completeFuture tx lib index failure) (BitcoinKit.completeFuture lib index failure) := by
  refine erases_bind (erases_quiet _) fun w => ?_
  cases w.pending[index]? with
  | none => exact erases_pure _
  | some future =>
    refine erases_bind (erases_quiet _) fun _ => Watched.erases_onBehalfOf _ ?_
    cases failure with
    | none => exact erases_onSuccess tx lib future
    | some error => exact erases_quiet _

theorem erases_code (label : Label) : Erases (code tx label) label.code := by
  cases label with
  | complete lib index failure => exact erases_completeFuture tx lib index failure
  | deliver lib => exact Watched.erases_onBehalfOf 0 (erases_deliverNext tx lib)
  | _ =>
    unfold code
    exact erases_noted _ _

/-- Watching changes nothing about what happens to the program. -/
theorem fst_step (s : World × List Notice) (l : Label) : (step tx s l).1 = BitcoinKit.step s.1 l :=
  erases_after (erases_code tx l) s

end Announced

end BitcoinKit

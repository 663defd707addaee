import BitcoinKit.Java.Process
import BitcoinKit.Schemes.Watch

/-! The manager's code under watch: the same code, with the moments entered into a record that it never
    reads.

        created      the chain file was missing and is created
        loaded       a wallet object was read from a file
        saved        a wallet object was written to a file
        running      a block chain has been built over the current wallet
        told         `onBalanceChanged` was called

    What the record is, and what a moment does to it, is left open. Code in which no moment can fall is
    taken over whole. -/

namespace BitcoinKit
open Schemes

inductive Milestone where
  | created
  | loaded (ref : WalletRef) (f : File)
  | saved (ref : WalletRef) (f : File)
  | running
  | told

/-- Java code with a record beside the world. -/
abbrev Watching (γ α : Type) := EStateM Throwable (World × γ) α

namespace Watched

variable {γ : Type} (note : Milestone → World → γ → γ)

/-! ### Files -/

def loadWalletFromFile (lib : Lib) (f : File) : Watching γ WalletRef := do
  let ref ← quiet (BitcoinKit.loadWalletFromFile lib f)
  mark (note (.loaded ref f))
  pure ref

def saveToFile (lib : Lib) (ref : WalletRef) (f : File) : Watching γ Unit := do
  quiet (BitcoinKit.saveToFile lib ref f)
  mark (note (.saved ref f))

def newBlockStore (lib : Lib) (chainFile : File) : Watching γ Unit := do
  quiet (lib.call .openBlockStore)
  mark fun w => if w.files.chains chainFile then id else note .created w
  quiet do
    modify fun w => { w with files := { w.files with
      chains := Function.update w.files.chains chainFile true } }
    lib.call .initBlockStore
    modify fun w => { w with
      blockStores := w.blockStores.alloc ⟨chainFile, true, none⟩
      blockStore := some w.blockStores.next }

/-! ### The block chain -/

def startBlockchain (lib : Lib) : Watching γ Unit := do
  let w ← quiet get
  let chainFile := getBlockchainFile w
  let chainExistedAlready := w.files.chains chainFile
  newBlockStore note lib chainFile
  quiet (if chainExistedAlready then pure () else do
    clearTransactions lib
    let (_, wallet) ← theWallet
    checkpointFor lib wallet)
  quiet (lib.call .newBlockChain)
  mark (note .running)
  quiet (newPeerGroup lib)
  let (ref, _) ← quiet theWallet
  quiet (onPeerGroup lib .addWallet fun group => { group with wallets := group.wallets ++ [ref] })
  quiet (native .onBalanceChanged)
  mark (note .told)
  quiet do
    trackPendingTransactions ref
    onPeerGroup lib .startAndWait fun group => { group with running := true }
    lib.call .startBlockChainDownload

/-! ### Operations -/

def useWallet (lib : Lib) (ref : WalletRef) : Watching γ Unit := do
  quiet (modify fun w => { w with wallet := some ref })
  quiet (lib.call .autosaveToFile)
  let w ← quiet get
  quiet (modifyWallet ref fun wallet => { wallet with autosaveFile := w.walletFile })
  let _ ← quiet (getWalletAddress lib)
  quiet (modifyWallet ref fun wallet => { wallet with eventListeners := wallet.eventListeners + 1 })
  startBlockchain note lib
  quiet (cleanup lib ref)

def start (lib : Lib) : Watching γ Unit := do
  let w ← quiet get
  quiet (if w.networkParams.isNone then setTestingNetwork false else pure ())
  let walletFile := w.dataFile "/bitcoinkit.wallet"
  quiet (modify fun w => { w with wallet := none, walletFile := some walletFile })
  if (w.files.wallets walletFile).isNone then
    throw (noWalletException ("No wallet file found at: " ++ walletFile))
  else
    catchIf (Throwable.instanceOf fileNotFoundExceptionClass)
      (do
        let ref ← loadWalletFromFile note lib walletFile
        useWallet note lib ref)
      fun _ => throw (noWalletException ("No wallet file found at: " ++ walletFile))

def createWallet (lib : Lib) (utf16Password : Option CharArrayRef) : Watching γ Unit := do
  let w ← quiet get
  match w.walletFile with
  | none => throw (illegalStateException "createWallet cannot be called before start")
  | some walletFile =>
    if (w.files.wallets walletFile).isSome then
      throw (existingWalletException
        ("Trying to create a wallet even though one exists: " ++ walletFile))
    else
      let ref ← quiet newWallet
      quiet (updateLastWalletChange lib ref)
      let privateKey := lib.newKey
      quiet (modifyWallet ref fun wallet => { wallet with keys := wallet.keys ++ [privateKey] })
      let creationTime := privateKey.creationTimeSeconds
      quiet (if utf16Password.isSome then do
          encryptWallet lib utf16Password ref
          let w ← get
          let _ ← (w.wallets.cell ref).firstKey
          modifyWallet ref fun wallet => wallet.withCreationTime creationTime
        else pure ())
      saveToFile note lib ref walletFile
      quiet (deleteBlockchainDataFile lib)
      useWallet note lib ref

def stop (lib : Lib) : Watching γ Unit :=
  catchIf (Throwable.instanceOf exceptionClass)
    (do
      quiet (shutdownBlockchain lib)
      let w ← quiet get
      match w.wallet with
      | some ref =>
        let walletFile ← quiet (deref w.walletFile)
        saveToFile note lib ref walletFile
      | none => pure ())
    fun e => throw (runtimeException e)

def resetBlockchain (lib : Lib) : Watching γ Unit :=
  catchIf (Throwable.instanceOf exceptionClass)
    (do
      quiet (shutdownBlockchain lib)
      quiet (deleteBlockchainDataFile lib)
      quiet (modify fun w => { w with blocksToDownload := 0 })
      let w ← quiet get
      for tx in w.trackedTransactions do
        quiet (stopTrackingTransaction tx)
      startBlockchain note lib)
    fun e => throw (runtimeException e)

def exportWallet (lib : Lib) (path : String) : Watching γ Unit := do
  let (ref, _) ← quiet theWallet
  saveToFile note lib ref path

def autosave (lib : Lib) (ref : WalletRef) : Watching γ Unit := do
  let w ← quiet get
  match (w.wallets.cell ref).autosaveFile with
  | some f => saveToFile note lib ref f
  | none => pure ()

/-! ### Handlers -/

def onNewTransaction (lib : Lib) (tx : Transaction) : Watching γ Unit := do
  let w ← quiet get
  if hasKey Transaction.hash w.trackedTransactions tx then pure ()
  else
    quiet (native .onBalanceChanged)
    mark (note .told)
    quiet do
      lib.interleave .beforeSnapshot
      let json ← reportOrNull lib tx
      lib.interleave .afterSnapshot
      native (.onTransactionChanged tx.hash json)
      let pending ← isPending tx
      if pending then
        lib.interleave .beforeListening
        trackTransaction tx
      else pure ()

def onConfidenceChanged (lib : Lib) (tx : Transaction) (reason : ChangeReason) :
    Watching γ Unit :=
  if reason = .type then do
    let pending ← quiet (isPending tx)
    quiet (lib.interleave .beforeUnlistening)
    quiet (if pending then pure () else stopTrackingTransaction tx)
    quiet (native .onBalanceChanged)
    mark (note .told)
    quiet do
      lib.interleave .beforeSnapshot
      let json ← reportOrNull lib tx
      lib.interleave .afterSnapshot
      native (.onTransactionChanged tx.hash json)
  else pure ()

def onReorganize : Watching γ Unit := do
  quiet (native .onBalanceChanged)
  mark (note .told)

def handle (lib : Lib) : UserThreadCall → Watching γ Unit
  | .onCoinsReceived tx => onNewTransaction note lib tx
  | .onCoinsSent tx => onNewTransaction note lib tx
  | .onReorganize => onReorganize note
  | .onConfidenceChanged tx reason => onConfidenceChanged note lib tx reason

def deliverNext (lib : Lib) : Watching γ Unit := do
  let w ← quiet get
  match w.userThread with
  | [] => pure ()
  | call :: rest =>
    quiet (modify fun w => { w with userThread := rest })
    tryCatch (handle note lib call) fun e => quiet (uncaughtException e)

def onAck (lib : Lib) (sessionId : Int32) (tx : Transaction) (callbackId : Int32) :
    Watching γ Unit :=
  catchIf (Throwable.instanceOf jsonExceptionClass)
    (do
      quiet (lib.commitTx tx)
      quiet (removeSession sessionId)
      onNewTransaction note lib tx
      quiet do
        lib.broadcastTransaction
        let ackDetails ← getPaymentRequestAckDetails lib
        native (.onPaymentRequestProcessed callbackId tx.hash ackDetails))
    fun e => quiet (native (.onPaymentRequestProcessingFailed callbackId e))

def onSuccess (lib : Lib) : Pending → Watching γ Unit
  | .ack sessionId tx callbackId _ => onAck note lib sessionId tx callbackId
  | future => quiet (BitcoinKit.onSuccess lib future)

/-! ### Labels and happenings -/

def onBehalfOf {α : Type} (call : Nat) (code : Watching γ α) : Watching γ α := do
  quiet (modify fun w => { w with activity := call })
  code

def completeFuture (lib : Lib) (index : Nat) (failure : Option Throwable) : Watching γ Unit := do
  let w ← quiet get
  match w.pending[index]? with
  | none => pure ()
  | some future =>
    quiet (modify fun w => { w with pending := w.pending.eraseIdx index })
    onBehalfOf future.call (match failure with
      | none => onSuccess note lib future
      | some error => quiet (onFailure error future))

/-- The code of the labels in which a milestone can fall; that of the others is taken over. -/
def code : Label → Watching γ Unit
  | .start lib => onBehalfOf 0 (start note lib)
  | .createWallet lib password => onBehalfOf 0 do
      let array ← quiet (newCharArray password)
      createWallet note lib array
  | .stop lib => onBehalfOf 0 (stop note lib)
  | .resetBlockchain lib => onBehalfOf 0 (resetBlockchain note lib)
  | .exportWallet lib path => onBehalfOf 0 (exportWallet note lib path)
  | .complete lib index failure => completeFuture note lib index failure
  | .deliver lib => onBehalfOf 0 (deliverNext note lib)
  | label => quiet label.code

def live (s : World × γ) : Happening → World × γ
  | .call label => after (code note label s)
  | .autosave lib ref => after (autosave note lib ref s)
  | .restart => (s.1.restart, s.2)

/-! ### It is the same code -/

theorem erases_loadWalletFromFile (lib : Lib) (f : File) :
    Erases (loadWalletFromFile note lib f) (BitcoinKit.loadWalletFromFile lib f) := by
  have h : Erases (loadWalletFromFile note lib f)
      (BitcoinKit.loadWalletFromFile lib f >>= fun ref => pure ref) :=
    erases_bind (erases_quiet _) fun ref => erases_marking (erases_pure ref) _
  rwa [bind_pure] at h

theorem erases_saveToFile (lib : Lib) (ref : WalletRef) (f : File) :
    Erases (saveToFile note lib ref f) (BitcoinKit.saveToFile lib ref f) :=
  erases_marked (erases_quiet _) _

theorem erases_newBlockStore (lib : Lib) (chainFile : File) :
    Erases (newBlockStore note lib chainFile) (BitcoinKit.newBlockStore lib chainFile) :=
  erases_bind (erases_quiet _) fun _ => erases_marking (erases_quiet _) _

theorem erases_startBlockchain (lib : Lib) :
    Erases (startBlockchain note lib) (BitcoinKit.startBlockchain lib) := by
  refine erases_bind (erases_quiet _) fun w => ?_
  refine erases_bind (erases_newBlockStore note lib _) fun _ => ?_
  refine erases_bind (erases_quiet _) fun _ => erases_bind (erases_quiet _) fun _ => ?_
  refine erases_marking (erases_bind (erases_quiet _) fun _ => ?_) _
  refine erases_bind (erases_quiet _) fun ⟨ref, _⟩ => erases_bind (erases_quiet _) fun _ => ?_
  exact erases_bind (erases_quiet _) fun _ => erases_marking (erases_quiet _) _

theorem erases_useWallet (lib : Lib) (ref : WalletRef) :
    Erases (useWallet note lib ref) (BitcoinKit.useWallet lib ref) := by
  refine erases_bind (erases_quiet _) fun _ => erases_bind (erases_quiet _) fun _ => ?_
  refine erases_bind (erases_quiet _) fun w => erases_bind (erases_quiet _) fun _ => ?_
  refine erases_bind (erases_quiet _) fun _ => erases_bind (erases_quiet _) fun _ => ?_
  exact erases_bind (erases_startBlockchain note lib) fun _ => erases_quiet _

theorem erases_start (lib : Lib) : Erases (start note lib) (BitcoinKit.start lib) := by
  refine erases_bind (erases_quiet _) fun w => erases_bind (erases_quiet _) fun _ => ?_
  refine erases_bind (erases_quiet _) fun _ => erases_ite (erases_throw _) ?_
  refine erases_catchIf ?_ fun _ => erases_throw _
  exact erases_bind (erases_loadWalletFromFile note lib _) fun ref => erases_useWallet note lib ref

theorem erases_createWallet (lib : Lib) (utf16Password : Option CharArrayRef) :
    Erases (createWallet note lib utf16Password) (BitcoinKit.createWallet lib utf16Password) := by
  refine erases_bind (erases_quiet _) fun w => ?_
  cases w.walletFile with
  | none => exact erases_throw _
  | some walletFile =>
    refine erases_ite (erases_throw _) (erases_bind (erases_quiet _) fun ref => ?_)
    refine erases_bind (erases_quiet _) fun _ => erases_bind (erases_quiet _) fun _ => ?_
    refine erases_bind (erases_quiet _) fun _ => ?_
    refine erases_bind (erases_saveToFile note lib ref walletFile) fun _ => ?_
    exact erases_bind (erases_quiet _) fun _ => erases_useWallet note lib ref

theorem erases_stop (lib : Lib) : Erases (stop note lib) (BitcoinKit.stop lib) := by
  refine erases_catchIf ?_ fun _ => erases_throw _
  refine erases_bind (erases_quiet _) fun _ => erases_bind (erases_quiet _) fun w => ?_
  cases w.wallet with
  | none => exact erases_pure _
  | some ref => exact erases_bind (erases_quiet _) fun _ => erases_saveToFile note lib ref _

theorem erases_resetBlockchain (lib : Lib) :
    Erases (resetBlockchain note lib) (BitcoinKit.resetBlockchain lib) := by
  refine erases_catchIf ?_ fun _ => erases_throw _
  refine erases_bind (erases_quiet _) fun _ => erases_bind (erases_quiet _) fun _ => ?_
  refine erases_bind (erases_quiet _) fun _ => erases_bind (erases_quiet _) fun w => ?_
  refine erases_bind (erases_forIn (fun tx _ => ?_) _ _) fun _ => erases_startBlockchain note lib
  exact erases_bind (erases_quiet _) fun _ => erases_pure _

theorem erases_autosave (lib : Lib) (ref : WalletRef) :
    Erases (autosave note lib ref) (BitcoinKit.autosave lib ref) := by
  refine erases_bind (erases_quiet _) fun w => ?_
  cases (w.wallets.cell ref).autosaveFile with
  | none => exact erases_pure _
  | some f => exact erases_saveToFile note lib ref f

theorem erases_exportWallet (lib : Lib) (path : String) :
    Erases (exportWallet note lib path) (BitcoinKit.exportWallet lib path) :=
  erases_bind (erases_quiet _) fun ⟨ref, _⟩ => erases_saveToFile note lib ref path

theorem erases_onNewTransaction (lib : Lib) (tx : Transaction) :
    Erases (onNewTransaction note lib tx) (BitcoinKit.onNewTransaction lib tx) := by
  refine erases_bind (erases_quiet _) fun w => erases_ite (erases_pure _) ?_
  exact erases_bind (erases_quiet _) fun _ => erases_marking (erases_quiet _) _

theorem erases_onConfidenceChanged (lib : Lib) (tx : Transaction) (reason : ChangeReason) :
    Erases (onConfidenceChanged note lib tx reason)
      (BitcoinKit.onConfidenceChanged lib tx reason) := by
  refine erases_ite ?_ (erases_pure _)
  refine erases_bind (erases_quiet _) fun pending => erases_bind (erases_quiet _) fun _ => ?_
  refine erases_bind (erases_quiet _) fun _ => erases_bind (erases_quiet _) fun _ => ?_
  exact erases_marking (erases_quiet _) _

theorem erases_handle (lib : Lib) (call : UserThreadCall) :
    Erases (handle note lib call) (BitcoinKit.handle lib call) := by
  cases call with
  | onCoinsReceived tx => exact erases_onNewTransaction note lib tx
  | onCoinsSent tx => exact erases_onNewTransaction note lib tx
  | onReorganize => exact erases_marked (erases_quiet _) _
  | onConfidenceChanged tx reason => exact erases_onConfidenceChanged note lib tx reason

theorem erases_deliverNext (lib : Lib) :
    Erases (deliverNext note lib) (BitcoinKit.deliverNext lib) := by
  refine erases_bind (erases_quiet _) fun w => ?_
  cases w.userThread with
  | nil => exact erases_pure _
  | cons call rest =>
    refine erases_bind (erases_quiet _) fun _ => ?_
    exact erases_tryCatch (erases_handle note lib call) fun e => erases_quiet _

theorem erases_onSuccess (lib : Lib) (future : Pending) :
    Erases (onSuccess note lib future) (BitcoinKit.onSuccess lib future) := by
  cases future with
  | ack sessionId tx callbackId call =>
    refine erases_catchIf ?_ fun e => erases_quiet _
    refine erases_bind (erases_quiet _) fun _ => erases_bind (erases_quiet _) fun _ => ?_
    exact erases_bind (erases_onNewTransaction note lib tx) fun _ => erases_quiet _
  | session callbackId => exact erases_quiet _
  | broadcast sessionId tx callbackId call => exact erases_quiet (onPaymentBroadcast sessionId tx callbackId)
  | sent tx => exact erases_quiet (native _)

theorem erases_onBehalfOf {α : Type} (call : Nat) {code' : Watching γ α} {code : Java α}
    (h : Erases code' code) : Erases (onBehalfOf call code') (BitcoinKit.onBehalfOf call code) :=
  erases_bind (erases_quiet _) fun _ => h

theorem erases_completeFuture (lib : Lib) (index : Nat) (failure : Option Throwable) :
    Erases (completeFuture note lib index failure) (BitcoinKit.completeFuture lib index failure) := by
  refine erases_bind (erases_quiet _) fun w => ?_
  cases w.pending[index]? with
  | none => exact erases_pure _
  | some future =>
    refine erases_bind (erases_quiet _) fun _ => erases_onBehalfOf _ ?_
    cases failure with
    | none => exact erases_onSuccess note lib future
    | some error => exact erases_quiet _

theorem erases_code (label : Label) : Erases (code note label) label.code := by
  cases label with
  | start lib => exact erases_onBehalfOf 0 (erases_start note lib)
  | createWallet lib password =>
    exact erases_onBehalfOf 0 (erases_bind (erases_quiet _) fun array =>
      erases_createWallet note lib array)
  | stop lib => exact erases_onBehalfOf 0 (erases_stop note lib)
  | resetBlockchain lib => exact erases_onBehalfOf 0 (erases_resetBlockchain note lib)
  | exportWallet lib path => exact erases_onBehalfOf 0 (erases_exportWallet note lib path)
  | complete lib index failure => exact erases_completeFuture note lib index failure
  | deliver lib => exact erases_onBehalfOf 0 (erases_deliverNext note lib)
  | _ =>
    unfold code
    exact erases_quiet _

/-- Watching changes nothing about what happens to the program. -/
theorem fst_live (s : World × γ) (h : Happening) : (live note s h).1 = BitcoinKit.live s.1 h := by
  cases h with
  | call label => exact erases_after (erases_code note label) s
  | autosave lib ref => exact erases_after (erases_autosave note lib ref) s
  | restart => rfl

end Watched

end BitcoinKit

import BitcoinKit.Java.Lifecycle
import BitcoinKit.Java.Payments
import BitcoinKit.Schemes.Run

/-! The Java side as one machine. Its labels are the calls into the manager, the completions of its
    futures, and what bitcoinj and the network do on their own: a transaction arriving in a wallet, a
    wallet event, a change of confidence, and the user thread making the next queued call. A run is a
    list of labels, so every interleaving of these is a run. -/

namespace BitcoinKit
open Schemes

inductive Label where
  | setTestingNetwork (testing : Bool)
  | setDataDirectory (path : String)
  | setCheckpointsFilePath (path : Option String)
  | start (lib : Lib)
  | createWallet (lib : Lib) (password : Option Chars)
  | stop (lib : Lib)
  | resetBlockchain (lib : Lib)
  | deleteBlockchainDataFile (lib : Lib)
  | exportWallet (lib : Lib) (path : String)
  | changeWalletPassword (lib : Lib) (old new : Option Chars)
  | signMessage (lib : Lib) (message : String) (password : Option Chars)
  | exportPrivateKey (lib : Lib) (password : Option Chars)
  | isPasswordCorrect (lib : Lib) (password : Option Chars)
  | sendCoins (lib : Lib) (amount recipient : String) (password : Option Chars)
  | openPaymentRequestFromFile (lib : Lib) (path : String) (callbackId : Int32)
  | openPaymentRequestFromURL (lib : Lib) (url : String) (callbackId : Int32)
  | sendPaymentRequest (lib : Lib) (sessionId : Int32) (password : Option Chars)
      (callbackId : Int32)
  | complete (lib : Lib) (index : Nat) (failure : Option Throwable)
  | receive (wallet : WalletRef) (hash : Sha256Hash) (inputs : List OutPoint) (type : ConfidenceType)
  | coinsReceived (wallet : WalletRef) (tx : Transaction)
  | coinsSent (wallet : WalletRef) (tx : Transaction)
  | reorganize (wallet : WalletRef)
  | confidenceType (tx : Transaction) (type : ConfidenceType)
  | confidenceDetail (tx : Transaction) (reason : ChangeReason)
  | deliver (lib : Lib)

/-- A password as the bridge passes it: a new char array, or `null`. -/
def newCharArray (password : Option Chars) : Java (Option CharArrayRef) :=
  match password with
  | none => pure none
  | some chars => do
    let w ← get
    modify fun w => { w with secrets :=
      { w.secrets with charArrays := w.secrets.charArrays.alloc chars } }
    pure (some w.secrets.charArrays.next)

/-- Code that takes a password, called from the bridge. -/
def withPassword {α : Type} (password : Option Chars) (code : Option CharArrayRef → Java α) :
    Java α := do
  let array ← newCharArray password
  code array

/-- Run code on behalf of payment call number `call`. -/
def onBehalfOf {α : Type} (call : Nat) (code : Java α) : Java α := do
  modify fun w => { w with activity := call }
  code

/-- A `sendPaymentRequest` call gets the next number, and its throw is noted. -/
def numberedPayment (code : Java Unit) : Java Unit := do
  modify fun w => { w with calls := w.calls + 1, activity := w.calls + 1 }
  tryCatch code fun e => do
    modify fun w => { w with threw := w.threw ++ [w.activity] }
    throw e

/-- A future completes: its callback leaves the list and runs. -/
def completeFuture (lib : Lib) (index : Nat) (failure : Option Throwable) : Java Unit := do
  let w ← get
  match w.pending[index]? with
  | none => pure ()
  | some future =>
    modify fun w => { w with pending := w.pending.eraseIdx index }
    onBehalfOf future.call (match failure with
      | none => onSuccess lib future
      | some error => onFailure error future)

/-- A transaction that a wallet did not have arrives from the network. It need not be the wallet in use:
    after another `start` the peer group of an earlier wallet may still run. -/
def World.receive (w : World) (ref : WalletRef) (hash : Sha256Hash) (inputs : List OutPoint)
    (type : ConfidenceType) : World :=
  if ref < w.wallets.next then
    let tx : Transaction := ⟨w.nextTransaction, hash, inputs, none⟩
    { w with
      nextTransaction := w.nextTransaction + 1
      confidence := Function.update w.confidence tx type
      wallets := w.wallets.write ref ((w.wallets.cell ref).withTransaction tx) }
  else w

/-- A wallet event is queued for each registration of the manager with that wallet. -/
def World.walletEvent (w : World) (ref : WalletRef) (call : UserThreadCall) : World :=
  { w with userThread := w.userThread ++
      List.replicate (w.wallets.cell ref).eventListeners call }

/-- The user thread makes its next call; an exception goes to the manager's own handler. -/
def deliverNext (lib : Lib) : Java Unit := do
  let w ← get
  match w.userThread with
  | [] => pure ()
  | call :: rest =>
    modify fun w => { w with userThread := rest }
    tryCatch (handle lib call) uncaughtException

/-- The code a label runs. -/
def Label.code : Label → Java Unit
  | .setTestingNetwork testing => onBehalfOf 0 (BitcoinKit.setTestingNetwork testing)
  | .setDataDirectory path => onBehalfOf 0 (BitcoinKit.setDataDirectory path)
  | .setCheckpointsFilePath path => onBehalfOf 0 (BitcoinKit.setCheckpointsFilePath path)
  | .start lib => onBehalfOf 0 (BitcoinKit.start lib)
  | .createWallet lib password =>
    onBehalfOf 0 (withPassword password (BitcoinKit.createWallet lib))
  | .stop lib => onBehalfOf 0 (BitcoinKit.stop lib)
  | .resetBlockchain lib => onBehalfOf 0 (BitcoinKit.resetBlockchain lib)
  | .deleteBlockchainDataFile lib => onBehalfOf 0 (BitcoinKit.deleteBlockchainDataFile lib)
  | .exportWallet lib path => onBehalfOf 0 (BitcoinKit.exportWallet lib path)
  | .changeWalletPassword lib old new =>
    onBehalfOf 0 (withPassword old fun oldArray => withPassword new fun newArray =>
      BitcoinKit.changeWalletPassword lib oldArray newArray)
  | .signMessage lib message password =>
    onBehalfOf 0 (withPassword password fun array => do
      let _ ← BitcoinKit.signMessage lib message array)
  | .exportPrivateKey lib password =>
    onBehalfOf 0 (withPassword password fun array => do
      let _ ← BitcoinKit.exportPrivateKey lib array)
  | .isPasswordCorrect lib password =>
    onBehalfOf 0 (withPassword password fun array => do
      let _ ← BitcoinKit.isPasswordCorrect lib array)
  | .sendCoins lib amount recipient password =>
    onBehalfOf 0 (withPassword password (BitcoinKit.sendCoins lib amount recipient))
  | .openPaymentRequestFromFile lib path callbackId =>
    onBehalfOf 0 (BitcoinKit.openPaymentRequestFromFile lib path callbackId)
  | .openPaymentRequestFromURL lib url callbackId =>
    onBehalfOf 0 (BitcoinKit.openPaymentRequestFromURL lib url callbackId)
  | .sendPaymentRequest lib sessionId password callbackId =>
    numberedPayment (withPassword password fun array =>
      BitcoinKit.sendPaymentRequest lib sessionId array callbackId)
  | .complete lib index failure => completeFuture lib index failure
  | .receive ref hash inputs type => onBehalfOf 0 (modify fun w => w.receive ref hash inputs type)
  | .coinsReceived ref tx => onBehalfOf 0 (modify fun w => w.walletEvent ref (.onCoinsReceived tx))
  | .coinsSent ref tx => onBehalfOf 0 (modify fun w => w.walletEvent ref (.onCoinsSent tx))
  | .reorganize ref => onBehalfOf 0 (modify fun w => w.walletEvent ref .onReorganize)
  | .confidenceType tx type => onBehalfOf 0 (modify fun w => w.changeConfidence tx type)
  | .confidenceDetail tx reason => onBehalfOf 0 (modify fun w =>
      { w with userThread := w.userThread ++
          List.replicate (w.registrations.count tx) (.onConfidenceChanged tx reason) })
  | .deliver lib => onBehalfOf 0 (deliverNext lib)

/-- One step of the machine: the world the label's code leaves, however it ends. -/
def step (w : World) (l : Label) : World := after (l.code w)

def Label.isStart : Label → Bool
  | .start _ => true
  | _ => false

/-- The labels that bring the manager up. -/
def Label.bringsUp : Label → Bool
  | .start _ => true
  | .createWallet _ _ => true
  | .resetBlockchain _ => true
  | _ => false

/-- The session a label pays. -/
def Label.paidSession : Label → Option Int32
  | .sendPaymentRequest _ sessionId _ _ => some sessionId
  | _ => none

/-- A wallet is created and a payment request loaded, as session 1. -/
def requestLoaded (lib : Lib) : List Label :=
  [.start .fair, .createWallet .fair none, .openPaymentRequestFromFile lib "request" 1]

end BitcoinKit

import BitcoinKit.Java.Throwable
import BitcoinKit.Schemes.Heap
import BitcoinKit.Schemes.KeyedSet
import BitcoinKit.Schemes.Throwing

/-! The Java side: the fields of `BitcoinManager`, the objects of bitcoinj it holds on to, the files,
    and what has been done so far.

    Objects that are compared by identity carry a reference. A `Transaction` carries its hash as
    well: its `equals` is by hash, the registration of a listener is on the object. Values that are
    fixed for an object's life (a transaction's hash and inputs, a session's network and expiry) are
    fields of the object; what changes (a transaction's confidence type, a wallet's content) is
    looked up in the world. -/

namespace BitcoinKit
open Schemes

abbrev Sha256Hash := Nat
abbrev Address := String
abbrev File := String
abbrev Bytes := List UInt8
abbrev Chars := List UInt16
abbrev WalletRef := Nat
abbrev CharArrayRef := Nat
abbrev AesKeyRef := Nat
abbrev PrivateKeyRef := Nat

inductive NetworkParameters where | mainNet | testNet3
  deriving DecidableEq, Repr

/-- `TransactionConfidence.ConfidenceType`. -/
inductive ConfidenceType where | unknown | pending | building | dead
  deriving DecidableEq, Repr

/-- `TransactionConfidence.Listener.ChangeReason`. -/
inductive ChangeReason where | type | depth | seenPeers
  deriving DecidableEq, Repr

/-- An output of an earlier transaction, as an input names it. -/
structure OutPoint where
  hash : Sha256Hash
  index : Nat
  deriving DecidableEq, Repr

/-- A `Transaction` object. `origin` is the payment session it was built for, if any. -/
structure Transaction where
  ref : Nat
  hash : Sha256Hash
  inputs : List OutPoint
  origin : Option Nat
  deriving DecidableEq, Repr

structure PkiVerificationData where
  name : String
  rootAuthorityName : String
  deriving DecidableEq, Repr

/-- A `PaymentSession` object. -/
structure PaymentSession where
  ref : Nat
  networkParams : NetworkParameters
  /-- Time of expiry in seconds, `none` for a request that does not expire. -/
  expires : Option Nat
  paymentUrl : Option String
  value : Int
  memo : Option String
  pkiVerificationData : Option PkiVerificationData
  deriving DecidableEq, Repr

def PaymentSession.isExpired (session : PaymentSession) (now : Nat) : Bool :=
  session.expires.any (· < now)

/-! ### Wallets -/

structure ECKey where
  pubKey : Nat
  creationTimeSeconds : Nat
  deriving DecidableEq, Repr

/-- A `KeyCrypterScrypt`, identified by its salt. -/
structure KeyCrypter where
  salt : Nat
  deriving DecidableEq, Repr

/-- A `Wallet` object. Its keys are encrypted exactly when it has a key crypter, and it holds one
    object per transaction hash. -/
structure Wallet where
  keys : List ECKey
  keyCrypter : Option KeyCrypter
  /-- Milliseconds, as `LastWalletChangeExtension` keeps them. -/
  lastWalletChangeDate : Option Int64
  transactions : List Transaction
  distinct : Distinct Transaction.hash transactions
  autosaveFile : Option File
  eventListeners : Nat

def Wallet.isEncrypted (wallet : Wallet) : Bool := wallet.keyCrypter.isSome

/-- `new Wallet(params)` with the manager's extension added. -/
def Wallet.empty : Wallet := ⟨[], none, none, [], distinct_nil, none, 0⟩

instance : Inhabited Wallet := ⟨Wallet.empty⟩

/-- A transaction as a wallet file keeps it. -/
structure SavedTransaction where
  hash : Sha256Hash
  inputs : List OutPoint
  confidence : ConfidenceType
  deriving DecidableEq, Repr

/-- The content of a wallet file. -/
structure WalletImage where
  keys : List ECKey
  keyCrypter : Option KeyCrypter
  /-- The bytes of `LastWalletChangeExtension`, if the file has any. -/
  lastWalletChange : Option Bytes
  transactions : List SavedTransaction
  distinct : Distinct SavedTransaction.hash transactions

structure Files where
  wallets : File → Option WalletImage
  chains : File → Bool
  checkpoints : File → Bool

/-- No files at all. -/
def Files.none : Files := ⟨fun _ => .none, fun _ => false, fun _ => false⟩

structure PeerGroup where
  running : Bool
  wallets : List WalletRef
  deriving DecidableEq, Repr, Inhabited

structure BlockStore where
  file : File
  isOpen : Bool
  /-- The time a checkpoint was picked for, if one was. -/
  checkpoint : Option Nat
  deriving DecidableEq, Repr, Inhabited

/-! ### What is still to come -/

/-- Callbacks waiting on bitcoinj's user thread. -/
inductive UserThreadCall where
  | onCoinsReceived (tx : Transaction)
  | onCoinsSent (tx : Transaction)
  | onReorganize
  | onConfidenceChanged (tx : Transaction) (reason : ChangeReason)
  deriving DecidableEq, Repr

/-- A future with a callback added, and what the callback captured. The last field of a payment's
    future is the number of the `sendPaymentRequest` call it belongs to. -/
inductive Pending where
  | session (callbackId : Int32)
  | ack (sessionId : Int32) (tx : Transaction) (callbackId : Int32) (call : Nat)
  | broadcast (sessionId : Int32) (tx : Transaction) (callbackId : Int32) (call : Nat)
  | sent (tx : Transaction)
  deriving DecidableEq

/-! ### Calls to the Cocoa side -/

/-- A value in a `JSONObject`. -/
inductive JSONValue where
  | num (n : Int)
  | str (s : String)
  deriving DecidableEq, Repr

abbrev JSONObject := List (String × JSONValue)

/-- The object `getJSONFromTransaction` prints: its plain entries, and the two arrays. -/
structure TransactionJSON where
  fields : JSONObject
  inputs : List JSONObject
  outputs : List JSONObject
  deriving DecidableEq, Repr

/-- The native methods, with their arguments. -/
inductive NativeCall where
  | onTransactionChanged (txid : Sha256Hash) (json : Option TransactionJSON)
  | onTransactionFailed
  | onTransactionSuccess (txid : Sha256Hash)
  | onBalanceChanged
  | onException (exception : Throwable)
  | onPaymentRequestLoaded (callbackId sessionId : Int32) (requestDetails : JSONObject)
  | onPaymentRequestLoadFailed (callbackId : Int32) (error : Throwable)
  | onPaymentRequestProcessed (callbackId : Int32) (txid : Sha256Hash) (ackDetails : JSONObject)
  | onPaymentRequestProcessingFailed (callbackId : Int32) (error : Throwable)
  deriving DecidableEq

/-- The id of the callback a native call is for, if it is for one. -/
def NativeCall.callback : NativeCall → Option Int32
  | .onPaymentRequestLoaded callbackId _ _ => some callbackId
  | .onPaymentRequestLoadFailed callbackId _ => some callbackId
  | .onPaymentRequestProcessed callbackId _ _ => some callbackId
  | .onPaymentRequestProcessingFailed callbackId _ => some callbackId
  | _ => none

/-- The native calls that tell of transactions, balances and exceptions, and answer nobody. -/
def NativeCall.isNews : NativeCall → Bool
  | .onTransactionChanged _ _ => true
  | .onBalanceChanged => true
  | .onException _ => true
  | _ => false

theorem callback_of_isNews {call : NativeCall} (h : call.isNews) : call.callback = none := by
  cases call with
  | onTransactionChanged txid json => rfl
  | onBalanceChanged => rfl
  | onException exception => rfl
  | _ => cases h

/-- Contents of the Java heap that must not outlive a call: password arrays, AES keys and decrypted
    copies of a private key (`true` while a copy still holds the key). -/
structure Secrets where
  charArrays : Heap Chars
  aesKeys : Heap Bytes
  privateKeys : Heap Bool

structure World where
  -- the fields of the manager
  networkParams : Option NetworkParameters
  wallet : Option WalletRef
  dataDirectory : Option String
  checkpointsFilePath : Option String
  peerGroup : Option Nat
  blockStore : Option Nat
  walletFile : Option File
  blocksToDownload : Int32
  trackedTransactions : List Transaction
  paymentSessions : Int32 → Option PaymentSession
  paymentSessionsSequenceId : Int32
  -- objects behind them
  wallets : Heap Wallet
  peerGroups : Heap PeerGroup
  blockStores : Heap BlockStore
  secrets : Secrets
  nextTransaction : Nat
  nextSession : Nat
  confidence : Transaction → ConfidenceType
  /-- One entry for each registration of the manager as a confidence listener. -/
  registrations : List Transaction
  -- what bitcoinj has queued, and the files
  userThread : List UserThreadCall
  pending : List Pending
  files : Files
  -- what has been done, each entry with the number of the payment call it was done for (0: none)
  activity : Nat
  calls : Nat
  commits : List (Nat × Transaction)
  removals : List (Nat × Int32)
  natives : List (Nat × NativeCall)
  threw : List Nat

/-- A freshly constructed `BitcoinManager` over the files of an earlier process. -/
def World.initial (files : Files) : World where
  networkParams := none
  wallet := none
  dataDirectory := none
  checkpointsFilePath := none
  peerGroup := none
  blockStore := none
  walletFile := none
  blocksToDownload := 0
  trackedTransactions := []
  paymentSessions _ := none
  paymentSessionsSequenceId := 0
  wallets := ⟨0, fun _ => default⟩
  peerGroups := ⟨0, fun _ => default⟩
  blockStores := ⟨0, fun _ => default⟩
  secrets := ⟨⟨0, fun _ => []⟩, ⟨0, fun _ => []⟩, ⟨0, fun _ => false⟩⟩
  nextTransaction := 0
  nextSession := 0
  confidence _ := .unknown
  registrations := []
  userThread := []
  pending := []
  files := files
  activity := 0
  calls := 0
  commits := []
  removals := []
  natives := []
  threw := []

/-- Java code: it works on the world and may throw. -/
abbrev Java (α : Type) := EStateM Throwable World α

/-- Use of a reference that may be `null`. -/
def deref {α : Type} : Option α → Java α
  | some a => pure a
  | none => throw nullPointerException

/-- The current wallet, which must not be `null`. -/
def theWallet : Java (WalletRef × Wallet) := do
  let w ← get
  let ref ← deref w.wallet
  pure (ref, w.wallets.cell ref)

/-- `wallet.getKeys().get(0)`. -/
def Wallet.firstKey (wallet : Wallet) : Java ECKey :=
  match wallet.keys with
  | key :: _ => pure key
  | [] => throw indexOutOfBoundsException

/-- A call of a native method. -/
def native (call : NativeCall) : Java Unit :=
  modify fun w => { w with natives := w.natives ++ [(w.activity, call)] }

end BitcoinKit

import BitcoinKit.Java.World
import BitcoinKit.Schemes.DatePattern

/-! What the manager relies on and this repository does not contain: bitcoinj, the Java library and
    the network behind them. One `Lib` describes how they behave during one call into the manager:
    which library calls throw and what, and what the others return. A run hands every step a `Lib` of
    its own, so nothing is assumed to be the same twice, and any step may fail at any point. -/

namespace BitcoinKit
open Schemes

/-- The library calls that may throw, by the place they are made in. -/
inductive Site where
  | fileInputStream | parseToProto | readWallet | closeStream | saveToFile | autosaveToFile
  | openBlockStore | initBlockStore | clearTransactions | checkpointsStream | checkpoint
  | newBlockChain | newPeerGroup | addWallet | startAndWait | startBlockChainDownload | cleanup
  | stopAndWait | removeWallet | closeBlockStore
  | sendRequestTo | broadcastTransaction | commitTx | transactionJSON
  | parsePaymentRequest | newPaymentSession | verifyPki | requestJSON | sendPayment | ackJSON
  deriving DecidableEq, Repr

/-- Points inside the transaction handlers at which the network threads may change a confidence. -/
inductive Window where
  | beforeSnapshot | afterSnapshot | beforeListening | beforeUnlistening
  deriving DecidableEq, Repr

/-- A `Wallet.SendRequest` before completion: what is to be paid, and the payment session it comes
    from, if any. -/
structure SendRequest where
  outputs : List (Address × Int)
  origin : Option PaymentSession
  deriving DecidableEq, Repr

/-- What completing a request settles: the hash of the transaction and the coins it spends. -/
structure CompletedTx where
  hash : Sha256Hash
  inputs : List OutPoint
  deriving DecidableEq, Repr

/-- What bitcoinj tells of an input: whether it is a coinbase, the address its script gives or the
    `ScriptException` it throws, and the value of the output it is connected to. -/
structure InputView where
  isCoinBase : Bool
  fromAddress : Except Throwable Address
  connectedValue : Option Int

inductive ScriptKind where
  | address (toAddress : Address)
  | rawPubKey
  | multiSig
  | other
  deriving DecidableEq, Repr

structure OutputView where
  script : Except Throwable ScriptKind
  value : Int

/-- What bitcoinj tells of a transaction besides its hash and its confidence type. -/
structure TransactionView where
  value : Int
  inputs : List InputView
  outputs : List OutputView
  /-- `getUpdateTime()`, in milliseconds from 1970 on. -/
  updateTime : Nat
  numBroadcastPeers : Int
  depthInBlocks : Int

structure Lib where
  fails : Site → Option Throwable
  /-- Whether `File.delete` removes a file that is there. -/
  deletes : Bool
  now : Nat
  currentTimeMillis : Int64
  newKeyCrypter : KeyCrypter
  newKey : ECKey
  deriveKey : KeyCrypter → Chars → Except Throwable Bytes
  encryptKeys : Wallet → KeyCrypter → Bytes → Except Throwable (List ECKey)
  decryptKeys : Wallet → Bytes → Except Throwable (List ECKey)
  checkAESKey : Wallet → Bytes → Except Throwable Bool
  decryptKey : Wallet → ECKey → Bytes → Except Throwable Unit
  signMessage : ECKey → String → Except Throwable String
  privateKeyEncoded : ECKey → Option NetworkParameters → Except Throwable String
  /-- `SimpleDateFormat.format` by a pattern and in a zone, of a time in milliseconds from 1970 on. The
      locale is the default one of the virtual machine. -/
  formatDate : TimeZone → String → Nat → String
  parseAddress : Option NetworkParameters → String → Except Throwable Address
  toAddress : ECKey → Option NetworkParameters → Address
  completeTx : Wallet → SendRequest → Option Bytes → Except Throwable CompletedTx
  /-- `new FileInputStream` on a payment request file. -/
  requestStream : String → Except Throwable Unit
  createFromUrl : String → Except Throwable Unit
  loadedSession : PaymentSession
  getSendRequest : PaymentSession → Except Throwable (List (Address × Int))
  ackMemo : Option String
  view : Transaction → TransactionView
  during : Window → List (Transaction × ConfidenceType)
  /-- The pending transactions that `wallet.cleanup()` takes out as risky, by their hashes. -/
  risky : Sha256Hash → Bool

/-- A library with which nothing fails: the concrete one the runs on fixed inputs start from. A key is
    the bytes of its password, and a wallet's keys are open to every key. -/
def Lib.fair : Lib where
  fails _ := none
  deletes := true
  now := 0
  currentTimeMillis := 1
  newKeyCrypter := ⟨1⟩
  newKey := ⟨1, 1400000000⟩
  deriveKey _ chars := .ok (chars.map UInt16.toUInt8)
  encryptKeys wallet _ _ := .ok wallet.keys
  decryptKeys wallet _ := .ok wallet.keys
  checkAESKey _ _ := .ok true
  decryptKey _ _ _ := .ok ()
  signMessage _ message := .ok message
  privateKeyEncoded _ _ := .ok "key"
  formatDate _ _ _ := "date"
  parseAddress _ text := .ok text
  toAddress _ _ := "own"
  completeTx _ _ _ := .ok ⟨1, []⟩
  requestStream _ := .ok ()
  createFromUrl _ := .ok ()
  loadedSession := ⟨0, .mainNet, none, none, 0, none, none⟩
  getSendRequest _ := .ok []
  ackMemo := none
  view _ := ⟨0, [], [], 0, 0, 0⟩
  during _ := []
  risky _ := false

/-- Completing a request gives a transaction of this hash, spending the first output of `coin`. -/
def Lib.spending (hash coin : Sha256Hash) : Lib :=
  { Lib.fair with completeTx := fun _ _ _ => .ok ⟨hash, [⟨coin, 0⟩]⟩ }

/-- Payment requests come with a payment URL. -/
def Lib.withPaymentUrl : Lib :=
  { Lib.fair with loadedSession := ⟨0, .mainNet, none, some "pay", 0, none, none⟩ }

/-- No text is taken for an address. -/
def Lib.knowingNoAddress : Lib :=
  { Lib.fair with
    parseAddress := fun _ text =>
      .error (.withMessage addressFormatExceptionClass [exceptionClass] text) }

/-- No text is taken for the URL of a payment request. -/
def Lib.knowingNoURL : Lib :=
  { Lib.fair with
    createFromUrl := fun url => .error
      (.withMessage invalidURLClass [paymentRequestExceptionClass, exceptionClass] url) }

/-- `lib`, but the call made at `site` throws `e`. -/
def Lib.failingAt (lib : Lib) (site : Site) (e : Throwable) : Lib :=
  { lib with fails := fun s => if s = site then some e else lib.fails s }

/-- A library call that only succeeds or throws. -/
def Lib.call (lib : Lib) (site : Site) : Java Unit :=
  match lib.fails site with
  | none => pure ()
  | some e => throw e

/-- A library call with a result. -/
def result {α : Type} : Except Throwable α → Java α
  | .ok a => pure a
  | .error e => throw e

/-! ### The Java heap -/

/-- `Arrays.fill(array, '\0')`. -/
def fillChars (array : CharArrayRef) : Java Unit :=
  modify fun w => { w with secrets := { w.secrets with
    charArrays := w.secrets.charArrays.write array
      (List.replicate (w.secrets.charArrays.cell array).length 0) } }

def readChars (array : CharArrayRef) : Java Chars := do
  let w ← get
  pure (w.secrets.charArrays.cell array)

/-- `new KeyParameter(bytes)`. -/
def newAesKey (bytes : Bytes) : Java AesKeyRef := do
  let w ← get
  modify fun w => { w with secrets := { w.secrets with aesKeys := w.secrets.aesKeys.alloc bytes } }
  pure w.secrets.aesKeys.next

def readAesKey (key : AesKeyRef) : Java Bytes := do
  let w ← get
  pure (w.secrets.aesKeys.cell key)

/-- `Arrays.fill(aesKey.getKey(), (byte) 0)`. -/
def fillAesKey (key : AesKeyRef) : Java Unit :=
  modify fun w => { w with secrets := { w.secrets with
    aesKeys := w.secrets.aesKeys.write key
      (List.replicate (w.secrets.aesKeys.cell key).length 0) } }

/-- A decrypted copy of a private key. -/
def newPrivateKey : Java PrivateKeyRef := do
  let w ← get
  modify fun w => { w with secrets :=
    { w.secrets with privateKeys := w.secrets.privateKeys.alloc true } }
  pure w.secrets.privateKeys.next

/-- `decryptedKey.clearPrivateKey()`. -/
def clearPrivateKey (key : PrivateKeyRef) : Java Unit :=
  modify fun w => { w with secrets :=
    { w.secrets with privateKeys := w.secrets.privateKeys.write key false } }

/-! ### Transactions and their confidence -/

/-- A change of confidence type: each registered listener gets a call queued. -/
def World.changeConfidence (w : World) (tx : Transaction) (type : ConfidenceType) : World :=
  if w.confidence tx = type then w
  else { w with
    confidence := Function.update w.confidence tx type
    userThread := w.userThread ++
      List.replicate (w.registrations.count tx) (.onConfidenceChanged tx .type) }

/-- What the network threads do to confidences at a point inside a handler. -/
def Lib.interleave (lib : Lib) (window : Window) : Java Unit :=
  modify fun w => (lib.during window).foldl (fun w c => w.changeConfidence c.1 c.2) w

/-- `tx.getConfidence().addEventListener(this)`. -/
def addConfidenceListener (tx : Transaction) : Java Unit :=
  modify fun w => { w with registrations := tx :: w.registrations }

/-- `tx.getConfidence().removeEventListener(this)`. -/
def removeConfidenceListener (tx : Transaction) : Java Unit :=
  modify fun w => { w with registrations := w.registrations.erase tx }

/-- `tx.isPending()`. -/
def isPending (tx : Transaction) : Java Bool := do
  let w ← get
  pure (w.confidence tx = .pending)

/-! ### The wallet -/

/-- A change of a wallet object. -/
def modifyWallet (ref : WalletRef) (f : Wallet → Wallet) : Java Unit :=
  modify fun w => { w with wallets := w.wallets.write ref (f (w.wallets.cell ref)) }

/-- Completing a request makes the transaction object final. -/
def Lib.complete (lib : Lib) (request : SendRequest) (aesKey : Option AesKeyRef) :
    Java Transaction := do
  let (_, wallet) ← theWallet
  let w ← get
  let done ← result (lib.completeTx wallet request (aesKey.map w.secrets.aesKeys.cell))
  modify fun w => { w with nextTransaction := w.nextTransaction + 1 }
  pure ⟨w.nextTransaction, done.hash, done.inputs, request.origin.map PaymentSession.ref⟩

/-- A wallet with one more transaction. -/
def Wallet.withTransaction (wallet : Wallet) (tx : Transaction) : Wallet :=
  { wallet with
    transactions := addKey Transaction.hash wallet.transactions tx
    distinct := distinct_add wallet.distinct }

/-- `wallet.commitTx(tx)`: the wallet takes the transaction as pending, once per hash. -/
def Lib.commitTx (lib : Lib) (tx : Transaction) : Java Unit := do
  let (ref, wallet) ← theWallet
  lib.call .commitTx
  if hasKey Transaction.hash wallet.transactions tx then
    throw (illegalArgumentException "commitTx called on the same transaction twice")
  else
    modifyWallet ref fun wallet => wallet.withTransaction tx
    modify fun w => { w.changeConfidence tx .pending with commits := w.commits ++ [(w.activity, tx)] }

/-- `peerGroup.broadcastTransaction(tx)`. -/
def Lib.broadcastTransaction (lib : Lib) : Java Unit := do
  let w ← get
  let _ ← deref w.peerGroup
  lib.call .broadcastTransaction

/-- `Futures.addCallback(future, callback)`. -/
def addCallback (future : Nat → Pending) : Java Unit :=
  modify fun w => { w with pending := w.pending ++ [future w.activity] }

end BitcoinKit

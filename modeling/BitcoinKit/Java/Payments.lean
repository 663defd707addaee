import BitcoinKit.Java.Encryption
import BitcoinKit.Java.Tracking

/-! Sending: plain sends, and the payment protocol. A payment request is loaded into a session, and a
    session is paid in one of two ways:

        payment URL:   complete ─▶ submit ─▶ (ack) ─▶ commit ─▶ remove session ─▶ broadcast ─▶ report
        none:          complete ─▶ commit ─▶ broadcast ─▶ (broadcast done) ─▶ remove session ─▶ report

    What stands in parentheses is a future; what follows it runs later, in the callback. -/

namespace BitcoinKit
open Schemes

/-! ### Plain sends -/

/-- The value of a string of decimal digits, of which there must be one. -/
def decimalDigits (digits : List Char) : Option Nat :=
  if digits.isEmpty || !digits.all Char.isDigit then none
  else some (digits.foldl (fun n c => 10 * n + (c.toNat - '0'.toNat)) 0)

/-- `new BigInteger(text)`: an optional sign and digits. -/
def bigInteger (text : String) : Except Throwable Int :=
  let value := match text.toList with
    | '-' :: digits => (decimalDigits digits).map fun n => -(n : Int)
    | '+' :: digits => (decimalDigits digits).map fun n => (n : Int)
    | digits => (decimalDigits digits).map fun n => (n : Int)
  match value with
  | some n => .ok n
  | none => .error (numberFormatException text)

/-- `wallet.sendCoins(peerGroup, request)`: complete and commit, then broadcast. -/
def Lib.sendCoins (lib : Lib) (request : SendRequest) (aesKey : AesKeyRef) : Java Transaction := do
  let tx ← lib.complete request (some aesKey)
  lib.commitTx tx
  lib.broadcastTransaction
  pure tx

def sendCoins (lib : Lib) (amount sendToAddressString : String)
    (utf16Password : Option CharArrayRef) : Java Unit :=
  catchIf (Throwable.instanceOf keyCrypterExceptionClass)
    (do
      let aToSend ← result (bigInteger amount)
      let w ← get
      let sendToAddress ← result (lib.parseAddress w.networkParams sendToAddressString)
      lib.call .sendRequestTo
      let request : SendRequest := ⟨[(sendToAddress, aToSend)], none⟩
      let aesKey ← aesKeyForPassword lib utf16Password
      tryFinally
        (do
          let tx ← lib.sendCoins request aesKey
          addCallback fun _ => .sent tx)
        (wipeAesKey (some aesKey)))
    fun e => throw (wrongPasswordFrom e)

/-! ### Loading payment requests -/

def validatePaymentRequest (lib : Lib) (session : PaymentSession) : Java Unit := do
  let w ← get
  if some session.networkParams ≠ w.networkParams then
    throw (wrongNetworkException "This payment request is meant for a different Bitcoin network")
  else if session.isExpired lib.now then
    throw (expiredException "PaymentRequest is expired")
  else
    catchIf (Throwable.instanceOf paymentRequestExceptionClass) (lib.call .verifyPki)
      fun _ => pure ()

def getPaymentRequestDetails (lib : Lib) (session : PaymentSession) : Java JSONObject := do
  lib.call .requestJSON
  let request := put [] "amount" (some (.num session.value))
  let request := put request "memo" (session.memo.map .str)
  let request := put request "paymentURL" (session.paymentUrl.map .str)
  match session.pkiVerificationData with
  | some pki =>
    let request := put request "pkiName" (some (.str pki.name))
    pure (put request "pkiRootAuthorityName" (some (.str pki.rootAuthorityName)))
  | none => pure request

/-- The session object bitcoinj hands over: a new object each time. -/
def newSession (lib : Lib) : Java PaymentSession := do
  let w ← get
  modify fun w => { w with nextSession := w.nextSession + 1 }
  pure { lib.loadedSession with ref := w.nextSession }

/-- `paymentSessions.put(++paymentSessionsSequenceId, session)`. -/
def storeSession (session : PaymentSession) : Java Int32 := do
  let w ← get
  let sessionId := w.paymentSessionsSequenceId + 1
  modify fun w => { w with
    paymentSessionsSequenceId := sessionId
    paymentSessions := Function.update w.paymentSessions sessionId (some session) }
  pure sessionId

/-- `paymentSessions.remove(sessionId)`. -/
def removeSession (sessionId : Int32) : Java Unit :=
  modify fun w => { w with
    paymentSessions := Function.update w.paymentSessions sessionId none
    removals := w.removals ++ [(w.activity, sessionId)] }

/-- The statements both loaders share once they have a session. -/
def acceptSession (lib : Lib) (callbackId : Int32) (session : PaymentSession) : Java Unit := do
  validatePaymentRequest lib session
  let sessionId ← storeSession session
  let requestDetails ← getPaymentRequestDetails lib session
  native (.onPaymentRequestLoaded callbackId sessionId requestDetails)

def openPaymentRequestFromFile (lib : Lib) (path : String) (callbackId : Int32) : Java Unit := do
  result (lib.requestStream path)
  tryCatch
    (do
      lib.call .parsePaymentRequest
      lib.call .newPaymentSession
      let session ← newSession lib
      acceptSession lib callbackId session)
    fun e =>
      if e.instanceOf invalidProtocolBufferExceptionClass then
        native (.onPaymentRequestLoadFailed callbackId e)
      else if e.instanceOf jsonExceptionClass then
        native (.onPaymentRequestLoadFailed callbackId e)
      else if e.instanceOf paymentRequestExceptionClass then
        native (.onPaymentRequestLoadFailed callbackId e)
      else throw e

def openPaymentRequestFromURL (lib : Lib) (url : String) (callbackId : Int32) : Java Unit := do
  result (lib.createFromUrl url)
  addCallback fun _ => .session callbackId

/-- `onSuccess` of a session future. -/
def onSessionLoaded (lib : Lib) (callbackId : Int32) : Java Unit := do
  let session ← newSession lib
  catchIf (Throwable.instanceOf exceptionClass) (acceptSession lib callbackId session)
    fun e => native (.onPaymentRequestLoadFailed callbackId e)

/-! ### Paying a request -/

/-- `session.sendPayment(…)`: no payment URL, no future; otherwise expiry is checked and the payment
    submitted. -/
def Lib.sendPayment (lib : Lib) (session : PaymentSession) : Java Bool :=
  if session.paymentUrl.isNone then pure false
  else if session.isExpired lib.now then throw (expiredException "PaymentRequest is expired")
  else do
    lib.call .sendPayment
    pure true

def submitPayment (lib : Lib) (session : PaymentSession) (request : SendRequest)
    (aesKey : Option AesKeyRef) (sessionId callbackId : Int32) : Java Unit := do
  let tx ← lib.complete request aesKey
  let (_, wallet) ← theWallet
  let _refundKey ← wallet.firstKey
  let fack ← lib.sendPayment session
  if fack then
    addCallback fun call => .ack sessionId tx callbackId call
  else
    lib.commitTx tx
    lib.broadcastTransaction
    addCallback fun call => .broadcast sessionId tx callbackId call

def sendPaymentRequest (lib : Lib) (sessionId : Int32) (utf16Password : Option CharArrayRef)
    (callbackId : Int32) : Java Unit :=
  catchIf (Throwable.instanceOf keyCrypterExceptionClass)
    (do
      let w ← get
      let session ← deref (w.paymentSessions sessionId)
      let outputs ← result (lib.getSendRequest session)
      let request : SendRequest := ⟨outputs, some session⟩
      let aesKey ←
        (if utf16Password.isSome then do
          let key ← aesKeyForPassword lib utf16Password
          pure (some key)
        else pure none)
      tryFinally (submitPayment lib session request aesKey sessionId callbackId)
        (wipeAesKey aesKey))
    fun e => throw (wrongPasswordFrom e)

def getPaymentRequestAckDetails (lib : Lib) : Java JSONObject := do
  lib.call .ackJSON
  pure (put [] "memo" (lib.ackMemo.map .str))

/-- `onSuccess` of an ack future. -/
def onAck (lib : Lib) (sessionId : Int32) (tx : Transaction) (callbackId : Int32) : Java Unit :=
  catchIf (Throwable.instanceOf jsonExceptionClass)
    (do
      lib.commitTx tx
      removeSession sessionId
      onNewTransaction lib tx
      lib.broadcastTransaction
      let ackDetails ← getPaymentRequestAckDetails lib
      native (.onPaymentRequestProcessed callbackId tx.hash ackDetails))
    fun e => native (.onPaymentRequestProcessingFailed callbackId e)

/-- `onSuccess` of the broadcast future of a payment. -/
def onPaymentBroadcast (sessionId : Int32) (tx : Transaction) (callbackId : Int32) :
    Java Unit := do
  removeSession sessionId
  native (.onPaymentRequestProcessed callbackId tx.hash [])

/-- `onSuccess` of a future with a callback added. -/
def onSuccess (lib : Lib) : Pending → Java Unit
  | .session callbackId => onSessionLoaded lib callbackId
  | .ack sessionId tx callbackId _ => onAck lib sessionId tx callbackId
  | .broadcast sessionId tx callbackId _ => onPaymentBroadcast sessionId tx callbackId
  | .sent tx => native (.onTransactionSuccess tx.hash)

/-- `onFailure` of a future with a callback added. -/
def onFailure (error : Throwable) : Pending → Java Unit
  | .session callbackId => native (.onPaymentRequestLoadFailed callbackId error)
  | .ack _ _ callbackId _ => native (.onPaymentRequestProcessingFailed callbackId error)
  | .broadcast _ _ callbackId _ => native (.onPaymentRequestProcessingFailed callbackId error)
  | .sent _ => native .onTransactionFailed

/-- The payment call a future belongs to, 0 if none. -/
def Pending.call : Pending → Nat
  | .ack _ _ _ call => call
  | .broadcast _ _ _ call => call
  | .session _ => 0
  | .sent _ => 0

end BitcoinKit

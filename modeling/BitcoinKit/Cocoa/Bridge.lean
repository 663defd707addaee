import BitcoinKit.Cocoa.Texts
import BitcoinKit.Java.System
import Mathlib.Data.List.Infix

/-! The Cocoa side of the bridge: the fields of `HIBitcoinManager`, how it calls a Java method, and what
    its native methods do.

        Cocoa method ──▶ Java method ──▶ native methods, on the same thread
              ▲               │
              └── exception ──┘   mapped to an `NSError`, or raised again

    What the notifications and key-value observers of the application are told is beside it, in
    Cocoa/Display and Cocoa/Running: nothing the manager keeps depends on it. -/

namespace BitcoinKit
open Schemes

abbrev NSUInteger := UInt64

/-- A block of the application, by identity. -/
abbrev Block := Nat

/-- A password as `NSData`: the UTF-16 units in it. -/
abbrev NSData := Chars

structure NSError where
  code : Int
  localizedFailureReason : String
  deriving DecidableEq, Repr

/-- An exception named "Java exception". -/
structure NSException where
  reason : String
  deriving DecidableEq, Repr

/-- What a payment callback is called with; the data is `nil` for a text that is not JSON. -/
inductive Reply where
  | loaded (sessionId : Int32) (data : Option Json)
  | loadFailed (error : NSError)
  | processed (data : Option Json) (txid : Sha256Hash)
  | processingFailed (error : NSError)

/-- A call of a payment callback, with the number it was stored under. -/
structure Invocation where
  callbackId : NSUInteger
  callback : Block
  reply : Reply

/-- Blocks dispatched to the main queue. -/
inductive MainQueueBlock where
  | onTransactionSuccess (txid : Sha256Hash)
  | onTransactionFailed
  deriving DecidableEq, Repr

/-- How a payment method ended: `YES`, `NO` with an error, or by raising an exception. -/
inductive Answer where
  | yes
  | no (error : NSError)
  | raised (exception : NSException)
  deriving DecidableEq, Repr

/-- A call of a payment method: the number its callback was stored under, what the Java method it calls
    threw, and how it ended itself. -/
structure Request where
  callbackId : NSUInteger
  callback : Block
  threw : Option Throwable
  answer : Answer
  deriving DecidableEq, Repr

structure Cocoa where
  java : World
  isRunning : Bool
  sending : Bool
  sendCompletionBlock : Option Block
  callbacks : NSUInteger → Option Block
  callbackId : NSUInteger
  /-- The application has set an `exceptionHandler`. -/
  exceptionHandler : Bool
  mainQueue : List MainQueueBlock
  /-- Calls of completion blocks, of payment callbacks and of the exception handler. -/
  completions : List (Block × Option Sha256Hash)
  invocations : List Invocation
  handled : List NSException
  /-- What native methods raised, where nothing catches it. -/
  uncaught : List NSException
  /-- What the Java method called last threw, if it did. -/
  exceptionOccurred : Option Throwable
  requests : List Request

/-- The manager as `init` leaves it. -/
def Cocoa.initial (files : Files) (exceptionHandler : Bool) : Cocoa where
  java := World.initial files
  isRunning := false
  sending := false
  sendCompletionBlock := none
  callbacks _ := none
  callbackId := 0
  exceptionHandler := exceptionHandler
  mainQueue := []
  completions := []
  invocations := []
  handled := []
  uncaught := []
  exceptionOccurred := none
  requests := []

/-- Objective-C code: it works on the manager and may raise. -/
abbrev ObjC (α : Type) := EStateM NSException Cocoa α

/-! ### Error codes -/

def kHIBitcoinManagerUnexpectedError : Int := 0
def kHIBitcoinManagerUnreadableWallet : Int := 1000
def kHIBitcoinManagerBlockStoreLockError : Int := 1001
def kHIBitcoinManagerNoWallet : Int := 1002
def kHIBitcoinManagerWalletExists : Int := 1003
def kHIBitcoinManagerWrongPassword : Int := 1004
def kHIBitcoinManagerBlockStoreReadError : Int := 1005
def kHIBitcoinManagerSendingDustError : Int := 1006
def kHIBitcoinManagerInsufficientMoneyError : Int := 1007
def kHIBitcoinManagerPaymentRequestExpiredError : Int := 1008
def kHIBitcoinManagerPaymentRequestWrongNetworkError : Int := 1009
def kHIBitcoinManagerInvalidProtocolBufferError : Int := 1010
def kHIFileNotFoundException : Int := 2000
def kHIIllegalArgumentException : Int := -1000

/-- `[message rangeOfString:text].location != NSNotFound`; sent to `nil` it gives location 0. -/
def rangeOfString (message : Option String) (text : String) : Bool :=
  match message with
  | some m => decide (text.toList <:+: m.toList)
  | none => true

/-- The exception's `toString()`, as it comes across the bridge. -/
def getJavaExceptionMessage (exception : Throwable) : Option String :=
  nsStringFromJString (exception.description.map utf16)

/-- The table of exceptions, by the exact class. -/
def errorCodeForJavaException (exception : Throwable) : Int :=
  let exceptionClass := exception.className
  let exceptionMessage := getJavaExceptionMessage exception
  if exceptionClass = unreadableWalletExceptionClass then
    kHIBitcoinManagerUnreadableWallet
  else if exceptionClass = blockStoreExceptionClass then
    if rangeOfString exceptionMessage "Store file is already locked" then
      kHIBitcoinManagerBlockStoreLockError
    else
      kHIBitcoinManagerBlockStoreReadError
  else if exceptionClass = expiredClass then
    kHIBitcoinManagerPaymentRequestExpiredError
  else if exceptionClass = invalidNetworkClass then
    kHIBitcoinManagerPaymentRequestWrongNetworkError
  else if exceptionClass = insufficientMoneyExceptionClass then
    kHIBitcoinManagerInsufficientMoneyError
  else if exceptionClass = invalidProtocolBufferExceptionClass then
    kHIBitcoinManagerInvalidProtocolBufferError
  else if exceptionClass = fileNotFoundExceptionClass then
    kHIFileNotFoundException
  else if exceptionClass = illegalArgumentExceptionClass then
    if rangeOfString exceptionMessage "Tried to send dust" then
      kHIBitcoinManagerSendingDustError
    else
      kHIIllegalArgumentException
  else if exceptionClass = noWalletExceptionClass then
    kHIBitcoinManagerNoWallet
  else if exceptionClass = existingWalletExceptionClass then
    kHIBitcoinManagerWalletExists
  else if exceptionClass = wrongPasswordExceptionClass then
    kHIBitcoinManagerWrongPassword
  else if exceptionClass = wrongNetworkExceptionClass then
    kHIBitcoinManagerPaymentRequestWrongNetworkError
  else
    kHIBitcoinManagerUnexpectedError

/-- The error of a Java exception; its user info is the exception's `toString()`. -/
def errorForJavaException (exception : Throwable) : NSError :=
  ⟨errorCodeForJavaException exception,
    (getJavaExceptionMessage exception).getD "Java VM raised an exception"⟩

/-- `wantsError` says that the caller passed a pointer for the error. -/
def handleJavaException (exception : Throwable) (useHandler wantsError : Bool) :
    ObjC (Option NSError) := do
  let error := errorForJavaException exception
  if wantsError ∧ error.code ≠ kHIBitcoinManagerUnexpectedError then
    pure (some error)
  else
    let raised : NSException := ⟨error.localizedFailureReason⟩
    let c ← get
    if useHandler ∧ c.exceptionHandler then
      modify fun c => { c with handled := c.handled ++ [raised] }
      pure none
    else throw raised

/-! ### Callbacks -/

/-- The Java `int` a callback's number is passed as: its low 32 bits. -/
def NSUInteger.jint (n : NSUInteger) : Int32 := n.toUInt32.toInt32

/-- The number a Java `int` is passed back as: sign-extended. -/
def NSUInteger.ofJint (i : Int32) : NSUInteger := i.toInt64.toUInt64

def storeCallback (callback : Block) : ObjC NSUInteger := do
  let c ← get
  let callbackId := c.callbackId + 1
  modify fun c => { c with
    callbackId := callbackId
    callbacks := Function.update c.callbacks callbackId (some callback) }
  pure callbackId

def retrieveCallback (callbackId : NSUInteger) : ObjC (Option Block) := do
  let c ← get
  modify fun c => { c with callbacks := Function.update c.callbacks callbackId none }
  pure (c.callbacks callbackId)

/-- Retrieve a callback and call it, if it is there. -/
def callBack (callbackId : NSUInteger) (reply : Reply) : ObjC Unit := do
  let callback ← retrieveCallback callbackId
  match callback with
  | some callback => modify fun c =>
      { c with invocations := c.invocations ++ [⟨callbackId, callback, reply⟩] }
  | none => pure ()

/-- `NSJSONSerialization` takes no `nil`; a text that is not JSON gives `nil`. -/
def objectFromJSONString (JSONString : Option String) : ObjC (Option Json) :=
  match JSONString with
  | some text => pure (Json.parse text)
  | none => throw ⟨"data parameter is nil"⟩

/-- What `onPaymentRequestLoaded:details:callback:` and `onPaymentRequestProcessed:callback:` do with
    the text of the details: the callback they call, and the object they call it with. -/
def deliverDetails (details : JString) (callbackId : NSUInteger) :
    ObjC (Option (Block × Option Json)) := do
  let callback ← retrieveCallback callbackId
  match callback with
  | some callback =>
    let data ← objectFromJSONString (nsStringFromJString (some details))
    pure (some (callback, data))
  | none => pure none

/-- Call a callback with the details delivered for it. -/
def callBackWithDetails (details : JString) (callbackId : NSUInteger) (reply : Option Json → Reply) :
    ObjC Unit := do
  let delivered ← deliverDetails details callbackId
  match delivered with
  | some (callback, data) => modify fun c =>
      { c with invocations := c.invocations ++ [⟨callbackId, callback, reply data⟩] }
  | none => pure ()

def onPaymentRequestLoaded (sessionId : Int32) (details : JString) (callbackId : NSUInteger) :
    ObjC Unit := callBackWithDetails details callbackId (.loaded sessionId)

def onPaymentRequestLoadFailedWithError (exception : Throwable) (callbackId : NSUInteger) :
    ObjC Unit := callBack callbackId (.loadFailed (errorForJavaException exception))

def onPaymentRequestProcessed (details : JString) (callbackId : NSUInteger)
    (txid : Sha256Hash) : ObjC Unit := callBackWithDetails details callbackId (.processed · txid)

def onPaymentRequestProcessingFailedWithError (exception : Throwable) (callbackId : NSUInteger) :
    ObjC Unit := callBack callbackId (.processingFailed (errorForJavaException exception))

/-- `dispatch_async(dispatch_get_main_queue(), …)`. -/
def dispatchAsync (block : MainQueueBlock) : ObjC Unit :=
  modify fun c => { c with mainQueue := c.mainQueue ++ [block] }

/-- The native methods. -/
def nativeMethod : NativeCall → ObjC Unit
  | .onTransactionChanged _ _ => pure ()
  | .onTransactionFailed => dispatchAsync .onTransactionFailed
  | .onTransactionSuccess txid => dispatchAsync (.onTransactionSuccess txid)
  | .onBalanceChanged => pure ()
  | .onException exception => do
    let _ ← handleJavaException exception true false
  | .onPaymentRequestLoaded callbackId sessionId requestDetails =>
    onPaymentRequestLoaded sessionId requestDetails.jString (.ofJint callbackId)
  | .onPaymentRequestLoadFailed callbackId error =>
    onPaymentRequestLoadFailedWithError error (.ofJint callbackId)
  | .onPaymentRequestProcessed callbackId txid ackDetails =>
    onPaymentRequestProcessed ackDetails.jString (.ofJint callbackId) txid
  | .onPaymentRequestProcessingFailed callbackId error =>
    onPaymentRequestProcessingFailedWithError error (.ofJint callbackId)

/-- A native method is called by Java. What it raises is caught neither by Java nor by the main queue. -/
def receive (call : NativeCall) : ObjC Unit :=
  tryCatch (nativeMethod call) fun raised =>
    modify fun c => { c with uncaught := c.uncaught ++ [raised] }

def receiveAll : List (Nat × NativeCall) → ObjC Unit
  | [] => pure ()
  | call :: calls => do
    receive call.2
    receiveAll calls

/-! ### Calling Java -/

/-- Java code runs, and so do the native methods it calls. -/
def runJava {α : Type} (code : Java α) : ObjC (Except Throwable α) := do
  let c ← get
  let ended := code { c.java with natives := [] }
  modify fun c => { c with java := after ended, exceptionOccurred := thrown (outcome ended) }
  receiveAll (after ended).natives
  pure (outcome ended)

def handleJavaExceptions {α : Type} (wantsError : Bool) :
    Except Throwable α → ObjC (Option α × Option NSError)
  | .ok result => pure (some result, none)
  | .error exception => do
    let error ← handleJavaException exception false wantsError
    pure (none, error)

def callObjectMethod {α : Type} (wantsError : Bool) (method : Java α) :
    ObjC (Option α × Option NSError) := do
  let ended ← runJava method
  handleJavaExceptions wantsError ended

def callVoidMethod (wantsError : Bool) (method : Java Unit) : ObjC (Option NSError) := do
  let (_, error) ← callObjectMethod wantsError method
  pure error

def callBooleanMethod (method : Java Bool) : ObjC Bool := do
  let (result, _) ← callObjectMethod false method
  pure (result.getD false)

/-! ### Password arrays -/

def jCharArrayFromNSData (data : Option NSData) : ObjC (Option CharArrayRef) := do
  match data with
  | none => pure none
  | some chars =>
    let c ← get
    modify fun c => { c with java := { c.java with secrets :=
      { c.java.secrets with charArrays := c.java.secrets.charArrays.alloc chars } } }
    pure (some c.java.secrets.charArrays.next)

/-- `password.length / sizeof(jchar)`, which is 0 for `nil`. -/
def NSData.size (data : Option NSData) : Nat := (data.map List.length).getD 0

/-- `SetCharArrayRegion` with zeros for the first `size` elements. -/
def Secrets.setZeros (secrets : Secrets) (array : CharArrayRef) (size : Nat) : Secrets :=
  { secrets with
    charArrays := secrets.charArrays.write array
      (List.replicate size 0 ++ (secrets.charArrays.cell array).drop size) }

def zeroCharArray (charArray : Option CharArrayRef) (size : Nat) : ObjC Unit :=
  match charArray with
  | none => pure ()
  | some array => modify fun c =>
      { c with java := { c.java with secrets := c.java.secrets.setZeros array size } }

end BitcoinKit

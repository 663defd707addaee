import Mathlib.Data.List.Basic

/-! Java throwables, as far as the manager and the bridge can tell them apart: the exact class name,
    which the bridge compares with its table, the superclasses, which decide what a `catch` clause
    takes, and what `toString()` gives. -/

namespace BitcoinKit

structure Throwable where
  className : String
  superclasses : List String
  /-- What `toString()` returns, `none` when that call itself throws. -/
  description : Option String
  deriving DecidableEq, Repr

namespace Throwable

/-- `e instanceof C`, the test a `catch (C e)` clause makes. -/
def instanceOf (C : String) (e : Throwable) : Bool :=
  e.className = C || e.superclasses.contains C

/-- An exception constructed with a message. -/
def withMessage (className : String) (superclasses : List String) (message : String) : Throwable :=
  ⟨className, superclasses, some (className ++ ": " ++ message)⟩

/-- An exception constructed from its cause: the cause's `toString()` becomes the message. -/
def withCause (className : String) (superclasses : List String) (cause : Throwable) : Throwable :=
  ⟨className, superclasses, cause.description.map fun d => className ++ ": " ++ d⟩

end Throwable

/-! ### Class names -/

def exceptionClass := "java.lang.Exception"
def runtimeExceptionClass := "java.lang.RuntimeException"
def ioExceptionClass := "java.io.IOException"
def fileNotFoundExceptionClass := "java.io.FileNotFoundException"
def illegalArgumentExceptionClass := "java.lang.IllegalArgumentException"
def keyCrypterExceptionClass := "com.google.bitcoin.crypto.KeyCrypterException"
def jsonExceptionClass := "org.codehaus.jettison.json.JSONException"
def addressFormatExceptionClass := "com.google.bitcoin.core.AddressFormatException"
def blockStoreExceptionClass := "com.google.bitcoin.store.BlockStoreException"
def unreadableWalletExceptionClass := "com.google.bitcoin.store.UnreadableWalletException"
def insufficientMoneyExceptionClass := "com.google.bitcoin.core.InsufficientMoneyException"
def invalidProtocolBufferExceptionClass := "com.google.protobuf.InvalidProtocolBufferException"
def paymentRequestExceptionClass :=
  "com.google.bitcoin.protocols.payments.PaymentRequestException"
def expiredClass := "com.google.bitcoin.protocols.payments.PaymentRequestException$Expired"
def invalidNetworkClass :=
  "com.google.bitcoin.protocols.payments.PaymentRequestException$InvalidNetwork"
def invalidURLClass :=
  "com.google.bitcoin.protocols.payments.PaymentRequestException$InvalidPaymentRequestURL"
def noWalletExceptionClass := "com.hivewallet.bitcoinkit.NoWalletException"
def existingWalletExceptionClass := "com.hivewallet.bitcoinkit.ExistingWalletException"
def wrongPasswordExceptionClass := "com.hivewallet.bitcoinkit.WrongPasswordException"
def wrongNetworkExceptionClass := "com.hivewallet.bitcoinkit.WrongNetworkException"

/-! ### Throwables of the virtual machine and of the manager -/

def runtimeSuperclasses : List String := [runtimeExceptionClass, exceptionClass]

/-- What a method call on `null` throws. -/
def nullPointerException : Throwable :=
  ⟨"java.lang.NullPointerException", runtimeSuperclasses, some "java.lang.NullPointerException"⟩

/-- What `get(0)` of an empty list throws. -/
def indexOutOfBoundsException : Throwable :=
  .withMessage "java.lang.IndexOutOfBoundsException" runtimeSuperclasses "Index: 0, Size: 0"

def numberFormatException (text : String) : Throwable :=
  .withMessage "java.lang.NumberFormatException"
    (illegalArgumentExceptionClass :: runtimeSuperclasses) ("For input string: \"" ++ text ++ "\"")

def fileNotFoundException (path : String) : Throwable :=
  .withMessage fileNotFoundExceptionClass [ioExceptionClass, exceptionClass] path

def illegalArgumentException (message : String) : Throwable :=
  .withMessage illegalArgumentExceptionClass runtimeSuperclasses message

def illegalStateException (message : String) : Throwable :=
  .withMessage "java.lang.IllegalStateException" runtimeSuperclasses message

/-- `new RuntimeException(cause)`. -/
def runtimeException (cause : Throwable) : Throwable :=
  .withCause runtimeExceptionClass [exceptionClass] cause

def keyCrypterException (message : String) : Throwable :=
  .withMessage keyCrypterExceptionClass runtimeSuperclasses message

def noWalletException (message : String) : Throwable :=
  .withMessage noWalletExceptionClass [exceptionClass] message

def existingWalletException (message : String) : Throwable :=
  .withMessage existingWalletExceptionClass [exceptionClass] message

def wrongPasswordException (message : String) : Throwable :=
  .withMessage wrongPasswordExceptionClass [exceptionClass] message

/-- `new WrongPasswordException(cause)`. -/
def wrongPasswordFrom (cause : Throwable) : Throwable :=
  .withCause wrongPasswordExceptionClass [exceptionClass] cause

def wrongNetworkException (message : String) : Throwable :=
  .withMessage wrongNetworkExceptionClass [paymentRequestExceptionClass, exceptionClass] message

def expiredException (message : String) : Throwable :=
  .withMessage expiredClass [paymentRequestExceptionClass, exceptionClass] message

def blockStoreException (message : String) : Throwable :=
  .withMessage blockStoreExceptionClass [exceptionClass] message

/-- `new UnreadableWalletException(message, cause)`. -/
def unreadableWalletException (message : String) : Throwable :=
  .withMessage unreadableWalletExceptionClass [exceptionClass] message

end BitcoinKit

import BitcoinKit.Cocoa.Bridge

/-! The methods of `HIBitcoinManager` that take a password or a callback, and the whole system as one
    machine: calls of these methods, the blocks of the main queue, and everything Java does besides.

    A method with an error pointer that it writes to itself is called with one; a method that only
    passes the pointer on takes `wantsError`, whether there is one. `outError` of the payment methods
    is what they return: `none` stands for `YES`. -/

namespace BitcoinKit
open Schemes

/-! ### Methods that take a password -/

def didStart : ObjC Unit := modify fun c => { c with isRunning := true }

def createWalletWithPassword (lib : Lib) (password : Option NSData) : ObjC (Option NSError) := do
  let charArray ← jCharArrayFromNSData password
  let error ← callVoidMethod true (onBehalfOf 0 (createWallet lib charArray))
  zeroCharArray charArray (NSData.size password)
  (if error.isNone then didStart else pure ())
  pure error

def changeWalletPasswordToPassword (lib : Lib) (fromPassword toPassword : Option NSData)
    (wantsError : Bool) : ObjC (Option NSError) := do
  let fromCharArray ← jCharArrayFromNSData fromPassword
  let toCharArray ← jCharArrayFromNSData toPassword
  let error ← callVoidMethod wantsError
    (onBehalfOf 0 (changeWalletPassword lib fromCharArray toCharArray))
  zeroCharArray fromCharArray (NSData.size fromPassword)
  zeroCharArray toCharArray (NSData.size toPassword)
  pure error

def signMessageWithPassword (lib : Lib) (message : String) (password : Option NSData)
    (wantsError : Bool) : ObjC (Option String × Option NSError) := do
  let passwordCharArray ← jCharArrayFromNSData password
  let ended ← callObjectMethod wantsError
    (onBehalfOf 0 (signMessage lib message passwordCharArray))
  zeroCharArray passwordCharArray (NSData.size password)
  pure ended

def isPasswordCorrectInWallet (lib : Lib) (password : Option NSData) : ObjC Bool := do
  let charArray ← jCharArrayFromNSData password
  let result ← callBooleanMethod (onBehalfOf 0 (isPasswordCorrect lib charArray))
  zeroCharArray charArray (NSData.size password)
  pure result

def exportPrivateKeyWithPassword (lib : Lib) (password : Option NSData) (wantsError : Bool) :
    ObjC (Option String × Option NSError) := do
  let passwordCharArray ← jCharArrayFromNSData password
  let ended ← callObjectMethod wantsError (onBehalfOf 0 (exportPrivateKey lib passwordCharArray))
  zeroCharArray passwordCharArray (NSData.size password)
  pure ended

/-! ### Sending -/

/-- `[NSString stringWithFormat:@"%lld", coins]`: the amount is printed as a signed number. -/
def amountText (coins : UInt64) : String := toString coins.toInt64.toInt

def endSending : ObjC Unit :=
  modify fun c => { c with sending := false, sendCompletionBlock := none }

def callCompletion (completion : Option Block) (hash : Option Sha256Hash) : ObjC Unit :=
  match completion with
  | some block => modify fun c => { c with completions := c.completions ++ [(block, hash)] }
  | none => pure ()

def sendCoinsToRecipient (lib : Lib) (coins : UInt64) (recipient : String)
    (password : Option NSData) (completion : Option Block) : ObjC (Option NSError) := do
  let c ← get
  if c.sending then
    callCompletion completion none
    pure none
  else
    modify fun c => { c with sending := true, sendCompletionBlock := completion }
    let jPassword ← jCharArrayFromNSData password
    let error ← callVoidMethod true
      (onBehalfOf 0 (sendCoins lib (amountText coins) recipient jPassword))
    zeroCharArray jPassword (NSData.size password)
    (if error.isSome then endSending else pure ())
    pure error

/-- A block of the main queue. -/
def MainQueueBlock.run : MainQueueBlock → ObjC Unit
  | .onTransactionSuccess txid => do
    let c ← get
    callCompletion c.sendCompletionBlock (some txid)
    endSending
  | .onTransactionFailed => do
    let c ← get
    callCompletion c.sendCompletionBlock none
    endSending

/-! ### Payment requests -/

/-- The end of a payment method: a callback that will not be needed is taken back. -/
def keepOrRetrieve (callbackId : NSUInteger) (error : Option NSError) : ObjC (Option NSError) :=
  match error with
  | none => pure none
  | some error => do
    let _ ← retrieveCallback callbackId
    pure (some error)

def sendPaymentRequestWithPassword (lib : Lib) (sessionId : Int32) (password : Option NSData)
    (callback : Block) : ObjC (Option NSError) := do
  let jPassword ← jCharArrayFromNSData password
  let callbackId ← storeCallback callback
  let error ← callVoidMethod true
    (numberedPayment (sendPaymentRequest lib sessionId jPassword callbackId.jint))
  zeroCharArray jPassword (NSData.size password)
  keepOrRetrieve callbackId error

def openPaymentRequestFromFileWithCallback (lib : Lib) (filename : String) (callback : Block) :
    ObjC (Option NSError) := do
  let callbackId ← storeCallback callback
  let error ← callVoidMethod true
    (onBehalfOf 0 (openPaymentRequestFromFile lib filename callbackId.jint))
  keepOrRetrieve callbackId error

def openPaymentRequestFromURLWithCallback (lib : Lib) (URL : String) (callback : Block) :
    ObjC (Option NSError) := do
  let callbackId ← storeCallback callback
  let error ← callVoidMethod true
    (onBehalfOf 0 (openPaymentRequestFromURL lib URL callbackId.jint))
  keepOrRetrieve callbackId error

/-! ### The machine -/

/-- A call of a payment method, entered in the list of requests with the way it ended. -/
def asRequest (callback : Block) (method : ObjC (Option NSError)) : ObjC Unit := do
  let c ← get
  let callbackId := c.callbackId + 1
  let answer ← tryCatch
    (do
      let error ← method
      pure (match error with
        | none => Answer.yes
        | some error => Answer.no error))
    fun exception => pure (Answer.raised exception)
  modify fun c => { c with
    requests := c.requests ++ [⟨callbackId, callback, c.exceptionOccurred, answer⟩] }

/-- The Java methods that are called only from the methods above. -/
def Label.hasMethod : Label → Bool
  | .sendCoins _ _ _ _ => true
  | .openPaymentRequestFromFile _ _ _ => true
  | .openPaymentRequestFromURL _ _ _ => true
  | .sendPaymentRequest _ _ _ _ => true
  | _ => false

inductive Event where
  | sendCoins (lib : Lib) (coins : UInt64) (recipient : String) (password : Option NSData)
      (completion : Option Block)
  | sendPaymentRequest (lib : Lib) (sessionId : Int32) (password : Option NSData)
      (callback : Block)
  | openPaymentRequestFromFile (lib : Lib) (filename : String) (callback : Block)
  | openPaymentRequestFromURL (lib : Lib) (URL : String) (callback : Block)
  /-- Any other call into Java, and whatever Java and the network do on their own. -/
  | java (label : Label) (h : label.hasMethod = false)
  /-- The main queue runs its next block. -/
  | mainQueue

def Event.code : Event → ObjC Unit
  | .sendCoins lib coins recipient password completion => do
    let _ ← sendCoinsToRecipient lib coins recipient password completion
  | .sendPaymentRequest lib sessionId password callback =>
    asRequest callback (sendPaymentRequestWithPassword lib sessionId password callback)
  | .openPaymentRequestFromFile lib filename callback =>
    asRequest callback (openPaymentRequestFromFileWithCallback lib filename callback)
  | .openPaymentRequestFromURL lib URL callback =>
    asRequest callback (openPaymentRequestFromURLWithCallback lib URL callback)
  | .java label _ => do
    let _ ← runJava label.code
  | .mainQueue => do
    let c ← get
    match c.mainQueue with
    | [] => pure ()
    | block :: blocks =>
      modify fun c => { c with mainQueue := blocks }
      block.run

/-- The manager is started without a wallet file, and a wallet is made. -/
def walletMade (password : Option Chars) : List Event :=
  [.java (.start .fair) rfl, .java (.createWallet .fair password) rfl]

/-- One step of the machine: the manager the event's code leaves, however it ends. -/
def happen (c : Cocoa) (event : Event) : Cocoa := after (event.code c)

end BitcoinKit

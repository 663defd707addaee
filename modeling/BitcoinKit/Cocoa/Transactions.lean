import BitcoinKit.Cocoa.Calls
import BitcoinKit.Java.Paging

/-! The transaction list on the Cocoa side. A query looks its Java method up by name and signature, calls
    it, parses the JSON text it returns and puts a date in place of each transaction's time:

        name, signature ─▶ method ─▶ text ─▶ JSON array ─▶ dictionaries with dates
              └── no such method: an exception is raised -/

namespace BitcoinKit
open Schemes

/-! ### Looking methods up -/

/-- The methods the Java class declares in its source, with their signatures. -/
def managerMethods : List (String × String) :=
  [("setTestingNetwork", "(Z)V"), ("setDataDirectory", "(Ljava/lang/String;)V"),
   ("getCheckpointsFilePath", "()Ljava/lang/String;"),
   ("setCheckpointsFilePath", "(Ljava/lang/String;)V"), ("start", "()V"),
   ("addExtensionsToWallet", "(Lcom/google/bitcoin/core/Wallet;)V"),
   ("loadWalletFromFile", "(Ljava/io/File;)Lcom/google/bitcoin/core/Wallet;"),
   ("createWallet", "()V"), ("createWallet", "([C)V"),
   ("useWallet", "(Lcom/google/bitcoin/core/Wallet;)V"), ("getBlockchainFile", "()Ljava/io/File;"),
   ("startBlockchain", "()V"), ("trackPendingTransactions", "(Lcom/google/bitcoin/core/Wallet;)V"),
   ("trackTransaction", "(Lcom/google/bitcoin/core/Transaction;)V"),
   ("stopTrackingTransaction", "(Lcom/google/bitcoin/core/Transaction;)V"),
   ("deleteBlockchainDataFile", "()V"), ("resetBlockchain", "()V"), ("stop", "()V"),
   ("shutdownBlockchain", "()V"), ("exportWallet", "(Ljava/lang/String;)V"),
   ("exportPrivateKey", "([C)Ljava/lang/String;"), ("getWalletAddress", "()Ljava/lang/String;"),
   ("getWalletDebuggingInfo", "()Ljava/lang/String;"), ("getAvailableBalance", "()J"),
   ("getEstimatedBalance", "()J"),
   ("getJSONFromTransaction", "(Lcom/google/bitcoin/core/Transaction;)Ljava/lang/String;"),
   ("getTransactionFee", "(Lcom/google/bitcoin/core/Transaction;)Ljava/math/BigInteger;"),
   ("getTransactionCount", "()I"), ("getAllTransactions", "()Ljava/lang/String;"),
   ("getTransaction", "(Ljava/lang/String;)Ljava/lang/String;"),
   ("getTransaction", "(I)Ljava/lang/String;"), ("getTransactions", "(II)Ljava/lang/String;"),
   ("feeForSendingCoins", "(Ljava/lang/String;Ljava/lang/String;)Ljava/lang/String;"),
   ("isAddressValid", "(Ljava/lang/String;)Z"),
   ("sendCoins", "(Ljava/lang/String;Ljava/lang/String;[C)V"),
   ("openPaymentRequestFromFile", "(Ljava/lang/String;I)V"),
   ("openPaymentRequestFromURL", "(Ljava/lang/String;I)V"),
   ("validatePaymentRequest", "(Lcom/google/bitcoin/protocols/payments/PaymentSession;)V"),
   ("getPaymentRequestDetails",
    "(Lcom/google/bitcoin/protocols/payments/PaymentSession;)Ljava/lang/String;"),
   ("sendPaymentRequest", "(I[CI)V"),
   ("getPaymentRequestAckDetails",
    "(Lcom/google/bitcoin/protocols/payments/PaymentSession$Ack;)Ljava/lang/String;"),
   ("aesKeyForPassword", "([C)Lorg/spongycastle/crypto/params/KeyParameter;"),
   ("deriveKeyAndWipePassword",
    "([CLcom/google/bitcoin/crypto/KeyCrypter;)Lorg/spongycastle/crypto/params/KeyParameter;"),
   ("wipeAesKey", "(Lorg/spongycastle/crypto/params/KeyParameter;)V"),
   ("isWalletEncrypted", "()Z"), ("isPasswordCorrect", "([C)Z"),
   ("changeWalletPassword", "([C[C)V"), ("decryptWallet", "([C)V"),
   ("encryptWallet", "([CLcom/google/bitcoin/core/Wallet;)V"),
   ("signMessage", "(Ljava/lang/String;[C)Ljava/lang/String;"),
   ("getExceptionStackTrace", "(Ljava/lang/Throwable;)Ljava/lang/String;"),
   ("updateLastWalletChange", "(Lcom/google/bitcoin/core/Wallet;)V"),
   ("getLastWalletChange", "()Ljava/util/Date;"), ("getLastWalletChangeTimestamp", "()J"),
   ("onCoinsReceived", "(Lcom/google/bitcoin/core/Wallet;Lcom/google/bitcoin/core/Transaction;" ++
    "Ljava/math/BigInteger;Ljava/math/BigInteger;)V"),
   ("onCoinsSent", "(Lcom/google/bitcoin/core/Wallet;Lcom/google/bitcoin/core/Transaction;" ++
    "Ljava/math/BigInteger;Ljava/math/BigInteger;)V"),
   ("onNewTransaction", "(Lcom/google/bitcoin/core/Transaction;)V"),
   ("onConfidenceChanged", "(Lcom/google/bitcoin/core/Transaction;" ++
    "Lcom/google/bitcoin/core/TransactionConfidence$Listener$ChangeReason;)V"),
   ("uncaughtException", "(Ljava/lang/Thread;Ljava/lang/Throwable;)V"),
   ("onPeerConnected", "(Lcom/google/bitcoin/core/Peer;I)V"),
   ("onPeerDisconnected", "(Lcom/google/bitcoin/core/Peer;I)V"),
   ("onBlocksDownloaded", "(Lcom/google/bitcoin/core/Peer;Lcom/google/bitcoin/core/Block;I)V"),
   ("onChainDownloadStarted", "(Lcom/google/bitcoin/core/Peer;I)V"), ("updateBlocksLeft", "(I)V"),
   ("onTransactionChanged", "(Ljava/lang/String;Ljava/lang/String;)V"), ("onTransactionFailed", "()V"),
   ("onTransactionSuccess", "(Ljava/lang/String;)V"), ("onSynchronizationUpdate", "(F)V"),
   ("onBalanceChanged", "()V"), ("onPeerCountChanged", "(I)V"),
   ("onException", "(Ljava/lang/Throwable;)V"),
   ("onPaymentRequestLoaded", "(IILjava/lang/String;)V"),
   ("onPaymentRequestLoadFailed", "(ILjava/lang/Throwable;)V"),
   ("onPaymentRequestProcessed", "(ILjava/lang/String;Ljava/lang/String;)V"),
   ("onPaymentRequestProcessingFailed", "(ILjava/lang/Throwable;)V")]

/-- `GetMethodID` finds a method that the class has, and no other. -/
def jMethodWithName (name signature : String) : ObjC Unit :=
  if (name, signature) ∈ managerMethods then pure ()
  else throw ⟨"Method not found: " ++ name ++ " (" ++ signature ++ ")"⟩

/-- `method` is what the method of this name and signature runs, when there is one. -/
def callObjectMethodWithName {α : Type} (name signature : String) (wantsError : Bool)
    (method : Java α) : ObjC (Option α × Option NSError) := do
  jMethodWithName name signature
  callObjectMethod wantsError (onBehalfOf 0 method)

/-! ### Dictionaries -/

/-- A value of a transaction's dictionary: as parsed, or an `NSDate` by its time. -/
inductive NSValue where
  | parsed (json : Json)
  | date (time : Int)

abbrev NSDictionary := List (String × NSValue)

/-- The date formatter and the clock. -/
structure Dates where
  dateFromString : String → Option Int
  date : Int

/-- `transaction[@"time"]` as a date. -/
def Dates.timeOf (dates : Dates) (transaction : List (String × Json)) : Option Int :=
  match transaction.lookup "time" with
  | some (.str time) => dates.dateFromString time
  | _ => none

def modifiedTransactionForTransaction (dates : Dates) (transaction : List (String × Json)) :
    NSDictionary :=
  (transaction.filter fun entry => entry.1 ≠ "time").map (fun entry => (entry.1, .parsed entry.2)) ++
    [("time", .date ((dates.timeOf transaction).getD dates.date))]

/-- The members of a transaction; anything but a dictionary has none. -/
def membersOf : Json → List (String × Json)
  | .obj members => members
  | _ => []

/-- What both queries do with the text Java returned. -/
def transactionsOf (dates : Dates) (text : Option String) : Option (List NSDictionary) :=
  match text.bind Json.parse with
  | some (.arr items) =>
    some (items.map fun item => modifiedTransactionForTransaction dates (membersOf item))
  | _ => none

/-! ### Queries -/

structure NSRange where
  location : NSUInteger
  length : NSUInteger
  deriving DecidableEq, Repr

def allTransactions (lib : Lib) (byTime : Wallet → JavaList Transaction) (dates : Dates) :
    ObjC (Option (List NSDictionary)) := do
  let (text, _) ← callObjectMethodWithName "getAllTransactions" "()Ljava/lang/String;" false
    (getAllTransactions lib byTime)
  pure (transactionsOf dates (text.bind id))

/-- Two words are passed for two `int`s; the method of the class that takes two is `getTransactions`. -/
def transactionsWithRange (lib : Lib) (byTime : Wallet → JavaList Transaction) (dates : Dates)
    (range : NSRange) : ObjC (Option (List NSDictionary)) := do
  let (text, _) ← callObjectMethodWithName "getTransaction" "(II)Ljava/lang/String;" false
    (getTransactions lib byTime range.location.jint range.length.jint)
  pure (transactionsOf dates (text.bind id))

/-! ### Single transactions -/

/-- What both single queries do with the text Java returned. -/
def transactionOf (dates : Dates) (text : Option String) : Option NSDictionary :=
  (text.bind Json.parse).map fun json => modifiedTransactionForTransaction dates (membersOf json)

def transactionForHash (lib : Lib) (parseHash : String → Except Throwable Sha256Hash)
    (dates : Dates) (hash : String) : ObjC (Option NSDictionary) := do
  let (text, error) ← callObjectMethodWithName "getTransaction"
    "(Ljava/lang/String;)Ljava/lang/String;" true (getTransaction lib parseHash hash)
  pure (if error.isNone then transactionOf dates (text.bind id) else none)

/-- The index is one word, passed for an `int`. -/
def transactionAtIndex (lib : Lib) (byTime : Wallet → JavaList Transaction) (dates : Dates)
    (index : NSUInteger) : ObjC (Option NSDictionary) := do
  let (text, _) ← callObjectMethodWithName "getTransaction" "(I)Ljava/lang/String;" false
    (getTransactionAt lib byTime index.jint)
  pure (transactionOf dates (text.bind id))

/-- A Java `int` as an `NSUInteger`. -/
def transactionCount (byTime : Wallet → JavaList Transaction) : ObjC NSUInteger := do
  let (count, _) ← callObjectMethod false (onBehalfOf 0 (getTransactionCount byTime))
  pure (.ofJint (count.getD 0))

end BitcoinKit

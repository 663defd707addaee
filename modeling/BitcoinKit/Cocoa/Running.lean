import BitcoinKit.Cocoa.Manager
import BitcoinKit.Java.Step

/-! Starting and stopping from the Cocoa side, and what the application is told of it:

        start:, createWallet: ── no error ──▶ isRunning = YES, Started, walletAddress
        stop                  ── returns  ──▶ isRunning = NO, Stopped

    The data directory is made before a start, and an error there is ignored; that is left out. -/

namespace BitcoinKit
open Schemes

/-- A change of a property, announced and made, or a notification. -/
inductive RunningNotice where
  | isRunning (isRunning : Bool)
  | walletAddress
  | started
  | stopped
  deriving DecidableEq, Repr

/-- The manager with what its methods for starting and stopping go by. -/
structure Running where
  cocoa : Cocoa
  /-- `self.dataURL.path`. -/
  dataURL : String
  testingNetwork : Bool
  /-- The timer that verifies the balances is scheduled. -/
  balanceChecker : Bool
  notices : List RunningNotice

/-- The manager as `init` leaves it. -/
def Running.initial (files : Files) (exceptionHandler : Bool) (dataURL : String) : Running where
  cocoa := Cocoa.initial files exceptionHandler
  dataURL := dataURL
  testingNetwork := false
  balanceChecker := true
  notices := []

abbrev Managing (α : Type) := EStateM NSException Running α

def onCocoa {α : Type} (code : ObjC α) : Managing α :=
  within Running.cocoa (fun m c => { m with cocoa := c }) code

def tellOf (notices : List RunningNotice) : Managing Unit :=
  modify fun m => { m with notices := m.notices ++ notices }

namespace Running

/-- What `didStart` tells. -/
def toldStart : Managing Unit := tellOf [.isRunning true, .started, .walletAddress]

def start (lib : Lib) (wantsError : Bool) : Managing (Bool × Option NSError) := do
  let m ← get
  (if m.testingNetwork then do
    let _ ← onCocoa (callVoidMethod false (onBehalfOf 0 (BitcoinKit.setTestingNetwork true)))
  else pure ())
  let _ ← onCocoa (callVoidMethod false (onBehalfOf 0 (setDataDirectory m.dataURL)))
  let error ← onCocoa (callVoidMethod wantsError (onBehalfOf 0 (BitcoinKit.start lib)))
  if error.isNone then do
    onCocoa didStart
    toldStart
    pure (true, none)
  else pure (false, error)

def createWallet (lib : Lib) : Managing (Option NSError) := do
  let error ← onCocoa (callVoidMethod true (onBehalfOf 0 (BitcoinKit.createWallet lib none)))
  (if error.isNone then do
    onCocoa didStart
    toldStart
  else pure ())
  pure error

def createWalletWithPassword (lib : Lib) (password : Option NSData) : Managing (Option NSError) := do
  let error ← onCocoa (BitcoinKit.createWalletWithPassword lib password)
  (if error.isNone then toldStart else pure ())
  pure error

/-- The timer is gone first, and no start schedules it again. -/
def stop (lib : Lib) : Managing Unit := do
  modify fun m => { m with balanceChecker := false }
  let _ ← onCocoa (callVoidMethod false (onBehalfOf 0 (BitcoinKit.stop lib)))
  modify fun m => { m with cocoa := { m.cocoa with isRunning := false } }
  tellOf [.isRunning false, .stopped]

def deleteBlockchainDataFile (lib : Lib) (wantsError : Bool) : Managing (Option NSError) :=
  onCocoa (callVoidMethod wantsError (onBehalfOf 0 (BitcoinKit.deleteBlockchainDataFile lib)))

def resetBlockchain (lib : Lib) (wantsError : Bool) : Managing (Option NSError) :=
  onCocoa (callVoidMethod wantsError (onBehalfOf 0 (BitcoinKit.resetBlockchain lib)))

end Running

/-- The Java methods that are called only from the methods above. -/
def Label.startsOrStops : Label → Bool
  | .stop _ => true
  | label => label.bringsUp

inductive RunningEvent where
  | setDataURL (path : String)
  | setTestingNetwork (testing : Bool)
  | start (lib : Lib) (wantsError : Bool)
  | createWallet (lib : Lib)
  | createWalletWithPassword (lib : Lib) (password : Option NSData)
  | stop (lib : Lib)
  | resetBlockchain (lib : Lib) (wantsError : Bool)
  | deleteBlockchainDataFile (lib : Lib) (wantsError : Bool)
  /-- Any other call into Java, and whatever Java and the network do on their own. -/
  | java (label : Label) (h : label.startsOrStops = false)

def RunningEvent.code : RunningEvent → Managing (Option NSError)
  | .setDataURL path => do
    modify fun m => { m with dataURL := path }
    pure none
  | .setTestingNetwork testing => do
    modify fun m => { m with testingNetwork := testing }
    pure none
  | .start lib wantsError => do
    let (_, error) ← Running.start lib wantsError
    pure error
  | .createWallet lib => Running.createWallet lib
  | .createWalletWithPassword lib password => Running.createWalletWithPassword lib password
  | .stop lib => do
    Running.stop lib
    pure none
  | .resetBlockchain lib wantsError => Running.resetBlockchain lib wantsError
  | .deleteBlockchainDataFile lib wantsError => Running.deleteBlockchainDataFile lib wantsError
  | .java label _ => do
    let _ ← onCocoa (runJava label.code)
    pure none

/-- One step: the manager the code leaves, however it ends. -/
def manage (m : Running) (event : RunningEvent) : Running := after (event.code m)

end BitcoinKit

import BitcoinKit.Java.Encryption
import BitcoinKit.Java.LastWalletChange
import BitcoinKit.Java.Tracking

/-! Starting, creating, stopping and resetting: the wallet file, the chain file and the network layer.

    Loading a wallet makes new `Transaction` objects; `trackedTransactions` is a field of the manager
    and outlives the wallet object. -/

namespace BitcoinKit
open Schemes

/-! ### Wallet files -/

/-- A file in the data directory; string concatenation prints a `null` directory as `null`. -/
def World.dataFile (w : World) (name : String) : File := w.dataDirectory.getD "null" ++ name

/-- The objects a wallet file's transactions become when it is read. -/
def loadedTransactions (next : Nat) : List SavedTransaction → List Transaction
  | [] => []
  | saved :: rest => ⟨next, saved.hash, saved.inputs, none⟩ :: loadedTransactions (next + 1) rest

/-- Loaded objects are numbered from `next` on. -/
theorem ref_loadedTransactions : ∀ (next : Nat) (saved : List SavedTransaction),
    ∀ tx ∈ loadedTransactions next saved, next ≤ tx.ref ∧ tx.ref < next + saved.length
  | _, [], _, htx => absurd htx List.not_mem_nil
  | next, _ :: rest, tx, htx => by
    rw [List.length_cons]
    rcases List.mem_cons.mp htx with rfl | htx
    · dsimp only
      omega
    · have := ref_loadedTransactions (next + 1) rest tx htx
      omega

theorem hash_loadedTransactions : ∀ (next : Nat) (saved : List SavedTransaction),
    (loadedTransactions next saved).map Transaction.hash = saved.map SavedTransaction.hash
  | _, [] => rfl
  | next, _ :: rest => by
    simp only [loadedTransactions, List.map_cons, hash_loadedTransactions (next + 1) rest]

/-- `new WalletProtobufSerializer().readWallet(…)` into a new wallet. -/
def WalletImage.toWallet (image : WalletImage) (next : Nat) : Wallet where
  keys := image.keys
  keyCrypter := image.keyCrypter
  lastWalletChangeDate := (LastWalletChangeExtension.loaded image.lastWalletChange).lastWalletChangeDate
  transactions := loadedTransactions next image.transactions
  distinct := by rw [Distinct, hash_loadedTransactions]; exact image.distinct
  autosaveFile := none
  eventListeners := 0

theorem lastWalletChange_toWallet (image : WalletImage) (next : Nat) :
    (image.toWallet next).lastWalletChange = LastWalletChangeExtension.loaded image.lastWalletChange := rfl

/-- What saving a wallet writes. -/
def World.imageOf (w : World) (wallet : Wallet) : WalletImage where
  keys := wallet.keys
  keyCrypter := wallet.keyCrypter
  lastWalletChange := wallet.lastWalletChange.serializeWalletExtension.toOption
  transactions := wallet.transactions.map fun tx => ⟨tx.hash, tx.inputs, w.confidence tx⟩
  distinct := by
    have h := wallet.distinct
    simpa [Distinct, Function.comp_def] using h

/-- The confidence types the loaded objects start with. -/
def loadConfidence (confidence : Transaction → ConfidenceType) :
    List Transaction → List SavedTransaction → Transaction → ConfidenceType
  | tx :: txs, saved :: rest =>
    loadConfidence (Function.update confidence tx saved.confidence) txs rest
  | _, _ => confidence

theorem loadConfidence_not_mem {tx : Transaction} : ∀ (confidence : Transaction → ConfidenceType)
    (txs : List Transaction) (saved : List SavedTransaction), tx ∉ txs →
    loadConfidence confidence txs saved tx = confidence tx
  | _, [], _, _ => rfl
  | _, _ :: _, [], _ => rfl
  | confidence, t :: txs, s :: saved, h => by
    rw [List.mem_cons, not_or] at h
    rw [loadConfidence, loadConfidence_not_mem _ txs saved h.2, Function.update_of_ne h.1]

def World.loadWallet (w : World) (image : WalletImage) : World :=
  let wallet := image.toWallet w.nextTransaction
  { w with
    wallets := w.wallets.alloc wallet
    nextTransaction := w.nextTransaction + image.transactions.length
    confidence := loadConfidence w.confidence wallet.transactions image.transactions }

def loadWalletFromFile (lib : Lib) (f : File) : Java WalletRef :=
  catchIf (Throwable.instanceOf ioExceptionClass)
    (do
      lib.call .fileInputStream
      let w ← get
      match w.files.wallets f with
      | none => throw (fileNotFoundException f)
      | some image =>
        tryFinally
          (do
            lib.call .parseToProto
            lib.call .readWallet
            let w ← get
            modify fun w => w.loadWallet image
            pure w.wallets.next)
          (lib.call .closeStream))
    fun _ => throw (unreadableWalletException "Could not open file")

def saveToFile (lib : Lib) (ref : WalletRef) (f : File) : Java Unit := do
  lib.call .saveToFile
  modify fun w => { w with files := { w.files with
    wallets := Function.update w.files.wallets f (some (w.imageOf (w.wallets.cell ref))) } }

def exportWallet (lib : Lib) (path : String) : Java Unit := do
  let (ref, _) ← theWallet
  saveToFile lib ref path

/-! ### The block chain -/

def getBlockchainFile (w : World) : File := w.dataFile "/bitcoinkit.spvchain"

def deleteBlockchainDataFile (lib : Lib) : Java Unit :=
  modify fun w =>
    if lib.deletes then { w with files := { w.files with
      chains := Function.update w.files.chains (getBlockchainFile w) false } }
    else w

/-- `new SPVBlockStore(networkParams, chainFile)`: a missing file is created at once. -/
def newBlockStore (lib : Lib) (chainFile : File) : Java Unit := do
  lib.call .openBlockStore
  modify fun w => { w with files := { w.files with
    chains := Function.update w.files.chains chainFile true } }
  lib.call .initBlockStore
  modify fun w => { w with
    blockStores := w.blockStores.alloc ⟨chainFile, true, none⟩
    blockStore := some w.blockStores.next }

def modifyBlockStore (ref : Nat) (f : BlockStore → BlockStore) : Java Unit :=
  modify fun w => { w with blockStores := w.blockStores.write ref (f (w.blockStores.cell ref)) }

/-- `wallet.getEarliestKeyCreationTime()`. -/
def Wallet.earliestKeyCreationTime (wallet : Wallet) (now : Nat) : Nat :=
  match wallet.keys with
  | [] => now
  | key :: keys => keys.foldl (fun t k => min t k.creationTimeSeconds) key.creationTimeSeconds

/-- Pick the checkpoint for a chain that starts from nothing. -/
def checkpointFor (lib : Lib) (wallet : Wallet) : Java Unit := do
  let w ← get
  let checkpointsFile := w.checkpointsFilePath.getD (w.dataFile "/bitcoinkit.checkpoints")
  if w.files.checkpoints checkpointsFile then
    let earliest := wallet.earliestKeyCreationTime lib.now
    -- keys that lost their creation time count from the first Hive commit (15.05.2013)
    let earliestKeyCreationTime := if earliest = 0 then 1368620845 else earliest
    catchIf (Throwable.instanceOf ioExceptionClass)
      (do
        lib.call .checkpointsStream
        lib.call .checkpoint
        let store ← deref w.blockStore
        modifyBlockStore store fun s => { s with checkpoint := some earliestKeyCreationTime })
      fun _ => throw (blockStoreException "Could not load checkpoints file")
  else pure ()

def clearTransactions (lib : Lib) : Java Unit := do
  let (ref, _) ← theWallet
  lib.call .clearTransactions
  modifyWallet ref fun wallet =>
    { wallet with transactions := [], distinct := distinct_nil }

/-- A wallet with those of its transactions for which `p` holds. -/
def Wallet.retaining (wallet : Wallet) (p : Transaction → Bool) : Wallet :=
  { wallet with
    transactions := wallet.transactions.filter p
    distinct := distinct_filter wallet.distinct p }

def World.cleaned (w : World) (lib : Lib) (ref : WalletRef) : World :=
  { w with wallets := w.wallets.write ref ((w.wallets.cell ref).retaining fun tx =>
      !(w.confidence tx = .pending && lib.risky tx.hash)) }

/-- `wallet.cleanup()`: pending transactions that are risky are taken out. -/
def cleanup (lib : Lib) (ref : WalletRef) : Java Unit := do
  lib.call .cleanup
  modify fun w => w.cleaned lib ref

/-- `peerGroup = new PeerGroup(networkParams, chain)`. -/
def newPeerGroup (lib : Lib) : Java Unit := do
  lib.call .newPeerGroup
  modify fun w => { w with
    peerGroups := w.peerGroups.alloc ⟨false, []⟩
    peerGroup := some w.peerGroups.next }

/-- A call on the manager's peer group that changes it. -/
def onPeerGroup (lib : Lib) (site : Site) (f : PeerGroup → PeerGroup) : Java Unit := do
  let w ← get
  let ref ← deref w.peerGroup
  lib.call site
  modify fun w => { w with peerGroups := w.peerGroups.write ref (f (w.peerGroups.cell ref)) }

def startBlockchain (lib : Lib) : Java Unit := do
  let w ← get
  let chainFile := getBlockchainFile w
  let chainExistedAlready := w.files.chains chainFile
  newBlockStore lib chainFile
  (if chainExistedAlready then pure () else do
    clearTransactions lib
    let (_, wallet) ← theWallet
    checkpointFor lib wallet)
  lib.call .newBlockChain
  newPeerGroup lib
  let (ref, _) ← theWallet
  onPeerGroup lib .addWallet fun group => { group with wallets := group.wallets ++ [ref] }
  native .onBalanceChanged
  trackPendingTransactions ref
  onPeerGroup lib .startAndWait fun group => { group with running := true }
  lib.call .startBlockChainDownload

def shutdownBlockchain (lib : Lib) : Java Unit := do
  let w ← get
  (if w.peerGroup.isSome then do
    onPeerGroup lib .stopAndWait fun group => { group with running := false }
    let (ref, _) ← theWallet
    onPeerGroup lib .removeWallet fun group => { group with wallets := group.wallets.erase ref }
    modify fun w => { w with peerGroup := none }
  else pure ())
  let w ← get
  match w.blockStore with
  | some store =>
    lib.call .closeBlockStore
    modifyBlockStore store fun s => { s with isOpen := false }
    modify fun w => { w with blockStore := none }
  | none => pure ()

/-! ### Operations -/

def setTestingNetwork (testing : Bool) : Java Unit :=
  modify fun w => { w with networkParams := some (if testing then .testNet3 else .mainNet) }

def setDataDirectory (path : String) : Java Unit :=
  modify fun w => { w with dataDirectory := some path }

def setCheckpointsFilePath (path : Option String) : Java Unit :=
  modify fun w => { w with checkpointsFilePath := path }

def useWallet (lib : Lib) (ref : WalletRef) : Java Unit := do
  modify fun w => { w with wallet := some ref }
  lib.call .autosaveToFile
  let w ← get
  modifyWallet ref fun wallet => { wallet with autosaveFile := w.walletFile }
  let _ ← getWalletAddress lib
  modifyWallet ref fun wallet => { wallet with eventListeners := wallet.eventListeners + 1 }
  startBlockchain lib
  cleanup lib ref

def start (lib : Lib) : Java Unit := do
  let w ← get
  (if w.networkParams.isNone then setTestingNetwork false else pure ())
  let walletFile := w.dataFile "/bitcoinkit.wallet"
  modify fun w => { w with wallet := none, walletFile := some walletFile }
  if (w.files.wallets walletFile).isNone then
    throw (noWalletException ("No wallet file found at: " ++ walletFile))
  else
    catchIf (Throwable.instanceOf fileNotFoundExceptionClass)
      (do
        let ref ← loadWalletFromFile lib walletFile
        useWallet lib ref)
      fun _ => throw (noWalletException ("No wallet file found at: " ++ walletFile))

/-- `new Wallet(networkParams)` with the extension added. -/
def newWallet : Java WalletRef := do
  let w ← get
  modify fun w => { w with wallets := w.wallets.alloc Wallet.empty }
  pure w.wallets.next

/-- Give the wallet's first key a creation time. -/
def Wallet.withCreationTime (wallet : Wallet) (t : Nat) : Wallet :=
  { wallet with keys := match wallet.keys with
      | key :: keys => { key with creationTimeSeconds := t } :: keys
      | [] => [] }

def createWallet (lib : Lib) (utf16Password : Option CharArrayRef) : Java Unit := do
  let w ← get
  match w.walletFile with
  | none => throw (illegalStateException "createWallet cannot be called before start")
  | some walletFile =>
    if (w.files.wallets walletFile).isSome then
      throw (existingWalletException
        ("Trying to create a wallet even though one exists: " ++ walletFile))
    else
      let ref ← newWallet
      updateLastWalletChange lib ref
      let privateKey := lib.newKey
      modifyWallet ref fun wallet => { wallet with keys := wallet.keys ++ [privateKey] }
      let creationTime := privateKey.creationTimeSeconds
      (if utf16Password.isSome then do
        encryptWallet lib utf16Password ref
        let w ← get
        let _ ← (w.wallets.cell ref).firstKey
        modifyWallet ref fun wallet => wallet.withCreationTime creationTime
      else pure ())
      saveToFile lib ref walletFile
      deleteBlockchainDataFile lib
      useWallet lib ref

def stop (lib : Lib) : Java Unit :=
  catchIf (Throwable.instanceOf exceptionClass)
    (do
      shutdownBlockchain lib
      let w ← get
      match w.wallet with
      | some ref =>
        let walletFile ← deref w.walletFile
        saveToFile lib ref walletFile
      | none => pure ())
    fun e => throw (runtimeException e)

def resetBlockchain (lib : Lib) : Java Unit :=
  catchIf (Throwable.instanceOf exceptionClass)
    (do
      shutdownBlockchain lib
      deleteBlockchainDataFile lib
      modify fun w => { w with blocksToDownload := 0 }
      let w ← get
      for tx in w.trackedTransactions do
        stopTrackingTransaction tx
      startBlockchain lib)
    fun e => throw (runtimeException e)

end BitcoinKit

import BitcoinKit.Java.System

/-! What each piece of code leaves alone. Password and key code touches nothing but the secrets and
    the wallet it works on; following transactions and starting or stopping the chain touch nothing a
    payment is made of. -/

namespace BitcoinKit
open Schemes

variable {α : Type} {R : Along World} {call : NativeCall}

/-! ### Code that changes nothing -/

theorem moves_deref (x : Option α) : Moves R (deref x) := by
  cases x with
  | none => exact moves_throw _
  | some a => exact moves_pure a

theorem moves_theWallet : Moves R theWallet :=
  moves_bind moves_get fun w => moves_bind (moves_deref w.wallet) fun _ => moves_pure _

theorem moves_firstKey (wallet : Wallet) : Moves R wallet.firstKey := by
  unfold Wallet.firstKey
  split
  · exact moves_pure _
  · exact moves_throw _

theorem moves_call (lib : Lib) (site : Site) : Moves R (lib.call site) := by
  unfold Lib.call
  split
  · exact moves_pure _
  · exact moves_throw _

theorem moves_result (x : Except Throwable α) : Moves R (result x) := by
  cases x with
  | ok a => exact moves_pure a
  | error e => exact moves_throw e

theorem moves_isPending (tx : Transaction) : Moves R (isPending tx) :=
  moves_bind moves_get fun _ => moves_pure _

theorem moves_readChars (array : CharArrayRef) : Moves R (readChars array) :=
  moves_bind moves_get fun _ => moves_pure _

theorem moves_readAesKey (key : AesKeyRef) : Moves R (readAesKey key) :=
  moves_bind moves_get fun _ => moves_pure _

theorem moves_getWalletAddress (lib : Lib) : Moves R (getWalletAddress lib) :=
  moves_bind moves_theWallet fun ⟨_, wallet⟩ =>
    moves_bind (moves_firstKey wallet) fun _ => moves_bind moves_get fun _ => moves_pure _

theorem moves_isWalletEncrypted : Moves R isWalletEncrypted :=
  moves_bind moves_theWallet fun ⟨_, wallet⟩ =>
    moves_bind (moves_firstKey wallet) fun _ => moves_pure _

theorem moves_getJSON (lib : Lib) (tx : Transaction) : Moves R (getJSONFromTransaction lib tx) :=
  moves_bind moves_get fun _ => moves_bind (moves_result _) fun _ =>
    moves_bind (moves_result _) fun _ => moves_bind (moves_call lib _) fun _ => moves_pure _

theorem moves_reportOrNull (lib : Lib) (tx : Transaction) : Moves R (reportOrNull lib tx) :=
  moves_catchIf (moves_bind (moves_getJSON lib tx) fun _ => moves_pure _) fun _ => moves_pure _

/-! ### Passwords and keys -/

/-- Only the secrets change. -/
def onlySecrets : Along World where
  rel w v := v = { w with secrets := v.secrets }
  refl _ := rfl
  trans h₁ h₂ := by rw [h₂, h₁]

/-- A relation that the use of keys cannot leave: AES keys and private keys come and go. -/
structure IgnoresKeyUse (R : Along World) : Prop where
  keys : ∀ w a p, R.rel w { w with secrets := { w.secrets with aesKeys := a, privateKeys := p } }

/-- A relation that encryption cannot leave: wallets get new keys. -/
structure IgnoresRekeying (R : Along World) : Prop extends IgnoresKeyUse R where
  rekeyed : ∀ w ref keys keyCrypter, R.rel w { w with
    wallets := w.wallets.write ref
      { w.wallets.cell ref with keys := keys, keyCrypter := keyCrypter } }

/-- A relation that changes of wallets cannot leave, in all but their transactions. -/
structure IgnoresWallets (R : Along World) : Prop where
  wallets : ∀ w ref (f : Wallet → Wallet), (∀ x, (f x).transactions = x.transactions) →
    R.rel w { w with wallets := w.wallets.write ref (f (w.wallets.cell ref)) }

/-- A relation that code with keys cannot leave. -/
structure IgnoresKeys (R : Along World) : Prop extends IgnoresKeyUse R, IgnoresWallets R

theorem IgnoresKeys.toIgnoresRekeying (hk : IgnoresKeys R) : IgnoresRekeying R where
  toIgnoresKeyUse := hk.toIgnoresKeyUse
  rekeyed w ref keys keyCrypter := hk.wallets w ref
    (fun x => { x with keys := keys, keyCrypter := keyCrypter }) fun _ => rfl

section Keys

variable (hk : ∀ w a p, R.rel w { w with secrets :=
  { w.secrets with aesKeys := a, privateKeys := p } })
include hk

theorem moves_newAesKey (bytes : Bytes) : Moves R (newAesKey bytes) :=
  moves_bind moves_get fun _ => moves_bind (moves_modify fun w => hk w _ w.secrets.privateKeys)
    fun _ => moves_pure _

theorem moves_wipeAesKey (aesKey : Option AesKeyRef) : Moves R (wipeAesKey aesKey) := by
  cases aesKey with
  | none => exact moves_pure _
  | some key => exact moves_modify fun w => hk w _ w.secrets.privateKeys

theorem moves_withDecryptedKey (lib : Lib) (ecKey : ECKey) (aesKey : AesKeyRef) {use : Java α}
    (hu : Moves R use) : Moves R (withDecryptedKey lib ecKey aesKey use) := by
  refine moves_bind moves_theWallet fun _ => moves_bind (moves_readAesKey aesKey) fun _ =>
    moves_bind (moves_result _) fun _ => moves_bind ?_ fun _ =>
      moves_tryFinally hu (moves_modify fun w => hk w w.secrets.aesKeys _)
  exact moves_bind moves_get fun _ => moves_bind (moves_modify fun w => hk w w.secrets.aesKeys _)
    fun _ => moves_pure _

end Keys

section Secrets

variable (hs : ∀ w s, R.rel w { w with secrets := s })
include hs

theorem moves_newCharArray (password : Option Chars) : Moves R (newCharArray password) := by
  cases password with
  | none => exact moves_pure _
  | some chars =>
    exact moves_bind moves_get fun _ => moves_bind (moves_modify fun w => hs w _) fun _ =>
      moves_pure _

theorem moves_deriveKey (lib : Lib) (password : Option CharArrayRef) (keyCrypter : KeyCrypter) :
    Moves R (deriveKeyAndWipePassword lib password keyCrypter) := by
  cases password with
  | none => exact moves_throw _
  | some array =>
    refine moves_tryFinally ?_ (moves_modify fun w => hs w _)
    exact moves_bind (moves_readChars array) fun _ => moves_bind (moves_result _) fun _ =>
      moves_newAesKey (fun w _ _ => hs w _) _

theorem moves_aesKeyForPassword (lib : Lib) (password : Option CharArrayRef) :
    Moves R (aesKeyForPassword lib password) := by
  refine moves_bind moves_theWallet fun ⟨_, wallet⟩ => ?_
  dsimp only
  split
  · exact moves_throw _
  · exact moves_deriveKey hs lib password _

theorem moves_isPasswordCorrect (lib : Lib) (password : Option CharArrayRef) :
    Moves R (isPasswordCorrect lib password) := by
  refine moves_catchIf ?_ fun _ => moves_pure _
  refine moves_bind (moves_aesKeyForPassword hs lib password) fun aesKey => ?_
  refine moves_tryFinally ?_ (moves_wipeAesKey (fun w _ _ => hs w _) _)
  exact moves_bind moves_theWallet fun _ => moves_bind (moves_readAesKey aesKey) fun _ =>
    moves_result _

theorem moves_signMessage (lib : Lib) (message : String) (password : Option CharArrayRef) :
    Moves R (signMessage lib message password) := by
  have hk := fun w a p => hs w { w.secrets with aesKeys := a, privateKeys := p }
  refine moves_catchIf ?_ fun _ => moves_throw _
  refine moves_bind moves_theWallet fun ⟨_, wallet⟩ => moves_bind (moves_firstKey wallet) fun _ =>
    moves_bind (moves_aesKeyForPassword hs lib password) fun _ => ?_
  exact moves_tryFinally (moves_withDecryptedKey hk lib _ _ (moves_result _))
    (moves_wipeAesKey hk _)

theorem moves_exportPrivateKey (lib : Lib) (password : Option CharArrayRef) :
    Moves R (exportPrivateKey lib password) := by
  have hk := fun w a p => hs w { w.secrets with aesKeys := a, privateKeys := p }
  refine moves_catchIf ?_ fun _ => moves_throw _
  refine moves_bind moves_theWallet fun ⟨_, wallet⟩ => moves_bind (moves_firstKey wallet) fun _ =>
    moves_bind (moves_aesKeyForPassword hs lib password) fun _ => ?_
  refine moves_tryFinally (moves_withDecryptedKey hk lib _ _ ?_) (moves_wipeAesKey hk _)
  exact moves_bind moves_get fun _ => moves_bind (moves_result _) fun _ => moves_pure _

end Secrets

section Rekeying

variable (hr : IgnoresRekeying R)
include hr

theorem moves_encrypt (lib : Lib) (ref : WalletRef) (keyCrypter : KeyCrypter) (key : AesKeyRef) :
    Moves R (lib.encrypt ref keyCrypter key) :=
  moves_bind moves_get fun _ => moves_bind (moves_result _) fun _ =>
    moves_modify fun w => hr.rekeyed w ref _ _

theorem moves_decrypt (lib : Lib) (ref : WalletRef) (key : AesKeyRef) :
    Moves R (lib.decrypt ref key) :=
  moves_bind moves_get fun _ => moves_bind (moves_result _) fun _ =>
    moves_modify fun w => hr.rekeyed w ref _ _

variable (hs : ∀ w s, R.rel w { w with secrets := s })
include hs

theorem moves_decryptWallet (lib : Lib) (old : Option CharArrayRef) :
    Moves R (decryptWallet lib old) := by
  refine moves_bind (moves_aesKeyForPassword hs lib old) fun _ => ?_
  refine moves_tryFinally (moves_catchIf ?_ fun _ => moves_throw _) (moves_wipeAesKey hr.keys _)
  exact moves_bind moves_theWallet fun _ => moves_decrypt hr lib _ _

theorem moves_encryptWallet (lib : Lib) (password : Option CharArrayRef) (ref : WalletRef) :
    Moves R (encryptWallet lib password ref) :=
  moves_bind (moves_deriveKey hs lib password _) fun _ =>
    moves_tryFinally (moves_encrypt hr lib ref _ _) (moves_wipeAesKey hr.keys _)

end Rekeying

theorem moves_modifyWallet (hw : IgnoresWallets R) (ref : WalletRef) {f : Wallet → Wallet}
    (hf : ∀ x, (f x).transactions = x.transactions) : Moves R (modifyWallet ref f) :=
  moves_modify fun w => hw.wallets w ref f hf

theorem moves_changeWalletPassword (hk : IgnoresKeys R)
    (hs : ∀ w s, R.rel w { w with secrets := s }) (lib : Lib)
    (old new : Option CharArrayRef) : Moves R (changeWalletPassword lib old new) := by
  have hr := hk.toIgnoresRekeying
  refine moves_bind (moves_deriveKey hs lib new _) fun aesKey => ?_
  refine moves_bind moves_theWallet fun ⟨ref, _⟩ => ?_
  refine moves_bind (moves_modifyWallet hk.toIgnoresWallets ref fun _ => rfl) fun _ => ?_
  refine moves_bind moves_isWalletEncrypted fun encrypted => ?_
  refine moves_bind (moves_ite (moves_decryptWallet hr hs lib old) (moves_pure _)) fun _ => ?_
  refine moves_tryFinally ?_ (moves_wipeAesKey hk.keys _)
  exact moves_bind moves_theWallet fun _ => moves_encrypt hr lib _ _ aesKey

/-! ### Following transactions -/

/-- A relation that news of transactions cannot leave: other confidence types, queued calls, and
    native calls that answer nobody. -/
structure IgnoresNews (R : Along World) : Prop where
  confidence : ∀ w c u, R.rel w { w with confidence := c, userThread := u }
  news : ∀ w (call : NativeCall), call.isNews →
    R.rel w { w with natives := w.natives ++ [(w.activity, call)] }

/-- A relation that tracking code cannot leave. -/
structure IgnoresTracking (R : Along World) : Prop extends IgnoresNews R where
  listening : ∀ w t r, R.rel w { w with trackedTransactions := t, registrations := r }

/-- Only confidence types and queued calls change. -/
def onlyConfidence : Along World where
  rel w v := v = { w with confidence := v.confidence, userThread := v.userThread }
  refl _ := rfl
  trans h₁ h₂ := by rw [h₂, h₁]

theorem moves_native (h : ∀ w, R.rel w { w with natives := w.natives ++ [(w.activity, call)] }) :
    Moves R (native call) := moves_modify h

theorem rel_changeConfidence (hc : ∀ w c u, R.rel w { w with confidence := c, userThread := u })
    (w : World) (tx : Transaction) (type : ConfidenceType) :
    R.rel w (w.changeConfidence tx type) := by
  rw [World.changeConfidence]
  split
  · exact R.refl w
  · exact hc w _ _

theorem moves_interleave (hc : ∀ w c u, R.rel w { w with confidence := c, userThread := u })
    (lib : Lib) (window : Window) : Moves R (lib.interleave window) := by
  refine moves_modify fun w => ?_
  induction lib.during window generalizing w with
  | nil => exact R.refl w
  | cons c cs ih => exact R.trans (rel_changeConfidence hc w c.1 c.2) (ih _)

/-- Tracking registers and adds to the set; either may matter to a relation. -/
theorem moves_track {tx : Transaction}
    (hr : ∀ w, R.rel w { w with registrations := tx :: w.registrations })
    (ht : ∀ w, R.rel w { w with
      trackedTransactions := addKey Transaction.hash w.trackedTransactions tx }) :
    Moves R (trackTransaction tx) := by
  refine moves_bind moves_get fun w => moves_ite (moves_pure _) ?_
  exact moves_bind (moves_modify hr) fun _ => moves_modify ht

theorem moves_untrack {tx : Transaction}
    (hr : ∀ w, R.rel w { w with registrations := w.registrations.erase tx })
    (ht : ∀ w, R.rel w { w with
      trackedTransactions := removeKey Transaction.hash w.trackedTransactions tx }) :
    Moves R (stopTrackingTransaction tx) := by
  refine moves_bind moves_get fun w => moves_ite ?_ (moves_pure _)
  exact moves_bind (moves_modify hr) fun _ => moves_modify ht

theorem moves_trackTransaction (ht : IgnoresTracking R) (tx : Transaction) :
    Moves R (trackTransaction tx) :=
  moves_track (fun w => ht.listening w w.trackedTransactions _) fun w => ht.listening w _ w.registrations

theorem moves_stopTrackingTransaction (ht : IgnoresTracking R) (tx : Transaction) :
    Moves R (stopTrackingTransaction tx) :=
  moves_untrack (fun w => ht.listening w w.trackedTransactions _) fun w =>
    ht.listening w _ w.registrations

/-- A relation that the handlers of calls about `tx` cannot leave, their tracking apart. -/
structure IgnoresHandling (R : Along World) (lib : Lib) (tx : Transaction) : Prop where
  interleave : ∀ window, Moves R (lib.interleave window)
  balance : ∀ w, R.rel w { w with natives := w.natives ++ [(w.activity, .onBalanceChanged)] }
  changed : ∀ w json, R.rel w
    { w with natives := w.natives ++ [(w.activity, .onTransactionChanged tx.hash json)] }

theorem IgnoresNews.handling (hn : IgnoresNews R) (lib : Lib) (tx : Transaction) :
    IgnoresHandling R lib tx :=
  ⟨moves_interleave hn.confidence lib, fun w => hn.news w _ rfl, fun w _ => hn.news w _ rfl⟩

section Handling

variable {lib : Lib} {tx : Transaction} (hh : IgnoresHandling R lib tx)
include hh

theorem moves_newTransaction (ht : Moves R (trackTransaction tx)) :
    Moves R (onNewTransaction lib tx) := by
  refine moves_bind moves_get fun w => moves_ite (moves_pure _) ?_
  refine moves_bind (moves_native hh.balance) fun _ => ?_
  refine moves_bind (hh.interleave _) fun _ => moves_bind (moves_reportOrNull lib tx) fun json => ?_
  refine moves_bind (hh.interleave _) fun _ => ?_
  refine moves_bind (moves_native fun w => hh.changed w json) fun _ => ?_
  refine moves_bind (moves_isPending tx) fun pending => moves_ite ?_ (moves_pure _)
  exact moves_bind (hh.interleave _) fun _ => ht

/-- Telling the Cocoa side about a changed transaction. -/
theorem moves_changedTransaction : Moves R (do
    native .onBalanceChanged
    lib.interleave .beforeSnapshot
    let json ← reportOrNull lib tx
    lib.interleave .afterSnapshot
    native (.onTransactionChanged tx.hash json)) := by
  refine moves_bind (moves_native hh.balance) fun _ => ?_
  refine moves_bind (hh.interleave _) fun _ => moves_bind (moves_reportOrNull lib tx) fun json => ?_
  exact moves_bind (hh.interleave _) fun _ => moves_native fun w => hh.changed w json

theorem moves_confidenceChanged (hs : Moves R (stopTrackingTransaction tx)) (reason : ChangeReason) :
    Moves R (onConfidenceChanged lib tx reason) := by
  refine moves_ite ?_ (moves_pure _)
  refine moves_bind (moves_isPending tx) fun pending => moves_bind (hh.interleave _) fun _ => ?_
  exact moves_bind (moves_ite (moves_pure _) hs) fun _ => moves_changedTransaction hh

end Handling

section Tracking

variable (hn : IgnoresNews R) (ht : ∀ tx, Moves R (trackTransaction tx))

include ht in
theorem moves_trackPending (ref : WalletRef) : Moves R (trackPendingTransactions ref) :=
  moves_bind moves_get fun _ => moves_bind (moves_forIn (fun tx _ =>
    moves_bind (ht tx) fun _ => moves_pure _) _ _) fun _ => moves_pure _

include hn ht in
theorem moves_onNewTransaction (lib : Lib) (tx : Transaction) : Moves R (onNewTransaction lib tx) :=
  moves_newTransaction (hn.handling lib tx) (ht tx)

include hn in
theorem moves_tellChanged (lib : Lib) (tx : Transaction) : Moves R (do
    native .onBalanceChanged
    lib.interleave .beforeSnapshot
    let json ← reportOrNull lib tx
    lib.interleave .afterSnapshot
    native (.onTransactionChanged tx.hash json)) :=
  moves_changedTransaction (hn.handling lib tx)

end Tracking

theorem moves_onConfidenceChanged (ht : IgnoresTracking R) (lib : Lib) (tx : Transaction)
    (reason : ChangeReason) : Moves R (onConfidenceChanged lib tx reason) :=
  moves_confidenceChanged (ht.toIgnoresNews.handling lib tx) (moves_stopTrackingTransaction ht tx) reason

theorem moves_handle (ht : IgnoresTracking R) (lib : Lib) (call : UserThreadCall) :
    Moves R (handle lib call) := by
  have hnew := moves_onNewTransaction ht.toIgnoresNews (moves_trackTransaction ht) lib
  cases call with
  | onCoinsReceived tx => exact hnew tx
  | onCoinsSent tx => exact hnew tx
  | onReorganize => exact moves_native fun w => ht.news w _ rfl
  | onConfidenceChanged tx reason => exact moves_onConfidenceChanged ht lib tx reason

/-! ### Starting and stopping -/

/-- A relation that the chain file and the network layer cannot leave. -/
structure IgnoresChain (R : Along World) : Prop where
  chain : ∀ w g gs s ss, R.rel w { w with
    peerGroup := g, peerGroups := gs, blockStore := s, blockStores := ss }
  chainFiles : ∀ w cs, R.rel w { w with files := { w.files with chains := cs } }
  balance : ∀ w, R.rel w { w with natives := w.natives ++ [(w.activity, .onBalanceChanged)] }

/-- A relation that the peer groups cannot leave. -/
structure IgnoresGroups (R : Along World) : Prop where
  groups : ∀ w g gs, R.rel w { w with peerGroup := g, peerGroups := gs }
  balance : ∀ w, R.rel w { w with natives := w.natives ++ [(w.activity, .onBalanceChanged)] }

theorem IgnoresChain.toIgnoresGroups (hc : IgnoresChain R) : IgnoresGroups R where
  groups w g gs := hc.chain w g gs w.blockStore w.blockStores
  balance := hc.balance

/-- A relation that the network layer cannot leave, the files apart. -/
structure IgnoresNetwork (R : Along World) : Prop extends IgnoresGroups R where
  stores : ∀ w s ss, R.rel w { w with blockStore := s, blockStores := ss }

theorem IgnoresChain.toIgnoresNetwork (hc : IgnoresChain R) : IgnoresNetwork R where
  toIgnoresGroups := hc.toIgnoresGroups
  stores w s ss := hc.chain w w.peerGroup w.peerGroups s ss

/-- Only the files, the network layer and the list of native calls change. -/
def onlyChain : Along World where
  rel w v := v = { w with
    peerGroup := v.peerGroup, peerGroups := v.peerGroups, blockStore := v.blockStore
    blockStores := v.blockStores, files := v.files, natives := v.natives }
  refl _ := rfl
  trans h₁ h₂ := by rw [h₂, h₁]

theorem ignoresChain_onlyChain : IgnoresChain onlyChain :=
  ⟨fun _ _ _ _ _ => rfl, fun _ _ => rfl, fun _ => rfl⟩

/-- Wallets whose transactions are the ones they had and newly numbered ones. -/
structure Loads (w : World) (wallets : Heap Wallet) (next : Nat) : Prop where
  le : w.nextTransaction ≤ next
  numbered : ∀ ref, ∀ tx ∈ (wallets.cell ref).transactions,
    tx ∈ (w.wallets.cell ref).transactions ∨ w.nextTransaction ≤ tx.ref ∧ tx.ref < next

/-- Putting a wallet into a cell. -/
theorem loads_update {w : World} {wallets : Heap Wallet} {ref : WalletRef} {wallet : Wallet} {next : Nat}
    (hle : w.nextTransaction ≤ next) (hcell : wallets.cell = Function.update w.wallets.cell ref wallet)
    (h : ∀ tx ∈ wallet.transactions,
      tx ∈ (w.wallets.cell ref).transactions ∨ w.nextTransaction ≤ tx.ref ∧ tx.ref < next) :
    Loads w wallets next := by
  refine ⟨hle, fun r tx htx => ?_⟩
  rw [hcell] at htx
  by_cases hr : r = ref
  · subst hr
    rw [Function.update_self] at htx
    exact h tx htx
  · rw [Function.update_of_ne hr] at htx
    exact .inl htx

theorem loads_empty {w : World} {ref : WalletRef} {wallets : Heap Wallet} {wallet : Wallet}
    (hcell : wallets.cell = Function.update w.wallets.cell ref wallet) (h : wallet.transactions = []) :
    Loads w wallets w.nextTransaction :=
  loads_update (Nat.le_refl _) hcell fun _ htx => absurd (h ▸ htx) List.not_mem_nil

theorem loads_image (w : World) (image : WalletImage) :
    Loads w (w.wallets.alloc (image.toWallet w.nextTransaction))
      (w.nextTransaction + image.transactions.length) :=
  loads_update (Nat.le_add_right _ _) rfl fun tx htx =>
    .inr (ref_loadedTransactions w.nextTransaction image.transactions tx htx)

/-- A relation that putting a wallet to use cannot leave, its tracking apart. -/
structure IgnoresInstalling (R : Along World) : Prop extends IgnoresWallets R, IgnoresChain R where
  wallet : ∀ w ref file, R.rel w { w with wallet := ref, walletFile := file }
  loading : ∀ w ws n c, Loads w ws n →
    R.rel w { w with wallets := ws, nextTransaction := n, confidence := c }

/-- A relation that lifecycle code cannot leave, its tracking apart. -/
structure IgnoresLifecycle (R : Along World) : Prop extends IgnoresKeys R, IgnoresInstalling R where
  network : ∀ w : World, w.networkParams = none →
    R.rel w { w with networkParams := some .mainNet }
  saved : ∀ w ws, R.rel w { w with files := { w.files with wallets := ws } }

section Groups

variable (hg : IgnoresGroups R)
include hg

theorem moves_onPeerGroup (lib : Lib) (site : Site) (f : PeerGroup → PeerGroup) :
    Moves R (onPeerGroup lib site f) :=
  moves_bind moves_get fun w => moves_bind (moves_deref w.peerGroup) fun _ =>
    moves_bind (moves_call lib site) fun _ => moves_modify fun w => hg.groups w w.peerGroup _

theorem moves_newPeerGroup (lib : Lib) : Moves R (newPeerGroup lib) :=
  moves_bind (moves_call lib _) fun _ => moves_modify fun w => hg.groups w _ _

/-- The second half of running a chain: a peer group for the chain and the wallet. -/
theorem moves_attach {lib : Lib} (ht : ∀ ref, Moves R (trackPendingTransactions ref)) :
    Moves R (do
      lib.call .newBlockChain
      newPeerGroup lib
      let (ref, _) ← theWallet
      onPeerGroup lib .addWallet fun group => { group with wallets := group.wallets ++ [ref] }
      native .onBalanceChanged
      trackPendingTransactions ref
      onPeerGroup lib .startAndWait fun group => { group with running := true }
      lib.call .startBlockChainDownload) := by
  refine moves_bind (moves_call lib _) fun _ => moves_bind (moves_newPeerGroup hg lib) fun _ => ?_
  refine moves_bind moves_theWallet fun ⟨ref, _⟩ => moves_bind (moves_onPeerGroup hg lib _ _) fun _ => ?_
  refine moves_bind (moves_native hg.balance) fun _ => moves_bind (ht ref) fun _ => ?_
  exact moves_bind (moves_onPeerGroup hg lib _ _) fun _ => moves_call lib _

end Groups

section Network

variable (hn : IgnoresNetwork R)
include hn

theorem moves_modifyBlockStore (ref : Nat) (f : BlockStore → BlockStore) :
    Moves R (modifyBlockStore ref f) := moves_modify fun w => hn.stores w w.blockStore _

theorem moves_checkpointFor (lib : Lib) (wallet : Wallet) : Moves R (checkpointFor lib wallet) := by
  refine moves_bind moves_get fun w => moves_ite ?_ (moves_pure _)
  refine moves_catchIf ?_ fun _ => moves_throw _
  refine moves_bind (moves_call lib _) fun _ => moves_bind (moves_call lib _) fun _ => ?_
  exact moves_bind (moves_deref w.blockStore) fun store => moves_modifyBlockStore hn store _

theorem moves_shutdownBlockchain (lib : Lib) : Moves R (shutdownBlockchain lib) := by
  refine moves_bind moves_get fun w => moves_bind (moves_ite ?_ (moves_pure _)) fun _ => ?_
  · have hg := hn.toIgnoresGroups
    refine moves_bind (moves_onPeerGroup hg lib _ _) fun _ => ?_
    refine moves_bind moves_theWallet fun _ => moves_bind (moves_onPeerGroup hg lib _ _) fun _ => ?_
    exact moves_modify fun w => hn.groups w _ w.peerGroups
  · refine moves_bind moves_get fun w => ?_
    split
    · refine moves_bind (moves_call lib _) fun _ => ?_
      refine moves_bind (moves_modifyBlockStore hn _ _) fun _ => moves_modify fun w => ?_
      exact hn.stores w _ w.blockStores
    · exact moves_pure _

end Network

section Chain

variable (hc : IgnoresChain R)
include hc

theorem moves_newBlockStore (lib : Lib) (file : File) : Moves R (newBlockStore lib file) :=
  moves_bind (moves_call lib _) fun _ => moves_bind (moves_modify fun w => hc.chainFiles w _) fun _ =>
    moves_bind (moves_call lib _) fun _ => moves_modify fun w =>
      hc.chain w w.peerGroup w.peerGroups _ _

theorem moves_deleteBlockchainDataFile (lib : Lib) : Moves R (deleteBlockchainDataFile lib) := by
  refine moves_modify fun w => ?_
  split
  · exact hc.chainFiles w _
  · exact R.refl w

/-- Running the chain, once clearing and tracking are seen to. -/
theorem moves_runChain {lib : Lib} (hclear : Moves R (clearTransactions lib))
    (ht : ∀ ref, Moves R (trackPendingTransactions ref)) : Moves R (startBlockchain lib) := by
  refine moves_bind moves_get fun w => ?_
  refine moves_bind (moves_newBlockStore hc lib _) fun _ => ?_
  refine moves_bind (moves_ite (moves_pure _) ?_) fun _ => moves_attach hc.toIgnoresGroups ht
  refine moves_bind hclear fun _ => moves_bind moves_theWallet fun _ => ?_
  exact moves_checkpointFor hc.toIgnoresNetwork lib _

end Chain

/-- A reset, once its parts are seen to. -/
theorem moves_rerunChain {lib : Lib} (hshut : Moves R (shutdownBlockchain lib))
    (hdelete : Moves R (deleteBlockchainDataFile lib))
    (hb : ∀ w, R.rel w { w with blocksToDownload := 0 })
    (hu : ∀ tx, Moves R (stopTrackingTransaction tx)) (hstart : Moves R (startBlockchain lib)) :
    Moves R (resetBlockchain lib) := by
  refine moves_catchIf ?_ fun _ => moves_throw _
  refine moves_bind hshut fun _ => moves_bind hdelete fun _ => moves_bind (moves_modify hb) fun _ => ?_
  refine moves_bind moves_get fun w => moves_bind (moves_forIn (fun tx _ => ?_) _ _) fun _ => hstart
  exact moves_bind (hu tx) fun _ => moves_pure _

theorem moves_saveToFile (hs : ∀ w ws, R.rel w { w with files := { w.files with wallets := ws } })
    (lib : Lib) (ref : WalletRef) (f : File) : Moves R (saveToFile lib ref f) :=
  moves_bind (moves_call lib _) fun _ => moves_modify fun w => hs w _

section Installing

variable (hi : IgnoresInstalling R)
include hi

theorem moves_newWallet : Moves R newWallet :=
  moves_bind moves_get fun _ => moves_bind (moves_modify fun w =>
    hi.loading w _ w.nextTransaction w.confidence (loads_empty rfl rfl)) fun _ => moves_pure _

theorem moves_clearTransactions (lib : Lib) : Moves R (clearTransactions lib) :=
  moves_bind moves_theWallet fun _ => moves_bind (moves_call lib _) fun _ =>
    moves_modify fun w => hi.loading w _ w.nextTransaction w.confidence (loads_empty rfl rfl)

theorem moves_startBlockchain (ht : ∀ ref, Moves R (trackPendingTransactions ref)) (lib : Lib) :
    Moves R (startBlockchain lib) :=
  moves_runChain hi.toIgnoresChain (moves_clearTransactions hi lib) ht

theorem moves_cleanup (lib : Lib) (ref : WalletRef) : Moves R (cleanup lib ref) :=
  moves_bind (moves_call lib _) fun _ => moves_modify fun w =>
    hi.loading w _ w.nextTransaction w.confidence
      (loads_update (Nat.le_refl _) rfl fun _ htx => .inl (List.mem_of_mem_filter htx))

theorem moves_useWallet (ht : ∀ ref, Moves R (trackPendingTransactions ref)) (lib : Lib)
    (ref : WalletRef) : Moves R (useWallet lib ref) := by
  refine moves_bind (moves_modify fun w => hi.wallet w _ w.walletFile) fun _ => ?_
  refine moves_bind (moves_call lib _) fun _ => moves_bind moves_get fun w => ?_
  refine moves_bind (moves_modifyWallet hi.toIgnoresWallets _ fun _ => rfl) fun _ => ?_
  refine moves_bind (moves_getWalletAddress lib) fun _ => ?_
  refine moves_bind (moves_modifyWallet hi.toIgnoresWallets _ fun _ => rfl) fun _ => ?_
  exact moves_bind (moves_startBlockchain hi ht lib) fun _ => moves_cleanup hi lib ref

end Installing

section Lifecycle

variable (hl : IgnoresLifecycle R)
include hl

omit hl in
theorem moves_loadWalletFromFile (hload : ∀ w image, R.rel w (w.loadWallet image)) (lib : Lib)
    (f : File) : Moves R (loadWalletFromFile lib f) := by
  refine moves_catchIf ?_ fun _ => moves_throw _
  refine moves_bind (moves_call lib _) fun _ => moves_bind moves_get fun w => ?_
  split
  · exact moves_throw _
  · refine moves_tryFinally ?_ (moves_call lib _)
    refine moves_bind (moves_call lib _) fun _ => moves_bind (moves_call lib _) fun _ => ?_
    exact moves_bind moves_get fun _ => moves_bind (moves_modify fun w => hload w _) fun _ =>
      moves_pure _

theorem moves_exportWallet (lib : Lib) (path : String) : Moves R (exportWallet lib path) :=
  moves_bind moves_theWallet fun _ => moves_saveToFile hl.saved lib _ _

omit hl in
theorem moves_setTestingNetwork (hs : ∀ w n, R.rel w { w with networkParams := n }) (testing : Bool) :
    Moves R (setTestingNetwork testing) := moves_modify fun w => hs w _

omit hl in
theorem moves_setDataDirectory (hs : ∀ w d, R.rel w { w with dataDirectory := d }) (path : String) :
    Moves R (setDataDirectory path) := moves_modify fun w => hs w _

omit hl in
theorem moves_setCheckpointsFilePath (hs : ∀ w c, R.rel w { w with checkpointsFilePath := c })
    (path : Option String) : Moves R (setCheckpointsFilePath path) := moves_modify fun w => hs w _

/-- The network is chosen when the manager is started, unless it was before. -/
theorem moves_start (ht : ∀ ref, Moves R (trackPendingTransactions ref)) (lib : Lib) :
    Moves R (start lib) := by
  have hrest (walletFile : File) (w : World) : Moves R (do
      modify fun w : World => { w with wallet := none, walletFile := some walletFile }
      if (w.files.wallets walletFile).isNone then
        throw (noWalletException ("No wallet file found at: " ++ walletFile))
      else
        catchIf (Throwable.instanceOf fileNotFoundExceptionClass)
          (do
            let ref ← loadWalletFromFile lib walletFile
            useWallet lib ref)
          fun _ => throw (noWalletException ("No wallet file found at: " ++ walletFile))) := by
    refine moves_bind (moves_modify fun w => hl.wallet w _ _) fun _ => moves_ite (moves_throw _) ?_
    have hload := moves_loadWalletFromFile (fun w image => hl.loading w _ _ _ (loads_image w image)) lib
    exact moves_catchIf (moves_bind (hload _) fun ref =>
        moves_useWallet hl.toIgnoresInstalling ht lib ref) fun _ =>
      moves_throw _
  intro w
  have hends : Ends (start lib) w fun _ v => R.rel w v := by
    unfold start setTestingNetwork
    rw [ends_bind, ends_get]
    dsimp only
    rw [ends_bind, ends_ite]
    split
    · next hn => exact ends_along (hl.network w (by simpa using hn)) (hrest _ w)
    · exact ends_along (R.refl w) (hrest _ w)
  exact hends

theorem moves_createWallet (hs : ∀ w s, R.rel w { w with secrets := s })
    (ht : ∀ ref, Moves R (trackPendingTransactions ref)) (lib : Lib) (password : Option CharArrayRef) :
    Moves R (createWallet lib password) := by
  have hk := hl.toIgnoresKeys
  refine moves_bind moves_get fun w => ?_
  split
  · exact moves_throw _
  · refine moves_ite (moves_throw _) (moves_bind (moves_newWallet hl.toIgnoresInstalling) fun ref => ?_)
    refine moves_bind (moves_modifyWallet hk.toIgnoresWallets ref fun _ => rfl) fun _ => ?_
    refine moves_bind (moves_modifyWallet hk.toIgnoresWallets ref fun _ => rfl) fun _ => ?_
    refine moves_bind (moves_ite ?_ (moves_pure _)) fun _ => ?_
    · refine moves_bind (moves_encryptWallet hk.toIgnoresRekeying hs lib password ref) fun _ => ?_
      exact moves_bind moves_get fun w => moves_bind (moves_firstKey _) fun _ =>
        moves_modifyWallet hk.toIgnoresWallets ref fun _ => rfl
    · exact moves_bind (moves_saveToFile hl.saved lib ref _) fun _ =>
        moves_bind (moves_deleteBlockchainDataFile hl.toIgnoresChain lib) fun _ =>
          moves_useWallet hl.toIgnoresInstalling ht lib ref

theorem moves_stop (lib : Lib) : Moves R (stop lib) := by
  refine moves_catchIf ?_ fun _ => moves_throw _
  refine moves_bind (moves_shutdownBlockchain hl.toIgnoresChain.toIgnoresNetwork lib) fun _ =>
    moves_bind moves_get fun w => ?_
  split
  · exact moves_bind (moves_deref _) fun _ => moves_saveToFile hl.saved lib _ _
  · exact moves_pure _

theorem moves_resetBlockchain (hb : ∀ w, R.rel w { w with blocksToDownload := 0 })
    (ht : ∀ ref, Moves R (trackPendingTransactions ref))
    (hu : ∀ tx, Moves R (stopTrackingTransaction tx)) (lib : Lib) :
    Moves R (resetBlockchain lib) :=
  moves_rerunChain (moves_shutdownBlockchain hl.toIgnoresChain.toIgnoresNetwork lib)
    (moves_deleteBlockchainDataFile hl.toIgnoresChain lib) hb hu
    (moves_startBlockchain hl.toIgnoresInstalling ht lib)

end Lifecycle

/-! ### Paying -/

/-- A relation that building and committing a payment cannot leave. -/
structure IgnoresCommits (R : Along World) : Prop where
  built : ∀ w n, R.rel w { w with nextTransaction := n }
  waiting : ∀ w p, R.rel w { w with pending := p }
  stored : ∀ w ref tx, R.rel w { w with
    wallets := w.wallets.write ref ((w.wallets.cell ref).withTransaction tx) }
  committed : ∀ w c u cs, R.rel w { w with confidence := c, userThread := u, commits := cs }

/-- A relation that making a payment with a key cannot leave. -/
structure IgnoresSending (R : Along World) : Prop extends IgnoresKeyUse R, IgnoresCommits R

/-- A relation that loading a request and answering one cannot leave. -/
structure IgnoresAnswers (R : Along World) : Prop where
  numbered : ∀ w n, R.rel w { w with nextSession := n }
  loaded : ∀ (w : World) (session : PaymentSession), some session.networkParams = w.networkParams →
    R.rel w { w with
      paymentSessionsSequenceId := w.paymentSessionsSequenceId + 1
      paymentSessions :=
        Function.update w.paymentSessions (w.paymentSessionsSequenceId + 1) (some session) }
  removed : ∀ (w : World) (sessionId : Int32), R.rel w { w with
    paymentSessions := Function.update w.paymentSessions sessionId none
    removals := w.removals ++ [(w.activity, sessionId)] }
  reports : ∀ w (call : NativeCall), call.callback.isSome →
    R.rel w { w with natives := w.natives ++ [(w.activity, call)] }

/-- A relation that payments cannot leave, the notification of a new transaction apart. -/
structure IgnoresPayments (R : Along World) : Prop extends IgnoresSending R, IgnoresAnswers R

section Commits

variable (hc : IgnoresCommits R)
include hc

theorem moves_complete (lib : Lib) (request : SendRequest) (aesKey : Option AesKeyRef) :
    Moves R (lib.complete request aesKey) :=
  moves_bind moves_theWallet fun _ => moves_bind moves_get fun _ => moves_bind (moves_result _)
    fun _ => moves_bind (moves_modify fun w => hc.built w _) fun _ => moves_pure _

theorem moves_commitTx (lib : Lib) (tx : Transaction) : Moves R (lib.commitTx tx) := by
  refine moves_bind moves_theWallet fun ⟨ref, wallet⟩ => moves_bind (moves_call lib _) fun _ => ?_
  refine moves_ite (moves_throw _) ?_
  refine moves_bind (moves_modify fun w => hc.stored w _ tx) fun _ => moves_modify fun w => ?_
  rw [World.changeConfidence]
  split
  · exact hc.committed w w.confidence w.userThread _
  · exact hc.committed w _ _ _

theorem moves_addCallback (future : Nat → Pending) : Moves R (addCallback future) :=
  moves_modify fun w => hc.waiting w _

omit hc in
theorem moves_broadcast (lib : Lib) : Moves R lib.broadcastTransaction :=
  moves_bind moves_get fun _ => moves_bind (moves_deref _) fun _ => moves_call lib _

/-- The part of a plain send that has the key. -/
theorem moves_sendWithKey (lib : Lib) (request : SendRequest) (key : AesKeyRef) : Moves R (do
    let tx ← lib.sendCoins request key
    addCallback fun _ => .sent tx) := by
  refine moves_bind ?_ fun tx => moves_addCallback hc _
  exact moves_bind (moves_complete hc lib _ _) fun tx => moves_bind (moves_commitTx hc lib tx)
    fun _ => moves_bind (moves_broadcast lib) fun _ => moves_pure tx

theorem moves_submitPayment (lib : Lib) (session : PaymentSession) (request : SendRequest)
    (aesKey : Option AesKeyRef) (sessionId callbackId : Int32) :
    Moves R (submitPayment lib session request aesKey sessionId callbackId) := by
  refine moves_bind (moves_complete hc lib _ _) fun tx => moves_bind moves_theWallet fun x => ?_
  refine moves_bind (moves_firstKey x.2) fun _ => moves_bind ?_ fun fack => ?_
  · exact moves_ite (moves_pure _) (moves_ite (moves_throw _)
      (moves_bind (moves_call lib _) fun _ => moves_pure _))
  · refine moves_ite (moves_addCallback hc _) ?_
    exact moves_bind (moves_commitTx hc lib tx) fun _ => moves_bind (moves_broadcast lib) fun _ =>
      moves_addCallback hc _

end Commits

section Sending

variable (hp : IgnoresSending R)
include hp

theorem moves_sendCoins (hs : ∀ w s, R.rel w { w with secrets := s }) (lib : Lib)
    (amount recipient : String) (password : Option CharArrayRef) :
    Moves R (sendCoins lib amount recipient password) := by
  refine moves_catchIf ?_ fun _ => moves_throw _
  refine moves_bind (moves_result _) fun _ => moves_bind moves_get fun _ => ?_
  refine moves_bind (moves_result _) fun _ => moves_bind (moves_call lib _) fun _ => ?_
  refine moves_bind (moves_aesKeyForPassword hs lib password) fun key => ?_
  exact moves_tryFinally (moves_sendWithKey hp.toIgnoresCommits lib _ key) (moves_wipeAesKey hp.keys _)

theorem moves_sendPaymentRequest (hs : ∀ w s, R.rel w { w with secrets := s }) (lib : Lib)
    (sessionId : Int32) (password : Option CharArrayRef) (callbackId : Int32) :
    Moves R (sendPaymentRequest lib sessionId password callbackId) := by
  refine moves_catchIf ?_ fun _ => moves_throw _
  refine moves_bind moves_get fun w => moves_bind (moves_deref _) fun session => ?_
  refine moves_bind (moves_result _) fun _ => moves_bind (moves_ite ?_ (moves_pure _)) fun key => ?_
  · exact moves_bind (moves_aesKeyForPassword hs lib password) fun _ => moves_pure _
  · exact moves_tryFinally (moves_submitPayment hp.toIgnoresCommits lib session _ key sessionId
      callbackId) (moves_wipeAesKey hp.keys _)

theorem moves_openPaymentRequestFromURL (lib : Lib) (url : String) (callbackId : Int32) :
    Moves R (openPaymentRequestFromURL lib url callbackId) :=
  moves_bind (moves_result _) fun _ => moves_addCallback hp.toIgnoresCommits _

end Sending

section Answers

variable (ha : IgnoresAnswers R)
include ha

omit ha in
theorem moves_validatePaymentRequest (lib : Lib) (session : PaymentSession) :
    Moves R (validatePaymentRequest lib session) :=
  moves_bind moves_get fun _ => moves_ite (moves_throw _) (moves_ite (moves_throw _)
    (moves_catchIf (moves_call lib _) fun _ => moves_pure _))

omit ha in
theorem moves_getPaymentRequestDetails (lib : Lib) (session : PaymentSession) :
    Moves R (getPaymentRequestDetails lib session) := by
  refine moves_bind (moves_call lib _) fun _ => ?_
  dsimp only
  split <;> exact moves_pure _

theorem moves_newSession (lib : Lib) : Moves R (newSession lib) :=
  moves_bind moves_get fun _ => moves_bind (moves_modify fun w =>
    ha.numbered w _) fun _ => moves_pure _

omit ha in
/-- A request that passes its validation is meant for the manager's network. -/
theorem ends_validatePaymentRequest {w : World} (lib : Lib) (session : PaymentSession) :
    Ends (validatePaymentRequest lib session) w fun r v => v = w ∧
      (r = .ok () → some session.networkParams = w.networkParams ∧ session.isExpired lib.now = false) := by
  have hsame : Ends (validatePaymentRequest lib session) w fun _ v => v = w :=
    moves_validatePaymentRequest (R := keeping id) lib session w
  have hends : Ends (validatePaymentRequest lib session) w fun r _ =>
      r = .ok () → some session.networkParams = w.networkParams ∧
        session.isExpired lib.now = false := by
    unfold validatePaymentRequest
    rw [ends_bind, ends_get]
    dsimp only
    rw [ends_ite]
    split
    · rintro ⟨⟩
    · next hnet =>
      rw [ends_ite]
      split
      · rintro ⟨⟩
      · next hexp => exact fun _ => ⟨by simpa using hnet, by simpa using hexp⟩
  exact ends_and hsame hends

theorem moves_acceptSession (lib : Lib) (callbackId : Int32) (session : PaymentSession) :
    Moves R (acceptSession lib callbackId session) := by
  have hreport (sessionId : Int32) : Moves R (do
      let requestDetails ← getPaymentRequestDetails lib session
      native (.onPaymentRequestLoaded callbackId sessionId requestDetails)) :=
    moves_bind (moves_getPaymentRequestDetails lib session) fun _ =>
      moves_native fun w => ha.reports w _ rfl
  intro w
  have hends : Ends (acceptSession lib callbackId session) w fun _ v => R.rel w v := by
    unfold acceptSession storeSession
    rw [ends_bind]
    refine ends_mono (ends_validatePaymentRequest lib session) ?_
    rintro r v ⟨rfl, hvalid⟩
    cases r with
    | error e => exact R.refl v
    | ok _ =>
      dsimp only
      simp only [bind_assoc, pure_bind]
      rw [ends_bind, ends_get]
      dsimp only
      rw [ends_bind, ends_modify]
      exact ends_along (ha.loaded v session (hvalid rfl).1) (hreport _)
  exact hends

theorem moves_openPaymentRequestFromFile (lib : Lib) (path : String) (callbackId : Int32) :
    Moves R (openPaymentRequestFromFile lib path callbackId) := by
  have hn (e : Throwable) : Moves R (native (.onPaymentRequestLoadFailed callbackId e)) :=
    moves_native fun w => ha.reports w _ rfl
  refine moves_bind (moves_result _) fun _ => moves_tryCatch ?_ fun e => ?_
  · exact moves_bind (moves_call lib _) fun _ => moves_bind (moves_call lib _) fun _ =>
      moves_bind (moves_newSession ha lib) fun session => moves_acceptSession ha lib _ session
  · exact moves_ite (hn e) (moves_ite (hn e) (moves_ite (hn e) (moves_throw e)))

theorem moves_onSessionLoaded (lib : Lib) (callbackId : Int32) :
    Moves R (onSessionLoaded lib callbackId) :=
  moves_bind (moves_newSession ha lib) fun session =>
    moves_catchIf (moves_acceptSession ha lib _ session) fun _ =>
      moves_native fun w => ha.reports w _ rfl

theorem moves_onFailure (error : Throwable) :
    ∀ future, (∀ tx, future = .sent tx → Moves R (native .onTransactionFailed)) →
      Moves R (onFailure error future)
  | .session _, _ => moves_native fun w => ha.reports w _ rfl
  | .ack _ _ _ _, _ => moves_native fun w => ha.reports w _ rfl
  | .broadcast _ _ _ _, _ => moves_native fun w => ha.reports w _ rfl
  | .sent tx, ho => ho tx rfl

end Answers

section Payments

variable (hp : IgnoresPayments R)
include hp

theorem moves_onAck (lib : Lib) (hn : ∀ tx, Moves R (onNewTransaction lib tx)) (sessionId : Int32)
    (tx : Transaction) (callbackId : Int32) : Moves R (onAck lib sessionId tx callbackId) := by
  refine moves_catchIf ?_ fun e => moves_native fun w => hp.reports w _ rfl
  refine moves_bind (moves_commitTx hp.toIgnoresCommits lib tx) fun _ => ?_
  refine moves_bind (moves_modify fun w => ?_) fun _ => ?_
  · exact hp.removed w sessionId
  · refine moves_bind (hn tx) fun _ => moves_bind (moves_broadcast lib) fun _ => ?_
    exact moves_bind (moves_bind (moves_call lib _) fun _ => moves_pure _) fun _ =>
      moves_native fun w => hp.reports w _ rfl

/-- `ho` is about plain sends: they answer to no callback. -/
theorem moves_onSuccess (lib : Lib) (hn : ∀ tx, Moves R (onNewTransaction lib tx)) :
    ∀ future, (∀ tx, future = .sent tx → Moves R (native (.onTransactionSuccess tx.hash))) →
      Moves R (onSuccess lib future)
  | .session _, _ => moves_onSessionLoaded hp.toIgnoresAnswers lib _
  | .ack _ tx _ _, _ => moves_onAck hp lib hn _ tx _
  | .broadcast _ _ _ _, _ => moves_bind (moves_modify fun w => hp.removed w _) fun _ =>
      moves_native fun w => hp.reports w _ rfl
  | .sent tx, ho => ho tx rfl

end Payments

end BitcoinKit

import BitcoinKit.Java.Listening
import BitcoinKit.Java.Rekeying

/-! What starting, creating and resetting come to when nothing fails, as functions of what they start
    from: the files, the places of the files, and for a reset the wallet in use.

        settled   what a call threw, or how the manager stands after it; and the files
        ranChain  how the manager stands once the chain runs

    How the manager stands is what its caller can see of it: the wallet's content, the block store in
    use and the checkpoint it was started from, whether the peer group runs. -/

namespace BitcoinKit
open Schemes

@[ext] structure Footing where
  wallet : Option WalletImage
  store : Option BlockStore
  running : Option Bool

def World.footing (w : World) : Footing where
  wallet := w.wallet.map fun ref => w.imageOf (w.wallets.cell ref)
  store := w.blockStore.map w.blockStores.cell
  running := w.peerGroup.map fun group => (w.peerGroups.cell group).running

def settled (r : EStateM.Result Throwable World Unit) : Except Throwable Footing × Files :=
  ((outcome r).map fun _ => (after r).footing, (after r).files)

theorem settled_iff {m : Java Unit} {w : World} {x : Except Throwable Footing × Files} :
    settled (m w) = x ↔ Ends m w fun r v => (r.map fun _ => v.footing, v.files) = x := Iff.rfl

/-- Where the manager looks for its files. -/
structure Places where
  wallet : File
  chain : File
  checkpoints : File

def World.places (w : World) : Places where
  wallet := w.dataFile "/bitcoinkit.wallet"
  chain := getBlockchainFile w
  checkpoints := w.checkpointsFilePath.getD (w.dataFile "/bitcoinkit.checkpoints")

/-- No call into the library fails. -/
structure Lib.Works (lib : Lib) : Prop where
  calls : ∀ site, lib.fails site = none
  deletes : lib.deletes = true

theorem fair_works : (Lib.fair).Works := ⟨fun _ => rfl, rfl⟩

/-- `new SPVBlockStore(…)` refuses a chain file that is locked; `lock` is what it says then. -/
def Lib.heeding (lib : Lib) (lock : Option String) : Lib :=
  match lock with
  | none => lib
  | some text => lib.failingAt .openBlockStore (blockStoreException text)

/-- No call into the library fails, but a locked chain file is refused. -/
structure Lib.Serves (lib : Lib) (lock : Option String) : Prop where
  calls : ∀ site, site ≠ .openBlockStore → lib.fails site = none
  opening : lib.fails .openBlockStore = lock.map blockStoreException
  deletes : lib.deletes = true

theorem Lib.Works.heeding {lib : Lib} (hl : lib.Works) :
    ∀ lock, (lib.heeding lock).Serves lock
  | none => ⟨fun site _ => hl.calls site, hl.calls _, hl.deletes⟩
  | some _ => ⟨fun site hs => (if_neg hs).trans (hl.calls site), rfl, hl.deletes⟩

def Files.withChain (files : Files) (f : File) : Files :=
  { files with chains := Function.update files.chains f true }

def Files.withoutChain (files : Files) (f : File) : Files :=
  { files with chains := Function.update files.chains f false }

def WalletImage.cleared (image : WalletImage) : WalletImage :=
  { image with transactions := [], distinct := distinct_nil }

/-- What `wallet.cleanup()` leaves: pending transactions that are risky are gone. -/
def WalletImage.cleaned (lib : Lib) (image : WalletImage) : WalletImage :=
  { image with
    transactions := image.transactions.filter fun tx => !(tx.confidence = .pending && lib.risky tx.hash)
    distinct := distinct_filter image.distinct _ }

/-- What saving a wallet writes that was read from this. -/
def WalletImage.reread (image : WalletImage) : WalletImage :=
  { image with
    lastWalletChange := (LastWalletChangeExtension.loaded
      image.lastWalletChange).serializeWalletExtension.toOption }

/-- The time a chain for these keys is started from. -/
def chainTime (lib : Lib) (keys : List ECKey) : Nat :=
  let earliest := { Wallet.empty with keys := keys }.earliestKeyCreationTime lib.now
  if earliest = 0 then 1368620845 else earliest

def ranChain (lib : Lib) (files : Files) (places : Places) (image : WalletImage) : Footing :=
  if files.chains places.chain then ⟨some image, some ⟨places.chain, true, none⟩, some true⟩
  else ⟨some image.cleared, some ⟨places.chain, true,
    if files.checkpoints places.checkpoints then some (chainTime lib image.keys) else none⟩, some true⟩

theorem ranChain_cleaned (lib : Lib) (files : Files) (places : Places) (image : WalletImage) :
    ranChain lib files places (image.cleaned lib) = { ranChain lib files places image with
      wallet := (ranChain lib files places image).wallet.map (WalletImage.cleaned lib) } := by
  unfold ranChain
  split <;> rfl

theorem running_ranChain (lib : Lib) (files : Files) (places : Places) (image : WalletImage) :
    (ranChain lib files places image).running = some true := by
  unfold ranChain
  split <;> rfl

variable {w v : World} {lib : Lib} {lock : Option String} {ref : WalletRef}

theorem wallet_footing (hw : w.wallet = some ref) :
    w.footing.wallet = some (w.imageOf (w.wallets.cell ref)) := by
  simp [World.footing, hw]

theorem store_footing {store : Nat} (hs : w.blockStore = some store) :
    w.footing.store = some (w.blockStores.cell store) := by
  simp [World.footing, hs]

theorem Lib.Serves.call (hl : lib.Serves lock) {site : Site} (hs : site ≠ .openBlockStore) :
    lib.call site = pure () := by
  unfold Lib.call
  rw [hl.calls site hs]

theorem Lib.Serves.opens (hl : lib.Serves none) : lib.call .openBlockStore = pure () := by
  unfold Lib.call
  rw [hl.opening]
  rfl

/-! ### Running the chain -/

/-- Following the pending transactions only adds to who is listened to. -/
theorem ends_trackPending (ref : WalletRef) :
    Ends (trackPendingTransactions ref) w fun r v => r = .ok () ∧ onlyListening.rel w v := by
  have htrack (tx : Transaction) (u : World) :
      Ends (trackTransaction tx) u fun r v => r = .ok () ∧ onlyListening.rel u v := by
    cases hk : hasKey Transaction.hash u.trackedTransactions tx with
    | false => exact ends_mono (ends_trackTransaction hk) fun r v hv => ⟨hv.1, hv.2.1⟩
    | true =>
      refine ends_mono (ends_trackTransaction_again hk) ?_
      rintro r v ⟨hr, rfl⟩
      exact ⟨hr, onlyListening.refl v⟩
  unfold trackPendingTransactions
  rw [ends_bind, ends_get]
  dsimp only
  rw [ends_bind]
  refine ends_mono (ends_forIn (I := fun _ _ v => onlyListening.rel w v) (E := fun _ _ => False)
    (fun tx xs _ u hu => ?_) _ _ w (onlyListening.refl w)) fun r v hv => ?_
  · rw [ends_bind]
    refine ends_mono (htrack tx u) ?_
    rintro r v ⟨rfl, hv⟩
    exact onlyListening.trans hu hv
  · cases r with
    | error e => exact hv.elim
    | ok _ => exact ⟨rfl, hv⟩

/-- All of the footing but the peer group, the wallet object and the files. -/
def besideGroup : Along World := keeping fun w =>
  (w.footing.wallet, w.footing.store, w.files, w.wallet)

theorem besideGroup_groups : IgnoresGroups besideGroup := ⟨fun _ _ _ => rfl, fun _ => rfl⟩

theorem besideGroup_listening (h : onlyListening.rel w v) : besideGroup.rel w v := by
  rw [h]
  rfl

theorem besideGroup_pending (ref : WalletRef) : Moves besideGroup (trackPendingTransactions ref) :=
  fun _ => besideGroup_listening (ends_trackPending ref).2

theorem serves_newPeerGroup (hl : lib.Serves lock) : Ends (newPeerGroup lib) w fun r v =>
    ∃ a, r = .ok a ∧ v.peerGroup = some w.peerGroups.next ∧ v.wallet = w.wallet := by
  unfold newPeerGroup
  simp (disch := decide) only [hl.call, pure_bind]
  exact ⟨_, rfl, rfl, rfl⟩

theorem serves_onPeerGroup (hl : lib.Serves lock) {group : Nat} (hg : w.peerGroup = some group)
    {site : Site} (hs : site ≠ .openBlockStore) (f : PeerGroup → PeerGroup) :
    Ends (onPeerGroup lib site f) w fun r v => ∃ a, r = .ok a ∧
      v = { w with peerGroups := w.peerGroups.write group (f (w.peerGroups.cell group)) } := by
  have hderef : (deref w.peerGroup : Java Nat) = pure group := by
    rw [hg]
    rfl
  unfold onPeerGroup
  simp only [hl.call hs, pure_bind]
  rw [ends_bind, ends_get]
  dsimp only
  rw [hderef, pure_bind]
  exact ⟨_, rfl, rfl⟩

/-- The second half of running a chain starts a peer group. -/
theorem serves_attach (hl : lib.Serves lock) (hw : w.wallet = some ref) : Ends (do
    lib.call .newBlockChain
    newPeerGroup lib
    let (ref, _) ← theWallet
    onPeerGroup lib .addWallet fun group => { group with wallets := group.wallets ++ [ref] }
    native .onBalanceChanged
    trackPendingTransactions ref
    onPeerGroup lib .startAndWait fun group => { group with running := true }
    lib.call .startBlockChainDownload) w fun r v => r = .ok () ∧ v.footing.running = some true ∧
      besideGroup.rel w v := by
  have hkept := @moves_attach _ besideGroup_groups lib besideGroup_pending
  refine ends_mono (ends_and (Q := fun r v => r = .ok () ∧ v.footing.running = some true) ?_
    (ends_of_moves hkept)) fun r v hv => ⟨hv.1.1, hv.1.2, hv.2⟩
  simp (disch := decide) only [hl.call, pure_bind]
  refine ends_bind_ok (serves_newPeerGroup hl) fun _ u ⟨hg, hwu⟩ => ?_
  rw [ends_bind, ends_theWallet (hwu.trans hw)]
  dsimp only
  refine ends_bind_ok (serves_onPeerGroup hl hg (by decide) _) fun _ u' hu' => ?_
  have hg' : u'.peerGroup = some w.peerGroups.next := by rw [hu']; exact hg
  rw [ends_bind, ends_native]
  dsimp only
  rw [ends_bind]
  refine ends_mono (ends_trackPending ref) ?_
  rintro r t ⟨rfl, ht⟩
  have hg'' : t.peerGroup = some w.peerGroups.next := by rw [ht]; exact hg'
  dsimp only
  refine ends_bind_ok (serves_onPeerGroup hl hg'' (by decide) _) fun _ v hv => ?_
  rw [ends_pure, hv]
  simp [World.footing, hg'']

/-- The world with a new block store open on a file. -/
def World.opened (w : World) (f : File) : World :=
  { w with
    files := w.files.withChain f
    blockStores := w.blockStores.alloc ⟨f, true, none⟩
    blockStore := some w.blockStores.next }

theorem serves_newBlockStore (hl : lib.Serves none) (f : File) :
    Ends (newBlockStore lib f) w fun r v => ∃ a, r = .ok a ∧ v = w.opened f := by
  unfold newBlockStore
  simp (disch := decide) only [hl.opens, hl.call, pure_bind]
  exact ⟨_, rfl, rfl⟩

/-- The world with a wallet cleared. -/
def World.emptied (w : World) (ref : WalletRef) : World :=
  let wallet := { w.wallets.cell ref with transactions := [], distinct := distinct_nil }
  { w with wallets := w.wallets.write ref wallet }

theorem serves_clearTransactions (hl : lib.Serves lock) (hw : w.wallet = some ref) :
    Ends (clearTransactions lib) w fun r v => ∃ a, r = .ok a ∧ v = w.emptied ref := by
  unfold clearTransactions
  rw [ends_bind, ends_theWallet hw]
  simp (disch := decide) only [hl.call, pure_bind]
  exact ⟨_, rfl, rfl⟩

/-- The world with a block store started from a checkpoint. -/
def World.checkpointed (w : World) (store t : Nat) : World :=
  let s := { w.blockStores.cell store with checkpoint := some t }
  { w with blockStores := w.blockStores.write store s }

theorem serves_checkpointFor (hl : lib.Serves lock) {store : Nat} (hs : w.blockStore = some store)
    (wallet : Wallet) : Ends (checkpointFor lib wallet) w fun r v => r = .ok () ∧
      v = if w.files.checkpoints w.places.checkpoints then
        w.checkpointed store (chainTime lib wallet.keys) else w := by
  have hderef : (deref w.blockStore : Java Nat) = pure store := by
    rw [hs]
    rfl
  unfold checkpointFor
  simp (disch := decide) only [hl.call, pure_bind]
  rw [ends_bind, ends_get]
  dsimp only
  rw [hderef, pure_bind, ends_ite]
  have hplace : w.checkpointsFilePath.getD (w.dataFile "/bitcoinkit.checkpoints") =
      w.places.checkpoints := rfl
  rw [hplace]
  split
  · exact ⟨rfl, rfl⟩
  · exact ⟨rfl, rfl⟩

@[simp] theorem cell_emptied : (w.emptied ref).wallets.cell ref =
    { w.wallets.cell ref with transactions := [], distinct := distinct_nil } := Heap.cell_write_self

/-- A chain whose file was missing starts from an empty wallet, at a checkpoint if there are any. -/
theorem serves_rebuild (hl : lib.Serves lock) (hw : w.wallet = some ref) {store : Nat}
    (hs : w.blockStore = some store) : Ends (do
      clearTransactions lib
      let (_, wallet) ← theWallet
      checkpointFor lib wallet) w fun r v => ∃ a, r = .ok a ∧
        v = if w.files.checkpoints w.places.checkpoints then
          (w.emptied ref).checkpointed store (chainTime lib (w.wallets.cell ref).keys)
        else w.emptied ref := by
  refine ends_bind_ok (serves_clearTransactions hl hw) fun _ u hu => ?_
  have huw : u.wallet = some ref := by rw [hu]; exact hw
  have hus : u.blockStore = some store := by rw [hu]; exact hs
  rw [ends_bind, ends_theWallet huw]
  dsimp only
  refine ends_mono (serves_checkpointFor hl hus _) ?_
  rintro r v ⟨rfl, hv⟩
  refine ⟨_, rfl, ?_⟩
  have hkeys : (u.wallets.cell ref).keys = (w.wallets.cell ref).keys := by rw [hu, cell_emptied]
  rw [hv, hkeys, hu]
  rfl

/-- A block chain is run over the current wallet. -/
theorem serves_startBlockchain (hl : lib.Serves none) (hw : w.wallet = some ref) :
    Ends (startBlockchain lib) w fun r v => r = .ok () ∧
      v.footing = ranChain lib w.files w.places (w.imageOf (w.wallets.cell ref)) ∧
      v.files = w.files.withChain w.places.chain ∧ v.wallet = some ref := by
  have hfinish {u : World} (hu : u.wallet = some ref) (hfiles : u.files = w.files.withChain w.places.chain)
      (hran : u.footing.wallet = (ranChain lib w.files w.places (w.imageOf (w.wallets.cell ref))).wallet ∧
        u.footing.store = (ranChain lib w.files w.places (w.imageOf (w.wallets.cell ref))).store) :
      Ends (do
        lib.call .newBlockChain
        newPeerGroup lib
        let (ref, _) ← theWallet
        onPeerGroup lib .addWallet fun group => { group with wallets := group.wallets ++ [ref] }
        native .onBalanceChanged
        trackPendingTransactions ref
        onPeerGroup lib .startAndWait fun group => { group with running := true }
        lib.call .startBlockChainDownload) u fun r v => r = .ok () ∧
          v.footing = ranChain lib w.files w.places (w.imageOf (w.wallets.cell ref)) ∧
          v.files = w.files.withChain w.places.chain ∧ v.wallet = some ref := by
    refine ends_mono (serves_attach hl hu) ?_
    rintro r v ⟨rfl, hrunning, hkept⟩
    simp only [besideGroup, keeping, Prod.mk.injEq] at hkept
    obtain ⟨hwallet, hstore, hsame, hobject⟩ := hkept
    refine ⟨rfl, Footing.ext (hwallet.trans hran.1) (hstore.trans hran.2) ?_, hsame.trans hfiles,
      hobject.trans hu⟩
    rw [hrunning, running_ranChain]
  unfold startBlockchain
  rw [ends_bind, ends_get]
  dsimp only
  refine ends_bind_ok (serves_newBlockStore hl _) fun _ u hu => ?_
  have huw : u.wallet = some ref := by rw [hu]; exact hw
  have hcell : u.blockStores.cell w.blockStores.next = ⟨w.places.chain, true, none⟩ := by
    rw [hu]
    exact Heap.cell_alloc_self
  cases hchain : w.files.chains (getBlockchainFile w) with
  | true =>
    have hthere : w.files.chains w.places.chain = true := hchain
    rw [if_pos rfl, pure_bind]
    refine hfinish huw (by rw [hu]; rfl) ?_
    rw [ranChain, if_pos hthere]
    have hus : u.blockStore = some w.blockStores.next := by rw [hu]; rfl
    rw [wallet_footing huw, store_footing hus, hcell, hu]
    exact ⟨rfl, rfl⟩
  | false =>
    rw [if_neg (by simp)]
    have hmissing : w.files.chains w.places.chain = false := hchain
    have hus : u.blockStore = some w.blockStores.next := by rw [hu]; rfl
    refine ends_bind_ok (serves_rebuild hl huw hus) fun _ v hv => ?_
    have hvw : v.wallet = some ref := by rw [hv]; split <;> exact huw
    have hvfiles : v.files = w.files.withChain w.places.chain := by
      rw [hv, hu]
      split <;> rfl
    refine hfinish hvw hvfiles ?_
    have hvs : v.blockStore = some w.blockStores.next := by rw [hv]; split <;> exact hus
    rw [ranChain, if_neg (by simp [hmissing]), wallet_footing hvw, store_footing hvs, hv]
    have hplaces : u.files.checkpoints u.places.checkpoints =
        w.files.checkpoints w.places.checkpoints := by rw [hu]; rfl
    rw [hplaces]
    have hkeys : (u.wallets.cell ref).keys = (w.wallets.cell ref).keys := by rw [hu]; rfl
    have hcleared : (u.emptied ref).imageOf ((u.emptied ref).wallets.cell ref) =
        (w.imageOf (w.wallets.cell ref)).cleared := by
      rw [cell_emptied, hu]
      rfl
    split
    · refine ⟨congrArg some hcleared, ?_⟩
      have hstore : (u.emptied ref).blockStores.cell w.blockStores.next =
          ⟨w.places.chain, true, none⟩ := hcell
      simp [World.checkpointed, hstore, hkeys, World.imageOf]
    · exact ⟨congrArg some hcleared, congrArg some hcell⟩

/-- A chain file that is locked is not opened. -/
theorem refused_startBlockchain {text : String} (hl : lib.Serves (some text)) :
    Ends (startBlockchain lib) w fun r v => r = .error (blockStoreException text) ∧ v = w := by
  have hrefused : lib.call .openBlockStore = throw (blockStoreException text) := by
    unfold Lib.call
    rw [hl.opening]
    rfl
  unfold startBlockchain newBlockStore
  rw [ends_bind, ends_get]
  dsimp only
  rw [hrefused]
  exact ⟨rfl, rfl⟩

/-! ### The calls -/

/-- Cleaning up changes the wallet in use and nothing else that a caller can see. -/
theorem footing_cleaned (hw : w.wallet = some ref) : (w.cleaned lib ref).footing =
    { w.footing with wallet := w.footing.wallet.map (WalletImage.cleaned lib) } := by
  have hcell : (w.cleaned lib ref).wallets.cell ref = (w.wallets.cell ref).retaining fun tx =>
      !(w.confidence tx = .pending && lib.risky tx.hash) := Heap.cell_write_self
  have himage : (w.cleaned lib ref).imageOf ((w.cleaned lib ref).wallets.cell ref) =
      (w.imageOf (w.wallets.cell ref)).cleaned lib := by
    rw [hcell]
    unfold World.imageOf WalletImage.cleaned
    congr 1
    rw [List.filter_map]
    rfl
  have hkept : (w.cleaned lib ref).wallet = some ref := hw
  refine Footing.ext ?_ rfl rfl
  rw [wallet_footing hkept, himage, wallet_footing hw]
  rfl

theorem serves_cleanup (hl : lib.Serves lock) (hw : w.wallet = some ref) :
    Ends (cleanup lib ref) w fun r v => r = .ok () ∧ v.files = w.files ∧
      v.footing = { w.footing with wallet := w.footing.wallet.map (WalletImage.cleaned lib) } := by
  unfold cleanup
  simp (disch := decide) only [hl.call, pure_bind]
  exact ⟨rfl, rfl, footing_cleaned hw⟩

/-- What taking a wallet into use comes to: a wallet without keys has no address to log. -/
def usedWallet (lib : Lib) (lock : Option String) (files : Files) (places : Places)
    (image : WalletImage) : Except Throwable Footing × Files :=
  if image.keys = [] then (.error indexOutOfBoundsException, files)
  else match lock with
    | some text => (.error (blockStoreException text), files)
    | none => (.ok (ranChain lib files places (image.cleaned lib)), files.withChain places.chain)

/-- The wallet's address needs a key. -/
theorem ends_getWalletAddress (hw : w.wallet = some ref) :
    Ends (getWalletAddress lib) w fun r v => v = w ∧
      if (w.wallets.cell ref).keys = [] then r = .error indexOutOfBoundsException else ∃ a, r = .ok a := by
  unfold getWalletAddress
  rw [ends_bind, ends_theWallet hw]
  dsimp only
  unfold Wallet.firstKey
  cases (w.wallets.cell ref).keys with
  | nil => exact ⟨rfl, rfl⟩
  | cons key keys => exact ⟨rfl, _, rfl⟩

/-- `v` differs from `w` in nothing that using wallet `ref` goes by. -/
structure SameUse (w v : World) (ref : WalletRef) : Prop where
  wallet : v.wallet = some ref
  files : v.files = w.files
  places : v.places = w.places
  image : v.imageOf (v.wallets.cell ref) = w.imageOf (w.wallets.cell ref)

theorem SameUse.modifyWallet {f : Wallet → Wallet} (h : SameUse w v ref)
    (hf : ∀ (u : World) x, u.imageOf (f x) = u.imageOf x) :
    Ends (modifyWallet ref f) v fun r u => ∃ a, r = .ok a ∧ SameUse w u ref := by
  have hcell : (v.wallets.write ref (f (v.wallets.cell ref))).cell ref = f (v.wallets.cell ref) :=
    Heap.cell_write_self
  refine ⟨_, rfl, h.wallet, h.files, h.places, ?_⟩
  have himage := (hf v (v.wallets.cell ref)).trans h.image
  rw [← hcell] at himage
  exact himage

theorem serves_useWallet (hl : lib.Serves lock) : settled (useWallet lib ref w) =
    usedWallet lib lock w.files w.places (w.imageOf (w.wallets.cell ref)) := by
  rw [settled_iff]
  unfold useWallet
  simp (disch := decide) only [hl.call, pure_bind]
  refine ends_bind_ok (I := fun _ u => SameUse w u ref) ⟨_, rfl, rfl, rfl, rfl, rfl⟩ fun _ u hu => ?_
  rw [ends_bind, ends_get]
  dsimp only
  refine ends_bind_ok (hu.modifyWallet fun _ _ => rfl) fun _ v hv => ?_
  rw [ends_bind]
  refine ends_mono (ends_getWalletAddress hv.wallet) ?_
  rintro r t ⟨rfl, hr⟩
  have hkeys : (t.wallets.cell ref).keys = (w.imageOf (w.wallets.cell ref)).keys := by
    rw [← hv.image]
    rfl
  rw [hkeys] at hr
  unfold usedWallet
  split at hr
  · next hnil =>
    obtain rfl := hr
    rw [if_pos hnil]
    exact congrArg (Prod.mk _) hv.files
  · next hsome =>
    obtain ⟨_, rfl⟩ := hr
    rw [if_neg hsome]
    dsimp only
    refine ends_bind_ok (hv.modifyWallet fun _ _ => rfl) fun _ u hu => ?_
    rw [ends_bind]
    cases lock with
    | some text =>
      refine ends_mono (refused_startBlockchain hl) ?_
      rintro r s ⟨rfl, rfl⟩
      exact congrArg (Prod.mk _) hu.files
    | none =>
      refine ends_mono (serves_startBlockchain hl hu.wallet) ?_
      rintro r s ⟨rfl, hfooting, hfiles, hobject⟩
      rw [hu.files, hu.places] at hfiles
      rw [hu.files, hu.places, hu.image] at hfooting
      refine ends_mono (serves_cleanup hl hobject) ?_
      rintro r v ⟨rfl, hsame, hcleaned⟩
      rw [ranChain_cleaned, ← hfooting, ← hcleaned, ← hfiles, ← hsame]
      rfl

/-! ### Starting -/

/-- Saving the transactions that were loaded gives back what they were loaded from. -/
theorem saved_loadedTransactions : ∀ (next : Nat) (confidence : Transaction → ConfidenceType)
    (saved : List SavedTransaction),
    (loadedTransactions next saved).map (fun tx => SavedTransaction.mk tx.hash tx.inputs
      (loadConfidence confidence (loadedTransactions next saved) saved tx)) = saved
  | _, _, [] => rfl
  | next, confidence, s :: rest => by
    have hnotin : (⟨next, s.hash, s.inputs, none⟩ : Transaction) ∉
        loadedTransactions (next + 1) rest := by
      intro hmem
      have hle := ref_loadedTransactions (next + 1) rest _ hmem
      dsimp only at hle
      omega
    simp only [loadedTransactions, loadConfidence, List.map_cons,
      loadConfidence_not_mem _ _ _ hnotin, Function.update_self]
    rw [saved_loadedTransactions (next + 1) _ rest]

theorem imageOf_loadWallet (w : World) (image : WalletImage) :
    (w.loadWallet image).imageOf ((w.loadWallet image).wallets.cell w.wallets.next) =
      image.reread := by
  have hcell : (w.loadWallet image).wallets.cell w.wallets.next = image.toWallet w.nextTransaction :=
    Heap.cell_alloc_self
  have htransactions := saved_loadedTransactions w.nextTransaction w.confidence image.transactions
  rw [hcell]
  unfold World.imageOf WalletImage.reread
  congr

theorem serves_loadWalletFromFile (hl : lib.Serves lock) {f : File} {image : WalletImage}
    (hf : w.files.wallets f = some image) : Ends (loadWalletFromFile lib f) w fun r v =>
      ∃ ref, r = .ok ref ∧ v.files = w.files ∧ v.places = w.places ∧
        v.imageOf (v.wallets.cell ref) = image.reread := by
  unfold loadWalletFromFile
  simp (disch := decide) only [hl.call, pure_bind]
  rw [ends_catchIf, ends_bind, ends_get]
  dsimp only
  rw [hf]
  dsimp only
  rw [ends_tryFinally]
  exact ⟨_, rfl, rfl, rfl, imageOf_loadWallet w image⟩

/-- What `start` comes to. -/
def started (lib : Lib) (lock : Option String) (files : Files) (places : Places) :
    Except Throwable Footing × Files :=
  match files.wallets places.wallet with
  | none => (.error (noWalletException ("No wallet file found at: " ++ places.wallet)), files)
  | some image => usedWallet lib lock files places image.reread

/-- Taking a wallet into use finds every file it looks for. -/
theorem usedWallet_found {files files' : Files} {places : Places} {image : WalletImage} {e : Throwable}
    (h : (.error e, files') = usedWallet lib lock files places image) :
    e.instanceOf fileNotFoundExceptionClass = false := by
  unfold usedWallet at h
  split at h
  · cases h
    rfl
  · split at h
    · cases h
      rfl
    · cases h

theorem serves_start (hl : lib.Serves lock) :
    settled (start lib w) = started lib lock w.files w.places := by
  rw [settled_iff]
  unfold start setTestingNetwork
  rw [ends_bind, ends_get]
  dsimp only
  refine ends_bind_ok (I := fun _ u => u.files = w.files ∧ u.places = w.places) ?_ fun _ u hu => ?_
  · rw [ends_ite]
    split
    · exact ⟨_, rfl, rfl, rfl⟩
    · exact ⟨_, rfl, rfl, rfl⟩
  rw [ends_bind, ends_modify]
  dsimp only
  rw [ends_ite]
  unfold started
  have hplace : w.places.wallet = w.dataFile "/bitcoinkit.wallet" := rfl
  cases hf : w.files.wallets w.places.wallet with
  | none =>
    rw [hplace] at hf
    rw [if_pos (by simp [hf])]
    exact congrArg (Prod.mk _) hu.1
  | some image =>
    rw [hplace] at hf
    rw [if_neg (by simp [hf]), ends_catchIf]
    have hload : u.files.wallets (w.dataFile "/bitcoinkit.wallet") = some image := by rw [hu.1, hf]
    refine ends_bind_ok (serves_loadWalletFromFile hl hload) fun ref v ⟨hfiles, hplaces, himage⟩ => ?_
    have hused := settled_iff.mp (@serves_useWallet v lib lock ref hl)
    rw [hfiles, hplaces, himage] at hused
    have hsame : u.places = w.places := hu.2
    refine ends_mono hused fun r t ht => ?_
    cases r with
    | ok _ => exact ht.trans (by rw [hu.1]; exact hsame ▸ rfl)
    | error e =>
      dsimp only
      rw [if_neg (by rw [usedWallet_found ht]; simp)]
      exact ht.trans (by rw [hu.1]; exact hsame ▸ rfl)

/-! ### Creating -/

/-- The wallet as `wallet.encrypt` leaves it. -/
def Wallet.encrypted (wallet : Wallet) (lib : Lib) (chars : Chars) : Except Throwable Wallet := do
  let bytes ← lib.deriveKey lib.newKeyCrypter chars
  let keys ← lib.encryptKeys wallet lib.newKeyCrypter bytes
  pure { wallet with keys := keys, keyCrypter := some lib.newKeyCrypter }

def Wallet.timed (wallet : Wallet) (lib : Lib) : Except Throwable Wallet :=
  match wallet.keys with
  | [] => .error indexOutOfBoundsException
  | _ :: _ => .ok (wallet.withCreationTime lib.newKey.creationTimeSeconds)

/-- A wallet with its one key. -/
def Wallet.fresh (lib : Lib) : Wallet :=
  { Wallet.empty with keys := [lib.newKey], lastWalletChangeDate := some lib.currentTimeMillis }

/-- The wallet that `createWallet` makes. -/
def madeWallet (lib : Lib) : Option Chars → Except Throwable Wallet
  | none => .ok (Wallet.fresh lib)
  | some chars => (Wallet.fresh lib).encrypted lib chars >>= fun wallet => wallet.timed lib

/-- What saving a wallet without transactions writes. -/
def Wallet.bareImage (wallet : Wallet) : WalletImage :=
  ⟨wallet.keys, wallet.keyCrypter, wallet.lastWalletChange.serializeWalletExtension.toOption, [],
    distinct_nil⟩

theorem imageOf_bare {wallet : Wallet} (h : wallet.transactions = []) :
    w.imageOf wallet = wallet.bareImage := by
  unfold World.imageOf Wallet.bareImage
  congr
  rw [h]
  rfl

theorem encrypted_transactions {wallet made : Wallet} {chars : Chars}
    (h : wallet.encrypted lib chars = .ok made) : made.transactions = wallet.transactions := by
  unfold Wallet.encrypted at h
  cases hb : lib.deriveKey lib.newKeyCrypter chars with
  | error e => rw [hb] at h; cases h
  | ok bytes =>
    rw [hb] at h
    cases hk : lib.encryptKeys wallet lib.newKeyCrypter bytes with
    | error e => simp [hk, bind, Except.bind] at h
    | ok keys =>
      simp only [hk, bind, Except.bind, pure, Except.pure, Except.ok.injEq] at h
      rw [← h]

theorem timed_transactions {wallet made : Wallet} (h : wallet.timed lib = .ok made) :
    made.transactions = wallet.transactions := by
  unfold Wallet.timed at h
  split at h
  · cases h
  · cases h
    rfl

theorem made_transactions {password : Option Chars} {wallet : Wallet}
    (h : madeWallet lib password = .ok wallet) : wallet.transactions = [] := by
  cases password with
  | none =>
    cases h
    rfl
  | some chars =>
    unfold madeWallet at h
    dsimp only at h
    cases he : (Wallet.fresh lib).encrypted lib chars with
    | error e => rw [he] at h; cases h
    | ok encrypted =>
      rw [he] at h
      exact (timed_transactions h).trans (encrypted_transactions he)

/-- What making a wallet, or changing one, leaves as it is. -/
structure Surrounded (w v : World) : Prop where
  files : v.files = w.files
  places : v.places = w.places

theorem ends_encrypted (ref : WalletRef) (array : CharArrayRef) :
    Ends (encryptWallet lib (some array) ref) w fun r v => Surrounded w v ∧
      (r.map fun _ => v.wallets.cell ref) =
        (w.wallets.cell ref).encrypted lib (w.arrays.cell array) := by
  unfold encryptWallet Wallet.encrypted
  rw [ends_bind]
  refine ends_mono (ends_deriveFresh array lib.newKeyCrypter) fun r u hu => ?_
  cases r with
  | error e =>
    obtain ⟨hd, rfl⟩ := hu
    rw [hd]
    exact ⟨⟨rfl, rfl⟩, rfl⟩
  | ok key =>
    obtain ⟨bytes, hd, hkey, hu⟩ := hu
    have hcell : (u.wallets.cell ref) = w.wallets.cell ref := by rw [hu]
    have hbytes : u.secrets.aesKeys.cell key = bytes := by
      rw [hu, hkey]
      exact Heap.cell_alloc_self
    have hsame : Surrounded w u := by rw [hu]; exact ⟨rfl, rfl⟩
    rw [hd]
    dsimp only
    unfold Lib.encrypt wipeAesKey fillAesKey modifyWallet
    simp only [ends_tryFinally, ends_bind, ends_get, ends_result, ends_modify]
    rw [hcell, hbytes]
    cases hk : lib.encryptKeys (w.wallets.cell ref) lib.newKeyCrypter bytes with
    | error e => exact ⟨⟨hsame.files, hsame.places⟩, by simp [bind, Except.bind, Except.map, hk]⟩
    | ok keys =>
      refine ⟨⟨hsame.files, hsame.places⟩, ?_⟩
      simp [bind, Except.bind, Except.map, pure, Except.pure, hk, hcell]

theorem Surrounded.trans {u : World} (h : Surrounded w u) (h' : Surrounded u v) : Surrounded w v :=
  ⟨h'.files.trans h.files, h'.places.trans h.places⟩

theorem cell_modifyWallet (f : Wallet → Wallet) :
    (after (modifyWallet ref f w)).wallets.cell ref = f (w.wallets.cell ref) := Heap.cell_write_self

/-- Protecting a new wallet, if there is a password. -/
theorem ends_madeWallet {password : Option CharArrayRef} (hfresh : w.wallets.cell ref = .fresh lib) :
    Ends (if password.isSome then do
      encryptWallet lib password ref
      let w ← get
      let _ ← (w.wallets.cell ref).firstKey
      modifyWallet ref fun wallet => wallet.withCreationTime lib.newKey.creationTimeSeconds
    else pure ()) w fun r v => Surrounded w v ∧
      (r.map fun _ => v.wallets.cell ref) = madeWallet lib (password.map w.arrays.cell) := by
  cases password with
  | none => exact ⟨⟨rfl, rfl⟩, congrArg Except.ok hfresh⟩
  | some array =>
    rw [if_pos (by rfl), ends_bind]
    refine ends_mono (ends_encrypted ref array) fun r u ⟨hu, hr⟩ => ?_
    rw [hfresh] at hr
    unfold madeWallet
    dsimp only [Option.map_some]
    rw [← hr]
    cases r with
    | error e => exact ⟨hu, rfl⟩
    | ok a =>
      dsimp only
      rw [ends_bind, ends_get]
      dsimp only
      have htimed : ((Except.ok a).map fun _ => u.wallets.cell ref) >>=
          (fun wallet => wallet.timed lib) = (u.wallets.cell ref).timed lib := rfl
      rw [htimed]
      unfold Wallet.firstKey Wallet.timed
      cases hk : (u.wallets.cell ref).keys with
      | nil => exact ⟨hu, rfl⟩
      | cons key keys =>
        refine ⟨⟨hu.files, hu.places⟩, ?_⟩
        exact congrArg Except.ok Heap.cell_write_self

/-- The files once a new wallet is saved, before its chain is run. -/
def Files.withWallet (files : Files) (f chain : File) (wallet : Wallet) : Files :=
  { files with
    wallets := Function.update files.wallets f (some wallet.bareImage)
    chains := Function.update files.chains chain false }

/-- What `createWallet` comes to. -/
def created (lib : Lib) (lock : Option String) (walletFile : Option File) (files : Files) (places : Places)
    (password : Option Chars) : Except Throwable Footing × Files :=
  match walletFile with
  | none => (.error (illegalStateException "createWallet cannot be called before start"), files)
  | some f =>
    if (files.wallets f).isSome then
      (.error (existingWalletException ("Trying to create a wallet even though one exists: " ++ f)),
        files)
    else match madeWallet lib password with
      | .error e => (.error e, files)
      | .ok wallet =>
        usedWallet lib lock (files.withWallet f places.chain wallet) places wallet.bareImage

theorem serves_createWallet (hl : lib.Serves lock) (password : Option CharArrayRef) :
    settled (createWallet lib password w) =
      created lib lock w.walletFile w.files w.places (password.map w.arrays.cell) := by
  rw [settled_iff]
  unfold createWallet created
  rw [ends_bind, ends_get]
  dsimp only
  cases hf : w.walletFile with
  | none => rfl
  | some f =>
    dsimp only
    rw [ends_ite]
    split
    · rfl
    refine ends_bind_ok (I := fun ref v => Surrounded w v ∧ v.arrays = w.arrays ∧
      v.wallets.cell ref = .empty) ⟨_, rfl, ⟨rfl, rfl⟩, rfl, Heap.cell_alloc_self⟩
      fun ref v hmade => ?_
    obtain ⟨hv, harrays, hcell⟩ := hmade
    refine ends_bind_ok (I := fun _ u => Surrounded w u ∧ u.arrays = w.arrays ∧
      u.wallets.cell ref = { Wallet.empty with lastWalletChangeDate := some lib.currentTimeMillis })
      ⟨_, rfl, ⟨hv.files, hv.places⟩, harrays, (cell_modifyWallet _).trans (by rw [hcell])⟩
      fun _ v hmade => ?_
    obtain ⟨hv, harrays, hcell⟩ := hmade
    refine ends_bind_ok (I := fun _ u => Surrounded w u ∧ u.arrays = w.arrays ∧
      u.wallets.cell ref = .fresh lib)
      ⟨_, rfl, ⟨hv.files, hv.places⟩, harrays, (cell_modifyWallet _).trans (by rw [hcell]; rfl)⟩
      fun _ v hmade => ?_
    obtain ⟨hv, harrays, hcell⟩ := hmade
    rw [ends_bind]
    refine ends_mono (ends_madeWallet hcell) fun r u hu => ?_
    obtain ⟨hu, hmade⟩ := hu
    rw [harrays] at hmade
    have hsame := hv.trans hu
    rw [← hmade]
    cases r with
    | error e => exact congrArg (Prod.mk _) hsame.files
    | ok _ =>
      have hbare : (u.wallets.cell ref).transactions = [] := made_transactions hmade.symm
      dsimp only [Except.map]
      refine ends_bind_ok (I := fun _ t => t = u.savedTo ref f) ?_ fun _ t ht => ?_
      · unfold saveToFile
        simp (disch := decide) only [hl.call, pure_bind]
        exact ⟨_, rfl, rfl⟩
      refine ends_bind_ok (I := fun _ s => s.places = w.places ∧ s.wallets = u.wallets ∧
        s.files = w.files.withWallet f w.places.chain (u.wallets.cell ref)) ?_ fun _ s hs => ?_
      · unfold deleteBlockchainDataFile
        rw [ends_modify, if_pos hl.deletes, ht]
        refine ⟨_, rfl, hsame.places, rfl, ?_⟩
        have hchain : getBlockchainFile (u.savedTo ref f) = w.places.chain :=
          congrArg Places.chain hsame.places
        have himage : u.imageOf (u.wallets.cell ref) = (u.wallets.cell ref).bareImage :=
          imageOf_bare hbare
        rw [hchain]
        simp only [World.savedTo, Files.withWallet, himage, hsame.files]
      have hused := settled_iff.mp (@serves_useWallet s lib lock ref hl)
      rw [hs.1, hs.2.1, hs.2.2, imageOf_bare hbare] at hused
      exact hused

/-! ### Resetting -/

/-- Shutting down leaves the wallet and the files. -/
def attached : Along World := keeping fun w => (w.files, w.places, w.wallet, w.wallets, w.confidence)

theorem attached_network : IgnoresNetwork attached where
  groups _ _ _ := rfl
  balance _ := rfl
  stores _ _ _ := rfl

/-- The block store, if there is one, is closed. -/
theorem serves_closeBlockStore (hl : lib.Serves lock) : Ends (do
    let w ← get
    match w.blockStore with
    | some store =>
      lib.call .closeBlockStore
      modifyBlockStore store fun s => { s with isOpen := false }
      modify fun w => { w with blockStore := none }
    | none => pure ()) w fun r _ => r = .ok () := by
  simp (disch := decide) only [hl.call, pure_bind]
  rw [ends_bind, ends_get]
  dsimp only
  cases w.blockStore with
  | some store => rfl
  | none => rfl

/-- Shutting down needs a wallet to take off a peer group. -/
theorem serves_shutdownBlockchain (hl : lib.Serves lock) :
    Ends (shutdownBlockchain lib) w fun r v => attached.rel w v ∧
      r = if w.wallet.isNone && w.peerGroup.isSome then .error nullPointerException else .ok () := by
  refine ends_and (ends_of_moves (moves_shutdownBlockchain attached_network lib)) ?_
  unfold shutdownBlockchain
  rw [ends_bind, ends_get]
  dsimp only
  rw [ends_bind]
  cases hg : w.peerGroup with
  | none =>
    rw [if_neg (by simp), ends_pure, if_neg (by simp)]
    exact serves_closeBlockStore hl
  | some group =>
    rw [if_pos (by rfl)]
    refine ends_bind_ok (serves_onPeerGroup hl hg (by decide) _) fun _ u hu => ?_
    cases hw : w.wallet with
    | none =>
      have huw : u.wallet = none := by rw [hu]; exact hw
      unfold theWallet
      simp only [ends_bind, ends_get, ends_deref, huw]
      rfl
    | some ref =>
      have huw : u.wallet = some ref := by rw [hu]; exact hw
      have hug : u.peerGroup = some group := by rw [hu]; exact hg
      rw [ends_bind, ends_theWallet huw]
      dsimp only
      refine ends_bind_ok (serves_onPeerGroup hl hug (by decide) _) fun _ v hv => ?_
      rw [ends_modify]
      exact serves_closeBlockStore hl

/-- A chain whose file is missing is not run without a wallet. -/
theorem missing_startBlockchain (hl : lib.Serves none) (hw : w.wallet = none)
    (hc : w.files.chains w.places.chain = false) : Ends (startBlockchain lib) w fun r v =>
      r = .error nullPointerException ∧ v.files = w.files.withChain w.places.chain := by
  unfold startBlockchain
  rw [ends_bind, ends_get]
  dsimp only
  refine ends_bind_ok (serves_newBlockStore hl _) fun _ u hu => ?_
  have hchain : w.files.chains (getBlockchainFile w) = false := hc
  have huw : u.wallet = none := by rw [hu]; exact hw
  rw [hchain, if_neg (by simp)]
  unfold clearTransactions theWallet
  simp only [ends_bind, ends_get, ends_deref, huw]
  refine ⟨trivial, ?_⟩
  rw [hu]
  rfl

/-- What `resetBlockchain` comes to. A manager with a peer group and no wallet cannot shut it down; one
    with neither fails once there is a new chain file. -/
def rerun (lib : Lib) (lock : Option String) (files : Files) (places : Places)
    (wallet : Option WalletImage) (hasGroup : Bool) : Except Throwable Footing × Files :=
  let emptied := files.withoutChain places.chain
  if wallet.isNone && hasGroup then (.error (runtimeException nullPointerException), files)
  else match lock, wallet with
    | some text, _ => (.error (runtimeException (blockStoreException text)), emptied)
    | none, none => (.error (runtimeException nullPointerException), emptied.withChain places.chain)
    | none, some image => (.ok (ranChain lib emptied places image), emptied.withChain places.chain)

theorem serves_resetBlockchain (hl : lib.Serves lock) : settled (resetBlockchain lib w) =
    rerun lib lock w.files w.places (w.wallet.map fun ref => w.imageOf (w.wallets.cell ref))
      w.peerGroup.isSome := by
  rw [settled_iff]
  unfold resetBlockchain rerun
  rw [ends_catchIf, ends_bind]
  refine ends_mono (serves_shutdownBlockchain hl) ?_
  rintro r u ⟨hu, rfl⟩
  simp only [attached, keeping, Prod.mk.injEq] at hu
  obtain ⟨hfiles, hplaces, hwallet, hwallets, hconfidence⟩ := hu
  have hnone : (w.wallet.map fun ref => w.imageOf (w.wallets.cell ref)).isNone = w.wallet.isNone := by
    cases w.wallet <;> rfl
  rw [hnone]
  cases hstuck : w.wallet.isNone && w.peerGroup.isSome with
  | true => exact congrArg (Prod.mk _) hfiles
  | false =>
    simp only [Bool.false_eq_true, if_false]
    refine ends_bind_ok (I := fun _ v => v.files = w.files.withoutChain w.places.chain ∧
      v.places = w.places ∧ v.wallet = w.wallet ∧ v.wallets = w.wallets ∧
      v.confidence = w.confidence) ?_ fun _ v hv => ?_
    · unfold deleteBlockchainDataFile
      rw [ends_modify, if_pos hl.deletes]
      have hchain : getBlockchainFile u = w.places.chain := congrArg Places.chain hplaces
      refine ⟨_, rfl, ?_, hplaces, hwallet, hwallets, hconfidence⟩
      rw [hchain, hfiles]
      rfl
    rw [ends_bind, ends_modify]
    dsimp only
    rw [ends_bind, ends_get]
    dsimp only
    rw [ends_bind]
    refine ends_mono (ends_untrackAll (w := { v with blocksToDownload := 0 })) fun r t ht => ?_
    cases r with
    | error e => exact ht.elim
    | ok _ =>
      obtain ⟨ht, -⟩ := ht
      have htfiles : t.files = w.files.withoutChain w.places.chain := by rw [ht]; exact hv.1
      have htplaces : t.places = w.places := by rw [ht]; exact hv.2.1
      have htwallet : t.wallet = w.wallet := by rw [ht]; exact hv.2.2.1
      have htconfidence : t.confidence = w.confidence := by rw [ht]; exact hv.2.2.2.2
      have htwallets : t.wallets = w.wallets := by rw [ht]; exact hv.2.2.2.1
      have hmissing : t.files.chains t.places.chain = false := by
        rw [htfiles, htplaces]
        exact Function.update_self ..
      dsimp only
      cases lock with
      | some text =>
        refine ends_mono (refused_startBlockchain hl) ?_
        rintro r s ⟨rfl, rfl⟩
        exact congrArg (Prod.mk _) htfiles
      | none =>
        cases hw : w.wallet with
        | none =>
          refine ends_mono (missing_startBlockchain hl (htwallet.trans hw) hmissing) ?_
          rintro r s ⟨rfl, hs⟩
          rw [htfiles, htplaces] at hs
          exact congrArg (Prod.mk _) hs
        | some ref =>
          have himage : t.imageOf (t.wallets.cell ref) = w.imageOf (w.wallets.cell ref) := by
            simp only [World.imageOf, htconfidence, htwallets]
          refine ends_mono (serves_startBlockchain hl (htwallet.trans hw)) ?_
          rintro r s ⟨rfl, hfooting, hs, -⟩
          rw [htfiles, htplaces] at hs
          rw [htfiles, htplaces, himage] at hfooting
          exact congrArg₂ (fun x y => (Except.ok x, y)) hfooting hs

end BitcoinKit

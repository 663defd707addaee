import BitcoinKit.Java.Footing

/-! What starting, creating and resetting leave behind, wherever they stop. Running a chain takes nothing
    back:

        as before ──▶ chain file there ──▶ block store open, in the manager's field
                                               ──▶ and a peer group, in the manager's field -/

namespace BitcoinKit
open Schemes

/-- What a lock looks at in a block store. -/
def World.shapes (w : World) : Nat → File × Bool :=
  fun store => ((w.blockStores.cell store).file, (w.blockStores.cell store).isOpen)

/-- What the manager holds of the network layer, and the block stores there are. -/
def World.network (w : World) : (Option Nat × Nat × (Nat → File × Bool)) × Option Nat × Nat :=
  ((w.blockStore, w.blockStores.next, w.shapes), w.peerGroup, w.peerGroups.next)

/-- `w` with a block store opened on its chain file, and perhaps a peer group. -/
structure Opened (w v : World) : Prop where
  store : v.blockStore = some w.blockStores.next
  next : v.blockStores.next = w.blockStores.next + 1
  shapes : v.shapes = Function.update w.shapes w.blockStores.next (w.places.chain, true)
  group : (v.peerGroup, v.peerGroups.next) = (w.peerGroup, w.peerGroups.next) ∨
    (v.peerGroup, v.peerGroups.next) = (some w.peerGroups.next, w.peerGroups.next + 1)

/-- What an attempt to run a chain leaves, where `reached` is what it takes to get to the chain file. -/
structure Left (reached : Prop) (w v : World) : Prop where
  places : v.places = w.places
  stage : (v.files = w.files ∧ v.network = w.network) ∨
    (reached ∧ v.files = w.files.withChain w.places.chain ∧ (v.network = w.network ∨ Opened w v))

variable {w u v : World} {lib : Lib} {ref : WalletRef} {reached reached' : Prop}

theorem Left.mono (h : Left reached w v) (hr : reached → reached') : Left reached' w v where
  places := h.places
  stage := h.stage.imp_right fun ⟨hreached, hrest⟩ => ⟨hr hreached, hrest⟩

/-- The files and the network layer stay. -/
def inPlace : Along World := keeping fun w => (w.files, w.places, w.network)

theorem inPlace_iff : inPlace.rel w v ↔
    v.files = w.files ∧ v.places = w.places ∧ v.network = w.network := by
  simp [inPlace, keeping]

theorem left_inPlace (h : inPlace.rel w v) : Left reached w v := by
  obtain ⟨hfiles, hplaces, hnetwork⟩ := inPlace_iff.mp h
  exact ⟨hplaces, .inl ⟨hfiles, hnetwork⟩⟩

theorem Opened.congr (h : inPlace.rel w u) (ho : Opened u v) : Opened w v := by
  obtain ⟨-, hplaces, hnetwork⟩ := inPlace_iff.mp h
  simp only [World.network, Prod.mk.injEq] at hnetwork
  obtain ⟨⟨-, hnext, hshapes⟩, hgroup, hgroups⟩ := hnetwork
  refine ⟨ho.store.trans (by rw [hnext]), ho.next.trans (by rw [hnext]), ?_, ?_⟩
  · rw [ho.shapes, hshapes, hnext, hplaces]
  · rw [← hgroup, ← hgroups]
    exact ho.group

theorem Left.congr (h : inPlace.rel w u) (hl : Left reached u v) : Left reached w v := by
  obtain ⟨hfiles, hplaces, hnetwork⟩ := inPlace_iff.mp h
  refine ⟨hl.places.trans hplaces, ?_⟩
  rcases hl.stage with ⟨hf, hn⟩ | ⟨hr, hf, hn⟩
  · exact .inl ⟨hf.trans hfiles, hn.trans hnetwork⟩
  · refine .inr ⟨hr, by rw [hf, hfiles, hplaces], ?_⟩
    exact hn.imp (fun hn => hn.trans hnetwork) fun ho => ho.congr h

theorem Left.keeping (hl : Left reached w u) (h : inPlace.rel u v) : Left reached w v := by
  obtain ⟨hfiles, hplaces, hnetwork⟩ := inPlace_iff.mp h
  refine ⟨hplaces.trans hl.places, ?_⟩
  rcases hl.stage with ⟨hf, hn⟩ | ⟨hr, hf, hn | ho⟩
  · exact .inl ⟨hfiles.trans hf, hnetwork.trans hn⟩
  · exact .inr ⟨hr, hfiles.trans hf, .inl (hnetwork.trans hn)⟩
  · simp only [World.network, Prod.mk.injEq] at hnetwork
    obtain ⟨⟨hstore, hnext, hshapes⟩, hgroup, hgroups⟩ := hnetwork
    refine .inr ⟨hr, hfiles.trans hf, .inr ⟨hstore.trans ho.store, hnext.trans ho.next,
      hshapes.trans ho.shapes, ?_⟩⟩
    rw [hgroup, hgroups]
    exact ho.group

/-! ### Running the chain -/

/-- A checkpoint changes neither the file of a block store nor whether it is open. -/
theorem inPlace_checkpoint (store t : Nat) :
    Moves inPlace (modifyBlockStore store fun s => { s with checkpoint := some t }) := by
  refine moves_modify fun w => inPlace_iff.mpr ⟨rfl, rfl, ?_⟩
  have hshapes : (w.checkpointed store t).shapes = w.shapes := by
    funext s
    unfold World.shapes World.checkpointed
    by_cases hs : s = store
    · subst hs
      simp
    · simp [Heap.cell_write_ne hs]
  exact congrArg (fun shapes => ((w.blockStore, w.blockStores.next, shapes), w.peerGroup,
    w.peerGroups.next)) hshapes

theorem inPlace_rebuild : Moves inPlace (do
    clearTransactions lib
    let (_, wallet) ← theWallet
    checkpointFor lib wallet) := by
  refine moves_bind (moves_bind moves_theWallet fun _ => moves_bind (moves_call lib _) fun _ =>
    moves_modify fun _ => rfl) fun _ => moves_bind moves_theWallet fun _ => ?_
  refine moves_bind moves_get fun w => moves_ite ?_ (moves_pure _)
  refine moves_catchIf ?_ fun _ => moves_throw _
  refine moves_bind (moves_call lib _) fun _ => moves_bind (moves_call lib _) fun _ => ?_
  exact moves_bind (moves_deref w.blockStore) fun store => inPlace_checkpoint store _

/-- What an attempt to open a block store leaves. -/
theorem ends_newBlockStore (f : File) : Ends (newBlockStore lib f) w fun
    | .ok _, v => lib.fails .openBlockStore = none ∧ v = w.opened f
    | .error _, v => v = w ∨
        (lib.fails .openBlockStore = none ∧ v = { w with files := w.files.withChain f }) := by
  unfold newBlockStore
  rw [ends_bind, ends_call]
  cases hopen : lib.fails .openBlockStore with
  | some e => exact .inl rfl
  | none =>
    dsimp only
    rw [ends_bind, ends_modify]
    dsimp only
    rw [ends_bind, ends_call]
    cases lib.fails .initBlockStore with
    | some e => exact .inr ⟨rfl, rfl⟩
    | none => exact ⟨rfl, rfl⟩

/-- All of what stays in place, but the peer group. -/
def besidePeers : Along World := keeping fun w => (w.files, w.places, w.network.1)

/-- Where the peer groups stand. -/
def grouped : Along World := keeping fun w => (w.peerGroup, w.peerGroups.next)

theorem grouped_onPeerGroup (site : Site) (f : PeerGroup → PeerGroup) :
    Moves grouped (onPeerGroup lib site f) :=
  moves_bind moves_get fun w => moves_bind (moves_deref w.peerGroup) fun _ =>
    moves_bind (moves_call lib site) fun _ => moves_modify fun _ => rfl

/-- The second half of running a chain makes one peer group at most. -/
theorem ends_attach : Ends (do
    lib.call .newBlockChain
    newPeerGroup lib
    let (ref, _) ← theWallet
    onPeerGroup lib .addWallet fun group => { group with wallets := group.wallets ++ [ref] }
    native .onBalanceChanged
    trackPendingTransactions ref
    onPeerGroup lib .startAndWait fun group => { group with running := true }
    lib.call .startBlockChainDownload) w fun _ v => besidePeers.rel w v ∧
      ((v.peerGroup, v.peerGroups.next) = (w.peerGroup, w.peerGroups.next) ∨
        (v.peerGroup, v.peerGroups.next) = (some w.peerGroups.next, w.peerGroups.next + 1)) := by
  have hpending (ref : WalletRef) : Moves besidePeers (trackPendingTransactions ref) :=
    moves_trackPending (moves_trackTransaction ⟨⟨fun _ _ _ => rfl, fun _ _ _ => rfl⟩,
      fun _ _ _ => rfl⟩) ref
  have hfollow (ref : WalletRef) : Moves grouped (trackPendingTransactions ref) :=
    moves_trackPending (moves_trackTransaction ⟨⟨fun _ _ _ => rfl, fun _ _ _ => rfl⟩,
      fun _ _ _ => rfl⟩) ref
  have hgroups : IgnoresGroups besidePeers := ⟨fun _ _ _ => rfl, fun _ => rfl⟩
  refine ends_and (ends_of_moves (moves_attach hgroups hpending)) ?_
  refine ends_bind_of_moves (R := grouped) (moves_call lib _) (fun _ u hu => ?_) fun _ v hv => .inl hv
  have hsame : (u.peerGroup, u.peerGroups.next) = (w.peerGroup, w.peerGroups.next) := hu
  unfold newPeerGroup
  simp only [bind_assoc]
  rw [ends_bind, ends_call]
  cases lib.fails .newPeerGroup with
  | some e => exact .inl hsame
  | none =>
    dsimp only
    rw [ends_bind, ends_modify]
    dsimp only
    have hrest : Moves grouped (do
        let (ref, _) ← theWallet
        onPeerGroup lib .addWallet fun group => { group with wallets := group.wallets ++ [ref] }
        native .onBalanceChanged
        trackPendingTransactions ref
        onPeerGroup lib .startAndWait fun group => { group with running := true }
        lib.call .startBlockChainDownload) :=
      moves_bind moves_theWallet fun ⟨ref, _⟩ => moves_bind (grouped_onPeerGroup _ _) fun _ =>
        moves_bind (moves_native fun _ => rfl) fun _ => moves_bind (hfollow ref) fun _ =>
          moves_bind (grouped_onPeerGroup _ _) fun _ => moves_call lib _
    refine ends_mono (ends_of_moves hrest) fun r v hv => .inr ?_
    have hnext : u.peerGroups.next = w.peerGroups.next := (Prod.mk.inj hsame).2
    exact hv.trans (by rw [← hnext]; rfl)

theorem left_startBlockchain : Ends (startBlockchain lib) w fun _ v =>
    Left (lib.fails .openBlockStore = none) w v := by
  have hopened : (w.opened w.places.chain).shapes =
      Function.update w.shapes w.blockStores.next (w.places.chain, true) := by
    funext s
    unfold World.shapes World.opened
    by_cases hs : s = w.blockStores.next
    · subst hs
      simp
    · simp [Heap.cell_alloc_ne hs, hs]
  unfold startBlockchain
  rw [ends_bind, ends_get]
  dsimp only
  have hchain : getBlockchainFile w = w.places.chain := rfl
  rw [hchain, ends_bind]
  refine ends_mono (ends_newBlockStore w.places.chain) fun r u hu => ?_
  cases r with
  | error e =>
    rcases hu with rfl | ⟨hopen, rfl⟩
    · exact left_inPlace (inPlace.refl u)
    · exact ⟨rfl, .inr ⟨hopen, rfl, .inl rfl⟩⟩
  | ok _ =>
    obtain ⟨hopen, rfl⟩ := hu
    have hleft : Left (lib.fails .openBlockStore = none) w (w.opened w.places.chain) :=
      ⟨rfl, .inr ⟨hopen, rfl, .inr ⟨rfl, rfl, hopened, .inl rfl⟩⟩⟩
    have hrebuild : Moves inPlace (if w.files.chains w.places.chain then pure () else do
        clearTransactions lib
        let (_, wallet) ← theWallet
        checkpointFor lib wallet : Java Unit) := moves_ite (moves_pure _) inPlace_rebuild
    refine ends_bind_of_moves hrebuild (fun _ t ht => ?_) fun _ t ht => hleft.keeping ht
    refine ends_mono ends_attach fun r v ⟨hv, hgroup⟩ => ?_
    obtain ⟨hfiles, hplaces, hnetwork⟩ := inPlace_iff.mp ht
    simp only [World.network, Prod.mk.injEq] at hnetwork
    obtain ⟨⟨hstore, hnext, hshapes⟩, hpeer, hpeers⟩ := hnetwork
    simp only [besidePeers, keeping, World.network, Prod.mk.injEq] at hv
    obtain ⟨hvfiles, hvplaces, hvstore, hvnext, hvshapes⟩ := hv
    refine ⟨hvplaces.trans hplaces, .inr ⟨hopen, hvfiles.trans hfiles, .inr ⟨?_, ?_, ?_, ?_⟩⟩⟩
    · exact hvstore.trans hstore
    · exact hvnext.trans hnext
    · exact hvshapes.trans (hshapes.trans hopened)
    · rw [hpeer, hpeers] at hgroup
      exact hgroup

/-! ### Starting and creating -/

theorem inPlace_cleanup (lib : Lib) (ref : WalletRef) : Moves inPlace (cleanup lib ref) :=
  moves_bind (moves_call lib _) fun _ => moves_modify fun _ => rfl

theorem left_useWallet : Ends (useWallet lib ref) w fun _ v => Left
    (lib.fails .openBlockStore = none ∧ (w.imageOf (w.wallets.cell ref)).keys ≠ []) w v := by
  unfold useWallet
  have hkept {u : World} {f : Wallet → Wallet} (hf : ∀ x, (f x).keys = x.keys)
      (hu : inPlace.rel w u ∧ u.wallet = some ref ∧
        (u.wallets.cell ref).keys = (w.wallets.cell ref).keys) :
      Ends (modifyWallet ref f) u fun r t => ∃ a, r = .ok a ∧ inPlace.rel w t ∧
        t.wallet = some ref ∧ (t.wallets.cell ref).keys = (w.wallets.cell ref).keys := by
    refine ⟨_, rfl, hu.1, hu.2.1, ?_⟩
    rw [cell_modifyWallet, hf, hu.2.2]
  rw [ends_bind, ends_modify]
  dsimp only
  rw [ends_bind, ends_call]
  cases lib.fails .autosaveToFile with
  | some e => exact left_inPlace (inPlace.refl w)
  | none =>
    dsimp only
    rw [ends_bind, ends_get]
    dsimp only
    refine ends_bind_ok (hkept (fun _ => rfl) ⟨rfl, rfl, rfl⟩) fun _ u hu => ?_
    rw [ends_bind]
    refine ends_mono (ends_getWalletAddress hu.2.1) ?_
    rintro r t ⟨rfl, hr⟩
    rw [hu.2.2] at hr
    split at hr
    · rw [hr]
      exact left_inPlace hu.1
    · next hkeys =>
      obtain ⟨_, rfl⟩ := hr
      dsimp only
      refine ends_bind_ok (hkept (fun _ => rfl) hu) fun _ v hv => ?_
      rw [ends_bind]
      refine ends_mono left_startBlockchain fun r t ht => ?_
      have hleft := (ht.mono fun hopen => And.intro hopen hkeys).congr hv.1
      cases r with
      | error e => exact hleft
      | ok _ => exact ends_mono (ends_of_moves (inPlace_cleanup lib ref)) fun _ _ h => hleft.keeping h

/-- What a start that reaches the chain file got past. -/
def startReached (lib : Lib) (w : World) : Prop :=
  lib.fails .openBlockStore = none ∧
    ∃ image, w.files.wallets w.places.wallet = some image ∧ image.keys ≠ []

theorem ends_loadedImage {f : File} : Ends (loadWalletFromFile lib f) w fun r v => inPlace.rel w v ∧
    ∀ ref, r = .ok ref → ∃ image, w.files.wallets f = some image ∧
      v.imageOf (v.wallets.cell ref) = image.reread := by
  refine ends_and (ends_of_moves (moves_loadWalletFromFile (fun _ _ => rfl) lib f)) ?_
  refine returns_mono (returns_loadWalletFromFile lib f) ?_
  rintro ref v ⟨image, himage, rfl, rfl⟩
  exact ⟨image, himage, imageOf_loadWallet w image⟩

theorem left_start : Ends (start lib) w fun _ v => Left (startReached lib w) w v := by
  unfold start setTestingNetwork
  rw [ends_bind, ends_get]
  dsimp only
  refine ends_bind_ok (I := fun _ u => inPlace.rel w u) ?_ fun _ u hu => ?_
  · rw [ends_ite]
    split
    · exact ⟨_, rfl, rfl⟩
    · exact ⟨_, rfl, rfl⟩
  rw [ends_bind, ends_modify]
  dsimp only
  rw [ends_ite]
  split
  · exact left_inPlace hu
  · rw [ends_catchIf, ends_bind]
    refine ends_mono ends_loadedImage fun r t ⟨ht, himage⟩ => ?_
    have hplaced : inPlace.rel w t := inPlace.trans hu ht
    cases r with
    | error e =>
      dsimp only
      split
      · exact left_inPlace hplaced
      · exact left_inPlace hplaced
    | ok ref =>
      obtain ⟨image, hloaded, hreread⟩ := himage ref rfl
      rw [(inPlace_iff.mp hu).1] at hloaded
      dsimp only
      refine ends_mono left_useWallet fun r v hv => ?_
      rw [hreread] at hv
      have hleft := (hv.mono fun hr => show startReached lib w from
        ⟨hr.1, image, hloaded, hr.2⟩).congr hplaced
      cases r with
      | ok _ => exact hleft
      | error e =>
        dsimp only
        split
        · exact hleft
        · exact hleft

/-- Nothing that making a wallet goes by. -/
def unmade : Along World := keeping fun w => (w.files, w.places, w.network, w.walletFile)

theorem unmade_rekeying : IgnoresRekeying unmade := ⟨⟨fun _ _ _ => rfl⟩, fun _ _ _ _ => rfl⟩

theorem walletFile_useWallet : Moves (keeping World.walletFile) (useWallet lib ref) := by
  have htracking : IgnoresTracking (keeping World.walletFile) :=
    ⟨⟨fun _ _ _ => rfl, fun _ _ _ => rfl⟩, fun _ _ _ => rfl⟩
  have hchain : IgnoresChain (keeping World.walletFile) :=
    ⟨fun _ _ _ _ _ => rfl, fun _ _ => rfl, fun _ => rfl⟩
  have hclear : Moves (keeping World.walletFile) (clearTransactions lib) :=
    moves_bind moves_theWallet fun _ => moves_bind (moves_call lib _) fun _ => moves_modify fun _ => rfl
  refine moves_bind (moves_modify fun _ => rfl) fun _ => moves_bind (moves_call lib _) fun _ => ?_
  refine moves_bind moves_get fun _ => moves_bind (moves_modify fun _ => rfl) fun _ => ?_
  refine moves_bind (moves_getWalletAddress lib) fun _ => moves_bind (moves_modify fun _ => rfl) fun _ => ?_
  refine moves_bind ?_ fun _ => moves_bind (moves_call lib _) fun _ => moves_modify fun _ => rfl
  exact moves_runChain hchain hclear (moves_trackPending (moves_trackTransaction htracking))

/-- `createWallet` stops before it saves the wallet, or goes on from the saved one. -/
theorem left_createWallet (password : Option CharArrayRef) :
    Ends (createWallet lib password) w fun _ v => unmade.rel w v ∨
      ∃ f u, w.walletFile = some f ∧ w.files.wallets f = none ∧ (u.files.wallets f).isSome ∧
        u.places = w.places ∧ u.network = w.network ∧ v.walletFile = some f ∧
        Left (lib.fails .openBlockStore = none) u v := by
  unfold createWallet
  rw [ends_bind, ends_get]
  dsimp only
  cases hf : w.walletFile with
  | none => exact .inl rfl
  | some f =>
    dsimp only
    rw [ends_ite]
    split
    · exact .inl rfl
    next hsome =>
    have hnone : w.files.wallets f = none := by simpa using hsome
    refine ends_bind_ok (I := fun _ v => unmade.rel w v) ⟨_, rfl, rfl⟩ fun ref v hv => ?_
    refine ends_bind_ok (I := fun _ v => unmade.rel w v) ⟨_, rfl, hv⟩ fun _ v hv => ?_
    refine ends_bind_ok (I := fun _ v => unmade.rel w v) ⟨_, rfl, hv⟩ fun _ v hv => ?_
    have hprotect : Moves unmade (if password.isSome then do
        encryptWallet lib password ref
        let w ← get
        let _ ← (w.wallets.cell ref).firstKey
        modifyWallet ref fun wallet => wallet.withCreationTime lib.newKey.creationTimeSeconds
      else pure () : Java Unit) := by
      refine moves_ite ?_ (moves_pure _)
      refine moves_bind (moves_encryptWallet unmade_rekeying (fun _ _ => rfl) lib password ref) fun _ => ?_
      exact moves_bind moves_get fun _ => moves_bind (moves_firstKey _) fun _ => moves_modify fun _ => rfl
    refine ends_bind_of_moves hprotect (fun _ u hu => ?_) fun _ u hu => .inl (unmade.trans hv hu)
    have hw := unmade.trans hv hu
    rw [ends_bind]
    refine ends_mono (ends_saveToFile f) fun r t ht => ?_
    cases r with
    | error e =>
      obtain ⟨rfl, -⟩ := ht
      exact .inl hw
    | ok _ =>
      obtain rfl : t = u.savedTo ref f := ht
      simp only [unmade, keeping, Prod.mk.injEq] at hw
      obtain ⟨-, hplaces, hnetwork, hfile⟩ := hw
      refine ends_bind_ok ends_deleteBlockchainDataFile fun _ t ht => ?_
      have hfield : t.walletFile = some f := by rw [ht]; exact hfile.trans hf
      refine ends_mono (ends_and (ends_of_moves walletFile_useWallet) left_useWallet) fun r v hv => ?_
      refine .inr ⟨f, t, rfl, hnone, ?_, ?_, ?_, hv.1.trans hfield, hv.2.mono And.left⟩
      · rw [ht]
        simp [World.savedTo]
      · rw [ht]
        exact hplaces
      · rw [ht]
        exact hnetwork

/-! ### Resetting -/

/-- A block store other than `spared` holds the lock on a chain file. -/
def World.locked (w : World) (spared : Option Nat) (f : File) : Bool :=
  (List.range w.blockStores.next).any fun store => spared ≠ some store ∧ w.shapes store = (f, true)

theorem locked_iff {spared : Option Nat} {f : File} : w.locked spared f ↔
    ∃ store < w.blockStores.next, spared ≠ some store ∧ w.shapes store = (f, true) := by
  simp [World.locked]

theorem locked_congr {spared : Option Nat} {f : File} (hnext : v.blockStores.next = w.blockStores.next)
    (hshapes : v.shapes = w.shapes) : v.locked spared f = w.locked spared f := by
  simp only [World.locked, hnext, hshapes]

/-- Closing a block store takes its lock away, and no other. -/
theorem locked_closed {store : Nat} {f : File} (hnext : v.blockStores.next = w.blockStores.next)
    (hshapes : v.shapes = Function.update w.shapes store ((w.shapes store).1, false)) :
    v.locked none f = w.locked (some store) f := by
  rw [Bool.eq_iff_iff, locked_iff, locked_iff]
  refine exists_congr fun s => ?_
  rw [hnext, hshapes]
  by_cases hs : s = store
  · subst hs
    simp
  · simp [hs, Ne.symm hs]

/-- The first half of a shutdown: the peer group. -/
theorem ends_detach : Ends (if w.peerGroup.isSome then do
      onPeerGroup lib .stopAndWait fun group => { group with running := false }
      let (ref, _) ← theWallet
      onPeerGroup lib .removeWallet fun group => { group with wallets := group.wallets.erase ref }
      modify fun w => { w with peerGroup := none }
    else pure () : Java Unit) w fun r v =>
      (v.blockStore = w.blockStore ∧ v.blockStores = w.blockStores ∧
        v.peerGroups.next = w.peerGroups.next) ∧
      (v.peerGroup = w.peerGroup ∨ v.peerGroup = none ∧ w.wallet.isSome) ∧
      (r = .ok () → v.peerGroup = none ∧ (w.peerGroup.isSome → w.wallet.isSome)) := by
  have hheld (site : Site) (f : PeerGroup → PeerGroup) : Moves (keeping fun w => (w.blockStore,
      w.blockStores, w.peerGroups.next, w.peerGroup, w.wallet)) (onPeerGroup lib site f) :=
    moves_bind moves_get fun w => moves_bind (moves_deref w.peerGroup) fun _ =>
      moves_bind (moves_call lib site) fun _ => moves_modify fun _ => rfl
  rw [ends_ite]
  split
  · refine ends_bind_of_moves (hheld _ _) (fun _ u hu => ?_) fun _ u hu => ?_
    · simp only [keeping, Prod.mk.injEq] at hu
      obtain ⟨hs, hss, hgs, hg, hw⟩ := hu
      cases hwallet : u.wallet with
      | none =>
        unfold theWallet
        simp only [ends_bind, ends_get, ends_deref, hwallet]
        exact ⟨⟨hs, hss, hgs⟩, .inl hg, fun h => by cases h⟩
      | some ref =>
        have hsome : w.wallet.isSome := by rw [← hw, hwallet]; rfl
        rw [ends_bind, ends_theWallet hwallet]
        dsimp only
        refine ends_bind_of_moves (hheld _ _) (fun _ t ht => ?_) fun _ t ht => ?_
        · simp only [keeping, Prod.mk.injEq] at ht
          obtain ⟨hts, htss, htgs, -, -⟩ := ht
          exact ⟨⟨hts.trans hs, htss.trans hss, htgs.trans hgs⟩, .inr ⟨rfl, hsome⟩,
            fun _ => ⟨rfl, fun _ => hsome⟩⟩
        · simp only [keeping, Prod.mk.injEq] at ht
          obtain ⟨hts, htss, htgs, htg, -⟩ := ht
          exact ⟨⟨hts.trans hs, htss.trans hss, htgs.trans hgs⟩, .inl (htg.trans hg),
            fun h => by cases h⟩
    · simp only [keeping, Prod.mk.injEq] at hu
      obtain ⟨hs, hss, hgs, hg, -⟩ := hu
      exact ⟨⟨hs, hss, hgs⟩, .inl hg, fun h => by cases h⟩
  · next hgroup =>
    have hnone : w.peerGroup = none := by simpa using hgroup
    exact ⟨⟨rfl, rfl, rfl⟩, .inl rfl, fun _ => ⟨hnone, fun h => absurd h hgroup⟩⟩

/-- The second half: the block store. Closing it takes its lock, and no other, away. -/
theorem ends_close : Ends (do
    let w ← get
    match w.blockStore with
    | some store =>
      lib.call .closeBlockStore
      modifyBlockStore store fun s => { s with isOpen := false }
      modify fun w => { w with blockStore := none }
    | none => pure ()) w fun r v =>
      (v.peerGroup = w.peerGroup ∧ v.peerGroups = w.peerGroups ∧
        v.blockStores.next = w.blockStores.next) ∧
      (∀ f, v.locked v.blockStore f = w.locked w.blockStore f) ∧
      (r = .ok () → v.blockStore = none) := by
  rw [ends_bind, ends_get]
  dsimp only
  cases hs : w.blockStore with
  | none => exact ⟨⟨rfl, rfl, rfl⟩, fun f => congrArg (w.locked · f) hs, fun _ => hs⟩
  | some store =>
    dsimp only
    rw [ends_bind, ends_call]
    cases lib.fails .closeBlockStore with
    | some e => exact ⟨⟨rfl, rfl, rfl⟩, fun f => congrArg (w.locked · f) hs, fun h => by cases h⟩
    | none =>
      unfold modifyBlockStore
      dsimp only
      rw [ends_bind, ends_modify]
      dsimp only
      rw [ends_modify]
      refine ⟨⟨rfl, rfl, rfl⟩, fun f => locked_closed rfl ?_, fun _ => rfl⟩
      funext s
      unfold World.shapes
      by_cases h : s = store
      · subst h
        simp
      · simp [h, Heap.cell_write_ne h]

/-- What a shutdown leaves, whole or not. -/
structure Shut (w v : World) : Prop where
  stores : v.blockStores.next = w.blockStores.next
  groups : v.peerGroups.next = w.peerGroups.next
  lock : ∀ f, v.locked v.blockStore f = w.locked w.blockStore f
  group : v.peerGroup = w.peerGroup ∨ v.peerGroup = none ∧ w.wallet.isSome

theorem ends_shutdownBlockchain : Ends (shutdownBlockchain lib) w fun r v => Shut w v ∧
    (r = .ok () → v.blockStore = none ∧ v.peerGroup = none ∧
      (w.peerGroup.isSome → w.wallet.isSome)) := by
  unfold shutdownBlockchain
  rw [ends_bind, ends_get]
  dsimp only
  rw [ends_bind]
  refine ends_mono ends_detach fun r u ⟨⟨hs, hss, hgs⟩, hg, hok⟩ => ?_
  have hlock (f : File) : u.locked u.blockStore f = w.locked w.blockStore f := by
    rw [hs]
    exact locked_congr (by rw [hss]) (by unfold World.shapes; rw [hss])
  cases r with
  | error e => exact ⟨⟨by rw [hss], hgs, hlock, hg⟩, fun h => by cases h⟩
  | ok a =>
    obtain ⟨hnone, hsome⟩ := hok rfl
    refine ends_mono ends_close fun r v ⟨⟨hvg, hvgs, hvs⟩, hvlock, hvok⟩ => ?_
    refine ⟨⟨hvs.trans (by rw [hss]), by rw [hvgs, hgs], fun f => (hvlock f).trans (hlock f), ?_⟩,
      fun h => ⟨hvok h, hvg.trans hnone, hsome⟩⟩
    rw [hvg]
    exact hg

/-- `resetBlockchain` stops in its shutdown, or goes on with no block store and no peer group. -/
theorem left_resetBlockchain : Ends (resetBlockchain lib) w fun _ v =>
    (Shut w v ∧ v.files = w.files) ∨
      ∃ u, Shut w u ∧ u.blockStore = none ∧ u.peerGroup = none ∧
        (w.peerGroup.isSome → w.wallet.isSome) ∧ u.places = w.places ∧
        (u.files = w.files ∨ u.files = w.files.withoutChain w.places.chain) ∧
        Left (lib.fails .openBlockStore = none) u v := by
  unfold resetBlockchain
  rw [ends_catchIf, ends_bind]
  refine ends_mono (ends_and (ends_of_moves (moves_shutdownBlockchain attached_network lib))
    ends_shutdownBlockchain) fun r t ⟨ht, hshut, hok⟩ => ?_
  simp only [attached, keeping, Prod.mk.injEq] at ht
  obtain ⟨hfiles, hplaces, -, -, -⟩ := ht
  cases r with
  | error e =>
    dsimp only
    split
    · exact .inl ⟨hshut, hfiles⟩
    · exact .inl ⟨hshut, hfiles⟩
  | ok a =>
    obtain ⟨hstore, hgroup, hsome⟩ := hok rfl
    have hprefix : Ends (do
        deleteBlockchainDataFile lib
        modify fun w => { w with blocksToDownload := 0 }
        let w ← get
        for tx in w.trackedTransactions do
          stopTrackingTransaction tx
        startBlockchain lib) t fun _ v => ∃ u, Shut w u ∧ u.blockStore = none ∧ u.peerGroup = none ∧
          (w.peerGroup.isSome → w.wallet.isSome) ∧ u.places = w.places ∧
          (u.files = w.files ∨ u.files = w.files.withoutChain w.places.chain) ∧
          Left (lib.fails .openBlockStore = none) u v := by
      refine ends_bind_ok (I := fun _ u => u.network = t.network ∧ u.places = t.places ∧
        (u.files = w.files ∨ u.files = w.files.withoutChain w.places.chain)) ?_ fun _ u hu => ?_
      · unfold deleteBlockchainDataFile
        have hchain : getBlockchainFile t = w.places.chain := congrArg Places.chain hplaces
        rw [ends_modify, hchain]
        split
        · exact ⟨_, rfl, rfl, rfl, .inr (by rw [hfiles]; rfl)⟩
        · exact ⟨_, rfl, rfl, rfl, .inl hfiles⟩
      rw [ends_bind, ends_modify]
      dsimp only
      rw [ends_bind, ends_get]
      dsimp only
      rw [ends_bind]
      refine ends_mono (ends_untrackAll (w := { u with blocksToDownload := 0 })) fun r v hv => ?_
      cases r with
      | error e => exact hv.elim
      | ok _ =>
        obtain ⟨hv, -⟩ := hv
        have hvn : v.network = t.network := by rw [hv]; exact hu.1
        have hvp : v.places = w.places := by rw [hv]; exact hu.2.1.trans hplaces
        have hvf : v.files = w.files ∨ v.files = w.files.withoutChain w.places.chain := by
          rw [hv]
          exact hu.2.2
        simp only [World.network, Prod.mk.injEq] at hvn
        obtain ⟨⟨hvs, hvnext, hvshapes⟩, hvg, hvgs⟩ := hvn
        have hshutv : Shut w v := by
          refine ⟨hvnext.trans hshut.stores, hvgs.trans hshut.groups, fun f => ?_, ?_⟩
          · rw [hvs, locked_congr hvnext hvshapes]
            exact hshut.lock f
          · rw [hvg]
            exact hshut.group
        exact ends_mono left_startBlockchain fun _ _ hleft =>
          ⟨v, hshutv, hvs.trans hstore, hvg.trans hgroup, hsome, hvp, hvf, hleft⟩
    refine ends_mono hprefix fun r v hv => ?_
    cases r with
    | ok _ => exact .inr hv
    | error e =>
      dsimp only
      split
      · exact .inr hv
      · exact .inr hv

end BitcoinKit

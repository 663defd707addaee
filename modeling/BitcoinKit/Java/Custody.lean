import BitcoinKit.Java.Process

/-! Who holds the keys. The wallet file, the manager's wallet and every wallet object that saves itself
    hold the same keys, as far as `view` looks at a key:

        wallet file ── load ──▶ wallet object ── told to save itself, made current
             ▲                       │
             └──────── save ─────────┘

    `Custody` is that invariant, and `custody` the relation of keeping it together with the keys the file
    shows. Taking an object into use is the only delicate step: the object must hold the file's keys
    first. -/

namespace BitcoinKit
open Schemes

variable {β : Type} {view : ECKey → β} {p : File} {w v : World} {ref : WalletRef} {lib : Lib}

/-- What a wallet shows of its keys. -/
def Wallet.seen (view : ECKey → β) (wallet : Wallet) : List β := wallet.keys.map view

/-- What a wallet file shows of its keys, if it is there. -/
def World.shown (view : ECKey → β) (p : File) (w : World) : Option (List β) :=
  (w.files.wallets p).map fun image => image.keys.map view

/-- A wallet object with the keys of the wallet file. -/
structure InCustody (view : ECKey → β) (p : File) (w : World) (ref : WalletRef) : Prop where
  there : ref < w.wallets.next
  same : w.shown view p = some ((w.wallets.cell ref).seen view)

structure Custody (view : ECKey → β) (p : File) (w : World) : Prop where
  path : w.dataFile "/bitcoinkit.wallet" = p
  field : ∀ f, w.walletFile = some f → f = p
  current : ∀ ref, w.wallet = some ref → InCustody view p w ref
  saving : ∀ ref f, (w.wallets.cell ref).autosaveFile = some f → f = p ∧ InCustody view p w ref

/-- Custody is kept, and the file goes on showing the keys it shows. -/
def custody (view : ECKey → β) (p : File) : Along World where
  rel w v := Custody view p w → Custody view p v ∧ ∀ ks, w.shown view p = some ks → v.shown view p = some ks
  refl _ h := ⟨h, fun _ hk => hk⟩
  trans h₁ h₂ h := by
    obtain ⟨hv, hwv⟩ := h₁ h
    obtain ⟨hu, hvu⟩ := h₂ hv
    exact ⟨hu, fun ks hk => hvu ks (hwv ks hk)⟩

theorem InCustody.along (h : InCustody view p w ref) (hnext : w.wallets.next ≤ v.wallets.next)
    (hshown : v.shown view p = w.shown view p)
    (hseen : (v.wallets.cell ref).seen view = (w.wallets.cell ref).seen view) :
    InCustody view p v ref :=
  ⟨Nat.lt_of_lt_of_le h.there hnext, by rw [hshown, h.same, hseen]⟩

/-! ### Wallet objects come and change -/

/-- No object gets other keys or begins to save itself. -/
structure Inherits (view : ECKey → β) (before after : Heap Wallet) : Prop where
  le : before.next ≤ after.next
  autosave : ∀ r, (after.cell r).autosaveFile = (before.cell r).autosaveFile ∨
    (after.cell r).autosaveFile = none
  seen : ∀ r < before.next, (after.cell r).seen view = (before.cell r).seen view

theorem inherits_refl (wallets : Heap Wallet) : Inherits view wallets wallets :=
  ⟨Nat.le_refl _, fun _ => .inl rfl, fun _ _ => rfl⟩

theorem inherits_write {wallets : Heap Wallet} {wallet : Wallet}
    (hk : wallet.seen view = (wallets.cell ref).seen view)
    (ha : wallet.autosaveFile = (wallets.cell ref).autosaveFile) :
    Inherits view wallets (wallets.write ref wallet) := by
  refine ⟨Nat.le_refl _, fun r => .inl ?_, fun r _ => ?_⟩
  · by_cases hr : r = ref
    · subst hr
      rw [Heap.cell_write_self, ha]
    · rw [Heap.cell_write_ne hr]
  · by_cases hr : r = ref
    · subst hr
      rw [Heap.cell_write_self, hk]
    · rw [Heap.cell_write_ne hr]

theorem inherits_alloc {wallets : Heap Wallet} {wallet : Wallet} (ha : wallet.autosaveFile = none) :
    Inherits view wallets (wallets.alloc wallet) := by
  refine ⟨Nat.le_succ _, fun r => ?_, fun r hr => ?_⟩
  · by_cases hr : r = wallets.next
    · subst hr
      rw [Heap.cell_alloc_self]
      exact .inr ha
    · rw [Heap.cell_alloc_ne hr]
      exact .inl rfl
  · rw [Heap.cell_alloc_ne (Nat.ne_of_lt hr)]

/-- What custody is about, besides the wallet objects. -/
def World.estate (w : World) : Option String × Option File × Option WalletRef × (File → Option WalletImage) :=
  (w.dataDirectory, w.walletFile, w.wallet, w.files.wallets)

theorem custody_of (hi : Inherits view w.wallets v.wallets) (h : v.estate = w.estate) :
    (custody view p).rel w v := by
  simp only [World.estate, Prod.mk.injEq] at h
  obtain ⟨hdir, hfile, hwallet, hfiles⟩ := h
  have hshown : v.shown view p = w.shown view p := by simp only [World.shown, hfiles]
  intro hc
  have hin {r : WalletRef} (hr : InCustody view p w r) : InCustody view p v r :=
    hr.along hi.le hshown (hi.seen r hr.there)
  refine ⟨⟨?_, fun f hf => ?_, fun r hr => ?_, fun r f hf => ?_⟩, fun ks hks => ?_⟩
  · rw [← hc.path, World.dataFile, World.dataFile, hdir]
  · exact hc.field f (hfile ▸ hf)
  · exact hin (hc.current r (hwallet ▸ hr))
  · rcases hi.autosave r with hsame | hnone
    · obtain ⟨hp, hr⟩ := hc.saving r f (hsame ▸ hf)
      exact ⟨hp, hin hr⟩
    · rw [hnone] at hf
      cases hf
  · rw [hshown, hks]

theorem custody_same (hws : v.wallets = w.wallets) (h : v.estate = w.estate) :
    (custody view p).rel w v := custody_of (hws ▸ inherits_refl _) h

theorem custody_write {wallet : Wallet} (hk : wallet.seen view = (w.wallets.cell ref).seen view)
    (ha : wallet.autosaveFile = (w.wallets.cell ref).autosaveFile) :
    (custody view p).rel w { w with wallets := w.wallets.write ref wallet } :=
  custody_of (inherits_write hk ha) rfl

theorem custody_loadWallet (w : World) (image : WalletImage) :
    (custody view p).rel w (w.loadWallet image) := custody_of (inherits_alloc rfl) rfl

theorem custody_chain : IgnoresChain (custody view p) :=
  ⟨fun _ _ _ _ _ => custody_same rfl rfl, fun _ _ => custody_same rfl rfl,
    fun _ => custody_same rfl rfl⟩

theorem custody_tracking : IgnoresTracking (custody view p) where
  listening _ _ _ := custody_same rfl rfl
  confidence _ _ _ := custody_same rfl rfl
  news _ _ _ := custody_same rfl rfl

theorem custody_traffic : IgnoresTraffic (custody view p) where
  keys _ _ _ := custody_same rfl rfl
  built _ _ := custody_same rfl rfl
  waiting _ _ := custody_same rfl rfl
  stored _ _ _ := custody_write rfl rfl
  committed _ _ _ _ := custody_same rfl rfl
  confidence _ _ _ := custody_same rfl rfl
  news _ _ _ := custody_same rfl rfl
  secrets _ _ := custody_same rfl rfl
  checkpointsPath _ _ := custody_same rfl rfl
  bookkeeping _ _ _ _ := custody_same rfl rfl
  received w ref hash inputs type := by
    rw [World.receive]
    split
    · exact custody_of (inherits_write rfl rfl) rfl
    · exact (custody view p).refl w

theorem custody_payments : IgnoresPayments (custody view p) where
  toIgnoresSending := custody_traffic.toIgnoresSending
  numbered _ _ := custody_same rfl rfl
  loaded _ _ _ := custody_same rfl rfl
  removed _ _ := custody_same rfl rfl
  reports _ _ _ := custody_same rfl rfl

theorem custody_startBlockchain (lib : Lib) : Moves (custody view p) (startBlockchain lib) := by
  refine moves_runChain custody_chain ?_ (moves_trackPending (moves_trackTransaction custody_tracking))
  exact moves_bind moves_theWallet fun _ => moves_bind (moves_call lib _) fun _ =>
    moves_modify fun w => custody_write rfl rfl

theorem custody_resetBlockchain (lib : Lib) : Moves (custody view p) (resetBlockchain lib) :=
  moves_rerunChain (moves_shutdownBlockchain custody_chain.toIgnoresNetwork lib)
    (moves_deleteBlockchainDataFile custody_chain lib) (fun _ => custody_same rfl rfl)
    (moves_stopTrackingTransaction custody_tracking) (custody_startBlockchain lib)

/-! ### Saving -/

def World.savedTo (w : World) (ref : WalletRef) (f : File) : World :=
  { w with files := { w.files with
      wallets := Function.update w.files.wallets f (some (w.imageOf (w.wallets.cell ref))) } }

/-- A save either happens or not. -/
theorem ends_saveToFile (f : File) : Ends (saveToFile lib ref f) w fun
    | .ok _, v => v = w.savedTo ref f
    | .error e, v => v = w ∧ lib.fails .saveToFile = some e := by
  unfold saveToFile
  rw [ends_bind, ends_call]
  cases lib.fails .saveToFile with
  | some e => exact ⟨rfl, rfl⟩
  | none => rfl

theorem shown_savedTo_self : (w.savedTo ref p).shown view p = some ((w.wallets.cell ref).seen view) := by
  simp [World.shown, World.savedTo, World.imageOf, Wallet.seen]

theorem shown_savedTo_ne {f : File} (hf : p ≠ f) : (w.savedTo ref f).shown view p = w.shown view p := by
  simp [World.shown, World.savedTo, hf]

/-- An object with the keys of the file is saved, there or elsewhere. -/
theorem custody_savedTo (h : InCustody view p w ref) (f : File) :
    (custody view p).rel w (w.savedTo ref f) := by
  intro hc
  have hshown : (w.savedTo ref f).shown view p = w.shown view p := by
    by_cases hf : p = f
    · subst hf
      rw [shown_savedTo_self, h.same]
    · exact shown_savedTo_ne hf
  have hin {r : WalletRef} (hr : InCustody view p w r) : InCustody view p (w.savedTo ref f) r :=
    hr.along (Nat.le_refl _) hshown rfl
  refine ⟨⟨hc.path, hc.field, fun r hr => hin (hc.current r hr), fun r g hg => ?_⟩, fun ks hks => ?_⟩
  · obtain ⟨hp, hr⟩ := hc.saving r g hg
    exact ⟨hp, hin hr⟩
  · rw [hshown, hks]

theorem custody_saveToFile (h : InCustody view p w ref) (f : File) :
    Ends (saveToFile lib ref f) w fun _ v => (custody view p).rel w v := by
  refine ends_mono (ends_saveToFile f) fun r v hv => ?_
  cases r with
  | ok _ =>
    have hsaved : v = w.savedTo ref f := hv
    rw [hsaved]
    exact custody_savedTo h f
  | error e =>
    obtain ⟨rfl, -⟩ := hv
    exact (custody view p).refl v

theorem custody_autosave (hc : Custody view p w) :
    Ends (autosave lib ref) w fun _ v => (custody view p).rel w v := by
  unfold autosave
  rw [ends_bind, ends_get]
  dsimp only
  cases hf : (w.wallets.cell ref).autosaveFile with
  | none => exact (custody view p).refl w
  | some f => exact custody_saveToFile (hc.saving ref f hf).2 f

theorem custody_exportWallet (hc : Custody view p w) (path : String) :
    Ends (exportWallet lib path) w fun _ v => (custody view p).rel w v := by
  unfold exportWallet
  cases hw : w.wallet with
  | none =>
    unfold theWallet
    simp only [ends_bind, ends_get, ends_deref, hw]
    exact (custody view p).refl w
  | some ref =>
    rw [ends_bind, ends_theWallet hw]
    exact custody_saveToFile (hc.current ref hw) path

/-- After its shutdown `stop` saves the current wallet to the file it came from. -/
theorem custody_saveCurrent (hc : Custody view p w) : Ends (do
    shutdownBlockchain lib
    let w ← get
    match w.wallet with
    | some ref =>
      let walletFile ← deref w.walletFile
      saveToFile lib ref walletFile
    | none => pure ()) w fun _ v => (custody view p).rel w v := by
  refine ends_bind_of_moves (moves_shutdownBlockchain custody_chain.toIgnoresNetwork lib)
    (fun _ v hv => ?_) fun _ _ hv => hv
  rw [ends_bind, ends_get]
  dsimp only
  cases hw : v.wallet with
  | none => exact hv
  | some ref =>
    dsimp only
    rw [ends_bind, ends_deref]
    cases hf : v.walletFile with
    | none => exact hv
    | some walletFile =>
      have hin := (hv hc).1.current ref hw
      exact ends_mono (custody_saveToFile hin walletFile) fun _ u hu => (custody view p).trans hv hu

theorem custody_stop (hc : Custody view p w) :
    Ends (stop lib) w fun _ v => (custody view p).rel w v := by
  unfold stop
  rw [ends_catchIf]
  refine ends_mono (custody_saveCurrent hc) fun r v hv => ?_
  cases r with
  | ok _ => exact hv
  | error e =>
    dsimp only
    split
    · exact hv
    · exact hv

/-! ### Taking a wallet into use -/

/-- The manager gets another wallet, or none, and the file it is kept in. -/
theorem custody_current {current : Option WalletRef} {walletFile : Option File}
    (hw : ∀ r, current = some r → InCustody view p w r)
    (hf : walletFile = w.walletFile ∨ walletFile = some p) :
    (custody view p).rel w { w with wallet := current, walletFile := walletFile } := by
  intro hc
  have hin {r : WalletRef} (hr : InCustody view p w r) : InCustody view p
      { w with wallet := current, walletFile := walletFile } r := hr.along (Nat.le_refl _) rfl rfl
  refine ⟨⟨hc.path, fun f hwf => ?_, fun r hr => hin (hw r hr), fun r f hrf => ?_⟩, fun ks hks => hks⟩
  · rcases hf with rfl | rfl
    · exact hc.field f hwf
    · exact (Option.some.inj hwf).symm
  · obtain ⟨hp, hr⟩ := hc.saving r f hrf
    exact ⟨hp, hin hr⟩

def World.tellToSave (w : World) (ref : WalletRef) : World :=
  { w with wallets := w.wallets.write ref { w.wallets.cell ref with autosaveFile := w.walletFile } }

/-- The object is told to save itself. -/
theorem custody_tellToSave (h : InCustody view p w ref) :
    (custody view p).rel w (w.tellToSave ref) := by
  intro hc
  have hseen (r : WalletRef) :
      ((w.tellToSave ref).wallets.cell r).seen view = (w.wallets.cell r).seen view := by
    rw [World.tellToSave]
    by_cases hr : r = ref
    · subst hr
      rw [Heap.cell_write_self]
      rfl
    · rw [Heap.cell_write_ne hr]
  have hin {r : WalletRef} (hr : InCustody view p w r) : InCustody view p (w.tellToSave ref) r :=
    hr.along (Nat.le_refl _) rfl (hseen r)
  refine ⟨⟨hc.path, hc.field, fun r hr => hin (hc.current r hr), fun r f hrf => ?_⟩, fun ks hks => hks⟩
  rw [World.tellToSave] at hrf
  by_cases hr : r = ref
  · subst hr
    rw [Heap.cell_write_self] at hrf
    exact ⟨hc.field f hrf, hin h⟩
  · rw [Heap.cell_write_ne hr] at hrf
    obtain ⟨hp, hrin⟩ := hc.saving r f hrf
    exact ⟨hp, hin hrin⟩

theorem custody_useWallet (h : InCustody view p w ref) :
    Ends (useWallet lib ref) w fun _ v => (custody view p).rel w v := by
  have htaken : (custody view p).rel w { w with wallet := some ref } :=
    custody_current (fun r hr => Option.some.inj hr ▸ h) (.inl rfl)
  have hin : InCustody view p { w with wallet := some ref } ref := h.along (Nat.le_refl _) rfl rfl
  unfold useWallet
  rw [ends_bind, ends_modify]
  dsimp only
  rw [ends_bind, ends_call]
  cases lib.fails .autosaveToFile with
  | some e => exact htaken
  | none =>
    dsimp only
    rw [ends_bind, ends_get]
    dsimp only
    unfold modifyWallet
    rw [ends_bind, ends_modify]
    refine ends_along ((custody view p).trans htaken (custody_tellToSave hin)) ?_
    refine moves_bind (moves_getWalletAddress lib) fun _ => ?_
    refine moves_bind (moves_modify fun w => custody_write rfl rfl) fun _ => ?_
    refine moves_bind (custody_startBlockchain lib) fun _ => ?_
    exact moves_bind (moves_call lib _) fun _ => moves_modify fun w => custody_write rfl rfl

/-! ### Starting and creating -/

theorem inCustody_loadWallet {image : WalletImage} (hi : w.files.wallets p = some image) :
    InCustody view p (w.loadWallet image) w.wallets.next := by
  refine ⟨Nat.lt_succ_self _, ?_⟩
  have hcell : (w.loadWallet image).wallets.cell w.wallets.next = image.toWallet w.nextTransaction :=
    Heap.cell_alloc_self
  have hfile : (w.loadWallet image).files.wallets p = some image := hi
  rw [hcell, World.shown, hfile]
  rfl

/-- `start` takes the wallet of the file into use, whatever wallet there was before. -/
theorem custody_start (hc : Custody view p w) :
    Ends (start lib) w fun _ v => (custody view p).rel w v := by
  unfold start setTestingNetwork
  rw [ends_bind, ends_get]
  dsimp only
  refine ends_bind_of_moves (R := custody view p)
    (moves_ite (moves_modify fun _ => custody_same rfl rfl) (moves_pure _)) (fun _ v hv => ?_)
    fun _ _ hv => hv
  rw [hc.path, ends_bind, ends_modify]
  dsimp only
  have hopen : (custody view p).rel w { v with wallet := none, walletFile := some p } :=
    (custody view p).trans hv (custody_current (fun r hr => by cases hr) (.inr rfl))
  rw [ends_ite]
  split
  · exact hopen
  · rw [ends_catchIf, ends_bind]
    have hload := moves_loadWalletFromFile (R := custody view p) custody_loadWallet lib p
    refine ends_mono (ends_and (ends_along hopen hload) (returns_loadWalletFromFile lib p))
      fun r u ⟨hu, hret⟩ => ?_
    cases r with
    | error e =>
      dsimp only
      split
      · exact hu
      · exact hu
    | ok ref =>
      obtain ⟨image, himage, rfl, rfl⟩ := hret ref rfl
      have hin : InCustody view p _ _ := inCustody_loadWallet himage
      refine ends_mono (custody_useWallet hin) fun r t ht => ?_
      have hend := (custody view p).trans hu ht
      cases r with
      | ok _ => exact hend
      | error e =>
        dsimp only
        split
        · exact hend
        · exact hend

/-- While a wallet is being made there is no wallet file, and no object in use. -/
structure Making (p : File) (ref : WalletRef) (w : World) : Prop where
  path : w.dataFile "/bitcoinkit.wallet" = p
  field : ∀ f, w.walletFile = some f → f = p
  idle : w.wallet = none
  quiet : ∀ r, (w.wallets.cell r).autosaveFile = none
  empty : w.files.wallets p = none
  there : ref < w.wallets.next

theorem custody_of_making (h : Making p ref w) : Custody view p w where
  path := h.path
  field := h.field
  current r hr := by rw [h.idle] at hr; cases hr
  saving r f hf := by rw [h.quiet r] at hf; cases hf

/-- With custody, a missing file means that no object is in use. -/
theorem making_newWallet (hc : Custody view p w) (hempty : w.files.wallets p = none) :
    Making p w.wallets.next { w with wallets := w.wallets.alloc Wallet.empty } := by
  have hnone (r : WalletRef) : ¬ InCustody view p w r := by
    intro h
    have hsame := h.same
    rw [World.shown, hempty] at hsame
    cases hsame
  refine ⟨hc.path, hc.field, ?_, fun r => ?_, hempty, Nat.lt_succ_self _⟩
  · cases hw : w.wallet with
    | none => rfl
    | some r => exact absurd (hc.current r hw) (hnone r)
  · by_cases hr : r = w.wallets.next
    · subst hr
      exact congrArg Wallet.autosaveFile Heap.cell_alloc_self
    · refine (congrArg Wallet.autosaveFile (Heap.cell_alloc_ne hr)).trans ?_
      cases hf : (w.wallets.cell r).autosaveFile with
      | none => rfl
      | some f => exact absurd (hc.saving r f hf).2 (hnone r)

/-- Making goes on. -/
def making (p : File) (ref : WalletRef) : Along World := preserving (Making p ref)

theorem making_write {wallet : Wallet} {r : WalletRef}
    (ha : wallet.autosaveFile = (w.wallets.cell r).autosaveFile) :
    (making p ref).rel w { w with wallets := w.wallets.write r wallet } := by
  intro h
  refine ⟨h.path, h.field, h.idle, fun q => ?_, h.empty, h.there⟩
  by_cases hq : q = r
  · subst hq
    exact (congrArg Wallet.autosaveFile Heap.cell_write_self).trans (ha.trans (h.quiet q))
  · exact (congrArg Wallet.autosaveFile (Heap.cell_write_ne hq)).trans (h.quiet q)

theorem making_rekeying : IgnoresRekeying (making p ref) where
  keys _ _ _ h := ⟨h.path, h.field, h.idle, h.quiet, h.empty, h.there⟩
  rekeyed _ _ _ _ := making_write rfl

theorem making_encryptWallet (password : Option CharArrayRef) (r : WalletRef) :
    Moves (making p ref) (encryptWallet lib password r) :=
  moves_encryptWallet making_rekeying
    (fun _ _ h => ⟨h.path, h.field, h.idle, h.quiet, h.empty, h.there⟩) lib password r

/-- The file of a wallet just made is the first thing that holds its keys. -/
theorem Making.saved (h : Making p ref w) : (custody view p).rel w (w.savedTo ref p) ∧
    InCustody view p (w.savedTo ref p) ref := by
  have hin : InCustody view p (w.savedTo ref p) ref := ⟨h.there, shown_savedTo_self⟩
  refine ⟨fun _ => ⟨⟨h.path, h.field, fun r hr => ?_, fun r f hf => ?_⟩, fun ks hks => ?_⟩, hin⟩
  · have hidle : (w.savedTo ref p).wallet = none := h.idle
    rw [hidle] at hr
    cases hr
  · have hquiet : ((w.savedTo ref p).wallets.cell r).autosaveFile = none := h.quiet r
    rw [hquiet] at hf
    cases hf
  · rw [World.shown, h.empty] at hks
    cases hks

theorem ends_deleteBlockchainDataFile : Ends (deleteBlockchainDataFile lib) w fun r v =>
    ∃ a, r = .ok a ∧ v = { w with files := { w.files with chains := v.files.chains } } := by
  unfold deleteBlockchainDataFile
  rw [ends_modify]
  split
  · exact ⟨_, rfl, rfl⟩
  · exact ⟨_, rfl, rfl⟩

/-- Saving a wallet just made and taking it into use: from the save on the file shows its keys. -/
theorem ends_open (view : ECKey → β) (h : Making p ref w) : Ends (do
    saveToFile lib ref p
    deleteBlockchainDataFile lib
    useWallet lib ref) w fun _ v => v = w ∨ (custody view p).rel (w.savedTo ref p) v := by
  rw [ends_bind]
  refine ends_mono (ends_saveToFile p) fun r v hv => ?_
  cases r with
  | error e =>
    obtain ⟨rfl, -⟩ := hv
    exact .inl rfl
  | ok _ =>
    have hsaved : v = w.savedTo ref p := hv
    rw [hsaved]
    have hin : InCustody view p (w.savedTo ref p) ref := h.saved.2
    refine ends_bind_ok ends_deleteBlockchainDataFile fun _ u hu => ?_
    have hinu : InCustody view p u ref := by rw [hu]; exact hin.along (Nat.le_refl _) rfl rfl
    have hrelu : (custody view p).rel (w.savedTo ref p) u := by rw [hu]; exact custody_same rfl rfl
    exact ends_mono (custody_useWallet hinu) fun r t ht => .inr ((custody view p).trans hrelu ht)

/-- `wallet.encrypt` rebuilds the keys: one for one, each with its public key, and its creation time or
    none. -/
def Lib.Rebuilds (lib : Lib) : Prop :=
  ∀ wallet keyCrypter bytes keys, lib.encryptKeys wallet keyCrypter bytes = .ok keys →
    List.Forall₂ (fun old new => new.pubKey = old.pubKey ∧
      (new.creationTimeSeconds = old.creationTimeSeconds ∨ new.creationTimeSeconds = 0))
      wallet.keys keys

/-- A wallet that holds one key, with the time it was generated at. -/
def Minted (lib : Lib) (wallet : Wallet) : Prop :=
  lib.Rebuilds → wallet.seen ECKey.creationTimeSeconds = [lib.newKey.creationTimeSeconds]

/-- What encrypting a wallet leaves in it. -/
theorem returns_encryptWallet (password : Option CharArrayRef) :
    Returns (encryptWallet lib password ref) w fun _ v => ∃ bytes keys,
      lib.encryptKeys (w.wallets.cell ref) lib.newKeyCrypter bytes = .ok keys ∧
        (v.wallets.cell ref).keys = keys := by
  refine returns_bind_of_moves (R := keeping World.wallets)
    (moves_deriveKey (fun _ _ => rfl) lib password _) fun key u hu => ?_
  have hws : u.wallets = w.wallets := hu
  refine returns_tryFinally ?_ fun _ v hv => ?_
  · refine returns_bind (returns_get ?_)
    rw [hws]
    cases hk : lib.encryptKeys (w.wallets.cell ref) lib.newKeyCrypter (u.secrets.aesKeys.cell key) with
    | error e => exact returns_bind (returns_throw e)
    | ok keys =>
      refine returns_bind (returns_pure (returns_modify ⟨_, keys, hk, ?_⟩))
      exact congrArg Wallet.keys Heap.cell_write_self
  · obtain ⟨bytes, keys, hk, hcell⟩ := hv
    refine returns_mono (returns_of_moves (R := keeping World.wallets)
      (moves_wipeAesKey (fun _ _ _ => rfl) _)) fun _ t ht => ?_
    have htv : t.wallets = v.wallets := ht
    exact ⟨bytes, keys, hk, by rw [htv, hcell]⟩

theorem minted_withCreationTime {bytes : Bytes} {before wallet : Wallet}
    (hb : before.keys = [lib.newKey])
    (hk : lib.encryptKeys before lib.newKeyCrypter bytes = .ok wallet.keys) :
    Minted lib (wallet.withCreationTime lib.newKey.creationTimeSeconds) := by
  intro hr
  have hall := hr _ _ _ _ hk
  rw [hb] at hall
  cases hkeys : wallet.keys with
  | nil => rw [hkeys] at hall; cases hall
  | cons key keys =>
    rw [hkeys] at hall
    cases hall with
    | cons _ hnil =>
      cases hnil
      simp [Wallet.seen, Wallet.withCreationTime, hkeys]

/-- Protecting a new wallet, if there is a password. -/
theorem ends_protect {password : Option CharArrayRef} (h : Making p ref w)
    (hkeys : (w.wallets.cell ref).keys = [lib.newKey]) : Ends (if password.isSome then do
      encryptWallet lib password ref
      let w ← get
      let _ ← (w.wallets.cell ref).firstKey
      modifyWallet ref fun wallet => wallet.withCreationTime lib.newKey.creationTimeSeconds
    else pure ()) w fun r v => Making p ref v ∧ (r = .ok () → Minted lib (v.wallets.cell ref)) := by
  rw [ends_ite]
  split
  · have hret : Returns (encryptWallet lib password ref) w _ := returns_encryptWallet password
    have hmoves : Ends (encryptWallet lib password ref) w fun _ v => (making p ref).rel w v :=
      making_encryptWallet password ref w
    rw [ends_bind]
    refine ends_mono (ends_and hmoves hret) fun r v ⟨hv, hr⟩ => ?_
    cases r with
    | error e => exact ⟨hv h, fun he => by cases he⟩
    | ok a =>
      obtain ⟨bytes, keys, hk, hcell⟩ := hr a rfl
      dsimp only
      rw [ends_bind, ends_get]
      dsimp only
      rw [ends_bind]
      have hfirst : Ends (v.wallets.cell ref).firstKey v fun _ u => (keeping id).rel v u :=
        moves_firstKey (v.wallets.cell ref) v
      refine ends_mono hfirst fun r u hu => ?_
      obtain rfl : u = v := hu
      cases r with
      | error e => exact ⟨hv h, fun he => by cases he⟩
      | ok key =>
        refine ⟨making_write rfl (hv h), fun _ => ?_⟩
        have hself : ((u.wallets.write ref ((u.wallets.cell ref).withCreationTime
            lib.newKey.creationTimeSeconds)).cell ref) =
            (u.wallets.cell ref).withCreationTime lib.newKey.creationTimeSeconds :=
          Heap.cell_write_self
        exact hself ▸ minted_withCreationTime hkeys (hcell ▸ hk)
  · rw [ends_pure]
    refine ⟨h, fun _ _ => ?_⟩
    rw [Wallet.seen, hkeys]
    rfl

/-- Everything `createWallet` can come to, where it can be called at all: it fails while the wallet is
    made, or goes on to save it. -/
theorem ends_createWallet {view : ECKey → β} {password : Option CharArrayRef}
    {Q : Except Throwable Unit → World → Prop} (hc : Custody view p w) (hrefused : ∀ e, Q (.error e) w)
    (hfailed : ∀ e v, w.files.wallets p = none → Making p w.wallets.next v → Q (.error e) v)
    (hmade : ∀ v, w.files.wallets p = none → Making p w.wallets.next v →
      Minted lib (v.wallets.cell w.wallets.next) → Ends (do
        saveToFile lib w.wallets.next p
        deleteBlockchainDataFile lib
        useWallet lib w.wallets.next) v Q) : Ends (createWallet lib password) w Q := by
  unfold createWallet
  rw [ends_bind, ends_get]
  dsimp only
  cases hf : w.walletFile with
  | none => exact hrefused _
  | some walletFile =>
    obtain rfl := hc.field walletFile hf
    dsimp only
    rw [ends_ite]
    split
    · exact hrefused _
    · next hsome =>
      have hempty : w.files.wallets walletFile = none := by simpa using hsome
      refine ends_bind_ok (I := fun ref v => ref = w.wallets.next ∧ Making walletFile ref v ∧
        (v.wallets.cell ref).keys = [])
        ⟨_, rfl, rfl, making_newWallet hc hempty, congrArg Wallet.keys Heap.cell_alloc_self⟩
        fun ref v ⟨href, hv, hk⟩ => ?_
      subst href
      refine ends_bind_ok (I := fun _ v => Making walletFile w.wallets.next v ∧
        (v.wallets.cell w.wallets.next).keys = [])
        ⟨_, rfl, making_write rfl hv, (congrArg Wallet.keys Heap.cell_write_self).trans hk⟩
        fun _ v ⟨hv, hk⟩ => ?_
      refine ends_bind_ok (I := fun _ v => Making walletFile w.wallets.next v ∧
        (v.wallets.cell w.wallets.next).keys = [lib.newKey])
        ⟨_, rfl, making_write rfl hv,
          (congrArg Wallet.keys Heap.cell_write_self).trans (congrArg (· ++ [lib.newKey]) hk)⟩
        fun _ v ⟨hv, hk⟩ => ?_
      rw [ends_bind]
      refine ends_mono (ends_protect hv hk) fun r u ⟨hu, hminted⟩ => ?_
      cases r with
      | error e => exact hfailed e u hempty hu
      | ok _ => exact hmade u hempty hu (hminted rfl)

/-- `createWallet` makes a wallet only where there is none. -/
theorem custody_createWallet {password : Option CharArrayRef} (hc : Custody view p w) :
    Ends (createWallet lib password) w fun _ v => (custody view p).rel w v := by
  have hvacuous {v : World} (hempty : w.files.wallets p = none) (hv : Custody view p v) :
      (custody view p).rel w v := by
    refine fun _ => ⟨hv, fun ks hks => ?_⟩
    rw [World.shown, hempty] at hks
    cases hks
  refine ends_createWallet hc (fun _ => (custody view p).refl w)
    (fun _ v hempty hv => hvacuous hempty (custody_of_making hv)) fun v hempty hv _ => ?_
  refine ends_mono (ends_open view hv) fun r u hu => ?_
  rcases hu with rfl | hu
  · exact hvacuous hempty (custody_of_making hv)
  · exact hvacuous hempty (hu (hv.saved.1 (custody_of_making hv)).1).1

end BitcoinKit

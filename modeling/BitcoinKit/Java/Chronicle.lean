import BitcoinKit.Java.Custody
import BitcoinKit.Java.Watched

/-! When transactions were recorded. The chain file is created again and again; each creation begins an
    era, and a transaction that a wallet takes in is stamped with the era. Stamps go with a wallet into
    its file and come back out of it.

        chain file created    era + 1
        wallet saved          stamps of the object ──▶ stamps of the file, dated with the era
        wallet loaded         stamps of the file ──▶ stamps of the object
        chain running         the era, and the stamps of the attached wallet, are noted -/

namespace BitcoinKit
open Schemes

structure Chronicle where
  era : Nat
  recorded : WalletRef → Sha256Hash → Nat
  saved : File → Sha256Hash → Nat
  /-- The era a wallet file was last written in. -/
  savedIn : File → Nat
  /-- For each chain that ran: its era, and the stamps of the wallet's transactions. -/
  runs : List (Nat × List Nat)

/-- The chain file and the wallet file that are there at first belong together. -/
def Chronicle.initial : Chronicle := ⟨0, fun _ _ => 0, fun _ _ => 0, fun _ => 0, []⟩

def World.stamps (w : World) (c : Chronicle) (ref : WalletRef) : List Nat :=
  (w.wallets.cell ref).transactions.map fun tx => c.recorded ref tx.hash

def enter : Milestone → World → Chronicle → Chronicle
  | .created, _, c => { c with era := c.era + 1 }
  | .loaded ref f, _, c => { c with recorded := Function.update c.recorded ref (c.saved f) }
  | .saved ref f, _, c => { c with
      saved := Function.update c.saved f (c.recorded ref)
      savedIn := Function.update c.savedIn f c.era }
  | .running, w, c =>
    match w.wallet with
    | some ref => { c with runs := c.runs ++ [(c.era, w.stamps c ref)] }
    | none => c
  | .told, _, c => c

/-- What the wallets of `w` do not hold yet would be recorded now. -/
def Chronicle.takeIn (c : Chronicle) (w : World) : Chronicle :=
  { c with recorded := fun ref hash =>
      if ((w.wallets.cell ref).transactions.map Transaction.hash).contains hash
      then c.recorded ref hash else c.era }

abbrev Chronicled := World × Chronicle

def World.hasChain (w : World) : Bool := w.files.chains (getBlockchainFile w)

/-- All transactions of a wallet object were recorded since the chain file was created. -/
def UpToDate (s : Chronicled) (ref : WalletRef) : Prop :=
  ∀ tx ∈ (s.1.wallets.cell ref).transactions, s.2.recorded ref tx.hash = s.2.era

/-- Next to a chain file, a wallet file written since it was created holds no older transactions; and
    no chain that ran met any. -/
structure Dated (s : Chronicled) : Prop where
  written : s.1.hasChain → ∀ f image, s.1.files.wallets f = some image → s.2.savedIn f = s.2.era →
    ∀ tx ∈ image.transactions, s.2.saved f tx.hash = s.2.era
  past : ∀ f, s.2.savedIn f ≤ s.2.era
  met : ∀ r ∈ s.2.runs, ∀ stamp ∈ r.2, stamp = r.1

variable {s : Chronicled} {w v : World} {c : Chronicle} {lib : Lib} {ref : WalletRef}

theorem Dated.of_files (h : Dated (w, c)) (hv : v.files.wallets = w.files.wallets)
    (hc : v.hasChain → w.hasChain) : Dated (v, c) where
  written hchain f image hf := by
    have hw : w.files.wallets f = some image := by rw [← hv]; exact hf
    exact h.written (hc hchain) f image hw
  past := h.past
  met := h.met

theorem Dated.same (h : Dated (w, c)) (hf : v.files = w.files)
    (hd : v.dataDirectory = w.dataDirectory) : Dated (v, c) :=
  h.of_files (by rw [hf]) fun hchain => by
    simpa [World.hasChain, getBlockchainFile, World.dataFile, hf, hd] using hchain

theorem dated_takeIn (h : Dated s) : Dated (s.1, s.2.takeIn w) := ⟨h.written, h.past, h.met⟩

/-! ### What the milestones do to it -/

theorem dated_created (h : Dated (w, c)) : Dated (v, enter .created w c) where
  written _ f image hf hin := by
    have hpast : c.savedIn f ≤ c.era := h.past f
    have hnow : c.savedIn f = c.era + 1 := hin
    omega
  past f := Nat.le_succ_of_le (h.past f)
  met := h.met

theorem dated_loaded {f : File} (h : Dated (w, c)) : Dated (w, enter (.loaded ref f) w c) :=
  ⟨h.written, h.past, h.met⟩

theorem dated_saved {f : File} (h : Dated (w, c)) (hu : w.hasChain → UpToDate (w, c) ref) :
    Dated (w.savedTo ref f, enter (.saved ref f) (w.savedTo ref f) c) where
  written hchain g image hg hin tx htx := by
    by_cases hf : g = f
    · subst hf
      have himage : w.imageOf (w.wallets.cell ref) = image := by simpa [World.savedTo] using hg
      rw [← himage] at htx
      obtain ⟨old, hold, rfl⟩ := List.mem_map.mp htx
      have hstamp : c.recorded ref old.hash = c.era := hu hchain old hold
      simpa [enter] using hstamp
    · have hw : w.files.wallets g = some image := by simpa [World.savedTo, hf] using hg
      have hera : c.savedIn g = c.era := by simpa [enter, hf] using hin
      have hstamp : c.saved g tx.hash = c.era := h.written hchain g image hw hera tx htx
      simpa [enter, hf] using hstamp
  past g := by
    by_cases hf : g = f
    · subst hf
      simp [enter]
    · simpa [enter, hf] using h.past g
  met := h.met

theorem dated_running (h : Dated (w, c)) (hu : ∀ ref, w.wallet = some ref → UpToDate (w, c) ref) :
    Dated (w, enter .running w c) := by
  cases hw : w.wallet with
  | none =>
    simp only [enter, hw]
    exact h
  | some ref =>
    simp only [enter, hw]
    refine ⟨h.written, h.past, fun r hr stamp hstamp => ?_⟩
    rcases List.mem_append.mp hr with hr | hr
    · exact h.met r hr stamp hstamp
    · obtain rfl := List.mem_singleton.mp hr
      obtain ⟨tx, htx, rfl⟩ := List.mem_map.mp hstamp
      exact hu ref hw tx htx

/-! ### Between two milestones -/

/-- The files, and what transactions the wallet objects hold, stay. -/
def steady : Along World := keeping fun w =>
  (w.files, w.dataDirectory, w.wallet, fun ref => (w.wallets.cell ref).transactions)

theorem steady_iff : steady.rel w v ↔ v.files = w.files ∧ v.dataDirectory = w.dataDirectory ∧
    v.wallet = w.wallet ∧ ∀ ref, (v.wallets.cell ref).transactions = (w.wallets.cell ref).transactions := by
  simp [steady, keeping, funext_iff]

theorem steady_keys : IgnoresKeys steady where
  keys _ _ _ := rfl
  wallets w ref f hf := by
    refine steady_iff.mpr ⟨rfl, rfl, rfl, fun r => ?_⟩
    by_cases hr : r = ref
    · subst hr
      simp [hf]
    · simp [Heap.cell_write_ne hr]

theorem steady_tracking : IgnoresTracking steady where
  confidence _ _ _ := rfl
  news _ _ _ := rfl
  listening _ _ _ := rfl

theorem steady_network : IgnoresNetwork steady where
  groups _ _ _ := rfl
  balance _ := rfl
  stores _ _ _ := rfl

theorem steady_pending (ref : WalletRef) : Moves steady (trackPendingTransactions ref) :=
  moves_trackPending (moves_trackTransaction steady_tracking) ref

theorem hasChain_steady (hv : steady.rel w v) : v.hasChain = w.hasChain := by
  obtain ⟨hfiles, hdirectory, -, -⟩ := steady_iff.mp hv
  simp [World.hasChain, getBlockchainFile, World.dataFile, hfiles, hdirectory]

theorem Dated.steady (h : Dated (w, c)) (hv : steady.rel w v) : Dated (v, c) :=
  h.of_files (by rw [(steady_iff.mp hv).1]) (by rw [hasChain_steady hv]; exact id)

theorem UpToDate.steady (h : UpToDate (w, c) ref) (hv : steady.rel w v) : UpToDate (v, c) ref := by
  intro tx htx
  have hold : tx ∈ (w.wallets.cell ref).transactions := by
    rw [← (steady_iff.mp hv).2.2.2 ref]
    exact htx
  exact h tx hold

/-- Quiet code between two milestones. -/
theorem dated_quiet {α : Type} {m : Java α} (hm : Moves steady m) :
    Moves (preserving Dated) (quiet m : Watching Chronicle α) :=
  moves_quiet hm fun _ _ _ hv h => h.steady hv

/-- The files stay. -/
def filesKept : Along World := keeping fun w => (w.files, w.dataDirectory)

theorem Dated.kept (h : Dated (w, c)) (hv : filesKept.rel w v) : Dated (v, c) :=
  h.same (Prod.mk.inj hv).1 (Prod.mk.inj hv).2

theorem dated_cleanup (lib : Lib) (ref : WalletRef) :
    Moves (preserving Dated) (quiet (cleanup lib ref) : Watching Chronicle Unit) :=
  moves_quiet (R := filesKept) (moves_bind (moves_call lib _) fun _ => moves_modify fun _ => rfl)
    fun _ _ _ hv h => h.kept hv

/-! ### Running a chain -/

/-- A chain over the file that is there would meet no older transactions. -/
structure Consistent (s : Chronicled) : Prop where
  dated : Dated s
  current : s.1.hasChain → ∀ ref, s.1.wallet = some ref → UpToDate s ref

theorem Consistent.steady (h : Consistent (w, c)) (hv : steady.rel w v) : Consistent (v, c) where
  dated := h.dated.steady hv
  current := by
    intro hchain ref href
    have hold : w.wallet = some ref := by rw [← (steady_iff.mp hv).2.2.1]; exact href
    exact (h.current (by rw [← hasChain_steady hv]; exact hchain) ref hold).steady hv

/-- A missing chain file is created, and its era begins, also where the store cannot be set up. -/
theorem dated_newBlockStore (h : Dated (w, c)) :
    Ends (Watched.newBlockStore enter lib (getBlockchainFile w)) (w, c) fun r t => Dated t ∧
      (r = .ok () → t.1.wallet = w.wallet ∧ t.1.wallets = w.wallets ∧ t.2.recorded = c.recorded ∧
        (w.hasChain → t.2.era = c.era)) := by
  unfold Watched.newBlockStore
  rw [ends_bind, ends_quiet, ends_call]
  cases lib.fails .openBlockStore with
  | some e => exact ⟨h, fun hr => by cases hr⟩
  | none =>
    dsimp only
    rw [ends_bind, ends_mark]
    dsimp only
    simp only [ends_quiet, ends_bind, ends_modify, ends_call]
    have hmarked {v : World} (hv : v.files.wallets = w.files.wallets) :
        Dated (v, (if w.files.chains (getBlockchainFile w) then id else enter .created w) c) := by
      split
      · next hchain => exact h.of_files hv fun _ => hchain
      · exact dated_created h
    have hstamps : Chronicle.recorded
        ((if w.files.chains (getBlockchainFile w) then id else enter .created w) c) = c.recorded := by
      split <;> rfl
    cases lib.fails .initBlockStore with
    | some e => exact ⟨hmarked rfl, fun hr => by cases hr⟩
    | none =>
      refine ⟨hmarked rfl, fun _ => ⟨rfl, rfl, hstamps, fun hchain => ?_⟩⟩
      have hthere : w.files.chains (getBlockchainFile w) := hchain
      simp [hthere]

/-- Clearing leaves the current wallet empty, or the world as it was. -/
theorem ends_clearTransactions : Ends (clearTransactions lib) w fun
    | .ok _, v => v.files = w.files ∧ v.dataDirectory = w.dataDirectory ∧
        ∀ ref, v.wallet = some ref → (v.wallets.cell ref).transactions = []
    | .error _, v => v = w := by
  unfold clearTransactions theWallet modifyWallet
  simp only [ends_bind, ends_get, ends_deref, ends_modify, bind_assoc]
  cases hw : w.wallet with
  | none => rfl
  | some ref =>
    simp only [ends_pure, ends_call]
    cases lib.fails .clearTransactions with
    | some e => rfl
    | none =>
      refine ⟨rfl, rfl, fun r hr => ?_⟩
      have href : w.wallet = some r := hr
      obtain rfl : ref = r := Option.some.inj (hw.symm.trans href)
      rw [Heap.cell_write_self]

/-- A chain that has just been created meets a wallet that has just been cleared. -/
theorem dated_rebuild {existed : Bool} (h : Dated (w, c))
    (hu : existed → ∀ ref, w.wallet = some ref → UpToDate (w, c) ref) :
    Ends (quiet (if existed then pure () else do
      clearTransactions lib
      let (_, wallet) ← theWallet
      checkpointFor lib wallet) : Watching Chronicle Unit) (w, c) fun r t => Dated t ∧
        (r = .ok () → ∀ ref, t.1.wallet = some ref → UpToDate t ref) := by
  rw [ends_quiet, ends_ite]
  split
  · next hexisted => exact ⟨h, fun _ => hu hexisted⟩
  · rw [ends_bind]
    refine ends_mono ends_clearTransactions fun r v hv => ?_
    cases r with
    | error e =>
      obtain rfl : v = w := hv
      exact ⟨h, fun hr => by cases hr⟩
    | ok _ =>
      obtain ⟨hfiles, hdirectory, hempty⟩ := hv
      have hdated : Dated (v, c) := h.same hfiles hdirectory
      have hrest : Moves steady (do
          let (_, wallet) ← theWallet
          checkpointFor lib wallet) :=
        moves_bind moves_theWallet fun ⟨_, wallet⟩ => moves_checkpointFor steady_network lib wallet
      refine ends_mono (ends_of_moves hrest) fun r u hu => ⟨hdated.steady hu, fun _ ref href => ?_⟩
      obtain ⟨-, -, hwallet, hkept⟩ := steady_iff.mp hu
      intro tx htx
      rw [hkept, hempty ref (by rw [← hwallet]; exact href)] at htx
      cases htx

/-- A chain runs only over transactions recorded since its file was created. -/
theorem dated_startBlockchain (h : Consistent (w, c)) :
    Ends (Watched.startBlockchain enter lib) (w, c) fun _ t => Dated t := by
  have hattach : Moves (preserving Dated) (do
      quiet (newPeerGroup lib)
      let (ref, _) ← quiet theWallet
      quiet (onPeerGroup lib .addWallet fun group => { group with wallets := group.wallets ++ [ref] })
      quiet (native .onBalanceChanged)
      mark (enter .told)
      quiet do
        trackPendingTransactions ref
        onPeerGroup lib .startAndWait fun group => { group with running := true }
        lib.call .startBlockChainDownload : Watching Chronicle Unit) := by
    have hg := steady_network.toIgnoresGroups
    refine moves_bind (dated_quiet (moves_newPeerGroup hg lib)) fun _ => ?_
    refine moves_bind (dated_quiet moves_theWallet) fun ⟨ref, _⟩ => ?_
    refine moves_bind (dated_quiet (moves_onPeerGroup hg lib _ _)) fun _ => ?_
    refine moves_bind (dated_quiet (moves_native hg.balance)) fun _ => ?_
    refine moves_bind (moves_modify fun s hs => hs) fun _ => dated_quiet ?_
    refine moves_bind (steady_pending ref) fun _ => ?_
    exact moves_bind (moves_onPeerGroup hg lib _ _) fun _ => moves_call lib _
  unfold Watched.startBlockchain
  rw [ends_bind, ends_quiet, ends_get]
  dsimp only
  rw [ends_bind]
  refine ends_mono (dated_newBlockStore h.dated) fun r t ht => ?_
  cases r with
  | error e => exact ht.1
  | ok _ =>
    obtain ⟨hdated, hopen⟩ := ht
    obtain ⟨hwallet, hwallets, hrecorded, hera⟩ := hopen rfl
    dsimp only
    rw [ends_bind]
    refine ends_mono (dated_rebuild hdated fun hchain ref href tx htx => ?_) fun r u hu => ?_
    · rw [hrecorded, hera hchain]
      rw [hwallets] at htx
      exact h.current hchain ref (by rw [← hwallet]; exact href) tx htx
    · cases r with
      | error e => exact hu.1
      | ok _ =>
        obtain ⟨hdated, hcurrent⟩ := hu
        dsimp only
        refine ends_bind_quiet (R := steady) (moves_call lib _) (fun _ v hv => ?_) fun e v hv => ?_
        · rw [ends_bind, ends_mark]
          dsimp only
          refine hattach _ (dated_running (hdated.steady hv) fun ref href => ?_)
          have href' : u.1.wallet = some ref := by rw [← (steady_iff.mp hv).2.2.1]; exact href
          exact (hcurrent rfl ref href').steady hv
        · exact hdated.steady hv

/-! ### Taking a wallet into use -/

theorem dated_saveToFile {f : File} (h : Dated (w, c)) (hu : w.hasChain → UpToDate (w, c) ref) :
    Ends (Watched.saveToFile enter lib ref f) (w, c) fun _ t => Dated t := by
  unfold Watched.saveToFile
  rw [ends_bind, ends_quiet]
  refine ends_mono (ends_saveToFile f) fun r v hv => ?_
  cases r with
  | ok _ =>
    obtain rfl : v = w.savedTo ref f := hv
    exact dated_saved h hu
  | error e =>
    obtain ⟨rfl, -⟩ := hv
    exact h

/-- A wallet is put to use that a chain over the file that is there may meet. -/
theorem dated_useWallet (h : Dated (w, c)) (hu : w.hasChain → UpToDate (w, c) ref) :
    Ends (Watched.useWallet enter lib ref) (w, c) fun _ t => Dated t := by
  have hused : Consistent ({ w with wallet := some ref }, c) := by
    refine ⟨h.same rfl rfl, fun hchain r hr => ?_⟩
    obtain rfl : ref = r := Option.some.inj hr
    exact hu hchain
  have hk := steady_keys
  unfold Watched.useWallet
  rw [ends_bind, ends_quiet, ends_modify]
  dsimp only
  refine ends_bind_quiet (R := steady) (moves_call lib _) (fun _ v hv => ?_) fun e v hv =>
    hused.dated.steady hv
  rw [ends_bind, ends_quiet, ends_get]
  refine ends_bind_quiet (R := steady) (moves_modifyWallet hk.toIgnoresWallets ref fun _ => rfl)
      (fun _ v' hv' => ?_)
    fun e v' hv' => hused.dated.steady (steady.trans hv hv')
  have hv := steady.trans hv hv'
  refine ends_bind_quiet (R := steady) (moves_getWalletAddress lib) (fun _ v' hv' => ?_)
    fun e v' hv' => hused.dated.steady (steady.trans hv hv')
  have hv := steady.trans hv hv'
  refine ends_bind_quiet (R := steady) (moves_modifyWallet hk.toIgnoresWallets ref fun _ => rfl)
      (fun _ v' hv' => ?_)
    fun e v' hv' => hused.dated.steady (steady.trans hv hv')
  have hv := steady.trans hv hv'
  rw [ends_bind]
  refine ends_mono (dated_startBlockchain (hused.steady hv)) fun r t ht => ?_
  cases r with
  | error e => exact ht
  | ok _ => exact dated_cleanup lib ref t ht

/-- A wallet file fit for the chain file that is there. -/
def FileFits (s : Chronicled) (f : File) : Prop :=
  s.1.hasChain → ∀ image ∈ s.1.files.wallets f,
    image.transactions = [] ∨ s.2.savedIn f = s.2.era

/-- What was loaded from a fitting file may meet the chain. -/
theorem dated_loadAndUse {f : File} (h : Dated (w, c)) (hf : FileFits (w, c) f) :
    Ends (do
      let ref ← Watched.loadWalletFromFile enter lib f
      Watched.useWallet enter lib ref : Watching Chronicle Unit) (w, c) fun _ t => Dated t := by
  have hkept : Moves filesKept (loadWalletFromFile lib f) :=
    moves_loadWalletFromFile (fun _ _ => rfl) lib f
  unfold Watched.loadWalletFromFile
  simp only [bind_assoc, pure_bind]
  rw [ends_bind, ends_quiet]
  refine ends_mono (ends_and (ends_of_moves hkept) (returns_loadWalletFromFile lib f)) fun r v hv => ?_
  obtain ⟨hsame, hok⟩ := hv
  obtain ⟨hfiles, hdirectory⟩ := Prod.mk.inj hsame
  have hdated : Dated (v, c) := h.same hfiles hdirectory
  cases r with
  | error e => exact hdated
  | ok ref =>
    obtain ⟨image, himage, rfl, rfl⟩ := hok ref rfl
    dsimp only
    rw [ends_bind, ends_mark]
    refine dated_useWallet (dated_loaded hdated) fun hchain tx htx => ?_
    have hloaded : tx ∈ loadedTransactions w.nextTransaction image.transactions := by
      simpa [World.loadWallet, WalletImage.toWallet] using htx
    have hhash : tx.hash ∈ image.transactions.map SavedTransaction.hash := by
      rw [← hash_loadedTransactions w.nextTransaction]
      exact List.mem_map_of_mem hloaded
    obtain ⟨old, hold, heq⟩ := List.mem_map.mp hhash
    have hstamp : c.saved f old.hash = c.era := by
      rcases hf hchain image himage with hnil | hin
      · rw [hnil] at hold
        cases hold
      · exact h.written hchain f image himage hin old hold
    rw [heq] at hstamp
    simpa [enter] using hstamp

/-- What a handler that always throws leaves is what the body left. -/
theorem ends_rethrown {γ : Type} {p : Throwable → Bool} {m : Watching γ Unit}
    {f : Throwable → Throwable} {s : World × γ} {P : World × γ → Prop}
    (h : Ends m s fun _ t => P t) : Ends (catchIf p m fun e => throw (f e)) s fun _ t => P t := by
  rw [ends_catchIf]
  refine ends_mono h fun r t ht => ?_
  cases r with
  | ok _ => exact ht
  | error e =>
    dsimp only
    split <;> exact ht

theorem dated_start (h : Dated (w, c)) (hf : FileFits (w, c) (w.dataFile "/bitcoinkit.wallet")) :
    Ends (Watched.start enter lib) (w, c) fun _ t => Dated t := by
  have hnetwork : Moves filesKept
      (if w.networkParams.isNone then setTestingNetwork false else pure () : Java Unit) :=
    moves_ite (moves_setTestingNetwork (fun _ _ => rfl) false) (moves_pure _)
  unfold Watched.start
  rw [ends_bind, ends_quiet, ends_get]
  dsimp only
  refine ends_bind_quiet hnetwork (fun _ v hv => ?_) fun e v hv =>
    h.same (Prod.mk.inj hv).1 (Prod.mk.inj hv).2
  obtain ⟨hfiles, hdirectory⟩ := Prod.mk.inj hv
  rw [ends_bind, ends_quiet, ends_modify]
  dsimp only
  have hdated : Dated ({ v with wallet := none, walletFile := some (w.dataFile "/bitcoinkit.wallet") }, c) :=
    h.same hfiles hdirectory
  rw [ends_ite]
  split
  · exact hdated
  · refine ends_rethrown (dated_loadAndUse hdated fun hchain image himage => ?_)
    refine hf ?_ image ?_
    · simpa [World.hasChain, getBlockchainFile, World.dataFile, hfiles, hdirectory] using hchain
    · simpa [hfiles] using himage

/-- The chain file is gone, or nothing has changed. -/
theorem dated_deleteBlockchainDataFile (h : Dated (w, c)) :
    Ends (deleteBlockchainDataFile lib) w fun r v => r = .ok () ∧ Dated (v, c) ∧
      (v.hasChain → lib.deletes = false ∧ v = w) ∧ v.wallets = w.wallets := by
  unfold deleteBlockchainDataFile
  rw [ends_modify]
  cases hd : lib.deletes with
  | false => exact ⟨rfl, h, fun _ => ⟨rfl, rfl⟩, rfl⟩
  | true =>
    have hgone : World.hasChain { w with files := { w.files with
        chains := Function.update w.files.chains (getBlockchainFile w) false } } = false := by
      simp [World.hasChain, getBlockchainFile, World.dataFile]
    refine ⟨rfl, h.of_files rfl fun hchain => ?_, fun hchain => ?_, rfl⟩
    · exact absurd hchain (by rw [if_pos rfl, hgone]; simp)
    · exact absurd hchain (by rw [if_pos rfl, hgone]; simp)

theorem upToDate_of_nil (h : (w.wallets.cell ref).transactions = []) : UpToDate (w, c) ref := by
  intro tx htx
  rw [h] at htx
  cases htx

/-- Saving leaves the objects as they are. -/
theorem wallets_saveToFile {f : File} :
    Ends (Watched.saveToFile enter lib ref f) s fun _ t => t.1.wallets = s.1.wallets := by
  have hkept : (after (saveToFile lib ref f s.1)).wallets = s.1.wallets :=
    moves_saveToFile (R := keeping World.wallets) (fun _ _ => rfl) lib ref f s.1
  rw [← erases_after (Watched.erases_saveToFile enter lib ref f) s] at hkept
  exact hkept

/-- A new wallet has no transactions to be out of date. -/
theorem dated_createWallet (h : Dated (w, c)) (password : Option CharArrayRef) :
    Ends (Watched.createWallet enter lib password) (w, c) fun _ t => Dated t := by
  have hk := steady_keys
  unfold Watched.createWallet
  rw [ends_bind, ends_quiet, ends_get]
  dsimp only
  cases w.walletFile with
  | none => exact h
  | some f =>
    dsimp only
    rw [ends_ite]
    split
    · exact h
    · have hmade : Ends newWallet w fun r v =>
          r = .ok w.wallets.next ∧ v = { w with wallets := w.wallets.alloc Wallet.empty } := ⟨rfl, rfl⟩
      rw [ends_bind, ends_quiet]
      refine ends_mono hmade fun r v hv => ?_
      obtain ⟨rfl, rfl⟩ := hv
      have hnew : Dated ({ w with wallets := w.wallets.alloc Wallet.empty }, c) := h.same rfl rfl
      have hempty : ((w.wallets.alloc Wallet.empty).cell w.wallets.next).transactions = [] := by
        rw [Heap.cell_alloc_self]
        rfl
      refine ends_bind_quiet (moves_modifyWallet hk.toIgnoresWallets _ fun _ => rfl) (fun _ v hv => ?_)
          fun e v hv =>
        hnew.steady hv
      refine ends_bind_quiet (moves_modifyWallet hk.toIgnoresWallets _ fun _ => rfl) (fun _ v' hv' => ?_)
        fun e v' hv' => hnew.steady (steady.trans hv hv')
      have hv := steady.trans hv hv'
      refine ends_bind_quiet (R := steady) (moves_ite ?_ (moves_pure _)) (fun _ v' hv' => ?_)
        fun e v' hv' => hnew.steady (steady.trans hv hv')
      · refine moves_bind (moves_encryptWallet hk.toIgnoresRekeying (fun _ _ => rfl) lib password _)
          fun _ => ?_
        exact moves_bind moves_get fun w => moves_bind (moves_firstKey _) fun _ =>
          moves_modifyWallet hk.toIgnoresWallets _ fun _ => rfl
      · have hv := steady.trans hv hv'
        have hblank : (v'.wallets.cell w.wallets.next).transactions = [] :=
          ((steady_iff.mp hv).2.2.2 _).trans hempty
        rw [ends_bind]
        refine ends_mono (ends_and (dated_saveToFile (hnew.steady hv) fun _ => upToDate_of_nil hblank)
          wallets_saveToFile) fun r t ht => ?_
        obtain ⟨hsaved, hwallets⟩ := ht
        cases r with
        | error e => exact hsaved
        | ok _ =>
          dsimp only
          rw [ends_bind, ends_quiet]
          refine ends_mono (dated_deleteBlockchainDataFile hsaved) fun r u hu => ?_
          obtain ⟨rfl, hdeleted, -, hkept⟩ := hu
          refine dated_useWallet hdeleted fun _ => upToDate_of_nil ?_
          rw [hkept, hwallets]
          exact hblank

theorem dated_stop (h : Dated (w, c))
    (hu : w.hasChain → ∀ ref, w.wallet = some ref → UpToDate (w, c) ref) :
    Ends (Watched.stop enter lib) (w, c) fun _ t => Dated t := by
  unfold Watched.stop
  refine ends_rethrown (ends_bind_quiet (moves_shutdownBlockchain steady_network lib)
    (fun _ v hv => ?_) fun e v hv => h.steady hv)
  rw [ends_bind, ends_quiet, ends_get]
  dsimp only
  cases href : v.wallet with
  | none => exact h.steady hv
  | some ref =>
    have hold : w.wallet = some ref := by rw [← (steady_iff.mp hv).2.2.1]; exact href
    refine ends_bind_quiet (R := steady) (moves_deref _) (fun f u hu' => ?_) fun e u hu' =>
      h.steady (steady.trans hv hu')
    have hwu := steady.trans hv hu'
    refine dated_saveToFile (h.steady hwu) fun hchain => (hu ?_ ref hold).steady hwu
    rw [← hasChain_steady hwu]
    exact hchain

theorem dated_autosave (h : Dated (w, c))
    (hu : w.hasChain → ∀ f, (w.wallets.cell ref).autosaveFile = some f → UpToDate (w, c) ref) :
    Ends (Watched.autosave enter lib ref) (w, c) fun _ t => Dated t := by
  unfold Watched.autosave
  rw [ends_bind, ends_quiet, ends_get]
  dsimp only
  cases hf : (w.wallets.cell ref).autosaveFile with
  | none => exact h
  | some f => exact dated_saveToFile h fun hchain => hu hchain f hf

/-- A reset keeps the chain file only where it cannot delete it. -/
theorem dated_resetBlockchain (h : Dated (w, c)) (hu : lib.deletes = false →
      w.hasChain → ∀ ref, w.wallet = some ref → UpToDate (w, c) ref) :
    Ends (Watched.resetBlockchain enter lib) (w, c) fun _ t => Dated t := by
  unfold Watched.resetBlockchain
  refine ends_rethrown (ends_bind_quiet (moves_shutdownBlockchain steady_network lib)
    (fun _ v hv => ?_) fun e v hv => h.steady hv)
  rw [ends_bind, ends_quiet]
  refine ends_mono (dated_deleteBlockchainDataFile (h.steady hv)) fun r u hdeleted => ?_
  obtain ⟨rfl, hdated, hleft, hkept⟩ := hdeleted
  have hu : Consistent (u, c) := by
    refine ⟨hdated, fun hchain ref href => ?_⟩
    obtain ⟨hd, rfl⟩ := hleft hchain
    exact ((Consistent.mk h (hu hd)).steady hv).current hchain ref href
  dsimp only
  rw [ends_bind, ends_quiet, ends_modify]
  dsimp only
  rw [ends_bind, ends_quiet, ends_get]
  dsimp only
  have hloop : Moves (preserving Consistent) (forIn u.trackedTransactions PUnit.unit fun tx _ => do
      quiet (stopTrackingTransaction tx)
      pure (ForInStep.yield PUnit.unit) : Watching Chronicle PUnit) :=
    moves_forIn (fun tx _ => moves_bind (moves_quiet
      (moves_stopTrackingTransaction steady_tracking tx) fun _ _ _ hv hs => hs.steady hv)
        fun _ => moves_pure _) _ _
  have hzero : Consistent ({ u with blocksToDownload := 0 }, c) := hu.steady rfl
  rw [ends_bind]
  refine ends_mono (ends_of_moves hloop) fun r t ht => ?_
  cases r with
  | error e => exact (ht hzero).dated
  | ok _ => exact dated_startBlockchain (ht hzero)

end BitcoinKit

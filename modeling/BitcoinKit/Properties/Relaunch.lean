import BitcoinKit.Java.Footing
import BitcoinKit.Properties.KeyKept
import BitcoinKit.Properties.LastChange
import BitcoinKit.Properties.Restart

/-! The wallet over the end of a process. A manager that stops writes its wallet out, and a new one over
    the same files takes it up again:

        wallet ── stop ──▶ file ── late saves ──▶ file ── start, in a new process ──▶ wallet

    The keys and their protection come back as they were, the date of the last change if it is after the
    epoch. Of the transactions the start cleans up pending ones that are risky; if the chain file is gone
    it drops them all, and the new chain brings them back. An exported wallet is as good as the file a
    stop leaves. -/

namespace BitcoinKit
open Schemes

variable {lib : Lib} {w v : World} {ref : WalletRef} {f : File}

/-! ### Stopping -/

/-- The wallet's content is in the file; the wallets themselves and the chain files are as they were. -/
structure LaidDown (ref : WalletRef) (f : File) (w v : World) : Prop where
  saved : v.files.wallets f = some (w.imageOf (w.wallets.cell ref))
  chains : v.files.chains = w.files.chains
  directory : v.dataDirectory = w.dataDirectory
  wallets : v.wallets = w.wallets
  confidence : v.confidence = w.confidence

/-- All that a shutdown of the network leaves alone and a save goes by. -/
def saveable : Along World := keeping fun w =>
  (w.files, w.dataDirectory, w.walletFile, w.wallet, w.wallets, w.confidence)

theorem saveable_network : IgnoresNetwork saveable where
  groups _ _ _ := rfl
  balance _ := rfl
  stores _ _ _ := rfl

theorem laidDown_savedTo (h : saveable.rel w v) : LaidDown ref f w (v.savedTo ref f) := by
  simp only [saveable, keeping, Prod.mk.injEq] at h
  obtain ⟨hfiles, hdirectory, -, -, hwallets, hconfidence⟩ := h
  have himage : v.imageOf (v.wallets.cell ref) = w.imageOf (w.wallets.cell ref) := by
    rw [hwallets]
    unfold World.imageOf
    simp only [hconfidence]
  refine ⟨?_, ?_, hdirectory, hwallets, hconfidence⟩
  · rw [← himage]
    exact Function.update_self ..
  · change v.files.chains = _
    rw [hfiles]

theorem returns_stop (hw : w.wallet = some ref) : Returns (stop lib) w fun _ v =>
    ∃ f, w.walletFile = some f ∧ LaidDown ref f w v := by
  refine returns_rethrow ?_
  refine returns_bind_of_moves (moves_shutdownBlockchain saveable_network lib) fun _ u hu => ?_
  refine returns_bind (returns_get ?_)
  have hfields := hu
  simp only [saveable, keeping, Prod.mk.injEq] at hfields
  obtain ⟨-, -, hfile, hwallet, -⟩ := hfields
  rw [hwallet, hw]
  dsimp only
  rw [hfile]
  cases hf : w.walletFile with
  | none => exact returns_throw _
  | some f =>
    refine returns_bind (returns_pure ?_)
    unfold Returns
    refine ends_mono (ends_saveToFile f) fun r v hv => ?_
    rintro a rfl
    obtain rfl : v = u.savedTo ref f := hv
    exact ⟨f, rfl, laidDown_savedTo hu⟩

/-- Late saves of the wallet write what is there already. -/
theorem laidDown_autosave (hf : ∀ g, (w.wallets.cell ref).autosaveFile = some g → g = f)
    (h : LaidDown ref f w v) : LaidDown ref f w (after (autosave lib ref v)) := by
  have hends : Ends (autosave lib ref) v fun _ u => LaidDown ref f w u := by
    unfold autosave
    rw [ends_bind, ends_get]
    dsimp only
    rw [h.wallets]
    cases hg : (w.wallets.cell ref).autosaveFile with
    | none => exact h
    | some g =>
      obtain rfl := hf g hg
      refine ends_mono (ends_saveToFile g) fun r u hu => ?_
      cases r with
      | error e =>
        obtain ⟨rfl, -⟩ := hu
        exact h
      | ok _ =>
        obtain rfl : u = v.savedTo ref g := hu
        refine ⟨?_, h.chains, h.directory, h.wallets, h.confidence⟩
        have himage : v.imageOf (v.wallets.cell ref) = w.imageOf (w.wallets.cell ref) := by
          rw [h.wallets]
          unfold World.imageOf
          simp only [h.confidence]
        rw [← himage]
        exact Function.update_self ..
  exact hends

theorem laidDown_saves (hf : ∀ g, (w.wallets.cell ref).autosaveFile = some g → g = f) (saves : List Lib)
    (h : LaidDown ref f w v) :
    LaidDown ref f w (run live v (saves.map fun saving => .autosave saving ref)) := by
  induction saves generalizing v with
  | nil => exact h
  | cons saving saves ih => exact ih (laidDown_autosave hf h)

/-! ### Starting again -/

/-- A manager that runs with a wallet of this content, on a chain in this file. The content is the keys
    with their protection, the date of the last change, and the transactions with their types. -/
structure TakenUp (image : WalletImage) (chain : File) (v : World) : Prop where
  wallet : v.footing.wallet = some image
  store : v.footing.store.map BlockStore.file = some chain
  isOpen : v.footing.store.map BlockStore.isOpen = some true
  running : v.footing.running = some true
  hears : HearsPending v

/-- What a start takes up of a wallet: pending transactions that are risky are cleaned up, and without a
    chain file all transactions are dropped. -/
def Files.takes (files : Files) (lib : Lib) (chain : File) (image : WalletImage) : WalletImage :=
  if files.chains chain then image.cleaned lib else image.cleared

/-- A wallet whose date of the last change, unless it is after the epoch, is gone. -/
def Wallet.redated (wallet : Wallet) : Wallet :=
  { wallet with lastWalletChangeDate := wallet.lastWalletChangeDate.filter fun date => 0 < date }

theorem redated_dated {wallet : Wallet} (h : wallet.lastWalletChange.Dated) : wallet.redated = wallet := by
  have hkept : wallet.lastWalletChangeDate.filter (fun date => 0 < date) = wallet.lastWalletChangeDate :=
    LastWalletChangeExtension.filter_dated h
  rw [Wallet.redated, hkept]

/-- What is read of a saved wallet is the wallet, but for a date that is not after the epoch. -/
theorem reread_imageOf (w : World) (wallet : Wallet) :
    (w.imageOf wallet).reread = w.imageOf wallet.redated := by
  unfold WalletImage.reread World.imageOf
  simp only [LastWalletChangeExtension.loaded_serialized]
  rfl

theorem takenUp_start {files : Files} {directory : Option String} {image : WalletImage}
    (hfile : files.wallets (walletPath directory) = some image) (hkeys : image.keys ≠ [])
    (hl : lib.Serves none) :
    let v := World.placed files directory
    outcome (start lib v) = .ok () ∧
      TakenUp (files.takes lib v.places.chain image.reread) v.places.chain (after (start lib v)) := by
  intro v
  have hcomes : settled (start lib v) =
      (.ok (ranChain lib files v.places (image.reread.cleaned lib)), files.withChain v.places.chain) := by
    have hplace : v.files.wallets v.places.wallet = some image := hfile
    have hread : image.reread.keys ≠ [] := hkeys
    rw [serves_start hl, started, hplace]
    exact if_neg hread
  obtain ⟨hreturn, -⟩ := Prod.mk.inj hcomes
  have huntracked : StartsUntracked v (.start lib) := by
    rintro - - image - saved - - t ht
    exact absurd ht List.not_mem_nil
  have hhears := returns_start lib huntracked
  cases ho : outcome (start lib v) with
  | error e =>
    rw [ho] at hreturn
    cases hreturn
  | ok _ =>
    rw [ho] at hreturn
    have hfooting : (after (start lib v)).footing =
        ranChain lib files v.places (image.reread.cleaned lib) :=
      Except.ok.inj hreturn
    rw [ranChain] at hfooting
    rw [Files.takes]
    refine ⟨rfl, ?_, ?_, ?_, ?_, hhears _ ho⟩
    · rw [hfooting]
      split <;> rfl
    · rw [hfooting]
      split <;> rfl
    · rw [hfooting]
      split <;> rfl
    · rw [hfooting]
      split <;> rfl

/-- Whatever happened before: a wallet whose manager is stopped, saved again at any later moment or not,
    is, cleaned up, the wallet of a manager started in a new process. -/
theorem restart_restores (files : Files) (directory : Option String) (before : List Happening)
    (hm : Meets live KeepsIdentity (World.placed files directory) before) (ref : WalletRef)
    (hw : (run live (World.placed files directory) before).wallet = some ref)
    (hkeys : ((run live (World.placed files directory) before).wallets.cell ref).keys ≠ [])
    (lib : Lib) (hstop : outcome (stop lib (run live (World.placed files directory) before)) = .ok ())
    (saves : List Lib) (lib' : Lib) (hl : lib'.Serves none) :
    let w := run live (World.placed files directory) before
    let ended := run live (after (stop lib w)) (saves.map fun saving => .autosave saving ref)
    outcome (start lib' ended.restart) = .ok () ∧
      TakenUp (w.files.takes lib' w.places.chain (w.imageOf (w.wallets.cell ref).redated))
        w.places.chain (after (start lib' ended.restart)) := by
  intro w ended
  have hc : Custody ECKey.pubKey (walletPath directory) w :=
    (custody_run before (custody_placed files directory) (meets_mono careful_of_keepsIdentity _ _ hm)).1
  have hpath : w.places.wallet = walletPath directory := hc.path
  obtain ⟨f, hf, hlaid⟩ := returns_of_outcome (returns_stop hw) hstop
  obtain rfl : f = w.places.wallet := (hc.field f hf).trans hpath.symm
  have hended : LaidDown ref w.places.wallet w ended :=
    laidDown_saves (fun g hg => (hc.saving ref g hg).1.trans hpath.symm) saves hlaid
  have hdata (name : String) : ended.restart.dataFile name = w.dataFile name := by
    have hdirectory : ended.restart.dataDirectory = w.dataDirectory := hended.directory
    rw [World.dataFile, World.dataFile, hdirectory]
  have hfile : ended.files.wallets (walletPath ended.dataDirectory) =
      some (w.imageOf (w.wallets.cell ref)) := (congrArg ended.files.wallets (hdata _)).trans hended.saved
  have htakes (chain : File) : ended.files.takes lib' chain = w.files.takes lib' chain := by
    unfold Files.takes
    rw [hended.chains]
  have hchain : ended.restart.places.chain = w.places.chain := hdata _
  obtain ⟨hreturn, htaken⟩ := takenUp_start hfile hkeys hl
  refine ⟨hreturn, ?_⟩
  rw [← reread_imageOf, ← htakes, ← hchain]
  exact htaken

/-- A wallet with a password takes in two transactions before its process ends; it is saved late once. -/
def pendingHeld : List Happening :=
  [.call (.start .fair), .call (.createWallet .fair (some [112])), .call (.receive 0 7 [] .pending),
    .call (.receive 0 8 [] .pending)]

/-- A library that finds the second of them risky. -/
def Lib.wary : Lib := { Lib.fair with risky := fun hash => hash = 8 }

theorem wary_works : Lib.wary.Works := ⟨fun _ => rfl, rfl⟩

theorem restart_restores_pending :
    let w := run live (World.placed .none (some "data")) pendingHeld
    let v := after (start .wary (run live (after (stop .fair w)) [.autosave .fair 0]).restart)
    TakenUp ((w.imageOf (w.wallets.cell 0)).cleaned .wary) w.places.chain v ∧
      (v.footing.wallet.map WalletImage.transactions) = some [⟨7, [], .pending⟩] ∧
      (v.footing.wallet.map WalletImage.keyCrypter) = some (some Lib.fair.newKeyCrypter) ∧
      (v.footing.wallet.map WalletImage.lastWalletChange) = some (some [0, 0, 0, 0, 0, 0, 0, 1]) := by
  intro w v
  have htaken := (restart_restores .none (some "data") pendingHeld
    ⟨trivial, trivial, trivial, trivial, trivial⟩ 0 (by decide +kernel) (by decide +kernel) .fair
    (by decide +kernel) [.fair] .wary (wary_works.heeding none)).2
  have hchain : w.files.chains w.places.chain = true := by decide +kernel
  have hdated : (w.wallets.cell 0).lastWalletChange.Dated := by
    have hdate : (w.wallets.cell 0).lastWalletChange.lastWalletChangeDate = some 1 := by decide +kernel
    intro date hd
    rw [hdate] at hd
    cases hd
    decide
  rw [Files.takes, if_pos hchain, redated_dated hdated] at htaken
  exact ⟨htaken, by decide +kernel, by decide +kernel, by decide +kernel⟩

/-! ### Backups -/

theorem returns_exportWallet (hw : w.wallet = some ref) (path : String) :
    Returns (exportWallet lib path) w fun _ v => v = w.savedTo ref path := by
  unfold exportWallet Returns
  rw [ends_bind, ends_theWallet hw]
  refine ends_mono (ends_saveToFile path) fun r v hv => ?_
  rintro a rfl
  exact hv

/-- Whatever happened before: a wallet that is exported is, wherever its copy is put in place of the
    wallet file, the wallet of a manager started there, cleaned up. -/
theorem backup_restores (files : Files) (directory : Option String) (before : List Happening)
    (ref : WalletRef) (hw : (run live (World.placed files directory) before).wallet = some ref)
    (hkeys : ((run live (World.placed files directory) before).wallets.cell ref).keys ≠ [])
    (lib : Lib) (path : String)
    (hexport : outcome (exportWallet lib path (run live (World.placed files directory) before)) = .ok ())
    (files' : Files) (directory' : Option String)
    (hcopy : files'.wallets (walletPath directory') =
      (after (exportWallet lib path (run live (World.placed files directory) before))).files.wallets path)
    (lib' : Lib) (hl : lib'.Serves none) :
    let w := run live (World.placed files directory) before
    let v := World.placed files' directory'
    outcome (start lib' v) = .ok () ∧
      TakenUp (files'.takes lib' v.places.chain (w.imageOf (w.wallets.cell ref).redated))
        v.places.chain (after (start lib' v)) := by
  intro w v
  have hsaved : after (exportWallet lib path w) = w.savedTo ref path :=
    returns_of_outcome (returns_exportWallet hw path) hexport
  have hfile : files'.wallets (walletPath directory') = some (w.imageOf (w.wallets.cell ref)) := by
    rw [hcopy, hsaved]
    exact Function.update_self ..
  rw [← reread_imageOf]
  exact takenUp_start hfile hkeys hl

/-- The same wallet is exported, and its copy taken to a computer that has nothing else. -/
def carriedOver : Files :=
  let w := run live (World.placed .none (some "data")) pendingHeld
  let copy := (after (exportWallet .fair "backup" w)).files.wallets "backup"
  { Files.none with wallets := Function.update (fun _ => none) (walletPath (some "home")) copy }

theorem backup_restores_elsewhere :
    let w := run live (World.placed .none (some "data")) pendingHeld
    let v := after (start .fair (World.placed carriedOver (some "home")))
    TakenUp (w.imageOf (w.wallets.cell 0).redated).cleared
        (World.placed carriedOver (some "home")).places.chain v ∧
      (v.footing.wallet.map WalletImage.keyCrypter) = some (some Lib.fair.newKeyCrypter) := by
  intro w v
  have hcopy : carriedOver.wallets (walletPath (some "home")) =
      (after (exportWallet .fair "backup" w)).files.wallets "backup" :=
    Function.update_self (walletPath (some "home")) _ fun _ => none
  have htaken := (backup_restores .none (some "data") pendingHeld 0 (by decide +kernel) (by decide +kernel)
    .fair "backup" (by decide +kernel) carriedOver (some "home") hcopy .fair
    (fair_works.heeding none)).2
  have hchain : carriedOver.chains (World.placed carriedOver (some "home")).places.chain = false := rfl
  rw [Files.takes, hchain, if_neg (by simp)] at htaken
  exact ⟨htaken, by decide +kernel⟩

end BitcoinKit

import BitcoinKit.Java.Chronicle

/-! A rebuilt chain and old transactions. The manager clears the wallet when it finds the chain file
    missing, but the cleared wallet reaches its file only with a later save. Until then the old
    transactions stand in the wallet file next to a new chain file:

        chain file missing ──▶ created ──▶ wallet cleared ──▶ chain runs ──▶ (delayed) save
                                      └────────── death or failure here ──────────┘
                                        next start: chain file there, old wallet loaded -/

namespace BitcoinKit
open Schemes

/-- What happens to a manager in one data directory. `traffic` is everything outside the wallet's
    lifecycle: sends, payments, queries and the network. -/
inductive Occurrence where
  | start (lib : Lib)
  | createWallet (lib : Lib) (password : Option Chars)
  | stop (lib : Lib)
  | resetBlockchain (lib : Lib)
  | deleteBlockchainDataFile (lib : Lib)
  | autosave (lib : Lib) (ref : WalletRef)
  | restart
  | traffic (label : Label) (h : label.isLifecycle = false)

def Occurrence.happening : Occurrence → Happening
  | .start lib => .call (.start lib)
  | .createWallet lib password => .call (.createWallet lib password)
  | .stop lib => .call (.stop lib)
  | .resetBlockchain lib => .call (.resetBlockchain lib)
  | .deleteBlockchainDataFile lib => .call (.deleteBlockchainDataFile lib)
  | .autosave lib ref => .autosave lib ref
  | .restart => .restart
  | .traffic label _ => .call label

/-- One occurrence, with the chronicle kept. -/
def occur (s : Chronicled) : Occurrence → Chronicled
  | .traffic label _ => (step s.1 label, s.2.takeIn s.1)
  | o => Watched.live enter s o.happening

theorem fst_occur (s : Chronicled) (o : Occurrence) : (occur s o).1 = live s.1 o.happening := by
  cases o with
  | traffic label h => rfl
  | _ => exact Watched.fst_live enter s _

/-- Keeping the chronicle changes nothing about the program. -/
theorem fst_run_occur (s : Chronicled) (os : List Occurrence) :
    (run occur s os).1 = run live s.1 (os.map Occurrence.happening) :=
  run_map fst_occur s os

/-- A start that finds a chain file finds a wallet file written since it was created, or one without
    transactions. While there is a chain file, no save writes an object with older transactions, and no
    reset that has to leave the chain file finds the current wallet with some. -/
def InStep (s : Chronicled) : Occurrence → Prop
  | .start _ => FileFits s (s.1.dataFile "/bitcoinkit.wallet")
  | .stop _ => s.1.hasChain → ∀ ref ∈ s.1.wallet, UpToDate s ref
  | .autosave _ ref => s.1.hasChain → ∀ _f ∈ (s.1.wallets.cell ref).autosaveFile, UpToDate s ref
  | .resetBlockchain lib => lib.deletes = false → s.1.hasChain → ∀ ref ∈ s.1.wallet, UpToDate s ref
  | _ => True

instance (s : Chronicled) (ref : WalletRef) : Decidable (UpToDate s ref) :=
  inferInstanceAs (Decidable (∀ tx ∈ (s.1.wallets.cell ref).transactions, _))

instance (s : Chronicled) (f : File) : Decidable (FileFits s f) :=
  inferInstanceAs (Decidable (s.1.hasChain → ∀ image ∈ s.1.files.wallets f,
    image.transactions = [] ∨ s.2.savedIn f = s.2.era))

instance (s : Chronicled) : ∀ o, Decidable (InStep s o)
  | .start _ => inferInstanceAs (Decidable (FileFits s _))
  | .stop _ => inferInstanceAs (Decidable (_ → ∀ ref ∈ s.1.wallet, UpToDate s ref))
  | .autosave _ ref => inferInstanceAs (Decidable
      (_ → ∀ _f ∈ (s.1.wallets.cell ref).autosaveFile, UpToDate s ref))
  | .resetBlockchain lib => inferInstanceAs (Decidable
      (lib.deletes = false → _ → ∀ ref ∈ s.1.wallet, UpToDate s ref))
  | .createWallet _ _ => inferInstanceAs (Decidable True)
  | .deleteBlockchainDataFile _ => inferInstanceAs (Decidable True)
  | .restart => inferInstanceAs (Decidable True)
  | .traffic _ _ => inferInstanceAs (Decidable True)

variable {s : Chronicled}

theorem dated_onBehalfOf {code : Watching Chronicle Unit}
    (h : Ends code ({ s.1 with activity := 0 }, s.2) fun _ t => Dated t) :
    Dated (after (Watched.onBehalfOf 0 code s)) := by
  have hends : Ends (Watched.onBehalfOf 0 code) s fun _ t => Dated t := by
    unfold Watched.onBehalfOf
    rw [ends_bind, ends_quiet, ends_modify]
    exact h
  exact hends

theorem filesKept_payments : IgnoresPayments filesKept where
  keys _ _ _ := rfl
  built _ _ := rfl
  waiting _ _ := rfl
  stored _ _ _ := rfl
  committed _ _ _ _ := rfl
  numbered _ _ := rfl
  loaded _ _ _ := rfl
  removed _ _ := rfl
  reports _ _ _ := rfl

theorem filesKept_tracking : IgnoresTracking filesKept where
  confidence _ _ _ := rfl
  news _ _ _ := rfl
  listening _ _ _ := rfl

theorem filesKept_traffic : IgnoresTraffic filesKept where
  toIgnoresSending := filesKept_payments.toIgnoresSending
  toIgnoresNews := filesKept_tracking.toIgnoresNews
  secrets _ _ := rfl
  checkpointsPath _ _ := rfl
  bookkeeping _ _ _ _ := rfl
  received w ref hash inputs type := by
    change ((w.receive ref hash inputs type).files, (w.receive ref hash inputs type).dataDirectory) =
      (w.files, w.dataDirectory)
    rw [World.receive]
    split <;> rfl

theorem dated_traffic (h : Dated s) {label : Label} (hl : label.isLifecycle = false) :
    Dated (step s.1 label, s.2.takeIn s.1) := by
  have hfiles : filesKept.rel s.1 (step s.1 label) :=
    moves_offLifecycle filesKept_traffic filesKept_payments filesKept_tracking (fun _ _ => rfl)
      (fun _ => moves_native fun _ => rfl) label hl s.1
  exact dated_takeIn (h.same (Prod.mk.inj hfiles).1 (Prod.mk.inj hfiles).2)

/-- An occurrence that meets the condition keeps the files dated, and the chains in step with their
    wallets. -/
theorem dated_occur (h : Dated s) (o : Occurrence) (ho : InStep s o) : Dated (occur s o) := by
  have hs : Dated ({ s.1 with activity := 0 }, s.2) := h.same rfl rfl
  cases o with
  | start lib => exact dated_onBehalfOf (dated_start hs ho)
  | createWallet lib password =>
    refine dated_onBehalfOf (ends_bind_quiet (R := filesKept)
      (moves_newCharArray (fun _ _ => rfl) password) (fun array v hv => ?_) fun e v hv => ?_)
    · exact dated_createWallet (hs.same (Prod.mk.inj hv).1 (Prod.mk.inj hv).2) array
    · exact hs.same (Prod.mk.inj hv).1 (Prod.mk.inj hv).2
  | stop lib => exact dated_onBehalfOf (dated_stop hs ho)
  | resetBlockchain lib => exact dated_onBehalfOf (dated_resetBlockchain hs ho)
  | deleteBlockchainDataFile lib =>
    have hends : Ends (quiet (Label.deleteBlockchainDataFile lib).code : Watching Chronicle Unit) s
        fun _ t => Dated t := by
      rw [ends_quiet, Label.code, onBehalfOf, ends_bind, ends_modify]
      exact ends_mono (dated_deleteBlockchainDataFile hs) fun _ v hv => hv.2.1
    exact hends
  | autosave lib ref => exact dated_autosave h ho
  | restart => exact h.same rfl rfl
  | traffic label hl => exact dated_traffic h hl

theorem dated_initial (files : Files) (directory : Option String) :
    Dated (World.placed files directory, Chronicle.initial) where
  written _ _ _ _ _ _ _ := rfl
  past _ := Nat.le_refl _
  met _ hr := by cases hr

/-- Whenever a chain runs, the transactions of the wallet attached to it were recorded since its file
    was created. -/
theorem rebuilt_chain_meets_no_old_transactions (files : Files) (directory : Option String)
    (os : List Occurrence)
    (hm : Meets occur InStep (World.placed files directory, Chronicle.initial) os) :
    ∀ r ∈ (run occur (World.placed files directory, Chronicle.initial) os).2.runs,
      ∀ stamp ∈ r.2, stamp = r.1 := by
  have hdated := inv_meets (I := Dated) (fun _ o h ho => dated_occur h o ho) _ os
    (dated_initial files directory) hm
  exact hdated.met

/-- A wallet takes in a transaction and is saved. -/
def walletSaved : List Occurrence :=
  [.start .fair, .createWallet .fair none, .traffic (.receive 0 7 [] .building) rfl, .stop .fair]

/-- A second process takes the wallet up, over the same chain file. -/
theorem chain_resumed :
    let s := run occur (World.placed .none (some "data"), Chronicle.initial)
      (walletSaved ++ [.restart, .start .fair])
    s.2.runs = [(1, []), (1, [1])] ∧ ∀ r ∈ s.2.runs, ∀ stamp ∈ r.2, stamp = r.1 :=
  ⟨by decide +kernel,
    rebuilt_chain_meets_no_old_transactions .none (some "data") _ (by decide +kernel)⟩

/-- The chain file is deleted and rebuilt, and the process dies before the cleared wallet is saved. -/
theorem rebuilt_chain_met_old : ¬ ∀ os : List Occurrence,
    ∀ r ∈ (run occur (World.placed .none (some "data"), Chronicle.initial) os).2.runs,
      ∀ stamp ∈ r.2, stamp = r.1 := by
  intro h
  have hdead := h (walletSaved ++
    [.deleteBlockchainDataFile .fair, .start .fair, .restart, .start .fair])
  exact absurd hdead (by decide +kernel)

end BitcoinKit

import BitcoinKit.Java.Listening
import BitcoinKit.Java.Step

/-! After a (re)start the manager hears of every pending transaction of its wallet. Loading a wallet makes
    new objects, and `trackPendingTransactions` registers with each of them, unless the tracking set
    still has its hash from before: the set is emptied by a reset only, so a `start` after a `stop`
    leaves the manager listening to the old objects. -/

namespace BitcoinKit
open Schemes

/-- The pending transactions of a wallet. -/
def World.pendingOf (w : World) (ref : WalletRef) : List Transaction :=
  (w.wallets.cell ref).transactions.filter fun tx => w.confidence tx = .pending

/-- The manager has a wallet and listens to each of its pending transactions. -/
def HearsPending (w : World) : Prop :=
  ∃ ref, w.wallet = some ref ∧ ∀ tx ∈ w.pendingOf ref, tx ∈ w.registrations

/-- None of these transactions shares its hash with a tracked one. -/
def Untracked (w : World) (txs : List Transaction) : Prop :=
  ∀ tx ∈ txs, hasKey Transaction.hash w.trackedTransactions tx = false

/-- The loop over the pending transactions: those still to come are untracked, those done are heard. -/
structure Hearing (w : World) (all rest : List Transaction) (v : World) : Prop where
  only : onlyListening.rel w v
  untracked : Untracked v rest
  distinct : Distinct Transaction.hash rest
  heard : ∀ tx ∈ all, tx ∈ rest ∨ tx ∈ v.registrations

theorem hearing_step {w v u : World} {all rest : List Transaction} {tx : Transaction}
    (h : Hearing w all (tx :: rest) v) (hu : onlyListening.rel v u)
    (htracked : u.trackedTransactions = addKey Transaction.hash v.trackedTransactions tx)
    (hregs : u.registrations = tx :: v.registrations) : Hearing w all rest u := by
  obtain ⟨hnotin, hdist⟩ := List.nodup_cons.mp h.distinct
  refine ⟨onlyListening.trans h.only hu, fun t ht => ?_, hdist, fun t ht => ?_⟩
  · have hk := h.untracked t (List.mem_cons_of_mem _ ht)
    rw [htracked, addKey, if_neg (by simp [h.untracked tx List.mem_cons_self])]
    rw [hasKey_false_iff] at hk ⊢
    rintro b hb
    rcases List.mem_cons.mp hb with rfl | hb
    · exact fun heq => hnotin (heq ▸ List.mem_map_of_mem ht)
    · exact hk b hb
  · rw [hregs]
    rcases h.heard t ht with hmem | hmem
    · rcases List.mem_cons.mp hmem with rfl | hmem
      · exact .inr List.mem_cons_self
      · exact .inl hmem
    · exact .inr (List.mem_cons_of_mem _ hmem)

theorem returns_trackPending {w : World} (ref : WalletRef) (h : Untracked w (w.pendingOf ref)) :
    Returns (trackPendingTransactions ref) w fun _ v => onlyListening.rel w v ∧
      ∀ tx ∈ w.pendingOf ref, tx ∈ v.registrations := by
  have hdist : Distinct Transaction.hash (w.pendingOf ref) :=
    (w.wallets.cell ref).distinct.sublist (List.filter_sublist.map _)
  refine returns_bind (returns_get (returns_bind (ends_mono (ends_forIn
    (I := fun rest (_ : PUnit) v => Hearing w (w.pendingOf ref) rest v)
    (E := fun (_ : Throwable) _ => True) ?_ (w.pendingOf ref) PUnit.unit w
    ⟨rfl, h, hdist, fun _ htx => .inl htx⟩) fun r v hv a ha => ?_)))
  · rintro tx rest _ v hv
    rw [ends_bind]
    refine ends_mono (ends_trackTransaction (hv.untracked tx List.mem_cons_self))
      fun r u ⟨hr, hu, htracked, hregs⟩ => ?_
    rw [hr]
    exact hearing_step hv hu htracked hregs
  · rw [ha] at hv
    refine returns_pure ⟨hv.only, fun tx htx => ?_⟩
    exact (hv.heard tx htx).resolve_left List.not_mem_nil

/-! ### Starting the chain -/

/-- The wallet holds no pending transaction whose hash is tracked, unless its transactions are about
    to be cleared because there is no chain file. -/
def Ready (w : World) (ref : WalletRef) : Prop :=
  w.files.chains (getBlockchainFile w) = true → Untracked w (w.pendingOf ref)

/-- The same with the transactions cleared already where that has to happen. -/
def WalletUntracked (w : World) : Prop := ∀ ref, w.wallet = some ref → Untracked w (w.pendingOf ref)

theorem hearsPending_of_onlyChain {w v : World} (h : onlyChain.rel w v) (hw : HearsPending w) :
    HearsPending v := by
  rw [onlyChain] at h
  rw [h]
  exact hw

theorem walletUntracked_of_onlyChain {w v : World} (h : onlyChain.rel w v)
    (hw : WalletUntracked w) : WalletUntracked v := by
  rw [onlyChain] at h
  rw [h]
  exact hw

/-- A cleared wallet has nothing pending. -/
theorem returns_clearTransactions (lib : Lib) {w : World} :
    Returns (clearTransactions lib) w fun _ v => WalletUntracked v := by
  refine returns_bind (returns_mono returns_theWallet ?_)
  rintro ⟨ref, wallet⟩ v ⟨rfl, hw⟩
  refine returns_bind_of_moves (R := keeping id) (moves_call lib _) ?_
  rintro _ u rfl
  refine returns_modify fun ref' hr tx htx => ?_
  obtain rfl : ref = ref' := Option.some.inj (hw.symm.trans hr)
  simp [World.pendingOf] at htx

theorem returns_startBlockchain (lib : Lib) {w : World}
    (h : ∀ ref, w.wallet = some ref → Ready w ref) :
    Returns (startBlockchain lib) w fun _ v => HearsPending v := by
  have hc := ignoresChain_onlyChain
  refine returns_bind (returns_get (returns_bind_of_moves (moves_newBlockStore hc lib _) ?_))
  rintro _ w₁ h₁
  refine returns_bind (returns_mono (Q := fun _ v => WalletUntracked v) ?_ ?_)
  · refine returns_ite (fun hchain => returns_pure ?_) fun _ => ?_
    · exact walletUntracked_of_onlyChain h₁ fun ref hr => h ref hr hchain
    · refine returns_bind (returns_mono (returns_clearTransactions lib) fun _ v hv => ?_)
      refine returns_bind_of_moves (R := onlyChain) moves_theWallet fun x u hu => ?_
      refine returns_mono (returns_of_moves (moves_checkpointFor hc.toIgnoresNetwork lib _)) fun _ t ht => ?_
      exact walletUntracked_of_onlyChain (onlyChain.trans hu ht) hv
  · rintro _ w₂ h₂
    refine returns_bind_of_moves (R := onlyChain) (moves_call lib _) fun _ w₃ h₃ => ?_
    refine returns_bind_of_moves (moves_newPeerGroup hc.toIgnoresGroups lib) fun _ w₄ h₄ => ?_
    refine returns_bind (returns_mono returns_theWallet ?_)
    rintro ⟨ref, wallet⟩ w₅ ⟨rfl, hr⟩
    refine returns_bind_of_moves (moves_onPeerGroup hc.toIgnoresGroups lib _ _) fun _ w₆ h₆ => ?_
    refine returns_bind_of_moves (R := onlyChain) (moves_native fun _ => rfl) fun _ w₇ h₇ => ?_
    have h₅₇ := onlyChain.trans h₆ h₇
    have hfresh := walletUntracked_of_onlyChain
      (onlyChain.trans h₃ (onlyChain.trans h₄ h₅₇)) h₂
    have hr₇ : w₇.wallet = some ref := by rw [h₅₇]; exact hr
    refine returns_bind (returns_mono (returns_trackPending ref (hfresh ref hr₇)) ?_)
    rintro _ w₈ ⟨h₈, hheard⟩
    have hhears : HearsPending w₈ := by
      rw [h₈]
      exact ⟨ref, hr₇, hheard⟩
    refine returns_bind_of_moves (moves_onPeerGroup hc.toIgnoresGroups lib _ _) fun _ w₉ h₉ => ?_
    refine returns_mono (returns_of_moves (R := onlyChain) (moves_call lib _)) fun _ v hv => ?_
    exact hearsPending_of_onlyChain (onlyChain.trans h₉ hv) hhears

/-! ### Taking a wallet into use -/

/-- The wallet keeps its transactions. -/
def sameRoll (ref : WalletRef) : Along World := keeping fun w => (w.wallets.cell ref).transactions

/-- What `Ready` goes by stays, and so does the wallet in use. -/
def sameSetup (ref : WalletRef) : Along World := keeping fun w =>
  ((w.wallets.cell ref).transactions, w.wallet, w.confidence, w.trackedTransactions, w.files,
    w.dataDirectory)

theorem cell_write_transactions (wallets : Heap Wallet) (ref r : WalletRef) {f : Wallet → Wallet}
    (hf : ∀ x, (f x).transactions = x.transactions) :
    ((wallets.write r (f (wallets.cell r))).cell ref).transactions =
      (wallets.cell ref).transactions := by
  by_cases hr : ref = r
  · subst hr
    rw [Heap.cell_write_self, hf]
  · rw [Heap.cell_write_ne hr]

theorem ignoresKeys_sameRoll (ref : WalletRef) : IgnoresKeys (sameRoll ref) where
  keys _ _ _ := rfl
  wallets w r _ hf := cell_write_transactions w.wallets ref r hf

theorem ignoresChain_sameRoll (ref : WalletRef) : IgnoresChain (sameRoll ref) :=
  ⟨fun _ _ _ _ _ => rfl, fun _ _ => rfl, fun _ => rfl⟩

theorem ignoresKeys_sameSetup (ref : WalletRef) : IgnoresKeys (sameSetup ref) where
  keys _ _ _ := rfl
  wallets w r f hf := by
    have h := cell_write_transactions w.wallets ref r hf
    simp only [sameSetup, keeping, h]

theorem ready_of_sameSetup {w v : World} {ref : WalletRef} (h : (sameSetup ref).rel w v)
    (hw : Ready w ref) : Ready v ref ∧ v.wallet = w.wallet := by
  simp only [sameSetup, keeping, Prod.mk.injEq] at h
  obtain ⟨htxs, hwallet, hconf, htracked, hfiles, hdir⟩ := h
  refine ⟨?_, hwallet⟩
  unfold Ready Untracked World.pendingOf getBlockchainFile World.dataFile at hw ⊢
  rw [htxs, hconf, htracked, hfiles, hdir]
  exact hw

/-- A wallet that is cleaned up has nothing pending that it had not before. -/
theorem pendingOf_cleaned (w : World) (lib : Lib) (ref r : WalletRef) :
    (w.cleaned lib ref).pendingOf r ⊆ w.pendingOf r := by
  intro tx htx
  obtain ⟨hmem, hpending⟩ := List.mem_filter.mp htx
  refine List.mem_filter.mpr ⟨?_, hpending⟩
  by_cases hr : r = ref
  · subst hr
    rw [World.cleaned, Heap.cell_write_self] at hmem
    exact List.mem_of_mem_filter hmem
  · rwa [World.cleaned, Heap.cell_write_ne hr] at hmem

theorem returns_cleanup (lib : Lib) {w : World} {ref : WalletRef} (h : HearsPending w) :
    Returns (cleanup lib ref) w fun _ v => HearsPending v := by
  refine returns_bind_of_moves (R := onlyChain) (moves_call lib _) fun _ v hv => returns_modify ?_
  obtain ⟨r, hr, hheard⟩ := hearsPending_of_onlyChain hv h
  exact ⟨r, hr, fun tx htx => hheard tx (pendingOf_cleaned v lib ref r htx)⟩

theorem returns_useWallet (lib : Lib) {w : World} {ref : WalletRef} (h : Ready w ref) :
    Returns (useWallet lib ref) w fun _ v => HearsPending v := by
  have hk := ignoresKeys_sameSetup ref
  have h₀ : Ready { w with wallet := some ref } ref := h
  refine returns_bind (returns_modify ?_)
  refine returns_bind_of_moves (R := sameSetup ref) (moves_call lib _) fun _ w₁ h₁ => ?_
  refine returns_bind (returns_get ?_)
  refine returns_bind_of_moves (moves_modifyWallet hk.toIgnoresWallets ref fun _ => rfl) fun _ w₂ h₂ => ?_
  refine returns_bind_of_moves (R := sameSetup ref) (moves_getWalletAddress lib) fun _ w₃ h₃ => ?_
  refine returns_bind_of_moves (moves_modifyWallet hk.toIgnoresWallets ref fun _ => rfl) fun _ w₄ h₄ => ?_
  have hsetup := (sameSetup ref).trans h₁
    ((sameSetup ref).trans h₂ ((sameSetup ref).trans h₃ h₄))
  obtain ⟨hready, hwallet⟩ := ready_of_sameSetup hsetup h₀
  refine returns_bind (returns_mono (returns_startBlockchain lib fun r hr => ?_) fun _ v hv => ?_)
  · obtain rfl : ref = r := Option.some.inj (hwallet.symm.trans hr)
    exact hready
  · exact returns_cleanup lib hv

/-! ### Loading -/

/-- A loaded object has the hash and the confidence type of what was saved. -/
theorem loaded_saved : ∀ (next : Nat) (confidence : Transaction → ConfidenceType)
    (saved : List SavedTransaction), ∀ tx ∈ loadedTransactions next saved,
    ∃ s ∈ saved, s.hash = tx.hash ∧
      loadConfidence confidence (loadedTransactions next saved) saved tx = s.confidence
  | _, _, [], _, htx => absurd htx List.not_mem_nil
  | next, confidence, s :: rest, tx, htx => by
    rw [loadedTransactions, loadConfidence]
    rcases List.mem_cons.mp htx with rfl | htx
    · refine ⟨s, List.mem_cons_self, rfl, ?_⟩
      have hnotin : (⟨next, s.hash, s.inputs, none⟩ : Transaction) ∉
          loadedTransactions (next + 1) rest := by
        intro hmem
        have hle := ref_loadedTransactions (next + 1) rest _ hmem
        dsimp only at hle
        omega
      rw [loadConfidence_not_mem _ _ _ hnotin, Function.update_self]
    · obtain ⟨s', hs', hh, hc⟩ := loaded_saved (next + 1) _ rest tx htx
      exact ⟨s', List.mem_cons_of_mem _ hs', hh, hc⟩

/-! ### The operations -/

/-- A `start` that finds a chain file tracks no transaction whose hash is pending in the wallet
    file. -/
def StartsUntracked (w : World) (l : Label) : Prop :=
  l.isStart → w.files.chains (getBlockchainFile w) = true →
    ∀ image ∈ w.files.wallets (w.dataFile "/bitcoinkit.wallet"), ∀ saved ∈ image.transactions,
      saved.confidence = .pending → ∀ t ∈ w.trackedTransactions, t.hash ≠ saved.hash

instance (w : World) (l : Label) : Decidable (StartsUntracked w l) :=
  inferInstanceAs (Decidable (l.isStart → w.files.chains (getBlockchainFile w) = true →
    ∀ image ∈ w.files.wallets (w.dataFile "/bitcoinkit.wallet"), ∀ saved ∈ image.transactions,
      saved.confidence = .pending → ∀ t ∈ w.trackedTransactions, t.hash ≠ saved.hash))

theorem ready_loadWallet {w : World} {image : WalletImage}
    (h : w.files.chains (getBlockchainFile w) = true → ∀ saved ∈ image.transactions,
      saved.confidence = .pending → ∀ t ∈ w.trackedTransactions, t.hash ≠ saved.hash) :
    Ready (w.loadWallet image) w.wallets.next := by
  rintro hchain tx htx
  obtain ⟨hmem, hpending⟩ := List.mem_filter.mp htx
  have hcell : (w.loadWallet image).wallets.cell w.wallets.next = image.toWallet w.nextTransaction :=
    Heap.cell_alloc_self
  rw [hcell] at hmem
  obtain ⟨saved, hs, hhash, hconf⟩ := loaded_saved w.nextTransaction w.confidence
    image.transactions tx hmem
  rw [hasKey_false_iff]
  intro t ht
  rw [← hhash]
  refine h hchain saved hs ?_ t ht
  rw [← hconf]
  exact of_decide_eq_true hpending

/-- Only the network changes. -/
def onlyNetwork : Along World where
  rel w v := v = { w with networkParams := v.networkParams }
  refl _ := rfl
  trans h₁ h₂ := by rw [h₂, h₁]

theorem returns_start (lib : Lib) {w : World} (h : StartsUntracked w (.start lib)) :
    Returns (start lib) w fun _ v => HearsPending v := by
  have hs := h rfl
  refine returns_bind (returns_get ?_)
  refine returns_bind_of_moves (R := onlyNetwork)
    (moves_ite (moves_modify fun _ => rfl) (moves_pure _)) fun _ v hv => ?_
  refine returns_bind (returns_modify (returns_ite (fun _ => returns_throw _) fun _ => ?_))
  refine returns_rethrow (returns_bind (returns_mono (returns_loadWalletFromFile lib _) ?_))
  rintro ref u ⟨image, himage, rfl, rfl⟩
  rw [hv] at himage ⊢
  refine returns_useWallet lib (ready_loadWallet fun hchain saved hsaved hconf t ht => ?_)
  exact hs hchain image himage saved hsaved hconf t ht

theorem untracked_of_nil {w : World} {ref : WalletRef}
    (h : (w.wallets.cell ref).transactions = []) : Ready w ref := by
  rintro - tx htx
  rw [World.pendingOf, h] at htx
  exact absurd htx List.not_mem_nil

theorem returns_createWallet (lib : Lib) (password : Option CharArrayRef) {w : World} :
    Returns (createWallet lib password) w fun _ v => HearsPending v := by
  refine returns_bind (returns_get ?_)
  split
  · exact returns_throw _
  · next walletFile _ =>
    refine returns_ite (fun _ => returns_throw _) fun _ => ?_
    have hnew : Returns newWallet w fun ref v => (v.wallets.cell ref).transactions = [] := by
      refine returns_bind (returns_get (returns_bind (returns_modify (returns_pure ?_))))
      exact congrArg Wallet.transactions Heap.cell_alloc_self
    refine returns_bind (returns_mono hnew fun ref w₁ h₁ => ?_)
    have hk := ignoresKeys_sameRoll ref
    have hc := ignoresChain_sameRoll ref
    have hm {f : Wallet → Wallet} (hf : ∀ x, (f x).transactions = x.transactions) :
        Moves (sameRoll ref) (modifyWallet ref f) := moves_modifyWallet hk.toIgnoresWallets ref hf
    refine returns_bind_of_moves (hm fun _ => rfl) fun _ w₂ h₂ => ?_
    refine returns_bind_of_moves (hm fun _ => rfl) fun _ w₃ h₃ => ?_
    refine returns_bind_of_moves (R := sameRoll ref) (moves_ite ?_ (moves_pure _)) fun _ w₄ h₄ => ?_
    · refine moves_bind (moves_encryptWallet hk.toIgnoresRekeying (fun _ _ => rfl) lib password ref) fun _ => ?_
      exact moves_bind moves_get fun _ => moves_bind (moves_firstKey _) fun _ => hm fun _ => rfl
    · refine returns_bind_of_moves (moves_saveToFile (R := sameRoll ref) (fun _ _ => rfl) lib ref _)
        fun _ w₅ h₅ => ?_
      refine returns_bind_of_moves (moves_deleteBlockchainDataFile hc lib) fun _ w₆ h₆ => ?_
      have hsame := (sameRoll ref).trans h₂ ((sameRoll ref).trans h₃ ((sameRoll ref).trans h₄
        ((sameRoll ref).trans h₅ h₆)))
      exact returns_useWallet lib (untracked_of_nil (hsame.trans h₁))

theorem returns_resetBlockchain (lib : Lib) {w : World} :
    Returns (resetBlockchain lib) w fun _ v => HearsPending v := by
  refine returns_rethrow ?_
  refine returns_bind_of_moves (R := onlyChain) (moves_shutdownBlockchain ignoresChain_onlyChain.toIgnoresNetwork lib)
    fun _ _ _ => ?_
  refine returns_bind_of_moves (moves_deleteBlockchainDataFile ignoresChain_onlyChain lib)
    fun _ _ _ => ?_
  refine returns_bind (returns_modify (returns_bind (returns_get (returns_bind ?_))))
  refine ends_mono ends_untrackAll fun r v hv a ha => ?_
  rw [ha] at hv
  refine returns_startBlockchain lib fun ref _ _ tx _ => ?_
  rw [hv.2]
  rfl

/-- In every run in which each `start` that finds a chain file tracks nothing that is pending in the
    wallet file, the manager hears of every pending transaction whenever it was brought up. -/
theorem hears_pending (files : Files) (ls : List Label) (l : Label)
    (h : Meets step StartsUntracked (World.initial files) (ls ++ [l])) (hl : l.bringsUp)
    (hok : outcome (l.code (run step (World.initial files) ls)) = .ok ()) :
    HearsPending (step (run step (World.initial files) ls) l) := by
  obtain ⟨-, hlast, -⟩ := (meets_append _ ls [l]).mp h
  revert hok hlast
  generalize run step (World.initial files) ls = w
  rintro hok hlast
  cases l with
  | start lib =>
    have hclear : StartsUntracked { w with activity := 0 } (.start lib) := hlast
    exact returns_of_outcome (returns_bind (returns_modify (returns_start lib hclear))) hok
  | createWallet lib password =>
    refine returns_of_outcome (returns_bind (returns_modify (returns_bind_of_moves
      (R := preserving fun _ => True) ?_ fun array v _ => returns_createWallet lib array))) hok
    exact moves_newCharArray (fun _ _ h => h) password
  | resetBlockchain lib =>
    exact returns_of_outcome (returns_bind (returns_modify (returns_resetBlockchain lib))) hok
  | _ => cases hl

/-- A wallet is created and a pending transaction arrives in it; `heard` says whether the wallet event
    is delivered, so that the transaction is tracked, before the manager stops. -/
def stoppedWithPending (heard : Bool) : List Label :=
  [.start .fair, .createWallet .fair none, .receive 0 10 [] .pending] ++
    (if heard then [.coinsReceived 0 ⟨0, 10, [], none⟩, .deliver .fair] else []) ++
    [.stop .fair]

theorem hears_pending_restarted :
    (step (run step (World.initial .none) (stoppedWithPending false)) (.start .fair)).registrations =
        [⟨1, 10, [], none⟩] ∧
      HearsPending (step (run step (World.initial .none) (stoppedWithPending false)) (.start .fair)) :=
  ⟨by decide +kernel,
    hears_pending .none (stoppedWithPending false) (.start .fair) (by decide +kernel) rfl
      (by decide +kernel)⟩

theorem restart_misses_pending :
    ¬ ∀ (files : Files) (ls : List Label) (l : Label), l.bringsUp →
      outcome (l.code (run step (World.initial files) ls)) = .ok () →
        HearsPending (step (run step (World.initial files) ls) l) := by
  intro h
  obtain ⟨ref, hwallet, hheard⟩ :=
    h .none (stoppedWithPending true) (.start .fair) rfl (by decide +kernel)
  have hw : (step (run step (World.initial .none) (stoppedWithPending true)) (.start .fair)).wallet =
      some 1 := by decide +kernel
  obtain rfl : ref = 1 := Option.some.inj (hwallet.symm.trans hw)
  have hmissed : ¬ ∀ tx ∈ (step (run step (World.initial .none) (stoppedWithPending true))
        (.start .fair)).pendingOf 1,
      tx ∈ (step (run step (World.initial .none) (stoppedWithPending true))
        (.start .fair)).registrations := by decide +kernel
  exact hmissed hheard

end BitcoinKit

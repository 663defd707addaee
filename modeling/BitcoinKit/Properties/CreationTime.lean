import BitcoinKit.Properties.KeyKept

/-! The creation time of a wallet's key. It is printed with an exported key, and the chain is started from
    the checkpoint before it. `wallet.encrypt` may lose it; `createWallet` puts it back, a change of
    password does not:

        createWallet            encrypt ──▶ 0 ──▶ setCreationTimeSeconds ──▶ t
        changeWalletPassword    decrypt ──▶ t ──▶ encrypt ──▶ 0 -/

namespace BitcoinKit
open Schemes

variable {p : File} {w : World} {lib : Lib} {t : Nat} {ref : WalletRef}

/-! ### Checkpoints -/

/-- The time `startBlockchain` picks a checkpoint for. -/
def checkpointTime (t : Nat) : Nat := if t = 0 then 1368620845 else t

/-- The manager's wallet holds one key, of this time. -/
def Timed (t : Nat) (w : World) : Prop :=
  ∀ ref, w.wallet = some ref → (w.wallets.cell ref).seen ECKey.creationTimeSeconds = [t]

/-- Between `w` and `v` no checkpoint is picked but for this time. -/
def Picks (t : Nat) (w v : World) : Prop :=
  ∀ s, (v.blockStores.cell s).checkpoint = (w.blockStores.cell s).checkpoint ∨
    (v.blockStores.cell s).checkpoint = none ∨
      (v.blockStores.cell s).checkpoint = some (checkpointTime t)

/-- As long as the wallet's key has this time, every checkpoint is picked for it. -/
def picking (t : Nat) : Along World where
  rel w v := Timed t w → Timed t v ∧ Picks t w v
  refl w h := ⟨h, fun s => .inl rfl⟩
  trans {w v u} h₁ h₂ h := by
    obtain ⟨hv, hwv⟩ := h₁ h
    obtain ⟨hu, hvu⟩ := h₂ hv
    refine ⟨hu, fun s => ?_⟩
    rcases hvu s with hsame | hpicked
    · rw [hsame]
      exact hwv s
    · exact .inr hpicked

theorem picking_same {v : World} (hf : v.wallet = w.wallet) (hws : v.wallets = w.wallets)
    (hs : v.blockStores = w.blockStores) : (picking t).rel w v := by
  intro h
  refine ⟨fun ref hr => ?_, fun s => .inl (by rw [hs])⟩
  rw [hws]
  exact h ref (hf ▸ hr)

/-- A wallet object changes, in all but its keys. -/
theorem picking_write {wallet : Wallet} (hk : wallet.keys = (w.wallets.cell ref).keys) :
    (picking t).rel w { w with wallets := w.wallets.write ref wallet } := by
  intro h
  refine ⟨fun r hr => ?_, fun s => .inl rfl⟩
  refine Eq.trans ?_ (h r hr)
  by_cases hrr : r = ref
  · subst hrr
    exact (congrArg (Wallet.seen _) Heap.cell_write_self).trans (congrArg (List.map _) hk)
  · exact congrArg (Wallet.seen _) (Heap.cell_write_ne hrr)

theorem picking_groups : IgnoresGroups (picking t) :=
  ⟨fun _ _ _ => picking_same rfl rfl rfl, fun _ => picking_same rfl rfl rfl⟩

theorem picking_tracking : IgnoresTracking (picking t) where
  listening _ _ _ := picking_same rfl rfl rfl
  confidence _ _ _ := picking_same rfl rfl rfl
  news _ _ _ := picking_same rfl rfl rfl

/-- A block store is opened, or changes. -/
theorem picking_store {v : World} (hf : v.wallet = w.wallet) (hws : v.wallets = w.wallets)
    (h : Picks t w v) : (picking t).rel w v := by
  intro ht
  refine ⟨fun ref hr => ?_, h⟩
  rw [hws]
  exact ht ref (hf ▸ hr)

theorem picking_newBlockStore (file : File) : Moves (picking t) (newBlockStore lib file) := by
  refine moves_bind (moves_call lib _) fun _ => ?_
  refine moves_bind (moves_modify fun w => picking_same rfl rfl rfl) fun _ => ?_
  refine moves_bind (moves_call lib _) fun _ => moves_modify fun w => picking_store rfl rfl fun s => ?_
  by_cases hs : s = w.blockStores.next
  · subst hs
    exact .inr (.inl (congrArg BlockStore.checkpoint Heap.cell_alloc_self))
  · exact .inl (congrArg BlockStore.checkpoint (Heap.cell_alloc_ne hs))

theorem picking_modifyBlockStore (store : Nat) {f : BlockStore → BlockStore}
    (hf : ∀ s, (f s).checkpoint = s.checkpoint ∨ (f s).checkpoint = some (checkpointTime t)) :
    Moves (picking t) (modifyBlockStore store f) := by
  refine moves_modify fun w => picking_store rfl rfl fun s => ?_
  by_cases hs : s = store
  · subst hs
    have hcell : ((w.blockStores.write s (f (w.blockStores.cell s))).cell s) = f (w.blockStores.cell s) :=
      Heap.cell_write_self
    rcases hf (w.blockStores.cell s) with hsame | hpicked
    · exact .inl ((congrArg BlockStore.checkpoint hcell).trans hsame)
    · exact .inr (.inr ((congrArg BlockStore.checkpoint hcell).trans hpicked))
  · exact .inl (congrArg BlockStore.checkpoint (Heap.cell_write_ne hs))

theorem earliestKeyCreationTime_of_seen {wallet : Wallet} (now : Nat)
    (h : wallet.seen ECKey.creationTimeSeconds = [t]) : wallet.earliestKeyCreationTime now = t := by
  unfold Wallet.earliestKeyCreationTime
  cases hk : wallet.keys with
  | nil => simp [Wallet.seen, hk] at h
  | cons key keys =>
    simp only [Wallet.seen, hk, List.map_cons, List.cons.injEq, List.map_eq_nil_iff] at h
    obtain ⟨rfl, rfl⟩ := h
    rfl

theorem picking_checkpointFor {wallet : Wallet} (h : wallet.seen ECKey.creationTimeSeconds = [t]) :
    Moves (picking t) (checkpointFor lib wallet) := by
  refine moves_bind moves_get fun w => moves_ite ?_ (moves_pure _)
  refine moves_catchIf ?_ fun _ => moves_throw _
  refine moves_bind (moves_call lib _) fun _ => moves_bind (moves_call lib _) fun _ => ?_
  refine moves_bind (moves_deref w.blockStore) fun store => picking_modifyBlockStore store fun s => ?_
  rw [earliestKeyCreationTime_of_seen lib.now h]
  exact .inr rfl

/-- A missing chain picks its checkpoint for the keys of the wallet in use. -/
theorem picking_rebuild {w v : World} (hv : (picking t).rel w v) (ht : Timed t w) : Ends (do
    clearTransactions lib
    let (_, wallet) ← theWallet
    checkpointFor lib wallet) v fun _ u => (picking t).rel w u := by
  have hclear : Moves (picking t) (clearTransactions lib) :=
    moves_bind moves_theWallet fun _ => moves_bind (moves_call lib _) fun _ =>
      moves_modify fun w => picking_write rfl
  refine ends_bind_of_moves hclear (fun _ u hu => ?_) fun _ _ hu => (picking t).trans hv hu
  have hwu := (picking t).trans hv hu
  cases hw : u.wallet with
  | none =>
    unfold theWallet
    simp only [ends_bind, ends_get, ends_deref, hw]
    exact hwu
  | some ref =>
    rw [ends_bind, ends_theWallet hw]
    exact ends_along hwu (picking_checkpointFor ((hwu ht).1 ref hw))

theorem picking_startBlockchain : Moves (picking t) (startBlockchain lib) := by
  intro w ht
  have hends : Ends (startBlockchain lib) w fun _ v => (picking t).rel w v := by
    unfold startBlockchain
    rw [ends_bind, ends_get]
    dsimp only
    refine ends_bind_of_moves (picking_newBlockStore _) (fun _ v hv => ?_) fun _ _ hv => hv
    rw [ends_bind, ends_ite]
    have hattach := @moves_attach (picking t) picking_groups lib
      (moves_trackPending (moves_trackTransaction picking_tracking))
    split
    · rw [ends_pure]
      exact ends_along hv hattach
    · refine ends_mono (picking_rebuild hv ht) fun r u hu => ?_
      cases r with
      | error e => exact hu
      | ok _ => exact ends_along hu hattach
  exact hends ht

theorem picking_shutdownBlockchain : Moves (picking t) (shutdownBlockchain lib) := by
  have hg : IgnoresGroups (picking t) := picking_groups
  refine moves_bind moves_get fun w => moves_bind (moves_ite ?_ (moves_pure _)) fun _ => ?_
  · refine moves_bind (moves_onPeerGroup hg lib _ _) fun _ => moves_bind moves_theWallet fun _ => ?_
    refine moves_bind (moves_onPeerGroup hg lib _ _) fun _ => ?_
    exact moves_modify fun w => picking_same rfl rfl rfl
  · refine moves_bind moves_get fun w => ?_
    split
    · refine moves_bind (moves_call lib _) fun _ => ?_
      refine moves_bind (picking_modifyBlockStore _ fun s => .inl rfl) fun _ => ?_
      exact moves_modify fun w => picking_same rfl rfl rfl
    · exact moves_pure _

theorem picking_resetBlockchain : Moves (picking t) (resetBlockchain lib) := by
  refine moves_rerunChain picking_shutdownBlockchain (moves_modify fun w => ?_)
    (fun _ => picking_same rfl rfl rfl) (moves_stopTrackingTransaction picking_tracking)
    picking_startBlockchain
  split
  · exact picking_same rfl rfl rfl
  · exact (picking t).refl w

theorem picking_useWallet (h : (w.wallets.cell ref).seen ECKey.creationTimeSeconds = [t]) :
    Ends (useWallet lib ref) w fun _ v => (picking t).rel w v := by
  unfold useWallet
  rw [ends_bind, ends_modify]
  dsimp only
  have htaken : (picking t).rel w { w with wallet := some ref } := by
    intro _
    refine ⟨fun r hr => ?_, fun s => .inl rfl⟩
    obtain rfl : ref = r := Option.some.inj hr
    exact h
  refine ends_along htaken (moves_bind (moves_call lib _) fun _ => moves_bind moves_get fun w => ?_)
  refine moves_bind (moves_modify fun w => picking_write rfl) fun _ => ?_
  refine moves_bind (moves_getWalletAddress lib) fun _ => ?_
  refine moves_bind (moves_modify fun w => picking_write rfl) fun _ => ?_
  refine moves_bind picking_startBlockchain fun _ => ?_
  exact moves_bind (moves_call lib _) fun _ => moves_modify fun w => picking_write rfl

/-- Without a wallet there is nothing to pick for. -/
theorem picking_idle {v : World} (hw : v.wallet = none) (hs : v.blockStores = w.blockStores) :
    (picking t).rel w v := by
  refine fun _ => ⟨fun r hr => ?_, fun s => .inl (by rw [hs])⟩
  rw [hw] at hr
  cases hr

/-- The manager is started over a wallet file with one key of this time. -/
theorem picking_start (hc : Custody ECKey.creationTimeSeconds p w)
    (hshown : w.shown ECKey.creationTimeSeconds p = some [t]) :
    Ends (start lib) w fun _ v => (picking t).rel w v := by
  unfold start setTestingNetwork
  rw [ends_bind, ends_get]
  dsimp only
  have hnetwork : Ends (if w.networkParams.isNone then modify fun w : World =>
      { w with networkParams := some (if false then .testNet3 else .mainNet) }
      else pure () : Java Unit) w fun r v =>
        ∃ a, r = .ok a ∧ v.files = w.files ∧ v.blockStores = w.blockStores := by
    rw [ends_ite]
    split
    · exact ⟨_, rfl, rfl, rfl⟩
    · exact ⟨_, rfl, rfl, rfl⟩
  refine ends_bind_ok hnetwork fun _ v ⟨hfiles, hstores⟩ => ?_
  rw [hc.path, ends_bind, ends_modify]
  dsimp only
  rw [ends_ite]
  split
  · exact picking_idle rfl hstores
  · have hload : Moves (keeping fun u : World => (u.wallet, u.blockStores)) (loadWalletFromFile lib p) :=
      moves_loadWalletFromFile (fun _ _ => rfl) lib p
    rw [ends_catchIf, ends_bind]
    refine ends_mono (ends_and (ends_of_moves hload) (returns_loadWalletFromFile lib p))
      fun r u ⟨hu, hret⟩ => ?_
    simp only [keeping, Prod.mk.injEq] at hu
    have hidle : (picking t).rel w u := picking_idle hu.1 (hu.2.trans hstores)
    cases r with
    | error e =>
      dsimp only
      split
      · exact hidle
      · exact hidle
    | ok ref =>
      obtain ⟨image, himage, hloaded, href⟩ := hret ref rfl
      have hcell : u.wallets.cell ref = image.toWallet v.nextTransaction := by
        rw [hloaded, href]
        exact Heap.cell_alloc_self
      have hseen : (u.wallets.cell ref).seen ECKey.creationTimeSeconds = [t] := by
        have hi : w.files.wallets p = some image := hfiles ▸ himage
        rw [World.shown, hi] at hshown
        rw [hcell]
        exact Option.some.inj hshown
      refine ends_mono (picking_useWallet hseen) fun r x hx => ?_
      have hend := (picking t).trans hidle hx
      cases r with
      | ok _ => exact hend
      | error e =>
        dsimp only
        split
        · exact hend
        · exact hend

/-! ### Exporting the key -/

/-- What the use of a decrypted key returns does not depend on the state it is used in. -/
theorem returns_withDecryptedKey {α : Type} {P : α → Prop} {use : Java α} (ecKey : ECKey)
    (aesKey : AesKeyRef) (hu : ∀ v, Returns use v fun a _ => P a) :
    Returns (withDecryptedKey lib ecKey aesKey use) w fun a _ => P a := by
  refine returns_bind_of_moves (R := keeping fun _ => ()) moves_theWallet fun _ _ _ => ?_
  refine returns_bind_of_moves (R := keeping fun _ => ()) (moves_readAesKey _) fun _ _ _ => ?_
  refine returns_bind_of_moves (R := keeping fun _ => ()) (moves_result _) fun _ u _ => ?_
  refine returns_bind (returns_bind (returns_get (returns_bind (returns_modify (returns_pure ?_)))))
  refine returns_tryFinally (hu _) fun a v ha => ?_
  exact returns_modify ha

/-- An exported key carries the time of the wallet's first key. -/
theorem returns_exportPrivateKey (array : Option CharArrayRef) :
    Returns (exportPrivateKey lib array) w fun text _ => ∃ ref key keys, w.wallet = some ref ∧
      (w.wallets.cell ref).keys = key :: keys ∧ ∃ encoded, text = encoded ++ "\t" ++
        lib.formatDate .utc "yyyy-MM-dd'T'HH:mm:ss'Z'" (key.creationTimeSeconds * 1000) := by
  refine returns_rethrow ?_
  unfold Returns
  cases hw : w.wallet with
  | none =>
    unfold theWallet
    simp only [bind_assoc, ends_bind, ends_get, ends_deref, hw]
    intro text ht
    cases ht
  | some ref =>
    rw [ends_bind, ends_theWallet hw]
    dsimp only
    unfold Wallet.firstKey
    cases hkeys : (w.wallets.cell ref).keys with
    | nil =>
      rw [ends_bind, ends_throw]
      intro text ht
      cases ht
    | cons key keys =>
      rw [pure_bind]
      refine returns_bind_of_moves (R := onlySecrets)
        (moves_aesKeyForPassword (fun _ _ => rfl) lib array) fun aesKey u _ => ?_
      refine returns_tryFinally (returns_withDecryptedKey key aesKey fun v => ?_) fun text v hv => ?_
      · refine returns_bind (returns_get (returns_bind ?_))
        cases lib.privateKeyEncoded key v.networkParams with
        | error e => exact returns_throw e
        | ok encoded => exact returns_pure (returns_pure ⟨ref, key, keys, rfl, hkeys, encoded, rfl⟩)
      · exact returns_modify hv

/-- A wallet with one key, made at `t`, exports this time. -/
theorem exported_of_timed {array : Option CharArrayRef} {text : String} (h : Timed t w)
    (htext : outcome (exportPrivateKey lib array w) = .ok text) : ∃ encoded,
      text = encoded ++ "\t" ++ lib.formatDate .utc "yyyy-MM-dd'T'HH:mm:ss'Z'" (t * 1000) := by
  obtain ⟨ref, key, keys, hw, hkeys, encoded, rfl⟩ :=
    returns_of_outcome (returns_exportPrivateKey array) htext
  have hseen := h ref hw
  simp only [Wallet.seen, hkeys, List.map_cons, List.cons.injEq] at hseen
  exact ⟨encoded, by rw [hseen.1]⟩

/-! ### Making a wallet -/

/-- If `createWallet` makes a wallet, the file shows the time its key was generated at. -/
theorem shown_createWallet {β : Type} {view : ECKey → β} {password : Option CharArrayRef}
    (hc : Custody view p w) (hempty : w.files.wallets p = none) (hr : lib.Rebuilds) :
    Ends (createWallet lib password) w fun _ v =>
      v.shown ECKey.creationTimeSeconds p = none ∨
        v.shown ECKey.creationTimeSeconds p = some [lib.newKey.creationTimeSeconds] := by
  have hnone {v : World} (hv : v.files.wallets p = none) :
      v.shown ECKey.creationTimeSeconds p = none := by rw [World.shown, hv]; rfl
  refine ends_createWallet hc (fun _ => .inl (hnone hempty)) (fun _ v _ hv => .inl (hnone hv.empty))
    fun v _ hv hminted => ?_
  refine ends_mono (ends_open ECKey.creationTimeSeconds hv) fun r u hu => ?_
  rcases hu with rfl | hu
  · exact .inl (hnone hv.empty)
  · refine .inr ((hu (hv.saved.1 (custody_of_making hv)).1).2 _ ?_)
    rw [shown_savedTo_self, hminted hr]

theorem shown_step_createWallet {β : Type} {view : ECKey → β} (password : Option Chars)
    (hc : Custody view p w) (hempty : w.files.wallets p = none) (hr : lib.Rebuilds)
    (hmade : (step w (.createWallet lib password)).files.wallets p ≠ none) :
    (step w (.createWallet lib password)).shown ECKey.creationTimeSeconds p =
      some [lib.newKey.creationTimeSeconds] := by
  have hends : Ends (onBehalfOf 0 (withPassword password (createWallet lib))) w fun _ v =>
      v.shown ECKey.creationTimeSeconds p = none ∨
        v.shown ECKey.creationTimeSeconds p = some [lib.newKey.creationTimeSeconds] := by
    unfold onBehalfOf
    rw [ends_bind, ends_modify]
    refine ends_withPassword password fun array s => ?_
    have haside : (custody view p).rel w { w with activity := 0, secrets := s } :=
      custody_same rfl rfl
    exact shown_createWallet (haside hc).1 hempty hr
  rcases hends with hnone | hshown
  · exact absurd (Option.map_eq_none_iff.mp hnone) hmade
  · exact hshown

/-! ### Over a run -/

/-- What bitcoinj is documented to do to keys, and the data directory stays. -/
def Documented (_ : World) : Happening → Prop
  | .call (.setDataDirectory _) => False
  | .call (.createWallet lib _) => lib.Rebuilds
  | .call (.changeWalletPassword lib _ _) =>
    lib.DecryptsKeeping ECKey.creationTimeSeconds ∧ lib.Rebuilds
  | _ => True

/-- No change of password gets to a `wallet.encrypt` that loses a creation time. -/
def KeepsTime (w : World) : Happening → Prop
  | .call (.changeWalletPassword lib old new) =>
    EncryptsHanded ECKey.creationTimeSeconds lib w old new
  | _ => True

/-- Rebuilding keeps the number of keys. -/
theorem careful_of_documented (w : World) (h : Happening) (hh : Documented w h) :
    Careful (fun _ : ECKey => ()) w h := by
  cases h with
  | call label =>
    cases label with
    | setDataDirectory path => exact hh
    | changeWalletPassword lib old new =>
      obtain ⟨hd, hr⟩ := hh
      refine ⟨fun wallet bytes keys hk => ?_, fun x _ keys hk => ?_⟩
      · have hlen := congrArg List.length (hd wallet bytes keys hk)
        simp only [Wallet.seen, List.length_map] at hlen
        simp [Wallet.seen, hlen]
      · have hlen := (hr _ _ _ _ hk).length_eq
        simp [Wallet.seen, hlen]
    | _ => trivial
  | _ => trivial

theorem careful_of_keepsTime (w : World) (h : Happening) (hh : Documented w h ∧ KeepsTime w h) :
    Careful ECKey.creationTimeSeconds w h := by
  obtain ⟨hd, hk⟩ := hh
  cases h with
  | call label =>
    cases label with
    | setDataDirectory path => exact hd
    | changeWalletPassword lib old new => exact ⟨hd.1, hk⟩
    | _ => trivial
  | _ => trivial

/-- Where there is no file there is no object in use, whatever one looks at. -/
theorem custody_of_absent {β γ : Type} {view : ECKey → β} {view' : ECKey → γ}
    (hc : Custody view p w) (hempty : w.files.wallets p = none) : Custody view' p w := by
  have hnone (r : WalletRef) : ¬ InCustody view p w r := by
    intro h
    have hsame := h.same
    rw [World.shown, hempty] at hsame
    cases hsame
  exact ⟨hc.path, hc.field, fun r hr => absurd (hc.current r hr) (hnone r),
    fun r f hf => absurd (hc.saving r f hf).2 (hnone r)⟩

/-- The creation time of the wallet's key, and what is done with it. -/
structure TimeKept (p : File) (t : Nat) (w : World) : Prop where
  file : w.shown ECKey.creationTimeSeconds p = some [t]
  current : Timed t w
  exported : ∀ lib array text, outcome (exportPrivateKey lib array w) = .ok text → ∃ encoded,
    text = encoded ++ "\t" ++ lib.formatDate .utc "yyyy-MM-dd'T'HH:mm:ss'Z'" (t * 1000)
  started : ∀ lib, Picks t w (after (start lib w))
  reset : ∀ lib, Picks t w (after (resetBlockchain lib w))

theorem timed_of_custody (hc : Custody ECKey.creationTimeSeconds p w)
    (hshown : w.shown ECKey.creationTimeSeconds p = some [t]) : Timed t w := by
  intro ref href
  have hsame := (hc.current ref href).same
  rw [hshown] at hsame
  exact (Option.some.inj hsame).symm

theorem timeKept_of_custody (hc : Custody ECKey.creationTimeSeconds p w)
    (hshown : w.shown ECKey.creationTimeSeconds p = some [t]) : TimeKept p t w := by
  have ht := timed_of_custody hc hshown
  refine ⟨hshown, ht, fun lib array text htext => ?_, fun lib => ?_, fun lib => ?_⟩
  · exact exported_of_timed ht htext
  · have h : Ends (start lib) w fun _ v => (picking t).rel w v := picking_start hc hshown
    exact (h ht).2
  · exact (picking_resetBlockchain w ht).2

/-- The creation time of a wallet that `createWallet` makes stays the one its key was generated with,
    over every run in which no change of password loses it. -/
theorem creation_time_kept (files : Files) (directory : Option String) (before later : List Happening)
    (lib : Lib) (password : Option Chars)
    (hdoc : Meets live Documented (World.placed files directory)
      (before ++ .call (.createWallet lib password) :: later))
    (habsent : (run live (World.placed files directory) before).files.wallets
      (walletPath directory) = none)
    (hmade : (run live (World.placed files directory)
      (before ++ [.call (.createWallet lib password)])).files.wallets (walletPath directory) ≠ none)
    (hkeep : Meets live KeepsTime (run live (World.placed files directory)
      (before ++ [.call (.createWallet lib password)])) later) :
    TimeKept (walletPath directory) lib.newKey.creationTimeSeconds
      (run live (World.placed files directory)
        (before ++ .call (.createWallet lib password) :: later)) := by
  obtain ⟨hbefore, hcreate, hlater⟩ := (meets_append _ before _).mp hdoc
  rw [run_append] at hmade hkeep ⊢
  have hc : Custody (fun _ : ECKey => ()) (walletPath directory)
      (run live (World.placed files directory) before) :=
    (custody_run before (custody_placed files directory)
      (meets_mono careful_of_documented _ _ hbefore)).1
  -- at the moment the wallet is made nothing is in use, so custody of times begins
  have htime : Custody ECKey.creationTimeSeconds (walletPath directory)
      (run live (World.placed files directory) before) := custody_of_absent hc habsent
  have hstep := (custody_step (.createWallet lib password) htime trivial htime).1
  have hshown : World.shown ECKey.creationTimeSeconds (walletPath directory)
      (live (run live (World.placed files directory) before) (.call (.createWallet lib password))) =
        some [lib.newKey.creationTimeSeconds] :=
    shown_step_createWallet password hc habsent hcreate hmade
  have hcareful := meets_mono careful_of_keepsTime _ _ (meets_and _ later hlater hkeep)
  obtain ⟨hend, hkept⟩ := custody_run later hstep hcareful
  exact timeKept_of_custody hend (hkept _ hshown)

/-! ### Concrete runs -/

theorem fair_rebuilds : Lib.fair.Rebuilds := by
  intro wallet keyCrypter bytes keys h
  cases h
  exact List.forall₂_same.mpr fun key _ => ⟨rfl, .inl rfl⟩

theorem fair_times : Lib.fair.DecryptsKeeping ECKey.creationTimeSeconds ∧ Lib.fair.Rebuilds := by
  refine ⟨fun wallet bytes keys h => ?_, fair_rebuilds⟩
  cases h
  rfl

/-- The time of a wallet that `createWallet` protected survives a change of password by a library that
    keeps it, a restart and a reset. -/
def timeTravels : List Happening :=
  [.call (.changeWalletPassword .fair (some [112]) (some [113])), .call (.stop .fair), .restart,
   .call (.start .fair), .call (.resetBlockchain .fair)]

theorem creation_time_travels :
    TimeKept (walletPath (some "data")) 1400000000 (run live (World.placed .none (some "data"))
      ([.call (.start .fair)] ++ .call (.createWallet .fair (some [112])) :: timeTravels)) :=
  creation_time_kept .none (some "data") [.call (.start .fair)] timeTravels .fair (some [112])
    ⟨trivial, fair_rebuilds, fair_times, trivial, trivial, trivial, trivial, trivial⟩ (by decide +kernel)
    (by decide +kernel)
    ⟨fun _ _ keys h => by cases h; rfl, trivial, trivial, trivial, trivial, trivial⟩

/-- bitcoinj as the source knows it: `wallet.encrypt` loses the creation times. -/
def Lib.forgetful : Lib :=
  { Lib.fair with
    encryptKeys := fun wallet _ _ =>
      .ok (wallet.keys.map fun key => { key with creationTimeSeconds := 0 })
    formatDate := fun _ _ time => toString time }

theorem forgetful_times :
    Lib.forgetful.DecryptsKeeping ECKey.creationTimeSeconds ∧ Lib.forgetful.Rebuilds := by
  refine ⟨fun wallet bytes keys h => ?_, fun wallet keyCrypter bytes keys h => ?_⟩
  · cases h
    rfl
  · cases h
    exact List.forall₂_map_right_iff.mpr (List.forall₂_same.mpr fun key _ => ⟨rfl, .inr rfl⟩)

/-- A wallet is made without a password and then protected. -/
def protectedLater : List Happening :=
  [.call (.start .fair)] ++ [.call (.createWallet .forgetful none),
    .call (.changeWalletPassword .forgetful none (some [112]))]

theorem changedPassword_loses_time :
    Meets live Documented (World.placed .none (some "data")) protectedLater ∧
    ¬ TimeKept (walletPath (some "data")) 1400000000
      (run live (World.placed .none (some "data")) protectedLater) ∧
    outcome (withPassword (some [112]) (exportPrivateKey .forgetful)
      (run live (World.placed .none (some "data")) protectedLater)) = .ok "key\t0" := by
  refine ⟨⟨trivial, forgetful_times.2, forgetful_times, trivial⟩, fun h => ?_, by decide +kernel⟩
  have htime := h.current 0 (by decide +kernel)
  revert htime
  decide +kernel

end BitcoinKit

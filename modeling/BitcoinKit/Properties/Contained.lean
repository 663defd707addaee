import BitcoinKit.Java.Leftovers

/-! Block stores and peer groups over whole runs. The manager knows of one block store and one peer group;
    whatever else is open or runs, no shutdown will reach:

        blockStore ──▶ open store      peerGroup ──▶ running group ──▶ [wallet]

    Everything open is in these fields as long as no `start` and no `createWallet` comes while they are in
    use: a second one would open its own next to what the first left there. -/

namespace BitcoinKit
open Schemes

variable {w u v : World} {lib : Lib} {ref : WalletRef}

/-! ### What is open -/

/-- A block store is open. -/
def World.opens (w : World) (store : Nat) : Prop := (w.blockStores.cell store).isOpen = true

/-- A peer group runs. -/
def World.runs (w : World) (group : Nat) : Prop := (w.peerGroups.cell group).running = true

/-- What is open is the manager's, and its peer group runs for its wallet, over an open block store. -/
structure Contained (w : World) : Prop where
  stores : ∀ store, w.opens store → w.blockStore = some store
  groups : ∀ group, w.runs group → w.peerGroup = some group
  serving : ∀ group, w.runs group → (∃ store, w.opens store) ∧
    ∃ ref, w.wallet = some ref ∧ (w.peerGroups.cell group).wallets = [ref]

/-- Nothing is open, and the manager's fields say so. -/
structure Vacant (w : World) : Prop where
  store : w.blockStore = none
  group : w.peerGroup = none
  closed : ∀ store, ¬ w.opens store
  stopped : ∀ group, ¬ w.runs group

/-- The manager's peer group runs. -/
def Up (w : World) : Prop := ∃ group, w.peerGroup = some group ∧ w.runs group

theorem Vacant.contained (h : Vacant w) : Contained w where
  stores store hs := absurd hs (h.closed store)
  groups group hg := absurd hg (h.stopped group)
  serving group hg := absurd hg (h.stopped group)

theorem Contained.vacant (h : Contained w) (hs : w.blockStore = none) (hg : w.peerGroup = none) :
    Vacant w where
  store := hs
  group := hg
  closed store ho := by
    have := h.stores store ho
    rw [hs] at this
    cases this
  stopped group hr := by
    have := h.groups group hr
    rw [hg] at this
    cases this

/-- What all this goes by stays. -/
def bearing : Along World := keeping fun w =>
  ((w.blockStore, fun store => (w.blockStores.cell store).isOpen), w.peerGroup, w.peerGroups, w.wallet)

theorem bearing_iff : bearing.rel w v ↔ v.blockStore = w.blockStore ∧
    (fun store => (v.blockStores.cell store).isOpen) = (fun store => (w.blockStores.cell store).isOpen) ∧
    v.peerGroup = w.peerGroup ∧ v.peerGroups = w.peerGroups ∧ v.wallet = w.wallet := by
  simp [bearing, keeping, and_assoc]

section Bearing

variable (h : bearing.rel w v)
include h

theorem opens_bearing (store : Nat) : v.opens store ↔ w.opens store := by
  have hopen := congrFun (bearing_iff.mp h).2.1 store
  rw [World.opens, World.opens, hopen]

theorem runs_bearing (group : Nat) : v.runs group ↔ w.runs group := by
  rw [World.runs, World.runs, (bearing_iff.mp h).2.2.2.1]

theorem Contained.along (hw : Contained w) : Contained v := by
  obtain ⟨hstore, -, hgroup, hgroups, hwallet⟩ := bearing_iff.mp h
  refine ⟨fun store hs => ?_, fun group hg => ?_, fun group hg => ?_⟩
  · rw [hstore]
    exact hw.stores store ((opens_bearing h store).mp hs)
  · rw [hgroup]
    exact hw.groups group ((runs_bearing h group).mp hg)
  · obtain ⟨⟨store, hs⟩, hserves⟩ := hw.serving group ((runs_bearing h group).mp hg)
    rw [hwallet, hgroups]
    exact ⟨⟨store, (opens_bearing h store).mpr hs⟩, hserves⟩

theorem Vacant.along (hw : Vacant w) : Vacant v := by
  obtain ⟨hstore, -, hgroup, -⟩ := bearing_iff.mp h
  refine ⟨hstore.trans hw.store, hgroup.trans hw.group, fun store hs => ?_, fun group hg => ?_⟩
  · exact hw.closed store ((opens_bearing h store).mp hs)
  · exact hw.stopped group ((runs_bearing h group).mp hg)

theorem Up.along (hw : Up w) : Up v := by
  obtain ⟨group, hg, hr⟩ := hw
  exact ⟨group, (bearing_iff.mp h).2.2.1.trans hg, (runs_bearing h group).mpr hr⟩

end Bearing

theorem bearing_tracking : IgnoresTracking bearing :=
  ⟨⟨fun _ _ _ => rfl, fun _ _ _ => rfl⟩, fun _ _ _ => rfl⟩

theorem bearing_pending (ref : WalletRef) : Moves bearing (trackPendingTransactions ref) :=
  moves_trackPending (moves_trackTransaction bearing_tracking) ref

/-! ### Running a chain -/

theorem bearing_checkpoint (store t : Nat) :
    Moves bearing (modifyBlockStore store fun s => { s with checkpoint := some t }) := by
  refine moves_modify fun w => bearing_iff.mpr ⟨rfl, funext fun s => ?_, rfl, rfl, rfl⟩
  by_cases hs : s = store
  · subst hs
    simp
  · simp [Heap.cell_write_ne hs]

theorem bearing_rebuild : Moves bearing (do
    clearTransactions lib
    let (_, wallet) ← theWallet
    checkpointFor lib wallet) := by
  refine moves_bind (moves_bind moves_theWallet fun _ => moves_bind (moves_call lib _) fun _ =>
    moves_modify fun _ => rfl) fun _ => moves_bind moves_theWallet fun _ => ?_
  refine moves_bind moves_get fun w => moves_ite ?_ (moves_pure _)
  refine moves_catchIf ?_ fun _ => moves_throw _
  refine moves_bind (moves_call lib _) fun _ => moves_bind (moves_call lib _) fun _ => ?_
  exact moves_bind (moves_deref w.blockStore) fun store => bearing_checkpoint store _

/-- A store is open, and nothing runs. -/
structure StoreTaken (w : World) : Prop where
  stores : ∀ store, w.opens store ↔ w.blockStore = some store
  stopped : ∀ group, ¬ w.runs group

theorem StoreTaken.contained (h : StoreTaken w) : Contained w where
  stores store hs := (h.stores store).mp hs
  groups group hg := absurd hg (h.stopped group)
  serving group hg := absurd hg (h.stopped group)

theorem StoreTaken.along (h : bearing.rel w v) (hw : StoreTaken w) : StoreTaken v where
  stores store := by rw [opens_bearing h, (bearing_iff.mp h).1, hw.stores store]
  stopped group hg := hw.stopped group ((runs_bearing h group).mp hg)

theorem storeTaken_opened (h : Vacant w) (f : File) : StoreTaken (w.opened f) := by
  refine ⟨fun store => ?_, h.stopped⟩
  have hfield : (w.opened f).blockStore = some w.blockStores.next := rfl
  rw [hfield, Option.some.injEq]
  by_cases hs : store = w.blockStores.next
  · subst hs
    exact iff_of_true (congrArg BlockStore.isOpen Heap.cell_alloc_self) rfl
  · refine iff_of_false (fun ho => h.closed store ?_) (Ne.symm hs)
    have hcell : (w.opened f).blockStores.cell store = w.blockStores.cell store :=
      Heap.cell_alloc_ne hs
    rw [World.opens, hcell] at ho
    exact ho

/-- The manager's peer group has the manager's wallet, and is yet to be started. -/
structure Grouped (w : World) : Prop extends StoreTaken w where
  isOpen : ∃ store, w.blockStore = some store
  group : ∃ group ref, w.peerGroup = some group ∧ w.wallet = some ref ∧
    (w.peerGroups.cell group).wallets = [ref]

theorem Grouped.along (h : bearing.rel w v) (hw : Grouped w) : Grouped v := by
  obtain ⟨hstore, -, hgroup, hgroups, hwallet⟩ := bearing_iff.mp h
  refine ⟨hw.toStoreTaken.along h, ?_, ?_⟩
  · rw [hstore]
    exact hw.isOpen
  · rw [hgroup, hgroups, hwallet]
    exact hw.group

def World.regroup (w : World) (group : Nat) (f : PeerGroup → PeerGroup) : World :=
  { w with peerGroups := w.peerGroups.write group (f (w.peerGroups.cell group)) }

@[simp] theorem cell_regroup_self {group : Nat} {f : PeerGroup → PeerGroup} :
    (w.regroup group f).peerGroups.cell group = f (w.peerGroups.cell group) := Heap.cell_write_self

/-- Other groups run on. -/
theorem runs_regroup_ne {group g : Nat} {f : PeerGroup → PeerGroup} (hg : g ≠ group) :
    (w.regroup group f).runs g ↔ w.runs g := by
  have hcell : (w.regroup group f).peerGroups.cell g = w.peerGroups.cell g := Heap.cell_write_ne hg
  rw [World.runs, World.runs, hcell]

theorem ends_onPeerGroup (site : Site) (f : PeerGroup → PeerGroup) :
    Ends (onPeerGroup lib site f) w fun
      | .ok _, v => ∃ group, w.peerGroup = some group ∧ v = w.regroup group f
      | .error _, v => v = w := by
  unfold onPeerGroup
  rw [ends_bind, ends_get]
  dsimp only
  rw [ends_bind, ends_deref]
  cases hg : w.peerGroup with
  | none => rfl
  | some group =>
    dsimp only
    rw [ends_bind, ends_call]
    cases lib.fails site with
    | some e => rfl
    | none => exact ⟨group, rfl, rfl⟩

/-- A group that is not started yet gets the wallet. -/
theorem grouped_regroup {group : Nat} (h : StoreTaken w)
    (hs : ∃ store, w.blockStore = some store) (hg : w.peerGroup = some group) (hw : w.wallet = some ref)
    (hf : (w.peerGroups.cell group).wallets = []) :
    Grouped (w.regroup group fun g => { g with wallets := g.wallets ++ [ref] }) := by
  refine ⟨⟨h.stores, fun g hr => ?_⟩, hs, group, ref, hg, hw, ?_⟩
  · by_cases hne : g = group
    · subst hne
      rw [World.runs, cell_regroup_self] at hr
      exact h.stopped g hr
    · exact h.stopped g ((runs_regroup_ne hne).mp hr)
  · rw [cell_regroup_self, hf, List.nil_append]

/-- The group runs. -/
theorem contained_running {group : Nat} (h : Grouped w) (hg : w.peerGroup = some group) :
    let v := w.regroup group fun g => { g with running := true }
    Contained v ∧ Up v := by
  intro v
  have honly {g : Nat} (hr : v.runs g) : g = group := by
    by_contra hne
    exact h.stopped g ((runs_regroup_ne hne).mp hr)
  obtain ⟨store, hs⟩ := h.isOpen
  obtain ⟨group', ref, hg', hwallet, hwallets⟩ := h.group
  obtain rfl : group' = group := Option.some.inj (hg'.symm.trans hg)
  refine ⟨⟨fun s ho => (h.stores s).mp ho, fun g hr => ?_, fun g hr => ?_⟩, group', hg, ?_⟩
  · rw [honly hr]
    exact hg
  · rw [honly hr, cell_regroup_self]
    exact ⟨⟨store, (h.stores store).mpr hs⟩, ref, hwallet, hwallets⟩
  · rw [World.runs, cell_regroup_self]

theorem ends_noWallet (hw : w.wallet = none) {Q : Except Throwable (WalletRef × Wallet) → World → Prop} :
    Ends theWallet w Q ↔ Q (.error nullPointerException) w := by
  unfold theWallet
  simp only [ends_bind, ends_get, ends_deref, hw]

/-- The network layer holds together, and if the code returns the peer group runs. -/
def Brings (r : Except Throwable Unit) (w : World) : Prop := Contained w ∧ (r = .ok () → Up w)

theorem brings_error {e : Throwable} (h : Contained w) : Brings (.error e) w := ⟨h, nofun⟩

/-- A new peer group is there, and does not run. -/
theorem storeTaken_newGroup (h : StoreTaken w) : StoreTaken { w with
    peerGroups := w.peerGroups.alloc ⟨false, []⟩
    peerGroup := some w.peerGroups.next } := by
  refine ⟨h.stores, fun group hr => ?_⟩
  by_cases hg : group = w.peerGroups.next
  · subst hg
    rw [World.runs, Heap.cell_alloc_self] at hr
    cases hr
  · rw [World.runs, Heap.cell_alloc_ne hg] at hr
    exact h.stopped group hr

/-- The group that has the wallet is started. -/
theorem brings_running (h : Grouped w) : Ends (do
    native .onBalanceChanged
    trackPendingTransactions ref
    onPeerGroup lib .startAndWait fun group => { group with running := true }
    lib.call .startBlockChainDownload) w Brings := by
  refine ends_bind_of_moves (R := bearing) (moves_native fun _ => rfl) (fun _ u hu => ?_)
    fun _ u hu => brings_error (h.along hu).contained
  refine ends_bind_of_moves (bearing_pending ref) (fun _ v hv => ?_)
    fun _ v hv => brings_error ((h.along hu).along hv).contained
  have hready := (h.along hu).along hv
  rw [ends_bind]
  refine ends_mono (ends_onPeerGroup _ _) fun r x hx => ?_
  cases r with
  | error e =>
    obtain rfl : x = v := hx
    exact brings_error hready.contained
  | ok _ =>
    obtain ⟨group, hg, rfl⟩ := hx
    obtain ⟨hcontained, hup⟩ := contained_running hready hg
    refine ends_mono (ends_of_moves (R := bearing) (moves_call lib _)) fun r y hy => ?_
    exact ⟨hcontained.along hy, fun _ => hup.along hy⟩

/-- The second half of running a chain. -/
theorem brings_attach (h : StoreTaken w) (hs : ∃ store, w.blockStore = some store) : Ends (do
    lib.call .newBlockChain
    newPeerGroup lib
    let (ref, _) ← theWallet
    onPeerGroup lib .addWallet fun group => { group with wallets := group.wallets ++ [ref] }
    native .onBalanceChanged
    trackPendingTransactions ref
    onPeerGroup lib .startAndWait fun group => { group with running := true }
    lib.call .startBlockChainDownload) w Brings := by
  unfold newPeerGroup
  simp only [bind_assoc]
  rw [ends_bind, ends_call]
  cases lib.fails .newBlockChain with
  | some e => exact brings_error h.contained
  | none =>
    dsimp only
    rw [ends_bind, ends_call]
    cases lib.fails .newPeerGroup with
    | some e => exact brings_error h.contained
    | none =>
      dsimp only
      rw [ends_bind, ends_modify]
      dsimp only
      generalize hu : ({ w with
        peerGroups := w.peerGroups.alloc ⟨false, []⟩
        peerGroup := some w.peerGroups.next } : World) = u
      have hgroup : u.peerGroup = some w.peerGroups.next := by rw [← hu]
      have hcell : u.peerGroups.cell w.peerGroups.next = ⟨false, []⟩ := by
        rw [← hu]
        exact Heap.cell_alloc_self
      have htaken : StoreTaken u := hu ▸ storeTaken_newGroup h
      have hstore : ∃ store, u.blockStore = some store := by
        rw [← hu]
        exact hs
      cases hw : u.wallet with
      | none =>
        rw [ends_bind, ends_noWallet hw]
        exact brings_error htaken.contained
      | some ref =>
        rw [ends_bind, ends_theWallet hw]
        dsimp only
        rw [ends_bind]
        refine ends_mono (ends_onPeerGroup _ _) fun r t ht => ?_
        cases r with
        | error e =>
          obtain rfl : t = u := ht
          exact brings_error htaken.contained
        | ok _ =>
          obtain ⟨group, hg, rfl⟩ := ht
          obtain rfl : group = w.peerGroups.next := Option.some.inj (hg.symm.trans hgroup)
          exact brings_running (grouped_regroup htaken hstore hg hw (congrArg PeerGroup.wallets hcell))

theorem brings_startBlockchain (h : Vacant w) : Ends (startBlockchain lib) w Brings := by
  unfold startBlockchain
  rw [ends_bind, ends_get]
  dsimp only
  rw [ends_bind]
  refine ends_mono (ends_newBlockStore _) fun r u hu => ?_
  cases r with
  | error e =>
    rcases hu with rfl | ⟨-, rfl⟩
    · exact brings_error h.contained
    · exact brings_error (Vacant.contained ⟨h.store, h.group, h.closed, h.stopped⟩)
  | ok _ =>
    obtain ⟨-, rfl⟩ := hu
    have htaken := storeTaken_opened h (getBlockchainFile w)
    have hrebuild : Moves bearing (if w.files.chains (getBlockchainFile w) then pure () else do
        clearTransactions lib
        let (_, wallet) ← theWallet
        checkpointFor lib wallet : Java Unit) := moves_ite (moves_pure _) bearing_rebuild
    refine ends_bind_of_moves hrebuild (fun _ t ht => ?_)
      fun _ t ht => brings_error (htaken.along ht).contained
    refine brings_attach (htaken.along ht) ⟨w.blockStores.next, ?_⟩
    exact (bearing_iff.mp ht).1

/-! ### Shutting it down -/

/-- Everything is stopped; a store may still be open. -/
structure Halted (w : World) : Prop where
  stores : ∀ store, w.opens store → w.blockStore = some store
  stopped : ∀ group, ¬ w.runs group

theorem Halted.contained (h : Halted w) : Contained w where
  stores := h.stores
  groups group hg := absurd hg (h.stopped group)
  serving group hg := absurd hg (h.stopped group)

theorem halted_regroup {group : Nat} {f : PeerGroup → PeerGroup}
    (hs : ∀ store, w.opens store → w.blockStore = some store)
    (ho : ∀ g, w.runs g → g = group) (hf : (f (w.peerGroups.cell group)).running = false) :
    Halted (w.regroup group f) := by
  refine ⟨hs, fun g hr => ?_⟩
  by_cases hg : g = group
  · subst hg
    rw [World.runs, cell_regroup_self, hf] at hr
    cases hr
  · exact hg (ho g ((runs_regroup_ne hg).mp hr))

/-- The peer group, which does not run, is let go. -/
theorem halts_letGo (h : Halted w) : Ends (do
    let (ref, _) ← theWallet
    onPeerGroup lib .removeWallet fun group => { group with wallets := group.wallets.erase ref }
    modify fun w => { w with peerGroup := none } : Java Unit) w fun r v =>
      Contained v ∧ (r = .ok () → Halted v ∧ v.peerGroup = none) := by
  cases hw : w.wallet with
  | none =>
    rw [ends_bind, ends_noWallet hw]
    exact ⟨h.contained, nofun⟩
  | some ref =>
    rw [ends_bind, ends_theWallet hw]
    dsimp only
    rw [ends_bind]
    refine ends_mono (ends_onPeerGroup _ _) fun r u hu => ?_
    cases r with
    | error e =>
      obtain rfl : u = w := hu
      exact ⟨h.contained, nofun⟩
    | ok _ =>
      obtain ⟨group, -, rfl⟩ := hu
      have hremoved : Halted (w.regroup group fun g => { g with wallets := g.wallets.erase ref }) :=
        halted_regroup h.stores (fun g hr => absurd hr (h.stopped g))
          (Bool.eq_false_iff.mpr (h.stopped group))
      have hlet : Halted { w.regroup group (fun g => { g with wallets := g.wallets.erase ref }) with
          peerGroup := none } := ⟨hremoved.stores, hremoved.stopped⟩
      exact ⟨hlet.contained, fun _ => ⟨hlet, rfl⟩⟩

/-- The peer group is stopped and let go. -/
theorem halts_detach (h : Contained w) : Ends (if w.peerGroup.isSome then do
      onPeerGroup lib .stopAndWait fun group => { group with running := false }
      let (ref, _) ← theWallet
      onPeerGroup lib .removeWallet fun group => { group with wallets := group.wallets.erase ref }
      modify fun w => { w with peerGroup := none }
    else pure () : Java Unit) w fun r v => Contained v ∧ (r = .ok () → Halted v ∧ v.peerGroup = none) := by
  rw [ends_ite]
  split
  · next hsome =>
    rw [ends_bind]
    refine ends_mono (ends_onPeerGroup _ _) fun r u hu => ?_
    cases r with
    | error e =>
      obtain rfl : u = w := hu
      exact ⟨h, nofun⟩
    | ok _ =>
      obtain ⟨group, hg, rfl⟩ := hu
      exact halts_letGo (halted_regroup h.stores
        (fun g hr => Option.some.inj ((h.groups g hr).symm.trans hg)) rfl)
  · next hnone =>
    have hg : w.peerGroup = none := by simpa using hnone
    have hhalted : Halted w := by
      refine ⟨h.stores, fun group hr => ?_⟩
      have := h.groups group hr
      rw [hg] at this
      cases this
    exact ⟨h, fun _ => ⟨hhalted, hg⟩⟩

/-- Nothing is left open by a shutdown that returns. -/
theorem halts_shutdownBlockchain (h : Contained w) : Ends (shutdownBlockchain lib) w fun r v =>
    Contained v ∧ (r = .ok () → Vacant v) := by
  unfold shutdownBlockchain
  rw [ends_bind, ends_get]
  dsimp only
  rw [ends_bind]
  refine ends_mono (halts_detach h) fun r u ⟨hu, hhalts⟩ => ?_
  cases r with
  | error e => exact ⟨hu, nofun⟩
  | ok _ =>
    obtain ⟨hhalted, hgroup⟩ := hhalts rfl
    dsimp only
    rw [ends_bind, ends_get]
    dsimp only
    cases hs : u.blockStore with
    | none => exact ⟨hu, fun _ => hu.vacant hs hgroup⟩
    | some store =>
      dsimp only
      rw [ends_bind, ends_call]
      cases lib.fails .closeBlockStore with
      | some e => exact ⟨hu, nofun⟩
      | none =>
        have hvacant : Vacant { u with
            blockStores := u.blockStores.write store { u.blockStores.cell store with isOpen := false }
            blockStore := none } := by
          refine ⟨rfl, hgroup, fun s ho => ?_, hhalted.stopped⟩
          rw [World.opens] at ho
          dsimp only at ho
          by_cases hne : s = store
          · subst hne
            rw [Heap.cell_write_self] at ho
            cases ho
          · rw [Heap.cell_write_ne hne] at ho
            exact hne (Option.some.inj ((hhalted.stores s ho).symm.trans hs))
        exact ⟨hvacant.contained, fun _ => hvacant⟩

/-! ### The operations -/

/-- Code that leaves the network layer alone, before code that brings it up. -/
theorem brings_after {α : Type} {m : Java α} {f : α → Java Unit} (h : Vacant w) (hm : Moves bearing m)
    (hf : ∀ a v, Vacant v → Ends (f a) v Brings) : Ends (m >>= f) w Brings :=
  ends_bind_of_moves hm (fun a v hv => hf a v (h.along hv))
    fun _ _ hv => brings_error (h.along hv).contained

theorem bearing_cleanup (lib : Lib) (ref : WalletRef) : Moves bearing (cleanup lib ref) :=
  moves_bind (moves_call lib _) fun _ => moves_modify fun _ => rfl

theorem brings_useWallet (h : Vacant w) : Ends (useWallet lib ref) w Brings := by
  unfold useWallet
  rw [ends_bind, ends_modify]
  dsimp only
  have htaken : Vacant { w with wallet := some ref } := ⟨h.store, h.group, h.closed, h.stopped⟩
  refine brings_after htaken (moves_call lib _) fun _ v hv => ?_
  refine brings_after hv moves_get fun _ v hv => ?_
  refine brings_after hv (moves_modify fun _ => rfl) fun _ v hv => ?_
  refine brings_after hv (moves_getWalletAddress lib) fun _ v hv => ?_
  refine brings_after hv (moves_modify fun _ => rfl) fun _ v hv => ?_
  rw [ends_bind]
  refine ends_mono (brings_startBlockchain hv) fun r u ⟨hu, hup⟩ => ?_
  cases r with
  | error e => exact brings_error hu
  | ok _ =>
    refine ends_mono (ends_of_moves (bearing_cleanup lib ref)) fun r t ht => ?_
    exact ⟨hu.along ht, fun _ => (hup rfl).along ht⟩

theorem brings_start (h : Vacant w) : Ends (start lib) w Brings := by
  unfold start
  refine brings_after h moves_get fun _ v hv => ?_
  refine brings_after hv (moves_ite (moves_setTestingNetwork (fun _ _ => rfl) false) (moves_pure _))
    fun _ v hv => ?_
  dsimp only
  rw [ends_bind, ends_modify]
  dsimp only
  generalize hx : ({ v with wallet := none, walletFile := some _ } : World) = x
  have hvacant : Vacant x := by
    rw [← hx]
    exact ⟨hv.store, hv.group, hv.closed, hv.stopped⟩
  rw [ends_ite]
  split
  · exact brings_error hvacant.contained
  · rw [ends_catchIf]
    have hload := moves_loadWalletFromFile (R := bearing) (fun _ _ => rfl) lib
    refine ends_mono (brings_after hvacant (hload _) fun _ v hv => brings_useWallet hv)
      fun r y hy => ?_
    cases r with
    | ok _ => exact hy
    | error e =>
      dsimp only
      split
      · exact brings_error hy.1
      · exact hy

theorem bearing_rekeying : IgnoresRekeying bearing := ⟨⟨fun _ _ _ => rfl⟩, fun _ _ _ _ => rfl⟩

theorem bearing_chainFile : Moves bearing (deleteBlockchainDataFile lib) := by
  refine moves_modify fun w => ?_
  split <;> rfl

theorem brings_createWallet (password : Option CharArrayRef) (h : Vacant w) :
    Ends (createWallet lib password) w Brings := by
  unfold createWallet
  refine brings_after h moves_get fun u v hv => ?_
  cases u.walletFile with
  | none => exact brings_error hv.contained
  | some walletFile =>
    dsimp only
    rw [ends_ite]
    split
    · exact brings_error hv.contained
    · refine brings_after hv (moves_bind moves_get fun _ => moves_bind (moves_modify fun _ => rfl)
        fun _ => moves_pure _) fun ref v hv => ?_
      refine brings_after hv (moves_modify fun _ => rfl) fun _ v hv => ?_
      refine brings_after hv (moves_modify fun _ => rfl) fun _ v hv => ?_
      refine brings_after hv (moves_ite ?_ (moves_pure _)) fun _ v hv => ?_
      · refine moves_bind (moves_encryptWallet bearing_rekeying (fun _ _ => rfl) lib password ref) fun _ => ?_
        exact moves_bind moves_get fun _ => moves_bind (moves_firstKey _) fun _ => moves_modify fun _ => rfl
      · refine brings_after hv (moves_saveToFile (fun _ _ => rfl) lib ref walletFile) fun _ v hv => ?_
        exact brings_after hv bearing_chainFile fun _ v hv => brings_useWallet hv

/-- A stop that returns leaves nothing open. -/
theorem halts_stop (h : Contained w) : Ends (stop lib) w fun r v => Contained v ∧ (r = .ok () → Vacant v) := by
  unfold stop
  rw [ends_catchIf, ends_bind]
  refine ends_mono (halts_shutdownBlockchain h) fun r u ⟨hu, hvacant⟩ => ?_
  cases r with
  | error e =>
    dsimp only
    split
    · exact ⟨hu, nofun⟩
    · exact ⟨hu, nofun⟩
  | ok _ =>
    dsimp only
    rw [ends_bind, ends_get]
    dsimp only
    refine ends_mono (ends_of_moves (R := bearing) ?_) fun r v hv => ?_
    · split
      · exact moves_bind (moves_deref _) fun _ => moves_saveToFile (fun _ _ => rfl) lib _ _
      · exact moves_pure _
    · cases r with
      | ok _ => exact ⟨hu.along hv, fun _ => (hvacant rfl).along hv⟩
      | error e =>
        dsimp only
        split
        · exact ⟨hu.along hv, nofun⟩
        · exact ⟨hu.along hv, nofun⟩

theorem brings_resetBlockchain (h : Contained w) : Ends (resetBlockchain lib) w Brings := by
  unfold resetBlockchain
  rw [ends_catchIf, ends_bind]
  refine ends_mono (halts_shutdownBlockchain h) fun r u ⟨hu, hvacant⟩ => ?_
  cases r with
  | error e =>
    dsimp only
    split
    · exact brings_error hu
    · exact brings_error hu
  | ok _ =>
    dsimp only
    refine ends_mono (Q := Brings) ?_ fun r v hv => ?_
    · refine brings_after (hvacant rfl) bearing_chainFile fun _ v hv => ?_
      refine brings_after hv (moves_modify fun _ => rfl) fun _ v hv => ?_
      refine brings_after hv moves_get fun x v hv => ?_
      refine brings_after hv (moves_forIn (fun tx _ => moves_bind
        (moves_stopTrackingTransaction bearing_tracking tx) fun _ => moves_pure _) _ _) fun _ v hv => ?_
      exact brings_startBlockchain hv
    · cases r with
      | ok _ => exact hv
      | error e =>
        dsimp only
        split
        · exact brings_error hv.1
        · exact hv

/-! ### Runs -/

theorem bearing_traffic : IgnoresTraffic bearing where
  keys _ _ _ := rfl
  built _ _ := rfl
  waiting _ _ := rfl
  stored _ _ _ := rfl
  committed _ _ _ _ := rfl
  confidence _ _ _ := rfl
  news _ _ _ := rfl
  secrets _ _ := rfl
  checkpointsPath _ _ := rfl
  bookkeeping _ _ _ _ := rfl
  received w ref hash inputs type := by
    rw [World.receive]
    split <;> rfl

theorem bearing_payments : IgnoresPayments bearing where
  toIgnoresSending := bearing_traffic.toIgnoresSending
  numbered _ _ := rfl
  loaded _ _ _ := rfl
  removed _ _ := rfl
  reports _ _ _ := rfl

/-- `start` and `createWallet` come only while the manager holds no block store and no peer group. -/
def StartsVacant (w : World) : Label → Prop
  | .start _ => w.blockStore = none ∧ w.peerGroup = none
  | .createWallet _ _ => w.blockStore = none ∧ w.peerGroup = none
  | _ => True

instance (w : World) (l : Label) : Decidable (StartsVacant w l) := by
  cases l <;> unfold StartsVacant <;> infer_instance

/-- What a call comes to, its bookkeeping included. -/
theorem ends_onBehalf {code : Java Unit} {Q : Except Throwable Unit → World → Prop}
    (h : Ends code { w with activity := 0 } Q) : Ends (onBehalfOf 0 code) w Q := by
  unfold onBehalfOf
  rw [ends_bind, ends_modify]
  exact h

theorem ends_bringing {l : Label} (hl : l.bringsUp) (h : Contained w) (hok : StartsVacant w l) :
    Ends l.code w Brings := by
  have hcontained : Contained { w with activity := 0 } := Contained.along (w := w) rfl h
  cases l with
  | start lib =>
    exact ends_onBehalf (brings_start (hcontained.vacant hok.1 hok.2))
  | createWallet lib password =>
    have hvacant : Vacant { w with activity := 0 } := hcontained.vacant hok.1 hok.2
    refine ends_onBehalf (brings_after hvacant (moves_newCharArray (fun _ _ => rfl) password)
      fun array v hv => brings_createWallet array hv)
  | resetBlockchain lib => exact ends_onBehalf (brings_resetBlockchain hcontained)
  | _ => cases hl

/-- Everything else leaves the network layer alone. -/
theorem bearing_label {l : Label} (hb : l.bringsUp = false) (hs : ∀ lib, l ≠ .stop lib) :
    Moves bearing l.code := by
  have hbehalf {code : Java Unit} (hm : Moves bearing code) : Moves bearing (onBehalfOf 0 code) :=
    moves_onBehalfOf (fun _ _ _ _ => rfl) 0 hm
  cases l with
  | start lib => cases hb
  | createWallet lib password => cases hb
  | resetBlockchain lib => cases hb
  | stop lib => exact absurd rfl (hs lib)
  | setDataDirectory path => exact hbehalf (moves_setDataDirectory (fun _ _ => rfl) path)
  | deleteBlockchainDataFile lib => exact hbehalf bearing_chainFile
  | exportWallet lib path =>
    exact hbehalf (moves_bind moves_theWallet fun _ => moves_saveToFile (fun _ _ => rfl) lib _ _)
  | changeWalletPassword lib old new =>
    refine hbehalf (moves_withPassword (fun _ _ => rfl) old fun oldArray =>
      moves_withPassword (fun _ _ => rfl) new fun newArray => ?_)
    exact moves_changeWalletPassword ⟨bearing_rekeying.toIgnoresKeyUse, ⟨fun _ _ _ _ => rfl⟩⟩
      (fun _ _ => rfl) lib _ _
  | _ =>
    exact moves_offLifecycle bearing_traffic bearing_payments bearing_tracking (fun _ _ => rfl)
      (fun _ => moves_native fun _ => rfl) _ rfl

theorem contained_step (l : Label) (h : Contained w) (hok : StartsVacant w l) : Contained (step w l) := by
  cases hb : l.bringsUp with
  | true => exact (ends_bringing hb h hok).1
  | false =>
    by_cases hs : ∃ lib, l = .stop lib
    · obtain ⟨lib, rfl⟩ := hs
      have hstop : Ends (onBehalfOf 0 (stop lib)) w fun _ v => Contained v :=
        ends_onBehalf (ends_mono (halts_stop (Contained.along (w := w) rfl h)) fun _ _ hv => hv.1)
      exact hstop
    · exact h.along (bearing_label hb (fun lib he => hs ⟨lib, he⟩) w)

theorem contained_initial (files : Files) : Contained (World.initial files) :=
  Vacant.contained ⟨rfl, rfl, nofun, nofun⟩

/-- Over every run in which the manager is started only while it holds nothing: all that is open is in its
    fields, and its peer group runs for its wallet over an open store. A stop that returns closes all of
    it, and a start that returns brings all of it up. -/
theorem network_contained (files : Files) (ls : List Label)
    (hm : Meets step StartsVacant (World.initial files) ls) :
    let w := run step (World.initial files) ls
    Contained w ∧ (∀ lib, outcome (stop lib w) = .ok () → Vacant (after (stop lib w))) ∧
      ∀ l : Label, l.bringsUp → StartsVacant w l → outcome (l.code w) = .ok () → Up (step w l) := by
  intro w
  have hw : Contained w :=
    inv_meets (fun _ l h hok => contained_step l h hok) _ ls (contained_initial files) hm
  exact ⟨hw, fun lib hstop => (halts_stop hw).2 hstop,
    fun l hl hok hreturn => (ends_bringing hl hw hok).2 hreturn⟩

/-- A wallet is made, the chain is reset, the manager stopped and started again. -/
def startedAgain : List Label :=
  [.start .fair, .createWallet .fair none, .resetBlockchain .fair, .stop .fair, .start .fair]

theorem network_contained_again :
    let w := run step (World.initial .none) startedAgain
    Contained w ∧ Vacant (after (stop .fair w)) ∧ w.blockStores.next = 3 := by
  intro w
  obtain ⟨hw, hstop, -⟩ := network_contained .none startedAgain (by decide +kernel)
  exact ⟨hw, hstop .fair (by decide +kernel), by decide +kernel⟩

/-- A second start while the first one's network runs: its block store stays open for good. -/
example : ¬ Contained
    (run step (World.initial .none) [.start .fair, .createWallet .fair none, .start .fair]) := by
  intro h
  have hstore := h.stores 0 (by unfold World.opens; decide +kernel)
  revert hstore
  decide +kernel

end BitcoinKit

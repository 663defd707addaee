import BitcoinKit.Java.Leftovers

/-! Trying again after a call that failed. `start`, `createWallet` and `resetBlockchain` run a chain and
    take nothing back when they fail: what they opened stays in the manager's fields, for its next
    shutdown to close.

        resetBlockchain   begins with a shutdown: repeated, it comes to what it would have come to
        createWallet      is refused once it has saved the wallet
        start             is refused once it has opened the chain file, which it then keeps locked -/

namespace BitcoinKit
open Schemes

/-- The calls that run a chain. -/
inductive Opening where
  | start
  | createWallet (password : Option Chars)
  | resetBlockchain

namespace Opening

def label : Opening → Lib → Label
  | start, lib => .start lib
  | createWallet password, lib => .createWallet lib password
  | resetBlockchain, lib => .resetBlockchain lib

/-- The block store that the call closes before it opens one. -/
def spared : Opening → World → Option Nat
  | resetBlockchain, w => w.blockStore
  | _, _ => none

/-- What the call hears of the chain file if another block store holds it. -/
def lock (o : Opening) (text : String) (w : World) : Option String :=
  if w.locked (o.spared w) w.places.chain then some text else none

/-- The call, made to a library that refuses a locked chain file. -/
def call (o : Opening) (lib : Lib) (text : String) (w : World) :
    EStateM.Result Throwable World Unit :=
  (o.label (lib.heeding (o.lock text w))).code w

/-- The call comes to the same from `v` as from `w`, now that nothing fails. -/
def Repeats (o : Opening) (text : String) (w v : World) : Prop :=
  ∀ lib : Lib, lib.Works → settled (o.call lib text v) = settled (o.call lib text w)

end Opening

/-- What was opened between `w` and `v` is open still, and the manager's. -/
def StaysOpen (w v : World) : Prop :=
  (∀ store, w.blockStores.next ≤ store → store < v.blockStores.next →
    (v.blockStores.cell store).isOpen ∧ v.blockStore = some store) ∧
  ∀ group, w.peerGroups.next ≤ group → group < v.peerGroups.next → v.peerGroup = some group

/-- Whether the call, repeated from `v`, comes to what it would have come to from `w`. -/
def Opening.Retry (o : Opening) (text : String) (w v : World) : Prop :=
  match o with
  | .resetBlockchain => o.Repeats text w v
  | .createWallet _ => o.Repeats text w v ↔ ∀ f ∈ w.walletFile, v.files.wallets f = w.files.wallets f
  | .start => (w.blockStores.next < v.blockStores.next → ¬ o.Repeats text w v) ∧
      (v.blockStores.next = w.blockStores.next →
        w.files.chains w.places.chain ∨ ¬ v.files.chains w.places.chain → o.Repeats text w v)

variable {w u v : World} {lib : Lib} {lock : Option String} {text : String} {reached : Prop}

/-! ### What stays open -/

theorem staysOpen_of_left (h : Left reached u v) (hs : u.blockStores.next = w.blockStores.next)
    (hg : u.peerGroups.next = w.peerGroups.next) : StaysOpen w v := by
  have hnetwork (hn : v.network = u.network) : StaysOpen w v := by
    simp only [World.network, Prod.mk.injEq] at hn
    obtain ⟨⟨-, hnext, -⟩, -, hnextGroup⟩ := hn
    refine ⟨fun store hle hlt => ?_, fun group hle hlt => ?_⟩
    · omega
    · omega
  rcases h.stage with ⟨-, hn⟩ | ⟨-, -, hn | ho⟩
  · exact hnetwork hn
  · exact hnetwork hn
  · refine ⟨fun store hle hlt => ?_, fun group hle hlt => ?_⟩
    · have hnext := ho.next
      obtain rfl : store = u.blockStores.next := by omega
      have hshape := congrFun ho.shapes u.blockStores.next
      rw [Function.update_self] at hshape
      exact ⟨(Prod.mk.inj hshape).2, ho.store⟩
    · rcases ho.group with hsame | hnew
      · have := (Prod.mk.inj hsame).2
        omega
      · obtain ⟨hfield, hnext⟩ := Prod.mk.inj hnew
        obtain rfl : group = u.peerGroups.next := by omega
        exact hfield

/-! ### What is said the second time -/

/-- The lock on the chain file, taken by the block store of an attempt. -/
theorem locked_opened (h : Opened w v) : v.locked none w.places.chain := by
  refine locked_iff.mpr ⟨w.blockStores.next, ?_, by simp, ?_⟩
  · rw [h.next]
    exact Nat.lt_succ_self _
  · rw [h.shapes, Function.update_self]

theorem heeding_opens (h : (lib.heeding lock).fails .openBlockStore = none) : lock = none := by
  cases lock with
  | none => rfl
  | some text => simp [Lib.heeding, Lib.failingAt] at h

/-- A chain file that is there already. -/
theorem withChain_self {files : Files} {f : File} (h : files.chains f = true) :
    files.withChain f = files := by
  unfold Files.withChain
  rw [← h, Function.update_eq_self]

@[simp] theorem withoutChain_withChain (files : Files) (f : File) :
    (files.withChain f).withoutChain f = files.withoutChain f := by
  simp [Files.withChain, Files.withoutChain]

@[simp] theorem withoutChain_withoutChain (files : Files) (f : File) :
    (files.withoutChain f).withoutChain f = files.withoutChain f := by
  simp [Files.withoutChain]

@[simp] theorem withChain_withoutChain (files : Files) (f : File) :
    (files.withoutChain f).withChain f = files.withChain f := by
  simp [Files.withChain, Files.withoutChain]

theorem lock_congr {o : Opening}
    (h : v.locked (o.spared v) v.places.chain = w.locked (o.spared w) w.places.chain) :
    o.lock text v = o.lock text w := by
  unfold Opening.lock
  rw [h]

section Start

theorem settled_start (hl : lib.Works) : settled (Opening.start.call lib text w) =
    started (lib.heeding (Opening.start.lock text w)) (Opening.start.lock text w) w.files w.places :=
  serves_start (w := { w with activity := 0 }) (hl.heeding _)

theorem start_repeats (hfiles : v.files = w.files) (hplaces : v.places = w.places)
    (hn : v.network = w.network) : Opening.start.Repeats text w v := by
  simp only [World.network, Prod.mk.injEq] at hn
  have hlock : Opening.start.lock text v = Opening.start.lock text w := by
    refine lock_congr ?_
    rw [hplaces]
    exact locked_congr hn.1.2.1 hn.1.2.2
  intro lib hl
  rw [settled_start hl, settled_start hl, hlock, hfiles, hplaces]

/-- A start that opened a block store is refused when it is repeated. -/
theorem start_refused (hr : startReached (lib.heeding (Opening.start.lock text w)) w)
    (hplaces : v.places = w.places) (hfiles : v.files = w.files.withChain w.places.chain)
    (ho : Opened w v) : ¬ Opening.start.Repeats text w v := by
  obtain ⟨hopens, image, himage, hkeys⟩ := hr
  have hfree : Opening.start.lock text w = none := heeding_opens hopens
  have hlocked : v.locked none v.places.chain = true := by
    rw [hplaces]
    exact locked_opened ho
  have htaken : Opening.start.lock text v = some text := by
    simp only [Opening.lock, Opening.spared]
    exact if_pos hlocked
  intro h
  have hsame := h .fair fair_works
  rw [settled_start fair_works, settled_start fair_works, hfree, htaken, hplaces] at hsame
  have hloaded : v.files.wallets w.places.wallet = some image := by
    rw [hfiles]
    exact himage
  have hread : image.reread.keys ≠ [] := hkeys
  simp only [started, hloaded, himage, usedWallet, if_neg hread, Prod.mk.injEq] at hsame
  exact absurd hsame.1 (by simp)

theorem start_retry (w : World) :
    StaysOpen w (after (Opening.start.call lib text w)) ∧
      Opening.start.Retry text w (after (Opening.start.call lib text w)) := by
  have hends : Ends (start (lib.heeding (Opening.start.lock text w))) { w with activity := 0 }
      fun _ v => StaysOpen w v ∧ Opening.start.Retry text w v := by
    refine ends_mono left_start fun r v hv => ⟨staysOpen_of_left hv rfl rfl, ?_⟩
    rcases hv.stage with ⟨hfiles, hn⟩ | ⟨hr, hfiles, hn | ho⟩
    · have hnext : v.blockStores.next = w.blockStores.next := congrArg (fun n => n.1.2.1) hn
      refine ⟨fun hlt => by omega, fun _ _ => ?_⟩
      exact start_repeats hfiles hv.places hn
    · have hnext : v.blockStores.next = w.blockStores.next := congrArg (fun n => n.1.2.1) hn
      refine ⟨fun hlt => by omega, fun _ hchain => ?_⟩
      have hthere : v.files.chains w.places.chain = true := by
        rw [hfiles]
        exact Function.update_self ..
      rcases hchain with hchain | hmissing
      · exact start_repeats (hfiles.trans (withChain_self hchain)) hv.places hn
      · exact absurd hthere hmissing
    · have hnext : v.blockStores.next = w.blockStores.next + 1 := ho.next
      refine ⟨fun _ => ?_, fun hsame => by omega⟩
      exact start_refused hr hv.places hfiles ⟨ho.store, ho.next, ho.shapes, ho.group⟩
  exact hends

end Start

section Create

variable {password : Option Chars}

theorem settled_createWallet (hl : lib.Works) :
    settled ((Opening.createWallet password).call lib text w) =
      created (lib.heeding ((Opening.createWallet password).lock text w))
        ((Opening.createWallet password).lock text w) w.walletFile w.files w.places password := by
  cases password with
  | none => exact serves_createWallet (w := { w with activity := 0 }) (hl.heeding _) none
  | some chars =>
    let arrays := w.secrets.charArrays.alloc chars
    have hserves := serves_createWallet
      (w := { w with activity := 0, secrets := { w.secrets with charArrays := arrays } })
      (hl.heeding ((Opening.createWallet (some chars)).lock text w)) (some w.secrets.charArrays.next)
    have hchars : arrays.cell w.secrets.charArrays.next = chars := Heap.cell_alloc_self
    exact hserves.trans (by rw [← hchars]; rfl)

theorem createWallet_repeats (h : unmade.rel w v) :
    (Opening.createWallet password).Repeats text w v := by
  simp only [unmade, keeping, World.network, Prod.mk.injEq] at h
  obtain ⟨hfiles, hplaces, ⟨⟨-, hnext, hshapes⟩, -, -⟩, hfile⟩ := h
  have hlock : (Opening.createWallet password).lock text v =
      (Opening.createWallet password).lock text w := by
    refine lock_congr ?_
    rw [hplaces]
    exact locked_congr hnext hshapes
  intro lib hl
  rw [settled_createWallet hl, settled_createWallet hl, hlock, hfiles, hplaces, hfile]

theorem made_fair (lock : Option String) (password : Option Chars) : ∃ wallet,
    madeWallet (Lib.fair.heeding lock) password = .ok wallet ∧ wallet.bareImage.keys ≠ [] := by
  cases lock with
  | none => cases password with
    | none => exact ⟨_, rfl, List.cons_ne_nil _ _⟩
    | some chars => exact ⟨_, rfl, List.cons_ne_nil _ _⟩
  | some text => cases password with
    | none => exact ⟨_, rfl, List.cons_ne_nil _ _⟩
    | some chars => exact ⟨_, rfl, List.cons_ne_nil _ _⟩

/-- Once it has saved a wallet, `createWallet` refuses to make another. -/
theorem createWallet_refused {f : File} (hw : w.walletFile = some f) (hnone : w.files.wallets f = none)
    (hv : v.walletFile = some f) (hsome : (v.files.wallets f).isSome) :
    ¬ (Opening.createWallet password).Repeats text w v := by
  intro h
  have hsame := congrArg Prod.fst (h .fair fair_works)
  rw [settled_createWallet fair_works, settled_createWallet fair_works, hw, hv] at hsame
  obtain ⟨wallet, hmade, hkeys⟩ := made_fair ((Opening.createWallet password).lock text w) password
  simp only [created, hsome, hnone, hmade, usedWallet, if_neg hkeys, Option.isSome_none, if_true,
    Bool.false_eq_true, if_false] at hsame
  split at hsame
  · have hclass : existingWalletExceptionClass = blockStoreExceptionClass :=
      congrArg Throwable.className (Except.error.inj hsame)
    exact absurd hclass (by decide)
  · cases hsame

theorem createWallet_retry (w : World) :
    StaysOpen w (after ((Opening.createWallet password).call lib text w)) ∧
      (Opening.createWallet password).Retry text w
        (after ((Opening.createWallet password).call lib text w)) := by
  have hends : Ends (withPassword password
      (createWallet (lib.heeding ((Opening.createWallet password).lock text w)))) { w with activity := 0 }
      fun _ v => StaysOpen w v ∧ (Opening.createWallet password).Retry text w v := by
    refine ends_withPassword password fun array s => ?_
    refine ends_mono (left_createWallet array) ?_
    rintro r v (hv | ⟨f, u, hw, hnone, hsome, hplaces, hn, hfield, hleft⟩)
    · have hsame : unmade.rel w v := hv
      simp only [unmade, keeping, Prod.mk.injEq] at hv
      obtain ⟨hfiles, hplaces, hn, -⟩ := hv
      have hleft : Left False w v := ⟨hplaces, .inl ⟨hfiles, hn⟩⟩
      have hkept : ∀ f ∈ w.walletFile, v.files.wallets f = w.files.wallets f := by
        rintro f -
        rw [hfiles]
      exact ⟨staysOpen_of_left hleft rfl rfl, iff_of_true (createWallet_repeats hsame) hkept⟩
    · have hstores : u.blockStores.next = w.blockStores.next := congrArg (fun n => n.1.2.1) hn
      have hgroups : u.peerGroups.next = w.peerGroups.next := congrArg (fun n => n.2.2) hn
      have hsaved : (v.files.wallets f).isSome := by
        rcases hleft.stage with ⟨hfiles, -⟩ | ⟨-, hfiles, -⟩
        · rw [hfiles]
          exact hsome
        · rw [hfiles]
          exact hsome
      refine ⟨staysOpen_of_left hleft hstores hgroups, iff_of_false ?_ fun h => ?_⟩
      · exact createWallet_refused hw hnone hfield hsaved
      · have hkept : v.files.wallets f = none := (h f hw).trans hnone
        rw [hkept] at hsaved
        cases hsaved
  exact hends

end Create

section Reset

/-- A reset leaves the wallet in use, and of its content all but the transactions. -/
def essential : Along World := keeping fun w => (w.wallet, w.places, fun ref =>
  ((w.wallets.cell ref).keys, (w.wallets.cell ref).keyCrypter, (w.wallets.cell ref).lastWalletChangeDate))

theorem essential_resetBlockchain : Moves essential (resetBlockchain lib) := by
  have hchain : IgnoresChain essential := ⟨fun _ _ _ _ _ => rfl, fun _ _ => rfl, fun _ => rfl⟩
  have htracking : IgnoresTracking essential :=
    ⟨⟨fun _ _ _ => rfl, fun _ _ _ => rfl⟩, fun _ _ _ => rfl⟩
  have hclear : Moves essential (clearTransactions lib) := by
    refine moves_bind moves_theWallet fun ⟨ref, _⟩ => moves_bind (moves_call lib _) fun _ => ?_
    refine moves_modify fun w => ?_
    simp only [essential, keeping, Prod.mk.injEq]
    refine ⟨trivial, rfl, funext fun r => ?_⟩
    by_cases hr : r = ref
    · subst hr
      simp
    · simp [Heap.cell_write_ne hr]
  refine moves_rerunChain (moves_shutdownBlockchain hchain.toIgnoresNetwork lib)
    (moves_deleteBlockchainDataFile hchain lib) (fun _ => rfl)
    (moves_stopTrackingTransaction htracking) ?_
  exact moves_runChain hchain hclear (moves_trackPending (moves_trackTransaction htracking))

theorem settled_resetBlockchain (hl : lib.Works) :
    settled (Opening.resetBlockchain.call lib text w) =
      rerun (lib.heeding (Opening.resetBlockchain.lock text w)) (Opening.resetBlockchain.lock text w)
        w.files w.places (w.wallet.map fun ref => w.imageOf (w.wallets.cell ref)) w.peerGroup.isSome :=
  serves_resetBlockchain (w := { w with activity := 0 }) (hl.heeding _)

/-- A chain whose file is missing is run over a cleared wallet. -/
theorem ranChain_cleared {files : Files} {places : Places} {image : WalletImage}
    (h : files.chains places.chain = false) :
    ranChain lib files places image = ranChain lib files places image.cleared := by
  have hmissing : ¬ files.chains places.chain = true := by simp [h]
  unfold ranChain
  rw [if_neg hmissing, if_neg hmissing]
  rfl

theorem rerun_congr {files files' : Files} {places : Places} {wallet wallet' : Option WalletImage}
    {hasGroup hasGroup' : Bool}
    (hfiles : files'.withoutChain places.chain = files.withoutChain places.chain)
    (hwallet : wallet'.map WalletImage.cleared = wallet.map WalletImage.cleared)
    (hstuck : (wallet'.isNone && hasGroup') = (wallet.isNone && hasGroup))
    (hkept : (wallet.isNone && hasGroup) = true → files' = files) :
    rerun lib lock files' places wallet' hasGroup' = rerun lib lock files places wallet hasGroup := by
  have hmissing : (files.withoutChain places.chain).chains places.chain = false :=
    Function.update_self ..
  unfold rerun
  simp only [hstuck, hfiles]
  cases hs : wallet.isNone && hasGroup with
  | true =>
    rw [hkept hs]
    rfl
  | false =>
    cases lock with
    | some text => rfl
    | none =>
      cases wallet with
      | none =>
        cases wallet' with
        | none => rfl
        | some _ => cases hwallet
      | some image =>
        cases wallet' with
        | none => cases hwallet
        | some image' =>
          have hcleared : image'.cleared = image.cleared := Option.some.inj hwallet
          simp only [Bool.false_eq_true, if_false]
          rw [ranChain_cleared hmissing, hcleared, ← ranChain_cleared hmissing]

/-- The block store that was opened is the one the next reset closes. -/
theorem locked_besides (h : Opened u v) (f : File) : v.locked v.blockStore f = u.locked none f := by
  rw [Bool.eq_iff_iff, locked_iff, locked_iff, h.store, h.next, h.shapes]
  refine exists_congr fun store => ?_
  by_cases hs : store = u.blockStores.next
  · subst hs
    simp
  · have hlt : store < u.blockStores.next + 1 ↔ store < u.blockStores.next := by omega
    simp [hs, Ne.symm hs, hlt]

/-- What a reset leaves of what the next one goes by. -/
structure Resettable (w v : World) : Prop where
  wallet : v.wallet = w.wallet
  places : v.places = w.places
  cleared : (v.wallet.map fun ref => v.imageOf (v.wallets.cell ref)).map WalletImage.cleared =
    (w.wallet.map fun ref => w.imageOf (w.wallets.cell ref)).map WalletImage.cleared
  files : v.files.withoutChain w.places.chain = w.files.withoutChain w.places.chain
  lock : v.locked v.blockStore w.places.chain = w.locked w.blockStore w.places.chain

theorem Resettable.repeats (h : Resettable w v)
    (hstuck : (v.wallet.isNone && v.peerGroup.isSome) = (w.wallet.isNone && w.peerGroup.isSome))
    (hkept : (w.wallet.isNone && w.peerGroup.isSome) = true → v.files = w.files) :
    Opening.resetBlockchain.Repeats text w v := by
  intro lib hl
  have hlock : Opening.resetBlockchain.lock text v = Opening.resetBlockchain.lock text w := by
    refine lock_congr ?_
    rw [h.places]
    exact h.lock
  rw [settled_resetBlockchain hl, settled_resetBlockchain hl, hlock, h.places]
  refine rerun_congr h.files h.cleared ?_ ?_
  · simpa using hstuck
  · simpa using hkept

/-- A reset without a wallet may get as far as a peer group, where the chain file could not be deleted. The
    next one does not get past it. -/
theorem Resettable.repeats_stuck (h : Resettable w v) (hw : w.wallet = none) (hg : w.peerGroup = none)
    (hv : v.peerGroup.isSome) (hfree : Opening.resetBlockchain.lock text w = none)
    (hfiles : v.files = w.files.withChain w.places.chain) :
    Opening.resetBlockchain.Repeats text w v := by
  intro lib hl
  have hlock : Opening.resetBlockchain.lock text v = Opening.resetBlockchain.lock text w := by
    refine lock_congr ?_
    rw [h.places]
    exact h.lock
  have hrebuilt : (w.files.withoutChain w.places.chain).withChain w.places.chain = v.files := by
    rw [hfiles, withChain_withoutChain]
  rw [settled_resetBlockchain hl, settled_resetBlockchain hl, hlock, hfree, h.places, h.wallet, hw, hg]
  simp only [rerun, Option.map_none, Option.isNone_none, Option.isSome_none, hv, Bool.true_and,
    Bool.false_eq_true, if_true, if_false, hrebuilt]

/-- The parts a reset keeps in any case. -/
theorem resettable (hkept : essential.rel w v)
    (hfiles : v.files.withoutChain w.places.chain = w.files.withoutChain w.places.chain)
    (hlock : v.locked v.blockStore w.places.chain = w.locked w.blockStore w.places.chain) :
    Resettable w v := by
  simp only [essential, keeping, Prod.mk.injEq] at hkept
  obtain ⟨hwallet, hplaces, hcells⟩ := hkept
  refine ⟨hwallet, hplaces, ?_, hfiles, hlock⟩
  rw [hwallet]
  cases w.wallet with
  | none => rfl
  | some ref =>
    have hcell := congrFun hcells ref
    simp only [Prod.mk.injEq] at hcell
    simp [World.imageOf, Wallet.lastWalletChange, WalletImage.cleared, hcell]

/-- A reset that stopped in its shutdown. -/
theorem resetBlockchain_repeats_shut (hkept : essential.rel w v) (hshut : Shut w v)
    (hfiles : v.files = w.files) : Opening.resetBlockchain.Repeats text w v := by
  have hr := resettable hkept (by rw [hfiles]) (hshut.lock _)
  refine hr.repeats ?_ fun _ => hfiles
  rw [hr.wallet]
  rcases hshut.group with hsame | ⟨hnone, hsome⟩
  · rw [hsame]
  · obtain ⟨ref, href⟩ := Option.isSome_iff_exists.mp hsome
    simp [href]

/-- A reset that went on from its shutdown. -/
theorem resetBlockchain_repeats_left (hkept : essential.rel w v) (hshut : Shut w u)
    (hstore : u.blockStore = none) (hgroup : u.peerGroup = none)
    (hsome : w.peerGroup.isSome → w.wallet.isSome) (hplaces : u.places = w.places)
    (hfiles : u.files = w.files ∨ u.files = w.files.withoutChain w.places.chain)
    (hleft : Left (Opening.resetBlockchain.lock text w = none) u v) :
    Opening.resetBlockchain.Repeats text w v := by
  have hu : u.files.withoutChain w.places.chain = w.files.withoutChain w.places.chain := by
    rcases hfiles with h | h
    · rw [h]
    · rw [h, withoutChain_withoutChain]
  have hopen : (w.wallet.isNone && w.peerGroup.isSome) = false := by
    cases hw : w.wallet with
    | some ref => rfl
    | none =>
      rw [hw] at hsome
      simpa using hsome
  have hidle (hr : Resettable w v) (hv : v.peerGroup = none) :
      Opening.resetBlockchain.Repeats text w v :=
    hr.repeats (by rw [hv, hopen]; simp) fun h => by rw [hopen] at h; cases h
  have hlock := hshut.lock w.places.chain
  have hnetwork (hn : v.network = u.network) :
      v.locked v.blockStore w.places.chain = w.locked w.blockStore w.places.chain ∧
        v.peerGroup = none := by
    simp only [World.network, Prod.mk.injEq] at hn
    obtain ⟨⟨hvs, hnext, hshapes⟩, hvg, -⟩ := hn
    refine ⟨?_, hvg.trans hgroup⟩
    rw [hvs, locked_congr hnext hshapes, hlock]
  rcases hleft.stage with ⟨hf, hn⟩ | ⟨hfree, hf, hn | ho⟩
  · obtain ⟨hvlock, hvg⟩ := hnetwork hn
    exact hidle (resettable hkept (by rw [hf, hu]) hvlock) hvg
  · obtain ⟨hvlock, hvg⟩ := hnetwork hn
    exact hidle (resettable hkept (by rw [hf, hplaces, withoutChain_withChain, hu]) hvlock) hvg
  · have hvlock : v.locked v.blockStore w.places.chain = w.locked w.blockStore w.places.chain := by
      rw [locked_besides ho, ← hlock, hstore]
    have hr := resettable hkept (by rw [hf, hplaces, withoutChain_withChain, hu]) hvlock
    cases hw : w.wallet with
    | some ref =>
      refine hr.repeats ?_ fun h => by rw [hopen] at h; cases h
      rw [hr.wallet, hw]
      rfl
    | none =>
      have hwg : w.peerGroup = none := by
        rw [hw] at hsome
        simpa using hsome
      cases hvg : v.peerGroup with
      | none => exact hidle hr hvg
      | some group =>
        refine hr.repeats_stuck hw hwg (by rw [hvg]; rfl) hfree ?_
        rw [hf, hplaces]
        rcases hfiles with h | h
        · rw [h]
        · rw [h, withChain_withoutChain]

theorem resetBlockchain_retry (w : World) :
    StaysOpen w (after (Opening.resetBlockchain.call lib text w)) ∧
      Opening.resetBlockchain.Retry text w (after (Opening.resetBlockchain.call lib text w)) := by
  have hends : Ends (resetBlockchain (lib.heeding (Opening.resetBlockchain.lock text w)))
      { w with activity := 0 }
      fun _ v => StaysOpen w v ∧ Opening.resetBlockchain.Retry text w v := by
    refine ends_mono (ends_and (ends_of_moves essential_resetBlockchain) left_resetBlockchain) ?_
    rintro r v ⟨hkept, ⟨hshut, hfiles⟩ | ⟨u, hshut, hstore, hgroup, hsome, hplaces, hfiles, hleft⟩⟩
    · have hstores : v.blockStores.next = w.blockStores.next := hshut.stores
      have hgroups : v.peerGroups.next = w.peerGroups.next := hshut.groups
      refine ⟨⟨fun store hle hlt => ?_, fun group hle hlt => ?_⟩, ?_⟩
      · omega
      · omega
      · exact resetBlockchain_repeats_shut (w := w) hkept
          ⟨hshut.stores, hshut.groups, hshut.lock, hshut.group⟩ hfiles
    · refine ⟨staysOpen_of_left hleft hshut.stores hshut.groups, ?_⟩
      exact resetBlockchain_repeats_left (w := w) hkept
        ⟨hshut.stores, hshut.groups, hshut.lock, hshut.group⟩ hstore hgroup hsome hplaces hfiles
        (hleft.mono heeding_opens)
  exact hends

end Reset

/-- However `start`, `createWallet` or `resetBlockchain` ends, what it opened stays open in the manager's
    fields; and repeated it comes to what it would have come to, if it is a reset, or a `createWallet` that
    saved no wallet, or a `start` that opened no block store and made no chain file. -/
theorem failed_call_retried (o : Opening) (lib : Lib) (text : String) (w : World) :
    StaysOpen w (after (o.call lib text w)) ∧ o.Retry text w (after (o.call lib text w)) := by
  cases o with
  | start => exact start_retry w
  | createWallet password => exact createWallet_retry w
  | resetBlockchain => exact resetBlockchain_retry w

/-- What was opened between `w` and `v` is closed again. -/
def NothingLeft (w v : World) : Prop :=
  (∀ store, w.blockStores.next ≤ store → store < v.blockStores.next →
    (v.blockStores.cell store).isOpen = false) ∧
  ∀ group, w.peerGroups.next ≤ group → group < v.peerGroups.next →
    (v.peerGroups.cell group).running = false

/-- A wallet is created, and the peer group it is to be used with does not start its download: the block
    store is open, the group runs, and `createWallet` will find its own wallet file. -/
theorem failed_call_left : ¬ ∀ (files : Files) (ls : List Label) (o : Opening) (lib : Lib) (text : String)
    (e : Throwable), outcome (o.call lib text (run step (World.initial files) ls)) = .error e →
      NothingLeft (run step (World.initial files) ls)
          (after (o.call lib text (run step (World.initial files) ls))) ∧
        o.Repeats text (run step (World.initial files) ls)
          (after (o.call lib text (run step (World.initial files) ls))) := by
  intro h
  obtain ⟨⟨hstores, -⟩, -⟩ := h .none [.start .fair] (.createWallet none)
    (Lib.fair.failingAt .startBlockChainDownload nullPointerException) "locked" nullPointerException
    (by decide +kernel)
  have hclosed := hstores 0 (by decide +kernel) (by decide +kernel)
  revert hclosed
  decide +kernel

end BitcoinKit

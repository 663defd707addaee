import BitcoinKit.Java.Balances
import BitcoinKit.Properties.News

/-! No balance change goes unannounced:

        arrival          ──▶ wallet event    ── not tracked ──▶ told
        change of type   ──▶ listened to     ──────────────────▶ told
        reorganisation   ──▶ wallet event    ──────────────────▶ told
        reset            ──▶ chain started   ──────────────────▶ told
        another peer     ──▶ SEEN_PEERS      ──▶ nothing

    The number of peers that have announced a transaction decides whether an own pending one counts as
    available, and no handler looks at it. In the runs in which the other guards let the events through,
    and such a transaction goes from one peer to more only while a call that tells it is queued, nothing is
    missed. -/

namespace BitcoinKit
open Schemes

/-! ### The events -/

/-- What bitcoinj does to the wallet in use, a reset, and the next queued call. -/
inductive BalanceEvent where
  | enters (tx : Transaction) (type : ConfidenceType) (received sent : Bool)
  | confidence (tx : Transaction) (type : ConfidenceType)
  | depth (tx : Transaction)
  | seenPeers (tx : Transaction) (peers : Nat)
  | reorganize (changes : List (Transaction × ConfidenceType))
  | reset (lib : Lib)
  | deliver (lib : Lib)

/-- The wallet in use takes a transaction, from the network or made here. -/
def World.enters (w : World) (tx : Transaction) (type : ConfidenceType) : World :=
  match w.wallet with
  | none => w
  | some ref => World.changeConfidence { w with
      wallets := w.wallets.write ref ((w.wallets.cell ref).withTransaction tx) } tx type

/-- An event of the wallet in use. -/
def World.fires (w : World) (call : UserThreadCall) : World :=
  match w.wallet with
  | none => w
  | some ref => w.walletEvent ref call

/-- The wallet events of an arrival. -/
def World.reportsArrival (w : World) (tx : Transaction) (received sent : Bool) : World :=
  let w := if received then w.fires (.onCoinsReceived tx) else w
  if sent then w.fires (.onCoinsSent tx) else w

/-- The manager listens to the wallet in use. -/
def World.listened (w : World) : Prop :=
  match w.wallet with
  | none => False
  | some ref => (w.wallets.cell ref).eventListeners ≠ 0

/-- What an event does to the world and to the record. -/
def BalanceEvent.step (c : Coins) (s : World × BalanceRecord) : BalanceEvent → World × BalanceRecord
  | .enters tx type received sent => ((s.1.enters tx type).reportsArrival tx received sent, s.2)
  | .confidence tx type => (BitcoinKit.step s.1 (.confidenceType tx type), s.2)
  | .depth tx => (BitcoinKit.step s.1 (.confidenceDetail tx .depth), s.2)
  | .seenPeers tx peers => (BitcoinKit.step s.1 (.confidenceDetail tx .seenPeers),
      { s.2 with peers := Function.update s.2.peers tx peers })
  | .reorganize changes => ((s.1.changed changes).fires .onReorganize, s.2)
  | .reset lib => after (Watched.code (noteBalances c) (.resetBlockchain lib) s)
  | .deliver lib => after (Watched.code (noteBalances c) (.deliver lib) s)

/-- Having been announced by so many peers makes the transaction's outputs available, or no longer: it is an
    own pending one of the wallet, with outputs not spent, and goes from at most one peer to more, or back. -/
structure PeersMatter (c : Coins) (s : World × BalanceRecord) (tx : Transaction) (peers : Nat) : Prop where
  wallet : tx ∈ s.1.theTransactions
  pending : s.1.confidence tx = .pending
  own : c.own tx
  unspent : c.unspent s.1.types tx ≠ 0
  sides : 1 < s.2.peers tx ↔ peers ≤ 1

/-- The event leaves the balances as they are, a call that tells them is queued already, or the guards
    of the handlers let it through. -/
def Heeded (c : Coins) (s : World × BalanceRecord) : BalanceEvent → Prop
  | .enters tx type received sent =>
    balances c s.2.peers (s.1.enters tx type) = balances c s.2.peers s.1 ∨ s.1.willTell ∨
      tx ∈ s.1.registrations ∧ s.1.confidence tx ≠ type ∨
      (received ∨ sent) ∧ s.1.listened ∧ hasKey Transaction.hash s.1.trackedTransactions tx = false
  | .confidence tx type =>
    balances c s.2.peers (s.1.changeConfidence tx type) = balances c s.2.peers s.1 ∨ s.1.willTell ∨
      tx ∈ s.1.registrations
  | .depth _ => True
  | .seenPeers tx peers => ¬ PeersMatter c s tx peers ∨ s.1.willTell
  | .reorganize changes =>
    balances c s.2.peers (s.1.changed changes) = balances c s.2.peers s.1 ∨ s.1.willTell ∨ s.1.listened
  | .reset lib => (∀ site ∈ restartSites, lib.fails site = none) ∨ s.1.willTell ∨
    balances c s.2.peers s.1 = (0, 0)
  | .deliver lib => ∀ call rest, s.1.userThread = call :: rest → call.tells s.1 →
    ∀ window, window ≠ .beforeUnlistening →
      ∀ change ∈ lib.during window, s.1.heedsDuring call rest change.1

/-- Balances that are not those last told will be told when a queued call is handled, and once the queue
    is empty the timer logs nothing. -/
def Accounted (c : Coins) (s : World × BalanceRecord) : Prop :=
  (balances c s.2.peers s.1 ≠ s.2.last → ∃ call ∈ s.1.userThread, ∀ lib,
    s.1.timesTold < (after (handle lib call s.1)).timesTold) ∧
  (s.1.userThread = [] → verifyBalance (balances c s.2.peers s.1) s.2.last = [])

variable {c : Coins} {w v : World} {r : BalanceRecord} {s : World × BalanceRecord} {lib : Lib}
  {tx : Transaction} {type : ConfidenceType}

theorem accounted_of_noneMissed (h : NoneMissed c s) : Accounted c s := by
  refine ⟨fun hne => ?_, fun hidle => ?_⟩
  · rcases h with hshown | ⟨call, hcall, htells⟩
    · exact absurd hshown.symm hne
    · exact ⟨call, hcall, fun _ => told_of_tells htells⟩
  · rcases h with hshown | ⟨call, hcall, -⟩
    · rw [hshown]
      exact verifyBalance_self _
    · rw [hidle] at hcall
      cases hcall

/-! ### Arrivals -/

/-- A new transaction that arrives from the network enters the wallet. -/
theorem receive_enters {ref : WalletRef} (hw : w.wallet = some ref) (hr : ref < w.wallets.next)
    (hash : Sha256Hash) (inputs : List OutPoint) (type : ConfidenceType)
    (hnew : ⟨w.nextTransaction, hash, inputs, none⟩ ∉ w.registrations) :
    w.receive ref hash inputs type = { w.enters ⟨w.nextTransaction, hash, inputs, none⟩ type with
      nextTransaction := w.nextTransaction + 1 } := by
  rw [World.receive, if_pos hr, World.enters, hw]
  dsimp only
  rw [World.changeConfidence, List.count_eq_zero_of_not_mem hnew]
  split
  · next hsame =>
    rw [← hsame, Function.update_eq_self]
  · rw [List.replicate_zero, List.append_nil]

/-- So does a transaction that is committed. -/
theorem commitTx_enters {ref : WalletRef} (hw : w.wallet = some ref)
    (hcall : lib.fails .commitTx = none)
    (hnew : hasKey Transaction.hash (w.wallets.cell ref).transactions tx = false) :
    after (lib.commitTx tx w) =
      { w.enters tx .pending with commits := w.commits ++ [(w.activity, tx)] } := by
  have hends : Ends (lib.commitTx tx) w fun _ v =>
      v = { w.enters tx .pending with commits := w.commits ++ [(w.activity, tx)] } := by
    unfold Lib.commitTx modifyWallet
    rw [ends_bind, ends_theWallet hw]
    simp only [ends_bind, ends_call, hcall, hnew, Bool.false_eq_true, if_false, ends_modify]
    rw [World.enters, hw]
  exact hends

/-! ### Announcements -/

/-- What one element more adds to a sum over the elements that are picked. -/
theorem sum_filter_more {α : Type} [DecidableEq α] {a : α} {p q : α → Bool} (hp : p a = true)
    (hq : q a = false) (hother : ∀ b, b ≠ a → p b = q b) (f : α → Nat) : ∀ l : List α,
      ((l.filter p).map f).sum = ((l.filter q).map f).sum + l.count a * f a
  | [] => by simp
  | b :: l => by
    have ih := sum_filter_more hp hq hother f l
    by_cases hb : b = a
    · subst hb
      rw [List.filter_cons_of_pos hp, List.filter_cons_of_neg (by simp [hq]), List.map_cons, List.sum_cons,
        ih, List.count_cons_self, Nat.succ_mul]
      omega
    · rw [List.count_cons_of_ne hb, List.filter_cons, List.filter_cons, hother b hb]
      split
      · rw [List.map_cons, List.map_cons, List.sum_cons, List.sum_cons, ih]
        omega
      · exact ih

/-- What the available balance counts. -/
def counted (c : Coins) (w : World) (peers : Transaction → Nat) (tx : Transaction) : Bool :=
  w.confidence tx = .building ∨ w.confidence tx = .pending ∧ c.own tx ∧ 1 < peers tx

/-- One transaction has been announced by more than one peer, and had not been. -/
theorem available_more {peers peers' : Transaction → Nat} (hother : ∀ t, t ≠ tx → peers' t = peers t)
    (hold : ¬ 1 < peers tx) (hnew : 1 < peers' tx) :
    getAvailableBalance c peers' w ≠ getAvailableBalance c peers w ↔
      tx ∈ w.theTransactions ∧ w.confidence tx = .pending ∧ c.own tx ∧ c.unspent w.types tx ≠ 0 := by
  have hothers (t : Transaction) (ht : t ≠ tx) : counted c w peers' t = counted c w peers t := by
    simp only [counted, hother t ht]
  change ((w.theTransactions.filter (counted c w peers')).map (c.unspent w.types)).sum ≠
    ((w.theTransactions.filter (counted c w peers)).map (c.unspent w.types)).sum ↔ _
  by_cases hcounts : w.confidence tx = .pending ∧ c.own tx
  · rw [sum_filter_more (by simp [counted, hcounts, hnew]) (by simp [counted, hcounts, hold]) hothers]
    have hmore : w.theTransactions.count tx * c.unspent w.types tx ≠ 0 ↔
        tx ∈ w.theTransactions ∧ c.unspent w.types tx ≠ 0 := by
      rw [Nat.mul_ne_zero_iff, ← Nat.pos_iff_ne_zero, List.count_pos_iff]
    rw [ne_eq, Nat.add_eq_left, ← ne_eq, hmore]
    exact ⟨fun h => ⟨h.1, hcounts.1, hcounts.2, h.2⟩, fun h => ⟨h.1, h.2.2.2⟩⟩
  · have hall : counted c w peers' = counted c w peers := by
      funext t
      by_cases ht : t = tx
      · subst ht
        simp only [counted, ← and_assoc, hcounts, false_and]
      · exact hothers t ht
    rw [hall]
    exact ⟨fun h => absurd rfl h, fun h => absurd ⟨h.2.1, h.2.2.1⟩ hcounts⟩

/-- The number of announcing peers moves a balance exactly where it matters. -/
theorem peersMatter_iff (c : Coins) (s : World × BalanceRecord) (tx : Transaction) (peers : Nat) :
    PeersMatter c s tx peers ↔
      balances c (Function.update s.2.peers tx peers) s.1 ≠ balances c s.2.peers s.1 := by
  obtain ⟨w, r⟩ := s
  have hother (t : Transaction) (ht : t ≠ tx) : Function.update r.peers tx peers t = r.peers t :=
    Function.update_of_ne ht ..
  have hself : Function.update r.peers tx peers tx = peers := Function.update_self ..
  rw [balances, balances, ne_eq, Prod.mk.injEq, and_iff_left rfl, ← ne_eq]
  by_cases hsides : 1 < r.peers tx ↔ 1 < peers
  · have hall : counted c w (Function.update r.peers tx peers) = counted c w r.peers := by
      funext t
      by_cases ht : t = tx
      · subst ht
        simp only [counted, Function.update_self, hsides]
      · simp only [counted, hother t ht]
    refine ⟨fun h => ?_, fun h => absurd ?_ h⟩
    · have hcrossed := h.sides
      dsimp only at hcrossed
      omega
    · exact congrArg (fun p => ((w.theTransactions.filter p).map (c.unspent w.types)).sum) hall
  · have hmoved : getAvailableBalance c (Function.update r.peers tx peers) w ≠
        getAvailableBalance c r.peers w ↔
          tx ∈ w.theTransactions ∧ w.confidence tx = .pending ∧ c.own tx ∧ c.unspent w.types tx ≠ 0 := by
      by_cases hold : 1 < r.peers tx
      · rw [ne_comm]
        exact available_more (fun t ht => (hother t ht).symm) (by omega) hold
      · exact available_more hother hold (by omega)
    rw [hmoved]
    constructor
    · exact fun h => ⟨h.wallet, h.pending, h.own, h.unspent⟩
    · rintro ⟨hwallet, hpending, hown, hunspent⟩
      refine ⟨hwallet, hpending, hown, hunspent, ?_⟩
      dsimp only
      omega

/-! ### The queue grows -/

/-- Calls are added to the queue, and the tracking set is left alone. -/
def growing : Along World where
  rel w v := (∀ call ∈ w.userThread, call ∈ v.userThread) ∧ v.trackedTransactions = w.trackedTransactions
  refl _ := ⟨fun _ => id, rfl⟩
  trans h₁ h₂ := ⟨fun call => h₂.1 call ∘ h₁.1 call, h₂.2.trans h₁.2⟩

theorem tells_growing {call : UserThreadCall} (hv : growing.rel w v) (h : call.tells w) : call.tells v :=
  tells_untracked (fun _ hk => hv.2 ▸ hk) h

theorem willTell_growing (hv : growing.rel w v) (h : w.willTell) : v.willTell := by
  obtain ⟨call, hcall, htells⟩ := h
  exact ⟨call, hv.1 call hcall, tells_growing hv htells⟩

theorem growing_change (t : Transaction) (type : ConfidenceType) :
    growing.rel w (w.changeConfidence t type) := by
  rw [World.changeConfidence]
  split
  · exact growing.refl w
  · exact ⟨fun _ => List.mem_append_left _, rfl⟩

theorem growing_changed (changes : List (Transaction × ConfidenceType)) :
    growing.rel w (w.changed changes) :=
  changed_rel _ fun x _ _ => growing_change x.1 x.2

theorem growing_enters : growing.rel w (w.enters tx type) := by
  rw [World.enters]
  split
  · exact growing.refl w
  · refine growing.trans ?_ (growing_change tx type)
    exact ⟨fun _ => id, rfl⟩

theorem growing_fires (call : UserThreadCall) : growing.rel w (w.fires call) := by
  rw [World.fires]
  split
  · exact growing.refl w
  · exact ⟨fun _ => List.mem_append_left _, rfl⟩

theorem worth_fires (call : UserThreadCall) : worth.rel w (w.fires call) := by
  rw [World.fires]
  split <;> exact ⟨rfl, fun _ _ => rfl⟩

/-- A call for an event of a wallet that is listened to is queued. -/
theorem mem_fires (call : UserThreadCall) (h : w.listened) : call ∈ (w.fires call).userThread := by
  rw [World.listened] at h
  rw [World.fires]
  split at h
  · exact h.elim
  · exact List.mem_append_right _ (List.mem_replicate.mpr ⟨h, rfl⟩)

theorem listened_fires (call : UserThreadCall) : (w.fires call).listened ↔ w.listened := by
  rw [World.fires]
  split
  · rfl
  · next ref hw => simp only [World.listened, World.walletEvent, hw]

theorem listened_change (t : Transaction) (type : ConfidenceType) :
    (w.changeConfidence t type).listened ↔ w.listened := by
  rw [World.changeConfidence]
  split <;> rfl

theorem listened_enters : (w.enters tx type).listened ↔ w.listened := by
  rw [World.enters]
  split
  · rfl
  · next ref hw => rw [listened_change]; simp [World.listened, hw, Wallet.withTransaction]

/-- When calls are added, nothing is missed as long as the balances stay or one of them tells. -/
theorem noneMissed_growing {r' : BalanceRecord} (hv : growing.rel w v) (hlast : r'.last = r.last)
    (hok : balances c r'.peers v = balances c r.peers w ∨ v.willTell) (h : NoneMissed c (w, r)) :
    NoneMissed c (v, r') := by
  rcases hok with hsame | hwill
  · rcases h with hshown | hwill
    · refine .inl ?_
      rw [Shown, hlast, hsame]
      exact hshown
    · exact .inr (willTell_growing hv hwill)
  · exact .inr hwill

/-! ### One step -/

theorem growing_reportsArrival (tx : Transaction) (received sent : Bool) :
    growing.rel w (w.reportsArrival tx received sent) := by
  rw [World.reportsArrival]
  cases received <;> cases sent
  · exact growing.refl w
  · exact growing_fires _
  · exact growing_fires _
  · exact growing.trans (growing_fires _) (growing_fires _)

theorem worth_reportsArrival (tx : Transaction) (received sent : Bool) :
    worth.rel w (w.reportsArrival tx received sent) := by
  rw [World.reportsArrival]
  cases received <;> cases sent
  · exact worth.refl w
  · exact worth_fires _
  · exact worth_fires _
  · exact worth.trans (worth_fires _) (worth_fires _)

/-- Its wallet events are queued if the manager listens. -/
theorem mem_reportsArrival (tx : Transaction) {received sent : Bool} (hlistened : w.listened)
    (hevent : received ∨ sent) :
    ∃ call ∈ (w.reportsArrival tx received sent).userThread,
      call = .onCoinsReceived tx ∨ call = .onCoinsSent tx := by
  rw [World.reportsArrival]
  cases sent with
  | true =>
    refine ⟨_, mem_fires _ ?_, .inr rfl⟩
    cases received with
    | true => exact (listened_fires _).mpr hlistened
    | false => exact hlistened
  | false =>
    obtain rfl : received = true := hevent.resolve_right nofun
    exact ⟨_, mem_fires _ hlistened, .inl rfl⟩

theorem noneMissed_enters (tx : Transaction) (type : ConfidenceType) (received sent : Bool)
    (h : NoneMissed c (w, r)) (hheeded : Heeded c (w, r) (.enters tx type received sent)) :
    NoneMissed c (BalanceEvent.step c (w, r) (.enters tx type received sent)) := by
  have hevents : growing.rel (w.enters tx type) ((w.enters tx type).reportsArrival tx received sent) :=
    growing_reportsArrival tx received sent
  have hv := growing.trans growing_enters hevents
  refine noneMissed_growing hv rfl ?_ h
  have hbalances := balances_worth (c := c) (worth_reportsArrival (w := w.enters tx type)
    tx received sent) r.peers
  rcases hheeded with hsame | hwill | ⟨hregs, hne⟩ | ⟨hevent, hlistened, hk⟩
  · exact .inl (hbalances.trans hsame)
  · exact .inr (willTell_growing hv hwill)
  · rcases Option.eq_none_or_eq_some w.wallet with hw | ⟨ref, hw⟩
    · have hnone : w.enters tx type = w := by rw [World.enters, hw]
      refine .inl (hbalances.trans ?_)
      rw [hnone]
    · refine .inr (willTell_growing hevents ⟨.onConfidenceChanged tx .type, ?_, rfl⟩)
      rw [World.enters, hw]
      exact awaits_heard hne hregs
  · obtain ⟨call, hcall, hnew⟩ := mem_reportsArrival tx (listened_enters.mpr hlistened) hevent
    refine .inr ⟨call, hcall, tells_growing hv ?_⟩
    rcases hnew with rfl | rfl
    · simp [UserThreadCall.tells, hk]
    · simp [UserThreadCall.tells, hk]

theorem noneMissed_confidence (tx : Transaction) (type : ConfidenceType) (h : NoneMissed c (w, r))
    (hheeded : Heeded c (w, r) (.confidence tx type)) :
    NoneMissed c (BalanceEvent.step c (w, r) (.confidence tx type)) := by
  have hstep : step w (.confidenceType tx type) =
      { w.changeConfidence tx type with activity := 0 } := by
    change World.changeConfidence { w with activity := 0 } tx type = _
    unfold World.changeConfidence
    split <;> rfl
  have hv : growing.rel w (step w (.confidenceType tx type)) := by
    rw [hstep]
    exact growing_change tx type
  refine noneMissed_growing hv rfl ?_ h
  rcases hheeded with hsame | hwill | hregs
  · rw [hstep]
    exact .inl hsame
  · exact .inr (willTell_growing hv hwill)
  · by_cases hsame : w.confidence tx = type
    · refine .inl ?_
      rw [hstep, World.changeConfidence, if_pos hsame]
      rfl
    · refine .inr ⟨.onConfidenceChanged tx .type, ?_, rfl⟩
      rw [hstep]
      exact awaits_heard hsame hregs

theorem noneMissed_detail (tx : Transaction) (reason : ChangeReason) {r' : BalanceRecord}
    (h : NoneMissed c (w, r)) (hlast : r'.last = r.last)
    (hok : balances c r'.peers w = balances c r.peers w ∨ w.willTell) :
    NoneMissed c (step w (.confidenceDetail tx reason), r') := by
  have hv : growing.rel w (step w (.confidenceDetail tx reason)) :=
    ⟨fun _ => List.mem_append_left _, rfl⟩
  exact noneMissed_growing hv hlast (hok.imp id (willTell_growing hv)) h

theorem noneMissed_reorganize (changes : List (Transaction × ConfidenceType))
    (h : NoneMissed c (w, r)) (hheeded : Heeded c (w, r) (.reorganize changes)) :
    NoneMissed c (BalanceEvent.step c (w, r) (.reorganize changes)) := by
  have hv : growing.rel w ((w.changed changes).fires .onReorganize) :=
    growing.trans (growing_changed changes) (growing_fires _)
  refine noneMissed_growing hv rfl ?_ h
  rcases hheeded with hsame | hwill | hlistened
  · refine .inl (Eq.trans ?_ hsame)
    exact balances_worth (worth_fires _) r.peers
  · exact .inr (willTell_growing hv hwill)
  · have hstill : (w.changed changes).listened :=
      changed_rel (R := preserving World.listened) changes
        (fun x _ u => (listened_change x.1 x.2).mpr) hlistened
    exact .inr ⟨.onReorganize, mem_fires _ hstill, rfl⟩

theorem noneMissed_step (s : World × BalanceRecord) (e : BalanceEvent) (h : NoneMissed c s)
    (hheeded : Heeded c s e) : NoneMissed c (BalanceEvent.step c s e) := by
  obtain ⟨w, r⟩ := s
  cases e with
  | enters tx type received sent => exact noneMissed_enters tx type received sent h hheeded
  | confidence tx type => exact noneMissed_confidence tx type h hheeded
  | depth tx => exact noneMissed_detail tx .depth h rfl (.inl rfl)
  | seenPeers tx peers =>
    refine noneMissed_detail tx .seenPeers h rfl (hheeded.imp_left fun hno => ?_)
    exact not_ne_iff.mp (mt (peersMatter_iff c (w, r) tx peers).mpr hno)
  | reorganize changes => exact noneMissed_reorganize changes h hheeded
  | reset lib => exact noneMissed_reset _ ⟨h, hheeded⟩
  | deliver lib => exact noneMissed_deliver _ h hheeded

/-! ### Runs -/

/-- From any state with the balances told, every run in which the events that move a balance get through
    the handlers' guards accounts for each change. -/
theorem changes_accounted (c : Coins) (w : World) (r : BalanceRecord) (events : List BalanceEvent)
    (hstart : r.last = balances c r.peers w)
    (hheeded : Meets (BalanceEvent.step c) (Heeded c) (w, r) events) :
    Accounted c (run (BalanceEvent.step c) (w, r) events) :=
  accounted_of_noneMissed (inv_meets noneMissed_step (w, r) events (.inl hstart) hheeded)

/-- A payment of the wallet's own, with a change output of 5. -/
def ownPayment : Coins := ⟨fun tx => tx = arriving, fun _ _ => 5⟩

/-- An empty wallet, just created; one peer will have announced what it pays. -/
def balancesTold : World × BalanceRecord :=
  (run step (World.initial .none) walletCreated, ⟨fun _ => 1, (0, 0)⟩)

theorem heeded_deliver (s : World × BalanceRecord) : Heeded c s (.deliver .fair) :=
  fun _ _ _ _ _ _ _ hm => absurd hm List.not_mem_nil

theorem listened_of_wallet {ref : WalletRef} (hw : w.wallet = some ref)
    (h : (w.wallets.cell ref).eventListeners ≠ 0) : w.listened := by
  rw [World.listened, hw]
  exact h

theorem heeded_payment : Heeded ownPayment balancesTold (.enters arriving .pending false true) := by
  have hlistened : balancesTold.1.listened := by
    refine @listened_of_wallet _ 0 ?_ ?_
    · decide +kernel
    · decide +kernel
  exact .inr (.inr (.inr ⟨.inr rfl, hlistened, by decide +kernel⟩))

/-- The payment is committed and confirmed, more peers announce it, and the chain is reset. -/
def paidAndReset : List BalanceEvent :=
  [.enters arriving .pending false true, .deliver .fair, .confidence arriving .building,
   .depth arriving, .deliver .fair, .deliver .fair, .seenPeers arriving 3, .reset .fair]

theorem changes_accounted_paidAndReset :
    (run (BalanceEvent.step ownPayment) balancesTold (paidAndReset.take 7)).2.last = (5, 5) ∧
      Accounted ownPayment (run (BalanceEvent.step ownPayment) balancesTold paidAndReset) := by
  refine ⟨by decide +kernel, changes_accounted ownPayment _ _ paidAndReset ?_ ?_⟩
  · decide +kernel
  · refine ⟨heeded_payment, heeded_deliver _, .inr (.inr ?_), trivial, heeded_deliver _,
      heeded_deliver _, .inl fun h => absurd h.pending ?_, .inl fun _ _ => rfl, trivial⟩
    · decide +kernel
    · decide +kernel

/-- The payment is committed, and a second peer announces it. -/
def paidAndSeen : List BalanceEvent :=
  [.enters arriving .pending false true, .deliver .fair, .seenPeers arriving 2, .deliver .fair]

/-- A change of the number of peers is missed even if all other events get through. -/
theorem seenPeers_missed : ¬ ∀ (c : Coins) (w : World) (r : BalanceRecord) (events : List BalanceEvent),
    r.last = balances c r.peers w →
    Meets (BalanceEvent.step c) (fun s e => (∃ tx peers, e = .seenPeers tx peers) ∨ Heeded c s e)
      (w, r) events →
    Accounted c (run (BalanceEvent.step c) (w, r) events) := by
  intro h
  have haccounted := h ownPayment _ _ paidAndSeen (by decide +kernel)
    ⟨.inr heeded_payment, .inr (heeded_deliver _), .inl ⟨arriving, 2, rfl⟩,
      .inr (heeded_deliver _), trivial⟩
  have hidle : (run (BalanceEvent.step ownPayment) balancesTold paidAndSeen).1.userThread = [] := by
    decide +kernel
  have hlog := haccounted.2 hidle
  revert hlog
  decide +kernel

end BitcoinKit

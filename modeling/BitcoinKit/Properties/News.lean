import BitcoinKit.Java.Hearing

/-! The last news of a transaction is true, once the user thread has caught up, as long as the manager
    was in a position to hear of every change:

        first report ──▶ pending: listens ──▶ ... each change: a call, a report ...
                     └▶ not pending: does not listen
        a report that finds it no longer pending ──▶ stops listening

    A change while the manager does not listen, and has no call about the transaction left to handle,
    goes unreported. -/

namespace BitcoinKit
open Schemes

/-! ### The condition -/

/-- bitcoinj's side: events are about transactions of the wallet in use. -/
def NewsEvent (w : World) : Label → Prop
  | .receive _ _ _ _ => True
  | .coinsReceived _ tx => tx ∈ w.theTransactions
  | .coinsSent _ tx => tx ∈ w.theTransactions
  | .reorganize _ => True
  | .confidenceType tx _ => tx ∈ w.theTransactions
  | .confidenceDetail tx _ => tx ∈ w.theTransactions
  | .deliver lib => ∀ window, ∀ change ∈ lib.during window, change.1 ∈ w.theTransactions
  | _ => False

/-- Nothing goes wrong when the report of `tx` is put together. -/
def ReportsFine (tx : Transaction) (w : World) : Label → Prop
  | .deliver lib => ∀ call ∈ w.userThread.head?, call.subject = some tx → reportFailure lib w tx = none
  | _ => True

/-- Handling `call` with `rest` still queued, the manager hears of changes of `tx` all along. -/
def World.hearsThrough (w : World) (call : UserThreadCall) (rest : List UserThreadCall)
    (tx : Transaction) : Prop :=
  .onConfidenceChanged tx .type ∈ rest ∨
    tx ∈ w.registrations ∧ (call = .onConfidenceChanged tx .type → w.confidence tx = .pending)

/-- Every change of `tx`'s type will be heard of, or comes before the first report, or in a handler
    that has yet to take its snapshot. -/
def ChangesHeard (tx : Transaction) (w : World) : Label → Prop
  | .confidenceType t type => t = tx →
    w.confidence tx = type ∨ w.hears tx ∨ w.newsOf tx.hash = []
  | .deliver lib => ∀ call rest, w.userThread = call :: rest →
    ∀ window, tx ∈ (lib.during window).map Prod.fst →
      w.hearsThrough call rest tx ∨
        if call.subject = some tx then window.isEarly = true else w.newsOf tx.hash = []
  | _ => True

variable {lib : Lib} {w v : World} {tx t : Transaction}

/-! ### Handling other calls -/

/-- Informed of `tx`, whose type does not change unheard while a handler for something else runs. -/
def Undisturbed (lib : Lib) (tx : Transaction) (w : World) : Prop :=
  Informed w tx ∧ ∀ window, tx ∈ (lib.during window).map Prod.fst → w.hears tx ∨ w.newsOf tx.hash = []

theorem undisturbed_of_hearing (h : (hearing tx).rel w v) (hw : Undisturbed lib tx w) :
    Undisturbed lib tx v := by
  refine ⟨informed_of_hearing h hw.1, fun window hm => ?_⟩
  exact (hw.2 window hm).imp h.2.1 fun hnone => h.1.trans hnone

theorem moves_undisturbed {α : Type} {m : Java α} (h : Moves (hearing tx) m) :
    Moves (preserving (Undisturbed lib tx)) m := fun w => undisturbed_of_hearing (h w)

theorem undisturbed_interleave (window : Window) :
    Moves (preserving (Undisturbed lib tx)) (lib.interleave window) := by
  refine moves_modify fun w hw => ?_
  have hnews := newsOf_changedTypes (w := w) (lib.during window) tx.hash
  by_cases hh : tx ∈ (lib.during window).map Prod.fst → w.hears tx
  · exact undisturbed_of_hearing (hearing_changed _ hh) hw
  · have hnone : (w.changed (lib.during window)).newsOf tx.hash = [] := by
      rw [hnews]
      rw [Classical.not_imp] at hh
      exact (hw.2 window hh.1).resolve_left hh.2
    exact ⟨informed_of_unreported hnone, fun _ _ => .inr hnone⟩

theorem undisturbed_handling (ht : t.hash ≠ tx.hash) :
    IgnoresHandling (preserving (Undisturbed lib tx)) lib t where
  interleave := undisturbed_interleave
  balance w := undisturbed_of_hearing (hearing_told w rfl)
  changed w json := by
    have hother : (NativeCall.onTransactionChanged t.hash json).newsOf tx.hash = none := if_neg ht
    exact undisturbed_of_hearing (hearing_told w hother)

/-- A call about something else. -/
theorem undisturbed_handle {call : UserThreadCall}
    (hc : ∀ t, call.subject = some t → t.hash ≠ tx.hash) :
    Moves (preserving (Undisturbed lib tx)) (handle lib call) := by
  have hnew (t : Transaction) (ht : t.hash ≠ tx.hash) :
      Moves (preserving (Undisturbed lib tx)) (onNewTransaction lib t) :=
    moves_newTransaction (undisturbed_handling ht) (moves_undisturbed (hearing_track t))
  cases call with
  | onCoinsReceived t => exact hnew t (hc t rfl)
  | onCoinsSent t => exact hnew t (hc t rfl)
  | onReorganize => exact moves_native fun w => undisturbed_of_hearing (hearing_told w rfl)
  | onConfidenceChanged t reason =>
    cases reason with
    | type =>
      have hne : t.hash ≠ tx.hash := hc t rfl
      exact moves_confidenceChanged (undisturbed_handling hne)
        (moves_undisturbed (hearing_stopTracking fun he => hne (he ▸ rfl))) .type
    | depth => exact moves_pure _
    | seenPeers => exact moves_pure _

/-! ### The transactions of the wallet -/

/-- `txs` are the transactions of the wallet in use, and what is queued and told is about them. -/
structure Orderly (txs : List Transaction) (w : World) : Prop where
  same : w.theTransactions = txs
  numbered : ∀ ref, ∀ tx ∈ (w.wallets.cell ref).transactions, tx.ref < w.nextTransaction
  queued : ∀ call ∈ w.userThread, ∀ tx, call.subject = some tx → tx ∈ txs
  told : ∀ txid, w.newsOf txid ≠ [] → txid ∈ txs.map Transaction.hash

def World.orderly (w : World) : Prop := Orderly w.theTransactions w

variable {txs : List Transaction}

theorem distinct_theTransactions (w : World) : Distinct Transaction.hash w.theTransactions := by
  unfold World.theTransactions
  split
  · exact List.nodup_nil
  · exact Wallet.distinct _

theorem orderly_queue (h : Orderly txs w) (a : Nat) {calls : List UserThreadCall}
    (hc : ∀ call ∈ calls, ∀ tx, call.subject = some tx → tx ∈ txs) :
    Orderly txs { w with activity := a, userThread := w.userThread ++ calls } := by
  refine ⟨h.same, h.numbered, fun call hcall => ?_, h.told⟩
  rcases List.mem_append.mp hcall with hcall | hcall
  · exact h.queued call hcall
  · exact hc call hcall

theorem orderly_change (ht : t ∈ txs) (type : ConfidenceType) (h : Orderly txs w) :
    Orderly txs (w.changeConfidence t type) := by
  rw [World.changeConfidence]
  split
  · exact h
  · have hcalls : ∀ call ∈ List.replicate (w.registrations.count t)
        (UserThreadCall.onConfidenceChanged t .type), ∀ tx, call.subject = some tx → tx ∈ txs := by
      rintro call hcall tx htx
      rw [List.eq_of_mem_replicate hcall] at htx
      cases htx
      exact ht
    have hq := orderly_queue h w.activity hcalls
    exact ⟨hq.same, hq.numbered, hq.queued, hq.told⟩

theorem orderly_told (h : Orderly txs w) (call : NativeCall)
    (hc : ∀ txid, call.newsOf txid ≠ none → txid ∈ txs.map Transaction.hash) :
    Orderly txs (w.told call) := by
  refine ⟨h.same, h.numbered, h.queued, fun txid hnews => ?_⟩
  by_cases hcall : call.newsOf txid = none
  · refine h.told txid ?_
    rwa [newsOf_told_other w hcall] at hnews
  · exact hc txid hcall

theorem orderly_handling (ht : t ∈ txs)
    (hlib : ∀ window, ∀ change ∈ lib.during window, change.1 ∈ txs) :
    IgnoresHandling (preserving (Orderly txs)) lib t where
  interleave window := moves_modify fun w => changed_rel (R := preserving (Orderly txs)) _
    fun c hc _ => orderly_change (hlib window c hc) c.2
  balance w h := orderly_told h .onBalanceChanged fun _ hn => absurd rfl hn
  changed w json h := by
    refine orderly_told h (.onTransactionChanged t.hash json) fun txid hn => ?_
    by_cases hid : t.hash = txid
    · exact hid ▸ List.mem_map_of_mem ht
    · exact absurd (if_neg hid) hn

theorem orderly_track (t : Transaction) : Moves (preserving (Orderly txs)) (trackTransaction t) :=
  moves_track (fun _ h => ⟨h.same, h.numbered, h.queued, h.told⟩) fun _ h =>
    ⟨h.same, h.numbered, h.queued, h.told⟩

theorem orderly_stopTracking (t : Transaction) :
    Moves (preserving (Orderly txs)) (stopTrackingTransaction t) :=
  moves_untrack (fun _ h => ⟨h.same, h.numbered, h.queued, h.told⟩) fun _ h =>
    ⟨h.same, h.numbered, h.queued, h.told⟩

theorem orderly_handle {call : UserThreadCall} (hc : ∀ t, call.subject = some t → t ∈ txs)
    (hlib : ∀ window, ∀ change ∈ lib.during window, change.1 ∈ txs) :
    Moves (preserving (Orderly txs)) (handle lib call) := by
  have hnew (t : Transaction) (ht : t ∈ txs) :
      Moves (preserving (Orderly txs)) (onNewTransaction lib t) :=
    moves_newTransaction (orderly_handling ht hlib) (orderly_track t)
  cases call with
  | onCoinsReceived t => exact hnew t (hc t rfl)
  | onCoinsSent t => exact hnew t (hc t rfl)
  | onReorganize => exact moves_native fun w h => orderly_told h _ fun _ hn => absurd rfl hn
  | onConfidenceChanged t reason =>
    cases reason with
    | type =>
      exact moves_confidenceChanged (orderly_handling (hc t rfl) hlib) (orderly_stopTracking t) .type
    | depth => exact moves_pure _
    | seenPeers => exact moves_pure _

/-- The two things to keep in a run. -/
def Follows (tx : Transaction) (w : World) : Prop :=
  w.orderly ∧ (tx ∈ w.theTransactions → Informed w tx)

theorem follows_of (h : Orderly txs w) (hi : tx ∈ txs → Informed w tx) : Follows tx w := by
  obtain rfl := h.same
  exact ⟨h, hi⟩

/-! ### One step -/

/-- What arrives in another wallet than the one in use does not count. -/
theorem theTransactions_receive (w : World) (ref : WalletRef) (hash : Sha256Hash) (inputs : List OutPoint)
    (type : ConfidenceType) :
    (w.receive ref hash inputs type).theTransactions = w.theTransactions ∨
      (w.receive ref hash inputs type).theTransactions =
        addKey Transaction.hash w.theTransactions ⟨w.nextTransaction, hash, inputs, none⟩ := by
  rw [World.receive]
  split
  · cases hw : w.wallet with
    | none => exact .inl (by simp [World.theTransactions, hw])
    | some r =>
      by_cases hr : r = ref
      · subst hr
        exact .inr (by simp [World.theTransactions, hw, Wallet.withTransaction])
      · exact .inl (by simp [World.theTransactions, hw, Heap.cell_write_ne hr])
  · exact .inl rfl

variable {ref : WalletRef}

theorem mem_theTransactions_receive {hash : Sha256Hash} {inputs : List OutPoint} {type : ConfidenceType}
    (h : tx ∈ w.theTransactions) : tx ∈ (w.receive ref hash inputs type).theTransactions := by
  rcases theTransactions_receive w ref hash inputs type with hsame | hmore
  · rwa [hsame]
  · rw [hmore]
    exact mem_addKey_of_mem h

theorem numbered_receive {hash : Sha256Hash} {inputs : List OutPoint} {type : ConfidenceType}
    (h : ∀ r, ∀ tx ∈ (w.wallets.cell r).transactions, tx.ref < w.nextTransaction) (r : WalletRef) :
    ∀ tx ∈ ((w.receive ref hash inputs type).wallets.cell r).transactions,
      tx.ref < (w.receive ref hash inputs type).nextTransaction := by
  rw [World.receive]
  split
  · intro tx htx
    rcases (loads_withTransaction w ref hash inputs).numbered r tx htx with hold | ⟨-, hlt⟩
    · exact Nat.lt_succ_of_lt (h r tx hold)
    · exact hlt
  · exact h r

theorem userThread_receive (hash : Sha256Hash) (inputs : List OutPoint) (type : ConfidenceType) :
    (w.receive ref hash inputs type).userThread = w.userThread := by
  rw [World.receive]
  split <;> rfl

theorem newsOf_receive (hash : Sha256Hash) (inputs : List OutPoint) (type : ConfidenceType)
    (txid : Sha256Hash) : (w.receive ref hash inputs type).newsOf txid = w.newsOf txid := by
  rw [World.receive]
  split <;> rfl

theorem orderly_receive (h : w.orderly) (hash : Sha256Hash) (inputs : List OutPoint)
    (type : ConfidenceType) : (w.receive ref hash inputs type).orderly := by
  refine ⟨rfl, numbered_receive h.numbered, ?_, ?_⟩
  · rw [userThread_receive]
    exact fun call hcall tx htx => mem_theTransactions_receive (h.queued call hcall tx htx)
  · intro txid hnews
    rw [newsOf_receive] at hnews
    obtain ⟨tx, htx, rfl⟩ := List.mem_map.mp (h.told txid hnews)
    exact List.mem_map_of_mem (mem_theTransactions_receive htx)

theorem hearing_receive {hash : Sha256Hash} {inputs : List OutPoint} (type : ConfidenceType)
    (hne : tx ≠ ⟨w.nextTransaction, hash, inputs, none⟩) :
    (hearing tx).rel w (w.receive ref hash inputs type) := by
  rw [World.receive]
  split
  · exact ⟨rfl, id, id, .inr (Function.update_of_ne hne ..)⟩
  · exact (hearing tx).refl w

theorem number_lt (h : w.orderly) (hm : tx ∈ w.theTransactions) : tx.ref < w.nextTransaction := by
  unfold World.theTransactions at hm
  split at hm
  · cases hm
  · exact h.numbered _ tx hm

/-- A transaction that arrives has never been reported, nor has any object with its hash. -/
theorem informed_receive (h : w.orderly) (hi : tx ∈ w.theTransactions → Informed w tx)
    (hash : Sha256Hash) (inputs : List OutPoint) (type : ConfidenceType)
    (hm : tx ∈ (w.receive ref hash inputs type).theTransactions) :
    Informed (w.receive ref hash inputs type) tx := by
  have hheld (hold : tx ∈ w.theTransactions) : Informed (w.receive ref hash inputs type) tx := by
    refine informed_of_hearing (hearing_receive type ?_) (hi hold)
    rintro rfl
    exact Nat.lt_irrefl _ (number_lt h hold)
  rcases theTransactions_receive w ref hash inputs type with hsame | hmore
  · exact hheld (hsame ▸ hm)
  · rw [hmore] at hm
    rcases mem_addKey hm with hold | ⟨rfl, hk⟩
    · exact hheld hold
    · refine informed_of_unreported ((newsOf_receive hash inputs type hash).trans ?_)
      by_contra hnews
      obtain ⟨t, ht, hth⟩ := List.mem_map.mp (h.told hash hnews)
      exact hasKey_false_iff.mp hk t ht hth

/-- Taking a call off the queue loses nothing unless it is the awaited one. -/
theorem informed_pop {call : UserThreadCall} {rest : List UserThreadCall}
    (hq : w.userThread = call :: rest) (hne : call ≠ .onConfidenceChanged tx .type)
    (h : Informed w tx) : Informed { w with activity := 0, userThread := rest } tx := by
  rcases h with hawaits | htrue
  · rw [World.awaits, hq] at hawaits
    exact .inl ((List.mem_cons.mp hawaits).resolve_left (Ne.symm hne))
  · exact .inr htrue

theorem informed_deliver (h : w.orderly) (hm : tx ∈ w.theTransactions) (hi : Informed w tx)
    (hr : ReportsFine tx w (.deliver lib)) (hc : ChangesHeard tx w (.deliver lib)) :
    Informed (step w (.deliver lib)) tx := by
  refine inv_deliver (fun _ => hi) (fun call rest hq => ?_) fun v e hv =>
    informed_of_hearing (hearing_told v rfl) hv
  have hchanges := hc call rest hq
  by_cases hs : call.subject = some tx
  · have hfine : reportFailure lib { w with activity := 0, userThread := rest } tx = none :=
      hr call (by rw [hq]; rfl) hs
    have hlate (window : Window) (hl : window.isEarly = false)
        (hw : tx ∈ (lib.during window).map Prod.fst) : w.hearsThrough call rest tx := by
      have hcase := hchanges window hw
      rw [if_pos hs, hl] at hcase
      exact hcase.resolve_right Bool.false_ne_true
    have hnew (hne : call ≠ .onConfidenceChanged tx .type) :
        Ends (onNewTransaction lib tx) { w with activity := 0, userThread := rest }
          fun _ v => Informed v tx := by
      refine informed_onNewTransaction hfine (fun window hl hw => ?_) (informed_pop hq hne hi)
      exact (hlate window hl hw).symm.imp And.left id
    cases call with
    | onCoinsReceived t =>
      cases hs
      exact hnew nofun
    | onCoinsSent t =>
      cases hs
      exact hnew nofun
    | onReorganize => cases hs
    | onConfidenceChanged t reason =>
      cases reason with
      | type =>
        cases hs
        refine informed_onConfidenceChanged hfine fun window hl hw => ?_
        exact (hlate window hl hw).imp id (And.imp_right fun hp => hp rfl)
      | depth => cases hs
      | seenPeers => cases hs
  · have hother (t : Transaction) (ht : call.subject = some t) : t.hash ≠ tx.hash := by
      intro hth
      have hmem := h.queued call (hq ▸ List.mem_cons_self) t ht
      exact hs (eq_of_key_eq (distinct_theTransactions w) hmem hm hth ▸ ht)
    have hne : call ≠ .onConfidenceChanged tx .type := fun he => hs (he ▸ rfl)
    have hpopped : Undisturbed lib tx { w with activity := 0, userThread := rest } := by
      refine ⟨informed_pop hq hne hi, fun window hw => ?_⟩
      have hcase := hchanges window hw
      rw [if_neg hs] at hcase
      exact hcase.imp (fun hthrough => hthrough.symm.imp And.left id) id
    exact (undisturbed_handle hother _ hpopped).1

theorem orderly_deliver (h : w.orderly) (hn : NewsEvent w (.deliver lib)) :
    Orderly w.theTransactions (step w (.deliver lib)) := by
  refine inv_deliver (fun _ => ⟨h.same, h.numbered, h.queued, h.told⟩) (fun call rest hq => ?_)
    fun v e hv => orderly_told hv _ fun _ hcall => absurd rfl hcall
  have hqueued := h.queued
  rw [hq] at hqueued
  refine orderly_handle (hqueued call List.mem_cons_self) hn _ ⟨h.same, h.numbered, ?_, h.told⟩
  exact fun c hmem => hqueued c (List.mem_cons_of_mem call hmem)

/-- Calls are queued. -/
theorem follows_queue (h : Follows tx w) {calls : List UserThreadCall}
    (hc : ∀ call ∈ calls, ∀ t, call.subject = some t → t ∈ w.theTransactions) :
    Follows tx { w with activity := 0, userThread := w.userThread ++ calls } :=
  follows_of (orderly_queue h.1 0 hc) fun hm => informed_of_hearing (hearing_queue 0 calls) (h.2 hm)

theorem follows_step (w : World) (l : Label) (h : Follows tx w)
    (hok : (NewsEvent w l ∧ ReportsFine tx w l) ∧ ChangesHeard tx w l) : Follows tx (step w l) := by
  obtain ⟨⟨hn, hr⟩, hc⟩ := hok
  have hstill : Follows tx { w with activity := 0 } :=
    follows_of ⟨h.1.same, h.1.numbered, h.1.queued, h.1.told⟩ h.2
  cases l with
  | receive ref hash inputs type =>
    exact ⟨orderly_receive hstill.1 hash inputs type,
      informed_receive hstill.1 hstill.2 hash inputs type⟩
  | coinsReceived ref t =>
    refine follows_queue h fun call hcall s hs => ?_
    rw [List.eq_of_mem_replicate hcall] at hs
    cases hs
    exact hn
  | coinsSent ref t =>
    refine follows_queue h fun call hcall s hs => ?_
    rw [List.eq_of_mem_replicate hcall] at hs
    cases hs
    exact hn
  | reorganize ref =>
    refine follows_queue h fun call hcall s hs => ?_
    rw [List.eq_of_mem_replicate hcall] at hs
    cases hs
  | confidenceDetail t reason =>
    refine follows_queue h fun call hcall s hs => ?_
    rw [List.eq_of_mem_replicate hcall] at hs
    cases reason with
    | type =>
      cases hs
      exact hn
    | depth => cases hs
    | seenPeers => cases hs
  | confidenceType t type =>
    refine follows_of (orderly_change hn type hstill.1) fun hm => ?_
    by_cases hnews : t = tx → w.confidence tx = type ∨ w.hears tx
    · exact informed_of_hearing (hearing_change (w := { w with activity := 0 }) hnews) (hstill.2 hm)
    · rw [Classical.not_imp] at hnews
      obtain ⟨ht, hunheard⟩ := hnews
      refine informed_of_unreported ((newsOf_change type _).trans ?_)
      rcases hc ht with hsame | hhears | hnone
      · exact absurd (.inl hsame) hunheard
      · exact absurd (.inr hhears) hunheard
      · exact hnone
  | deliver lib =>
    exact follows_of (orderly_deliver h.1 hn) fun hm => informed_deliver h.1 hm (h.2 hm) hr hc
  | _ => exact hn.elim

/-! ### Runs -/

/-- The labels that bring the manager up the first time. -/
def Label.setsUp : Label → Bool
  | .setTestingNetwork _ => true
  | .setDataDirectory _ => true
  | .setCheckpointsFilePath _ => true
  | .start _ => true
  | .createWallet _ _ => true
  | _ => false

/-- Nothing is queued yet, and no transaction has been reported. -/
structure Untold (w : World) : Prop where
  numbered : ∀ ref, ∀ tx ∈ (w.wallets.cell ref).transactions, tx.ref < w.nextTransaction
  queued : w.userThread = []
  told : ∀ txid, w.newsOf txid = []

theorem untold_lifecycle : IgnoresLifecycle (preserving Untold) where
  keys _ _ _ h := ⟨h.numbered, h.queued, h.told⟩
  wallets w ref f hf h := by
    refine ⟨fun r tx htx => ?_, h.queued, h.told⟩
    by_cases hr : r = ref
    · subst hr
      rw [Heap.cell_write_self, hf] at htx
      exact h.numbered r tx htx
    · rw [Heap.cell_write_ne hr] at htx
      exact h.numbered r tx htx
  network _ _ h := ⟨h.numbered, h.queued, h.told⟩
  wallet _ _ _ h := ⟨h.numbered, h.queued, h.told⟩
  chain _ _ _ _ _ h := ⟨h.numbered, h.queued, h.told⟩
  chainFiles _ _ h := ⟨h.numbered, h.queued, h.told⟩
  saved _ _ h := ⟨h.numbered, h.queued, h.told⟩
  loading w ws n c hl h := by
    refine ⟨fun ref tx htx => ?_, h.queued, h.told⟩
    rcases hl.numbered ref tx htx with hold | ⟨-, hlt⟩
    · exact Nat.lt_of_lt_of_le (h.numbered ref tx hold) hl.le
    · exact hlt
  balance w h := by
    refine ⟨h.numbered, h.queued, fun txid => ?_⟩
    have hother : NativeCall.onBalanceChanged.newsOf txid = none := rfl
    exact (newsOf_told_other w hother).trans (h.told txid)

theorem untold_code (l : Label) (hl : l.setsUp) : Moves (preserving Untold) l.code := by
  have hu := untold_lifecycle
  have hs (w : World) (s : Secrets) : (preserving Untold).rel w { w with secrets := s } :=
    fun h => ⟨h.numbered, h.queued, h.told⟩
  have hb {code : Java Unit} (hm : Moves (preserving Untold) code) :
      Moves (preserving Untold) (onBehalfOf 0 code) :=
    moves_bind (moves_modify fun w h => ⟨h.numbered, h.queued, h.told⟩) fun _ => hm
  have ht (tx : Transaction) : Moves (preserving Untold) (trackTransaction tx) :=
    moves_track (fun _ h => ⟨h.numbered, h.queued, h.told⟩) fun _ h => ⟨h.numbered, h.queued, h.told⟩
  cases l with
  | setTestingNetwork testing =>
    exact hb (moves_setTestingNetwork (fun _ _ h => ⟨h.numbered, h.queued, h.told⟩) testing)
  | setDataDirectory path =>
    exact hb (moves_setDataDirectory (fun _ _ h => ⟨h.numbered, h.queued, h.told⟩) path)
  | setCheckpointsFilePath path =>
    exact hb (moves_setCheckpointsFilePath (fun _ _ h => ⟨h.numbered, h.queued, h.told⟩) path)
  | start lib => exact hb (moves_start hu (moves_trackPending ht) lib)
  | createWallet lib password =>
    exact hb (moves_withPassword hs password fun array =>
      moves_createWallet hu hs (moves_trackPending ht) lib array)
  | _ => cases hl

theorem untold_run : ∀ (ups : List Label) (w : World), Untold w → (∀ l ∈ ups, l.setsUp) →
    Untold (run step w ups)
  | [], _, h, _ => h
  | l :: ups, w, h, hl =>
    untold_run ups (step w l) (untold_code l (hl l List.mem_cons_self) w h)
      fun k hk => hl k (List.mem_cons_of_mem l hk)

/-- In every run from a fresh start in which the manager hears of every change of type of `tx` that
    comes after its first report, the last news of `tx` is true once the user thread is idle. -/
theorem last_news_true (files : Files) (ups events : List Label) (tx : Transaction)
    (hups : ∀ l ∈ ups, l.setsUp)
    (hevents : Meets step (fun w l => NewsEvent w l ∧ ReportsFine tx w l)
      (run step (World.initial files) ups) events)
    (hheard : Meets step (ChangesHeard tx) (run step (World.initial files) ups) events)
    (htx : tx ∈ (run step (World.initial files) (ups ++ events)).theTransactions)
    (hidle : (run step (World.initial files) (ups ++ events)).userThread = []) :
    NewsTrue (run step (World.initial files) (ups ++ events)) tx := by
  have hup : Untold (run step (World.initial files) ups) :=
    untold_run ups _ ⟨fun _ _ h => absurd h List.not_mem_nil, rfl, fun _ => rfl⟩ hups
  have hstart : Follows tx (run step (World.initial files) ups) := by
    refine ⟨⟨rfl, hup.numbered, fun call hcall => ?_, fun txid hnews => ?_⟩, fun _ => ?_⟩
    · rw [hup.queued] at hcall
      cases hcall
    · exact absurd (hup.told txid) hnews
    · exact informed_of_unreported (hup.told _)
  rw [run_append] at htx hidle ⊢
  have hend := inv_meets follows_step _ events hstart (meets_and _ events hevents hheard)
  refine (hend.2 htx).resolve_left fun hawaits => ?_
  rw [World.awaits, hidle] at hawaits
  cases hawaits

/-! ### Concrete runs -/

def walletCreated : List Label := [.start .fair, .createWallet .fair none]

def arriving : Transaction := ⟨0, 10, [], none⟩

/-- A transaction arrives, is reported, and leaves the pending state; `lib` is there for the report of
    the change. -/
def leavingPending (lib : Lib) : List Label :=
  [.receive 0 10 [] .pending, .coinsReceived 0 arriving, .deliver .fair,
   .confidenceType arriving .building, .deliver lib]

/-- The confidence types told of a transaction. -/
def World.toldTypes (w : World) (txid : Sha256Hash) : List (Option JSONValue) :=
  (w.newsOf txid).map fun json => json.bind TransactionJSON.confidence

theorem deliver_fair (w : World) (tx : Transaction) :
    (NewsEvent w (.deliver .fair) ∧ ReportsFine tx w (.deliver .fair)) ∧
      ChangesHeard tx w (.deliver .fair) :=
  ⟨⟨fun _ _ h => absurd h List.not_mem_nil, fun _ _ _ => rfl⟩,
    fun _ _ _ _ h => absurd h List.not_mem_nil⟩

/-- The run up to the confirmation of the transaction, as bitcoinj makes it. -/
theorem leavingPending_events (ends : List Label)
    (hends : Meets step (fun w l => NewsEvent w l ∧ ReportsFine arriving w l)
      (run step (World.initial .none) (walletCreated ++ leavingPending .fair)) ends) :
    Meets step (fun w l => NewsEvent w l ∧ ReportsFine arriving w l)
      (run step (World.initial .none) walletCreated) (leavingPending .fair ++ ends) := by
  refine (meets_append _ _ _).mpr ⟨?_, by rwa [← run_append]⟩
  refine ⟨⟨trivial, trivial⟩, ⟨?_, trivial⟩, (deliver_fair _ _).1, ⟨?_, trivial⟩,
    (deliver_fair _ _).1, trivial⟩
  · change arriving ∈ World.theTransactions _
    decide +kernel
  · change arriving ∈ World.theTransactions _
    decide +kernel

/-- The manager listens when the transaction leaves the pending state. -/
theorem leavingPending_heard (lib : Lib) (hlib : lib.during = Lib.fair.during) :
    Meets step (ChangesHeard arriving) (run step (World.initial .none) walletCreated)
      (leavingPending lib) := by
  have hno (w : World) : ChangesHeard arriving w (.deliver lib) := by
    intro call rest _ window h
    rw [hlib] at h
    cases h
  refine ⟨trivial, trivial, (deliver_fair _ _).2, fun _ => .inr (.inl (.inl ?_)), hno _, trivial⟩
  decide +kernel

theorem last_news_true_leavingPending :
    (run step (World.initial .none) (walletCreated ++ leavingPending .fair)).toldTypes 10 =
        [some (.str "pending"), some (.str "building")] ∧
      NewsTrue (run step (World.initial .none) (walletCreated ++ leavingPending .fair)) arriving :=
  ⟨by decide +kernel, last_news_true .none walletCreated (leavingPending .fair) arriving (by decide)
    (leavingPending_events [] trivial) (leavingPending_heard .fair rfl) (by decide +kernel)
    (by decide +kernel)⟩

/-- The block of the transaction is dropped again. -/
def droppedFromChain : List Label := [.confidenceType arriving .pending, .reorganize 0, .deliver .fair]

/-- A library that fails wherever it can. -/
def Lib.failing : Lib := { Lib.fair with fails := fun _ => some nullPointerException }

theorem not_newsTrue {w : World} {tx : Transaction} (value : Option JSONValue)
    (hlast : (w.toldTypes tx.hash).getLast? = some value)
    (hne : value ≠ some (.str (w.confidence tx).text)) : ¬ NewsTrue w tx := by
  intro h
  rw [World.toldTypes, List.getLast?_map] at hlast
  obtain ⟨json, hjson, rfl⟩ := Option.map_eq_some_iff.mp hlast
  obtain ⟨report, rfl, hreport⟩ := h json hjson
  exact hne hreport

/-- The last news may be false: once it has told that a transaction is confirmed, the manager does not
    hear of the confirmation being undone; and a report that cannot be put together is not told. -/
theorem news_goes_stale :
    (¬ ∀ (files : Files) (ups events : List Label) (tx : Transaction), (∀ l ∈ ups, l.setsUp) →
      Meets step (fun w l => NewsEvent w l ∧ ReportsFine tx w l)
        (run step (World.initial files) ups) events →
      tx ∈ (run step (World.initial files) (ups ++ events)).theTransactions →
      (run step (World.initial files) (ups ++ events)).userThread = [] →
      NewsTrue (run step (World.initial files) (ups ++ events)) tx) ∧
    ¬ ∀ (files : Files) (ups events : List Label) (tx : Transaction), (∀ l ∈ ups, l.setsUp) →
      Meets step NewsEvent (run step (World.initial files) ups) events →
      Meets step (ChangesHeard tx) (run step (World.initial files) ups) events →
      tx ∈ (run step (World.initial files) (ups ++ events)).theTransactions →
      (run step (World.initial files) (ups ++ events)).userThread = [] →
      NewsTrue (run step (World.initial files) (ups ++ events)) tx := by
  refine ⟨fun h => ?_, fun h => ?_⟩
  · have hdropped : Meets step (fun w l => NewsEvent w l ∧ ReportsFine arriving w l)
        (run step (World.initial .none) (walletCreated ++ leavingPending .fair)) droppedFromChain := by
      refine ⟨⟨?_, trivial⟩, ⟨trivial, trivial⟩, (deliver_fair _ _).1, trivial⟩
      change arriving ∈ World.theTransactions _
      decide +kernel
    exact not_newsTrue (some (.str "building")) (by decide +kernel) (by decide +kernel)
      (h .none walletCreated (leavingPending .fair ++ droppedFromChain) arriving (by decide)
        (leavingPending_events _ hdropped) (by decide +kernel) (by decide +kernel))
  · refine not_newsTrue (some (.str "pending")) (by decide +kernel) (by decide +kernel)
      (h .none walletCreated (leavingPending .failing) arriving (by decide) ?_
        (leavingPending_heard .failing rfl) (by decide +kernel) (by decide +kernel))
    · refine ⟨trivial, ?_, (deliver_fair _ arriving).1.1, ?_, (deliver_fair _ arriving).1.1, trivial⟩
      · change arriving ∈ World.theTransactions _
        decide +kernel
      · change arriving ∈ World.theTransactions _
        decide +kernel

end BitcoinKit

import BitcoinKit.Java.Listening
import BitcoinKit.Java.Step

/-! The tracked transactions are the ones the manager listens to. Tracking goes by transaction hash,
    listening by object, so the two part when a call queued for one object is delivered while another
    object with its hash is tracked: the listener of the first is dropped, and the second leaves the
    tracking set. -/

namespace BitcoinKit
open Schemes

/-- The manager is registered once on every tracked object and on no other, and no hash is tracked
    twice. -/
def ListensToTracked (w : World) : Prop :=
  (∀ tx, w.registrations.count tx = if tx ∈ w.trackedTransactions then 1 else 0) ∧
    Distinct Transaction.hash w.trackedTransactions

/-- The two lists have the same objects. -/
structure Agree (tracked registrations : List Transaction) : Prop where
  listening : registrations.Perm tracked
  distinct : Distinct Transaction.hash tracked

def World.agrees (w : World) : Prop := Agree w.trackedTransactions w.registrations

theorem listensToTracked_of_agree {w : World} (h : w.agrees) : ListensToTracked w := by
  refine ⟨fun tx => ?_, h.distinct⟩
  have hnodup : w.trackedTransactions.Nodup := h.distinct.of_map
  rw [h.listening.count_eq]
  split
  · next hmem => exact List.count_eq_one_of_mem hnodup hmem
  · next hmem => exact List.count_eq_zero_of_not_mem hmem

theorem agree_track {tracked registrations : List Transaction} {tx : Transaction}
    (h : Agree tracked registrations) (hk : hasKey Transaction.hash tracked tx = false) :
    Agree (addKey Transaction.hash tracked tx) (tx :: registrations) := by
  refine ⟨?_, distinct_add h.distinct⟩
  rw [addKey, if_neg (by simp [hk])]
  exact h.listening.cons tx

/-- Untracking keeps the lists together when the object asked for is the one tracked. -/
theorem agree_untrack {tracked registrations : List Transaction} {tx : Transaction}
    (h : Agree tracked registrations) (hmem : tx ∈ tracked) :
    Agree (removeKey Transaction.hash tracked tx) (registrations.erase tx) := by
  refine ⟨?_, distinct_remove h.distinct⟩
  rw [removeKey_eq_erase h.distinct hmem]
  exact h.listening.erase tx

theorem agrees_work : IgnoresWork (preserving World.agrees) where
  keys _ _ _ h := h
  secrets _ _ h := h
  wallets _ _ _ _ h := h
  network _ _ h := h
  directories _ _ _ h := h
  wallet _ _ _ h := h
  chain _ _ _ _ _ h := h
  chainFiles _ _ h := h
  saved _ _ h := h
  loading _ _ _ _ _ h := h
  balance _ h := h
  built _ _ h := h
  waiting _ _ h := h
  stored _ _ _ h := h
  committed _ _ _ _ h := h
  confidence _ _ _ h := h
  news _ _ _ h := h
  bookkeeping _ _ _ _ h := h

theorem agrees_payments : IgnoresPayments (preserving World.agrees) where
  toIgnoresSending := agrees_work.toIgnoresSending
  numbered _ _ h := h
  loaded _ _ _ h := h
  removed _ _ h := h
  reports _ _ _ h := h

theorem agrees_trackTransaction (tx : Transaction) :
    Moves (preserving World.agrees) (trackTransaction tx) := by
  intro w h
  cases hk : hasKey Transaction.hash w.trackedTransactions tx with
  | true =>
    obtain ⟨-, hsame⟩ := ends_trackTransaction_again hk
    rw [hsame]
    exact h
  | false =>
    obtain ⟨-, -, htracked, hregs⟩ := ends_trackTransaction hk
    rw [World.agrees, htracked, hregs]
    exact agree_track h hk

/-- Untracking an object whose hash, if tracked, is tracked for that very object. -/
theorem agrees_stopTracking {w : World} {tx : Transaction} (h : w.agrees)
    (hsame : ∀ t ∈ w.trackedTransactions, t.hash = tx.hash → t = tx) :
    Ends (stopTrackingTransaction tx) w fun r v => r = .ok () ∧ v.agrees ∧
      v.trackedTransactions = removeKey Transaction.hash w.trackedTransactions tx := by
  refine ends_mono ends_stopTracking fun r v ⟨hr, _, htracked, hregs⟩ => ⟨hr, ?_, htracked⟩
  rw [World.agrees, htracked, hregs]
  split
  · next hk =>
    obtain ⟨t, ht, hth⟩ := hasKey_iff.mp hk
    exact agree_untrack h (hsame t ht hth ▸ ht)
  · next hk =>
    rw [removeKey_of_not_hasKey (by simpa using hk)]
    exact h

/-- Untracking everything over a copy of the set asks for the very objects that are in it. -/
theorem agrees_untrackAll {w : World} (h : w.agrees) :
    Ends (forIn w.trackedTransactions PUnit.unit fun tx _ => do
      stopTrackingTransaction tx
      pure (ForInStep.yield PUnit.unit)) w fun
        | .ok _, v => v.agrees
        | .error _, _ => False := by
  refine ends_mono (ends_forIn (I := fun xs _ v => v.agrees ∧ v.trackedTransactions = xs)
    (E := fun _ _ => False) ?_ w.trackedTransactions PUnit.unit w ⟨h, rfl⟩) ?_
  · rintro tx xs b v ⟨hv, hxs⟩
    have hdist : Distinct Transaction.hash (tx :: xs) := hxs ▸ hv.distinct
    have hmem : tx ∈ v.trackedTransactions := hxs ▸ List.mem_cons_self
    have hsame : ∀ t ∈ v.trackedTransactions, t.hash = tx.hash → t = tx :=
      fun t ht hth => eq_of_key_eq hv.distinct ht hmem hth
    rw [ends_bind]
    refine ends_mono (agrees_stopTracking hv hsame) fun r u ⟨hr, hu, htracked⟩ => ?_
    rw [hr]
    rw [hxs, removeKey_head hdist] at htracked
    exact ⟨hu, htracked⟩
  · rintro r v hv
    cases r with
    | ok _ => exact hv.1
    | error e => exact hv

theorem agrees_resetBlockchain (lib : Lib) :
    Moves (preserving World.agrees) (resetBlockchain lib) := by
  have hl := agrees_work.toIgnoresLifecycle
  refine moves_catchIf ?_ fun _ => moves_throw _
  refine moves_bind (moves_shutdownBlockchain hl.toIgnoresChain.toIgnoresNetwork lib) fun _ => ?_
  refine moves_bind (moves_deleteBlockchainDataFile hl.toIgnoresChain lib) fun _ => ?_
  refine moves_bind (moves_modify fun w h => h) fun _ => ?_
  intro w h
  have hends : Ends (do
      let w ← get
      for tx in w.trackedTransactions do
        stopTrackingTransaction tx
      startBlockchain lib) w fun _ v => v.agrees := by
    rw [ends_bind, ends_get]
    dsimp only
    rw [ends_bind]
    refine ends_mono (agrees_untrackAll h) fun r v hv => ?_
    cases r with
    | ok _ =>
      exact moves_startBlockchain hl.toIgnoresInstalling (moves_trackPending agrees_trackTransaction) lib
        v hv
    | error e => exact hv.elim
  exact hends

/-- The object a queued call reports a change of type of. -/
def UserThreadCall.typeChanged : UserThreadCall → Option Transaction
  | .onConfidenceChanged tx .type => some tx
  | _ => none

/-- A change of type is delivered for an object that stopped being pending only if no other object
    with its hash is tracked. -/
def DeliversFresh (w : World) (l : Label) : Prop :=
  l.isDelivery → ∀ call ∈ w.userThread.head?, ∀ tx ∈ call.typeChanged, w.confidence tx ≠ .pending →
    ∀ t ∈ w.trackedTransactions, t.hash = tx.hash → t = tx

instance (w : World) (l : Label) : Decidable (DeliversFresh w l) :=
  inferInstanceAs (Decidable (l.isDelivery → ∀ call ∈ w.userThread.head?, ∀ tx ∈ call.typeChanged,
    w.confidence tx ≠ .pending → ∀ t ∈ w.trackedTransactions, t.hash = tx.hash → t = tx))

theorem agrees_onConfidenceChanged (lib : Lib) {w : World} {tx : Transaction} {reason : ChangeReason}
    (h : w.agrees) (hsame : reason = .type → w.confidence tx ≠ .pending →
      ∀ t ∈ w.trackedTransactions, t.hash = tx.hash → t = tx) :
    Ends (onConfidenceChanged lib tx reason) w fun _ v => v.agrees := by
  unfold onConfidenceChanged
  rw [ends_ite]
  split
  · next htype =>
    rw [ends_bind, ends_isPending]
    dsimp only
    refine ends_bind_of_moves (R := onlyConfidence)
      (moves_interleave (fun _ _ _ => rfl) lib .beforeUnlistening) ?_ ?_
    · rintro _ v hv
      have htell := moves_tellChanged agrees_work.toIgnoresNews lib tx
      have hagree : v.agrees := by rw [hv]; exact h
      rw [ends_bind, ends_ite]
      split
      · exact htell v hagree
      · next hpending =>
        have hsame' : ∀ t ∈ v.trackedTransactions, t.hash = tx.hash → t = tx := by
          rw [hv]; exact hsame htype (by simpa using hpending)
        refine ends_mono (agrees_stopTracking hagree hsame') fun r u ⟨hr, hu, _⟩ => ?_
        rw [hr]
        exact htell u hu
    · rintro e v hv
      rw [hv]
      exact h
  · exact h

theorem agrees_handle (lib : Lib) {w : World} {call : UserThreadCall} (h : w.agrees)
    (hfresh : ∀ tx ∈ call.typeChanged, w.confidence tx ≠ .pending →
      ∀ t ∈ w.trackedTransactions, t.hash = tx.hash → t = tx) :
    Ends (handle lib call) w fun _ v => v.agrees := by
  have hnew := moves_onNewTransaction agrees_work.toIgnoresNews agrees_trackTransaction lib
  cases call with
  | onCoinsReceived tx => exact hnew tx w h
  | onCoinsSent tx => exact hnew tx w h
  | onReorganize => exact h
  | onConfidenceChanged tx reason =>
    exact agrees_onConfidenceChanged lib h fun hr => hfresh tx (by rw [hr]; rfl)

theorem agrees_deliver (lib : Lib) {w : World} (h : w.agrees)
    (hfresh : DeliversFresh w (.deliver lib)) : (step w (.deliver lib)).agrees := by
  refine inv_deliver (fun _ => h) (fun call rest hq => ?_) fun _ _ hv => hv
  have hhead := hfresh rfl call (by rw [hq]; rfl)
  exact agrees_handle lib h hhead

theorem agrees_step (w : World) (l : Label) (h : w.agrees) (hok : DeliversFresh w l) :
    (step w l).agrees := by
  cases hl : l.isDelivery with
  | false =>
    exact moves_code agrees_work agrees_trackTransaction l hl (fun lib _ => agrees_resetBlockchain lib)
      (fun _ _ => moves_modify fun _ h => h)
      (moves_answering agrees_work.toIgnoresTraffic agrees_payments agrees_trackTransaction
        (fun _ => moves_modify fun _ h => h) l) w h
  | true =>
    cases l with
    | deliver lib => exact agrees_deliver lib h hok
    | _ => cases hl

/-- In every run in which changes of type are delivered fresh, the manager listens to the tracked
    transactions, once each, and to no others. -/
theorem listens_to_tracked (files : Files) (ls : List Label)
    (h : Meets step DeliversFresh (World.initial files) ls) :
    ListensToTracked (run step (World.initial files) ls) :=
  listensToTracked_of_agree (inv_meets (I := World.agrees) agrees_step _ ls
    ⟨List.Perm.nil, distinct_nil⟩ h)

/-- A transaction arrives, is tracked, and is confirmed. -/
def confirmed : List Label :=
  [.start .fair, .createWallet .fair none, .receive 0 10 [] .pending,
   .coinsReceived 0 ⟨0, 10, [], none⟩, .deliver .fair,
   .confidenceType ⟨0, 10, [], none⟩ .building, .deliver .fair]

theorem listens_to_tracked_confirmed :
    (run step (World.initial .none) (confirmed.take 6)).registrations = [⟨0, 10, [], none⟩] ∧
      ListensToTracked (run step (World.initial .none) confirmed) :=
  ⟨by decide +kernel, listens_to_tracked .none confirmed (by decide +kernel)⟩

/-- The network brings a payment before its ack does: the copy from the network is tracked, confirmed
    and dropped by a reset; the ack has the payment itself tracked; only then is the confirmation of
    the copy delivered. -/
def confirmationOverReset : List Label :=
  requestLoaded .withPaymentUrl ++
    [.sendPaymentRequest (.spending 10 1) 1 none 2,
     .receive 0 10 [⟨1, 0⟩] .pending,
     .coinsSent 0 ⟨1, 10, [⟨1, 0⟩], none⟩,
     .deliver .fair,
     .confidenceType ⟨1, 10, [⟨1, 0⟩], none⟩ .building,
     .resetBlockchain .fair,
     .complete .fair 0 none,
     .deliver .fair]

theorem confirmationOverReset_parts_lists :
    ¬ ∀ (files : Files) (ls : List Label), ListensToTracked (run step (World.initial files) ls) := by
  intro h
  have hregs : (run step (World.initial .none) confirmationOverReset).registrations =
      [⟨0, 10, [⟨1, 0⟩], some 0⟩] := by decide +kernel
  have htracked : (run step (World.initial .none) confirmationOverReset).trackedTransactions = [] := by
    decide +kernel
  have hcount := (h .none confirmationOverReset).1 ⟨0, 10, [⟨1, 0⟩], some 0⟩
  rw [hregs, htracked] at hcount
  simp at hcount

end BitcoinKit

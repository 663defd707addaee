import BitcoinKit.Java.Calm
import BitcoinKit.Properties.News

/-! A transaction is announced at most once between two changes of its confidence type:

        wallet event, ack ──▶ tracked?  ── yes ──▶ nothing
                                 └─ no ──▶ announced, tracked if pending
        type changes      ──▶ listened to? ── yes ──▶ queued ──▶ announced, untracked if not pending

    That holds in the runs in which every second event about the transaction finds it tracked, and in
    which its type changes only when no call about an earlier change is left to handle. The tracking set
    holds pending transactions only, so the second event about one that is confirmed by then is taken for
    the first. -/

namespace BitcoinKit
open Schemes

/-- Between two changes of type there is at most one announcement. -/
def AnnouncedOnce (log : List Notice) : Prop :=
  ∀ later between earlier, log = later ++ between ++ earlier → .changed ∉ between →
    between.count .announced ≤ 1

/-! ### The events and the condition -/

/-- The transaction a future waits for the ack of. -/
def Pending.acked : Pending → Option Transaction
  | .ack _ tx _ _ => some tx
  | _ => none

/-- Wallet events, changes of confidence and acks; none is about another object with the hash of `tx`,
    unless it is an ack that the wallet refuses since it has that object. -/
def EventFor (tx : Transaction) (w : World) : Label → Prop
  | .receive _ _ _ _ => True
  | .coinsReceived _ t => t.hash = tx.hash → t = tx
  | .coinsSent _ t => t.hash = tx.hash → t = tx
  | .reorganize _ => True
  | .confidenceType _ _ => True
  | .confidenceDetail _ reason => reason ≠ .type
  | .complete lib index none => ∀ future, w.pending[index]? = some future →
    ∀ t, future.acked = some t → t.hash = tx.hash → t = tx ∨ commitFailure lib w t ≠ none
  | .complete _ _ (some _) => True
  | .deliver _ => True
  | _ => False

/-- `tx` is tracked, or was never announced. -/
def World.recognises (w : World) (tx : Transaction) : Prop :=
  hasKey Transaction.hash w.trackedTransactions tx ∨ w.newsOf tx.hash = []

/-- A wallet event or an ack about `tx` finds it tracked, unless it is the first. -/
def FindsTracked (tx : Transaction) (w : World) : Label → Prop
  | .complete lib index none => ∀ future, w.pending[index]? = some future →
    future.acked = some tx → commitFailure lib w tx = none → w.recognises tx
  | .deliver _ => ∀ call ∈ w.userThread.head?, call = .onCoinsReceived tx ∨ call = .onCoinsSent tx →
    w.recognises tx
  | _ => True

/-- The changes of the type of `tx` in all windows of a handler. -/
def Lib.changesTo (lib : Lib) (tx : Transaction) : Nat :=
  BitcoinKit.changesTo tx (lib.during .beforeListening) +
    BitcoinKit.changesTo tx (lib.during .afterSnapshot) +
    BitcoinKit.changesTo tx (lib.during .beforeSnapshot) +
    BitcoinKit.changesTo tx (lib.during .beforeUnlistening)

/-- The type of `tx` changes while the manager listens only if no call about an earlier change is left:
    none is queued, and none is being handled, except after it took `tx` off the tracking set. -/
def ChangesApart (tx : Transaction) (w : World) : Label → Prop
  | .confidenceType t type => t = tx → w.confidence tx ≠ type → w.roomFor tx 1
  | .complete lib index none => ∀ future, w.pending[index]? = some future →
    ∀ t, future.acked = some t →
      if t = tx then w.confidence tx ≠ .pending → w.roomFor tx 1 else w.roomFor tx (lib.changesTo tx)
  | .deliver lib => ∀ call ∈ w.userThread.head?, ∀ t, call.subject = some t →
    if call = .onConfidenceChanged tx .type then
      ∀ window, changesTo tx (lib.during window) ≠ 0 →
        window ≠ .beforeUnlistening ∧ w.confidence tx ≠ .pending
    else t ≠ tx → w.roomFor tx (lib.changesTo tx)
  | _ => True

/-- The manager is about to hear of `tx`: nothing is queued about it, nothing was told of it, and if the
    manager listens to it already it does so once. -/
structure Unheard (tx : Transaction) (w : World) : Prop where
  queued : ∀ call ∈ w.userThread, ∀ t, call.subject = some t → t.hash ≠ tx.hash
  told : w.newsOf tx.hash = []
  single : w.registrations.count tx ≤ 1
  only : ∀ t ∈ w.registrations, t.hash = tx.hash → t = tx
  tracked : tx ∈ w.registrations → hasKey Transaction.hash w.trackedTransactions tx

variable {lib : Lib} {tx t : Transaction} {w v : World} {log : List Notice} {s : World × List Notice}
  {n : Nat}

theorem calm_of_unheard (h : Unheard tx w) : Calm tx 0 (w, []) := by
  have hnone : ¬ w.awaits tx := fun ha => h.queued _ ha tx rfl rfl
  refine ⟨List.isChain_nil, h.single, h.only, h.tracked, fun call hcall t hs ht => ?_, fun _ => ?_,
    fun ha => absurd ha hnone, fun ha => absurd ha hnone, nofun⟩
  · exact absurd ht (h.queued call hcall t hs)
  · rw [World.waiting, List.count_eq_zero_of_not_mem hnone]
    exact Nat.zero_le 1

theorem announcedOnce_of_calm (h : Calm tx n s) : AnnouncedOnce s.2 := by
  intro later between earlier hlog hno
  have hbetween : between.IsChain fun a b => a = .announced → b = .changed :=
    h.apart.infix ⟨later, earlier, hlog.symm⟩
  rcases between with _ | ⟨a, _ | ⟨b, rest⟩⟩
  · exact Nat.zero_le 1
  · exact List.count_le_length
  · simp only [List.mem_cons, not_or] at hno
    have ha : a = .announced := by
      cases a with
      | announced => rfl
      | changed => exact absurd rfl hno.1
    have hb : b = .changed := (List.isChain_cons_cons.mp hbetween).1 ha
    exact absurd hb.symm hno.2.1

/-! ### The handlers -/

theorem aside_told {call : NativeCall} (h : call.newsOf tx.hash = none) :
    (aside tx).rel w (w.told call) := by
  simp only [aside, keeping, newsOf_told_other w h]
  rfl

theorem aside_native (call : NativeCall) (h : call.newsOf tx.hash = none) :
    Moves (aside tx) (native call) := moves_native fun _ => aside_told h

theorem calm_balance (h : Calm tx n s) : Calm tx n (s.1.told .onBalanceChanged, s.2) :=
  calm_aside (aside_told rfl) h

/-- A report of another transaction is put together, and `next` runs. -/
theorem ends_snapshot_other (lib : Lib) (t : Transaction)
    (next : Option TransactionJSON → Watching (List Notice) Unit)
    (h : Calm tx (n + changesTo tx (lib.during .afterSnapshot) +
      changesTo tx (lib.during .beforeSnapshot)) s)
    (hnext : ∀ json v, Calm tx n v → Ends (next json) v fun _ u => Calm tx 0 u) :
    Ends (do
      quiet (native .onBalanceChanged)
      Announced.interleave tx lib .beforeSnapshot
      let json ← quiet (reportOrNull lib t)
      Announced.interleave tx lib .afterSnapshot
      next json) s fun _ v => Calm tx 0 v := by
  rw [ends_bind, ends_quiet, ends_told]
  dsimp only
  rw [ends_bind, ends_changes]
  dsimp only
  have hbefore := calm_changes (lib.during .beforeSnapshot) _ (calm_balance h)
  refine ends_bind_quiet (R := aside tx) (moves_reportOrNull lib t) (fun json v hv => ?_) fun e v hv => ?_
  · rw [ends_bind, ends_changes]
    exact hnext json _ (calm_changes (lib.during .afterSnapshot) _ (calm_aside hv hbefore))
  · exact calm_mono (Nat.zero_le _) (calm_aside hv hbefore)

/-- The same for `tx`, whose type changes only while it is not listened to. -/
theorem ends_snapshot_own (lib : Lib)
    (next : Option TransactionJSON → Watching (List Notice) Unit) (h : Due tx s)
    (hbefore : changesTo tx (lib.during .beforeSnapshot) ≠ 0 → tx ∉ s.1.registrations)
    (hafter : changesTo tx (lib.during .afterSnapshot) ≠ 0 → tx ∉ s.1.registrations)
    (hnext : ∀ json v, v.1.registrations = s.1.registrations → Due tx v →
      Ends (next json) v fun _ u => Calm tx 0 u) :
    Ends (do
      quiet (native .onBalanceChanged)
      Announced.interleave tx lib .beforeSnapshot
      let json ← quiet (reportOrNull lib tx)
      Announced.interleave tx lib .afterSnapshot
      next json) s fun _ v => Calm tx 0 v := by
  have htold : Due tx (s.1.told .onBalanceChanged, s.2) := ⟨calm_balance h.toCalm, h.silent, h.unsaid⟩
  rw [ends_bind, ends_quiet, ends_told]
  dsimp only
  rw [ends_bind, ends_changes]
  dsimp only
  have hdue := due_changes (s := (s.1.told .onBalanceChanged, s.2)) hbefore htold
  have hregs := registrations_changes tx (s.1.told .onBalanceChanged, s.2)
    (lib.during .beforeSnapshot)
  generalize (lib.during .beforeSnapshot).foldl (Announced.change tx)
    (s.1.told .onBalanceChanged, s.2) = u at hdue hregs ⊢
  obtain ⟨u, log⟩ := u
  refine ends_bind_quiet (R := keeping id) (moves_reportOrNull lib tx) (fun json v hv => ?_)
    fun e v hv => ?_
  · obtain rfl : v = u := hv
    have hdeaf (hc : changesTo tx (lib.during .afterSnapshot) ≠ 0) : tx ∉ v.registrations :=
      hregs.symm ▸ hafter hc
    rw [ends_bind, ends_changes]
    exact hnext json _ ((registrations_changes tx _ _).trans hregs) (due_changes hdeaf hdue)
  · obtain rfl : v = u := hv
    exact hdue.toCalm

theorem calm_new_other (ht : t.hash ≠ tx.hash) (h : Calm tx (lib.changesTo tx) s) :
    Ends (Announced.onNewTransaction tx lib t) s fun _ v => Calm tx 0 v := by
  unfold Announced.onNewTransaction
  rw [ends_bind, ends_quiet, ends_get]
  dsimp only
  rw [ends_ite]
  split
  · exact calm_mono (Nat.zero_le _) h
  · have hroom : Calm tx (0 + changesTo tx (lib.during .beforeListening) +
        changesTo tx (lib.during .afterSnapshot) + changesTo tx (lib.during .beforeSnapshot)) s := by
      refine calm_mono ?_ h
      rw [Lib.changesTo]
      omega
    refine ends_snapshot_other lib t _ hroom fun json v hv => ?_
    rw [ends_bind, ends_noted_told]
    have htold := calm_announced_other json ht hv
    dsimp only
    rw [ends_bind, ends_quiet, ends_isPending]
    dsimp only
    rw [ends_ite]
    split
    · rw [ends_bind, ends_changes]
      dsimp only
      rw [ends_quiet]
      exact calm_track_other ht (calm_changes _ _ htold)
    · exact calm_mono (Nat.zero_le _) htold

/-- It is told only if it is not tracked, and then it was not told before. -/
theorem calm_new_own (h : Calm tx 0 s) (hfirst : s.1.recognises tx) :
    Ends (Announced.onNewTransaction tx lib tx) s fun _ v => Calm tx 0 v := by
  unfold Announced.onNewTransaction
  rw [ends_bind, ends_quiet, ends_get]
  dsimp only
  rw [ends_ite]
  split
  · exact h
  · next hk =>
    have hdeaf : tx ∉ s.1.registrations := fun hm => hk (h.tracked hm)
    have hnews : s.1.newsOf tx.hash = [] := hfirst.resolve_left hk
    have hdue : Due tx s := ⟨h, fun ha => hdeaf (h.heard ha), fun hl => h.told hl hnews⟩
    refine ends_snapshot_own lib _ hdue (fun _ => hdeaf) (fun _ => hdeaf) fun json v hregs hv => ?_
    rw [ends_bind, ends_noted_told]
    have htold := calm_mono (Nat.zero_le 1) (calm_announced json hv)
    have hsilent : ¬ (v.1.told (.onTransactionChanged tx.hash json)).awaits tx := hv.silent
    have hstill : tx ∉ (v.1.told (.onTransactionChanged tx.hash json)).registrations :=
      hregs.symm ▸ hdeaf
    dsimp only
    rw [ends_bind, ends_quiet, ends_isPending]
    dsimp only
    rw [ends_ite]
    split
    · rw [ends_bind, ends_changes]
      dsimp only
      rw [ends_quiet]
      exact calm_track_own (calm_changes_deaf (fun _ => hstill) htold)
        (silent_changes (fun _ => hstill) hsilent)
    · exact htold

theorem calm_type_other (ht : t.hash ≠ tx.hash) (h : Calm tx (lib.changesTo tx) s) :
    Ends (Announced.onConfidenceChanged tx lib t .type) s fun _ v => Calm tx 0 v := by
  have hroom : Calm tx (0 + changesTo tx (lib.during .afterSnapshot) +
      changesTo tx (lib.during .beforeSnapshot) + changesTo tx (lib.during .beforeUnlistening)) s := by
    refine calm_mono ?_ h
    rw [Lib.changesTo]
    omega
  unfold Announced.onConfidenceChanged
  rw [if_pos rfl, ends_bind, ends_quiet, ends_isPending]
  dsimp only
  rw [ends_bind, ends_changes]
  have hv := calm_changes (lib.during .beforeUnlistening) s hroom
  generalize (lib.during .beforeUnlistening).foldl (Announced.change tx) s = v at hv ⊢
  have htell (u : World) (hu : Calm tx _ (u, v.2)) := ends_snapshot_other lib t
    (fun json => noted (entered tx) (native (.onTransactionChanged t.hash json))) hu fun json x hx =>
      ends_noted_told.mpr (calm_announced_other json ht hx)
  dsimp only
  rw [ends_bind, ends_quiet, ends_ite]
  split
  · exact htell v.1 hv
  · refine ends_mono (ends_and (calm_untrack_other ht hv) ends_stopTracking) ?_
    rintro r u ⟨hu, hr, -⟩
    rw [hr]
    exact htell u hu

/-- It is told, and either its type does not change meanwhile or it is taken off the tracking set. -/
theorem calm_type_own (h : Due tx s) (hchanges : ∀ window, changesTo tx (lib.during window) ≠ 0 →
      window ≠ .beforeUnlistening ∧ s.1.confidence tx ≠ .pending) :
    Ends (Announced.onConfidenceChanged tx lib tx .type) s fun _ v => Calm tx 0 v := by
  unfold Announced.onConfidenceChanged
  rw [if_pos rfl, ends_bind, ends_quiet, ends_isPending]
  dsimp only
  rw [ends_bind, ends_changes]
  have hv := due_changes (fun hc => absurd rfl (hchanges .beforeUnlistening hc).1) h
  generalize (lib.during .beforeUnlistening).foldl (Announced.change tx) s = v at hv ⊢
  have htell (u : World) (hu : Due tx (u, v.2))
      (hc : ∀ window, changesTo tx (lib.during window) ≠ 0 → tx ∉ u.registrations) :=
    ends_snapshot_own lib (fun json => noted (entered tx) (native (.onTransactionChanged tx.hash json)))
      hu (hc .beforeSnapshot) (hc .afterSnapshot) fun json x _ hx =>
        ends_noted_told.mpr (calm_mono (Nat.zero_le 1) (calm_announced json hx))
  dsimp only
  rw [ends_bind, ends_quiet, ends_ite]
  split
  · next hp => exact htell v.1 hv fun window hc => absurd (of_decide_eq_true hp) (hchanges window hc).2
  · refine ends_mono (due_untrack_own hv) ?_
    rintro r u ⟨hr, hu, hdeaf⟩
    rw [hr]
    exact htell u hu fun _ _ => hdeaf

/-! ### One step -/

theorem calm_pop {call : UserThreadCall} {rest : List UserThreadCall}
    (hq : s.1.userThread = call :: rest) (h : Calm tx n s) :
    Calm tx n ({ s.1 with activity := 0, userThread := rest }, s.2) := by
  have hmem (c : UserThreadCall) (hc : c ∈ rest) : c ∈ s.1.userThread := by
    rw [hq]
    exact List.mem_cons_of_mem call hc
  refine ⟨h.apart, h.single, h.only, h.tracked, fun c hc => h.queued c (hmem c hc), fun hm => ?_,
    fun ha => h.heard (hmem _ ha), fun ha => h.fresh (hmem _ ha), h.told⟩
  have hroom := h.room hm
  rw [World.waiting, hq] at hroom
  have hle : rest.count (.onConfidenceChanged tx .type) ≤
      (call :: rest).count (.onConfidenceChanged tx .type) := List.count_le_count_cons
  exact Nat.le_trans (Nat.add_le_add_right hle n) hroom

/-- With the call about its change taken from the queue, `tx` is to be announced. -/
theorem due_pop {rest : List UserThreadCall} (hq : s.1.userThread = .onConfidenceChanged tx .type :: rest)
    (h : Calm tx 0 s) : Due tx ({ s.1 with activity := 0, userThread := rest }, s.2) := by
  have hawaits : s.1.awaits tx := by
    rw [World.awaits, hq]
    exact List.mem_cons_self
  refine ⟨calm_pop hq h, fun ha => ?_, h.fresh hawaits⟩
  have hroom := h.room (h.heard hawaits)
  rw [World.waiting, hq, List.count_cons_self] at hroom
  have hpos : 0 < rest.count (.onConfidenceChanged tx .type) := List.count_pos_iff.mpr ha
  omega

theorem calm_handle {call : UserThreadCall} {rest : List UserThreadCall}
    (hq : s.1.userThread = call :: rest) (h : Calm tx 0 s)
    (hfinds : FindsTracked tx s.1 (.deliver lib)) (happart : ChangesApart tx s.1 (.deliver lib)) :
    Ends (Announced.handle tx lib call) ({ s.1 with activity := 0, userThread := rest }, s.2)
      fun _ v => Calm tx 0 v := by
  have hfirst := hfinds call (hq ▸ rfl)
  have hroom := happart call (hq ▸ rfl)
  have hqueued := h.queued call (hq ▸ List.mem_cons_self)
  have hpopped := calm_pop hq h
  have hother (t : Transaction) (hs : call.subject = some t) (ht : t.hash ≠ tx.hash) :
      Calm tx (lib.changesTo tx) ({ s.1 with activity := 0, userThread := rest }, s.2) := by
    have hne : call ≠ .onConfidenceChanged tx .type := by
      rintro rfl
      cases hs
      exact ht rfl
    have hafter := hroom t hs
    rw [if_neg hne] at hafter
    exact calm_pop hq { h with room := hafter fun he => ht (congrArg Transaction.hash he) }
  have hnew (t : Transaction) (hc : call = .onCoinsReceived t ∨ call = .onCoinsSent t) :
      Ends (Announced.onNewTransaction tx lib t)
        ({ s.1 with activity := 0, userThread := rest }, s.2) fun _ v => Calm tx 0 v := by
    have hs : call.subject = some t := by rcases hc with rfl | rfl <;> rfl
    by_cases ht : t.hash = tx.hash
    · obtain rfl := hqueued t hs ht
      exact calm_new_own hpopped (hfirst hc)
    · exact calm_new_other ht (hother t hs ht)
  cases call with
  | onCoinsReceived t => exact hnew t (.inl rfl)
  | onCoinsSent t => exact hnew t (.inr rfl)
  | onReorganize => exact calm_balance hpopped
  | onConfidenceChanged t reason =>
    cases reason with
    | type =>
      by_cases ht : t.hash = tx.hash
      · obtain rfl := hqueued t rfl ht
        have hwindows := hroom t rfl
        rw [if_pos rfl] at hwindows
        exact calm_type_own (due_pop hq h) hwindows
      · exact calm_type_other ht (hother t rfl ht)
    | depth => exact hpopped
    | seenPeers => exact hpopped

theorem calm_deliver (s : World × List Notice) (h : Calm tx 0 s) (hfinds : FindsTracked tx s.1 (.deliver lib))
    (happart : ChangesApart tx s.1 (.deliver lib)) :
    Calm tx 0 (Announced.step tx s (.deliver lib)) := by
  obtain ⟨w, log⟩ := s
  have hends : Ends (Watched.onBehalfOf 0 (Announced.deliverNext tx lib)) (w, log)
      fun _ v => Calm tx 0 v := by
    unfold Watched.onBehalfOf Announced.deliverNext
    rw [ends_bind, ends_quiet, ends_modify]
    dsimp only
    rw [ends_bind, ends_quiet, ends_get]
    dsimp only
    have hidle : Calm tx 0 ({ w with activity := 0 }, log) := calm_aside (w := w) rfl h
    cases hq : w.userThread with
    | nil =>
      rw [hq] at hidle
      exact hidle
    | cons call rest =>
      dsimp only
      rw [ends_bind, ends_quiet, ends_modify]
      dsimp only
      rw [ends_tryCatch]
      refine ends_mono (calm_handle hq h hfinds happart) fun r v hv => ?_
      cases r with
      | ok _ => exact hv
      | error e =>
        dsimp only
        rw [ends_quiet, uncaughtException, ends_told]
        exact calm_aside (aside_told rfl) hv
  exact hends

/-- A commit that succeeds is a change of type to pending; `tx` is as new as before. -/
theorem ends_commitAside (tx : Transaction) : Ends (lib.commitTx t) w fun
    | .ok _, v => commitFailure lib w t = none ∧ (aside tx).rel (w.changeConfidence t .pending) v ∧
        v.confidence = (w.changeConfidence t .pending).confidence
    | .error _, v => v = w := by
  unfold Lib.commitTx theWallet modifyWallet commitFailure
  simp only [ends_bind, ends_get, ends_deref, ends_pure, ends_call, ends_ite, ends_throw, ends_modify]
  cases w.wallet with
  | none => exact rfl
  | some ref =>
    dsimp only
    cases lib.fails .commitTx with
    | some e => exact rfl
    | none =>
      dsimp only
      split
      · exact rfl
      · refine ⟨rfl, ?_⟩
        rw [World.changeConfidence, World.changeConfidence]
        dsimp only
        split
        · exact ⟨rfl, rfl⟩
        · exact ⟨rfl, rfl⟩

theorem recognises_aside (hv : (aside tx).rel w v) (h : w.recognises tx) : v.recognises tx := by
  simp only [aside, keeping, Prod.mk.injEq] at hv
  obtain ⟨-, htracked, -, hnews⟩ := hv
  rwa [World.recognises, htracked, hnews]

theorem recognises_change (type : ConfidenceType) (h : w.recognises tx) :
    (w.changeConfidence t type).recognises tx := by
  rw [World.recognises, newsOf_change]
  rw [World.changeConfidence]
  split <;> exact h

theorem ends_commit (hchange : Calm tx n (Announced.change tx s (t, .pending))) (h : Calm tx n s) :
    Ends (noted (entered tx) (lib.commitTx t)) s fun r v => Calm tx n v ∧
      ((∃ a, r = .ok a) → commitFailure lib s.1 t = none) ∧ (s.1.recognises tx → v.1.recognises tx) := by
  rw [ends_noted]
  refine ends_mono (ends_commitAside tx) fun r v hv => ?_
  cases r with
  | error e =>
    obtain rfl := hv
    have hlog : entered tx s.1 s.1 s.2 = s.2 := entered_of_same rfl rfl
    rw [hlog]
    exact ⟨h, nofun, id⟩
  | ok a =>
    obtain ⟨hfine, hv, hconfidence⟩ := hv
    have hnews : v.newsOf tx.hash = (s.1.changeConfidence t .pending).newsOf tx.hash := by
      simp only [aside, keeping, Prod.mk.injEq] at hv
      exact hv.2.2.2
    have hlog : entered tx s.1 v s.2 = entered tx s.1 (s.1.changeConfidence t .pending) s.2 := by
      rw [entered, entered, hnews, hconfidence]
    rw [hlog]
    exact ⟨calm_aside hv hchange, fun _ => hfine,
      fun hrec => recognises_aside hv (recognises_change .pending hrec)⟩

theorem ends_commit_refused (hfail : commitFailure lib s.1 t ≠ none) :
    Ends (noted (entered tx) (lib.commitTx t)) s fun r v => v = s ∧ ¬ ∃ a, r = .ok a := by
  rw [ends_noted]
  refine ends_mono (ends_commitAside tx) fun r v hv => ?_
  cases r with
  | error e =>
    obtain rfl := hv
    have hlog : entered tx s.1 s.1 s.2 = s.2 := entered_of_same rfl rfl
    rw [hlog]
    exact ⟨rfl, nofun⟩
  | ok a => exact absurd hv.1 hfail

theorem aside_answers : IgnoresAnswers (aside tx) where
  numbered _ _ := rfl
  loaded _ _ _ := rfl
  removed _ _ := rfl
  reports w call hcall := by
    refine aside_told ?_
    cases call with
    | onTransactionChanged txid json => cases hcall
    | _ => rfl

/-- An ack, by what holds of `tx` when the payment is committed. -/
theorem calm_onAck {P : World × List Notice → Prop} {sessionId callbackId : Int32}
    (hcommit : Ends (noted (entered tx) (lib.commitTx t)) s fun r v =>
      Calm tx 0 v ∧ ((∃ a, r = .ok a) → P v))
    (haside : ∀ w v log, (aside tx).rel w v → P (w, log) → P (v, log))
    (hnew : ∀ v, P v → Ends (Announced.onNewTransaction tx lib t) v fun _ u => Calm tx 0 u) :
    Ends (Announced.onAck tx lib sessionId t callbackId) s fun _ v => Calm tx 0 v := by
  unfold Announced.onAck
  have hcatch (v : World × List Notice) (e : Throwable) (hv : Calm tx 0 v) : Ends
      (quiet (native (.onPaymentRequestProcessingFailed callbackId e)) : Watching (List Notice) Unit)
      v fun _ u => Calm tx 0 u := by
    rw [ends_quiet, ends_told]
    exact calm_aside (aside_told rfl) hv
  rw [ends_catchIf]
  refine ends_mono (Q := fun _ v => Calm tx 0 v) ?_ fun r v hv => ?_
  · rw [ends_bind]
    refine ends_mono hcommit fun r v ⟨hcalm, hv⟩ => ?_
    cases r with
    | error e => exact hcalm
    | ok _ =>
      dsimp only
      rw [ends_bind, ends_quiet, removeSession, ends_modify]
      dsimp only
      rw [ends_bind]
      refine ends_mono (hnew _ (haside v.1 _ v.2 rfl (hv ⟨_, rfl⟩))) fun r u hu => ?_
      cases r with
      | error e => exact hu
      | ok _ =>
        dsimp only
        rw [ends_quiet]
        have htail : Moves (aside tx) (do
            lib.broadcastTransaction
            let ackDetails ← getPaymentRequestAckDetails lib
            native (.onPaymentRequestProcessed callbackId t.hash ackDetails)) :=
          moves_bind (moves_broadcast lib) fun _ => moves_bind
            (moves_bind (moves_call lib _) fun _ => moves_pure _) fun _ =>
              aside_native _ rfl
        exact ends_mono (ends_of_moves htail) fun _ x hx => calm_aside hx hu
  · cases r with
    | ok _ => exact hv
    | error e =>
      dsimp only
      split
      · exact hcatch v e hv
      · exact hv

theorem calm_ack {index : Nat} {sessionId callbackId : Int32} {call : Nat}
    (hq : s.1.pending[index]? = some (.ack sessionId t callbackId call)) (h : Calm tx 0 s)
    (hv : (aside tx).rel s.1 v ∧ v.confidence = s.1.confidence ∧
      commitFailure lib v t = commitFailure lib s.1 t)
    (hevent : EventFor tx s.1 (.complete lib index none))
    (hfinds : FindsTracked tx s.1 (.complete lib index none))
    (happart : ChangesApart tx s.1 (.complete lib index none)) :
    Ends (Announced.onAck tx lib sessionId t callbackId) (v, s.2) fun _ u => Calm tx 0 u := by
  obtain ⟨hv, hconfidence, hcommit⟩ := hv
  have hroom := happart _ hq t rfl
  by_cases ht : t.hash = tx.hash
  · by_cases hfail : commitFailure lib s.1 t = none
    · obtain rfl := (hevent _ hq t rfl ht).resolve_right fun hne => hne hfail
      have hrec := recognises_aside hv (hfinds _ hq rfl hfail)
      rw [if_pos rfl] at hroom
      have hcalm : Calm t 0 (v, s.2) := calm_aside hv h
      have hchange : Calm t 0 (Announced.change t (v, s.2) (t, .pending)) := by
        by_cases hp : v.confidence t = .pending
        · rwa [change_same (c := (t, .pending)) hp]
        · have hp' : s.1.confidence t ≠ .pending := hconfidence ▸ hp
          exact calm_change_own hp (calm_aside hv { h with room := hroom hp' })
      refine calm_onAck (P := fun u => Calm t 0 u ∧ u.1.recognises t)
        (ends_mono (ends_commit hchange hcalm) fun r u hu => ⟨hu.1, fun _ => ⟨hu.1, hu.2.2 hrec⟩⟩)
        (fun w u log hwu hw => ⟨calm_aside hwu hw.1, recognises_aside hwu hw.2⟩)
        fun u hu => calm_new_own hu.1 hu.2
    · have hcalm : Calm tx 0 (v, s.2) := calm_aside hv h
      refine calm_onAck (P := fun _ => False)
        (ends_mono (ends_commit_refused (hcommit ▸ hfail)) fun r u hu => ?_)
        (fun _ _ _ _ hw => hw) fun u hu => hu.elim
      exact ⟨hu.1 ▸ hcalm, fun hok => (hu.2 hok).elim⟩
  · have hne : t ≠ tx := fun he => ht (congrArg Transaction.hash he)
    rw [if_neg hne] at hroom
    have hcalm : Calm tx (lib.changesTo tx) (v, s.2) := calm_aside hv { h with room := hroom }
    have hchange := calm_change_other (c := (t, .pending)) hne hcalm
    refine calm_onAck (P := Calm tx (lib.changesTo tx))
      (ends_mono (ends_commit hchange hcalm) fun r u hu => ⟨calm_mono (Nat.zero_le _) hu.1, fun _ => hu.1⟩)
      (fun w u log hwu hw => calm_aside hwu hw) fun u hu => calm_new_other ht hu

theorem calm_complete {index : Nat} {failure : Option Throwable} (s : World × List Notice)
    (h : Calm tx 0 s) (hevent : EventFor tx s.1 (.complete lib index failure))
    (hfinds : FindsTracked tx s.1 (.complete lib index failure))
    (happart : ChangesApart tx s.1 (.complete lib index failure)) :
    Calm tx 0 (Announced.step tx s (.complete lib index failure)) := by
  obtain ⟨w, log⟩ := s
  have hquiet {code : Java Unit} {v : World} (hv : (aside tx).rel w v) (hm : Moves (aside tx) code) :
      Ends (quiet code : Watching (List Notice) Unit) (v, log) fun _ u => Calm tx 0 u := by
    rw [ends_quiet]
    exact ends_mono (ends_of_moves hm) fun _ u hu => calm_aside ((aside tx).trans hv hu) h
  have hends : Ends (Announced.completeFuture tx lib index failure) (w, log)
      fun _ v => Calm tx 0 v := by
    unfold Announced.completeFuture Watched.onBehalfOf
    rw [ends_bind, ends_quiet, ends_get]
    dsimp only
    cases hq : w.pending[index]? with
    | none => exact h
    | some future =>
      dsimp only
      rw [ends_bind, ends_quiet, ends_modify]
      dsimp only
      rw [ends_bind, ends_quiet, ends_modify]
      dsimp only
      have hv : (aside tx).rel w
          { w with pending := w.pending.eraseIdx index, activity := future.call } := rfl
      cases failure with
      | some error =>
        exact hquiet hv (moves_onFailure aside_answers error future fun _ _ =>
          aside_native .onTransactionFailed rfl)
      | none =>
        cases future with
        | session callbackId => exact hquiet hv (moves_onSessionLoaded aside_answers lib callbackId)
        | ack sessionId t callbackId call =>
          exact calm_ack hq h ⟨hv, rfl, rfl⟩ hevent hfinds happart
        | broadcast sessionId t callbackId call =>
          exact hquiet hv (moves_bind (moves_modify fun w => aside_answers.removed w sessionId)
            fun _ => aside_native (.onPaymentRequestProcessed callbackId t.hash []) rfl)
        | sent t => exact hquiet hv (aside_native (.onTransactionSuccess t.hash) rfl)
  exact hends

theorem calm_changed (h : Calm tx n (w, log)) : Calm tx n (w, .changed :: log) :=
  ⟨apart_changed h.apart, h.single, h.only, h.tracked, h.queued, h.room, h.heard,
    fun _ => head_changed _, fun hl => absurd hl (head_changed _)⟩

/-- A step that leaves the transaction aside, its type apart. -/
theorem calm_entered (hv : (aside tx).rel w v) (h : Calm tx n (w, log)) :
    Calm tx n (v, entered tx w v log) := by
  have hnews : v.newsOf tx.hash = w.newsOf tx.hash := by
    simp only [aside, keeping, Prod.mk.injEq] at hv
    exact hv.2.2.2
  rw [entered, hnews, if_pos rfl]
  split
  · exact calm_aside hv h
  · exact calm_changed (calm_aside hv h)

theorem calm_queue {calls : List UserThreadCall} (h : Calm tx n (w, log))
    (hown : .onConfidenceChanged tx .type ∉ calls)
    (hc : ∀ call ∈ calls, ∀ t, call.subject = some t → t.hash = tx.hash → t = tx) :
    Calm tx n ({ w with activity := 0, userThread := w.userThread ++ calls },
      entered tx w { w with activity := 0, userThread := w.userThread ++ calls } log) := by
  have hlog : entered tx w { w with activity := 0, userThread := w.userThread ++ calls } log = log :=
    entered_of_same rfl rfl
  have hawaits (ha : UserThreadCall.onConfidenceChanged tx .type ∈ w.userThread ++ calls) :
      w.awaits tx := (List.mem_append.mp ha).resolve_right hown
  rw [hlog]
  refine ⟨h.apart, h.single, h.only, h.tracked, fun call hcall t hs ht => ?_, fun hm => ?_,
    fun ha => h.heard (hawaits ha), fun ha => h.fresh (hawaits ha), h.told⟩
  · rcases List.mem_append.mp hcall with hcall | hcall
    · exact h.queued call hcall t hs ht
    · exact hc call hcall t hs ht
  · have hroom := h.room hm
    rw [World.waiting] at hroom ⊢
    rwa [List.count_append, List.count_eq_zero_of_not_mem hown]

theorem calm_step (s : World × List Notice) (l : Label) (h : Calm tx 0 s)
    (hok : (EventFor tx s.1 l ∧ FindsTracked tx s.1 l) ∧ ChangesApart tx s.1 l) :
    Calm tx 0 (Announced.step tx s l) := by
  obtain ⟨⟨hevent, hfinds⟩, happart⟩ := hok
  obtain ⟨w, log⟩ := s
  have hevents (ref : WalletRef) (call : UserThreadCall) (hne : call ≠ .onConfidenceChanged tx .type)
      (hc : ∀ t, call.subject = some t → t.hash = tx.hash → t = tx) :
      Calm tx 0 ({ w with activity := 0 }.walletEvent ref call,
        entered tx w ({ w with activity := 0 }.walletEvent ref call) log) := by
    refine calm_queue (w := w) h (fun hm => hne (List.eq_of_mem_replicate hm).symm) fun c hm => ?_
    rw [List.eq_of_mem_replicate hm]
    exact hc
  cases l with
  | receive ref hash inputs type =>
    refine calm_entered ?_ h
    change (aside tx).rel w (World.receive _ ref hash inputs type)
    rw [World.receive]
    split <;> exact rfl
  | coinsReceived ref t =>
    exact hevents ref (.onCoinsReceived t) (by simp) fun x hs => Option.some.inj hs ▸ hevent
  | coinsSent ref t =>
    exact hevents ref (.onCoinsSent t) (by simp) fun x hs => Option.some.inj hs ▸ hevent
  | reorganize ref =>
    exact hevents ref .onReorganize (by simp) fun x hs => absurd hs (Option.some_ne_none x).symm
  | confidenceDetail t reason =>
    have hsubject : (UserThreadCall.onConfidenceChanged t reason).subject = none := by
      cases reason with
      | type => exact absurd rfl hevent
      | depth => rfl
      | seenPeers => rfl
    refine calm_queue (w := w) h (fun hm => ?_) fun c hm x hs => ?_
    · exact hevent (UserThreadCall.onConfidenceChanged.inj (List.eq_of_mem_replicate hm)).2.symm
    · rw [List.eq_of_mem_replicate hm, hsubject] at hs
      cases hs
  | confidenceType t type =>
    have hidle : Calm tx 0 ({ w with activity := 0 }, log) := calm_aside (w := w) rfl h
    change Calm tx 0 (Announced.change tx ({ w with activity := 0 }, log) (t, type))
    by_cases ht : t = tx
    · subst ht
      by_cases hsame : w.confidence t = type
      · rwa [change_same (s := ({ w with activity := 0 }, log)) (c := (t, type)) hsame]
      · exact calm_change_own hsame { hidle with room := happart rfl hsame }
    · exact calm_change_other ht hidle
  | complete lib index failure => exact calm_complete _ h hevent hfinds happart
  | deliver lib => exact calm_deliver _ h hfinds happart
  | _ => exact hevent.elim

/-! ### Runs -/

/-- In every run in which each wallet event and ack about a transaction finds it tracked, the first
    apart, and its type does not change while a call about an earlier change is left, it is announced at
    most once between two changes. -/
theorem announced_once (tx : Transaction) (w : World) (ls : List Label) (hstart : Unheard tx w)
    (hevents : Meets step (EventFor tx) w ls) (hfinds : Meets step (FindsTracked tx) w ls)
    (hapart : Meets step (ChangesApart tx) w ls) :
    AnnouncedOnce (run (Announced.step tx) (w, []) ls).2 := by
  have hok := meets_and w ls (meets_and w ls hevents hfinds) hapart
  have hmeets := meets_map (Announced.fst_step tx) (w, []) ls hok
  exact announcedOnce_of_calm (inv_meets calm_step _ ls (calm_of_unheard hstart) hmeets)

/-- The transaction arrives, both wallet events come, and it is confirmed. -/
def receivedAndSent : List Label :=
  [.receive 0 10 [] .pending, .coinsReceived 0 arriving, .deliver .fair, .coinsSent 0 arriving,
   .deliver .fair, .confidenceType arriving .building, .deliver .fair]

theorem unheard_walletCreated : Unheard arriving (run step (World.initial .none) walletCreated) := by
  have hqueue : (run step (World.initial .none) walletCreated).userThread = [] := by decide +kernel
  have hregs : (run step (World.initial .none) walletCreated).registrations = [] := by decide +kernel
  refine ⟨?_, by decide +kernel, ?_, ?_, ?_⟩
  · rw [hqueue]
    exact nofun
  · rw [hregs]
    exact Nat.zero_le 1
  · rw [hregs]
    exact nofun
  · rw [hregs]
    exact nofun

/-- Nothing changes while the call is handled. -/
theorem changesApart_fair (hw : w.waiting tx ≤ 1) : ChangesApart tx w (.deliver .fair) := by
  intro call _ t _
  split
  · exact fun window hc => absurd rfl hc
  · exact fun _ _ => hw

theorem announced_once_receivedAndSent :
    (run (Announced.step arriving) (run step (World.initial .none) walletCreated, [])
        receivedAndSent).2 = [.announced, .changed, .announced, .changed] ∧
      AnnouncedOnce (run (Announced.step arriving)
        (run step (World.initial .none) walletCreated, []) receivedAndSent).2 := by
  refine ⟨by decide +kernel, announced_once arriving _ receivedAndSent unheard_walletCreated ?_ ?_ ?_⟩
  · exact ⟨trivial, fun _ => rfl, trivial, fun _ => rfl, trivial, trivial, trivial, trivial⟩
  · refine ⟨trivial, trivial, fun _ _ _ => .inr ?_, trivial, fun _ _ _ => .inl ?_, trivial,
      fun _ _ _ => .inl ?_, trivial⟩
    · decide +kernel
    · decide +kernel
    · decide +kernel
  · refine ⟨trivial, trivial, changesApart_fair ?_, trivial, changesApart_fair ?_, fun _ _ _ => ?_,
      changesApart_fair ?_, trivial⟩
    · decide +kernel
    · decide +kernel
    · decide +kernel
    · decide +kernel

/-- The wallet event a label queues. -/
def Label.event : Label → Option UserThreadCall
  | .coinsReceived _ tx => some (.onCoinsReceived tx)
  | .coinsSent _ tx => some (.onCoinsSent tx)
  | _ => none

/-- Each wallet event comes at most once. -/
def EventsOnce (ls : List Label) : Prop :=
  ls.Pairwise fun a b => a.event = none ∨ a.event ≠ b.event

/-- The transaction is confirmed when it arrives, so it is not tracked when the second event comes. -/
def arrivingConfirmed : List Label :=
  [.receive 0 10 [] .building, .coinsReceived 0 arriving, .coinsSent 0 arriving, .deliver .fair,
   .deliver .fair]

theorem announced_twice : ¬ ∀ (tx : Transaction) (w : World) (ls : List Label), Unheard tx w →
    Meets step (EventFor tx) w ls → EventsOnce ls →
    AnnouncedOnce (run (Announced.step tx) (w, []) ls).2 := by
  intro h
  have hlog : (run (Announced.step arriving) (run step (World.initial .none) walletCreated, [])
      arrivingConfirmed).2 = [.announced, .announced, .changed] := by decide +kernel
  have honce := h arriving _ arrivingConfirmed unheard_walletCreated
    ⟨trivial, fun _ => rfl, fun _ => rfl, trivial, trivial, trivial⟩
    (by simp [EventsOnce, arrivingConfirmed, Label.event])
  rw [hlog] at honce
  exact absurd (honce [] [.announced, .announced] [.changed] rfl (by decide)) (by decide)

end BitcoinKit

import BitcoinKit.Java.Hearing
import BitcoinKit.Java.Leftovers
import BitcoinKit.Java.Watched
import Mathlib.Algebra.Order.Ring.Int

/-! The balances, and when the Cocoa side is told to read them again:

        getAvailableBalance   unspent outputs of building transactions, and of the wallet's own pending
                              ones that more than one peer has announced
        getEstimatedBalance   unspent outputs of all pending and building transactions

        onBalanceChanged   ◀── new transaction not tracked, change of type, reorganisation, chain started

    The balances at the last `onBalanceChanged` are kept beside the world. Of the outputs only their value
    matters, which is left open. -/

namespace BitcoinKit
open Schemes

/-- What bitcoinj knows of transactions besides their types: which are the wallet's own, and the value of
    the outputs of each that the wallet has and has not spent. -/
structure Coins where
  own : Transaction → Bool
  unspent : List (Transaction × ConfidenceType) → Transaction → Nat

/-- The wallet's transactions with their types. -/
def World.types (w : World) : List (Transaction × ConfidenceType) :=
  w.theTransactions.map fun tx => (tx, w.confidence tx)

/-- How many peers have announced each transaction, and the balances (available, estimated) when
    `onBalanceChanged` was last called. -/
structure BalanceRecord where
  peers : Transaction → Nat
  last : Nat × Nat

variable (c : Coins)

def getAvailableBalance (peers : Transaction → Nat) (w : World) : Nat :=
  ((w.theTransactions.filter fun tx => w.confidence tx = .building ∨
    w.confidence tx = .pending ∧ c.own tx ∧ 1 < peers tx).map (c.unspent w.types)).sum

def getEstimatedBalance (w : World) : Nat :=
  ((w.theTransactions.filter fun tx => w.confidence tx = .building ∨
    w.confidence tx = .pending).map (c.unspent w.types)).sum

def balances (peers : Transaction → Nat) (w : World) : Nat × Nat :=
  (getAvailableBalance c peers w, getEstimatedBalance c w)

/-- The balances are noted whenever `onBalanceChanged` is called. -/
def noteBalances : Milestone → World → BalanceRecord → BalanceRecord
  | .told, w, r => { r with last := balances c r.peers w }
  | _, _, r => r

/-- What `verifyBalance:` logs, given the balances now and the last ones. -/
def verifyBalance (now last : Nat × Nat) : List String :=
  (if now.1 ≠ last.1 then ["BitcoinKit missed a change notification. This is a bug."] else []) ++
    if now.2 ≠ last.2 then ["BitcoinKit missed a change notification. This is a bug."] else []

theorem verifyBalance_self (now : Nat × Nat) : verifyBalance now now = [] := by
  simp [verifyBalance]

/-- Handling the call, in this state, calls `onBalanceChanged`. -/
def UserThreadCall.tells (w : World) : UserThreadCall → Bool
  | .onCoinsReceived tx => !hasKey Transaction.hash w.trackedTransactions tx
  | .onCoinsSent tx => !hasKey Transaction.hash w.trackedTransactions tx
  | .onReorganize => true
  | .onConfidenceChanged _ reason => reason = .type

/-- It does so in every state. -/
def UserThreadCall.tellsAnyway : UserThreadCall → Bool
  | .onReorganize => true
  | .onConfidenceChanged _ reason => reason = .type
  | _ => false

/-- A queued call will have the balances told. -/
def World.willTell (w : World) : Prop := ∃ call ∈ w.userThread, call.tells w

/-- The balances are as they were last told. -/
def Shown (s : World × BalanceRecord) : Prop := s.2.last = balances c s.2.peers s.1

/-- No change of a balance goes unannounced. -/
def NoneMissed (s : World × BalanceRecord) : Prop := Shown c s ∨ s.1.willTell

/-- A queued call will have the balances told, whatever happens to the tracking set before. -/
def Assured (s : World × BalanceRecord) : Prop :=
  Shown c s ∨ ∃ call ∈ s.1.userThread, call.tellsAnyway

variable {c} {w v : World} {r : BalanceRecord} {s : World × BalanceRecord} {lib : Lib} {tx t : Transaction}

theorem tells_of_tellsAnyway {call : UserThreadCall} (h : call.tellsAnyway) : call.tells w := by
  cases call with
  | onReorganize => rfl
  | onConfidenceChanged t reason => exact h
  | onCoinsReceived t => cases h
  | onCoinsSent t => cases h

theorem noneMissed_of_assured (h : Assured c s) : NoneMissed c s := by
  rcases h with h | ⟨call, hcall, htells⟩
  · exact .inl h
  · exact .inr ⟨call, hcall, tells_of_tellsAnyway htells⟩

/-! ### Telling -/

/-- How often `onBalanceChanged` was called. -/
def World.timesTold (w : World) : Nat := w.natives.countP fun n => n.2 = .onBalanceChanged

/-- Calls are not taken back. -/
def mounting : Along World where
  rel w v := w.timesTold ≤ v.timesTold
  refl _ := Nat.le_refl _
  trans := Nat.le_trans

theorem mounting_tracking : IgnoresTracking mounting where
  confidence _ _ _ := Nat.le_refl _
  news w call _ := by
    simp only [mounting, World.timesTold, List.countP_append]
    exact Nat.le_add_right ..
  listening _ _ _ := Nat.le_refl _

theorem timesTold_told (w : World) : (w.told .onBalanceChanged).timesTold = w.timesTold + 1 := by
  simp [World.timesTold, World.told]

/-- What is left of a handler once the balances are told. -/
theorem moves_report {R : Along World}
    (hi : ∀ {window : Window}, window ≠ .beforeUnlistening → Moves R (lib.interleave window))
    (t : Transaction) {next : Option TransactionJSON → Java Unit} (hnext : ∀ json, Moves R (next json)) :
    Moves R (do
      lib.interleave .beforeSnapshot
      let json ← reportOrNull lib t
      lib.interleave .afterSnapshot
      next json) := by
  refine moves_bind (hi (by simp)) fun _ => moves_bind (moves_reportOrNull lib t) fun json => ?_
  exact moves_bind (hi (by simp)) fun _ => hnext json

theorem mounting_interleave (lib : Lib) (window : Window) : Moves mounting (lib.interleave window) :=
  moves_interleave mounting_tracking.confidence lib window

theorem mounting_changed (t : Transaction) (json : Option TransactionJSON) :
    Moves mounting (native (.onTransactionChanged t.hash json)) :=
  moves_native fun w => mounting_tracking.news w _ rfl

theorem told_more {next : Java Unit} (hv : mounting.rel w v) (hnext : Moves mounting next) : Ends (do
    native .onBalanceChanged
    next) v fun _ u => w.timesTold < u.timesTold := by
  rw [ends_bind, ends_told]
  refine ends_mono (ends_of_moves hnext) fun _ u hu => Nat.lt_of_lt_of_le ?_ hu
  rw [timesTold_told]
  exact Nat.lt_succ_of_le hv

theorem told_onNewTransaction (hk : hasKey Transaction.hash w.trackedTransactions t = false) :
    Ends (onNewTransaction lib t) w fun _ v => w.timesTold < v.timesTold := by
  unfold onNewTransaction
  rw [ends_bind, ends_get]
  dsimp only
  rw [if_neg (by simp [hk])]
  have hi {window : Window} (_ : window ≠ .beforeUnlistening) := mounting_interleave lib window
  refine told_more (mounting.refl w) (moves_report hi t fun json => ?_)
  refine moves_bind (mounting_changed t json) fun _ => moves_bind (moves_isPending t) fun pending => ?_
  refine moves_ite ?_ (moves_pure _)
  exact moves_bind (mounting_interleave lib _) fun _ => moves_trackTransaction mounting_tracking t

theorem told_onConfidenceChanged :
    Ends (onConfidenceChanged lib t .type) w fun _ v => w.timesTold < v.timesTold := by
  unfold onConfidenceChanged
  rw [if_pos rfl, ends_bind, ends_isPending]
  dsimp only
  have hi {window : Window} (_ : window ≠ .beforeUnlistening) := mounting_interleave lib window
  have htell := moves_report hi t (mounting_changed t)
  have hu := mounting_interleave lib .beforeUnlistening w
  rw [ends_bind, ends_interleave]
  dsimp only
  rw [ends_bind, ends_ite]
  split
  · exact told_more hu htell
  · refine ends_mono (ends_and ends_stopTracking
      (ends_of_moves (moves_stopTrackingTransaction mounting_tracking t))) fun o v hv => ?_
    obtain ⟨⟨ho, -⟩, hv⟩ := hv
    rw [ho]
    exact told_more (mounting.trans hu hv) htell

/-- A call that tells the balances does call `onBalanceChanged`. -/
theorem told_of_tells {call : UserThreadCall} (h : call.tells w) :
    w.timesTold < (after (handle lib call w)).timesTold := by
  have hends : Ends (handle lib call) w fun _ v => w.timesTold < v.timesTold := by
    cases call with
    | onCoinsReceived t => exact told_onNewTransaction (by simpa [UserThreadCall.tells] using h)
    | onCoinsSent t => exact told_onNewTransaction (by simpa [UserThreadCall.tells] using h)
    | onReorganize =>
      rw [handle, ends_told, timesTold_told]
      exact Nat.lt_succ_self _
    | onConfidenceChanged t reason =>
      obtain rfl : reason = .type := of_decide_eq_true h
      exact told_onConfidenceChanged
  exact hends

/-! ### What leaves the balances alone -/

/-- The wallet has the same transactions, with the same types. -/
def worth : Along World where
  rel w v := v.theTransactions = w.theTransactions ∧
    ∀ tx ∈ w.theTransactions, v.confidence tx = w.confidence tx
  refl _ := ⟨rfl, fun _ _ => rfl⟩
  trans := by
    rintro s t u ⟨htxs, htypes⟩ ⟨htxs', htypes'⟩
    refine ⟨htxs'.trans htxs, fun tx htx => ?_⟩
    exact (htypes' tx (htxs ▸ htx)).trans (htypes tx htx)

/-- The same calls are queued, and no transaction is tracked that was not. -/
def patient : Along World where
  rel w v := v.userThread = w.userThread ∧ ∀ tx, hasKey Transaction.hash v.trackedTransactions tx →
    hasKey Transaction.hash w.trackedTransactions tx
  refl _ := ⟨rfl, fun _ => id⟩
  trans h₁ h₂ := ⟨h₂.1.trans h₁.1, fun tx => h₁.2 tx ∘ h₂.2 tx⟩

/-- Both. -/
def unmoved : Along World where
  rel w v := worth.rel w v ∧ patient.rel w v
  refl w := ⟨worth.refl w, patient.refl w⟩
  trans h₁ h₂ := ⟨worth.trans h₁.1 h₂.1, patient.trans h₁.2 h₂.2⟩

theorem balances_worth (h : worth.rel w v) (peers : Transaction → Nat) :
    balances c peers v = balances c peers w := by
  obtain ⟨htxs, htypes⟩ := h
  have hall : v.types = w.types := by
    rw [World.types, World.types, htxs]
    exact List.map_congr_left fun tx htx => by rw [htypes tx htx]
  have havailable : getAvailableBalance c peers v = getAvailableBalance c peers w := by
    rw [getAvailableBalance, getAvailableBalance, htxs, hall]
    congr 2
    exact List.filter_congr fun tx htx => by rw [htypes tx htx]
  have hestimated : getEstimatedBalance c v = getEstimatedBalance c w := by
    rw [getEstimatedBalance, getEstimatedBalance, htxs, hall]
    congr 2
    exact List.filter_congr fun tx htx => by rw [htypes tx htx]
  rw [balances, balances, havailable, hestimated]

theorem shown_worth (hv : worth.rel w v) (h : Shown c (w, r)) : Shown c (v, r) := by
  rw [Shown, balances_worth hv]
  exact h

/-- A call that tells still does when fewer transactions are tracked. -/
theorem tells_untracked {call : UserThreadCall}
    (hv : ∀ tx, hasKey Transaction.hash v.trackedTransactions tx →
      hasKey Transaction.hash w.trackedTransactions tx) (h : call.tells w) : call.tells v := by
  have hnew (t : Transaction) (hk : (!hasKey Transaction.hash w.trackedTransactions t) = true) :
      (!hasKey Transaction.hash v.trackedTransactions t) = true := by
    rw [Bool.not_eq_true'] at hk ⊢
    exact Bool.eq_false_iff.mpr fun hstill => Bool.eq_false_iff.mp hk (hv t hstill)
  cases call with
  | onReorganize => rfl
  | onConfidenceChanged t reason => exact h
  | onCoinsReceived t => exact hnew t h
  | onCoinsSent t => exact hnew t h

theorem willTell_patient (hv : patient.rel w v) (h : w.willTell) : v.willTell := by
  obtain ⟨call, hcall, htells⟩ := h
  exact ⟨call, hv.1.symm ▸ hcall, tells_untracked hv.2 htells⟩

theorem noneMissed_unmoved (hv : unmoved.rel w v) (h : NoneMissed c (w, r)) : NoneMissed c (v, r) :=
  h.imp (shown_worth hv.1) (willTell_patient hv.2)

theorem unmoved_chain : IgnoresChain unmoved where
  chain _ _ _ _ _ := unmoved.refl _
  chainFiles _ _ := unmoved.refl _
  balance _ := unmoved.refl _

theorem unmoved_stopTracking (t : Transaction) : Moves unmoved (stopTrackingTransaction t) := by
  refine moves_untrack (fun w => unmoved.refl w) fun w => ?_
  refine ⟨worth.refl w, rfl, fun tx hk => ?_⟩
  obtain ⟨x, hx, hkey⟩ := hasKey_iff.mp hk
  exact hasKey_iff.mpr ⟨x, List.mem_of_mem_filter hx, hkey⟩

theorem worth_track (t : Transaction) : Moves worth (trackTransaction t) :=
  moves_track (fun w => worth.refl w) fun w => worth.refl w

theorem worth_groups : IgnoresGroups worth where
  groups _ _ _ := worth.refl _
  balance _ := worth.refl _

/-! ### Changes of type -/

/-- A change of the type of `t` leads to the balances being told, or does not concern them. -/
def World.heeds (w : World) (t : Transaction) : Prop :=
  t ∉ w.theTransactions ∨ t ∈ w.registrations ∨ ∃ call ∈ w.userThread, call.tellsAnyway

theorem theTransactions_change (type : ConfidenceType) :
    (w.changeConfidence t type).theTransactions = w.theTransactions := by
  rw [World.changeConfidence]
  split <;> rfl

theorem worth_change (type : ConfidenceType) (ht : t ∉ w.theTransactions) :
    worth.rel w (w.changeConfidence t type) := by
  refine ⟨theTransactions_change type, fun tx htx => ?_⟩
  rw [World.changeConfidence]
  split
  · rfl
  · exact Function.update_of_ne (fun he : tx = t => ht (he ▸ htx)) ..

theorem tellsAnyway_change (type : ConfidenceType) (h : ∃ call ∈ w.userThread, call.tellsAnyway) :
    ∃ call ∈ (w.changeConfidence t type).userThread, call.tellsAnyway := by
  obtain ⟨call, hcall, htells⟩ := h
  rw [World.changeConfidence]
  split
  · exact ⟨call, hcall, htells⟩
  · exact ⟨call, List.mem_append_left _ hcall, htells⟩

theorem assured_change (type : ConfidenceType) (ht : t ∉ w.theTransactions ∨ t ∈ w.registrations)
    (h : Assured c (w, r)) : Assured c (w.changeConfidence t type, r) := by
  rcases h with hshown | hcalls
  · rcases ht with hno | hregs
    · exact .inl (shown_worth (worth_change type hno) hshown)
    · by_cases hsame : w.confidence t = type
      · rw [World.changeConfidence, if_pos hsame]
        exact .inl hshown
      · exact .inr ⟨_, awaits_heard hsame hregs, rfl⟩
  · exact .inr (tellsAnyway_change type hcalls)

theorem heeds_change (type : ConfidenceType) (h : w.heeds tx) : (w.changeConfidence t type).heeds tx := by
  rcases h with hno | hregs | hcalls
  · exact .inl ((theTransactions_change type).symm ▸ hno)
  · refine .inr (.inl ?_)
    rw [World.changeConfidence]
    split <;> exact hregs
  · exact .inr (.inr (tellsAnyway_change type hcalls))

/-- The balances are told or to be told, and so they will be after each change in a window that comes
    once they have been. -/
def Attends (c : Coins) (lib : Lib) (r : BalanceRecord) (w : World) : Prop :=
  Assured c (w, r) ∧ ∀ window, window ≠ .beforeUnlistening →
    ∀ change ∈ lib.during window, w.heeds change.1

theorem attends_interleave {window : Window} (hw : window ≠ .beforeUnlistening) :
    Moves (preserving (Attends c lib r)) (lib.interleave window) := by
  refine moves_modify fun w => changed_rel (R := preserving (Attends c lib r)) _ fun x hx w h => ?_
  refine ⟨?_, fun window hw y hy => heeds_change x.2 (h.2 window hw y hy)⟩
  rcases h.2 window hw x hx with hno | hregs | hcalls
  · exact assured_change x.2 (.inl hno) h.1
  · exact assured_change x.2 (.inr hregs) h.1
  · exact .inr (tellsAnyway_change x.2 hcalls)

theorem attends_track (t : Transaction) : Moves (preserving (Attends c lib r)) (trackTransaction t) := by
  refine moves_track (fun w h => ⟨h.1, fun window hw x hx => ?_⟩) fun w h => h
  exact (h.2 window hw x hx).imp id (Or.imp (List.mem_cons_of_mem t) id)

theorem attends_changed (t : Transaction) (json : Option TransactionJSON) :
    Moves (preserving (Attends c lib r)) (native (.onTransactionChanged t.hash json)) :=
  moves_native fun _ h => h

/-! ### The handlers -/

/-- Balances are told, and the rest of a handler runs. -/
theorem assured_telling {next : Java Unit} (hheeds : ∀ window, window ≠ .beforeUnlistening →
      ∀ change ∈ lib.during window, w.heeds change.1)
    (hnext : ∀ r, Moves (preserving (Attends c lib r)) next) : Ends (do
      quiet (native .onBalanceChanged)
      mark (noteBalances c .told)
      quiet next) (w, r) fun _ v => Assured c v := by
  rw [ends_bind, ends_quiet, ends_told]
  dsimp only
  rw [ends_bind, ends_mark]
  dsimp only
  rw [ends_quiet]
  have hshown : Shown c (w.told .onBalanceChanged,
      noteBalances c .told (w.told .onBalanceChanged) r) := rfl
  exact ends_mono (ends_of_moves (hnext _)) fun _ v hv => (hv ⟨.inl hshown, hheeds⟩).1

theorem assured_onNewTransaction (hk : hasKey Transaction.hash w.trackedTransactions t = false)
    (hheeds : ∀ window, window ≠ .beforeUnlistening →
      ∀ change ∈ lib.during window, w.heeds change.1) :
    Ends (Watched.onNewTransaction (noteBalances c) lib t) (w, r) fun _ v => Assured c v := by
  unfold Watched.onNewTransaction
  rw [ends_bind, ends_quiet, ends_get]
  dsimp only
  rw [if_neg (by simp [hk])]
  refine assured_telling hheeds fun r => moves_report attends_interleave t fun json => ?_
  refine moves_bind (attends_changed t json) fun _ => moves_bind (moves_isPending t) fun pending => ?_
  refine moves_ite ?_ (moves_pure _)
  exact moves_bind (attends_interleave (by simp)) fun _ => attends_track t

/-- Before the balances are told the types may change as they like, and it does not matter that `t` is
    taken off the tracking set unless its type changes afterwards. -/
theorem assured_onConfidenceChanged (hheeds : ∀ window, window ≠ .beforeUnlistening →
      ∀ change ∈ lib.during window, w.heeds change.1 ∧
        (change.1 = t → w.confidence t ≠ .pending → t ∉ w.theTransactions ∨
          ∃ call ∈ w.userThread, call.tellsAnyway)) :
    Ends (Watched.onConfidenceChanged (noteBalances c) lib t .type) (w, r) fun _ v => Assured c v := by
  unfold Watched.onConfidenceChanged
  rw [if_pos rfl, ends_bind, ends_quiet, ends_isPending]
  dsimp only
  rw [ends_bind, ends_quiet, ends_interleave]
  have hchanged (x : Transaction) (hx : w.heeds x) : (w.changed (lib.during .beforeUnlistening)).heeds x :=
    changed_rel (R := preserving fun w => w.heeds x) _ (fun y _ w => heeds_change y.2) hx
  have hcalls (h : ∃ call ∈ w.userThread, call.tellsAnyway) :
      ∃ call ∈ (w.changed (lib.during .beforeUnlistening)).userThread, call.tellsAnyway :=
    changed_rel (R := preserving fun w => ∃ call ∈ w.userThread, call.tellsAnyway) _
      (fun y _ _ => tellsAnyway_change y.2) h
  have htxs : (w.changed (lib.during .beforeUnlistening)).theTransactions = w.theTransactions :=
    changed_rel (R := keeping World.theTransactions) _ fun y _ _ => theTransactions_change y.2
  generalize w.changed (lib.during .beforeUnlistening) = u at hchanged hcalls htxs ⊢
  dsimp only
  rw [ends_bind, ends_quiet, ends_ite]
  have htell (v : World) (hv : ∀ window, window ≠ .beforeUnlistening →
      ∀ change ∈ lib.during window, v.heeds change.1) :=
    assured_telling (c := c) (r := r) hv fun r =>
      moves_report attends_interleave t (attends_changed t)
  split
  · exact htell u fun window hw x hx => hchanged x.1 (hheeds window hw x hx).1
  · next hp =>
    refine ends_mono ends_stopTracking fun o v hv => ?_
    obtain ⟨ho, hv, -, hregs⟩ := hv
    rw [ho]
    refine htell v fun window hw x hx => ?_
    have hsame : v.theTransactions = u.theTransactions := by rw [hv]; rfl
    have hqueue : v.userThread = u.userThread := by rw [hv]
    obtain ⟨hheed, hown⟩ := hheeds window hw x hx
    rw [World.heeds, hsame, hqueue]
    by_cases hx : x.1 = t
    · rcases hown hx (by simpa using hp) with hno | hcall
      · exact .inl (by rw [hx, htxs]; exact hno)
      · exact .inr (.inr (hcalls hcall))
    · refine (hchanged x.1 hheed).imp id (Or.imp (fun hm => ?_) id)
      rw [hregs]
      split
      · exact (List.mem_erase_of_ne hx).mpr hm
      · exact hm

/-- A change of the type of `t` while `call` is handled, with `rest` still queued, leads to the balances
    being told once more, or does not concern them. -/
def World.heedsDuring (w : World) (call : UserThreadCall) (rest : List UserThreadCall)
    (t : Transaction) : Prop :=
  t ∉ w.theTransactions ∨ (∃ later ∈ rest, later.tellsAnyway) ∨
    t ∈ w.registrations ∧ (call = .onConfidenceChanged t .type → w.confidence t = .pending)

theorem assured_handle {call : UserThreadCall} {rest : List UserThreadCall} (htells : call.tells w)
    (hheeds : ∀ window, window ≠ .beforeUnlistening →
      ∀ change ∈ lib.during window, w.heedsDuring call rest change.1) :
    Ends (Watched.handle (noteBalances c) lib call)
      ({ w with activity := 0, userThread := rest }, r) fun _ v => Assured c v := by
  have hpopped (window : Window) (hw : window ≠ .beforeUnlistening)
      (change : Transaction × ConfidenceType) (hm : change ∈ lib.during window) :
      World.heeds { w with activity := 0, userThread := rest } change.1 := by
    rcases hheeds window hw change hm with hno | hlater | ⟨hregs, -⟩
    · exact .inl hno
    · exact .inr (.inr hlater)
    · exact .inr (.inl hregs)
  cases call with
  | onCoinsReceived t =>
    exact assured_onNewTransaction (by simpa [UserThreadCall.tells] using htells) hpopped
  | onCoinsSent t =>
    exact assured_onNewTransaction (by simpa [UserThreadCall.tells] using htells) hpopped
  | onReorganize =>
    have hshown : Shown c (World.told { w with activity := 0, userThread := rest } .onBalanceChanged,
        noteBalances c .told (World.told { w with activity := 0, userThread := rest } .onBalanceChanged) r) :=
      rfl
    exact .inl hshown
  | onConfidenceChanged t reason =>
    obtain rfl : reason = .type := of_decide_eq_true htells
    refine assured_onConfidenceChanged fun window hw change hm => ⟨hpopped window hw change hm, ?_⟩
    intro ht hp
    rcases hheeds window hw change hm with hno | hlater | ⟨-, hpending⟩
    · exact .inl (ht ▸ hno)
    · exact .inr hlater
    · exact absurd (ht ▸ hpending (ht ▸ rfl)) hp

theorem handle_silent {call : UserThreadCall} (htells : call.tells w = false) :
    Ends (Watched.handle (noteBalances c) lib call) (w, r) fun o v => o = .ok () ∧ v = (w, r) := by
  have hnew (t : Transaction) (hk : hasKey Transaction.hash w.trackedTransactions t) :
      Ends (Watched.onNewTransaction (noteBalances c) lib t) (w, r)
        fun o v => o = .ok () ∧ v = (w, r) := by
    unfold Watched.onNewTransaction
    rw [ends_bind, ends_quiet, ends_get]
    dsimp only
    rw [if_pos hk]
    exact ⟨rfl, rfl⟩
  cases call with
  | onCoinsReceived t => exact hnew t (by simpa [UserThreadCall.tells] using htells)
  | onCoinsSent t => exact hnew t (by simpa [UserThreadCall.tells] using htells)
  | onReorganize => cases htells
  | onConfidenceChanged t reason =>
    have hne : reason ≠ .type := of_decide_eq_false htells
    unfold Watched.handle Watched.onConfidenceChanged
    dsimp only
    rw [if_neg hne]
    exact ⟨rfl, rfl⟩

theorem noneMissed_deliver (s : World × BalanceRecord) (h : NoneMissed c s)
    (hheeds : ∀ call rest, s.1.userThread = call :: rest → call.tells s.1 →
      ∀ window, window ≠ .beforeUnlistening →
        ∀ change ∈ lib.during window, s.1.heedsDuring call rest change.1) :
    NoneMissed c (after (Watched.code (noteBalances c) (.deliver lib) s)) := by
  obtain ⟨w, r⟩ := s
  have hends : Ends (Watched.onBehalfOf 0 (Watched.deliverNext (noteBalances c) lib)) (w, r)
      fun _ v => NoneMissed c v := by
    unfold Watched.onBehalfOf Watched.deliverNext
    rw [ends_bind, ends_quiet, ends_modify]
    dsimp only
    rw [ends_bind, ends_quiet, ends_get]
    dsimp only
    have hidle : NoneMissed c ({ w with activity := 0 }, r) := h
    cases hq : w.userThread with
    | nil =>
      rw [hq] at hidle
      exact hidle
    | cons call rest =>
      dsimp only
      rw [ends_bind, ends_quiet, ends_modify]
      dsimp only
      rw [ends_tryCatch]
      cases htells : call.tells w with
      | true =>
        refine ends_mono (assured_handle htells (hheeds call rest hq htells)) fun o v hv => ?_
        cases o with
        | ok _ => exact noneMissed_of_assured hv
        | error e =>
          dsimp only
          rw [ends_quiet, uncaughtException, ends_told]
          exact noneMissed_of_assured hv
      | false =>
        refine ends_mono (handle_silent htells) fun o v hv => ?_
        obtain ⟨ho, hv⟩ := hv
        rw [ho, hv]
        rcases h with hshown | ⟨later, hlater, hlaterTells⟩
        · exact .inl hshown
        · rw [hq] at hlater
          rcases List.mem_cons.mp hlater with he | hlater
          · rw [he, htells] at hlaterTells
            cases hlaterTells
          · exact .inr ⟨later, hlater, hlaterTells⟩
  exact hends

/-! ### Running the chain -/

/-- The calls between the wallet's transactions being cleared and the balances being told. -/
def restartSites : List Site :=
  [.checkpointsStream, .checkpoint, .newBlockChain, .newPeerGroup, .addWallet]

/-- The chain gets going, with the balances to be told. -/
def attachChain (lib : Lib) : Java WalletRef := do
  lib.call .newBlockChain
  newPeerGroup lib
  let (ref, _) ← theWallet
  onPeerGroup lib .addWallet fun group => { group with wallets := group.wallets ++ [ref] }
  native .onBalanceChanged
  pure ref

/-- `startBlockchain` up to the telling of the balances. -/
def runChain (lib : Lib) : Java WalletRef := do
  let w ← get
  let chainFile := getBlockchainFile w
  let chainExistedAlready := w.files.chains chainFile
  newBlockStore lib chainFile
  (if chainExistedAlready then pure () else do
    clearTransactions lib
    let (_, wallet) ← theWallet
    checkpointFor lib wallet)
  attachChain lib

/-- The wallet's transactions are gone. -/
def Cleared (w v : World) : Prop := patient.rel w v ∧ v.theTransactions = []

theorem unmoved_newBlockStore (f : File) : Ends (newBlockStore lib f) w fun o v =>
    unmoved.rel w v ∧ (o = .ok () → v.blockStore.isSome) := by
  refine ends_mono (ends_newBlockStore f) fun o v hv => ?_
  cases o with
  | error e => rcases hv with rfl | ⟨-, rfl⟩ <;> exact ⟨unmoved.refl _, by simp⟩
  | ok _ =>
    obtain ⟨-, rfl⟩ := hv
    exact ⟨unmoved.refl w, fun _ => rfl⟩

/-- A checkpoint is picked, unless a call for it fails. -/
theorem ends_checkpointFor (wallet : Wallet) (hstore : w.blockStore.isSome) :
    Ends (checkpointFor lib wallet) w fun o v => unmoved.rel w v ∧ v.wallet = w.wallet ∧
      ∀ e, o = .error e → ∃ site ∈ restartSites, lib.fails site ≠ none := by
  obtain ⟨store, hs⟩ := Option.isSome_iff_exists.mp hstore
  unfold checkpointFor
  simp only [ends_bind, ends_get, ends_ite, ends_catchIf, ends_call, ends_pure, ends_throw]
  split
  · cases h : lib.fails .checkpointsStream with
    | some e =>
      have hsite : ∃ site ∈ restartSites, lib.fails site ≠ none :=
        ⟨.checkpointsStream, by decide, by simp [h]⟩
      dsimp only
      split <;> exact ⟨unmoved.refl w, rfl, fun _ _ => hsite⟩
    | none =>
      dsimp only
      cases h' : lib.fails .checkpoint with
      | some e =>
        have hsite : ∃ site ∈ restartSites, lib.fails site ≠ none :=
          ⟨.checkpoint, by decide, by simp [h']⟩
        dsimp only
        split <;> exact ⟨unmoved.refl w, rfl, fun _ _ => hsite⟩
      | none =>
        dsimp only
        rw [hs]
        exact ⟨unmoved.refl w, rfl, by simp⟩
  · exact ⟨unmoved.refl w, trivial, by simp⟩

theorem cleared_unmoved {u : World} (h : Cleared w u) (hv : unmoved.rel u v) : Cleared w v :=
  ⟨patient.trans h.1 hv.2, hv.1.1.trans h.2⟩

theorem ends_clear (hstore : w.blockStore.isSome) : Ends (do
      clearTransactions lib
      let (_, wallet) ← theWallet
      checkpointFor lib wallet) w fun
    | .ok _, v => Cleared w v ∧ v.wallet.isSome
    | .error _, v => unmoved.rel w v ∨ Cleared w v ∧ ∃ site ∈ restartSites, lib.fails site ≠ none := by
  unfold clearTransactions modifyWallet
  rcases Option.eq_none_or_eq_some w.wallet with hw | ⟨ref, hw⟩
  · unfold theWallet
    simp only [ends_bind, ends_get, ends_deref, hw]
    exact .inl (unmoved.refl w)
  · simp only [ends_bind, ends_theWallet hw, ends_call, ends_modify]
    cases lib.fails .clearTransactions with
    | some e => exact .inl (unmoved.refl w)
    | none =>
      dsimp only
      have hcleared : Cleared w { w with wallets := (w.wallets.write ref
          { w.wallets.cell ref with transactions := [], distinct := distinct_nil }) } := by
        refine ⟨patient.refl w, ?_⟩
        simp [World.theTransactions, hw]
      refine (@ends_theWallet _ ref ?_ _).mpr ?_
      · exact hw
      · refine ends_mono (ends_checkpointFor _ hstore) fun o v hv => ?_
        obtain ⟨hv, hwallet, hfails⟩ := hv
        cases o with
        | ok _ => exact ⟨cleared_unmoved hcleared hv, by rw [hwallet, hw]; rfl⟩
        | error e => exact .inr ⟨cleared_unmoved hcleared hv, hfails e rfl⟩

theorem unmoved_attach : Moves unmoved (attachChain lib) := by
  have hg := unmoved_chain.toIgnoresGroups
  refine moves_bind (moves_call lib _) fun _ => moves_bind (moves_newPeerGroup hg lib) fun _ => ?_
  refine moves_bind moves_theWallet fun _ => moves_bind (moves_onPeerGroup hg lib _ _) fun _ => ?_
  exact moves_bind (moves_native hg.balance) fun _ => moves_pure _

theorem fails_attach (hw : w.wallet.isSome) : Ends (attachChain lib) w fun o _ =>
    ∀ e, o = .error e → ∃ site ∈ restartSites, lib.fails site ≠ none := by
  obtain ⟨ref, hw⟩ := Option.isSome_iff_exists.mp hw
  unfold attachChain newPeerGroup onPeerGroup
  simp only [ends_bind, ends_call, ends_modify]
  cases h : lib.fails .newBlockChain with
  | some e => exact fun _ _ => ⟨.newBlockChain, by decide, by simp [h]⟩
  | none =>
    dsimp only
    cases h : lib.fails .newPeerGroup with
    | some e => exact fun _ _ => ⟨.newPeerGroup, by decide, by simp [h]⟩
    | none =>
      dsimp only
      refine (@ends_theWallet _ ref ?_ _).mpr ?_
      · exact hw
      · simp only [ends_get, ends_deref, ends_native]
        cases h : lib.fails .addWallet with
        | some e => exact fun _ _ => ⟨.addWallet, by decide, by simp [h]⟩
        | none => simp

/-- If the chain does not get going, either the balances are what they were or the wallet was cleared and
    a later call failed. -/
theorem ends_runChain : Ends (runChain lib) w fun
    | .ok _, _ => True
    | .error _, v => unmoved.rel w v ∨ Cleared w v ∧ ∃ site ∈ restartSites, lib.fails site ≠ none := by
  unfold runChain
  rw [ends_bind, ends_get]
  dsimp only
  rw [ends_bind]
  refine ends_mono (unmoved_newBlockStore _) fun o u hu => ?_
  obtain ⟨hu, hstore⟩ := hu
  cases o with
  | error e => exact .inl hu
  | ok _ =>
    dsimp only
    rw [ends_bind, ends_ite]
    split
    · rw [ends_pure]
      refine ends_mono (ends_of_moves unmoved_attach) fun o v hv => ?_
      cases o with
      | ok _ => trivial
      | error e => exact .inl (unmoved.trans hu hv)
    · refine ends_mono (ends_clear (hstore rfl)) fun o x hx => ?_
      cases o with
      | error e =>
        rcases hx with hx | ⟨hx, hfails⟩
        · exact .inl (unmoved.trans hu hx)
        · exact .inr ⟨⟨patient.trans hu.2 hx.1, hx.2⟩, hfails⟩
      | ok _ =>
        obtain ⟨hx, hwallet⟩ := hx
        refine ends_mono (ends_and (ends_of_moves unmoved_attach) (fails_attach hwallet))
          fun o v hv => ?_
        cases o with
        | ok _ => trivial
        | error e =>
          exact .inr ⟨cleared_unmoved ⟨patient.trans hu.2 hx.1, hx.2⟩ hv.1, hv.2 e rfl⟩

/-- Nothing is missed, and a reset at this point will tell the balances once it has changed them. -/
def Restarts (c : Coins) (lib : Lib) (s : World × BalanceRecord) : Prop :=
  NoneMissed c s ∧ ((∀ site ∈ restartSites, lib.fails site = none) ∨ s.1.willTell ∨
    balances c s.2.peers s.1 = (0, 0))

theorem restarts_unmoved (hv : unmoved.rel w v) (h : Restarts c lib (w, r)) : Restarts c lib (v, r) := by
  refine ⟨noneMissed_unmoved hv h.1, h.2.imp id (Or.imp (willTell_patient hv.2) fun hzero => ?_)⟩
  rw [balances_worth hv.1]
  exact hzero

theorem balances_cleared (h : w.theTransactions = []) (peers : Transaction → Nat) :
    balances c peers w = (0, 0) := by
  simp [balances, getAvailableBalance, getEstimatedBalance, h]

/-- Up to the telling of the balances the watched code is the code. -/
theorem startBlockchain_run : Watched.startBlockchain (noteBalances c) lib = (do
    let ref ← quiet (runChain lib)
    mark (noteBalances c .told)
    quiet do
      trackPendingTransactions ref
      onPeerGroup lib .startAndWait fun group => { group with running := true }
      lib.call .startBlockChainDownload) := by
  have hcreated (f : File) : (fun w : World => if w.files.chains f then id else
      noteBalances c .created w) = fun _ => id := by
    funext w
    split <;> rfl
  have hrunning : noteBalances c .running = fun _ => id := rfl
  unfold Watched.startBlockchain Watched.newBlockStore runChain newBlockStore attachChain
  simp only [hcreated, hrunning, mark_none, quiet_bind, quiet_pure, bind_assoc, pure_bind]

theorem noneMissed_startBlockchain (h : Restarts c lib (w, r)) :
    Ends (Watched.startBlockchain (noteBalances c) lib) (w, r) fun _ v => NoneMissed c v := by
  rw [startBlockchain_run, ends_bind, ends_quiet]
  refine ends_mono ends_runChain fun o v hv => ?_
  cases o with
  | ok ref =>
    dsimp only
    rw [ends_bind, ends_mark]
    dsimp only
    rw [ends_quiet]
    have hrest : Moves worth (do
        trackPendingTransactions ref
        onPeerGroup lib .startAndWait fun group => { group with running := true }
        lib.call .startBlockChainDownload) :=
      moves_bind (moves_trackPending worth_track ref) fun _ =>
        moves_bind (moves_onPeerGroup worth_groups lib _ _) fun _ => moves_call lib _
    have hshown : Shown c (v, noteBalances c .told v r) := rfl
    exact ends_mono (ends_of_moves hrest) fun _ u hu => .inl (shown_worth hu hshown)
  | error e =>
    rcases hv with hv | ⟨hv, site, hsite, hfails⟩
    · exact noneMissed_unmoved hv h.1
    · rcases h.2 with hfine | hwill | hzero
      · exact absurd (hfine site hsite) hfails
      · exact .inr (willTell_patient hv.1 hwill)
      · rcases h.1 with hshown | hwill
        · refine .inl (hshown.trans ?_)
          rw [hzero, balances_cleared hv.2]
        · exact .inr (willTell_patient hv.1 hwill)

theorem restarts_bind {α β : Type} {m : Java α} {f : α → Watching BalanceRecord β} (hm : Moves unmoved m)
    (h : Restarts c lib (w, r))
    (hf : ∀ a v, Restarts c lib (v, r) → Ends (f a) (v, r) fun _ t => NoneMissed c t) :
    Ends (quiet m >>= f) (w, r) fun _ t => NoneMissed c t :=
  ends_bind_quiet hm (fun a v hv => hf a v (restarts_unmoved hv h))
    fun _ _ hv => noneMissed_unmoved hv h.1

theorem restarts_stopTracking (tx : Transaction) : Moves (preserving (Restarts c lib))
    (quiet (stopTrackingTransaction tx) : Watching BalanceRecord Unit) :=
  moves_quiet (unmoved_stopTracking tx) fun _ _ _ => restarts_unmoved

theorem noneMissed_reset (s : World × BalanceRecord) (h : Restarts c lib s) :
    NoneMissed c (after (Watched.code (noteBalances c) (.resetBlockchain lib) s)) := by
  obtain ⟨w, r⟩ := s
  have hends : Ends (Watched.onBehalfOf 0 (Watched.resetBlockchain (noteBalances c) lib)) (w, r)
      fun _ v => NoneMissed c v := by
    unfold Watched.onBehalfOf
    refine restarts_bind (moves_modify fun w => unmoved.refl w) h fun _ w h => ?_
    have hbody : Ends (do
        quiet (shutdownBlockchain lib)
        quiet (deleteBlockchainDataFile lib)
        quiet (modify fun w => { w with blocksToDownload := 0 })
        let w ← quiet get
        for tx in w.trackedTransactions do
          quiet (stopTrackingTransaction tx)
        Watched.startBlockchain (noteBalances c) lib) (w, r) fun _ v => NoneMissed c v := by
      refine restarts_bind (moves_shutdownBlockchain unmoved_chain.toIgnoresNetwork lib) h
        fun _ w h => ?_
      refine restarts_bind (moves_deleteBlockchainDataFile unmoved_chain lib) h fun _ w h => ?_
      refine restarts_bind (moves_modify fun w => unmoved.refl w) h fun _ w h => ?_
      refine restarts_bind moves_get h fun u w h => ?_
      rw [ends_bind]
      refine ends_mono (ends_of_moves (R := preserving (Restarts c lib)) (moves_forIn (fun tx _ =>
        moves_bind (restarts_stopTracking tx) fun _ => moves_pure _) _ _)) fun o v hv => ?_
      cases o with
      | ok _ => exact noneMissed_startBlockchain (hv h)
      | error e => exact (hv h).1
    unfold Watched.resetBlockchain
    rw [ends_catchIf]
    refine ends_mono hbody fun o v hv => ?_
    cases o with
    | ok _ => exact hv
    | error e =>
      dsimp only
      split <;> exact hv
  exact hends

end BitcoinKit

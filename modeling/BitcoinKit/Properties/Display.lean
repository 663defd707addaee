import BitcoinKit.Cocoa.Display
import BitcoinKit.Schemes.Mailbox
import BitcoinKit.Schemes.Run
import Mathlib.Data.List.Chain

/-! What the application is shown is what the manager holds, and once the main queue is empty, what Java
    last told:

        observers         for each key: will, did v₁, will, did v₂, …; the last of them is the value held
        isSyncing         a change is announced twice over, an update without one once
        main queue empty  the last count of peers, the last percentage, every changed transaction
        balances          as they are, unless they changed and neither Java nor the timer has said so since -/

namespace BitcoinKit
open Schemes

def KeyNotice.key : KeyNotice → Key
  | .willChange key => key
  | .didChange key _ => key

variable {dates : Dates} {d d' : Display} {key : Key} {values : List KeyValue}

/-! ### Observers -/

/-- What the observers of a key have been told. -/
def Display.about (d : Display) (key : Key) : List KeyNotice := d.notices.filter fun n => n.key = key

/-- What observers are told when `value` is set in place of `held`. A change of `isSyncing` is announced
    around the setter and once more by the setter itself. -/
def announcement (key : Key) (held value : KeyValue) : List KeyNotice :=
  if key = .isSyncing ∧ held ≠ value then
    [.willChange key, .willChange key, .didChange key value, .didChange key value]
  else [.willChange key, .didChange key value]

/-- One value after the other is set and announced. -/
def changes (key : Key) : KeyValue → List KeyValue → List KeyNotice
  | _, [] => []
  | held, value :: values => announcement key held value ++ changes key value values

theorem changes_concat (key : Key) (held value : KeyValue) (values : List KeyValue) :
    changes key held (values ++ [value]) =
      changes key held values ++ announcement key (values.getLastD held) value := by
  induction values generalizing held with
  | nil => simp [changes]
  | cons next values ih =>
    rw [List.cons_append, changes, ih, changes, List.append_assoc, List.getLastD_cons]

/-- The value the manager holds; of a balance, the one last looked up. -/
def Display.held (d : Display) : Key → KeyValue
  | .availableBalance => .amount d.lastAvailableBalance
  | .estimatedBalance => .amount d.lastEstimatedBalance
  | .peerCount => .count d.peerCount
  | .isConnected => .flag d.isConnected
  | .syncProgress => .percent d.syncProgress
  | .isSyncing => .flag d.isSyncing

/-- The observers of `key` have been told of these values, one after the other. -/
structure Observed (d : Display) (key : Key) (values : List KeyValue) : Prop where
  notices : d.about key = changes key (Display.initial.held key) values
  current : values.getLastD (Display.initial.held key) = d.held key
  distinct : key = .isConnected →
    (Display.initial.held key :: values).IsChain fun value next => value ≠ next

theorem observed_initial (key : Key) : Observed .initial key [] :=
  ⟨rfl, rfl, fun _ => List.isChain_singleton _⟩

theorem observed_same (h : Observed d key values) (habout : d'.about key = d.about key)
    (hheld : d'.held key = d.held key) : Observed d' key values :=
  ⟨habout.trans h.notices, h.current.trans hheld.symm, h.distinct⟩

theorem observed_next (h : Observed d key values)
    (habout : d'.about key = d.about key ++ announcement key (d.held key) (d'.held key))
    (hne : key = .isConnected → d.held key ≠ d'.held key) :
    Observed d' key (values ++ [d'.held key]) := by
  refine ⟨?_, ?_, fun hkey => ?_⟩
  · rw [habout, h.notices, changes_concat, h.current]
  · simp
  · rw [← List.cons_append, List.isChain_append]
    refine ⟨h.distinct hkey, List.isChain_singleton _, fun value hvalue next hnext => ?_⟩
    rw [List.getLast?_cons, ← List.getLastD_eq_getLast?, h.current] at hvalue
    cases hvalue
    cases hnext
    exact hne hkey

@[simp] theorem held_will (k : Key) : (d.willChangeValueForKey k).held key = d.held key := by
  cases key <;> rfl

@[simp] theorem held_did (k : Key) : (d.didChangeValueForKey k).held key = d.held key := by
  cases key <;> rfl

@[simp] theorem about_will (k : Key) : (d.willChangeValueForKey k).about key =
    d.about key ++ if k = key then [.willChange k] else [] := by
  by_cases hk : k = key <;>
    simp [Display.about, Display.willChangeValueForKey, List.filter_append, KeyNotice.key, hk]

@[simp] theorem about_did (k : Key) : (d.didChangeValueForKey k).about key =
    d.about key ++ if k = key then [.didChange k (d.valueForKey k)] else [] := by
  by_cases hk : k = key <;>
    simp [Display.about, Display.didChangeValueForKey, List.filter_append, KeyNotice.key, hk]

/-- Observers of every key have been told of its changes. -/
def AllObserved (d : Display) : Prop := ∀ key, ∃ values, Observed d key values

theorem allObserved_same (h : AllObserved d) (habout : d'.notices = d.notices)
    (hheld : ∀ key, d'.held key = d.held key) : AllObserved d' := by
  intro key
  obtain ⟨values, hvalues⟩ := h key
  exact ⟨values, observed_same hvalues (congrArg (List.filter _) habout) (hheld key)⟩

theorem announcement_once {held value : KeyValue} (h : key ≠ .isSyncing ∨ held = value) :
    announcement key held value = [.willChange key, .didChange key value] := by
  rw [announcement, if_neg]
  rintro ⟨rfl, hne⟩
  exact h.elim (absurd rfl) hne

/-- One property is changed, to a value that an observer reads. -/
theorem allObserved_changing {k : Key} {change : Display → Display} (h : AllObserved d)
    (honce : k ≠ .isSyncing) (hplain : k ≠ .isConnected)
    (habout : (change (d.willChangeValueForKey k)).notices = (d.willChangeValueForKey k).notices)
    (hothers : ∀ key, k ≠ key → (change (d.willChangeValueForKey k)).held key = d.held key)
    (hvalue : (change (d.willChangeValueForKey k)).valueForKey k =
      (change (d.willChangeValueForKey k)).held k) :
    AllObserved (d.changing k change) := by
  intro key
  obtain ⟨values, hvalues⟩ := h key
  have hfiltered : (change (d.willChangeValueForKey k)).about key =
      (d.willChangeValueForKey k).about key := congrArg (List.filter _) habout
  by_cases hk : k = key
  · subst hk
    refine ⟨_, observed_next hvalues ?_ fun hkey => absurd hkey hplain⟩
    rw [announcement_once (.inl honce), Display.changing, about_did, hfiltered, about_will, hvalue, held_did,
      if_pos rfl, if_pos rfl, List.append_assoc]
    rfl
  · refine ⟨values, observed_same hvalues ?_ ?_⟩
    · rw [Display.changing, about_did, hfiltered, about_will, if_neg hk, if_neg hk, List.append_nil,
        List.append_nil]
    · rw [Display.changing, held_did, hothers key hk]

theorem setIsSyncing_same {isSyncing : Bool} (h : d.isSyncing = isSyncing) :
    d.setIsSyncing isSyncing =
      (d.willChangeValueForKey .isSyncing).didChangeValueForKey .isSyncing :=
  congrArg (Display.didChangeValueForKey · .isSyncing) (if_neg (not_not_intro h))

theorem setIsSyncing_other {isSyncing : Bool} (h : d.isSyncing ≠ isSyncing) :
    d.setIsSyncing isSyncing =
      ({ (d.willChangeValueForKey .isSyncing).willChangeValueForKey .isSyncing with
        isSyncing := isSyncing }.didChangeValueForKey .isSyncing).didChangeValueForKey .isSyncing :=
  congrArg (Display.didChangeValueForKey · .isSyncing) (if_pos h)

/-- The setter's own notices stand between those around it. -/
theorem allObserved_setIsSyncing (h : AllObserved d) (isSyncing : Bool) :
    AllObserved (d.setIsSyncing isSyncing) := by
  intro key
  obtain ⟨values, hvalues⟩ := h key
  by_cases hsame : d.isSyncing = isSyncing
  · rw [setIsSyncing_same hsame]
    by_cases hkey : key = .isSyncing
    · subst hkey
      refine ⟨_, observed_next hvalues ?_ (by simp)⟩
      rw [held_did, held_will, announcement_once (.inr rfl)]
      simp
      rfl
    · exact ⟨values, observed_same hvalues (by simp [Ne.symm hkey]) (by simp)⟩
  · rw [setIsSyncing_other hsame]
    generalize hset : ({ (d.willChangeValueForKey .isSyncing).willChangeValueForKey .isSyncing with
      isSyncing := isSyncing } : Display) = u
    have habout (key : Key) : u.about key =
        ((d.willChangeValueForKey .isSyncing).willChangeValueForKey .isSyncing).about key := by
      rw [← hset]
      rfl
    by_cases hkey : key = .isSyncing
    · subst hkey
      have hheld : u.held .isSyncing = .flag isSyncing := by
        rw [← hset]
        rfl
      refine ⟨_, observed_next hvalues ?_ (by simp)⟩
      have hne : d.held .isSyncing ≠ u.held .isSyncing := by
        rw [hheld]
        exact fun heq => hsame (KeyValue.flag.inj heq)
      rw [held_did, held_did, announcement, if_pos ⟨rfl, hne⟩]
      simp [habout]
      exact ⟨rfl, rfl⟩
    · refine ⟨values, observed_same hvalues ?_ ?_⟩
      · simp [habout, Ne.symm hkey]
      · rw [held_did, held_did, ← hset]
        cases key <;> first | rfl | exact absurd rfl hkey

/-- The condition of the source: one of the counts is zero, the other is not. -/
theorem status_changes_iff (n m : NSUInteger) :
    (n > 0 ∧ m = 0) ∨ (n = 0 ∧ m > 0) ↔ decide (n > 0) ≠ decide (m > 0) := by
  have hpos (k : NSUInteger) : k > 0 ↔ k ≠ 0 := UInt64.pos_iff_ne_zero
  by_cases hn : n = 0 <;> by_cases hm : m = 0 <;> simp [hpos, hn, hm]

/-- The connection is told of when it comes or goes, in between the notices about the peers. -/
theorem allObserved_onPeerCountChanged (h : AllObserved d) (peerCount : NSUInteger) :
    AllObserved (d.onPeerCountChanged peerCount) := by
  unfold Display.onPeerCountChanged
  by_cases hstatus : (d.peerCount > 0 ∧ peerCount = 0) ∨ (d.peerCount = 0 ∧ peerCount > 0)
  · simp only [if_pos hstatus]
    generalize hset : ({ (d.willChangeValueForKey .peerCount).willChangeValueForKey .isConnected with
      peerCount := peerCount } : Display) = u
    have habout (key : Key) : u.about key =
        ((d.willChangeValueForKey .peerCount).willChangeValueForKey .isConnected).about key := by
      rw [← hset]
      rfl
    intro key
    obtain ⟨values, hvalues⟩ := h key
    by_cases hpeers : key = .peerCount
    · subst hpeers
      refine ⟨_, observed_next hvalues ?_ (by simp)⟩
      rw [announcement_once (.inl (by simp))]
      simp [habout]
      rfl
    · by_cases hconnected : key = .isConnected
      · subst hconnected
        refine ⟨_, observed_next hvalues ?_ fun _ hsame => ?_⟩
        · rw [announcement_once (.inl (by simp))]
          simp [habout]
          rfl
        · exact (status_changes_iff _ _).mp hstatus (KeyValue.flag.inj (hsame.trans (by rw [← hset]; rfl)))
      · refine ⟨values, observed_same hvalues ?_ ?_⟩
        · simp [habout, Ne.symm hpeers, Ne.symm hconnected]
        · rw [held_did, held_did, ← hset]
          cases key <;> first | rfl | exact absurd rfl hpeers | exact absurd rfl hconnected
  · simp only [if_neg hstatus]
    suffices hchanging : AllObserved (d.changing .peerCount fun d => { d with peerCount := peerCount }) from
      hchanging
    refine allObserved_changing h (by simp) (by simp) rfl (fun key hkey => ?_) rfl
    cases key with
    | isConnected =>
      have hsame : decide (d.peerCount > 0) = decide (peerCount > 0) := by
        by_contra hne
        exact hstatus ((status_changes_iff _ _).mpr hne)
      exact congrArg KeyValue.flag hsame.symm
    | peerCount => exact absurd rfl hkey
    | _ => rfl

theorem allObserved_run (h : AllObserved d) (block : DisplayBlock) : AllObserved (block.run dates d) := by
  cases block with
  | onAvailableBalanceChanged =>
    change AllObserved d.onAvailableBalanceChanged
    refine allObserved_changing h (by simp) (by simp) rfl (fun key hkey => ?_) rfl
    cases key <;> first | rfl | exact absurd rfl hkey
  | onEstimatedBalanceChanged =>
    change AllObserved d.onEstimatedBalanceChanged
    refine allObserved_changing h (by simp) (by simp) rfl (fun key hkey => ?_) rfl
    cases key <;> first | rfl | exact absurd rfl hkey
  | onPeerCountChanged peerCount => exact allObserved_onPeerCountChanged h peerCount
  | onSynchronizationChanged percent =>
    refine allObserved_setIsSyncing
      (allObserved_changing h (by simp) (by simp) rfl (fun key hkey => ?_) rfl) _
    cases key <;> first | rfl | exact absurd rfl hkey
  | onTransactionChanged txid json =>
    change AllObserved (d.onTransactionChanged dates txid json)
    unfold Display.onTransactionChanged
    have hsame (postings : List Posting) (raised : Option NSException) :
        AllObserved { d with postings := postings, raised := raised } :=
      allObserved_same h rfl fun key => by cases key <;> rfl
    cases json with
    | none => exact hsame _ _
    | some text =>
      dsimp only
      split
      · exact hsame _ _
      · exact hsame _ _

/-- Notices apart, an update sets two properties. -/
theorem onSynchronizationChanged_eq (d : Display) (percent : ℚ) : ∃ notices,
    d.onSynchronizationChanged percent =
      { d with syncProgress := percent, isSyncing := decide (percent < 100), notices := notices } := by
  by_cases hsame : d.isSyncing = decide (percent < 100)
  · rw [← hsame]
    exact ⟨_, (congrArg _ hsame.symm).trans (setIsSyncing_same rfl)⟩
  · exact ⟨_, setIsSyncing_other hsame⟩

/-- What else a block leaves alone. -/
theorem queue_run (block : DisplayBlock) : (block.run dates d).mainQueue = d.mainQueue := by
  cases block with
  | onAvailableBalanceChanged => rfl
  | onEstimatedBalanceChanged => rfl
  | onPeerCountChanged peerCount =>
    unfold DisplayBlock.run Display.onPeerCountChanged
    dsimp only
    split <;> rfl
  | onSynchronizationChanged percent =>
    obtain ⟨notices, hset⟩ := onSynchronizationChanged_eq _ percent
    rw [DisplayBlock.run, hset]
  | onTransactionChanged txid json =>
    unfold DisplayBlock.run Display.onTransactionChanged
    cases json with
    | none => rfl
    | some text =>
      dsimp only
      split <;> rfl

/-- The blocks for the balances that the timer finds changed. -/
def Display.missedBlocks (d : Display) : List DisplayBlock :=
  (if d.availableBalance ≠ d.lastAvailableBalance then [.onAvailableBalanceChanged] else []) ++
    if d.estimatedBalance ≠ d.lastEstimatedBalance then [.onEstimatedBalanceChanged] else []

theorem verifyBalance_dispatches (d : Display) :
    ∃ missed, d.verifyBalance = { d with missed := missed }.dispatch d.missedBlocks := by
  unfold Display.verifyBalance Display.missedBlocks
  by_cases havailable : d.availableBalance ≠ d.lastAvailableBalance
  · simp only [if_pos havailable]
    by_cases hestimated : d.estimatedBalance ≠ d.lastEstimatedBalance
    · rw [if_pos hestimated]
      exact ⟨_, (if_pos hestimated).trans (by simp [Display.dispatch]; rfl)⟩
    · rw [if_neg hestimated]
      exact ⟨_, if_neg hestimated⟩
  · simp only [if_neg havailable]
    by_cases hestimated : d.estimatedBalance ≠ d.lastEstimatedBalance
    · simp only [if_pos hestimated]
      exact ⟨_, rfl⟩
    · simp only [if_neg hestimated]
      exact ⟨d.missed, by simp [Display.dispatch]⟩

theorem allObserved_deliver (h : AllObserved d) (event : DisplayEvent) :
    AllObserved (d.deliver dates event) := by
  have hqueue (blocks : List DisplayBlock) (missed : Nat) (h : AllObserved d) :
      AllObserved ({ d with missed := missed }.dispatch blocks) :=
    allObserved_same h rfl fun key => by cases key <;> rfl
  cases event with
  | balances balances => exact allObserved_same h rfl fun key => by cases key <;> rfl
  | onBalanceChanged => exact hqueue _ _ h
  | onPeerCountChanged peerCount => exact hqueue _ _ h
  | onSynchronizationUpdate percent => exact hqueue _ _ h
  | onTransactionChanged txid json => exact hqueue _ _ h
  | verifyBalance =>
    obtain ⟨missed, hverify⟩ := verifyBalance_dispatches d
    change AllObserved d.verifyBalance
    rw [hverify]
    exact hqueue _ missed h
  | mainQueue =>
    unfold Display.deliver
    dsimp only
    split
    · exact h
    · next block blocks _ =>
      exact allObserved_run (d := { d with mainQueue := blocks })
        (allObserved_same h rfl fun key => by cases key <;> rfl) block

theorem allObserved_tell (h : AllObserved d) (event : DisplayEvent) : AllObserved (d.tell dates event) := by
  unfold Display.tell halting
  split
  · exact h
  · exact allObserved_deliver h event

/-- Over every run: the observers of a key have been told of values one after the other, each announced and
    then set; the last value told is the one held; a connection is told of only when it begins or ends; and
    a synchronisation that begins or ends is told of twice. -/
theorem observers_told (dates : Dates) (events : List DisplayEvent) (key : Key) :
    ∃ values, Observed (run (Display.tell dates) .initial events) key values :=
  inv_run (I := AllObserved) (fun _ event h => allObserved_tell h event) .initial events
    (fun key => ⟨[], observed_initial key⟩) key

/-! ### The main queue -/

/-- What a block comes to, apart from balances. -/
def Onscreen.handle (dates : Dates) (s : Onscreen) : DisplayBlock → Onscreen
  | .onPeerCountChanged peerCount => { s with peerCount := peerCount }
  | .onSynchronizationChanged percent =>
    { s with syncProgress := percent, isSyncing := decide (percent < 100) }
  | .onTransactionChanged txid none => { s with postings := s.postings ++ [⟨txid, none⟩] }
  | .onTransactionChanged txid (some text) =>
    match transactionOf dates (some text) with
    | some transaction => { s with postings := s.postings ++ [⟨txid, some transaction⟩] }
    | none => { s with raised := some ⟨"attempt to insert nil object"⟩ }
  | _ => s

theorem shown_run (block : DisplayBlock) :
    (block.run dates d).toOnscreen = d.toOnscreen.handle dates block := by
  cases block with
  | onAvailableBalanceChanged => rfl
  | onEstimatedBalanceChanged => rfl
  | onPeerCountChanged peerCount =>
    unfold DisplayBlock.run Display.onPeerCountChanged
    dsimp only
    split <;> rfl
  | onSynchronizationChanged percent =>
    obtain ⟨notices, hset⟩ := onSynchronizationChanged_eq _ percent
    rw [DisplayBlock.run, hset]
    rfl
  | onTransactionChanged txid json =>
    unfold DisplayBlock.run Display.onTransactionChanged
    cases json with
    | none => rfl
    | some text =>
      unfold Onscreen.handle
      dsimp only
      generalize transactionOf dates (some text) = parsed
      cases parsed <;> rfl

def DisplayBlock.isBalance : DisplayBlock → Bool
  | .onAvailableBalanceChanged => true
  | .onEstimatedBalanceChanged => true
  | _ => false

theorem handle_balance {s : Onscreen} {block : DisplayBlock} (h : block.isBalance = true) :
    s.handle dates block = s := by
  cases block with
  | onAvailableBalanceChanged => rfl
  | onEstimatedBalanceChanged => rfl
  | _ => cases h

/-- What is shown, and the blocks that will change it. -/
def Display.mailbox (d : Display) : Mailbox Onscreen DisplayBlock :=
  ⟨d.toOnscreen, d.mainQueue.filter fun block => !block.isBalance⟩

/-- The blocks Java asks for, those for balances apart. -/
def DisplayEvent.posts : DisplayEvent → List DisplayBlock
  | .onPeerCountChanged peerCount => [.onPeerCountChanged (.ofJint peerCount)]
  | .onSynchronizationUpdate percent => [.onSynchronizationChanged percent]
  | .onTransactionChanged txid json => [.onTransactionChanged txid json]
  | _ => []

theorem mailbox_dispatch (blocks : List DisplayBlock) (missed : Nat) :
    ({ d with missed := missed }.dispatch blocks).mailbox =
      d.mailbox.post (blocks.filter fun block => !block.isBalance) := by
  simp [Display.mailbox, Display.dispatch, Mailbox.post, List.filter_append]

theorem mailbox_deliver (event : DisplayEvent) :
    (d.deliver dates event).mailbox = d.mailbox.post event.posts ∨
      event.posts = [] ∧ (d.deliver dates event).mailbox = d.mailbox.take (Onscreen.handle dates) := by
  have hnone := d.mailbox.post_nil
  cases event with
  | balances balances => exact .inl hnone.symm
  | onBalanceChanged => exact .inl (mailbox_dispatch _ d.missed)
  | onPeerCountChanged peerCount => exact .inl (mailbox_dispatch _ d.missed)
  | onSynchronizationUpdate percent => exact .inl (mailbox_dispatch _ d.missed)
  | onTransactionChanged txid json => exact .inl (mailbox_dispatch _ d.missed)
  | verifyBalance =>
    refine .inl ?_
    change d.verifyBalance.mailbox = d.mailbox.post []
    obtain ⟨missed, hverify⟩ := verifyBalance_dispatches d
    rw [hverify, mailbox_dispatch, Display.missedBlocks]
    split <;> split <;> rfl
  | mainQueue =>
    unfold Display.deliver
    dsimp only
    split
    · exact .inl hnone.symm
    · next block blocks hq =>
      have hview : (block.run dates { d with mainQueue := blocks }).mailbox =
          ⟨d.toOnscreen.handle dates block, blocks.filter fun block => !block.isBalance⟩ := by
        rw [Display.mailbox, shown_run, queue_run]
      rw [hview]
      cases hb : block.isBalance with
      | true =>
        refine .inl (Eq.trans ?_ hnone.symm)
        rw [handle_balance hb, Display.mailbox, hq, List.filter_cons_of_neg (by simp [hb])]
      | false =>
        refine .inr ⟨rfl, ?_⟩
        rw [Mailbox.take, Display.mailbox, hq, List.filter_cons_of_pos (by simp [hb])]

def peerCounts (events : List DisplayEvent) : List NSUInteger :=
  events.filterMap fun
    | .onPeerCountChanged peerCount => some (.ofJint peerCount)
    | _ => none

def percents (events : List DisplayEvent) : List ℚ :=
  events.filterMap fun
    | .onSynchronizationUpdate percent => some percent
    | _ => none

def changedTransactions (events : List DisplayEvent) : List (String × Option String) :=
  events.filterMap fun
    | .onTransactionChanged txid json => some (txid, json)
    | _ => none

/-- The notification for a changed transaction; there is none for a text that is not JSON. -/
def posting (dates : Dates) (change : String × Option String) : Option Posting :=
  match change.2 with
  | none => some ⟨change.1, none⟩
  | some text => (transactionOf dates (some text)).map fun transaction => ⟨change.1, some transaction⟩

/-- What is shown is what Java told last, and every transaction it told of. -/
structure ToldLast (dates : Dates) (s : Onscreen) (events : List DisplayEvent) (t : Onscreen) : Prop where
  peers : t.peerCount = (peerCounts events).getLastD s.peerCount
  progress : t.syncProgress = (percents events).getLastD s.syncProgress
  syncing : t.isSyncing = ((percents events).map fun percent => decide (percent < 100)).getLastD s.isSyncing
  postings : t.postings = s.postings ++ (changedTransactions events).filterMap (posting dates)

theorem handle_changed (dates : Dates) (s : Onscreen) (txid : String) (json : Option String) :
    ∃ raised, s.handle dates (.onTransactionChanged txid json) =
      { s with postings := s.postings ++ (posting dates (txid, json)).toList, raised := raised } := by
  cases json with
  | none => exact ⟨s.raised, rfl⟩
  | some text =>
    unfold Onscreen.handle posting
    dsimp only
    cases transactionOf dates (some text) with
    | none => exact ⟨some ⟨"attempt to insert nil object"⟩, by simp⟩
    | some transaction => exact ⟨s.raised, rfl⟩

theorem toldLast_fold (dates : Dates) (events : List DisplayEvent) (s : Onscreen) :
    ToldLast dates s events ((events.flatMap DisplayEvent.posts).foldl (Onscreen.handle dates) s) := by
  induction events generalizing s with
  | nil => exact ⟨rfl, rfl, rfl, (List.append_nil _).symm⟩
  | cons event events ih =>
    rw [List.flatMap_cons, List.foldl_append]
    obtain ⟨hpeers, hprogress, hsyncing, hpostings⟩ := ih (event.posts.foldl (Onscreen.handle dates) s)
    cases event with
    | onPeerCountChanged peerCount =>
      exact ⟨hpeers.trans (List.getLastD_cons ..).symm, hprogress, hsyncing, hpostings⟩
    | onSynchronizationUpdate percent =>
      exact ⟨hpeers, hprogress.trans (List.getLastD_cons ..).symm,
        hsyncing.trans (List.getLastD_cons ..).symm, hpostings⟩
    | onTransactionChanged txid json =>
      obtain ⟨raised, hhandle⟩ := handle_changed dates s txid json
      have hposts : (DisplayEvent.onTransactionChanged txid json).posts.foldl (Onscreen.handle dates) s =
          { s with postings := s.postings ++ (posting dates (txid, json)).toList, raised := raised } :=
        hhandle
      rw [hposts] at hpeers hprogress hsyncing hpostings ⊢
      refine ⟨hpeers, hprogress, hsyncing, hpostings.trans ?_⟩
      have hchanged : changedTransactions (.onTransactionChanged txid json :: events) =
          (txid, json) :: changedTransactions events := rfl
      rw [hchanged, List.filterMap_cons, List.append_assoc]
      cases posting dates (txid, json) <;> rfl
    | _ => exact ⟨hpeers, hprogress, hsyncing, hpostings⟩

/-! ### Balances -/

/-- A balance other than the one last looked up is about to be looked up. -/
structure Covered (d : Display) : Prop where
  available : d.availableBalance ≠ d.lastAvailableBalance → .onAvailableBalanceChanged ∈ d.mainQueue
  estimated : d.estimatedBalance ≠ d.lastEstimatedBalance → .onEstimatedBalanceChanged ∈ d.mainQueue

/-- The balances have been told of, or looked after, since they last changed. -/
def accounted (known : Bool) : DisplayEvent → Bool
  | .balances _ => false
  | .onBalanceChanged => true
  | .verifyBalance => true
  | _ => known

theorem covered_dispatch (h : Covered d) (blocks : List DisplayBlock) : Covered (d.dispatch blocks) :=
  ⟨fun hne => List.mem_append_left _ (h.available hne), fun hne => List.mem_append_left _ (h.estimated hne)⟩

/-- The timer makes up for whatever was missed. -/
theorem covered_verifyBalance (d : Display) : Covered d.verifyBalance := by
  obtain ⟨missed, hverify⟩ := verifyBalance_dispatches d
  rw [hverify]
  refine ⟨fun hne => List.mem_append_right _ ?_, fun hne => List.mem_append_right _ ?_⟩
  · have hd : d.availableBalance ≠ d.lastAvailableBalance := hne
    simp [Display.missedBlocks, if_pos hd]
  · have hd : d.estimatedBalance ≠ d.lastEstimatedBalance := hne
    simp [Display.missedBlocks, if_pos hd]

/-- Only the blocks for balances look them up. -/
theorem covered_block {block : DisplayBlock} {blocks : List DisplayBlock} (hq : d.mainQueue = block :: blocks)
    (h : Covered d) : Covered (block.run dates { d with mainQueue := blocks }) := by
  have hrest {b : DisplayBlock} (hb : b ∈ d.mainQueue) (hne : b ≠ block) : b ∈ blocks := by
    rw [hq] at hb
    exact (List.mem_cons.mp hb).resolve_left hne
  have hkept (hb : block.isBalance = false) {u : Display} (hbalances : u.balances = d.balances)
      (havailable : u.lastAvailableBalance = d.lastAvailableBalance)
      (hestimated : u.lastEstimatedBalance = d.lastEstimatedBalance) (hqueue : u.mainQueue = blocks) :
      Covered u := by
    refine ⟨fun hne => hqueue ▸ hrest (h.available ?_) ?_, fun hne => hqueue ▸ hrest (h.estimated ?_) ?_⟩
    · rwa [Display.availableBalance, Display.getAvailableBalance, hbalances, havailable] at hne
    · rintro rfl
      cases hb
    · rwa [Display.estimatedBalance, Display.getEstimatedBalance, hbalances, hestimated] at hne
    · rintro rfl
      cases hb
  cases block with
  | onAvailableBalanceChanged =>
    exact ⟨fun hne => absurd rfl hne, fun hne => hrest (h.estimated hne) (by simp)⟩
  | onEstimatedBalanceChanged =>
    exact ⟨fun hne => hrest (h.available hne) (by simp), fun hne => absurd rfl hne⟩
  | onPeerCountChanged peerCount =>
    unfold DisplayBlock.run Display.onPeerCountChanged
    dsimp only
    split <;> exact hkept rfl rfl rfl rfl rfl
  | onSynchronizationChanged percent =>
    obtain ⟨notices, hset⟩ := onSynchronizationChanged_eq _ percent
    rw [DisplayBlock.run, hset]
    exact hkept rfl rfl rfl rfl rfl
  | onTransactionChanged txid json =>
    unfold DisplayBlock.run Display.onTransactionChanged
    cases json with
    | none => exact hkept rfl rfl rfl rfl rfl
    | some text =>
      dsimp only
      split <;> exact hkept rfl rfl rfl rfl rfl

theorem covered_deliver (event : DisplayEvent) {known : Bool} (h : known = true → Covered d)
    (ht : accounted known event = true) : Covered (d.deliver dates event) := by
  cases event with
  | balances balances => cases ht
  | onBalanceChanged =>
    exact ⟨fun _ => List.mem_append_right _ (by simp), fun _ => List.mem_append_right _ (by simp)⟩
  | onPeerCountChanged peerCount => exact covered_dispatch (h ht) _
  | onSynchronizationUpdate percent => exact covered_dispatch (h ht) _
  | onTransactionChanged txid json => exact covered_dispatch (h ht) _
  | verifyBalance => exact covered_verifyBalance d
  | mainQueue =>
    unfold Display.deliver
    dsimp only
    split
    · exact h ht
    · next hq => exact covered_block hq (h ht)

theorem covered_run (dates : Dates) {known : Bool} (h : known = true → Covered d) (events : List DisplayEvent)
    (ht : events.foldl accounted known = true) : Covered (run (Display.deliver dates) d events) := by
  induction events generalizing d known with
  | nil => exact h ht
  | cons event events ih => exact ih (covered_deliver event h) ht

theorem display_deliver (dates : Dates) (events : List DisplayEvent) :
    let d := run (Display.deliver dates) .initial events
    ∃ seen later, events = seen ++ later ∧ ToldLast dates Display.initial.toOnscreen seen d.toOnscreen ∧
      later.flatMap DisplayEvent.posts = d.mailbox.waiting := by
  obtain ⟨taken, hsplit, hstate⟩ := Mailbox.taken_run (f := Onscreen.handle dates)
    (fun _ event => mailbox_deliver event) .initial events
  have hone (event : DisplayEvent) : event.posts.length ≤ 1 := by
    cases event <;> simp [DisplayEvent.posts]
  obtain ⟨seen, later, hevents, hseen, hlater⟩ := Mailbox.posted_before hone hsplit
  refine ⟨seen, later, hevents, ?_, hlater⟩
  have honscreen : (run (Display.deliver dates) .initial events).toOnscreen =
      taken.foldl (Onscreen.handle dates) Display.initial.toOnscreen := hstate
  rw [honscreen, ← hseen]
  exact toldLast_fold dates seen Display.initial.toOnscreen

theorem told_tell (dates : Dates) (events : List DisplayEvent) :
    let d := run (Display.tell dates) .initial events
    ∃ seen later, events = seen ++ later ∧ ToldLast dates Display.initial.toOnscreen seen d.toOnscreen ∧
      (d.raised = none → d.mainQueue = [] → later.flatMap DisplayEvent.posts = []) := by
  dsimp only
  obtain ⟨lived, rest, rfl, hrun, halive⟩ := run_halting (fun d : Display => d.raised.isSome)
    (Display.deliver dates) .initial events
  obtain ⟨seen, later, rfl, htold, hlater⟩ := display_deliver dates lived
  refine ⟨seen, later ++ rest, List.append_assoc .., hrun ▸ htold, fun hraised hqueue => ?_⟩
  obtain rfl : rest = [] := halive (by rw [← Display.tell, hraised]; rfl)
  rw [Display.tell, hrun] at hqueue
  rw [List.append_nil, hlater, Display.mailbox, hqueue, List.filter_nil]

theorem balances_tell (dates : Dates) (events : List DisplayEvent)
    (hraised : (run (Display.tell dates) .initial events).raised = none)
    (hqueue : (run (Display.tell dates) .initial events).mainQueue = [])
    (haccounted : events.foldl accounted true = true) :
    let d := run (Display.tell dates) .initial events
    d.lastAvailableBalance = d.availableBalance ∧ d.lastEstimatedBalance = d.estimatedBalance := by
  dsimp only
  obtain ⟨lived, rest, rfl, hrun, halive⟩ := run_halting (fun d : Display => d.raised.isSome)
    (Display.deliver dates) .initial events
  obtain rfl : rest = [] := halive (by rw [← Display.tell, hraised]; rfl)
  rw [List.append_nil] at haccounted
  rw [Display.tell, hrun] at hqueue ⊢
  have hinitial : Covered Display.initial := ⟨fun hne => absurd rfl hne, fun hne => absurd rfl hne⟩
  have hcovered := covered_run dates (fun _ => hinitial) lived haccounted
  constructor
  · by_contra hne
    have hmem := hcovered.available (Ne.symm hne)
    rw [hqueue] at hmem
    cases hmem
  · by_contra hne
    have hmem := hcovered.estimated (Ne.symm hne)
    rw [hqueue] at hmem
    cases hmem

/-- What the application is shown is what Java had told at some earlier moment, nothing mixed or left
    out. Once the main queue is empty, it is what Java told last; and the balances are as they are, unless
    they changed and nobody has said so since. -/
theorem display_follows (dates : Dates) (events : List DisplayEvent) :
    let d := run (Display.tell dates) .initial events
    ∃ seen later, events = seen ++ later ∧ ToldLast dates Display.initial.toOnscreen seen d.toOnscreen ∧
      (d.raised = none → d.mainQueue = [] → later.flatMap DisplayEvent.posts = [] ∧
        (events.foldl accounted true = true →
          d.lastAvailableBalance = d.availableBalance ∧ d.lastEstimatedBalance = d.estimatedBalance)) := by
  obtain ⟨seen, later, hevents, htold, hlater⟩ := told_tell dates events
  exact ⟨seen, later, hevents, htold, fun hraised hqueue =>
    ⟨hlater hraised hqueue, balances_tell dates events hraised hqueue⟩⟩

end BitcoinKit

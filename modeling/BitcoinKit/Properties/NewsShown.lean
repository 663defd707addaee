import BitcoinKit.Cocoa.Texts
import BitcoinKit.Properties.Dates
import BitcoinKit.Properties.Display
import BitcoinKit.Properties.News

/-! News of a transaction, from the handlers of the user thread to the application's notifications:

        Java   onCoinsReceived, onConfidenceChanged, … ──▶ report ──▶ text
        Cocoa                                                          └──▶ main queue ──▶ notification

    A report whose text does not cross is news without data. -/

namespace BitcoinKit
open Schemes

/-- The Java manager, and what the Cocoa side shows. -/
structure Relayed where
  java : World
  cocoa : Display

def Relayed.initial (files : Files) : Relayed := ⟨World.initial files, Display.initial⟩

/-- What a native call has the Cocoa side do on the main queue; exceptions go to the application's
    handler, and show nothing. -/
def NativeCall.shown : NativeCall → Option DisplayEvent
  | .onTransactionChanged txid json => some (.onTransactionChanged (toString txid)
      (nsStringFromJString (json.map fun report => utf16 report.text)))
  | .onBalanceChanged => some .onBalanceChanged
  | _ => none

def DisplayEvent.isShown : DisplayEvent → Bool
  | .onTransactionChanged _ _ => true
  | .onBalanceChanged => true
  | _ => false

/-- These two events come from native calls only. -/
inductive RelayedEvent where
  | java (label : Label)
  | cocoa (event : DisplayEvent) (h : event.isShown = false)

def relay (dates : Dates) (b : Relayed) : RelayedEvent → Relayed
  | .java label =>
    let java := step b.java label
    let calls := java.natives.drop b.java.natives.length
    ⟨java, run (Display.tell dates) b.cocoa (calls.filterMap fun call => call.2.shown)⟩
  | .cocoa event _ => { b with cocoa := b.cocoa.tell dates event }

abbrev News := Sha256Hash × Option TransactionJSON

def NativeCall.news : NativeCall → Option News
  | .onTransactionChanged txid json => some (txid, json)
  | _ => none

/-- All news of transactions, oldest first. -/
def World.news (w : World) : List News := w.natives.filterMap fun call => call.2.news

/-- The notification of a piece of news. -/
def notification (dates : Dates) (news : News) : Posting :=
  ⟨toString news.1, news.2.bind fun report =>
    if ∀ s ∈ report.toJson.strings, IsBasic s then some (dictionaryOf dates report) else none⟩

variable {dates : Dates}

/-! ### The Java side's calls -/

/-- Native calls are only ever added. -/
def addingCalls : Along World where
  rel w v := w.natives <+: v.natives
  refl _ := List.prefix_rfl
  trans := List.IsPrefix.trans

theorem addingCalls_work : IgnoresWork addingCalls where
  keys _ _ _ := List.prefix_rfl
  wallets _ _ _ _ := List.prefix_rfl
  chain _ _ _ _ _ := List.prefix_rfl
  chainFiles _ _ := List.prefix_rfl
  saved _ _ := List.prefix_rfl
  balance _ := List.prefix_append _ _
  network _ _ := List.prefix_rfl
  wallet _ _ _ := List.prefix_rfl
  loading _ _ _ _ _ := List.prefix_rfl
  built _ _ := List.prefix_rfl
  waiting _ _ := List.prefix_rfl
  stored _ _ _ := List.prefix_rfl
  committed _ _ _ _ := List.prefix_rfl
  confidence _ _ _ := List.prefix_rfl
  news _ _ _ := List.prefix_append _ _
  secrets _ _ := List.prefix_rfl
  directories _ _ _ := List.prefix_rfl
  bookkeeping _ _ _ _ := List.prefix_rfl

theorem addingCalls_payments : IgnoresPayments addingCalls where
  toIgnoresSending := addingCalls_work.toIgnoresSending
  numbered _ _ := List.prefix_rfl
  loaded _ _ _ := List.prefix_rfl
  removed _ _ := List.prefix_rfl
  reports _ _ _ := List.prefix_append _ _

theorem calls_step (w : World) (l : Label) : w.natives <+: (step w l).natives := by
  have ht : IgnoresTracking addingCalls :=
    ⟨addingCalls_work.toIgnoresNews, fun _ _ _ => List.prefix_rfl⟩
  have hcode : Moves addingCalls l.code := by
    refine moves_label addingCalls_work ht l (fun lib _ => ?_) (fun testing _ => ?_) fun ha => ?_
    · exact moves_reset addingCalls_work ht (fun _ => List.prefix_rfl) lib
    · exact moves_setTestingNetwork (fun _ _ => List.prefix_rfl) testing
    · exact moves_answering addingCalls_work.toIgnoresTraffic addingCalls_payments
        (moves_trackTransaction ht) (fun call => moves_native fun _ => List.prefix_append _ _) l ha
  exact hcode w

/-! ### Crossing -/

/-- What arrives of a piece of news. -/
def arrived (news : News) : String × Option String :=
  (toString news.1, nsStringFromJString (news.2.map fun report => utf16 report.text))

theorem nsString_text (report : TransactionJSON) :
    nsStringFromJString (some (utf16 report.text)) =
      if ∀ s ∈ report.toJson.strings, IsBasic s then some report.text else none := by
  have hplain := Json.plainChars_print report.toJson
  rw [nsString_utf16, TransactionJSON.text, String.toList_ofList]
  by_cases h : PlainChars report.toJson.print
  · rw [if_pos h, if_pos (hplain.mp h)]
  · rw [if_neg h, if_neg fun hall => h (hplain.mpr hall)]

/-- Whatever arrives is JSON. -/
theorem posting_arrived (news : News) :
    posting dates (arrived news) = some (notification dates news) := by
  obtain ⟨txid, json⟩ := news
  cases json with
  | none => rfl
  | some report =>
    by_cases hplain : ∀ s ∈ report.toJson.strings, IsBasic s
    · have harrived : arrived (txid, some report) = (toString txid, some report.text) := by
        rw [arrived, Option.map_some, nsString_text, if_pos hplain]
      have hnotified : notification dates (txid, some report) =
          ⟨toString txid, some (dictionaryOf dates report)⟩ := by
        rw [notification, Option.bind_some, if_pos hplain]
      rw [harrived, hnotified, posting]
      dsimp only
      rw [transactionOf_text]
      rfl
    · have harrived : arrived (txid, some report) = (toString txid, none) := by
        rw [arrived, Option.map_some, nsString_text, if_neg hplain]
      rw [harrived, notification, Option.bind_some, if_neg hplain]
      rfl

theorem postings_arrived (news : List News) :
    (news.map arrived).filterMap (posting dates) = news.map (notification dates) := by
  induction news with
  | nil => rfl
  | cons n news ih => rw [List.map_cons, List.filterMap_cons_some (posting_arrived n), ih, List.map_cons]

/-- A block that raises nothing. -/
def DisplayBlock.IsFine (dates : Dates) : DisplayBlock → Prop
  | .onTransactionChanged txid json => (posting dates (txid, json)).isSome
  | _ => True

theorem raised_handle {s : Onscreen} {block : DisplayBlock} (h : block.IsFine dates) :
    (s.handle dates block).raised = s.raised := by
  cases block with
  | onTransactionChanged txid json =>
    cases json with
    | none => rfl
    | some text =>
      unfold Onscreen.handle
      dsimp only
      split
      · rfl
      · next hnone =>
        rw [DisplayBlock.IsFine, posting] at h
        dsimp only at h
        rw [hnone] at h
        cases h
  | _ => rfl

theorem raised_fold {blocks : List DisplayBlock} (h : ∀ block ∈ blocks, block.IsFine dates) (s : Onscreen) :
    (blocks.foldl (Onscreen.handle dates) s).raised = s.raised := by
  induction blocks generalizing s with
  | nil => rfl
  | cons block blocks ih =>
    obtain ⟨hblock, hblocks⟩ := List.forall_mem_cons.mp h
    exact (ih hblocks _).trans (raised_handle hblock)

/-- What only asks for fine blocks ends without an exception. -/
theorem raised_tell {events : List DisplayEvent}
    (h : ∀ event ∈ events, ∀ block ∈ event.posts, block.IsFine dates) :
    (run (Display.tell dates) .initial events).raised = none := by
  obtain ⟨lived, rest, rfl, hrun, -⟩ := run_halting (fun d : Display => d.raised.isSome)
    (Display.deliver dates) .initial events
  obtain ⟨taken, hsplit, hstate⟩ := Mailbox.taken_run (f := Onscreen.handle dates)
    (fun _ event => mailbox_deliver event) .initial lived
  have hfine : ∀ block ∈ taken, block.IsFine dates := by
    intro block hblock
    have hposted : block ∈ lived.flatMap DisplayEvent.posts := by
      have hsplit' : lived.flatMap DisplayEvent.posts = taken ++ _ := hsplit
      rw [hsplit']
      exact List.mem_append_left _ hblock
    obtain ⟨event, hevent, hblock⟩ := List.mem_flatMap.mp hposted
    exact h event (List.mem_append_left rest hevent) block hblock
  have hraised := congrArg Onscreen.raised hstate
  rw [Display.tell, hrun]
  exact hraised.trans (raised_fold hfine _)

/-! ### The Cocoa side's run -/

/-- Events that ask for fine blocks. -/
def DisplayEvent.IsFine (dates : Dates) (event : DisplayEvent) : Prop :=
  ∀ block ∈ event.posts, block.IsFine dates

theorem fine_shown {call : NativeCall} {event : DisplayEvent} (h : call.shown = some event) :
    event.IsFine dates := by
  cases call with
  | onTransactionChanged txid json =>
    cases h
    intro block hblock
    obtain rfl := List.mem_singleton.mp hblock
    exact Option.isSome_iff_exists.mpr ⟨_, posting_arrived (txid, json)⟩
  | onBalanceChanged =>
    cases h
    exact nofun
  | _ => cases h

theorem changed_shown (calls : List (Nat × NativeCall)) :
    changedTransactions (calls.filterMap fun call => call.2.shown) =
      (calls.filterMap fun call => call.2.news).map arrived := by
  induction calls with
  | nil => rfl
  | cons call calls ih =>
    obtain ⟨activity, call⟩ := call
    cases call with
    | onTransactionChanged txid json => exact congrArg (arrived (txid, json) :: ·) ih
    | _ => exact ih

/-- One step is a run of the Cocoa side that is told the news of it. -/
theorem relay_cocoa (dates : Dates) (b : Relayed) (event : RelayedEvent) : ∃ events,
    (∀ event ∈ events, event.IsFine dates) ∧
      (relay dates b event).cocoa = run (Display.tell dates) b.cocoa events ∧
      (relay dates b event).java.news.map arrived = b.java.news.map arrived ++ changedTransactions events := by
  cases event with
  | java label =>
    obtain ⟨calls, hcalls⟩ := calls_step b.java label
    refine ⟨calls.filterMap fun call => call.2.shown, fun event hevent => ?_, ?_, ?_⟩
    · obtain ⟨call, -, hcall⟩ := List.mem_filterMap.mp hevent
      exact fine_shown hcall
    · simp only [relay, ← hcalls, List.drop_left]
    · have hnews : (step b.java label).news = b.java.news ++ calls.filterMap fun call => call.2.news := by
        rw [World.news, ← hcalls, List.filterMap_append, World.news]
      rw [changed_shown, ← List.map_append, ← hnews]
      rfl
  | cocoa event h =>
    refine ⟨[event], List.forall_mem_singleton.mpr ?_, rfl, ?_⟩
    · cases event with
      | onTransactionChanged txid json => cases h
      | onPeerCountChanged peerCount => exact List.forall_mem_singleton.mpr trivial
      | onSynchronizationUpdate percent => exact List.forall_mem_singleton.mpr trivial
      | _ => exact nofun
    · have hnone : changedTransactions [event] = [] := by
        cases event with
        | onTransactionChanged txid json => cases h
        | _ => rfl
      rw [hnone, List.append_nil]
      rfl

/-- Blocks for news are asked for by news. -/
theorem changed_quiet {events : List DisplayEvent} (h : events.flatMap DisplayEvent.posts = []) :
    changedTransactions events = [] := by
  induction events with
  | nil => rfl
  | cons event events ih =>
    rw [List.flatMap_cons, List.append_eq_nil_iff] at h
    cases event with
    | onTransactionChanged txid json => cases h.1
    | _ => exact ih h.2

/-! ### The results -/

/-- No news makes the main queue raise. The notifications are those of the news there has been, in order
    and without gaps, and of all of it once the main queue is empty. -/
theorem news_delivered (dates : Dates) (files : Files) (events : List RelayedEvent) :
    let b := run (relay dates) (.initial files) events
    b.cocoa.raised = none ∧ ∃ seen later, b.java.news = seen ++ later ∧
      b.cocoa.postings = seen.map (notification dates) ∧ (b.cocoa.mainQueue = [] → later = []) := by
  dsimp only
  obtain ⟨told, hfine, hcocoa, hnews⟩ := run_driving Relayed.cocoa (fun b => b.java.news.map arrived)
    (relay_cocoa dates) (.initial files) events
  have hraised : (run (relay dates) (.initial files) events).cocoa.raised = none :=
    hcocoa ▸ raised_tell hfine
  obtain ⟨before, after, rfl, hlast, hafter⟩ := told_tell dates told
  have harrived : (run (relay dates) (.initial files) events).java.news.map arrived =
      changedTransactions before ++ changedTransactions after := hnews.trans List.filterMap_append
  obtain ⟨seen, later, hsplit, hseen, hlater⟩ := List.map_eq_append_iff.mp harrived
  refine ⟨hraised, seen, later, hsplit, ?_, fun hqueue => ?_⟩
  · have hpostings := hlast.postings
    rw [← hseen, postings_arrived] at hpostings
    exact (congrArg (fun d : Display => d.postings) hcocoa).trans hpostings
  · have hnone := changed_quiet (hafter (hcocoa ▸ hraised) (hcocoa ▸ hqueue))
    rwa [hnone, List.map_eq_nil_iff] at hlater

/-! ### The last notification -/

def labels (events : List RelayedEvent) : List Label :=
  events.filterMap fun
    | .java label => some label
    | .cocoa _ _ => none

/-- The texts in the report are of characters of one unit. -/
def Crosses (news : News) : Prop := ∀ report ∈ news.2, ∀ s ∈ report.toJson.strings, IsBasic s

instance (news : News) : Decidable (Crosses news) :=
  inferInstanceAs (Decidable (∀ report ∈ news.2, ∀ s ∈ report.toJson.strings, IsBasic s))

/-- The last notification about `tx`, if there has been any, shows its confidence type. -/
def ShowsNews (b : Relayed) (tx : Transaction) : Prop :=
  ∀ p ∈ (b.cocoa.postings.filter fun p => p.txid = toString tx.hash).getLast?,
    ∃ dictionary, p.json = some dictionary ∧
      dictionary.lookup "confidence" = some (.parsed (.str (b.java.confidence tx).text))

theorem java_relay (dates : Dates) (events : List RelayedEvent) (b : Relayed) :
    (run (relay dates) b events).java = run step b.java (labels events) := by
  induction events generalizing b with
  | nil => rfl
  | cons event events ih =>
    cases event with
    | java label => exact ih _
    | cocoa event h => exact ih _

theorem newsOf_eq (w : World) (txid : Sha256Hash) :
    w.newsOf txid = (w.news.filter fun news => news.1 = txid).map Prod.snd := by
  have hcall (call : NativeCall) : call.newsOf txid =
      (call.news.filter fun news => decide (news.1 = txid)).map Prod.snd := by
    cases call with
    | onTransactionChanged id json =>
      by_cases hid : id = txid
      · simp [NativeCall.newsOf, NativeCall.news, hid]
      · simp [NativeCall.newsOf, NativeCall.news, hid]
    | _ => rfl
  rw [World.newsOf, World.news, List.filter_filterMap, List.map_filterMap]
  exact congrArg (List.filterMap · w.natives) (funext fun call => hcall call.2)

theorem toString_inj {a b : Sha256Hash} (h : toString a = toString b) : a = b := by
  have hread := congrArg decimalHash h
  rw [decimalHash_toString, decimalHash_toString] at hread
  exact Except.ok.inj hread

theorem notifications_about (news : List News) (txid : Sha256Hash) :
    ((news.map (notification dates)).filter fun p => p.txid = toString txid) =
      (news.filter fun n => n.1 = txid).map (notification dates) := by
  rw [List.filter_map]
  congr 2
  funext n
  have hsame : toString n.1 = toString txid ↔ n.1 = txid := ⟨toString_inj, congrArg toString⟩
  exact decide_eq_decide.mpr hsame

/-- A dictionary has the members of the transaction, the time apart. -/
theorem parsed_of_member {key : String} (hkey : key ≠ "time") {value : Json} :
    ∀ {members : List (String × Json)}, members.lookup key = some value →
      (modifiedTransactionForTransaction dates members).lookup key = some (.parsed value) := by
  intro members h
  rw [modifiedTransactionForTransaction, List.lookup_append]
  have hfound : ((members.filter fun entry => entry.1 ≠ "time").map
      fun entry => (entry.1, NSValue.parsed entry.2)).lookup key = some (.parsed value) := by
    induction members with
    | nil => cases h
    | cons entry members ih =>
      obtain ⟨k, v⟩ := entry
      rw [List.lookup_cons] at h
      by_cases hk : key = k
      · subst hk
        rw [beq_self_eq_true] at h
        obtain rfl := Option.some.inj h
        rw [List.filter_cons_of_pos (by simp [hkey]), List.map_cons, List.lookup_cons, beq_self_eq_true]
      · rw [beq_false_of_ne hk] at h
        by_cases htime : k = "time"
        · rw [List.filter_cons_of_neg (by simp [htime])]
          exact ih h
        · rw [List.filter_cons_of_pos (by simp [htime]), List.map_cons, List.lookup_cons,
            beq_false_of_ne hk]
          exact ih h
  rw [hfound]
  rfl

theorem confidence_of_dictionary {report : TransactionJSON} {type : ConfidenceType}
    (h : report.confidence = some (.str type.text)) :
    (dictionaryOf dates report).lookup "confidence" = some (.parsed (.str type.text)) := by
  have hmember : (membersOf report.toJson).lookup "confidence" = some (.str type.text) := by
    change List.lookup "confidence" (_ ++ _) = _
    rw [List.lookup_append, lookup_toJson h]
    rfl
  exact parsed_of_member (by decide) hmember

theorem showsNews_of_true {b : Relayed} {tx : Transaction} (h : NewsTrue b.java tx)
    (hpostings : b.cocoa.postings = b.java.news.map (notification dates))
    (hplain : ∀ news ∈ b.java.news, news.1 = tx.hash → Crosses news) : ShowsNews b tx := by
  intro p hp
  rw [hpostings, notifications_about, List.getLast?_map] at hp
  obtain ⟨news, hlast, rfl⟩ := Option.map_eq_some_iff.mp hp
  have hmem := List.mem_of_getLast? hlast
  obtain ⟨hnews, hid⟩ := List.mem_filter.mp hmem
  obtain ⟨txid, json⟩ := news
  obtain rfl : txid = tx.hash := of_decide_eq_true hid
  obtain ⟨report, rfl, hconfidence⟩ := h json (by
    rw [newsOf_eq, List.getLast?_map, hlast]
    rfl)
  refine ⟨dictionaryOf dates report, ?_, confidence_of_dictionary hconfidence⟩
  rw [notification, Option.bind_some, if_pos (hplain _ hnews rfl report rfl)]

/-- In every run from a fresh start in which the manager hears of every change of type of `tx` that comes
    after its first report, and whose reports of it cross: once both queues are empty, the last
    notification about `tx` shows its confidence type. -/
theorem news_shown (dates : Dates) (files : Files) (ups later : List Label) (events : List RelayedEvent)
    (tx : Transaction) (hlabels : labels events = ups ++ later) (hups : ∀ l ∈ ups, l.setsUp)
    (hevents : Meets step (fun w l => NewsEvent w l ∧ ReportsFine tx w l)
      (run step (World.initial files) ups) later)
    (hheard : Meets step (ChangesHeard tx) (run step (World.initial files) ups) later) :
    let b := run (relay dates) (.initial files) events
    (∀ news ∈ b.java.news, news.1 = tx.hash → Crosses news) →
      tx ∈ b.java.theTransactions → b.java.userThread = [] → b.cocoa.mainQueue = [] → ShowsNews b tx := by
  intro b hplain htx hidle hqueue
  have hjava : b.java = run step (run step (World.initial files) ups) later := by
    have hrun : b.java = run step (World.initial files) (labels events) := java_relay dates events _
    rw [hrun, hlabels, run_append]
  have hup : Untold (run step (World.initial files) ups) :=
    untold_run ups _ ⟨fun _ _ h => absurd h List.not_mem_nil, rfl, fun _ => rfl⟩ hups
  have hstart : Follows tx (run step (World.initial files) ups) := by
    refine ⟨⟨rfl, hup.numbered, fun call hcall => ?_, fun txid hnews => absurd (hup.told txid) hnews⟩,
      fun _ => informed_of_unreported (hup.told _)⟩
    rw [hup.queued] at hcall
    cases hcall
  have hend := inv_meets follows_step _ later hstart (meets_and _ later hevents hheard)
  rw [← hjava] at hend
  have htrue : NewsTrue b.java tx := by
    refine (hend.2 htx).resolve_left fun hawaits => ?_
    rw [World.awaits, hidle] at hawaits
    cases hawaits
  obtain ⟨-, seen, rest, hsplit, hpostings, hrest⟩ := news_delivered dates files events
  rw [hrest hqueue, List.append_nil] at hsplit
  exact showsNews_of_true htrue (hsplit ▸ hpostings) hplain

/-- A transaction arrives and leaves the pending state; the application's main queue runs all along. -/
def arrivingShown : List RelayedEvent :=
  walletCreated.map .java ++ (leavingPending .fair).map .java ++ List.replicate 8 (.cocoa .mainQueue rfl)

theorem news_shown_arriving :
    let b := run (relay ⟨fun _ => none, 0⟩) (.initial .none) arrivingShown
    b.cocoa.postings.map Posting.txid = ["10", "10"] ∧ ShowsNews b arriving := by
  intro b
  have hend : b.cocoa.postings.map Posting.txid = ["10", "10"] ∧ b.cocoa.mainQueue = [] ∧
      (∀ news ∈ b.java.news, news.1 = arriving.hash → Crosses news) ∧
      arriving ∈ b.java.theTransactions ∧ b.java.userThread = [] := by decide +kernel
  obtain ⟨hposted, hqueue, hcrosses, harriving, hidle⟩ := hend
  exact ⟨hposted, news_shown ⟨fun _ => none, 0⟩ .none walletCreated (leavingPending .fair) arrivingShown
    arriving rfl (by decide) (leavingPending_events [] trivial) (leavingPending_heard .fair rfl) hcrosses
    harriving hidle hqueue⟩

end BitcoinKit

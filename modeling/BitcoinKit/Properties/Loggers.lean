import BitcoinKit.Java.Loggers

/-! Loggers go by name. What is logged is worked out from the calls alone, without objects or a map:

        a statement under a name is logged   iff   the level set last for the name, through whichever
                                                   logger of that name, is not above it
        no level set, or unset again               the same with the last global level -/

namespace BitcoinKit
open Schemes

variable {α : Type} {formatter : MessageFormatter α} {s : Loggers} {names : Nat → Option String}
  {name : Option String} {logger r : Nat} {history : List (LoggerEvent α)}

/-! ### By the calls alone -/

def Severity.level : Severity → Int32
  | .trace => HILoggerLevelDebug
  | .debug => HILoggerLevelDebug
  | .info => HILoggerLevelInfo
  | .warn => HILoggerLevelWarn
  | .error => HILoggerLevelError

def LoggerEvent.setsGlobal : LoggerEvent α → Option Int32
  | .setGlobalLevel newLevel => some newLevel
  | _ => none

def LoggerEvent.setsLevel (names : Nat → Option String) (name : Option String) :
    LoggerEvent α → Option Int32
  | .setLevel logger newLevel => if names logger = name then some newLevel else none
  | _ => none

/-- The level set last for a name. -/
def ownLevel (names : Nat → Option String) (name : Option String) (history : List (LoggerEvent α)) : Int32 :=
  (history.filterMap (LoggerEvent.setsLevel names name)).getLastD HILoggerLevelNotSet

def lastGlobalLevel (history : List (LoggerEvent α)) : Int32 :=
  (history.filterMap LoggerEvent.setsGlobal).getLastD HILoggerLevelDebug

def levelAfter (names : Nat → Option String) (name : Option String) (history : List (LoggerEvent α)) :
    Int32 :=
  if ownLevel names name history = HILoggerLevelNotSet then lastGlobalLevel history
  else ownLevel names name history

/-- What a call logs, after these. -/
def logsNow (formatter : MessageFormatter α) (names : Nat → Option String)
    (history : List (LoggerEvent α)) : LoggerEvent α → List LogCall
  | .statement severity logger steArray arguments =>
    if levelAfter names (names logger) history ≤ severity.level then
      log steArray SELF severity.level (arguments.formatted formatter).message
        (arguments.formatted formatter).throwable
    else []
  | _ => []

def logsOf (formatter : MessageFormatter α) (names : Nat → Option String) :
    List (LoggerEvent α) → List (LoggerEvent α) → List LogCall
  | _, [] => []
  | history, event :: events =>
    logsNow formatter names history event ++ logsOf formatter names (history ++ [event]) events

/-- Loggers are used only by those who got them. -/
def Obtained (s : Loggers) : LoggerEvent α → Prop
  | .setLevel logger _ => logger < s.loggers.next
  | .statement _ logger _ _ => logger < s.loggers.next
  | _ => True

instance (s : Loggers) (event : LoggerEvent α) : Decidable (Obtained s event) := by
  cases event <;> unfold Obtained <;> infer_instance

/-! ### One logger for a name -/

def Loggers.nameOf (s : Loggers) (logger : Nat) : Option String := (s.loggers.cell logger).name

structure Registered (s : Loggers) : Prop where
  mapped : ∀ name logger, s.loggerMap name = some logger →
    logger < s.loggers.next ∧ s.nameOf logger = name
  single : ∀ logger < s.loggers.next, s.loggerMap (s.nameOf logger) = some logger

theorem registered_initial : Registered .initial where
  mapped _ _ h := by cases h
  single _ h := absurd h (Nat.not_lt_zero _)

/-- All a log statement changes is what was logged. -/
theorem useLogger_statement (severity : Severity) (logger : Nat) (steArray : List StackTraceElement)
    (arguments : LogArguments α) :
    useLogger formatter s (.statement severity logger steArray arguments) = { s with
      calls := s.calls ++ if s.getLevel logger ≤ severity.level then
        log steArray SELF severity.level (arguments.formatted formatter).message
          (arguments.formatted formatter).throwable
      else [] } := by
  have hstatement (level : Int32) :
      s.statement formatter steArray arguments (decide (s.getLevel logger ≤ level)) level = { s with
        calls := s.calls ++ if s.getLevel logger ≤ level then
          log steArray SELF level (arguments.formatted formatter).message
            (arguments.formatted formatter).throwable
        else [] } := by
    by_cases h : s.getLevel logger ≤ level
    · simp [Loggers.statement, h]
    · simp [Loggers.statement, h]
  cases severity <;> exact hstatement _

theorem getLogger_known (h : s.loggerMap name = some logger) : s.getLogger name = (logger, s) := by
  rw [Loggers.getLogger, h]

/-- A name's first logger. -/
def Loggers.adding (s : Loggers) (name : Option String) : Loggers := { s with
  loggers := s.loggers.alloc ⟨name, HILoggerLevelNotSet⟩
  loggerMap := Function.update s.loggerMap name (some s.loggers.next) }

theorem getLogger_unknown (h : s.loggerMap name = none) : (s.getLogger name).2 = s.adding name := by
  rw [Loggers.getLogger, h]
  rfl

theorem map_adding_self : (s.adding name).loggerMap name = some s.loggers.next := Function.update_self ..

theorem map_adding_ne {other : Option String} (h : other ≠ name) :
    (s.adding name).loggerMap other = s.loggerMap other := Function.update_of_ne h ..

theorem cell_adding_lt (hr : r < s.loggers.next) : (s.adding name).loggers.cell r = s.loggers.cell r :=
  Heap.cell_alloc_ne (Nat.ne_of_lt hr)

theorem cell_adding_self :
    (s.adding name).loggers.cell s.loggers.next = ⟨name, HILoggerLevelNotSet⟩ := Heap.cell_alloc_self

theorem nameOf_adding_lt (hr : r < s.loggers.next) : (s.adding name).nameOf r = s.nameOf r :=
  congrArg CocoaLogger.name (cell_adding_lt hr)

theorem nameOf_adding_self : (s.adding name).nameOf s.loggers.next = name :=
  congrArg CocoaLogger.name cell_adding_self

@[simp] theorem nameOf_setLevel (newLevel : Int32) : (s.setLevel logger newLevel).nameOf r = s.nameOf r := by
  by_cases hr : r = logger
  · subst hr
    simp [Loggers.nameOf, Loggers.setLevel]
  · simp [Loggers.nameOf, Loggers.setLevel, Heap.cell_write_ne hr]

/-- Loggers keep their names. -/
theorem names_useLogger (formatter : MessageFormatter α) (event : LoggerEvent α) (hr : r < s.loggers.next) :
    r < (useLogger formatter s event).loggers.next ∧ (useLogger formatter s event).nameOf r = s.nameOf r := by
  cases event with
  | getLogger name =>
    change r < (s.getLogger name).2.loggers.next ∧ (s.getLogger name).2.nameOf r = s.nameOf r
    cases hn : s.loggerMap name with
    | some logger =>
      rw [getLogger_known hn]
      exact ⟨hr, rfl⟩
    | none =>
      rw [getLogger_unknown hn]
      exact ⟨Nat.lt_succ_of_lt hr, nameOf_adding_lt hr⟩
  | setLevel logger newLevel => exact ⟨hr, nameOf_setLevel newLevel⟩
  | setGlobalLevel newLevel => exact ⟨hr, rfl⟩
  | statement severity logger steArray arguments =>
    rw [useLogger_statement]
    exact ⟨hr, rfl⟩

theorem registered_adding (h : Registered s) (hn : s.loggerMap name = none) : Registered (s.adding name) where
  mapped other logger hl := by
    by_cases hname : other = name
    · subst hname
      obtain rfl : s.loggers.next = logger := Option.some.inj (map_adding_self.symm.trans hl)
      exact ⟨Nat.lt_succ_self _, nameOf_adding_self⟩
    · rw [map_adding_ne hname] at hl
      obtain ⟨hlt, hnamed⟩ := h.mapped other logger hl
      exact ⟨Nat.lt_succ_of_lt hlt, (nameOf_adding_lt hlt).trans hnamed⟩
  single logger hl := by
    rcases Nat.lt_succ_iff_lt_or_eq.mp hl with hlt | rfl
    · have hold := h.single logger hlt
      rw [nameOf_adding_lt hlt, map_adding_ne, hold]
      rintro rfl
      rw [hn] at hold
      cases hold
    · rw [nameOf_adding_self, map_adding_self]

theorem registered_useLogger (event : LoggerEvent α) (h : Registered s) :
    Registered (useLogger formatter s event) := by
  cases event with
  | getLogger name =>
    change Registered (s.getLogger name).2
    cases hn : s.loggerMap name with
    | some logger =>
      rw [getLogger_known hn]
      exact h
    | none =>
      rw [getLogger_unknown hn]
      exact registered_adding h hn
  | setLevel logger newLevel =>
    refine ⟨fun name r hr => ?_, fun r hr => ?_⟩
    · rw [useLogger, nameOf_setLevel]
      exact h.mapped name r hr
    · rw [useLogger, nameOf_setLevel]
      exact h.single r hr
  | setGlobalLevel newLevel => exact ⟨h.mapped, h.single⟩
  | statement severity logger steArray arguments =>
    rw [useLogger_statement]
    exact ⟨h.mapped, h.single⟩

/-! ### Levels -/

/-- The levels in the objects are those of the calls so far. -/
structure Tracked (names : Nat → Option String) (history : List (LoggerEvent α)) (s : Loggers) : Prop where
  global : s.globalLevel = lastGlobalLevel history
  own : ∀ r < s.loggers.next, (s.loggers.cell r).level = ownLevel names (s.nameOf r) history
  unset : ∀ name, s.loggerMap name = none → ownLevel names name history = HILoggerLevelNotSet

theorem ownLevel_append (event : LoggerEvent α) : ownLevel names name (history ++ [event]) =
    (event.setsLevel names name).getD (ownLevel names name history) := by
  unfold ownLevel
  rw [List.filterMap_append]
  cases h : event.setsLevel names name with
  | none => simp [h]
  | some level =>
    rw [List.filterMap_cons_some h, List.filterMap_nil]
    exact List.getLastD_concat

theorem lastGlobalLevel_append (event : LoggerEvent α) :
    lastGlobalLevel (history ++ [event]) = event.setsGlobal.getD (lastGlobalLevel history) := by
  unfold lastGlobalLevel
  rw [List.filterMap_append]
  cases h : event.setsGlobal with
  | none => simp [h]
  | some level =>
    rw [List.filterMap_cons_some h, List.filterMap_nil]
    exact List.getLastD_concat

theorem getLevel_tracked (h : Tracked names history s) (hr : r < s.loggers.next)
    (hname : names r = s.nameOf r) :
    s.getLevel r = levelAfter names (names r) history := by
  unfold Loggers.getLevel levelAfter
  rw [h.own r hr, hname, Loggers.getGlobalLevel, h.global]

/-- Getting a logger sets no level; a logger that is new has none, as its name has. -/
theorem tracked_getLogger (name : Option String) (h : Tracked names history s) :
    Tracked names (history ++ [.getLogger name]) (s.getLogger name).2 := by
  have hsame : lastGlobalLevel (history ++ [.getLogger name]) = lastGlobalLevel history :=
    lastGlobalLevel_append _
  have hkept (n : Option String) : ownLevel names n (history ++ [.getLogger name]) =
      ownLevel names n history := ownLevel_append _
  cases hn : s.loggerMap name with
  | some logger =>
    rw [getLogger_known hn]
    exact ⟨h.global.trans hsame.symm, fun r hr => (h.own r hr).trans (hkept _).symm,
      fun n hnone => (hkept n).trans (h.unset n hnone)⟩
  | none =>
    rw [getLogger_unknown hn]
    refine ⟨h.global.trans hsame.symm, fun r hr => ?_, fun n hnone => ?_⟩
    · rw [hkept]
      rcases Nat.lt_succ_iff_lt_or_eq.mp hr with hlt | rfl
      · rw [cell_adding_lt hlt, nameOf_adding_lt hlt]
        exact h.own r hlt
      · rw [cell_adding_self, nameOf_adding_self]
        exact (h.unset name hn).symm
    · rw [hkept]
      have hne : n ≠ name := by
        rintro rfl
        rw [map_adding_self] at hnone
        cases hnone
      exact h.unset n ((map_adding_ne hne).symm.trans hnone)

/-- No other logger has the name of the one whose level is set. -/
theorem tracked_setLevel {logger : Nat} (newLevel : Int32) (hs : Registered s) (h : Tracked names history s)
    (hlogger : logger < s.loggers.next) (hname : names logger = s.nameOf logger) :
    Tracked names (history ++ [.setLevel logger newLevel]) (s.setLevel logger newLevel) := by
  have hown (n : Option String) : ownLevel names n (history ++ [.setLevel logger newLevel]) =
      if s.nameOf logger = n then newLevel else ownLevel names n history := by
    rw [ownLevel_append, LoggerEvent.setsLevel, hname]
    split <;> rfl
  have hsingle := hs.single logger hlogger
  refine ⟨h.global.trans (lastGlobalLevel_append (.setLevel logger newLevel)).symm, fun r hr => ?_,
    fun n hnone => ?_⟩
  · rw [hown, nameOf_setLevel]
    by_cases hr' : r = logger
    · subst hr'
      rw [if_pos rfl]
      simp [Loggers.setLevel]
    · have hne : s.nameOf logger ≠ s.nameOf r := by
        intro hsame
        rw [hsame, hs.single r hr] at hsingle
        exact hr' (Option.some.inj hsingle)
      rw [if_neg hne, Loggers.setLevel, Heap.cell_write_ne hr']
      exact h.own r hr
  · rw [hown, if_neg]
    · exact h.unset n hnone
    · rintro rfl
      have hnone' : s.loggerMap (s.nameOf logger) = none := hnone
      rw [hnone'] at hsingle
      cases hsingle

theorem tracked_useLogger (event : LoggerEvent α) (hs : Registered s) (h : Tracked names history s)
    (hok : Obtained s event) (hnames : ∀ r < s.loggers.next, names r = s.nameOf r) :
    Tracked names (history ++ [event]) (useLogger formatter s event) := by
  cases event with
  | getLogger name => exact tracked_getLogger name h
  | setLevel logger newLevel => exact tracked_setLevel newLevel hs h hok (hnames logger hok)
  | setGlobalLevel newLevel =>
    refine ⟨?_, fun r hr => ?_, fun name hn => ?_⟩
    · rw [lastGlobalLevel_append]
      rfl
    · rw [ownLevel_append]
      exact h.own r hr
    · rw [ownLevel_append]
      exact h.unset name hn
  | statement severity logger steArray arguments =>
    rw [useLogger_statement]
    refine ⟨?_, fun r hr => ?_, fun name hn => ?_⟩
    · rw [lastGlobalLevel_append]
      exact h.global
    · rw [ownLevel_append]
      exact h.own r hr
    · rw [ownLevel_append]
      exact h.unset name hn

/-! ### Runs -/

theorem names_run (formatter : MessageFormatter α) (events : List (LoggerEvent α)) (hr : r < s.loggers.next) :
    r < (run (useLogger formatter) s events).loggers.next ∧
      (run (useLogger formatter) s events).nameOf r = s.nameOf r := by
  induction events generalizing s with
  | nil => exact ⟨hr, rfl⟩
  | cons event events ih =>
    obtain ⟨hlt, hname⟩ := names_useLogger formatter event hr
    obtain ⟨hlt', hname'⟩ := ih hlt
    exact ⟨hlt', hname'.trans hname⟩

/-- What a step logs is what the calls so far say. -/
theorem calls_useLogger (event : LoggerEvent α) (h : Tracked names history s) (hok : Obtained s event)
    (hnames : ∀ r < s.loggers.next, names r = s.nameOf r) :
    (useLogger formatter s event).calls = s.calls ++ logsNow formatter names history event := by
  cases event with
  | getLogger name =>
    change (s.getLogger name).2.calls = s.calls ++ []
    rw [List.append_nil]
    cases hn : s.loggerMap name with
    | some logger => rw [getLogger_known hn]
    | none =>
      rw [getLogger_unknown hn]
      rfl
  | setLevel logger newLevel => exact (List.append_nil _).symm
  | setGlobalLevel newLevel => exact (List.append_nil _).symm
  | statement severity logger steArray arguments =>
    have hlogger : logger < s.loggers.next := hok
    rw [useLogger_statement, getLevel_tracked h hlogger (hnames logger hlogger)]
    rfl

theorem calls_run (events : List (LoggerEvent α)) (hs : Registered s) (h : Tracked names history s)
    (hok : Meets (useLogger formatter) Obtained s events)
    (hnames : ∀ r < (run (useLogger formatter) s events).loggers.next,
      names r = (run (useLogger formatter) s events).nameOf r) :
    (run (useLogger formatter) s events).calls = s.calls ++ logsOf formatter names history events := by
  induction events generalizing s history with
  | nil => exact (List.append_nil _).symm
  | cons event events ih =>
    obtain ⟨hevent, hevents⟩ := hok
    have hnow : ∀ r < s.loggers.next, names r = s.nameOf r := by
      intro r hr
      obtain ⟨hlt, hname⟩ := names_run formatter (event :: events) hr
      exact (hnames r hlt).trans hname
    rw [run_cons, ih (registered_useLogger event hs) (tracked_useLogger event hs h hevent hnow) hevents hnames,
      calls_useLogger event h hevent hnow, logsOf, List.append_assoc]

/-- Over every run in which loggers are used only by those who got them: there is one logger for a name,
    and what is logged is what the calls alone say, by names. -/
theorem loggers_by_name (formatter : MessageFormatter α) (events : List (LoggerEvent α))
    (hok : Meets (useLogger formatter) Obtained .initial events) :
    let s := run (useLogger formatter) .initial events
    (∀ logger < s.loggers.next, ∀ logger' < s.loggers.next,
        s.nameOf logger = s.nameOf logger' → logger = logger') ∧
      s.calls = logsOf formatter s.nameOf [] events := by
  intro s
  have hs : Registered s := inv_run (fun _ event h => registered_useLogger event h) .initial events
    registered_initial
  refine ⟨fun logger hl logger' hl' hname => ?_, ?_⟩
  · have hsingle := hs.single logger hl
    rw [hname, hs.single logger' hl'] at hsingle
    exact (Option.some.inj hsingle).symm
  · have hinitial : Tracked s.nameOf ([] : List (LoggerEvent α)) .initial :=
      ⟨rfl, fun r hr => absurd hr (Nat.not_lt_zero r), fun _ _ => rfl⟩
    exact calls_run events registered_initial hinitial hok fun _ _ => rfl

/-- The process as it comes up, and two statements that debug. The manager's class gets its logger and
    sets its level; then the application sets the global one. -/
def upAndRunning : List (LoggerEvent Unit) :=
  [.getLogger (some "com.hivewallet.bitcoinkit.BitcoinManager"), .setLevel 0 HILoggerLevelDebug,
    .setGlobalLevel HILoggerLevelInfo, .getLogger (some "com.google.bitcoin.core.Wallet"),
    .statement .debug 0 [] (.message (some "Starting blockchain sync")),
    .statement .debug 1 [] (.message (some "Saving wallet"))]

/-- Formatting that keeps the format. -/
def plainFormatter : MessageFormatter Unit :=
  ⟨fun format _ => ⟨format, none⟩, fun format _ _ => ⟨format, none⟩, fun format _ => ⟨format, none⟩⟩

theorem loggers_by_name_up :
    let s := run (useLogger plainFormatter) .initial upAndRunning
    s.calls = logsOf plainFormatter s.nameOf [] upAndRunning ∧
      s.calls.map LogCall.msg = ["Starting blockchain sync"] :=
  ⟨(loggers_by_name plainFormatter upAndRunning (by decide +kernel)).2, by decide +kernel⟩

end BitcoinKit

import BitcoinKit.Java.CocoaLogger
import BitcoinKit.Schemes.Heap
import BitcoinKit.Schemes.Run

/-! The loggers of the Java side, one for each name. They are made by the one factory of the process when
    a name is first asked for, and never let go:

        getLogger(name) ──▶ loggerMap ──▶ CocoaLogger ── level, if set; else the global level
                                              └── info, warn, … ──▶ log, if the level lets it

    Formatting is slf4j's, and a parameter. -/

namespace BitcoinKit
open Schemes

def HILoggerLevelNotSet : Int32 := -1
def HILoggerLevelDebug : Int32 := 1
def HILoggerLevelInfo : Int32 := 2
def HILoggerLevelWarn : Int32 := 3
def HILoggerLevelError : Int32 := 4

structure CocoaLogger where
  name : Option String
  level : Int32

/-- The static field of the class, the loggers, the factory's map, and what was logged. -/
structure Loggers where
  globalLevel : Int32
  loggers : Heap CocoaLogger
  loggerMap : Option String → Option Nat
  calls : List LogCall

structure FormattingTuple where
  message : Option String
  throwable : Option Throwable

/-- `MessageFormatter`, for arguments of any kind. -/
structure MessageFormatter (α : Type) where
  format : Option String → α → FormattingTuple
  formatTwo : Option String → α → α → FormattingTuple
  arrayFormat : Option String → List α → FormattingTuple

/-- What a log statement is called with. -/
inductive LogArguments (α : Type) where
  | message (msg : Option String)
  | one (format : Option String) (arg : α)
  | two (format : Option String) (arg1 arg2 : α)
  | array (format : Option String) (argArray : List α)
  | withThrowable (msg : Option String) (t : Option Throwable)

variable {α : Type}

/-- What is passed on to `log`. -/
def LogArguments.formatted (formatter : MessageFormatter α) : LogArguments α → FormattingTuple
  | .message msg => ⟨msg, none⟩
  | .one format arg => formatter.format format arg
  | .two format arg1 arg2 => formatter.formatTwo format arg1 arg2
  | .array format argArray => formatter.arrayFormat format argArray
  | .withThrowable msg t => ⟨msg, t⟩

namespace Loggers

def initial : Loggers where
  globalLevel := HILoggerLevelDebug
  loggers := ⟨0, fun _ => ⟨none, HILoggerLevelNotSet⟩⟩
  loggerMap _ := none
  calls := []

/-- `CocoaLoggerFactory.getLogger`. -/
def getLogger (s : Loggers) (name : Option String) : Nat × Loggers :=
  match s.loggerMap name with
  | some logger => (logger, s)
  | none => (s.loggers.next, { s with
      loggers := s.loggers.alloc ⟨name, HILoggerLevelNotSet⟩
      loggerMap := Function.update s.loggerMap name (some s.loggers.next) })

def getGlobalLevel (s : Loggers) : Int32 := s.globalLevel

def setGlobalLevel (s : Loggers) (newLevel : Int32) : Loggers := { s with globalLevel := newLevel }

def getLevel (s : Loggers) (logger : Nat) : Int32 :=
  let level := (s.loggers.cell logger).level
  if level = HILoggerLevelNotSet then s.getGlobalLevel else level

def setLevel (s : Loggers) (logger : Nat) (newLevel : Int32) : Loggers :=
  { s with loggers := s.loggers.write logger { s.loggers.cell logger with level := newLevel } }

def isTraceEnabled (s : Loggers) (logger : Nat) : Bool := s.getLevel logger ≤ HILoggerLevelDebug
def isDebugEnabled (s : Loggers) (logger : Nat) : Bool := s.getLevel logger ≤ HILoggerLevelDebug
def isInfoEnabled (s : Loggers) (logger : Nat) : Bool := s.getLevel logger ≤ HILoggerLevelInfo
def isWarnEnabled (s : Loggers) (logger : Nat) : Bool := s.getLevel logger ≤ HILoggerLevelWarn
def isErrorEnabled (s : Loggers) (logger : Nat) : Bool := s.getLevel logger ≤ HILoggerLevelError

variable (formatter : MessageFormatter α) (s : Loggers) (logger : Nat) (steArray : List StackTraceElement)
  (arguments : LogArguments α)

/-- A log statement with this stack. -/
def statement (enabled : Bool) (level : Int32) : Loggers :=
  if enabled then
    let ft := arguments.formatted formatter
    { s with calls := s.calls ++ log steArray SELF level ft.message ft.throwable }
  else s

/-- There is no level for traces: they count as debugging. -/
def trace : Loggers := s.statement formatter steArray arguments (s.isTraceEnabled logger) HILoggerLevelDebug
def debug : Loggers := s.statement formatter steArray arguments (s.isDebugEnabled logger) HILoggerLevelDebug
def info : Loggers := s.statement formatter steArray arguments (s.isInfoEnabled logger) HILoggerLevelInfo
def warn : Loggers := s.statement formatter steArray arguments (s.isWarnEnabled logger) HILoggerLevelWarn
def error : Loggers := s.statement formatter steArray arguments (s.isErrorEnabled logger) HILoggerLevelError

end Loggers

inductive Severity where
  | trace | debug | info | warn | error
  deriving DecidableEq, Repr

inductive LoggerEvent (α : Type) where
  | getLogger (name : Option String)
  | setLevel (logger : Nat) (newLevel : Int32)
  | setGlobalLevel (newLevel : Int32)
  | statement (severity : Severity) (logger : Nat) (steArray : List StackTraceElement)
      (arguments : LogArguments α)

/-- Threads take turns: the map is locked, and the rest are single reads and writes. -/
def useLogger (formatter : MessageFormatter α) (s : Loggers) : LoggerEvent α → Loggers
  | .getLogger name => (s.getLogger name).2
  | .setLevel logger newLevel => s.setLevel logger newLevel
  | .setGlobalLevel newLevel => s.setGlobalLevel newLevel
  | .statement .trace logger steArray arguments => s.trace formatter logger steArray arguments
  | .statement .debug logger steArray arguments => s.debug formatter logger steArray arguments
  | .statement .info logger steArray arguments => s.info formatter logger steArray arguments
  | .statement .warn logger steArray arguments => s.warn formatter logger steArray arguments
  | .statement .error logger steArray arguments => s.error formatter logger steArray arguments

end BitcoinKit

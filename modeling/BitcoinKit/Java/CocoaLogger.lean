import BitcoinKit.Java.Throwable

/-! The logger behind every log statement of the Java side, and the C function it writes to. A line is
    logged under the name of its caller, found on the stack:

        getCallerData, log, info, …   caller   its caller …
        └── logger frames ──┘         └─ the frame that is looked for -/

namespace BitcoinKit

/-- A frame of a stack trace. Its file name is missing when the class was compiled without one. -/
structure StackTraceElement where
  className : String
  methodName : String
  fileName : Option String
  lineNumber : Int32
  deriving DecidableEq, Repr

/-- The names of `CocoaLogger` and of its superclass. -/
def SELF := "org.slf4j.impl.CocoaLogger"
def SUPER := "org.slf4j.helpers.MarkerIgnoringBase"

/-- A frame of the logger itself. -/
def isLoggerFrame (callerFQCN : String) (frame : StackTraceElement) : Bool :=
  frame.className = callerFQCN || frame.className = SUPER

/-- The loop that leaves off at the first index whose element passes the test: the elements from index
    `i` on, and `i`. -1 if there is none. -/
def indexFrom {α : Type} (test : α → Bool) : List α → Int → Int
  | [], _ => -1
  | a :: rest, i => if test a then i else indexFrom test rest (i + 1)

def getCallerData (callerFQCN : String) (steArray : List StackTraceElement) :
    Option StackTraceElement :=
  let selfIndex := indexFrom (isLoggerFrame callerFQCN) steArray 0
  let found := indexFrom (fun frame => !isLoggerFrame callerFQCN frame)
    (steArray.drop (selfIndex + 1).toNat) (selfIndex + 1)
  if found ≠ -1 then steArray[found.toNat]? else none

def isLineTerminator (c : Char) : Bool :=
  c = '\n' || c = '\r' || c = '\u0085' || c = '\u2028' || c = '\u2029'

/-- `className.replaceAll(".*\\.", "")`: in every line, what comes after its last dot. -/
def unqualified (className : String) : String :=
  .ofList (className.toList.foldr (fun c (kept, dotted) =>
    if isLineTerminator c then (c :: kept, false)
    else if dotted || c = '.' then (kept, true)
    else (c :: kept, false)) ([], false)).1

/-- A call of `receiveLogFromJVM`, with its arguments. -/
structure LogCall where
  fileName : Option String
  methodName : Option String
  lineNumber : Int32
  level : Int32
  msg : String
  deriving DecidableEq, Repr

/-- The names and the line a message is logged under. -/
def callerNames (callerData : Option StackTraceElement) :
    Option String × Option String × Int32 :=
  match callerData with
  | some frame =>
    (frame.fileName, some ("[" ++ unqualified frame.className ++ " " ++ frame.methodName ++ "]"),
      frame.lineNumber)
  | none => (none, none, 0)

/-- `log`, by the calls it makes on a stack trace. A throwable whose `toString()` throws is not
    logged. -/
def log (steArray : List StackTraceElement) (callerFQCN : String) (level : Int32)
    (msg : Option String) (t : Option Throwable) : List LogCall :=
  let (fileName, methodName, lineNumber) := callerNames (getCallerData callerFQCN steArray)
  let receive (text : String) : LogCall := ⟨fileName, methodName, lineNumber, level, text⟩
  let description := t.bind Throwable.description
  msg.toList.map receive ++
    (description.map fun text => "Exception logged: " ++ text).toList.map receive

/-! ### The C function -/

/-- The process is gone: a `null` string was asked for its characters. -/
inductive Crash where | nullString
  deriving DecidableEq, Repr

/-- `GetStringUTFChars`. -/
def getStringUTFChars : Option String → Except Crash String
  | some text => .ok text
  | none => .error .nullString

/-- The C function, by the line it hands to `HILoggerLog`. -/
def receiveLogFromJVM (call : LogCall) : Except Crash (String × String × Int32 × Int32 × String) := do
  let fileNameString ← getStringUTFChars call.fileName
  let methodNameString ← getStringUTFChars call.methodName
  pure (fileNameString, methodNameString, call.lineNumber, call.level, call.msg)

end BitcoinKit

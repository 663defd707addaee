import BitcoinKit.Java.CocoaLogger

/-! The logger finds the frame that called it on every stack, but does not find a name for it on every
    stack: a frame may lack its file name, and there may be no such frame. The C function takes
    names for granted. -/

namespace BitcoinKit

variable {α : Type}

/-- The loop finds what `find?` finds, at an index that is not negative. -/
theorem indexFrom_spec (test : α → Bool) : ∀ (before rest : List α),
    match rest.find? test with
    | none => indexFrom test rest before.length = -1
    | some a => ∃ k : Nat, indexFrom test rest before.length = k ∧ (before ++ rest)[k]? = some a
  | _, [] => rfl
  | before, a :: rest => by
    have ih := indexFrom_spec test (before ++ [a]) rest
    rw [List.length_append, List.length_singleton, List.append_assoc, List.singleton_append] at ih
    cases ha : test a with
    | true =>
      rw [List.find?_cons_of_pos ha]
      exact ⟨before.length, if_pos ha, by simp⟩
    | false =>
      rw [List.find?_cons_of_neg (by simp [ha])]
      have hstep : indexFrom test (a :: rest) before.length =
          indexFrom test rest ((before.length + 1 : Nat) : Int) := by
        rw [indexFrom, if_neg (by simp [ha])]
        rfl
      rw [hstep]
      exact ih

/-- The element at the index the loop leaves off at. -/
theorem getElem?_indexFrom (test : α → Bool) (before rest : List α) :
    (if indexFrom test rest before.length ≠ -1 then
      (before ++ rest)[(indexFrom test rest before.length).toNat]? else none) = rest.find? test := by
  have h := indexFrom_spec test before rest
  cases hf : rest.find? test with
  | none =>
    rw [hf] at h
    rw [if_neg (not_not.mpr h)]
  | some a =>
    rw [hf] at h
    obtain ⟨k, hk, ha⟩ := h
    rw [hk, if_pos (by omega), Int.toNat_natCast, ha]

variable {callerFQCN : String} {trace before rest : List StackTraceElement}

/-- No logger frame: the search starts at the top. -/
theorem getCallerData_of_none (h : ∀ frame ∈ trace, isLoggerFrame callerFQCN frame = false) :
    getCallerData callerFQCN trace = trace.head? := by
  have hself : indexFrom (isLoggerFrame callerFQCN) trace 0 = -1 := by
    have hspec := indexFrom_spec (isLoggerFrame callerFQCN) [] trace
    rw [List.find?_eq_none.mpr (by simpa using h)] at hspec
    exact hspec
  unfold getCallerData
  rw [hself]
  refine (getElem?_indexFrom (fun frame => !isLoggerFrame callerFQCN frame) [] trace).trans ?_
  cases trace with
  | nil => rfl
  | cons frame rest => exact List.find?_cons_of_pos (by simp [h frame (List.mem_cons_self ..)])

/-- The loop passes what fails the test. -/
theorem indexFrom_append {test : α → Bool} {a : α} (ha : test a = true) (rest : List α) :
    ∀ (before : List α) (i : Int), (∀ b ∈ before, test b = false) →
      indexFrom test (before ++ a :: rest) i = i + before.length
  | [], i, _ => (if_pos ha).trans (by simp)
  | b :: before, i, h => by
    have ih := indexFrom_append ha rest before (i + 1) fun c hc => h c (List.mem_cons_of_mem b hc)
    rw [List.cons_append, indexFrom, if_neg (by simp [h b (List.mem_cons_self ..)]), ih,
      List.length_cons]
    omega

/-- Otherwise it starts below the first logger frame. -/
theorem getCallerData_of_logger {logger : StackTraceElement}
    (h : ∀ frame ∈ before, isLoggerFrame callerFQCN frame = false)
    (hlogger : isLoggerFrame callerFQCN logger = true) :
    getCallerData callerFQCN (before ++ logger :: rest) =
      rest.find? fun frame => !isLoggerFrame callerFQCN frame := by
  have hself : indexFrom (isLoggerFrame callerFQCN) (before ++ logger :: rest) 0 + 1 =
      ((before ++ [logger]).length : Int) := by
    rw [indexFrom_append hlogger rest before 0 h, List.length_append, List.length_singleton]
    omega
  have hsplit : before ++ logger :: rest = (before ++ [logger]) ++ rest := by simp
  unfold getCallerData
  dsimp only
  rw [hself, Int.toNat_natCast, hsplit, List.drop_left]
  exact getElem?_indexFrom (fun frame => !isLoggerFrame callerFQCN frame) (before ++ [logger]) rest

/-- The caller on a stack: the first frame below the first logger frame that is none itself, or the
    top frame of a stack without the logger. -/
def IsCaller (trace : List StackTraceElement) (frame : StackTraceElement) : Prop :=
  ((∀ f ∈ trace, isLoggerFrame SELF f = false) ∧ trace.head? = some frame) ∨
  ∃ before logger skipped callers, trace = before ++ logger :: (skipped ++ frame :: callers) ∧
    (∀ f ∈ before, isLoggerFrame SELF f = false) ∧ isLoggerFrame SELF logger = true ∧
    (∀ f ∈ skipped, isLoggerFrame SELF f = true) ∧ isLoggerFrame SELF frame = false

theorem getCallerData_iff (trace : List StackTraceElement) (frame : StackTraceElement) :
    getCallerData SELF trace = some frame ↔ IsCaller trace frame := by
  constructor
  · intro h
    cases hlogger : trace.find? (isLoggerFrame SELF) with
    | none =>
      have hnone : ∀ f ∈ trace, isLoggerFrame SELF f = false := by
        simpa using List.find?_eq_none.mp hlogger
      rw [getCallerData_of_none hnone] at h
      exact .inl ⟨hnone, h⟩
    | some logger =>
      obtain ⟨hl, before, rest, rfl, hbefore⟩ := List.find?_eq_some_iff_append.mp hlogger
      have hnone : ∀ f ∈ before, isLoggerFrame SELF f = false := by simpa using hbefore
      rw [getCallerData_of_logger hnone hl] at h
      obtain ⟨hframe, skipped, callers, rfl, hskipped⟩ := List.find?_eq_some_iff_append.mp h
      refine .inr ⟨before, logger, skipped, callers, rfl, hnone, hl, ?_, ?_⟩
      · simpa using hskipped
      · simpa using hframe
  · rintro (⟨hnone, htop⟩ | ⟨before, logger, skipped, callers, rfl, hnone, hl, hskipped, hframe⟩)
    · rw [getCallerData_of_none hnone, htop]
    · rw [getCallerData_of_logger hnone hl, List.find?_eq_some_iff_append]
      exact ⟨by simpa using hframe, skipped, callers, rfl, by simpa using hskipped⟩

/-- Every call of the C function made for a log statement has both names. -/
def NamesGiven (trace : List StackTraceElement) (level : Int32) (msg : Option String)
    (t : Option Throwable) : Prop :=
  ∀ call ∈ log trace SELF level msg t, call.fileName ≠ none ∧ call.methodName ≠ none

/-- With both names the C function returns, and only then. -/
theorem receiveLogFromJVM_returns (call : LogCall) :
    (∃ line, receiveLogFromJVM call = .ok line) ↔ call.fileName ≠ none ∧ call.methodName ≠ none := by
  obtain ⟨fileName, methodName, lineNumber, level, msg⟩ := call
  constructor
  · rintro ⟨line, hline⟩
    refine ⟨?_, ?_⟩
    · rintro rfl
      cases hline
    · rintro rfl
      cases fileName with
      | none => cases hline
      | some fileName => cases hline
  · rintro ⟨hfile, hmethod⟩
    obtain ⟨file, rfl⟩ := Option.ne_none_iff_exists'.mp hfile
    obtain ⟨method, rfl⟩ := Option.ne_none_iff_exists'.mp hmethod
    exact ⟨_, rfl⟩

theorem log_names {level : Int32} {msg : Option String} {t : Option Throwable} {call : LogCall}
    (h : call ∈ log trace SELF level msg t) :
    call.fileName = (callerNames (getCallerData SELF trace)).1 ∧
      call.methodName = (callerNames (getCallerData SELF trace)).2.1 := by
  unfold log at h
  simp only [List.mem_append, List.mem_map] at h
  rcases h with ⟨text, -, rfl⟩ | ⟨text, -, rfl⟩
  · exact ⟨rfl, rfl⟩
  · exact ⟨rfl, rfl⟩

theorem callerNames_given (callerData : Option StackTraceElement) :
    ((callerNames callerData).1 ≠ none ∧ (callerNames callerData).2.1 ≠ none) ↔
      ∃ frame, callerData = some frame ∧ frame.fileName ≠ none := by
  cases callerData with
  | none => simp [callerNames]
  | some frame => simp [callerNames]

theorem log_eq_nil (trace : List StackTraceElement) (level : Int32) (msg : Option String)
    (t : Option Throwable) :
    log trace SELF level msg t = [] ↔ msg = none ∧ t.bind Throwable.description = none := by
  unfold log
  simp

/-- The caller is found on every stack, and the C function gets both names exactly when nothing is
    logged or the caller names its file. -/
theorem logger_names_caller (trace : List StackTraceElement) (level : Int32) (msg : Option String)
    (t : Option Throwable) :
    ((∀ frame, getCallerData SELF trace = some frame ↔ IsCaller trace frame) ∧
        NamesGiven trace level msg t) ↔
      (msg = none ∧ t.bind Throwable.description = none) ∨
        ∃ frame, IsCaller trace frame ∧ frame.fileName ≠ none := by
  have hcaller : (∃ frame, getCallerData SELF trace = some frame ∧ frame.fileName ≠ none) ↔
      ∃ frame, IsCaller trace frame ∧ frame.fileName ≠ none := by
    simp only [getCallerData_iff]
  rw [← hcaller, ← callerNames_given, ← log_eq_nil trace level msg t]
  constructor
  · rintro ⟨-, hnames⟩
    cases hlog : log trace SELF level msg t with
    | nil => exact .inl rfl
    | cons call calls =>
      have hcall : call ∈ log trace SELF level msg t := hlog ▸ List.mem_cons_self ..
      obtain ⟨hfile, hmethod⟩ := log_names hcall
      exact .inr (hfile ▸ hmethod ▸ hnames call hcall)
  · intro h
    refine ⟨getCallerData_iff trace, fun call hcall => ?_⟩
    rcases h with hnil | hnamed
    · rw [hnil] at hcall
      cases hcall
    · obtain ⟨hfile, hmethod⟩ := log_names hcall
      rw [hfile, hmethod]
      exact hnamed

/-- A stack of a log statement in a class compiled without file names. -/
def namelessCaller : List StackTraceElement :=
  [⟨SELF, "getCallerData", some "CocoaLogger.java", 248⟩,
   ⟨SELF, "log", some "CocoaLogger.java", 233⟩,
   ⟨"com.google.bitcoin.core.Wallet", "commitTx", none, -1⟩]

/-- The crash of a message logged from there. -/
theorem namelessCaller_crashes :
    ¬ NamesGiven namelessCaller 2 (some "Saving wallet") none ∧
      (log namelessCaller SELF 2 (some "Saving wallet") none).map receiveLogFromJVM =
        [.error .nullString] := by
  unfold NamesGiven
  decide +kernel

end BitcoinKit

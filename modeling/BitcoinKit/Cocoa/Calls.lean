import BitcoinKit.Cocoa.Manager
import BitcoinKit.Java.Step

/-! How a call of a Java method can end for the Cocoa method that makes it: it returns, its exception
    becomes an error, or the exception is raised again. -/

namespace BitcoinKit
open Schemes

variable {c : Cocoa} {α : Type}

/-- The bridge hands an exception over as an error: the caller passed a pointer, and the class is in
    the table. -/
def HandedOver (wantsError : Bool) (exception : Throwable) : Prop :=
  wantsError = true ∧ errorCodeForJavaException exception ≠ kHIBitcoinManagerUnexpectedError

instance (wantsError : Bool) (exception : Throwable) :
    Decidable (HandedOver wantsError exception) := inferInstanceAs (Decidable (_ ∧ _))

/-! ### Native methods -/

/-- Only what native methods write to changes. -/
def onlyAnswers : Along Cocoa where
  rel c d := d = { c with
    callbacks := d.callbacks, mainQueue := d.mainQueue, invocations := d.invocations
    handled := d.handled, uncaught := d.uncaught }
  refl _ := rfl
  trans h₁ h₂ := by rw [h₂, h₁]

/-- The manager with a callback taken out. -/
def Cocoa.retrieving (c : Cocoa) (callbackId : NSUInteger) : Cocoa :=
  { c with callbacks := Function.update c.callbacks callbackId none }

/-- The manager with a callback taken out and called, if it was there. -/
def Cocoa.answering (c : Cocoa) (callbackId : NSUInteger) (reply : Reply) : Cocoa :=
  match c.callbacks callbackId with
  | some callback => { c.retrieving callbackId with
      invocations := c.invocations ++ [⟨callbackId, callback, reply⟩] }
  | none => c.retrieving callbackId

theorem onlyAnswers_answering (callbackId : NSUInteger) (reply : Reply) :
    onlyAnswers.rel c (c.answering callbackId reply) := by
  unfold Cocoa.answering
  cases c.callbacks callbackId <;> rfl

theorem ends_callBack (callbackId : NSUInteger) (reply : Reply) :
    Ends (callBack callbackId reply) c fun _ d => d = c.answering callbackId reply := by
  unfold callBack retrieveCallback Cocoa.answering
  simp only [ends_bind, ends_get, ends_modify, ends_pure]
  cases c.callbacks callbackId with
  | none => rfl
  | some callback => rfl

/-- Details whose strings cross the bridge reach the callback. Over others the bridge raises, when the
    callback has been taken out already. -/
theorem ends_callBackWithDetails (details : JSONObject) (callbackId : NSUInteger)
    (reply : Option Json → Reply) : Ends (callBackWithDetails details.jString callbackId reply) c
      fun _ d => d = if ∀ s ∈ details.toJson.strings, IsBasic s
        then c.answering callbackId (reply (some details.toJson)) else c.retrieving callbackId := by
  unfold callBackWithDetails deliverDetails retrieveCallback Cocoa.answering
  simp only [ends_bind, ends_get, ends_modify, ends_pure]
  cases c.callbacks callbackId with
  | none => exact (ite_self _).symm
  | some callback =>
    dsimp only
    rw [nsString_jString]
    split
    · rw [objectFromJSONString, Json.parse_print]
      rfl
    · rfl

theorem onlyAnswers_callBack (callbackId : NSUInteger) (reply : Reply) :
    Moves onlyAnswers (callBack callbackId reply) := by
  intro c
  have h : Ends (callBack callbackId reply) c fun _ d => onlyAnswers.rel c d :=
    ends_mono (ends_callBack callbackId reply) fun _ _ hd => hd ▸ onlyAnswers_answering callbackId reply
  exact h

theorem onlyAnswers_callBackWithDetails (details : JSONObject) (callbackId : NSUInteger)
    (reply : Option Json → Reply) :
    Moves onlyAnswers (callBackWithDetails details.jString callbackId reply) := by
  intro c
  have h : Ends (callBackWithDetails details.jString callbackId reply) c
      fun _ d => onlyAnswers.rel c d := by
    refine ends_mono (ends_callBackWithDetails details callbackId reply) fun r d hd => ?_
    rw [hd]
    split
    · exact onlyAnswers_answering callbackId _
    · rfl
  exact h

theorem onlyAnswers_nativeMethod (call : NativeCall) : Moves onlyAnswers (nativeMethod call) := by
  cases call with
  | onTransactionChanged txid json => exact moves_pure _
  | onTransactionFailed => exact moves_modify fun _ => rfl
  | onTransactionSuccess txid => exact moves_modify fun _ => rfl
  | onBalanceChanged => exact moves_pure _
  | onException exception =>
    refine moves_bind ?_ fun _ => moves_pure _
    unfold handleJavaException
    refine moves_ite (moves_pure _) (moves_bind moves_get fun _ => moves_ite ?_ (moves_throw _))
    exact moves_bind (moves_modify fun _ => rfl) fun _ => moves_pure _
  | onPaymentRequestLoaded callbackId sessionId details => exact onlyAnswers_callBackWithDetails _ _ _
  | onPaymentRequestLoadFailed callbackId error => exact onlyAnswers_callBack _ _
  | onPaymentRequestProcessed callbackId txid details => exact onlyAnswers_callBackWithDetails _ _ _
  | onPaymentRequestProcessingFailed callbackId error => exact onlyAnswers_callBack _ _

theorem ends_receive (call : NativeCall) :
    Ends (receive call) c fun r d => r = .ok () ∧ onlyAnswers.rel c d := by
  unfold receive
  rw [ends_tryCatch]
  refine ends_mono (ends_of_moves (onlyAnswers_nativeMethod call)) fun r d hd => ?_
  cases r with
  | ok _ => exact ⟨rfl, hd⟩
  | error raised => exact ⟨rfl, onlyAnswers.trans hd rfl⟩

theorem ends_receiveAll (calls : List (Nat × NativeCall)) :
    Ends (receiveAll calls) c fun r d => r = .ok () ∧ onlyAnswers.rel c d := by
  induction calls generalizing c with
  | nil => exact ⟨rfl, rfl⟩
  | cons call calls ih =>
    unfold receiveAll
    rw [ends_bind]
    refine ends_mono (ends_receive call.2) fun r d ⟨hr, hd⟩ => ?_
    rw [hr]
    exact ends_mono ih fun r e ⟨hr, he⟩ => ⟨hr, onlyAnswers.trans hd he⟩

/-! ### Calls -/

/-- The run of a Java method that the manager's call of it is. -/
def Cocoa.runOf (c : Cocoa) (method : Java α) : EStateM.Result Throwable World α :=
  method { c.java with natives := [] }

/-- The manager with the virtual machine as a call of a Java method leaves it. -/
def Cocoa.called (c : Cocoa) (method : Java α) : Cocoa :=
  { c with java := after (c.runOf method), exceptionOccurred := thrown (outcome (c.runOf method)) }

/-- The manager when that call is over: the native methods have been called too. -/
def Cocoa.ran (c : Cocoa) (method : Java α) : Cocoa :=
  after (receiveAll (after (c.runOf method)).natives (c.called method))

theorem onlyAnswers_ran (method : Java α) : onlyAnswers.rel (c.called method) (c.ran method) :=
  (ends_receiveAll (c := c.called method) _).2

theorem ends_runJava (method : Java α) :
    Ends (runJava method) c fun r d => r = .ok (outcome (c.runOf method)) ∧ d = c.ran method := by
  unfold runJava
  simp only [ends_bind, ends_get, ends_modify]
  have h : Ends (receiveAll (after (c.runOf method)).natives) (c.called method) fun r d =>
      r = .ok () ∧ d = c.ran method := ⟨(ends_receiveAll (c := c.called method) _).1, rfl⟩
  refine ends_mono h ?_
  rintro r d ⟨hr, hd⟩
  rw [hr]
  exact ⟨rfl, hd⟩

/-- How the bridge passes on the way a method ended. -/
inductive PassedOn (wantsError : Bool) :
    Except Throwable α → Except NSException (Option α × Option NSError) → Prop
  | returned (a : α) : PassedOn wantsError (.ok a) (.ok (some a, none))
  | handedOver {e : Throwable} : HandedOver wantsError e →
      PassedOn wantsError (.error e) (.ok (none, some (errorForJavaException e)))
  | raised {e : Throwable} (x : NSException) : ¬ HandedOver wantsError e →
      PassedOn wantsError (.error e) (.error x)

theorem ends_handleJavaExceptions (wantsError : Bool) (ended : Except Throwable α) :
    Ends (handleJavaExceptions wantsError ended) c
      fun r d => PassedOn wantsError ended r ∧ d = c := by
  cases ended with
  | ok a => exact ⟨.returned a, rfl⟩
  | error e =>
    unfold handleJavaExceptions handleJavaException
    simp only [ends_bind, ends_get, ends_ite, ends_pure, ends_throw]
    split
    · next h => exact ⟨.handedOver h, trivial⟩
    · next h =>
      rw [if_neg (by simp)]
      exact ⟨.raised _ h, trivial⟩

theorem ends_callObjectMethod (wantsError : Bool) (method : Java α) :
    Ends (callObjectMethod wantsError method) c fun r d =>
      PassedOn wantsError (outcome (c.runOf method)) r ∧ d = c.ran method := by
  unfold callObjectMethod
  rw [ends_bind]
  refine ends_mono (ends_runJava method) fun r d ⟨hr, hd⟩ => ?_
  rw [hr]
  refine ends_mono (ends_handleJavaExceptions wantsError _) fun r e ⟨hp, he⟩ => ?_
  rw [he]
  exact ⟨hp, hd⟩

/-- How a call of a `void` method ends. -/
inductive Called (wantsError : Bool) (ended : Except Throwable Unit) :
    Except NSException (Option NSError) → Prop
  | returned : ended = .ok () → Called wantsError ended (.ok none)
  | handedOver {e : Throwable} : ended = .error e → HandedOver wantsError e →
      Called wantsError ended (.ok (some (errorForJavaException e)))
  | raised {e : Throwable} (x : NSException) : ended = .error e → ¬ HandedOver wantsError e →
      Called wantsError ended (.error x)

theorem ends_callVoidMethod (wantsError : Bool) (method : Java Unit) :
    Ends (callVoidMethod wantsError method) c fun r d =>
      Called wantsError (outcome (c.runOf method)) r ∧ d = c.ran method := by
  unfold callVoidMethod
  rw [ends_bind]
  refine ends_mono (ends_callObjectMethod wantsError method) fun r d ⟨hp, hd⟩ => ?_
  generalize outcome (c.runOf method) = ended at hp ⊢
  cases hp with
  | returned a => exact ⟨.returned rfl, hd⟩
  | handedOver h => exact ⟨.handedOver rfl h, hd⟩
  | raised x h => exact ⟨.raised x rfl h, hd⟩

theorem happen_java (label : Label) (hl : label.hasMethod = false) :
    happen c (.java label hl) = c.ran label.code := by
  have hend : Ends (Event.code (.java label hl)) c fun _ d => d = c.ran label.code := by
    unfold Event.code
    rw [ends_bind]
    refine ends_mono (ends_runJava label.code) fun r d ⟨hr, hd⟩ => ?_
    rw [hr]
    exact hd
  exact hend

theorem java_ran {α : Type} (method : Java α) : (c.ran method).java = after (c.runOf method) := by
  rw [onlyAnswers_ran method]
  rfl

/-- Of what no method asks Java for, only a completion writes to the ledger. -/
theorem ledger_unasked {w : World} {l : Label} (hl : l.hasMethod = false)
    (hc : ∀ lib index failure, l ≠ .complete lib index failure) : (step w l).ledger = w.ledger := by
  have hturn := turn_step w l
  generalize (step w l).ledger = L at hturn ⊢
  cases hturn with
  | idle => rfl
  | sends hs => cases hl
  | opens lib url callbackId => cases hl
  | loads hs => cases hl
  | pays hs => cases hl
  | throws hs => cases hl
  | completes hf hs => exact absurd rfl (hc _ _ _)

/-! ### Password arrays -/

/-- The manager after an array was made for a password, if there is one. -/
def Cocoa.withArrayFor (c : Cocoa) (password : Option NSData) : Cocoa :=
  { c with java := after (newCharArray password c.java) }

/-- The array made for a password. -/
def Cocoa.arrayFor (c : Cocoa) (password : Option NSData) : Option CharArrayRef :=
  password.map fun _ => c.java.secrets.charArrays.next

theorem ends_jCharArray {password : Option NSData}
    {Q : Except NSException (Option CharArrayRef) → Cocoa → Prop} :
    Ends (jCharArrayFromNSData password) c Q ↔ Q (.ok (c.arrayFor password)) (c.withArrayFor password) := by
  cases password with
  | none => rfl
  | some chars => rfl

/-- Zeroing an array changes secrets only. -/
theorem ends_zeroCharArray (array : Option CharArrayRef) (size : Nat) :
    Ends (zeroCharArray array size) c fun r d =>
      r = .ok () ∧ ∃ s, d = { c with java := { c.java with secrets := s } } := by
  cases array with
  | none => exact ⟨rfl, c.java.secrets, rfl⟩
  | some array => exact ⟨rfl, _, rfl⟩

/-- The manager with a callback stored. -/
def Cocoa.storing (c : Cocoa) (callback : Block) : Cocoa :=
  { c with
    callbackId := c.callbackId + 1
    callbacks := Function.update c.callbacks (c.callbackId + 1) (some callback) }

/-! ### Sends -/

/-- A relation that sends and completion blocks cannot leave, the Java method apart. -/
structure IgnoresSends (R : Along Cocoa) : Prop where
  completions : ∀ c cs, R.rel c { c with completions := cs }
  sending : ∀ c s b, R.rel c { c with sending := s, sendCompletionBlock := b }
  queue : ∀ c q, R.rel c { c with mainQueue := q }
  secrets : ∀ c s, R.rel c { c with java := { c.java with secrets := s } }

section Sends

variable {R : Along Cocoa}

theorem moves_callVoidMethod {method : Java Unit} {wantsError : Bool}
    (h : ∀ c, R.rel c (c.ran method)) : Moves R (callVoidMethod wantsError method) := by
  intro c
  have hend := ends_callVoidMethod (c := c) wantsError method
  have hd : after (callVoidMethod wantsError method c) = c.ran method := hend.2
  rw [hd]
  exact h c

theorem moves_jCharArray (hs : ∀ c s, R.rel c { c with java := { c.java with secrets := s } })
    (password : Option NSData) : Moves R (jCharArrayFromNSData password) := by
  cases password with
  | none => exact moves_pure _
  | some chars =>
    exact moves_bind moves_get fun _ => moves_bind (moves_modify fun c => hs c _) fun _ => moves_pure _

theorem moves_zeroCharArray (hs : ∀ c s, R.rel c { c with java := { c.java with secrets := s } })
    (array : Option CharArrayRef) (size : Nat) : Moves R (zeroCharArray array size) := by
  cases array with
  | none => exact moves_pure _
  | some array => exact moves_modify fun c => hs c _

variable (h : IgnoresSends R)
include h

theorem moves_callCompletion (completion : Option Block) (hash : Option Sha256Hash) :
    Moves R (callCompletion completion hash) := by
  cases completion with
  | none => exact moves_pure _
  | some block => exact moves_modify fun c => h.completions c _

theorem moves_sendCoinsToRecipient {lib : Lib} {coins : UInt64} {recipient : String}
    (hrun : ∀ array c,
      R.rel c (c.ran (onBehalfOf 0 (sendCoins lib (amountText coins) recipient array))))
    (password : Option NSData) (completion : Option Block) :
    Moves R (sendCoinsToRecipient lib coins recipient password completion) := by
  refine moves_bind moves_get fun c =>
    moves_ite (moves_bind (moves_callCompletion h _ _) fun _ => moves_pure _) ?_
  refine moves_bind (moves_modify fun c => h.sending c _ _) fun _ => ?_
  refine moves_bind (moves_jCharArray h.secrets password) fun array => ?_
  refine moves_bind (moves_callVoidMethod (hrun array)) fun error => ?_
  refine moves_bind (moves_zeroCharArray h.secrets array _) fun _ => ?_
  exact moves_bind (moves_ite (moves_modify fun c => h.sending c _ _) (moves_pure _)) fun _ =>
    moves_pure _

theorem moves_mainQueue : Moves R Event.mainQueue.code := by
  refine moves_bind moves_get fun c => ?_
  split
  · exact moves_pure _
  · next block blocks hq =>
    refine moves_bind (moves_modify fun c => h.queue c _) fun _ => ?_
    cases block with
    | onTransactionSuccess txid =>
      exact moves_bind moves_get fun c => moves_bind (moves_callCompletion h _ _) fun _ =>
        moves_modify fun c => h.sending c _ _
    | onTransactionFailed =>
      exact moves_bind moves_get fun c => moves_bind (moves_callCompletion h _ _) fun _ =>
        moves_modify fun c => h.sending c _ _

end Sends

end BitcoinKit

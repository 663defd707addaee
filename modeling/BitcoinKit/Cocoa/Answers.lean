import BitcoinKit.Cocoa.Calls
import BitcoinKit.Java.Step
import BitcoinKit.Schemes.Desk
import Mathlib.Data.List.ReduceOption

/-! The payment callbacks as a desk. A callback waits in `_callbacks` under its number; the futures of
    the virtual machine carry the numbers they will answer to:

        _callbacks[k] ─▶ jint ─▶ future ─▶ native method ─▶ sign-extended ─▶ _callbacks[k]

    A number survives that way and back as long as it is below 2^31. -/

namespace BitcoinKit
open Schemes

/-- The number a future will answer to. -/
def Pending.waitsFor : Pending → Option NSUInteger
  | .session callbackId => some (.ofJint callbackId)
  | .ack _ _ callbackId _ => some (.ofJint callbackId)
  | .broadcast _ _ callbackId _ => some (.ofJint callbackId)
  | .sent _ => none

/-- The number a call of a native method answers to. -/
def NativeCall.answers (call : NativeCall) : Option NSUInteger := call.callback.map .ofJint

/-- For each pending future the number it will answer to. -/
def Ledger.slots (L : Ledger) : List (Option NSUInteger) := L.pending.map Pending.waitsFor

/-- The numbers the pending futures will answer to. -/
def Ledger.waits (L : Ledger) : List NSUInteger := L.pending.filterMap Pending.waitsFor

theorem waits_slots (L : Ledger) : L.waits = L.slots.reduceOption := by
  simp [Ledger.waits, Ledger.slots, List.reduceOption]

/-- The numbers answered so far. -/
def Ledger.answers (L : Ledger) : List NSUInteger := L.reports.filterMap fun n => n.2.answers

/-- The requests in progress, by their numbers. -/
def Cocoa.inProgress (c : Cocoa) : List NSUInteger := c.java.ledger.waits

def Cocoa.desk (c : Cocoa) : Desk NSUInteger Block where
  table := c.callbacks
  accepted := (c.requests.filter fun r => r.threw.isNone).map fun r => (r.callbackId, r.callback)
  refused := (c.requests.filter fun r => r.threw.isSome).map Request.callbackId
  waiting := c.inProgress
  replies := c.invocations.map fun i => (i.callbackId, i.callback)

theorem ofJint_jint {n : NSUInteger} (h : n.toNat < 2147483648) : NSUInteger.ofJint n.jint = n := by
  have hn : n.toBitVec.toNat = n.toNat := rfl
  have hmsb : (n.toBitVec.setWidth 32).msb = false := by
    rw [BitVec.msb_eq_false_iff_two_mul_lt, BitVec.toNat_setWidth]
    omega
  have hext : (NSUInteger.ofJint n.jint).toBitVec = (n.toBitVec.setWidth 32).signExtend 64 := rfl
  refine UInt64.eq_of_toBitVec_eq ?_
  rw [hext, BitVec.signExtend_eq_setWidth_of_msb_false hmsb]
  refine BitVec.eq_of_toNat_eq ?_
  rw [BitVec.toNat_setWidth, BitVec.toNat_setWidth]
  omega

/-! ### Native methods -/

variable {c : Cocoa} {w : World} {lib : Lib}

theorem desk_answering (k : NSUInteger) (reply : Reply) :
    (c.answering k reply).desk = c.desk.reply k := by
  rw [Desk.reply, Cocoa.answering]
  cases hk : c.callbacks k with
  | none =>
    have hk' : c.desk.table k = none := hk
    have hsame : Function.update c.callbacks k none = c.callbacks := by
      rw [← hk]
      exact Function.update_eq_self k c.callbacks
    rw [hk']
    simp [Cocoa.desk, Cocoa.inProgress, Cocoa.retrieving, hsame]
  | some callback =>
    have hk' : c.desk.table k = some callback := hk
    rw [hk']
    simp [Cocoa.desk, Cocoa.inProgress, Cocoa.retrieving]

/-- The details that a native call hands over are of characters of one unit. -/
def NativeCall.Crosses : NativeCall → Prop
  | .onPaymentRequestLoaded _ _ details => ∀ s ∈ details.toJson.strings, IsBasic s
  | .onPaymentRequestProcessed _ _ details => ∀ s ∈ details.toJson.strings, IsBasic s
  | _ => True

theorem crosses_of_mute {call : NativeCall} (h : call.answers = none) : call.Crosses := by
  cases call with
  | onPaymentRequestLoaded callbackId sessionId details => cases h
  | onPaymentRequestProcessed callbackId txid details => cases h
  | _ => trivial

theorem desk_nativeMethod {call : NativeCall} (h : call.Crosses) :
    Ends (nativeMethod call) c fun _ d => d.desk = call.answers.toList.foldl Desk.reply c.desk := by
  have hcall (k : NSUInteger) (reply : Reply) :
      Ends (callBack k reply) c fun _ d => d.desk = c.desk.reply k :=
    ends_mono (ends_callBack k reply) fun _ _ hd => hd ▸ desk_answering k reply
  have hdetails {details : JSONObject} (hbasic : ∀ s ∈ details.toJson.strings, IsBasic s)
      (k : NSUInteger) (reply : Option Json → Reply) :
      Ends (callBackWithDetails details.jString k reply) c fun _ d => d.desk = c.desk.reply k := by
    refine ends_mono (ends_callBackWithDetails details k reply) fun _ d hd => ?_
    rw [hd, if_pos hbasic]
    exact desk_answering k _
  cases call with
  | onTransactionChanged txid json => rfl
  | onTransactionFailed => rfl
  | onTransactionSuccess txid => rfl
  | onBalanceChanged => rfl
  | onException exception =>
    unfold nativeMethod handleJavaException
    simp only [ends_bind, ends_get, ends_ite, ends_modify, ends_pure, ends_throw]
    rw [if_neg (by simp)]
    split
    · rfl
    · rfl
  | onPaymentRequestLoaded callbackId sessionId details => exact hdetails h _ _
  | onPaymentRequestLoadFailed callbackId error => exact hcall _ _
  | onPaymentRequestProcessed callbackId txid details => exact hdetails h _ _
  | onPaymentRequestProcessingFailed callbackId error => exact hcall _ _

theorem desk_receive {call : NativeCall} (h : call.Crosses) :
    Ends (receive call) c fun _ d => d.desk = call.answers.toList.foldl Desk.reply c.desk := by
  unfold receive
  rw [ends_tryCatch]
  refine ends_mono (desk_nativeMethod h) fun r d hd => ?_
  cases r with
  | ok _ => exact hd
  | error raised => exact hd

theorem desk_receiveAll {calls : List (Nat × NativeCall)} (h : ∀ call ∈ calls, call.2.Crosses) :
    Ends (receiveAll calls) c fun _ d =>
      d.desk = (calls.filterMap fun n => n.2.answers).foldl Desk.reply c.desk := by
  induction calls generalizing c with
  | nil => rfl
  | cons call calls ih =>
    rw [List.forall_mem_cons] at h
    unfold receiveAll
    rw [ends_bind]
    refine ends_mono (ends_and (ends_receive call.2) (desk_receive h.1)) ?_
    rintro r d ⟨⟨hr, -⟩, hd⟩
    rw [hr]
    refine ends_mono (ih h.2) fun r e he => ?_
    rw [he, hd, List.filterMap_cons]
    cases call.2.answers with
    | none => rfl
    | some k => rfl

theorem answers_ledger (w : World) : w.ledger.answers = w.natives.filterMap fun n => n.2.answers := by
  rw [Ledger.answers, World.ledger, List.filterMap_filter]
  refine List.filterMap_congr fun n _ => ?_
  cases h : n.2.callback with
  | none => simp [NativeCall.answers, h]
  | some k => simp

/-- All that a Java method has its native methods hand over crosses the bridge. -/
def Cocoa.HandsOver {α : Type} (c : Cocoa) (method : Java α) : Prop :=
  ∀ call ∈ (after (c.runOf method)).natives, call.2.Crosses

/-- Native calls that answer nobody cross. -/
theorem crosses_of_unanswered (h : w.ledger.answers = []) : ∀ call ∈ w.natives, call.2.Crosses := by
  intro call hc
  refine crosses_of_mute ?_
  rw [answers_ledger, List.filterMap_eq_nil_iff] at h
  exact h call hc

/-- The desk after a Java method: its native calls answered what they did, and its futures wait. -/
theorem desk_ran {α : Type} {method : Java α} (h : c.HandsOver method) :
    (c.ran method).desk = (after (c.runOf method)).ledger.answers.foldl Desk.reply
      { c.desk with waiting := (after (c.runOf method)).ledger.waits } := by
  rw [answers_ledger]
  exact desk_receiveAll (c := c.called method) h

/-! ### Java methods -/

/-- What the Java method of a request does for callback `k`: it throws, answers at once, or leaves a
    future that will answer. -/
inductive Serves (k : NSUInteger) (before : Ledger) : Except Throwable Unit → Ledger → Prop
  | refused {L : Ledger} (e : Throwable) : L.slots = before.slots → L.answers = before.answers →
      Serves k before (.error e) L
  | answered {L : Ledger} : L.slots = before.slots → L.answers = before.answers ++ [k] →
      Serves k before (.ok ()) L
  | putOff {L : Ledger} : L.slots = before.slots ++ [some k] → L.answers = before.answers →
      Serves k before (.ok ()) L

theorem serves_of_loading {call : Nat} {callbackId : Int32} {before L : Ledger}
    {r : Except Throwable Unit} (h : Loading call callbackId before r L) :
    Serves (.ofJint callbackId) before r L := by
  cases h with
  | refused e => exact .refused e rfl rfl
  | loaded sessionId details =>
    refine .answered rfl ?_
    simp [Ledger.answers, NativeCall.answers, NativeCall.callback]
  | loadFailed e =>
    refine .answered rfl ?_
    simp [Ledger.answers, NativeCall.answers, NativeCall.callback]

theorem serves_of_paying {stored : Option PaymentSession} {group : Option Nat} {call : Nat}
    {sessionId callbackId : Int32} {before L : Ledger} {r : Except Throwable Unit}
    (h : Paying lib stored group call sessionId callbackId before r L) :
    Serves (.ofJint callbackId) before r L := by
  cases h with
  | refused e => exact .refused e rfl rfl
  | submitted hs hu hb =>
    refine .putOff ?_ rfl
    simp [Ledger.slots, Pending.waitsFor]
  | paid hs hu hb =>
    refine .putOff ?_ rfl
    simp [Ledger.slots, Pending.waitsFor]
  | stranded e hs hu hb hg => exact .refused e rfl rfl

theorem serves_openFile (path : String) (callbackId : Int32) :
    Ends (onBehalfOf 0 (openPaymentRequestFromFile lib path callbackId)) w
      fun r v => Serves (.ofJint callbackId) w.ledger r v.ledger := by
  unfold onBehalfOf
  rw [ends_bind, ends_modify]
  exact ends_mono (ends_openPaymentRequestFromFile path callbackId) fun r v h => serves_of_loading h

theorem serves_openURL (url : String) (callbackId : Int32) :
    Ends (onBehalfOf 0 (openPaymentRequestFromURL lib url callbackId)) w
      fun r v => Serves (.ofJint callbackId) w.ledger r v.ledger := by
  unfold onBehalfOf openPaymentRequestFromURL addCallback
  simp only [ends_bind, ends_modify, ends_result]
  cases lib.createFromUrl url with
  | error e => exact .refused e rfl rfl
  | ok _ =>
    refine .putOff ?_ rfl
    simp [Ledger.slots, World.ledger, Pending.waitsFor]

theorem serves_pay (sessionId : Int32) (array : Option CharArrayRef) (callbackId : Int32) :
    Ends (numberedPayment (sendPaymentRequest lib sessionId array callbackId)) w
      fun r v => Serves (.ofJint callbackId) w.ledger r v.ledger := by
  unfold numberedPayment
  rw [ends_bind, ends_modify]
  dsimp only
  rw [ends_tryCatch]
  refine ends_mono (ends_sendPaymentRequest sessionId array callbackId) fun r v hv => ?_
  have hs := serves_of_paying hv
  cases r with
  | ok _ =>
    cases hs with
    | answered hw ha => exact .answered hw ha
    | putOff hw ha => exact .putOff hw ha
  | error e =>
    cases hs with
    | refused _ hw ha => exact .refused e hw ha

/-- Asking for a request by its address answers nobody yet. -/
theorem unanswered_openURL (url : String) (callbackId : Int32) :
    Ends (onBehalfOf 0 (openPaymentRequestFromURL lib url callbackId)) w
      fun _ v => v.ledger.answers = w.ledger.answers := by
  unfold onBehalfOf openPaymentRequestFromURL addCallback
  simp only [ends_bind, ends_modify, ends_result]
  cases lib.createFromUrl url <;> rfl

/-- Nor does paying one. -/
theorem unanswered_pay (sessionId : Int32) (array : Option CharArrayRef) (callbackId : Int32) :
    Ends (numberedPayment (sendPaymentRequest lib sessionId array callbackId)) w
      fun _ v => v.ledger.answers = w.ledger.answers := by
  unfold numberedPayment
  rw [ends_bind, ends_modify]
  dsimp only
  rw [ends_tryCatch]
  refine ends_mono (ends_sendPaymentRequest sessionId array callbackId) fun r v hv => ?_
  have hsame : v.ledger.answers = w.ledger.answers := by
    generalize v.ledger = L at hv
    cases hv <;> rfl
  cases r with
  | ok _ => exact hsame
  | error e => exact hsame

/-- A completion whose handler returns answers the number its future carried. -/
theorem answers_of_completing {before L : Ledger} {future : Pending} {failure : Option Throwable}
    (h : Completing lib before future failure (.ok ()) L) :
    L.waits = before.waits ∧ L.answers = before.answers ++ future.waitsFor.toList := by
  have hreport (L' : Ledger) (hL : L'.reports = before.reports) (hp : L'.pending = before.pending)
      (n : Nat × NativeCall) (k : NSUInteger) (hn : n.2.answers = some k) :
      ({ L' with reports := L'.reports ++ [n] } : Ledger).waits = before.waits ∧
      ({ L' with reports := L'.reports ++ [n] } : Ledger).answers = before.answers ++ [k] := by
    simp [Ledger.waits, Ledger.answers, hL, hp, hn]
  cases h with
  | sent tx => simp [Pending.waitsFor]
  | loaded hl =>
    cases hl with
    | loaded sessionId details => exact hreport _ rfl rfl _ _ rfl
    | loadFailed e => exact hreport _ rfl rfl _ _ rfl
  | loadFailed callbackId e => exact hreport _ rfl rfl _ _ rfl
  | acked ha =>
    cases ha with
    | failed e => exact hreport _ rfl rfl _ _ rfl
    | settled details => exact hreport { before with
        commits := _, removals := _ } rfl rfl _ _ rfl
    | misreported hj hf => exact hreport { before with
        commits := _, removals := _ } rfl rfl _ _ rfl
  | ackFailed sessionId callbackId tx call e => exact hreport _ rfl rfl _ _ rfl
  | broadcast sessionId callbackId tx call => exact hreport { before with removals := _ } rfl rfl _ _ rfl
  | broadcastFailed sessionId callbackId tx call e => exact hreport _ rfl rfl _ _ rfl

/-- A completion answers nothing but the number its future carried, and leaves no future behind. -/
theorem completing_only {before L : Ledger} {future : Pending} {failure : Option Throwable}
    {r : Except Throwable Unit} (h : Completing lib before future failure r L) :
    L.slots = before.slots ∧ ∃ answers, L.answers = before.answers ++ answers ∧
      ∀ k ∈ answers, future.waitsFor = some k := by
  have hreport {reports : List (Nat × NativeCall)} {n : Nat × NativeCall}
      (hn : n.2.answers = future.waitsFor) : ∃ answers,
        (reports ++ [n]).filterMap (fun n => n.2.answers) =
          reports.filterMap (fun n => n.2.answers) ++ answers ∧
        ∀ k ∈ answers, future.waitsFor = some k := by
    refine ⟨future.waitsFor.toList, ?_, fun k hk => by simpa using hk⟩
    rw [List.filterMap_append, ← hn]
    cases hn' : n.2.answers with
    | none => simp [hn']
    | some k => simp [hn']
  have hsilent : ∃ answers, before.answers = before.answers ++ answers ∧
      ∀ k ∈ answers, future.waitsFor = some k :=
    ⟨[], (List.append_nil _).symm, fun _ hk => absurd hk List.not_mem_nil⟩
  cases h with
  | sent tx => exact ⟨rfl, hsilent⟩
  | loaded hl =>
    cases hl with
    | refused e => exact ⟨rfl, hsilent⟩
    | loaded sessionId details => exact ⟨rfl, hreport rfl⟩
    | loadFailed e => exact ⟨rfl, hreport rfl⟩
  | loadFailed callbackId e => exact ⟨rfl, hreport rfl⟩
  | acked ha =>
    cases ha with
    | dropped e => exact ⟨rfl, hsilent⟩
    | failed e => exact ⟨rfl, hreport rfl⟩
    | settled details => exact ⟨rfl, hreport rfl⟩
    | lost e => exact ⟨rfl, hsilent⟩
    | misreported hj hf => exact ⟨rfl, hreport rfl⟩
  | ackFailed sessionId callbackId tx call e => exact ⟨rfl, hreport rfl⟩
  | broadcast sessionId callbackId tx call => exact ⟨rfl, hreport rfl⟩
  | broadcastFailed sessionId callbackId tx call e => exact ⟨rfl, hreport rfl⟩

end BitcoinKit

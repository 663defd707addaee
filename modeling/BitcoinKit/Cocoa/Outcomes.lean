import BitcoinKit.Cocoa.Calls

/-! What becomes of plain sends. The future of a send leaves the pending ones once, and then one block
    goes to the main queue:

        sent tx ──▶ onTransactionSuccess(hash of tx) ──▶ main queue
                └─▶ onTransactionFailed              ──▶ main queue

    Nothing else that Java does dispatches such a block, and only `sendCoins` makes such a future. -/

namespace BitcoinKit
open Schemes

variable {w v : World} {lib : Lib}

/-- The transaction of a plain send whose broadcast is not over. -/
def Pending.sentTx : Pending → Option Transaction
  | .sent tx => some tx
  | _ => none

def World.sent (w : World) : List Transaction := w.pending.filterMap Pending.sentTx

/-- The block a native call dispatches to the main queue. -/
def NativeCall.dispatches : NativeCall → Option MainQueueBlock
  | .onTransactionSuccess txid => some (.onTransactionSuccess txid)
  | .onTransactionFailed => some .onTransactionFailed
  | _ => none

def World.outcomes (w : World) : List MainQueueBlock := w.natives.filterMap fun n => n.2.dispatches

/-! ### Java -/

def keepingOutcomes : Along World := keeping World.outcomes

theorem outcomes_note {call : NativeCall} (h : call.dispatches = none) :
    World.outcomes { w with natives := w.natives ++ [(w.activity, call)] } = w.outcomes := by
  simp [World.outcomes, h]

theorem outcomes_news (w : World) (call : NativeCall) (h : call.isNews) :
    keepingOutcomes.rel w { w with natives := w.natives ++ [(w.activity, call)] } := by
  refine outcomes_note ?_
  cases call with
  | onTransactionSuccess txid => cases h
  | onTransactionFailed => cases h
  | _ => rfl

theorem keepingOutcomes_tracking : IgnoresTracking keepingOutcomes where
  listening _ _ _ := rfl
  confidence _ _ _ := rfl
  news := outcomes_news

theorem keepingOutcomes_work : IgnoresWork keepingOutcomes where
  keys _ _ _ := rfl
  wallets _ _ _ _ := rfl
  chain _ _ _ _ _ := rfl
  chainFiles _ _ := rfl
  saved _ _ := rfl
  balance _ := outcomes_note rfl
  network _ _ := rfl
  wallet _ _ _ := rfl
  loading _ _ _ _ _ := rfl
  built _ _ := rfl
  waiting _ _ := rfl
  stored _ _ _ := rfl
  committed _ _ _ _ := rfl
  confidence _ _ _ := rfl
  news := outcomes_news
  secrets _ _ := rfl
  directories _ _ _ := rfl
  bookkeeping _ _ _ _ := rfl

theorem keepingOutcomes_payments : IgnoresPayments keepingOutcomes where
  toIgnoresSending := keepingOutcomes_work.toIgnoresSending
  numbered _ _ := rfl
  loaded _ _ _ := rfl
  removed _ _ := rfl
  reports w call h := by
    refine outcomes_note ?_
    cases call with
    | onTransactionSuccess txid => cases h
    | onTransactionFailed => cases h
    | _ => rfl

theorem outcomes_openFile (path : String) (callbackId : Int32) :
    Moves keepingOutcomes (onBehalfOf 0 (openPaymentRequestFromFile lib path callbackId)) :=
  moves_onBehalfOf keepingOutcomes_work.bookkeeping 0
    (moves_openPaymentRequestFromFile keepingOutcomes_payments.toIgnoresAnswers lib path callbackId)

/-- Every label but a completion dispatches nothing. -/
theorem outcomes_label (l : Label) (h : ∀ lib index failure, l ≠ .complete lib index failure) :
    Moves keepingOutcomes l.code := by
  refine moves_label keepingOutcomes_work keepingOutcomes_tracking l (fun lib _ => ?_)
    (fun testing _ => ?_) fun ha => ?_
  · exact moves_reset keepingOutcomes_work keepingOutcomes_tracking (fun _ => rfl) lib
  · exact moves_setTestingNetwork (fun _ _ => rfl) testing
  · cases l with
    | openPaymentRequestFromFile lib path callbackId => exact outcomes_openFile path callbackId
    | complete lib index failure => exact absurd rfl (h lib index failure)
    | _ => cases ha

/-- What Java does to sends when it is not asked for one: some are over, each with its outcome. `w` has
    dispatched nothing yet. -/
structure Settles (w v : World) : Prop where
  sent : ∀ tx ∈ v.sent, tx ∈ w.sent
  tally : v.sent.length + v.outcomes.length = w.sent.length
  hash : ∀ txid, .onTransactionSuccess txid ∈ v.outcomes → ∃ tx ∈ w.sent, tx.hash = txid

theorem settles_idle (hs : v.sent = w.sent) (ho : v.outcomes = []) : Settles w v := by
  refine ⟨fun tx h => hs ▸ h, by rw [hs, ho]; rfl, fun txid h => ?_⟩
  rw [ho] at h
  exact absurd h List.not_mem_nil

/-- A future that completes is taken out of the pending ones. -/
theorem sent_erase {index : Nat} {future : Pending} (hf : w.pending[index]? = some future) :
    (future.sentTx.toList ++ (w.pending.eraseIdx index).filterMap Pending.sentTx).Perm w.sent := by
  obtain ⟨hlt, hget⟩ := List.getElem?_eq_some_iff.mp hf
  have hp := (List.getElem_cons_eraseIdx_perm hlt).filterMap Pending.sentTx
  rw [hget, List.filterMap_cons] at hp
  cases hs : future.sentTx with
  | none => rw [hs] at hp; exact hp
  | some tx => rw [hs] at hp; exact hp

theorem pending_completing {before L : Ledger} {future : Pending} {failure : Option Throwable}
    {r : Except Throwable Unit} (h : Completing lib before future failure r L) :
    L.pending = before.pending := by
  cases h with
  | loaded hl => cases hl <;> rfl
  | acked ha => cases ha <;> rfl
  | _ => rfl

/-- The outcome of a plain send, by what its broadcast failed with. -/
def outcomeOf (tx : Transaction) : Option Throwable → MainQueueBlock
  | none => .onTransactionSuccess tx.hash
  | some _ => .onTransactionFailed

/-- The broadcast of a plain send is over. -/
theorem outcomes_over {index : Nat} {tx : Transaction} {failure : Option Throwable}
    (hf : w.pending[index]? = some (.sent tx)) :
    (step w (.complete lib index failure)).outcomes = w.outcomes ++ [outcomeOf tx failure] := by
  have h : Ends (completeFuture lib index failure) w fun _ v =>
      v.outcomes = w.outcomes ++ [outcomeOf tx failure] := by
    unfold completeFuture
    rw [ends_bind, ends_get]
    dsimp only
    rw [hf]
    unfold onBehalfOf
    simp only [ends_bind, ends_modify]
    cases failure with
    | none =>
      unfold onSuccess
      rw [ends_native]
      simp [World.outcomes, NativeCall.dispatches, outcomeOf]
    | some error =>
      unfold onFailure
      rw [ends_native]
      simp [World.outcomes, NativeCall.dispatches, outcomeOf]
  exact h

/-- The completion of any other future dispatches nothing. -/
theorem outcomes_others {index : Nat} {failure : Option Throwable}
    (hf : ∀ tx, w.pending[index]? ≠ some (.sent tx)) :
    (step w (.complete lib index failure)).outcomes = w.outcomes := by
  have hnew := moves_onNewTransaction keepingOutcomes_tracking.toIgnoresNews
    (moves_trackTransaction keepingOutcomes_tracking) lib
  have h : Ends (completeFuture lib index failure) w fun _ v => keepingOutcomes.rel w v := by
    unfold completeFuture
    rw [ends_bind, ends_get]
    dsimp only
    cases hp : w.pending[index]? with
    | none => exact rfl
    | some future =>
      have hother (tx : Transaction) : future ≠ .sent tx := fun he => hf tx (he ▸ hp)
      unfold onBehalfOf
      simp only [ends_bind, ends_modify]
      cases failure with
      | none =>
        exact ends_along (R := keepingOutcomes) rfl (moves_onSuccess keepingOutcomes_payments lib hnew
          future fun tx he => absurd he (hother tx))
      | some error =>
        exact ends_along (R := keepingOutcomes) rfl
          (moves_onFailure keepingOutcomes_payments.toIgnoresAnswers error
          future fun tx he => absurd he (hother tx))
  exact h

theorem settles_complete {index : Nat} {failure : Option Throwable} (hw : w.natives = []) :
    Settles w (step w (.complete lib index failure)) := by
  have hnone : w.outcomes = [] := by rw [World.outcomes, hw]; rfl
  cases hf : w.pending[index]? with
  | none =>
    rw [idle_complete hf]
    exact settles_idle rfl hnone
  | some future =>
    obtain ⟨r, hc⟩ := @completing_step w lib index failure future hf
    have hsent : (step w (.complete lib index failure)).sent =
        (w.pending.eraseIdx index).filterMap Pending.sentTx :=
      congrArg (List.filterMap Pending.sentTx) (pending_completing hc)
    have hperm := sent_erase hf
    rw [← hsent] at hperm
    by_cases hs : ∃ tx, future = .sent tx
    · obtain ⟨tx, rfl⟩ := hs
      have ho := @outcomes_over w lib index tx failure hf
      rw [hnone, List.nil_append] at ho
      refine ⟨fun t ht => hperm.subset (List.mem_append_right _ ht), ?_, fun txid hmem => ?_⟩
      · rw [← hperm.length_eq, ho, List.length_append]
        exact Nat.add_comm _ _
      · rw [ho] at hmem
        refine ⟨tx, hperm.subset (List.mem_cons_self ..), ?_⟩
        cases failure with
        | none =>
          cases List.mem_singleton.mp hmem
          rfl
        | some error => cases List.mem_singleton.mp hmem
    · have hother (tx : Transaction) : future ≠ .sent tx := fun he => hs ⟨tx, he⟩
      have hnil : future.sentTx = none := by
        cases future with
        | sent tx => exact absurd rfl (hother tx)
        | _ => rfl
      have ho := @outcomes_others w lib index failure
        fun tx he => hother tx (Option.some.inj (hf.symm.trans he))
      rw [hnil] at hperm
      refine ⟨fun t ht => hperm.subset ht, ?_, fun txid hmem => ?_⟩
      · rw [ho, hnone]
        exact hperm.length_eq
      · rw [ho, hnone] at hmem
        exact absurd hmem List.not_mem_nil

/-- Whatever Java does apart from the methods that send or pay or open a request. -/
theorem settles_label (l : Label) (hl : l.hasMethod = false) (hw : w.natives = []) :
    Settles w (step w l) := by
  by_cases hcomplete : ∃ lib index failure, l = .complete lib index failure
  · obtain ⟨lib, index, failure, rfl⟩ := hcomplete
    exact settles_complete hw
  · have ho : (step w l).outcomes = w.outcomes :=
      outcomes_label l (fun lib index failure he => hcomplete ⟨lib, index, failure, he⟩) w
    have hidle := ledger_unasked (w := w) hl
      fun lib index failure he => hcomplete ⟨lib, index, failure, he⟩
    refine settles_idle (congrArg (fun L => L.pending.filterMap Pending.sentTx) hidle) ?_
    rw [ho, World.outcomes, hw]
    rfl

/-! ### The methods that pay or open a request -/

theorem settles_quiet {α : Type} {method : Java α} (hw : w.natives = [])
    (ho : Moves keepingOutcomes method) (hs : Ends method w fun _ v => v.sent = w.sent) :
    Ends method w fun _ v => Settles w v := by
  have hkept : Ends method w fun _ v => v.outcomes = w.outcomes := ho w
  refine ends_mono (ends_and hs hkept) fun r v ⟨hs, ho⟩ => settles_idle hs ?_
  rw [ho, World.outcomes, hw]
  rfl

theorem settles_openFile (path : String) (callbackId : Int32) (hw : w.natives = []) :
    Ends (onBehalfOf 0 (openPaymentRequestFromFile lib path callbackId)) w
      fun _ v => Settles w v := by
  refine settles_quiet hw (outcomes_openFile path callbackId) ?_
  unfold onBehalfOf
  rw [ends_bind, ends_modify]
  refine ends_mono (ends_openPaymentRequestFromFile path callbackId) fun r v hv => ?_
  have hp : v.ledger.pending = w.pending := by
    generalize v.ledger = L at hv ⊢
    cases hv <;> rfl
  exact congrArg (List.filterMap Pending.sentTx) hp

theorem settles_openURL (url : String) (callbackId : Int32) (hw : w.natives = []) :
    Ends (onBehalfOf 0 (openPaymentRequestFromURL lib url callbackId)) w
      fun _ v => Settles w v := by
  refine settles_quiet hw (outcomes_label (.openPaymentRequestFromURL lib url callbackId)
    fun _ _ _ he => by cases he) ?_
  unfold onBehalfOf openPaymentRequestFromURL addCallback
  simp only [ends_bind, ends_modify, ends_result]
  cases lib.createFromUrl url with
  | error e => exact rfl
  | ok _ => simp [World.sent, Pending.sentTx]

theorem settles_pay (sessionId : Int32) (array : Option CharArrayRef) (callbackId : Int32)
    (hw : w.natives = []) :
    Ends (numberedPayment (sendPaymentRequest lib sessionId array callbackId)) w
      fun _ v => Settles w v := by
  have hwork := keepingOutcomes_work
  refine settles_quiet hw ?_ ?_
  · refine moves_bind (moves_modify fun w => hwork.bookkeeping w _ _ w.threw) fun _ => ?_
    refine moves_tryCatch (moves_sendPaymentRequest hwork.toIgnoresSending hwork.secrets lib sessionId
      array callbackId) fun e => moves_bind (moves_modify fun w =>
        hwork.bookkeeping w w.activity w.calls _) fun _ => moves_throw e
  · unfold numberedPayment
    rw [ends_bind, ends_modify]
    dsimp only
    rw [ends_tryCatch]
    refine ends_mono (ends_sendPaymentRequest sessionId array callbackId) fun r v hv => ?_
    have hsent : v.sent = w.sent := by
      have hp : v.pending = v.ledger.pending := rfl
      rw [World.sent, hp]
      generalize v.ledger = L at hv ⊢
      cases hv with
      | refused e => rfl
      | submitted hs hu hb => simp [World.sent, World.ledger, Pending.sentTx]
      | paid hs hu hb => simp [World.sent, World.ledger, Pending.sentTx]
      | stranded e hs hu hb hg => rfl
    cases r with
    | ok _ => exact hsent
    | error e => exact hsent

/-! ### Cocoa -/

/-- The sends of the manager, when none is made and no block of the main queue runs: what was in flight
    still is, its broadcast or its outcome. -/
structure SendsKept (c d : Cocoa) : Prop where
  sending : d.sending = c.sending
  block : d.sendCompletionBlock = c.sendCompletionBlock
  completions : d.completions = c.completions
  sent : ∀ tx ∈ d.java.sent, tx ∈ c.java.sent
  conserved : d.java.sent.length + d.mainQueue.length = c.java.sent.length + c.mainQueue.length
  queued : ∀ txid, .onTransactionSuccess txid ∈ d.mainQueue →
    .onTransactionSuccess txid ∈ c.mainQueue ∨ ∃ tx ∈ c.java.sent, tx.hash = txid

def keepingSends : Along Cocoa where
  rel := SendsKept
  refl _ := ⟨rfl, rfl, rfl, fun _ h => h, rfl, fun _ h => .inl h⟩
  trans := by
    intro c d e h h'
    refine ⟨h'.sending.trans h.sending, h'.block.trans h.block, h'.completions.trans h.completions,
      fun tx ht => h.sent tx (h'.sent tx ht), h'.conserved.trans h.conserved, fun txid hq => ?_⟩
    rcases h'.queued txid hq with hq | ⟨tx, ht, hash⟩
    · exact h.queued txid hq
    · exact .inr ⟨tx, h.sent tx ht, hash⟩

variable {c d : Cocoa}

theorem sendsKept_same (hs : d.sending = c.sending) (hb : d.sendCompletionBlock = c.sendCompletionBlock)
    (hc : d.completions = c.completions) (hp : d.java.sent = c.java.sent)
    (hq : d.mainQueue = c.mainQueue) : SendsKept c d :=
  ⟨hs, hb, hc, fun _ h => hp ▸ h, by rw [hp, hq], fun _ h => .inl (hq ▸ h)⟩

theorem mainQueue_answering (k : NSUInteger) (reply : Reply) :
    (c.answering k reply).mainQueue = c.mainQueue := by
  unfold Cocoa.answering
  cases c.callbacks k <;> rfl

theorem mainQueue_nativeMethod (call : NativeCall) :
    Ends (nativeMethod call) c fun _ d => d.mainQueue = c.mainQueue ++ call.dispatches.toList := by
  have hnone {m : ObjC Unit} (h : Ends m c fun _ d => d.mainQueue = c.mainQueue) :
      Ends m c fun _ d => d.mainQueue = c.mainQueue ++ [] :=
    ends_mono h fun _ d hd => hd.trans (List.append_nil _).symm
  have hcall (k : NSUInteger) (reply : Reply) :
      Ends (callBack k reply) c fun _ d => d.mainQueue = c.mainQueue :=
    ends_mono (ends_callBack k reply) fun _ _ hd => hd ▸ mainQueue_answering k reply
  have hdetails (details : JSONObject) (k : NSUInteger) (reply : Option Json → Reply) :
      Ends (callBackWithDetails details.jString k reply) c fun _ d => d.mainQueue = c.mainQueue := by
    refine ends_mono (ends_callBackWithDetails details k reply) fun _ d hd => ?_
    rw [hd]
    split
    · exact mainQueue_answering k _
    · rfl
  cases call with
  | onTransactionChanged txid json => exact hnone (m := nativeMethod _) rfl
  | onTransactionFailed => rfl
  | onTransactionSuccess txid => rfl
  | onBalanceChanged => exact hnone (m := nativeMethod _) rfl
  | onException exception =>
    refine hnone (m := nativeMethod _) ?_
    unfold nativeMethod handleJavaException
    simp only [ends_bind, ends_get, ends_ite, ends_modify, ends_pure, ends_throw]
    rw [if_neg (by simp)]
    split
    · trivial
    · trivial
  | onPaymentRequestLoaded callbackId sessionId details => exact hnone (hdetails _ _ _)
  | onPaymentRequestLoadFailed callbackId error => exact hnone (hcall _ _)
  | onPaymentRequestProcessed callbackId txid details => exact hnone (hdetails _ _ _)
  | onPaymentRequestProcessingFailed callbackId error => exact hnone (hcall _ _)

theorem mainQueue_receive (call : NativeCall) :
    Ends (receive call) c fun _ d => d.mainQueue = c.mainQueue ++ call.dispatches.toList := by
  unfold receive
  rw [ends_tryCatch]
  refine ends_mono (mainQueue_nativeMethod call) fun r d hd => ?_
  cases r with
  | ok _ => exact hd
  | error raised => exact hd

theorem mainQueue_receiveAll (calls : List (Nat × NativeCall)) :
    Ends (receiveAll calls) c fun _ d =>
      d.mainQueue = c.mainQueue ++ calls.filterMap fun n => n.2.dispatches := by
  induction calls generalizing c with
  | nil => exact (List.append_nil _).symm
  | cons call calls ih =>
    unfold receiveAll
    rw [ends_bind]
    refine ends_mono (ends_and (ends_receive call.2) (mainQueue_receive call.2)) ?_
    rintro r d ⟨⟨hr, -⟩, hd⟩
    rw [hr]
    refine ends_mono ih fun r e he => ?_
    rw [he, hd, List.append_assoc, List.filterMap_cons]
    cases call.2.dispatches with
    | none => rfl
    | some block => rfl

theorem mainQueue_ran {α : Type} (method : Java α) :
    (c.ran method).mainQueue = c.mainQueue ++ (after (c.runOf method)).outcomes :=
  mainQueue_receiveAll (c := c.called method) _

theorem sendsKept_ran {α : Type} {method : Java α}
    (h : Ends method { c.java with natives := [] } fun _ v =>
      Settles { c.java with natives := [] } v) : SendsKept c (c.ran method) := by
  have hset : Settles { c.java with natives := [] } (after (c.runOf method)) := h
  have hover : (after (c.runOf method)).sent.length + (after (c.runOf method)).outcomes.length =
    c.java.sent.length := hset.tally
  refine ⟨?_, ?_, ?_, fun tx ht => ?_, ?_, fun txid hq => ?_⟩
  · rw [onlyAnswers_ran]
    rfl
  · rw [onlyAnswers_ran]
    rfl
  · rw [onlyAnswers_ran]
    rfl
  · rw [java_ran] at ht
    exact hset.sent tx ht
  · rw [java_ran, mainQueue_ran, List.length_append, ← hover]
    omega
  · rw [mainQueue_ran] at hq
    rcases List.mem_append.mp hq with hq | hq
    · exact .inl hq
    · exact .inr (hset.hash txid hq)

/-- Java's `sendCoins` dispatches nothing, and the ledger tells how it ended. -/
theorem sending_ran (amount recipient : String) (array : Option CharArrayRef) :
    let code := onBehalfOf 0 (sendCoins lib amount recipient array)
    Sending lib 0 { c.java.ledger with reports := [] } (outcome (c.runOf code))
        (c.ran code).java.ledger ∧ (c.ran code).mainQueue = c.mainQueue := by
  dsimp only
  have hsending : Ends (onBehalfOf 0 (sendCoins lib amount recipient array))
      { c.java with natives := [] }
      fun r v => Sending lib 0 { c.java.ledger with reports := [] } r v.ledger := by
    unfold onBehalfOf
    rw [ends_bind, ends_modify]
    exact ends_sendCoins amount recipient array
  have hquiet : (after (c.runOf (onBehalfOf 0 (sendCoins lib amount recipient array)))).outcomes =
      World.outcomes { c.java with natives := [] } :=
    moves_onBehalfOf keepingOutcomes_work.bookkeeping 0 (moves_sendCoins keepingOutcomes_work.toIgnoresSending
      keepingOutcomes_work.secrets lib amount recipient array) _
  refine ⟨?_, ?_⟩
  · rw [java_ran]
    exact hsending
  · rw [mainQueue_ran, hquiet]
    exact List.append_nil _

theorem keepingSends_secrets (c : Cocoa) (s : Secrets) :
    keepingSends.rel c { c with java := { c.java with secrets := s } } :=
  sendsKept_same rfl rfl rfl rfl rfl

/-- A call of a payment method, whatever its Java method does. -/
theorem keepingSends_asRequest {callback : Block} {method : ObjC (Option NSError)}
    (h : Moves keepingSends method) : Moves keepingSends (asRequest callback method) := by
  refine moves_bind moves_get fun c => moves_bind ?_ fun _ =>
    moves_modify fun c => sendsKept_same rfl rfl rfl rfl rfl
  exact moves_tryCatch (moves_bind h fun _ => moves_pure _) fun _ => moves_pure _

theorem keepingSends_storeCallback (callback : Block) : Moves keepingSends (storeCallback callback) :=
  moves_bind moves_get fun _ => moves_bind
    (moves_modify fun _ => sendsKept_same rfl rfl rfl rfl rfl) fun _ => moves_pure _

theorem keepingSends_keepOrRetrieve (k : NSUInteger) (error : Option NSError) :
    Moves keepingSends (keepOrRetrieve k error) := by
  cases error with
  | none => exact moves_pure _
  | some error =>
    exact moves_bind (moves_bind moves_get fun _ => moves_bind
      (moves_modify fun _ => sendsKept_same rfl rfl rfl rfl rfl) fun _ => moves_pure _) fun _ =>
        moves_pure _

def Event.isSend : Event → Bool
  | .sendCoins _ _ _ _ _ => true
  | _ => false

def Event.isMainQueue : Event → Bool
  | .mainQueue => true
  | _ => false

/-- Events that neither send nor run a block of the main queue. -/
theorem sendsKept_event {event : Event} (hs : event.isSend = false) (hq : event.isMainQueue = false) :
    SendsKept c (happen c event) := by
  cases event with
  | sendCoins lib coins recipient password completion => cases hs
  | sendPaymentRequest lib sessionId password callback =>
    refine keepingSends_asRequest ?_ c
    refine moves_bind (moves_jCharArray keepingSends_secrets password) fun array => ?_
    refine moves_bind (keepingSends_storeCallback callback) fun k => ?_
    refine moves_bind (moves_callVoidMethod fun c => sendsKept_ran (settles_pay _ _ _ rfl)) fun _ => ?_
    exact moves_bind (moves_zeroCharArray keepingSends_secrets array _) fun _ =>
      keepingSends_keepOrRetrieve k _
  | openPaymentRequestFromFile lib filename callback =>
    refine keepingSends_asRequest (moves_bind (keepingSends_storeCallback callback) fun k => ?_) c
    exact moves_bind (moves_callVoidMethod fun c => sendsKept_ran (settles_openFile _ _ rfl)) fun _ =>
      keepingSends_keepOrRetrieve k _
  | openPaymentRequestFromURL lib URL callback =>
    refine keepingSends_asRequest (moves_bind (keepingSends_storeCallback callback) fun k => ?_) c
    exact moves_bind (moves_callVoidMethod fun c => sendsKept_ran (settles_openURL _ _ rfl)) fun _ =>
      keepingSends_keepOrRetrieve k _
  | java label hl =>
    rw [happen_java]
    exact sendsKept_ran (settles_label label hl rfl)
  | mainQueue => cases hq

end BitcoinKit

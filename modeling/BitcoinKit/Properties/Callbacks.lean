import BitcoinKit.Cocoa.Crossing

/-! No payment callback is lost, as long as no exception goes where nobody hears it: past a payment
    method as a raised exception, past a future's handler into the executor's log, or out of the native
    method that should call it.

        Java throws in the call        ─▶ table of errors ─▶ NO, callback taken back
                                       └▶ not in it       ─▶ raised, callback orphaned
        Java throws in a handler       ─▶ caught          ─▶ callback called with the error
                                       └▶ not caught      ─▶ callback orphaned
        details for the callback       ─▶ they cross      ─▶ callback called with them
                                       └▶ they do not     ─▶ raised, callback taken out, not called

    All three are said of the arguments and the state before the step. So is the fourth condition, that
    the number of the callback fits a Java `int`. -/

namespace BitcoinKit
open Schemes

/-- The answer to a request whose Java method threw `threw`. -/
def Answer.to (threw : Option Throwable) : Answer :=
  match threw with
  | none => .yes
  | some e => .no (errorForJavaException e)

/-- The calls of the callback stored under a number. -/
def Cocoa.invocationsOf (c : Cocoa) (n : NSUInteger) : List Invocation :=
  c.invocations.filter fun i => i.callbackId = n

structure NoCallbackLost (c : Cocoa) : Prop where
  own : (c.requests.map Request.callbackId).Nodup
  told : ∀ r ∈ c.requests, r.answer = .to r.threw
  refused : ∀ r ∈ c.requests, r.threw ≠ none →
    c.callbacks r.callbackId = none ∧ c.invocationsOf r.callbackId = []
  inProgress : ∀ r ∈ c.requests, r.threw = none → r.callbackId ∈ c.inProgress →
    c.callbacks r.callbackId = some r.callback ∧ c.invocationsOf r.callbackId = []
  ended : ∀ r ∈ c.requests, r.threw = none → r.callbackId ∉ c.inProgress →
    c.callbacks r.callbackId = none ∧
      ∃ reply, c.invocationsOf r.callbackId = [⟨r.callbackId, r.callback, reply⟩]
  exactly : ∀ n callback, c.callbacks n = some callback ↔ n ∈ c.inProgress ∧
    ∃ r ∈ c.requests, r.threw = none ∧ r.callbackId = n ∧ r.callback = callback

/-! ### The condition -/

/-- The bridge has an error for what a Java method throws, if it throws. -/
def Mapped (failure : Option Throwable) : Prop :=
  ∀ e ∈ failure, errorCodeForJavaException e ≠ kHIBitcoinManagerUnexpectedError

instance (failure : Option Throwable) : Decidable (Mapped failure) :=
  inferInstanceAs (Decidable (∀ e ∈ failure, _))

/-- The handler of a future that completes throws nothing it does not catch itself, and what it hands
    over crosses the bridge. -/
def Label.isHeard (w : World) : Label → Prop
  | .complete lib index none => ∀ future ∈ w.pending[index]?,
    onSuccessFailure lib w future = none ∧ FutureCrosses lib w future
  | _ => True

/-- The next number fits a Java `int`. -/
def Cocoa.numbersLeft (c : Cocoa) : Prop := c.callbackId.toNat + 1 < 2147483648

def Heard (c : Cocoa) : Event → Prop
  | .sendPaymentRequest lib sessionId password _ =>
    c.numbersLeft ∧ Mapped (payFailure lib c.java sessionId password)
  | .openPaymentRequestFromFile lib filename _ =>
    c.numbersLeft ∧ Mapped (openFileFailure lib c.java filename) ∧ FileCrosses lib c.java filename
  | .openPaymentRequestFromURL lib URL _ => c.numbersLeft ∧ Mapped (openURLFailure lib URL)
  | .java label _ => label.isHeard c.java
  | .sendCoins _ _ _ _ _ => True
  | .mainQueue => True

/-! ### What stays -/

variable {c d : Cocoa}

/-- Nothing that callbacks are accounted for by changes. -/
def keepingDesk : Along Cocoa := keeping fun c => (c.desk, c.requests, c.callbackId)

theorem keepingDesk_iff : keepingDesk.rel c d ↔
    d.desk = c.desk ∧ d.requests = c.requests ∧ d.callbackId = c.callbackId := by
  simp [keepingDesk, keeping]

theorem ran_requests {α : Type} (method : Java α) :
    (c.ran method).requests = c.requests ∧ (c.ran method).callbackId = c.callbackId ∧
      (c.ran method).exceptionOccurred = thrown (outcome (c.runOf method)) := by
  rw [onlyAnswers_ran method]
  exact ⟨rfl, rfl, rfl⟩

theorem handsOver_of_crossing {α : Type} {method : Java α}
    (h : Ends method { c.java with natives := [] } fun _ v =>
      crossing.rel { c.java with natives := [] } v) : c.HandsOver method :=
  fun call hc => (h call hc).resolve_left List.not_mem_nil

theorem handsOver_of_unanswered {α : Type} {method : Java α}
    (h : Ends method { c.java with natives := [] } fun _ v => v.ledger.answers = []) :
    c.HandsOver method := crosses_of_unanswered h

/-- A Java method that neither answers nor touches what is waited for. -/
theorem keepingDesk_ran {α : Type} {method : Java α}
    (h : Ends method { c.java with natives := [] } fun _ v =>
      v.ledger.waits = c.java.ledger.waits ∧ v.ledger.answers = []) :
    keepingDesk.rel c (c.ran method) := by
  obtain ⟨hw, ha⟩ : (after (c.runOf method)).ledger.waits = c.java.ledger.waits ∧
    (after (c.runOf method)).ledger.answers = [] := h
  refine keepingDesk_iff.mpr ⟨?_, (ran_requests method).1, (ran_requests method).2.1⟩
  rw [desk_ran (handsOver_of_unanswered ha), hw, ha]
  rfl

theorem keepingDesk_sends : IgnoresSends keepingDesk :=
  ⟨fun _ _ => rfl, fun _ _ _ => rfl, fun _ _ => rfl, fun _ _ => rfl⟩

theorem keepingDesk_sendCoins (lib : Lib) (amount recipient : String) (array : Option CharArrayRef)
    (c : Cocoa) : keepingDesk.rel c (c.ran (onBehalfOf 0 (sendCoins lib amount recipient array))) := by
  refine keepingDesk_ran ?_
  unfold onBehalfOf
  rw [ends_bind, ends_modify]
  refine ends_mono (ends_sendCoins amount recipient array) fun r v hv => ?_
  generalize v.ledger = L at hv
  cases hv with
  | refused e => exact ⟨rfl, rfl⟩
  | stranded e hb => exact ⟨rfl, rfl⟩
  | sent hb =>
    refine ⟨?_, rfl⟩
    simp [Ledger.waits, World.ledger, Pending.waitsFor]

/-! ### Completions -/

/-- What a call into Java from outside the payment methods does: it answers one number that was waited
    for, or none. -/
def Progress (before L : Ledger) : Prop :=
  ∃ answered : Option NSUInteger, (answered.toList ++ L.waits).Perm before.waits ∧
    L.answers = before.answers ++ answered.toList

theorem progress_idle {before L : Ledger} (hw : L.waits = before.waits)
    (ha : L.answers = before.answers) : Progress before L :=
  ⟨none, by rw [hw]; exact .refl _, by rw [ha]; exact (List.append_nil _).symm⟩

theorem waits_erase {w : World} {index : Nat} {future : Pending} (h : w.pending[index]? = some future) :
    (future.waitsFor.toList ++ (w.pending.eraseIdx index).filterMap Pending.waitsFor).Perm
      w.ledger.waits := by
  obtain ⟨hlt, hget⟩ := List.getElem?_eq_some_iff.mp h
  have hp := (List.getElem_cons_eraseIdx_perm hlt).filterMap Pending.waitsFor
  rw [hget, List.filterMap_cons] at hp
  cases hf : future.waitsFor with
  | none => rw [hf] at hp; exact hp
  | some k => rw [hf] at hp; exact hp

theorem progress_complete {lib : Lib} {w : World} {index : Nat} {failure : Option Throwable}
    (h : Label.isHeard w (.complete lib index failure)) :
    Ends (completeFuture lib index failure) w fun _ v => Progress w.ledger v.ledger := by
  unfold completeFuture
  rw [ends_bind, ends_get]
  dsimp only
  cases hf : w.pending[index]? with
  | none => exact progress_idle rfl rfl
  | some future =>
    have hmem : future ∈ w.pending[index]? := hf
    have hdone {r : Except Throwable Unit} {v : World} (hr : thrown r = none)
        (hc : Completing lib { w.ledger with pending := w.pending.eraseIdx index } future failure r
          v.ledger) : Progress w.ledger v.ledger := by
      cases r with
      | error e => cases hr
      | ok _ =>
        obtain ⟨hw, ha⟩ := answers_of_completing hc
        refine ⟨future.waitsFor, ?_, ha⟩
        rw [hw]
        exact waits_erase hf
    unfold onBehalfOf
    simp only [ends_bind, ends_modify]
    cases failure with
    | none =>
      refine ends_mono (ends_and (fails_onSuccess future) (ends_onSuccess future rfl)) ?_
      rintro r v ⟨hr, hc⟩
      refine hdone (hr.trans ?_) hc
      exact (h future hmem).1
    | some error =>
      have hreturns {w' : World} : Fails (onFailure error future) w' none := by cases future <;> rfl
      refine ends_mono (ends_and hreturns (@ends_onFailure lib _ future error rfl)) ?_
      rintro r v ⟨hr, hc⟩
      exact hdone hr hc

theorem progress_label {w : World} {l : Label} (hm : l.hasMethod = false) (h : l.isHeard w) :
    Ends l.code w fun _ v => Progress w.ledger v.ledger := by
  by_cases hcomplete : ∃ lib index failure, l = .complete lib index failure
  · obtain ⟨lib, index, failure, rfl⟩ := hcomplete
    exact progress_complete h
  · have hidle := ledger_unasked (w := w) hm
      fun lib index failure he => hcomplete ⟨lib, index, failure, he⟩
    exact progress_idle (congrArg Ledger.waits hidle) (congrArg Ledger.answers hidle)

theorem crosses_complete {lib : Lib} {w : World} {index : Nat} {failure : Option Throwable}
    (h : Label.isHeard w (.complete lib index failure)) :
    Ends (completeFuture lib index failure) w fun _ v => crossing.rel w v := by
  unfold completeFuture
  rw [ends_bind, ends_get]
  dsimp only
  cases hf : w.pending[index]? with
  | none => exact crossing.refl w
  | some future =>
    unfold onBehalfOf
    simp only [ends_bind, ends_modify]
    cases failure with
    | none => exact ends_mono (crosses_onSuccess (h future hf).2) fun _ _ hv => hv
    | some error => exact ends_mono (ends_of_moves (crosses_onFailure error future)) fun _ _ hv => hv

theorem crosses_label {w : World} {l : Label} (hm : l.hasMethod = false) (h : l.isHeard w) :
    Ends l.code w fun _ v => crossing.rel w v := by
  by_cases hcomplete : ∃ lib index failure, l = .complete lib index failure
  · obtain ⟨lib, index, failure, rfl⟩ := hcomplete
    exact crosses_complete h
  · have hidle := ledger_unasked (w := w) hm
      fun lib index failure he => hcomplete ⟨lib, index, failure, he⟩
    have hreports : (step w l).ledger.reports = w.ledger.reports := congrArg Ledger.reports hidle
    intro n hn
    cases hn' : n.2.callback with
    | none => exact .inr (crosses_of_mute (by rw [NativeCall.answers, hn']; rfl))
    | some callbackId =>
      have hreport : n ∈ (step w l).ledger.reports := List.mem_filter.mpr ⟨hn, by rw [hn']; rfl⟩
      rw [hreports] at hreport
      exact .inl (List.mem_of_mem_filter hreport)

/-- The desk after a call into Java that made progress. -/
theorem kept_progress {α : Type} {method : Java α} (hk : c.desk.Kept) (hh : c.HandsOver method)
    (h : Ends method { c.java with natives := [] } fun _ v =>
      Progress { c.java.ledger with reports := [] } v.ledger) : (c.ran method).desk.Kept := by
  obtain ⟨answered, hp, ha⟩ : Progress { c.java.ledger with reports := [] }
    (after (c.runOf method)).ledger := h
  rw [desk_ran hh, ha]
  cases answered with
  | none => exact Desk.kept_perm hk hp
  | some k => exact Desk.kept_answer hk hp

/-! ### Requests -/

theorem desk_storing (callback : Block) : (c.storing callback).desk = { c.desk with
    table := Function.update c.desk.table (c.callbackId + 1) (some callback) } := rfl

/-- A payment method once its callback is stored: the Java method, whatever is done about the password,
    and the callback taken back if there is an error. -/
theorem ends_requestMade {code : Java Unit} {cleanup : ObjC Unit} {k : NSUInteger}
    (hmapped : ∀ e, outcome (c.runOf code) = .error e →
      errorCodeForJavaException e ≠ kHIBitcoinManagerUnexpectedError)
    (hclean : ∀ d, Ends cleanup d fun r e => r = .ok () ∧
      ∃ s, e = { d with java := { d.java with secrets := s } }) :
    Ends (do
      let error ← callVoidMethod true code
      cleanup
      keepOrRetrieve k error) c fun r d =>
        r = .ok ((thrown (outcome (c.runOf code))).map errorForJavaException) ∧
        d.requests = c.requests ∧ d.callbackId = c.callbackId ∧
        d.exceptionOccurred = thrown (outcome (c.runOf code)) ∧
        d.desk = if (thrown (outcome (c.runOf code))).isSome then (c.ran code).desk.drop k
          else (c.ran code).desk := by
  obtain ⟨hrequests, hid, hexception⟩ := ran_requests (c := c) code
  rw [ends_bind]
  refine ends_mono (ends_callVoidMethod true code) fun r d ⟨hr, hd⟩ => ?_
  subst hd
  generalize hended : outcome (c.runOf code) = ended at hr hmapped hexception ⊢
  cases hr with
  | returned h =>
    subst h
    dsimp only
    rw [ends_bind]
    refine ends_mono (hclean _) fun r e ⟨hr, s, he⟩ => ?_
    subst hr he
    exact ⟨rfl, hrequests, hid, hexception, rfl⟩
  | @handedOver e h hover =>
    subst h
    dsimp only
    rw [ends_bind]
    refine ends_mono (hclean _) fun r e ⟨hr, s, he⟩ => ?_
    subst hr he
    exact ⟨rfl, hrequests, hid, hexception, rfl⟩
  | @raised e x h hnot => exact absurd ⟨rfl, hmapped e h⟩ hnot

/-- What a payment method that stored a callback makes of the desk, by what its Java method threw. -/
inductive Disposed (k : NSUInteger) (b : Block) (before : Desk NSUInteger Block) :
    Option Throwable → Desk NSUInteger Block → Prop
  | refused (e : Throwable) : Disposed k b before (some e) before
  | answered : Disposed k b before none { before with replies := before.replies ++ [(k, b)] }
  | putOff : Disposed k b before none { before with
      table := Function.update before.table k (some b)
      waiting := before.waiting ++ [k] }

theorem disposed_of_serves {code : Java Unit} {k : NSUInteger} {b : Block}
    {before : Desk NSUInteger Block} (ht : before.table k = none)
    (hc : c.desk = { before with table := Function.update before.table k (some b) })
    (hh : c.HandsOver code) (hs : Ends code { c.java with natives := [] } fun r v =>
      Serves k { c.java.ledger with reports := [] } r v.ledger) :
    Disposed k b before (thrown (outcome (c.runOf code)))
      (if (thrown (outcome (c.runOf code))).isSome then (c.ran code).desk.drop k
        else (c.ran code).desk) := by
  have hback : Function.update (Function.update before.table k (some b)) k none = before.table := by
    rw [Function.update_idem, ← ht, Function.update_eq_self]
  have hsame : Ledger.waits { c.java.ledger with reports := [] } = before.waiting := by
    have hw : c.desk.waiting = before.waiting := by rw [hc]
    exact hw
  have hwaits {L : Ledger} (hs : L.slots = Ledger.slots { c.java.ledger with reports := [] }) :
      L.waits = before.waiting := by rw [waits_slots, hs, ← waits_slots, hsame]
  have hserves : Serves k { c.java.ledger with reports := [] } (outcome (c.runOf code))
    (after (c.runOf code)).ledger := hs
  rw [desk_ran hh, hc]
  generalize outcome (c.runOf code) = r at hserves ⊢
  generalize (after (c.runOf code)).ledger = L at hserves ⊢
  cases hserves with
  | refused e hw ha =>
    rw [hwaits hw, ha, thrown, Desk.drop]
    dsimp only [Ledger.answers, List.filterMap_nil, List.foldl_nil]
    simp only [Option.isSome_some, if_true, hback]
    exact .refused e
  | answered hw ha =>
    rw [hwaits hw, ha]
    have hkept : Function.update before.table k (some b) k = some b := Function.update_self ..
    dsimp only [Ledger.answers, List.filterMap_nil, List.nil_append, List.foldl_cons, List.foldl_nil]
    rw [Desk.reply]
    dsimp only
    rw [hkept]
    dsimp only
    rw [hback]
    exact .answered
  | putOff hw ha =>
    rw [waits_slots, hw, ha, List.reduceOption_append, ← waits_slots, hsame]
    exact .putOff

/-- A request that came to an end as it should: it is entered, and its callback is where it belongs. -/
structure Requested (c : Cocoa) (callback : Block) (threw : Option Throwable) (d : Cocoa) : Prop where
  callbackId : d.callbackId = c.callbackId + 1
  requests : d.requests = c.requests ++ [⟨c.callbackId + 1, callback, threw, .to threw⟩]
  desk : ∃ desk, Disposed (c.callbackId + 1) callback c.desk threw desk ∧
    d.desk = { desk with accepted := d.desk.accepted, refused := d.desk.refused }

theorem ends_asRequest {callback : Block} {threw : Option Throwable} {method : ObjC (Option NSError)}
    (h : Ends method c fun r d => r = .ok (threw.map errorForJavaException) ∧
      d.requests = c.requests ∧ d.callbackId = c.callbackId + 1 ∧ d.exceptionOccurred = threw ∧
      Disposed (c.callbackId + 1) callback c.desk threw d.desk) :
    Ends (asRequest callback method) c fun _ d => Requested c callback threw d := by
  unfold asRequest
  simp only [ends_bind, ends_get, ends_tryCatch, ends_modify, ends_pure]
  refine ends_mono h ?_
  rintro r d ⟨hr, hrequests, hid, hexception, hdesk⟩
  subst hr
  refine ⟨hid, ?_, d.desk, hdesk, rfl⟩
  dsimp only
  rw [hrequests, hexception]
  cases threw <;> rfl

theorem toNat_next (hn : c.numbersLeft) : (c.callbackId + 1).toNat = c.callbackId.toNat + 1 := by
  unfold Cocoa.numbersLeft at hn
  rw [UInt64.toNat_add]
  have h1 : (1 : UInt64).toNat = 1 := rfl
  omega

/-- The number of the next callback comes back as it went. -/
theorem ofJint_next (hn : c.numbersLeft) :
    NSUInteger.ofJint (c.callbackId + 1).jint = c.callbackId + 1 :=
  ofJint_jint (by rw [toNat_next hn]; exact hn)

theorem mapped_of_fails {code : Java Unit} {failure : Option Throwable} (hm : Mapped failure)
    (hf : Fails code { c.java with natives := [] } failure) {e : Throwable}
    (he : outcome (c.runOf code) = .error e) :
    errorCodeForJavaException e ≠ kHIBitcoinManagerUnexpectedError := by
  have hthrown : thrown (outcome (c.runOf code)) = failure := hf
  rw [he] at hthrown
  exact hm e hthrown.symm

/-- The two methods that open a request: no password, nothing to clean up. -/
theorem requested_opening (callback : Block) (code : NSUInteger → Java Unit)
    {failure : Option Throwable} (ht : c.callbacks (c.callbackId + 1) = none) (hm : Mapped failure)
    (hf : Fails (code (c.callbackId + 1)) { c.java with natives := [] } failure)
    (hh : c.HandsOver (code (c.callbackId + 1))) (hs : ∀ w, Ends (code (c.callbackId + 1)) w fun r v =>
      Serves (c.callbackId + 1) w.ledger r v.ledger) :
    Ends (asRequest callback do
      let callbackId ← storeCallback callback
      let error ← callVoidMethod true (code callbackId)
      keepOrRetrieve callbackId error) c fun _ d => Requested c callback failure d := by
  refine ends_asRequest ?_
  unfold storeCallback
  simp only [bind_assoc, ends_bind, ends_get, ends_modify, pure_bind]
  have hthrown : thrown (outcome ((c.storing callback).runOf (code (c.callbackId + 1)))) = failure := hf
  have h := @ends_requestMade (c.storing callback) (code (c.callbackId + 1)) (pure ())
    (c.callbackId + 1) (fun e => mapped_of_fails (c := c.storing callback) hm hf)
    fun d => ⟨rfl, d.java.secrets, rfl⟩
  have hdisposed := disposed_of_serves (c := c.storing callback) ht (desk_storing callback) hh (hs _)
  rw [hthrown] at h hdisposed
  rw [← ends_bind]
  refine ends_mono h ?_
  rintro r d ⟨hr, hrequests, hid, hexception, hdesk⟩
  refine ⟨hr, hrequests, hid, hexception, ?_⟩
  rw [hdesk]
  exact hdisposed

theorem payFailure_withArray (lib : Lib) (c : Cocoa) (sessionId : Int32) (password : Option NSData) :
    payFailure lib (c.withArrayFor password).java sessionId
      ((c.arrayFor password).map (c.withArrayFor password).java.arrays.cell) =
        payFailure lib c.java sessionId password := by
  cases password with
  | none => rfl
  | some chars =>
    have hcell : ((c.arrayFor (some chars)).map (c.withArrayFor (some chars)).java.arrays.cell) =
        some chars := congrArg some (Heap.cell_alloc_self ..)
    rw [hcell]
    rfl

theorem requested_paying {lib : Lib} {sessionId : Int32} {password : Option NSData}
    (callback : Block) (ht : c.callbacks (c.callbackId + 1) = none) (hn : c.numbersLeft)
    (hm : Mapped (payFailure lib c.java sessionId password)) :
    Ends (asRequest callback (sendPaymentRequestWithPassword lib sessionId password callback)) c
      fun _ d => Requested c callback (payFailure lib c.java sessionId password) d := by
  refine ends_asRequest ?_
  unfold sendPaymentRequestWithPassword storeCallback
  rw [ends_bind, ends_jCharArray]
  dsimp only
  simp only [bind_assoc, pure_bind]
  rw [ends_bind, ends_get]
  dsimp only
  rw [ends_bind, ends_modify]
  dsimp only
  have hf : Fails (numberedPayment (sendPaymentRequest lib sessionId (c.arrayFor password)
      (c.callbackId + 1).jint)) { (c.withArrayFor password).java with natives := [] }
      (payFailure lib c.java sessionId password) := by
    rw [← payFailure_withArray]
    exact fails_numbered (fails_pay sessionId _ _)
  have hs (w : World) := @serves_pay w lib sessionId (c.arrayFor password) (c.callbackId + 1).jint
  rw [ofJint_next hn] at hs
  have hthrown : thrown (outcome (((c.withArrayFor password).storing callback).runOf
    (numberedPayment (sendPaymentRequest lib sessionId (c.arrayFor password)
      (c.callbackId + 1).jint)))) = payFailure lib c.java sessionId password := hf
  have h := ends_requestMade (c := (c.withArrayFor password).storing callback)
    (k := c.callbackId + 1)
    (fun e => mapped_of_fails (c := (c.withArrayFor password).storing callback) hm hf)
    (fun d => ends_zeroCharArray (c := d) (c.arrayFor password) (NSData.size password))
  have hdisposed := disposed_of_serves (c := (c.withArrayFor password).storing callback) ht
    (desk_storing callback) (handsOver_of_unanswered (unanswered_pay sessionId _ _)) (hs _)
  rw [hthrown] at h hdisposed
  have hsame : (c.withArrayFor password).desk = c.desk := by cases password <;> rfl
  rw [hsame] at hdisposed
  refine ends_mono h ?_
  rintro r d ⟨hr, hrequests, hid, hexception, hdesk⟩
  refine ⟨hr, hrequests, hid, hexception, ?_⟩
  rw [hdesk]
  exact hdisposed

/-! ### Runs -/

/-- How the callbacks are accounted for, in every state of a run that is heard. -/
structure Answering (c : Cocoa) : Prop where
  kept : c.desk.Kept
  own : (c.requests.map Request.callbackId).Nodup
  numbered : ∀ r ∈ c.requests, r.callbackId.toNat ≤ c.callbackId.toNat
  told : ∀ r ∈ c.requests, r.answer = .to r.threw

theorem answering_initial (files : Files) (handler : Bool) :
    Answering (Cocoa.initial files handler) where
  kept := Desk.kept_empty
  own := List.nodup_nil
  numbered _ h := absurd h List.not_mem_nil
  told _ h := absurd h List.not_mem_nil

/-- No request has the next number. -/
theorem Answering.fresh (h : Answering c) (hn : c.numbersLeft) :
    c.callbackId + 1 ∉ c.requests.map Request.callbackId := by
  intro hk
  obtain ⟨r, hr, hrk⟩ := List.mem_map.mp hk
  have hle := h.numbered r hr
  rw [hrk, toNat_next hn] at hle
  omega

theorem Answering.freshKey (h : Answering c) (hn : c.numbersLeft) :
    c.desk.Fresh (c.callbackId + 1) := by
  refine ⟨fun hk => h.fresh hn ?_, fun hk => h.fresh hn ?_⟩
  · obtain ⟨x, hx, hxk⟩ := List.mem_map.mp hk
    obtain ⟨r, hr, rfl⟩ := List.mem_map.mp hx
    exact List.mem_map.mpr ⟨r, List.mem_of_mem_filter hr, hxk⟩
  · obtain ⟨r, hr, hrk⟩ := List.mem_map.mp hk
    exact List.mem_map.mpr ⟨r, List.mem_of_mem_filter hr, hrk⟩

theorem answering_requested {callback : Block} {threw : Option Throwable} (h : Answering c)
    (hn : c.numbersLeft) (hd : Requested c callback threw d) : Answering d := by
  have hfresh := h.freshKey hn
  refine ⟨?_, ?_, fun r hr => ?_, fun r hr => ?_⟩
  · obtain ⟨desk, hs, hdesk⟩ := hd.desk
    have haccepted : d.desk.accepted = (d.requests.filter fun r => r.threw.isNone).map fun r =>
      (r.callbackId, r.callback) := rfl
    have hrefused : d.desk.refused = (d.requests.filter fun r => r.threw.isSome).map
      Request.callbackId := rfl
    rw [hd.requests, List.filter_append, List.map_append] at haccepted hrefused
    cases hs with
    | refused e =>
      have hrefuse : d.desk = c.desk.refuse (c.callbackId + 1) := by
        rw [hdesk, haccepted, hrefused]
        simp [Desk.refuse, Cocoa.desk]
      rw [hrefuse]
      exact Desk.kept_refuse h.kept hfresh
    | answered =>
      have hserve : d.desk = c.desk.serve (c.callbackId + 1) callback := by
        rw [hdesk, haccepted, hrefused]
        simp [Desk.serve, Cocoa.desk]
      rw [hserve]
      exact Desk.kept_serve h.kept hfresh callback
    | putOff =>
      have haccept : d.desk = c.desk.accept (c.callbackId + 1) callback := by
        rw [hdesk, haccepted, hrefused]
        simp [Desk.accept, Cocoa.desk]
      rw [haccept]
      exact Desk.kept_accept h.kept hfresh callback
  · rw [hd.requests, List.map_append]
    exact Desk.nodup_append_one h.own (h.fresh hn)
  · rw [hd.requests] at hr
    rw [hd.callbackId, toNat_next hn]
    rcases List.mem_append.mp hr with hr | hr
    · have hle := h.numbered r hr
      omega
    · rw [List.mem_singleton.mp hr, toNat_next hn]
  · rw [hd.requests] at hr
    rcases List.mem_append.mp hr with hr | hr
    · exact h.told r hr
    · rw [List.mem_singleton.mp hr]

theorem answering_keeping (h : Answering c) (hd : keepingDesk.rel c d) : Answering d := by
  obtain ⟨hdesk, hrequests, hid⟩ := keepingDesk_iff.mp hd
  refine ⟨by rw [hdesk]; exact h.kept, by rw [hrequests]; exact h.own, ?_, ?_⟩
  · rw [hrequests, hid]
    exact h.numbered
  · rw [hrequests]
    exact h.told

theorem requested_of_ends {callback : Block} {threw : Option Throwable} {method : ObjC Unit}
    (h : Ends method c fun _ d => Requested c callback threw d) :
    Requested c callback threw (after (method c)) := h

theorem fails_fileOpened (lib : Lib) (c : Cocoa) (filename : String) (callbackId : Int32) :
    Fails (onBehalfOf 0 (openPaymentRequestFromFile lib filename callbackId))
      { c.java with natives := [] } (openFileFailure lib c.java filename) := by
  refine fails_onBehalfOf ?_
  have hsame : openFileFailure lib { c.java with natives := [], activity := 0 } filename =
      openFileFailure lib c.java filename := by
    unfold openFileFailure loadRefusal acceptFailure validationFailure
    rfl
  rw [← hsame]
  exact fails_openFile filename callbackId

theorem handsOver_fileOpened {lib : Lib} {filename : String}
    (h : FileCrosses lib c.java filename) (callbackId : Int32) :
    c.HandsOver (onBehalfOf 0 (openPaymentRequestFromFile lib filename callbackId)) := by
  refine handsOver_of_crossing ?_
  unfold onBehalfOf
  rw [ends_bind, ends_modify]
  have hread : FileCrosses lib { c.java with natives := [], activity := 0 } filename := h
  exact ends_mono (crosses_openFile callbackId hread) fun _ _ hv => hv

/-- Whether a handler is heard does not depend on what Java has told already. -/
theorem isHeard_called {label : Label} {w : World} (h : label.isHeard w) :
    label.isHeard { w with natives := [] } := by
  have hsame (lib : Lib) (future : Pending) :
      onSuccessFailure lib { w with natives := [] } future = onSuccessFailure lib w future := by
    cases future with
    | session callbackId =>
      unfold onSuccessFailure sessionFailure acceptFailure validationFailure
      rfl
    | ack sessionId tx callbackId call =>
      unfold onSuccessFailure ackFailure ackRefusal commitFailure newsFailure broadcastFailure
        reportFailure
      rfl
    | broadcast sessionId tx callbackId call => rfl
    | sent tx => rfl
  cases label with
  | complete lib index failure =>
    cases failure with
    | none => exact fun future hf => ⟨(hsame lib future).trans (h future hf).1, (h future hf).2⟩
    | some error => exact h
  | _ => exact h

theorem answering_happen (c : Cocoa) (event : Event) (h : Answering c) (hok : Heard c event) :
    Answering (happen c event) := by
  have hfree (hn : c.numbersLeft) : c.callbacks (c.callbackId + 1) = none :=
    (h.kept.unused (h.freshKey hn)).2
  cases event with
  | sendCoins lib coins recipient password completion =>
    have hm := moves_sendCoinsToRecipient keepingDesk_sends
      (keepingDesk_sendCoins lib (amountText coins) recipient) password completion
    exact answering_keeping h (moves_bind hm (fun _ => moves_pure _) c)
  | sendPaymentRequest lib sessionId password callback =>
    obtain ⟨hn, hm⟩ := hok
    have hend := requested_paying callback (hfree hn) hn hm
    exact answering_requested h hn (requested_of_ends hend)
  | openPaymentRequestFromFile lib filename callback =>
    obtain ⟨hn, hm, hread⟩ := hok
    have hend := requested_opening callback
      (fun k => onBehalfOf 0 (openPaymentRequestFromFile lib filename k.jint)) (hfree hn) hm
      (fails_fileOpened lib c filename (c.callbackId + 1).jint)
      (handsOver_fileOpened hread (c.callbackId + 1).jint) fun w => by
        have hs := @serves_openFile w lib filename (c.callbackId + 1).jint
        rw [ofJint_next hn] at hs
        exact hs
    exact answering_requested h hn (requested_of_ends hend)
  | openPaymentRequestFromURL lib URL callback =>
    obtain ⟨hn, hm⟩ := hok
    have hend := requested_opening callback
      (fun k => onBehalfOf 0 (openPaymentRequestFromURL lib URL k.jint)) (hfree hn) hm
      (fails_onBehalfOf (fails_openURL URL (c.callbackId + 1).jint))
      (handsOver_of_unanswered (unanswered_openURL URL (c.callbackId + 1).jint)) fun w => by
        have hs := @serves_openURL w lib URL (c.callbackId + 1).jint
        rw [ofJint_next hn] at hs
        exact hs
    exact answering_requested h hn (requested_of_ends hend)
  | java label hl =>
    have hheard : label.isHeard { c.java with natives := [] } := isHeard_called hok
    have hkept : (c.ran label.code).desk.Kept := kept_progress h.kept
      (handsOver_of_crossing (crosses_label hl hheard)) (progress_label hl hheard)
    obtain ⟨hrequests, hid, -⟩ := ran_requests (c := c) label.code
    rw [happen_java]
    refine ⟨hkept, by rw [hrequests]; exact h.own, ?_, ?_⟩
    · rw [hrequests, hid]
      exact h.numbered
    · rw [hrequests]
      exact h.told
  | mainQueue => exact answering_keeping h (moves_mainQueue keepingDesk_sends c)

/-! ### What the account says -/

theorem repliesTo_desk (n : NSUInteger) : Desk.repliesTo c.desk.replies n =
    (c.invocationsOf n).map fun i => (i.callbackId, i.callback) := by
  rw [Desk.repliesTo, Cocoa.invocationsOf]
  exact List.filter_map

theorem mem_accepted {n : NSUInteger} {callback : Block} : (n, callback) ∈ c.desk.accepted ↔
    ∃ r ∈ c.requests, r.threw = none ∧ r.callbackId = n ∧ r.callback = callback := by
  constructor
  · intro h
    obtain ⟨r, hr, he⟩ := List.mem_map.mp h
    obtain ⟨hr, hthrew⟩ := List.mem_filter.mp hr
    cases he
    exact ⟨r, hr, by simpa using hthrew, rfl, rfl⟩
  · rintro ⟨r, hr, hthrew, rfl, rfl⟩
    exact List.mem_map.mpr ⟨r, List.mem_filter.mpr ⟨hr, by simp [hthrew]⟩, rfl⟩

theorem noCallbackLost_of_answering (h : Answering c) : NoCallbackLost c where
  own := h.own
  told := h.told
  refused r hr hthrew := by
    have hrefused : r.callbackId ∈ c.desk.refused :=
      List.mem_map_of_mem (List.mem_filter.mpr ⟨hr, by simpa [Option.isSome_iff_ne_none] using hthrew⟩)
    have hnot := h.kept.apart r.callbackId hrefused
    constructor
    · cases ht : c.callbacks r.callbackId with
      | none => rfl
      | some callback => exact absurd (Desk.key_mem ((h.kept.table_iff _ _).mp ht).2) hnot
    · have hsilent := h.kept.silent r.callbackId hnot
      rw [repliesTo_desk] at hsilent
      exact List.map_eq_nil_iff.mp hsilent
  inProgress r hr hthrew hwaits := by
    have hmem : (r.callbackId, r.callback) ∈ c.desk.accepted :=
      mem_accepted.mpr ⟨r, hr, hthrew, rfl, rfl⟩
    have hreplied := (h.kept.replied _ hmem).trans (if_pos hwaits)
    rw [repliesTo_desk] at hreplied
    exact ⟨(h.kept.table_iff _ _).mpr ⟨hwaits, hmem⟩, List.map_eq_nil_iff.mp hreplied⟩
  ended r hr hthrew hended := by
    have hmem : (r.callbackId, r.callback) ∈ c.desk.accepted :=
      mem_accepted.mpr ⟨r, hr, hthrew, rfl, rfl⟩
    have hreplied := (h.kept.replied _ hmem).trans (if_neg hended)
    rw [repliesTo_desk] at hreplied
    obtain ⟨⟨n, callback, reply⟩, hi, he⟩ := List.map_eq_singleton_iff.mp hreplied
    cases he
    refine ⟨?_, reply, hi⟩
    cases ht : c.callbacks r.callbackId with
    | none => rfl
    | some callback => exact absurd ((h.kept.table_iff _ _).mp ht).1 hended
  exactly n callback := (h.kept.table_iff n callback).trans (and_congr_right fun _ => mem_accepted)

/-- In every run in which every exception is heard, by the bridge or by a handler, the details of
    payments cross the bridge, and fewer than 2^31 callbacks are stored, no callback is lost. -/
theorem no_callback_lost (files : Files) (handler : Bool) (events : List Event)
    (h : Meets happen Heard (Cocoa.initial files handler) events) :
    NoCallbackLost (run happen (Cocoa.initial files handler) events) :=
  noCallbackLost_of_answering
    (inv_meets answering_happen _ events (answering_initial files handler) h)

/-- A library through which a payment server answers with thanks. -/
def Lib.thanking : Lib := { Lib.fair with ackMemo := some "danke schön" }

theorem crosses_thanking {w : World} (future : Pending) : FutureCrosses .thanking w future := by
  cases future with
  | session callbackId => exact fun _ => by decide
  | ack sessionId tx callbackId call => exact fun _ => by decide
  | broadcast sessionId tx callbackId call => trivial
  | sent tx => trivial

/-- A request is loaded from a file and paid, and the payment server acknowledges; another is not found
    in its file. -/
def requestPaid : List Event :=
  walletMade none ++
  [.openPaymentRequestFromFile .withPaymentUrl "request" 7,
   .sendPaymentRequest .withPaymentUrl 1 none 8,
   .openPaymentRequestFromFile
     { Lib.fair with requestStream := fun path => .error (fileNotFoundException path) } "none" 9,
   .java (.complete .thanking 0 none) rfl]

theorem no_callback_lost_requestPaid :
    (run happen (Cocoa.initial .none true) requestPaid).invocations.length = 2 ∧
      NoCallbackLost (run happen (Cocoa.initial .none true) requestPaid) := by
  refine ⟨by decide +kernel, no_callback_lost .none true requestPaid ?_⟩
  refine ⟨trivial, trivial, ?_, ?_, ?_, ?_, trivial⟩
  · exact ⟨by unfold Cocoa.numbersLeft; decide +kernel, by decide +kernel, fun _ _ => by decide⟩
  · exact ⟨by unfold Cocoa.numbersLeft; decide +kernel, by decide +kernel⟩
  · exact ⟨by unfold Cocoa.numbersLeft; decide +kernel, by decide +kernel, fun h => nomatch h⟩
  · have hheard : ∀ future ∈ (run happen (Cocoa.initial .none true) (requestPaid.take 5)).java.pending[0]?,
        onSuccessFailure .thanking (run happen (Cocoa.initial .none true) (requestPaid.take 5)).java
          future = none := by decide +kernel
    exact fun future hf => ⟨hheard future hf, crosses_thanking future⟩

theorem invalidURL_orphans_callback :
    ¬ ∀ (files : Files) (handler : Bool) (events : List Event),
      NoCallbackLost (run happen (Cocoa.initial files handler) events) := by
  intro h
  have hlost := h .none true [.openPaymentRequestFromURL .knowingNoURL "invalid" 7]
  have hraised : ¬ ∀ r ∈ (run happen (Cocoa.initial .none true)
      [.openPaymentRequestFromURL .knowingNoURL "invalid" 7]).requests,
      r.answer = .to r.threw := by decide +kernel
  exact hraised hlost.told

end BitcoinKit

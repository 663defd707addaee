import BitcoinKit.Cocoa.Answers
import BitcoinKit.Java.Failures

/-! Which details cross the bridge. Java hands them over as a text, for a request that is loaded and for a
    payment that is acknowledged:

        memo, payment URL, names  ──▶ JSON text ──▶ native method
        memo of the ack           ──▶ JSON text ──▶ native method

    A text with a character of two UTF-16 units does not arrive, and the bridge raises over it. Whether
    there will be such a text can be said before the step: it is in the request or the ack, and is handed
    over if nothing else goes wrong. -/

namespace BitcoinKit
open Schemes

variable {w v : World} {lib : Lib}

/-! ### The texts -/

/-- The texts of a payment request that go into its details. -/
def PaymentSession.texts (session : PaymentSession) : List String :=
  session.memo.toList ++ session.paymentUrl.toList ++
    (session.pkiVerificationData.map fun pki => [pki.name, pki.rootAuthorityName]).getD []

/-- The entries of the details, in order. -/
theorem details_eq {lib : Lib} {session : PaymentSession} {w : World} {details : JSONObject}
    (h : outcome (getPaymentRequestDetails lib session w) = .ok details) :
    details = [("amount", .num session.value)] ++
      session.memo.toList.map (fun memo => ("memo", .str memo)) ++
      session.paymentUrl.toList.map (fun url => ("paymentURL", .str url)) ++
      (session.pkiVerificationData.map fun pki => [("pkiName", .str pki.name),
        ("pkiRootAuthorityName", .str pki.rootAuthorityName)]).getD [] := by
  unfold getPaymentRequestDetails Lib.call at h
  cases hfails : lib.fails .requestJSON with
  | some e =>
    rw [hfails] at h
    cases h
  | none =>
    rw [hfails] at h
    obtain ⟨ref, networkParams, expires, paymentUrl, value, memo, pkiVerificationData⟩ := session
    cases memo <;> cases paymentUrl <;> cases pkiVerificationData <;>
      exact (Except.ok.inj h).symm

theorem strings_details {lib : Lib} {session : PaymentSession} {w : World} {details : JSONObject}
    (h : outcome (getPaymentRequestDetails lib session w) = .ok details) :
    (∀ s ∈ details.toJson.strings, IsBasic s) ↔ ∀ s ∈ session.texts, IsBasic s := by
  have hkeys : IsBasic "amount" ∧ IsBasic "memo" ∧ IsBasic "paymentURL" ∧ IsBasic "pkiName" ∧
      IsBasic "pkiRootAuthorityName" := by decide
  obtain ⟨hamount, hmemo, hurl, hpki, hroot⟩ := hkeys
  rw [details_eq h]
  obtain ⟨ref, networkParams, expires, paymentUrl, value, memo, pkiVerificationData⟩ := session
  cases memo <;> cases paymentUrl <;> cases pkiVerificationData <;>
    simp [PaymentSession.texts, JSONObject.toJson, JSONValue.toJson, Json.strings,
      Json.memberStrings, Json.stringsOfMember, hamount, hmemo, hurl, hpki, hroot]

/-! ### What native calls hand over -/

/-- The native calls that are new cross the bridge. -/
def crossing : Along World where
  rel w v := ∀ n ∈ v.natives, n ∈ w.natives ∨ n.2.Crosses
  refl _ _ hn := .inl hn
  trans h₁ h₂ n hn := (h₂ n hn).elim (h₁ n) .inr

theorem crossing_same (h : v.natives = w.natives) : crossing.rel w v := fun _ hn => .inl (h ▸ hn)

theorem crossing_native {call : NativeCall} (h : call.Crosses) : Moves crossing (native call) :=
  moves_modify fun _ n hn => (List.mem_append.mp hn).imp_right fun hn => by
    rw [List.mem_singleton.mp hn]
    exact h

theorem crossing_loadFailed (callbackId : Int32) (e : Throwable) :
    Moves crossing (native (.onPaymentRequestLoadFailed callbackId e)) := crossing_native trivial

theorem crossing_processingFailed (callbackId : Int32) (e : Throwable) :
    Moves crossing (native (.onPaymentRequestProcessingFailed callbackId e)) := crossing_native trivial

/-- A method that crosses if its texts do where it throws nothing, and that throws what is known. -/
theorem crosses_of_fails {α : Type} {method : Java α} {refusal : Option Throwable} {P : Prop}
    (hr : Fails method w refusal)
    (hv : Ends method w fun r v => (thrown r = none → P) → crossing.rel w v)
    (h : refusal = none → P) : Ends method w fun _ v => crossing.rel w v :=
  ends_mono (ends_and hr hv) fun _ _ hended => hended.2 fun hnone => h (hended.1.symm.trans hnone)

theorem crossing_commits : IgnoresCommits crossing where
  built _ _ := crossing_same rfl
  waiting _ _ := crossing_same rfl
  stored _ _ _ := crossing_same rfl
  committed _ _ _ _ := crossing_same rfl

theorem crossing_tracking : IgnoresTracking crossing where
  confidence _ _ _ := crossing_same rfl
  news _ _ hcall := crossing_native (crosses_of_mute (by
    rw [NativeCall.answers, callback_of_isNews hcall]
    rfl)) _
  listening _ _ _ := crossing_same rfl

/-! ### Loading a request -/

theorem crosses_accept (callbackId : Int32) (session : PaymentSession) :
    Ends (acceptSession lib callbackId session) w fun r v =>
      (thrown r = none → ∀ s ∈ session.texts, IsBasic s) → crossing.rel w v := by
  unfold acceptSession
  refine ends_bind_of_moves (R := crossing) (moves_validatePaymentRequest lib session)
    (fun _ t ht => ?_) fun _ _ hv _ => hv
  have hstore : Moves crossing (storeSession session) :=
    moves_bind moves_get fun _ => moves_bind (moves_modify fun _ => crossing_same rfl) fun _ => moves_pure _
  refine ends_bind_of_moves hstore (fun sessionId u hu => ?_) fun _ _ hv _ => crossing.trans ht hv
  have hdetails : Ends (getPaymentRequestDetails lib session) u fun r v => crossing.rel u v ∧
      ∀ details, r = .ok details →
        ((∀ s ∈ details.toJson.strings, IsBasic s) ↔ ∀ s ∈ session.texts, IsBasic s) :=
    ends_and (ends_of_moves (moves_getPaymentRequestDetails lib session))
      fun details hr => strings_details (w := u) hr
  rw [ends_bind]
  refine ends_mono hdetails fun r x hreached => ?_
  obtain ⟨hx, hiff⟩ := hreached
  have hwx := crossing.trans ht (crossing.trans hu hx)
  cases r with
  | error e => exact fun _ => hwx
  | ok details =>
    have hreport (h : ∀ s ∈ session.texts, IsBasic s) :
        Moves crossing (native (.onPaymentRequestLoaded callbackId sessionId details)) :=
      crossing_native ((hiff details rfl).mpr h)
    exact fun h => crossing.trans hwx (hreport (h rfl) x)

/-- The details of a request in a file cross, if they get as far. -/
def FileCrosses (lib : Lib) (w : World) (path : String) : Prop :=
  thrown (lib.requestStream path) = none → loadRefusal lib w = none →
    ∀ s ∈ lib.loadedSession.texts, IsBasic s

theorem crosses_openFile {path : String} (callbackId : Int32) (h : FileCrosses lib w path) :
    Ends (openPaymentRequestFromFile lib path callbackId) w fun _ v => crossing.rel w v := by
  unfold openPaymentRequestFromFile
  rw [ends_bind, ends_result]
  cases hs : lib.requestStream path with
  | error e => exact crossing.refl w
  | ok _ =>
    have hcross : Ends (do
        lib.call .parsePaymentRequest
        lib.call .newPaymentSession
        let session ← newSession lib
        acceptSession lib callbackId session) w fun r v =>
          (thrown r = none → ∀ s ∈ lib.loadedSession.texts, IsBasic s) → crossing.rel w v := by
      unfold newSession
      simp only [ends_bind, ends_call, ends_get, ends_modify, ends_pure]
      cases lib.fails .parsePaymentRequest with
      | some e => exact fun _ => crossing.refl w
      | none =>
        cases lib.fails .newPaymentSession with
        | some e => exact fun _ => crossing.refl w
        | none => exact crosses_accept callbackId _
    dsimp only
    rw [ends_tryCatch]
    refine ends_mono (crosses_of_fails (fails_load callbackId) hcross (h (by rw [hs]; rfl)))
      fun r v hwv => ?_
    cases r with
    | ok _ => exact hwv
    | error e =>
      have hfailed := crossing_loadFailed callbackId e
      exact ends_mono (ends_of_moves (moves_ite hfailed (moves_ite hfailed
        (moves_ite hfailed (moves_throw e))))) fun _ _ => crossing.trans hwv

/-! ### Futures -/

/-- The details that the handler of a future hands over cross, if it gets as far. -/
def FutureCrosses (lib : Lib) (w : World) : Pending → Prop
  | .session _ => acceptFailure lib w lib.loadedSession = none → ∀ s ∈ lib.loadedSession.texts, IsBasic s
  | .ack _ tx _ _ => ackRefusal lib w tx = none → ∀ memo ∈ lib.ackMemo, IsBasic memo
  | .broadcast _ _ _ _ => True
  | .sent _ => True

theorem strings_ackDetails : (∀ s ∈ (JSONObject.toJson (put [] "memo" (lib.ackMemo.map .str))).strings,
    IsBasic s) ↔ ∀ memo ∈ lib.ackMemo, IsBasic memo := by
  have hmemo : IsBasic "memo" := by decide
  cases lib.ackMemo <;>
    simp [put, JSONObject.toJson, JSONValue.toJson, Json.strings, Json.memberStrings,
      Json.stringsOfMember, hmemo]

theorem crosses_acked (sessionId : Int32) (tx : Transaction) (callbackId : Int32) : Ends (do
    lib.commitTx tx
    removeSession sessionId
    onNewTransaction lib tx
    lib.broadcastTransaction
    let ackDetails ← getPaymentRequestAckDetails lib
    native (.onPaymentRequestProcessed callbackId tx.hash ackDetails)) w fun r v =>
      (thrown r = none → ∀ memo ∈ lib.ackMemo, IsBasic memo) → crossing.rel w v := by
  refine ends_bind_of_moves (moves_commitTx crossing_commits lib tx) (fun _ t ht => ?_)
    fun _ _ hv _ => hv
  refine ends_bind_of_moves (R := crossing) (moves_modify fun _ => crossing_same rfl)
    (fun _ u hu => ?_) fun _ _ hv _ => crossing.trans ht hv
  have hu := crossing.trans ht hu
  refine ends_bind_of_moves (moves_onNewTransaction crossing_tracking.toIgnoresNews
    (moves_trackTransaction crossing_tracking) lib tx) (fun _ x hx => ?_)
    fun _ _ hv _ => crossing.trans hu hv
  have hx := crossing.trans hu hx
  refine ends_bind_of_moves (R := crossing) (moves_broadcast lib) (fun _ y hy => ?_)
    fun _ _ hv _ => crossing.trans hx hv
  have hy := crossing.trans hx hy
  unfold getPaymentRequestAckDetails
  simp only [ends_bind, ends_call, ends_pure]
  cases lib.fails .ackJSON with
  | some e => exact fun _ => hy
  | none =>
    have hreport (h : ∀ memo ∈ lib.ackMemo, IsBasic memo) : Moves crossing (native
        (.onPaymentRequestProcessed callbackId tx.hash (put [] "memo" (lib.ackMemo.map .str)))) :=
      crossing_native (strings_ackDetails.mpr h)
    exact fun h => crossing.trans hy (hreport (h rfl) y)

theorem crosses_onSuccess {future : Pending} (h : FutureCrosses lib w future) :
    Ends (onSuccess lib future) w fun _ v => crossing.rel w v := by
  cases future with
  | session callbackId =>
    unfold onSuccess onSessionLoaded newSession
    simp only [ends_bind, ends_get, ends_modify, ends_pure, ends_catchIf]
    refine ends_mono (crosses_of_fails (fails_accept callbackId _) (crosses_accept callbackId _) h)
      fun r v hwv => ?_
    cases r with
    | ok _ => exact hwv
    | error e =>
      dsimp only
      split
      · exact crossing.trans hwv (crossing_loadFailed callbackId e v)
      · exact hwv
  | ack sessionId tx callbackId call =>
    unfold onSuccess onAck
    rw [ends_catchIf]
    refine ends_mono (crosses_of_fails (fails_acked sessionId tx callbackId)
      (crosses_acked sessionId tx callbackId) h) fun r v hwv => ?_
    cases r with
    | ok _ => exact hwv
    | error e =>
      dsimp only
      split
      · exact crossing.trans hwv (crossing_processingFailed callbackId e v)
      · exact hwv
  | broadcast sessionId tx callbackId call =>
    have hcall : NativeCall.Crosses (.onPaymentRequestProcessed callbackId tx.hash []) :=
      fun _ hs => absurd hs List.not_mem_nil
    exact ends_of_moves (moves_bind (R := crossing) (moves_modify fun _ => crossing_same rfl) fun _ =>
      crossing_native hcall)
  | sent tx => exact ends_of_moves (crossing_native trivial)

theorem crosses_onFailure (error : Throwable) (future : Pending) :
    Moves crossing (onFailure error future) := by
  cases future <;> exact crossing_native trivial

end BitcoinKit

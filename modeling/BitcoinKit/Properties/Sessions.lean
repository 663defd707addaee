import BitcoinKit.Java.Failures

/-! The table of sessions beside what its caller was told of it. The caller keeps its own table, from the
    native methods alone:

        onPaymentRequestLoaded          the session loaded is under its id
        onPaymentRequestProcessed       the session that was paid is gone
        anything else, and silence      nothing changed

    The two agree unless something fails between a change of the table and its report. -/

namespace BitcoinKit
open Schemes

/-- The manager beside its caller: the session each payment call was for, and the sessions the caller
    knows. -/
structure Caller where
  world : World
  paid : List Int32
  known : Int32 → Option PaymentSession

def Caller.initial (files : Files) : Caller := ⟨World.initial files, [], fun _ => none⟩

/-- The session a load hands over in state `w`. -/
def Lib.sessionIn (lib : Lib) (w : World) : PaymentSession :=
  { lib.loadedSession with ref := w.nextSession }

/-- The session a label hands over, if it hands one over. -/
def Label.session (w : World) : Label → Option PaymentSession
  | .openPaymentRequestFromFile lib _ _ => some (lib.sessionIn w)
  | .complete lib _ _ => some (lib.sessionIn w)
  | _ => none

/-- What the caller knows after a report: `session` is the one being loaded, `paid` the sessions of the
    payment calls. -/
def hear (session : Option PaymentSession) (paid : List Int32) (known : Int32 → Option PaymentSession) :
    Nat × NativeCall → Int32 → Option PaymentSession
  | (_, .onPaymentRequestLoaded _ sessionId _) => Function.update known sessionId session
  | (call, .onPaymentRequestProcessed _ _ _) =>
    match paid[call - 1]? with
    | some sessionId => Function.update known sessionId none
    | none => known
  | _ => known

/-- A step of the manager, and the caller hears its reports. -/
def listen (c : Caller) (l : Label) : Caller :=
  let world := step c.world l
  let paid := c.paid ++ l.paidSession.toList
  let reports := world.ledger.reports.drop c.world.ledger.reports.length
  ⟨world, paid, reports.foldl (hear (l.session c.world) paid) c.known⟩

/-- A future's callback reports what it changes: the details of a valid request can be put together,
    and nothing fails after the commit of a payment while its session is in the table. -/
def Pending.Reports (lib : Lib) (w : World) : Pending → Prop
  | .session _ =>
    validationFailure lib w lib.loadedSession = none → lib.fails .requestJSON = none
  | .ack sessionId tx _ _ =>
    (w.paymentSessions sessionId).isSome → commitFailure lib w tx = none →
      (newsFailure lib w tx <|> broadcastFailure lib w <|> lib.fails .ackJSON) = none
  | .broadcast _ _ _ _ => True
  | .sent _ => True

/-- Nothing fails between a change of the table and its report. -/
def ReportsChanges (w : World) : Label → Prop
  | .openPaymentRequestFromFile lib path _ =>
    thrown (lib.requestStream path) = none → lib.fails .parsePaymentRequest = none →
      lib.fails .newPaymentSession = none → validationFailure lib w lib.loadedSession = none →
        lib.fails .requestJSON = none
  | .complete lib index none => ∀ future ∈ w.pending[index]?, future.Reports lib w
  | _ => True

instance (lib : Lib) (w : World) : ∀ future, Decidable (Pending.Reports lib w future)
  | .session _ => inferInstanceAs (Decidable (_ → _))
  | .ack _ _ _ _ => inferInstanceAs (Decidable (_ → _))
  | .broadcast _ _ _ _ => inferInstanceAs (Decidable True)
  | .sent _ => inferInstanceAs (Decidable True)

/-! ### Changes and their reports -/

variable {w v : World} {lib : Lib} {session : Option PaymentSession} {paid : List Int32}

/-- The table changes by what is reported. -/
def telling (session : Option PaymentSession) (paid : List Int32) : Along World where
  rel w v := ∃ reports, v.ledger.reports = w.ledger.reports ++ reports ∧
    v.paymentSessions = reports.foldl (hear session paid) w.paymentSessions
  refl _ := ⟨[], (List.append_nil _).symm, rfl⟩
  trans := by
    rintro w v u ⟨rs, hr, hs⟩ ⟨rs', hr', hs'⟩
    refine ⟨rs ++ rs', ?_, ?_⟩
    · rw [hr', hr, List.append_assoc]
    · rw [hs', hs, List.foldl_append]

/-- Neither a report nor a change of the table. -/
theorem telling_of_eq (hL : v.ledger.reports = w.ledger.reports)
    (hs : v.paymentSessions = w.paymentSessions) : (telling session paid).rel w v :=
  ⟨[], by rw [hL, List.append_nil], hs⟩

theorem telling_offLedger (h : offLedger.rel w v) : (telling session paid).rel w v := by
  obtain ⟨hL, hs, -⟩ := offLedger_iff.mp h
  exact telling_of_eq (by rw [hL]) hs

/-- A report, after the change of the table that the caller makes when it hears it. -/
theorem telling_report {call : NativeCall} (hc : call.callback.isSome)
    (hL : v.ledger.reports = w.ledger.reports)
    (hs : v.paymentSessions = hear session paid w.paymentSessions (v.activity, call)) :
    (telling session paid).rel w { v with natives := v.natives ++ [(v.activity, call)] } := by
  refine ⟨[(v.activity, call)], ?_, hs⟩
  rw [ledger_report hc, hL]

theorem telling_work : IgnoresWork (telling session paid) where
  keys _ _ _ := telling_of_eq rfl rfl
  secrets _ _ := telling_of_eq rfl rfl
  wallets _ _ _ _ := telling_of_eq rfl rfl
  network _ _ := telling_of_eq rfl rfl
  directories _ _ _ := telling_of_eq rfl rfl
  wallet _ _ _ := telling_of_eq rfl rfl
  chain _ _ _ _ _ := telling_of_eq rfl rfl
  chainFiles _ _ := telling_of_eq rfl rfl
  saved _ _ := telling_of_eq rfl rfl
  loading _ _ _ _ _ := telling_of_eq rfl rfl
  balance w := telling_offLedger (offLedger_lifecycle.balance w)
  built _ _ := telling_of_eq rfl rfl
  waiting _ _ := telling_of_eq rfl rfl
  stored _ _ _ := telling_of_eq rfl rfl
  committed _ _ _ _ := telling_of_eq rfl rfl
  confidence _ _ _ := telling_of_eq rfl rfl
  news w _ h := telling_offLedger (offLedger_tracking.news w _ h)
  bookkeeping _ _ _ _ := telling_of_eq rfl rfl

theorem telling_tracking : IgnoresTracking (telling session paid) where
  toIgnoresNews := telling_work.toIgnoresNews
  listening _ _ _ := telling_of_eq rfl rfl

/-- The caller makes nothing of the report of a failure. -/
theorem moves_loadFailed (callbackId : Int32) (e : Throwable) :
    Moves (telling session paid) (native (.onPaymentRequestLoadFailed callbackId e)) :=
  moves_native fun _ => telling_report rfl rfl rfl

theorem moves_processingFailed (callbackId : Int32) (e : Throwable) :
    Moves (telling session paid) (native (.onPaymentRequestProcessingFailed callbackId e)) :=
  moves_native fun _ => telling_report rfl rfl rfl

theorem moves_unheard {call : NativeCall} (h : call.callback = none) :
    Moves (telling session paid) (native call) :=
  moves_native fun _ => telling_of_eq (by rw [ledger_note h]) rfl

/-! ### Loading -/

/-- A session that is stored is reported, if its details can be put together. -/
theorem tells_acceptSession (callbackId : Int32) {loaded : PaymentSession}
    (hok : validationFailure lib w loaded = none → lib.fails .requestJSON = none) :
    Ends (acceptSession lib callbackId loaded) w fun _ v => (telling (some loaded) paid).rel w v := by
  unfold acceptSession
  rw [ends_bind]
  refine ends_mono (ends_and (fails_validation loaded) (ends_validatePaymentRequest lib loaded)) ?_
  rintro r v ⟨hr, rfl, -⟩
  cases r with
  | error e => exact (telling (some loaded) paid).refl v
  | ok _ =>
    unfold storeSession getPaymentRequestDetails
    simp only [ends_bind, ends_get, ends_modify, ends_pure, ends_call, hok hr.symm]
    split
    · exact telling_report rfl rfl rfl
    · exact telling_report rfl rfl rfl

theorem tells_newSession {Q : Except Throwable PaymentSession → World → Prop}
    (h : Q (.ok (lib.sessionIn w)) { w with nextSession := w.nextSession + 1 }) : Ends (newSession lib) w Q := h

theorem tells_openFile {path : String} (callbackId : Int32)
    (hok : ReportsChanges w (.openPaymentRequestFromFile lib path callbackId)) :
    Ends (openPaymentRequestFromFile lib path callbackId) w
      fun _ v => (telling (some (lib.sessionIn w)) paid).rel w v := by
  unfold openPaymentRequestFromFile
  rw [ends_bind, ends_result]
  cases hs : lib.requestStream path with
  | error e => exact (telling _ paid).refl w
  | ok _ =>
    have hbody : Ends (do
        lib.call .parsePaymentRequest
        lib.call .newPaymentSession
        let session ← newSession lib
        acceptSession lib callbackId session) w
          fun _ v => (telling (some (lib.sessionIn w)) paid).rel w v := by
      simp only [ends_bind, ends_call]
      cases hp : lib.fails .parsePaymentRequest with
      | some e => exact (telling _ paid).refl w
      | none =>
        cases hn : lib.fails .newPaymentSession with
        | some e => exact (telling _ paid).refl w
        | none =>
          refine tells_newSession ?_
          exact tells_acceptSession callbackId (hok (by rw [hs]; rfl) hp hn)
    dsimp only
    rw [ends_tryCatch]
    refine ends_mono hbody fun r v hv => ?_
    cases r with
    | ok _ => exact hv
    | error e =>
      refine ends_along hv (moves_ite (moves_loadFailed callbackId e) ?_)
      refine moves_ite (moves_loadFailed callbackId e) ?_
      exact moves_ite (moves_loadFailed callbackId e) (moves_throw e)

theorem tells_onSessionLoaded (callbackId : Int32)
    (hok : validationFailure lib w lib.loadedSession = none → lib.fails .requestJSON = none) :
    Ends (onSessionLoaded lib callbackId) w
      fun _ v => (telling (some (lib.sessionIn w)) paid).rel w v := by
  unfold onSessionLoaded
  rw [ends_bind]
  refine tells_newSession ?_
  have hbody : Ends (acceptSession lib callbackId (lib.sessionIn w))
      { w with nextSession := w.nextSession + 1 }
      fun _ v => (telling (some (lib.sessionIn w)) paid).rel w v := tells_acceptSession callbackId hok
  dsimp only
  rw [ends_catchIf]
  refine ends_mono hbody fun r v hv => ?_
  cases r with
  | ok _ => exact hv
  | error e =>
    dsimp only
    split
    · exact ends_along hv (moves_loadFailed callbackId e)
    · exact hv

/-! ### Paying -/

/-- A session that was not in the table is not missed. -/
theorem update_none_of_none {table : Int32 → Option PaymentSession} {sessionId : Int32}
    (h : table sessionId = none) : Function.update table sessionId none = table := by
  rw [← h]
  exact Function.update_eq_self sessionId table

/-- The payment that a number in the ledger belongs to was for this session. -/
theorem hear_processed {sessionId callbackId : Int32} {call : Nat} {txid : Sha256Hash}
    {details : JSONObject} {known : Int32 → Option PaymentSession}
    (h : paid[call - 1]? = some sessionId) :
    hear session paid known (call, .onPaymentRequestProcessed callbackId txid details) =
      Function.update known sessionId none := by
  rw [hear, h]

theorem tells_onAck {sessionId : Int32} {tx : Transaction} (callbackId : Int32)
    (hpaid : paid[w.activity - 1]? = some sessionId)
    (hok : (w.paymentSessions sessionId).isSome → commitFailure lib w tx = none →
      (newsFailure lib w tx <|> broadcastFailure lib w <|> lib.fails .ackJSON) = none) :
    Ends (onAck lib sessionId tx callbackId) w fun _ v => (telling session paid).rel w v := by
  unfold onAck
  rw [ends_catchIf, ends_bind]
  refine ends_mono (ends_and (ends_and (ends_commitTx tx) (fails_commit tx))
    (ends_commitSurroundings tx)) ?_
  rintro r v ⟨⟨hv, hcommit⟩, haround⟩
  cases r with
  | error e =>
    obtain rfl := hv
    dsimp only
    split
    · exact moves_processingFailed callbackId e v
    · exact (telling session paid).refl v
  | ok _ =>
    refine ends_mono (ends_and (ends_settle hv sessionId callbackId)
      (fails_settle haround sessionId tx callbackId)) ?_
    rintro r u ⟨hu, hfails⟩
    cases r with
    | ok _ =>
      obtain ⟨t, details, ht, hs, hu⟩ := hu
      refine ⟨[(t.activity, .onPaymentRequestProcessed callbackId tx.hash details)],
        by rw [hu, ht.ledger], ?_⟩
      rw [List.foldl_cons, List.foldl_nil, ht.activity, hear_processed hpaid, hs, ht.sessions]
    | error e =>
      obtain ⟨ht, -⟩ := hu
      have hnone : w.paymentSessions sessionId = none := by
        by_contra hsome
        have hall := hok (Option.isSome_iff_ne_none.mpr hsome) hcommit.symm
        rw [hall] at hfails
        cases hfails
      have hwu : (telling session paid).rel w u :=
        telling_of_eq (by rw [ht.ledger]) (ht.sessions.trans (update_none_of_none hnone))
      dsimp only
      split
      · exact ends_along hwu (moves_processingFailed callbackId e)
      · exact hwu

/-- The session a future's payment is for, with the number of the call. -/
def Pending.payment : Pending → Option (Int32 × Nat)
  | .ack sessionId _ _ call => some (sessionId, call)
  | .broadcast sessionId _ _ call => some (sessionId, call)
  | .session _ => none
  | .sent _ => none

theorem Pending.Reports.started {future : Pending} (h : future.Reports lib w) (pending : List Pending)
    (call : Nat) : future.Reports lib { w with pending := pending, activity := call } := by
  cases future <;> exact h

theorem tells_onSuccess {future : Pending} (ha : w.activity = future.call)
    (hpaid : ∀ p ∈ future.payment, paid[p.2 - 1]? = some p.1) (hok : future.Reports lib w) :
    Ends (onSuccess lib future) w fun _ v => (telling (some (lib.sessionIn w)) paid).rel w v := by
  cases future with
  | session callbackId => exact tells_onSessionLoaded callbackId hok
  | ack sessionId tx callbackId call =>
    refine tells_onAck callbackId ?_ hok
    rw [ha]
    exact hpaid _ rfl
  | broadcast sessionId tx callbackId call =>
    have hcall : paid[w.activity - 1]? = some sessionId := by
      rw [ha]
      exact hpaid _ rfl
    have hrel : (telling (some (lib.sessionIn w)) paid).rel w
        (after (onPaymentBroadcast sessionId tx callbackId w)) :=
      telling_report (v := w.settled sessionId) rfl rfl (hear_processed hcall).symm
    exact hrel
  | sent tx => exact moves_unheard rfl w

theorem moves_failed (error : Throwable) : ∀ future, Moves (telling session paid) (onFailure error future)
  | .session callbackId => moves_loadFailed callbackId error
  | .ack _ _ callbackId _ => moves_processingFailed callbackId error
  | .broadcast _ _ callbackId _ => moves_processingFailed callbackId error
  | .sent _ => moves_unheard rfl

/-! ### Every step -/

/-- The payment calls are numbered in order, and each pending payment is for the session of its call. -/
structure Caller.Numbered (c : Caller) : Prop where
  calls : c.paid.length = c.world.calls
  waits : ∀ future ∈ c.world.pending, ∀ p ∈ future.payment, c.paid[p.2 - 1]? = some p.1

/-- A future that a payment call leaves carries the number of the call. -/
theorem paying_payment {stored : Option PaymentSession} {group : Option Nat} {call : Nat}
    {sessionId callbackId : Int32} {before L : Ledger} {r : Except Throwable Unit}
    (h : Paying lib stored group call sessionId callbackId before r L) :
    ∀ future ∈ L.pending, future ∈ before.pending ∨ future.payment = some (sessionId, call) := by
  have hlast {waiting future : Pending} (hw : waiting.payment = some (sessionId, call))
      (hf : future ∈ before.pending ++ [waiting]) :
      future ∈ before.pending ∨ future.payment = some (sessionId, call) := by
    rcases List.mem_append.mp hf with hf | hf
    · exact .inl hf
    · rw [List.mem_singleton.mp hf]
      exact .inr hw
  cases h with
  | refused e => exact fun future hf => .inl hf
  | submitted hs hu hb => exact fun future hf => hlast rfl hf
  | paid hs hu hb => exact fun future hf => hlast rfl hf
  | stranded e hs hu hb hg => exact fun future hf => .inl hf

theorem completing_payment {before L : Ledger} {future : Pending} {failure : Option Throwable}
    {r : Except Throwable Unit} (h : Completing lib before future failure r L) :
    L.pending = before.pending := by
  cases h with
  | loaded hl => cases hl <;> rfl
  | acked ha => cases ha <;> rfl
  | _ => rfl

/-- What a step does to the payments that are waited for. -/
theorem turn_payment {l : Label} {L : Ledger} (h : Turn w l L) :
    ∀ future ∈ L.pending, ∀ p ∈ future.payment,
      future ∈ w.pending ∨ l.paidSession = some p.1 ∧ p.2 = w.calls + 1 := by
  have hpays {lib : Lib} {sessionId callbackId : Int32} {r : Except Throwable Unit} {L : Ledger}
      (hp : Paying lib (w.paymentSessions sessionId)
        w.peerGroup (w.calls + 1) sessionId callbackId { w.ledger with calls := w.calls + 1 } r L) :
      ∀ future ∈ L.pending, ∀ p ∈ future.payment, future ∈ w.pending ∨
        some sessionId = some p.1 ∧ p.2 = w.calls + 1 := by
    intro future hmem p hpayment
    rcases paying_payment hp future hmem with hold | hnew
    · exact .inl hold
    · rw [hnew] at hpayment
      cases hpayment
      exact .inr ⟨rfl, rfl⟩
  have hlast {waiting future : Pending} (hw : waiting.payment = none)
      (hf : future ∈ w.pending ++ [waiting]) :
      ∀ p ∈ future.payment, future ∈ w.pending ∨ l.paidSession = some p.1 ∧ p.2 = w.calls + 1 := by
    rintro p hp
    rcases List.mem_append.mp hf with hf | hf
    · exact .inl hf
    · rw [List.mem_singleton.mp hf, hw] at hp
      cases hp
  cases h with
  | idle l hl => exact fun future hf _ _ => .inl hf
  | sends hs =>
    cases hs with
    | refused e => exact fun future hf _ _ => .inl hf
    | stranded e hb => exact fun future hf _ _ => .inl hf
    | sent hb => exact fun future hf => hlast rfl hf
  | opens lib url callbackId => exact fun future hf => hlast rfl hf
  | loads hl => cases hl <;> exact fun future hf _ _ => .inl hf
  | pays hp => exact hpays hp
  | throws hp =>
    have hwaits := hpays hp
    exact hwaits
  | completes hf hc =>
    rw [completing_payment hc]
    exact fun future hmem _ _ => .inl (List.mem_of_mem_eraseIdx hmem)

theorem numbered_listen {c : Caller} (h : c.Numbered) (l : Label) : (listen c l).Numbered := by
  have hcalls := turn_calls (turn_step c.world l)
  have hwaits := turn_payment (turn_step c.world l)
  refine ⟨?_, fun future hf p hp => ?_⟩
  · have hlen : (listen c l).paid.length = c.paid.length + l.paidSession.toList.length :=
      List.length_append
    rw [hlen, h.calls]
    exact hcalls.symm
  · change (c.paid ++ l.paidSession.toList)[p.2 - 1]? = some p.1
    rcases hwaits future hf p hp with hold | ⟨hs, hn⟩
    · have hget := h.waits future hold p hp
      obtain ⟨hlt, -⟩ := List.getElem?_eq_some_iff.mp hget
      rw [List.getElem?_append_left hlt, hget]
    · rw [hs, hn, Nat.add_sub_cancel, ← h.calls]
      simp

/-- Whatever a step changes in the table, it reports. -/
theorem tells_step {c : Caller} (h : c.Numbered) (l : Label) (hok : ReportsChanges c.world l) :
    (telling (l.session c.world) (c.paid ++ l.paidSession.toList)).rel c.world (step c.world l) := by
  cases hl : l.answers with
  | false =>
    exact moves_label telling_work telling_tracking l
      (fun lib _ => moves_reset telling_work telling_tracking (fun _ => telling_of_eq rfl rfl) lib)
      (fun _ _ => moves_setTestingNetwork (fun _ _ => telling_of_eq rfl rfl) _)
      (fun ha => absurd ha (by simp [hl])) c.world
  | true =>
    cases l with
    | openPaymentRequestFromFile lib path callbackId =>
      exact tells_openFile (w := { c.world with activity := 0 }) callbackId hok
    | complete lib index failure =>
      have hends : Ends (completeFuture lib index failure) c.world fun _ v =>
          (telling (some (lib.sessionIn c.world)) (c.paid ++ [])).rel c.world v := by
        unfold completeFuture onBehalfOf
        rw [ends_bind, ends_get]
        dsimp only
        cases hf : c.world.pending[index]? with
        | none => exact (telling _ _).refl c.world
        | some future =>
          have hpaid : ∀ p ∈ future.payment, (c.paid ++ [])[p.2 - 1]? = some p.1 := by
            rw [List.append_nil]
            exact h.waits future (List.mem_of_getElem? hf)
          simp only [ends_bind, ends_modify]
          cases failure with
          | none =>
            have hruns := tells_onSuccess (w := { c.world with
              pending := c.world.pending.eraseIdx index, activity := future.call }) rfl hpaid
                (Pending.Reports.started (hok future hf) _ _)
            exact ends_mono hruns fun _ _ hv => hv
          | some error =>
            exact ends_along (telling_of_eq rfl rfl) (moves_failed error future)
      exact hends
    | _ => cases hl

/-- What the caller knows follows the table. -/
theorem known_listen {c : Caller} (h : c.Numbered) (l : Label) (hok : ReportsChanges c.world l)
    (hk : c.known = c.world.paymentSessions) :
    (listen c l).known = (listen c l).world.paymentSessions := by
  obtain ⟨reports, hr, hs⟩ := tells_step h l hok
  have hnew : (step c.world l).ledger.reports.drop c.world.ledger.reports.length = reports := by
    rw [hr, List.drop_left]
  change ((step c.world l).ledger.reports.drop c.world.ledger.reports.length).foldl _ c.known = _
  rw [hnew, hk]
  exact hs.symm

/-- Listening leaves the manager alone. -/
theorem world_listen (c : Caller) (ls : List Label) :
    (run listen c ls).world = run step c.world ls := by
  have h : (run listen c ls).world = run step c.world (ls.map id) := run_map (fun _ _ => rfl) c ls
  rwa [List.map_id] at h

/-- In every run in which nothing fails between a change of the table and its report, the table is at
    every moment what the caller was told. -/
theorem session_table_as_told (files : Files) (ls : List Label)
    (h : Meets listen (fun c => ReportsChanges c.world) (Caller.initial files) ls) :
    (run listen (Caller.initial files) ls).known =
      (run step (World.initial files) ls).paymentSessions := by
  have hinv := inv_meets (I := fun c : Caller => c.Numbered ∧ c.known = c.world.paymentSessions)
    (fun c l hc hok => ⟨numbered_listen hc.1 l, known_listen hc.1 l hok hc.2⟩)
    (Caller.initial files) ls ⟨⟨rfl, fun _ hf => absurd hf List.not_mem_nil⟩, rfl⟩ h
  rw [hinv.2, world_listen]
  rfl

/-- A request is loaded and paid, and the ack comes. -/
def requestAcked (lib : Lib) : List Label :=
  requestLoaded lib ++ [.sendPaymentRequest (.spending 10 1) 1 none 2, .complete .fair 0 none]

theorem acked_reports :
    let w := (run listen (Caller.initial .none) ((requestAcked .withPaymentUrl).take 4)).world
    ∀ future ∈ w.pending[0]?, future.Reports .fair w := by decide +kernel

theorem session_table_as_told_acked :
    (run step (World.initial .none) (requestAcked .withPaymentUrl)).removals = [(1, 1)] ∧
      (run listen (Caller.initial .none) (requestAcked .withPaymentUrl)).known =
        (run step (World.initial .none) (requestAcked .withPaymentUrl)).paymentSessions :=
  ⟨by decide +kernel, session_table_as_told .none (requestAcked .withPaymentUrl)
    ⟨trivial, trivial, fun _ _ _ _ => rfl, trivial, acked_reports, trivial⟩⟩

/-- `org.codehaus.jettison.json.JSONException`. -/
def jsonException : Throwable := .withMessage jsonExceptionClass [exceptionClass] "JSON"

/-- The details of a request that has been stored cannot be put together. -/
def loadedUnreported : List Label := requestLoaded (Lib.fair.failingAt .requestJSON jsonException)

theorem loadedUnreported_stays : ¬ ∀ (files : Files) (ls : List Label),
    (run listen (Caller.initial files) ls).known =
      (run step (World.initial files) ls).paymentSessions := by
  intro h
  have hknown : (run listen (Caller.initial .none) loadedUnreported).known 1 = none := by
    decide +kernel
  have hstored : (run step (World.initial .none) loadedUnreported).paymentSessions 1 ≠ none := by
    decide +kernel
  rw [h .none loadedUnreported] at hknown
  exact hstored hknown

end BitcoinKit

import BitcoinKit.Java.Ledger

/-! What the paying operations do to the ledger, case by case: each inductive below lists every way
    its operation can end, and the lemma after it says that the code ends in one of them. -/

namespace BitcoinKit
open Schemes

variable {lib : Lib} {w : World}

/-! ### Building and committing -/

/-- `tx` is what completing a request of `origin` can settle on. -/
structure Built (lib : Lib) (origin : Option PaymentSession) (tx : Transaction) : Prop where
  origin : tx.origin = origin.map PaymentSession.ref
  selected : ∃ wallet request aesKey done,
    lib.completeTx wallet request aesKey = .ok done ∧ tx.inputs = done.inputs

/-- Completing hands out the next transaction object and changes nothing else. -/
theorem ends_complete (request : SendRequest) (aesKey : Option AesKeyRef) :
    Ends (lib.complete request aesKey) w fun
      | .ok tx, v => v = { w with nextTransaction := w.nextTransaction + 1 } ∧
          Built lib request.origin tx
      | .error _, v => v = w := by
  unfold Lib.complete theWallet
  simp only [ends_bind, ends_get, ends_deref, ends_pure, ends_result, ends_modify]
  cases hw : w.wallet with
  | none => exact rfl
  | some ref =>
    dsimp only
    cases hd : lib.completeTx (w.wallets.cell ref) request (aesKey.map w.secrets.aesKeys.cell) with
    | error e => exact rfl
    | ok done => exact ⟨by rw [hw], rfl, _, _, _, done, hd, rfl⟩

/-- What a commit leaves: one more entry in the ledger, and everything a payment still needs. -/
structure Committed (w : World) (tx : Transaction) (v : World) : Prop where
  ledger : v.ledger = { w.ledger with commits := w.ledger.commits ++ [(w.activity, tx)] }
  sessions : v.paymentSessions = w.paymentSessions
  activity : v.activity = w.activity
  peerGroup : v.peerGroup = w.peerGroup

theorem ends_commitTx (tx : Transaction) :
    Ends (lib.commitTx tx) w fun
      | .ok _, v => Committed w tx v
      | .error _, v => v = w := by
  unfold Lib.commitTx theWallet modifyWallet
  simp only [ends_bind, ends_get, ends_deref, ends_pure, ends_call, ends_ite, ends_throw,
    ends_modify]
  cases w.wallet with
  | none => exact rfl
  | some ref =>
    dsimp only
    cases lib.fails .commitTx with
    | some e => exact rfl
    | none =>
      dsimp only
      split
      · exact rfl
      · rw [World.changeConfidence]
        split <;> exact ⟨rfl, rfl, rfl, rfl⟩

/-- Broadcasting changes nothing; it throws without a peer group, or what bitcoinj throws. -/
theorem ends_broadcast :
    Ends lib.broadcastTransaction w fun
      | .ok _, v => v = w
      | .error e, v => v = w ∧ (w.peerGroup = none ∧ e = nullPointerException ∨
          lib.fails .broadcastTransaction = some e) := by
  unfold Lib.broadcastTransaction
  simp only [ends_bind, ends_get, ends_deref, ends_call]
  cases w.peerGroup with
  | none => exact ⟨rfl, .inl ⟨rfl, rfl⟩⟩
  | some group =>
    dsimp only
    cases hf : lib.fails .broadcastTransaction with
    | none => exact rfl
    | some e => exact ⟨rfl, .inr rfl⟩

/-- Wiping a key never throws and changes secrets only. -/
theorem ends_wipeAesKey (aesKey : Option AesKeyRef) : ∃ s, ∀ Q : Except Throwable Unit → World → Prop,
    Ends (wipeAesKey aesKey) w Q ↔ Q (.ok ()) { w with secrets := s } := by
  cases aesKey with
  | none => exact ⟨w.secrets, fun _ => Iff.rfl⟩
  | some key => exact ⟨_, fun _ => Iff.rfl⟩

/-- Work done with a key that is wiped afterwards, for a postcondition that ignores secrets. -/
theorem ends_wiping {α : Type} {m : Java α} {aesKey : Option AesKeyRef}
    {Q : Except Throwable α → World → Prop} (hq : ∀ r v s, Q r v → Q r { v with secrets := s })
    (h : Ends m w Q) : Ends (tryFinally m (wipeAesKey aesKey)) w Q := by
  rw [ends_tryFinally]
  refine ends_mono h fun r v hv => ?_
  obtain ⟨s, hs⟩ := ends_wipeAesKey (w := v) aesKey
  rw [hs]
  exact hq r v s hv

/-- A handler that only renames exceptions, for a postcondition that does not look at them. -/
theorem ends_renaming {α : Type} {m : Java α} {p : Throwable → Bool} {f : Throwable → Throwable}
    {Q : Except Throwable α → World → Prop} (hq : ∀ e e' v, Q (.error e) v → Q (.error e') v)
    (h : Ends m w Q) : Ends (catchIf p m fun e => throw (f e)) w Q := by
  rw [ends_catchIf]
  refine ends_mono h fun r v hv => ?_
  cases r with
  | ok a => exact hv
  | error e =>
    dsimp only
    split
    · exact hq e _ v hv
    · exact hv

/-! ### Plain sends -/

/-- How a plain send can end. -/
inductive Sending (lib : Lib) (call : Nat) (before : Ledger) : Except Throwable Unit → Ledger → Prop
  | refused (e : Throwable) : Sending lib call before (.error e) before
  | stranded (e : Throwable) {tx : Transaction} : Built lib none tx →
      Sending lib call before (.error e) { before with commits := before.commits ++ [(call, tx)] }
  | sent {tx : Transaction} : Built lib none tx →
      Sending lib call before (.ok ()) { before with
        commits := before.commits ++ [(call, tx)]
        pending := before.pending ++ [.sent tx] }

theorem Sending.rename {call : Nat} {before L : Ledger} {e : Throwable} (e' : Throwable)
    (h : Sending lib call before (.error e) L) : Sending lib call before (.error e') L := by
  cases h with
  | refused => exact .refused e'
  | stranded _ hb => exact .stranded e' hb

theorem ends_sendCoinsWith (request : SendRequest) (ho : request.origin = none)
    (aesKey : AesKeyRef) :
    Ends (do
      let tx ← lib.sendCoins request aesKey
      addCallback fun _ => .sent tx) w
      fun r v => Sending lib w.activity w.ledger r v.ledger := by
  unfold Lib.sendCoins addCallback
  simp only [ends_bind, ends_pure, ends_modify]
  refine ends_mono (ends_complete request (some aesKey)) fun r v hv => ?_
  cases r with
  | error e => obtain rfl := hv; exact .refused e
  | ok tx =>
    obtain ⟨rfl, hb⟩ := hv
    rw [ho] at hb
    dsimp only
    refine ends_mono (ends_commitTx tx) fun r v hv => ?_
    cases r with
    | error e => obtain rfl := hv; exact .refused e
    | ok _ =>
      dsimp only
      refine ends_mono ends_broadcast fun r u hu => ?_
      cases r with
      | error e =>
        obtain ⟨rfl, -⟩ := hu
        dsimp only
        rw [hv.ledger]
        exact .stranded e hb
      | ok _ =>
        obtain rfl := hu
        have hL : World.ledger { u with pending := u.pending ++ [.sent tx] } =
            { u.ledger with pending := u.ledger.pending ++ [.sent tx] } := rfl
        dsimp only
        rw [hL, hv.ledger]
        exact .sent hb

theorem ends_sendCoins (amount recipient : String) (password : Option CharArrayRef) :
    Ends (sendCoins lib amount recipient password) w
      fun r v => Sending lib w.activity w.ledger r v.ledger := by
  refine ends_renaming (fun e e' v => Sending.rename e') ?_
  simp only [ends_bind, ends_get, ends_result, ends_call]
  cases bigInteger amount with
  | error e => exact .refused e
  | ok aToSend =>
    dsimp only
    cases lib.parseAddress w.networkParams recipient with
    | error e => exact .refused e
    | ok address =>
      dsimp only
      cases lib.fails .sendRequestTo with
      | some e => exact .refused e
      | none =>
        dsimp only
        rw [← ends_bind]
        refine ends_bind_of_moves
          (moves_aesKeyForPassword (R := onlySecrets) (fun _ _ => rfl) lib password) ?_ ?_
        · rintro aesKey t ht
          refine ends_wiping (fun r v s h => h) ?_
          rw [ht]
          exact ends_sendCoinsWith _ rfl aesKey
        · rintro e t ht
          rw [ht]
          exact .refused e

/-! ### Paying a request -/

/-- How a `sendPaymentRequest` call can end. `stored` is what the table has under the session id. -/
inductive Paying (lib : Lib) (stored : Option PaymentSession) (group : Option Nat) (call : Nat)
    (sessionId callbackId : Int32) (before : Ledger) : Except Throwable Unit → Ledger → Prop
  | refused (e : Throwable) :
      Paying lib stored group call sessionId callbackId before (.error e) before
  | submitted {session : PaymentSession} {tx : Transaction} : stored = some session →
      session.paymentUrl.isSome → Built lib (some session) tx →
      Paying lib stored group call sessionId callbackId before (.ok ()) { before with
        pending := before.pending ++ [.ack sessionId tx callbackId call] }
  | paid {session : PaymentSession} {tx : Transaction} : stored = some session →
      session.paymentUrl = none → Built lib (some session) tx →
      Paying lib stored group call sessionId callbackId before (.ok ()) { before with
        commits := before.commits ++ [(call, tx)]
        pending := before.pending ++ [.broadcast sessionId tx callbackId call] }
  | stranded (e : Throwable) {session : PaymentSession} {tx : Transaction} :
      stored = some session → session.paymentUrl = none → Built lib (some session) tx →
      group = none ∨ (lib.fails .broadcastTransaction).isSome →
      Paying lib stored group call sessionId callbackId before (.error e) { before with
        commits := before.commits ++ [(call, tx)] }

theorem Paying.rename {stored : Option PaymentSession} {group : Option Nat} {call : Nat}
    {sessionId callbackId : Int32} {before L : Ledger} {e : Throwable} (e' : Throwable)
    (h : Paying lib stored group call sessionId callbackId before (.error e) L) :
    Paying lib stored group call sessionId callbackId before (.error e') L := by
  cases h with
  | refused => exact .refused e'
  | stranded _ hs hu hb hg => exact .stranded e' hs hu hb hg

/-- Submitting throws nothing once it has a future; without a payment URL there is none. -/
theorem ends_sendPayment (session : PaymentSession) :
    Ends (lib.sendPayment session) w fun
      | .ok fack, v => v = w ∧ fack = session.paymentUrl.isSome
      | .error _, v => v = w := by
  unfold Lib.sendPayment
  simp only [ends_ite, ends_pure, ends_throw, ends_bind, ends_call]
  cases session.paymentUrl with
  | none => exact ⟨trivial, rfl⟩
  | some url =>
    rw [if_neg (by simp)]
    split
    · trivial
    · cases lib.fails .sendPayment with
      | none => exact ⟨rfl, rfl⟩
      | some e => rfl

/-- The branch without a payment URL: commit, broadcast, and wait for the broadcast. -/
theorem ends_payDirectly {session : PaymentSession} {tx : Transaction} (sessionId callbackId : Int32)
    (hu : session.paymentUrl = none) (hb : Built lib (some session) tx) :
    Ends (do
      lib.commitTx tx
      lib.broadcastTransaction
      addCallback fun call => .broadcast sessionId tx callbackId call) w
      fun r v => Paying lib (some session) w.peerGroup w.activity sessionId callbackId w.ledger r
        v.ledger := by
  unfold addCallback
  simp only [ends_bind, ends_modify]
  refine ends_mono (ends_commitTx tx) fun r v hv => ?_
  cases r with
  | error e => obtain rfl := hv; exact .refused e
  | ok _ =>
    dsimp only
    refine ends_mono ends_broadcast fun r t ht => ?_
    cases r with
    | error e =>
      obtain ⟨rfl, hg⟩ := ht
      dsimp only
      rw [hv.ledger]
      refine .stranded e rfl hu hb ?_
      rw [← hv.peerGroup]
      rcases hg with ⟨hg, -⟩ | hg
      · exact .inl hg
      · exact .inr (by rw [hg]; rfl)
    | ok _ =>
      obtain rfl := ht
      have hL : World.ledger { t with pending :=
          t.pending ++ [.broadcast sessionId tx callbackId t.activity] } = { t.ledger with
            pending := t.ledger.pending ++ [.broadcast sessionId tx callbackId t.activity] } := rfl
      dsimp only
      rw [hL, hv.ledger, hv.activity]
      exact .paid rfl hu hb

theorem ends_submitPayment (session : PaymentSession) (request : SendRequest)
    (ho : request.origin = some session) (aesKey : Option AesKeyRef) (sessionId callbackId : Int32) :
    Ends (submitPayment lib session request aesKey sessionId callbackId) w
      fun r v => Paying lib (some session) w.peerGroup w.activity sessionId callbackId w.ledger r
        v.ledger := by
  unfold submitPayment
  rw [ends_bind]
  refine ends_mono (ends_complete request aesKey) fun r v hv => ?_
  cases r with
  | error e => obtain rfl := hv; exact .refused e
  | ok tx =>
    obtain ⟨rfl, hb⟩ := hv
    rw [ho] at hb
    dsimp only
    refine ends_bind_of_moves (R := keeping id) moves_theWallet ?_ ?_
    · rintro ⟨ref, wallet⟩ t rfl
      refine ends_bind_of_moves (R := keeping id) (moves_firstKey wallet) ?_ ?_
      · rintro key t rfl
        rw [ends_bind]
        refine ends_mono (ends_sendPayment session) fun r t ht => ?_
        cases r with
        | error e => obtain rfl := ht; exact .refused e
        | ok fack =>
          obtain ⟨rfl, rfl⟩ := ht
          dsimp only
          rw [ends_ite]
          split
          · next hu => exact .submitted rfl hu hb
          · next hu => exact ends_payDirectly sessionId callbackId (by simpa using hu) hb
      · rintro e t rfl
        exact .refused e
    · rintro e t rfl
      exact .refused e

theorem ends_sendPaymentRequest (sessionId : Int32) (password : Option CharArrayRef)
    (callbackId : Int32) :
    Ends (sendPaymentRequest lib sessionId password callbackId) w
      fun r v => Paying lib (w.paymentSessions sessionId) w.peerGroup w.activity sessionId callbackId
        w.ledger r v.ledger := by
  refine ends_renaming (fun e e' v => Paying.rename e') ?_
  simp only [ends_bind, ends_get, ends_deref, ends_result]
  cases w.paymentSessions sessionId with
  | none => exact .refused _
  | some session =>
    dsimp only
    cases lib.getSendRequest session with
    | error e => exact .refused e
    | ok outputs =>
      dsimp only
      rw [← ends_bind]
      refine ends_bind_of_moves (R := onlySecrets) (moves_ite ?_ (moves_pure _)) ?_ ?_
      · exact moves_bind (moves_aesKeyForPassword (fun _ _ => rfl) lib password) fun _ =>
          moves_pure _
      · rintro aesKey t ht
        refine ends_wiping (fun r v s h => h) ?_
        rw [ht]
        exact ends_submitPayment session _ rfl aesKey sessionId callbackId
      · rintro e t ht
        rw [ht]
        exact .refused e

/-! ### Loading a request -/

/-- How loading a request can end. -/
inductive Loading (call : Nat) (callbackId : Int32) (before : Ledger) :
    Except Throwable Unit → Ledger → Prop
  | refused (e : Throwable) : Loading call callbackId before (.error e) before
  | loaded (sessionId : Int32) (details : JSONObject) : Loading call callbackId before (.ok ())
      { before with reports := before.reports ++
          [(call, .onPaymentRequestLoaded callbackId sessionId details)] }
  | loadFailed (e : Throwable) : Loading call callbackId before (.ok ())
      { before with reports := before.reports ++
          [(call, .onPaymentRequestLoadFailed callbackId e)] }

theorem ends_report {call : NativeCall} (h : call.callback.isSome) :
    Ends (native call) w fun r v => r = .ok () ∧
      v.ledger = { w.ledger with reports := w.ledger.reports ++ [(w.activity, call)] } :=
  ⟨rfl, ledger_report h⟩

/-- Only the table of sessions and its counters change. -/
def onlySessions : Along World where
  rel w v := v = { w with
    paymentSessions := v.paymentSessions
    paymentSessionsSequenceId := v.paymentSessionsSequenceId
    nextSession := v.nextSession }
  refl _ := rfl
  trans h₁ h₂ := by rw [h₂, h₁]

/-- A session that is accepted is reported as loaded; a throw comes before the report. -/
theorem ends_acceptSession (callbackId : Int32) (session : PaymentSession) :
    Ends (acceptSession lib callbackId session) w fun
      | .ok _, v => Loading w.activity callbackId w.ledger (.ok ()) v.ledger
      | .error _, v => v.ledger = w.ledger ∧ v.activity = w.activity := by
  unfold acceptSession
  refine ends_bind_of_moves (R := onlySessions) (moves_validatePaymentRequest lib session) ?_ ?_
  · rintro _ t ht
    refine ends_bind_of_moves (R := onlySessions) ?_ ?_ ?_
    · exact moves_bind moves_get fun _ => moves_bind (moves_modify fun _ => rfl) fun _ =>
        moves_pure _
    · rintro sessionId u hu
      have hwu := onlySessions.trans ht hu
      refine ends_bind_of_moves (R := onlySessions) (moves_getPaymentRequestDetails lib session) ?_ ?_
      · rintro details v hv
        have hwv := onlySessions.trans hwu hv
        refine ends_mono (ends_report rfl) fun r x ⟨hr, hx⟩ => ?_
        subst hr
        dsimp only
        rw [hx, hwv]
        exact .loaded sessionId details
      · rintro e v hv
        rw [onlySessions.trans hwu hv]
        exact ⟨rfl, rfl⟩
    · rintro e u hu
      rw [onlySessions.trans ht hu]
      exact ⟨rfl, rfl⟩
  · rintro e t ht
    rw [ht]
    exact ⟨rfl, rfl⟩

/-- Reporting a failed load. -/
theorem ends_reportFailedLoad {call : Nat} {callbackId : Int32} {before : Ledger} {e : Throwable}
    (hL : w.ledger = before) (ha : w.activity = call) :
    Ends (native (.onPaymentRequestLoadFailed callbackId e)) w
      fun r v => Loading call callbackId before r v.ledger := by
  refine ends_mono (ends_report rfl) fun r v ⟨hr, hv⟩ => ?_
  rw [hr, hv, hL, ha]
  exact .loadFailed e

theorem ends_openPaymentRequestFromFile (path : String) (callbackId : Int32) :
    Ends (openPaymentRequestFromFile lib path callbackId) w
      fun r v => Loading w.activity callbackId w.ledger r v.ledger := by
  unfold openPaymentRequestFromFile
  rw [ends_bind, ends_result]
  cases lib.requestStream path with
  | error e => exact .refused e
  | ok _ =>
    dsimp only
    rw [ends_tryCatch]
    have hbody : Ends (do
        lib.call .parsePaymentRequest
        lib.call .newPaymentSession
        let session ← newSession lib
        acceptSession lib callbackId session) w fun
          | .ok _, v => Loading w.activity callbackId w.ledger (.ok ()) v.ledger
          | .error _, v => v.ledger = w.ledger ∧ v.activity = w.activity := by
      unfold newSession
      simp only [ends_bind, ends_call, ends_get, ends_modify, ends_pure]
      cases lib.fails .parsePaymentRequest with
      | some e => exact ⟨rfl, rfl⟩
      | none =>
        cases lib.fails .newPaymentSession with
        | some e => exact ⟨rfl, rfl⟩
        | none => exact ends_acceptSession callbackId _
    refine ends_mono hbody fun r v hv => ?_
    cases r with
    | ok _ => exact hv
    | error e =>
      obtain ⟨hL, ha⟩ := hv
      dsimp only
      simp only [ends_ite]
      split
      · exact ends_reportFailedLoad hL ha
      · split
        · exact ends_reportFailedLoad hL ha
        · split
          · exact ends_reportFailedLoad hL ha
          · rw [ends_throw, hL]
            exact .refused e

theorem ends_onSessionLoaded (callbackId : Int32) :
    Ends (onSessionLoaded lib callbackId) w
      fun r v => Loading w.activity callbackId w.ledger r v.ledger := by
  unfold onSessionLoaded newSession
  simp only [ends_bind, ends_get, ends_modify, ends_pure, ends_catchIf]
  refine ends_mono (ends_acceptSession callbackId _) fun r v hv => ?_
  cases r with
  | ok _ => exact hv
  | error e =>
    obtain ⟨hL, ha⟩ := hv
    dsimp only
    split
    · exact ends_reportFailedLoad hL ha
    · rw [hL]
      exact .refused e

/-! ### Completions -/

/-- How the handler of an ack can end. After the commit and the removal it can still throw, or report
    a failure. -/
inductive Acked (lib : Lib) (sessionId : Int32) (tx : Transaction) (callbackId : Int32) (call : Nat)
    (before : Ledger) : Except Throwable Unit → Ledger → Prop
  | dropped (e : Throwable) : Acked lib sessionId tx callbackId call before (.error e) before
  | failed (e : Throwable) : Acked lib sessionId tx callbackId call before (.ok ()) { before with
      reports := before.reports ++ [(call, .onPaymentRequestProcessingFailed callbackId e)] }
  | settled (details : JSONObject) :
      Acked lib sessionId tx callbackId call before (.ok ()) { before with
        commits := before.commits ++ [(call, tx)]
        removals := before.removals ++ [(call, sessionId)]
        reports := before.reports ++ [(call, .onPaymentRequestProcessed callbackId tx.hash details)] }
  | lost (e : Throwable) : Acked lib sessionId tx callbackId call before (.error e) { before with
      commits := before.commits ++ [(call, tx)]
      removals := before.removals ++ [(call, sessionId)] }
  | misreported {e : Throwable} : e.instanceOf jsonExceptionClass →
      lib.fails .broadcastTransaction = some e ∨ lib.fails .ackJSON = some e →
      Acked lib sessionId tx callbackId call before (.ok ()) { before with
        commits := before.commits ++ [(call, tx)]
        removals := before.removals ++ [(call, sessionId)]
        reports := before.reports ++ [(call, .onPaymentRequestProcessingFailed callbackId e)] }

/-- What is left of an ack's handler once the payment is committed and its session removed. -/
theorem ends_finishAck (tx : Transaction) (callbackId : Int32) :
    Ends (do
      lib.broadcastTransaction
      let ackDetails ← getPaymentRequestAckDetails lib
      native (.onPaymentRequestProcessed callbackId tx.hash ackDetails)) w fun
        | .ok _, v => v.paymentSessions = w.paymentSessions ∧ ∃ details,
            v.ledger = { w.ledger with reports := w.ledger.reports ++
              [(w.activity, .onPaymentRequestProcessed callbackId tx.hash details)] }
        | .error e, v => v = w ∧ (w.peerGroup = none ∧ e = nullPointerException ∨
            lib.fails .broadcastTransaction = some e ∨ lib.fails .ackJSON = some e) := by
  unfold getPaymentRequestAckDetails
  rw [ends_bind]
  refine ends_mono ends_broadcast fun r v hv => ?_
  cases r with
  | error e =>
    obtain ⟨rfl, h⟩ := hv
    rcases h with h | h
    · exact ⟨rfl, .inl h⟩
    · exact ⟨rfl, .inr (.inl h)⟩
  | ok _ =>
    obtain rfl := hv
    simp only [ends_bind, ends_call, ends_pure]
    cases hf : lib.fails .ackJSON with
    | some e => exact ⟨rfl, .inr (.inr rfl)⟩
    | none => exact ⟨rfl, _, ledger_report rfl⟩

/-- A `JSONException` does not get out of the report for a notification. -/
theorem throws_reportOrNull (tx : Transaction) :
    Throws (fun e => e.instanceOf jsonExceptionClass = false) (reportOrNull lib tx) :=
  throws_catchIf throws_any (fun _ _ h => h) fun _ => throws_pure none

theorem throws_onNewTransaction (tx : Transaction) :
    Throws (fun e => e.instanceOf jsonExceptionClass = false) (onNewTransaction lib tx) := by
  refine throws_bind throws_get fun w => throws_ite (throws_pure _) ?_
  refine throws_bind (throws_modify _) fun _ => throws_bind (throws_modify _) fun _ => ?_
  refine throws_bind (throws_reportOrNull tx) fun _ => throws_bind (throws_modify _) fun _ => ?_
  refine throws_bind (throws_modify _) fun _ => ?_
  refine throws_bind (throws_bind throws_get fun _ => throws_pure _) fun _ => ?_
  refine throws_ite (throws_bind (throws_modify _) fun _ => ?_) (throws_pure _)
  refine throws_bind throws_get fun w => throws_ite (throws_pure _) ?_
  exact throws_bind (throws_modify _) fun _ => throws_modify _

theorem nullPointer_not_json : nullPointerException.instanceOf jsonExceptionClass = false := by
  decide

/-- The state between the removal of the session and the notification. -/
def World.settled (v : World) (sessionId : Int32) : World :=
  { v with
    paymentSessions := Function.update v.paymentSessions sessionId none
    removals := v.removals ++ [(v.activity, sessionId)] }

/-- What an ack leaves when its payment is committed and its session removed. -/
structure SettledPayment (w : World) (sessionId : Int32) (tx : Transaction) (v : World) : Prop where
  ledger : v.ledger = { w.ledger with
    commits := w.ledger.commits ++ [(w.activity, tx)]
    removals := w.ledger.removals ++ [(w.activity, sessionId)] }
  sessions : v.paymentSessions = Function.update w.paymentSessions sessionId none
  activity : v.activity = w.activity

theorem Committed.settled {tx : Transaction} {v : World} (h : Committed w tx v) (sessionId : Int32) :
    SettledPayment w sessionId tx (v.settled sessionId) where
  ledger := by
    have hs : (v.settled sessionId).ledger = { v.ledger with
        removals := v.ledger.removals ++ [(v.activity, sessionId)] } := rfl
    rw [hs, h.ledger, h.activity]
  sessions := by
    rw [← h.sessions]
    rfl
  activity := h.activity

theorem SettledPayment.offLedger {sessionId : Int32} {tx : Transaction} {v u : World}
    (h : SettledPayment w sessionId tx v) (hu : offLedger.rel v u) : SettledPayment w sessionId tx u := by
  obtain ⟨hL, hs, ha⟩ := offLedger_iff.mp hu
  exact ⟨hL.trans h.ledger, hs.trans h.sessions, ha.trans h.activity⟩

/-- An ack's handler once the payment is committed. -/
theorem ends_settle {tx : Transaction} {v : World} (hv : Committed w tx v) (sessionId callbackId : Int32) :
    Ends (do
      removeSession sessionId
      onNewTransaction lib tx
      lib.broadcastTransaction
      let ackDetails ← getPaymentRequestAckDetails lib
      native (.onPaymentRequestProcessed callbackId tx.hash ackDetails)) v fun
        | .ok _, u => ∃ t details, SettledPayment w sessionId tx t ∧ u.paymentSessions = t.paymentSessions ∧
            u.ledger = { t.ledger with reports := t.ledger.reports ++
              [(t.activity, .onPaymentRequestProcessed callbackId tx.hash details)] }
        | .error e, u => SettledPayment w sessionId tx u ∧ (e.instanceOf jsonExceptionClass →
            lib.fails .broadcastTransaction = some e ∨ lib.fails .ackJSON = some e) := by
  unfold removeSession
  rw [ends_bind, ends_modify]
  refine ends_bind_of_throws (R := offLedger) (s := v.settled sessionId)
    (moves_onNewTransaction offLedger_tracking.toIgnoresNews
      (moves_trackTransaction offLedger_tracking) lib tx) (throws_onNewTransaction tx) ?_ ?_
  · rintro _ t ht
    refine ends_mono (ends_finishAck tx callbackId) fun r u hu => ?_
    cases r with
    | ok _ =>
      obtain ⟨hs, details, hu⟩ := hu
      exact ⟨t, details, (hv.settled sessionId).offLedger ht, hs, hu⟩
    | error e =>
      obtain ⟨rfl, h⟩ := hu
      refine ⟨(hv.settled sessionId).offLedger ht, fun hj => h.resolve_left ?_⟩
      rintro ⟨-, rfl⟩
      rw [nullPointer_not_json] at hj
      exact Bool.false_ne_true hj
  · rintro e t ht he
    refine ⟨(hv.settled sessionId).offLedger ht, fun hj => ?_⟩
    rw [he] at hj
    exact absurd hj Bool.false_ne_true

theorem ends_onAck (sessionId : Int32) (tx : Transaction) (callbackId : Int32) :
    Ends (onAck lib sessionId tx callbackId) w
      fun r v => Acked lib sessionId tx callbackId w.activity w.ledger r v.ledger := by
  unfold onAck
  rw [ends_catchIf, ends_bind]
  refine ends_mono (ends_commitTx tx) fun r v hv => ?_
  cases r with
  | error e =>
    obtain rfl := hv
    dsimp only
    split
    · refine ends_mono (ends_report rfl) fun r t ⟨hr, ht⟩ => ?_
      rw [hr, ht]
      exact .failed e
    · exact .dropped e
  | ok _ =>
    refine ends_mono (ends_settle hv sessionId callbackId) fun r u hu => ?_
    cases r with
    | ok _ =>
      obtain ⟨t, details, ht, -, hu⟩ := hu
      dsimp only
      rw [hu, ht.ledger, ht.activity]
      exact .settled details
    | error e =>
      obtain ⟨hu, h⟩ := hu
      dsimp only
      split
      · next hj =>
        refine ends_mono (ends_report rfl) fun r x ⟨hr, hx⟩ => ?_
        rw [hr, hx, hu.ledger, hu.activity]
        exact .misreported hj (h hj)
      · rw [hu.ledger]
        exact .lost e

/-- How a completion can end. -/
inductive Completing (lib : Lib) (before : Ledger) :
    Pending → Option Throwable → Except Throwable Unit → Ledger → Prop
  | sent (tx : Transaction) (failure : Option Throwable) :
      Completing lib before (.sent tx) failure (.ok ()) before
  | loaded {callbackId : Int32} {r : Except Throwable Unit} {L : Ledger} :
      Loading 0 callbackId before r L → Completing lib before (.session callbackId) none r L
  | loadFailed (callbackId : Int32) (e : Throwable) :
      Completing lib before (.session callbackId) (some e) (.ok ()) { before with
        reports := before.reports ++ [(0, .onPaymentRequestLoadFailed callbackId e)] }
  | acked {sessionId callbackId : Int32} {tx : Transaction} {call : Nat}
      {r : Except Throwable Unit} {L : Ledger} :
      Acked lib sessionId tx callbackId call before r L →
      Completing lib before (.ack sessionId tx callbackId call) none r L
  | ackFailed (sessionId callbackId : Int32) (tx : Transaction) (call : Nat) (e : Throwable) :
      Completing lib before (.ack sessionId tx callbackId call) (some e) (.ok ()) { before with
        reports := before.reports ++ [(call, .onPaymentRequestProcessingFailed callbackId e)] }
  | broadcast (sessionId callbackId : Int32) (tx : Transaction) (call : Nat) :
      Completing lib before (.broadcast sessionId tx callbackId call) none (.ok ()) { before with
        removals := before.removals ++ [(call, sessionId)]
        reports := before.reports ++ [(call, .onPaymentRequestProcessed callbackId tx.hash [])] }
  | broadcastFailed (sessionId callbackId : Int32) (tx : Transaction) (call : Nat) (e : Throwable) :
      Completing lib before (.broadcast sessionId tx callbackId call) (some e) (.ok ())
        { before with reports :=
            before.reports ++ [(call, .onPaymentRequestProcessingFailed callbackId e)] }

theorem ends_onSuccess (future : Pending) (ha : w.activity = future.call) :
    Ends (onSuccess lib future) w fun r v => Completing lib w.ledger future none r v.ledger := by
  cases future with
  | session callbackId =>
    refine ends_mono (ends_onSessionLoaded callbackId) fun r v h => ?_
    rw [ha] at h
    exact .loaded h
  | ack sessionId tx callbackId call =>
    refine ends_mono (ends_onAck sessionId tx callbackId) fun r v h => ?_
    rw [ha] at h
    exact .acked h
  | broadcast sessionId tx callbackId call =>
    unfold onSuccess onPaymentBroadcast removeSession
    rw [ends_bind, ends_modify]
    refine ends_mono (ends_report (w := w.settled sessionId) rfl) fun r v ⟨hr, hv⟩ => ?_
    have hs : (w.settled sessionId).ledger = { w.ledger with
        removals := w.ledger.removals ++ [(w.activity, sessionId)] } := rfl
    have ha' : (w.settled sessionId).activity = call := ha
    rw [hr, hv, hs, ha', ha]
    exact .broadcast sessionId callbackId tx call
  | sent tx =>
    refine (ends_native).mpr ?_
    rw [ledger_note rfl]
    exact .sent tx none

theorem ends_onFailure (future : Pending) (error : Throwable) (ha : w.activity = future.call) :
    Ends (onFailure error future) w
      fun r v => Completing lib w.ledger future (some error) r v.ledger := by
  cases future with
  | session callbackId =>
    refine ends_mono (ends_report rfl) fun r v ⟨hr, hv⟩ => ?_
    rw [hr, hv, ha]
    exact .loadFailed callbackId error
  | ack sessionId tx callbackId call =>
    refine ends_mono (ends_report rfl) fun r v ⟨hr, hv⟩ => ?_
    rw [hr, hv, ha]
    exact .ackFailed sessionId callbackId tx call error
  | broadcast sessionId tx callbackId call =>
    refine ends_mono (ends_report rfl) fun r v ⟨hr, hv⟩ => ?_
    rw [hr, hv, ha]
    exact .broadcastFailed sessionId callbackId tx call error
  | sent tx =>
    refine (ends_native).mpr ?_
    rw [ledger_note rfl]
    exact .sent tx (some error)

end BitcoinKit

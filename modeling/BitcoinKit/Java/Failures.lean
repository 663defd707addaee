import BitcoinKit.Java.Passwords
import BitcoinKit.Java.Step

/-! What the steps of a payment throw, as functions of their arguments and of the state they start in.
    Such a function is told everything the step reads and nothing the step computes, so it says
    beforehand whether the step will throw, and what.

        load     stream, parse, wrong network, expired, verification, JSON
        pay      session, outputs, key, coins, refund key, submission or commit and broadcast
        ack      commit, report, broadcast, JSON -/

namespace BitcoinKit
open Schemes

variable {lib : Lib} {w : World} {α β : Type}

/-- The code throws `failure`, and returns if there is none. -/
def Fails (code : Java α) (w : World) (failure : Option Throwable) : Prop :=
  Ends code w fun r _ => thrown r = failure

theorem fails_bind {m : Java α} {f : α → Java β} {p q : Option Throwable}
    (h : Ends m w fun r v => thrown r = p ∧ ∀ a, r = .ok a → Fails (f a) v q) :
    Fails (m >>= f) w (p <|> q) := by
  unfold Fails
  rw [ends_bind]
  refine ends_mono h fun r v ⟨hr, hf⟩ => ?_
  cases r with
  | ok a => rw [← hr]; exact hf a rfl
  | error e => rw [← hr]; rfl

/-- Code followed by code that only returns. -/
theorem fails_then {m : Java α} {f : α → Java β} {p : Option Throwable} (h : Fails m w p)
    (hf : ∀ a v, Fails (f a) v none) : Fails (m >>= f) w p := by
  have hp : (p <|> none) = p := by cases p <;> rfl
  rw [← hp]
  exact fails_bind (ends_mono h fun r v hr => ⟨hr, fun a _ => hf a v⟩)

theorem uncaught_some (p : Throwable → Bool) (e : Throwable) :
    uncaughtRefusal p (some e) = if p e then none else some e := by
  rw [uncaughtRefusal, Option.filter_some]
  cases p e <;> rfl

/-- A handler for `p` that returns. -/
theorem fails_answering {m : Java α} {p : Throwable → Bool} {f : Throwable → Java α}
    {failure : Option Throwable} (h : Fails m w failure)
    (hf : ∀ e v, p e → Fails (f e) v none) :
    Fails (catchIf p m f) w (uncaughtRefusal p failure) := by
  unfold Fails
  rw [ends_catchIf]
  refine ends_mono h fun r v hr => ?_
  rw [← hr]
  cases r with
  | ok a => rfl
  | error e =>
    dsimp only
    rw [thrown, uncaught_some]
    split
    · next hp => exact hf e v hp
    · rfl

theorem fails_renaming {m : Java α} {failure : Option Throwable} (h : Fails m w failure) :
    Fails (catchIf (Throwable.instanceOf keyCrypterExceptionClass) m
      fun e => throw (wrongPasswordFrom e)) w (failure.map renamed) := by
  unfold Fails
  rw [ends_catchIf]
  refine ends_mono h fun r v hr => ?_
  rw [← hr]
  cases r with
  | ok a => rfl
  | error e =>
    dsimp only
    split
    · next hkc => simp [thrown, renamed, hkc]
    · next hkc => simp [thrown, renamed, hkc]

theorem fails_call (site : Site) : Fails (lib.call site) w (lib.fails site) := by
  unfold Fails
  rw [ends_call]
  cases lib.fails site <;> rfl

/-! ### Loading a request -/

def validationFailure (lib : Lib) (w : World) (session : PaymentSession) : Option Throwable :=
  if some session.networkParams ≠ w.networkParams then
    some (wrongNetworkException "This payment request is meant for a different Bitcoin network")
  else if session.isExpired lib.now then some (expiredException "PaymentRequest is expired")
  else uncaughtRefusal (Throwable.instanceOf paymentRequestExceptionClass) (lib.fails .verifyPki)

def acceptFailure (lib : Lib) (w : World) (session : PaymentSession) : Option Throwable :=
  validationFailure lib w session <|> lib.fails .requestJSON

/-- The exceptions a file is reported as not loaded for. -/
def isLoadFailure (e : Throwable) : Bool :=
  e.instanceOf invalidProtocolBufferExceptionClass || e.instanceOf jsonExceptionClass ||
    e.instanceOf paymentRequestExceptionClass

/-- What goes wrong with a file once there is a stream. -/
def loadRefusal (lib : Lib) (w : World) : Option Throwable :=
  lib.fails .parsePaymentRequest <|> lib.fails .newPaymentSession <|>
    acceptFailure lib w lib.loadedSession

def openFileFailure (lib : Lib) (w : World) (path : String) : Option Throwable :=
  thrown (lib.requestStream path) <|> uncaughtRefusal isLoadFailure (loadRefusal lib w)

def openURLFailure (lib : Lib) (url : String) : Option Throwable := thrown (lib.createFromUrl url)

def sessionFailure (lib : Lib) (w : World) : Option Throwable :=
  uncaughtRefusal (Throwable.instanceOf exceptionClass) (acceptFailure lib w lib.loadedSession)

theorem fails_validation (session : PaymentSession) :
    Fails (validatePaymentRequest lib session) w (validationFailure lib w session) := by
  unfold Fails validatePaymentRequest validationFailure
  rw [ends_bind, ends_get]
  dsimp only
  rw [ends_ite]
  split
  · rfl
  · rw [ends_ite]
    split
    · rfl
    · exact fails_answering (fails_call .verifyPki) fun e v _ => rfl

theorem fails_accept (callbackId : Int32) (session : PaymentSession) :
    Fails (acceptSession lib callbackId session) w (acceptFailure lib w session) := by
  unfold acceptSession
  refine fails_bind (ends_mono (fails_validation session) fun r v hr => ⟨hr, fun _ _ => ?_⟩)
  unfold storeSession getPaymentRequestDetails Fails
  simp only [ends_bind, ends_get, ends_modify, ends_pure, ends_call]
  cases lib.fails .requestJSON with
  | some e => rfl
  | none =>
    cases session.pkiVerificationData with
    | none => rfl
    | some pki => rfl

theorem fails_load (callbackId : Int32) : Fails (do
    lib.call .parsePaymentRequest
    lib.call .newPaymentSession
    let session ← newSession lib
    acceptSession lib callbackId session) w (loadRefusal lib w) := by
  unfold Fails newSession loadRefusal
  simp only [ends_bind, ends_call, ends_get, ends_modify, ends_pure]
  cases lib.fails .parsePaymentRequest with
  | some e => rfl
  | none =>
    cases lib.fails .newPaymentSession with
    | some e => rfl
    | none => exact fails_accept callbackId _

theorem fails_openFile (path : String) (callbackId : Int32) :
    Fails (openPaymentRequestFromFile lib path callbackId) w (openFileFailure lib w path) := by
  unfold openPaymentRequestFromFile
  refine fails_bind (ends_result.mpr ⟨rfl, fun _ _ => ?_⟩)
  unfold Fails
  rw [ends_tryCatch]
  refine ends_mono (fails_load callbackId) fun r v hr => ?_
  rw [← hr]
  cases r with
  | ok a => rfl
  | error e =>
    dsimp only
    rw [thrown, uncaught_some, isLoadFailure]
    simp only [ends_ite]
    cases e.instanceOf invalidProtocolBufferExceptionClass with
    | true => rfl
    | false =>
      cases e.instanceOf jsonExceptionClass with
      | true => rfl
      | false =>
        cases e.instanceOf paymentRequestExceptionClass with
        | true => rfl
        | false => rfl

theorem fails_openURL (url : String) (callbackId : Int32) :
    Fails (openPaymentRequestFromURL lib url callbackId) w (openURLFailure lib url) := by
  unfold Fails openPaymentRequestFromURL addCallback openURLFailure
  rw [ends_bind, ends_result]
  cases lib.createFromUrl url <;> rfl

theorem fails_onSessionLoaded (callbackId : Int32) :
    Fails (onSessionLoaded lib callbackId) w (sessionFailure lib w) := by
  unfold Fails onSessionLoaded newSession
  simp only [ends_bind, ends_get, ends_modify, ends_pure]
  exact fails_answering (fails_accept callbackId _) fun e v _ => rfl

/-! ### Committing and broadcasting -/

def commitFailure (lib : Lib) (w : World) (tx : Transaction) : Option Throwable :=
  match w.wallet with
  | none => some nullPointerException
  | some ref => lib.fails .commitTx <|>
      if hasKey Transaction.hash (w.wallets.cell ref).transactions tx then
        some (illegalArgumentException "commitTx called on the same transaction twice")
      else none

def broadcastFailure (lib : Lib) (w : World) : Option Throwable :=
  if w.peerGroup.isNone then some nullPointerException else lib.fails .broadcastTransaction

theorem fails_commit (tx : Transaction) : Fails (lib.commitTx tx) w (commitFailure lib w tx) := by
  unfold Fails Lib.commitTx theWallet modifyWallet commitFailure
  simp only [ends_bind, ends_get, ends_deref, ends_pure, ends_call, ends_ite, ends_throw,
    ends_modify]
  cases w.wallet with
  | none => rfl
  | some ref =>
    dsimp only
    cases lib.fails .commitTx with
    | some e => rfl
    | none =>
      dsimp only
      split
      · rfl
      · rfl

theorem fails_broadcast : Fails lib.broadcastTransaction w (broadcastFailure lib w) := by
  unfold Fails Lib.broadcastTransaction broadcastFailure
  simp only [ends_bind, ends_get, ends_deref]
  cases w.peerGroup with
  | none => rfl
  | some group => exact fails_call .broadcastTransaction

/-! ### Paying a request -/

/-- The key a password gives, if there is a password. -/
def keyFor (lib : Lib) (w : World) (password : Option Chars) : Except Throwable (Option Bytes) :=
  match password with
  | none => .ok none
  | some chars =>
    match w.wallet with
    | none => .error nullPointerException
    | some ref =>
      match (w.wallets.cell ref).keyCrypter with
      | none => .error (wrongPasswordException "Wallet is not protected.")
      | some keyCrypter => (lib.deriveKey keyCrypter chars).map some

def sendPaymentFailure (lib : Lib) (session : PaymentSession) : Option Throwable :=
  if session.paymentUrl.isNone then none
  else if session.isExpired lib.now then some (expiredException "PaymentRequest is expired")
  else lib.fails .sendPayment

/-- The transaction a completed request becomes. -/
def World.builds (w : World) (request : SendRequest) (done : CompletedTx) : Transaction :=
  ⟨w.nextTransaction, done.hash, done.inputs, request.origin.map PaymentSession.ref⟩

def submitFailure (lib : Lib) (w : World) (session : PaymentSession) (request : SendRequest)
    (key : Option Bytes) : Option Throwable :=
  match w.wallet with
  | none => some nullPointerException
  | some ref =>
    match lib.completeTx (w.wallets.cell ref) request key with
    | .error e => some e
    | .ok done =>
      if (w.wallets.cell ref).keys = [] then some indexOutOfBoundsException
      else sendPaymentFailure lib session <|>
        if session.paymentUrl.isNone then
          commitFailure lib w (w.builds request done) <|> broadcastFailure lib w
        else none

def payFailure (lib : Lib) (w : World) (sessionId : Int32) (password : Option Chars) :
    Option Throwable :=
  (match w.paymentSessions sessionId with
    | none => some nullPointerException
    | some session =>
      match lib.getSendRequest session with
      | .error e => some e
      | .ok outputs =>
        match keyFor lib w password with
        | .error e => some e
        | .ok key => submitFailure lib w session ⟨outputs, some session⟩ key).map renamed

theorem fails_commitAndBroadcast (tx : Transaction) (future : Nat → Pending) : Fails (do
    lib.commitTx tx
    lib.broadcastTransaction
    addCallback future) w (commitFailure lib w tx <|> broadcastFailure lib w) := by
  refine fails_bind (ends_mono (ends_and (fails_commit tx) (ends_commitTx tx)) ?_)
  rintro r v ⟨hr, hv⟩
  refine ⟨hr, fun a ha => ?_⟩
  rw [ha] at hv
  have hb : broadcastFailure lib w = broadcastFailure lib v := by
    rw [broadcastFailure, broadcastFailure, hv.peerGroup]
  rw [hb]
  exact fails_then fails_broadcast fun _ _ => rfl

theorem fails_sendPayment (session : PaymentSession) :
    Ends (lib.sendPayment session) w fun r v => thrown r = sendPaymentFailure lib session ∧
      v = w ∧ ∀ fack, r = .ok fack → fack = session.paymentUrl.isSome := by
  unfold Lib.sendPayment sendPaymentFailure
  simp only [ends_ite, ends_pure, ends_throw, ends_bind, ends_call]
  split
  · next hu => exact ⟨rfl, trivial, fun fack h => by cases h; simpa using hu⟩
  · next hu =>
    split
    · exact ⟨rfl, trivial, fun fack h => by cases h⟩
    · cases lib.fails .sendPayment with
      | none => exact ⟨rfl, rfl, fun fack h => by cases h; simpa [Option.isSome_iff_ne_none] using hu⟩
      | some e => exact ⟨rfl, rfl, fun fack h => by cases h⟩

/-- A request that has its transaction is submitted, or committed and broadcast. -/
theorem fails_sendOrCommit (session : PaymentSession) (tx : Transaction)
    (ack broadcast : Nat → Pending) : Fails (do
      let fack ← lib.sendPayment session
      if fack then addCallback ack
      else do
        lib.commitTx tx
        lib.broadcastTransaction
        addCallback broadcast) w (sendPaymentFailure lib session <|>
          if session.paymentUrl.isNone then commitFailure lib w tx <|> broadcastFailure lib w
          else none) := by
  refine fails_bind (ends_mono (fails_sendPayment session) fun r v ⟨hr, hv, hfack⟩ => ⟨hr, ?_⟩)
  rintro fack hf
  rw [hfack fack hf, hv]
  cases session.paymentUrl with
  | none => exact fails_commitAndBroadcast tx broadcast
  | some url => rfl

theorem fails_submit (session : PaymentSession) (request : SendRequest)
    (aesKey : Option AesKeyRef) (sessionId callbackId : Int32) :
    Fails (submitPayment lib session request aesKey sessionId callbackId) w
      (submitFailure lib w session request (aesKey.map w.secrets.aesKeys.cell)) := by
  unfold Fails submitPayment submitFailure Lib.complete
  rw [bind_assoc]
  cases hw : w.wallet with
  | none =>
    unfold theWallet
    simp only [bind_assoc, ends_bind, ends_get, ends_deref, hw]
    rfl
  | some ref =>
    rw [ends_bind, ends_theWallet hw]
    simp only [bind_assoc, pure_bind, ends_bind, ends_get, ends_result]
    cases lib.completeTx (w.wallets.cell ref) request (aesKey.map w.secrets.aesKeys.cell) with
    | error e => rfl
    | ok done =>
      have hw' : World.wallet { w with nextTransaction := w.nextTransaction + 1 } = some ref := hw
      simp only [ends_modify, ends_theWallet hw']
      unfold Wallet.firstKey
      cases (w.wallets.cell ref).keys with
      | nil => rfl
      | cons key keys =>
        rw [if_neg (List.cons_ne_nil key keys)]
        dsimp only
        rw [ends_pure]
        exact ends_bind.mp (fails_sendOrCommit session (w.builds request done)
          (fun call => .ack sessionId (w.builds request done) callbackId call)
          (fun call => .broadcast sessionId (w.builds request done) callbackId call))

/-- Deriving the key of a payment, if it has a password: the key holds those bytes. -/
theorem ends_keyFor (array : Option CharArrayRef) :
    Ends (if array.isSome then do
        let key ← aesKeyForPassword lib array
        pure (some key)
      else pure none) w fun
        | .ok key, v => onlySecrets.rel w v ∧
            keyFor lib w (array.map w.arrays.cell) = .ok (key.map v.secrets.aesKeys.cell)
        | .error e, _ => keyFor lib w (array.map w.arrays.cell) = .error e := by
  cases array with
  | none => exact ⟨rfl, rfl⟩
  | some array =>
    unfold aesKeyForPassword
    have hsome : (some array).isSome = true := rfl
    rw [if_pos hsome]
    unfold keyFor
    simp only [bind_assoc, Option.map_some]
    cases hw : w.wallet with
    | none =>
      unfold theWallet
      simp only [ends_bind, ends_get, ends_deref, hw]
    | some ref =>
      rw [ends_bind, ends_theWallet hw]
      dsimp only
      cases (w.wallets.cell ref).keyCrypter with
      | none => rfl
      | some keyCrypter =>
        dsimp only
        rw [ends_bind]
        refine ends_mono (ends_deriveKey keyCrypter) fun r v hv => ?_
        cases r with
        | error e =>
          have hd : lib.deriveKey keyCrypter (w.arrays.cell array) = .error e := hv.2
          rw [hd]
          rfl
        | ok key =>
          have hd : lib.deriveKey keyCrypter (w.arrays.cell array) =
            .ok (v.secrets.aesKeys.cell key) := hv.2
          refine ⟨?_, by rw [hd]; rfl⟩
          rw [hv.1]
          exact rfl

theorem fails_pay (sessionId : Int32) (array : Option CharArrayRef) (callbackId : Int32) :
    Fails (sendPaymentRequest lib sessionId array callbackId) w
      (payFailure lib w sessionId (array.map w.arrays.cell)) := by
  refine fails_renaming ?_
  unfold Fails
  simp only [ends_bind, ends_get, ends_deref, ends_result]
  cases w.paymentSessions sessionId with
  | none => rfl
  | some session =>
    dsimp only
    cases lib.getSendRequest session with
    | error e => rfl
    | ok outputs =>
      dsimp only
      rw [← ends_bind, ends_bind]
      refine ends_mono (ends_keyFor array) fun r v hv => ?_
      cases r with
      | error e => rw [hv]; rfl
      | ok key =>
        obtain ⟨hv, hkey⟩ := hv
        rw [hkey]
        refine ends_wiping (fun _ _ _ h => h) ?_
        have h := @fails_submit lib v session ⟨outputs, some session⟩ key sessionId callbackId
        rw [hv] at h ⊢
        exact h

theorem fails_onBehalfOf {code : Java α} {call : Nat} {failure : Option Throwable}
    (h : Fails code { w with activity := call } failure) : Fails (onBehalfOf call code) w failure := by
  unfold Fails onBehalfOf
  rw [ends_bind, ends_modify]
  exact h

/-- Numbering a payment does not change what it throws. -/
theorem fails_numbered {code : Java Unit} {failure : Option Throwable}
    (h : Fails code { w with calls := w.calls + 1, activity := w.calls + 1 } failure) :
    Fails (numberedPayment code) w failure := by
  unfold Fails numberedPayment
  rw [ends_bind, ends_modify]
  dsimp only
  rw [ends_tryCatch]
  refine ends_mono h fun r v hr => ?_
  rw [← hr]
  cases r <;> rfl

/-! ### Futures -/

/-- What `getWalletAddress` gives. -/
def walletAddress (lib : Lib) (w : World) : Except Throwable Address :=
  match w.wallet with
  | none => .error nullPointerException
  | some ref =>
    match (w.wallets.cell ref).keys with
    | [] => .error indexOutOfBoundsException
    | ecKey :: _ => .ok (lib.toAddress ecKey w.networkParams)

def reportFailure (lib : Lib) (w : World) (tx : Transaction) : Option Throwable :=
  thrown ((lib.view tx).inputs.mapM inputData) <|>
    thrown ((lib.view tx).outputs.mapM (outputData (walletAddress lib w))) <|>
      lib.fails .transactionJSON

/-- A transaction that is tracked already is not reported. -/
def newsFailure (lib : Lib) (w : World) (tx : Transaction) : Option Throwable :=
  if hasKey Transaction.hash w.trackedTransactions tx then none
  else uncaughtRefusal (Throwable.instanceOf jsonExceptionClass) (reportFailure lib w tx)

/-- What goes wrong with an ack. -/
def ackRefusal (lib : Lib) (w : World) (tx : Transaction) : Option Throwable :=
  commitFailure lib w tx <|> newsFailure lib w tx <|> broadcastFailure lib w <|> lib.fails .ackJSON

def ackFailure (lib : Lib) (w : World) (tx : Transaction) : Option Throwable :=
  uncaughtRefusal (Throwable.instanceOf jsonExceptionClass) (ackRefusal lib w tx)

theorem outcome_getWalletAddress (w : World) :
    outcome (getWalletAddress lib w) = walletAddress lib w := by
  have h : Ends (getWalletAddress lib) w fun r _ => r = walletAddress lib w := by
    unfold getWalletAddress theWallet Wallet.firstKey walletAddress
    simp only [ends_bind, ends_get, ends_deref, ends_pure]
    cases w.wallet with
    | none => rfl
    | some ref =>
      dsimp only
      cases (w.wallets.cell ref).keys with
      | nil => rfl
      | cons ecKey keys => rfl
  exact h

theorem fails_report (tx : Transaction) :
    Fails (getJSONFromTransaction lib tx) w (reportFailure lib w tx) := by
  unfold Fails getJSONFromTransaction reportFailure
  simp only [ends_bind, ends_get, ends_result, ends_call, ends_pure, outcome_getWalletAddress]
  cases (lib.view tx).inputs.mapM inputData with
  | error e => rfl
  | ok inputs =>
    dsimp only
    cases (lib.view tx).outputs.mapM (outputData (walletAddress lib w)) with
    | error e => rfl
    | ok outputs =>
      dsimp only
      cases lib.fails .transactionJSON with
      | none => rfl
      | some e => rfl

/-- The address the output entries of a report are compared with stays. -/
def keepingAddress (lib : Lib) : Along World := keeping (walletAddress lib)

theorem keepingAddress_news : IgnoresNews (keepingAddress lib) where
  confidence _ _ _ := rfl
  news _ _ _ := rfl

theorem reportFailure_keeping {v : World} (h : (keepingAddress lib).rel w v) (tx : Transaction) :
    reportFailure lib v tx = reportFailure lib w tx := by
  have h' : walletAddress lib v = walletAddress lib w := h
  rw [reportFailure, reportFailure, h']

/-- Once its report is there a new transaction is told and tracked, and nothing can go wrong. -/
theorem fails_tellNew (tx : Transaction) (json : Option TransactionJSON) : Fails (do
    lib.interleave .afterSnapshot
    native (.onTransactionChanged tx.hash json)
    let pending ← isPending tx
    if pending then
      lib.interleave .beforeListening
      trackTransaction tx
    else pure ()) w none := by
  unfold Fails Lib.interleave trackTransaction addConfidenceListener
  simp only [ends_bind, ends_modify, ends_native, ends_isPending, ends_ite, ends_get, ends_pure]
  split
  · split <;> rfl
  · rfl

theorem fails_onNewTransaction (tx : Transaction) :
    Fails (onNewTransaction lib tx) w (newsFailure lib w tx) := by
  unfold Fails onNewTransaction newsFailure
  rw [ends_bind, ends_get]
  dsimp only
  rw [ends_ite]
  split
  · rfl
  · have hn : IgnoresNews (keepingAddress lib) := keepingAddress_news
    refine ends_bind_of_throws (P := fun _ => False) (moves_native fun w => hn.news w _ rfl)
      (throws_modify _) (fun _ t ht => ?_) fun _ _ _ h => h.elim
    refine ends_bind_of_throws (P := fun _ => False) (moves_interleave hn.confidence lib _)
      (throws_modify _) (fun _ u hu => ?_) fun _ _ _ h => h.elim
    rw [← reportFailure_keeping ((keepingAddress lib).trans ht hu) tx]
    refine fails_then (fails_answering ?_ fun e v _ => rfl) (fun json v => fails_tellNew tx json)
    exact fails_then (fails_report tx) fun _ _ => rfl

/-- An ack changes neither the address, nor who is tracked, nor the peer group. -/
def keepingSurroundings (lib : Lib) : Along World :=
  keeping fun w => (walletAddress lib w, w.trackedTransactions, w.peerGroup)

theorem ends_commitSurroundings (tx : Transaction) :
    Ends (lib.commitTx tx) w fun _ v => (keepingSurroundings lib).rel w v := by
  unfold Lib.commitTx theWallet modifyWallet
  simp only [ends_bind, ends_get, ends_deref, ends_pure, ends_call, ends_ite, ends_throw,
    ends_modify]
  cases hw : w.wallet with
  | none => rfl
  | some ref =>
    dsimp only
    cases lib.fails .commitTx with
    | some e => rfl
    | none =>
      dsimp only
      split
      · rfl
      · rw [World.changeConfidence]
        split
        · simp [keepingSurroundings, keeping, walletAddress, hw, Wallet.withTransaction]
        · simp [keepingSurroundings, keeping, walletAddress, hw, Wallet.withTransaction]

/-- What an ack's handler throws once the payment is committed. -/
theorem fails_settle {v : World} (hv : (keepingSurroundings lib).rel w v) (sessionId : Int32)
    (tx : Transaction) (callbackId : Int32) : Fails (do
      removeSession sessionId
      onNewTransaction lib tx
      lib.broadcastTransaction
      let ackDetails ← getPaymentRequestAckDetails lib
      native (.onPaymentRequestProcessed callbackId tx.hash ackDetails)) v
      (newsFailure lib w tx <|> broadcastFailure lib w <|> lib.fails .ackJSON) := by
  obtain ⟨haddress, htracked, hgroup⟩ : walletAddress lib v = walletAddress lib w ∧
      v.trackedTransactions = w.trackedTransactions ∧ v.peerGroup = w.peerGroup := by
    simpa [keepingSurroundings, keeping] using hv
  have hreport : reportFailure lib (v.settled sessionId) tx = reportFailure lib w tx :=
    reportFailure_keeping haddress tx
  have hnews : newsFailure lib w tx = newsFailure lib (v.settled sessionId) tx := by
    rw [newsFailure, newsFailure, hreport]
    exact if_congr (by rw [← htracked]; rfl) rfl rfl
  unfold Fails removeSession
  rw [ends_bind, ends_modify, hnews]
  have hgroups : IgnoresTracking (keeping World.peerGroup) :=
    ⟨⟨fun _ _ _ => rfl, fun _ _ _ => rfl⟩, fun _ _ _ => rfl⟩
  have hm := moves_onNewTransaction hgroups.toIgnoresNews (moves_trackTransaction hgroups) lib tx
  refine fails_bind (ends_mono (ends_and (fails_onNewTransaction tx) (ends_of_moves hm)) ?_)
  rintro r u ⟨hr, hu⟩
  refine ⟨hr, fun _ _ => ?_⟩
  have hb : broadcastFailure lib w = broadcastFailure lib u := by
    rw [broadcastFailure, broadcastFailure, show u.peerGroup = _ from hu, ← hgroup]
  rw [hb]
  refine fails_bind (ends_mono fails_broadcast fun r x hr => ⟨hr, fun _ _ => ?_⟩)
  exact fails_then (fails_then (fails_call .ackJSON) fun _ _ => rfl) fun _ _ => rfl

theorem fails_acked (sessionId : Int32) (tx : Transaction) (callbackId : Int32) : Fails (do
    lib.commitTx tx
    removeSession sessionId
    onNewTransaction lib tx
    lib.broadcastTransaction
    let ackDetails ← getPaymentRequestAckDetails lib
    native (.onPaymentRequestProcessed callbackId tx.hash ackDetails)) w (ackRefusal lib w tx) := by
  refine fails_bind (ends_mono (ends_and (fails_commit tx) (ends_commitSurroundings tx)) ?_)
  rintro r v ⟨hr, hv⟩
  exact ⟨hr, fun _ _ => fails_settle hv sessionId tx callbackId⟩

theorem fails_onAck (sessionId : Int32) (tx : Transaction) (callbackId : Int32) :
    Fails (onAck lib sessionId tx callbackId) w (ackFailure lib w tx) :=
  fails_answering (fails_acked sessionId tx callbackId) fun _ _ _ => rfl

def onSuccessFailure (lib : Lib) (w : World) : Pending → Option Throwable
  | .session _ => sessionFailure lib w
  | .ack _ tx _ _ => ackFailure lib w tx
  | .broadcast _ _ _ _ => none
  | .sent _ => none

theorem fails_onSuccess (future : Pending) :
    Fails (onSuccess lib future) w (onSuccessFailure lib w future) := by
  cases future with
  | session callbackId => exact fails_onSessionLoaded callbackId
  | ack sessionId tx callbackId call => exact fails_onAck sessionId tx callbackId
  | broadcast sessionId tx callbackId call => rfl
  | sent tx => rfl

end BitcoinKit

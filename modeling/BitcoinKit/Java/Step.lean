import BitcoinKit.Java.Turns

/-! One step of the machine, as the ledger sees it. Only sending, paying, loading a request and the
    completion of a future write to it; `turn_step` says that and nothing else can happen. -/

namespace BitcoinKit
open Schemes

variable {w : World}

/-- What a label can do to the ledger. -/
inductive Turn (w : World) : Label → Ledger → Prop
  | idle (l : Label) : l.paidSession = none → Turn w l w.ledger
  | sends {lib : Lib} {amount recipient : String} {password : Option Chars}
      {r : Except Throwable Unit} {L : Ledger} : Sending lib 0 w.ledger r L →
      Turn w (.sendCoins lib amount recipient password) L
  | opens (lib : Lib) (url : String) (callbackId : Int32) :
      Turn w (.openPaymentRequestFromURL lib url callbackId)
        { w.ledger with pending := w.pending ++ [.session callbackId] }
  | loads {lib : Lib} {path : String} {callbackId : Int32} {r : Except Throwable Unit}
      {L : Ledger} : Loading 0 callbackId w.ledger r L →
      Turn w (.openPaymentRequestFromFile lib path callbackId) L
  | pays {lib : Lib} {sessionId callbackId : Int32} {password : Option Chars} {L : Ledger} :
      Paying lib (w.paymentSessions sessionId) w.peerGroup (w.calls + 1) sessionId callbackId
        { w.ledger with calls := w.calls + 1 } (.ok ()) L →
      Turn w (.sendPaymentRequest lib sessionId password callbackId) L
  | throws {lib : Lib} {sessionId callbackId : Int32} {password : Option Chars} {e : Throwable}
      {L : Ledger} : Paying lib (w.paymentSessions sessionId) w.peerGroup (w.calls + 1) sessionId
        callbackId { w.ledger with calls := w.calls + 1 } (.error e) L →
      Turn w (.sendPaymentRequest lib sessionId password callbackId)
        { L with threw := L.threw ++ [w.calls + 1] }
  | completes {lib : Lib} {index : Nat} {failure : Option Throwable} {future : Pending}
      {r : Except Throwable Unit} {L : Ledger} : w.pending[index]? = some future →
      Completing lib { w.ledger with pending := w.pending.eraseIdx index } future failure r L →
      Turn w (.complete lib index failure) L

/-- Payment calls are counted, and nothing else is. -/
theorem turn_calls {l : Label} {L : Ledger} (h : Turn w l L) :
    L.calls = w.calls + l.paidSession.toList.length := by
  cases h with
  | idle l hl =>
    rw [hl]
    rfl
  | sends hs => cases hs <;> rfl
  | opens lib url callbackId => rfl
  | loads hl => cases hl <;> rfl
  | pays hp => cases hp <;> rfl
  | throws hp => cases hp <;> rfl
  | completes hf hc =>
    cases hc with
    | loaded hl => cases hl <;> rfl
    | acked ha => cases ha <;> rfl
    | _ => rfl

/-- Code that keeps off the ledger, run on behalf of nobody. -/
theorem turn_of_moves {l : Label} {code : Java Unit} (hl : l.code = onBehalfOf 0 code)
    (hp : l.paidSession = none) (hm : Moves offLedger code) : Turn w l (step w l).ledger := by
  have h : (step w l).ledger = w.ledger := by
    rw [step, hl]
    exact (offLedger_iff.mp (hm { w with activity := 0 })).1
  rw [h]
  exact .idle l hp

theorem moves_drop {α : Type} {R : Along World} {m : Java α} (hm : Moves R m) :
    Moves R (do let _ ← m) := moves_bind hm fun _ => moves_pure _

theorem moves_withPassword {α : Type} {R : Along World}
    (hs : ∀ w s, R.rel w { w with secrets := s }) (password : Option Chars)
    {code : Option CharArrayRef → Java α} (hm : ∀ array, Moves R (code array)) :
    Moves R (withPassword password code) :=
  moves_bind (moves_newCharArray hs password) hm

/-- What code does may be shown from any secrets, if it has to do with none. -/
theorem ends_withPassword {α : Type} (password : Option Chars) {code : Option CharArrayRef → Java α}
    {Q : Except Throwable α → World → Prop}
    (h : ∀ array s, Ends (code array) { w with secrets := s } Q) :
    Ends (withPassword password code) w Q := by
  cases password with
  | none => exact h none w.secrets
  | some chars => exact h (some w.secrets.charArrays.next) _

/-- A transaction from the network gets the next number. -/
theorem loads_withTransaction (w : World) (ref : WalletRef) (hash : Sha256Hash)
    (inputs : List OutPoint) :
    Loads w (w.wallets.write ref ((w.wallets.cell ref).withTransaction
      ⟨w.nextTransaction, hash, inputs, none⟩)) (w.nextTransaction + 1) := by
  refine loads_update (Nat.le_succ _) rfl fun tx htx => ?_
  rcases mem_addKey htx with hmem | ⟨rfl, -⟩
  · exact .inl hmem
  · exact .inr ⟨Nat.le_refl _, Nat.lt_succ_self _⟩

/-! ### Every label -/

/-- The user thread makes a call. -/
def Label.isDelivery : Label → Bool
  | .deliver _ => true
  | _ => false

/-- A request is answered, or a future completes. -/
def Label.answers : Label → Bool
  | .openPaymentRequestFromFile _ _ _ => true
  | .complete _ _ _ => true
  | _ => false

/-- A relation that everything the machine does keeps to, the choice of a network, the answers to
    requests and the lists of listeners apart. -/
structure IgnoresWork (R : Along World) : Prop
    extends IgnoresLifecycle R, IgnoresSending R, IgnoresNews R where
  secrets : ∀ w s, R.rel w { w with secrets := s }
  directories : ∀ w d c, R.rel w { w with dataDirectory := d, checkpointsFilePath := c }
  bookkeeping : ∀ w a c t, R.rel w { w with activity := a, calls := c, threw := t }

/-- What keeps to a relation keeps to a coarser one. -/
theorem IgnoresWork.mono {R S : Along World} (h : ∀ w v, R.rel w v → S.rel w v) (hw : IgnoresWork R) :
    IgnoresWork S where
  keys w a p := h _ _ (hw.keys w a p)
  wallets w ref f hf := h _ _ (hw.wallets w ref f hf)
  chain w g gs s ss := h _ _ (hw.chain w g gs s ss)
  chainFiles w cs := h _ _ (hw.chainFiles w cs)
  saved w ws := h _ _ (hw.saved w ws)
  balance w := h _ _ (hw.balance w)
  network w hn := h _ _ (hw.network w hn)
  wallet w ref file := h _ _ (hw.wallet w ref file)
  loading w ws n c hl := h _ _ (hw.loading w ws n c hl)
  built w n := h _ _ (hw.built w n)
  waiting w p := h _ _ (hw.waiting w p)
  stored w ref tx := h _ _ (hw.stored w ref tx)
  committed w c u cs := h _ _ (hw.committed w c u cs)
  confidence w c u := h _ _ (hw.confidence w c u)
  news w call hc := h _ _ (hw.news w call hc)
  secrets w s := h _ _ (hw.secrets w s)
  directories w d c := h _ _ (hw.directories w d c)
  bookkeeping w a c t := h _ _ (hw.bookkeeping w a c t)

theorem IgnoresTracking.mono {R S : Along World} (h : ∀ w v, R.rel w v → S.rel w v)
    (ht : IgnoresTracking R) : IgnoresTracking S where
  listening w t r := h _ _ (ht.listening w t r)
  confidence w c u := h _ _ (ht.confidence w c u)
  news w call hc := h _ _ (ht.news w call hc)

theorem moves_onBehalfOf {α : Type} {R : Along World}
    (hb : ∀ w a c t, R.rel w { w with activity := a, calls := c, threw := t }) (call : Nat)
    {code : Java α} (hm : Moves R code) : Moves R (onBehalfOf call code) :=
  moves_bind (moves_modify fun w => hb w call w.calls w.threw) fun _ => hm

/-- The labels that take wallets into use, change their keys, or work on the files. -/
def Label.isLifecycle : Label → Bool
  | .setDataDirectory _ => true
  | .start _ => true
  | .createWallet _ _ => true
  | .stop _ => true
  | .resetBlockchain _ => true
  | .deleteBlockchainDataFile _ => true
  | .exportWallet _ _ => true
  | .changeWalletPassword _ _ _ => true
  | _ => false

/-- A relation that payments, queries and the network keep to, the choice of a network, the answers to
    requests and the lists of listeners apart. -/
structure IgnoresTraffic (R : Along World) : Prop extends IgnoresSending R, IgnoresNews R where
  secrets : ∀ w s, R.rel w { w with secrets := s }
  checkpointsPath : ∀ w c, R.rel w { w with checkpointsFilePath := c }
  bookkeeping : ∀ w a c t, R.rel w { w with activity := a, calls := c, threw := t }
  received : ∀ (w : World) ref hash inputs type, R.rel w (w.receive ref hash inputs type)

theorem IgnoresWork.toIgnoresTraffic {R : Along World} (hw : IgnoresWork R) : IgnoresTraffic R where
  toIgnoresSending := hw.toIgnoresSending
  toIgnoresNews := hw.toIgnoresNews
  secrets := hw.secrets
  checkpointsPath w c := hw.directories w _ c
  bookkeeping := hw.bookkeeping
  received w ref hash inputs type := by
    rw [World.receive]
    split
    · exact hw.loading w _ _ _ (loads_withTransaction w ref hash inputs)
    · exact R.refl w

/-- Answers to requests, with everything else the machine does. -/
theorem moves_answering {R : Along World} (hw : IgnoresTraffic R) (hp : IgnoresPayments R)
    (ht : ∀ tx, Moves R (trackTransaction tx)) (ho : ∀ call, Moves R (native call)) (l : Label)
    (hl : l.answers = true) : Moves R l.code := by
  have hnew := moves_onNewTransaction hw.toIgnoresNews ht
  cases l with
  | openPaymentRequestFromFile lib path callbackId =>
    exact moves_onBehalfOf hw.bookkeeping 0
      (moves_openPaymentRequestFromFile hp.toIgnoresAnswers lib path callbackId)
  | complete lib index failure =>
    refine moves_bind moves_get fun w => ?_
    split
    · exact moves_pure _
    · refine moves_bind (moves_modify fun w => hw.waiting w _) fun _ =>
        moves_onBehalfOf hw.bookkeeping _ ?_
      split
      · exact moves_onSuccess hp lib (hnew lib) _ fun _ _ => ho _
      · exact moves_onFailure hp.toIgnoresAnswers _ _ fun _ _ => ho _
  | _ => cases hl

/-- The user thread makes its next call; what the call throws is reported. -/
theorem moves_deliver {R : Along World} (hw : IgnoresTraffic R) (ht : IgnoresTracking R) (lib : Lib) :
    Moves R (Label.deliver lib).code := by
  refine moves_onBehalfOf hw.bookkeeping 0 (moves_bind moves_get fun w => ?_)
  split
  · exact moves_pure _
  · refine moves_bind (moves_modify fun w => ht.confidence w w.confidence _) fun _ => ?_
    exact moves_tryCatch (moves_handle ht lib _) fun e => moves_native fun w => ht.news w _ rfl

/-- The code of every label outside the lifecycle but a delivery, once the answers are seen to. -/
theorem moves_traffic {R : Along World} (hw : IgnoresTraffic R) (l : Label)
    (hl : l.isLifecycle = false) (hd : l.isDelivery = false)
    (hset : ∀ testing, l = .setTestingNetwork testing → Moves R (setTestingNetwork testing))
    (ha : l.answers = true → Moves R l.code) : Moves R l.code := by
  have hb {code : Java Unit} (hm : Moves R code) : Moves R (onBehalfOf 0 code) :=
    moves_onBehalfOf hw.bookkeeping 0 hm
  have hs := hw.secrets
  cases l with
  | setTestingNetwork testing => exact hb (hset testing rfl)
  | setCheckpointsFilePath path => exact hb (moves_setCheckpointsFilePath hw.checkpointsPath path)
  | signMessage lib message password =>
    exact hb (moves_withPassword hs password fun array =>
      moves_drop (moves_signMessage hs lib message array))
  | exportPrivateKey lib password =>
    exact hb (moves_withPassword hs password fun array =>
      moves_drop (moves_exportPrivateKey hs lib array))
  | isPasswordCorrect lib password =>
    exact hb (moves_withPassword hs password fun array =>
      moves_drop (moves_isPasswordCorrect hs lib array))
  | sendCoins lib amount recipient password =>
    exact hb (moves_withPassword hs password fun array =>
      moves_sendCoins hw.toIgnoresSending hs lib amount recipient array)
  | openPaymentRequestFromFile lib path callbackId => exact ha rfl
  | openPaymentRequestFromURL lib url callbackId =>
    exact hb (moves_openPaymentRequestFromURL hw.toIgnoresSending lib url callbackId)
  | sendPaymentRequest lib sessionId password callbackId =>
    refine moves_bind (moves_modify fun w => hw.bookkeeping w _ _ w.threw) fun _ => ?_
    refine moves_tryCatch ?_ fun e => moves_bind (moves_modify fun w =>
      hw.bookkeeping w w.activity w.calls _) fun _ => moves_throw e
    exact moves_withPassword hs password fun array =>
      moves_sendPaymentRequest hw.toIgnoresSending hs lib sessionId array callbackId
  | complete lib index failure => exact ha rfl
  | receive ref hash inputs type =>
    exact hb (moves_modify fun w => hw.received w ref hash inputs type)
  | coinsReceived ref tx => exact hb (moves_modify fun w => hw.confidence w _ _)
  | coinsSent ref tx => exact hb (moves_modify fun w => hw.confidence w _ _)
  | reorganize ref => exact hb (moves_modify fun w => hw.confidence w _ _)
  | confidenceType tx type =>
    exact hb (moves_modify fun w => rel_changeConfidence hw.toIgnoresNews.confidence w tx type)
  | confidenceDetail tx reason => exact hb (moves_modify fun w => hw.confidence w _ _)
  | deliver lib => cases hd
  | _ => cases hl

/-- The code of every label outside the lifecycle. -/
theorem moves_offLifecycle {R : Along World} (hw : IgnoresTraffic R) (hp : IgnoresPayments R)
    (ht : IgnoresTracking R) (hset : ∀ w n, R.rel w { w with networkParams := n })
    (ho : ∀ call, Moves R (native call)) (l : Label) (hl : l.isLifecycle = false) : Moves R l.code := by
  cases hd : l.isDelivery with
  | false =>
    refine moves_traffic hw l hl hd (fun testing _ => moves_setTestingNetwork hset testing) fun ha => ?_
    exact moves_answering hw hp (moves_trackTransaction ht) ho l ha
  | true =>
    cases l with
    | deliver lib => exact moves_deliver hw ht lib
    | _ => cases hd

/-- The code of every label but a delivery, once tracking, the reset and the answers are seen to. -/
theorem moves_code {R : Along World} (hw : IgnoresWork R)
    (ht : ∀ tx, Moves R (trackTransaction tx)) (l : Label) (hd : l.isDelivery = false)
    (hr : ∀ lib, l = .resetBlockchain lib → Moves R (resetBlockchain lib))
    (hset : ∀ testing, l = .setTestingNetwork testing → Moves R (setTestingNetwork testing))
    (ha : l.answers = true → Moves R l.code) : Moves R l.code := by
  have hb {code : Java Unit} (hm : Moves R code) : Moves R (onBehalfOf 0 code) :=
    moves_onBehalfOf hw.bookkeeping 0 hm
  have hs := hw.secrets
  have hl := hw.toIgnoresLifecycle
  have hpending := moves_trackPending ht
  have htraffic (h : l.isLifecycle = false) : Moves R l.code :=
    moves_traffic hw.toIgnoresTraffic l h hd hset ha
  cases l with
  | setDataDirectory path => exact hb (moves_setDataDirectory (fun w _ => hw.directories w _ _) path)
  | start lib => exact hb (moves_start hl hpending lib)
  | createWallet lib password =>
    exact hb (moves_withPassword hs password fun array =>
      moves_createWallet hl hs hpending lib array)
  | stop lib => exact hb (moves_stop hl lib)
  | resetBlockchain lib => exact hb (hr lib rfl)
  | deleteBlockchainDataFile lib => exact hb (moves_deleteBlockchainDataFile hl.toIgnoresChain lib)
  | exportWallet lib path => exact hb (moves_exportWallet hl lib path)
  | changeWalletPassword lib old new =>
    exact hb (moves_withPassword hs old fun oldArray => moves_withPassword hs new fun newArray =>
      moves_changeWalletPassword hl.toIgnoresKeys hs lib _ _)
  | _ => exact htraffic rfl

/-- A reset, for a relation that keeps to everything else too. -/
theorem moves_reset {R : Along World} (hw : IgnoresWork R) (ht : IgnoresTracking R)
    (hb : ∀ w, R.rel w { w with blocksToDownload := 0 }) (lib : Lib) : Moves R (resetBlockchain lib) :=
  moves_resetBlockchain hw.toIgnoresLifecycle hb (moves_trackPending (moves_trackTransaction ht))
    (moves_stopTrackingTransaction ht) lib

/-- The code of every label. -/
theorem moves_label {R : Along World} (hw : IgnoresWork R) (ht : IgnoresTracking R) (l : Label)
    (hr : ∀ lib, l = .resetBlockchain lib → Moves R (resetBlockchain lib))
    (hset : ∀ testing, l = .setTestingNetwork testing → Moves R (setTestingNetwork testing))
    (ha : l.answers = true → Moves R l.code) : Moves R l.code := by
  cases hd : l.isDelivery with
  | false => exact moves_code hw (moves_trackTransaction ht) l hd hr hset ha
  | true =>
    cases l with
    | deliver lib => exact moves_deliver hw.toIgnoresTraffic ht lib
    | _ => cases hd

/-- The user thread makes its next call, if there is one; what the call throws is reported. -/
theorem inv_deliver {P : World → Prop} {lib : Lib} (hnil : w.userThread = [] → P { w with activity := 0 })
    (hcons : ∀ call rest, w.userThread = call :: rest →
      Ends (handle lib call) { w with activity := 0, userThread := rest } fun _ v => P v)
    (hthrown : ∀ v e, P v → P { v with natives := v.natives ++ [(v.activity, .onException e)] }) :
    P (step w (.deliver lib)) := by
  have hends : Ends (onBehalfOf 0 (deliverNext lib)) w fun _ v => P v := by
    unfold onBehalfOf deliverNext
    simp only [ends_bind, ends_modify, ends_get]
    cases hq : w.userThread with
    | nil =>
      have hidle := hnil hq
      rw [hq] at hidle
      exact hidle
    | cons call rest =>
      simp only [ends_bind, ends_modify, ends_tryCatch]
      refine ends_mono (hcons call rest hq) fun r v hv => ?_
      cases r with
      | ok _ => exact hv
      | error e => exact hthrown v e hv
  exact hends

/-! ### The ledger -/

theorem activity_sending : IgnoresSending (keeping World.activity) where
  keys _ _ _ := rfl
  built _ _ := rfl
  waiting _ _ := rfl
  stored _ _ _ := rfl
  committed _ _ _ _ := rfl

theorem turn_sendPaymentRequest (lib : Lib) (sessionId : Int32) (password : Option Chars)
    (callbackId : Int32) : Turn w (.sendPaymentRequest lib sessionId password callbackId)
      (step w (.sendPaymentRequest lib sessionId password callbackId)).ledger := by
  have h : Ends (numberedPayment (withPassword password fun array =>
      sendPaymentRequest lib sessionId array callbackId)) w
      fun _ v => Turn w (.sendPaymentRequest lib sessionId password callbackId) v.ledger := by
    unfold numberedPayment
    rw [ends_bind, ends_modify]
    dsimp only
    rw [ends_tryCatch]
    refine ends_withPassword password fun array s => ?_
    have ha := moves_sendPaymentRequest activity_sending (fun _ _ => rfl) lib sessionId array callbackId
    refine ends_mono (ends_and (ends_sendPaymentRequest sessionId array callbackId)
      (ends_of_moves ha)) fun r v ⟨hv, hva⟩ => ?_
    cases r with
    | ok _ => exact .pays hv
    | error e =>
      have hc : v.activity = w.calls + 1 := hva
      have hL : World.ledger { v with threw := v.threw ++ [v.activity] } =
          { v.ledger with threw := v.ledger.threw ++ [v.activity] } := rfl
      dsimp only
      rw [ends_bind, ends_modify]
      dsimp only
      rw [ends_throw, hL, hc]
      exact .throws hv
  exact h

theorem idle_complete {lib : Lib} {index : Nat} {failure : Option Throwable}
    (hf : w.pending[index]? = none) : step w (.complete lib index failure) = w := by
  have h : Ends (completeFuture lib index failure) w fun _ v => v = w := by
    unfold completeFuture
    rw [ends_bind, ends_get]
    dsimp only
    rw [hf]
    rfl
  exact h

theorem completing_step {lib : Lib} {index : Nat} {failure : Option Throwable} {future : Pending}
    (hf : w.pending[index]? = some future) : ∃ r,
      Completing lib { w.ledger with pending := w.pending.eraseIdx index } future failure r
        (step w (.complete lib index failure)).ledger := by
  have h : Ends (completeFuture lib index failure) w fun _ v => ∃ r,
      Completing lib { w.ledger with pending := w.pending.eraseIdx index } future failure r
        v.ledger := by
    unfold completeFuture
    rw [ends_bind, ends_get]
    dsimp only
    rw [hf]
    unfold onBehalfOf
    simp only [ends_bind, ends_modify]
    cases failure with
    | none => exact ends_mono (ends_onSuccess future rfl) fun r v hv => ⟨r, hv⟩
    | some error => exact ends_mono (ends_onFailure future error rfl) fun r v hv => ⟨r, hv⟩
  exact h

theorem turn_complete (lib : Lib) (index : Nat) (failure : Option Throwable) :
    Turn w (.complete lib index failure) (step w (.complete lib index failure)).ledger := by
  cases hf : w.pending[index]? with
  | none =>
    rw [idle_complete hf]
    exact .idle _ rfl
  | some future =>
    obtain ⟨r, hc⟩ := @completing_step w lib index failure future hf
    exact .completes hf hc

/-- Everything a step can do to the ledger. -/
theorem turn_step (w : World) (l : Label) : Turn w l (step w l).ledger := by
  have ht := offLedger_tracking
  have hl := offLedger_lifecycle
  have hk := hl.toIgnoresKeys
  have hs (w : World) (s : Secrets) : offLedger.rel w { w with secrets := s } := rfl
  have hpending := moves_trackPending (moves_trackTransaction ht)
  cases l with
  | setTestingNetwork testing => exact turn_of_moves rfl rfl (moves_setTestingNetwork (fun _ _ => rfl) testing)
  | setDataDirectory path => exact turn_of_moves rfl rfl (moves_setDataDirectory (fun _ _ => rfl) path)
  | setCheckpointsFilePath path =>
    exact turn_of_moves rfl rfl (moves_setCheckpointsFilePath (fun _ _ => rfl) path)
  | start lib => exact turn_of_moves rfl rfl (moves_start hl hpending lib)
  | createWallet lib password =>
    exact turn_of_moves rfl rfl (moves_withPassword hs password fun array =>
      moves_createWallet hl hs hpending lib array)
  | stop lib => exact turn_of_moves rfl rfl (moves_stop hl lib)
  | resetBlockchain lib =>
    exact turn_of_moves rfl rfl
      (moves_resetBlockchain hl (fun _ => rfl) hpending (moves_stopTrackingTransaction ht) lib)
  | deleteBlockchainDataFile lib =>
    exact turn_of_moves rfl rfl (moves_deleteBlockchainDataFile hl.toIgnoresChain lib)
  | exportWallet lib path => exact turn_of_moves rfl rfl (moves_exportWallet hl lib path)
  | changeWalletPassword lib old new =>
    exact turn_of_moves rfl rfl (moves_withPassword hs old fun oldArray =>
      moves_withPassword hs new fun newArray => moves_changeWalletPassword hk hs lib _ _)
  | signMessage lib message password =>
    exact turn_of_moves rfl rfl (moves_withPassword hs password fun array =>
      moves_drop (moves_signMessage hs lib message array))
  | exportPrivateKey lib password =>
    exact turn_of_moves rfl rfl (moves_withPassword hs password fun array =>
      moves_drop (moves_exportPrivateKey hs lib array))
  | isPasswordCorrect lib password =>
    exact turn_of_moves rfl rfl (moves_withPassword hs password fun array =>
      moves_drop (moves_isPasswordCorrect hs lib array))
  | sendCoins lib amount recipient password =>
    have h : Ends (onBehalfOf 0 (withPassword password (sendCoins lib amount recipient))) w
        fun _ v => Turn w (.sendCoins lib amount recipient password) v.ledger := by
      unfold onBehalfOf
      rw [ends_bind, ends_modify]
      refine ends_withPassword password fun array s => ?_
      exact ends_mono (ends_sendCoins amount recipient array) fun r v hv => .sends hv
    exact h
  | openPaymentRequestFromFile lib path callbackId =>
    have h : Ends (onBehalfOf 0 (openPaymentRequestFromFile lib path callbackId)) w
        fun _ v => Turn w (.openPaymentRequestFromFile lib path callbackId) v.ledger := by
      unfold onBehalfOf
      rw [ends_bind, ends_modify]
      exact ends_mono (ends_openPaymentRequestFromFile path callbackId) fun r v hv => .loads hv
    exact h
  | openPaymentRequestFromURL lib url callbackId =>
    have h : Ends (onBehalfOf 0 (openPaymentRequestFromURL lib url callbackId)) w
        fun _ v => Turn w (.openPaymentRequestFromURL lib url callbackId) v.ledger := by
      unfold onBehalfOf openPaymentRequestFromURL addCallback
      simp only [ends_bind, ends_modify, ends_result]
      cases lib.createFromUrl url with
      | error e => exact .idle _ rfl
      | ok _ => exact .opens lib url callbackId
    exact h
  | sendPaymentRequest lib sessionId password callbackId =>
    exact turn_sendPaymentRequest lib sessionId password callbackId
  | complete lib index failure => exact turn_complete lib index failure
  | receive ref hash inputs type =>
    refine turn_of_moves rfl rfl (moves_modify fun w => ?_)
    rw [World.receive]
    split
    · exact hl.loading w _ _ _ (loads_withTransaction w ref hash inputs)
    · exact offLedger.refl w
  | coinsReceived ref tx => exact turn_of_moves rfl rfl (moves_modify fun w => ht.confidence w _ _)
  | coinsSent ref tx => exact turn_of_moves rfl rfl (moves_modify fun w => ht.confidence w _ _)
  | reorganize ref => exact turn_of_moves rfl rfl (moves_modify fun w => ht.confidence w _ _)
  | confidenceType tx type =>
    exact turn_of_moves rfl rfl (moves_modify fun w => rel_changeConfidence ht.confidence w tx type)
  | confidenceDetail tx reason =>
    exact turn_of_moves rfl rfl (moves_modify fun w => ht.confidence w _ _)
  | deliver lib =>
    refine turn_of_moves rfl rfl (moves_bind moves_get fun w => ?_)
    split
    · exact moves_pure _
    · refine moves_bind (moves_modify fun w => ht.confidence w w.confidence _) fun _ => ?_
      refine moves_tryCatch (moves_handle ht lib _) fun e => moves_native fun w => ?_
      exact ht.news w _ rfl

end BitcoinKit

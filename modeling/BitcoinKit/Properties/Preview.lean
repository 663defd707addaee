import Mathlib.Algebra.Order.Ring.Int
import BitcoinKit.Java.Failures
import BitcoinKit.Java.Preview
import BitcoinKit.Java.Rekeying
import BitcoinKit.Java.Turns
import BitcoinKit.Properties.Report

/-! The preview of a fee, against the send it previews. Both come to `completeTx`, one without a key:

        preview   low 32 bits of the amount ≠ 0 ─▶ completeTx ─▶ (refused a signature) ─▶ fee of the draft
                                          = 0 ─▶ default
        send      completeTx with the key ─▶ commit ─▶ broadcast

    What bitcoinj is taken to do is in two structures: `Declared`, which exceptions a method throws, and
    `SignsLast`, that the key plays no part before the signing. -/

namespace BitcoinKit
open Schemes

variable {lib : Lib} {drafts : Drafts} {w : World} {wallet : Wallet} {request : SendRequest}
  {key : Bytes} {α : Type}

/-! ### Fees and failures -/

/-- The amounts that go in, where they are known, and those that come out. -/
def TransactionView.amounts (view : TransactionView) : List (Option Int) × List Int :=
  (view.inputs.map InputView.connectedValue, view.outputs.map OutputView.value)

/-- Inputs minus outputs. -/
def TransactionView.fee (view : TransactionView) : Int :=
  (view.inputs.filterMap InputView.connectedValue).sum - (view.outputs.map OutputView.value).sum

theorem fee_congr {a b : TransactionView} (h : a.amounts = b.amounts) : a.fee = b.fee := by
  obtain ⟨hin, hout⟩ := Prod.ext_iff.mp h
  have hknown (view : TransactionView) : view.inputs.filterMap InputView.connectedValue =
      (view.inputs.map InputView.connectedValue).filterMap id := by
    rw [List.filterMap_map]
    rfl
  unfold TransactionView.fee
  dsimp only [TransactionView.amounts] at hin hout
  rw [hknown a, hknown b, hin, hout]

theorem toString_injective {a b : Int} (h : toString a = toString b) : a = b := by
  have hread := bigInteger_toString a
  rw [h, bigInteger_toString b] at hread
  exact (Except.ok.inj hread).symm

/-- The low 32 bits of an amount are zero. -/
theorem intValue_eq_zero_iff (n : Nat) : intValue n = 0 ↔ 2 ^ 32 ∣ n := by
  rw [intValue, ← Int32.toInt_inj, Int32.toInt_ofInt]
  change (n : Int).bmod 4294967296 = 0 ↔ 4294967296 ∣ n
  rw [Int.bmod_def]
  omega

/-- A call ends for want of money. -/
def LacksMoney (r : Except Throwable α) : Prop :=
  ∃ e, r = .error e ∧ e.instanceOf insufficientMoneyExceptionClass = true

theorem not_lacksMoney_ok (a : α) : ¬ LacksMoney (.ok a) := by
  rintro ⟨e, he, -⟩
  cases he

theorem lacksMoney_error {e : Throwable} :
    LacksMoney (.error e : Except Throwable α) ↔ e.instanceOf insufficientMoneyExceptionClass = true := by
  simp [LacksMoney]

/-- Renaming an exception of the crypter does not make it one about money. -/
theorem instanceOf_renamed {e : Throwable}
    (h : (renamed e).instanceOf insufficientMoneyExceptionClass = true) :
    e.instanceOf insufficientMoneyExceptionClass = true := by
  unfold renamed at h
  split at h
  · cases h
  · exact h

/-! ### What bitcoinj does -/

/-- The exceptions its methods declare: malformed addresses and lack of money are checked exceptions, the
    first thrown by the parser of addresses only, the second by `completeTx` only, and they are no
    exceptions of the crypter. -/
structure Declared (lib : Lib) : Prop where
  addresses : ∀ params text e, lib.parseAddress params text = .error e →
    e.instanceOf addressFormatExceptionClass = true
  sites : ∀ site e, lib.fails site = some e → e.instanceOf insufficientMoneyExceptionClass = false
  completes : ∀ wallet request key e, lib.completeTx wallet request key = .error e →
    e.instanceOf addressFormatExceptionClass = false
  apart : ∀ wallet request key e, lib.completeTx wallet request key = .error e →
    e.instanceOf insufficientMoneyExceptionClass = true → e.instanceOf keyCrypterExceptionClass = false

/-- Everything about a payment is settled when it comes to be signed, whether that then works, as with a
    right key, or is refused, as without one. -/
structure SignsLast (lib : Lib) (drafts : Drafts) (wallet : Wallet) : Prop where
  /-- What stops a request other than a missing signature stops it with the key, too. -/
  stopped : ∀ request key e, lib.checkAESKey wallet key = .ok true →
    lib.completeTx wallet request none = .error e → e.instanceOf keyCrypterExceptionClass = false →
      lib.completeTx wallet request (some key) = .error e
  /-- The money is counted first. -/
  counted : ∀ request key e, lib.checkAESKey wallet key = .ok true →
    lib.completeTx wallet request (some key) = .error e →
    e.instanceOf insufficientMoneyExceptionClass = true → lib.completeTx wallet request none = .error e
  sameDraft : ∀ request key, lib.checkAESKey wallet key = .ok true →
    (drafts.draft wallet request (some key)).amounts = (drafts.draft wallet request none).amounts
  /-- The draft is the transaction that is handed over. -/
  handedOver : ∀ request key done n, lib.checkAESKey wallet key = .ok true →
    lib.completeTx wallet request (some key) = .ok done →
      (lib.view ⟨n, done.hash, done.inputs, request.origin.map PaymentSession.ref⟩).amounts =
        (drafts.draft wallet request (some key)).amounts
  /-- A payment spends outputs of the wallet. -/
  connected : ∀ request, ∀ input ∈ (drafts.draft wallet request none).inputs,
    input.connectedValue ≠ none

/-! ### The send -/

/-- How a send ends, before the crypter's exceptions are renamed, and what it has committed. -/
inductive Sent (lib : Lib) (wallet : Wallet) (request : SendRequest) (key : Bytes) (w : World) :
    Except Throwable Unit → List (Nat × Transaction) → Prop
  | unmade {e : Throwable} : lib.fails .sendRequestTo = some e →
      Sent lib wallet request key w (.error e) w.commits
  | uncompleted {e : Throwable} : lib.fails .sendRequestTo = none →
      lib.completeTx wallet request (some key) = .error e →
      Sent lib wallet request key w (.error e) w.commits
  | untaken {e : Throwable} {done : CompletedTx} : lib.fails .sendRequestTo = none →
      lib.completeTx wallet request (some key) = .ok done →
      commitFailure lib w (w.builds request done) = some e →
      Sent lib wallet request key w (.error e) w.commits
  | taken {done : CompletedTx} {r : Except Throwable Unit} : lib.fails .sendRequestTo = none →
      lib.completeTx wallet request (some key) = .ok done →
      commitFailure lib w (w.builds request done) = none → thrown r = broadcastFailure lib w →
      Sent lib wallet request key w r (w.commits ++ [(w.activity, w.builds request done)])

/-- Secrets do not matter. -/
theorem sent_secrets {s : Secrets} {r : Except Throwable Unit} {commits : List (Nat × Transaction)}
    (h : Sent lib wallet request key { w with secrets := s } r commits) :
    Sent lib wallet request key w r commits := by
  cases h with
  | unmade hs => exact .unmade hs
  | uncompleted hs hc => exact .uncompleted hs hc
  | untaken hs hc hf => exact .untaken hs hc hf
  | taken hs hc hf hb => exact .taken hs hc hf hb

/-- A send that has its key. -/
theorem sent_withKey {ref : WalletRef} {keyRef : AesKeyRef} (hs : lib.fails .sendRequestTo = none)
    (hw : w.wallet = some ref) : Ends (do
      let tx ← lib.sendCoins request keyRef
      addCallback fun _ => .sent tx) w fun r v =>
        Sent lib (w.wallets.cell ref) request (w.secrets.aesKeys.cell keyRef) w r v.commits := by
  unfold Lib.sendCoins Lib.complete addCallback
  simp only [bind_assoc]
  rw [ends_bind, ends_theWallet hw]
  dsimp only
  rw [ends_bind, ends_get]
  dsimp only
  rw [ends_bind, ends_result, Option.map_some]
  cases hc : lib.completeTx (w.wallets.cell ref) request (some (w.secrets.aesKeys.cell keyRef)) with
  | error e => exact .uncompleted hs hc
  | ok done =>
    dsimp only
    rw [ends_bind, ends_modify]
    simp only [pure_bind]
    rw [ends_bind]
    refine ends_mono (ends_and (ends_commitTx _) (fails_commit _)) fun r u ⟨hu, hf⟩ => ?_
    cases r with
    | error e =>
      rw [hu]
      exact .untaken hs hc hf.symm
    | ok _ =>
      have hcommits : u.commits = w.commits ++ [(w.activity, w.builds request done)] :=
        congrArg Ledger.commits hu.ledger
      dsimp only
      rw [ends_bind]
      refine ends_mono (ends_and ends_broadcast fails_broadcast) fun r v ⟨hv, hb⟩ => ?_
      have hfail : broadcastFailure lib u = broadcastFailure lib w := by
        unfold broadcastFailure
        rw [hu.peerGroup]
      rw [hfail] at hb
      cases r with
      | ok _ =>
        obtain rfl : v = u := hv
        dsimp only
        rw [ends_modify, hcommits]
        exact .taken hs hc hf.symm hb
      | error e =>
        obtain ⟨rfl, -⟩ := hv
        dsimp only
        rw [hcommits]
        exact .taken hs hc hf.symm hb

/-- A send with a password that gives a key, from a protected wallet. -/
theorem sent_sendCoins {ref : WalletRef} {keyCrypter : KeyCrypter} {array : CharArrayRef} {amount : Nat}
    {recipient : String} {address : Address} (hw : w.wallet = some ref)
    (hc : (w.wallets.cell ref).keyCrypter = some keyCrypter)
    (hd : lib.deriveKey keyCrypter (w.arrays.cell array) = .ok key)
    (ha : lib.parseAddress w.networkParams recipient = .ok address) :
    Ends (sendCoins lib (toString amount) recipient (some array)) w fun r v =>
      ∃ r', Sent lib (w.wallets.cell ref) ⟨[(address, amount)], none⟩ key w r' v.commits ∧
        r = r'.mapError renamed := by
  have hbody : Ends (do
      let aToSend ← result (bigInteger (toString amount))
      let w ← get
      let sendToAddress ← result (lib.parseAddress w.networkParams recipient)
      lib.call .sendRequestTo
      let request : SendRequest := ⟨[(sendToAddress, aToSend)], none⟩
      let aesKey ← aesKeyForPassword lib (some array)
      tryFinally
        (do
          let tx ← lib.sendCoins request aesKey
          addCallback fun _ => .sent tx)
        (wipeAesKey (some aesKey))) w fun r v =>
          Sent lib (w.wallets.cell ref) ⟨[(address, amount)], none⟩ key w r v.commits := by
    unfold aesKeyForPassword
    rw [ends_bind, ends_result, bigInteger_ofNat]
    dsimp only
    rw [ends_bind, ends_get]
    dsimp only
    rw [ends_bind, ends_result, ha]
    dsimp only
    rw [ends_bind, ends_call]
    cases hs : lib.fails .sendRequestTo with
    | some e => exact .unmade hs
    | none =>
      simp only [bind_assoc]
      rw [ends_bind, ends_theWallet hw]
      dsimp only
      rw [hc]
      dsimp only
      rw [ends_bind]
      refine ends_mono (ends_deriveFresh array keyCrypter) fun r u hu => ?_
      cases r with
      | error e => cases hd.symm.trans hu.1
      | ok keyRef =>
        obtain ⟨bytes, hbytes, rfl, rfl⟩ := hu
        obtain rfl := Except.ok.inj (hd.symm.trans hbytes)
        refine ends_wiping (fun r v s hv => hv) (ends_mono (sent_withKey hs hw) fun r v hv => ?_)
        have hcell : (w.secrets.aesKeys.alloc key).cell w.secrets.aesKeys.next = key :=
          Heap.cell_alloc_self
        dsimp only at hv
        rw [hcell] at hv
        exact sent_secrets hv
  unfold sendCoins
  rw [ends_catchIf]
  refine ends_mono hbody fun r v hr => ?_
  cases r with
  | ok a => exact ⟨_, hr, rfl⟩
  | error e =>
    dsimp only
    have hrenamed : renamed e = if e.instanceOf keyCrypterExceptionClass then wrongPasswordFrom e else e := rfl
    split
    · next h => exact ⟨_, hr, by rw [Except.mapError, hrenamed, if_pos h]; rfl⟩
    · next h => exact ⟨_, hr, by rw [Except.mapError, hrenamed, if_neg h]⟩

/-! ### The preview -/

section Preview

variable {amount : Nat} {recipient : String}

theorem preview_default (h : 2 ^ 32 ∣ amount ∨ recipient = "") :
    outcome (feeForSendingCoins lib drafts (toString amount) recipient w) =
      .ok (toString drafts.referenceDefaultMinTxFee) := by
  have hends : Ends (feeForSendingCoins lib drafts (toString amount) recipient) w fun r _ =>
      r = .ok (toString drafts.referenceDefaultMinTxFee) := by
    unfold feeForSendingCoins
    rw [ends_catchIf, ends_bind, ends_result, bigInteger_ofNat]
    dsimp only
    rw [if_pos (h.imp_left (intValue_eq_zero_iff amount).mpr)]
    exact rfl
  exact hends

theorem preview_malformed (hd : Declared lib) {e : Throwable}
    (h : lib.parseAddress w.networkParams recipient = .error e) :
    outcome (feeForSendingCoins lib drafts (toString amount) recipient w) =
      .ok (toString drafts.referenceDefaultMinTxFee) := by
  by_cases hz : 2 ^ 32 ∣ amount ∨ recipient = ""
  · exact preview_default hz
  · have hends : Ends (feeForSendingCoins lib drafts (toString amount) recipient) w fun r _ =>
        r = .ok (toString drafts.referenceDefaultMinTxFee) := by
      unfold feeForSendingCoins
      rw [ends_catchIf, ends_bind, ends_result, bigInteger_ofNat]
      dsimp only
      rw [if_neg fun hz' => hz (hz'.imp_left (intValue_eq_zero_iff amount).mp)]
      rw [ends_bind, ends_get]
      dsimp only
      rw [ends_bind, ends_result, h]
      dsimp only
      rw [if_pos (hd.addresses _ _ e h)]
      exact rfl
    exact hends

/-- How a preview ends that gets to making a request. -/
inductive Previewed (lib : Lib) (drafts : Drafts) (wallet : Wallet) (request : SendRequest) :
    Except Throwable String → Prop
  | unmade {e : Throwable} {r : Except Throwable String} : lib.fails .sendRequestTo = some e →
      (∀ e', r = .error e' → e' = e) → Previewed lib drafts wallet request r
  | stopped {e : Throwable} : lib.fails .sendRequestTo = none →
      lib.completeTx wallet request none = .error e → e.instanceOf keyCrypterExceptionClass = false →
      Previewed lib drafts wallet request (.error e)
  | drafted : lib.fails .sendRequestTo = none →
      (∀ e, lib.completeTx wallet request none = .error e →
        e.instanceOf keyCrypterExceptionClass = true) →
      Previewed lib drafts wallet request
        (.ok (toString (getTransactionFee (drafts.draft wallet request none))))

theorem previewed (hd : Declared lib) {ref : WalletRef} {address : Address} (hw : w.wallet = some ref)
    (hz : ¬ 2 ^ 32 ∣ amount) (hne : recipient ≠ "")
    (ha : lib.parseAddress w.networkParams recipient = .ok address) :
    Previewed lib drafts (w.wallets.cell ref) ⟨[(address, amount)], none⟩
      (outcome (feeForSendingCoins lib drafts (toString amount) recipient w)) := by
  have hends : Ends (feeForSendingCoins lib drafts (toString amount) recipient) w fun r _ =>
      Previewed lib drafts (w.wallets.cell ref) ⟨[(address, amount)], none⟩ r := by
    have hlow : ¬ (intValue amount = 0 ∨ recipient = "") := by
      rw [intValue_eq_zero_iff]
      exact fun h => h.elim hz hne
    unfold feeForSendingCoins
    rw [ends_catchIf, ends_bind, ends_result, bigInteger_ofNat]
    dsimp only
    rw [if_neg hlow, ends_bind, ends_get]
    dsimp only
    rw [ends_bind, ends_result, ha]
    dsimp only
    rw [ends_bind, ends_call]
    cases hs : lib.fails .sendRequestTo with
    | some e =>
      dsimp only
      split
      · exact .unmade hs nofun
      · exact .unmade hs fun e' he' => (Except.error.inj he').symm
    | none =>
      dsimp only
      rw [ends_bind, ends_theWallet hw]
      dsimp only
      rw [ends_bind, ends_catchIf, ends_bind, ends_result]
      cases hc : lib.completeTx (w.wallets.cell ref) ⟨[(address, amount)], none⟩ none with
      | ok done => exact .drafted hs fun e he => by cases hc.symm.trans he
      | error e =>
        dsimp only
        cases hk : e.instanceOf keyCrypterExceptionClass with
        | true =>
          refine .drafted hs fun e' he' => ?_
          obtain rfl := Except.error.inj (hc.symm.trans he')
          exact hk
        | false =>
          simp only [Bool.false_eq_true, if_false, hd.completes _ _ _ e hc]
          exact .stopped hs hc hk
  exact hends

end Preview

/-! ### Both -/

/-- No preview is made: there is nothing to send, or nobody to send it to. -/
def Blank (lib : Lib) (w : World) (amount : Nat) (recipient : String) : Prop :=
  amount = 0 ∨ recipient = "" ∨ ∃ e, lib.parseAddress w.networkParams recipient = .error e

/-- The preview agrees with the send that uses the password in `array`. -/
structure PreviewAgrees (lib : Lib) (drafts : Drafts) (w : World) (array : CharArrayRef) (amount : Nat)
    (recipient : String) : Prop where
  assumed : Blank lib w amount recipient →
    outcome (feeForSendingCoins lib drafts (toString amount) recipient w) =
      .ok (toString drafts.referenceDefaultMinTxFee)
  fee : ¬ Blank lib w amount recipient → ∀ tx,
    (after (sendCoins lib (toString amount) recipient (some array) w)).commits =
      w.commits ++ [(w.activity, tx)] →
    outcome (feeForSendingCoins lib drafts (toString amount) recipient w) =
      .ok (toString (lib.view tx).fee)
  money : ¬ Blank lib w amount recipient →
    (LacksMoney (outcome (feeForSendingCoins lib drafts (toString amount) recipient w)) ↔
      LacksMoney (outcome (sendCoins lib (toString amount) recipient (some array) w)))

/-- The default happens to be right: there is enough money, and what would be committed costs just that. -/
def DefaultFits (lib : Lib) (drafts : Drafts) (w : World) (wallet : Wallet) (key : Bytes) (amount : Nat)
    (recipient : String) : Prop :=
  ∀ address, lib.parseAddress w.networkParams recipient = .ok address →
    lib.fails .sendRequestTo = none →
    ¬ LacksMoney (lib.completeTx wallet ⟨[(address, amount)], none⟩ none) ∧
    ∀ done, lib.completeTx wallet ⟨[(address, amount)], none⟩ (some key) = .ok done →
      commitFailure lib w (w.builds ⟨[(address, amount)], none⟩ done) = none →
      (drafts.draft wallet ⟨[(address, amount)], none⟩ none).fee = drafts.referenceDefaultMinTxFee

section Laws

variable (hd : Declared lib) (hl : SignsLast lib drafts wallet)
  (hk : lib.checkAESKey wallet key = .ok true)

include hd in
theorem not_money_of_commitFailure {tx : Transaction} {e : Throwable}
    (h : commitFailure lib w tx = some e) : e.instanceOf insufficientMoneyExceptionClass = false := by
  unfold commitFailure at h
  split at h
  · cases h
    decide
  · cases hf : lib.fails .commitTx with
    | some e' =>
      rw [hf] at h
      cases h
      exact hd.sites _ _ hf
    | none =>
      rw [hf] at h
      split at h
      · cases h
        rfl
      · cases h

include hd in
theorem not_money_of_broadcastFailure {e : Throwable} (h : broadcastFailure lib w = some e) :
    e.instanceOf insufficientMoneyExceptionClass = false := by
  unfold broadcastFailure at h
  split at h
  · cases h
    decide
  · exact hd.sites _ e h

include hd hl hk in
/-- A send lacks money exactly when the request does, key or none. -/
theorem lacksMoney_sent_iff {r : Except Throwable Unit} {commits : List (Nat × Transaction)}
    (h : Sent lib wallet request key w r commits) : LacksMoney (r.mapError renamed) ↔
      lib.fails .sendRequestTo = none ∧ LacksMoney (lib.completeTx wallet request none) := by
  have hother {e : Throwable} (he : e.instanceOf insufficientMoneyExceptionClass = false) :
      ¬ LacksMoney ((Except.error e : Except Throwable Unit).mapError renamed) := by
    rw [Except.mapError, lacksMoney_error]
    intro hrenamed
    rw [instanceOf_renamed hrenamed] at he
    cases he
  -- a request that was completed with the key has the money
  have hcompleted {done : CompletedTx} (hc : lib.completeTx wallet request (some key) = .ok done) :
      ¬ LacksMoney (lib.completeTx wallet request none) := by
    rintro ⟨e, he, hmoney⟩
    have hstop := hl.stopped request key e hk he (hd.apart _ _ _ e he hmoney)
    cases hc.symm.trans hstop
  cases h with
  | unmade hs =>
    refine iff_of_false (hother (hd.sites _ _ hs)) fun h => ?_
    cases h.1.symm.trans hs
  | @uncompleted e hs hc =>
    rw [Except.mapError, lacksMoney_error]
    refine ⟨fun h => ⟨hs, e, hl.counted _ _ _ hk hc (instanceOf_renamed h), instanceOf_renamed h⟩, ?_⟩
    rintro ⟨-, e', he', hmoney⟩
    have hplain := hd.apart _ _ _ e' he' hmoney
    obtain rfl := Except.error.inj (hc.symm.trans (hl.stopped _ _ _ hk he' hplain))
    rw [renamed, hplain]
    exact hmoney
  | untaken hs hc hf =>
    exact iff_of_false (hother (not_money_of_commitFailure hd hf)) fun h => hcompleted hc h.2
  | taken hs hc hf hb =>
    refine iff_of_false ?_ fun h => hcompleted hc h.2
    cases r with
    | ok _ => exact not_lacksMoney_ok _
    | error e => exact hother (not_money_of_broadcastFailure hd hb.symm)

include hd in
/-- So does a preview. -/
theorem lacksMoney_previewed_iff {r : Except Throwable String}
    (h : Previewed lib drafts wallet request r) : LacksMoney r ↔
      lib.fails .sendRequestTo = none ∧ LacksMoney (lib.completeTx wallet request none) := by
  cases h with
  | @unmade e r hs hr =>
    refine iff_of_false ?_ fun h => by cases h.1.symm.trans hs
    rintro ⟨e', he', hmoney⟩
    rw [hr e' he', hd.sites _ _ hs] at hmoney
    cases hmoney
  | stopped hs hc hplain =>
    rw [hc, lacksMoney_error, lacksMoney_error]
    exact ⟨fun h => ⟨hs, h⟩, fun h => h.2⟩
  | drafted hs hsign =>
    refine iff_of_false (not_lacksMoney_ok _) ?_
    rintro ⟨-, e, he, hmoney⟩
    have hplain := hd.apart _ _ _ e he hmoney
    rw [hsign e he] at hplain
    cases hplain

/-- What a send has committed. -/
theorem committed_of_sent {r : Except Throwable Unit} {tx : Transaction}
    (h : Sent lib wallet request key w r (w.commits ++ [(w.activity, tx)])) :
    lib.fails .sendRequestTo = none ∧ ∃ done, lib.completeTx wallet request (some key) = .ok done ∧
      commitFailure lib w (w.builds request done) = none ∧ tx = w.builds request done := by
  generalize hcommits : w.commits ++ [(w.activity, tx)] = commits at h
  cases h with
  | unmade hs => simp at hcommits
  | uncompleted hs hc => simp at hcommits
  | untaken hs hc hf => simp at hcommits
  | @taken done _ hs hc hf hb =>
    have htx : tx = w.builds request done := by simpa using hcommits
    exact ⟨hs, done, hc, hf, htx⟩

theorem commits_of_sent {r : Except Throwable Unit} {commits : List (Nat × Transaction)}
    {done : CompletedTx} (h : Sent lib wallet request key w r commits)
    (hs : lib.fails .sendRequestTo = none)
    (hc : lib.completeTx wallet request (some key) = .ok done)
    (hf : commitFailure lib w (w.builds request done) = none) :
    commits = w.commits ++ [(w.activity, w.builds request done)] := by
  cases h with
  | unmade hs' => cases hs.symm.trans hs'
  | uncompleted _ hc' => cases hc.symm.trans hc'
  | untaken _ hc' hf' =>
    obtain rfl := Except.ok.inj (hc.symm.trans hc')
    cases hf.symm.trans hf'
  | taken _ hc' _ _ =>
    obtain rfl := Except.ok.inj (hc.symm.trans hc')
    rfl

include hl hk in
/-- It costs what the draft says. -/
theorem fee_of_committed {done : CompletedTx}
    (hc : lib.completeTx wallet request (some key) = .ok done) :
    (lib.view (w.builds request done)).fee = (drafts.draft wallet request none).fee :=
  (fee_congr (hl.handedOver request key done _ hk hc)).trans (fee_congr (hl.sameDraft request key hk))

include hl hk in
theorem fee_of_previewed {r : Except Throwable String} {done : CompletedTx}
    (h : Previewed lib drafts wallet request r) (hs : lib.fails .sendRequestTo = none)
    (hc : lib.completeTx wallet request (some key) = .ok done) :
    r = .ok (toString (lib.view (w.builds request done)).fee) := by
  cases h with
  | unmade hs' => cases hs.symm.trans hs'
  | stopped _ he hplain => cases hc.symm.trans (hl.stopped _ _ _ hk he hplain)
  | drafted _ _ =>
    rw [getTransactionFee_eq (hl.connected request), fee_of_committed hl hk hc]
    rfl

end Laws

theorem blank_or (lib : Lib) (w : World) (amount : Nat) (recipient : String) :
    Blank lib w amount recipient ∨
      amount ≠ 0 ∧ recipient ≠ "" ∧ ∃ address, lib.parseAddress w.networkParams recipient = .ok address := by
  by_cases h : amount = 0 ∨ recipient = ""
  · exact .inl (h.imp_right .inl)
  · obtain ⟨hz, hne⟩ := not_or.mp h
    cases ha : lib.parseAddress w.networkParams recipient with
    | ok address => exact .inr ⟨hz, hne, address, rfl⟩
    | error e => exact .inl (.inr (.inr ⟨e, ha⟩))

theorem not_blank {amount : Nat} {recipient : String} {address : Address} (hz : amount ≠ 0)
    (hne : recipient ≠ "") (ha : lib.parseAddress w.networkParams recipient = .ok address) :
    ¬ Blank lib w amount recipient := by
  rintro (h | h | ⟨e, he⟩)
  · exact hz h
  · exact hne h
  · cases ha.symm.trans he

/-- The preview agrees with the send, unless the amount is a positive multiple of 2^32 and the default, which
    is returned for it, is not what the send comes to. -/
theorem preview_agrees_iff (lib : Lib) (drafts : Drafts) (w : World) (ref : WalletRef)
    (keyCrypter : KeyCrypter) (array : CharArrayRef) (key : Bytes) (amount : Nat) (recipient : String)
    (hw : w.wallet = some ref) (hc : (w.wallets.cell ref).keyCrypter = some keyCrypter)
    (hderive : lib.deriveKey keyCrypter (w.arrays.cell array) = .ok key)
    (hright : lib.checkAESKey (w.wallets.cell ref) key = .ok true) (hd : Declared lib)
    (hl : SignsLast lib drafts (w.wallets.cell ref)) :
    PreviewAgrees lib drafts w array amount recipient ↔
      Blank lib w amount recipient ∨ ¬ 2 ^ 32 ∣ amount ∨
        DefaultFits lib drafts w (w.wallets.cell ref) key amount recipient := by
  rcases blank_or lib w amount recipient with hblank | ⟨hz, hne, address, ha⟩
  · refine iff_of_true ⟨fun _ => ?_, fun h => absurd hblank h, fun h => absurd hblank h⟩ (.inl hblank)
    rcases hblank with rfl | rfl | ⟨e, he⟩
    · exact preview_default (.inl (Nat.dvd_zero _))
    · exact preview_default (.inr rfl)
    · exact preview_malformed hd he
  have hnot := not_blank hz hne ha
  obtain ⟨r, hsent, hr⟩ : Ends (sendCoins lib (toString amount) recipient (some array)) w _ :=
    sent_sendCoins hw hc hderive ha
  have hmoney := lacksMoney_sent_iff hd hl hright hsent
  rw [← hr] at hmoney
  by_cases hmultiple : 2 ^ 32 ∣ amount
  · have hpreview := @preview_default lib drafts w amount recipient (.inl hmultiple)
    have hrich : ¬ LacksMoney (outcome (feeForSendingCoins lib drafts (toString amount) recipient w)) := by
      rw [hpreview]
      exact not_lacksMoney_ok _
    have hfits : PreviewAgrees lib drafts w array amount recipient ↔
        DefaultFits lib drafts w (w.wallets.cell ref) key amount recipient := by
      refine ⟨fun h address' ha' hs => ?_, fun h => ⟨fun hblank => absurd hblank hnot, fun _ tx htx => ?_,
        fun _ => iff_of_false hrich fun hlack => ?_⟩⟩
      · obtain rfl := Except.ok.inj (ha.symm.trans ha')
        refine ⟨fun hlack => hrich ((h.money hnot).mpr (hmoney.mpr ⟨hs, hlack⟩)), fun done hdone hf => ?_⟩
        have hcommits := commits_of_sent hsent hs hdone hf
        have hfee := h.fee hnot _ hcommits
        rw [hpreview, fee_of_committed hl hright hdone] at hfee
        exact (toString_injective (Except.ok.inj hfee)).symm
      · rw [htx] at hsent
        obtain ⟨hs, done, hdone, hf, rfl⟩ := committed_of_sent hsent
        rw [hpreview, fee_of_committed hl hright hdone, (h address ha hs).2 done hdone hf]
      · obtain ⟨hs, hlack⟩ := hmoney.mp hlack
        exact (h address ha hs).1 hlack
    rw [hfits]
    exact ⟨fun h => .inr (.inr h), fun h => (h.resolve_left hnot).resolve_left (not_not_intro hmultiple)⟩
  · have hpreviewed := @previewed lib drafts w amount recipient hd ref address hw hmultiple hne ha
    refine iff_of_true ⟨fun hblank => absurd hblank hnot, fun _ tx htx => ?_, fun _ => ?_⟩
      (.inr (.inl hmultiple))
    · rw [htx] at hsent
      obtain ⟨hs, done, hdone, -, rfl⟩ := committed_of_sent hsent
      exact fee_of_previewed hl hright hpreviewed hs hdone
    · rw [hmoney]
      exact lacksMoney_previewed_iff hd hpreviewed

/-! ### A wallet with one coin -/

/-- What a request is to pay. -/
def SendRequest.paid (request : SendRequest) : Nat := (request.outputs.map Prod.snd).sum.toNat

/-- A coin, spent on a payment, a fee of 10000 and change. -/
def spendingCoin (coin paid : Nat) : TransactionView :=
  ⟨0, [⟨false, .ok "own", some coin⟩],
    [⟨.ok (.address "payee"), paid⟩, ⟨.ok (.address "own"), (coin : Int) - paid - 10000⟩], 0, 0, 0⟩

/-- A library whose wallets hold one coin. A transaction's hash is the amount it pays. -/
def Lib.holding (coin : Nat) : Lib :=
  { Lib.fair with
    completeTx := fun _ request key =>
      if coin < request.paid + 10000 then
        .error (.withMessage insufficientMoneyExceptionClass [exceptionClass] "Insufficient money")
      else if key.isNone then .error (keyCrypterException "No key")
      else .ok ⟨request.paid, [⟨5, 0⟩]⟩
    view := fun tx => spendingCoin coin tx.hash }

def draftsOf (coin : Nat) : Drafts := ⟨10000, fun _ request _ => spendingCoin coin request.paid⟩

theorem declared_holding (coin : Nat) : Declared (Lib.holding coin) where
  addresses _ _ _ h := by cases h
  sites _ _ h := by cases h
  completes _ request key e h := by
    dsimp only [Lib.holding] at h
    split at h
    · cases h
      rfl
    · split at h
      · cases h
        rfl
      · cases h
  apart _ request key e h hmoney := by
    dsimp only [Lib.holding] at h
    split at h
    · cases h
      rfl
    · split at h
      · cases h
        cases hmoney
      · cases h

theorem signsLast_holding (coin : Nat) (wallet : Wallet) :
    SignsLast (Lib.holding coin) (draftsOf coin) wallet where
  stopped request key e _ h hplain := by
    dsimp only [Lib.holding] at h ⊢
    split at h
    · next hlack =>
      rw [if_pos hlack]
      exact h
    · cases h
      cases hplain
  counted request key e _ h hmoney := by
    dsimp only [Lib.holding] at h ⊢
    split at h
    · next hlack =>
      rw [if_pos hlack]
      exact h
    · cases h
  sameDraft _ _ _ := rfl
  handedOver request key done n _ h := by
    dsimp only [Lib.holding] at h
    split at h
    · cases h
    · cases h
      rfl
  connected request input h := by
    obtain rfl := List.mem_singleton.mp h
    exact Option.some_ne_none _

/-- Half a millibitcoin, out of one bitcoin. -/
theorem preview_agrees_small :
    PreviewAgrees (Lib.holding 100000000) (draftsOf 100000000) protectedWallet 0 50000 "payee" :=
  (preview_agrees_iff (Lib.holding 100000000) (draftsOf 100000000) protectedWallet 0 ⟨0⟩ 0 [112] 50000
    "payee" rfl rfl rfl rfl (declared_holding _) (signsLast_holding _ _)).mpr (.inr (.inl (by decide)))

/-- Some 43 bitcoins, out of one: the preview has a fee for it. -/
theorem preview_overlooks_money : ¬ PreviewAgrees (Lib.holding 100000000) (draftsOf 100000000)
    protectedWallet 0 (2 ^ 32) "payee" := by
  intro h
  have hnot : ¬ Blank (Lib.holding 100000000) protectedWallet (2 ^ 32) "payee" :=
    not_blank (by decide) (by decide) rfl
  have hsend : LacksMoney (outcome (sendCoins (Lib.holding 100000000) (toString (2 ^ 32)) "payee"
      (some 0) protectedWallet)) :=
    ⟨.withMessage insufficientMoneyExceptionClass [exceptionClass] "Insufficient money",
      by decide +kernel, rfl⟩
  obtain ⟨e, he, -⟩ := (h.money hnot).mpr hsend
  have hpreview : outcome (feeForSendingCoins (Lib.holding 100000000) (draftsOf 100000000)
      (toString (2 ^ 32)) "payee" protectedWallet) = .ok "10000" := by decide +kernel
  rw [hpreview] at he
  cases he

end BitcoinKit

import BitcoinKit.Java.Step

/-! Which credentials the operations that use the private key accept. All of them treat a protected wallet
    alike; an unprotected one is where they part: a payment without a password goes through, a plain
    send, a signature or an export without one is told the password is wrong.

        wallet         password       send, sign, export        pay a request
        unprotected    none           refused                   accepted
        unprotected    given          refused                   refused
        protected      none           refused                   refused
        protected      given          as `isPasswordCorrect`    as `isPasswordCorrect`             -/

namespace BitcoinKit
open Schemes

/-- What bitcoinj promises of a wallet's keys: a key is right exactly when it decrypts and signs. -/
structure KeyLaws (lib : Lib) (wallet : Wallet) : Prop where
  derives : ∀ keyCrypter chars, ∃ bytes, lib.deriveKey keyCrypter chars = .ok bytes
  checks : ∀ bytes, ∃ right, lib.checkAESKey wallet bytes = .ok right
  decrypts : ∀ bytes, lib.checkAESKey wallet bytes = .ok true →
    ∀ key, lib.decryptKey wallet key bytes = .ok ()
  decryptsNot : ∀ bytes, lib.checkAESKey wallet bytes = .ok false →
    ∀ key, ∃ e, lib.decryptKey wallet key bytes = .error e ∧ e.instanceOf keyCrypterExceptionClass
  signs : ∀ bytes, lib.checkAESKey wallet bytes = .ok true →
    ∀ request, ∃ done, lib.completeTx wallet request (some bytes) = .ok done
  signsNot : ∀ bytes, lib.checkAESKey wallet bytes = .ok false →
    ∀ request, ∃ e, lib.completeTx wallet request (some bytes) = .error e ∧
      e.instanceOf keyCrypterExceptionClass
  signsOpen : wallet.keyCrypter = none →
    ∀ request, ∃ done, lib.completeTx wallet request none = .ok done
  signsLocked : wallet.keyCrypter ≠ none →
    ∀ request, ∃ e, lib.completeTx wallet request none = .error e ∧
      e.instanceOf keyCrypterExceptionClass

/-- Nothing but the credentials is in the way of an operation. -/
structure NothingElseWrong (lib : Lib) (peerGroup : Option Nat) (wallet : Wallet) : Prop where
  keys : wallet.keys ≠ []
  sites : ∀ site, lib.fails site = none
  connected : peerGroup ≠ none
  fresh : ∀ request aesKey done, lib.completeTx wallet request aesKey = .ok done →
    ∀ tx ∈ wallet.transactions, tx.hash ≠ done.hash
  message : ∀ key message, ∃ signature, lib.signMessage key message = .ok signature
  encoding : ∀ key params, ∃ text, lib.privateKeyEncoded key params = .ok text

/-- The operations that use the private key, with their other arguments. -/
inductive KeyOperation where
  | sendCoins (amount recipient : String)
  | sendPaymentRequest (sessionId callbackId : Int32)
  | signMessage (message : String)
  | exportPrivateKey
  deriving DecidableEq, Repr

namespace KeyOperation

def code (lib : Lib) : KeyOperation → Option CharArrayRef → Java Unit
  | .sendCoins amount recipient, password => BitcoinKit.sendCoins lib amount recipient password
  | .sendPaymentRequest sessionId callbackId, password =>
    BitcoinKit.sendPaymentRequest lib sessionId password callbackId
  | .signMessage message, password => do
    let _ ← BitcoinKit.signMessage lib message password
  | .exportPrivateKey, password => do
    let _ ← BitcoinKit.exportPrivateKey lib password

/-- The other arguments are in order. -/
def ArgumentsFine (lib : Lib) (w : World) : KeyOperation → Prop
  | .sendCoins amount recipient => (∃ n, bigInteger amount = .ok n) ∧
      ∃ address, lib.parseAddress w.networkParams recipient = .ok address
  | .sendPaymentRequest sessionId _ => ∃ session, w.paymentSessions sessionId = some session ∧
      (∃ outputs, lib.getSendRequest session = .ok outputs) ∧ session.isExpired lib.now = false
  | .signMessage _ => True
  | .exportPrivateKey => True

def paysRequest : KeyOperation → Bool
  | .sendPaymentRequest _ _ => true
  | _ => false

end KeyOperation

/-- The credentials every operation ought to accept. -/
def Accepted (lib : Lib) (w : World) (wallet : Wallet) (password : Option Chars) : Prop :=
  wallet.isEncrypted = false ∧ password = none ∨
    wallet.isEncrypted = true ∧
      outcome (withPassword password (isPasswordCorrect lib) w) = .ok true

/-- The operation succeeds with accepted credentials, and tells all others that the password is
    wrong. -/
def CredentialsAgree (lib : Lib) (w : World) (wallet : Wallet) (password : Option Chars)
    (op : KeyOperation) : Prop :=
  (Accepted lib w wallet password → outcome (withPassword password (op.code lib) w) = .ok ()) ∧
  (¬ Accepted lib w wallet password →
    ∃ e, outcome (withPassword password (op.code lib) w) = .error e ∧
      e.className = wrongPasswordExceptionClass)

/-! ### Verdicts -/

variable {lib : Lib} {w : World} {wallet : Wallet} {ref : WalletRef} {α : Type}

/-- A run accepts when `right`, and else throws what will be told as a wrong password. -/
def Verdict (right : Bool) : Except Throwable α → Prop
  | .ok _ => right = true
  | .error e => right = false ∧
      (e.instanceOf keyCrypterExceptionClass ∨ e.className = wrongPasswordExceptionClass)

/-- The same once the exceptions of the crypter are renamed. -/
def Told (right : Bool) : Except Throwable α → Prop
  | .ok _ => right = true
  | .error e => right = false ∧ e.className = wrongPasswordExceptionClass

theorem told_of_verdict {right : Bool} {m : Java α} (h : Ends m w fun r _ => Verdict right r) :
    Ends (catchIf (Throwable.instanceOf keyCrypterExceptionClass) m
      fun e => throw (wrongPasswordFrom e)) w fun r _ => Told right r := by
  rw [ends_catchIf]
  refine ends_mono h fun r v hr => ?_
  cases r with
  | ok a => exact hr
  | error e =>
    obtain ⟨hright, he⟩ := hr
    dsimp only
    split
    · exact ⟨hright, rfl⟩
    · next hkc => exact ⟨hright, he.resolve_left hkc⟩

/-- The password array at hand, with the wallet at hand, is right or not. -/
inductive KeyIs (lib : Lib) (w : World) (ref : WalletRef) : Option CharArrayRef → Bool → Prop
  | unprotected (password : Option CharArrayRef) : (w.wallets.cell ref).keyCrypter = none →
      KeyIs lib w ref password false
  | missing : KeyIs lib w ref none false
  | derived {array : CharArrayRef} {keyCrypter : KeyCrypter} {bytes : Bytes} {right : Bool} :
      (w.wallets.cell ref).keyCrypter = some keyCrypter →
      lib.deriveKey keyCrypter (w.secrets.charArrays.cell array) = .ok bytes →
      lib.checkAESKey (w.wallets.cell ref) bytes = .ok right → KeyIs lib w ref (some array) right

/-- Deriving from a password gives a key that bitcoinj judges as it does, and touches secrets only. -/
theorem ends_aesKeyForPassword {password : Option CharArrayRef} {right : Bool}
    (hw : w.wallet = some ref) (h : KeyIs lib w ref password right) :
    Ends (aesKeyForPassword lib password) w fun
      | .ok key, v => onlySecrets.rel w v ∧
          lib.checkAESKey (w.wallets.cell ref) (v.secrets.aesKeys.cell key) = .ok right
      | .error e, _ => right = false ∧ e.className = wrongPasswordExceptionClass := by
  unfold aesKeyForPassword
  rw [ends_bind, ends_theWallet hw]
  dsimp only
  cases h with
  | unprotected _ hkc => rw [hkc]; exact ⟨rfl, rfl⟩
  | missing =>
    cases (w.wallets.cell ref).keyCrypter with
    | none => exact ⟨rfl, rfl⟩
    | some keyCrypter => exact ⟨rfl, rfl⟩
  | derived hkc hd hc =>
    unfold deriveKeyAndWipePassword readChars newAesKey fillChars
    simp only [hkc, ends_bind, ends_get, ends_pure, ends_tryFinally, ends_result, hd, ends_modify]
    refine ⟨rfl, ?_⟩
    rw [Heap.cell_alloc_self]
    exact hc

/-- Work with the key of a password, which is wiped afterwards. -/
theorem verdict_withKey {password : Option CharArrayRef} {right : Bool} (hw : w.wallet = some ref)
    (h : KeyIs lib w ref password right) {use : AesKeyRef → Java α}
    (huse : ∀ key v, onlySecrets.rel w v →
      lib.checkAESKey (w.wallets.cell ref) (v.secrets.aesKeys.cell key) = .ok right →
      Ends (use key) v fun r _ => Verdict right r) :
    Ends (do
      let aesKey ← aesKeyForPassword lib password
      tryFinally (use aesKey) (wipeAesKey (some aesKey))) w fun r _ => Verdict right r := by
  rw [ends_bind]
  refine ends_mono (ends_aesKeyForPassword hw h) fun r v hv => ?_
  cases r with
  | error e => exact ⟨hv.1, .inr hv.2⟩
  | ok key => exact ends_wiping (fun _ _ _ hr => hr) (huse key v hv.1 hv.2)

theorem ends_isPasswordCorrect {password : Option CharArrayRef} {right : Bool}
    (hw : w.wallet = some ref) (h : KeyIs lib w ref password right) :
    Ends (isPasswordCorrect lib password) w fun r _ => r = .ok right := by
  unfold isPasswordCorrect
  rw [ends_catchIf, ends_bind]
  refine ends_mono (ends_aesKeyForPassword hw h) fun r v hv => ?_
  cases r with
  | error e =>
    obtain ⟨rfl, he⟩ := hv
    have hcatch : e.instanceOf wrongPasswordExceptionClass = true := by
      simp [Throwable.instanceOf, he]
    dsimp only
    rw [hcatch]
    rfl
  | ok key =>
    obtain ⟨hv, hc⟩ := hv
    have hwv : v.wallet = some ref := by rw [hv]; exact hw
    have hcell : v.wallets.cell ref = w.wallets.cell ref := by rw [hv]
    refine ends_wiping (fun r _ _ hr => by cases r <;> exact hr) ?_
    rw [ends_bind, ends_theWallet hwv]
    unfold readAesKey
    simp only [ends_bind, ends_get, ends_pure, ends_result, hcell, hc]

/-- Decrypting the private key, using it, and clearing it. -/
theorem verdict_withDecryptedKey {right : Bool} {use : Java α} {ecKey : ECKey} {aesKey : AesKeyRef}
    (hw : w.wallet = some ref) (hl : KeyLaws lib (w.wallets.cell ref))
    (hc : lib.checkAESKey (w.wallets.cell ref) (w.secrets.aesKeys.cell aesKey) = .ok right)
    (hu : ∀ v, Ends use v fun r _ => ∃ a, r = .ok a) :
    Ends (withDecryptedKey lib ecKey aesKey use) w fun r _ => Verdict right r := by
  unfold withDecryptedKey readAesKey newPrivateKey clearPrivateKey
  rw [ends_bind, ends_theWallet hw]
  simp only [ends_bind, ends_get, ends_pure, ends_result, ends_modify, ends_tryFinally]
  cases right with
  | true =>
    rw [hl.decrypts _ hc ecKey]
    refine ends_mono (hu _) fun r v hr => ?_
    obtain ⟨a, rfl⟩ := hr
    rfl
  | false =>
    obtain ⟨e, he, hkc⟩ := hl.decryptsNot _ hc ecKey
    rw [he]
    exact ⟨rfl, .inl hkc⟩

theorem firstKey_of_keys (keys : wallet.keys ≠ []) : ∃ key, wallet.firstKey = pure key := by
  obtain ⟨key, rest, hk⟩ := List.exists_cons_of_ne_nil keys
  refine ⟨key, ?_⟩
  rw [Wallet.firstKey, hk]

/-! ### The operations -/

theorem told_signMessage {password : Option CharArrayRef} {right : Bool} (message : String)
    (hw : w.wallet = some ref) (hl : KeyLaws lib (w.wallets.cell ref))
    (hn : NothingElseWrong lib w.peerGroup (w.wallets.cell ref)) (h : KeyIs lib w ref password right) :
    Ends (signMessage lib message password) w fun r _ => Told right r := by
  refine told_of_verdict ?_
  rw [ends_bind, ends_theWallet hw]
  obtain ⟨key, hkey⟩ := firstKey_of_keys hn.keys
  dsimp only
  rw [hkey, pure_bind]
  refine verdict_withKey hw h fun aesKey v hv hc => ?_
  rw [hv] at hc ⊢
  refine verdict_withDecryptedKey hw hl hc fun u => ?_
  obtain ⟨signature, hs⟩ := hn.message key message
  rw [ends_result]
  exact ⟨signature, hs⟩

theorem told_exportPrivateKey {password : Option CharArrayRef} {right : Bool}
    (hw : w.wallet = some ref) (hl : KeyLaws lib (w.wallets.cell ref))
    (hn : NothingElseWrong lib w.peerGroup (w.wallets.cell ref)) (h : KeyIs lib w ref password right) :
    Ends (exportPrivateKey lib password) w fun r _ => Told right r := by
  refine told_of_verdict ?_
  rw [ends_bind, ends_theWallet hw]
  obtain ⟨key, hkey⟩ := firstKey_of_keys hn.keys
  dsimp only
  rw [hkey, pure_bind]
  refine verdict_withKey hw h fun aesKey v hv hc => ?_
  rw [hv] at hc ⊢
  refine verdict_withDecryptedKey hw hl hc fun u => ?_
  obtain ⟨text, ht⟩ := hn.encoding key u.networkParams
  simp only [ends_bind, ends_get, ends_result, ht, ends_pure]
  exact ⟨_, rfl⟩

/-- Completing goes by the key at hand, and what it gives is new to the wallet. -/
theorem verdict_complete {right : Bool} {request : SendRequest} {aesKey : Option AesKeyRef}
    (hw : w.wallet = some ref) (hn : NothingElseWrong lib w.peerGroup (w.wallets.cell ref))
    (hright : right = true → ∃ done, lib.completeTx (w.wallets.cell ref) request
      (aesKey.map w.secrets.aesKeys.cell) = .ok done)
    (hwrong : right = false → ∃ e, lib.completeTx (w.wallets.cell ref) request
      (aesKey.map w.secrets.aesKeys.cell) = .error e ∧ e.instanceOf keyCrypterExceptionClass) :
    Ends (lib.complete request aesKey) w fun
      | .ok tx, v => right = true ∧ v = { w with nextTransaction := w.nextTransaction + 1 } ∧
          hasKey Transaction.hash (w.wallets.cell ref).transactions tx = false
      | .error e, _ => right = false ∧ e.instanceOf keyCrypterExceptionClass := by
  unfold Lib.complete
  rw [ends_bind, ends_theWallet hw]
  simp only [ends_bind, ends_get, ends_pure, ends_result, ends_modify]
  cases right with
  | true =>
    obtain ⟨done, hd⟩ := hright rfl
    rw [hd]
    exact ⟨rfl, rfl, hasKey_false_iff.mpr fun tx htx => hn.fresh _ _ done hd tx htx⟩
  | false =>
    obtain ⟨e, he, hkc⟩ := hwrong rfl
    rw [he]
    exact ⟨rfl, hkc⟩

theorem ends_commitAndBroadcast {tx : Transaction} {next : Java Unit} (hw : w.wallet = some ref)
    (hn : NothingElseWrong lib w.peerGroup (w.wallets.cell ref))
    (hnew : hasKey Transaction.hash (w.wallets.cell ref).transactions tx = false)
    (hnext : ∀ v, Ends next v fun r _ => r = .ok ()) :
    Ends (do
      lib.commitTx tx
      lib.broadcastTransaction
      next) w fun r _ => r = .ok () := by
  have hcommit : Ends (lib.commitTx tx) w fun r _ => r = .ok () := by
    unfold Lib.commitTx modifyWallet
    rw [ends_bind, ends_theWallet hw]
    simp only [ends_bind, ends_call, hn.sites, hnew, ends_modify, Bool.false_eq_true,
      if_false]
  rw [ends_bind]
  refine ends_mono (ends_and hcommit (ends_commitTx tx)) ?_
  rintro r v ⟨hr, hv⟩
  subst hr
  dsimp only at hv ⊢
  rw [ends_bind]
  refine ends_mono ends_broadcast fun r u hu => ?_
  cases r with
  | ok _ => exact hnext u
  | error e =>
    obtain ⟨-, ⟨hg, -⟩ | hf⟩ := hu
    · exact absurd (hv.peerGroup ▸ hg) hn.connected
    · rw [hn.sites] at hf
      cases hf

theorem told_sendCoins {amount recipient : String} {password : Option CharArrayRef} {right : Bool}
    (hw : w.wallet = some ref) (hl : KeyLaws lib (w.wallets.cell ref))
    (hn : NothingElseWrong lib w.peerGroup (w.wallets.cell ref)) (hn' : ∃ n, bigInteger amount = .ok n)
    (ha : ∃ address, lib.parseAddress w.networkParams recipient = .ok address)
    (h : KeyIs lib w ref password right) :
    Ends (sendCoins lib amount recipient password) w fun r _ => Told right r := by
  obtain ⟨n, hamount⟩ := hn'
  obtain ⟨address, haddress⟩ := ha
  refine told_of_verdict ?_
  rw [hamount, ends_bind, ends_result]
  dsimp only
  rw [ends_bind, ends_get]
  dsimp only
  rw [haddress, ends_bind, ends_result]
  dsimp only
  rw [ends_bind, ends_call, hn.sites]
  dsimp only
  refine verdict_withKey hw h fun aesKey v hv hc => ?_
  unfold Lib.sendCoins
  simp only [bind_assoc, pure_bind]
  rw [hv] at hc ⊢
  rw [ends_bind]
  refine ends_mono (verdict_complete hw hn (fun hr => hl.signs _ (hr ▸ hc) _)
    fun hr => hl.signsNot _ (hr ▸ hc) _) fun r u hu => ?_
  cases r with
  | error e => exact ⟨hu.1, .inl hu.2⟩
  | ok tx =>
    obtain ⟨hright, rfl, hnew⟩ := hu
    refine ends_mono (ends_commitAndBroadcast hw hn hnew fun t => rfl) fun r t hr => ?_
    rw [hr]
    exact hright

/-- Submitting a payment whose completion goes by the key at hand. -/
theorem verdict_submitPayment {right : Bool} {session : PaymentSession} {request : SendRequest}
    {aesKey : Option AesKeyRef} {sessionId callbackId : Int32} (hw : w.wallet = some ref)
    (hn : NothingElseWrong lib w.peerGroup (w.wallets.cell ref)) (he : session.isExpired lib.now = false)
    (hright : right = true → ∃ done, lib.completeTx (w.wallets.cell ref) request
      (aesKey.map w.secrets.aesKeys.cell) = .ok done)
    (hwrong : right = false → ∃ e, lib.completeTx (w.wallets.cell ref) request
      (aesKey.map w.secrets.aesKeys.cell) = .error e ∧ e.instanceOf keyCrypterExceptionClass) :
    Ends (submitPayment lib session request aesKey sessionId callbackId) w
      fun r _ => Verdict right r := by
  unfold submitPayment
  rw [ends_bind]
  refine ends_mono (verdict_complete hw hn hright hwrong) fun r u hu => ?_
  cases r with
  | error e => exact ⟨hu.1, .inl hu.2⟩
  | ok tx =>
    obtain ⟨hr, rfl, hnew⟩ := hu
    obtain ⟨key, hkey⟩ := firstKey_of_keys hn.keys
    dsimp only
    have hw' : World.wallet { w with nextTransaction := w.nextTransaction + 1 } = some ref := hw
    rw [ends_bind, ends_theWallet hw']
    dsimp only
    rw [hkey, pure_bind]
    have hsend : lib.sendPayment session = pure session.paymentUrl.isSome := by
      unfold Lib.sendPayment Lib.call
      rw [he, hn.sites]
      cases session.paymentUrl <;> rfl
    rw [hsend, pure_bind, ends_ite]
    split
    · exact hr
    · refine ends_mono (ends_commitAndBroadcast hw hn hnew fun t => rfl) fun r t hr' => ?_
      rw [hr']
      exact hr

theorem told_sendPaymentRequest {sessionId callbackId : Int32} {password : Option CharArrayRef}
    {right : Bool} (hw : w.wallet = some ref) (hl : KeyLaws lib (w.wallets.cell ref))
    (hn : NothingElseWrong lib w.peerGroup (w.wallets.cell ref)) {session : PaymentSession}
    (hs : w.paymentSessions sessionId = some session)
    (ho : ∃ outputs, lib.getSendRequest session = .ok outputs)
    (he : session.isExpired lib.now = false)
    (h : password ≠ none ∧ KeyIs lib w ref password right ∨
      password = none ∧ (right = true ↔ (w.wallets.cell ref).keyCrypter = none)) :
    Ends (sendPaymentRequest lib sessionId password callbackId) w fun r _ => Told right r := by
  obtain ⟨outputs, houts⟩ := ho
  refine told_of_verdict ?_
  rw [ends_bind, ends_get]
  dsimp only
  rw [hs, ends_bind, ends_deref]
  dsimp only
  rw [houts, ends_bind, ends_result]
  dsimp only
  rcases h with ⟨hp, hk⟩ | ⟨rfl, hr⟩
  · rw [if_pos (Option.isSome_iff_ne_none.mpr hp)]
    simp only [bind_assoc, pure_bind]
    refine verdict_withKey hw hk fun aesKey v hv hc => ?_
    rw [hv] at hc ⊢
    exact verdict_submitPayment hw hn he (fun hr => hl.signs _ (hr ▸ hc) _)
      fun hr => hl.signsNot _ (hr ▸ hc) _
  · rw [if_neg (by simp), pure_bind]
    refine ends_wiping (fun _ _ _ h => h) (verdict_submitPayment hw hn he ?_ ?_)
    · exact fun hright => hl.signsOpen (hr.mp hright) _
    · exact fun hwrong => hl.signsLocked (fun hkc => by simp [hr.mpr hkc] at hwrong) _

/-! ### Agreement -/

/-- What the password array at hand is worth to an operation. -/
def WorthTo (lib : Lib) (w : World) (ref : WalletRef) (password : Option CharArrayRef)
    (op : KeyOperation) (right : Bool) : Prop :=
  (op.paysRequest = true → password ≠ none) ∧ KeyIs lib w ref password right ∨
    op.paysRequest = true ∧ password = none ∧
      (right = true ↔ (w.wallets.cell ref).keyCrypter = none)

theorem told_code {op : KeyOperation} {password : Option CharArrayRef} {right : Bool}
    (hw : w.wallet = some ref) (hl : KeyLaws lib (w.wallets.cell ref))
    (hn : NothingElseWrong lib w.peerGroup (w.wallets.cell ref)) (ha : op.ArgumentsFine lib w)
    (h : WorthTo lib w ref password op right) :
    Ends (op.code lib password) w fun r _ => Told right r := by
  have hdrop {α : Type} {m : Java α} (hm : Ends m w fun r _ => Told right r) :
      Ends (do let _ ← m) w fun r _ => Told right r := by
    rw [ends_bind]
    refine ends_mono hm fun r v hr => ?_
    cases r <;> exact hr
  have hkey (hp : op.paysRequest = false) : KeyIs lib w ref password right := by
    rcases h with ⟨-, hk⟩ | ⟨hpays, -⟩
    · exact hk
    · rw [hp] at hpays
      cases hpays
  cases op with
  | sendCoins amount recipient => exact told_sendCoins hw hl hn ha.1 ha.2 (hkey rfl)
  | sendPaymentRequest sessionId callbackId =>
    obtain ⟨session, hs, ho, he⟩ := ha
    refine told_sendPaymentRequest hw hl hn hs ho he ?_
    rcases h with ⟨hp, hk⟩ | ⟨-, hp, hr⟩
    · exact .inl ⟨hp rfl, hk⟩
    · exact .inr ⟨hp, hr⟩
  | signMessage message => exact hdrop (told_signMessage message hw hl hn (hkey rfl))
  | exportPrivateKey => exact hdrop (told_exportPrivateKey hw hl hn (hkey rfl))

/-- An operation that goes by `right` agrees when `right` says what ought to be accepted. -/
theorem agree_iff {password : Option Chars} {op : KeyOperation} {right : Bool}
    (h : Ends (withPassword password (op.code lib)) w fun r _ => Told right r) :
    CredentialsAgree lib w wallet password op ↔ (Accepted lib w wallet password ↔ right = true) := by
  have hr : Told right (outcome (withPassword password (op.code lib) w)) := h
  unfold CredentialsAgree
  revert hr
  generalize outcome (withPassword password (op.code lib) w) = r
  rintro hr
  cases r with
  | ok a =>
    obtain rfl : right = true := hr
    refine ⟨fun ⟨_, hno⟩ => ⟨fun _ => rfl, fun _ => ?_⟩, fun hiff => ⟨fun _ => rfl, fun hno => ?_⟩⟩
    · by_contra hacc
      obtain ⟨e, he, -⟩ := hno hacc
      cases he
    · exact absurd (hiff.mpr rfl) hno
  | error e =>
    obtain ⟨rfl, hclass⟩ : right = false ∧ e.className = wrongPasswordExceptionClass := hr
    refine ⟨fun ⟨hyes, _⟩ => ⟨fun hacc => ?_, fun hf => by cases hf⟩,
      fun hiff => ⟨fun hacc => ?_, fun _ => ⟨e, rfl, hclass⟩⟩⟩
    · cases hyes hacc
    · cases hiff.mp hacc

/-- The world after an array for a password was made. -/
def World.withArray (w : World) (chars : Chars) : World :=
  { w with secrets := { w.secrets with charArrays := w.secrets.charArrays.alloc chars } }

theorem told_withPassword {op : KeyOperation} {chars : Chars} {right : Bool}
    (hw : w.wallet = some ref) (hl : KeyLaws lib (w.wallets.cell ref))
    (hn : NothingElseWrong lib w.peerGroup (w.wallets.cell ref)) (ha : op.ArgumentsFine lib w)
    (h : KeyIs lib (w.withArray chars) ref (some w.secrets.charArrays.next) right) :
    Ends (withPassword (some chars) (op.code lib)) w fun r _ => Told right r := by
  have hfine : op.ArgumentsFine lib (w.withArray chars) := by cases op <;> exact ha
  have hdo : Ends (op.code lib (some w.secrets.charArrays.next)) (w.withArray chars)
      fun r _ => Told right r :=
    told_code hw hl hn hfine (.inl ⟨fun _ => Option.some_ne_none _, h⟩)
  exact hdo

/-- With a protected wallet a password is worth what `isPasswordCorrect` says. -/
theorem agree_withPassword {op : KeyOperation} (chars : Chars) (hw : w.wallet = some ref)
    (hl : KeyLaws lib (w.wallets.cell ref))
    (hn : NothingElseWrong lib w.peerGroup (w.wallets.cell ref)) (ha : op.ArgumentsFine lib w) :
    CredentialsAgree lib w (w.wallets.cell ref) (some chars) op := by
  cases hkc : (w.wallets.cell ref).keyCrypter with
  | none =>
    have henc : (w.wallets.cell ref).isEncrypted = false := by simp [Wallet.isEncrypted, hkc]
    rw [agree_iff (told_withPassword hw hl hn ha (.unprotected _ hkc)), Accepted, henc]
    simp
  | some keyCrypter =>
    have henc : (w.wallets.cell ref).isEncrypted = true := by simp [Wallet.isEncrypted, hkc]
    obtain ⟨bytes, hd⟩ := hl.derives keyCrypter chars
    obtain ⟨right, hc⟩ := hl.checks bytes
    have hcell : (w.withArray chars).secrets.charArrays.cell w.secrets.charArrays.next = chars :=
      Heap.cell_alloc_self
    have hkey : KeyIs lib (w.withArray chars) ref (some w.secrets.charArrays.next) right :=
      .derived hkc (by rw [hcell]; exact hd) hc
    have hcorrect : outcome (withPassword (some chars) (isPasswordCorrect lib) w) = .ok right :=
      ends_isPasswordCorrect (w := w.withArray chars) hw hkey
    rw [agree_iff (told_withPassword hw hl hn ha hkey), Accepted, henc, hcorrect]
    simp

/-- Without a password only a payment goes through, and that on an unprotected wallet. -/
theorem agree_withoutPassword {op : KeyOperation} (hw : w.wallet = some ref)
    (hl : KeyLaws lib (w.wallets.cell ref))
    (hn : NothingElseWrong lib w.peerGroup (w.wallets.cell ref)) (ha : op.ArgumentsFine lib w) :
    CredentialsAgree lib w (w.wallets.cell ref) none op ↔
      ((w.wallets.cell ref).isEncrypted = false → op.paysRequest = true) := by
  have hcorrect : outcome (withPassword none (isPasswordCorrect lib) w) = .ok false :=
    ends_isPasswordCorrect hw .missing
  have hdo {right : Bool} (h : WorthTo lib w ref none op right) :
      Ends (withPassword none (op.code lib)) w fun r _ => Told right r := told_code hw hl hn ha h
  have henc : (w.wallets.cell ref).isEncrypted = false ↔
      (w.wallets.cell ref).keyCrypter = none := by simp [Wallet.isEncrypted]
  cases hp : op.paysRequest with
  | false =>
    rw [agree_iff (hdo (.inl ⟨by simp [hp], .missing⟩)), Accepted, hcorrect]
    simp
  | true =>
    have hworth : WorthTo lib w ref none op (!(w.wallets.cell ref).isEncrypted) :=
      .inr ⟨hp, rfl, by rw [← henc]; simp⟩
    rw [agree_iff (hdo hworth), Accepted, hcorrect]
    simp

/-- Whatever else is in order: an operation accepts exactly the right credentials, unless it is a
    plain send, a signature or an export on an unprotected wallet without a password. -/
theorem credentials_agree_iff (lib : Lib) (w : World) (ref : WalletRef) (op : KeyOperation)
    (password : Option Chars) (hw : w.wallet = some ref) (hl : KeyLaws lib (w.wallets.cell ref))
    (hn : NothingElseWrong lib w.peerGroup (w.wallets.cell ref)) (ha : op.ArgumentsFine lib w) :
    CredentialsAgree lib w (w.wallets.cell ref) password op ↔
      ¬ ((w.wallets.cell ref).isEncrypted = false ∧ password = none ∧ op.paysRequest = false) := by
  cases password with
  | none =>
    rw [agree_withoutPassword hw hl hn ha]
    simp
  | some chars =>
    refine iff_of_true (agree_withPassword chars hw hl hn ha) ?_
    simp

/-- A library whose wallets have one key, the given one. -/
def Lib.guardedBy (secret : Bytes) : Lib :=
  { Lib.fair with
    checkAESKey := fun _ key => .ok (key = secret)
    decryptKey := fun _ _ key =>
      if key = secret then .ok () else .error (keyCrypterException "wrong key")
    completeTx := fun wallet _ aesKey =>
      if (aesKey.map fun key => decide (key = secret)).getD (!wallet.isEncrypted) then
        .ok ⟨10, []⟩
      else .error (keyCrypterException "wrong key") }

theorem keyLaws_guardedBy (secret : Bytes) (wallet : Wallet) :
    KeyLaws (Lib.guardedBy secret) wallet where
  derives _ _ := ⟨_, rfl⟩
  checks _ := ⟨_, rfl⟩
  decrypts bytes h key := by
    have hb : bytes = secret := by simpa [Lib.guardedBy] using h
    simp [Lib.guardedBy, hb]
  decryptsNot bytes h key := by
    have hb : bytes ≠ secret := by simpa [Lib.guardedBy] using h
    exact ⟨keyCrypterException "wrong key", by simp [Lib.guardedBy, hb], by decide⟩
  signs bytes h request := by
    have hb : bytes = secret := by simpa [Lib.guardedBy] using h
    exact ⟨⟨10, []⟩, by simp [Lib.guardedBy, hb]⟩
  signsNot bytes h request := by
    have hb : bytes ≠ secret := by simpa [Lib.guardedBy] using h
    exact ⟨keyCrypterException "wrong key", by simp [Lib.guardedBy, hb], by decide⟩
  signsOpen h request := ⟨⟨10, []⟩, by simp [Lib.guardedBy, Wallet.isEncrypted, h]⟩
  signsLocked h request := by
    refine ⟨keyCrypterException "wrong key", ?_, by decide⟩
    simpa [Lib.guardedBy, Wallet.isEncrypted] using h

/-- The world after a wallet was created, with the given password if any. -/
def createdWith (password : Option Chars) : World :=
  run step (World.initial .none) [.start .fair, .createWallet .fair password]

theorem nothingElseWrong_created (secret : Bytes) {password : Option Chars}
    (hkeys : ((createdWith password).wallets.cell 0).keys ≠ [])
    (htxs : ((createdWith password).wallets.cell 0).transactions = [])
    (hgroup : (createdWith password).peerGroup ≠ none) :
    NothingElseWrong (Lib.guardedBy secret) (createdWith password).peerGroup
      ((createdWith password).wallets.cell 0) where
  keys := hkeys
  sites _ := rfl
  connected := hgroup
  fresh _ _ _ _ tx htx := by
    rw [htxs] at htx
    exact absurd htx List.not_mem_nil
  message _ _ := ⟨_, rfl⟩
  encoding _ _ := ⟨_, rfl⟩

theorem credentials_agree_protected :
    CredentialsAgree (Lib.guardedBy [112]) (createdWith (some [112]))
      ((createdWith (some [112])).wallets.cell 0) (some [112]) (.signMessage "text") := by
  refine (credentials_agree_iff (Lib.guardedBy [112]) (createdWith (some [112])) 0 (.signMessage "text")
    (some [112]) (by decide +kernel) (keyLaws_guardedBy _ _)
    (nothingElseWrong_created _ (by decide +kernel) (by decide +kernel) (by decide +kernel)) trivial).mpr ?_
  rintro ⟨-, hnone, -⟩
  cases hnone

theorem unprotected_refuses_null :
    ¬ ∀ (lib : Lib) (w : World) (ref : WalletRef) (op : KeyOperation) (password : Option Chars),
      w.wallet = some ref → KeyLaws lib (w.wallets.cell ref) →
      NothingElseWrong lib w.peerGroup (w.wallets.cell ref) → op.ArgumentsFine lib w →
        CredentialsAgree lib w (w.wallets.cell ref) password op := by
  intro h
  obtain ⟨hyes, -⟩ := h (Lib.guardedBy [112]) (createdWith none) 0 (.signMessage "text") none
    (by decide +kernel) (keyLaws_guardedBy _ _)
    (nothingElseWrong_created _ (by decide +kernel) (by decide +kernel) (by decide +kernel)) trivial
  have hok := hyes (.inl ⟨by decide +kernel, rfl⟩)
  have herr : outcome (withPassword none
      (KeyOperation.code (Lib.guardedBy [112]) (.signMessage "text")) (createdWith none)) =
      .error (wrongPasswordException "Wallet is not protected.") := by decide +kernel
  rw [herr] at hok
  cases hok

end BitcoinKit

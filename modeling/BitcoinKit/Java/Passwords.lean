import BitcoinKit.Java.Ledger

/-! What becomes of a password array in Java. It is zeroed when a key is derived from it, and nowhere
    else, so what matters is what stops an operation before it gets there:

        checks ──▶ derivation (the array is zeroed) ──▶ work with the key
          └─▶ throw: the array is left as it is -/

namespace BitcoinKit
open Schemes

variable {lib : Lib} {w : World} {α : Type} {array : Option CharArrayRef}

/-- The password arrays of the Java heap. -/
def World.arrays (w : World) : Heap Chars := w.secrets.charArrays

/-- The heap with one array zeroed, if there is one. -/
def wiped (arrays : Heap Chars) : Option CharArrayRef → Heap Chars
  | none => arrays
  | some array => arrays.write array (List.replicate (arrays.cell array).length 0)

/-- No password array is touched. -/
def keepingArrays : Along World := keeping World.arrays

theorem keepingArrays_sending : IgnoresSending keepingArrays where
  keys _ _ _ := rfl
  built _ _ := rfl
  waiting _ _ := rfl
  stored _ _ _ := rfl
  committed _ _ _ _ := rfl

theorem keepingArrays_lifecycle : IgnoresLifecycle keepingArrays where
  keys _ _ _ := rfl
  wallets _ _ _ _ := rfl
  network _ _ := rfl
  wallet _ _ _ := rfl
  chain _ _ _ _ _ := rfl
  chainFiles _ _ := rfl
  saved _ _ := rfl
  loading _ _ _ _ _ := rfl
  balance _ := rfl

theorem keepingArrays_tracking : IgnoresTracking keepingArrays where
  listening _ _ _ := rfl
  confidence _ _ _ := rfl
  news _ _ _ := rfl

/-- What became of an array in an operation that `refusal` stops before it derives a key from it. -/
inductive Treated (refusal : Option Throwable) (array : Option CharArrayRef)
    (before : Heap Chars) : Except Throwable α → Heap Chars → Prop
  | derived (r : Except Throwable α) : refusal = none →
      Treated refusal array before r (wiped before array)
  | returned (a : α) : refusal = none → Treated refusal array before (.ok a) before
  | refused {e : Throwable} : refusal = some e → Treated refusal array before (.error e) before

/-! ### Deriving -/

/-- What a derivation gives. -/
def derivation (lib : Lib) (keyCrypter : KeyCrypter) : Option Chars → Except Throwable Bytes
  | none => .error (wrongPasswordException "No password provided.")
  | some chars => lib.deriveKey keyCrypter chars

/-- A derivation zeroes the array on both ways out. -/
theorem ends_deriveKey (keyCrypter : KeyCrypter) :
    Ends (deriveKeyAndWipePassword lib array keyCrypter) w fun
      | .ok key, v => v = { w with secrets := { w.secrets with
            charArrays := wiped w.arrays array, aesKeys := v.secrets.aesKeys } } ∧
          derivation lib keyCrypter (array.map w.arrays.cell) = .ok (v.secrets.aesKeys.cell key)
      | .error e, v => v = { w with secrets := { w.secrets with
            charArrays := wiped w.arrays array } } ∧
          derivation lib keyCrypter (array.map w.arrays.cell) = .error e := by
  cases array with
  | none => exact ⟨rfl, rfl⟩
  | some array =>
    unfold deriveKeyAndWipePassword readChars newAesKey fillChars
    simp only [ends_bind, ends_get, ends_pure, ends_tryFinally, ends_result, ends_modify]
    have hd : derivation lib keyCrypter ((some array).map w.arrays.cell) =
        lib.deriveKey keyCrypter (w.secrets.charArrays.cell array) := rfl
    rw [hd]
    cases lib.deriveKey keyCrypter (w.secrets.charArrays.cell array) with
    | error e => exact ⟨rfl, rfl⟩
    | ok bytes => exact ⟨rfl, by rw [Heap.cell_alloc_self]⟩

/-- What stops `aesKeyForPassword` before it derives a key. -/
def keyRefusal (w : World) : Option Throwable :=
  match w.wallet with
  | none => some nullPointerException
  | some ref =>
    match (w.wallets.cell ref).keyCrypter with
    | none => some (wrongPasswordException "Wallet is not protected.")
    | some _ => none

/-- Work with a key derived from the array, which is wiped afterwards. -/
theorem ends_withKey {use : AesKeyRef → Java α} (hu : ∀ key, Moves keepingArrays (use key)) :
    Ends (do
      let aesKey ← aesKeyForPassword lib array
      tryFinally (use aesKey) (wipeAesKey (some aesKey))) w fun r v =>
        (keyRefusal w = none → v.arrays = wiped w.arrays array) ∧
        ∀ e, keyRefusal w = some e → r = .error e ∧ v.arrays = w.arrays := by
  unfold aesKeyForPassword theWallet keyRefusal
  simp only [bind_assoc, ends_bind, ends_get, ends_deref, ends_pure]
  cases hw : w.wallet with
  | none => exact ⟨fun h => (by cases h), fun e h => by cases h; exact ⟨rfl, rfl⟩⟩
  | some ref =>
    dsimp only
    cases hkc : (w.wallets.cell ref).keyCrypter with
    | none => exact ⟨fun h => (by cases h), fun e h => by cases h; exact ⟨rfl, rfl⟩⟩
    | some keyCrypter =>
      dsimp only
      refine ends_mono (ends_deriveKey keyCrypter) fun r v hv => ?_
      cases r with
      | error e =>
        obtain ⟨rfl, -⟩ := hv
        exact ⟨fun _ => rfl, fun e h => by cases h⟩
      | ok key =>
        dsimp only at hv ⊢
        have hm : Moves keepingArrays (tryFinally (use key) (wipeAesKey (some key))) :=
          moves_tryFinally (hu key) (moves_wipeAesKey keepingArrays_sending.keys _)
        refine ends_mono (ends_of_moves (s := v) hm) fun r u hu => ⟨fun _ => ?_, fun e h => by cases h⟩
        have hvu : u.arrays = v.arrays := hu
        rw [hvu, hv.1]
        rfl

theorem treated_withKey {use : AesKeyRef → Java α} (hu : ∀ key, Moves keepingArrays (use key)) :
    Ends (do
      let aesKey ← aesKeyForPassword lib array
      tryFinally (use aesKey) (wipeAesKey (some aesKey))) w
      fun r v => Treated (keyRefusal w) array w.arrays r v.arrays := by
  refine ends_mono (ends_withKey hu) fun r v ⟨hnone, hsome⟩ => ?_
  cases hr : keyRefusal w with
  | none =>
    rw [hnone hr]
    exact .derived r rfl
  | some e =>
    obtain ⟨rfl, hv⟩ := hsome e hr
    rw [hv]
    exact .refused rfl

/-! ### Operations -/

/-- What becomes of an exception in the operations that catch those of the crypter. -/
def renamed (e : Throwable) : Throwable :=
  if e.instanceOf keyCrypterExceptionClass then wrongPasswordFrom e else e

theorem Treated.rename {refusal : Option Throwable} {before after : Heap Chars} {e : Throwable}
    (h : Treated refusal array before (.error e : Except Throwable α) after) :
    Treated (refusal.map renamed) array before (.error (renamed e) : Except Throwable α) after := by
  cases h with
  | derived _ hr => exact .derived _ (by rw [hr]; rfl)
  | refused hr => exact .refused (by rw [hr]; rfl)

theorem Treated.mapOk {refusal : Option Throwable} {before after : Heap Chars} {a : α}
    {f : Throwable → Throwable} (h : Treated refusal array before (.ok a) after) :
    Treated (refusal.map f) array before (.ok a) after := by
  cases h with
  | derived _ hr => exact .derived _ (by rw [hr]; rfl)
  | returned _ hr => exact .returned a (by rw [hr]; rfl)

theorem treated_renaming {m : Java α} {refusal : Option Throwable}
    (h : Ends m w fun r v => Treated refusal array w.arrays r v.arrays) :
    Ends (catchIf (Throwable.instanceOf keyCrypterExceptionClass) m
      fun e => throw (wrongPasswordFrom e)) w
      fun r v => Treated (refusal.map renamed) array w.arrays r v.arrays := by
  rw [ends_catchIf]
  refine ends_mono h fun r v hv => ?_
  cases r with
  | ok a => exact hv.mapOk
  | error e =>
    have hr := hv.rename
    rw [renamed] at hr
    dsimp only
    split
    · next hkc => rw [if_pos hkc] at hr; exact hr
    · next hkc => rw [if_neg hkc] at hr; exact hr

def sendCoinsRefusal (lib : Lib) (w : World) (amount recipient : String) : Option Throwable :=
  (thrown (bigInteger amount) <|> thrown (lib.parseAddress w.networkParams recipient) <|>
    lib.fails .sendRequestTo <|> keyRefusal w).map renamed

theorem treated_sendCoins (amount recipient : String) :
    Ends (sendCoins lib amount recipient array) w fun r v =>
      Treated (sendCoinsRefusal lib w amount recipient) array w.arrays r v.arrays := by
  refine treated_renaming ?_
  rw [ends_bind, ends_result]
  cases hn : bigInteger amount with
  | error e => exact .refused rfl
  | ok n =>
    dsimp only
    rw [ends_bind, ends_get]
    dsimp only
    rw [ends_bind, ends_result]
    cases ha : lib.parseAddress w.networkParams recipient with
    | error e => exact .refused rfl
    | ok address =>
      dsimp only
      rw [ends_bind, ends_call]
      cases hs : lib.fails .sendRequestTo with
      | some e => exact .refused rfl
      | none =>
        refine treated_withKey fun key => ?_
        exact moves_sendWithKey keepingArrays_sending.toIgnoresCommits lib _ key

def sendPaymentRequestRefusal (lib : Lib) (w : World) (sessionId : Int32)
    (array : Option CharArrayRef) : Option Throwable :=
  (match w.paymentSessions sessionId with
    | none => some nullPointerException
    | some session => thrown (lib.getSendRequest session) <|>
        if array.isSome then keyRefusal w else none).map renamed

theorem treated_sendPaymentRequest (sessionId callbackId : Int32) :
    Ends (sendPaymentRequest lib sessionId array callbackId) w fun r v =>
      Treated (sendPaymentRequestRefusal lib w sessionId array) array w.arrays r v.arrays := by
  have hp := keepingArrays_sending
  refine treated_renaming ?_
  rw [ends_bind, ends_get]
  dsimp only
  rw [ends_bind, ends_deref]
  cases hs : w.paymentSessions sessionId with
  | none => exact .refused rfl
  | some session =>
    dsimp only
    rw [ends_bind, ends_result]
    cases ho : lib.getSendRequest session with
    | error e => exact .refused rfl
    | ok outputs =>
      have hsubmit (aesKey : Option AesKeyRef) := moves_submitPayment hp.toIgnoresCommits lib session
        ⟨outputs, some session⟩ aesKey sessionId callbackId
      dsimp only
      cases array with
      | none =>
        have hm : Moves keepingArrays (tryFinally (submitPayment lib session
            ⟨outputs, some session⟩ none sessionId callbackId) (wipeAesKey none)) :=
          moves_tryFinally (hsubmit none) (moves_wipeAesKey hp.keys none)
        refine ends_mono (ends_of_moves (s := w) hm) fun r v hv => ?_
        have harrays : v.arrays = w.arrays := hv
        rw [harrays]
        exact .derived r rfl
      | some array =>
        have h := @treated_withKey lib w Unit (some array) _ fun key => hsubmit (some key)
        have hrest : (thrown (Except.ok outputs) <|> keyRefusal w) = keyRefusal w := rfl
        simpa only [Option.isSome_some, if_true, bind_assoc, pure_bind, hrest] using h

/-- What stops an operation that takes the wallet's first key. -/
def firstKeyRefusal (w : World) : Option Throwable :=
  match w.wallet with
  | none => some nullPointerException
  | some ref => if (w.wallets.cell ref).keys.isEmpty then some indexOutOfBoundsException else none

theorem treated_withFirstKey {next : ECKey → Java α} {refusal : Option Throwable}
    (h : ∀ key, Ends (next key) w fun r v => Treated refusal array w.arrays r v.arrays) :
    Ends (do
      let (_, wallet) ← theWallet
      let ecKey ← wallet.firstKey
      next ecKey) w fun r v =>
        Treated (firstKeyRefusal w <|> refusal) array w.arrays r v.arrays := by
  cases hw : w.wallet with
  | none =>
    unfold theWallet
    simp only [bind_assoc, ends_bind, ends_get, ends_deref, hw]
    exact .refused (by simp [firstKeyRefusal, hw])
  | some ref =>
    rw [ends_bind, ends_theWallet hw]
    dsimp only
    unfold Wallet.firstKey
    cases hk : (w.wallets.cell ref).keys with
    | nil => exact .refused (by simp [firstKeyRefusal, hw, hk])
    | cons key keys =>
      have hnone : firstKeyRefusal w = none := by simp [firstKeyRefusal, hw, hk]
      rw [hnone]
      exact h key

theorem treated_signMessage (message : String) :
    Ends (signMessage lib message array) w fun r v =>
      Treated ((firstKeyRefusal w <|> keyRefusal w).map renamed) array w.arrays r v.arrays := by
  refine treated_renaming (treated_withFirstKey fun ecKey => treated_withKey fun key => ?_)
  exact moves_withDecryptedKey keepingArrays_sending.keys lib ecKey key (moves_result _)

theorem treated_exportPrivateKey :
    Ends (exportPrivateKey lib array) w fun r v =>
      Treated ((firstKeyRefusal w <|> keyRefusal w).map renamed) array w.arrays r v.arrays := by
  refine treated_renaming (treated_withFirstKey fun ecKey => treated_withKey fun key => ?_)
  refine moves_withDecryptedKey keepingArrays_sending.keys lib ecKey key ?_
  exact moves_bind moves_get fun _ => moves_bind (moves_result _) fun _ => moves_pure _

/-- What a handler for `p` leaves of the exceptions that stop an operation. -/
def uncaughtRefusal (p : Throwable → Bool) (refusal : Option Throwable) : Option Throwable :=
  refusal.filter fun e => !p e

/-- A handler that returns. -/
theorem treated_answering {m : Java α} {refusal : Option Throwable} {p : Throwable → Bool} {a : α}
    (h : Ends m w fun r v => Treated refusal array w.arrays r v.arrays) :
    Ends (catchIf p m fun _ => pure a) w
      fun r v => Treated (uncaughtRefusal p refusal) array w.arrays r v.arrays := by
  rw [ends_catchIf]
  refine ends_mono h fun r v hv => ?_
  cases r with
  | ok b =>
    dsimp only
    generalize v.arrays = after at hv ⊢
    cases hv with
    | derived _ hr => exact .derived _ (by rw [hr]; rfl)
    | returned _ hr => exact .returned b (by rw [hr]; rfl)
  | error e =>
    dsimp only
    simp only [ends_pure]
    generalize v.arrays = after at hv ⊢
    cases hv with
    | derived _ hr =>
      have hnone : uncaughtRefusal p refusal = none := by rw [hr]; rfl
      split
      · exact .derived _ hnone
      · exact .derived _ hnone
    | refused hr =>
      rw [hr]
      split
      · next hp => exact .returned a (by simp [uncaughtRefusal, hp])
      · next hp => exact .refused (by simp [uncaughtRefusal, hp])

theorem treated_isPasswordCorrect :
    Ends (isPasswordCorrect lib array) w fun r v =>
      Treated (uncaughtRefusal (Throwable.instanceOf wrongPasswordExceptionClass) (keyRefusal w))
        array w.arrays r v.arrays := by
  refine treated_answering (treated_withKey fun key => ?_)
  exact moves_bind moves_theWallet fun _ => moves_bind (moves_readAesKey key) fun _ =>
    moves_result _

/-- Encrypting a wallet zeroes the array, whichever way it ends. -/
theorem ends_encryptWallet (ref : WalletRef) :
    Ends (encryptWallet lib array ref) w fun _ v => v.arrays = wiped w.arrays array := by
  have hk := keepingArrays_lifecycle.toIgnoresKeys
  unfold encryptWallet
  rw [ends_bind]
  refine ends_mono (ends_deriveKey _) fun r v hv => ?_
  cases r with
  | error e => rw [hv.1]; rfl
  | ok key =>
    have hm : Moves keepingArrays (tryFinally (lib.encrypt ref lib.newKeyCrypter key)
        (wipeAesKey (some key))) :=
      moves_tryFinally (moves_encrypt hk.toIgnoresRekeying lib ref _ key) (moves_wipeAesKey hk.keys _)
    refine ends_mono (ends_of_moves (s := v) hm) fun r u hu => ?_
    have hvu : u.arrays = v.arrays := hu
    rw [hvu, hv.1]
    rfl

def createWalletRefusal (w : World) : Option Throwable :=
  match w.walletFile with
  | none => some (illegalStateException "createWallet cannot be called before start")
  | some walletFile =>
    if (w.files.wallets walletFile).isSome then
      some (existingWalletException
        ("Trying to create a wallet even though one exists: " ++ walletFile))
    else none

/-- Once the checks are passed the array is zeroed, by whichever way the wallet is made. -/
theorem ends_makeWallet (walletFile : File) : Ends (do
    let ref ← newWallet
    updateLastWalletChange lib ref
    let privateKey := lib.newKey
    modifyWallet ref fun wallet => { wallet with keys := wallet.keys ++ [privateKey] }
    let creationTime := privateKey.creationTimeSeconds
    (if array.isSome then do
      encryptWallet lib array ref
      let w ← get
      let _ ← (w.wallets.cell ref).firstKey
      modifyWallet ref fun wallet => wallet.withCreationTime creationTime
    else pure ())
    saveToFile lib ref walletFile
    deleteBlockchainDataFile lib
    useWallet lib ref) w fun _ v => v.arrays = wiped w.arrays array := by
  have hl := keepingArrays_lifecycle
  have hk := hl.toIgnoresKeys
  have hrest (ref : WalletRef) : Moves keepingArrays (do
      saveToFile lib ref walletFile
      deleteBlockchainDataFile lib
      useWallet lib ref) :=
    moves_bind (moves_saveToFile hl.saved lib ref _) fun _ =>
      moves_bind (moves_deleteBlockchainDataFile hl.toIgnoresChain lib) fun _ =>
        moves_useWallet hl.toIgnoresInstalling
          (moves_trackPending (moves_trackTransaction keepingArrays_tracking)) lib ref
  cases array with
  | none =>
    have hm := moves_bind (moves_newWallet hl.toIgnoresInstalling) fun ref =>
      moves_bind (moves_modifyWallet hk.toIgnoresWallets ref (f := fun wallet =>
        { wallet with lastWalletChangeDate := some lib.currentTimeMillis }) fun _ => rfl) fun _ =>
      moves_bind (moves_modifyWallet hk.toIgnoresWallets ref (f := fun wallet =>
        { wallet with keys := wallet.keys ++ [lib.newKey] }) fun _ => rfl) fun _ => hrest ref
    exact hm w
  | some array =>
    refine ends_bind_ok (I := fun _ v => v.arrays = w.arrays) ⟨_, rfl, rfl⟩ fun ref t ht => ?_
    refine ends_bind_ok (I := fun _ v => v.arrays = w.arrays) ⟨_, rfl, ht⟩ fun _ t ht => ?_
    refine ends_bind_ok (I := fun _ v => v.arrays = w.arrays) ⟨_, rfl, ht⟩ fun _ t ht => ?_
    rw [← ht]
    simp only [Option.isSome_some, if_true, bind_assoc]
    rw [ends_bind]
    refine ends_mono (ends_encryptWallet ref) fun r v hv => ?_
    cases r with
    | error e => exact hv
    | ok _ =>
      have hm : Moves keepingArrays (do
          let w ← get
          let _ ← (w.wallets.cell ref).firstKey
          modifyWallet ref fun wallet => wallet.withCreationTime lib.newKey.creationTimeSeconds
          saveToFile lib ref walletFile
          deleteBlockchainDataFile lib
          useWallet lib ref) :=
        moves_bind moves_get fun _ => moves_bind (moves_firstKey _) fun _ =>
          moves_bind (moves_modifyWallet hk.toIgnoresWallets ref fun _ => rfl) fun _ => hrest ref
      exact ends_mono (ends_of_moves (s := v) hm) fun r u hu => hv ▸ hu

theorem treated_createWallet :
    Ends (createWallet lib array) w fun r v =>
      Treated (createWalletRefusal w) array w.arrays r v.arrays := by
  unfold createWallet createWalletRefusal
  rw [ends_bind, ends_get]
  dsimp only
  cases w.walletFile with
  | none => exact .refused rfl
  | some walletFile =>
    dsimp only
    rw [ends_ite]
    split
    · exact .refused rfl
    · refine ends_mono (ends_makeWallet walletFile) fun r v hv => ?_
      rw [hv]
      exact .derived r rfl

/-! ### Changing the password -/

/-- The wallet with the date of its last change. -/
def Wallet.dated (wallet : Wallet) (lib : Lib) : Wallet :=
  { wallet with lastWalletChangeDate := some lib.currentTimeMillis }

/-- The exceptions of an unprotected wallet's encryption; a protected one is decrypted first. -/
def unprotectedRefusal (lib : Lib) (wallet : Wallet) (bytes : Bytes) : Option Throwable :=
  if wallet.isEncrypted then none
  else thrown (lib.encryptKeys (wallet.dated lib) lib.newKeyCrypter bytes)

/-- What stops a change of password before it derives a key from the old one. -/
def changeWalletPasswordRefusal (lib : Lib) (w : World) (newPassword : Option Chars) :
    Option Throwable :=
  match derivation lib lib.newKeyCrypter newPassword with
  | .error e => some e
  | .ok bytes => firstKeyRefusal w <|>
      w.wallet.bind fun ref => unprotectedRefusal lib (w.wallets.cell ref) bytes

/-- Decrypting a protected wallet zeroes the array, whichever way it ends. -/
theorem ends_decryptWallet (h : keyRefusal w = none) :
    Ends (decryptWallet lib array) w fun _ v => v.arrays = wiped w.arrays array := by
  have hk := keepingArrays_lifecycle.toIgnoresKeys
  refine ends_mono (ends_withKey fun key => ?_) fun r v ⟨hnone, _⟩ => hnone h
  refine moves_catchIf ?_ fun _ => moves_throw _
  exact moves_bind moves_theWallet fun _ => moves_decrypt hk.toIgnoresRekeying lib _ key

theorem ends_isWalletEncrypted {ref : WalletRef} (hw : w.wallet = some ref) :
    Ends isWalletEncrypted w fun
      | .ok encrypted, v => v = w ∧ firstKeyRefusal w = none ∧
          encrypted = (w.wallets.cell ref).isEncrypted
      | .error e, v => v = w ∧ firstKeyRefusal w = some e := by
  unfold isWalletEncrypted firstKeyRefusal Wallet.firstKey
  rw [ends_bind, ends_theWallet hw]
  simp only [hw]
  cases (w.wallets.cell ref).keys with
  | nil => exact ⟨rfl, rfl⟩
  | cons key keys => exact ⟨rfl, rfl, rfl⟩

/-- Only the secrets and the wallet objects are touched. -/
def onlyWallets : Along World where
  rel w v := v = { w with secrets := v.secrets, wallets := v.wallets }
  refl _ := rfl
  trans h₁ h₂ := by rw [h₂, h₁]

/-- The last step: the wallet is encrypted with the new key, which is wiped. -/
theorem ends_encryptNew {ref : WalletRef} (hw : w.wallet = some ref) (key : AesKeyRef) :
    Ends (tryFinally
      (do
        let (ref, _) ← theWallet
        lib.encrypt ref lib.newKeyCrypter key)
      (wipeAesKey (some key))) w fun r v => onlyWallets.rel w v ∧ v.arrays = w.arrays ∧
        match lib.encryptKeys (w.wallets.cell ref) lib.newKeyCrypter (w.secrets.aesKeys.cell key) with
        | .ok keys => r = .ok () ∧ v.wallets = w.wallets.write ref
            { w.wallets.cell ref with keys := keys, keyCrypter := some lib.newKeyCrypter }
        | .error e => r = .error e ∧ v.wallets = w.wallets := by
  unfold Lib.encrypt modifyWallet wipeAesKey fillAesKey
  rw [ends_tryFinally, ends_bind, ends_theWallet hw]
  simp only [ends_bind, ends_get, ends_result, ends_modify]
  cases lib.encryptKeys (w.wallets.cell ref) lib.newKeyCrypter (w.secrets.aesKeys.cell key) with
  | ok keys => exact ⟨rfl, rfl, trivial, rfl⟩
  | error e => exact ⟨rfl, rfl, rfl, rfl⟩

/-- A wallet that is not protected is encrypted as it is. -/
theorem treated_encryptNew {ref : WalletRef} (hw : w.wallet = some ref) (key : AesKeyRef)
    (old : Option CharArrayRef) : Ends (tryFinally
      (do
        let (ref, _) ← theWallet
        lib.encrypt ref lib.newKeyCrypter key)
      (wipeAesKey (some key))) w fun r v =>
        Treated (thrown (lib.encryptKeys (w.wallets.cell ref) lib.newKeyCrypter
          (w.secrets.aesKeys.cell key))) old w.arrays r v.arrays := by
  refine ends_mono (ends_encryptNew hw key) fun r v hdone => ?_
  obtain ⟨-, harrays, hdone⟩ := hdone
  rw [harrays]
  split at hdone
  · next hkeys =>
    rw [hkeys, hdone.1]
    exact .returned () rfl
  · next e hkeys =>
    rw [hkeys, hdone.1]
    exact .refused rfl

/-- A protected one is decrypted first, which zeroes the array of the old password. -/
theorem treated_decryptThenEncrypt (hprotected : keyRefusal w = none) (key : AesKeyRef)
    (old : Option CharArrayRef) : Ends (do
      decryptWallet lib old
      tryFinally
        (do
          let (ref, _) ← theWallet
          lib.encrypt ref lib.newKeyCrypter key)
        (wipeAesKey (some key))) w fun r v => Treated none old w.arrays r v.arrays := by
  have hk := keepingArrays_lifecycle.toIgnoresKeys
  have hm : Moves keepingArrays (tryFinally
      (do
        let (ref, _) ← theWallet
        lib.encrypt ref lib.newKeyCrypter key)
      (wipeAesKey (some key))) :=
    moves_tryFinally (moves_bind moves_theWallet fun _ => moves_encrypt hk.toIgnoresRekeying lib _ _ key)
      (moves_wipeAesKey hk.keys _)
  rw [ends_bind]
  refine ends_mono (ends_decryptWallet hprotected) fun r v hv => ?_
  cases r with
  | error e =>
    dsimp only
    rw [hv]
    exact .derived _ rfl
  | ok _ =>
    refine ends_mono (ends_of_moves (s := v) hm) fun r t ht => ?_
    have harrays : t.arrays = wiped w.arrays old := hv ▸ ht
    rw [harrays]
    exact .derived r rfl

/-- A change of password once the new key is there. -/
theorem treated_reencrypt (key : AesKeyRef) (old : Option CharArrayRef) : Ends (do
      let (ref, _) ← theWallet
      updateLastWalletChange lib ref
      let encrypted ← isWalletEncrypted
      (if encrypted then decryptWallet lib old else pure ())
      tryFinally
        (do
          let (ref, _) ← theWallet
          lib.encrypt ref lib.newKeyCrypter key)
        (wipeAesKey (some key))) w fun r v =>
          Treated (firstKeyRefusal w <|> w.wallet.bind fun ref =>
            unprotectedRefusal lib (w.wallets.cell ref) (w.secrets.aesKeys.cell key))
            old w.arrays r v.arrays := by
  cases hw : w.wallet with
  | none =>
    unfold theWallet
    rw [ends_bind, ends_bind, ends_get]
    dsimp only
    rw [ends_bind, ends_deref, hw]
    exact .refused (by simp [firstKeyRefusal, hw])
  | some ref =>
    rw [ends_bind, ends_theWallet hw]
    refine ends_bind_ok (I := fun _ v => v =
      { w with wallets := w.wallets.write ref ((w.wallets.cell ref).dated lib) }) ⟨_, rfl, rfl⟩
      fun _ u hu => ?_
    have huw : u.wallet = some ref := by rw [hu]; exact hw
    have hcell : u.wallets.cell ref = (w.wallets.cell ref).dated lib := by
      rw [hu]
      exact Heap.cell_write_self
    have hfirst : firstKeyRefusal u = firstKeyRefusal w := by
      simp [firstKeyRefusal, huw, hw, hcell, Wallet.dated]
    have hsecrets : u.secrets = w.secrets := by rw [hu]
    have harrays : u.arrays = w.arrays := congrArg Secrets.charArrays hsecrets
    rw [ends_bind]
    refine ends_mono (ends_isWalletEncrypted huw) fun r v hv => ?_
    cases r with
    | error e =>
      obtain ⟨rfl, he⟩ := hv
      rw [hfirst] at he
      dsimp only
      rw [he, harrays]
      exact .refused rfl
    | ok encrypted =>
      obtain ⟨hvu, hnone, henc⟩ := hv
      rw [hfirst] at hnone
      rw [hvu]
      have henc' : encrypted = (w.wallets.cell ref).isEncrypted := by rw [henc, hcell]; rfl
      dsimp only
      rw [hnone]
      cases encrypted with
      | false =>
        simp only [Bool.false_eq_true, if_false, pure_bind]
        have hrefusal : unprotectedRefusal lib (w.wallets.cell ref) (w.secrets.aesKeys.cell key) =
            thrown (lib.encryptKeys (u.wallets.cell ref) lib.newKeyCrypter
              (u.secrets.aesKeys.cell key)) := by
          rw [unprotectedRefusal, ← henc', hcell, hsecrets]
          rfl
        rw [Option.bind_some, hrefusal, ← harrays]
        exact treated_encryptNew huw key old
      | true =>
        have hrefusal : unprotectedRefusal lib (w.wallets.cell ref)
            (w.secrets.aesKeys.cell key) = none := by
          rw [unprotectedRefusal, ← henc', if_pos rfl]
        have hprotected : keyRefusal u = none := by
          obtain ⟨keyCrypter, hkc⟩ := Option.isSome_iff_exists.mp henc.symm
          simp [keyRefusal, huw, hkc]
        rw [Option.bind_some, hrefusal, ← harrays]
        exact treated_decryptThenEncrypt hprotected key old

/-- A change of password zeroes the new array at once, the old one on the way to decrypting. -/
theorem treated_changeWalletPassword (old new : Option CharArrayRef) :
    Ends (changeWalletPassword lib old new) w fun r v =>
      Treated (changeWalletPasswordRefusal lib w (new.map w.arrays.cell)) old
        (wiped w.arrays new) r v.arrays := by
  unfold changeWalletPassword changeWalletPasswordRefusal
  rw [ends_bind]
  refine ends_mono (ends_deriveKey lib.newKeyCrypter) fun r t ht => ?_
  cases r with
  | error e =>
    obtain ⟨rfl, hd⟩ := ht
    rw [hd]
    exact .refused rfl
  | ok key =>
    obtain ⟨ht, hd⟩ := ht
    rw [hd]
    have h := @treated_reencrypt lib t key old
    rw [ht] at h ⊢
    exact h

end BitcoinKit

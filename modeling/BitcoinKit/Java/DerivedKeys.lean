import BitcoinKit.Java.Rekeying

/-! What becomes of the keys an operation derives. Each is wiped in a `finally` block, and so are the
    copies of a private key, so what matters is where the block begins:

        derive ──▶ try { work } finally { wipe }              every operation but one
        derive ──▶ checks, decryption ──▶ try { encrypt } finally { wipe }        a change of password -/

namespace BitcoinKit
open Schemes

variable {lib : Lib} {w : World} {α : Type} {ref : WalletRef}

/-- Nothing but zero bytes. -/
def Erased (bytes : Bytes) : Prop := ∀ b ∈ bytes, b = 0

/-- Keys of before are as they were, and those derived since are erased. -/
def tidy : Along World where
  rel w v := w.secrets.aesKeys.Leaves Erased v.secrets.aesKeys ∧
    w.secrets.privateKeys.Leaves (fun held => held = false) v.secrets.privateKeys
  refl _ := ⟨Heap.leaves_refl _, Heap.leaves_refl _⟩
  trans h₁ h₂ := ⟨Heap.leaves_trans h₁.1 h₂.1, Heap.leaves_trans h₁.2 h₂.2⟩

theorem erased_replicate (n : Nat) : Erased (List.replicate n 0) := fun _ h => List.eq_of_mem_replicate h

/-! ### Code that makes no keys -/

/-- No key is made or touched. -/
def keepingKeys : Along World := keeping fun w => (w.secrets.aesKeys, w.secrets.privateKeys)

theorem tidy_of_kept {v : World} (h : keepingKeys.rel w v) : tidy.rel w v := by
  obtain ⟨haes, hprivate⟩ := Prod.ext_iff.mp h
  dsimp only at haes hprivate
  unfold tidy
  dsimp only
  rw [haes, hprivate]
  exact ⟨Heap.leaves_refl _, Heap.leaves_refl _⟩

theorem tidy_moves {m : Java α} (h : Moves keepingKeys m) : Moves tidy m := fun w => tidy_of_kept (h w)

theorem keepingKeys_commits : IgnoresCommits keepingKeys where
  built _ _ := rfl
  waiting _ _ := rfl
  stored _ _ _ := rfl
  committed _ _ _ _ := rfl

theorem keepingKeys_tracking : IgnoresTracking keepingKeys where
  listening _ _ _ := rfl
  confidence _ _ _ := rfl
  news _ _ _ := rfl

theorem keepingKeys_installing : IgnoresInstalling keepingKeys where
  wallets _ _ _ _ := rfl
  chain _ _ _ _ _ := rfl
  chainFiles _ _ := rfl
  balance _ := rfl
  wallet _ _ _ := rfl
  loading _ _ _ _ _ := rfl

theorem keepingKeys_encrypt (ref : WalletRef) (keyCrypter : KeyCrypter) (key : AesKeyRef) :
    Moves keepingKeys (lib.encrypt ref keyCrypter key) :=
  moves_bind moves_get fun _ => moves_bind (moves_result _) fun _ => moves_modify fun _ => rfl

theorem keepingKeys_decrypt (ref : WalletRef) (key : AesKeyRef) :
    Moves keepingKeys (lib.decrypt ref key) :=
  moves_bind moves_get fun _ => moves_bind (moves_result _) fun _ => moves_modify fun _ => rfl

/-! ### Code that does -/

/-- The block of a key that was just derived. -/
theorem tidy_wiping {v : World} {bytes : Bytes} {use : Java α}
    (hkeys : v.secrets.aesKeys = w.secrets.aesKeys.alloc bytes)
    (hprivate : v.secrets.privateKeys = w.secrets.privateKeys) (hu : Ends use v fun _ u => tidy.rel v u) :
    Ends (tryFinally use (wipeAesKey (some w.secrets.aesKeys.next))) v fun _ u => tidy.rel w u := by
  rw [ends_tryFinally]
  refine ends_mono hu fun r u ⟨haes, hcopies⟩ => ?_
  rw [hkeys] at haes
  rw [hprivate] at hcopies
  exact ⟨Heap.leaves_around haes (erased_replicate _), hcopies⟩

/-- Work with a derived key, wiped afterwards. -/
theorem tidy_withDerived {array : Option CharArrayRef} {keyCrypter : KeyCrypter}
    {use : AesKeyRef → Java α} (hu : ∀ key, Moves tidy (use key)) : Moves tidy (do
      let aesKey ← deriveKeyAndWipePassword lib array keyCrypter
      tryFinally (use aesKey) (wipeAesKey (some aesKey))) := by
  cases array with
  | none => exact fun w => tidy.refl w
  | some array =>
    intro w
    have hends : Ends (do
        let aesKey ← deriveKeyAndWipePassword lib (some array) keyCrypter
        tryFinally (use aesKey) (wipeAesKey (some aesKey))) w fun _ v => tidy.rel w v := by
      rw [ends_bind]
      refine ends_mono (ends_deriveFresh array keyCrypter) fun r v hv => ?_
      cases r with
      | error e =>
        obtain ⟨-, rfl⟩ := hv
        exact tidy.refl w
      | ok key =>
        obtain ⟨bytes, -, rfl, rfl⟩ := hv
        exact tidy_wiping rfl rfl (hu _ _)
    exact hends

/-- The same with the wallet's own crypter. -/
theorem tidy_withKey {array : Option CharArrayRef} {use : AesKeyRef → Java α}
    (hu : ∀ key, Moves tidy (use key)) : Moves tidy (do
      let aesKey ← aesKeyForPassword lib array
      tryFinally (use aesKey) (wipeAesKey (some aesKey))) := by
  unfold aesKeyForPassword
  rw [bind_assoc]
  refine moves_bind moves_theWallet fun ⟨_, wallet⟩ => ?_
  dsimp only
  cases wallet.keyCrypter with
  | none => exact moves_throw _
  | some keyCrypter => exact tidy_withDerived hu

theorem tidy_withDecryptedKey (ecKey : ECKey) (key : AesKeyRef) {use : Java α}
    (hu : Moves tidy use) : Moves tidy (withDecryptedKey lib ecKey key use) := by
  refine moves_bind moves_theWallet fun _ => moves_bind (moves_readAesKey key) fun _ => ?_
  refine moves_bind (moves_result _) fun _ w => ?_
  have hends : Ends (do
      let decryptedKey ← newPrivateKey
      tryFinally use (clearPrivateKey decryptedKey)) w fun _ v => tidy.rel w v := by
    unfold newPrivateKey
    simp only [bind_assoc, pure_bind]
    rw [ends_bind, ends_get]
    dsimp only
    rw [ends_bind, ends_modify]
    dsimp only
    rw [ends_tryFinally]
    refine ends_mono (ends_of_moves hu) fun r u ⟨haes, hcopies⟩ => ?_
    exact ⟨haes, Heap.leaves_around hcopies rfl⟩
  exact hends

/-! ### Operations -/

theorem tidy_sendCoins (amount recipient : String) (array : Option CharArrayRef) :
    Moves tidy (sendCoins lib amount recipient array) := by
  refine moves_catchIf ?_ fun _ => moves_throw _
  refine moves_bind (moves_result _) fun _ => moves_bind moves_get fun _ => ?_
  refine moves_bind (moves_result _) fun _ => moves_bind (moves_call lib _) fun _ => ?_
  exact tidy_withKey fun key => tidy_moves (moves_sendWithKey keepingKeys_commits lib _ key)

theorem tidy_sendPaymentRequest (sessionId callbackId : Int32) (array : Option CharArrayRef) :
    Moves tidy (sendPaymentRequest lib sessionId array callbackId) := by
  refine moves_catchIf ?_ fun _ => moves_throw _
  refine moves_bind moves_get fun w => moves_bind (moves_deref _) fun session => ?_
  refine moves_bind (moves_result _) fun outputs => ?_
  have hsubmit (aesKey : Option AesKeyRef) := tidy_moves (moves_submitPayment keepingKeys_commits lib
    session ⟨outputs, some session⟩ aesKey sessionId callbackId)
  cases array with
  | none => exact moves_tryFinally (hsubmit none) (moves_pure _)
  | some array =>
    simp only [Option.isSome_some, if_true, bind_assoc, pure_bind]
    exact tidy_withKey fun key => hsubmit (some key)

theorem tidy_signMessage (message : String) (array : Option CharArrayRef) :
    Moves tidy (signMessage lib message array) := by
  refine moves_catchIf ?_ fun _ => moves_throw _
  refine moves_bind moves_theWallet fun ⟨_, wallet⟩ => moves_bind (moves_firstKey wallet) fun ecKey => ?_
  exact tidy_withKey fun key => tidy_withDecryptedKey ecKey key (moves_result _)

theorem tidy_exportPrivateKey (array : Option CharArrayRef) :
    Moves tidy (exportPrivateKey lib array) := by
  refine moves_catchIf ?_ fun _ => moves_throw _
  refine moves_bind moves_theWallet fun ⟨_, wallet⟩ => moves_bind (moves_firstKey wallet) fun ecKey => ?_
  refine tidy_withKey fun key => tidy_withDecryptedKey ecKey key ?_
  exact moves_bind moves_get fun _ => moves_bind (moves_result _) fun _ => moves_pure _

theorem tidy_isPasswordCorrect (array : Option CharArrayRef) :
    Moves tidy (isPasswordCorrect lib array) := by
  refine moves_catchIf (tidy_withKey fun key => ?_) fun _ => moves_pure _
  exact moves_bind moves_theWallet fun _ => moves_bind (moves_readAesKey key) fun _ => moves_result _

theorem tidy_decryptWallet (old : Option CharArrayRef) : Moves tidy (decryptWallet lib old) := by
  refine tidy_withKey fun key => moves_catchIf ?_ fun _ => moves_throw _
  exact tidy_moves (moves_bind moves_theWallet fun _ => keepingKeys_decrypt _ key)

theorem tidy_createWallet (array : Option CharArrayRef) : Moves tidy (createWallet lib array) := by
  have hi := keepingKeys_installing
  have hw (ref : WalletRef) {f : Wallet → Wallet} (hf : ∀ x, (f x).transactions = x.transactions) :=
    tidy_moves (moves_modifyWallet hi.toIgnoresWallets ref hf)
  refine moves_bind moves_get fun w => ?_
  split
  · exact moves_throw _
  · refine moves_ite (moves_throw _) ?_
    refine moves_bind (tidy_moves (moves_newWallet hi)) fun ref => ?_
    refine moves_bind (hw ref fun _ => rfl) fun _ => moves_bind (hw ref fun _ => rfl) fun _ => ?_
    refine moves_bind (moves_ite ?_ (moves_pure _)) fun _ => tidy_moves ?_
    · refine moves_bind (tidy_withDerived fun key => tidy_moves (keepingKeys_encrypt ref _ key))
        fun _ => moves_bind moves_get fun w => moves_bind (moves_firstKey _) fun _ => hw ref fun _ => rfl
    · refine moves_bind (moves_saveToFile (fun _ _ => rfl) lib ref _) fun _ => ?_
      refine moves_bind (moves_deleteBlockchainDataFile hi.toIgnoresChain lib) fun _ => ?_
      exact moves_useWallet hi (moves_trackPending (moves_trackTransaction keepingKeys_tracking)) lib ref

end BitcoinKit

import BitcoinKit.Java.DerivedKeys

/-! Derived keys when an operation exits. In all operations but one the key is derived right before the
    `try` block that wipes it. A change of password derives the new key first, and whatever throws
    before the wallet is encrypted leaves that key in memory:

        new key ─▶ wallet? ─▶ date ─▶ first key? ─▶ decrypt with the old ─▶ try { encrypt } finally { wipe }
                     └────────────────────┴───────────────┴─▶ throw: the new key is left              -/

namespace BitcoinKit
open Schemes

variable {lib : Lib} {w : World} {ref : WalletRef}

/-- The operations that derive a key, with their arguments. -/
inductive SecretOperation where
  | sendCoins (amount recipient : String) (password : Option CharArrayRef)
  | sendPaymentRequest (sessionId : Int32) (password : Option CharArrayRef) (callbackId : Int32)
  | signMessage (message : String) (password : Option CharArrayRef)
  | exportPrivateKey (password : Option CharArrayRef)
  | isPasswordCorrect (password : Option CharArrayRef)
  | changeWalletPassword (oldPassword newPassword : Option CharArrayRef)
  | createWallet (password : Option CharArrayRef)

def SecretOperation.code (lib : Lib) : SecretOperation → Java Unit
  | .sendCoins amount recipient password => BitcoinKit.sendCoins lib amount recipient password
  | .sendPaymentRequest sessionId password callbackId =>
    BitcoinKit.sendPaymentRequest lib sessionId password callbackId
  | .signMessage message password => do
    let _ ← BitcoinKit.signMessage lib message password
  | .exportPrivateKey password => do
    let _ ← BitcoinKit.exportPrivateKey lib password
  | .isPasswordCorrect password => do
    let _ ← BitcoinKit.isPasswordCorrect lib password
  | .changeWalletPassword oldPassword newPassword =>
    BitcoinKit.changeWalletPassword lib oldPassword newPassword
  | .createWallet password => BitcoinKit.createWallet lib password

/-- Every AES key derived between two states has all its bytes zero, and every copy of a private key made
    between them has been cleared. -/
def SecretsErased (before after : Secrets) : Prop :=
  (∀ key, before.aesKeys.next ≤ key → key < after.aesKeys.next → Erased (after.aesKeys.cell key)) ∧
  ∀ key, before.privateKeys.next ≤ key → key < after.privateKeys.next →
    after.privateKeys.cell key = false

theorem secretsErased_of_tidy {v : World} (h : tidy.rel w v) : SecretsErased w.secrets v.secrets :=
  ⟨h.1.fresh, h.2.fresh⟩

/-! ### A change of password -/

/-- From the new key to the point where the wallet is encrypted with it. -/
theorem tidy_openedWithOld (old : Option CharArrayRef) : Moves tidy (do
    updateLastWalletChange lib ref
    let encrypted ← isWalletEncrypted
    (if encrypted then decryptWallet lib old else pure ())) := by
  refine moves_bind ?_ fun _ => moves_bind moves_isWalletEncrypted fun encrypted => ?_
  · exact tidy_moves (moves_modifyWallet keepingKeys_installing.toIgnoresWallets ref fun _ => rfl)
  · exact moves_ite (tidy_decryptWallet old) (moves_pure _)

/-- The rest of a change of password, with the new key in place: it is wiped exactly when the wallet gets
    to the point of being encrypted with it. -/
theorem ends_restOfChange {old : Option CharArrayRef} {new : Option Chars} {u : World} {bytes : Bytes}
    (huw : u.wallet = some ref) (hkeys : u.secrets.aesKeys = w.secrets.aesKeys.alloc bytes)
    (hprivate : u.secrets.privateKeys = w.secrets.privateKeys)
    (hd : derivation lib lib.newKeyCrypter new = .ok bytes) : Ends (do
      updateLastWalletChange lib ref
      let encrypted ← isWalletEncrypted
      (if encrypted then decryptWallet lib old else pure ())
      tryFinally
        (do
          let (ref, _) ← theWallet
          lib.encrypt ref lib.newKeyCrypter w.secrets.aesKeys.next)
        (wipeAesKey (some w.secrets.aesKeys.next))) u fun _ v =>
          if (handed lib u (old.map u.arrays.cell) new).isSome then tidy.rel w v else tidy.rel u v := by
  simp only [← bind_assoc]
  rw [ends_bind, bind_assoc]
  refine ends_mono (ends_and (ends_openedWithOld huw) (ends_of_moves (tidy_openedWithOld old)))
    fun r v hdone => ?_
  obtain ⟨hv, htidy⟩ := hdone
  cases r with
  | error e =>
    obtain ⟨-, -, -, hwhy⟩ := hv
    have hnone : handed lib u (old.map u.arrays.cell) new = none := by
      rcases hwhy with hnil | ⟨hne, e', ho⟩
      · simp only [handed, hd, huw, if_pos hnil]
      · simp only [handed, hd, huw, if_neg hne, ho]
    rw [hnone]
    exact htidy
  | ok _ =>
    obtain ⟨-, -, hne, plain, ho, -⟩ := hv
    have hsome : handed lib u (old.map u.arrays.cell) new = some (plain, bytes) := by
      simp only [handed, hd, huw, if_neg hne, ho]
    rw [hsome]
    dsimp only [Option.isSome_some, if_true]
    rw [ends_tryFinally]
    have hencrypt : Moves tidy (theWallet >>= fun x =>
        lib.encrypt x.1 lib.newKeyCrypter w.secrets.aesKeys.next) :=
      tidy_moves (moves_bind moves_theWallet fun x => keepingKeys_encrypt x.1 _ _)
    refine ends_mono (ends_along htidy hencrypt) fun r t hdone => ?_
    obtain ⟨haes, hcopies⟩ := hdone
    rw [hkeys] at haes
    rw [hprivate] at hcopies
    exact ⟨Heap.leaves_around haes (erased_replicate _), hcopies⟩

/-- The new key of a change of password, if one is derived, is erased already or gets to be used. -/
def UsesNewKey (lib : Lib) (w : World) (old new : Option CharArrayRef) : Prop :=
  ∀ bytes, derivation lib lib.newKeyCrypter (new.map w.arrays.cell) = .ok bytes → Erased bytes ∨
    (handed lib w (old.map (wiped w.arrays new).cell) (new.map w.arrays.cell)).isSome

theorem ends_changeErased (old new : Option CharArrayRef) :
    Ends (changeWalletPassword lib old new) w fun _ v =>
      SecretsErased w.secrets v.secrets ↔ UsesNewKey lib w old new := by
  unfold changeWalletPassword
  cases new with
  | none =>
    exact iff_of_true (secretsErased_of_tidy (tidy.refl w)) fun bytes h => by cases h
  | some array =>
    rw [ends_bind]
    refine ends_mono (ends_deriveFresh array lib.newKeyCrypter) fun r u hu => ?_
    cases r with
    | error e =>
      obtain ⟨hd, rfl⟩ := hu
      refine iff_of_true (secretsErased_of_tidy (tidy.refl w)) fun bytes h => ?_
      have herror : lib.deriveKey lib.newKeyCrypter (w.arrays.cell array) = .ok bytes := h
      rw [hd] at herror
      cases herror
    | ok key =>
      obtain ⟨bytes, hderive, rfl, hu⟩ := hu
      have hd : derivation lib lib.newKeyCrypter (some (w.arrays.cell array)) = .ok bytes := hderive
      have hkeys : u.secrets.aesKeys = w.secrets.aesKeys.alloc bytes := by rw [hu]
      have hprivate : u.secrets.privateKeys = w.secrets.privateKeys := by rw [hu]
      have harrays : u.arrays = wiped w.arrays (some array) := by rw [hu]; rfl
      have hfield : u.wallet = w.wallet := by rw [hu]
      have hws : u.wallets = w.wallets := by rw [hu]
      have huses : UsesNewKey lib w old (some array) ↔ Erased bytes ∨
          (handed lib w (old.map u.arrays.cell) (some (w.arrays.cell array))).isSome := by
        rw [harrays]
        refine ⟨fun h => h bytes hd, fun h bytes' hd' => ?_⟩
        obtain rfl : bytes = bytes' := Except.ok.inj (hd.symm.trans hd')
        exact h
      -- the new key is left as it was derived
      have hleft {v : World} (hv : tidy.rel u v) :
          SecretsErased w.secrets v.secrets ↔ Erased bytes := by
        obtain ⟨haes, hcopies⟩ := hv
        rw [hkeys] at haes
        rw [hprivate] at hcopies
        refine ⟨fun h => ?_, fun h => ⟨fun key hle hlt => ?_, hcopies.fresh⟩⟩
        · obtain ⟨hlt, hcell⟩ := Heap.leaves_alloc_self haes
          have hkey := h.1 _ (Nat.le_refl _) hlt
          rwa [hcell] at hkey
        · rcases Nat.eq_or_lt_of_le hle with heq | hgt
          · rw [← heq, (Heap.leaves_alloc_self haes).2]
            exact h
          · exact haes.fresh key hgt hlt
      dsimp only
      rw [huses]
      cases hw : u.wallet with
      | none =>
        unfold theWallet
        simp only [ends_bind, ends_get, ends_deref, hw]
        rw [hleft (tidy.refl u)]
        have hnone : handed lib w (old.map u.arrays.cell) (some (w.arrays.cell array)) = none := by
          rw [hfield] at hw
          unfold handed
          rw [hw]
          cases derivation lib lib.newKeyCrypter (some (w.arrays.cell array)) <;> rfl
        rw [hnone]
        simp
      | some ref =>
        rw [ends_bind, ends_theWallet hw]
        dsimp only
        refine ends_mono (ends_restOfChange hw hkeys hprivate hd) fun r v hv => ?_
        have hhanded : handed lib u (old.map u.arrays.cell) (some (w.arrays.cell array)) =
            handed lib w (old.map u.arrays.cell) (some (w.arrays.cell array)) := by
          rw [handed, handed, hfield, hws]
        rw [hhanded] at hv
        split at hv
        · next hsome => exact iff_of_true (secretsErased_of_tidy hv) (.inr hsome)
        · next hnone =>
          rw [hleft hv]
          simp [hnone]

/-! ### All operations -/

/-- A change of password uses the key it derives; the other operations always do. -/
def SecretOperation.UsesKeys (lib : Lib) (w : World) : SecretOperation → Prop
  | .changeWalletPassword oldPassword newPassword => UsesNewKey lib w oldPassword newPassword
  | _ => True

theorem moves_discard {α : Type} {R : Along World} {m : Java α} (h : Moves R m) : Moves R (do
    let _ ← m) := moves_bind h fun _ => moves_pure _

/-- No derived secret survives an operation, unless it is a change of password that throws between the
    derivation of the new key and the block that wipes it. -/
theorem secrets_erased_iff (lib : Lib) (w : World) (op : SecretOperation) :
    SecretsErased w.secrets (after (op.code lib w)).secrets ↔ op.UsesKeys lib w := by
  have htidy {m : Java Unit} (h : Moves tidy m) : SecretsErased w.secrets (after (m w)).secrets :=
    secretsErased_of_tidy (h w)
  cases op with
  | changeWalletPassword oldPassword newPassword => exact ends_changeErased oldPassword newPassword
  | sendCoins amount recipient password =>
    exact iff_of_true (htidy (tidy_sendCoins amount recipient password)) trivial
  | sendPaymentRequest sessionId password callbackId =>
    exact iff_of_true (htidy (tidy_sendPaymentRequest sessionId callbackId password)) trivial
  | signMessage message password =>
    exact iff_of_true (htidy (moves_discard (tidy_signMessage message password))) trivial
  | exportPrivateKey password =>
    exact iff_of_true (htidy (moves_discard (tidy_exportPrivateKey password))) trivial
  | isPasswordCorrect password =>
    exact iff_of_true (htidy (moves_discard (tidy_isPasswordCorrect password))) trivial
  | createWallet password => exact iff_of_true (htidy (tidy_createWallet password)) trivial

/-- The old password is missing. -/
theorem new_key_survives : ¬ SecretsErased protectedWallet.secrets (after
    ((SecretOperation.changeWalletPassword none (some 0)).code Lib.fair protectedWallet)).secrets := by
  intro h
  have hkey := h.1 0 (by decide) (by decide +kernel) 112 (by decide +kernel)
  exact absurd hkey (by decide)

end BitcoinKit

import BitcoinKit.Java.Library

/-! Passwords and keys: deriving an AES key from a password array, and the operations that protect
    the wallet, check a password, or use the private key.

    A `finally` block of the source that wipes a key assigned inside its `try` is written around the
    statements that follow the assignment: before it the key is `null` and the wipe does nothing. -/

namespace BitcoinKit
open Schemes

def deriveKeyAndWipePassword (lib : Lib) (utf16Password : Option CharArrayRef)
    (keyCrypter : KeyCrypter) : Java AesKeyRef :=
  match utf16Password with
  | none => throw (wrongPasswordException "No password provided.")
  | some array =>
    tryFinally
      (do
        let chars ← readChars array
        let bytes ← result (lib.deriveKey keyCrypter chars)
        newAesKey bytes)
      (fillChars array)

def aesKeyForPassword (lib : Lib) (utf16Password : Option CharArrayRef) : Java AesKeyRef := do
  let (_, wallet) ← theWallet
  match wallet.keyCrypter with
  | none => throw (wrongPasswordException "Wallet is not protected.")
  | some keyCrypter => deriveKeyAndWipePassword lib utf16Password keyCrypter

def wipeAesKey (aesKey : Option AesKeyRef) : Java Unit :=
  match aesKey with
  | none => pure ()
  | some key => fillAesKey key

def isWalletEncrypted : Java Bool := do
  let (_, wallet) ← theWallet
  let _ ← wallet.firstKey
  pure wallet.isEncrypted

def isPasswordCorrect (lib : Lib) (password : Option CharArrayRef) : Java Bool :=
  catchIf (Throwable.instanceOf wrongPasswordExceptionClass)
    (do
      let aesKey ← aesKeyForPassword lib password
      tryFinally
        (do
          let (_, wallet) ← theWallet
          let bytes ← readAesKey aesKey
          result (lib.checkAESKey wallet bytes))
        (wipeAesKey (some aesKey)))
    fun _ => pure false

/-- `wallet.encrypt(keyCrypter, aesKey)`: the keys are rebuilt under the crypter. -/
def Lib.encrypt (lib : Lib) (ref : WalletRef) (keyCrypter : KeyCrypter) (aesKey : AesKeyRef) :
    Java Unit := do
  let w ← get
  let keys ← result (lib.encryptKeys (w.wallets.cell ref) keyCrypter (w.secrets.aesKeys.cell aesKey))
  modifyWallet ref fun wallet => { wallet with keys := keys, keyCrypter := some keyCrypter }

/-- `wallet.decrypt(aesKey)`. -/
def Lib.decrypt (lib : Lib) (ref : WalletRef) (aesKey : AesKeyRef) : Java Unit := do
  let w ← get
  let keys ← result (lib.decryptKeys (w.wallets.cell ref) (w.secrets.aesKeys.cell aesKey))
  modifyWallet ref fun wallet => { wallet with keys := keys, keyCrypter := none }

def updateLastWalletChange (lib : Lib) (ref : WalletRef) : Java Unit :=
  modifyWallet ref fun wallet =>
    { wallet with lastWalletChangeDate := some lib.currentTimeMillis }

def decryptWallet (lib : Lib) (oldUtf16Password : Option CharArrayRef) : Java Unit := do
  let oldAesKey ← aesKeyForPassword lib oldUtf16Password
  tryFinally
    (catchIf (Throwable.instanceOf keyCrypterExceptionClass)
      (do
        let (ref, _) ← theWallet
        lib.decrypt ref oldAesKey)
      fun e => throw (wrongPasswordFrom e))
    (wipeAesKey (some oldAesKey))

def encryptWallet (lib : Lib) (utf16Password : Option CharArrayRef) (ref : WalletRef) :
    Java Unit := do
  let aesKey ← deriveKeyAndWipePassword lib utf16Password lib.newKeyCrypter
  tryFinally (lib.encrypt ref lib.newKeyCrypter aesKey) (wipeAesKey (some aesKey))

def changeWalletPassword (lib : Lib) (oldUtf16Password newUtf16Password : Option CharArrayRef) :
    Java Unit := do
  let aesKey ← deriveKeyAndWipePassword lib newUtf16Password lib.newKeyCrypter
  let (ref, _) ← theWallet
  updateLastWalletChange lib ref
  let encrypted ← isWalletEncrypted
  (if encrypted then decryptWallet lib oldUtf16Password else pure ())
  tryFinally
    (do
      let (ref, _) ← theWallet
      lib.encrypt ref lib.newKeyCrypter aesKey)
    (wipeAesKey (some aesKey))

/-- `ecKey.decrypt(wallet.getKeyCrypter(), aesKey)`, then `use` of the decrypted key, which is
    cleared afterwards. -/
def withDecryptedKey {α : Type} (lib : Lib) (ecKey : ECKey) (aesKey : AesKeyRef) (use : Java α) :
    Java α := do
  let (_, wallet) ← theWallet
  let bytes ← readAesKey aesKey
  let _ ← result (lib.decryptKey wallet ecKey bytes)
  let decryptedKey ← newPrivateKey
  tryFinally use (clearPrivateKey decryptedKey)

def signMessage (lib : Lib) (message : String) (utf16Password : Option CharArrayRef) :
    Java String :=
  catchIf (Throwable.instanceOf keyCrypterExceptionClass)
    (do
      let (_, wallet) ← theWallet
      let ecKey ← wallet.firstKey
      let aesKey ← aesKeyForPassword lib utf16Password
      tryFinally
        (withDecryptedKey lib ecKey aesKey (result (lib.signMessage ecKey message)))
        (wipeAesKey (some aesKey)))
    fun e => throw (wrongPasswordFrom e)

def exportPrivateKey (lib : Lib) (utf16Password : Option CharArrayRef) : Java String :=
  catchIf (Throwable.instanceOf keyCrypterExceptionClass)
    (do
      let (_, wallet) ← theWallet
      let ecKey ← wallet.firstKey
      let timestamp :=
        lib.formatDate .utc "yyyy-MM-dd'T'HH:mm:ss'Z'" (ecKey.creationTimeSeconds * 1000)
      let aesKey ← aesKeyForPassword lib utf16Password
      tryFinally
        (withDecryptedKey lib ecKey aesKey (do
          let w ← get
          let encoded ← result (lib.privateKeyEncoded ecKey w.networkParams)
          pure (encoded ++ "\t" ++ timestamp)))
        (wipeAesKey (some aesKey)))
    fun e => throw (wrongPasswordFrom e)

end BitcoinKit

import BitcoinKit.Java.Custody
import BitcoinKit.Java.Passwords

/-! What a change of password does to the wallet, exactly. It goes through up to three wallets before it
    returns, and stays at any of them when it fails:

        wallet ── dated ──▶ opened, if it was protected ──▶ encrypted under the new crypter

    `handed` is the wallet that reaches `wallet.encrypt`, as a function of the state and the arguments. -/

namespace BitcoinKit
open Schemes

variable {w : World} {lib : Lib} {ref : WalletRef}

/-- The wallet once it is decrypted with the old password, if it was protected. -/
def Wallet.opened (wallet : Wallet) (lib : Lib) (old : Option Chars) : Except Throwable Wallet :=
  match wallet.keyCrypter with
  | none => .ok wallet
  | some keyCrypter => do
    let bytes ← derivation lib keyCrypter old
    let keys ← lib.decryptKeys wallet bytes
    pure { wallet with keys := keys, keyCrypter := none }

theorem opened_cases {wallet plain : Wallet} {old : Option Chars} (h : wallet.opened lib old = .ok plain) :
    wallet.keyCrypter = none ∧ plain = wallet ∨ ∃ keyCrypter bytes keys,
      wallet.keyCrypter = some keyCrypter ∧ derivation lib keyCrypter old = .ok bytes ∧
        lib.decryptKeys wallet bytes = .ok keys ∧
        plain = { wallet with keys := keys, keyCrypter := none } := by
  unfold Wallet.opened at h
  split at h
  · next hnone =>
    cases h
    exact .inl ⟨hnone, rfl⟩
  · next keyCrypter hsome =>
    cases hb : derivation lib keyCrypter old with
    | error e => rw [hb] at h; cases h
    | ok bytes =>
      rw [hb] at h
      cases hk : lib.decryptKeys wallet bytes with
      | error e => simp [hk, bind, Except.bind] at h
      | ok keys =>
        simp only [hk, bind, Except.bind, pure, Except.pure, Except.ok.injEq] at h
        exact .inr ⟨keyCrypter, bytes, keys, hsome, hb, hk, h.symm⟩

/-- The wallet that a change of password hands to `wallet.encrypt`, with the new key; `none` if the call
    does not get that far. -/
def handed (lib : Lib) (w : World) (old new : Option Chars) : Option (Wallet × Bytes) :=
  match derivation lib lib.newKeyCrypter new, w.wallet with
  | .ok bytes, some ref =>
    if (w.wallets.cell ref).keys = [] then none
    else match ((w.wallets.cell ref).dated lib).opened lib old with
      | .ok wallet => some (wallet, bytes)
      | .error _ => none
  | _, _ => none

/-- How a change of password ends with a wallet, and the wallet it leaves. -/
inductive Rekeyed (lib : Lib) (wallet : Wallet) (old new : Option Chars) :
    Except Throwable Unit → Wallet → Prop
  | underived {e : Throwable} : derivation lib lib.newKeyCrypter new = .error e →
      Rekeyed lib wallet old new (.error e) wallet
  | keyless {bytes : Bytes} (e : Throwable) : derivation lib lib.newKeyCrypter new = .ok bytes →
      wallet.keys = [] → Rekeyed lib wallet old new (.error e) (wallet.dated lib)
  | unopened {bytes : Bytes} (e : Throwable) {e' : Throwable} :
      derivation lib lib.newKeyCrypter new = .ok bytes → wallet.keys ≠ [] →
      (wallet.dated lib).opened lib old = .error e' →
      Rekeyed lib wallet old new (.error e) (wallet.dated lib)
  | unencrypted {bytes : Bytes} {plain : Wallet} {e : Throwable} :
      derivation lib lib.newKeyCrypter new = .ok bytes → wallet.keys ≠ [] →
      (wallet.dated lib).opened lib old = .ok plain →
      lib.encryptKeys plain lib.newKeyCrypter bytes = .error e →
      Rekeyed lib wallet old new (.error e) plain
  | encrypted {bytes : Bytes} {plain : Wallet} {keys : List ECKey} :
      derivation lib lib.newKeyCrypter new = .ok bytes → wallet.keys ≠ [] →
      (wallet.dated lib).opened lib old = .ok plain →
      lib.encryptKeys plain lib.newKeyCrypter bytes = .ok keys →
      Rekeyed lib wallet old new (.ok ())
        { plain with keys := keys, keyCrypter := some lib.newKeyCrypter }

/-- What a change of password can leave of the wallet objects. -/
inductive Changed (lib : Lib) (w : World) (old new : Option Chars) : Heap Wallet → Prop
  | untouched : Changed lib w old new w.wallets
  | dated (ref : WalletRef) : w.wallet = some ref →
      Changed lib w old new (w.wallets.write ref ((w.wallets.cell ref).dated lib))
  | opened (ref : WalletRef) (wallet : Wallet) : w.wallet = some ref →
      ((w.wallets.cell ref).dated lib).opened lib old = .ok wallet →
      Changed lib w old new (w.wallets.write ref wallet)
  | encrypted (ref : WalletRef) (wallet : Wallet) (bytes : Bytes) (keys : List ECKey) :
      w.wallet = some ref → handed lib w old new = some (wallet, bytes) →
      ((w.wallets.cell ref).dated lib).opened lib old = .ok wallet →
      lib.encryptKeys wallet lib.newKeyCrypter bytes = .ok keys →
      Changed lib w old new
        (w.wallets.write ref { wallet with keys := keys, keyCrypter := some lib.newKeyCrypter })

theorem write_write {wallets : Heap Wallet} (a b : Wallet) :
    (wallets.write ref a).write ref b = wallets.write ref b := by
  simp [Heap.write]

theorem write_same {wallets : Heap Wallet} : wallets.write ref (wallets.cell ref) = wallets := by
  simp [Heap.write]

theorem changed_of_rekeyed {old new : Option Chars} {r : Except Throwable Unit} {after : Wallet}
    (hw : w.wallet = some ref) (h : Rekeyed lib (w.wallets.cell ref) old new r after) :
    Changed lib w old new (w.wallets.write ref after) := by
  cases h with
  | underived _ =>
    rw [write_same]
    exact .untouched
  | keyless => exact .dated ref hw
  | unopened => exact .dated ref hw
  | unencrypted _ _ ho _ => exact .opened ref _ hw ho
  | encrypted hd hkeys ho hk =>
    refine .encrypted ref _ _ _ hw ?_ ho hk
    simp only [handed, hd, hw, if_neg hkeys, ho]

/-- A key derived from an array is a new one. -/
theorem ends_deriveFresh (array : CharArrayRef) (keyCrypter : KeyCrypter) :
    Ends (deriveKeyAndWipePassword lib (some array) keyCrypter) w fun
      | .ok key, v => ∃ bytes, lib.deriveKey keyCrypter (w.arrays.cell array) = .ok bytes ∧
          key = w.secrets.aesKeys.next ∧
          v = { w with secrets := { w.secrets with
            charArrays := wiped w.arrays (some array), aesKeys := w.secrets.aesKeys.alloc bytes } }
      | .error e, v => lib.deriveKey keyCrypter (w.arrays.cell array) = .error e ∧
          v = { w with secrets := { w.secrets with charArrays := wiped w.arrays (some array) } } := by
  unfold deriveKeyAndWipePassword readChars newAesKey fillChars
  simp only [ends_bind, ends_get, ends_pure, ends_tryFinally, ends_result, ends_modify]
  have hread : w.secrets.charArrays.cell array = w.arrays.cell array := rfl
  rw [hread]
  cases lib.deriveKey keyCrypter (w.arrays.cell array) with
  | error e => exact ⟨rfl, rfl⟩
  | ok bytes => exact ⟨bytes, rfl, rfl, rfl⟩

/-- Decrypting with a derived key, which is wiped; other keys stay. -/
theorem ends_decryptWith (hw : w.wallet = some ref) (key : AesKeyRef) :
    Ends (tryFinally
      (catchIf (Throwable.instanceOf keyCrypterExceptionClass)
        (do
          let (ref, _) ← theWallet
          lib.decrypt ref key)
        fun e => throw (wrongPasswordFrom e))
      (wipeAesKey (some key))) w fun r v => onlyWallets.rel w v ∧
        (∀ q ≠ key, v.secrets.aesKeys.cell q = w.secrets.aesKeys.cell q) ∧
        match r with
        | .ok _ => ∃ keys,
            lib.decryptKeys (w.wallets.cell ref) (w.secrets.aesKeys.cell key) = .ok keys ∧
            v.wallets = w.wallets.write ref
              { w.wallets.cell ref with keys := keys, keyCrypter := none }
        | .error _ => v.wallets = w.wallets ∧ ∃ e,
            lib.decryptKeys (w.wallets.cell ref) (w.secrets.aesKeys.cell key) = .error e := by
  unfold Lib.decrypt wipeAesKey fillAesKey modifyWallet
  rw [ends_tryFinally, ends_catchIf, ends_bind, ends_theWallet hw]
  simp only [ends_bind, ends_get, ends_result, ends_modify]
  have hwipe (q : Nat) (hq : q ≠ key) (bytes : Bytes) :
      (w.secrets.aesKeys.write key bytes).cell q = w.secrets.aesKeys.cell q := Heap.cell_write_ne hq
  cases lib.decryptKeys (w.wallets.cell ref) (w.secrets.aesKeys.cell key) with
  | ok keys => exact ⟨rfl, fun q hq => hwipe q hq _, keys, rfl, rfl⟩
  | error e =>
    dsimp only
    split
    · exact ⟨rfl, fun q hq => hwipe q hq _, rfl, e, rfl⟩
    · exact ⟨rfl, fun q hq => hwipe q hq _, rfl, e, rfl⟩

/-- Decrypting opens the wallet; keys made before stay as they are. -/
theorem ends_decryptOpened {old : Option CharArrayRef} {keyCrypter : KeyCrypter}
    (hw : w.wallet = some ref) (hk : (w.wallets.cell ref).keyCrypter = some keyCrypter) :
    Ends (decryptWallet lib old) w fun r v => onlyWallets.rel w v ∧
      (∀ key < w.secrets.aesKeys.next, v.secrets.aesKeys.cell key = w.secrets.aesKeys.cell key) ∧
      match r with
      | .ok _ => ∃ wallet, (w.wallets.cell ref).opened lib (old.map w.arrays.cell) = .ok wallet ∧
          v.wallets = w.wallets.write ref wallet
      | .error _ => v.wallets = w.wallets ∧
          ∃ e, (w.wallets.cell ref).opened lib (old.map w.arrays.cell) = .error e := by
  unfold decryptWallet aesKeyForPassword
  simp only [bind_assoc]
  rw [ends_bind, ends_theWallet hw]
  dsimp only
  rw [hk]
  dsimp only
  cases old with
  | none => exact ⟨rfl, fun _ _ => rfl, rfl, _, by simp only [Wallet.opened, hk]; rfl⟩
  | some array =>
    rw [ends_bind]
    refine ends_mono (ends_deriveFresh array keyCrypter) fun r u hu => ?_
    cases r with
    | error e =>
      obtain ⟨hd, hu⟩ := hu
      rw [hu]
      refine ⟨rfl, fun _ _ => rfl, rfl, e, ?_⟩
      simp only [Wallet.opened, hk, derivation, Option.map_some, hd]
      rfl
    | ok key =>
      obtain ⟨bytes, hd, hkey, hu⟩ := hu
      have huw : u.wallet = some ref := by rw [hu]; exact hw
      have hws : u.wallets = w.wallets := by rw [hu]
      have hnew : u.secrets.aesKeys = w.secrets.aesKeys.alloc bytes := by rw [hu]
      have hrel : onlyWallets.rel w u := by rw [hu]; rfl
      have hbytes : u.secrets.aesKeys.cell key = bytes := by
        rw [hnew, hkey]
        exact Heap.cell_alloc_self
      refine ends_mono (ends_decryptWith huw key) fun r v hdone => ?_
      obtain ⟨huv, hkeys, hv⟩ := hdone
      refine ⟨onlyWallets.trans hrel huv, fun q hq => ?_, ?_⟩
      · rw [hkeys q (hkey ▸ Nat.ne_of_lt hq), hnew]
        exact Heap.cell_alloc_ne (Nat.ne_of_lt hq)
      · have hopen : (w.wallets.cell ref).opened lib (some (w.arrays.cell array)) =
            (lib.decryptKeys (w.wallets.cell ref) bytes >>= fun keys =>
              pure { w.wallets.cell ref with keys := keys, keyCrypter := none }) := by
          simp only [Wallet.opened, hk, derivation, hd]
          rfl
        cases r with
        | error e =>
          obtain ⟨hwallets, e', hdec⟩ := hv
          rw [hws, hbytes] at hdec
          refine ⟨hwallets.trans hws, e', ?_⟩
          rw [Option.map_some, hopen, hdec]
          rfl
        | ok _ =>
          obtain ⟨keys, hdec, hwallets⟩ := hv
          rw [hws, hbytes] at hdec
          rw [hws] at hwallets
          refine ⟨_, ?_, hwallets⟩
          rw [Option.map_some, hopen, hdec]
          rfl

/-- A change of password from the new key to the point where the wallet is encrypted with it. -/
theorem ends_openedWithOld {old : Option CharArrayRef} (hw : w.wallet = some ref) : Ends (do
      updateLastWalletChange lib ref
      let encrypted ← isWalletEncrypted
      (if encrypted then decryptWallet lib old else pure ())) w fun r v => onlyWallets.rel w v ∧
        (∀ key < w.secrets.aesKeys.next, v.secrets.aesKeys.cell key = w.secrets.aesKeys.cell key) ∧
        match r with
        | .ok _ => (w.wallets.cell ref).keys ≠ [] ∧ ∃ plain,
            ((w.wallets.cell ref).dated lib).opened lib (old.map w.arrays.cell) = .ok plain ∧
            v.wallets = w.wallets.write ref plain
        | .error _ => v.wallets = w.wallets.write ref ((w.wallets.cell ref).dated lib) ∧
            ((w.wallets.cell ref).keys = [] ∨ (w.wallets.cell ref).keys ≠ [] ∧ ∃ e,
              ((w.wallets.cell ref).dated lib).opened lib (old.map w.arrays.cell) = .error e) := by
  unfold updateLastWalletChange modifyWallet
  rw [ends_bind, ends_modify]
  dsimp only
  have hcell : (w.wallets.write ref ((w.wallets.cell ref).dated lib)).cell ref =
      (w.wallets.cell ref).dated lib := Heap.cell_write_self
  have hu : ∃ u, u = { w with
      wallets := w.wallets.write ref ((w.wallets.cell ref).dated lib) } := ⟨_, rfl⟩
  obtain ⟨u, hu⟩ := hu
  have hfold : { w with wallets := w.wallets.write ref { w.wallets.cell ref with
      lastWalletChangeDate := some lib.currentTimeMillis } } = u := hu.symm
  rw [hfold]
  have huw : u.wallet = some ref := by rw [hu]; exact hw
  have hws : u.wallets = w.wallets.write ref ((w.wallets.cell ref).dated lib) := by rw [hu]
  have huc : u.wallets.cell ref = (w.wallets.cell ref).dated lib := by rw [hws, hcell]
  have hsecrets : u.secrets = w.secrets := by rw [hu]
  have hrel : onlyWallets.rel w u := by rw [hu]; rfl
  have harrays : old.map u.arrays.cell = old.map w.arrays.cell := by
    rw [World.arrays, World.arrays, hsecrets]
  rw [ends_bind]
  refine ends_mono (ends_isWalletEncrypted huw) fun r v hv => ?_
  cases r with
  | error e =>
    obtain ⟨rfl, hfirst⟩ := hv
    refine ⟨hrel, fun _ _ => by rw [hsecrets], hws, .inl ?_⟩
    cases hkeys : (w.wallets.cell ref).keys with
    | nil => rfl
    | cons key keys => simp [firstKeyRefusal, huw, huc, Wallet.dated, hkeys] at hfirst
  | ok encrypted =>
    obtain ⟨rfl, hfirst, henc⟩ := hv
    rw [huc] at henc
    have hkeys : (w.wallets.cell ref).keys ≠ [] := by
      intro hnil
      simp [firstKeyRefusal, huw, huc, Wallet.dated, hnil] at hfirst
    dsimp only
    cases hc : (w.wallets.cell ref).keyCrypter with
    | none =>
      have hplain : encrypted = false := by rw [henc, Wallet.isEncrypted, Wallet.dated, hc]; rfl
      rw [hplain, if_neg Bool.false_ne_true, ends_pure]
      refine ⟨hrel, fun _ _ => by rw [hsecrets], hkeys, _, ?_, hws⟩
      simp only [Wallet.opened, Wallet.dated, hc]
    | some keyCrypter =>
      have hprotected : encrypted = true := by rw [henc, Wallet.isEncrypted, Wallet.dated, hc]; rfl
      rw [hprotected]
      simp only [if_true]
      have hvc : (v.wallets.cell ref).keyCrypter = some keyCrypter := by rw [huc]; exact hc
      refine ends_mono (ends_decryptOpened huw hvc) fun r t hdone => ?_
      obtain ⟨hvt, hold, ht⟩ := hdone
      rw [huc, harrays] at ht
      rw [hsecrets] at hold
      refine ⟨onlyWallets.trans hrel hvt, hold, ?_⟩
      cases r with
      | error e =>
        obtain ⟨hsame, ho⟩ := ht
        exact ⟨hsame.trans hws, .inr ⟨hkeys, ho⟩⟩
      | ok _ =>
        obtain ⟨plain, ho, hcells⟩ := ht
        rw [hws, write_write] at hcells
        exact ⟨hkeys, plain, ho, hcells⟩

/-- A change of password once the new key is there. -/
theorem ends_rekey {old : Option CharArrayRef} {new : Option Chars} {key : AesKeyRef}
    (hw : w.wallet = some ref) (hkey : key < w.secrets.aesKeys.next)
    (hnew : derivation lib lib.newKeyCrypter new = .ok (w.secrets.aesKeys.cell key)) : Ends (do
      updateLastWalletChange lib ref
      let encrypted ← isWalletEncrypted
      (if encrypted then decryptWallet lib old else pure ())
      tryFinally
        (do
          let (ref, _) ← theWallet
          lib.encrypt ref lib.newKeyCrypter key)
        (wipeAesKey (some key))) w fun r v => onlyWallets.rel w v ∧
          ∃ after, Rekeyed lib (w.wallets.cell ref) (old.map w.arrays.cell) new r after ∧
            v.wallets = w.wallets.write ref after := by
  simp only [← bind_assoc]
  rw [ends_bind, bind_assoc]
  refine ends_mono (ends_openedWithOld hw) fun r u hu => ?_
  cases r with
  | error e =>
    obtain ⟨hrel, -, hcells, hwhy⟩ := hu
    refine ⟨hrel, _, ?_, hcells⟩
    rcases hwhy with hnil | ⟨hkeys, e', ho⟩
    · exact .keyless e hnew hnil
    · exact .unopened e hnew hkeys ho
  | ok _ =>
    obtain ⟨hrel, hold, hkeys, plain, ho, hcells⟩ := hu
    have huw : u.wallet = some ref := by rw [hrel]; exact hw
    have huc : u.wallets.cell ref = plain := by rw [hcells]; exact Heap.cell_write_self
    refine ends_mono (ends_encryptNew huw key) fun r t hdone => ?_
    obtain ⟨hut, -, ht⟩ := hdone
    refine ⟨onlyWallets.trans hrel hut, ?_⟩
    rw [huc, hold key hkey] at ht
    cases hk : lib.encryptKeys plain lib.newKeyCrypter (w.secrets.aesKeys.cell key) with
    | error e =>
      rw [hk] at ht
      obtain ⟨rfl, ht⟩ := ht
      exact ⟨plain, .unencrypted hnew hkeys ho hk, ht.trans hcells⟩
    | ok keys =>
      rw [hk] at ht
      obtain ⟨rfl, ht⟩ := ht
      refine ⟨_, .encrypted hnew hkeys ho hk, ?_⟩
      rw [ht, hcells, write_write]

/-- A change of password, on a loaded wallet. The old password is read when the array of the new one has
    been zeroed. -/
theorem ends_rekeyed {old new : Option CharArrayRef} (hw : w.wallet = some ref) :
    Ends (changeWalletPassword lib old new) w fun r v => onlyWallets.rel w v ∧
      ∃ after, Rekeyed lib (w.wallets.cell ref) (old.map (wiped w.arrays new).cell)
        (new.map w.arrays.cell) r after ∧ v.wallets = w.wallets.write ref after := by
  unfold changeWalletPassword
  cases new with
  | none => exact ⟨rfl, _, .underived rfl, write_same.symm⟩
  | some array =>
    rw [ends_bind]
    refine ends_mono (ends_deriveFresh array lib.newKeyCrypter) fun r u hu => ?_
    cases r with
    | error e =>
      obtain ⟨hd, hu⟩ := hu
      rw [hu]
      exact ⟨rfl, _, .underived hd, write_same.symm⟩
    | ok key =>
      obtain ⟨bytes, hd, hkey, hu⟩ := hu
      have hrel : onlyWallets.rel w u := by rw [hu]; rfl
      have hws : u.wallets = w.wallets := by rw [hu]
      have huw : u.wallet = some ref := by rw [hu]; exact hw
      have hkeys : u.secrets.aesKeys = w.secrets.aesKeys.alloc bytes := by rw [hu]
      have harrays : u.arrays = wiped w.arrays (some array) := by rw [hu]; rfl
      have hnew : derivation lib lib.newKeyCrypter (some (w.arrays.cell array)) =
          .ok (u.secrets.aesKeys.cell key) := by
        rw [hkeys, hkey, Heap.cell_alloc_self]
        exact hd
      have hlt : key < u.secrets.aesKeys.next := by rw [hkeys, hkey]; exact Nat.lt_succ_self _
      dsimp only
      rw [ends_bind, ends_theWallet huw]
      dsimp only
      refine ends_mono (ends_rekey huw hlt hnew) fun r v hdone => ?_
      obtain ⟨huv, after, hafter, hv⟩ := hdone
      rw [hws] at hafter hv
      rw [harrays] at hafter
      exact ⟨onlyWallets.trans hrel huv, after, hafter, hv⟩

theorem map_wiped {old new : Option CharArrayRef} (hne : ∀ a, old = some a → new ≠ some a)
    (arrays : Heap Chars) : old.map (wiped arrays new).cell = old.map arrays.cell := by
  cases old with
  | none => rfl
  | some a =>
    cases new with
    | none => rfl
    | some b => exact congrArg some (Heap.cell_write_ne fun h => hne a rfl (congrArg some h.symm))

/-- Everything a change of password can do. The two passwords come in arrays of their own. -/
theorem ends_changeWalletPassword {old new : Option CharArrayRef}
    (hne : ∀ a, old = some a → new ≠ some a) :
    Ends (changeWalletPassword lib old new) w fun _ v => onlyWallets.rel w v ∧
      Changed lib w (old.map w.arrays.cell) (new.map w.arrays.cell) v.wallets := by
  cases hw : w.wallet with
  | none =>
    unfold changeWalletPassword
    rw [ends_bind]
    refine ends_mono (ends_deriveKey lib.newKeyCrypter) fun r u hu => ?_
    cases r with
    | error e =>
      rw [hu.1]
      exact ⟨rfl, .untouched⟩
    | ok key =>
      have huw : u.wallet = none := by rw [hu.1]; exact hw
      unfold theWallet
      simp only [ends_bind, ends_get, ends_deref, huw]
      rw [hu.1]
      exact ⟨rfl, .untouched⟩
  | some ref =>
    refine ends_mono (ends_rekeyed hw) fun r v hdone => ?_
    obtain ⟨hrel, after, hafter, hv⟩ := hdone
    refine ⟨hrel, ?_⟩
    rw [map_wiped hne] at hafter
    rw [hv]
    exact changed_of_rekeyed hw hafter

/-- A loaded wallet with one key and a password, and an array with another password. -/
def protectedWallet : World :=
  { World.initial .none with
    wallet := some 0
    wallets := ⟨1, fun _ => { Wallet.empty with keys := [⟨1, 0⟩], keyCrypter := some ⟨0⟩ }⟩
    secrets := { (World.initial .none).secrets with charArrays := ⟨1, fun _ => [112]⟩ } }

/-! ### Custody -/

variable {β : Type} {view : ECKey → β} {p : File}

/-- `wallet.encrypt` keeps what `view` looks at. -/
def Lib.EncryptsKeeping (lib : Lib) (view : ECKey → β) : Prop :=
  ∀ wallet keyCrypter bytes keys, lib.encryptKeys wallet keyCrypter bytes = .ok keys →
    keys.map view = wallet.seen view

/-- `wallet.decrypt` does. -/
def Lib.DecryptsKeeping (lib : Lib) (view : ECKey → β) : Prop :=
  ∀ wallet bytes keys, lib.decryptKeys wallet bytes = .ok keys → keys.map view = wallet.seen view

/-- On the wallet a change of password hands to it, `wallet.encrypt` keeps what `view` looks at. -/
def EncryptsHanded (view : ECKey → β) (lib : Lib) (w : World) (old new : Option Chars) : Prop :=
  ∀ x ∈ handed lib w old new, ∀ keys,
    lib.encryptKeys x.1 lib.newKeyCrypter x.2 = .ok keys → keys.map view = x.1.seen view

theorem opened_keeps (hd : lib.DecryptsKeeping view) {wallet opened : Wallet} {old : Option Chars}
    (h : wallet.opened lib old = .ok opened) :
    opened.seen view = wallet.seen view ∧ opened.autosaveFile = wallet.autosaveFile := by
  rcases opened_cases h with ⟨-, rfl⟩ | ⟨keyCrypter, bytes, keys, -, -, hk, rfl⟩
  · exact ⟨rfl, rfl⟩
  · exact ⟨hd wallet bytes keys hk, rfl⟩

theorem inherits_changed (hd : lib.DecryptsKeeping view) {old new : Option Chars}
    (he : EncryptsHanded view lib w old new) {after : Heap Wallet} (h : Changed lib w old new after) :
    Inherits view w.wallets after := by
  cases h with
  | untouched => exact inherits_refl _
  | dated ref hw => exact inherits_write rfl rfl
  | opened ref wallet hw ho =>
    obtain ⟨hseen, hauto⟩ := opened_keeps hd ho
    exact inherits_write hseen hauto
  | encrypted ref wallet bytes keys hw hh ho hk =>
    obtain ⟨hseen, hauto⟩ := opened_keeps hd ho
    exact inherits_write ((he _ hh keys hk).trans hseen) hauto

theorem custody_changeWalletPassword (hd : lib.DecryptsKeeping view) {old new : Option CharArrayRef}
    (hne : ∀ a, old = some a → new ≠ some a)
    (he : EncryptsHanded view lib w (old.map w.arrays.cell) (new.map w.arrays.cell)) :
    Ends (changeWalletPassword lib old new) w fun _ v => (custody view p).rel w v := by
  refine ends_mono (ends_changeWalletPassword hne) fun r v ⟨hv, hchanged⟩ => ?_
  refine custody_of (inherits_changed hd he hchanged) ?_
  rw [hv]
  rfl

/-- Two passwords are passed in two arrays. -/
theorem ends_withPasswords {α : Type} {Q : Except Throwable α → World → Prop} {old new : Option Chars}
    {code : Option CharArrayRef → Option CharArrayRef → Java α}
    (h : ∀ oldArray newArray (s : Secrets), (∀ a, oldArray = some a → newArray ≠ some a) →
      oldArray.map s.charArrays.cell = old → newArray.map s.charArrays.cell = new →
        Ends (code oldArray newArray) { w with secrets := s } Q) :
    Ends (withPassword old fun oldArray => withPassword new (code oldArray)) w Q := by
  unfold withPassword newCharArray
  cases old with
  | none =>
    cases new with
    | none => exact h none none w.secrets (fun a ha => by cases ha) rfl rfl
    | some n =>
      simp only [ends_bind, ends_pure, ends_get, ends_modify]
      refine h none _ _ (fun a ha => by cases ha) rfl ?_
      simp
  | some o =>
    cases new with
    | none =>
      simp only [ends_bind, ends_pure, ends_get, ends_modify]
      refine h _ none _ (fun a _ hn => by cases hn) ?_ rfl
      simp
    | some n =>
      simp only [ends_bind, ends_pure, ends_get, ends_modify]
      have hlt : w.secrets.charArrays.next ≠ (w.secrets.charArrays.alloc o).next :=
        Nat.ne_of_lt (Nat.lt_succ_self _)
      refine h _ _ _ (fun a ha hn => ?_) ?_ ?_
      · exact hlt ((Option.some.inj ha).trans (Option.some.inj hn).symm)
      · simp [Heap.cell_alloc_ne hlt]
      · exact congrArg some Heap.cell_alloc_self

end BitcoinKit

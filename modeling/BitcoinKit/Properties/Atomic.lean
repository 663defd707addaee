import BitcoinKit.Java.Rekeying

/-! A change of password, all or nothing. It dates the wallet before anything is known to work, and opens
    it before it is known that it can be closed again:

        derive new key ─▶ date ─▶ decrypt with the old ─▶ encrypt with the new
          nothing           date      date                   date, and the wallet stays open

    The second line is what a throw at that step leaves behind. -/

namespace BitcoinKit
open Schemes

variable {lib : Lib} {w : World} {ref : WalletRef} {wallet left : Wallet} {old new : Option Chars}
  {r : Except Throwable Unit}

/-- The wallet has a new crypter, and its keys are encrypted under the key that crypter derives from the
    password. -/
def ProtectedWith (lib : Lib) (password : Option Chars) (wallet : Wallet) : Prop :=
  wallet.keyCrypter = some lib.newKeyCrypter ∧ ∃ bytes plain,
    derivation lib lib.newKeyCrypter password = .ok bytes ∧ plain.keyCrypter = none ∧
      lib.encryptKeys plain lib.newKeyCrypter bytes = .ok wallet.keys

/-- What a change of password should leave: a wallet under the new password that carries the time of the
    call, or when it throws the wallet of before. -/
structure AllOrNothing (lib : Lib) (before : Wallet) (new : Option Chars)
    (r : Except Throwable Unit) (left : Wallet) : Prop where
  done : r = .ok () → ProtectedWith lib new left ∧
    left.lastWalletChangeDate = some lib.currentTimeMillis
  undone : ∀ e, r = .error e → left.keys = before.keys ∧ left.keyCrypter = before.keyCrypter ∧
    left.lastWalletChangeDate = before.lastWalletChangeDate

/-- Once the new key is there, every step succeeds; or the wallet carries the time of the call already, and
    is not opened in vain. -/
def GoesThrough (lib : Lib) (wallet : Wallet) (old new : Option Chars) : Prop :=
  ∀ bytes, derivation lib lib.newKeyCrypter new = .ok bytes →
    (wallet.keys ≠ [] ∧ ∃ plain keys, (wallet.dated lib).opened lib old = .ok plain ∧
      lib.encryptKeys plain lib.newKeyCrypter bytes = .ok keys) ∨
    (wallet.lastWalletChangeDate = some lib.currentTimeMillis ∧
      (wallet.isEncrypted → wallet.keys ≠ [] → ∃ e, (wallet.dated lib).opened lib old = .error e))

/-- An opened wallet has no crypter and the date it had. -/
theorem opened_plain {plain : Wallet} (h : wallet.opened lib old = .ok plain) :
    plain.keyCrypter = none ∧ plain.lastWalletChangeDate = wallet.lastWalletChangeDate := by
  rcases opened_cases h with ⟨hnone, rfl⟩ | ⟨keyCrypter, bytes, keys, -, -, -, rfl⟩
  · exact ⟨hnone, rfl⟩
  · exact ⟨rfl, rfl⟩

/-- Opening a wallet that was dated leaves the keys and the crypter it had only if it was not protected. -/
theorem opened_same_iff {plain : Wallet} (h : (wallet.dated lib).opened lib old = .ok plain) :
    (plain.keys = wallet.keys ∧ plain.keyCrypter = wallet.keyCrypter ∧
      plain.lastWalletChangeDate = wallet.lastWalletChangeDate) ↔
    wallet.lastWalletChangeDate = some lib.currentTimeMillis ∧ wallet.isEncrypted = false := by
  have hplain := opened_plain h
  have hdate : plain.lastWalletChangeDate = some lib.currentTimeMillis := hplain.2
  have hopen : wallet.isEncrypted = false ↔ wallet.keyCrypter = none := by simp [Wallet.isEncrypted]
  rw [hplain.1, hdate, hopen]
  constructor
  · rintro ⟨-, hcrypter, hsame⟩
    exact ⟨hsame.symm, hcrypter.symm⟩
  · rintro ⟨hsame, hnone⟩
    refine ⟨?_, hnone.symm, hsame.symm⟩
    rcases opened_cases h with ⟨-, rfl⟩ | ⟨keyCrypter, bytes, keys, hsome, -⟩
    · rfl
    · cases hnone.symm.trans hsome

/-- A throw that left only the date. -/
theorem dated_same_iff {e : Throwable} : AllOrNothing lib wallet new (.error e) (wallet.dated lib) ↔
    wallet.lastWalletChangeDate = some lib.currentTimeMillis := by
  refine ⟨fun h => (h.undone e rfl).2.2.symm, fun h => ⟨nofun, fun _ _ => ?_⟩⟩
  exact ⟨rfl, rfl, h.symm⟩

/-- How a change of password ends decides whether it was all or nothing. -/
theorem allOrNothing_iff (h : Rekeyed lib wallet old new r left) :
    AllOrNothing lib wallet new r left ↔ GoesThrough lib wallet old new := by
  cases h with
  | underived hd =>
    refine iff_of_true ⟨nofun, fun _ _ => ⟨rfl, rfl, rfl⟩⟩ fun bytes hb => ?_
    rw [hd] at hb
    cases hb
  | keyless e hd hnil =>
    rw [dated_same_iff]
    refine ⟨fun hsame _ _ => .inr ⟨hsame, fun _ hne => absurd hnil hne⟩, fun hthrough => ?_⟩
    rcases hthrough _ hd with ⟨hne, -⟩ | ⟨hsame, -⟩
    · exact absurd hnil hne
    · exact hsame
  | unopened e hd hne ho =>
    rw [dated_same_iff]
    refine ⟨fun hsame _ _ => .inr ⟨hsame, fun _ _ => ⟨_, ho⟩⟩, fun hthrough => ?_⟩
    rcases hthrough _ hd with ⟨-, plain, keys, hok, -⟩ | ⟨hsame, -⟩
    · cases ho.symm.trans hok
    · exact hsame
  | @unencrypted bytes _ e hd hne ho hk =>
    have hleft : AllOrNothing lib wallet new (.error e) left ↔
        wallet.lastWalletChangeDate = some lib.currentTimeMillis ∧ wallet.isEncrypted = false := by
      rw [← opened_same_iff ho]
      exact ⟨fun h => h.undone e rfl, fun h => ⟨nofun, fun _ _ => h⟩⟩
    rw [hleft]
    refine ⟨fun ⟨hsame, hopen⟩ _ _ => .inr ⟨hsame, fun henc => ?_⟩, fun hthrough => ?_⟩
    · rw [hopen] at henc
      cases henc
    · rcases hthrough bytes hd with ⟨-, plain, keys, hok, hkeys⟩ | ⟨hsame, hvain⟩
      · obtain rfl := Except.ok.inj (ho.symm.trans hok)
        cases hk.symm.trans hkeys
      · refine ⟨hsame, Bool.eq_false_iff.mpr fun henc => ?_⟩
        obtain ⟨e', he⟩ := hvain henc hne
        cases ho.symm.trans he
  | @encrypted bytes plain keys hd hne ho hk =>
    have hplain := opened_plain ho
    refine iff_of_true ⟨fun _ => ⟨⟨rfl, bytes, plain, hd, hplain.1, hk⟩, hplain.2⟩, nofun⟩ ?_
    intro bytes' hd'
    obtain rfl := Except.ok.inj (hd.symm.trans hd')
    exact .inl ⟨hne, plain, keys, ho, hk⟩

/-- On a loaded wallet a change of password is all or nothing exactly when it goes through. The old password
    is read when the array of the new one has been zeroed. -/
theorem change_atomic_iff (lib : Lib) (w : World) (ref : WalletRef) (old new : Option CharArrayRef)
    (hw : w.wallet = some ref) :
    AllOrNothing lib (w.wallets.cell ref) (new.map w.arrays.cell)
        (outcome (changeWalletPassword lib old new w))
        ((after (changeWalletPassword lib old new w)).wallets.cell ref) ↔
      GoesThrough lib (w.wallets.cell ref) (old.map (wiped w.arrays new).cell)
        (new.map w.arrays.cell) := by
  obtain ⟨-, left, hleft, hcells⟩ : Ends (changeWalletPassword lib old new) w _ := ends_rekeyed hw
  rw [hcells, Heap.cell_write_self]
  exact allOrNothing_iff hleft

/-- A protected wallet, its password, and a new one. -/
def passwordsGiven : World :=
  { protectedWallet with
    secrets := { protectedWallet.secrets with charArrays := ⟨2, fun array => [112 + array.toUInt16]⟩ } }

theorem change_atomic_given : AllOrNothing Lib.fair (passwordsGiven.wallets.cell 0) (some [113])
    (outcome (changeWalletPassword Lib.fair (some 0) (some 1) passwordsGiven))
    ((after (changeWalletPassword Lib.fair (some 0) (some 1) passwordsGiven)).wallets.cell 0) := by
  refine (change_atomic_iff Lib.fair passwordsGiven 0 (some 0) (some 1) rfl).mpr fun bytes _ => .inl ?_
  exact ⟨by decide +kernel, _, _, rfl, rfl⟩

/-- Without the old password the call throws, and the wallet carries the time of the call. -/
theorem date_of_no_change : ¬ AllOrNothing Lib.fair (protectedWallet.wallets.cell 0) (some [112])
    (outcome (changeWalletPassword Lib.fair none (some 0) protectedWallet))
    ((after (changeWalletPassword Lib.fair none (some 0) protectedWallet)).wallets.cell 0) := by
  intro h
  have hundone := h.undone (wrongPasswordException "No password provided.") (by decide +kernel)
  have hdate : ((after (changeWalletPassword Lib.fair none (some 0)
      protectedWallet)).wallets.cell 0).lastWalletChangeDate = some 1 := by decide +kernel
  rw [hdate] at hundone
  cases hundone.2.2

end BitcoinKit

import BitcoinKit.Java.Rekeying

/-! A wallet's key and the operations that write wallet files. Only `createWallet` brings a new key, and
    only where there is no file; every other write to the file, the late saves of objects used before
    included, writes the keys that are there already.

        no file ── createWallet ──▶ file with a key ──▶ … the same key for good -/

namespace BitcoinKit
open Schemes

variable {β : Type} {view : ECKey → β} {p : File} {w : World}

/-- The data directory stays, and a change of password keeps what `view` looks at. -/
def Careful (view : ECKey → β) (w : World) : Happening → Prop
  | .call (.setDataDirectory _) => False
  | .call (.changeWalletPassword lib old new) =>
    lib.DecryptsKeeping view ∧ EncryptsHanded view lib w old new
  | _ => True

/-- A call into the manager, whatever it is. -/
theorem custody_step (l : Label) (hc : Custody view p w) (hl : Careful view w (.call l)) :
    (custody view p).rel w (step w l) := by
  have haside (s : Secrets) : (custody view p).rel w { w with activity := 0, secrets := s } :=
    custody_same rfl rfl
  have hc' (s : Secrets) : Custody view p { w with activity := 0, secrets := s } := (haside s hc).1
  have hafter {code : Java Unit} {s : Secrets}
      (h : Ends code { w with activity := 0, secrets := s } fun _ v =>
        (custody view p).rel { w with activity := 0, secrets := s } v) :
      Ends code { w with activity := 0, secrets := s } fun _ v => (custody view p).rel w v :=
    ends_mono h fun r v hv => (custody view p).trans (haside s) hv
  have hbehalf {code : Java Unit}
      (h : Ends code { w with activity := 0 } fun _ v => (custody view p).rel w v) :
      (custody view p).rel w (after (onBehalfOf 0 code w)) := by
    have hends : Ends (onBehalfOf 0 code) w fun _ v => (custody view p).rel w v := by
      unfold onBehalfOf
      rw [ends_bind, ends_modify]
      exact h
    exact hends
  have htraffic (h : l.isLifecycle = false) : (custody view p).rel w (step w l) :=
    moves_offLifecycle custody_traffic custody_payments custody_tracking (fun _ _ => custody_same rfl rfl)
      (fun _ => moves_native fun _ => custody_same rfl rfl) l h w
  cases l with
  | setDataDirectory path => exact absurd hl id
  | start lib => exact hbehalf (hafter (custody_start (hc' w.secrets)))
  | createWallet lib password =>
    exact hbehalf (ends_withPassword password fun array s => hafter (custody_createWallet (hc' s)))
  | stop lib => exact hbehalf (hafter (custody_stop (hc' w.secrets)))
  | resetBlockchain lib =>
    exact hbehalf (hafter (ends_of_moves (custody_resetBlockchain lib)))
  | deleteBlockchainDataFile lib =>
    exact hbehalf (hafter (ends_of_moves (moves_deleteBlockchainDataFile custody_chain lib)))
  | exportWallet lib path => exact hbehalf (hafter (custody_exportWallet (hc' w.secrets) path))
  | changeWalletPassword lib old new =>
    obtain ⟨hd, he⟩ := hl
    refine hbehalf (ends_withPasswords fun oldArray newArray s hne hold hnew => hafter ?_)
    exact custody_changeWalletPassword hd hne (by rw [← hold, ← hnew] at he; exact he)
  | _ => exact htraffic rfl

/-- Anything that happens keeps custody, and the keys of the file. -/
theorem custody_live (h : Happening) (hc : Custody view p w) (hh : Careful view w h) :
    (custody view p).rel w (live w h) := by
  cases h with
  | call label => exact custody_step label hc hh
  | autosave lib ref => exact custody_autosave hc
  | restart =>
    intro _
    refine ⟨⟨hc.path, fun f hf => ?_, fun r hr => ?_, fun r f hf => ?_⟩, fun ks hks => hks⟩
    · cases hf
    · cases hr
    · cases hf

def walletPath (directory : Option String) : File := directory.getD "null" ++ "/bitcoinkit.wallet"

theorem custody_placed (files : Files) (directory : Option String) :
    Custody view (walletPath directory) (World.placed files directory) := by
  refine ⟨rfl, fun f hf => ?_, fun r hr => ?_, fun r f hf => ?_⟩
  · cases hf
  · cases hr
  · cases hf

/-- Over a whole run. -/
theorem custody_run (hs : List Happening) (hc : Custody view p w)
    (hm : Meets live (Careful view) w hs) :
    Custody view p (run live w hs) ∧
      ∀ ks, w.shown view p = some ks → (run live w hs).shown view p = some ks := by
  induction hs generalizing w with
  | nil => exact ⟨hc, fun ks hks => hks⟩
  | cons h hs ih =>
    obtain ⟨hh, hrest⟩ := hm
    obtain ⟨hv, hwv⟩ := custody_live h hc hh hc
    obtain ⟨hu, hvu⟩ := ih hv hrest
    exact ⟨hu, fun ks hks => hvu ks (hwv ks hks)⟩

/-- What bitcoinj is relied on for: encrypting and decrypting keep the public keys. -/
def KeepsIdentity (_ : World) : Happening → Prop
  | .call (.setDataDirectory _) => False
  | .call (.changeWalletPassword lib _ _) =>
    lib.DecryptsKeeping ECKey.pubKey ∧ lib.EncryptsKeeping ECKey.pubKey
  | _ => True

theorem careful_of_keepsIdentity (w : World) (h : Happening) (hh : KeepsIdentity w h) :
    Careful ECKey.pubKey w h := by
  cases h with
  | call label =>
    cases label with
    | setDataDirectory path => exact hh
    | changeWalletPassword lib old new =>
      obtain ⟨hd, he⟩ := hh
      exact ⟨hd, fun x _ keys hk => he x.1 _ x.2 keys hk⟩
    | _ => trivial
  | _ => trivial

/-- Once the wallet file holds a wallet, it holds one with the same key after everything that follows,
    and so does the manager's wallet. -/
theorem key_never_overwritten (files : Files) (directory : Option String)
    (before later : List Happening)
    (hm : Meets live KeepsIdentity (World.placed files directory) (before ++ later)) (ks : List Nat)
    (hks : (run live (World.placed files directory) before).shown ECKey.pubKey (walletPath directory) =
      some ks) :
    let w := run live (World.placed files directory) (before ++ later)
    w.shown ECKey.pubKey (walletPath directory) = some ks ∧
      ∀ ref, w.wallet = some ref → (w.wallets.cell ref).seen ECKey.pubKey = ks := by
  have hcareful := meets_mono careful_of_keepsIdentity _ _ hm
  obtain ⟨hbefore, hlater⟩ := (meets_append _ before later).mp hcareful
  have hc := (custody_run before (custody_placed files directory) hbefore).1
  obtain ⟨hv, hkept⟩ := custody_run later hc hlater
  intro w
  have hw : w = run live (run live (World.placed files directory) before) later :=
    run_append _ before later
  rw [hw]
  refine ⟨hkept ks hks, fun ref href => ?_⟩
  have hsame := (hv.current ref href).same
  rw [hkept ks hks] at hsame
  exact (Option.some.inj hsame).symm

def keyMade : List Happening := [.call (.start .fair), .call (.createWallet .fair (some [112]))]

/-- The wallet is protected again, saved late, and taken up by a second process. -/
def keyTravels : List Happening :=
  [.call (.changeWalletPassword .fair (some [112]) (some [113])), .autosave .fair 0,
   .call (.stop .fair), .restart, .call (.start .fair), .call (.exportWallet .fair "backup")]

theorem fair_keeps : (Lib.fair).DecryptsKeeping ECKey.pubKey ∧ (Lib.fair).EncryptsKeeping ECKey.pubKey := by
  refine ⟨fun wallet bytes keys h => ?_, fun wallet keyCrypter bytes keys h => ?_⟩
  · cases h
    rfl
  · cases h
    rfl

theorem key_travels :
    let w := run live (World.placed .none (some "data")) (keyMade ++ keyTravels)
    w.shown ECKey.pubKey (walletPath (some "data")) = some [1] ∧
      ∀ ref, w.wallet = some ref → (w.wallets.cell ref).seen ECKey.pubKey = [1] :=
  key_never_overwritten .none (some "data") keyMade keyTravels
    ⟨trivial, trivial, fair_keeps, trivial, trivial, trivial, trivial, trivial, trivial⟩ [1]
    (by decide +kernel)

end BitcoinKit

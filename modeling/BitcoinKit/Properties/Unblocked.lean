import BitcoinKit.Cocoa.Calls
import BitcoinKit.Java.Turns

/-! A failed send and the sends after it. While `_sending` is set every further send is refused. It is
    reset when the broadcast completes, and at once when the bridge hands an error over; an exception
    that the bridge raises again passes by the reset. -/

namespace BitcoinKit
open Schemes

/-- The next send is not refused. -/
def Cocoa.unblocked (c : Cocoa) : Prop := c.sending = false ∧ c.sendCompletionBlock = none

instance (c : Cocoa) : Decidable c.unblocked := inferInstanceAs (Decidable (_ ∧ _))

/-- How the Java method ends that a send calls. -/
def javaSendCoins (lib : Lib) (c : Cocoa) (coins : UInt64) (recipient : String)
    (password : Option NSData) : Except Throwable Unit :=
  outcome ((c.withArrayFor password).runOf
    (onBehalfOf 0 (sendCoins lib (amountText coins) recipient (c.arrayFor password))))

/-- Java's `sendCoins` leaves a future exactly when it returns. -/
theorem future_iff_returned (lib : Lib) (c : Cocoa) (amount recipient : String)
    (array : Option CharArrayRef) :
    let ended := c.runOf (onBehalfOf 0 (sendCoins lib amount recipient array))
    (after ended).pending = c.java.pending ↔ outcome ended ≠ .ok () := by
  have h : Ends (onBehalfOf 0 (sendCoins lib amount recipient array))
      { c.java with natives := [] } fun r v => v.pending = c.java.pending ↔ r ≠ .ok () := by
    unfold onBehalfOf
    rw [ends_bind, ends_modify]
    refine ends_mono (ends_sendCoins amount recipient array) fun r v hv => ?_
    have hp : v.pending = v.ledger.pending := rfl
    rw [hp]
    generalize v.ledger = L at hv ⊢
    cases hv with
    | refused e => simp [World.ledger]
    | stranded e hb => simp [World.ledger]
    | sent hb => simp [World.ledger]
  exact h

/-- Whether a send leaves a future, and whether it blocks the next, by the way its Java call ends. -/
theorem ends_sendCoinsToRecipient (lib : Lib) {c : Cocoa} (coins : UInt64) (recipient : String)
    (password : Option NSData) (completion : Option Block) (hc : c.sending = false) :
    Ends (sendCoinsToRecipient lib coins recipient password completion) c fun _ d =>
      (d.java.pending = c.java.pending ↔
        javaSendCoins lib c coins recipient password ≠ .ok ()) ∧
      (d.unblocked ↔ ∃ e, javaSendCoins lib c coins recipient password = .error e ∧
        HandedOver true e) := by
  unfold sendCoinsToRecipient
  rw [ends_bind, ends_get]
  dsimp only
  rw [if_neg (by simp [hc]), ends_bind, ends_modify]
  dsimp only
  rw [ends_bind, ends_jCharArray]
  dsimp only
  rw [ends_bind]
  refine ends_mono (ends_callVoidMethod true _) fun r d ⟨hr, hd⟩ => ?_
  replace hd := hd ▸ onlyAnswers_ran _
  have hfuture := future_iff_returned lib (c.withArrayFor password) (amountText coins) recipient
    (c.arrayFor password)
  have hkept : (c.withArrayFor password).java.pending = c.java.pending := by cases password <;> rfl
  rw [hkept] at hfuture
  have hsending : d.sending = true := by rw [hd]; rfl
  have hblocked : ¬ d.unblocked := fun h => by simp [Cocoa.unblocked, hsending] at h
  have hpending : d.java.pending = c.java.pending ↔
      javaSendCoins lib c coins recipient password ≠ .ok () := by rw [hd]; exact hfuture
  have hended : Called true (javaSendCoins lib c coins recipient password) r := hr
  generalize javaSendCoins lib c coins recipient password = ended at hpending hended ⊢
  cases hended with
  | returned h =>
    dsimp only
    rw [ends_bind]
    refine ends_mono (ends_zeroCharArray _ _) fun r e ⟨hr, s, he⟩ => ?_
    subst hr he h
    refine ⟨hpending, iff_of_false hblocked ?_⟩
    rintro ⟨e, he, -⟩
    cases he
  | @handedOver e h hover =>
    dsimp only
    rw [ends_bind]
    refine ends_mono (ends_zeroCharArray _ _) fun r e' ⟨hr, s, he⟩ => ?_
    subst hr he
    exact ⟨hpending, iff_of_true ⟨rfl, rfl⟩ ⟨e, h, hover⟩⟩
  | raised x h hnot =>
    refine ⟨hpending, iff_of_false hblocked ?_⟩
    rintro ⟨e', he', hover⟩
    rw [h] at he'
    cases he'
    exact hnot hover

/-- A send that leaves no future leaves the next send free, exactly when the exception it fails with,
    if it does, is one that the bridge has an error for. -/
theorem failed_send_unblocks_iff (lib : Lib) (c : Cocoa) (coins : UInt64) (recipient : String)
    (password : Option NSData) (completion : Option Block) (hc : c.unblocked) :
    ((after (sendCoinsToRecipient lib coins recipient password completion c)).java.pending =
        c.java.pending →
      (after (sendCoinsToRecipient lib coins recipient password completion c)).unblocked) ↔
    ∀ e, javaSendCoins lib c coins recipient password = .error e →
      errorCodeForJavaException e ≠ kHIBitcoinManagerUnexpectedError := by
  obtain ⟨hfuture, hfree⟩ :=
    ends_sendCoinsToRecipient lib coins recipient password completion hc.1
  rw [hfuture, hfree]
  constructor
  · intro h e he
    obtain ⟨e', he', -, hcode⟩ := h (by simp [he])
    rw [he] at he'
    cases he'
    exact hcode
  · intro h hne
    cases hj : javaSendCoins lib c coins recipient password with
    | ok u => exact absurd hj hne
    | error e => exact ⟨e, rfl, rfl, h e hj⟩

/-- A wallet has been created. -/
def Cocoa.withWallet : Cocoa :=
  run happen (Cocoa.initial .none true) (walletMade none)

/-- A send from an unprotected wallet fails with an error the bridge knows, and the next send is free. -/
theorem failed_send_unblocks_unprotected :
    javaSendCoins .fair Cocoa.withWallet 1 "address" none =
        .error (wrongPasswordException "Wallet is not protected.") ∧
      (after (sendCoinsToRecipient .fair 1 "address" none (some 7) Cocoa.withWallet)).unblocked := by
  have hjava : javaSendCoins .fair Cocoa.withWallet 1 "address" none =
      .error (wrongPasswordException "Wallet is not protected.") := by decide +kernel
  refine ⟨hjava, (failed_send_unblocks_iff .fair Cocoa.withWallet 1 "address" none (some 7)
    (by decide +kernel)).mpr (fun e he => ?_) (by decide +kernel)⟩
  obtain rfl := Except.error.inj (hjava.symm.trans he)
  decide

theorem malformedRecipient_blocks_sending :
    ¬ ∀ (lib : Lib) (events : List Event) (coins : UInt64) (recipient : String)
      (password : Option NSData) (completion : Option Block),
      let c := run happen (Cocoa.initial .none true) events
      let d := after (sendCoinsToRecipient lib coins recipient password completion c)
      c.unblocked → d.java.pending = c.java.pending → d.unblocked := by
  intro h
  have hblocked := h Lib.knowingNoAddress (walletMade none) 1 "malformed" none (some 7)
    (by decide +kernel) (by decide +kernel)
  have hstuck : ¬ (after (sendCoinsToRecipient Lib.knowingNoAddress 1 "malformed" none (some 7)
      Cocoa.withWallet)).unblocked := by decide +kernel
  exact hstuck hblocked

end BitcoinKit

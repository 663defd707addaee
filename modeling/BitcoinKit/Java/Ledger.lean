import BitcoinKit.Java.Frames

/-! The ledger: the part of the world that sends and payments are recorded in, and what each of the
    paying operations can do to it.

        pending     payments waiting for their ack or their broadcast, requests being loaded
        commits     transactions committed to a wallet, with the payment call each was made for
        removals    sessions removed
        reports     calls of the native methods that answer a callback
        threw       payment calls that threw

    Everything else the manager does leaves the ledger as it is. -/

namespace BitcoinKit
open Schemes

structure Ledger where
  pending : List Pending
  commits : List (Nat × Transaction)
  removals : List (Nat × Int32)
  reports : List (Nat × NativeCall)
  calls : Nat
  threw : List Nat

def World.ledger (w : World) : Ledger where
  pending := w.pending
  commits := w.commits
  removals := w.removals
  reports := w.natives.filter fun n => n.2.callback.isSome
  calls := w.calls
  threw := w.threw

/-- Neither the ledger nor the sessions change, nor on whose behalf the code runs. -/
def offLedger : Along World := keeping fun w => (w.ledger, w.paymentSessions, w.activity)

theorem offLedger_iff {w v : World} : offLedger.rel w v ↔
    v.ledger = w.ledger ∧ v.paymentSessions = w.paymentSessions ∧ v.activity = w.activity := by
  simp [offLedger, keeping]

theorem ledger_note {w : World} {call : NativeCall} (h : call.callback = none) :
    World.ledger { w with natives := w.natives ++ [(w.activity, call)] } = w.ledger := by
  simp [World.ledger, h]

/-- A native call that answers a callback is entered in the ledger. -/
theorem ledger_report {w : World} {call : NativeCall} (h : call.callback.isSome) :
    World.ledger { w with natives := w.natives ++ [(w.activity, call)] } =
      { w.ledger with reports := w.ledger.reports ++ [(w.activity, call)] } := by
  simp [World.ledger, h]

theorem offLedger_tracking : IgnoresTracking offLedger where
  listening _ _ _ := rfl
  confidence _ _ _ := rfl
  news w call h := by
    rw [offLedger_iff]
    exact ⟨ledger_note (callback_of_isNews h), rfl, rfl⟩

theorem offLedger_lifecycle : IgnoresLifecycle offLedger where
  keys _ _ _ := rfl
  wallets _ _ _ _ := rfl
  network _ _ := rfl
  wallet _ _ _ := rfl
  chain _ _ _ _ _ := rfl
  chainFiles _ _ := rfl
  saved _ _ := rfl
  loading _ _ _ _ _ := rfl
  balance w := by
    rw [offLedger_iff]
    exact ⟨ledger_note rfl, rfl, rfl⟩

/-! ### Reading runs of primitive code -/

variable {α : Type} {w : World} {Q : Except Throwable α → World → Prop}

@[simp] theorem ends_result {x : Except Throwable α} : Ends (result x) w Q ↔ Q x w := by
  cases x <;> rfl

@[simp] theorem ends_deref {x : Option α} : Ends (deref x) w Q ↔
    Q (match x with | some a => .ok a | none => .error nullPointerException) w := by
  cases x <;> rfl

@[simp] theorem ends_call {lib : Lib} {site : Site} {Q : Except Throwable Unit → World → Prop} :
    Ends (lib.call site) w Q ↔
      Q (match lib.fails site with | none => .ok () | some e => .error e) w := by
  unfold Lib.call
  cases lib.fails site <;> rfl

@[simp] theorem ends_native {call : NativeCall} {Q : Except Throwable Unit → World → Prop} :
    Ends (native call) w Q ↔ Q (.ok ()) { w with natives := w.natives ++ [(w.activity, call)] } :=
  Iff.rfl

theorem ends_theWallet {ref : WalletRef} (hw : w.wallet = some ref)
    {Q : Except Throwable (WalletRef × Wallet) → World → Prop} :
    Ends theWallet w Q ↔ Q (.ok (ref, w.wallets.cell ref)) w := by
  unfold theWallet
  simp only [ends_bind, ends_get, ends_deref, ends_pure, hw]

@[simp] theorem ends_isPending {tx : Transaction} {Q : Except Throwable Bool → World → Prop} :
    Ends (isPending tx) w Q ↔ Q (.ok (decide (w.confidence tx = .pending))) w := Iff.rfl

theorem returns_theWallet :
    Returns theWallet w fun x v => v = w ∧ w.wallet = some x.1 := by
  refine returns_bind (returns_get ?_)
  cases w.wallet with
  | none => exact returns_bind (returns_throw _)
  | some ref => exact returns_bind (returns_pure (returns_pure ⟨rfl, rfl⟩))

/-- Loading returns a new wallet object with the content of the file. -/
theorem returns_loadWalletFromFile (lib : Lib) (f : File) :
    Returns (loadWalletFromFile lib f) w fun ref v =>
      ∃ image, w.files.wallets f = some image ∧ v = w.loadWallet image ∧ ref = w.wallets.next := by
  refine returns_rethrow ?_
  refine returns_bind_of_moves (R := keeping id) (moves_call lib _) fun _ v hv => ?_
  obtain rfl : v = w := hv
  refine returns_bind (returns_get ?_)
  cases hf : v.files.wallets f with
  | none => exact returns_throw _
  | some image =>
    refine returns_tryFinally ?_ fun ref u hu => ?_
    · refine returns_bind_of_moves (R := keeping id) (moves_call lib _) fun _ u hu => ?_
      obtain rfl : u = v := hu
      refine returns_bind_of_moves (R := keeping id) (moves_call lib _) fun _ t ht => ?_
      obtain rfl : t = u := ht
      exact returns_bind (returns_get (returns_bind (returns_modify
        (returns_pure ⟨image, rfl, rfl, rfl⟩))))
    · refine returns_mono (returns_of_moves (R := keeping id) (moves_call lib _)) fun _ t ht => ?_
      obtain rfl : t = u := ht
      exact hu

end BitcoinKit

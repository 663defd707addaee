import BitcoinKit.Java.Step
import BitcoinKit.Schemes.Apart

/-! The transactions a payment is bound to: those committed to a wallet, and those handed to a payment
    server whose ack is still to come. Only a send or a payment call adds one; an ack moves its
    transaction from the second kind to the first. -/

namespace BitcoinKit
open Schemes

/-- The transaction a pending ack will commit. -/
def Pending.awaiting : Pending → Option Transaction
  | .ack _ tx _ _ => some tx
  | _ => none

/-- Every transaction that is committed, or will be when its ack comes. -/
def Ledger.held (L : Ledger) : List Transaction :=
  L.commits.map Prod.snd ++ L.pending.filterMap Pending.awaiting

/-- A label can make the manager build `tx`. -/
inductive Builds (w : World) : Label → Transaction → Prop
  | coins {lib : Lib} {amount recipient : String} {password : Option Chars} {tx : Transaction} :
      Built lib none tx → Builds w (.sendCoins lib amount recipient password) tx
  | payment {lib : Lib} {sessionId callbackId : Int32} {password : Option Chars}
      {session : PaymentSession} {tx : Transaction} : w.paymentSessions sessionId = some session →
      Built lib (some session) tx →
      Builds w (.sendPaymentRequest lib sessionId password callbackId) tx

theorem awaiting_eraseIdx_perm {pending : List Pending} {index : Nat} {future : Pending}
    (h : pending[index]? = some future) : List.Perm
      (future.awaiting.toList ++ (pending.eraseIdx index).filterMap Pending.awaiting)
      (pending.filterMap Pending.awaiting) := by
  obtain ⟨hlt, rfl⟩ := List.getElem?_eq_some_iff.mp h
  have hp := (List.getElem_cons_eraseIdx_perm hlt).filterMap Pending.awaiting
  rw [List.filterMap_cons] at hp
  cases ha : pending[index].awaiting with
  | none => rw [ha] at hp; exact hp
  | some tx => rw [ha] at hp; exact hp

/-- A completed future moves its transaction from the awaited ones to the committed ones, or drops
    it. -/
theorem held_completing {lib : Lib} {w : World} {index : Nat} {future : Pending}
    {failure : Option Throwable} {r : Except Throwable Unit} {L : Ledger}
    (hf : w.pending[index]? = some future)
    (h : Completing lib { w.ledger with pending := w.pending.eraseIdx index } future failure r L) :
    List.Subperm L.held w.ledger.held := by
  have hp := awaiting_eraseIdx_perm hf
  have hdrop : List.Subperm (w.commits.map Prod.snd ++
      (w.pending.eraseIdx index).filterMap Pending.awaiting) w.ledger.held := by
    refine (List.subperm_append_left _).mpr ?_
    exact (List.sublist_append_right _ _).subperm.trans hp.subperm
  have hmove {call : Nat} {tx : Transaction} (ha : future.awaiting = some tx) :
      List.Subperm ((w.commits ++ [(call, tx)]).map Prod.snd ++
        (w.pending.eraseIdx index).filterMap Pending.awaiting) w.ledger.held := by
    rw [ha] at hp
    rw [List.map_append, List.append_assoc]
    exact (hp.append_left _).subperm
  cases h with
  | sent tx => exact hdrop
  | loaded hl => cases hl <;> exact hdrop
  | loadFailed callbackId e => exact hdrop
  | acked ha =>
    cases ha with
    | dropped e => exact hdrop
    | failed e => exact hdrop
    | settled details => exact hmove rfl
    | lost e => exact hmove rfl
    | misreported hj hs => exact hmove rfl
  | ackFailed sessionId callbackId tx call e => exact hdrop
  | broadcast sessionId callbackId tx call => exact hdrop
  | broadcastFailed sessionId callbackId tx call e => exact hdrop

/-- A step holds nothing new, or one transaction it built. -/
theorem held_turn {w : World} {l : Label} {L : Ledger} (h : Turn w l L) :
    List.Subperm L.held w.ledger.held ∨
      ∃ tx, Builds w l tx ∧ List.Subperm L.held (tx :: w.ledger.held) := by
  have hcommit (call : Nat) (tx : Transaction) : List.Subperm
      ((w.commits ++ [(call, tx)]).map Prod.snd ++ w.pending.filterMap Pending.awaiting)
      (tx :: w.ledger.held) := by
    rw [List.map_append, List.append_assoc]
    exact List.perm_middle.subperm
  have hpend (future : Pending) : (w.pending ++ [future]).filterMap Pending.awaiting =
      w.pending.filterMap Pending.awaiting ++ future.awaiting.toList := by
    rw [List.filterMap_append]
    cases hf : future.awaiting <;> simp [hf]
  have hboth (call : Nat) (tx : Transaction) {future : Pending} (hf : future.awaiting = none) :
      List.Subperm ((w.commits ++ [(call, tx)]).map Prod.snd ++
        (w.pending ++ [future]).filterMap Pending.awaiting) (tx :: w.ledger.held) := by
    rw [hpend, hf, Option.toList_none, List.append_nil]
    exact hcommit call tx
  cases h with
  | idle l hl => exact .inl (List.Subperm.refl _)
  | sends hs =>
    cases hs with
    | refused e => exact .inl (List.Subperm.refl _)
    | stranded e hb => exact .inr ⟨_, .coins hb, hcommit 0 _⟩
    | sent hb => exact .inr ⟨_, .coins hb, hboth 0 _ rfl⟩
  | opens lib url callbackId =>
    have hsub : List.Subperm (w.commits.map Prod.snd ++
        (w.pending ++ [Pending.session callbackId]).filterMap Pending.awaiting) w.ledger.held := by
      have hf : (Pending.session callbackId).awaiting = none := rfl
      rw [hpend, hf, Option.toList_none, List.append_nil]
      exact List.Subperm.refl _
    exact .inl hsub
  | loads hl => cases hl <;> exact .inl (List.Subperm.refl _)
  | @pays lib sessionId callbackId password L hp =>
    cases hp with
    | @submitted session tx hs hu hb =>
      have hsub : List.Subperm (w.commits.map Prod.snd ++ (w.pending ++
          [Pending.ack sessionId tx callbackId (w.calls + 1)]).filterMap Pending.awaiting)
          (tx :: w.ledger.held) := by
        rw [hpend, ← List.append_assoc]
        exact List.perm_append_comm.subperm
      exact .inr ⟨_, .payment hs hb, hsub⟩
    | paid hs hu hb => exact .inr ⟨_, .payment hs hb, hboth _ _ rfl⟩
  | throws hp =>
    cases hp with
    | refused => exact .inl (List.Subperm.refl _)
    | stranded _ hs hu hb hg => exact .inr ⟨_, .payment hs hb, hcommit _ _⟩
  | completes hf hc => exact .inl (held_completing hf hc)

/-- If what a step builds never conflicts with what is held, nothing held conflicts. -/
theorem apart_held_step {conflict : Transaction → Transaction → Prop}
    (hs : ∀ t u, conflict t u → conflict u t) (w : World) (l : Label)
    (hw : Apart conflict w.ledger.held)
    (hnew : ∀ tx, Builds w l tx → ∀ t ∈ w.ledger.held, ¬ conflict tx t) :
    Apart conflict (step w l).ledger.held := by
  rcases held_turn (turn_step w l) with hsub | ⟨tx, hb, hsub⟩
  · exact apart_of_subperm hs hsub hw
  · exact apart_claim hs hsub (hnew tx hb) hw

theorem commits_sublist_held (w : World) :
    List.Sublist (w.commits.map Prod.snd) w.ledger.held := List.sublist_append_left _ _

end BitcoinKit

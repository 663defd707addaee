import BitcoinKit.Properties.Held

/-! A payment request is paid at most once, as long as nobody pays a session whose payment is still
    under way. The table of sessions does not see to that by itself: with a payment URL a session
    leaves it only when the ack comes, without one only when the broadcast is done. -/

namespace BitcoinKit
open Schemes

/-- For no session are two transactions committed. -/
def PaidAtMostOnce (w : World) : Prop :=
  ∀ session, (w.commits.countP fun c => c.2.origin = some session) ≤ 1

/-- A session is paid only while no payment of it waits for its ack and none was committed. -/
def PaidWhenOpen (w : World) (l : Label) : Prop :=
  ∀ sessionId ∈ l.paidSession, ∀ session ∈ w.paymentSessions sessionId,
    ∀ tx ∈ w.ledger.held, tx.origin ≠ some session.ref

-- the instance is named: deciding over all of `Int32` would do as well, and take for ever
instance (w : World) (l : Label) : Decidable (PaidWhenOpen w l) :=
  @Option.decidableForallMem _ _ (fun sessionId =>
    inferInstanceAs (Decidable (∀ session ∈ w.paymentSessions sessionId,
      ∀ tx ∈ w.ledger.held, tx.origin ≠ some session.ref))) l.paidSession

/-- Two transactions built for one session. -/
def SameSession (t u : Transaction) : Prop := ∃ session, t.origin = some session ∧ u.origin = some session

theorem sameSession_symm (t u : Transaction) (h : SameSession t u) : SameSession u t := by
  obtain ⟨session, ht, hu⟩ := h
  exact ⟨session, hu, ht⟩

theorem builds_open {w : World} {l : Label} (hok : PaidWhenOpen w l) {tx : Transaction}
    (hb : Builds w l tx) : ∀ t ∈ w.ledger.held, ¬ SameSession tx t := by
  rintro t ht ⟨session, htx, hts⟩
  cases hb with
  | coins hb =>
    rw [hb.origin] at htx
    cases htx
  | payment hs hb =>
    rw [hb.origin, Option.map_some] at htx
    cases htx
    exact hok _ rfl _ hs t ht hts

theorem apart_run (files : Files) (ls : List Label)
    (h : Meets step PaidWhenOpen (World.initial files) ls) :
    Apart SameSession (run step (World.initial files) ls).ledger.held :=
  inv_meets (I := fun w => Apart SameSession w.ledger.held)
    (fun w l hw hok => apart_held_step sameSession_symm w l hw fun _ hb => builds_open hok hb)
    _ ls apart_nil h

/-- In every run in which a session is paid only while no payment of it is under way or done, no
    session has two transactions committed. -/
theorem paid_at_most_once (files : Files) (ls : List Label)
    (h : Meets step PaidWhenOpen (World.initial files) ls) :
    PaidAtMostOnce (run step (World.initial files) ls) := by
  intro session
  have hapart := (apart_run files ls h).sublist (commits_sublist_held _)
  have hcount := apart_countP_le_one (p := fun t => decide (t.origin = some session)) ?_ hapart
  · rw [List.countP_map] at hcount
    exact hcount
  · intro t u ht hu
    exact ⟨session, of_decide_eq_true ht, of_decide_eq_true hu⟩

/-- A request is paid a second time after the first payment failed at the server. -/
def paidAgainAfterFailure : List Label :=
  requestLoaded .withPaymentUrl ++
    [.sendPaymentRequest (.spending 10 1) 1 none 2,
     .complete .fair 0 (some nullPointerException),
     .sendPaymentRequest (.spending 11 1) 1 none 3,
     .complete .fair 0 none]

theorem paid_once_after_failure :
    (run step (World.initial .none) paidAgainAfterFailure).commits.length = 1 ∧
      PaidAtMostOnce (run step (World.initial .none) paidAgainAfterFailure) :=
  ⟨by decide +kernel, paid_at_most_once .none paidAgainAfterFailure (by decide +kernel)⟩

/-- A request is paid a second time while the first payment waits for its ack; both acks come. -/
def paidTwice : List Label :=
  requestLoaded .withPaymentUrl ++
    [.sendPaymentRequest (.spending 10 1) 1 none 2,
     .sendPaymentRequest (.spending 11 2) 1 none 3,
     .complete .fair 0 none,
     .complete .fair 0 none]

theorem paidTwice_commits_two :
    ¬ ∀ (files : Files) (ls : List Label), PaidAtMostOnce (run step (World.initial files) ls) := by
  intro h
  have hcount : ((run step (World.initial .none) paidTwice).commits.countP
      fun c => c.2.origin = some 0) = 2 := by decide +kernel
  have hle := h .none paidTwice 0
  omega

end BitcoinKit

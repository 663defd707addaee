import BitcoinKit.Java.Step

/-! A payment request is validated when it is loaded, not when it is paid:

        load: network, expiry ──▶ session ── any time ──▶ pay
                                                          ├── payment URL: bitcoinj checks expiry again
                                                          └── none: committed as it is

    In between the request may expire, and the manager may be moved to the other network. -/

namespace BitcoinKit
open Schemes

/-- A payment committed by the step is for a session of the manager's network that has not expired. -/
def PaysValid (w : World) : Label → Prop
  | .sendPaymentRequest lib sessionId password callbackId =>
    (step w (.sendPaymentRequest lib sessionId password callbackId)).commits ≠ w.commits →
      ∃ session, w.paymentSessions sessionId = some session ∧
        some session.networkParams = w.networkParams ∧ session.isExpired lib.now = false
  | _ => True

/-- A session without a payment URL is paid before it expires, and the network is not changed while
    there is one. -/
def PaysInTime (w : World) : Label → Prop
  | .setTestingNetwork testing => ∀ sessionId session, w.paymentSessions sessionId = some session →
    session.paymentUrl = none → session.networkParams = if testing then .testNet3 else .mainNet
  | .sendPaymentRequest lib sessionId _ _ => ∀ session, w.paymentSessions sessionId = some session →
    session.paymentUrl = none → session.isExpired lib.now = false
  | _ => True

/-- Sessions that bitcoinj will not check again are for the manager's network. -/
def World.ownNetwork (w : World) : Prop :=
  ∀ sessionId session, w.paymentSessions sessionId = some session → session.paymentUrl = none →
    some session.networkParams = w.networkParams

variable {w : World}

theorem ownNetwork_loaded {session : PaymentSession} {sessionId : Int32} (h : w.ownNetwork)
    (hs : some session.networkParams = w.networkParams) (n : Int32) : World.ownNetwork { w with
      paymentSessionsSequenceId := n
      paymentSessions := Function.update w.paymentSessions sessionId (some session) } := by
  intro k s hk hu
  change Function.update w.paymentSessions sessionId (some session) k = some s at hk
  by_cases hks : k = sessionId
  · subst hks
    rw [Function.update_self] at hk
    cases hk
    exact hs
  · rw [Function.update_of_ne hks] at hk
    exact h k s hk hu

theorem ownNetwork_removed {sessionId : Int32} (h : w.ownNetwork) (rs : List (Nat × Int32)) :
    World.ownNetwork { w with
      paymentSessions := Function.update w.paymentSessions sessionId none, removals := rs } := by
  intro k s hk hu
  change Function.update w.paymentSessions sessionId none k = some s at hk
  by_cases hks : k = sessionId
  · subst hks
    rw [Function.update_self] at hk
    cases hk
  · rw [Function.update_of_ne hks] at hk
    exact h k s hk hu

/-- Choosing a network at the first start leaves no session behind: there was none without one. -/
theorem ownNetwork_network (h : w.ownNetwork) (hn : w.networkParams = none) :
    World.ownNetwork { w with networkParams := some .mainNet } := by
  intro k s hk hu
  have hnone := h k s hk hu
  rw [hn] at hnone
  cases hnone

theorem ownNetwork_work : IgnoresWork (preserving World.ownNetwork) where
  keys _ _ _ h := h
  secrets _ _ h := h
  wallets _ _ _ _ h := h
  network _ hn h := ownNetwork_network h hn
  wallet _ _ _ h := h
  chain _ _ _ _ _ h := h
  chainFiles _ _ h := h
  saved _ _ h := h
  loading _ _ _ _ _ h := h
  balance _ h := h
  built _ _ h := h
  waiting _ _ h := h
  stored _ _ _ h := h
  committed _ _ _ _ h := h
  confidence _ _ _ h := h
  news _ _ _ h := h
  directories _ _ _ h := h
  bookkeeping _ _ _ _ h := h

theorem ownNetwork_payments : IgnoresPayments (preserving World.ownNetwork) where
  toIgnoresSending := ownNetwork_work.toIgnoresSending
  numbered _ _ h := h
  loaded _ _ hs h := ownNetwork_loaded h hs _
  removed _ _ h := ownNetwork_removed h _
  reports _ _ _ h := h

theorem ownNetwork_tracking : IgnoresTracking (preserving World.ownNetwork) where
  confidence _ _ _ h := h
  news _ _ _ h := h
  listening _ _ _ h := h

theorem ownNetwork_step (w : World) (l : Label) (h : w.ownNetwork) (hok : PaysInTime w l) :
    (step w l).ownNetwork := by
  by_cases hl : ∃ testing, l = .setTestingNetwork testing
  · obtain ⟨testing, rfl⟩ := hl
    intro k s hk hu
    exact congrArg some (hok k s hk hu)
  · exact moves_label ownNetwork_work ownNetwork_tracking l
      (fun lib _ => moves_reset ownNetwork_work ownNetwork_tracking (fun _ h => h) lib)
      (fun testing he => absurd ⟨testing, he⟩ hl)
      (moves_answering ownNetwork_work.toIgnoresTraffic ownNetwork_payments
        (moves_trackTransaction ownNetwork_tracking) (fun _ => moves_modify fun _ h => h) l) w h

/-- Only a session without a payment URL is paid at once. -/
theorem paysValid_step (h : w.ownNetwork) (l : Label) (hok : PaysInTime w l) : PaysValid w l := by
  cases l with
  | sendPaymentRequest lib sessionId password callbackId =>
    intro hcommits
    have hpaid {r : Except Throwable Unit} {L : Ledger} (hp : Paying lib (w.paymentSessions sessionId)
        w.peerGroup (w.calls + 1) sessionId callbackId { w.ledger with calls := w.calls + 1 } r L)
        (hL : L.commits ≠ w.commits) : ∃ session, w.paymentSessions sessionId = some session ∧
          some session.networkParams = w.networkParams ∧ session.isExpired lib.now = false := by
      cases hp with
      | refused e => exact absurd rfl hL
      | submitted hs hu hb => exact absurd rfl hL
      | paid hs hu hb => exact ⟨_, hs, h _ _ hs hu, hok _ hs hu⟩
      | stranded e hs hu hb hg => exact ⟨_, hs, h _ _ hs hu, hok _ hs hu⟩
    have hturn := turn_sendPaymentRequest (w := w) lib sessionId password callbackId
    generalize hL : (step w (.sendPaymentRequest lib sessionId password callbackId)).ledger = L at hturn
    have hcommits' : L.commits ≠ w.commits := hL ▸ hcommits
    cases hturn with
    | idle => exact absurd rfl hcommits'
    | pays hp => exact hpaid hp hcommits'
    | throws hp => exact hpaid hp hcommits'
  | _ => trivial

/-- In every run in which sessions without a payment URL are paid before they expire, and the network is
    not changed under them, whatever is committed for a session at once is for a session of the
    manager's network that has not expired. -/
theorem paid_requests_valid (files : Files) (ls : List Label)
    (h : Meets step PaysInTime (World.initial files) ls) :
    Meets step PaysValid (World.initial files) ls :=
  meets_of_inv ownNetwork_step (fun _ l hw hok => paysValid_step hw l hok) _ ls
    (fun _ _ hk => by cases hk) h

/-- Payment requests expire at second 10 and come without a payment URL. -/
def Lib.expiring : Lib :=
  { Lib.fair with loadedSession := ⟨0, .mainNet, some 10, none, 0, none, none⟩ }

/-- A request is loaded at second 0 and paid at second `now`. -/
def paidAt (now : Nat) : List Label :=
  requestLoaded .expiring ++ [.sendPaymentRequest { Lib.spending 10 1 with now := now } 1 none 2]

theorem expiring_loaded : (run step (World.initial .none) (requestLoaded .expiring)).paymentSessions 1 =
    some ⟨0, .mainNet, some 10, none, 0, none, none⟩ := by decide +kernel

theorem paid_requests_valid_in_time :
    (run step (World.initial .none) (paidAt 5)).commits.length = 1 ∧
      Meets step PaysValid (World.initial .none) (paidAt 5) := by
  refine ⟨by decide +kernel, paid_requests_valid .none (paidAt 5) ⟨trivial, trivial, trivial, ?_, trivial⟩⟩
  intro session hs _
  cases expiring_loaded.symm.trans hs
  decide

theorem expired_request_paid : ¬ ∀ (files : Files) (ls : List Label),
    Meets step PaysValid (World.initial files) ls := by
  intro h
  obtain ⟨-, -, -, hpay, -⟩ := h .none (paidAt 20)
  have hcommits : (run step (World.initial .none) (paidAt 20)).commits ≠
      (run step (World.initial .none) (requestLoaded .expiring)).commits := by decide +kernel
  obtain ⟨session, hs, -, hexpired⟩ := hpay hcommits
  cases expiring_loaded.symm.trans hs
  exact absurd hexpired (by decide)

end BitcoinKit

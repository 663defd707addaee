import BitcoinKit.Properties.Held

/-! No coin is spent twice, as long as no send selects a coin of a payment that waits for its ack. Such
    a payment is complete and out of the house, but its coins are free to bitcoinj until the commit. -/

namespace BitcoinKit
open Schemes

/-- Two transactions with an input in common. -/
def ShareCoin (t u : Transaction) : Prop := ∃ coin ∈ t.inputs, coin ∈ u.inputs

instance (t u : Transaction) : Decidable (ShareCoin t u) :=
  inferInstanceAs (Decidable (∃ coin ∈ t.inputs, coin ∈ u.inputs))

theorem shareCoin_symm (t u : Transaction) (h : ShareCoin t u) : ShareCoin u t := by
  obtain ⟨coin, ht, hu⟩ := h
  exact ⟨coin, hu, ht⟩

/-- No two committed transactions have an input in common. -/
def CoinsSpentOnce (w : World) : Prop := Apart ShareCoin (w.commits.map Prod.snd)

/-- The library a label builds a transaction with. -/
def Label.sender : Label → Option Lib
  | .sendCoins lib _ _ _ => some lib
  | .sendPaymentRequest lib _ _ _ => some lib
  | _ => none

/-- What the label's `completeTx` may select spares the coins of `txs`. -/
def SelectionSpares (l : Label) (txs : List Transaction) : Prop :=
  ∀ lib ∈ l.sender, ∀ wallet request aesKey done,
    lib.completeTx wallet request aesKey = .ok done →
      ∀ tx ∈ txs, ∀ coin ∈ done.inputs, coin ∉ tx.inputs

/-- bitcoinj's coin selection: coins of committed transactions are not selected again. -/
def SelectsUncommitted (w : World) (l : Label) : Prop := SelectionSpares l (w.commits.map Prod.snd)

/-- No coin of a payment waiting for its ack is selected. -/
def SelectsUnreserved (w : World) (l : Label) : Prop :=
  SelectionSpares l (w.pending.filterMap Pending.awaiting)

theorem builds_sparing {w : World} {l : Label} {txs : List Transaction}
    (hok : SelectionSpares l txs) {tx : Transaction} (hb : Builds w l tx) :
    ∀ t ∈ txs, ¬ ShareCoin tx t := by
  rintro t ht ⟨coin, htx, hct⟩
  cases hb with
  | coins hb =>
    obtain ⟨wallet, request, aesKey, done, hd, hi⟩ := hb.selected
    rw [hi] at htx
    exact hok _ rfl wallet request aesKey done hd t ht coin htx hct
  | payment hs hb =>
    obtain ⟨wallet, request, aesKey, done, hd, hi⟩ := hb.selected
    rw [hi] at htx
    exact hok _ rfl wallet request aesKey done hd t ht coin htx hct

theorem apart_coins_step (w : World) (l : Label) (hw : Apart ShareCoin w.ledger.held)
    (hok : SelectsUncommitted w l ∧ SelectsUnreserved w l) :
    Apart ShareCoin (step w l).ledger.held := by
  refine apart_held_step shareCoin_symm w l hw fun tx hb t ht => ?_
  rcases List.mem_append.mp ht with ht | ht
  · exact builds_sparing hok.1 hb t ht
  · exact builds_sparing hok.2 hb t ht

/-- In every run in which no send selects a coin of a payment that waits for its ack, no coin is spent
    by two committed transactions. -/
theorem coins_spent_once (files : Files) (ls : List Label)
    (hj : Meets step SelectsUncommitted (World.initial files) ls)
    (h : Meets step SelectsUnreserved (World.initial files) ls) :
    CoinsSpentOnce (run step (World.initial files) ls) := by
  have hheld := inv_meets (I := fun w => Apart ShareCoin w.ledger.held) apart_coins_step
    (World.initial files) ls apart_nil (meets_and _ ls hj h)
  exact hheld.sublist (commits_sublist_held _)

/-- Two requests are paid side by side; the second payment spends `coin`. -/
def paidSideBySide (coin : Sha256Hash) : List Label :=
  requestLoaded .withPaymentUrl ++
    [.openPaymentRequestFromFile .withPaymentUrl "request" 2,
     .sendPaymentRequest (.spending 10 1) 1 none 3,
     .sendPaymentRequest (.spending 11 coin) 2 none 4,
     .complete .fair 0 none,
     .complete .fair 0 none]

theorem selectionSpares_spending {hash coin : Sha256Hash} {l : Label} {txs : List Transaction}
    (hl : l.sender = some (.spending hash coin)) (h : ∀ tx ∈ txs, ⟨coin, 0⟩ ∉ tx.inputs) :
    SelectionSpares l txs := by
  rintro lib hlib wallet request aesKey done hd tx htx c hc
  rw [hl] at hlib
  cases hlib
  cases hd
  rw [List.mem_singleton] at hc
  exact hc ▸ h tx htx

theorem selectionSpares_other {l : Label} {txs : List Transaction} (hl : l.sender = none) :
    SelectionSpares l txs := by
  rintro lib hlib
  rw [hl] at hlib
  cases hlib

/-- Only the two payments select coins: coin 1 first, then `coin`. -/
theorem meets_paidSideBySide (busy : World → List Transaction) {coin : Sha256Hash}
    (hfirst : ∀ tx ∈ busy (run step (World.initial .none) ((paidSideBySide coin).take 4)),
      ⟨1, 0⟩ ∉ tx.inputs)
    (hsecond : ∀ tx ∈ busy (run step (World.initial .none) ((paidSideBySide coin).take 5)),
      ⟨coin, 0⟩ ∉ tx.inputs) :
    Meets step (fun w l => SelectionSpares l (busy w)) (World.initial .none) (paidSideBySide coin) :=
  ⟨selectionSpares_other rfl, selectionSpares_other rfl, selectionSpares_other rfl,
    selectionSpares_other rfl, selectionSpares_spending rfl hfirst,
    selectionSpares_spending rfl hsecond, selectionSpares_other rfl, selectionSpares_other rfl, trivial⟩

theorem coins_spent_once_side_by_side :
    (run step (World.initial .none) (paidSideBySide 2)).commits.length = 2 ∧
      CoinsSpentOnce (run step (World.initial .none) (paidSideBySide 2)) := by
  refine ⟨by decide +kernel, coins_spent_once .none (paidSideBySide 2) ?_ ?_⟩
  · exact meets_paidSideBySide (fun w => w.commits.map Prod.snd) (by decide +kernel)
      (by decide +kernel)
  · exact meets_paidSideBySide (fun w => w.pending.filterMap Pending.awaiting) (by decide +kernel)
      (by decide +kernel)

theorem paidSideBySide_spends_coin_twice :
    ¬ ∀ (files : Files) (ls : List Label), Meets step SelectsUncommitted (World.initial files) ls →
      CoinsSpentOnce (run step (World.initial files) ls) := by
  intro h
  have hm : Meets step SelectsUncommitted (World.initial .none) (paidSideBySide 1) :=
    meets_paidSideBySide (fun w => w.commits.map Prod.snd) (by decide +kernel) (by decide +kernel)
  have hshare : ¬ CoinsSpentOnce (run step (World.initial .none) (paidSideBySide 1)) := by
    unfold CoinsSpentOnce Apart
    decide +kernel
  exact hshare (h .none (paidSideBySide 1) hm)

end BitcoinKit

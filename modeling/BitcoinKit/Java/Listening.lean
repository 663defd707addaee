import BitcoinKit.Java.Ledger

/-! What tracking and untracking a transaction do, exactly. Both go by the hash to decide whether to act,
    and by the object when they act on its listeners. -/

namespace BitcoinKit
open Schemes

variable {w : World} {tx : Transaction}

/-- Only who is listened to changes. -/
def onlyListening : Along World where
  rel w v := v = { w with
    trackedTransactions := v.trackedTransactions, registrations := v.registrations }
  refl _ := rfl
  trans h₁ h₂ := by rw [h₂, h₁]

/-- A transaction whose hash is not tracked is tracked and listened to. -/
theorem ends_trackTransaction (hk : hasKey Transaction.hash w.trackedTransactions tx = false) :
    Ends (trackTransaction tx) w fun r v => r = .ok () ∧ onlyListening.rel w v ∧
      v.trackedTransactions = addKey Transaction.hash w.trackedTransactions tx ∧
      v.registrations = tx :: w.registrations := by
  unfold trackTransaction addConfidenceListener
  simp only [ends_bind, ends_get, ends_ite, ends_pure, ends_modify]
  rw [if_neg (by simp [hk])]
  exact ⟨trivial, rfl, trivial, trivial⟩

/-- A transaction whose hash is tracked is left alone, whichever object it is. -/
theorem ends_trackTransaction_again
    (hk : hasKey Transaction.hash w.trackedTransactions tx = true) :
    Ends (trackTransaction tx) w fun r v => r = .ok () ∧ v = w := by
  unfold trackTransaction
  simp only [ends_bind, ends_get, ends_ite, ends_pure]
  rw [if_pos hk]
  exact ⟨trivial, trivial⟩

/-- Untracking takes the hash out of the set and, if it was in, a registration off the object. -/
theorem ends_stopTracking :
    Ends (stopTrackingTransaction tx) w fun r v => r = .ok () ∧ onlyListening.rel w v ∧
      v.trackedTransactions = removeKey Transaction.hash w.trackedTransactions tx ∧
      v.registrations = if hasKey Transaction.hash w.trackedTransactions tx then
        w.registrations.erase tx else w.registrations := by
  unfold stopTrackingTransaction removeConfidenceListener
  simp only [ends_bind, ends_get, ends_ite, ends_pure, ends_modify]
  split
  · exact ⟨trivial, rfl, trivial, rfl⟩
  · next hk => exact ⟨trivial, rfl, (removeKey_of_not_hasKey (by simpa using hk)).symm, rfl⟩

/-- Untracking every transaction of a copy of the set empties the set. -/
theorem ends_untrackAll :
    Ends (forIn w.trackedTransactions PUnit.unit fun tx _ => do
      stopTrackingTransaction tx
      pure (ForInStep.yield PUnit.unit)) w fun
        | .ok _, v => onlyListening.rel w v ∧ v.trackedTransactions = []
        | .error _, _ => False := by
  refine ends_mono (ends_forIn (I := fun rest _ v => onlyListening.rel w v ∧
    ∀ t ∈ v.trackedTransactions, ∃ x ∈ rest, x.hash = t.hash) (E := fun _ _ => False) ?_
    w.trackedTransactions PUnit.unit w ⟨rfl, fun t ht => ⟨t, ht, rfl⟩⟩) ?_
  · rintro tx rest _ v ⟨hv, hrest⟩
    rw [ends_bind]
    refine ends_mono ends_stopTracking fun r u ⟨hr, hu, htracked, _⟩ => ?_
    rw [hr]
    refine ⟨onlyListening.trans hv hu, fun t ht => ?_⟩
    have ht' : t ∈ removeKey Transaction.hash v.trackedTransactions tx := htracked ▸ ht
    obtain ⟨ht, hne⟩ := List.mem_filter.mp ht'
    obtain ⟨x, hx, hxt⟩ := hrest t ht
    rcases List.mem_cons.mp hx with rfl | hx
    · exact absurd hxt.symm (by simpa using hne)
    · exact ⟨x, hx, hxt⟩
  · rintro r v hv
    cases r with
    | error e => exact hv
    | ok _ =>
      refine ⟨hv.1, List.eq_nil_iff_forall_not_mem.mpr fun t ht => ?_⟩
      obtain ⟨x, hx, -⟩ := hv.2 t ht
      exact List.not_mem_nil hx

end BitcoinKit

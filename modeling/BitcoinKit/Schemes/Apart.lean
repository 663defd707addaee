import Mathlib.Data.List.Perm.Subperm
import Mathlib.Data.List.Pairwise

/-! Things that must not conflict with one another. Each is held from the moment it is claimed, first
    provisionally and then for good; what is held only ever grows by a claim, so it is enough to look
    at the claims:

        claim        checked against everything held
        confirm      moves a provisional claim: nothing to check (`apart_of_subperm`)
        give up      drops one: nothing to check either -/

namespace Schemes

variable {α : Type} {conflict : α → α → Prop} {xs ys : List α} {a : α}

/-- No two entries conflict. -/
def Apart (conflict : α → α → Prop) (xs : List α) : Prop := xs.Pairwise fun a b => ¬ conflict a b

theorem apart_nil : Apart conflict [] := List.Pairwise.nil

/-- Moving entries about and dropping some brings no conflict. -/
theorem apart_of_subperm (hs : ∀ a b, conflict a b → conflict b a) (hsub : List.Subperm xs ys)
    (h : Apart conflict ys) : Apart conflict xs := by
  obtain ⟨zs, hperm, hzs⟩ := hsub
  have hsymm {a b : α} (hab : ¬ conflict a b) : ¬ conflict b a := fun hba => hab (hs b a hba)
  exact (hperm.pairwise_iff hsymm).mp (h.sublist hzs)

/-- A claim that conflicts with nothing held may be added. -/
theorem apart_claim (hs : ∀ a b, conflict a b → conflict b a) (hsub : List.Subperm xs (a :: ys))
    (ha : ∀ b ∈ ys, ¬ conflict a b) (h : Apart conflict ys) : Apart conflict xs :=
  apart_of_subperm hs hsub (List.pairwise_cons.mpr ⟨ha, h⟩)

/-- Of things that all conflict with one another at most one is held. -/
theorem apart_countP_le_one {p : α → Bool} (hp : ∀ a b, p a → p b → conflict a b)
    (h : Apart conflict xs) : xs.countP p ≤ 1 := by
  induction xs with
  | nil => simp
  | cons a xs ih =>
    obtain ⟨ha, hxs⟩ := List.pairwise_cons.mp h
    cases hpa : p a with
    | false =>
      rw [List.countP_cons_of_neg (by simp [hpa])]
      exact ih hxs
    | true =>
      have hnone : xs.countP p = 0 := by
        rw [List.countP_eq_zero]
        exact fun b hb hpb => ha b hb (hp a b hpa hpb)
      simp [List.countP_cons_of_pos hpa, hnone]

end Schemes

import Mathlib.Logic.Function.Basic

/-! A heap of cells of one type: references are handed out in order, and a cell keeps its content
    until it is written.

    `Leaves P` is for code that allocates and tidies up after itself: what was there is as it was, and
    each new cell ends up in `P`. It composes, and it nests: a cell may be allocated, other such code
    run, and the cell put into `P` at the end. -/

namespace Schemes

/-- The cells, and the reference the next allocation gets. -/
structure Heap (α : Type) where
  next : Nat
  cell : Nat → α

namespace Heap

variable {α : Type} (h : Heap α)

/-- The heap after an allocation; the new cell is `h.next`. -/
def alloc (a : α) : Heap α := ⟨h.next + 1, Function.update h.cell h.next a⟩

def write (r : Nat) (a : α) : Heap α := { h with cell := Function.update h.cell r a }

variable {h} {a : α} {r q : Nat}

@[simp] theorem next_alloc : (h.alloc a).next = h.next + 1 := rfl

@[simp] theorem next_write : (h.write r a).next = h.next := rfl

@[simp] theorem cell_alloc_self : (h.alloc a).cell h.next = a := Function.update_self ..

theorem cell_alloc_ne (hr : r ≠ h.next) : (h.alloc a).cell r = h.cell r :=
  Function.update_of_ne hr ..

@[simp] theorem cell_write_self : (h.write r a).cell r = a := Function.update_self ..

theorem cell_write_ne (hq : q ≠ r) : (h.write r a).cell q = h.cell q := Function.update_of_ne hq ..

/-- What was there keeps its content, and what is new satisfies `P`. -/
structure Leaves (P : α → Prop) (h g : Heap α) : Prop where
  le : h.next ≤ g.next
  kept : ∀ r < h.next, g.cell r = h.cell r
  fresh : ∀ r, h.next ≤ r → r < g.next → P (g.cell r)

variable {P : α → Prop} {g k : Heap α}

theorem leaves_refl (h : Heap α) : Leaves P h h :=
  ⟨Nat.le_refl _, fun _ _ => rfl, fun _ hle hlt => absurd hlt (Nat.not_lt.mpr hle)⟩

theorem leaves_trans (h₁ : Leaves P h g) (h₂ : Leaves P g k) : Leaves P h k where
  le := Nat.le_trans h₁.le h₂.le
  kept r hr := (h₂.kept r (Nat.lt_of_lt_of_le hr h₁.le)).trans (h₁.kept r hr)
  fresh r hle hlt := by
    by_cases hr : r < g.next
    · rw [h₂.kept r hr]
      exact h₁.fresh r hle hr
    · exact h₂.fresh r (Nat.not_lt.mp hr) hlt

/-- A cell that is put into `P` at the end. -/
theorem leaves_around {b : α} (hg : Leaves P (h.alloc a) g) (hb : P b) :
    Leaves P h (g.write h.next b) where
  le := Nat.le_trans (Nat.le_succ _) hg.le
  kept r hr := by
    have hne : r ≠ h.next := Nat.ne_of_lt hr
    rw [cell_write_ne hne, hg.kept r (Nat.lt_succ_of_lt hr), cell_alloc_ne hne]
  fresh r hle hlt := by
    by_cases hr : r = h.next
    · rw [hr, cell_write_self]
      exact hb
    · rw [cell_write_ne hr]
      exact hg.fresh r (Nat.lt_of_le_of_ne hle (Ne.symm hr)) hlt

/-- A cell that is not. -/
theorem leaves_alloc_self (hg : Leaves P (h.alloc a) g) : h.next < g.next ∧ g.cell h.next = a :=
  ⟨hg.le, by rw [hg.kept h.next (Nat.lt_succ_self _), cell_alloc_self]⟩

end Heap

end Schemes

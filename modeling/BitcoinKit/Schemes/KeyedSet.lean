import Mathlib.Data.List.Perm.Basic
import Mathlib.Data.List.Nodup

/-! Sets whose membership is decided by a key, as a hash set of objects with `equals` on a field is:
    two objects with one key are the same member, although they are different objects. A set is the
    list of the objects that were really put in; `Distinct` says no key is in it twice.

    The point of the file is the difference between the two notions of sameness: taking a member out
    by its key is taking that very object out exactly when the object asked for is the one inside
    (`removeKey_eq_erase`), and otherwise removes an object nobody named. -/

namespace Schemes

variable {α κ : Type} [DecidableEq κ] (key : α → κ)

/-- Some member has the key of `a`. -/
def hasKey (s : List α) (a : α) : Bool := s.any fun b => key b = key a

/-- Add `a`, unless its key is in already. -/
def addKey (s : List α) (a : α) : List α := if hasKey key s a then s else a :: s

/-- Take out the member with the key of `a`. -/
def removeKey (s : List α) (a : α) : List α := s.filter fun b => key b ≠ key a

/-- No key is in the set twice. -/
def Distinct (s : List α) : Prop := (s.map key).Nodup

variable {key} {s : List α} {a b : α}

theorem hasKey_iff : hasKey key s a = true ↔ ∃ b ∈ s, key b = key a := by
  simp [hasKey]

theorem hasKey_false_iff : hasKey key s a = false ↔ ∀ b ∈ s, key b ≠ key a := by
  simp [hasKey]

theorem hasKey_of_mem (h : a ∈ s) : hasKey key s a = true := hasKey_iff.mpr ⟨a, h, rfl⟩

theorem mem_addKey_of_mem (h : b ∈ s) : b ∈ addKey key s a := by
  rw [addKey]
  split
  · exact h
  · exact List.mem_cons_of_mem a h

theorem mem_addKey (h : b ∈ addKey key s a) : b ∈ s ∨ b = a ∧ hasKey key s a = false := by
  rw [addKey] at h
  split at h
  · exact .inl h
  · next hk =>
    rcases List.mem_cons.mp h with rfl | h
    · exact .inr ⟨rfl, by simpa using hk⟩
    · exact .inl h

omit [DecidableEq κ] in
theorem distinct_nil : Distinct key [] := List.nodup_nil

theorem distinct_cons (h : Distinct key s) (ha : hasKey key s a = false) : Distinct key (a :: s) := by
  rw [hasKey_false_iff] at ha
  refine List.nodup_cons.mpr ⟨?_, h⟩
  simpa using ha

theorem distinct_add (h : Distinct key s) : Distinct key (addKey key s a) := by
  cases hk : hasKey key s a with
  | true => rw [addKey, if_pos hk]; exact h
  | false => rw [addKey, if_neg (by simp [hk])]; exact distinct_cons h hk

omit [DecidableEq κ] in
theorem distinct_filter (h : Distinct key s) (p : α → Bool) : Distinct key (s.filter p) :=
  h.sublist (List.filter_sublist.map key)

theorem distinct_remove (h : Distinct key s) : Distinct key (removeKey key s a) := distinct_filter h _

theorem removeKey_of_not_hasKey (h : hasKey key s a = false) : removeKey key s a = s := by
  rw [hasKey_false_iff] at h
  exact List.filter_eq_self.mpr fun b hb => by simpa using h b hb

theorem removeKey_head (h : Distinct key (a :: s)) : removeKey key (a :: s) a = s := by
  have hs : hasKey key s a = false := by
    rw [hasKey_false_iff]
    intro b hb hk
    exact (List.nodup_cons.mp h).1 (hk ▸ List.mem_map_of_mem hb)
  rw [removeKey, List.filter_cons_of_neg (by simp)]
  exact removeKey_of_not_hasKey hs

omit [DecidableEq κ] in
/-- In a set without repeated keys a key has one object. -/
theorem eq_of_key_eq (h : Distinct key s) (ha : a ∈ s) (hb : b ∈ s) (hk : key a = key b) : a = b :=
  List.inj_on_of_nodup_map h ha hb hk

variable [DecidableEq α]

/-- Taking a member out by its key takes out that object. -/
theorem removeKey_eq_erase (h : Distinct key s) (ha : a ∈ s) : removeKey key s a = s.erase a := by
  rw [h.of_map.erase_eq_filter]
  refine List.filter_congr fun b hb => ?_
  by_cases hk : key b = key a
  · simp [eq_of_key_eq h hb ha hk]
  · have hne : b ≠ a := fun hba => hk (hba ▸ rfl)
    simp [hk, hne]

end Schemes

import Mathlib.Data.List.Perm.Basic
import Mathlib.Data.List.Nodup
import Mathlib.Logic.Function.Basic

/-! A desk that takes requests and answers them later. Each request gets a key of its own and leaves
    something to answer it with, which the desk keeps in a table until then:

        refuse   nothing is kept, nothing will be answered
        serve    answered at once
        accept   kept in the table, and waited for ──▶ answer: taken out, and used once

    `Kept` says that the table holds exactly the requests waited for, and that every other accepted
    request has been answered exactly once. -/

namespace Schemes

variable {κ β : Type} [DecidableEq κ]

structure Desk (κ β : Type) where
  table : κ → Option β
  accepted : List (κ × β)
  refused : List κ
  waiting : List κ
  replies : List (κ × β)

namespace Desk

/-- The replies to the request with a given key. -/
def repliesTo (replies : List (κ × β)) (k : κ) : List (κ × β) := replies.filter fun r => r.1 = k

/-- A key no request has had. -/
def Fresh (d : Desk κ β) (k : κ) : Prop := k ∉ d.accepted.map Prod.fst ∧ k ∉ d.refused

structure Kept (d : Desk κ β) : Prop where
  apart : ∀ k ∈ d.refused, k ∉ d.accepted.map Prod.fst
  once : (d.accepted.map Prod.fst).Nodup
  waits : d.waiting.Nodup
  table_iff : ∀ k b, d.table k = some b ↔ k ∈ d.waiting ∧ (k, b) ∈ d.accepted
  known : ∀ k ∈ d.waiting, k ∈ d.accepted.map Prod.fst
  replied : ∀ r ∈ d.accepted, repliesTo d.replies r.1 = if r.1 ∈ d.waiting then [] else [r]
  silent : ∀ k, k ∉ d.accepted.map Prod.fst → repliesTo d.replies k = []

def empty : Desk κ β := ⟨fun _ => none, [], [], [], []⟩

def refuse (d : Desk κ β) (k : κ) : Desk κ β := { d with refused := d.refused ++ [k] }

def serve (d : Desk κ β) (k : κ) (b : β) : Desk κ β :=
  { d with accepted := d.accepted ++ [(k, b)], replies := d.replies ++ [(k, b)] }

def accept (d : Desk κ β) (k : κ) (b : β) : Desk κ β :=
  { d with
    table := Function.update d.table k (some b)
    accepted := d.accepted ++ [(k, b)]
    waiting := d.waiting ++ [k] }

/-- Whatever the table has for a key is thrown away. -/
def drop (d : Desk κ β) (k : κ) : Desk κ β :=
  { d with table := Function.update d.table k none }

/-- Whatever the table has for a key is taken out and used. -/
def reply (d : Desk κ β) (k : κ) : Desk κ β :=
  match d.table k with
  | some b =>
    { d with table := Function.update d.table k none, replies := d.replies ++ [(k, b)] }
  | none => d

/-- `rest` is what is waited for from now on. -/
def answer (d : Desk κ β) (k : κ) (rest : List κ) : Desk κ β :=
  { d with waiting := rest }.reply k

variable {d : Desk κ β} {k : κ} {b : β}

theorem kept_empty : Kept (empty : Desk κ β) where
  apart _ h := absurd h List.not_mem_nil
  once := List.nodup_nil
  waits := List.nodup_nil
  table_iff k b := by simp [empty]
  known _ h := absurd h List.not_mem_nil
  replied _ h := absurd h List.not_mem_nil
  silent _ _ := rfl

theorem repliesTo_self {rs : List (κ × β)} (h : repliesTo rs k = []) :
    repliesTo (rs ++ [(k, b)]) k = [(k, b)] := by
  rw [repliesTo] at h
  simp [repliesTo, h]

/-- Requests with other keys are answered as before. -/
theorem repliesTo_other {rs : List (κ × β)} {q : κ} (h : k ≠ q) :
    repliesTo (rs ++ [(k, b)]) q = repliesTo rs q := by
  simp [repliesTo, h]

/-- A fresh key is not waited for, and the table has nothing for it. -/
theorem Kept.unused (h : Kept d) (hf : d.Fresh k) : k ∉ d.waiting ∧ d.table k = none := by
  have hw : k ∉ d.waiting := fun hk => hf.1 (h.known k hk)
  refine ⟨hw, ?_⟩
  cases ht : d.table k with
  | none => rfl
  | some b => exact absurd ((h.table_iff k b).mp ht).1 hw

theorem kept_refuse (h : Kept d) (hf : d.Fresh k) : Kept (d.refuse k) := by
  refine ⟨?_, h.once, h.waits, h.table_iff, h.known, h.replied, h.silent⟩
  intro q hq
  rcases List.mem_append.mp hq with hq | hq
  · exact h.apart q hq
  · rw [List.mem_singleton.mp hq]
    exact hf.1

omit [DecidableEq κ] in
theorem nodup_append_one {xs : List κ} (h : xs.Nodup) (hk : k ∉ xs) : (xs ++ [k]).Nodup := by
  rw [List.nodup_append]
  refine ⟨h, List.nodup_singleton k, fun x hx y hy => ?_⟩
  rw [List.mem_singleton.mp hy]
  exact ne_of_mem_of_not_mem hx hk

omit [DecidableEq κ] in
theorem keys_append : (d.accepted ++ [(k, b)]).map Prod.fst = d.accepted.map Prod.fst ++ [k] := by
  simp

omit [DecidableEq κ] in
theorem key_mem {r : κ × β} (hr : r ∈ d.accepted) : r.1 ∈ d.accepted.map Prod.fst :=
  List.mem_map_of_mem hr

theorem kept_serve (h : Kept d) (hf : d.Fresh k) (b : β) : Kept (d.serve k b) := by
  obtain ⟨hw, ht⟩ := h.unused hf
  refine ⟨fun q hq hq' => ?_, ?_, h.waits, fun q b' => ?_, fun q hq => ?_, fun r hr => ?_,
    fun q hq => ?_⟩
  · rcases List.mem_append.mp (keys_append ▸ hq') with hq' | hq'
    · exact h.apart q hq hq'
    · rw [List.mem_singleton.mp hq'] at hq
      exact hf.2 hq
  · exact keys_append ▸ nodup_append_one h.once hf.1
  · refine (h.table_iff q b').trans (and_congr_right fun hq => ?_)
    have hne : (q, b') ≠ (k, b) := by
      rintro he
      cases he
      exact hw hq
    simp [serve, hne]
  · exact keys_append ▸ List.mem_append_left _ (h.known q hq)
  · rcases List.mem_append.mp hr with hr | hr
    · have hne : k ≠ r.1 := fun he => hf.1 (he ▸ key_mem hr)
      exact (repliesTo_other hne).trans (h.replied r hr)
    · obtain rfl := List.mem_singleton.mp hr
      exact (repliesTo_self (h.silent k hf.1)).trans (if_neg hw).symm
  · have hq : q ∉ d.accepted.map Prod.fst ++ [k] := keys_append ▸ hq
    rw [List.mem_append, List.mem_singleton, not_or] at hq
    exact (repliesTo_other (Ne.symm hq.2)).trans (h.silent q hq.1)

theorem kept_accept (h : Kept d) (hf : d.Fresh k) (b : β) : Kept (d.accept k b) := by
  obtain ⟨hw, ht⟩ := h.unused hf
  refine ⟨fun q hq hq' => ?_, ?_, nodup_append_one h.waits hw, fun q b' => ?_, fun q hq => ?_,
    fun r hr => ?_, fun q hq => ?_⟩
  · rcases List.mem_append.mp (keys_append ▸ hq') with hq' | hq'
    · exact h.apart q hq hq'
    · rw [List.mem_singleton.mp hq'] at hq
      exact hf.2 hq
  · exact keys_append ▸ nodup_append_one h.once hf.1
  · by_cases hq : q = k
    · subst hq
      have hold : (q, b') ∉ d.accepted := fun hm => hf.1 (key_mem hm)
      simp [accept, hold, eq_comm]
    · simp [accept, hq, h.table_iff]
  · rcases List.mem_append.mp hq with hq | hq
    · exact keys_append ▸ List.mem_append_left _ (h.known q hq)
    · exact keys_append ▸ List.mem_append_right _ hq
  · rcases List.mem_append.mp hr with hr | hr
    · have hne : r.1 ≠ k := fun he => hf.1 (he ▸ key_mem hr)
      have hiff : r.1 ∈ d.waiting ++ [k] ↔ r.1 ∈ d.waiting := by simp [hne]
      exact (h.replied r hr).trans (if_congr hiff.symm rfl rfl)
    · obtain rfl := List.mem_singleton.mp hr
      refine (h.silent k hf.1).trans (if_pos ?_).symm
      exact List.mem_append_right _ (List.mem_singleton_self k)
  · exact h.silent q fun hm => hq (keys_append ▸ List.mem_append_left _ hm)

/-- The order of what is waited for does not matter. -/
theorem kept_perm {rest : List κ} (h : Kept d) (hp : rest.Perm d.waiting) :
    Kept { d with waiting := rest } := by
  refine ⟨h.apart, h.once, hp.nodup_iff.mpr h.waits, fun q b => ?_, fun q hq => ?_, fun r hr => ?_,
    h.silent⟩
  · rw [hp.mem_iff]
    exact h.table_iff q b
  · exact h.known q (hp.mem_iff.mp hq)
  · exact (h.replied r hr).trans (if_congr hp.mem_iff.symm rfl rfl)

/-- Answering a request that is waited for: it is waited for no longer, and answered once. -/
theorem kept_answer {rest : List κ} (h : Kept d) (hp : (k :: rest).Perm d.waiting) :
    Kept (d.answer k rest) := by
  have hmem (q : κ) : q ∈ d.waiting ↔ q = k ∨ q ∈ rest := by rw [← hp.mem_iff, List.mem_cons]
  have hk : k ∈ d.waiting := (hmem k).mpr (.inl rfl)
  obtain ⟨hnot, hrest⟩ := List.nodup_cons.mp (hp.nodup_iff.mpr h.waits)
  obtain ⟨⟨k', b⟩, hb, rfl⟩ := List.mem_map.mp (h.known k hk)
  rw [answer, reply, (h.table_iff k' b).mpr ⟨hk, hb⟩]
  have hnone := (h.replied _ hb).trans (if_pos hk)
  refine ⟨h.apart, h.once, hrest, fun q b' => ?_, fun q hq => h.known q ((hmem q).mpr (.inr hq)),
    fun r hr => ?_, fun q hq => ?_⟩
  · by_cases hq : q = k'
    · subst hq
      simp [hnot]
    · simp [hq, h.table_iff, hmem]
  · by_cases hr' : r.1 = k'
    · obtain rfl := List.inj_on_of_nodup_map h.once hr hb hr'
      exact (repliesTo_self hnone).trans (if_neg hnot).symm
    · refine (repliesTo_other (Ne.symm hr')).trans ((h.replied r hr).trans ?_)
      exact if_congr ((hmem r.1).trans (or_iff_right hr')) rfl rfl
  · have hne : k' ≠ q := fun he => hq (he ▸ key_mem hb)
    exact (repliesTo_other hne).trans (h.silent q hq)

end Desk

end Schemes

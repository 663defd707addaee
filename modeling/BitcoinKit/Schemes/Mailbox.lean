import BitcoinKit.Schemes.Run

/-! A state that only changes by the messages of a mailbox, taken one at a time and in order:

        post ──▶ m₁ m₂ … mₙ ──▶ take: the state becomes `f state m₁`

    Whatever the order of posting and taking, the state is what some first part of the messages comes to,
    and the rest of them waits (`taken_run`). If no step posts more than one message, that part is what the
    first steps posted (`posted_before`): the state lags behind, and is never a mixture. -/

namespace Schemes

variable {σ μ τ ℓ : Type}

structure Mailbox (σ μ : Type) where
  state : σ
  waiting : List μ

namespace Mailbox

def post (b : Mailbox σ μ) (ms : List μ) : Mailbox σ μ := { b with waiting := b.waiting ++ ms }

/-- The next message is taken, if there is one. -/
def take (f : σ → μ → σ) (b : Mailbox σ μ) : Mailbox σ μ :=
  match b.waiting with
  | [] => b
  | m :: ms => ⟨f b.state m, ms⟩

@[simp] theorem post_nil (b : Mailbox σ μ) : b.post [] = b := by simp [post]

/-- What is taken comes first. -/
theorem taken_take (f : σ → μ → σ) (b : Mailbox σ μ) : ∃ taken,
    b.waiting = taken ++ (b.take f).waiting ∧ (b.take f).state = taken.foldl f b.state := by
  unfold take
  split
  · exact ⟨[], rfl, rfl⟩
  · next m ms h => exact ⟨[m], h, rfl⟩

/-- A machine that takes and posts messages is where some of them have taken it; the rest waits. -/
theorem taken_run {f : σ → μ → σ} {step : τ → ℓ → τ} {view : τ → Mailbox σ μ} {posts : ℓ → List μ}
    (hstep : ∀ s l, view (step s l) = (view s).post (posts l) ∨
      posts l = [] ∧ view (step s l) = (view s).take f) (s : τ) (ls : List ℓ) :
    ∃ taken, (view s).waiting ++ ls.flatMap posts = taken ++ (view (run step s ls)).waiting ∧
      (view (run step s ls)).state = taken.foldl f (view s).state := by
  induction ls generalizing s with
  | nil => exact ⟨[], List.append_nil _, rfl⟩
  | cons l ls ih =>
    obtain ⟨taken, hsplit, hstate⟩ := ih (step s l)
    rw [run_cons, hstate, List.flatMap_cons]
    rcases hstep s l with hpost | ⟨hnone, htake⟩
    · rw [hpost] at hsplit ⊢
      exact ⟨taken, (List.append_assoc ..).symm.trans hsplit, rfl⟩
    · obtain ⟨first, hfirst, hmoved⟩ := taken_take f (view s)
      rw [htake] at hsplit ⊢
      refine ⟨first ++ taken, ?_, ?_⟩
      · rw [hnone, List.nil_append, hfirst, List.append_assoc, hsplit, List.append_assoc]
      · rw [List.foldl_append, hmoved]

/-- A first part of the messages is what the first steps posted. -/
theorem posted_before {posts : ℓ → List μ} (hone : ∀ l, (posts l).length ≤ 1) {ls : List ℓ}
    {taken rest : List μ} (h : ls.flatMap posts = taken ++ rest) :
    ∃ before after, ls = before ++ after ∧ before.flatMap posts = taken ∧ after.flatMap posts = rest := by
  induction ls generalizing taken with
  | nil =>
    obtain ⟨htaken, hrest⟩ := List.append_eq_nil_iff.mp h.symm
    exact ⟨[], [], rfl, htaken.symm, hrest.symm⟩
  | cons l ls ih =>
    cases taken with
    | nil => exact ⟨[], l :: ls, rfl, rfl, h⟩
    | cons m taken =>
      rw [List.flatMap_cons] at h
      have hnext : ∃ taken', m :: taken = posts l ++ taken' ∧ ls.flatMap posts = taken' ++ rest := by
        match hl : posts l, hone l with
        | [], _ => exact ⟨m :: taken, rfl, by rwa [hl] at h⟩
        | [m'], _ =>
          rw [hl] at h
          obtain ⟨rfl, htail⟩ := List.cons.inj h
          exact ⟨taken, rfl, htail⟩
      obtain ⟨taken', htaken, hsplit⟩ := hnext
      obtain ⟨before, after, hls, hbefore, hafter⟩ := ih hsplit
      exact ⟨l :: before, after, congrArg (l :: ·) hls, by rw [List.flatMap_cons, hbefore, htaken], hafter⟩

end Mailbox

end Schemes

import Mathlib.Data.List.Basic

/-! Runs of a labelled machine. A machine is a total step function `σ → ℓ → σ`: every choice its
    surroundings make sits in the label, so an interleaving is a list of labels and a run is a left
    fold. Two things recur in every development over such machines:

        a property of every reachable state    ── an invariant kept by each step   (`inv_run`)
        a property under a caller's discipline ── an invariant kept by each step whose
                                                  label meets a condition on the state it is
                                                  taken in                          (`inv_meets`)

    `Meets ok s ls` says that each label of `ls` meets `ok` in the state it is taken in. -/

namespace Schemes

variable {σ ℓ τ κ μ : Type}

/-- The state after the labels `ls`, taken in order from `s`. -/
def run (step : σ → ℓ → σ) (s : σ) (ls : List ℓ) : σ := ls.foldl step s

/-- Every label of `ls` meets `ok` in the state it is taken in. -/
def Meets (step : σ → ℓ → σ) (ok : σ → ℓ → Prop) : σ → List ℓ → Prop
  | _, [] => True
  | s, l :: ls => ok s l ∧ Meets step ok (step s l) ls

instance decidableMeets (step : σ → ℓ → σ) (ok : σ → ℓ → Prop) [∀ s l, Decidable (ok s l)] :
    ∀ s ls, Decidable (Meets step ok s ls)
  | _, [] => inferInstanceAs (Decidable True)
  | s, l :: ls =>
    have := decidableMeets step ok (step s l) ls
    inferInstanceAs (Decidable (ok s l ∧ Meets step ok (step s l) ls))

variable {step : σ → ℓ → σ} {ok : σ → ℓ → Prop} {I : σ → Prop}

@[simp] theorem run_nil (s : σ) : run step s [] = s := rfl

@[simp] theorem run_cons (s : σ) (l : ℓ) (ls : List ℓ) :
    run step s (l :: ls) = run step (step s l) ls := rfl

theorem run_append (s : σ) (ls ms : List ℓ) : run step s (ls ++ ms) = run step (run step s ls) ms := by
  simp [run, List.foldl_append]

/-- The conditions on a run split at any state it goes through. -/
theorem meets_append : ∀ (s : σ) (ls ms : List ℓ),
    Meets step ok s (ls ++ ms) ↔ Meets step ok s ls ∧ Meets step ok (run step s ls) ms
  | _, [], _ => by simp [Meets]
  | s, l :: ls, ms => by
    simp only [List.cons_append, Meets, run_cons, meets_append (step s l) ls ms, and_assoc]

theorem meets_mono {ok' : σ → ℓ → Prop} (h : ∀ s l, ok s l → ok' s l) :
    ∀ (s : σ) (ls : List ℓ), Meets step ok s ls → Meets step ok' s ls
  | _, [], _ => trivial
  | s, l :: ls, ⟨hl, hls⟩ => ⟨h s l hl, meets_mono h (step s l) ls hls⟩

theorem meets_and {ok' : σ → ℓ → Prop} :
    ∀ (s : σ) (ls : List ℓ), Meets step ok s ls → Meets step ok' s ls →
      Meets step (fun s l => ok s l ∧ ok' s l) s ls
  | _, [], _, _ => trivial
  | s, l :: ls, ⟨hl, hls⟩, ⟨hl', hls'⟩ => ⟨⟨hl, hl'⟩, meets_and (step s l) ls hls hls'⟩

/-- An invariant kept by each step that meets the condition holds after every run that does. -/
theorem inv_meets (hstep : ∀ s l, I s → ok s l → I (step s l)) :
    ∀ (s : σ) (ls : List ℓ), I s → Meets step ok s ls → I (run step s ls)
  | _, [], hs, _ => hs
  | s, l :: ls, hs, ⟨hl, hls⟩ => inv_meets hstep (step s l) ls (hstep s l hs hl) hls

/-- So does one of the state and of what `f` has read off the labels so far. -/
theorem inv_meets_log {f : ℓ → Option μ} {I : σ → List μ → Prop}
    (hstep : ∀ s log l, I s log → ok s l → I (step s l) (log ++ (f l).toList)) :
    ∀ (s : σ) (log : List μ) (ls : List ℓ), I s log → Meets step ok s ls →
      I (run step s ls) (log ++ ls.filterMap f)
  | _, log, [], hs, _ => (List.append_nil log).symm ▸ hs
  | s, log, l :: ls, hs, ⟨hl, hls⟩ => by
    have hlog : log ++ (l :: ls).filterMap f = log ++ (f l).toList ++ ls.filterMap f := by
      rw [List.append_assoc, ← List.singleton_append, List.filterMap_append]
      cases hf : f l <;> simp [hf]
    rw [run_cons, hlog]
    exact inv_meets_log hstep (step s l) _ ls (hstep s log l hs hl) hls

/-- What follows at each step from the invariant and the condition is true of every step of the run. -/
theorem meets_of_inv {ok' : σ → ℓ → Prop} (hstep : ∀ s l, I s → ok s l → I (step s l))
    (h : ∀ s l, I s → ok s l → ok' s l) :
    ∀ (s : σ) (ls : List ℓ), I s → Meets step ok s ls → Meets step ok' s ls
  | _, [], _, _ => trivial
  | s, l :: ls, hs, ⟨hl, hls⟩ =>
    ⟨h s l hs hl, meets_of_inv hstep h (step s l) ls (hstep s l hs hl) hls⟩

/-- An invariant kept by every step holds after every run. -/
theorem inv_run (hstep : ∀ s l, I s → I (step s l)) (s : σ) (ls : List ℓ) (hs : I s) :
    I (run step s ls) := by
  induction ls generalizing s with
  | nil => exact hs
  | cons l ls ih => exact ih (step s l) (hstep s l hs)

/-- The machine that takes no step in a state where it has halted. -/
def halting (halted : σ → Bool) (step : σ → ℓ → σ) (s : σ) (l : ℓ) : σ :=
  if halted s then s else step s l

/-- It runs as the machine does, for as long as it runs. -/
theorem run_halting (halted : σ → Bool) (step : σ → ℓ → σ) (s : σ) (ls : List ℓ) :
    ∃ lived rest, ls = lived ++ rest ∧ run (halting halted step) s ls = run step s lived ∧
      (halted (run (halting halted step) s ls) = false → rest = []) := by
  induction ls generalizing s with
  | nil => exact ⟨[], [], rfl, rfl, fun _ => rfl⟩
  | cons l ls ih =>
    cases hs : halted s with
    | true =>
      have hstay : run (halting halted step) s (l :: ls) = s :=
        inv_run (I := fun t => t = s) (fun t _ ht => by rw [halting, ht, if_pos hs]) s (l :: ls) rfl
      refine ⟨[], l :: ls, rfl, hstay, fun halive => ?_⟩
      rw [hstay, hs] at halive
      cases halive
    | false =>
      obtain ⟨lived, rest, hsplit, hrun, halive⟩ := ih (step s l)
      have hstep : halting halted step s l = step s l := if_neg (by simp [hs])
      rw [run_cons, hstep]
      exact ⟨l :: lived, rest, congrArg (l :: ·) hsplit, hrun, halive⟩

/-- A map of states that turns each step into a step of a second machine turns each run into one
    of its runs. -/
theorem run_map {step' : τ → κ → τ} {abs : σ → τ} {lab : ℓ → κ}
    (hstep : ∀ s l, abs (step s l) = step' (abs s) (lab l)) (s : σ) (ls : List ℓ) :
    abs (run step s ls) = run step' (abs s) (ls.map lab) := by
  induction ls generalizing s with
  | nil => rfl
  | cons l ls ih => rw [run_cons, ih, hstep]; rfl

/-- A machine whose steps make a second one run, and log of it what `f` reads off the labels it runs on:
    a run makes the second machine run, and logs all of it. -/
theorem run_driving {step' : τ → κ → τ} (abs : σ → τ) (log : σ → List μ) {f : κ → Option μ} {Q : κ → Prop}
    (hstep : ∀ s l, ∃ told, (∀ k ∈ told, Q k) ∧ abs (step s l) = run step' (abs s) told ∧
      log (step s l) = log s ++ told.filterMap f) (s : σ) (ls : List ℓ) :
    ∃ told, (∀ k ∈ told, Q k) ∧ abs (run step s ls) = run step' (abs s) told ∧
      log (run step s ls) = log s ++ told.filterMap f := by
  induction ls generalizing s with
  | nil => exact ⟨[], nofun, rfl, (List.append_nil _).symm⟩
  | cons l ls ih =>
    obtain ⟨first, hfirst, habs, hlog⟩ := hstep s l
    obtain ⟨told, htold, habs', hlog'⟩ := ih (step s l)
    refine ⟨first ++ told, List.forall_mem_append.mpr ⟨hfirst, htold⟩, ?_, ?_⟩
    · rw [run_cons, habs', habs, run_append]
    · rw [run_cons, hlog', hlog, List.filterMap_append, List.append_assoc]

/-- So does what each step meets. -/
theorem meets_map {step' : τ → ℓ → τ} {abs : τ → σ}
    (hstep : ∀ t l, abs (step' t l) = step (abs t) l) :
    ∀ (t : τ) (ls : List ℓ), Meets step ok (abs t) ls → Meets step' (fun t l => ok (abs t) l) t ls
  | _, [], _ => trivial
  | t, l :: ls, ⟨hl, hls⟩ => ⟨hl, meets_map hstep (step' t l) ls (hstep t l ▸ hls)⟩

end Schemes

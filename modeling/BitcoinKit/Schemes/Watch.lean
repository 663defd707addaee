import BitcoinKit.Schemes.Throwing

/-! Programs watched by a record that they never read. A watched program works on the state and a
    record beside it: what it takes over from the program it watches is `quiet`, and a `mark` enters
    what is true at that point into the record.

        quiet m     run `m`, leave the record
        noted f m   run `m`, the record becomes `f` of the states before and after and itself
        mark f      the record becomes `f` of the state and itself

    `Erases m' m` says that `m'` is `m` to anyone who does not look at the record. -/

namespace Schemes

variable {ε σ γ α β : Type}

def quiet (m : EStateM ε σ α) : EStateM ε (σ × γ) α := fun s =>
  match m s.1 with
  | .ok a t => .ok a (t, s.2)
  | .error e t => .error e (t, s.2)

def noted (f : σ → σ → γ → γ) (m : EStateM ε σ α) : EStateM ε (σ × γ) α := fun s =>
  match m s.1 with
  | .ok a t => .ok a (t, f s.1 t s.2)
  | .error e t => .error e (t, f s.1 t s.2)

def mark (f : σ → γ → γ) : EStateM ε (σ × γ) PUnit := modify fun s => (s.1, f s.1 s.2)

@[simp] theorem ends_quiet {m : EStateM ε σ α} {s : σ × γ} {Q : Except ε α → σ × γ → Prop} :
    Ends (quiet m) s Q ↔ Ends m s.1 fun r t => Q r (t, s.2) := by
  unfold Ends quiet
  cases m s.1 <;> rfl

@[simp] theorem ends_noted {f : σ → σ → γ → γ} {m : EStateM ε σ α} {s : σ × γ}
    {Q : Except ε α → σ × γ → Prop} :
    Ends (noted f m) s Q ↔ Ends m s.1 fun r t => Q r (t, f s.1 t s.2) := by
  unfold Ends noted
  cases m s.1 <;> rfl

@[simp] theorem ends_mark {f : σ → γ → γ} {s : σ × γ} {Q : Except ε PUnit → σ × γ → Prop} :
    Ends (mark f) s Q ↔ Q (.ok ⟨⟩) (s.1, f s.1 s.2) := Iff.rfl

theorem quiet_bind (m : EStateM ε σ α) (f : α → EStateM ε σ β) :
    (quiet (m >>= f) : EStateM ε (σ × γ) β) = quiet m >>= fun a => quiet (f a) := by
  funext s
  change quiet (EStateM.bind m f) s = EStateM.bind (quiet m) (fun a => quiet (f a)) s
  simp only [quiet, EStateM.bind]
  cases m s.1 <;> rfl

theorem quiet_pure (a : α) : (quiet (pure a) : EStateM ε (σ × γ) α) = pure a := rfl

theorem mark_none : (mark (fun _ => id) : EStateM ε (σ × γ) PUnit) = pure ⟨⟩ := rfl

/-- What a quiet program known only to move along `R` leaves, run before another. -/
theorem ends_bind_quiet {R : Along σ} {m : EStateM ε σ α} {f : α → EStateM ε (σ × γ) β} {s : σ × γ}
    {Q : Except ε β → σ × γ → Prop} (hm : Moves R m)
    (hok : ∀ a t, R.rel s.1 t → Ends (f a) (t, s.2) Q)
    (herr : ∀ e t, R.rel s.1 t → Q (.error e) (t, s.2)) : Ends (quiet m >>= f) s Q := by
  rw [ends_bind, ends_quiet]
  refine ends_mono (ends_of_moves hm) fun r t hst => ?_
  cases r with
  | ok a => exact hok a t hst
  | error e => exact herr e t hst

/-- A quiet program keeps to what the relation of the program it runs says of the state. -/
theorem moves_quiet {R : Along σ} {S : Along (σ × γ)} {m : EStateM ε σ α} (hm : Moves R m)
    (h : ∀ s t g, R.rel s t → S.rel (s, g) (t, g)) : Moves S (quiet m : EStateM ε (σ × γ) α) := by
  intro s
  have hends : Ends (quiet m) s fun _ t => S.rel s t := by
    rw [ends_quiet]
    exact ends_mono (ends_of_moves hm) fun _ t hst => h s.1 t s.2 hst
  exact hends

/-- A result without the record. -/
def erased : EStateM.Result ε (σ × γ) α → EStateM.Result ε σ α
  | .ok a t => .ok a t.1
  | .error e t => .error e t.1

theorem after_erased (r : EStateM.Result ε (σ × γ) α) : after (erased r) = (after r).1 := by
  cases r <;> rfl

/-- Every run of `m'` is a run of `m` with a record beside it. -/
def Erases (m' : EStateM ε (σ × γ) α) (m : EStateM ε σ α) : Prop := ∀ s, erased (m' s) = m s.1

theorem erases_after {m' : EStateM ε (σ × γ) α} {m : EStateM ε σ α} (h : Erases m' m) (s : σ × γ) :
    (after (m' s)).1 = after (m s.1) := by
  rw [← h s, after_erased]

theorem erases_quiet (m : EStateM ε σ α) : Erases (quiet m : EStateM ε (σ × γ) α) m := by
  intro s
  unfold quiet
  cases m s.1 <;> rfl

theorem erases_noted (f : σ → σ → γ → γ) (m : EStateM ε σ α) :
    Erases (noted f m : EStateM ε (σ × γ) α) m := by
  intro s
  unfold noted
  cases m s.1 <;> rfl

theorem erases_modify {f' : σ × γ → σ × γ} {f : σ → σ} (h : ∀ s, (f' s).1 = f s.1) :
    Erases (modify f' : EStateM ε (σ × γ) PUnit) (modify f) := fun s =>
  congrArg (EStateM.Result.ok PUnit.unit) (h s)

theorem erases_bind {m' : EStateM ε (σ × γ) α} {m : EStateM ε σ α}
    {f' : α → EStateM ε (σ × γ) β} {f : α → EStateM ε σ β} (hm : Erases m' m)
    (hf : ∀ a, Erases (f' a) (f a)) : Erases (m' >>= f') (m >>= f) := by
  intro s
  change erased (EStateM.bind m' f' s) = EStateM.bind m f s.1
  unfold EStateM.bind
  rw [← hm s]
  cases m' s with
  | ok a t => exact hf a t
  | error e t => rfl

/-- A mark before the rest of a program. -/
theorem erases_marking {m' : EStateM ε (σ × γ) α} {m : EStateM ε σ α} (hm : Erases m' m)
    (f : σ → γ → γ) : Erases (mark f >>= fun _ => m') m := fun s => hm (s.1, f s.1 s.2)

/-- A mark after a program that returns nothing. -/
theorem erases_marked {m' : EStateM ε (σ × γ) PUnit} {m : EStateM ε σ PUnit} (hm : Erases m' m)
    (f : σ → γ → γ) : Erases (m' >>= fun _ => mark f) m := by
  intro s
  change erased (EStateM.bind m' (fun _ => mark f) s) = m s.1
  unfold EStateM.bind
  rw [← hm s]
  cases m' s <;> rfl

theorem erases_tryCatch {m' : EStateM ε (σ × γ) α} {m : EStateM ε σ α}
    {f' : ε → EStateM ε (σ × γ) α} {f : ε → EStateM ε σ α} (hm : Erases m' m)
    (hf : ∀ e, Erases (f' e) (f e)) : Erases (tryCatch m' f') (tryCatch m f) := by
  intro s
  change erased (EStateM.tryCatch m' f' s) = EStateM.tryCatch m f s.1
  unfold EStateM.tryCatch
  rw [← hm s]
  cases m' s with
  | ok a t => rfl
  | error e t => exact hf e t

theorem erases_ite {c : Prop} [Decidable c] {m' n' : EStateM ε (σ × γ) α} {m n : EStateM ε σ α}
    (hm : Erases m' m) (hn : Erases n' n) :
    Erases (if c then m' else n') (if c then m else n) := by
  split
  · exact hm
  · exact hn

theorem erases_throw (e : ε) : Erases (throw e : EStateM ε (σ × γ) α) (throw e) := fun _ => rfl

theorem erases_pure (a : α) : Erases (pure a : EStateM ε (σ × γ) α) (pure a) := fun _ => rfl

theorem erases_catchIf {p : ε → Bool} {m' : EStateM ε (σ × γ) α} {m : EStateM ε σ α}
    {f' : ε → EStateM ε (σ × γ) α} {f : ε → EStateM ε σ α} (hm : Erases m' m)
    (hf : ∀ e, Erases (f' e) (f e)) : Erases (catchIf p m' f') (catchIf p m f) :=
  erases_tryCatch hm fun e => erases_ite (hf e) (erases_throw e)

theorem erases_forIn {δ : Type} {f' : δ → β → EStateM ε (σ × γ) (ForInStep β)}
    {f : δ → β → EStateM ε σ (ForInStep β)} (hf : ∀ x b, Erases (f' x b) (f x b)) :
    ∀ (xs : List δ) (b : β), Erases (forIn xs b f') (forIn xs b f)
  | [], b => erases_pure b
  | x :: xs, b => by
    rw [List.forIn_cons, List.forIn_cons]
    refine erases_bind (hf x b) fun next => ?_
    cases next with
    | done b' => exact erases_pure b'
    | yield b' => exact erases_forIn hf xs b'

end Schemes

import Mathlib.Order.Basic

/-! Programs that change a state and may throw, as `EStateM ε σ`: what was changed before a throw
    stays changed. Two ways to say what such a program does:

        `Ends m s Q`   one run: the outcome and the state it leaves satisfy `Q`
        `Moves R m`    all runs: state before and state after are related by the preorder `R`,
                       whichever way the program ends

    `Moves` covers frames (`keeping`), invariants (`preserving`) and logs that only grow
    (`growing`), and is closed under sequencing, choice, handlers and finalizers, so a program
    moves along `R` as soon as its primitive steps do. -/

namespace Schemes

variable {ε σ α β γ : Type}

/-- The state a run leaves, on either way out. -/
def after : EStateM.Result ε σ α → σ
  | .ok _ s => s
  | .error _ s => s

/-- The outcome of a run without its state. -/
def outcome : EStateM.Result ε σ α → Except ε α
  | .ok a _ => .ok a
  | .error e _ => .error e

/-- What an outcome throws, if it does. -/
def thrown : Except ε α → Option ε
  | .ok _ => none
  | .error e => some e

@[simp] theorem after_ok (a : α) (s : σ) : after (.ok a s : EStateM.Result ε σ α) = s := rfl
@[simp] theorem after_error (e : ε) (s : σ) : after (.error e s : EStateM.Result ε σ α) = s := rfl
@[simp] theorem outcome_ok (a : α) (s : σ) :
    outcome (.ok a s : EStateM.Result ε σ α) = .ok a := rfl
@[simp] theorem outcome_error (e : ε) (s : σ) :
    outcome (.error e s : EStateM.Result ε σ α) = .error e := rfl

/-- `try m catch (p e) => h e`: only throws that satisfy `p` are handled, others pass. -/
def catchIf (p : ε → Bool) (m : EStateM ε σ α) (h : ε → EStateM ε σ α) : EStateM ε σ α :=
  tryCatch m fun e => if p e then h e else throw e

/-! ### One run -/

/-- The run of `m` from `s` ends with an outcome and a state that satisfy `Q`. -/
def Ends (m : EStateM ε σ α) (s : σ) (Q : Except ε α → σ → Prop) : Prop :=
  Q (outcome (m s)) (after (m s))

variable {s : σ} {Q Q' : Except ε α → σ → Prop}

theorem ends_mono {m : EStateM ε σ α} (h : Ends m s Q) (hq : ∀ r t, Q r t → Q' r t) :
    Ends m s Q' := hq _ _ h

theorem ends_and {m : EStateM ε σ α} (h : Ends m s Q) (h' : Ends m s Q') :
    Ends m s fun r t => Q r t ∧ Q' r t := ⟨h, h'⟩

@[simp] theorem ends_pure (a : α) : Ends (pure a : EStateM ε σ α) s Q ↔ Q (.ok a) s := Iff.rfl

@[simp] theorem ends_throw (e : ε) : Ends (throw e : EStateM ε σ α) s Q ↔ Q (.error e) s := Iff.rfl

@[simp] theorem ends_get {Q : Except ε σ → σ → Prop} :
    Ends (get : EStateM ε σ σ) s Q ↔ Q (.ok s) s := Iff.rfl

@[simp] theorem ends_modify {Q : Except ε PUnit → σ → Prop} (f : σ → σ) :
    Ends (modify f : EStateM ε σ PUnit) s Q ↔ Q (.ok ⟨⟩) (f s) := Iff.rfl

/-- Sequencing: the second program runs from where the first returned. -/
@[simp] theorem ends_bind {m : EStateM ε σ α} {f : α → EStateM ε σ β} {Q : Except ε β → σ → Prop} :
    Ends (m >>= f) s Q ↔ Ends m s fun
      | .ok a, t => Ends (f a) t Q
      | .error e, t => Q (.error e) t := by
  change Q (outcome (EStateM.bind m f s)) (after (EStateM.bind m f s)) ↔ _
  unfold EStateM.bind Ends
  cases m s <;> rfl

/-- A program that returns, run before another. -/
theorem ends_bind_ok {m : EStateM ε σ α} {f : α → EStateM ε σ β} {Q : Except ε β → σ → Prop}
    {I : α → σ → Prop} (hm : Ends m s fun r t => ∃ a, r = .ok a ∧ I a t)
    (hf : ∀ a t, I a t → Ends (f a) t Q) : Ends (m >>= f) s Q := by
  rw [ends_bind]
  refine ends_mono hm fun r t ⟨a, hr, ha⟩ => ?_
  rw [hr]
  exact hf a t ha

/-- A handler runs from where the body threw, with what the body changed. -/
@[simp] theorem ends_tryCatch {m : EStateM ε σ α} {h : ε → EStateM ε σ α} :
    Ends (tryCatch m h) s Q ↔ Ends m s fun
      | .ok a, t => Q (.ok a) t
      | .error e, t => Ends (h e) t Q := by
  change Q (outcome (EStateM.tryCatch m h s)) (after (EStateM.tryCatch m h s)) ↔ _
  unfold EStateM.tryCatch Ends
  cases m s <;> rfl

/-- A finalizer runs on both ways out; its own throw replaces the outcome. -/
@[simp] theorem ends_tryFinally {m : EStateM ε σ α} {fin : EStateM ε σ β} :
    Ends (tryFinally m fin) s Q ↔ Ends m s fun r t => Ends fin t fun
      | .ok _, u => Q r u
      | .error e, u => Q (.error e) u := by
  unfold Ends tryFinally
  simp only [Functor.map, EStateM.map, MonadFinally.tryFinally']
  cases m s with
  | ok a t => simp only [outcome_ok, after_ok]; cases fin t <;> rfl
  | error e t => simp only [outcome_error, after_error]; cases fin t <;> rfl

@[simp] theorem ends_ite {c : Prop} [Decidable c] {m n : EStateM ε σ α} :
    Ends (if c then m else n) s Q ↔ if c then Ends m s Q else Ends n s Q := by
  split <;> rfl

@[simp] theorem ends_catchIf {p : ε → Bool} {m : EStateM ε σ α} {h : ε → EStateM ε σ α} :
    Ends (catchIf p m h) s Q ↔ Ends m s fun
      | .ok a, t => Q (.ok a) t
      | .error e, t => if p e then Ends (h e) t Q else Q (.error e) t := by
  simp only [catchIf, ends_tryCatch, ends_ite, ends_throw]

/-- A program on a part of a larger state. -/
def within {τ : Type} (part : τ → σ) (put : τ → σ → τ) (m : EStateM ε σ α) : EStateM ε τ α := fun t =>
  match m (part t) with
  | .ok a s => .ok a (put t s)
  | .error e s => .error e (put t s)

@[simp] theorem ends_within {τ : Type} {part : τ → σ} {put : τ → σ → τ} {m : EStateM ε σ α} {t : τ}
    {Q : Except ε α → τ → Prop} :
    Ends (within part put m) t Q ↔ Ends m (part t) fun r s => Q r (put t s) := by
  unfold Ends within
  cases m (part t) <;> rfl

/-- A loop over a list, by an invariant that knows what is still to come. -/
theorem ends_forIn {δ : Type} {f : δ → β → EStateM ε σ (ForInStep β)} {I : List δ → β → σ → Prop}
    {E : ε → σ → Prop}
    (hstep : ∀ x xs b s, I (x :: xs) b s → Ends (f x b) s fun
      | .ok (.yield b'), t => I xs b' t
      | .ok (.done b'), t => I [] b' t
      | .error e, t => E e t) :
    ∀ xs b s, I xs b s → Ends (forIn xs b f) s fun
      | .ok b', t => I [] b' t
      | .error e, t => E e t
  | [], b, s, h => by rw [List.forIn_nil, ends_pure]; exact h
  | x :: xs, b, s, h => by
    rw [List.forIn_cons, ends_bind]
    refine ends_mono (hstep x xs b s h) fun r t hr => ?_
    cases r with
    | error e => exact hr
    | ok next =>
      cases next with
      | done b' => exact hr
      | yield b' => exact ends_forIn hstep xs b' t hr

/-! ### All runs -/

/-- A relation a program may move the state along: staying put is allowed, and so is moving twice. -/
structure Along (σ : Type) where
  rel : σ → σ → Prop
  refl : ∀ s, rel s s
  trans : ∀ {s t u}, rel s t → rel t u → rel s u

/-- The view `f` of the state keeps its value. -/
def keeping (f : σ → γ) : Along σ where
  rel s t := f t = f s
  refl _ := rfl
  trans h₁ h₂ := h₂.trans h₁

/-- The invariant `I` survives. -/
def preserving (I : σ → Prop) : Along σ where
  rel s t := I s → I t
  refl _ := id
  trans h₁ h₂ := h₂ ∘ h₁

/-- Every run of `m` moves the state along `R`, whichever way it ends. -/
def Moves (R : Along σ) (m : EStateM ε σ α) : Prop := ∀ s, R.rel s (after (m s))

variable {R : Along σ}

theorem moves_pure (a : α) : Moves R (pure a : EStateM ε σ α) := R.refl

theorem moves_throw (e : ε) : Moves R (throw e : EStateM ε σ α) := R.refl

theorem moves_get : Moves R (get : EStateM ε σ σ) := R.refl

theorem moves_modify {f : σ → σ} (h : ∀ s, R.rel s (f s)) :
    Moves R (modify f : EStateM ε σ PUnit) := h

theorem moves_bind {m : EStateM ε σ α} {f : α → EStateM ε σ β} (hm : Moves R m)
    (hf : ∀ a, Moves R (f a)) : Moves R (m >>= f) := by
  intro s
  have h := hm s
  change R.rel s (after (EStateM.bind m f s))
  unfold EStateM.bind
  cases hr : m s with
  | ok a t => rw [hr] at h; exact R.trans h (hf a t)
  | error e t => rw [hr] at h; exact h

theorem moves_tryCatch {m : EStateM ε σ α} {f : ε → EStateM ε σ α} (hm : Moves R m)
    (hf : ∀ e, Moves R (f e)) : Moves R (tryCatch m f) := by
  intro s
  have h := hm s
  change R.rel s (after (EStateM.tryCatch m f s))
  unfold EStateM.tryCatch
  cases hr : m s with
  | ok a t => rw [hr] at h; exact h
  | error e t => rw [hr] at h; exact R.trans h (hf e t)

theorem moves_tryFinally {m : EStateM ε σ α} {fin : EStateM ε σ β} (hm : Moves R m)
    (hf : Moves R fin) : Moves R (tryFinally m fin) := by
  intro s
  have h : Ends m s fun _ t => R.rel s t := hm s
  have hfin : Ends (tryFinally m fin) s fun _ t => R.rel s t := by
    rw [ends_tryFinally]
    refine ends_mono h fun _ t hst => ?_
    have hu : Ends fin t fun _ u => R.rel s u := R.trans hst (hf t)
    refine ends_mono hu fun r u hsu => ?_
    cases r <;> exact hsu
  exact hfin

theorem moves_ite {c : Prop} [Decidable c] {m n : EStateM ε σ α} (hm : Moves R m)
    (hn : Moves R n) : Moves R (if c then m else n) := by
  split
  · exact hm
  · exact hn

theorem moves_catchIf {p : ε → Bool} {m : EStateM ε σ α} {f : ε → EStateM ε σ α} (hm : Moves R m)
    (hf : ∀ e, Moves R (f e)) : Moves R (catchIf p m f) :=
  moves_tryCatch hm fun e => moves_ite (hf e) (moves_throw e)

/-- A program known only to move along `R`, run before another: whatever it leaves. -/
theorem ends_bind_of_moves {m : EStateM ε σ α} {f : α → EStateM ε σ β}
    {Q : Except ε β → σ → Prop} (hm : Moves R m) (hok : ∀ a t, R.rel s t → Ends (f a) t Q)
    (herr : ∀ e t, R.rel s t → Q (.error e) t) : Ends (m >>= f) s Q := by
  rw [ends_bind]
  have h : Ends m s fun _ t => R.rel s t := hm s
  refine ends_mono h fun r t hst => ?_
  cases r with
  | ok a => exact hok a t hst
  | error e => exact herr e t hst

/-- A program that moves along `R`, run from a state that `R` leads to. -/
theorem ends_along {m : EStateM ε σ α} {t : σ} (h : R.rel s t) (hm : Moves R m) :
    Ends m t fun _ u => R.rel s u := R.trans h (hm t)

theorem ends_of_moves {m : EStateM ε σ α} (hm : Moves R m) : Ends m s fun _ t => R.rel s t := hm s

theorem moves_forIn {δ : Type} {f : δ → β → EStateM ε σ (ForInStep β)}
    (hf : ∀ a b, Moves R (f a b)) : ∀ (xs : List δ) (b : β), Moves R (forIn xs b f)
  | [], b => by rw [List.forIn_nil]; exact moves_pure b
  | x :: xs, b => by
    rw [List.forIn_cons]
    refine moves_bind (hf x b) fun r => ?_
    cases r with
    | done b' => exact moves_pure b'
    | yield b' => exact moves_forIn hf xs b'

/-! ### What a program can throw -/

/-- Everything `m` throws satisfies `P`, from whichever state it runs. -/
def Throws (P : ε → Prop) (m : EStateM ε σ α) : Prop := ∀ s e, outcome (m s) = .error e → P e

variable {P P' : ε → Prop}

theorem throws_iff {m : EStateM ε σ α} :
    Throws P m ↔ ∀ s, Ends m s fun r _ => ∀ e, r = .error e → P e := Iff.rfl

theorem throws_pure (a : α) : Throws P (pure a : EStateM ε σ α) := fun _ _ h => by cases h

theorem throws_get : Throws P (get : EStateM ε σ σ) := fun _ _ h => by cases h

theorem throws_modify (f : σ → σ) : Throws P (modify f : EStateM ε σ PUnit) :=
  fun _ _ h => by cases h

theorem throws_bind {m : EStateM ε σ α} {f : α → EStateM ε σ β} (hm : Throws P m)
    (hf : ∀ a, Throws P (f a)) : Throws P (m >>= f) := by
  rw [throws_iff]
  intro s
  rw [ends_bind]
  refine ends_mono (throws_iff.mp hm s) fun r t hr => ?_
  cases r with
  | ok a => exact throws_iff.mp (hf a) t
  | error e =>
    rintro e' he'
    cases he'
    exact hr e rfl

theorem throws_ite {c : Prop} [Decidable c] {m n : EStateM ε σ α} (hm : Throws P m)
    (hn : Throws P n) : Throws P (if c then m else n) := by
  split
  · exact hm
  · exact hn

/-- What gets past a handler: what the body throws and the handler does not take, and what the
    handler itself throws. -/
theorem throws_catchIf {p : ε → Bool} {m : EStateM ε σ α} {f : ε → EStateM ε σ α}
    (hm : Throws P' m) (hp : ∀ e, P' e → p e = false → P e) (hf : ∀ e, Throws P (f e)) :
    Throws P (catchIf p m f) := by
  rw [throws_iff]
  intro s
  rw [ends_catchIf]
  refine ends_mono (throws_iff.mp hm s) fun r t hr => ?_
  cases r with
  | ok a => exact fun e he => by cases he
  | error e =>
    dsimp only
    cases hpe : p e with
    | true => exact hf e t
    | false => exact fun e' he' => by cases he'; exact hp e (hr e rfl) hpe

theorem throws_any {m : EStateM ε σ α} : Throws (fun _ => True) m := fun _ _ _ => trivial

/-- `ends_bind_of_moves` for a program whose throws are known. -/
theorem ends_bind_of_throws {m : EStateM ε σ α} {f : α → EStateM ε σ β}
    {Q : Except ε β → σ → Prop} (hm : Moves R m) (ht : Throws P m)
    (hok : ∀ a t, R.rel s t → Ends (f a) t Q) (herr : ∀ e t, R.rel s t → P e → Q (.error e) t) :
    Ends (m >>= f) s Q := by
  rw [ends_bind]
  have h : Ends m s fun r t => R.rel s t ∧ ∀ e, r = .error e → P e := ⟨hm s, ht s⟩
  refine ends_mono h fun r t ⟨hst, hr⟩ => ?_
  cases r with
  | ok a => exact hok a t hst
  | error e => exact herr e t hst (hr e rfl)

/-! ### When a program returns -/

/-- If `m` returns from `s`, its result and the state it leaves satisfy `Q`. -/
def Returns (m : EStateM ε σ α) (s : σ) (Q : α → σ → Prop) : Prop :=
  Ends m s fun r t => ∀ a, r = .ok a → Q a t

variable {Q : α → σ → Prop}

theorem returns_pure {a : α} (h : Q a s) : Returns (pure a : EStateM ε σ α) s Q :=
  fun _ ha => by cases ha; exact h

theorem returns_throw (e : ε) : Returns (throw e : EStateM ε σ α) s Q := fun _ ha => by cases ha

theorem returns_get {Q : σ → σ → Prop} (h : Q s s) : Returns (get : EStateM ε σ σ) s Q :=
  fun _ ha => by cases ha; exact h

theorem returns_modify {f : σ → σ} {Q : PUnit → σ → Prop} (h : Q ⟨⟩ (f s)) :
    Returns (modify f : EStateM ε σ PUnit) s Q := fun _ _ => h

theorem returns_bind {m : EStateM ε σ α} {f : α → EStateM ε σ β} {Q : β → σ → Prop}
    (h : Returns m s fun a t => Returns (f a) t Q) : Returns (m >>= f) s Q := by
  unfold Returns
  rw [ends_bind]
  refine ends_mono h fun r t hr => ?_
  cases r with
  | ok a => exact hr a rfl
  | error e => exact fun b hb => by cases hb

theorem returns_mono {m : EStateM ε σ α} {Q' : α → σ → Prop} (h : Returns m s Q)
    (hq : ∀ a t, Q a t → Q' a t) : Returns m s Q' := fun a ha => hq a _ (h a ha)

theorem returns_of_moves {m : EStateM ε σ α} (hm : Moves R m) :
    Returns m s fun _ t => R.rel s t := fun _ _ => hm s

/-- A program known only to move along `R`, run before another. -/
theorem returns_bind_of_moves {m : EStateM ε σ α} {f : α → EStateM ε σ β} {Q : β → σ → Prop}
    (hm : Moves R m) (h : ∀ a t, R.rel s t → Returns (f a) t Q) : Returns (m >>= f) s Q :=
  returns_bind (returns_mono (returns_of_moves hm) h)

theorem returns_ite {c : Prop} [Decidable c] {m n : EStateM ε σ α} (hm : c → Returns m s Q)
    (hn : ¬ c → Returns n s Q) : Returns (if c then m else n) s Q := by
  split
  · next hc => exact hm hc
  · next hc => exact hn hc

theorem returns_tryFinally {m : EStateM ε σ α} {fin : EStateM ε σ β} (h : Returns m s Q)
    (hfin : ∀ a t, Q a t → Returns fin t fun _ u => Q a u) : Returns (tryFinally m fin) s Q := by
  unfold Returns
  rw [ends_tryFinally]
  refine ends_mono h fun r t hr => ?_
  cases r with
  | ok a =>
    refine ends_mono (hfin a t (hr a rfl)) fun r' u hu => ?_
    cases r' with
    | ok b => exact fun a' ha' => by cases ha'; exact hu b rfl
    | error e => exact fun a' ha' => by cases ha'
  | error e =>
    have hany : Ends fin t fun _ _ => True := trivial
    refine ends_mono hany fun r' u _ => ?_
    cases r' with
    | ok b => exact fun a' ha' => by cases ha'
    | error e' => exact fun a' ha' => by cases ha'

/-- A handler that always throws changes nothing about the returns. -/
theorem returns_rethrow {p : ε → Bool} {m : EStateM ε σ α} {f : ε → ε} (h : Returns m s Q) :
    Returns (catchIf p m fun e => throw (f e)) s Q := by
  unfold Returns
  rw [ends_catchIf]
  refine ends_mono h fun r t hr => ?_
  cases r with
  | ok a => exact hr
  | error e =>
    dsimp only
    split
    · exact fun b hb => by cases hb
    · exact fun b hb => by cases hb

theorem returns_of_outcome {m : EStateM ε σ α} {a : α} (h : Returns m s Q)
    (ho : outcome (m s) = .ok a) : Q a (after (m s)) := h a ho

end Schemes

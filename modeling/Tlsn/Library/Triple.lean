import Tlsn.Library.Fault

/-!
Triples for fallible operations on a state. An operation that fails leaves a state as
well, so a triple has a postcondition for each outcome.
-/

namespace Fault

/-- What holds once the operation has returned or failed. -/
def After {ε σ α : Type} (Q : α → σ → Prop) (E : ε → σ → Prop) : EStateM.Result ε σ α → Prop
  | .ok a s => Q a s
  | .error e s => E e s

structure Triple {ε σ α : Type} (P : σ → Prop) (x : EStateM ε σ α) (Q : α → σ → Prop)
    (E : ε → σ → Prop) : Prop where
  after : ∀ s, P s → After Q E (x s)

namespace Triple

variable {ε ε' σ τ α β : Type} {P P' : σ → Prop} {Q Q' : α → σ → Prop} {R : β → σ → Prop}
  {E E' : ε → σ → Prop}

theorem ok {x : EStateM ε σ α} (h : Triple P x Q E) {s s' : σ} {a : α} (hs : P s)
    (hx : x s = .ok a s') : Q a s' := by
  have hafter := h.after s hs
  rw [hx] at hafter
  exact hafter

theorem error {x : EStateM ε σ α} (h : Triple P x Q E) {s s' : σ} {e : ε} (hs : P s)
    (hx : x s = .error e s') : E e s' := by
  have hafter := h.after s hs
  rw [hx] at hafter
  exact hafter

theorem conseq {x : EStateM ε σ α} (h : Triple P x Q E) (hP : ∀ s, P' s → P s)
    (hQ : ∀ a s, Q a s → Q' a s) (hE : ∀ e s, E e s → E' e s) : Triple P' x Q' E' := by
  constructor
  intro s hs
  have hafter := h.after s (hP s hs)
  cases hx : x s with
  | ok a s' =>
      rw [hx] at hafter
      exact hQ a s' hafter
  | error e s' =>
      rw [hx] at hafter
      exact hE e s' hafter

/-- What an operation fails with, beside what then holds of the state. -/
theorem raises {R : ε → Prop} {x : EStateM ε σ α} (h : Triple P x Q E) (hx : Raises R x) :
    Triple P x Q fun e s => E e s ∧ R e := by
  constructor
  intro s hs
  have hafter := h.after s hs
  cases hrun : x s with
  | ok a s' =>
      rw [hrun] at hafter
      exact hafter
  | error e s' =>
      rw [hrun] at hafter
      exact ⟨hafter, hx s e s' hrun⟩

/-- What does not depend on the state may be assumed. -/
theorem of_const {c : Prop} {x : EStateM ε σ α} (h : c → Triple P x Q E) :
    Triple (fun s => c ∧ P s) x Q E := ⟨fun s hs => (h hs.1).after s hs.2⟩

theorem pure {a : α} (h : ∀ s, P s → Q a s) : Triple P (Pure.pure a : EStateM ε σ α) Q E := ⟨h⟩

theorem throw {e : ε} (h : ∀ s, P s → E e s) : Triple P (throw e : EStateM ε σ α) Q E := ⟨h⟩

theorem bind {x : EStateM ε σ α} {f : α → EStateM ε σ β} (hx : Triple P x Q E)
    (hf : ∀ a, Triple (Q a) (f a) R E) : Triple P (x >>= f) R E := by
  constructor
  intro s hs
  have hafter := hx.after s hs
  simp only [Bind.bind, EStateM.bind]
  cases h : x s with
  | ok a s' =>
      rw [h] at hafter
      exact (hf a).after s' hafter
  | error e s' =>
      rw [h] at hafter
      exact hafter

theorem modify {f : σ → σ} {Q : PUnit → σ → Prop} (h : ∀ s, P s → Q ⟨⟩ (f s)) :
    Triple P (modify f : EStateM ε σ PUnit) Q E := ⟨h⟩

theorem get {Q : σ → σ → Prop} (h : ∀ s, P s → Q s s) : Triple P (get : EStateM ε σ σ) Q E := ⟨h⟩

theorem lift {x : Except ε α} (hok : ∀ a s, x = .ok a → P s → Q a s)
    (herror : ∀ e s, x = .error e → P s → E e s) :
    Triple P (Fault.lift x : EStateM ε σ α) Q E := by
  constructor
  intro s hs
  cases hx : x with
  | ok a => exact hok a s hx hs
  | error e => exact herror e s hx hs

theorem ite {c : Prop} [Decidable c] {x y : EStateM ε σ α} (hx : c → Triple P x Q E)
    (hy : ¬ c → Triple P y Q E) : Triple P (if c then x else y) Q E := by
  by_cases h : c
  · rw [if_pos h]
    exact hx h
  · rw [if_neg h]
    exact hy h

theorem adapt {f : ε → ε'} {x : EStateM (Fault ε) σ α} {E : Fault ε' → σ → Prop}
    (hx : Triple P x Q fun e => E (e.map f)) : Triple P (Fault.adapt f x) Q E := by
  constructor
  intro s hs
  have hafter := hx.after s hs
  unfold Fault.adapt
  cases h : x s with
  | ok a s' =>
      rw [h] at hafter
      exact hafter
  | error e s' =>
      rw [h] at hafter
      exact hafter

/-- An operation on a part of the state, with what holds of that part. -/
theorem zoom {get : σ → τ} {set : τ → σ → σ} {x : EStateM ε τ α} {p : τ → Prop}
    {q : α → τ → Prop} {r : ε → τ → Prop} (hx : Triple p x q r) (hP : ∀ s, P s → p (get s))
    (hQ : ∀ a s t, P s → q a t → Q a (set t s)) (hE : ∀ e s t, P s → r e t → E e (set t s)) :
    Triple P (Fault.zoom get set x) Q E := by
  constructor
  intro s hs
  have hafter := hx.after (get s) (hP s hs)
  unfold Fault.zoom
  cases h : x (get s) with
  | ok a t =>
      rw [h] at hafter
      exact hQ a s t hs hafter
  | error e t =>
      rw [h] at hafter
      exact hE e s t hs hafter

theorem onSnd {x : EStateM ε τ α} {p : τ → Prop} {q : α → τ → Prop} {r : ε → τ → Prop}
    (hx : Triple p x q r) :
    Triple (fun s => p s.2) (Fault.onSnd x : EStateM ε (σ × τ) α) (fun a s => q a s.2)
      fun e s => r e s.2 := by
  constructor
  intro s hs
  have hafter := hx.after s.2 hs
  unfold Fault.onSnd
  cases h : x s.2 with
  | ok a t =>
      rw [h] at hafter
      exact hafter
  | error e t =>
      rw [h] at hafter
      exact hafter

/-- An operation on the second part of the state, for each first part. -/
theorem snd {x : EStateM ε τ α} {P : σ × τ → Prop} {Q : α → σ × τ → Prop} {E : ε → σ × τ → Prop}
    (hx : ∀ r, Triple (fun t => P (r, t)) x (fun a t => Q a (r, t)) fun e t => E e (r, t)) :
    Triple P (Fault.onSnd x) Q E := by
  constructor
  intro s hs
  have hafter := (hx s.1).after s.2 hs
  unfold Fault.onSnd
  cases h : x s.2 with
  | ok a t =>
      rw [h] at hafter
      exact hafter
  | error e t =>
      rw [h] at hafter
      exact hafter

end Triple

/-- The invariant holds after the operation, whatever its outcome. -/
def Preserves {ε σ α : Type} (I : σ → Prop) (x : EStateM ε σ α) : Prop :=
  Triple I x (fun _ => I) fun _ => I

namespace Preserves

variable {ε ε' σ τ α β : Type} {I : σ → Prop}

theorem pure (a : α) : Preserves I (Pure.pure a : EStateM ε σ α) := Triple.pure fun _ => id

theorem throw (e : ε) : Preserves I (throw e : EStateM ε σ α) := Triple.throw fun _ => id

theorem get : Preserves I (get : EStateM ε σ σ) := Triple.get fun _ => id

theorem modify {f : σ → σ} (h : ∀ s, I s → I (f s)) :
    Preserves I (modify f : EStateM ε σ PUnit) := Triple.modify h

theorem lift (x : Except ε α) : Preserves I (Fault.lift x : EStateM ε σ α) :=
  Triple.lift (fun _ _ _ => id) fun _ _ _ => id

theorem bind {x : EStateM ε σ α} {f : α → EStateM ε σ β} (hx : Preserves I x)
    (hf : ∀ a, Preserves I (f a)) : Preserves I (x >>= f) := Triple.bind hx hf

theorem map (f : α → β) {x : EStateM ε σ α} (hx : Preserves I x) : Preserves I (f <$> x) := by
  rw [map_eq_pure_bind]
  exact hx.bind fun a => Preserves.pure (f a)

theorem ite {c : Prop} [Decidable c] {x y : EStateM ε σ α} (hx : Preserves I x)
    (hy : Preserves I y) : Preserves I (if c then x else y) :=
  Triple.ite (fun _ => hx) fun _ => hy

theorem adapt {f : ε → ε'} {x : EStateM (Fault ε) σ α} (hx : Preserves I x) :
    Preserves I (Fault.adapt f x) := Triple.adapt hx

/-- An operation on a part of the state which the invariant does not depend on. -/
theorem zoom {get : σ → τ} {set : τ → σ → σ} (x : EStateM ε τ α) (h : ∀ s t, I s → I (set t s)) :
    Preserves I (Fault.zoom get set x) :=
  Triple.zoom (p := fun _ => True) (q := fun _ _ => True) (r := fun _ _ => True)
    ⟨fun s _ => by cases x s <;> trivial⟩ (fun _ _ => trivial) (fun _ s t hs _ => h s t hs)
    fun _ s t hs _ => h s t hs

theorem onSnd {I : τ → Prop} {x : EStateM ε τ α} (hx : Preserves I x) :
    Preserves (fun s : σ × τ => I s.2) (Fault.onSnd x : EStateM ε (σ × τ) α) := Triple.onSnd hx

theorem onFst {x : EStateM ε σ α} (hx : Preserves I x) :
    Preserves (fun s : σ × τ => I s.1) (Fault.onFst x) := by
  constructor
  intro s hs
  have hafter := hx.after s.1 hs
  unfold Fault.onFst
  cases h : x s.1 with
  | ok a t =>
      rw [h] at hafter
      exact hafter
  | error e t =>
      rw [h] at hafter
      exact hafter

/-- An operation on the other component. -/
theorem fst_onSnd (x : EStateM ε τ α) :
    Preserves (fun s : σ × τ => I s.1) (Fault.onSnd x : EStateM ε (σ × τ) α) := by
  constructor
  intro s hs
  unfold Fault.onSnd
  cases x s.2 with
  | ok a t => exact hs
  | error e t => exact hs

/-- The first part of the state keeps what it has, the rest is as it may be. -/
theorem zoom_fst {ρ : Type} {get : σ × ρ → σ × τ} {set : σ × τ → σ × ρ → σ × ρ}
    {x : EStateM ε (σ × τ) α} (hx : Preserves (fun s => I s.1) x) (hget : ∀ s, (get s).1 = s.1)
    (hset : ∀ t s, (set t s).1 = t.1) :
    Preserves (fun s : σ × ρ => I s.1) (Fault.zoom get set x) := by
  refine Triple.zoom hx ?_ ?_ ?_
  · intro s hs
    rwa [hget]
  · intro a s t _ ht
    rwa [hset]
  · intro e s t _ ht
    rwa [hset]

end Preserves

end Fault

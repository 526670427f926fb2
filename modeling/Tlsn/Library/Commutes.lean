import Tlsn.Library.Fault

/-!
Operations that commute with a change of the state: it does not matter whether the
state is changed before or after.
-/

namespace Fault

variable {ε ε' σ τ α β : Type}

/-- The outcome with another state. -/
def mapState (f : σ → σ) : EStateM.Result ε σ α → EStateM.Result ε σ α
  | .ok a s => .ok a (f s)
  | .error e s => .error e (f s)

structure Commutes (f : σ → σ) (x : EStateM ε σ α) : Prop where
  run : ∀ s, x (f s) = mapState f (x s)

namespace Commutes

variable {f : σ → σ}

theorem ok {x : EStateM ε σ α} (h : Commutes f x) {s s' : σ} {a : α} (hx : x s = .ok a s') :
    x (f s) = .ok a (f s') := by
  rw [h.run, hx]
  rfl

theorem pure (a : α) : Commutes f (Pure.pure a : EStateM ε σ α) := ⟨fun _ => rfl⟩

theorem lift (x : Except ε α) : Commutes f (Fault.lift x : EStateM ε σ α) := by
  constructor
  intro s
  cases x <;> rfl

theorem bind {x : EStateM ε σ α} {k : α → EStateM ε σ β} (hx : Commutes f x)
    (hk : ∀ a, Commutes f (k a)) : Commutes f (x >>= k) := by
  constructor
  intro s
  have hrun := hx.run s
  simp only [Bind.bind, EStateM.bind, hrun]
  cases x s with
  | ok a s' => exact (hk a).run s'
  | error e s' => rfl

/-- What is read of the state is not changed. -/
theorem get_bind {k : σ → EStateM ε σ α} (hread : ∀ s, k (f s) = k s)
    (hk : ∀ s, Commutes f (k s)) : Commutes f (get >>= k) := by
  constructor
  intro s
  rw [Fault.get_bind, Fault.get_bind, hread]
  exact (hk s).run s

theorem modify {g : σ → σ} (h : ∀ s, g (f s) = f (g s)) :
    Commutes f (modify g : EStateM ε σ PUnit) := by
  constructor
  intro s
  show EStateM.Result.ok PUnit.unit (g (f s)) = .ok .unit (f (g s))
  rw [h]

theorem ite {c : Prop} [Decidable c] {x y : EStateM ε σ α} (hx : Commutes f x)
    (hy : Commutes f y) : Commutes f (if c then x else y) := by
  by_cases h : c
  · rw [if_pos h]
    exact hx
  · rw [if_neg h]
    exact hy

/-- A choice by what is not changed of the state. -/
theorem cond {c : σ → Prop} [DecidablePred c] {x y : EStateM ε σ α} (hread : ∀ s, c (f s) ↔ c s)
    (hx : Commutes f x) (hy : Commutes f y) :
    Commutes f (fun s => if c s then x s else y s) := by
  constructor
  intro s
  by_cases h : c s
  · have hf : c (f s) := (hread s).mpr h
    simp only [if_pos h, if_pos hf]
    exact hx.run s
  · have hf : ¬ c (f s) := fun hf => h ((hread s).mp hf)
    simp only [if_neg h, if_neg hf]
    exact hy.run s

/-- An operation on a part which is not changed. -/
theorem zoom {get : σ → τ} {set : τ → σ → σ} (x : EStateM ε τ α) (hget : ∀ s, get (f s) = get s)
    (hset : ∀ t s, set t (f s) = f (set t s)) : Commutes f (Fault.zoom get set x) := by
  constructor
  intro s
  unfold Fault.zoom
  rw [hget]
  cases x (get s) with
  | ok a t => exact congrArg (EStateM.Result.ok a) (hset t s)
  | error e t => exact congrArg (EStateM.Result.error e) (hset t s)

/-- An operation on the second part, which is changed. -/
theorem onSnd {f : τ → τ} {x : EStateM ε τ α} (hx : Commutes f x) :
    Commutes (fun s : σ × τ => (s.1, f s.2)) (Fault.onSnd x) := by
  constructor
  intro s
  have hrun := hx.run s.2
  simp only [Fault.onSnd, hrun]
  cases x s.2 <;> rfl

end Commutes

end Fault

/-!
Loops which may not end. A body either goes on with another state or is done; a run takes
as many rounds as it is given, and has no result when they are not enough.
-/

inductive Round (σ ρ : Type) where
  | next (s : σ)
  | done (r : ρ)

namespace Loop

variable {σ ρ : Type}

def run (body : σ → Round σ ρ) : Nat → σ → Option ρ
  | 0, _ => none
  | fuel + 1, s =>
      match body s with
      | .next s => run body fuel s
      | .done r => some r

variable {body : σ → Round σ ρ}

theorem run_of_next {s s' : σ} (h : body s = .next s') (fuel : Nat) :
    run body (fuel + 1) s = run body fuel s' := by
  simp only [run, h]

theorem run_of_done {s : σ} {r : ρ} (h : body s = .done r) (fuel : Nat) :
    run body (fuel + 1) s = some r := by
  simp only [run, h]

/-- More rounds do not change a result. -/
theorem run_mono {fuel fuel' : Nat} (hle : fuel ≤ fuel') {s : σ} {r : ρ}
    (h : run body fuel s = some r) : run body fuel' s = some r := by
  induction fuel generalizing fuel' s with
  | zero => cases h
  | succ fuel ih =>
      obtain ⟨fuel', rfl⟩ : ∃ k, fuel' = k + 1 := ⟨fuel' - 1, by omega⟩
      cases hbody : body s with
      | next s' =>
          rw [run_of_next hbody] at h ⊢
          exact ih (by omega) h
      | done r' =>
          rw [run_of_done hbody] at h ⊢
          exact h

/-- What each round keeps, and what follows from it at the end. -/
theorem run_invariant (Inv : σ → Prop) (Post : ρ → Prop)
    (hnext : ∀ s s', Inv s → body s = .next s' → Inv s')
    (hdone : ∀ s r, Inv s → body s = .done r → Post r) {fuel : Nat} {s : σ} {r : ρ} (hs : Inv s)
    (h : run body fuel s = some r) : Post r := by
  induction fuel generalizing s with
  | zero => cases h
  | succ fuel ih =>
      cases hbody : body s with
      | next s' =>
          rw [run_of_next hbody] at h
          exact ih (hnext s s' hs hbody) h
      | done r' =>
          rw [run_of_done hbody] at h
          cases h
          exact hdone s r hs hbody

/-- A loop ends when each round makes something smaller. -/
theorem run_total {Inv : σ → Prop} (measure : σ → Nat)
    (hnext : ∀ s s', Inv s → body s = .next s' → Inv s' ∧ measure s' < measure s) {s : σ}
    (hs : Inv s) : ∃ fuel r, run body fuel s = some r := by
  induction hn : measure s using Nat.strongRecOn generalizing s with
  | ind n ih =>
      cases hbody : body s with
      | next s' =>
          obtain ⟨hs', hlt⟩ := hnext s s' hs hbody
          obtain ⟨fuel, r, h⟩ := ih (measure s') (hn ▸ hlt) hs' rfl
          exact ⟨fuel + 1, r, by rw [run_of_next hbody, h]⟩
      | done r => exact ⟨1, r, run_of_done hbody 0⟩

/-- A loop does not end when each round leads to another one. -/
theorem run_diverges {Inv : σ → Prop} (hnext : ∀ s, Inv s → ∃ s', body s = .next s' ∧ Inv s')
    {s : σ} (hs : Inv s) (fuel : Nat) : run body fuel s = none := by
  induction fuel generalizing s with
  | zero => rfl
  | succ fuel ih =>
      obtain ⟨s', hbody, hs'⟩ := hnext s hs
      rw [run_of_next hbody, ih hs']

/-- The states which some rounds lead to. -/
inductive Reaches (body : σ → Round σ ρ) : σ → σ → Prop
  | refl (s : σ) : Reaches body s s
  | next {s s' s'' : σ} (hbody : body s = .next s') (h : Reaches body s' s'') : Reaches body s s''

theorem run_some_iff {s : σ} {r : ρ} :
    (∃ fuel, run body fuel s = some r) ↔ ∃ s', Reaches body s s' ∧ body s' = .done r := by
  constructor
  · rintro ⟨fuel, h⟩
    induction fuel generalizing s with
    | zero => cases h
    | succ fuel ih =>
        cases hbody : body s with
        | next s' =>
            rw [run_of_next hbody] at h
            obtain ⟨s'', hreaches, hdone⟩ := ih h
            exact ⟨s'', .next hbody hreaches, hdone⟩
        | done r' =>
            rw [run_of_done hbody] at h
            cases h
            exact ⟨s, .refl s, hbody⟩
  · rintro ⟨s', hreaches, hdone⟩
    induction hreaches with
    | refl s => exact ⟨1, run_of_done hdone 0⟩
    | next hbody h ih =>
        obtain ⟨fuel, hrun⟩ := ih hdone
        exact ⟨fuel + 1, by rw [run_of_next hbody, hrun]⟩

theorem Reaches.invariant (Inv : σ → Prop) (hnext : ∀ s s', Inv s → body s = .next s' → Inv s')
    {s s' : σ} (h : Reaches body s s') (hs : Inv s) : Inv s' := by
  induction h with
  | refl s => exact hs
  | next hbody h ih => exact ih (hnext _ _ hs hbody)

end Loop

/-- Operations on a state which return, fail, or do not end in the rounds they are given. -/
def LoopM (ε σ α : Type) : Type := σ → Option (EStateM.Result ε σ α)

namespace LoopM

variable {ε σ α β : Type}

instance : Monad (LoopM ε σ) where
  pure a := fun s => some (.ok a s)
  bind x f := fun s =>
    match x s with
    | none => none
    | some (.error e s) => some (.error e s)
    | some (.ok a s) => f a s

def lift (x : EStateM ε σ α) : LoopM ε σ α := fun s => some (x s)

/-- One round of a loop whose body is an operation. -/
def round (body : α → EStateM ε σ (Round α β)) (s : α × σ) :
    Round (α × σ) (EStateM.Result ε σ β) :=
  match body s.1 s.2 with
  | .ok (.next a) t => .next (a, t)
  | .ok (.done b) t => .done (.ok b t)
  | .error e t => .done (.error e t)

def loop (fuel : Nat) (body : α → EStateM ε σ (Round α β)) (a : α) : LoopM ε σ β := fun s =>
  Loop.run (round body) fuel (a, s)

theorem pure_apply (a : α) (s : σ) : (pure a : LoopM ε σ α) s = some (.ok a s) := rfl

theorem bind_ok_iff {x : LoopM ε σ α} {f : α → LoopM ε σ β} {s s'' : σ} {b : β} :
    (x >>= f) s = some (.ok b s'') ↔ ∃ a s', x s = some (.ok a s') ∧ f a s' = some (.ok b s'') := by
  simp only [bind]
  cases x s with
  | none => simp
  | some r => cases r <;> simp [and_assoc]

theorem bind_error_iff {x : LoopM ε σ α} {f : α → LoopM ε σ β} {s s'' : σ} {e : ε} :
    (x >>= f) s = some (.error e s'') ↔ x s = some (.error e s'') ∨
      ∃ a s', x s = some (.ok a s') ∧ f a s' = some (.error e s'') := by
  simp only [bind]
  cases x s with
  | none => simp
  | some r => cases r <;> simp [and_assoc]

theorem bind_of_ok {x : LoopM ε σ α} {f : α → LoopM ε σ β} {s s' : σ} {a : α}
    (h : x s = some (.ok a s')) : (x >>= f) s = f a s' := by
  simp only [bind, h]

theorem bind_of_error {x : LoopM ε σ α} {f : α → LoopM ε σ β} {s s' : σ} {e : ε}
    (h : x s = some (.error e s')) : (x >>= f) s = some (.error e s') := by
  simp only [bind, h]

theorem bind_of_none {x : LoopM ε σ α} {f : α → LoopM ε σ β} {s : σ} (h : x s = none) :
    (x >>= f) s = none := by
  simp only [bind, h]

theorem round_next_iff {body : α → EStateM ε σ (Round α β)} {s s' : α × σ} :
    round body s = .next s' ↔ body s.1 s.2 = .ok (.next s'.1) s'.2 := by
  unfold round
  split
  · rename_i a t hbody
    rw [hbody]
    simp [Prod.ext_iff]
  · rename_i b t hbody
    simp [hbody]
  · rename_i e t hbody
    simp [hbody]

theorem round_done_iff {body : α → EStateM ε σ (Round α β)} {s : α × σ}
    {r : EStateM.Result ε σ β} :
    round body s = .done r ↔ (∃ b t, body s.1 s.2 = .ok (.done b) t ∧ r = .ok b t) ∨
      ∃ e t, body s.1 s.2 = .error e t ∧ r = .error e t := by
  unfold round
  split
  · rename_i a t hbody
    simp [hbody]
  · rename_i b t hbody
    simp [hbody, and_assoc, eq_comm]
  · rename_i e t hbody
    simp [hbody, and_assoc, eq_comm]

/-- A loop whose first round is the last one. -/
theorem loop_of_error {body : α → EStateM ε σ (Round α β)} {a : α} {s s' : σ} {e : ε}
    (h : body a s = .error e s') (fuel : Nat) : loop (fuel + 1) body a s = some (.error e s') :=
  Loop.run_of_done (round_done_iff.mpr (.inr ⟨e, s', h, rfl⟩)) fuel

theorem loop_of_done {body : α → EStateM ε σ (Round α β)} {a : α} {b : β} {s s' : σ}
    (h : body a s = .ok (.done b) s') (fuel : Nat) : loop (fuel + 1) body a s = some (.ok b s') :=
  Loop.run_of_done (round_done_iff.mpr (.inl ⟨b, s', h, rfl⟩)) fuel

theorem loop_of_next {body : α → EStateM ε σ (Round α β)} {a a' : α} {s s' : σ}
    (h : body a s = .ok (.next a') s') (fuel : Nat) :
    loop (fuel + 1) body a s = loop fuel body a' s' :=
  Loop.run_of_next (show round body (a, s) = .next (a', s') from round_next_iff.mpr h) fuel

/-- How a round may come out: it goes on, is done, or fails. -/
inductive RoundSpec (next : α → σ → Prop) (done : β → σ → Prop) (fails : ε → σ → Prop) :
    EStateM.Result ε σ (Round α β) → Prop
  | next {a : α} {s : σ} (h : next a s) : RoundSpec next done fails (.ok (.next a) s)
  | done {b : β} {s : σ} (h : done b s) : RoundSpec next done fails (.ok (.done b) s)
  | fails {e : ε} {s : σ} (h : fails e s) : RoundSpec next done fails (.error e s)

/-- How a loop may come out. -/
inductive LoopSpec (done : β → σ → Prop) (fails : ε → σ → Prop) :
    EStateM.Result ε σ β → Prop
  | done {b : β} {s : σ} (h : done b s) : LoopSpec done fails (.ok b s)
  | fails {e : ε} {s : σ} (h : fails e s) : LoopSpec done fails (.error e s)

variable {body : α → EStateM ε σ (Round α β)} (Inv : α → σ → Prop) {Q : β → σ → Prop}
  {E : ε → σ → Prop} {a : α} {s : σ}

/-- A loop whose result, if there is one, is as its rounds say. -/
theorem loop_partial (hbody : ∀ a s, Inv a s → RoundSpec Inv Q E (body a s)) (h : Inv a s)
    {fuel : Nat} {r : EStateM.Result ε σ β} (hrun : loop fuel body a s = some r) :
    LoopSpec Q E r := by
  refine Loop.run_invariant (fun t => Inv t.1 t.2) (LoopSpec Q E) ?_ ?_ h hrun
  · intro t t' ht hnext
    have hspec := hbody t.1 t.2 ht
    rw [round_next_iff.mp hnext] at hspec
    cases hspec with
    | next h => exact h
  · intro t r ht hdone
    have hspec := hbody t.1 t.2 ht
    obtain ⟨b, u, hok, rfl⟩ | ⟨e, u, herror, rfl⟩ := round_done_iff.mp hdone
    · rw [hok] at hspec
      cases hspec with
      | done h => exact .done h
    · rw [herror] at hspec
      cases hspec with
      | fails h => exact .fails h

/-- A loop which ends, because its rounds make something smaller. -/
theorem loop_total (measure : α → σ → Nat)
    (hbody : ∀ a s, Inv a s →
      RoundSpec (fun a' s' => Inv a' s' ∧ measure a' s' < measure a s) Q E (body a s))
    (h : Inv a s) : ∃ fuel r, loop fuel body a s = some r ∧ LoopSpec Q E r := by
  have hnext : ∀ t t' : α × σ, Inv t.1 t.2 → round body t = .next t' →
      Inv t'.1 t'.2 ∧ measure t'.1 t'.2 < measure t.1 t.2 := by
    intro t t' ht hround
    have hspec := hbody t.1 t.2 ht
    rw [round_next_iff.mp hround] at hspec
    cases hspec with
    | next h => exact h
  obtain ⟨fuel, r, hrun⟩ := Loop.run_total (fun t => measure t.1 t.2) hnext (s := (a, s)) h
  refine ⟨fuel, r, hrun, loop_partial Inv (fun a s hs => ?_) h hrun⟩
  have hspec := hbody a s hs
  generalize body a s = r at hspec ⊢
  cases hspec with
  | next h => exact .next h.1
  | done h => exact .done h
  | fails h => exact .fails h

theorem loop_diverges (hbody : ∀ a s, Inv a s → ∃ a' s', body a s = .ok (.next a') s' ∧ Inv a' s')
    (h : Inv a s) (fuel : Nat) : loop fuel body a s = none := by
  refine Loop.run_diverges (fun t (ht : Inv t.1 t.2) => ?_) (s := (a, s)) h fuel
  obtain ⟨a', s', hround, hinv⟩ := hbody t.1 t.2 ht
  exact ⟨(a', s'), round_next_iff.mpr hround, hinv⟩

end LoopM

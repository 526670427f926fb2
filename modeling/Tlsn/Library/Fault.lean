/-!
Operations that return, fail with an error, or abort. A pure operation is an
`Except` over `Fault`; a stateful one an `EStateM`, which keeps the state it
reached also when it fails.
-/

inductive Fault (ε : Type) where
  | err (e : ε)
  | panic
deriving DecidableEq

namespace Fault

theorem bind_ok_iff {ε α β : Type} {x : Except ε α} {f : α → Except ε β} {b : β} :
    x >>= f = .ok b ↔ ∃ a, x = .ok a ∧ f a = .ok b := by
  cases x with
  | error e => simp [bind, Except.bind]
  | ok a => simp [bind, Except.bind]

/-- A check, and what follows it. -/
theorem check_bind_ok_iff {ε β : Type} {x : Except ε Unit} {f : Unit → Except ε β} {b : β} :
    x >>= f = .ok b ↔ x = .ok () ∧ f () = .ok b := by
  rw [bind_ok_iff]
  constructor
  · intro h
    obtain ⟨⟨⟩, hx, hf⟩ := h
    exact ⟨hx, hf⟩
  · intro h
    exact ⟨(), h⟩

theorem bind_error_iff {ε α β : Type} {x : Except ε α} {f : α → Except ε β} {e : ε} :
    x >>= f = .error e ↔ x = .error e ∨ ∃ a, x = .ok a ∧ f a = .error e := by
  cases x with
  | error e' => simp [bind, Except.bind]
  | ok a => simp [bind, Except.bind]

theorem ok_bind {ε α β : Type} (a : α) (f : α → Except ε β) : (Except.ok a >>= f) = f a := rfl

/-- The result of an operation which is known to return. -/
theorem ok_get {ε α : Type} {x : Except ε α} (h : x.toOption.isSome = true) :
    x = .ok (x.toOption.get h) := by
  cases x with
  | error e => cases h
  | ok a => rfl

/-- What an operation returned, with the state it left. -/
def result? {ε σ α : Type} : EStateM.Result ε σ α → Option (α × σ)
  | .ok a s => some (a, s)
  | .error _ _ => none

theorem result?_eq_some_iff {ε σ α : Type} {r : EStateM.Result ε σ α} {a : α} {s : σ} :
    result? r = some (a, s) ↔ r = .ok a s := by
  cases r <;> simp [result?]

theorem ok_get_result {ε σ α : Type} {r : EStateM.Result ε σ α} (h : (result? r).isSome = true) :
    r = .ok ((result? r).get h).1 ((result? r).get h).2 := by
  cases r with
  | error e s => cases h
  | ok a s => rfl

theorem ok_get_pair {ε σ α β : Type} {r : EStateM.Result ε σ (α × β)}
    (h : (result? r).isSome = true) :
    r = .ok (((result? r).get h).1.1, ((result? r).get h).1.2) ((result? r).get h).2 :=
  ok_get_result h

/-- The state which an operation without a result left. -/
theorem ok_get_state {ε σ : Type} {r : EStateM.Result ε σ Unit} (h : (result? r).isSome = true) :
    r = .ok () ((result? r).get h).2 := ok_get_result h

theorem run_bind_ok_iff {ε σ α β : Type} {x : EStateM ε σ α} {f : α → EStateM ε σ β} {s s'' : σ}
    {b : β} :
    (x >>= f) s = .ok b s'' ↔ ∃ a s', x s = .ok a s' ∧ f a s' = .ok b s'' := by
  simp only [bind, EStateM.bind]
  cases x s with
  | error e s' => simp
  | ok a s' =>
      constructor
      · intro h
        exact ⟨a, s', rfl, h⟩
      · rintro ⟨c, t, hc, h⟩
        cases hc
        exact h

theorem run_bind_of_ok {ε σ α β : Type} {x : EStateM ε σ α} {f : α → EStateM ε σ β} {s s' : σ}
    {a : α} (h : x s = .ok a s') : (x >>= f) s = f a s' := by
  simp only [bind, EStateM.bind, h]

theorem run_bind_of_error {ε σ α β : Type} {x : EStateM ε σ α} {f : α → EStateM ε σ β}
    {s s' : σ} {e : ε} (h : x s = .error e s') : (x >>= f) s = .error e s' := by
  simp only [bind, EStateM.bind, h]

theorem get_bind {ε σ β : Type} (f : σ → EStateM ε σ β) (s : σ) : (get >>= f) s = f s s := rfl

def map {ε ε' : Type} (f : ε → ε') : Fault ε → Fault ε'
  | .err e => .err (f e)
  | .panic => .panic

theorem mapError_ok {ε ε' α : Type} (f : ε → ε') (a : α) :
    (Except.ok a : Except ε α).mapError f = .ok a := rfl

theorem mapError_error {ε ε' α : Type} (f : ε → ε') (e : ε) :
    (Except.error e : Except ε α).mapError f = .error (f e) := rfl

@[simp] theorem mapError_ok_iff {ε ε' α : Type} {f : ε → ε'} {x : Except ε α} {a : α} :
    x.mapError f = .ok a ↔ x = .ok a := by
  cases x <;> simp [mapError_ok, mapError_error]

theorem map_ok_iff {ε α β : Type} {f : α → β} {x : Except ε α} {b : β} :
    x.map f = .ok b ↔ ∃ a, x = .ok a ∧ f a = b := by
  cases x <;> simp [Except.map]

/-- A call whose error is converted to the caller's. -/
def convert {ε ε' α : Type} (f : ε → ε') (x : Except (Fault ε) α) : Except (Fault ε') α :=
  x.mapError (Fault.map f)

@[simp] theorem convert_ok_iff {ε ε' α : Type} {f : ε → ε'} {x : Except (Fault ε) α} {a : α} :
    convert f x = .ok a ↔ x = .ok a := by
  cases x <;> simp [convert, mapError_ok, mapError_error]

@[simp] theorem convert_panic_iff {ε ε' α : Type} {f : ε → ε'} {x : Except (Fault ε) α} :
    convert f x = .error .panic ↔ x = .error .panic := by
  cases x with
  | ok a => simp [convert, mapError_ok]
  | error e => cases e <;> simp [convert, mapError_error, Fault.map]

/-- A call on the state whose error is converted to the caller's. -/
def adapt {ε ε' σ α : Type} (f : ε → ε') (x : EStateM (Fault ε) σ α) :
    EStateM (Fault ε') σ α := fun s =>
  match x s with
  | .ok a s' => .ok a s'
  | .error e s' => .error (e.map f) s'

@[simp] theorem adapt_ok_iff {ε ε' σ α : Type} {f : ε → ε'} {x : EStateM (Fault ε) σ α}
    {s s' : σ} {a : α} : adapt f x s = .ok a s' ↔ x s = .ok a s' := by
  unfold adapt
  cases x s with
  | ok b t => simp
  | error e t => simp

/-- A stateless computation on any state. -/
def lift {ε σ α : Type} (x : Except ε α) : EStateM ε σ α := fun s =>
  match x with
  | .ok a => .ok a s
  | .error e => .error e s

@[simp] theorem lift_ok_iff {ε σ α : Type} {x : Except ε α} {s s' : σ} {a : α} :
    (lift x : EStateM ε σ α) s = .ok a s' ↔ x = .ok a ∧ s' = s := by
  cases x <;> simp [lift, eq_comm]

theorem lift_of_ok {ε σ α : Type} {x : Except ε α} {a : α} (h : x = .ok a) (s : σ) :
    (lift x : EStateM ε σ α) s = .ok a s := by
  simp only [lift, h]

theorem lift_of_error {ε σ α : Type} {x : Except ε α} {e : ε} (h : x = .error e) (s : σ) :
    (lift x : EStateM ε σ α) s = .error e s := by
  simp only [lift, h]

/-! ## Loops over a list -/

private theorem foldlM_invariant_aux {ε α β : Type} {P : List α → β → Prop}
    {f : β → α → Except ε β} (l pre : List α) {b r : β} (hb : P pre b)
    (hstep : ∀ pre' a post b b', pre ++ l = pre' ++ a :: post → P pre' b → f b a = .ok b' →
      P (pre' ++ [a]) b')
    (h : l.foldlM f b = .ok r) : P (pre ++ l) r := by
  induction l generalizing b pre with
  | nil =>
      cases h
      simpa using hb
  | cons a as ih =>
      rw [List.foldlM_cons] at h
      obtain ⟨c, hc, hr⟩ := bind_ok_iff.mp h
      have := ih (pre ++ [a]) (hstep pre a as b c rfl hb hc)
        (fun pre' x post b b' he => hstep pre' x post b b' (by simpa using he)) hr
      simpa using this

/-- What every step of a loop preserves of the elements consumed so far holds at
its end of the whole list. -/
theorem foldlM_invariant {ε α β : Type} {P : List α → β → Prop} {f : β → α → Except ε β}
    {l : List α} {b r : β} (hb : P [] b)
    (hstep : ∀ pre a post b b', l = pre ++ a :: post → P pre b → f b a = .ok b' →
      P (pre ++ [a]) b')
    (h : l.foldlM f b = .ok r) : P l r :=
  foldlM_invariant_aux l [] hb hstep h

private theorem foldlM_ok_aux {ε α β : Type} {P : List α → β → Prop} {f : β → α → Except ε β}
    (l pre : List α) {b : β} (hb : P pre b)
    (hstep : ∀ pre' a post b, pre ++ l = pre' ++ a :: post → P pre' b →
      ∃ b', f b a = .ok b' ∧ P (pre' ++ [a]) b') :
    ∃ r, l.foldlM f b = .ok r ∧ P (pre ++ l) r := by
  induction l generalizing b pre with
  | nil => exact ⟨b, rfl, by simpa using hb⟩
  | cons a as ih =>
      obtain ⟨c, hc, hP⟩ := hstep pre a as b rfl hb
      obtain ⟨r, hr, hPr⟩ := ih (pre ++ [a]) hP
        (fun pre' x post b he => hstep pre' x post b (by simpa using he))
      refine ⟨r, ?_, by simpa using hPr⟩
      rw [List.foldlM_cons, bind_ok_iff]
      exact ⟨c, hc, hr⟩

/-- A loop whose every step succeeds from the invariant, and keeps it, succeeds. -/
theorem foldlM_ok {ε α β : Type} {P : List α → β → Prop} {f : β → α → Except ε β} {l : List α}
    {b : β} (hb : P [] b)
    (hstep : ∀ pre a post b, l = pre ++ a :: post → P pre b →
      ∃ b', f b a = .ok b' ∧ P (pre ++ [a]) b') :
    ∃ r, l.foldlM f b = .ok r ∧ P l r :=
  foldlM_ok_aux l [] hb hstep

private theorem foldlM_error_iff_aux {ε α β : Type} {P : List α → β → Prop}
    {Passes Fails : List α → α → Prop} {f : β → α → Except ε β} {e : ε}
    (hok : ∀ pre a b b', P pre b → f b a = .ok b' → Passes pre a ∧ P (pre ++ [a]) b')
    (hpass : ∀ pre a b, P pre b → Passes pre a → ¬ Fails pre a → ∃ b', f b a = .ok b')
    (herror : ∀ pre a b, P pre b → (f b a = .error e ↔ Fails pre a)) (l pre : List α) {b : β}
    (hb : P pre b) :
    l.foldlM f b = .error e ↔ ∃ before x after, l = before ++ x :: after ∧
      (∀ as a cs, before = as ++ a :: cs → Passes (pre ++ as) a) ∧ Fails (pre ++ before) x := by
  induction l generalizing b pre with
  | nil =>
      constructor
      · intro h
        cases h
      · rintro ⟨before, x, after, h, -⟩
        cases before <;> cases h
  | cons a l ih =>
      rw [List.foldlM_cons]
      by_cases hfails : Fails pre a
      · refine iff_of_true ?_ ⟨[], a, l, rfl, ?_, by rwa [List.append_nil]⟩
        · rw [(herror pre a b hb).mpr hfails]
          rfl
        · intro as a cs h
          cases as <;> cases h
      · cases hf : f b a with
        | error e' =>
            refine iff_of_false ?_ ?_
            · intro h
              refine hfails ((herror pre a b hb).mp ?_)
              rw [hf]
              exact h
            · rintro ⟨before, x, after, hl, hbefore, hx⟩
              cases before with
              | nil =>
                  cases hl
                  exact hfails (by rwa [List.append_nil] at hx)
              | cons c cs =>
                  cases hl
                  obtain ⟨b', hb'⟩ := hpass pre a b hb (by simpa using hbefore [] a cs rfl) hfails
                  cases hf.symm.trans hb'
        | ok b' =>
            obtain ⟨hpasses, hb'⟩ := hok pre a b b' hb hf
            rw [ok_bind, ih (pre ++ [a]) hb']
            constructor
            · rintro ⟨before, x, after, rfl, hbefore, hx⟩
              refine ⟨a :: before, x, after, rfl, ?_, by simpa using hx⟩
              intro as c cs h
              cases as with
              | nil =>
                  cases h
                  simpa using hpasses
              | cons d as =>
                  cases h
                  simpa using hbefore as c cs rfl
            · rintro ⟨before, x, after, hl, hbefore, hx⟩
              cases before with
              | nil =>
                  cases hl
                  exact absurd (by rwa [List.append_nil] at hx) hfails
              | cons c before =>
                  cases hl
                  refine ⟨before, x, after, rfl, ?_, by simpa using hx⟩
                  intro as d cs h
                  simpa using hbefore (a :: as) d cs (by rw [h]; rfl)

/-- A loop fails with an error exactly when some step does, and every step before it passes. -/
theorem foldlM_error_iff {ε α β : Type} (P : List α → β → Prop)
    (Passes Fails : List α → α → Prop) {f : β → α → Except ε β} {e : ε} {l : List α} {b : β}
    (hb : P [] b)
    (hok : ∀ pre a b b', P pre b → f b a = .ok b' → Passes pre a ∧ P (pre ++ [a]) b')
    (hpass : ∀ pre a b, P pre b → Passes pre a → ¬ Fails pre a → ∃ b', f b a = .ok b')
    (herror : ∀ pre a b, P pre b → (f b a = .error e ↔ Fails pre a)) :
    l.foldlM f b = .error e ↔ ∃ before x after, l = before ++ x :: after ∧
      (∀ as a cs, before = as ++ a :: cs → Passes as a) ∧ Fails before x := by
  simpa only [List.nil_append] using foldlM_error_iff_aux hok hpass herror l [] hb

/-- The same where a step depends on its element alone. -/
theorem foldlM_error_iff_mem {ε α β : Type} (P : β → Prop) (Passes Fails : α → Prop)
    {f : β → α → Except ε β} {e : ε} {l : List α} {b : β} (hb : P b)
    (hok : ∀ a b b', P b → f b a = .ok b' → Passes a ∧ P b')
    (hpass : ∀ a b, P b → Passes a → ¬ Fails a → ∃ b', f b a = .ok b')
    (herror : ∀ a b, P b → (f b a = .error e ↔ Fails a)) :
    l.foldlM f b = .error e ↔ ∃ before x after, l = before ++ x :: after ∧
      (∀ a ∈ before, Passes a) ∧ Fails x := by
  rw [foldlM_error_iff (fun _ => P) (fun _ => Passes) (fun _ => Fails) hb
    (fun _ => hok) (fun _ => hpass) (fun _ => herror)]
  constructor
  · rintro ⟨before, x, after, rfl, hbefore, hx⟩
    refine ⟨before, x, after, rfl, ?_, hx⟩
    intro a ha
    obtain ⟨as, cs, rfl⟩ := List.append_of_mem ha
    exact hbefore as a cs rfl
  · rintro ⟨before, x, after, rfl, hbefore, hx⟩
    refine ⟨before, x, after, rfl, ?_, hx⟩
    rintro as a cs rfl
    exact hbefore a (by simp)

/-- A loop returns exactly when every step does. -/
theorem foldlM_ok_iff {ε α β : Type} (P : β → Prop) {Q : α → Prop} {f : β → α → Except ε β}
    {l : List α} {b : β} (hb : P b) (hok : ∀ a b b', P b → f b a = .ok b' → P b')
    (hiff : ∀ a b, P b → ((∃ b', f b a = .ok b') ↔ Q a)) :
    (∃ r, l.foldlM f b = .ok r) ↔ ∀ a ∈ l, Q a := by
  induction l generalizing b with
  | nil => exact iff_of_true ⟨b, rfl⟩ (List.forall_mem_nil Q)
  | cons a l ih =>
      rw [List.foldlM_cons, List.forall_mem_cons, ← hiff a b hb]
      constructor
      · rintro ⟨r, h⟩
        obtain ⟨c, hc, hr⟩ := bind_ok_iff.mp h
        exact ⟨⟨c, hc⟩, (ih (hok a b c hb hc)).mp ⟨r, hr⟩⟩
      · rintro ⟨⟨c, hc⟩, hl⟩
        obtain ⟨r, hr⟩ := (ih (hok a b c hb hc)).mpr hl
        exact ⟨r, bind_ok_iff.mpr ⟨c, hc, hr⟩⟩

/-- A loop which collects a result for each element. -/
theorem mapM_ok {ε α β : Type} {f : α → Except ε β} {l : List α} {r : List β}
    (h : l.mapM f = .ok r) : r.length = l.length ∧
      ∀ (i : Nat) (a : α), l[i]? = some a → ∃ b, r[i]? = some b ∧ f a = .ok b := by
  induction l generalizing r with
  | nil =>
      cases h
      exact ⟨rfl, fun i a hi => nomatch hi⟩
  | cons x xs ih =>
      rw [List.mapM_cons, bind_ok_iff] at h
      obtain ⟨y, hy, hrest⟩ := h
      obtain ⟨ys, hys, hr⟩ := bind_ok_iff.mp hrest
      cases hr
      obtain ⟨hlen, hget⟩ := ih hys
      refine ⟨by rw [List.length_cons, List.length_cons, hlen], ?_⟩
      intro i a hi
      cases i with
      | zero =>
          cases hi
          exact ⟨y, rfl, hy⟩
      | succ i => exact hget i a hi

/-- A loop whose steps succeed on some elements, with a known result. -/
theorem mapM_ok_iff {ε α β : Type} {f : α → Except ε β} {P : α → Prop} {g : α → β}
    (hf : ∀ a b, f a = .ok b ↔ P a ∧ b = g a) {l : List α} {r : List β} :
    l.mapM f = .ok r ↔ (∀ a ∈ l, P a) ∧ r = l.map g := by
  induction l generalizing r with
  | nil =>
      constructor
      · intro h
        cases h
        exact ⟨List.forall_mem_nil P, rfl⟩
      · rintro ⟨-, rfl⟩
        rfl
  | cons x xs ih =>
      rw [List.mapM_cons, List.forall_mem_cons]
      constructor
      · intro h
        obtain ⟨y, hy, hrest⟩ := bind_ok_iff.mp h
        obtain ⟨ys, hys, hr⟩ := bind_ok_iff.mp hrest
        obtain ⟨hx, rfl⟩ := (hf x y).mp hy
        obtain ⟨hxs, rfl⟩ := ih.mp hys
        cases hr
        exact ⟨⟨hx, hxs⟩, rfl⟩
      · rintro ⟨⟨hx, hxs⟩, rfl⟩
        exact bind_ok_iff.mpr ⟨g x, (hf x _).mpr ⟨hx, rfl⟩,
          bind_ok_iff.mpr ⟨xs.map g, ih.mpr ⟨hxs, rfl⟩, rfl⟩⟩

theorem mapM_error {ε α β : Type} {f : α → Except ε β} {l : List α} {e : ε}
    (h : l.mapM f = .error e) : ∃ a ∈ l, f a = .error e := by
  induction l with
  | nil => cases h
  | cons x xs ih =>
      rw [List.mapM_cons] at h
      cases hx : f x with
      | error e' =>
          rw [hx] at h
          cases h
          exact ⟨x, List.mem_cons_self, hx⟩
      | ok y =>
          rw [hx] at h
          cases hxs : xs.mapM f with
          | ok ys =>
              simp only [hxs, bind, Except.bind] at h
              cases h
          | error e' =>
              simp only [hxs, bind, Except.bind] at h
              cases h
              obtain ⟨a, ha, hfa⟩ := ih hxs
              exact ⟨a, List.mem_cons_of_mem _ ha, hfa⟩

/-- Run an operation on one component of a product state. -/
def onFst {ε σ τ α : Type} (x : EStateM ε σ α) : EStateM ε (σ × τ) α := fun s =>
  match x s.1 with
  | .ok a s' => .ok a (s', s.2)
  | .error e s' => .error e (s', s.2)

theorem onFst_of_ok {ε σ τ α : Type} {x : EStateM ε σ α} {s : σ × τ} {s' : σ} {a : α}
    (h : x s.1 = .ok a s') : onFst x s = .ok a (s', s.2) := by
  simp only [onFst, h]

def onSnd {ε σ τ α : Type} (x : EStateM ε τ α) : EStateM ε (σ × τ) α := fun s =>
  match x s.2 with
  | .ok a s' => .ok a (s.1, s')
  | .error e s' => .error e (s.1, s')

theorem onSnd_ok_iff {ε σ τ α : Type} {x : EStateM ε τ α} {s s' : σ × τ} {a : α} :
    onSnd x s = .ok a s' ↔ x s.2 = .ok a s'.2 ∧ s'.1 = s.1 := by
  obtain ⟨s₁, s₂⟩ := s
  obtain ⟨t₁, t₂⟩ := s'
  simp only [onSnd]
  cases hx : x s₂ with
  | error e s' => simp
  | ok b s' => simp [and_comm, eq_comm, and_assoc]

theorem onSnd_of_error {ε σ τ α : Type} {x : EStateM ε τ α} {s : σ × τ} {t : τ} {e : ε}
    (h : x s.2 = .error e t) : onSnd x s = .error e (s.1, t) := by
  simp only [onSnd, h]

theorem onSnd_error {ε σ τ α : Type} {x : EStateM ε τ α} {s s' : σ × τ} {e : ε}
    (h : onSnd x s = .error e s') : ∃ t, x s.2 = .error e t ∧ s' = (s.1, t) := by
  unfold onSnd at h
  split at h
  · cases h
  · rename_i hfail
    cases h
    exact ⟨_, hfail, rfl⟩

/-- Run an operation on a part of the state. -/
def zoom {ε σ τ α : Type} (get : σ → τ) (set : τ → σ → σ) (x : EStateM ε τ α) : EStateM ε σ α :=
  fun s =>
    match x (get s) with
    | .ok a t => .ok a (set t s)
    | .error e t => .error e (set t s)

theorem zoom_ok_iff {ε σ τ α : Type} {get : σ → τ} {set : τ → σ → σ} {x : EStateM ε τ α}
    {s s' : σ} {a : α} :
    zoom get set x s = .ok a s' ↔ ∃ t, x (get s) = .ok a t ∧ s' = set t s := by
  unfold zoom
  cases x (get s) with
  | error e t => simp
  | ok b t =>
      constructor
      · intro h
        cases h
        exact ⟨t, rfl, rfl⟩
      · intro h
        obtain ⟨u, hu, rfl⟩ := h
        cases hu
        rfl

theorem zoom_error_iff {ε σ τ α : Type} {get : σ → τ} {set : τ → σ → σ} {x : EStateM ε τ α}
    {s s' : σ} {e : ε} :
    zoom get set x s = .error e s' ↔ ∃ t, x (get s) = .error e t ∧ s' = set t s := by
  unfold zoom
  cases x (get s) with
  | ok b t => simp
  | error e' t =>
      constructor
      · intro h
        cases h
        exact ⟨t, rfl, rfl⟩
      · intro h
        obtain ⟨u, hu, rfl⟩ := h
        cases hu
        rfl

/-! ## What every success keeps -/

/-- Whenever the operation returns, the states before and after are related. -/
def Keeps {ε σ α : Type} (R : σ → σ → Prop) (x : EStateM ε σ α) : Prop :=
  ∀ s a s', x s = .ok a s' → R s s'

namespace Keeps

variable {ε ε' σ α β : Type} {R : σ → σ → Prop}

theorem bind (htrans : ∀ a b c, R a b → R b c → R a c) {x : EStateM ε σ α}
    {f : α → EStateM ε σ β} (hx : Keeps R x) (hf : ∀ a, Keeps R (f a)) : Keeps R (x >>= f) := by
  intro s b s'' h
  obtain ⟨a, s', ha, hb⟩ := run_bind_ok_iff.mp h
  exact htrans s s' s'' (hx s a s' ha) (hf a s' b s'' hb)

theorem pure (hrefl : ∀ a, R a a) (a : α) : Keeps R (Pure.pure a : EStateM ε σ α) := by
  intro s b s' h
  cases h
  exact hrefl s

theorem lift (hrefl : ∀ a, R a a) (x : Except ε α) : Keeps R (Fault.lift x : EStateM ε σ α) := by
  intro s a s' h
  rw [(lift_ok_iff.mp h).2]
  exact hrefl s

theorem throw (e : ε) : Keeps R (throw e : EStateM ε σ α) := by
  intro s a s' h
  cases h

theorem adapt {f : ε → ε'} {x : EStateM (Fault ε) σ α} (hx : Keeps R x) :
    Keeps R (Fault.adapt f x) := fun s a s' h => hx s a s' (adapt_ok_iff.mp h)

end Keeps

/-! ## What an operation fails with -/

theorem run_bind_error_iff {ε σ α β : Type} {x : EStateM ε σ α} {f : α → EStateM ε σ β}
    {s s'' : σ} {e : ε} :
    (x >>= f) s = .error e s'' ↔
      x s = .error e s'' ∨ ∃ a s', x s = .ok a s' ∧ f a s' = .error e s'' := by
  simp only [bind, EStateM.bind]
  cases x s with
  | error e' s' => simp
  | ok a s' =>
      constructor
      · intro h
        exact .inr ⟨a, s', rfl, h⟩
      · intro h
        cases h with
        | inl h => cases h
        | inr h =>
            obtain ⟨b, t, hb, h⟩ := h
            cases hb
            exact h

theorem run_map_ok_iff {ε σ α β : Type} {f : α → β} {x : EStateM ε σ α} {s s' : σ} {b : β} :
    (f <$> x) s = .ok b s' ↔ ∃ a, x s = .ok a s' ∧ f a = b := by
  simp only [Functor.map, EStateM.map]
  cases x s with
  | error e s₁ => simp
  | ok a s₁ =>
      constructor
      · intro h
        cases h
        exact ⟨a, rfl, rfl⟩
      · rintro ⟨a', h, rfl⟩
        cases h
        rfl

theorem run_map_error_iff {ε σ α β : Type} {f : α → β} {x : EStateM ε σ α} {s s' : σ} {e : ε} :
    (f <$> x) s = .error e s' ↔ x s = .error e s' := by
  simp only [Functor.map, EStateM.map]
  cases x s with
  | error e' s₁ => simp
  | ok a s₁ => simp

/-- The error of an operation that failed. -/
def error? {ε σ α : Type} : EStateM.Result ε σ α → Option ε
  | .ok _ _ => none
  | .error e _ => some e

theorem error_of_error? {ε σ α : Type} {r : EStateM.Result ε σ α} {e : ε} (h : error? r = some e) :
    ∃ s, r = .error e s := by
  cases r with
  | ok a s => cases h
  | error e' s =>
      cases h
      exact ⟨s, rfl⟩

/-- Whatever the operation fails with. -/
def Raises {ε σ α : Type} (P : ε → Prop) (x : EStateM ε σ α) : Prop :=
  ∀ s e s', x s = .error e s' → P e

namespace Raises

variable {ε ε' σ τ α β : Type} {P : ε → Prop}

theorem bind {x : EStateM ε σ α} {f : α → EStateM ε σ β} (hx : Raises P x)
    (hf : ∀ a, Raises P (f a)) : Raises P (x >>= f) := by
  intro s e s'' h
  cases run_bind_error_iff.mp h with
  | inl h => exact hx s e s'' h
  | inr h =>
      obtain ⟨a, s', -, h⟩ := h
      exact hf a s' e s'' h

theorem pure (a : α) : Raises P (Pure.pure a : EStateM ε σ α) := by
  intro s e s' h
  cases h

theorem throw {e : ε} (h : P e) : Raises P (throw e : EStateM ε σ α) := by
  intro s e' s' he
  cases he
  exact h

theorem throw_bind {e : ε} {f : α → EStateM ε σ β} (h : P e) :
    Raises P ((MonadExcept.throw e : EStateM ε σ α) >>= f) := by
  intro s e' s' he
  cases he
  exact h

/-- From one state. -/
theorem bind_from {x : EStateM ε σ α} {f : α → EStateM ε σ β} {s : σ}
    (hx : ∀ e s', x s = .error e s' → P e) (hf : ∀ a, Raises P (f a)) :
    ∀ e s', (x >>= f) s = .error e s' → P e := by
  intro e s'' h
  cases run_bind_error_iff.mp h with
  | inl h => exact hx e s'' h
  | inr h =>
      obtain ⟨a, s', -, h⟩ := h
      exact hf a s' e s'' h

theorem lift {x : Except ε α} (h : ∀ e, x = .error e → P e) :
    Raises P (Fault.lift x : EStateM ε σ α) := by
  intro s e s' he
  cases x with
  | ok a => cases he
  | error e' =>
      cases he
      exact h e rfl

theorem adapt {f : ε' → ε} {Q : Fault ε → Prop} {x : EStateM (Fault ε') σ α}
    (hx : Raises (fun e => Q (e.map f)) x) : Raises Q (Fault.adapt f x) := by
  intro s e s' h
  unfold Fault.adapt at h
  split at h
  · cases h
  · rename_i hfail
    cases h
    exact hx s _ s' hfail

theorem zoom {get : σ → τ} {set : τ → σ → σ} {x : EStateM ε τ α} (hx : Raises P x) :
    Raises P (Fault.zoom get set x) := by
  intro s e s' h
  unfold Fault.zoom at h
  split at h
  · cases h
  · rename_i hfail
    cases h
    exact hx _ e _ hfail

theorem onFst {x : EStateM ε σ α} (hx : Raises P x) :
    Raises P (Fault.onFst x : EStateM ε (σ × τ) α) := by
  intro s e s' h
  unfold Fault.onFst at h
  split at h
  · cases h
  · rename_i hfail
    cases h
    exact hx _ e _ hfail

theorem onSnd {x : EStateM ε τ α} (hx : Raises P x) :
    Raises P (Fault.onSnd x : EStateM ε (σ × τ) α) := by
  intro s e s' h
  unfold Fault.onSnd at h
  split at h
  · cases h
  · rename_i hfail
    cases h
    exact hx _ e _ hfail

theorem modify {f : σ → σ} : Raises P (modify f : EStateM ε σ PUnit) := by
  intro s e s' h
  cases h

theorem get : Raises P (get : EStateM ε σ σ) := by
  intro s e s' h
  cases h

theorem ite {c : Prop} [Decidable c] {x y : EStateM ε σ α} (hx : Raises P x) (hy : Raises P y) :
    Raises P (if c then x else y) := by
  by_cases h : c
  · rwa [if_pos h]
  · rwa [if_neg h]

end Raises

/-- A panic, or an error which is not of this kind. -/
def Spares {ε : Type} (Q : ε → Prop) : Fault ε → Prop
  | .err e => ¬ Q e
  | .panic => True

end Fault

import Tlsn.Library.Fault

/-!
Programs of two parties which share an ideal functionality. A program puts queries to it and
goes on with the replies. The functionality takes a query of each of the parties at a time,
and says which replies there may be: it can be random, and can refuse queries which do not
fit together.
-/

inductive Party (Q R α : Type) where
  | done (a : α)
  | ask (query : Q) (next : R → Party Q R α)

namespace Party

variable {Q R α β α' β' : Type}

def bind : Party Q R α → (α → Party Q R β) → Party Q R β
  | done a, f => f a
  | ask query next, f => ask query fun reply => (next reply).bind f

instance : Monad (Party Q R) where
  pure := done
  bind := bind

/-- The reply to a query. -/
def query (q : Q) : Party Q R R := ask q done

/-- The replies which the functionality may give to a pair of queries. -/
abbrev Functionality (Q R : Type) := Q → Q → R → R → Prop

/-- Two parties, run to the end. -/
inductive Joint (ideal : Functionality Q R) : Party Q R α → Party Q R β → α → β → Prop
  | done (a : α) (b : β) : Joint ideal (done a) (done b) a b
  | ask {q q' : Q} {r r' : R} {next : R → Party Q R α} {next' : R → Party Q R β} {a : α} {b : β}
      (hideal : ideal q q' r r') (hnext : Joint ideal (next r) (next' r') a b) :
      Joint ideal (ask q next) (ask q' next') a b

/-- Whatever the replies are, both parties come to an end, with these results. -/
def Ensures (ideal : Functionality Q R) (post : α → β → Prop) : Party Q R α → Party Q R β → Prop
  | done a, done b => post a b
  | ask q next, ask q' next' =>
      (∃ r r', ideal q q' r r') ∧ ∀ r r', ideal q q' r r' → Ensures ideal post (next r) (next' r')
  | _, _ => False

/-- The results a party may have, whatever it is replied. -/
inductive Ends : Party Q R α → α → Prop
  | done (a : α) : Ends (done a) a
  | ask {q : Q} {r : R} {next : R → Party Q R α} {a : α} (h : Ends (next r) a) :
      Ends (ask q next) a

theorem Ends.bind_iff {x : Party Q R α} {f : α → Party Q R β} {b : β} :
    Ends (x.bind f) b ↔ ∃ a, Ends x a ∧ Ends (f a) b := by
  induction x with
  | done a =>
      constructor
      · intro h
        exact ⟨a, .done a, h⟩
      · rintro ⟨a', h, hf⟩
        cases h
        exact hf
  | ask q next ih =>
      constructor
      · intro h
        cases h with
        | ask hnext =>
            obtain ⟨a, ha, hf⟩ := (ih _).mp hnext
            exact ⟨a, .ask ha, hf⟩
      · rintro ⟨a, h, hf⟩
        cases h with
        | ask hnext => exact .ask ((ih _).mpr ⟨a, hnext, hf⟩)

namespace Ensures

variable {ideal : Functionality Q R} {post : α → β → Prop}

theorem joint {x : Party Q R α} {y : Party Q R β} (h : Ensures ideal post x y) :
    (∃ a b, Joint ideal x y a b) ∧ ∀ a b, Joint ideal x y a b → post a b := by
  induction x generalizing y with
  | done a =>
      cases y with
      | done b =>
          refine ⟨⟨a, b, .done a b⟩, ?_⟩
          intro a' b' hjoint
          cases hjoint
          exact h
      | ask q next => exact h.elim
  | ask q next ih =>
      cases y with
      | done b => exact h.elim
      | ask q' next' =>
          obtain ⟨⟨r, r', hideal⟩, hnext⟩ := h
          obtain ⟨⟨a, b, hjoint⟩, -⟩ := ih r (hnext r r' hideal)
          refine ⟨⟨a, b, .ask hideal hjoint⟩, ?_⟩
          intro a' b' hjoint'
          cases hjoint' with
          | ask hideal' hrest => exact (ih _ (hnext _ _ hideal')).2 a' b' hrest

theorem bind {post' : α' → β' → Prop} {x : Party Q R α} {y : Party Q R β}
    {f : α → Party Q R α'} {g : β → Party Q R β'} (h : Ensures ideal post x y)
    (hf : ∀ a b, post a b → Ensures ideal post' (f a) (g b)) :
    Ensures ideal post' (x >>= f) (y >>= g) := by
  induction x generalizing y with
  | done a =>
      cases y with
      | done b => exact hf a b h
      | ask q next => exact h.elim
  | ask q next ih =>
      cases y with
      | done b => exact h.elim
      | ask q' next' => exact ⟨h.1, fun r r' hideal => ih r (h.2 r r' hideal)⟩

end Ensures

end Party

/-! ## Programs with a state, which may fail -/

/-- A program with a state: it returns or fails, and keeps the state it reached. -/
def Interactive (Q R ε σ α : Type) : Type := σ → Party Q R (EStateM.Result ε σ α)

namespace Interactive

variable {Q R ε σ σ' α β : Type}

instance : Monad (Interactive Q R ε σ) where
  pure a := fun s => .done (.ok a s)
  bind x f := fun s => (x s).bind fun
    | .ok a s' => f a s'
    | .error e s' => .done (.error e s')

/-- What a party does alone. -/
def alone (x : EStateM ε σ α) : Interactive Q R ε σ α := fun s => .done (x s)

def query (q : Q) : Interactive Q R ε σ R := fun s => (Party.query q).bind fun r => .done (.ok r s)

theorem run_alone_bind {x : EStateM ε σ α} {f : α → Interactive Q R ε σ β} {s t : σ} {a : α}
    (hx : x s = .ok a t) : (alone x >>= f) s = f a t := by
  show Party.bind (.done (x s)) _ = _
  rw [hx]
  rfl

theorem run_get_bind {f : σ → Interactive Q R ε σ β} {s : σ} :
    (alone MonadState.get >>= f) s = f s s := rfl

theorem run_query_bind {q : Q} {f : R → Interactive Q R ε σ β} {s : σ} :
    (query q >>= f) s = .ask q fun r => f r s := rfl

/-- Whatever it is replied, the program leaves these states, when it returns and when it
fails. -/
structure After (post : α → σ → Prop) (fails : σ → Prop) (x : Interactive Q R ε σ α) (s : σ) :
    Prop where
  ok : ∀ a t, Party.Ends (x s) (.ok a t) → post a t
  error : ∀ e t, Party.Ends (x s) (.error e t) → fails t

namespace After

variable {post : α → σ → Prop} {post' : β → σ → Prop} {fails : σ → Prop} {s : σ}

theorem pure {a : α} (h : post a s) :
    After post fails (Pure.pure a : Interactive Q R ε σ α) s := by
  constructor
  · intro a' t hend
    cases hend
    exact h
  · intro e t hend
    cases hend

theorem bind {x : Interactive Q R ε σ α} {f : α → Interactive Q R ε σ β}
    (h : After post fails x s) (hf : ∀ a t, post a t → After post' fails (f a) t) :
    After post' fails (x >>= f) s := by
  constructor
  · intro b t hend
    obtain ⟨r, hr, hrest⟩ := Party.Ends.bind_iff.mp hend
    cases r with
    | ok a t' => exact (hf a t' (h.ok a t' hr)).ok b t hrest
    | error e t' => cases hrest
  · intro e t hend
    obtain ⟨r, hr, hrest⟩ := Party.Ends.bind_iff.mp hend
    cases r with
    | ok a t' => exact (hf a t' (h.ok a t' hr)).error e t hrest
    | error e' t' =>
        cases hrest
        exact h.error _ _ hr

theorem alone {x : EStateM ε σ α} (hok : ∀ a t, x s = .ok a t → post a t)
    (herror : ∀ e t, x s = .error e t → fails t) :
    After post fails (Interactive.alone x : Interactive Q R ε σ α) s := by
  constructor
  · intro a t hend
    unfold Interactive.alone at hend
    generalize x s = r at hend hok
    cases hend
    exact hok a t rfl
  · intro e t hend
    unfold Interactive.alone at hend
    generalize x s = r at hend herror
    cases hend
    exact herror e t rfl

theorem alone_bind {x : EStateM ε σ α} {f : α → Interactive Q R ε σ β} {a : α} {t : σ}
    (hx : x s = .ok a t) (h : After post' fails (f a) t) :
    After post' fails (Interactive.alone x >>= f) s := by
  constructor
  · intro b u hend
    rw [run_alone_bind hx] at hend
    exact h.ok b u hend
  · intro e u hend
    rw [run_alone_bind hx] at hend
    exact h.error e u hend

theorem alone_bind_error {x : EStateM ε σ α} {f : α → Interactive Q R ε σ β} {e : ε} {t : σ}
    (hx : x s = .error e t) (h : fails t) : After post' fails (Interactive.alone x >>= f) s := by
  have hrun : (Interactive.alone x >>= f) s = .done (.error e t) := by
    show Party.bind (.done (x s)) _ = _
    rw [hx]
    rfl
  constructor
  · intro b u hend
    rw [hrun] at hend
    cases hend
  · intro e' u hend
    rw [hrun] at hend
    cases hend
    exact h

theorem alone_error {x : EStateM ε σ α} {e : ε} {t : σ} (hx : x s = .error e t) (h : fails t) :
    After post fails (Interactive.alone x : Interactive Q R ε σ α) s := by
  refine alone (fun a u hok => ?_) fun e' u herror => ?_
  · rw [hx] at hok
    cases hok
  · rw [hx] at herror
    cases herror
    exact h

theorem query {q : Q} {post : R → σ → Prop} (h : ∀ r, post r s) :
    After post fails (Interactive.query q : Interactive Q R ε σ R) s := by
  constructor
  · intro a t hend
    cases hend with
    | ask hnext =>
        cases hnext
        exact h _
  · intro e t hend
    cases hend with
    | ask hnext => cases hnext

theorem mono {fails' : σ → Prop} {post' : α → σ → Prop} {x : Interactive Q R ε σ α}
    (h : After post fails x s) (hpost : ∀ a t, post a t → post' a t)
    (hfails : ∀ t, fails t → fails' t) : After post' fails' x s :=
  ⟨fun a t hend => hpost a t (h.ok a t hend), fun e t hend => hfails t (h.error e t hend)⟩

end After

/-- The program leaves the state as it is. -/
def Stays (x : Interactive Q R ε σ α) : Prop := ∀ s, After (fun _ t => t = s) (fun t => t = s) x s

namespace Stays

theorem pure (a : α) : Stays (Pure.pure a : Interactive Q R ε σ α) := fun _ => .pure rfl

theorem bind {x : Interactive Q R ε σ α} {f : α → Interactive Q R ε σ β} (hx : Stays x)
    (hf : ∀ a, Stays (f a)) : Stays (x >>= f) := fun s =>
  (hx s).bind fun a t ht => ht ▸ hf a t

theorem query (q : Q) : Stays (Interactive.query q : Interactive Q R ε σ R) := fun _ =>
  .query fun _ => rfl

theorem lift (x : Except ε α) :
    Stays (Interactive.alone (Fault.lift x) : Interactive Q R ε σ α) := by
  intro s
  cases x with
  | ok a =>
      refine .alone (fun a t hok => ?_) fun e t herror => nomatch herror
      cases hok
      rfl
  | error e =>
      refine .alone (fun a t hok => nomatch hok) fun e t herror => ?_
      cases herror
      rfl

theorem get : Stays (Interactive.alone MonadState.get : Interactive Q R ε σ σ) := fun s =>
  .alone (fun a t hok => by cases hok; rfl) fun e t herror => nomatch herror

theorem throw (e : ε) :
    Stays (Interactive.alone (MonadExcept.throw e) : Interactive Q R ε σ α) := fun _ =>
  .alone_error rfl rfl

end Stays

/-- Both parties return. -/
def Returns {α' ε' : Type} (post : α → σ → α' → σ' → Prop) :
    EStateM.Result ε σ α → EStateM.Result ε' σ' α' → Prop
  | .ok a s, .ok a' s' => post a s a' s'
  | _, _ => False

variable {ε' α' β' : Type} {ideal : Party.Functionality Q R}

/-- From these states, both parties return, whatever the functionality does. -/
structure Ensures (ideal : Party.Functionality Q R) (post : α → σ → α' → σ' → Prop)
    (x : Interactive Q R ε σ α) (y : Interactive Q R ε' σ' α') (s : σ) (s' : σ') : Prop where
  ensures : Party.Ensures ideal (Returns post) (x s) (y s')

namespace Ensures

variable {post : α → σ → α' → σ' → Prop} {post' : β → σ → β' → σ' → Prop}
  {x : Interactive Q R ε σ α} {y : Interactive Q R ε' σ' α'} {s : σ} {s' : σ'}

theorem alone {x : EStateM ε σ α} {y : EStateM ε' σ' α'} {t : σ} {t' : σ'} {a : α} {a' : α'}
    (hx : x s = .ok a t) (hy : y s' = .ok a' t') (h : post a t a' t') :
    Ensures ideal post (Interactive.alone x) (Interactive.alone y) s s' := by
  constructor
  unfold Interactive.alone
  rw [hx, hy]
  exact h

theorem bind {f : α → Interactive Q R ε σ β} {g : α' → Interactive Q R ε' σ' β'}
    (h : Ensures ideal post x y s s')
    (hf : ∀ a t a' t', post a t a' t' → Ensures ideal post' (f a) (g a') t t') :
    Ensures ideal post' (x >>= f) (y >>= g) s s' := by
  refine ⟨Party.Ensures.bind h.ensures fun r r' hreturns => ?_⟩
  cases r with
  | error e t => exact hreturns.elim
  | ok a t =>
      cases r' with
      | error e t => exact hreturns.elim
      | ok a' t' => exact (hf a t a' t' hreturns).ensures

/-- What the parties do alone before they go on. -/
theorem alone_bind {x : EStateM ε σ α} {y : EStateM ε' σ' α'} {f : α → Interactive Q R ε σ β}
    {g : α' → Interactive Q R ε' σ' β'} {t : σ} {t' : σ'} {a : α} {a' : α'} (hx : x s = .ok a t)
    (hy : y s' = .ok a' t') (h : Ensures ideal post' (f a) (g a') t t') :
    Ensures ideal post' (Interactive.alone x >>= f) (Interactive.alone y >>= g) s s' := by
  constructor
  show Party.Ensures ideal _ (Party.bind (.done (x s)) _) (Party.bind (.done (y s')) _)
  rw [hx, hy]
  exact h.ensures

theorem pure {a : α} {a' : α'} (h : post a s a' s') :
    Ensures ideal post (Pure.pure a : Interactive Q R ε σ α) (Pure.pure a' :
      Interactive Q R ε' σ' α') s s' := ⟨h⟩

end Ensures

end Interactive

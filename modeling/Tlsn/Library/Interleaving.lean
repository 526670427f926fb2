import Mathlib.Algebra.Order.BigOperators.Group.List
import Mathlib.Data.List.Perm.Subperm

/-!
Programs which run side by side. Each of them waits for an answer, and goes on with it
until it waits for the next one. What they share changes on its own.

A program may claim one of the resources that are shared. As long as none is claimed more
often than it is there, each claim has a resource of its own.
-/

/-- How what is shared changes, how a program starts, and how it goes on. -/
structure Interleaving (W R E A : Type) where
  change : W → W → Prop
  start : R → E
  resume : W → A → E → E

namespace Interleaving

variable {W R E A : Type}

/-- The states after any changes, requests and answers. `allowed` restricts the answers,
by the state in which they are given. -/
inductive Reachable (I : Interleaving W R E A) (initial : W → Prop)
    (allowed : W → List E → A → E → Prop) : W → List E → Prop
  | initial {w : W} (h : initial w) : Reachable I initial allowed w []
  | change {w w' : W} {es : List E} (h : Reachable I initial allowed w es)
      (hchange : I.change w w') : Reachable I initial allowed w' es
  | request {w : W} {es : List E} (r : R) (h : Reachable I initial allowed w es) :
      Reachable I initial allowed w (es ++ [I.start r])
  | answer {w : W} {before after : List E} {e : E} (a : A)
      (h : Reachable I initial allowed w (before ++ e :: after))
      (hallowed : allowed w (before ++ e :: after) a e) :
      Reachable I initial allowed w (before ++ I.resume w a e :: after)

variable {I : Interleaving W R E A} {initial : W → Prop} {allowed : W → List E → A → E → Prop}
  {w : W} {es : List E}

/-- What holds of each program on its own. -/
theorem Reachable.all {P : W → E → Prop} (h : Reachable I initial allowed w es)
    (hchange : ∀ w w' e, I.change w w' → P w e → P w' e) (hstart : ∀ w r, P w (I.start r))
    (hresume : ∀ w es a e, allowed w es a e → P w e → P w (I.resume w a e)) :
    ∀ e ∈ es, P w e := by
  induction h with
  | initial h => exact fun e he => nomatch he
  | change h hw ih => exact fun e he => hchange _ _ e hw (ih e he)
  | request r h ih =>
      intro e he
      cases List.mem_append.mp he with
      | inl he => exact ih e he
      | inr he =>
          cases List.mem_singleton.mp he
          exact hstart _ r
  | @answer w before after e a h hallowed ih =>
      have hall := List.forall_mem_append.mp ih
      obtain ⟨he, hafter⟩ := List.forall_mem_cons.mp hall.2
      refine List.forall_mem_append.mpr ⟨hall.1, List.forall_mem_cons.mpr ⟨?_, hafter⟩⟩
      exact hresume _ _ a e hallowed he

theorem Reachable.answerLast {e : E} (a : A) (h : Reachable I initial allowed w (es ++ [e]))
    (hallowed : allowed w (es ++ [e]) a e) :
    Reachable I initial allowed w (es ++ [I.resume w a e]) :=
  h.answer a hallowed

theorem Reachable.answerFirst {e : E} (a : A) (h : Reachable I initial allowed w (e :: es))
    (hallowed : allowed w (e :: es) a e) :
    Reachable I initial allowed w (I.resume w a e :: es) :=
  have h : Reachable I initial allowed w ([] ++ e :: es) := h
  h.answer a hallowed

/-- The last program gets answers one after the other. -/
theorem Reachable.answers {e : E} (as : List A)
    (h : Reachable I initial (fun _ _ _ _ => True) w (es ++ [e])) :
    Reachable I initial (fun _ _ _ _ => True) w
      (es ++ [as.foldl (fun e a => I.resume w a e) e]) := by
  induction as generalizing e with
  | nil => exact h
  | cons a as ih => exact ih (h.answerLast a trivial)

section Claims

variable {κ : Type} {claim : E → Option κ} {resources : W → List κ}

/-- What a program does to its claim: it keeps it, drops it, or makes one for a resource
which is not claimed as often as it is there. -/
inductive Claims [DecidableEq κ] (claim : E → Option κ) (resources : List κ) (es : List E)
    (e e' : E) : Prop
  | kept (h : claim e' = claim e)
  | dropped (h : claim e' = none)
  | made {k : κ} (hnone : claim e = none) (hsome : claim e' = some k)
      (hfree : (es.filterMap claim).count k < resources.count k)

theorem filterMap_replace {before after : List E} {e e' : E} (h : claim e' = claim e) :
    (before ++ e' :: after).filterMap claim = (before ++ e :: after).filterMap claim := by
  rw [List.filterMap_append, List.filterMap_append, List.filterMap_cons, List.filterMap_cons, h]

theorem filterMap_drop {before after : List E} {e e' : E} (h : claim e' = none) :
    ((before ++ e' :: after).filterMap claim).Subperm ((before ++ e :: after).filterMap claim) := by
  rw [List.filterMap_append, List.filterMap_append, List.filterMap_cons, List.filterMap_cons, h]
  refine List.Sublist.subperm ((List.Sublist.refl _).append ?_)
  cases claim e with
  | none => exact List.Sublist.refl _
  | some k => exact List.sublist_cons_self _ _

theorem filterMap_make {before after : List E} {e e' : E} {k : κ} (hnone : claim e = none)
    (hsome : claim e' = some k) :
    ((before ++ e' :: after).filterMap claim).Perm
      (k :: (before ++ e :: after).filterMap claim) := by
  rw [List.filterMap_append, List.filterMap_append, List.filterMap_cons, List.filterMap_cons,
    hnone, hsome]
  exact List.perm_middle

variable [DecidableEq κ]

theorem subperm_cons_of_count {k : κ} {l l' : List κ} (h : l.Subperm l')
    (hk : l.count k < l'.count k) : (k :: l).Subperm l' := by
  rw [List.subperm_ext_iff]
  intro x hx
  by_cases hxk : x = k
  · subst hxk
    rw [List.count_cons_self]
    exact hk
  · rw [List.count_cons_of_ne (fun hkx => hxk hkx.symm)]
    exact h.count_le x

/-- The claims are backed by resources, one by one. -/
theorem Reachable.backed (claim : E → Option κ) (resources : W → List κ)
    (h : Reachable I initial allowed w es)
    (hchange : ∀ w w', I.change w w' → (resources w).Subperm (resources w'))
    (hstart : ∀ r, claim (I.start r) = none)
    (hresume : ∀ w es a e, Reachable I initial allowed w es → e ∈ es → allowed w es a e →
      Claims claim (resources w) es e (I.resume w a e)) :
    (es.filterMap claim).Subperm (resources w) := by
  induction h with
  | initial h => exact List.nil_subperm
  | change h hw ih => exact ih.trans (hchange _ _ hw)
  | request r h ih =>
      rw [List.filterMap_append, List.filterMap_cons, hstart r, List.filterMap_nil, List.append_nil]
      exact ih
  | @answer w before after e a h hallowed ih =>
      have he : e ∈ before ++ e :: after := List.mem_append_right _ List.mem_cons_self
      cases hresume w _ a e h he hallowed with
      | kept hkept =>
          rw [filterMap_replace hkept]
          exact ih
      | dropped hnone => exact (filterMap_drop hnone).trans ih
      | made hnone hsome hfree =>
          exact (filterMap_make hnone hsome).subperm.trans (subperm_cons_of_count ih hfree)

end Claims

end Interleaving

/-! ## Totals -/

namespace List

variable {α M : Type} [AddCommMonoid M] [PartialOrder M] [IsOrderedAddMonoid M]

/-- What is part of a list does not add up to more. -/
theorem Subperm.sum_map_le {l l' : List α} {f : α → M} (h : l.Subperm l')
    (hf : ∀ a ∈ l', 0 ≤ f a) :
    (l.map f).sum ≤ (l'.map f).sum := by
  obtain ⟨l'', hperm, hsub⟩ := h
  rw [← (hperm.map f).sum_eq]
  refine (hsub.map f).sum_le_sum fun x hx => ?_
  obtain ⟨a, ha, rfl⟩ := List.mem_map.mp hx
  exact hf a ha

end List

import Mathlib.Data.List.Forall2
import Tlsn.Library.Fault

/-!
Circuits under construction. A builder holds what has been traced so far; a node
stands for a value of the circuit, which is known once the circuit is evaluated.
Tracing returns nodes and only ever adds to the circuit.
-/

structure CircuitBuilder where
  State : Type
  Inputs : Type
  Node : Type → Type
  /-- The value of a node of the circuit, for the given inputs of the circuit. -/
  eval : {α : Type} → Inputs → State → Node α → Option α

namespace CircuitBuilder

variable {b : CircuitBuilder} {α β γ : Type}

def Reads (b : CircuitBuilder) (i : b.Inputs) (s : b.State) (node : b.Node α) (v : α) : Prop :=
  b.eval i s node = some v

/-- The second circuit has every node of the first one. -/
def Extends (b : CircuitBuilder) (s s' : b.State) : Prop :=
  ∀ (i : b.Inputs) (α : Type) (node : b.Node α) (v : α), b.Reads i s node v → b.Reads i s' node v

theorem Extends.refl (s : b.State) : b.Extends s s := fun _ _ _ _ h => h

theorem Extends.trans {s s' s'' : b.State} (h : b.Extends s s') (h' : b.Extends s' s'') :
    b.Extends s s'' :=
  fun i α node v hv => h' i α node v (h i α node v hv)

abbrev ReadsList (b : CircuitBuilder) (i : b.Inputs) (s : b.State) (nodes : List (b.Node α))
    (vs : List α) : Prop :=
  List.Forall₂ (b.Reads i s) nodes vs

/-- The nodes of an array. -/
abbrev ReadsVec {n : Nat} (b : CircuitBuilder) (i : b.Inputs) (s : b.State)
    (nodes : Vector (b.Node α) n) (vs : Vector α n) : Prop :=
  b.ReadsList i s nodes.toList vs.toList

theorem ReadsList.mono {i : b.Inputs} {s s' : b.State} (h : b.Extends s s')
    {nodes : List (b.Node α)} {vs : List α} (hr : b.ReadsList i s nodes vs) :
    b.ReadsList i s' nodes vs :=
  hr.imp fun _ _ hv => h i _ _ _ hv

theorem ReadsList.append {i : b.Inputs} {s : b.State} {xs ys : List (b.Node α)} {vs ws : List α}
    (hx : b.ReadsList i s xs vs) (hy : b.ReadsList i s ys ws) :
    b.ReadsList i s (xs ++ ys) (vs ++ ws) :=
  List.rel_append hx hy

theorem readsVec_iff {n : Nat} {i : b.Inputs} {s : b.State} {nodes : Vector (b.Node α) n}
    {vs : Vector α n} :
    b.ReadsVec i s nodes vs ↔ ∀ (k : Nat) (h : k < n), b.Reads i s nodes[k] vs[k] := by
  rw [ReadsVec, ReadsList, List.forall₂_iff_get]
  constructor
  · intro h k hk
    simpa using h.2 k (by simpa using hk) (by simpa using hk)
  · intro h
    refine ⟨by simp, ?_⟩
    intro k hk _
    simpa using h k (by simpa using hk)

theorem ReadsVec.set {n : Nat} {i : b.Inputs} {s : b.State} {nodes : Vector (b.Node α) n}
    {vs : Vector α n} (hr : b.ReadsVec i s nodes vs) {node : b.Node α} {v : α}
    (hv : b.Reads i s node v) {k : Nat} (hk : k < n) :
    b.ReadsVec i s (nodes.set k node) (vs.set k v) := by
  rw [readsVec_iff] at hr ⊢
  intro j hj
  simp only [Vector.getElem_set]
  by_cases h : k = j
  · rw [if_pos h, if_pos h]
    exact hv
  · rw [if_neg h, if_neg h]
    exact hr j hj

theorem readsVec_replicate {n : Nat} {i : b.Inputs} {s : b.State} {node : b.Node α} {v : α}
    (h : b.Reads i s node v) : b.ReadsVec i s (Vector.replicate n node) (Vector.replicate n v) := by
  rw [readsVec_iff]
  intro k hk
  simpa using h

/-- The computation returns, has added to the circuit, and leaves what is said of its result. -/
def Traces (s : b.State) (x : EStateM (Fault Empty) b.State α) (Q : α → b.State → Prop) : Prop :=
  ∃ a s', x s = .ok a s' ∧ b.Extends s s' ∧ Q a s'

namespace Traces

variable {s : b.State} {Q Q' : α → b.State → Prop} {R : β → b.State → Prop}

theorem pure {a : α} (h : Q a s) : Traces s (Pure.pure a) Q := ⟨a, s, rfl, .refl s, h⟩

theorem bind {x : EStateM (Fault Empty) b.State α} {f : α → EStateM (Fault Empty) b.State β}
    (hx : Traces s x Q) (hf : ∀ a s', b.Extends s s' → Q a s' → Traces s' (f a) R) :
    Traces s (x >>= f) R := by
  obtain ⟨a, s', hrun, hs, hQ⟩ := hx
  obtain ⟨c, s'', hrun', hs', hR⟩ := hf a s' hs hQ
  exact ⟨c, s'', Fault.run_bind_ok_iff.mpr ⟨a, s', hrun, hrun'⟩, hs.trans hs', hR⟩

theorem mono {x : EStateM (Fault Empty) b.State α} (hx : Traces s x Q)
    (h : ∀ a s', b.Extends s s' → Q a s' → Q' a s') : Traces s x Q' := by
  obtain ⟨a, s', hrun, hs, hQ⟩ := hx
  exact ⟨a, s', hrun, hs, h a s' hs hQ⟩

theorem of_map {x : EStateM (Fault Empty) b.State α} {f : α → β} (hx : Traces s (f <$> x) R) :
    Traces s x fun a => R (f a) := by
  obtain ⟨c, s', hrun, hs, hR⟩ := hx
  simp only [Functor.map, EStateM.map] at hrun
  cases h : x s with
  | error e t =>
      rw [h] at hrun
      cases hrun
  | ok a t =>
      rw [h] at hrun
      cases hrun
      exact ⟨a, _, h, hs, hR⟩

/-- A loop, by an invariant on the part of the list it has gone through. It holds in
a larger circuit as well. -/
theorem foldlM (I : List α → β → b.State → Prop) {f : β → α → EStateM (Fault Empty) b.State β}
    {l : List α} {acc : β} (hinit : I [] acc s)
    (hstep : ∀ done a rest acc s', l = done ++ a :: rest → b.Extends s s' → I done acc s' →
      Traces s' (f acc a) (I (done ++ [a]))) :
    Traces s (l.foldlM f acc) (I l) := by
  have hloop (rest : List α) : ∀ (done : List α) (acc : β) (s' : b.State), l = done ++ rest →
      b.Extends s s' → I done acc s' → Traces s' (rest.foldlM f acc) (I l) := by
    induction rest with
    | nil =>
        intro done acc s' hl hs hI
        rw [List.append_nil] at hl
        subst hl
        exact .pure hI
    | cons a rest ih =>
        intro done acc s' hl hs hI
        refine .bind (hstep done a rest acc s' hl hs hI) ?_
        intro acc' s'' hs' hI'
        exact ih (done ++ [a]) acc' s'' (by simp [hl]) (hs.trans hs') hI'
  exact hloop l [] acc s rfl (.refl s) hinit

/-- Tracing every value of a list. -/
theorem mapM {i : b.Inputs} {f : α → EStateM (Fault Empty) b.State (b.Node β)} {g : α → β}
    (l : List α)
    (h : ∀ a ∈ l, ∀ s', Traces s' (f a) fun node s'' => b.Reads i s'' node (g a)) :
    Traces s (l.mapM f) fun nodes s' => b.ReadsList i s' nodes (l.map g) := by
  induction l generalizing s with
  | nil => exact .pure .nil
  | cons a l ih =>
      rw [List.mapM_cons]
      refine .bind (h a List.mem_cons_self s) ?_
      intro node s' hs hnode
      refine .bind (ih fun c hc => h c (List.mem_cons_of_mem a hc)) ?_
      intro nodes s'' hs' hnodes
      exact .pure (.cons (hs' _ _ _ _ hnode) hnodes)

theorem mapM_vec {n : Nat} {i : b.Inputs} {f : α → EStateM (Fault Empty) b.State (b.Node β)}
    {g : α → β} (v : Vector α n)
    (h : ∀ a ∈ v.toList, ∀ s', Traces s' (f a) fun node s'' => b.Reads i s'' node (g a)) :
    Traces s (v.mapM f) fun nodes s' => b.ReadsVec i s' nodes (v.map g) := by
  have hlist := mapM (s := s) v.toList h
  rw [← Vector.toList_toArray, ← Array.toList_mapM, ← Vector.toArray_mapM] at hlist
  refine (of_map (of_map hlist)).mono ?_
  intro nodes s' hs hnodes
  rw [ReadsVec, Vector.toList_map]
  exact hnodes

end Traces

end CircuitBuilder

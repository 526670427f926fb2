import Tlsn.Hmac.HmacSha256

/-!
The pseudorandom function from the states after the secret: first the whole chain
`A(i)`, then one block of output for each of its members, cut at the length asked for.
-/

namespace Tlsn.Hmac

open CircuitBuilder

/-- Indexing aborts beyond the end. -/
def index {σ α : Type} (l : List α) (i : Nat) : EStateM (Fault Empty) σ α :=
  match l[i]? with
  | some a => pure a
  | none => throw .panic

def pHashWith (t : Tracing) (outer inner : Vector (t.Node UInt32) 8) (seed : List (t.Node UInt8))
    (iterations : Nat) : EStateM (Fault Empty) t.State (List (t.Node UInt8)) := do
  let aCache ← (List.range iterations).foldlM (fun aCache i => do
    let last ← index aCache i
    let next ← finalizeWith t outer inner last
    return aCache ++ [next.toList]) [seed]
  (List.range iterations).foldlM (fun output i => do
    let a ← index aCache (i + 1)
    let hash ← finalizeWith t outer inner (a ++ seed)
    return output ++ hash.toList) []

def prfWith (t : Tracing) (outer inner : Vector (t.Node UInt32) 8)
    (seed label : List (t.Node UInt8)) (bytes : Nat) :
    EStateM (Fault Empty) t.State (List (t.Node UInt8)) := do
  let iterations := bytes / 32 + if bytes % 32 ≠ 0 then 1 else 0
  let output ← pHashWith t outer inner (label ++ seed) iterations
  return output.take bytes

def pHash (c : Sha256Fns) (outer inner : Sha256.State) (seed : List UInt8) (iterations : Nat) :
    Except (Fault Empty) (List UInt8) :=
  runPlain (pHashWith (plain c) outer inner seed iterations)

def pHashTrace (t : Tracing) (outer inner : Vector (t.Node UInt32) 8)
    (seed : List (t.Node UInt8)) (iterations : Nat) :
    EStateM (Fault Empty) t.State (List (t.Node UInt8)) :=
  pHashWith t outer inner seed iterations

def prf (c : Sha256Fns) (outer inner : Sha256.State) (seed label : List UInt8) (bytes : Nat) :
    Except (Fault Empty) (List UInt8) :=
  runPlain (prfWith (plain c) outer inner seed label bytes)

def prfTrace (t : Tracing) (outer inner : Vector (t.Node UInt32) 8)
    (seed label : List (t.Node UInt8)) (bytes : Nat) :
    EStateM (Fault Empty) t.State (List (t.Node UInt8)) :=
  prfWith t outer inner seed label bytes

theorem eq_length_of_range {n : Nat} {done rest : List Nat} {a : Nat}
    (h : List.range n = done ++ a :: rest) : a = done.length := by
  have hget : (List.range n)[done.length]? = some a := by simp [h]
  rw [List.getElem?_eq_some_iff] at hget
  obtain ⟨_, hget⟩ := hget
  simpa using hget.symm

theorem traces_index {b : CircuitBuilder} {α : Type} {s : b.State} {l : List α} {i : Nat}
    (h : i < l.length) : Traces s (index l i) fun a _ => a = l[i] := by
  rw [index, List.getElem?_eq_getElem h]
  exact .pure rfl

namespace Tracing.Lawful

variable {t : Tracing} {c : Sha256Fns} {s : t.State} {i : t.Inputs}
  {outer inner : Vector (t.Node UInt32) 8} {v w : Sha256.State}

/-- What the cache holds after `k` rounds. -/
def Cached (t : Tracing) (i : t.Inputs) (mac : List UInt8 → Vector UInt8 32) (seed : List UInt8)
    (k : Nat) (aCache : List (List (t.Node UInt8))) (s : t.State) : Prop :=
  List.Forall₂ (t.ReadsList i s) aCache ((List.range (k + 1)).map (Prf.chain mac seed))

theorem Cached.mono {mac : List UInt8 → Vector UInt8 32} {seed : List UInt8} {k : Nat}
    {aCache : List (List (t.Node UInt8))} {s' : t.State} (hs : t.Extends s s')
    (h : Cached t i mac seed k aCache s) : Cached t i mac seed k aCache s' :=
  h.imp fun _ _ hr => hr.mono hs

theorem Cached.index {mac : List UInt8 → Vector UInt8 32} {seed : List UInt8} {k j : Nat}
    {aCache : List (List (t.Node UInt8))} (h : Cached t i mac seed k aCache s) (hj : j ≤ k) :
    Traces s (Hmac.index aCache j) fun a s' => t.ReadsList i s' a (Prf.chain mac seed j) := by
  have hlen : aCache.length = k + 1 := by simpa using h.length_eq
  have hlt : j < aCache.length := by omega
  refine (traces_index hlt).mono ?_
  intro a s' hs ha
  subst ha
  have hget := h.get hlt (by simpa using Nat.lt_succ_of_le hj)
  simp only [List.get_eq_getElem, List.getElem_map, List.getElem_range] at hget
  exact hget.mono hs

theorem pHashWith (ht : t.Lawful c) (ho : t.ReadsVec i s outer v) (hi : t.ReadsVec i s inner w)
    {seed : List (t.Node UInt8)} {m : List UInt8} (hm : t.ReadsList i s seed m)
    (iterations : Nat) :
    Traces s (Hmac.pHashWith t outer inner seed iterations) fun output s' =>
      t.ReadsList i s' output (Prf.pHash (c.finalized v w) m (iterations * 32)) := by
  have hcache : Cached t i (c.finalized v w) m 0 [seed] s := .cons hm .nil
  refine .bind (Traces.foldlM (fun done aCache s' =>
    Cached t i (c.finalized v w) m done.length aCache s') hcache ?_) ?_
  · intro done a rest aCache s₁ hl h₁ hcache
    cases eq_length_of_range hl
    refine .bind (hcache.index (Nat.le_refl _)) ?_
    intro last s₂ h₂ hlast
    have h₁₂ := h₁.trans h₂
    refine .bind (ht.finalizeWith (ho.mono h₁₂) (hi.mono h₁₂) hlast) ?_
    intro next s₃ h₃ hnext
    refine .pure ?_
    rw [Cached, List.length_append, List.length_singleton, List.range_succ, List.map_append]
    exact List.rel_append ((hcache.mono h₂).mono h₃) (.cons hnext .nil)
  · intro aCache s₁ h₁ hcache
    rw [List.length_range] at hcache
    refine (Traces.foldlM (fun done output s' =>
      t.ReadsList i s' output (Prf.pHash (c.finalized v w) m (done.length * 32))) ?_ ?_).mono ?_
    · rw [List.length_nil, Nat.zero_mul]
      exact .nil
    · intro done a rest output s₂ hl h₂ houtput
      have hlt : done.length < iterations := by
        have hlen := congrArg List.length hl
        simp only [List.length_range, List.length_append, List.length_cons] at hlen
        omega
      cases eq_length_of_range hl
      refine .bind ((hcache.mono h₂).index (Nat.succ_le_of_lt hlt)) ?_
      intro a s₃ h₃ ha
      have h₁₃ := (h₁.trans h₂).trans h₃
      refine .bind (ht.finalizeWith (ho.mono h₁₃) (hi.mono h₁₃) (ha.append (hm.mono h₁₃))) ?_
      intro hash s₄ h₄ hhash
      refine .pure ?_
      have hnext := Prf.pHash_add (c.finalized v w) m (done.length * 32) 32
      rw [Prf.map_expansion] at hnext
      rw [List.length_append, List.length_singleton, Nat.succ_mul, hnext]
      exact ((houtput.mono h₃).mono h₄).append hhash
    · intro output s' _ houtput
      rw [List.length_range] at houtput
      exact houtput

theorem prfWith (ht : t.Lawful c) (ho : t.ReadsVec i s outer v) (hi : t.ReadsVec i s inner w)
    {seed label : List (t.Node UInt8)} {m l : List UInt8} (hm : t.ReadsList i s seed m)
    (hl : t.ReadsList i s label l) (bytes : Nat) :
    Traces s (Hmac.prfWith t outer inner seed label bytes) fun output s' =>
      t.ReadsList i s' output (Prf.pHash (c.finalized v w) (l ++ m) bytes) := by
  refine .bind (ht.pHashWith ho hi (hl.append hm) _) ?_
  intro output s' hs houtput
  refine .pure ?_
  have htake := List.forall₂_take bytes houtput
  have hle : bytes ≤ (bytes / 32 + if bytes % 32 ≠ 0 then 1 else 0) * 32 := by
    split <;> omega
  rw [Prf.take_pHash, Nat.min_eq_left hle] at htake
  exact htake

end Tracing.Lawful

end Tlsn.Hmac

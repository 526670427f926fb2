import Mathlib.Data.List.Basic

/-!
Finite maps and finite bijections, given by their entries in some iteration
order. Keys are unique by construction; inserting an entry replaces whatever it
collides with.
-/

structure AssocMap (κ α : Type) where
  entries : List (κ × α)
  nodup : (entries.map Prod.fst).Nodup

namespace AssocMap

variable {κ α : Type} [DecidableEq κ]

def empty : AssocMap κ α := ⟨[], List.nodup_nil⟩

def keys (m : AssocMap κ α) : List κ := m.entries.map Prod.fst

def get? (m : AssocMap κ α) (k : κ) : Option α :=
  (m.entries.find? (fun e => decide (e.1 = k))).map Prod.snd

theorem get?_eq_some_iff {m : AssocMap κ α} {k : κ} {a : α} :
    m.get? k = some a ↔ (k, a) ∈ m.entries := by
  obtain ⟨entries, nodup⟩ := m
  simp only [get?]
  induction entries with
  | nil => simp
  | cons e es ih =>
      obtain ⟨k', a'⟩ := e
      obtain ⟨hhead, htail⟩ := List.nodup_cons.mp nodup
      by_cases hk : k' = k
      · subst hk
        have hnot : (k', a) ∉ es := fun h => hhead (List.mem_map.mpr ⟨_, h, rfl⟩)
        simp [hnot, eq_comm]
      · simp [hk, ih htail, Ne.symm hk]

def insert (k : κ) (a : α) (m : AssocMap κ α) : AssocMap κ α where
  entries := m.entries.filter (fun e => decide (e.1 ≠ k)) ++ [(k, a)]
  nodup := by
    rw [List.map_append, List.nodup_append]
    refine ⟨(List.filter_sublist.map Prod.fst).nodup m.nodup, by simp, ?_⟩
    intro x hx y hy
    obtain ⟨e, he, rfl⟩ := List.mem_map.mp hx
    have hne : e.1 ≠ k := by simpa using (List.mem_filter.mp he).2
    rwa [List.mem_singleton.mp hy]

theorem mem_insert {k k' : κ} {a a' : α} {m : AssocMap κ α} :
    (k', a') ∈ (m.insert k a).entries ↔
      (k' = k ∧ a' = a) ∨ (k' ≠ k ∧ (k', a') ∈ m.entries) := by
  simp only [insert, List.mem_append, List.mem_filter, decide_eq_true_eq, List.mem_singleton,
    Prod.mk.injEq]
  tauto

def remove (k : κ) (m : AssocMap κ α) : AssocMap κ α where
  entries := m.entries.filter (fun e => decide (e.1 ≠ k))
  nodup := (List.filter_sublist.map Prod.fst).nodup m.nodup

@[simp] theorem get?_empty (k : κ) : (empty : AssocMap κ α).get? k = none := rfl

theorem get?_insert (k k' : κ) (a : α) (m : AssocMap κ α) :
    (m.insert k a).get? k' = if k' = k then some a else m.get? k' := by
  apply Option.ext
  intro b
  rw [get?_eq_some_iff, mem_insert]
  by_cases h : k' = k
  · rw [if_pos h]
    simp [h, eq_comm]
  · rw [if_neg h, get?_eq_some_iff]
    simp [h]

theorem get?_remove (k k' : κ) (m : AssocMap κ α) :
    (m.remove k).get? k' = if k' = k then none else m.get? k' := by
  apply Option.ext
  intro b
  rw [get?_eq_some_iff]
  by_cases h : k' = k
  · rw [if_pos h]
    simp [remove, h]
  · rw [if_neg h, get?_eq_some_iff]
    simp [remove, h]

end AssocMap

structure BiMap (α β : Type) where
  entries : List (α × β)
  nodupLeft : (entries.map Prod.fst).Nodup
  nodupRight : (entries.map Prod.snd).Nodup

namespace BiMap

variable {α β : Type}

def empty : BiMap α β := ⟨[], List.nodup_nil, List.nodup_nil⟩

def len (m : BiMap α β) : Nat := m.entries.length

def rightValues (m : BiMap α β) : List β := m.entries.map Prod.snd

variable [DecidableEq β]

def getByRight (m : BiMap α β) (b : β) : Option α :=
  (m.entries.find? (fun e => decide (e.2 = b))).map Prod.fst

def containsRight (m : BiMap α β) (b : β) : Bool := (m.getByRight b).isSome

theorem mem_of_getByRight {m : BiMap α β} {a : α} {b : β} (h : m.getByRight b = some a) :
    (a, b) ∈ m.entries := by
  obtain ⟨e, he, rfl⟩ := Option.map_eq_some_iff.mp h
  obtain rfl : e.2 = b := by simpa using List.find?_some he
  exact List.mem_of_find?_eq_some he

theorem getByRight_eq_none_iff {m : BiMap α β} {b : β} :
    m.getByRight b = none ↔ b ∉ m.rightValues := by
  simp only [getByRight, Option.map_eq_none_iff, List.find?_eq_none, decide_eq_true_eq,
    rightValues, List.mem_map, not_exists, not_and]

theorem containsRight_iff {m : BiMap α β} {b : β} :
    m.containsRight b = true ↔ b ∈ m.rightValues := by
  rw [containsRight, Option.isSome_iff_ne_none, ne_eq, getByRight_eq_none_iff, Classical.not_not]

variable [DecidableEq α]

/-- An entry with either value in the map is replaced. -/
def insert (a : α) (b : β) (m : BiMap α β) : BiMap α β where
  entries := m.entries.filter (fun e => decide (e.1 ≠ a ∧ e.2 ≠ b)) ++ [(a, b)]
  nodupLeft := by
    rw [List.map_append, List.nodup_append]
    refine ⟨(List.filter_sublist.map Prod.fst).nodup m.nodupLeft, by simp, ?_⟩
    intro x hx y hy
    obtain ⟨e, he, rfl⟩ := List.mem_map.mp hx
    have hne : e.1 ≠ a ∧ e.2 ≠ b := by simpa using (List.mem_filter.mp he).2
    rw [List.mem_singleton.mp hy]
    exact hne.1
  nodupRight := by
    rw [List.map_append, List.nodup_append]
    refine ⟨(List.filter_sublist.map Prod.snd).nodup m.nodupRight, by simp, ?_⟩
    intro x hx y hy
    obtain ⟨e, he, rfl⟩ := List.mem_map.mp hx
    have hne : e.1 ≠ a ∧ e.2 ≠ b := by simpa using (List.mem_filter.mp he).2
    rw [List.mem_singleton.mp hy]
    exact hne.2

theorem entries_insert_of_fresh {a : α} {b : β} {m : BiMap α β} (ha : a ∉ m.entries.map Prod.fst)
    (hb : b ∉ m.rightValues) : (m.insert a b).entries = m.entries ++ [(a, b)] := by
  have hfilter : m.entries.filter (fun e => decide (e.1 ≠ a ∧ e.2 ≠ b)) = m.entries := by
    rw [List.filter_eq_self]
    intro e he
    have h₁ : e.1 ≠ a := fun h => ha (List.mem_map.mpr ⟨e, he, h⟩)
    have h₂ : e.2 ≠ b := fun h => hb (List.mem_map.mpr ⟨e, he, h⟩)
    simp [h₁, h₂]
  simp only [insert, hfilter]

end BiMap

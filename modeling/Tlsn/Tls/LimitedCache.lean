import Mathlib.Data.List.Induction
import Mathlib.Data.List.Nodup
import Tlsn.Library.Assoc

/-!
The cache of sessions of the plain client: a map which never gets larger than the room
its queue of keys has, the first key of the queue being the oldest one.
-/

namespace Tlsn.Tls

structure LimitedCache (K V : Type) where
  map : AssocMap K V
  oldest : List K
  /-- The room allocated for the queue. -/
  capacity : Nat

namespace LimitedCache

variable {K V : Type} [DecidableEq K]

/-- A cache whose queue was given room for that many keys. -/
def new (capacity : Nat) : LimitedCache K V := ⟨.empty, [], capacity⟩

/-- A full queue allocates anew before it takes another key. -/
def insert (grow : Nat → Nat) (k : K) (v : V) (c : LimitedCache K V) : LimitedCache K V :=
  match c.map.get? k with
  | some _ => { c with map := c.map.insert k v }
  | none =>
      let capacity := if c.oldest.length = c.capacity then grow c.capacity else c.capacity
      let map := c.map.insert k v
      let oldest := c.oldest ++ [k]
      if capacity = oldest.length then
        match oldest with
        | [] => ⟨map, oldest, capacity⟩
        | oldestKey :: rest => ⟨map.remove oldestKey, rest, capacity⟩
      else ⟨map, oldest, capacity⟩

def get (k : K) (c : LimitedCache K V) : Option V := c.map.get? k

def remove (k : K) (c : LimitedCache K V) : Option V × LimitedCache K V :=
  match c.map.get? k with
  | some value => (some value, { c with map := c.map.remove k, oldest := c.oldest.erase k })
  | none => (none, c)

inductive Op (K V : Type) where
  | insert (k : K) (v : V)
  | remove (k : K)

def step (grow : Nat → Nat) (c : LimitedCache K V) : Op K V → LimitedCache K V
  | .insert k v => c.insert grow k v
  | .remove k => (c.remove k).2

def run (grow : Nat → Nat) (capacity : Nat) (ops : List (Op K V)) : LimitedCache K V :=
  ops.foldl (step grow) (new capacity)

/-- The map and the queue have the same keys, and the queue has room for another one. -/
structure Consistent (capacity : Nat) (c : LimitedCache K V) : Prop where
  keys : ∀ k, (c.get k).isSome ↔ k ∈ c.oldest
  nodup : c.oldest.Nodup
  room : c.oldest.length < capacity
  capacity_eq : c.capacity = capacity

variable {grow : Nat → Nat} {capacity : Nat} {c : LimitedCache K V}

theorem Consistent.new (h : 0 < capacity) : (new capacity : LimitedCache K V).Consistent capacity :=
  ⟨fun k => by simp [LimitedCache.new, get], List.nodup_nil, h, rfl⟩

theorem Consistent.get_eq_none (hc : c.Consistent capacity) {k : K} (h : k ∉ c.oldest) :
    c.map.get? k = none := by
  rw [← hc.keys k] at h
  simpa [get] using h

/-- An update changes a value only. -/
theorem insert_of_mem (hc : c.Consistent capacity) {k : K} (h : k ∈ c.oldest) (v : V) :
    c.insert grow k v = { c with map := c.map.insert k v } := by
  obtain ⟨old, hold⟩ := Option.isSome_iff_exists.mp ((hc.keys k).mpr h)
  rw [get] at hold
  simp only [insert, hold]

theorem insert_of_room (hc : c.Consistent capacity) {k : K} (h : k ∉ c.oldest)
    (hroom : c.oldest.length + 1 < capacity) (v : V) :
    c.insert grow k v = { c with map := c.map.insert k v, oldest := c.oldest ++ [k] } := by
  have hcap := hc.capacity_eq
  have hlen : (c.oldest ++ [k]).length = c.oldest.length + 1 := by simp
  have hold : ¬ c.oldest.length = c.capacity := by omega
  have hnew : ¬ c.capacity = (c.oldest ++ [k]).length := by omega
  simp only [insert, hc.get_eq_none h, if_neg hold, if_neg hnew]

/-- A key too many pushes the oldest one out. -/
theorem insert_of_full (hc : c.Consistent capacity) {k : K} (h : k ∉ c.oldest)
    (hfull : c.oldest.length + 1 = capacity) (v : V) {d : K} {rest : List K}
    (hd : c.oldest ++ [k] = d :: rest) :
    c.insert grow k v = { c with map := (c.map.insert k v).remove d, oldest := rest } := by
  have hcap := hc.capacity_eq
  have hlen : (c.oldest ++ [k]).length = c.oldest.length + 1 := by simp
  have hold : ¬ c.oldest.length = c.capacity := by omega
  have hnew : c.capacity = (c.oldest ++ [k]).length := by omega
  simp only [insert, hc.get_eq_none h, if_neg hold, if_pos hnew]
  simp only [hd]

theorem remove_of_mem (hc : c.Consistent capacity) {k : K} (h : k ∈ c.oldest) :
    (c.remove k).2 = { c with map := c.map.remove k, oldest := c.oldest.erase k } := by
  obtain ⟨old, hold⟩ := Option.isSome_iff_exists.mp ((hc.keys k).mpr h)
  rw [get] at hold
  simp only [remove, hold]

theorem remove_of_not_mem (hc : c.Consistent capacity) {k : K} (h : k ∉ c.oldest) :
    (c.remove k).2 = c := by
  simp only [remove, hc.get_eq_none h]

/-! ## One step -/

theorem Consistent.insert (hc : c.Consistent capacity) (grow : Nat → Nat) (k : K) (v : V) :
    (c.insert grow k v).Consistent capacity := by
  have hroom := hc.room
  by_cases hmem : k ∈ c.oldest
  · rw [insert_of_mem hc hmem]
    refine ⟨?_, hc.nodup, hc.room, hc.capacity_eq⟩
    intro k'
    rw [← hc.keys k']
    simp only [get, AssocMap.get?_insert]
    split
    · rename_i heq
      subst heq
      simpa [get] using (hc.keys k').mpr hmem
    · rfl
  have hnodup : (c.oldest ++ [k]).Nodup := by
    rw [List.nodup_append]
    refine ⟨hc.nodup, List.nodup_singleton k, ?_⟩
    intro a ha b hb
    rw [List.mem_singleton.mp hb]
    exact fun heq => hmem (heq ▸ ha)
  have hkeys (k' : K) : ((c.map.insert k v).get? k').isSome ↔ k' ∈ c.oldest ++ [k] := by
    rw [AssocMap.get?_insert, List.mem_append, List.mem_singleton, ← hc.keys k']
    split
    · rename_i heq
      simp [heq]
    · rename_i heq
      simp [get, heq]
  rcases Nat.lt_or_eq_of_le (Nat.succ_le_of_lt hroom) with hlt | hfull
  · rw [insert_of_room hc hmem hlt]
    exact ⟨hkeys, hnodup, by rw [List.length_append]; exact hlt, hc.capacity_eq⟩
  · obtain ⟨d, rest, hd⟩ : ∃ d rest, c.oldest ++ [k] = d :: rest :=
      List.exists_cons_of_ne_nil (by simp)
    rw [insert_of_full hc hmem hfull v hd]
    rw [hd] at hkeys hnodup
    obtain ⟨hdrest, hrest⟩ := List.nodup_cons.mp hnodup
    have hlen := congrArg List.length hd
    rw [List.length_append, List.length_singleton, List.length_cons] at hlen
    have hless : rest.length < capacity := by omega
    refine ⟨?_, hrest, hless, hc.capacity_eq⟩
    intro k'
    simp only [get, AssocMap.get?_remove]
    split
    · rename_i heq
      subst heq
      simp [hdrest]
    · rename_i heq
      rw [hkeys, List.mem_cons]
      simp [heq]

theorem Consistent.remove (hc : c.Consistent capacity) (k : K) :
    (c.remove k).2.Consistent capacity := by
  by_cases hmem : k ∈ c.oldest
  · rw [remove_of_mem hc hmem]
    refine ⟨?_, hc.nodup.erase k, ?_, hc.capacity_eq⟩
    · intro k'
      simp only [get, AssocMap.get?_remove]
      rw [hc.nodup.mem_erase_iff, ← hc.keys k']
      split
      · rename_i heq
        simp [heq]
      · rename_i heq
        simp [get, heq]
    · exact Nat.lt_of_le_of_lt List.erase_sublist.length_le hc.room
  · rw [remove_of_not_mem hc hmem]
    exact hc

theorem Consistent.step (hc : c.Consistent capacity) (grow : Nat → Nat) (op : Op K V) :
    (c.step grow op).Consistent capacity := by
  cases op with
  | insert k v => exact hc.insert grow k v
  | remove k => exact hc.remove k

theorem Consistent.run (h : 0 < capacity) (grow : Nat → Nat) (ops : List (Op K V)) :
    (run grow capacity ops).Consistent capacity := by
  induction ops using List.reverseRecOn with
  | nil => exact .new h
  | append_singleton ops op ih =>
      rw [LimitedCache.run, List.foldl_append]
      exact ih.step grow op

/-! ## Whole runs -/

theorem run_concat (grow : Nat → Nat) (capacity : Nat) (ops : List (Op K V)) (op : Op K V) :
    run grow capacity (ops ++ [op]) = (run grow capacity ops).step grow op := by
  rw [run, List.foldl_append]
  rfl

/-- The value of the last insertion of a key. -/
def latest (ops : List (Op K V)) (k : K) : Option V :=
  ops.reverse.findSome? fun op =>
    match op with
    | .insert k' v => if k' = k then some v else none
    | .remove _ => none

theorem latest_insert (ops : List (Op K V)) (k k' : K) (v : V) :
    latest (ops ++ [.insert k v]) k' = if k = k' then some v else latest ops k' := by
  rw [latest, List.reverse_append, List.reverse_singleton, List.singleton_append,
    List.findSome?_cons]
  by_cases h : k = k'
  · simp only [if_pos h]
  · simp only [if_neg h]
    rfl

theorem latest_remove (ops : List (Op K V)) (k k' : K) :
    latest (ops ++ [.remove k]) k' = latest ops k' := by
  rw [latest, List.reverse_append, List.reverse_singleton, List.singleton_append,
    List.findSome?_cons]
  rfl

/-- The operation at position `i` inserted the key, which has been live since then. -/
def Since (grow : Nat → Nat) (capacity : Nat) (ops : List (Op K V)) (k : K) (i : Nat) : Prop :=
  (∃ v, ops[i]? = some (.insert k v)) ∧ k ∉ (run grow capacity (ops.take i)).oldest ∧
    ∀ j, i < j → j ≤ ops.length → k ∈ (run grow capacity (ops.take j)).oldest

section

variable {ops : List (Op K V)} {op : Op K V} {k : K} {i : Nat}

theorem Since.lt (h : Since grow capacity ops k i) : i < ops.length := by
  obtain ⟨⟨v, hget⟩, _⟩ := h
  exact (List.getElem?_eq_some_iff.mp hget).1

theorem Since.le_of_since {j : Nat} (h : Since grow capacity ops k i)
    (h' : Since grow capacity ops k j) : j ≤ i := by
  obtain ⟨_, _, hsince⟩ := h
  apply Nat.le_of_not_lt
  intro hij
  exact h'.2.1 (hsince j hij (Nat.le_of_lt h'.lt))

theorem Since.concat (h : Since grow capacity ops k i)
    (hlive : k ∈ (run grow capacity (ops ++ [op])).oldest) :
    Since grow capacity (ops ++ [op]) k i := by
  have hlt := h.lt
  obtain ⟨⟨v, hget⟩, hnew, hsince⟩ := h
  refine ⟨⟨v, ?_⟩, ?_, ?_⟩
  · rw [List.getElem?_append_left hlt]
    exact hget
  · rw [List.take_append_of_le_length (Nat.le_of_lt hlt)]
    exact hnew
  · intro j hij hj
    rw [List.length_append, List.length_singleton] at hj
    rcases Nat.lt_or_eq_of_le hj with hle | heq
    · rw [List.take_append_of_le_length (Nat.le_of_lt_succ hle)]
      exact hsince j hij (Nat.le_of_lt_succ hle)
    · have hall : (ops ++ [op]).length ≤ j := by
        rw [List.length_append, List.length_singleton]
        exact Nat.le_of_eq heq.symm
      rw [List.take_of_length_le hall]
      exact hlive

theorem Since.of_insert {v : V} (hnew : k ∉ (run grow capacity ops).oldest)
    (hlive : k ∈ (run grow capacity (ops ++ [.insert k v])).oldest) :
    Since grow capacity (ops ++ [.insert k v]) k ops.length := by
  refine ⟨⟨v, by simp⟩, ?_, ?_⟩
  · rw [List.take_left' rfl]
    exact hnew
  · intro j hij hj
    rw [List.length_append, List.length_singleton] at hj
    have hall : (ops ++ [Op.insert k v]).length ≤ j := by
      rw [List.length_append, List.length_singleton]
      exact hij
    rw [List.take_of_length_le hall]
    exact hlive

end

/-- The keys of the list are live, and stand in the order in which they were inserted. -/
def Aged (grow : Nat → Nat) (capacity : Nat) (ops : List (Op K V)) (keys : List K) : Prop :=
  (∀ k ∈ keys, ∃ i, Since grow capacity ops k i) ∧
    keys.Pairwise fun k k' =>
      ∃ i j, Since grow capacity ops k i ∧ Since grow capacity ops k' j ∧ i < j

section

variable {ops : List (Op K V)} {op : Op K V}

/-- Keys which are dropped leave the others in order. -/
theorem Aged.sublist {keys keys' : List K} (h : Aged grow capacity ops keys)
    (hsub : keys'.Sublist keys)
    (hlive : ∀ k ∈ keys', k ∈ (run grow capacity (ops ++ [op])).oldest) :
    Aged grow capacity (ops ++ [op]) keys' := by
  constructor
  · intro k hk
    obtain ⟨i, hi⟩ := h.1 k (hsub.subset hk)
    exact ⟨i, hi.concat (hlive k hk)⟩
  · refine (h.2.sublist hsub).imp_of_mem ?_
    intro k k' hk hk' hpair
    obtain ⟨i, j, hi, hj, hij⟩ := hpair
    exact ⟨i, j, hi.concat (hlive k hk), hj.concat (hlive k' hk'), hij⟩

/-- A key which is inserted is the last one. -/
theorem Aged.snoc {keys keys' : List K} (h : Aged grow capacity ops keys)
    (hsub : keys'.Sublist keys) {k : K} {v : V} (hnew : k ∉ (run grow capacity ops).oldest)
    (hlive : ∀ k' ∈ keys' ++ [k], k' ∈ (run grow capacity (ops ++ [.insert k v])).oldest) :
    Aged grow capacity (ops ++ [.insert k v]) (keys' ++ [k]) := by
  have hkeys := h.sublist hsub fun k' hk' => hlive k' (List.mem_append_left _ hk')
  have hk := Since.of_insert hnew (hlive k (by simp))
  constructor
  · intro k' hk'
    rcases List.mem_append.mp hk' with hmem | hmem
    · exact hkeys.1 k' hmem
    · rw [List.mem_singleton.mp hmem]
      exact ⟨ops.length, hk⟩
  · rw [List.pairwise_append]
    refine ⟨hkeys.2, List.pairwise_singleton _ k, ?_⟩
    intro a ha b hb
    rw [List.mem_singleton.mp hb]
    obtain ⟨i, hi⟩ := h.1 a (hsub.subset ha)
    exact ⟨i, ops.length, hi.concat (hlive a (List.mem_append_left _ ha)), hk, hi.lt⟩

end

/-- The queue is in the order of insertion, and every key has its latest value. -/
structure Tracked (grow : Nat → Nat) (capacity : Nat) (ops : List (Op K V)) : Prop where
  aged : Aged grow capacity ops (run grow capacity ops).oldest
  value : ∀ k ∈ (run grow capacity ops).oldest, (run grow capacity ops).get k = latest ops k

section

variable {ops : List (Op K V)}

theorem Tracked.insert (hpos : 0 < capacity) (h : Tracked grow capacity ops) (k : K) (v : V) :
    Tracked grow capacity (ops ++ [.insert k v]) := by
  have hc := Consistent.run hpos grow ops
  have hvalue (k' : K) (hk' : k' = k ∨ k' ∈ (run grow capacity ops).oldest) :
      ((run grow capacity ops).map.insert k v).get? k' = latest (ops ++ [.insert k v]) k' := by
    rw [AssocMap.get?_insert, latest_insert]
    by_cases heq : k' = k
    · rw [if_pos heq, if_pos heq.symm]
    · rw [if_neg heq, if_neg (Ne.symm heq), ← h.value k' (hk'.resolve_left heq)]
      rfl
  have hrun := run_concat grow capacity ops (.insert k v)
  rw [step] at hrun
  by_cases hmem : k ∈ (run grow capacity ops).oldest
  · rw [insert_of_mem hc hmem] at hrun
    have holdest := congrArg LimitedCache.oldest hrun
    refine ⟨?_, ?_⟩
    · rw [holdest]
      exact h.aged.sublist (List.Sublist.refl _) fun k' hk' => holdest ▸ hk'
    · intro k' hk'
      rw [hrun] at hk' ⊢
      exact hvalue k' (.inr hk')
  rcases Nat.lt_or_eq_of_le (Nat.succ_le_of_lt hc.room) with hlt | hfull
  · rw [insert_of_room hc hmem hlt] at hrun
    have holdest := congrArg LimitedCache.oldest hrun
    refine ⟨?_, ?_⟩
    · rw [holdest]
      exact h.aged.snoc (List.Sublist.refl _) hmem fun k' hk' => holdest ▸ hk'
    · intro k' hk'
      rw [hrun] at hk' ⊢
      refine hvalue k' ?_
      simpa [or_comm] using hk'
  · obtain ⟨d, rest, hd⟩ : ∃ d rest, (run grow capacity ops).oldest ++ [k] = d :: rest :=
      List.exists_cons_of_ne_nil (by simp)
    rw [insert_of_full hc hmem hfull v hd] at hrun
    have holdest := congrArg LimitedCache.oldest hrun
    have hnext := Consistent.run hpos grow (ops ++ [.insert k v])
    refine ⟨?_, ?_⟩
    · rw [holdest]
      rcases List.append_eq_cons_iff.mp hd with ⟨hnil, hrest⟩ | ⟨old, hold, hrest⟩
      · cases hrest
        exact ⟨by simp, .nil⟩
      · rw [hrest] at holdest ⊢
        exact h.aged.snoc (hold ▸ List.sublist_cons_self d old) hmem fun k' hk' => holdest ▸ hk'
    · intro k' hk'
      have hne : k' ≠ d := by
        intro heq
        subst heq
        have hkey := (hnext.keys k').mpr hk'
        rw [hrun] at hkey
        simp [get, AssocMap.get?_remove] at hkey
      rw [hrun] at hk' ⊢
      simp only [get, AssocMap.get?_remove, if_neg hne]
      refine hvalue k' ?_
      have hmem' : k' ∈ (run grow capacity ops).oldest ++ [k] := hd ▸ List.mem_cons_of_mem d hk'
      simpa [or_comm] using hmem'

theorem Tracked.remove (hpos : 0 < capacity) (h : Tracked grow capacity ops) (k : K) :
    Tracked grow capacity (ops ++ [.remove k]) := by
  have hc := Consistent.run hpos grow ops
  have hrun := run_concat grow capacity ops (.remove k)
  rw [step] at hrun
  by_cases hmem : k ∈ (run grow capacity ops).oldest
  · rw [remove_of_mem hc hmem] at hrun
    have holdest := congrArg LimitedCache.oldest hrun
    refine ⟨?_, ?_⟩
    · rw [holdest]
      exact h.aged.sublist List.erase_sublist fun k' hk' => holdest ▸ hk'
    · intro k' hk'
      rw [hrun] at hk' ⊢
      obtain ⟨hne, hk'⟩ := hc.nodup.mem_erase_iff.mp hk'
      simp only [get, AssocMap.get?_remove, if_neg hne]
      rw [latest_remove]
      exact h.value k' hk'
  · rw [remove_of_not_mem hc hmem] at hrun
    have holdest := congrArg LimitedCache.oldest hrun
    refine ⟨?_, ?_⟩
    · rw [holdest]
      exact h.aged.sublist (List.Sublist.refl _) fun k' hk' => holdest ▸ hk'
    · intro k' hk'
      rw [hrun] at hk' ⊢
      rw [latest_remove]
      exact h.value k' hk'

theorem Tracked.run (hpos : 0 < capacity) (grow : Nat → Nat) (ops : List (Op K V)) :
    Tracked grow capacity ops := by
  induction ops using List.reverseRecOn with
  | nil =>
      refine ⟨⟨?_, .nil⟩, ?_⟩
      · simp [LimitedCache.run, LimitedCache.new]
      · simp [LimitedCache.run, LimitedCache.new]
  | append_singleton ops op ih =>
      cases op with
      | insert k v => exact ih.insert hpos k v
      | remove k => exact ih.remove hpos k

/-- A key which an operation drops was removed, or was the oldest when the queue filled up. -/
theorem dropped (hpos : 0 < capacity) {op : Op K V} {d : K}
    (hd : d ∈ (run grow capacity ops).oldest ∨ ∃ v, op = .insert d v)
    (hdrop : d ∉ ((run grow capacity ops).step grow op).oldest) :
    op = .remove d ∨
      ∃ k v, op = .insert k v ∧ k ∉ (run grow capacity ops).oldest ∧
        (run grow capacity ops).oldest.length + 1 = capacity ∧
        (((run grow capacity ops).oldest = [] ∧ d = k) ∨
          ∃ i, Since grow capacity ops d i ∧
            ∀ k' ∈ (run grow capacity ops).oldest, k' ≠ d →
              ∃ j, Since grow capacity ops k' j ∧ i < j) := by
  have hc := Consistent.run hpos grow ops
  have haged := (Tracked.run hpos grow ops).aged
  cases op with
  | remove k =>
      left
      obtain hlive | ⟨v, heq⟩ := hd
      · by_cases hmem : k ∈ (run grow capacity ops).oldest
        · rw [step, remove_of_mem hc hmem, hc.nodup.mem_erase_iff] at hdrop
          have hkd : d = k := Classical.byContradiction fun hne => hdrop ⟨hne, hlive⟩
          rw [hkd]
        · rw [step, remove_of_not_mem hc hmem] at hdrop
          exact absurd hlive hdrop
      · cases heq
  | insert k v =>
      right
      have hd : d ∈ (run grow capacity ops).oldest ++ [k] := by
        rw [List.mem_append, List.mem_singleton]
        refine hd.imp_right ?_
        rintro ⟨w, heq⟩
        cases heq
        rfl
      rw [step] at hdrop
      by_cases hmem : k ∈ (run grow capacity ops).oldest
      · rw [insert_of_mem hc hmem] at hdrop
        rw [List.mem_append, List.mem_singleton] at hd
        exact absurd (hd.elim id fun heq => heq ▸ hmem) hdrop
      rcases Nat.lt_or_eq_of_le (Nat.succ_le_of_lt hc.room) with hlt | hfull
      · rw [insert_of_room hc hmem hlt] at hdrop
        exact absurd hd hdrop
      refine ⟨k, v, rfl, hmem, hfull, ?_⟩
      obtain ⟨first, rest, hfirst⟩ : ∃ d rest, (run grow capacity ops).oldest ++ [k] = d :: rest :=
        List.exists_cons_of_ne_nil (by simp)
      rw [insert_of_full hc hmem hfull v hfirst] at hdrop
      rw [hfirst, List.mem_cons] at hd
      cases hd.resolve_right hdrop
      rcases List.append_eq_cons_iff.mp hfirst with ⟨hnil, hrest⟩ | ⟨old, hold, _⟩
      · cases hrest
        exact .inl ⟨hnil, rfl⟩
      · right
        rw [hold] at haged ⊢
        obtain ⟨hpair, _⟩ := List.pairwise_cons.mp haged.2
        obtain ⟨i, hi⟩ := haged.1 d List.mem_cons_self
        refine ⟨i, hi, ?_⟩
        intro k' hk' hne
        obtain ⟨i', j, hi', hj, hlt⟩ := hpair k' ((List.mem_cons.mp hk').resolve_left hne)
        exact ⟨j, hj, Nat.lt_of_le_of_lt (hi'.le_of_since hi) hlt⟩

end

/-- A removal returns the value, and drops its key and no other one. -/
theorem removed (hc : c.Consistent capacity) (k : K) :
    (c.remove k).1 = c.get k ∧
      ∀ k', k' ∈ (c.remove k).2.oldest ↔ k' ∈ c.oldest ∧ k' ≠ k := by
  constructor
  · rw [get, LimitedCache.remove]
    cases c.map.get? k <;> rfl
  · intro k'
    by_cases hmem : k ∈ c.oldest
    · rw [remove_of_mem hc hmem, hc.nodup.mem_erase_iff, and_comm]
    · rw [remove_of_not_mem hc hmem]
      exact ⟨fun h => ⟨h, fun heq => hmem (heq ▸ h)⟩, And.left⟩

/-- Over every run the map and the queue stay consistent, a lookup returns the latest
value, a removal drops its key, and a key is dropped only when it is removed or when it is
the oldest one. -/
theorem run_consistent (grow : Nat → Nat) {capacity : Nat} (hpos : 0 < capacity)
    (ops : List (Op K V)) :
    (∀ k, ((run grow capacity ops).get k).isSome ↔ k ∈ (run grow capacity ops).oldest) ∧
      (run grow capacity ops).oldest.Nodup ∧
      (run grow capacity ops).oldest.length < capacity ∧
      (run grow capacity ops).capacity = capacity ∧
      (∀ k ∈ (run grow capacity ops).oldest, (run grow capacity ops).get k = latest ops k) ∧
      (∀ k, ((run grow capacity ops).remove k).1 = (run grow capacity ops).get k ∧
        ∀ k', k' ∈ (run grow capacity (ops ++ [.remove k])).oldest ↔
          k' ∈ (run grow capacity ops).oldest ∧ k' ≠ k) ∧
      ∀ (op : Op K V) (d : K),
        (d ∈ (run grow capacity ops).oldest ∨ ∃ v, op = .insert d v) →
        d ∉ (run grow capacity (ops ++ [op])).oldest →
        op = .remove d ∨
          ∃ k v, op = .insert k v ∧ k ∉ (run grow capacity ops).oldest ∧
            (run grow capacity ops).oldest.length + 1 = capacity ∧
            (((run grow capacity ops).oldest = [] ∧ d = k) ∨
              ∃ i, Since grow capacity ops d i ∧
                ∀ k' ∈ (run grow capacity ops).oldest, k' ≠ d →
                  ∃ j, Since grow capacity ops k' j ∧ i < j) := by
  have hc := Consistent.run hpos grow ops
  refine ⟨hc.keys, hc.nodup, hc.room, hc.capacity_eq, (Tracked.run hpos grow ops).value, ?_, ?_⟩
  · intro k
    rw [run_concat]
    exact removed hc k
  · intro op d hd hdrop
    rw [run_concat] at hdrop
    exact dropped hpos hd hdrop

/-- In a queue with room for three keys the third one drops the first one, and the second one
is removed. -/
theorem run_consistent_sample :
    (run id 3 [.insert 0 true, .insert 1 true, .insert 0 false, .insert 2 true]).oldest = [1, 2] ∧
      (run id 3 [.insert 0 true, .insert 1 true, .insert 0 false,
        .insert 2 true]).oldest.length < 3 ∧
      1 ∉ (run id 3 ([.insert 0 true, .insert 1 true, .insert 0 false, .insert 2 true] ++
        [.remove 1])).oldest := by
  have hrun := run_consistent id (show 0 < 3 by decide) [.insert 0 true, .insert 1 true,
    .insert 0 false, .insert 2 true]
  refine ⟨by decide, hrun.2.2.1, fun h => ?_⟩
  exact ((hrun.2.2.2.2.2.1 1).2 1 |>.mp h).2 rfl

end LimitedCache

end Tlsn.Tls

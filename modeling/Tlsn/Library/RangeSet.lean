import Mathlib.Data.List.Sort

/-!
Finite sets of positions, as a range set presents them: the members in
increasing order, and the maximal runs of consecutive members. A set is
determined by its members, so the representation is canonical and two sets with
the same members are equal.
-/

/-- A half-open range of positions. -/
structure PosRange where
  start : Nat
  stop : Nat
deriving DecidableEq, Repr

namespace PosRange

def len (r : PosRange) : Nat := r.stop - r.start

def vals (r : PosRange) : List Nat := List.range' r.start r.len

@[simp] theorem length_vals (r : PosRange) : r.vals.length = r.len := by simp [vals]

theorem vals_cons (a : Nat) (r : PosRange) (hs : r.start = a + 1) (hr : r.start < r.stop) :
    PosRange.vals ⟨a, r.stop⟩ = a :: r.vals := by
  have hl : r.stop - a = (r.stop - r.start) + 1 := by omega
  simp only [vals, len, hl, List.range'_succ, hs]

/-- The part of a list at the positions of a range, as far as there are any. -/
def select {α : Type} (r : PosRange) (l : List α) : List α := (l.drop r.start).take r.len

def sub (r : PosRange) (k : Nat) : PosRange := ⟨r.start - k, r.stop - k⟩

theorem sub_sub (r : PosRange) (j k : Nat) : (r.sub j).sub k = r.sub (j + k) := by
  rw [sub, sub, sub, Nat.sub_sub, Nat.sub_sub]

theorem select_of_stop_le {α : Type} {r : PosRange} {k : Nat} (h : r.stop ≤ k) (l : List α) :
    (r.sub k).select l = [] := by
  have hlen : (r.sub k).len = 0 := by
    simp only [sub, len]
    omega
  rw [select, hlen, List.take_zero]

theorem select_range' (r : PosRange) (p n : Nat) :
    r.select (List.range' p n) = List.range' (p + r.start) (min r.len (n - r.start)) := by
  rw [select, List.drop_range', Nat.mul_one]
  cases Nat.le_total r.len (n - r.start) with
  | inl h => rw [List.take_range'_of_length_ge h, Nat.min_eq_left h]
  | inr h => rw [List.take_range'_of_length_le h, Nat.min_eq_right h]

theorem select_append {α : Type} (r : PosRange) (l m : List α) :
    r.select (l ++ m) = r.select l ++ (r.sub l.length).select m := by
  rw [select, select, select, List.drop_append, List.take_append, List.length_drop]
  congr 2
  simp only [sub, len]
  omega

theorem select_drop {α : Type} {r : PosRange} {k : Nat} (h : k ≤ r.start) (l : List α) :
    (r.sub k).select (l.drop k) = r.select l := by
  have hstart : k + (r.start - k) = r.start := Nat.add_sub_cancel' h
  have hlen : (r.sub k).len = r.len := by
    simp only [sub, len]
    omega
  rw [select, select, List.drop_drop, hlen, sub, hstart]

theorem map_some_select {α : Type} {r : PosRange} {l : List α} (h : r.stop ≤ l.length) :
    (r.select l).map some = r.vals.map fun p => l[p]? := by
  apply List.ext_getElem
  · simp only [select, List.length_map, List.length_take, List.length_drop, length_vals, len]
    omega
  · intro i _ hvals
    rw [List.length_map, length_vals, len] at hvals
    have hi : r.start + i < l.length := by omega
    simp [select, vals, List.getElem?_eq_getElem hi]

theorem drop_flatMap_mul {α β : Type} {f : α → List β} {n : Nat} (hf : ∀ a, (f a).length = n)
    (l : List α) (k : Nat) : (l.flatMap f).drop (k * n) = (l.drop k).flatMap f := by
  induction k generalizing l with
  | zero => simp
  | succ k ih =>
      cases l with
      | nil => simp
      | cons a l =>
          rw [List.flatMap_cons, Nat.succ_mul, Nat.add_comm, ← List.drop_drop, ← hf a,
            List.drop_left, hf a, ih l, List.drop_succ_cons]

theorem take_flatMap_mul {α β : Type} {f : α → List β} {n : Nat} (hf : ∀ a, (f a).length = n)
    (l : List α) (k : Nat) : (l.flatMap f).take (k * n) = (l.take k).flatMap f := by
  induction k generalizing l with
  | zero => simp
  | succ k ih =>
      cases l with
      | nil => simp
      | cons a l =>
          rw [List.flatMap_cons, Nat.succ_mul, Nat.add_comm, ← hf a, List.take_length_add_append,
            hf a, ih l, List.take_succ_cons, List.flatMap_cons]

/-- A range of elements, selected in a list where each of them has `n` entries. -/
theorem select_flatMap {α β : Type} {f : α → List β} {n : Nat} (hf : ∀ a, (f a).length = n)
    (r : PosRange) (l : List α) :
    PosRange.select ⟨r.start * n, r.stop * n⟩ (l.flatMap f) = (r.select l).flatMap f := by
  rw [select, select, len, len, drop_flatMap_mul hf, ← Nat.sub_mul, take_flatMap_mul hf]

def intersection (r s : PosRange) : Option PosRange :=
  if max r.start s.start < min r.stop s.stop then some ⟨max r.start s.start, min r.stop s.stop⟩
  else none

end PosRange

structure RangeSet where
  vals : List Nat
  sorted : vals.Pairwise (· < ·)
deriving DecidableEq

namespace RangeSet

instance : Membership Nat RangeSet := ⟨fun s n => n ∈ s.vals⟩

instance (n : Nat) (s : RangeSet) : Decidable (n ∈ s) :=
  inferInstanceAs (Decidable (n ∈ s.vals))

theorem mem_def {n : Nat} {s : RangeSet} : n ∈ s ↔ n ∈ s.vals := Iff.rfl

theorem ext {s t : RangeSet} (h : ∀ n, n ∈ s ↔ n ∈ t) : s = t := by
  obtain ⟨l, hl⟩ := s
  obtain ⟨m, hm⟩ := t
  have hperm : l.Perm m :=
    (List.perm_ext_iff_of_nodup (hl.imp Nat.ne_of_lt) (hm.imp Nat.ne_of_lt)).mpr h
  have : l = m := hperm.eq_of_pairwise (fun a b _ _ hab hba => absurd hba (Nat.lt_asymm hab)) hl hm
  subst this
  rfl

def empty : RangeSet := ⟨[], List.Pairwise.nil⟩

@[simp] theorem not_mem_empty (n : Nat) : n ∉ empty := List.not_mem_nil

def insertVal (x : Nat) : List Nat → List Nat
  | [] => [x]
  | y :: ys => if x < y then x :: y :: ys else if x = y then y :: ys else y :: insertVal x ys

@[simp] theorem mem_insertVal {x n : Nat} {l : List Nat} :
    n ∈ insertVal x l ↔ n = x ∨ n ∈ l := by
  induction l with
  | nil => simp [insertVal]
  | cons y ys ih =>
      simp only [insertVal]
      split
      · simp
      · split
        · rename_i h
          subst h
          simp
        · simp only [List.mem_cons, ih]
          tauto

theorem sorted_insertVal (x : Nat) (l : List Nat) (hl : l.Pairwise (· < ·)) :
    (insertVal x l).Pairwise (· < ·) := by
  induction l with
  | nil => simp [insertVal]
  | cons y ys ih =>
      obtain ⟨hy, hys⟩ := List.pairwise_cons.mp hl
      simp only [insertVal]
      split
      · rename_i h
        refine List.pairwise_cons.mpr ⟨?_, hl⟩
        intro z hz
        rcases List.mem_cons.mp hz with rfl | hz
        · exact h
        · exact Nat.lt_trans h (hy z hz)
      · split
        · exact hl
        · refine List.pairwise_cons.mpr ⟨?_, ih hys⟩
          intro z hz
          rcases mem_insertVal.mp hz with rfl | hz
          · omega
          · exact hy z hz

def insert (x : Nat) (s : RangeSet) : RangeSet :=
  ⟨insertVal x s.vals, sorted_insertVal x s.vals s.sorted⟩

@[simp] theorem mem_insert {x n : Nat} {s : RangeSet} : n ∈ insert x s ↔ n = x ∨ n ∈ s :=
  mem_insertVal

def ofList : List Nat → RangeSet
  | [] => empty
  | x :: xs => insert x (ofList xs)

@[simp] theorem mem_ofList {n : Nat} {l : List Nat} : n ∈ ofList l ↔ n ∈ l := by
  induction l with
  | nil => simp [ofList]
  | cons x xs ih => simp [ofList, ih]

def union (s t : RangeSet) : RangeSet := ofList (s.vals ++ t.vals)

@[simp] theorem mem_union {n : Nat} {s t : RangeSet} : n ∈ s.union t ↔ n ∈ s ∨ n ∈ t := by
  rw [union, mem_ofList, List.mem_append]
  rfl

theorem union_comm (s t : RangeSet) : s.union t = t.union s :=
  ext fun n => by rw [mem_union, mem_union, or_comm]

theorem union_assoc (s t u : RangeSet) : (s.union t).union u = s.union (t.union u) :=
  ext fun n => by rw [mem_union, mem_union, mem_union, mem_union, or_assoc]

theorem union_self (s : RangeSet) : s.union s = s :=
  ext fun n => by rw [mem_union, or_self]

def difference (s t : RangeSet) : RangeSet :=
  ⟨s.vals.filter (fun n => decide (n ∉ t.vals)), s.sorted.filter _⟩

@[simp] theorem mem_difference {n : Nat} {s t : RangeSet} :
    n ∈ s.difference t ↔ n ∈ s ∧ n ∉ t := by
  simp [difference, mem_def]

/-- The positions of a set that none of the others has. -/
theorem difference_of_disjoint {s t : RangeSet} (h : ∀ n ∈ s, n ∉ t) : s.difference t = s := by
  apply ext
  intro n
  rw [mem_difference]
  exact and_iff_left_of_imp (h n)

def differenceAll (s : RangeSet) (ts : List RangeSet) : RangeSet := ts.foldl difference s

@[simp] theorem mem_differenceAll {n : Nat} {s : RangeSet} {ts : List RangeSet} :
    n ∈ s.differenceAll ts ↔ n ∈ s ∧ ∀ t ∈ ts, n ∉ t := by
  induction ts generalizing s with
  | nil => simp [differenceAll]
  | cons t ts ih =>
      rw [differenceAll, List.foldl_cons, ← differenceAll, ih, mem_difference,
        List.forall_mem_cons, and_assoc]

/-- The positions of one range. -/
def ofRange (r : PosRange) : RangeSet := ⟨r.vals, List.pairwise_lt_range'⟩

@[simp] theorem mem_ofRange {n : Nat} {r : PosRange} :
    n ∈ ofRange r ↔ r.start ≤ n ∧ n < r.stop := by
  simp only [mem_def, ofRange, PosRange.vals, List.mem_range'_1, PosRange.len]
  omega

def isSubset (s t : RangeSet) : Bool := s.vals.all (fun n => decide (n ∈ t.vals))

theorem isSubset_iff {s t : RangeSet} : s.isSubset t = true ↔ ∀ n, n ∈ s → n ∈ t := by
  simp [isSubset, mem_def]

def isEmpty (s : RangeSet) : Bool := s.vals.isEmpty

theorem isEmpty_iff {s : RangeSet} : s.isEmpty = true ↔ ∀ n, n ∉ s := by
  simp [isEmpty, mem_def, List.eq_nil_iff_forall_not_mem]

def len (s : RangeSet) : Nat := s.vals.length

/-- The end of the last range, not included; zero for the empty set. -/
def stop (s : RangeSet) : Nat := (s.vals.getLast?.map (· + 1)).getD 0

theorem stop_le_iff {s : RangeSet} {k : Nat} : s.stop ≤ k ↔ ∀ n, n ∈ s → n < k := by
  obtain ⟨l, hl⟩ := s
  rcases List.eq_nil_or_concat l with rfl | ⟨init, last, rfl⟩
  · simp [stop, mem_def]
  · have hinit : ∀ n ∈ init, n < last := by
      intro n hn
      exact (List.pairwise_append.mp (by simpa using hl)).2.2 n hn last (by simp)
    simp only [stop, mem_def, List.concat_eq_append, List.getLast?_append, List.getLast?_singleton,
      Option.some_or, Option.map_some, Option.getD_some, List.mem_append, List.mem_singleton]
    constructor
    · rintro h n (hn | rfl)
      · exact Nat.lt_trans (hinit n hn) h
      · exact h
    · intro h
      exact h last (Or.inr rfl)

theorem union_stop_le_iff {s t : RangeSet} {k : Nat} :
    (s.union t).stop ≤ k ↔ s.stop ≤ k ∧ t.stop ≤ k := by
  simp only [stop_le_iff, mem_union, or_imp, forall_and]

theorem stop_le_of_subset {s t : RangeSet} {k : Nat} (hst : ∀ n ∈ s, n ∈ t) (ht : t.stop ≤ k) :
    s.stop ≤ k :=
  stop_le_iff.mpr fun n hn => stop_le_iff.mp ht n (hst n hn)

theorem difference_stop_le {s t : RangeSet} : (s.difference t).stop ≤ s.stop := by
  rw [stop_le_iff]
  intro n hn
  exact stop_le_iff.mp (Nat.le_refl _) n (mem_difference.mp hn).1

theorem ofRange_difference_stop_le {r : PosRange} {t : RangeSet} {k : Nat} (h : r.stop ≤ k) :
    ((ofRange r).difference t).stop ≤ k := by
  rw [stop_le_iff]
  intro n hn
  exact Nat.lt_of_lt_of_le (mem_ofRange.mp (mem_difference.mp hn).1).2 h

theorem len_le_of_stop_le {s : RangeSet} {k : Nat} (h : s.stop ≤ k) : s.len ≤ k := by
  have hsub : s.vals ⊆ List.range k := fun n hn => List.mem_range.mpr (stop_le_iff.mp h n hn)
  have hle := (List.subperm_of_subset (s.sorted.imp Nat.ne_of_lt) hsub).length_le
  rwa [List.length_range] at hle

theorem lt_stop {s : RangeSet} {n : Nat} (h : n ∈ s) : n < s.stop :=
  stop_le_iff.mp (Nat.le_refl _) n h

/-- Maximal runs of consecutive positions. -/
def runs : List Nat → List PosRange
  | [] => []
  | x :: xs =>
      match runs xs with
      | [] => [⟨x, x + 1⟩]
      | r :: rs => if r.start = x + 1 then ⟨x, r.stop⟩ :: rs else ⟨x, x + 1⟩ :: r :: rs

theorem runs_nonempty (l : List Nat) : ∀ r ∈ runs l, r.start < r.stop := by
  induction l with
  | nil => simp [runs]
  | cons x xs ih =>
      intro r hr
      simp only [runs] at hr
      cases hxs : runs xs with
      | nil =>
          rw [hxs] at hr
          rw [List.mem_singleton.mp hr]
          exact Nat.lt_succ_self x
      | cons q qs =>
          rw [hxs] at hr ih
          dsimp only at hr
          have hq : q.start < q.stop := ih q (by simp)
          split at hr
          · rcases List.mem_cons.mp hr with rfl | hr
            · dsimp only
              omega
            · exact ih r (by simp [hr])
          · rcases List.mem_cons.mp hr with rfl | hr
            · exact Nat.lt_succ_self x
            · exact ih r hr

/-- Reading the runs from left to right reads the positions back. -/
theorem flatMap_runs (l : List Nat) : (runs l).flatMap PosRange.vals = l := by
  induction l with
  | nil => rfl
  | cons x xs ih =>
      simp only [runs]
      cases hxs : runs xs with
      | nil =>
          rw [hxs] at ih
          rw [← ih]
          simp [PosRange.vals, PosRange.len]
      | cons q qs =>
          have hq : q.start < q.stop := runs_nonempty xs q (by simp [hxs])
          rw [hxs] at ih
          dsimp only
          split
          · rename_i h
            rw [List.flatMap_cons, PosRange.vals_cons x q h hq, List.cons_append,
              ← List.flatMap_cons, ih]
          · rw [List.flatMap_cons, ih]
            simp [PosRange.vals, PosRange.len]

def iterRanges (s : RangeSet) : List PosRange := runs s.vals

theorem flatMap_iterRanges (s : RangeSet) : s.iterRanges.flatMap PosRange.vals = s.vals :=
  flatMap_runs s.vals

theorem runs_range' (a n : Nat) : runs (List.range' a (n + 1)) = [⟨a, a + (n + 1)⟩] := by
  induction n generalizing a with
  | zero => rfl
  | succ n ih =>
      have hrest := ih (a + 1)
      rw [List.range'_succ, runs, hrest]
      dsimp only
      rw [if_pos rfl]
      congr 2
      omega

theorem iterRanges_ofRange {r : PosRange} (h : r.start < r.stop) :
    (ofRange r).iterRanges = [r] := by
  have hlen : r.len = r.stop - r.start - 1 + 1 := by
    rw [PosRange.len]
    omega
  have hstop : r.start + (r.stop - r.start - 1 + 1) = r.stop := by omega
  change runs (List.range' r.start r.len) = [r]
  rw [hlen, runs_range', hstop]

theorem stop_le_of_mem_iterRanges {s : RangeSet} {r : PosRange} (hr : r ∈ s.iterRanges) :
    r.start < r.stop ∧ r.stop ≤ s.stop := by
  have hlt : r.start < r.stop := runs_nonempty s.vals r hr
  refine ⟨hlt, ?_⟩
  have hmem : r.stop - 1 ∈ s := by
    rw [mem_def, ← s.flatMap_iterRanges, List.mem_flatMap]
    refine ⟨r, hr, ?_⟩
    rw [PosRange.vals, List.mem_range'_1, PosRange.len]
    omega
  have := lt_stop hmem
  omega

theorem stop_le_iff_forall_ranges {s : RangeSet} {k : Nat} :
    s.stop ≤ k ↔ ∀ r ∈ s.iterRanges, r.stop ≤ k := by
  constructor
  · intro h r hr
    exact Nat.le_trans (stop_le_of_mem_iterRanges hr).2 h
  · intro h
    rw [stop_le_iff]
    intro n hn
    rw [mem_def, ← s.flatMap_iterRanges, List.mem_flatMap] at hn
    obtain ⟨r, hr, hn⟩ := hn
    rw [PosRange.vals, List.mem_range'_1, PosRange.len] at hn
    have := h r hr
    omega

/-- The ranges are in increasing order, and do not overlap. -/
theorem iterRanges_pairwise (s : RangeSet) :
    s.iterRanges.Pairwise fun r t => r.stop ≤ t.start := by
  have hsorted := s.sorted
  rw [← s.flatMap_iterRanges, List.pairwise_flatMap] at hsorted
  apply hsorted.2.imp_of_mem
  intro r t hr ht h
  have hrne := (stop_le_of_mem_iterRanges hr).1
  have htne := (stop_le_of_mem_iterRanges ht).1
  have hlast : r.stop - 1 ∈ r.vals := by
    rw [PosRange.vals, List.mem_range'_1, PosRange.len]
    omega
  have hfirst : t.start ∈ t.vals := by
    rw [PosRange.vals, List.mem_range'_1, PosRange.len]
    omega
  have := h _ hlast _ hfirst
  omega

end RangeSet

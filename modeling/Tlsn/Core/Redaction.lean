import Tlsn.Core.PartialTranscript

/-!
Edits of a partial transcript: merging another one, and overwriting what is not
authenticated. No sequence of edits changes a byte once it is authenticated, and
only merging authenticates bytes.
-/

namespace Tlsn.Core

/-- `dest[range].fill(value)`, for the ranges of an index. -/
def fillRanges {ε : Type} (value : UInt8) (idx : Idx) (dest : List UInt8) :
    Except (Fault ε) (List UInt8) :=
  copyRanges (fun r _ => List.replicate r.len value) idx.iterRanges 0 dest

theorem fillRanges_eq {ε : Type} (value : UInt8) (idx : Idx) (dest : List UInt8)
    (hstop : idx.stop ≤ dest.length) :
    ∃ dest', (fillRanges value idx dest : Except (Fault ε) _) = .ok dest' ∧
      dest'.length = dest.length ∧ ∀ p, dest'[p]? = if p ∈ idx then some value else dest[p]? := by
  have hranges : ∀ r ∈ idx.iterRanges, r.start < r.stop ∧ r.stop ≤ dest.length := by
    intro r hr
    obtain ⟨h₁, h₂⟩ := RangeSet.stop_le_of_mem_iterRanges hr
    exact ⟨h₁, Nat.le_trans h₂ hstop⟩
  obtain ⟨d, hd, hl, hp⟩ := copyRanges_eq (ε := ε) (fun _ => value)
    (fun r _ => List.replicate r.len value) idx.iterRanges 0 dest hranges
    (fun pre r post _ => by simp)
  refine ⟨d, hd, hl, ?_⟩
  intro p
  rw [hp p, idx.flatMap_iterRanges]
  rfl

/-- A range whose ends are in order: any other one is no range of bytes. -/
abbrev OrderedRange : Type := { range : PosRange // range.start ≤ range.stop }

namespace PartialTranscript

def sentUnauthed (t : PartialTranscript) : Idx :=
  (RangeSet.ofRange ⟨0, t.sent.length⟩).difference t.sentAuthedIdx

def receivedUnauthed (t : PartialTranscript) : Idx :=
  (RangeSet.ofRange ⟨0, t.received.length⟩).difference t.receivedAuthedIdx

def setUnauthed {ε : Type} (t : PartialTranscript) (value : UInt8) :
    Except (Fault ε) PartialTranscript := do
  let sent ← fillRanges value t.sentUnauthed t.sent
  let received ← fillRanges value t.receivedUnauthed t.received
  return { t with sent := sent, received := received }

def setUnauthedRange {ε : Type} (t : PartialTranscript) (value : UInt8) (direction : Direction)
    (range : OrderedRange) : Except (Fault ε) PartialTranscript :=
  match direction with
  | .sent => do
      let sent ← fillRanges value ((RangeSet.ofRange range.1).difference t.sentAuthedIdx) t.sent
      return { t with sent := sent }
  | .received => do
      let received ←
        fillRanges value ((RangeSet.ofRange range.1).difference t.receivedAuthedIdx) t.received
      return { t with received := received }

/-- `t'` is `t` with the value at the positions in `target`, and as authenticated as `t`. -/
def Overwrites (target : Direction → Nat → Prop) (value : UInt8) (t t' : PartialTranscript) :
    Prop :=
  ∀ d, t'.authed d = t.authed d ∧ (t'.ofDirection d).length = (t.ofDirection d).length ∧
    ∀ p, (target d p → (t'.ofDirection d)[p]? = some value) ∧
      (¬ target d p → (t'.ofDirection d)[p]? = (t.ofDirection d)[p]?)

/-- The positions which are not authenticated. -/
def Unauthed (t : PartialTranscript) (d : Direction) (p : Nat) : Prop :=
  p < (t.ofDirection d).length ∧ p ∉ t.authed d

/-- The positions of a range, in one direction, which are not authenticated. -/
def UnauthedIn (t : PartialTranscript) (direction : Direction) (range : PosRange)
    (d : Direction) (p : Nat) : Prop :=
  d = direction ∧ range.start ≤ p ∧ p < range.stop ∧ p ∉ t.authed d

theorem fillDifference_eq {ε : Type} (value : UInt8) (range : PosRange) (authed : Idx)
    (dest : List UInt8)
    (hstop : ((RangeSet.ofRange range).difference authed).stop ≤ dest.length) :
    ∃ dest', (fillRanges value ((RangeSet.ofRange range).difference authed) dest :
        Except (Fault ε) _) = .ok dest' ∧ dest'.length = dest.length ∧
      ∀ p, (range.start ≤ p ∧ p < range.stop ∧ p ∉ authed → dest'[p]? = some value) ∧
        (¬ (range.start ≤ p ∧ p < range.stop ∧ p ∉ authed) → dest'[p]? = dest[p]?) := by
  obtain ⟨d, hd, hl, hp⟩ := fillRanges_eq (ε := ε) value _ dest hstop
  refine ⟨d, hd, hl, ?_⟩
  intro p
  rw [hp p]
  simp only [RangeSet.mem_difference, RangeSet.mem_ofRange, and_assoc]
  exact ⟨fun h => if_pos h, fun h => if_neg h⟩

theorem setUnauthed_eq {ε : Type} (t : PartialTranscript) (value : UInt8) :
    ∃ t', (t.setUnauthed value : Except (Fault ε) _) = .ok t' ∧
      Overwrites t.Unauthed value t t' := by
  obtain ⟨sent, hs, hsent⟩ := fillDifference_eq (ε := ε) value ⟨0, t.sent.length⟩ t.sentAuthedIdx
    t.sent (RangeSet.ofRange_difference_stop_le (Nat.le_refl _))
  obtain ⟨received, hr, hreceived⟩ := fillDifference_eq (ε := ε) value ⟨0, t.received.length⟩
    t.receivedAuthedIdx t.received (RangeSet.ofRange_difference_stop_le (Nat.le_refl _))
  refine ⟨{ t with sent := sent, received := received },
    Fault.bind_ok_iff.mpr ⟨sent, hs, Fault.bind_ok_iff.mpr ⟨received, hr, rfl⟩⟩, ?_⟩
  intro d
  cases d with
  | sent => exact ⟨rfl, by simpa [Unauthed, ofDirection, authed] using hsent⟩
  | received => exact ⟨rfl, by simpa [Unauthed, ofDirection, authed] using hreceived⟩

theorem setUnauthedRange_eq {ε : Type} (t : PartialTranscript) (value : UInt8)
    (direction : Direction) (range : OrderedRange)
    (hstop : ((RangeSet.ofRange range.1).difference (t.authed direction)).stop ≤
      (t.ofDirection direction).length) :
    ∃ t', (t.setUnauthedRange value direction range : Except (Fault ε) _) = .ok t' ∧
      Overwrites (t.UnauthedIn direction range.1) value t t' := by
  obtain ⟨data, hdata, hfill⟩ := fillDifference_eq (ε := ε) value range.1 (t.authed direction)
    (t.ofDirection direction) hstop
  cases direction with
  | sent =>
      refine ⟨{ t with sent := data }, Fault.bind_ok_iff.mpr ⟨data, hdata, rfl⟩, ?_⟩
      intro d
      cases d with
      | sent => exact ⟨rfl, by simpa [UnauthedIn, ofDirection, authed] using hfill⟩
      | received => exact ⟨rfl, rfl, fun p => ⟨fun h => (by cases h.1), fun _ => rfl⟩⟩
  | received =>
      refine ⟨{ t with received := data }, Fault.bind_ok_iff.mpr ⟨data, hdata, rfl⟩, ?_⟩
      intro d
      cases d with
      | sent => exact ⟨rfl, rfl, fun p => ⟨fun h => (by cases h.1), fun _ => rfl⟩⟩
      | received => exact ⟨rfl, by simpa [UnauthedIn, ofDirection, authed] using hfill⟩

/-- A range which is filled is within bounds, as far as it is not authenticated. -/
theorem of_setUnauthedRange {ε : Type} {t t' : PartialTranscript} {value : UInt8}
    {direction : Direction} {range : OrderedRange}
    (h : (t.setUnauthedRange value direction range : Except (Fault ε) _) = .ok t') :
    ((RangeSet.ofRange range.1).difference (t.authed direction)).stop ≤
      (t.ofDirection direction).length := by
  cases direction with
  | sent =>
      obtain ⟨data, hdata, -⟩ := Fault.bind_ok_iff.mp h
      exact idx_stop_le_of_copyRanges _ hdata
  | received =>
      obtain ⟨data, hdata, -⟩ := Fault.bind_ok_iff.mp h
      exact idx_stop_le_of_copyRanges _ hdata

end PartialTranscript

inductive Edit where
  | unionTranscript (other : PartialTranscript)
  | setUnauthed (value : UInt8)
  | setUnauthedRange (value : UInt8) (direction : Direction) (range : OrderedRange)

namespace Edit

open PartialTranscript

def apply {ε : Type} (t : PartialTranscript) : Edit → Except (Fault ε) PartialTranscript
  | .unionTranscript other => t.unionTranscript other
  | .setUnauthed value => t.setUnauthed value
  | .setUnauthedRange value direction range => t.setUnauthedRange value direction range

def applyAll {ε : Type} (edits : List Edit) (t : PartialTranscript) :
    Except (Fault ε) PartialTranscript :=
  edits.foldlM apply t

/-- What an edit authenticates. -/
def merged : Edit → Direction → Idx
  | .unionTranscript other => other.authed
  | .setUnauthed _ => fun _ => RangeSet.empty
  | .setUnauthedRange _ _ _ => fun _ => RangeSet.empty

/-- A partial transcript of equal lengths, which marks no byte outside them, or a range
within bounds. -/
def Admissible (t : PartialTranscript) : Edit → Prop
  | .unionTranscript other => ∀ d,
      (t.ofDirection d).length = (other.ofDirection d).length ∧
        (other.authed d).stop ≤ (other.ofDirection d).length
  | .setUnauthed _ => True
  | .setUnauthedRange _ direction range => range.1.stop ≤ (t.ofDirection direction).length

/-- Authenticated bytes stay, and more are authenticated. -/
structure Extends (merged : Direction → Nat → Prop) (t t' : PartialTranscript) : Prop where
  length : ∀ d, (t'.ofDirection d).length = (t.ofDirection d).length
  kept : ∀ d p, p ∈ t.authed d → (t'.ofDirection d)[p]? = (t.ofDirection d)[p]?
  grown : ∀ d p, p ∈ t'.authed d ↔ p ∈ t.authed d ∨ merged d p

theorem extends_of_overwrites {target : Direction → Nat → Prop} {value : UInt8}
    {t t' : PartialTranscript} (h : Overwrites target value t t')
    (htarget : ∀ d p, p ∈ t.authed d → ¬ target d p) :
    Extends (fun _ _ => False) t t' where
  length d := (h d).2.1
  kept d p hp := ((h d).2.2 p).2 (htarget d p hp)
  grown d p := by rw [(h d).1, or_false]

/-- What one edit does. -/
theorem apply_extends {ε : Type} {e : Edit} {t t' : PartialTranscript}
    (h : (e.apply t : Except (Fault ε) _) = .ok t') :
    Extends (fun d p => p ∈ e.merged d) t t' := by
  cases e with
  | unionTranscript other =>
      obtain ⟨t'', ht'', hunion⟩ := unionTranscript_eq (ε := ε) t other
        (fun d => (of_unionTranscript h d).1) (fun d => (of_unionTranscript h d).2)
      have heq : t.unionTranscript other = .ok t' := h
      rw [heq] at ht''
      cases ht''
      constructor
      · exact fun d => (hunion d).2.1
      · intro d p hp
        rw [(hunion d).2.2 p, if_neg (fun h => h.2 hp)]
      · intro d p
        rw [(hunion d).1, RangeSet.mem_union]
        rfl
  | setUnauthed value =>
      obtain ⟨t'', ht'', hover⟩ := setUnauthed_eq (ε := ε) t value
      have heq : t.setUnauthed value = .ok t' := h
      rw [heq] at ht''
      cases ht''
      simpa [merged] using extends_of_overwrites hover (fun d p hp h => h.2 hp)
  | setUnauthedRange value direction range =>
      obtain ⟨t'', ht'', hover⟩ := setUnauthedRange_eq (ε := ε) t value direction range
        (of_setUnauthedRange h)
      have heq : t.setUnauthedRange value direction range = .ok t' := h
      rw [heq] at ht''
      cases ht''
      simpa [merged] using extends_of_overwrites hover (fun d p hp h => h.2.2.2 hp)

theorem apply_ok {ε : Type} {e : Edit} {t : PartialTranscript} (h : e.Admissible t) :
    ∃ t', (e.apply t : Except (Fault ε) _) = .ok t' := by
  cases e with
  | unionTranscript other =>
      obtain ⟨t', ht', -⟩ := unionTranscript_eq (ε := ε) t other (fun d => (h d).1)
        (fun d => Nat.le_trans RangeSet.difference_stop_le (h d).2)
      exact ⟨t', ht'⟩
  | setUnauthed value =>
      obtain ⟨t', ht', -⟩ := setUnauthed_eq (ε := ε) t value
      exact ⟨t', ht'⟩
  | setUnauthedRange value direction range =>
      obtain ⟨t', ht', -⟩ := setUnauthedRange_eq (ε := ε) t value direction range
        (RangeSet.ofRange_difference_stop_le h)
      exact ⟨t', ht'⟩

/-- Admissible is what fits the lengths, which no edit changes. -/
theorem Admissible.extends {e : Edit} {merged : Direction → Nat → Prop} {t t' : PartialTranscript}
    (h : e.Admissible t) (ht : Extends merged t t') : e.Admissible t' := by
  cases e with
  | unionTranscript other => exact fun d => ⟨(ht.length d).trans (h d).1, (h d).2⟩
  | setUnauthed value => trivial
  | setUnauthedRange value direction range =>
      have hlen : range.1.stop ≤ (t.ofDirection direction).length := h
      rwa [← ht.length] at hlen

theorem applyAll_extends {ε : Type} (edits : List Edit) {t t' : PartialTranscript}
    (h : (applyAll edits t : Except (Fault ε) _) = .ok t') :
    Extends (fun d p => ∃ e ∈ edits, p ∈ e.merged d) t t' := by
  induction edits generalizing t with
  | nil =>
      cases h
      exact ⟨fun d => rfl, fun d p _ => rfl, fun d p => by simp⟩
  | cons e edits ih =>
      obtain ⟨m, hm, hrest⟩ := Fault.bind_ok_iff.mp h
      have hone := apply_extends hm
      have hall := ih hrest
      constructor
      · exact fun d => (hall.length d).trans (hone.length d)
      · intro d p hp
        rw [hall.kept d p ((hone.grown d p).mpr (.inl hp)), hone.kept d p hp]
      · intro d p
        rw [hall.grown, hone.grown, or_assoc]
        simp only [List.mem_cons, exists_eq_or_imp]

theorem applyAll_ok {ε : Type} (edits : List Edit) {t : PartialTranscript}
    (h : ∀ e ∈ edits, e.Admissible t) :
    ∃ t', (applyAll edits t : Except (Fault ε) _) = .ok t' := by
  induction edits generalizing t with
  | nil => exact ⟨t, rfl⟩
  | cons e edits ih =>
      obtain ⟨m, hm⟩ := apply_ok (ε := ε) (h e List.mem_cons_self)
      obtain ⟨t', ht'⟩ := ih fun e' he' =>
        (h e' (List.mem_cons_of_mem e he')).extends (apply_extends hm)
      exact ⟨t', Fault.bind_ok_iff.mpr ⟨m, hm, ht'⟩⟩

/-- Whatever edits follow, the bytes which are authenticated at some moment stay as they
are; and what is overwritten is exactly what is not authenticated. -/
theorem authed_immutable {ε : Type} (t : PartialTranscript) :
    (∀ (before after : List Edit) (m t' : PartialTranscript),
      (applyAll before t : Except (Fault ε) _) = .ok m →
      (applyAll after m : Except (Fault ε) _) = .ok t' →
      ∀ d, (∀ p, p ∈ m.authed d → (t'.ofDirection d)[p]? = (m.ofDirection d)[p]?) ∧
        ∀ p, p ∈ t'.authed d ↔ p ∈ m.authed d ∨ ∃ e ∈ after, p ∈ e.merged d) ∧
    (∀ edits : List Edit, (∀ e ∈ edits, e.Admissible t) →
      ∃ t', (applyAll edits t : Except (Fault ε) _) = .ok t') ∧
    (∀ value, ∃ t', (t.setUnauthed value : Except (Fault ε) _) = .ok t' ∧
      Overwrites t.Unauthed value t t') ∧
    ∀ value direction (range : OrderedRange), range.1.stop ≤ (t.ofDirection direction).length →
      ∃ t', (t.setUnauthedRange value direction range : Except (Fault ε) _) = .ok t' ∧
        Overwrites (t.UnauthedIn direction range.1) value t t' := by
  refine ⟨?_, fun edits => applyAll_ok edits, setUnauthed_eq t, ?_⟩
  · intro before after m t' _ hafter d
    have hextends := applyAll_extends after hafter
    exact ⟨hextends.kept d, hextends.grown d⟩
  · intro value direction range hstop
    exact setUnauthedRange_eq t value direction range (RangeSet.ofRange_difference_stop_le hstop)

def sampleAuthed : PartialTranscript := ⟨[7, 0, 0], [], RangeSet.ofRange ⟨0, 1⟩, RangeSet.empty⟩

def sampleRedacted : PartialTranscript := { sampleAuthed with sent := [7, 8, 9] }

/-- All bytes that are not authenticated are set, then the first two of them are set again. -/
theorem authed_immutable_sample :
    (sampleRedacted.ofDirection .sent)[0]? = (sampleAuthed.ofDirection .sent)[0]? :=
  ((authed_immutable (ε := Empty) (PartialTranscript.new 3 0)).1 [.unionTranscript sampleAuthed]
    [.setUnauthed 9, .setUnauthedRange 8 .sent ⟨⟨0, 2⟩, by decide⟩] sampleAuthed sampleRedacted
    rfl rfl .sent).1 0 (by decide)

end Edit

end Tlsn.Core

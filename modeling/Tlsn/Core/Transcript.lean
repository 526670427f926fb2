import Mathlib.Algebra.Group.Nat.Defs
import Tlsn.Library.Fault
import Tlsn.Library.RangeSet

/-!
Transcripts, subsequences and partial transcripts. Indices are canonical range
sets; the loops over their ranges, with the offset into the data of a
subsequence, are those of the source. A copy outside the bounds of its
destination aborts.
-/

namespace Tlsn.Core

inductive Direction where
  | sent
  | received
deriving DecidableEq, Repr

abbrev Idx := RangeSet

/-- Byte counts of a transcript, 32 bits each. -/
structure TranscriptLength where
  sent : UInt32
  received : UInt32
deriving DecidableEq

def TranscriptLength.ofDirection (l : TranscriptLength) : Direction → Nat
  | .sent => l.sent.toNat
  | .received => l.received.toNat

theorem TranscriptLength.ofDirection_lt (l : TranscriptLength) (d : Direction) :
    l.ofDirection d < 2 ^ 32 := by
  cases d with
  | sent => exact l.sent.toNat_lt
  | received => exact l.received.toNat_lt

structure Subsequence where
  idx : Idx
  data : List UInt8
  len_eq : idx.len = data.length
deriving DecidableEq

inductive InvalidSubsequence where
  | lengthMismatch
deriving DecidableEq

def Subsequence.new (idx : Idx) (data : List UInt8) : Except InvalidSubsequence Subsequence :=
  if h : idx.len = data.length then .ok ⟨idx, data, h⟩ else .error .lengthMismatch

/-- The bytes of `data` at the positions of `idx`, range by range. -/
def indexRanges (data : List UInt8) (idx : Idx) : List UInt8 :=
  idx.iterRanges.flatMap fun r => (data.drop r.start).take r.len

theorem take_drop_eq_map (data : List UInt8) (r : PosRange) (h : r.stop ≤ data.length) :
    (data.drop r.start).take r.len = r.vals.map (fun p => data.getD p 0) := by
  apply List.ext_getElem
  · simp only [List.length_take, List.length_drop, List.length_map, PosRange.length_vals,
      PosRange.len]
    omega
  · intro i h₁ h₂
    simp only [List.length_map, PosRange.length_vals, PosRange.len] at h₂
    have hi : r.start + i < data.length := by omega
    simp [PosRange.vals, List.getElem?_eq_getElem hi]

theorem indexRanges_eq_map (data : List UInt8) (idx : Idx) (h : idx.stop ≤ data.length) :
    indexRanges data idx = idx.vals.map (fun p => data.getD p 0) := by
  have hr : ∀ r ∈ idx.iterRanges, r.stop ≤ data.length := by
    intro r hr
    exact Nat.le_trans (RangeSet.stop_le_of_mem_iterRanges hr).2 h
  rw [← idx.flatMap_iterRanges, List.map_flatMap, indexRanges]
  apply List.flatMap_congr
  intro r hmem
  exact take_drop_eq_map data r (hr r hmem)

structure Transcript where
  sent : List UInt8
  received : List UInt8

namespace Transcript

def ofDirection (t : Transcript) : Direction → List UInt8
  | .sent => t.sent
  | .received => t.received

def lenOfDirection (t : Transcript) (direction : Direction) : Nat :=
  (t.ofDirection direction).length

def length (t : Transcript) : TranscriptLength :=
  ⟨UInt32.ofNat t.sent.length, UInt32.ofNat t.received.length⟩

theorem length_ofDirection_le (t : Transcript) (d : Direction) :
    t.length.ofDirection d ≤ t.lenOfDirection d := by
  cases d <;> simp [length, TranscriptLength.ofDirection, lenOfDirection, ofDirection, Nat.mod_le]

/-- The byte at a position, zero outside the transcript. -/
def byte (t : Transcript) (d : Direction) (p : Nat) : UInt8 := (t.ofDirection d).getD p 0

theorem getElem?_ofDirection {t : Transcript} {d : Direction} {p : Nat}
    (h : p < t.lenOfDirection d) : (t.ofDirection d)[p]? = some (t.byte d p) := by
  have hget : (t.ofDirection d)[p]? = some _ := List.getElem?_eq_getElem h
  rw [byte, List.getD_eq_getElem?_getD, hget, Option.getD_some]

def get (t : Transcript) (direction : Direction) (idx : Idx) : Option Subsequence :=
  if h : (t.ofDirection direction).length < idx.stop then none
  else some ⟨idx, indexRanges (t.ofDirection direction) idx, by
    rw [indexRanges_eq_map _ _ (Nat.le_of_not_lt h), List.length_map, RangeSet.len]⟩

theorem get_of_le (t : Transcript) (d : Direction) (idx : Idx)
    (h : idx.stop ≤ t.lenOfDirection d) :
    ∃ seq, t.get d idx = some seq ∧ seq.idx = idx ∧ seq.data = idx.vals.map (t.byte d) := by
  have hlt : ¬ (t.ofDirection d).length < idx.stop := Nat.not_lt.mpr h
  simp only [get, hlt, dite_false]
  exact ⟨_, rfl, rfl, indexRanges_eq_map _ _ h⟩

theorem get_eq_some {t : Transcript} {d : Direction} {idx : Idx} {seq : Subsequence}
    (h : t.get d idx = some seq) :
    seq.idx = idx ∧ idx.stop ≤ t.lenOfDirection d ∧ seq.data = seq.idx.vals.map (t.byte d) := by
  by_cases hlt : (t.ofDirection d).length < idx.stop
  · simp [get, hlt] at h
  · obtain ⟨seq', hget, hidx, hdata⟩ := t.get_of_le d idx (Nat.le_of_not_lt hlt)
    rw [hget] at h
    cases h
    exact ⟨hidx, Nat.le_of_not_lt hlt, hidx ▸ hdata⟩

end Transcript

/-! ## Copies into a buffer -/

/-- `dest[range].copy_from_slice(src)` -/
def copyRange {ε : Type} (dest : List UInt8) (r : PosRange) (src : List UInt8) :
    Except (Fault ε) (List UInt8) :=
  if r.start ≤ r.stop ∧ r.stop ≤ dest.length ∧ src.length = r.len then
    .ok (dest.take r.start ++ src ++ dest.drop r.stop)
  else .error .panic

theorem copyRange_eq {ε : Type} (f : Nat → UInt8) (dest src : List UInt8) (r : PosRange)
    (hr : r.start < r.stop) (hd : r.stop ≤ dest.length) (hs : src = r.vals.map f) :
    ∃ dest', (copyRange dest r src : Except (Fault ε) _) = .ok dest' ∧
      dest'.length = dest.length ∧
      ∀ p, dest'[p]? = if p ∈ r.vals then some (f p) else dest[p]? := by
  have hlen : src.length = r.stop - r.start := by
    rw [hs, List.length_map, PosRange.length_vals, PosRange.len]
  have hif : r.start ≤ r.stop ∧ r.stop ≤ dest.length ∧ src.length = r.len :=
    ⟨Nat.le_of_lt hr, hd, hlen⟩
  refine ⟨dest.take r.start ++ src ++ dest.drop r.stop, by simp only [copyRange, hif]; rfl, ?_, ?_⟩
  · simp only [List.length_append, List.length_take, List.length_drop, hlen]
    omega
  · intro p
    have hmem : p ∈ r.vals ↔ r.start ≤ p ∧ p < r.stop := by
      rw [PosRange.vals, List.mem_range'_1, PosRange.len]
      omega
    simp only [hmem]
    by_cases h₁ : p < r.start
    · rw [List.append_assoc, List.getElem?_append_left (by simp only [List.length_take]; omega),
        List.getElem?_take_of_lt h₁, if_neg (by omega)]
    · by_cases h₂ : p < r.stop
      · have hp : p - r.start < r.stop - r.start := by omega
        have htl : (dest.take r.start).length = r.start := by
          simp only [List.length_take]
          omega
        rw [if_pos ⟨by omega, h₂⟩, List.append_assoc,
          List.getElem?_append_right (by omega), htl,
          List.getElem?_append_left (by omega), hs, List.getElem?_map, PosRange.vals,
          List.getElem?_range' (by simpa [PosRange.len] using hp)]
        simp only [Option.map_some, Nat.one_mul, Option.some.injEq]
        congr 1
        omega
      · have hl : (dest.take r.start ++ src).length = r.stop := by
          simp only [List.length_append, List.length_take, hlen]
          omega
        rw [if_neg (by omega), List.getElem?_append_right (by omega), hl, List.getElem?_drop]
        congr 1
        omega

/-- Copy one slice of a source after another to the ranges of an index. -/
def copyRanges {ε : Type} (slice : PosRange → Nat → List UInt8) :
    List PosRange → Nat → List UInt8 → Except (Fault ε) (List UInt8)
  | [], _, dest => .ok dest
  | r :: rs, offset, dest => do
      let dest ← copyRange dest r (slice r offset)
      copyRanges slice rs (offset + r.len) dest

theorem copyRanges_eq {ε : Type} (f : Nat → UInt8) (slice : PosRange → Nat → List UInt8)
    (rs : List PosRange) (offset : Nat) (dest : List UInt8)
    (hr : ∀ r ∈ rs, r.start < r.stop ∧ r.stop ≤ dest.length)
    (hs : ∀ pre r post, rs = pre ++ r :: post →
      slice r (offset + (pre.flatMap PosRange.vals).length) = r.vals.map f) :
    ∃ dest', (copyRanges slice rs offset dest : Except (Fault ε) _) = .ok dest' ∧
      dest'.length = dest.length ∧
      ∀ p, dest'[p]? = if p ∈ rs.flatMap PosRange.vals then some (f p) else dest[p]? := by
  induction rs generalizing offset dest with
  | nil => exact ⟨dest, rfl, rfl, by simp⟩
  | cons r rs ih =>
      obtain ⟨hr₁, hr₂⟩ := hr r (by simp)
      obtain ⟨d₁, hd₁, hl₁, hp₁⟩ := copyRange_eq (ε := ε) f dest (slice r offset) r hr₁ hr₂
        (by simpa using hs [] r rs rfl)
      have htail : ∀ q ∈ rs, q.start < q.stop ∧ q.stop ≤ d₁.length := by
        intro q hq
        rw [hl₁]
        exact hr q (by simp [hq])
      have hslice : ∀ pre q post, rs = pre ++ q :: post →
          slice q (offset + r.len + (pre.flatMap PosRange.vals).length) = q.vals.map f := by
        intro pre q post h
        have := hs (r :: pre) q post (by simp [h])
        simpa [Nat.add_assoc] using this
      obtain ⟨d₂, hd₂, hl₂, hp₂⟩ := ih (offset + r.len) d₁ htail hslice
      refine ⟨d₂, ?_, hl₂.trans hl₁, ?_⟩
      · simp only [copyRanges, hd₁]
        exact hd₂
      · intro p
        rw [hp₂ p, hp₁ p, List.flatMap_cons]
        simp only [List.mem_append]
        by_cases h₁ : p ∈ rs.flatMap PosRange.vals
        · simp [h₁]
        · simp [h₁]

/-- Copies which succeed are within the bounds of the buffer. -/
theorem stop_le_of_copyRanges {ε : Type} {slice : PosRange → Nat → List UInt8} (rs : List PosRange)
    (offset : Nat) {dest dest' : List UInt8}
    (h : (copyRanges slice rs offset dest : Except (Fault ε) _) = .ok dest') :
    ∀ r ∈ rs, r.stop ≤ dest.length := by
  induction rs generalizing offset dest with
  | nil => exact fun r hr => nomatch hr
  | cons r rs ih =>
      obtain ⟨d, hd, hrest⟩ := Fault.bind_ok_iff.mp h
      unfold copyRange at hd
      split at hd
      · rename_i hin
        cases hd
        have hlen : (dest.take r.start ++ slice r offset ++ dest.drop r.stop).length =
            dest.length := by
          simp only [List.length_append, List.length_take, List.length_drop, hin.2.2, PosRange.len]
          omega
        have htail := ih (offset + r.len) hrest
        rw [hlen] at htail
        exact List.forall_mem_cons.mpr ⟨hin.2.1, htail⟩
      · cases hd

theorem idx_stop_le_of_copyRanges {ε : Type} {slice : PosRange → Nat → List UInt8} (idx : Idx)
    {dest dest' : List UInt8}
    (h : (copyRanges slice idx.iterRanges 0 dest : Except (Fault ε) _) = .ok dest') :
    idx.stop ≤ dest.length :=
  RangeSet.stop_le_iff_forall_ranges.mpr (stop_le_of_copyRanges idx.iterRanges 0 h)

/-- Copying the ranges of an index from a buffer of the same length. -/
theorem copyRanges_from {ε : Type} (idx : Idx) (src dest : List UInt8)
    (hlen : dest.length = src.length) (hstop : idx.stop ≤ src.length) :
    ∃ dest', (copyRanges (fun r _ => (src.drop r.start).take r.len) idx.iterRanges 0 dest :
        Except (Fault ε) _) = .ok dest' ∧ dest'.length = dest.length ∧
      ∀ p, dest'[p]? = if p ∈ idx then src[p]? else dest[p]? := by
  have hranges : ∀ r ∈ idx.iterRanges, r.start < r.stop ∧ r.stop ≤ dest.length := by
    intro r hr
    obtain ⟨h₁, h₂⟩ := RangeSet.stop_le_of_mem_iterRanges hr
    exact ⟨h₁, by omega⟩
  have hslice : ∀ pre r post, idx.iterRanges = pre ++ r :: post →
      (src.drop r.start).take r.len = r.vals.map (fun p => src.getD p 0) := by
    intro pre r post h
    exact take_drop_eq_map src r (by have := hranges r (by simp [h]); omega)
  obtain ⟨d, hd, hl, hp⟩ := copyRanges_eq (ε := ε) (fun p => src.getD p 0)
    (fun r _ => (src.drop r.start).take r.len) _ 0 dest hranges hslice
  refine ⟨d, hd, hl, ?_⟩
  intro p
  rw [hp p, idx.flatMap_iterRanges]
  simp only [← RangeSet.mem_def]
  by_cases hmem : p ∈ idx
  · have hlt : p < src.length := RangeSet.stop_le_iff.mp hstop p hmem
    simp [hmem, List.getElem?_eq_getElem hlt]
  · simp [hmem]

def Subsequence.copyTo {ε : Type} (seq : Subsequence) (dest : List UInt8) :
    Except (Fault ε) (List UInt8) :=
  copyRanges (fun r offset => (seq.data.drop offset).take r.len) seq.idx.iterRanges 0 dest

/-- The bytes of a subsequence are the values of some function of the position. -/
theorem Subsequence.exists_values (seq : Subsequence) :
    ∃ f : Nat → UInt8, seq.data = seq.idx.vals.map f := by
  refine ⟨fun p => seq.data.getD (seq.idx.vals.idxOf p) 0, ?_⟩
  have hnodup : seq.idx.vals.Nodup := seq.idx.sorted.imp Nat.ne_of_lt
  apply List.ext_getElem
  · rw [List.length_map, ← seq.len_eq, RangeSet.len]
  · intro i hdata hvals
    rw [List.length_map] at hvals
    simp [hnodup.idxOf_getElem i hvals, List.getElem?_eq_getElem hdata]

/-- Copying a subsequence of a function's values writes those values, and
nothing else. -/
theorem Subsequence.copyTo_eq {ε : Type} (seq : Subsequence) (f : Nat → UInt8)
    (dest : List UInt8) (hdata : seq.data = seq.idx.vals.map f)
    (hstop : seq.idx.stop ≤ dest.length) :
    ∃ dest', (seq.copyTo dest : Except (Fault ε) _) = .ok dest' ∧ dest'.length = dest.length ∧
      ∀ p, dest'[p]? = if p ∈ seq.idx then some (f p) else dest[p]? := by
  have hranges : ∀ r ∈ seq.idx.iterRanges, r.start < r.stop ∧ r.stop ≤ dest.length := by
    intro r hr
    obtain ⟨h₁, h₂⟩ := RangeSet.stop_le_of_mem_iterRanges hr
    exact ⟨h₁, Nat.le_trans h₂ hstop⟩
  have hslice : ∀ pre r post, seq.idx.iterRanges = pre ++ r :: post →
      (seq.data.drop (0 + (pre.flatMap PosRange.vals).length)).take r.len = r.vals.map f := by
    intro pre r post h
    rw [hdata, ← seq.idx.flatMap_iterRanges, h]
    simp only [List.flatMap_append, List.flatMap_cons, List.map_append, Nat.zero_add]
    rw [List.drop_append_of_le_length (by simp), List.drop_of_length_le (by simp), List.nil_append,
      List.take_append_of_le_length (by simp)]
    exact List.take_of_length_le (by simp)
  obtain ⟨d, hd, hl, hp⟩ := copyRanges_eq (ε := ε) f
    (fun r offset => (seq.data.drop offset).take r.len) seq.idx.iterRanges 0 dest hranges hslice
  refine ⟨d, hd, hl, ?_⟩
  intro p
  rw [hp p, seq.idx.flatMap_iterRanges]
  rfl

/-! ## Partial transcripts -/

structure PartialTranscript where
  sent : List UInt8
  received : List UInt8
  sentAuthedIdx : Idx
  receivedAuthedIdx : Idx

namespace PartialTranscript

def new (sentLen receivedLen : Nat) : PartialTranscript where
  sent := List.replicate sentLen 0
  received := List.replicate receivedLen 0
  sentAuthedIdx := RangeSet.empty
  receivedAuthedIdx := RangeSet.empty

def ofDirection (t : PartialTranscript) : Direction → List UInt8
  | .sent => t.sent
  | .received => t.received

def authed (t : PartialTranscript) : Direction → Idx
  | .sent => t.sentAuthedIdx
  | .received => t.receivedAuthedIdx

/-- Copies the bytes which `other` authenticates and `mine` does not. -/
def unionData {ε : Type} (data other : List UInt8) (mine theirs : Idx) :
    Except (Fault ε) (List UInt8) :=
  copyRanges (fun r _ => (other.drop r.start).take r.len) (theirs.difference mine).iterRanges 0 data

def unionTranscript {ε : Type} (t other : PartialTranscript) :
    Except (Fault ε) PartialTranscript := do
  if t.sent.length ≠ other.sent.length then throw .panic
  if t.received.length ≠ other.received.length then throw .panic
  let sent ← unionData t.sent other.sent t.sentAuthedIdx other.sentAuthedIdx
  let received ← unionData t.received other.received t.receivedAuthedIdx other.receivedAuthedIdx
  return {
    sent := sent
    received := received
    sentAuthedIdx := t.sentAuthedIdx.union other.sentAuthedIdx
    receivedAuthedIdx := t.receivedAuthedIdx.union other.receivedAuthedIdx }

def unionSubsequence {ε : Type} (t : PartialTranscript) (direction : Direction)
    (seq : Subsequence) : Except (Fault ε) PartialTranscript :=
  match direction with
  | .sent => do
      let sent ← seq.copyTo t.sent
      return { t with sent := sent, sentAuthedIdx := t.sentAuthedIdx.union seq.idx }
  | .received => do
      let received ← seq.copyTo t.received
      return { t with received := received,
                      receivedAuthedIdx := t.receivedAuthedIdx.union seq.idx }

/-- The lengths are those of the transcript `l`, and every byte marked
authenticated is the one `f` has there. -/
structure Agrees (l : TranscriptLength) (f : Direction → Nat → UInt8)
    (t : PartialTranscript) : Prop where
  length : ∀ d, (t.ofDirection d).length = l.ofDirection d
  bound : ∀ d, (t.authed d).stop ≤ l.ofDirection d
  byte : ∀ d p, p ∈ t.authed d → (t.ofDirection d)[p]? = some (f d p)

theorem agrees_new (l : TranscriptLength) (f : Direction → Nat → UInt8) :
    (new l.sent.toNat l.received.toNat).Agrees l f where
  length d := by cases d <;> simp [new, ofDirection, TranscriptLength.ofDirection]
  bound d := by cases d <;> simp [new, authed, RangeSet.stop_le_iff]
  byte d p hp := by cases d <;> simp [new, authed] at hp

theorem unionSubsequence_eq {ε : Type} (t : PartialTranscript) (d : Direction) (seq : Subsequence)
    (f : Nat → UInt8) (hdata : seq.data = seq.idx.vals.map f)
    (hstop : seq.idx.stop ≤ (t.ofDirection d).length) :
    ∃ t', (t.unionSubsequence d seq : Except (Fault ε) _) = .ok t' ∧
      ∀ d', t'.authed d' = (if d' = d then (t.authed d').union seq.idx else t.authed d') ∧
        (t'.ofDirection d').length = (t.ofDirection d').length ∧
        ∀ p, (t'.ofDirection d')[p]? =
          if d' = d ∧ p ∈ seq.idx then some (f p) else (t.ofDirection d')[p]? := by
  obtain ⟨dest, hd, hl, hp⟩ := seq.copyTo_eq (ε := ε) f (t.ofDirection d) hdata hstop
  cases d with
  | sent =>
      refine ⟨{ t with sent := dest, sentAuthedIdx := t.sentAuthedIdx.union seq.idx }, ?_, ?_⟩
      · simp only [unionSubsequence]
        rw [show seq.copyTo t.sent = .ok dest from hd]
        rfl
      · intro d'
        cases d' with
        | sent => exact ⟨rfl, hl, by simpa [ofDirection] using hp⟩
        | received => exact ⟨rfl, rfl, by simp [ofDirection]⟩
  | received =>
      refine ⟨{ t with received := dest, receivedAuthedIdx := t.receivedAuthedIdx.union seq.idx },
        ?_, ?_⟩
      · simp only [unionSubsequence]
        rw [show seq.copyTo t.received = .ok dest from hd]
        rfl
      · intro d'
        cases d' with
        | sent => exact ⟨rfl, rfl, by simp [ofDirection]⟩
        | received => exact ⟨rfl, hl, by simpa [ofDirection] using hp⟩

theorem unionSubsequence_agrees {ε : Type} {l : TranscriptLength} {f : Direction → Nat → UInt8}
    {t : PartialTranscript} (h : t.Agrees l f) (d : Direction) (seq : Subsequence)
    (hdata : seq.data = seq.idx.vals.map (f d)) (hstop : seq.idx.stop ≤ l.ofDirection d) :
    ∃ t', (t.unionSubsequence d seq : Except (Fault ε) _) = .ok t' ∧ t'.Agrees l f ∧
      ∀ d', t'.authed d' = if d' = d then (t.authed d).union seq.idx else t.authed d' := by
  obtain ⟨t', ht', hunion⟩ := unionSubsequence_eq (ε := ε) t d seq (f d) hdata
    (by rw [h.length d]; exact hstop)
  refine ⟨t', ht', ⟨?_, ?_, ?_⟩, ?_⟩
  · intro d'
    exact (hunion d').2.1.trans (h.length d')
  · intro d'
    rw [(hunion d').1]
    by_cases hd : d' = d
    · subst hd
      rw [if_pos rfl]
      exact RangeSet.union_stop_le_iff.mpr ⟨h.bound d', hstop⟩
    · rw [if_neg hd]
      exact h.bound d'
  · intro d' p hmem
    rw [(hunion d').1] at hmem
    rw [(hunion d').2.2 p]
    by_cases hd : d' = d
    · subst hd
      rw [if_pos rfl] at hmem
      by_cases hseq : p ∈ seq.idx
      · rw [if_pos ⟨rfl, hseq⟩]
      · rw [if_neg (fun h => hseq h.2)]
        exact h.byte d' p ((RangeSet.mem_union.mp hmem).resolve_right hseq)
    · rw [if_neg hd] at hmem
      rw [if_neg (fun h => hd h.1)]
      exact h.byte d' p hmem
  · intro d'
    rw [(hunion d').1]
    by_cases hd : d' = d
    · rw [if_pos hd, if_pos hd, hd]
    · rw [if_neg hd, if_neg hd]

theorem mem_authed_unionSubsequence {ε : Type} {t t' : PartialTranscript} {d : Direction}
    {seq : Subsequence} (h : (t.unionSubsequence d seq : Except (Fault ε) _) = .ok t')
    (d' : Direction) (n : Nat) :
    n ∈ t'.authed d' ↔ n ∈ t.authed d' ∨ (d' = d ∧ n ∈ seq.idx) := by
  cases d with
  | sent =>
      obtain ⟨data, -, h⟩ := Fault.bind_ok_iff.mp h
      cases h
      cases d' <;> simp [authed]
  | received =>
      obtain ⟨data, -, h⟩ := Fault.bind_ok_iff.mp h
      cases h
      cases d' <;> simp [authed]

/-- Merging the bytes which another buffer authenticates. -/
theorem unionData_eq {ε : Type} (data other : List UInt8) (mine theirs : Idx)
    (hlen : data.length = other.length) (hstop : (theirs.difference mine).stop ≤ other.length) :
    ∃ data', (unionData data other mine theirs : Except (Fault ε) _) = .ok data' ∧
      data'.length = data.length ∧
      ∀ p, data'[p]? = if p ∈ theirs ∧ p ∉ mine then other[p]? else data[p]? := by
  obtain ⟨d, hd, hl, hp⟩ := copyRanges_from (ε := ε) (theirs.difference mine) other data hlen hstop
  refine ⟨d, hd, hl, ?_⟩
  intro p
  rw [hp p]
  simp only [RangeSet.mem_difference]

theorem unionTranscript_eq {ε : Type} (t other : PartialTranscript)
    (hlen : ∀ d, (t.ofDirection d).length = (other.ofDirection d).length)
    (hstop : ∀ d, ((other.authed d).difference (t.authed d)).stop ≤ (other.ofDirection d).length) :
    ∃ t', (t.unionTranscript other : Except (Fault ε) _) = .ok t' ∧
      ∀ d, t'.authed d = (t.authed d).union (other.authed d) ∧
        (t'.ofDirection d).length = (t.ofDirection d).length ∧
        ∀ p, (t'.ofDirection d)[p]? =
          if p ∈ other.authed d ∧ p ∉ t.authed d then (other.ofDirection d)[p]?
          else (t.ofDirection d)[p]? := by
  obtain ⟨sent, hs, hsent⟩ := unionData_eq (ε := ε) t.sent other.sent t.sentAuthedIdx
    other.sentAuthedIdx (hlen .sent) (hstop .sent)
  obtain ⟨received, hr, hreceived⟩ := unionData_eq (ε := ε) t.received other.received
    t.receivedAuthedIdx other.receivedAuthedIdx (hlen .received) (hstop .received)
  refine ⟨⟨sent, received, t.sentAuthedIdx.union other.sentAuthedIdx,
    t.receivedAuthedIdx.union other.receivedAuthedIdx⟩, ?_, ?_⟩
  · have h₁ : t.sent.length = other.sent.length := hlen .sent
    have h₂ : t.received.length = other.received.length := hlen .received
    simp only [unionTranscript, h₁, h₂, ne_eq, not_true_eq_false, if_false, hs, hr]
    rfl
  · intro d
    cases d with
    | sent => exact ⟨rfl, hsent⟩
    | received => exact ⟨rfl, hreceived⟩

/-- A union which succeeds is of transcripts of equal lengths, and what it copies is within
their bounds. -/
theorem of_unionTranscript {ε : Type} {t other t' : PartialTranscript}
    (h : (t.unionTranscript other : Except (Fault ε) _) = .ok t') (d : Direction) :
    (t.ofDirection d).length = (other.ofDirection d).length ∧
      ((other.authed d).difference (t.authed d)).stop ≤ (other.ofDirection d).length := by
  unfold unionTranscript at h
  by_cases hsent : t.sent.length = other.sent.length
  · rw [if_neg (not_not_intro hsent)] at h
    by_cases hreceived : t.received.length = other.received.length
    · rw [if_neg (not_not_intro hreceived)] at h
      obtain ⟨sent, hs, h⟩ := Fault.bind_ok_iff.mp h
      obtain ⟨received, hr, h⟩ := Fault.bind_ok_iff.mp h
      cases d with
      | sent => exact ⟨hsent, hsent ▸ idx_stop_le_of_copyRanges _ hs⟩
      | received => exact ⟨hreceived, hreceived ▸ idx_stop_le_of_copyRanges _ hr⟩
    · rw [if_pos hreceived] at h
      cases h
  · rw [if_pos hsent] at h
    cases h

theorem unionTranscript_agrees {ε : Type} {l : TranscriptLength} {f : Direction → Nat → UInt8}
    {t other : PartialTranscript} (h : t.Agrees l f) (ho : other.Agrees l f) :
    ∃ t', (t.unionTranscript other : Except (Fault ε) _) = .ok t' ∧ t'.Agrees l f ∧
      ∀ d, t'.authed d = (t.authed d).union (other.authed d) := by
  obtain ⟨t', ht', hunion⟩ := unionTranscript_eq (ε := ε) t other
    (fun d => (h.length d).trans (ho.length d).symm)
    (fun d => by
      rw [ho.length d]
      exact Nat.le_trans RangeSet.difference_stop_le (ho.bound d))
  refine ⟨t', ht', ⟨?_, ?_, ?_⟩, fun d => (hunion d).1⟩
  · intro d
    exact (hunion d).2.1.trans (h.length d)
  · intro d
    rw [(hunion d).1]
    exact RangeSet.union_stop_le_iff.mpr ⟨h.bound d, ho.bound d⟩
  · intro d p hmem
    rw [(hunion d).1] at hmem
    rw [(hunion d).2.2 p]
    by_cases hmine : p ∈ t.authed d
    · rw [if_neg (by simp [hmine])]
      exact h.byte d p hmine
    · have htheirs : p ∈ other.authed d := (RangeSet.mem_union.mp hmem).resolve_left hmine
      rw [if_pos ⟨htheirs, hmine⟩]
      exact ho.byte d p htheirs

end PartialTranscript

end Tlsn.Core

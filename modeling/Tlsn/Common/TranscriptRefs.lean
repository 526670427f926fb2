import Tlsn.Common.Transcript

/-!
References to parts of the transcript. A walk over the ranges of an index and the
references to the records finds the parts of memory which hold the index, and they
are those at the positions of the index, in order.
-/

namespace Tlsn.Cipher

/-- The addresses of a reference. -/
def Slice.addresses (s : Slice) : List Nat := List.range' s.ptr s.len

@[simp] theorem Slice.length_addresses (s : Slice) : s.addresses.length = s.len := by
  simp [addresses]

theorem Memory.read_eq_map (mem : Memory) (s : Slice) : mem.read s = s.addresses.map mem := by
  rw [read, Slice.addresses, List.range'_eq_map_range, List.map_map]
  rfl

end Tlsn.Cipher

namespace Tlsn.Common

open Tlsn.Cipher Tlsn.Core

namespace TranscriptRefs

def ofDirection (refs : TranscriptRefs) : Direction → List Slice
  | .sent => refs.sent
  | .received => refs.recv

/-- Each reference with its range in the transcript. -/
def ranged (start : Nat) : List Slice → List (Slice × PosRange)
  | [] => []
  | slice :: slices => (slice, ⟨start, start + slice.len⟩) :: ranged (start + slice.len) slices

/-- The part of a reference which is in a range. -/
def overlap {ε : Type} (slice : Slice) (sliceRange range : PosRange) :
    Except (Fault ε) (List Slice) :=
  match sliceRange.intersection range with
  | none => .ok []
  | some r =>
      match slice.get? (r.start - sliceRange.start) (r.stop - sliceRange.start) with
      | some part => .ok [part]
      | none => .error .panic

/-- The inner loop: the parts of one range, and the references from the one in which it
ends. -/
def walkRange {ε : Type} (range : PosRange) :
    List (Slice × PosRange) → Except (Fault ε) (Option (List (Slice × PosRange) × List Slice))
  | [] => .ok none
  | (slice, sliceRange) :: rest => do
      let parts ← overlap slice sliceRange range
      if range.stop ≤ sliceRange.stop then
        return some ((slice, sliceRange) :: rest, parts)
      else
        match ← walkRange range rest with
        | none => return none
        | some (left, more) => return some (left, parts ++ more)

def walk {ε : Type} :
    List PosRange → List (Slice × PosRange) → Except (Fault ε) (Option (List Slice))
  | [], _ => .ok (some [])
  | range :: ranges, refs => do
      match ← walkRange range refs with
      | none => return none
      | some (left, parts) =>
          match ← walk ranges left with
          | none => return none
          | some more => return some (parts ++ more)

def get {ε : Type} (refs : TranscriptRefs) (direction : Direction) (idx : Idx) :
    Except (Fault ε) (Option (List Slice)) :=
  if idx.isEmpty then .ok (some [])
  else walk idx.iterRanges (ranged 0 (refs.ofDirection direction))

/-- The memory which a list of references denotes, in order. -/
def addresses (slices : List Slice) : List Nat := slices.flatMap Slice.addresses

theorem overlap_eq {ε : Type} (slice : Slice) (start : Nat) (range : PosRange) :
    ∃ parts, (overlap slice ⟨start, start + slice.len⟩ range : Except (Fault ε) _) = .ok parts ∧
      addresses parts = (range.sub start).select slice.addresses := by
  rw [Slice.addresses, PosRange.select_range']
  unfold overlap PosRange.intersection
  dsimp only
  by_cases h : max start range.start < min (start + slice.len) range.stop
  · have hget : slice.get? (max start range.start - start)
        (min (start + slice.len) range.stop - start) =
          some ⟨slice.ptr + (max start range.start - start),
            min (start + slice.len) range.stop - start - (max start range.start - start)⟩ :=
      if_pos (by omega)
    rw [if_pos h]
    dsimp only
    rw [hget]
    refine ⟨_, rfl, ?_⟩
    simp only [addresses, List.flatMap_cons, List.flatMap_nil, List.append_nil, Slice.addresses,
      PosRange.sub, PosRange.len]
    congr 1 <;> omega
  · have hlen : min (range.sub start).len (slice.len - (range.sub start).start) = 0 := by
      simp only [PosRange.sub, PosRange.len]
      omega
    rw [if_neg h, hlen]
    exact ⟨[], rfl, rfl⟩

/-- The inner loop finds what the references hold of a range, and goes on from the
reference in which the range ends. -/
theorem walkRange_eq {ε : Type} (range : PosRange) (slices : List Slice) (start : Nat)
    (hstart : start < range.stop) :
    (start + (addresses slices).length < range.stop →
      (walkRange range (ranged start slices) : Except (Fault ε) _) = .ok none) ∧
    (range.stop ≤ start + (addresses slices).length →
      ∃ k left parts, (walkRange range (ranged start slices) : Except (Fault ε) _) =
          .ok (some (ranged (start + k) left, parts)) ∧
        start + k < range.stop ∧ addresses left = (addresses slices).drop k ∧
        addresses parts = (range.sub start).select (addresses slices)) := by
  induction slices generalizing start with
  | nil => exact ⟨fun _ => rfl, fun h => absurd hstart (Nat.not_lt.mpr h)⟩
  | cons slice slices ih =>
      obtain ⟨parts, hparts, haddresses⟩ := overlap_eq (ε := ε) slice start range
      have hcons : addresses (slice :: slices) = slice.addresses ++ addresses slices := rfl
      have hlen : (addresses (slice :: slices)).length = slice.len + (addresses slices).length := by
        rw [hcons, List.length_append, Slice.length_addresses]
      have hselect : (range.sub start).select (addresses (slice :: slices)) =
          addresses parts ++ (range.sub (start + slice.len)).select (addresses slices) := by
        rw [hcons, PosRange.select_append, Slice.length_addresses, PosRange.sub_sub, haddresses]
      rw [hlen, hselect]
      simp only [ranged, walkRange, hparts, Fault.ok_bind]
      by_cases hstop : range.stop ≤ start + slice.len
      · rw [if_pos hstop]
        refine ⟨fun h => absurd h (by omega), fun _ => ⟨0, slice :: slices, parts, rfl, hstart,
          rfl, ?_⟩⟩
        rw [PosRange.select_of_stop_le hstop, List.append_nil]
      · rw [if_neg hstop]
        obtain ⟨hnone, hsome⟩ := ih (start + slice.len) (Nat.lt_of_not_le hstop)
        constructor
        · intro h
          rw [hnone (by omega)]
          rfl
        · intro h
          obtain ⟨k, left, more, hwalk, hk, hleft, hmore⟩ := hsome (by omega)
          rw [hwalk]
          refine ⟨slice.len + k, left, parts ++ more, ?_, by omega, ?_, ?_⟩
          · rw [← Nat.add_assoc]
            rfl
          · rw [hleft, hcons, ← List.drop_drop, List.drop_left' slice.length_addresses]
          · rw [addresses, List.flatMap_append, ← addresses, ← addresses, hmore]

/-- From references which hold `all` from `start` on, the walk finds what `all` has in the
ranges. -/
theorem walk_eq {ε : Type} (all : List Nat) (ranges : List PosRange) {start : Nat}
    {slices : List Slice} (hall : addresses slices = all.drop start)
    (hne : ∀ r ∈ ranges, r.start < r.stop) (hstart : ∀ r ∈ ranges, start ≤ r.start)
    (hsorted : ranges.Pairwise fun r t => r.stop ≤ t.start) (hle : start ≤ all.length) :
    ((∀ r ∈ ranges, r.stop ≤ all.length) →
      ∃ parts, (walk ranges (ranged start slices) : Except (Fault ε) _) = .ok (some parts) ∧
        addresses parts = ranges.flatMap fun r => r.select all) ∧
    (¬ (∀ r ∈ ranges, r.stop ≤ all.length) →
      (walk ranges (ranged start slices) : Except (Fault ε) _) = .ok none) := by
  induction ranges generalizing start slices with
  | nil => exact ⟨fun _ => ⟨[], rfl, rfl⟩, fun h => absurd (List.forall_mem_nil _) h⟩
  | cons r ranges ih =>
      obtain ⟨hr, hne⟩ := List.forall_mem_cons.mp hne
      obtain ⟨hrstart, -⟩ := List.forall_mem_cons.mp hstart
      obtain ⟨hafter, hsorted⟩ := List.pairwise_cons.mp hsorted
      have htotal : start + (addresses slices).length = all.length := by
        rw [hall, List.length_drop]
        omega
      obtain ⟨hnone, hsome⟩ := walkRange_eq (ε := ε) r slices start (by omega)
      rw [htotal] at hnone hsome
      rw [List.forall_mem_cons]
      by_cases hstop : r.stop ≤ all.length
      · obtain ⟨k, left, parts, hwalk, hk, hleft, hparts⟩ := hsome hstop
        rw [hall, PosRange.select_drop hrstart] at hparts
        rw [hall, List.drop_drop] at hleft
        obtain ⟨hrest, hrestNone⟩ := ih hleft hne
          (fun t ht => by have := hafter t ht; omega) hsorted (by omega)
        constructor
        · intro h
          obtain ⟨more, hmore, hmoreParts⟩ := hrest h.2
          refine ⟨parts ++ more, ?_, ?_⟩
          · simp only [walk, hwalk, Fault.ok_bind, hmore]
            rfl
          · rw [addresses, List.flatMap_append, ← addresses, ← addresses, hparts, hmoreParts,
              List.flatMap_cons]
        · intro h
          simp only [walk, hwalk, Fault.ok_bind, hrestNone fun h' => h ⟨hstop, h'⟩]
          rfl
      · refine ⟨fun h => absurd h.1 hstop, fun _ => ?_⟩
        simp only [walk, hnone (Nat.lt_of_not_le hstop), Fault.ok_bind]
        rfl

theorem get_of_le {ε : Type} {refs : TranscriptRefs} {d : Direction} {idx : Idx}
    (h : idx.isEmpty ∨ idx.stop ≤ (addresses (refs.ofDirection d)).length) :
    ∃ slices, (refs.get d idx : Except (Fault ε) _) = .ok (some slices) ∧
      (addresses slices).map some = idx.vals.map fun p => (addresses (refs.ofDirection d))[p]? := by
  unfold get
  by_cases hempty : idx.isEmpty = true
  · rw [if_pos hempty, List.isEmpty_iff.mp hempty]
    exact ⟨[], rfl, rfl⟩
  · have hstop := h.resolve_left hempty
    have hranges := RangeSet.stop_le_iff_forall_ranges.mp hstop
    rw [if_neg hempty]
    obtain ⟨slices, hwalk, hslices⟩ := (walk_eq (ε := ε) (addresses (refs.ofDirection d))
      idx.iterRanges rfl (fun r hr => (RangeSet.stop_le_of_mem_iterRanges hr).1)
      (fun r _ => Nat.zero_le r.start) idx.iterRanges_pairwise (Nat.zero_le _)).1 hranges
    refine ⟨slices, hwalk, ?_⟩
    rw [hslices, ← idx.flatMap_iterRanges, List.map_flatMap, List.map_flatMap]
    apply List.flatMap_congr
    intro r hr
    exact PosRange.map_some_select (hranges r hr)

theorem get_of_not_le {ε : Type} {refs : TranscriptRefs} {d : Direction} {idx : Idx}
    (h : ¬ (idx.isEmpty ∨ idx.stop ≤ (addresses (refs.ofDirection d)).length)) :
    (refs.get d idx : Except (Fault ε) _) = .ok none := by
  obtain ⟨hempty, hstop⟩ := not_or.mp h
  rw [get, if_neg hempty]
  exact (walk_eq (ε := ε) (addresses (refs.ofDirection d)) idx.iterRanges rfl
    (fun r hr => (RangeSet.stop_le_of_mem_iterRanges hr).1) (fun r _ => Nat.zero_le r.start)
    idx.iterRanges_pairwise (Nat.zero_le _)).2
    fun hranges => hstop (RangeSet.stop_le_iff_forall_ranges.mpr hranges)

end TranscriptRefs

/-! ## Committed transcripts -/

def TlsTranscript.ofDirection (t : TlsTranscript) : Direction → List Record
  | .sent => t.sent
  | .received => t.recv

/-- Every record of application data has a reference to as many bytes as its ciphertext has. -/
def TlsTranscript.Committed (t : TlsTranscript) : Prop :=
  ∀ record ∈ t.sent ++ t.recv, record.typ = .applicationData →
    ∃ plaintextRef, record.plaintextRef = some plaintextRef ∧
      plaintextRef.len = record.ciphertext.length

/-- The length of the application data among the records. -/
def applicationLength (records : List Record) : Nat :=
  ((records.filter fun record => record.typ = .applicationData).map
    fun record => record.ciphertext.length).sum

theorem plaintextRefs_committed (records : List Record)
    (h : ∀ record ∈ records, record.typ = .applicationData →
      ∃ plaintextRef, record.plaintextRef = some plaintextRef ∧
        plaintextRef.len = record.ciphertext.length) :
    ∃ refs, plaintextRefs records = .ok refs ∧
      (TranscriptRefs.addresses refs).length = applicationLength records := by
  unfold plaintextRefs applicationLength
  induction records with
  | nil => exact ⟨[], rfl, rfl⟩
  | cons record records ih =>
      obtain ⟨hrecord, hrecords⟩ := List.forall_mem_cons.mp h
      obtain ⟨refs, hrefs, hlen⟩ := ih hrecords
      by_cases htyp : record.typ = .applicationData
      · obtain ⟨plaintextRef, hplaintext, hlenRef⟩ := hrecord htyp
        rw [List.filter_cons_of_pos (by simpa using htyp)]
        refine ⟨plaintextRef :: refs, ?_, ?_⟩
        · rw [List.mapM_cons, hplaintext]
          exact Fault.bind_ok_iff.mpr ⟨_, rfl, Fault.bind_ok_iff.mpr ⟨refs, hrefs, rfl⟩⟩
        · rw [TranscriptRefs.addresses, List.flatMap_cons, List.length_append,
            Slice.length_addresses, List.map_cons, List.sum_cons, hlenRef, ← hlen]
          rfl
      · rw [List.filter_cons_of_neg (by simpa using htyp)]
        exact ⟨refs, hrefs, hlen⟩

/-! ## Reading what the references denote -/

/-- Memory holds the plaintext of a record where its reference says. -/
def Record.HeldIn (mem : Memory) (record : Record) : Prop :=
  ∀ plaintext plaintextRef, record.plaintext = some plaintext →
    record.plaintextRef = some plaintextRef → mem.read plaintextRef = plaintext

theorem map_addresses (mem : Memory) (slices : List Slice) :
    (TranscriptRefs.addresses slices).map mem = slices.flatMap mem.read := by
  rw [TranscriptRefs.addresses, List.map_flatMap]
  exact List.flatMap_congr fun s _ => (mem.read_eq_map s).symm

/-- The references of the records denote their plaintext. -/
theorem read_plaintextRefs {mem : Memory} (records : List Record)
    (hheld : ∀ record ∈ records, record.typ = .applicationData → record.HeldIn mem)
    {plaintext : List UInt8} {refs : List Slice}
    (hplaintext : applicationPlaintext records = .ok plaintext)
    (hrefs : plaintextRefs records = .ok refs) : refs.flatMap mem.read = plaintext := by
  induction records generalizing plaintext refs with
  | nil =>
      cases hplaintext
      cases hrefs
      rfl
  | cons record records ih =>
      obtain ⟨hrecord, hrecords⟩ := List.forall_mem_cons.mp hheld
      unfold applicationPlaintext at hplaintext
      unfold plaintextRefs at hrefs
      by_cases htyp : record.typ = .applicationData
      · rw [List.filter_cons_of_pos (by simpa using htyp), List.mapM_cons] at hplaintext hrefs
        obtain ⟨plaintexts, hplaintexts, hret⟩ := Fault.bind_ok_iff.mp hplaintext
        obtain ⟨first, hfirst, hplaintexts⟩ := Fault.bind_ok_iff.mp hplaintexts
        obtain ⟨rest, hrest, hcons⟩ := Fault.bind_ok_iff.mp hplaintexts
        obtain ⟨firstRef, hfirstRef, hrefs⟩ := Fault.bind_ok_iff.mp hrefs
        obtain ⟨restRefs, hrestRefs, hconsRefs⟩ := Fault.bind_ok_iff.mp hrefs
        cases hret
        cases hcons
        cases hconsRefs
        have htail := ih hrecords (Fault.bind_ok_iff.mpr ⟨rest, hrest, rfl⟩) hrestRefs
        cases hp : record.plaintext with
        | none =>
            rw [hp] at hfirst
            cases hfirst
        | some p =>
            cases hr : record.plaintextRef with
            | none =>
                rw [hr] at hfirstRef
                cases hfirstRef
            | some r =>
                rw [hp] at hfirst
                rw [hr] at hfirstRef
                cases hfirst
                cases hfirstRef
                rw [List.flatMap_cons, hrecord htyp first firstRef hp hr, htail, List.flatten_cons]
      · rw [List.filter_cons_of_neg (by simpa using htyp)] at hplaintext hrefs
        exact ih hrecords hplaintext hrefs

def TlsTranscript.HeldIn (mem : Memory) (t : TlsTranscript) : Prop :=
  ∀ record ∈ t.sent ++ t.recv, record.typ = .applicationData → record.HeldIn mem

theorem TlsTranscript.read_refs {mem : Memory} {t : TlsTranscript} {transcript : Transcript}
    {refs : TranscriptRefs} (hheld : t.HeldIn mem) (ht : t.toTranscript = .ok transcript)
    (hrefs : t.toTranscriptRefs = .ok refs) (d : Direction) :
    (TranscriptRefs.addresses (refs.ofDirection d)).map mem = transcript.ofDirection d := by
  obtain ⟨hsentHeld, hrecvHeld⟩ := List.forall_mem_append.mp hheld
  obtain ⟨sent, hsent, ht⟩ := Fault.bind_ok_iff.mp ht
  obtain ⟨recv, hrecv, ht⟩ := Fault.bind_ok_iff.mp ht
  obtain ⟨sentRefs, hsentRefs, hrefs⟩ := Fault.bind_ok_iff.mp hrefs
  obtain ⟨recvRefs, hrecvRefs, hrefs⟩ := Fault.bind_ok_iff.mp hrefs
  cases ht
  cases hrefs
  rw [map_addresses]
  cases d with
  | sent => exact read_plaintextRefs t.sent hsentHeld hsent hsentRefs
  | received => exact read_plaintextRefs t.recv hrecvHeld hrecv hrecvRefs

namespace TranscriptRefs

/-- Reading references which hold a transcript reads the bytes of the index. -/
theorem read_get {ε : Type} {refs : TranscriptRefs} {mem : Memory} {transcript : Transcript}
    {d : Direction}
    (hread : (addresses (refs.ofDirection d)).map mem = transcript.ofDirection d) (idx : Idx) :
    ∃ found, (refs.get d idx : Except (Fault ε) _) = .ok found ∧
      found.map (fun slices => slices.flatMap mem.read) =
        (transcript.get d idx).map Subsequence.data := by
  have hlen : (addresses (refs.ofDirection d)).length = transcript.lenOfDirection d := by
    rw [Transcript.lenOfDirection, ← hread, List.length_map]
  by_cases hstop : idx.stop ≤ transcript.lenOfDirection d
  · obtain ⟨slices, hget, hslices⟩ := get_of_le (ε := ε) (.inr (hlen.symm ▸ hstop))
    obtain ⟨seq, hseq, -, hdata⟩ := transcript.get_of_le d idx hstop
    refine ⟨some slices, hget, ?_⟩
    rw [hseq, Option.map_some, Option.map_some, hdata, ← map_addresses]
    apply congrArg some
    have hbytes : ((addresses slices).map mem).map some =
        (idx.vals.map (transcript.byte d)).map some :=
      calc ((addresses slices).map mem).map some
          = ((addresses slices).map some).map (Option.map mem) := by simp [List.map_map]
        _ = idx.vals.map fun p => (transcript.ofDirection d)[p]? := by
            rw [hslices, List.map_map, ← hread]
            exact List.map_congr_left fun p _ => by simp
        _ = (idx.vals.map (transcript.byte d)).map some := by
            rw [List.map_map]
            exact List.map_congr_left fun p hp => Transcript.getElem?_ofDirection
              (RangeSet.stop_le_iff.mp hstop p hp)
    exact List.map_injective_iff.mpr (Option.some_injective _) hbytes
  · have hempty : ¬ idx.isEmpty = true := by
      intro hempty
      apply hstop
      rw [RangeSet.stop_le_iff]
      exact fun n hn => absurd hn (RangeSet.isEmpty_iff.mp hempty n)
    have hnone : transcript.get d idx = none := dif_pos (Nat.lt_of_not_le hstop)
    refine ⟨none, get_of_not_le (not_or.mpr ⟨hempty, hlen.symm ▸ hstop⟩), ?_⟩
    rw [hnone]
    rfl

/-- The references found for an index denote the positions of the index, in order; and where
memory holds the transcript, they denote its bytes there. -/
theorem get_addresses {ε : Type} (refs : TranscriptRefs) (d : Direction) (idx : Idx) :
    ((∃ slices, (refs.get d idx : Except (Fault ε) _) = .ok (some slices)) ↔
      idx.isEmpty ∨ idx.stop ≤ (addresses (refs.ofDirection d)).length) ∧
    (∃ found, (refs.get d idx : Except (Fault ε) _) = .ok found) ∧
    (∀ slices, (refs.get d idx : Except (Fault ε) _) = .ok (some slices) →
      (addresses slices).map some =
        idx.vals.map fun p => (addresses (refs.ofDirection d))[p]?) ∧
    ∀ (mem : Memory) (t : TlsTranscript) (transcript : Transcript),
      t.HeldIn mem → t.toTranscript = .ok transcript → t.toTranscriptRefs = .ok refs →
      ∃ found, (refs.get d idx : Except (Fault ε) _) = .ok found ∧
        found.map (fun slices => slices.flatMap mem.read) =
          (transcript.get d idx).map Subsequence.data := by
  refine ⟨?_, ?_, ?_, fun mem t transcript hheld ht hrefs =>
    read_get (TlsTranscript.read_refs hheld ht hrefs d) idx⟩
  · constructor
    · intro h
      obtain ⟨slices, hslices⟩ := h
      by_contra hnot
      rw [get_of_not_le hnot] at hslices
      cases hslices
    · intro h
      obtain ⟨slices, hslices, -⟩ := get_of_le (ε := ε) h
      exact ⟨slices, hslices⟩
  · by_cases h : idx.isEmpty ∨ idx.stop ≤ (addresses (refs.ofDirection d)).length
    · obtain ⟨slices, hslices, -⟩ := get_of_le (ε := ε) h
      exact ⟨some slices, hslices⟩
    · exact ⟨none, get_of_not_le h⟩
  · intro slices hslices
    by_cases h : idx.isEmpty ∨ idx.stop ≤ (addresses (refs.ofDirection d)).length
    · obtain ⟨slices', hslices', hdenotes⟩ := get_of_le (ε := ε) h
      rw [hslices] at hslices'
      cases hslices'
      exact hdenotes
    · rw [get_of_not_le h] at hslices
      cases hslices

-- Five records, and an index which ends in the middle of the last one.
example : (get ⟨[⟨6, 6⟩, ⟨14, 8⟩, ⟨30, 6⟩, ⟨44, 5⟩, ⟨55, 5⟩], []⟩ .sent
    (((RangeSet.ofRange ⟨0, 4⟩).union (RangeSet.ofRange ⟨5, 10⟩)).union
      (RangeSet.ofRange ⟨14, 28⟩)) :
      Except (Fault Empty) _).toOption =
    some (some [⟨6, 4⟩, ⟨11, 1⟩, ⟨14, 4⟩, ⟨30, 6⟩, ⟨44, 5⟩, ⟨55, 3⟩]) := by
  decide +kernel

def sampleRecords : TlsTranscript where
  sent := []
  recv := [⟨0, .applicationData, some [8, 9], some ⟨8, 2⟩, [], [0, 0]⟩,
    ⟨1, .applicationData, some [20, 21, 22], some ⟨20, 3⟩, [], [0, 0, 0]⟩]

/-- Every byte is its own address. -/
def sampleMemory : Memory := UInt8.ofNat

theorem sampleRecords_held : sampleRecords.HeldIn sampleMemory := by
  intro record hrecord _ plaintext plaintextRef hplaintext hplaintextRef
  simp only [sampleRecords, List.nil_append, List.mem_cons, List.not_mem_nil, or_false] at hrecord
  rcases hrecord with rfl | rfl
  · cases hplaintext
    cases hplaintextRef
    rfl
  · cases hplaintext
    cases hplaintextRef
    rfl

theorem get_addresses_sample :
    ∃ found, (get ⟨[], [⟨8, 2⟩, ⟨20, 3⟩]⟩ .received (RangeSet.ofRange ⟨1, 4⟩) :
        Except (Fault Empty) _) = .ok found ∧
      found.map (fun slices => slices.flatMap sampleMemory.read) =
        (Transcript.get ⟨[], [8, 9, 20, 21, 22]⟩ .received (RangeSet.ofRange ⟨1, 4⟩)).map
          Subsequence.data :=
  (get_addresses ⟨[], [⟨8, 2⟩, ⟨20, 3⟩]⟩ .received (RangeSet.ofRange ⟨1, 4⟩)).2.2.2 sampleMemory
    sampleRecords ⟨[], [8, 9, 20, 21, 22]⟩ sampleRecords_held rfl rfl

end TranscriptRefs

end Tlsn.Common

import Tlsn.Core.Transcript

/-!
Views of a transcript, which disclose the bytes that an index selects and are
zero elsewhere. The union of two views of one transcript is the view of the union
of what they select, so partial views of one transcript form a semilattice.
-/

namespace Tlsn.Core

theorem PartialTranscript.ext_directions {t t' : PartialTranscript}
    (hdata : ∀ d, t.ofDirection d = t'.ofDirection d) (hauthed : ∀ d, t.authed d = t'.authed d) :
    t = t' := by
  cases t with
  | mk sent received sentAuthedIdx receivedAuthedIdx =>
      cases t' with
      | mk sent' received' sentAuthedIdx' receivedAuthedIdx' =>
          have hs : sent = sent' := hdata .sent
          have hr : received = received' := hdata .received
          have hsi : sentAuthedIdx = sentAuthedIdx' := hauthed .sent
          have hri : receivedAuthedIdx = receivedAuthedIdx' := hauthed .received
          rw [hs, hr, hsi, hri]

namespace Transcript

/-- The bytes of an index, in a buffer of zeroes. -/
def discloseData {ε : Type} (data : List UInt8) (idx : Idx) : Except (Fault ε) (List UInt8) :=
  copyRanges (fun r _ => (data.drop r.start).take r.len) idx.iterRanges 0
    (List.replicate data.length 0)

def toPartial {ε : Type} (t : Transcript) (sentIdx recvIdx : Idx) :
    Except (Fault ε) PartialTranscript := do
  let sent ← discloseData t.sent sentIdx
  let received ← discloseData t.received recvIdx
  return {
    sent := sent
    received := received
    sentAuthedIdx := sentIdx
    receivedAuthedIdx := recvIdx }

/-- Indices of both directions, within the bounds of the transcript. -/
structure Selection (t : Transcript) where
  idx : Direction → Idx
  bound : ∀ d, (idx d).stop ≤ t.lenOfDirection d

/-- The bytes of `data` at the positions of an index, and zero elsewhere. -/
def mask (data : List UInt8) (idx : Idx) : List UInt8 :=
  (List.range data.length).map fun p => if p ∈ idx then data.getD p 0 else 0

@[simp] theorem length_mask (data : List UInt8) (idx : Idx) :
    (mask data idx).length = data.length := by
  simp [mask]

theorem getElem?_mask (data : List UInt8) (idx : Idx) (p : Nat) :
    (mask data idx)[p]? = if p ∈ idx then data[p]? else (List.replicate data.length 0)[p]? := by
  by_cases hp : p < data.length
  · rw [mask, List.getElem?_map, List.getElem?_range hp, Option.map_some]
    by_cases hmem : p ∈ idx
    · simp [hmem, List.getElem?_eq_getElem hp]
    · simp [hmem, hp]
  · have hlen : data.length ≤ p := Nat.le_of_not_lt hp
    rw [List.getElem?_eq_none (by simpa using hlen), List.getElem?_eq_none hlen,
      List.getElem?_eq_none (by simpa using hlen), ite_self]

theorem discloseData_eq {ε : Type} (data : List UInt8) (idx : Idx) (h : idx.stop ≤ data.length) :
    (discloseData data idx : Except (Fault ε) _) = .ok (mask data idx) := by
  obtain ⟨d, hd, -, hp⟩ := copyRanges_from (ε := ε) idx data (List.replicate data.length 0)
    (by simp) h
  have hmask : d = mask data idx := by
    apply List.ext_getElem?
    intro p
    rw [hp p, getElem?_mask]
  rw [discloseData, hd, hmask]

namespace Selection

variable {t : Transcript}

theorem ext {a b : t.Selection} (h : ∀ d, a.idx d = b.idx d) : a = b := by
  cases a with
  | mk idx bound =>
      cases b with
      | mk idx' bound' =>
          have hidx : idx = idx' := funext h
          subst hidx
          rfl

def union (a b : t.Selection) : t.Selection where
  idx d := (a.idx d).union (b.idx d)
  bound d := RangeSet.union_stop_le_iff.mpr ⟨a.bound d, b.bound d⟩

theorem union_comm (a b : t.Selection) : a.union b = b.union a :=
  ext fun d => RangeSet.union_comm (a.idx d) (b.idx d)

theorem union_assoc (a b c : t.Selection) : (a.union b).union c = a.union (b.union c) :=
  ext fun d => RangeSet.union_assoc (a.idx d) (b.idx d) (c.idx d)

theorem union_self (a : t.Selection) : a.union a = a :=
  ext fun d => RangeSet.union_self (a.idx d)

/-- What a selection discloses of its transcript. -/
def view (a : t.Selection) : PartialTranscript where
  sent := mask t.sent (a.idx .sent)
  received := mask t.received (a.idx .received)
  sentAuthedIdx := a.idx .sent
  receivedAuthedIdx := a.idx .received

@[simp] theorem view_ofDirection (a : t.Selection) (d : Direction) :
    a.view.ofDirection d = mask (t.ofDirection d) (a.idx d) := by
  cases d <;> rfl

@[simp] theorem view_authed (a : t.Selection) (d : Direction) : a.view.authed d = a.idx d := by
  cases d <;> rfl

theorem toPartial_eq {ε : Type} (a : t.Selection) :
    (t.toPartial (a.idx .sent) (a.idx .received) : Except (Fault ε) _) = .ok a.view := by
  unfold toPartial
  rw [discloseData_eq t.sent (a.idx .sent) (a.bound .sent),
    discloseData_eq t.received (a.idx .received) (a.bound .received)]
  rfl

theorem unionTranscript_view {ε : Type} (a b : t.Selection) :
    (a.view.unionTranscript b.view : Except (Fault ε) _) = .ok (a.union b).view := by
  obtain ⟨p, hp, hunion⟩ := PartialTranscript.unionTranscript_eq (ε := ε) a.view b.view
    (fun d => by simp)
    (fun d => by
      simpa [lenOfDirection] using Nat.le_trans RangeSet.difference_stop_le (b.bound d))
  have hview : p = (a.union b).view := by
    apply PartialTranscript.ext_directions
    · intro d
      apply List.ext_getElem?
      intro q
      rw [(hunion d).2.2 q]
      simp only [view_ofDirection, view_authed, getElem?_mask, union, RangeSet.mem_union]
      by_cases ha : q ∈ a.idx d
      · simp [ha]
      · by_cases hb : q ∈ b.idx d
        · simp [ha, hb]
        · simp [ha, hb]
    · intro d
      rw [(hunion d).1]
      simp [union]
  rw [hp, hview]

/-- Merging a subsequence of the transcript is the union, in one direction. -/
theorem unionSubsequence_view {ε : Type} (a b : t.Selection) (d : Direction) :
    ∃ seq p, t.get d (b.idx d) = some seq ∧
      (a.view.unionSubsequence d seq : Except (Fault ε) _) = .ok p ∧
      (p.ofDirection d = (a.union b).view.ofDirection d ∧
        p.authed d = (a.union b).view.authed d) ∧
      ∀ d', d' ≠ d → p.ofDirection d' = a.view.ofDirection d' ∧ p.authed d' = a.view.authed d' := by
  obtain ⟨seq, hget, hidx, hdata⟩ := t.get_of_le d (b.idx d) (b.bound d)
  rw [← hidx] at hdata
  have hbound : seq.idx.stop ≤ t.lenOfDirection d := hidx ▸ b.bound d
  obtain ⟨p, hp, hunion⟩ := PartialTranscript.unionSubsequence_eq (ε := ε) a.view d seq (t.byte d)
    hdata (by simpa [lenOfDirection] using hbound)
  refine ⟨seq, p, hget, hp, ⟨?_, ?_⟩, ?_⟩
  · apply List.ext_getElem?
    intro q
    rw [(hunion d).2.2 q, hidx]
    simp only [view_ofDirection, getElem?_mask, union, RangeSet.mem_union, true_and]
    by_cases hb : q ∈ b.idx d
    · have hlt : q < t.lenOfDirection d := RangeSet.stop_le_iff.mp (b.bound d) q hb
      simp [hb, getElem?_ofDirection hlt]
    · simp [hb]
  · rw [(hunion d).1, if_pos rfl, hidx]
    simp [union]
  · intro d' hd
    constructor
    · apply List.ext_getElem?
      intro q
      rw [(hunion d').2.2 q, if_neg (fun h => hd h.1)]
    · rw [(hunion d').1, if_neg hd]

/-- The union of views of one transcript is the view of the union, whichever of the two
operations merges them. -/
theorem union_homomorphism {ε : Type} (t : Transcript) (a b c : t.Selection) :
    (t.toPartial (a.idx .sent) (a.idx .received) : Except (Fault ε) _) = .ok a.view ∧
    (t.toPartial (b.idx .sent) (b.idx .received) : Except (Fault ε) _) = .ok b.view ∧
    (t.toPartial ((a.idx .sent).union (b.idx .sent)) ((a.idx .received).union (b.idx .received)) :
      Except (Fault ε) _) = .ok (a.union b).view ∧
    (a.view.unionTranscript b.view : Except (Fault ε) _) = .ok (a.union b).view ∧
    (a.view.unionTranscript b.view : Except (Fault ε) _) = b.view.unionTranscript a.view ∧
    (a.view.unionTranscript a.view : Except (Fault ε) _) = .ok a.view ∧
    ((do (← a.view.unionTranscript b.view).unionTranscript c.view) : Except (Fault ε) _) =
      (do a.view.unionTranscript (← b.view.unionTranscript c.view)) ∧
    ∀ d, ∃ seq p, t.get d (b.idx d) = some seq ∧
      (a.view.unionSubsequence d seq : Except (Fault ε) _) = .ok p ∧
      (p.ofDirection d = (a.union b).view.ofDirection d ∧
        p.authed d = (a.union b).view.authed d) ∧
      ∀ d', d' ≠ d →
        p.ofDirection d' = a.view.ofDirection d' ∧ p.authed d' = a.view.authed d' := by
  refine ⟨toPartial_eq a, toPartial_eq b, toPartial_eq (a.union b), unionTranscript_view a b,
    ?_, ?_, ?_, unionSubsequence_view a b⟩
  · rw [unionTranscript_view, unionTranscript_view, union_comm]
  · rw [unionTranscript_view, union_self]
  · rw [unionTranscript_view a b, unionTranscript_view b c, Fault.ok_bind, Fault.ok_bind,
      unionTranscript_view, unionTranscript_view, union_assoc]

/-- Two selections of a transcript which overlap in one byte, one of them in two ranges. -/
example : (do
      let t : Transcript := ⟨[1, 2, 3, 4, 5], [6, 7]⟩
      let a ← t.toPartial (RangeSet.ofRange ⟨0, 2⟩) (RangeSet.ofRange ⟨0, 1⟩)
      let b ← t.toPartial ((RangeSet.ofRange ⟨1, 3⟩).union (RangeSet.ofRange ⟨4, 5⟩)) RangeSet.empty
      a.unionTranscript b : Except (Fault Empty) PartialTranscript) =
    .ok ⟨[1, 2, 3, 0, 5], [6, 0], (RangeSet.ofRange ⟨0, 3⟩).union (RangeSet.ofRange ⟨4, 5⟩),
      RangeSet.ofRange ⟨0, 1⟩⟩ := rfl

end Selection

end Transcript

end Tlsn.Core

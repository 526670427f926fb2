import Tlsn.Core.PartialTranscript

/-!
The compressed form in which a partial transcript is sent: the authenticated
bytes, packed, with their index and the total lengths. Whoever receives it checks
that the index fits the packed bytes and the totals, which is what unpacking
needs.
-/

namespace Tlsn.Core

structure CompressedPartialTranscript where
  sentAuthed : List UInt8
  receivedAuthed : List UInt8
  sentIdx : Idx
  recvIdx : Idx
  sentTotal : Nat
  recvTotal : Nat
deriving DecidableEq

/-- What is deserialized, before it is validated. -/
structure CompressedPartialTranscriptUnchecked where
  sentAuthed : List UInt8
  receivedAuthed : List UInt8
  sentIdx : Idx
  recvIdx : Idx
  sentTotal : Nat
  recvTotal : Nat
deriving DecidableEq

structure InvalidCompressedPartialTranscript where
  msg : String
deriving DecidableEq

namespace InvalidCompressedPartialTranscript

def lengthMismatch : InvalidCompressedPartialTranscript :=
  ⟨"lengths of index and data don't match"⟩

def outOfBounds : InvalidCompressedPartialTranscript :=
  ⟨"ranges are not in bounds of the data"⟩

end InvalidCompressedPartialTranscript

def CompressedPartialTranscript.tryFrom (unchecked : CompressedPartialTranscriptUnchecked) :
    Except InvalidCompressedPartialTranscript CompressedPartialTranscript :=
  if unchecked.sentAuthed.length ≠ unchecked.sentIdx.len ∨
      unchecked.receivedAuthed.length ≠ unchecked.recvIdx.len then
    .error .lengthMismatch
  else if unchecked.sentIdx.stop > unchecked.sentTotal ∨
      unchecked.recvIdx.stop > unchecked.recvTotal then
    .error .outOfBounds
  else
    .ok {
      sentAuthed := unchecked.sentAuthed
      receivedAuthed := unchecked.receivedAuthed
      sentIdx := unchecked.sentIdx
      recvIdx := unchecked.recvIdx
      sentTotal := unchecked.sentTotal
      recvTotal := unchecked.recvTotal }

/-- The bytes at an index, of which every range must be within bounds. -/
def pack {ε : Type} (data : List UInt8) (idx : Idx) : Except (Fault ε) (List UInt8) :=
  if idx.stop ≤ data.length then .ok (indexRanges data idx) else .error .panic

/-- The loop of the decompression, in one direction. -/
def unpack {ε : Type} (data : List UInt8) (idx : Idx) (total : Nat) :
    Except (Fault ε) (List UInt8) :=
  copyRanges (fun r offset => (data.drop offset).take r.len) idx.iterRanges 0
    (List.replicate total 0)

def PartialTranscript.compress {ε : Type} (uncompressed : PartialTranscript) :
    Except (Fault ε) CompressedPartialTranscript := do
  let sentAuthed ← pack uncompressed.sent uncompressed.sentAuthedIdx
  let receivedAuthed ← pack uncompressed.received uncompressed.receivedAuthedIdx
  return {
    sentAuthed := sentAuthed
    receivedAuthed := receivedAuthed
    sentIdx := uncompressed.sentAuthedIdx
    recvIdx := uncompressed.receivedAuthedIdx
    sentTotal := uncompressed.sent.length
    recvTotal := uncompressed.received.length }

def CompressedPartialTranscript.decompress {ε : Type} (compressed : CompressedPartialTranscript) :
    Except (Fault ε) PartialTranscript := do
  let sent ← unpack compressed.sentAuthed compressed.sentIdx compressed.sentTotal
  let received ← unpack compressed.receivedAuthed compressed.recvIdx compressed.recvTotal
  return {
    sent := sent
    received := received
    sentAuthedIdx := compressed.sentIdx
    receivedAuthedIdx := compressed.recvIdx }

theorem pack_eq {ε : Type} (data : List UInt8) (idx : Idx) (h : idx.stop ≤ data.length) :
    (pack data idx : Except (Fault ε) _) = .ok (idx.vals.map fun p => data.getD p 0) := by
  rw [pack, if_pos h, indexRanges_eq_map data idx h]

/-- Unpacked bytes are where the index says, in a buffer of zeroes. -/
theorem unpack_eq {ε : Type} (data : List UInt8) (idx : Idx) (total : Nat)
    (hlen : data.length = idx.len) (hstop : idx.stop ≤ total) :
    ∃ dest, (unpack data idx total : Except (Fault ε) _) = .ok dest ∧ dest.length = total ∧
      (pack dest idx : Except (Fault ε) _) = .ok data ∧
      ∀ p, p < total → p ∉ idx → dest[p]? = some 0 := by
  obtain ⟨f, hf⟩ := Subsequence.exists_values ⟨idx, data, hlen.symm⟩
  obtain ⟨dest, hdest, hl, hp⟩ := Subsequence.copyTo_eq (ε := ε) ⟨idx, data, hlen.symm⟩ f
    (List.replicate total 0) hf (by simpa using hstop)
  rw [List.length_replicate] at hl
  refine ⟨dest, hdest, hl, ?_, ?_⟩
  · have hread : idx.vals.map (fun p => dest.getD p 0) = idx.vals.map f := by
      apply List.map_congr_left
      intro p hmem
      have hget : dest[p]? = some (f p) := (hp p).trans (if_pos hmem)
      simp [hget]
    rw [pack_eq dest idx (hl.symm ▸ hstop), hread]
    exact congrArg _ hf.symm
  · intro p hlt hmem
    rw [hp p, if_neg hmem]
    simp [hlt]

/-- Packing and unpacking keeps the bytes at the index, and sets the others to zero. -/
theorem unpack_pack {ε : Type} (data : List UInt8) (idx : Idx) (h : idx.stop ≤ data.length) :
    ∃ packed dest, (pack data idx : Except (Fault ε) _) = .ok packed ∧
      packed.length = idx.len ∧
      (unpack packed idx data.length : Except (Fault ε) _) = .ok dest ∧
      dest.length = data.length ∧
      ∀ p, p < data.length → dest[p]? = if p ∈ idx then data[p]? else some 0 := by
  have hpack := pack_eq (ε := ε) data idx h
  have hlen : (idx.vals.map fun p => data.getD p 0).length = idx.len := by
    rw [List.length_map, RangeSet.len]
  obtain ⟨dest, hdest, hl, hread, hzero⟩ := unpack_eq (ε := ε) _ idx data.length hlen h
  refine ⟨_, dest, hpack, hlen, hdest, hl, ?_⟩
  intro p hp
  by_cases hmem : p ∈ idx
  · rw [pack_eq dest idx (hl.symm ▸ h), Except.ok.injEq, List.map_inj_left] at hread
    have hpd : p < dest.length := hl.symm ▸ hp
    have hbyte := hread p hmem
    simp only [List.getD_eq_getElem?_getD, List.getElem?_eq_getElem hp,
      List.getElem?_eq_getElem hpd, Option.getD_some] at hbyte
    rw [if_pos hmem, List.getElem?_eq_getElem hp, List.getElem?_eq_getElem hpd, hbyte]
  · rw [if_neg hmem]
    exact hzero p hp hmem

namespace CompressedPartialTranscript

def unchecked (compressed : CompressedPartialTranscript) :
    CompressedPartialTranscriptUnchecked where
  sentAuthed := compressed.sentAuthed
  receivedAuthed := compressed.receivedAuthed
  sentIdx := compressed.sentIdx
  recvIdx := compressed.recvIdx
  sentTotal := compressed.sentTotal
  recvTotal := compressed.recvTotal

theorem tryFrom_ok_iff {u : CompressedPartialTranscriptUnchecked}
    {c : CompressedPartialTranscript} :
    tryFrom u = .ok c ↔ u = c.unchecked ∧
      (c.sentAuthed.length = c.sentIdx.len ∧ c.receivedAuthed.length = c.recvIdx.len) ∧
      c.sentIdx.stop ≤ c.sentTotal ∧ c.recvIdx.stop ≤ c.recvTotal := by
  unfold tryFrom
  constructor
  · intro h
    split at h
    · cases h
    · rename_i hlen
      split at h
      · cases h
      · rename_i hstop
        cases h
        rw [not_or] at hlen hstop
        exact ⟨rfl, ⟨not_not.mp hlen.1, not_not.mp hlen.2⟩, Nat.le_of_not_lt hstop.1,
          Nat.le_of_not_lt hstop.2⟩
  · rintro ⟨rfl, ⟨hsent, hrecv⟩, hsentStop, hrecvStop⟩
    rw [if_neg (by simp [unchecked, hsent, hrecv]),
      if_neg (by simp [unchecked, hsentStop, hrecvStop])]
    rfl

/-- What is accepted decompresses, and compresses to itself. -/
theorem compress_decompress {ε : Type} {u : CompressedPartialTranscriptUnchecked}
    {c : CompressedPartialTranscript} (h : tryFrom u = .ok c) :
    ∃ t, (c.decompress : Except (Fault ε) _) = .ok t ∧
      (t.compress : Except (Fault ε) _) = .ok c := by
  obtain ⟨-, ⟨hsentLen, hrecvLen⟩, hsentStop, hrecvStop⟩ := tryFrom_ok_iff.mp h
  obtain ⟨sent, hsent, hsentTotal, hsentRead, -⟩ :=
    unpack_eq (ε := ε) c.sentAuthed c.sentIdx c.sentTotal hsentLen hsentStop
  obtain ⟨received, hrecv, hrecvTotal, hrecvRead, -⟩ :=
    unpack_eq (ε := ε) c.receivedAuthed c.recvIdx c.recvTotal hrecvLen hrecvStop
  refine ⟨⟨sent, received, c.sentIdx, c.recvIdx⟩, ?_, ?_⟩
  · exact Fault.bind_ok_iff.mpr ⟨sent, hsent, Fault.bind_ok_iff.mpr ⟨received, hrecv, rfl⟩⟩
  · refine Fault.bind_ok_iff.mpr ⟨_, hsentRead, Fault.bind_ok_iff.mpr ⟨_, hrecvRead, ?_⟩⟩
    dsimp only
    rw [hsentTotal, hrecvTotal]
    rfl

end CompressedPartialTranscript

namespace PartialTranscript

open CompressedPartialTranscript

/-- A transcript marks no byte outside its bounds as authenticated. -/
def InBounds (t : PartialTranscript) : Prop :=
  ∀ d, (t.authed d).stop ≤ (t.ofDirection d).length

theorem inBounds_of_compress {ε : Type} {t : PartialTranscript} {c : CompressedPartialTranscript}
    (h : (t.compress : Except (Fault ε) _) = .ok c) : t.InBounds := by
  have hstop : ∀ (data : List UInt8) (idx : Idx) (packed : List UInt8),
      (pack data idx : Except (Fault ε) _) = .ok packed → idx.stop ≤ data.length := by
    intro data idx packed hpack
    by_contra hnot
    rw [pack, if_neg hnot] at hpack
    cases hpack
  obtain ⟨sent, hsent, h⟩ := Fault.bind_ok_iff.mp h
  obtain ⟨received, hreceived, -⟩ := Fault.bind_ok_iff.mp h
  intro d
  cases d with
  | sent => exact hstop _ _ _ hsent
  | received => exact hstop _ _ _ hreceived

theorem decompress_compress {ε : Type} {t : PartialTranscript} (h : t.InBounds) :
    ∃ c t', (t.compress : Except (Fault ε) _) = .ok c ∧ tryFrom c.unchecked = .ok c ∧
      (c.decompress : Except (Fault ε) _) = .ok t' ∧
      ∀ d, t'.authed d = t.authed d ∧ (t'.ofDirection d).length = (t.ofDirection d).length ∧
        ∀ p, p < (t.ofDirection d).length → (t'.ofDirection d)[p]? =
          if p ∈ t.authed d then (t.ofDirection d)[p]? else some 0 := by
  obtain ⟨sentAuthed, sent, hsentPack, hsentLen, hsentUnpack, hsentRead⟩ :=
    unpack_pack (ε := ε) t.sent t.sentAuthedIdx (h .sent)
  obtain ⟨receivedAuthed, received, hrecvPack, hrecvLen, hrecvUnpack, hrecvRead⟩ :=
    unpack_pack (ε := ε) t.received t.receivedAuthedIdx (h .received)
  refine ⟨⟨sentAuthed, receivedAuthed, t.sentAuthedIdx, t.receivedAuthedIdx, t.sent.length,
    t.received.length⟩, ⟨sent, received, t.sentAuthedIdx, t.receivedAuthedIdx⟩, ?_, ?_, ?_, ?_⟩
  · exact Fault.bind_ok_iff.mpr ⟨_, hsentPack, Fault.bind_ok_iff.mpr ⟨_, hrecvPack, rfl⟩⟩
  · exact tryFrom_ok_iff.mpr ⟨rfl, ⟨hsentLen, hrecvLen⟩, h .sent, h .received⟩
  · exact Fault.bind_ok_iff.mpr ⟨_, hsentUnpack, Fault.bind_ok_iff.mpr ⟨_, hrecvUnpack, rfl⟩⟩
  · intro d
    cases d with
    | sent => exact ⟨rfl, hsentRead⟩
    | received => exact ⟨rfl, hrecvRead⟩

/-- Compression and decompression are inverse on what is accepted, and on the authenticated
bytes of every partial transcript. -/
theorem compression_roundtrip {ε : Type} :
    (∀ (u : CompressedPartialTranscriptUnchecked) (c : CompressedPartialTranscript),
      tryFrom u = .ok c → ∃ t, (c.decompress : Except (Fault ε) _) = .ok t ∧
        (t.compress : Except (Fault ε) _) = .ok c) ∧
    ∀ t : PartialTranscript, t.InBounds →
      ∃ c t', (t.compress : Except (Fault ε) _) = .ok c ∧ tryFrom c.unchecked = .ok c ∧
        (c.decompress : Except (Fault ε) _) = .ok t' ∧
        ∀ d, t'.authed d = t.authed d ∧ (t'.ofDirection d).length = (t.ofDirection d).length ∧
          ∀ p, p < (t.ofDirection d).length → (t'.ofDirection d)[p]? =
            if p ∈ t.authed d then (t.ofDirection d)[p]? else some 0 :=
  ⟨fun _ _ h => compress_decompress h, fun _ h => decompress_compress h⟩

/-- Two runs of bytes, as they are sent. -/
def sampleCompressed : CompressedPartialTranscript :=
  ⟨[4, 5, 14], [1, 11], RangeSet.ofList [4, 5, 14], RangeSet.ofList [1, 11], 20, 20⟩

theorem compression_roundtrip_sample :
    ∃ t, (sampleCompressed.decompress : Except (Fault Empty) _) = .ok t ∧
      (t.compress : Except (Fault Empty) _) = .ok sampleCompressed :=
  (compression_roundtrip (ε := Empty)).1 sampleCompressed.unchecked sampleCompressed (by decide)

end PartialTranscript

end Tlsn.Core

import Tlsn.Core.Encoder
import Tlsn.Library.ChaCha

/-!
Random access to the encodings. The encoder seeks its generator to every range of an
index and fills the buffer range by range; the generator keeps the position it reached.
What is filled in for a position is the same whatever index the position is part of.
-/

namespace Tlsn.Core

/-- Filling moves the generator on by whole words. -/
def ChaCha12Rng.fill (chacha : ChaCha12) (prg : ChaCha12Rng) (len : Nat) :
    List UInt8 × ChaCha12Rng :=
  (prg.fillBytes chacha len, prg.setWordPos (prg.wordPos + (len + 3) / 4))

namespace ChaChaEncoder

/-- The generator, the buffer and the position in it. -/
structure Filling where
  prg : ChaCha12Rng
  encoding : List UInt8
  pos : Nat

section

variable (chacha : ChaCha12) (encoder : ChaChaEncoder)

def fillRange (st : Filling) (range : PosRange) : Except (Fault Empty) Filling := do
  let len := range.len * byteEncodingSize
  let (bytes, prg) := (st.prg.setWordPos (range.start * wordsPerByte)).fill chacha len
  let encoding ← copyRange st.encoding ⟨st.pos, st.pos + len⟩ bytes
  return ⟨prg, encoding, st.pos + len⟩

/-- The loop of `encode_idx`. -/
def fillIdx (direction : Direction) (idx : Idx) : Except (Fault Empty) (List UInt8) := do
  let prg := encoder.newPrg (streamId direction)
  let st ← idx.iterRanges.foldlM (fillRange chacha)
    ⟨prg, List.replicate (idx.len * byteEncodingSize) 0, 0⟩
  return st.encoding

def fillSubsequence (direction : Direction) (seq : Subsequence) :
    Except (Fault Empty) (List UInt8) := do
  let encoding ← encoder.fillIdx chacha direction seq.idx
  return List.zipWith (· ^^^ ·) encoding ((iterLsb0 seq.data).flatMap encoder.summand)

/-- The encodings of the bytes of a range. -/
def rangeEncoding (direction : Direction) (range : PosRange) : List UInt8 :=
  ((encoder.newPrg (streamId direction)).setWordPos (range.start * wordsPerByte)).fillBytes chacha
    (range.len * byteEncodingSize)

end

variable {chacha : ChaCha12} {encoder : ChaChaEncoder}

theorem length_rangeEncoding (direction : Direction) (range : PosRange) :
    (encoder.rangeEncoding chacha direction range).length = range.len * byteEncodingSize := by
  simp [rangeEncoding, ChaCha12Rng.fillBytes]

/-- Where the generator was left does not matter, and one range fills what comes next. -/
theorem fillRange_eq (chacha : ChaCha12) {direction : Direction} {st : Filling} (range : PosRange)
    {done rest : List UInt8} (hseed : st.prg.seed = encoder.seed)
    (hstream : st.prg.stream = streamId direction) (hbuf : st.encoding = done ++ rest)
    (hpos : st.pos = done.length) (hroom : range.len * byteEncodingSize ≤ rest.length) :
    ∃ prg, fillRange chacha st range = .ok
        ⟨prg, (done ++ encoder.rangeEncoding chacha direction range) ++
          rest.drop (range.len * byteEncodingSize), st.pos + range.len * byteEncodingSize⟩ ∧
      prg.seed = encoder.seed ∧ prg.stream = streamId direction := by
  obtain ⟨prg, encoding, pos⟩ := st
  simp only at hseed hstream hbuf hpos
  subst hbuf hpos
  have hbytes : (prg.setWordPos (range.start * wordsPerByte)).fillBytes chacha
      (range.len * byteEncodingSize) = encoder.rangeEncoding chacha direction range := by
    simp only [rangeEncoding, ChaCha12Rng.fillBytes, ChaCha12Rng.setWordPos, newPrg, hseed, hstream]
  have hcopy : copyRange (ε := Empty) (done ++ rest)
      ⟨done.length, done.length + range.len * byteEncodingSize⟩
      (encoder.rangeEncoding chacha direction range) =
        .ok ((done ++ encoder.rangeEncoding chacha direction range) ++
          rest.drop (range.len * byteEncodingSize)) := by
    have hif : done.length ≤ done.length + range.len * byteEncodingSize ∧
        done.length + range.len * byteEncodingSize ≤ (done ++ rest).length ∧
        (encoder.rangeEncoding chacha direction range).length =
          PosRange.len ⟨done.length, done.length + range.len * byteEncodingSize⟩ := by
      rw [List.length_append, length_rangeEncoding]
      exact ⟨Nat.le_add_right _ _, Nat.add_le_add_left hroom _,
        (Nat.add_sub_cancel_left _ _).symm⟩
    rw [copyRange, if_pos hif, List.take_left' rfl, List.drop_append,
      List.drop_eq_nil_of_le (Nat.le_add_right _ _), List.nil_append, Nat.add_sub_cancel_left]
  simp only [fillRange, ChaCha12Rng.fill, hbytes, hcopy]
  exact ⟨_, rfl, hseed, hstream⟩

theorem fillRanges_eq (chacha : ChaCha12) {direction : Direction} (ranges : List PosRange)
    (st : Filling) (done rest : List UInt8) (hseed : st.prg.seed = encoder.seed)
    (hstream : st.prg.stream = streamId direction) (hbuf : st.encoding = done ++ rest)
    (hpos : st.pos = done.length)
    (hroom : rest.length = (ranges.flatMap (encoder.rangeEncoding chacha direction)).length) :
    ∃ st', ranges.foldlM (fillRange chacha) st = .ok st' ∧
      st'.encoding = done ++ ranges.flatMap (encoder.rangeEncoding chacha direction) := by
  induction ranges generalizing st done rest with
  | nil =>
      have hrest : rest = [] := List.eq_nil_of_length_eq_zero (by simpa using hroom)
      subst hrest
      exact ⟨st, rfl, by simpa using hbuf⟩
  | cons range ranges ih =>
      rw [List.flatMap_cons, List.length_append, length_rangeEncoding] at hroom
      obtain ⟨prg, hfill, hseed', hstream'⟩ := fillRange_eq chacha range hseed hstream hbuf hpos
        (by omega)
      obtain ⟨st', hrun, hst'⟩ := ih ⟨prg, _, st.pos + range.len * byteEncodingSize⟩
        (done ++ encoder.rangeEncoding chacha direction range)
        (rest.drop (range.len * byteEncodingSize)) hseed' hstream' rfl
        (by rw [List.length_append, length_rangeEncoding, hpos])
        (by rw [List.length_drop]; omega)
      refine ⟨st', ?_, ?_⟩
      · rw [List.foldlM_cons]
        exact Fault.bind_ok_iff.mpr ⟨_, hfill, hrun⟩
      · rw [hst', List.flatMap_cons, List.append_assoc]

/-- The loop returns the encoding of the index. -/
theorem fillIdx_eq (direction : Direction) (idx : Idx) :
    encoder.fillIdx chacha direction idx = .ok (encoder.encodeIdx chacha direction idx) := by
  have hlen : (encoder.encodeIdx chacha direction idx).length = idx.len * byteEncodingSize := by
    rw [length_encodeIdx, Nat.mul_comm]
  have hroom : (List.replicate (idx.len * byteEncodingSize) (0 : UInt8)).length =
      (idx.iterRanges.flatMap (encoder.rangeEncoding chacha direction)).length := by
    rw [List.length_replicate]
    exact hlen.symm
  obtain ⟨st, hrun, hst⟩ := fillRanges_eq chacha idx.iterRanges
    ⟨encoder.newPrg (streamId direction), List.replicate (idx.len * byteEncodingSize) 0, 0⟩ []
    (List.replicate (idx.len * byteEncodingSize) 0) rfl rfl rfl rfl hroom
  refine Fault.bind_ok_iff.mpr ⟨st, hrun, ?_⟩
  rw [hst]
  rfl

theorem fillSubsequence_eq (direction : Direction) (seq : Subsequence) :
    encoder.fillSubsequence chacha direction seq =
      .ok (encoder.encodeSubsequence chacha direction seq) :=
  Fault.bind_ok_iff.mpr ⟨_, fillIdx_eq direction seq.idx, rfl⟩

/-- The part of an encoding which belongs to the byte at index `k`. -/
def slice (encoding : List UInt8) (k : Nat) : List UInt8 :=
  (encoding.drop (k * byteEncodingSize)).take byteEncodingSize

theorem slice_flatMap {α : Type} {f : α → List UInt8} (hf : ∀ a, (f a).length = byteEncodingSize)
    {l : List α} {k : Nat} {a : α} (h : l[k]? = some a) : slice (l.flatMap f) k = f a := by
  obtain ⟨hlt, rfl⟩ := List.getElem?_eq_some_iff.mp h
  have htake := PosRange.take_flatMap_mul hf (l.drop k) 1
  rw [Nat.one_mul] at htake
  rw [slice, PosRange.drop_flatMap_mul hf, htake, List.drop_eq_getElem_cons hlt,
    List.take_succ_cons, List.take_zero, List.flatMap_singleton]

theorem slice_encodeIdx {direction : Direction} {n p : Nat} (h : p < n) :
    slice (encoder.encodeIdx chacha direction (.ofRange ⟨0, n⟩)) p =
      encoder.zeroEncoding chacha direction p := by
  rw [encodeIdx_eq]
  refine slice_flatMap (encoder.length_zeroEncoding chacha direction) ?_
  simp [RangeSet.ofRange, PosRange.vals, PosRange.len, h]

theorem slice_encodeSubsequence {direction : Direction} {t : Transcript} {idx : Idx}
    {seq : Subsequence} (hseq : t.get direction idx = some seq) {p k : Nat}
    (h : idx.vals[k]? = some p) :
    slice (encoder.encodeSubsequence chacha direction seq) k =
      encoder.encodeByte chacha direction p (t.byte direction p) := by
  obtain ⟨rfl, _, hdata⟩ := Transcript.get_eq_some hseq
  rw [encodeSubsequence_eq, hdata]
  refine slice_flatMap (a := (p, t.byte direction p))
    (fun pb => encoder.length_encodeByte chacha direction pb.1 pb.2) ?_
  rw [List.getElem?_zip_eq_some, List.getElem?_map, h]
  exact ⟨rfl, rfl⟩

theorem streamId_injective : Function.Injective streamId := by
  intro d d' h
  cases d with
  | sent =>
      cases d' with
      | sent => rfl
      | received => cases h
  | received =>
      cases d' with
      | sent => cases h
      | received => rfl

/-- Only the stream of the direction is drawn from. -/
theorem encodeIdx_congr {chacha' : ChaCha12} {direction : Direction}
    (h : chacha encoder.seed (streamId direction) = chacha' encoder.seed (streamId direction))
    (idx : Idx) :
    encoder.encodeIdx chacha direction idx = encoder.encodeIdx chacha' direction idx := by
  rw [encodeIdx_eq, encodeIdx_eq]
  apply List.flatMap_congr
  intro p _
  simp only [zeroEncoding, h]

/-- What the encoder returns for all positions is the stream of the direction, 128 bytes a
position; what it returns for an index is made of slices of it. Subsequences of one transcript
agree where they overlap, and the directions have streams of their own. -/
theorem encoder_random_access (chacha : ChaCha12) (encoder : ChaChaEncoder) :
    (∀ (direction : Direction) (n : Nat), ∃ whole,
      encoder.fillIdx chacha direction (.ofRange ⟨0, n⟩) = .ok whole ∧
        whole.length = byteEncodingSize * n ∧
        (∀ p < n, slice whole p = encoder.zeroEncoding chacha direction p) ∧
        ∀ idx : Idx, (∀ p ∈ idx, p < n) →
          encoder.fillIdx chacha direction idx = .ok (idx.vals.flatMap (slice whole))) ∧
    (∀ (direction : Direction) (t : Transcript) (idx idx' : Idx) (seq seq' : Subsequence),
      t.get direction idx = some seq → t.get direction idx' = some seq' →
      ∃ e e', encoder.fillSubsequence chacha direction seq = .ok e ∧
        encoder.fillSubsequence chacha direction seq' = .ok e' ∧
        (∀ p k, idx.vals[k]? = some p →
          slice e k = encoder.encodeByte chacha direction p (t.byte direction p)) ∧
        ∀ p k k', idx.vals[k]? = some p → idx'.vals[k']? = some p → slice e k = slice e' k') ∧
    (streamId .sent ≠ streamId .received ∧
      ∀ (chacha' : ChaCha12) (direction : Direction),
        chacha encoder.seed (streamId direction) = chacha' encoder.seed (streamId direction) →
        ∀ idx : Idx,
          encoder.fillIdx chacha direction idx = encoder.fillIdx chacha' direction idx) := by
  refine ⟨?_, ?_, ?_, ?_⟩
  · intro direction n
    refine ⟨_, fillIdx_eq direction _, ?_, fun p hp => slice_encodeIdx hp, ?_⟩
    · rw [length_encodeIdx, RangeSet.len, RangeSet.ofRange, PosRange.length_vals, PosRange.len,
        Nat.sub_zero]
    · intro idx hidx
      rw [fillIdx_eq, encodeIdx_eq]
      congr 1
      apply List.flatMap_congr
      intro p hp
      exact (slice_encodeIdx (hidx p hp)).symm
  · intro direction t idx idx' seq seq' hseq hseq'
    refine ⟨_, _, fillSubsequence_eq direction seq, fillSubsequence_eq direction seq', ?_, ?_⟩
    · intro p k hk
      exact slice_encodeSubsequence hseq hk
    · intro p k k' hk hk'
      rw [slice_encodeSubsequence hseq hk, slice_encodeSubsequence hseq' hk']
  · intro h
    cases streamId_injective h
  · intro chacha' direction hstream idx
    rw [fillIdx_eq, fillIdx_eq, encodeIdx_congr hstream]

/-- The first and the third position of three, with twelve rounds: the encoding of the third one
is the second part of what is returned for both. -/
theorem encoder_random_access_chacha12 :
    ∃ whole,
      (ChaChaEncoder.mk (Vector.replicate 32 7) (Vector.replicate 16 1)).fillIdx (ChaCha.byte 6)
          .sent (.ofRange ⟨0, 3⟩) = .ok whole ∧ whole.length = 384 ∧
        (ChaChaEncoder.mk (Vector.replicate 32 7) (Vector.replicate 16 1)).fillIdx (ChaCha.byte 6)
          .sent (.ofList [0, 2]) = .ok ([0, 2].flatMap (slice whole)) := by
  obtain ⟨whole, hwhole, hlen, -, hidx⟩ := (encoder_random_access (ChaCha.byte 6)
    ⟨Vector.replicate 32 7, Vector.replicate 16 1⟩).1 .sent 3
  exact ⟨whole, hwhole, hlen, hidx (.ofList [0, 2]) (by decide)⟩

end ChaChaEncoder

end Tlsn.Core

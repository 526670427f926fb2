import Mathlib.Tactic.Ring
import Tlsn.Core.Transcript

/-!
The encoder of transcript data. Every bit of a byte at some position has a
16-byte encoding, a slice of the generator's stream for the zero bit and the same
slice shifted by delta for the one bit. The encoding of a subsequence is shown to
be the concatenation of the encodings of its bytes, each depending on the
direction, the position and the byte only.
-/

namespace Tlsn.Core

def bitEncodingSize : Nat := 16
def byteEncodingSize : Nat := 128

structure EncoderSecret where
  seed : Vector UInt8 32
  delta : Vector UInt8 16
deriving DecidableEq

/-- The generator's stream cipher: byte `n` of a stream under a seed. -/
abbrev ChaCha12 := Vector UInt8 32 → UInt64 → Nat → UInt8

structure ChaCha12Rng where
  seed : Vector UInt8 32
  stream : UInt64
  wordPos : Nat

namespace ChaCha12Rng

def setWordPos (prg : ChaCha12Rng) (wordPos : Nat) : ChaCha12Rng := { prg with wordPos := wordPos }

def fillBytes (chacha : ChaCha12) (prg : ChaCha12Rng) (len : Nat) : List UInt8 :=
  (List.range len).map fun i => chacha prg.seed prg.stream (4 * prg.wordPos + i)

end ChaCha12Rng

structure ChaChaEncoder where
  seed : Vector UInt8 32
  delta : Vector UInt8 16

/-- The bits of the data, lowest bit of each byte first. -/
def iterLsb0 (data : List UInt8) : List Bool :=
  data.flatMap fun b => (List.range 8).map fun i => b.toNat.testBit i

namespace ChaChaEncoder

def new (secret : EncoderSecret) : ChaChaEncoder := ⟨secret.seed, secret.delta⟩

def newPrg (encoder : ChaChaEncoder) (streamId : UInt64) : ChaCha12Rng :=
  ⟨encoder.seed, streamId, 0⟩

/-- The generator has 32-bit words, and each encoded bit is 128 bits long. -/
def wordsPerByte : Nat := 8 * 128 / 32

def streamId : Direction → UInt64
  | .sent => 0
  | .received => 1

variable (chacha : ChaCha12) (encoder : ChaChaEncoder)

def encodeIdx (direction : Direction) (idx : Idx) : List UInt8 :=
  let prg := encoder.newPrg (streamId direction)
  idx.iterRanges.flatMap fun range =>
    (prg.setWordPos (range.start * wordsPerByte)).fillBytes chacha (range.len * byteEncodingSize)

def summand (bit : Bool) : List UInt8 :=
  if bit then encoder.delta.toList else List.replicate bitEncodingSize 0

def encodeSubsequence (direction : Direction) (seq : Subsequence) : List UInt8 :=
  List.zipWith (· ^^^ ·) (encoder.encodeIdx chacha direction seq.idx)
    ((iterLsb0 seq.data).flatMap encoder.summand)

/-! ## Encodings byte by byte -/

def zeroEncoding (direction : Direction) (pos : Nat) : List UInt8 :=
  (List.range byteEncodingSize).map fun i =>
    chacha encoder.seed (streamId direction) (byteEncodingSize * pos + i)

def encodeByte (direction : Direction) (pos : Nat) (byte : UInt8) : List UInt8 :=
  List.zipWith (· ^^^ ·) (encoder.zeroEncoding chacha direction pos)
    ((iterLsb0 [byte]).flatMap encoder.summand)

@[simp] theorem length_summand (bit : Bool) :
    (encoder.summand bit).length = bitEncodingSize := by
  cases bit <;> simp [summand, bitEncodingSize]

theorem length_flatMap_summand (byte : UInt8) :
    ((iterLsb0 [byte]).flatMap encoder.summand).length = byteEncodingSize := by
  rw [List.length_flatMap]
  simp [iterLsb0, bitEncodingSize, byteEncodingSize, Function.comp_def]

@[simp] theorem length_zeroEncoding (direction : Direction) (pos : Nat) :
    (encoder.zeroEncoding chacha direction pos).length = byteEncodingSize := by
  simp [zeroEncoding]

@[simp] theorem length_encodeByte (direction : Direction) (pos : Nat) (byte : UInt8) :
    (encoder.encodeByte chacha direction pos byte).length = byteEncodingSize := by
  rw [encodeByte, List.length_zipWith, length_zeroEncoding, length_flatMap_summand, Nat.min_self]

private theorem map_range_mul (f : Nat → UInt8) (start n : Nat) :
    (List.range (n * byteEncodingSize)).map (fun i => f (byteEncodingSize * start + i)) =
      (List.range' start n).flatMap fun p =>
        (List.range byteEncodingSize).map fun i => f (byteEncodingSize * p + i) := by
  induction n generalizing start with
  | zero => simp
  | succ n ih =>
      have hsplit : (n + 1) * byteEncodingSize = byteEncodingSize + n * byteEncodingSize := by ring
      rw [List.range'_succ, List.flatMap_cons, ← ih (start + 1), hsplit, List.range_add,
        List.map_append, List.map_map]
      congr 1
      apply List.map_congr_left
      intro i _
      simp only [Function.comp_apply]
      congr 1
      ring

theorem encodeIdx_eq (direction : Direction) (idx : Idx) :
    encoder.encodeIdx chacha direction idx =
      idx.vals.flatMap (encoder.zeroEncoding chacha direction) := by
  have hrange : ∀ range : PosRange,
      ((encoder.newPrg (streamId direction)).setWordPos (range.start * wordsPerByte)).fillBytes
          chacha (range.len * byteEncodingSize) =
        range.vals.flatMap (encoder.zeroEncoding chacha direction) := by
    intro range
    have hpos : ∀ i, 4 * (range.start * wordsPerByte) + i = byteEncodingSize * range.start + i := by
      intro i
      simp only [wordsPerByte, byteEncodingSize]
      omega
    simp only [ChaCha12Rng.fillBytes, ChaCha12Rng.setWordPos, newPrg, hpos]
    exact map_range_mul (chacha encoder.seed (streamId direction)) range.start range.len
  simp only [encodeIdx, hrange]
  rw [← List.flatMap_assoc, idx.flatMap_iterRanges]

theorem length_encodeIdx (direction : Direction) (idx : Idx) :
    (encoder.encodeIdx chacha direction idx).length = byteEncodingSize * idx.len := by
  rw [encodeIdx_eq, List.length_flatMap]
  simp only [length_zeroEncoding, List.map_const', List.sum_replicate_nat]
  exact Nat.mul_comm _ _

private theorem zipWith_flatMap {α β : Type} (f : α → List UInt8) (g : β → List UInt8)
    (hfg : ∀ a b, (f a).length = (g b).length) (as : List α) (bs : List β)
    (h : as.length = bs.length) :
    List.zipWith (· ^^^ ·) (as.flatMap f) (bs.flatMap g) =
      (as.zip bs).flatMap fun ab => List.zipWith (· ^^^ ·) (f ab.1) (g ab.2) := by
  induction as generalizing bs with
  | nil => simp
  | cons a as ih =>
      cases bs with
      | nil => simp at h
      | cons b bs =>
          rw [List.flatMap_cons, List.flatMap_cons, List.zipWith_append (hfg a b),
            ih bs (by simpa using h), List.zip_cons_cons, List.flatMap_cons]

/-- The encoding of a subsequence is the encodings of its bytes, one after the
other. -/
theorem encodeSubsequence_eq (direction : Direction) (seq : Subsequence) :
    encoder.encodeSubsequence chacha direction seq =
      (seq.idx.vals.zip seq.data).flatMap fun pb =>
        encoder.encodeByte chacha direction pb.1 pb.2 := by
  have hbits : (iterLsb0 seq.data).flatMap encoder.summand =
      seq.data.flatMap fun b => (iterLsb0 [b]).flatMap encoder.summand := by
    simp only [iterLsb0, List.flatMap_assoc, List.flatMap_cons, List.flatMap_nil, List.append_nil]
  rw [encodeSubsequence, encodeIdx_eq, hbits]
  refine zipWith_flatMap _ _ ?_ _ _ seq.len_eq
  intro p b
  rw [length_zeroEncoding, length_flatMap_summand]

theorem length_encodeSubsequence (direction : Direction) (seq : Subsequence) :
    (encoder.encodeSubsequence chacha direction seq).length =
      byteEncodingSize * seq.data.length := by
  have hlen : seq.idx.vals.length = seq.data.length := seq.len_eq
  rw [encodeSubsequence_eq, List.length_flatMap]
  simp only [length_encodeByte, List.map_const', List.sum_replicate_nat, List.length_zip, hlen,
    Nat.min_self]
  exact Nat.mul_comm _ _

private theorem flatMap_inj {α : Type} (f : α → List UInt8) (n : Nat) (hn : 0 < n)
    (hf : ∀ a, (f a).length = n) (as bs : List α)
    (hinj : ∀ a ∈ as, ∀ b ∈ bs, f a = f b → a = b) (h : as.flatMap f = bs.flatMap f) :
    as = bs := by
  induction as generalizing bs with
  | nil =>
      cases bs with
      | nil => rfl
      | cons b bs =>
          have := congrArg List.length h
          simp only [List.flatMap_nil, List.flatMap_cons, List.length_append, hf,
            List.length_nil] at this
          omega
  | cons a as ih =>
      cases bs with
      | nil =>
          have := congrArg List.length h
          simp only [List.flatMap_nil, List.flatMap_cons, List.length_append, hf,
            List.length_nil] at this
          omega
      | cons b bs =>
          rw [List.flatMap_cons, List.flatMap_cons] at h
          obtain ⟨hhead, htail⟩ := List.append_inj h ((hf a).trans (hf b).symm)
          rw [hinj a (by simp) b (by simp) hhead]
          rw [ih bs (fun x hx y hy => hinj x (by simp [hx]) y (by simp [hy])) htail]

/-- The encoding of a byte at a position that a transcript can have determines
the direction, the position and the byte. -/
def Distinct : Prop :=
  ∀ d d' p p' b b', p < 2 ^ 32 → p' < 2 ^ 32 →
    encoder.encodeByte chacha d p b = encoder.encodeByte chacha d' p' b' →
    d = d' ∧ p = p' ∧ b = b'

variable {chacha encoder}

/-- A nonempty subsequence is determined by its encoding. -/
theorem encodeSubsequence_inj (hd : encoder.Distinct chacha) {d d' : Direction}
    {s s' : Subsequence} (hs : s.idx.stop ≤ 2 ^ 32) (hs' : s'.idx.stop ≤ 2 ^ 32)
    (hne : s.idx.vals ≠ [])
    (h : encoder.encodeSubsequence chacha d s = encoder.encodeSubsequence chacha d' s') :
    d = d' ∧ s = s' := by
  have hzip : ∀ (s : Subsequence), (s.idx.vals.zip s.data).map Prod.fst = s.idx.vals ∧
      (s.idx.vals.zip s.data).map Prod.snd = s.data := by
    intro s
    have hlen : s.idx.vals.length = s.data.length := s.len_eq
    exact ⟨List.map_fst_zip (by omega), List.map_snd_zip (by omega)⟩
  have hlt : ∀ {s : Subsequence}, s.idx.stop ≤ 2 ^ 32 →
      ∀ pb ∈ s.idx.vals.zip s.data, pb.1 < 2 ^ 32 := by
    intro s hn pb hpb
    exact RangeSet.stop_le_iff.mp hn pb.1 (List.of_mem_zip hpb).1
  -- the triples which the two encodings spell out
  have htriples : (s.idx.vals.zip s.data).map (fun pb => (d, pb)) =
      (s'.idx.vals.zip s'.data).map (fun pb => (d', pb)) := by
    refine flatMap_inj (fun t => encoder.encodeByte chacha t.1 t.2.1 t.2.2) byteEncodingSize
      (by decide) (by simp) _ _ ?_ ?_
    · intro a ha b hb hab
      obtain ⟨pb, hpb, rfl⟩ := List.mem_map.mp ha
      obtain ⟨pb', hpb', rfl⟩ := List.mem_map.mp hb
      obtain ⟨h₁, h₂, h₃⟩ := hd d d' pb.1 pb'.1 pb.2 pb'.2 (hlt hs pb hpb) (hlt hs' pb' hpb') hab
      exact Prod.ext h₁ (Prod.ext h₂ h₃)
    · rw [List.flatMap_map, List.flatMap_map]
      rw [encodeSubsequence_eq, encodeSubsequence_eq] at h
      exact h
  have hpairs : s.idx.vals.zip s.data = s'.idx.vals.zip s'.data := by
    simpa using congrArg (List.map Prod.snd) htriples
  have hidx : s.idx.vals = s'.idx.vals := by
    rw [← (hzip s).1, ← (hzip s').1, hpairs]
  have hdata : s.data = s'.data := by
    rw [← (hzip s).2, ← (hzip s').2, hpairs]
  have hdir : d = d' := by
    cases hz : s.idx.vals.zip s.data with
    | nil =>
        have := (hzip s).1
        rw [hz] at this
        exact absurd this.symm hne
    | cons pb rest =>
        rw [← hpairs, hz] at htriples
        exact congrArg Prod.fst (List.cons.inj htriples).1
  refine ⟨hdir, ?_⟩
  obtain ⟨⟨vals, sorted⟩, data, len⟩ := s
  obtain ⟨⟨vals', sorted'⟩, data', len'⟩ := s'
  dsimp only at hidx hdata
  subst hidx hdata
  rfl

end ChaChaEncoder

end Tlsn.Core

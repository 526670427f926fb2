import Tlsn.Core.EncodingSoundness
import Tlsn.MpcTls.Config

/-!
The encoding commitment protocol. The verifier adds its keys to the encodings of
the zero bits and sends the sum, from which the prover removes its MACs. A MAC is
the key, shifted by delta where the bit is one, so that what is left is the
encoding of the bits. The provider looks encodings up by index, with unchecked
arithmetic on the positions.
-/

namespace Tlsn.Common

open Tlsn.Core
open Tlsn.MpcTls (Overflow)

/-- Bytes of encoding, per byte. -/
def encodingSize : Nat := 128

abbrev Block := Vector UInt8 16

structure Encodings where
  sent : List UInt8
  recv : List UInt8
deriving DecidableEq

def blockBytes (blocks : List Block) : List UInt8 := blocks.flatMap Vector.toList

/-- The shorter string is added to the start of the encoding. -/
def xorInto (encoding bytes : List UInt8) : List UInt8 :=
  xorBytes encoding bytes ++ encoding.drop bytes.length

/-- Transfers the encodings using the provided secret and keys. -/
def transfer {ε : Type} (chacha : ChaCha12) (secret : EncoderSecret)
    (sentKeys recvKeys : List Block) : Except (Fault ε) Encodings := do
  let encoder := ChaChaEncoder.new secret
  let sentKeys := blockBytes sentKeys
  let recvKeys := blockBytes recvKeys
  if sentKeys.length % encodingSize ≠ 0 then throw .panic
  if recvKeys.length % encodingSize ≠ 0 then throw .panic
  let sentEncoding := encoder.encodeIdx chacha .sent
    (RangeSet.ofRange ⟨0, sentKeys.length / encodingSize⟩)
  let recvEncoding := encoder.encodeIdx chacha .received
    (RangeSet.ofRange ⟨0, recvKeys.length / encodingSize⟩)
  return ⟨xorInto sentEncoding sentKeys, xorInto recvEncoding recvKeys⟩

inductive EncodingError where
  | io
  | incorrectMacCount (direction : Direction) (expected got : Nat)
deriving DecidableEq

structure Provider where
  sent : List UInt8
  recv : List UInt8
deriving DecidableEq

/-- Receives the encodings using the provided MACs. -/
def receive (encodings : Encodings) (sentMacs recvMacs : List Block) :
    Except (Fault EncodingError) Provider := do
  let sentMacs := blockBytes sentMacs
  let recvMacs := blockBytes recvMacs
  if sentMacs.length % encodingSize ≠ 0 then throw .panic
  if recvMacs.length % encodingSize ≠ 0 then throw .panic
  if encodings.sent.length ≠ sentMacs.length then
    throw (.err (.incorrectMacCount .sent sentMacs.length encodings.sent.length))
  if encodings.recv.length ≠ recvMacs.length then
    throw (.err (.incorrectMacCount .received recvMacs.length encodings.recv.length))
  return ⟨xorInto encodings.sent sentMacs, xorInto encodings.recv recvMacs⟩

/-- The most bytes that a vector can hold. -/
def isizeMax : Nat := 0x7fffffffffffffff

namespace Provider

def ofDirection (p : Provider) : Direction → List UInt8
  | .sent => p.sent
  | .received => p.recv

/-- The loop over the ranges, with the encoding so far. -/
def provideRanges {ε : Type} (overflow : Overflow) (encodings : List UInt8) :
    List PosRange → List UInt8 → Except (Fault ε) (Option (List UInt8))
  | [], encoding => return some encoding
  | range :: ranges, encoding => do
      let start ← overflow.mul range.start encodingSize
      let stop ← overflow.mul range.stop encodingSize
      if stop > encodings.length then return none
      else if start > stop then throw .panic
      else
        provideRanges overflow encodings ranges
          (encoding ++ PosRange.select ⟨start, stop⟩ encodings)

def provideEncoding {ε : Type} (overflow : Overflow) (p : Provider) (direction : Direction)
    (idx : Idx) : Except (Fault ε) (Option (List UInt8)) := do
  let capacity ← overflow.mul idx.len encodingSize
  if capacity > isizeMax then throw .panic
  provideRanges overflow (p.ofDirection direction) idx.iterRanges []

end Provider

/-! ## What is transferred -/

/-- The MACs authenticate the bits of the data under the keys, lowest bit of each byte first. -/
structure Authenticates (delta : Block) (data : List UInt8) (keys macs : List Block) : Prop where
  count : keys.length = 8 * data.length
  macs : macs = List.zipWith (fun key bit => if bit then key.zipWith (· ^^^ ·) delta else key) keys
    (iterLsb0 data)

theorem length_iterLsb0 (data : List UInt8) : (iterLsb0 data).length = 8 * data.length := by
  induction data with
  | nil => rfl
  | cons b data ih =>
      rw [iterLsb0, List.flatMap_cons, List.length_append, ← iterLsb0, ih]
      simp
      omega

@[simp] theorem length_blockBytes (blocks : List Block) :
    (blockBytes blocks).length = 16 * blocks.length := by
  simp [blockBytes, List.length_flatMap, Nat.mul_comm]

theorem xorInto_of_length {a b : List UInt8} (h : a.length = b.length) :
    xorInto a b = xorBytes a b := by
  rw [xorInto, ← h, List.drop_length, List.append_nil]

theorem zipWith_toList {n : Nat} (a b : Vector UInt8 n) :
    (a.zipWith (· ^^^ ·) b).toList = xorBytes a.toList b.toList := by
  simp [xorBytes, ← Vector.toList_zipWith]

theorem xorBytes_zeroes {a : List UInt8} {n : Nat} (h : a.length = n) :
    xorBytes a (List.replicate n 0) = a := by
  subst h
  induction a with
  | nil => rfl
  | cons x a ih =>
      rw [List.length_cons, List.replicate_succ, xorBytes, List.zipWith_cons_cons, UInt8.xor_zero]
      exact congrArg _ ih

/-- The bytes of the MACs are those of the keys, shifted by delta at the one bits. -/
theorem Authenticates.bytes {secret : EncoderSecret} {data : List UInt8} {keys macs : List Block}
    (h : Authenticates secret.delta data keys macs) :
    blockBytes macs = xorBytes (blockBytes keys)
      ((iterLsb0 data).flatMap (ChaChaEncoder.new secret).summand) := by
  have hlen : keys.length = (iterLsb0 data).length := by
    rw [h.count, length_iterLsb0]
  rw [h.macs]
  generalize iterLsb0 data = bits at hlen
  clear h
  induction keys generalizing bits with
  | nil => rfl
  | cons key keys ih =>
      cases bits with
      | nil => cases hlen
      | cons bit bits =>
          have hblock : (if bit then key.zipWith (· ^^^ ·) secret.delta else key).toList =
              xorBytes key.toList ((ChaChaEncoder.new secret).summand bit) := by
            cases bit with
            | true => exact zipWith_toList key secret.delta
            | false => exact (xorBytes_zeroes (by simp [bitEncodingSize])).symm
          have htail := ih bits (by simpa using hlen)
          simp only [blockBytes] at htail ⊢
          rw [List.zipWith_cons_cons, List.flatMap_cons, List.flatMap_cons, List.flatMap_cons,
            xorBytes, List.zipWith_append (by simp [bitEncodingSize]), hblock, htail]
          rfl

theorem Authenticates.length_keys {delta : Block} {data : List UInt8} {keys macs : List Block}
    (h : Authenticates delta data keys macs) :
    (blockBytes keys).length = encodingSize * data.length := by
  rw [length_blockBytes, h.count, encodingSize]
  omega

theorem Authenticates.length_macs {delta : Block} {data : List UInt8} {keys macs : List Block}
    (h : Authenticates delta data keys macs) :
    (blockBytes macs).length = encodingSize * data.length := by
  rw [length_blockBytes, h.macs, List.length_zipWith, h.count, length_iterLsb0, Nat.min_self,
    encodingSize]
  omega

theorem length_encodeIdx (chacha : ChaCha12) (encoder : ChaChaEncoder) (d : Direction) (n : Nat) :
    (encoder.encodeIdx chacha d (RangeSet.ofRange ⟨0, n⟩)).length = encodingSize * n := by
  rw [ChaChaEncoder.length_encodeIdx, RangeSet.len, RangeSet.ofRange, PosRange.length_vals,
    PosRange.len, Nat.sub_zero]
  rfl

/-- The encodings of the data, byte by byte. -/
def encoded (chacha : ChaCha12) (secret : EncoderSecret) (transcript : Transcript)
    (d : Direction) : List UInt8 :=
  (List.range (transcript.lenOfDirection d)).flatMap fun p =>
    (ChaChaEncoder.new secret).encodeByte chacha d p (transcript.byte d p)

/-- The encoding of a subsequence of the transcript, byte by byte. -/
theorem encodeSubsequence_of_get (chacha : ChaCha12) (secret : EncoderSecret)
    {transcript : Transcript} {d : Direction} {idx : Idx} {seq : Subsequence}
    (h : transcript.get d idx = some seq) :
    (ChaChaEncoder.new secret).encodeSubsequence chacha d seq = idx.vals.flatMap fun p =>
      (ChaChaEncoder.new secret).encodeByte chacha d p (transcript.byte d p) := by
  obtain ⟨rfl, -, hdata⟩ := Transcript.get_eq_some h
  rw [ChaChaEncoder.encodeSubsequence_eq, hdata]
  generalize seq.idx.vals = vals
  induction vals with
  | nil => rfl
  | cons p vals ih =>
      rw [List.map_cons, List.zip_cons_cons, List.flatMap_cons, List.flatMap_cons, ih]

/-- What is sent for one direction. -/
def masked (chacha : ChaCha12) (secret : EncoderSecret) (d : Direction) (keys : List Block) :
    List UInt8 :=
  xorInto ((ChaChaEncoder.new secret).encodeIdx chacha d
    (RangeSet.ofRange ⟨0, (blockBytes keys).length / encodingSize⟩)) (blockBytes keys)

theorem length_masked (chacha : ChaCha12) (secret : EncoderSecret) (d : Direction)
    {keys : List Block} (h : (blockBytes keys).length % encodingSize = 0) :
    (masked chacha secret d keys).length = (blockBytes keys).length := by
  have hidx := (length_encodeIdx chacha (ChaChaEncoder.new secret) d _).trans
    (Nat.mul_div_cancel' (Nat.dvd_of_mod_eq_zero h))
  rw [masked, xorInto_of_length hidx, length_xorBytes, hidx, Nat.min_self]

/-- Keys and MACs cancel, except for delta at the one bits. -/
theorem xorInto_keys_macs (chacha : ChaCha12) {secret : EncoderSecret} {transcript : Transcript}
    {d : Direction} {keys macs : List Block}
    (h : Authenticates secret.delta (transcript.ofDirection d) keys macs) :
    xorInto (masked chacha secret d keys) (blockBytes macs) =
      encoded chacha secret transcript d := by
  have hdata : (transcript.ofDirection d).length = transcript.lenOfDirection d := rfl
  have hkeys := h.length_keys
  have hmacs := h.length_macs
  rw [hdata] at hkeys hmacs
  have hdiv : (blockBytes keys).length / encodingSize = transcript.lenOfDirection d := by
    rw [hkeys]
    exact Nat.mul_div_cancel_left _ (by decide)
  have hidx := length_encodeIdx chacha (ChaChaEncoder.new secret) d (transcript.lenOfDirection d)
  rw [masked, hdiv, xorInto_of_length (hidx.trans hkeys.symm), xorInto_of_length (by
    rw [length_xorBytes, hidx, hkeys, hmacs, Nat.min_self]), h.bytes, xorBytes_assoc,
    xorBytes_cancel_middle _ _ _ (Nat.le_of_eq (hidx.trans hkeys.symm))]
  -- what is left is the encoding of the whole transcript
  have hrange : (RangeSet.ofRange ⟨0, transcript.lenOfDirection d⟩).vals =
      List.range (transcript.lenOfDirection d) := by
    simp only [RangeSet.ofRange, PosRange.vals, PosRange.len, Nat.sub_zero, List.range_eq_range']
  obtain ⟨seq, hget, hseq, hvals⟩ := transcript.get_of_le d
    (RangeSet.ofRange ⟨0, transcript.lenOfDirection d⟩)
    (RangeSet.stop_le_iff.mpr fun n hn => (RangeSet.mem_ofRange.mp hn).2)
  have hall : seq.data = transcript.ofDirection d := by
    rw [hvals, hrange]
    apply List.ext_getElem
    · rw [List.length_map, List.length_range, hdata]
    · intro i _ hi
      simp [Transcript.byte, List.getElem?_eq_getElem hi]
  have henc := encodeSubsequence_of_get chacha secret hget
  rw [ChaChaEncoder.encodeSubsequence, hseq, hall, hrange] at henc
  exact henc

/-! ## Looking up encodings -/

section Lookup

variable {ε : Type} {overflow : Overflow} {encodings : List UInt8}

/-- The lookup goes on after the range, with some encodings. -/
def Passes (overflow : Overflow) (len : Nat) (range : PosRange) : Prop :=
  ∃ start stop, (overflow.mul range.start encodingSize : Except (Fault Empty) _) = .ok start ∧
    (overflow.mul range.stop encodingSize : Except (Fault Empty) _) = .ok stop ∧
    start ≤ stop ∧ stop ≤ len

/-- The lookup finds the range to be out of bounds. -/
def Caught (overflow : Overflow) (len : Nat) (range : PosRange) : Prop :=
  ∃ start stop, (overflow.mul range.start encodingSize : Except (Fault Empty) _) = .ok start ∧
    (overflow.mul range.stop encodingSize : Except (Fault Empty) _) = .ok stop ∧ len < stop

theorem mul_ok_iff {a b c : Nat} :
    (overflow.mul a b : Except (Fault ε) _) = .ok c ↔
      (overflow.mul a b : Except (Fault Empty) _) = .ok c := by
  unfold Overflow.mul
  split
  · simp
  · cases overflow <;> simp

theorem exists_split_cons {α : Type} {P C : α → Prop} {a : α} {l : List α} :
    (∃ before x after, a :: l = before ++ x :: after ∧ (∀ q ∈ before, P q) ∧ C x) ↔
      C a ∨ P a ∧ ∃ before x after, l = before ++ x :: after ∧ (∀ q ∈ before, P q) ∧ C x := by
  constructor
  · rintro ⟨before, x, after, h, hbefore, hx⟩
    cases before with
    | nil =>
        cases h
        exact .inl hx
    | cons b before =>
        cases h
        rw [List.forall_mem_cons] at hbefore
        exact .inr ⟨hbefore.1, before, x, after, rfl, hbefore.2, hx⟩
  · rintro (ha | ⟨ha, before, x, after, rfl, hbefore, hx⟩)
    · exact ⟨[], a, l, rfl, List.forall_mem_nil P, ha⟩
    · exact ⟨a :: before, x, after, rfl, List.forall_mem_cons.mpr ⟨ha, hbefore⟩, hx⟩

/-- The lookup of ranges comes back empty-handed at the first one that is caught. -/
theorem provideRanges_none_iff {ranges : List PosRange} {acc : List UInt8} :
    (Provider.provideRanges overflow encodings ranges acc : Except (Fault ε) _) = .ok none ↔
      ∃ before range after, ranges = before ++ range :: after ∧
        (∀ q ∈ before, Passes overflow encodings.length q) ∧
        Caught overflow encodings.length range := by
  induction ranges generalizing acc with
  | nil =>
      refine iff_of_false (fun h => by cases h) ?_
      rintro ⟨before, range, after, h, -⟩
      cases before <;> cases h
  | cons range ranges ih =>
      rw [exists_split_cons, Provider.provideRanges, Fault.bind_ok_iff]
      constructor
      · rintro ⟨start, hstart, h⟩
        obtain ⟨stop, hstop, h⟩ := Fault.bind_ok_iff.mp h
        rw [mul_ok_iff] at hstart hstop
        by_cases hlen : stop > encodings.length
        · exact .inl ⟨start, stop, hstart, hstop, hlen⟩
        · rw [if_neg hlen] at h
          by_cases hle : start > stop
          · rw [if_pos hle] at h
            cases h
          · rw [if_neg hle] at h
            exact .inr ⟨⟨start, stop, hstart, hstop, by omega, by omega⟩, ih.mp h⟩
      · rintro (⟨start, stop, hstart, hstop, hlen⟩ | ⟨⟨start, stop, hstart, hstop, hle, hlen⟩, h⟩)
        · refine ⟨start, mul_ok_iff.mpr hstart, Fault.bind_ok_iff.mpr
            ⟨stop, mul_ok_iff.mpr hstop, ?_⟩⟩
          rw [if_pos hlen]
          rfl
        · refine ⟨start, mul_ok_iff.mpr hstart, Fault.bind_ok_iff.mpr
            ⟨stop, mul_ok_iff.mpr hstop, ?_⟩⟩
          rw [if_neg (by omega), if_neg (by omega)]
          exact ih.mpr h

/-- Ranges within bounds are looked up where the encodings of their positions are. -/
theorem provideRanges_of_le (overflow : Overflow) {f : Nat → List UInt8} {n : Nat}
    (hf : ∀ p, (f p).length = encodingSize) (hn : n * encodingSize < wordSize)
    {ranges : List PosRange} (hranges : ∀ r ∈ ranges, r.start < r.stop ∧ r.stop ≤ n)
    (acc : List UInt8) :
    (Provider.provideRanges overflow ((List.range n).flatMap f) ranges acc :
      Except (Fault ε) _) = .ok (some (acc ++ ranges.flatMap fun r => r.vals.flatMap f)) := by
  induction ranges generalizing acc with
  | nil => simp [Provider.provideRanges, pure, Except.pure]
  | cons r ranges ih =>
      obtain ⟨⟨hlt, hle⟩, hrest⟩ := List.forall_mem_cons.mp hranges
      have hstop : r.stop * encodingSize ≤ n * encodingSize := Nat.mul_le_mul_right _ hle
      have hstart : r.start * encodingSize ≤ r.stop * encodingSize :=
        Nat.mul_le_mul_right _ (Nat.le_of_lt hlt)
      have hlen : ((List.range n).flatMap f).length = n * encodingSize := by
        simp [List.length_flatMap, hf]
      have hselect : r.select (List.range n) = r.vals := by
        rw [List.range_eq_range', PosRange.select_range', PosRange.vals, Nat.zero_add,
          Nat.min_eq_left (by simp only [PosRange.len]; omega)]
      rw [Provider.provideRanges, overflow.mul_ok_of_lt (by omega), Fault.ok_bind,
        overflow.mul_ok_of_lt (by omega), Fault.ok_bind, hlen, if_neg (by omega),
        if_neg (by omega), PosRange.select_flatMap hf, hselect, ih hrest, List.append_assoc]
      rfl

/-- An index which the lookup finds to be out of bounds: its length can be allocated, and a range
is caught before any other position wraps around. -/
def Refused (overflow : Overflow) (len : Nat) (idx : Idx) : Prop :=
  (∃ capacity, (overflow.mul idx.len encodingSize : Except (Fault Empty) _) = .ok capacity ∧
    capacity ≤ isizeMax) ∧
  ∃ before range after, idx.iterRanges = before ++ range :: after ∧
    (∀ q ∈ before, Passes overflow len q) ∧ Caught overflow len range

/-- An index of which no position wraps around, and which can be allocated. -/
theorem refused_of_lt (overflow : Overflow) {n : Nat} {idx : Idx} (hlen : idx.len < 2 ^ 56)
    (hstop : idx.stop < 2 ^ 57) (hn : n < idx.stop) :
    Refused overflow (encodingSize * n) idx := by
  have hmul : ∀ k, k < 2 ^ 57 →
      (overflow.mul k encodingSize : Except (Fault Empty) _) = .ok (k * encodingSize) := by
    intro k hk
    exact overflow.mul_ok_of_lt (Nat.mul_lt_mul_of_pos_right hk (by decide))
  have hbounds : ∀ r ∈ idx.iterRanges, r.start < r.stop ∧ r.stop < 2 ^ 57 := by
    intro r hr
    obtain ⟨hlt, hle⟩ := RangeSet.stop_le_of_mem_iterRanges hr
    exact ⟨hlt, Nat.lt_of_le_of_lt hle hstop⟩
  refine ⟨⟨_, hmul _ (Nat.lt_trans hlen (by decide)), ?_⟩, ?_⟩
  · exact Nat.le_of_lt_succ (Nat.mul_lt_mul_of_pos_right hlen (by decide))
  · have hexists : ∃ r ∈ idx.iterRanges, n < r.stop := by
      by_contra hall
      push Not at hall
      exact absurd (RangeSet.stop_le_iff_forall_ranges.mpr hall) (Nat.not_le.mpr hn)
    -- the first range which ends beyond the encodings
    obtain ⟨range, hfind⟩ := Option.isSome_iff_exists.mp
      ((List.find?_isSome (p := fun r : PosRange => decide (n < r.stop))).mpr
        (by simpa using hexists))
    obtain ⟨hbeyond, before, after, hranges, hbefore⟩ := List.find?_eq_some_iff_append.mp hfind
    simp only [decide_eq_true_eq] at hbeyond
    refine ⟨before, range, after, hranges, fun q hq => ?_, ?_⟩
    · have hq' := hbefore q hq
      simp only [Bool.not_eq_true', decide_eq_false_iff_not, Nat.not_lt] at hq'
      obtain ⟨hlt, hq57⟩ := hbounds q (by rw [hranges]; exact List.mem_append_left _ hq)
      refine ⟨_, _, hmul _ (Nat.lt_trans hlt hq57), hmul _ hq57,
        Nat.mul_le_mul_right _ (Nat.le_of_lt hlt), ?_⟩
      rw [Nat.mul_comm]
      exact Nat.mul_le_mul_left _ hq'
    · obtain ⟨hlt, h57⟩ := hbounds range (by rw [hranges]; simp)
      refine ⟨_, _, hmul _ (Nat.lt_trans hlt h57), hmul _ h57, ?_⟩
      rw [Nat.mul_comm encodingSize]
      exact Nat.mul_lt_mul_of_pos_right hbeyond (by decide)

theorem provideEncoding_none_iff {p : Provider} {d : Direction} {idx : Idx} :
    (p.provideEncoding overflow d idx : Except (Fault ε) _) = .ok none ↔
      Refused overflow (p.ofDirection d).length idx := by
  unfold Provider.provideEncoding Refused
  rw [Fault.bind_ok_iff]
  constructor
  · rintro ⟨capacity, hcapacity, h⟩
    by_cases hmax : capacity > isizeMax
    · rw [if_pos hmax] at h
      cases h
    · rw [if_neg hmax] at h
      exact ⟨⟨capacity, mul_ok_iff.mp hcapacity, Nat.le_of_not_gt hmax⟩,
        provideRanges_none_iff.mp h⟩
  · rintro ⟨⟨capacity, hcapacity, hmax⟩, h⟩
    refine ⟨capacity, mul_ok_iff.mpr hcapacity, ?_⟩
    rw [if_neg (Nat.not_lt.mpr hmax)]
    exact provideRanges_none_iff.mpr h

theorem provideEncoding_of_le {p : Provider} {d : Direction} {idx : Idx} {f : Nat → List UInt8}
    {n : Nat} (hf : ∀ p, (f p).length = encodingSize) (hn : n * encodingSize ≤ isizeMax)
    (hp : p.ofDirection d = (List.range n).flatMap f) (hstop : idx.stop ≤ n) :
    (p.provideEncoding overflow d idx : Except (Fault ε) _) = .ok (some (idx.vals.flatMap f)) := by
  have hword : isizeMax < wordSize := by decide
  have hlen : idx.len ≤ n := RangeSet.len_le_of_stop_le hstop
  have hcapacity : idx.len * encodingSize ≤ n * encodingSize := Nat.mul_le_mul_right _ hlen
  unfold Provider.provideEncoding
  rw [overflow.mul_ok_of_lt (by omega), Fault.ok_bind, if_neg (by omega), hp]
  have hranges : ∀ r ∈ idx.iterRanges, r.start < r.stop ∧ r.stop ≤ n := by
    intro r hr
    obtain ⟨hlt, hle⟩ := RangeSet.stop_le_of_mem_iterRanges hr
    exact ⟨hlt, by omega⟩
  have hlookup := provideRanges_of_le (ε := ε) overflow hf (by omega) hranges []
  rw [List.nil_append, ← List.flatMap_assoc, idx.flatMap_iterRanges] at hlookup
  exact hlookup

end Lookup

/-! ## Prover and verifier agree -/

/-- The provider as the tree sees it, which looks up no index that is out of bounds. -/
def Provider.encodings (overflow : Overflow) (p : Provider) : EncodingProvider := fun d idx =>
  match (p.provideEncoding overflow d idx : Except (Fault Empty) _) with
  | .ok encoding => encoding
  | .error _ => none

section Agreement

variable {chacha : ChaCha12} {secret : EncoderSecret} {transcript : Transcript}
  {keys macs : Direction → List Block}

/-- After the transfer the prover holds the encodings of its transcript. -/
theorem receive_transfer {ε : Type} (chacha : ChaCha12)
    (h : ∀ d, Authenticates secret.delta (transcript.ofDirection d) (keys d) (macs d)) :
    ∃ encodings, (transfer chacha secret (keys .sent) (keys .received) : Except (Fault ε) _) =
        .ok encodings ∧
      receive encodings (macs .sent) (macs .received) =
        .ok ⟨encoded chacha secret transcript .sent,
          encoded chacha secret transcript .received⟩ := by
  have hkeys : ∀ d, ¬ (blockBytes (keys d)).length % encodingSize ≠ 0 := by
    intro d
    rw [(h d).length_keys, Nat.mul_mod_right]
    exact fun hne => hne rfl
  have hmacs : ∀ d, ¬ (blockBytes (macs d)).length % encodingSize ≠ 0 := by
    intro d
    rw [(h d).length_macs, Nat.mul_mod_right]
    exact fun hne => hne rfl
  have hlen : ∀ d, ¬ (masked chacha secret d (keys d)).length ≠ (blockBytes (macs d)).length := by
    intro d
    rw [length_masked chacha secret d (Decidable.not_not.mp (hkeys d)), (h d).length_keys,
      (h d).length_macs]
    exact fun hne => hne rfl
  refine ⟨⟨masked chacha secret .sent (keys .sent),
    masked chacha secret .received (keys .received)⟩, ?_, ?_⟩
  · unfold transfer
    dsimp only
    rw [if_neg (hkeys .sent), if_neg (hkeys .received)]
    rfl
  · unfold receive
    dsimp only
    rw [if_neg (hmacs .sent), if_neg (hmacs .received), if_neg (hlen .sent),
      if_neg (hlen .received), xorInto_keys_macs chacha (h .sent),
      xorInto_keys_macs chacha (h .received)]
    rfl

/-- The lookup gives the encoding of the subsequence, and nothing out of bounds. -/
def Provider.Agrees (chacha : ChaCha12) (secret : EncoderSecret) (transcript : Transcript)
    (overflow : Overflow) (p : Provider) (d : Direction) (idx : Idx) : Prop :=
  (p.provideEncoding overflow d idx : Except (Fault Empty) _) =
    .ok ((transcript.get d idx).map ((ChaChaEncoder.new secret).encodeSubsequence chacha d))

theorem length_encoded (chacha : ChaCha12) (secret : EncoderSecret) (transcript : Transcript)
    (d : Direction) :
    (encoded chacha secret transcript d).length = encodingSize * transcript.lenOfDirection d := by
  rw [encoded, List.length_flatMap]
  simp only [ChaChaEncoder.length_encodeByte, List.map_const', List.sum_replicate_nat,
    List.length_range]
  exact Nat.mul_comm _ _

section

variable {provider : Provider}
  (hprovider : ∀ d, provider.ofDirection d = encoded chacha secret transcript d)
  (hsize : ∀ d, encodingSize * transcript.lenOfDirection d ≤ isizeMax)

include hprovider hsize

theorem agrees_of_le (overflow : Overflow) {d : Direction} {idx : Idx}
    (hstop : idx.stop ≤ transcript.lenOfDirection d) :
    provider.Agrees chacha secret transcript overflow d idx := by
  obtain ⟨seq, hget, -⟩ := transcript.get_of_le d idx hstop
  unfold Provider.Agrees
  rw [hget, Option.map_some, encodeSubsequence_of_get chacha secret hget]
  exact provideEncoding_of_le (fun p => ChaChaEncoder.length_encodeByte chacha _ d p _)
    (by rw [Nat.mul_comm]; exact hsize d) (hprovider d) hstop

theorem agrees_iff {overflow : Overflow} {d : Direction} {idx : Idx} :
    provider.Agrees chacha secret transcript overflow d idx ↔
      idx.stop ≤ transcript.lenOfDirection d ∨
        Refused overflow (encodingSize * transcript.lenOfDirection d) idx := by
  by_cases hstop : idx.stop ≤ transcript.lenOfDirection d
  · exact iff_of_true (agrees_of_le hprovider hsize overflow hstop) (.inl hstop)
  · have hnone : transcript.get d idx = none := by
      have hlt : (transcript.ofDirection d).length < idx.stop := Nat.lt_of_not_le hstop
      simp only [Transcript.get, hlt, dite_true]
    rw [or_iff_right hstop, Provider.Agrees, hnone, Option.map_none, provideEncoding_none_iff,
      hprovider d, length_encoded]

/-- The leaf of an index is the one which an opening of the transcript at the index has. -/
theorem leaf_of_encodings {rs : RsMerkle} {overflow : Overflow} {hasher : HashAlgorithm}
    {idxs : List (Direction × Idx)} {blinders : Nat → Blinder} {tree : EncodingTree rs}
    (hnew : EncodingTree.new hasher idxs (provider.encodings overflow) transcript.length blinders =
      .ok tree) {k : Nat} {d : Direction} {idx : Idx} {blinder : Blinder}
    (hk : (k, (d, idx)) ∈ tree.idxs.entries) (hblinder : tree.nonces[k]? = some blinder) :
    ∃ seq, transcript.get d idx = some seq ∧
      (tree.leafStrings (provider.encodings overflow))[k]? =
        some (Opening.leaf chacha (ChaChaEncoder.new secret) ⟨d, seq, blinder⟩).bytes := by
  obtain ⟨leaves, hc, -⟩ := EncodingTree.committed_of_new hnew
  obtain ⟨-, hstop, -⟩ := hc.encoded d idx (List.mem_map.mpr ⟨(k, (d, idx)), hk, rfl⟩)
  have hle := Nat.le_trans hstop (transcript.length_ofDirection_le d)
  obtain ⟨seq, hget, -⟩ := transcript.get_of_le d idx hle
  have hagrees := agrees_of_le hprovider hsize overflow hle
  rw [Provider.Agrees, hget, Option.map_some] at hagrees
  refine ⟨seq, hget, ?_⟩
  rw [hc.getElem?_leafStrings hk hblinder, Provider.encodings, hagrees]
  rfl

end

/-- After the transfer the prover's encodings are those of its transcript within bounds, nothing
for an index which the lookup refuses, which it does when no position can wrap around, and what
the verifier recomputes for every leaf. -/
theorem encodings_agree_iff (rs : RsMerkle) (chacha : ChaCha12)
    (h : ∀ d, Authenticates secret.delta (transcript.ofDirection d) (keys d) (macs d))
    (hsize : ∀ d, encodingSize * transcript.lenOfDirection d ≤ isizeMax) :
    ∃ encodings provider,
      (transfer chacha secret (keys .sent) (keys .received) : Except (Fault Empty) _) =
        .ok encodings ∧
      receive encodings (macs .sent) (macs .received) = .ok provider ∧
      (∀ overflow d idx, provider.Agrees chacha secret transcript overflow d idx ↔
        idx.stop ≤ transcript.lenOfDirection d ∨
          Refused overflow (encodingSize * transcript.lenOfDirection d) idx) ∧
      (∀ overflow d (idx : Idx), idx.len < 2 ^ 56 → idx.stop < 2 ^ 57 →
        provider.Agrees chacha secret transcript overflow d idx) ∧
      ∀ overflow hasher idxs blinders (tree : EncodingTree rs),
        EncodingTree.new hasher idxs (provider.encodings overflow) transcript.length blinders =
          .ok tree →
        ∀ k d idx blinder, (k, (d, idx)) ∈ tree.idxs.entries → tree.nonces[k]? = some blinder →
          ∃ seq, transcript.get d idx = some seq ∧
            (tree.leafStrings (provider.encodings overflow))[k]? =
              some (Opening.leaf chacha (ChaChaEncoder.new secret) ⟨d, seq, blinder⟩).bytes := by
  obtain ⟨encodings, htransfer, hreceive⟩ := receive_transfer (ε := Empty) chacha h
  have hprovider : ∀ d, Provider.ofDirection ⟨encoded chacha secret transcript .sent,
      encoded chacha secret transcript .received⟩ d = encoded chacha secret transcript d := by
    intro d
    cases d with
    | sent => rfl
    | received => rfl
  refine ⟨encodings, _, htransfer, hreceive, ?_, ?_, ?_⟩
  · intro overflow d idx
    exact agrees_iff hprovider hsize
  · intro overflow d idx hlen hstop
    refine (agrees_iff hprovider hsize).mpr ?_
    by_cases hle : idx.stop ≤ transcript.lenOfDirection d
    · exact .inl hle
    · exact .inr (refused_of_lt overflow hlen hstop (Nat.lt_of_not_le hle))
  · intro overflow hasher idxs blinders tree hnew k d idx blinder hk hblinder
    exact leaf_of_encodings hprovider hsize hnew hk hblinder

end Agreement

def sampleKeys (d : Direction) : List Block :=
  List.replicate (8 * (sampleTranscript.ofDirection d).length) (Vector.replicate 16 3)

def sampleMacs (d : Direction) : List Block :=
  List.zipWith (fun key bit => if bit then key.zipWith (· ^^^ ·) unitSecret.delta else key)
    (sampleKeys d) (iterLsb0 (sampleTranscript.ofDirection d))

theorem sampleMacs_authenticate (d : Direction) :
    Authenticates unitSecret.delta (sampleTranscript.ofDirection d) (sampleKeys d)
      (sampleMacs d) :=
  ⟨List.length_replicate, rfl⟩

theorem encodings_agree_iff_sample :
    ∃ encodings provider,
      (transfer positionStream unitSecret (sampleKeys .sent) (sampleKeys .received) :
        Except (Fault Empty) _) = .ok encodings ∧
      receive encodings (sampleMacs .sent) (sampleMacs .received) = .ok provider ∧
      provider.Agrees positionStream unitSecret sampleTranscript .wraps .sent
        (RangeSet.ofRange ⟨1, 2⟩) ∧
      provider.Agrees positionStream unitSecret sampleTranscript .checks .received
        (RangeSet.ofList [0, 7]) := by
  have hsize : ∀ d, encodingSize * sampleTranscript.lenOfDirection d ≤ isizeMax := by
    intro d
    cases d <;> decide
  obtain ⟨encodings, provider, htransfer, hreceive, hagrees, hbelow, -⟩ :=
    encodings_agree_iff RsMerkle.reference positionStream sampleMacs_authenticate hsize
  exact ⟨encodings, provider, htransfer, hreceive, (hagrees .wraps .sent _).mpr (.inl (by decide)),
    hbelow .checks .received _ (by decide) (by decide)⟩

/-- A position beyond the transcript wraps around to its first byte. -/
theorem wrapped_position_provided :
    ¬ ∀ (encodings : Encodings) (provider : Provider),
      (transfer positionStream unitSecret (sampleKeys .sent) (sampleKeys .received) :
        Except (Fault Empty) _) = .ok encodings →
      receive encodings (sampleMacs .sent) (sampleMacs .received) = .ok provider →
      ∀ overflow d idx,
        provider.Agrees positionStream unitSecret sampleTranscript overflow d idx := by
  intro h
  obtain ⟨encodings, htransfer, hreceive⟩ :=
    receive_transfer (ε := Empty) positionStream sampleMacs_authenticate
  have hagrees := h encodings _ htransfer hreceive .wraps .received
    (RangeSet.ofRange ⟨2 ^ 57, 2 ^ 57 + 1⟩)
  have hnone : sampleTranscript.get .received (RangeSet.ofRange ⟨2 ^ 57, 2 ^ 57 + 1⟩) = none := by
    rfl
  rw [Provider.Agrees, hnone, Option.map_none, provideEncoding_none_iff] at hagrees
  obtain ⟨-, before, range, after, hranges, -, start, stop, -, hstop, hlt⟩ := hagrees
  have hsingle : (RangeSet.ofRange ⟨2 ^ 57, 2 ^ 57 + 1⟩).iterRanges = [⟨2 ^ 57, 2 ^ 57 + 1⟩] := rfl
  have hrange : range = ⟨2 ^ 57, 2 ^ 57 + 1⟩ := by
    have hmem : range ∈ (RangeSet.ofRange ⟨2 ^ 57, 2 ^ 57 + 1⟩).iterRanges := by
      rw [hranges]
      simp
    rw [hsingle] at hmem
    exact List.mem_singleton.mp hmem
  have hwrapped : (Overflow.wraps.mul (2 ^ 57 + 1) encodingSize : Except (Fault Empty) _) =
      .ok encodingSize := rfl
  rw [hrange, hwrapped] at hstop
  cases hstop
  have hlen := length_encoded positionStream unitSecret sampleTranscript .received
  rw [show encodingSize * sampleTranscript.lenOfDirection .received = encodingSize from rfl] at hlen
  exact Nat.lt_irrefl _ (Nat.lt_of_lt_of_eq hlt hlen)

end Tlsn.Common

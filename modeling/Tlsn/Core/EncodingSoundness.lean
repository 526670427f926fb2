import Mathlib.Tactic.IntervalCases
import Tlsn.Core.EncodingTree

/-!
Soundness of encoding proofs. Nothing in the proof is trusted: the openings, the
leaf indices, the claimed number of leaves and the order of the map are the
prover's. The leaf string of a nonempty opening is longer than any pair of
digests, so its hash can only be that of a leaf of the tree, and its length
prefix and its encoding fix the direction, the positions and the data. An empty
opening may collide with an inner node, but authenticates nothing.
-/

namespace Tlsn.Core

/-- The provider's encodings are the ones the encoder derives from `secret` for
the data of the transcript. -/
def ProvidesEncodings (chacha : ChaCha12) (secret : EncoderSecret) (transcript : Transcript)
    (provider : EncodingProvider) : Prop :=
  ∀ d idx encoding, provider d idx = some encoding → ∃ seq, transcript.get d idx = some seq ∧
    encoding = (ChaChaEncoder.new secret).encodeSubsequence chacha d seq

/-- Longer than the concatenation of two digests. -/
def LeafString (x : List UInt8) : Prop := 2 * maxLen < x.length

theorem binding_of_injOn (hasher : HashAlgorithm) (S : Set (List UInt8))
    (hinj : Set.InjOn hasher.hash S) :
    HashTree.Binding hasher.hash hashPair S LeafString where
  injOn := hinj
  pair_left x y z s h := by
    have hlen : (hasher.hash x).bytes.length = (hasher.hash y).bytes.length := by
      rw [hasher.length_hash, hasher.length_hash]
    have hbytes := (List.append_inj h hlen).1
    cases hx : hasher.hash x
    cases hy : hasher.hash y
    simp_all
  pair_right x y z s h := by
    have hlen : (hasher.hash x).bytes.length = (hasher.hash z).bytes.length := by
      rw [hasher.length_hash, hasher.length_hash]
    have hbytes := (List.append_inj' h hlen).2
    cases hx : hasher.hash x
    cases hz : hasher.hash z
    simp_all
  leaf_ne_pair x a b hx h := by
    have ha := a.length_le
    have hb := b.length_le
    have hlen := congrArg List.length h
    simp only [hashPair, List.length_append] at hlen
    simp only [LeafString] at hx
    omega

theorem Opening.leafString_bytes (chacha : ChaCha12) (encoder : ChaChaEncoder) (opening : Opening)
    (hne : opening.seq.idx.vals ≠ []) : LeafString (opening.leaf chacha encoder).bytes := by
  have hlen := Blinded.le_length_bytes (opening.leaf chacha encoder)
  have henc := encoder.length_encodeSubsequence chacha opening.direction opening.seq
  have hdata : 0 < opening.seq.data.length := by
    rw [← opening.seq.len_eq]
    exact List.length_pos_of_ne_nil hne
  simp only [Opening.leaf] at hlen ⊢
  simp only [LeafString, maxLen]
  rw [henc, byteEncodingSize] at hlen
  omega

namespace EncodingTree

variable {rs : RsMerkle} {chacha : ChaCha12} {secret : EncoderSecret} {transcript : Transcript}
  {provider : EncodingProvider} {hasher : HashAlgorithm} {l : TranscriptLength}
  {tree : EncodingTree rs} {leaves : List Hash}

/-- Every leaf string of an honest tree is that of an opening of the transcript. -/
theorem exists_opening_of_mem_leafStrings (hp : ProvidesEncodings chacha secret transcript provider)
    (hc : Committed hasher provider l tree leaves) {x : List UInt8}
    (hx : x ∈ tree.leafStrings provider) :
    ∃ opening : Opening, x = (opening.leaf chacha (ChaChaEncoder.new secret)).bytes ∧
      opening.seq.idx.vals ≠ [] ∧ opening.seq.idx.stop ≤ l.ofDirection opening.direction ∧
      transcript.get opening.direction opening.seq.idx = some opening.seq := by
  simp only [leafStrings] at hx
  obtain ⟨i, hi, rfl⟩ := List.mem_iff_getElem.mp hx
  simp only [List.length_zipWith] at hi
  have hi₁ : i < tree.transcriptIndices.length := by omega
  have hi₂ : i < tree.nonces.length := by omega
  obtain ⟨d, idx, hdi⟩ : ∃ d idx, tree.transcriptIndices[i] = (d, idx) := ⟨_, _, rfl⟩
  have hmem : (d, idx) ∈ tree.transcriptIndices := by
    rw [← hdi]
    exact List.getElem_mem _
  obtain ⟨hne, hstop, encoding, hprov, -⟩ := hc.encoded d idx hmem
  obtain ⟨seq, hget, rfl⟩ := hp d idx encoding hprov
  obtain ⟨rfl, -, -⟩ := Transcript.get_eq_some hget
  refine ⟨⟨d, seq, tree.nonces[i]⟩, ?_, hne, hstop, hget⟩
  simp [List.getElem_zipWith, hdi, hprov, Opening.leaf]

end EncodingTree

namespace EncodingProof

variable {rs : RsMerkle} {chacha : ChaCha12} {hasher : HashAlgorithm} {provider : CryptoProvider}
  {encodings : EncodingProvider} {transcript : Transcript} {secret : EncoderSecret}
  {blinders : Nat → Blinder} {idxs : List (Direction × Idx)} {l l' : TranscriptLength}
  {tree : EncodingTree rs} {root : TypedHash} {proof : EncodingProof rs}
  {result : PartialTranscript}

/-- A nonempty opening whose leaf climbs to the root of an honest tree opens the
transcript. -/
theorem get_of_climb {leaves : List Hash} {root : Hash} {opening : Opening} {S : Set (List UInt8)}
    {path : List (HashTree.Side × Hash)}
    (hp : ProvidesEncodings chacha secret transcript encodings)
    (hc : EncodingTree.Committed hasher encodings l tree leaves)
    (hroot : rs.root (rs.commit hasher.hash rs.empty leaves) = some root)
    (hd : (ChaChaEncoder.new secret).Distinct chacha) (hinj : Set.InjOn hasher.hash S)
    (htree : ∀ x ∈ tree.hashed hasher encodings, x ∈ S)
    (hopen : (opening.leaf chacha (ChaChaEncoder.new secret)).bytes ∈ S)
    (hpath : ∀ x ∈ HashTree.climbPreimages hasher.hash hashPair
      (hasher.hash (opening.leaf chacha (ChaChaEncoder.new secret)).bytes) path, x ∈ S)
    (hclimb : HashTree.climb hasher.hash hashPair
      (hasher.hash (opening.leaf chacha (ChaChaEncoder.new secret)).bytes) path = root)
    (hstop : opening.seq.idx.stop ≤ 2 ^ 32) (hne : opening.seq.idx.vals ≠ []) :
    transcript.get opening.direction opening.seq.idx = some opening.seq := by
  have hleaves : leaves ≠ [] := by
    rintro rfl
    rw [rs.root_nil] at hroot
    cases hroot
  obtain ⟨t, ht, hvalue, hpre⟩ := rs.root_commit hasher.hash leaves hleaves
  rw [hroot, Option.some.injEq] at hvalue
  have hstring : ∀ {x}, x ∈ tree.leafStrings encodings → x ∈ S := fun hx =>
    htree _ (List.mem_append_left _ hx)
  have hmem := HashTree.mem_leaves_of_climb (binding_of_injOn hasher S hinj) t _ path
    (opening.leafString_bytes chacha _ hne) hopen
    (by
      intro d hdt
      rw [ht, hc.leaves] at hdt
      obtain ⟨x, hx, rfl⟩ := List.mem_map.mp hdt
      obtain ⟨o, rfl, hone, -⟩ := EncodingTree.exists_opening_of_mem_leafStrings hp hc hx
      exact ⟨_, o.leafString_bytes chacha _ hone, hstring hx, rfl⟩)
    (by
      intro x hx
      refine htree x (List.mem_append_right _ ?_)
      rw [← hc.leaves]
      exact hpre x hx)
    hpath (hclimb.trans hvalue)
  rw [ht, hc.leaves] at hmem
  obtain ⟨x, hx, hhash⟩ := List.mem_map.mp hmem
  have hstrings := hinj (hstring hx) hopen hhash
  obtain ⟨o, rfl, hone, hostop, hget⟩ := EncodingTree.exists_opening_of_mem_leafStrings hp hc hx
  have hlt := l.ofDirection_lt o.direction
  obtain ⟨hdir, hseq⟩ := ChaChaEncoder.encodeSubsequence_inj hd (by omega) hstop hone
    (Blinded.bytes_inj hstrings)
  rw [← hdir, ← hseq]
  exact hget

/-- An accepted proof against the root of an honest tree authenticates nothing
but the transcript. -/
theorem verifyWithProvider_sound
    (hnew : EncodingTree.new hasher idxs encodings l blinders = .ok tree)
    (hp : ProvidesEncodings chacha secret transcript encodings)
    (hroot : (tree.root : Except (Fault Empty) _) = .ok root)
    (hget : provider.hash.get hasher.id = .ok hasher)
    (hd : (ChaChaEncoder.new secret).Distinct chacha)
    (hinj : Set.InjOn hasher.hash {x | x ∈ tree.hashed hasher encodings ∨
      x ∈ proof.hashed chacha (ChaChaEncoder.new secret) hasher})
    (hv : proof.verifyWithProvider chacha provider l' ⟨root, secret⟩ = .ok result)
    (d : Direction) (p : Nat) (hmem : p ∈ result.authed d) :
    ∃ b, (result.ofDirection d)[p]? = some b ∧ (transcript.ofDirection d)[p]? = some b := by
  obtain ⟨leaves, hc, htree⟩ := EncodingTree.committed_of_new hnew
  obtain ⟨r, rfl, hrs⟩ := EncodingTree.root_ok htree hroot
  obtain ⟨hasher', opened, total, hget', hloop, hverify⟩ := verifyWithProvider_ok_iff.mp hv
  obtain rfl : hasher = hasher' := Except.ok.inj (hget.symm.trans hget')
  obtain ⟨hopened, hstops⟩ := verifyOpening_leaves hloop
  rw [List.nil_append] at hopened
  dsimp only at hopened
  subst hopened
  have hhonest : ∀ e ∈ proof.openings.entries, e.2.seq.idx.vals ≠ [] →
      transcript.get e.2.direction e.2.seq.idx = some e.2.seq := by
    intro e he hne
    obtain ⟨path, hclimb, hpath⟩ := MerkleProof.climb_of_verify hverify
      (List.mem_map.mpr ⟨e, he, rfl⟩)
    have hlt := l'.ofDirection_lt e.2.direction
    have hstop := hstops e he
    refine get_of_climb hp hc hrs hd hinj (fun _ hx => .inl hx) (.inr ?_)
      (fun x hx => .inr ?_) hclimb (by omega) hne
    · exact List.mem_append_left _ (List.mem_map.mpr ⟨e, he, rfl⟩)
    · exact List.mem_append_right _ (hpath x hx)
  have hagrees : result.Agrees l' transcript.byte := by
    refine verifyOpening_agrees hloop (PartialTranscript.agrees_new l' transcript.byte) ?_
    intro e he
    by_cases hne : e.2.seq.idx.vals = []
    · have hlen := e.2.seq.len_eq
      rw [RangeSet.len, hne, List.length_nil] at hlen
      rw [hne, List.map_nil, List.length_eq_zero_iff.mp hlen.symm]
    · exact (Transcript.get_eq_some (hhonest e he hne)).2.2
  have hauthed := (mem_authed_verifyOpening hloop d p).mp hmem
  obtain ⟨e, he, rfl, hp⟩ : ∃ e ∈ proof.openings.entries, d = e.2.direction ∧ p ∈ e.2.seq.idx :=
    hauthed.resolve_left (by cases d <;> simp [PartialTranscript.new, PartialTranscript.authed])
  have hlt : p < transcript.lenOfDirection e.2.direction :=
    Nat.lt_of_lt_of_le (RangeSet.lt_stop hp)
      (Transcript.get_eq_some (hhonest e he (List.ne_nil_of_mem hp))).2.1
  exact ⟨_, hagrees.byte e.2.direction p hmem, Transcript.getElem?_ofDirection hlt⟩

end EncodingProof

/-! ## A small instance -/

def positionByte (stream : UInt64) (pos : Nat) : Nat → UInt8
  | 1 => UInt8.ofNat pos
  | 2 => UInt8.ofNat (pos / 2 ^ 8)
  | 3 => UInt8.ofNat (pos / 2 ^ 16)
  | 4 => UInt8.ofNat (pos / 2 ^ 24)
  | 5 => stream.toUInt8
  | _ => 0

/-- A generator which writes the stream and the position into the first slice of
every byte's encoding. -/
def positionStream : ChaCha12 := fun _ stream n =>
  positionByte stream (n / byteEncodingSize) (n % byteEncodingSize)

def unitSecret : EncoderSecret :=
  ⟨Vector.replicate 32 0, #v[1, 0, 0, 0, 0, 0, 0, 0, 0, 0, 0, 0, 0, 0, 0, 0]⟩

private def bitByte (byte : UInt8) (i : Nat) : UInt8 := if byte.toNat.testBit i then 1 else 0

private theorem flatMap_summand_unitSecret (byte : UInt8) :
    (iterLsb0 [byte]).flatMap (ChaChaEncoder.new unitSecret).summand =
      (List.range 8).flatMap fun i => bitByte byte i :: List.replicate 15 0 := by
  have hbit : (ChaChaEncoder.new unitSecret).summand =
      fun bit => (if bit then 1 else 0) :: List.replicate 15 0 := by
    funext bit
    cases bit <;> rfl
  rw [hbit]
  simp only [iterLsb0, List.flatMap_cons, List.flatMap_nil, List.append_nil, List.flatMap_map,
    bitByte]

private theorem getElem?_encodeByte (d : Direction) (p : Nat) (byte : UInt8) (i : Nat)
    (hi : i < byteEncodingSize) :
    ((ChaChaEncoder.new unitSecret).encodeByte positionStream d p byte)[i]? =
      some (positionByte (ChaChaEncoder.streamId d) p i ^^^
        if i % 16 = 0 then bitByte byte (i / 16) else 0) := by
  have hmod : (byteEncodingSize * p + i) % byteEncodingSize = i := by
    rw [Nat.mul_add_mod, Nat.mod_eq_of_lt hi]
  have hdiv : (byteEncodingSize * p + i) / byteEncodingSize = p := by
    rw [Nat.mul_add_div (by decide), Nat.div_eq_of_lt hi, Nat.add_zero]
  have hzero : ((ChaChaEncoder.new unitSecret).zeroEncoding positionStream d p)[i]? =
      some (positionByte (ChaChaEncoder.streamId d) p i) := by
    rw [ChaChaEncoder.zeroEncoding, List.getElem?_map, List.getElem?_range hi, Option.map_some,
      positionStream, hmod, hdiv]
  have hsummand : ((iterLsb0 [byte]).flatMap (ChaChaEncoder.new unitSecret).summand)[i]? =
      some (if i % 16 = 0 then bitByte byte (i / 16) else 0) := by
    rw [flatMap_summand_unitSecret]
    unfold byteEncodingSize at hi
    interval_cases i <;> rfl
  rw [ChaChaEncoder.encodeByte, List.getElem?_zipWith, hzero, hsummand]

theorem positionStream_distinct : (ChaChaEncoder.new unitSecret).Distinct positionStream := by
  intro d d' p p' b b' hp hp' h
  have hat : ∀ i, i < byteEncodingSize →
      (positionByte (ChaChaEncoder.streamId d) p i ^^^
        if i % 16 = 0 then bitByte b (i / 16) else 0) =
      (positionByte (ChaChaEncoder.streamId d') p' i ^^^
        if i % 16 = 0 then bitByte b' (i / 16) else 0) := by
    intro i hi
    have hget := congrArg (fun l => l[i]?) h
    rw [getElem?_encodeByte d p b i hi, getElem?_encodeByte d' p' b' i hi] at hget
    exact Option.some.inj hget
  have hslot : ∀ i, i < byteEncodingSize → i % 16 ≠ 0 →
      positionByte (ChaChaEncoder.streamId d) p i =
        positionByte (ChaChaEncoder.streamId d') p' i := by
    intro i hi hne
    simpa [hne] using hat i hi
  have hd : d = d' := by
    have h₅ : (ChaChaEncoder.streamId d).toUInt8 = (ChaChaEncoder.streamId d').toUInt8 :=
      hslot 5 (by decide) (by decide)
    cases d <;> cases d' <;> first | rfl | exact absurd h₅ (by decide)
  have hpos : p = p' := by
    have h₁ := congrArg UInt8.toNat (hslot 1 (by decide) (by decide))
    have h₂ := congrArg UInt8.toNat (hslot 2 (by decide) (by decide))
    have h₃ := congrArg UInt8.toNat (hslot 3 (by decide) (by decide))
    have h₄ := congrArg UInt8.toNat (hslot 4 (by decide) (by decide))
    simp only [positionByte, UInt8.toNat_ofNat'] at h₁ h₂ h₃ h₄
    omega
  have hbit : ∀ j, j < 8 → b.toNat.testBit j = b'.toNat.testBit j := by
    intro j hj
    have hz : ∀ s q, positionByte s q (16 * j) = 0 := by
      intro s q
      interval_cases j <;> rfl
    have hj' := hat (16 * j) (by unfold byteEncodingSize; omega)
    simp only [hz, Nat.mul_mod_right, if_true, UInt8.zero_xor,
      Nat.mul_div_cancel_left j (by decide : 0 < 16), bitByte] at hj'
    cases h₁ : b.toNat.testBit j <;> cases h₂ : b'.toNat.testBit j <;> simp_all
  refine ⟨hd, hpos, UInt8.toNat_inj.mp (Nat.eq_of_testBit_eq ?_)⟩
  intro j
  by_cases hj : j < 8
  · exact hbit j hj
  · have hlt : ∀ c : UInt8, c.toNat < 2 ^ j := fun c =>
      Nat.lt_of_lt_of_le c.toNat_lt (Nat.pow_le_pow_right (by decide) (by omega))
    rw [Nat.testBit_lt_two_pow (hlt b), Nat.testBit_lt_two_pow (hlt b')]

/-- A polynomial digest, which separates the strings of the instance. -/
def polyHash : HashAlgorithm where
  id := HashAlgId.blake3
  size := 2
  hash data :=
    let h := data.foldl (fun acc b => (acc * 257 + b.toNat + 1) % 65521) 7
    ⟨[UInt8.ofNat h, UInt8.ofNat (h / 2 ^ 8)], by simp [maxLen]⟩
  length_hash _ := rfl

def sampleTranscript : Transcript := ⟨[7, 9], [5]⟩

def sampleEncodings : EncodingProvider := fun d idx =>
  (sampleTranscript.get d idx).map
    ((ChaChaEncoder.new unitSecret).encodeSubsequence positionStream d)

theorem sampleEncodings_provides :
    ProvidesEncodings positionStream unitSecret sampleTranscript sampleEncodings := by
  intro d idx encoding h
  obtain ⟨seq, hget, rfl⟩ := Option.map_eq_some_iff.mp h
  exact ⟨seq, hget, rfl⟩

def sampleIdxs : List (Direction × Idx) :=
  [(.sent, RangeSet.ofList [0, 1]), (.received, RangeSet.ofList [0])]

def sampleBlinders (i : Nat) : Blinder := ⟨Vector.replicate 16 (UInt8.ofNat i)⟩

def sampleProvider : CryptoProvider :=
  ⟨⟨fun id => if id = polyHash.id then some polyHash else none⟩⟩

theorem sampleProvider_get : sampleProvider.hash.get polyHash.id = .ok polyHash := rfl

theorem sampleTree_ok : (EncodingTree.new polyHash sampleIdxs sampleEncodings
    sampleTranscript.length sampleBlinders :
      Except _ (EncodingTree RsMerkle.reference)).toOption.isSome = true := by
  decide +kernel

def sampleTree : EncodingTree RsMerkle.reference := Option.get _ sampleTree_ok

theorem sampleProof_ok : (sampleTree.proof sampleTranscript sampleIdxs).toOption.isSome = true := by
  decide +kernel

def sampleProof : EncodingProof RsMerkle.reference := Option.get _ sampleProof_ok

theorem sampleRoot_ok : ((sampleTree.root : Except (Fault Empty) _)).toOption.isSome = true := by
  decide +kernel

def sampleRoot : TypedHash := Option.get _ sampleRoot_ok

theorem sampleResult_ok : (sampleProof.verifyWithProvider positionStream sampleProvider
    sampleTranscript.length ⟨sampleRoot, unitSecret⟩).toOption.isSome = true := by
  decide +kernel

theorem EncodingProof.verifyWithProvider_sound_sample :
    ∃ b, ((Option.get _ sampleResult_ok).ofDirection .sent)[1]? = some b ∧
      (sampleTranscript.ofDirection .sent)[1]? = some b := by
  refine EncodingProof.verifyWithProvider_sound (Fault.ok_get sampleTree_ok)
    sampleEncodings_provides
    (Fault.ok_get sampleRoot_ok) sampleProvider_get positionStream_distinct ?_
    (Fault.ok_get sampleResult_ok) .sent 1 ?_
  · have : ∀ x ∈ sampleTree.hashed polyHash sampleEncodings ++
        sampleProof.hashed positionStream (ChaChaEncoder.new unitSecret) polyHash,
        ∀ y ∈ sampleTree.hashed polyHash sampleEncodings ++
        sampleProof.hashed positionStream (ChaChaEncoder.new unitSecret) polyHash,
        polyHash.hash x = polyHash.hash y → x = y := by
      decide +kernel
    intro x hx y hy
    exact this x (List.mem_append.mpr hx) y (List.mem_append.mpr hy)
  · decide +kernel

end Tlsn.Core

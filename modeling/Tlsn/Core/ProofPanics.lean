import Tlsn.Core.CompressedTranscript
import Tlsn.Core.Disclosure

/-!
When the verification of a transcript proof aborts. The verifier unwraps the
serialization of whatever it hashes, and it copies every opened subsequence into
the transcript. The bounds of an encoding opening are checked before the copy,
those of a plaintext hash are not.
-/

namespace Tlsn.Core

theorem MerkleProof.verify_ne_panic {rs : RsMerkle} (p : MerkleProof rs) (hasher : HashAlgorithm)
    (root : TypedHash) (leaves : List (Nat × Hash)) :
    p.verify hasher root leaves ≠ .error .panic := by
  unfold MerkleProof.verify
  dsimp only
  split
  · nofun
  · split
    · nofun
    · nofun

theorem copyRanges_error {ε : Type} {slice : PosRange → Nat → List UInt8} (rs : List PosRange)
    (offset : Nat) {dest : List UInt8} {e : Fault ε}
    (h : copyRanges slice rs offset dest = .error e) : e = .panic := by
  induction rs generalizing offset dest with
  | nil => cases h
  | cons r rs ih =>
      cases Fault.bind_error_iff.mp h with
      | inl h =>
          unfold copyRange at h
          split at h
          · cases h
          · cases h
            rfl
      | inr h =>
          obtain ⟨d, -, h⟩ := h
          exact ih _ h

namespace PartialTranscript

/-- The transcript has the lengths `l`, and marks nothing beyond them authenticated. -/
structure Sized (l : TranscriptLength) (t : PartialTranscript) : Prop where
  length : ∀ d, (t.ofDirection d).length = l.ofDirection d
  bound : t.InBounds

theorem sized_new (l : TranscriptLength) : (new l.sent.toNat l.received.toNat).Sized l where
  length := (agrees_new l fun _ _ => 0).length
  bound d := by
    rw [(agrees_new l fun _ _ => 0).length d]
    exact (agrees_new l fun _ _ => 0).bound d

theorem Sized.unionSubsequence_ok {ε : Type} {l : TranscriptLength} {t : PartialTranscript}
    (h : t.Sized l) (d : Direction) (seq : Subsequence)
    (hstop : seq.idx.stop ≤ l.ofDirection d) :
    ∃ t', (t.unionSubsequence d seq : Except (Fault ε) _) = .ok t' := by
  obtain ⟨f, hf⟩ := seq.exists_values
  obtain ⟨t', ht', -⟩ := unionSubsequence_eq (ε := ε) t d seq f hf (by rw [h.length d]; exact hstop)
  exact ⟨t', ht'⟩

theorem stop_le_of_unionSubsequence {ε : Type} {t t' : PartialTranscript} {d : Direction}
    {seq : Subsequence} (h : (t.unionSubsequence d seq : Except (Fault ε) _) = .ok t') :
    seq.idx.stop ≤ (t.ofDirection d).length := by
  cases d with
  | sent =>
      obtain ⟨data, hdata, -⟩ := Fault.bind_ok_iff.mp h
      exact idx_stop_le_of_copyRanges _ hdata
  | received =>
      obtain ⟨data, hdata, -⟩ := Fault.bind_ok_iff.mp h
      exact idx_stop_le_of_copyRanges _ hdata

theorem Sized.of_unionSubsequence {ε : Type} {l : TranscriptLength} {t t' : PartialTranscript}
    (h : t.Sized l) {d : Direction} {seq : Subsequence}
    (hunion : (t.unionSubsequence d seq : Except (Fault ε) _) = .ok t') : t'.Sized l := by
  have hstop := stop_le_of_unionSubsequence hunion
  obtain ⟨f, hf⟩ := seq.exists_values
  obtain ⟨t'', ht'', hall⟩ := unionSubsequence_eq (ε := ε) t d seq f hf hstop
  cases hunion.symm.trans ht''
  refine ⟨fun d' => (hall d').2.1.trans (h.length d'), ?_⟩
  intro d'
  rw [(hall d').1, (hall d').2.1]
  by_cases hd : d' = d
  · subst hd
    rw [if_pos rfl]
    exact RangeSet.union_stop_le_iff.mpr ⟨h.bound d', hstop⟩
  · rw [if_neg hd]
    exact h.bound d'

theorem unionSubsequence_error {ε : Type} {t : PartialTranscript} {d : Direction}
    {seq : Subsequence} {e : Fault ε} (h : t.unionSubsequence d seq = .error e) : e = .panic := by
  cases d with
  | sent =>
      cases Fault.bind_error_iff.mp h with
      | inl h => exact copyRanges_error _ _ h
      | inr h =>
          obtain ⟨data, -, h⟩ := h
          cases h
  | received =>
      cases Fault.bind_error_iff.mp h with
      | inl h => exact copyRanges_error _ _ h
      | inr h =>
          obtain ⟨data, -, h⟩ := h
          cases h

theorem Sized.unionSubsequence_panic_iff {ε : Type} {l : TranscriptLength} {t : PartialTranscript}
    (h : t.Sized l) {d : Direction} {seq : Subsequence} :
    (t.unionSubsequence d seq : Except (Fault ε) _) = .error .panic ↔
      l.ofDirection d < seq.idx.stop := by
  by_cases hstop : seq.idx.stop ≤ l.ofDirection d
  · obtain ⟨t', ht'⟩ := h.unionSubsequence_ok (ε := ε) d seq hstop
    rw [ht']
    simp [Nat.not_lt.mpr hstop]
  · refine iff_of_true ?_ (Nat.lt_of_not_le hstop)
    cases hunion : (t.unionSubsequence d seq : Except (Fault ε) _) with
    | ok t' =>
        have := stop_le_of_unionSubsequence hunion
        rw [h.length d] at this
        exact absurd this hstop
    | error e => rw [unionSubsequence_error hunion]

/-- Two transcripts of the same lengths can be merged. -/
theorem Sized.unionTranscript_ok {ε : Type} {l : TranscriptLength} {t other : PartialTranscript}
    (h : t.Sized l) (ho : other.Sized l) :
    ∃ t', (t.unionTranscript other : Except (Fault ε) _) = .ok t' ∧ t'.Sized l := by
  obtain ⟨t', ht', hall⟩ := unionTranscript_eq (ε := ε) t other
    (fun d => (h.length d).trans (ho.length d).symm)
    (fun d => Nat.le_trans RangeSet.difference_stop_le (ho.bound d))
  refine ⟨t', ht', fun d => (hall d).2.1.trans (h.length d), ?_⟩
  intro d
  rw [(hall d).1, (hall d).2.1, RangeSet.union_stop_le_iff]
  refine ⟨h.bound d, ?_⟩
  rw [h.length d, ← ho.length d]
  exact ho.bound d

end PartialTranscript

/-! ## Encoding openings -/

/-- The encoding of the opened data is longer than a serialized sequence may be. -/
def Opening.TooLong (opening : Opening) : Prop :=
  maxSequenceLength < byteEncodingSize * opening.seq.data.length

namespace EncodingProof

/-- The openings pass the limits on the opened data and on the transcript. -/
structure Admitted (l : TranscriptLength) (entries : List (Nat × Opening)) : Prop where
  total : (entries.map fun e => e.2.seq.data.length).sum ≤ maxTotalCommittedData
  bound : ∀ e ∈ entries, e.2.seq.idx.stop ≤ l.ofDirection e.2.direction

theorem Admitted.prefix {l : TranscriptLength} {as : List (Nat × Opening)}
    (bs : List (Nat × Opening)) (h : Admitted l (as ++ bs)) : Admitted l as where
  total := by
    have := h.total
    rw [List.map_append, List.sum_append] at this
    omega
  bound e he := h.bound e (List.mem_append_left _ he)

section Verification

variable {rs : RsMerkle} {chacha : ChaCha12} {encoder : ChaChaEncoder} {hasher : HashAlgorithm}
  {l : TranscriptLength}

/-- What the loop keeps: the lengths, and the total opened. -/
structure Collected (l : TranscriptLength) (entries : List (Nat × Opening)) (st : Verification) :
    Prop where
  sized : st.transcript.Sized l
  admitted : Admitted l entries
  total : st.totalOpened = (entries.map fun e => e.2.seq.data.length).sum

theorem collected_nil :
    Collected l [] ⟨[], PartialTranscript.new l.sent.toNat l.received.toNat, 0⟩ where
  sized := PartialTranscript.sized_new l
  admitted := ⟨Nat.zero_le _, List.forall_mem_nil _⟩
  total := rfl

theorem Collected.step {entries : List (Nat × Opening)} {st st' : Verification}
    {entry : Nat × Opening} (h : Collected l entries st)
    (hstep : verifyOpening chacha encoder hasher l st entry = .ok st') :
    Collected l (entries ++ [entry]) st' := by
  obtain ⟨htotal, hstop, -, transcript, hunion, rfl⟩ := verifyOpening_ok_iff.mp hstep
  have hsum : ((entries ++ [entry]).map fun e => e.2.seq.data.length).sum =
      st.totalOpened + entry.2.seq.data.length := by
    simp [h.total]
  refine ⟨h.sized.of_unionSubsequence hunion, ⟨hsum ▸ htotal, ?_⟩, hsum.symm⟩
  intro e he
  rcases List.mem_append.mp he with he | he
  · exact h.admitted.bound e he
  · obtain rfl := List.mem_singleton.mp he
    exact hstop

theorem Collected.admitted_iff {entries : List (Nat × Opening)} {st : Verification}
    {entry : Nat × Opening} (h : Collected l entries st) :
    Admitted l (entries ++ [entry]) ↔
      st.totalOpened + entry.2.seq.data.length ≤ maxTotalCommittedData ∧
        entry.2.seq.idx.stop ≤ l.ofDirection entry.2.direction := by
  have hsum : ((entries ++ [entry]).map fun e => e.2.seq.data.length).sum =
      st.totalOpened + entry.2.seq.data.length := by
    simp [h.total]
  constructor
  · intro hadmitted
    exact ⟨hsum ▸ hadmitted.total, hadmitted.bound entry (by simp)⟩
  · rintro ⟨htotal, hstop⟩
    refine ⟨hsum ▸ htotal, ?_⟩
    intro e he
    rcases List.mem_append.mp he with he | he
    · exact h.admitted.bound e he
    · obtain rfl := List.mem_singleton.mp he
      exact hstop

theorem length_leaf (opening : Opening) :
    (opening.leaf chacha encoder).data.encoding.length =
      byteEncodingSize * opening.seq.data.length :=
  encoder.length_encodeSubsequence chacha opening.direction opening.seq

theorem Collected.step_ok {entries : List (Nat × Opening)} {st : Verification}
    {entry : Nat × Opening} (h : Collected l entries st)
    (hadmitted : Admitted l (entries ++ [entry])) (hshort : ¬ entry.2.TooLong) :
    ∃ st', verifyOpening chacha encoder hasher l st entry = .ok st' := by
  obtain ⟨htotal, hstop⟩ := h.admitted_iff.mp hadmitted
  obtain ⟨transcript, hunion⟩ :=
    h.sized.unionSubsequence_ok (ε := EncodingProofError) _ entry.2.seq hstop
  refine ⟨_, verifyOpening_ok_iff.mpr ⟨htotal, hstop, ?_, transcript, hunion, rfl⟩⟩
  rw [length_leaf]
  exact Nat.le_of_not_lt hshort

theorem Collected.panic_iff {entries : List (Nat × Opening)} {st : Verification}
    {entry : Nat × Opening} (h : Collected l entries st) :
    verifyOpening chacha encoder hasher l st entry = .error .panic ↔
      Admitted l (entries ++ [entry]) ∧ entry.2.TooLong := by
  rw [h.admitted_iff]
  unfold verifyOpening
  dsimp only
  by_cases hmax : st.totalOpened + entry.2.seq.data.length > maxTotalCommittedData
  · rw [if_pos hmax]
    refine iff_of_false (fun hthrow => by cases hthrow) ?_
    rintro ⟨⟨htotal, -⟩, -⟩
    omega
  · by_cases hstop : entry.2.seq.idx.stop > l.ofDirection entry.2.direction
    · rw [if_neg hmax, if_pos hstop]
      refine iff_of_false (fun hthrow => by cases hthrow) ?_
      rintro ⟨⟨-, hle⟩, -⟩
      omega
    · rw [if_neg hmax, if_neg hstop]
      constructor
      · intro hpanic
        cases Fault.bind_error_iff.mp hpanic with
        | inl hhash =>
            have hlong := (HashAlgorithm.hashCanonical_error_iff.mp hhash).1
            rw [length_leaf] at hlong
            exact ⟨⟨by omega, by omega⟩, hlong⟩
        | inr hpanic =>
            obtain ⟨hash, -, hpanic⟩ := hpanic
            cases Fault.bind_error_iff.mp hpanic with
            | inl hunion => exact absurd (h.sized.unionSubsequence_panic_iff.mp hunion) hstop
            | inr hpanic =>
                obtain ⟨transcript, -, hpanic⟩ := hpanic
                cases hpanic
      · rintro ⟨-, hlong⟩
        refine Fault.bind_error_iff.mpr (.inl (HashAlgorithm.hashCanonical_error_iff.mpr ⟨?_, rfl⟩))
        rw [length_leaf]
        exact hlong

/-- The openings abort the verifier exactly at the first one that is admitted and too long. -/
theorem openings_panic_iff {entries : List (Nat × Opening)} :
    entries.foldlM (verifyOpening chacha encoder hasher l)
        ⟨[], PartialTranscript.new l.sent.toNat l.received.toNat, 0⟩ = .error .panic ↔
      ∃ before entry after, entries = before ++ entry :: after ∧
        Admitted l (before ++ [entry]) ∧ entry.2.TooLong := by
  rw [Fault.foldlM_error_iff (Collected l) (fun pre a => Admitted l (pre ++ [a]))
    (fun pre a => Admitted l (pre ++ [a]) ∧ a.2.TooLong) collected_nil]
  · constructor
    · rintro ⟨before, x, after, rfl, -, hx⟩
      exact ⟨before, x, after, rfl, hx⟩
    · rintro ⟨before, x, after, rfl, hx⟩
      refine ⟨before, x, after, rfl, ?_, hx⟩
      rintro as a cs rfl
      exact Admitted.prefix (cs ++ [x]) (by simpa using hx.1)
  · intro pre a st st' h hstep
    exact ⟨(h.step hstep).admitted, h.step hstep⟩
  · intro pre a st h hadmitted hnot
    exact h.step_ok hadmitted fun hlong => hnot ⟨hadmitted, hlong⟩
  · intro pre a st h
    exact h.panic_iff

theorem openings_ok {entries : List (Nat × Opening)} {st : Verification}
    (h : entries.foldlM (verifyOpening chacha encoder hasher l)
      ⟨[], PartialTranscript.new l.sent.toNat l.received.toNat, 0⟩ = .ok st) :
    Collected l entries st :=
  Fault.foldlM_invariant (P := Collected l) collected_nil
    (fun _ _ _ _ _ _ hcollected hstep => hcollected.step hstep) h

/-- A verifier that knows the hash algorithm reaches an opening which it cannot hash. -/
def Aborts (provider : CryptoProvider) (l : TranscriptLength) (commitment : EncodingCommitment)
    (proof : EncodingProof rs) : Prop :=
  (∃ hasher, provider.hash.get commitment.root.alg = .ok hasher) ∧
    ∃ before entry after, proof.openings.entries = before ++ entry :: after ∧
      Admitted l (before ++ [entry]) ∧ entry.2.TooLong

theorem verifyWithProvider_panic_iff {proof : EncodingProof rs} {provider : CryptoProvider}
    {commitment : EncodingCommitment} :
    proof.verifyWithProvider chacha provider l commitment = .error .panic ↔
      proof.Aborts provider l commitment := by
  unfold verifyWithProvider Aborts
  cases hget : provider.hash.get commitment.root.alg with
  | error e =>
      refine iff_of_false (fun h => by cases h) ?_
      rintro ⟨⟨hasher, h⟩, -⟩
      cases h
  | ok hasher =>
      simp only [Fault.mapError_ok, Fault.ok_bind]
      rw [← openings_panic_iff, Fault.bind_error_iff]
      constructor
      · intro h
        cases h with
        | inl hloop => exact ⟨⟨hasher, rfl⟩, hloop⟩
        | inr h =>
            obtain ⟨st, -, h⟩ := h
            cases Fault.bind_error_iff.mp h with
            | inl h =>
                exact absurd (Fault.convert_panic_iff.mp h) (MerkleProof.verify_ne_panic _ _ _ _)
            | inr h =>
                obtain ⟨-, -, h⟩ := h
                cases h
      · rintro ⟨-, hloop⟩
        exact .inl hloop

theorem sized_of_verifyWithProvider {proof : EncodingProof rs} {provider : CryptoProvider}
    {commitment : EncodingCommitment} {t : PartialTranscript}
    (h : proof.verifyWithProvider chacha provider l commitment = .ok t) : t.Sized l := by
  obtain ⟨hasher, leaves, total, -, hloop, -⟩ := verifyWithProvider_ok_iff.mp h
  exact (openings_ok hloop).sized

end Verification

end EncodingProof

/-! ## Plaintext hash openings -/

namespace PlaintextHashProof

variable {proof : PlaintextHashProof} {provider : HashProvider} {commitment : PlaintextHash}

theorem verify_panic_iff :
    proof.verify provider commitment = .error .panic ↔
      (∃ alg, provider.get commitment.hash.alg = .ok alg) ∧
        maxSequenceLength < proof.data.data.length := by
  unfold verify
  cases hget : provider.get commitment.hash.alg with
  | error e =>
      refine iff_of_false (fun h => by cases h) ?_
      rintro ⟨⟨alg, h⟩, -⟩
      cases h
  | ok alg =>
      simp only [Fault.mapError_ok, Fault.ok_bind, Fault.bind_error_iff,
        HashAlgorithm.hashCanonical_error_iff]
      constructor
      · rintro (⟨hlong, -⟩ | ⟨hash, -, h⟩)
        · exact ⟨⟨alg, rfl⟩, hlong⟩
        · split at h
          · cases h
          · unfold Subsequence.new at h
            split at h <;> cases h
      · rintro ⟨-, hlong⟩
        exact .inl ⟨hlong, trivial⟩

/-- What is returned has the direction and the index of the commitment. -/
theorem verify_idx {direction : Direction} {seq : Subsequence}
    (h : proof.verify provider commitment = .ok (direction, seq)) :
    direction = commitment.direction ∧ seq.idx = commitment.idx := by
  unfold verify at h
  obtain ⟨alg, -, h⟩ := Fault.bind_ok_iff.mp h
  obtain ⟨hash, -, h⟩ := Fault.bind_ok_iff.mp h
  split at h
  · cases h
  · unfold Subsequence.new at h
    split at h
    · cases h
      exact ⟨rfl, rfl⟩
    · cases h

end PlaintextHashProof

namespace TranscriptProof

section Hashes

variable {provider : CryptoProvider} {body : Body}

/-- The length of the data which the opened commitment covers. -/
def committedLen (body : Body) (proof : PlaintextHashProof) : Nat :=
  match body.plaintextHashes.getByFieldId proof.commitment with
  | none => 0
  | some field => field.data.idx.len

/-- The proof opens a commitment of the attestation. -/
def Opens (provider : CryptoProvider) (body : Body) (proof : PlaintextHashProof) : Prop :=
  ∃ field opened, body.plaintextHashes.getByFieldId proof.commitment = some field ∧
    proof.verify provider.hash field.data = .ok opened

/-- The proof names a commitment of a known algorithm with data too long to be hashed, or opens
one whose index ends beyond the transcript. -/
def HashAborts (provider : CryptoProvider) (body : Body) (proof : PlaintextHashProof) : Prop :=
  ∃ field, body.plaintextHashes.getByFieldId proof.commitment = some field ∧
    ((∃ alg, provider.hash.get field.data.hash.alg = .ok alg) ∧
        maxSequenceLength < proof.data.data.length ∨
      (∃ opened, proof.verify provider.hash field.data = .ok opened) ∧
        body.transcriptLength.ofDirection field.data.direction < field.data.idx.stop)

/-- What the loop keeps: the lengths, and the total opened. -/
structure Merged (body : Body) (proofs : List PlaintextHashProof) (st : PartialTranscript × Nat) :
    Prop where
  sized : st.1.Sized body.transcriptLength
  total : st.2 = (proofs.map (committedLen body)).sum

theorem Merged.total_append {proofs : List PlaintextHashProof} {st : PartialTranscript × Nat}
    (h : Merged body proofs st) {proof : PlaintextHashProof} {field : Field PlaintextHash}
    (hfield : body.plaintextHashes.getByFieldId proof.commitment = some field) :
    ((proofs ++ [proof]).map (committedLen body)).sum = st.2 + field.data.idx.len := by
  simp [h.total, committedLen, hfield]

theorem Merged.step {proofs : List PlaintextHashProof} {st st' : PartialTranscript × Nat}
    {proof : PlaintextHashProof} (h : Merged body proofs st)
    (hstep : verifyHash provider body st proof = .ok st') :
    (((proofs ++ [proof]).map (committedLen body)).sum ≤ maxTotalCommittedData ∧
      Opens provider body proof) ∧ Merged body (proofs ++ [proof]) st' := by
  unfold verifyHash at hstep
  cases hfield : body.plaintextHashes.getByFieldId proof.commitment with
  | none =>
      simp only [hfield] at hstep
      cases hstep
  | some field =>
      have htotal := h.total_append hfield
      simp only [hfield] at hstep
      by_cases hmax : st.2 + field.data.idx.len > maxTotalCommittedData
      · rw [if_pos hmax] at hstep
        cases hstep
      · rw [if_neg hmax] at hstep
        obtain ⟨⟨d, seq⟩, hverify, hstep⟩ := Fault.bind_ok_iff.mp hstep
        obtain ⟨transcript, hunion, hstep⟩ := Fault.bind_ok_iff.mp hstep
        cases hstep
        have hopened := Fault.convert_ok_iff.mp hverify
        exact ⟨⟨by omega, field, (d, seq), hfield, hopened⟩,
          h.sized.of_unionSubsequence hunion, htotal.symm⟩

theorem Merged.step_ok {proofs : List PlaintextHashProof} {st : PartialTranscript × Nat}
    {proof : PlaintextHashProof} (h : Merged body proofs st)
    (hmax : ((proofs ++ [proof]).map (committedLen body)).sum ≤ maxTotalCommittedData)
    (hopens : Opens provider body proof) (hnot : ¬ HashAborts provider body proof) :
    ∃ st', verifyHash provider body st proof = .ok st' := by
  obtain ⟨field, ⟨d, seq⟩, hfield, hverify⟩ := hopens
  obtain ⟨rfl, hidx⟩ := PlaintextHashProof.verify_idx hverify
  rw [h.total_append hfield] at hmax
  have hstop : seq.idx.stop ≤ body.transcriptLength.ofDirection field.data.direction := by
    rw [hidx]
    by_contra hlt
    exact hnot ⟨field, hfield, .inr ⟨⟨_, hverify⟩, Nat.lt_of_not_le hlt⟩⟩
  obtain ⟨transcript, hunion⟩ :=
    h.sized.unionSubsequence_ok (ε := TranscriptProofError) _ seq hstop
  refine ⟨(transcript, st.2 + field.data.idx.len), ?_⟩
  unfold verifyHash
  simp only [hfield]
  rw [if_neg (Nat.not_lt.mpr hmax)]
  exact Fault.bind_ok_iff.mpr ⟨_, Fault.convert_ok_iff.mpr hverify,
    Fault.bind_ok_iff.mpr ⟨transcript, hunion, rfl⟩⟩

theorem Merged.panic_iff {proofs : List PlaintextHashProof} {st : PartialTranscript × Nat}
    {proof : PlaintextHashProof} (h : Merged body proofs st) :
    verifyHash provider body st proof = .error .panic ↔
      ((proofs ++ [proof]).map (committedLen body)).sum ≤ maxTotalCommittedData ∧
        HashAborts provider body proof := by
  unfold verifyHash HashAborts
  cases hfield : body.plaintextHashes.getByFieldId proof.commitment with
  | none =>
      refine iff_of_false (fun hthrow => by cases hthrow) ?_
      rintro ⟨-, field, hsome, -⟩
      cases hsome
  | some field =>
      rw [h.total_append hfield]
      by_cases hmax : st.2 + field.data.idx.len > maxTotalCommittedData
      · simp only [if_pos hmax]
        refine iff_of_false (fun hthrow => by cases hthrow) ?_
        rintro ⟨hle, -⟩
        omega
      · simp only [if_neg hmax]
        constructor
        · intro hpanic
          refine ⟨by omega, field, rfl, ?_⟩
          cases Fault.bind_error_iff.mp hpanic with
          | inl hverify =>
              exact .inl (PlaintextHashProof.verify_panic_iff.mp
                (Fault.convert_panic_iff.mp hverify))
          | inr hpanic =>
              obtain ⟨⟨d, seq⟩, hverify, hpanic⟩ := hpanic
              have hverify := Fault.convert_ok_iff.mp hverify
              obtain ⟨rfl, hidx⟩ := PlaintextHashProof.verify_idx hverify
              refine .inr ⟨⟨_, hverify⟩, ?_⟩
              cases Fault.bind_error_iff.mp hpanic with
              | inl hunion =>
                  rw [← hidx]
                  exact h.sized.unionSubsequence_panic_iff.mp hunion
              | inr hpanic =>
                  obtain ⟨transcript, -, hpanic⟩ := hpanic
                  cases hpanic
        · rintro ⟨-, _, ⟨⟩, hlong | ⟨⟨⟨d, seq⟩, hverify⟩, hstop⟩⟩
          · exact Fault.bind_error_iff.mpr (.inl
              (Fault.convert_panic_iff.mpr (PlaintextHashProof.verify_panic_iff.mpr hlong)))
          · obtain ⟨rfl, hidx⟩ := PlaintextHashProof.verify_idx hverify
            refine Fault.bind_error_iff.mpr (.inr ⟨_, Fault.convert_ok_iff.mpr hverify,
              Fault.bind_error_iff.mpr (.inl (h.sized.unionSubsequence_panic_iff.mpr ?_))⟩)
            rw [hidx]
            exact hstop

/-- The hash proofs abort the verifier exactly when it reaches one of these. -/
theorem hashes_panic_iff {proofs : List PlaintextHashProof} {transcript : PartialTranscript}
    (h : transcript.Sized body.transcriptLength) :
    proofs.foldlM (verifyHash provider body) (transcript, 0) = .error .panic ↔
      ∃ before proof after, proofs = before ++ proof :: after ∧
        (∀ p ∈ before, Opens provider body p) ∧
        ((before ++ [proof]).map (committedLen body)).sum ≤ maxTotalCommittedData ∧
        HashAborts provider body proof := by
  rw [Fault.foldlM_error_iff (Merged body)
    (fun pre a => ((pre ++ [a]).map (committedLen body)).sum ≤ maxTotalCommittedData ∧
      Opens provider body a)
    (fun pre a => ((pre ++ [a]).map (committedLen body)).sum ≤ maxTotalCommittedData ∧
      HashAborts provider body a) ⟨h, rfl⟩]
  · constructor
    · rintro ⟨before, x, after, rfl, hbefore, hx⟩
      refine ⟨before, x, after, rfl, ?_, hx⟩
      intro p hp
      obtain ⟨as, cs, rfl⟩ := List.append_of_mem hp
      exact (hbefore as p cs rfl).2
    · rintro ⟨before, x, after, rfl, hbefore, hx⟩
      refine ⟨before, x, after, rfl, ?_, hx⟩
      rintro as a cs rfl
      refine ⟨?_, hbefore a (by simp)⟩
      have htotal := hx.1
      simp only [List.map_append, List.map_cons, List.sum_append, List.sum_cons] at htotal ⊢
      simp only [List.map_nil, List.sum_nil]
      omega
  · intro pre a st st' hmerged hstep
    exact hmerged.step hstep
  · intro pre a st hmerged hpasses hnot
    exact hmerged.step_ok hpasses.1 hpasses.2 fun haborts => hnot ⟨hpasses.1, haborts⟩
  · intro pre a st hmerged
    exact hmerged.panic_iff

end Hashes

section Verification

variable {rs : RsMerkle} {chacha : ChaCha12} {proof : TranscriptProof rs}
  {provider : CryptoProvider} {body : Body}

/-- The encoding proof, if there is one, is accepted. -/
def EncodingAccepted (chacha : ChaCha12) (proof : TranscriptProof rs) (provider : CryptoProvider)
    (body : Body) : Prop :=
  ∀ p, proof.encodingProof = some p → ∃ commitment t, body.encodingCommitment = some commitment ∧
    p.verifyWithProvider chacha provider body.transcriptLength commitment = .ok t

/-- The hash proofs lead the verifier, opening commitments within its limit, to one it cannot
hash or cannot merge. -/
def HashesAbort (proof : TranscriptProof rs) (provider : CryptoProvider) (body : Body) : Prop :=
  ∃ before p after, proof.hashProofs = before ++ p :: after ∧
    (∀ q ∈ before, Opens provider body q) ∧
    ((before ++ [p]).map (committedLen body)).sum ≤ maxTotalCommittedData ∧
    HashAborts provider body p

theorem verifyEncoding_sized {p : EncodingProof rs} {t t' : PartialTranscript}
    (h : t.Sized body.transcriptLength)
    (hverify : verifyEncoding chacha provider body t p = .ok t') :
    t'.Sized body.transcriptLength ∧ ∃ commitment seq, body.encodingCommitment = some commitment ∧
      p.verifyWithProvider chacha provider body.transcriptLength commitment = .ok seq := by
  unfold verifyEncoding at hverify
  cases hcommitment : body.encodingCommitment with
  | none =>
      simp only [hcommitment] at hverify
      cases hverify
  | some commitment =>
      simp only [hcommitment] at hverify
      obtain ⟨seq, hseq, hunion⟩ := Fault.bind_ok_iff.mp hverify
      have hseq := Fault.convert_ok_iff.mp hseq
      obtain ⟨t'', ht'', hsized⟩ := h.unionTranscript_ok (ε := TranscriptProofError)
        (EncodingProof.sized_of_verifyWithProvider hseq)
      cases hunion.symm.trans ht''
      exact ⟨hsized, commitment, seq, rfl, hseq⟩

theorem verifyEncoding_ok {p : EncodingProof rs} {t seq : PartialTranscript}
    {commitment : EncodingCommitment} (h : t.Sized body.transcriptLength)
    (hcommitment : body.encodingCommitment = some commitment)
    (hverify : p.verifyWithProvider chacha provider body.transcriptLength commitment = .ok seq) :
    ∃ t', verifyEncoding chacha provider body t p = .ok t' := by
  obtain ⟨t', ht', -⟩ := h.unionTranscript_ok (ε := TranscriptProofError)
    (EncodingProof.sized_of_verifyWithProvider hverify)
  refine ⟨t', ?_⟩
  simp only [verifyEncoding, hcommitment]
  exact Fault.bind_ok_iff.mpr ⟨seq, Fault.convert_ok_iff.mpr hverify, ht'⟩

theorem verifyEncoding_panic_iff {p : EncodingProof rs} {t : PartialTranscript}
    (h : t.Sized body.transcriptLength) :
    verifyEncoding chacha provider body t p = .error .panic ↔
      ∃ commitment, body.encodingCommitment = some commitment ∧
        p.Aborts provider body.transcriptLength commitment := by
  unfold verifyEncoding
  cases hcommitment : body.encodingCommitment with
  | none =>
      refine iff_of_false (fun hthrow => by cases hthrow) ?_
      rintro ⟨commitment, hsome, -⟩
      cases hsome
  | some commitment =>
      simp only [Option.some.injEq, exists_eq_left']
      rw [Fault.bind_error_iff, Fault.convert_panic_iff, EncodingProof.verifyWithProvider_panic_iff]
      refine or_iff_left ?_
      rintro ⟨seq, hseq, hunion⟩
      obtain ⟨t', ht', -⟩ := h.unionTranscript_ok (ε := TranscriptProofError)
        (EncodingProof.sized_of_verifyWithProvider (Fault.convert_ok_iff.mp hseq))
      cases hunion.symm.trans ht'

/-- The empty transcript, with what the encoding proof shows. -/
def encodingPart (chacha : ChaCha12) (proof : TranscriptProof rs) (provider : CryptoProvider)
    (body : Body) : Except (Fault TranscriptProofError) PartialTranscript :=
  let transcript := PartialTranscript.new body.transcriptLength.sent.toNat
    body.transcriptLength.received.toNat
  match proof.encodingProof with
  | none => pure transcript
  | some p => verifyEncoding chacha provider body transcript p

theorem verifyWithProvider_eq :
    proof.verifyWithProvider chacha provider body = do
      let transcript ← encodingPart chacha proof provider body
      let st ← proof.hashProofs.foldlM (verifyHash provider body) (transcript, 0)
      return st.1 := by
  unfold verifyWithProvider encodingPart
  cases proof.encodingProof with
  | none => rfl
  | some p => rfl

theorem encodingPart_ok_iff :
    (∃ t, encodingPart chacha proof provider body = .ok t) ↔
      EncodingAccepted chacha proof provider body := by
  have hnew := PartialTranscript.sized_new body.transcriptLength
  unfold EncodingAccepted encodingPart
  cases proof.encodingProof with
  | none => exact iff_of_true ⟨_, rfl⟩ (fun p hp => by cases hp)
  | some p =>
      constructor
      · rintro ⟨t, ht⟩ _ ⟨⟩
        exact (verifyEncoding_sized hnew ht).2
      · intro haccepted
        obtain ⟨commitment, t, hcommitment, hverify⟩ := haccepted p rfl
        exact verifyEncoding_ok hnew hcommitment hverify

theorem encodingPart_sized {t : PartialTranscript}
    (h : encodingPart chacha proof provider body = .ok t) : t.Sized body.transcriptLength := by
  have hnew := PartialTranscript.sized_new body.transcriptLength
  unfold encodingPart at h
  cases hproof : proof.encodingProof with
  | none =>
      rw [hproof] at h
      cases h
      exact hnew
  | some p =>
      rw [hproof] at h
      exact (verifyEncoding_sized hnew h).1

theorem encodingPart_panic_iff :
    encodingPart chacha proof provider body = .error .panic ↔
      ∃ p commitment, proof.encodingProof = some p ∧ body.encodingCommitment = some commitment ∧
        p.Aborts provider body.transcriptLength commitment := by
  unfold encodingPart
  cases proof.encodingProof with
  | none => exact iff_of_false (fun h => by cases h) (by simp)
  | some p =>
      simp only [verifyEncoding_panic_iff (PartialTranscript.sized_new body.transcriptLength),
        Option.some.injEq, exists_eq_left', exists_and_left]

/-- Verification returns unless an encoding opening is too long to be hashed or, after an
accepted encoding proof, the hash proofs abort it. -/
theorem verify_not_panic_iff :
    proof.verifyWithProvider chacha provider body ≠ .error .panic ↔
      (∀ p commitment, proof.encodingProof = some p → body.encodingCommitment = some commitment →
        ¬ p.Aborts provider body.transcriptLength commitment) ∧
      (EncodingAccepted chacha proof provider body → ¬ HashesAbort proof provider body) := by
  have hpanic : proof.verifyWithProvider chacha provider body = .error .panic ↔
      (∃ p commitment, proof.encodingProof = some p ∧ body.encodingCommitment = some commitment ∧
        p.Aborts provider body.transcriptLength commitment) ∨
      EncodingAccepted chacha proof provider body ∧ HashesAbort proof provider body := by
    rw [verifyWithProvider_eq, Fault.bind_error_iff, encodingPart_panic_iff, ← encodingPart_ok_iff]
    refine or_congr_right ?_
    constructor
    · rintro ⟨t, ht, h⟩
      refine ⟨⟨t, ht⟩, (hashes_panic_iff (encodingPart_sized ht)).mp ?_⟩
      cases Fault.bind_error_iff.mp h with
      | inl h => exact h
      | inr h =>
          obtain ⟨st, -, h⟩ := h
          cases h
    · rintro ⟨⟨t, ht⟩, h⟩
      exact ⟨t, ht, Fault.bind_error_iff.mpr
        (.inl ((hashes_panic_iff (encodingPart_sized ht)).mpr h))⟩
  rw [Ne, hpanic, not_or]
  refine and_congr ?_ not_and
  constructor
  · intro h p commitment hp hcommitment haborts
    exact h ⟨p, commitment, hp, hcommitment, haborts⟩
  · rintro h ⟨p, commitment, hp, hcommitment, haborts⟩
    exact h p commitment hp hcommitment haborts

end Verification

/-! ## A commitment beyond the transcript -/

def beyondData : Blinded (List UInt8) := ⟨[7], ⟨Vector.replicate 16 0⟩⟩

/-- The first byte sent is committed to, and nothing was sent. -/
def beyondBody : Body :=
  ⟨⟨0, 0⟩, none, Index.new [⟨⟨0⟩, ⟨.sent, RangeSet.ofRange ⟨0, 1⟩, ⟨polyHash.id,
    polyHash.hash (Blinded.bytes ⟨⟨beyondData.data⟩, beyondData.blinder⟩)⟩⟩⟩]
    fun field => (field.id, field.data.direction, field.data.idx)⟩

theorem verify_beyond_panics :
    ¬ ∀ (proof : TranscriptProof RsMerkle.reference) (body : Body),
      proof.verifyWithProvider positionStream sampleProvider body ≠ .error .panic := by
  intro h
  refine h ⟨none, [⟨beyondData, ⟨0⟩⟩]⟩ beyondBody ?_
  rfl

end TranscriptProof

end Tlsn.Core

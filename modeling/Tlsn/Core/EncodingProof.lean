import Tlsn.Core.Encoder
import Tlsn.Core.Merkle
import Tlsn.Library.Assoc

/-!
Encoding proofs and their verification. The verifier rebuilds the encoding of
every opening, hashes the blinded encodings, and checks them against the root of
the commitment. It collects the opened bytes before that check, so what it
returns is sound only because the check comes before the return.
-/

namespace Tlsn.Core

/-- Largest total length of the data opened by one proof. -/
def maxTotalCommittedData : Nat := 1000000000

def Direction.display : Direction → String
  | .sent => "sent"
  | .received => "received"

structure EncodingCommitment where
  root : TypedHash
  secret : EncoderSecret

structure Opening where
  direction : Direction
  seq : Subsequence
  blinder : Blinder

namespace EncodingProofError

inductive ErrorKind where
  | provider
  | proof
deriving DecidableEq

inductive Source where
  | msg (text : String)
  | hash (e : HashProviderError)
  | merkle (e : MerkleError)
deriving DecidableEq

end EncodingProofError

structure EncodingProofError where
  kind : EncodingProofError.ErrorKind
  source : EncodingProofError.Source
deriving DecidableEq

namespace EncodingProofError

def exceeded : EncodingProofError := ⟨.proof, .msg "exceeded maximum allowed data"⟩

def outOfBounds (direction : Direction) (stop transcriptLen : Nat) : EncodingProofError :=
  ⟨.proof, .msg ("index out of bounds of the transcript (" ++ direction.display ++ "): " ++
    toString stop ++ " > " ++ toString transcriptLen)⟩

end EncodingProofError

structure EncodingProof (rs : RsMerkle) where
  inclusionProof : MerkleProof rs
  openings : AssocMap Nat Opening

/-- The leaf an opening stands for. -/
def Opening.leaf (chacha : ChaCha12) (encoder : ChaChaEncoder) (opening : Opening) :
    Blinded EncodingLeaf :=
  ⟨⟨encoder.encodeSubsequence chacha opening.direction opening.seq⟩, opening.blinder⟩

namespace EncodingProof

structure Verification where
  leaves : List (Nat × Hash)
  transcript : PartialTranscript
  totalOpened : Nat

def verifyOpening (chacha : ChaCha12) (encoder : ChaChaEncoder) (hasher : HashAlgorithm)
    (transcriptLength : TranscriptLength) (st : Verification) (entry : Nat × Opening) :
    Except (Fault EncodingProofError) Verification := do
  let opening := entry.2
  let totalOpened := st.totalOpened + opening.seq.data.length
  if totalOpened > maxTotalCommittedData then
    throw (.err .exceeded)
  let transcriptLen := transcriptLength.ofDirection opening.direction
  if opening.seq.idx.stop > transcriptLen then
    throw (.err (.outOfBounds opening.direction opening.seq.idx.stop transcriptLen))
  let hash ← hasher.hashCanonical (opening.leaf chacha encoder)
  let transcript ← st.transcript.unionSubsequence opening.direction opening.seq
  return ⟨st.leaves ++ [(entry.1, hash)], transcript, totalOpened⟩

def verifyWithProvider {rs : RsMerkle} (chacha : ChaCha12) (proof : EncodingProof rs)
    (provider : CryptoProvider) (transcriptLength : TranscriptLength)
    (commitment : EncodingCommitment) :
    Except (Fault EncodingProofError) PartialTranscript := do
  let hasher ← (provider.hash.get commitment.root.alg).mapError
    fun e => Fault.err ⟨.provider, .hash e⟩
  let encoder := ChaChaEncoder.new commitment.secret
  let init : Verification :=
    ⟨[], PartialTranscript.new transcriptLength.sent.toNat transcriptLength.received.toNat, 0⟩
  let st ← proof.openings.entries.foldlM
    (verifyOpening chacha encoder hasher transcriptLength) init
  Fault.convert (fun e => ⟨.proof, .merkle e⟩)
    (proof.inclusionProof.verify hasher commitment.root st.leaves)
  return st.transcript

section Verification

variable {rs : RsMerkle} {chacha : ChaCha12} {encoder : ChaChaEncoder} {hasher : HashAlgorithm}
  {l : TranscriptLength}

theorem verifyOpening_ok_iff {st st' : Verification} {entry : Nat × Opening} :
    verifyOpening chacha encoder hasher l st entry = .ok st' ↔
      st.totalOpened + entry.2.seq.data.length ≤ maxTotalCommittedData ∧
      entry.2.seq.idx.stop ≤ l.ofDirection entry.2.direction ∧
      (entry.2.leaf chacha encoder).data.encoding.length ≤ maxSequenceLength ∧
      ∃ transcript,
        (st.transcript.unionSubsequence entry.2.direction entry.2.seq :
          Except (Fault EncodingProofError) _) = .ok transcript ∧
        st' = ⟨st.leaves ++ [(entry.1, hasher.hash (entry.2.leaf chacha encoder).bytes)],
          transcript, st.totalOpened + entry.2.seq.data.length⟩ := by
  unfold verifyOpening
  dsimp only
  by_cases hmax : st.totalOpened + entry.2.seq.data.length > maxTotalCommittedData
  · simp only [hmax, if_true]
    constructor
    · intro h
      cases h
    · rintro ⟨h, -⟩
      omega
  · by_cases hstop : entry.2.seq.idx.stop > l.ofDirection entry.2.direction
    · simp only [hmax, hstop, if_true, if_false]
      constructor
      · intro h
        cases h
      · rintro ⟨-, h, -⟩
        omega
    · simp only [hmax, hstop, if_false, Fault.bind_ok_iff, HashAlgorithm.hashCanonical_ok_iff]
      constructor
      · rintro ⟨hash, ⟨hlen, rfl⟩, transcript, htranscript, h⟩
        cases h
        exact ⟨by omega, by omega, hlen, transcript, htranscript, rfl⟩
      · rintro ⟨-, -, hlen, transcript, htranscript, rfl⟩
        exact ⟨_, ⟨hlen, rfl⟩, transcript, htranscript, rfl⟩

/-- The leaf an opening contributes. -/
def openedLeaf (chacha : ChaCha12) (encoder : ChaChaEncoder) (hasher : HashAlgorithm)
    (entry : Nat × Opening) : Nat × Hash :=
  (entry.1, hasher.hash (entry.2.leaf chacha encoder).bytes)

theorem verifyOpening_leaves {entries : List (Nat × Opening)} {init st : Verification}
    (h : entries.foldlM (verifyOpening chacha encoder hasher l) init = .ok st) :
    st.leaves = init.leaves ++ entries.map (openedLeaf chacha encoder hasher) ∧
      ∀ e ∈ entries, e.2.seq.idx.stop ≤ l.ofDirection e.2.direction := by
  refine Fault.foldlM_invariant (P := fun pre st =>
    st.leaves = init.leaves ++ pre.map (openedLeaf chacha encoder hasher) ∧
      ∀ e ∈ pre, e.2.seq.idx.stop ≤ l.ofDirection e.2.direction) (by simp) ?_ h
  rintro pre entry post st st' - ⟨hleaves, hpre⟩ hstep
  obtain ⟨-, hstop, -, transcript, -, rfl⟩ := verifyOpening_ok_iff.mp hstep
  refine ⟨by simp [hleaves, openedLeaf], ?_⟩
  intro e he
  rcases List.mem_append.mp he with he | he
  · exact hpre e he
  · obtain rfl := List.mem_singleton.mp he
    exact hstop

theorem mem_authed_verifyOpening {entries : List (Nat × Opening)} {init st : Verification}
    (h : entries.foldlM (verifyOpening chacha encoder hasher l) init = .ok st)
    (d : Direction) (n : Nat) :
    n ∈ st.transcript.authed d ↔ n ∈ init.transcript.authed d ∨
      ∃ e ∈ entries, d = e.2.direction ∧ n ∈ e.2.seq.idx := by
  refine Fault.foldlM_invariant (P := fun pre st => n ∈ st.transcript.authed d ↔
    n ∈ init.transcript.authed d ∨ ∃ e ∈ pre, d = e.2.direction ∧ n ∈ e.2.seq.idx)
    (by simp) ?_ h
  intro pre entry post st st' _ hpre hstep
  obtain ⟨-, -, -, transcript, hunion, rfl⟩ := verifyOpening_ok_iff.mp hstep
  rw [PartialTranscript.mem_authed_unionSubsequence hunion, hpre]
  simp only [List.mem_append, List.mem_singleton, or_and_right, exists_or, exists_eq_left,
    or_assoc]

/-- Where every opening shows the data `f`, so does the collected transcript. -/
theorem verifyOpening_agrees {f : Direction → Nat → UInt8} {entries : List (Nat × Opening)}
    {init st : Verification}
    (h : entries.foldlM (verifyOpening chacha encoder hasher l) init = .ok st)
    (hinit : init.transcript.Agrees l f)
    (hdata : ∀ e ∈ entries, e.2.seq.data = e.2.seq.idx.vals.map (f e.2.direction)) :
    st.transcript.Agrees l f := by
  refine Fault.foldlM_invariant (P := fun _ st => st.transcript.Agrees l f) hinit ?_ h
  intro pre entry post st st' hentries hagrees hstep
  obtain ⟨-, hstop, -, transcript, hunion, rfl⟩ := verifyOpening_ok_iff.mp hstep
  obtain ⟨t', ht', ha, -⟩ := PartialTranscript.unionSubsequence_agrees
    (ε := EncodingProofError) hagrees entry.2.direction entry.2.seq
    (hdata entry (by simp [hentries])) hstop
  rw [ht'] at hunion
  cases hunion
  exact ha

/-- The strings hashed to verify a proof: its leaves, and the nodes above them. -/
def hashed (chacha : ChaCha12) (encoder : ChaChaEncoder) (hasher : HashAlgorithm)
    (proof : EncodingProof rs) : List (List UInt8) :=
  let leaves := sortLeaves (proof.openings.entries.map (openedLeaf chacha encoder hasher))
  proof.openings.entries.map (fun e => (e.2.leaf chacha encoder).bytes) ++
    rs.verifyPreimages hasher.hash proof.inclusionProof.proof (leaves.map Prod.fst)
      (leaves.map Prod.snd) proof.inclusionProof.leafCount

theorem verifyWithProvider_ok_iff {proof : EncodingProof rs} {provider : CryptoProvider}
    {commitment : EncodingCommitment} {t : PartialTranscript} :
    proof.verifyWithProvider chacha provider l commitment = .ok t ↔
      ∃ hasher leaves total, provider.hash.get commitment.root.alg = .ok hasher ∧
        proof.openings.entries.foldlM
          (verifyOpening chacha (ChaChaEncoder.new commitment.secret) hasher l)
          ⟨[], PartialTranscript.new l.sent.toNat l.received.toNat, 0⟩ = .ok ⟨leaves, t, total⟩ ∧
        proof.inclusionProof.verify hasher commitment.root leaves = .ok () := by
  unfold verifyWithProvider
  cases hget : provider.hash.get commitment.root.alg with
  | error e =>
      constructor
      · intro h
        cases h
      · rintro ⟨hasher, leaves, total, h, -⟩
        cases h
  | ok hasher =>
      simp only [Fault.mapError_ok, Fault.bind_ok_iff, Fault.convert_ok_iff]
      constructor
      · rintro ⟨_, h, ⟨leaves, transcript, total⟩, hloop, ⟨⟩, hverify, ht⟩
        cases h
        cases ht
        exact ⟨hasher, leaves, total, rfl, hloop, hverify⟩
      · rintro ⟨_, leaves, total, h, hloop, hverify⟩
        cases h
        exact ⟨hasher, rfl, ⟨leaves, t, total⟩, hloop, (), hverify, rfl⟩

end Verification

end EncodingProof

end Tlsn.Core

import Tlsn.Core.Attestation
import Tlsn.Core.Commit
import Tlsn.Core.EncodingTree

/-!
Transcript proofs: the builder, which covers the revealed ranges with committed
ones, and the verifier, which merges the bytes that every part of the proof
authenticates. The set cover search of the range set library is a parameter. It
is given the committed indices in some order and may return any members that lie
within the query, with what they leave uncovered.
-/

namespace Tlsn.Core

structure Cover where
  coverBy : {ι : Type} → RangeSet → List ι → (ι → RangeSet) → List ι × RangeSet
  mem : ∀ {ι : Type} (query : RangeSet) (items : List ι) (f : ι → RangeSet),
    ∀ x ∈ (coverBy query items f).1, x ∈ items
  subset : ∀ {ι : Type} (query : RangeSet) (items : List ι) (f : ι → RangeSet),
    ∀ x ∈ (coverBy query items f).1, ∀ n, n ∈ f x → n ∈ query
  uncovered : ∀ {ι : Type} (query : RangeSet) (items : List ι) (f : ι → RangeSet) (n : Nat),
    n ∈ (coverBy query items f).2 ↔ n ∈ query ∧ ∀ x ∈ (coverBy query items f).1, n ∉ f x

/-- The cover by all members that lie within the query. -/
def Cover.reference : Cover where
  coverBy query items f :=
    let members := items.filter fun x => (f x).isSubset query
    (members, query.difference (RangeSet.ofList (members.flatMap fun x => (f x).vals)))
  mem query items f x hx := List.mem_of_mem_filter hx
  subset query items f x hx := RangeSet.isSubset_iff.mp (List.mem_filter.mp hx).2
  uncovered query items f n := by
    rw [RangeSet.mem_difference, RangeSet.mem_ofList, List.mem_flatMap]
    simp only [not_exists, not_and, RangeSet.mem_def]

structure TranscriptProof (rs : RsMerkle) where
  encodingProof : Option (EncodingProof rs)
  hashProofs : List PlaintextHashProof

namespace TranscriptProofError

inductive ErrorKind where
  | encoding
  | hash
deriving DecidableEq

inductive Source where
  | msg (text : String)
  | encoding (e : EncodingProofError)
  | hash (e : PlaintextHashProofError)
deriving DecidableEq

end TranscriptProofError

structure TranscriptProofError where
  kind : TranscriptProofError.ErrorKind
  source : TranscriptProofError.Source
deriving DecidableEq

namespace TranscriptProofError

def missingEncoding : TranscriptProofError :=
  ⟨.encoding, .msg "contains an encoding proof but attestation is missing encoding commitment"⟩

def missingHash (id : FieldId) : TranscriptProofError :=
  ⟨.hash, .msg ("contains a hash opening but attestation is missing corresponding commitment (id: "
    ++ id.display ++ ")")⟩

def exceeded : TranscriptProofError := ⟨.hash, .msg "exceeded maximum allowed data"⟩

end TranscriptProofError

namespace TranscriptProof

variable {rs : RsMerkle}

def verifyEncoding (chacha : ChaCha12) (provider : CryptoProvider) (body : Body)
    (transcript : PartialTranscript) (proof : EncodingProof rs) :
    Except (Fault TranscriptProofError) PartialTranscript :=
  match body.encodingCommitment with
  | none => throw (.err .missingEncoding)
  | some commitment => do
      let seq ← Fault.convert (fun e => ⟨.encoding, .encoding e⟩)
        (proof.verifyWithProvider chacha provider body.transcriptLength commitment)
      transcript.unionTranscript seq

/-- The loop body over the hash proofs, with the transcript and the total opened. -/
def verifyHash (provider : CryptoProvider) (body : Body) (st : PartialTranscript × Nat)
    (proof : PlaintextHashProof) :
    Except (Fault TranscriptProofError) (PartialTranscript × Nat) := do
  let (transcript, totalOpened) := st
  match body.plaintextHashes.getByFieldId proof.commitment with
  | none => throw (.err (.missingHash proof.commitment))
  | some field =>
      let commitment := field.data
      let totalOpened := totalOpened + commitment.idx.len
      if totalOpened > maxTotalCommittedData then
        throw (.err .exceeded)
      let (direction, seq) ← Fault.convert (fun e => ⟨.hash, .hash e⟩)
        (proof.verify provider.hash commitment)
      let transcript ← transcript.unionSubsequence direction seq
      return (transcript, totalOpened)

def verifyWithProvider (chacha : ChaCha12) (proof : TranscriptProof rs)
    (provider : CryptoProvider) (body : Body) :
    Except (Fault TranscriptProofError) PartialTranscript := do
  let transcript := PartialTranscript.new body.transcriptLength.sent.toNat
    body.transcriptLength.received.toNat
  let transcript ← match proof.encodingProof with
    | none => pure transcript
    | some encodingProof => verifyEncoding chacha provider body transcript encodingProof
  let (transcript, _) ← proof.hashProofs.foldlM (verifyHash provider body) (transcript, 0)
  return transcript

end TranscriptProof

/-! ## Builder -/

structure CommittedIdx where
  sent : Idx
  recv : Idx

namespace CommittedIdx

def new {rs : RsMerkle} (encodingTree : Option (EncodingTree rs))
    (plaintextHashes : Index PlaintextHashSecret) : CommittedIdx :=
  let sent := plaintextHashes.idx .sent
  let recv := plaintextHashes.idx .received
  match encodingTree with
  | none => ⟨sent, recv⟩
  | some tree => ⟨sent.union (tree.idx .sent), recv.union (tree.idx .received)⟩

def idx (c : CommittedIdx) : Direction → Idx
  | .sent => c.sent
  | .received => c.recv

end CommittedIdx

structure QueryIdx where
  sent : Idx
  recv : Idx
deriving DecidableEq

namespace QueryIdx

def new : QueryIdx := ⟨RangeSet.empty, RangeSet.empty⟩

def isEmpty (q : QueryIdx) : Bool := q.sent.isEmpty && q.recv.isEmpty

def idx (q : QueryIdx) : Direction → Idx
  | .sent => q.sent
  | .received => q.recv

def union (q : QueryIdx) (direction : Direction) (other : Idx) : QueryIdx :=
  match direction with
  | .sent => { q with sent := q.sent.union other }
  | .received => { q with recv := q.recv.union other }

theorem isEmpty_iff {q : QueryIdx} : q.isEmpty = true ↔ ∀ d n, n ∉ q.idx d := by
  rw [isEmpty, Bool.and_eq_true, RangeSet.isEmpty_iff, RangeSet.isEmpty_iff]
  constructor
  · rintro ⟨hs, hr⟩ (_ | _)
    · exact hs
    · exact hr
  · intro h
    exact ⟨h .sent, h .received⟩

theorem idx_union (q : QueryIdx) (d d' : Direction) (other : Idx) :
    (q.union d other).idx d' = if d' = d then (q.idx d').union other else q.idx d' := by
  cases d <;> cases d' <;> rfl

end QueryIdx

def displayIdx (idx : Idx) : String :=
  "Idx([" ++ String.intercalate ", " (idx.iterRanges.map fun r =>
    toString r.start ++ ".." ++ toString r.stop) ++ "])"

inductive BuilderErrorKind where
  | index
  | missingCommitment
  | cover (uncovered : QueryIdx) (kinds : List TranscriptCommitmentKind)
  | notSupported
deriving DecidableEq

structure TranscriptProofBuilderError where
  kind : BuilderErrorKind
  source : Option String
deriving DecidableEq

/-- Commitment kinds in order of preference, when none are chosen. -/
def defaultCommitmentKinds : List TranscriptCommitmentKind := [.encoding]

/-- The kinds without repetitions, each where it first occurs. -/
def dedupKinds (kinds : List TranscriptCommitmentKind) : List TranscriptCommitmentKind :=
  kinds.foldl (fun seen kind => if kind ∈ seen then seen else seen ++ [kind]) []

theorem nodup_dedupKinds (kinds : List TranscriptCommitmentKind) : (dedupKinds kinds).Nodup := by
  have hfold : ∀ seen : List TranscriptCommitmentKind, seen.Nodup →
      (kinds.foldl (fun seen kind => if kind ∈ seen then seen else seen ++ [kind]) seen).Nodup := by
    induction kinds with
    | nil => exact fun _ h => h
    | cons kind kinds ih =>
        intro seen hseen
        refine ih _ ?_
        dsimp only
        split
        · exact hseen
        · rename_i hnot
          exact List.nodup_append.mpr ⟨hseen, by simp, by
            rintro x hx y hy rfl
            exact hnot (List.mem_singleton.mp hy ▸ hx)⟩
  exact hfold [] List.nodup_nil

structure TranscriptProofBuilder (rs : RsMerkle) where
  commitmentKinds : List TranscriptCommitmentKind
  nodup : commitmentKinds.Nodup
  transcript : Transcript
  encodingTree : Option (EncodingTree rs)
  committedIdx : CommittedIdx
  queryIdx : QueryIdx

namespace TranscriptProofBuilder

variable {rs : RsMerkle}

def new (transcript : Transcript) (encodingTree : Option (EncodingTree rs))
    (plaintextHashes : Index PlaintextHashSecret) : TranscriptProofBuilder rs where
  commitmentKinds := defaultCommitmentKinds
  nodup := by decide
  transcript := transcript
  encodingTree := encodingTree
  committedIdx := CommittedIdx.new encodingTree plaintextHashes
  queryIdx := QueryIdx.new

def setCommitmentKinds (builder : TranscriptProofBuilder rs)
    (kinds : List TranscriptCommitmentKind) : TranscriptProofBuilder rs :=
  if kinds.isEmpty then builder
  else { builder with commitmentKinds := dedupKinds kinds, nodup := nodup_dedupKinds kinds }

def reveal (builder : TranscriptProofBuilder rs) (ranges : Idx) (direction : Direction) :
    Except TranscriptProofBuilderError (TranscriptProofBuilder rs) :=
  if ranges.stop > builder.transcript.lenOfDirection direction then
    .error ⟨.index, some (outOfBoundsMsg direction ranges.stop
      (builder.transcript.lenOfDirection direction))⟩
  else if ranges.isSubset (builder.committedIdx.idx direction) then
    .ok { builder with queryIdx := builder.queryIdx.union direction ranges }
  else
    .error ⟨.missingCommitment, some ("commitment is missing for ranges in " ++ direction.display ++
      " transcript: " ++ displayIdx (ranges.difference (builder.committedIdx.idx direction)))⟩

/-- Covers what is uncovered by encoding commitments, and opens these. -/
def coverEncoding (cover : Cover) (transcript : Transcript) (tree : EncodingTree rs)
    (uncovered : QueryIdx) (proof : TranscriptProof rs) :
    Except (Fault TranscriptProofBuilderError) (QueryIdx × TranscriptProof rs) := do
  let ofDirection (d : Direction) := tree.transcriptIndices.filter fun di => decide (di.1 = d)
  let (sentDirIdxs, sentUncovered) :=
    cover.coverBy uncovered.sent (ofDirection .sent) Prod.snd
  let (recvDirIdxs, recvUncovered) :=
    cover.coverBy uncovered.recv (ofDirection .received) Prod.snd
  let dirIdxs := sentDirIdxs ++ recvDirIdxs
  let uncovered : QueryIdx := ⟨sentUncovered, recvUncovered⟩
  if dirIdxs.isEmpty then
    return (uncovered, proof)
  match tree.proof transcript dirIdxs with
  | .ok encodingProof => return (uncovered, { proof with encodingProof := some encodingProof })
  | .error _ => throw .panic

/-- The loop of `build`, over the kinds not tried yet. -/
def coverKinds (cover : Cover) (transcript : Transcript) (encodingTree : Option (EncodingTree rs)) :
    List TranscriptCommitmentKind → QueryIdx → TranscriptProof rs →
      Except (Fault TranscriptProofBuilderError) (QueryIdx × TranscriptProof rs)
  | [], uncovered, proof => return (uncovered, proof)
  | kind :: kinds, uncovered, proof =>
      if uncovered.isEmpty then return (uncovered, proof)
      else
        match kind with
        | .encoding =>
            match encodingTree with
            | none => coverKinds cover transcript encodingTree kinds uncovered proof
            | some tree => do
                let (uncovered, proof) ← coverEncoding cover transcript tree uncovered proof
                coverKinds cover transcript encodingTree kinds uncovered proof
        | kind => throw (.err ⟨.notSupported, some ("opening " ++ kind.display ++
            " transcript commitments is not yet supported")⟩)

def build (cover : Cover) (builder : TranscriptProofBuilder rs) :
    Except (Fault TranscriptProofBuilderError) (TranscriptProof rs) := do
  let (uncovered, proof) ← coverKinds cover builder.transcript builder.encodingTree
    builder.commitmentKinds builder.queryIdx ⟨none, []⟩
  if uncovered.isEmpty then return proof
  else throw (.err ⟨.cover uncovered builder.commitmentKinds, none⟩)

end TranscriptProofBuilder

end Tlsn.Core

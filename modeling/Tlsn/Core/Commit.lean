import Tlsn.Core.EncodingProof

/-!
Configuration of transcript commitments. The builder collects a set of
commitments, each checked against the length of the transcript; the order in
which the set is listed is not specified.
-/

namespace Tlsn.Core

inductive TranscriptCommitmentKind where
  | encoding
  | hash (alg : HashAlgId)
deriving DecidableEq

def TranscriptCommitmentKind.display : TranscriptCommitmentKind → String
  | .encoding => "encoding"
  | .hash alg => "hash (" ++ alg.display ++ ")"

abbrev Commitment := (Direction × Idx) × TranscriptCommitmentKind

structure TranscriptCommitConfig where
  encodingHashAlg : HashAlgId
  commits : List Commitment

namespace TranscriptCommitConfig

def hasEncoding (config : TranscriptCommitConfig) : Bool :=
  config.commits.any fun c => decide (c.2 = .encoding)

def iterEncoding (config : TranscriptCommitConfig) : List (Direction × Idx) :=
  config.commits.filterMap fun c =>
    match c.2 with
    | .encoding => some c.1
    | .hash _ => none

end TranscriptCommitConfig

inductive CommitErrorKind where
  | index
deriving DecidableEq

structure TranscriptCommitConfigBuilderError where
  kind : CommitErrorKind
  source : String
deriving DecidableEq

def outOfBoundsMsg (direction : Direction) (stop len : Nat) : String :=
  "range is out of bounds of the transcript (" ++ direction.display ++ "): " ++ toString stop ++
    " > " ++ toString len

structure TranscriptCommitConfigBuilder where
  transcript : Transcript
  encodingHashAlg : HashAlgId
  defaultKind : TranscriptCommitmentKind
  commits : List Commitment
  nodup : commits.Nodup

namespace TranscriptCommitConfigBuilder

def new (transcript : Transcript) : TranscriptCommitConfigBuilder :=
  ⟨transcript, HashAlgId.blake3, .encoding, [], List.nodup_nil⟩

def insertCommit (builder : TranscriptCommitConfigBuilder) (c : Commitment) :
    TranscriptCommitConfigBuilder :=
  if h : c ∈ builder.commits then builder
  else { builder with
    commits := c :: builder.commits
    nodup := List.nodup_cons.mpr ⟨h, builder.nodup⟩ }

def commitWithKind (builder : TranscriptCommitConfigBuilder) (ranges : Idx)
    (direction : Direction) (kind : TranscriptCommitmentKind) :
    Except TranscriptCommitConfigBuilderError TranscriptCommitConfigBuilder :=
  if ranges.stop > builder.transcript.lenOfDirection direction then
    .error ⟨.index, outOfBoundsMsg direction ranges.stop
      (builder.transcript.lenOfDirection direction)⟩
  else
    .ok (builder.insertCommit ((direction, ranges), kind))

def commit (builder : TranscriptCommitConfigBuilder) (ranges : Idx) (direction : Direction) :
    Except TranscriptCommitConfigBuilderError TranscriptCommitConfigBuilder :=
  builder.commitWithKind ranges direction builder.defaultKind

/-- What may be asked of the builder. -/
inductive Call where
  | encodingHashAlg (alg : HashAlgId)
  | defaultKind (kind : TranscriptCommitmentKind)
  | commitWithKind (ranges : Idx) (direction : Direction) (kind : TranscriptCommitmentKind)
  | commit (ranges : Idx) (direction : Direction)

def call (builder : TranscriptCommitConfigBuilder) :
    Call → Except TranscriptCommitConfigBuilderError TranscriptCommitConfigBuilder
  | .encodingHashAlg alg => .ok { builder with encodingHashAlg := alg }
  | .defaultKind kind => .ok { builder with defaultKind := kind }
  | .commitWithKind ranges direction kind => builder.commitWithKind ranges direction kind
  | .commit ranges direction => builder.commit ranges direction

/-- `config` is what `build` may return, listing the set in some order. -/
structure Builds (builder : TranscriptCommitConfigBuilder) (config : TranscriptCommitConfig) :
    Prop where
  encodingHashAlg : config.encodingHashAlg = builder.encodingHashAlg
  commits : config.commits.Perm builder.commits

end TranscriptCommitConfigBuilder

end Tlsn.Core

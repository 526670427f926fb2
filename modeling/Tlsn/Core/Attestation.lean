import Tlsn.Core.EncodingProof

/-!
The attested data which a transcript proof is checked against: the length of the
transcript, the encoding commitment, and the plaintext hashes with their lookup
by field. A plaintext hash proof opens one of the latter. Fields of the
attestation which no transcript proof reads are left out.
-/

namespace Tlsn.Core

structure FieldId where
  id : UInt32
deriving DecidableEq

def FieldId.display (id : FieldId) : String := toString id.id.toNat

structure Field (α : Type) where
  id : FieldId
  data : α

/-- Items with lookup by field id and by transcript index. Of two items with one
key, the later one is found. -/
structure Index (α : Type) where
  items : List α
  fieldIds : AssocMap FieldId Nat
  transcriptIdxs : AssocMap (Direction × Idx) Nat
  sent : Idx
  recv : Idx

namespace Index

variable {α : Type}

def empty : Index α :=
  ⟨[], AssocMap.empty, AssocMap.empty, RangeSet.empty, RangeSet.empty⟩

def add (f : α → FieldId × Direction × Idx) (index : Index α) (entry : α × Nat) : Index α :=
  let (id, dir, idx) := f entry.1
  let index := { index with
    fieldIds := index.fieldIds.insert id entry.2
    transcriptIdxs := index.transcriptIdxs.insert (dir, idx) entry.2 }
  match dir with
  | .sent => { index with sent := index.sent.union idx }
  | .received => { index with recv := index.recv.union idx }

def new (items : List α) (f : α → FieldId × Direction × Idx) : Index α :=
  { items.zipIdx.foldl (add f) empty with items := items }

def getByFieldId (index : Index α) (id : FieldId) : Option α :=
  (index.fieldIds.get? id).bind fun i => index.items[i]?

def idx (index : Index α) : Direction → Idx
  | .sent => index.sent
  | .received => index.recv

end Index

structure PlaintextHash where
  direction : Direction
  idx : Idx
  hash : TypedHash

structure PlaintextHashSecret where
  direction : Direction
  idx : Idx
  commitment : FieldId
  blinder : Blinder

structure PlaintextHashProof where
  data : Blinded (List UInt8)
  commitment : FieldId

inductive PlaintextHashProofError where
  | msg (text : String)
  | provider (e : HashProviderError)
  | subsequence (e : InvalidSubsequence)
deriving DecidableEq

/-- The data is serialized as the content of a leaf is. -/
def PlaintextHashProof.verify (proof : PlaintextHashProof) (provider : HashProvider)
    (commitment : PlaintextHash) :
    Except (Fault PlaintextHashProofError) (Direction × Subsequence) := do
  let alg ← (provider.get commitment.hash.alg).mapError fun e => Fault.err (.provider e)
  let hash ← alg.hashCanonical ⟨⟨proof.data.data⟩, proof.data.blinder⟩
  if commitment.hash.value ≠ hash then
    throw (.err (.msg "hash does not match commitment"))
  let seq ← (Subsequence.new commitment.idx proof.data.data).mapError
    fun e => Fault.err (.subsequence e)
  return (commitment.direction, seq)

structure Body where
  transcriptLength : TranscriptLength
  encodingCommitment : Option EncodingCommitment
  plaintextHashes : Index (Field PlaintextHash)

end Tlsn.Core

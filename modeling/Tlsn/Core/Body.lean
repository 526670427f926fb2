import Tlsn.Core.Attestation
import Tlsn.Core.Serialize
import Tlsn.Core.Signing

/-!
The attestation: the header, which is signed, and the body, whose fields are hashed
under their types and put into a tree. The fields of all types are one sum, in the
order in which the source visits them. The lookup tables of the plaintext hashes
are rebuilt from the items whenever a body is deserialized, so the body holds the
items.
-/

namespace Tlsn.Core

/-! ## What is attested to -/

inductive TlsVersion where
  | v1_2
  | v1_3
deriving DecidableEq

inductive KeyType where
  | secp256r1
deriving DecidableEq

structure ServerEphemKey where
  typ : KeyType
  key : List UInt8
deriving DecidableEq

structure ConnectionInfo where
  time : UInt64
  version : TlsVersion
  transcriptLength : TranscriptLength
deriving DecidableEq

structure ServerCertCommitment where
  hash : TypedHash
deriving DecidableEq

structure Extension where
  id : List UInt8
  value : List UInt8
deriving DecidableEq

structure Uid where
  bytes : Vector UInt8 16
deriving DecidableEq

structure Version where
  version : UInt32
deriving DecidableEq

/-- Current version of attestations. -/
def version : Version := ⟨0⟩

structure Header where
  id : Uid
  version : Version
  root : TypedHash
deriving DecidableEq

deriving instance DecidableEq for EncodingCommitment
deriving instance DecidableEq for PlaintextHash

def TlsVersion.variant : TlsVersion → UInt8
  | .v1_2 => 0
  | .v1_3 => 1

def KeyType.variant : KeyType → UInt8
  | .secp256r1 => 0

section Serialization

open CanonicalSerialize (codec)

instance : CanonicalSerialize VerifyingKey :=
  ⟨.via (fun k => (k.alg.id, k.data)) (fun a b h => by
    obtain ⟨⟨_⟩, _⟩ := a; obtain ⟨⟨_⟩, _⟩ := b; cases h; rfl) codec⟩

instance : CanonicalSerialize TlsVersion :=
  ⟨.via TlsVersion.variant (fun a b h => by cases a <;> cases b <;> first | rfl | cases h) codec⟩

instance : CanonicalSerialize KeyType :=
  ⟨.via KeyType.variant (fun a b _ => by cases a; cases b; rfl) codec⟩

instance : CanonicalSerialize ServerEphemKey :=
  ⟨.via (fun k => (k.typ, k.key)) (fun a b h => by cases a; cases b; cases h; rfl) codec⟩

instance : CanonicalSerialize ConnectionInfo :=
  ⟨.via (fun i => (i.time, i.version, i.transcriptLength))
    (fun a b h => by cases a; cases b; cases h; rfl) codec⟩

instance : CanonicalSerialize ServerCertCommitment :=
  ⟨.via ServerCertCommitment.hash (fun a b h => by cases a; cases b; cases h; rfl) codec⟩

instance : CanonicalSerialize PlaintextHash :=
  ⟨.via (fun p => (p.direction, p.idx, p.hash)) (fun a b h => by cases a; cases b; cases h; rfl)
    codec⟩

instance : CanonicalSerialize Extension :=
  ⟨.via (fun e => (e.id, e.value)) (fun a b h => by cases a; cases b; cases h; rfl) codec⟩

instance : CanonicalSerialize Header :=
  ⟨.via (fun h => (h.id.bytes, h.version.version, h.root)) (fun a b h => by
    obtain ⟨⟨_⟩, ⟨_⟩, _⟩ := a; obtain ⟨⟨_⟩, ⟨_⟩, _⟩ := b; cases h; rfl) codec⟩

end Serialization

instance : DomainSeparator VerifyingKey := ⟨"VerifyingKey"⟩
instance : DomainSeparator ConnectionInfo := ⟨"ConnectionInfo"⟩
instance : DomainSeparator ServerEphemKey := ⟨"ServerEphemKey"⟩
instance : DomainSeparator ServerCertCommitment := ⟨"ServerCertCommitment"⟩
instance : DomainSeparator EncodingCommitment := ⟨"EncodingCommitment"⟩
instance : DomainSeparator PlaintextHash := ⟨"PlaintextHash"⟩
instance : DomainSeparator Extension := ⟨"Extension"⟩

/-! ## The body -/

structure Attestation.Body where
  verifyingKey : Field VerifyingKey
  connectionInfo : Field ConnectionInfo
  serverEphemeralKey : Field ServerEphemKey
  certCommitment : Field ServerCertCommitment
  encodingCommitment : Option (Field EncodingCommitment)
  plaintextHashes : List (Field PlaintextHash)
  extensions : List (Field Extension)

structure Attestation where
  signature : Signature
  header : Header
  body : Attestation.Body

/-- The data of a field, of any type. -/
inductive FieldData where
  | verifyingKey (data : VerifyingKey)
  | connectionInfo (data : ConnectionInfo)
  | serverEphemKey (data : ServerEphemKey)
  | serverCertCommitment (data : ServerCertCommitment)
  | encodingCommitment (data : EncodingCommitment)
  | plaintextHash (data : PlaintextHash)
  | extension (data : Extension)

namespace FieldData

def hashSeparated {ε : Type} (blake3 : Blake3) (hasher : HashAlgorithm) :
    FieldData → Except (Fault ε) Hash
  | .verifyingKey data => hasher.hashSeparated blake3 data
  | .connectionInfo data => hasher.hashSeparated blake3 data
  | .serverEphemKey data => hasher.hashSeparated blake3 data
  | .serverCertCommitment data => hasher.hashSeparated blake3 data
  | .encodingCommitment data => hasher.hashSeparated blake3 data
  | .plaintextHash data => hasher.hashSeparated blake3 data
  | .extension data => hasher.hashSeparated blake3 data

end FieldData

def Field.map {α β : Type} (f : α → β) (field : Field α) : Field β := ⟨field.id, f field.data⟩

/-- Sorts by id, and leaves fields of one id in their order. -/
def sortFields {α : Type} (fields : List (FieldId × α)) : List (FieldId × α) :=
  fields.insertionSort fun a b => a.1.id.toNat ≤ b.1.id.toNat

namespace Attestation.Body

/-- The fields in the order in which they are visited. -/
def fields (body : Body) : List (Field FieldData) :=
  [body.verifyingKey.map .verifyingKey, body.connectionInfo.map .connectionInfo,
    body.serverEphemeralKey.map .serverEphemKey, body.certCommitment.map .serverCertCommitment] ++
  body.encodingCommitment.toList.map (Field.map .encodingCommitment) ++
  body.plaintextHashes.map (Field.map .plaintextHash) ++
  body.extensions.map (Field.map .extension)

def hashFields {ε : Type} (body : Body) (blake3 : Blake3) (hasher : HashAlgorithm) :
    Except (Fault ε) (List (FieldId × Hash)) := do
  let fields ← body.fields.mapM fun field => do
    let hash ← field.data.hashSeparated blake3 hasher
    return (field.id, hash)
  return sortFields fields

def root {ε : Type} (rs : RsMerkle) (body : Body) (blake3 : Blake3) (hasher : HashAlgorithm) :
    Except (Fault ε) TypedHash := do
  let fields ← body.hashFields blake3 hasher
  let tree ← (MerkleTree.new hasher.id : MerkleTree rs).insert hasher (fields.map Prod.snd)
  tree.root

end Attestation.Body

/-! ## Proofs -/

namespace AttestationError

inductive ErrorKind where
  | provider
  | signature
  | body
deriving DecidableEq

inductive Source where
  | hash (e : HashProviderError)
  | signatureAlg (e : UnknownSignatureAlgId)
  | merkle (e : MerkleError)
  | signature (e : SignatureError)
deriving DecidableEq

end AttestationError

structure AttestationError where
  kind : AttestationError.ErrorKind
  source : AttestationError.Source
deriving DecidableEq

structure BodyProof (rs : RsMerkle) where
  body : Attestation.Body
  proof : MerkleProof rs

structure AttestationProof (rs : RsMerkle) where
  signature : Signature
  header : Header
  body : BodyProof rs

variable {rs : RsMerkle}

/-- The leaf of a field, at the position which its id names. -/
def leafOf (entry : FieldId × Hash) : Nat × Hash := (entry.1.id.toNat, entry.2)

namespace BodyProof

def new (blake3 : Blake3) (hasher : HashAlgorithm) (body : Attestation.Body) :
    Except (Fault AttestationError) (BodyProof rs) := do
  let fields ← body.hashFields blake3 hasher
  let leaves := fields.map leafOf
  let tree ← (MerkleTree.new hasher.id : MerkleTree rs).insert hasher (leaves.map Prod.snd)
  let proof ← tree.proof (leaves.map Prod.fst)
  return ⟨body, proof⟩

def verifyWithProvider (proof : BodyProof rs) (blake3 : Blake3) (provider : CryptoProvider)
    (header : Header) : Except (Fault AttestationError) Attestation.Body := do
  let hasher ← (provider.hash.get header.root.alg).mapError fun e => Fault.err ⟨.provider, .hash e⟩
  let fields ← proof.body.hashFields blake3 hasher
  Fault.convert (fun e => ⟨.body, .merkle e⟩)
    (proof.proof.verify hasher header.root (fields.map leafOf))
  return proof.body

end BodyProof

namespace AttestationProof

def new (blake3 : Blake3) (provider : SigningProvider) (attestation : Attestation) :
    Except (Fault AttestationError) (AttestationProof rs) := do
  let hasher ← (provider.hash.get attestation.header.root.alg).mapError
    fun e => Fault.err ⟨.provider, .hash e⟩
  let body ← BodyProof.new blake3 hasher attestation.body
  return ⟨attestation.signature, attestation.header, body⟩

def verify (proof : AttestationProof rs) (blake3 : Blake3) (provider : SigningProvider) :
    Except (Fault AttestationError) Attestation := do
  let signatureVerifier ← (provider.signature.get proof.signature.alg).mapError
    fun e => Fault.err ⟨.provider, .signatureAlg e⟩
  let body ← proof.body.verifyWithProvider blake3 provider.toCryptoProvider proof.header
  let header ← serialize proof.header
  (signatureVerifier.verify body.verifyingKey.data header proof.signature.data).mapError
    fun e => Fault.err ⟨.signature, .signature e⟩
  return ⟨proof.signature, proof.header, body⟩

end AttestationProof

end Tlsn.Core

import Tlsn.Core.AttestationBuilder
import Tlsn.Core.EncodingTree

/-!
The builder of attestation requests, which commits to the data of the server's
certificate and takes the root of the encoding tree. What it keeps for the prover
are the secrets which open the commitments.
-/

namespace Tlsn.Core

/-! ## The server's identity -/

structure ServerName where
  name : String
deriving DecidableEq

inductive SignatureScheme where
  | rsaPkcs1Sha1
  | ecdsaSha1Legacy
  | rsaPkcs1Sha256
  | ecdsaNistp256Sha256
  | rsaPkcs1Sha384
  | ecdsaNistp384Sha384
  | rsaPkcs1Sha512
  | ecdsaNistp521Sha512
  | rsaPssSha256
  | rsaPssSha384
  | rsaPssSha512
  | ed25519
deriving DecidableEq

structure Certificate where
  der : List UInt8
deriving DecidableEq

structure ServerSignature where
  scheme : SignatureScheme
  sig : List UInt8
deriving DecidableEq

structure HandshakeDataV1_2 where
  clientRandom : Vector UInt8 32
  serverRandom : Vector UInt8 32
  serverEphemeralKey : ServerEphemKey
deriving DecidableEq

inductive HandshakeData where
  | v1_2 (data : HandshakeDataV1_2)
deriving DecidableEq

structure ServerCertData where
  certs : List Certificate
  sig : ServerSignature
  handshake : HandshakeData
deriving DecidableEq

structure ServerCertOpening where
  blinded : Blinded ServerCertData

def SignatureScheme.variant : SignatureScheme → UInt8
  | .rsaPkcs1Sha1 => 0
  | .ecdsaSha1Legacy => 1
  | .rsaPkcs1Sha256 => 2
  | .ecdsaNistp256Sha256 => 3
  | .rsaPkcs1Sha384 => 4
  | .ecdsaNistp384Sha384 => 5
  | .rsaPkcs1Sha512 => 6
  | .ecdsaNistp521Sha512 => 7
  | .rsaPssSha256 => 8
  | .rsaPssSha384 => 9
  | .rsaPssSha512 => 10
  | .ed25519 => 11

section Serialization

open CanonicalSerialize (codec)

instance : CanonicalSerialize SignatureScheme :=
  ⟨.via SignatureScheme.variant (fun a b h => by cases a <;> cases b <;> first | rfl | cases h)
    codec⟩

instance : CanonicalSerialize Certificate :=
  ⟨.via Certificate.der (fun a b h => by cases a; cases b; cases h; rfl) codec⟩

instance : CanonicalSerialize ServerSignature :=
  ⟨.via (fun s => (s.scheme, s.sig)) (fun a b h => by cases a; cases b; cases h; rfl) codec⟩

instance : CanonicalSerialize HandshakeDataV1_2 :=
  ⟨.via (fun d => (d.clientRandom, d.serverRandom, d.serverEphemeralKey))
    (fun a b h => by cases a; cases b; cases h; rfl) codec⟩

/-- The one variant, by its number. -/
instance : CanonicalSerialize HandshakeData :=
  ⟨.via (fun | .v1_2 data => ((0 : UInt8), data))
    (fun a b h => by cases a; cases b; cases h; rfl) codec⟩

instance : CanonicalSerialize ServerCertData :=
  ⟨.via (fun d => (d.certs, d.sig, d.handshake)) (fun a b h => by cases a; cases b; cases h; rfl)
    (.pair (.list lengthCodec codec) codec)⟩

instance : CanonicalSerialize ServerCertOpening :=
  ⟨.via (fun o => (o.blinded.data, o.blinded.blinder.bytes)) (fun a b h => by
    obtain ⟨⟨_, ⟨_⟩⟩⟩ := a; obtain ⟨⟨_, ⟨_⟩⟩⟩ := b; cases h; rfl) codec⟩

end Serialization

instance : DomainSeparator ServerCertOpening := ⟨"ServerCertOpening"⟩

namespace ServerCertOpening

def new (data : ServerCertData) (blinder : Blinder) : ServerCertOpening := ⟨⟨data, blinder⟩⟩

def commit {ε : Type} (blake3 : Blake3) (opening : ServerCertOpening) (hasher : HashAlgorithm) :
    Except (Fault ε) ServerCertCommitment := do
  let value ← hasher.hashSeparated blake3 opening
  return ⟨⟨hasher.id, value⟩⟩

/-- Something of the data is longer than a serialized sequence may be. -/
def TooLong (opening : ServerCertOpening) : Prop :=
  CanonicalSerialize.codec.encode opening = none

theorem commit_outcome {ε : Type} (blake3 : Blake3) (opening : ServerCertOpening)
    (hasher : HashAlgorithm) :
    (opening.TooLong → (opening.commit blake3 hasher : Except (Fault ε) _) = .error .panic) ∧
    (¬ opening.TooLong → ∃ commitment,
      (opening.commit blake3 hasher : Except (Fault ε) _) = .ok commitment) := by
  unfold TooLong commit HashAlgorithm.hashSeparated serialize
  cases CanonicalSerialize.codec.encode opening with
  | none => exact ⟨fun _ => rfl, fun h => absurd rfl h⟩
  | some bytes => exact ⟨fun h => (by cases h), fun _ => ⟨_, rfl⟩⟩

end ServerCertOpening

/-! ## Requests -/

structure RequestConfig where
  signatureAlg : SignatureAlgId
  hashAlg : HashAlgId
  extensions : List Extension

def RequestConfig.default : RequestConfig := ⟨.secp256k1, .blake3, []⟩

/-- What the prover keeps of an attestation. -/
structure Secrets (rs : RsMerkle) where
  serverName : ServerName
  serverCertOpening : ServerCertOpening
  encodingTree : Option (EncodingTree rs)
  plaintextHashes : Index PlaintextHashSecret
  transcript : Transcript

structure RequestBuilderError where
  message : String
deriving DecidableEq

structure RequestBuilder (rs : RsMerkle) where
  config : RequestConfig
  serverName : Option ServerName
  serverCertData : Option ServerCertData
  encodingTree : Option (EncodingTree rs)
  transcript : Option Transcript

namespace RequestBuilder

variable {rs : RsMerkle}

def new (config : RequestConfig) : RequestBuilder rs := ⟨config, none, none, none, none⟩

def orError {α : Type} (message : String) (field : Option α) :
    Except (Fault RequestBuilderError) α :=
  match field with
  | some a => .ok a
  | none => .error (.err ⟨message⟩)

/-- The root of the tree, if there is one. -/
def encodingRoot {ε : Type} (tree : Option (EncodingTree rs)) :
    Except (Fault ε) (Option TypedHash) :=
  match tree with
  | some tree => some <$> tree.root
  | none => .ok none

def build (blake3 : Blake3) (blinder : Blinder) (builder : RequestBuilder rs)
    (provider : CryptoProvider) : Except (Fault RequestBuilderError) (Request × Secrets rs) := do
  let hasher ← (provider.hash.get builder.config.hashAlg).mapError fun _ =>
    Fault.err ⟨"unsupported hash algorithm: " ++ builder.config.hashAlg.display⟩
  let serverName ← orError "server name is missing" builder.serverName
  let serverCertOpening ← (ServerCertOpening.new · blinder) <$>
    orError "server identity data is missing" builder.serverCertData
  let transcript ← orError "transcript is missing" builder.transcript
  let serverCertCommitment ← serverCertOpening.commit blake3 hasher
  let encodingCommitmentRoot ← encodingRoot builder.encodingTree
  let request : Request := {
    signatureAlg := builder.config.signatureAlg
    hashAlg := builder.config.hashAlg
    serverCertCommitment := serverCertCommitment
    encodingCommitmentRoot := encodingCommitmentRoot
    extensions := builder.config.extensions }
  let secrets : Secrets rs := {
    serverName := serverName
    serverCertOpening := serverCertOpening
    encodingTree := builder.encodingTree
    plaintextHashes := Index.empty
    transcript := transcript }
  return (request, secrets)

section Build

variable {blake3 : Blake3} {blinder : Blinder} {config : RequestConfig} {serverName : ServerName}
  {serverCertData : ServerCertData} {tree : Option (EncodingTree rs)} {transcript : Transcript}
  {provider : CryptoProvider} {hasher : HashAlgorithm}

/-- With everything set, and a known hash algorithm. -/
theorem build_eq (hget : provider.hash.get config.hashAlg = .ok hasher) :
    build blake3 blinder ⟨config, some serverName, some serverCertData, tree, some transcript⟩
      provider = do
        let opening := ServerCertOpening.new serverCertData blinder
        let commitment ← opening.commit blake3 hasher
        let root ← encodingRoot tree
        return (⟨config.signatureAlg, config.hashAlg, commitment, root, config.extensions⟩,
          ⟨serverName, opening, tree, Index.empty, transcript⟩) := by
  unfold build
  simp only [hget]
  rfl

theorem build_panic_iff (hget : provider.hash.get config.hashAlg = .ok hasher) :
    build blake3 blinder ⟨config, some serverName, some serverCertData, tree, some transcript⟩
        provider = .error .panic ↔
      (ServerCertOpening.new serverCertData blinder).TooLong ∨
        (encodingRoot tree : Except (Fault RequestBuilderError) _) = .error .panic := by
  rw [build_eq hget, Fault.bind_error_iff]
  obtain ⟨hlong, hshort⟩ := ServerCertOpening.commit_outcome (ε := RequestBuilderError) blake3
    (ServerCertOpening.new serverCertData blinder) hasher
  by_cases htoo : (ServerCertOpening.new serverCertData blinder).TooLong
  · exact iff_of_true (.inl (hlong htoo)) (.inl htoo)
  · obtain ⟨commitment, hcommit⟩ := hshort htoo
    simp only [hcommit, htoo, false_or, Except.ok.injEq, exists_eq_left', reduceCtorEq]
    rw [Fault.bind_error_iff]
    refine or_iff_left ?_
    rintro ⟨root, -, h⟩
    cases h

theorem encodingRoot_of_build {request : Request} {secrets : Secrets rs}
    (hget : provider.hash.get config.hashAlg = .ok hasher)
    (h : build blake3 blinder ⟨config, some serverName, some serverCertData, tree, some transcript⟩
      provider = .ok (request, secrets)) :
    (encodingRoot tree : Except (Fault RequestBuilderError) _) =
      .ok request.encodingCommitmentRoot := by
  rw [build_eq hget] at h
  obtain ⟨commitment, -, h⟩ := Fault.bind_ok_iff.mp h
  obtain ⟨root, hroot, h⟩ := Fault.bind_ok_iff.mp h
  cases h
  exact hroot

end Build

end RequestBuilder

end Tlsn.Core

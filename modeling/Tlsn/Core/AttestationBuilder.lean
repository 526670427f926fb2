import Tlsn.Core.Body

/-!
Attestation requests and the notary's builder. Field ids are handed out by a 32-bit
counter, which wraps, in the order in which the body is filled. The extension
validator of the configuration and the random identifier are parameters.
-/

namespace Tlsn.Core

inductive FieldKind where
  | connectionInfo
  | serverEphemKey
  | serverIdentityCommitment
  | encodingCommitment
  | plaintextHash
deriving DecidableEq

structure InvalidExtension where
  reason : String
deriving DecidableEq

structure AttestationConfig where
  supportedSignatureAlgs : List SignatureAlgId
  supportedHashAlgs : List HashAlgId
  supportedFields : List FieldKind
  extensionValidator : Option (List Extension → Except InvalidExtension Unit)

/-- The configuration that the builder of configurations starts with. -/
def AttestationConfig.default : AttestationConfig where
  supportedSignatureAlgs := []
  supportedHashAlgs := [.sha256, .blake3, .keccak256]
  supportedFields :=
    [.connectionInfo, .serverEphemKey, .serverIdentityCommitment, .encodingCommitment]
  extensionValidator := some fun extensions =>
    if extensions.isEmpty then .ok ()
    else .error ⟨"all extensions are disallowed by default"⟩

/-! ## Requests -/

structure Request where
  signatureAlg : SignatureAlgId
  hashAlg : HashAlgId
  serverCertCommitment : ServerCertCommitment
  encodingCommitmentRoot : Option TypedHash
  extensions : List Extension

structure InconsistentAttestation where
  msg : String
deriving DecidableEq

namespace Request

def validateEncoding (request : Request) (body : Attestation.Body) :
    Except InconsistentAttestation Unit :=
  match request.encodingCommitmentRoot with
  | none => .ok ()
  | some root =>
      match body.encodingCommitment with
      | none => .error ⟨"encoding commitment is missing"⟩
      | some commitment =>
          if commitment.data.root ≠ root then .error ⟨"encoding commitment root does not match"⟩
          else .ok ()

def validateExtension (body : Attestation.Body) (extension : Extension) :
    Except InconsistentAttestation Unit :=
  if body.extensions.any fun field => field.data = extension then .ok ()
  else .error ⟨"extension is missing from the attestation"⟩

/-- Validates the content of the attestation against the request. -/
def validate (request : Request) (attestation : Attestation) :
    Except InconsistentAttestation Unit := do
  if attestation.signature.alg ≠ request.signatureAlg then
    throw ⟨"signature algorithm: expected " ++ request.signatureAlg.debug ++ ", got " ++
      attestation.signature.alg.debug⟩
  if attestation.header.root.alg ≠ request.hashAlg then
    throw ⟨"hash algorithm: expected " ++ request.hashAlg.debug ++ ", got " ++
      attestation.header.root.alg.debug⟩
  if attestation.body.certCommitment.data ≠ request.serverCertCommitment then
    throw ⟨"server certificate commitment does not match"⟩
  request.validateEncoding attestation.body
  request.extensions.forM (validateExtension attestation.body)

end Request

/-! ## The builder -/

namespace AttestationBuilderError

inductive ErrorKind where
  | request
  | config
  | field
  | signature
  | extension
deriving DecidableEq

inductive Source where
  | msg (text : String)
  | extension (e : InvalidExtension)
  | signature (e : SignatureError)
deriving DecidableEq

end AttestationBuilderError

structure AttestationBuilderError where
  kind : AttestationBuilderError.ErrorKind
  source : AttestationBuilderError.Source
deriving DecidableEq

/-- The builder after a request was accepted. -/
structure Sign where
  signatureAlg : SignatureAlgId
  hashAlg : HashAlgId
  connectionInfo : Option ConnectionInfo
  serverEphemeralKey : Option ServerEphemKey
  certCommitment : ServerCertCommitment
  encodingCommitmentRoot : Option TypedHash
  encoderSecret : Option EncoderSecret
  extensions : List Extension

namespace AttestationBuilder

open AttestationBuilderError (ErrorKind)

def error (kind : ErrorKind) (text : String) : Fault AttestationBuilderError :=
  .err ⟨kind, .msg text⟩

def validateExtensions (config : AttestationConfig) (extensions : List Extension) :
    Except (Fault AttestationBuilderError) Unit :=
  match config.extensionValidator with
  | some validator =>
      (validator extensions).mapError fun e => Fault.err ⟨.extension, .extension e⟩
  | none => .ok ()

def acceptRequest (config : AttestationConfig) (request : Request) :
    Except (Fault AttestationBuilderError) Sign := do
  if request.signatureAlg ∉ config.supportedSignatureAlgs then
    throw (error .request ("unsupported signature algorithm: " ++ request.signatureAlg.display))
  if request.hashAlg ∉ config.supportedHashAlgs then
    throw (error .request ("unsupported hash algorithm: " ++ request.hashAlg.display))
  if request.encodingCommitmentRoot.isSome ∧
      FieldKind.encodingCommitment ∉ config.supportedFields then
    throw (error .request "encoding commitment is not supported")
  validateExtensions config request.extensions
  return ⟨request.signatureAlg, request.hashAlg, none, none, request.serverCertCommitment,
    request.encodingCommitmentRoot, none, request.extensions⟩

/-- What the notary sets before it builds. -/
inductive Call where
  | connectionInfo (info : ConnectionInfo)
  | serverEphemeralKey (key : ServerEphemKey)
  | encoderSecret (secret : EncoderSecret)
  | extension (extension : Extension)

def call (state : Sign) : Call → Sign
  | .connectionInfo info => { state with connectionInfo := some info }
  | .serverEphemeralKey key => { state with serverEphemeralKey := some key }
  | .encoderSecret secret => { state with encoderSecret := some secret }
  | .extension extension => { state with extensions := state.extensions ++ [extension] }

end AttestationBuilder

/-- Hands out an id. The counter wraps. -/
def FieldId.next {α : Type} (data : α) : StateM FieldId (Field α) := fun id =>
  (⟨id, data⟩, ⟨id.id + 1⟩)

namespace AttestationBuilder

def encodingCommitment (state : Sign) :
    Except (Fault AttestationBuilderError) (Option EncodingCommitment) :=
  match state.encodingCommitmentRoot with
  | none => .ok none
  | some root =>
      match state.encoderSecret with
      | none =>
          .error (error .field "encoding commitment requested but encoder_secret was not set")
      | some secret => .ok (some ⟨root, secret⟩)

/-- A value which must have been set. -/
def required {α : Type} (value : Option α) (text : String) :
    Except (Fault AttestationBuilderError) α :=
  match value with
  | some value => .ok value
  | none => .error (error .field text)

/-- The ids are handed out to the fields which there are, in order. -/
def fillBody (key : VerifyingKey) (info : ConnectionInfo) (ephemeral : ServerEphemKey)
    (cert : ServerCertCommitment) (encoding : Option EncodingCommitment)
    (extensions : List Extension) : StateM FieldId Attestation.Body := do
  let verifyingKey ← FieldId.next key
  let connectionInfo ← FieldId.next info
  let serverEphemeralKey ← FieldId.next ephemeral
  let certCommitment ← FieldId.next cert
  let encodingCommitment ← encoding.mapM FieldId.next
  let extensions ← extensions.mapM FieldId.next
  return { verifyingKey, connectionInfo, serverEphemeralKey, certCommitment, encodingCommitment,
           plaintextHashes := [], extensions }

def build (rs : RsMerkle) (state : Sign) (blake3 : Blake3) (provider : SigningProvider) (id : Uid) :
    Except (Fault AttestationBuilderError) Attestation := do
  let hasher ← (provider.hash.get state.hashAlg).mapError fun _ => error .config
    ("accepted hash algorithm " ++ state.hashAlg.display ++ " but it's missing in the provider")
  let signer ← (provider.signer.get state.signatureAlg).mapError fun _ => error .config
    ("accepted signature algorithm " ++ state.signatureAlg.display ++
      " but it's missing in the provider")
  let encoding ← encodingCommitment state
  let info ← required state.connectionInfo "connection info was not set"
  let ephemeral ← required state.serverEphemeralKey "handshake data was not set"
  let body := (fillBody signer.verifyingKey info ephemeral state.certCommitment encoding
    state.extensions ⟨0⟩).1
  let root ← body.root rs blake3 hasher
  let header : Header := ⟨id, version, root⟩
  let signature ← (signer.sign (← serialize header)).mapError
    fun e => Fault.err ⟨.signature, .signature e⟩
  return ⟨signature, header, body⟩

end AttestationBuilder

end Tlsn.Core

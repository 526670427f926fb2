import Tlsn.Core.Hash

/-!
Signature algorithms, signers and signature verifiers, with the provider of them.
Signers and verifiers are parameters. A provider registers each of them under the
algorithm it reports.
-/

namespace Tlsn.Core

structure KeyAlgId where
  id : UInt8
deriving DecidableEq

structure SignatureAlgId where
  id : UInt8
deriving DecidableEq

namespace SignatureAlgId

def secp256k1 : SignatureAlgId := ⟨1⟩
def secp256r1 : SignatureAlgId := ⟨2⟩
def secp256k1eth : SignatureAlgId := ⟨3⟩

def display (alg : SignatureAlgId) : String :=
  if alg = secp256k1 then "secp256k1"
  else if alg = secp256r1 then "secp256r1"
  else if alg = secp256k1eth then "secp256k1eth"
  else "custom(" ++ (HashAlgId.mk alg.id).display ++ ")"

def debug (alg : SignatureAlgId) : String := "SignatureAlgId(" ++ toString alg.id.toNat ++ ")"

end SignatureAlgId

structure VerifyingKey where
  alg : KeyAlgId
  data : List UInt8
deriving DecidableEq

structure Signature where
  alg : SignatureAlgId
  data : List UInt8
deriving DecidableEq

structure SignatureError where
  msg : String
deriving DecidableEq

structure UnknownSignatureAlgId where
  alg : SignatureAlgId
deriving DecidableEq

structure Signer where
  algId : SignatureAlgId
  sign : List UInt8 → Except SignatureError Signature
  verifyingKey : VerifyingKey

structure SignatureVerifier where
  algId : SignatureAlgId
  verify : VerifyingKey → List UInt8 → List UInt8 → Except SignatureError Unit

structure SignerProvider where
  signers : SignatureAlgId → Option Signer
  algId_eq : ∀ alg signer, signers alg = some signer → signer.algId = alg

structure SignatureVerifierProvider where
  verifiers : SignatureAlgId → Option SignatureVerifier
  algId_eq : ∀ alg verifier, verifiers alg = some verifier → verifier.algId = alg

def SignerProvider.get (provider : SignerProvider) (alg : SignatureAlgId) :
    Except UnknownSignatureAlgId Signer :=
  match provider.signers alg with
  | some signer => .ok signer
  | none => .error ⟨alg⟩

def SignatureVerifierProvider.get (provider : SignatureVerifierProvider) (alg : SignatureAlgId) :
    Except UnknownSignatureAlgId SignatureVerifier :=
  match provider.verifiers alg with
  | some verifier => .ok verifier
  | none => .error ⟨alg⟩

/-- The whole provider: hash algorithms, signers and signature verifiers. -/
structure SigningProvider extends CryptoProvider where
  signer : SignerProvider
  signature : SignatureVerifierProvider

/-- The algorithms do what they are for: a hash algorithm is registered under its own
identifier, and what a signer signs is accepted under its key. -/
structure SigningProvider.Correct (provider : SigningProvider) : Prop where
  hash_id : ∀ alg hasher, provider.hash.get alg = .ok hasher → hasher.id = alg
  sign : ∀ alg signer msg sig, provider.signer.get alg = .ok signer → signer.sign msg = .ok sig →
    sig.alg = alg ∧ ∃ verifier, provider.signature.get alg = .ok verifier ∧
      verifier.verify signer.verifyingKey msg sig.data = .ok ()

end Tlsn.Core

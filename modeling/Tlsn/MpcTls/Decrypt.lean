import Tlsn.MpcTls.Encrypt

/-!
Decryption of records. While the key is secret, a private plaintext is computed
from keystream which is masked with a pad of the leader's, a public one from
keystream which both parties decode. Once the leader knows the key, it decrypts
on its own.
-/

namespace Tlsn.MpcTls

open Tlsn.Cipher Tlsn.Tls

inductive DecryptMode where
  | isPrivate
  | isPublic
deriving DecidableEq

structure DecryptOp where
  seq : Nat
  typ : ContentType
  version : ProtocolVersion
  explicitNonce : List UInt8
  ciphertext : List UInt8
  aad : List UInt8
  tag : List UInt8
  mode : DecryptMode
deriving DecidableEq

inductive DecryptOutput where
  | isPrivate (maskedKeystream : Slice) (otp : Option (List UInt8)) (ciphertext : List UInt8)
  | isPublic (keystream : Slice) (ciphertext : List UInt8)
  | isLocal (plaintext : Option (List UInt8))
deriving DecidableEq

def DecryptOutput.tryDecrypt (mem : Memory) :
    DecryptOutput → Except (Fault MpcTlsError) (Option (List UInt8))
  | .isPrivate maskedKeystream otp ciphertext =>
      match otp with
      | none => .ok none
      | some otp => .ok (some (List.zipWith (fun a (b, c) => a ^^^ (b ^^^ c)) ciphertext
          (otp.zip (mem.read maskedKeystream)) ++
            ciphertext.drop (min otp.length maskedKeystream.len)))
  | .isPublic keystream ciphertext =>
      if keystream.len ≠ ciphertext.length then
        .error (MpcTlsError.recordLayerMsg ("keystream length does not match ciphertext: " ++
          toString keystream.len ++ " != " ++ toString ciphertext.length))
      else .ok (some (xorBytes ciphertext (mem.read keystream)))
  | .isLocal plaintext => .ok plaintext

/-- The machine and the decrypter, and what is left of the leader's pad. -/
abbrev DecryptState := (Vm × MpcAesGcm) × Option (List UInt8)

namespace DecryptOp

open MpcAesGcm (onVm)

def exceedsAllocated (ciphertextLen otpLen : Nat) : Fault MpcTlsError :=
  MpcTlsError.recordLayerMsg ("ciphertext length exceeds allocated: " ++ toString ciphertextLen ++
    " > " ++ toString otpLen)

/-- Takes the end of the pad. -/
def splitOtp (len : Nat) :
    EStateM (Fault MpcTlsError) DecryptState (Option (List UInt8)) := fun s =>
  match s.2 with
  | none => .ok none s
  | some otp => .ok (some (otp.drop (otp.length - len))) (s.1, some (otp.take (otp.length - len)))

def privateMpc (op : DecryptOp) : EStateM (Fault MpcTlsError) DecryptState DecryptOutput := do
  match (← get).2 with
  | some otp =>
      if op.ciphertext.length > otp.length then
        throw (exceedsAllocated op.ciphertext.length otp.length)
      else pure ()
  | none => pure ()
  let (otpRef, maskedKeystream) ← Fault.onFst (Fault.adapt MpcTlsError.recordLayerAead
    (MpcAesGcm.applyKeystream op.explicitNonce op.ciphertext.length))
  let otp ← splitOtp op.ciphertext.length
  match otp with
  | some otp => Fault.onFst (onVm (Vm.assign otpRef otp))
  | none => pure ()
  Fault.onFst (onVm (Vm.commit otpRef))
  let maskedKeystream ← Fault.onFst (onVm (Vm.decode maskedKeystream))
  return .isPrivate maskedKeystream otp op.ciphertext

def decryptPublic (op : DecryptOp) :
    EStateM (Fault MpcTlsError) (Vm × MpcAesGcm) DecryptOutput := do
  let keystream ← Fault.adapt MpcTlsError.recordLayerAead
    (MpcAesGcm.takeKeystream op.explicitNonce op.ciphertext.length)
  let keystream ← onVm (Vm.decode keystream)
  return .isPublic keystream op.ciphertext

def decryptOne (op : DecryptOp) : EStateM (Fault MpcTlsError) DecryptState DecryptOutput :=
  match op.mode with
  | .isPrivate => op.privateMpc
  | .isPublic => Fault.onFst op.decryptPublic

def decryptOneLocal (role : Role) (cipher : LocalAesCtr) (localDecrypter : AesCtr)
    (op : DecryptOp) : EStateM (Fault MpcTlsError) (Vm × MpcAesGcm) DecryptOutput :=
  match op.mode with
  | .isPrivate =>
      match role with
      | .leader => do
          let plaintext ← Fault.lift (localDecrypter.decrypt cipher op.explicitNonce op.ciphertext)
          return .isLocal (some plaintext)
      | .follower => return .isLocal none
  | .isPublic => op.decryptPublic

def tagData (op : DecryptOp) : TagData := ⟨op.explicitNonce, op.aad⟩

end DecryptOp

def decryptMpc : List DecryptOp →
    EStateM (Fault MpcTlsError) DecryptState (List DecryptOutput)
  | [] => return []
  | op :: ops => do
      let output ← op.decryptOne
      let outputs ← decryptMpc ops
      return output :: outputs

def decryptLocal (role : Role) (cipher : LocalAesCtr) (localDecrypter : AesCtr) :
    List DecryptOp → EStateM (Fault MpcTlsError) (Vm × MpcAesGcm) (List DecryptOutput)
  | [] => return []
  | op :: ops => do
      let output ← op.decryptOneLocal role cipher localDecrypter
      let outputs ← decryptLocal role cipher localDecrypter ops
      return output :: outputs

def verifyTags (ops : List DecryptOp) :
    EStateM (Fault MpcTlsError) (Vm × MpcAesGcm) VerifyTags :=
  Fault.adapt MpcTlsError.recordLayerAead
    (MpcAesGcm.verifyTags (ops.map DecryptOp.tagData) (ops.map DecryptOp.ciphertext)
      (ops.map DecryptOp.tag))

end Tlsn.MpcTls

import Tlsn.MpcTls.AesCtr
import Tlsn.MpcTls.Tags
import Tlsn.Tls.Enums

/-!
Encryption of records. A private plaintext is assigned to the machine, which
computes the ciphertext; for a public one the keystream is decoded, and both
parties compute the ciphertext on their own.
-/

namespace Tlsn.MpcTls

open Tlsn.Cipher Tlsn.Tls

inductive EncryptMode where
  | isPrivate
  | isPublic
deriving DecidableEq

structure EncryptOp where
  seq : Nat
  typ : ContentType
  version : ProtocolVersion
  len : Nat
  plaintext : Option (List UInt8)
  explicitNonce : List UInt8
  aad : List UInt8
  mode : EncryptMode
deriving DecidableEq

namespace EncryptOp

def inconsistentLength (actual len : Nat) : Fault MpcTlsError :=
  MpcTlsError.recordLayerMsg ("inconsistent plaintext length: " ++ toString actual ++ " != " ++
    toString len)

def plaintextRequired : Fault MpcTlsError :=
  MpcTlsError.recordLayerMsg "plaintext must be provided in public mode"

def new (seq : Nat) (typ : ContentType) (version : ProtocolVersion) (len : Nat)
    (plaintext : Option (List UInt8)) (explicitNonce aad : List UInt8) (mode : EncryptMode) :
    Except (Fault MpcTlsError) EncryptOp :=
  match plaintext with
  | some bytes =>
      if bytes.length ≠ len then .error (inconsistentLength bytes.length len)
      else .ok ⟨seq, typ, version, len, plaintext, explicitNonce, aad, mode⟩
  | none =>
      if mode = .isPublic then .error plaintextRequired
      else .ok ⟨seq, typ, version, len, plaintext, explicitNonce, aad, mode⟩

end EncryptOp

inductive EncryptOutput where
  | isPrivate (ciphertext : Slice)
  | isPublic (keystream : Slice) (plaintext : List UInt8)
deriving DecidableEq

structure PendingEncrypt where
  plaintextRef : Option Slice
  output : EncryptOutput
deriving DecidableEq

def EncryptOutput.tryEncrypt (mem : Memory) : EncryptOutput →
    Except (Fault MpcTlsError) (List UInt8)
  | .isPrivate ciphertext => .ok (mem.read ciphertext)
  | .isPublic keystream plaintext =>
      if keystream.len ≠ plaintext.length then
        .error (MpcTlsError.recordLayerMsg
          ("keystream length does not match plaintext length: " ++ toString keystream.len ++
            " != " ++ toString plaintext.length))
      else .ok (xorBytes plaintext (mem.read keystream))

namespace MpcAesGcm

/-- An operation of the machine, for the record layer. -/
def onVm {α : Type} (x : EStateM (Fault VmError) Vm α) :
    EStateM (Fault MpcTlsError) (Vm × MpcAesGcm) α :=
  Fault.onFst (Fault.adapt MpcTlsError.recordLayerVm x)

end MpcAesGcm

namespace EncryptOp

open MpcAesGcm (onVm)

def encryptPrivate (op : EncryptOp) :
    EStateM (Fault MpcTlsError) (Vm × MpcAesGcm) (PendingEncrypt × Future (List UInt8)) := do
  let (plaintext, ciphertext) ← Fault.adapt MpcTlsError.recordLayerAead
    (MpcAesGcm.applyKeystream op.explicitNonce op.len)
  match op.plaintext with
  | some data => onVm (Vm.assign plaintext data)
  | none => pure ()
  onVm (Vm.commit plaintext)
  let ciphertextFut ← onVm (Vm.decode ciphertext)
  let ciphertext ← onVm (Vm.decode ciphertext)
  return (⟨some plaintext, .isPrivate ciphertext⟩, fun mem => mem.read ciphertextFut)

def encryptPublic (op : EncryptOp) :
    EStateM (Fault MpcTlsError) (Vm × MpcAesGcm) (PendingEncrypt × Future (List UInt8)) := do
  match op.plaintext with
  | none => throw plaintextRequired
  | some plaintext =>
      let keystream ← Fault.adapt MpcTlsError.recordLayerAead
        (MpcAesGcm.takeKeystream op.explicitNonce op.len)
      let keystreamFut ← onVm (Vm.decode keystream)
      let keystream ← onVm (Vm.decode keystream)
      return (⟨none, .isPublic keystream plaintext⟩,
        fun mem => xorBytes (mem.read keystreamFut) plaintext)

def encryptOne (op : EncryptOp) :
    EStateM (Fault MpcTlsError) (Vm × MpcAesGcm) (PendingEncrypt × Future (List UInt8)) :=
  match op.mode with
  | .isPrivate => op.encryptPrivate
  | .isPublic => op.encryptPublic

def tagData (op : EncryptOp) : TagData := ⟨op.explicitNonce, op.aad⟩

end EncryptOp

def encryptOps : List EncryptOp →
    EStateM (Fault MpcTlsError) (Vm × MpcAesGcm) (List (PendingEncrypt × Future (List UInt8)))
  | [] => return []
  | op :: ops => do
      let output ← op.encryptOne
      let outputs ← encryptOps ops
      return output :: outputs

def encrypt (ops : List EncryptOp) :
    EStateM (Fault MpcTlsError) (Vm × MpcAesGcm) (List PendingEncrypt × ComputeTags) := do
  let outputs ← encryptOps ops
  let computeTags ← Fault.adapt MpcTlsError.recordLayerAead
    (MpcAesGcm.computeTags (outputs.map Prod.snd) (ops.map EncryptOp.tagData))
  return (outputs.map Prod.fst, computeTags)

end Tlsn.MpcTls

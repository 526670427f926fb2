import Tlsn.MpcTls.Decode

/-!
Decryption by the leader alone, once the key is revealed to it. The stream cipher
is a parameter.
-/

namespace Tlsn.MpcTls

open Tlsn.Cipher

/-- AES-128 in counter mode with a big-endian counter of 32 bits: enciphers data
from a position of the keystream on, or panics. -/
structure LocalAesCtr where
  applyKeystream : (key fullIv : List UInt8) → (pos : Nat) → List UInt8 → Option (List UInt8)

inductive AesCtrState where
  | init
  | alloc (maskedKey maskedIv : Slice) (keyOtp ivOtp : Option (List UInt8))
  | decode (maskedKey maskedIv : Slice) (keyOtp ivOtp : Option (List UInt8))
  | ready (key iv : Option (List UInt8))
  | error
deriving DecidableEq

structure AesCtr where
  role : Role
  key : Option Slice
  iv : Option Slice
  state : AesCtrState
deriving DecidableEq

namespace MpcTlsError

def recordLayerMsg (text : String) : Fault MpcTlsError := .err (.recordLayer (.msg text))

def recordLayerVm (e : VmError) : MpcTlsError := .recordLayer (.vm e)

def recordLayerAead (e : AeadError) : MpcTlsError := .recordLayer (.aead e)

end MpcTlsError

namespace AesCtr

def new (role : Role) : AesCtr := ⟨role, none, none, .init⟩

def setKey (ctr : AesCtr) (key iv : Slice) : AesCtr := { ctr with key := some key, iv := some iv }

/-- Masks key and IV with pads of the leader. -/
def maskKey (role : Role) (key iv : Slice) (keyOtp : Vector UInt8 16) (ivOtp : Vector UInt8 4) :
    EStateM (Fault MpcTlsError) Vm AesCtrState :=
  match role with
  | .leader => do
      let maskedKey ← Fault.adapt MpcTlsError.recordLayerVm (maskPrivate key keyOtp.toList)
      let maskedIv ← Fault.adapt MpcTlsError.recordLayerVm (maskPrivate iv ivOtp.toList)
      return .alloc maskedKey maskedIv (some keyOtp.toList) (some ivOtp.toList)
  | .follower => do
      let maskedKey ← Fault.adapt MpcTlsError.recordLayerVm (maskBlind key)
      let maskedIv ← Fault.adapt MpcTlsError.recordLayerVm (maskBlind iv)
      return .alloc maskedKey maskedIv none none

def alloc (keyOtp : Vector UInt8 16) (ivOtp : Vector UInt8 4) :
    EStateM (Fault MpcTlsError) (Vm × AesCtr) Unit := fun s =>
  match s.2.state with
  | .init =>
      match s.2.key, s.2.iv with
      | none, _ =>
          .error (MpcTlsError.recordLayerMsg "key not set in aes-ctr")
            (s.1, { s.2 with state := .error })
      | some _, none =>
          .error (MpcTlsError.recordLayerMsg "iv not set in aes-ctr")
            (s.1, { s.2 with state := .error })
      | some key, some iv =>
          match maskKey s.2.role key iv keyOtp ivOtp s.1 with
          | .ok state vm => .ok () (vm, { s.2 with state := state })
          | .error e vm => .error e (vm, { s.2 with state := .error })
  | _ =>
      .error (MpcTlsError.recordLayerMsg "aes-ctr must be in initialized state to allocate")
        (s.1, { s.2 with state := .error })

def decodeKey : EStateM (Fault MpcTlsError) (Vm × AesCtr) Unit := fun s =>
  match s.2.state with
  | .alloc maskedKey maskedIv keyOtp ivOtp =>
      .ok () (s.1.push [.decode maskedKey, .decode maskedIv],
        { s.2 with state := .decode maskedKey maskedIv keyOtp ivOtp })
  | _ =>
      .error (MpcTlsError.recordLayerMsg "aes-ctr must be in allocated state to decode key")
        (s.1, { s.2 with state := .error })

def finishDecode (mem : Memory) : EStateM (Fault MpcTlsError) AesCtr Unit := fun ctr =>
  match ctr.state with
  | .decode maskedKey maskedIv keyOtp ivOtp =>
      match ctr.role with
      | .leader =>
          match keyOtp, ivOtp with
          | some keyOtp, some ivOtp =>
              let key := xorBytes (mem.read maskedKey) keyOtp
              let iv := xorBytes (mem.read maskedIv) ivOtp
              .ok () { ctr with state := .ready (some key) (some iv) }
          | _, _ => .error .panic { ctr with state := .error }
      | .follower => .ok () { ctr with state := .ready none none }
  | _ =>
      .error (MpcTlsError.recordLayerMsg "aes-ctr must be in decode state to finish decode")
        { ctr with state := .error }

/-- Skips the first two blocks of keystream, to match AES-GCM. -/
def decrypt (cipher : LocalAesCtr) (ctr : AesCtr) (explicitNonce ciphertext : List UInt8) :
    Except (Fault MpcTlsError) (List UInt8) :=
  match ctr.state with
  | .ready key iv =>
      match ctr.role with
      | .follower =>
          .error (MpcTlsError.recordLayerMsg "aes-ctr must be in leader role to decrypt")
      | .leader =>
          match key, iv with
          | some key, some iv =>
              if explicitNonce.length ≠ 8 then
                .error (MpcTlsError.recordLayerMsg ("incorrect explicit nonce length: " ++
                  toString explicitNonce.length ++ " != 8"))
              else
                match cipher.applyKeystream key (iv ++ explicitNonce ++ beBytes 4 0) 32
                    ciphertext with
                | some plaintext => .ok plaintext
                | none => .error .panic
          | _, _ => .error .panic
  | _ => .error (MpcTlsError.recordLayerMsg "aes-ctr must be in ready state to decrypt")

end AesCtr

end Tlsn.MpcTls

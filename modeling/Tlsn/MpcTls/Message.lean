import Tlsn.MpcTls.RecordRun

/-!
The messages of the protocol, which the leader sends and the follower processes.
-/

namespace Tlsn.MpcTls

open Tlsn.Cipher Tlsn.Tls

structure PublicKey where
  group : NamedGroup
  key : List UInt8
deriving DecidableEq

inductive Message where
  | setServerRandom (random : Vector UInt8 32)
  | setServerKey (key : PublicKey)
  | clientFinishedVd (handshakeHash : Vector UInt8 32)
  | serverFinishedVd (handshakeHash : Vector UInt8 32)
  | encrypt (typ : ContentType) (version : ProtocolVersion) (len : Fin wordSize)
      (plaintext : Option (List UInt8)) (mode : EncryptMode)
  | decrypt (typ : ContentType) (version : ProtocolVersion) (explicitNonce : List UInt8)
      (ciphertext : Bytes) (tag : List UInt8) (mode : DecryptMode)
  | startTraffic
  | flush (isDecrypting : Bool)
  | closeConnection
deriving DecidableEq

namespace Message

def isSetServerKey : Message → Bool
  | .setServerKey _ => true
  | _ => false

def isClientFinishedVd : Message → Bool
  | .clientFinishedVd _ => true
  | _ => false

def isServerFinishedVd : Message → Bool
  | .serverFinishedVd _ => true
  | _ => false

def isDecrypt : Message → Bool
  | .decrypt _ _ _ _ _ _ => true
  | _ => false

def isFlush : Message → Bool
  | .flush _ => true
  | _ => false

variable {C D : Type}

/-- What the message makes of the record layer, when the peer sends these shares. -/
def layerCalls (peer : PeerShares C D) : Message → List (LayerCall C D)
  | .encrypt typ version len plaintext mode => [.pushEncrypt typ version len plaintext mode]
  | .decrypt typ version explicitNonce ciphertext tag mode =>
      [.pushDecrypt typ version explicitNonce ciphertext tag mode]
  | .startTraffic => [.startTraffic]
  | .flush isDecrypting => [.flush peer isDecrypting]
  | _ => []

end Message

namespace LayerCall

variable {C D : Type} {scheme : HashCommit C D} {mem : Memory}

theorem runAll_append {calls calls' : List (LayerCall C D)} {s s' s'' : Vm × RecordLayer}
    (h : runAll scheme mem calls s = .ok () s') (h' : runAll scheme mem calls' s' = .ok () s'') :
    runAll scheme mem (calls ++ calls') s = .ok () s'' := by
  induction calls generalizing s with
  | nil =>
      cases h
      exact h'
  | cons call calls ih =>
      obtain ⟨⟨⟩, s₁, hcall, hrest⟩ := Fault.run_bind_ok_iff.mp h
      exact Fault.run_bind_ok_iff.mpr ⟨(), s₁, hcall, ih hrest⟩

theorem runAll_singleton {call : LayerCall C D} {s s' : Vm × RecordLayer}
    (h : call.run scheme mem s = .ok () s') : runAll scheme mem [call] s = .ok () s' :=
  Fault.run_bind_ok_iff.mpr ⟨(), s', h, rfl⟩

end LayerCall

end Tlsn.MpcTls

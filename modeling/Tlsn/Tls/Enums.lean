import Tlsn.Library.Bytes

/-!
Enumerations of TLS, as they are on the wire. A value that is not recognised is
kept as it is, so two values with the same bytes need not be equal.
-/

namespace Tlsn.Tls

inductive ContentType where
  | changeCipherSpec
  | alert
  | handshake
  | applicationData
  | heartbeat
  | unknown (x : UInt8)
deriving DecidableEq

def ContentType.getU8 : ContentType → UInt8
  | .changeCipherSpec => 0x14
  | .alert => 0x15
  | .handshake => 0x16
  | .applicationData => 0x17
  | .heartbeat => 0x18
  | .unknown x => x

inductive ProtocolVersion where
  | sslV2
  | sslV3
  | tlsV1_0
  | tlsV1_1
  | tlsV1_2
  | tlsV1_3
  | dtlsV1_0
  | dtlsV1_2
  | unknown (x : UInt16)
deriving DecidableEq

def ProtocolVersion.getU16 : ProtocolVersion → UInt16
  | .sslV2 => 0x0200
  | .sslV3 => 0x0300
  | .tlsV1_0 => 0x0301
  | .tlsV1_1 => 0x0302
  | .tlsV1_2 => 0x0303
  | .tlsV1_3 => 0x0304
  | .dtlsV1_0 => 0xFEFF
  | .dtlsV1_2 => 0xFEFD
  | .unknown x => x

inductive NamedGroup where
  | secp256r1
  | secp384r1
  | secp521r1
  | x25519
  | x448
  | ffdhe2048
  | ffdhe3072
  | ffdhe4096
  | ffdhe6144
  | ffdhe8192
  | unknown (x : UInt16)
deriving DecidableEq

/-- The additional data of a record. -/
def makeTls12Aad (seq : Nat) (typ : ContentType) (vers : ProtocolVersion) (len : Nat) :
    List UInt8 :=
  beBytes 8 seq ++ [typ.getU8] ++ beBytes 2 vers.getU16.toNat ++ beBytes 2 len

end Tlsn.Tls

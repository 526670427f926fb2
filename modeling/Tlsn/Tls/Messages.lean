import Tlsn.Tls.Enums

/-!
The messages which the follower reads in the plaintext of records: Finished, and
alerts. Of other handshake messages it matters only whether they can be read.
-/

namespace Tlsn.Tls

/-- What is left to read. -/
abbrev Reader := List UInt8

namespace Reader

def take (len : Nat) (r : Reader) : Option (List UInt8 × Reader) :=
  if r.length < len then none else some (List.take len r, List.drop len r)

def readU8 (r : Reader) : Option (UInt8 × Reader) :=
  match r with
  | [] => none
  | x :: rest => some (x, rest)

def readU24 (r : Reader) : Option (Nat × Reader) :=
  match r with
  | a :: b :: c :: rest => some ((a.toNat * 256 + b.toNat) * 256 + c.toNat, rest)
  | _ => none

end Reader

inductive HandshakeType where
  | helloRequest
  | clientHello
  | serverHello
  | helloVerifyRequest
  | newSessionTicket
  | endOfEarlyData
  | helloRetryRequest
  | encryptedExtensions
  | certificate
  | serverKeyExchange
  | certificateRequest
  | serverHelloDone
  | certificateVerify
  | clientKeyExchange
  | finished
  | certificateURL
  | certificateStatus
  | keyUpdate
  | messageHash
  | unknown (x : UInt8)
deriving DecidableEq

def HandshakeType.ofU8 : UInt8 → HandshakeType
  | 0x00 => .helloRequest
  | 0x01 => .clientHello
  | 0x02 => .serverHello
  | 0x03 => .helloVerifyRequest
  | 0x04 => .newSessionTicket
  | 0x05 => .endOfEarlyData
  | 0x06 => .helloRetryRequest
  | 0x08 => .encryptedExtensions
  | 0x0b => .certificate
  | 0x0c => .serverKeyExchange
  | 0x0d => .certificateRequest
  | 0x0e => .serverHelloDone
  | 0x0f => .certificateVerify
  | 0x10 => .clientKeyExchange
  | 0x14 => .finished
  | 0x15 => .certificateURL
  | 0x16 => .certificateStatus
  | 0x18 => .keyUpdate
  | 0xfe => .messageHash
  | x => .unknown x

inductive HandshakePayload where
  | finished (verifyData : List UInt8)
  | other
deriving DecidableEq

/-- The parsers of the payloads other than Finished: whether one reads all of the bytes. -/
abbrev OtherPayloads := ProtocolVersion → HandshakeType → List UInt8 → Bool

/-- Bytes after the message are not looked at. -/
def HandshakePayload.readVersion (other : OtherPayloads) (vers : ProtocolVersion) (r : Reader) :
    Option HandshakePayload := do
  let (typ, r) ← r.readU8
  let (len, r) ← r.readU24
  let (sub, _) ← r.take len
  match HandshakeType.ofU8 typ with
  | .finished => some (.finished sub)
  | typ => if other vers typ sub then some .other else none

structure AlertMessagePayload where
  level : UInt8
  description : UInt8
deriving DecidableEq

def AlertMessagePayload.read (r : Reader) : Option AlertMessagePayload := do
  let (level, r) ← r.readU8
  let (description, _) ← r.readU8
  return ⟨level, description⟩

def closeNotify : UInt8 := 0x00

end Tlsn.Tls

import Tlsn.Tls.HsJoiner
import Tlsn.Tls.RustCrypto
import Tlsn.Tls.VecBuf

/-!
The state which the phases of a connection share: the record layer, the backend, and the
buffers of plaintext and of records to be sent.
-/

namespace Tlsn.Tls

open Tlsn.MpcTls (Overflow)

/-! ## Messages and errors -/

inductive CoreError where
  | corruptMessagePayload (typ : ContentType)
deriving DecidableEq

/-- `other` stands for what the handshake fails with and is passed on. -/
inductive Error where
  | coreError (e : CoreError)
  | backendError (e : BackendError)
  | inappropriateMessage (expect : List ContentType) (got : ContentType)
  | inappropriateHandshakeMessage (expect : List HandshakeType) (got : HandshakeType)
  | encryptError
  | corruptMessage
  | corruptMessagePayload (typ : ContentType)
  | peerMisbehavedError (text : String)
  | alertReceived (description : UInt8)
  | handshakeNotComplete
  | other (text : String)
deriving DecidableEq

inductive MessagePayload (P : Type) where
  | alert (alert : AlertMessagePayload)
  | handshake (payload : HandshakeMessagePayload P)
  | changeCipherSpec
  | applicationData (payload : List UInt8)
deriving DecidableEq

structure Message (P : Type) where
  version : ProtocolVersion
  payload : MessagePayload P
deriving DecidableEq

def OpaqueMessage.intoPlainMessage (m : OpaqueMessage) : PlainMessage :=
  ⟨m.typ, m.version, m.payload⟩

def PlainMessage.intoUnencryptedOpaque (m : PlainMessage) : OpaqueMessage :=
  ⟨m.typ, m.version, m.payload⟩

namespace AlertLevel

def warning : UInt8 := 0x01
def fatal : UInt8 := 0x02

end AlertLevel

namespace AlertDescription

def unexpectedMessage : UInt8 := 0x0a
def illegalParameter : UInt8 := 0x2f
def decodeError : UInt8 := 0x32
def userCanceled : UInt8 := 0x5a
def noRenegotiation : UInt8 := 0x64

end AlertDescription

def AlertMessagePayload.encode (alert : AlertMessagePayload) : List UInt8 :=
  [alert.level, alert.description]

namespace MessagePayload

variable {P : Type}

/-- Nothing may be left of the bytes. -/
def new (payloads : HandshakePayloads P) (typ : ContentType) (vers : ProtocolVersion)
    (payload : List UInt8) : Except CoreError (MessagePayload P) :=
  let parsed : Option (MessagePayload P) :=
    match typ with
    | .applicationData => some (.applicationData payload)
    | .alert =>
        match payload with
        | [level, description] => some (.alert ⟨level, description⟩)
        | _ => none
    | .handshake =>
        match HandshakeMessagePayload.readVersion payloads vers payload with
        | some (m, []) => some (.handshake m)
        | _ => none
    | .changeCipherSpec => if payload = [0x01] then some .changeCipherSpec else none
    | _ => none
  match parsed with
  | some m => .ok m
  | none => .error (.corruptMessagePayload typ)

end MessagePayload

namespace Message

variable {P : Type}

def ofPlain (payloads : HandshakePayloads P) (plain : PlainMessage) :
    Except CoreError (Message P) :=
  (MessagePayload.new payloads plain.typ plain.version plain.payload).map (⟨plain.version, ·⟩)

def isHandshakeType (typ : HandshakeType) (m : Message P) : Bool :=
  match m.payload with
  | .handshake payload => payload.typ = typ
  | _ => false

end Message

/-- An alert as a message to be sent. -/
def buildAlert (level description : UInt8) : PlainMessage :=
  ⟨.alert, .tlsV1_2, AlertMessagePayload.encode ⟨level, description⟩⟩

/-! ## The backend and the record layer -/

/-- A backend. What goes wrong in it is an error. -/
structure Backend (B : Type) where
  pushIncoming : OpaqueMessage → EStateM BackendError B Unit
  pushOutgoing : PlainMessage → EStateM BackendError B Unit
  nextIncoming : EStateM BackendError B (Option PlainMessage)
  nextOutgoing : EStateM BackendError B (Option OpaqueMessage)
  flush : EStateM BackendError B Unit
  startTraffic : EStateM BackendError B Unit
  serverClosed : EStateM BackendError B Unit

/-- The plain backend as one. That its flush panics, it cannot say, so another error stands
for it. -/
def RustCryptoBackend.backend (gcm : Aes128Gcm) (overflow : Overflow) (panicked : BackendError) :
    Backend RustCryptoBackend where
  pushIncoming msg b := .ok () (b.pushIncoming msg)
  pushOutgoing msg b := .ok () (b.pushOutgoing msg)
  nextIncoming b := .ok b.nextIncoming.1 b.nextIncoming.2
  nextOutgoing b := .ok b.nextOutgoing.1 b.nextOutgoing.2
  flush b :=
    match flush gcm overflow b with
    | .ok () b => .ok () b
    | .error (.err e) b => .error e b
    | .error .panic b => .error panicked b
  startTraffic := return
  serverClosed := return

inductive DirectionState where
  | invalid
  | prepared
  | active
deriving DecidableEq

structure ClientRecordLayer where
  writeSeq : Nat
  readSeq : Nat
  encryptState : DirectionState
  decryptState : DirectionState
  trialDecryptionLen : Option Nat
deriving DecidableEq

namespace ClientRecordLayer

def seqSoftLimit : Nat := 0xffffffffffff0000
def seqHardLimit : Nat := 0xfffffffffffffffe

def isEncrypting (layer : ClientRecordLayer) : Bool := layer.encryptState = .active

def isDecrypting (layer : ClientRecordLayer) : Bool := layer.decryptState = .active

def finishTrialDecryption (layer : ClientRecordLayer) : ClientRecordLayer :=
  { layer with trialDecryptionLen := none }

def wantsCloseBeforeDecrypt (layer : ClientRecordLayer) : Bool := layer.readSeq = seqSoftLimit

def wantsCloseBeforeEncrypt (layer : ClientRecordLayer) : Bool := layer.writeSeq = seqSoftLimit

def encryptExhausted (layer : ClientRecordLayer) : Bool := seqHardLimit ≤ layer.writeSeq

end ClientRecordLayer

structure CommonState (B : Type) where
  negotiatedVersion : Option ProtocolVersion
  recordLayer : ClientRecordLayer
  backend : B
  alignedHandshake : Bool
  maySendApplicationData : Bool
  mayReceiveApplicationData : Bool
  sentFatalAlert : Bool
  hasReceivedCloseNotify : Bool
  hasSeenEof : Bool
  receivedMiddleboxCcs : Nat
  messageFragmenter : MessageFragmenter
  receivedPlaintext : ChunkVecBuffer
  sendablePlaintext : ChunkVecBuffer
  sendableTls : ChunkVecBuffer

inductive Limit where
  | yes
  | no
deriving DecidableEq

namespace CommonState

variable {B : Type} (backend : Backend B) (overflow : Overflow)

/-- An operation on the state of a connection, which fails or aborts. -/
abbrev Op (B α : Type) : Type := EStateM (Fault Error) (CommonState B) α

def isTls13 (c : CommonState B) : Bool := c.negotiatedVersion = some .tlsV1_3

/-- A call of the backend, whose error becomes an error of the connection. -/
def onBackend {α : Type} (x : EStateM BackendError B α) : Op B α := fun c =>
  match x c.backend with
  | .ok a b => .ok a { c with backend := b }
  | .error e b => .error (.err (.backendError e)) { c with backend := b }

/-- `assert!` -/
def assert (p : CommonState B → Bool) : Op B Unit := fun c =>
  if p c then .ok () c else .error .panic c

/-- `debug_assert!`, which is checked in the builds that check for overflow. -/
def debugAssert (p : CommonState B → Bool) : Op B Unit := fun c =>
  match overflow with
  | .checks => if p c then .ok () c else .error .panic c
  | .wraps => .ok () c

def decryptIncomingRecord (encr : OpaqueMessage) : Op B Unit := do
  debugAssert overflow fun c => c.recordLayer.isDecrypting
  onBackend (backend.pushIncoming encr)
  let c ← get
  let readSeq ← Fault.lift (overflow.add c.recordLayer.readSeq 1)
  set { c with recordLayer := { c.recordLayer with readSeq } }

def encryptOutgoingRecord (plain : PlainMessage) : Op B Unit := do
  debugAssert overflow fun c => c.recordLayer.encryptState = .active
  assert fun c => !c.recordLayer.encryptExhausted
  onBackend (backend.pushOutgoing plain)
  let c ← get
  let writeSeq ← Fault.lift (overflow.add c.recordLayer.writeSeq 1)
  set { c with recordLayer := { c.recordLayer with writeSeq } }

/-! ## Sending -/

/-- Records are put in the buffer without regard to its limit. -/
def queueTlsMessage (m : OpaqueMessage) (c : CommonState B) : CommonState B :=
  { c with sendableTls := (c.sendableTls.append m.encode).2 }

/-- Refuses to wrap the counter. -/
def sendSingleFragment (m : PlainMessage) : Op B Unit := do
  if (← get).recordLayer.encryptExhausted then
    throw (.err .encryptError)
  else
    encryptOutgoingRecord backend overflow m

def sendFragments : List PlainMessage → Op B Unit
  | [] => return
  | m :: ms => do
      sendSingleFragment backend overflow m
      sendFragments ms

def sendMsgEncrypt (m : PlainMessage) : Op B Unit := do
  let c ← get
  let plainMessages := c.messageFragmenter.fragment m []
  if c.recordLayer.wantsCloseBeforeEncrypt then
    sendSingleFragment backend overflow (buildAlert AlertLevel.warning closeNotify)
  sendFragments backend overflow plainMessages

def sendMsg (m : PlainMessage) (mustEncrypt : Bool) : Op B Unit := do
  if mustEncrypt then
    sendMsgEncrypt backend overflow m
  else
    modify fun c =>
      (c.messageFragmenter.fragment m []).foldl
        (fun c mm => queueTlsMessage mm.intoUnencryptedOpaque c) c

def sendFatalAlert (desc : UInt8) : Op B Unit := do
  debugAssert overflow fun c => !c.sentFatalAlert
  sendMsg backend overflow (buildAlert AlertLevel.fatal desc) (← get).recordLayer.isEncrypting
  modify fun c => { c with sentFatalAlert := true }

def sendWarningAlert (desc : UInt8) : Op B Unit := do
  sendMsg backend overflow (buildAlert AlertLevel.warning desc) (← get).recordLayer.isEncrypting

def sendCloseNotify : Op B Unit := sendWarningAlert backend overflow closeNotify

/-- How much of the payload was accepted. -/
def sendAppdataEncrypt (payload : List UInt8) (limit : Limit) : Op B Nat := do
  let c ← get
  let len :=
    match limit with
    | .yes => c.sendableTls.applyLimit payload.length
    | .no => payload.length
  let m : PlainMessage := ⟨.applicationData, .tlsV1_2, payload.take len⟩
  sendFragments backend overflow (c.messageFragmenter.fragment m [])
  return len

/-- Before the handshake is complete plaintext is kept; empty fragments are not sent. -/
def sendPlain (data : List UInt8) (limit : Limit) : Op B Nat := do
  let c ← get
  if c.maySendApplicationData then
    debugAssert overflow fun c => c.recordLayer.isEncrypting
    if data.isEmpty then
      return 0
    else
      sendAppdataEncrypt backend overflow data limit
  else
    let (len, sendablePlaintext) :=
      match limit with
      | .yes => c.sendablePlaintext.appendLimitedCopy data
      | .no => c.sendablePlaintext.append data
    set { c with sendablePlaintext }
    return len

def sendSomePlaintext (data : List UInt8) : Op B Nat := sendPlain backend overflow data .yes

end CommonState

end Tlsn.Tls

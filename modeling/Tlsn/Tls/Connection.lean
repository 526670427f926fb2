import Tlsn.Library.Loop
import Tlsn.Library.Triple
import Tlsn.Tls.CommonState
import Tlsn.Tls.Deframer

/-!
A client connection: what is read is deframed, decrypted by the backend, joined and handled
by the current phase of the handshake. An error is kept in place of the phase.
-/

namespace Tlsn.Tls

open Tlsn.MpcTls (Overflow)

/-- The phases of the handshake, each of which turns a message into the next phase. Some
have no implementation of `perhaps_write_key_update`. -/
structure Handler (B P H D : Type) where
  start : H → EStateM (Fault Error) (CommonState B × D) H
  handle : Message P → H → EStateM (Fault Error) (CommonState B × D) H
  updatesKeys : H → Bool

structure Connection (B P H D : Type) where
  state : Except Error H
  data : D
  common : CommonState B
  messageDeframer : MessageDeframer
  handshakeJoiner : HandshakeJoiner P

structure IoState where
  tlsBytesToWrite : Nat
  plaintextBytesToRead : Nat
  peerHasClosed : Bool
deriving DecidableEq

def Error.inappropriate : Error → Bool
  | .inappropriateMessage _ _ | .inappropriateHandshakeMessage _ _ => true
  | _ => false

/-- At most this many ChangeCipherSpec messages are dropped, and one more. -/
def tls13MaxDroppedCcs : Nat := 2

def isValidCcs (msg : OpaqueMessage) : Bool :=
  msg.typ = .changeCipherSpec && msg.payload = [0x01]

namespace CommonState

variable {B : Type} (backend : Backend B) (overflow : Overflow)

def decryptIncoming (encr : OpaqueMessage) : Op B Unit := do
  if (← get).recordLayer.wantsCloseBeforeDecrypt then
    sendCloseNotify backend overflow
  decryptIncomingRecord backend overflow encr

/-- An alert of an unknown level is answered, and then treated as a fatal one. -/
def processAlert (alert : AlertMessagePayload) : Op B Unit := do
  if alert.level ≠ AlertLevel.warning ∧ alert.level ≠ AlertLevel.fatal then
    sendFatalAlert backend overflow AlertDescription.illegalParameter
  if alert.description = closeNotify then
    modify fun c => { c with hasReceivedCloseNotify := true }
  else
    let c ← get
    if alert.level = AlertLevel.warning then
      if c.isTls13 && alert.description ≠ AlertDescription.userCanceled then
        sendFatalAlert backend overflow AlertDescription.decodeError
        throw (.err (.alertReceived alert.description))
      else
        return
    else
      throw (.err (.alertReceived alert.description))

def currentIoState (c : CommonState B) : IoState :=
  ⟨c.sendableTls.len, c.receivedPlaintext.len, c.hasReceivedCloseNotify⟩

def setBufferLimit (limit : Option Nat) (c : CommonState B) : CommonState B :=
  { c with
    sendablePlaintext := c.sendablePlaintext.setLimit limit
    sendableTls := c.sendableTls.setLimit limit }

end CommonState

namespace Connection

variable {B P H D : Type} (backend : Backend B) (payloads : HandshakePayloads P)
  (handler : Handler B P H D) (overflow : Overflow)

abbrev Op (B P H D α : Type) : Type := EStateM (Fault Error) (Connection B P H D) α

def onCommon {α : Type} (x : CommonState.Op B α) : Op B P H D α :=
  Fault.zoom (fun conn => conn.common) (fun common conn => { conn with common }) x

def onPhase {α : Type} (x : EStateM (Fault Error) (CommonState B × D) α) : Op B P H D α :=
  Fault.zoom (fun conn => (conn.common, conn.data))
    (fun s conn => { conn with common := s.1, data := s.2 }) x

/-- A phase handles a message. One which is out of place is answered with an alert. -/
def handle (msg : Message P) (state : H) : Op B P H D H := fun conn =>
  match onPhase (handler.handle msg state) conn with
  | .ok next conn => .ok next conn
  | .error .panic conn => .error .panic conn
  | .error (.err e) conn =>
      if e.inappropriate then
        match onCommon (CommonState.sendFatalAlert backend overflow
            AlertDescription.unexpectedMessage) conn with
        | .ok () conn => .error (.err e) conn
        | .error e conn => .error e conn
      else .error (.err e) conn

/-- Outside of the handshake a renegotiation is rejected. -/
def processMainProtocol (msg : Message P) (state : H) : Op B P H D H := do
  let conn ← get
  if conn.common.mayReceiveApplicationData && !conn.common.isTls13 &&
      msg.isHandshakeType .helloRequest then
    onCommon (CommonState.sendWarningAlert backend overflow AlertDescription.noRenegotiation)
    return state
  else
    handle backend handler overflow msg state

/-- The messages are handled one after the other, each taken out of the joiner before. -/
def processFrames : List (HandshakeMessage P) → H → Op B P H D H
  | [], state => return state
  | msg :: rest, state => do
      modify fun conn => { conn with
        handshakeJoiner := { conn.handshakeJoiner with
          frames := conn.handshakeJoiner.frames.tail } }
      let state ← processMainProtocol backend handler overflow
        ⟨msg.version, .handshake msg.payload⟩ state
      processFrames rest state

def processNewHandshakeMessages (state : H) : Op B P H D H := do
  modify fun conn => { conn with
    common := { conn.common with alignedHandshake := conn.handshakeJoiner.buf.isEmpty } }
  let conn ← get
  processFrames backend handler overflow conn.handshakeJoiner.frames state

/-- ChangeCipherSpec messages are dropped during a handshake of TLS 1.3. Others are for the
backend, once messages are decrypted. -/
def processIncomingOpaque (msg : OpaqueMessage) : Op B P H D (Option PlainMessage) := do
  let conn ← get
  if msg.typ = .changeCipherSpec && !conn.common.mayReceiveApplicationData &&
      conn.common.isTls13 then
    if !isValidCcs msg || tls13MaxDroppedCcs < conn.common.receivedMiddleboxCcs then
      onCommon (CommonState.sendFatalAlert backend overflow AlertDescription.unexpectedMessage)
      throw (.err (.peerMisbehavedError "illegal middlebox CCS received"))
    else
      set { conn with common := { conn.common with
        receivedMiddleboxCcs := conn.common.receivedMiddleboxCcs + 1 } }
      return none
  else if conn.common.recordLayer.isDecrypting then
    onCommon (CommonState.decryptIncoming backend overflow msg)
    return none
  else
    return some msg.intoPlainMessage

/-- What the joiner makes of a handshake message. -/
def joinMessage (msg : PlainMessage) : Op B P H D (Option Nat) := fun conn =>
  let (count, handshakeJoiner) := HandshakeJoiner.takeMessage payloads msg conn.handshakeJoiner
  .ok count { conn with
    handshakeJoiner
    common := { conn.common with recordLayer := conn.common.recordLayer.finishTrialDecryption } }

def processIncomingPlain (msg : PlainMessage) (state : H) : Op B P H D H := do
  if msg.typ = .handshake then
    match ← joinMessage payloads msg with
    | some _ => processNewHandshakeMessages backend handler overflow state
    | none => do
        onCommon (CommonState.sendFatalAlert backend overflow AlertDescription.decodeError)
        throw (.err (.corruptMessagePayload .handshake))
  else
    match Message.ofPlain payloads msg with
    | .error e => throw (.err (.coreError e))
    | .ok msg =>
        match msg.payload with
        | .alert alert => do
            onCommon (CommonState.processAlert backend overflow alert)
            return state
        | _ => processMainProtocol backend handler overflow msg state

/-! ## Processing what was received -/

/-- An error is kept, and returned. -/
def keeping {α : Type} (x : Op B P H D α) : Op B P H D α := fun conn =>
  match x conn with
  | .ok a conn => .ok a conn
  | .error (.err e) conn => .error (.err e) { conn with state := .error e }
  | .error .panic conn => .error .panic conn

/-- The phase is taken out, and an error left in its place. -/
def takeState : Op B P H D H := fun conn =>
  match conn.state with
  | .ok state => .ok state { conn with state := .error .handshakeNotComplete }
  | .error e => .error (.err e) conn

def popFrame : Op B P H D (Option OpaqueMessage) := fun conn =>
  .ok conn.messageDeframer.frames.head? { conn with
    messageDeframer := { conn.messageDeframer with frames := conn.messageDeframer.frames.tail } }

/-- Unless messages are decrypted, a frame is processed at once. -/
def frameRound (state : H) : Op B P H D (Round H H) := do
  match ← popFrame with
  | none => return .done state
  | some msg =>
      match ← processIncomingOpaque backend overflow msg with
      | none => return .next state
      | some plain =>
          return .next
            (← keeping (processIncomingPlain backend payloads handler overflow plain state))

def flush : Op B P H D Unit := onCommon (CommonState.onBackend backend.flush)

def nextIncoming : Op B P H D (Option PlainMessage) :=
  onCommon (CommonState.onBackend backend.nextIncoming)

def nextOutgoing : Op B P H D (Option OpaqueMessage) :=
  onCommon (CommonState.onBackend backend.nextOutgoing)

def incomingRound (state : H) : Op B P H D (Round H H) := do
  match ← nextIncoming backend with
  | none => return .done state
  | some msg =>
      return .next (← keeping (processIncomingPlain backend payloads handler overflow msg state))

def outgoingRound (_ : Unit) : Op B P H D (Round Unit Unit) := do
  match ← nextOutgoing backend with
  | none => return .done ()
  | some msg => do
      modify fun conn => { conn with common := conn.common.queueTlsMessage msg }
      return .next ()

def checkSynced : Op B P H D Unit := fun conn =>
  if conn.messageDeframer.desynced then .error (.err .corruptMessage) conn else .ok () conn

def finish (state : H) : Op B P H D IoState := fun conn =>
  .ok conn.common.currentIoState { conn with state := .ok state }

def processNewPackets (fuel : Nat) : LoopM (Fault Error) (Connection B P H D) IoState := do
  let state ← LoopM.lift takeState
  LoopM.lift checkSynced
  let state ← LoopM.loop fuel (frameRound backend payloads handler overflow) state
  LoopM.lift (flush backend)
  let state ← LoopM.loop fuel (incomingRound backend payloads handler overflow) state
  LoopM.loop fuel (outgoingRound backend) ()
  LoopM.lift (finish state)

/-! ## The other calls -/

/-- How the handshake starts is kept as well. -/
def startPhase (state : H) : Op B P H D Unit := fun conn =>
  match onPhase (handler.start state) conn with
  | .ok next conn => .ok () { conn with state := .ok next }
  | .error (.err e) conn => .ok () { conn with state := .error e }
  | .error .panic conn => .error .panic conn

def start : Op B P H D Unit := do
  let state ← takeState
  startPhase handler state

def readTls (rd : Source) : Op B P H D (Option Nat) := fun conn =>
  match conn.messageDeframer.read rd with
  | .error _ => .error .panic conn
  | .ok (res, messageDeframer) =>
      .ok res { conn with
        messageDeframer
        common := { conn.common with hasSeenEof := conn.common.hasSeenEof || res = some 0 } }

def perhapsWriteKeyUpdate : Op B P H D Unit := fun conn =>
  match conn.state with
  | .ok state => if handler.updatesKeys state then .error .panic conn else .ok () conn
  | .error _ => .ok () conn

def writePlaintext (buf : List UInt8) : Op B P H D Nat := do
  perhapsWriteKeyUpdate handler
  onCommon (CommonState.sendSomePlaintext backend overflow buf)

def writeRound (buf : List UInt8) (pos : Nat) : Op B P H D (Round Nat Nat) := do
  if pos < buf.length then
    let n ← writePlaintext backend handler overflow (buf.drop pos)
    return .next (pos + n)
  else
    return .done pos

def writeAllPlaintext (fuel : Nat) (buf : List UInt8) :
    LoopM (Fault Error) (Connection B P H D) Nat := do
  let pos ← LoopM.loop fuel (writeRound backend handler overflow buf) 0
  LoopM.lift (flush backend)
  LoopM.loop fuel (outgoingRound backend) ()
  return pos

def writeTls (wr : Writer) (common : CommonState B) : CommonState B :=
  { common with sendableTls := (common.sendableTls.writeTo wr).2 }

def readPlaintext (buf : List UInt8) (common : CommonState B) : CommonState B :=
  { common with receivedPlaintext := (common.receivedPlaintext.read buf).2 }

end Connection

end Tlsn.Tls

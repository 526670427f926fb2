import Tlsn.Common.Transcript
import Tlsn.MpcTls.Decrypt

/-!
The record layer. Records to be encrypted and decrypted are buffered, and
processed together when the layer is flushed. Records that were not decrypted
online are decrypted when the connection is committed.
-/

namespace Tlsn.MpcTls

open Tlsn.Cipher Tlsn.Common Tlsn.Tls

def maxRecordSize : Nat := 1026 * 16

/-- This limits how much the leader can cause the follower to allocate. -/
def maxBufferSize : Nat := 16 * 1048576 / maxRecordSize

structure PlainRecord where
  typ : ContentType
  version : ProtocolVersion
  plaintext : Option (List UInt8)
deriving DecidableEq

structure EncryptedRecord where
  typ : ContentType
  version : ProtocolVersion
  explicitNonce : List UInt8
  ciphertext : List UInt8
  tag : Option (List UInt8)
deriving DecidableEq

inductive RecordLayerState where
  | init
  | online (recvOtp : Option (List UInt8)) (sentRecords recvRecords : List Record)
  | complete
  | error
deriving DecidableEq

namespace RecordLayerState

def setRecvOtp (recvOtp : Option (List UInt8)) : RecordLayerState → RecordLayerState
  | .online _ sent recv => .online recvOtp sent recv
  | state => state

def recvOtp : RecordLayerState → Option (List UInt8)
  | .online recvOtp _ _ => recvOtp
  | _ => none

def pushSent (record : Record) : RecordLayerState → RecordLayerState
  | .online recvOtp sent recv => .online recvOtp (sent ++ [record]) recv
  | state => state

def pushRecv (record : Record) : RecordLayerState → RecordLayerState
  | .online recvOtp sent recv => .online recvOtp sent (recv ++ [record])
  | state => state

end RecordLayerState

structure RecordLayer where
  role : Role
  writeSeq : Nat
  readSeq : Nat
  encrypter : MpcAesGcm
  decrypter : MpcAesGcm
  aesCtr : AesCtr
  state : RecordLayerState
  started : Bool
  sent : Nat
  recvOnline : Nat
  recv : Nat
  maxSent : Nat
  maxRecvOnline : Nat
  maxRecv : Nat
  encryptBuffer : List EncryptOp
  decryptBuffer : List DecryptOp
  encryptedBuffer : List EncryptedRecord
  decryptedBuffer : List PlainRecord

namespace MpcTlsError

def peerMsg (text : String) : Fault MpcTlsError := .err (.peer (.msg text))

def stateMsg (text : String) : Fault MpcTlsError := .err (.state (.msg text))

def otherMsg (text : String) : Fault MpcTlsError := .err (.other (.msg text))

end MpcTlsError

namespace RecordLayer

def new (role : Role) (encrypt decrypt : MpcAesGcm) : RecordLayer where
  role := role
  writeSeq := 0
  readSeq := 0
  encrypter := encrypt
  decrypter := decrypt
  aesCtr := AesCtr.new role
  state := .init
  started := false
  sent := 0
  recvOnline := 0
  recv := 0
  maxSent := 0
  maxRecvOnline := 0
  maxRecv := 0
  encryptBuffer := []
  decryptBuffer := []
  encryptedBuffer := []
  decryptedBuffer := []

/-! Operations of the parts. -/

def onEncrypter {α : Type} (x : EStateM (Fault MpcTlsError) (Vm × MpcAesGcm) α) :
    EStateM (Fault MpcTlsError) (Vm × RecordLayer) α :=
  Fault.zoom (fun s => (s.1, s.2.encrypter)) (fun t s => (t.1, { s.2 with encrypter := t.2 })) x

def onDecrypter {α : Type} (x : EStateM (Fault MpcTlsError) (Vm × MpcAesGcm) α) :
    EStateM (Fault MpcTlsError) (Vm × RecordLayer) α :=
  Fault.zoom (fun s => (s.1, s.2.decrypter)) (fun t s => (t.1, { s.2 with decrypter := t.2 })) x

/-- The decrypter together with the pad. -/
def onDecryptState {α : Type} (x : EStateM (Fault MpcTlsError) DecryptState α) :
    EStateM (Fault MpcTlsError) (Vm × RecordLayer) α :=
  Fault.zoom (fun s => ((s.1, s.2.decrypter), s.2.state.recvOtp))
    (fun t s => (t.1.1, { s.2 with decrypter := t.1.2, state := s.2.state.setRecvOtp t.2 })) x

def onAesCtr {α : Type} (x : EStateM (Fault MpcTlsError) (Vm × AesCtr) α) :
    EStateM (Fault MpcTlsError) (Vm × RecordLayer) α :=
  Fault.zoom (fun s => (s.1, s.2.aesCtr)) (fun t s => (t.1, { s.2 with aesCtr := t.2 })) x

/-! Setting up. -/

def setKeys (clientWriteKey clientIv serverWriteKey serverIv : Slice) (layer : RecordLayer) :
    RecordLayer :=
  { layer with
    encrypter := (layer.encrypter.setKey clientWriteKey).setIv clientIv
    decrypter := (layer.decrypter.setKey serverWriteKey).setIv serverIv
    aesCtr := layer.aesCtr.setKey serverWriteKey serverIv }

/-- What is drawn at random when the layer is allocated. -/
structure Pads where
  encrypt : Nat → Vector UInt8 16
  decrypt : Nat → Vector UInt8 16
  recvOtp : Nat → UInt8
  key : Vector UInt8 16
  iv : Vector UInt8 4

def takeInit : EStateM (Fault MpcTlsError) (Vm × RecordLayer) Unit := fun s =>
  match s.2.state with
  | .init => .ok () (s.1, { s.2 with state := .error })
  | _ => .error (MpcTlsError.otherMsg "record layer is already allocated")
      (s.1, { s.2 with state := .error })

def alloc (pads : Pads) (sentRecords recvRecords sentLen recvLenOnline recvLen : Nat) :
    EStateM (Fault MpcTlsError) (Vm × RecordLayer) Unit := do
  takeInit
  onEncrypter (Fault.adapt MpcTlsError.recordLayerAead
    (MpcAesGcm.alloc pads.encrypt sentRecords sentLen))
  onDecrypter (Fault.adapt MpcTlsError.recordLayerAead
    (MpcAesGcm.alloc pads.decrypt recvRecords recvLenOnline))
  onAesCtr (AesCtr.alloc pads.key pads.iv)
  modify fun s => (s.1,
    { s.2 with
      maxSent := wrap (s.2.maxSent + sentLen)
      maxRecvOnline := wrap (s.2.maxRecvOnline + recvLenOnline)
      maxRecv := wrap (s.2.maxRecv + recvLen)
      state := .online
        (match s.2.role with
        | .leader => some ((List.range recvLenOnline).map pads.recvOtp)
        | .follower => none) [] [] })

/-- Sets up the GHASH keys. -/
def setup (mem : Memory) (prepareEncrypt prepareDecrypt :
      List UInt8 → Except (Fault GhashError) Ghash) :
    EStateM (Fault MpcTlsError) (Vm × RecordLayer) Unit := do
  onEncrypter (Fault.onSnd (Fault.adapt MpcTlsError.recordLayerAead
    (MpcAesGcm.setup mem prepareEncrypt)))
  onDecrypter (Fault.onSnd (Fault.adapt MpcTlsError.recordLayerAead
    (MpcAesGcm.setup mem prepareDecrypt)))

def isEmpty (layer : RecordLayer) : Bool :=
  layer.encryptBuffer.isEmpty && layer.decryptBuffer.isEmpty && layer.encryptedBuffer.isEmpty &&
    layer.decryptedBuffer.isEmpty

def wantsFlush (layer : RecordLayer) : Bool :=
  !layer.encryptBuffer.isEmpty || !layer.decryptBuffer.isEmpty

def startTraffic (layer : RecordLayer) : RecordLayer := { layer with started := true }

/-! Pushing records. -/

def nextWrite (typ : ContentType) (version : ProtocolVersion) (len : Nat) (layer : RecordLayer) :
    (Nat × List UInt8 × List UInt8) × RecordLayer :=
  let seq := layer.writeSeq
  ((seq, beBytes 8 seq, makeTls12Aad seq typ version len),
    { layer with writeSeq := wrap (layer.writeSeq + 1) })

def nextRead (typ : ContentType) (version : ProtocolVersion) (len : Nat) (layer : RecordLayer) :
    (Nat × List UInt8) × RecordLayer :=
  let seq := layer.readSeq
  ((seq, makeTls12Aad seq typ version len), { layer with readSeq := wrap (layer.readSeq + 1) })

def exceedsSent (current additional max : Nat) : Fault MpcTlsError :=
  MpcTlsError.recordLayerMsg ("attempted to send more data than was configured, " ++
    "increase `max_sent` in the config: current=" ++ toString current ++ ", additional=" ++
    toString additional ++ ", max=" ++ toString max)

def exceedsRecv (current additional max : Nat) : Fault MpcTlsError :=
  MpcTlsError.recordLayerMsg ("attempted to receive more data than was configured, " ++
    "increase `max_recv` in the config: current=" ++ toString current ++ ", additional=" ++
    toString additional ++ ", max=" ++ toString max)

def exceedsRecvOnline (current additional max : Nat) : Fault MpcTlsError :=
  MpcTlsError.recordLayerMsg ("attempted to decrypt more data in the online phase than was " ++
    "configured, increase `max_recv_online` in the config: current=" ++ toString current ++
    ", additional=" ++ toString additional ++ ", max=" ++ toString max)

def pushEncrypt (typ : ContentType) (version : ProtocolVersion) (len : Nat)
    (plaintext : Option (List UInt8)) (mode : EncryptMode) :
    EStateM (Fault MpcTlsError) RecordLayer Unit := fun layer =>
  if layer.encryptBuffer.length ≥ maxBufferSize then
    .error (MpcTlsError.peerMsg "encrypt buffer is full") layer
  else if wrap (layer.sent + len) > layer.maxSent then
    .error (exceedsSent layer.sent len layer.maxSent) layer
  else
    let ((seq, explicitNonce, aad), layer) := layer.nextWrite typ version len
    let layer := { layer with sent := wrap (layer.sent + len) }
    match EncryptOp.new seq typ version len plaintext explicitNonce aad mode with
    | .ok op => .ok () { layer with encryptBuffer := layer.encryptBuffer ++ [op] }
    | .error e => .error e layer

def pushDecrypt (typ : ContentType) (version : ProtocolVersion)
    (explicitNonce ciphertext tag : List UInt8) (mode : DecryptMode) :
    EStateM (Fault MpcTlsError) RecordLayer Unit := fun layer =>
  if layer.decryptBuffer.length ≥ maxBufferSize then
    .error (MpcTlsError.peerMsg "decrypt buffer is full") layer
  else if wrap (layer.recv + ciphertext.length) > layer.maxRecv then
    .error (exceedsRecv layer.recv ciphertext.length layer.maxRecv) layer
  else
    let ((seq, aad), layer) := layer.nextRead typ version ciphertext.length
    .ok ()
      { layer with
        recv := wrap (layer.recv + ciphertext.length)
        decryptBuffer := layer.decryptBuffer ++
          [⟨seq, typ, version, explicitNonce, ciphertext, aad, tag, mode⟩] }

/-! Taking records out. -/

/-- Application data is held back until traffic has started. -/
def nextEncrypted (layer : RecordLayer) : Option EncryptedRecord × RecordLayer :=
  match layer.encryptedBuffer with
  | [] => (none, layer)
  | record :: records =>
      if !layer.started && record.typ = .applicationData then (none, layer)
      else (some record, { layer with encryptedBuffer := records })

def nextDecrypted (layer : RecordLayer) : Option PlainRecord × RecordLayer :=
  match layer.decryptedBuffer with
  | [] => (none, layer)
  | record :: records =>
      if !layer.started && record.typ = .applicationData then (none, layer)
      else (some record, { layer with decryptedBuffer := records })

/-! Flushing. -/

/-- The records to process. Those in front of the first application data are also
decrypted when application data is not. -/
def drain (isDecrypting : Bool) (layer : RecordLayer) :
    (List EncryptOp × List DecryptOp) × RecordLayer :=
  let decryptPos :=
    if isDecrypting then layer.decryptBuffer.length
    else layer.decryptBuffer.findIdx fun op => op.typ = .applicationData
  ((layer.encryptBuffer, layer.decryptBuffer.take decryptPos),
    { layer with encryptBuffer := [], decryptBuffer := layer.decryptBuffer.drop decryptPos })

def decryptLen (ops : List DecryptOp) : Nat :=
  wrap ((ops.map fun op => op.ciphertext.length).sum)

def countOnline (ops : List DecryptOp) :
    EStateM (Fault MpcTlsError) RecordLayer Unit := fun layer =>
  if wrap (layer.recvOnline + decryptLen ops) > layer.maxRecvOnline then
    .error (exceedsRecvOnline layer.recvOnline (decryptLen ops) layer.maxRecvOnline) layer
  else .ok () { layer with recvOnline := wrap (layer.recvOnline + decryptLen ops) }

/-- What a flush is to do once the machine has run. -/
structure FlushTask where
  encrypts : List (EncryptOp × PendingEncrypt)
  decrypts : List (DecryptOp × DecryptOutput)
  computeTags : ComputeTags
  verifyTags : VerifyTags

def prepareFlush (encryptOps : List EncryptOp) (decryptOps : List DecryptOp) :
    EStateM (Fault MpcTlsError) (Vm × RecordLayer) FlushTask := do
  let (pendingEncrypt, computeTags) ← onEncrypter (encrypt encryptOps)
  let pendingDecrypt ← onDecryptState (decryptMpc decryptOps)
  let verifyTags ← onDecrypter (verifyTags decryptOps)
  return ⟨encryptOps.zip pendingEncrypt, decryptOps.zip pendingDecrypt, computeTags, verifyTags⟩

/-- `Vec::pop` on the tags, if there are any. -/
def popTag (tags : Option (List (List UInt8))) : Option (List UInt8) × Option (List (List UInt8)) :=
  match tags with
  | none => (none, none)
  | some tags => (tags.getLast?, some tags.dropLast)

def finishEncrypt (mem : Memory) : List (EncryptOp × PendingEncrypt) →
    Option (List (List UInt8)) → EStateM (Fault MpcTlsError) RecordLayer Unit
  | [], _ => return ()
  | (op, pending) :: rest, tags => do
      let ciphertext ← Fault.lift (pending.output.tryEncrypt mem)
      let (tag, tags) := popTag tags
      modify fun layer =>
        { layer with
          encryptedBuffer := layer.encryptedBuffer ++
            [⟨op.typ, op.version, op.explicitNonce, ciphertext, tag⟩]
          state := layer.state.pushSent
            ⟨op.seq, op.typ, op.plaintext, pending.plaintextRef, op.explicitNonce, ciphertext⟩ }
      finishEncrypt mem rest tags

def finishDecrypt (mem : Memory) : List (DecryptOp × DecryptOutput) →
    EStateM (Fault MpcTlsError) RecordLayer Unit
  | [] => return ()
  | (op, pending) :: rest => do
      let plaintext ← Fault.lift (pending.tryDecrypt mem)
      modify fun layer =>
        { layer with
          decryptedBuffer := layer.decryptedBuffer ++ [⟨op.typ, op.version, plaintext⟩]
          state := layer.state.pushRecv
            ⟨op.seq, op.typ, plaintext, none, op.explicitNonce, op.ciphertext⟩ }
      finishDecrypt mem rest

variable {C D : Type}

/-- The tag tasks, and the machine. The tags are reversed, as they are popped from
the back. -/
def runFlush (scheme : HashCommit C D) (mem : Memory) (peer : PeerShares C D) (task : FlushTask) :
    EStateM (Fault MpcTlsError) (Vm × RecordLayer) Unit := do
  let tags ← Fault.lift (Fault.convert MpcTlsError.recordLayerAead
    (task.computeTags.run mem peer.computeShares))
  Fault.lift (Fault.convert MpcTlsError.recordLayerAead (task.verifyTags.run scheme mem peer))
  Fault.onSnd (finishEncrypt mem task.encrypts (tags.map List.reverse))
  Fault.onSnd (finishDecrypt mem task.decrypts)

def requireOnline (text : String) : EStateM (Fault MpcTlsError) (Vm × RecordLayer) Unit := fun s =>
  match s.2.state with
  | .online _ _ _ => .ok () s
  | _ => .error (MpcTlsError.stateMsg text) s

def drainBuffers (isDecrypting : Bool) :
    EStateM (Fault MpcTlsError) (Vm × RecordLayer) (List EncryptOp × List DecryptOp) := fun s =>
  .ok (s.2.drain isDecrypting).1 (s.1, (s.2.drain isDecrypting).2)

/-- The part of a flush before the parties exchange shares of tags. -/
def startFlush (isDecrypting : Bool) :
    EStateM (Fault MpcTlsError) (Vm × RecordLayer) (Option FlushTask) := do
  requireOnline "record layer must be in online state to flush"
  let (encryptOps, decryptOps) ← drainBuffers isDecrypting
  if encryptOps.isEmpty && decryptOps.isEmpty then return none
  else
    if isDecrypting then Fault.onSnd (countOnline decryptOps)
    return some (← prepareFlush encryptOps decryptOps)

def flush (scheme : HashCommit C D) (mem : Memory) (peer : PeerShares C D) (isDecrypting : Bool) :
    EStateM (Fault MpcTlsError) (Vm × RecordLayer) Unit := do
  match ← startFlush isDecrypting with
  | none => return ()
  | some task => runFlush scheme mem peer task

/-! Committing. -/

/-- `State::take` leaves the error state. -/
def takeOnline :
    EStateM (Fault MpcTlsError) (Vm × RecordLayer) (List Record × List Record) := fun s =>
  match s.2.state with
  | .online _ sent recv => .ok (sent, recv) (s.1, { s.2 with state := .error })
  | _ => .error (MpcTlsError.stateMsg "record layer must be in online state to commit")
      (s.1, { s.2 with state := .error })

def takeBuffered : EStateM (Fault MpcTlsError) (Vm × RecordLayer) (List DecryptOp) := fun s =>
  if s.2.encryptBuffer.isEmpty then
    .ok s.2.decryptBuffer (s.1, { s.2 with decryptBuffer := [] })
  else
    .error (MpcTlsError.stateMsg "record layer cannot commit with pending encrypt operations") s

/-- The records decrypted at last, as they are added to the ones received. -/
def finishCommit (mem : Memory) : List (DecryptOp × DecryptOutput) → List Record →
    EStateM (Fault MpcTlsError) RecordLayer (List Record)
  | [], recv => return recv
  | (op, pending) :: rest, recv => do
      let plaintext ← Fault.lift (pending.tryDecrypt mem)
      modify fun layer =>
        { layer with
          decryptedBuffer := layer.decryptedBuffer ++ [⟨op.typ, op.version, plaintext⟩] }
      finishCommit mem rest
        (recv ++ [⟨op.seq, op.typ, plaintext, none, op.explicitNonce, op.ciphertext⟩])

/-- Verifies the tags of the records that were not decrypted, reveals the key of the
server to the leader, and decrypts them. -/
def commit (scheme : HashCommit C D) (cipher : LocalAesCtr) (mem : Memory) (peer : PeerShares C D) :
    EStateM (Fault MpcTlsError) (Vm × RecordLayer) TlsTranscript := do
  let (sent, recv) ← takeOnline
  let ops ← takeBuffered
  let verifyTags ← onDecrypter (verifyTags ops)
  Fault.lift (Fault.convert MpcTlsError.recordLayerAead (verifyTags.run scheme mem peer))
  onAesCtr AesCtr.decodeKey
  onAesCtr (Fault.onSnd (AesCtr.finishDecode mem))
  let aesCtr := (← get).2.aesCtr
  let pending ← onDecrypter (decryptLocal (← get).2.role cipher aesCtr ops)
  let recv ← Fault.onSnd (finishCommit mem (ops.zip pending) recv)
  modify fun s => (s.1, { s.2 with state := .complete })
  return ⟨sent, recv⟩

end RecordLayer

end Tlsn.MpcTls

import Tlsn.MpcTls.Follower

/-!
The leader: the backend of the TLS client. It sends the follower a message for each
operation in which the two take part, before it carries the operation out, or after
it has pushed a record.
-/

namespace Tlsn.MpcTls

open Tlsn.Cipher Tlsn.Common Tlsn.Tls

structure OpaqueMessage where
  typ : ContentType
  version : ProtocolVersion
  payload : Bytes
deriving DecidableEq

structure PlainMessage where
  typ : ContentType
  version : ProtocolVersion
  payload : Bytes
deriving DecidableEq

/-- The source of an error is kept in place of its text. -/
inductive BackendError where
  | invalidState (source : MpcTlsError)
  | invalidServerKey
  | internalError (source : MpcTlsError)
deriving DecidableEq

/-- `Vec::split_off` -/
def splitOff (bytes : List UInt8) (i : Nat) :
    Except (Fault MpcTlsError) (List UInt8 × List UInt8) :=
  if bytes.length < i then throw .panic else return (bytes.take i, bytes.drop i)

/-- The explicit nonce, the ciphertext and the tag. -/
def opaqueIntoParts (msg : Bytes) :
    Except (Fault MpcTlsError) (List UInt8 × List UInt8 × List UInt8) := do
  let (msg, tag) ← splitOff msg.val (wrapSub msg.val.length 16)
  let (explicitNonce, ciphertext) ← splitOff msg 8
  if explicitNonce.length ≠ 8 then
    throw (MpcTlsError.otherMsg "explicit nonce length is not 8")
  else return (explicitNonce, ciphertext, tag)

/-- The capacity of a vector is limited. -/
def Bytes.new (bytes : List UInt8) : Except (Fault MpcTlsError) Bytes :=
  if h : bytes.length < wordSize then .ok ⟨bytes, h⟩ else .error .panic

inductive LeaderState where
  | init
  | setup
  | handshake
  | active
  | closed (transcript : TlsTranscript)
  | error
deriving DecidableEq

def LeaderState.display : LeaderState → String
  | .init => "Init"
  | .setup => "Setup"
  | .handshake => "Handshake"
  | .active => "Active"
  | .closed _ => "Closed"
  | .error => "Error"

/-- What the TLS client tells the leader about the handshake. The details of the
certificate and of the key exchange are kept as they are encoded. -/
structure HandshakeDetails where
  protocolVersion : Option ProtocolVersion
  cipherSuite : Option UInt16
  serverRandom : Option (Vector UInt8 32)
  serverCertDetails : Option (List UInt8)
  serverKey : Option PublicKey
  serverKxDetails : Option (List UInt8)
deriving DecidableEq

/-- In the error state nothing but the state is read. -/
structure Leader (K P : Type) where
  state : LeaderState
  vm : Vm
  ke : K
  prf : P
  recordLayer : RecordLayer
  details : HandshakeDetails
  isDecrypting : Bool
  /-- Whether the notification is set. -/
  notified : Bool
  /-- What was sent to the follower. -/
  sent : List Message

namespace Leader

variable {K P C D : Type}

abbrev Op (K P α : Type) := EStateM (Fault BackendError) (Leader K P) α

def fail {α : Type} (e : Fault MpcTlsError) : Op K P α := throw (e.map .internalError)

def stateError {α : Type} (text : String) : Op K P α := fail (MpcTlsError.stateMsg text)

def hsError {α : Type} (text : String) : Op K P α := fail (MpcTlsError.hs text)

/-- The source's `match` on the state. -/
def require (allowed : LeaderState → Bool) (text : LeaderState → String) : Op K P Unit := do
  let state := (← get).state
  if allowed state then return () else stateError (text state)

def isHandshake (state : LeaderState) : Bool := state = .handshake

def isActive (state : LeaderState) : Bool := state = .active

def isClosed : LeaderState → Bool
  | .closed _ => true
  | _ => false

/-- The states in which records are pushed. -/
def pushes (state : LeaderState) : Bool := isHandshake state || isActive state

/-- The states in which there is a record layer to take records from. -/
def pulls (state : LeaderState) : Bool := pushes state || isClosed state

/-- `State::take` -/
def take : Op K P Unit := modify fun s => { s with state := .error }

def setState (state : LeaderState) : Op K P Unit := modify fun s => { s with state := state }

def send (message : Message) : Op K P Unit :=
  modify fun s => { s with sent := s.sent ++ [message] }

def onKe {α : Type} (error : MpcTlsError → BackendError)
    (x : EStateM (Fault MpcTlsError) K α) : Op K P α :=
  Fault.adapt error (Fault.zoom Leader.ke (fun ke s => { s with ke := ke }) x)

/-- What is issued to the machine is logged. -/
def issue (x : Op K P (List VmOp)) : Op K P Unit := do
  let ops ← x
  modify fun s => { s with vm := s.vm.push ops }

def onPrf (x : EStateM (Fault MpcTlsError) P (List VmOp)) : Op K P Unit :=
  issue (Fault.adapt .internalError (Fault.zoom Leader.prf (fun prf s => { s with prf := prf }) x))

def onLayer {α : Type} (x : EStateM (Fault MpcTlsError) (Vm × RecordLayer) α) : Op K P α :=
  Fault.adapt .internalError (Fault.zoom (fun s => (s.vm, s.recordLayer))
    (fun t s => { s with vm := t.1, recordLayer := t.2 }) x)

def ofExcept {α : Type} (x : Except (Fault MpcTlsError) α) : Op K P α :=
  Fault.lift (x.mapError (Fault.map .internalError))

def executeAll (session : Session K P C D) : Op K P Unit := do
  ofExcept (session.executeAll (← get).vm)

/-! ## The handshake -/

/-- The setters of what the client learns. -/
def setDetail (name : String) (set : HandshakeDetails → HandshakeDetails) : Op K P Unit := do
  require isHandshake fun _ => "must be in handshake state to set " ++ name
  modify fun s => { s with details := set s.details }

def setProtocolVersion (version : ProtocolVersion) : Op K P Unit :=
  setDetail "protocol version" fun d => { d with protocolVersion := some version }

def setCipherSuite (suite : UInt16) : Op K P Unit :=
  setDetail "cipher suite" fun d => { d with cipherSuite := some suite }

def setServerCertDetails (details : List UInt8) : Op K P Unit :=
  setDetail "server cert details" fun d => { d with serverCertDetails := some details }

def setServerKxDetails (details : List UInt8) : Op K P Unit :=
  setDetail "server kx details" fun d => { d with serverKxDetails := some details }

def setServerRandom (session : Session K P C D) (random : Vector UInt8 32) : Op K P Unit := do
  require isHandshake fun _ => "must be in handshake state to set server random"
  send (.setServerRandom random)
  onPrf (session.prf.setServerRandom random)
  modify fun s => { s with details := { s.details with serverRandom := some random } }

def setServerKeyShare (key : PublicKey) : Op K P Unit := do
  require isHandshake fun _ => "must be in handshake state to set server key share"
  if key.group ≠ .secp256r1 then throw (.err .invalidServerKey)
  else
    send (.setServerKey key)
    modify fun s => { s with details := { s.details with serverKey := some key } }

/-- `<[u8; 32]>::try_from` -/
def toHash (hash : List UInt8) : Option (Vector UInt8 32) :=
  if h : hash.length = 32 then some ⟨hash.toArray, h⟩ else none

def decodedVd (text : String) (vd : Vm → Except (Fault MpcTlsError) (Option (List UInt8))) :
    Op K P (List UInt8) := do
  match ← ofExcept (vd (← get).vm) with
  | none => hsError text
  | some vd => return vd

def finishedVd (session : Session K P C D) (party short : String)
    (message : Vector UInt8 32 → Message)
    (setHash : Vector UInt8 32 → EStateM (Fault MpcTlsError) P (List VmOp))
    (vd : Vm → Except (Fault MpcTlsError) (Option (List UInt8))) (hash : List UInt8) :
    Op K P (List UInt8) := do
  require isActive fun _ => "must be in active state to get " ++ party ++ " finished vd"
  match toHash hash with
  | none => hsError (party ++ " finished handshake hash is not 32 bytes")
  | some hash => do
      send (message hash)
      onPrf (setHash hash)
      executeAll session
      decodedVd (short ++ " is not decoded") vd

def getServerFinishedVd (session : Session K P C D) (hash : List UInt8) : Op K P (List UInt8) :=
  finishedVd session "server" "sf_vd" .serverFinishedVd session.prf.setSfHash session.sfVd hash

def getClientFinishedVd (session : Session K P C D) (hash : List UInt8) : Op K P (List UInt8) :=
  finishedVd session "client" "cf_vd" .clientFinishedVd session.prf.setCfHash session.cfVd hash

/-- `ok_or_else` -/
def okOr {α : Type} (name : String) : Option α → Op K P α
  | none => hsError (name ++ " is not set")
  | some a => return a

def prepareEncryption (session : Session K P C D) : Op K P Unit := do
  let state := (← get).state
  take
  if !isHandshake state then
    stateError "must be in handshake state to prepare encryption"
  else
    let details := (← get).details
    let _ ← okOr "protocol version" details.protocolVersion
    let _ ← okOr "cipher suite" details.cipherSuite
    let _ ← okOr "server random" details.serverRandom
    let _ ← okOr "server cert details" details.serverCertDetails
    let serverKey ← okOr "server key" details.serverKey
    let _ ← okOr "server kx details" details.serverKxDetails
    if !session.parsesKey serverKey.key then hsError "crypto error"
    else
      onKe .invalidState (session.ke.setServerKey serverKey.key)
      onKe .internalError session.ke.computeShares
      issue (onKe .internalError session.ke.assign)
      executeAll session
      onKe .internalError session.ke.finalize
      onLayer (RecordLayer.setup session.mem session.prepareEncrypt session.prepareDecrypt)
      setState .active

/-! ## Records -/

/-- The mode of a record: application data is private. -/
def encryptMode (typ : ContentType) : EncryptMode :=
  if typ = .applicationData then .isPrivate else .isPublic

def decryptMode (typ : ContentType) : DecryptMode :=
  if typ = .applicationData then .isPrivate else .isPublic

def pushIncoming (msg : OpaqueMessage) : Op K P Unit := do
  require pushes fun state => "can not push incoming message in state: " ++ state.display
  let (explicitNonce, ciphertext, tag) ← ofExcept (opaqueIntoParts msg.payload)
  let ciphertext ← ofExcept (Bytes.new ciphertext)
  let mode := decryptMode msg.typ
  onLayer (Fault.onSnd
    (RecordLayer.pushDecrypt msg.typ msg.version explicitNonce ciphertext.val tag mode))
  send (.decrypt msg.typ msg.version explicitNonce ciphertext tag mode)

def plainMessage (record : PlainRecord) : Except (Fault MpcTlsError) PlainMessage :=
  match record.plaintext with
  | none => throw .panic
  | some plaintext => do return ⟨record.typ, record.version, ← Bytes.new plaintext⟩

def opaqueMessage (record : EncryptedRecord) : Except (Fault MpcTlsError) OpaqueMessage :=
  match record.tag with
  | none => throw .panic
  | some tag => do
      return ⟨record.typ, record.version,
        ← Bytes.new (record.explicitNonce ++ record.ciphertext ++ tag)⟩

/-- The next record, as a message. -/
def pull {R M : Type} (next : RecordLayer → Option R × RecordLayer)
    (toMessage : R → Except (Fault MpcTlsError) M) : Op K P (Option M) := do
  let (record, layer) := next (← get).recordLayer
  modify fun s => { s with recordLayer := layer }
  match record with
  | none => return none
  | some record => some <$> ofExcept (toMessage record)

def nextIncoming : Op K P (Option PlainMessage) := do
  require pulls fun state => "can not pull next incoming message in state: " ++ state.display
  pull RecordLayer.nextDecrypted plainMessage

def pushOutgoing (msg : PlainMessage) : Op K P Unit := do
  require pushes fun state => "can not push outgoing message in state: " ++ state.display
  let plaintext := msg.payload.val
  let mode := encryptMode msg.typ
  onLayer (Fault.onSnd
    (RecordLayer.pushEncrypt msg.typ msg.version plaintext.length (some plaintext) mode))
  send (.encrypt msg.typ msg.version ⟨plaintext.length, msg.payload.property⟩
    (match mode with
    | .isPrivate => none
    | .isPublic => some plaintext) mode)

def nextOutgoing : Op K P (Option OpaqueMessage) := do
  require pulls fun state => "can not pull next outgoing message in state: " ++ state.display
  pull RecordLayer.nextEncrypted opaqueMessage

def startTraffic : Op K P Unit := do
  require isActive fun state => "can not start traffic in state: " ++ state.display
  modify fun s => { s with recordLayer := s.recordLayer.startTraffic }
  send .startTraffic

def flushLayer (session : Session K P C D) (peer : PeerShares C D) : Op K P Unit := do
  let isDecrypting := (← get).isDecrypting
  send (.flush isDecrypting)
  onLayer (RecordLayer.flush session.scheme session.mem peer isDecrypting)

/-- In the handshake there is nothing to flush with. -/
def flush (session : Session K P C D) (peer : PeerShares C D) : Op K P Unit := do
  let s ← get
  if isHandshake s.state then return ()
  else
    require (fun state => isActive state || isClosed state) fun state =>
      "can not flush record layer in state: " ++ state.display
    if !s.recordLayer.wantsFlush then return () else flushLayer session peer

def isEmpty : Op K P Bool := do
  let s ← get
  return if isActive s.state || isClosed s.state then s.recordLayer.isEmpty else true

def deferDecryption : Op K P Unit :=
  modify fun s => { s with isDecrypting := false, notified := false }

def closeConnection (session : Session K P C D) (peer : PeerShares C D) : Op K P Unit := do
  let state := (← get).state
  take
  if !isActive state then stateError "must be in active state to close connection"
  else
    send .closeConnection
    let transcript ←
      onLayer (RecordLayer.commit session.scheme session.cipher session.mem peer)
    modify fun s =>
      { s with
        notified := s.notified || !s.recordLayer.isEmpty
        state := .closed transcript }

end Leader

end Tlsn.MpcTls

import Tlsn.MpcTls.Message
import Tlsn.Tls.Messages

/-!
The follower. It processes the messages of the leader until the connection is
closed, commits the record layer, and checks that the transcript is one of a
connection. What the key exchange and the PRF do to the machine is what they issue
to it.
-/

namespace Tlsn.MpcTls

open Tlsn.Cipher Tlsn.Common Tlsn.Tls

/-- A key exchange, with what it exchanges with the peer. -/
structure KeyExchange (K : Type) where
  setServerKey : List UInt8 → EStateM (Fault MpcTlsError) K Unit
  computeShares : EStateM (Fault MpcTlsError) K Unit
  assign : EStateM (Fault MpcTlsError) K (List VmOp)
  finalize : EStateM (Fault MpcTlsError) K Unit

structure Prf (P : Type) where
  setServerRandom : Vector UInt8 32 → EStateM (Fault MpcTlsError) P (List VmOp)
  setCfHash : Vector UInt8 32 → EStateM (Fault MpcTlsError) P (List VmOp)
  setSfHash : Vector UInt8 32 → EStateM (Fault MpcTlsError) P (List VmOp)

/-- What the parties work with. -/
structure Session (K P C D : Type) where
  ke : KeyExchange K
  prf : Prf P
  /-- Whether bytes are a public key. -/
  parsesKey : List UInt8 → Bool
  executeAll : Vm → Except (Fault MpcTlsError) Unit
  /-- The verify data, as far as it is decoded. -/
  cfVd : Vm → Except (Fault MpcTlsError) (Option (List UInt8))
  sfVd : Vm → Except (Fault MpcTlsError) (Option (List UInt8))
  prepareEncrypt : List UInt8 → Except (Fault GhashError) Ghash
  prepareDecrypt : List UInt8 → Except (Fault GhashError) Ghash
  scheme : HashCommit C D
  mem : Memory
  cipher : LocalAesCtr
  otherPayloads : OtherPayloads

namespace MpcTlsError

def hs (text : String) : Fault MpcTlsError := .err (.handshake (.msg text))

/-- Calls whose error is one of the record layer. -/
def recordLayerNested (e : MpcTlsError) : MpcTlsError := .nested e

end MpcTlsError

/-! ## The transcript -/

def debugBytes (bytes : List UInt8) : String :=
  "[" ++ String.intercalate ", " (bytes.map fun b => toString b.toNat) ++ "]"

def debugContentType : ContentType → String
  | .changeCipherSpec => "ChangeCipherSpec"
  | .alert => "Alert"
  | .handshake => "Handshake"
  | .applicationData => "ApplicationData"
  | .heartbeat => "Heartbeat"
  | .unknown x => "Unknown(" ++ toString x.toNat ++ ")"

/-- The words for one direction of the connection. -/
structure Direction where
  party : String
  verb : String

namespace Direction

def sent : Direction := ⟨"client", "sent"⟩

def recv : Direction := ⟨"server", "received"⟩

variable (direction : Direction)

def finishedHidden : Fault MpcTlsError :=
  MpcTlsError.recordLayerMsg (direction.party ++ " finished message was hidden from the follower")

def notHandshake : Fault MpcTlsError :=
  MpcTlsError.recordLayerMsg
    ("first record " ++ direction.verb ++ " was not a handshake message")

def notFinished : Fault MpcTlsError :=
  MpcTlsError.recordLayerMsg
    ("first record " ++ direction.verb ++ " was not a " ++ direction.party ++ " finished message")

def mismatch (vd actual : List UInt8) : Fault MpcTlsError :=
  MpcTlsError.recordLayerMsg (direction.party ++
    " finished verify data does not match output from PRF: " ++ debugBytes vd ++ " != Payload(" ++
    debugBytes actual ++ ")")

def noRecords : Fault MpcTlsError :=
  MpcTlsError.recordLayerMsg ("no records were " ++ direction.verb)

def notCloseNotify : Fault MpcTlsError :=
  MpcTlsError.recordLayerMsg (direction.verb ++ " alert that is not close notify")

def unexpectedType (typ : ContentType) : Fault MpcTlsError :=
  MpcTlsError.recordLayerMsg (direction.verb ++ " unexpected record content type: " ++
    debugContentType typ)

end Direction

/-- The first record is a Finished message with this verify data. -/
def validateFinished (direction : Direction) (other : OtherPayloads) (vd : List UInt8) :
    List Record → Except (Fault MpcTlsError) Unit
  | [] => throw direction.noRecords
  | record :: _ =>
      match record.plaintext with
      | none => throw direction.finishedHidden
      | some payload =>
          match HandshakePayload.readVersion other .tlsV1_2 payload with
          | none => throw direction.notHandshake
          | some .other => throw direction.notFinished
          | some (.finished actual) =>
              if vd ≠ actual then throw (direction.mismatch vd actual) else return ()

def validateLast (direction : Direction) (records : List Record) :
    Except (Fault MpcTlsError) Unit :=
  match records.getLast? with
  | none => return ()
  | some record =>
      match record.typ with
      | .applicationData => return ()
      | .alert =>
          match record.plaintext with
          | none =>
              throw (MpcTlsError.recordLayerMsg "alert content was hidden from the follower")
          | some payload =>
              match AlertMessagePayload.read payload with
              | none => throw (MpcTlsError.recordLayerMsg "alert message was malformed")
              | some alert =>
                  if alert.description ≠ closeNotify then throw direction.notCloseNotify
                  else return ()
      | typ => throw (direction.unexpectedType typ)

def validateOthers (direction : Direction) : List Record → Except (Fault MpcTlsError) Unit
  | [] => return ()
  | record :: records =>
      if record.typ ≠ .applicationData then throw (direction.unexpectedType record.typ)
      else validateOthers direction records

/-- The first records are Finished messages, the last ones application data or
close_notify, and all others application data. -/
def validateTranscript (other : OtherPayloads) (cfVd sfVd : List UInt8)
    (transcript : TlsTranscript) : Except (Fault MpcTlsError) Unit := do
  validateFinished .sent other cfVd transcript.sent
  validateFinished .recv other sfVd transcript.recv
  validateLast .sent transcript.sent.tail
  validateLast .recv transcript.recv.tail
  validateOthers .sent transcript.sent.tail.dropLast
  validateOthers .recv transcript.recv.tail.dropLast

/-! ## Messages -/

structure FollowerState (K P : Type) where
  vm : Vm
  ke : K
  prf : P
  recordLayer : RecordLayer
  serverRandom : Option (Vector UInt8 32)
  serverKey : Option PublicKey
  cfVd : Option (List UInt8)
  sfVd : Option (List UInt8)

structure FollowerData where
  serverKey : PublicKey
  transcript : TlsTranscript

namespace Follower

variable {K P C D : Type}

def onKe {α : Type} (x : EStateM (Fault MpcTlsError) K α) :
    EStateM (Fault MpcTlsError) (FollowerState K P) α :=
  Fault.zoom FollowerState.ke (fun ke s => { s with ke := ke }) x

/-- What is issued to the machine is logged. -/
def issue (x : EStateM (Fault MpcTlsError) (FollowerState K P) (List VmOp)) :
    EStateM (Fault MpcTlsError) (FollowerState K P) Unit := do
  let ops ← x
  modify fun s => { s with vm := s.vm.push ops }

def onPrf (x : EStateM (Fault MpcTlsError) P (List VmOp)) :
    EStateM (Fault MpcTlsError) (FollowerState K P) Unit :=
  issue (Fault.zoom FollowerState.prf (fun prf s => { s with prf := prf }) x)

def onLayer {α : Type} (x : EStateM (Fault MpcTlsError) (Vm × RecordLayer) α) :
    EStateM (Fault MpcTlsError) (FollowerState K P) α :=
  Fault.zoom (fun s => (s.vm, s.recordLayer))
    (fun t s => { s with vm := t.1, recordLayer := t.2 }) x

def executeAll (session : Session K P C D) :
    EStateM (Fault MpcTlsError) (FollowerState K P) Unit := do
  Fault.lift (session.executeAll (← get).vm)

def setServerRandom (session : Session K P C D) (random : Vector UInt8 32) :
    EStateM (Fault MpcTlsError) (FollowerState K P) Unit := do
  if (← get).serverRandom.isSome then throw (MpcTlsError.hs "server random already set")
  else
    onPrf (session.prf.setServerRandom random)
    modify fun s => { s with serverRandom := some random }

def setServerKey (session : Session K P C D) (key : PublicKey) :
    EStateM (Fault MpcTlsError) (FollowerState K P) Unit := do
  if (← get).serverKey.isSome then throw (MpcTlsError.hs "server key already set")
  else if key.group ≠ .secp256r1 then throw (MpcTlsError.hs "unsupported server key group")
  else if !session.parsesKey key.key then throw (MpcTlsError.hs "failed to parse server key")
  else
    onKe (session.ke.setServerKey key.key)
    modify fun s => { s with serverKey := some key }
    onKe session.ke.computeShares
    issue (onKe session.ke.assign)
    executeAll session
    onKe session.ke.finalize
    onLayer (RecordLayer.setup session.mem session.prepareEncrypt session.prepareDecrypt)

def decodedVd (text : String) (vd : Vm → Except (Fault MpcTlsError) (Option (List UInt8))) :
    EStateM (Fault MpcTlsError) (FollowerState K P) (List UInt8) := do
  match ← Fault.lift (vd (← get).vm) with
  | none => throw (MpcTlsError.hs text)
  | some vd => return vd

/-- Computes verify data, once. -/
def computeVd (session : Session K P C D) (already missing : String)
    (current : FollowerState K P → Option (List UInt8))
    (set : List UInt8 → FollowerState K P → FollowerState K P)
    (setHash : EStateM (Fault MpcTlsError) P (List VmOp))
    (vd : Vm → Except (Fault MpcTlsError) (Option (List UInt8))) :
    EStateM (Fault MpcTlsError) (FollowerState K P) Unit := do
  if (current (← get)).isSome then throw (MpcTlsError.hs already)
  else
    onPrf setHash
    executeAll session
    let vd ← decodedVd missing vd
    modify (set vd)

def clientFinishedVd (session : Session K P C D) (hash : Vector UInt8 32) :
    EStateM (Fault MpcTlsError) (FollowerState K P) Unit :=
  computeVd session "client finished VD already computed" "client finished VD not computed"
    FollowerState.cfVd (fun vd s => { s with cfVd := some vd }) (session.prf.setCfHash hash)
    session.cfVd

def serverFinishedVd (session : Session K P C D) (hash : Vector UInt8 32) :
    EStateM (Fault MpcTlsError) (FollowerState K P) Unit :=
  computeVd session "server finished VD already computed" "server finished VD not computed"
    FollowerState.sfVd (fun vd s => { s with sfVd := some vd }) (session.prf.setSfHash hash)
    session.sfVd

/-- One message, with the shares which the leader sends while it is processed. -/
def process (session : Session K P C D) (peer : PeerShares C D) (message : Message) :
    EStateM (Fault MpcTlsError) (FollowerState K P) Unit :=
  match message with
  | .setServerRandom random => setServerRandom session random
  | .setServerKey key => setServerKey session key
  | .clientFinishedVd hash => clientFinishedVd session hash
  | .serverFinishedVd hash => serverFinishedVd session hash
  | .encrypt typ version len plaintext mode =>
      onLayer (Fault.adapt MpcTlsError.recordLayerNested
        (Fault.onSnd (RecordLayer.pushEncrypt typ version len plaintext mode)))
  | .decrypt typ version explicitNonce ciphertext tag mode =>
      onLayer (Fault.adapt MpcTlsError.recordLayerNested
        (Fault.onSnd (RecordLayer.pushDecrypt typ version explicitNonce ciphertext.val tag mode)))
  | .startTraffic => onLayer (modify fun s => (s.1, s.2.startTraffic))
  | .flush isDecrypting =>
      onLayer (RecordLayer.flush session.scheme session.mem peer isDecrypting)
  | .closeConnection => return ()

/-- Processes messages until the connection is closed. What the leader sends in the
commit comes with the last of them. -/
def loop (session : Session K P C D) :
    List (Message × PeerShares C D) →
      EStateM (Fault MpcTlsError) (FollowerState K P) (PeerShares C D)
  | [] => throw (.err .io)
  | (message, peer) :: messages =>
      match message with
      | .closeConnection => return peer
      | message => do
          process session peer message
          loop session messages

/-- `Option::ok_or` -/
def okOr {α : Type} (text : String) (x : Option α) :
    EStateM (Fault MpcTlsError) (FollowerState K P) α :=
  match x with
  | none => throw (MpcTlsError.hs text)
  | some a => return a

def run (session : Session K P C D) (messages : List (Message × PeerShares C D)) :
    EStateM (Fault MpcTlsError) (FollowerState K P) FollowerData := do
  let peer ← loop session messages
  let transcript ← onLayer (RecordLayer.commit session.scheme session.cipher session.mem peer)
  let serverKey ← okOr "server key not set" (← get).serverKey
  let cfVd ← okOr "client finished VD not computed" (← get).cfVd
  let sfVd ← okOr "server finished VD not computed" (← get).sfVd
  Fault.lift (validateTranscript session.otherPayloads cfVd sfVd transcript)
  return ⟨serverKey, transcript⟩

/-- The follower has allocated what it needs, and has not processed anything. -/
structure Ready (p : LayerParams) (s : FollowerState K P) : Prop where
  role : p.role = .follower
  alloc : ∃ vm s₁, p.alloc (vm, p.create) = .ok () s₁ ∧ s.recordLayer = s₁.2 ∧ s₁.1.Extends s.vm
  serverRandom : s.serverRandom = none
  serverKey : s.serverKey = none
  cfVd : s.cfVd = none
  sfVd : s.sfVd = none

/-- The follower once it has allocated what it needs. -/
def allocated (ke : K) (prf : P) (s : Vm × RecordLayer) : FollowerState K P :=
  ⟨s.1, ke, prf, s.2, none, none, none, none⟩

theorem ready_allocated {p : LayerParams} {vm : Vm} {s : Vm × RecordLayer} {ke : K} {prf : P}
    (hrole : p.role = .follower) (halloc : p.alloc (vm, p.create) = .ok () s) :
    Ready p (allocated ke prf s) :=
  ⟨hrole, ⟨vm, s, halloc, rfl, Vm.Extends.refl _⟩, rfl, rfl, rfl, rfl⟩

end Follower

end Tlsn.MpcTls

import Tlsn.Library.Triple
import Tlsn.MpcTls.Leader

/-!
Runs of the leader: the operations of its backend, in any order, whether they succeed
or fail. An invariant of the record layer which each of its operations keeps is one of
the leader.
-/

namespace Tlsn.MpcTls

open Tlsn.Cipher Tlsn.Common Tlsn.Tls

inductive LeaderOp (C D : Type) where
  | setProtocolVersion (version : ProtocolVersion)
  | setCipherSuite (suite : UInt16)
  | setServerRandom (random : Vector UInt8 32)
  | setServerKeyShare (key : PublicKey)
  | setServerCertDetails (details : List UInt8)
  | setServerKxDetails (details : List UInt8)
  | getServerFinishedVd (hash : List UInt8)
  | getClientFinishedVd (hash : List UInt8)
  | prepareEncryption
  | pushIncoming (msg : OpaqueMessage)
  | nextIncoming
  | pushOutgoing (msg : PlainMessage)
  | nextOutgoing
  | startTraffic
  | flush (peer : PeerShares C D)
  | isEmpty
  | deferDecryption
  | closeConnection (peer : PeerShares C D)

/-- What an operation returns. -/
inductive LeaderReply where
  | done
  | finishedVd (vd : List UInt8)
  | incoming (msg : Option PlainMessage)
  | outgoing (msg : Option OpaqueMessage)
  | empty (isEmpty : Bool)
deriving DecidableEq

/-- An operation which returned, and what it returned. -/
abbrev LeaderEvent (C D : Type) := LeaderOp C D × LeaderReply

variable {K P C D : Type}

def LeaderOp.run (session : Session K P C D) : LeaderOp C D → Leader.Op K P LeaderReply
  | .setProtocolVersion version => (fun _ => .done) <$> Leader.setProtocolVersion version
  | .setCipherSuite suite => (fun _ => .done) <$> Leader.setCipherSuite suite
  | .setServerRandom random => (fun _ => .done) <$> Leader.setServerRandom session random
  | .setServerKeyShare key => (fun _ => .done) <$> Leader.setServerKeyShare key
  | .setServerCertDetails details => (fun _ => .done) <$> Leader.setServerCertDetails details
  | .setServerKxDetails details => (fun _ => .done) <$> Leader.setServerKxDetails details
  | .getServerFinishedVd hash => .finishedVd <$> Leader.getServerFinishedVd session hash
  | .getClientFinishedVd hash => .finishedVd <$> Leader.getClientFinishedVd session hash
  | .prepareEncryption => (fun _ => .done) <$> Leader.prepareEncryption session
  | .pushIncoming msg => (fun _ => .done) <$> Leader.pushIncoming msg
  | .nextIncoming => .incoming <$> Leader.nextIncoming
  | .pushOutgoing msg => (fun _ => .done) <$> Leader.pushOutgoing msg
  | .nextOutgoing => .outgoing <$> Leader.nextOutgoing
  | .startTraffic => (fun _ => .done) <$> Leader.startTraffic
  | .flush peer => (fun _ => .done) <$> Leader.flush session peer
  | .isEmpty => .empty <$> Leader.isEmpty
  | .deferDecryption => (fun _ => .done) <$> Leader.deferDecryption
  | .closeConnection peer => (fun _ => .done) <$> Leader.closeConnection session peer

namespace Leader

/-- The leader has allocated what it needs, and the handshake is to begin. -/
structure Ready (p : LayerParams) (s : Leader K P) : Prop where
  role : p.role = .leader
  alloc : ∃ vm s₁, p.alloc (vm, p.create) = .ok () s₁ ∧ s.recordLayer = s₁.2 ∧ s₁.1.Extends s.vm
  state : s.state = .handshake
  details : s.details = ⟨none, none, none, none, none, none⟩
  sent : s.sent = []

/-- The leaders after any operations, of which some may have failed. -/
inductive Reachable (session : Session K P C D) (p : LayerParams) : Leader K P → Prop
  | ready {s : Leader K P} (h : Ready p s) : Reachable session p s
  | returned {s s' : Leader K P} {op : LeaderOp C D} {reply : LeaderReply}
      (h : Reachable session p s) (hop : op.run session s = .ok reply s') : Reachable session p s'
  | failed {s s' : Leader K P} {op : LeaderOp C D} {e : BackendError}
      (h : Reachable session p s) (hop : op.run session s = .error (.err e) s') :
      Reachable session p s'

/-! ## When operations return -/

theorem require_ok_iff {allowed : LeaderState → Bool} {text : LeaderState → String}
    {s s' : Leader K P} : require allowed text s = .ok () s' ↔ allowed s.state = true ∧ s' = s := by
  unfold require
  rw [Fault.get_bind]
  by_cases h : allowed s.state = true
  · rw [if_pos h]
    constructor
    · intro hok
      cases hok
      exact ⟨h, rfl⟩
    · rintro ⟨-, rfl⟩
      rfl
  · rw [if_neg h]
    constructor
    · intro hok
      cases hok
    · intro hok
      exact absurd hok.1 h

theorem ofExcept_ok_iff {α : Type} {x : Except (Fault MpcTlsError) α} {a : α} {s s' : Leader K P} :
    (ofExcept x : Op K P α) s = .ok a s' ↔ x = .ok a ∧ s' = s := by
  rw [ofExcept, Fault.lift_ok_iff, Fault.mapError_ok_iff]

theorem ofExcept_ok_bind {α β : Type} (a : α) (f : α → Op K P β) :
    (ofExcept (.ok a) >>= f) = f a := rfl

theorem bytes_new (bytes : Bytes) : Bytes.new bytes.val = .ok bytes := dif_pos bytes.property

/-- A message which is taken apart is pushed, and sent on. -/
theorem pushIncoming_eq (msg : OpaqueMessage) {explicitNonce tag : List UInt8} (ciphertext : Bytes)
    (h : opaqueIntoParts msg.payload = .ok (explicitNonce, ciphertext.val, tag)) :
    pushIncoming (K := K) (P := P) msg = (do
      require pushes (fun state => "can not push incoming message in state: " ++ state.display)
      onLayer (Fault.onSnd (RecordLayer.pushDecrypt msg.typ msg.version explicitNonce ciphertext.val
        tag (decryptMode msg.typ)))
      send (.decrypt msg.typ msg.version explicitNonce ciphertext tag (decryptMode msg.typ))) := by
  unfold pushIncoming
  rw [h, ofExcept_ok_bind]
  dsimp only
  rw [bytes_new, ofExcept_ok_bind]

/-- A pull takes what is next, and fails only if that is no message. -/
theorem pull_ok_iff {R M : Type} {next : RecordLayer → Option R × RecordLayer}
    {toMessage : R → Except (Fault MpcTlsError) M} {m : Option M} {s s' : Leader K P} :
    pull next toMessage s = .ok m s' ↔
      s' = { s with recordLayer := (next s.recordLayer).2 } ∧
        ((next s.recordLayer).1 = none ∧ m = none ∨ ∃ record,
          (next s.recordLayer).1 = some record ∧ ∃ msg, toMessage record = .ok msg ∧
            m = some msg) := by
  unfold pull
  rw [Fault.get_bind]
  obtain ⟨record, layer⟩ := next s.recordLayer
  cases record with
  | none =>
      constructor
      · intro h
        cases h
        exact ⟨rfl, .inl ⟨rfl, rfl⟩⟩
      · rintro ⟨rfl, ⟨-, rfl⟩ | ⟨record, hrecord, -⟩⟩
        · rfl
        · cases hrecord
  | some record =>
      simp only [map_eq_pure_bind, Fault.run_bind_ok_iff, ofExcept_ok_iff]
      constructor
      · rintro ⟨⟨⟩, s₁, hmodify, msg, s₂, ⟨hmsg, rfl⟩, hret⟩
        cases hmodify
        cases hret
        exact ⟨rfl, .inr ⟨record, rfl, msg, hmsg, rfl⟩⟩
      · rintro ⟨rfl, ⟨hnone, -⟩ | ⟨record', hrecord, msg, hmsg, rfl⟩⟩
        · cases hnone
        · cases hrecord
          exact ⟨⟨⟩, _, rfl, msg, _, ⟨hmsg, rfl⟩, rfl⟩

/-! ## Invariants of the record layer -/

/-- Each operation of the record layer keeps the invariant. -/
structure LayerInvariant (session : Session K P C D) (I : RecordLayer → Prop) : Prop where
  setup : Fault.Preserves (fun s => I s.2)
    (RecordLayer.setup session.mem session.prepareEncrypt session.prepareDecrypt)
  pushEncrypt : ∀ typ version len plaintext mode,
    Fault.Preserves I (RecordLayer.pushEncrypt typ version len plaintext mode)
  pushDecrypt : ∀ typ version explicitNonce ciphertext tag mode,
    Fault.Preserves I (RecordLayer.pushDecrypt typ version explicitNonce ciphertext tag mode)
  flush : ∀ peer isDecrypting, Fault.Preserves (fun s => I s.2)
    (RecordLayer.flush session.scheme session.mem peer isDecrypting)
  commit : ∀ peer, Fault.Preserves (fun s => I s.2)
    (RecordLayer.commit session.scheme session.cipher session.mem peer)
  startTraffic : ∀ layer, I layer → I layer.startTraffic
  nextEncrypted : ∀ layer, I layer → I layer.nextEncrypted.2
  nextDecrypted : ∀ layer, I layer → I layer.nextDecrypted.2

/-- So does each operation of the machine and the record layer, when the ciphertexts
that arrive are as `arrives` says. -/
structure MachineInvariant (session : Session K P C D) (arrives : List UInt8 → Prop)
    (I : Vm × RecordLayer → Prop) : Prop where
  issue : ∀ vm layer ops, I (vm, layer) → I (vm.push ops, layer)
  setup : Fault.Preserves I
    (RecordLayer.setup session.mem session.prepareEncrypt session.prepareDecrypt)
  pushEncrypt : ∀ typ version len plaintext mode,
    Fault.Preserves I (Fault.onSnd (RecordLayer.pushEncrypt typ version len plaintext mode))
  pushDecrypt : ∀ typ version explicitNonce ciphertext tag, arrives ciphertext →
    Fault.Preserves I (Fault.onSnd
      (RecordLayer.pushDecrypt typ version explicitNonce ciphertext tag (decryptMode typ)))
  flush : ∀ peer isDecrypting, Fault.Preserves I
    (RecordLayer.flush session.scheme session.mem peer isDecrypting)
  commit : ∀ peer, Fault.Preserves I
    (RecordLayer.commit session.scheme session.cipher session.mem peer)
  startTraffic : ∀ vm layer, I (vm, layer) → I (vm, layer.startTraffic)
  nextEncrypted : ∀ vm layer, I (vm, layer) → I (vm, layer.nextEncrypted.2)
  nextDecrypted : ∀ vm layer, I (vm, layer) → I (vm, layer.nextDecrypted.2)

theorem LayerInvariant.onMachine {session : Session K P C D} {I : RecordLayer → Prop}
    (h : LayerInvariant session I) :
    MachineInvariant session (fun _ => True) fun s => I s.2 where
  issue _ _ _ hI := hI
  setup := h.setup
  pushEncrypt _ _ _ _ _ := Fault.Preserves.onSnd (h.pushEncrypt _ _ _ _ _)
  pushDecrypt _ _ _ _ _ _ := Fault.Preserves.onSnd (h.pushDecrypt _ _ _ _ _ _)
  flush := h.flush
  commit := h.commit
  startTraffic _ := h.startTraffic
  nextEncrypted _ := h.nextEncrypted
  nextDecrypted _ := h.nextDecrypted

/-- What an operation brings is as `arrives` says. -/
def Brings (arrives : List UInt8 → Prop) : LeaderOp C D → Prop
  | .pushIncoming msg => ∀ explicitNonce ciphertext tag,
      opaqueIntoParts msg.payload = .ok (explicitNonce, ciphertext, tag) → arrives ciphertext
  | _ => True

/-- The leaders after any operations which bring what `arrives` allows. -/
inductive ReachableOn (session : Session K P C D) (p : LayerParams) (arrives : List UInt8 → Prop) :
    Leader K P → Prop
  | ready {s : Leader K P} (h : Ready p s) : ReachableOn session p arrives s
  | returned {s s' : Leader K P} {op : LeaderOp C D} {reply : LeaderReply}
      (h : ReachableOn session p arrives s) (hbrings : Brings arrives op)
      (hop : op.run session s = .ok reply s') : ReachableOn session p arrives s'
  | failed {s s' : Leader K P} {op : LeaderOp C D} {e : BackendError}
      (h : ReachableOn session p arrives s) (hbrings : Brings arrives op)
      (hop : op.run session s = .error (.err e) s') : ReachableOn session p arrives s'

theorem brings_true (op : LeaderOp C D) : Brings (fun _ => True) op := by
  cases op <;> first | trivial | exact fun _ _ _ _ => trivial

theorem Reachable.on {session : Session K P C D} {p : LayerParams} {s : Leader K P}
    (h : Reachable session p s) : ReachableOn session p (fun _ => True) s := by
  induction h with
  | ready hs => exact .ready hs
  | returned _ hop ih => exact .returned ih (brings_true _) hop
  | failed _ hop ih => exact .failed ih (brings_true _) hop

/-- Operations one after the other, with their replies. -/
def runOps (session : Session K P C D) : List (LeaderOp C D) → Op K P (List (LeaderEvent C D))
  | [] => return []
  | op :: ops => do
      let reply ← op.run session
      return (op, reply) :: (← runOps session ops)

theorem ReachableOn.runOps {session : Session K P C D} {p : LayerParams}
    {arrives : List UInt8 → Prop} {s : Leader K P} {ops : List (LeaderOp C D)}
    {events : List (LeaderEvent C D)} {t : Leader K P}
    (h : ReachableOn session p arrives s) (hbrings : ∀ op ∈ ops, Brings arrives op)
    (hops : Leader.runOps session ops s = .ok events t) : ReachableOn session p arrives t := by
  induction ops generalizing events s with
  | nil =>
      cases hops
      exact h
  | cons op ops ih =>
      obtain ⟨hfirst, hrestBrings⟩ := List.forall_mem_cons.mp hbrings
      obtain ⟨reply, s₁, hop, hrest⟩ := Fault.run_bind_ok_iff.mp hops
      obtain ⟨rest, s₂, hrun, hreturn⟩ := Fault.run_bind_ok_iff.mp hrest
      cases hreturn
      exact ih (h.returned hfirst hop) hrestBrings hrun

section Invariant

open Fault

variable {I : Vm × RecordLayer → Prop} {arrives : List UInt8 → Prop} {α β : Type}

/-- The invariant, of the leader. -/
def OnMachine (I : Vm × RecordLayer → Prop) (s : Leader K P) : Prop := I (s.vm, s.recordLayer)

theorem preserves_map (f : α → β) {x : Op K P α} (hx : Preserves (OnMachine I) x) :
    Preserves (OnMachine I) (f <$> x) := by
  constructor
  intro s hs
  have hafter := hx.after s hs
  simp only [Functor.map, EStateM.map]
  cases h : x s with
  | ok a s' =>
      rw [h] at hafter
      exact hafter
  | error e s' =>
      rw [h] at hafter
      exact hafter

theorem preserves_onLayer {x : EStateM (Fault MpcTlsError) (Vm × RecordLayer) α}
    (hx : Preserves I x) : Preserves (OnMachine (K := K) (P := P) I) (onLayer x) :=
  Preserves.adapt (Triple.zoom hx (fun _ => id) (fun _ _ _ _ => id) fun _ _ _ _ => id)

theorem preserves_ofExcept (x : Except (Fault MpcTlsError) α) :
    Preserves (OnMachine (K := K) (P := P) I) (ofExcept x) := Preserves.lift _

theorem preserves_require (allowed : LeaderState → Bool) (text : LeaderState → String) :
    Preserves (OnMachine (K := K) (P := P) I) (require allowed text) :=
  Preserves.bind Preserves.get fun _ => Preserves.ite (Preserves.pure _) (Preserves.throw _)

theorem preserves_send (message : Message) :
    Preserves (OnMachine (K := K) (P := P) I) (send message) := Preserves.modify fun _ => id

theorem preserves_onKe (error : MpcTlsError → BackendError)
    (x : EStateM (Fault MpcTlsError) K α) :
    Preserves (OnMachine (P := P) I) (onKe error x) :=
  Preserves.adapt (Preserves.zoom x fun _ _ => id)

variable {session : Session K P C D}

theorem preserves_issue (h : MachineInvariant session arrives I) {x : Op K P (List VmOp)}
    (hx : Preserves (OnMachine I) x) : Preserves (OnMachine I) (issue x) :=
  Preserves.bind hx fun _ => Preserves.modify fun _ => h.issue _ _ _

theorem preserves_onPrf (h : MachineInvariant session arrives I)
    (x : EStateM (Fault MpcTlsError) P (List VmOp)) : Preserves (OnMachine (K := K) I) (onPrf x) :=
  preserves_issue h (Preserves.adapt (Preserves.zoom x fun _ _ => id))

theorem preserves_executeAll (session : Session K P C D) :
    Preserves (OnMachine I) (executeAll session) :=
  Preserves.bind Preserves.get fun _ => preserves_ofExcept _

theorem preserves_setDetail (name : String) (set : HandshakeDetails → HandshakeDetails) :
    Preserves (OnMachine (K := K) (P := P) I) (setDetail name set) :=
  Preserves.bind (preserves_require _ _) fun _ => Preserves.modify fun _ => id

theorem preserves_okOr (name : String) (x : Option α) :
    Preserves (OnMachine (K := K) (P := P) I) (okOr name x) := by
  cases x with
  | none => exact Preserves.throw _
  | some a => exact Preserves.pure _

theorem preserves_finishedVd (h : MachineInvariant session arrives I) (party short : String)
    (message : Vector UInt8 32 → Message)
    (setHash : Vector UInt8 32 → EStateM (Fault MpcTlsError) P (List VmOp))
    (vd : Vm → Except (Fault MpcTlsError) (Option (List UInt8))) (hash : List UInt8) :
    Preserves (OnMachine I) (finishedVd session party short message setHash vd hash) := by
  refine Preserves.bind (preserves_require _ _) fun _ => ?_
  cases toHash hash with
  | none => exact Preserves.throw _
  | some hash =>
      refine Preserves.bind (preserves_send _) fun _ => ?_
      refine Preserves.bind (preserves_onPrf h _) fun _ => ?_
      refine Preserves.bind (preserves_executeAll session) fun _ => ?_
      refine Preserves.bind Preserves.get fun _ => Preserves.bind (preserves_ofExcept _)
        fun vd => ?_
      cases vd with
      | none => exact Preserves.throw _
      | some vd => exact Preserves.pure _

theorem preserves_prepareEncryption (h : MachineInvariant session arrives I) :
    Preserves (OnMachine I) (prepareEncryption session) := by
  refine Preserves.bind Preserves.get fun _ => Preserves.bind (Preserves.modify fun _ => id) ?_
  refine fun _ => Preserves.ite (Preserves.throw _) (Preserves.bind Preserves.get fun _ => ?_)
  refine Preserves.bind (preserves_okOr _ _) fun _ => Preserves.bind (preserves_okOr _ _)
    fun _ => ?_
  refine Preserves.bind (preserves_okOr _ _) fun _ => Preserves.bind (preserves_okOr _ _)
    fun _ => ?_
  refine Preserves.bind (preserves_okOr _ _) fun _ => Preserves.bind (preserves_okOr _ _)
    fun _ => ?_
  refine Preserves.ite (Preserves.throw _) ?_
  refine Preserves.bind (preserves_onKe _ _) fun _ => Preserves.bind (preserves_onKe _ _)
    fun _ => ?_
  refine Preserves.bind (preserves_issue h (preserves_onKe _ _)) fun _ => ?_
  refine Preserves.bind (preserves_executeAll session) fun _ => ?_
  refine Preserves.bind (preserves_onKe _ _) fun _ => ?_
  exact Preserves.bind (preserves_onLayer h.setup) fun _ => Preserves.modify fun _ => id

/-- What is lifted is known where the operation goes on. -/
theorem triple_ofExcept (x : Except (Fault MpcTlsError) α) :
    Triple (OnMachine I) (ofExcept x : Op K P α) (fun a s => x = .ok a ∧ OnMachine I s)
      fun _ => OnMachine I :=
  Triple.lift (fun _ _ ha hs => ⟨Fault.mapError_ok_iff.mp ha, hs⟩) fun _ _ _ => id

theorem preserves_pushIncoming (h : MachineInvariant session arrives I) (msg : OpaqueMessage)
    (hbrings : Brings (C := C) (D := D) arrives (.pushIncoming msg)) :
    Preserves (OnMachine I) (pushIncoming msg : Op K P Unit) := by
  refine Preserves.bind (preserves_require _ _) fun _ => ?_
  refine Triple.bind (triple_ofExcept _) fun ⟨explicitNonce, ciphertext, tag⟩ => ?_
  refine Triple.of_const fun hparts => ?_
  refine Triple.bind (triple_ofExcept _) fun bytes => Triple.of_const fun hbytes => ?_
  have hval : bytes.val = ciphertext := by
    unfold Bytes.new at hbytes
    split at hbytes
    · cases hbytes
      rfl
    · cases hbytes
  refine Preserves.bind (preserves_onLayer ?_) fun _ => preserves_send _
  rw [hval]
  exact h.pushDecrypt _ _ _ _ _ (hbrings _ _ _ hparts)

theorem preserves_pushOutgoing (h : MachineInvariant session arrives I) (msg : PlainMessage) :
    Preserves (OnMachine I) (pushOutgoing msg : Op K P Unit) := by
  refine Preserves.bind (preserves_require _ _) fun _ => ?_
  refine Preserves.bind (preserves_onLayer (h.pushEncrypt _ _ _ _ _)) fun _ => ?_
  exact preserves_send _

theorem preserves_pull {R M : Type} {next : RecordLayer → Option R × RecordLayer}
    (toMessage : R → Except (Fault MpcTlsError) M)
    (h : ∀ vm layer, I (vm, layer) → I (vm, (next layer).2)) :
    Preserves (OnMachine (K := K) (P := P) I) (pull next toMessage) := by
  constructor
  intro s hs
  have hnext : OnMachine I { s with recordLayer := (next s.recordLayer).2 } := h _ _ hs
  unfold pull
  rw [Fault.get_bind]
  generalize next s.recordLayer = r at hnext
  obtain ⟨record, layer⟩ := r
  cases record with
  | none => exact hnext
  | some record => exact (preserves_map some (preserves_ofExcept (toMessage record))).after _ hnext

theorem preserves_flush (h : MachineInvariant session arrives I) (peer : PeerShares C D) :
    Preserves (OnMachine I) (flush session peer) := by
  refine Preserves.bind Preserves.get fun _ => Preserves.ite (Preserves.pure _) ?_
  refine Preserves.bind (preserves_require _ _) fun _ => Preserves.ite (Preserves.pure _) ?_
  refine Preserves.bind Preserves.get fun _ => Preserves.bind (preserves_send _) fun _ => ?_
  exact preserves_onLayer (h.flush _ _)

theorem preserves_closeConnection (h : MachineInvariant session arrives I) (peer : PeerShares C D) :
    Preserves (OnMachine I) (closeConnection session peer) := by
  refine Preserves.bind Preserves.get fun _ => Preserves.bind (Preserves.modify fun _ => id) ?_
  refine fun _ => Preserves.ite (Preserves.throw _) (Preserves.bind (preserves_send _) fun _ => ?_)
  refine Preserves.bind (preserves_onLayer (h.commit _)) fun _ => ?_
  exact Preserves.modify fun _ => id

/-- What every operation of the record layer keeps, every operation of the leader does. -/
theorem preserves_run (h : MachineInvariant session arrives I) (op : LeaderOp C D)
    (hbrings : Brings arrives op) : Preserves (OnMachine I) (op.run session) := by
  cases op with
  | setProtocolVersion version => exact preserves_map _ (preserves_setDetail _ _)
  | setCipherSuite suite => exact preserves_map _ (preserves_setDetail _ _)
  | setServerRandom random =>
      refine preserves_map _ (Preserves.bind (preserves_require _ _) fun _ => ?_)
      refine Preserves.bind (preserves_send _) fun _ => Preserves.bind (preserves_onPrf h _)
        fun _ => ?_
      exact Preserves.modify fun _ => id
  | setServerKeyShare key =>
      refine preserves_map _ (Preserves.bind (preserves_require _ _) fun _ => ?_)
      refine Preserves.ite (Preserves.throw _) (Preserves.bind (preserves_send _) fun _ => ?_)
      exact Preserves.modify fun _ => id
  | setServerCertDetails details => exact preserves_map _ (preserves_setDetail _ _)
  | setServerKxDetails details => exact preserves_map _ (preserves_setDetail _ _)
  | getServerFinishedVd hash => exact preserves_map _ (preserves_finishedVd h _ _ _ _ _ _)
  | getClientFinishedVd hash => exact preserves_map _ (preserves_finishedVd h _ _ _ _ _ _)
  | prepareEncryption => exact preserves_map _ (preserves_prepareEncryption h)
  | pushIncoming msg => exact preserves_map _ (preserves_pushIncoming h msg hbrings)
  | nextIncoming =>
      refine preserves_map _ (Preserves.bind (preserves_require _ _) fun _ => ?_)
      exact preserves_pull _ h.nextDecrypted
  | pushOutgoing msg => exact preserves_map _ (preserves_pushOutgoing h msg)
  | nextOutgoing =>
      refine preserves_map _ (Preserves.bind (preserves_require _ _) fun _ => ?_)
      exact preserves_pull _ h.nextEncrypted
  | startTraffic =>
      refine preserves_map _ (Preserves.bind (preserves_require _ _) fun _ => ?_)
      exact Preserves.bind (Preserves.modify fun s => h.startTraffic _ _) fun _ => preserves_send _
  | flush peer => exact preserves_map _ (preserves_flush h peer)
  | isEmpty => exact preserves_map _ (Preserves.bind Preserves.get fun _ => Preserves.pure _)
  | deferDecryption => exact preserves_map _ (Preserves.modify fun _ => id)
  | closeConnection peer => exact preserves_map _ (preserves_closeConnection h peer)

/-- An invariant of the machine and the record layer holds in every leader that is reached. -/
theorem ReachableOn.invariant {p : LayerParams} {s : Leader K P}
    (hreach : ReachableOn session p arrives s) (h : MachineInvariant session arrives I)
    (hready : ∀ s : Leader K P, Ready p s → I (s.vm, s.recordLayer)) :
    I (s.vm, s.recordLayer) := by
  induction hreach with
  | ready hs => exact hready _ hs
  | returned _ hbrings hop ih => exact (preserves_run h _ hbrings).ok ih hop
  | failed _ hbrings hop ih => exact (preserves_run h _ hbrings).error ih hop

/-- So does one of the record layer. -/
theorem Reachable.invariant {I : RecordLayer → Prop} {p : LayerParams} {s : Leader K P}
    (hreach : Reachable session p s) (h : LayerInvariant session I)
    (hready : ∀ s : Leader K P, Ready p s → I s.recordLayer) : I s.recordLayer :=
  hreach.on.invariant h.onMachine hready

end Invariant

end Leader

end Tlsn.MpcTls

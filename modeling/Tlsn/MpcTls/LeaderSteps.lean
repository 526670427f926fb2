import Tlsn.MpcTls.FollowerRun
import Tlsn.MpcTls.LeaderRun
import Tlsn.MpcTls.Rejections

/-!
What an operation of the leader does: to its state, to the machine and the record
layer, and to what is sent to the follower.
-/

namespace Tlsn.MpcTls

open Tlsn.Cipher Tlsn.Common Tlsn.Tls

/-- Whether the follower's record layer takes part. -/
def Message.isLayered : Message → Bool
  | .encrypt _ _ _ _ _ => true
  | .decrypt _ _ _ _ _ _ => true
  | .startTraffic => true
  | .flush _ => true
  | .closeConnection => true
  | _ => false

variable {K P C D : Type}

/-- The call which pushes a message to be sent. -/
theorem PlainMessage.length_lt (msg : PlainMessage) : msg.payload.val.length < wordSize :=
  msg.payload.property

def PlainMessage.call (msg : PlainMessage) : LayerCall C D :=
  .pushEncrypt msg.typ msg.version ⟨msg.payload.val.length, msg.length_lt⟩
    (some msg.payload.val) (Leader.encryptMode msg.typ)

/-- What the follower is told of it. -/
def PlainMessage.announced (msg : PlainMessage) : Message :=
  .encrypt msg.typ msg.version ⟨msg.payload.val.length, msg.length_lt⟩
    (match Leader.encryptMode msg.typ with
    | .isPrivate => none
    | .isPublic => some msg.payload.val) (Leader.encryptMode msg.typ)

/-- The call which pushes a message that was received, taken apart. -/
structure OpaqueMessage.Calls (msg : OpaqueMessage) (explicitNonce : List UInt8)
    (ciphertext : Bytes) (tag : List UInt8) (call : LayerCall C D) : Prop where
  parts : opaqueIntoParts msg.payload = .ok (explicitNonce, ciphertext.val, tag)
  call : call = .pushDecrypt msg.typ msg.version explicitNonce ciphertext tag
    (Leader.decryptMode msg.typ)

namespace Leader

/-- What the leader has the record layer do, and tells the follower. The flag is whether
application data is decrypted. -/
inductive Issues (isDecrypting : Bool) : LeaderOp C D → LayerCall C D → Message → Prop
  | pushIncoming {msg : OpaqueMessage} {explicitNonce : List UInt8} {ciphertext : Bytes}
      {tag : List UInt8} {call : LayerCall C D} (h : msg.Calls explicitNonce ciphertext tag call) :
      Issues isDecrypting (.pushIncoming msg) call
        (.decrypt msg.typ msg.version explicitNonce ciphertext tag (decryptMode msg.typ))
  | pushOutgoing {msg : PlainMessage} :
      Issues isDecrypting (.pushOutgoing msg) msg.call msg.announced
  | startTraffic : Issues isDecrypting .startTraffic .startTraffic .startTraffic
  | flush {peer : PeerShares C D} :
      Issues isDecrypting (.flush peer) (.flush peer isDecrypting) (.flush isDecrypting)

/-- The states in which the record layer takes calls. -/
def accepts : LeaderOp C D → LeaderState → Bool
  | .pushIncoming _, state => pushes state
  | .pushOutgoing _, state => pushes state
  | .startTraffic, state => isActive state
  | .flush _, state => isActive state || isClosed state
  | _, _ => false

/-- Nothing is pushed or taken, and the connection is where it was. -/
def isNeutral : LeaderOp C D → LeaderReply → Bool
  | .pushIncoming _, _ => false
  | .pushOutgoing _, _ => false
  | .startTraffic, _ => false
  | .prepareEncryption, _ => false
  | .closeConnection _, _ => false
  | _, .incoming (some _) => false
  | _, .outgoing (some _) => false
  | _, _ => true

/-- The record layer is as it was, and what the follower is told is not about it. -/
structure Quiet (s s' : Leader K P) : Prop where
  state : s'.state = s.state
  recordLayer : s'.recordLayer = s.recordLayer
  vm : s.vm.Extends s'.vm
  sent : ∃ messages, s'.sent = s.sent ++ messages ∧ ∀ m ∈ messages, m.isLayered = false

theorem Quiet.refl (s : Leader K P) : Quiet s s :=
  ⟨rfl, rfl, Vm.Extends.refl _, [], (List.append_nil _).symm, fun _ hm => nomatch hm⟩

/-- What an operation which returns does. -/
inductive Did (session : Session K P C D) (s : Leader K P) :
    LeaderOp C D → LeaderReply → Leader K P → Prop
  | quiet {op : LeaderOp C D} {reply : LeaderReply} {s' : Leader K P}
      (hop : isNeutral op reply = true) (h : Quiet s s') : Did session s op reply s'
  | prepared {ke : K} {ops : List VmOp} {vm : Vm} {layer : RecordLayer}
      (hstate : s.state = .handshake)
      (hsetup : RecordLayer.setup session.mem session.prepareEncrypt session.prepareDecrypt
        (s.vm.push ops, s.recordLayer) = .ok () (vm, layer)) :
      Did session s .prepareEncryption .done
        { s with state := .active, ke := ke, vm := vm, recordLayer := layer }
  | called {op : LeaderOp C D} {call : LayerCall C D} {message : Message} {vm : Vm}
      {layer : RecordLayer} (hop : Issues s.isDecrypting op call message)
      (hstate : accepts op s.state = true)
      (hrun : call.run session.scheme session.mem (s.vm, s.recordLayer) = .ok () (vm, layer)) :
      Did session s op .done
        { s with vm := vm, recordLayer := layer, sent := s.sent ++ [message] }
  | incoming {record : PlainRecord} {layer : RecordLayer} {msg : PlainMessage}
      (hstate : pulls s.state = true)
      (hnext : s.recordLayer.nextDecrypted = (some record, layer))
      (hmsg : plainMessage record = .ok msg) :
      Did session s .nextIncoming (.incoming (some msg)) { s with recordLayer := layer }
  | outgoing {record : EncryptedRecord} {layer : RecordLayer} {msg : OpaqueMessage}
      (hstate : pulls s.state = true)
      (hnext : s.recordLayer.nextEncrypted = (some record, layer))
      (hmsg : opaqueMessage record = .ok msg) :
      Did session s .nextOutgoing (.outgoing (some msg)) { s with recordLayer := layer }
  | closed {peer : PeerShares C D} {t : TlsTranscript} {vm : Vm} {layer : RecordLayer}
      {notified : Bool} (hstate : s.state = .active)
      (hcommit : RecordLayer.commit session.scheme session.cipher session.mem peer
        (s.vm, s.recordLayer) = .ok t (vm, layer)) :
      Did session s (.closeConnection peer) .done
        { s with
          state := .closed t, vm := vm, recordLayer := layer, notified := notified
          sent := s.sent ++ [.closeConnection] }

section Quiet

open Fault

variable {s₀ : Leader K P} {session : Session K P C D}

theorem Quiet.trans {s s' s'' : Leader K P} (h : Quiet s s') (h' : Quiet s' s'') : Quiet s s'' := by
  obtain ⟨messages, hsent, hlayered⟩ := h.sent
  obtain ⟨messages', hsent', hlayered'⟩ := h'.sent
  refine ⟨h'.state.trans h.state, h'.recordLayer.trans h.recordLayer,
    Vm.Extends.trans _ _ _ h.vm h'.vm, messages ++ messages', ?_, ?_⟩
  · rw [hsent', hsent, List.append_assoc]
  · intro m hm
    cases List.mem_append.mp hm with
    | inl hm => exact hlayered m hm
    | inr hm => exact hlayered' m hm

theorem quiet_require (allowed : LeaderState → Bool) (text : LeaderState → String) :
    Preserves (Quiet s₀) (require allowed text) :=
  Preserves.bind Preserves.get fun _ => Preserves.ite (Preserves.pure _) (Preserves.throw _)

theorem quiet_send {message : Message} (h : message.isLayered = false) :
    Preserves (Quiet s₀) (send message) := by
  refine Preserves.modify fun s hs => hs.trans ⟨rfl, rfl, Vm.Extends.refl _, [message], rfl, ?_⟩
  intro m hm
  cases List.mem_singleton.mp hm
  exact h

theorem quiet_onPrf (x : EStateM (Fault MpcTlsError) P (List VmOp)) :
    Preserves (Quiet s₀) (onPrf x) := by
  refine Preserves.bind (Preserves.adapt (Preserves.zoom x fun s prf hs => ?_)) fun ops => ?_
  · exact ⟨hs.state, hs.recordLayer, hs.vm, hs.sent⟩
  · refine Preserves.modify fun s hs => ?_
    exact ⟨hs.state, hs.recordLayer, Vm.Extends.trans _ _ _ hs.vm (Vm.Extends.push _ _), hs.sent⟩

theorem quiet_setDetail (name : String) (set : HandshakeDetails → HandshakeDetails) :
    Preserves (Quiet s₀) (setDetail name set) :=
  Preserves.bind (quiet_require _ _) fun _ =>
    Preserves.modify fun _ hs => ⟨hs.state, hs.recordLayer, hs.vm, hs.sent⟩

theorem quiet_setServerRandom (random : Vector UInt8 32) :
    Preserves (Quiet s₀) (setServerRandom session random) := by
  refine Preserves.bind (quiet_require _ _) fun _ => Preserves.bind (quiet_send rfl) fun _ => ?_
  refine Preserves.bind (quiet_onPrf _) fun _ => ?_
  exact Preserves.modify fun _ hs => ⟨hs.state, hs.recordLayer, hs.vm, hs.sent⟩

theorem quiet_setServerKeyShare (key : PublicKey) :
    Preserves (Quiet s₀) (setServerKeyShare key) := by
  refine Preserves.bind (quiet_require _ _) fun _ => Preserves.ite (Preserves.throw _) ?_
  refine Preserves.bind (quiet_send rfl) fun _ => ?_
  exact Preserves.modify fun _ hs => ⟨hs.state, hs.recordLayer, hs.vm, hs.sent⟩

theorem quiet_finishedVd {party short : String} {message : Vector UInt8 32 → Message}
    (hmessage : ∀ hash, (message hash).isLayered = false)
    (setHash : Vector UInt8 32 → EStateM (Fault MpcTlsError) P (List VmOp))
    (vd : Vm → Except (Fault MpcTlsError) (Option (List UInt8))) (hash : List UInt8) :
    Preserves (Quiet s₀) (finishedVd session party short message setHash vd hash) := by
  refine Preserves.bind (quiet_require _ _) fun _ => ?_
  cases toHash hash with
  | none => exact Preserves.throw _
  | some hash =>
      refine Preserves.bind (quiet_send (hmessage hash)) fun _ => ?_
      refine Preserves.bind (quiet_onPrf _) fun _ => ?_
      refine Preserves.bind (Preserves.bind Preserves.get fun _ => Preserves.lift _) fun _ => ?_
      refine Preserves.bind Preserves.get fun _ => Preserves.bind (Preserves.lift _) fun vd => ?_
      cases vd with
      | none => exact Preserves.throw _
      | some vd => exact Preserves.pure _

/-- The operations which only learn what the client knows, or read the layer. -/
def isReader : LeaderOp C D → Bool
  | .prepareEncryption => false
  | .pushIncoming _ => false
  | .nextIncoming => false
  | .pushOutgoing _ => false
  | .nextOutgoing => false
  | .startTraffic => false
  | .flush _ => false
  | .closeConnection _ => false
  | _ => true

theorem isNeutral_of_reader {op : LeaderOp C D} {reply : LeaderReply} {s s' : Leader K P}
    (hop : isReader op = true) (h : op.run session s = .ok reply s') :
    isNeutral op reply = true := by
  cases op with
  | prepareEncryption => cases hop
  | pushIncoming msg => cases hop
  | nextIncoming => cases hop
  | pushOutgoing msg => cases hop
  | nextOutgoing => cases hop
  | startTraffic => cases hop
  | flush peer => cases hop
  | closeConnection peer => cases hop
  | setProtocolVersion version | setCipherSuite suite | setServerRandom random
  | setServerKeyShare key | setServerCertDetails details | setServerKxDetails details
  | getServerFinishedVd hash | getClientFinishedVd hash | isEmpty | deferDecryption =>
      obtain ⟨a, -, rfl⟩ := Fault.run_map_ok_iff.mp h
      rfl

theorem quiet_reader {op : LeaderOp C D} (hop : isReader op = true) :
    Preserves (Quiet s₀) (op.run session) := by
  cases op with
  | prepareEncryption => cases hop
  | pushIncoming msg => cases hop
  | nextIncoming => cases hop
  | pushOutgoing msg => cases hop
  | nextOutgoing => cases hop
  | startTraffic => cases hop
  | flush peer => cases hop
  | closeConnection peer => cases hop
  | setProtocolVersion version => exact (quiet_setDetail _ _).map _
  | setCipherSuite suite => exact (quiet_setDetail _ _).map _
  | setServerRandom random => exact (quiet_setServerRandom random).map _
  | setServerKeyShare key => exact (quiet_setServerKeyShare key).map _
  | setServerCertDetails details => exact (quiet_setDetail _ _).map _
  | setServerKxDetails details => exact (quiet_setDetail _ _).map _
  | getServerFinishedVd hash => exact (quiet_finishedVd (fun _ => rfl) _ _ _).map _
  | getClientFinishedVd hash => exact (quiet_finishedVd (fun _ => rfl) _ _ _).map _
  | isEmpty => exact (Preserves.bind Preserves.get fun _ => Preserves.pure _).map _
  | deferDecryption =>
      exact (Preserves.modify fun _ hs => ⟨hs.state, hs.recordLayer, hs.vm, hs.sent⟩).map _

end Quiet

section Steps

variable {session : Session K P C D} {s s' : Leader K P}

theorem onLayer_ok_iff {α : Type} {x : EStateM (Fault MpcTlsError) (Vm × RecordLayer) α} {a : α} :
    onLayer x s = .ok a s' ↔ ∃ t, x (s.vm, s.recordLayer) = .ok a t ∧
      s' = { s with vm := t.1, recordLayer := t.2 } :=
  Fault.adapt_ok_iff.trans Fault.zoom_ok_iff

theorem onLayer_error {α : Type} {x : EStateM (Fault MpcTlsError) (Vm × RecordLayer) α}
    {e : Fault BackendError} (h : onLayer x s = .error e s') :
    ∃ e' t, x (s.vm, s.recordLayer) = .error e' t ∧
      s' = { s with vm := t.1, recordLayer := t.2 } := by
  unfold onLayer Fault.adapt Fault.zoom at h
  cases hx : x (s.vm, s.recordLayer) with
  | ok a t =>
      rw [hx] at h
      cases h
  | error e' t =>
      rw [hx] at h
      cases h
      exact ⟨e', t, rfl, rfl⟩

theorem require_error {allowed : LeaderState → Bool} {text : LeaderState → String}
    {e : Fault BackendError} (h : require allowed text s = .error e s') : s' = s := by
  unfold require at h
  rw [Fault.get_bind] at h
  by_cases hallowed : allowed s.state = true
  · rw [if_pos hallowed] at h
    cases h
  · rw [if_neg hallowed] at h
    cases h
    rfl

theorem ofExcept_error {α : Type} {x : Except (Fault MpcTlsError) α} {e : Fault BackendError}
    (h : (ofExcept x : Op K P α) s = .error e s') :
    s' = s ∧ ∃ e', x = .error e' ∧ e = e'.map .internalError := by
  cases x with
  | ok a => cases h
  | error e' =>
      cases h
      exact ⟨rfl, e', rfl, rfl⟩

theorem val_of_bytes_new {bytes : List UInt8} {b : Bytes} (h : Bytes.new bytes = .ok b) :
    b.val = bytes := by
  unfold Bytes.new at h
  split at h
  · cases h
    rfl
  · cases h

theorem did_pushIncoming {msg : OpaqueMessage} (h : pushIncoming msg s = .ok () s') :
    Did session s (.pushIncoming msg) .done s' := by
  obtain ⟨⟨⟩, s₁, hrequire, h₁⟩ := Fault.run_bind_ok_iff.mp h
  obtain ⟨hstate, rfl⟩ := require_ok_iff.mp hrequire
  obtain ⟨⟨explicitNonce, ciphertext, tag⟩, s₂, htaken, h₂⟩ := Fault.run_bind_ok_iff.mp h₁
  obtain ⟨hparts, rfl⟩ := ofExcept_ok_iff.mp htaken
  obtain ⟨bytes, s₃, hnew, h₃⟩ := Fault.run_bind_ok_iff.mp h₂
  obtain ⟨hbytes, rfl⟩ := ofExcept_ok_iff.mp hnew
  obtain ⟨⟨⟩, s₄, hpush, h₄⟩ := Fault.run_bind_ok_iff.mp h₃
  obtain ⟨⟨vm, layer⟩, hrun, rfl⟩ := onLayer_ok_iff.mp hpush
  cases h₄
  have hcalls : msg.Calls explicitNonce bytes tag (.pushDecrypt msg.typ msg.version explicitNonce
      bytes tag (decryptMode msg.typ) : LayerCall C D) := by
    refine ⟨?_, rfl⟩
    rw [val_of_bytes_new hbytes]
    exact hparts
  exact .called (.pushIncoming hcalls) hstate hrun

theorem did_pushOutgoing {msg : PlainMessage} (h : pushOutgoing msg s = .ok () s') :
    Did session s (.pushOutgoing msg) .done s' := by
  obtain ⟨⟨⟩, s₁, hrequire, h₁⟩ := Fault.run_bind_ok_iff.mp h
  obtain ⟨hstate, rfl⟩ := require_ok_iff.mp hrequire
  obtain ⟨⟨⟩, s₂, hpush, h₂⟩ := Fault.run_bind_ok_iff.mp h₁
  obtain ⟨⟨vm, layer⟩, hrun, rfl⟩ := onLayer_ok_iff.mp hpush
  cases h₂
  exact .called .pushOutgoing hstate hrun

theorem did_startTraffic (h : startTraffic s = .ok () s') :
    Did session s .startTraffic .done s' := by
  obtain ⟨⟨⟩, s₁, hrequire, h₁⟩ := Fault.run_bind_ok_iff.mp h
  obtain ⟨hstate, rfl⟩ := require_ok_iff.mp hrequire
  cases h₁
  exact .called .startTraffic hstate rfl

theorem did_flush {peer : PeerShares C D} (h : flush session peer s = .ok () s') :
    Did session s (.flush peer) .done s' := by
  unfold flush at h
  rw [Fault.get_bind] at h
  by_cases hhandshake : isHandshake s.state = true
  · rw [if_pos hhandshake] at h
    cases h
    exact .quiet rfl (Quiet.refl s)
  · rw [if_neg hhandshake] at h
    obtain ⟨⟨⟩, s₁, hrequire, h₁⟩ := Fault.run_bind_ok_iff.mp h
    obtain ⟨hstate, rfl⟩ := require_ok_iff.mp hrequire
    by_cases hwants : (!s₁.recordLayer.wantsFlush) = true
    · rw [if_pos hwants] at h₁
      cases h₁
      exact .quiet rfl (Quiet.refl _)
    · rw [if_neg hwants, flushLayer, Fault.get_bind] at h₁
      obtain ⟨⟨⟩, s₂, hsend, h₂⟩ := Fault.run_bind_ok_iff.mp h₁
      cases hsend
      obtain ⟨⟨vm, layer⟩, hrun, rfl⟩ := onLayer_ok_iff.mp h₂
      exact .called .flush hstate hrun

theorem nextDecrypted_none {layer layer' : RecordLayer}
    (h : layer.nextDecrypted = (none, layer')) : layer' = layer := by
  unfold RecordLayer.nextDecrypted at h
  split at h
  · cases h
    rfl
  · split at h
    · cases h
      rfl
    · cases h

theorem nextEncrypted_none {layer layer' : RecordLayer}
    (h : layer.nextEncrypted = (none, layer')) : layer' = layer := by
  unfold RecordLayer.nextEncrypted at h
  split at h
  · cases h
    rfl
  · split at h
    · cases h
      rfl
    · cases h

theorem did_nextIncoming {msg : Option PlainMessage} (h : nextIncoming s = .ok msg s') :
    Did session s .nextIncoming (.incoming msg) s' := by
  obtain ⟨⟨⟩, s₁, hrequire, hpull⟩ := Fault.run_bind_ok_iff.mp h
  obtain ⟨hstate, rfl⟩ := require_ok_iff.mp hrequire
  obtain ⟨rfl, hnext⟩ := pull_ok_iff.mp hpull
  obtain ⟨hnone, rfl⟩ | ⟨record, hsome, msg, hmsg, rfl⟩ := hnext
  · exact .quiet rfl ⟨rfl, nextDecrypted_none (Prod.ext hnone rfl), Vm.Extends.refl _, [],
      (List.append_nil _).symm, fun _ hm => nomatch hm⟩
  · exact .incoming hstate (Prod.ext hsome rfl) hmsg

theorem did_nextOutgoing {msg : Option OpaqueMessage} (h : nextOutgoing s = .ok msg s') :
    Did session s .nextOutgoing (.outgoing msg) s' := by
  obtain ⟨⟨⟩, s₁, hrequire, hpull⟩ := Fault.run_bind_ok_iff.mp h
  obtain ⟨hstate, rfl⟩ := require_ok_iff.mp hrequire
  obtain ⟨rfl, hnext⟩ := pull_ok_iff.mp hpull
  obtain ⟨hnone, rfl⟩ | ⟨record, hsome, msg, hmsg, rfl⟩ := hnext
  · exact .quiet rfl ⟨rfl, nextEncrypted_none (Prod.ext hnone rfl), Vm.Extends.refl _, [],
      (List.append_nil _).symm, fun _ hm => nomatch hm⟩
  · exact .outgoing hstate (Prod.ext hsome rfl) hmsg

theorem onKe_ok {α : Type} {error : MpcTlsError → BackendError}
    {x : EStateM (Fault MpcTlsError) K α} {a : α} (h : onKe error x s = .ok a s') :
    ∃ ke, s' = { s with ke := ke } := by
  obtain ⟨ke, -, rfl⟩ := (Fault.adapt_ok_iff.trans Fault.zoom_ok_iff).mp h
  exact ⟨ke, rfl⟩

theorem okOr_ok {α : Type} {name : String} {x : Option α} {a : α}
    (h : (okOr name x : Op K P α) s = .ok a s') : s' = s := by
  cases x with
  | none => cases h
  | some b =>
      cases h
      rfl

theorem executeAll_ok (h : executeAll session s = .ok () s') : s' = s :=
  (ofExcept_ok_iff.mp h).2

theorem did_prepareEncryption (h : prepareEncryption session s = .ok () s') :
    Did session s .prepareEncryption .done s' := by
  unfold prepareEncryption at h
  rw [Fault.get_bind] at h
  obtain ⟨⟨⟩, s₁, htake, h₁⟩ := Fault.run_bind_ok_iff.mp h
  cases htake
  by_cases hstate : isHandshake s.state = true
  · simp only [hstate, Bool.not_true, Bool.false_eq_true, if_false, Fault.get_bind] at h₁
    obtain ⟨_, s₂, hok, h₂⟩ := Fault.run_bind_ok_iff.mp h₁
    cases okOr_ok hok
    obtain ⟨_, s₃, hok, h₃⟩ := Fault.run_bind_ok_iff.mp h₂
    cases okOr_ok hok
    obtain ⟨_, s₄, hok, h₄⟩ := Fault.run_bind_ok_iff.mp h₃
    cases okOr_ok hok
    obtain ⟨_, s₅, hok, h₅⟩ := Fault.run_bind_ok_iff.mp h₄
    cases okOr_ok hok
    obtain ⟨serverKey, s₆, hok, h₆⟩ := Fault.run_bind_ok_iff.mp h₅
    cases okOr_ok hok
    obtain ⟨_, s₇, hok, h₇⟩ := Fault.run_bind_ok_iff.mp h₆
    cases okOr_ok hok
    by_cases hparses : session.parsesKey serverKey.key = true
    · simp only [hparses, Bool.not_true, Bool.false_eq_true, if_false] at h₇
      obtain ⟨⟨⟩, s₈, hset, h₈⟩ := Fault.run_bind_ok_iff.mp h₇
      obtain ⟨ke₁, rfl⟩ := onKe_ok hset
      obtain ⟨⟨⟩, s₉, hshares, h₉⟩ := Fault.run_bind_ok_iff.mp h₈
      obtain ⟨ke₂, rfl⟩ := onKe_ok hshares
      obtain ⟨⟨⟩, s₁₀, hissue, h₁₀⟩ := Fault.run_bind_ok_iff.mp h₉
      obtain ⟨ops, s₁₁, hassign, hpush⟩ := Fault.run_bind_ok_iff.mp hissue
      obtain ⟨ke₃, rfl⟩ := onKe_ok hassign
      cases hpush
      obtain ⟨⟨⟩, s₁₂, hexecute, h₁₂⟩ := Fault.run_bind_ok_iff.mp h₁₀
      cases executeAll_ok hexecute
      obtain ⟨⟨⟩, s₁₃, hfinalize, h₁₃⟩ := Fault.run_bind_ok_iff.mp h₁₂
      obtain ⟨ke₄, rfl⟩ := onKe_ok hfinalize
      obtain ⟨⟨⟩, s₁₄, hlayer, h₁₄⟩ := Fault.run_bind_ok_iff.mp h₁₃
      obtain ⟨⟨vm, layer⟩, hsetup, rfl⟩ := onLayer_ok_iff.mp hlayer
      cases h₁₄
      exact .prepared (of_decide_eq_true hstate) hsetup
    · simp only [hparses, Bool.not_false, if_true] at h₇
      cases h₇
  · simp only [hstate, Bool.not_false, if_true] at h₁
    cases h₁

theorem did_closeConnection {peer : PeerShares C D}
    (h : closeConnection session peer s = .ok () s') :
    Did session s (.closeConnection peer) .done s' := by
  unfold closeConnection at h
  rw [Fault.get_bind] at h
  obtain ⟨⟨⟩, s₁, htake, h₁⟩ := Fault.run_bind_ok_iff.mp h
  cases htake
  by_cases hstate : isActive s.state = true
  · simp only [hstate, Bool.not_true, Bool.false_eq_true, if_false] at h₁
    obtain ⟨⟨⟩, s₂, hsend, h₂⟩ := Fault.run_bind_ok_iff.mp h₁
    cases hsend
    obtain ⟨t, s₃, hlayer, h₃⟩ := Fault.run_bind_ok_iff.mp h₂
    obtain ⟨⟨vm, layer⟩, hcommit, rfl⟩ := onLayer_ok_iff.mp hlayer
    cases h₃
    exact .closed (of_decide_eq_true hstate) hcommit
  · simp only [hstate, Bool.not_false, if_true] at h₁
    cases h₁

/-- An operation which returns does one of these things. -/
theorem run_ok {op : LeaderOp C D} {reply : LeaderReply} (h : op.run session s = .ok reply s') :
    Did session s op reply s' := by
  cases op with
  | prepareEncryption =>
      obtain ⟨⟨⟩, hrun, rfl⟩ := Fault.run_map_ok_iff.mp h
      exact did_prepareEncryption hrun
  | pushIncoming msg =>
      obtain ⟨⟨⟩, hrun, rfl⟩ := Fault.run_map_ok_iff.mp h
      exact did_pushIncoming hrun
  | nextIncoming =>
      obtain ⟨msg, hrun, rfl⟩ := Fault.run_map_ok_iff.mp h
      exact did_nextIncoming hrun
  | pushOutgoing msg =>
      obtain ⟨⟨⟩, hrun, rfl⟩ := Fault.run_map_ok_iff.mp h
      exact did_pushOutgoing hrun
  | nextOutgoing =>
      obtain ⟨msg, hrun, rfl⟩ := Fault.run_map_ok_iff.mp h
      exact did_nextOutgoing hrun
  | startTraffic =>
      obtain ⟨⟨⟩, hrun, rfl⟩ := Fault.run_map_ok_iff.mp h
      exact did_startTraffic hrun
  | flush peer =>
      obtain ⟨⟨⟩, hrun, rfl⟩ := Fault.run_map_ok_iff.mp h
      exact did_flush hrun
  | closeConnection peer =>
      obtain ⟨⟨⟩, hrun, rfl⟩ := Fault.run_map_ok_iff.mp h
      exact did_closeConnection hrun
  | setProtocolVersion version | setCipherSuite suite | setServerRandom random
  | setServerKeyShare key | setServerCertDetails details | setServerKxDetails details
  | getServerFinishedVd hash | getClientFinishedVd hash | isEmpty | deferDecryption =>
      exact .quiet (isNeutral_of_reader rfl h) ((quiet_reader rfl).ok (Quiet.refl s) h)

/-! ## Operations which fail -/

section Failed

open Fault

/-- The state is the error state. -/
def Failed (s : Leader K P) : Prop := s.state = .error

theorem failed_onKe {α : Type} (error : MpcTlsError → BackendError)
    (x : EStateM (Fault MpcTlsError) K α) : Preserves Failed (onKe (P := P) error x) :=
  Preserves.adapt (Preserves.zoom x fun _ _ hs => hs)

theorem failed_onLayer {α : Type} (x : EStateM (Fault MpcTlsError) (Vm × RecordLayer) α) :
    Preserves Failed (onLayer x : Op K P α) :=
  Preserves.adapt (Preserves.zoom x fun _ _ hs => hs)

theorem failed_okOr {α : Type} (name : String) (x : Option α) :
    Preserves Failed (okOr name x : Op K P α) := by
  cases x with
  | none => exact Preserves.throw _
  | some a => exact Preserves.pure a

/-- The state is taken first, and set last. -/
theorem prepareEncryption_fails : Triple (fun _ => True) (prepareEncryption session)
    (fun _ _ => True) fun _ => Failed := by
  refine Triple.bind (Q := fun _ _ => True) (Triple.get fun _ _ => trivial) fun _ => ?_
  refine Triple.bind (Q := fun _ => Failed) (Triple.modify fun _ _ => rfl) fun _ => ?_
  refine Triple.ite (fun _ => Triple.throw fun _ => id) fun _ => ?_
  refine Triple.bind (Q := fun _ => Failed) Preserves.get fun _ => ?_
  refine Triple.bind (failed_okOr _ _) fun _ => Triple.bind (failed_okOr _ _) fun _ => ?_
  refine Triple.bind (failed_okOr _ _) fun _ => Triple.bind (failed_okOr _ _) fun _ => ?_
  refine Triple.bind (failed_okOr _ _) fun _ => Triple.bind (failed_okOr _ _) fun _ => ?_
  refine Triple.ite (fun _ => Triple.throw fun _ => id) fun _ => ?_
  refine Triple.bind (failed_onKe _ _) fun _ => Triple.bind (failed_onKe _ _) fun _ => ?_
  have hissue : Preserves Failed (issue (onKe (P := P) .internalError session.ke.assign)) :=
    Preserves.bind (failed_onKe _ _) fun _ => Preserves.modify fun _ => id
  refine Triple.bind hissue fun _ => ?_
  refine Triple.bind (Preserves.bind Preserves.get fun _ => Preserves.lift _) fun _ => ?_
  refine Triple.bind (failed_onKe _ _) fun _ => Triple.bind (failed_onLayer _) fun _ => ?_
  exact Triple.modify fun _ _ => trivial

theorem closeConnection_fails (peer : PeerShares C D) : Triple (fun _ => True)
    (closeConnection session peer) (fun _ _ => True) fun _ => Failed := by
  refine Triple.bind (Q := fun _ _ => True) (Triple.get fun _ _ => trivial) fun _ => ?_
  refine Triple.bind (Q := fun _ => Failed) (Triple.modify fun _ _ => rfl) fun _ => ?_
  refine Triple.ite (fun _ => Triple.throw fun _ => id) fun _ => ?_
  refine Triple.bind (Q := fun _ => Failed) (Preserves.modify fun _ => id) fun _ => ?_
  exact Triple.bind (failed_onLayer _) fun _ => Triple.modify fun _ _ => trivial

end Failed

variable {e : Fault BackendError}

theorem pushIncoming_error {msg : OpaqueMessage} (h : pushIncoming msg s = .error e s') :
    Quiet s s' := by
  rcases Fault.run_bind_error_iff.mp h with hrequire | ⟨⟨⟩, s₁, hrequire, h₁⟩
  · cases require_error hrequire
    exact Quiet.refl _
  obtain ⟨-, rfl⟩ := require_ok_iff.mp hrequire
  rcases Fault.run_bind_error_iff.mp h₁ with htaken |
    ⟨⟨explicitNonce, ciphertext, tag⟩, s₂, htaken, h₂⟩
  · cases (ofExcept_error htaken).1
    exact Quiet.refl _
  obtain ⟨-, rfl⟩ := ofExcept_ok_iff.mp htaken
  rcases Fault.run_bind_error_iff.mp h₂ with hnew | ⟨bytes, s₃, hnew, h₃⟩
  · cases (ofExcept_error hnew).1
    exact Quiet.refl _
  obtain ⟨-, rfl⟩ := ofExcept_ok_iff.mp hnew
  rcases Fault.run_bind_error_iff.mp h₃ with hpush | ⟨⟨⟩, s₄, -, hsend⟩
  · obtain ⟨e', t, hrun, rfl⟩ := onLayer_error hpush
    obtain ⟨layer, hlayer, rfl⟩ := Fault.onSnd_error hrun
    cases RecordLayer.pushDecrypt_error hlayer
    exact Quiet.refl _
  · cases hsend

theorem pushOutgoing_error {msg : PlainMessage} (h : pushOutgoing msg s = .error e s') :
    Quiet s s' := by
  rcases Fault.run_bind_error_iff.mp h with hrequire | ⟨⟨⟩, s₁, hrequire, h₁⟩
  · cases require_error hrequire
    exact Quiet.refl _
  obtain ⟨-, rfl⟩ := require_ok_iff.mp hrequire
  rcases Fault.run_bind_error_iff.mp h₁ with hpush | ⟨⟨⟩, s₂, -, hsend⟩
  · obtain ⟨e', t, hrun, rfl⟩ := onLayer_error hpush
    obtain ⟨layer, hlayer, rfl⟩ := Fault.onSnd_error hrun
    rcases RecordLayer.pushEncrypt_error hlayer with hsame | ⟨-, -, hfits⟩
    · cases hsame
      exact Quiet.refl _
    · -- the plaintext of a message has the length which is pushed
      refine absurd ⟨?_, ?_⟩ hfits
      · intro bytes hbytes
        cases hbytes
        rfl
      · intro _ hnone
        cases hnone
  · cases hsend

theorem startTraffic_error (h : startTraffic s = .error e s') : Quiet s s' := by
  rcases Fault.run_bind_error_iff.mp h with hrequire | ⟨⟨⟩, s₁, -, h₁⟩
  · cases require_error hrequire
    exact Quiet.refl _
  · cases h₁

/-- A pull fails only where the next record is no message. -/
theorem pull_error {R M : Type} {next : RecordLayer → Option R × RecordLayer}
    {toMessage : R → Except (Fault MpcTlsError) M} (h : pull next toMessage s = .error e s') :
    ∃ record, (next s.recordLayer).1 = some record ∧
      ∃ e', toMessage record = .error e' ∧ e = e'.map .internalError := by
  unfold pull at h
  rw [Fault.get_bind] at h
  generalize next s.recordLayer = r at h
  obtain ⟨record, layer⟩ := r
  cases record with
  | none => cases h
  | some record =>
      obtain ⟨-, e', hmsg, rfl⟩ := ofExcept_error (Fault.run_map_error_iff.mp h)
      exact ⟨record, rfl, e', hmsg, rfl⟩

theorem plainMessage_error {record : PlainRecord} {e' : Fault MpcTlsError}
    (h : plainMessage record = .error e') : e' = .panic := by
  unfold plainMessage Bytes.new at h
  cases hplaintext : record.plaintext with
  | none =>
      rw [hplaintext] at h
      cases h
      rfl
  | some plaintext =>
      simp only [hplaintext] at h
      split at h
      · cases h
      · cases h
        rfl

theorem opaqueMessage_error {record : EncryptedRecord} {e' : Fault MpcTlsError}
    (h : opaqueMessage record = .error e') : e' = .panic := by
  unfold opaqueMessage Bytes.new at h
  cases htag : record.tag with
  | none =>
      rw [htag] at h
      cases h
      rfl
  | some tag =>
      simp only [htag] at h
      split at h
      · cases h
      · cases h
        rfl

theorem nextIncoming_error {e : BackendError} (h : nextIncoming s = .error (.err e) s') :
    s' = s := by
  rcases Fault.run_bind_error_iff.mp h with hrequire | ⟨⟨⟩, s₁, -, hpull⟩
  · exact require_error hrequire
  · obtain ⟨record, -, e', hmsg, he⟩ := pull_error hpull
    cases plainMessage_error hmsg
    cases he

theorem nextOutgoing_error {e : BackendError} (h : nextOutgoing s = .error (.err e) s') :
    s' = s := by
  rcases Fault.run_bind_error_iff.mp h with hrequire | ⟨⟨⟩, s₁, -, hpull⟩
  · exact require_error hrequire
  · obtain ⟨record, -, e', hmsg, he⟩ := pull_error hpull
    cases opaqueMessage_error hmsg
    cases he

def isFlush : LeaderOp C D → Bool
  | .flush _ => true
  | _ => false

/-- An operation other than a flush which fails leaves the record layer as it was, or ends
in the error state. -/
theorem run_error {op : LeaderOp C D} {e : BackendError} (hop : isFlush op = false)
    (h : op.run session s = .error (.err e) s') : Quiet s s' ∨ Failed s' := by
  cases op with
  | prepareEncryption =>
      exact .inr (prepareEncryption_fails.error trivial (Fault.run_map_error_iff.mp h))
  | pushIncoming msg => exact .inl (pushIncoming_error (Fault.run_map_error_iff.mp h))
  | nextIncoming =>
      cases nextIncoming_error (Fault.run_map_error_iff.mp h)
      exact .inl (Quiet.refl _)
  | pushOutgoing msg => exact .inl (pushOutgoing_error (Fault.run_map_error_iff.mp h))
  | nextOutgoing =>
      cases nextOutgoing_error (Fault.run_map_error_iff.mp h)
      exact .inl (Quiet.refl _)
  | startTraffic => exact .inl (startTraffic_error (Fault.run_map_error_iff.mp h))
  | flush peer => cases hop
  | closeConnection peer =>
      exact .inr ((closeConnection_fails peer).error trivial (Fault.run_map_error_iff.mp h))
  | setProtocolVersion version | setCipherSuite suite | setServerRandom random
  | setServerKeyShare key | setServerCertDetails details | setServerKxDetails details
  | getServerFinishedVd hash | getClientFinishedVd hash | isEmpty | deferDecryption =>
      exact .inl ((quiet_reader rfl).error (Quiet.refl s) h)

end Steps

end Leader

end Tlsn.MpcTls

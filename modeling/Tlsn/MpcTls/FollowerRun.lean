import Tlsn.MpcTls.Follower
import Tlsn.MpcTls.RecordWaiting

/-!
Runs of the follower. Whatever the leader sends: as long as the follower goes on, its
record layer has seen the calls which the messages stand for, as if it had been set up
before the first of them.
-/

namespace Tlsn.MpcTls

open Tlsn.Cipher Tlsn.Common Tlsn.Tls

namespace Progress

variable {C D : Type} {p : LayerParams} {e d : Stock} {scheme : HashCommit C D} {mem : Memory}
  {trace : LayerTrace C D} {vm vm₁ vm₁' : Vm} {layer layer' : RecordLayer}

/-- Other parts may use the machine. -/
theorem widen (h : Progress p e d scheme mem trace (vm, layer)) (hvm : ∀ o ∈ vm.log, o ∈ vm₁.log) :
    Progress p e d scheme mem trace (vm₁, layer) := by
  refine ⟨h.role, h.stocked, h.buffered, h.valid, h.fits, h.state, h.tagged,
    fun o ho => hvm o (h.encryptOps o ho), fun o ho => hvm o (h.decryptOps o ho),
    h.counted, ?_, h.plain⟩
  intro i op hop
  obtain ⟨peer, k, j0, hplace, hj0, hverified⟩ := h.verified i op hop
  exact ⟨peer, k, j0, hplace, hj0, hverified.mono hvm⟩

/-- A call has the same outcome on a machine with a smaller log. -/
theorem run_within {call : LayerCall C D} (h : Progress p e d scheme mem trace (vm, layer))
    (hvm : ∀ o ∈ vm.log, o ∈ vm₁.log)
    (hrun : call.run scheme mem (vm₁, layer) = .ok () (vm₁', layer')) :
    ∃ vm', call.run scheme mem (vm, layer) = .ok () (vm', layer') ∧
      ∀ o ∈ vm'.log, o ∈ vm₁'.log := by
  cases call with
  | pushEncrypt typ version len plaintext mode =>
      obtain ⟨hpush, hs⟩ := Fault.onSnd_ok_iff.mp hrun
      rw [show vm₁' = vm₁ from hs]
      exact ⟨vm, Fault.onSnd_ok_iff.mpr ⟨hpush, rfl⟩, hvm⟩
  | pushDecrypt typ version explicitNonce ciphertext tag mode =>
      obtain ⟨hpush, hs⟩ := Fault.onSnd_ok_iff.mp hrun
      rw [show vm₁' = vm₁ from hs]
      exact ⟨vm, Fault.onSnd_ok_iff.mpr ⟨hpush, rfl⟩, hvm⟩
  | flush peer isDecrypting =>
      have h₁ := h.widen hvm
      obtain ⟨tags, hflushes, hs⟩ :=
        (RecordLayer.flush_ok_iff h₁.stocked h₁.buffered h₁.state).mp hrun
      cases hs
      refine ⟨_, (RecordLayer.flush_ok_iff h.stocked h.buffered h.state).mpr
        ⟨tags, hflushes, rfl⟩, ?_⟩
      intro o ho
      cases List.mem_append.mp ho with
      | inl ho => exact List.mem_append_left _ (hvm o ho)
      | inr ho => exact List.mem_append_right _ ho
  | startTraffic =>
      cases hrun
      exact ⟨vm, rfl, hvm⟩

end Progress

namespace Follower

variable {K P C D : Type} {session : Session K P C D} {peer : PeerShares C D} {message : Message}
  {messages : List (Message × PeerShares C D)} {s s' : FollowerState K P}

/-- The calls which the messages stand for. -/
def layerCalls (messages : List (Message × PeerShares C D)) : List (LayerCall C D) :=
  messages.flatMap fun m => m.1.layerCalls m.2

/-- What a message can do. -/
inductive Processed (session : Session K P C D) (peer : PeerShares C D) (s : FollowerState K P) :
    Message → FollowerState K P → Prop where
  | setServerRandom {random : Vector UInt8 32} {prf : P} {ops : List VmOp} :
      Processed session peer s (.setServerRandom random)
        { s with prf := prf, vm := s.vm.push ops, serverRandom := some random }
  | setServerKey {key : PublicKey} {ke : K} {ops : List VmOp} {vm : Vm} {layer : RecordLayer}
      (hnone : s.serverKey = none)
      (hsetup : RecordLayer.setup session.mem session.prepareEncrypt session.prepareDecrypt
        (s.vm.push ops, s.recordLayer) = .ok () (vm, layer)) :
      Processed session peer s (.setServerKey key)
        { s with ke := ke, vm := vm, recordLayer := layer, serverKey := some key }
  | clientFinishedVd {hash : Vector UInt8 32} {prf : P} {ops : List VmOp} {vd : List UInt8}
      (hnone : s.cfVd = none) :
      Processed session peer s (.clientFinishedVd hash)
        { s with prf := prf, vm := s.vm.push ops, cfVd := some vd }
  | serverFinishedVd {hash : Vector UInt8 32} {prf : P} {ops : List VmOp} {vd : List UInt8}
      (hnone : s.sfVd = none) :
      Processed session peer s (.serverFinishedVd hash)
        { s with prf := prf, vm := s.vm.push ops, sfVd := some vd }
  | layer {message : Message} {call : LayerCall C D} {vm : Vm} {layer : RecordLayer}
      (hcall : message.layerCalls peer = [call])
      (hrun : call.run session.scheme session.mem (s.vm, s.recordLayer) = .ok () (vm, layer)) :
      Processed session peer s message { s with vm := vm, recordLayer := layer }
  | closeConnection : Processed session peer s .closeConnection s

theorem onKe_ok_iff {α : Type} {x : EStateM (Fault MpcTlsError) K α} {a : α} :
    onKe x s = .ok a s' ↔ ∃ ke, x s.ke = .ok a ke ∧ s' = { s with ke := ke } :=
  Fault.zoom_ok_iff

theorem onLayer_ok_iff {α : Type} {x : EStateM (Fault MpcTlsError) (Vm × RecordLayer) α} {a : α} :
    onLayer x s = .ok a s' ↔ ∃ t, x (s.vm, s.recordLayer) = .ok a t ∧
      s' = { s with vm := t.1, recordLayer := t.2 } :=
  Fault.zoom_ok_iff

theorem onPrf_ok {x : EStateM (Fault MpcTlsError) P (List VmOp)} (h : onPrf x s = .ok () s') :
    ∃ prf ops, s' = { s with prf := prf, vm := s.vm.push ops } := by
  obtain ⟨ops, s₁, hzoom, hpush⟩ := Fault.run_bind_ok_iff.mp h
  obtain ⟨prf, -, rfl⟩ := Fault.zoom_ok_iff.mp hzoom
  cases hpush
  exact ⟨prf, ops, rfl⟩

theorem executeAll_ok (h : executeAll session s = .ok () s') : s' = s := by
  rw [executeAll, Fault.get_bind] at h
  exact (Fault.lift_ok_iff.mp h).2

theorem decodedVd_ok {text : String} {vd : Vm → Except (Fault MpcTlsError) (Option (List UInt8))}
    {a : List UInt8} (h : decodedVd text vd s = .ok a s') : s' = s := by
  rw [decodedVd, Fault.get_bind] at h
  obtain ⟨decoded, s₁, hvd, hret⟩ := Fault.run_bind_ok_iff.mp h
  obtain ⟨-, rfl⟩ := Fault.lift_ok_iff.mp hvd
  cases decoded with
  | none => cases hret
  | some vd =>
      cases hret
      rfl

theorem setServerRandom_ok {random : Vector UInt8 32}
    (h : setServerRandom session random s = .ok () s') :
    Processed session peer s (.setServerRandom random) s' := by
  rw [setServerRandom, Fault.get_bind] at h
  by_cases hset : s.serverRandom.isSome = true
  · rw [if_pos hset] at h
    cases h
  · rw [if_neg hset] at h
    obtain ⟨⟨⟩, s₁, hprf, hmodify⟩ := Fault.run_bind_ok_iff.mp h
    obtain ⟨prf, ops, rfl⟩ := onPrf_ok hprf
    cases hmodify
    exact .setServerRandom

theorem setServerKey_ok {key : PublicKey} (h : setServerKey session key s = .ok () s') :
    Processed session peer s (.setServerKey key) s' := by
  rw [setServerKey, Fault.get_bind] at h
  by_cases hset : s.serverKey.isSome = true
  · rw [if_pos hset] at h
    cases h
  · rw [if_neg hset] at h
    by_cases hgroup : key.group ≠ .secp256r1
    · rw [if_pos hgroup] at h
      cases h
    · rw [if_neg hgroup] at h
      by_cases hparses : (!session.parsesKey key.key) = true
      · rw [if_pos hparses] at h
        cases h
      · rw [if_neg hparses] at h
        obtain ⟨⟨⟩, s₁, hkey, h⟩ := Fault.run_bind_ok_iff.mp h
        obtain ⟨ke₁, -, rfl⟩ := onKe_ok_iff.mp hkey
        obtain ⟨⟨⟩, s₂, hmodify, h⟩ := Fault.run_bind_ok_iff.mp h
        cases hmodify
        obtain ⟨⟨⟩, s₃, hshares, h⟩ := Fault.run_bind_ok_iff.mp h
        obtain ⟨ke₂, -, rfl⟩ := onKe_ok_iff.mp hshares
        obtain ⟨⟨⟩, s₄, hissue, h⟩ := Fault.run_bind_ok_iff.mp h
        obtain ⟨ops, s₅, hassign, hpush⟩ := Fault.run_bind_ok_iff.mp hissue
        obtain ⟨ke₃, -, rfl⟩ := onKe_ok_iff.mp hassign
        cases hpush
        obtain ⟨⟨⟩, s₆, hexecute, h⟩ := Fault.run_bind_ok_iff.mp h
        cases executeAll_ok hexecute
        obtain ⟨⟨⟩, s₇, hfinalize, h⟩ := Fault.run_bind_ok_iff.mp h
        obtain ⟨ke₄, -, rfl⟩ := onKe_ok_iff.mp hfinalize
        obtain ⟨⟨vm, layer⟩, hsetup, rfl⟩ := onLayer_ok_iff.mp h
        exact .setServerKey (Option.not_isSome_iff_eq_none.mp hset) hsetup

theorem computeVd_ok {already missing : String} {current : FollowerState K P → Option (List UInt8)}
    {set : List UInt8 → FollowerState K P → FollowerState K P}
    {setHash : EStateM (Fault MpcTlsError) P (List VmOp)}
    {vd : Vm → Except (Fault MpcTlsError) (Option (List UInt8))}
    (h : computeVd session already missing current set setHash vd s = .ok () s') :
    current s = none ∧ ∃ prf ops vd, s' = set vd { s with prf := prf, vm := s.vm.push ops } := by
  rw [computeVd, Fault.get_bind] at h
  by_cases hset : (current s).isSome = true
  · rw [if_pos hset] at h
    cases h
  · rw [if_neg hset] at h
    obtain ⟨⟨⟩, s₁, hprf, h⟩ := Fault.run_bind_ok_iff.mp h
    obtain ⟨prf, ops, rfl⟩ := onPrf_ok hprf
    obtain ⟨⟨⟩, s₂, hexecute, h⟩ := Fault.run_bind_ok_iff.mp h
    cases executeAll_ok hexecute
    obtain ⟨decoded, s₃, hvd, hmodify⟩ := Fault.run_bind_ok_iff.mp h
    cases decodedVd_ok hvd
    cases hmodify
    exact ⟨Option.not_isSome_iff_eq_none.mp hset, prf, ops, decoded, rfl⟩

theorem process_ok (h : process session peer message s = .ok () s') :
    Processed session peer s message s' := by
  cases message with
  | setServerRandom random => exact setServerRandom_ok h
  | setServerKey key => exact setServerKey_ok h
  | clientFinishedVd hash =>
      obtain ⟨hnone, prf, ops, vd, rfl⟩ := computeVd_ok h
      exact .clientFinishedVd hnone
  | serverFinishedVd hash =>
      obtain ⟨hnone, prf, ops, vd, rfl⟩ := computeVd_ok h
      exact .serverFinishedVd hnone
  | encrypt typ version len plaintext mode =>
      obtain ⟨⟨vm, layer⟩, hrun, rfl⟩ := onLayer_ok_iff.mp h
      exact .layer rfl (Fault.adapt_ok_iff.mp hrun)
  | decrypt typ version explicitNonce ciphertext tag mode =>
      obtain ⟨⟨vm, layer⟩, hrun, rfl⟩ := onLayer_ok_iff.mp h
      exact .layer rfl (Fault.adapt_ok_iff.mp hrun)
  | startTraffic =>
      obtain ⟨⟨vm, layer⟩, hrun, rfl⟩ := onLayer_ok_iff.mp h
      exact .layer rfl hrun
  | flush isDecrypting =>
      obtain ⟨⟨vm, layer⟩, hrun, rfl⟩ := onLayer_ok_iff.mp h
      exact .layer rfl hrun
  | closeConnection =>
      cases h
      exact .closeConnection

/-! ## The record layer -/

/-- The layer which was allocated at the start is set up with what the session prepares. -/
structure SetUp (session : Session K P C D) (p : LayerParams) (start : RecordLayer)
    (s₀ : Vm × RecordLayer) : Prop where
  setup : ∃ vm s₁ ops, p.alloc (vm, p.create) = .ok () s₁ ∧ s₁.2 = start ∧
    RecordLayer.setup session.mem session.prepareEncrypt session.prepareDecrypt
      (s₁.1.push ops, s₁.2) = .ok () s₀

/-- What the record layer has seen: the calls of the messages. Before the server's key
is there, it waits; from then on, it is where these calls take a layer that is set up. -/
def Layered (session : Session K P C D) (p : LayerParams) (start : RecordLayer)
    (calls : List (LayerCall C D)) (s : FollowerState K P) : Prop :=
  match s.serverKey with
  | none => ∃ vm s₁, p.alloc (vm, p.create) = .ok () s₁ ∧ s₁.2 = start ∧ s₁.1.Extends s.vm ∧
      RecordLayer.Unequipped session.scheme session.mem calls s₁.2 s.recordLayer
  | some _ => ∃ s₀ vm, SetUp session p start s₀ ∧
      LayerCall.runAll session.scheme session.mem calls s₀ = .ok () (vm, s.recordLayer) ∧
      ∀ o ∈ vm.log, o ∈ s.vm.log

variable {p : LayerParams} {start : RecordLayer} {calls : List (LayerCall C D)}
  {s₀ : Vm × RecordLayer}

theorem SetUp.established (h : SetUp session p start s₀) : p.Established session.mem s₀ := by
  obtain ⟨vm, s₁, ops, halloc, -, hsetup⟩ := h.setup
  exact ⟨vm, s₁, ops, _, _, halloc, hsetup⟩

/-- The decrypter takes its blocks from what was allocated, and hashes with what is prepared from
its share of the key. -/
theorem SetUp.decrypter (h : SetUp session p start s₀) :
    ∃ resources ghashKey ghash, start.decrypter.state = .setup resources ghashKey ∧
      session.prepareDecrypt (ghashKey.share session.mem).toList = .ok ghash ∧
      s₀.2.decrypter.state = .ready resources ghash := by
  obtain ⟨vm, s₁, ops, -, rfl, hsetup⟩ := h.setup
  obtain ⟨⟨⟩, s₂, hencrypt, hdecrypt⟩ := Fault.run_bind_ok_iff.mp hsetup
  obtain ⟨t, -, rfl⟩ := RecordLayer.onEncrypter_ok_iff.mp hencrypt
  obtain ⟨u, hsetup', rfl⟩ := RecordLayer.onDecrypter_ok_iff.mp hdecrypt
  obtain ⟨hdecrypter, -⟩ := Fault.onSnd_ok_iff.mp hsetup'
  exact MpcAesGcm.setup_state (Fault.adapt_ok_iff.mp hdecrypter)

/-- What else is done to the machine does not matter. -/
theorem Layered.extends (h : Layered session p start calls s) (hkey : s'.serverKey = s.serverKey)
    (hlayer : s'.recordLayer = s.recordLayer) (hvm : s.vm.Extends s'.vm) :
    Layered session p start calls s' := by
  unfold Layered at h ⊢
  rw [hkey, hlayer]
  cases hserver : s.serverKey with
  | none =>
      rw [hserver] at h
      obtain ⟨vm, s₁, halloc, hstart, hextends, hcalls⟩ := h
      exact ⟨vm, s₁, halloc, hstart, Vm.Extends.trans _ _ _ hextends hvm, hcalls⟩
  | some key =>
      rw [hserver] at h
      obtain ⟨s₀, vm, hstart, hrun, hlog⟩ := h
      obtain ⟨ops, hops⟩ := hvm
      refine ⟨s₀, vm, hstart, hrun, fun o ho => ?_⟩
      rw [hops]
      exact List.mem_append_left _ (hlog o ho)

/-- A call of the record layer. -/
theorem Layered.call {call : LayerCall C D} {vm : Vm} {layer : RecordLayer}
    (h : Layered session p start calls s)
    (hrun : call.run session.scheme session.mem (s.vm, s.recordLayer) = .ok () (vm, layer)) :
    Layered session p start (calls ++ [call]) { s with vm := vm, recordLayer := layer } := by
  unfold Layered at h ⊢
  cases hserver : s.serverKey with
  | none =>
      rw [hserver] at h
      obtain ⟨vm₀, s₁, halloc, hstart, hextends, hcalls⟩ := h
      obtain ⟨rfl, hcall⟩ := hcalls.waiting.run hrun
      exact ⟨vm₀, s₁, halloc, hstart, hextends, hcalls.append hcall⟩
  | some key =>
      rw [hserver] at h
      obtain ⟨s₀, vm₀, hstart, hcalls, hlog⟩ := h
      obtain ⟨e, d, hprogress, -⟩ :
          ∃ e d : Stock, Progress p e d session.scheme session.mem .empty s₀ ∧ _ :=
        Progress.of_established hstart.established
      obtain ⟨trace, hfinal, -⟩ := hprogress.runAll calls hcalls
      obtain ⟨vm', hcall, hlog'⟩ := hfinal.run_within hlog hrun
      exact ⟨s₀, vm', hstart, LayerCall.runAll_append hcalls
        (LayerCall.runAll_singleton hcall), hlog'⟩

/-- The server's key sets the layer up. -/
theorem Layered.setup {ops : List VmOp} {ke : K} {key : PublicKey} {vm : Vm} {layer : RecordLayer}
    (h : Layered session p start calls s) (hnone : s.serverKey = none)
    (hsetup : RecordLayer.setup session.mem session.prepareEncrypt session.prepareDecrypt
      (s.vm.push ops, s.recordLayer) = .ok () (vm, layer)) :
    Layered session p start calls
      { s with ke := ke, vm := vm, recordLayer := layer, serverKey := some key } := by
  unfold Layered at h ⊢
  rw [hnone] at h
  obtain ⟨vm₀, s₁, halloc, hstart, hextends, hcalls⟩ := h
  obtain ⟨encrypter, decrypter, heq, hequip⟩ := RecordLayer.setup_equip hsetup
  cases heq
  have hsetup₁ := hequip (s₁.1.push []) s₁.2 hcalls.encrypter.symm hcalls.decrypter.symm
  refine ⟨_, s₁.1.push [], ⟨vm₀, s₁, [], halloc, hstart, hsetup₁⟩,
    hcalls.equipped (s₁.1.push []) encrypter decrypter, ?_⟩
  intro o ho
  obtain ⟨ops', hops'⟩ := Vm.Extends.trans _ _ _ hextends (Vm.Extends.push s.vm ops)
  rw [Vm.push_nil] at ho
  simp only [hops']
  exact List.mem_append_left _ ho

theorem Processed.layered (h : Processed session peer s message s')
    (hlayered : Layered session p start calls s) :
    Layered session p start (calls ++ message.layerCalls peer) s' := by
  cases h with
  | setServerRandom =>
      simp only [Message.layerCalls, List.append_nil]
      exact hlayered.extends rfl rfl (Vm.Extends.push _ _)
  | setServerKey hnone hsetup =>
      simp only [Message.layerCalls, List.append_nil]
      exact hlayered.setup hnone hsetup
  | clientFinishedVd hnone =>
      simp only [Message.layerCalls, List.append_nil]
      exact hlayered.extends rfl rfl (Vm.Extends.push _ _)
  | serverFinishedVd hnone =>
      simp only [Message.layerCalls, List.append_nil]
      exact hlayered.extends rfl rfl (Vm.Extends.push _ _)
  | layer hcall hrun =>
      rw [hcall]
      exact hlayered.call hrun
  | closeConnection =>
      simp only [Message.layerCalls, List.append_nil]
      exact hlayered

/-! ## What was set -/

/-- What is set was set by one of the messages. -/
structure Counted (messages : List (Message × PeerShares C D)) (s : FollowerState K P) : Prop where
  serverKey : (messages.map Prod.fst).filter Message.isSetServerKey =
    s.serverKey.toList.map Message.setServerKey
  cfVd : ((messages.map Prod.fst).filter Message.isClientFinishedVd).length = s.cfVd.toList.length
  sfVd : ((messages.map Prod.fst).filter Message.isServerFinishedVd).length = s.sfVd.toList.length

theorem Counted.snoc (h : Counted messages s)
    (hkey : [message].filter Message.isSetServerKey = [] → s'.serverKey = s.serverKey)
    (hkey' : ∀ key, message = .setServerKey key → s.serverKey = none ∧ s'.serverKey = some key)
    (hcf : s'.cfVd.toList.length =
      s.cfVd.toList.length + ([message].filter Message.isClientFinishedVd).length)
    (hsf : s'.sfVd.toList.length =
      s.sfVd.toList.length + ([message].filter Message.isServerFinishedVd).length) :
    Counted (messages ++ [(message, peer)]) s' := by
  refine ⟨?_, ?_, ?_⟩
  · rw [List.map_append, List.filter_append, h.serverKey]
    cases message with
    | setServerKey key =>
        obtain ⟨hnone, hsome⟩ := hkey' key rfl
        rw [hnone, hsome]
        rfl
    | _ =>
        rw [hkey rfl]
        exact List.append_nil _
  · rw [List.map_append, List.filter_append, List.length_append, h.cfVd, hcf]
    rfl
  · rw [List.map_append, List.filter_append, List.length_append, h.sfVd, hsf]
    rfl

theorem Processed.counted (h : Processed session peer s message s')
    (hcounted : Counted messages s) :
    Counted (messages ++ [(message, peer)]) s' := by
  cases h with
  | setServerRandom => exact hcounted.snoc (fun _ => rfl) (fun key hkey => (nomatch hkey)) rfl rfl
  | setServerKey hnone hsetup =>
      refine hcounted.snoc (fun hkey => (nomatch hkey)) (fun key hkey => ?_) rfl rfl
      cases hkey
      exact ⟨hnone, rfl⟩
  | clientFinishedVd hnone =>
      refine hcounted.snoc (fun _ => rfl) (fun key hkey => (nomatch hkey)) ?_ rfl
      rw [hnone]
      rfl
  | serverFinishedVd hnone =>
      refine hcounted.snoc (fun _ => rfl) (fun key hkey => (nomatch hkey)) rfl ?_
      rw [hnone]
      rfl
  | layer hcall hrun =>
      cases message with
      | encrypt _ _ _ _ _ =>
          exact hcounted.snoc (fun _ => rfl) (fun key hkey => (nomatch hkey)) rfl rfl
      | decrypt _ _ _ _ _ _ =>
          exact hcounted.snoc (fun _ => rfl) (fun key hkey => (nomatch hkey)) rfl rfl
      | startTraffic =>
          exact hcounted.snoc (fun _ => rfl) (fun key hkey => (nomatch hkey)) rfl rfl
      | flush _ => exact hcounted.snoc (fun _ => rfl) (fun key hkey => (nomatch hkey)) rfl rfl
      | setServerRandom _ => cases hcall
      | setServerKey _ => cases hcall
      | clientFinishedVd _ => cases hcall
      | serverFinishedVd _ => cases hcall
      | closeConnection => cases hcall
  | closeConnection => exact hcounted.snoc (fun _ => rfl) (fun key hkey => (nomatch hkey)) rfl rfl

/-! ## Runs -/

theorem loop_cons_of_ne (h : message ≠ .closeConnection) :
    loop session ((message, peer) :: messages) =
      (do process session peer message; loop session messages) := by
  cases message with
  | closeConnection => exact absurd rfl h
  | _ => rfl

/-- The messages up to the one which closes the connection are processed. -/
theorem loop_ok {before : List (Message × PeerShares C D)}
    (hlayered : Layered session p start calls s)
    (hcounted : Counted before s) (h : loop session messages s = .ok peer s') :
    ∃ processed rest, messages = processed ++ (.closeConnection, peer) :: rest ∧
      (∀ m ∈ processed, m.1 ≠ .closeConnection) ∧
      Layered session p start (calls ++ layerCalls processed) s' ∧
        Counted (before ++ processed) s' := by
  induction messages generalizing s calls before with
  | nil => cases h
  | cons m messages ih =>
      obtain ⟨message, shares⟩ := m
      by_cases hclose : message = .closeConnection
      · subst hclose
        cases h
        refine ⟨[], messages, rfl, fun m hm => (nomatch hm), ?_, ?_⟩
        · rwa [layerCalls, List.flatMap_nil, List.append_nil]
        · rwa [List.append_nil]
      · rw [loop_cons_of_ne hclose] at h
        obtain ⟨⟨⟩, s₁, hprocess, hloop⟩ := Fault.run_bind_ok_iff.mp h
        have hprocessed := process_ok hprocess
        obtain ⟨processed, rest, rfl, hne, hlayered', hcounted'⟩ :=
          ih (hprocessed.layered hlayered) (hprocessed.counted hcounted) hloop
        refine ⟨(message, shares) :: processed, rest, rfl,
          List.forall_mem_cons.mpr ⟨hclose, hne⟩, ?_, ?_⟩
        · rwa [List.append_assoc] at hlayered'
        · rwa [List.append_assoc] at hcounted'

theorem okOr_ok {α : Type} {text : String} {x : Option α} {a : α}
    (h : (okOr text x : EStateM _ (FollowerState K P) α) s = .ok a s') : x = some a ∧ s' = s := by
  cases x with
  | none => cases h
  | some b =>
      cases h
      exact ⟨rfl, rfl⟩

theorem Ready.layered (hready : Ready p s) : Layered session p s.recordLayer [] s := by
  obtain ⟨vm, s₁, halloc, hlayer, hvm⟩ := hready.alloc
  unfold Layered
  rw [hready.serverKey]
  refine ⟨vm, s₁, halloc, hlayer.symm, hvm, ?_⟩
  rw [hlayer]
  exact RecordLayer.Unequipped.nil (LayerParams.alloc_waiting halloc)

/-- What a run of the follower that succeeds has done. -/
structure Accepted (session : Session K P C D) (p : LayerParams) (start : RecordLayer)
    (messages : List (Message × PeerShares C D)) (data : FollowerData)
    (processed : List (Message × PeerShares C D)) (peer : PeerShares C D)
    (s₀ s₁ s₂ : Vm × RecordLayer) (cfVd sfVd : List UInt8) : Prop where
  messages : ∃ rest, messages = processed ++ (.closeConnection, peer) :: rest
  unclosed : ∀ m ∈ processed, m.1 ≠ .closeConnection
  setUp : SetUp session p start s₀
  ran : ∃ vm, LayerCall.runAll session.scheme session.mem (layerCalls processed) s₀ =
    .ok () (vm, s₁.2) ∧ ∀ o ∈ vm.log, o ∈ s₁.1.log
  committed : RecordLayer.commit session.scheme session.cipher session.mem peer s₁ =
    .ok data.transcript s₂
  serverKey : (processed.map Prod.fst).filter Message.isSetServerKey =
    [.setServerKey data.serverKey]
  clientFinishedVd : ((processed.map Prod.fst).filter Message.isClientFinishedVd).length = 1
  serverFinishedVd : ((processed.map Prod.fst).filter Message.isServerFinishedVd).length = 1
  validated : validateTranscript session.otherPayloads cfVd sfVd data.transcript = .ok ()

theorem run_ok {data : FollowerData} (hready : Ready p s)
    (h : run session messages s = .ok data s') :
    ∃ processed peer s₀ s₁ cfVd sfVd, s'.serverKey = some data.serverKey ∧ s'.cfVd = some cfVd ∧
      s'.sfVd = some sfVd ∧ Accepted session p s.recordLayer messages data processed peer s₀ s₁
        (s'.vm, s'.recordLayer) cfVd sfVd := by
  have hlayered : Layered session p s.recordLayer [] s := hready.layered
  have hcounted : Counted ([] : List (Message × PeerShares C D)) s := by
    refine ⟨?_, ?_, ?_⟩
    · rw [hready.serverKey]
      rfl
    · rw [hready.cfVd]
      rfl
    · rw [hready.sfVd]
      rfl
  obtain ⟨peer, s₁, hloop, h⟩ := Fault.run_bind_ok_iff.mp h
  obtain ⟨processed, rest, hmessages, hne, hlayered', hcounted'⟩ := loop_ok hlayered hcounted hloop
  obtain ⟨t, s₂, hcommitOk, h⟩ := Fault.run_bind_ok_iff.mp h
  obtain ⟨⟨vm', layer'⟩, hcommit, rfl⟩ := onLayer_ok_iff.mp hcommitOk
  rw [Fault.get_bind] at h
  obtain ⟨serverKey, s₃, hkeyOk, h⟩ := Fault.run_bind_ok_iff.mp h
  obtain ⟨hkey, rfl⟩ := okOr_ok hkeyOk
  rw [Fault.get_bind] at h
  obtain ⟨cfVd, s₄, hcfOk, h⟩ := Fault.run_bind_ok_iff.mp h
  obtain ⟨hcf, rfl⟩ := okOr_ok hcfOk
  rw [Fault.get_bind] at h
  obtain ⟨sfVd, s₅, hsfOk, h⟩ := Fault.run_bind_ok_iff.mp h
  obtain ⟨hsf, rfl⟩ := okOr_ok hsfOk
  obtain ⟨⟨⟩, s₆, hvalidate, hret⟩ := Fault.run_bind_ok_iff.mp h
  obtain ⟨hvalid, rfl⟩ := Fault.lift_ok_iff.mp hvalidate
  cases hret
  simp only at hkey hcf hsf
  unfold Layered at hlayered'
  rw [hkey] at hlayered'
  obtain ⟨s₀, vm₀, hstart, hrun, hlog⟩ := hlayered'
  refine ⟨processed, peer, s₀, (s₁.vm, s₁.recordLayer), cfVd, sfVd, hkey, hcf, hsf,
    ⟨rest, hmessages⟩, hne, hstart, ⟨vm₀, hrun, hlog⟩, hcommit, ?_, ?_, ?_, hvalid⟩
  · have hset := hcounted'.serverKey
    rw [hkey] at hset
    exact hset
  · have hset := hcounted'.cfVd
    rw [hcf] at hset
    exact hset
  · have hset := hcounted'.sfVd
    rw [hsf] at hset
    exact hset

end Follower

end Tlsn.MpcTls

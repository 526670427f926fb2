import Tlsn.MpcTls.LeaderSteps
import Tlsn.MpcTls.Unpulled
import Tlsn.MpcTls.VmLog

/-!
Runs of the leader, with what it was given and what it returned. The calls of its record
layer are traced as if the records that were taken out were still in it.
-/

namespace Tlsn.MpcTls

open Tlsn.Cipher Tlsn.Common Tlsn.Tls
open Fault (Preserves)

namespace RecordLayer

/-- No record can be taken out, and application data is held back. -/
structure Unreleased (layer : RecordLayer) : Prop where
  encrypted : layer.encryptedBuffer = []
  decrypted : layer.decryptedBuffer = []
  started : layer.started = false

theorem unreleased_takeInit : Preserves (fun s => s.2.Unreleased) takeInit := by
  constructor
  intro s h
  unfold takeInit
  split
  · exact ⟨h.encrypted, h.decrypted, h.started⟩
  · exact ⟨h.encrypted, h.decrypted, h.started⟩

theorem unreleased_alloc (p : LayerParams) : Preserves (fun s => s.2.Unreleased) p.alloc := by
  refine Preserves.bind unreleased_takeInit fun _ => ?_
  refine Preserves.bind (Preserves.zoom _ fun _ _ h => ⟨h.encrypted, h.decrypted, h.started⟩) ?_
  refine fun _ =>
    Preserves.bind (Preserves.zoom _ fun _ _ h => ⟨h.encrypted, h.decrypted, h.started⟩) ?_
  refine fun _ =>
    Preserves.bind (Preserves.zoom _ fun _ _ h => ⟨h.encrypted, h.decrypted, h.started⟩) ?_
  exact fun _ => Preserves.modify fun _ h => ⟨h.encrypted, h.decrypted, h.started⟩

variable {C D : Type} {scheme : HashCommit C D} {mem : Memory}

/-- While the layer waits, no record gets to where it can be taken out. -/
theorem Waiting.unreleased {call : LayerCall C D} {vm vm' : Vm} {layer layer' : RecordLayer}
    (h : layer.Waiting) (hcall : call ≠ .startTraffic) (hlayer : layer.Unreleased)
    (hrun : call.run scheme mem (vm, layer) = .ok () (vm', layer')) : layer'.Unreleased := by
  cases call with
  | pushEncrypt typ version len plaintext mode =>
      obtain ⟨hpush, -⟩ := Fault.onSnd_ok_iff.mp hrun
      obtain ⟨-, -, -, hs⟩ := pushEncrypt_ok_iff.mp hpush
      rw [show layer' = _ from hs]
      exact ⟨hlayer.encrypted, hlayer.decrypted, hlayer.started⟩
  | pushDecrypt typ version explicitNonce ciphertext tag mode =>
      obtain ⟨hpush, -⟩ := Fault.onSnd_ok_iff.mp hrun
      obtain ⟨-, -, hs⟩ := pushDecrypt_ok_iff.mp hpush
      rw [show layer' = _ from hs]
      exact ⟨hlayer.encrypted, hlayer.decrypted, hlayer.started⟩
  | flush peer isDecrypting =>
      obtain ⟨-, hs⟩ := Waiting.flush (s := (vm, layer)) h hrun
      cases hs
      exact hlayer
  | startTraffic => exact absurd rfl hcall

end RecordLayer

namespace Progress

variable {C D : Type} {p : LayerParams} {e d : Stock} {scheme : HashCommit C D} {mem : Memory}
  {trace : LayerTrace C D} {s s' : Vm × RecordLayer}

/-- No call touches the stream cipher, and only the start of traffic starts it. -/
theorem call_frame {call : LayerCall C D} (h : Progress p e d scheme mem trace s)
    (hrun : call.run scheme mem s = .ok () s') :
    s'.2.aesCtr = s.2.aesCtr ∧ (call ≠ .startTraffic → s'.2.started = s.2.started) := by
  cases call with
  | pushEncrypt typ version len plaintext mode =>
      obtain ⟨hpush, -⟩ := Fault.onSnd_ok_iff.mp hrun
      obtain ⟨-, -, -, hs⟩ := RecordLayer.pushEncrypt_ok_iff.mp hpush
      rw [hs]
      exact ⟨rfl, fun _ => rfl⟩
  | pushDecrypt typ version explicitNonce ciphertext tag mode =>
      obtain ⟨hpush, -⟩ := Fault.onSnd_ok_iff.mp hrun
      obtain ⟨-, -, hs⟩ := RecordLayer.pushDecrypt_ok_iff.mp hpush
      rw [hs]
      exact ⟨rfl, fun _ => rfl⟩
  | flush peer isDecrypting =>
      obtain ⟨tags, -, rfl⟩ := (RecordLayer.flush_ok_iff h.stocked h.buffered h.state).mp hrun
      exact ⟨rfl, fun _ => rfl⟩
  | startTraffic =>
      cases hrun
      exact ⟨rfl, fun hcall => absurd rfl hcall⟩

theorem aesCtr_runAll (calls : List (LayerCall C D)) (h : Progress p e d scheme mem trace s)
    (hrun : LayerCall.runAll scheme mem calls s = .ok () s') : s'.2.aesCtr = s.2.aesCtr := by
  induction calls generalizing trace s with
  | nil =>
      cases hrun
      rfl
  | cons call calls ih =>
      obtain ⟨⟨⟩, s₁, hcall, hrest⟩ := Fault.run_bind_ok_iff.mp hrun
      obtain ⟨trace', hprogress, -⟩ := h.runAll [call] (LayerCall.runAll_singleton hcall)
      rw [ih hprogress hrest, (h.call_frame hcall).1]

end Progress

variable {K P C D : Type}

namespace LeaderEvent

/-- The message which was pushed to be sent. -/
def pushedOutgoing : LeaderEvent C D → Option PlainMessage
  | (.pushOutgoing msg, _) => some msg
  | _ => none

/-- The message which was pushed to be decrypted. -/
def pushedIncoming : LeaderEvent C D → Option OpaqueMessage
  | (.pushIncoming msg, _) => some msg
  | _ => none

/-- The message which is to be sent. -/
def nextOutgoing : LeaderEvent C D → Option OpaqueMessage
  | (_, .outgoing msg) => msg
  | _ => none

/-- The message which was decrypted. -/
def nextIncoming : LeaderEvent C D → Option PlainMessage
  | (_, .incoming msg) => msg
  | _ => none

def startsTraffic : LeaderEvent C D → Bool
  | (.startTraffic, _) => true
  | _ => false

end LeaderEvent

namespace LayerCall

def isPushEncrypt : LayerCall C D → Bool
  | .pushEncrypt _ _ _ _ _ => true
  | _ => false

def isPushDecrypt : LayerCall C D → Bool
  | .pushDecrypt _ _ _ _ _ _ => true
  | _ => false

end LayerCall

namespace Leader

/-- The runs of the leader. Operations may fail, but no flush. -/
inductive Runs (session : Session K P C D) (p : LayerParams) :
    List (LeaderEvent C D) → Leader K P → Prop
  | ready {s : Leader K P} (h : Ready p s) : Runs session p [] s
  | returned {events : List (LeaderEvent C D)} {s s' : Leader K P} {op : LeaderOp C D}
      {reply : LeaderReply} (h : Runs session p events s) (hop : op.run session s = .ok reply s') :
      Runs session p (events ++ [(op, reply)]) s'
  | failed {events : List (LeaderEvent C D)} {s s' : Leader K P} {op : LeaderOp C D}
      {e : BackendError} (h : Runs session p events s) (hflush : isFlush op = false)
      (hop : op.run session s = .error (.err e) s') : Runs session p events s'

/-- Where the record layer is, with the records that were taken out put back: it waits to be
set up; it has taken the calls since; or it is committed after them. -/
def Phase (session : Session K P C D) (p : LayerParams) (calls : List (LayerCall C D))
    (E : List EncryptedRecord) (D' : List PlainRecord) (s : Leader K P) : Prop :=
  match s.state with
  | .handshake => ∃ vm s₁, p.alloc (vm, p.create) = .ok () s₁ ∧ s₁.1.Extends s.vm ∧
      RecordLayer.Unequipped session.scheme session.mem calls s₁.2 s.recordLayer ∧
      s.recordLayer.Unreleased ∧ E = [] ∧ D' = []
  | .active => ∃ s₀ vm, p.Established session.mem s₀ ∧
      LayerCall.runAll session.scheme session.mem calls s₀ =
        .ok () (vm, s.recordLayer.unpulled E D') ∧ ∀ o ∈ vm.log, o ∈ s.vm.log
  | .closed t => ∃ s₀ vm layer vm₁ vm₂ peer, p.Established session.mem s₀ ∧
      LayerCall.runAll session.scheme session.mem calls s₀ = .ok () (vm, layer) ∧
      (∀ o ∈ vm.log, o ∈ vm₁.log) ∧
      RecordLayer.commit session.scheme session.cipher session.mem peer (vm₁, layer) =
        .ok t (vm₂, s.recordLayer.unpulled E D') ∧ ∀ o ∈ vm₂.log, o ∈ s.vm.log
  | _ => False

/-- The calls and the records are those of the events. -/
structure History (events : List (LeaderEvent C D)) (calls : List (LayerCall C D))
    (E : List EncryptedRecord) (D' : List PlainRecord) (started : Bool) : Prop where
  pushedOutgoing : calls.filter LayerCall.isPushEncrypt =
    (events.filterMap LeaderEvent.pushedOutgoing).map PlainMessage.call
  pushedIncoming : List.Forall₂
    (fun msg call => ∃ explicitNonce ciphertext tag,
      OpaqueMessage.Calls msg explicitNonce ciphertext tag call)
    (events.filterMap LeaderEvent.pushedIncoming) (calls.filter LayerCall.isPushDecrypt)
  nextOutgoing : List.Forall₂ (fun record msg => opaqueMessage record = .ok msg) E
    (events.filterMap LeaderEvent.nextOutgoing)
  nextIncoming : List.Forall₂ (fun record msg => plainMessage record = .ok msg) D'
    (events.filterMap LeaderEvent.nextIncoming)
  held : events.any LeaderEvent.startsTraffic = false → started = false ∧
    (∀ record ∈ E, record.typ ≠ .applicationData) ∧ ∀ record ∈ D', record.typ ≠ .applicationData

/-- The events are traced in the record layer. -/
def Traced (session : Session K P C D) (p : LayerParams) (events : List (LeaderEvent C D))
    (s : Leader K P) : Prop :=
  ∃ calls E D', Phase session p calls E D' s ∧ History events calls E D' s.recordLayer.started

section Steps

variable {session : Session K P C D} {p : LayerParams} {events : List (LeaderEvent C D)}
  {calls : List (LayerCall C D)} {E : List EncryptedRecord} {D' : List PlainRecord}
  {s s' : Leader K P}

theorem Phase.quiet (h : Phase session p calls E D' s) (hquiet : Quiet s s') :
    Phase session p calls E D' s' := by
  have hlog : ∀ o ∈ s.vm.log, o ∈ s'.vm.log := by
    obtain ⟨ops, hops⟩ := hquiet.vm
    intro o ho
    rw [hops]
    exact List.mem_append_left _ ho
  unfold Phase at h ⊢
  rw [hquiet.state, hquiet.recordLayer]
  cases hstate : s.state with
  | init | setup | error =>
      rw [hstate] at h
      exact h
  | handshake =>
      rw [hstate] at h
      obtain ⟨vm, s₁, halloc, hextends, hcalls⟩ := h
      exact ⟨vm, s₁, halloc, Vm.Extends.trans _ _ _ hextends hquiet.vm, hcalls⟩
  | active =>
      rw [hstate] at h
      obtain ⟨s₀, vm, hstart, hrun, hvm⟩ := h
      exact ⟨s₀, vm, hstart, hrun, fun o ho => hlog o (hvm o ho)⟩
  | closed t =>
      rw [hstate] at h
      obtain ⟨s₀, vm, layer, vm₁, vm₂, peer, hstart, hrun, hvm₁, hcommit, hvm₂⟩ := h
      exact ⟨s₀, vm, layer, vm₁, vm₂, peer, hstart, hrun, hvm₁, hcommit,
        fun o ho => hlog o (hvm₂ o ho)⟩

theorem silent_of_neutral {op : LeaderOp C D} {reply : LeaderReply}
    (hop : isNeutral op reply = true) :
    LeaderEvent.pushedOutgoing (op, reply) = none ∧ LeaderEvent.pushedIncoming (op, reply) = none ∧
      LeaderEvent.nextOutgoing (op, reply) = none ∧
        LeaderEvent.nextIncoming (op, reply) = none := by
  cases reply with
  | incoming msg =>
      cases msg <;> cases op <;> first | exact ⟨rfl, rfl, rfl, rfl⟩ | cases hop
  | outgoing msg =>
      cases msg <;> cases op <;> first | exact ⟨rfl, rfl, rfl, rfl⟩ | cases hop
  | done | finishedVd vd | empty b =>
      cases op <;> first | exact ⟨rfl, rfl, rfl, rfl⟩ | cases hop

theorem filterMap_snoc {α β : Type} (f : α → Option β) (xs : List α) (x : α) :
    (xs ++ [x]).filterMap f = xs.filterMap f ++ (f x).toList := by
  rw [List.filterMap_append]
  cases hx : f x with
  | none => rw [List.filterMap_cons_none hx, List.filterMap_nil, Option.toList_none]
  | some y => rw [List.filterMap_cons_some hx, List.filterMap_nil, Option.toList_some]

/-- One more event, with the calls it makes and the records it takes out. -/
theorem History.snoc {started started' : Bool} {event : LeaderEvent C D}
    {calls' : List (LayerCall C D)} {E' : List EncryptedRecord} {D'' : List PlainRecord}
    (h : History events calls E D' started)
    (hpushOut : calls'.filter LayerCall.isPushEncrypt =
      event.pushedOutgoing.toList.map PlainMessage.call)
    (hpushIn : List.Forall₂ (fun msg call => ∃ explicitNonce ciphertext tag,
      OpaqueMessage.Calls msg explicitNonce ciphertext tag call)
      event.pushedIncoming.toList (calls'.filter LayerCall.isPushDecrypt))
    (hnextOut : List.Forall₂ (fun record msg => opaqueMessage record = .ok msg) E'
      event.nextOutgoing.toList)
    (hnextIn : List.Forall₂ (fun record msg => plainMessage record = .ok msg) D''
      event.nextIncoming.toList)
    (hheld : event.startsTraffic = false → started = false → started' = false ∧
      (∀ record ∈ E', record.typ ≠ .applicationData) ∧
        ∀ record ∈ D'', record.typ ≠ .applicationData) :
    History (events ++ [event]) (calls ++ calls') (E ++ E') (D' ++ D'') started' := by
  constructor
  · rw [filterMap_snoc, List.filter_append, List.map_append, h.pushedOutgoing, hpushOut]
  · rw [filterMap_snoc, List.filter_append]
    exact List.rel_append h.pushedIncoming hpushIn
  · rw [filterMap_snoc]
    exact List.rel_append h.nextOutgoing hnextOut
  · rw [filterMap_snoc]
    exact List.rel_append h.nextIncoming hnextIn
  · intro hany
    rw [List.any_append, Bool.or_eq_false_iff, List.any_cons, List.any_nil, Bool.or_false] at hany
    obtain ⟨hstarted, hE, hD⟩ := h.held hany.1
    obtain ⟨hstarted', hE', hD'⟩ := hheld hany.2 hstarted
    refine ⟨hstarted', ?_, ?_⟩
    · intro record hrecord
      cases List.mem_append.mp hrecord with
      | inl hold => exact hE record hold
      | inr hnew => exact hE' record hnew
    · intro record hrecord
      cases List.mem_append.mp hrecord with
      | inl hold => exact hD record hold
      | inr hnew => exact hD' record hnew

/-- An event in which nothing is pushed or taken. -/
theorem History.silent {started started' : Bool} {event : LeaderEvent C D}
    (h : History events calls E D' started) (hstarted : started' = started)
    (hpushOut : event.pushedOutgoing = none) (hpushIn : event.pushedIncoming = none)
    (hnextOut : event.nextOutgoing = none) (hnextIn : event.nextIncoming = none) :
    History (events ++ [event]) calls E D' started' := by
  have hsnoc : History (events ++ [event]) (calls ++ []) (E ++ []) (D' ++ []) started' := by
    refine h.snoc ?_ ?_ ?_ ?_ fun _ hfalse => ⟨hstarted.trans hfalse, ?_, ?_⟩
    · rw [hpushOut]
      rfl
    · rw [hpushIn]
      exact .nil
    · rw [hnextOut]
      exact .nil
    · rw [hnextIn]
      exact .nil
    · exact fun record hrecord => nomatch hrecord
    · exact fun record hrecord => nomatch hrecord
  rw [List.append_nil, List.append_nil, List.append_nil] at hsnoc
  exact hsnoc

theorem History.neutral {started : Bool} {op : LeaderOp C D} {reply : LeaderReply}
    (h : History events calls E D' started) (hop : isNeutral op reply = true) :
    History (events ++ [(op, reply)]) calls E D' started := by
  obtain ⟨hpushOut, hpushIn, hnextOut, hnextIn⟩ := silent_of_neutral hop
  exact h.silent rfl hpushOut hpushIn hnextOut hnextIn

/-- A call which the leader has its record layer take. -/
theorem History.called {op : LeaderOp C D} {call : LayerCall C D} {message : Message}
    {isDecrypting started started' : Bool} (h : History events calls E D' started)
    (hissues : Issues isDecrypting op call message)
    (hstarted : call ≠ .startTraffic → started' = started) :
    History (events ++ [(op, .done)]) (calls ++ [call]) E D' started' := by
  have hheld : call ≠ .startTraffic → LeaderEvent.startsTraffic (op, .done) = false →
      started = false → started' = false ∧
        (∀ record ∈ ([] : List EncryptedRecord), record.typ ≠ .applicationData) ∧
          ∀ record ∈ ([] : List PlainRecord), record.typ ≠ .applicationData :=
    fun hcall _ hfalse => ⟨(hstarted hcall).trans hfalse, (fun record hrecord => nomatch hrecord),
      (fun record hrecord => nomatch hrecord)⟩
  have hsnoc : History (events ++ [(op, .done)]) (calls ++ [call]) (E ++ []) (D' ++ [])
      started' := by
    cases hissues with
    | pushIncoming hcalls =>
        obtain ⟨hparts, rfl⟩ := hcalls
        exact h.snoc rfl (.cons ⟨_, _, _, hparts, rfl⟩ .nil) .nil .nil
          (hheld fun hcall => nomatch hcall)
    | pushOutgoing => exact h.snoc rfl .nil .nil .nil (hheld fun hcall => nomatch hcall)
    | startTraffic => exact h.snoc rfl .nil .nil .nil fun hstarts => nomatch hstarts
    | flush => exact h.snoc rfl .nil .nil .nil (hheld fun hcall => nomatch hcall)
  rw [List.append_nil, List.append_nil] at hsnoc
  exact hsnoc

/-- What has been taken out can be put back before the call. -/
theorem Phase.called {op : LeaderOp C D} {call : LayerCall C D} {message : Message} {vm : Vm}
    {layer : RecordLayer} {sent : List Message} (h : Phase session p calls E D' s)
    (hissues : Issues s.isDecrypting op call message) (hstate : accepts op s.state = true)
    (hrun : call.run session.scheme session.mem (s.vm, s.recordLayer) = .ok () (vm, layer)) :
    Phase session p (calls ++ [call]) E D' { s with vm := vm, recordLayer := layer, sent := sent } ∧
      (call ≠ .startTraffic → layer.started = s.recordLayer.started) := by
  unfold Phase at h ⊢
  cases hs : s.state with
  | init | setup | error =>
      rw [hs] at h
      exact absurd h id
  | handshake =>
      rw [hs] at h hstate
      obtain ⟨vm₀, s₁, halloc, hextends, hcalls, hunreleased, hE, hD⟩ := h
      have hcall : call ≠ .startTraffic := by
        rintro rfl
        cases hissues with
        | pushIncoming hcalls => cases hcalls.call
        | startTraffic => cases hstate
      obtain ⟨rfl, hcall'⟩ := hcalls.waiting.run hrun
      have hunreleased' := hcalls.waiting.unreleased hcall hunreleased hrun
      exact ⟨⟨vm₀, s₁, halloc, hextends, hcalls.append hcall', hunreleased', hE, hD⟩,
        fun _ => hunreleased'.started.trans hunreleased.started.symm⟩
  | active =>
      rw [hs] at h
      obtain ⟨s₀, vm₀, hstart, hcalls, hlog⟩ := h
      obtain ⟨e, d, hprogress, -⟩ :
          ∃ e d : Stock, Progress p e d session.scheme session.mem .empty s₀ ∧ _ :=
        Progress.of_established hstart
      obtain ⟨trace, hfinal, -⟩ := hprogress.runAll calls hcalls
      have hunpulled := (RecordLayer.unpulled_call E D' call).ok hrun
      obtain ⟨vm', hcall, hlog'⟩ := hfinal.run_within hlog hunpulled
      exact ⟨⟨s₀, vm', hstart, LayerCall.runAll_append hcalls (LayerCall.runAll_singleton hcall),
        hlog'⟩, (hfinal.call_frame hcall).2⟩
  | closed t =>
      rw [hs] at h hstate
      obtain ⟨s₀, vm₀, layer₀, vm₁, vm₂, peer, hstart, hcalls, hlog, hcommit, hlog'⟩ := h
      obtain ⟨e, d, hprogress, -⟩ :
          ∃ e d : Stock, Progress p e d session.scheme session.mem .empty s₀ ∧ _ :=
        Progress.of_established hstart
      obtain ⟨trace, hfinal, -⟩ := hprogress.runAll calls hcalls
      have hwide := hfinal.widen hlog
      obtain ⟨ctr, maskedKey, maskedIv, -, -, hs₂⟩ :=
        RecordLayer.commit_ok hwide.stocked hwide.buffered hwide.state hcommit
      -- the committed layer does not flush
      cases hissues with
      | pushIncoming hcalls => cases hstate
      | pushOutgoing => cases hstate
      | startTraffic => cases hstate
      | flush =>
          obtain ⟨task, s₃, hflush, -⟩ := Fault.run_bind_ok_iff.mp hrun
          obtain ⟨⟨⟩, s₄, honline, -⟩ := Fault.run_bind_ok_iff.mp hflush
          have hcomplete : s.recordLayer.state = .complete :=
            congrArg (fun t : Vm × RecordLayer => t.2.state) hs₂
          rw [RecordLayer.requireOnline, hcomplete] at honline
          cases honline

theorem Phase.prepared {ke : K} {ops : List VmOp} {vm : Vm} {layer : RecordLayer}
    (h : Phase session p calls E D' s) (hstate : s.state = .handshake)
    (hsetup : RecordLayer.setup session.mem session.prepareEncrypt session.prepareDecrypt
      (s.vm.push ops, s.recordLayer) = .ok () (vm, layer)) :
    Phase session p calls E D'
        { s with state := .active, ke := ke, vm := vm, recordLayer := layer } ∧
      layer.started = s.recordLayer.started := by
  unfold Phase at h ⊢
  rw [hstate] at h
  obtain ⟨vm₀, s₁, halloc, hextends, hcalls, hunreleased, rfl, rfl⟩ := h
  obtain ⟨encrypter, decrypter, heq, hequip⟩ := RecordLayer.setup_equip hsetup
  cases heq
  have hstart := hequip (s₁.1.push []) s₁.2 hcalls.encrypter.symm hcalls.decrypter.symm
  refine ⟨⟨_, s₁.1.push [], ⟨vm₀, s₁, [], _, _, halloc, hstart⟩,
    hcalls.equipped (s₁.1.push []) encrypter decrypter, ?_⟩, rfl⟩
  intro o ho
  obtain ⟨ops', hops'⟩ := Vm.Extends.trans _ _ _ hextends (Vm.Extends.push s.vm ops)
  rw [Vm.push_nil] at ho
  simp only [hops']
  exact List.mem_append_left _ ho

theorem Phase.closed {peer : PeerShares C D} {t : TlsTranscript} {vm : Vm} {layer : RecordLayer}
    {notified : Bool} {sent : List Message} (h : Phase session p calls E D' s)
    (hstate : s.state = .active)
    (hcommit : RecordLayer.commit session.scheme session.cipher session.mem peer
      (s.vm, s.recordLayer) = .ok t (vm, layer)) :
    Phase session p calls E D'
        { s with
          state := .closed t, vm := vm, recordLayer := layer, notified := notified
          sent := sent } ∧
      layer.started = s.recordLayer.started := by
  unfold Phase at h ⊢
  rw [hstate] at h
  obtain ⟨s₀, vm₀, hstart, hcalls, hlog⟩ := h
  have hunpulled := (RecordLayer.unpulled_commit E D' session.cipher).ok hcommit
  refine ⟨⟨s₀, vm₀, _, s.vm, vm, peer, hstart, hcalls, hlog, hunpulled, fun o ho => ho⟩, ?_⟩
  obtain ⟨e, d, hprogress, -⟩ :
      ∃ e d : Stock, Progress p e d session.scheme session.mem .empty s₀ ∧ _ :=
    Progress.of_established hstart
  obtain ⟨trace, hfinal, -⟩ := hprogress.runAll calls hcalls
  have hwide := hfinal.widen hlog
  obtain ⟨ctr, maskedKey, maskedIv, -, -, hs₂⟩ :=
    RecordLayer.commit_ok hwide.stocked hwide.buffered hwide.state hunpulled
  exact congrArg (fun t : Vm × RecordLayer => t.2.started) hs₂

theorem unpulled_nextEncrypted {layer layer' : RecordLayer} {record : EncryptedRecord}
    (h : layer.nextEncrypted = (some record, layer')) :
    layer'.unpulled (E ++ [record]) D' = layer.unpulled E D' ∧
      (layer.encryptedBuffer ≠ []) := by
  unfold RecordLayer.nextEncrypted at h
  split at h
  · cases h
  · next records hbuffer =>
      split at h
      · cases h
      · cases h
        refine ⟨?_, by rw [hbuffer]; exact List.cons_ne_nil _ _⟩
        simp only [RecordLayer.unpulled, hbuffer, List.append_assoc, List.cons_append,
          List.nil_append]

theorem unpulled_nextDecrypted {layer layer' : RecordLayer} {record : PlainRecord}
    (h : layer.nextDecrypted = (some record, layer')) :
    layer'.unpulled E (D' ++ [record]) = layer.unpulled E D' ∧
      (layer.decryptedBuffer ≠ []) := by
  unfold RecordLayer.nextDecrypted at h
  split at h
  · cases h
  · next records hbuffer =>
      split at h
      · cases h
      · cases h
        refine ⟨?_, by rw [hbuffer]; exact List.cons_ne_nil _ _⟩
        simp only [RecordLayer.unpulled, hbuffer, List.append_assoc, List.cons_append,
          List.nil_append]

theorem Phase.relayer {layer : RecordLayer} {E' : List EncryptedRecord} {D'' : List PlainRecord}
    (h : Phase session p calls E D' s) (hreleased : ¬ s.recordLayer.Unreleased)
    (hlayer : layer.unpulled E' D'' = s.recordLayer.unpulled E D') :
    Phase session p calls E' D'' { s with recordLayer := layer } := by
  unfold Phase at h ⊢
  cases hs : s.state with
  | init | setup | error =>
      rw [hs] at h
      exact absurd h id
  | handshake =>
      rw [hs] at h
      obtain ⟨-, -, -, -, -, hunreleased, -⟩ := h
      exact absurd hunreleased hreleased
  | active =>
      rw [hs] at h
      simp only [hlayer]
      exact h
  | closed t =>
      rw [hs] at h
      simp only [hlayer]
      exact h

theorem Phase.outgoing {record : EncryptedRecord} {layer : RecordLayer}
    (h : Phase session p calls E D' s)
    (hnext : s.recordLayer.nextEncrypted = (some record, layer)) :
    Phase session p calls (E ++ [record]) D' { s with recordLayer := layer } := by
  obtain ⟨hlayer, hbuffer⟩ := unpulled_nextEncrypted hnext
  exact h.relayer (fun hunreleased => hbuffer hunreleased.encrypted) hlayer

theorem Phase.incoming {record : PlainRecord} {layer : RecordLayer}
    (h : Phase session p calls E D' s)
    (hnext : s.recordLayer.nextDecrypted = (some record, layer)) :
    Phase session p calls E (D' ++ [record]) { s with recordLayer := layer } := by
  obtain ⟨hlayer, hbuffer⟩ := unpulled_nextDecrypted hnext
  exact h.relayer (fun hunreleased => hbuffer hunreleased.decrypted) hlayer

/-- What is taken out while traffic has not started is no application data. -/
theorem held_of_nextEncrypted {layer layer' : RecordLayer} {record : EncryptedRecord}
    (h : layer.nextEncrypted = (some record, layer')) :
    layer'.started = layer.started ∧
      (layer.started = false → record.typ ≠ .applicationData) := by
  unfold RecordLayer.nextEncrypted at h
  split at h
  · cases h
  · split at h
    · cases h
    · next hgate =>
        cases h
        refine ⟨rfl, fun hstarted htyp => hgate ?_⟩
        rw [hstarted, htyp]
        rfl

theorem held_of_nextDecrypted {layer layer' : RecordLayer} {record : PlainRecord}
    (h : layer.nextDecrypted = (some record, layer')) :
    layer'.started = layer.started ∧
      (layer.started = false → record.typ ≠ .applicationData) := by
  unfold RecordLayer.nextDecrypted at h
  split at h
  · cases h
  · split at h
    · cases h
    · next hgate =>
        cases h
        refine ⟨rfl, fun hstarted htyp => hgate ?_⟩
        rw [hstarted, htyp]
        rfl

/-- An operation which returns adds its event. -/
theorem Traced.returned {op : LeaderOp C D} {reply : LeaderReply}
    (h : Traced session p events s) (hop : op.run session s = .ok reply s') :
    Traced session p (events ++ [(op, reply)]) s' := by
  obtain ⟨calls, E, D', hphase, hhistory⟩ := h
  cases run_ok hop with
  | quiet hneutral hquiet =>
      refine ⟨calls, E, D', hphase.quiet hquiet, ?_⟩
      rw [hquiet.recordLayer]
      exact hhistory.neutral hneutral
  | prepared hstate hsetup =>
      obtain ⟨hphase', hstarted⟩ := hphase.prepared hstate hsetup
      exact ⟨calls, E, D', hphase', hhistory.silent hstarted rfl rfl rfl rfl⟩
  | called hissues hstate hrun =>
      obtain ⟨hphase', hstarted⟩ := hphase.called hissues hstate hrun
      exact ⟨_, E, D', hphase', hhistory.called hissues hstarted⟩
  | @incoming record layer msg hstate hnext hmsg =>
      obtain ⟨hstarted, hheld⟩ := held_of_nextDecrypted hnext
      refine ⟨calls, E, _, hphase.incoming hnext, ?_⟩
      have hsnoc : History (events ++ [(.nextIncoming, .incoming (some msg))]) (calls ++ [])
          (E ++ []) (D' ++ [record]) layer.started := by
        refine hhistory.snoc rfl .nil .nil (.cons hmsg .nil) fun _ hfalse => ?_
        refine ⟨hstarted.trans hfalse, (fun record hrecord => nomatch hrecord), ?_⟩
        intro record hrecord
        cases List.mem_singleton.mp hrecord
        exact hheld hfalse
      rw [List.append_nil, List.append_nil] at hsnoc
      exact hsnoc
  | @outgoing record layer msg hstate hnext hmsg =>
      obtain ⟨hstarted, hheld⟩ := held_of_nextEncrypted hnext
      refine ⟨calls, _, D', hphase.outgoing hnext, ?_⟩
      have hsnoc : History (events ++ [(.nextOutgoing, .outgoing (some msg))]) (calls ++ [])
          (E ++ [record]) (D' ++ []) layer.started := by
        refine hhistory.snoc rfl .nil (.cons hmsg .nil) .nil fun _ hfalse => ?_
        refine ⟨hstarted.trans hfalse, ?_, (fun record hrecord => nomatch hrecord)⟩
        intro record hrecord
        cases List.mem_singleton.mp hrecord
        exact hheld hfalse
      rw [List.append_nil, List.append_nil] at hsnoc
      exact hsnoc
  | closed hstate hcommit =>
      obtain ⟨hphase', hstarted⟩ := hphase.closed hstate hcommit
      exact ⟨calls, E, D', hphase', hhistory.silent hstarted rfl rfl rfl rfl⟩

/-- An operation which fails adds nothing, and may end the run. -/
theorem Traced.failed {op : LeaderOp C D} {e : BackendError} (h : Traced session p events s)
    (hflush : isFlush op = false) (hop : op.run session s = .error (.err e) s') :
    Traced session p events s' ∨ Failed s' := by
  cases run_error hflush hop with
  | inl hquiet =>
      obtain ⟨calls, E, D', hphase, hhistory⟩ := h
      refine .inl ⟨calls, E, D', hphase.quiet hquiet, ?_⟩
      rw [hquiet.recordLayer]
      exact hhistory
  | inr hfailed => exact .inr hfailed

theorem Traced.ready (h : Ready p s) : Traced session p [] s := by
  obtain ⟨vm, s₁, halloc, hlayer, hextends⟩ := h.alloc
  have hunreleased : s.recordLayer.Unreleased := by
    rw [hlayer]
    exact (RecordLayer.unreleased_alloc p).ok ⟨rfl, rfl, rfl⟩ halloc
  refine ⟨[], [], [], ?_, rfl, .nil, .nil, .nil, fun _ => ⟨hunreleased.started, ?_, ?_⟩⟩
  · unfold Phase
    rw [h.state, hlayer] at *
    exact ⟨vm, s₁, halloc, hextends, .nil (LayerParams.alloc_waiting halloc), hunreleased, rfl, rfl⟩
  · exact fun record hrecord => nomatch hrecord
  · exact fun record hrecord => nomatch hrecord

/-- In the error state, nothing is pushed or taken any more. -/
theorem Failed.returned {op : LeaderOp C D} {reply : LeaderReply} (h : Failed s)
    (hop : op.run session s = .ok reply s') : Failed s' ∧ isNeutral op reply = true := by
  have hstate : s.state = .error := h
  cases run_ok hop with
  | quiet hneutral hquiet => exact ⟨hquiet.state.trans hstate, hneutral⟩
  | prepared hhandshake hsetup =>
      rw [hstate] at hhandshake
      cases hhandshake
  | called hissues haccepts hrun =>
      rw [hstate] at haccepts
      cases hissues <;> cases haccepts
  | incoming hpulls hnext hmsg =>
      rw [hstate] at hpulls
      cases hpulls
  | outgoing hpulls hnext hmsg =>
      rw [hstate] at hpulls
      cases hpulls
  | closed hactive hcommit =>
      rw [hstate] at hactive
      cases hactive

theorem Failed.failed {op : LeaderOp C D} {e : BackendError} (h : Failed s)
    (hflush : isFlush op = false) (hop : op.run session s = .error (.err e) s') : Failed s' := by
  cases run_error hflush hop with
  | inl hquiet => exact hquiet.state.trans h
  | inr hfailed => exact hfailed

theorem log_kept {op : LeaderOp C D} {o : VmOp} (ho : o ∈ s.vm.log) :
    (∀ reply, op.run session s = .ok reply s' → o ∈ s'.vm.log) ∧
      ∀ e, op.run session s = .error e s' → o ∈ s'.vm.log := by
  have hkept := preserves_run (logged o session fun _ => True) op (brings_true op)
  exact ⟨fun _ hop => hkept.ok ho hop, fun _ hop => hkept.error ho hop⟩

/-- Every run is traced in the last state which was not the error state. -/
theorem Runs.traced (h : Runs session p events s) :
    ∃ t, Traced session p events t ∧ (∀ o ∈ t.vm.log, o ∈ s.vm.log) ∧ (t = s ∨ Failed s) := by
  induction h with
  | ready hready => exact ⟨_, Traced.ready hready, fun _ ho => ho, .inl rfl⟩
  | returned hrun hop ih =>
      obtain ⟨t, htraced, hlog, rfl | hfailed⟩ := ih
      · exact ⟨_, htraced.returned hop, fun _ ho => ho, .inl rfl⟩
      · obtain ⟨hfailed', hneutral⟩ := hfailed.returned hop
        obtain ⟨calls, E, D', hphase, hhistory⟩ := htraced
        exact ⟨t, ⟨calls, E, D', hphase, hhistory.neutral hneutral⟩,
          fun o ho => (log_kept (hlog o ho)).1 _ hop, .inr hfailed'⟩
  | failed hrun hflush hop ih =>
      obtain ⟨t, htraced, hlog, rfl | hfailed⟩ := ih
      · cases htraced.failed hflush hop with
        | inl htraced' => exact ⟨_, htraced', fun _ ho => ho, .inl rfl⟩
        | inr hfailed => exact ⟨t, htraced, fun o ho => (log_kept ho).2 _ hop, .inr hfailed⟩
      · exact ⟨t, htraced, fun o ho => (log_kept (hlog o ho)).2 _ hop,
          .inr (hfailed.failed hflush hop)⟩

end Steps

end Leader

end Tlsn.MpcTls

import Mathlib.Algebra.Order.BigOperators.Group.List
import Tlsn.MpcTls.LeaderRun
import Tlsn.MpcTls.PadDraws
import Tlsn.MpcTls.RecordLimits

/-!
The accounting of the leader's pad. The counter of what is decrypted online advances
for whole batches, the pad is drawn record by record, and only for the private ones; in
every state the pad that is left covers what the counter still allows.
-/

namespace Tlsn.MpcTls

open Tlsn.Cipher Tlsn.Common Tlsn.Tls
open Fault (Preserves Triple)

def RecordLayerState.isOnline : RecordLayerState → Bool
  | .online _ _ _ => true
  | _ => false

namespace RecordLayerState

variable (record : Record) (state : RecordLayerState)

@[simp] theorem isOnline_pushSent : (state.pushSent record).isOnline = state.isOnline := by
  cases state <;> rfl

@[simp] theorem isOnline_pushRecv : (state.pushRecv record).isOnline = state.isOnline := by
  cases state <;> rfl

@[simp] theorem recvOtp_pushSent : (state.pushSent record).recvOtp = state.recvOtp := by
  cases state <;> rfl

@[simp] theorem recvOtp_pushRecv : (state.pushRecv record).recvOtp = state.recvOtp := by
  cases state <;> rfl

end RecordLayerState

namespace RecordLayer

theorem received_pushSent (layer : RecordLayer) (record : Record)
    (records : List EncryptedRecord) :
    ({ layer with encryptedBuffer := records, state := layer.state.pushSent record } :
      RecordLayer).received = layer.received := by
  simp only [received]
  cases layer.state <;> rfl

/-- Only a layer that is online keeps what it receives. -/
theorem received_pushRecv (layer : RecordLayer) (record : Record) (records : List PlainRecord) :
    ({ layer with decryptedBuffer := records, state := layer.state.pushRecv record } :
      RecordLayer).received.Sublist (layer.received ++ [record]) := by
  simp only [received]
  cases layer.state with
  | online otp sent recv => exact List.Sublist.refl _
  | init => exact List.nil_sublist _
  | complete => exact List.nil_sublist _
  | error => exact List.nil_sublist _

end RecordLayer

/-- A record as it comes off the wire: private exactly when it is application data, with a
length that fits in the header of a record. -/
def DecryptOp.FromWire (op : DecryptOp) : Prop :=
  op.mode = Leader.decryptMode op.typ ∧ op.ciphertext.length < 2 ^ 16

/-- What identifies a record that is received. -/
def DecryptOp.key (op : DecryptOp) : Nat × ContentType × List UInt8 :=
  (op.seq, op.typ, op.ciphertext)

/-- The same, of the record that is kept. -/
def recordKey (record : Record) : Nat × ContentType × List UInt8 :=
  (record.seq, record.typ, record.ciphertext)

theorem LayerParams.recvOtp_leader {p : LayerParams} (h : p.role = .leader) :
    ∃ otp, p.recvOtp = some otp ∧ otp.length = p.recvLenOnline := by
  refine ⟨(List.range p.recvLenOnline).map p.pads.recvOtp, ?_, ?_⟩
  · rw [recvOtp, h]
  · rw [List.length_map, List.length_range]

/-- The records `done` have been decrypted online, with parts of the pad. -/
structure Padded (p : LayerParams) (L : Layout) (N : Nat) (done : List DecryptOp)
    (s : Vm × RecordLayer) : Prop where
  wire : ∀ op ∈ s.2.decryptBuffer, op.FromWire
  room : s.2.decryptBuffer.length ≤ maxBufferSize
  limit : s.2.maxRecvOnline = p.recvLenOnline
  counted : s.2.recvOnline ≤ p.recvLenOnline
  taken : DecryptOp.padLen done ≤ s.2.recvOnline
  doneWire : ∀ op ∈ done, op.FromWire
  fits : DecryptOp.FitFrom N p.recvOtp done
  log : ∀ o ∈ DecryptOp.opsFrom .leader L N p.recvOtp done, o ∈ s.1.log
  drawn : s.2.state.isOnline = true →
    DecryptOp.Drawn L N p.recvOtp done ((s.1, s.2.decrypter), s.2.state.recvOtp)
  received : (s.2.received.map recordKey).Sublist (done.map DecryptOp.key)

namespace Padded

variable {p : LayerParams} {L : Layout} {N : Nat} {done : List DecryptOp} {s : Vm × RecordLayer}

/-- The pad does not depend on the rest of the layer. -/
theorem relayer {vm : Vm} {layer layer' : RecordLayer} (h : Padded p L N done (vm, layer))
    (hbuffer : layer'.decryptBuffer = layer.decryptBuffer)
    (hmax : layer'.maxRecvOnline = layer.maxRecvOnline)
    (hcount : layer'.recvOnline = layer.recvOnline)
    (hdecrypter : layer'.decrypter = layer.decrypter)
    (honline : layer'.state.isOnline = layer.state.isOnline)
    (hotp : layer'.state.recvOtp = layer.state.recvOtp)
    (hreceived : (layer'.received.map recordKey).Sublist (done.map DecryptOp.key)) :
    Padded p L N done (vm, layer') where
  wire := hbuffer ▸ h.wire
  room := hbuffer ▸ h.room
  limit := hmax ▸ h.limit
  counted := hcount ▸ h.counted
  taken := hcount ▸ h.taken
  doneWire := h.doneWire
  fits := h.fits
  log := h.log
  drawn hon := by
    have hdrawn := h.drawn (honline ▸ hon)
    rw [← hotp, ← hdecrypter] at hdrawn
    exact hdrawn
  received := hreceived

/-- What is still allowed is covered by what is left. -/
theorem covers {otp : List UInt8} {sent recv : List Record} (h : Padded p L N done s)
    (hrole : p.role = .leader) (hstate : s.2.state = .online (some otp) sent recv) :
    s.2.maxRecvOnline - s.2.recvOnline ≤ otp.length := by
  obtain ⟨pad, hpad, hlen⟩ := LayerParams.recvOtp_leader hrole
  have hfits := h.fits
  have hrest := (h.drawn (by rw [hstate]; rfl)).rest
  rw [hpad] at hfits hrest
  obtain ⟨rest, heq, hsum⟩ := DecryptOp.length_padRest hfits
  rw [heq, hstate] at hrest
  cases hrest
  have := h.limit
  have := h.taken
  omega

theorem push (h : Padded p L N done s) (ops : List VmOp) :
    Padded p L N done (s.1.push ops, s.2) where
  wire := h.wire
  room := h.room
  limit := h.limit
  counted := h.counted
  taken := h.taken
  doneWire := h.doneWire
  fits := h.fits
  log o ho := logged_push o _ _ (h.log o ho)
  drawn honline :=
    have hdrawn := h.drawn honline
    ⟨hdrawn.role, hdrawn.laid, hdrawn.rest, hdrawn.fits,
      fun o ho => logged_push o _ _ (hdrawn.log o ho)⟩
  received := h.received

/-- The layer drains its buffers: what is not decrypted yet is public. -/
theorem drain (h : Padded p L N done s) (isDecrypting : Bool) :
    Padded p L N done (s.1, (s.2.drain isDecrypting).2) ∧
      (∀ op ∈ s.2.drainedDecrypts isDecrypting, op.FromWire) ∧
      (s.2.drainedDecrypts isDecrypting).length ≤ maxBufferSize ∧
      (isDecrypting = false → ∀ op ∈ s.2.drainedDecrypts isDecrypting, op.mode = .isPublic) := by
  have hwire : ∀ op ∈ s.2.drainedDecrypts isDecrypting, op.FromWire := fun op hop =>
    h.wire op (List.mem_of_mem_take hop)
  refine ⟨⟨fun op hop => h.wire op (List.mem_of_mem_drop hop),
    Nat.le_trans (List.length_drop ▸ Nat.sub_le ..) h.room, h.limit, h.counted, h.taken, h.doneWire,
    h.fits, h.log, h.drawn, h.received⟩, hwire, ?_, ?_⟩
  · exact Nat.le_trans (List.length_take_le' ..) h.room
  · rintro rfl op hop
    have htyp : op.typ ≠ .applicationData := by
      obtain ⟨i, hi, rfl⟩ := List.mem_take_iff_getElem.mp hop
      exact of_decide_eq_false (List.not_of_lt_findIdx (Nat.lt_of_lt_of_le hi (Nat.min_le_left ..)))
    rw [(hwire op hop).1, Leader.decryptMode, if_neg htyp]

end Padded

/-- The bytes of a batch are far fewer than a counter can count. -/
theorem RecordLayer.decryptLen_eq {ops : List DecryptOp} (hwire : ∀ op ∈ ops, op.FromWire)
    (hlen : ops.length ≤ maxBufferSize) :
    decryptLen ops = (ops.map fun op => op.ciphertext.length).sum ∧
      (ops.map fun op => op.ciphertext.length).sum < 2 ^ 62 := by
  have hsum : (ops.map fun op => op.ciphertext.length).sum ≤ ops.length * 2 ^ 16 := by
    have hmap := List.sum_le_card_nsmul (ops.map fun op => op.ciphertext.length) (2 ^ 16)
    rw [List.length_map] at hmap
    apply hmap
    intro n hn
    obtain ⟨op, hop, rfl⟩ := List.mem_map.mp hn
    exact Nat.le_of_lt (hwire op hop).2
  have hbuffer : maxBufferSize * 2 ^ 16 < 2 ^ 62 := by decide
  have hbound : (ops.map fun op => op.ciphertext.length).sum < 2 ^ 62 :=
    Nat.lt_of_le_of_lt (Nat.le_trans hsum (Nat.mul_le_mul_right _ hlen)) hbuffer
  exact ⟨wrap_of_lt (Nat.lt_trans hbound (by decide)), hbound⟩

section Steps

variable {p : LayerParams} {L : Layout} {N : Nat} {done ops : List DecryptOp}

/-- A batch is about to be decrypted, and the counter covers it. -/
structure Draining (p : LayerParams) (L : Layout) (N : Nat) (done ops : List DecryptOp)
    (s : Vm × RecordLayer) : Prop where
  padded : Padded p L N done s
  online : s.2.state.isOnline = true
  wire : ∀ op ∈ ops, op.FromWire
  covered : DecryptOp.padLen (done ++ ops) ≤ s.2.recvOnline

/-- What a flush leaves when it fails. -/
def PadKept (p : LayerParams) (L : Layout) (N : Nat) (e : Fault MpcTlsError)
    (s : Vm × RecordLayer) : Prop := (∃ done, Padded p L N done s) ∧ NotHead 'c' e

/-- The counter advances by the whole batch. -/
theorem padded_countOnline (hsize : p.recvLenOnline.val < 2 ^ 63)
    (hwire : ∀ op ∈ ops, op.FromWire) (hlen : ops.length ≤ maxBufferSize) :
    Triple (fun s => Padded p L N done s ∧ s.2.state.isOnline = true)
      (Fault.onSnd (RecordLayer.countOnline ops)) (fun _ => Draining p L N done ops)
      (PadKept p L N) := by
  obtain ⟨hdecrypt, hbound⟩ := RecordLayer.decryptLen_eq hwire hlen
  constructor
  rintro ⟨vm, layer⟩ ⟨h, honline⟩
  have hcounted : layer.recvOnline ≤ p.recvLenOnline := h.counted
  have hmax : layer.maxRecvOnline = p.recvLenOnline := h.limit
  have hwrap : wrap (layer.recvOnline + RecordLayer.decryptLen ops) =
      layer.recvOnline + RecordLayer.decryptLen ops := by
    apply wrap_of_lt
    rw [hdecrypt]
    have : (2 : Nat) ^ 63 + 2 ^ 62 < wordSize := by decide
    omega
  unfold Fault.onSnd RecordLayer.countOnline
  by_cases hover : wrap (layer.recvOnline + RecordLayer.decryptLen ops) > layer.maxRecvOnline
  · simp only [if_pos hover]
    refine ⟨⟨done, h⟩, NotHead.of_msg ?_⟩
    have hhead : "attempted to decrypt more data in the online phase than was ".toList.head? =
        some 'a' := by decide
    simp only [String.toList_append, List.head?_append, hhead, Option.some_or]
    decide
  · simp only [if_neg hover]
    have hpadLen := DecryptOp.padLen_le ops
    have htaken : DecryptOp.padLen done ≤ layer.recvOnline := h.taken
    rw [hwrap] at hover ⊢
    refine ⟨⟨h.wire, h.room, h.limit, ?_, ?_, h.doneWire, h.fits, h.log, h.drawn, h.received⟩,
      honline, hwire, ?_⟩
    · show layer.recvOnline + RecordLayer.decryptLen ops ≤ p.recvLenOnline
      omega
    · show DecryptOp.padLen done ≤ layer.recvOnline + RecordLayer.decryptLen ops
      omega
    · rw [DecryptOp.padLen_append]
      show _ ≤ layer.recvOnline + RecordLayer.decryptLen ops
      omega

/-- An operation on the encrypter adds to the log, at most. -/
theorem padded_onEncrypter {α : Type} {x : EStateM (Fault MpcTlsError) (Vm × MpcAesGcm) α}
    {Q : Vm × RecordLayer → Prop}
    (hQ : ∀ vm vm' layer gcm, Q (vm, layer) → Q (vm', { layer with encrypter := gcm }))
    (hx : ∀ o, Preserves (Logged o) x) :
    Preserves (fun s => Padded p L N done s ∧ Q s) (RecordLayer.onEncrypter x) := by
  have hafter : ∀ (s : Vm × RecordLayer) (t : Vm × MpcAesGcm), (∀ o ∈ s.1.log, o ∈ t.1.log) →
      Padded p L N done s ∧ Q s →
      Padded p L N done (t.1, { s.2 with encrypter := t.2 }) ∧
        Q (t.1, { s.2 with encrypter := t.2 }) := by
    rintro s t hlog ⟨h, hq⟩
    refine ⟨⟨h.wire, h.room, h.limit, h.counted, h.taken, h.doneWire, h.fits,
      fun o ho => hlog o (h.log o ho), fun honline => ?_, h.received⟩, hQ _ _ _ _ hq⟩
    have hdrawn := h.drawn honline
    exact ⟨hdrawn.role, hdrawn.laid, hdrawn.rest, hdrawn.fits, fun o ho => hlog o (hdrawn.log o ho)⟩
  constructor
  intro s hs
  unfold RecordLayer.onEncrypter Fault.zoom
  cases hrun : x (s.1, s.2.encrypter) with
  | ok a t => exact hafter s t (log_of_ok hx hrun) hs
  | error e t => exact hafter s t (log_of_error hx hrun) hs

/-- An operation on the decrypter which leaves the resources as they are laid out. -/
theorem Padded.onDecrypter {s : Vm × RecordLayer} (h : Padded p L N done s) {t : Vm × MpcAesGcm}
    (hlog : ∀ o ∈ s.1.log, o ∈ t.1.log) (hdrawn : s.2.state.isOnline = true →
      DecryptOp.Drawn L N p.recvOtp done (t, s.2.state.recvOtp)) :
    Padded p L N done (t.1, { s.2 with decrypter := t.2 }) where
  wire := h.wire
  room := h.room
  limit := h.limit
  counted := h.counted
  taken := h.taken
  doneWire := h.doneWire
  fits := h.fits
  log o ho := hlog o (h.log o ho)
  drawn := hdrawn
  received := h.received

/-- What the part of the batch that was decrypted leaves. -/
theorem Draining.drawn {s : Vm × RecordLayer} {front : List DecryptOp}
    (h : Draining p L N done ops s) (hfront : front <+: ops) {t : DecryptState}
    (hdrawn : DecryptOp.Drawn L N p.recvOtp (done ++ front) t) :
    Padded p L N (done ++ front)
      (t.1.1, { s.2 with decrypter := t.1.2, state := s.2.state.setRecvOtp t.2 }) := by
  have hpadded := h.padded
  obtain ⟨back, hback⟩ := hfront
  refine ⟨hpadded.wire, hpadded.room, hpadded.limit, hpadded.counted, ?_, ?_, hdrawn.fits,
    hdrawn.log, fun _ => ?_, ?_⟩
  · have hcovered := h.covered
    rw [← hback, ← List.append_assoc, DecryptOp.padLen_append] at hcovered
    exact Nat.le_trans (Nat.le_add_right ..) hcovered
  · intro op hop
    cases List.mem_append.mp hop with
    | inl hop => exact hpadded.doneWire op hop
    | inr hop => exact h.wire op (hback ▸ List.mem_append_left _ hop)
  · have hotp : (s.2.state.setRecvOtp t.2).recvOtp = t.2 := by
      have honline := h.online
      cases hstate : s.2.state with
      | online otp sent recv => rfl
      | init => rw [hstate] at honline; cases honline
      | complete => rw [hstate] at honline; cases honline
      | error => rw [hstate] at honline; cases honline
    show DecryptOp.Drawn L N p.recvOtp (done ++ front) (t.1, (s.2.state.setRecvOtp t.2).recvOtp)
    rw [hotp]
    exact hdrawn
  · have hreceived : ({ s.2 with decrypter := t.1.2, state := s.2.state.setRecvOtp t.2 } :
        RecordLayer).received = s.2.received := by
      simp only [RecordLayer.received]
      cases s.2.state <;> rfl
    rw [hreceived, List.map_append]
    exact hpadded.received.trans (List.sublist_append_left ..)

theorem draining_decryptMpc (hrole : p.role = .leader) (hword : 16 * N < wordSize) :
    Triple (Draining p L N done ops) (RecordLayer.onDecryptState (decryptMpc ops))
      (fun _ s => Padded p L N (done ++ ops) s ∧
        (s.2.received.map recordKey).Sublist (done.map DecryptOp.key)) (PadKept p L N) := by
  constructor
  intro s hs
  have hpadded := hs.padded
  have hlen : ∀ op ∈ ops, op.ciphertext.length < wordSize := fun op hop =>
    Nat.lt_trans (hs.wire op hop).2 (by decide)
  have hdrawn := hpadded.drawn hs.online
  have hafter := (DecryptOp.Drawn.decryptMpc ops hword hlen).after
    ((s.1, s.2.decrypter), s.2.state.recvOtp) hdrawn
  unfold RecordLayer.onDecryptState Fault.zoom
  cases hrun : decryptMpc ops ((s.1, s.2.decrypter), s.2.state.recvOtp) with
  | ok outs t =>
      rw [hrun] at hafter
      refine ⟨hs.drawn List.prefix_rfl hafter, ?_⟩
      have hreceived := hpadded.received
      simp only [RecordLayer.received] at hreceived ⊢
      revert hreceived
      cases s.2.state <;> exact id
  | error e t =>
      rw [hrun] at hafter
      obtain ⟨front, hfront, hfailed⟩ := hafter
      refine ⟨⟨_, hs.drawn hfront hfailed⟩, ?_⟩
      obtain ⟨pad, hpad, hpadlen⟩ := LayerParams.recvOtp_leader hrole
      rw [hpad] at hdrawn
      refine hdrawn.decryptMpc_text ops hword hlen ?_ hrun
      have := hs.covered
      have := hpadded.counted
      omega

/-- The preparation of a flush: the counter covers the batch, so the pad does. -/
theorem draining_prepareFlush (hrole : p.role = .leader) (hword : 16 * N < wordSize)
    (encryptOps : List EncryptOp) :
    Triple (Draining p L N done ops) (RecordLayer.prepareFlush encryptOps ops)
      (fun task s => Padded p L N (done ++ ops) s ∧
        (s.2.received.map recordKey).Sublist (done.map DecryptOp.key) ∧
        ∃ outs, task.decrypts = ops.zip outs) (PadKept p L N) := by
  have hencrypt : Triple (Draining p L N done ops) (RecordLayer.onEncrypter (encrypt encryptOps))
      (fun _ => Draining p L N done ops) (PadKept p L N) := by
    have hkept : Preserves (fun s : Vm × RecordLayer => Padded p L N done s ∧
        s.2.state.isOnline = true ∧ (∀ op ∈ ops, op.FromWire) ∧
          DecryptOp.padLen (done ++ ops) ≤ s.2.recvOnline)
        (RecordLayer.onEncrypter (encrypt encryptOps)) :=
      padded_onEncrypter (fun _ _ _ _ => id) fun o => logged_encrypt o encryptOps
    have hraises : Fault.Raises (NotHead 'c') (RecordLayer.onEncrypter (encrypt encryptOps)) :=
      Fault.Raises.zoom (NotHead.encrypt (by decide) _)
    refine (Triple.raises hkept hraises).conseq ?_ ?_ ?_
    · exact fun s hs => ⟨hs.padded, hs.online, hs.wire, hs.covered⟩
    · exact fun _ s hs => ⟨hs.1, hs.2.1, hs.2.2.1, hs.2.2.2⟩
    · exact fun e s hs => ⟨⟨done, hs.1.1⟩, hs.2⟩
  refine Triple.bind hencrypt fun ⟨pending, computeTags⟩ => ?_
  refine Triple.bind (draining_decryptMpc hrole hword) fun outs => ?_
  refine Triple.bind (Q := fun _ s => Padded p L N (done ++ ops) s ∧
    (s.2.received.map recordKey).Sublist (done.map DecryptOp.key)) ?_ fun _ =>
      Triple.pure fun s hs => ⟨hs.1, hs.2, outs, rfl⟩
  have hverify : Preserves (fun s : Vm × RecordLayer => Padded p L N (done ++ ops) s ∧
      (s.2.received.map recordKey).Sublist (done.map DecryptOp.key))
      (RecordLayer.onDecrypter (verifyTags ops)) := by
    constructor
    rintro s ⟨hs, hreceived⟩
    unfold RecordLayer.onDecrypter Fault.zoom
    cases hrun : verifyTags ops (s.1, s.2.decrypter) with
    | ok task t =>
        refine ⟨hs.onDecrypter (log_of_ok (fun o => logged_verifyTags o ops) hrun)
          fun honline => ?_, hreceived⟩
        exact (DecryptOp.Drawn.verifyTags ops s.2.state.recvOtp).ok (hs.drawn honline) hrun
    | error e t =>
        refine ⟨hs.onDecrypter (log_of_error (fun o => logged_verifyTags o ops) hrun)
          fun honline => ?_, hreceived⟩
        exact (DecryptOp.Drawn.verifyTags ops s.2.state.recvOtp).error (hs.drawn honline) hrun
  refine (Triple.raises hverify (Fault.Raises.zoom (NotHead.adapt_aead (c := 'c') _))).conseq
    (fun _ => id) (fun _ _ => id) ?_
  exact fun e s hs => ⟨⟨_, hs.1.1⟩, hs.2⟩

/-- What is done with records once they are encrypted does not concern the pad. -/
theorem padded_finishEncrypt (mem : Memory) (vm : Vm) (pending : List (EncryptOp × PendingEncrypt))
    (tags : Option (List (List UInt8))) (keys : List (Nat × ContentType × List UInt8)) :
    Preserves (fun layer => Padded p L N done (vm, layer) ∧
      (layer.received.map recordKey ++ keys).Sublist (done.map DecryptOp.key))
      (RecordLayer.finishEncrypt mem pending tags) := by
  induction pending generalizing tags with
  | nil => exact Preserves.pure _
  | cons q pending ih =>
      refine Preserves.bind (Preserves.lift _) fun ciphertext => ?_
      refine Preserves.bind (Preserves.modify ?_) fun _ => ih _
      rintro layer ⟨h, hkeys⟩
      have hreceived := RecordLayer.received_pushSent layer ⟨q.1.seq, q.1.typ, q.1.plaintext,
        q.2.plaintextRef, q.1.explicitNonce, ciphertext⟩ (layer.encryptedBuffer ++
          [⟨q.1.typ, q.1.version, q.1.explicitNonce, ciphertext, (RecordLayer.popTag tags).1⟩])
      rw [← hreceived] at hkeys
      exact ⟨h.relayer rfl rfl rfl rfl (RecordLayerState.isOnline_pushSent ..)
        (RecordLayerState.recvOtp_pushSent ..) ((List.sublist_append_left ..).trans hkeys), hkeys⟩

/-- Each record that was decrypted is received. -/
theorem padded_finishDecrypt (mem : Memory) (vm : Vm) (pending : List (DecryptOp × DecryptOutput)) :
    Triple (fun layer => Padded p L N done (vm, layer) ∧
      (layer.received.map recordKey ++ pending.map fun q => q.1.key).Sublist
        (done.map DecryptOp.key))
      (RecordLayer.finishDecrypt mem pending) (fun _ layer => Padded p L N done (vm, layer))
      fun _ layer => Padded p L N done (vm, layer) := by
  induction pending with
  | nil => exact Triple.pure fun layer h => h.1
  | cons q pending ih =>
      refine Triple.bind (Triple.lift (fun _ _ _ => id) fun _ _ _ h => h.1) fun plaintext => ?_
      refine Triple.bind (Triple.modify ?_) fun _ => ih
      rintro layer ⟨h, hkeys⟩
      have hpushed := (RecordLayer.received_pushRecv layer ⟨q.1.seq, q.1.typ, plaintext, none,
        q.1.explicitNonce, q.1.ciphertext⟩ (layer.decryptedBuffer ++
          [⟨q.1.typ, q.1.version, plaintext⟩])).map recordKey
      rw [List.map_append, List.map_singleton] at hpushed
      have hkept := hpushed.append_right (pending.map fun q => q.1.key)
      rw [List.append_assoc] at hkept
      have hkept := hkept.trans hkeys
      exact ⟨h.relayer rfl rfl rfl rfl (RecordLayerState.isOnline_pushRecv ..)
        (RecordLayerState.recvOtp_pushRecv ..) ((List.sublist_append_left ..).trans hkept), hkept⟩

variable {C D : Type} {scheme : HashCommit C D} {mem : Memory} {peer : PeerShares C D}

theorem zip_key_sublist (ops : List DecryptOp) (outs : List DecryptOutput) :
    ((ops.zip outs).map fun q => q.1.key).Sublist (ops.map DecryptOp.key) := by
  induction ops generalizing outs with
  | nil => exact List.nil_sublist _
  | cons op ops ih =>
      cases outs with
      | nil => exact List.nil_sublist _
      | cons out outs => exact (ih outs).cons_cons _

/-- What a flush does once the machine has run. -/
theorem padded_runFlush {task : RecordLayer.FlushTask} :
    Triple (fun s => Padded p L N (done ++ ops) s ∧
      (s.2.received.map recordKey).Sublist (done.map DecryptOp.key) ∧
        ∃ outs, task.decrypts = ops.zip outs)
      (RecordLayer.runFlush scheme mem peer task) (fun _ s => ∃ done, Padded p L N done s)
      (PadKept p L N) := by
  have hkept : Triple (fun s => Padded p L N (done ++ ops) s ∧
      (s.2.received.map recordKey ++ task.decrypts.map fun q => q.1.key).Sublist
        ((done ++ ops).map DecryptOp.key))
      (RecordLayer.runFlush scheme mem peer task) (fun _ => Padded p L N (done ++ ops))
      fun _ => Padded p L N (done ++ ops) := by
    refine Triple.bind (Triple.lift (fun _ _ _ => id) fun _ _ _ h => h.1) fun tags => ?_
    refine Triple.bind (Triple.lift (fun _ _ _ => id) fun _ _ _ h => h.1) fun _ => ?_
    refine Triple.bind (Q := fun _ s => Padded p L N (done ++ ops) s ∧
      (s.2.received.map recordKey ++ task.decrypts.map fun q => q.1.key).Sublist
        ((done ++ ops).map DecryptOp.key)) (Triple.snd fun vm => ?_) fun _ => ?_
    · exact (padded_finishEncrypt mem vm _ _ _).conseq (fun _ => id) (fun _ _ => id)
        fun _ _ h => h.1
    · exact Triple.snd fun vm => padded_finishDecrypt mem vm task.decrypts
  refine (hkept.raises (NotHead.runFlush (c := 'c') (by decide) scheme peer task)).conseq ?_
    (fun _ s hs => ⟨_, hs⟩) fun e s hs => ⟨⟨_, hs.1⟩, hs.2⟩
  rintro s ⟨hs, hreceived, outs, houts⟩
  refine ⟨hs, ?_⟩
  rw [List.map_append, houts]
  exact hreceived.append (zip_key_sublist ops outs)

/-- The task of a flush, or what is left when there is none. -/
def Started (p : LayerParams) (L : Layout) (N : Nat) (task : Option RecordLayer.FlushTask)
    (s : Vm × RecordLayer) : Prop :=
  match task with
  | none => ∃ done, Padded p L N done s
  | some task => ∃ done ops, Padded p L N (done ++ ops) s ∧
      (s.2.received.map recordKey).Sublist (done.map DecryptOp.key) ∧
        ∃ outs, task.decrypts = ops.zip outs

theorem padded_startFlush (hrole : p.role = .leader) (hword : 16 * N < wordSize)
    (hsize : p.recvLenOnline.val < 2 ^ 63) (isDecrypting : Bool) :
    Triple (Padded p L N done) (RecordLayer.startFlush isDecrypting) (Started p L N)
      (PadKept p L N) := by
  have honline : Triple (Padded p L N done)
      (RecordLayer.requireOnline "record layer must be in online state to flush")
      (fun _ s => Padded p L N done s ∧ s.2.state.isOnline = true) (PadKept p L N) := by
    constructor
    intro s hs
    unfold RecordLayer.requireOnline
    cases hstate : s.2.state with
    | online otp sent recv => exact ⟨hs, by rw [hstate]; rfl⟩
    | init => exact ⟨⟨done, hs⟩, fun _ _ h => by cases h⟩
    | complete => exact ⟨⟨done, hs⟩, fun _ _ h => by cases h⟩
    | error => exact ⟨⟨done, hs⟩, fun _ _ h => by cases h⟩
  have hdrain : Triple (fun s => Padded p L N done s ∧ s.2.state.isOnline = true)
      (RecordLayer.drainBuffers isDecrypting)
      (fun ops s => Padded p L N done s ∧ s.2.state.isOnline = true ∧
        (∀ op ∈ ops.2, op.FromWire) ∧ ops.2.length ≤ maxBufferSize ∧
          (isDecrypting = false → ∀ op ∈ ops.2, op.mode = .isPublic)) (PadKept p L N) := by
    constructor
    rintro s ⟨hs, hstate⟩
    obtain ⟨hpadded, hrest⟩ := hs.drain isDecrypting
    exact ⟨hpadded, hstate, hrest⟩
  refine Triple.bind honline fun _ => Triple.bind hdrain fun ⟨encryptOps, decryptOps⟩ => ?_
  refine Triple.ite (fun _ => Triple.pure fun s hs => ⟨done, hs.1⟩) fun _ => ?_
  have hprepare : Triple (Draining p L N done decryptOps) (do
      let task ← RecordLayer.prepareFlush encryptOps decryptOps
      (return some task : EStateM (Fault MpcTlsError) (Vm × RecordLayer) _)) (Started p L N)
      (PadKept p L N) :=
    Triple.bind (draining_prepareFlush hrole hword encryptOps) fun task =>
      Triple.pure fun s hs => ⟨done, decryptOps, hs⟩
  refine Triple.ite (fun _ => ?_) fun hdecrypting => ?_
  · refine Triple.bind (Q := fun _ => Draining p L N done decryptOps) ?_ fun _ => hprepare
    constructor
    rintro s ⟨hs, hstate, hwire, hlen, -⟩
    exact (padded_countOnline hsize hwire hlen).after s ⟨hs, hstate⟩
  · refine hprepare.conseq ?_ (fun _ _ => id) fun _ _ => id
    rintro s ⟨hs, hstate, hwire, -, hpublic⟩
    have hnone := DecryptOp.padLen_public (hpublic (Bool.eq_false_iff.mpr hdecrypting))
    refine ⟨hs, hstate, hwire, ?_⟩
    rw [DecryptOp.padLen_append, hnone]
    exact hs.taken

/-- A flush, whether it succeeds or fails. -/
theorem padded_flush (hrole : p.role = .leader) (hword : 16 * N < wordSize)
    (hsize : p.recvLenOnline.val < 2 ^ 63) (isDecrypting : Bool) :
    Triple (fun s => ∃ done, Padded p L N done s)
      (RecordLayer.flush scheme mem peer isDecrypting) (fun _ s => ∃ done, Padded p L N done s)
      (PadKept p L N) := by
  constructor
  rintro s ⟨done, hs⟩
  refine (Triple.bind (padded_startFlush hrole hword hsize isDecrypting) fun task => ?_).after s hs
  cases task with
  | none => exact Triple.pure fun _ => id
  | some task =>
      constructor
      rintro s ⟨done, ops, hs⟩
      exact padded_runFlush.after s hs

/-! ## Committing -/

/-- Once the layer is not online any more, what remains is what was logged. -/
def Closed (p : LayerParams) (L : Layout) (N : Nat) (done : List DecryptOp) (s : Vm × RecordLayer) :
    Prop := Padded p L N done s ∧ s.2.state.isOnline = false

theorem Padded.close {s : Vm × RecordLayer} (h : Padded p L N done s) {state : RecordLayerState}
    (hstate : state.isOnline = false) : Closed p L N done (s.1, { s.2 with state := state }) := by
  have hreceived : ({ s.2 with state := state } : RecordLayer).received = [] := by
    simp only [RecordLayer.received]
    cases state with
    | online otp sent recv => cases hstate
    | init => rfl
    | complete => rfl
    | error => rfl
  refine ⟨⟨h.wire, h.room, h.limit, h.counted, h.taken, h.doneWire, h.fits, h.log, ?_, ?_⟩, hstate⟩
  · intro honline
    cases hstate.symm.trans honline
  · rw [hreceived]
    exact List.nil_sublist _

theorem closed_onDecrypter {α : Type} {x : EStateM (Fault MpcTlsError) (Vm × MpcAesGcm) α}
    (hx : ∀ o, Preserves (Logged o) x) :
    Preserves (Closed p L N done) (RecordLayer.onDecrypter x) := by
  constructor
  rintro s ⟨hs, hstate⟩
  have hoffline : s.2.state.isOnline = true →
      ∀ t, DecryptOp.Drawn L N p.recvOtp done (t, s.2.state.recvOtp) := fun h => by
    cases hstate.symm.trans h
  unfold RecordLayer.onDecrypter Fault.zoom
  cases hrun : x (s.1, s.2.decrypter) with
  | ok a t => exact ⟨hs.onDecrypter (log_of_ok hx hrun) fun h => hoffline h t, hstate⟩
  | error e t => exact ⟨hs.onDecrypter (log_of_error hx hrun) fun h => hoffline h t, hstate⟩

theorem closed_onAesCtr {α : Type} {x : EStateM (Fault MpcTlsError) (Vm × AesCtr) α}
    (hx : ∀ o, Preserves (Logged o) x) :
    Preserves (Closed p L N done) (RecordLayer.onAesCtr x) := by
  have hafter : ∀ (s : Vm × RecordLayer) (t : Vm × AesCtr), (∀ o ∈ s.1.log, o ∈ t.1.log) →
      Closed p L N done s → Closed p L N done (t.1, { s.2 with aesCtr := t.2 }) := by
    rintro s t hlog ⟨h, hstate⟩
    refine ⟨⟨h.wire, h.room, h.limit, h.counted, h.taken, h.doneWire, h.fits,
      fun o ho => hlog o (h.log o ho), fun honline => ?_, h.received⟩, hstate⟩
    cases hstate.symm.trans honline
  constructor
  intro s hs
  unfold RecordLayer.onAesCtr Fault.zoom
  cases hrun : x (s.1, s.2.aesCtr) with
  | ok a t => exact hafter s t (log_of_ok hx hrun) hs
  | error e t => exact hafter s t (log_of_error hx hrun) hs

theorem closed_finishCommit (pending : List (DecryptOp × DecryptOutput)) (recv : List Record) :
    Preserves (Closed p L N done) (Fault.onSnd (RecordLayer.finishCommit mem pending recv)) := by
  refine Triple.snd fun vm => ?_
  induction pending generalizing recv with
  | nil => exact Preserves.pure _
  | cons q pending ih =>
      refine Preserves.bind (Preserves.lift _) fun plaintext => ?_
      refine Preserves.bind (Preserves.modify fun layer hs => ?_) fun _ => ih _
      exact ⟨hs.1.relayer rfl rfl rfl rfl rfl rfl hs.1.received, hs.2⟩

/-- A commit, whether it succeeds or fails. -/
theorem padded_commit (cipher : LocalAesCtr) :
    Preserves (fun s => ∃ done, Padded p L N done s)
      (RecordLayer.commit scheme cipher mem peer) := by
  constructor
  rintro s ⟨done, hs⟩
  have htake : Triple (Padded p L N done) RecordLayer.takeOnline (fun _ => Closed p L N done)
      fun _ => Closed p L N done := by
    constructor
    intro s hs
    unfold RecordLayer.takeOnline
    split
    · exact hs.close rfl
    · exact hs.close rfl
  have hbuffered : Preserves (Closed p L N done) RecordLayer.takeBuffered := by
    constructor
    rintro s ⟨hs, hstate⟩
    unfold RecordLayer.takeBuffered
    split
    · exact ⟨⟨fun _ h => (List.not_mem_nil h).elim, Nat.zero_le _, hs.limit, hs.counted, hs.taken,
        hs.doneWire, hs.fits, hs.log, hs.drawn, hs.received⟩, hstate⟩
    · exact ⟨hs, hstate⟩
  have hcommit : Triple (Padded p L N done) (RecordLayer.commit scheme cipher mem peer)
      (fun _ => Closed p L N done) fun _ => Closed p L N done := by
    refine Triple.bind htake fun ⟨sent, recv⟩ => Preserves.bind hbuffered fun ops => ?_
    refine Preserves.bind (closed_onDecrypter fun o => logged_verifyTags o ops) fun _ => ?_
    refine Preserves.bind (Preserves.lift _) fun _ => ?_
    refine Preserves.bind (closed_onAesCtr logged_decodeKey) fun _ => ?_
    refine Preserves.bind (closed_onAesCtr fun o => RecordLayer.logged_onSnd o _) fun _ => ?_
    refine Preserves.bind Preserves.get fun _ => Preserves.bind Preserves.get fun _ => ?_
    refine Preserves.bind (closed_onDecrypter fun o => logged_decryptLocal o _ _ _ _) fun _ => ?_
    refine Preserves.bind (closed_finishCommit _ _) fun _ => ?_
    exact Preserves.bind (Preserves.modify fun s hs => hs.1.close rfl) fun _ => Preserves.pure _
  exact (hcommit.conseq (fun _ => id) (fun _ s hs => (⟨done, hs.1⟩ : ∃ done, Padded p L N done s))
    fun _ s hs => ⟨done, hs.1⟩).after s hs

/-! ## The other operations -/

theorem padded_setup
    (prepareEncrypt prepareDecrypt : List UInt8 → Except (Fault GhashError) Ghash) :
    Preserves (Padded p L N done) (RecordLayer.setup mem prepareEncrypt prepareDecrypt) := by
  have hencrypter : Preserves (fun s => Padded p L N done s ∧ True) (RecordLayer.onEncrypter
      (Fault.onSnd (Fault.adapt MpcTlsError.recordLayerAead
        (MpcAesGcm.setup mem prepareEncrypt)))) :=
    padded_onEncrypter (fun _ _ _ _ => id) fun o => RecordLayer.logged_onSnd o _
  refine Triple.bind (hencrypter.conseq (fun _ h => ⟨h, trivial⟩) (fun _ _ h => h.1)
    fun _ _ h => h.1) fun _ => ?_
  constructor
  intro s hs
  -- an instance that fails to set up has no resources left
  have hlost : Padded p L N done
      (s.1, { s.2 with decrypter := { s.2.decrypter with state := .error } }) := by
    refine hs.onDecrypter (t := (s.1, { s.2.decrypter with state := .error })) (fun _ => id)
      fun honline => ?_
    have hdrawn := hs.drawn honline
    refine ⟨hdrawn.role, fun r hr => ?_, hdrawn.rest, hdrawn.fits, hdrawn.log⟩
    cases hr
  unfold RecordLayer.onDecrypter Fault.zoom Fault.onSnd Fault.adapt MpcAesGcm.setup
  cases hstate : s.2.decrypter.state with
  | setup resources ghashKey =>
      simp only
      cases prepareDecrypt (ghashKey.share mem).toList with
      | ok ghash =>
          refine hs.onDecrypter (fun _ => id) fun honline => ?_
          have hdrawn := hs.drawn honline
          refine ⟨hdrawn.role, fun r hr => ?_, hdrawn.rest, hdrawn.fits, hdrawn.log⟩
          cases hr
          exact hdrawn.laid resources (by rw [MpcAesGcm.resources?, hstate])
      | error e => exact hlost
  | init => exact hlost
  | ready resources ghash => exact hlost
  | error => exact hlost

theorem padded_pushEncrypt (typ : ContentType) (version : ProtocolVersion) (len : Nat)
    (plaintext : Option (List UInt8)) (mode : EncryptMode) :
    Preserves (Padded p L N done)
      (Fault.onSnd (RecordLayer.pushEncrypt typ version len plaintext mode)) := by
  refine Triple.snd fun vm => ⟨fun layer hs => ?_⟩
  unfold RecordLayer.pushEncrypt
  split
  · exact hs
  · split
    · exact hs
    · simp only [RecordLayer.nextWrite]
      split
      · exact hs.relayer rfl rfl rfl rfl rfl rfl hs.received
      · exact hs.relayer rfl rfl rfl rfl rfl rfl hs.received

/-- A record that is received is private exactly when it is application data. -/
theorem padded_pushDecrypt (typ : ContentType) (version : ProtocolVersion)
    (explicitNonce ciphertext tag : List UInt8) (hlen : ciphertext.length < 2 ^ 16) :
    Preserves (Padded p L N done) (Fault.onSnd (RecordLayer.pushDecrypt typ version explicitNonce
      ciphertext tag (Leader.decryptMode typ))) := by
  refine Triple.snd fun vm => ⟨fun layer hs => ?_⟩
  unfold RecordLayer.pushDecrypt
  split
  · exact hs
  · rename_i hroom
    split
    · exact hs
    · refine ⟨?_, ?_, hs.limit, hs.counted, hs.taken, hs.doneWire, hs.fits, hs.log, hs.drawn,
        hs.received⟩
      · intro op hop
        cases List.mem_append.mp hop with
        | inl hop => exact hs.wire op hop
        | inr hop =>
            cases List.mem_singleton.mp hop
            exact ⟨rfl, hlen⟩
      · show (layer.decryptBuffer ++ [_]).length ≤ maxBufferSize
        rw [List.length_append, List.length_singleton]
        omega

end Steps

namespace Leader

variable {K P C D : Type}

/-- Every operation of the leader keeps the accounts. -/
theorem padded_machine (session : Session K P C D) {p : LayerParams} {L : Layout} {N : Nat}
    (hrole : p.role = .leader) (hword : 16 * N < wordSize) (hsize : p.recvLenOnline.val < 2 ^ 63) :
    MachineInvariant session (fun ciphertext => ciphertext.length < 2 ^ 16)
      fun s => ∃ done, Padded p L N done s := by
  have hsome : ∀ {ε α : Type} {x : EStateM ε (Vm × RecordLayer) α},
      (∀ done, Preserves (Padded p L N done) x) →
        Preserves (fun s => ∃ done, Padded p L N done s) x := by
    intro ε α x hx
    constructor
    rintro s ⟨done, hs⟩
    exact ((hx done).conseq (fun _ => id) (fun _ s hs => (⟨done, hs⟩ : ∃ done, Padded p L N done s))
      fun _ s hs => ⟨done, hs⟩).after s hs
  constructor
  · rintro vm layer ops ⟨done, h⟩
    exact ⟨done, h.push ops⟩
  · exact hsome fun done => padded_setup _ _
  · exact fun typ version len plaintext mode => hsome fun done => padded_pushEncrypt _ _ _ _ _
  · exact fun typ version nonce ciphertext tag harrives =>
      hsome fun done => padded_pushDecrypt _ _ _ _ _ harrives
  · exact fun peer isDecrypting => (padded_flush hrole hword hsize isDecrypting).conseq
      (fun _ => id) (fun _ _ => id) fun _ _ h => h.1
  · exact fun peer => padded_commit _
  · rintro vm layer ⟨done, h⟩
    exact ⟨done, h.relayer rfl rfl rfl rfl rfl rfl h.received⟩
  · rintro vm layer ⟨done, h⟩
    have hkeeps : ∀ records : List EncryptedRecord,
        Padded p L N done (vm, { layer with encryptedBuffer := records }) := fun records =>
      h.relayer rfl rfl rfl rfl rfl rfl h.received
    refine ⟨done, ?_⟩
    unfold RecordLayer.nextEncrypted
    split
    · exact h
    · split
      · exact h
      · exact hkeeps _
  · rintro vm layer ⟨done, h⟩
    have hkeeps : ∀ records : List PlainRecord,
        Padded p L N done (vm, { layer with decryptedBuffer := records }) := fun records =>
      h.relayer rfl rfl rfl rfl rfl rfl h.received
    refine ⟨done, ?_⟩
    unfold RecordLayer.nextDecrypted
    split
    · exact h
    · split
      · exact h
      · exact hkeeps _

end Leader

end Tlsn.MpcTls

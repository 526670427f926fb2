import Tlsn.MpcTls.LeaderRun

/-!
Encrypted records on the wire: an explicit nonce, the ciphertext and a tag. The leader
frames records of its own, and takes apart those of the server, whatever their length.
-/

namespace Tlsn.MpcTls

open Tlsn.Cipher Tlsn.Common Tlsn.Tls

/-! ## Taking apart -/

theorem splitOff_of_le {bytes : List UInt8} {i : Nat} (h : i ≤ bytes.length) :
    splitOff bytes i = .ok (bytes.take i, bytes.drop i) := if_neg (Nat.not_lt.mpr h)

theorem splitOff_of_lt {bytes : List UInt8} {i : Nat} (h : bytes.length < i) :
    splitOff bytes i = .error .panic := if_pos h

theorem opaqueIntoParts_append {explicitNonce ciphertext tag : List UInt8}
    (hnonce : explicitNonce.length = 8) (htag : tag.length = 16)
    (hword : (explicitNonce ++ ciphertext ++ tag).length < wordSize) :
    opaqueIntoParts ⟨explicitNonce ++ ciphertext ++ tag, hword⟩ =
      .ok (explicitNonce, ciphertext, tag) := by
  have hlen : (explicitNonce ++ ciphertext ++ tag).length = 8 + ciphertext.length + 16 := by
    rw [List.length_append, List.length_append, hnonce, htag]
  have hsub : wrapSub (explicitNonce ++ ciphertext ++ tag).length 16 =
      (explicitNonce ++ ciphertext).length := by
    rw [wrapSub_of_le (by omega) hword, hlen, List.length_append, hnonce]
    omega
  have hfront : 8 ≤ (explicitNonce ++ ciphertext).length := by
    rw [List.length_append, hnonce]
    exact Nat.le_add_right _ _
  unfold opaqueIntoParts
  rw [hsub, splitOff_of_le (by simp), Fault.ok_bind, List.take_left, List.drop_left]
  simp only []
  rw [splitOff_of_le hfront, Fault.ok_bind, ← hnonce, List.take_left, List.drop_left]
  exact if_neg (not_not.mpr rfl)

/-- A payload with room for a nonce and a tag is made up of these and what is between. -/
theorem exists_parts {bytes : List UInt8} (h : 24 ≤ bytes.length) :
    ∃ explicitNonce ciphertext tag : List UInt8, explicitNonce.length = 8 ∧ tag.length = 16 ∧
      explicitNonce ++ ciphertext ++ tag = bytes := by
  refine ⟨bytes.take 8, (bytes.drop 8).take (bytes.length - 24), bytes.drop (bytes.length - 16),
    ?_, ?_, ?_⟩
  · rw [List.length_take]
    omega
  · rw [List.length_drop]
    omega
  · have hdrop : bytes.drop (bytes.length - 16) = (bytes.drop 8).drop (bytes.length - 24) := by
      rw [List.drop_drop]
      congr 1
      omega
    rw [List.append_assoc, hdrop, List.take_append_drop, List.take_append_drop]

theorem opaqueIntoParts_of_lt {payload : Bytes} (h : payload.val.length < 24) :
    opaqueIntoParts payload = .error .panic := by
  unfold opaqueIntoParts
  by_cases hshort : payload.val.length < 16
  · -- The subtraction wraps, so the tag would begin after the end.
    have hsub : payload.val.length < wrapSub payload.val.length 16 := by
      have hword : wordSize = 18446744073709551616 := rfl
      rw [wrapSub, wrap, Nat.mod_eq_of_lt (by omega)]
      omega
    rw [splitOff_of_lt hsub]
    rfl
  · have hsub : wrapSub payload.val.length 16 = payload.val.length - 16 :=
      wrapSub_of_le (Nat.not_lt.mp hshort) payload.property
    rw [hsub, splitOff_of_le (Nat.sub_le _ _), Fault.ok_bind]
    simp only []
    rw [splitOff_of_lt (by rw [List.length_take]; omega)]
    rfl

/-- A payload is taken apart exactly when it has room for the parts, and an error is
returned otherwise. -/
structure TakenApart (payload : Bytes) : Prop where
  total : opaqueIntoParts payload ≠ .error .panic
  parts : ∀ explicitNonce ciphertext tag,
    opaqueIntoParts payload = .ok (explicitNonce, ciphertext, tag) →
      explicitNonce.length = 8 ∧ tag.length = 16 ∧
        explicitNonce ++ ciphertext ++ tag = payload.val
  ok_iff : (∃ parts, opaqueIntoParts payload = .ok parts) ↔ 24 ≤ payload.val.length

theorem takenApart_iff {payload : Bytes} : TakenApart payload ↔ 24 ≤ payload.val.length := by
  constructor
  · intro h
    apply Nat.not_lt.mp
    intro hlt
    exact h.total (opaqueIntoParts_of_lt hlt)
  · intro h
    obtain ⟨bytes, hword⟩ := payload
    obtain ⟨explicitNonce, ciphertext, tag, hnonce, htag, rfl⟩ := exists_parts h
    have hparts := opaqueIntoParts_append hnonce htag hword
    constructor
    · rw [hparts]
      intro hpanic
      cases hpanic
    · intro explicitNonce' ciphertext' tag' hparts'
      rw [hparts] at hparts'
      cases hparts'
      exact ⟨hnonce, htag, rfl⟩
    · constructor
      · intro _
        exact h
      · intro _
        exact ⟨_, hparts⟩

/-! ## Framing -/

/-- What is to be framed has nonces and tags of the lengths on the wire. -/
structure RecordLayer.Framed (layer : RecordLayer) : Prop where
  pending : ∀ op ∈ layer.encryptBuffer, op.explicitNonce.length = 8
  records : ∀ record ∈ layer.encryptedBuffer, record.explicitNonce.length = 8 ∧
    ∀ tag ∈ record.tag, tag.length = 16

theorem ComputeTags.length_of_run {mem : Memory} {shares : List TagShare} {task : ComputeTags}
    {tags : List (List UInt8)} (h : task.run mem shares = .ok (some tags)) :
    ∀ tag ∈ tags, tag.length = 16 := by
  unfold run at h
  by_cases hempty : task.data.isEmpty = true
  · rw [if_pos hempty] at h
    cases h
  · rw [if_neg hempty] at h
    obtain ⟨own, -, h⟩ := Fault.bind_ok_iff.mp h
    cases hrole : task.role with
    | follower =>
        rw [hrole] at h
        cases h
    | leader =>
        rw [hrole] at h
        by_cases hlen : shares.length ≠ own.length
        · cases (if_pos hlen).symm.trans h
        · cases (if_neg hlen).symm.trans h
          intro tag htag
          obtain ⟨i, hi, rfl⟩ := List.mem_iff_getElem.mp htag
          rw [List.getElem_zipWith, TagShare.add, Vector.length_toList]

namespace RecordLayer

open Fault

variable {C D α : Type}

/-- What is not in the buffers of outgoing records does not matter. -/
theorem Framed.of_buffers {layer layer' : RecordLayer} (h : layer.Framed)
    (hpending : ∀ op ∈ layer'.encryptBuffer, op ∈ layer.encryptBuffer)
    (hrecords : ∀ record ∈ layer'.encryptedBuffer, record ∈ layer.encryptedBuffer) :
    layer'.Framed :=
  ⟨fun op hop => h.pending op (hpending op hop),
    fun record hrecord => h.records record (hrecords record hrecord)⟩

theorem framed_onEncrypter (x : EStateM (Fault MpcTlsError) (Vm × MpcAesGcm) α) :
    Preserves (fun s => s.2.Framed) (onEncrypter x) :=
  Preserves.zoom x fun _ _ h => h.of_buffers (fun _ => id) fun _ => id

theorem framed_onDecrypter (x : EStateM (Fault MpcTlsError) (Vm × MpcAesGcm) α) :
    Preserves (fun s => s.2.Framed) (onDecrypter x) :=
  Preserves.zoom x fun _ _ h => h.of_buffers (fun _ => id) fun _ => id

theorem framed_onDecryptState (x : EStateM (Fault MpcTlsError) DecryptState α) :
    Preserves (fun s => s.2.Framed) (onDecryptState x) :=
  Preserves.zoom x fun _ _ h => h.of_buffers (fun _ => id) fun _ => id

theorem framed_onAesCtr (x : EStateM (Fault MpcTlsError) (Vm × AesCtr) α) :
    Preserves (fun s => s.2.Framed) (onAesCtr x) :=
  Preserves.zoom x fun _ _ h => h.of_buffers (fun _ => id) fun _ => id

theorem framed_setup (mem : Memory)
    (prepareEncrypt prepareDecrypt : List UInt8 → Except (Fault GhashError) Ghash) :
    Preserves (fun s => s.2.Framed) (setup mem prepareEncrypt prepareDecrypt) :=
  Preserves.bind (framed_onEncrypter _) fun _ => framed_onDecrypter _

theorem framed_pushEncrypt (typ : ContentType) (version : ProtocolVersion) (len : Nat)
    (plaintext : Option (List UInt8)) (mode : EncryptMode) :
    Preserves Framed (pushEncrypt typ version len plaintext mode) := by
  constructor
  intro layer h
  cases hpush : pushEncrypt typ version len plaintext mode layer with
  | ok _ layer' =>
      obtain ⟨-, -, -, rfl⟩ := pushEncrypt_ok_iff.mp hpush
      refine ⟨fun op hop => ?_, h.records⟩
      cases List.mem_append.mp hop with
      | inl hop => exact h.pending op hop
      | inr hop =>
          cases List.mem_singleton.mp hop
          exact length_beBytes _ _
  | error e layer' =>
      unfold pushEncrypt at hpush
      by_cases hfull : layer.encryptBuffer.length ≥ maxBufferSize
      · rw [if_pos hfull] at hpush
        cases hpush
        exact h
      · rw [if_neg hfull] at hpush
        by_cases hmax : wrap (layer.sent + len) > layer.maxSent
        · rw [if_pos hmax] at hpush
          cases hpush
          exact h
        · rw [if_neg hmax] at hpush
          simp only [nextWrite] at hpush
          split at hpush
          · cases hpush
          · cases hpush
            exact h.of_buffers (fun _ => id) fun _ => id

theorem framed_pushDecrypt (typ : ContentType) (version : ProtocolVersion)
    (explicitNonce ciphertext tag : List UInt8) (mode : DecryptMode) :
    Preserves Framed (pushDecrypt typ version explicitNonce ciphertext tag mode) := by
  constructor
  intro layer h
  unfold pushDecrypt
  by_cases hfull : layer.decryptBuffer.length ≥ maxBufferSize
  · rw [if_pos hfull]
    exact h
  · rw [if_neg hfull]
    by_cases hmax : wrap (layer.recv + ciphertext.length) > layer.maxRecv
    · rw [if_pos hmax]
      exact h
    · rw [if_neg hmax]
      exact h.of_buffers (fun _ => id) fun _ => id

/-- The loop over the records, which takes the tags from the back. -/
theorem framed_finishEncrypt (mem : Memory) (pending : List (EncryptOp × PendingEncrypt))
    (tags : Option (List (List UInt8))) (hops : ∀ p ∈ pending, p.1.explicitNonce.length = 8)
    (htags : ∀ l ∈ tags, ∀ tag ∈ l, tag.length = 16) :
    Preserves Framed (finishEncrypt mem pending tags) := by
  induction pending generalizing tags with
  | nil => exact Preserves.pure _
  | cons p pending ih =>
      obtain ⟨op, pending'⟩ := p
      refine Preserves.bind (Preserves.lift _) fun ciphertext => ?_
      refine Preserves.bind (Preserves.modify fun layer h => ⟨h.pending, fun record hrecord => ?_⟩)
        fun _ => ih _ (fun p hp => hops p (List.mem_cons_of_mem _ hp)) ?_
      · cases List.mem_append.mp hrecord with
        | inl hold => exact h.records record hold
        | inr hnew =>
            cases List.mem_singleton.mp hnew
            refine ⟨hops _ List.mem_cons_self, fun tag htag => ?_⟩
            cases tags with
            | none => cases htag
            | some l => exact htags l rfl tag (List.mem_of_getLast? htag)
      · intro l hl tag htag
        cases tags with
        | none => cases hl
        | some l' =>
            cases hl
            exact htags l' rfl tag (List.mem_of_mem_dropLast htag)

theorem framed_finishDecrypt (mem : Memory) (pending : List (DecryptOp × DecryptOutput)) :
    Preserves Framed (finishDecrypt mem pending) := by
  induction pending with
  | nil => exact Preserves.pure _
  | cons p pending ih =>
      refine Preserves.bind (Preserves.lift _) fun _ => Preserves.bind ?_ fun _ => ih
      exact Preserves.modify fun _ h => h.of_buffers (fun _ => id) fun _ => id

theorem framed_runFlush (scheme : HashCommit C D) (mem : Memory) (peer : PeerShares C D)
    (task : FlushTask) (hops : ∀ p ∈ task.encrypts, p.1.explicitNonce.length = 8) :
    Preserves (fun s => s.2.Framed) (runFlush scheme mem peer task) := by
  have htags : Triple (fun s : Vm × RecordLayer => s.2.Framed)
      (Fault.lift (Fault.convert MpcTlsError.recordLayerAead
        (task.computeTags.run mem peer.computeShares)))
      (fun tags s => s.2.Framed ∧ ∀ l ∈ tags, ∀ tag ∈ l, tag.length = 16)
      fun _ s => s.2.Framed := by
    refine Triple.lift (fun tags s htags h => ⟨h, fun l hl => ?_⟩) fun _ _ _ h => h
    cases hl
    exact ComputeTags.length_of_run (Fault.convert_ok_iff.mp htags)
  refine Triple.bind htags fun tags => ⟨fun s hs => ?_⟩
  have hrest : ∀ l ∈ tags.map List.reverse, ∀ tag ∈ l, tag.length = 16 := by
    intro l hl tag htag
    obtain ⟨l', hl', rfl⟩ := Option.mem_map.mp hl
    exact hs.2 l' hl' tag (List.mem_reverse.mp htag)
  refine Triple.after (P := fun s => s.2.Framed) ?_ s hs.1
  refine Preserves.bind (Preserves.lift _) fun _ => Preserves.bind ?_ fun _ => ?_
  · exact Preserves.onSnd (framed_finishEncrypt mem _ _ hops hrest)
  · exact Preserves.onSnd (framed_finishDecrypt mem _)

theorem framed_requireOnline (text : String) :
    Preserves (fun s => s.2.Framed) (requireOnline text) := by
  constructor
  intro s h
  unfold requireOnline
  split
  · exact h
  · exact h

/-- What a flush is to encrypt was pushed. -/
theorem framed_startFlush (isDecrypting : Bool) :
    Triple (fun s => s.2.Framed) (startFlush isDecrypting)
      (fun task s => s.2.Framed ∧ ∀ t ∈ task, ∀ p ∈ t.encrypts, p.1.explicitNonce.length = 8)
      fun _ s => s.2.Framed := by
  have hdrain : Triple (fun s : Vm × RecordLayer => s.2.Framed) (drainBuffers isDecrypting)
      (fun ops s => s.2.Framed ∧ ∀ op ∈ ops.1, op.explicitNonce.length = 8)
      fun _ s => s.2.Framed :=
    ⟨fun s h => ⟨⟨fun op hop => (nomatch hop), h.records⟩, h.pending⟩⟩
  refine Triple.bind (framed_requireOnline _) fun _ => Triple.bind hdrain fun ops => ?_
  obtain ⟨encryptOps, decryptOps⟩ := ops
  refine Triple.ite (fun _ => Triple.pure fun s h => ⟨h.1, fun t ht => nomatch ht⟩) fun _ => ?_
  constructor
  intro s hs
  refine Triple.after (P := fun s => s.2.Framed) ?_ s hs.1
  have hcount : Preserves (fun s : Vm × RecordLayer => s.2.Framed)
      (if isDecrypting then Fault.onSnd (countOnline decryptOps) else Pure.pure ()) := by
    refine Preserves.ite (Preserves.onSnd ⟨fun layer h => ?_⟩) (Preserves.pure _)
    unfold countOnline
    by_cases hmax : wrap (layer.recvOnline + decryptLen decryptOps) > layer.maxRecvOnline
    · rw [if_pos hmax]
      exact h
    · rw [if_neg hmax]
      exact h.of_buffers (fun _ => id) fun _ => id
  have hprepare : Triple (fun s : Vm × RecordLayer => s.2.Framed)
      (prepareFlush encryptOps decryptOps)
      (fun task s => s.2.Framed ∧ ∀ p ∈ task.encrypts, p.1.explicitNonce.length = 8)
      fun _ s => s.2.Framed := by
    refine Triple.bind (framed_onEncrypter _) fun pending => ?_
    refine Triple.bind (framed_onDecryptState _) fun outputs => ?_
    refine Triple.bind (framed_onDecrypter _) fun verifyTags => Triple.pure fun s h => ⟨h, ?_⟩
    intro p hp
    exact hs.2 p.1 (List.of_mem_zip hp).1
  have htask : Triple (fun s : Vm × RecordLayer => s.2.Framed)
      (do return some (← prepareFlush encryptOps decryptOps))
      (fun task s => s.2.Framed ∧ ∀ t ∈ task, ∀ p ∈ t.encrypts, p.1.explicitNonce.length = 8)
      fun _ s => s.2.Framed := by
    refine Triple.bind hprepare fun task => Triple.pure fun s h => ⟨h.1, fun t ht => ?_⟩
    cases ht
    exact h.2
  cases isDecrypting with
  | true => exact Triple.bind hcount fun _ => htask
  | false => exact htask

theorem framed_flush (scheme : HashCommit C D) (mem : Memory) (peer : PeerShares C D)
    (isDecrypting : Bool) : Preserves (fun s => s.2.Framed)
      (flush scheme mem peer isDecrypting) := by
  refine Triple.bind (framed_startFlush isDecrypting) fun task => ⟨fun s hs => ?_⟩
  cases task with
  | none => exact hs.1
  | some task => exact (framed_runFlush scheme mem peer task (hs.2 task rfl)).after s hs.1

theorem framed_finishCommit (mem : Memory) (pending : List (DecryptOp × DecryptOutput))
    (recv : List Record) : Preserves Framed (finishCommit mem pending recv) := by
  induction pending generalizing recv with
  | nil => exact Preserves.pure _
  | cons p pending ih =>
      refine Preserves.bind (Preserves.lift _) fun _ => Preserves.bind ?_ fun _ => ih _
      exact Preserves.modify fun _ h => h.of_buffers (fun _ => id) fun _ => id

theorem framed_commit (scheme : HashCommit C D) (cipher : LocalAesCtr) (mem : Memory)
    (peer : PeerShares C D) :
    Preserves (fun s => s.2.Framed) (commit scheme cipher mem peer) := by
  have hmodify : ∀ f : RecordLayer → RecordLayer,
      (∀ layer, (f layer).encryptBuffer = layer.encryptBuffer ∧
        (f layer).encryptedBuffer = layer.encryptedBuffer) →
      ∀ layer : RecordLayer, layer.Framed → (f layer).Framed := by
    intro f hf layer h
    refine h.of_buffers ?_ ?_
    · rw [(hf layer).1]
      exact fun _ => id
    · rw [(hf layer).2]
      exact fun _ => id
  have htake : Preserves (fun s : Vm × RecordLayer => s.2.Framed) takeOnline := by
    constructor
    intro s h
    unfold takeOnline
    split
    · exact hmodify (fun layer => { layer with state := .error }) (fun _ => ⟨rfl, rfl⟩) _ h
    · exact hmodify (fun layer => { layer with state := .error }) (fun _ => ⟨rfl, rfl⟩) _ h
  have hbuffered : Preserves (fun s : Vm × RecordLayer => s.2.Framed) takeBuffered := by
    constructor
    intro s h
    unfold takeBuffered
    split
    · exact hmodify (fun layer => { layer with decryptBuffer := [] }) (fun _ => ⟨rfl, rfl⟩) _ h
    · exact h
  refine Preserves.bind htake fun records => ?_
  refine Preserves.bind hbuffered fun ops => Preserves.bind (framed_onDecrypter _) fun _ => ?_
  refine Preserves.bind (Preserves.lift _) fun _ => Preserves.bind (framed_onAesCtr _) fun _ => ?_
  refine Preserves.bind (framed_onAesCtr _) fun _ => Preserves.bind Preserves.get fun _ => ?_
  refine Preserves.bind Preserves.get fun _ => Preserves.bind (framed_onDecrypter _) fun _ => ?_
  refine Preserves.bind (Preserves.onSnd (framed_finishCommit mem _ _)) fun _ => ?_
  refine Preserves.bind (Preserves.modify fun _ h => ?_) fun _ => Preserves.pure _
  exact h.of_buffers (fun _ => id) fun _ => id

theorem framed_create (p : LayerParams) : p.create.Framed := by
  constructor
  · intro op hop
    cases hop
  · intro record hrecord
    cases hrecord

theorem framed_alloc (p : LayerParams) : Preserves (fun s => s.2.Framed) p.alloc := by
  have htake : Preserves (fun s : Vm × RecordLayer => s.2.Framed) takeInit := by
    constructor
    intro s h
    unfold takeInit
    split
    · exact h.of_buffers (fun _ => id) fun _ => id
    · exact h.of_buffers (fun _ => id) fun _ => id
  refine Preserves.bind htake fun _ => Preserves.bind (framed_onEncrypter _) fun _ => ?_
  refine Preserves.bind (framed_onDecrypter _) fun _ => Preserves.bind (framed_onAesCtr _)
    fun _ => ?_
  exact Preserves.modify fun _ h => h.of_buffers (fun _ => id) fun _ => id

theorem mem_of_nextEncrypted {layer : RecordLayer} {record : EncryptedRecord}
    (h : layer.nextEncrypted.1 = some record) : record ∈ layer.encryptedBuffer := by
  unfold nextEncrypted at h
  split at h
  · cases h
  · rename_i records hbuffer
    rw [hbuffer]
    split at h
    · cases h
    · cases h
      exact List.mem_cons_self

theorem framed_nextEncrypted {layer : RecordLayer} (h : layer.Framed) :
    layer.nextEncrypted.2.Framed := by
  unfold nextEncrypted
  split
  · exact h
  · rename_i record records hbuffer
    split
    · exact h
    · refine h.of_buffers (fun _ => id) fun record hrecord => ?_
      rw [hbuffer]
      exact List.mem_cons_of_mem _ hrecord

theorem framed_nextDecrypted {layer : RecordLayer} (h : layer.Framed) :
    layer.nextDecrypted.2.Framed := by
  unfold nextDecrypted
  split
  · exact h
  · split
    · exact h
    · exact h.of_buffers (fun _ => id) fun _ => id

end RecordLayer

namespace Leader

variable {K P C D : Type} {session : Session K P C D} {p : LayerParams} {s s' : Leader K P}

theorem framed_layer (session : Session K P C D) : LayerInvariant session RecordLayer.Framed where
  setup := RecordLayer.framed_setup _ _ _
  pushEncrypt := RecordLayer.framed_pushEncrypt
  pushDecrypt := RecordLayer.framed_pushDecrypt
  flush := RecordLayer.framed_flush _ _
  commit := RecordLayer.framed_commit _ _ _
  startTraffic _ h := h.of_buffers (fun _ => id) fun _ => id
  nextEncrypted _ h := RecordLayer.framed_nextEncrypted h
  nextDecrypted _ h := RecordLayer.framed_nextDecrypted h

theorem framed_of_ready (h : Ready p s) : s.recordLayer.Framed := by
  obtain ⟨vm, s₁, halloc, hlayer, -⟩ := h.alloc
  rw [hlayer]
  exact (RecordLayer.framed_alloc p).ok (RecordLayer.framed_create p) halloc

theorem Reachable.framed (h : Reachable session p s) : s.recordLayer.Framed :=
  h.invariant (framed_layer session) fun _ => framed_of_ready

/-! ## The messages of the leader -/

theorem opaqueMessage_ok_iff {record : EncryptedRecord} {msg : OpaqueMessage} :
    opaqueMessage record = .ok msg ↔ ∃ tag, record.tag = some tag ∧ msg.typ = record.typ ∧
      msg.version = record.version ∧
      msg.payload.val = record.explicitNonce ++ record.ciphertext ++ tag := by
  unfold opaqueMessage
  cases record.tag with
  | none =>
      constructor
      · intro h
        cases h
      · rintro ⟨tag, htag, -⟩
        cases htag
  | some tag =>
      simp only [Option.some.injEq, exists_eq_left', Fault.bind_ok_iff, Bytes.new]
      constructor
      · rintro ⟨payload, hpayload, hmsg⟩
        cases hmsg
        split at hpayload
        · cases hpayload
          exact ⟨rfl, rfl, rfl⟩
        · cases hpayload
      · rintro ⟨htyp, hversion, hpayload⟩
        obtain ⟨typ, version, payload, hword⟩ := msg
        subst htyp hversion hpayload
        exact ⟨_, dif_pos hword, rfl⟩

theorem nextOutgoing_some {msg : OpaqueMessage} (h : nextOutgoing s = .ok (some msg) s') :
    ∃ record, s.recordLayer.nextEncrypted.1 = some record ∧ opaqueMessage record = .ok msg := by
  obtain ⟨⟨⟩, s₁, hrequire, hpull⟩ := Fault.run_bind_ok_iff.mp h
  obtain ⟨-, rfl⟩ := require_ok_iff.mp hrequire
  obtain ⟨layer, hnone | ⟨record, hrecord, msg', hmsg, heq⟩⟩ := pull_ok_iff.mp hpull
  · cases hnone.2
  · cases heq
    exact ⟨record, hrecord, hmsg⟩

theorem opaqueIntoParts_nextOutgoing (h : Reachable session p s) {msg : OpaqueMessage}
    (hnext : nextOutgoing s = .ok (some msg) s') :
    ∃ record tag, s.recordLayer.nextEncrypted.1 = some record ∧ record.tag = some tag ∧
      opaqueIntoParts msg.payload = .ok (record.explicitNonce, record.ciphertext, tag) := by
  obtain ⟨record, hrecord, hmsg⟩ := nextOutgoing_some hnext
  obtain ⟨tag, htag, -, -, hpayload⟩ := opaqueMessage_ok_iff.mp hmsg
  have hmem := RecordLayer.mem_of_nextEncrypted hrecord
  obtain ⟨hnonce, hlen⟩ := h.framed.records record hmem
  refine ⟨record, tag, hrecord, htag, ?_⟩
  have hword := msg.payload.property
  rw [hpayload] at hword
  rw [← opaqueIntoParts_append hnonce (hlen tag htag) hword]
  congr 1
  exact Subtype.ext hpayload

/-- Once the payload is taken apart, what goes wrong is an error. -/
theorem pushIncoming_raises {msg : OpaqueMessage} (h : 24 ≤ msg.payload.val.length) :
    Fault.Raises (· ≠ .panic) (pushIncoming msg : Op K P Unit) := by
  obtain ⟨typ, version, bytes, hword⟩ := msg
  obtain ⟨explicitNonce, ciphertext, tag, hnonce, htag, rfl⟩ := exists_parts h
  have hciphertext : ciphertext.length < wordSize := by
    simp only [List.length_append] at hword
    omega
  have hparts := opaqueIntoParts_append hnonce htag hword
  rw [pushIncoming_eq ⟨typ, version, _, hword⟩ ⟨ciphertext, hciphertext⟩ hparts]
  refine Fault.Raises.bind ?_ fun _ => Fault.Raises.bind ?_ fun _ => Fault.Raises.modify
  · refine Fault.Raises.bind Fault.Raises.get fun _ => ?_
    exact Fault.Raises.ite (Fault.Raises.pure _) (Fault.Raises.throw nofun)
  · refine Fault.Raises.adapt (Fault.Raises.zoom (Fault.Raises.onSnd ?_))
    intro layer e layer' hpush
    unfold RecordLayer.pushDecrypt at hpush
    split at hpush
    · cases hpush
      exact nofun
    · split at hpush
      · cases hpush
        exact nofun
      · cases hpush

/-- What is asked of the framing of a payload: it is taken apart without a panic, in the
hands of the leader as well, and into the parts which the leader put it together from. -/
structure Frames (session : Session K P C D) (p : LayerParams) (payload : Bytes) : Prop where
  takenApart : TakenApart payload
  incoming : ∀ s : Leader K P, Reachable session p s → ∀ typ version s',
    pushIncoming ⟨typ, version, payload⟩ s ≠ .error .panic s'
  outgoing : ∀ s : Leader K P, Reachable session p s → ∀ typ version s',
    nextOutgoing s = .ok (some ⟨typ, version, payload⟩) s' →
      ∃ record tag, s.recordLayer.nextEncrypted.1 = some record ∧ record.tag = some tag ∧
        opaqueIntoParts payload = .ok (record.explicitNonce, record.ciphertext, tag)

theorem frames_iff (session : Session K P C D) (p : LayerParams) (payload : Bytes) :
    Frames session p payload ↔ 24 ≤ payload.val.length := by
  constructor
  · intro h
    exact takenApart_iff.mp h.takenApart
  · intro h
    refine ⟨takenApart_iff.mpr h, ?_, ?_⟩
    · intro s _ typ version s' hpanic
      have hraises : Fault.Raises (· ≠ .panic) (pushIncoming ⟨typ, version, payload⟩ :
          Op K P Unit) :=
        pushIncoming_raises h
      exact hraises s .panic s' hpanic rfl
    · intro s hreach typ version s' hnext
      have hparts := opaqueIntoParts_nextOutgoing hreach hnext
      exact hparts

/-- A record of a server which is shorter than a nonce and a tag. -/
def shortMessage : OpaqueMessage := ⟨.applicationData, .tlsV1_2, ⟨[0x00], length_zero_lt⟩⟩

/-- It is not taken apart, and a leader which processes records aborts on it. -/
theorem shortMessage_panics :
    opaqueIntoParts shortMessage.payload = .error .panic ∧ ¬ TakenApart shortMessage.payload ∧
      ∀ s : Leader Unit Unit, pushes s.state = true →
        pushIncoming shortMessage s = .error .panic s := by
  have hparts : opaqueIntoParts shortMessage.payload = .error .panic :=
    opaqueIntoParts_of_lt (by decide)
  refine ⟨hparts, fun h => h.total hparts, ?_⟩
  intro s hstate
  rw [pushIncoming, Fault.run_bind_of_ok (require_ok_iff.mpr ⟨hstate, rfl⟩), hparts]
  rfl

end Leader

end Tlsn.MpcTls

import Tlsn.Common.TranscriptRefs
import Tlsn.MpcTls.FollowerTranscript
import Tlsn.Verifier.ReceivedData

/-!
Whether the transcript of the verifier is complete. It expects a reference to the
plaintext of every record of application data. Received records get theirs when they
are committed; sent ones have it only if they were encrypted in private mode, which the
leader chooses.
-/

namespace Tlsn.Common

open Tlsn.Cipher Tlsn.Tls

variable {record record' : Record} {s s' : Vm × ZkAesCtr}

/-- A record that is committed has a reference, and is otherwise as it was. -/
def Record.Referenced (record record' : Record) : Prop :=
  ∃ plaintextRef, record' = { record with plaintextRef := some plaintextRef }

theorem commitRecord_referenced {ciphertext : Slice × List UInt8}
    (h : commitRecord record s = .ok (record', ciphertext) s') : record.Referenced record' := by
  unfold commitRecord at h
  by_cases hsome : record.plaintextRef.isSome = true
  · rw [if_pos hsome] at h
    cases h
  · rw [if_neg hsome] at h
    obtain ⟨⟨plaintextRef, ciphertextRef⟩, s₁, -, h⟩ := Fault.run_bind_ok_iff.mp h
    obtain ⟨⟨⟩, s₂, -, h⟩ := Fault.run_bind_ok_iff.mp h
    obtain ⟨⟨⟩, s₃, -, h⟩ := Fault.run_bind_ok_iff.mp h
    obtain ⟨decoded, s₄, -, hret⟩ := Fault.run_bind_ok_iff.mp h
    cases hret
    exact ⟨plaintextRef, rfl⟩

theorem commitEach_referenced (records : List Record) {s s' : Vm × ZkAesCtr}
    {entries : List (Record × (Slice × List UInt8))}
    (h : commitEach records s = .ok entries s') :
    List.Forall₂ Record.Referenced records (entries.map Prod.fst) := by
  induction records generalizing s entries with
  | nil =>
      cases h
      exact List.Forall₂.nil
  | cons record records ih =>
      obtain ⟨entry, s₁, hone, h⟩ := Fault.run_bind_ok_iff.mp h
      obtain ⟨rest, s₂, hrest, hret⟩ := Fault.run_bind_ok_iff.mp h
      cases hret
      exact List.Forall₂.cons (commitRecord_referenced hone) (ih hrest)

end Tlsn.Common

namespace Tlsn.MpcTls

open Tlsn.Cipher Tlsn.Common Tlsn.Tls

/-- Application data is encrypted in private mode. -/
def EncryptOp.Hidden (op : EncryptOp) : Prop := op.typ = .applicationData → op.mode = .isPrivate

/-- A message which does not have application data encrypted in public mode. -/
def Message.Hides : Message → Prop
  | .encrypt typ _ _ _ mode => typ = .applicationData → mode = .isPrivate
  | _ => True

instance : DecidablePred Message.Hides
  | .encrypt typ _ _ _ mode =>
      inferInstanceAs (Decidable (typ = .applicationData → mode = .isPrivate))
  | .setServerRandom _ => .isTrue trivial
  | .setServerKey _ => .isTrue trivial
  | .clientFinishedVd _ => .isTrue trivial
  | .serverFinishedVd _ => .isTrue trivial
  | .decrypt _ _ _ _ _ _ => .isTrue trivial
  | .startTraffic => .isTrue trivial
  | .flush _ => .isTrue trivial
  | .closeConnection => .isTrue trivial

theorem EncryptOp.referenced_iff {L : Layout} {mem : Memory} (ops : List EncryptOp) (n : Nat) :
    (∀ record ∈ sentRecords L mem n ops,
      record.typ = .applicationData → record.plaintextRef ≠ none) ↔ ∀ op ∈ ops, op.Hidden := by
  induction ops generalizing n with
  | nil => exact ⟨fun _ op hop => (nomatch hop), fun _ record hrecord => (nomatch hrecord)⟩
  | cons op ops ih =>
      rw [sentRecords, List.forall_mem_cons, List.forall_mem_cons, ih]
      refine and_congr_left fun _ => imp_congr_right fun _ => ?_
      simp only [sentRecord, pendingAt]
      cases op.mode <;> simp

theorem Follower.hidden_iff {C D : Type} (messages : List (Message × PeerShares C D)) (seq : Nat) :
    (∀ op ∈ LayerCall.encryptPushes seq (layerCalls messages), op.Hidden) ↔
      ∀ m ∈ messages, m.1.Hides := by
  induction messages generalizing seq with
  | nil => exact ⟨fun _ m hm => (nomatch hm), fun _ op hop => (nomatch hop)⟩
  | cons m messages ih =>
      obtain ⟨message, peer⟩ := m
      have hskip : message.Hides → ((∀ op ∈ LayerCall.encryptPushes seq (layerCalls messages),
          op.Hidden) ↔ ∀ m ∈ (message, peer) :: messages, m.1.Hides) := by
        intro hmessage
        rw [List.forall_mem_cons, ih seq]
        exact ⟨fun h => ⟨hmessage, h⟩, fun h => h.2⟩
      cases message with
      | encrypt typ version len plaintext mode =>
          rw [List.forall_mem_cons, ← ih (wrap (seq + 1))]
          exact List.forall_mem_cons
      | _ => exact hskip trivial

end Tlsn.MpcTls

namespace Tlsn.Verifier

open Tlsn.Cipher Tlsn.Common Tlsn.MpcTls Tlsn.Tls

/-- The records of application data are replaced, in order. -/
def writeBack : List Record → List Record → List Record
  | [], _ => []
  | record :: records, committed =>
      if record.typ = .applicationData then
        match committed with
        | record' :: committed => record' :: writeBack records committed
        | [] => record :: writeBack records []
      else record :: writeBack records committed

/-- Commits the received application data, and keeps the references to it. -/
def commitReceived (t : TlsTranscript) :
    EStateM (Fault RecordProofError) (Vm × ZkAesCtr) (TlsTranscript × RecordProof) := do
  let (committed, proof) ← commitRecords (receivedData t)
  return ({ t with recv := writeBack t.recv committed }, proof)

theorem mem_writeBack (records : List Record) {committed : List Record}
    (hlen : committed.length =
      (records.filter fun record => record.typ = .applicationData).length) :
    ∀ record ∈ writeBack records committed, record.typ = .applicationData →
      record ∈ committed := by
  induction records generalizing committed with
  | nil => exact fun record hrecord => (nomatch hrecord)
  | cons record records ih =>
      unfold writeBack
      by_cases htyp : record.typ = .applicationData
      · rw [List.filter_cons_of_pos (by simpa using htyp)] at hlen
        rw [if_pos htyp]
        cases committed with
        | nil => cases hlen
        | cons record' committed =>
            refine List.forall_mem_cons.mpr ⟨fun _ => List.mem_cons_self, ?_⟩
            intro r hr happlication
            exact List.mem_cons_of_mem _ (ih (Nat.succ.inj hlen) r hr happlication)
      · rw [List.filter_cons_of_neg (by simpa using htyp)] at hlen
        rw [if_neg htyp]
        exact List.forall_mem_cons.mpr ⟨fun happlication => absurd happlication htyp, ih hlen⟩

theorem writeBack_referenced (records : List Record) {committed : List Record}
    (h : List.Forall₂ Record.Referenced
      (records.filter fun record => record.typ = .applicationData) committed) :
    ∀ record ∈ writeBack records committed,
      record.typ = .applicationData → record.plaintextRef ≠ none := by
  intro record hrecord htyp
  have hmem := mem_writeBack records h.length_eq.symm record hrecord htyp
  obtain ⟨i, hi, rfl⟩ := List.mem_iff_getElem.mp hmem
  obtain ⟨plaintextRef, href⟩ := List.forall₂_iff_get.mp h |>.2 i (h.length_eq ▸ hi) hi
  rw [List.get_eq_getElem, List.get_eq_getElem] at href
  rw [href]
  exact fun hnone => (nomatch hnone)

theorem commitReceived_ok {t t' : TlsTranscript} {proof : RecordProof} {z z' : Vm × ZkAesCtr}
    (h : commitReceived t z = .ok (t', proof) z') :
    t'.sent = t.sent ∧
      ∀ record ∈ t'.recv, record.typ = .applicationData → record.plaintextRef ≠ none := by
  obtain ⟨⟨committed, proof'⟩, z₁, hcommit, hret⟩ := Fault.run_bind_ok_iff.mp h
  cases hret
  obtain ⟨entries, z₂, heach, hret⟩ := Fault.run_bind_ok_iff.mp hcommit
  cases hret
  exact ⟨rfl, writeBack_referenced t.recv (commitEach_referenced _ heach)⟩

variable {K P C D : Type} {session : Session K P C D} {p : LayerParams}
  {messages : List (Message × PeerShares C D)} {s s' : FollowerState K P} {data : FollowerData}

/-- The sent application data of a connection that is accepted has references exactly when
the leader had it encrypted in private mode. -/
theorem sent_referenced_iff (hready : Follower.Ready p s)
    (hrun : Follower.run session messages s = .ok data s') :
    (∀ record ∈ data.transcript.sent,
      record.typ = .applicationData → record.plaintextRef ≠ none) ↔
      ∀ m ∈ messages.takeWhile fun m => m.1 ≠ .closeConnection, m.1.Hides := by
  obtain ⟨processed, peer, s₀, s₁, cfVd, sfVd, -, -, -, haccepted⟩ := Follower.run_ok hready hrun
  obtain ⟨rest, rfl⟩ := haccepted.messages
  have hprocessed : (processed ++ (.closeConnection, peer) :: rest).takeWhile
      (fun m => m.1 ≠ .closeConnection) = processed := by
    rw [List.takeWhile_append_of_pos fun m hm => decide_eq_true (haccepted.unclosed m hm),
      List.takeWhile_cons_of_neg (by simp), List.append_nil]
  obtain ⟨vm, hcalls, hlog⟩ := haccepted.ran
  obtain ⟨e, d, hprogress, hfresh, he, hd⟩ := Progress.of_established haccepted.setUp.established
  obtain ⟨trace, hran, hpushes⟩ := hprogress.runAll _ hcalls
  have hfinal := hran.widen hlog
  obtain ⟨ctr, maskedKey, maskedIv, hcommits, htranscript, -⟩ :=
    RecordLayer.commit_ok hfinal.stocked hfinal.buffered hfinal.state haccepted.committed
  have hencrypted : trace.encrypted =
      LayerCall.encryptPushes 0 (Follower.layerCalls processed) := by
    have h := hpushes.encrypted
    rw [hcommits.encrypted, hfresh.encryptBuffer, hfresh.writeSeq, List.append_nil] at h
    exact h
  rw [hprocessed, ← Follower.hidden_iff processed 0, ← hencrypted, htranscript]
  exact EncryptOp.referenced_iff trace.encrypted e.blocks

/-- Once the received data is committed, the transcript of a connection that was accepted
is complete exactly when no message had application data encrypted in public mode. -/
theorem transcript_complete_iff {t : TlsTranscript} {proof : RecordProof} {z z' : Vm × ZkAesCtr}
    (hready : Follower.Ready p s) (hrun : Follower.run session messages s = .ok data s')
    (hcommit : commitReceived data.transcript z = .ok (t, proof) z') :
    (∃ refs, t.toTranscriptRefs = .ok refs) ↔
      ∀ m ∈ messages.takeWhile fun m => m.1 ≠ .closeConnection, m.1.Hides := by
  obtain ⟨hsent, hrecv⟩ := commitReceived_ok hcommit
  rw [TlsTranscript.toTranscriptRefs_ok_iff, List.forall_mem_append, hsent,
    sent_referenced_iff hready hrun]
  exact ⟨fun h => h.1, fun h => ⟨h, hrecv⟩⟩

theorem commitFrom_lengths {L : Layout} (records : List Record) (n : Nat) :
    ∀ entry ∈ Record.commitFrom L n records, ∃ plaintextRef,
      entry.1.plaintextRef = some plaintextRef ∧
        plaintextRef.len = entry.1.ciphertext.length := by
  induction records generalizing n with
  | nil => exact fun entry hentry => (nomatch hentry)
  | cons record records ih =>
      exact List.forall_mem_cons.mpr ⟨⟨record.inputAt L n, rfl, rfl⟩, ih _⟩

theorem length_commitFrom {L : Layout} (records : List Record) (n : Nat) :
    (Record.commitFrom L n records).length = records.length := by
  induction records generalizing n with
  | nil => rfl
  | cons record records ih => exact congrArg (· + 1) (ih _)

theorem sentRecords_lengths {L : Layout} {mem : Memory} (ops : List EncryptOp) (n : Nat) :
    ∀ record ∈ EncryptOp.sentRecords L mem n ops, ∀ plaintextRef,
      record.plaintextRef = some plaintextRef →
        plaintextRef.len = record.ciphertext.length := by
  induction ops generalizing n with
  | nil => exact fun record hrecord => (nomatch hrecord)
  | cons op ops ih =>
      refine List.forall_mem_cons.mpr ⟨?_, ih _⟩
      intro plaintextRef href
      cases hmode : op.mode with
      | isPrivate =>
          simp only [EncryptOp.sentRecord, EncryptOp.pendingAt, hmode, Option.some.injEq] at href
          simp only [EncryptOp.sentRecord, EncryptOp.futureAt, hmode, Memory.length_read, ← href]
      | isPublic =>
          simp only [EncryptOp.sentRecord, EncryptOp.pendingAt, hmode] at href
          cases href

/-- Once its received data is committed, a complete transcript of a connection that was
accepted has a reference to as many bytes as each ciphertext has. -/
theorem run_committed {t : TlsTranscript} {proof : RecordProof} {z z' : Vm × ZkAesCtr} {L : Layout}
    {n : Nat} (hready : Follower.Ready p s)
    (hrun : Follower.run session messages s = .ok data s') (hlaid : z.2.Laid L n)
    (hcommit : commitReceived data.transcript z = .ok (t, proof) z')
    (hcomplete : ∃ refs, t.toTranscriptRefs = .ok refs) : t.Committed := by
  obtain ⟨processed, peer, s₀, s₁, cfVd, sfVd, -, -, -, haccepted⟩ := Follower.run_ok hready hrun
  obtain ⟨-, j0s, ghash, batches, -, -, -, hauthenticated⟩ := haccepted.received hready.role
  obtain ⟨vm, hcalls, hlog⟩ := haccepted.ran
  obtain ⟨e, d, hprogress, -, -, -⟩ := Progress.of_established haccepted.setUp.established
  obtain ⟨trace, hran, -⟩ := hprogress.runAll _ hcalls
  have hfinal := hran.widen hlog
  obtain ⟨ctr, maskedKey, maskedIv, -, htranscript, -⟩ :=
    RecordLayer.commit_ok hfinal.stocked hfinal.buffered hfinal.state haccepted.committed
  have hsentRecords : data.transcript.sent =
      EncryptOp.sentRecords e.layout session.mem e.blocks trace.encrypted := by
    rw [htranscript]
  have hsent := (commitReceived_ok hcommit).1
  obtain ⟨⟨committed, proof'⟩, z₁, hrecords, hret⟩ := Fault.run_bind_ok_iff.mp hcommit
  cases hret
  have hlen : ∀ record ∈ receivedData data.transcript, record.ciphertext.length < wordSize := by
    intro record hrecord
    obtain ⟨i, hi⟩ := List.mem_iff_getElem?.mp (List.mem_of_mem_filter hrecord)
    obtain ⟨j0, verifier, k, -, -, version, ciphertext, tag, mode, hct, -⟩ :=
      hauthenticated i record hi
    rw [← hct]
    exact ciphertext.property
  obtain ⟨-, -, rfl, -, -⟩ := commitRecords_ok hlaid hlen hrecords
  have hrefs := TlsTranscript.toTranscriptRefs_ok_iff.mp hcomplete
  intro record hrecord htyp
  rcases List.mem_append.mp hrecord with hmem | hmem
  · cases href : record.plaintextRef with
    | none => exact absurd href (hrefs record hrecord htyp)
    | some plaintextRef =>
        rw [hsent, hsentRecords] at hmem
        exact ⟨plaintextRef, rfl, sentRecords_lengths _ _ record hmem plaintextRef href⟩
  · have hwritten := mem_writeBack data.transcript.recv
      (by rw [List.length_map, length_commitFrom]; rfl) record hmem htyp
    obtain ⟨entry, hentry, rfl⟩ := List.mem_map.mp hwritten
    exact commitFrom_lengths _ _ entry hentry

/-- There is a block for each of the two records. -/
theorem pairZkAlloc_ok : (Fault.result? (ZkAesCtr.alloc 32 sampleZkAes)).isSome = true := by
  decide +kernel

def pairZkAllocated : Vm × ZkAesCtr := (Option.get _ pairZkAlloc_ok).2

theorem pairZkAlloc_eq : ZkAesCtr.alloc 32 sampleZkAes = .ok () pairZkAllocated :=
  Fault.ok_get_state pairZkAlloc_ok

theorem sampleReceived_ok : (Fault.result? (commitReceived Follower.sampleData.transcript
    pairZkAllocated)).isSome = true := by
  decide +kernel

def sampleTranscript : TlsTranscript := (Option.get _ sampleReceived_ok).1.1

def sampleProof : RecordProof := (Option.get _ sampleReceived_ok).1.2

def sampleZkCommitted : Vm × ZkAesCtr := (Option.get _ sampleReceived_ok).2

theorem sampleReceived_eq : commitReceived Follower.sampleData.transcript pairZkAllocated =
    .ok (sampleTranscript, sampleProof) sampleZkCommitted :=
  Fault.ok_get_pair sampleReceived_ok

theorem transcript_complete_iff_sample :
    ∃ refs, sampleTranscript.toTranscriptRefs = .ok refs :=
  (transcript_complete_iff Follower.sampleState_ready Follower.sampleRun_eq sampleReceived_eq).mpr
    (by decide +kernel)

theorem sampleTranscript_committed : sampleTranscript.Committed := by
  obtain ⟨L, key, iv, -, -, hlaid, -, -⟩ :=
    ZkAesCtr.alloc_layout (by decide) pairZkAlloc_eq
  exact run_committed Follower.sampleState_ready Follower.sampleRun_eq hlaid sampleReceived_eq
    (TlsTranscript.toTranscriptRefs_ok_iff.mpr (by decide +kernel))

def exposedParams : LayerParams :=
  { Follower.sampleParams with
    sentRecords := ⟨2, two_lt_wordSize⟩
    sentLen := ⟨32, by decide⟩ }

theorem exposedAlloc_ok :
    (Fault.result? (exposedParams.alloc (⟨40, []⟩, exposedParams.create))).isSome = true := by
  decide +kernel

def exposedAllocated : Vm × RecordLayer := (Option.get _ exposedAlloc_ok).2

theorem exposedAlloc_eq :
    exposedParams.alloc (⟨40, []⟩, exposedParams.create) = .ok () exposedAllocated :=
  Fault.ok_get_state exposedAlloc_ok

def exposedState : FollowerState Unit Unit := Follower.allocated () () exposedAllocated

theorem exposedState_ready : Follower.Ready exposedParams exposedState :=
  Follower.ready_allocated rfl exposedAlloc_eq

/-- A byte of application data is encrypted in public mode. -/
def exposedMessages : List (Message × PeerShares (List TagShare) (List TagShare)) :=
  [.setServerKey ⟨.secp256r1, []⟩, .clientFinishedVd Follower.sampleHash,
    .encrypt .handshake .tlsV1_2 ⟨16, sixteen_lt_wordSize⟩ (some Follower.sampleFinished) .isPublic,
    .encrypt .applicationData .tlsV1_2 ⟨1, one_lt_wordSize⟩ (some [1]) .isPublic, .flush true,
    .decrypt .handshake .tlsV1_2 (List.replicate 8 0)
      ⟨Follower.sampleFinished, Follower.sampleFinished_lt⟩
      (List.replicate 16 0) .isPublic,
    .flush true, .serverFinishedVd Follower.sampleHash, .closeConnection].map
      fun message => (message, Follower.samplePeer)

theorem exposedRun_ok : (Fault.result? (Follower.run Follower.sampleSession exposedMessages
    exposedState)).isSome = true := by
  decide +kernel

def exposedData : FollowerData := (Option.get _ exposedRun_ok).1

def exposedFinal : FollowerState Unit Unit := (Option.get _ exposedRun_ok).2

theorem exposedRun_eq : Follower.run Follower.sampleSession exposedMessages exposedState =
    .ok exposedData exposedFinal :=
  Fault.ok_get_result exposedRun_ok

theorem exposedReceived_ok : (Fault.result? (commitReceived exposedData.transcript
    sampleZkAllocated)).isSome = true := by
  decide +kernel

def exposedTranscript : TlsTranscript := (Option.get _ exposedReceived_ok).1.1

def exposedProof : RecordProof := (Option.get _ exposedReceived_ok).1.2

def exposedZkCommitted : Vm × ZkAesCtr := (Option.get _ exposedReceived_ok).2

theorem exposedReceived_eq : commitReceived exposedData.transcript sampleZkAllocated =
    .ok (exposedTranscript, exposedProof) exposedZkCommitted :=
  Fault.ok_get_pair exposedReceived_ok

/-- The run and the commitment succeed, and the transcript is incomplete. -/
theorem transcript_exposed :
    Follower.Ready exposedParams exposedState ∧
      Follower.run Follower.sampleSession exposedMessages exposedState =
        .ok exposedData exposedFinal ∧
      commitReceived exposedData.transcript sampleZkAllocated =
        .ok (exposedTranscript, exposedProof) exposedZkCommitted ∧
      exposedTranscript.toTranscriptRefs = .error .incomplete :=
  ⟨exposedState_ready, exposedRun_eq, exposedReceived_eq, by decide +kernel⟩

end Tlsn.Verifier

import Tlsn.MpcTls.FollowerRun
import Tlsn.MpcTls.RecordTranscript

/-!
What the follower accepts. Every record in its transcript comes from a message of the
leader, and every received one had its tag verified.
-/

namespace Tlsn.MpcTls

open Tlsn.Cipher Tlsn.Common Tlsn.Tls

variable {K P C D : Type}

namespace Follower

variable {session : Session K P C D} {p : LayerParams} {messages : List (Message × PeerShares C D)}
  {processed : List (Message × PeerShares C D)} {peer : PeerShares C D} {s s' : FollowerState K P}
  {data : FollowerData} {s₀ s₁ s₂ : Vm × RecordLayer} {cfVd sfVd : List UInt8}

/-- What is pushed for decryption is what was received, message by message. -/
theorem getElem?_decryptPushes {op : DecryptOp} {seq i : Nat}
    (h : (LayerCall.decryptPushes seq (layerCalls processed))[i]? = some op) :
    ∃ ciphertext : Bytes, ciphertext.val = op.ciphertext ∧
      ((processed.map Prod.fst).filter Message.isDecrypt)[i]? =
        some (.decrypt op.typ op.version op.explicitNonce ciphertext op.tag op.mode) ∧
      op.aad = makeTls12Aad op.seq op.typ op.version op.ciphertext.length := by
  induction processed generalizing seq i with
  | nil => cases h
  | cons m processed ih =>
      obtain ⟨message, verifier⟩ := m
      cases message with
      | decrypt _ _ _ ciphertext _ _ =>
          cases i with
          | zero =>
              cases h
              exact ⟨ciphertext, rfl, rfl, rfl⟩
          | succ i => exact ih h
      | _ => exact ih h

/-- With whom tags are verified: in each flush, and when the connection is closed. -/
def verifiers (processed : List (Message × PeerShares C D)) (peer : PeerShares C D) :
    List (PeerShares C D) :=
  (processed.filter fun m => m.1.isFlush).map Prod.snd ++ [peer]

theorem flushPeers_layerCalls (processed : List (Message × PeerShares C D)) :
    LayerCall.flushPeers (layerCalls processed) =
      (processed.filter fun m => m.1.isFlush).map Prod.snd := by
  induction processed with
  | nil => rfl
  | cons m processed ih =>
      obtain ⟨message, verifier⟩ := m
      cases message with
      | flush _ => exact congrArg (verifier :: ·) ih
      | _ => exact ih

/-- The tag of the record is the sum of the follower's own share and of the one to which the
leader had committed for the record at place `k`. -/
structure TagVerified (session : Session K P C D) (vm : Vm) (ghash : Ghash) (j0 : J0)
    (record : Record) (version : ProtocolVersion) (tag : List UInt8) (verifier : PeerShares C D)
    (k : Nat) : Prop where
  committed : session.scheme.verify verifier.decommitment verifier.commitment = true
  nonce : ∀ o ∈ j0.ops record.explicitNonce, o ∈ vm.log
  tag : ∃ own other, (session.scheme.intoInner verifier.decommitment)[k]? = some other ∧
    tagShare ghash (j0.2.share session.mem)
      (makeTls12Aad record.seq record.typ version record.ciphertext.length) record.ciphertext =
        .ok own ∧
    tag = TagShare.add own other

/-- The record is the one which the leader passed on in its place, with a whole tag that was
verified. -/
def Authenticated (session : Session K P C D) (processed : List (Message × PeerShares C D))
    (vm : Vm) (ghash : Ghash) (i : Nat) (j0 : J0) (verifier : PeerShares C D) (k : Nat)
    (record : Record) : Prop :=
  ∃ (version : ProtocolVersion) (ciphertext : Bytes) (tag : List UInt8) (mode : DecryptMode),
    ciphertext.val = record.ciphertext ∧ record.explicitNonce.length = 8 ∧ tag.length = 16 ∧
    ((processed.map Prod.fst).filter Message.isDecrypt)[i]? =
      some (.decrypt record.typ version record.explicitNonce ciphertext tag mode) ∧
    TagVerified session vm ghash j0 record version tag verifier k

/-- The shares of the leader are those to which it had committed. -/
theorem peerTagShares_ok {scheme : HashCommit C D} {verifier : PeerShares C D} {count : Nat}
    {shares : List TagShare}
    (h : VerifyTags.peerTagShares scheme verifier .follower count = .ok shares) :
    scheme.verify verifier.decommitment verifier.commitment = true ∧
      shares = scheme.intoInner verifier.decommitment := by
  unfold VerifyTags.peerTagShares at h
  by_cases hverify : scheme.verify verifier.decommitment verifier.commitment = true
  · cases (if_pos hverify).symm.trans h
    exact ⟨hverify, rfl⟩
  · cases (if_neg hverify).symm.trans h

theorem authenticated_of_verified {ghash : Ghash} {vm : Vm} {i : Nat} {j0 : J0} {op : DecryptOp}
    {record : Record} {verifier : PeerShares C D} {k : Nat} (hreceived : op.ReceivedAs record)
    (hop : (LayerCall.decryptPushes 0 (layerCalls processed))[i]? = some op)
    (hverified : op.Verified session.scheme session.mem .follower ghash vm verifier k j0) :
    Authenticated session processed vm ghash i j0 verifier k record := by
  obtain ⟨ciphertext, hct, hmessage, haad⟩ := getElem?_decryptPushes hop
  obtain ⟨count, shares, own, other, hshares, hother, hown, htag⟩ := hverified.tag
  obtain ⟨hcommitted, rfl⟩ := peerTagShares_ok hshares
  have hlog := hverified.assigned
  rw [haad, ← hreceived.seq, ← hreceived.typ, ← hreceived.ciphertext] at hown
  rw [← hreceived.typ, ← hreceived.explicitNonce] at hmessage
  rw [← hreceived.explicitNonce] at hlog
  refine ⟨op.version, ciphertext, op.tag, op.mode, hct.trans hreceived.ciphertext.symm, ?_, ?_,
    hmessage, hcommitted, hlog, own, other, hother, hown, htag⟩
  · rw [hreceived.explicitNonce]
    exact hverified.nonce
  · rw [htag, TagShare.add, Vector.length_toList]

/-- What was allocated to verify the tags, and how the follower hashes. -/
structure Verifies (session : Session K P C D) (start : RecordLayer) (j0s : List J0)
    (ghash : Ghash) : Prop where
  decrypter : ∃ resources ghashKey, start.decrypter.state = .setup resources ghashKey ∧
    j0s = resources.j0s.reverse ∧
    session.prepareDecrypt (ghashKey.share session.mem).toList = .ok ghash

theorem SetUp.verifies {start : RecordLayer} {e d : Stock} (h : SetUp session p start s₀)
    (hstock : s₀.2.Stocked e d) : Verifies session start d.j0s.reverse d.ghash := by
  obtain ⟨resources, ghashKey, ghash, hstart, hprepare, hready⟩ := h.decrypter
  cases hstock.decrypter.state.symm.trans hready
  exact ⟨_, ghashKey, hstart, rfl, hprepare⟩

/-- The received records of a connection that is accepted. -/
theorem Accepted.received {start : RecordLayer}
    (h : Accepted session p start messages data processed peer s₀ s₁ s₂ cfVd sfVd)
    (hrole : p.role = .follower) :
    data.transcript.recv.map Record.seq = List.range data.transcript.recv.length ∧
      ∃ j0s ghash, ∃ batches : List (PeerShares C D × Nat), Verifies session start j0s ghash ∧
        batches.map Prod.fst = verifiers processed peer ∧
        (batches.map Prod.snd).sum = data.transcript.recv.length ∧
        ∀ (i : Nat) (record : Record), data.transcript.recv[i]? = some record →
          ∃ j0 verifier k, j0s[i]? = some j0 ∧ (places batches)[i]? = some (verifier, k) ∧
            Authenticated session processed s₂.1 ghash i j0 verifier k record := by
  obtain ⟨vm, hrun, hlog⟩ := h.ran
  obtain ⟨e, d, hprogress, hfresh, he, hd⟩ := Progress.of_established h.setUp.established
  obtain ⟨trace, hran, hcalls⟩ := hprogress.runAll _ hrun
  have hverifies := h.setUp.verifies hprogress.stocked
  rw [LayerTrace.empty, Stock.decrypted_nil] at hverifies
  have hfinal := hran.widen hlog
  obtain ⟨ctr, maskedKey, maskedIv, hcommits, htranscript, rfl⟩ :=
    RecordLayer.commit_ok hfinal.stocked hfinal.buffered hfinal.state h.committed
  have hpushed : trace.decrypted ++ s₁.2.decryptBuffer =
      LayerCall.decryptPushes 0 (layerCalls processed) := by
    have hdecrypted := hcalls.decrypted
    rw [hfresh.decryptBuffer, hfresh.readSeq] at hdecrypted
    exact hdecrypted
  have hpeers : trace.batches.map Prod.fst = LayerCall.flushPeers (layerCalls processed) :=
    hcalls.peers
  have hcount : (LayerCall.decryptPushes 0 (layerCalls processed)).length < wordSize := by
    have hfits := (hfinal.fits.2.2.append hcommits.fits).1
    rw [List.length_map, hd.records, hpushed] at hfits
    exact Nat.lt_of_le_of_lt hfits p.recvRecords.isLt
  generalize hrecords :
    DecryptOp.decrypted d.layout session.mem d.blocks p.recvOtp trace.decrypted ++
    s₁.2.committedRecords session.cipher session.mem (d.decrypted trace.decrypted) ctr = records
  have hrecv : data.transcript.recv = records.map fun r => r.1.recvRecord r.2 := by
    rw [htranscript, ← hrecords, List.map_append]
  have hfst : records.map Prod.fst = trace.decrypted ++ s₁.2.decryptBuffer := by
    rw [← hrecords, List.map_append, DecryptOp.map_fst_decrypted,
      RecordLayer.map_fst_committedRecords]
  constructor
  · have hseq : (records.map fun r => r.1.recvRecord r.2).map Record.seq =
        (records.map Prod.fst).map DecryptOp.seq := by
      rw [List.map_map, List.map_map]
      rfl
    have hlength : records.length = (LayerCall.decryptPushes 0 (layerCalls processed)).length := by
      rw [← hpushed, ← hfst, List.length_map]
    rw [hrecv, hseq, hfst, hpushed,
      LayerCall.map_seq_decryptPushes _ (by rw [Nat.zero_add]; exact hcount), List.length_map,
      hlength, List.range_eq_range']
  · have hverify := hcommits.verify
    rw [hfinal.role] at hverify
    refine ⟨d.j0s.reverse, d.ghash, trace.batches ++ [(peer, s₁.2.decryptBuffer.length)],
      hverifies, ?_, ?_, fun i record hrecord => ?_⟩
    · rw [List.map_append, hpeers, flushPeers_layerCalls]
      rfl
    · have hlength := congrArg List.length hfst
      rw [List.length_map, List.length_append] at hlength
      rw [hrecv, List.length_map, hlength, List.map_append, List.sum_append, hfinal.counted]
      rfl
    · rw [hrecv, List.getElem?_map] at hrecord
      obtain ⟨r, hr, rfl⟩ := Option.map_eq_some_iff.mp hrecord
      have hop : (trace.decrypted ++ s₁.2.decryptBuffer)[i]? = some r.1 := by
        rw [← hfst, List.getElem?_map, hr, Option.map_some]
      have hops : ∀ o ∈ (d.decrypted trace.decrypted).verifyVmOps s₁.2.decryptBuffer,
          o ∈ (s₁.1.push (RecordLayer.commitVmOps (d.decrypted trace.decrypted) maskedKey maskedIv
            s₁.2.decryptBuffer)).log :=
        fun o ho => List.mem_append_right _ (List.mem_append_left _ (List.mem_append_left _ ho))
      obtain ⟨verifier, k, j0, hplace, hj0, hverified⟩ := hfinal.verified_batch
        (fun o ho => List.mem_append_left _ ho) hcommits.fits hverify hops hop
      rw [hrole] at hverified
      exact ⟨j0, verifier, k, hj0, hplace,
        authenticated_of_verified ⟨rfl, rfl, rfl, rfl, rfl⟩ (hpushed ▸ hop) hverified⟩

/-- Nothing unauthenticated is accepted: whatever the leader sends, when the run succeeds the tag
of every received record is the sum of the parties' shares for its own nonce, ciphertext and
additional data, batch by batch; server key and verify data were set once; and the transcript was
validated. -/
theorem run_authenticated (hready : Ready p s) (hrun : run session messages s = .ok data s') :
    ∃ processed peer rest, messages = processed ++ (.closeConnection, peer) :: rest ∧
      (processed.map Prod.fst).filter Message.isSetServerKey = [.setServerKey data.serverKey] ∧
      ((processed.map Prod.fst).filter Message.isClientFinishedVd).length = 1 ∧
      ((processed.map Prod.fst).filter Message.isServerFinishedVd).length = 1 ∧
      s'.serverKey = some data.serverKey ∧
      (∃ cfVd sfVd, s'.cfVd = some cfVd ∧ s'.sfVd = some sfVd ∧
        validateTranscript session.otherPayloads cfVd sfVd data.transcript = .ok ()) ∧
      data.transcript.recv.map Record.seq = List.range data.transcript.recv.length ∧
      ∃ j0s ghash, ∃ batches : List (PeerShares C D × Nat),
        Verifies session s.recordLayer j0s ghash ∧
        batches.map Prod.fst = verifiers processed peer ∧
        (batches.map Prod.snd).sum = data.transcript.recv.length ∧
        ∀ (i : Nat) (record : Record), data.transcript.recv[i]? = some record →
          ∃ j0 verifier k, j0s[i]? = some j0 ∧ (places batches)[i]? = some (verifier, k) ∧
            Authenticated session processed s'.vm ghash i j0 verifier k record := by
  obtain ⟨processed, peer, s₀, s₁, cfVd, sfVd, hkey, hcf, hsf, haccepted⟩ := run_ok hready hrun
  obtain ⟨rest, hmessages⟩ := haccepted.messages
  obtain ⟨hseq, hauthenticated⟩ := haccepted.received hready.role
  exact ⟨processed, peer, rest, hmessages, haccepted.serverKey, haccepted.clientFinishedVd,
    haccepted.serverFinishedVd, hkey, ⟨cfVd, sfVd, hcf, hsf, haccepted.validated⟩, hseq,
    hauthenticated⟩

/-! A connection with the Finished messages, a record sent and two received. -/

def sampleParams : LayerParams :=
  { RecordLayer.sampleParams with
    role := .follower
    sentRecords := ⟨2, two_lt_wordSize⟩
    recvRecords := ⟨8, eight_lt_wordSize⟩
    sentLen := ⟨48, forty_eight_lt_wordSize⟩
    recvLenOnline := ⟨16, sixteen_lt_wordSize⟩
    recvLen := ⟨48, forty_eight_lt_wordSize⟩ }

def sampleVd : List UInt8 := List.replicate 12 0

/-- A Finished message. -/
def sampleFinished : List UInt8 := [0x14, 0, 0, 12] ++ sampleVd

theorem sampleFinished_lt : sampleFinished.length < wordSize := by decide +kernel

/-- Nothing is computed, and the memory is zero. -/
def sampleSession : Session Unit Unit (List TagShare) (List TagShare) where
  ke := ⟨fun _ => pure (), pure (), pure [], pure ()⟩
  prf := ⟨fun _ => pure [], fun _ => pure [], fun _ => pure []⟩
  parsesKey := fun _ => true
  executeAll := fun _ => .ok ()
  cfVd := fun _ => .ok (some sampleVd)
  sfVd := fun _ => .ok (some sampleVd)
  prepareEncrypt := RecordLayer.sampleGhash
  prepareDecrypt := RecordLayer.sampleGhash
  scheme := RecordLayer.sampleScheme
  mem := fun _ => 0
  cipher := RecordLayer.sampleCipher
  otherPayloads := fun _ _ _ => true

theorem sampleAlloc_ok :
    (Fault.result? (sampleParams.alloc (⟨40, []⟩, sampleParams.create))).isSome = true := by
  decide +kernel

def sampleAllocated : Vm × RecordLayer := (Option.get _ sampleAlloc_ok).2

theorem sampleAlloc_eq :
    sampleParams.alloc (⟨40, []⟩, sampleParams.create) = .ok () sampleAllocated :=
  Fault.ok_get_state sampleAlloc_ok

def sampleState : FollowerState Unit Unit := allocated () () sampleAllocated

theorem sampleState_ready : Ready sampleParams sampleState := ready_allocated rfl sampleAlloc_eq

def sampleHash : Vector UInt8 32 := Vector.replicate 32 0

/-- The leader, with the shares to which it commits. -/
def committedPeer (shares : List TagShare) : PeerShares (List TagShare) (List TagShare) :=
  { RecordLayer.samplePeer with
    commitment := shares
    decommitment := shares }

def samplePeer : PeerShares (List TagShare) (List TagShare) := committedPeer [Block.zero]

/-- It is committed to another share for each of the records which are left. -/
def closingPeer : PeerShares (List TagShare) (List TagShare) :=
  committedPeer [Vector.replicate 16 1, Vector.replicate 16 2]

theorem length_replicate_lt {n : Nat} (h : n < wordSize) (byte : UInt8) :
    (List.replicate n byte).length < wordSize := by rwa [List.length_replicate]

def sampleMessages : List (Message × PeerShares (List TagShare) (List TagShare)) :=
  [.setServerRandom sampleHash, .setServerKey ⟨.secp256r1, []⟩, .clientFinishedVd sampleHash,
    .encrypt .handshake .tlsV1_2 ⟨16, sixteen_lt_wordSize⟩ (some sampleFinished) .isPublic,
    .flush true,
    .decrypt .handshake .tlsV1_2 (List.replicate 8 0) ⟨sampleFinished, sampleFinished_lt⟩
      (List.replicate 16 0) .isPublic,
    .flush true, .serverFinishedVd sampleHash, .startTraffic,
    .encrypt .applicationData .tlsV1_2 ⟨8, eight_lt_wordSize⟩ none .isPrivate, .flush false,
    .decrypt .applicationData .tlsV1_2 (List.replicate 8 1)
      ⟨List.replicate 8 1, length_replicate_lt eight_lt_wordSize 1⟩ (List.replicate 16 1)
      .isPrivate,
    .decrypt .applicationData .tlsV1_2 (List.replicate 8 2)
      ⟨List.replicate 2 2, length_replicate_lt two_lt_wordSize 2⟩ (List.replicate 16 2)
      .isPrivate].map (fun message => (message, samplePeer)) ++ [(.closeConnection, closingPeer)]

theorem sampleRun_ok :
    (Fault.result? (run sampleSession sampleMessages sampleState)).isSome = true := by
  decide +kernel

def sampleData : FollowerData := (Option.get _ sampleRun_ok).1

def sampleFinal : FollowerState Unit Unit := (Option.get _ sampleRun_ok).2

theorem sampleRun_eq : run sampleSession sampleMessages sampleState = .ok sampleData sampleFinal :=
  Fault.ok_get_result sampleRun_ok

theorem sampleData_recv :
    sampleData.transcript.recv.map (fun record => record.ciphertext.length) = [16, 8, 2] := by
  decide +kernel

theorem run_authenticated_sample :
    sampleFinal.serverKey = some sampleData.serverKey ∧
      sampleData.transcript.recv.map (fun record => record.ciphertext.length) = [16, 8, 2] ∧
      ∃ processed peer j0s ghash batches,
        Verifies sampleSession sampleState.recordLayer j0s ghash ∧
        batches.map Prod.fst = verifiers processed peer ∧
        ∀ (i : Nat) (record : Record), sampleData.transcript.recv[i]? = some record →
          ∃ j0 verifier k, j0s[i]? = some j0 ∧ (places batches)[i]? = some (verifier, k) ∧
            Authenticated sampleSession processed sampleFinal.vm ghash i j0 verifier k record := by
  obtain ⟨processed, peer, rest, -, -, -, -, hkey, -, -, j0s, ghash, batches, hverifies, hpeers, -,
    hall⟩ := run_authenticated sampleState_ready sampleRun_eq
  exact ⟨hkey, sampleData_recv, processed, peer, j0s, ghash, batches, hverifies, hpeers, hall⟩

end Follower

end Tlsn.MpcTls

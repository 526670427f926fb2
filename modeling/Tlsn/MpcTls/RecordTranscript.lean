import Tlsn.MpcTls.RecordRun

/-!
The transcript which the record layer returns. It has a record for each one that
was pushed, in order, with what was pushed; and each record to be sent has the tag
which the parties computed for it.
-/

namespace Tlsn.MpcTls

open Tlsn.Cipher Tlsn.Common Tlsn.Tls

/-- The plaintext of a record, as far as the party knows it, and else as it is in the
machine. -/
def recordText (mem : Memory) (r : Record) : List UInt8 :=
  r.plaintext.getD ((r.plaintextRef.map mem.read).getD [])

/-- The sent record has what was pushed, and the ciphertext of its text. -/
structure EncryptOp.SentAs (aes : Aes) (mem : Memory) (key iv : Slice) (op : EncryptOp)
    (r : Record) : Prop where
  seq : r.seq = op.seq
  typ : r.typ = op.typ
  plaintext : r.plaintext = op.plaintext
  explicitNonce : r.explicitNonce = op.explicitNonce
  len : (recordText mem r).length = op.len
  ciphertext : r.ciphertext = xorBytes (recordText mem r)
    (ctrKeystream aes (mem.read key) (mem.read iv) op.explicitNonce startCtr op.blockCount)

/-- The received record has what was pushed. -/
structure DecryptOp.ReceivedAs (op : DecryptOp) (r : Record) : Prop where
  seq : r.seq = op.seq
  typ : r.typ = op.typ
  plaintextRef : r.plaintextRef = none
  explicitNonce : r.explicitNonce = op.explicitNonce
  ciphertext : r.ciphertext = op.ciphertext

/-- The record to be sent has what was pushed, the ciphertext in the transcript, and a
tag computed from them: with the party's own share, for a block which was assigned the
record's nonce, and the peer's. Only the leader has tags. -/
structure EncryptOp.QueuedAs (mem : Memory) (role : Role) (ghash : Ghash) (log : List VmOp)
    (op : EncryptOp) (r : Record) (j0 : J0) (share : Option TagShare) (record : EncryptedRecord) :
    Prop where
  typ : record.typ = op.typ
  version : record.version = op.version
  explicitNonce : record.explicitNonce = op.explicitNonce
  ciphertext : record.ciphertext = r.ciphertext
  assigned : ∀ o ∈ j0.ops op.explicitNonce, o ∈ log
  tag : match role with
    | .leader => ∃ own other, share = some other ∧
        tagShare ghash (j0.2.share mem) op.aad record.ciphertext = .ok own ∧
        record.tag = some (TagShare.add own other)
    | .follower => record.tag = none

namespace LayerCall

variable {C D : Type}

theorem map_seq_encryptPushes (calls : List (LayerCall C D)) {seq : Nat}
    (h : seq + (encryptPushes seq calls).length < wordSize) :
    (encryptPushes seq calls).map EncryptOp.seq =
      List.range' seq (encryptPushes seq calls).length := by
  induction calls generalizing seq with
  | nil => rfl
  | cons call calls ih =>
      cases call with
      | pushEncrypt typ version len plaintext mode =>
          rw [encryptPushes, List.length_cons] at h
          have hwrap : wrap (seq + 1) = seq + 1 := wrap_of_lt (by omega)
          rw [hwrap] at h
          rw [encryptPushes, List.map_cons, List.length_cons, List.range'_succ, hwrap,
            ih (by omega)]
          rfl
      | pushDecrypt _ _ _ _ _ _ => exact ih h
      | flush _ _ => exact ih h
      | startTraffic => exact ih h

theorem map_seq_decryptPushes (calls : List (LayerCall C D)) {seq : Nat}
    (h : seq + (decryptPushes seq calls).length < wordSize) :
    (decryptPushes seq calls).map DecryptOp.seq =
      List.range' seq (decryptPushes seq calls).length := by
  induction calls generalizing seq with
  | nil => rfl
  | cons call calls ih =>
      cases call with
      | pushDecrypt typ version explicitNonce ciphertext tag mode =>
          rw [decryptPushes, List.length_cons] at h
          have hwrap : wrap (seq + 1) = seq + 1 := wrap_of_lt (by omega)
          rw [hwrap] at h
          rw [decryptPushes, List.map_cons, List.length_cons, List.range'_succ, hwrap,
            ih (by omega)]
          rfl
      | pushEncrypt _ _ _ _ _ => exact ih h
      | flush _ _ => exact ih h
      | startTraffic => exact ih h

end LayerCall

namespace EncryptOp

variable {L : Layout} {key iv : Slice} {N : Nat} {vm : Vm} {aes : Aes} {mem : Memory} {role : Role}

theorem sentAs_sentRecord {n : Nat} {op : EncryptOp} (hvalid : op.Valid) (hfits : op.FitsAt n)
    (hn : n ≤ N) (hcalled : L.Called key iv N vm) (hmem : vm.Holds aes mem)
    (hops : ∀ o ∈ op.opsAt role L n, o ∈ vm.log) :
    op.SentAs aes mem key iv (op.sentRecord L mem (n - op.blockCount)) := by
  have htext : recordText mem (op.sentRecord L mem (n - op.blockCount)) =
      op.textAt L (n - op.blockCount) mem := by
    unfold recordText textAt sentRecord
    cases hmode : op.mode with
    | isPrivate => simp only [pendingAt, hmode, Option.map_some, Option.getD_some]
    | isPublic =>
        cases hplaintext : op.plaintext with
        | none => exact absurd hplaintext (hvalid.2 hmode)
        | some plaintext => rfl
  constructor
  · rfl
  · rfl
  · rfl
  · rfl
  · rw [htext, length_textAt L _ mem hvalid]
  · rw [htext]
    exact futureAt_eq hvalid hfits hn hcalled hmem hops

theorem sentAs_sentRecords (ops : List EncryptOp) {n : Nat} (hvalid : ∀ op ∈ ops, op.Valid)
    (hfits : FitFrom n ops) (hn : n ≤ N) (hcalled : L.Called key iv N vm) (hmem : vm.Holds aes mem)
    (hops : ∀ o ∈ opsFrom role L n ops, o ∈ vm.log) :
    List.Forall₂ (SentAs aes mem key iv) ops (sentRecords L mem n ops) := by
  induction ops generalizing n with
  | nil => exact List.Forall₂.nil
  | cons op ops ih =>
      refine List.Forall₂.cons ?_ ?_
      · exact sentAs_sentRecord (hvalid op List.mem_cons_self) hfits.1 hn hcalled hmem
          (fun o ho => hops o (List.mem_append_left _ ho))
      · exact ih (fun o ho => hvalid o (List.mem_cons_of_mem _ ho)) hfits.2
          (Nat.le_trans (Nat.sub_le ..) hn) (fun o ho => hops o (List.mem_append_right _ ho))

/-- The records to be sent, one by one. -/
theorem getElem?_encryptedRecords (ops : List EncryptOp) {n i : Nat} {tags : List (List UInt8)}
    {record : EncryptedRecord} (h : (encryptedRecords L mem n ops tags)[i]? = some record) :
    ∃ op r, ops[i]? = some op ∧ (sentRecords L mem n ops)[i]? = some r ∧ record.typ = op.typ ∧
      record.version = op.version ∧ record.explicitNonce = op.explicitNonce ∧
      record.ciphertext = r.ciphertext ∧
      (layOut L n ops)[i]?.map (fun out => out.2 mem) = some r.ciphertext ∧
        record.tag = tags[i]? := by
  induction ops generalizing n i tags with
  | nil => cases h
  | cons op ops ih =>
      cases i with
      | zero =>
          cases h
          refine ⟨op, _, rfl, rfl, rfl, rfl, rfl, rfl, rfl, ?_⟩
          cases tags <;> rfl
      | succ i =>
          obtain ⟨op', r, hop, hr, htyp, hversion, hnonce, hct, hout, htag⟩ := ih h
          refine ⟨op', r, hop, hr, htyp, hversion, hnonce, hct, hout, ?_⟩
          cases tags with
          | nil => exact htag
          | cons tag tags => exact htag

end EncryptOp

theorem J0.getElem?_taken {j0s : List J0} {k i : Nat} (h : i < k) :
    (taken j0s k)[i]? = j0s.reverse[i]? := List.getElem?_take_of_lt h

namespace Stock

variable {stock : Stock}

theorem getElem?_computeTask {role : Role} {ops : List EncryptOp} {i : Nat} {op : EncryptOp}
    {j0 : J0} {out : PendingEncrypt × Future (List UInt8)} (hop : ops[i]? = some op)
    (hj0 : (J0.taken stock.j0s ops.length)[i]? = some j0)
    (hout : (stock.encryptOuts ops)[i]? = some out) :
    (stock.computeTask role ops).data[i]? = some ⟨j0.2, out.2, op.aad⟩ := by
  simp only [computeTask, List.zip, List.getElem?_zipWith, List.getElem?_map, hj0, hop, hout,
    Option.map_some, EncryptOp.tagData]

/-- The tag of each record is its own. -/
theorem queuedAs {mem : Memory} {role : Role} {ops : List EncryptOp} {shares : List TagShare}
    {tags : List (List UInt8)} {log : List VmOp} (hfits : stock.FitsEncrypt ops)
    (htags : stock.TagsOf mem role ops shares tags)
    (hlog : ∀ o ∈ stock.encryptVmOps role ops, o ∈ log) {i : Nat} {record : EncryptedRecord}
    (h : (EncryptOp.encryptedRecords stock.layout mem stock.blocks ops tags)[i]? = some record) :
    ∃ op r j0, ops[i]? = some op ∧
      (EncryptOp.sentRecords stock.layout mem stock.blocks ops)[i]? = some r ∧
      stock.j0s.reverse[i]? = some j0 ∧
        op.QueuedAs mem role stock.ghash log r j0 shares[i]? record := by
  obtain ⟨op, r, hop, hr, htyp, hversion, hnonce, hct, hout, htag⟩ :=
    EncryptOp.getElem?_encryptedRecords ops h
  have hlt : i < ops.length := (List.getElem?_eq_some_iff.mp hop).1
  have hlt' : i < (J0.taken stock.j0s ops.length).length := by rwa [hfits.length_taken]
  have hj0 := List.getElem?_eq_getElem hlt'
  refine ⟨op, r, _, hop, hr, (J0.getElem?_taken hlt).symm.trans hj0, htyp, hversion, hnonce, hct,
    ?_, ?_⟩
  · intro o ho
    refine hlog o (List.mem_append_right _ (Resources.mem_j0Ops hj0 (d := op.tagData) ?_ ho))
    rw [List.getElem?_map, hop, Option.map_some]
  · cases role with
    | leader =>
        obtain ⟨own, hown, hlen, rfl⟩ := htags
        obtain ⟨out, hout, hfuture⟩ := Option.map_eq_some_iff.mp hout
        have hdata : (stock.computeTask .leader ops).data[i]? = some _ :=
          getElem?_computeTask hop hj0 hout
        obtain ⟨a, ha, hshare⟩ := (Fault.mapM_ok hown).2 i _ hdata
        have hlt'' : i < shares.length := by
          rw [hlen]
          exact (List.getElem?_eq_some_iff.mp ha).1
        have hother := List.getElem?_eq_getElem hlt''
        refine ⟨a, _, hother, ?_, ?_⟩
        · rw [hct, ← hfuture]
          exact hshare
        · rw [htag, List.getElem?_zipWith, ha, hother]
    | follower =>
        rw [show tags = [] from htags] at htag
        exact htag

end Stock

namespace RecordLayer

/-- Where the blocks for tags and the key of GHASH are. -/
def tagInputs (layer : RecordLayer) : List J0 × Ghash :=
  match layer.encrypter.state with
  | .ready resources ghash => (resources.j0s.reverse, ghash)
  | _ => ([], ⟨fun _ => .error .panic⟩)

variable {C D : Type} {scheme : HashCommit C D} {cipher : LocalAesCtr} {mem : Memory} {aes : Aes}
  {peer : PeerShares C D} {p : LayerParams} {s s' s'' : Vm × RecordLayer} {t : TlsTranscript}

/-- However records are pushed and flushed before the layer is committed: the transcript
has the records that were pushed, numbered in order; each sent record has the ciphertext
of its own text; and each record that is to be sent has its own tag. -/
theorem records_kept (calls : List (LayerCall C D)) (hstart : p.Established mem s)
    (hrun : LayerCall.runAll scheme mem calls s = .ok () s')
    (hcommit : commit scheme cipher mem peer s' = .ok t s'') (hmem : s''.1.Holds aes mem) :
    t.sent.map Record.seq = List.range s'.2.writeSeq ∧
      t.recv.map Record.seq = List.range s'.2.readSeq ∧
      List.Forall₂ (EncryptOp.SentAs aes mem p.clientWriteKey p.clientIv)
        (LayerCall.encryptPushes 0 calls) t.sent ∧
      List.Forall₂ DecryptOp.ReceivedAs (LayerCall.decryptPushes 0 calls) t.recv ∧
      s''.2.encryptedBuffer.length = t.sent.length ∧
      ∀ (i : Nat) (record : EncryptedRecord), s''.2.encryptedBuffer[i]? = some record →
        ∃ (op : EncryptOp) (r : Record) (j0 : J0),
          (LayerCall.encryptPushes 0 calls)[i]? = some op ∧ t.sent[i]? = some r ∧
          s.2.tagInputs.1[i]? = some j0 ∧
          op.QueuedAs mem p.role s.2.tagInputs.2 s''.1.log r j0
            (LayerCall.receivedShares false calls)[i]? record := by
  obtain ⟨e, d, hprogress, hfresh, he, hd⟩ := Progress.of_established hstart
  obtain ⟨trace, hfinal, hran⟩ := hprogress.runAll calls hrun
  obtain ⟨ctr, maskedKey, maskedIv, hcommits, rfl, rfl⟩ :=
    commit_ok hfinal.stocked hfinal.buffered hfinal.state hcommit
  have hpushed : trace.encrypted = LayerCall.encryptPushes 0 calls := by
    have h := hran.encrypted
    rw [hcommits.encrypted, hfresh.encryptBuffer, hfresh.writeSeq, List.append_nil] at h
    exact h
  have hpushed' : trace.decrypted ++ s'.2.decryptBuffer = LayerCall.decryptPushes 0 calls := by
    have h := hran.decrypted
    rw [hfresh.decryptBuffer, hfresh.readSeq] at h
    exact h
  have hcount : (LayerCall.encryptPushes 0 calls).length < wordSize := by
    have h := hfinal.fits.1.2.1
    rw [List.length_map, he.records, hpushed] at h
    exact Nat.lt_of_le_of_lt h p.sentRecords.isLt
  have hcount' : (LayerCall.decryptPushes 0 calls).length < wordSize := by
    have h := (hfinal.fits.2.2.append hcommits.fits).1
    rw [List.length_map, hd.records, hpushed'] at h
    exact Nat.lt_of_le_of_lt h p.recvRecords.isLt
  have hseq : s'.2.writeSeq = (LayerCall.encryptPushes 0 calls).length := by
    have h := hran.writeSeq (by rw [hfresh.writeSeq]; decide)
    rw [hfresh.writeSeq, Nat.zero_add, wrap_of_lt hcount] at h
    exact h
  have hseq' : s'.2.readSeq = (LayerCall.decryptPushes 0 calls).length := by
    have h := hran.readSeq (by rw [hfresh.readSeq]; decide)
    rw [hfresh.readSeq, Nat.zero_add, wrap_of_lt hcount'] at h
    exact h
  have hcalled := (he.extends hran.log).called.push
    (commitVmOps (d.decrypted trace.decrypted) maskedKey maskedIv s'.2.decryptBuffer)
  have hsent := EncryptOp.sentAs_sentRecords trace.encrypted hfinal.valid hfinal.fits.1.1
    (Nat.le_refl _) hcalled hmem
    (fun o ho => List.mem_append_left _ (hfinal.encryptOps o (List.mem_append_left _ ho)))
  have hrecv : ∀ rs : List (DecryptOp × Option (List UInt8)),
      List.Forall₂ DecryptOp.ReceivedAs (rs.map Prod.fst) (rs.map fun r => r.1.recvRecord r.2) := by
    intro rs
    refine List.forall₂_map_left_iff.mpr (List.forall₂_map_right_iff.mpr ?_)
    exact List.forall₂_same.mpr fun r _ => ⟨rfl, rfl, rfl, rfl, rfl⟩
  have hrecv' := hrecv (DecryptOp.decrypted d.layout mem d.blocks p.recvOtp trace.decrypted ++
    s'.2.committedRecords cipher mem (d.decrypted trace.decrypted) ctr)
  rw [List.map_append, List.map_append, DecryptOp.map_fst_decrypted, map_fst_committedRecords,
    hpushed'] at hrecv'
  have hmap : ∀ {α : Type} {f : α → Nat} {xs : List α} {rs : List Record},
      List.Forall₂ (fun x r => r.seq = f x) xs rs → rs.map Record.seq = xs.map f := by
    intro α f xs rs h
    induction h with
    | nil => rfl
    | cons hx _ ih => rw [List.map_cons, List.map_cons, hx, ih]
  obtain ⟨tags, htags, hbuffer⟩ := hfinal.tagged
  refine ⟨?_, ?_, hpushed ▸ hsent, hrecv', ?_, ?_⟩
  · rw [hmap (hsent.imp fun _ _ h => h.seq), hpushed,
      LayerCall.map_seq_encryptPushes calls (by rw [Nat.zero_add]; exact hcount),
      List.range_eq_range', hseq]
  · rw [hmap (hrecv'.imp fun _ _ h => h.seq),
      LayerCall.map_seq_decryptPushes calls (by rw [Nat.zero_add]; exact hcount'),
      List.range_eq_range', hseq']
  · rw [show (completed cipher mem (d.decrypted trace.decrypted) ctr s'.2).encryptedBuffer =
      s'.2.encryptedBuffer from rfl, hbuffer, EncryptOp.length_encryptedRecords,
      EncryptOp.length_sentRecords]
  · intro i record hrecord
    have hrecord' : (EncryptOp.encryptedRecords e.layout mem e.blocks trace.encrypted tags)[i]? =
        some record := by
      rw [← hbuffer]
      exact hrecord
    obtain ⟨op, r, j0, hop, hr, hj0, hqueued⟩ := Stock.queuedAs hfinal.fits.1 htags
      (fun o ho => List.mem_append_left _ (hfinal.encryptOps o ho)) hrecord'
    have hinputs : s.2.tagInputs = (e.j0s.reverse, e.ghash) := by
      have hstate := hprogress.stocked.encrypter.state
      rw [LayerTrace.empty, Stock.encrypted_nil] at hstate
      rw [tagInputs, hstate]
      rfl
    have hshares : trace.shares = LayerCall.receivedShares false calls := by
      have h := hran.shares
      rw [hfresh.encryptBuffer] at h
      exact h
    rw [hpushed] at hop
    rw [hshares] at hqueued
    rw [hinputs]
    exact ⟨op, r, j0, hop, hr, hj0, hqueued⟩

/-- A leader whose keys are the first bytes of memory, with room for a record in each
direction. -/
def sampleParams : LayerParams where
  role := .leader
  clientWriteKey := ⟨0, 16⟩
  clientIv := ⟨16, 4⟩
  serverWriteKey := ⟨20, 16⟩
  serverIv := ⟨36, 4⟩
  pads := ⟨fun _ => Block.zero, fun _ => Block.zero, fun _ => 0, Block.zero, Vector.replicate 4 0⟩
  sentRecords := ⟨1, one_lt_wordSize⟩
  recvRecords := ⟨1, one_lt_wordSize⟩
  sentLen := ⟨1, one_lt_wordSize⟩
  recvLenOnline := ⟨1, one_lt_wordSize⟩
  recvLen := ⟨1, one_lt_wordSize⟩

/-- All memory is zero, but for the counters of the three blocks that are used. -/
def sampleMemory : Memory := fun i => if i = 255 then 2 else if i = 147 ∨ i = 395 then 1 else 0

def sampleAes : Aes := fun _ _ => Block.zero

def sampleGhash : List UInt8 → Except (Fault GhashError) Ghash :=
  fun _ => .ok ⟨fun _ => .ok (List.replicate 16 0)⟩

def sampleScheme : HashCommit (List TagShare) (List TagShare) where
  commit xs := (xs, xs)
  verify d c := decide (d = c)
  intoInner d := d

def samplePeer : PeerShares (List TagShare) (List TagShare) where
  computeShares := [Block.zero]
  verifyShares := [Block.zero]
  commitment := []
  decommitment := []

/-- A record is sent, and one is received and left for the end. -/
def sampleCalls : List (LayerCall (List TagShare) (List TagShare)) :=
  [.pushEncrypt .handshake .tlsV1_2 ⟨1, one_lt_wordSize⟩ (some [0]) .isPrivate,
    .flush samplePeer true, .startTraffic,
    .pushDecrypt .applicationData .tlsV1_2 (List.replicate 8 0) ⟨[0], length_zero_lt⟩
      (List.replicate 16 0) .isPrivate]

theorem sampleAlloc_ok :
    (Fault.result? (sampleParams.alloc (⟨40, []⟩, sampleParams.create))).isSome = true := by
  decide +kernel

def sampleAllocated : Vm × RecordLayer := (Option.get _ sampleAlloc_ok).2

theorem sampleSetup_ok : (Fault.result? (setup sampleMemory sampleGhash sampleGhash
    (sampleAllocated.1.push [], sampleAllocated.2))).isSome = true := by
  decide +kernel

def sampleStart : Vm × RecordLayer := (Option.get _ sampleSetup_ok).2

theorem sampleAlloc_eq :
    sampleParams.alloc (⟨40, []⟩, sampleParams.create) = .ok () sampleAllocated :=
  Fault.ok_get_state sampleAlloc_ok

theorem sampleSetup_eq : setup sampleMemory sampleGhash sampleGhash
    (sampleAllocated.1.push [], sampleAllocated.2) = .ok () sampleStart :=
  Fault.ok_get_state sampleSetup_ok

theorem sampleStart_established : sampleParams.Established sampleMemory sampleStart :=
  ⟨_, _, _, _, _, sampleAlloc_eq, sampleSetup_eq⟩

theorem sampleRun_ok : (Fault.result? (LayerCall.runAll sampleScheme sampleMemory sampleCalls
    sampleStart)).isSome = true := by
  decide +kernel

def sampleFlushed : Vm × RecordLayer := (Option.get _ sampleRun_ok).2

theorem sampleRun_eq : LayerCall.runAll sampleScheme sampleMemory sampleCalls sampleStart =
    .ok () sampleFlushed :=
  Fault.ok_get_state sampleRun_ok

def sampleCipher : LocalAesCtr := ⟨fun _ _ _ data => some data⟩

theorem sampleCommit_ok : (Fault.result? (commit sampleScheme sampleCipher sampleMemory samplePeer
    sampleFlushed)).isSome = true := by
  decide +kernel

def sampleTranscript : TlsTranscript := (Option.get _ sampleCommit_ok).1

def sampleCommitted : Vm × RecordLayer := (Option.get _ sampleCommit_ok).2

theorem sampleCommit_eq : commit sampleScheme sampleCipher sampleMemory samplePeer sampleFlushed =
    .ok sampleTranscript sampleCommitted :=
  Fault.ok_get_result sampleCommit_ok

theorem sampleCommitted_holds : sampleCommitted.1.Holds sampleAes sampleMemory := by
  unfold Vm.Holds
  decide +kernel

theorem records_kept_sample :
    sampleTranscript.sent.map Record.seq = List.range sampleFlushed.2.writeSeq ∧
      sampleTranscript.recv.map Record.seq = List.range sampleFlushed.2.readSeq :=
  have hkept := records_kept sampleCalls sampleStart_established sampleRun_eq sampleCommit_eq
    sampleCommitted_holds
  ⟨hkept.1, hkept.2.1⟩

end RecordLayer

end Tlsn.MpcTls

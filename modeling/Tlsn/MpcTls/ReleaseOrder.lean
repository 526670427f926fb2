import Tlsn.MpcTls.DecryptionPaths
import Tlsn.MpcTls.FollowerTranscript
import Tlsn.MpcTls.Framing
import Tlsn.MpcTls.LeaderTrace
import Tlsn.MpcTls.PadMasks
import Tlsn.MpcTls.RecordTranscript

/-!
What the leader returns is what was pushed, in order: the records to be sent, encrypted, and
the records received, decrypted. Application data, and what is behind it, is held back until
traffic starts.
-/

namespace Tlsn.MpcTls

open Tlsn.Cipher Tlsn.Common Tlsn.Tls

namespace DecryptOp

section Plaintexts

variable {L : Layout} {mem : Memory} {aes : Aes} {vm : Vm} {N : Nat} {role : Role}

/-- The party with the pad decrypts each record online to its own plaintext. -/
theorem decrypted_plaintext {key iv : Slice} (ops : List DecryptOp) {n : Nat}
    {pad : Option (List UInt8)} (hpad : pad.isSome = true) (hcalled : L.Called key iv N vm)
    (hmem : vm.Holds aes mem) (hn : n ≤ N) (hfits : FitFrom n pad ops)
    (hops : ∀ o ∈ opsFrom role L n pad ops, o ∈ vm.log) :
    ∀ r ∈ decrypted L mem n pad ops,
      r.2 = some (r.1.plaintext aes (mem.read key) (mem.read iv)) := by
  induction ops generalizing n pad with
  | nil => exact fun r hr => nomatch hr
  | cons op ops ih =>
      obtain ⟨otp, rfl⟩ := Option.isSome_iff_exists.mp hpad
      have hafter : (op.padAfter (some otp)).isSome = true := by
        unfold padAfter
        cases op.mode <;> rfl
      refine List.forall_mem_cons.mpr ⟨?_, ih hafter (Nat.le_trans (Nat.sub_le ..) hn) hfits.2
        fun o ho => hops o (List.mem_append_right _ ho)⟩
      have hop : ∀ o ∈ op.opsAt role L n (some otp), o ∈ vm.log :=
        fun o ho => hops o (List.mem_append_left _ ho)
      simp only [decryptedAt]
      cases hmode : op.mode with
      | isPrivate => rw [tryDecrypt_private hcalled hmem hn hmode hfits.1 hop]
      | isPublic =>
          rw [opsAt, hmode] at hop
          rw [outputAt, hmode]
          simp only [tryDecrypt_public hcalled hmem hn hfits.1.2.1 hop]

/-- So does the leader when the connection is committed. -/
theorem committed_plaintext {key iv : Slice} {cipher : LocalAesCtr} {ctr : AesCtr}
    (ops : List DecryptOp) {n : Nat} (hcipher : cipher.Correct aes) (hrole : ctr.role = .leader)
    (hstate : ctr.state = .ready (some (mem.read key)) (some (mem.read iv))) (hkey : key.len = 16)
    (hiv : iv.len = 4) (hcalled : L.Called key iv N vm) (hmem : vm.Holds aes mem) (hn : n ≤ N)
    (hnonce : ∀ op ∈ ops, op.explicitNonce.length = 8)
    (hfits : LocalFitFrom .leader cipher ctr n ops)
    (hops : ∀ o ∈ localOpsFrom L n ops, o ∈ vm.log) :
    ∀ r ∈ committed .leader cipher ctr L mem n ops,
      r.2 = some (r.1.plaintext aes (mem.read key) (mem.read iv)) := by
  induction ops generalizing n with
  | nil => exact fun r hr => nomatch hr
  | cons op ops ih =>
      refine List.forall_mem_cons.mpr ⟨?_, ih (Nat.le_trans (Nat.sub_le ..) hn)
        (fun o ho => hnonce o (List.mem_cons_of_mem _ ho)) hfits.2
        fun o ho => hops o (List.mem_append_right _ ho)⟩
      have hfit := hfits.1
      have hop : ∀ o ∈ op.localOps L n, o ∈ vm.log :=
        fun o ho => hops o (List.mem_append_left _ ho)
      cases hmode : op.mode with
      | isPrivate =>
          simp only [LocalFitsAt, hmode, localPlaintext] at hfit
          simp only [committedAt, hmode, localPlaintext]
          cases hplaintext : ctr.decrypt cipher op.explicitNonce op.ciphertext with
          | ok plaintext =>
              have hsound := decrypt_local_sound ctr hcipher hrole hstate
                (by rw [Memory.length_read, hkey]) (by rw [Memory.length_read, hiv])
                (hnonce op List.mem_cons_self) hplaintext
              exact congrArg some hsound
          | error e =>
              rw [hplaintext] at hfit
              cases hfit
      | isPublic =>
          simp only [LocalFitsAt, hmode] at hfit
          simp only [localOps, hmode] at hop
          have htext := tryDecrypt_public hcalled hmem hn hfit.2.2 hop
          simp only [DecryptOutput.tryDecrypt, ne_eq, not_true_eq_false, if_false] at htext
          simp only [committedAt, hmode]
          exact Except.ok.inj htext

end Plaintexts

end DecryptOp

/-- The stream cipher of a leader which is set up has its key and its IV masked. -/
theorem LayerParams.Established.masks {p : LayerParams} {mem : Memory} {s : Vm × RecordLayer}
    (h : p.Established mem s) (hrole : p.role = .leader) (hkey : p.serverWriteKey.len = 16)
    (hiv : p.serverIv.len = 4) :
    ∃ maskedKey maskedIv keyOtp ivOtp,
      s.2.aesCtr = ⟨.leader, some p.serverWriteKey, some p.serverIv,
        .alloc maskedKey maskedIv (some keyOtp) (some ivOtp)⟩ ∧
      AesCtr.Masks p.serverWriteKey p.serverIv maskedKey maskedIv keyOtp ivOtp s.1 := by
  obtain ⟨vm, ⟨vm', layer⟩, ops, prepareEncrypt, prepareDecrypt, halloc, hsetup⟩ := h.alloc
  obtain ⟨⟨⟩, s₁, htake, h₁⟩ := Fault.run_bind_ok_iff.mp halloc
  cases htake
  obtain ⟨⟨⟩, s₂, hencrypt, h₂⟩ := Fault.run_bind_ok_iff.mp h₁
  obtain ⟨t, -, rfl⟩ := RecordLayer.onEncrypter_ok_iff.mp hencrypt
  obtain ⟨⟨⟩, s₃, hdecrypt, h₃⟩ := Fault.run_bind_ok_iff.mp h₂
  obtain ⟨u, -, rfl⟩ := RecordLayer.onDecrypter_ok_iff.mp hdecrypt
  obtain ⟨⟨⟩, s₄, hctr, h₄⟩ := Fault.run_bind_ok_iff.mp h₃
  obtain ⟨v, hv, rfl⟩ := RecordLayer.onAesCtr_ok_iff.mp hctr
  cases h₄
  have hcreate : p.create.aesCtr = (AesCtr.new .leader).setKey p.serverWriteKey p.serverIv := by
    rw [← hrole]
    rfl
  have hmask : AesCtr.alloc p.pads.key p.pads.iv (u.1, p.create.aesCtr) = .ok () v := hv
  rw [hcreate, AesCtr.alloc_leader hkey hiv] at hmask
  cases hmask
  obtain ⟨encrypter, decrypter, heq, -⟩ := RecordLayer.setup_equip hsetup
  cases heq
  exact ⟨_, _, _, _, rfl, (AesCtr.masks_of_alloc p.pads.key p.pads.iv hkey hiv u.1).push ops⟩

/-! ## Records -/

/-- The record to be sent is the one that was pushed, encrypted, with a tag. -/
structure EncryptOp.SealedAs (aes : Aes) (key iv : List UInt8) (op : EncryptOp)
    (record : EncryptedRecord) : Prop where
  typ : record.typ = op.typ
  version : record.version = op.version
  explicitNonce : record.explicitNonce = op.explicitNonce
  ciphertext : ∀ plaintext, op.plaintext = some plaintext → record.ciphertext =
    xorBytes plaintext (ctrKeystream aes key iv op.explicitNonce startCtr op.blockCount)
  tag : record.tag.isSome = true

/-- The decrypted record is the one that was pushed, decrypted. -/
structure DecryptOp.OpenedAs (aes : Aes) (key iv : List UInt8) (op : DecryptOp)
    (record : PlainRecord) : Prop where
  typ : record.typ = op.typ
  version : record.version = op.version
  plaintext : record.plaintext = some (op.plaintext aes key iv)

namespace EncryptOp

variable {L : Layout} {key iv : Slice} {N : Nat} {vm : Vm} {aes : Aes} {mem : Memory} {role : Role}

theorem sealedAs_encryptedRecord {n : Nat} {op : EncryptOp} (tag : List UInt8) (hvalid : op.Valid)
    (hfits : op.FitsAt n) (hn : n ≤ N) (hcalled : L.Called key iv N vm) (hmem : vm.Holds aes mem)
    (hops : ∀ o ∈ op.opsAt role L n, o ∈ vm.log) :
    op.SealedAs aes (mem.read key) (mem.read iv)
      (op.encryptedRecord L mem (n - op.blockCount) (some tag)) := by
  have hsent := sentAs_sentRecord hvalid hfits hn hcalled hmem hops
  refine ⟨rfl, rfl, rfl, fun plaintext hplaintext => ?_, rfl⟩
  have htext : recordText mem (op.sentRecord L mem (n - op.blockCount)) = plaintext := by
    rw [recordText, hsent.plaintext, hplaintext, Option.getD_some]
  rw [← htext]
  exact hsent.ciphertext

theorem sealedAs_encryptedRecords (ops : List EncryptOp) {n : Nat} {tags : List (List UInt8)}
    (htags : tags.length = ops.length) (hvalid : ∀ op ∈ ops, op.Valid) (hfits : FitFrom n ops)
    (hn : n ≤ N) (hcalled : L.Called key iv N vm) (hmem : vm.Holds aes mem)
    (hops : ∀ o ∈ opsFrom role L n ops, o ∈ vm.log) :
    List.Forall₂ (SealedAs aes (mem.read key) (mem.read iv)) ops
      (encryptedRecords L mem n ops tags) := by
  induction ops generalizing n tags with
  | nil => exact List.Forall₂.nil
  | cons op ops ih =>
      cases tags with
      | nil => cases htags
      | cons tag tags =>
          refine List.Forall₂.cons ?_ ?_
          · exact sealedAs_encryptedRecord tag (hvalid op List.mem_cons_self) hfits.1 hn hcalled
              hmem fun o ho => hops o (List.mem_append_left _ ho)
          · exact ih (Nat.succ_inj.mp htags) (fun o ho => hvalid o (List.mem_cons_of_mem _ ho))
              hfits.2 (Nat.le_trans (Nat.sub_le ..) hn)
              fun o ho => hops o (List.mem_append_right _ ho)

end EncryptOp

theorem DecryptOp.openedAs_plainRecord {aes : Aes} {key iv : List UInt8}
    {rs : List (DecryptOp × Option (List UInt8))}
    (h : ∀ r ∈ rs, r.2 = some (r.1.plaintext aes key iv)) :
    List.Forall₂ (OpenedAs aes key iv) (rs.map Prod.fst)
      (rs.map fun r => r.1.plainRecord r.2) := by
  refine List.forall₂_map_left_iff.mpr (List.forall₂_map_right_iff.mpr ?_)
  exact List.forall₂_same.mpr fun r hr => ⟨rfl, rfl, h r hr⟩

/-- What a layer holds of the records that were pushed: those that were processed, in the
order in which they were pushed. -/
structure RecordLayer.Holding {C D : Type} (aes : Aes) (mem : Memory) (p : LayerParams)
    (calls : List (LayerCall C D)) (encrypted : List EncryptedRecord)
    (decrypted : List PlainRecord) : Prop where
  encrypted : ∃ ops rest, LayerCall.encryptPushes 0 calls = ops ++ rest ∧ ops.length < wordSize ∧
    List.Forall₂ (EncryptOp.SealedAs aes (mem.read p.clientWriteKey) (mem.read p.clientIv)) ops
      encrypted
  decrypted : ∃ ops rest, LayerCall.decryptPushes 0 calls = ops ++ rest ∧
    List.Forall₂ (DecryptOp.OpenedAs aes (mem.read p.serverWriteKey) (mem.read p.serverIv)) ops
      decrypted

section Holding

variable {C D : Type} {p : LayerParams} {scheme : HashCommit C D} {mem : Memory} {aes : Aes}
  {calls : List (LayerCall C D)} {s₀ : Vm × RecordLayer} {vm vm₁ vm₂ : Vm}
  {layer layer' : RecordLayer} {peer : PeerShares C D} {cipher : LocalAesCtr} {t : TlsTranscript}

/-- What the leader decrypts online is its plaintext. -/
theorem decrypted_opened {d e : Stock} {trace : LayerTrace C D} {s : Vm × RecordLayer}
    (h : Progress p e d scheme mem trace s) (hrole : p.role = .leader)
    (hcalled : d.layout.Called p.serverWriteKey p.serverIv d.blocks s.1)
    (hmem : s.1.Holds aes mem) :
    ∀ r ∈ DecryptOp.decrypted d.layout mem d.blocks p.recvOtp trace.decrypted,
      r.2 = some (r.1.plaintext aes (mem.read p.serverWriteKey) (mem.read p.serverIv)) := by
  have hpad : p.recvOtp.isSome = true := by
    rw [LayerParams.recvOtp, hrole]
    rfl
  exact DecryptOp.decrypted_plaintext _ hpad hcalled hmem (Nat.le_refl _) h.fits.2.1 h.decryptOps

/-- After the calls. -/
theorem holding_of_runAll (hstart : p.Established mem s₀) (hrole : p.role = .leader)
    (hrun : LayerCall.runAll scheme mem calls s₀ = .ok () (vm, layer))
    (hmem : vm.Holds aes mem) :
    RecordLayer.Holding aes mem p calls layer.encryptedBuffer layer.decryptedBuffer := by
  obtain ⟨e, d, hprogress, hfresh, he, hd⟩ := Progress.of_established hstart
  obtain ⟨trace, hfinal, hran⟩ := hprogress.runAll calls hrun
  obtain ⟨tags, htags, hbuffer⟩ := hfinal.tagged
  rw [hrole] at htags
  constructor
  · refine ⟨trace.encrypted, layer.encryptBuffer, ?_, ?_, ?_⟩
    · have hpushed := hran.encrypted
      rw [hfresh.encryptBuffer, hfresh.writeSeq] at hpushed
      exact hpushed.symm
    · have hfits := hfinal.fits.1.2.1
      rw [List.length_map, he.records] at hfits
      exact Nat.lt_of_le_of_lt hfits p.sentRecords.isLt
    · rw [show layer.encryptedBuffer = _ from hbuffer]
      exact EncryptOp.sealedAs_encryptedRecords trace.encrypted (htags.length hfinal.fits.1)
        hfinal.valid hfinal.fits.1.1 (Nat.le_refl _) (he.extends hran.log).called hmem
        fun o ho => hfinal.encryptOps o (List.mem_append_left _ ho)
  · refine ⟨trace.decrypted, layer.decryptBuffer, ?_, ?_⟩
    · have hpushed := hran.decrypted
      rw [hfresh.decryptBuffer, hfresh.readSeq] at hpushed
      exact hpushed.symm
    · have hopened := DecryptOp.openedAs_plainRecord
        (decrypted_opened hfinal hrole (hd.extends hran.log).called hmem)
      rw [DecryptOp.map_fst_decrypted] at hopened
      rw [show layer.decryptedBuffer = _ from hfinal.plain]
      exact hopened

/-- After the commit. -/
theorem holding_of_commit (hstart : p.Established mem s₀) (hrole : p.role = .leader)
    (hkey : p.serverWriteKey.len = 16) (hiv : p.serverIv.len = 4) (hcipher : cipher.Correct aes)
    (hrun : LayerCall.runAll scheme mem calls s₀ = .ok () (vm, layer))
    (hlog : ∀ o ∈ vm.log, o ∈ vm₁.log)
    (hcommit : RecordLayer.commit scheme cipher mem peer (vm₁, layer) = .ok t (vm₂, layer'))
    (hmem : vm₂.Holds aes mem) :
    RecordLayer.Holding aes mem p calls layer'.encryptedBuffer layer'.decryptedBuffer := by
  obtain ⟨e, d, hprogress, hfresh, he, hd⟩ := Progress.of_established hstart
  obtain ⟨trace, hfinal, hran⟩ := hprogress.runAll calls hrun
  have hwide := hfinal.widen hlog
  obtain ⟨ctr, maskedKey, maskedIv, hcommits, -, hs₂⟩ :=
    RecordLayer.commit_ok hwide.stocked hwide.buffered hwide.state hcommit
  cases hs₂
  have hmem₁ : vm₁.Holds aes mem := fun o ho => hmem o (List.mem_append_left _ ho)
  have hmem₀ : vm.Holds aes mem := fun o ho => hmem₁ o (hlog o ho)
  have hheld := holding_of_runAll hstart hrole hrun hmem₀
  refine ⟨hheld.encrypted, trace.decrypted ++ layer.decryptBuffer, [], ?_, ?_⟩
  · have hpushed := hran.decrypted
    rw [hfresh.decryptBuffer, hfresh.readSeq] at hpushed
    rw [List.append_nil]
    exact hpushed.symm
  · have hctr : ctr = ⟨.leader, some p.serverWriteKey, some p.serverIv,
        .ready (some (mem.read p.serverWriteKey)) (some (mem.read p.serverIv))⟩ := by
      obtain ⟨maskedKey', maskedIv', keyOtp, ivOtp, haes, hmasks⟩ :=
        hstart.masks hrole hkey hiv
      obtain ⟨keyOtp', ivOtp', hstate, hfinish⟩ := hcommits.key
      rw [hprogress.aesCtr_runAll calls hrun, haes] at hstate hfinish
      cases hstate
      have hmem' : s₀.1.Holds aes mem := by
        obtain ⟨ops, hops⟩ := hran.log
        exact hmem₀.of_append hops
      rw [AesCtr.finishDecode_leader hmasks hmem'] at hfinish
      cases hfinish
      rfl
    have hcommitted : ∀ r ∈ layer.committedRecords cipher mem (d.decrypted trace.decrypted) ctr,
        r.2 = some (r.1.plaintext aes (mem.read p.serverWriteKey) (mem.read p.serverIv)) := by
      have hlayer : layer.role = .leader := hfinal.role.trans hrole
      have hfits := hcommits.fitsLocal
      rw [hlayer] at hfits
      rw [RecordLayer.committedRecords, hlayer]
      have hcalled : d.layout.Called p.serverWriteKey p.serverIv d.blocks vm :=
        (hd.extends hran.log).called
      refine DecryptOp.committed_plaintext layer.decryptBuffer hcipher (by rw [hctr]) (by rw [hctr])
        hkey hiv ?_ hmem (DecryptOp.remaining_le trace.decrypted d.blocks) ?_ hfits ?_
      · exact ⟨fun i hi => List.mem_append_left _ (hlog _ (hcalled.ctr i hi)),
          fun i hi => List.mem_append_left _ (hlog _ (hcalled.xor i hi))⟩
      · exact fun op hop => hcommits.fits.2 op.tagData (List.mem_map_of_mem hop)
      · intro o ho
        exact List.mem_append_right _ (List.mem_append_right _ ho)
    have hopened := DecryptOp.openedAs_plainRecord (List.forall_mem_append.mpr
      ⟨decrypted_opened hfinal hrole (hd.extends hran.log).called hmem₀, hcommitted⟩)
    rw [List.map_append, List.map_append, DecryptOp.map_fst_decrypted,
      RecordLayer.map_fst_committedRecords] at hopened
    simp only [RecordLayer.completed]
    rw [show layer.decryptedBuffer = _ from hfinal.plain]
    exact hopened

end Holding

theorem RecordLayer.mem_of_nextDecrypted {layer : RecordLayer} {record : PlainRecord}
    (h : layer.nextDecrypted.1 = some record) : record ∈ layer.decryptedBuffer := by
  unfold nextDecrypted at h
  split at h
  · cases h
  · next records hbuffer =>
      rw [hbuffer]
      split at h
      · cases h
      · cases h
        exact List.mem_cons_self

/-! ## Messages -/

namespace LayerCall

variable {C D : Type}

theorem encryptPushes_filter (calls : List (LayerCall C D)) (seq : Nat) :
    encryptPushes seq (calls.filter isPushEncrypt) = encryptPushes seq calls := by
  induction calls generalizing seq with
  | nil => rfl
  | cons call calls ih =>
      cases call with
      | pushEncrypt typ version len plaintext mode => exact congrArg (_ :: ·) (ih _)
      | pushDecrypt typ version explicitNonce ciphertext tag mode => exact ih seq
      | flush peer isDecrypting => exact ih seq
      | startTraffic => exact ih seq

theorem decryptPushes_filter (calls : List (LayerCall C D)) (seq : Nat) :
    decryptPushes seq (calls.filter isPushDecrypt) = decryptPushes seq calls := by
  induction calls generalizing seq with
  | nil => rfl
  | cons call calls ih =>
      cases call with
      | pushEncrypt typ version len plaintext mode => exact ih seq
      | pushDecrypt typ version explicitNonce ciphertext tag mode => exact congrArg (_ :: ·) (ih _)
      | flush peer isDecrypting => exact ih seq
      | startTraffic => exact ih seq

/-- The messages are numbered as they are pushed. -/
theorem getElem?_encryptPushes (msgs : List PlainMessage) {seq i : Nat} (h : seq + i < wordSize) :
    (encryptPushes seq (msgs.map (PlainMessage.call : PlainMessage → LayerCall C D)))[i]? =
      msgs[i]?.map fun msg => RecordLayer.nextEncryptOp msg.typ msg.version msg.payload.val.length
        (some msg.payload.val) (Leader.encryptMode msg.typ) (seq + i) := by
  induction msgs generalizing seq i with
  | nil => rfl
  | cons msg msgs ih =>
      cases i with
      | zero => rfl
      | succ i =>
          have hseq : wrap (seq + 1) = seq + 1 := wrap_of_lt (by omega)
          have hrest := @ih (wrap (seq + 1)) i (by rw [hseq]; omega)
          rw [hseq, Nat.add_assoc, Nat.add_comm 1 i] at hrest
          simp only [List.map_cons, PlainMessage.call, encryptPushes, List.getElem?_cons_succ, hseq]
          exact hrest

theorem getElem?_decryptPushes {msgs : List OpaqueMessage} {calls : List (LayerCall C D)}
    (h : List.Forall₂ (fun msg call => ∃ explicitNonce ciphertext tag,
      OpaqueMessage.Calls msg explicitNonce ciphertext tag call) msgs calls) {seq i : Nat}
    {op : DecryptOp} (hop : (decryptPushes seq calls)[i]? = some op) :
    ∃ msg explicitNonce ciphertext tag seq', msgs[i]? = some msg ∧
      opaqueIntoParts msg.payload = .ok (explicitNonce, ciphertext, tag) ∧
      op = RecordLayer.nextDecryptOp msg.typ msg.version explicitNonce ciphertext tag
        (Leader.decryptMode msg.typ) seq' := by
  induction h generalizing seq i with
  | nil => cases hop
  | cons hcalls _ ih =>
      obtain ⟨explicitNonce, ciphertext, tag, hparts, rfl⟩ := hcalls
      cases i with
      | zero =>
          cases hop
          exact ⟨_, _, _, _, seq, rfl, hparts, rfl⟩
      | succ i => exact ih hop

end LayerCall

theorem exists_of_forall₂ {α β : Type} {r : α → β → Prop} {xs : List α} {ys : List β}
    (h : List.Forall₂ r xs ys) {i : Nat} {y : β} (hy : ys[i]? = some y) :
    ∃ x, xs[i]? = some x ∧ r x y := by
  induction h generalizing i with
  | nil => cases hy
  | cons hr _ ih =>
      cases i with
      | zero =>
          cases hy
          exact ⟨_, rfl, hr⟩
      | succ i => exact ih hy

/-- The message which is sent for a pushed one, the `i`-th: its explicit nonce, its ciphertext,
and a tag. -/
structure PlainMessage.SealedAs (aes : Aes) (key iv : List UInt8) (i : Nat) (msg : PlainMessage)
    (out : OpaqueMessage) : Prop where
  typ : out.typ = msg.typ
  version : out.version = msg.version
  payload : ∃ tag, out.payload.val = beBytes 8 i ++
    xorBytes msg.payload.val (ctrKeystream aes key iv (beBytes 8 i) startCtr
      (divCeil msg.payload.val.length 16)) ++ tag

/-- The message which is returned for a pushed one: its ciphertext, decrypted. -/
structure OpaqueMessage.OpenedAs (aes : Aes) (key iv : List UInt8) (msg : OpaqueMessage)
    (out : PlainMessage) : Prop where
  typ : out.typ = msg.typ
  version : out.version = msg.version
  payload : ∃ explicitNonce ciphertext tag,
    opaqueIntoParts msg.payload = .ok (explicitNonce, ciphertext, tag) ∧
      out.payload.val = xorBytes ciphertext (ctrKeystream aes key iv explicitNonce startCtr
        (divCeil ciphertext.length 16))

namespace Leader

variable {K P C D : Type} {session : Session K P C D} {p : LayerParams}
  {events : List (LeaderEvent C D)} {calls : List (LayerCall C D)} {E : List EncryptedRecord}
  {D' : List PlainRecord} {s t : Leader K P} {aes : Aes}

/-- The records taken out, and those still there, are those that were processed. -/
theorem Phase.holding (h : Phase session p calls E D' s) (hrole : p.role = .leader)
    (hkey : p.serverWriteKey.len = 16) (hiv : p.serverIv.len = 4)
    (hcipher : session.cipher.Correct aes) (hmem : s.vm.Holds aes session.mem) :
    RecordLayer.Holding aes session.mem p calls (E ++ s.recordLayer.encryptedBuffer)
      (D' ++ s.recordLayer.decryptedBuffer) := by
  unfold Phase at h
  cases hs : s.state with
  | init | setup | error =>
      rw [hs] at h
      exact absurd h id
  | handshake =>
      rw [hs] at h
      obtain ⟨-, -, -, -, -, hunreleased, rfl, rfl⟩ := h
      rw [hunreleased.encrypted, hunreleased.decrypted]
      exact ⟨⟨[], _, rfl, by decide, .nil⟩, [], _, rfl, .nil⟩
  | active =>
      rw [hs] at h
      obtain ⟨s₀, vm, hstart, hrun, hlog⟩ := h
      exact holding_of_runAll hstart hrole hrun fun o ho => hmem o (hlog o ho)
  | closed t =>
      rw [hs] at h
      obtain ⟨s₀, vm, layer, vm₁, vm₂, peer, hstart, hrun, hvm₁, hcommit, hvm₂⟩ := h
      exact holding_of_commit hstart hrole hkey hiv hcipher hrun hvm₁ hcommit
        fun o ho => hmem o (hvm₂ o ho)

/-- The messages that were returned are the first of those that were pushed, in their order.
Until traffic starts no application data is among them, and nothing behind it. -/
structure ReleasedInOrder (aes : Aes) (mem : Memory) (p : LayerParams)
    (events : List (LeaderEvent C D)) : Prop where
  outgoing : ∀ (i : Nat) out, (events.filterMap LeaderEvent.nextOutgoing)[i]? = some out →
    ∃ msg, (events.filterMap LeaderEvent.pushedOutgoing)[i]? = some msg ∧
      PlainMessage.SealedAs aes (mem.read p.clientWriteKey) (mem.read p.clientIv) i msg out
  incoming : ∀ (i : Nat) out, (events.filterMap LeaderEvent.nextIncoming)[i]? = some out →
    ∃ msg, (events.filterMap LeaderEvent.pushedIncoming)[i]? = some msg ∧
      OpaqueMessage.OpenedAs aes (mem.read p.serverWriteKey) (mem.read p.serverIv) msg out
  heldOutgoing : events.any LeaderEvent.startsTraffic = false →
    ∀ (i : Nat) msg, (events.filterMap LeaderEvent.pushedOutgoing)[i]? = some msg →
      msg.typ = .applicationData → (events.filterMap LeaderEvent.nextOutgoing).length ≤ i
  heldIncoming : events.any LeaderEvent.startsTraffic = false →
    ∀ (i : Nat) msg, (events.filterMap LeaderEvent.pushedIncoming)[i]? = some msg →
      msg.typ = .applicationData → (events.filterMap LeaderEvent.nextIncoming).length ≤ i

/-- What the next record is returned with is known. -/
structure NextKnown (s : Leader K P) : Prop where
  tag : ∀ record, s.recordLayer.nextEncrypted.1 = some record → record.tag.isSome = true
  plaintext : ∀ record, s.recordLayer.nextDecrypted.1 = some record →
    record.plaintext.isSome = true

theorem History.pushed_of_sealed {mem : Memory} {started : Bool} {ops : List EncryptOp}
    {rest : List EncryptOp} {i : Nat} {record : EncryptedRecord}
    (h : History events calls E D' started)
    (hpushes : LayerCall.encryptPushes 0 calls = ops ++ rest) (hword : ops.length < wordSize)
    (hsealed : List.Forall₂ (EncryptOp.SealedAs aes (mem.read p.clientWriteKey)
      (mem.read p.clientIv)) ops (E ++ s.recordLayer.encryptedBuffer))
    (hrecord : E[i]? = some record) :
    ∃ msg, (events.filterMap LeaderEvent.pushedOutgoing)[i]? = some msg ∧
      (RecordLayer.nextEncryptOp msg.typ msg.version msg.payload.val.length (some msg.payload.val)
        (encryptMode msg.typ) i).SealedAs aes (mem.read p.clientWriteKey) (mem.read p.clientIv)
          record := by
  obtain ⟨hi, -⟩ := List.getElem?_eq_some_iff.mp hrecord
  obtain ⟨op, hop, hsealedAs⟩ := exists_of_forall₂ hsealed
    ((List.getElem?_append_left hi).trans hrecord)
  obtain ⟨hiops, -⟩ := List.getElem?_eq_some_iff.mp hop
  have hall : (LayerCall.encryptPushes 0 calls)[i]? = some op := by
    rw [hpushes, List.getElem?_append_left hiops]
    exact hop
  rw [← LayerCall.encryptPushes_filter, h.pushedOutgoing,
    LayerCall.getElem?_encryptPushes _ (by omega), Nat.zero_add] at hall
  obtain ⟨msg, hmsg, rfl⟩ := Option.map_eq_some_iff.mp hall
  exact ⟨msg, hmsg, hsealedAs⟩

theorem History.pushed_of_opened {mem : Memory} {started : Bool} {ops : List DecryptOp}
    {rest : List DecryptOp} {i : Nat} {record : PlainRecord}
    (h : History events calls E D' started)
    (hpushes : LayerCall.decryptPushes 0 calls = ops ++ rest)
    (hopened : List.Forall₂ (DecryptOp.OpenedAs aes (mem.read p.serverWriteKey)
      (mem.read p.serverIv)) ops (D' ++ s.recordLayer.decryptedBuffer))
    (hrecord : D'[i]? = some record) :
    ∃ msg explicitNonce ciphertext tag seq,
      (events.filterMap LeaderEvent.pushedIncoming)[i]? = some msg ∧
        opaqueIntoParts msg.payload = .ok (explicitNonce, ciphertext, tag) ∧
          (RecordLayer.nextDecryptOp msg.typ msg.version explicitNonce ciphertext tag
            (decryptMode msg.typ) seq).OpenedAs aes (mem.read p.serverWriteKey)
              (mem.read p.serverIv) record := by
  obtain ⟨hi, -⟩ := List.getElem?_eq_some_iff.mp hrecord
  obtain ⟨op, hop, hopenedAs⟩ := exists_of_forall₂ hopened
    ((List.getElem?_append_left hi).trans hrecord)
  obtain ⟨hiops, -⟩ := List.getElem?_eq_some_iff.mp hop
  have hall : (LayerCall.decryptPushes 0 calls)[i]? = some op := by
    rw [hpushes, List.getElem?_append_left hiops]
    exact hop
  rw [← LayerCall.decryptPushes_filter] at hall
  obtain ⟨msg, explicitNonce, ciphertext, tag, seq, hmsg, hparts, rfl⟩ :=
    LayerCall.getElem?_decryptPushes h.pushedIncoming hall
  exact ⟨msg, explicitNonce, ciphertext, tag, seq, hmsg, hparts, hopenedAs⟩

theorem sealedAs_of_record {key iv : List UInt8} {i : Nat} {msg : PlainMessage}
    {out : OpaqueMessage} {record : EncryptedRecord} (hout : opaqueMessage record = .ok out)
    (h : (RecordLayer.nextEncryptOp msg.typ msg.version msg.payload.val.length
      (some msg.payload.val) (encryptMode msg.typ) i).SealedAs aes key iv record) :
    PlainMessage.SealedAs aes key iv i msg out := by
  obtain ⟨tag, -, htyp, hversion, hpayload⟩ := opaqueMessage_ok_iff.mp hout
  refine ⟨htyp.trans h.typ, hversion.trans h.version, tag, ?_⟩
  rw [hpayload, h.explicitNonce, h.ciphertext _ rfl]
  rfl

theorem openedAs_of_record {key iv : List UInt8} {seq : Nat} {msg : OpaqueMessage}
    {explicitNonce ciphertext tag : List UInt8} {out : PlainMessage} {record : PlainRecord}
    (hparts : opaqueIntoParts msg.payload = .ok (explicitNonce, ciphertext, tag))
    (hout : plainMessage record = .ok out)
    (h : (RecordLayer.nextDecryptOp msg.typ msg.version explicitNonce ciphertext tag
      (decryptMode msg.typ) seq).OpenedAs aes key iv record) :
    OpaqueMessage.OpenedAs aes key iv msg out := by
  unfold plainMessage at hout
  rw [h.plaintext] at hout
  obtain ⟨bytes, hbytes, hmsg⟩ := Fault.bind_ok_iff.mp hout
  cases hmsg
  refine ⟨h.typ, h.version, explicitNonce, ciphertext, tag, hparts, ?_⟩
  unfold Bytes.new at hbytes
  split at hbytes
  · cases hbytes
    rfl
  · cases hbytes

theorem Runs.role (h : Runs session p events s) : p.role = .leader := by
  induction h with
  | ready hready => exact hready.role
  | returned _ _ ih => exact ih
  | failed _ _ _ ih => exact ih

theorem Traced.releasedInOrder (h : Traced session p events s) (hrole : p.role = .leader)
    (hkey : p.serverWriteKey.len = 16) (hiv : p.serverIv.len = 4)
    (hcipher : session.cipher.Correct aes) (hmem : s.vm.Holds aes session.mem) :
    ReleasedInOrder aes session.mem p events := by
  obtain ⟨calls, E, D', hphase, hhistory⟩ := h
  obtain ⟨⟨eops, erest, hepushes, hword, hsealed⟩, dops, drest, hdpushes, hopened⟩ :=
    hphase.holding hrole hkey hiv hcipher hmem
  have houtgoing : ∀ (i : Nat) out, (events.filterMap LeaderEvent.nextOutgoing)[i]? = some out →
      ∃ record msg, record ∈ E ∧ (events.filterMap LeaderEvent.pushedOutgoing)[i]? = some msg ∧
        record.typ = msg.typ ∧ PlainMessage.SealedAs aes (session.mem.read p.clientWriteKey)
          (session.mem.read p.clientIv) i msg out := by
    intro i out hout
    obtain ⟨record, hrecord, hmsg⟩ := exists_of_forall₂ hhistory.nextOutgoing hout
    obtain ⟨msg, hpushed, hop⟩ := hhistory.pushed_of_sealed hepushes hword hsealed hrecord
    exact ⟨record, msg, List.mem_of_getElem? hrecord, hpushed, hop.typ,
      sealedAs_of_record hmsg hop⟩
  have hincoming : ∀ (i : Nat) out, (events.filterMap LeaderEvent.nextIncoming)[i]? = some out →
      ∃ record msg, record ∈ D' ∧ (events.filterMap LeaderEvent.pushedIncoming)[i]? = some msg ∧
        record.typ = msg.typ ∧ OpaqueMessage.OpenedAs aes (session.mem.read p.serverWriteKey)
          (session.mem.read p.serverIv) msg out := by
    intro i out hout
    obtain ⟨record, hrecord, hmsg⟩ := exists_of_forall₂ hhistory.nextIncoming hout
    obtain ⟨msg, explicitNonce, ciphertext, tag, seq, hpushed, hparts, hop⟩ :=
      hhistory.pushed_of_opened hdpushes hopened hrecord
    exact ⟨record, msg, List.mem_of_getElem? hrecord, hpushed, hop.typ,
      openedAs_of_record hparts hmsg hop⟩
  constructor
  · intro i out hout
    obtain ⟨record, msg, -, hpushed, -, hsealedAs⟩ := houtgoing i out hout
    exact ⟨msg, hpushed, hsealedAs⟩
  · intro i out hout
    obtain ⟨record, msg, -, hpushed, -, hopenedAs⟩ := hincoming i out hout
    exact ⟨msg, hpushed, hopenedAs⟩
  · intro hany i msg hpushed htyp
    refine Nat.not_lt.mp fun hi => ?_
    obtain ⟨record, msg', hrecord, hpushed', htyp', -⟩ :=
      houtgoing i _ (List.getElem?_eq_getElem hi)
    rw [hpushed] at hpushed'
    cases hpushed'
    exact (hhistory.held hany).2.1 record hrecord (htyp'.trans htyp)
  · intro hany i msg hpushed htyp
    refine Nat.not_lt.mp fun hi => ?_
    obtain ⟨record, msg', hrecord, hpushed', htyp', -⟩ :=
      hincoming i _ (List.getElem?_eq_getElem hi)
    rw [hpushed] at hpushed'
    cases hpushed'
    exact (hhistory.held hany).2.2 record hrecord (htyp'.trans htyp)

theorem Traced.nextKnown (h : Traced session p events s) (hrole : p.role = .leader)
    (hkey : p.serverWriteKey.len = 16) (hiv : p.serverIv.len = 4)
    (hcipher : session.cipher.Correct aes) (hmem : s.vm.Holds aes session.mem) : NextKnown s := by
  obtain ⟨calls, E, D', hphase, -⟩ := h
  obtain ⟨⟨eops, erest, -, -, hsealed⟩, dops, drest, -, hopened⟩ :=
    hphase.holding hrole hkey hiv hcipher hmem
  constructor
  · intro record hrecord
    have hmember := RecordLayer.mem_of_nextEncrypted hrecord
    obtain ⟨i, hi⟩ := List.mem_iff_getElem?.mp (List.mem_append_right E hmember)
    obtain ⟨op, -, hsealedAs⟩ := exists_of_forall₂ hsealed hi
    exact hsealedAs.tag
  · intro record hrecord
    have hmember := RecordLayer.mem_of_nextDecrypted hrecord
    obtain ⟨i, hi⟩ := List.mem_iff_getElem?.mp (List.mem_append_right D' hmember)
    obtain ⟨op, -, hopenedAs⟩ := exists_of_forall₂ hopened hi
    rw [hopenedAs.plaintext]
    rfl

/-- In every run, what the leader returns is what was pushed, in that order, and what it
expects of the next record is there. -/
theorem released_in_order (hrun : Runs session p events s) (hkey : p.serverWriteKey.len = 16)
    (hiv : p.serverIv.len = 4) (hcipher : session.cipher.Correct aes)
    (hmem : s.vm.Holds aes session.mem) :
    ReleasedInOrder aes session.mem p events ∧ (pulls s.state = true → NextKnown s) := by
  obtain ⟨t, htraced, hlog, hlast⟩ := hrun.traced
  have hmem' : t.vm.Holds aes session.mem := fun o ho => hmem o (hlog o ho)
  refine ⟨htraced.releasedInOrder hrun.role hkey hiv hcipher hmem', fun hpulls => ?_⟩
  rcases hlast with rfl | hfailed
  · exact htraced.nextKnown hrun.role hkey hiv hcipher hmem'
  · rw [show s.state = .error from hfailed] at hpulls
    cases hpulls

theorem Runs.runOps {ops : List (LeaderOp C D)} {events' : List (LeaderEvent C D)}
    (h : Runs session p events s) (hops : Leader.runOps session ops s = .ok events' t) :
    Runs session p (events ++ events') t := by
  induction ops generalizing events events' s with
  | nil =>
      cases hops
      rw [List.append_nil]
      exact h
  | cons op ops ih =>
      obtain ⟨reply, s₁, hop, hrest⟩ := Fault.run_bind_ok_iff.mp hops
      obtain ⟨rest, s₂, hrun, hreturn⟩ := Fault.run_bind_ok_iff.mp hrest
      cases hreturn
      have hruns := ih (h.returned hop) hrun
      rw [List.append_assoc] at hruns
      exact hruns

theorem runs_runOps {ops : List (LeaderOp C D)} (h : Ready p s)
    (hops : Leader.runOps session ops s = .ok events t) : Runs session p events t :=
  (Runs.ready h).runOps hops

def sampleSession : Session Unit Unit (List TagShare) (List TagShare) :=
  { Follower.sampleSession with
    mem := RecordLayer.sampleMemory
    cipher := LocalAesCtr.ofAes RecordLayer.sampleAes }

/-- A record is sent, and one is received and left for the end. -/
def sampleOps : List (LeaderOp (List TagShare) (List TagShare)) :=
  [.setProtocolVersion .tlsV1_2, .setCipherSuite 0xc02f, .setServerRandom (Vector.replicate 32 0),
    .setServerCertDetails [], .setServerKxDetails [], .setServerKeyShare ⟨.secp256r1, []⟩,
    .prepareEncryption, .startTraffic,
    .pushOutgoing ⟨.applicationData, .tlsV1_2, ⟨[0], length_zero_lt⟩⟩,
    .flush RecordLayer.samplePeer, .nextOutgoing, .deferDecryption,
    .pushIncoming ⟨.applicationData, .tlsV1_2, ⟨List.replicate 25 0, by decide⟩⟩,
    .closeConnection RecordLayer.samplePeer, .nextIncoming]

theorem sampleOps_ok :
    (Fault.result? (runOps sampleSession sampleOps sampleLeader)).isSome = true := by
  decide +kernel

def sampleEvents : List (LeaderEvent (List TagShare) (List TagShare)) :=
  (Option.get _ sampleOps_ok).1

def sampleClosed : Leader Unit Unit := (Option.get _ sampleOps_ok).2

theorem sampleOps_eq : runOps sampleSession sampleOps sampleLeader =
    .ok sampleEvents sampleClosed :=
  Fault.ok_get_result sampleOps_ok

theorem sampleClosed_holds :
    sampleClosed.vm.Holds RecordLayer.sampleAes RecordLayer.sampleMemory := by
  unfold Vm.Holds
  decide +kernel

theorem sampleEvents_runs :
    Runs sampleSession RecordLayer.sampleParams sampleEvents sampleClosed :=
  runs_runOps (ready_allocated rfl sampleAlloc_eq) sampleOps_eq

theorem released_in_order_sample : ReleasedInOrder RecordLayer.sampleAes
    RecordLayer.sampleMemory RecordLayer.sampleParams sampleEvents :=
  (released_in_order sampleEvents_runs rfl rfl (LocalAesCtr.ofAes_correct _)
    sampleClosed_holds).1

end Leader

end Tlsn.MpcTls

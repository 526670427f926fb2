import Tlsn.Common.RecordBinding
import Tlsn.Verifier.RecordCounts

/-!
Whether the received application data can be committed in zero knowledge. What is
allocated for it is the limit on received data, rounded up to whole blocks once,
while every record takes whole blocks.
-/

namespace Tlsn.MpcTls

open Tlsn.Cipher Tlsn.Common Tlsn.Tls

/-- A stream cipher neither pads nor truncates. -/
def LocalAesCtr.KeepsLength (cipher : LocalAesCtr) : Prop :=
  ∀ (key fullIv : List UInt8) (pos : Nat) (data out : List UInt8),
    cipher.applyKeystream key fullIv pos data = some out → out.length = data.length

theorem AesCtr.length_decrypt {cipher : LocalAesCtr} {ctr : AesCtr}
    {nonce ciphertext plaintext : List UInt8} (hcipher : cipher.KeepsLength)
    (h : ctr.decrypt cipher nonce ciphertext = .ok plaintext) :
    plaintext.length = ciphertext.length := by
  unfold decrypt at h
  split at h
  · split at h
    · cases h
    · split at h
      · split at h
        · cases h
        · split at h
          · next hplaintext =>
              cases h
              exact hcipher _ _ _ _ _ hplaintext
          · cases h
      · cases h
  · cases h

namespace DecryptOp

/-- The party has learned all of the plaintext. -/
def Learned (r : DecryptOp × Option (List UInt8)) : Prop :=
  ∃ plaintext, r.2 = some plaintext ∧ plaintext.length = r.1.ciphertext.length

variable {L : Layout} {mem : Memory} {cipher : LocalAesCtr} {ctr : AesCtr}

theorem learned_decryptedAt (m : Nat) (pad : List UInt8) (op : DecryptOp) :
    Learned (op, op.decryptedAt L mem m (some pad)) := by
  unfold decryptedAt
  cases hmode : op.mode with
  | isPrivate =>
      simp only [outputAt, hmode, padOf, Option.map_some, DecryptOutput.tryDecrypt]
      refine ⟨_, rfl, ?_⟩
      simp only [List.length_append, List.length_zipWith, List.length_zip, Memory.length_read,
        List.length_drop]
      omega
  | isPublic =>
      simp only [outputAt, hmode, DecryptOutput.tryDecrypt, ne_eq, not_true_eq_false, if_false]
      refine ⟨_, rfl, ?_⟩
      rw [length_xorBytes, Memory.length_read, Nat.min_self]

/-- The party with the pad learns what is decrypted online. -/
theorem learned_decrypted (ops : List DecryptOp) {n : Nat} {pad : Option (List UInt8)}
    (hpad : pad.isSome = true) : ∀ r ∈ decrypted L mem n pad ops, Learned r := by
  induction ops generalizing n pad with
  | nil => exact fun r hr => (nomatch hr)
  | cons op ops ih =>
      obtain ⟨otp, rfl⟩ := Option.isSome_iff_exists.mp hpad
      refine List.forall_mem_cons.mpr ⟨learned_decryptedAt _ otp op, ih ?_⟩
      unfold padAfter
      cases op.mode <;> rfl

theorem learned_committedAt (hcipher : cipher.KeepsLength) {m n : Nat} {op : DecryptOp}
    (h : op.LocalFitsAt .leader cipher ctr n) :
    Learned (op, op.committedAt .leader cipher ctr L mem m) := by
  cases hmode : op.mode with
  | isPublic =>
      simp only [committedAt, hmode]
      refine ⟨_, rfl, ?_⟩
      rw [length_xorBytes, Memory.length_read, Nat.min_self]
  | isPrivate =>
      simp only [LocalFitsAt, hmode, localPlaintext] at h
      simp only [committedAt, hmode, localPlaintext]
      cases hplaintext : ctr.decrypt cipher op.explicitNonce op.ciphertext with
      | ok plaintext => exact ⟨plaintext, rfl, AesCtr.length_decrypt hcipher hplaintext⟩
      | error e =>
          rw [hplaintext] at h
          cases h

/-- The leader learns what is decrypted at last. -/
theorem learned_committed (hcipher : cipher.KeepsLength) (ops : List DecryptOp) {n : Nat}
    (h : LocalFitFrom .leader cipher ctr n ops) :
    ∀ r ∈ committed .leader cipher ctr L mem n ops, Learned r := by
  induction ops generalizing n with
  | nil => exact fun r hr => (nomatch hr)
  | cons op ops ih =>
      exact List.forall_mem_cons.mpr ⟨learned_committedAt hcipher h.1, ih h.2⟩

end DecryptOp

theorem LayerCall.length_decryptPushes_lt {C D : Type} (calls : List (LayerCall C D)) (seq : Nat) :
    ∀ op ∈ decryptPushes seq calls, op.ciphertext.length < wordSize := by
  induction calls generalizing seq with
  | nil => exact fun op hop => (nomatch hop)
  | cons call calls ih =>
      cases call with
      | pushDecrypt typ version explicitNonce ciphertext tag mode =>
          exact List.forall_mem_cons.mpr ⟨ciphertext.property, ih _⟩
      | pushEncrypt _ _ _ _ _ => exact ih seq
      | flush _ _ => exact ih seq
      | startTraffic => exact ih seq

end Tlsn.MpcTls

namespace Tlsn.Verifier

open Tlsn.Cipher Tlsn.Common Tlsn.MpcTls Tlsn.Tls

/-- The received records of application data, which are committed. -/
def receivedData (t : TlsTranscript) : List Record :=
  t.recv.filter fun record => record.typ = .applicationData

/-- The greatest length of a vector of bytes. -/
def maxVecLen : Nat := 0x7fffffffffffffff

variable {C D : Type} {scheme : HashCommit C D} {mem : Memory} {peer : PeerShares C D}
  {cipher : LocalAesCtr} {p : LayerParams} {s s' s'' : Vm × RecordLayer} {t : TlsTranscript}

/-- Every record in the transcript of a run can be committed, if there are blocks for it. -/
theorem received_committable (calls : List (LayerCall C D)) (hcipher : cipher.KeepsLength)
    (hstart : p.Established mem s) (hrun : LayerCall.runAll scheme mem calls s = .ok () s')
    (hcommit : RecordLayer.commit scheme cipher mem peer s' = .ok t s'') {role : Common.Role}
    (hrole : role = .prover → p.role = .leader) :
    ∀ record ∈ t.recv, record.Committable role ∧ record.ciphertext.length < wordSize := by
  obtain ⟨e, d, hprogress, hfresh, he, hd⟩ := Progress.of_established hstart
  obtain ⟨trace, hfinal, hran⟩ := hprogress.runAll calls hrun
  obtain ⟨ctr, maskedKey, maskedIv, hcommits, rfl, rfl⟩ :=
    RecordLayer.commit_ok hfinal.stocked hfinal.buffered hfinal.state hcommit
  have hpushed : trace.decrypted ++ s'.2.decryptBuffer = LayerCall.decryptPushes 0 calls := by
    have h := hran.decrypted
    rw [hfresh.decryptBuffer, hfresh.readSeq] at h
    exact h
  have hnonce := (hfinal.fits.2.2.append hcommits.fits).2
  have hlen := LayerCall.length_decryptPushes_lt calls 0
  rw [← hpushed] at hlen
  have hlearned : p.role = .leader → ∀ r ∈ DecryptOp.decrypted d.layout mem d.blocks p.recvOtp
      trace.decrypted ++ s'.2.committedRecords cipher mem (d.decrypted trace.decrypted) ctr,
      DecryptOp.Learned r := by
    intro hleader
    have hfits := hcommits.fitsLocal
    rw [hfinal.role, hleader] at hfits
    refine List.forall_mem_append.mpr ⟨DecryptOp.learned_decrypted _ ?_, ?_⟩
    · rw [LayerParams.recvOtp, hleader]
      rfl
    · rw [RecordLayer.committedRecords, hfinal.role, hleader]
      exact DecryptOp.learned_committed hcipher _ hfits
  have hops : ∀ r ∈ DecryptOp.decrypted d.layout mem d.blocks p.recvOtp
      trace.decrypted ++ s'.2.committedRecords cipher mem (d.decrypted trace.decrypted) ctr,
      r.1 ∈ trace.decrypted ++ s'.2.decryptBuffer := by
    intro r hr
    have h := List.mem_map_of_mem (f := Prod.fst) hr
    rwa [List.map_append, DecryptOp.map_fst_decrypted, RecordLayer.map_fst_committedRecords] at h
  intro record hrecord
  rw [← List.map_append] at hrecord
  obtain ⟨r, hr, rfl⟩ := List.mem_map.mp hrecord
  refine ⟨⟨rfl, ?_, ?_⟩, hlen r.1 (hops r hr)⟩
  · exact hnonce r.1.tagData (List.mem_map_of_mem (hops r hr))
  · intro hprover
    exact hlearned (hrole hprover) r hr

/-- In every run, what is allocated for the received data suffices to commit it exactly
when there are as many blocks as the records take, each of them whole ones; and when
they are too few, that is the error. -/
theorem received_data_suffices {len : Nat} {vm : Vm} {z z₁ : Vm × ZkAesCtr}
    (calls : List (LayerCall C D)) (hcipher : cipher.KeepsLength) (hstart : p.Established mem s)
    (hrun : LayerCall.runAll scheme mem calls s = .ok () s')
    (hcommit : RecordLayer.commit scheme cipher mem peer s' = .ok t s'')
    (hrole : z.2.role = .prover → p.role = .leader) (hlen : len < wordSize)
    (halloc : ZkAesCtr.alloc len z = .ok () z₁) :
    ((∃ r z₂, commitRecords (receivedData t) (vm, z₁.2) = .ok r z₂) ↔
      Record.blockTotal (receivedData t) ≤ divCeil len 16) ∧
    ((∀ record ∈ receivedData t, record.ciphertext.length ≤ maxVecLen) →
      ((∀ (expected actual : Nat) (z₂ : Vm × ZkAesCtr),
          commitRecords (receivedData t) (vm, z₁.2) ≠
            .error (.err (.aes (.insufficientPreprocessing expected actual))) z₂) ↔
        Record.blockTotal (receivedData t) ≤ divCeil len 16)) := by
  obtain ⟨L, key, iv, -, -, hlaid, hzrole, -⟩ := ZkAesCtr.alloc_layout hlen halloc
  have hcommittable : ∀ record ∈ receivedData t,
      record.Committable z₁.2.role ∧ record.ciphertext.length < wordSize := by
    intro record hrecord
    rw [hzrole]
    exact received_committable calls hcipher hstart hrun hcommit hrole record
      (List.mem_of_mem_filter hrecord)
  have hfits : Record.blockTotal (receivedData t) ≤ divCeil len 16 →
      ∃ r z₂, commitRecords (receivedData t) (vm, z₁.2) = .ok r z₂ := by
    intro hle
    have heach := commitEach_eq (s := (vm, z₁.2)) (receivedData t) hlaid
      (fun record hrecord => (hcommittable record hrecord).1) hle
    exact ⟨_, _, Fault.run_bind_ok_iff.mpr ⟨_, _, heach, rfl⟩⟩
  have hexceeds : ¬ Record.blockTotal (receivedData t) ≤ divCeil len 16 →
      ∃ err z₂, commitRecords (receivedData t) (vm, z₁.2) = .error err z₂ ∧
        ((∀ record ∈ receivedData t, 16 * record.blockCount < wordSize) →
          ∃ expected actual,
            err = .err (.aes (.insufficientPreprocessing expected actual))) := by
    intro hlt
    obtain ⟨err, z₂, herr, hkind⟩ := commitEach_refused (s := (vm, z₁.2)) (receivedData t) hlaid
      (fun record hrecord => (hcommittable record hrecord).1)
      (fun record hrecord => (hcommittable record hrecord).2) (Nat.lt_of_not_le hlt)
    exact ⟨err, z₂, Fault.run_bind_of_error herr, hkind⟩
  constructor
  · refine ⟨fun hok => ?_, hfits⟩
    by_contra hlt
    obtain ⟨r, z₂, hok⟩ := hok
    obtain ⟨err, z₃, herr, -⟩ := hexceeds hlt
    rw [herr] at hok
    cases hok
  · intro hvec
    constructor
    · intro hnever
      by_contra hlt
      obtain ⟨err, z₂, herr, hkind⟩ := hexceeds hlt
      have hblocks : ∀ record ∈ receivedData t, 16 * record.blockCount < wordSize := by
        intro record hrecord
        have h := (divCeil_mul record.ciphertext.length 16 (by decide)).2
        have hmax := hvec record hrecord
        rw [Record.blockCount]
        simp only [maxVecLen, wordSize] at *
        omega
      obtain ⟨expected, actual, rfl⟩ := hkind hblocks
      exact hnever expected actual z₂ herr
    · intro hle expected actual z₂ herr
      obtain ⟨r, z₃, hok⟩ := hfits hle
      rw [hok] at herr
      cases herr

-- Two records of eight bytes take two blocks, and sixteen bytes are one.
example : Record.blockTotal (List.replicate 2
    ⟨0, .applicationData, none, none, [], List.replicate 8 0⟩) = 2 ∧ divCeil 16 16 = 1 := by
  decide +kernel

/-- A stream cipher which enciphers nothing keeps the length. -/
theorem sampleCipher_keepsLength : RecordLayer.sampleCipher.KeepsLength := by
  intro key fullIv pos data out h
  cases h
  rfl

def proverZkAes : Vm × ZkAesCtr := (⟨20, []⟩, (ZkAesCtr.new .prover).setKey ⟨0, 16⟩ ⟨16, 4⟩)

theorem proverAlloc_ok : (Fault.result? (ZkAesCtr.alloc 16 proverZkAes)).isSome = true := by
  decide +kernel

def proverAllocated : Vm × ZkAesCtr := (Option.get _ proverAlloc_ok).2

theorem proverAlloc_eq : ZkAesCtr.alloc 16 proverZkAes = .ok () proverAllocated :=
  Fault.ok_get_state proverAlloc_ok

theorem received_data_suffices_sample :
    ∃ r z₂, commitRecords (receivedData RecordLayer.sampleTranscript)
      (proverAllocated.1, proverAllocated.2) = .ok r z₂ :=
  (received_data_suffices RecordLayer.sampleCalls sampleCipher_keepsLength
    RecordLayer.sampleStart_established RecordLayer.sampleRun_eq RecordLayer.sampleCommit_eq
    (fun _ => rfl) (by decide) proverAlloc_eq).1.mpr (by decide +kernel)

/-- 16 bytes of application data are to be received, in two records. -/
def splitConfig : ProtocolConfig := ⟨16, some 2, 16, 16, some 2, sampleVersion⟩

theorem splitConfig_builds : buildMpcTlsConfig .checks splitConfig =
    .ok ⟨true, 2, 48, 2, 48, 48⟩ := by
  decide +kernel

def splitParams : LayerParams :=
  { countedParams with
    sentRecords := ⟨2, two_lt_wordSize⟩
    recvRecords := ⟨2, two_lt_wordSize⟩ }

theorem splitParams_allocated : AllocatedBy ⟨true, 2, 48, 2, 48, 48⟩ splitParams :=
  ⟨rfl, rfl, rfl, rfl, rfl⟩

theorem splitAlloc_ok :
    (Fault.result? (splitParams.alloc (⟨40, []⟩, splitParams.create))).isSome = true := by
  decide +kernel

def splitAllocated : Vm × RecordLayer := (Option.get _ splitAlloc_ok).2

theorem splitAlloc_eq : splitParams.alloc (⟨40, []⟩, splitParams.create) = .ok () splitAllocated :=
  Fault.ok_get_state splitAlloc_ok

theorem splitSetup_ok : (Fault.result? (RecordLayer.setup RecordLayer.sampleMemory
    RecordLayer.sampleGhash RecordLayer.sampleGhash
    (splitAllocated.1.push [], splitAllocated.2))).isSome = true := by
  decide +kernel

def splitStart : Vm × RecordLayer := (Option.get _ splitSetup_ok).2

theorem splitSetup_eq : RecordLayer.setup RecordLayer.sampleMemory RecordLayer.sampleGhash
    RecordLayer.sampleGhash (splitAllocated.1.push [], splitAllocated.2) = .ok () splitStart :=
  Fault.ok_get_state splitSetup_ok

theorem splitStart_established : splitParams.Established RecordLayer.sampleMemory splitStart :=
  ⟨_, _, _, _, _, splitAlloc_eq, splitSetup_eq⟩

/-- Two records of eight bytes are received. -/
def splitCalls : List (LayerCall (List TagShare) (List TagShare)) :=
  [.pushDecrypt .applicationData .tlsV1_2 (List.replicate 8 0) ⟨List.replicate 8 0, by decide⟩
      (List.replicate 16 0) .isPrivate,
    .pushDecrypt .applicationData .tlsV1_2 (List.replicate 8 0) ⟨List.replicate 8 0, by decide⟩
      (List.replicate 16 0) .isPrivate]

theorem splitRun_ok : (Fault.result? (LayerCall.runAll RecordLayer.sampleScheme
    RecordLayer.sampleMemory splitCalls splitStart)).isSome = true := by
  decide +kernel

def splitPushed : Vm × RecordLayer := (Option.get _ splitRun_ok).2

theorem splitRun_eq : LayerCall.runAll RecordLayer.sampleScheme RecordLayer.sampleMemory splitCalls
    splitStart = .ok () splitPushed :=
  Fault.ok_get_state splitRun_ok

/-- The shares of the peer for the tags of two records. -/
def splitPeer : PeerShares (List TagShare) (List TagShare) where
  computeShares := []
  verifyShares := [Block.zero, Block.zero]
  commitment := [Block.zero, Block.zero]
  decommitment := [Block.zero, Block.zero]

theorem splitCommit_ok : (Fault.result? (RecordLayer.commit RecordLayer.sampleScheme
    RecordLayer.sampleCipher RecordLayer.sampleMemory splitPeer splitPushed)).isSome = true := by
  decide +kernel

def splitTranscript : TlsTranscript := (Option.get _ splitCommit_ok).1

def splitCommitted : Vm × RecordLayer := (Option.get _ splitCommit_ok).2

theorem splitCommit_eq : RecordLayer.commit RecordLayer.sampleScheme RecordLayer.sampleCipher
    RecordLayer.sampleMemory splitPeer splitPushed = .ok splitTranscript splitCommitted :=
  Fault.ok_get_result splitCommit_ok

theorem splitCommit_error : Fault.error? (commitRecords (receivedData splitTranscript)
    sampleZkAllocated) = some (.err (.aes (.insufficientPreprocessing 16 0))) := by
  decide +kernel

/-- 16 bytes are received, as configured, and the second record finds nothing left of what
was allocated for 16 bytes. -/
theorem received_data_exhausted :
    buildMpcTlsConfig .checks splitConfig = .ok ⟨true, 2, 48, 2, 48, 48⟩ ∧
      AllocatedBy ⟨true, 2, 48, 2, 48, 48⟩ splitParams ∧
      splitParams.Established RecordLayer.sampleMemory splitStart ∧
      LayerCall.runAll RecordLayer.sampleScheme RecordLayer.sampleMemory splitCalls splitStart =
        .ok () splitPushed ∧
      RecordLayer.commit RecordLayer.sampleScheme RecordLayer.sampleCipher RecordLayer.sampleMemory
        splitPeer splitPushed = .ok splitTranscript splitCommitted ∧
      ZkAesCtr.alloc splitConfig.maxRecvData sampleZkAes = .ok () sampleZkAllocated ∧
      ∃ z, commitRecords (receivedData splitTranscript) sampleZkAllocated =
        .error (.err (.aes (.insufficientPreprocessing 16 0))) z :=
  ⟨splitConfig_builds, splitParams_allocated, splitStart_established, splitRun_eq, splitCommit_eq,
    sampleZkAlloc_eq, Fault.error_of_error? splitCommit_error⟩

end Tlsn.Verifier

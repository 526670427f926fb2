import Tlsn.MpcTls.RecordLimits
import Tlsn.Verifier.Config

/-!
The number of records which a configuration allows. A count that the peer gives is
taken as it is, without the records of the protocol itself, which are added only to
the count that is derived from the data limit.
-/

namespace Tlsn.Verifier

open Tlsn.Cipher Tlsn.Common Tlsn.MpcTls Tlsn.Tls
open AeadError (TagsExhausted)
open MpcTlsError (OfAead)

/-- The record layer is allocated as the configuration says. -/
structure AllocatedBy (config : Config) (p : LayerParams) : Prop where
  sentRecords : p.sentRecords = config.maxSentRecords
  recvRecords : p.recvRecords = config.maxRecvRecords
  sentLen : p.sentLen = config.maxSent
  recvLenOnline : p.recvLenOnline = config.maxRecvOnline
  recvLen : p.recvLen = config.maxRecv

/-- The number of records to be sent, and to be received, which are allocated. -/
def sentAllowance (protocolConfig : ProtocolConfig) : Nat :=
  ConfigBuilder.recordCount protocolConfig.maxSentRecords
    (wrap (protocolDataSent + protocolConfig.maxSentData))

def recvAllowance (protocolConfig : ProtocolConfig) : Nat :=
  ConfigBuilder.recordCount protocolConfig.maxRecvRecords
    (wrap (protocolConfig.maxRecvData + protocolDataRecv))

theorem AllocatedBy.allowance {overflow : Overflow} {protocolConfig : ProtocolConfig}
    {config : Config} {p : LayerParams} (halloc : AllocatedBy config p)
    (hbuild : buildMpcTlsConfig overflow protocolConfig = .ok config) :
    (p.sentRecords : Nat) = sentAllowance protocolConfig ∧
      (p.recvRecords : Nat) = recvAllowance protocolConfig := by
  obtain ⟨-, hconfig⟩ := ConfigBuilder.build_ok rfl rfl rfl (unwrap_ok_iff.mp hbuild)
  rw [halloc.sentRecords, halloc.recvRecords, hconfig]
  exact ⟨rfl, rfl⟩

variable {C D : Type} {scheme : HashCommit C D} {mem : Memory}

/-- No tag computation or verification finds the blocks for tags used up, in a run whose
records, those of the protocol included, are at most the counts in the configuration or,
where it has none, the derived ones. And no run with more records can be committed. -/
theorem record_counts_suffice {overflow : Overflow} {protocolConfig : ProtocolConfig}
    {config : Config} {p : LayerParams} {s s' : Vm × RecordLayer} (calls : List (LayerCall C D))
    (hbuild : buildMpcTlsConfig overflow protocolConfig = .ok config)
    (halloc : AllocatedBy config p) (hstart : p.Established mem s)
    (hrun : LayerCall.runAll scheme mem calls s = .ok () s') :
    ((LayerCall.encryptPushes 0 calls).length ≤ sentAllowance protocolConfig →
      (LayerCall.decryptPushes 0 calls).length ≤ recvAllowance protocolConfig →
      (∀ (peer : PeerShares C D) (isDecrypting : Bool) (err : Fault MpcTlsError)
          (s'' : Vm × RecordLayer),
        RecordLayer.flush scheme mem peer isDecrypting s' = .error err s'' →
          Fault.Spares (OfAead TagsExhausted) err) ∧
      ∀ (cipher : LocalAesCtr) (peer : PeerShares C D) (err : Fault MpcTlsError)
          (s'' : Vm × RecordLayer),
        RecordLayer.commit scheme cipher mem peer s' = .error err s'' →
          Fault.Spares (OfAead TagsExhausted) err) ∧
    ∀ (cipher : LocalAesCtr) (peer : PeerShares C D) (t : TlsTranscript) (s'' : Vm × RecordLayer),
      RecordLayer.commit scheme cipher mem peer s' = .ok t s'' →
        (LayerCall.encryptPushes 0 calls).length ≤ sentAllowance protocolConfig ∧
          (LayerCall.decryptPushes 0 calls).length ≤ recvAllowance protocolConfig := by
  obtain ⟨hsent, hrecv⟩ := halloc.allowance hbuild
  obtain ⟨e, d, hprogress, hfresh, he, hd⟩ := Progress.of_established hstart
  obtain ⟨trace, hfinal, hran⟩ := hprogress.runAll calls hrun
  have hpushed : trace.encrypted ++ s'.2.encryptBuffer = LayerCall.encryptPushes 0 calls := by
    have h := hran.encrypted
    rw [hfresh.encryptBuffer, hfresh.writeSeq] at h
    exact h
  have hpushed' : trace.decrypted ++ s'.2.decryptBuffer = LayerCall.decryptPushes 0 calls := by
    have h := hran.decrypted
    rw [hfresh.decryptBuffer, hfresh.readSeq] at h
    exact h
  rw [← hsent, ← hrecv, ← he.records, ← hd.records, ← hpushed, ← hpushed']
  constructor
  · intro hsent hrecv
    refine ⟨fun peer isDecrypting err s'' => hfinal.flush_tags hsent ?_,
      fun cipher peer err s'' => hfinal.commit_tags hrecv⟩
    have hdrained : (s'.2.drainedDecrypts isDecrypting).length ≤ s'.2.decryptBuffer.length :=
      List.length_take_le' ..
    rw [List.length_append] at hrecv
    rw [hfinal.received_eq.2]
    omega
  · intro cipher peer t s'' hcommit
    obtain ⟨ctr, maskedKey, maskedIv, hcommits, -, -⟩ :=
      RecordLayer.commit_ok hfinal.stocked hfinal.buffered hfinal.state hcommit
    have hfits := hfinal.fits.1.2.1
    have hfits' := (hfinal.fits.2.2.append hcommits.fits).1
    rw [List.length_map] at hfits hfits'
    rw [hcommits.encrypted, List.append_nil]
    exact ⟨hfits, hfits'⟩

/-- One record of application data is to be sent, and one received. -/
def countedConfig : ProtocolConfig := ⟨16, some 1, 16, 16, some 1, sampleVersion⟩

theorem countedConfig_builds : buildMpcTlsConfig .checks countedConfig =
    .ok ⟨true, 1, 48, 1, 48, 48⟩ := by
  decide +kernel

def countedParams : LayerParams :=
  { RecordLayer.sampleParams with
    role := .follower
    sentRecords := ⟨1, one_lt_wordSize⟩
    recvRecords := ⟨1, one_lt_wordSize⟩
    sentLen := ⟨48, forty_eight_lt_wordSize⟩
    recvLenOnline := ⟨48, forty_eight_lt_wordSize⟩
    recvLen := ⟨48, forty_eight_lt_wordSize⟩ }

theorem countedParams_allocated : AllocatedBy ⟨true, 1, 48, 1, 48, 48⟩ countedParams :=
  ⟨rfl, rfl, rfl, rfl, rfl⟩

theorem countedAlloc_ok :
    (Fault.result? (countedParams.alloc (⟨40, []⟩, countedParams.create))).isSome = true := by
  decide +kernel

def countedAllocated : Vm × RecordLayer := (Option.get _ countedAlloc_ok).2

theorem countedAlloc_eq :
    countedParams.alloc (⟨40, []⟩, countedParams.create) = .ok () countedAllocated :=
  Fault.ok_get_state countedAlloc_ok

theorem countedSetup_ok : (Fault.result? (RecordLayer.setup RecordLayer.sampleMemory
    RecordLayer.sampleGhash RecordLayer.sampleGhash
    (countedAllocated.1.push [], countedAllocated.2))).isSome = true := by
  decide +kernel

def countedStart : Vm × RecordLayer := (Option.get _ countedSetup_ok).2

theorem countedSetup_eq : RecordLayer.setup RecordLayer.sampleMemory RecordLayer.sampleGhash
    RecordLayer.sampleGhash (countedAllocated.1.push [], countedAllocated.2) =
      .ok () countedStart :=
  Fault.ok_get_state countedSetup_ok

theorem countedStart_established :
    countedParams.Established RecordLayer.sampleMemory countedStart :=
  ⟨_, _, _, _, _, countedAlloc_eq, countedSetup_eq⟩

/-- Only the Finished record. -/
def finishedCalls : List (LayerCall (List TagShare) (List TagShare)) :=
  [.pushEncrypt .handshake .tlsV1_2 ⟨16, sixteen_lt_wordSize⟩ none .isPrivate]

theorem finishedRun_ok : (Fault.result? (LayerCall.runAll RecordLayer.sampleScheme
    RecordLayer.sampleMemory finishedCalls countedStart)).isSome = true := by
  decide +kernel

def finishedPushed : Vm × RecordLayer := (Option.get _ finishedRun_ok).2

theorem finishedRun_eq : LayerCall.runAll RecordLayer.sampleScheme RecordLayer.sampleMemory
    finishedCalls countedStart = .ok () finishedPushed :=
  Fault.ok_get_state finishedRun_ok

theorem record_counts_suffice_sample :
    LayerCall.runAll RecordLayer.sampleScheme RecordLayer.sampleMemory finishedCalls countedStart =
        .ok () finishedPushed ∧
      ∀ (err : Fault MpcTlsError) (s'' : Vm × RecordLayer),
        RecordLayer.flush RecordLayer.sampleScheme RecordLayer.sampleMemory RecordLayer.samplePeer
          true finishedPushed = .error err s'' → Fault.Spares (OfAead TagsExhausted) err :=
  ⟨finishedRun_eq, ((record_counts_suffice finishedCalls countedConfig_builds
    countedParams_allocated countedStart_established finishedRun_eq).1 (by decide) (by decide)).1
      RecordLayer.samplePeer true⟩

/-- The Finished record, one record of application data, and close_notify. -/
def connectionCalls : List (LayerCall (List TagShare) (List TagShare)) :=
  [.pushEncrypt .handshake .tlsV1_2 ⟨16, sixteen_lt_wordSize⟩ none .isPrivate,
    .pushEncrypt .applicationData .tlsV1_2 ⟨16, sixteen_lt_wordSize⟩ none .isPrivate,
    .pushEncrypt .alert .tlsV1_2 ⟨2, two_lt_wordSize⟩ none .isPrivate]

theorem connectionRun_ok : (Fault.result? (LayerCall.runAll RecordLayer.sampleScheme
    RecordLayer.sampleMemory connectionCalls countedStart)).isSome = true := by
  decide +kernel

def connectionPushed : Vm × RecordLayer := (Option.get _ connectionRun_ok).2

theorem connectionRun_eq : LayerCall.runAll RecordLayer.sampleScheme RecordLayer.sampleMemory
    connectionCalls countedStart = .ok () connectionPushed :=
  Fault.ok_get_state connectionRun_ok

theorem connectionFlush_error : Fault.error? (RecordLayer.flush RecordLayer.sampleScheme
    RecordLayer.sampleMemory RecordLayer.samplePeer true connectionPushed) =
      some (.err (.recordLayerAead (.tag (.msg "ciphertext length exceeds allocated")))) := by
  decide +kernel

/-- One record of application data is sent, as configured, and the flush finds the blocks
for tags used up. -/
theorem connection_exhausts_tags :
    buildMpcTlsConfig .checks countedConfig = .ok ⟨true, 1, 48, 1, 48, 48⟩ ∧
      AllocatedBy ⟨true, 1, 48, 1, 48, 48⟩ countedParams ∧
      countedParams.Established RecordLayer.sampleMemory countedStart ∧
      LayerCall.runAll RecordLayer.sampleScheme RecordLayer.sampleMemory connectionCalls
        countedStart = .ok () connectionPushed ∧
      ∃ s, RecordLayer.flush RecordLayer.sampleScheme RecordLayer.sampleMemory
        RecordLayer.samplePeer true connectionPushed =
          .error (.err (.recordLayerAead (.tag (.msg "ciphertext length exceeds allocated")))) s :=
  ⟨countedConfig_builds, countedParams_allocated, countedStart_established, connectionRun_eq,
    Fault.error_of_error? connectionFlush_error⟩

end Tlsn.Verifier

import Tlsn.Common.Config
import Tlsn.MpcTls.Config

/-!
The MPC-TLS configuration which the verifier builds from the one it received.
-/

namespace Tlsn.Verifier

open Tlsn.Common Tlsn.MpcTls

/-- `unwrap` aborts on an error. -/
def unwrap {ε α : Type} (x : Except (Fault ε) α) : Except (Fault Empty) α :=
  match x with
  | .ok a => .ok a
  | .error _ => .error .panic

theorem unwrap_ok_iff {ε α : Type} {x : Except (Fault ε) α} {a : α} :
    unwrap x = .ok a ↔ x = .ok a := by
  cases x with
  | error e => simp [unwrap]
  | ok b => simp [unwrap]

def mpcTlsBuilder (protocolConfig : ProtocolConfig) : ConfigBuilder :=
  { ConfigBuilder.default with
    maxSent := some protocolConfig.maxSentData
    maxRecvOnline := some protocolConfig.maxRecvDataOnline
    maxRecv := some protocolConfig.maxRecvData
    maxSentRecords := protocolConfig.maxSentRecords
    maxRecvRecords := protocolConfig.maxRecvRecords }

def buildMpcTlsConfig (overflow : Overflow) (protocolConfig : ProtocolConfig) :
    Except (Fault Empty) Config :=
  unwrap ((mpcTlsBuilder protocolConfig).build overflow)

/-- A configuration is built, and nothing overflows, exactly when no more is to be
decrypted online than is to be received and the data limits leave room for the
protocol's own data. The checks of the verifier do not imply either. -/
theorem buildMpcTlsConfig_ok_iff (protocolConfig : ProtocolConfig) :
    (∃ config, buildMpcTlsConfig .checks protocolConfig = .ok config) ↔
      protocolConfig.maxRecvDataOnline ≤ protocolConfig.maxRecvData ∧
        protocolConfig.maxSentData + protocolDataSent < wordSize ∧
        protocolConfig.maxRecvData + protocolDataRecv < wordSize := by
  simp only [buildMpcTlsConfig, unwrap_ok_iff]
  exact ConfigBuilder.build_checks_ok_iff rfl rfl rfl

def sampleVersion : Version := ⟨0, 1, 0, "", ""⟩

def sampleValidator : ProtocolConfigValidator :=
  ⟨4096, defaultRecordsLimit, 16384, defaultRecordsLimit, sampleVersion⟩

/-- More is to be decrypted online than is to be received at all. -/
def onlineConfig : ProtocolConfig := ⟨4096, none, 16385, 16384, none, sampleVersion⟩

theorem buildMpcTlsConfig_online :
    sampleValidator.validate onlineConfig = .ok () ∧
      buildMpcTlsConfig .checks onlineConfig = .error .panic ∧
      buildMpcTlsConfig .wraps onlineConfig = .error .panic := by
  decide +kernel

/-- What a configuration allocates is within the verifier's limits, and what the
protocol itself needs. -/
structure WithinLimits (validator : ProtocolConfigValidator) (config : Config) : Prop where
  sentRecords : config.maxSentRecords ≤ validator.maxSentRecords + protocolRecordCountSent
  recvRecords : config.maxRecvRecords ≤ validator.maxRecvRecords + protocolRecordCountRecv
  sent : config.maxSent ≤ validator.maxSentData + protocolDataSent
  recv : config.maxRecv ≤ validator.maxRecvData + protocolDataRecv

theorem recordCount_le_iff {given : Option Nat} {maxData limit : Nat}
    (h : ∀ n, given = some n → n ≤ limit) :
    ConfigBuilder.recordCount given maxData ≤ limit + 2 ↔
      (given = none → 8 ≤ limit ∧ maxData ≤ 4096 * (limit - 7)) := by
  cases given with
  | some n =>
      have hn := h n rfl
      simp only [ConfigBuilder.recordCount, reduceCtorEq, false_implies, iff_true]
      omega
  | none =>
      simp only [ConfigBuilder.recordCount, true_implies, ← defaultRecordCount_le_iff]
      omega

/-- The data limits bound what is allocated. The record limits do where the peer gave a
count, and otherwise only when the data limit is small against them. -/
theorem withinLimits_iff {overflow : Overflow} {validator : ProtocolConfigValidator}
    {protocolConfig : ProtocolConfig} {config : Config}
    (hvalidate : validator.validate protocolConfig = .ok ())
    (hbuild : buildMpcTlsConfig overflow protocolConfig = .ok config) :
    WithinLimits validator config ↔
      (protocolConfig.maxSentRecords = none → 8 ≤ validator.maxSentRecords ∧
        wrap (protocolDataSent + protocolConfig.maxSentData) ≤
          4096 * (validator.maxSentRecords - 7)) ∧
      (protocolConfig.maxRecvRecords = none → 8 ≤ validator.maxRecvRecords ∧
        wrap (protocolConfig.maxRecvData + protocolDataRecv) ≤
          4096 * (validator.maxRecvRecords - 7)) := by
  obtain ⟨⟨hsent, hrecv⟩, ⟨hsentRecords, hrecvRecords⟩, -⟩ :=
    ProtocolConfigValidator.validate_ok_iff.mp hvalidate
  obtain ⟨-, hconfig⟩ := ConfigBuilder.build_ok rfl rfl rfl (unwrap_ok_iff.mp hbuild)
  have hwrapSent := wrap_le (protocolDataSent + protocolConfig.maxSentData)
  have hwrapRecv := wrap_le (protocolConfig.maxRecvData + protocolDataRecv)
  rw [← recordCount_le_iff hsentRecords, ← recordCount_le_iff hrecvRecords]
  subst hconfig
  constructor
  · intro h
    exact ⟨h.sentRecords, h.recvRecords⟩
  · intro h
    exact {
      sentRecords := h.1
      recvRecords := h.2
      sent := by simp only; omega
      recv := by simp only; omega }

def sampleConfig : ProtocolConfig := ⟨4096, none, 32, 16384, some 10, sampleVersion⟩

theorem sampleConfig_validates : sampleValidator.validate sampleConfig = .ok () := by
  decide +kernel

theorem sampleConfig_builds : buildMpcTlsConfig .checks sampleConfig =
    .ok ⟨true, 11, 4128, 10, 64, 16416⟩ := by
  decide +kernel

theorem withinLimits_iff_sample :
    WithinLimits sampleValidator ⟨true, 11, 4128, 10, 64, 16416⟩ :=
  (withinLimits_iff sampleConfig_validates sampleConfig_builds).mpr
    ⟨fun _ => ⟨by decide, by decide +kernel⟩, fun h => nomatch h⟩

/-- A verifier which allows 16 MB to be sent, in 256 records. -/
def largeValidator : ProtocolConfigValidator := { sampleValidator with maxSentData := 0x1000000 }

def largeConfig : ProtocolConfig := { sampleConfig with maxSentData := 0x1000000 }

/-- Where the peer gives no count, 4106 records are allocated. -/
theorem largeConfig_exceeds :
    largeValidator.validate largeConfig = .ok () ∧
      buildMpcTlsConfig .checks largeConfig = .ok ⟨true, 4106, 16777248, 10, 64, 16416⟩ ∧
      ¬ WithinLimits largeValidator ⟨true, 4106, 16777248, 10, 64, 16416⟩ := by
  refine ⟨by decide +kernel, by decide +kernel, ?_⟩
  intro h
  exact absurd h.sentRecords (by decide)

end Tlsn.Verifier

import Tlsn.Verifier.Config

/-!
The MPC-TLS configuration which the prover builds from its own protocol configuration,
and which the verifier is to build as well.
-/

namespace Tlsn.Prover

open Tlsn.Common Tlsn.MpcTls Tlsn.Verifier

structure ProverConfig where
  protocolConfig : ProtocolConfig
  deferDecryptionFromStart : Bool

namespace ProverConfig

def mpcTlsBuilder (prover : ProverConfig) : ConfigBuilder :=
  { ConfigBuilder.default with
    deferDecryption := some prover.deferDecryptionFromStart
    maxSent := some prover.protocolConfig.maxSentData
    maxRecvOnline := some prover.protocolConfig.maxRecvDataOnline
    maxRecv := some prover.protocolConfig.maxRecvData
    maxSentRecords := prover.protocolConfig.maxSentRecords
    maxRecvRecords := prover.protocolConfig.maxRecvRecords }

def buildMpcTlsConfig (overflow : Overflow) (prover : ProverConfig) :
    Except (Fault Empty) MpcTls.Config :=
  unwrap (prover.mpcTlsBuilder.build overflow)

end ProverConfig

/-- The two sides allocate the same. -/
structure SameMaterial (prover verifier : MpcTls.Config) : Prop where
  maxSent : prover.maxSent = verifier.maxSent
  maxSentRecords : prover.maxSentRecords = verifier.maxSentRecords
  maxRecvOnline : prover.maxRecvOnline = verifier.maxRecvOnline
  maxRecv : prover.maxRecv = verifier.maxRecv
  maxRecvRecords : prover.maxRecvRecords = verifier.maxRecvRecords

/-- A configuration with which the prover can run, as can every verifier that accepts it. -/
structure Runnable (overflow : Overflow) (config : ProtocolConfig) : Prop where
  online : config.maxRecvDataOnline ≤ config.maxRecvData
  builds : ∀ deferDecryption,
    ProverConfig.buildMpcTlsConfig overflow ⟨config, deferDecryption⟩ ≠ .error .panic
  agreed : ∀ (validator : ProtocolConfigValidator) (deferDecryption : Bool),
    validator.validate config = .ok () → ∃ prover verifier,
      ProverConfig.buildMpcTlsConfig overflow ⟨config, deferDecryption⟩ = .ok prover ∧
        Verifier.buildMpcTlsConfig overflow config = .ok verifier ∧ SameMaterial prover verifier

/-- Nothing that is added to the limits makes them overflow. -/
def NoOverflow (overflow : Overflow) (maxSentData maxRecvData : Nat) : Prop :=
  overflow = .checks → maxSentData + protocolDataSent < wordSize ∧
    maxRecvData + protocolDataRecv < wordSize

variable {overflow : Overflow} {config : ProtocolConfig}

theorem unwrap_not_panic_iff {ε α : Type} {x : Except (Fault ε) α} :
    unwrap x ≠ .error .panic ↔ ∃ a, x = .ok a := by
  cases x with
  | error e => simp [unwrap]
  | ok a => simp [unwrap]

theorem ProverConfig.builds_iff {deferDecryption : Bool} :
    ProverConfig.buildMpcTlsConfig overflow ⟨config, deferDecryption⟩ ≠ .error .panic ↔
      config.maxRecvDataOnline ≤ config.maxRecvData ∧
        NoOverflow overflow config.maxSentData config.maxRecvData := by
  rw [ProverConfig.buildMpcTlsConfig, unwrap_not_panic_iff]
  exact ConfigBuilder.build_ok_iff rfl rfl rfl

/-- What both sides build differs in nothing but the deferring of decryption. -/
theorem sameMaterial {deferDecryption : Bool} {prover verifier : MpcTls.Config}
    (hprover : ProverConfig.buildMpcTlsConfig overflow ⟨config, deferDecryption⟩ = .ok prover)
    (hverifier : Verifier.buildMpcTlsConfig overflow config = .ok verifier) :
    SameMaterial prover verifier := by
  obtain ⟨-, hprover⟩ := ConfigBuilder.build_ok rfl rfl rfl (unwrap_ok_iff.mp hprover)
  obtain ⟨-, hverifier⟩ := ConfigBuilder.build_ok rfl rfl rfl (unwrap_ok_iff.mp hverifier)
  subst hprover
  subst hverifier
  exact ⟨rfl, rfl, rfl, rfl, rfl⟩

theorem runnable_of (honline : config.maxRecvDataOnline ≤ config.maxRecvData)
    (hfits : NoOverflow overflow config.maxSentData config.maxRecvData) :
    Runnable overflow config := by
  refine ⟨honline, fun _ => ProverConfig.builds_iff.mpr ⟨honline, hfits⟩, ?_⟩
  intro validator deferDecryption _
  have hbuilds : ∀ builder : ConfigBuilder, builder.maxSent = some config.maxSentData →
      builder.maxRecvOnline = some config.maxRecvDataOnline →
      builder.maxRecv = some config.maxRecvData → ∃ built, builder.build overflow = .ok built :=
    fun builder hsent hrecvOnline hrecv =>
      (ConfigBuilder.build_ok_iff hsent hrecvOnline hrecv).mpr ⟨honline, hfits⟩
  obtain ⟨prover, hprover⟩ := hbuilds (ProverConfig.mpcTlsBuilder ⟨config, deferDecryption⟩)
    rfl rfl rfl
  obtain ⟨verifier, hverifier⟩ := hbuilds (mpcTlsBuilder config) rfl rfl rfl
  have hprover' := unwrap_ok_iff.mpr hprover
  have hverifier' := unwrap_ok_iff.mpr hverifier
  exact ⟨prover, verifier, hprover', hverifier', sameMaterial hprover' hverifier'⟩

/-- A configuration that was built is runnable exactly when the default of what is decrypted
online, if it was used, is not more than what is received. -/
theorem runnable_iff {version : Version} {builder : ProtocolConfigBuilder}
    (hbuild : builder.build version = .ok config) :
    Runnable overflow config ↔
      (builder.maxRecvDataOnline = none →
        ∀ n, builder.maxRecvData = some n → defaultMaxRecvOnline ≤ n) ∧
      ∀ sent recv, builder.maxSentData = some sent → builder.maxRecvData = some recv →
        NoOverflow overflow sent recv := by
  obtain ⟨hsent, hrecv, hvalid, honline, -⟩ := ProtocolConfigBuilder.build_ok_iff.mp hbuild
  constructor
  · intro h
    obtain ⟨hle, hfits⟩ := ProverConfig.builds_iff.mp (h.builds true)
    constructor
    · intro hnone n hn
      rw [hrecv] at hn
      cases hn
      rw [honline, hnone] at hle
      exact hle
    · intro sent recv hsent' hrecv'
      rw [hsent] at hsent'
      rw [hrecv] at hrecv'
      cases hsent'
      cases hrecv'
      exact hfits
  · rintro ⟨hdefault, hfits⟩
    refine runnable_of ?_ (hfits _ _ hsent hrecv)
    cases hset : builder.maxRecvDataOnline with
    | none =>
        rw [honline, hset]
        exact hdefault hset _ hrecv
    | some n =>
        rw [honline, hset]
        exact hvalid n hset

/-- A builder of which the limit on what is decrypted online is not set. -/
def sampleBuilder (maxRecvData : Nat) : ProtocolConfigBuilder :=
  { ProtocolConfigBuilder.default with
    maxSentData := some 4096
    maxRecvData := some maxRecvData }

theorem sampleBuilder_builds : (sampleBuilder 16384).build sampleVersion =
    .ok ⟨4096, none, 32, 16384, none, sampleVersion⟩ := by
  decide +kernel

theorem runnable_sample : Runnable .checks ⟨4096, none, 32, 16384, none, sampleVersion⟩ := by
  refine (runnable_iff sampleBuilder_builds).mpr ⟨fun _ n hn => ?_,
    fun sent recv hsent hrecv _ => ?_⟩
  · cases hn
    decide
  · cases hsent
    cases hrecv
    decide

/-- The default exceeds the limit, and the prover aborts. -/
theorem default_exceeds :
    (sampleBuilder 16).build sampleVersion = .ok ⟨4096, none, 32, 16, none, sampleVersion⟩ ∧
      ProverConfig.buildMpcTlsConfig .wraps ⟨⟨4096, none, 32, 16, none, sampleVersion⟩, true⟩ =
        .error .panic ∧
      ¬ Runnable .wraps ⟨4096, none, 32, 16, none, sampleVersion⟩ := by
  refine ⟨by decide +kernel, by decide +kernel, ?_⟩
  intro h
  exact absurd h.online (by decide)

end Tlsn.Prover

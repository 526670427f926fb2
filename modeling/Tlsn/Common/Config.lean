import Tlsn.Library.Fault

/-!
The protocol configuration which the prover sends, its builder, and the check of it by
the verifier. What is received was not necessarily built with the builder.
-/

namespace Tlsn.Common

structure Version where
  major : Nat
  minor : Nat
  patch : Nat
  pre : String
  build : String
deriving DecidableEq

structure ProtocolConfig where
  maxSentData : Nat
  maxSentRecords : Option Nat
  maxRecvDataOnline : Nat
  maxRecvData : Nat
  maxRecvRecords : Option Nat
  version : Version
deriving DecidableEq

inductive ProtocolConfigError where
  | maxTranscriptSize (text : String)
  | maxRecordCount (text : String)
  | version (peer own : Version)
deriving DecidableEq

structure ProtocolConfigValidator where
  maxSentData : Nat
  maxSentRecords : Nat
  maxRecvData : Nat
  maxRecvRecords : Nat
  version : Version
deriving DecidableEq

def defaultRecordsLimit : Nat := 256

/-! ## The builder -/

inductive ProtocolConfigBuilderError where
  | uninitializedField (field : String)
  | validationError (text : String)
deriving DecidableEq

/-- What was set. The record limits are optional in the configuration itself. -/
structure ProtocolConfigBuilder where
  maxSentData : Option Nat
  maxSentRecords : Option (Option Nat)
  maxRecvDataOnline : Option Nat
  maxRecvData : Option Nat
  maxRecvRecords : Option (Option Nat)

def defaultMaxRecvOnline : Nat := 32

namespace ProtocolConfigBuilder

def default : ProtocolConfigBuilder := ⟨none, none, none, none, none⟩

/-- `PartialOrd::gt` of options: what is not set is less than everything that is. -/
def gt : Option Nat → Option Nat → Bool
  | some a, some b => a > b
  | some _, none => true
  | none, _ => false

def validate (builder : ProtocolConfigBuilder) : Except ProtocolConfigBuilderError Unit :=
  if gt builder.maxRecvDataOnline builder.maxRecvData then
    .error (.validationError "max_recv_data_online must be smaller or equal to max_recv_data")
  else .ok ()

def required (field : String) (value : Option Nat) : Except ProtocolConfigBuilderError Nat :=
  match value with
  | some n => .ok n
  | none => .error (.uninitializedField field)

/-- Validates what was set, and fills in the rest. -/
def build (version : Version) (builder : ProtocolConfigBuilder) :
    Except ProtocolConfigBuilderError ProtocolConfig := do
  builder.validate
  return {
    maxSentData := ← required "max_sent_data" builder.maxSentData
    maxSentRecords := builder.maxSentRecords.getD none
    maxRecvDataOnline := builder.maxRecvDataOnline.getD defaultMaxRecvOnline
    maxRecvData := ← required "max_recv_data" builder.maxRecvData
    maxRecvRecords := builder.maxRecvRecords.getD none
    version := version }

theorem required_ok_iff {field : String} {value : Option Nat} {n : Nat} :
    required field value = .ok n ↔ value = some n := by
  cases value with
  | none => simp [required]
  | some m => simp [required]

theorem validate_ok_iff {builder : ProtocolConfigBuilder} {maxRecvData : Nat}
    (hrecv : builder.maxRecvData = some maxRecvData) :
    builder.validate = .ok () ↔ ∀ n, builder.maxRecvDataOnline = some n → n ≤ maxRecvData := by
  unfold validate
  rw [hrecv]
  cases builder.maxRecvDataOnline with
  | none => simp [gt]
  | some online =>
      by_cases hlt : maxRecvData < online
      · simp [gt, hlt]
      · simp [gt, hlt, Nat.le_of_not_lt hlt]

/-- What is built. -/
theorem build_ok_iff {version : Version} {builder : ProtocolConfigBuilder}
    {config : ProtocolConfig} :
    builder.build version = .ok config ↔
      builder.maxSentData = some config.maxSentData ∧
        builder.maxRecvData = some config.maxRecvData ∧
        (∀ n, builder.maxRecvDataOnline = some n → n ≤ config.maxRecvData) ∧
        config.maxRecvDataOnline = builder.maxRecvDataOnline.getD defaultMaxRecvOnline ∧
        config.maxSentRecords = builder.maxSentRecords.getD none ∧
        config.maxRecvRecords = builder.maxRecvRecords.getD none ∧ config.version = version := by
  simp only [build, Fault.bind_ok_iff, required_ok_iff]
  constructor
  · rintro ⟨⟨⟩, hvalidate, sent, hsent, recv, hrecv, hret⟩
    cases hret
    exact ⟨hsent, hrecv, (validate_ok_iff hrecv).mp hvalidate, rfl, rfl, rfl, rfl⟩
  · rintro ⟨hsent, hrecv, honline, hdefault, hsentRecords, hrecvRecords, hversion⟩
    refine ⟨(), (validate_ok_iff hrecv).mpr honline, _, hsent, _, hrecv, ?_⟩
    rw [← hdefault, ← hsentRecords, ← hrecvRecords, ← hversion]
    rfl

end ProtocolConfigBuilder

namespace ProtocolConfigValidator

def exceeds (field : String) (value limit : Nat) : String :=
  field ++ " " ++ toString value ++ " is greater than the configured limit " ++ toString limit

def checkMaxTranscriptSize (validator : ProtocolConfigValidator) (maxSentData maxRecvData : Nat) :
    Except ProtocolConfigError Unit :=
  if maxSentData > validator.maxSentData then
    .error (.maxTranscriptSize (exceeds "max_sent_data" maxSentData validator.maxSentData))
  else if maxRecvData > validator.maxRecvData then
    .error (.maxTranscriptSize (exceeds "max_recv_data" maxRecvData validator.maxRecvData))
  else .ok ()

/-- A count is checked only if it is given. -/
def checkCount (field : String) (limit : Nat) : Option Nat → Except ProtocolConfigError Unit
  | some count =>
      if count > limit then .error (.maxRecordCount (exceeds field count limit)) else .ok ()
  | none => .ok ()

def checkMaxRecords (validator : ProtocolConfigValidator)
    (maxSentRecords maxRecvRecords : Option Nat) :
    Except ProtocolConfigError Unit := do
  checkCount "max_sent_records" validator.maxSentRecords maxSentRecords
  checkCount "max_recv_records" validator.maxRecvRecords maxRecvRecords

def checkVersion (validator : ProtocolConfigValidator) (peerVersion : Version) :
    Except ProtocolConfigError Unit :=
  if peerVersion ≠ validator.version then .error (.version peerVersion validator.version)
  else .ok ()

def validate (validator : ProtocolConfigValidator) (config : ProtocolConfig) :
    Except ProtocolConfigError Unit := do
  validator.checkMaxTranscriptSize config.maxSentData config.maxRecvData
  validator.checkMaxRecords config.maxSentRecords config.maxRecvRecords
  validator.checkVersion config.version

theorem checkCount_ok_iff {field : String} {limit : Nat} {count : Option Nat} :
    checkCount field limit count = .ok () ↔ ∀ n, count = some n → n ≤ limit := by
  cases count with
  | none => simp [checkCount]
  | some n =>
      simp only [checkCount, Option.some.injEq, forall_eq']
      split
      · simp only [reduceCtorEq, false_iff]
        omega
      · simp only [true_iff]
        omega

/-- Everything that is checked. -/
theorem validate_ok_iff {validator : ProtocolConfigValidator} {config : ProtocolConfig} :
    validator.validate config = .ok () ↔
      (config.maxSentData ≤ validator.maxSentData ∧ config.maxRecvData ≤ validator.maxRecvData) ∧
        ((∀ n, config.maxSentRecords = some n → n ≤ validator.maxSentRecords) ∧
          ∀ n, config.maxRecvRecords = some n → n ≤ validator.maxRecvRecords) ∧
        config.version = validator.version := by
  have hsize : validator.checkMaxTranscriptSize config.maxSentData config.maxRecvData = .ok () ↔
      config.maxSentData ≤ validator.maxSentData ∧ config.maxRecvData ≤ validator.maxRecvData := by
    unfold checkMaxTranscriptSize
    split
    · simp only [reduceCtorEq, false_iff]
      omega
    · split
      · simp only [reduceCtorEq, false_iff]
        omega
      · simp only [true_iff]
        omega
  have hversion : validator.checkVersion config.version = .ok () ↔
      config.version = validator.version := by
    unfold checkVersion
    by_cases hversion : config.version = validator.version
    · simp [hversion]
    · simp [hversion]
  have hbind : ∀ {x y : Except ProtocolConfigError Unit},
      (x >>= fun _ => y) = .ok () ↔ x = .ok () ∧ y = .ok () := by
    intro x y
    cases x with
    | error e => simp [bind, Except.bind]
    | ok u => simp [bind, Except.bind]
  simp only [validate, checkMaxRecords, hbind, hsize, hversion, checkCount_ok_iff]

end ProtocolConfigValidator

end Tlsn.Common

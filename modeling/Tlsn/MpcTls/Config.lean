import Tlsn.Library.Bytes
import Tlsn.Library.Fault

/-!
The configuration of MPC-TLS and its builder, which adds room for the records of
the TLS protocol itself and derives record counts that are not given.
-/

namespace Tlsn.MpcTls

/-- What an addition does that overflows: builds with overflow checks abort, builds
without wrap. -/
inductive Overflow where
  | checks
  | wraps
deriving DecidableEq

def Overflow.add {ε : Type} (overflow : Overflow) (a b : Nat) : Except (Fault ε) Nat :=
  if a + b < wordSize then .ok (a + b)
  else
    match overflow with
    | .checks => .error .panic
    | .wraps => .ok (wrap (a + b))

theorem Overflow.add_ok {ε : Type} {overflow : Overflow} {a b r : Nat}
    (h : (overflow.add a b : Except (Fault ε) Nat) = .ok r) : r = wrap (a + b) := by
  unfold add at h
  by_cases hfits : a + b < wordSize
  · rw [if_pos hfits] at h
    cases h
    exact (wrap_of_lt hfits).symm
  · rw [if_neg hfits] at h
    cases overflow with
    | checks => cases h
    | wraps =>
        cases h
        rfl

theorem Overflow.add_checks_ok_iff {ε : Type} {a b r : Nat} :
    (checks.add a b : Except (Fault ε) Nat) = .ok r ↔ a + b < wordSize ∧ r = a + b := by
  unfold add
  by_cases hfits : a + b < wordSize
  · simp [hfits, eq_comm]
  · simp [hfits]

theorem Overflow.add_ok_of {ε : Type} {overflow : Overflow} {a b : Nat}
    (h : overflow = .checks → a + b < wordSize) :
    (overflow.add a b : Except (Fault ε) Nat) = .ok (wrap (a + b)) := by
  unfold add
  by_cases hfits : a + b < wordSize
  · rw [if_pos hfits, wrap_of_lt hfits]
  · rw [if_neg hfits]
    cases overflow with
    | checks => exact absurd (h rfl) hfits
    | wraps => rfl

def Overflow.sub {ε : Type} (overflow : Overflow) (a b : Nat) : Except (Fault ε) Nat :=
  if b ≤ a then .ok (a - b)
  else
    match overflow with
    | .checks => .error .panic
    | .wraps => .ok (wrapSub a b)

theorem Overflow.sub_of_le {ε : Type} (overflow : Overflow) {a b : Nat} (h : b ≤ a) :
    (overflow.sub a b : Except (Fault ε) Nat) = .ok (a - b) := if_pos h

theorem Overflow.checks_sub_of_lt {ε : Type} {a b : Nat} (h : a < b) :
    (checks.sub a b : Except (Fault ε) Nat) = .error .panic := if_neg (Nat.not_le.mpr h)

theorem Overflow.wraps_sub_of_lt {ε : Type} {a b : Nat} (h : a < b) :
    (wraps.sub a b : Except (Fault ε) Nat) = .ok (wrapSub a b) := if_neg (Nat.not_le.mpr h)

def Overflow.mul {ε : Type} (overflow : Overflow) (a b : Nat) : Except (Fault ε) Nat :=
  if a * b < wordSize then .ok (a * b)
  else
    match overflow with
    | .checks => .error .panic
    | .wraps => .ok (wrap (a * b))

theorem Overflow.mul_ok_of_lt {ε : Type} (overflow : Overflow) {a b : Nat} (h : a * b < wordSize) :
    (overflow.mul a b : Except (Fault ε) Nat) = .ok (a * b) := if_pos h

theorem wrap_le (n : Nat) : wrap n ≤ n := Nat.mod_le n wordSize

def protocolDataSent : Nat := 32

def protocolDataRecv : Nat := 32

def protocolRecordCountSent : Nat := 2

def protocolRecordCountRecv : Nat := 2

/-- Eight records for the first 4 KB, and one for every 4 KB after that. -/
def defaultRecordCount (maxData : Nat) : Nat := 8 + divCeil (maxData - 4096) 4096

theorem defaultRecordCount_le_iff (maxData limit : Nat) :
    defaultRecordCount maxData ≤ limit ↔ 8 ≤ limit ∧ maxData ≤ 4096 * (limit - 7) := by
  have hceil := divCeil_mul (maxData - 4096) 4096 (by decide)
  unfold defaultRecordCount
  omega

theorem add_defaultRecordCount_lt {maxData : Nat} (h : maxData < wordSize) :
    2 + defaultRecordCount maxData < wordSize := by
  have hceil := divCeil_mul (maxData - 4096) 4096 (by decide)
  unfold defaultRecordCount
  unfold wordSize at *
  omega

structure Config where
  deferDecryption : Bool
  maxSentRecords : Nat
  maxSent : Nat
  maxRecvRecords : Nat
  maxRecvOnline : Nat
  maxRecv : Nat
deriving DecidableEq

inductive ConfigBuilderError where
  | uninitializedField (field : String)
  | validationError (text : String)
deriving DecidableEq

structure ConfigBuilder where
  deferDecryption : Option Bool
  maxSentRecords : Option Nat
  maxSent : Option Nat
  maxRecvRecords : Option Nat
  maxRecvOnline : Option Nat
  maxRecv : Option Nat

namespace ConfigBuilder

def default : ConfigBuilder := ⟨none, none, none, none, none, none⟩

def required (field : String) (value : Option Nat) : Except (Fault ConfigBuilderError) Nat :=
  match value with
  | some n => .ok n
  | none => .error (.err (.uninitializedField field))

/-- The record count that is given, or else the one for the amount of data. -/
def recordsOr (overflow : Overflow) (given : Option Nat) (protocolRecordCount maxData : Nat) :
    Except (Fault ConfigBuilderError) Nat :=
  match given with
  | some n => .ok n
  | none => overflow.add protocolRecordCount (defaultRecordCount maxData)

def build (overflow : Overflow) (builder : ConfigBuilder) :
    Except (Fault ConfigBuilderError) Config := do
  let deferDecryption := builder.deferDecryption.getD true
  let maxSent ← overflow.add protocolDataSent (← required "max_sent" builder.maxSent)
  let maxRecvOnline ← required "max_recv_online" builder.maxRecvOnline
  let maxRecv ← required "max_recv" builder.maxRecv
  if maxRecvOnline > maxRecv then
    throw (.err (.validationError "max_recv_online must be less than or equal to max_recv"))
  else
    let maxRecvOnline ← overflow.add maxRecvOnline protocolDataRecv
    let maxRecv ← overflow.add maxRecv protocolDataRecv
    let maxSentRecords ← recordsOr overflow builder.maxSentRecords protocolRecordCountSent maxSent
    let maxRecvRecords ← recordsOr overflow builder.maxRecvRecords protocolRecordCountRecv maxRecv
    return ⟨deferDecryption, maxSentRecords, maxSent, maxRecvRecords, maxRecvOnline, maxRecv⟩

/-- The count, when nothing overflows. -/
def recordCount (given : Option Nat) (maxData : Nat) : Nat :=
  match given with
  | some n => n
  | none => 2 + defaultRecordCount maxData

theorem recordsOr_eq {maxData : Nat} (overflow : Overflow) (given : Option Nat)
    (hdata : maxData < wordSize) :
    recordsOr overflow given 2 maxData = .ok (recordCount given maxData) := by
  cases given with
  | some n => rfl
  | none =>
      have hfits := add_defaultRecordCount_lt hdata
      simp only [recordsOr, Overflow.add, if_pos hfits, recordCount]

/-- What is built from data limits. -/
theorem build_ok {overflow : Overflow} {builder : ConfigBuilder} {config : Config}
    {maxSent maxRecvOnline maxRecv : Nat} (hsent : builder.maxSent = some maxSent)
    (honline : builder.maxRecvOnline = some maxRecvOnline) (hrecv : builder.maxRecv = some maxRecv)
    (h : builder.build overflow = .ok config) :
    maxRecvOnline ≤ maxRecv ∧ config =
      { deferDecryption := builder.deferDecryption.getD true
        maxSent := wrap (protocolDataSent + maxSent)
        maxRecvOnline := wrap (maxRecvOnline + protocolDataRecv)
        maxRecv := wrap (maxRecv + protocolDataRecv)
        maxSentRecords := recordCount builder.maxSentRecords (wrap (protocolDataSent + maxSent))
        maxRecvRecords := recordCount builder.maxRecvRecords
          (wrap (maxRecv + protocolDataRecv)) } := by
  have hlt : ∀ n, wrap n < wordSize := fun n => Nat.mod_lt _ (by decide)
  simp only [build, hsent, honline, hrecv, required, Fault.bind_ok_iff, Except.ok.injEq,
    exists_eq_left'] at h
  obtain ⟨sent, hsum, h⟩ := h
  rw [Overflow.add_ok hsum] at h
  by_cases hexceeds : maxRecvOnline > maxRecv
  · rw [if_pos hexceeds] at h
    cases h
  · rw [if_neg hexceeds] at h
    simp only [Fault.bind_ok_iff] at h
    obtain ⟨online, honlineSum, recv, hrecvSum, sentCount, hsentCount,
      recvCount, hrecvCount, h⟩ := h
    rw [Overflow.add_ok hrecvSum] at hrecvCount h
    rw [protocolRecordCountSent, recordsOr_eq _ _ (hlt _)] at hsentCount
    rw [protocolRecordCountRecv, recordsOr_eq _ _ (hlt _)] at hrecvCount
    cases hsentCount
    cases hrecvCount
    cases h
    rw [Overflow.add_ok honlineSum]
    exact ⟨Nat.le_of_not_lt hexceeds, rfl⟩

theorem build_checks_ok_iff {builder : ConfigBuilder} {maxSent maxRecvOnline maxRecv : Nat}
    (hsent : builder.maxSent = some maxSent) (honline : builder.maxRecvOnline = some maxRecvOnline)
    (hrecv : builder.maxRecv = some maxRecv) :
    (∃ config, builder.build .checks = .ok config) ↔
      maxRecvOnline ≤ maxRecv ∧ maxSent + protocolDataSent < wordSize ∧
        maxRecv + protocolDataRecv < wordSize := by
  simp only [build, hsent, honline, hrecv, required, Fault.bind_ok_iff, Except.ok.injEq,
    exists_eq_left', Overflow.add_checks_ok_iff]
  constructor
  · intro h
    obtain ⟨config, sent, ⟨hsum, -⟩, h⟩ := h
    by_cases hexceeds : maxRecvOnline > maxRecv
    · rw [if_pos hexceeds] at h
      cases h
    · rw [if_neg hexceeds] at h
      simp only [Fault.bind_ok_iff, Overflow.add_checks_ok_iff] at h
      obtain ⟨online, -, recv, ⟨hrecvSum, -⟩, -⟩ := h
      exact ⟨Nat.le_of_not_lt hexceeds, by omega, hrecvSum⟩
  · intro h
    obtain ⟨hle, hsum, hrecvSum⟩ := h
    have hsum' : protocolDataSent + maxSent < wordSize := by omega
    refine ⟨⟨builder.deferDecryption.getD true,
      recordCount builder.maxSentRecords (protocolDataSent + maxSent), protocolDataSent + maxSent,
      recordCount builder.maxRecvRecords (maxRecv + protocolDataRecv),
      maxRecvOnline + protocolDataRecv, maxRecv + protocolDataRecv⟩,
      protocolDataSent + maxSent, ⟨hsum', rfl⟩, ?_⟩
    rw [if_neg (Nat.not_lt.mpr hle)]
    simp only [Fault.bind_ok_iff, Overflow.add_checks_ok_iff]
    exact ⟨_, ⟨by omega, rfl⟩, _, ⟨hrecvSum, rfl⟩, _, recordsOr_eq _ _ hsum', _,
      recordsOr_eq _ _ hrecvSum, rfl⟩

/-- Without overflow checks, only what is decrypted online can be too much. -/
theorem build_ok_iff {overflow : Overflow} {builder : ConfigBuilder}
    {maxSent maxRecvOnline maxRecv : Nat} (hsent : builder.maxSent = some maxSent)
    (honline : builder.maxRecvOnline = some maxRecvOnline)
    (hrecv : builder.maxRecv = some maxRecv) :
    (∃ config, builder.build overflow = .ok config) ↔
      maxRecvOnline ≤ maxRecv ∧ (overflow = .checks → maxSent + protocolDataSent < wordSize ∧
        maxRecv + protocolDataRecv < wordSize) := by
  cases overflow with
  | checks =>
      rw [build_checks_ok_iff hsent honline hrecv]
      exact ⟨fun h => ⟨h.1, fun _ => h.2⟩, fun h => ⟨h.1, h.2 rfl⟩⟩
  | wraps =>
      constructor
      · rintro ⟨config, h⟩
        exact ⟨(build_ok hsent honline hrecv h).1, fun h => nomatch h⟩
      · rintro ⟨hle, -⟩
        have hadd : ∀ a b, (Overflow.wraps.add a b : Except (Fault ConfigBuilderError) Nat) =
            .ok (wrap (a + b)) := fun a b => Overflow.add_ok_of fun h => nomatch h
        have hlt : ∀ n, wrap n < wordSize := fun n => Nat.mod_lt _ (by decide)
        simp only [build, hsent, honline, hrecv, required, Fault.bind_ok_iff, Except.ok.injEq,
          exists_eq_left', hadd]
        rw [if_neg (Nat.not_lt.mpr hle)]
        simp only [Fault.bind_ok_iff, Except.ok.injEq, exists_eq_left']
        exact ⟨_, _, recordsOr_eq _ _ (hlt _), _, recordsOr_eq _ _ (hlt _), rfl⟩

end ConfigBuilder

end Tlsn.MpcTls

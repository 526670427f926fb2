import Tlsn.Library.Fault
import Tlsn.Library.Incremental
import Tlsn.Tls.Messages

/-!
Records on the wire: a content type, a version, the length of the payload and the
payload. Whether a record is accepted depends on its header alone.
-/

namespace Tlsn.Tls

def ContentType.ofU8 : UInt8 → ContentType
  | 0x14 => .changeCipherSpec
  | 0x15 => .alert
  | 0x16 => .handshake
  | 0x17 => .applicationData
  | 0x18 => .heartbeat
  | x => .unknown x

def ProtocolVersion.ofU16 : UInt16 → ProtocolVersion
  | 0x0200 => .sslV2
  | 0x0300 => .sslV3
  | 0x0301 => .tlsV1_0
  | 0x0302 => .tlsV1_1
  | 0x0303 => .tlsV1_2
  | 0x0304 => .tlsV1_3
  | 0xFEFF => .dtlsV1_0
  | 0xFEFD => .dtlsV1_2
  | x => .unknown x

def ContentType.isUnknown : ContentType → Bool
  | .unknown _ => true
  | _ => false

/-- A version which is not recognised, and not of the form `0x03XX`. -/
def ProtocolVersion.isForeign : ProtocolVersion → Bool
  | .unknown v => v &&& 0xff00 ≠ 0x0300
  | _ => false

def Reader.readU16 (r : Reader) : Option (UInt16 × Reader) :=
  match r with
  | a :: b :: rest => some (UInt16.ofNat (a.toNat * 256 + b.toNat), rest)
  | _ => none

inductive MessageError where
  | tooShortForHeader
  | tooShortForLength
  | illegalLength
  | illegalContentType
  | illegalProtocolVersion
deriving DecidableEq

/-- A record as it is on the wire. -/
structure OpaqueMessage where
  typ : ContentType
  version : ProtocolVersion
  payload : List UInt8
deriving DecidableEq

/-- A record with its plaintext. -/
structure PlainMessage where
  typ : ContentType
  version : ProtocolVersion
  payload : List UInt8
deriving DecidableEq

namespace OpaqueMessage

/-- `2^14` bytes of payload, and what encryption adds. -/
def maxPayload : Nat := 16384 + 2048

def headerSize : Nat := 1 + 2 + 2

def maxWireSize : Nat := maxPayload + headerSize

/-- The checks of a header: the length, then the type, then the version. -/
def checkHeader (typ : ContentType) (version : ProtocolVersion) (len : UInt16) :
    Except MessageError Unit :=
  if typ ≠ .applicationData ∧ len.toNat = 0 then .error .illegalLength
  else if maxPayload ≤ len.toNat then .error .illegalLength
  else if typ.isUnknown then .error .illegalContentType
  else if version.isForeign then .error .illegalProtocolVersion
  else .ok ()

def readHeader (r : Reader) : Option ((ContentType × ProtocolVersion × UInt16) × Reader) := do
  let (typ, r) ← r.readU8
  let (version, r) ← r.readU16
  let (len, r) ← r.readU16
  return ((ContentType.ofU8 typ, ProtocolVersion.ofU16 version, len), r)

def read (r : Reader) : Except MessageError (OpaqueMessage × Reader) := do
  match readHeader r with
  | none => throw .tooShortForHeader
  | some ((typ, version, len), r) =>
      checkHeader typ version len
      match r.take len.toNat with
      | none => throw .tooShortForLength
      | some (payload, r) => return (⟨typ, version, payload⟩, r)

def encode (m : OpaqueMessage) : List UInt8 :=
  m.typ.getU8 :: (beBytes 2 m.version.getU16.toNat ++ beBytes 2 m.payload.length ++ m.payload)

/-! ## Records in a stream -/

theorem readHeader_eq_some {r : Reader} {header : ContentType × ProtocolVersion × UInt16}
    {rest : Reader} (h : readHeader r = some (header, rest)) :
    ∃ a b c d e, r = a :: b :: c :: d :: e :: rest ∧
      header = (.ofU8 a, .ofU16 (UInt16.ofNat (b.toNat * 256 + c.toNat)),
        UInt16.ofNat (d.toNat * 256 + e.toNat)) := by
  match r with
  | [] | [_] | [_, _] | [_, _, _] | [_, _, _, _] => cases h
  | a :: b :: c :: d :: e :: rest' =>
      cases h
      exact ⟨a, b, c, d, e, rfl, rfl⟩

theorem readHeader_eq_none_iff {r : Reader} : readHeader r = none ↔ r.length < 5 := by
  match r with
  | [] | [_] | [_, _] | [_, _, _] | [_, _, _, _] => exact iff_of_true rfl (by simp)
  | a :: b :: c :: d :: e :: rest =>
      exact iff_of_false (by simp [readHeader, Reader.readU8, Reader.readU16]) (by simp)

theorem readHeader_append {r : Reader} {header : ContentType × ProtocolVersion × UInt16}
    {rest : Reader} (h : readHeader r = some (header, rest)) (t : List UInt8) :
    readHeader (r ++ t) = some (header, rest ++ t) := by
  obtain ⟨a, b, c, d, e, rfl, rfl⟩ := readHeader_eq_some h
  rfl

/-- What a record is read from: an accepted header, and as many bytes as it says. -/
theorem read_ok_iff {r rest : Reader} {m : OpaqueMessage} :
    read r = .ok (m, rest) ↔
      ∃ typ version len body, readHeader r = some ((typ, version, len), body) ∧
        checkHeader typ version len = .ok () ∧ len.toNat ≤ body.length ∧
        m = ⟨typ, version, List.take len.toNat body⟩ ∧ rest = List.drop len.toNat body := by
  unfold read
  cases hheader : readHeader r with
  | none => simp [throw, throwThe, MonadExceptOf.throw]
  | some p =>
      obtain ⟨⟨typ, version, len⟩, body⟩ := p
      simp only [Fault.check_bind_ok_iff, Reader.take]
      by_cases hlen : body.length < len.toNat
      · rw [if_pos hlen]
        refine iff_of_false ?_ ?_
        · rintro ⟨_, h⟩
          cases h
        · rintro ⟨_, _, _, _, h, _, hle, _⟩
          cases h
          omega
      · rw [if_neg hlen]
        constructor
        · rintro ⟨hcheck, h⟩
          cases h
          exact ⟨typ, version, len, body, rfl, hcheck, by omega, rfl, rfl⟩
        · rintro ⟨_, _, _, _, h, hcheck, _, rfl, rfl⟩
          cases h
          exact ⟨hcheck, rfl⟩

/-- A record is refused for its header only. -/
theorem read_error_iff {r : Reader} {e : MessageError} :
    read r = .error e ↔
      (readHeader r = none ∧ e = .tooShortForHeader) ∨
        ∃ typ version len body, readHeader r = some ((typ, version, len), body) ∧
          (checkHeader typ version len = .error e ∨
            checkHeader typ version len = .ok () ∧ body.length < len.toNat ∧
              e = .tooShortForLength) := by
  unfold read
  cases hheader : readHeader r with
  | none => simp [throw, throwThe, MonadExceptOf.throw, eq_comm]
  | some p =>
      obtain ⟨⟨typ, version, len⟩, body⟩ := p
      simp only [Fault.bind_error_iff, Reader.take]
      constructor
      · rintro (h | ⟨⟨⟩, hcheck, h⟩)
        · exact .inr ⟨typ, version, len, body, rfl, .inl h⟩
        · refine .inr ⟨typ, version, len, body, rfl, .inr ⟨hcheck, ?_⟩⟩
          by_cases hlen : body.length < len.toNat
          · rw [if_pos hlen] at h
            cases h
            exact ⟨hlen, rfl⟩
          · rw [if_neg hlen] at h
            cases h
      · rintro (⟨h, _⟩ | ⟨_, _, _, _, h, hcheck⟩)
        · cases h
        · cases h
          refine hcheck.imp id ?_
          rintro ⟨hok, hlen, rfl⟩
          refine ⟨(), hok, ?_⟩
          rw [if_pos hlen]
          rfl

theorem checkHeader_error {typ : ContentType} {version : ProtocolVersion} {len : UInt16}
    {e : MessageError} (h : checkHeader typ version len = .error e) :
    e ≠ .tooShortForHeader ∧ e ≠ .tooShortForLength := by
  unfold checkHeader at h
  repeat' split at h
  all_goals
    cases h
    try exact ⟨nofun, nofun⟩

/-- An accepted record is shorter than the largest one on the wire. -/
theorem len_lt_of_checkHeader {typ : ContentType} {version : ProtocolVersion} {len : UInt16}
    (h : checkHeader typ version len = .ok ()) : len.toNat < maxPayload := by
  unfold checkHeader at h
  split at h
  · cases h
  split at h
  · cases h
  · rename_i hlt
    exact Nat.lt_of_not_le hlt

end OpaqueMessage

end Tlsn.Tls

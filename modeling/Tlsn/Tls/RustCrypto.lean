import Mathlib.Data.List.Forall2
import Mathlib.Data.List.Induction
import Tlsn.MpcTls.Config
import Tlsn.Tls.Record

/-!
The plain backend, which encrypts and decrypts records itself. What it seals with one
sequence number is opened with the same one, and the two ends count alike.
-/

namespace Tlsn.Tls

open Tlsn.MpcTls (Overflow)

inductive CipherSuite where
  | ecdheRsaWithAes128GcmSha256
  | ecdheEcdsaWithAes128GcmSha256
  | unknown (x : UInt16)
deriving DecidableEq

inductive BackendError where
  | unsupportedProtocolVersion (version : ProtocolVersion)
  | unsupportedCiphersuite (suite : CipherSuite)
  | encryptionError (text : String)
  | decryptionError (text : String)
deriving DecidableEq

/-- The cipher: a key, a nonce, additional data, and the text. -/
structure Aes128Gcm where
  encrypt : (key nonce aad msg : List UInt8) → Option (List UInt8)
  decrypt : (key nonce aad msg : List UInt8) → Option (List UInt8)

namespace Aes128Gcm

/-- A tag of 16 bytes is added, and what is sealed can be opened. -/
structure Lawful (gcm : Aes128Gcm) : Prop where
  length : ∀ {key nonce aad msg sealed : List UInt8},
    gcm.encrypt key nonce aad msg = some sealed → sealed.length = msg.length + 16
  opens : ∀ {key nonce aad msg sealed : List UInt8},
    gcm.encrypt key nonce aad msg = some sealed → gcm.decrypt key nonce aad sealed = some msg

def error : String := "aead::Error"

end Aes128Gcm

/-- `bytes[i..]` -/
def sliceFrom {ε : Type} (bytes : List UInt8) (i : Nat) : Except (Fault ε) (List UInt8) :=
  if i ≤ bytes.length then .ok (bytes.drop i) else .error .panic

/-- `bytes[..i]` -/
def sliceTo {ε : Type} (bytes : List UInt8) (i : Nat) : Except (Fault ε) (List UInt8) :=
  if i ≤ bytes.length then .ok (bytes.take i) else .error .panic

structure Encrypter where
  writeKey : Vector UInt8 16
  writeIv : Vector UInt8 4
  cipherSuite : CipherSuite
deriving DecidableEq

def Encrypter.encryptAes128Gcm (gcm : Aes128Gcm) (enc : Encrypter) (m : PlainMessage) (seq : Nat)
    (explicitNonce : List UInt8) : Except (Fault BackendError) OpaqueMessage :=
  let aad := beBytes 8 seq ++ [m.typ.getU8] ++ beBytes 2 m.version.getU16.toNat ++
    beBytes 2 m.payload.length
  match gcm.encrypt enc.writeKey.toList (enc.writeIv.toList ++ explicitNonce) aad m.payload with
  | none => .error (.err (.encryptionError Aes128Gcm.error))
  | some ciphertext => .ok ⟨m.typ, m.version, explicitNonce ++ ciphertext⟩

structure Decrypter where
  writeKey : Vector UInt8 16
  writeIv : Vector UInt8 4
  cipherSuite : CipherSuite
deriving DecidableEq

/-- The explicit nonce and the tag are not counted towards the size of the plaintext. -/
def Decrypter.decryptAes128Gcm (gcm : Aes128Gcm) (overflow : Overflow) (dec : Decrypter)
    (m : OpaqueMessage) (seq : Nat) : Except (Fault BackendError) PlainMessage :=
  if m.typ = .changeCipherSpec then .ok ⟨m.typ, m.version, m.payload⟩
  else do
    let len ← overflow.sub m.payload.length 24
    let aad := beBytes 8 seq ++ [m.typ.getU8] ++ beBytes 2 m.version.getU16.toNat ++ beBytes 2 len
    let msg ← sliceFrom m.payload 8
    let explicitNonce ← sliceTo m.payload 8
    match gcm.decrypt dec.writeKey.toList (dec.writeIv.toList ++ explicitNonce) aad msg with
    | none => throw (.err (.decryptionError Aes128Gcm.error))
    | some plaintext => return ⟨m.typ, m.version, plaintext⟩

structure RustCryptoBackend where
  encrypter : Option Encrypter
  decrypter : Option Decrypter
  writeSeq : Nat
  readSeq : Nat
  incomingEncrypted : List OpaqueMessage
  incomingPlain : List PlainMessage
  outgoingEncrypted : List OpaqueMessage
  outgoingPlain : List PlainMessage
deriving DecidableEq

namespace RustCryptoBackend

def encrypt (gcm : Aes128Gcm) (b : RustCryptoBackend) (msg : PlainMessage) (seq : Nat) :
    Except (Fault BackendError) OpaqueMessage :=
  match b.encrypter with
  | none => .error (.err (.encryptionError "Encrypter not ready"))
  | some enc =>
      match enc.cipherSuite with
      | .ecdheRsaWithAes128GcmSha256 | .ecdheEcdsaWithAes128GcmSha256 =>
          match msg.version with
          | .tlsV1_2 => enc.encryptAes128Gcm gcm msg seq (beBytes 8 seq)
          | version => .error (.err (.unsupportedProtocolVersion version))
      | suite => .error (.err (.unsupportedCiphersuite suite))

def decrypt (gcm : Aes128Gcm) (overflow : Overflow) (b : RustCryptoBackend) (msg : OpaqueMessage)
    (seq : Nat) : Except (Fault BackendError) PlainMessage :=
  match b.decrypter with
  | none => .error (.err (.decryptionError "Decrypter not ready"))
  | some dec =>
      match dec.cipherSuite with
      | .ecdheRsaWithAes128GcmSha256 | .ecdheEcdsaWithAes128GcmSha256 =>
          match msg.version with
          | .tlsV1_2 => dec.decryptAes128Gcm gcm overflow msg seq
          | version => .error (.err (.unsupportedProtocolVersion version))
      | suite => .error (.err (.unsupportedCiphersuite suite))

def pushOutgoing (msg : PlainMessage) (b : RustCryptoBackend) : RustCryptoBackend :=
  { b with outgoingPlain := b.outgoingPlain ++ [msg] }

def nextOutgoing (b : RustCryptoBackend) : Option OpaqueMessage × RustCryptoBackend :=
  (b.outgoingEncrypted.head?, { b with outgoingEncrypted := b.outgoingEncrypted.tail })

def pushIncoming (msg : OpaqueMessage) (b : RustCryptoBackend) : RustCryptoBackend :=
  { b with incomingEncrypted := b.incomingEncrypted ++ [msg] }

def nextIncoming (b : RustCryptoBackend) : Option PlainMessage × RustCryptoBackend :=
  (b.incomingPlain.head?, { b with incomingPlain := b.incomingPlain.tail })

def isEmpty (b : RustCryptoBackend) : Bool :=
  b.incomingPlain.isEmpty && b.outgoingPlain.isEmpty && b.incomingEncrypted.isEmpty &&
    b.outgoingEncrypted.isEmpty

/-- The two loops of `flush`. What was taken out of a queue is gone also when one of the
messages fails. -/
def flushIncoming (gcm : Aes128Gcm) (overflow : Overflow) :
    List OpaqueMessage → EStateM (Fault BackendError) RustCryptoBackend Unit
  | [] => return
  | incoming :: rest => do
      let b ← get
      let decrypted ← Fault.lift (b.decrypt gcm overflow incoming b.readSeq)
      modify fun b => { b with incomingPlain := b.incomingPlain ++ [decrypted] }
      let readSeq ← Fault.lift (overflow.add b.readSeq 1)
      modify fun b => { b with readSeq }
      flushIncoming gcm overflow rest

def flushOutgoing (gcm : Aes128Gcm) (overflow : Overflow) :
    List PlainMessage → EStateM (Fault BackendError) RustCryptoBackend Unit
  | [] => return
  | outgoing :: rest => do
      let b ← get
      let encrypted ← Fault.lift (b.encrypt gcm outgoing b.writeSeq)
      modify fun b => { b with outgoingEncrypted := b.outgoingEncrypted ++ [encrypted] }
      let writeSeq ← Fault.lift (overflow.add b.writeSeq 1)
      modify fun b => { b with writeSeq }
      flushOutgoing gcm overflow rest

def takeIncoming (b : RustCryptoBackend) : List OpaqueMessage × RustCryptoBackend :=
  (b.incomingEncrypted, { b with incomingEncrypted := [] })

def takeOutgoing (b : RustCryptoBackend) : List PlainMessage × RustCryptoBackend :=
  (b.outgoingPlain, { b with outgoingPlain := [] })

def flush (gcm : Aes128Gcm) (overflow : Overflow) :
    EStateM (Fault BackendError) RustCryptoBackend Unit := do
  let incoming ← modifyGet takeIncoming
  flushIncoming gcm overflow incoming
  let outgoing ← modifyGet takeOutgoing
  flushOutgoing gcm overflow outgoing

end RustCryptoBackend

/-! ## One record -/

/-- How short a record may be which is taken apart without a panic. -/
def minRecord : Overflow → Nat
  | .checks => 24
  | .wraps => 8

def CipherSuite.implemented (suite : CipherSuite) : Prop :=
  suite = .ecdheRsaWithAes128GcmSha256 ∨ suite = .ecdheEcdsaWithAes128GcmSha256

/-- Two ends of a connection with the same key. -/
structure Mirrors (enc : Encrypter) (dec : Decrypter) : Prop where
  key : enc.writeKey = dec.writeKey
  iv : enc.writeIv = dec.writeIv
  sender : enc.cipherSuite.implemented
  receiver : dec.cipherSuite.implemented

/-- Messages of TLS 1.2 which are encrypted. -/
structure PlainMessage.Ordinary (m : PlainMessage) : Prop where
  version : m.version = .tlsV1_2
  typ : m.typ ≠ .changeCipherSpec

section

variable {gcm : Aes128Gcm} {overflow : Overflow}

theorem Decrypter.decryptAes128Gcm_panic_iff {dec : Decrypter} {m : OpaqueMessage} {seq : Nat} :
    dec.decryptAes128Gcm gcm overflow m seq = .error .panic ↔
      m.typ ≠ .changeCipherSpec ∧ m.payload.length < minRecord overflow := by
  unfold decryptAes128Gcm
  by_cases htyp : m.typ = .changeCipherSpec
  · rw [if_pos htyp]
    exact iff_of_false nofun fun h => h.1 htyp
  rw [if_neg htyp]
  have hrest (len : Nat) : (do
      let aad := beBytes 8 seq ++ [m.typ.getU8] ++ beBytes 2 m.version.getU16.toNat ++ beBytes 2 len
      let msg ← sliceFrom m.payload 8
      let explicitNonce ← sliceTo m.payload 8
      match gcm.decrypt dec.writeKey.toList (dec.writeIv.toList ++ explicitNonce) aad msg with
      | none => throw (.err (.decryptionError Aes128Gcm.error))
      | some plaintext => return (⟨m.typ, m.version, plaintext⟩ : PlainMessage) :
        Except (Fault BackendError) PlainMessage) = .error .panic ↔ m.payload.length < 8 := by
    unfold sliceFrom sliceTo
    by_cases hlen : 8 ≤ m.payload.length
    · rw [if_pos hlen, if_pos hlen]
      refine iff_of_false ?_ (by omega)
      intro h
      simp only [Fault.ok_bind] at h
      split at h
      · cases h
      · cases h
    · rw [if_neg hlen]
      exact iff_of_true rfl (by omega)
  by_cases hlen : 24 ≤ m.payload.length
  · have hmin : minRecord overflow ≤ 24 := by cases overflow <;> decide
    rw [Overflow.sub_of_le overflow hlen, Fault.ok_bind, hrest]
    exact iff_of_false (by omega) fun h => by omega
  · have hlt := Nat.lt_of_not_le hlen
    cases overflow with
    | checks =>
        rw [Overflow.checks_sub_of_lt hlt]
        exact iff_of_true rfl ⟨htyp, hlt⟩
    | wraps =>
        rw [Overflow.wraps_sub_of_lt hlt, Fault.ok_bind, hrest]
        exact ⟨fun h => ⟨htyp, h⟩, fun h => h.2⟩

/-- What is sealed is opened under the same key with the same sequence number. -/
theorem Mirrors.opens (overflow : Overflow) (hgcm : gcm.Lawful) {enc : Encrypter} {dec : Decrypter}
    (h : Mirrors enc dec) {m : PlainMessage} (htyp : m.typ ≠ .changeCipherSpec) {seq : Nat}
    {sealed : OpaqueMessage}
    (hseal : enc.encryptAes128Gcm gcm m seq (beBytes 8 seq) = .ok sealed) :
    sealed.typ = m.typ ∧ sealed.version = m.version ∧
      dec.decryptAes128Gcm gcm overflow sealed seq = .ok m := by
  simp only [Encrypter.encryptAes128Gcm] at hseal
  split at hseal
  · cases hseal
  rename_i ciphertext hciphertext
  cases hseal
  have hlen := hgcm.length hciphertext
  have hopen := hgcm.opens hciphertext
  refine ⟨rfl, rfl, ?_⟩
  unfold Decrypter.decryptAes128Gcm
  have hall : (beBytes 8 seq ++ ciphertext).length = m.payload.length + 24 := by
    rw [List.length_append, length_beBytes, hlen]
    omega
  rw [if_neg htyp, Overflow.sub_of_le overflow (by rw [hall]; omega), Fault.ok_bind, sliceFrom,
    if_pos (by rw [hall]; omega), Fault.ok_bind, sliceTo, if_pos (by rw [hall]; omega),
    Fault.ok_bind]
  simp only [hall, Nat.add_sub_cancel]
  rw [List.drop_left' (length_beBytes 8 seq), List.take_left' (length_beBytes 8 seq), ← h.key,
    ← h.iv, hopen]
  rfl

namespace RustCryptoBackend

/-- Whether a message is for the cipher. -/
def Deciphers (b : RustCryptoBackend) (msg : OpaqueMessage) : Prop :=
  msg.version = .tlsV1_2 ∧ ∃ dec, b.decrypter = some dec ∧ dec.cipherSuite.implemented

theorem encrypt_eq {b : RustCryptoBackend} {enc : Encrypter} (henc : b.encrypter = some enc)
    (hsuite : enc.cipherSuite.implemented) {m : PlainMessage} (hversion : m.version = .tlsV1_2)
    (seq : Nat) : b.encrypt gcm m seq = enc.encryptAes128Gcm gcm m seq (beBytes 8 seq) := by
  unfold encrypt
  rw [henc]
  obtain hsuite | hsuite := hsuite
  · simp only [hsuite, hversion]
  · simp only [hsuite, hversion]

theorem decrypt_eq {b : RustCryptoBackend} {dec : Decrypter} (hdec : b.decrypter = some dec)
    (hsuite : dec.cipherSuite.implemented) {m : OpaqueMessage} (hversion : m.version = .tlsV1_2)
    (seq : Nat) :
    b.decrypt gcm overflow m seq = dec.decryptAes128Gcm gcm overflow m seq := by
  unfold decrypt
  rw [hdec]
  obtain hsuite | hsuite := hsuite
  · simp only [hsuite, hversion]
  · simp only [hsuite, hversion]

/-- What is not for the cipher is refused. -/
theorem decrypt_of_not_deciphers {b : RustCryptoBackend} {msg : OpaqueMessage}
    (h : ¬ b.Deciphers msg) (seq : Nat) :
    b.decrypt gcm overflow msg seq ≠ .error .panic := by
  unfold decrypt
  cases hdec : b.decrypter with
  | none => nofun
  | some dec =>
      simp only
      cases hsuite : dec.cipherSuite with
      | unknown x => nofun
      | ecdheRsaWithAes128GcmSha256 =>
          cases hversion : msg.version with
          | tlsV1_2 => exact absurd ⟨hversion, dec, hdec, .inl hsuite⟩ h
          | _ => nofun
      | ecdheEcdsaWithAes128GcmSha256 =>
          cases hversion : msg.version with
          | tlsV1_2 => exact absurd ⟨hversion, dec, hdec, .inr hsuite⟩ h
          | _ => nofun

theorem decrypt_panic_iff {b : RustCryptoBackend} {msg : OpaqueMessage} {seq : Nat} :
    b.decrypt gcm overflow msg seq = .error .panic ↔ b.Deciphers msg ∧
      msg.typ ≠ .changeCipherSpec ∧ msg.payload.length < minRecord overflow := by
  by_cases h : b.Deciphers msg
  · obtain ⟨hversion, dec, hdec, hsuite⟩ := h
    rw [decrypt_eq hdec hsuite hversion, Decrypter.decryptAes128Gcm_panic_iff]
    exact ⟨fun hshort => ⟨⟨hversion, dec, hdec, hsuite⟩, hshort⟩, fun hshort => hshort.2⟩
  · exact iff_of_false (decrypt_of_not_deciphers h seq) fun hshort => h hshort.1

end RustCryptoBackend

end

end Tlsn.Tls

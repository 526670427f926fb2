import Tlsn.MpcTls.Follower

/-!
What the check of a transcript accepts. It reads the first record of each direction as a
Finished message whatever the content type of that record is.
-/

namespace Tlsn.MpcTls

open Tlsn.Cipher Tlsn.Common Tlsn.Tls

/-- The plaintext is known, and is a Finished message with this verify data. -/
def IsFinished (other : OtherPayloads) (vd : List UInt8) (record : Record) : Prop :=
  ∃ payload, record.plaintext = some payload ∧
    HandshakePayload.readVersion other .tlsV1_2 payload = some (.finished vd)

/-- The plaintext is known, and is a close_notify. -/
def IsCloseNotify (record : Record) : Prop :=
  ∃ payload alert, record.plaintext = some payload ∧
    AlertMessagePayload.read payload = some alert ∧ alert.description = closeNotify

def IsLast (record : Record) : Prop :=
  record.typ = .applicationData ∨ record.typ = .alert ∧ IsCloseNotify record

/-- The records of one direction, with what is asked of the first of them. -/
structure Formed (first : Record → Prop) (records : List Record) : Prop where
  first : ∃ record ∈ records.head?, first record
  others : ∀ record ∈ records.tail.dropLast, record.typ = .applicationData
  last : ∀ record ∈ records.tail.getLast?, IsLast record

namespace Formed

variable {first second : Record → Prop} {records : List Record}

theorem and_iff :
    Formed (fun record => first record ∧ second record) records ↔
      (∀ record ∈ records.head?, first record) ∧ Formed second records := by
  cases records with
  | nil =>
      constructor
      · intro h
        obtain ⟨record, hrecord, -⟩ := h.first
        cases hrecord
      · intro h
        obtain ⟨record, hrecord, -⟩ := h.2.first
        cases hrecord
  | cons head rest =>
      constructor
      · intro h
        obtain ⟨record, hrecord, hfirst, hsecond⟩ := h.first
        refine ⟨?_, ⟨record, hrecord, hsecond⟩, h.others, h.last⟩
        intro record' hrecord'
        rw [Option.mem_unique hrecord' hrecord]
        exact hfirst
      · intro h
        obtain ⟨record, hrecord, hsecond⟩ := h.2.first
        exact ⟨⟨record, hrecord, h.1 record hrecord, hsecond⟩, h.2.others, h.2.last⟩

end Formed

section Checks

variable {direction : Direction} {other : OtherPayloads} {vd : List UInt8}
  {records : List Record}

theorem validateFinished_ok_iff :
    validateFinished direction other vd records = .ok () ↔
      ∃ record ∈ records.head?, IsFinished other vd record := by
  cases records with
  | nil =>
      constructor
      · intro h
        cases h
      · intro h
        obtain ⟨record, hrecord, -⟩ := h
        cases hrecord
  | cons record records =>
      simp only [List.head?_cons, Option.mem_some_iff, exists_eq_left', validateFinished,
        IsFinished]
      cases hplaintext : record.plaintext with
      | none =>
          constructor
          · intro h
            cases h
          · intro h
            obtain ⟨payload, hpayload, -⟩ := h
            cases hpayload
      | some payload =>
          simp only [Option.some.injEq, exists_eq_left']
          cases hread : HandshakePayload.readVersion other .tlsV1_2 payload with
          | none => simp [throw, throwThe, MonadExceptOf.throw]
          | some message =>
              cases message with
              | other => simp [throw, throwThe, MonadExceptOf.throw]
              | finished actual =>
                  by_cases hvd : vd = actual
                  · simp [hvd, pure, Except.pure]
                  · simp [hvd, Ne.symm hvd, throw, throwThe, MonadExceptOf.throw]

theorem validateOthers_ok_iff :
    validateOthers direction records = .ok () ↔
      ∀ record ∈ records, record.typ = .applicationData := by
  induction records with
  | nil =>
      constructor
      · intro _ record hrecord
        cases hrecord
      · intro _
        rfl
  | cons record records ih =>
      rw [List.forall_mem_cons, ← ih, validateOthers]
      by_cases htyp : record.typ = .applicationData
      · rw [if_neg (not_not.mpr htyp)]
        simp only [htyp, true_and]
      · rw [if_pos htyp]
        constructor
        · intro h
          cases h
        · intro h
          exact absurd h.1 htyp

theorem validateLast_ok_iff :
    validateLast direction records = .ok () ↔ ∀ record ∈ records.getLast?, IsLast record := by
  unfold validateLast
  cases records.getLast? with
  | none =>
      constructor
      · intro _ record hrecord
        cases hrecord
      · intro _
        rfl
  | some record =>
      simp only [Option.mem_some_iff, forall_eq', IsLast, IsCloseNotify]
      cases record.typ with
      | applicationData => simp [pure, Except.pure]
      | alert =>
          cases record.plaintext with
          | none => simp [throw, throwThe, MonadExceptOf.throw]
          | some payload =>
              cases hread : AlertMessagePayload.read payload with
              | none => simp [hread, throw, throwThe, MonadExceptOf.throw]
              | some alert =>
                  by_cases hclose : alert.description = closeNotify
                  · simp [hread, hclose, pure, Except.pure]
                  · simp [hread, hclose, throw, throwThe, MonadExceptOf.throw]
      | changeCipherSpec => simp [throw, throwThe, MonadExceptOf.throw]
      | handshake => simp [throw, throwThe, MonadExceptOf.throw]
      | heartbeat => simp [throw, throwThe, MonadExceptOf.throw]
      | unknown x => simp [throw, throwThe, MonadExceptOf.throw]

end Checks

/-- The records after the two Finished messages. -/
def afterFinished (transcript : TlsTranscript) : TlsTranscript :=
  ⟨transcript.sent.tail, transcript.recv.tail⟩

/-- The transcript of a connection. -/
def WellFormed (other : OtherPayloads) (cfVd sfVd : List UInt8) (transcript : TlsTranscript) :
    Prop :=
  Formed (fun record => record.typ = .handshake ∧ IsFinished other cfVd record)
      transcript.sent ∧
    Formed (fun record => record.typ = .handshake ∧ IsFinished other sfVd record) transcript.recv

/-- A connection as far as the plaintext of its first records goes. -/
def ReadsWellFormed (other : OtherPayloads) (cfVd sfVd : List UInt8)
    (transcript : TlsTranscript) : Prop :=
  Formed (IsFinished other cfVd) transcript.sent ∧ Formed (IsFinished other sfVd) transcript.recv

/-- The first records are of the handshake. -/
def HandshakeFirst (transcript : TlsTranscript) : Prop :=
  (∀ record ∈ transcript.sent.head?, record.typ = .handshake) ∧
    ∀ record ∈ transcript.recv.head?, record.typ = .handshake

section Transcript

variable {other : OtherPayloads} {cfVd sfVd : List UInt8} {transcript : TlsTranscript}

theorem wellFormed_iff :
    WellFormed other cfVd sfVd transcript ↔
      HandshakeFirst transcript ∧ ReadsWellFormed other cfVd sfVd transcript := by
  unfold WellFormed
  rw [Formed.and_iff, Formed.and_iff]
  constructor
  · intro h
    exact ⟨⟨h.1.1, h.2.1⟩, h.1.2, h.2.2⟩
  · intro h
    exact ⟨⟨h.1.1, h.2.1⟩, h.1.2, h.2.2⟩

theorem validateTranscript_ok_iff :
    validateTranscript other cfVd sfVd transcript = .ok () ↔
      ReadsWellFormed other cfVd sfVd transcript := by
  simp only [validateTranscript, Fault.check_bind_ok_iff, validateFinished_ok_iff,
    validateLast_ok_iff, validateOthers_ok_iff]
  constructor
  · intro h
    obtain ⟨hsent, hrecv, hsentLast, hrecvLast, hsentOthers, hrecvOthers⟩ := h
    exact ⟨⟨hsent, hsentOthers, hsentLast⟩, hrecv, hrecvOthers, hrecvLast⟩
  · intro h
    obtain ⟨hsent, hrecv⟩ := h
    exact ⟨hsent.first, hrecv.first, hsent.last, hrecv.last, hsent.others, hrecv.others⟩

/-- A first record which is not application data is not in the transcript of those. -/
theorem filter_tail {records : List Record}
    (h : ∀ record ∈ records.head?, record.typ ≠ .applicationData) :
    (records.filter fun record => record.typ = .applicationData) =
      records.tail.filter fun record => record.typ = .applicationData := by
  cases records with
  | nil => rfl
  | cons record records => exact List.filter_cons_of_neg (by simpa using h record rfl)

theorem HandshakeFirst.transcripts (h : HandshakeFirst transcript) :
    transcript.toTranscript = (afterFinished transcript).toTranscript ∧
      transcript.toTranscriptRefs = (afterFinished transcript).toTranscriptRefs := by
  have hne : ∀ {records : List Record}, (∀ record ∈ records.head?, record.typ = .handshake) →
      ∀ record ∈ records.head?, record.typ ≠ .applicationData := by
    intro records hall record hrecord happ
    rw [hall record hrecord] at happ
    cases happ
  have hsent := filter_tail (hne h.1)
  have hrecv := filter_tail (hne h.2)
  constructor
  · rw [TlsTranscript.toTranscript, TlsTranscript.toTranscript, applicationPlaintext,
      applicationPlaintext, applicationPlaintext, applicationPlaintext, hsent, hrecv,
      afterFinished]
  · rw [TlsTranscript.toTranscriptRefs, TlsTranscript.toTranscriptRefs, plaintextRefs,
      plaintextRefs, plaintextRefs, plaintextRefs, hsent, hrecv, afterFinished]

end Transcript

/-- What is accepted is a connection, and its Finished messages are not application data. -/
structure AcceptsConnections (other : OtherPayloads) (cfVd sfVd : List UInt8)
    (transcript : TlsTranscript) : Prop where
  accepts_iff : validateTranscript other cfVd sfVd transcript = .ok () ↔
    WellFormed other cfVd sfVd transcript
  application : validateTranscript other cfVd sfVd transcript = .ok () →
    transcript.toTranscript = (afterFinished transcript).toTranscript ∧
      transcript.toTranscriptRefs = (afterFinished transcript).toTranscriptRefs

/-- The check accepts connections exactly, except for a first record which reads as the
Finished message but is of another content type. -/
theorem acceptsConnections_iff (other : OtherPayloads) (cfVd sfVd : List UInt8)
    (transcript : TlsTranscript) :
    AcceptsConnections other cfVd sfVd transcript ↔
      (ReadsWellFormed other cfVd sfVd transcript → HandshakeFirst transcript) := by
  constructor
  · intro h hreads
    exact (wellFormed_iff.mp (h.accepts_iff.mp (validateTranscript_ok_iff.mpr hreads))).1
  · intro h
    constructor
    · rw [validateTranscript_ok_iff, wellFormed_iff]
      constructor
      · intro hreads
        exact ⟨h hreads, hreads⟩
      · intro hformed
        exact hformed.2
    · intro haccepts
      exact (h (validateTranscript_ok_iff.mp haccepts)).transcripts

/-- A Finished message which is sent as application data. -/
def mistypedTranscript : TlsTranscript :=
  let vd := List.replicate 12 0x01
  let message : List UInt8 := [0x14, 0x00, 0x00, 0x0c] ++ vd
  ⟨[⟨0, .applicationData, some message, none, [], []⟩],
    [⟨0, .handshake, some message, none, [], []⟩]⟩

/-- The Finished message becomes part of the application data. -/
theorem mistyped_accepted :
    let vd := List.replicate 12 0x01
    validateTranscript (fun _ _ _ => false) vd vd mistypedTranscript = .ok () ∧
      mistypedTranscript.toTranscript.map Core.Transcript.sent =
        .ok ([0x14, 0x00, 0x00, 0x0c] ++ vd) ∧
      ¬ AcceptsConnections (fun _ _ _ => false) vd vd mistypedTranscript := by
  intro vd
  have haccepted : validateTranscript (fun _ _ _ => false) vd vd mistypedTranscript = .ok () := by
    decide
  refine ⟨haccepted, by decide, ?_⟩
  intro h
  have hfirst := (wellFormed_iff.mp (h.accepts_iff.mp haccepted)).1.1
  cases hfirst _ rfl

end Tlsn.MpcTls

import Tlsn.Cipher.Vm
import Tlsn.Core.Transcript
import Tlsn.Tls.Enums

/-!
The TLS transcript: the records of a connection, and the references to the
plaintext of application data.
-/

namespace Tlsn.Common

open Tlsn.Cipher Tlsn.Tls

structure Record where
  seq : Nat
  typ : ContentType
  plaintext : Option (List UInt8)
  plaintextRef : Option Slice
  explicitNonce : List UInt8
  ciphertext : List UInt8
deriving DecidableEq

structure TlsTranscript where
  sent : List Record
  recv : List Record
deriving DecidableEq

structure TranscriptRefs where
  sent : List Slice
  recv : List Slice
deriving DecidableEq

inductive IncompleteTranscript where
  | incomplete
deriving DecidableEq

/-- The plaintext of the application data among the records. -/
def applicationPlaintext (records : List Record) : Except IncompleteTranscript (List UInt8) := do
  let plaintexts ← (records.filter fun record => record.typ = .applicationData).mapM
    fun record =>
      match record.plaintext with
      | some plaintext => .ok plaintext
      | none => .error .incomplete
  return plaintexts.flatten

def TlsTranscript.toTranscript (transcript : TlsTranscript) :
    Except IncompleteTranscript Core.Transcript := do
  let sent ← applicationPlaintext transcript.sent
  let recv ← applicationPlaintext transcript.recv
  return ⟨sent, recv⟩

/-- The references of the application data among the records. -/
def plaintextRefs (records : List Record) : Except IncompleteTranscript (List Slice) :=
  (records.filter fun record => record.typ = .applicationData).mapM fun record =>
    match record.plaintextRef with
    | some plaintextRef => .ok plaintextRef
    | none => .error .incomplete

def TlsTranscript.toTranscriptRefs (transcript : TlsTranscript) :
    Except IncompleteTranscript TranscriptRefs := do
  let sent ← plaintextRefs transcript.sent
  let recv ← plaintextRefs transcript.recv
  return ⟨sent, recv⟩

theorem plaintextRefs_ok_iff {records : List Record} :
    (∃ refs, plaintextRefs records = .ok refs) ↔
      ∀ record ∈ records, record.typ = .applicationData → record.plaintextRef ≠ none := by
  unfold plaintextRefs
  induction records with
  | nil =>
      constructor
      · intro _ record hrecord
        cases hrecord
      · intro _
        exact ⟨[], rfl⟩
  | cons record records ih =>
      rw [List.forall_mem_cons, ← ih]
      by_cases htyp : record.typ = .applicationData
      · rw [List.filter_cons_of_pos (by simpa using htyp)]
        simp only [List.mapM_cons, Fault.bind_ok_iff, htyp, true_implies]
        cases hplaintext : record.plaintextRef with
        | none => simp
        | some plaintextRef =>
            simp only [Except.ok.injEq, exists_eq_left', ne_eq, reduceCtorEq, not_false_eq_true,
              true_and]
            constructor
            · intro h
              obtain ⟨refs, rest, hrest, -⟩ := h
              exact ⟨rest, hrest⟩
            · intro h
              obtain ⟨rest, hrest⟩ := h
              exact ⟨plaintextRef :: rest, rest, hrest, rfl⟩
      · rw [List.filter_cons_of_neg (by simpa using htyp)]
        simp only [htyp, false_implies, true_and]

/-- The references are there exactly when every record of application data has one. -/
theorem TlsTranscript.toTranscriptRefs_ok_iff {transcript : TlsTranscript} :
    (∃ refs, transcript.toTranscriptRefs = .ok refs) ↔
      ∀ record ∈ transcript.sent ++ transcript.recv,
        record.typ = .applicationData → record.plaintextRef ≠ none := by
  rw [List.forall_mem_append, ← plaintextRefs_ok_iff, ← plaintextRefs_ok_iff]
  simp only [toTranscriptRefs, Fault.bind_ok_iff]
  constructor
  · intro h
    obtain ⟨refs, sent, hsent, recv, hrecv, -⟩ := h
    exact ⟨⟨sent, hsent⟩, ⟨recv, hrecv⟩⟩
  · intro h
    obtain ⟨⟨sent, hsent⟩, ⟨recv, hrecv⟩⟩ := h
    exact ⟨⟨sent, recv⟩, sent, hsent, recv, hrecv, rfl⟩

end Tlsn.Common

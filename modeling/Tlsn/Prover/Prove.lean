import Tlsn.Common.TranscriptRefs
import Tlsn.Core.CompressedTranscript

/-!
Proving parts of the transcript to a verifier directly. The prover decodes the
plaintext it reveals in the machine and sends the partial transcript in its
compressed form.
-/

namespace Tlsn.Prover

open Tlsn.Cipher Tlsn.Common Tlsn.Core

/-- What the prover holds of a connection. -/
structure ProveState where
  transcript : Transcript
  transcriptRefs : TranscriptRefs

/-- The references for an index, which is expected to be within bounds. -/
def expectRefs {ε : Type} (refs : TranscriptRefs) (direction : Direction) (idx : Idx) :
    Except (Fault ε) (List Slice) := do
  match ← refs.get direction idx with
  | some slices => return slices
  | none => throw .panic

/-- What is decoded, and the message to the verifier. -/
def proveTranscript {ε : Type} (state : ProveState) (sent recv : Idx) :
    Except (Fault ε) (List Slice × CompressedPartialTranscriptUnchecked) := do
  let partialTranscript ← state.transcript.toPartial sent recv
  let sentRefs ← expectRefs state.transcriptRefs .sent sent
  let recvRefs ← expectRefs state.transcriptRefs .received recv
  let compressed ← partialTranscript.compress
  return (sentRefs ++ recvRefs, compressed.unchecked)

/-- The references of the prover are to its transcript. -/
def ProveState.Refers (mem : Memory) (state : ProveState) : Prop :=
  ∀ d, (TranscriptRefs.addresses (state.transcriptRefs.ofDirection d)).map mem =
    state.transcript.ofDirection d

theorem expectRefs_ok {ε : Type} {mem : Memory} {refs : TranscriptRefs} {transcript : Transcript}
    {d : Direction} {idx : Idx}
    (hread : (TranscriptRefs.addresses (refs.ofDirection d)).map mem = transcript.ofDirection d)
    (hstop : idx.stop ≤ transcript.lenOfDirection d) :
    ∃ slices, (expectRefs refs d idx : Except (Fault ε) _) = .ok slices ∧
      slices.flatMap mem.read = idx.vals.map (transcript.byte d) := by
  obtain ⟨found, hget, hfound⟩ := TranscriptRefs.read_get (ε := ε) hread idx
  obtain ⟨seq, hseq, -, hdata⟩ := transcript.get_of_le d idx hstop
  rw [hseq, Option.map_some, hdata] at hfound
  cases found with
  | none => cases hfound
  | some slices => exact ⟨slices, Fault.bind_ok_iff.mpr ⟨_, hget, rfl⟩, Option.some.inj hfound⟩

/-- Within bounds the prover proves, and what it sends is the view of its transcript. -/
theorem proveTranscript_ok {ε : Type} {mem : Memory} {state : ProveState}
    (hrefers : state.Refers mem) (selection : state.transcript.Selection) :
    ∃ slices compressed, (proveTranscript state (selection.idx .sent) (selection.idx .received) :
        Except (Fault ε) _) = .ok (slices, compressed.unchecked) ∧
      (selection.view.compress : Except (Fault ε) _) = .ok compressed := by
  obtain ⟨sentRefs, hsent, -⟩ := expectRefs_ok (ε := ε) (hrefers .sent) (selection.bound .sent)
  obtain ⟨recvRefs, hrecv, -⟩ :=
    expectRefs_ok (ε := ε) (hrefers .received) (selection.bound .received)
  have hbounds : selection.view.InBounds := by
    intro d
    simpa [Transcript.lenOfDirection] using selection.bound d
  obtain ⟨compressed, -, hcompress, -⟩ := PartialTranscript.decompress_compress (ε := ε) hbounds
  exact ⟨sentRefs ++ recvRefs, compressed,
    Fault.bind_ok_iff.mpr ⟨_, selection.toPartial_eq, Fault.bind_ok_iff.mpr ⟨_, hsent,
      Fault.bind_ok_iff.mpr ⟨_, hrecv, Fault.bind_ok_iff.mpr ⟨_, hcompress, rfl⟩⟩⟩⟩, hcompress⟩

end Tlsn.Prover

import Tlsn.Prover.Prove
import Tlsn.Verifier.PlaintextRefs

/-!
Receiving a partial transcript from the prover directly. The verifier compares the
authenticated bytes with the plaintext which the machine decodes. It knows the
lengths of the transcript as 32 bits each, which is where a longer transcript fails.
-/

namespace Tlsn.Verifier

open Tlsn.Cipher Tlsn.Common Tlsn.Core Tlsn.Prover

inductive VerifierError where
  | io (e : InvalidCompressedPartialTranscript)
  | verify (msg : String)
deriving DecidableEq

def incorrectLength : VerifierError := .verify "prover sent transcript with incorrect length"

def incorrectTranscript : VerifierError := .verify "purported transcript is incorrect"

/-- What the verifier holds of a connection. -/
structure VerifyState where
  transcriptRefs : TranscriptRefs
  transcriptLength : TranscriptLength

/-- The length of the application data, of which 32 bits are kept. -/
def dataLength (records : List Record) : UInt32 := UInt32.ofNat (applicationLength records)

/-- The state once the connection is closed and its transcript committed. -/
def VerifyState.closed {ε : Type} (transcript : TlsTranscript) : Except (Fault ε) VerifyState :=
  match transcript.toTranscriptRefs with
  | .error _ => throw .panic
  | .ok refs =>
      return {
        transcriptRefs := refs
        transcriptLength := ⟨dataLength transcript.sent, dataLength transcript.recv⟩ }

def deserialize (message : CompressedPartialTranscriptUnchecked) :
    Except (Fault VerifierError) PartialTranscript := do
  let compressed ← (CompressedPartialTranscript.tryFrom message).mapError
    fun e => Fault.err (.io e)
  compressed.decompress

/-- The authenticated bytes of a direction. -/
def authedBytes {ε : Type} (t : PartialTranscript) (direction : Direction) :
    Except (Fault ε) (List UInt8) :=
  (t.authed direction).vals.mapM fun p =>
    match (t.ofDirection direction)[p]? with
    | some byte => .ok byte
    | none => .error .panic

/-- Receives the purported transcript, where `mem` is what the machine decodes. -/
def receive (mem : Memory) (state : VerifyState)
    (message : CompressedPartialTranscriptUnchecked) :
    Except (Fault VerifierError) PartialTranscript := do
  let partialTranscript ← deserialize message
  if partialTranscript.sent.length ≠ state.transcriptLength.sent.toNat ∨
      partialTranscript.received.length ≠ state.transcriptLength.received.toNat then
    throw (.err incorrectLength)
  let sentRefs ← expectRefs state.transcriptRefs .sent partialTranscript.sentAuthedIdx
  let recvRefs ← expectRefs state.transcriptRefs .received partialTranscript.receivedAuthedIdx
  let authenticatedData := (sentRefs ++ recvRefs).flatMap mem.read
  let sent ← authedBytes partialTranscript .sent
  let received ← authedBytes partialTranscript .received
  if (authenticatedData.zip (sent ++ received)).any fun bytes => bytes.1 != bytes.2 then
    throw (.err incorrectTranscript)
  return partialTranscript

/-- The committed plaintext. -/
def VerifyState.plaintext (mem : Memory) (state : VerifyState) : Transcript where
  sent := state.transcriptRefs.sent.flatMap mem.read
  received := state.transcriptRefs.recv.flatMap mem.read

theorem VerifyState.read_refs (mem : Memory) (state : VerifyState) (d : Direction) :
    (TranscriptRefs.addresses (state.transcriptRefs.ofDirection d)).map mem =
      (state.plaintext mem).ofDirection d := by
  rw [map_addresses]
  cases d <;> rfl

theorem authedBytes_eq {ε : Type} {t : PartialTranscript} {d : Direction}
    (h : (t.authed d).stop ≤ (t.ofDirection d).length) :
    (authedBytes t d : Except (Fault ε) _) =
      .ok ((t.authed d).vals.map fun p => (t.ofDirection d).getD p 0) := by
  have hone : ∀ l : List Nat, (∀ p ∈ l, p < (t.ofDirection d).length) →
      (l.mapM fun p => match (t.ofDirection d)[p]? with
        | some byte => .ok byte
        | none => .error .panic : Except (Fault ε) _) =
        .ok (l.map fun p => (t.ofDirection d).getD p 0) := by
    intro l hl
    induction l with
    | nil => rfl
    | cons p l ih =>
        obtain ⟨hp, hl⟩ := List.forall_mem_cons.mp hl
        rw [List.mapM_cons, ih hl, List.getElem?_eq_getElem hp]
        simp [List.getElem?_eq_getElem hp]
        rfl
  exact hone _ (RangeSet.stop_le_iff.mp h)

/-- As many bytes on either side differ nowhere exactly when they are the same. -/
theorem any_zip_ne_eq_false {l m : List UInt8} (h : l.length = m.length) :
    ((l.zip m).any fun bytes => bytes.1 != bytes.2) = false ↔ l = m := by
  induction l generalizing m with
  | nil =>
      cases m with
      | nil => simp
      | cons b m => cases h
  | cons a l ih =>
      cases m with
      | nil => cases h
      | cons b m =>
          rw [List.zip_cons_cons, List.any_cons, Bool.or_eq_false_iff, ih (by simpa using h)]
          simp

/-! ## What is accepted -/

theorem deserialize_inBounds {message : CompressedPartialTranscriptUnchecked}
    {t : PartialTranscript} (h : deserialize message = .ok t) : t.InBounds := by
  obtain ⟨compressed, hfrom, hdecompress⟩ := Fault.bind_ok_iff.mp h
  obtain ⟨t', ht', hcompress⟩ :=
    CompressedPartialTranscript.compress_decompress (Fault.mapError_ok_iff.mp hfrom)
  rw [hdecompress] at ht'
  cases ht'
  exact PartialTranscript.inBounds_of_compress hcompress

theorem deserialize_total (message : CompressedPartialTranscriptUnchecked) :
    deserialize message ≠ .error .panic := by
  unfold deserialize
  cases hfrom : CompressedPartialTranscript.tryFrom message with
  | error e => exact fun h => nomatch h
  | ok compressed =>
      obtain ⟨t, ht, -⟩ :=
        CompressedPartialTranscript.compress_decompress (ε := VerifierError) hfrom
      intro h
      have hok : compressed.decompress = .error (.panic : Fault VerifierError) := h
      rw [ht] at hok
      cases hok

/-- The lengths are those of the connection. -/
def SameLengths (state : VerifyState) (t : PartialTranscript) : Prop :=
  ∀ d, (t.ofDirection d).length = state.transcriptLength.ofDirection d

/-- Every authenticated byte is the committed one. -/
def SameBytes (mem : Memory) (state : VerifyState) (t : PartialTranscript) : Prop :=
  ∀ d p, p ∈ t.authed d →
    (t.ofDirection d)[p]? = ((state.plaintext mem).ofDirection d)[p]?

/-- The recorded lengths do not exceed the committed plaintext. -/
def VerifyState.Covers (mem : Memory) (state : VerifyState) : Prop :=
  ∀ d, state.transcriptLength.ofDirection d ≤ (state.plaintext mem).lenOfDirection d

variable {mem : Memory} {state : VerifyState} {message : CompressedPartialTranscriptUnchecked}
  {t : PartialTranscript}

theorem sameLengths_iff : SameLengths state t ↔
    ¬ (t.sent.length ≠ state.transcriptLength.sent.toNat ∨
      t.received.length ≠ state.transcriptLength.received.toNat) := by
  rw [not_or, not_not, not_not]
  constructor
  · exact fun h => ⟨h .sent, h .received⟩
  · intro h d
    cases d with
    | sent => exact h.1
    | received => exact h.2

/-- The values to compare, of one direction. -/
theorem expectRefs_committed {ε : Type} (hcovers : state.Covers mem) (hin : t.InBounds)
    (hlen : SameLengths state t) (d : Direction) :
    ∃ slices, (expectRefs state.transcriptRefs d (t.authed d) : Except (Fault ε) _) = .ok slices ∧
      slices.flatMap mem.read = (t.authed d).vals.map ((state.plaintext mem).byte d) := by
  refine expectRefs_ok (state.read_refs mem d) ?_
  exact Nat.le_trans (hin d) (Nat.le_trans (Nat.le_of_eq (hlen d)) (hcovers d))

theorem authedBytes_eq_iff (hcovers : state.Covers mem) (hin : t.InBounds)
    (hlen : SameLengths state t) (d : Direction) :
    (t.authed d).vals.map ((state.plaintext mem).byte d) =
        (t.authed d).vals.map (fun p => (t.ofDirection d).getD p 0) ↔
      ∀ p, p ∈ t.authed d → (t.ofDirection d)[p]? = ((state.plaintext mem).ofDirection d)[p]? := by
  rw [List.map_inj_left]
  refine forall_congr' fun p => imp_congr_right fun hp => ?_
  have hlt : p < (t.ofDirection d).length := RangeSet.stop_le_iff.mp (hin d) p hp
  have hplain : p < (state.plaintext mem).lenOfDirection d :=
    Nat.lt_of_lt_of_le (hlen d ▸ hlt) (hcovers d)
  rw [Transcript.getElem?_ofDirection hplain, List.getElem?_eq_getElem hlt, Option.some.injEq,
    List.getD_eq_getElem?_getD, List.getElem?_eq_getElem hlt, Option.getD_some]
  exact eq_comm

/-- What is received is accepted with the lengths of the connection and its bytes. -/
theorem receive_eq (hcovers : state.Covers mem) (ht : deserialize message = .ok t) :
    (SameLengths state t ∧ SameBytes mem state t → receive mem state message = .ok t) ∧
    (¬ SameLengths state t → receive mem state message = .error (.err incorrectLength)) ∧
    (SameLengths state t ∧ ¬ SameBytes mem state t →
      receive mem state message = .error (.err incorrectTranscript)) := by
  have hin := deserialize_inBounds ht
  by_cases hlen : SameLengths state t
  · obtain ⟨sentRefs, hsentRefs, hsentRead⟩ :=
      expectRefs_committed (ε := VerifierError) hcovers hin hlen .sent
    obtain ⟨recvRefs, hrecvRefs, hrecvRead⟩ :=
      expectRefs_committed (ε := VerifierError) hcovers hin hlen .received
    have hsentRefs' : expectRefs state.transcriptRefs .sent t.sentAuthedIdx = .ok sentRefs :=
      hsentRefs
    have hrecvRefs' : expectRefs state.transcriptRefs .received t.receivedAuthedIdx =
      .ok recvRefs := hrecvRefs
    have hcompare : ((((sentRefs ++ recvRefs).flatMap mem.read).zip
        ((t.authed .sent).vals.map (fun p => (t.ofDirection .sent).getD p 0) ++
          (t.authed .received).vals.map (fun p => (t.ofDirection .received).getD p 0))).any
            fun bytes => bytes.1 != bytes.2) = false ↔ SameBytes mem state t := by
      rw [List.flatMap_append, hsentRead, hrecvRead, any_zip_ne_eq_false (by simp)]
      constructor
      · intro h d
        obtain ⟨hs, hr⟩ := List.append_inj h (by simp)
        cases d with
        | sent => exact (authedBytes_eq_iff hcovers hin hlen .sent).mp hs
        | received => exact (authedBytes_eq_iff hcovers hin hlen .received).mp hr
      · intro h
        rw [(authedBytes_eq_iff hcovers hin hlen .sent).mpr (h .sent),
          (authedBytes_eq_iff hcovers hin hlen .received).mpr (h .received)]
    have hreceive : receive mem state message =
        if ((((sentRefs ++ recvRefs).flatMap mem.read).zip
          ((t.authed .sent).vals.map (fun p => (t.ofDirection .sent).getD p 0) ++
            (t.authed .received).vals.map (fun p => (t.ofDirection .received).getD p 0))).any
              fun bytes => bytes.1 != bytes.2) = true then .error (.err incorrectTranscript)
        else .ok t := by
      unfold receive
      rw [ht, Fault.ok_bind, if_neg (sameLengths_iff.mp hlen)]
      simp only [hsentRefs', hrecvRefs', authedBytes_eq (hin .sent), authedBytes_eq (hin .received),
        Fault.ok_bind]
      split <;> rfl
    rw [hreceive]
    refine ⟨fun h => ?_, fun h => absurd hlen h, fun h => ?_⟩
    · rw [hcompare.mpr h.2]
      rfl
    · rw [if_pos (Bool.eq_true_of_not_eq_false (fun hfalse => h.2 (hcompare.mp hfalse)))]
  · refine ⟨fun h => absurd h.1 hlen, fun _ => ?_, fun h => absurd h.1 hlen⟩
    unfold receive
    rw [ht, Fault.ok_bind, if_pos (not_not.mp (mt sameLengths_iff.mpr hlen))]
    rfl

/-- What an honest prover sends has the lengths and the bytes of its transcript. -/
theorem prove_deserialize {prover : ProveState} (hrefers : prover.Refers mem)
    (selection : prover.transcript.Selection) :
    ∃ slices message t,
      (proveTranscript prover (selection.idx .sent) (selection.idx .received) :
        Except (Fault VerifierError) _) = .ok (slices, message) ∧
      deserialize message = .ok t ∧
      ∀ d, t.authed d = selection.idx d ∧
        (t.ofDirection d).length = prover.transcript.lenOfDirection d ∧
        ∀ p, p ∈ t.authed d → (t.ofDirection d)[p]? = (prover.transcript.ofDirection d)[p]? := by
  obtain ⟨slices, compressed, hprove, hcompress⟩ :=
    proveTranscript_ok (ε := VerifierError) hrefers selection
  have hin := PartialTranscript.inBounds_of_compress hcompress
  obtain ⟨compressed', t, hcompress', hfrom, hdecompress, ht⟩ :=
    PartialTranscript.decompress_compress (ε := VerifierError) hin
  rw [hcompress] at hcompress'
  cases hcompress'
  refine ⟨slices, compressed.unchecked, t, hprove,
    Fault.bind_ok_iff.mpr ⟨compressed, Fault.mapError_ok_iff.mpr hfrom, hdecompress⟩, ?_⟩
  intro d
  obtain ⟨hauthed, hlen, hbytes⟩ := ht d
  rw [Transcript.Selection.view_authed] at hauthed hbytes
  rw [Transcript.Selection.view_ofDirection] at hlen hbytes
  rw [Transcript.length_mask] at hlen hbytes
  refine ⟨hauthed, hlen, ?_⟩
  intro p hp
  rw [hauthed] at hp
  have hlt : p < (prover.transcript.ofDirection d).length :=
    RangeSet.stop_le_iff.mp (selection.bound d) p hp
  rw [hbytes p hlt, if_pos hp, Transcript.getElem?_mask, if_pos hp]

/-- Direct proving: what is accepted, that nothing else is an abort, that every
authenticated byte is compared, and that the honest prover is believed. -/
structure DirectProving (mem : Memory) (state : VerifyState) : Prop where
  accepts : ∀ message t, deserialize message = .ok t →
    (receive mem state message = .ok t ↔ SameLengths state t ∧ SameBytes mem state t)
  total : ∀ message, receive mem state message ≠ .error .panic
  compared : ∀ message t, deserialize message = .ok t → SameLengths state t →
    ∀ d, ∃ slices,
      (expectRefs state.transcriptRefs d (t.authed d) : Except (Fault VerifierError) _) =
        .ok slices ∧ (slices.flatMap mem.read).length = (t.authed d).len
  honest : ∀ prover : ProveState, prover.Refers mem → prover.transcript = state.plaintext mem →
    ∀ selection : prover.transcript.Selection, ∃ slices message t,
      (proveTranscript prover (selection.idx .sent) (selection.idx .received) :
        Except (Fault VerifierError) _) = .ok (slices, message) ∧
      receive mem state message = .ok t ∧ ∀ d, t.authed d = selection.idx d

theorem deserialize_of_receive (h : receive mem state message = .ok t) :
    deserialize message = .ok t := by
  obtain ⟨t', ht', h⟩ := Fault.bind_ok_iff.mp h
  by_cases hlen : SameLengths state t'
  · rw [if_neg (sameLengths_iff.mp hlen)] at h
    obtain ⟨sentRefs, -, h⟩ := Fault.bind_ok_iff.mp h
    obtain ⟨recvRefs, -, h⟩ := Fault.bind_ok_iff.mp h
    obtain ⟨sent, -, h⟩ := Fault.bind_ok_iff.mp h
    obtain ⟨received, -, h⟩ := Fault.bind_ok_iff.mp h
    split at h
    · cases h
    · cases h
      exact ht'
  · rw [if_pos (not_not.mp (mt sameLengths_iff.mpr hlen))] at h
    cases h

theorem receive_ok_iff (hcovers : state.Covers mem) (ht : deserialize message = .ok t) :
    receive mem state message = .ok t ↔ SameLengths state t ∧ SameBytes mem state t := by
  obtain ⟨haccept, hlength, hbytes⟩ := receive_eq hcovers ht
  constructor
  · intro h
    by_contra hnot
    by_cases hlen : SameLengths state t
    · rw [hbytes ⟨hlen, fun hsame => hnot ⟨hlen, hsame⟩⟩] at h
      cases h
    · rw [hlength hlen] at h
      cases h
  · exact haccept

theorem receive_total (hcovers : state.Covers mem)
    (message : CompressedPartialTranscriptUnchecked) :
    receive mem state message ≠ .error .panic := by
  intro h
  cases ht : deserialize message with
  | error e =>
      have he : receive mem state message = .error e := by
        unfold receive
        rw [ht]
        rfl
      rw [h] at he
      cases he
      exact deserialize_total message ht
  | ok t =>
      obtain ⟨haccept, hlength, hbytes⟩ := receive_eq hcovers ht
      by_cases hlen : SameLengths state t
      · by_cases hsame : SameBytes mem state t
        · rw [haccept ⟨hlen, hsame⟩] at h
          cases h
        · rw [hbytes ⟨hlen, hsame⟩] at h
          cases h
      · rw [hlength hlen] at h
        cases h

/-- A verifier which knows a part of the length proves directly exactly when it knows all of
it. -/
theorem VerifyState.directProving_iff (hcovers : state.Covers mem) :
    DirectProving mem state ↔
      ∀ d, state.transcriptLength.ofDirection d = (state.plaintext mem).lenOfDirection d := by
  constructor
  · intro h d
    have hrefers : ProveState.Refers mem ⟨state.plaintext mem, state.transcriptRefs⟩ :=
      state.read_refs mem
    let nothing : (state.plaintext mem).Selection :=
      ⟨fun _ => RangeSet.empty, fun _ => RangeSet.stop_le_iff.mpr (by simp)⟩
    obtain ⟨slices, message, t, hprove, ht, hproved⟩ := prove_deserialize hrefers nothing
    obtain ⟨slices', message', t', hprove', hreceive, -⟩ := h.honest _ hrefers rfl nothing
    rw [hprove] at hprove'
    cases hprove'
    have ht' := deserialize_of_receive hreceive
    rw [ht] at ht'
    cases ht'
    have hlen := ((receive_ok_iff hcovers ht).mp hreceive).1 d
    rw [← hlen]
    exact (hproved d).2.1
  · intro hlengths
    constructor
    · exact fun message t ht => receive_ok_iff hcovers ht
    · exact receive_total hcovers
    · intro message t ht hlen d
      obtain ⟨slices, hslices, hread⟩ :=
        expectRefs_committed hcovers (deserialize_inBounds ht) hlen d
      exact ⟨slices, hslices, by rw [hread, List.length_map, RangeSet.len]⟩
    · intro prover hrefers htranscript selection
      obtain ⟨slices, message, t, hprove, ht, hproved⟩ := prove_deserialize hrefers selection
      refine ⟨slices, message, t, hprove, (receive_ok_iff hcovers ht).mpr ⟨?_, ?_⟩,
        fun d => (hproved d).1⟩
      · intro d
        rw [(hproved d).2.1, htranscript, hlengths d]
      · intro d p hp
        rw [(hproved d).2.2 p hp, htranscript]

theorem dataLength_toNat (records : List Record) :
    (dataLength records).toNat = applicationLength records % 2 ^ 32 := by
  rw [dataLength, UInt32.toNat_ofNat']

theorem VerifyState.closed_ok {ε : Type} {transcript : TlsTranscript} (mem : Memory)
    (h : transcript.Committed) :
    ∃ state, (VerifyState.closed transcript : Except (Fault ε) _) = .ok state ∧
      ∀ d, state.transcriptLength.ofDirection d =
          applicationLength (transcript.ofDirection d) % 2 ^ 32 ∧
        (state.plaintext mem).lenOfDirection d = applicationLength (transcript.ofDirection d) := by
  obtain ⟨hsent, hrecv⟩ := List.forall_mem_append.mp h
  obtain ⟨sentRefs, hsentRefs, hsentLen⟩ := plaintextRefs_committed transcript.sent hsent
  obtain ⟨recvRefs, hrecvRefs, hrecvLen⟩ := plaintextRefs_committed transcript.recv hrecv
  have hrefs : transcript.toTranscriptRefs = .ok ⟨sentRefs, recvRefs⟩ :=
    Fault.bind_ok_iff.mpr ⟨sentRefs, hsentRefs, Fault.bind_ok_iff.mpr ⟨recvRefs, hrecvRefs, rfl⟩⟩
  refine ⟨⟨⟨sentRefs, recvRefs⟩, ⟨dataLength transcript.sent, dataLength transcript.recv⟩⟩, ?_, ?_⟩
  · rw [VerifyState.closed, hrefs]
    rfl
  · intro d
    cases d with
    | sent =>
        refine ⟨dataLength_toNat transcript.sent, ?_⟩
        rw [TlsTranscript.ofDirection, ← hsentLen, ← List.length_map, map_addresses]
        rfl
    | received =>
        refine ⟨dataLength_toNat transcript.recv, ?_⟩
        rw [TlsTranscript.ofDirection, ← hrecvLen, ← List.length_map, map_addresses]
        rfl

/-- Direct proving is sound and complete exactly for the transcripts whose lengths fit in 32
bits. -/
theorem direct_proving_iff {transcript : TlsTranscript} (mem : Memory)
    (h : transcript.Committed) :
    ∃ state, (VerifyState.closed transcript : Except (Fault VerifierError) _) = .ok state ∧
      (DirectProving mem state ↔
        ∀ d, applicationLength (transcript.ofDirection d) < 2 ^ 32) := by
  obtain ⟨state, hclosed, hlengths⟩ := VerifyState.closed_ok (ε := VerifierError) mem h
  refine ⟨state, hclosed, ?_⟩
  have hcovers : state.Covers mem := by
    intro d
    rw [(hlengths d).1, (hlengths d).2]
    exact Nat.mod_le _ _
  rw [VerifyState.directProving_iff hcovers]
  refine forall_congr' fun d => ?_
  rw [(hlengths d).1, (hlengths d).2]
  exact Nat.mod_eq_iff_lt (by decide)

theorem sampleRecords_committed : TranscriptRefs.sampleRecords.Committed := by
  intro record hrecord _
  simp only [TranscriptRefs.sampleRecords, List.nil_append, List.mem_cons, List.not_mem_nil,
    or_false] at hrecord
  rcases hrecord with rfl | rfl
  · exact ⟨_, rfl, rfl⟩
  · exact ⟨_, rfl, rfl⟩

theorem direct_proving_iff_sample :
    (∃ state, (VerifyState.closed TranscriptRefs.sampleRecords :
        Except (Fault VerifierError) _) = .ok state ∧
      DirectProving TranscriptRefs.sampleMemory state) ∧
    ∃ state, (VerifyState.closed sampleTranscript : Except (Fault VerifierError) _) = .ok state ∧
      DirectProving TranscriptRefs.sampleMemory state := by
  obtain ⟨state, hclosed, hiff⟩ :=
    direct_proving_iff TranscriptRefs.sampleMemory sampleRecords_committed
  obtain ⟨state', hclosed', hiff'⟩ :=
    direct_proving_iff TranscriptRefs.sampleMemory sampleTranscript_committed
  exact ⟨⟨state, hclosed, hiff.mpr fun d => by cases d <;> decide⟩,
    state', hclosed', hiff'.mpr fun d => by cases d <;> decide +kernel⟩

/-- Records of one size, one after the other in memory. -/
def chunkedTranscript (count size : Nat) : TlsTranscript where
  sent := []
  recv := (List.range count).map fun i =>
    ⟨i, .applicationData, some (List.replicate size 0), some ⟨size * i, size⟩, [],
      List.replicate size 0⟩

theorem chunkedTranscript_committed (count size : Nat) :
    (chunkedTranscript count size).Committed := by
  intro record hrecord _
  rw [chunkedTranscript, List.nil_append] at hrecord
  obtain ⟨i, -, rfl⟩ := List.mem_map.mp hrecord
  exact ⟨_, rfl, List.length_replicate.symm⟩

theorem chunkedTranscript_length (count size : Nat) :
    applicationLength ((chunkedTranscript count size).ofDirection .received) = count * size := by
  rw [TlsTranscript.ofDirection, chunkedTranscript, applicationLength,
    List.filter_eq_self.mpr (fun record hrecord => by
      obtain ⟨i, -, rfl⟩ := List.mem_map.mp hrecord
      rfl), List.map_map]
  simp only [Function.comp_def, List.length_replicate]
  rw [List.map_const', List.sum_replicate_nat, List.length_range]

/-- 2^18 records of 2^14 bytes each. -/
def longTranscript : TlsTranscript := chunkedTranscript 262144 16384

/-- An honest prover reveals nothing of 2^32 bytes, and is rejected. -/
theorem long_rejected :
    ∃ state slices message,
      (VerifyState.closed longTranscript : Except (Fault VerifierError) _) = .ok state ∧
      ProveState.Refers TranscriptRefs.sampleMemory
        ⟨state.plaintext TranscriptRefs.sampleMemory, state.transcriptRefs⟩ ∧
      (proveTranscript ⟨state.plaintext TranscriptRefs.sampleMemory, state.transcriptRefs⟩
        RangeSet.empty RangeSet.empty : Except (Fault VerifierError) _) = .ok (slices, message) ∧
      receive TranscriptRefs.sampleMemory state message = .error (.err incorrectLength) := by
  obtain ⟨state, hclosed, hlengths⟩ := VerifyState.closed_ok (ε := VerifierError)
    TranscriptRefs.sampleMemory (chunkedTranscript_committed 262144 16384)
  have hcovers : state.Covers TranscriptRefs.sampleMemory := by
    intro d
    rw [(hlengths d).1, (hlengths d).2]
    exact Nat.mod_le _ _
  let prover : ProveState := ⟨state.plaintext TranscriptRefs.sampleMemory, state.transcriptRefs⟩
  have hrefers : prover.Refers TranscriptRefs.sampleMemory :=
    state.read_refs TranscriptRefs.sampleMemory
  let nothing : prover.transcript.Selection :=
    ⟨fun _ => RangeSet.empty, fun _ => RangeSet.stop_le_iff.mpr (by simp)⟩
  obtain ⟨slices, message, t, hprove, ht, hproved⟩ := prove_deserialize hrefers nothing
  refine ⟨state, slices, message, hclosed, hrefers, hprove, (receive_eq hcovers ht).2.1 ?_⟩
  intro hsame
  have hlen := hsame .received
  have hplain : prover.transcript.lenOfDirection .received = 262144 * 16384 :=
    (hlengths .received).2.trans (chunkedTranscript_length 262144 16384)
  rw [(hproved .received).2.1, hplain, (hlengths .received).1, chunkedTranscript_length] at hlen
  exact absurd hlen (by decide)

end Tlsn.Verifier

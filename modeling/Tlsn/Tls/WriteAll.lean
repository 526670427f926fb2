import Tlsn.Tls.ConnectionErrors

/-!
Writing a buffer of plaintext. Each round of the loop takes as much as there is room for, and
nothing makes room while the loop runs.
-/

namespace Tlsn.Tls

open Tlsn.MpcTls (Overflow)

/-- A backend together with the messages which were pushed to be sent. -/
def Backend.logged {B : Type} (backend : Backend B) : Backend (B × List PlainMessage) where
  pushIncoming m := Fault.onFst (backend.pushIncoming m)
  pushOutgoing m := fun s =>
    match backend.pushOutgoing m s.1 with
    | .ok () b => .ok () (b, s.2 ++ [m])
    | .error e b => .error e (b, s.2)
  nextIncoming := Fault.onFst backend.nextIncoming
  nextOutgoing := Fault.onFst backend.nextOutgoing
  flush := Fault.onFst backend.flush
  startTraffic := Fault.onFst backend.startTraffic
  serverClosed := Fault.onFst backend.serverClosed

/-- Handing out messages comes to an end. -/
def Backend.Drains {B : Type} (backend : Backend B) : Prop :=
  ∃ pending : B → Nat, ∀ b m b', backend.nextOutgoing b = .ok (some m) b' → pending b' < pending b

/-- It hands out what waits in its queue. -/
theorem RustCryptoBackend.backend_drains (gcm : Aes128Gcm) (overflow : Overflow)
    (panicked : BackendError) : (backend gcm overflow panicked).Drains := by
  refine ⟨fun b => b.outgoingEncrypted.length, ?_⟩
  intro b m b' h
  obtain ⟨encrypter, decrypter, writeSeq, readSeq, incoming, plain, outgoing, sent⟩ := b
  cases outgoing with
  | nil => cases h
  | cons first rest =>
      cases h
      exact Nat.lt_succ_self _

namespace CommonState

variable {B : Type} {backend : Backend B} {overflow : Overflow}

/-- What sending application data changes: messages are pushed, and counted. -/
structure Sent (c : CommonState (B × List PlainMessage)) (ms : List PlainMessage)
    (c' : CommonState (B × List PlainMessage)) : Prop where
  log : c'.backend.2 = c.backend.2 ++ ms
  maySend : c'.maySendApplicationData = c.maySendApplicationData
  encryptState : c'.recordLayer.encryptState = c.recordLayer.encryptState
  fragmenter : c'.messageFragmenter = c.messageFragmenter
  plaintext : c'.sendablePlaintext = c.sendablePlaintext
  tls : c'.sendableTls = c.sendableTls

theorem Sent.refl (c : CommonState (B × List PlainMessage)) : Sent c [] c :=
  ⟨(List.append_nil _).symm, rfl, rfl, rfl, rfl, rfl⟩

theorem Sent.trans {c c' c'' : CommonState (B × List PlainMessage)} {ms ms' : List PlainMessage}
    (h : Sent c ms c') (h' : Sent c' ms' c'') : Sent c (ms ++ ms') c'' := by
  constructor
  · rw [h'.log, h.log, List.append_assoc]
  · rw [h'.maySend, h.maySend]
  · rw [h'.encryptState, h.encryptState]
  · rw [h'.fragmenter, h.fragmenter]
  · rw [h'.plaintext, h.plaintext]
  · rw [h'.tls, h.tls]

/-- A build with debug assertions aborts unless records are encrypted. -/
def Encrypts {B : Type} (overflow : Overflow) (c : CommonState B) : Prop :=
  overflow = .checks → c.recordLayer.encryptState = .active

theorem debugAssert_ok {p : CommonState B → Bool} {c : CommonState B}
    (h : overflow = .checks → p c = true) : debugAssert overflow p c = .ok () c := by
  unfold debugAssert
  cases overflow with
  | checks => simp only [h rfl, if_true]
  | wraps => rfl

/-- The layer has no more numbers, or the backend does not take the message. -/
def Refuses (backend : Backend B) (m : PlainMessage) (c : CommonState (B × List PlainMessage)) :
    Prop :=
  c.recordLayer.encryptExhausted = true ∨ ∃ e b, backend.pushOutgoing m c.backend.1 = .error e b

/-- A single fragment is pushed, unless it is refused. -/
theorem sendSingleFragment_eq (backend : Backend B) {c : CommonState (B × List PlainMessage)}
    (h : c.Encrypts overflow) (m : PlainMessage) :
    (¬ Refuses backend m c ∧ ∃ c', sendSingleFragment backend.logged overflow m c = .ok () c' ∧
        Sent c [m] c') ∨
      Refuses backend m c ∧ ∃ e c', sendSingleFragment backend.logged overflow m c =
        .error (.err e) c' ∧ Sent c [] c' := by
  unfold sendSingleFragment
  rw [Fault.get_bind]
  cases hexhausted : c.recordLayer.encryptExhausted with
  | true => exact .inr ⟨.inl hexhausted, .encryptError, c, rfl, .refl c⟩
  | false =>
      rw [if_neg (by simp)]
      unfold encryptOutgoingRecord
      rw [Fault.run_bind_of_ok (debugAssert_ok fun hchecks => by simp [h hchecks]),
        Fault.run_bind_of_ok (show assert (fun c => !c.recordLayer.encryptExhausted) c = .ok () c by
          simp [assert, hexhausted])]
      cases hpush : backend.pushOutgoing m c.backend.1 with
      | error e b =>
          have hcall : onBackend (backend.logged.pushOutgoing m) c =
              .error (.err (.backendError e)) { c with backend := (b, c.backend.2) } := by
            simp only [onBackend, Backend.logged, hpush]
          rw [Fault.run_bind_of_error hcall]
          exact .inr ⟨.inr ⟨e, b, hpush⟩, _, _, rfl,
            ⟨(List.append_nil _).symm, rfl, rfl, rfl, rfl, rfl⟩⟩
      | ok u b =>
          have hcall : onBackend (backend.logged.pushOutgoing m) c =
              .ok () { c with backend := (b, c.backend.2 ++ [m]) } := by
            simp only [onBackend, Backend.logged, hpush]
          have hword : c.recordLayer.writeSeq + 1 < wordSize := by
            have hlt : c.recordLayer.writeSeq < ClientRecordLayer.seqHardLimit := by
              simpa [ClientRecordLayer.encryptExhausted] using hexhausted
            simp only [ClientRecordLayer.seqHardLimit, wordSize] at hlt ⊢
            omega
          rw [Fault.run_bind_of_ok hcall, Fault.get_bind, Fault.run_bind_of_ok
            (Fault.lift_of_ok (Overflow.add_ok_of fun _ => hword) _)]
          refine .inl ⟨?_, _, rfl, ⟨rfl, rfl, rfl, rfl, rfl, rfl⟩⟩
          rintro (htrue | ⟨e, b', herror⟩)
          · rw [hexhausted] at htrue
            cases htrue
          · rw [hpush] at herror
            cases herror

theorem Encrypts.sent {c c' : CommonState (B × List PlainMessage)} {ms : List PlainMessage}
    (h : c.Encrypts overflow) (hsent : Sent c ms c') : c'.Encrypts overflow := by
  intro hchecks
  rw [hsent.encryptState, h hchecks]

/-- Fragments are pushed in order, until one is refused. -/
theorem sendFragments_eq (backend : Backend B) {c : CommonState (B × List PlainMessage)}
    (h : c.Encrypts overflow) (ms : List PlainMessage) :
    (∃ c', sendFragments backend.logged overflow ms c = .ok () c' ∧ Sent c ms c') ∨
      ∃ e c' sent rest, sendFragments backend.logged overflow ms c = .error (.err e) c' ∧
        ms = sent ++ rest ∧ Sent c sent c' := by
  induction ms generalizing c with
  | nil => exact .inl ⟨c, rfl, .refl c⟩
  | cons m ms ih =>
      unfold sendFragments
      obtain ⟨_, c₁, hfirst, hsent⟩ | ⟨_, e, c', hfirst, hsent⟩ :=
        sendSingleFragment_eq backend h m
      · rw [Fault.run_bind_of_ok hfirst]
        obtain ⟨c', hrest, hsent'⟩ | ⟨e, c', sent, rest, hrest, rfl, hsent'⟩ := ih (h.sent hsent)
        · exact .inl ⟨c', hrest, hsent.trans hsent'⟩
        · exact .inr ⟨e, c', m :: sent, rest, hrest, rfl, hsent.trans hsent'⟩
      · rw [Fault.run_bind_of_error hfirst]
        exact .inr ⟨e, c', [], m :: ms, rfl, rfl, hsent⟩

/-- Application data, and some of it. -/
structure AppData (m : PlainMessage) : Prop where
  typ : m.typ = .applicationData
  payload : m.payload ≠ []

theorem appData_of_fragment {f : MessageFragmenter} (hpos : 0 < f.maxFrag) {data : List UInt8}
    (hdata : data ≠ []) :
    ((f.fragment ⟨.applicationData, .tlsV1_2, data⟩ []).map PlainMessage.payload).flatten = data ∧
      ∀ m ∈ f.fragment ⟨.applicationData, .tlsV1_2, data⟩ [], AppData m := by
  obtain ⟨pieces, hpieces, hflat, _⟩ :=
    MessageFragmenter.fragment_eq hpos ⟨.applicationData, .tlsV1_2, data⟩ []
  refine ⟨by rw [hpieces]; exact hflat, ?_⟩
  unfold MessageFragmenter.fragment
  split
  · intro m hm
    rw [List.mem_singleton.mp hm]
    exact ⟨rfl, hdata⟩
  · intro m hm
    obtain ⟨chunk, hchunk, rfl⟩ := List.mem_map.mp hm
    exact ⟨rfl, ne_nil_of_mem_chunks hpos hchunk⟩

/-- Application data without a payload. -/
def emptyRecord : PlainMessage := ⟨.applicationData, .tlsV1_2, []⟩

theorem fragment_emptyRecord (f : MessageFragmenter) : f.fragment emptyRecord [] = [emptyRecord] :=
  if_pos (Nat.zero_le _)

theorem sendSomePlaintext_traffic (backend : Backend B) {c : CommonState (B × List PlainMessage)}
    (hsend : c.maySendApplicationData = true) (h : c.Encrypts overflow) {data : List UInt8}
    (hdata : data ≠ []) :
    sendSomePlaintext backend.logged overflow data c =
      sendAppdataEncrypt backend.logged overflow data .yes c := by
  have hempty : data.isEmpty = false := by simpa using hdata
  unfold sendSomePlaintext sendPlain
  rw [Fault.get_bind, hsend, if_pos rfl, Fault.run_bind_of_ok (debugAssert_ok fun hchecks => by
    simp [ClientRecordLayer.isEncrypting, h hchecks]), hempty, if_neg (by simp)]

/-- Where there is room, as much as there is room for is sent in records which are not empty. -/
theorem sendSomePlaintext_room (backend : Backend B) {c : CommonState (B × List PlainMessage)}
    (hsend : c.maySendApplicationData = true) (h : c.Encrypts overflow)
    (hpos : 0 < c.messageFragmenter.maxFrag) {data : List UInt8}
    (hroom : 0 < c.sendableTls.applyLimit data.length) :
    (∃ c' ms, sendSomePlaintext backend.logged overflow data c =
        .ok (c.sendableTls.applyLimit data.length) c' ∧ Sent c ms c' ∧
        (ms.map PlainMessage.payload).flatten =
          data.take (c.sendableTls.applyLimit data.length) ∧ ∀ m ∈ ms, AppData m) ∨
      ∃ e c' ms, sendSomePlaintext backend.logged overflow data c = .error (.err e) c' ∧
        Sent c ms c' ∧ ∀ m ∈ ms, AppData m := by
  have hle := c.sendableTls.applyLimit_le data.length
  have hlen : 0 < data.length := by omega
  have htake : data.take (c.sendableTls.applyLimit data.length) ≠ [] := by
    rw [Ne, List.take_eq_nil_iff, ← List.length_eq_zero_iff]
    omega
  obtain ⟨hflat, happ⟩ := appData_of_fragment hpos htake
  rw [sendSomePlaintext_traffic backend hsend h (List.length_pos_iff.mp hlen)]
  unfold sendAppdataEncrypt
  rw [Fault.get_bind]
  obtain ⟨c', hfragments, hsent⟩ | ⟨e, c', sent, rest, hfragments, hms, hsent⟩ :=
    sendFragments_eq backend h (c.messageFragmenter.fragment ⟨.applicationData, .tlsV1_2,
      data.take (c.sendableTls.applyLimit data.length)⟩ [])
  · rw [Fault.run_bind_of_ok hfragments]
    exact .inl ⟨c', _, rfl, hsent, hflat, happ⟩
  · rw [Fault.run_bind_of_error hfragments]
    refine .inr ⟨e, c', sent, rfl, hsent, fun m hm => happ m ?_⟩
    rw [hms]
    exact List.mem_append_left _ hm

theorem sendFragments_singleton (m : PlainMessage) :
    sendFragments backend overflow [m] = sendSingleFragment backend overflow m := by
  funext c
  simp only [sendFragments]
  cases h : sendSingleFragment backend overflow m c with
  | ok u c' => exact Fault.run_bind_of_ok h
  | error e c' => exact Fault.run_bind_of_error h

/-- Where there is none, an empty record is sent. -/
theorem sendSomePlaintext_full (backend : Backend B) {c : CommonState (B × List PlainMessage)}
    (hsend : c.maySendApplicationData = true) (h : c.Encrypts overflow) {data : List UInt8}
    (hdata : data ≠ []) (hfull : c.sendableTls.applyLimit data.length = 0) :
    sendSomePlaintext backend.logged overflow data c =
      (do
        sendSingleFragment backend.logged overflow emptyRecord
        return 0) c := by
  rw [sendSomePlaintext_traffic backend hsend h hdata]
  unfold sendAppdataEncrypt
  rw [Fault.get_bind]
  simp only [hfull, List.take_zero]
  rw [show (⟨.applicationData, .tlsV1_2, []⟩ : PlainMessage) = emptyRecord from rfl,
    fragment_emptyRecord, sendFragments_singleton]

/-- Before the handshake is complete, plaintext is kept up to the limit. -/
theorem sendSomePlaintext_handshake (backend : Backend B) (overflow : Overflow)
    {c : CommonState (B × List PlainMessage)} (hsend : c.maySendApplicationData = false)
    (data : List UInt8) :
    sendSomePlaintext backend.logged overflow data c =
      .ok (c.sendablePlaintext.applyLimit data.length)
        { c with sendablePlaintext := (c.sendablePlaintext.appendLimitedCopy data).2 } := by
  unfold sendSomePlaintext sendPlain
  rw [Fault.get_bind, hsend, if_neg (by simp)]
  rfl

end CommonState

namespace Connection

open CommonState (Sent AppData Encrypts emptyRecord)

variable {B P H D : Type} {backend : Backend B} {handler : Handler (B × List PlainMessage) P H D}
  {overflow : Overflow}

/-- What was pushed to the backend. -/
def log (conn : Connection (B × List PlainMessage) P H D) : List PlainMessage :=
  conn.common.backend.2

/-- A phase in which nothing is to be done before a write. -/
def Writable {C : Type} (handler : Handler C P H D) (conn : Connection C P H D) : Prop :=
  ∀ state, conn.state = .ok state → handler.updatesKeys state = false

theorem writePlaintext_of_writable {conn : Connection (B × List PlainMessage) P H D}
    (h : Writable handler conn) (buf : List UInt8) :
    writePlaintext backend.logged handler overflow buf conn =
      onCommon (CommonState.sendSomePlaintext backend.logged overflow buf) conn := by
  have hupdate : perhapsWriteKeyUpdate handler conn = .ok () conn := by
    unfold perhapsWriteKeyUpdate
    split
    · rename_i state hstate
      rw [h state hstate, if_neg (by simp)]
    · rfl
  rw [writePlaintext, Fault.run_bind_of_ok hupdate]

theorem writePlaintext_of_not_writable {conn : Connection (B × List PlainMessage) P H D}
    (h : ¬ Writable handler conn) (buf : List UInt8) :
    writePlaintext backend.logged handler overflow buf conn = .error .panic conn := by
  unfold Writable at h
  push Not at h
  obtain ⟨state, hstate, hupdates⟩ := h
  have hupdate : perhapsWriteKeyUpdate handler conn = .error .panic conn := by
    unfold perhapsWriteKeyUpdate
    rw [hstate]
    exact if_pos (by simpa using hupdates)
  rw [writePlaintext, Fault.run_bind_of_error hupdate]

theorem onCommon_of_ok {C α : Type} {x : CommonState.Op C α} {conn : Connection C P H D} {a : α}
    {c : CommonState C} (h : x conn.common = .ok a c) :
    onCommon x conn = .ok a { conn with common := c } := by
  simp only [onCommon, Fault.zoom, h]

theorem onCommon_of_error {C α : Type} {x : CommonState.Op C α} {conn : Connection C P H D}
    {e : Fault Error} {c : CommonState C} (h : x conn.common = .error e c) :
    onCommon x conn = .error e { conn with common := c } := by
  simp only [onCommon, Fault.zoom, h]

/-- What is asked of a call: it comes to an end; what it returned it accepted, once and in order;
and no record is empty. -/
inductive Accepts (conn : Connection (B × List PlainMessage) P H D) (buf : List UInt8) :
    EStateM.Result (Fault Error) (Connection (B × List PlainMessage) P H D) Nat → Prop
  | kept {conn' : Connection (B × List PlainMessage) P H D}
      (hsend : conn.common.maySendApplicationData = false) (hlog : conn'.log = conn.log)
      (hbytes : conn'.common.sendablePlaintext.chunks.flatten =
        conn.common.sendablePlaintext.chunks.flatten ++ buf) :
      Accepts conn buf (.ok buf.length conn')
  | sent {conn' : Connection (B × List PlainMessage) P H D} {ms : List PlainMessage}
      (hsend : conn.common.maySendApplicationData = true) (hlog : conn'.log = conn.log ++ ms)
      (hbytes : (ms.map PlainMessage.payload).flatten = buf) (happ : ∀ m ∈ ms, AppData m) :
      Accepts conn buf (.ok buf.length conn')
  | failed {conn' : Connection (B × List PlainMessage) P H D} {e : Error} {ms : List PlainMessage}
      (hlog : conn'.log = conn.log ++ ms) (happ : ∀ m ∈ ms, AppData m) :
      Accepts conn buf (.error (.err e) conn')

def WritesAll (backend : Backend B) (handler : Handler (B × List PlainMessage) P H D)
    (overflow : Overflow) (conn : Connection (B × List PlainMessage) P H D) (buf : List UInt8) :
    Prop :=
  ∃ fuel r, writeAllPlaintext backend.logged handler overflow fuel buf conn = some r ∧
    Accepts conn buf r

/-- Before the handshake is complete there is room for the whole buffer; after it, for a byte at
least, or nothing can be sent at all. -/
def Fits (backend : Backend B) (overflow : Overflow) (c : CommonState (B × List PlainMessage))
    (buf : List UInt8) : Prop :=
  if c.maySendApplicationData then
    c.Encrypts overflow ∧
      (0 < c.sendableTls.applyLimit buf.length ∨ CommonState.Refuses backend emptyRecord c)
  else c.sendablePlaintext.applyLimit buf.length = buf.length

/-! ## After the loop -/

/-- What queueing records for the peer leaves alone. -/
structure SameSent (conn conn' : Connection (B × List PlainMessage) P H D) : Prop where
  log : conn'.log = conn.log
  plaintext : conn'.common.sendablePlaintext = conn.common.sendablePlaintext

theorem SameSent.trans {conn conn' conn'' : Connection (B × List PlainMessage) P H D}
    (h : SameSent conn conn') (h' : SameSent conn' conn'') : SameSent conn conn'' :=
  ⟨h'.log.trans h.log, h'.plaintext.trans h.plaintext⟩

theorem flush_eq (backend : Backend B) (conn : Connection (B × List PlainMessage) P H D) :
    (∃ conn', flush backend.logged conn = .ok () conn' ∧ SameSent conn conn') ∨
      ∃ e conn', flush backend.logged conn = .error (.err e) conn' ∧ SameSent conn conn' := by
  cases h : backend.flush conn.common.backend.1 with
  | ok u b =>
      refine .inl ⟨{ conn with
          common := { conn.common with backend := (b, conn.common.backend.2) } },
        onCommon_of_ok ?_, ⟨rfl, rfl⟩⟩
      simp only [CommonState.onBackend, Backend.logged, Fault.onFst, h]
  | error e b =>
      refine .inr ⟨.backendError e, { conn with
        common := { conn.common with backend := (b, conn.common.backend.2) } },
        onCommon_of_error ?_, ⟨rfl, rfl⟩⟩
      simp only [CommonState.onBackend, Backend.logged, Fault.onFst, h]

theorem outgoingRound_spec (backend : Backend B) (conn : Connection (B × List PlainMessage) P H D) :
    LoopM.RoundSpec
      (fun _ conn' => SameSent conn conn' ∧ ∃ m,
        backend.nextOutgoing conn.common.backend.1 = .ok (some m) conn'.common.backend.1)
      (fun _ conn' => SameSent conn conn')
      (fun e conn' => (∃ e', e = .err e') ∧ SameSent conn conn')
      (outgoingRound backend.logged () conn) := by
  cases h : backend.nextOutgoing conn.common.backend.1 with
  | ok next b =>
      have hnext : nextOutgoing backend.logged conn = .ok next { conn with
          common := { conn.common with backend := (b, conn.common.backend.2) } } := by
        refine onCommon_of_ok ?_
        simp only [CommonState.onBackend, Backend.logged, Fault.onFst, h]
      rw [outgoingRound, Fault.run_bind_of_ok hnext]
      cases next with
      | none => exact .done ⟨rfl, rfl⟩
      | some m => exact .next ⟨⟨rfl, rfl⟩, m, rfl⟩
  | error e b =>
      have hnext : nextOutgoing backend.logged conn = .error (.err (.backendError e)) { conn with
          common := { conn.common with backend := (b, conn.common.backend.2) } } := by
        refine onCommon_of_error ?_
        simp only [CommonState.onBackend, Backend.logged, Fault.onFst, h]
      rw [outgoingRound, Fault.run_bind_of_error hnext]
      exact .fails ⟨⟨_, rfl⟩, rfl, rfl⟩

/-- Records are handed out until there are none, or the backend fails. -/
theorem drainOutgoing_spec (hdrains : backend.Drains)
    (conn : Connection (B × List PlainMessage) P H D) :
    ∃ fuel r, LoopM.loop fuel (outgoingRound backend.logged) () conn = some r ∧
      LoopM.LoopSpec (fun _ conn' => SameSent conn conn')
        (fun e conn' => (∃ e', e = .err e') ∧ SameSent conn conn') r := by
  obtain ⟨pending, hpending⟩ := hdrains
  refine LoopM.loop_total (fun _ conn' => SameSent conn conn')
    (fun _ conn' => pending conn'.common.backend.1) ?_ ⟨rfl, rfl⟩
  intro _ conn₁ hsame
  have hspec : LoopM.RoundSpec _ _ _ (outgoingRound backend.logged () conn₁) :=
    outgoingRound_spec backend conn₁
  generalize outgoingRound backend.logged () conn₁ = r at hspec
  cases hspec with
  | next h =>
      obtain ⟨hsame', m, hm⟩ := h
      exact .next ⟨hsame.trans hsame', hpending _ _ _ hm⟩
  | done h => exact .done (hsame.trans h)
  | fails h => exact .fails ⟨h.1, hsame.trans h.2⟩

/-! ## The loop -/

theorem writeRound_of_lt {conn : Connection (B × List PlainMessage) P H D} {buf : List UInt8}
    {pos : Nat} (h : pos < buf.length) :
    writeRound backend.logged handler overflow buf pos conn =
      (do
        let n ← writePlaintext backend.logged handler overflow (buf.drop pos)
        return (.next (pos + n) : Round Nat Nat)) conn := by
  rw [writeRound, if_pos h]

theorem writeRound_of_eq {conn : Connection (B × List PlainMessage) P H D} {buf : List UInt8} :
    writeRound backend.logged handler overflow buf buf.length conn =
      .ok (.done buf.length) conn := by
  rw [writeRound, if_neg (Nat.lt_irrefl _)]
  rfl

/-- The first `pos` bytes were sent, in records which are not empty. -/
structure Sending (conn : Connection (B × List PlainMessage) P H D) (buf : List UInt8) (pos : Nat)
    (conn' : Connection (B × List PlainMessage) P H D) : Prop where
  le : pos ≤ buf.length
  state : conn'.state = conn.state
  sent : ∃ ms, Sent conn.common ms conn'.common ∧
    (ms.map PlainMessage.payload).flatten = buf.take pos ∧ ∀ m ∈ ms, AppData m

theorem applyLimit_pos {b : ChunkVecBuffer} {n m : Nat} (h : 0 < b.applyLimit n) (hm : 0 < m) :
    0 < b.applyLimit m := by
  unfold ChunkVecBuffer.applyLimit at h ⊢
  split
  · rename_i limit hlimit
    rw [hlimit] at h
    simp only at h
    omega
  · exact hm

/-- Where there is room each round sends something. -/
theorem writeRound_room (backend : Backend B) {conn : Connection (B × List PlainMessage) P H D}
    {buf : List UInt8} (hwritable : Writable handler conn)
    (hsend : conn.common.maySendApplicationData = true)
    (hencrypts : conn.common.Encrypts overflow)
    (hpos : 0 < conn.common.messageFragmenter.maxFrag)
    (hroom : 0 < conn.common.sendableTls.applyLimit buf.length) {pos : Nat}
    {conn' : Connection (B × List PlainMessage) P H D} (h : Sending conn buf pos conn') :
    LoopM.RoundSpec
      (fun pos' conn'' => Sending conn buf pos' conn'' ∧ buf.length - pos' < buf.length - pos)
      (fun n conn'' => n = buf.length ∧ Sending conn buf n conn'')
      (fun e conn'' => (∃ e', e = .err e') ∧ ∃ ms, Sent conn.common ms conn''.common ∧
        ∀ m ∈ ms, AppData m)
      (writeRound backend.logged handler overflow buf pos conn') := by
  obtain ⟨hle, hstate, ms, hsent, hbytes, happ⟩ := h
  obtain hlt | rfl := Nat.lt_or_eq_of_le hle
  · rw [writeRound_of_lt hlt]
    have hrest : 0 < (buf.drop pos).length := by
      rw [List.length_drop]
      omega
    have hwritable' : Writable handler conn' := fun state h => hwritable state (hstate ▸ h)
    have hmore : 0 < conn'.common.sendableTls.applyLimit (buf.drop pos).length := by
      rw [hsent.tls]
      exact applyLimit_pos hroom hrest
    have hlimit := conn'.common.sendableTls.applyLimit_le (buf.drop pos).length
    obtain ⟨c, ms', hok, hsent', hbytes', happ'⟩ | ⟨e, c, ms', herror, hsent', happ'⟩ :=
      CommonState.sendSomePlaintext_room backend (hsent.maySend.trans hsend)
        (hencrypts.sent hsent) (by rw [hsent.fragmenter]; exact hpos) hmore
    · have hwrite := (writePlaintext_of_writable hwritable' (buf.drop pos)).trans
        (onCommon_of_ok hok)
      rw [Fault.run_bind_of_ok hwrite]
      rw [List.length_drop] at hlimit hmore
      simp only [List.length_drop] at hbytes' ⊢
      refine .next ⟨⟨by omega, hstate, ms ++ ms', hsent.trans hsent', ?_, ?_⟩, by omega⟩
      · rw [List.map_append, List.flatten_append, hbytes, hbytes', ← List.take_add]
      · exact List.forall_mem_append.mpr ⟨happ, happ'⟩
    · have hwrite := (writePlaintext_of_writable hwritable' (buf.drop pos)).trans
        (onCommon_of_error herror)
      rw [Fault.run_bind_of_error hwrite]
      exact .fails ⟨⟨e, rfl⟩, ms ++ ms', hsent.trans hsent',
        List.forall_mem_append.mpr ⟨happ, happ'⟩⟩
  · rw [writeRound_of_eq]
    exact .done ⟨rfl, hle, hstate, ms, hsent, hbytes, happ⟩

/-- Where there is none, a round either sends an empty record or fails. -/
theorem writeRound_full (backend : Backend B) {conn : Connection (B × List PlainMessage) P H D}
    {buf : List UInt8} (hwritable : Writable handler conn)
    (hsend : conn.common.maySendApplicationData = true)
    (hencrypts : conn.common.Encrypts overflow) (hbuf : buf ≠ [])
    (hfull : conn.common.sendableTls.applyLimit buf.length = 0)
    {conn' : Connection (B × List PlainMessage) P H D} (hstate : conn'.state = conn.state)
    {ms : List PlainMessage} (hsent : Sent conn.common ms conn'.common) :
    writeRound backend.logged handler overflow buf 0 conn' =
      (do
        onCommon (CommonState.sendSingleFragment backend.logged overflow emptyRecord)
        return (.next 0 : Round Nat Nat)) conn' := by
  have hwritable' : Writable handler conn' := fun state h => hwritable state (hstate ▸ h)
  have hround := CommonState.sendSomePlaintext_full backend
    (hsent.maySend.trans hsend) (hencrypts.sent hsent) hbuf (by rw [hsent.tls]; exact hfull)
  rw [writeRound_of_lt (List.length_pos_iff.mpr hbuf), List.drop_zero]
  cases hfirst : CommonState.sendSingleFragment backend.logged overflow emptyRecord
      conn'.common with
  | ok u c =>
      rw [Fault.run_bind_of_ok hfirst] at hround
      rw [Fault.run_bind_of_ok ((writePlaintext_of_writable hwritable' buf).trans
        (onCommon_of_ok hround)), Fault.run_bind_of_ok (onCommon_of_ok hfirst)]
  | error e c =>
      rw [Fault.run_bind_of_error hfirst] at hround
      rw [Fault.run_bind_of_error ((writePlaintext_of_writable hwritable' buf).trans
        (onCommon_of_error hround)), Fault.run_bind_of_error (onCommon_of_error hfirst)]

/-! ## The whole call -/

theorem writeAll_of_error {fuel : Nat} {buf : List UInt8}
    {conn conn' : Connection (B × List PlainMessage) P H D} {e : Fault Error}
    (h : LoopM.loop fuel (writeRound backend.logged handler overflow buf) 0 conn =
      some (.error e conn')) :
    writeAllPlaintext backend.logged handler overflow fuel buf conn = some (.error e conn') :=
  LoopM.bind_of_error h

theorem writeAll_of_ok (hdrains : backend.Drains) {fuel pos : Nat} {buf : List UInt8}
    {conn conn' : Connection (B × List PlainMessage) P H D}
    (h : LoopM.loop fuel (writeRound backend.logged handler overflow buf) 0 conn =
      some (.ok pos conn')) :
    ∃ fuel' r, writeAllPlaintext backend.logged handler overflow fuel' buf conn = some r ∧
      LoopM.LoopSpec (fun n conn'' => n = pos ∧ SameSent conn' conn'')
        (fun e conn'' => (∃ e', e = .err e') ∧ SameSent conn' conn'') r := by
  obtain ⟨conn₁, hflush, hsame⟩ | ⟨e, conn₁, hflush, hsame⟩ :=
    flush_eq backend conn'
  · obtain ⟨fuel₁, r, hdrain, hspec⟩ := drainOutgoing_spec hdrains conn₁
    have hstart {β : Type}
        (f : Nat → LoopM (Fault Error) (Connection (B × List PlainMessage) P H D) β) :
        (LoopM.loop (max fuel fuel₁) (writeRound backend.logged handler overflow buf) 0 >>= f)
          conn = f pos conn' := LoopM.bind_of_ok (Loop.run_mono (Nat.le_max_left _ _) h)
    have hlast : LoopM.loop (max fuel fuel₁) (outgoingRound backend.logged) () conn₁ = some r :=
      Loop.run_mono (Nat.le_max_right _ _) hdrain
    cases hspec with
    | @done u conn₂ hsame' =>
        refine ⟨max fuel fuel₁, .ok pos conn₂, ?_, .done ⟨rfl, hsame.trans hsame'⟩⟩
        exact (hstart _).trans ((LoopM.bind_of_ok (congrArg some hflush)).trans
          (LoopM.bind_of_ok hlast))
    | @fails e conn₂ hfails =>
        refine ⟨max fuel fuel₁, .error e conn₂, ?_, .fails ⟨hfails.1, hsame.trans hfails.2⟩⟩
        exact (hstart _).trans ((LoopM.bind_of_ok (congrArg some hflush)).trans
          (LoopM.bind_of_error hlast))
  · refine ⟨fuel, .error (.err e) conn₁, ?_, .fails ⟨⟨e, rfl⟩, hsame⟩⟩
    exact (LoopM.bind_of_ok h).trans (LoopM.bind_of_error (congrArg some hflush))

theorem Accepts.of_kept {conn conn' : Connection (B × List PlainMessage) P H D} {buf : List UInt8}
    (hsend : conn.common.maySendApplicationData = false) (hlog : conn'.log = conn.log)
    (hbytes : conn'.common.sendablePlaintext.chunks.flatten =
      conn.common.sendablePlaintext.chunks.flatten ++ buf)
    {r : EStateM.Result (Fault Error) (Connection (B × List PlainMessage) P H D) Nat}
    (h : LoopM.LoopSpec (fun n conn'' => n = buf.length ∧ SameSent conn' conn'')
      (fun e conn'' => (∃ e', e = .err e') ∧ SameSent conn' conn'') r) : Accepts conn buf r := by
  cases h with
  | done h =>
      obtain ⟨rfl, hsame⟩ := h
      exact .kept hsend (hsame.log.trans hlog) (by rw [hsame.plaintext, hbytes])
  | fails h =>
      obtain ⟨⟨e, rfl⟩, hsame⟩ := h
      refine .failed ?_ (fun m (hm : m ∈ []) => absurd hm List.not_mem_nil)
      rw [hsame.log, hlog, List.append_nil]

theorem Accepts.of_sent {conn conn' : Connection (B × List PlainMessage) P H D} {buf : List UInt8}
    {ms : List PlainMessage} (hsend : conn.common.maySendApplicationData = true)
    (hlog : conn'.log = conn.log ++ ms) (hbytes : (ms.map PlainMessage.payload).flatten = buf)
    (happ : ∀ m ∈ ms, AppData m)
    {r : EStateM.Result (Fault Error) (Connection (B × List PlainMessage) P H D) Nat}
    (h : LoopM.LoopSpec (fun n conn'' => n = buf.length ∧ SameSent conn' conn'')
      (fun e conn'' => (∃ e', e = .err e') ∧ SameSent conn' conn'') r) : Accepts conn buf r := by
  cases h with
  | done h =>
      obtain ⟨rfl, hsame⟩ := h
      exact .sent hsend (hsame.log.trans hlog) hbytes happ
  | fails h =>
      obtain ⟨⟨e, rfl⟩, hsame⟩ := h
      exact .failed (hsame.log.trans hlog) happ

variable {conn : Connection (B × List PlainMessage) P H D} {buf : List UInt8}

theorem writesAll_nil (hdrains : backend.Drains) : WritesAll backend handler overflow conn [] := by
  have hround : writeRound backend.logged handler overflow [] 0 conn = .ok (.done 0) conn :=
    writeRound_of_eq
  obtain ⟨fuel, r, hrun, hspec⟩ := writeAll_of_ok hdrains (LoopM.loop_of_done hround 0)
  refine ⟨fuel, r, hrun, ?_⟩
  cases hsend : conn.common.maySendApplicationData with
  | true => exact .of_sent hsend (List.append_nil _).symm rfl (fun m hm => nomatch hm) hspec
  | false => exact .of_kept hsend rfl (List.append_nil _).symm hspec

theorem writesAll_room (hdrains : backend.Drains) (hwritable : Writable handler conn)
    (hsend : conn.common.maySendApplicationData = true) (hencrypts : conn.common.Encrypts overflow)
    (hpos : 0 < conn.common.messageFragmenter.maxFrag)
    (hroom : 0 < conn.common.sendableTls.applyLimit buf.length) :
    WritesAll backend handler overflow conn buf := by
  obtain ⟨fuel, r, hloop, hspec⟩ := LoopM.loop_total (Sending conn buf)
    (fun pos _ => buf.length - pos)
    (fun pos conn' h => writeRound_room backend hwritable hsend hencrypts hpos hroom h)
    ⟨Nat.zero_le _, rfl, [], .refl _, rfl, fun m hm => nomatch hm⟩
  cases hspec with
  | @done n conn' h =>
      obtain ⟨rfl, -, -, ms, hsent, hbytes, happ⟩ := h
      obtain ⟨fuel', r, hrun, hspec⟩ := writeAll_of_ok hdrains hloop
      rw [List.take_length] at hbytes
      exact ⟨fuel', r, hrun, .of_sent hsend hsent.log hbytes happ hspec⟩
  | @fails e conn' h =>
      obtain ⟨⟨e, rfl⟩, ms, hsent, happ⟩ := h
      exact ⟨fuel, _, writeAll_of_error hloop, .failed hsent.log happ⟩

theorem writesAll_refused (hwritable : Writable handler conn)
    (hsend : conn.common.maySendApplicationData = true) (hencrypts : conn.common.Encrypts overflow)
    (hbuf : buf ≠ []) (hfull : conn.common.sendableTls.applyLimit buf.length = 0)
    (hrefuses : CommonState.Refuses backend emptyRecord conn.common) :
    WritesAll backend handler overflow conn buf := by
  obtain ⟨hnot, _⟩ | ⟨_, e, c, hfirst, hsent⟩ :=
    CommonState.sendSingleFragment_eq backend hencrypts emptyRecord
  · exact absurd hrefuses hnot
  · have hround := writeRound_full backend hwritable hsend hencrypts hbuf hfull rfl
      (.refl conn.common)
    rw [Fault.run_bind_of_error (onCommon_of_error hfirst)] at hround
    exact ⟨1, _, writeAll_of_error (LoopM.loop_of_error hround 0),
      .failed hsent.log fun m (hm : m ∈ []) => nomatch hm⟩

theorem writeRound_handshake (backend : Backend B) (overflow : Overflow)
    (hwritable : Writable handler conn) (hsend : conn.common.maySendApplicationData = false)
    {pos : Nat} (hlt : pos < buf.length) :
    writeRound backend.logged handler overflow buf pos conn =
      .ok (.next (pos + conn.common.sendablePlaintext.applyLimit (buf.length - pos)))
        { conn with common := { conn.common with
          sendablePlaintext :=
            (conn.common.sendablePlaintext.appendLimitedCopy (buf.drop pos)).2 } } := by
  have hwrite := (writePlaintext_of_writable hwritable (buf.drop pos)).trans
    (onCommon_of_ok (CommonState.sendSomePlaintext_handshake backend overflow hsend (buf.drop pos)))
  rw [List.length_drop] at hwrite
  rw [writeRound_of_lt hlt, Fault.run_bind_of_ok hwrite]
  rfl

theorem writesAll_handshake (hdrains : backend.Drains) (hwritable : Writable handler conn)
    (hsend : conn.common.maySendApplicationData = false) (hbuf : buf ≠ [])
    (hfits : conn.common.sendablePlaintext.applyLimit buf.length = buf.length) :
    WritesAll backend handler overflow conn buf := by
  have hround := writeRound_handshake backend overflow hwritable hsend
    (List.length_pos_iff.mpr hbuf)
  rw [Nat.sub_zero, hfits, Nat.zero_add] at hround
  have hloop : LoopM.loop 2 (writeRound backend.logged handler overflow buf) 0 conn =
      some (.ok buf.length { conn with common := { conn.common with
        sendablePlaintext :=
          (conn.common.sendablePlaintext.appendLimitedCopy (buf.drop 0)).2 } }) :=
    (LoopM.loop_of_next hround 1).trans (LoopM.loop_of_done writeRound_of_eq 0)
  obtain ⟨fuel, r, hrun, hspec⟩ := writeAll_of_ok hdrains hloop
  refine ⟨fuel, r, hrun, .of_kept hsend ?_ ?_ hspec⟩
  · rfl
  simp only [ChunkVecBuffer.appendLimitedCopy, List.drop_zero]
  rw [ChunkVecBuffer.flatten_append, hfits, List.take_length]

/-! ## What a call cannot do -/

theorem writeAll_of_none {fuel : Nat}
    (h : LoopM.loop fuel (writeRound backend.logged handler overflow buf) 0 conn = none) :
    writeAllPlaintext backend.logged handler overflow fuel buf conn = none := LoopM.bind_of_none h

/-- A call whose first round aborts. -/
theorem not_writesAll_of_panic {conn' : Connection (B × List PlainMessage) P H D}
    (h : writeRound backend.logged handler overflow buf 0 conn = .error .panic conn') :
    ¬ WritesAll backend handler overflow conn buf := by
  rintro ⟨fuel, r, hrun, haccepts⟩
  cases fuel with
  | zero =>
      have hnone : writeAllPlaintext backend.logged handler overflow 0 buf conn = none :=
        writeAll_of_none rfl
      rw [hnone] at hrun
      cases hrun
  | succ fuel =>
      rw [writeAll_of_error (LoopM.loop_of_error h fuel)] at hrun
      cases hrun
      cases haccepts

/-- Plaintext for which there is no room is asked for again and again. -/
theorem writeAll_diverges (hwritable : Writable handler conn)
    (hsend : conn.common.maySendApplicationData = false)
    (hfits : conn.common.sendablePlaintext.applyLimit buf.length ≠ buf.length) (fuel : Nat) :
    writeAllPlaintext backend.logged handler overflow fuel buf conn = none := by
  refine writeAll_of_none (LoopM.loop_diverges (fun pos conn' => conn'.state = conn.state ∧
    conn'.common.maySendApplicationData = false ∧ ∃ limit,
      conn'.common.sendablePlaintext.limit = some limit ∧
        limit - conn'.common.sendablePlaintext.len < buf.length - pos) ?_ ?_ fuel)
  · rintro pos conn' ⟨hstate, hsend', limit, hlimit, hspace⟩
    have hwritable' : Writable handler conn' := fun state h => hwritable state (hstate ▸ h)
    have htaken : conn'.common.sendablePlaintext.applyLimit (buf.length - pos) =
        limit - conn'.common.sendablePlaintext.len := by
      simp only [ChunkVecBuffer.applyLimit, hlimit]
      omega
    refine ⟨_, _, writeRound_handshake backend overflow hwritable' hsend' (by omega),
      hstate, hsend', limit, (ChunkVecBuffer.limit_appendLimitedCopy _ _).trans hlimit, ?_⟩
    simp only
    rw [ChunkVecBuffer.len_appendLimitedCopy, List.length_drop, htaken]
    omega
  · refine ⟨rfl, hsend, ?_⟩
    cases hlimit : conn.common.sendablePlaintext.limit with
    | none => exact absurd (by simp only [ChunkVecBuffer.applyLimit, hlimit]) hfits
    | some limit =>
        refine ⟨limit, rfl, ?_⟩
        simp only [ChunkVecBuffer.applyLimit, hlimit] at hfits
        omega

/-- When there is no room for a byte, what is pushed are empty records. -/
theorem not_writesAll_of_full (hwritable : Writable handler conn)
    (hsend : conn.common.maySendApplicationData = true) (hencrypts : conn.common.Encrypts overflow)
    (hbuf : buf ≠ []) (hfull : conn.common.sendableTls.applyLimit buf.length = 0)
    (hrefuses : ¬ CommonState.Refuses backend emptyRecord conn.common) :
    ¬ WritesAll backend handler overflow conn buf := by
  rintro ⟨fuel, r, hrun, haccepts⟩
  obtain ⟨_, c, hfirst, hsent⟩ | ⟨h, _⟩ :=
    CommonState.sendSingleFragment_eq backend hencrypts emptyRecord
  swap
  · exact hrefuses h
  have hround := writeRound_full backend hwritable hsend hencrypts hbuf hfull rfl
    (.refl conn.common)
  rw [Fault.run_bind_of_ok (onCommon_of_ok hfirst)] at hround
  cases fuel with
  | zero =>
      have hnone : writeAllPlaintext backend.logged handler overflow 0 buf conn = none :=
        writeAll_of_none rfl
      rw [hnone] at hrun
      cases hrun
  | succ fuel =>
      cases hloop : LoopM.loop fuel (writeRound backend.logged handler overflow buf) 0
          { conn with common := c } with
      | none =>
          rw [writeAll_of_none ((LoopM.loop_of_next hround fuel).trans hloop)] at hrun
          cases hrun
      | some r' =>
          have hspec := LoopM.loop_partial
            (fun pos conn' => pos = 0 ∧ conn'.state = conn.state ∧
              ∃ ms, emptyRecord ∈ ms ∧ Sent conn.common ms conn'.common)
            (Q := fun _ _ => False)
            (E := fun _ conn' => ∃ ms, emptyRecord ∈ ms ∧ Sent conn.common ms conn'.common)
            ?_ ⟨rfl, rfl, [emptyRecord], List.mem_singleton_self _, hsent⟩ hloop
          · cases hspec with
            | done h => exact h
            | @fails e conn' h =>
                obtain ⟨ms, hempty, hsent'⟩ := h
                rw [writeAll_of_error ((LoopM.loop_of_next hround fuel).trans hloop)] at hrun
                cases hrun
                cases haccepts with
                | failed hlog happ =>
                    have hms := List.append_cancel_left (hlog.symm.trans hsent'.log)
                    rw [hms] at happ
                    exact (happ _ hempty).payload rfl
          · rintro pos conn' ⟨rfl, hstate, ms, hempty, hsent'⟩
            rw [writeRound_full backend hwritable hsend hencrypts hbuf hfull hstate hsent']
            obtain ⟨_, c', hnext, hsent''⟩ | ⟨_, e, c', hnext, hsent''⟩ :=
              CommonState.sendSingleFragment_eq backend (hencrypts.sent hsent') emptyRecord
            · rw [Fault.run_bind_of_ok (onCommon_of_ok hnext)]
              exact .next ⟨rfl, hstate, ms ++ [emptyRecord], List.mem_append_left _ hempty,
                hsent'.trans hsent''⟩
            · rw [Fault.run_bind_of_error (onCommon_of_error hnext)]
              exact .fails ⟨ms ++ [], List.mem_append_left _ hempty, hsent'.trans hsent''⟩

theorem writeRound_not_writable (hwritable : ¬ Writable handler conn) (hbuf : buf ≠ []) :
    writeRound backend.logged handler overflow buf 0 conn = .error .panic conn := by
  rw [writeRound_of_lt (List.length_pos_iff.mpr hbuf),
    Fault.run_bind_of_error (writePlaintext_of_not_writable hwritable _)]

theorem writeRound_not_encrypting (hwritable : Writable handler conn)
    (hsend : conn.common.maySendApplicationData = true)
    (hencrypts : ¬ conn.common.Encrypts overflow) (hbuf : buf ≠ []) :
    writeRound backend.logged handler overflow buf 0 conn = .error .panic conn := by
  unfold Encrypts at hencrypts
  push Not at hencrypts
  obtain ⟨rfl, hstate⟩ := hencrypts
  have hsome : CommonState.sendSomePlaintext backend.logged .checks (buf.drop 0) conn.common =
      .error .panic conn.common := by
    unfold CommonState.sendSomePlaintext CommonState.sendPlain
    rw [Fault.get_bind, hsend, if_pos rfl]
    refine Fault.run_bind_of_error ?_
    simp [CommonState.debugAssert, ClientRecordLayer.isEncrypting, hstate]
  rw [writeRound_of_lt (List.length_pos_iff.mpr hbuf),
    Fault.run_bind_of_error ((writePlaintext_of_writable hwritable _).trans
      (onCommon_of_error hsome))]

/-- A whole buffer is written, or the call fails, exactly when there is room for it. -/
theorem writesAll_iff (backend : Backend B) (hdrains : backend.Drains)
    (handler : Handler (B × List PlainMessage) P H D) (overflow : Overflow)
    (conn : Connection (B × List PlainMessage) P H D)
    (hfragmenter : ∃ size, MessageFragmenter.new size = .ok conn.common.messageFragmenter)
    (buf : List UInt8) :
    WritesAll backend handler overflow conn buf ↔
      buf ≠ [] → Writable handler conn ∧ Fits backend overflow conn.common buf := by
  obtain ⟨size, hsize⟩ := hfragmenter
  have hpos : 0 < conn.common.messageFragmenter.maxFrag :=
    Nat.lt_of_lt_of_le (by decide) (MessageFragmenter.new_ok hsize).1
  by_cases hbuf : buf = []
  · rw [hbuf]
    exact iff_of_true (writesAll_nil hdrains) fun h => absurd rfl h
  by_cases hwritable : Writable handler conn
  swap
  · refine iff_of_false (not_writesAll_of_panic (writeRound_not_writable hwritable hbuf)) ?_
    exact fun h => hwritable (h hbuf).1
  unfold Fits
  cases hsend : conn.common.maySendApplicationData with
  | true =>
      rw [if_pos rfl]
      by_cases hencrypts : conn.common.Encrypts overflow
      swap
      · refine iff_of_false (not_writesAll_of_panic
          (writeRound_not_encrypting hwritable hsend hencrypts hbuf)) ?_
        exact fun h => hencrypts (h hbuf).2.1
      by_cases hroom : 0 < conn.common.sendableTls.applyLimit buf.length
      · exact iff_of_true (writesAll_room hdrains hwritable hsend hencrypts hpos hroom)
          fun _ => ⟨hwritable, hencrypts, .inl hroom⟩
      have hfull := Nat.eq_zero_of_not_pos hroom
      by_cases hrefuses : CommonState.Refuses backend emptyRecord conn.common
      · exact iff_of_true (writesAll_refused hwritable hsend hencrypts hbuf hfull hrefuses)
          fun _ => ⟨hwritable, hencrypts, .inr hrefuses⟩
      · refine iff_of_false
          (not_writesAll_of_full hwritable hsend hencrypts hbuf hfull hrefuses) ?_
        exact fun h => (h hbuf).2.2.elim hroom hrefuses
  | false =>
      rw [if_neg (by simp)]
      by_cases hfits : conn.common.sendablePlaintext.applyLimit buf.length = buf.length
      · exact iff_of_true (writesAll_handshake hdrains hwritable hsend hbuf hfits)
          fun _ => ⟨hwritable, hfits⟩
      · refine iff_of_false ?_ fun h => hfits (h hbuf).2
        rintro ⟨fuel, r, hrun, _⟩
        rw [writeAll_diverges hwritable hsend hfits fuel] at hrun
        cases hrun

/-- A connection before its handshake, whose buffers hold as much as they are told. -/
def beforeHandshake {B : Type} (backend : B) (limit : Option Nat) :
    Connection (B × List PlainMessage) (List UInt8) Unit Unit :=
  ⟨.ok (), (), (idleCommon (backend, [])).setBufferLimit limit, .new, .new⟩

/-- The same one, as if its handshake were over. -/
def afterHandshake {B : Type} (backend : B) (limit : Option Nat) :
    Connection (B × List PlainMessage) (List UInt8) Unit Unit :=
  { beforeHandshake backend limit with
    common := { (beforeHandshake backend limit).common with
      maySendApplicationData := true
      recordLayer := ⟨0, 0, .active, .active, none⟩ } }

/-- The plain backend, which has no cipher yet. -/
def plainBackend : Backend RustCryptoBackend :=
  RustCryptoBackend.backend ⟨fun _ _ _ _ => none, fun _ _ _ _ => none⟩ .checks
    (.encryptionError Aes128Gcm.error)

def newBackend : RustCryptoBackend := ⟨none, none, 0, 0, [], [], [], []⟩

/-- A buffer for which there is no room at once is written after the handshake, not before. -/
theorem writesAll_greeting :
    WritesAll plainBackend idleHandler .checks (afterHandshake newBackend (some 1)) [104, 105] ∧
      WritesAll plainBackend idleHandler .checks (beforeHandshake newBackend (some 2)) [104, 105] ∧
      ¬ WritesAll plainBackend idleHandler .checks (beforeHandshake newBackend (some 1))
        [104, 105] := by
  have hdrains : plainBackend.Drains := RustCryptoBackend.backend_drains _ _ _
  refine ⟨?_, ?_, ?_⟩
  · refine (writesAll_iff plainBackend hdrains idleHandler .checks
      (afterHandshake newBackend (some 1)) ⟨none, rfl⟩ [104, 105]).mpr fun _ => ⟨fun _ _ => rfl, ?_⟩
    exact ⟨fun _ => rfl, .inl (by decide)⟩
  · exact (writesAll_iff plainBackend hdrains idleHandler .checks
      (beforeHandshake newBackend (some 2)) ⟨none, rfl⟩ [104, 105]).mpr fun _ =>
        ⟨fun _ _ => rfl, rfl⟩
  · intro h
    have hfits : (1 : Nat) = 2 := ((writesAll_iff plainBackend hdrains idleHandler .checks
      (beforeHandshake newBackend (some 1)) ⟨none, rfl⟩ [104, 105]).mp h (by decide)).2
    exact absurd hfits (by decide)

/-- Two bytes for a buffer of one are never accepted; and when records are sent into a buffer
which is full, they are empty. -/
theorem writeAll_full_buffer :
    (∀ fuel, writeAllPlaintext idleBackend.logged idleHandler .checks fuel [104, 105]
        (beforeHandshake () (some 1)) = none) ∧
      ¬ WritesAll idleBackend idleHandler .checks (beforeHandshake () (some 1)) [104, 105] ∧
      ∃ conn, writeRound idleBackend.logged idleHandler .checks [104, 105] 0
          (afterHandshake () (some 0)) = .ok (.next 0) conn ∧ conn.log = [emptyRecord] := by
  have hdiverges : ∀ fuel, writeAllPlaintext idleBackend.logged idleHandler .checks fuel [104, 105]
      (beforeHandshake () (some 1)) = none :=
    writeAll_diverges (fun _ _ => rfl) rfl (by decide)
  refine ⟨hdiverges, ?_, _, rfl, rfl⟩
  rintro ⟨fuel, r, hrun, _⟩
  rw [hdiverges fuel] at hrun
  cases hrun

end Connection

end Tlsn.Tls

import Tlsn.MpcTls.ErrorText
import Tlsn.MpcTls.RecordLimits

/-!
Calls of the record layer which it rejects with checks of its own, and what they leave
behind. Some of the checks come after the counters were advanced or the buffers drained.
-/

namespace Tlsn.MpcTls

open Tlsn.Cipher Tlsn.Common Tlsn.Tls

/-- The error is not the one for the limit on what is decrypted online. -/
def NotOnlineLimit (e : Fault MpcTlsError) : Prop :=
  ∀ current additional max, e ≠ RecordLayer.exceedsRecvOnline current additional max

theorem NotHead.notOnlineLimit {e : Fault MpcTlsError} (h : NotHead 'a' e) : NotOnlineLimit e := by
  intro current additional max
  apply h
  have hhead : "attempted to decrypt more data in the online phase than was ".toList.head? =
      some 'a' := by decide
  simp only [String.toList_append, List.head?_append, hhead, Option.some_or]

namespace RecordLayer

variable {C D : Type} {scheme : HashCommit C D} {mem : Memory} {peer : PeerShares C D}
  {layer layer' : RecordLayer}

/-! ## What a call leaves behind -/

/-- Counters, buffers and transcript are as before. -/
structure Intact (layer layer' : RecordLayer) : Prop where
  writeSeq : layer'.writeSeq = layer.writeSeq
  readSeq : layer'.readSeq = layer.readSeq
  sent : layer'.sent = layer.sent
  recv : layer'.recv = layer.recv
  recvOnline : layer'.recvOnline = layer.recvOnline
  encryptBuffer : layer'.encryptBuffer = layer.encryptBuffer
  decryptBuffer : layer'.decryptBuffer = layer.decryptBuffer
  encryptedBuffer : layer'.encryptedBuffer = layer.encryptedBuffer
  decryptedBuffer : layer'.decryptedBuffer = layer.decryptedBuffer
  state : layer'.state = layer.state

theorem Intact.refl (layer : RecordLayer) : Intact layer layer :=
  ⟨rfl, rfl, rfl, rfl, rfl, rfl, rfl, rfl, rfl, rfl⟩

/-- What `EncryptOp.new` checks, of the arguments. -/
def PlaintextFits (len : Nat) (plaintext : Option (List UInt8)) (mode : EncryptMode) : Prop :=
  (∀ bytes, plaintext = some bytes → bytes.length = len) ∧ (mode = .isPublic → plaintext ≠ none)

section Pushes

variable {typ : ContentType} {version : ProtocolVersion} {len : Nat}
  {plaintext : Option (List UInt8)} {mode : EncryptMode} {e : Fault MpcTlsError}

/-- When there is room for the record, a plaintext that does not fit it is found out after
the counters are advanced. -/
theorem pushEncrypt_late (typ : ContentType) (version : ProtocolVersion)
    (hfull : layer.encryptBuffer.length < maxBufferSize)
    (hmax : wrap (layer.sent + len) ≤ layer.maxSent) (hfits : ¬ PlaintextFits len plaintext mode) :
    ∃ e, pushEncrypt typ version len plaintext mode layer = .error e
      { layer with writeSeq := wrap (layer.writeSeq + 1), sent := wrap (layer.sent + len) } := by
  unfold pushEncrypt
  rw [if_neg (Nat.not_le.mpr hfull), if_neg (Nat.not_lt.mpr hmax)]
  simp only [nextWrite]
  cases hop : EncryptOp.new layer.writeSeq typ version len plaintext (beBytes 8 layer.writeSeq)
      (makeTls12Aad layer.writeSeq typ version len) mode with
  | error e => exact ⟨e, rfl⟩
  | ok op =>
      obtain ⟨rfl, hvalid⟩ := EncryptOp.new_ok_iff.mp hop
      exact absurd hvalid hfits

theorem pushEncrypt_error (h : pushEncrypt typ version len plaintext mode layer = .error e layer') :
    layer' = layer ∨ layer.encryptBuffer.length < maxBufferSize ∧
      wrap (layer.sent + len) ≤ layer.maxSent ∧ ¬ PlaintextFits len plaintext mode := by
  by_cases hfull : layer.encryptBuffer.length < maxBufferSize
  · by_cases hmax : wrap (layer.sent + len) ≤ layer.maxSent
    · refine .inr ⟨hfull, hmax, ?_⟩
      intro hfits
      rw [pushEncrypt_ok_iff.mpr ⟨hfull, hmax, hfits, rfl⟩] at h
      cases h
    · unfold pushEncrypt at h
      rw [if_neg (Nat.not_le.mpr hfull), if_pos (Nat.not_le.mp hmax)] at h
      cases h
      exact .inl rfl
  · unfold pushEncrypt at h
    rw [if_pos (Nat.not_lt.mp hfull)] at h
    cases h
    exact .inl rfl

theorem pushDecrypt_error {explicitNonce ciphertext tag : List UInt8} {mode : DecryptMode}
    (h : pushDecrypt typ version explicitNonce ciphertext tag mode layer = .error e layer') :
    layer' = layer := by
  unfold pushDecrypt at h
  split at h
  · cases h
    rfl
  · split at h
    · cases h
      rfl
    · cases h

end Pushes

section Flush

variable {isDecrypting : Bool} {s s' : Vm × RecordLayer} {otp : Option (List UInt8)}
  {sent recv : List Record} {e : Fault MpcTlsError}

/-- A flush decrypts within its limit. -/
def WithinOnline (isDecrypting : Bool) (layer : RecordLayer) : Prop :=
  isDecrypting = true → layer.skipsFlush isDecrypting = false →
    wrap (layer.recvOnline + decryptLen (layer.drainedDecrypts isDecrypting)) ≤ layer.maxRecvOnline

/-- Over the limit, the flush fails once it has drained the buffers. -/
theorem flush_late (scheme : HashCommit C D) (mem : Memory) (peer : PeerShares C D)
    (hstate : s.2.state = .online otp sent recv)
    (h : ¬ WithinOnline isDecrypting s.2) :
    isDecrypting = true ∧ s.2.skipsFlush true = false ∧
      flush scheme mem peer isDecrypting s = .error (exceedsRecvOnline s.2.recvOnline
        (decryptLen (s.2.drainedDecrypts true)) s.2.maxRecvOnline) (s.1, (s.2.drain true).2) := by
  obtain ⟨vm, layer⟩ := s
  obtain ⟨rfl, h⟩ := Classical.not_imp.mp h
  obtain ⟨hskips, hmax⟩ := Classical.not_imp.mp h
  refine ⟨rfl, hskips, ?_⟩
  have hdrain : drainBuffers true (vm, layer) =
      .ok (layer.encryptBuffer, layer.drainedDecrypts true) (vm, (layer.drain true).2) := rfl
  have hcount : countOnline (layer.drainedDecrypts true) (layer.drain true).2 =
      .error (exceedsRecvOnline layer.recvOnline (decryptLen (layer.drainedDecrypts true))
        layer.maxRecvOnline) (layer.drain true).2 := if_pos (Nat.not_le.mp hmax)
  have hcount' : Fault.onSnd (countOnline (layer.drainedDecrypts true)) (vm, (layer.drain true).2) =
      .error (exceedsRecvOnline layer.recvOnline (decryptLen (layer.drainedDecrypts true))
        layer.maxRecvOnline) (vm, (layer.drain true).2) := by
    simp only [Fault.onSnd, hcount]
  have hskips' : ¬ (layer.encryptBuffer.isEmpty && (layer.drainedDecrypts true).isEmpty) = true :=
    Bool.eq_false_iff.mp hskips
  have hstart : startFlush true (vm, layer) = .error (exceedsRecvOnline layer.recvOnline
      (decryptLen (layer.drainedDecrypts true)) layer.maxRecvOnline)
        (vm, (layer.drain true).2) := by
    rw [startFlush, Fault.run_bind_of_ok (requireOnline_eq _ hstate), Fault.run_bind_of_ok hdrain]
    simp only
    rw [if_neg hskips', if_pos trivial, Fault.run_bind_of_error hcount']
  rw [flush, Fault.run_bind_of_error hstart]

/-- Within the limit, the flush does not fail with its error. -/
theorem flush_notOnlineLimit (hstate : s.2.state = .online otp sent recv)
    (h : WithinOnline isDecrypting s.2)
    (hflush : flush scheme mem peer isDecrypting s = .error e s') : NotOnlineLimit e := by
  cases Fault.run_bind_error_iff.mp hflush with
  | inr hrun =>
      obtain ⟨task, s₁, -, hrun⟩ := hrun
      cases task with
      | none => cases hrun
      | some task => exact (NotHead.runFlush (by decide) scheme peer task _ _ _ hrun).notOnlineLimit
  | inl hstart =>
      obtain ⟨vm, layer⟩ := s
      have hdrain : drainBuffers isDecrypting (vm, layer) =
          .ok (layer.encryptBuffer, layer.drainedDecrypts isDecrypting)
            (vm, (layer.drain isDecrypting).2) := rfl
      rw [startFlush, Fault.run_bind_of_ok (requireOnline_eq _ hstate),
        Fault.run_bind_of_ok hdrain] at hstart
      simp only at hstart
      cases hskips : layer.skipsFlush isDecrypting with
      | true =>
          have hskips' : (layer.encryptBuffer.isEmpty &&
            (layer.drainedDecrypts isDecrypting).isEmpty) = true := hskips
          rw [if_pos hskips'] at hstart
          cases hstart
      | false =>
          have hskips' : ¬ (layer.encryptBuffer.isEmpty &&
            (layer.drainedDecrypts isDecrypting).isEmpty) = true := Bool.eq_false_iff.mp hskips
          rw [if_neg hskips'] at hstart
          have hprepare : Fault.Raises NotOnlineLimit (do
              return some (← prepareFlush layer.encryptBuffer
                (layer.drainedDecrypts isDecrypting))) :=
            Fault.Raises.bind (fun _ _ _ h =>
                (NotHead.prepareFlush (by decide) (by decide) _ _ _ _ _ h).notOnlineLimit)
              fun _ => Fault.Raises.pure _
          cases isDecrypting with
          | false => exact hprepare _ _ _ hstart
          | true =>
              have hle : ¬ wrap (layer.recvOnline + decryptLen (layer.drainedDecrypts true)) >
                  layer.maxRecvOnline := Nat.not_lt.mpr (h rfl hskips)
              rw [if_pos rfl] at hstart
              cases Fault.run_bind_error_iff.mp hstart with
              | inl hcount =>
                  have hok : countOnline (layer.drainedDecrypts true) (layer.drain true).2 =
                      .ok () _ := if_neg hle
                  simp only [Fault.onSnd, hok] at hcount
                  cases hcount
              | inr hrest =>
                  obtain ⟨_, _, -, hrest⟩ := hrest
                  exact hprepare _ _ _ hrest

/-- Nothing is left in the buffers, and something was there. -/
theorem not_intact_drain (hskips : layer.skipsFlush true = false) :
    ¬ Intact layer (layer.drain true).2 := by
  intro h
  have hencrypt : [] = layer.encryptBuffer := h.encryptBuffer
  have hdecrypt : layer.decryptBuffer.drop layer.decryptBuffer.length = layer.decryptBuffer :=
    h.decryptBuffer
  rw [List.drop_length] at hdecrypt
  rw [skipsFlush, drainedDecrypts, drain, ← hencrypt, ← hdecrypt] at hskips
  cases hskips

end Flush

end RecordLayer

namespace LayerCall

variable {C D : Type} {scheme : HashCommit C D} {mem : Memory} {s : Vm × RecordLayer}

/-- The errors which come from the checks of the record layer itself. -/
def OwnError : LayerCall C D → Fault MpcTlsError → Prop
  | .pushEncrypt _ _ _ _ _, _ => True
  | .pushDecrypt _ _ _ _ _ _, _ => True
  | .flush _ _, e =>
      ∃ current additional max, e = RecordLayer.exceedsRecvOnline current additional max
  | .startTraffic, _ => False

/-- No check of the call fails but those that come first: a record for which there is room
has a plaintext that fits it, and a flush is within its limit. -/
def ChecksFirst (layer : RecordLayer) : LayerCall C D → Prop
  | .pushEncrypt _ _ len plaintext mode =>
      layer.encryptBuffer.length < maxBufferSize →
        wrap (layer.sent + len) ≤ layer.maxSent → RecordLayer.PlaintextFits len plaintext mode
  | .pushDecrypt _ _ _ _ _ _ => True
  | .flush _ isDecrypting => layer.WithinOnline isDecrypting
  | .startTraffic => True

/-- A rejected call leaves the layer intact. -/
def RejectsIntact (scheme : HashCommit C D) (mem : Memory) (call : LayerCall C D)
    (s : Vm × RecordLayer) : Prop :=
  ∀ e s', call.run scheme mem s = .error e s' → call.OwnError e → s.2.Intact s'.2

theorem wrap_succ_ne (n : Nat) : wrap (n + 1) ≠ n := by
  have hword : wordSize = 18446744073709551616 := rfl
  rw [wrap, hword]
  omega

/-- A call that is rejected leaves the layer intact, unless what rejects it is the check of
the plaintext, or the limit of a flush. -/
theorem rejectsIntact_iff (scheme : HashCommit C D) (mem : Memory) (s : Vm × RecordLayer)
    (hstate : ∃ otp sent recv, s.2.state = .online otp sent recv) (call : LayerCall C D) :
    call.RejectsIntact scheme mem s ↔ call.ChecksFirst s.2 := by
  obtain ⟨otp, sent, recv, hstate⟩ := hstate
  constructor
  · intro h
    cases call with
    | pushEncrypt typ version len plaintext mode =>
        intro hfull hmax
        apply Classical.byContradiction
        intro hfits
        obtain ⟨e, hpush⟩ := RecordLayer.pushEncrypt_late typ version hfull hmax hfits
        exact wrap_succ_ne _ (h e _ (Fault.onSnd_of_error hpush) trivial).writeSeq
    | pushDecrypt typ version explicitNonce ciphertext tag mode => trivial
    | flush peer isDecrypting =>
        apply Classical.byContradiction
        intro hlimit
        obtain ⟨rfl, hskips, hflush⟩ :=
          RecordLayer.flush_late scheme mem peer hstate hlimit
        exact RecordLayer.not_intact_drain hskips (h _ _ hflush ⟨_, _, _, rfl⟩)
    | startTraffic => trivial
  · intro hchecks e s' hrun hown
    cases call with
    | pushEncrypt typ version len plaintext mode =>
        obtain ⟨layer', hpush, rfl⟩ := Fault.onSnd_error hrun
        cases RecordLayer.pushEncrypt_error hpush with
        | inl hlayer =>
            rw [hlayer]
            exact RecordLayer.Intact.refl _
        | inr hlate => exact absurd (hchecks hlate.1 hlate.2.1) hlate.2.2
    | pushDecrypt typ version explicitNonce ciphertext tag mode =>
        obtain ⟨layer', hpush, rfl⟩ := Fault.onSnd_error hrun
        rw [RecordLayer.pushDecrypt_error hpush]
        exact RecordLayer.Intact.refl _
    | flush peer isDecrypting =>
        obtain ⟨current, additional, max, rfl⟩ := hown
        exact absurd rfl (RecordLayer.flush_notOnlineLimit hstate hchecks hrun
          current additional max)
    | startTraffic => cases hown

open RecordLayer (tightParams tightStart tightStart_established sampleScheme sampleMemory
  PlaintextFits pushEncrypt_late)

theorem tightStart_online : ∃ otp sent recv, tightStart.2.state = .online otp sent recv := by
  obtain ⟨-, -, -, hfresh, -⟩ := tightStart_established.stocked
  exact ⟨_, _, _, hfresh.state⟩

/-- Eight bytes are announced, and none are there. -/
def shortPlaintext : LayerCall (List TagShare) (List TagShare) :=
  .pushEncrypt .handshake .tlsV1_2 ⟨8, eight_lt_wordSize⟩ (some []) .isPublic

theorem rejectsIntact_sample :
    shortPlaintext.RejectsIntact sampleScheme sampleMemory tightStart ↔
      shortPlaintext.ChecksFirst tightStart.2 :=
  rejectsIntact_iff sampleScheme sampleMemory tightStart tightStart_online shortPlaintext

theorem shortPlaintext_rejected {s : Vm × RecordLayer} (hfresh : s.2.Fresh tightParams) :
    ∃ e s', shortPlaintext.run sampleScheme sampleMemory s = .error e s' ∧
      s.2.writeSeq = 0 ∧ s'.2.writeSeq = 1 ∧ s.2.sent = 0 ∧ s'.2.sent = 8 := by
  have hfull : s.2.encryptBuffer.length < maxBufferSize := by
    rw [hfresh.encryptBuffer]
    decide
  have hmax : wrap (s.2.sent + 8) ≤ s.2.maxSent := by
    rw [hfresh.sent, hfresh.maxSent]
    decide
  have hfits : ¬ PlaintextFits 8 (some []) .isPublic := by
    intro hfits
    exact absurd (hfits.1 [] rfl) (by decide)
  obtain ⟨e, hpush⟩ := pushEncrypt_late .handshake .tlsV1_2 hfull hmax hfits
  refine ⟨e, _, Fault.onSnd_of_error hpush, hfresh.writeSeq, ?_, hfresh.sent, ?_⟩
  · have hone : wrap (s.2.writeSeq + 1) = 1 := by
      rw [hfresh.writeSeq]
      decide
    exact hone
  · have height : wrap (s.2.sent + 8) = 8 := by
      rw [hfresh.sent]
      decide
    exact height

theorem shortPlaintext_not_intact {s : Vm × RecordLayer} (hfresh : s.2.Fresh tightParams) :
    ¬ shortPlaintext.RejectsIntact sampleScheme sampleMemory s := by
  intro hintact
  obtain ⟨e, s', hrun, hwrite, hwrite', -⟩ := shortPlaintext_rejected hfresh
  have hsame := (hintact e s' hrun trivial).writeSeq
  rw [hwrite, hwrite'] at hsame
  cases hsame

/-- The call is rejected, and sequence number and count have advanced. -/
theorem shortPlaintext_advances :
    ∃ s, tightParams.Established sampleMemory s ∧
      (∃ e s', shortPlaintext.run sampleScheme sampleMemory s = .error e s' ∧
        s.2.writeSeq = 0 ∧ s'.2.writeSeq = 1 ∧ s.2.sent = 0 ∧ s'.2.sent = 8) ∧
      ¬ shortPlaintext.RejectsIntact sampleScheme sampleMemory s := by
  obtain ⟨-, -, -, hfresh, -⟩ := tightStart_established.stocked
  exact ⟨tightStart, tightStart_established, shortPlaintext_rejected hfresh,
    shortPlaintext_not_intact hfresh⟩

end LayerCall

end Tlsn.MpcTls

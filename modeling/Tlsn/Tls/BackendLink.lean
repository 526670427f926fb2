import Tlsn.Tls.RustCrypto

/-!
Two plain backends with each other's keys. Messages are pushed at either end, and each end
flushes when it likes; what the other end hands out is what was pushed, in order.
-/

namespace Tlsn.Tls

open Tlsn.MpcTls (Overflow)

/-- Messages and what they were sealed as, with the sequence numbers from `start` to `stop`. -/
inductive Sealed (gcm : Aes128Gcm) (enc : Encrypter) :
    Nat → Nat → List PlainMessage → List OpaqueMessage → Prop
  | nil (seq : Nat) : Sealed gcm enc seq seq [] []
  | cons {start stop : Nat} {m : PlainMessage} {sealed : OpaqueMessage} {ms : List PlainMessage}
      {rest : List OpaqueMessage}
      (hseal : enc.encryptAes128Gcm gcm m start (beBytes 8 start) = .ok sealed)
      (h : Sealed gcm enc (wrap (start + 1)) stop ms rest) :
      Sealed gcm enc start stop (m :: ms) (sealed :: rest)

namespace Sealed

variable {gcm : Aes128Gcm} {enc : Encrypter} {start mid stop : Nat} {ms ms' : List PlainMessage}
  {sealed sealed' : List OpaqueMessage}

theorem append (h : Sealed gcm enc start mid ms sealed) (h' : Sealed gcm enc mid stop ms' sealed') :
    Sealed gcm enc start stop (ms ++ ms') (sealed ++ sealed') := by
  induction h with
  | nil seq => exact h'
  | cons hseal h ih => exact .cons hseal (ih h')

theorem split (h : Sealed gcm enc start stop ms (sealed ++ sealed')) :
    ∃ ms₁ ms₂ mid, ms = ms₁ ++ ms₂ ∧ Sealed gcm enc start mid ms₁ sealed ∧
      Sealed gcm enc mid stop ms₂ sealed' := by
  induction sealed generalizing start ms with
  | nil => exact ⟨[], ms, start, rfl, .nil start, h⟩
  | cons first sealed ih =>
      cases h with
      | cons hseal h =>
          obtain ⟨ms₁, ms₂, mid, rfl, h₁, h₂⟩ := ih h
          exact ⟨_ :: ms₁, ms₂, mid, rfl, .cons hseal h₁, h₂⟩

theorem length_eq (h : Sealed gcm enc start stop ms sealed) : ms.length = sealed.length := by
  induction h with
  | nil seq => rfl
  | cons hseal h ih => rw [List.length_cons, List.length_cons, ih]

theorem stop_eq (h : Sealed gcm enc start stop ms sealed) (hword : start + ms.length < wordSize) :
    stop = start + ms.length := by
  induction h with
  | nil seq => rfl
  | @cons start stop m first ms rest hseal h ih =>
      rw [List.length_cons] at hword ⊢
      rw [wrap_of_lt (by omega)] at ih
      rw [ih (by omega)]
      omega

end Sealed

namespace RustCryptoBackend

variable {gcm : Aes128Gcm} {overflow : Overflow} {enc : Encrypter} {dec : Decrypter}

theorem flushOutgoing_cons_ok_iff {m : PlainMessage} {ms : List PlainMessage}
    {b b' : RustCryptoBackend} :
    flushOutgoing gcm overflow (m :: ms) b = .ok () b' ↔ ∃ encrypted writeSeq,
      b.encrypt gcm m b.writeSeq = .ok encrypted ∧
      (overflow.add b.writeSeq 1 : Except (Fault BackendError) Nat) = .ok writeSeq ∧
      flushOutgoing gcm overflow ms { b with
        outgoingEncrypted := b.outgoingEncrypted ++ [encrypted], writeSeq } = .ok () b' := by
  rw [flushOutgoing, Fault.get_bind]
  constructor
  · intro h
    obtain ⟨encrypted, b₁, hencrypt, h⟩ := Fault.run_bind_ok_iff.mp h
    obtain ⟨hencrypt, rfl⟩ := Fault.lift_ok_iff.mp hencrypt
    obtain ⟨⟨⟩, b₂, hpush, h⟩ := Fault.run_bind_ok_iff.mp h
    cases hpush
    obtain ⟨writeSeq, b₃, hlift, h⟩ := Fault.run_bind_ok_iff.mp h
    obtain ⟨hadd, rfl⟩ := Fault.lift_ok_iff.mp hlift
    obtain ⟨⟨⟩, b₄, hseq, h⟩ := Fault.run_bind_ok_iff.mp h
    cases hseq
    exact ⟨encrypted, writeSeq, hencrypt, hadd, h⟩
  · rintro ⟨encrypted, writeSeq, hencrypt, hadd, h⟩
    refine Fault.run_bind_ok_iff.mpr ⟨_, _, Fault.lift_ok_iff.mpr ⟨hencrypt, rfl⟩, ?_⟩
    refine Fault.run_bind_ok_iff.mpr ⟨(), _, rfl, ?_⟩
    refine Fault.run_bind_ok_iff.mpr ⟨_, _, Fault.lift_ok_iff.mpr ⟨hadd, rfl⟩, ?_⟩
    exact Fault.run_bind_ok_iff.mpr ⟨(), _, rfl, h⟩

theorem flushIncoming_cons_ok_iff {m : OpaqueMessage} {ms : List OpaqueMessage}
    {b b' : RustCryptoBackend} :
    flushIncoming gcm overflow (m :: ms) b = .ok () b' ↔ ∃ decrypted readSeq,
      b.decrypt gcm overflow m b.readSeq = .ok decrypted ∧
      (overflow.add b.readSeq 1 : Except (Fault BackendError) Nat) = .ok readSeq ∧
      flushIncoming gcm overflow ms { b with
        incomingPlain := b.incomingPlain ++ [decrypted], readSeq } = .ok () b' := by
  rw [flushIncoming, Fault.get_bind]
  constructor
  · intro h
    obtain ⟨decrypted, b₁, hdecrypt, h⟩ := Fault.run_bind_ok_iff.mp h
    obtain ⟨hdecrypt, rfl⟩ := Fault.lift_ok_iff.mp hdecrypt
    obtain ⟨⟨⟩, b₂, hpush, h⟩ := Fault.run_bind_ok_iff.mp h
    cases hpush
    obtain ⟨readSeq, b₃, hlift, h⟩ := Fault.run_bind_ok_iff.mp h
    obtain ⟨hadd, rfl⟩ := Fault.lift_ok_iff.mp hlift
    obtain ⟨⟨⟩, b₄, hseq, h⟩ := Fault.run_bind_ok_iff.mp h
    cases hseq
    exact ⟨decrypted, readSeq, hdecrypt, hadd, h⟩
  · rintro ⟨decrypted, readSeq, hdecrypt, hadd, h⟩
    refine Fault.run_bind_ok_iff.mpr ⟨_, _, Fault.lift_ok_iff.mpr ⟨hdecrypt, rfl⟩, ?_⟩
    refine Fault.run_bind_ok_iff.mpr ⟨(), _, rfl, ?_⟩
    refine Fault.run_bind_ok_iff.mpr ⟨_, _, Fault.lift_ok_iff.mpr ⟨hadd, rfl⟩, ?_⟩
    exact Fault.run_bind_ok_iff.mpr ⟨(), _, rfl, h⟩

/-- A flush seals what was pushed. -/
theorem flushOutgoing_ok (hsuite : enc.cipherSuite.implemented) {ms : List PlainMessage}
    (hms : ∀ m ∈ ms, m.Ordinary) {b b' : RustCryptoBackend} (henc : b.encrypter = some enc)
    (h : flushOutgoing gcm overflow ms b = .ok () b') :
    ∃ sealed stop, Sealed gcm enc b.writeSeq stop ms sealed ∧
      b' = { b with outgoingEncrypted := b.outgoingEncrypted ++ sealed, writeSeq := stop } := by
  induction ms generalizing b with
  | nil =>
      cases h
      exact ⟨[], _, .nil _, by rw [List.append_nil]⟩
  | cons m ms ih =>
      obtain ⟨hm, hms⟩ := List.forall_mem_cons.mp hms
      obtain ⟨encrypted, writeSeq, hencrypt, hadd, h⟩ := flushOutgoing_cons_ok_iff.mp h
      rw [encrypt_eq henc hsuite hm.version] at hencrypt
      obtain ⟨sealed, stop, hsealed, rfl⟩ := ih hms (b := { b with
        outgoingEncrypted := b.outgoingEncrypted ++ [encrypted], writeSeq }) henc h
      rw [Overflow.add_ok hadd] at hsealed
      refine ⟨encrypted :: sealed, stop, .cons hencrypt hsealed, ?_⟩
      simp only [List.append_assoc, List.singleton_append]

/-- It does so when the cipher takes the messages and the numbers do not run out. -/
theorem flushOutgoing_total (hsuite : enc.cipherSuite.implemented) {ms : List PlainMessage}
    (hms : ∀ m ∈ ms, m.Ordinary)
    (hseal : ∀ m ∈ ms, ∀ seq, ∃ sealed, enc.encryptAes128Gcm gcm m seq (beBytes 8 seq) = .ok sealed)
    {b : RustCryptoBackend} (henc : b.encrypter = some enc)
    (hword : overflow = .checks → b.writeSeq + ms.length < wordSize) :
    ∃ b', flushOutgoing gcm overflow ms b = .ok () b' := by
  induction ms generalizing b with
  | nil => exact ⟨b, rfl⟩
  | cons m ms ih =>
      obtain ⟨hm, hms⟩ := List.forall_mem_cons.mp hms
      obtain ⟨hfirst, hseal⟩ := List.forall_mem_cons.mp hseal
      obtain ⟨sealed, hsealed⟩ := hfirst b.writeSeq
      rw [← encrypt_eq henc hsuite hm.version] at hsealed
      simp only [List.length_cons] at hword
      have hadd : (overflow.add b.writeSeq 1 : Except (Fault BackendError) Nat) =
          .ok (wrap (b.writeSeq + 1)) :=
        Overflow.add_ok_of fun hchecks => by
          have := hword hchecks
          omega
      have hrest (hchecks : overflow = .checks) :
          wrap (b.writeSeq + 1) + ms.length < wordSize := by
        have := hword hchecks
        rw [wrap_of_lt (by omega)]
        omega
      obtain ⟨b', h⟩ := ih hms hseal (b := { b with
        outgoingEncrypted := b.outgoingEncrypted ++ [sealed],
        writeSeq := wrap (b.writeSeq + 1) }) henc hrest
      exact ⟨b', flushOutgoing_cons_ok_iff.mpr ⟨sealed, _, hsealed, hadd, h⟩⟩

/-- A flush opens what came in. -/
theorem flushIncoming_ok (hgcm : gcm.Lawful) (hmirrors : Mirrors enc dec) {ms : List PlainMessage}
    {sealed : List OpaqueMessage} {stop : Nat} (hms : ∀ m ∈ ms, m.Ordinary)
    {b b' : RustCryptoBackend} (hsealed : Sealed gcm enc b.readSeq stop ms sealed)
    (hdec : b.decrypter = some dec) (h : flushIncoming gcm overflow sealed b = .ok () b') :
    b' = { b with incomingPlain := b.incomingPlain ++ ms, readSeq := stop } := by
  induction sealed generalizing b ms with
  | nil =>
      cases hsealed
      cases h
      rw [List.append_nil]
  | cons first sealed ih =>
      cases hsealed with
      | @cons _ _ m _ ms _ hseal hsealed =>
          obtain ⟨hm, hms⟩ := List.forall_mem_cons.mp hms
          obtain ⟨htyp, hversion, hopen⟩ := hmirrors.opens overflow hgcm hm.typ hseal
          obtain ⟨decrypted, readSeq, hdecrypt, hadd, h⟩ := flushIncoming_cons_ok_iff.mp h
          rw [decrypt_eq hdec hmirrors.receiver (hversion.trans hm.version), hopen] at hdecrypt
          cases hdecrypt
          rw [← Overflow.add_ok hadd] at hsealed
          rw [ih hms (b := { b with incomingPlain := b.incomingPlain ++ [m], readSeq })
            hsealed hdec h]
          simp only [List.append_assoc, List.singleton_append]

theorem flushIncoming_total (hgcm : gcm.Lawful) (hmirrors : Mirrors enc dec)
    {ms : List PlainMessage} {sealed : List OpaqueMessage} {stop : Nat}
    (hms : ∀ m ∈ ms, m.Ordinary) {b : RustCryptoBackend}
    (hsealed : Sealed gcm enc b.readSeq stop ms sealed) (hdec : b.decrypter = some dec)
    (hword : overflow = .checks → b.readSeq + sealed.length < wordSize) :
    ∃ b', flushIncoming gcm overflow sealed b = .ok () b' := by
  induction sealed generalizing b ms with
  | nil => exact ⟨b, rfl⟩
  | cons first sealed ih =>
      cases hsealed with
      | @cons _ _ m _ ms _ hseal hsealed =>
          obtain ⟨hm, hms⟩ := List.forall_mem_cons.mp hms
          obtain ⟨htyp, hversion, hopen⟩ := hmirrors.opens overflow hgcm hm.typ hseal
          rw [← decrypt_eq hdec hmirrors.receiver (hversion.trans hm.version)] at hopen
          simp only [List.length_cons] at hword
          have hadd : (overflow.add b.readSeq 1 : Except (Fault BackendError) Nat) =
              .ok (wrap (b.readSeq + 1)) :=
            Overflow.add_ok_of fun hchecks => by
              have := hword hchecks
              omega
          have hrest (hchecks : overflow = .checks) :
              wrap (b.readSeq + 1) + sealed.length < wordSize := by
            have := hword hchecks
            rw [wrap_of_lt (by omega)]
            omega
          obtain ⟨b', h⟩ := ih hms (b := { b with
            incomingPlain := b.incomingPlain ++ [m],
            readSeq := wrap (b.readSeq + 1) }) hsealed hdec hrest
          exact ⟨b', flushIncoming_cons_ok_iff.mpr ⟨m, _, hopen, hadd, h⟩⟩

theorem flush_ok_iff {b b' : RustCryptoBackend} :
    flush gcm overflow b = .ok () b' ↔ ∃ b₁,
      flushIncoming gcm overflow b.incomingEncrypted { b with incomingEncrypted := [] } =
        .ok () b₁ ∧
      flushOutgoing gcm overflow b₁.outgoingPlain { b₁ with outgoingPlain := [] } = .ok () b' := by
  unfold flush
  constructor
  · intro h
    obtain ⟨incoming, _, htake, h⟩ := Fault.run_bind_ok_iff.mp h
    obtain ⟨⟨⟩, b₁, hincoming, h⟩ := Fault.run_bind_ok_iff.mp h
    obtain ⟨outgoing, _, htake', h⟩ := Fault.run_bind_ok_iff.mp h
    cases htake
    cases htake'
    exact ⟨b₁, hincoming, h⟩
  · rintro ⟨b₁, hincoming, h⟩
    refine Fault.run_bind_ok_iff.mpr ⟨b.incomingEncrypted, _, rfl, ?_⟩
    refine Fault.run_bind_ok_iff.mpr ⟨(), b₁, hincoming, ?_⟩
    exact Fault.run_bind_ok_iff.mpr ⟨b₁.outgoingPlain, _, rfl, h⟩

end RustCryptoBackend

/-! ## Two ends -/

/-- One end, what was pushed there, and what it handed out. -/
structure Peer where
  backend : RustCryptoBackend
  pushed : List PlainMessage
  received : List PlainMessage
deriving DecidableEq

namespace Peer

inductive Call where
  | push (m : PlainMessage)
  | flush
  | carry
  | pull

/-- A call at one end. `carry` brings a sealed message to the other one. -/
def call (gcm : Aes128Gcm) (overflow : Overflow) (near far : Peer) :
    Call → Except (Fault BackendError) (Peer × Peer)
  | .push m => .ok ({ near with
      backend := near.backend.pushOutgoing m
      pushed := near.pushed ++ [m] }, far)
  | .flush =>
      match near.backend.flush gcm overflow with
      | .error e _ => .error e
      | .ok () backend => .ok ({ near with backend }, far)
  | .carry =>
      let (msg, backend) := near.backend.nextOutgoing
      match msg with
      | none => .ok (near, far)
      | some msg =>
          .ok ({ near with backend }, { far with backend := far.backend.pushIncoming msg })
  | .pull =>
      let (msg, backend) := near.backend.nextIncoming
      .ok ({ near with backend, received := near.received ++ msg.toList }, far)

def new (enc : Encrypter) (dec : Decrypter) : Peer where
  backend := ⟨some enc, some dec, 0, 0, [], [], [], []⟩
  pushed := []
  received := []

/-- What goes from one end to the other: some of it has been handed out, some is sealed,
and some waits for a flush. -/
structure Lane (gcm : Aes128Gcm) (enc : Encrypter) (dec : Decrypter) (near far : Peer) : Prop where
  encrypter : near.backend.encrypter = some enc
  decrypter : far.backend.decrypter = some dec
  ordinary : ∀ m ∈ near.pushed, m.Ordinary
  inFlight : ∃ ms, Sealed gcm enc far.backend.readSeq near.backend.writeSeq ms
      (far.backend.incomingEncrypted ++ near.backend.outgoingEncrypted) ∧
    far.received ++ far.backend.incomingPlain ++ ms ++ near.backend.outgoingPlain = near.pushed
  counted : near.pushed.length < wordSize →
    far.backend.readSeq = far.received.length + far.backend.incomingPlain.length

namespace Lane

variable {gcm : Aes128Gcm} {overflow : Overflow} {enc : Encrypter} {dec : Decrypter}
  {near far : Peer}

theorem push (h : Lane gcm enc dec near far) {m : PlainMessage} (hm : m.Ordinary) :
    Lane gcm enc dec { near with
      backend := near.backend.pushOutgoing m
      pushed := near.pushed ++ [m] } far := by
  obtain ⟨ms, hsealed, hpushed⟩ := h.inFlight
  refine ⟨h.encrypter, h.decrypter, ?_, ⟨ms, hsealed, ?_⟩, ?_⟩
  · intro m' hm'
    obtain hm' | hm' := List.mem_append.mp hm'
    · exact h.ordinary m' hm'
    · rwa [List.mem_singleton.mp hm']
  · simp only [RustCryptoBackend.pushOutgoing]
    rw [← List.append_assoc, hpushed]
  · intro hword
    simp only [List.length_append] at hword
    exact h.counted (by omega)

theorem carry (h : Lane gcm enc dec near far) {msg : OpaqueMessage}
    (hmsg : near.backend.nextOutgoing.1 = some msg) :
    Lane gcm enc dec { near with backend := near.backend.nextOutgoing.2 }
      { far with backend := far.backend.pushIncoming msg } := by
  obtain ⟨ms, hsealed, hpushed⟩ := h.inFlight
  refine ⟨h.encrypter, h.decrypter, h.ordinary, ⟨ms, ?_, hpushed⟩, h.counted⟩
  simp only [RustCryptoBackend.nextOutgoing, RustCryptoBackend.pushIncoming]
  rw [List.append_assoc, List.singleton_append, List.cons_head?_tail (Option.mem_def.mpr hmsg)]
  exact hsealed

theorem pull (h : Lane gcm enc dec near far) :
    Lane gcm enc dec near { far with
      backend := far.backend.nextIncoming.2
      received := far.received ++ far.backend.nextIncoming.1.toList } := by
  obtain ⟨ms, hsealed, hpushed⟩ := h.inFlight
  have hparts : far.backend.nextIncoming.1.toList ++ far.backend.nextIncoming.2.incomingPlain =
      far.backend.incomingPlain := by
    simp only [RustCryptoBackend.nextIncoming]
    cases far.backend.incomingPlain with
    | nil => rfl
    | cons m rest => rfl
  refine ⟨h.encrypter, h.decrypter, h.ordinary, ⟨ms, hsealed, ?_⟩, ?_⟩
  · rw [List.append_assoc far.received, hparts]
    exact hpushed
  · intro hword
    rw [List.length_append, Nat.add_assoc, ← List.length_append, hparts]
    exact h.counted hword

/-- What comes in at a flush. -/
theorem incoming (hgcm : gcm.Lawful) (hmirrors : Mirrors enc dec) (h : Lane gcm enc dec near far)
    {b : RustCryptoBackend}
    (hflush : RustCryptoBackend.flushIncoming gcm overflow far.backend.incomingEncrypted
      { far.backend with incomingEncrypted := [] } = .ok () b) :
    Lane gcm enc dec near { far with backend := b } ∧ ∃ incomingPlain readSeq,
      b = { far.backend with incomingEncrypted := [], incomingPlain, readSeq } := by
  obtain ⟨ms, hsealed, hpushed⟩ := h.inFlight
  obtain ⟨ms₁, ms₂, mid, rfl, hsealed₁, hsealed₂⟩ := hsealed.split
  have hordinary : ∀ m ∈ ms₁, m.Ordinary := by
    intro m hm
    refine h.ordinary m ?_
    rw [← hpushed]
    simp [hm]
  have hb := RustCryptoBackend.flushIncoming_ok hgcm hmirrors hordinary
    (b := { far.backend with incomingEncrypted := [] }) hsealed₁ h.decrypter hflush
  refine ⟨?_, _, _, hb⟩
  rw [hb]
  refine ⟨h.encrypter, h.decrypter, h.ordinary, ⟨ms₂, hsealed₂, ?_⟩, ?_⟩
  · simp only [← hpushed, List.append_assoc]
  · intro hword
    have hcount := h.counted hword
    rw [← hpushed] at hword
    simp only [List.length_append] at hword ⊢
    have hstop := hsealed₁.stop_eq (by omega)
    omega

/-- What goes out at a flush. -/
theorem outgoing (hsuite : enc.cipherSuite.implemented) (h : Lane gcm enc dec near far)
    {b : RustCryptoBackend}
    (hflush : RustCryptoBackend.flushOutgoing gcm overflow near.backend.outgoingPlain
      { near.backend with outgoingPlain := [] } = .ok () b) :
    Lane gcm enc dec { near with backend := b } far ∧ ∃ outgoingEncrypted writeSeq,
      b = { near.backend with outgoingPlain := [], outgoingEncrypted, writeSeq } := by
  obtain ⟨ms, hsealed, hpushed⟩ := h.inFlight
  have hordinary : ∀ m ∈ near.backend.outgoingPlain, m.Ordinary := by
    intro m hm
    refine h.ordinary m ?_
    rw [← hpushed]
    exact List.mem_append_right _ hm
  obtain ⟨sealed, stop, hnew, hb⟩ := RustCryptoBackend.flushOutgoing_ok hsuite hordinary
    (b := { near.backend with outgoingPlain := [] }) h.encrypter hflush
  refine ⟨?_, _, _, hb⟩
  rw [hb]
  refine ⟨h.encrypter, h.decrypter, h.ordinary, ⟨ms ++ near.backend.outgoingPlain, ?_, ?_⟩,
    h.counted⟩
  · simp only [← List.append_assoc far.backend.incomingEncrypted]
    exact hsealed.append hnew
  · simp only [List.append_nil]
    rw [← List.append_assoc, hpushed]

end Lane

variable {gcm : Aes128Gcm} {overflow : Overflow} {enc enc' : Encrypter} {dec dec' : Decrypter}
  {near far : Peer}

/-- Both directions. -/
structure Lanes (gcm : Aes128Gcm) (enc : Encrypter) (dec : Decrypter) (enc' : Encrypter)
    (dec' : Decrypter) (near far : Peer) : Prop where
  there : Lane gcm enc dec near far
  back : Lane gcm enc' dec' far near

theorem Lanes.flush (hgcm : gcm.Lawful) (hmirrors : Mirrors enc dec) (hmirrors' : Mirrors enc' dec')
    (h : Lanes gcm enc dec enc' dec' near far) {b : RustCryptoBackend}
    (hflush : near.backend.flush gcm overflow = .ok () b) :
    Lanes gcm enc dec enc' dec' { near with backend := b } far := by
  obtain ⟨b₁, hincoming, houtgoing⟩ := RustCryptoBackend.flush_ok_iff.mp hflush
  obtain ⟨hback, incomingPlain, readSeq, rfl⟩ := h.back.incoming hgcm hmirrors' hincoming
  have hthere : Lane gcm enc dec { near with backend := { near.backend with
      incomingEncrypted := [], incomingPlain, readSeq } } far :=
    ⟨h.there.encrypter, h.there.decrypter, h.there.ordinary, h.there.inFlight, h.there.counted⟩
  obtain ⟨hthere, outgoingEncrypted, writeSeq, rfl⟩ := hthere.outgoing hmirrors.sender houtgoing
  exact ⟨hthere, ⟨hback.encrypter, hback.decrypter, hback.ordinary, hback.inFlight, hback.counted⟩⟩

/-- The cipher takes each of the messages, and there are numbers for all of them. -/
structure Sealable (gcm : Aes128Gcm) (overflow : Overflow) (enc : Encrypter)
    (ms : List PlainMessage) : Prop where
  sealed : ∀ m ∈ ms, ∀ seq,
    ∃ sealed, enc.encryptAes128Gcm gcm m seq (beBytes 8 seq) = .ok sealed
  fits : overflow = .checks → ms.length < wordSize

theorem Lanes.flush_total (hgcm : gcm.Lawful) (hmirrors : Mirrors enc dec)
    (hmirrors' : Mirrors enc' dec') (h : Lanes gcm enc dec enc' dec' near far)
    (hseal : Sealable gcm overflow enc near.pushed)
    (hseal' : Sealable gcm overflow enc' far.pushed) :
    ∃ b, near.backend.flush gcm overflow = .ok () b := by
  obtain ⟨ms', hsealed', hpushed'⟩ := h.back.inFlight
  obtain ⟨ms₁, ms₂, mid, rfl, hsealed₁, hsealed₂⟩ := hsealed'.split
  have hordinary' : ∀ m ∈ ms₁, m.Ordinary := by
    intro m hm
    refine h.back.ordinary m ?_
    rw [← hpushed']
    simp [hm]
  have hword' (hchecks : overflow = .checks) :
      near.backend.readSeq + near.backend.incomingEncrypted.length < wordSize := by
    have hfits := hseal'.fits hchecks
    have hcount := h.back.counted hfits
    rw [← hpushed'] at hfits
    simp only [List.length_append] at hfits
    rw [← hsealed₁.length_eq]
    omega
  obtain ⟨b₁, hincoming⟩ := RustCryptoBackend.flushIncoming_total hgcm hmirrors' hordinary'
    (b := { near.backend with incomingEncrypted := [] }) hsealed₁ h.back.decrypter hword'
  obtain ⟨-, incomingPlain, readSeq, rfl⟩ := h.back.incoming hgcm hmirrors' hincoming
  obtain ⟨ms, hsealed, hpushed⟩ := h.there.inFlight
  have hmem : ∀ m ∈ near.backend.outgoingPlain, m ∈ near.pushed := by
    intro m hm
    rw [← hpushed]
    exact List.mem_append_right _ hm
  have hword (hchecks : overflow = .checks) :
      near.backend.writeSeq + near.backend.outgoingPlain.length < wordSize := by
    have hfits := hseal.fits hchecks
    have hcount := h.there.counted hfits
    rw [← hpushed] at hfits
    simp only [List.length_append] at hfits
    rw [hsealed.stop_eq (by omega)]
    omega
  obtain ⟨b, houtgoing⟩ := RustCryptoBackend.flushOutgoing_total
    hmirrors.sender (fun m hm => h.there.ordinary m (hmem m hm))
    (fun m hm => hseal.sealed m (hmem m hm))
    (b := { near.backend with
      incomingEncrypted := [], incomingPlain, readSeq, outgoingPlain := [] })
    h.there.encrypter hword
  exact ⟨b, RustCryptoBackend.flush_ok_iff.mpr ⟨_, hincoming, houtgoing⟩⟩

/-- What is pushed is to be encrypted. -/
def Call.Ordinary : Call → Prop
  | .push m => m.Ordinary
  | .flush | .carry | .pull => True

theorem Lanes.call (hgcm : gcm.Lawful) (hmirrors : Mirrors enc dec) (hmirrors' : Mirrors enc' dec')
    (h : Lanes gcm enc dec enc' dec' near far) {c : Call} (hc : c.Ordinary) {near' far' : Peer}
    (hcall : near.call gcm overflow far c = .ok (near', far')) :
    Lanes gcm enc dec enc' dec' near' far' := by
  cases c with
  | push m =>
      cases hcall
      exact ⟨h.there.push hc,
        ⟨h.back.encrypter, h.back.decrypter, h.back.ordinary, h.back.inFlight, h.back.counted⟩⟩
  | flush =>
      simp only [Peer.call] at hcall
      split at hcall
      · cases hcall
      · rename_i b hflush
        cases hcall
        exact h.flush hgcm hmirrors hmirrors' hflush
  | carry =>
      simp only [Peer.call] at hcall
      split at hcall
      · cases hcall
        exact h
      · rename_i msg hmsg
        cases hcall
        exact ⟨h.there.carry hmsg,
          ⟨h.back.encrypter, h.back.decrypter, h.back.ordinary, h.back.inFlight, h.back.counted⟩⟩
  | pull =>
      cases hcall
      exact ⟨⟨h.there.encrypter, h.there.decrypter, h.there.ordinary, h.there.inFlight,
        h.there.counted⟩, h.back.pull⟩

/-- What a call pushes. -/
def Call.pushes : Call → List PlainMessage
  | .push m => [m]
  | .flush | .carry | .pull => []

theorem pushed_of_call {c : Call} {near' far' : Peer}
    (hcall : near.call gcm overflow far c = .ok (near', far')) :
    near'.pushed = near.pushed ++ c.pushes ∧ far'.pushed = far.pushed := by
  cases c with
  | push m =>
      cases hcall
      exact ⟨rfl, rfl⟩
  | flush =>
      simp only [Peer.call] at hcall
      split at hcall
      · cases hcall
      · cases hcall
        exact ⟨(List.append_nil _).symm, rfl⟩
  | carry =>
      simp only [Peer.call] at hcall
      split at hcall
      · cases hcall
        exact ⟨(List.append_nil _).symm, rfl⟩
      · cases hcall
        exact ⟨(List.append_nil _).symm, rfl⟩
  | pull =>
      cases hcall
      exact ⟨(List.append_nil _).symm, rfl⟩

theorem Lanes.call_total (hgcm : gcm.Lawful) (hmirrors : Mirrors enc dec)
    (hmirrors' : Mirrors enc' dec') (h : Lanes gcm enc dec enc' dec' near far)
    (hseal : Sealable gcm overflow enc near.pushed)
    (hseal' : Sealable gcm overflow enc' far.pushed) (c : Call) :
    ∃ near' far', near.call gcm overflow far c = .ok (near', far') := by
  cases c with
  | push m => exact ⟨_, _, rfl⟩
  | flush =>
      obtain ⟨b, hflush⟩ := h.flush_total hgcm hmirrors hmirrors' hseal hseal'
      refine ⟨{ near with backend := b }, far, ?_⟩
      simp only [Peer.call, hflush]
  | carry =>
      simp only [Peer.call]
      split
      · exact ⟨_, _, rfl⟩
      · exact ⟨_, _, rfl⟩
  | pull => exact ⟨_, _, rfl⟩

theorem Lane.new (gcm : Aes128Gcm) (enc : Encrypter) (dec : Decrypter) (enc' : Encrypter)
    (dec' : Decrypter) : Lane gcm enc dec (Peer.new enc dec') (Peer.new enc' dec) :=
  ⟨rfl, rfl, nofun, ⟨[], .nil 0, rfl⟩, fun _ => rfl⟩

theorem Sealable.of_append {ms ms' : List PlainMessage}
    (h : Sealable gcm overflow enc (ms ++ ms')) : Sealable gcm overflow enc ms := by
  refine ⟨fun m hm => h.sealed m (List.mem_append_left _ hm), fun hchecks => ?_⟩
  have hfits := h.fits hchecks
  rw [List.length_append] at hfits
  omega

/-- What was pushed at one end comes out at the other, in order, and all of it when nothing
is left on the way. -/
def Delivers (near far : Peer) (pushed : List PlainMessage) : Prop :=
  ∃ waiting, far.received ++ far.backend.incomingPlain ++ waiting = pushed ∧
    (near.backend.outgoingPlain = [] → near.backend.outgoingEncrypted = [] →
      far.backend.incomingEncrypted = [] → waiting = [])

theorem Lane.delivers (h : Lane gcm enc dec near far) : Delivers near far near.pushed := by
  obtain ⟨ms, hsealed, hpushed⟩ := h.inFlight
  refine ⟨ms ++ near.backend.outgoingPlain, ?_, ?_⟩
  · rw [← List.append_assoc, hpushed]
  · intro hplain hencrypted hincoming
    rw [hincoming, hencrypted] at hsealed
    have hlength := hsealed.length_eq
    rw [hplain, List.append_nil, List.eq_nil_of_length_eq_zero hlength]

end Peer

/-! ## Runs -/

inductive Side where
  | left
  | right
deriving DecidableEq

structure Link where
  left : Peer
  right : Peer
deriving DecidableEq

namespace Link

def call (gcm : Aes128Gcm) (overflow : Overflow) (link : Link) :
    Side × Peer.Call → Except (Fault BackendError) Link
  | (.left, c) => (link.left.call gcm overflow link.right c).map fun p => ⟨p.1, p.2⟩
  | (.right, c) => (link.right.call gcm overflow link.left c).map fun p => ⟨p.2, p.1⟩

def run (gcm : Aes128Gcm) (overflow : Overflow) (link : Link) (calls : List (Side × Peer.Call)) :
    Except (Fault BackendError) Link :=
  calls.foldlM (call gcm overflow) link

/-- What is pushed at one side. -/
def pushes (side : Side) (calls : List (Side × Peer.Call)) : List PlainMessage :=
  calls.flatMap fun c => if c.1 = side then c.2.pushes else []

def new (enc : Encrypter) (dec : Decrypter) (enc' : Encrypter) (dec' : Decrypter) : Link :=
  ⟨.new enc dec', .new enc' dec⟩

variable {gcm : Aes128Gcm} {overflow : Overflow} {enc enc' : Encrypter} {dec dec' : Decrypter}
  {link link' : Link}

theorem lanes_call (hgcm : gcm.Lawful) (hmirrors : Mirrors enc dec) (hmirrors' : Mirrors enc' dec')
    (h : Peer.Lanes gcm enc dec enc' dec' link.left link.right) {c : Side × Peer.Call}
    (hc : c.2.Ordinary) (hcall : link.call gcm overflow c = .ok link') :
    Peer.Lanes gcm enc dec enc' dec' link'.left link'.right ∧
      link'.left.pushed = link.left.pushed ++ pushes .left [c] ∧
      link'.right.pushed = link.right.pushed ++ pushes .right [c] := by
  obtain ⟨side, c⟩ := c
  cases side with
  | left =>
      obtain ⟨⟨near, far⟩, hp, rfl⟩ := Fault.map_ok_iff.mp hcall
      obtain ⟨hnear, hfar⟩ := Peer.pushed_of_call hp
      refine ⟨h.call hgcm hmirrors hmirrors' hc hp, ?_, ?_⟩
      · simpa [pushes] using hnear
      · simpa [pushes] using hfar
  | right =>
      obtain ⟨⟨near, far⟩, hp, rfl⟩ := Fault.map_ok_iff.mp hcall
      obtain ⟨hnear, hfar⟩ := Peer.pushed_of_call hp
      have hlanes := Peer.Lanes.call hgcm hmirrors' hmirrors ⟨h.back, h.there⟩ hc hp
      refine ⟨⟨hlanes.back, hlanes.there⟩, ?_, ?_⟩
      · simpa [pushes] using hfar
      · simpa [pushes] using hnear

theorem lanes_run (hgcm : gcm.Lawful) (hmirrors : Mirrors enc dec) (hmirrors' : Mirrors enc' dec')
    {calls : List (Side × Peer.Call)} (hcalls : ∀ c ∈ calls, c.2.Ordinary)
    (h : Peer.Lanes gcm enc dec enc' dec' link.left link.right)
    (hrun : link.run gcm overflow calls = .ok link') :
    Peer.Lanes gcm enc dec enc' dec' link'.left link'.right ∧
      link'.left.pushed = link.left.pushed ++ pushes .left calls ∧
      link'.right.pushed = link.right.pushed ++ pushes .right calls := by
  induction calls generalizing link with
  | nil =>
      cases hrun
      exact ⟨h, (List.append_nil _).symm, (List.append_nil _).symm⟩
  | cons c calls ih =>
      obtain ⟨hc, hcalls⟩ := List.forall_mem_cons.mp hcalls
      rw [run, List.foldlM_cons] at hrun
      obtain ⟨link₁, hcall, hrun⟩ := Fault.bind_ok_iff.mp hrun
      obtain ⟨hlanes, hleft, hright⟩ := lanes_call hgcm hmirrors hmirrors' h hc hcall
      obtain ⟨hlanes', hleft', hright'⟩ := ih hcalls hlanes hrun
      refine ⟨hlanes', ?_, ?_⟩
      · rw [hleft', hleft, List.append_assoc, pushes, pushes, pushes, ← List.flatMap_append,
          List.singleton_append]
      · rw [hright', hright, List.append_assoc, pushes, pushes, pushes, ← List.flatMap_append,
          List.singleton_append]

theorem run_total (hgcm : gcm.Lawful) (hmirrors : Mirrors enc dec) (hmirrors' : Mirrors enc' dec')
    {calls : List (Side × Peer.Call)} (hcalls : ∀ c ∈ calls, c.2.Ordinary)
    (h : Peer.Lanes gcm enc dec enc' dec' link.left link.right)
    (hseal : Peer.Sealable gcm overflow enc (link.left.pushed ++ pushes .left calls))
    (hseal' : Peer.Sealable gcm overflow enc' (link.right.pushed ++ pushes .right calls)) :
    ∃ link', link.run gcm overflow calls = .ok link' := by
  induction calls generalizing link with
  | nil => exact ⟨link, rfl⟩
  | cons c calls ih =>
      obtain ⟨hc, hcalls⟩ := List.forall_mem_cons.mp hcalls
      have hcall : ∃ link₁, link.call gcm overflow c = .ok link₁ := by
        obtain ⟨side, c⟩ := c
        cases side with
        | left =>
            obtain ⟨near, far, hp⟩ :=
              h.call_total hgcm hmirrors hmirrors' hseal.of_append hseal'.of_append c
            exact ⟨⟨near, far⟩, Fault.map_ok_iff.mpr ⟨_, hp, rfl⟩⟩
        | right =>
            obtain ⟨near, far, hp⟩ := Peer.Lanes.call_total hgcm hmirrors' hmirrors
              ⟨h.back, h.there⟩ hseal'.of_append hseal.of_append c
            exact ⟨⟨far, near⟩, Fault.map_ok_iff.mpr ⟨_, hp, rfl⟩⟩
      obtain ⟨link₁, hcall⟩ := hcall
      obtain ⟨hlanes, hleft, hright⟩ := lanes_call hgcm hmirrors hmirrors' h hc hcall
      obtain ⟨link', hrun⟩ := ih hcalls hlanes
        (by
          rw [hleft, List.append_assoc, pushes, pushes, ← List.flatMap_append,
            List.singleton_append]
          exact hseal)
        (by
          rw [hright, List.append_assoc, pushes, pushes, ← List.flatMap_append,
            List.singleton_append]
          exact hseal')
      refine ⟨link', ?_⟩
      rw [run, List.foldlM_cons]
      exact Fault.bind_ok_iff.mpr ⟨link₁, hcall, hrun⟩

end Link

/-- The plain backend aborts on a record which is too short for a nonce and a tag, and on
no other. It opens what it seals, and what is pushed at one end comes out at the other. -/
theorem RustCryptoBackend.opens_what_it_seals (gcm : Aes128Gcm) (hgcm : gcm.Lawful)
    (overflow : Overflow) :
    (∀ (b : RustCryptoBackend) (msg : OpaqueMessage) (seq : Nat),
      b.decrypt gcm overflow msg seq ≠ .error .panic ↔
        (b.Deciphers msg → msg.typ ≠ .changeCipherSpec →
          minRecord overflow ≤ msg.payload.length)) ∧
    (∀ (enc : Encrypter) (dec : Decrypter), Mirrors enc dec →
      ∀ b b' : RustCryptoBackend, b.encrypter = some enc → b'.decrypter = some dec →
        ∀ (m : PlainMessage) (seq : Nat) (sealed : OpaqueMessage), m.Ordinary →
          b.encrypt gcm m seq = .ok sealed → b'.decrypt gcm overflow sealed seq = .ok m) ∧
    ∀ (enc enc' : Encrypter) (dec dec' : Decrypter), Mirrors enc dec → Mirrors enc' dec' →
      ∀ calls : List (Side × Peer.Call), (∀ c ∈ calls, c.2.Ordinary) →
        (∀ link, (Link.new enc dec enc' dec').run gcm overflow calls = .ok link →
          link.left.Delivers link.right (Link.pushes .left calls) ∧
            link.right.Delivers link.left (Link.pushes .right calls)) ∧
        (Peer.Sealable gcm overflow enc (Link.pushes .left calls) →
          Peer.Sealable gcm overflow enc' (Link.pushes .right calls) →
          ∃ link, (Link.new enc dec enc' dec').run gcm overflow calls = .ok link) := by
  refine ⟨?_, ?_, ?_⟩
  · intro b msg seq
    rw [Ne, decrypt_panic_iff, not_and, not_and, Nat.not_lt]
  · intro enc dec hmirrors b b' henc hdec m seq sealed hm hseal
    rw [encrypt_eq henc hmirrors.sender hm.version] at hseal
    obtain ⟨_, hversion, hopen⟩ := hmirrors.opens overflow hgcm hm.typ hseal
    rw [decrypt_eq hdec hmirrors.receiver (hversion.trans hm.version), hopen]
  · intro enc enc' dec dec' hmirrors hmirrors' calls hcalls
    have hnew : Peer.Lanes gcm enc dec enc' dec' (Link.new enc dec enc' dec').left
        (Link.new enc dec enc' dec').right :=
      ⟨.new gcm enc dec enc' dec', .new gcm enc' dec' enc dec⟩
    constructor
    · intro link hrun
      obtain ⟨hlanes, hleft, hright⟩ := Link.lanes_run hgcm hmirrors hmirrors' hcalls hnew hrun
      have hthere := hlanes.there.delivers
      have hback := hlanes.back.delivers
      rw [hleft] at hthere
      rw [hright] at hback
      exact ⟨hthere, hback⟩
    · intro hseal hseal'
      exact Link.run_total hgcm hmirrors hmirrors' hcalls hnew hseal hseal'

/-- A text, and what it is sealed to as record `seq` under the key of zeroes. -/
structure Greeting where
  seq : Nat
  text : List UInt8
  sealed : List UInt8

def greetings : List Greeting :=
  [⟨0, [104, 105],
      [107, 225, 58, 251, 21, 76, 72, 115, 234, 81, 228, 145, 166, 7, 154, 202, 188, 225]⟩,
    ⟨1, [97, 32, 108, 111, 110, 103, 101, 114, 32, 109, 101, 115, 115, 97, 103, 101, 33],
      [15, 33, 181, 95, 105, 239, 23, 207, 123, 95, 137, 231, 22, 156, 32, 253, 228, 66, 111, 62,
        156, 123, 135, 234, 37, 204, 133, 211, 250, 248, 61, 142, 164]⟩,
    ⟨0, [98, 121, 101],
      [97, 241, 191, 210, 155, 154, 211, 145, 89, 223, 28, 246, 227, 127, 194, 212, 155, 251, 88]⟩]

namespace Greeting

/-- The greeting is the record with this key, nonce and additional data. -/
def Fits (key nonce aad : List UInt8) (g : Greeting) : Prop :=
  key = List.replicate 16 0 ∧ nonce = List.replicate 4 0 ++ beBytes 8 g.seq ∧
    aad = makeTls12Aad g.seq .applicationData .tlsV1_2 g.text.length

instance (key nonce aad : List UInt8) : DecidablePred (Fits key nonce aad) := fun g =>
  inferInstanceAs (Decidable (key = List.replicate 16 0 ∧
    nonce = List.replicate 4 0 ++ beBytes 8 g.seq ∧
    aad = makeTls12Aad g.seq .applicationData .tlsV1_2 g.text.length))

end Greeting

/-- The cipher on the greetings. -/
def greetingGcm : Aes128Gcm where
  encrypt key nonce aad msg :=
    (greetings.find? fun g => g.Fits key nonce aad ∧ msg = g.text).map Greeting.sealed
  decrypt key nonce aad msg :=
    (greetings.find? fun g => g.Fits key nonce aad ∧ msg = g.sealed).map Greeting.text

theorem greetingGcm_lawful : greetingGcm.Lawful := by
  have hfound : ∀ {key nonce aad msg sealed : List UInt8},
      greetingGcm.encrypt key nonce aad msg = some sealed → ∃ g ∈ greetings,
        g.Fits key nonce aad ∧ msg = g.text ∧ sealed = g.sealed := by
    intro key nonce aad msg sealed h
    obtain ⟨g, hg, rfl⟩ := Option.map_eq_some_iff.mp h
    have hfits := List.find?_some hg
    rw [decide_eq_true_eq] at hfits
    exact ⟨g, List.mem_of_find?_eq_some hg, hfits.1, hfits.2, rfl⟩
  constructor
  · intro key nonce aad msg sealed h
    obtain ⟨g, hg, -, rfl, rfl⟩ := hfound h
    clear h
    revert g
    decide
  · intro key nonce aad msg sealed h
    obtain ⟨g, hg, ⟨rfl, rfl, rfl⟩, rfl, rfl⟩ := hfound h
    clear h
    revert g
    decide +kernel

def zeroEncrypter : Encrypter := ⟨.replicate 16 0, .replicate 4 0, .ecdheRsaWithAes128GcmSha256⟩

def zeroDecrypter : Decrypter := ⟨.replicate 16 0, .replicate 4 0, .ecdheRsaWithAes128GcmSha256⟩

theorem zero_mirrors : Mirrors zeroEncrypter zeroDecrypter := ⟨rfl, rfl, .inl rfl, .inl rfl⟩

/-- Two greetings one way and one the other way. -/
def greetingCalls : List (Side × Peer.Call) :=
  [(.left, .push ⟨.applicationData, .tlsV1_2, [104, 105]⟩),
    (.left, .push ⟨.applicationData, .tlsV1_2,
      [97, 32, 108, 111, 110, 103, 101, 114, 32, 109, 101, 115, 115, 97, 103, 101, 33]⟩),
    (.right, .push ⟨.applicationData, .tlsV1_2, [98, 121, 101]⟩), (.left, .flush),
    (.left, .carry), (.right, .flush), (.right, .carry), (.left, .carry), (.right, .flush),
    (.left, .flush), (.right, .pull), (.left, .pull)]

/-- The greetings are delivered. -/
theorem RustCryptoBackend.opens_greeting :
    ∃ link, (Link.new zeroEncrypter zeroDecrypter zeroEncrypter zeroDecrypter).run greetingGcm
        .checks greetingCalls = .ok link ∧
      link.left.Delivers link.right [⟨.applicationData, .tlsV1_2, [104, 105]⟩,
        ⟨.applicationData, .tlsV1_2,
          [97, 32, 108, 111, 110, 103, 101, 114, 32, 109, 101, 115, 115, 97, 103, 101, 33]⟩] ∧
      link.right.Delivers link.left [⟨.applicationData, .tlsV1_2, [98, 121, 101]⟩] := by
  have hcalls : ∀ c ∈ greetingCalls, c.2.Ordinary := by
    simp only [greetingCalls, List.forall_mem_cons, Peer.Call.Ordinary, List.not_mem_nil,
      false_implies, implies_true, and_true]
    exact ⟨⟨rfl, nofun⟩, ⟨rfl, nofun⟩, rfl, nofun⟩
  have hruns := (opens_what_it_seals greetingGcm greetingGcm_lawful .checks).2.2 zeroEncrypter
    zeroEncrypter zeroDecrypter zeroDecrypter zero_mirrors zero_mirrors _ hcalls
  have hok : ((Link.new zeroEncrypter zeroDecrypter zeroEncrypter zeroDecrypter).run greetingGcm
      .checks greetingCalls).toOption.isSome = true := by
    decide +kernel
  exact ⟨_, Fault.ok_get hok, hruns.1 _ (Fault.ok_get hok)⟩

/-- A record without a payload, which a server may send when records are encrypted. -/
theorem RustCryptoBackend.decrypt_empty_panics :
    (Peer.new zeroEncrypter zeroDecrypter).backend.decrypt greetingGcm .checks
        ⟨.applicationData, .tlsV1_2, []⟩ 0 = .error .panic ∧
      (Peer.new zeroEncrypter zeroDecrypter).backend.decrypt greetingGcm .wraps
        ⟨.applicationData, .tlsV1_2, []⟩ 0 = .error .panic ∧
      OpaqueMessage.checkHeader .applicationData .tlsV1_2 0 = .ok () := by
  decide +kernel

end Tlsn.Tls

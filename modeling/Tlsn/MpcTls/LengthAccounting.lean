import Tlsn.MpcTls.FollowerTranscript

/-!
The lengths which the leader announces. The follower keeps the sum of them in a machine
word, and compares what is in the word with its limit.
-/

namespace Tlsn.MpcTls

open Tlsn.Cipher Tlsn.Common Tlsn.Tls

/-! ## Padding -/

/-- The bytes of keystream which are taken for a record. -/
def paddedLen (len : Nat) : Nat := wrap (divCeil len 16 * 16)

/-- Below a limit whose own blocks fit in a word, padding does not wrap. -/
theorem le_paddedLen {len max : Nat} (hlen : len ≤ max) (hmax : 16 * divCeil max 16 < wordSize) :
    len ≤ paddedLen len := by
  obtain ⟨hle, hlt⟩ := divCeil_mul len 16 (by decide)
  have hle' := (divCeil_mul max 16 (by decide)).1
  have hword : divCeil len 16 * 16 < wordSize := by
    unfold wordSize at hmax ⊢
    omega
  rwa [paddedLen, wrap_of_lt hword]

namespace Resources

variable {role : Role} {vm : Vm} {r : Resources} {explicitNonce : List UInt8} {len : Nat}

end Resources

/-! ## What is allocated -/

/-- What an allocated layer counts from. -/
theorem LayerParams.alloc_counts {p : LayerParams} {vm : Vm} {s : Vm × RecordLayer}
    (h : p.alloc (vm, p.create) = .ok () s) :
    s.2.sent = 0 ∧ s.2.maxSent = p.sentLen ∧ 16 * divCeil p.sentLen 16 < wordSize := by
  obtain ⟨⟨⟩, s₁, htake, h₁⟩ := Fault.run_bind_ok_iff.mp h
  cases htake
  obtain ⟨⟨⟩, s₂, hencrypt, h₂⟩ := Fault.run_bind_ok_iff.mp h₁
  obtain ⟨t, hencrypt', rfl⟩ := RecordLayer.onEncrypter_ok_iff.mp hencrypt
  obtain ⟨⟨⟩, s₃, hdecrypt, h₃⟩ := Fault.run_bind_ok_iff.mp h₂
  obtain ⟨u, -, rfl⟩ := RecordLayer.onDecrypter_ok_iff.mp hdecrypt
  obtain ⟨⟨⟩, s₄, hctr, h₄⟩ := Fault.run_bind_ok_iff.mp h₃
  obtain ⟨v, -, rfl⟩ := RecordLayer.onAesCtr_ok_iff.mp hctr
  cases h₄
  obtain ⟨stock, ghashKey, -, hallocated, -⟩ :=
    MpcAesGcm.alloc_ok rfl rfl p.sentLen.isLt (Fault.adapt_ok_iff.mp hencrypt')
  have hword := hallocated.sized.lt_word
  rw [hallocated.blocks] at hword
  refine ⟨rfl, ?_, hword⟩
  exact (congrArg wrap (Nat.zero_add _)).trans (wrap_of_lt p.sentLen.isLt)

namespace Follower

variable {K P C D : Type} {session : Session K P C D} {peer : PeerShares C D} {message : Message}
  {messages : List (Message × PeerShares C D)} {s s' : FollowerState K P} {p : LayerParams}
  {start : RecordLayer} {calls : List (LayerCall C D)}

/-! ## Runs -/

/-- The messages, one after the other. -/
def processAll (session : Session K P C D) :
    List (Message × PeerShares C D) → EStateM (Fault MpcTlsError) (FollowerState K P) Unit
  | [] => return ()
  | (message, peer) :: messages => do
      process session peer message
      processAll session messages

theorem Ready.counts (hready : Ready p s) :
    s.recordLayer.sent = 0 ∧ s.recordLayer.maxSent = p.sentLen ∧
      16 * divCeil p.sentLen 16 < wordSize := by
  obtain ⟨vm, s₁, halloc, hlayer, -⟩ := hready.alloc
  rw [hlayer]
  exact LayerParams.alloc_counts halloc

/-- The length of a record which is to be encrypted. -/
def encryptLen : Message → List Nat
  | .encrypt _ _ len _ _ => [len]
  | _ => []

def encryptLens (messages : List (Message × PeerShares C D)) : List Nat :=
  messages.flatMap fun m => encryptLen m.1

theorem encryptLens_cons (m : Message × PeerShares C D) :
    encryptLens (m :: messages) = encryptLen m.1 ++ encryptLens messages := List.flatMap_cons

/-- The limit holds of the lengths themselves, at each record that is accepted, and each
of them is covered by the keystream taken for it. -/
structure Accounted (max : Nat) (lens : List Nat) : Prop where
  sum : ∀ accepted, accepted <+: lens → accepted.sum ≤ max
  padded : ∀ len ∈ lens, len ≤ paddedLen len

/-- Flushing does not count what is sent. -/
theorem Layered.flush_counts {isDecrypting : Bool} {vm : Vm} {layer : RecordLayer}
    (h : Layered session p start calls s)
    (hrun : RecordLayer.flush session.scheme session.mem peer isDecrypting (s.vm, s.recordLayer) =
      .ok () (vm, layer)) :
    layer.sent = s.recordLayer.sent ∧ layer.maxSent = s.recordLayer.maxSent := by
  unfold Layered at h
  cases hserver : s.serverKey with
  | none =>
      rw [hserver] at h
      obtain ⟨vm₀, s₁, -, -, -, hcalls⟩ := h
      cases (RecordLayer.Waiting.flush (s := (s.vm, s.recordLayer)) hcalls.waiting hrun).2
      exact ⟨rfl, rfl⟩
  | some key =>
      rw [hserver] at h
      obtain ⟨s₀, vm₀, hstart, hcalls, hlog⟩ := h
      obtain ⟨e, d, hprogress, -⟩ :
          ∃ e d : Stock, Progress p e d session.scheme session.mem .empty s₀ ∧ _ :=
        Progress.of_established hstart.established
      obtain ⟨trace, hfinal, -⟩ := hprogress.runAll calls hcalls
      have hfinal' := hfinal.widen hlog
      obtain ⟨tags, -, heq⟩ :=
        (RecordLayer.flush_ok_iff hfinal'.stocked hfinal'.buffered hfinal'.state).mp hrun
      cases heq
      exact ⟨rfl, rfl⟩

/-- What one message adds to the count. -/
theorem Processed.counts (h : Processed session peer s message s')
    (hlayered : Layered session p start calls s) :
    s'.recordLayer.maxSent = s.recordLayer.maxSent ∧
      (∀ len ∈ encryptLen message, wrap (s.recordLayer.sent + len) ≤ s.recordLayer.maxSent) ∧
      s'.recordLayer.sent = (encryptLen message).foldl (fun sent len => wrap (sent + len))
        s.recordLayer.sent := by
  have hnone : ∀ len ∈ ([] : List Nat), wrap (s.recordLayer.sent + len) ≤ s.recordLayer.maxSent :=
    fun len hlen => nomatch hlen
  cases h with
  | setServerRandom => exact ⟨rfl, hnone, rfl⟩
  | setServerKey _ hsetup =>
      obtain ⟨encrypter, decrypter, heq, -⟩ := RecordLayer.setup_equip hsetup
      cases heq
      exact ⟨rfl, hnone, rfl⟩
  | clientFinishedVd _ => exact ⟨rfl, hnone, rfl⟩
  | serverFinishedVd _ => exact ⟨rfl, hnone, rfl⟩
  | closeConnection => exact ⟨rfl, hnone, rfl⟩
  | @layer _ call vm layer hcall hrun =>
      cases message with
      | encrypt typ version len plaintext mode =>
          cases hcall
          obtain ⟨hpush, -⟩ := Fault.onSnd_ok_iff.mp hrun
          obtain ⟨-, hmax, -, heq⟩ := RecordLayer.pushEncrypt_ok_iff.mp hpush
          cases (heq : layer = _)
          exact ⟨rfl, fun len' hlen' => List.mem_singleton.mp hlen' ▸ hmax, rfl⟩
      | decrypt typ version explicitNonce ciphertext tag mode =>
          cases hcall
          obtain ⟨hpush, -⟩ := Fault.onSnd_ok_iff.mp hrun
          obtain ⟨-, -, heq⟩ := RecordLayer.pushDecrypt_ok_iff.mp hpush
          cases (heq : layer = _)
          exact ⟨rfl, hnone, rfl⟩
      | startTraffic =>
          cases hcall
          cases hrun
          exact ⟨rfl, hnone, rfl⟩
      | flush isDecrypting =>
          cases hcall
          obtain ⟨hsent, hmax⟩ := hlayered.flush_counts hrun
          exact ⟨hmax, hnone, hsent⟩
      | setServerRandom _ => cases hcall
      | setServerKey _ => cases hcall
      | clientFinishedVd _ => cases hcall
      | serverFinishedVd _ => cases hcall
      | closeConnection => cases hcall

theorem encryptLen_le_one (message : Message) :
    encryptLen message = [] ∨ ∃ len, encryptLen message = [len] := by
  cases message with
  | encrypt _ _ len _ _ => exact .inr ⟨len, rfl⟩
  | _ => exact .inl rfl

/-- While the sum fits in a word, it is what the follower counts. -/
theorem processAll_sum (hlayered : Layered session p start calls s)
    (hsent : s.recordLayer.sent ≤ s.recordLayer.maxSent)
    (h : processAll session messages s = .ok () s')
    (hword : s.recordLayer.sent + (encryptLens messages).sum < wordSize) :
    s.recordLayer.sent + (encryptLens messages).sum ≤ s.recordLayer.maxSent := by
  induction messages generalizing s calls with
  | nil => exact hsent
  | cons m messages ih =>
      obtain ⟨message, peer⟩ := m
      obtain ⟨⟨⟩, s₁, hprocess, hrest⟩ := Fault.run_bind_ok_iff.mp h
      have hprocessed : Processed session peer s message s₁ := process_ok hprocess
      obtain ⟨hmax, hlimit, hcount⟩ := hprocessed.counts hlayered
      have hnext := ih (hprocessed.layered hlayered)
      rw [encryptLens_cons, List.sum_append] at hword ⊢
      rw [hmax, hcount] at hnext
      cases encryptLen_le_one message with
      | inl hnone =>
          simp only [hnone, List.foldl_nil, List.sum_nil, Nat.zero_add] at hnext hword ⊢
          exact hnext hsent hrest hword
      | inr hsome =>
          obtain ⟨len, hlen⟩ := hsome
          have haccepted := hlimit len (by rw [hlen]; exact List.mem_singleton_self len)
          simp only [hlen, List.foldl_cons, List.foldl_nil, List.sum_singleton] at hnext hword ⊢
          rw [wrap_of_lt (by omega)] at hnext haccepted
          have hsum := hnext haccepted hrest (by omega)
          omega

/-- The limit holds of the lengths exactly while their sum fits in a word. -/
theorem accounted_iff (hready : Ready p s) (h : processAll session messages s = .ok () s') :
    Accounted s.recordLayer.maxSent (encryptLens messages) ↔
      (encryptLens messages).sum < wordSize := by
  obtain ⟨hsent, hmax, hword⟩ := hready.counts
  have hlt : s.recordLayer.maxSent < wordSize := by
    rw [hmax]
    exact p.sentLen.isLt
  constructor
  · intro haccounted
    exact Nat.lt_of_le_of_lt (haccounted.sum _ (List.prefix_refl _)) hlt
  · intro hfits
    have hsum := processAll_sum hready.layered (hsent ▸ Nat.zero_le _) h
      (by rw [hsent, Nat.zero_add]; exact hfits)
    rw [hsent, Nat.zero_add] at hsum
    constructor
    · rintro accepted ⟨rest, heq⟩
      rw [← heq, List.sum_append] at hsum
      omega
    · intro len hlen
      obtain ⟨before, after, heq⟩ := List.append_of_mem hlen
      rw [heq, List.sum_append, List.sum_cons] at hsum
      have hle : len ≤ s.recordLayer.maxSent := by omega
      rw [hmax] at hle
      exact le_paddedLen hle hword

/-- Records whose lengths bring the count back to where it was. -/
def sampleEncrypt (len : Fin wordSize) : Message × PeerShares (List TagShare) (List TagShare) :=
  (.encrypt .applicationData .tlsV1_2 len none .isPrivate, samplePeer)

def wrappedLen : Fin wordSize := ⟨0xfffffffffffffffc, by decide⟩

/-- Records of different lengths. -/
def sampleEncrypts : List (Message × PeerShares (List TagShare) (List TagShare)) :=
  [⟨8, eight_lt_wordSize⟩, ⟨1, one_lt_wordSize⟩, ⟨2, two_lt_wordSize⟩].map sampleEncrypt

theorem sampleProcess_ok :
    (Fault.result? (processAll sampleSession sampleEncrypts sampleState)).isSome = true := by
  decide +kernel

def sampleProcessed : FollowerState Unit Unit := (Option.get _ sampleProcess_ok).2

theorem sampleProcess_eq : processAll sampleSession sampleEncrypts sampleState =
    .ok () sampleProcessed :=
  Fault.ok_get_state sampleProcess_ok

theorem accounted_sample :
    encryptLens sampleEncrypts = [8, 1, 2] ∧
      Accounted sampleState.recordLayer.maxSent (encryptLens sampleEncrypts) :=
  ⟨rfl, (accounted_iff sampleState_ready sampleProcess_eq).mpr (by decide)⟩

theorem wrappedProcess_ok : (Fault.result? (processAll sampleSession
    [sampleEncrypt ⟨8, eight_lt_wordSize⟩, sampleEncrypt wrappedLen]
      sampleState)).isSome = true := by
  decide +kernel

def wrappedProcessed : FollowerState Unit Unit := (Option.get _ wrappedProcess_ok).2

theorem wrappedProcess_eq : processAll sampleSession
    [sampleEncrypt ⟨8, by decide⟩, sampleEncrypt wrappedLen] sampleState =
      .ok () wrappedProcessed :=
  Fault.ok_get_state wrappedProcess_ok

/-- Both records are accepted, and no keystream would be taken for the second. -/
theorem wrapped_accepted :
    Ready sampleParams sampleState ∧
      processAll sampleSession [sampleEncrypt ⟨8, by decide⟩, sampleEncrypt wrappedLen]
        sampleState = .ok () wrappedProcessed ∧
      paddedLen wrappedLen = 0 ∧
      ¬ Accounted sampleState.recordLayer.maxSent
        (encryptLens [sampleEncrypt ⟨8, by decide⟩, sampleEncrypt wrappedLen]) := by
  refine ⟨sampleState_ready, wrappedProcess_eq, by decide +kernel, ?_⟩
  rw [sampleState_ready.counts.2.1]
  intro haccounted
  exact absurd (haccounted.sum _ (List.prefix_refl _)) (by decide)

end Follower

end Tlsn.MpcTls

import Tlsn.MpcTls.FollowerTranscript
import Tlsn.MpcTls.PadAccounting

/-!
The pad of the leader over whole runs. What is left covers what may still be decrypted
online, and each part that is gone masks the keystream of one record.
-/

namespace Tlsn.MpcTls

open Tlsn.Cipher Tlsn.Common Tlsn.Tls

/-- The accounts when the layer has been allocated. -/
theorem LayerParams.recvOtp_eq (p : LayerParams) :
    (match p.role with
      | .leader => some ((List.range p.recvLenOnline).map p.pads.recvOtp)
      | .follower => none) = p.recvOtp := rfl

theorem LayerParams.alloc_padded {p : LayerParams} {vm : Vm} {s : Vm × RecordLayer}
    (hrole : p.role = .leader) (h : p.alloc (vm, p.create) = .ok () s) :
    ∃ L N, 16 * N < wordSize ∧ L.Called p.serverWriteKey p.serverIv N s.1 ∧ Padded p L N [] s := by
  obtain ⟨⟨⟩, s₁, htake, h₁⟩ := Fault.run_bind_ok_iff.mp h
  cases htake
  obtain ⟨⟨⟩, s₂, hencrypt, h₂⟩ := Fault.run_bind_ok_iff.mp h₁
  obtain ⟨t, -, rfl⟩ := RecordLayer.onEncrypter_ok_iff.mp hencrypt
  obtain ⟨⟨⟩, s₃, hdecrypt, h₃⟩ := Fault.run_bind_ok_iff.mp h₂
  obtain ⟨u, hdecrypt', rfl⟩ := RecordLayer.onDecrypter_ok_iff.mp hdecrypt
  obtain ⟨⟨⟩, s₄, hctr, h₄⟩ := Fault.run_bind_ok_iff.mp h₃
  obtain ⟨v, hctr', rfl⟩ := RecordLayer.onAesCtr_ok_iff.mp hctr
  cases h₄
  obtain ⟨stock, ghashKey, hstate, hallocated, hgcmRole, -⟩ :=
    MpcAesGcm.alloc_ok rfl rfl p.recvLenOnline.isLt (Fault.adapt_ok_iff.mp hdecrypt')
  have hcalled := (hallocated.extends (AesCtr.alloc_extends hctr')).called
  refine ⟨stock.layout, stock.blocks, hallocated.sized.lt_word, hcalled, ?_⟩
  refine ⟨fun _ h => (List.not_mem_nil h).elim, Nat.zero_le _, ?_, Nat.zero_le _, Nat.le_refl _,
    fun _ h => (List.not_mem_nil h).elim, trivial, fun _ h => (List.not_mem_nil h).elim, ?_,
    List.nil_sublist _⟩
  · show wrap (0 + p.recvLenOnline) = p.recvLenOnline
    rw [Nat.zero_add, wrap_of_lt p.recvLenOnline.isLt]
  · intro _
    refine ⟨hgcmRole.trans hrole, fun r hr => ?_, p.recvOtp_eq, trivial,
      fun _ h => (List.not_mem_nil h).elim⟩
    rw [MpcAesGcm.resources?, show u.2.state = _ from hstate] at hr
    cases hr
    exact ⟨stock.j0s, rfl⟩

/-- A part of the pad, the record it was taken for, and where in the machine it is. -/
structure Masking where
  record : DecryptOp
  pos : Nat
  otp : List UInt8

namespace Masking

variable (L : Layout) (m : Masking)

/-- The input which the part of the pad is assigned to. -/
def otpRef : Slice := ⟨L.input + m.pos, m.record.ciphertext.length⟩

/-- The keystream of the record. -/
def keystream : Slice := ⟨L.keystream + m.pos, m.record.ciphertext.length⟩

/-- What is decoded. -/
def masked : Slice := ⟨L.output + m.pos, m.record.ciphertext.length⟩

/-- The part of the pad is as long as the record, it is assigned in the machine, and what
is decoded is the keystream of the record, masked with it. -/
structure Sound (p : LayerParams) (L : Layout) (vm : Vm) (m : Masking) : Prop where
  applicationData : m.record.typ = .applicationData
  length : m.otp.length = m.record.ciphertext.length
  assigned : .assign (m.otpRef L) m.otp ∈ vm.log
  masks : ∀ aes mem, vm.Holds aes mem →
    mem.read (m.masked L) = xorBytes m.otp (mem.read (m.keystream L))
  keystream_eq : ∀ aes mem, vm.Holds aes mem → mem.read (m.keystream L) =
    (ctrKeystream aes (mem.read p.serverWriteKey) (mem.read p.serverIv) m.record.explicitNonce
      startCtr m.record.blockCount).take m.record.ciphertext.length

end Masking

namespace DecryptOp

/-- The parts of the pad which the records take, the first one from the end. -/
def maskings : Nat → Option (List UInt8) → List DecryptOp → List Masking
  | _, _, [] => []
  | n, pad, op :: ops =>
      (match op.mode with
      | .isPrivate => (op.padOf pad).toList.map fun otp => ⟨op, 16 * (n - op.blockCount), otp⟩
      | .isPublic => []) ++ maskings (n - op.blockCount) (op.padAfter pad) ops

/-- The parts, put together from the last one on, are what the pad has lost. -/
theorem pad_eq_maskings {n : Nat} {pad : List UInt8} {ops : List DecryptOp}
    (h : FitFrom n (some pad) ops) : ∃ rest, padRest (some pad) ops = some rest ∧
      pad = rest ++ ((maskings n (some pad) ops).reverse.map Masking.otp).flatten := by
  induction ops generalizing n pad with
  | nil => exact ⟨pad, rfl, (List.append_nil pad).symm⟩
  | cons op ops ih =>
      cases hmode : op.mode with
      | isPrivate =>
          have hafter : op.padAfter (some pad) =
              some (pad.take (pad.length - op.ciphertext.length)) := by
            rw [padAfter, hmode, Option.map_some]
          have hrest := h.2
          rw [hafter] at hrest
          obtain ⟨rest, heq, hpad⟩ := ih hrest
          refine ⟨rest, ?_, ?_⟩
          · rw [padRest, hafter, heq]
          · rw [maskings, hmode, hafter, padOf]
            simp only [Option.map_some, Option.toList_some, List.map_cons, List.map_nil,
              List.singleton_append, List.reverse_cons, List.map_append, List.flatten_append,
              List.flatten_cons, List.flatten_nil, List.append_nil]
            rw [← List.append_assoc, ← hpad, List.take_append_drop]
      | isPublic =>
          have hafter : op.padAfter (some pad) = some pad := by rw [padAfter, hmode]
          have hrest := h.2
          rw [hafter] at hrest
          obtain ⟨rest, heq, hpad⟩ := ih hrest
          refine ⟨rest, ?_, ?_⟩
          · rw [padRest, hafter, heq]
          · rw [maskings, hmode, hafter]
            exact hpad

/-- The parts are taken for the private records, in their order. -/
theorem maskings_record {n : Nat} {pad : List UInt8} (ops : List DecryptOp) :
    (maskings n (some pad) ops).map Masking.record = ops.filter fun op => op.mode = .isPrivate := by
  induction ops generalizing n pad with
  | nil => rfl
  | cons op ops ih =>
      cases hmode : op.mode with
      | isPrivate =>
          rw [maskings, hmode, padAfter, hmode, padOf, List.filter_cons_of_pos (by rw [hmode]; rfl)]
          simp only [Option.map_some, Option.toList_some, List.map_cons, List.map_nil,
            List.singleton_append, ih]
      | isPublic =>
          rw [maskings, hmode, padAfter, hmode,
            List.filter_cons_of_neg (by rw [hmode]; exact Bool.false_ne_true)]
          simp only [List.nil_append, ih]

/-- The parts stay below the blocks that were left when they were taken. -/
theorem maskings_bound {n : Nat} {pad : Option (List UInt8)} {ops : List DecryptOp}
    (h : FitFrom n pad ops) :
    ∀ m ∈ maskings n pad ops, m.pos + 16 * m.record.blockCount ≤ 16 * n := by
  induction ops generalizing n pad with
  | nil => exact fun _ hm => (List.not_mem_nil hm).elim
  | cons op ops ih =>
      obtain ⟨hfits, hrest⟩ := h
      have hle := hfits.2.1
      intro m hm
      rw [maskings] at hm
      cases List.mem_append.mp hm with
      | inl hm =>
          cases hmode : op.mode with
          | isPrivate =>
              rw [hmode] at hm
              obtain ⟨otp, -, rfl⟩ := List.mem_map.mp hm
              simp only
              omega
          | isPublic =>
              rw [hmode] at hm
              exact (List.not_mem_nil hm).elim
      | inr hm =>
          have := ih hrest m hm
          omega

/-- No two records have their keystream in one place. -/
theorem maskings_disjoint (L : Layout) {n : Nat} {pad : Option (List UInt8)} {ops : List DecryptOp}
    (h : FitFrom n pad ops) :
    (maskings n pad ops).Pairwise fun a b => (a.keystream L).Disjoint (b.keystream L) := by
  induction ops generalizing n pad with
  | nil => exact List.Pairwise.nil
  | cons op ops ih =>
      obtain ⟨hfits, hrest⟩ := h
      have hle := hfits.2.1
      rw [maskings, List.pairwise_append]
      refine ⟨?_, ih hrest, ?_⟩
      · cases op.mode with
        | isPrivate =>
            cases op.padOf pad with
            | none => exact List.Pairwise.nil
            | some otp => exact List.pairwise_singleton _ _
        | isPublic => exact List.Pairwise.nil
      · intro a ha b hb
        have hbound := maskings_bound hrest b hb
        have hblocks := b.record.le_blocks
        cases hmode : op.mode with
        | isPublic =>
            rw [hmode] at ha
            exact (List.not_mem_nil ha).elim
        | isPrivate =>
            rw [hmode] at ha
            obtain ⟨otp, -, rfl⟩ := List.mem_map.mp ha
            right
            simp only [Masking.keystream, Slice.stop]
            omega

theorem masking_sound {p : LayerParams} {L : Layout} {N n : Nat} {pad : List UInt8} {vm : Vm}
    {op : DecryptOp} (hcalled : L.Called p.serverWriteKey p.serverIv N vm) (hn : n ≤ N)
    (hfits : op.FitsAt n (some pad)) (hmode : op.mode = .isPrivate) (hwire : op.FromWire)
    (hlog : ∀ o ∈ op.opsAt .leader L n (some pad), o ∈ vm.log) :
    Masking.Sound p L vm ⟨op, 16 * (n - op.blockCount),
      pad.drop (pad.length - op.ciphertext.length)⟩ := by
  have hpad := hfits.2.2
  rw [hmode] at hpad
  have hle := hpad pad rfl
  have hassign : VmOp.assign ⟨L.input + 16 * (n - op.blockCount), op.ciphertext.length⟩
      (pad.drop (pad.length - op.ciphertext.length)) ∈ vm.log := by
    apply hlog
    simp only [opsAt, hmode, padOf, Option.map_some]
    exact List.mem_append_left _ (List.mem_append_right _ (List.mem_singleton_self _))
  have hblocks : n - op.blockCount + op.blockCount ≤ n := by
    have := hfits.2.1
    omega
  have hkeystream : ∀ mem : Memory, mem.read ⟨L.keystream + 16 * (n - op.blockCount),
      op.ciphertext.length⟩ = (keystreamBytes mem (L.blocks (n - op.blockCount) op.blockCount)).take
        op.ciphertext.length := by
    intro mem
    rw [Layout.blocks, keystreamBytes_ctrBlocks, Memory.take_read _ _ op.le_blocks]
  have hlength : (pad.drop (pad.length - op.ciphertext.length)).length = op.ciphertext.length := by
    rw [List.length_drop]
    omega
  constructor
  · have htyp := hwire.1
    rw [hmode, Leader.decryptMode] at htyp
    by_contra hne
    rw [if_neg hne] at htyp
    cases htyp
  · exact hlength
  · exact hassign
  · intro aes mem hmem
    have hread := ((hcalled.enciphers hmem).mono hn).read hblocks op.le_blocks
    have hotp : mem.read _ = _ := hmem _ hassign
    rw [hotp] at hread
    show mem.read ⟨L.output + 16 * (n - op.blockCount), op.ciphertext.length⟩ = xorBytes _
      (mem.read ⟨L.keystream + 16 * (n - op.blockCount), op.ciphertext.length⟩)
    rw [hread, hkeystream, xorBytes_take _ _ (Nat.le_of_eq hlength)]
  · intro aes mem hmem
    have hassigned : ∀ o ∈ Keystream.assignOps op.explicitNonce counterBytes
        (L.blocks (n - op.blockCount) op.blockCount) 0, o ∈ vm.log := fun o ho =>
      hlog o (assignOps_subset .leader L n (some pad) op o ho)
    show mem.read ⟨L.keystream + 16 * (n - op.blockCount), op.ciphertext.length⟩ = _
    rw [hkeystream, Layout.keystream_eq (hcalled.mono hn) hmem hfits.2.1 hassigned]

/-- Each part is assigned where it masks the keystream of its record. -/
theorem maskings_sound {p : LayerParams} {L : Layout} {N n : Nat} {pad : List UInt8} {vm : Vm}
    {ops : List DecryptOp} (hcalled : L.Called p.serverWriteKey p.serverIv N vm) (hn : n ≤ N)
    (hfits : FitFrom n (some pad) ops) (hwire : ∀ op ∈ ops, op.FromWire)
    (hlog : ∀ o ∈ opsFrom .leader L n (some pad) ops, o ∈ vm.log) :
    ∀ m ∈ maskings n (some pad) ops, m.Sound p L vm := by
  induction ops generalizing n pad with
  | nil => exact fun _ hm => (List.not_mem_nil hm).elim
  | cons op ops ih =>
      have hone : ∀ o ∈ op.opsAt .leader L n (some pad), o ∈ vm.log := fun o ho =>
        hlog o (List.mem_append_left _ ho)
      have hafter : ∃ rest, op.padAfter (some pad) = some rest := by
        rw [padAfter]
        cases op.mode <;> exact ⟨_, rfl⟩
      obtain ⟨rest, hrest⟩ := hafter
      obtain ⟨hop, hops⟩ := hfits
      obtain ⟨hwireOp, hwireOps⟩ := List.forall_mem_cons.mp hwire
      rw [hrest] at hops
      intro m hm
      rw [maskings, hrest] at hm
      cases List.mem_append.mp hm with
      | inl hm =>
          cases hmode : op.mode with
          | isPrivate =>
              rw [hmode] at hm
              obtain ⟨otp, hotp, rfl⟩ := List.mem_map.mp hm
              cases Option.mem_toList.mp hotp
              exact masking_sound hcalled hn hop hmode hwireOp hone
          | isPublic =>
              rw [hmode] at hm
              exact (List.not_mem_nil hm).elim
      | inr hm =>
          refine ih (by omega) hops hwireOps (fun o ho => hlog o ?_) m hm
          rw [opsFrom, hrest]
          exact List.mem_append_right _ ho

end DecryptOp

namespace Leader

variable {K P C D : Type} {session : Session K P C D} {p : LayerParams} {s : Leader K P}

/-- What the pad of the leader was used for. -/
structure Accounted (p : LayerParams) (s : Leader K P) (L : Layout) (pad rest : List UInt8)
    (maskings : List Masking) : Prop where
  drawnFrom : p.recvOtp = some pad
  parts : pad = rest ++ (maskings.reverse.map Masking.otp).flatten
  left : ∀ otp sent recv, s.recordLayer.state = .online otp sent recv → otp = some rest
  sound : ∀ m ∈ maskings, m.Sound p L s.vm
  disjoint : maskings.Pairwise fun a b => (a.keystream L).Disjoint (b.keystream L)
  received : ((s.recordLayer.received.filter fun record => record.typ = .applicationData).map
    recordKey).Sublist (maskings.map fun m => m.record.key)

/-- The accounts of a leader that is reached. -/
theorem ReachableOn.padded (hsize : p.recvLenOnline.val < 2 ^ 63)
    (h : ReachableOn session p (fun ciphertext => ciphertext.length < 2 ^ 16) s) :
    p.role = .leader ∧ ∃ L N, 16 * N < wordSize ∧
      L.Called p.serverWriteKey p.serverIv N s.vm ∧
        ∃ done, Padded p L N done (s.vm, s.recordLayer) := by
  have hlogged := fun o => logged o session fun ciphertext => ciphertext.length < 2 ^ 16
  induction h with
  | ready hready =>
      obtain ⟨vm, ⟨vm', layer⟩, halloc, hlayer, hvm⟩ := hready.alloc
      obtain ⟨L, N, hword, hcalled, hpadded⟩ := LayerParams.alloc_padded hready.role halloc
      obtain ⟨ops, hops⟩ := hvm
      refine ⟨hready.role, L, N, hword, hcalled.of_append hops, [], ?_⟩
      rw [hlayer]
      exact ⟨hpadded.wire, hpadded.room, hpadded.limit, hpadded.counted, hpadded.taken,
        hpadded.doneWire, hpadded.fits, fun _ h => (List.not_mem_nil h).elim, fun honline =>
          have hdrawn := hpadded.drawn honline
          ⟨hdrawn.role, hdrawn.laid, hdrawn.rest, hdrawn.fits,
            fun _ h => (List.not_mem_nil h).elim⟩, hpadded.received⟩
  | returned _ hbrings hop ih =>
      obtain ⟨hrole, L, N, hword, hcalled, hpadded⟩ := ih
      have hkept := fun o => preserves_run (hlogged o) _ hbrings
      have hpads := preserves_run (padded_machine (L := L) session hrole hword hsize) _ hbrings
      exact ⟨hrole, L, N, hword, ⟨fun i hi => (hkept _).ok (hcalled.ctr i hi) hop,
        fun i hi => (hkept _).ok (hcalled.xor i hi) hop⟩, hpads.ok hpadded hop⟩
  | failed _ hbrings hop ih =>
      obtain ⟨hrole, L, N, hword, hcalled, hpadded⟩ := ih
      have hkept := fun o => preserves_run (hlogged o) _ hbrings
      have hpads := preserves_run (padded_machine (L := L) session hrole hword hsize) _ hbrings
      exact ⟨hrole, L, N, hword, ⟨fun i hi => (hkept _).error (hcalled.ctr i hi) hop,
        fun i hi => (hkept _).error (hcalled.xor i hi) hop⟩, hpads.error hpadded hop⟩

theorem accounted {L : Layout} {N : Nat} {done : List DecryptOp} (hrole : p.role = .leader)
    (hcalled : L.Called p.serverWriteKey p.serverIv N s.vm)
    (h : Padded p L N done (s.vm, s.recordLayer)) :
    ∃ pad rest, Accounted p s L pad rest (DecryptOp.maskings N p.recvOtp done) := by
  obtain ⟨pad, hpad, hlen⟩ := LayerParams.recvOtp_leader hrole
  have hfits := h.fits
  have hlog := h.log
  rw [hpad] at hfits hlog
  obtain ⟨rest, hrest, hparts⟩ := DecryptOp.pad_eq_maskings hfits
  refine ⟨pad, rest, ?_⟩
  rw [hpad]
  refine ⟨hpad, hparts, ?_, DecryptOp.maskings_sound hcalled (Nat.le_refl N) hfits h.doneWire hlog,
    DecryptOp.maskings_disjoint L hfits, ?_⟩
  · intro otp sent recv hstate
    have hdrawn := (h.drawn (by rw [hstate]; rfl)).rest
    rw [hpad, hrest, hstate] at hdrawn
    exact hdrawn
  · have hprivate : done.filter (fun op => op.mode = .isPrivate) =
        done.filter fun op => op.typ = .applicationData := by
      apply List.filter_congr
      intro op hop
      rw [(h.doneWire op hop).1, Leader.decryptMode]
      by_cases htyp : op.typ = .applicationData
      · rw [if_pos htyp, decide_eq_true htyp, decide_eq_true rfl]
      · rw [if_neg htyp, decide_eq_false htyp]
        rfl
    have hkeys : ∀ ops : List Masking, (ops.map fun m => m.record.key) =
        (ops.map Masking.record).map DecryptOp.key := by
      intro ops
      rw [List.map_map]
      rfl
    have hfilter := h.received.filter fun key => key.2.1 = .applicationData
    rw [List.filter_map, List.filter_map] at hfilter
    rw [hkeys, DecryptOp.maskings_record, hprivate]
    exact hfilter

theorem sampleAlloc_ok : (Fault.result? (RecordLayer.sampleParams.alloc
    (⟨40, []⟩, RecordLayer.sampleParams.create))).isSome = true := by
  decide +kernel

def sampleAllocated : Vm × RecordLayer := (Option.get _ sampleAlloc_ok).2

theorem sampleAlloc_eq : RecordLayer.sampleParams.alloc
    (⟨40, []⟩, RecordLayer.sampleParams.create) = .ok () sampleAllocated :=
  Fault.ok_get_state sampleAlloc_ok

/-- A leader before the handshake. -/
def allocated (ke : K) (prf : P) (s : Vm × RecordLayer) : Leader K P where
  state := .handshake
  vm := s.1
  ke := ke
  prf := prf
  recordLayer := s.2
  details := ⟨none, none, none, none, none, none⟩
  isDecrypting := true
  notified := false
  sent := []

theorem ready_allocated {vm : Vm} {t : Vm × RecordLayer} {ke : K} {prf : P}
    (hrole : p.role = .leader) (halloc : p.alloc (vm, p.create) = .ok () t) :
    Ready p (allocated ke prf t) :=
  ⟨hrole, ⟨vm, t, halloc, rfl, Vm.Extends.refl _⟩, rfl, rfl, rfl⟩

def sampleLeader : Leader Unit Unit := allocated () () sampleAllocated

/-- The ciphertext is a part of the message. -/
theorem opaqueIntoParts_length {msg : Bytes} {explicitNonce ciphertext tag : List UInt8}
    (h : opaqueIntoParts msg = .ok (explicitNonce, ciphertext, tag)) :
    ciphertext.length ≤ msg.val.length := by
  have hsplit : ∀ {bytes bytes' bytes'' : List UInt8} {i : Nat},
      splitOff bytes i = .ok (bytes', bytes'') →
        bytes'.length ≤ bytes.length ∧ bytes''.length ≤ bytes.length := by
    intro bytes bytes' bytes'' i hok
    unfold splitOff at hok
    split at hok
    · cases hok
    · cases hok
      exact ⟨List.length_take_le' i bytes, List.length_drop ▸ Nat.sub_le _ _⟩
  obtain ⟨⟨rest, tag'⟩, hfirst, hparts⟩ := Fault.bind_ok_iff.mp h
  obtain ⟨⟨explicitNonce', ciphertext'⟩, hsecond, hparts⟩ := Fault.bind_ok_iff.mp hparts
  dsimp only at hparts
  split at hparts
  · cases hparts
  · cases hparts
    exact Nat.le_trans (hsplit hsecond).2 (hsplit hfirst).1

theorem brings_of_length {msg : OpaqueMessage} {n : Nat} (h : msg.payload.val.length < n) :
    Brings (fun ciphertext => ciphertext.length < n) (.pushIncoming msg : LeaderOp C D) := by
  intro explicitNonce ciphertext tag hparts
  exact Nat.lt_of_le_of_lt (opaqueIntoParts_length hparts) h

/-! An alert of two bytes, and application data of seventeen, are decrypted online. -/

def padParams : LayerParams :=
  { RecordLayer.sampleParams with
    recvRecords := ⟨2, two_lt_wordSize⟩
    recvLenOnline := ⟨48, forty_eight_lt_wordSize⟩
    recvLen := ⟨48, forty_eight_lt_wordSize⟩ }

def padPeer : PeerShares (List TagShare) (List TagShare) :=
  { RecordLayer.samplePeer with verifyShares := [Block.zero, Block.zero] }

def zeros (n : Nat) (h : n < wordSize) : Bytes := ⟨List.replicate n 0, List.length_replicate ▸ h⟩

def padOps : List (LeaderOp (List TagShare) (List TagShare)) :=
  [.setProtocolVersion .tlsV1_2, .setCipherSuite 0xc02f, .setServerRandom (Vector.replicate 32 0),
    .setServerCertDetails [], .setServerKxDetails [], .setServerKeyShare ⟨.secp256r1, []⟩,
    .prepareEncryption, .startTraffic,
    .pushIncoming ⟨.alert, .tlsV1_2, zeros 26 (by decide)⟩,
    .pushIncoming ⟨.applicationData, .tlsV1_2, zeros 41 (by decide)⟩, .flush padPeer]

theorem padOps_bring : ∀ op ∈ padOps, Brings (fun ciphertext => ciphertext.length < 2 ^ 16) op := by
  simp only [padOps, List.forall_mem_cons]
  refine ⟨trivial, trivial, trivial, trivial, trivial, trivial, trivial, trivial, ?_, ?_, trivial,
    List.forall_mem_nil _⟩
  · exact brings_of_length (by decide)
  · exact brings_of_length (by decide)

def padReached : Option (Leader Unit Unit) :=
  (Fault.result? (padParams.alloc (⟨40, []⟩, padParams.create))).bind fun start =>
    (Fault.result? (runOps Follower.sampleSession padOps (allocated () () start.2))).map Prod.snd

theorem padReached_received : padReached.map (fun s =>
    (s.recordLayer.received.map fun record => record.ciphertext.length,
      (s.recordLayer.received.filter fun record => record.typ = .applicationData).length)) =
    some ([2, 17], 1) := by
  decide +kernel

theorem padReached_reachable {s : Leader Unit Unit} (h : padReached = some s) :
    ReachableOn Follower.sampleSession padParams
      (fun ciphertext => ciphertext.length < 2 ^ 16) s := by
  rw [padReached] at h
  obtain ⟨⟨⟨⟩, t⟩, halloc, hrest⟩ := Option.bind_eq_some_iff.mp h
  obtain ⟨⟨events, s'⟩, hops, rfl⟩ := Option.map_eq_some_iff.mp hrest
  have hready : Ready padParams (allocated () () t) :=
    ready_allocated rfl (Fault.result?_eq_some_iff.mp halloc)
  exact (ReachableOn.ready hready).runOps padOps_bring (Fault.result?_eq_some_iff.mp hops)

end Leader

end Tlsn.MpcTls

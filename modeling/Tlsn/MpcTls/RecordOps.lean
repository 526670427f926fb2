import Tlsn.MpcTls.Decrypt
import Tlsn.MpcTls.KeystreamCalls

/-!
What encrypting and decrypting one record does on resources which have the layout:
which blocks it takes, what it adds to the log of the machine, and what the result
is once the machine has run.
-/

namespace Tlsn.MpcTls

open Tlsn.Cipher Tlsn.Tls

namespace MpcAesGcm

variable {L : Layout} {j0s : List (CtrBlock × OneTimePadShared)} {ghash : Ghash} {n len : Nat}
  {nonce : List UInt8} {s s' : Vm × MpcAesGcm}

theorem applyKeystream_fits {r : Slice × Slice}
    (hstate : s.2.state = .ready (L.resources j0s n) ghash) (hword : 16 * n < wordSize)
    (hlen : len < wordSize) (h : applyKeystream nonce len s = .ok r s') :
    nonce.length = 8 ∧ divCeil len 16 ≤ n := by
  by_contra hfits
  obtain ⟨e, he⟩ := applyKeystream_refused hstate hword hlen hfits
  rw [he] at h
  cases h

theorem takeKeystream_fits {r : Slice} (hstate : s.2.state = .ready (L.resources j0s n) ghash)
    (hword : 16 * n < wordSize) (hlen : len < wordSize)
    (h : takeKeystream nonce len s = .ok r s') :
    nonce.length = 8 ∧ len ≠ 0 ∧ divCeil len 16 ≤ n := by
  by_contra hfits
  obtain ⟨e, he⟩ := takeKeystream_refused hstate hword hlen hfits
  rw [he] at h
  cases h

theorem onVm_assign {r : Slice} {data : List UInt8} (h : data.length = r.len) :
    onVm (Vm.assign r data) s = .ok () (s.1.push [.assign r data], s.2) := by
  simp only [onVm, Fault.onFst, Fault.adapt, Vm.assign, h, if_true]

theorem onVm_commit (r : Slice) : onVm (Vm.commit r) s = .ok () (s.1.push [.commit r], s.2) := rfl

theorem onVm_decode (r : Slice) : onVm (Vm.decode r) s = .ok r (s.1.push [.decode r], s.2) := rfl

end MpcAesGcm

/-- The keystream of a record which takes the last `k` of `n` blocks. -/
theorem Layout.keystream_eq {L : Layout} {key iv : Slice} {n k : Nat} {nonce : List UInt8} {vm : Vm}
    {aes : Aes} {mem : Memory} (hcalled : L.Called key iv n vm) (hmem : vm.Holds aes mem)
    (hk : k ≤ n) (hassigned : ∀ op ∈ Keystream.assignOps nonce counterBytes (L.blocks (n - k) k) 0,
      op ∈ vm.log) :
    keystreamBytes mem (L.blocks (n - k) k) =
      ctrKeystream aes (mem.read key) (mem.read iv) nonce startCtr k := by
  apply keystreamBytes_assigned (n - k) k startCtr 0
  · intro j _ hlt
    exact hmem _ (hcalled.ctr j (by omega))
  · intro op hop
    exact hmem op (hassigned op hop)

/-! ## Encryption -/

namespace EncryptOp

/-- What `EncryptOp.new` checks. -/
def Valid (op : EncryptOp) : Prop :=
  (∀ plaintext, op.plaintext = some plaintext → plaintext.length = op.len) ∧
    (op.mode = .isPublic → op.plaintext ≠ none)

theorem new_ok_iff {seq len : Nat} {typ : ContentType} {version : ProtocolVersion}
    {plaintext : Option (List UInt8)} {nonce aad : List UInt8} {mode : EncryptMode}
    {op : EncryptOp} :
    new seq typ version len plaintext nonce aad mode = .ok op ↔
      op = ⟨seq, typ, version, len, plaintext, nonce, aad, mode⟩ ∧ op.Valid := by
  unfold new
  cases plaintext with
  | none =>
      by_cases hmode : mode = .isPublic
      · simp only [hmode, if_true, reduceCtorEq, false_iff, not_and]
        intro hop hvalid
        subst hop
        exact hvalid.2 rfl rfl
      · simp only [hmode, if_false, Except.ok.injEq]
        constructor
        · intro hop
          subst hop
          refine ⟨rfl, ?_, fun hpublic => absurd hpublic hmode⟩
          intro plaintext hplaintext
          cases hplaintext
        · intro h
          exact h.1.symm
  | some bytes =>
      by_cases hlen : bytes.length = len
      · simp only [hlen, ne_eq, not_true_eq_false, if_false, Except.ok.injEq]
        constructor
        · intro hop
          subst hop
          refine ⟨rfl, ?_, fun _ hnone => by cases hnone⟩
          intro plaintext hplaintext
          cases hplaintext
          exact hlen
        · intro h
          exact h.1.symm
      · simp only [ne_eq, hlen, not_false_eq_true, if_true, reduceCtorEq, false_iff, not_and]
        intro hop hvalid
        subst hop
        exact hlen (hvalid.1 bytes rfl)

/-- The blocks of the record. -/
def blockCount (op : EncryptOp) : Nat := divCeil op.len 16

/-- The record fits: its nonce has the right length, and there are blocks for it. -/
def FitsAt (n : Nat) (op : EncryptOp) : Prop :=
  op.explicitNonce.length = 8 ∧ op.blockCount ≤ n ∧ (op.mode = .isPublic → op.len ≠ 0)

/-- What is pending when the record takes the blocks from `m` on. -/
def pendingAt (L : Layout) (m : Nat) (op : EncryptOp) : PendingEncrypt :=
  match op.mode with
  | .isPrivate =>
      ⟨some ⟨L.input + 16 * m, op.len⟩, .isPrivate ⟨L.output + 16 * m, op.len⟩⟩
  | .isPublic => ⟨none, .isPublic ⟨L.keystream + 16 * m, op.len⟩ (op.plaintext.getD [])⟩

/-- The ciphertext that is authenticated. -/
def futureAt (L : Layout) (m : Nat) (op : EncryptOp) : Future (List UInt8) :=
  match op.mode with
  | .isPrivate => fun mem => mem.read ⟨L.output + 16 * m, op.len⟩
  | .isPublic => fun mem =>
      xorBytes (mem.read ⟨L.keystream + 16 * m, op.len⟩) (op.plaintext.getD [])

/-- What is added to the log when the record takes the last of `n` blocks. -/
def opsAt (role : Role) (L : Layout) (n : Nat) (op : EncryptOp) : List VmOp :=
  let m := n - op.blockCount
  match op.mode with
  | .isPrivate =>
      Resources.applyOps role L n op.explicitNonce op.len ++
        (match op.plaintext with
        | some data => [.assign ⟨L.input + 16 * m, op.len⟩ data]
        | none => []) ++
        [.commit ⟨L.input + 16 * m, op.len⟩, .decode ⟨L.output + 16 * m, op.len⟩,
          .decode ⟨L.output + 16 * m, op.len⟩]
  | .isPublic =>
      Keystream.assignOps op.explicitNonce counterBytes (L.blocks m op.blockCount) 0 ++
        [.decode ⟨L.keystream + 16 * m, op.len⟩, .decode ⟨L.keystream + 16 * m, op.len⟩]

section

variable {L : Layout} {j0s : List (CtrBlock × OneTimePadShared)} {ghash : Ghash} {n : Nat}
  {op : EncryptOp} {s s' : Vm × MpcAesGcm}

theorem encryptOne_fits {r : PendingEncrypt × Future (List UInt8)}
    (hstate : s.2.state = .ready (L.resources j0s n) ghash) (hword : 16 * n < wordSize)
    (hlen : op.len < wordSize) (h : op.encryptOne s = .ok r s') : op.FitsAt n := by
  unfold encryptOne at h
  cases hmode : op.mode with
  | isPrivate =>
      rw [hmode] at h
      obtain ⟨texts, s₁, happly, -⟩ := Fault.run_bind_ok_iff.mp h
      have hfits := MpcAesGcm.applyKeystream_fits hstate hword hlen (Fault.adapt_ok_iff.mp happly)
      refine ⟨hfits.1, hfits.2, ?_⟩
      intro hpublic
      rw [hmode] at hpublic
      cases hpublic
  | isPublic =>
      rw [hmode] at h
      simp only [encryptPublic] at h
      cases hplaintext : op.plaintext with
      | none =>
          rw [hplaintext] at h
          cases h
      | some plaintext =>
          rw [hplaintext] at h
          obtain ⟨keystream, s₁, htake, -⟩ := Fault.run_bind_ok_iff.mp h
          have hfits := MpcAesGcm.takeKeystream_fits hstate hword hlen
            (Fault.adapt_ok_iff.mp htake)
          exact ⟨hfits.1, hfits.2.2, fun _ => hfits.2.1⟩

theorem encryptPrivate_eq (hvalid : op.Valid) (hfits : op.FitsAt n) (hmode : op.mode = .isPrivate)
    (hstate : s.2.state = .ready (L.resources j0s n) ghash) (hword : 16 * n < wordSize) :
    op.encryptPrivate s =
      .ok (op.pendingAt L (n - op.blockCount), op.futureAt L (n - op.blockCount))
      (s.1.push (op.opsAt s.2.role L n),
        { s.2 with state := .ready (L.resources j0s (n - op.blockCount)) ghash }) := by
  have happly : MpcAesGcm.applyKeystream op.explicitNonce op.len s = _ :=
    MpcAesGcm.applyKeystream_ready hstate hword hfits.1 hfits.2.1
  rw [encryptPrivate, Fault.run_bind_of_ok (Fault.adapt_ok_iff.mpr happly)]
  simp only [pendingAt, futureAt, opsAt, hmode, blockCount]
  cases hplaintext : op.plaintext with
  | none =>
      simp only
      rw [Fault.run_bind_of_ok (MpcAesGcm.onVm_commit _),
        Fault.run_bind_of_ok (MpcAesGcm.onVm_decode _),
        Fault.run_bind_of_ok (MpcAesGcm.onVm_decode _)]
      simp only [Vm.push_push, List.append_assoc, List.nil_append, List.cons_append]
      rfl
  | some data =>
      simp only
      rw [Fault.run_bind_of_ok (MpcAesGcm.onVm_assign (hvalid.1 data hplaintext)),
        Fault.run_bind_of_ok (MpcAesGcm.onVm_commit _),
        Fault.run_bind_of_ok (MpcAesGcm.onVm_decode _),
        Fault.run_bind_of_ok (MpcAesGcm.onVm_decode _)]
      simp only [Vm.push_push, List.append_assoc, List.nil_append, List.cons_append]
      rfl

theorem encryptPublic_eq (hvalid : op.Valid) (hfits : op.FitsAt n) (hmode : op.mode = .isPublic)
    (hstate : s.2.state = .ready (L.resources j0s n) ghash) (hword : 16 * n < wordSize) :
    op.encryptPublic s = .ok (op.pendingAt L (n - op.blockCount), op.futureAt L (n - op.blockCount))
      (s.1.push (op.opsAt s.2.role L n),
        { s.2 with state := .ready (L.resources j0s (n - op.blockCount)) ghash }) := by
  have htake : MpcAesGcm.takeKeystream op.explicitNonce op.len s = _ :=
    MpcAesGcm.takeKeystream_ready hstate hword hfits.1 (hfits.2.2 hmode) hfits.2.1
  unfold encryptPublic
  cases hplaintext : op.plaintext with
  | none => exact absurd hplaintext (hvalid.2 hmode)
  | some plaintext =>
      simp only
      rw [Fault.run_bind_of_ok (Fault.adapt_ok_iff.mpr htake),
        Fault.run_bind_of_ok (MpcAesGcm.onVm_decode _),
        Fault.run_bind_of_ok (MpcAesGcm.onVm_decode _)]
      simp only [pendingAt, futureAt, opsAt, hmode, blockCount, hplaintext, Option.getD_some,
        Vm.push_push, List.append_assoc, List.nil_append, List.cons_append]
      rfl

theorem encryptOne_eq (hvalid : op.Valid) (hfits : op.FitsAt n)
    (hstate : s.2.state = .ready (L.resources j0s n) ghash) (hword : 16 * n < wordSize) :
    op.encryptOne s = .ok (op.pendingAt L (n - op.blockCount), op.futureAt L (n - op.blockCount))
      (s.1.push (op.opsAt s.2.role L n),
        { s.2 with state := .ready (L.resources j0s (n - op.blockCount)) ghash }) := by
  unfold encryptOne
  cases hmode : op.mode with
  | isPrivate => exact encryptPrivate_eq hvalid hfits hmode hstate hword
  | isPublic => exact encryptPublic_eq hvalid hfits hmode hstate hword

/-- The ciphertext is the one that is authenticated. -/
theorem tryEncrypt_pendingAt (L : Layout) (m : Nat) (mem : Memory) (hvalid : op.Valid) :
    (op.pendingAt L m).output.tryEncrypt mem = .ok (op.futureAt L m mem) := by
  cases hmode : op.mode with
  | isPrivate => simp only [pendingAt, futureAt, hmode, EncryptOutput.tryEncrypt]
  | isPublic =>
      cases hplaintext : op.plaintext with
      | none => exact absurd hplaintext (hvalid.2 hmode)
      | some plaintext =>
          have hlen := hvalid.1 plaintext hplaintext
          simp only [pendingAt, futureAt, hmode, EncryptOutput.tryEncrypt, hplaintext,
            Option.getD_some, hlen, ne_eq, not_true_eq_false, if_false, xorBytes_comm plaintext]

/-- The plaintext, as far as this party knows it, and else as it is in memory. -/
def textAt (L : Layout) (m : Nat) (op : EncryptOp) (mem : Memory) : List UInt8 :=
  op.plaintext.getD (mem.read ⟨L.input + 16 * m, op.len⟩)

theorem length_textAt (L : Layout) (m : Nat) (mem : Memory) (hvalid : op.Valid) :
    (op.textAt L m mem).length = op.len := by
  cases hplaintext : op.plaintext with
  | none => rw [textAt, hplaintext, Option.getD_none, Memory.length_read]
  | some plaintext => rw [textAt, hplaintext, Option.getD_some, hvalid.1 plaintext hplaintext]

/-- What is authenticated is the plaintext, enciphered with the keystream of the
record's nonce. -/
theorem futureAt_eq {vm : Vm} {aes : Aes} {mem : Memory} {key iv : Slice} {N : Nat} {role : Role}
    (hvalid : op.Valid) (hfits : op.FitsAt n) (hn : n ≤ N) (hcalled : L.Called key iv N vm)
    (hmem : vm.Holds aes mem) (hops : ∀ o ∈ op.opsAt role L n, o ∈ vm.log) :
    op.futureAt L (n - op.blockCount) mem =
      xorBytes (op.textAt L (n - op.blockCount) mem)
        (ctrKeystream aes (mem.read key) (mem.read iv) op.explicitNonce startCtr
          op.blockCount) := by
  have hle : op.len ≤ 16 * op.blockCount := by
    rw [Nat.mul_comm]
    exact (divCeil_mul op.len 16 (by decide)).1
  have hassigned : ∀ o ∈ Keystream.assignOps op.explicitNonce counterBytes
      (L.blocks (n - op.blockCount) op.blockCount) 0, o ∈ vm.log := by
    intro o ho
    apply hops
    simp only [opsAt]
    cases op.mode with
    | isPrivate =>
        simp only [Resources.applyOps, List.append_assoc]
        exact List.mem_append_left _ ho
    | isPublic => exact List.mem_append_left _ ho
  have hkeystream := Layout.keystream_eq (hcalled.mono hn) hmem hfits.2.1 hassigned
  rw [← hkeystream]
  cases hmode : op.mode with
  | isPrivate =>
      have henciphers := (hcalled.enciphers hmem).mono hn
      have hread := henciphers.read (m := n - op.blockCount) (k := op.blockCount)
        (by have := hfits.2.1; omega) hle
      simp only [futureAt, hmode, textAt, hread]
      cases hplaintext : op.plaintext with
      | none => rfl
      | some data =>
          have hassign :
              VmOp.assign ⟨L.input + 16 * (n - op.blockCount), op.len⟩ data ∈ vm.log := by
            apply hops
            simp [opsAt, hmode, hplaintext]
          have hdata : mem.read ⟨L.input + 16 * (n - op.blockCount), op.len⟩ = data :=
            hmem _ hassign
          rw [hdata, Option.getD_some]
  | isPublic =>
      cases hplaintext : op.plaintext with
      | none => exact absurd hplaintext (hvalid.2 hmode)
      | some plaintext =>
          simp only [futureAt, hmode, textAt, hplaintext, Option.getD_some]
          rw [Layout.blocks, keystreamBytes_ctrBlocks, xorBytes_comm, ← Memory.take_read _ _ hle,
            xorBytes_take plaintext _ (Nat.le_of_eq (hvalid.1 plaintext hplaintext))]

end

/-! Batches of records. -/

/-- What is pending when the records take the last of `n` blocks, one after the other. -/
def layOut (L : Layout) : Nat → List EncryptOp → List (PendingEncrypt × Future (List UInt8))
  | _, [] => []
  | n, op :: ops =>
      (op.pendingAt L (n - op.blockCount), op.futureAt L (n - op.blockCount)) ::
        layOut L (n - op.blockCount) ops

def opsFrom (role : Role) (L : Layout) : Nat → List EncryptOp → List VmOp
  | _, [] => []
  | n, op :: ops => op.opsAt role L n ++ opsFrom role L (n - op.blockCount) ops

/-- The blocks that are left. -/
def remaining : Nat → List EncryptOp → Nat
  | n, [] => n
  | n, op :: ops => remaining (n - op.blockCount) ops

def FitFrom : Nat → List EncryptOp → Prop
  | _, [] => True
  | n, op :: ops => op.FitsAt n ∧ FitFrom (n - op.blockCount) ops

section

variable {L : Layout} {j0s : List (CtrBlock × OneTimePadShared)} {ghash : Ghash}

theorem remaining_le (ops : List EncryptOp) (n : Nat) : remaining n ops ≤ n := by
  induction ops generalizing n with
  | nil => exact Nat.le_refl n
  | cons op ops ih => exact Nat.le_trans (ih (n - op.blockCount)) (Nat.sub_le ..)

theorem encryptOps_eq (ops : List EncryptOp) {n : Nat} {s : Vm × MpcAesGcm}
    (hvalid : ∀ op ∈ ops, op.Valid) (hfits : FitFrom n ops)
    (hstate : s.2.state = .ready (L.resources j0s n) ghash) (hword : 16 * n < wordSize) :
    encryptOps ops s = .ok (layOut L n ops) (s.1.push (opsFrom s.2.role L n ops),
      { s.2 with state := .ready (L.resources j0s (remaining n ops)) ghash }) := by
  induction ops generalizing n s with
  | nil =>
      rw [opsFrom, Vm.push_nil, remaining, ← hstate]
      rfl
  | cons op ops ih =>
      have hone := encryptOne_eq (hvalid op List.mem_cons_self) hfits.1 hstate hword
      rw [encryptOps, Fault.run_bind_of_ok hone]
      rw [Fault.run_bind_of_ok (ih (fun o ho => hvalid o (List.mem_cons_of_mem _ ho)) hfits.2 rfl
        (by omega))]
      simp only [Vm.push_push, opsFrom, layOut, remaining]
      rfl

theorem encryptOps_fit (ops : List EncryptOp) {n : Nat} {s s' : Vm × MpcAesGcm}
    {r : List (PendingEncrypt × Future (List UInt8))} (hvalid : ∀ op ∈ ops, op.Valid)
    (hlen : ∀ op ∈ ops, op.len < wordSize)
    (hstate : s.2.state = .ready (L.resources j0s n) ghash) (hword : 16 * n < wordSize)
    (h : encryptOps ops s = .ok r s') : FitFrom n ops := by
  induction ops generalizing n s s' r with
  | nil => exact trivial
  | cons op ops ih =>
      obtain ⟨out, s₁, hone, h⟩ := Fault.run_bind_ok_iff.mp h
      obtain ⟨outs, s₂, hrest, -⟩ := Fault.run_bind_ok_iff.mp h
      have hfits := encryptOne_fits hstate hword (hlen op List.mem_cons_self) hone
      rw [encryptOne_eq (hvalid op List.mem_cons_self) hfits hstate hword] at hone
      cases hone
      refine ⟨hfits, ?_⟩
      exact ih (fun o ho => hvalid o (List.mem_cons_of_mem _ ho))
        (fun o ho => hlen o (List.mem_cons_of_mem _ ho)) rfl (by omega) hrest

end

end EncryptOp

end Tlsn.MpcTls

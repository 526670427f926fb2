import Tlsn.MpcTls.Decrypt
import Tlsn.MpcTls.RecordOps

/-!
What decrypting one record does on resources which have the layout, and that its
plaintext is the ciphertext enciphered with the keystream of the record's nonce,
whichever way it is decrypted.
-/

namespace Tlsn.MpcTls

open Tlsn.Cipher Tlsn.Tls

namespace DecryptOp

/-- The blocks of the record. -/
def blockCount (op : DecryptOp) : Nat := divCeil op.ciphertext.length 16

/-- The record fits: its nonce has the right length, there are blocks for it, and
enough of the pad is left. -/
def FitsAt (n : Nat) (pad : Option (List UInt8)) (op : DecryptOp) : Prop :=
  op.explicitNonce.length = 8 ∧ op.blockCount ≤ n ∧
    match op.mode with
    | .isPrivate => ∀ otp, pad = some otp → op.ciphertext.length ≤ otp.length
    | .isPublic => op.ciphertext.length ≠ 0

/-- The part of the pad which masks the record. -/
def padOf (pad : Option (List UInt8)) (op : DecryptOp) : Option (List UInt8) :=
  pad.map fun otp => otp.drop (otp.length - op.ciphertext.length)

def padAfter (pad : Option (List UInt8)) (op : DecryptOp) : Option (List UInt8) :=
  match op.mode with
  | .isPrivate => pad.map fun otp => otp.take (otp.length - op.ciphertext.length)
  | .isPublic => pad

def outputAt (L : Layout) (m : Nat) (pad : Option (List UInt8)) (op : DecryptOp) : DecryptOutput :=
  match op.mode with
  | .isPrivate =>
      .isPrivate ⟨L.output + 16 * m, op.ciphertext.length⟩ (op.padOf pad) op.ciphertext
  | .isPublic => .isPublic ⟨L.keystream + 16 * m, op.ciphertext.length⟩ op.ciphertext

def publicOps (L : Layout) (n : Nat) (op : DecryptOp) : List VmOp :=
  Keystream.assignOps op.explicitNonce counterBytes
      (L.blocks (n - op.blockCount) op.blockCount) 0 ++
    [.decode ⟨L.keystream + 16 * (n - op.blockCount), op.ciphertext.length⟩]

def opsAt (role : Role) (L : Layout) (n : Nat) (pad : Option (List UInt8)) (op : DecryptOp) :
    List VmOp :=
  let m := n - op.blockCount
  match op.mode with
  | .isPrivate =>
      Resources.applyOps role L n op.explicitNonce op.ciphertext.length ++
        (match op.padOf pad with
        | some otp => [.assign ⟨L.input + 16 * m, op.ciphertext.length⟩ otp]
        | none => []) ++
        [.commit ⟨L.input + 16 * m, op.ciphertext.length⟩,
          .decode ⟨L.output + 16 * m, op.ciphertext.length⟩]
  | .isPublic => op.publicOps L n

section

variable {L : Layout} {j0s : List (CtrBlock × OneTimePadShared)} {ghash : Ghash} {n : Nat}
  {pad : Option (List UInt8)} {op : DecryptOp}

theorem decryptPublic_fits {s s' : Vm × MpcAesGcm} {r : DecryptOutput}
    (hstate : s.2.state = .ready (L.resources j0s n) ghash) (hword : 16 * n < wordSize)
    (hlen : op.ciphertext.length < wordSize) (h : op.decryptPublic s = .ok r s') :
    op.explicitNonce.length = 8 ∧ op.ciphertext.length ≠ 0 ∧ op.blockCount ≤ n := by
  obtain ⟨keystream, s₁, htake, -⟩ := Fault.run_bind_ok_iff.mp h
  exact MpcAesGcm.takeKeystream_fits hstate hword hlen (Fault.adapt_ok_iff.mp htake)

theorem decryptPublic_eq {s : Vm × MpcAesGcm}
    (hstate : s.2.state = .ready (L.resources j0s n) ghash) (hword : 16 * n < wordSize)
    (hnonce : op.explicitNonce.length = 8) (hpos : op.ciphertext.length ≠ 0)
    (hle : op.blockCount ≤ n) :
    op.decryptPublic s =
      .ok (.isPublic ⟨L.keystream + 16 * (n - op.blockCount), op.ciphertext.length⟩ op.ciphertext)
        (s.1.push (op.publicOps L n),
          { s.2 with state := .ready (L.resources j0s (n - op.blockCount)) ghash }) := by
  have htake : MpcAesGcm.takeKeystream op.explicitNonce op.ciphertext.length s = _ :=
    MpcAesGcm.takeKeystream_ready hstate hword hnonce hpos hle
  rw [decryptPublic, Fault.run_bind_of_ok (Fault.adapt_ok_iff.mpr htake),
    Fault.run_bind_of_ok (MpcAesGcm.onVm_decode _)]
  simp only [Vm.push_push]
  rfl

theorem privateMpc_fits {s s' : DecryptState} {r : DecryptOutput}
    (hstate : s.1.2.state = .ready (L.resources j0s n) ghash) (hword : 16 * n < wordSize)
    (hlen : op.ciphertext.length < wordSize) (h : op.privateMpc s = .ok r s') :
    op.explicitNonce.length = 8 ∧ op.blockCount ≤ n ∧
      ∀ otp, s.2 = some otp → op.ciphertext.length ≤ otp.length := by
  rw [privateMpc, Fault.get_bind] at h
  have hpad : ∀ otp, s.2 = some otp → op.ciphertext.length ≤ otp.length := by
    intro otp hotp
    by_contra hlong
    rw [hotp] at h
    simp only at h
    rw [if_pos (by omega)] at h
    cases h
  refine and_assoc.mp ⟨?_, hpad⟩
  have hrest : ∀ {β : Type} {f : Slice × Slice → EStateM (Fault MpcTlsError) DecryptState β}
      {b : β}, (Fault.onFst (Fault.adapt MpcTlsError.recordLayerAead
        (MpcAesGcm.applyKeystream op.explicitNonce op.ciphertext.length)) >>= f) s = .ok b s' →
        op.explicitNonce.length = 8 ∧ op.blockCount ≤ n := by
    intro β f b hbind
    obtain ⟨texts, s₁, happly, -⟩ := Fault.run_bind_ok_iff.mp hbind
    simp only [Fault.onFst] at happly
    split at happly
    · rename_i hadapt
      exact MpcAesGcm.applyKeystream_fits hstate hword hlen (Fault.adapt_ok_iff.mp hadapt)
    · cases happly
  cases hotp : s.2 with
  | none =>
      rw [hotp] at h
      exact hrest h
  | some otp =>
      have hle := hpad otp hotp
      rw [hotp] at h
      simp only at h
      rw [if_neg (by omega)] at h
      exact hrest h

theorem privateMpc_eq {s : DecryptState}
    (hstate : s.1.2.state = .ready (L.resources j0s n) ghash) (hword : 16 * n < wordSize)
    (hmode : op.mode = .isPrivate) (hfits : op.FitsAt n s.2) :
    op.privateMpc s = .ok (op.outputAt L (n - op.blockCount) s.2)
      ((s.1.1.push (op.opsAt s.1.2.role L n s.2),
        { s.1.2 with state := .ready (L.resources j0s (n - op.blockCount)) ghash }),
        op.padAfter s.2) := by
  obtain ⟨⟨vm, gcm⟩, pad⟩ := s
  have happly : MpcAesGcm.applyKeystream op.explicitNonce op.ciphertext.length (vm, gcm) = _ :=
    MpcAesGcm.applyKeystream_ready hstate hword hfits.1 hfits.2.1
  have happly' := Fault.onFst_of_ok (s := ((vm, gcm), pad))
    (Fault.adapt_ok_iff (f := MpcTlsError.recordLayerAead).mpr happly)
  have hpad := hfits.2.2
  rw [hmode] at hpad
  rw [privateMpc, Fault.get_bind]
  simp only [outputAt, opsAt, padAfter, hmode, padOf, blockCount]
  cases pad with
  | none =>
      simp only [Option.map_none]
      rw [Fault.run_bind_of_ok happly',
        Fault.run_bind_of_ok (show splitOtp _ _ = .ok none _ from rfl)]
      simp only
      rw [Fault.run_bind_of_ok (Fault.onFst_of_ok (MpcAesGcm.onVm_commit _)),
        Fault.run_bind_of_ok (Fault.onFst_of_ok (MpcAesGcm.onVm_decode _))]
      simp only [Vm.push_push, List.append_assoc, List.nil_append, List.cons_append]
      rfl
  | some otp =>
      have hle := hpad otp rfl
      have hdrop : (otp.drop (otp.length - op.ciphertext.length)).length =
          op.ciphertext.length := by
        rw [List.length_drop]
        omega
      simp only [Option.map_some]
      rw [if_neg (by omega), Fault.run_bind_of_ok happly',
        Fault.run_bind_of_ok (show splitOtp _ _ = .ok (some _) _ from rfl)]
      simp only
      rw [Fault.run_bind_of_ok (Fault.onFst_of_ok (MpcAesGcm.onVm_assign hdrop)),
        Fault.run_bind_of_ok (Fault.onFst_of_ok (MpcAesGcm.onVm_commit _)),
        Fault.run_bind_of_ok (Fault.onFst_of_ok (MpcAesGcm.onVm_decode _))]
      simp only [Vm.push_push, List.append_assoc, List.nil_append, List.cons_append]
      rfl

theorem decryptOne_fits {s s' : DecryptState} {r : DecryptOutput}
    (hstate : s.1.2.state = .ready (L.resources j0s n) ghash) (hword : 16 * n < wordSize)
    (hlen : op.ciphertext.length < wordSize) (h : op.decryptOne s = .ok r s') :
    op.FitsAt n s.2 := by
  unfold decryptOne at h
  unfold FitsAt
  cases hmode : op.mode with
  | isPrivate =>
      rw [hmode] at h
      exact privateMpc_fits hstate hword hlen h
  | isPublic =>
      rw [hmode] at h
      simp only [Fault.onFst] at h
      split at h
      · rename_i hpublic
        have hfits := decryptPublic_fits hstate hword hlen hpublic
        exact ⟨hfits.1, hfits.2.2, hfits.2.1⟩
      · cases h

theorem decryptOne_eq {s : DecryptState}
    (hstate : s.1.2.state = .ready (L.resources j0s n) ghash) (hword : 16 * n < wordSize)
    (hfits : op.FitsAt n s.2) :
    op.decryptOne s = .ok (op.outputAt L (n - op.blockCount) s.2)
      ((s.1.1.push (op.opsAt s.1.2.role L n s.2),
        { s.1.2 with state := .ready (L.resources j0s (n - op.blockCount)) ghash }),
        op.padAfter s.2) := by
  cases hmode : op.mode with
  | isPrivate =>
      simp only [decryptOne, hmode]
      exact privateMpc_eq hstate hword hmode hfits
  | isPublic =>
      have hpos := hfits.2.2
      rw [hmode] at hpos
      simp only [decryptOne, hmode, outputAt, opsAt, padAfter]
      exact Fault.onFst_of_ok (decryptPublic_eq hstate hword hfits.1 hpos hfits.2.1)

theorem assignOps_subset (role : Role) (L : Layout) (n : Nat) (pad : Option (List UInt8))
    (op : DecryptOp) : ∀ o ∈ Keystream.assignOps op.explicitNonce counterBytes
      (L.blocks (n - op.blockCount) op.blockCount) 0, o ∈ op.opsAt role L n pad := by
  intro o ho
  simp only [opsAt]
  cases op.mode with
  | isPrivate =>
      simp only [Resources.applyOps, List.append_assoc]
      exact List.mem_append_left _ ho
  | isPublic => exact List.mem_append_left _ ho

theorem le_blocks (op : DecryptOp) : op.ciphertext.length ≤ 16 * op.blockCount := by
  rw [Nat.mul_comm]
  exact (divCeil_mul op.ciphertext.length 16 (by decide)).1

/-- The ciphertext, enciphered with the keystream. -/
def plaintext (aes : Aes) (key iv : List UInt8) (op : DecryptOp) : List UInt8 :=
  xorBytes op.ciphertext (ctrKeystream aes key iv op.explicitNonce startCtr op.blockCount)

variable {vm : Vm} {aes : Aes} {mem : Memory} {key iv : Slice} {N : Nat} {role : Role}

/-- Decrypting with decoded keystream. -/
theorem tryDecrypt_public (hcalled : L.Called key iv N vm) (hmem : vm.Holds aes mem) (hn : n ≤ N)
    (hle : op.blockCount ≤ n) (hops : ∀ o ∈ op.publicOps L n, o ∈ vm.log) :
    (DecryptOutput.isPublic ⟨L.keystream + 16 * (n - op.blockCount), op.ciphertext.length⟩
        op.ciphertext).tryDecrypt mem =
      .ok (some (op.plaintext aes (mem.read key) (mem.read iv))) := by
  have hkeystream := Layout.keystream_eq (hcalled.mono hn) hmem hle
    (fun o ho => hops o (List.mem_append_left _ ho))
  simp only [DecryptOutput.tryDecrypt, ne_eq, not_true_eq_false, if_false]
  rw [plaintext, ← hkeystream, Layout.blocks, keystreamBytes_ctrBlocks,
    ← Memory.take_read _ _ op.le_blocks, xorBytes_take _ _ (Nat.le_refl _)]

/-- Removing the pad from what it masks. -/
theorem zipWith_pad {ct otp masked : List UInt8} (hotp : otp.length = ct.length)
    (hmasked : masked.length = ct.length) :
    List.zipWith (fun a (b, c) => a ^^^ (b ^^^ c)) ct (otp.zip masked) ++
        ct.drop (min otp.length masked.length) = xorBytes ct (xorBytes otp masked) := by
  rw [hotp, hmasked, Nat.min_self, List.drop_length, List.append_nil]
  induction ct generalizing otp masked with
  | nil => rfl
  | cons c ct ih =>
      cases otp with
      | nil => cases hotp
      | cons b otp =>
          cases masked with
          | nil => cases hmasked
          | cons a masked =>
              have htail := ih (by simpa using hotp) (by simpa using hmasked)
              simp only [xorBytes, List.zip_cons_cons, List.zipWith_cons_cons] at htail ⊢
              rw [htail]

/-- Decrypting with masked keystream, by the party which has the pad. -/
theorem tryDecrypt_private {otp : List UInt8} (hcalled : L.Called key iv N vm)
    (hmem : vm.Holds aes mem) (hn : n ≤ N) (hmode : op.mode = .isPrivate)
    (hfits : op.FitsAt n (some otp)) (hops : ∀ o ∈ op.opsAt role L n (some otp), o ∈ vm.log) :
    (op.outputAt L (n - op.blockCount) (some otp)).tryDecrypt mem =
      .ok (some (op.plaintext aes (mem.read key) (mem.read iv))) := by
  have hotp := hfits.2.2
  rw [hmode] at hotp
  have hle := hotp otp rfl
  have hkeystream := Layout.keystream_eq (hcalled.mono hn) hmem hfits.2.1
    (fun o ho => hops o (assignOps_subset role L n (some otp) op o ho))
  have hread := ((hcalled.enciphers hmem).mono hn).read (m := n - op.blockCount)
    (k := op.blockCount) (by have := hfits.2.1; omega) op.le_blocks
  have hassign : mem.read ⟨L.input + 16 * (n - op.blockCount), op.ciphertext.length⟩ =
      otp.drop (otp.length - op.ciphertext.length) := by
    apply hmem (.assign _ _)
    apply hops
    simp [opsAt, hmode, padOf]
  have hlength : (otp.drop (otp.length - op.ciphertext.length)).length = op.ciphertext.length := by
    rw [List.length_drop]
    omega
  rw [hassign, hkeystream] at hread
  simp only [outputAt, hmode, padOf, Option.map_some, DecryptOutput.tryDecrypt]
  have hmasked := zipWith_pad hlength
    (Memory.length_read mem ⟨L.output + 16 * (n - op.blockCount), op.ciphertext.length⟩)
  rw [Memory.length_read] at hmasked
  rw [hmasked, hread, xorBytes_cancel_middle _ _ _ (Nat.le_of_eq hlength.symm), plaintext]

end

/-! Batches of records. -/

def layOut (L : Layout) : Nat → Option (List UInt8) → List DecryptOp → List DecryptOutput
  | _, _, [] => []
  | n, pad, op :: ops =>
      op.outputAt L (n - op.blockCount) pad :: layOut L (n - op.blockCount) (op.padAfter pad) ops

def opsFrom (role : Role) (L : Layout) : Nat → Option (List UInt8) → List DecryptOp → List VmOp
  | _, _, [] => []
  | n, pad, op :: ops =>
      op.opsAt role L n pad ++ opsFrom role L (n - op.blockCount) (op.padAfter pad) ops

/-- The blocks that are left. -/
def remaining : Nat → List DecryptOp → Nat
  | n, [] => n
  | n, op :: ops => remaining (n - op.blockCount) ops

def padRest : Option (List UInt8) → List DecryptOp → Option (List UInt8)
  | pad, [] => pad
  | pad, op :: ops => padRest (op.padAfter pad) ops

def FitFrom : Nat → Option (List UInt8) → List DecryptOp → Prop
  | _, _, [] => True
  | n, pad, op :: ops =>
      op.FitsAt n pad ∧ FitFrom (n - op.blockCount) (op.padAfter pad) ops

section

variable {L : Layout} {j0s : List (CtrBlock × OneTimePadShared)} {ghash : Ghash}

theorem remaining_le (ops : List DecryptOp) (n : Nat) : remaining n ops ≤ n := by
  induction ops generalizing n with
  | nil => exact Nat.le_refl n
  | cons op ops ih => exact Nat.le_trans (ih (n - op.blockCount)) (Nat.sub_le ..)

theorem decryptMpc_eq (ops : List DecryptOp) {n : Nat} {s : DecryptState}
    (hfits : FitFrom n s.2 ops) (hstate : s.1.2.state = .ready (L.resources j0s n) ghash)
    (hword : 16 * n < wordSize) :
    decryptMpc ops s = .ok (layOut L n s.2 ops)
      ((s.1.1.push (opsFrom s.1.2.role L n s.2 ops),
        { s.1.2 with state := .ready (L.resources j0s (remaining n ops)) ghash }),
        padRest s.2 ops) := by
  induction ops generalizing n s with
  | nil =>
      rw [opsFrom, Vm.push_nil, remaining, ← hstate]
      rfl
  | cons op ops ih =>
      have hone := decryptOne_eq hstate hword hfits.1
      have hrest := ih (n := n - op.blockCount) (s := ((s.1.1.push (op.opsAt s.1.2.role L n s.2),
        { s.1.2 with state := .ready (L.resources j0s (n - op.blockCount)) ghash }),
        op.padAfter s.2)) hfits.2 rfl (by omega)
      rw [decryptMpc, Fault.run_bind_of_ok hone, Fault.run_bind_of_ok hrest]
      simp only [Vm.push_push, opsFrom, layOut, remaining, padRest]
      rfl

theorem decryptMpc_fit (ops : List DecryptOp) {n : Nat} {s s' : DecryptState}
    {r : List DecryptOutput} (hlen : ∀ op ∈ ops, op.ciphertext.length < wordSize)
    (hstate : s.1.2.state = .ready (L.resources j0s n) ghash) (hword : 16 * n < wordSize)
    (h : decryptMpc ops s = .ok r s') : FitFrom n s.2 ops := by
  induction ops generalizing n s s' r with
  | nil => exact trivial
  | cons op ops ih =>
      obtain ⟨out, s₁, hone, h⟩ := Fault.run_bind_ok_iff.mp h
      obtain ⟨outs, s₂, hrest, -⟩ := Fault.run_bind_ok_iff.mp h
      have hfits := decryptOne_fits hstate hword (hlen op List.mem_cons_self) hone
      rw [decryptOne_eq hstate hword hfits] at hone
      cases hone
      exact ⟨hfits, ih (fun o ho => hlen o (List.mem_cons_of_mem _ ho)) rfl (by omega) hrest⟩

end

end DecryptOp

end Tlsn.MpcTls

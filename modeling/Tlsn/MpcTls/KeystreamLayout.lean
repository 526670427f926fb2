import Tlsn.Cipher.Allocation
import Tlsn.MpcTls.AesGcm

/-!
Where the resources of AES-GCM in MPC are in memory. Four addresses and the
number of blocks that remain determine input, keystream and output, so a call
that serves a record only lowers that number: record by record, the three are cut
at the same block.
-/

namespace Tlsn.MpcTls

open Tlsn.Cipher

structure Layout where
  nonces : Nat
  keystream : Nat
  input : Nat
  output : Nat

namespace Layout

def blocks (L : Layout) (start n : Nat) : List CtrBlock :=
  ctrBlocks L.nonces L.keystream start n

/-- What remains when `n` blocks do. -/
def resources (L : Layout) (j0s : List (CtrBlock × OneTimePadShared)) (n : Nat) : Resources where
  input := ⟨L.input, 16 * n⟩
  keystream := ⟨L.blocks 0 n⟩
  j0s := j0s
  output := ⟨L.output, 16 * n⟩

/-- What is logged for the input of a record with `len` bytes at `input`, when it
is padded to whole blocks. -/
def padOps (role : Role) (input len : Nat) : List VmOp :=
  let paddingLen := 16 * divCeil len 16 - len
  if paddingLen = 0 then []
  else
    match role with
    | .leader =>
        [.assign ⟨input + len, paddingLen⟩ (List.replicate paddingLen 0),
          .commit ⟨input + len, paddingLen⟩]
    | .follower => [.commit ⟨input + len, paddingLen⟩]

end Layout

theorem nonceOf_ok_iff {nonce result : List UInt8} :
    nonceOf nonce = .ok result ↔ nonce.length = 8 ∧ result = nonce := by
  unfold nonceOf
  split
  · rename_i hlength
    simp [hlength, eq_comm]
  · rename_i hlength
    simp [hlength]

@[simp] theorem length_counterBytes (i : Nat) : (counterBytes i).length = 4 :=
  length_beBytes 4 _

theorem Slice.splitOff_of_le {ε : Type} {s : Slice} {pos : Nat} (h : pos ≤ s.len) :
    (s.splitOff pos : Except (Fault ε) _) =
      .ok (⟨s.ptr, pos⟩, ⟨s.ptr + pos, s.len - pos⟩) := if_pos h

theorem Slice.splitOff_of_lt {ε : Type} {s : Slice} {pos : Nat} (h : s.len < pos) :
    (s.splitOff pos : Except (Fault ε) _) = .error .panic := if_neg (Nat.not_le.mpr h)

namespace Resources

variable {L : Layout} {n m k : Nat} {vm : Vm} {input output : Slice} {ks : Keystream}
  {j0s : List (CtrBlock × OneTimePadShared)} {s : Vm × Resources}

theorem splitInput_layout (h : k ≤ n) (hpos : m = 16 * (n - k)) :
    splitInput m (vm, ⟨⟨L.input, 16 * n⟩, ks, j0s, output⟩) =
      .ok ⟨L.input + 16 * (n - k), 16 * k⟩
        (vm, ⟨⟨L.input, 16 * (n - k)⟩, ks, j0s, output⟩) := by
  subst hpos
  have hle : 16 * (n - k) ≤ 16 * n := by omega
  have hrest : 16 * n - 16 * (n - k) = 16 * k := by omega
  rw [splitInput, Slice.splitOff_of_le hle, hrest]

theorem splitOutput_layout (h : k ≤ n) (hpos : m = 16 * (n - k)) :
    splitOutput m (vm, ⟨input, ks, j0s, ⟨L.output, 16 * n⟩⟩) =
      .ok ⟨L.output + 16 * (n - k), 16 * k⟩
        (vm, ⟨input, ks, j0s, ⟨L.output, 16 * (n - k)⟩⟩) := by
  subst hpos
  have hle : 16 * (n - k) ≤ 16 * n := by omega
  have hrest : 16 * n - 16 * (n - k) = 16 * k := by omega
  rw [splitOutput, Slice.splitOff_of_le hle, hrest]

theorem consume_layout {len : Nat} (hk : divCeil len 16 = k) (h : k ≤ n) :
    consume len (vm, ⟨input, ⟨L.blocks 0 n⟩, j0s, output⟩) =
      .ok ⟨L.blocks (n - k) k⟩ (vm, ⟨input, ⟨L.blocks 0 (n - k)⟩, j0s, output⟩) := by
  subst hk
  rw [consume, Layout.blocks, Keystream.consume_ctrBlocks h]
  rfl

theorem consume_exhausted {len : Nat} (h : n < divCeil len 16) :
    ∃ e, consume len (vm, ⟨input, ⟨L.blocks 0 n⟩, j0s, output⟩) =
      .error e (vm, ⟨input, ⟨L.blocks 0 n⟩, j0s, output⟩) := by
  have hblocks : divCeil len blockSize > (L.blocks 0 n).length := by
    rw [Layout.blocks, length_ctrBlocks]
    exact h
  rw [consume, Keystream.consume, if_pos hblocks]
  exact ⟨_, rfl⟩

theorem assignKeystream_layout {nonce : List UInt8} (start n : Nat) (hnonce : nonce.length = 8) :
    assignKeystream ⟨L.blocks start n⟩ nonce s =
      .ok () (s.1.push (Keystream.assignOps nonce counterBytes (L.blocks start n) 0), s.2) := by
  simp only [assignKeystream, Fault.onFst, Fault.adapt, Keystream.assign, Layout.blocks]
  rw [Keystream.assignBlocks_ctrBlocks hnonce length_counterBytes]

theorem onVm_assign {r : Slice} {data : List UInt8} (h : data.length = r.len) :
    onVm (Vm.assign r data) s = .ok () (s.1.push [.assign r data], s.2) := by
  simp only [onVm, Fault.onFst, Fault.adapt, Vm.assign, h, if_true]

theorem onVm_commit (r : Slice) :
    onVm (Vm.commit r) s = .ok () (s.1.push [.commit r], s.2) := rfl

/-- The input of a record that is shorter than its blocks loses the padding. -/
theorem padInput_layout {len : Nat} (role : Role) (input : Nat) (hlen : len < 16 * k)
    (hword : 16 * k < wordSize) (hk : divCeil len 16 = k) :
    padInput role ⟨input, 16 * k⟩ (16 * k - len) s =
      .ok ⟨input, len⟩ (s.1.push (Layout.padOps role input len), s.2) := by
  have hsub : wrapSub (16 * k) (16 * k - len) = len := by
    rw [wrapSub_of_le (by omega) hword]
    omega
  have hpad : ¬ 16 * k - len = 0 := by omega
  have hsplit : (Slice.splitOff ⟨input, 16 * k⟩ len : Except (Fault AeadError) _) =
      .ok (⟨input, len⟩, ⟨input + len, 16 * k - len⟩) :=
    Slice.splitOff_of_le (Nat.le_of_lt hlen)
  subst hk
  rw [padInput, show (Slice.mk input (16 * divCeil len 16)).len = 16 * divCeil len 16 from rfl,
    hsub, Fault.run_bind_of_ok (Fault.lift_of_ok hsplit s)]
  simp only [Layout.padOps, hpad, if_false]
  cases role with
  | leader =>
      simp only [if_true]
      rw [Fault.run_bind_of_ok (onVm_assign (List.length_replicate ..)),
        Fault.run_bind_of_ok (onVm_commit _)]
      simp only [Vm.push, List.append_assoc, List.cons_append, List.nil_append, pure, EStateM.pure]
  | follower =>
      simp only [reduceCtorEq, if_false]
      rw [Fault.run_bind_of_ok (onVm_commit _)]
      rfl

/-- The length of an empty input underflows. -/
theorem padInput_panic {len pad input : Nat} (role : Role) (hsub : wrapSub 0 pad = len)
    (hlen : 0 < len) : padInput role ⟨input, 16 * 0⟩ pad s = .error .panic s := by
  have hsplit : (Slice.splitOff ⟨input, 16 * 0⟩ len : Except (Fault AeadError) _) =
      .error .panic := Slice.splitOff_of_lt hlen
  rw [padInput, show (Slice.mk input (16 * 0)).len = 0 from rfl, hsub,
    Fault.run_bind_of_error (Fault.lift_of_error hsplit s)]

end Resources

/-! ## Calls on the layout -/

namespace Resources

variable {L : Layout} {j0s : List (CtrBlock × OneTimePadShared)} {n len : Nat} {vm : Vm}
  {nonce : List UInt8}

/-- A record takes the last blocks that remain. -/
def applyOps (role : Role) (L : Layout) (n : Nat) (nonce : List UInt8) (len : Nat) : List VmOp :=
  let k := divCeil len 16
  Keystream.assignOps nonce counterBytes (L.blocks (n - k) k) 0 ++
    Layout.padOps role (L.input + 16 * (n - k)) len

theorem applyKeystream_layout (role : Role) (hnonce : nonce.length = 8)
    (hword : 16 * n < wordSize) (hlen : divCeil len 16 ≤ n) :
    applyKeystream role nonce len (vm, L.resources j0s n) =
      .ok (⟨L.input + 16 * (n - divCeil len 16), len⟩,
          ⟨L.output + 16 * (n - divCeil len 16), len⟩)
        (vm.push (applyOps role L n nonce len), L.resources j0s (n - divCeil len 16)) := by
  generalize hk : divCeil len 16 = k at hlen
  have hceil := divCeil_mul len 16 (by decide)
  rw [hk] at hceil
  have hpadded : wrap (k * 16) = 16 * k := by
    rw [wrap_of_lt (by omega), Nat.mul_comm]
  have hpadding : wrapSub (16 * k) len = 16 * k - len := wrapSub_of_le (by omega) (by omega)
  have hout : wrapSub (16 * n) (16 * k) = 16 * (n - k) := by
    rw [wrapSub_of_le (by omega) hword]
    omega
  have hfits : ¬ 16 * k > 16 * n := by omega
  have hin : 16 * n - 16 * k = 16 * (n - k) := by omega
  have hself : divCeil (16 * k) 16 = k := by
    rw [Nat.mul_comm, divCeil_mul_self k 16 (by decide)]
  rw [applyKeystream, Layout.resources,
    Fault.run_bind_of_ok (Fault.lift_of_ok (nonceOf_ok_iff.mpr ⟨hnonce, rfl⟩) _)]
  simp only [hk, hpadded, hpadding]
  rw [Fault.get_bind, if_neg hfits, hin, Fault.run_bind_of_ok (splitInput_layout hlen rfl),
    Fault.run_bind_of_ok (consume_layout hself hlen), Fault.get_bind,
    Fault.run_bind_of_ok (splitOutput_layout hlen hout),
    Fault.run_bind_of_ok (assignKeystream_layout _ _ hnonce)]
  by_cases hpad : 16 * k - len > 0
  · rw [if_pos hpad, Fault.run_bind_of_ok (padInput_layout role _ (by omega) (by omega) hk)]
    simp only [Slice.truncate, Nat.min_eq_right (show len ≤ 16 * k by omega), applyOps, hk,
      Vm.push, List.append_assoc]
    rfl
  · have heq : len = 16 * k := by omega
    rw [if_neg hpad]
    simp only [applyOps, Layout.padOps, heq, hself, Nat.sub_self, if_true, List.append_nil]
    rfl

/-- A record takes the keystream without the texts, which are dropped. -/
theorem takeKeystream_layout (hnonce : nonce.length = 8) (hpos : len ≠ 0)
    (hword : 16 * n < wordSize) (hlen : divCeil len 16 ≤ n) :
    takeKeystream nonce len (vm, L.resources j0s n) =
      .ok ⟨L.keystream + 16 * (n - divCeil len 16), len⟩
        (vm.push (Keystream.assignOps nonce counterBytes
          (L.blocks (n - divCeil len 16) (divCeil len 16)) 0),
        L.resources j0s (n - divCeil len 16)) := by
  generalize hk : divCeil len 16 = k at hlen
  have hceil := divCeil_mul len 16 (by decide)
  rw [hk] at hceil
  have hpadded : wrap (k * 16) = 16 * k := by
    rw [wrap_of_lt (by omega), Nat.mul_comm]
  have hout : wrapSub (16 * n) (16 * k) = 16 * (n - k) := by
    rw [wrapSub_of_le (by omega) hword]
    omega
  have hfits : ¬ 16 * k > 16 * n := by omega
  have hin : 16 * n - 16 * k = 16 * (n - k) := by omega
  have hvector : (Keystream.mk (L.blocks (n - k) k)).toVector len =
      .ok ⟨L.keystream + 16 * (n - k), len⟩ := Keystream.toVector_ctrBlocks hpos hk
  rw [takeKeystream, Layout.resources,
    Fault.run_bind_of_ok (Fault.lift_of_ok (nonceOf_ok_iff.mpr ⟨hnonce, rfl⟩) _)]
  simp only [hk, hpadded]
  rw [Fault.get_bind, if_neg hfits, hin, Fault.run_bind_of_ok (splitInput_layout hlen rfl),
    Fault.get_bind, Fault.run_bind_of_ok (splitOutput_layout hlen hout),
    Fault.run_bind_of_ok (consume_layout hk hlen),
    Fault.run_bind_of_ok (assignKeystream_layout _ _ hnonce), hvector]
  rfl

/-! A call that does not succeed leaves everything as it was. -/

theorem applyKeystream_nonce (role : Role) (hnonce : nonce.length ≠ 8) (s : Vm × Resources) :
    applyKeystream role nonce len s = .error (.err (.nonceLength nonce.length)) s := by
  have hnonce' : nonceOf nonce = .error (.err (.nonceLength nonce.length)) := if_neg hnonce
  rw [applyKeystream, Fault.run_bind_of_error (Fault.lift_of_error hnonce' s)]

theorem takeKeystream_nonce (hnonce : nonce.length ≠ 8) (s : Vm × Resources) :
    takeKeystream nonce len s = .error (.err (.nonceLength nonce.length)) s := by
  have hnonce' : nonceOf nonce = .error (.err (.nonceLength nonce.length)) := if_neg hnonce
  rw [takeKeystream, Fault.run_bind_of_error (Fault.lift_of_error hnonce' s)]

/-- The padded length of a record within 15 bytes of the word size wraps to zero. -/
theorem wrap_padded (hlen : len < wordSize) (hexceeds : ¬ 16 * divCeil len 16 < wordSize) :
    wrap (divCeil len 16 * 16) = 0 ∧ wrapSub 0 len = wordSize - len ∧
      wrapSub 0 (wordSize - len) = len ∧ 0 < len := by
  have hceil := divCeil_mul len 16 (by decide)
  have hword : divCeil len 16 * 16 = wordSize := by
    have hsize : wordSize % 16 = 0 := by decide
    omega
  have hpos : 0 < len := by
    have hsize : 16 ≤ wordSize := by decide
    omega
  have hself : wrap wordSize = 0 := Nat.mod_self wordSize
  refine ⟨by rw [hword, hself], ?_, ?_, hpos⟩
  · rw [wrapSub, Nat.zero_add, wrap_of_lt (by omega)]
  · rw [wrapSub, Nat.zero_add, Nat.sub_sub_self (Nat.le_of_lt hlen), wrap_of_lt hlen]

theorem applyKeystream_exhausted (role : Role) (hword : 16 * n < wordSize) (hlen : len < wordSize)
    (h : n < divCeil len 16) :
    ∃ e, applyKeystream role nonce len (vm, L.resources j0s n) =
      .error e (vm, L.resources j0s n) := by
  by_cases hnonce : nonce.length = 8
  · rw [applyKeystream, Layout.resources,
      Fault.run_bind_of_ok (Fault.lift_of_ok (nonceOf_ok_iff.mpr ⟨hnonce, rfl⟩) _)]
    by_cases hexceeds : 16 * divCeil len 16 < wordSize
    · have hpadded : wrap (divCeil len 16 * 16) = 16 * divCeil len 16 := by
        rw [Nat.mul_comm, wrap_of_lt hexceeds]
      have hfits : 16 * divCeil len 16 > 16 * n := by omega
      simp only [hpadded]
      rw [Fault.get_bind, if_pos hfits]
      exact ⟨_, rfl⟩
    · obtain ⟨hpadded, hpadding, hpos, hne⟩ := wrap_padded hlen hexceeds
      have hpanic : wordSize - len > 0 := by omega
      have hout : wrapSub (16 * n) 0 = 16 * n := wrapSub_of_le (Nat.zero_le _) hword
      simp only [hpadded, hpadding]
      rw [Fault.get_bind, if_neg (Nat.not_lt_zero _)]
      simp only [Nat.sub_zero]
      rw [Fault.run_bind_of_ok (splitInput_layout (m := 16 * n) (Nat.zero_le n) rfl),
        Fault.run_bind_of_ok (consume_layout rfl (Nat.zero_le n)), Fault.get_bind,
        Fault.run_bind_of_ok (splitOutput_layout (Nat.zero_le n) hout),
        Fault.run_bind_of_ok (assignKeystream_layout _ _ hnonce), if_pos hpanic,
        Fault.run_bind_of_error (padInput_panic role hpos hne)]
      exact ⟨_, congrArg _ (congrArg (·, _) (Vm.push_nil vm))⟩
  · exact ⟨_, applyKeystream_nonce role hnonce _⟩

theorem takeKeystream_exhausted (hword : 16 * n < wordSize) (hlen : len < wordSize)
    (h : n < divCeil len 16) :
    ∃ e, takeKeystream nonce len (vm, L.resources j0s n) =
      .error e (vm, L.resources j0s n) := by
  by_cases hnonce : nonce.length = 8
  · rw [takeKeystream, Layout.resources,
      Fault.run_bind_of_ok (Fault.lift_of_ok (nonceOf_ok_iff.mpr ⟨hnonce, rfl⟩) _)]
    by_cases hexceeds : 16 * divCeil len 16 < wordSize
    · have hpadded : wrap (divCeil len 16 * 16) = 16 * divCeil len 16 := by
        rw [Nat.mul_comm, wrap_of_lt hexceeds]
      have hfits : 16 * divCeil len 16 > 16 * n := by omega
      simp only [hpadded]
      rw [Fault.get_bind, if_pos hfits]
      exact ⟨_, rfl⟩
    · obtain ⟨hpadded, -, -, -⟩ := wrap_padded hlen hexceeds
      have hout : wrapSub (16 * n) 0 = 16 * n := wrapSub_of_le (Nat.zero_le _) hword
      obtain ⟨e, he⟩ : ∃ e, consume len (vm, ⟨⟨L.input, 16 * n⟩, ⟨L.blocks 0 n⟩, j0s,
          ⟨L.output, 16 * n⟩⟩) = .error e (vm, ⟨⟨L.input, 16 * n⟩, ⟨L.blocks 0 n⟩, j0s,
          ⟨L.output, 16 * n⟩⟩) := consume_exhausted h
      simp only [hpadded]
      rw [Fault.get_bind, if_neg (Nat.not_lt_zero _)]
      simp only [Nat.sub_zero]
      rw [Fault.run_bind_of_ok (splitInput_layout (m := 16 * n) (Nat.zero_le n) rfl),
        Fault.get_bind, Fault.run_bind_of_ok (splitOutput_layout (Nat.zero_le n) hout)]
      exact ⟨e, Fault.run_bind_of_error he⟩
  · exact ⟨_, takeKeystream_nonce hnonce _⟩

theorem takeKeystream_empty (hword : 16 * n < wordSize) (hnonce : nonce.length = 8) :
    takeKeystream nonce 0 (vm, L.resources j0s n) =
      .error (.err (.cipher (.cipher (.msg "length must be greater than 0"))))
        (vm, L.resources j0s n) := by
  have hpadded : wrap (divCeil 0 16 * 16) = 0 := by decide
  have hout : wrapSub (16 * n) 0 = 16 * n := wrapSub_of_le (Nat.zero_le _) hword
  rw [takeKeystream, Layout.resources,
    Fault.run_bind_of_ok (Fault.lift_of_ok (nonceOf_ok_iff.mpr ⟨hnonce, rfl⟩) _)]
  simp only [hpadded]
  rw [Fault.get_bind, if_neg (Nat.not_lt_zero _)]
  simp only [Nat.sub_zero]
  rw [Fault.run_bind_of_ok (splitInput_layout (m := 16 * n) (Nat.zero_le n) rfl),
    Fault.get_bind, Fault.run_bind_of_ok (splitOutput_layout (Nat.zero_le n) hout),
    Fault.run_bind_of_ok (consume_layout rfl (Nat.zero_le n)),
    Fault.run_bind_of_ok (assignKeystream_layout _ _ hnonce)]
  exact congrArg _ (congrArg (·, _) (Vm.push_nil vm))

end Resources

end Tlsn.MpcTls

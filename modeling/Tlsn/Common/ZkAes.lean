import Tlsn.MpcTls.KeystreamCalls

/-!
Encryption of records in zero knowledge. Texts and keystream for all received data
are allocated in advance, and each record takes whole blocks off their ends. The
prover alone assigns the texts.
-/

namespace Tlsn.Common

open Tlsn.Cipher
open Tlsn.MpcTls (Layout Slice.splitOff_of_le Slice.splitOff_of_lt)

inductive Role where
  | prover
  | verifier
deriving DecidableEq

inductive ZkAesCtrError where
  | state (reason : String)
  | aes (e : AesError)
  | cipher (e : CipherError)
  | vm (e : VmError)
  | explicitNonceLength (expected actual : Nat)
  | insufficientPreprocessing (expected actual : Nat)
deriving DecidableEq

/-- What is allocated, and not used up. -/
structure ZkTexts where
  input : Slice
  keystream : Keystream
  output : Slice
deriving DecidableEq

inductive ZkAesState where
  | init
  | ready (texts : ZkTexts)
  | error
deriving DecidableEq

structure ZkAesCtr where
  role : Role
  aes : Aes128
  state : ZkAesState
deriving DecidableEq

def startCtr : Nat := 2

/-- The counters of a record's blocks, as the range from `startCtr` on yields them. -/
def counterBytes (i : Nat) : List UInt8 := beBytes 4 (startCtr + i)

namespace ZkTexts

def splitInput (pos : Nat) : EStateM (Fault ZkAesCtrError) (Vm × ZkTexts) Slice := fun s =>
  match (s.2.input.splitOff pos : Except (Fault ZkAesCtrError) _) with
  | .ok (rest, tail) => .ok tail (s.1, { s.2 with input := rest })
  | .error e => .error e s

def splitOutput (pos : Nat) : EStateM (Fault ZkAesCtrError) (Vm × ZkTexts) Slice := fun s =>
  match (s.2.output.splitOff pos : Except (Fault ZkAesCtrError) _) with
  | .ok (rest, tail) => .ok tail (s.1, { s.2 with output := rest })
  | .error e => .error e s

def consume (len : Nat) : EStateM (Fault ZkAesCtrError) (Vm × ZkTexts) Keystream := fun s =>
  match Keystream.consume len s.2.keystream with
  | .ok ks rest => .ok ks (s.1, { s.2 with keystream := rest })
  | .error e rest => .error (e.map .cipher) (s.1, { s.2 with keystream := rest })

def onVm {α : Type} (x : EStateM (Fault VmError) Vm α) :
    EStateM (Fault ZkAesCtrError) (Vm × ZkTexts) α :=
  Fault.onFst (Fault.adapt .vm x)

def assignKeystream (ks : Keystream) (explicitNonce : List UInt8) :
    EStateM (Fault ZkAesCtrError) (Vm × ZkTexts) Unit :=
  Fault.onFst (Fault.adapt .cipher (ks.assign explicitNonce counterBytes))

/-- The padding is not marked as public, so only the prover assigns it. -/
def padInput (role : Role) (input : Slice) (paddingLen : Nat) :
    EStateM (Fault ZkAesCtrError) (Vm × ZkTexts) Slice := do
  let (input, padding) ← Fault.lift (input.splitOff (wrapSub input.len paddingLen))
  if role = .prover then
    onVm (Vm.assign padding (List.replicate paddingLen 0))
  onVm (Vm.commit padding)
  return input

/-- Returns `len` bytes of input and output. -/
def encrypt (role : Role) (explicitNonce : List UInt8) (len : Nat) :
    EStateM (Fault ZkAesCtrError) (Vm × ZkTexts) (Slice × Slice) := do
  if explicitNonce.length ≠ 8 then
    throw (.err (.explicitNonceLength 8 explicitNonce.length))
  else
    let blockCount := divCeil len 16
    let paddedLen := wrap (blockCount * 16)
    let paddingLen := wrapSub paddedLen len
    let inputLen := (← get).2.input.len
    if paddedLen > inputLen then
      throw (.err (.insufficientPreprocessing paddedLen inputLen))
    else
      let input ← splitInput (inputLen - paddedLen)
      let keystream ← consume paddedLen
      let output ← splitOutput (wrapSub (← get).2.output.len paddedLen)
      assignKeystream keystream explicitNonce
      if paddingLen > 0 then
        let input ← padInput role input paddingLen
        return (input, output.truncate len)
      else return (input, output)

end ZkTexts

namespace ZkAesCtr

def new (role : Role) : ZkAesCtr := ⟨role, Aes128.default, .init⟩

def setKey (zk : ZkAesCtr) (key iv : Slice) : ZkAesCtr :=
  { zk with aes := (zk.aes.setKey key).setIv iv }

/-- The input is known to the prover only. -/
def markInput (role : Role) (input : Slice) : EStateM (Fault ZkAesCtrError) Vm Unit :=
  match role with
  | .prover => Vm.mark .isPrivate input
  | .verifier => Vm.mark .isBlind input

def allocTexts (role : Role) (aes : Aes128) (len : Nat) :
    EStateM (Fault ZkAesCtrError) Vm ZkTexts := do
  let len := wrap (16 * divCeil len 16)
  let input ← Vm.alloc len
  let keystream ← Fault.adapt .aes (aes.allocKeystream len)
  let output ← Fault.adapt .cipher (keystream.apply input)
  markInput role input
  return ⟨input, keystream, output⟩

def alloc (len : Nat) : EStateM (Fault ZkAesCtrError) (Vm × ZkAesCtr) Unit := fun s =>
  match s.2.state with
  | .init =>
      match allocTexts s.2.role s.2.aes len s.1 with
      | .ok texts vm => .ok () (vm, { s.2 with state := .ready texts })
      | .error e vm => .error e (vm, { s.2 with state := .error })
  | _ => .error (.err (.state "must be in init state to allocate"))
      (s.1, { s.2 with state := .error })

/-- The plaintext and the ciphertext of a record, in memory. -/
def encrypt (explicitNonce : List UInt8) (len : Nat) :
    EStateM (Fault ZkAesCtrError) (Vm × ZkAesCtr) (Slice × Slice) := fun s =>
  match s.2.state with
  | .ready texts =>
      match ZkTexts.encrypt s.2.role explicitNonce len (s.1, texts) with
      | .ok a (vm, texts) => .ok a (vm, { s.2 with state := .ready texts })
      | .error e (vm, texts) => .error e (vm, { s.2 with state := .ready texts })
  | _ => .error (.err (.state "must be in ready state to encrypt")) s

end ZkAesCtr

/-! ## The layout -/

@[simp] theorem length_counterBytes (i : Nat) : (counterBytes i).length = 4 :=
  length_beBytes 4 _

/-- What remains when `n` blocks do. -/
def zkTexts (L : Layout) (n : Nat) : ZkTexts where
  input := ⟨L.input, 16 * n⟩
  keystream := ⟨L.blocks 0 n⟩
  output := ⟨L.output, 16 * n⟩

namespace ZkTexts

variable {L : Layout} {n m k len : Nat} {vm : Vm} {input output : Slice} {ks : Keystream}
  {nonce : List UInt8} {s : Vm × ZkTexts}

theorem splitInput_layout (h : k ≤ n) (hpos : m = 16 * (n - k)) :
    splitInput m (vm, ⟨⟨L.input, 16 * n⟩, ks, output⟩) =
      .ok ⟨L.input + 16 * (n - k), 16 * k⟩ (vm, ⟨⟨L.input, 16 * (n - k)⟩, ks, output⟩) := by
  subst hpos
  have hle : 16 * (n - k) ≤ 16 * n := by omega
  have hrest : 16 * n - 16 * (n - k) = 16 * k := by omega
  rw [splitInput, Slice.splitOff_of_le hle, hrest]

theorem splitOutput_layout (h : k ≤ n) (hpos : m = 16 * (n - k)) :
    splitOutput m (vm, ⟨input, ks, ⟨L.output, 16 * n⟩⟩) =
      .ok ⟨L.output + 16 * (n - k), 16 * k⟩ (vm, ⟨input, ks, ⟨L.output, 16 * (n - k)⟩⟩) := by
  subst hpos
  have hle : 16 * (n - k) ≤ 16 * n := by omega
  have hrest : 16 * n - 16 * (n - k) = 16 * k := by omega
  rw [splitOutput, Slice.splitOff_of_le hle, hrest]

theorem consume_layout (hk : divCeil len 16 = k) (h : k ≤ n) :
    consume len (vm, ⟨input, ⟨L.blocks 0 n⟩, output⟩) =
      .ok ⟨L.blocks (n - k) k⟩ (vm, ⟨input, ⟨L.blocks 0 (n - k)⟩, output⟩) := by
  subst hk
  rw [consume, Layout.blocks, Keystream.consume_ctrBlocks h]
  rfl

theorem assignKeystream_layout (start n : Nat) (hnonce : nonce.length = 8) :
    assignKeystream ⟨L.blocks start n⟩ nonce s =
      .ok () (s.1.push (Keystream.assignOps nonce counterBytes (L.blocks start n) 0), s.2) := by
  simp only [assignKeystream, Fault.onFst, Fault.adapt, Keystream.assign, Layout.blocks]
  rw [Keystream.assignBlocks_ctrBlocks hnonce length_counterBytes]

theorem onVm_assign {r : Slice} {data : List UInt8} (h : data.length = r.len) :
    onVm (Vm.assign r data) s = .ok () (s.1.push [.assign r data], s.2) := by
  simp only [onVm, Fault.onFst, Fault.adapt, Vm.assign, h, if_true]

theorem onVm_commit (r : Slice) :
    onVm (Vm.commit r) s = .ok () (s.1.push [.commit r], s.2) := rfl

/-- What is logged for the padding of a record with `len` bytes at `input`. -/
def padOps (role : Role) (input len : Nat) : List VmOp :=
  let paddingLen := 16 * divCeil len 16 - len
  if paddingLen = 0 then []
  else
    match role with
    | .prover =>
        [.assign ⟨input + len, paddingLen⟩ (List.replicate paddingLen 0),
          .commit ⟨input + len, paddingLen⟩]
    | .verifier => [.commit ⟨input + len, paddingLen⟩]

theorem padInput_layout (role : Role) (input : Nat) (hlen : len < 16 * k)
    (hword : 16 * k < wordSize) (hk : divCeil len 16 = k) :
    padInput role ⟨input, 16 * k⟩ (16 * k - len) s =
      .ok ⟨input, len⟩ (s.1.push (padOps role input len), s.2) := by
  have hsub : wrapSub (16 * k) (16 * k - len) = len := by
    rw [wrapSub_of_le (by omega) hword]
    omega
  have hpad : ¬ 16 * k - len = 0 := by omega
  have hsplit : (Slice.splitOff ⟨input, 16 * k⟩ len : Except (Fault ZkAesCtrError) _) =
      .ok (⟨input, len⟩, ⟨input + len, 16 * k - len⟩) :=
    Slice.splitOff_of_le (Nat.le_of_lt hlen)
  subst hk
  rw [padInput, show (Slice.mk input (16 * divCeil len 16)).len = 16 * divCeil len 16 from rfl,
    hsub, Fault.run_bind_of_ok (Fault.lift_of_ok hsplit s)]
  simp only [padOps, hpad, if_false]
  cases role with
  | prover =>
      simp only [if_true]
      rw [Fault.run_bind_of_ok (onVm_assign (List.length_replicate ..)),
        Fault.run_bind_of_ok (onVm_commit _)]
      simp only [Vm.push, List.append_assoc, List.cons_append, List.nil_append, pure, EStateM.pure]
  | verifier =>
      simp only [reduceCtorEq, if_false]
      rw [Fault.run_bind_of_ok (onVm_commit _)]
      rfl

/-- What is logged when a record takes the last of `n` blocks. -/
def encryptOps (role : Role) (L : Layout) (n : Nat) (nonce : List UInt8) (len : Nat) : List VmOp :=
  let k := divCeil len 16
  Keystream.assignOps nonce counterBytes (L.blocks (n - k) k) 0 ++
    padOps role (L.input + 16 * (n - k)) len

/-- A record takes the last blocks that remain. -/
theorem encrypt_layout (role : Role) (hnonce : nonce.length = 8) (hword : 16 * n < wordSize)
    (hlen : divCeil len 16 ≤ n) :
    encrypt role nonce len (vm, zkTexts L n) =
      .ok (⟨L.input + 16 * (n - divCeil len 16), len⟩, ⟨L.output + 16 * (n - divCeil len 16), len⟩)
        (vm.push (encryptOps role L n nonce len), zkTexts L (n - divCeil len 16)) := by
  generalize hk : divCeil len 16 = k at hlen
  have hceil := divCeil_mul len 16 (by decide)
  rw [hk] at hceil
  have hpadded : wrap (k * 16) = 16 * k := by
    rw [wrap_of_lt (by omega), Nat.mul_comm]
  have hpadding : wrapSub (16 * k) len = 16 * k - len := wrapSub_of_le (by omega) (by omega)
  have hout : wrapSub (16 * n) (16 * k) = 16 * (n - k) := by
    rw [wrapSub_of_le (by omega) hword]
    omega
  have hfits : ¬ 16 * k > 16 * n := by omega
  have hin : 16 * n - 16 * k = 16 * (n - k) := by omega
  have hself : divCeil (16 * k) 16 = k := by
    rw [Nat.mul_comm, divCeil_mul_self k 16 (by decide)]
  rw [encrypt, zkTexts, if_neg (not_not_intro hnonce)]
  simp only [hk, hpadded, hpadding]
  rw [Fault.get_bind, if_neg hfits, hin, Fault.run_bind_of_ok (splitInput_layout hlen rfl),
    Fault.run_bind_of_ok (consume_layout hself hlen), Fault.get_bind,
    Fault.run_bind_of_ok (splitOutput_layout hlen hout),
    Fault.run_bind_of_ok (assignKeystream_layout _ _ hnonce)]
  by_cases hpad : 16 * k - len > 0
  · rw [if_pos hpad, Fault.run_bind_of_ok (padInput_layout role _ (by omega) (by omega) hk)]
    simp only [Slice.truncate, Nat.min_eq_right (show len ≤ 16 * k by omega), encryptOps, hk,
      Vm.push, List.append_assoc]
    rfl
  · have heq : len = 16 * k := by omega
    rw [if_neg hpad]
    simp only [encryptOps, padOps, heq, hself, Nat.sub_self, if_true, List.append_nil]
    rfl

/-- The length of an empty input underflows. -/
theorem padInput_panic {pad input : Nat} (role : Role) (hsub : wrapSub 0 pad = len)
    (hlen : 0 < len) : padInput role ⟨input, 16 * 0⟩ pad s = .error .panic s := by
  have hsplit : (Slice.splitOff ⟨input, 16 * 0⟩ len : Except (Fault ZkAesCtrError) _) =
      .error .panic := Slice.splitOff_of_lt hlen
  rw [padInput, show (Slice.mk input (16 * 0)).len = 0 from rfl, hsub,
    Fault.run_bind_of_error (Fault.lift_of_error hsplit s)]

/-- A record for which too few blocks remain is refused. A length within 15 bytes of the
word size wraps to zero when it is padded. -/
theorem encrypt_exhausted (role : Role) (hnonce : nonce.length = 8) (hword : 16 * n < wordSize)
    (hlen : len < wordSize) (h : n < divCeil len 16) :
    ∃ e t, encrypt role nonce len (vm, zkTexts L n) = .error e t ∧
      (16 * divCeil len 16 < wordSize →
        e = .err (.insufficientPreprocessing (16 * divCeil len 16) (16 * n))) := by
  rw [encrypt, zkTexts, if_neg (not_not_intro hnonce)]
  by_cases hexceeds : 16 * divCeil len 16 < wordSize
  · have hpadded : wrap (divCeil len 16 * 16) = 16 * divCeil len 16 := by
      rw [Nat.mul_comm, wrap_of_lt hexceeds]
    have hfits : 16 * divCeil len 16 > 16 * n := by omega
    simp only [hpadded]
    rw [Fault.get_bind, if_pos hfits]
    exact ⟨_, _, rfl, fun _ => rfl⟩
  · obtain ⟨hpadded, hpadding, hpos, hne⟩ := MpcTls.Resources.wrap_padded hlen hexceeds
    have hpanic : wordSize - len > 0 := by omega
    have hout : wrapSub (16 * n) 0 = 16 * n := wrapSub_of_le (Nat.zero_le _) hword
    simp only [hpadded, hpadding]
    rw [Fault.get_bind, if_neg (Nat.not_lt_zero _)]
    simp only [Nat.sub_zero]
    rw [Fault.run_bind_of_ok (splitInput_layout (m := 16 * n) (Nat.zero_le n) rfl),
      Fault.run_bind_of_ok (consume_layout rfl (Nat.zero_le n)), Fault.get_bind,
      Fault.run_bind_of_ok (splitOutput_layout (Nat.zero_le n) hout),
      Fault.run_bind_of_ok (assignKeystream_layout _ _ hnonce), if_pos hpanic,
      Fault.run_bind_of_error (padInput_panic role hpos hne)]
    exact ⟨_, _, rfl, fun hlt => absurd hlt hexceeds⟩

theorem encrypt_nonce (role : Role) (hnonce : nonce.length ≠ 8) :
    encrypt role nonce len s = .error (.err (.explicitNonceLength 8 nonce.length)) s := by
  rw [encrypt, if_pos hnonce]
  rfl

end ZkTexts

namespace ZkAesCtr

/-- An instance with the layout. -/
structure Laid (L : Layout) (n : Nat) (zk : ZkAesCtr) : Prop where
  state : zk.state = .ready (zkTexts L n)
  lt_word : 16 * n < wordSize

/-- The instance, when `n` blocks remain. -/
def rest (L : Layout) (n : Nat) (zk : ZkAesCtr) : ZkAesCtr :=
  { zk with state := .ready (zkTexts L n) }

theorem laid_rest {L : Layout} {m n : Nat} {zk : ZkAesCtr} (h : zk.Laid L n) (hle : m ≤ n) :
    (zk.rest L m).Laid L m := ⟨rfl, by have := h.lt_word; omega⟩

theorem logs_markInput (role : Role) (input : Slice) : Vm.Logs (markInput role input) := by
  cases role <;> exact Vm.logs_mark _ _

/-- There are blocks for as many bytes as were asked for. -/
theorem alloc_layout {len : Nat} {s s' : Vm × ZkAesCtr} (hlen : len < wordSize)
    (h : alloc len s = .ok () s') :
    ∃ L key iv, s.2.aes.key = some key ∧ s.2.aes.iv = some iv ∧ s'.2.Laid L (divCeil len 16) ∧
      s'.2.role = s.2.role ∧ L.Called key iv (divCeil len 16) s'.1 := by
  simp only [alloc] at h
  cases hstate : s.2.state with
  | init =>
      rw [hstate] at h
      cases htexts : allocTexts s.2.role s.2.aes len s.1 with
      | error e vm =>
          rw [htexts] at h
          cases h
      | ok texts vm =>
          rw [htexts] at h
          cases h
          simp only [allocTexts, Fault.run_bind_ok_iff, Fault.adapt_ok_iff] at htexts
          obtain ⟨input, vm₁, hinput, ks, vm₂, hks, output, vm₃, hout, ⟨⟩, vm₄, hmark,
            hret⟩ := htexts
          obtain ⟨key, iv, hkey, hiv⟩ := Aes128.allocKeystream_keyed hks
          rw [Aes128.allocKeystream_eq hkey hiv] at hks
          cases hinput
          cases hks
          have hsize := MpcTls.mul_divCeil_wrap len
          have hblocks := @MpcTls.MpcAesGcm.allocatedBlocks_eq len hlen
          rw [MpcTls.MpcAesGcm.allocatedBlocks] at hblocks
          generalize divCeil (wrap (16 * divCeil len 16)) blockSize = n at *
          have hword : wrap (16 * divCeil len 16) < wordSize := Nat.mod_lt _ (by decide)
          rw [← hsize] at hout hret hword
          have hne : n ≠ 0 := by
            intro hzero
            subst hzero
            exact (Keystream.apply_ok_len hout).2 rfl
          rw [← hblocks hne]
          rw [Keystream.apply_ctrBlocks hne rfl] at hout
          cases hout
          obtain ⟨ops, hops⟩ := logs_markInput _ _ _ _ _ hmark
          cases hret
          refine ⟨⟨s.1.next + 16 * n, s.1.next + 16 * n + 12 * n, s.1.next, s.1.next + 16 * n +
            28 * n⟩, key, iv, hkey, hiv, ⟨rfl, hword⟩, rfl, ?_⟩
          refine Layout.Called.of_append ⟨?_, ?_⟩ hops
          · intro i hi
            apply List.mem_append_left
            apply List.mem_append_right
            exact List.mem_map_of_mem (List.mem_range'_1.mpr (by omega))
          · intro i hi
            apply List.mem_append_right
            exact List.mem_map_of_mem (List.mem_range'_1.mpr (by omega))
  | ready texts =>
      rw [hstate] at h
      cases h
  | error =>
      rw [hstate] at h
      cases h

variable {L : Layout} {n len : Nat} {nonce : List UInt8} {s : Vm × ZkAesCtr}

theorem encrypt_laid (h : s.2.Laid L n) (hnonce : nonce.length = 8) (hlen : divCeil len 16 ≤ n) :
    encrypt nonce len s =
      .ok (⟨L.input + 16 * (n - divCeil len 16), len⟩, ⟨L.output + 16 * (n - divCeil len 16), len⟩)
        (s.1.push (ZkTexts.encryptOps s.2.role L n nonce len),
          s.2.rest L (n - divCeil len 16)) := by
  simp only [encrypt, h.state, ZkTexts.encrypt_layout s.2.role hnonce h.lt_word hlen]
  rfl

theorem encrypt_refused (h : s.2.Laid L n) (hnonce : nonce.length = 8) (hlen : len < wordSize)
    (hexceeds : n < divCeil len 16) :
    ∃ e t, encrypt nonce len s = .error e t ∧ (16 * divCeil len 16 < wordSize →
      e = .err (.insufficientPreprocessing (16 * divCeil len 16) (16 * n))) := by
  obtain ⟨e, t, he, herr⟩ :
      ∃ e t, ZkTexts.encrypt s.2.role nonce len (s.1, zkTexts L n) = .error e t ∧ _ :=
    ZkTexts.encrypt_exhausted s.2.role hnonce h.lt_word hlen hexceeds
  simp only [encrypt, h.state, he]
  exact ⟨e, _, rfl, herr⟩

/-- What a record needs. -/
theorem encrypt_fits {r : Slice × Slice} {s' : Vm × ZkAesCtr} (h : s.2.Laid L n)
    (hlen : len < wordSize) (hok : encrypt nonce len s = .ok r s') :
    nonce.length = 8 ∧ divCeil len 16 ≤ n := by
  by_cases hnonce : nonce.length = 8
  · refine ⟨hnonce, Nat.le_of_not_lt fun hexceeds => ?_⟩
    obtain ⟨e, t, he, -⟩ := encrypt_refused h hnonce hlen hexceeds
    rw [he] at hok
    cases hok
  · simp only [encrypt, h.state, ZkTexts.encrypt_nonce s.2.role hnonce] at hok
    cases hok

end ZkAesCtr

end Tlsn.Common

import Tlsn.Cipher.Keystream

/-!
What an allocation of keystream looks like in memory. Inputs and outputs of the
blocks follow each other at fixed distances, so that a run of blocks is given by
two addresses and a range of block numbers, and consuming keystream only moves
the end of the range.
-/

namespace Tlsn.Cipher

/-- Block `i` of a keystream with inputs and outputs from the two addresses on. -/
def ctrBlock (inputs outputs i : Nat) : CtrBlock where
  explicitNonce := ⟨inputs + 12 * i, 8⟩
  counter := ⟨inputs + 12 * i + 8, 4⟩
  output := ⟨outputs + 16 * i, 16⟩

/-- The blocks from `start` on, `n` of them. -/
def ctrBlocks (inputs outputs start n : Nat) : List CtrBlock :=
  (List.range' start n).map (ctrBlock inputs outputs)

@[simp] theorem length_ctrBlocks (p q start n : Nat) : (ctrBlocks p q start n).length = n := by
  simp [ctrBlocks]

theorem ctrBlocks_succ (p q start n : Nat) :
    ctrBlocks p q start (n + 1) = ctrBlock p q start :: ctrBlocks p q (start + 1) n := by
  rw [ctrBlocks, List.range'_succ, List.map_cons, ctrBlocks]

theorem getElem?_ctrBlocks {p q start n i : Nat} (h : i < n) :
    (ctrBlocks p q start n)[i]? = some (ctrBlock p q (start + i)) := by
  rw [ctrBlocks, List.getElem?_map, List.getElem?_range' h, Nat.one_mul, Option.map_some]

theorem ctrBlocks_append (p q start m n : Nat) :
    ctrBlocks p q start (m + n) = ctrBlocks p q start m ++ ctrBlocks p q (start + m) n := by
  simp only [ctrBlocks]
  rw [← List.range'_append_1, List.map_append]

theorem mem_ctrBlocks {p q start n : Nat} {b : CtrBlock} (h : b ∈ ctrBlocks p q start n) :
    ∃ i, start ≤ i ∧ i < start + n ∧ b = ctrBlock p q i := by
  obtain ⟨i, hi, rfl⟩ := List.mem_map.mp h
  rw [List.mem_range'_1] at hi
  exact ⟨i, hi.1, hi.2, rfl⟩

/-- No two blocks share memory. -/
def CtrBlock.Disjoint (b c : CtrBlock) : Prop :=
  b.explicitNonce.Disjoint c.explicitNonce ∧ b.counter.Disjoint c.counter ∧
    b.output.Disjoint c.output

theorem ctrBlock_disjoint (p q : Nat) {i j : Nat} (h : i ≠ j) :
    (ctrBlock p q i).Disjoint (ctrBlock p q j) := by
  simp only [CtrBlock.Disjoint, ctrBlock, Slice.Disjoint, Slice.stop]
  omega

/-- The keystream in memory. -/
def keystreamBytes (mem : Memory) (blocks : List CtrBlock) : List UInt8 :=
  blocks.flatMap fun block => mem.read block.output

theorem keystreamBytes_ctrBlocks (mem : Memory) (p q start n : Nat) :
    keystreamBytes mem (ctrBlocks p q start n) = mem.read ⟨q + 16 * start, 16 * n⟩ := by
  induction n generalizing start with
  | zero => rfl
  | succ n ih =>
      rw [ctrBlocks_succ, keystreamBytes, List.flatMap_cons, ← keystreamBytes, ih (start + 1),
        show 16 * (n + 1) = 16 + 16 * n by omega, Memory.read_append, ctrBlock,
        show q + 16 * (start + 1) = q + 16 * start + 16 by omega]

namespace Keystream

theorem contiguous_ctrBlocks (p q start n : Nat) :
    contiguous (q + 16 * start) (ctrBlocks p q start n) = true := by
  induction n generalizing start with
  | zero => rfl
  | succ n ih =>
      rw [ctrBlocks_succ, contiguous, Bool.and_eq_true, decide_eq_true_eq]
      have hnext := ih (start + 1)
      rw [show q + 16 * (start + 1) = q + 16 * start + blockSize by simp [blockSize]; omega]
        at hnext
      exact ⟨rfl, hnext⟩

theorem new_ctrBlocks {ε : Type} (p q start n : Nat) :
    (new (ctrBlocks p q start n) : Except (Fault ε) _) = .ok ⟨ctrBlocks p q start n⟩ := by
  cases n with
  | zero => rfl
  | succ n =>
      have hcontiguous := contiguous_ctrBlocks p q start (n + 1)
      rw [ctrBlocks_succ] at hcontiguous ⊢
      exact if_pos hcontiguous

theorem consume_ctrBlocks {p q n len : Nat} (h : divCeil len blockSize ≤ n) :
    consume len ⟨ctrBlocks p q 0 n⟩ =
      .ok ⟨ctrBlocks p q (n - divCeil len blockSize) (divCeil len blockSize)⟩
        ⟨ctrBlocks p q 0 (n - divCeil len blockSize)⟩ := by
  obtain ⟨m, rfl⟩ := Nat.exists_eq_add_of_le' h
  have hsplit := ctrBlocks_append p q 0 m (divCeil len blockSize)
  have hle : ¬ divCeil len blockSize > m + divCeil len blockSize := by omega
  simp only [consume, length_ctrBlocks, hle, if_false, Nat.add_sub_cancel]
  rw [hsplit, List.take_left' (length_ctrBlocks ..), List.drop_left' (length_ctrBlocks ..),
    Nat.zero_add]

/-- What assigning the inputs of the blocks adds to the log. -/
def assignOps (explicitNonce : List UInt8) (ctr : Nat → List UInt8) :
    List CtrBlock → Nat → List VmOp
  | [], _ => []
  | block :: blocks, i =>
      [.assign block.explicitNonce explicitNonce, .commit block.explicitNonce,
        .assign block.counter (ctr i), .commit block.counter] ++
        assignOps explicitNonce ctr blocks (i + 1)

theorem assignBlocks_ctrBlocks {explicitNonce : List UInt8} {ctr : Nat → List UInt8}
    (hnonce : explicitNonce.length = 8) (hctr : ∀ i, (ctr i).length = 4) (p q start n i : Nat)
    (vm : Vm) :
    assignBlocks explicitNonce ctr (ctrBlocks p q start n) i vm =
      .ok () (vm.push (assignOps explicitNonce ctr (ctrBlocks p q start n) i)) := by
  induction n generalizing start i vm with
  | zero => simp [ctrBlocks, assignBlocks, assignOps, Vm.push, pure, EStateM.pure]
  | succ n ih =>
      rw [ctrBlocks_succ]
      simp only [assignBlocks, bind, EStateM.bind, Vm.assign, Vm.commit, ctrBlock, hnonce, hctr,
        if_true, Vm.push, ih, assignOps, List.append_assoc, List.cons_append, List.nil_append]

theorem toVector_ctrBlocks {p q start n len : Nat} (hlen : len ≠ 0)
    (hn : divCeil len blockSize = n) :
    toVector ⟨ctrBlocks p q start n⟩ len = .ok ⟨q + 16 * start, len⟩ := by
  have hle := (divCeil_mul len blockSize (by decide)).1
  cases n with
  | zero =>
      rw [hn] at hle
      omega
  | succ n =>
      have hblocks : (ctrBlock p q start :: ctrBlocks p q (start + 1) n).length = n + 1 := by simp
      simp only [toVector, hlen, if_false, ctrBlocks_succ, hn, hblocks, ne_eq, not_true_eq_false,
        Slice.truncate]
      rw [hn] at hle
      rw [Nat.min_eq_right hle]
      rfl

/-- What applying the keystream adds to the log. -/
def xorOp (q input output i : Nat) : VmOp :=
  .call .xor [⟨q + 16 * i, 16⟩, ⟨input + 16 * i, 16⟩] ⟨output + 16 * i, 16⟩

theorem applyBlocks_ctrBlocks (p q r start n : Nat) (input : Slice) (vm : Vm)
    (hnext : vm.next = r + 16 * start) (hlen : 16 * (start + n) ≤ input.len) :
    applyBlocks input (ctrBlocks p q start n) (16 * start) vm =
      .ok ((List.range' start n).map fun i => ⟨r + 16 * i, 16⟩)
        ⟨r + 16 * (start + n),
          vm.log ++ (List.range' start n).map (xorOp q input.ptr r)⟩ := by
  induction n generalizing start vm with
  | zero =>
      rw [show vm = ⟨r + 16 * start, vm.log⟩ by rw [← hnext]]
      simp [ctrBlocks, applyBlocks, pure, EStateM.pure]
  | succ n ih =>
      have hget : input.get? (16 * start) (16 * start + blockSize) =
          some ⟨input.ptr + 16 * start, 16⟩ := by
        have hle : 16 * start + 16 ≤ input.len := by omega
        simp [Slice.get?, blockSize, hle]
      have hpos : 16 * start + blockSize = 16 * (start + 1) := by
        simp [blockSize]
        omega
      have hrest := fun vm hn => ih (start + 1) vm hn (by omega)
      rw [hpos] at hget
      rw [ctrBlocks_succ, applyBlocks, hpos, hget]
      simp only [bind, EStateM.bind, Vm.call, pure, EStateM.pure]
      rw [hrest _ (by simp only [hnext, blockSize]; omega)]
      simp only [List.range'_succ, List.map_cons, hnext, blockSize, List.append_assoc,
        List.cons_append, List.nil_append, Nat.add_assoc, Nat.add_comm 1 n]
      rfl

theorem apply_ctrBlocks {p q n : Nat} {input : Slice} {vm : Vm} (hn : n ≠ 0)
    (hlen : input.len = 16 * n) :
    apply ⟨ctrBlocks p q 0 n⟩ input vm =
      .ok ⟨vm.next, 16 * n⟩ ⟨vm.next + 16 * n,
        vm.log ++ (List.range' 0 n).map (xorOp q input.ptr vm.next)⟩ := by
  obtain ⟨m, rfl⟩ := Nat.exists_eq_succ_of_ne_zero hn
  have hblocks := applyBlocks_ctrBlocks p q vm.next 0 (m + 1) input vm (by simp) (by omega)
  rw [Nat.mul_zero, Nat.zero_add] at hblocks
  have hlen' : ¬ input.len ≠ len ⟨ctrBlocks p q 0 (m + 1)⟩ := by simp [len, hlen, blockSize]
  have hne : ¬ (ctrBlocks p q 0 (m + 1)).isEmpty = true := by simp [ctrBlocks_succ]
  rw [apply, if_neg hlen', if_neg hne]
  simp only [bind, EStateM.bind, hblocks, List.range'_succ, List.map_cons, length_ctrBlocks,
    pure, EStateM.pure, blockSize]
  rw [Nat.mul_zero, Nat.add_zero, Nat.mul_comm]

/-- Only as much input as there is keystream can be enciphered. -/
theorem apply_ok_len {ks : Keystream} {input output : Slice} {vm vm' : Vm}
    (h : apply ks input vm = .ok output vm') : input.len = ks.len ∧ ks.blocks ≠ [] := by
  by_cases hlen : input.len = ks.len
  · refine ⟨hlen, ?_⟩
    intro hnil
    rw [apply, if_neg (not_not_intro hlen), hnil] at h
    cases h
  · rw [apply, if_pos hlen] at h
    cases h

end Keystream

/-! ## Allocating keystream -/

namespace Aes128

def inputPair (p i : Nat) : Slice × Slice := (⟨p + 12 * i, 8⟩, ⟨p + 12 * i + 8, 4⟩)

def markOps (p i : Nat) : List VmOp :=
  [.mark .isPublic ⟨p + 12 * i, 8⟩, .mark .isPublic ⟨p + 12 * i + 8, 4⟩]

def ctrOp (key iv : Slice) (p q i : Nat) : VmOp :=
  .call .aes128Ctr [key, iv, ⟨p + 12 * i, 8⟩, ⟨p + 12 * i + 8, 4⟩] ⟨q + 16 * i, 16⟩

theorem allocInputs_eq (p start n : Nat) (vm : Vm) (hnext : vm.next = p + 12 * start) :
    allocInputs n vm = .ok ((List.range' start n).map (inputPair p))
      ⟨p + 12 * (start + n), vm.log ++ (List.range' start n).flatMap (markOps p)⟩ := by
  induction n generalizing start vm with
  | zero =>
      rw [show vm = ⟨p + 12 * start, vm.log⟩ by rw [← hnext]]
      simp [allocInputs, pure, EStateM.pure]
  | succ n ih =>
      simp only [allocInputs, bind, EStateM.bind, Vm.alloc, Vm.mark, Vm.push, pure, EStateM.pure]
      rw [ih (start + 1) _ (by simp only [hnext]; omega)]
      simp only [List.range'_succ, List.map_cons, List.flatMap_cons, hnext, inputPair, markOps,
        List.append_assoc, List.cons_append, List.nil_append, Nat.add_assoc, Nat.add_comm 1 n]

theorem callBlocks_eq (key iv : Slice) (p q start n : Nat) (vm : Vm)
    (hnext : vm.next = q + 16 * start) :
    callBlocks key iv ((List.range' start n).map (inputPair p)) vm =
      .ok (ctrBlocks p q start n)
        ⟨q + 16 * (start + n), vm.log ++ (List.range' start n).map (ctrOp key iv p q)⟩ := by
  induction n generalizing start vm with
  | zero =>
      rw [show vm = ⟨q + 16 * start, vm.log⟩ by rw [← hnext]]
      simp [callBlocks, ctrBlocks, pure, EStateM.pure]
  | succ n ih =>
      rw [ctrBlocks_succ, List.range'_succ, List.map_cons]
      simp only [callBlocks, inputPair, bind, EStateM.bind, Vm.call, pure, EStateM.pure]
      rw [ih (start + 1) _ (by simp only [hnext, blockSize]; omega)]
      simp only [List.map_cons, hnext, blockSize, ctrOp, ctrBlock, List.append_assoc,
        List.cons_append, List.nil_append, Nat.add_assoc, Nat.add_comm 1 n]

theorem allocKeystream_keyed {aes : Aes128} {len : Nat} {ks : Keystream} {vm vm' : Vm}
    (h : aes.allocKeystream len vm = .ok ks vm') :
    ∃ key iv, aes.key = some key ∧ aes.iv = some iv := by
  simp only [allocKeystream, Fault.run_bind_ok_iff, Fault.lift_ok_iff] at h
  obtain ⟨key, _, ⟨hkey, -⟩, iv, _, ⟨hiv, -⟩, -⟩ := h
  refine ⟨key, iv, ?_, ?_⟩
  · cases hk : aes.key with
    | none => rw [getKey, hk] at hkey; cases hkey
    | some k => rw [getKey, hk] at hkey; cases hkey; rfl
  · cases hv : aes.iv with
    | none => rw [getIv, hv] at hiv; cases hiv
    | some v => rw [getIv, hv] at hiv; cases hiv; rfl

theorem allocKeystream_eq {aes : Aes128} {key iv : Slice} (hkey : aes.key = some key)
    (hiv : aes.iv = some iv) (len : Nat) (vm : Vm) :
    aes.allocKeystream len vm =
      .ok ⟨ctrBlocks vm.next (vm.next + 12 * divCeil len blockSize) 0 (divCeil len blockSize)⟩
        ⟨vm.next + 28 * divCeil len blockSize,
          vm.log ++ (List.range' 0 (divCeil len blockSize)).flatMap (markOps vm.next) ++
            (List.range' 0 (divCeil len blockSize)).map
              (ctrOp key iv vm.next (vm.next + 12 * divCeil len blockSize))⟩ := by
  have hinputs := allocInputs_eq vm.next 0 (divCeil len blockSize) vm (by simp)
  rw [Nat.zero_add] at hinputs
  simp only [allocKeystream, getKey, hkey, getIv, hiv, bind, EStateM.bind, Fault.lift, hinputs]
  rw [callBlocks_eq key iv vm.next (vm.next + 12 * divCeil len blockSize) 0 _ _ (by simp)]
  simp only [Keystream.new_ctrBlocks, Nat.zero_add]
  congr 2
  omega

end Aes128

/-! ## The keystream -/

/-- Keystream of AES in counter mode, `n` blocks from the counter `start` on. -/
def ctrKeystream (aes : Aes) (key iv explicitNonce : List UInt8) (start n : Nat) : List UInt8 :=
  (List.range' start n).flatMap fun ctr =>
    (aes key (iv ++ explicitNonce ++ beBytes 4 ctr)).toList

@[simp] theorem length_ctrKeystream (aes : Aes) (key iv nonce : List UInt8) (start n : Nat) :
    (ctrKeystream aes key iv nonce start n).length = 16 * n := by
  rw [ctrKeystream, List.length_flatMap]
  simp [Nat.mul_comm]

/-- Blocks which are assigned the nonce and counters in order hold the keystream. -/
theorem keystreamBytes_assigned {aes : Aes} {mem : Memory} {key iv : Slice} {nonce : List UInt8}
    {p q : Nat} (start n base i : Nat)
    (hcalled : ∀ j, start ≤ j → j < start + n → (Aes128.ctrOp key iv p q j).Holds aes mem)
    (hassigned : ∀ op ∈ Keystream.assignOps nonce (fun j => beBytes 4 (base + j))
      (ctrBlocks p q start n) i, op.Holds aes mem) :
    keystreamBytes mem (ctrBlocks p q start n) =
      ctrKeystream aes (mem.read key) (mem.read iv) nonce (base + i) n := by
  induction n generalizing start i with
  | zero => rfl
  | succ n ih =>
      rw [ctrBlocks_succ] at hassigned ⊢
      have hnonce := hassigned (.assign (ctrBlock p q start).explicitNonce nonce) (by
        simp [Keystream.assignOps])
      have hctr := hassigned (.assign (ctrBlock p q start).counter (beBytes 4 (base + i))) (by
        simp [Keystream.assignOps])
      have hcall := hcalled start (Nat.le_refl _) (by omega)
      have hrest := ih (start + 1) (i + 1) (fun j hj hlt => hcalled j (by omega) (by omega))
        (fun op hop => hassigned op (List.mem_append_right _ hop))
      simp only [VmOp.Holds, ctrBlock] at hnonce hctr
      simp only [Aes128.ctrOp, VmOp.Holds, List.map_cons, List.map_nil, hnonce, hctr,
        Circuit.eval] at hcall
      rw [keystreamBytes, List.flatMap_cons, ← keystreamBytes, hrest, ctrBlock, hcall, ctrKeystream,
        ctrKeystream, List.range'_succ, List.flatMap_cons, Nat.add_assoc]

/-! ## Allocation only adds to the log -/

open Vm

theorem Keystream.logs_applyBlocks (input : Slice) (blocks : List CtrBlock) (pos : Nat) :
    Logs (Keystream.applyBlocks input blocks pos) := by
  induction blocks generalizing pos with
  | nil => exact Logs.pure []
  | cons block blocks ih =>
      unfold Keystream.applyBlocks
      cases input.get? pos (pos + blockSize) with
      | none => exact Fault.Keeps.throw _
      | some arg =>
          exact Logs.bind (logs_call _ _ _) fun output =>
            Logs.bind (ih (pos + blockSize)) fun outputs => Logs.pure _

theorem Keystream.logs_apply (ks : Keystream) (input : Slice) : Logs (ks.apply input) := by
  unfold Keystream.apply
  split
  · exact Fault.Keeps.throw _
  · split
    · exact Fault.Keeps.throw _
    · refine Logs.bind (Keystream.logs_applyBlocks input ks.blocks 0) fun outputs => ?_
      cases outputs with
      | nil => exact Fault.Keeps.throw _
      | cons output outputs => exact Logs.pure _

namespace Aes128

theorem logs_allocBlock (aes : Aes128) (input : Slice) : Logs (aes.allocBlock input) :=
  Logs.bind (Logs.lift _) fun _ => logs_call _ _ _

theorem logs_allocCtrBlock (aes : Aes128) : Logs aes.allocCtrBlock := by
  refine Logs.bind (Logs.lift _) fun key => Logs.bind (Logs.lift _) fun iv => ?_
  refine Logs.bind (logs_alloc 8) fun nonce => Logs.bind (logs_mark _ _) fun _ => ?_
  refine Logs.bind (logs_alloc 4) fun counter => Logs.bind (logs_mark _ _) fun _ => ?_
  exact Logs.bind (logs_call _ _ _) fun output => Logs.pure _

theorem logs_allocInputs (n : Nat) : Logs (allocInputs n) := by
  induction n with
  | zero => exact Logs.pure []
  | succ n ih =>
      refine Logs.bind (logs_alloc 8) fun nonce => Logs.bind (logs_alloc 4) fun counter => ?_
      refine Logs.bind (logs_mark _ _) fun _ => Logs.bind (logs_mark _ _) fun _ => ?_
      exact Logs.bind ih fun inputs => Logs.pure _

theorem logs_callBlocks (key iv : Slice) (inputs : List (Slice × Slice)) :
    Logs (callBlocks key iv inputs) := by
  induction inputs with
  | nil => exact Logs.pure []
  | cons input inputs ih =>
      exact Logs.bind (logs_call _ _ _) fun output => Logs.bind ih fun blocks => Logs.pure _

theorem logs_allocKeystream (aes : Aes128) (len : Nat) : Logs (aes.allocKeystream len) := by
  refine Logs.bind (Logs.lift _) fun key => Logs.bind (Logs.lift _) fun iv => ?_
  refine Logs.bind (logs_allocInputs _) fun inputs => ?_
  exact Logs.bind (logs_callBlocks key iv inputs) fun blocks => Logs.lift _

end Aes128

end Tlsn.Cipher

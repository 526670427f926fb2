import Tlsn.MpcTls.KeystreamLayout

/-!
Runs of calls for keystream against one allocation. Every call, whether it
succeeds or fails, leaves the layout in place: it takes the last blocks that
remain, or nothing. So no two records get the same block, and what remains stays
aligned.
-/

namespace Tlsn.MpcTls

open Tlsn.Cipher

theorem mul_divCeil_wrap (len : Nat) :
    16 * divCeil (wrap (16 * divCeil len 16)) blockSize = wrap (16 * divCeil len 16) := by
  have hdvd : wrap (16 * divCeil len 16) % 16 = 0 := by
    rw [wrap, Nat.mod_mod_of_dvd _ (by decide), Nat.mul_mod_right]
  rw [blockSize, divCeil, if_pos hdvd, Nat.add_zero]
  omega

/-- The circuits which `n` blocks of the layout are the outputs of are called. -/
structure Layout.Called (L : Layout) (key iv : Slice) (n : Nat) (vm : Vm) : Prop where
  ctr : ∀ i, i < n → Aes128.ctrOp key iv L.nonces L.keystream i ∈ vm.log
  xor : ∀ i, i < n → Keystream.xorOp L.keystream L.input L.output i ∈ vm.log

/-- Byte by byte, the output is the input enciphered with the keystream. -/
def Layout.Enciphers (L : Layout) (n : Nat) (mem : Memory) : Prop :=
  ∀ i, i < 16 * n → mem (L.output + i) = mem (L.input + i) ^^^ mem (L.keystream + i)

namespace Layout

variable {L : Layout} {key iv : Slice} {m n : Nat}

theorem Called.of_append {vm vm' : Vm} {ops : List VmOp} (h : L.Called key iv n vm)
    (hlog : vm'.log = vm.log ++ ops) : L.Called key iv n vm' := by
  constructor
  · intro i hi
    rw [hlog]
    exact List.mem_append_left _ (h.ctr i hi)
  · intro i hi
    rw [hlog]
    exact List.mem_append_left _ (h.xor i hi)

theorem Called.push {vm : Vm} (h : L.Called key iv n vm) (ops : List VmOp) :
    L.Called key iv n (vm.push ops) := h.of_append rfl

theorem Called.mono {vm : Vm} (h : L.Called key iv n vm) (hle : m ≤ n) : L.Called key iv m vm :=
  ⟨fun i hi => h.ctr i (by omega), fun i hi => h.xor i (by omega)⟩

theorem Called.enciphers {vm : Vm} {aes : Aes} {mem : Memory} (h : L.Called key iv n vm)
    (hmem : vm.Holds aes mem) : L.Enciphers n mem := by
  intro i hi
  have hop := hmem _ (h.xor (i / 16) (by omega))
  simp only [Keystream.xorOp, VmOp.Holds, Circuit.eval, List.map_cons, List.map_nil] at hop
  rw [xorBytes_comm] at hop
  have hbyte := Memory.apply_of_read_eq_xorBytes hop (Nat.mod_lt i (by decide))
  rwa [Nat.add_assoc, Nat.add_assoc, Nat.add_assoc, Nat.div_add_mod] at hbyte

theorem Enciphers.mono {mem : Memory} (h : L.Enciphers n mem) (hle : m ≤ n) :
    L.Enciphers m mem := fun i hi => h i (by omega)

/-- The text of a record which takes the blocks from `m` on. -/
theorem Enciphers.read {mem : Memory} {k len : Nat} (h : L.Enciphers n mem) (hk : m + k ≤ n)
    (hlen : len ≤ 16 * k) :
    mem.read ⟨L.output + 16 * m, len⟩ =
      xorBytes (mem.read ⟨L.input + 16 * m, len⟩) (keystreamBytes mem (L.blocks m k)) := by
  rw [blocks, keystreamBytes_ctrBlocks]
  apply Memory.read_eq_xorBytes hlen
  intro i hi
  have hbyte := h (16 * m + i) (by omega)
  rwa [← Nat.add_assoc, ← Nat.add_assoc, ← Nat.add_assoc] at hbyte

end Layout

namespace MpcAesGcm

/-- Each record gets a block which can take a nonce and a counter. -/
theorem allocJ0s_ok {role : Role} {aes : Aes128} {otps : Nat → Vector UInt8 16} {records : Nat}
    {vm vm' : Vm} {j0s : List (CtrBlock × OneTimePadShared)}
    (h : allocJ0s role aes otps records vm = .ok j0s vm') :
    j0s.length = records ∧ ∀ j0 ∈ j0s, j0.1.explicitNonce.len = 8 ∧ j0.1.counter.len = 4 := by
  induction records generalizing otps vm j0s with
  | zero =>
      cases h
      exact ⟨rfl, fun j0 hj0 => nomatch hj0⟩
  | succ records ih =>
      simp only [allocJ0s, Fault.run_bind_ok_iff, Fault.adapt_ok_iff] at h
      obtain ⟨block, vm₁, hblock, shared, vm₂, -, rest, vm₃, hrest, hret⟩ := h
      cases hret
      simp only [Aes128.allocCtrBlock, Fault.run_bind_ok_iff] at hblock
      obtain ⟨key, vm₄, -, iv, vm₅, -, nonce, vm₆, hnonce, -, vm₇, -, counter, vm₈, hcounter, -,
        vm₉, -, output, vm₁₀, -, hret⟩ := hblock
      cases hnonce
      cases hcounter
      cases hret
      obtain ⟨hlen, hsized⟩ := ih hrest
      refine ⟨by rw [List.length_cons, hlen], ?_⟩
      intro j0 hj0
      cases hj0 with
      | head => exact ⟨rfl, rfl⟩
      | tail _ hj0 => exact hsized j0 hj0

/-- The blocks of keystream that are allocated for `len` bytes. -/
def allocatedBlocks (len : Nat) : Nat := divCeil (wrap (16 * divCeil len 16)) blockSize

/-- Either the padded length wraps, and nothing is allocated, or there are blocks for
all of it. -/
theorem allocatedBlocks_eq {len : Nat} (hlen : len < wordSize) (h : allocatedBlocks len ≠ 0) :
    allocatedBlocks len = divCeil len 16 := by
  by_cases hlt : 16 * divCeil len 16 < wordSize
  · rw [allocatedBlocks, wrap_of_lt hlt, Nat.mul_comm, blockSize,
      divCeil_mul_self _ 16 (by decide)]
  · have hwrap := (Resources.wrap_padded hlen hlt).1
    rw [Nat.mul_comm] at hwrap
    rw [allocatedBlocks, hwrap] at h
    exact absurd (by decide) h

theorem allocResources_layout {role : Role} {aes : Aes128} {otps : Nat → Vector UInt8 16}
    {records len : Nat} {vm vm' : Vm} {r : Resources} {ghashKey : OneTimePadShared}
    (h : allocResources role aes otps records len vm = .ok (r, ghashKey) vm') :
    ∃ L j0s key iv, aes.key = some key ∧ aes.iv = some iv ∧
      r = Layout.resources L j0s (allocatedBlocks len) ∧ 16 * allocatedBlocks len < wordSize ∧
      allocatedBlocks len ≠ 0 ∧ L.Called key iv (allocatedBlocks len) vm' ∧ j0s.length = records ∧
      ∀ j0 ∈ j0s, j0.1.explicitNonce.len = 8 ∧ j0.1.counter.len = 4 := by
  simp only [allocResources, Fault.run_bind_ok_iff, Fault.adapt_ok_iff] at h
  obtain ⟨zero, vm₁, -, -, vm₂, -, -, vm₃, -, -, vm₄, -, ecb, vm₅, -, gk, vm₆, -, j0s, vm₇,
    hj0s, input, vm₈, hinput, -, vm₉, hmark, ks, vm₁₀, hks, output, vm₁₁, hout, hr⟩ := h
  obtain ⟨key, iv, hkey, hiv⟩ := Aes128.allocKeystream_keyed hks
  rw [Aes128.allocKeystream_eq hkey hiv] at hks
  cases hinput
  cases hks
  have hsize := mul_divCeil_wrap len
  unfold allocatedBlocks
  generalize divCeil (wrap (16 * divCeil len 16)) blockSize = n at *
  have hword : wrap (16 * divCeil len 16) < wordSize := Nat.mod_lt _ (by decide)
  rw [← hsize] at hout hr hword
  have hne : n ≠ 0 := by
    intro hzero
    subst hzero
    exact (Keystream.apply_ok_len hout).2 rfl
  rw [Keystream.apply_ctrBlocks hne rfl] at hout
  cases hout
  cases hr
  refine ⟨⟨vm₉.next, vm₉.next + 12 * n, vm₇.next, vm₉.next + 28 * n⟩, j0s, key, iv, hkey, hiv,
    rfl, hword, hne, ⟨?_, ?_⟩, allocJ0s_ok hj0s⟩
  · intro i hi
    apply List.mem_append_left
    apply List.mem_append_right
    exact List.mem_map_of_mem (List.mem_range'_1.mpr (by omega))
  · intro i hi
    apply List.mem_append_right
    exact List.mem_map_of_mem (List.mem_range'_1.mpr (by omega))

theorem whenReady_ok {α : Type} {text : String} {s : Vm × MpcAesGcm} {r r' : Resources}
    {ghash : Ghash} {vm : Vm} {a : α}
    {x : Role → Ghash → EStateM (Fault AeadError) (Vm × Resources) α}
    (hstate : s.2.state = .ready r ghash) (h : x s.2.role ghash (s.1, r) = .ok a (vm, r')) :
    whenReady text x s = .ok a (vm, { s.2 with state := .ready r' ghash }) := by
  simp only [whenReady, hstate, h]

theorem whenReady_error {α : Type} {text : String} {s : Vm × MpcAesGcm} {r r' : Resources}
    {ghash : Ghash} {vm : Vm} {e : Fault AeadError}
    {x : Role → Ghash → EStateM (Fault AeadError) (Vm × Resources) α}
    (hstate : s.2.state = .ready r ghash) (h : x s.2.role ghash (s.1, r) = .error e (vm, r')) :
    whenReady text x s = .error e (vm, { s.2 with state := .ready r' ghash }) := by
  simp only [whenReady, hstate, h]

section

variable {L : Layout} {j0s : List (CtrBlock × OneTimePadShared)} {ghash : Ghash} {n len : Nat}
  {nonce : List UInt8} {s : Vm × MpcAesGcm}

theorem applyKeystream_ready (hstate : s.2.state = .ready (L.resources j0s n) ghash)
    (hword : 16 * n < wordSize) (hnonce : nonce.length = 8) (hlen : divCeil len 16 ≤ n) :
    applyKeystream nonce len s =
      .ok (⟨L.input + 16 * (n - divCeil len 16), len⟩, ⟨L.output + 16 * (n - divCeil len 16), len⟩)
        (s.1.push (Resources.applyOps s.2.role L n nonce len),
          { s.2 with state := .ready (L.resources j0s (n - divCeil len 16)) ghash }) :=
  whenReady_ok hstate (Resources.applyKeystream_layout s.2.role hnonce hword hlen)

theorem takeKeystream_ready (hstate : s.2.state = .ready (L.resources j0s n) ghash)
    (hword : 16 * n < wordSize) (hnonce : nonce.length = 8) (hpos : len ≠ 0)
    (hlen : divCeil len 16 ≤ n) :
    takeKeystream nonce len s =
      .ok ⟨L.keystream + 16 * (n - divCeil len 16), len⟩
        (s.1.push (Keystream.assignOps nonce counterBytes
            (L.blocks (n - divCeil len 16) (divCeil len 16)) 0),
          { s.2 with state := .ready (L.resources j0s (n - divCeil len 16)) ghash }) :=
  whenReady_ok hstate (Resources.takeKeystream_layout hnonce hpos hword hlen)

private theorem set_state (gcm : MpcAesGcm) {state : GcmState} (h : gcm.state = state) :
    { gcm with state := state } = gcm := by
  rw [← h]

/-- A call for more than is allocated changes nothing, nor one with a nonce of the
wrong length. -/
theorem applyKeystream_refused (hstate : s.2.state = .ready (L.resources j0s n) ghash)
    (hword : 16 * n < wordSize) (hlen : len < wordSize)
    (h : ¬ (nonce.length = 8 ∧ divCeil len 16 ≤ n)) :
    ∃ e, applyKeystream nonce len s = .error e s := by
  have hrefused : ∃ e, Resources.applyKeystream s.2.role nonce len (s.1, L.resources j0s n) =
      .error e (s.1, L.resources j0s n) := by
    by_cases hnonce : nonce.length = 8
    · exact Resources.applyKeystream_exhausted s.2.role hword hlen (by omega)
    · exact ⟨_, Resources.applyKeystream_nonce s.2.role hnonce _⟩
  obtain ⟨e, he⟩ := hrefused
  refine ⟨e, ?_⟩
  rw [applyKeystream, whenReady_error hstate he, set_state s.2 hstate]

theorem takeKeystream_refused (hstate : s.2.state = .ready (L.resources j0s n) ghash)
    (hword : 16 * n < wordSize) (hlen : len < wordSize)
    (h : ¬ (nonce.length = 8 ∧ len ≠ 0 ∧ divCeil len 16 ≤ n)) :
    ∃ e, takeKeystream nonce len s = .error e s := by
  have hrefused : ∃ e, Resources.takeKeystream nonce len (s.1, L.resources j0s n) =
      .error e (s.1, L.resources j0s n) := by
    by_cases hnonce : nonce.length = 8
    · by_cases hpos : len = 0
      · subst hpos
        exact ⟨_, Resources.takeKeystream_empty hword hnonce⟩
      · exact Resources.takeKeystream_exhausted hword hlen (by omega)
    · exact ⟨_, Resources.takeKeystream_nonce hnonce _⟩
  obtain ⟨e, he⟩ := hrefused
  refine ⟨e, ?_⟩
  rw [takeKeystream, whenReady_error hstate he, set_state s.2 hstate]

end

/-- The blocks that remain. -/
def blocks (gcm : MpcAesGcm) : List CtrBlock :=
  match gcm.state with
  | .ready resources _ => resources.keystream.blocks
  | _ => []

/-- A ready instance whose resources have the layout. -/
structure Laid (L : Layout) (n : Nat) (gcm : MpcAesGcm) : Prop where
  lt_word : 16 * n < wordSize
  state : ∃ j0s ghash, gcm.state = .ready (L.resources j0s n) ghash

namespace Laid

variable {L : Layout} {n : Nat} {gcm : MpcAesGcm}

theorem blocks_eq (h : Laid L n gcm) : gcm.blocks = L.blocks 0 n := by
  obtain ⟨j0s, ghash, hstate⟩ := h.state
  rw [blocks, hstate]
  rfl

end Laid

/-- Allocation and setup put the resources in place. -/
theorem laid_of_setup {otps : Nat → Vector UInt8 16} {records len : Nat} {mem : Memory}
    {prepare : List UInt8 → Except (Fault GhashError) Ghash} {s s' : Vm × MpcAesGcm}
    {gcm : MpcAesGcm} (halloc : alloc otps records len s = .ok () s')
    (hsetup : setup mem prepare s'.2 = .ok () gcm) :
    ∃ L n key iv, s.2.aes.key = some key ∧ s.2.aes.iv = some iv ∧ Laid L n gcm ∧
      L.Called key iv n s'.1 ∧ gcm.role = s.2.role := by
  simp only [alloc] at halloc
  cases hstate : s.2.state with
  | init =>
      rw [hstate] at halloc
      cases hr : allocResources s.2.role s.2.aes otps records len s.1 with
      | error e vm =>
          rw [hr] at halloc
          cases halloc
      | ok r vm =>
          obtain ⟨L, j0s, key, iv, hkey, hiv, hres, hword, -, hcalled, -⟩ :=
            allocResources_layout hr
          rw [hr] at halloc
          cases halloc
          simp only [setup] at hsetup
          cases hprepare : prepare (r.2.share mem).toList with
          | error e =>
              rw [hprepare] at hsetup
              cases hsetup
          | ok ghash =>
              rw [hprepare] at hsetup
              cases hsetup
              exact ⟨L, _, key, iv, hkey, hiv,
                ⟨hword, j0s, ghash, congrArg (GcmState.ready · ghash) hres⟩, hcalled, rfl⟩
  | setup r k =>
      rw [hstate] at halloc
      cases halloc
  | ready r g =>
      rw [hstate] at halloc
      cases halloc
  | error =>
      rw [hstate] at halloc
      cases halloc

end MpcAesGcm

/-! ## Calls -/

inductive KeystreamCall where
  | apply (explicitNonce : List UInt8) (len : Fin wordSize)
  | take (explicitNonce : List UInt8) (len : Fin wordSize)

inductive KeystreamText where
  | texts (input output : Slice)
  | keystream (keystream : Slice)

namespace KeystreamCall

def nonce : KeystreamCall → List UInt8
  | .apply nonce _ => nonce
  | .take nonce _ => nonce

/-- The length of the record. -/
def len : KeystreamCall → Nat
  | .apply _ len => len
  | .take _ len => len

def run : KeystreamCall → EStateM (Fault AeadError) (Vm × MpcAesGcm) KeystreamText
  | .apply nonce len => do
      let (input, output) ← MpcAesGcm.applyKeystream nonce len
      return .texts input output
  | .take nonce len => do
      let keystream ← MpcAesGcm.takeKeystream nonce len
      return .keystream keystream

end KeystreamCall

/-- A call, the blocks which it took off the keystream, and what it returned if
it did. -/
structure Served where
  call : KeystreamCall
  blocks : List CtrBlock
  text : Option KeystreamText

namespace Served

/-- Makes one call. -/
def make (call : KeystreamCall) (s : Vm × MpcAesGcm) : Served × (Vm × MpcAesGcm) :=
  match call.run s with
  | .ok text s' => (⟨call, s.2.blocks.drop s'.2.blocks.length, some text⟩, s')
  | .error _ s' => (⟨call, s.2.blocks.drop s'.2.blocks.length, none⟩, s')

/-- Makes the calls in turn, also after one failed. -/
def serve : List KeystreamCall → Vm × MpcAesGcm → List Served × (Vm × MpcAesGcm)
  | [], s => ([], s)
  | call :: calls, s =>
      let (served, s') := make call s
      let (rest, s'') := serve calls s'
      (served :: rest, s'')

/-- What a call does with the machine: the blocks get the record's nonce and the
counters in order, and the padding of the input is filled. -/
def ops (role : Role) (served : Served) : List VmOp :=
  match served.text with
  | none => []
  | some (.texts input _) =>
      Keystream.assignOps served.call.nonce counterBytes served.blocks 0 ++
        Layout.padOps role input.ptr served.call.len
  | some (.keystream _) =>
      Keystream.assignOps served.call.nonce counterBytes served.blocks 0

/-- What a record gets: as many blocks as its length takes, and the text or the
keystream of these blocks. -/
def Sized (served : Served) : Prop :=
  match served.text with
  | none => served.blocks = []
  | some (.texts input output) =>
      served.blocks.length = divCeil served.call.len 16 ∧ input.len = served.call.len ∧
        output.len = served.call.len
  | some (.keystream keystream) =>
      served.blocks.length = divCeil served.call.len 16 ∧ keystream.len = served.call.len

def Enciphered (mem : Memory) (served : Served) : Prop :=
  match served.text with
  | none => True
  | some (.texts input output) =>
      mem.read output = xorBytes (mem.read input) (keystreamBytes mem served.blocks)
  | some (.keystream keystream) =>
      mem.read keystream = (keystreamBytes mem served.blocks).take served.call.len

/-! One call on the layout. -/

/-- Everything a call can do: nothing, or take the blocks from `m` on. -/
structure Step (L : Layout) (n m : Nat) (s s' : Vm × MpcAesGcm) (served : Served) : Prop where
  le : m ≤ n
  laid : s'.2.Laid L m
  role : s'.2.role = s.2.role
  blocks : served.blocks = L.blocks m (n - m)
  log : s'.1 = s.1.push (served.ops s.2.role)
  sized : served.Sized
  enciphered : ∀ mem, L.Enciphers n mem → served.Enciphered mem

theorem make_of_ok {call : KeystreamCall} {text : KeystreamText} {s s' : Vm × MpcAesGcm}
    (h : call.run s = .ok text s') :
    make call s = (⟨call, s.2.blocks.drop s'.2.blocks.length, some text⟩, s') := by
  simp only [make, h]

theorem make_of_error {call : KeystreamCall} {e : Fault AeadError} {s s' : Vm × MpcAesGcm}
    (h : call.run s = .error e s') :
    make call s = (⟨call, s.2.blocks.drop s'.2.blocks.length, none⟩, s') := by
  simp only [make, h]

section

variable {L : Layout} {n m : Nat} {s s' : Vm × MpcAesGcm} {call : KeystreamCall}

theorem drop_blocks (h : s.2.Laid L n) (h' : s'.2.Laid L m) (hle : m ≤ n) :
    s.2.blocks.drop s'.2.blocks.length = L.blocks m (n - m) := by
  rw [h.blocks_eq, h'.blocks_eq]
  obtain ⟨k, rfl⟩ := Nat.exists_eq_add_of_le hle
  simp only [Layout.blocks, length_ctrBlocks, Nat.add_sub_cancel_left]
  rw [ctrBlocks_append, List.drop_left' (length_ctrBlocks ..), Nat.zero_add]

theorem step_of_error {e : Fault AeadError} (h : s.2.Laid L n) (herror : call.run s = .error e s) :
    Step L n n s (make call s).2 (make call s).1 := by
  rw [make_of_error herror]
  have hnone : s.2.blocks.drop s.2.blocks.length = [] := List.drop_length
  exact {
    le := Nat.le_refl n
    laid := h
    role := rfl
    blocks := drop_blocks h h (Nat.le_refl n)
    log := (Vm.push_nil s.1).symm
    sized := hnone
    enciphered := fun _ _ => trivial }

theorem apply_step {nonce : List UInt8} {len : Fin wordSize} (h : s.2.Laid L n) :
    ∃ m, Step L n m s (make (.apply nonce len) s).2 (make (.apply nonce len) s).1 := by
  obtain ⟨j0s, ghash, hstate⟩ := h.state
  by_cases hok : nonce.length = 8 ∧ divCeil len 16 ≤ n
  · have hle := (divCeil_mul len 16 (by decide)).1
    have hk : n - (n - divCeil len 16) = divCeil len 16 := Nat.sub_sub_self hok.2
    have hsum : n - divCeil len 16 + divCeil len 16 ≤ n := by omega
    have hrun : (KeystreamCall.apply nonce len).run s = _ :=
      Fault.run_bind_of_ok (MpcAesGcm.applyKeystream_ready hstate h.lt_word hok.1 hok.2)
    have hlaid : MpcAesGcm.Laid L (n - divCeil len 16)
        { s.2 with state := .ready (L.resources j0s (n - divCeil len 16)) ghash } :=
      ⟨by have := h.lt_word; omega, j0s, ghash, rfl⟩
    have hblocks := @drop_blocks L n _ s (s.1, _) h hlaid (Nat.sub_le ..)
    rw [hk] at hblocks
    refine ⟨n - divCeil len 16, ?_⟩
    rw [make_of_ok hrun]
    exact {
      le := Nat.sub_le ..
      laid := hlaid
      role := rfl
      blocks := by rw [hk]; exact hblocks
      log := by
        simp only [ops, KeystreamCall.nonce, KeystreamCall.len]
        rw [hblocks]
        rfl
      sized := ⟨by rw [hblocks]; exact length_ctrBlocks .., rfl, rfl⟩
      enciphered := by
        intro mem hmem
        simp only [Enciphered]
        rw [hblocks]
        exact hmem.read hsum (by omega) }
  · obtain ⟨e, he⟩ := MpcAesGcm.applyKeystream_refused hstate h.lt_word len.isLt hok
    have hrun : (KeystreamCall.apply nonce len).run s = .error e s := Fault.run_bind_of_error he
    exact ⟨n, step_of_error h hrun⟩

theorem take_step {nonce : List UInt8} {len : Fin wordSize} (h : s.2.Laid L n) :
    ∃ m, Step L n m s (make (.take nonce len) s).2 (make (.take nonce len) s).1 := by
  obtain ⟨j0s, ghash, hstate⟩ := h.state
  by_cases hok : nonce.length = 8 ∧ (len : Nat) ≠ 0 ∧ divCeil len 16 ≤ n
  · have hle := (divCeil_mul len 16 (by decide)).1
    have hk : n - (n - divCeil len 16) = divCeil len 16 := Nat.sub_sub_self hok.2.2
    have hrun : (KeystreamCall.take nonce len).run s = _ := Fault.run_bind_of_ok
      (MpcAesGcm.takeKeystream_ready hstate h.lt_word hok.1 hok.2.1 hok.2.2)
    have hlaid : MpcAesGcm.Laid L (n - divCeil len 16)
        { s.2 with state := .ready (L.resources j0s (n - divCeil len 16)) ghash } :=
      ⟨by have := h.lt_word; omega, j0s, ghash, rfl⟩
    have hblocks := @drop_blocks L n _ s (s.1, _) h hlaid (Nat.sub_le ..)
    rw [hk] at hblocks
    refine ⟨n - divCeil len 16, ?_⟩
    rw [make_of_ok hrun]
    exact {
      le := Nat.sub_le ..
      laid := hlaid
      role := rfl
      blocks := by rw [hk]; exact hblocks
      log := by
        simp only [ops, KeystreamCall.nonce]
        rw [hblocks]
      sized := ⟨by rw [hblocks]; exact length_ctrBlocks .., rfl⟩
      enciphered := by
        intro mem _
        simp only [Enciphered, KeystreamCall.len]
        rw [hblocks, Layout.blocks, keystreamBytes_ctrBlocks, Memory.take_read _ _ (by omega)] }
  · obtain ⟨e, he⟩ := MpcAesGcm.takeKeystream_refused hstate h.lt_word len.isLt hok
    have hrun : (KeystreamCall.take nonce len).run s = .error e s := Fault.run_bind_of_error he
    exact ⟨n, step_of_error h hrun⟩

theorem make_step (call : KeystreamCall) (h : s.2.Laid L n) :
    ∃ m, Step L n m s (make call s).2 (make call s).1 := by
  cases call with
  | apply nonce len => exact apply_step h
  | take nonce len => exact take_step h

end

/-! Runs of calls. -/

/-- What holds of a run which starts when `n` blocks remain and ends when `m` do. -/
structure Run (L : Layout) (n m : Nat) (s s' : Vm × MpcAesGcm) (served : List Served) : Prop where
  le : m ≤ n
  laid : s'.2.Laid L m
  role : s'.2.role = s.2.role
  blocks : ∀ b ∈ served.flatMap Served.blocks, b ∈ L.blocks m (n - m)
  disjoint : (served.flatMap Served.blocks).Pairwise CtrBlock.Disjoint
  log : s'.1 = s.1.push (served.flatMap (Served.ops s.2.role))
  sized : ∀ r ∈ served, r.Sized
  enciphered : ∀ mem, L.Enciphers n mem → ∀ r ∈ served, r.Enciphered mem

theorem blocks_pairwise (L : Layout) (start n : Nat) :
    (L.blocks start n).Pairwise CtrBlock.Disjoint := by
  rw [Layout.blocks, ctrBlocks, List.pairwise_map]
  apply (List.pairwise_lt_range' (s := start) (n := n)).imp
  intro i j hlt
  exact ctrBlock_disjoint _ _ (Nat.ne_of_lt hlt)

theorem blocks_disjoint {L : Layout} {i j m n : Nat} {b c : CtrBlock} (hb : b ∈ L.blocks i m)
    (hc : c ∈ L.blocks j n) (h : j + n ≤ i) : b.Disjoint c := by
  obtain ⟨k, hk, -, rfl⟩ := mem_ctrBlocks hb
  obtain ⟨l, -, hl, rfl⟩ := mem_ctrBlocks hc
  exact ctrBlock_disjoint _ _ (by omega)

theorem serve_run {L : Layout} (calls : List KeystreamCall) {n : Nat} {s : Vm × MpcAesGcm}
    (h : s.2.Laid L n) : ∃ m, Run L n m s (serve calls s).2 (serve calls s).1 := by
  induction calls generalizing n s with
  | nil =>
      refine ⟨n, ?_⟩
      exact {
        le := Nat.le_refl n
        laid := h
        role := rfl
        blocks := by simp [serve]
        disjoint := by simp [serve]
        log := (Vm.push_nil s.1).symm
        sized := by simp [serve]
        enciphered := by simp [serve] }
  | cons call calls ih =>
      obtain ⟨k, hstep⟩ := make_step call h
      obtain ⟨m, hrun⟩ := ih hstep.laid
      have hmk := hrun.le
      have hkn := hstep.le
      have hrest : ∀ b ∈ L.blocks m (k - m), b ∈ L.blocks m (n - m) := by
        intro b hb
        rw [show n - m = (k - m) + (n - k) by omega, Layout.blocks, ctrBlocks_append]
        exact List.mem_append_left _ hb
      have hfirst : ∀ b ∈ L.blocks k (n - k), b ∈ L.blocks m (n - m) := by
        intro b hb
        rw [show n - m = (k - m) + (n - k) by omega, Layout.blocks, ctrBlocks_append,
          show m + (k - m) = k by omega]
        exact List.mem_append_right _ hb
      refine ⟨m, ?_⟩
      simp only [serve]
      exact {
        le := Nat.le_trans hmk hkn
        laid := hrun.laid
        role := hrun.role.trans hstep.role
        blocks := by
          intro b hb
          rw [List.flatMap_cons, hstep.blocks] at hb
          cases List.mem_append.mp hb with
          | inl hb => exact hfirst b hb
          | inr hb => exact hrest b (hrun.blocks b hb)
        disjoint := by
          rw [List.flatMap_cons, hstep.blocks, List.pairwise_append]
          refine ⟨blocks_pairwise L k (n - k), hrun.disjoint, ?_⟩
          intro b hb c hc
          exact blocks_disjoint hb (hrun.blocks c hc) (by omega)
        log := by
          rw [hrun.log, hstep.log, hstep.role, Vm.push_push, List.flatMap_cons]
        sized := List.forall_mem_cons.mpr ⟨hstep.sized, hrun.sized⟩
        enciphered := by
          intro mem hmem
          exact List.forall_mem_cons.mpr
            ⟨hstep.enciphered mem hmem, hrun.enciphered mem (hmem.mono hkn)⟩ }

end Served

namespace MpcAesGcm

/-- The resources that remain are aligned: as much input and output as there is
keystream, and the output is the input enciphered with it. -/
def Aligned (aes : Aes) (s : Vm × MpcAesGcm) : Prop :=
  match s.2.state with
  | .ready resources _ =>
      resources.input.len = 16 * resources.keystream.blocks.length ∧
        resources.output.len = 16 * resources.keystream.blocks.length ∧
        ∀ mem, s.1.Holds aes mem → mem.read resources.output =
          xorBytes (mem.read resources.input) (keystreamBytes mem resources.keystream.blocks)
  | _ => False

/-- However the calls against one allocation follow each other: no two records get
the same block, or one that remains; every record gets the blocks which its length
takes, assigned its own nonce and the counters in order, and its text is enciphered
with their keystream; and what remains stays aligned. -/
theorem keystream_not_reused {otps : Nat → Vector UInt8 16} {records len : Nat} {mem₀ : Memory}
    {prepare : List UInt8 → Except (Fault GhashError) Ghash} {s s' : Vm × MpcAesGcm}
    {gcm : MpcAesGcm} (aes : Aes) (calls : List KeystreamCall)
    (halloc : alloc otps records len s = .ok () s')
    (hsetup : setup mem₀ prepare s'.2 = .ok () gcm) :
    let served := (Served.serve calls (s'.1, gcm)).1
    let final := (Served.serve calls (s'.1, gcm)).2
    (served.flatMap Served.blocks ++ final.2.blocks).Pairwise CtrBlock.Disjoint ∧
      (∀ r ∈ served, r.Sized) ∧
      final.1.log = s'.1.log ++ served.flatMap (Served.ops s.2.role) ∧
      (∀ mem, final.1.Holds aes mem → ∀ r ∈ served, r.Enciphered mem) ∧
      Aligned aes final := by
  intro served final
  obtain ⟨L, n, key, iv, -, -, hlaid, hcalled, hrole⟩ := laid_of_setup halloc hsetup
  obtain ⟨m, hrun⟩ := Served.serve_run calls (s := (s'.1, gcm)) hlaid
  have hlog : final.1 = s'.1.push (served.flatMap (Served.ops s.2.role)) := by
    rw [← hrole]
    exact hrun.log
  have henciphers : ∀ mem, final.1.Holds aes mem → L.Enciphers n mem := by
    intro mem hmem
    rw [hlog] at hmem
    exact (hcalled.push _).enciphers hmem
  refine ⟨?_, hrun.sized, congrArg Vm.log hlog, ?_, ?_⟩
  · rw [hrun.laid.blocks_eq, List.pairwise_append]
    refine ⟨hrun.disjoint, Served.blocks_pairwise L 0 m, ?_⟩
    intro b hb c hc
    exact Served.blocks_disjoint (hrun.blocks b hb) hc (by omega)
  · intro mem hmem
    exact hrun.enciphered mem (henciphers mem hmem)
  · obtain ⟨j0s, ghash, hstate⟩ := hrun.laid.state
    rw [Aligned, hstate]
    have hlength : (L.blocks 0 m).length = m := length_ctrBlocks ..
    refine ⟨congrArg (16 * ·) hlength.symm, congrArg (16 * ·) hlength.symm, ?_⟩
    intro mem hmem
    exact (henciphers mem hmem).read (m := 0) (k := m) (by have := hrun.le; omega) (Nat.le_refl _)

/-- An instance whose key and IV are the first 20 bytes of memory. -/
def sampleInstance : Vm × MpcAesGcm :=
  (⟨20, []⟩, ((new .leader).setKey ⟨0, 16⟩).setIv ⟨16, 4⟩)

theorem sampleAlloc_ok : (Fault.result? (alloc (fun _ => Vector.replicate 16 7) 1 50
    sampleInstance)).isSome = true := by
  decide +kernel

def sampleAllocated : Vm × MpcAesGcm := (Option.get _ sampleAlloc_ok).2

theorem sampleAlloc_eq : alloc (fun _ => Vector.replicate 16 7) 1 50 sampleInstance =
    .ok () sampleAllocated := Fault.ok_get_state sampleAlloc_ok

theorem sampleSetup_ok : (Fault.result? (setup (fun _ => 0) (fun _ => .ok ⟨fun x => .ok x⟩)
    sampleAllocated.2)).isSome = true := by
  decide +kernel

def sampleReady : MpcAesGcm := (Option.get _ sampleSetup_ok).2

theorem sampleSetup_eq : setup (fun _ => 0) (fun _ => .ok ⟨fun x => .ok x⟩) sampleAllocated.2 =
    .ok () sampleReady :=
  Fault.ok_get_state sampleSetup_ok

/-- A record, one that is too long, one with a short nonce, and keystream. -/
def sampleCalls : List KeystreamCall :=
  [.apply [0, 0, 0, 0, 0, 0, 0, 1] ⟨5, by decide⟩, .apply [0, 0, 0, 0, 0, 0, 0, 2] ⟨60, by decide⟩,
    .take [3] ⟨5, by decide⟩, .take [0, 0, 0, 0, 0, 0, 0, 4] ⟨17, by decide⟩]

theorem keystream_not_reused_sample :
    ((Served.serve sampleCalls (sampleAllocated.1, sampleReady)).1.flatMap Served.blocks ++
        (Served.serve sampleCalls (sampleAllocated.1, sampleReady)).2.2.blocks).Pairwise
          CtrBlock.Disjoint ∧
      (Served.serve sampleCalls (sampleAllocated.1, sampleReady)).1.map
        (fun r => r.blocks.length) = [1, 0, 0, 2] :=
  ⟨(keystream_not_reused (fun _ _ => Vector.replicate 16 0) sampleCalls
    sampleAlloc_eq sampleSetup_eq).1, by decide +kernel⟩

end MpcAesGcm

end Tlsn.MpcTls

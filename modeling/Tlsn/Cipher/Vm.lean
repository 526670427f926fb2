import Tlsn.Library.Bytes
import Tlsn.Library.Fault

/-!
The virtual machine, in which both parties run the same circuits on shared
memory. It is taken to be ideal: memory is handed out in sequence and never
reused, every value is written once, and what is decoded is the value which the
assignments and the circuits give. So a machine is a counter and a log of
operations, and a memory is any function from addresses to bytes. Addresses are
in bytes.
-/

namespace Tlsn.Cipher

/-- A reference to memory. -/
structure Slice where
  ptr : Nat
  len : Nat
deriving DecidableEq, Repr

namespace Slice

def stop (s : Slice) : Nat := s.ptr + s.len

/-- Splits at `at`, leaving the front part in place. -/
def splitOff {ε : Type} (s : Slice) (pos : Nat) : Except (Fault ε) (Slice × Slice) :=
  if pos ≤ s.len then .ok (⟨s.ptr, pos⟩, ⟨s.ptr + pos, s.len - pos⟩) else .error .panic

def truncate (s : Slice) (len : Nat) : Slice := ⟨s.ptr, min s.len len⟩

def get? (s : Slice) (start stop : Nat) : Option Slice :=
  if start ≤ stop ∧ stop ≤ s.len then some ⟨s.ptr + start, stop - start⟩ else none

def Disjoint (s t : Slice) : Prop := s.stop ≤ t.ptr ∨ t.stop ≤ s.ptr

instance (s t : Slice) : Decidable (s.Disjoint t) :=
  inferInstanceAs (Decidable (_ ∨ _))

end Slice

/-- Who knows a value before it is decoded. -/
inductive Visibility where
  | isPublic
  | isPrivate
  | isBlind
deriving DecidableEq

inductive Circuit where
  | aes128Ecb
  | aes128Ctr
  | xor
deriving DecidableEq

inductive VmOp where
  | mark (visibility : Visibility) (s : Slice)
  | assign (s : Slice) (data : List UInt8)
  | commit (s : Slice)
  | call (circuit : Circuit) (args : List Slice) (output : Slice)
  | decode (s : Slice)
deriving DecidableEq

structure Vm where
  next : Nat
  log : List VmOp

inductive VmError where
  | length (expected actual : Nat)
deriving DecidableEq

/-- AES-128 as a function of the key and the block. -/
abbrev Aes := List UInt8 → List UInt8 → Vector UInt8 16

abbrev Memory := Nat → UInt8

namespace Memory

def read (mem : Memory) (s : Slice) : List UInt8 :=
  (List.range s.len).map fun i => mem (s.ptr + i)

@[simp] theorem length_read (mem : Memory) (s : Slice) : (mem.read s).length = s.len := by
  simp [read]

theorem read_append (mem : Memory) (p m n : Nat) :
    mem.read ⟨p, m + n⟩ = mem.read ⟨p, m⟩ ++ mem.read ⟨p + m, n⟩ := by
  simp only [read, List.range_add, List.map_append, List.map_map, Nat.add_assoc]
  rfl

theorem take_read (mem : Memory) (p : Nat) {m n : Nat} (h : m ≤ n) :
    (mem.read ⟨p, n⟩).take m = mem.read ⟨p, m⟩ := by
  obtain ⟨k, rfl⟩ := Nat.exists_eq_add_of_le h
  rw [read_append]
  exact List.take_left' (length_read mem ⟨p, m⟩)

/-- Memory which is the exclusive or of other memory, byte by byte. -/
theorem read_eq_xorBytes {mem : Memory} {out p q m n : Nat} (hle : m ≤ n)
    (h : ∀ i, i < m → mem (out + i) = mem (p + i) ^^^ mem (q + i)) :
    mem.read ⟨out, m⟩ = xorBytes (mem.read ⟨p, m⟩) (mem.read ⟨q, n⟩) := by
  apply List.ext_getElem
  · simp [Nat.min_eq_left hle]
  · intro i hi _
    have hi' : i < m := by simpa using hi
    simp [read, xorBytes, h i hi']

theorem apply_of_read_eq_xorBytes {mem : Memory} {out p q n : Nat}
    (h : mem.read ⟨out, n⟩ = xorBytes (mem.read ⟨p, n⟩) (mem.read ⟨q, n⟩)) {i : Nat} (hi : i < n) :
    mem (out + i) = mem (p + i) ^^^ mem (q + i) := by
  have hbyte := congrArg (·[i]?) h
  simp only [read, xorBytes, List.getElem?_zipWith, List.getElem?_map, List.getElem?_range hi,
    Option.map_some] at hbyte
  exact Option.some.inj hbyte

end Memory

def Circuit.eval (aes : Aes) : Circuit → List (List UInt8) → List UInt8
  | .aes128Ecb, [key, input] => (aes key input).toList
  | .aes128Ctr, [key, iv, nonce, ctr] => (aes key (iv ++ nonce ++ ctr)).toList
  | .xor, [a, b] => xorBytes a b
  | _, _ => []

namespace VmOp

/-- What an operation says about memory. -/
def Holds (aes : Aes) (mem : Memory) : VmOp → Prop
  | .assign s data => mem.read s = data
  | .call circuit args output => mem.read output = circuit.eval aes (args.map mem.read)
  | .mark _ _ => True
  | .commit _ => True
  | .decode _ => True

instance (aes : Aes) (mem : Memory) : DecidablePred (Holds aes mem) := fun op =>
  match op with
  | .assign s data => inferInstanceAs (Decidable (mem.read s = data))
  | .call circuit args output =>
      inferInstanceAs (Decidable (mem.read output = circuit.eval aes (args.map mem.read)))
  | .mark _ _ => isTrue trivial
  | .commit _ => isTrue trivial
  | .decode _ => isTrue trivial

end VmOp

namespace Vm

def Holds (aes : Aes) (mem : Memory) (vm : Vm) : Prop := ∀ op ∈ vm.log, op.Holds aes mem

instance (aes : Aes) (mem : Memory) (vm : Vm) : Decidable (vm.Holds aes mem) :=
  inferInstanceAs (Decidable (∀ op ∈ vm.log, op.Holds aes mem))

theorem Holds.of_append {aes : Aes} {mem : Memory} {vm vm' : Vm} {ops : List VmOp}
    (h : vm'.Holds aes mem) (hlog : vm'.log = vm.log ++ ops) : vm.Holds aes mem := by
  intro op hop
  apply h
  rw [hlog]
  exact List.mem_append_left _ hop

def push (vm : Vm) (ops : List VmOp) : Vm := { vm with log := vm.log ++ ops }

@[simp] theorem push_nil (vm : Vm) : vm.push [] = vm := by
  rw [push, List.append_nil]

theorem push_push (vm : Vm) (ops ops' : List VmOp) :
    (vm.push ops).push ops' = vm.push (ops ++ ops') := by
  rw [push, push, push, List.append_assoc]

def alloc {ε : Type} (len : Nat) : EStateM (Fault ε) Vm Slice := fun vm =>
  .ok ⟨vm.next, len⟩ { vm with next := vm.next + len }

def mark {ε : Type} (visibility : Visibility) (s : Slice) : EStateM (Fault ε) Vm Unit := fun vm =>
  .ok () (vm.push [.mark visibility s])

def assign (s : Slice) (data : List UInt8) : EStateM (Fault VmError) Vm Unit := fun vm =>
  if data.length = s.len then .ok () (vm.push [.assign s data])
  else .error (.err (.length s.len data.length)) vm

def commit {ε : Type} (s : Slice) : EStateM (Fault ε) Vm Unit := fun vm =>
  .ok () (vm.push [.commit s])

/-- Calls a circuit whose output has `len` bytes. -/
def call {ε : Type} (circuit : Circuit) (args : List Slice) (len : Nat) :
    EStateM (Fault ε) Vm Slice := fun vm =>
  .ok ⟨vm.next, len⟩
    { next := vm.next + len, log := vm.log ++ [.call circuit args ⟨vm.next, len⟩] }

/-- A decoded value is read from memory once the machine has run. -/
def decode {ε : Type} (s : Slice) : EStateM (Fault ε) Vm Slice := fun vm =>
  .ok s (vm.push [.decode s])

/-! What is logged stays logged. -/

def Extends (vm vm' : Vm) : Prop := ∃ ops, vm'.log = vm.log ++ ops

theorem Extends.refl (vm : Vm) : vm.Extends vm := ⟨[], (List.append_nil vm.log).symm⟩

theorem Extends.trans (vm₁ vm₂ vm₃ : Vm) (h : vm₁.Extends vm₂) (h' : vm₂.Extends vm₃) :
    vm₁.Extends vm₃ := by
  obtain ⟨ops, hops⟩ := h
  obtain ⟨ops', hops'⟩ := h'
  exact ⟨ops ++ ops', by rw [hops', hops, List.append_assoc]⟩

theorem Extends.push (vm : Vm) (ops : List VmOp) : vm.Extends (vm.push ops) := ⟨ops, rfl⟩

/-- An operation which only adds to the log. -/
abbrev Logs {ε α : Type} (x : EStateM ε Vm α) : Prop := Fault.Keeps Extends x

theorem Logs.bind {ε α β : Type} {x : EStateM ε Vm α} {f : α → EStateM ε Vm β} (hx : Logs x)
    (hf : ∀ a, Logs (f a)) : Logs (x >>= f) := Fault.Keeps.bind Extends.trans hx hf

theorem Logs.pure {ε α : Type} (a : α) : Logs (Pure.pure a : EStateM ε Vm α) :=
  Fault.Keeps.pure Extends.refl a

theorem Logs.lift {ε α : Type} (x : Except ε α) : Logs (Fault.lift x : EStateM ε Vm α) :=
  Fault.Keeps.lift Extends.refl x

theorem logs_alloc {ε : Type} (len : Nat) : Logs (alloc len : EStateM (Fault ε) Vm Slice) := by
  intro vm s vm' h
  cases h
  exact Extends.refl vm

theorem logs_mark {ε : Type} (visibility : Visibility) (s : Slice) :
    Logs (mark visibility s : EStateM (Fault ε) Vm Unit) := by
  intro vm _ vm' h
  cases h
  exact Extends.push vm _

theorem logs_assign (s : Slice) (data : List UInt8) : Logs (assign s data) := by
  intro vm _ vm' h
  unfold assign at h
  split at h
  · cases h
    exact Extends.push vm _
  · cases h

theorem logs_commit {ε : Type} (s : Slice) : Logs (commit s : EStateM (Fault ε) Vm Unit) := by
  intro vm _ vm' h
  cases h
  exact Extends.push vm _

theorem logs_call {ε : Type} (circuit : Circuit) (args : List Slice) (len : Nat) :
    Logs (call circuit args len : EStateM (Fault ε) Vm Slice) := by
  intro vm _ vm' h
  cases h
  exact ⟨_, rfl⟩

theorem logs_decode {ε : Type} (s : Slice) : Logs (decode s : EStateM (Fault ε) Vm Slice) := by
  intro vm _ vm' h
  cases h
  exact Extends.push vm _

end Vm

end Tlsn.Cipher

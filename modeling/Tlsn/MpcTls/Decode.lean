import Tlsn.MpcTls.Error

/-!
Decoding into additive shares. Each party masks the value with a pad of its own;
the value under both pads is decoded, and the follower removes its pad again.
-/

namespace Tlsn.MpcTls

open Tlsn.Cipher

abbrev Block := Vector UInt8 16

namespace Block

def xor (a b : Block) : Block := Vector.ofFn fun i => a[i] ^^^ b[i]

def zero : Block := Vector.replicate 16 0

/-- The block of which `bytes` are the first bytes, and the others zero. -/
def ofBytes (bytes : List UInt8) : Block := Vector.ofFn fun i => bytes.getD i 0

@[simp] theorem getElem_xor (a b : Block) (i : Nat) (h : i < 16) :
    (xor a b)[i] = a[i] ^^^ b[i] := by
  simp [xor]

theorem xor_comm (a b : Block) : xor a b = xor b a := by
  ext i h
  simp [UInt8.xor_comm]

theorem xor_assoc (a b c : Block) : xor (xor a b) c = xor a (xor b c) := by
  ext i h
  simp [UInt8.xor_assoc]

theorem xor_self (a : Block) : xor a a = zero := by
  ext i h
  simp [zero]

theorem xor_zero (a : Block) : xor a zero = a := by
  ext i h
  simp [zero]

theorem xor_left_comm (a b c : Block) : xor a (xor b c) = xor b (xor a c) := by
  rw [← xor_assoc, xor_comm a b, xor_assoc]

theorem ofBytes_xorBytes {a b : List UInt8} (h : a.length = b.length) :
    ofBytes (xorBytes a b) = xor (ofBytes a) (ofBytes b) := by
  ext i hi
  rw [getElem_xor]
  simp only [ofBytes, Vector.getElem_ofFn]
  rw [getD_xorBytes h]

theorem ofBytes_toList (a : Block) : ofBytes a.toList = a := by
  ext i h
  simp [ofBytes]

end Block

/-- Masks a value with a pad of this party. -/
def maskPrivate (value : Slice) (otp : List UInt8) : EStateM (Fault VmError) Vm Slice := do
  let pad ← Vm.alloc value.len
  Vm.mark .isPrivate pad
  Vm.assign pad otp
  Vm.commit pad
  Vm.call .xor [value, pad] value.len

/-- Masks a value with a pad of the other party. -/
def maskBlind (value : Slice) : EStateM (Fault VmError) Vm Slice := do
  let pad ← Vm.alloc value.len
  Vm.mark .isBlind pad
  Vm.commit pad
  Vm.call .xor [value, pad] value.len

theorem maskPrivate_eq {value : Slice} {otp : List UInt8} (h : otp.length = value.len) (vm : Vm) :
    maskPrivate value otp vm =
      .ok ⟨vm.next + value.len, value.len⟩ ⟨vm.next + value.len + value.len,
        vm.log ++ [.mark .isPrivate ⟨vm.next, value.len⟩, .assign ⟨vm.next, value.len⟩ otp,
          .commit ⟨vm.next, value.len⟩,
          .call .xor [value, ⟨vm.next, value.len⟩] ⟨vm.next + value.len, value.len⟩]⟩ := by
  simp [maskPrivate, bind, EStateM.bind, Vm.alloc, Vm.mark, Vm.assign, Vm.commit, Vm.call, h,
    Vm.push]

theorem maskBlind_eq (value : Slice) (vm : Vm) :
    maskBlind value vm =
      .ok ⟨vm.next + value.len, value.len⟩ ⟨vm.next + value.len + value.len,
        vm.log ++ [.mark .isBlind ⟨vm.next, value.len⟩, .commit ⟨vm.next, value.len⟩,
          .call .xor [value, ⟨vm.next, value.len⟩] ⟨vm.next + value.len, value.len⟩]⟩ := by
  simp [maskBlind, bind, EStateM.bind, Vm.alloc, Vm.mark, Vm.commit, Vm.call, Vm.push]

theorem logs_maskPrivate (value : Slice) (otp : List UInt8) : Vm.Logs (maskPrivate value otp) := by
  refine Vm.Logs.bind (Vm.logs_alloc _) fun pad => Vm.Logs.bind (Vm.logs_mark _ _) fun _ => ?_
  refine Vm.Logs.bind (Vm.logs_assign _ _) fun _ => Vm.Logs.bind (Vm.logs_commit _) fun _ => ?_
  exact Vm.logs_call _ _ _

theorem logs_maskBlind (value : Slice) : Vm.Logs (maskBlind value) := by
  refine Vm.Logs.bind (Vm.logs_alloc _) fun pad => Vm.Logs.bind (Vm.logs_mark _ _) fun _ => ?_
  exact Vm.Logs.bind (Vm.logs_commit _) fun _ => Vm.logs_call _ _ _

/-- A block of which each party gets a share. -/
inductive OneTimePadShared where
  | leader (otp : Block)
  | follower (value : Slice) (otp : Block)
deriving DecidableEq

namespace OneTimePadShared

def new (role : Role) (value : Slice) (otp : Block) :
    EStateM (Fault VmError) Vm OneTimePadShared :=
  match role with
  | .leader => do
      let masked ← maskPrivate value otp.toList
      let masked ← maskBlind masked
      let _ ← Vm.decode masked
      return .leader otp
  | .follower => do
      let masked ← maskBlind value
      let masked ← maskPrivate masked otp.toList
      let value ← Vm.decode masked
      return .follower value otp

theorem logs_new (role : Role) (value : Slice) (otp : Block) : Vm.Logs (new role value otp) := by
  cases role with
  | leader =>
      refine Vm.Logs.bind (logs_maskPrivate _ _) fun masked => ?_
      refine Vm.Logs.bind (logs_maskBlind _) fun masked => ?_
      exact Vm.Logs.bind (Vm.logs_decode _) fun _ => Vm.Logs.pure _
  | follower =>
      refine Vm.Logs.bind (logs_maskBlind _) fun masked => ?_
      refine Vm.Logs.bind (logs_maskPrivate _ _) fun masked => ?_
      exact Vm.Logs.bind (Vm.logs_decode _) fun _ => Vm.Logs.pure _

/-- The share, once the masked value is decoded. -/
def share (mem : Memory) : OneTimePadShared → Block
  | .leader otp => otp
  | .follower value otp => Block.xor (Block.ofBytes (mem.read value)) otp

end OneTimePadShared

end Tlsn.MpcTls

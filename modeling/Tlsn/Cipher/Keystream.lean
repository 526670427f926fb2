import Tlsn.Cipher.Vm

/-!
Ciphers in counter mode: blocks of keystream, allocated in advance with outputs
that are contiguous in memory, and consumed from the back.
-/

namespace Tlsn.Cipher

/-- A block in counter mode. -/
structure CtrBlock where
  explicitNonce : Slice
  counter : Slice
  output : Slice
deriving DecidableEq

inductive CipherError where
  | msg (text : String)
  | vm (e : VmError)
deriving DecidableEq

/-- Size of a block in bytes. -/
def blockSize : Nat := 16

structure Keystream where
  blocks : List CtrBlock
deriving DecidableEq

namespace Keystream

/-- Whether the outputs follow each other in memory from `pos` on. -/
def contiguous : Nat → List CtrBlock → Bool
  | _, [] => true
  | pos, block :: blocks =>
      decide (block.output.ptr = pos) && contiguous (pos + blockSize) blocks

def new {ε : Type} (blocks : List CtrBlock) : Except (Fault ε) Keystream :=
  let pos := (blocks.head?.map fun block => block.output.ptr).getD 0
  if contiguous pos blocks then .ok ⟨blocks⟩ else .error .panic

/-- Length of the keystream in bytes. -/
def len (ks : Keystream) : Nat := blockSize * ks.blocks.length

/-- Takes keystream material for `len` bytes off the end. -/
def consume (len : Nat) : EStateM (Fault CipherError) Keystream Keystream := fun ks =>
  let blockCount := divCeil len blockSize
  if blockCount > ks.blocks.length then .error (.err (.msg "insufficient keystream")) ks
  else
    let rest := ks.blocks.length - blockCount
    .ok ⟨ks.blocks.drop rest⟩ ⟨ks.blocks.take rest⟩

def applyBlocks (input : Slice) :
    List CtrBlock → Nat → EStateM (Fault CipherError) Vm (List Slice)
  | [], _ => return []
  | block :: blocks, pos =>
      match input.get? pos (pos + blockSize) with
      | none => throw .panic
      | some arg => do
          let output ← Vm.call .xor [block.output, arg] blockSize
          let outputs ← applyBlocks input blocks (pos + blockSize)
          return output :: outputs

/-- Applies the keystream to the input, as one circuit call for each block. -/
def apply (ks : Keystream) (input : Slice) : EStateM (Fault CipherError) Vm Slice := do
  if input.len ≠ ks.len then
    throw (.err (.msg "input length must match keystream length"))
  else if ks.blocks.isEmpty then
    throw (.err (.msg "no keystream material available"))
  else
    let outputs ← applyBlocks input ks.blocks 0
    match outputs with
    | [] => throw .panic
    | output :: _ => return ⟨output.ptr, ks.blocks.length * blockSize⟩

/-- Returns `len` bytes of the keystream as a vector. -/
def toVector (ks : Keystream) (len : Nat) : Except (Fault CipherError) Slice :=
  if len = 0 then .error (.err (.msg "length must be greater than 0"))
  else
    match ks.blocks with
    | [] => .error (.err (.msg "no keystream material available"))
    | front :: _ =>
        let blockCount := divCeil len blockSize
        if blockCount ≠ ks.blocks.length then
          .error (.err (.msg "length does not match keystream length"))
        else .ok (Slice.truncate ⟨front.output.ptr, blockCount * blockSize⟩ len)

/-- Assigns the inputs of the blocks. The counters are the values which the
counter function returns in turn. -/
def assignBlocks (explicitNonce : List UInt8) (ctr : Nat → List UInt8) :
    List CtrBlock → Nat → EStateM (Fault VmError) Vm Unit
  | [], _ => return ()
  | block :: blocks, i => do
      Vm.assign block.explicitNonce explicitNonce
      Vm.commit block.explicitNonce
      Vm.assign block.counter (ctr i)
      Vm.commit block.counter
      assignBlocks explicitNonce ctr blocks (i + 1)

def assign (ks : Keystream) (explicitNonce : List UInt8) (ctr : Nat → List UInt8) :
    EStateM (Fault CipherError) Vm Unit :=
  Fault.adapt .vm (assignBlocks explicitNonce ctr ks.blocks 0)

end Keystream

/-! ## AES-128 -/

inductive AesError where
  | key (text : String)
  | iv (text : String)
deriving DecidableEq

structure Aes128 where
  key : Option Slice
  iv : Option Slice
deriving DecidableEq

namespace Aes128

def default : Aes128 := ⟨none, none⟩

def setKey (aes : Aes128) (key : Slice) : Aes128 := { aes with key := some key }

def setIv (aes : Aes128) (iv : Slice) : Aes128 := { aes with iv := some iv }

def getKey (aes : Aes128) : Except (Fault AesError) Slice :=
  match aes.key with
  | some key => .ok key
  | none => .error (.err (.key "key not set"))

def getIv (aes : Aes128) : Except (Fault AesError) Slice :=
  match aes.iv with
  | some iv => .ok iv
  | none => .error (.err (.iv "iv not set"))

def allocBlock (aes : Aes128) (input : Slice) : EStateM (Fault AesError) Vm Slice := do
  let key ← Fault.lift aes.getKey
  Vm.call .aes128Ecb [key, input] blockSize

def allocCtrBlock (aes : Aes128) : EStateM (Fault AesError) Vm CtrBlock := do
  let key ← Fault.lift aes.getKey
  let iv ← Fault.lift aes.getIv
  let explicitNonce ← Vm.alloc 8
  Vm.mark .isPublic explicitNonce
  let counter ← Vm.alloc 4
  Vm.mark .isPublic counter
  let output ← Vm.call .aes128Ctr [key, iv, explicitNonce, counter] blockSize
  return ⟨explicitNonce, counter, output⟩

def allocInputs : Nat → EStateM (Fault AesError) Vm (List (Slice × Slice))
  | 0 => return []
  | n + 1 => do
      let explicitNonce ← Vm.alloc 8
      let counter ← Vm.alloc 4
      Vm.mark .isPublic explicitNonce
      Vm.mark .isPublic counter
      let inputs ← allocInputs n
      return (explicitNonce, counter) :: inputs

def callBlocks (key iv : Slice) :
    List (Slice × Slice) → EStateM (Fault AesError) Vm (List CtrBlock)
  | [] => return []
  | (explicitNonce, counter) :: inputs => do
      let output ← Vm.call .aes128Ctr [key, iv, explicitNonce, counter] blockSize
      let blocks ← callBlocks key iv inputs
      return ⟨explicitNonce, counter, output⟩ :: blocks

def allocKeystream (aes : Aes128) (len : Nat) : EStateM (Fault AesError) Vm Keystream := do
  let key ← Fault.lift aes.getKey
  let iv ← Fault.lift aes.getIv
  let inputs ← allocInputs (divCeil len blockSize)
  let blocks ← callBlocks key iv inputs
  Fault.lift (Keystream.new blocks)

end Aes128

end Tlsn.Cipher

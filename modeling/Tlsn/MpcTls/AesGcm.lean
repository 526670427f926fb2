import Tlsn.MpcTls.Ghash

/-!
AES-GCM in MPC: the keystream and the texts are allocated in advance and taken
off the end record by record, padded to whole blocks. A call that fails keeps the
state it reached. Tags are computed from shares by the tag tasks; here their
inputs are put together.
-/

namespace Tlsn.MpcTls

open Tlsn.Cipher

/-- What is allocated for encryption or decryption, and not used up. -/
structure Resources where
  input : Slice
  keystream : Keystream
  j0s : List (CtrBlock × OneTimePadShared)
  output : Slice
deriving DecidableEq

inductive GcmState where
  | init
  | setup (resources : Resources) (ghashKey : OneTimePadShared)
  | ready (resources : Resources) (ghash : Ghash)
  | error

structure MpcAesGcm where
  role : Role
  aes : Aes128
  state : GcmState

def startCtr : Nat := 2

/-- The counters of a record's blocks, as the range from `startCtr` on yields them. -/
def counterBytes (i : Nat) : List UInt8 := beBytes 4 (startCtr + i)

namespace AeadError

def nonceLength (actual : Nat) : AeadError :=
  .cipher (.msg ("explicit nonce length: expected " ++ toString (8 : Nat) ++ ", got " ++
    toString actual))

def exceedsAllocated (paddedLen inputLen : Nat) : AeadError :=
  .cipher (.msg ("input length exceeds allocated: " ++ toString paddedLen ++ " > " ++
    toString inputLen))

end AeadError

/-- `explicit_nonce.try_into()` -/
def nonceOf (explicitNonce : List UInt8) : Except (Fault AeadError) (List UInt8) :=
  if explicitNonce.length = 8 then .ok explicitNonce
  else .error (.err (.nonceLength explicitNonce.length))

namespace Resources

def splitInput (pos : Nat) : EStateM (Fault AeadError) (Vm × Resources) Slice := fun s =>
  match (s.2.input.splitOff pos : Except (Fault AeadError) _) with
  | .ok (rest, tail) => .ok tail (s.1, { s.2 with input := rest })
  | .error e => .error e s

def splitOutput (pos : Nat) : EStateM (Fault AeadError) (Vm × Resources) Slice := fun s =>
  match (s.2.output.splitOff pos : Except (Fault AeadError) _) with
  | .ok (rest, tail) => .ok tail (s.1, { s.2 with output := rest })
  | .error e => .error e s

def consume (len : Nat) : EStateM (Fault AeadError) (Vm × Resources) Keystream := fun s =>
  match Keystream.consume len s.2.keystream with
  | .ok ks rest => .ok ks (s.1, { s.2 with keystream := rest })
  | .error e rest =>
      .error (e.map fun e => .cipher (.cipher e)) (s.1, { s.2 with keystream := rest })

/-- An operation of the machine, whose error becomes a cipher error. -/
def onVm {α : Type} (x : EStateM (Fault VmError) Vm α) :
    EStateM (Fault AeadError) (Vm × Resources) α :=
  Fault.onFst (Fault.adapt (fun e => .cipher (.vm e)) x)

def assignKeystream (ks : Keystream) (explicitNonce : List UInt8) :
    EStateM (Fault AeadError) (Vm × Resources) Unit :=
  Fault.onFst (Fault.adapt (fun e => .cipher (.cipher e)) (ks.assign explicitNonce counterBytes))

/-- Assigns zeroes to the padding. The padding is not public, so only the leader
assigns it. -/
def padInput (role : Role) (input : Slice) (paddingLen : Nat) :
    EStateM (Fault AeadError) (Vm × Resources) Slice := do
  let (input, padding) ← Fault.lift (input.splitOff (wrapSub input.len paddingLen))
  if role = .leader then
    onVm (Vm.assign padding (List.replicate paddingLen 0))
  onVm (Vm.commit padding)
  return input

/-- Returns `len` bytes of input and output text. -/
def applyKeystream (role : Role) (explicitNonce : List UInt8) (len : Nat) :
    EStateM (Fault AeadError) (Vm × Resources) (Slice × Slice) := do
  let explicitNonce ← Fault.lift (nonceOf explicitNonce)
  let blockCount := divCeil len 16
  let paddedLen := wrap (blockCount * 16)
  let paddingLen := wrapSub paddedLen len
  let inputLen := (← get).2.input.len
  if paddedLen > inputLen then
    throw (.err (.exceedsAllocated paddedLen inputLen))
  let input ← splitInput (inputLen - paddedLen)
  let keystream ← consume paddedLen
  let output ← splitOutput (wrapSub (← get).2.output.len paddedLen)
  assignKeystream keystream explicitNonce
  if paddingLen > 0 then
    let input ← padInput role input paddingLen
    return (input, output.truncate len)
  else
    return (input, output)

/-- Returns `len` bytes of keystream. The input and output text are dropped, and
stay allocated but unassigned. -/
def takeKeystream (explicitNonce : List UInt8) (len : Nat) :
    EStateM (Fault AeadError) (Vm × Resources) Slice := do
  let explicitNonce ← Fault.lift (nonceOf explicitNonce)
  let blockCount := divCeil len 16
  let paddedLen := wrap (blockCount * 16)
  let inputLen := (← get).2.input.len
  if paddedLen > inputLen then
    throw (.err (.exceedsAllocated paddedLen inputLen))
  let _ ← splitInput (inputLen - paddedLen)
  let _ ← splitOutput (wrapSub (← get).2.output.len paddedLen)
  let keystream ← consume len
  assignKeystream keystream explicitNonce
  Fault.lift (Fault.convert (fun e => .cipher (.cipher e)) (keystream.toVector len))

end Resources

namespace MpcAesGcm

def new (role : Role) : MpcAesGcm := ⟨role, Aes128.default, .init⟩

def setKey (gcm : MpcAesGcm) (key : Slice) : MpcAesGcm := { gcm with aes := gcm.aes.setKey key }

def setIv (gcm : MpcAesGcm) (iv : Slice) : MpcAesGcm := { gcm with aes := gcm.aes.setIv iv }

def allocJ0s (role : Role) (aes : Aes128) (otps : Nat → Vector UInt8 16) :
    Nat → EStateM (Fault AeadError) Vm (List (CtrBlock × OneTimePadShared))
  | 0 => return []
  | n + 1 => do
      let j0 ← Fault.adapt (fun e => .cipher (.aes e)) aes.allocCtrBlock
      let shared ← Fault.adapt (fun e => .cipher (.vm e))
        (OneTimePadShared.new role j0.output (otps 0))
      let j0s ← allocJ0s role aes (fun i => otps (i + 1)) n
      return (j0, shared) :: j0s

/-- The input is known to the leader only. -/
def markInput (role : Role) (input : Slice) : EStateM (Fault AeadError) Vm Unit :=
  match role with
  | .leader => Vm.mark .isPrivate input
  | .follower => Vm.mark .isBlind input

/-- The resources for `records` records with `len` bytes in all, and the shares
of the GHASH key. The pads are drawn at random: `otps` lists what is drawn. -/
def allocResources (role : Role) (aes : Aes128) (otps : Nat → Vector UInt8 16)
    (records len : Nat) : EStateM (Fault AeadError) Vm (Resources × OneTimePadShared) := do
  let zeroBlock ← Vm.alloc 16
  Vm.mark .isPublic zeroBlock
  Fault.adapt (fun e => .cipher (.vm e)) (Vm.assign zeroBlock (List.replicate 16 0))
  Vm.commit zeroBlock
  let ghashKey ← Fault.adapt (fun e => .cipher (.aes e)) (aes.allocBlock zeroBlock)
  let ghashKey ← Fault.adapt (fun e => .cipher (.vm e))
    (OneTimePadShared.new role ghashKey (otps 0))
  let j0s ← allocJ0s role aes (fun i => otps (i + 1)) records
  let len := wrap (16 * divCeil len 16)
  let input ← Vm.alloc len
  markInput role input
  let keystream ← Fault.adapt (fun e => .cipher (.aes e)) (aes.allocKeystream len)
  let output ← Fault.adapt (fun e => .cipher (.cipher e)) (keystream.apply input)
  return (⟨input, keystream, j0s, output⟩, ghashKey)

def alloc (otps : Nat → Vector UInt8 16) (records len : Nat) :
    EStateM (Fault AeadError) (Vm × MpcAesGcm) Unit := fun s =>
  match s.2.state with
  | .init =>
      match allocResources s.2.role s.2.aes otps records len s.1 with
      | .ok (resources, ghashKey) vm => .ok () (vm, { s.2 with state := .setup resources ghashKey })
      | .error e vm => .error e (vm, { s.2 with state := .error })
  | _ => .error (.err (.state (.msg "must be in init state to allocate")))
      (s.1, { s.2 with state := .error })

/-- Sets up GHASH with the key share. -/
def setup (mem : Memory) (prepare : List UInt8 → Except (Fault GhashError) Ghash) :
    EStateM (Fault AeadError) MpcAesGcm Unit := fun gcm =>
  match gcm.state with
  | .setup resources ghashKey =>
      match prepare (ghashKey.share mem).toList with
      | .ok ghash => .ok () { gcm with state := .ready resources ghash }
      | .error e => .error (e.map fun e => .tag (.ghash e)) { gcm with state := .error }
  | _ => .error (.err (.state (.msg "must be in setup state to set up")))
      { gcm with state := .error }

/-- Runs an operation on the resources of a ready instance. -/
def whenReady {α : Type} (text : String)
    (x : Role → Ghash → EStateM (Fault AeadError) (Vm × Resources) α) :
    EStateM (Fault AeadError) (Vm × MpcAesGcm) α := fun s =>
  match s.2.state with
  | .ready resources ghash =>
      match x s.2.role ghash (s.1, resources) with
      | .ok a (vm, resources) => .ok a (vm, { s.2 with state := .ready resources ghash })
      | .error e (vm, resources) => .error e (vm, { s.2 with state := .ready resources ghash })
  | _ => .error (.err (.state (.msg text))) s

def applyKeystream (explicitNonce : List UInt8) (len : Nat) :
    EStateM (Fault AeadError) (Vm × MpcAesGcm) (Slice × Slice) :=
  whenReady "must be in ready state to apply keystream" fun role _ =>
    Resources.applyKeystream role explicitNonce len

def takeKeystream (explicitNonce : List UInt8) (len : Nat) :
    EStateM (Fault AeadError) (Vm × MpcAesGcm) Slice :=
  whenReady "must be in ready state to take keystream" fun _ _ =>
    Resources.takeKeystream explicitNonce len

end MpcAesGcm

end Tlsn.MpcTls

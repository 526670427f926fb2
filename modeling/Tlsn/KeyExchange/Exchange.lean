import Tlsn.KeyExchange.PointAddition

/-!
The key exchange: a state machine of either party, which converts its private point to
shares and has the virtual machine add them up, twice. The machine is ideal, with a memory of
32-byte arrays.
-/

namespace Tlsn.KeyExchange

/-- `[u8; 32]` -/
abbrev Bytes32 := Vector UInt8 32

/-- The bytes of a number, highest first. -/
def bytes32 (n : Nat) : Bytes32 := ⟨(beBytes 32 n).toArray, by simp⟩

/-- `<[u8; 32]>::try_from` -/
def toArray (bytes : List UInt8) : Option Bytes32 :=
  if h : bytes.length = 32 then some ⟨bytes.toArray, h⟩ else none

theorem toArray_toBeBytes (x : P256) : toArray x.toBeBytes = some (bytes32 x.val) :=
  dif_pos (P256.length_toBeBytes x)

/-! ## The circuit -/

/-- NIST P-256 prime big-endian. -/
def P : Bytes32 := #v[
  0xFF, 0xFF, 0xFF, 0xFF, 0x00, 0x00, 0x00, 0x01, 0x00, 0x00, 0x00, 0x00, 0x00, 0x00, 0x00, 0x00,
  0x00, 0x00, 0x00, 0x00, 0xFF, 0xFF, 0xFF, 0xFF, 0xFF, 0xFF, 0xFF, 0xFF, 0xFF, 0xFF, 0xFF, 0xFF]

theorem P_eq : P = bytes32 modulus := by decide

/-- What the traced addition computes on its operands and the modulus. -/
abbrev AddMod := Bytes32 → Bytes32 → Bytes32 → Bytes32

/-- Numbers below the modulus are added modulo it. -/
def AddMod.Correct (nbyteAddModTrace : AddMod) : Prop :=
  ∀ m x y : Nat, m < 256 ^ 32 → x < m → y < m →
    nbyteAddModTrace (bytes32 x) (bytes32 y) (bytes32 m) = bytes32 ((x + y) % m)

structure PmsOutput where
  pms0 : Bytes32
  pms1 : Bytes32
  eq : Bytes32

/-- Circuit for combining additive shares of the PMS, twice. -/
def pmsCircuit (nbyteAddModTrace : AddMod) (shareA0 shareB0 shareA1 shareB1 : Bytes32) :
    PmsOutput :=
  let pms0 := nbyteAddModTrace shareA0 shareB0 P
  let pms1 := nbyteAddModTrace shareA1 shareB1 P
  ⟨pms0, pms1, pms0.zipWith (· ^^^ ·) pms1⟩

def zero32 : Bytes32 := Vector.replicate 32 0

theorem pmsCircuit_eq_zero_iff {nbyteAddModTrace : AddMod} {a0 b0 a1 b1 : Bytes32} :
    (pmsCircuit nbyteAddModTrace a0 b0 a1 b1).eq = zero32 ↔
      (pmsCircuit nbyteAddModTrace a0 b0 a1 b1).pms0 =
        (pmsCircuit nbyteAddModTrace a0 b0 a1 b1).pms1 := by
  simp only [pmsCircuit, zero32, Vector.ext_iff, Vector.getElem_zipWith, Vector.getElem_replicate,
    UInt8.xor_eq_zero_iff]

theorem addMod_shares {nbyteAddModTrace : AddMod} (h : nbyteAddModTrace.Correct) (x y : P256) :
    nbyteAddModTrace (bytes32 x.val) (bytes32 y.val) P = bytes32 (x + y).val := by
  rw [P_eq, h modulus _ _ modulus_lt x.val_lt y.val_lt, ZMod.val_add]

/-! ## The virtual machine -/

/-- A reference to 32 bytes of memory. -/
abbrev Ref := Nat

inductive VmOp where
  | markPrivate (ref : Ref)
  | markBlind (ref : Ref)
  | assign (ref : Ref) (data : Bytes32)
  | commit (ref : Ref)
  | call (shareA0 shareB0 shareA1 shareB1 pms0 pms1 eq : Ref)
  | decode (ref : Ref)
deriving DecidableEq

structure Vm where
  next : Ref
  log : List VmOp

abbrev Memory := Ref → Bytes32

/-- What an operation says about memory. -/
def VmOp.Holds (nbyteAddModTrace : AddMod) (mem : Memory) : VmOp → Prop
  | assign ref data => mem ref = data
  | call a0 b0 a1 b1 pms0 pms1 eq =>
      let output := pmsCircuit nbyteAddModTrace (mem a0) (mem b0) (mem a1) (mem b1)
      mem pms0 = output.pms0 ∧ mem pms1 = output.pms1 ∧ mem eq = output.eq
  | _ => True

def Vm.Holds (nbyteAddModTrace : AddMod) (mem : Memory) (vm : Vm) : Prop :=
  ∀ op ∈ vm.log, op.Holds nbyteAddModTrace mem

/-- The arrays which an operation names. -/
def VmOp.refs : VmOp → List Ref
  | markPrivate ref | markBlind ref | assign ref _ | commit ref | decode ref => [ref]
  | call shareA0 shareB0 shareA1 shareB1 pms0 pms1 eq =>
      [shareA0, shareB0, shareA1, shareB1, pms0, pms1, eq]

/-- Only arrays which were given out are named. -/
def Vm.Bounded (vm : Vm) : Prop := ∀ op ∈ vm.log, ∀ ref ∈ op.refs, ref < vm.next

theorem VmOp.Holds.congr {nbyteAddModTrace : AddMod} {mem mem' : Memory} {op : VmOp}
    (h : op.Holds nbyteAddModTrace mem) (heq : ∀ ref ∈ op.refs, mem' ref = mem ref) :
    op.Holds nbyteAddModTrace mem' := by
  cases op with
  | markPrivate _ | markBlind _ | commit _ | decode _ => trivial
  | assign ref data =>
      exact (heq ref (by simp [refs])).trans h
  | call a0 b0 a1 b1 pms0 pms1 eq =>
      simp only [refs, List.forall_mem_cons] at heq
      obtain ⟨h₁, h₂, h₃, h₄, h₅, h₆, h₇, -⟩ := heq
      simpa only [VmOp.Holds, h₁, h₂, h₃, h₄, h₅, h₆, h₇] using h

/-! ## The state machine -/

/-- A private key: a scalar which is not zero. -/
def curveOrder : Nat := 0xffffffff00000000ffffffffffffffffbce6faada7179e84f3b9cac2fc632551

abbrev SecretKey := { scalar : Nat // 0 < scalar ∧ scalar < curveOrder }

def SecretKey.publicKey (key : SecretKey) : PublicKey := key.val • generator

/-- `PublicKey::from_affine` -/
def fromAffine (point : AffinePoint) : Except (Fault KeyExchangeError) PublicKey :=
  if point = 0 then .error (.err (.key "crypto error")) else .ok point

/-- The arrays which are given out for the shares and for the outputs. -/
structure Slots where
  shareA0 : Ref
  shareB0 : Ref
  shareA1 : Ref
  shareB1 : Ref
  eq : Ref
deriving DecidableEq

inductive State where
  | initialized
  | setup (slots : Slots)
  | followerKey (key : PublicKey) (slots : Slots)
  | computedEcShares (slots : Slots) (pms0 pms1 : P256)
  | equalityCheck (eq : Ref)
  | complete
  | error

structure MpcKeyExchange where
  role : Role
  state : State
  privateKey : SecretKey
  serverKey : Option PublicKey

namespace MpcKeyExchange

def new (role : Role) (privateKey : SecretKey) : MpcKeyExchange :=
  ⟨role, .initialized, privateKey, none⟩

end MpcKeyExchange

/-- A party: its machine and its key exchange. -/
structure PartyState where
  vm : Vm
  ke : MpcKeyExchange

abbrev LocalOp (α : Type) := EStateM (Fault KeyExchangeError) PartyState α

namespace LocalOp

def fail {α : Type} (e : KeyExchangeError) : LocalOp α := throw (.err e)

def setState (state : State) : LocalOp Unit :=
  modify fun s => { s with ke := { s.ke with state := state } }

/-- `State::take` -/
def take : LocalOp State := do
  let state := (← get).ke.state
  setState .error
  return state

def issue (op : VmOp) : LocalOp Unit :=
  modify fun s => { s with vm := { s.vm with log := s.vm.log ++ [op] } }

def allocArray : LocalOp Ref := do
  let s ← get
  set { s with vm := { s.vm with next := s.vm.next + 1 } }
  return s.vm.next

def allocPrivate : LocalOp Ref := do
  let ref ← allocArray
  issue (.markPrivate ref)
  return ref

def allocBlind : LocalOp Ref := do
  let ref ← allocArray
  issue (.markBlind ref)
  return ref

end LocalOp

open LocalOp

/-- Allocates the shares, the leader's private to it and the follower's blind to it, or the
other way. -/
def allocShares (role : Role) : LocalOp (Ref × Ref × Ref × Ref) :=
  match role with
  | .leader => do
      let shareA0 ← allocPrivate
      let shareB0 ← allocBlind
      let shareA1 ← allocPrivate
      let shareB1 ← allocBlind
      return (shareA0, shareB0, shareA1, shareB1)
  | .follower => do
      let shareA0 ← allocBlind
      let shareB0 ← allocPrivate
      let shareA1 ← allocBlind
      let shareB1 ← allocPrivate
      return (shareA0, shareB0, shareA1, shareB1)

def alloc : LocalOp Ref := do
  match ← take with
  | .initialized =>
      let (shareA0, shareB0, shareA1, shareB1) ← allocShares (← get).ke.role
      let pms0 ← allocArray
      let pms1 ← allocArray
      let eq ← allocArray
      issue (.call shareA0 shareB0 shareA1 shareB1 pms0 pms1 eq)
      setState (.setup ⟨shareA0, shareB0, shareA1, shareB1, eq⟩)
      return pms0
  | _ => fail (.state "should be in Initialized state")

def setServerKey (serverKey : PublicKey) : LocalOp Unit :=
  modify fun s => { s with ke := { s.ke with serverKey := some serverKey } }

def serverKey (s : PartyState) : Option PublicKey := s.ke.serverKey

/-- The client's public key: the sum of those of the parties. -/
def clientKey : LocalOp PublicKey := do
  let s ← get
  match s.ke.role, s.ke.state with
  | .follower, _ => fail (.role "follower does not learn client key")
  | .leader, .followerKey followerKey _ =>
      Fault.lift (fromAffine (s.ke.privateKey.publicKey + followerKey))
  | .leader, _ =>
      fail (.state "leader should be in FollowerKey state for returning the client key")

/-- The follower sends its key, and the leader waits for it. -/
def getFollowerKey : Exchange PartyState PublicKey := do
  let s ← Interactive.alone get
  match s.ke.role with
  | .leader =>
      match ← Interactive.query .expectNext with
      | .key key => return key
      | .failed text => Interactive.alone (fail (.io text))
      | _ => Interactive.alone (throw .panic)
  | .follower =>
      match ← Interactive.query (.send s.ke.privateKey.publicKey) with
      | .sent => return s.ke.privateKey.publicKey
      | .failed text => Interactive.alone (fail (.io text))
      | _ => Interactive.alone (throw .panic)

def setup : Exchange PartyState Unit := do
  match ← Interactive.alone take with
  | .setup slots =>
      let key ← getFollowerKey
      Interactive.alone (setState (.followerKey key slots))
  | _ => Interactive.alone (fail (.state "should be in setup state"))

/-- Computes the leader's/follower's share of the pre-master secret, twice. -/
def computeEcShares (role : Role) (privateKey : SecretKey) (serverKey : PublicKey) :
    Exchange PartyState (P256 × P256) := do
  let sharedSecret ← Exchange.ofExcept (fromAffine (privateKey.val • serverKey))
  let encodedPoint := EncodedPoint.ofPoint sharedSecret
  let pmsShare0 ← deriveXCoordShare role .converter0 encodedPoint
  let pmsShare1 ← deriveXCoordShare role .converter1 encodedPoint
  return (pmsShare0, pmsShare1)

def computeShares : Exchange PartyState Unit := do
  match ← Interactive.alone take with
  | .followerKey _ slots =>
      let s ← Interactive.alone get
      match s.ke.serverKey with
      | none => Interactive.alone (fail (.role "server key is not set"))
      | some serverKey => do
          let (pms0, pms1) ← computeEcShares s.ke.role s.ke.privateKey serverKey
          Interactive.alone (setState (.computedEcShares slots pms0 pms1))
  | _ => Interactive.alone (fail (.state "cannot compute shares before performing setup"))

/-- A party's own shares are assigned, then those of the other are committed. -/
def assignShares (own0 own1 other0 other1 : Ref) (share0 share1 : Bytes32) : LocalOp Unit := do
  issue (.assign own0 share0)
  issue (.commit own0)
  issue (.assign own1 share1)
  issue (.commit own1)
  issue (.commit other0)
  issue (.commit other1)

def assign : LocalOp Unit := do
  match ← take with
  | .computedEcShares slots pms0 pms1 =>
      match toArray pms0.toBeBytes, toArray pms1.toBeBytes with
      | some share0, some share1 =>
          match (← get).ke.role with
          | .leader =>
              assignShares slots.shareA0 slots.shareA1 slots.shareB0 slots.shareB1 share0 share1
          | .follower =>
              assignShares slots.shareB0 slots.shareB1 slots.shareA0 slots.shareA1 share0 share1
          issue (.decode slots.eq)
          setState (.equalityCheck slots.eq)
      | _, _ => throw .panic
  | _ => fail (.state "should be in ComputedECShares state to compute pms")

/-- Finalizes, with what is decoded. -/
def finalize (decoded : Ref → Except String Bytes32) : LocalOp Unit := do
  match ← take with
  | .equalityCheck eq =>
      match decoded eq with
      | .error text => fail (.vm text)
      | .ok eq =>
          if eq ≠ zero32 then fail (.shareConversion "PMS values not equal")
          else setState .complete
  | _ => fail (.state "can not finalize before PMS is computed")

end Tlsn.KeyExchange

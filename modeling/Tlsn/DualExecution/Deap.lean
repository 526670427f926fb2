import Tlsn.DualExecution.Vm
import Tlsn.Library.Interaction

/-!
The dual-execution virtual machine. Either party runs everything in two machines: the MPC
machine, in which the inputs of both are private, and the ZK machine, in which those of the
leader are. The private inputs of the follower are left open in the ZK machine until the end;
then they are revealed, and the follower compares what the machines give out.
-/

namespace Tlsn.DualExecution

open Tlsn.Cipher (Slice Visibility)

inductive Role where
  | leader
  | follower
deriving DecidableEq

structure Deap where
  role : Role
  mpc : IdealVm
  zk : IdealVm
  /-- Private inputs of the follower. -/
  followerInputs : RangeSet
  outputs : List Slice
  /-- Whether the memories of the two VMs are potentially desynchronized. -/
  desync : Bool

abbrev Op (α : Type) := EStateM (Fault VmError) Deap α

/-- What a party has of the machine after it was executed: the futures of what it decodes, and
the values it knows. -/
structure Executed where
  tryRecv : Slice → Except String (Option (List Bool))
  known : Slice → Option (List Bool)

inductive Query where
  | executeMpc (vm : IdealVm)
  | executeZk (vm : IdealVm)

inductive Reply where
  | executed (executed : Executed)
  | failed (e : VmError)

abbrev Finalization (α : Type) := Interactive Query Reply (Fault VmError) Deap α

namespace Deap

def new (role : Role) (mpc zk : IdealVm) : Deap := ⟨role, mpc, zk, .empty, [], false⟩

def onZk {α : Type} (x : VmM α) : Op α := Fault.zoom Deap.zk (fun zk s => { s with zk := zk }) x

def onMpc {α : Type} (x : VmM α) : Op α :=
  Fault.zoom Deap.mpc (fun mpc s => { s with mpc := mpc }) x

def desynchronized : Fault VmError :=
  .err (.memory "DEAP VM memories are potentially desynchronized")

/-- Hands out the ZK VM. -/
def withZk {α : Type} (x : VmM α) : Op α := do
  modify fun s => { s with desync := true }
  onZk x

/-! ## Memory -/

def allocRaw (size : Nat) : Op Slice := do
  if (← get).desync then throw desynchronized
  else
    let _ ← onZk (IdealVm.allocRaw size)
    onMpc (IdealVm.allocRaw size)

def assignRaw (s : Slice) (data : List Bool) : Op Unit := do
  onZk (IdealVm.assignRaw s data)
  onMpc (IdealVm.assignRaw s data)

/-- Commits, in the ZK VM, the runs of positions one by one. -/
def commitRanges (ranges : List PosRange) : VmM Unit :=
  ranges.forM fun input => IdealVm.commitRaw (fromRange input)

/-- The follower's private inputs are not committed in the ZK VM until finalization. -/
def commitRaw (s : Slice) : Op Unit := do
  let inputMinusFollower := (RangeSet.ofRange (toRange s)).difference (← get).followerInputs
  onZk (commitRanges inputMinusFollower.iterRanges)
  onMpc (IdealVm.commitRaw s)

def getRaw (known : Slice → Option (List Bool)) (s : Slice) : Op (Option (List Bool)) :=
  onMpc (IdealVm.getRaw known s)

def decodeRaw (s : Slice) : Op Unit := do
  onZk (IdealVm.decodeRaw s)
  modify fun d => { d with outputs := d.outputs ++ [s] }
  onMpc (IdealVm.decodeRaw s)

/-! ## View -/

def addFollowerInputs (s : Slice) : Op Unit :=
  modify fun d => { d with followerInputs := d.followerInputs.union (.ofRange (toRange s)) }

def markPublicRaw (s : Slice) : Op Unit := do
  onZk (IdealVm.markRaw .isPublic s)
  onMpc (IdealVm.markRaw .isPublic s)

def markPrivateRaw (s : Slice) : Op Unit := do
  match (← get).role with
  | .leader =>
      onZk (IdealVm.markRaw .isPrivate s)
      onMpc (IdealVm.markRaw .isPrivate s)
  | .follower =>
      -- They will become public during finalization.
      onZk (IdealVm.markRaw .isPublic s)
      onMpc (IdealVm.markRaw .isPrivate s)
      addFollowerInputs s

def markBlindRaw (s : Slice) : Op Unit := do
  match (← get).role with
  | .leader =>
      onZk (IdealVm.markRaw .isPublic s)
      onMpc (IdealVm.markRaw .isBlind s)
      addFollowerInputs s
  | .follower =>
      onZk (IdealVm.markRaw .isBlind s)
      onMpc (IdealVm.markRaw .isBlind s)

/-! ## Calls -/

def callRaw (call : Call) : Op Slice := do
  if (← get).desync then throw desynchronized
  else
    let _ ← onZk (IdealVm.callRaw call)
    onMpc (IdealVm.callRaw call)

/-- Only the MPC VM is executed until finalization. The machine is ideal: what it computes is
known from what it is given. -/
def execute : Op Unit := onMpc (return ())

/-! ## Finalization -/

/-- The inputs of the follower are decoded in the MPC VM. -/
def decodeRanges (ranges : List PosRange) : VmM Unit :=
  ranges.forM fun input => IdealVm.decodeRaw (fromRange input)

/-- Assigns an input to the ZK VM. The follower has already assigned it. -/
def openInput (role : Role) (mpc : Executed) (input : PosRange) : VmM Unit := do
  match role with
  | .leader =>
      match mpc.tryRecv (fromRange input) with
      | .error text => throw (.err (.memory text))
      | .ok none => throw .panic
      | .ok (some value) => IdealVm.assignRaw (fromRange input) value
  | .follower => pure ()
  IdealVm.commitRaw (fromRange input)

def openInputs (role : Role) (mpc : Executed) (ranges : List PosRange) : VmM Unit :=
  ranges.forM (openInput role mpc)

def equalityCheck : Fault VmError := .err (.execute "equality check failed")

/-- An output which is not available in the MPC VM was not executed and decoded, and need not
be checked. -/
def checkOutput (mpc zk : Executed) (output : Slice) : Op Unit := do
  match ← onMpc (IdealVm.getRaw mpc.known output) with
  | none => return ()
  | some mpcOutput =>
      match zk.tryRecv output with
      | .error text => throw (.err (.memory text))
      | .ok none => throw .panic
      | .ok (some zkOutput) => if zkOutput = mpcOutput then return () else throw equalityCheck

/-- The follower verifies that the outputs are consistent. -/
def checkOutputs (mpc zk : Executed) : Op Unit := do
  let s ← get
  match s.role with
  | .leader => return ()
  | .follower =>
      set { s with outputs := [] }
      s.outputs.forM (checkOutput mpc zk)

/-- What follows when the inputs are decoded. -/
def openAndCheck (role : Role) (ranges : List PosRange) (mpc : Executed) : Finalization Unit := do
  Interactive.alone (onZk (openInputs role mpc ranges))
  let opened ← Interactive.alone get
  match ← Interactive.query (.executeZk opened.zk) with
  | .failed e => Interactive.alone (throw (.err (.executeOf e)))
  | .executed zk => Interactive.alone (checkOutputs mpc zk)

def finalize : Finalization Unit := do
  let s ← Interactive.alone get
  let ranges := s.followerInputs.iterRanges
  Interactive.alone (onMpc (decodeRanges ranges))
  let decoding ← Interactive.alone get
  match ← Interactive.query (.executeMpc decoding.mpc) with
  | .failed e => Interactive.alone (throw (.err e))
  | .executed mpc => openAndCheck s.role ranges mpc

end Deap

end Tlsn.DualExecution

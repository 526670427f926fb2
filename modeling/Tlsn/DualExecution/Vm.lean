import Tlsn.Cipher.Vm
import Tlsn.Library.RangeSet

/-!
A virtual machine as one of its two parties sees it, over bits. The machine is ideal. A bit is
an input, if it is marked, or the output of a call; it is marked once. An input is assigned by
whom it is not blind to, until it is committed. What the calls compute is determined by the
committed inputs of both parties.
-/

namespace Tlsn.DualExecution

open Tlsn.Cipher (Slice Visibility)

/-- `Slice::to_range` -/
def toRange (s : Slice) : PosRange := ⟨s.ptr, s.stop⟩

/-- `Slice::from_range_unchecked` -/
def fromRange (r : PosRange) : Slice := ⟨r.start, r.len⟩

def positions (s : Slice) : List Nat := (toRange s).vals

theorem mem_positions {s : Slice} {i : Nat} : i ∈ positions s ↔ s.ptr ≤ i ∧ i < s.stop := by
  simp only [positions, PosRange.vals, PosRange.len, toRange, Slice.stop, List.mem_range'_1]
  omega

theorem positions_fromRange (r : PosRange) : positions (fromRange r) = r.vals := by
  simp only [positions, PosRange.vals, PosRange.len, toRange, fromRange, Slice.stop]
  congr 1
  omega

/-- A circuit, with the arguments it is called on. -/
structure Call where
  args : List Slice
  outputLen : Nat
  eval : List (List Bool) → List Bool

/-- What a bit is used for. -/
inductive BitUse where
  | unused
  | input (visibility : Visibility)
  | output
deriving DecidableEq

structure Cell where
  use : BitUse
  value : Option Bool
  committed : Bool
deriving DecidableEq

namespace Cell

def fresh : Cell := ⟨.unused, none, false⟩

/-- An input which this party may assign. -/
def assignable (c : Cell) : Bool :=
  (c.use = .input .isPublic || c.use = .input .isPrivate) && !c.committed

/-- An input which may be committed: it is blind, or assigned. -/
def committable (c : Cell) : Bool :=
  match c.use with
  | .input .isBlind => true
  | .input _ => c.value.isSome
  | _ => false

end Cell

structure IdealVm where
  next : Nat
  cell : Nat → Cell
  calls : List (Call × Slice)
  decodes : List Slice

/-- An error of the machine. The execution of one may fail with that of another. -/
inductive VmError where
  | memory (text : String)
  | view (text : String)
  | execute (text : String)
  | executeOf (e : VmError)
deriving DecidableEq

abbrev VmM (α : Type) := EStateM (Fault VmError) IdealVm α

namespace IdealVm

def new (next : Nat) : IdealVm := ⟨next, fun _ => .fresh, [], []⟩

/-- The cells of a slice, changed. -/
def update (vm : IdealVm) (s : Slice) (f : Nat → Cell → Cell) : IdealVm :=
  { vm with cell := fun i => if i ∈ positions s then f i (vm.cell i) else vm.cell i }

def require (check : IdealVm → Bool) (e : VmError) : VmM Unit := do
  if check (← get) then return () else throw (.err e)

def inBounds (s : Slice) (vm : IdealVm) : Bool := s.stop ≤ vm.next

def all (s : Slice) (check : Cell → Bool) (vm : IdealVm) : Bool :=
  (positions s).all fun i => check (vm.cell i)

def outOfBounds : VmError := .memory "slice is out of bounds"

def allocRaw (size : Nat) : VmM Slice := do
  let vm ← get
  set { vm with next := vm.next + size }
  return ⟨vm.next, size⟩

def markRaw (visibility : Visibility) (s : Slice) : VmM Unit := do
  require (inBounds s) outOfBounds
  require (all s fun c => c.use = .unused) (.view "visibility is already set")
  modify fun vm => vm.update s fun _ c => { c with use := .input visibility }

def assignRaw (s : Slice) (data : List Bool) : VmM Unit := do
  require (inBounds s) outOfBounds
  require (fun _ => data.length = s.len) (.memory "data has the wrong length")
  require (all s Cell.assignable) (.memory "slice can not be assigned")
  modify fun vm => vm.update s fun i c => { c with value := data[i - s.ptr]? }

def commitRaw (s : Slice) : VmM Unit := do
  require (inBounds s) outOfBounds
  require (all s Cell.committable) (.memory "slice can not be committed")
  modify fun vm => vm.update s fun _ c => { c with committed := true }

def callRaw (call : Call) : VmM Slice := do
  require (fun vm => call.args.all fun s => inBounds s vm) outOfBounds
  let output ← allocRaw call.outputLen
  modify fun vm => vm.update output fun _ _ => ⟨.output, none, false⟩
  modify fun vm => { vm with calls := vm.calls ++ [(call, output)] }
  return output

def decodeRaw (s : Slice) : VmM Unit := do
  require (inBounds s) outOfBounds
  modify fun vm => { vm with decodes := vm.decodes ++ [s] }

/-- Reads what this party knows. -/
def getRaw (known : Slice → Option (List Bool)) (s : Slice) : VmM (Option (List Bool)) := do
  require (inBounds s) outOfBounds
  return known s

end IdealVm

/-! ## Execution -/

/-- The bits which have a value. -/
abbrev Bits := Nat → Option Bool

namespace Bits

def read (mem : Bits) (s : Slice) : Option (List Bool) := (positions s).mapM mem

def write (mem : Bits) (s : Slice) (bits : List Bool) : Bits :=
  fun i => if i ∈ positions s then bits[i - s.ptr]? else mem i

/-- A call is executed when its arguments have their values. -/
def call (mem : Bits) (c : Call × Slice) : Bits :=
  match c.1.args.mapM mem.read with
  | some inputs => mem.write c.2 (c.1.eval inputs)
  | none => mem

def execute (mem : Bits) (calls : List (Call × Slice)) : Bits := calls.foldl call mem

theorem execute_of_not_mem {calls : List (Call × Slice)} {mem : Bits} {i : Nat}
    (h : ∀ c ∈ calls, i ∉ positions c.2) : mem.execute calls i = mem i := by
  induction calls generalizing mem with
  | nil => rfl
  | cons c calls ih =>
      have hcall : mem.call c i = mem i := by
        unfold call
        cases c.1.args.mapM mem.read with
        | none => rfl
        | some inputs => exact if_neg (h c List.mem_cons_self)
      rw [execute, List.foldl_cons, ← execute, ih fun d hd => h d (List.mem_cons_of_mem _ hd),
        hcall]

theorem read_of_forall {mem : Bits} {s : Slice} {value : Nat → Bool}
    (h : ∀ i ∈ positions s, mem i = some (value i)) :
    mem.read s = some ((positions s).map value) := by
  unfold read
  generalize positions s = l at h
  induction l with
  | nil => rfl
  | cons i l ih =>
      rw [List.mapM_cons, h i List.mem_cons_self, ih fun j hj => h j (List.mem_cons_of_mem _ hj)]
      rfl

end Bits

/-- The inputs which the parties committed. -/
def inputs (vm vm' : IdealVm) : Bits := fun i =>
  if (vm.cell i).committed then ((vm.cell i).value <|> (vm'.cell i).value) else none

/-- The values in the machine of the two parties. -/
def memory (vm vm' : IdealVm) : Bits := (inputs vm vm').execute vm.calls

/-! ## What the operations do -/

namespace IdealVm

variable {vm vm' : IdealVm} {s : Slice}

theorem require_ok_iff {check : IdealVm → Bool} {e : VmError} :
    require check e vm = .ok () vm' ↔ check vm = true ∧ vm' = vm := by
  unfold require
  rw [Fault.get_bind]
  by_cases h : check vm = true
  · rw [if_pos h]
    constructor
    · intro hok
      cases hok
      exact ⟨h, rfl⟩
    · rintro ⟨-, rfl⟩
      rfl
  · rw [if_neg h]
    constructor
    · intro hok
      cases hok
    · intro hok
      exact absurd hok.1 h

theorem inBounds_iff : inBounds s vm = true ↔ s.stop ≤ vm.next := decide_eq_true_iff

theorem all_iff {check : Cell → Bool} :
    all s check vm = true ↔ ∀ i ∈ positions s, check (vm.cell i) = true := List.all_eq_true

theorem allocRaw_ok_iff {size : Nat} {output : Slice} :
    allocRaw size vm = .ok output vm' ↔
      output = ⟨vm.next, size⟩ ∧ vm' = { vm with next := vm.next + size } := by
  constructor
  · intro h
    cases h
    exact ⟨rfl, rfl⟩
  · rintro ⟨rfl, rfl⟩
    rfl

/-- A check, and what follows it. -/
theorem require_bind_ok_iff {α : Type} {check : IdealVm → Bool} {e : VmError} {x : VmM α} {a : α} :
    (require check e >>= fun _ => x) vm = .ok a vm' ↔ check vm = true ∧ x vm = .ok a vm' := by
  rw [Fault.run_bind_ok_iff]
  constructor
  · rintro ⟨⟨⟩, vm₁, hrequire, hx⟩
    obtain ⟨hcheck, rfl⟩ := require_ok_iff.mp hrequire
    exact ⟨hcheck, hx⟩
  · rintro ⟨hcheck, hx⟩
    exact ⟨(), vm, require_ok_iff.mpr ⟨hcheck, rfl⟩, hx⟩

theorem modify_ok_iff {f : IdealVm → IdealVm} :
    (modify f : VmM Unit) vm = .ok () vm' ↔ vm' = f vm := by
  constructor
  · intro h
    cases h
    rfl
  · rintro rfl
    rfl

theorem markRaw_ok_iff {visibility : Visibility} :
    markRaw visibility s vm = .ok () vm' ↔
      s.stop ≤ vm.next ∧ (∀ i ∈ positions s, (vm.cell i).use = .unused) ∧
        vm' = vm.update s fun _ c => { c with use := .input visibility } := by
  unfold markRaw
  rw [require_bind_ok_iff, require_bind_ok_iff, modify_ok_iff, inBounds_iff, all_iff]
  simp only [decide_eq_true_eq]

theorem assignRaw_ok_iff {data : List Bool} :
    assignRaw s data vm = .ok () vm' ↔
      s.stop ≤ vm.next ∧ data.length = s.len ∧
        (∀ i ∈ positions s, (vm.cell i).assignable = true) ∧
          vm' = vm.update s fun i c => { c with value := data[i - s.ptr]? } := by
  unfold assignRaw
  rw [require_bind_ok_iff, require_bind_ok_iff, require_bind_ok_iff, modify_ok_iff, inBounds_iff,
    all_iff]
  simp only [decide_eq_true_eq]

theorem commitRaw_ok_iff :
    commitRaw s vm = .ok () vm' ↔
      s.stop ≤ vm.next ∧ (∀ i ∈ positions s, (vm.cell i).committable = true) ∧
        vm' = vm.update s fun _ c => { c with committed := true } := by
  unfold commitRaw
  rw [require_bind_ok_iff, require_bind_ok_iff, modify_ok_iff, inBounds_iff, all_iff]

/-- The outputs of a call are allocated at the end. -/
def called (vm : IdealVm) (c : Call) : IdealVm :=
  let output : Slice := ⟨vm.next, c.outputLen⟩
  { vm.update output (fun _ _ => ⟨.output, none, false⟩) with
    next := vm.next + c.outputLen
    calls := vm.calls ++ [(c, output)] }

theorem called_cell {c : Call} {i : Nat} : (vm.called c).cell i =
    if i ∈ positions ⟨vm.next, c.outputLen⟩ then ⟨.output, none, false⟩ else vm.cell i := rfl

theorem callRaw_ok_iff {c : Call} {output : Slice} :
    callRaw c vm = .ok output vm' ↔
      (∀ arg ∈ c.args, arg.stop ≤ vm.next) ∧ output = ⟨vm.next, c.outputLen⟩ ∧
        vm' = vm.called c := by
  unfold callRaw
  rw [require_bind_ok_iff, List.all_eq_true]
  simp only [inBounds_iff]
  refine and_congr_right fun _ => ?_
  constructor
  · intro h
    cases h
    exact ⟨rfl, rfl⟩
  · rintro ⟨rfl, rfl⟩
    rfl

theorem decodeRaw_ok_iff :
    decodeRaw s vm = .ok () vm' ↔
      s.stop ≤ vm.next ∧ vm' = { vm with decodes := vm.decodes ++ [s] } := by
  unfold decodeRaw
  rw [require_bind_ok_iff, modify_ok_iff, inBounds_iff]

end IdealVm

end Tlsn.DualExecution

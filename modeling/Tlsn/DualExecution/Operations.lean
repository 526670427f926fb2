import Tlsn.DualExecution.Deap

/-!
What the operations which return have done, in one machine and in both.
-/

namespace Tlsn.DualExecution

open Tlsn.Cipher (Slice Visibility)

/-! ## One machine -/

namespace Cell

/-- A value is given to an input which is not blind; what is committed could be. -/
structure WellFormed (c : Cell) : Prop where
  unset : c.use = .unused ∨ c.use = .input .isBlind → c.value = none
  committed : c.committed = true → c.committable = true

namespace WellFormed

variable {c : Cell}

theorem not_committed (h : c.WellFormed) (huse : c.use = .unused ∨ c.use = .output) :
    c.committed = false := by
  apply Bool.eq_false_iff.mpr
  intro hcommitted
  have hcommittable := h.committed hcommitted
  unfold committable at hcommittable
  cases huse with
  | inl huse => simp [huse] at hcommittable
  | inr huse => simp [huse] at hcommittable

theorem mark (h : c.WellFormed) (huse : c.use = .unused) (visibility : Visibility) :
    WellFormed { c with use := .input visibility } where
  unset _ := h.unset (.inl huse)
  committed hcommitted := by
    rw [h.not_committed (.inl huse)] at hcommitted
    cases hcommitted

theorem assign (h : c.assignable = true) (value : Option Bool) :
    WellFormed { c with value := value } := by
  unfold assignable at h
  simp only [Bool.and_eq_true, Bool.or_eq_true, decide_eq_true_eq, Bool.not_eq_true'] at h
  constructor
  · intro huse
    have huse' : c.use = .unused ∨ c.use = .input .isBlind := huse
    rcases huse' with huse' | huse' <;> simp [huse'] at h
  · intro hcommitted
    rw [h.2] at hcommitted
    cases hcommitted

theorem commit (h : c.WellFormed) (hcommittable : c.committable = true) :
    WellFormed { c with committed := true } := ⟨h.unset, fun _ => hcommittable⟩

theorem fresh : Cell.fresh.WellFormed := ⟨fun _ => rfl, fun h => nomatch h⟩

theorem output : WellFormed ⟨.output, none, false⟩ := ⟨fun _ => rfl, fun h => nomatch h⟩

end WellFormed

end Cell

namespace IdealVm

variable {vm vm' : IdealVm} {s : Slice}

theorem update_of_mem {f : Nat → Cell → Cell} {i : Nat} (h : i ∈ positions s) :
    (vm.update s f).cell i = f i (vm.cell i) := if_pos h

theorem update_of_not_mem {f : Nat → Cell → Cell} {i : Nat} (h : i ∉ positions s) :
    (vm.update s f).cell i = vm.cell i := if_neg h

structure WellFormed (vm : IdealVm) : Prop where
  cells : ∀ i, (vm.cell i).WellFormed
  outputs : ∀ c ∈ vm.calls, ∀ i ∈ positions c.2, (vm.cell i).use = .output

namespace WellFormed

theorem new (next : Nat) : (IdealVm.new next).WellFormed :=
  ⟨fun _ => .fresh, fun _ hc => nomatch hc⟩

/-- A change of cells which does not touch the outputs. -/
theorem update (h : vm.WellFormed) {f : Nat → Cell → Cell}
    (hcells : ∀ i ∈ positions s, (f i (vm.cell i)).WellFormed)
    (houtputs : ∀ i ∈ positions s, (vm.cell i).use = .output →
      (f i (vm.cell i)).use = .output) : (vm.update s f).WellFormed := by
  constructor
  · intro i
    by_cases hi : i ∈ positions s
    · rw [update_of_mem hi]
      exact hcells i hi
    · rw [update_of_not_mem hi]
      exact h.cells i
  · intro c hc i hi
    have huse := h.outputs c hc i hi
    by_cases his : i ∈ positions s
    · rw [update_of_mem his]
      exact houtputs i his huse
    · rw [update_of_not_mem his]
      exact huse

theorem markRaw (h : vm.WellFormed) (hunused : ∀ i ∈ positions s, (vm.cell i).use = .unused)
    (visibility : Visibility) :
    (vm.update s fun _ c => { c with use := .input visibility }).WellFormed := by
  refine h.update (fun i hi => (h.cells i).mark (hunused i hi) visibility) ?_
  intro i hi huse
  rw [hunused i hi] at huse
  cases huse

theorem assignRaw (h : vm.WellFormed)
    (hassignable : ∀ i ∈ positions s, (vm.cell i).assignable = true)
    (value : Nat → Option Bool) :
    (vm.update s fun i c => { c with value := value i }).WellFormed :=
  h.update (fun i hi => .assign (hassignable i hi) _) fun _ _ huse => huse

theorem commitRaw (h : vm.WellFormed)
    (hcommittable : ∀ i ∈ positions s, (vm.cell i).committable = true) :
    (vm.update s fun _ c => { c with committed := true }).WellFormed :=
  h.update (fun i hi => (h.cells i).commit (hcommittable i hi)) fun _ _ huse => huse

theorem called (h : vm.WellFormed) (c : Call) : (vm.called c).WellFormed := by
  constructor
  · intro i
    rw [called_cell]
    split
    · exact .output
    · exact h.cells i
  · intro d hd i hi
    rw [called_cell]
    split
    · rfl
    · cases List.mem_append.mp hd with
      | inl hd => exact h.outputs d hd i hi
      | inr hd =>
          obtain rfl := List.mem_singleton.mp hd
          contradiction

end WellFormed

end IdealVm

namespace IdealVm

/-- When the operation fails, the machine is as it was. -/
def Restores {α : Type} (x : VmM α) : Prop :=
  ∀ vm e vm', x vm = .error e vm' → vm' = vm

namespace Restores

variable {s : Slice}

theorem require_bind {α : Type} {check : IdealVm → Bool} {e : VmError} {x : VmM α}
    (hx : Restores x) : Restores (require check e >>= fun _ => x) := by
  intro vm e' vm' h
  cases Fault.run_bind_error_iff.mp h with
  | inl h =>
      unfold require at h
      rw [Fault.get_bind] at h
      split at h
      · cases h
      · cases h
        rfl
  | inr h =>
      obtain ⟨⟨⟩, vm₁, hrequire, hrest⟩ := h
      obtain ⟨-, rfl⟩ := require_ok_iff.mp hrequire
      exact hx vm₁ e' vm' hrest

theorem modify (f : IdealVm → IdealVm) : Restores (modify f : VmM Unit) := by
  intro vm e vm' h
  cases h

theorem allocRaw (size : Nat) : Restores (IdealVm.allocRaw size) := by
  intro vm e vm' h
  cases h

theorem markRaw (v : Visibility) : Restores (IdealVm.markRaw v s) :=
  require_bind (require_bind (modify _))

theorem assignRaw (data : List Bool) : Restores (IdealVm.assignRaw s data) :=
  require_bind (require_bind (require_bind (modify _)))

theorem commitRaw : Restores (IdealVm.commitRaw s) :=
  require_bind (require_bind (modify _))

theorem callRaw (c : Call) : Restores (IdealVm.callRaw c) := by
  refine require_bind ?_
  intro vm e vm' h
  cases h

theorem decodeRaw : Restores (IdealVm.decodeRaw s) := require_bind (modify _)

end Restores

end IdealVm

/-! ## What the operations do -/

namespace Deap

open IdealVm

variable {d d' : Deap} {s : Slice}

theorem onZk_ok_iff {α : Type} {x : VmM α} {a : α} :
    onZk x d = .ok a d' ↔ ∃ zk, x d.zk = .ok a zk ∧ d' = { d with zk := zk } := Fault.zoom_ok_iff

theorem onMpc_ok_iff {α : Type} {x : VmM α} {a : α} :
    onMpc x d = .ok a d' ↔ ∃ mpc, x d.mpc = .ok a mpc ∧ d' = { d with mpc := mpc } :=
  Fault.zoom_ok_iff

theorem onZk_error_iff {α : Type} {x : VmM α} {e : Fault VmError} :
    onZk x d = .error e d' ↔ ∃ zk, x d.zk = .error e zk ∧ d' = { d with zk := zk } :=
  Fault.zoom_error_iff

theorem onMpc_error_iff {α : Type} {x : VmM α} {e : Fault VmError} :
    onMpc x d = .error e d' ↔ ∃ mpc, x d.mpc = .error e mpc ∧ d' = { d with mpc := mpc } :=
  Fault.zoom_error_iff

/-- An operation in both machines. -/
theorem both_ok_iff {α β : Type} {x : VmM α} {y : VmM β} {b : β} :
    (onZk x >>= fun _ => onMpc y) d = .ok b d' ↔
      ∃ a zk mpc, x d.zk = .ok a zk ∧ y d.mpc = .ok b mpc ∧
        d' = { d with zk := zk, mpc := mpc } := by
  rw [Fault.run_bind_ok_iff]
  constructor
  · rintro ⟨a, d₁, hx, hy⟩
    obtain ⟨zk, hzk, rfl⟩ := onZk_ok_iff.mp hx
    obtain ⟨mpc, hmpc, rfl⟩ := onMpc_ok_iff.mp hy
    exact ⟨a, zk, mpc, hzk, hmpc, rfl⟩
  · rintro ⟨a, zk, mpc, hx, hy, rfl⟩
    exact ⟨a, _, onZk_ok_iff.mpr ⟨zk, hx, rfl⟩, onMpc_ok_iff.mpr ⟨mpc, hy, rfl⟩⟩

/-- It fails in the ZK machine, or after it in the MPC machine. -/
theorem both_error {α β : Type} {x : VmM α} {y : VmM β} {e : Fault VmError} (hy : Restores y)
    (h : (onZk x >>= fun _ => onMpc y) d = .error e d') :
    (∃ zk, x d.zk = .error e zk ∧ d' = { d with zk := zk }) ∨
      ∃ a zk, x d.zk = .ok a zk ∧ y d.mpc = .error e d.mpc ∧ d' = { d with zk := zk } := by
  cases Fault.run_bind_error_iff.mp h with
  | inl h => exact .inl (onZk_error_iff.mp h)
  | inr h =>
      obtain ⟨a, d₁, hx, h⟩ := h
      obtain ⟨zk, hzk, rfl⟩ := onZk_ok_iff.mp hx
      obtain ⟨mpc, hmpc, rfl⟩ := onMpc_error_iff.mp h
      obtain rfl := hy _ _ _ hmpc
      exact .inr ⟨a, zk, hzk, hmpc, rfl⟩

/-- Where the MPC machine does what the ZK machine does, a failure leaves both. -/
theorem both_restores {α β : Type} {x : VmM α} {y : VmM β} {e : Fault VmError} (hx : Restores x)
    (hy : Restores y) (hboth : ∀ a zk, x d.zk = .ok a zk → ∃ b mpc, y d.mpc = .ok b mpc)
    (h : (onZk x >>= fun _ => onMpc y) d = .error e d') : d' = d := by
  cases both_error hy h with
  | inl h =>
      obtain ⟨zk, hzk, rfl⟩ := h
      rw [hx _ _ _ hzk]
  | inr h =>
      obtain ⟨a, zk, hzk, hmpc, -⟩ := h
      obtain ⟨b, mpc, hok⟩ := hboth a zk hzk
      cases hmpc.symm.trans hok

/-- Some cells of these runs of positions are committed. -/
structure Committing (ranges : List PosRange) (vm vm' : IdealVm) : Prop where
  next : vm'.next = vm.next
  calls : vm'.calls = vm.calls
  decodes : vm'.decodes = vm.decodes
  wellFormed : vm.WellFormed → vm'.WellFormed
  uses : ∀ i, (vm'.cell i).use = (vm.cell i).use
  others : ∀ i, i ∉ ranges.flatMap PosRange.vals → vm'.cell i = vm.cell i

namespace Committing

theorem refl (ranges : List PosRange) (vm : IdealVm) : Committing ranges vm vm :=
  ⟨rfl, rfl, rfl, id, fun _ => rfl, fun _ _ => rfl⟩

theorem head {r : PosRange} {ranges : List PosRange} {vm vm₁ vm' : IdealVm}
    (hcommit : IdealVm.commitRaw (fromRange r) vm = .ok () vm₁) (h : Committing ranges vm₁ vm') :
    Committing (r :: ranges) vm vm' := by
  obtain ⟨-, hcommittable, rfl⟩ := commitRaw_ok_iff.mp hcommit
  refine ⟨h.next, h.calls, h.decodes, fun hvm => h.wellFormed (hvm.commitRaw hcommittable),
    fun i => ?_, fun i hi => ?_⟩
  · rw [h.uses i]
    by_cases hr : i ∈ positions (fromRange r)
    · rw [update_of_mem hr]
    · rw [update_of_not_mem hr]
  · rw [List.flatMap_cons, List.mem_append, not_or] at hi
    rw [h.others i hi.2, update_of_not_mem]
    rw [positions_fromRange]
    exact hi.1

theorem of_ok {ranges : List PosRange} {vm vm' : IdealVm}
    (h : commitRanges ranges vm = .ok () vm') : Committing ranges vm vm' := by
  induction ranges generalizing vm with
  | nil =>
      cases h
      exact refl [] _
  | cons r ranges ih =>
      obtain ⟨⟨⟩, vm₁, hcommit, hrest⟩ := Fault.run_bind_ok_iff.mp h
      exact head hcommit (ih hrest)

/-- Also when the machine refuses one of them. -/
theorem of_error {ranges : List PosRange} {vm vm' : IdealVm} {e : Fault VmError}
    (h : commitRanges ranges vm = .error e vm') : Committing ranges vm vm' := by
  induction ranges generalizing vm with
  | nil => cases h
  | cons r ranges ih =>
      cases Fault.run_bind_error_iff.mp h with
      | inl h =>
          obtain rfl := Restores.commitRaw _ _ _ h
          exact refl _ _
      | inr h =>
          obtain ⟨⟨⟩, vm₁, hcommit, hrest⟩ := h
          exact head hcommit (ih hrest)

end Committing

/-- The cells in these runs of positions are committed. -/
theorem commitRanges_ok {ranges : List PosRange} {vm vm' : IdealVm}
    (h : commitRanges ranges vm = .ok () vm') (i : Nat) :
    vm'.cell i = if i ∈ ranges.flatMap PosRange.vals
      then { vm.cell i with committed := true } else vm.cell i := by
  induction ranges generalizing vm with
  | nil =>
      cases h
      rfl
  | cons r ranges ih =>
      obtain ⟨⟨⟩, vm₁, hcommit, hrest⟩ := Fault.run_bind_ok_iff.mp h
      obtain ⟨-, -, rfl⟩ := commitRaw_ok_iff.mp hcommit
      rw [ih hrest, List.flatMap_cons]
      by_cases hr : i ∈ positions (fromRange r)
      · have hmem : i ∈ r.vals ++ ranges.flatMap PosRange.vals :=
          List.mem_append_left _ (positions_fromRange r ▸ hr)
        rw [update_of_mem hr, if_pos hmem]
        split <;> rfl
      · rw [update_of_not_mem hr]
        rw [positions_fromRange] at hr
        simp only [List.mem_append, hr, false_or]

theorem allocRaw_ok {size : Nat} (h : allocRaw size d = .ok s d') :
    d' = { d with
      zk := { d.zk with next := d.zk.next + size }
      mpc := { d.mpc with next := d.mpc.next + size } } := by
  unfold allocRaw at h
  rw [Fault.get_bind] at h
  split at h
  · cases h
  · obtain ⟨a, zk, mpc, hzk, hmpc, rfl⟩ := both_ok_iff.mp h
    obtain ⟨-, rfl⟩ := IdealVm.allocRaw_ok_iff.mp hzk
    obtain ⟨-, rfl⟩ := IdealVm.allocRaw_ok_iff.mp hmpc
    rfl

theorem mark_ok {v v' : Visibility}
    (h : (onZk (IdealVm.markRaw v s) >>= fun _ => onMpc (IdealVm.markRaw v' s)) d = .ok () d') :
    s.stop ≤ d.mpc.next ∧ (∀ i ∈ positions s, (d.zk.cell i).use = .unused) ∧
      (∀ i ∈ positions s, (d.mpc.cell i).use = .unused) ∧
      d' = { d with
        zk := d.zk.update s fun _ c => { c with use := .input v }
        mpc := d.mpc.update s fun _ c => { c with use := .input v' } } := by
  obtain ⟨a, zk, mpc, hzk, hmpc, rfl⟩ := both_ok_iff.mp h
  obtain ⟨-, hunused, rfl⟩ := IdealVm.markRaw_ok_iff.mp hzk
  obtain ⟨hbounds, hunused', rfl⟩ := IdealVm.markRaw_ok_iff.mp hmpc
  exact ⟨hbounds, hunused, hunused', rfl⟩

theorem assignRaw_ok {data : List Bool} (h : assignRaw s data d = .ok () d') :
    (∀ i ∈ positions s, (d.zk.cell i).assignable = true) ∧
      (∀ i ∈ positions s, (d.mpc.cell i).assignable = true) ∧
      d' = { d with
        zk := d.zk.update s fun i c => { c with value := data[i - s.ptr]? }
        mpc := d.mpc.update s fun i c => { c with value := data[i - s.ptr]? } } := by
  obtain ⟨a, zk, mpc, hzk, hmpc, rfl⟩ := both_ok_iff.mp h
  obtain ⟨-, -, hassignable, rfl⟩ := IdealVm.assignRaw_ok_iff.mp hzk
  obtain ⟨-, -, hassignable', rfl⟩ := IdealVm.assignRaw_ok_iff.mp hmpc
  exact ⟨hassignable, hassignable', rfl⟩

/-- What is to be committed in the ZK machine. -/
def inputMinusFollower (d : Deap) (s : Slice) : RangeSet :=
  (RangeSet.ofRange (toRange s)).difference d.followerInputs

theorem commitRaw_eq : commitRaw s d =
    (onZk (commitRanges (inputMinusFollower d s).iterRanges) >>= fun _ =>
      onMpc (IdealVm.commitRaw s)) d := rfl

theorem mem_inputMinusFollower {i : Nat} :
    i ∈ (inputMinusFollower d s).iterRanges.flatMap PosRange.vals ↔
      i ∈ positions s ∧ i ∉ d.followerInputs := by
  rw [RangeSet.flatMap_iterRanges, ← RangeSet.mem_def, inputMinusFollower, RangeSet.mem_difference,
    RangeSet.mem_ofRange, mem_positions]
  rfl

theorem commitRaw_ok (h : commitRaw s d = .ok () d') :
    (∀ i ∈ positions s, (d.mpc.cell i).committable = true) ∧
      ∃ zk, Committing (inputMinusFollower d s).iterRanges d.zk zk ∧
        (∀ i, zk.cell i = if i ∈ positions s ∧ i ∉ d.followerInputs
          then { d.zk.cell i with committed := true } else d.zk.cell i) ∧
        d' = { d with
          zk := zk
          mpc := d.mpc.update s fun _ c => { c with committed := true } } := by
  rw [commitRaw_eq] at h
  obtain ⟨a, zk, mpc, hzk, hmpc, rfl⟩ := both_ok_iff.mp h
  obtain ⟨-, hcommittable, rfl⟩ := IdealVm.commitRaw_ok_iff.mp hmpc
  refine ⟨hcommittable, zk, .of_ok hzk, ?_, rfl⟩
  intro i
  rw [commitRanges_ok hzk]
  simp only [mem_inputMinusFollower]

theorem callRaw_ok {c : Call} (h : callRaw c d = .ok s d') :
    d' = { d with zk := d.zk.called c, mpc := d.mpc.called c } := by
  unfold callRaw at h
  rw [Fault.get_bind] at h
  split at h
  · cases h
  · obtain ⟨a, zk, mpc, hzk, hmpc, rfl⟩ := both_ok_iff.mp h
    obtain ⟨-, -, rfl⟩ := IdealVm.callRaw_ok_iff.mp hzk
    obtain ⟨-, -, rfl⟩ := IdealVm.callRaw_ok_iff.mp hmpc
    rfl

theorem decodeRaw_ok (h : decodeRaw s d = .ok () d') :
    s.stop ≤ d.mpc.next ∧ d' = { d with
      zk := { d.zk with decodes := d.zk.decodes ++ [s] }
      mpc := { d.mpc with decodes := d.mpc.decodes ++ [s] }
      outputs := d.outputs ++ [s] } := by
  obtain ⟨⟨⟩, d₁, hfirst, hrest⟩ := Fault.run_bind_ok_iff.mp h
  obtain ⟨⟨⟩, d₂, hmodify, hlast⟩ := Fault.run_bind_ok_iff.mp hrest
  obtain ⟨zk, hzk, rfl⟩ := onZk_ok_iff.mp hfirst
  obtain ⟨-, rfl⟩ := IdealVm.decodeRaw_ok_iff.mp hzk
  cases hmodify
  obtain ⟨mpc, hmpc, rfl⟩ := onMpc_ok_iff.mp hlast
  obtain ⟨hbounds, rfl⟩ := IdealVm.decodeRaw_ok_iff.mp hmpc
  exact ⟨hbounds, rfl⟩

end Deap

end Tlsn.DualExecution

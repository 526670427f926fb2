import Tlsn.DualExecution.Operations

/-!
The two machines of a party go along with each other. What an operation that fails may leave
behind are values and commitments in the ZK machine; when it has nothing to do with the inputs
of the follower, it leaves nothing behind.
-/

namespace Tlsn.DualExecution

open Tlsn.Cipher (Slice Visibility)
open IdealVm Deap

/-- What the private inputs of the follower are to a party. -/
def followerVisibility : Role → Visibility
  | .leader => .isBlind
  | .follower => .isPrivate

/-- The machines of a party have the same memory, calls and outputs. What is used is used in the
same way, but that the inputs of the follower are public in the ZK machine, and open. -/
structure Attuned (d : Deap) : Prop where
  mpc : d.mpc.WellFormed
  zk : d.zk.WellFormed
  next : d.zk.next = d.mpc.next
  calls : d.zk.calls = d.mpc.calls
  decodes : d.zk.decodes = d.outputs
  mpcDecodes : d.mpc.decodes = d.outputs
  uses : ∀ i, i ∉ d.followerInputs → (d.zk.cell i).use = (d.mpc.cell i).use
  opened : ∀ i, i ∈ d.followerInputs →
    (d.zk.cell i).use = .input .isPublic ∧ (d.zk.cell i).committed = false
  use : ∀ i, i ∈ d.followerInputs → (d.mpc.cell i).use = .input (followerVisibility d.role)
  bounds : ∀ i, i ∈ d.followerInputs → i < d.mpc.next
  outputs : ∀ s ∈ d.outputs, s.stop ≤ d.mpc.next

/-- The cells are the same too, and the inputs of the follower have the same values. -/
structure Synced (d : Deap) : Prop extends Attuned d where
  outside : ∀ i, i ∉ d.followerInputs → d.zk.cell i = d.mpc.cell i
  values : ∀ i, i ∈ d.followerInputs → (d.zk.cell i).value = (d.mpc.cell i).value

namespace Attuned

variable {d d' : Deap} {s : Slice}

theorem new (role : Role) (next : Nat) : Attuned (.new role (.new next) (.new next)) where
  mpc := .new next
  zk := .new next
  next := rfl
  calls := rfl
  decodes := rfl
  mpcDecodes := rfl
  uses _ _ := rfl
  opened i hi := absurd hi (RangeSet.not_mem_empty i)
  use i hi := absurd hi (RangeSet.not_mem_empty i)
  bounds i hi := absurd hi (RangeSet.not_mem_empty i)
  outputs _ hs := nomatch hs

theorem not_mem_of_unused (h : Attuned d) {i : Nat} (hunused : (d.mpc.cell i).use = .unused) :
    i ∉ d.followerInputs := by
  intro hi
  have huse := h.use i hi
  rw [hunused] at huse
  cases huse

/-- What is unused in the ZK machine is unused in the MPC machine. -/
theorem unused_mpc (h : Attuned d) {i : Nat} (hunused : (d.zk.cell i).use = .unused) :
    (d.mpc.cell i).use = .unused := by
  rw [← h.uses i, hunused]
  intro hi
  have huse := (h.opened i hi).1
  rw [hunused] at huse
  cases huse

/-- The ZK machine is changed in the values of its cells, or in what is committed. -/
theorem changeZk (h : Attuned d) {zk : IdealVm} (hzk : zk.WellFormed)
    (hnext : zk.next = d.zk.next) (hcalls : zk.calls = d.zk.calls)
    (hdecodes : zk.decodes = d.zk.decodes) (huses : ∀ i, (zk.cell i).use = (d.zk.cell i).use)
    (hcommitted : ∀ i ∈ d.followerInputs, (zk.cell i).committed = (d.zk.cell i).committed) :
    Attuned { d with zk := zk } :=
  { h with
    zk := hzk
    next := hnext.trans h.next
    calls := hcalls.trans h.calls
    decodes := hdecodes.trans h.decodes
    uses := fun i hi => (huses i).trans (h.uses i hi)
    opened := fun i hi =>
      ⟨(huses i).trans (h.opened i hi).1, (hcommitted i hi).trans (h.opened i hi).2⟩ }

theorem changeMpc (h : Attuned d) {mpc : IdealVm} (hmpc : mpc.WellFormed)
    (hnext : mpc.next = d.mpc.next) (hcalls : mpc.calls = d.mpc.calls)
    (hdecodes : mpc.decodes = d.mpc.decodes)
    (huses : ∀ i, (mpc.cell i).use = (d.mpc.cell i).use) : Attuned { d with mpc := mpc } :=
  { h with
    mpc := hmpc
    next := h.next.trans hnext.symm
    calls := h.calls.trans hcalls.symm
    mpcDecodes := hdecodes.trans h.mpcDecodes
    uses := fun i hi => (h.uses i hi).trans (huses i).symm
    use := fun i hi => (huses i).trans (h.use i hi)
    bounds := fun i hi => hnext ▸ h.bounds i hi
    outputs := fun t ht => hnext ▸ h.outputs t ht }

theorem assignZk (h : Attuned d) (value : Nat → Option Bool)
    (hassignable : ∀ i ∈ positions s, (d.zk.cell i).assignable = true) :
    Attuned { d with zk := d.zk.update s fun i c => { c with value := value i } } := by
  refine h.changeZk (h.zk.assignRaw hassignable value) rfl rfl rfl (fun i => ?_) fun i _ => ?_
  · by_cases hi : i ∈ positions s
    · rw [update_of_mem hi]
    · rw [update_of_not_mem hi]
  · by_cases hi : i ∈ positions s
    · rw [update_of_mem hi]
    · rw [update_of_not_mem hi]

theorem assignMpc (h : Attuned d) (value : Nat → Option Bool)
    (hassignable : ∀ i ∈ positions s, (d.mpc.cell i).assignable = true) :
    Attuned { d with mpc := d.mpc.update s fun i c => { c with value := value i } } := by
  refine h.changeMpc (h.mpc.assignRaw hassignable value) rfl rfl rfl fun i => ?_
  by_cases hi : i ∈ positions s
  · rw [update_of_mem hi]
  · rw [update_of_not_mem hi]

theorem commitZk (h : Attuned d) {zk : IdealVm}
    (hcommitting : Committing (inputMinusFollower d s).iterRanges d.zk zk) :
    Attuned { d with zk := zk } := by
  refine h.changeZk (hcommitting.wellFormed h.zk) hcommitting.next hcommitting.calls
    hcommitting.decodes hcommitting.uses fun i hi => ?_
  rw [hcommitting.others i]
  intro hmem
  exact (mem_inputMinusFollower.mp hmem).2 hi

theorem commitMpc (h : Attuned d)
    (hcommittable : ∀ i ∈ positions s, (d.mpc.cell i).committable = true) :
    Attuned { d with mpc := d.mpc.update s fun _ c => { c with committed := true } } := by
  refine h.changeMpc (h.mpc.commitRaw hcommittable) rfl rfl rfl fun i => ?_
  by_cases hi : i ∈ positions s
  · rw [update_of_mem hi]
  · rw [update_of_not_mem hi]

/-! ## What returns -/

theorem allocRaw (h : Attuned d) {size : Nat} (hok : Deap.allocRaw size d = .ok s d') :
    Attuned d' := by
  obtain rfl := allocRaw_ok hok
  exact { h with
    mpc := ⟨h.mpc.cells, h.mpc.outputs⟩
    zk := ⟨h.zk.cells, h.zk.outputs⟩
    next := congrArg (· + size) h.next
    bounds := fun i hi => Nat.lt_add_right size (h.bounds i hi)
    outputs := fun t ht => Nat.le_add_right_of_le (h.outputs t ht) }

theorem mark (h : Attuned d) (v : Visibility)
    (hunused : ∀ i ∈ positions s, (d.zk.cell i).use = .unused) :
    Attuned { d with
      zk := d.zk.update s fun _ c => { c with use := .input v }
      mpc := d.mpc.update s fun _ c => { c with use := .input v } } := by
  have hunused' : ∀ i ∈ positions s, (d.mpc.cell i).use = .unused := fun i his =>
    h.unused_mpc (hunused i his)
  have hnot : ∀ i ∈ d.followerInputs, i ∉ positions s := fun i hi his =>
    h.not_mem_of_unused (hunused' i his) hi
  refine { h with
    mpc := h.mpc.markRaw hunused' v
    zk := h.zk.markRaw hunused v
    uses := fun i hi => ?_
    opened := fun i hi => ?_
    use := fun i hi => ?_ }
  · by_cases his : i ∈ positions s
    · rw [update_of_mem his, update_of_mem his]
    · rw [update_of_not_mem his, update_of_not_mem his, h.uses i hi]
  · rw [update_of_not_mem (hnot i hi)]
    exact h.opened i hi
  · rw [update_of_not_mem (hnot i hi)]
    exact h.use i hi

theorem mem_addFollowerInputs {i : Nat} :
    i ∈ d.followerInputs.union (.ofRange (toRange s)) ↔ i ∈ d.followerInputs ∨ i ∈ positions s := by
  rw [RangeSet.mem_union, RangeSet.mem_ofRange, mem_positions]
  rfl

/-- Inputs of the follower are marked. -/
theorem markFollower (h : Attuned d) (hbounds : s.stop ≤ d.mpc.next)
    (hunused : ∀ i ∈ positions s, (d.zk.cell i).use = .unused) :
    Attuned { d with
      zk := d.zk.update s fun _ c => { c with use := .input .isPublic }
      mpc := d.mpc.update s fun _ c => { c with use := .input (followerVisibility d.role) }
      followerInputs := d.followerInputs.union (.ofRange (toRange s)) } := by
  have hunused' : ∀ i ∈ positions s, (d.mpc.cell i).use = .unused := fun i his =>
    h.unused_mpc (hunused i his)
  have hnot : ∀ i ∈ d.followerInputs, i ∉ positions s := fun i hi his =>
    h.not_mem_of_unused (hunused' i his) hi
  refine { h with
    mpc := h.mpc.markRaw hunused' _
    zk := h.zk.markRaw hunused _
    uses := fun i hi => ?_
    opened := fun i hi => ?_
    use := fun i hi => ?_
    bounds := fun i hi => ?_ }
  · rw [mem_addFollowerInputs, not_or] at hi
    rw [update_of_not_mem hi.2, update_of_not_mem hi.2, h.uses i hi.1]
  · cases mem_addFollowerInputs.mp hi with
    | inl hi =>
        rw [update_of_not_mem (hnot i hi)]
        exact h.opened i hi
    | inr his =>
        rw [update_of_mem his]
        exact ⟨rfl, (h.zk.cells i).not_committed (.inl (hunused i his))⟩
  · cases mem_addFollowerInputs.mp hi with
    | inl hi =>
        rw [update_of_not_mem (hnot i hi)]
        exact h.use i hi
    | inr his => rw [update_of_mem his]
  · cases mem_addFollowerInputs.mp hi with
    | inl hi => exact h.bounds i hi
    | inr his => exact Nat.lt_of_lt_of_le (mem_positions.mp his).2 hbounds

theorem assignRaw (h : Attuned d) {data : List Bool}
    (hok : Deap.assignRaw s data d = .ok () d') : Attuned d' := by
  obtain ⟨hassignable, hassignable', rfl⟩ := assignRaw_ok hok
  exact (h.assignZk _ hassignable).assignMpc _ hassignable'

theorem commitRaw (h : Attuned d) (hok : Deap.commitRaw s d = .ok () d') : Attuned d' := by
  obtain ⟨hcommittable, zk, hcommitting, -, rfl⟩ := commitRaw_ok hok
  exact (h.commitZk hcommitting).commitMpc hcommittable

theorem callRaw (h : Attuned d) {c : Call} (hok : Deap.callRaw c d = .ok s d') :
    Attuned d' := by
  obtain rfl := callRaw_ok hok
  have hnot : ∀ i ∈ d.followerInputs, i ∉ positions ⟨d.mpc.next, c.outputLen⟩ := fun i hi his =>
    absurd (h.bounds i hi) (Nat.not_lt.mpr (mem_positions.mp his).1)
  have hcell : ∀ i, (d.zk.called c).cell i =
      if i ∈ positions ⟨d.mpc.next, c.outputLen⟩ then ⟨.output, none, false⟩
      else d.zk.cell i := fun i => h.next ▸ called_cell
  refine { h with
    mpc := h.mpc.called c
    zk := h.zk.called c
    next := congrArg (· + c.outputLen) h.next
    calls := ?_
    uses := fun i hi => ?_
    opened := fun i hi => ?_
    use := fun i hi => ?_
    bounds := fun i hi => Nat.lt_add_right _ (h.bounds i hi)
    outputs := fun t ht => Nat.le_add_right_of_le (h.outputs t ht) }
  · simp only [called, h.next, h.calls]
  · rw [hcell, called_cell]
    split
    · rfl
    · exact h.uses i hi
  · rw [hcell, if_neg (hnot i hi)]
    exact h.opened i hi
  · rw [called_cell, if_neg (hnot i hi)]
    exact h.use i hi

theorem decodeRaw (h : Attuned d) (hok : Deap.decodeRaw s d = .ok () d') : Attuned d' := by
  obtain ⟨hbounds, rfl⟩ := decodeRaw_ok hok
  refine { h with
    mpc := ⟨h.mpc.cells, h.mpc.outputs⟩
    zk := ⟨h.zk.cells, h.zk.outputs⟩
    decodes := congrArg (· ++ [s]) h.decodes
    mpcDecodes := congrArg (· ++ [s]) h.mpcDecodes
    outputs := fun t ht => ?_ }
  cases List.mem_append.mp ht with
  | inl ht => exact h.outputs t ht
  | inr ht => exact List.mem_singleton.mp ht ▸ hbounds

/-! ## What fails -/

variable {e : Fault VmError}

theorem allocRaw_error {size : Nat} (herror : Deap.allocRaw size d = .error e d') : d' = d := by
  unfold Deap.allocRaw at herror
  rw [Fault.get_bind] at herror
  split at herror
  · cases herror
    rfl
  · exact both_restores (.allocRaw size) (.allocRaw size) (fun _ _ _ => ⟨_, _, rfl⟩) herror

/-- The MPC machine marks what the ZK machine marks. -/
theorem markRaw_mpc (h : Attuned d) {v : Visibility} (v' : Visibility) {a : Unit} {zk : IdealVm}
    (hzk : IdealVm.markRaw v s d.zk = .ok a zk) :
    IdealVm.markRaw v' s d.mpc =
      .ok () (d.mpc.update s fun _ c => { c with use := .input v' }) := by
  obtain ⟨hbounds, hunused, -⟩ := IdealVm.markRaw_ok_iff.mp hzk
  refine IdealVm.markRaw_ok_iff.mpr ⟨h.next ▸ hbounds, fun i hi => ?_, rfl⟩
  exact h.unused_mpc (hunused i hi)

theorem mark_error (h : Attuned d) {v v' : Visibility}
    (herror : (onZk (IdealVm.markRaw v s) >>= fun _ => onMpc (IdealVm.markRaw v' s)) d =
      .error e d') : d' = d :=
  both_restores (.markRaw v) (.markRaw v') (fun _ _ hzk => ⟨_, _, h.markRaw_mpc v' hzk⟩) herror

theorem markFollower_error (h : Attuned d) {v : Visibility}
    (herror : (onZk (IdealVm.markRaw .isPublic s) >>= fun _ =>
      onMpc (IdealVm.markRaw v s) >>= fun _ => addFollowerInputs s) d = .error e d') : d' = d := by
  cases Fault.run_bind_error_iff.mp herror with
  | inl herror =>
      obtain ⟨zk, hzk, rfl⟩ := onZk_error_iff.mp herror
      rw [Restores.markRaw _ _ _ _ hzk]
  | inr herror =>
      obtain ⟨⟨⟩, d₁, hfirst, herror⟩ := herror
      obtain ⟨zk, hzk, rfl⟩ := onZk_ok_iff.mp hfirst
      cases Fault.run_bind_error_iff.mp herror with
      | inl herror =>
          obtain ⟨mpc, hmpc, -⟩ := onMpc_error_iff.mp herror
          cases (h.markRaw_mpc v hzk).symm.trans hmpc
      | inr herror =>
          obtain ⟨⟨⟩, d₂, -, hadd⟩ := herror
          cases hadd

theorem assignRaw_error (h : Attuned d) {data : List Bool}
    (herror : Deap.assignRaw s data d = .error e d') :
    Attuned d' ∧ d'.mpc = d.mpc ∧ d'.outputs = d.outputs ∧ d'.role = d.role := by
  cases both_error (.assignRaw data) herror with
  | inl herror =>
      obtain ⟨zk, hzk, rfl⟩ := herror
      rw [Restores.assignRaw _ _ _ _ hzk]
      exact ⟨h, rfl, rfl, rfl⟩
  | inr herror =>
      obtain ⟨⟨⟩, zk, hzk, -, rfl⟩ := herror
      obtain ⟨-, -, hassignable, rfl⟩ := IdealVm.assignRaw_ok_iff.mp hzk
      exact ⟨h.assignZk _ hassignable, rfl, rfl, rfl⟩

theorem commitRaw_error (h : Attuned d) (herror : Deap.commitRaw s d = .error e d') :
    Attuned d' ∧ d'.mpc = d.mpc ∧ d'.outputs = d.outputs ∧ d'.role = d.role := by
  rw [commitRaw_eq] at herror
  cases both_error .commitRaw herror with
  | inl herror =>
      obtain ⟨zk, hzk, rfl⟩ := herror
      exact ⟨h.commitZk (.of_error hzk), rfl, rfl, rfl⟩
  | inr herror =>
      obtain ⟨⟨⟩, zk, hzk, -, rfl⟩ := herror
      exact ⟨h.commitZk (.of_ok hzk), rfl, rfl, rfl⟩

theorem callRaw_error (h : Attuned d) {c : Call} (herror : Deap.callRaw c d = .error e d') :
    d' = d := by
  unfold Deap.callRaw at herror
  rw [Fault.get_bind] at herror
  split at herror
  · cases herror
    rfl
  · refine both_restores (.callRaw c) (.callRaw c) (fun output zk hzk => ?_) herror
    obtain ⟨hargs, -, -⟩ := IdealVm.callRaw_ok_iff.mp hzk
    exact ⟨_, _, IdealVm.callRaw_ok_iff.mpr ⟨fun arg harg => h.next ▸ hargs arg harg, rfl, rfl⟩⟩

theorem decodeRaw_error (h : Attuned d) (herror : Deap.decodeRaw s d = .error e d') : d' = d := by
  cases Fault.run_bind_error_iff.mp herror with
  | inl herror =>
      obtain ⟨zk, hzk, rfl⟩ := onZk_error_iff.mp herror
      rw [Restores.decodeRaw _ _ _ hzk]
  | inr herror =>
      obtain ⟨⟨⟩, d₁, hfirst, herror⟩ := herror
      obtain ⟨zk, hzk, rfl⟩ := onZk_ok_iff.mp hfirst
      obtain ⟨hbounds, -⟩ := IdealVm.decodeRaw_ok_iff.mp hzk
      cases Fault.run_bind_error_iff.mp herror with
      | inl herror => cases herror
      | inr herror =>
          obtain ⟨⟨⟩, d₂, hmodify, herror⟩ := herror
          cases hmodify
          obtain ⟨mpc, hmpc, -⟩ := onMpc_error_iff.mp herror
          cases (IdealVm.decodeRaw_ok_iff.mpr ⟨h.next ▸ hbounds, rfl⟩).symm.trans hmpc

end Attuned

namespace Synced

variable {d d' : Deap} {s : Slice}

theorem new (role : Role) (next : Nat) : Synced (.new role (.new next) (.new next)) where
  toAttuned := .new role next
  outside _ _ := rfl
  values i hi := absurd hi (RangeSet.not_mem_empty i)

/-- The inputs of the follower are open in the ZK machine. -/
theorem inside (h : Synced d) {i : Nat} (hi : i ∈ d.followerInputs) :
    d.zk.cell i = ⟨.input .isPublic, (d.mpc.cell i).value, false⟩ := by
  obtain ⟨huse, hcommitted⟩ := h.opened i hi
  rw [← h.values i hi, ← huse, ← hcommitted]

/-! ## What returns -/

theorem allocRaw (h : Synced d) {size : Nat} (hok : Deap.allocRaw size d = .ok s d') :
    Synced d' := by
  have hattuned := h.toAttuned.allocRaw hok
  obtain rfl := allocRaw_ok hok
  exact { hattuned with
    outside := h.outside
    values := h.values }

theorem mark (h : Synced d) (v : Visibility)
    (hunused : ∀ i ∈ positions s, (d.zk.cell i).use = .unused) :
    Synced { d with
      zk := d.zk.update s fun _ c => { c with use := .input v }
      mpc := d.mpc.update s fun _ c => { c with use := .input v } } := by
  refine { h.toAttuned.mark v hunused with
    outside := fun i hi => ?_
    values := fun i hi => ?_ }
  · by_cases his : i ∈ positions s
    · rw [update_of_mem his, update_of_mem his, h.outside i hi]
    · rw [update_of_not_mem his, update_of_not_mem his, h.outside i hi]
  · have his : i ∉ positions s := fun his =>
      h.not_mem_of_unused (h.unused_mpc (hunused i his)) hi
    rw [update_of_not_mem his, update_of_not_mem his, h.values i hi]

theorem markFollower (h : Synced d) (hbounds : s.stop ≤ d.mpc.next)
    (hunused : ∀ i ∈ positions s, (d.zk.cell i).use = .unused) :
    Synced { d with
      zk := d.zk.update s fun _ c => { c with use := .input .isPublic }
      mpc := d.mpc.update s fun _ c => { c with use := .input (followerVisibility d.role) }
      followerInputs := d.followerInputs.union (.ofRange (toRange s)) } := by
  refine { h.toAttuned.markFollower hbounds hunused with
    outside := fun i hi => ?_
    values := fun i hi => ?_ }
  · rw [Attuned.mem_addFollowerInputs, not_or] at hi
    rw [update_of_not_mem hi.2, update_of_not_mem hi.2, h.outside i hi.1]
  · have hvalue : (d.zk.cell i).value = (d.mpc.cell i).value := by
      by_cases hid : i ∈ d.followerInputs
      · exact h.values i hid
      · rw [h.outside i hid]
    by_cases his : i ∈ positions s
    · rw [update_of_mem his, update_of_mem his]
      exact hvalue
    · rw [update_of_not_mem his, update_of_not_mem his]
      exact hvalue

theorem assignRaw (h : Synced d) {data : List Bool}
    (hok : Deap.assignRaw s data d = .ok () d') : Synced d' := by
  have hattuned := h.toAttuned.assignRaw hok
  obtain ⟨-, -, rfl⟩ := assignRaw_ok hok
  refine { hattuned with
    outside := fun i hi => ?_
    values := fun i hi => ?_ }
  · by_cases his : i ∈ positions s
    · rw [update_of_mem his, update_of_mem his, h.outside i hi]
    · rw [update_of_not_mem his, update_of_not_mem his, h.outside i hi]
  · by_cases his : i ∈ positions s
    · rw [update_of_mem his, update_of_mem his]
    · rw [update_of_not_mem his, update_of_not_mem his, h.values i hi]

theorem commitRaw (h : Synced d) (hok : Deap.commitRaw s d = .ok () d') : Synced d' := by
  have hattuned := h.toAttuned.commitRaw hok
  obtain ⟨-, zk, -, hcell, rfl⟩ := commitRaw_ok hok
  refine { hattuned with
    outside := fun i hi => ?_
    values := fun i hi => ?_ }
  · change zk.cell i = _
    rw [hcell i]
    by_cases his : i ∈ positions s
    · rw [if_pos ⟨his, hi⟩, update_of_mem his, h.outside i hi]
    · rw [if_neg fun hc => his hc.1, update_of_not_mem his, h.outside i hi]
  · change (zk.cell i).value = _
    rw [hcell i, if_neg fun hc => hc.2 hi, h.values i hi]
    by_cases his : i ∈ positions s
    · rw [update_of_mem his]
    · rw [update_of_not_mem his]

theorem callRaw (h : Synced d) {c : Call} (hok : Deap.callRaw c d = .ok s d') : Synced d' := by
  have hattuned := h.toAttuned.callRaw hok
  obtain rfl := callRaw_ok hok
  have hcell : ∀ i, (d.zk.called c).cell i =
      if i ∈ positions ⟨d.mpc.next, c.outputLen⟩ then ⟨.output, none, false⟩
      else d.zk.cell i := fun i => h.next ▸ called_cell
  refine { hattuned with
    outside := fun i hi => ?_
    values := fun i hi => ?_ }
  · rw [hcell, called_cell, h.outside i hi]
  · rw [hcell, called_cell]
    split
    · rfl
    · exact h.values i hi

theorem decodeRaw (h : Synced d) (hok : Deap.decodeRaw s d = .ok () d') : Synced d' := by
  have hattuned := h.toAttuned.decodeRaw hok
  obtain ⟨-, rfl⟩ := decodeRaw_ok hok
  exact { hattuned with
    outside := h.outside
    values := h.values }

/-! ## What fails, and has nothing to do with the inputs of the follower -/

variable {e : Fault VmError}

theorem assignRaw_error (h : Synced d) (hapart : ∀ i ∈ positions s, i ∉ d.followerInputs)
    {data : List Bool} (herror : Deap.assignRaw s data d = .error e d') : d' = d := by
  refine both_restores (.assignRaw data) (.assignRaw data) (fun _ zk hzk => ?_) herror
  obtain ⟨hbounds, hlen, hassignable, -⟩ := IdealVm.assignRaw_ok_iff.mp hzk
  refine ⟨_, _, IdealVm.assignRaw_ok_iff.mpr ⟨h.next ▸ hbounds, hlen, fun i hi => ?_, rfl⟩⟩
  rw [← h.outside i (hapart i hi)]
  exact hassignable i hi

/-- The slice is committed as a whole in the ZK machine too. -/
theorem commitRanges_apart (hapart : ∀ i ∈ positions s, i ∉ d.followerInputs)
    (hlt : s.ptr < s.stop) : commitRanges (inputMinusFollower d s).iterRanges =
      (IdealVm.commitRaw s >>= fun _ => return ()) := by
  have hranges : (inputMinusFollower d s).iterRanges = [toRange s] := by
    rw [inputMinusFollower, RangeSet.difference_of_disjoint, RangeSet.iterRanges_ofRange hlt]
    intro i hi
    exact hapart i (mem_positions.mpr (RangeSet.mem_ofRange.mp hi))
  have hslice : fromRange (toRange s) = s := by
    rw [fromRange, toRange, PosRange.len, Slice.stop, Nat.add_sub_cancel_left]
  rw [hranges]
  change (IdealVm.commitRaw (fromRange (toRange s)) >>= fun _ => return ()) = _
  rw [hslice]

theorem commitRaw_error (h : Synced d) (hapart : ∀ i ∈ positions s, i ∉ d.followerInputs)
    (herror : Deap.commitRaw s d = .error e d') : d' = d := by
  rw [commitRaw_eq] at herror
  by_cases hlt : s.ptr < s.stop
  · rw [commitRanges_apart hapart hlt] at herror
    refine both_restores ?_ .commitRaw (fun _ zk hzk => ?_) herror
    · intro vm e' vm' hvm
      cases Fault.run_bind_error_iff.mp hvm with
      | inl hvm => exact Restores.commitRaw _ _ _ hvm
      | inr hvm =>
          obtain ⟨⟨⟩, vm₁, -, hreturn⟩ := hvm
          cases hreturn
    · obtain ⟨⟨⟩, vm₁, hvm, -⟩ := Fault.run_bind_ok_iff.mp hzk
      obtain ⟨hbounds, hcommittable, -⟩ := IdealVm.commitRaw_ok_iff.mp hvm
      refine ⟨_, _, IdealVm.commitRaw_ok_iff.mpr ⟨h.next ▸ hbounds, fun i hi => ?_, rfl⟩⟩
      rw [← h.outside i (hapart i hi)]
      exact hcommittable i hi
  · -- Nothing is to be committed.
    have hranges : (inputMinusFollower d s).iterRanges = [] := by
      rw [List.eq_nil_iff_forall_not_mem]
      intro r hr
      obtain ⟨hrange, -⟩ := RangeSet.stop_le_of_mem_iterRanges hr
      have hmem : r.start ∈ (inputMinusFollower d s).iterRanges.flatMap PosRange.vals := by
        refine List.mem_flatMap.mpr ⟨r, hr, ?_⟩
        rw [PosRange.vals, List.mem_range'_1, PosRange.len]
        omega
      have hpositions := mem_positions.mp (mem_inputMinusFollower.mp hmem).1
      omega
    rw [hranges] at herror
    cases both_error .commitRaw herror with
    | inl herror =>
        obtain ⟨zk, hzk, -⟩ := herror
        cases hzk
    | inr herror =>
        obtain ⟨⟨⟩, zk, hzk, -, rfl⟩ := herror
        cases hzk
        rfl

end Synced

end Tlsn.DualExecution

import Tlsn.DualExecution.Mirror

/-!
The end of the dual execution. The inputs of the follower are opened in the ZK machine of
either party, and the follower compares the outputs: those of the ZK machine are what the same
calls give on the same inputs, whatever the leader made of those of the MPC machine.
-/

namespace Tlsn.DualExecution

open Tlsn.Cipher (Slice Visibility)
open IdealVm Deap

/-- The machines are ideal, except that the leader may corrupt what the follower is told of the
MPC machine. The inputs are authentic: the leader is told what the follower committed. -/
inductive Ideal (corrupted : Slice → Option (List Bool)) : Party.Functionality Query Reply
  | executeMpc {l f : IdealVm} {executed executed' : Executed}
      (hleader : ∀ s, (∀ i ∈ positions s, (l.cell i).committed = true) →
        executed.tryRecv s = .ok ((memory l f).read s))
      (hfollower : executed'.known = corrupted) :
      Ideal corrupted (.executeMpc l) (.executeMpc f) (.executed executed) (.executed executed')
  | executeZk {l f : IdealVm} {executed executed' : Executed}
      (hleader : ∀ s ∈ l.decodes, executed.tryRecv s = .ok ((memory l f).read s))
      (hfollower : ∀ s ∈ f.decodes, executed'.tryRecv s = .ok ((memory l f).read s)) :
      Ideal corrupted (.executeZk l) (.executeZk f) (.executed executed) (.executed executed')

/-- There are machines like these. -/
def told (corrupted : Slice → Option (List Bool)) (l f : IdealVm) : Reply :=
  .executed ⟨fun s => .ok ((memory l f).read s), corrupted⟩

theorem ideal_executeMpc (corrupted : Slice → Option (List Bool)) (l f : IdealVm) :
    Ideal corrupted (.executeMpc l) (.executeMpc f) (told corrupted l f) (told corrupted l f) :=
  .executeMpc (fun _ _ => rfl) rfl

theorem ideal_executeZk (corrupted : Slice → Option (List Bool)) (l f : IdealVm) :
    Ideal corrupted (.executeZk l) (.executeZk f) (told corrupted l f) (told corrupted l f) :=
  .executeZk (fun _ _ => rfl) fun _ _ => rfl

/-! ## The inputs are opened -/

/-- The cells of these ranges are public inputs, with these values. -/
structure Opened (ranges : List PosRange) (v : Nat → Bool) (vm vm' : IdealVm) : Prop where
  next : vm'.next = vm.next
  calls : vm'.calls = vm.calls
  decodes : vm'.decodes = vm.decodes
  cell : ∀ i, vm'.cell i =
    if i ∈ ranges.flatMap PosRange.vals then ⟨.input .isPublic, some (v i), true⟩ else vm.cell i

/-- What a party must have in order to open a range. -/
structure CanOpen (role : Role) (mpc : Executed) (v : Nat → Bool) (vm : IdealVm) (r : PosRange) :
    Prop where
  bounds : (fromRange r).stop ≤ vm.next
  cells : ∀ i ∈ r.vals, (vm.cell i).use = .input .isPublic ∧ (vm.cell i).committed = false
  leader : role = .leader → mpc.tryRecv (fromRange r) = .ok (some (r.vals.map v))
  follower : role = .follower → ∀ i ∈ r.vals, (vm.cell i).value = some (v i)

section Open

variable {role : Role} {mpc : Executed} {v : Nat → Bool} {vm : IdealVm} {r : PosRange}

theorem getElem?_map_vals {i : Nat} (hi : i ∈ r.vals) :
    (r.vals.map v)[i - r.start]? = some (v i) := by
  rw [PosRange.vals, List.mem_range'_1] at hi
  have hlt : i - r.start < r.len := by omega
  rw [PosRange.vals, List.getElem?_map, List.getElem?_range' hlt]
  simp only [Option.map_some, Nat.one_mul, Option.some.injEq]
  congr 1
  omega

theorem commit_opens {vm₁ : IdealVm} (hnext : vm₁.next = vm.next) (hcalls : vm₁.calls = vm.calls)
    (hdecodes : vm₁.decodes = vm.decodes) (hbounds : (fromRange r).stop ≤ vm.next)
    (hmem : ∀ i ∈ r.vals, vm₁.cell i = ⟨.input .isPublic, some (v i), false⟩)
    (hnot : ∀ i, i ∉ r.vals → vm₁.cell i = vm.cell i) :
    ∃ vm', IdealVm.commitRaw (fromRange r) vm₁ = .ok () vm' ∧ Opened [r] v vm vm' := by
  refine ⟨_, commitRaw_ok_iff.mpr ⟨hnext ▸ hbounds, fun i hi => ?_, rfl⟩, hnext, hcalls, hdecodes,
    fun i => ?_⟩
  · rw [positions_fromRange] at hi
    rw [hmem i hi]
    rfl
  · rw [List.flatMap_cons, List.flatMap_nil, List.append_nil]
    by_cases hi : i ∈ r.vals
    · have hpos : i ∈ positions (fromRange r) := by rwa [positions_fromRange]
      rw [if_pos hi, update_of_mem hpos, hmem i hi]
    · have hpos : i ∉ positions (fromRange r) := by rwa [positions_fromRange]
      rw [if_neg hi, update_of_not_mem hpos, hnot i hi]

theorem openInput_ok (h : CanOpen role mpc v vm r) :
    ∃ vm', openInput role mpc r vm = .ok () vm' ∧ Opened [r] v vm vm' := by
  cases role with
  | leader =>
      have hassign : IdealVm.assignRaw (fromRange r) (r.vals.map v) vm = .ok ()
          (vm.update (fromRange r) fun i c =>
            { c with value := (r.vals.map v)[i - (fromRange r).ptr]? }) := by
        refine assignRaw_ok_iff.mpr ⟨h.bounds, ?_, fun i hi => ?_, rfl⟩
        · rw [List.length_map, PosRange.length_vals]
          rfl
        · rw [positions_fromRange] at hi
          obtain ⟨huse, hcommitted⟩ := h.cells i hi
          simp [Cell.assignable, huse, hcommitted]
      have hrun : openInput .leader mpc r vm = IdealVm.commitRaw (fromRange r)
          (vm.update (fromRange r) fun i c =>
            { c with value := (r.vals.map v)[i - (fromRange r).ptr]? }) := by
        unfold openInput
        simp only [h.leader rfl]
        exact Fault.run_bind_of_ok hassign
      rw [hrun]
      refine commit_opens rfl rfl rfl h.bounds (fun i hi => ?_) fun i hi => ?_
      · have hpos : i ∈ positions (fromRange r) := by rwa [positions_fromRange]
        obtain ⟨huse, hcommitted⟩ := h.cells i hi
        rw [update_of_mem hpos, huse, hcommitted]
        exact congrArg (Cell.mk _ · _) (getElem?_map_vals hi)
      · have hpos : i ∉ positions (fromRange r) := by rwa [positions_fromRange]
        exact update_of_not_mem hpos
  | follower =>
      have hrun : openInput .follower mpc r vm = IdealVm.commitRaw (fromRange r) vm := by
        rw [openInput]
      rw [hrun]
      refine commit_opens rfl rfl rfl h.bounds (fun i hi => ?_) fun i _ => rfl
      obtain ⟨huse, hcommitted⟩ := h.cells i hi
      rw [← huse, ← hcommitted, ← h.follower rfl i hi]

theorem openInputs_ok {ranges : List PosRange}
    (hdisjoint : ranges.Pairwise fun r t => r.stop ≤ t.start)
    (h : ∀ r ∈ ranges, CanOpen role mpc v vm r) :
    ∃ vm', openInputs role mpc ranges vm = .ok () vm' ∧ Opened ranges v vm vm' := by
  induction ranges generalizing vm with
  | nil => exact ⟨vm, rfl, rfl, rfl, rfl, fun i => rfl⟩
  | cons r ranges ih =>
      obtain ⟨hr, hranges⟩ := List.pairwise_cons.mp hdisjoint
      obtain ⟨vm₁, hopen, hopened⟩ := openInput_ok (h r List.mem_cons_self)
      have hcell : ∀ t ∈ ranges, ∀ i ∈ t.vals, vm₁.cell i = vm.cell i := by
        intro t ht i hi
        rw [hopened.cell i, if_neg]
        intro hir
        rw [List.flatMap_cons, List.flatMap_nil, List.append_nil] at hir
        have hle := hr t ht
        rw [PosRange.vals, List.mem_range'_1, PosRange.len] at hi hir
        omega
      have hrest : ∀ t ∈ ranges, CanOpen role mpc v vm₁ t := by
        intro t ht
        have hcan := h t (List.mem_cons_of_mem r ht)
        refine ⟨hopened.next ▸ hcan.bounds, fun i hi => ?_, hcan.leader, fun hrole i hi => ?_⟩
        · rw [hcell t ht i hi]
          exact hcan.cells i hi
        · rw [hcell t ht i hi]
          exact hcan.follower hrole i hi
      obtain ⟨vm', hopens, hopened'⟩ := ih hranges hrest
      refine ⟨vm', ?_, hopened'.next.trans hopened.next, hopened'.calls.trans hopened.calls,
        hopened'.decodes.trans hopened.decodes, fun i => ?_⟩
      · exact (Fault.run_bind_of_ok hopen).trans hopens
      · rw [hopened'.cell i, hopened.cell i]
        simp only [List.flatMap_cons, List.flatMap_nil, List.append_nil, List.mem_append]
        by_cases hi : i ∈ ranges.flatMap PosRange.vals
        · rw [if_pos hi, if_pos (.inr hi)]
        · rw [if_neg hi]
          simp only [hi, or_false]

end Open

/-! ## The outputs are compared -/

/-- What is available in the MPC machine is what the ZK machine gives out. -/
def Matches (mpc zk : Executed) (output : Slice) : Prop :=
  ∀ bits, mpc.known output = some bits → zk.tryRecv output = .ok (some bits)

section Check

variable {mpc zk : Executed} {d : Deap}

theorem checkOutput_run {output : Slice} (hbounds : output.stop ≤ d.mpc.next) :
    (checkOutput mpc zk output d = .ok () d ∧ Matches mpc zk output) ∨
      ∃ e, checkOutput mpc zk output d = .error e d ∧ ¬ Matches mpc zk output := by
  have hget : onMpc (IdealVm.getRaw mpc.known output) d = .ok (mpc.known output) d :=
    onMpc_ok_iff.mpr ⟨d.mpc, require_bind_ok_iff.mpr ⟨inBounds_iff.mpr hbounds, rfl⟩, rfl⟩
  unfold checkOutput
  rw [Fault.run_bind_of_ok hget]
  unfold Matches
  cases mpc.known output with
  | none => exact .inl ⟨rfl, nofun⟩
  | some mpcOutput =>
      cases hzk : zk.tryRecv output with
      | error text => exact .inr ⟨_, rfl, fun h => nomatch h mpcOutput rfl⟩
      | ok value =>
          cases value with
          | none => exact .inr ⟨_, rfl, fun h => nomatch h mpcOutput rfl⟩
          | some zkOutput =>
              by_cases heq : zkOutput = mpcOutput
              · refine .inl ⟨?_, ?_⟩
                · simp only [heq, if_true]
                  rfl
                · intro bits hbits
                  cases hbits
                  rw [heq]
              · refine .inr ⟨equalityCheck, ?_, ?_⟩
                · simp only [heq, if_false]
                  rfl
                · intro h
                  cases h mpcOutput rfl
                  exact heq rfl

theorem forM_checkOutput_run {outputs : List Slice}
    (hbounds : ∀ s ∈ outputs, s.stop ≤ d.mpc.next) :
    (outputs.forM (checkOutput mpc zk) d = .ok () d ∧ ∀ s ∈ outputs, Matches mpc zk s) ∨
      ∃ e, outputs.forM (checkOutput mpc zk) d = .error e d ∧
        ¬ ∀ s ∈ outputs, Matches mpc zk s := by
  induction outputs with
  | nil => exact .inl ⟨rfl, List.forall_mem_nil _⟩
  | cons output outputs ih =>
      rw [List.forall_mem_cons]
      cases checkOutput_run (hbounds output List.mem_cons_self) with
      | inl hok =>
          obtain ⟨hrun, hmatches⟩ := hok
          have hrest : (output :: outputs).forM (checkOutput mpc zk) d =
              outputs.forM (checkOutput mpc zk) d := Fault.run_bind_of_ok hrun
          rw [hrest]
          cases ih fun s hs => hbounds s (List.mem_cons_of_mem _ hs) with
          | inl h => exact .inl ⟨h.1, hmatches, h.2⟩
          | inr h =>
              obtain ⟨e, herror, hnot⟩ := h
              exact .inr ⟨e, herror, fun hall => hnot hall.2⟩
      | inr herror =>
          obtain ⟨e, hrun, hnot⟩ := herror
          exact .inr ⟨e, Fault.run_bind_of_error hrun, fun hall => hnot hall.1⟩

end Check

/-! ## Finalization -/

theorem decodeRanges_ok {ranges : List PosRange} {vm : IdealVm}
    (h : ∀ r ∈ ranges, (fromRange r).stop ≤ vm.next) :
    decodeRanges ranges vm =
      .ok () { vm with decodes := vm.decodes ++ ranges.map fromRange } := by
  induction ranges generalizing vm with
  | nil =>
      rw [List.map_nil, List.append_nil]
      rfl
  | cons r ranges ih =>
      have hdecode : IdealVm.decodeRaw (fromRange r) vm =
          .ok () { vm with decodes := vm.decodes ++ [fromRange r] } :=
        decodeRaw_ok_iff.mpr ⟨h r List.mem_cons_self, rfl⟩
      have hrest : decodeRanges ranges { vm with decodes := vm.decodes ++ [fromRange r] } = _ :=
        ih fun t ht => h t (List.mem_cons_of_mem r ht)
      rw [List.append_assoc] at hrest
      exact (Fault.run_bind_of_ok hdecode).trans hrest

/-- The first query of the finalization. -/
theorem finalize_eq {d : Deap} {mpc : IdealVm}
    (h : decodeRanges d.followerInputs.iterRanges d.mpc = .ok () mpc) :
    finalize d = .ask (.executeMpc mpc) fun reply =>
      (match reply with
        | .failed e => Interactive.alone (throw (.err e))
        | .executed executed => openAndCheck d.role d.followerInputs.iterRanges executed :
        Finalization Unit) { d with mpc := mpc } := by
  have hdecode : onMpc (decodeRanges d.followerInputs.iterRanges) d =
      .ok () { d with mpc := mpc } := onMpc_ok_iff.mpr ⟨mpc, h, rfl⟩
  exact Interactive.run_get_bind.trans ((Interactive.run_alone_bind hdecode).trans
    (Interactive.run_get_bind.trans Interactive.run_query_bind))

/-- The second query. -/
theorem openAndCheck_eq {d : Deap} {role : Role} {ranges : List PosRange} {mpc : Executed}
    {vm zk : IdealVm} (h : openInputs role mpc ranges d.zk = .ok () zk) :
    openAndCheck role ranges mpc { d with mpc := vm } = .ask (.executeZk zk) fun reply =>
      (match reply with
        | .failed e => Interactive.alone (throw (.err (.executeOf e)))
        | .executed executed => Interactive.alone (checkOutputs mpc executed) :
        Finalization Unit) { d with mpc := vm, zk := zk } := by
  have hopen : onZk (openInputs role mpc ranges) { d with mpc := vm } =
      .ok () { d with mpc := vm, zk := zk } := onZk_ok_iff.mpr ⟨zk, h, rfl⟩
  exact (Interactive.run_alone_bind hopen).trans
    (Interactive.run_get_bind.trans Interactive.run_query_bind)

theorem checkOutputs_leader {d : Deap} {mpc zk : Executed} (hrole : d.role = .leader) :
    checkOutputs mpc zk d = .ok () d := by
  unfold checkOutputs
  rw [Fault.get_bind, hrole]
  rfl

theorem checkOutputs_follower {d : Deap} {mpc zk : Executed} (hrole : d.role = .follower)
    (hbounds : ∀ s ∈ d.outputs, s.stop ≤ d.mpc.next) :
    (checkOutputs mpc zk d = .ok () { d with outputs := [] } ∧
        ∀ s ∈ d.outputs, Matches mpc zk s) ∨
      ∃ e, checkOutputs mpc zk d = .error e { d with outputs := [] } ∧
        ¬ ∀ s ∈ d.outputs, Matches mpc zk s := by
  have hrun : checkOutputs mpc zk d =
      d.outputs.forM (checkOutput mpc zk) { d with outputs := [] } := by
    unfold checkOutputs
    rw [Fault.get_bind, hrole]
    rfl
  rw [hrun]
  exact forM_checkOutput_run hbounds

section Parties

variable {next : Nat} {steps : List Step} {l f : Deap}

/-- The inputs of the follower. -/
def followerValue (f : Deap) (i : Nat) : Bool := (f.mpc.cell i).value.getD false

namespace Consistent

theorem mem_of_mem_range {s : RangeSet} {r : PosRange} (hr : r ∈ s.iterRanges) {i : Nat}
    (hi : i ∈ r.vals) : i ∈ s := by
  rw [RangeSet.mem_def, ← s.flatMap_iterRanges]
  exact List.mem_flatMap.mpr ⟨r, hr, hi⟩

theorem range_bounds {d : Deap} (h : Synced d) {r : PosRange}
    (hr : r ∈ d.followerInputs.iterRanges) : (fromRange r).stop ≤ d.mpc.next := by
  obtain ⟨hlt, hle⟩ := RangeSet.stop_le_of_mem_iterRanges hr
  have hstop : d.followerInputs.stop ≤ d.mpc.next := RangeSet.stop_le_iff.mpr h.bounds
  simp only [fromRange, Slice.stop, PosRange.len]
  omega

theorem value_eq (h : Consistent next steps l f)
    (hcommitted : ∀ i ∈ f.followerInputs, (f.mpc.cell i).committed = true) {i : Nat}
    (hi : i ∈ f.followerInputs) : (f.mpc.cell i).value = some (followerValue f i) := by
  have huse : (f.mpc.cell i).use = .input .isPrivate := by
    rw [h.follower.use i hi, h.followerRole]
    rfl
  have hcommittable := (h.follower.mpc.cells i).committed (hcommitted i hi)
  unfold Cell.committable at hcommittable
  rw [huse] at hcommittable
  obtain ⟨b, hb⟩ := Option.isSome_iff_exists.mp hcommittable
  unfold followerValue
  rw [hb]
  rfl

/-- What the MPC machine has for them. -/
theorem memory_follower (h : Consistent next steps l f)
    (hcommitted : ∀ i ∈ f.followerInputs, (f.mpc.cell i).committed = true) {i : Nat}
    (hi : i ∈ f.followerInputs) : memory l.mpc f.mpc i = some (followerValue f i) := by
  have hil : i ∈ l.followerInputs := h.agree.followerInputs ▸ hi
  have huse : (l.mpc.cell i).use = .input .isBlind := by
    rw [h.leader.use i hil, h.leaderRole]
    rfl
  have hnot : ∀ c ∈ l.mpc.calls, i ∉ positions c.2 := by
    intro c hc hic
    have houtput := h.leader.mpc.outputs c hc i hic
    rw [huse] at houtput
    cases houtput
  rw [memory, Bits.execute_of_not_mem hnot, inputs,
    if_pos (by rw [h.agree.committed, hcommitted i hi]),
    (h.leader.mpc.cells i).unset (.inr huse), value_eq h hcommitted hi]
  rfl

theorem read_follower (h : Consistent next steps l f)
    (hcommitted : ∀ i ∈ f.followerInputs, (f.mpc.cell i).committed = true) {r : PosRange}
    (hr : r ∈ f.followerInputs.iterRanges) :
    (memory l.mpc f.mpc).read (fromRange r) = some (r.vals.map (followerValue f)) := by
  rw [← positions_fromRange r]
  refine Bits.read_of_forall fun i hi => memory_follower h hcommitted ?_
  rw [positions_fromRange] at hi
  exact mem_of_mem_range hr hi

/-- When the inputs are opened, the ZK machine has what the MPC machine has. -/
theorem memory_opened (h : Consistent next steps l f)
    (hcommitted : ∀ i ∈ f.followerInputs, (f.mpc.cell i).committed = true) {lzk fzk : IdealVm}
    (hl : Opened f.followerInputs.iterRanges (followerValue f) l.zk lzk)
    (hf : Opened f.followerInputs.iterRanges (followerValue f) f.zk fzk) :
    memory lzk fzk = memory l.mpc f.mpc := by
  have hmem : ∀ i, i ∈ f.followerInputs.iterRanges.flatMap PosRange.vals ↔
      i ∈ f.followerInputs := fun i => by rw [RangeSet.flatMap_iterRanges, RangeSet.mem_def]
  have hinputs : inputs lzk fzk = inputs l.mpc f.mpc := by
    funext i
    unfold inputs
    rw [hl.cell i, hf.cell i]
    by_cases hi : i ∈ f.followerInputs
    · have hil : i ∈ l.followerInputs := h.agree.followerInputs ▸ hi
      have huse : (l.mpc.cell i).use = .input .isBlind := by
        rw [h.leader.use i hil, h.leaderRole]
        rfl
      rw [if_pos ((hmem i).mpr hi), if_pos ((hmem i).mpr hi),
        (h.leader.mpc.cells i).unset (.inr huse), value_eq h hcommitted hi, h.agree.committed,
        hcommitted i hi]
      rfl
    · have hil : i ∉ l.followerInputs := h.agree.followerInputs ▸ hi
      rw [if_neg (mt (hmem i).mp hi), if_neg (mt (hmem i).mp hi), h.leader.outside i hil,
        h.follower.outside i hi]
  rw [memory, memory, hinputs, hl.calls, h.leader.calls]

theorem leader_canOpen (h : Consistent next steps l f) {mpc : Executed}
    (hreceived : ∀ r ∈ f.followerInputs.iterRanges,
      mpc.tryRecv (fromRange r) = .ok (some (r.vals.map (followerValue f)))) :
    ∀ r ∈ l.followerInputs.iterRanges, CanOpen .leader mpc (followerValue f) l.zk r := by
  intro r hr
  refine ⟨h.leader.next ▸ range_bounds h.leader hr, fun i hi => ?_, fun _ => ?_, nofun⟩
  · rw [h.leader.inside (mem_of_mem_range hr hi)]
    exact ⟨rfl, rfl⟩
  · exact hreceived r (h.agree.followerInputs ▸ hr)

theorem follower_canOpen (h : Consistent next steps l f)
    (hcommitted : ∀ i ∈ f.followerInputs, (f.mpc.cell i).committed = true) {mpc : Executed} :
    ∀ r ∈ f.followerInputs.iterRanges, CanOpen .follower mpc (followerValue f) f.zk r := by
  intro r hr
  refine ⟨h.follower.next ▸ range_bounds h.follower hr, fun i hi => ?_, nofun, fun _ i hi => ?_⟩
  · rw [h.follower.inside (mem_of_mem_range hr hi)]
    exact ⟨rfl, rfl⟩
  · have hif := mem_of_mem_range hr hi
    rw [h.follower.inside hif]
    exact value_eq h hcommitted hif

end Consistent

/-- What the parties have when the machines are finalized: the inputs of the follower are
committed in both ZK machines, and these compute what the MPC machines should. -/
structure Finalized (corrupted : Slice → Option (List Bool)) (l f l' f' : Deap)
    (accepted : Prop) : Prop where
  opened : ∀ i ∈ f.followerInputs, ∃ b, (f.mpc.cell i).value = some b ∧
    l'.zk.cell i = ⟨.input .isPublic, some b, true⟩ ∧
    f'.zk.cell i = ⟨.input .isPublic, some b, true⟩
  memory : memory l'.zk f'.zk = memory l.mpc f.mpc
  accepted_iff : accepted ↔ ∀ s ∈ f.outputs, ∀ bits, corrupted s = some bits →
    (DualExecution.memory l'.zk f'.zk).read s = some bits

/-- The leader returns; the follower returns or fails. -/
def Outcome (corrupted : Slice → Option (List Bool)) (l f : Deap)
    (r r' : EStateM.Result (Fault VmError) Deap Unit) : Prop :=
  ∃ l' f', r = .ok () l' ∧ (r' = .ok () f' ∨ ∃ e, r' = .error e f') ∧
    Finalized corrupted l f l' f' (r' = .ok () f')

/-- Whatever the leader makes of the outputs, both parties come to an end, with this
outcome. -/
structure Finalizes (corrupted : Slice → Option (List Bool)) (l f : Deap) : Prop where
  ensures : Party.Ensures (Ideal corrupted) (Outcome corrupted l f) (finalize l) (finalize f)

theorem Consistent.openAndCheck_ensures (h : Consistent next steps l f)
    (hcommitted : ∀ i ∈ f.followerInputs, (f.mpc.cell i).committed = true)
    {corrupted : Slice → Option (List Bool)} {mpc mpc' : Executed}
    (hreceived : ∀ r ∈ f.followerInputs.iterRanges,
      mpc.tryRecv (fromRange r) = .ok (some (r.vals.map (followerValue f))))
    (hknown : mpc'.known = corrupted) {lmpc fmpc : IdealVm} (hnext : fmpc.next = f.mpc.next) :
    Party.Ensures (Ideal corrupted) (Outcome corrupted l f)
      (openAndCheck l.role l.followerInputs.iterRanges mpc { l with mpc := lmpc })
      (openAndCheck f.role f.followerInputs.iterRanges mpc' { f with mpc := fmpc }) := by
  obtain ⟨lzk, hlrun, hlopened⟩ :=
    openInputs_ok l.followerInputs.iterRanges_pairwise (h.leader_canOpen hreceived)
  obtain ⟨fzk, hfrun, hfopened⟩ : ∃ fzk,
      openInputs .follower mpc' f.followerInputs.iterRanges f.zk = .ok () fzk ∧
        Opened f.followerInputs.iterRanges (followerValue f) f.zk fzk :=
    openInputs_ok f.followerInputs.iterRanges_pairwise (h.follower_canOpen hcommitted)
  rw [← h.leaderRole] at hlrun
  rw [← h.followerRole] at hfrun
  rw [h.agree.followerInputs] at hlopened
  rw [openAndCheck_eq hlrun, openAndCheck_eq hfrun]
  refine ⟨⟨_, _, ideal_executeZk ..⟩, ?_⟩
  intro r r' hideal
  cases hideal with
  | @executeZk _ _ zk zk' hleader hfollower =>
      have hmatches : ∀ s ∈ f.outputs, Matches mpc' zk' s ↔
          ∀ bits, corrupted s = some bits → (memory lzk fzk).read s = some bits := by
        intro s hs
        have hdecoded : s ∈ fzk.decodes := by
          rw [hfopened.decodes, h.follower.decodes]
          exact hs
        unfold Matches
        rw [hknown, hfollower s hdecoded]
        simp only [Except.ok.injEq]
      have hopened : ∀ i ∈ f.followerInputs, ∃ b, (f.mpc.cell i).value = some b ∧
          lzk.cell i = ⟨.input .isPublic, some b, true⟩ ∧
          fzk.cell i = ⟨.input .isPublic, some b, true⟩ := by
        intro i hi
        have hmem : i ∈ f.followerInputs.iterRanges.flatMap PosRange.vals := by
          rw [RangeSet.flatMap_iterRanges]
          exact hi
        refine ⟨followerValue f i, value_eq h hcommitted hi, ?_, ?_⟩
        · rw [hlopened.cell i, if_pos hmem]
        · rw [hfopened.cell i, if_pos hmem]
      have hmemory := h.memory_opened hcommitted hlopened hfopened
      have hleaderRuns : checkOutputs mpc zk { l with mpc := lmpc, zk := lzk } = .ok () _ :=
        checkOutputs_leader h.leaderRole
      have hfollowerRuns :
          (checkOutputs mpc' zk' { f with mpc := fmpc, zk := fzk } = .ok () _ ∧ _) ∨ _ :=
        checkOutputs_follower h.followerRole (hnext ▸ h.follower.outputs)
      refine ⟨_, { f with mpc := fmpc, zk := fzk, outputs := [] }, hleaderRuns, ?_⟩
      cases hfollowerRuns with
      | inl hok =>
          obtain ⟨hrun, hall⟩ := hok
          refine ⟨.inl hrun, hopened, hmemory, iff_of_true hrun ?_⟩
          exact fun s hs => (hmatches s hs).mp (hall s hs)
      | inr herror =>
          obtain ⟨e, hrun, hnot⟩ := herror
          refine ⟨.inr ⟨e, hrun⟩, hopened, hmemory, iff_of_false ?_ ?_⟩
          · intro hok
            cases hrun.symm.trans hok
          · exact fun hall => hnot fun s hs => (hmatches s hs).mpr (hall s hs)

theorem Consistent.finalizes (h : Consistent next steps l f)
    (hcommitted : ∀ i ∈ f.followerInputs, (f.mpc.cell i).committed = true)
    (corrupted : Slice → Option (List Bool)) : Finalizes corrupted l f := by
  constructor
  rw [finalize_eq (decodeRanges_ok fun r hr => range_bounds h.leader hr),
    finalize_eq (decodeRanges_ok fun r hr => range_bounds h.follower hr)]
  refine ⟨⟨_, _, ideal_executeMpc ..⟩, ?_⟩
  intro r r' hideal
  cases hideal with
  | @executeMpc _ _ mpc mpc' hleader hfollower =>
      have hreceived : ∀ r ∈ f.followerInputs.iterRanges,
          mpc.tryRecv (fromRange r) = .ok (some (r.vals.map (followerValue f))) := by
        intro r hr
        rw [← read_follower h hcommitted hr]
        refine hleader _ fun i hi => ?_
        rw [positions_fromRange] at hi
        exact (h.agree.committed i).trans (hcommitted i (mem_of_mem_range hr hi))
      exact h.openAndCheck_ensures hcommitted hreceived hfollower rfl

/-- Whatever steps are taken, the machines of both parties have made the calls of these steps, and
give out what they decode. The parties have the same inputs of the follower, and they are open in
the ZK machines; finalization opens them, and the follower accepts the outputs which the ZK
machine gives. -/
theorem mirrored_consistent (h : Mirrored next steps l f) :
    (Synced l ∧ Synced f ∧ Performed next steps l ∧ Performed next steps f) ∧
      l.followerInputs = f.followerInputs ∧
      (∀ i, i ∈ f.followerInputs ↔
        ∃ s, Step.markPrivate .follower s ∈ steps ∧ i ∈ positions s) ∧
      (∀ i ∈ f.followerInputs,
        (l.zk.cell i).committed = false ∧ (f.zk.cell i).committed = false) ∧
      (∀ i, i ∉ f.followerInputs → (l.zk.cell i).committed = (l.mpc.cell i).committed ∧
        (f.zk.cell i).committed = (f.mpc.cell i).committed ∧
        (l.mpc.cell i).committed = (f.mpc.cell i).committed) ∧
      ((∀ i ∈ f.followerInputs, (f.mpc.cell i).committed = true) →
        ∀ corrupted, Finalizes corrupted l f) := by
  have hconsistent := h.consistent
  have hsame := hconsistent.agree.followerInputs
  refine ⟨⟨hconsistent.leader, hconsistent.follower, hconsistent.leaderPerformed,
    hconsistent.followerPerformed⟩, hsame, hconsistent.followerInputs, fun i hi => ?_,
    fun i hi => ?_, hconsistent.finalizes⟩
  · rw [hconsistent.leader.inside (hsame ▸ hi), hconsistent.follower.inside hi]
    exact ⟨rfl, rfl⟩
  · rw [hconsistent.leader.outside i (hsame ▸ hi), hconsistent.follower.outside i hi]
    exact ⟨rfl, rfl, hconsistent.agree.committed i⟩

end Parties

/-! ## Runs -/

/-- The states which the parties reach, when no step fails. -/
def mirror (l f : Deap) : List Step → Option (Deap × Deap)
  | [] => some (l, f)
  | step :: steps =>
      match step.run .leader l, step.run .follower f with
      | .ok () l', .ok () f' => mirror l' f' steps
      | _, _ => none

theorem mirror_mirrored {next : Nat} {before steps : List Step} {l f l' f' : Deap}
    (h : Mirrored next before l f) (hrun : mirror l f steps = some (l', f')) :
    Mirrored next (before ++ steps) l' f' := by
  induction steps generalizing before l f with
  | nil =>
      cases hrun
      rwa [List.append_nil]
  | cons step steps ih =>
      unfold mirror at hrun
      split at hrun
      · rename_i hl hf
        have hrest := ih (h.snoc hl hf) hrun
        rwa [List.append_assoc] at hrest
      · cases hrun

def sampleReached : Option (Deap × Deap) :=
  mirror (.new .leader (.new 0) (.new 0)) (.new .follower (.new 0) (.new 0)) sampleSteps

theorem sample_committed : (sampleReached.map fun reached =>
    (reached.2.followerInputs.vals, reached.2.followerInputs.vals.all fun i =>
      (reached.2.mpc.cell i).committed)) = some ([0, 1], true) := by decide +kernel

theorem mirrored_consistent_sample : ∃ l f, 0 ∈ f.followerInputs ∧
    f.outputs = [⟨3, 1⟩] ∧ f.mpc.decodes = [⟨3, 1⟩] ∧ f.zk.calls.map Prod.snd = [⟨3, 1⟩] ∧
    l.followerInputs = f.followerInputs ∧ (l.zk.cell 0).committed = false ∧
    (l.zk.cell 2).committed = (f.mpc.cell 2).committed ∧
    Finalizes (fun _ => some [true]) l f := by
  obtain ⟨⟨l, f⟩, hreached, hcheck⟩ := Option.map_eq_some_iff.mp sample_committed
  obtain ⟨hvals, hall⟩ := Prod.mk.inj hcheck
  have hmem : ∀ i, i ∈ f.followerInputs ↔ i ∈ [0, 1] := fun i => hvals ▸ Iff.rfl
  have hcommitted : ∀ i ∈ f.followerInputs, (f.mpc.cell i).committed = true :=
    List.all_eq_true.mp hall
  obtain ⟨⟨-, hsynced, -, hperformed⟩, hsame, -, hinside, houtside, hfinalizes⟩ :=
    mirrored_consistent (mirror_mirrored .new hreached)
  have houtputs : f.outputs = [⟨3, 1⟩] := hperformed.outputs
  have hcalls : f.zk.calls.map Prod.snd = [⟨3, 1⟩] :=
    congrArg (List.map Prod.snd) (hsynced.calls.trans hperformed.calls)
  have h0 : 0 ∈ f.followerInputs := (hmem 0).mpr (by decide)
  have h2 : 2 ∉ f.followerInputs := mt (hmem 2).mp (by decide)
  obtain ⟨hl, -, hagree⟩ := houtside 2 h2
  exact ⟨l, f, h0, houtputs, hsynced.mpcDecodes.trans houtputs, hcalls, hsame, (hinside 0 h0).1,
    hl.trans hagree, hfinalizes hcommitted _⟩

end Tlsn.DualExecution

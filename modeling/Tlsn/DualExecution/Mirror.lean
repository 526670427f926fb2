import Tlsn.DualExecution.Synced

/-!
The steps of a party, and their runs: also those in which steps fail. When both parties take the
same steps, they agree on what is committed and on what the inputs of the follower are.
-/

namespace Tlsn.DualExecution

open Tlsn.Cipher (Slice Visibility)
open IdealVm Deap

/-! ## Steps -/

/-- What both parties do. A slice is private to one of them, and blind to the other; it is
assigned by one of them, or by both. -/
inductive Step where
  | alloc (size : Nat)
  | markPublic (s : Slice)
  | markPrivate (owner : Role) (s : Slice)
  | assign (owner : Option Role) (s : Slice) (data : List Bool)
  | commit (s : Slice)
  | call (c : Call)
  | decode (s : Slice)
  | execute

namespace Step

def run (role : Role) : Step → Op Unit
  | alloc size => do
      let _ ← allocRaw size
      return ()
  | markPublic s => markPublicRaw s
  | markPrivate owner s => if owner = role then markPrivateRaw s else markBlindRaw s
  | assign owner s data =>
      if owner = none ∨ owner = some role then assignRaw s data else return ()
  | commit s => commitRaw s
  | call c => do
      let _ ← callRaw c
      return ()
  | decode s => decodeRaw s
  | execute => Deap.execute

variable {role : Role} {d d' : Deap} {s : Slice}

theorem alloc_ok {size : Nat} (h : (alloc size).run role d = .ok () d') :
    ∃ output, allocRaw size d = .ok output d' := by
  obtain ⟨output, d₁, halloc, hreturn⟩ := Fault.run_bind_ok_iff.mp h
  cases hreturn
  exact ⟨output, halloc⟩

theorem call_ok {c : Call} (h : (call c).run role d = .ok () d') :
    ∃ output, callRaw c d = .ok output d' := by
  obtain ⟨output, d₁, hcall, hreturn⟩ := Fault.run_bind_ok_iff.mp h
  cases hreturn
  exact ⟨output, hcall⟩

theorem assign_ok {owner : Option Role} {data : List Bool}
    (h : (assign owner s data).run role d = .ok () d') :
    assignRaw s data d = .ok () d' ∨ d' = d := by
  rw [run] at h
  split at h
  · exact .inl h
  · cases h
    exact .inr rfl

theorem execute_ok (h : execute.run role d = .ok () d') : d' = d := by
  cases h
  rfl

/-- Slices of the leader have the same visibility in both machines. -/
theorem markLeader_ok (hrole : d.role = role) (h : (markPrivate .leader s).run role d = .ok () d') :
    ∃ v, (∀ i ∈ positions s, (d.zk.cell i).use = .unused) ∧
      d' = { d with
        zk := d.zk.update s fun _ c => { c with use := .input v }
        mpc := d.mpc.update s fun _ c => { c with use := .input v } } := by
  cases role with
  | leader =>
      rw [run, if_pos rfl, markPrivateRaw, Fault.get_bind, hrole] at h
      obtain ⟨-, hunused, -, hd⟩ := mark_ok h
      exact ⟨.isPrivate, hunused, hd⟩
  | follower =>
      rw [run, if_neg (by decide), markBlindRaw, Fault.get_bind, hrole] at h
      obtain ⟨-, hunused, -, hd⟩ := mark_ok h
      exact ⟨.isBlind, hunused, hd⟩

theorem mark_addFollowerInputs_ok {v : Visibility}
    (h : (onZk (IdealVm.markRaw .isPublic s) >>= fun _ =>
      onMpc (IdealVm.markRaw v s) >>= fun _ => addFollowerInputs s) d = .ok () d') :
    s.stop ≤ d.mpc.next ∧ (∀ i ∈ positions s, (d.zk.cell i).use = .unused) ∧
      d' = { d with
        zk := d.zk.update s fun _ c => { c with use := .input .isPublic }
        mpc := d.mpc.update s fun _ c => { c with use := .input v }
        followerInputs := d.followerInputs.union (.ofRange (toRange s)) } := by
  obtain ⟨⟨⟩, d₁, hfirst, hrest⟩ := Fault.run_bind_ok_iff.mp h
  obtain ⟨⟨⟩, d₂, hsecond, hadd⟩ := Fault.run_bind_ok_iff.mp hrest
  obtain ⟨zk, hzk, rfl⟩ := onZk_ok_iff.mp hfirst
  obtain ⟨-, hunused, rfl⟩ := IdealVm.markRaw_ok_iff.mp hzk
  obtain ⟨mpc, hmpc, rfl⟩ := onMpc_ok_iff.mp hsecond
  obtain ⟨hbounds, -, rfl⟩ := IdealVm.markRaw_ok_iff.mp hmpc
  cases hadd
  exact ⟨hbounds, hunused, rfl⟩

theorem markFollower_ok (hrole : d.role = role)
    (h : (markPrivate .follower s).run role d = .ok () d') :
    s.stop ≤ d.mpc.next ∧ (∀ i ∈ positions s, (d.zk.cell i).use = .unused) ∧
      d' = { d with
        zk := d.zk.update s fun _ c => { c with use := .input .isPublic }
        mpc := d.mpc.update s fun _ c => { c with use := .input (followerVisibility d.role) }
        followerInputs := d.followerInputs.union (.ofRange (toRange s)) } := by
  cases role with
  | leader =>
      have hvisibility : followerVisibility d.role = .isBlind := by rw [hrole]; rfl
      rw [run, if_neg (by decide), markBlindRaw, Fault.get_bind, hrole] at h
      rw [hvisibility]
      exact mark_addFollowerInputs_ok h
  | follower =>
      have hvisibility : followerVisibility d.role = .isPrivate := by rw [hrole]; rfl
      rw [run, if_pos rfl, markPrivateRaw, Fault.get_bind, hrole] at h
      rw [hvisibility]
      exact mark_addFollowerInputs_ok h

/-- A step which returns keeps what the machines have in common. -/
theorem attuned {step : Step} (hrole : d.role = role) (h : Attuned d)
    (hok : step.run role d = .ok () d') : Attuned d' ∧ d'.role = role := by
  cases step with
  | alloc size =>
      obtain ⟨output, halloc⟩ := alloc_ok hok
      exact ⟨h.allocRaw halloc, by rw [allocRaw_ok halloc, hrole]⟩
  | markPublic s =>
      obtain ⟨-, hunused, -, rfl⟩ := mark_ok hok
      exact ⟨h.mark .isPublic hunused, hrole⟩
  | markPrivate owner s =>
      cases owner with
      | leader =>
          obtain ⟨v, hunused, rfl⟩ := markLeader_ok hrole hok
          exact ⟨h.mark v hunused, hrole⟩
      | follower =>
          obtain ⟨hbounds, hunused, rfl⟩ := markFollower_ok hrole hok
          exact ⟨h.markFollower hbounds hunused, hrole⟩
  | assign owner s data =>
      cases assign_ok hok with
      | inl hok => exact ⟨h.assignRaw hok, by rw [(assignRaw_ok hok).2.2, hrole]⟩
      | inr hd => exact ⟨hd ▸ h, hd ▸ hrole⟩
  | commit s =>
      obtain ⟨-, zk, -, -, hd⟩ := commitRaw_ok hok
      exact ⟨h.commitRaw hok, by rw [hd, hrole]⟩
  | call c =>
      obtain ⟨output, hcall⟩ := call_ok hok
      exact ⟨h.callRaw hcall, by rw [callRaw_ok hcall, hrole]⟩
  | decode s => exact ⟨h.decodeRaw hok, by rw [(decodeRaw_ok hok).2, hrole]⟩
  | execute => exact ⟨execute_ok hok ▸ h, execute_ok hok ▸ hrole⟩

/-- A step which returns keeps the cells the same. -/
theorem synced {step : Step} (hrole : d.role = role) (h : Synced d)
    (hok : step.run role d = .ok () d') : Synced d' := by
  cases step with
  | alloc size =>
      obtain ⟨output, halloc⟩ := alloc_ok hok
      exact h.allocRaw halloc
  | markPublic s =>
      obtain ⟨-, hunused, -, rfl⟩ := mark_ok hok
      exact h.mark .isPublic hunused
  | markPrivate owner s =>
      cases owner with
      | leader =>
          obtain ⟨v, hunused, rfl⟩ := markLeader_ok hrole hok
          exact h.mark v hunused
      | follower =>
          obtain ⟨hbounds, hunused, rfl⟩ := markFollower_ok hrole hok
          exact h.markFollower hbounds hunused
  | assign owner s data =>
      cases assign_ok hok with
      | inl hok => exact h.assignRaw hok
      | inr hd => exact hd ▸ h
  | commit s => exact h.commitRaw hok
  | call c =>
      obtain ⟨output, hcall⟩ := call_ok hok
      exact h.callRaw hcall
  | decode s => exact h.decodeRaw hok
  | execute => exact execute_ok hok ▸ h

/-! ## Steps which fail -/

variable {e : Fault VmError}

theorem bind_return_error {α : Type} {x : Op α}
    (h : (x >>= fun _ => (return () : Op Unit)) d = .error e d') : x d = .error e d' := by
  cases Fault.run_bind_error_iff.mp h with
  | inl h => exact h
  | inr h =>
      obtain ⟨a, d₁, -, hreturn⟩ := h
      cases hreturn

theorem markPrivate_error {owner : Role} (hrole : d.role = role) (h : Attuned d)
    (herror : (markPrivate owner s).run role d = .error e d') : d' = d := by
  cases owner with
  | leader =>
      cases role with
      | leader =>
          rw [run, if_pos rfl, markPrivateRaw, Fault.get_bind, hrole] at herror
          exact h.mark_error herror
      | follower =>
          rw [run, if_neg (by decide), markBlindRaw, Fault.get_bind, hrole] at herror
          exact h.mark_error herror
  | follower =>
      cases role with
      | leader =>
          rw [run, if_neg (by decide), markBlindRaw, Fault.get_bind, hrole] at herror
          exact h.markFollower_error herror
      | follower =>
          rw [run, if_pos rfl, markPrivateRaw, Fault.get_bind, hrole] at herror
          exact h.markFollower_error herror

theorem assign_error {owner : Option Role} {data : List Bool}
    (herror : (assign owner s data).run role d = .error e d') :
    assignRaw s data d = .error e d' := by
  rw [run] at herror
  split at herror
  · exact herror
  · cases herror

/-- A step which fails leaves the MPC machine and the outputs. -/
theorem attuned_error {step : Step} (hrole : d.role = role) (h : Attuned d)
    (herror : step.run role d = .error e d') :
    Attuned d' ∧ d'.mpc = d.mpc ∧ d'.outputs = d.outputs ∧ d'.role = d.role := by
  have hsame (hd : d' = d) :
      Attuned d' ∧ d'.mpc = d.mpc ∧ d'.outputs = d.outputs ∧ d'.role = d.role := by
    rw [hd]
    exact ⟨h, rfl, rfl, rfl⟩
  cases step with
  | alloc size => exact hsame (Attuned.allocRaw_error (bind_return_error herror))
  | markPublic s => exact hsame (h.mark_error herror)
  | markPrivate owner s => exact hsame (markPrivate_error hrole h herror)
  | assign owner s data => exact h.assignRaw_error (assign_error herror)
  | commit s => exact h.commitRaw_error herror
  | call c => exact hsame (h.callRaw_error (bind_return_error herror))
  | decode s => exact hsame (h.decodeRaw_error herror)
  | execute => cases herror

/-- The step has nothing to do with the inputs of the follower. Nothing is said of the steps
which leave nothing behind when they fail. -/
def Apart (d : Deap) : Step → Prop
  | assign _ s _ => ∀ i ∈ positions s, i ∉ d.followerInputs
  | commit s => ∀ i ∈ positions s, i ∉ d.followerInputs
  | _ => True

instance (d : Deap) (step : Step) : Decidable (step.Apart d) :=
  match step with
  | assign _ s _ => inferInstanceAs (Decidable (∀ i ∈ positions s, i ∉ d.followerInputs.vals))
  | commit s => inferInstanceAs (Decidable (∀ i ∈ positions s, i ∉ d.followerInputs.vals))
  | alloc _ | markPublic _ | markPrivate _ _ | call _ | decode _ | execute =>
      inferInstanceAs (Decidable True)

/-- A step which fails, and has nothing to do with these inputs, leaves nothing behind. -/
theorem synced_error {step : Step} (hrole : d.role = role) (h : Synced d) (hapart : step.Apart d)
    (herror : step.run role d = .error e d') : d' = d := by
  cases step with
  | alloc size => exact Attuned.allocRaw_error (bind_return_error herror)
  | markPublic s => exact h.mark_error herror
  | markPrivate owner s => exact markPrivate_error hrole h.toAttuned herror
  | assign owner s data => exact h.assignRaw_error hapart (assign_error herror)
  | commit s => exact h.commitRaw_error hapart herror
  | call c => exact h.callRaw_error (bind_return_error herror)
  | decode s => exact h.decodeRaw_error herror
  | execute => cases herror

/-! ## What steps have done -/

/-- How much memory the step takes. -/
def size : Step → Nat
  | alloc size => size
  | call c => c.outputLen
  | _ => 0

def decodes : Step → List Slice
  | decode s => [s]
  | _ => []

/-- The call which the step makes, with its output at the end of the memory. -/
def calls (next : Nat) : Step → List (Call × Slice)
  | call c => [(c, ⟨next, c.outputLen⟩)]
  | _ => []

end Step

/-- The calls which these steps make, one after the other. -/
def placed (next : Nat) : List Step → List (Call × Slice)
  | [] => []
  | step :: steps => step.calls next ++ placed (next + step.size) steps

theorem placed_append (next : Nat) (steps steps' : List Step) :
    placed next (steps ++ steps') =
      placed next steps ++ placed (next + (steps.map Step.size).sum) steps' := by
  induction steps generalizing next with
  | nil => rfl
  | cons step steps ih =>
      rw [List.cons_append, placed, placed, ih, List.map_cons, List.sum_cons, List.append_assoc,
        Nat.add_assoc]

/-- What the party has when these steps, and no other ones, returned. -/
structure Performed (next : Nat) (steps : List Step) (d : Deap) : Prop where
  size : d.mpc.next = next + (steps.map Step.size).sum
  calls : d.mpc.calls = placed next steps
  outputs : d.outputs = steps.flatMap Step.decodes

namespace Performed

variable {role : Role} {next : Nat} {steps : List Step} {step : Step} {d d' : Deap}

theorem new (role : Role) (next : Nat) : Performed next [] (.new role (.new next) (.new next)) :=
  ⟨rfl, rfl, rfl⟩

theorem append (h : Performed next steps d) (hnext : d'.mpc.next = d.mpc.next + step.size)
    (hcalls : d'.mpc.calls = d.mpc.calls ++ step.calls d.mpc.next)
    (houtputs : d'.outputs = d.outputs ++ step.decodes) :
    Performed next (steps ++ [step]) d' := by
  constructor
  · rw [hnext, h.size, List.map_append, List.sum_append, List.map_singleton, List.sum_singleton,
      Nat.add_assoc]
  · rw [hcalls, h.calls, h.size, placed_append, placed, placed, List.append_nil]
  · rw [houtputs, h.outputs, List.flatMap_append, List.flatMap_singleton]

/-- A step which returns takes its memory, makes its call, and decodes its output. -/
theorem snoc (h : Performed next steps d) (hrole : d.role = role)
    (hok : step.run role d = .ok () d') : Performed next (steps ++ [step]) d' := by
  cases step with
  | alloc size =>
      obtain ⟨output, halloc⟩ := Step.alloc_ok hok
      obtain rfl := allocRaw_ok halloc
      exact h.append rfl (List.append_nil _).symm (List.append_nil _).symm
  | markPublic s =>
      obtain ⟨-, -, -, rfl⟩ := mark_ok hok
      exact h.append rfl (List.append_nil _).symm (List.append_nil _).symm
  | markPrivate owner s =>
      cases owner with
      | leader =>
          obtain ⟨v, -, rfl⟩ := Step.markLeader_ok hrole hok
          exact h.append rfl (List.append_nil _).symm (List.append_nil _).symm
      | follower =>
          obtain ⟨-, -, rfl⟩ := Step.markFollower_ok hrole hok
          exact h.append rfl (List.append_nil _).symm (List.append_nil _).symm
  | assign owner s data =>
      cases Step.assign_ok hok with
      | inl hok =>
          obtain ⟨-, -, rfl⟩ := assignRaw_ok hok
          exact h.append rfl (List.append_nil _).symm (List.append_nil _).symm
      | inr hd =>
          subst hd
          exact h.append rfl (List.append_nil _).symm (List.append_nil _).symm
  | commit s =>
      obtain ⟨-, zk, -, -, rfl⟩ := commitRaw_ok hok
      exact h.append rfl (List.append_nil _).symm (List.append_nil _).symm
  | call c =>
      obtain ⟨output, hcall⟩ := Step.call_ok hok
      obtain rfl := callRaw_ok hcall
      exact h.append rfl rfl (List.append_nil _).symm
  | decode s =>
      obtain ⟨-, rfl⟩ := decodeRaw_ok hok
      exact h.append rfl (List.append_nil _).symm rfl
  | execute =>
      obtain rfl := Step.execute_ok hok
      exact h.append rfl (List.append_nil _).symm (List.append_nil _).symm

end Performed

/-! ## Runs of one party -/

/-- A step which a party took, and whether it returned. -/
structure Attempt where
  before : Deap
  step : Step
  returned : Bool

/-- What a party did, from new machines. It may go on when a step failed. -/
inductive Runs (role : Role) (next : Nat) : List Attempt → Deap → Prop
  | new : Runs role next [] (.new role (.new next) (.new next))
  | returned {attempts : List Attempt} {step : Step} {d d' : Deap} (h : Runs role next attempts d)
      (hok : step.run role d = .ok () d') : Runs role next (attempts ++ [⟨d, step, true⟩]) d'
  | failed {attempts : List Attempt} {step : Step} {d d' : Deap} {e : Fault VmError}
      (h : Runs role next attempts d) (herror : step.run role d = .error e d') :
      Runs role next (attempts ++ [⟨d, step, false⟩]) d'

def returnedSteps (attempts : List Attempt) : List Step :=
  (attempts.filter Attempt.returned).map Attempt.step

theorem returnedSteps_append (attempts attempts' : List Attempt) :
    returnedSteps (attempts ++ attempts') = returnedSteps attempts ++ returnedSteps attempts' := by
  rw [returnedSteps, List.filter_append, List.map_append]
  rfl

/-- The attempts of a party which takes these steps. -/
def attempts (role : Role) (d : Deap) : List Step → List Attempt × Deap
  | [] => ([], d)
  | step :: steps =>
      match step.run role d with
      | .ok () d' =>
          let rest := attempts role d' steps
          (⟨d, step, true⟩ :: rest.1, rest.2)
      | .error _ d' =>
          let rest := attempts role d' steps
          (⟨d, step, false⟩ :: rest.1, rest.2)

theorem runs_attempts {role : Role} {next : Nat} {before : List Attempt} {d : Deap}
    (h : Runs role next before d) (steps : List Step) :
    Runs role next (before ++ (attempts role d steps).1) (attempts role d steps).2 := by
  induction steps generalizing before d with
  | nil =>
      rw [attempts, List.append_nil]
      exact h
  | cons step steps ih =>
      unfold attempts
      split
      · rename_i hok
        have hrest := ih (h.returned hok)
        rwa [List.append_assoc] at hrest
      · rename_i herror
        have hrest := ih (h.failed herror)
        rwa [List.append_assoc] at hrest

/-- Two bits of the follower and one of the leader, committed at once, and their conjunction. -/
def sampleSteps : List Step :=
  [.alloc 2, .alloc 1, .markPrivate .follower ⟨0, 2⟩, .markPrivate .leader ⟨2, 1⟩,
    .assign (some .follower) ⟨0, 2⟩ [true, false], .assign (some .leader) ⟨2, 1⟩ [true],
    .commit ⟨0, 3⟩, .call ⟨[⟨0, 3⟩], 1, fun args => [args.flatten.all id]⟩, .decode ⟨3, 1⟩,
    .execute]

/-- Then the leader tries to change its bit. -/
def sampleAttempts : List Attempt × Deap :=
  attempts .leader (.new .leader (.new 0) (.new 0))
    (sampleSteps ++ [.assign (some .leader) ⟨2, 1⟩ [false]])

namespace Step

variable {role : Role} {d d' : Deap} {s : Slice}

/-- The inputs of the follower are those which it marked private. -/
theorem mem_followerInputs {step : Step} (hrole : d.role = role)
    (hok : step.run role d = .ok () d') {i : Nat} :
    i ∈ d'.followerInputs ↔
      i ∈ d.followerInputs ∨ ∃ s, step = markPrivate .follower s ∧ i ∈ positions s := by
  have hsame (hstep : ∀ s, step ≠ markPrivate .follower s)
      (hd : d'.followerInputs = d.followerInputs) : i ∈ d'.followerInputs ↔
        i ∈ d.followerInputs ∨ ∃ s, step = markPrivate .follower s ∧ i ∈ positions s := by
    rw [hd]
    exact ⟨.inl, fun h => h.resolve_right fun ⟨s, hs, _⟩ => hstep s hs⟩
  cases step with
  | alloc size =>
      obtain ⟨output, halloc⟩ := alloc_ok hok
      exact hsame (fun _ => nofun) (by rw [allocRaw_ok halloc])
  | markPublic s =>
      obtain ⟨-, -, -, hd⟩ := mark_ok hok
      exact hsame (fun _ => nofun) (by rw [hd])
  | markPrivate owner s =>
      cases owner with
      | leader =>
          obtain ⟨v, -, hd⟩ := markLeader_ok hrole hok
          exact hsame (fun _ => nofun) (by rw [hd])
      | follower =>
          obtain ⟨-, -, rfl⟩ := markFollower_ok hrole hok
          rw [RangeSet.mem_union, RangeSet.mem_ofRange]
          refine or_congr_right ⟨fun h => ⟨s, rfl, mem_positions.mpr h⟩, ?_⟩
          rintro ⟨t, ht, hi⟩
          cases ht
          exact mem_positions.mp hi
  | assign owner s data =>
      refine hsame (fun _ => nofun) ?_
      cases assign_ok hok with
      | inl hok => rw [(assignRaw_ok hok).2.2]
      | inr hd => rw [hd]
  | commit s =>
      obtain ⟨-, zk, -, -, hd⟩ := commitRaw_ok hok
      exact hsame (fun _ => nofun) (by rw [hd])
  | call c =>
      obtain ⟨output, hcall⟩ := call_ok hok
      exact hsame (fun _ => nofun) (by rw [callRaw_ok hcall])
  | decode s => exact hsame (fun _ => nofun) (by rw [(decodeRaw_ok hok).2])
  | execute => exact hsame (fun _ => nofun) (by rw [execute_ok hok])

end Step

/-- What the parties have in common. -/
structure Agree (l f : Deap) : Prop where
  next : l.mpc.next = f.mpc.next
  calls : l.mpc.calls = f.mpc.calls
  outputs : l.outputs = f.outputs
  followerInputs : l.followerInputs = f.followerInputs
  committed : ∀ i, (l.mpc.cell i).committed = (f.mpc.cell i).committed

namespace Agree

variable {l l' f f' : Deap} {s : Slice}

theorem new (next : Nat) :
    Agree (.new .leader (.new next) (.new next)) (.new .follower (.new next) (.new next)) :=
  ⟨rfl, rfl, rfl, rfl, fun _ => rfl⟩

theorem committed_update {vm vm' : IdealVm} {g g' : Nat → Cell → Cell}
    (h : ∀ i, (vm.cell i).committed = (vm'.cell i).committed)
    (hg : ∀ i c c', c.committed = c'.committed → (g i c).committed = (g' i c').committed)
    (i : Nat) :
    ((vm.update s g).cell i).committed = ((vm'.update s g').cell i).committed := by
  by_cases hi : i ∈ positions s
  · rw [update_of_mem hi, update_of_mem hi]
    exact hg i _ _ (h i)
  · rw [update_of_not_mem hi, update_of_not_mem hi, h i]

theorem committed_mark {vm vm' : IdealVm} (v v' : Visibility)
    (h : ∀ i, (vm.cell i).committed = (vm'.cell i).committed) (i : Nat) :
    ((vm.update s fun _ c => { c with use := .input v }).cell i).committed =
      ((vm'.update s fun _ c => { c with use := .input v' }).cell i).committed := by
  refine committed_update h ?_ i
  intro _ c c' hc
  exact hc

theorem committed_commit {vm vm' : IdealVm}
    (h : ∀ i, (vm.cell i).committed = (vm'.cell i).committed) (i : Nat) :
    ((vm.update s fun _ c => { c with committed := true }).cell i).committed =
      ((vm'.update s fun _ c => { c with committed := true }).cell i).committed := by
  refine committed_update h ?_ i
  intro _ _ _ _
  rfl

theorem step {step : Step} (hl : l.role = .leader) (hf : f.role = .follower) (h : Agree l f)
    (hlok : step.run .leader l = .ok () l') (hfok : step.run .follower f = .ok () f') :
    Agree l' f' := by
  cases step with
  | alloc size =>
      obtain ⟨output, hleader⟩ := Step.alloc_ok hlok
      obtain ⟨output', hfollower⟩ := Step.alloc_ok hfok
      obtain rfl := allocRaw_ok hleader
      obtain rfl := allocRaw_ok hfollower
      exact { h with next := congrArg (· + size) h.next }
  | markPublic s =>
      obtain ⟨-, -, -, rfl⟩ := mark_ok hlok
      obtain ⟨-, -, -, rfl⟩ := mark_ok hfok
      exact { h with committed := committed_mark _ _ h.committed }
  | markPrivate owner s =>
      cases owner with
      | leader =>
          obtain ⟨v, -, rfl⟩ := Step.markLeader_ok hl hlok
          obtain ⟨v', -, rfl⟩ := Step.markLeader_ok hf hfok
          exact { h with committed := committed_mark _ _ h.committed }
      | follower =>
          obtain ⟨-, -, rfl⟩ := Step.markFollower_ok hl hlok
          obtain ⟨-, -, rfl⟩ := Step.markFollower_ok hf hfok
          exact { h with
            committed := committed_mark _ _ h.committed
            followerInputs := congrArg (·.union (.ofRange (toRange s))) h.followerInputs }
  | assign owner s data =>
      have hcommitted : ∀ {d d' : Deap}, assignRaw s data d = .ok () d' ∨ d' = d →
          d'.mpc.next = d.mpc.next ∧ d'.mpc.calls = d.mpc.calls ∧ d'.outputs = d.outputs ∧
            d'.followerInputs = d.followerInputs ∧
            ∀ i, (d'.mpc.cell i).committed = (d.mpc.cell i).committed := by
        intro d d' hd
        cases hd with
        | inl hd =>
            obtain ⟨-, -, rfl⟩ := assignRaw_ok hd
            refine ⟨rfl, rfl, rfl, rfl, fun i => ?_⟩
            by_cases hi : i ∈ positions s
            · rw [update_of_mem hi]
            · rw [update_of_not_mem hi]
        | inr hd => exact hd ▸ ⟨rfl, rfl, rfl, rfl, fun _ => rfl⟩
      obtain ⟨hnext, hcalls, houtputs, hinputs, hcell⟩ := hcommitted (Step.assign_ok hlok)
      obtain ⟨hnext', hcalls', houtputs', hinputs', hcell'⟩ := hcommitted (Step.assign_ok hfok)
      exact ⟨by rw [hnext, hnext', h.next], by rw [hcalls, hcalls', h.calls],
        by rw [houtputs, houtputs', h.outputs], by rw [hinputs, hinputs', h.followerInputs],
        fun i => by rw [hcell, hcell', h.committed]⟩
  | commit s =>
      obtain ⟨-, -, -, -, rfl⟩ := commitRaw_ok hlok
      obtain ⟨-, -, -, -, rfl⟩ := commitRaw_ok hfok
      exact { h with committed := committed_commit h.committed }
  | call c =>
      obtain ⟨output, hleader⟩ := Step.call_ok hlok
      obtain ⟨output', hfollower⟩ := Step.call_ok hfok
      obtain rfl := callRaw_ok hleader
      obtain rfl := callRaw_ok hfollower
      refine { h with
        next := congrArg (· + c.outputLen) h.next
        calls := by simp only [called, h.next, h.calls]
        committed := fun i => ?_ }
      rw [called_cell, called_cell, h.next]
      split
      · rfl
      · exact h.committed i
  | decode s =>
      obtain ⟨-, rfl⟩ := decodeRaw_ok hlok
      obtain ⟨-, rfl⟩ := decodeRaw_ok hfok
      exact { h with outputs := congrArg (· ++ [s]) h.outputs }
  | execute =>
      obtain rfl := Step.execute_ok hlok
      obtain rfl := Step.execute_ok hfok
      exact h

end Agree

/-- The parties took these steps, from new machines. -/
inductive Mirrored (next : Nat) : List Step → Deap → Deap → Prop
  | new : Mirrored next [] (.new .leader (.new next) (.new next))
      (.new .follower (.new next) (.new next))
  | snoc {steps : List Step} {step : Step} {l l' f f' : Deap} (h : Mirrored next steps l f)
      (hl : step.run .leader l = .ok () l') (hf : step.run .follower f = .ok () f') :
      Mirrored next (steps ++ [step]) l' f'

structure Consistent (next : Nat) (steps : List Step) (l f : Deap) : Prop where
  leader : Synced l
  follower : Synced f
  leaderRole : l.role = .leader
  followerRole : f.role = .follower
  leaderPerformed : Performed next steps l
  followerPerformed : Performed next steps f
  agree : Agree l f
  followerInputs : ∀ i, i ∈ f.followerInputs ↔
    ∃ s, Step.markPrivate .follower s ∈ steps ∧ i ∈ positions s

theorem Mirrored.consistent {next : Nat} {steps : List Step} {l f : Deap}
    (h : Mirrored next steps l f) : Consistent next steps l f := by
  induction h with
  | new =>
      refine ⟨.new .leader next, .new .follower next, rfl, rfl, .new .leader next,
        .new .follower next, .new next, fun i => ?_⟩
      exact ⟨fun hi => absurd hi (RangeSet.not_mem_empty i), fun ⟨_, hs, _⟩ => nomatch hs⟩
  | @snoc steps step l l' f f' h hl hf ih =>
      refine ⟨Step.synced ih.leaderRole ih.leader hl, Step.synced ih.followerRole ih.follower hf,
        (Step.attuned ih.leaderRole ih.leader.toAttuned hl).2,
        (Step.attuned ih.followerRole ih.follower.toAttuned hf).2,
        ih.leaderPerformed.snoc ih.leaderRole hl, ih.followerPerformed.snoc ih.followerRole hf,
        ih.agree.step ih.leaderRole ih.followerRole hl hf, fun i => ?_⟩
      rw [Step.mem_followerInputs ih.followerRole hf, ih.followerInputs]
      simp only [List.mem_append, List.mem_singleton, or_and_right, exists_or,
        eq_comm (a := step)]

end Tlsn.DualExecution

import Tlsn.KeyExchange.Run

/-!
A party with any peer, whose methods are called in any order. The steps which return are
taken in the order of the protocol, each once, and the last of them only if the circuit got
twice the same value.
-/

namespace Tlsn.KeyExchange

open LocalOp Interactive

/-- The methods of the key exchange. -/
inductive PartyOp where
  | alloc
  | setServerKey (key : PublicKey)
  | clientKey
  | setup
  | computeShares
  | assign
  | finalize (decoded : Ref → Except String Bytes32)

namespace PartyOp

def run : PartyOp → Exchange PartyState Unit
  | alloc => do
      let _ ← Interactive.alone KeyExchange.alloc
      return ()
  | setServerKey key => Interactive.alone (KeyExchange.setServerKey key)
  | clientKey => do
      let _ ← Interactive.alone KeyExchange.clientKey
      return ()
  | setup => KeyExchange.setup
  | computeShares => KeyExchange.computeShares
  | assign => Interactive.alone KeyExchange.assign
  | finalize decoded => Interactive.alone (KeyExchange.finalize decoded)

end PartyOp

/-- The steps of the protocol. -/
inductive Step where
  | alloc
  | setup
  | computeShares
  | assign
  | finalize
deriving DecidableEq

def Step.all : List Step := [.alloc, .setup, .computeShares, .assign, .finalize]

def PartyOp.step? : PartyOp → Option Step
  | alloc => some .alloc
  | setServerKey _ => none
  | clientKey => none
  | setup => some .setup
  | computeShares => some .computeShares
  | assign => some .assign
  | finalize _ => some .finalize

/-- The steps which led to a state. The error state does not tell. -/
def State.steps? : State → Option (List Step)
  | initialized => some []
  | setup _ => some [.alloc]
  | followerKey _ _ => some [.alloc, .setup]
  | computedEcShares _ _ _ => some [.alloc, .setup, .computeShares]
  | equalityCheck _ => some [.alloc, .setup, .computeShares, .assign]
  | complete => some Step.all
  | error => none

/-- The circuit was called on the arrays. -/
def Slots.Called (slots : Slots) (vm : Vm) : Prop :=
  ∃ pms0 pms1, VmOp.call slots.shareA0 slots.shareB0 slots.shareA1 slots.shareB1 pms0 pms1
    slots.eq ∈ vm.log

def State.Tracked (vm : Vm) : State → Prop
  | setup slots => slots.Called vm
  | followerKey _ slots => slots.Called vm
  | computedEcShares slots _ _ => slots.Called vm
  | equalityCheck eq => ∃ slots : Slots, slots.eq = eq ∧ slots.Called vm
  | _ => True

def PartyState.Tracked (s : PartyState) : Prop := s.ke.state.Tracked s.vm

/-- What a method does that returns. -/
def PartyOp.Advances (op : PartyOp) (s t : PartyState) : Prop :=
  match op.step? with
  | some step => ∃ steps, s.ke.state.steps? = some steps ∧
      t.ke.state.steps? = some (steps ++ [step])
  | none => t.ke.state = s.ke.state

/-- What a method does that fails. -/
def PartyOp.Fails (op : PartyOp) (s t : PartyState) : Prop :=
  t.ke.state = .error ∨ op.step? = none ∧ t.ke.state = s.ke.state

/-! ## What each method does -/

section Stays

variable {σ : Type}

theorem stays_convert (q : Query) : Stays (Exchange.convert q : Exchange σ (List P256)) := by
  refine (Stays.query q).bind fun reply => ?_
  cases reply with
  | shares shares => exact Stays.pure _
  | failed text => exact Stays.throw _
  | sent => exact Stays.throw _
  | key key => exact Stays.throw _

theorem stays_deriveXCoordShare (role : Role) (converter : Converter) (share : EncodedPoint) :
    Stays (deriveXCoordShare role converter share : Exchange σ P256) := by
  refine (Stays.lift _).bind fun point => (stays_convert _).bind fun shares => ?_
  match shares with
  | [] => exact Stays.throw _
  | [_] => exact Stays.throw _
  | _ :: _ :: _ :: _ => exact Stays.throw _
  | [a, b] =>
      dsimp only
      cases b.inverse with
      | none => exact Stays.throw _
      | some inverse =>
          refine (stays_convert _).bind fun shares => ?_
          cases shares with
          | nil => exact Stays.throw _
          | cons d shares => exact Stays.pure _

theorem stays_computeEcShares (role : Role) (key : SecretKey) (serverKey : PublicKey) :
    Stays (computeEcShares role key serverKey) :=
  (Stays.lift _).bind fun _ => (stays_deriveXCoordShare _ _ _).bind fun _ =>
    (stays_deriveXCoordShare _ _ _).bind fun _ => Stays.pure _

theorem stays_getFollowerKey : Stays getFollowerKey := by
  refine Stays.get.bind fun s => ?_
  cases s.ke.role with
  | leader =>
      refine (Stays.query _).bind fun reply => ?_
      cases reply with
      | key key => exact Stays.pure _
      | failed text => exact Stays.throw _
      | sent => exact Stays.throw _
      | shares shares => exact Stays.throw _
  | follower =>
      refine (Stays.query _).bind fun reply => ?_
      cases reply with
      | sent => exact Stays.pure _
      | failed text => exact Stays.throw _
      | key key => exact Stays.throw _
      | shares shares => exact Stays.throw _

end Stays

section Methods

variable {n : Ref} {log : List VmOp} {vm : Vm} {role : Role} {key : SecretKey}
  {server : Option PublicKey} {state : State}

/-- A method does what it should, and the arrays stay tracked. -/
abbrev PartyOp.Keeps (op : PartyOp) (s : PartyState) : Prop :=
  After (fun _ t => t.Tracked ∧ op.Advances s t) (fun t => t.Tracked ∧ op.Fails s t) op.run s

theorem keeps_alloc : PartyOp.Keeps .alloc ⟨⟨n, log⟩, ⟨role, state, key, server⟩⟩ := by
  cases state with
  | initialized =>
      refine .alone_bind (alloc_ok role key server) (.pure ⟨?_, [], rfl, rfl⟩)
      exact ⟨_, _, List.mem_append_right _ (pmsCall_mem_allocOps role n)⟩
  | setup | followerKey | computedEcShares | equalityCheck | complete | error =>
      exact .alone_bind_error rfl ⟨trivial, .inl rfl⟩

theorem keeps_setServerKey (serverKey : PublicKey)
    (h : PartyState.Tracked ⟨vm, ⟨role, state, key, server⟩⟩) :
    PartyOp.Keeps (.setServerKey serverKey) ⟨vm, ⟨role, state, key, server⟩⟩ := by
  refine .alone (fun a t hok => ?_) fun e t herror => nomatch herror
  cases hok
  exact ⟨h, rfl⟩

theorem keeps_clientKey (h : PartyState.Tracked ⟨vm, ⟨role, state, key, server⟩⟩) :
    PartyOp.Keeps .clientKey ⟨vm, ⟨role, state, key, server⟩⟩ := by
  have hfails : PartyOp.Fails .clientKey ⟨vm, ⟨role, state, key, server⟩⟩
      ⟨vm, ⟨role, state, key, server⟩⟩ := .inr ⟨rfl, rfl⟩
  cases role with
  | follower => exact .alone_bind_error rfl ⟨h, hfails⟩
  | leader =>
      cases state with
      | followerKey followerKey slots =>
          by_cases hzero : key.publicKey + followerKey = 0
          · have hkey : fromAffine (key.publicKey + followerKey) =
                .error (.err (.key "crypto error")) := if_pos hzero
            exact .alone_bind_error (Fault.lift_of_error hkey _) ⟨h, hfails⟩
          · have hkey : fromAffine (key.publicKey + followerKey) =
                .ok (key.publicKey + followerKey) := if_neg hzero
            exact .alone_bind (Fault.lift_of_ok hkey _) (.pure ⟨h, rfl⟩)
      | initialized | setup | computedEcShares | equalityCheck | complete | error =>
          exact .alone_bind_error rfl ⟨h, hfails⟩

theorem keeps_setup (h : PartyState.Tracked ⟨vm, ⟨role, state, key, server⟩⟩) :
    PartyOp.Keeps .setup ⟨vm, ⟨role, state, key, server⟩⟩ := by
  unfold PartyOp.Keeps PartyOp.run setup
  refine .alone_bind rfl ?_
  cases state with
  | setup slots =>
      refine .bind ((stays_getFollowerKey _).mono (fun _ _ ht => ht) ?_) ?_
      · rintro _ rfl
        exact ⟨trivial, .inl rfl⟩
      · rintro followerKey _ rfl
        refine .alone (fun a t hok => ?_) fun e t herror => nomatch herror
        cases hok
        exact ⟨h, _, rfl, rfl⟩
  | initialized | followerKey | computedEcShares | equalityCheck | complete | error =>
      exact .alone_error rfl ⟨trivial, .inl rfl⟩

theorem keeps_computeShares (h : PartyState.Tracked ⟨vm, ⟨role, state, key, server⟩⟩) :
    PartyOp.Keeps .computeShares ⟨vm, ⟨role, state, key, server⟩⟩ := by
  unfold PartyOp.Keeps PartyOp.run computeShares
  refine .alone_bind rfl ?_
  cases state with
  | followerKey followerKey slots =>
      refine .alone_bind rfl ?_
      cases server with
      | none => exact .alone_error rfl ⟨trivial, .inl rfl⟩
      | some serverKey =>
          refine .bind ((stays_computeEcShares _ _ _ _).mono (fun _ _ ht => ht) ?_) ?_
          · rintro _ rfl
            exact ⟨trivial, .inl rfl⟩
          · rintro shares _ rfl
            refine .alone (fun a t hok => ?_) fun e t herror => nomatch herror
            cases hok
            exact ⟨h, _, rfl, rfl⟩
  | initialized | setup | computedEcShares | equalityCheck | complete | error =>
      exact .alone_error rfl ⟨trivial, .inl rfl⟩

theorem keeps_assign (h : PartyState.Tracked ⟨vm, ⟨role, state, key, server⟩⟩) :
    PartyOp.Keeps .assign ⟨vm, ⟨role, state, key, server⟩⟩ := by
  cases state with
  | computedEcShares slots pms0 pms1 =>
      refine .alone (fun a t hok => ?_) fun e t herror => ?_
      · rw [assign_ok] at hok
        cases hok
        obtain ⟨ref0, ref1, hcall⟩ := h
        exact ⟨⟨slots, rfl, ref0, ref1, List.mem_append_left _ hcall⟩, _, rfl, rfl⟩
      · rw [assign_ok] at herror
        cases herror
  | initialized | setup | followerKey | equalityCheck | complete | error =>
      exact .alone_error rfl ⟨trivial, .inl rfl⟩

theorem keeps_finalize (decoded : Ref → Except String Bytes32) :
    PartyOp.Keeps (.finalize decoded) ⟨vm, ⟨role, state, key, server⟩⟩ := by
  cases state with
  | equalityCheck eq =>
      have hrun := finalize_equalityCheck decoded vm eq role key server
      refine .alone (fun a t hok => ?_) fun e t herror => ?_
      · rw [hrun] at hok
        split at hok
        · cases hok
        · split at hok
          · cases hok
            exact ⟨trivial, _, rfl, rfl⟩
          · cases hok
      · rw [hrun] at herror
        split at herror
        · cases herror
          exact ⟨trivial, .inl rfl⟩
        · split at herror
          · cases herror
          · cases herror
            exact ⟨trivial, .inl rfl⟩
  | initialized | setup | followerKey | computedEcShares | complete | error =>
      exact .alone_error rfl ⟨trivial, .inl rfl⟩

end Methods

theorem PartyOp.keeps (op : PartyOp) {s : PartyState} (h : s.Tracked) : op.Keeps s := by
  obtain ⟨⟨n, log⟩, role, state, key, server⟩ := s
  cases op with
  | alloc => exact keeps_alloc
  | setServerKey serverKey => exact keeps_setServerKey serverKey h
  | clientKey => exact keeps_clientKey h
  | setup => exact keeps_setup h
  | computeShares => exact keeps_computeShares h
  | assign => exact keeps_assign h
  | finalize decoded => exact keeps_finalize decoded

/-! ## Runs -/

/-- The runs of a party, with the methods that returned. The replies to its queries are
any. -/
inductive Runs : List PartyOp → PartyState → Prop
  | new (vm : Vm) (role : Role) (key : SecretKey) : Runs [] ⟨vm, .new role key⟩
  | returned {ops : List PartyOp} {s t : PartyState} {op : PartyOp} (h : Runs ops s)
      (hop : Party.Ends (op.run s) (.ok () t)) : Runs (ops ++ [op]) t
  | failed {ops : List PartyOp} {s t : PartyState} {op : PartyOp}
      {e : Fault KeyExchangeError} (h : Runs ops s)
      (hop : Party.Ends (op.run s) (.error e t)) : Runs ops t

namespace Runs

variable {ops : List PartyOp} {s : PartyState}

theorem tracked (h : Runs ops s) : s.Tracked := by
  induction h with
  | new vm role key => exact trivial
  | @returned ops s t op _ hop ih => exact ((op.keeps ih).ok () t hop).1
  | @failed ops s t op e _ hop ih => exact ((op.keeps ih).error e t hop).1

/-- The steps that returned are those which led to the state, unless it is the error state. -/
theorem steps (h : Runs ops s) :
    ∃ last : State, last.steps? = some (ops.filterMap PartyOp.step?) ∧
      (s.ke.state = last ∨ s.ke.state = .error) := by
  induction h with
  | new vm role key => exact ⟨.initialized, rfl, .inl rfl⟩
  | @returned ops s t op hrun hop ih =>
      obtain ⟨last, hlast, hs⟩ := ih
      have hadvances := ((op.keeps hrun.tracked).ok () t hop).2
      unfold PartyOp.Advances at hadvances
      cases hstep : op.step? with
      | none =>
          rw [hstep] at hadvances
          refine ⟨last, ?_, ?_⟩
          · rw [List.filterMap_append, List.filterMap_cons_none hstep, List.filterMap_nil,
              List.append_nil]
            exact hlast
          · rw [show t.ke.state = s.ke.state from hadvances]
            exact hs
      | some step =>
          rw [hstep] at hadvances
          obtain ⟨steps, hbefore, hafter⟩ := hadvances
          rcases hs with hs | hs
          · rw [hs, hlast] at hbefore
            refine ⟨t.ke.state, ?_, .inl rfl⟩
            rw [List.filterMap_append, List.filterMap_cons_some hstep, List.filterMap_nil, hafter,
              Option.some.inj hbefore]
          · rw [hs] at hbefore
            cases hbefore
  | @failed ops s t op e hrun hop ih =>
      obtain ⟨last, hlast, hs⟩ := ih
      refine ⟨last, hlast, ?_⟩
      rcases ((op.keeps hrun.tracked).error e t hop).2 with herror | ⟨-, hsame⟩
      · exact .inr herror
      · rw [hsame]
        exact hs

end Runs

theorem State.steps?_prefix {state : State} {steps : List Step} (h : state.steps? = some steps) :
    steps <+: Step.all := by
  cases state <;> cases h <;> exact ⟨_, rfl⟩

/-- Whatever the peer does and in whatever order the methods are called: the steps that
returned are the first ones of the protocol, each once, and a party that is not in the error
state is where these lead. -/
theorem steps_in_order {ops : List PartyOp} {s : PartyState} (h : Runs ops s) :
    ops.filterMap PartyOp.step? <+: Step.all ∧
      (∀ steps, s.ke.state.steps? = some steps → steps = ops.filterMap PartyOp.step?) := by
  obtain ⟨last, hlast, hs⟩ := h.steps
  refine ⟨State.steps?_prefix hlast, fun steps hsteps => ?_⟩
  rcases hs with hs | hs
  · rw [hs, hlast] at hsteps
    exact (Option.some.inj hsteps).symm
  · rw [hs] at hsteps
    cases hsteps

theorem steps_in_order_alloc :
    ∃ s, Runs [.setServerKey generator, .alloc] s ∧
      (∀ steps, s.ke.state.steps? = some steps → steps = [.alloc]) := by
  have hreturns : ∀ {ops : List PartyOp} {s t : PartyState} (op : PartyOp), Runs ops s →
      op.run s = .done (.ok () t) → Runs (ops ++ [op]) t :=
    fun op hrun hop => hrun.returned (hop ▸ .done _)
  have hnew : Runs [] ⟨⟨0, []⟩, .new .leader ⟨1, by decide⟩⟩ := .new _ _ _
  have halloc : Runs ([.setServerKey generator] ++ [.alloc]) _ :=
    hreturns .alloc (hreturns (.setServerKey generator) hnew rfl) rfl
  exact ⟨_, halloc, (steps_in_order halloc).2⟩

theorem finalize_ok_iff {nbyteAddModTrace : AddMod} {ops : List PartyOp} {s : PartyState} {eq : Ref}
    (h : Runs ops s) (hstate : s.ke.state = .equalityCheck eq) :
    ∃ shareA0 shareB0 shareA1 shareB1 pms0 pms1,
      VmOp.call shareA0 shareB0 shareA1 shareB1 pms0 pms1 eq ∈ s.vm.log ∧
      ∀ mem : Memory, s.vm.Holds nbyteAddModTrace mem →
        ((∃ t, finalize (fun ref => .ok (mem ref)) s = .ok () t) ↔ mem pms0 = mem pms1) := by
  have htracked := h.tracked
  unfold PartyState.Tracked at htracked
  rw [hstate] at htracked
  obtain ⟨slots, rfl, pms0, pms1, hcall⟩ := htracked
  refine ⟨_, _, _, _, pms0, pms1, hcall, fun mem hmem => ?_⟩
  obtain ⟨hpms0, hpms1, heq⟩ := hmem _ hcall
  have hzero : mem slots.eq = zero32 ↔ mem pms0 = mem pms1 := by
    rw [heq, hpms0, hpms1]
    exact pmsCircuit_eq_zero_iff
  obtain ⟨vm, role, state, key, server⟩ := s
  cases hstate
  rw [finalize_equalityCheck, ← hzero]
  constructor
  · rintro ⟨t, ht⟩
    by_contra hne
    dsimp only at ht
    rw [if_neg hne] at ht
    cases ht
  · intro hmem
    exact ⟨_, if_pos hmem⟩

/-- Two honest parties get the secret of the server's key and the sum of their own, whatever
the shares are in between. A party with any peer finalizes only with two equal values. -/
theorem key_exchange_sound {nbyteAddModTrace : AddMod} (hcircuit : nbyteAddModTrace.Correct)
    {a b : SecretKey} {S : PublicKey} {x₁ x₂ : P256} (ha : xCoord (a.val • S) = some x₁)
    (hb : xCoord (b.val • S) = some x₂) (hx : x₁ ≠ x₂) (hS : ∃ k : Nat, S = k • generator)
    {vm vm' : Vm} (hnext : vm'.next = vm.next) :
    Interactive.Ensures ShareConvert (Agreed nbyteAddModTrace a b S vm vm') (exchange S)
        (exchange S) ⟨vm, .new .leader a⟩ ⟨vm', .new .follower b⟩ ∧
      ∀ ops s eq, Runs ops s → s.ke.state = .equalityCheck eq →
        ∃ shareA0 shareB0 shareA1 shareB1 pms0 pms1,
          VmOp.call shareA0 shareB0 shareA1 shareB1 pms0 pms1 eq ∈ s.vm.log ∧
          ∀ mem : Memory, s.vm.Holds nbyteAddModTrace mem →
            ((∃ t, finalize (fun ref => .ok (mem ref)) s = .ok () t) ↔ mem pms0 = mem pms1) :=
  ⟨exchange_ensures hcircuit ha hb hx hS hnext, fun _ _ _ h hstate => finalize_ok_iff h hstate⟩

/-- An addition on the numbers that the bytes are. -/
def sampleAddMod : AddMod := fun x y m =>
  bytes32 ((beValue x.toList + beValue y.toList) % beValue m.toList)

theorem beValue_bytes32 {n : Nat} (h : n < 256 ^ 32) : beValue (bytes32 n).toList = n :=
  beValue_beBytes h

theorem sampleAddMod_correct : sampleAddMod.Correct := by
  intro m x y hm hx hy
  rw [sampleAddMod, beValue_bytes32 hm, beValue_bytes32 (Nat.lt_trans hx hm),
    beValue_bytes32 (Nat.lt_trans hy hm)]

def sampleX : P256 := 0x7cf27b188d034f7e8a52380304b51ac3c08969e277f21b35a60b48fc47669978

theorem key_exchange_sound_sample :
    Interactive.Ensures ShareConvert
      (Agreed sampleAddMod ⟨1, by decide⟩ ⟨2, by decide⟩ generator ⟨0, []⟩ ⟨0, []⟩)
      (exchange generator) (exchange generator) ⟨⟨0, []⟩, .new .leader ⟨1, by decide⟩⟩
      ⟨⟨0, []⟩, .new .follower ⟨2, by decide⟩⟩ := by
  have hleader : xCoord (1 • generator) = some generatorX := by decide +kernel
  have hfollower : xCoord (2 • generator) = some sampleX := by decide +kernel
  have hne : generatorX ≠ sampleX := by decide +kernel
  exact (key_exchange_sound sampleAddMod_correct hleader hfollower hne ⟨1, (one_nsmul _).symm⟩
    rfl).1

end Tlsn.KeyExchange

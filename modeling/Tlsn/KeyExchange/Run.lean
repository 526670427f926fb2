import Tlsn.KeyExchange.Exchange

/-!
Runs of the key exchange. Two honest parties get the secret of the server's key and the sum of
their own; a party whose peer does as it likes finishes only if the two values are equal.
-/

namespace Tlsn.KeyExchange

open LocalOp

/-! ## Honest parties -/

/-- The arrays which are given out from `n` on. -/
def Slots.at (n : Ref) : Slots := ⟨n, n + 1, n + 2, n + 3, n + 6⟩

def pmsCall (n : Ref) : VmOp := .call n (n + 1) (n + 2) (n + 3) (n + 4) (n + 5) (n + 6)

def allocOps (role : Role) (n : Ref) : List VmOp :=
  match role with
  | .leader =>
      [.markPrivate n, .markBlind (n + 1), .markPrivate (n + 2), .markBlind (n + 3), pmsCall n]
  | .follower =>
      [.markBlind n, .markPrivate (n + 1), .markBlind (n + 2), .markPrivate (n + 3), pmsCall n]

theorem pmsCall_mem_allocOps (role : Role) (n : Ref) : pmsCall n ∈ allocOps role n := by
  cases role <;> simp [allocOps]

def assignOps (role : Role) (slots : Slots) (share0 share1 : Bytes32) : List VmOp :=
  match role with
  | .leader =>
      [.assign slots.shareA0 share0, .commit slots.shareA0, .assign slots.shareA1 share1,
        .commit slots.shareA1, .commit slots.shareB0, .commit slots.shareB1, .decode slots.eq]
  | .follower =>
      [.assign slots.shareB0 share0, .commit slots.shareB0, .assign slots.shareB1 share1,
        .commit slots.shareB1, .commit slots.shareA0, .commit slots.shareA1, .decode slots.eq]

theorem take_bind {α : Type} (f : State → LocalOp α) (s : PartyState) :
    (take >>= f) s = f s.ke.state { s with ke := { s.ke with state := .error } } := rfl

theorem alloc_ok {n : Ref} {log : List VmOp} (role : Role) (key : SecretKey)
    (server : Option PublicKey) :
    alloc ⟨⟨n, log⟩, ⟨role, .initialized, key, server⟩⟩ =
      .ok (n + 4) ⟨⟨n + 7, log ++ allocOps role n⟩, ⟨role, .setup (.at n), key, server⟩⟩ := by
  have hassoc : ∀ a b c d e : VmOp,
      log ++ [a] ++ [b] ++ [c] ++ [d] ++ [e] = log ++ [a, b, c, d, e] := by simp
  cases role with
  | leader => exact congrArg (fun l => EStateM.Result.ok _ (⟨⟨_, l⟩, _⟩ : PartyState)) (hassoc ..)
  | follower =>
      exact congrArg (fun l => EStateM.Result.ok _ (⟨⟨_, l⟩, _⟩ : PartyState)) (hassoc ..)

theorem assign_ok {vm : Vm} {slots : Slots} {pms0 pms1 : P256} (role : Role) (key : SecretKey)
    (server : Option PublicKey) :
    assign ⟨vm, ⟨role, .computedEcShares slots pms0 pms1, key, server⟩⟩ =
      .ok () ⟨⟨vm.next, vm.log ++ assignOps role slots (bytes32 pms0.val) (bytes32 pms1.val)⟩,
        ⟨role, .equalityCheck slots.eq, key, server⟩⟩ := by
  have hassoc : ∀ a b c d e f g : VmOp, vm.log ++ [a] ++ [b] ++ [c] ++ [d] ++ [e] ++ [f] ++ [g] =
      vm.log ++ [a, b, c, d, e, f, g] := by simp
  rw [assign, take_bind]
  simp only [toArray_toBeBytes]
  cases role with
  | leader => exact congrArg (fun l => EStateM.Result.ok _ (⟨⟨_, l⟩, _⟩ : PartyState)) (hassoc ..)
  | follower =>
      exact congrArg (fun l => EStateM.Result.ok _ (⟨⟨_, l⟩, _⟩ : PartyState)) (hassoc ..)

theorem setup_ensures {vm vm' : Vm} {slots slots' : Slots} {a b : SecretKey}
    {server server' : Option PublicKey} :
    Interactive.Ensures ShareConvert
      (fun _ t _ t' => t = ⟨vm, ⟨.leader, .followerKey b.publicKey slots, a, server⟩⟩ ∧
        t' = ⟨vm', ⟨.follower, .followerKey b.publicKey slots', b, server'⟩⟩)
      setup setup ⟨vm, ⟨.leader, .setup slots, a, server⟩⟩
      ⟨vm', ⟨.follower, .setup slots', b, server'⟩⟩ := by
  refine ⟨⟨_, _, .key _⟩, ?_⟩
  intro r r' hideal
  cases hideal with
  | key key => exact ⟨rfl, rfl⟩

section Shares

variable {a b : SecretKey} {S : PublicKey} {x₁ x₂ : P256}

theorem fromAffine_of_xCoord {A : AffinePoint} {x : P256} (h : xCoord A = some x) :
    fromAffine A = .ok A := if_neg (ne_zero_of_xCoord h)

theorem computeEcShares_ensures (ha : xCoord (a.val • S) = some x₁)
    (hb : xCoord (b.val • S) = some x₂) (hx : x₁ ≠ x₂) (s s' : PartyState) :
    Interactive.Ensures ShareConvert
      (fun p t q t' => t = s ∧ t' = s' ∧ xCoord ((a.val + b.val) • S) = some (p.1 + q.1) ∧
        xCoord ((a.val + b.val) • S) = some (p.2 + q.2))
      (computeEcShares .leader a S) (computeEcShares .follower b S) s s' := by
  unfold computeEcShares
  rw [add_nsmul, fromAffine_of_xCoord ha, fromAffine_of_xCoord hb]
  refine Interactive.Ensures.alone_bind rfl rfl ?_
  refine Interactive.Ensures.bind (deriveXCoordShare_ensures ha hb hx .converter0 _ _) ?_
  rintro d t d' t' ⟨rfl, rfl, hd⟩
  refine Interactive.Ensures.bind (deriveXCoordShare_ensures ha hb hx .converter1 _ _) ?_
  rintro e t e' t' ⟨rfl, rfl, he⟩
  exact .pure ⟨rfl, rfl, hd, he⟩

theorem computeShares_ensures {vm vm' : Vm} {slots slots' : Slots} {key key' : PublicKey}
    (ha : xCoord (a.val • S) = some x₁) (hb : xCoord (b.val • S) = some x₂) (hx : x₁ ≠ x₂) :
    Interactive.Ensures ShareConvert
      (fun _ t _ t' => ∃ p0 p1 q0 q1 : P256,
        t = ⟨vm, ⟨.leader, .computedEcShares slots p0 p1, a, some S⟩⟩ ∧
        t' = ⟨vm', ⟨.follower, .computedEcShares slots' q0 q1, b, some S⟩⟩ ∧
        xCoord ((a.val + b.val) • S) = some (p0 + q0) ∧
        xCoord ((a.val + b.val) • S) = some (p1 + q1))
      computeShares computeShares ⟨vm, ⟨.leader, .followerKey key slots, a, some S⟩⟩
      ⟨vm', ⟨.follower, .followerKey key' slots', b, some S⟩⟩ := by
  have hshares := computeEcShares_ensures ha hb hx ⟨vm, ⟨.leader, .error, a, some S⟩⟩
    ⟨vm', ⟨.follower, .error, b, some S⟩⟩
  unfold computeShares
  refine Interactive.Ensures.alone_bind rfl rfl ?_
  refine Interactive.Ensures.alone_bind rfl rfl ?_
  refine Interactive.Ensures.bind hshares ?_
  rintro ⟨p0, p1⟩ t ⟨q0, q1⟩ t' ⟨rfl, rfl, hp, hq⟩
  exact .alone rfl rfl ⟨p0, p1, q0, q1, rfl, rfl, hp, hq⟩

end Shares

/-- The leader announces the client's key. -/
def announceKey : LocalOp (Option PublicKey) := do
  match (← get).ke.role with
  | .leader => some <$> clientKey
  | .follower => return none

/-- A key exchange up to the execution of the machine: the secret, and the client's key. -/
def exchange (serverKey : PublicKey) : Exchange PartyState (Ref × Option PublicKey) := do
  let pms ← Interactive.alone alloc
  setup
  let clientKey ← Interactive.alone announceKey
  Interactive.alone (setServerKey serverKey)
  computeShares
  Interactive.alone assign
  return (pms, clientKey)

/-- What two honest parties get, whose machines were `vm` and `vm'`. -/
structure Agreed (nbyteAddModTrace : AddMod) (a b : SecretKey) (S : PublicKey) (vm vm' : Vm)
    (r : Ref × Option PublicKey) (s : PartyState) (r' : Ref × Option PublicKey)
    (s' : PartyState) : Prop where
  pms : r'.1 = r.1
  clientKey : r.2 = some (a.publicKey + b.publicKey)
  secret : ∃ x shareA0 shareB0 shareA1 shareB1 pms1 eq, xCoord ((a.val + b.val) • S) = some x ∧
    (∀ k : Nat, S = k • generator → xCoord (k • (a.publicKey + b.publicKey)) = some x) ∧
    VmOp.call shareA0 shareB0 shareA1 shareB1 r.1 pms1 eq ∈ s.vm.log ∧
    VmOp.call shareA0 shareB0 shareA1 shareB1 r.1 pms1 eq ∈ s'.vm.log ∧
    [shareA0, shareB0, shareA1, shareB1, r.1, pms1, eq].Nodup ∧
    ∀ mem : Memory, s.vm.Holds nbyteAddModTrace mem → s'.vm.Holds nbyteAddModTrace mem →
      mem r.1 = bytes32 x.val ∧ mem pms1 = bytes32 x.val ∧ mem eq = zero32 ∧
      (∃ t, finalize (fun ref => .ok (mem ref)) s = .ok () t ∧ t.ke.state = .complete) ∧
      ∃ t, finalize (fun ref => .ok (mem ref)) s' = .ok () t ∧ t.ke.state = .complete
  /-- There is such a memory, and the arrays given out before keep what they hold. -/
  memory : vm.Bounded → vm'.Bounded → ∀ mem₀ : Memory, vm.Holds nbyteAddModTrace mem₀ →
    vm'.Holds nbyteAddModTrace mem₀ → ∃ mem : Memory, (∀ ref < vm.next, mem ref = mem₀ ref) ∧
      s.vm.Holds nbyteAddModTrace mem ∧ s'.vm.Holds nbyteAddModTrace mem

theorem finalize_equalityCheck (decoded : Ref → Except String Bytes32) (vm : Vm) (eq : Ref)
    (role : Role) (key : SecretKey) (server : Option PublicKey) :
    finalize decoded ⟨vm, ⟨role, .equalityCheck eq, key, server⟩⟩ =
      match decoded eq with
      | .error text => .error (.err (.vm text)) ⟨vm, ⟨role, .error, key, server⟩⟩
      | .ok bytes =>
          if bytes = zero32 then .ok () ⟨vm, ⟨role, .complete, key, server⟩⟩
          else .error (.err (.shareConversion "PMS values not equal"))
            ⟨vm, ⟨role, .error, key, server⟩⟩ := by
  rw [finalize, take_bind]
  dsimp only
  cases decoded eq with
  | error text => rfl
  | ok bytes =>
      dsimp only
      by_cases hzero : bytes = zero32
      · rw [if_neg (not_not.mpr hzero), if_pos hzero]
        rfl
      · rw [if_pos hzero, if_neg hzero]
        rfl

theorem finalize_ok {decoded : Ref → Except String Bytes32} {vm : Vm} {eq : Ref} {role : Role}
    {key : SecretKey} {server : Option PublicKey} (h : decoded eq = .ok zero32) :
    finalize decoded ⟨vm, ⟨role, .equalityCheck eq, key, server⟩⟩ =
      .ok () ⟨vm, ⟨role, .complete, key, server⟩⟩ := by
  rw [finalize_equalityCheck, h]
  exact if_pos rfl

theorem clientKey_ok {vm : Vm} {slots : Slots} {a b : SecretKey} {server : Option PublicKey}
    (h : a.publicKey + b.publicKey ≠ 0) :
    announceKey ⟨vm, ⟨.leader, .followerKey b.publicKey slots, a, server⟩⟩ =
      .ok (some (a.publicKey + b.publicKey))
        ⟨vm, ⟨.leader, .followerKey b.publicKey slots, a, server⟩⟩ := by
  have hkey : fromAffine (a.publicKey + b.publicKey) = .ok (a.publicKey + b.publicKey) := if_neg h
  refine Fault.run_map_ok_iff.mpr ⟨_, ?_, rfl⟩
  exact Fault.lift_of_ok hkey _

/-- What the memory holds after the shares were assigned. -/
theorem agreed_memory {nbyteAddModTrace : AddMod} (hcircuit : nbyteAddModTrace.Correct)
    {n : Ref} {p0 p1 q0 q1 x : P256} {mem : Memory} {vm vm' : Vm} (hp : x = p0 + q0)
    (hq : x = p1 + q1) (hcall : pmsCall n ∈ vm.log)
    (hleader : ∀ op ∈ assignOps .leader (.at n) (bytes32 p0.val) (bytes32 p1.val), op ∈ vm.log)
    (hfollower : ∀ op ∈ assignOps .follower (.at n) (bytes32 q0.val) (bytes32 q1.val),
      op ∈ vm'.log) (h : vm.Holds nbyteAddModTrace mem) (h' : vm'.Holds nbyteAddModTrace mem) :
    mem (n + 4) = bytes32 x.val ∧ mem (n + 5) = bytes32 x.val ∧ mem (n + 6) = zero32 := by
  have hA0 : mem n = bytes32 p0.val := h _ (hleader (.assign n _) (by simp [assignOps, Slots.at]))
  have hA1 : mem (n + 2) = bytes32 p1.val :=
    h _ (hleader (.assign (n + 2) _) (by simp [assignOps, Slots.at]))
  have hB0 : mem (n + 1) = bytes32 q0.val :=
    h' _ (hfollower (.assign (n + 1) _) (by simp [assignOps, Slots.at]))
  have hB1 : mem (n + 3) = bytes32 q1.val :=
    h' _ (hfollower (.assign (n + 3) _) (by simp [assignOps, Slots.at]))
  obtain ⟨hpms0, hpms1, heq⟩ := h _ hcall
  have hsum0 : mem (n + 4) = bytes32 x.val := by
    rw [hpms0, hA0, hB0, hp]
    exact addMod_shares hcircuit p0 q0
  have hsum1 : mem (n + 5) = bytes32 x.val := by
    rw [hpms1, hA1, hB1, hq]
    exact addMod_shares hcircuit p1 q1
  refine ⟨hsum0, hsum1, ?_⟩
  rw [heq, pmsCircuit_eq_zero_iff, ← hpms0, ← hpms1, hsum0, hsum1]

/-- The memory of both machines, with the arrays from `n` on. -/
def sharedMemory (nbyteAddModTrace : AddMod) (n : Ref) (p0 p1 q0 q1 : Bytes32) (mem₀ : Memory) :
    Memory := fun ref =>
  let output := pmsCircuit nbyteAddModTrace p0 q0 p1 q1
  if ref < n then mem₀ ref
  else (([p0, q0, p1, q1, output.pms0, output.pms1] : List Bytes32)[ref - n]?).getD output.eq

section Memory

variable {nbyteAddModTrace : AddMod} {n : Ref} {p0 p1 q0 q1 : Bytes32} {mem₀ : Memory}

theorem sharedMemory_of_lt {ref : Ref} (h : ref < n) :
    sharedMemory nbyteAddModTrace n p0 p1 q0 q1 mem₀ ref = mem₀ ref := if_pos h

/-- What was logged before still holds, and so does what is logged for either party. -/
theorem holds_sharedMemory {log : List VmOp} {role : Role} {own0 own1 : Bytes32}
    (hown : (own0, own1) = match role with
      | .leader => (p0, p1)
      | .follower => (q0, q1))
    (hbounded : Vm.Bounded ⟨n, log⟩) (hholds : Vm.Holds nbyteAddModTrace mem₀ ⟨n, log⟩) :
    Vm.Holds nbyteAddModTrace (sharedMemory nbyteAddModTrace n p0 p1 q0 q1 mem₀)
      ⟨n + 7, log ++ allocOps role n ++ assignOps role (.at n) own0 own1⟩ := by
  intro op hop
  rw [List.append_assoc, List.mem_append] at hop
  cases hop with
  | inl hop =>
      exact (hholds op hop).congr fun ref href => sharedMemory_of_lt (hbounded op hop ref href)
  | inr hop =>
      cases role <;> cases hown <;>
        simp only [allocOps, assignOps, Slots.at, pmsCall, List.mem_append, List.mem_cons,
          List.not_mem_nil, or_false] at hop <;>
        rcases hop with (rfl | rfl | rfl | rfl | rfl) |
          (rfl | rfl | rfl | rfl | rfl | rfl | rfl) <;>
        simp [VmOp.Holds, sharedMemory]

end Memory

theorem nsmul_publicKeys (a b : SecretKey) (k : Nat) :
    k • (a.publicKey + b.publicKey) = (a.val + b.val) • (k • generator) := by
  rw [SecretKey.publicKey, SecretKey.publicKey, ← add_nsmul, smul_comm]

/-- Keys whose shares of the secret differ do not cancel. -/
theorem publicKeys_ne_zero {a b : SecretKey} {S : PublicKey} {x₁ x₂ : P256}
    (ha : xCoord (a.val • S) = some x₁) (hb : xCoord (b.val • S) = some x₂) (hx : x₁ ≠ x₂)
    (hS : ∃ k : Nat, S = k • generator) : a.publicKey + b.publicKey ≠ 0 := by
  intro hzero
  obtain ⟨k, rfl⟩ := hS
  have hsum := nsmul_publicKeys a b k
  rw [hzero, nsmul_zero, add_nsmul] at hsum
  exact add_ne_zero_of_xCoord ha hb hx hsum.symm

/-- Two honest parties get the secret of the server's key and the sum of their own, whatever
the shares are in between. -/
theorem exchange_ensures {nbyteAddModTrace : AddMod} (hcircuit : nbyteAddModTrace.Correct)
    {a b : SecretKey} {S : PublicKey} {x₁ x₂ : P256} (ha : xCoord (a.val • S) = some x₁)
    (hb : xCoord (b.val • S) = some x₂) (hx : x₁ ≠ x₂) (hS : ∃ k : Nat, S = k • generator)
    {vm vm' : Vm} (hnext : vm'.next = vm.next) :
    Interactive.Ensures ShareConvert (Agreed nbyteAddModTrace a b S vm vm')
      (exchange S) (exchange S) ⟨vm, .new .leader a⟩ ⟨vm', .new .follower b⟩ := by
  obtain ⟨n, log⟩ := vm
  obtain ⟨n', log'⟩ := vm'
  obtain rfl : n' = n := hnext
  unfold exchange
  refine .alone_bind (alloc_ok .leader a none) (alloc_ok .follower b none) ?_
  refine .bind setup_ensures ?_
  rintro _ _ _ _ ⟨rfl, rfl⟩
  refine .alone_bind (clientKey_ok (publicKeys_ne_zero ha hb hx hS)) rfl ?_
  refine .alone_bind rfl rfl ?_
  refine .bind (computeShares_ensures ha hb hx) ?_
  rintro _ _ _ _ ⟨p0, p1, q0, q1, rfl, rfl, hp, hq⟩
  refine .alone_bind (assign_ok .leader a (some S)) (assign_ok .follower b (some S)) ?_
  obtain ⟨x, hx'⟩ : ∃ x, xCoord ((a.val + b.val) • S) = some x := ⟨_, hp⟩
  have hpx : x = p0 + q0 := Option.some.inj (hx'.symm.trans hp)
  have hqx : x = p1 + q1 := Option.some.inj (hx'.symm.trans hq)
  refine .pure ⟨rfl, rfl, ⟨x, n', n' + 1, n' + 2, n' + 3, n' + 5, n' + 6, hx', ?_, ?_, ?_, ?_, ?_⟩,
    ?_⟩
  · intro k hk
    rw [nsmul_publicKeys, ← hk, hx']
  · exact List.mem_append_left _ (List.mem_append_right _ (pmsCall_mem_allocOps _ _))
  · exact List.mem_append_left _ (List.mem_append_right _ (pmsCall_mem_allocOps _ _))
  · simp
  · intro mem h h'
    obtain ⟨hpms0, hpms1, heq⟩ := agreed_memory hcircuit hpx hqx
      (List.mem_append_left _ (List.mem_append_right _ (pmsCall_mem_allocOps _ _)))
      (fun op hop => List.mem_append_right _ hop) (fun op hop => List.mem_append_right _ hop) h h'
    exact ⟨hpms0, hpms1, heq, ⟨_, finalize_ok (congrArg Except.ok heq), rfl⟩,
      _, finalize_ok (congrArg Except.ok heq), rfl⟩
  · intro hbounded hbounded' mem₀ h h'
    exact ⟨sharedMemory nbyteAddModTrace n' (bytes32 p0.val) (bytes32 p1.val) (bytes32 q0.val)
      (bytes32 q1.val) mem₀, fun ref href => sharedMemory_of_lt href,
      holds_sharedMemory rfl hbounded h, holds_sharedMemory rfl hbounded' h'⟩

end Tlsn.KeyExchange

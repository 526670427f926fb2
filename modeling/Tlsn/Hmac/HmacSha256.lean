import Tlsn.Library.Circuit
import Tlsn.Library.Prf
import Tlsn.Library.Sha256

/-!
The two halves of HMAC-SHA256: the states after the padded key, and the digest of a
message from these states. The functions on values and those which trace a circuit
differ in the representation of a value only, so they are written once, over the
operations on it.
-/

namespace Tlsn.Hmac

/-- The hash functions on values. -/
structure Sha256Fns where
  sha256Compress : Sha256.State → Sha256.Block → Sha256.State
  sha256 : Sha256.State → Nat → List UInt8 → Vector UInt8 32

/-- `sha256` pads the message, counts what was absorbed before, and absorbs the blocks. -/
structure Sha256Fns.Lawful (c : Sha256Fns) : Prop where
  sha256_eq : ∀ (state : Sha256.State) (pos : Nat) (msg : List UInt8), 64 ∣ pos →
    c.sha256 state pos msg = Sha256.digestFrom c.sha256Compress state pos msg

/-- The operations on values of one representation. -/
structure Tracing extends CircuitBuilder where
  constantU8 : UInt8 → EStateM (Fault Empty) State (Node UInt8)
  constantU32 : UInt32 → EStateM (Fault Empty) State (Node UInt32)
  xor : Node UInt8 → Node UInt8 → EStateM (Fault Empty) State (Node UInt8)
  sha256Compress : Vector (Node UInt32) 8 → Vector (Node UInt8) 64 →
    EStateM (Fault Empty) State (Vector (Node UInt32) 8)
  sha256 : Vector (Node UInt32) 8 → Nat → List (Node UInt8) →
    EStateM (Fault Empty) State (Vector (Node UInt8) 32)

open CircuitBuilder

/-- The nodes traced have the values the functions compute. -/
structure Tracing.Lawful (t : Tracing) (c : Sha256Fns) : Prop where
  constantU8 : ∀ (s : t.State) (i : t.Inputs) (v : UInt8),
    Traces s (t.constantU8 v) fun node s' => t.Reads i s' node v
  constantU32 : ∀ (s : t.State) (i : t.Inputs) (v : UInt32),
    Traces s (t.constantU32 v) fun node s' => t.Reads i s' node v
  xor : ∀ (s : t.State) (i : t.Inputs) (x y : t.Node UInt8) (v w : UInt8), t.Reads i s x v →
    t.Reads i s y w → Traces s (t.xor x y) fun node s' => t.Reads i s' node (v ^^^ w)
  sha256Compress : ∀ (s : t.State) (i : t.Inputs) (state : Vector (t.Node UInt32) 8)
    (block : Vector (t.Node UInt8) 64) (v : Sha256.State) (w : Sha256.Block),
    t.ReadsVec i s state v → t.ReadsVec i s block w →
    Traces s (t.sha256Compress state block) fun nodes s' =>
      t.ReadsVec i s' nodes (c.sha256Compress v w)
  sha256 : ∀ (s : t.State) (i : t.Inputs) (state : Vector (t.Node UInt32) 8) (pos : Nat)
    (msg : List (t.Node UInt8)) (v : Sha256.State) (w : List UInt8),
    t.ReadsVec i s state v → t.ReadsList i s msg w →
    Traces s (t.sha256 state pos msg) fun nodes s' => t.ReadsVec i s' nodes (c.sha256 v pos w)

/-- A value stands for itself. -/
def plain (c : Sha256Fns) : Tracing where
  State := Unit
  Inputs := Unit
  Node := fun α => α
  eval _ _ v := some v
  constantU8 := pure
  constantU32 := pure
  xor x y := pure (x ^^^ y)
  sha256Compress state block := pure (c.sha256Compress state block)
  sha256 state pos msg := pure (c.sha256 state pos msg)

def runPlain {α : Type} (x : EStateM (Fault Empty) Unit α) : Except (Fault Empty) α :=
  match x () with
  | .ok a _ => .ok a
  | .error e _ => .error e

theorem plain_reads {c : Sha256Fns} {α : Type} {v w : α} : (plain c).Reads () () v w ↔ v = w :=
  Option.some_inj

theorem plain_readsList {c : Sha256Fns} {α : Type} {vs ws : List α} :
    (plain c).ReadsList () () vs ws ↔ vs = ws := by
  rw [← List.forall₂_eq_eq_eq]
  constructor
  · intro h
    exact h.imp fun _ _ => plain_reads.mp
  · intro h
    exact h.imp fun _ _ => plain_reads.mpr

theorem plain_readsVec {c : Sha256Fns} {α : Type} {n : Nat} {vs ws : Vector α n} :
    (plain c).ReadsVec () () vs ws ↔ vs = ws :=
  plain_readsList.trans Vector.toList_inj

theorem runPlain_of_traces {c : Sha256Fns} {α : Type} {x : EStateM (Fault Empty) Unit α}
    {Q : α → Unit → Prop} (h : Traces (b := (plain c).toCircuitBuilder) () x Q) :
    ∃ a, runPlain x = .ok a ∧ Q a () := by
  obtain ⟨a, s, hrun, _, hQ⟩ := h
  refine ⟨a, ?_, hQ⟩
  rw [runPlain, hrun]

theorem plain_lawful (c : Sha256Fns) : (plain c).Lawful c where
  constantU8 _ _ _ := .pure rfl
  constantU32 _ _ _ := .pure rfl
  xor _ _ _ _ _ _ hx hy := by
    cases plain_reads.mp hx
    cases plain_reads.mp hy
    exact .pure rfl
  sha256Compress _ _ _ _ _ _ hs hb := by
    cases plain_readsVec.mp hs
    cases plain_readsVec.mp hb
    exact .pure (plain_readsVec.mpr rfl)
  sha256 _ _ _ _ _ _ _ hs hm := by
    cases plain_readsVec.mp hs
    cases plain_readsList.mp hm
    exact .pure (plain_readsVec.mpr rfl)

/-! ## The states after the key -/

def sha256InitialState : Sha256.State :=
  #v[0x6a09e667, 0xbb67ae85, 0x3c6ef372, 0xa54ff53a, 0x510e527f, 0x9b05688c, 0x1f83d9ab, 0x5be0cd19]

/-- `opad[i] ^= k` and `ipad[i] ^= k`, which abort beyond the end of the block. -/
def xorPads (t : Tracing) (pads : Vector (t.Node UInt8) 64 × Vector (t.Node UInt8) 64)
    (byte : t.Node UInt8 × Nat) :
    EStateM (Fault Empty) t.State (Vector (t.Node UInt8) 64 × Vector (t.Node UInt8) 64) :=
  if h : byte.2 < 64 then do
    let opad ← t.xor pads.1[byte.2] byte.1
    let ipad ← t.xor pads.2[byte.2] byte.1
    return (pads.1.set byte.2 opad, pads.2.set byte.2 ipad)
  else throw .panic

def partialWith (t : Tracing) (key : List (t.Node UInt8)) :
    EStateM (Fault Empty) t.State (Vector (t.Node UInt32) 8 × Vector (t.Node UInt32) 8) := do
  unless key.length ≤ 64 do throw .panic
  let opad ← t.constantU8 0x5c
  let ipad ← t.constantU8 0x36
  let pads ← key.zipIdx.foldlM (xorPads t) (Vector.replicate 64 opad, Vector.replicate 64 ipad)
  let initial ← sha256InitialState.mapM t.constantU32
  let outer ← t.sha256Compress initial pads.1
  let inner ← t.sha256Compress initial pads.2
  return (outer, inner)

def finalizeWith (t : Tracing) (outer inner : Vector (t.Node UInt32) 8)
    (msg : List (t.Node UInt8)) : EStateM (Fault Empty) t.State (Vector (t.Node UInt8) 32) := do
  let digest ← t.sha256 inner 64 msg
  t.sha256 outer 64 digest.toList

def hmacSha256Partial (c : Sha256Fns) (key : List UInt8) :
    Except (Fault Empty) (Sha256.State × Sha256.State) :=
  runPlain (partialWith (plain c) key)

def hmacSha256PartialTrace (t : Tracing) (key : List (t.Node UInt8)) :
    EStateM (Fault Empty) t.State (Vector (t.Node UInt32) 8 × Vector (t.Node UInt32) 8) :=
  partialWith t key

def hmacSha256Finalize (c : Sha256Fns) (outer inner : Sha256.State) (msg : List UInt8) :
    Except (Fault Empty) (Vector UInt8 32) :=
  runPlain (finalizeWith (plain c) outer inner msg)

def hmacSha256FinalizeTrace (t : Tracing) (outer inner : Vector (t.Node UInt32) 8)
    (msg : List (t.Node UInt8)) : EStateM (Fault Empty) t.State (Vector (t.Node UInt8) 32) :=
  finalizeWith t outer inner msg

/-! ## What they compute -/

/-- The block of a key, every byte of it added to the pad. -/
def padBlock (pad : UInt8) (key : List UInt8) : Sha256.Block :=
  Vector.ofFn fun i => pad ^^^ key.getD i 0

theorem padBlock_nil (pad : UInt8) : padBlock pad [] = Vector.replicate 64 pad := by
  apply Vector.ext
  intro i hi
  simp [padBlock]

theorem padBlock_take_succ (pad : UInt8) {key : List UInt8} {i : Nat} (hi : i < 64)
    (hkey : i < key.length) :
    padBlock pad (key.take (i + 1)) =
      (padBlock pad (key.take i)).set i ((padBlock pad (key.take i))[i] ^^^ key[i]) := by
  apply Vector.ext
  intro j hj
  rw [Vector.getElem_set]
  simp only [padBlock, Vector.getElem_ofFn, List.getD_eq_getElem?_getD, List.getElem?_take]
  by_cases h : i = j
  · subst h
    simp [List.getElem?_eq_getElem hkey]
  · rw [if_neg h]
    by_cases hlt : j < i
    · rw [if_pos (by omega), if_pos hlt]
    · rw [if_neg (by omega), if_neg hlt]

theorem toList_padBlock (pad : UInt8) {key : List UInt8} (h : key.length ≤ 64) :
    (padBlock pad key).toList =
      xorBytes (key ++ List.replicate (64 - key.length) 0) (List.replicate 64 pad) := by
  apply List.ext_getElem
  · simp
    omega
  · intro i hi _
    have hi : i < 64 := by simpa using hi
    simp only [xorBytes, padBlock, Vector.getElem_toList, Vector.getElem_ofFn,
      List.getElem_zipWith, List.getElem_replicate]
    rw [UInt8.xor_comm, List.getD_eq_getElem?_getD]
    by_cases hlt : i < key.length
    · rw [List.getElem_append_left hlt, List.getElem?_eq_getElem hlt]
      rfl
    · rw [List.getElem_append_right (by omega), List.getElem?_eq_none (by omega)]
      simp

theorem blockOf_toList (block : Sha256.Block) : Sha256.blockOf block.toList = block := by
  apply Vector.ext
  intro i hi
  simp [Sha256.blockOf, List.getD_eq_getElem?_getD]

namespace Sha256Fns

variable (c : Sha256Fns)

/-- The state after the padded key. -/
def keyed (pad : UInt8) (key : List UInt8) : Sha256.State :=
  c.sha256Compress sha256InitialState (padBlock pad key)

def finalized (outer inner : Sha256.State) (msg : List UInt8) : Vector UInt8 32 :=
  c.sha256 outer 64 (c.sha256 inner 64 msg).toList

/-- The digest of a message which begins with the padded key. -/
theorem sha256_keyed {c : Sha256Fns} (hc : c.Lawful) (pad : UInt8) {key : List UInt8}
    (h : key.length ≤ 64) (msg : List UInt8) :
    c.sha256 (c.keyed pad key) 64 msg = Sha256.digest c.sha256Compress
      (xorBytes (Prf.hmacKey (Sha256.digest c.sha256Compress) key) (List.replicate 64 pad)
        ++ msg) := by
  rw [hc.sha256_eq _ _ _ (Nat.dvd_refl 64), Prf.hmacKey_of_le _ h, ← toList_padBlock pad h,
    Sha256.digest, Sha256.digestFrom_append _ (by simp), blockOf_toList, keyed]
  rfl

/-- From the states after the key, the second half gives the authentication code. -/
theorem finalized_keyed {c : Sha256Fns} (hc : c.Lawful) {key : List UInt8} (h : key.length ≤ 64) :
    c.finalized (c.keyed 0x5c key) (c.keyed 0x36 key) =
      Prf.hmac (Sha256.digest c.sha256Compress) key := by
  funext msg
  rw [finalized, sha256_keyed hc 0x36 h, sha256_keyed hc 0x5c h]
  rfl

end Sha256Fns

namespace Tracing.Lawful

variable {t : Tracing} {c : Sha256Fns} {s : t.State} {i : t.Inputs}

theorem xorPads (ht : t.Lawful c) {opad ipad : Vector (t.Node UInt8) 64} {v w : Sha256.Block}
    (ho : t.ReadsVec i s opad v) (hi : t.ReadsVec i s ipad w) {node : t.Node UInt8} {k : UInt8}
    (hk : t.Reads i s node k) {j : Nat} (hj : j < 64) :
    Traces s (Hmac.xorPads t (opad, ipad) (node, j)) fun pads s' =>
      t.ReadsVec i s' pads.1 (v.set j (v[j] ^^^ k)) ∧
        t.ReadsVec i s' pads.2 (w.set j (w[j] ^^^ k)) := by
  rw [Hmac.xorPads, dif_pos hj]
  refine .bind (ht.xor s i _ _ _ _ (readsVec_iff.mp ho j hj) hk) ?_
  intro o s' hs hread
  have hi' := hi.mono hs
  refine .bind (ht.xor s' i _ _ _ _ (readsVec_iff.mp hi' j hj) (hs _ _ _ _ hk)) ?_
  intro p s'' hs' hread'
  exact .pure ⟨ReadsVec.set ((ho.mono hs).mono hs') (hs' _ _ _ _ hread) hj,
    ReadsVec.set (hi'.mono hs') hread' hj⟩

/-- After each byte of the key the pads hold the part of it gone through. -/
theorem pads (ht : t.Lawful c) {key : List (t.Node UInt8)} {ks : List UInt8}
    (hk : t.ReadsList i s key ks) (hlen : key.length ≤ 64) {opad ipad : t.Node UInt8}
    (ho : t.Reads i s opad 0x5c) (hi : t.Reads i s ipad 0x36) :
    Traces s (key.zipIdx.foldlM (Hmac.xorPads t)
        (Vector.replicate 64 opad, Vector.replicate 64 ipad)) fun pads s' =>
      t.ReadsVec i s' pads.1 (padBlock 0x5c ks) ∧ t.ReadsVec i s' pads.2 (padBlock 0x36 ks) := by
  have hlen' := hk.length_eq
  let I (done : List (t.Node UInt8 × Nat))
      (pads : Vector (t.Node UInt8) 64 × Vector (t.Node UInt8) 64) (s' : t.State) : Prop :=
    t.ReadsVec i s' pads.1 (padBlock 0x5c (ks.take done.length)) ∧
      t.ReadsVec i s' pads.2 (padBlock 0x36 (ks.take done.length))
  refine (Traces.foldlM I ?_ ?_).mono ?_
  · simp only [I, List.length_nil, List.take_zero, padBlock_nil]
    exact ⟨readsVec_replicate ho, readsVec_replicate hi⟩
  · intro done byte rest pads s' hl hs hI
    have hget : key.zipIdx[done.length]? = some byte := by simp [hl]
    rw [List.getElem?_zipIdx, Option.map_eq_some_iff] at hget
    obtain ⟨node, hnode, rfl⟩ := hget
    obtain ⟨hlt, rfl⟩ := List.getElem?_eq_some_iff.mp hnode
    have hread : t.Reads i s key[done.length] ks[done.length] := by
      simpa using hk.get hlt (hlen' ▸ hlt)
    have hdone : done.length < 64 := by omega
    refine (ht.xorPads hI.1 hI.2 (hs _ _ _ _ hread) (j := 0 + done.length) (by omega)).mono ?_
    intro pads' s'' _ hpads
    simp only [I, List.length_append, List.length_singleton]
    rw [padBlock_take_succ _ hdone (by omega), padBlock_take_succ _ hdone (by omega)]
    simpa only [Nat.zero_add] using hpads
  · intro pads s' _ hI
    simpa only [I, List.length_zipIdx, hlen', List.take_length] using hI

theorem partialWith (ht : t.Lawful c) {key : List (t.Node UInt8)} {ks : List UInt8}
    (hk : t.ReadsList i s key ks) (hlen : ks.length ≤ 64) :
    Traces s (Hmac.partialWith t key) fun states s' =>
      t.ReadsVec i s' states.1 (c.keyed 0x5c ks) ∧ t.ReadsVec i s' states.2 (c.keyed 0x36 ks) := by
  have hlen' : key.length ≤ 64 := hk.length_eq ▸ hlen
  rw [Hmac.partialWith, if_pos hlen']
  refine .bind (ht.constantU8 s i 0x5c) ?_
  intro opad s₁ h₁ hopad
  refine .bind (ht.constantU8 s₁ i 0x36) ?_
  intro ipad s₂ h₂ hipad
  have hk₂ := (hk.mono h₁).mono h₂
  refine .bind (ht.pads hk₂ hlen' (h₂ _ _ _ _ hopad) hipad) ?_
  intro pads s₃ h₃ hpads
  refine .bind (Traces.mapM_vec sha256InitialState fun v _ s' => ht.constantU32 s' i v) ?_
  intro initial s₄ h₄ hinitial
  rw [Vector.map_id'] at hinitial
  refine .bind (ht.sha256Compress s₄ i _ _ _ _ hinitial (hpads.1.mono h₄)) ?_
  intro outer s₅ h₅ houter
  refine .bind (ht.sha256Compress s₅ i _ _ _ _ (hinitial.mono h₅) ((hpads.2.mono h₄).mono h₅)) ?_
  intro inner s₆ h₆ hinner
  exact .pure ⟨houter.mono h₆, hinner⟩

theorem finalizeWith (ht : t.Lawful c) {outer inner : Vector (t.Node UInt32) 8}
    {v w : Sha256.State} (ho : t.ReadsVec i s outer v) (hi : t.ReadsVec i s inner w)
    {msg : List (t.Node UInt8)} {m : List UInt8} (hm : t.ReadsList i s msg m) :
    Traces s (Hmac.finalizeWith t outer inner msg) fun digest s' =>
      t.ReadsVec i s' digest (c.finalized v w m) := by
  refine .bind (ht.sha256 s i inner 64 msg w m hi hm) ?_
  intro digest s' hs hdigest
  exact ht.sha256 s' i outer 64 digest.toList v _ (ho.mono hs) hdigest

end Tracing.Lawful

end Tlsn.Hmac

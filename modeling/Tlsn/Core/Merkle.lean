import Mathlib.Data.List.Sort
import Tlsn.Core.Hash
import Tlsn.Library.HashTree

/-!
The Merkle tree and its inclusion proofs. The tree library is a parameter: what
is known of it is that the root of a tree is computed by hashing pairs, that the
proofs it makes verify, and that a verified proof recomputes the root from every
leaf it is given. Neither the number of leaves a proof claims nor the position
it claims for a leaf is assumed to be the tree's.
-/

namespace Tlsn.Core

def hashPair (a b : Hash) : List UInt8 := a.bytes ++ b.bytes

structure RsMerkle where
  Tree : Type
  Proof : Type
  empty : Tree
  /-- Appends leaves and commits them. -/
  commit : (List UInt8 → Hash) → Tree → List Hash → Tree
  root : Tree → Option Hash
  leavesLen : Tree → Nat
  proof : Tree → List Nat → Proof
  verify : (List UInt8 → Hash) → Proof → Hash → List Nat → List Hash → Nat → Bool
  /-- The strings hashed when leaves are committed to an empty tree. -/
  commitPreimages : (List UInt8 → Hash) → List Hash → List (List UInt8)
  /-- The strings hashed when a proof is verified. -/
  verifyPreimages : (List UInt8 → Hash) → Proof → List Nat → List Hash → Nat → List (List UInt8)
  leavesLen_commit : ∀ hash leaves, leavesLen (commit hash empty leaves) = leaves.length
  root_nil : ∀ hash, root (commit hash empty []) = none
  root_commit : ∀ hash leaves, leaves ≠ [] → ∃ t : HashTree Hash,
    t.leaves = leaves ∧ root (commit hash empty leaves) = some (t.value hash hashPair) ∧
    ∀ x ∈ t.preimages hash hashPair, x ∈ commitPreimages hash leaves
  verify_proof : ∀ hash leaves indices hashes r, indices ≠ [] → indices.Pairwise (· < ·) →
    root (commit hash empty leaves) = some r →
    List.Forall₂ (fun i d => leaves[i]? = some d) indices hashes →
    verify hash (proof (commit hash empty leaves) indices) r indices hashes leaves.length = true
  verify_climb : ∀ hash p r indices hashes count, verify hash p r indices hashes count = true →
    ∀ d ∈ hashes, ∃ path, HashTree.climb hash hashPair d path = r ∧
      ∀ x ∈ HashTree.climbPreimages hash hashPair d path,
        x ∈ verifyPreimages hash p indices hashes count

/-- A tree library in which a proof carries all the leaves. -/
def RsMerkle.reference : RsMerkle where
  Tree := (List UInt8 → Hash) × List Hash
  Proof := List Hash
  empty := (fun _ => ⟨[], by simp⟩, [])
  commit hash t leaves := (hash, t.2 ++ leaves)
  root t :=
    match t.2 with
    | [] => none
    | d :: ds => some ((HashTree.comb (.leaf d) ds).value t.1 hashPair)
  leavesLen t := t.2.length
  proof t _ := t.2
  verify hash p r indices hashes count :=
    match p with
    | [] => false
    | d :: ds =>
        decide ((HashTree.comb (.leaf d) ds).value hash hashPair = r) &&
        decide (indices.map (fun i => (d :: ds)[i]?) = hashes.map some) &&
        decide (count = (d :: ds).length)
  commitPreimages hash leaves :=
    match leaves with
    | [] => []
    | d :: ds => (HashTree.comb (.leaf d) ds).preimages hash hashPair
  verifyPreimages hash p _ _ _ :=
    match p with
    | [] => []
    | d :: ds => (HashTree.comb (.leaf d) ds).preimages hash hashPair
  leavesLen_commit hash leaves := by simp
  root_nil hash := rfl
  root_commit hash leaves hne := by
    cases leaves with
    | nil => exact absurd rfl hne
    | cons d ds =>
        exact ⟨HashTree.comb (.leaf d) ds, by simp [HashTree.leaves], rfl, fun x hx => hx⟩
  verify_proof hash leaves indices hashes r hne hs hr hall := by
    have hmap : indices.map (fun i => leaves[i]?) = hashes.map some := by
      clear hne hs
      induction hall with
      | nil => rfl
      | cons h _ ih => simp [h, ih]
    cases leaves with
    | nil => cases hr
    | cons d ds =>
        simp only [List.nil_append, Option.some.injEq] at hr ⊢
        simp [hr, hmap]
  verify_climb hash p r indices hashes count hv d hd := by
    cases p with
    | nil => cases hv
    | cons e es =>
        simp only [Bool.and_eq_true, decide_eq_true_eq] at hv
        obtain ⟨⟨hroot, hmap⟩, -⟩ := hv
        have hmem : d ∈ (HashTree.comb (.leaf e) es).leaves := by
          have : some d ∈ indices.map (fun i => (e :: es)[i]?) := by
            rw [hmap]
            exact List.mem_map_of_mem hd
          obtain ⟨i, -, hi⟩ := List.mem_map.mp this
          rw [HashTree.leaves_comb]
          exact List.mem_of_getElem? hi
        obtain ⟨path, hclimb, hpre⟩ :=
          HashTree.exists_path_of_mem_leaves hash hashPair _ d hmem
        exact ⟨path, hclimb.trans hroot, hpre⟩

/-- Verification is sound: an accepted proof shows a tree of the claimed number of
leaves which has the given digests at the given indices. -/
structure RsMerkle.Sound (rs : RsMerkle) : Prop where
  verify_tree : ∀ hash p r indices hashes count, rs.verify hash p r indices hashes count = true →
    ∃ t : HashTree Hash, t.leaves.length = count ∧ t.value hash hashPair = r ∧
      List.Forall₂ (fun i d => t.leaves[i]? = some d) indices hashes ∧
      ∀ x ∈ t.preimages hash hashPair, x ∈ rs.verifyPreimages hash p indices hashes count
  /-- Checking a proof which the tree itself made hashes nothing new. -/
  proof_preimages : ∀ hash leaves indices hashes,
    List.Forall₂ (fun i d => leaves[i]? = some d) indices hashes →
    ∀ x ∈ rs.verifyPreimages hash (rs.proof (rs.commit hash rs.empty leaves) indices) indices
      hashes leaves.length, x ∈ rs.commitPreimages hash leaves

theorem RsMerkle.reference_sound : RsMerkle.reference.Sound where
  verify_tree hash p r indices hashes count hv := by
    cases p with
    | nil => cases hv
    | cons d ds =>
        simp only [reference, Bool.and_eq_true, decide_eq_true_eq] at hv
        obtain ⟨⟨hroot, hmap⟩, hcount⟩ := hv
        refine ⟨HashTree.comb (.leaf d) ds, ?_, hroot, ?_, fun x hx => hx⟩
        · rw [HashTree.leaves_comb, hcount]
          rfl
        · rw [HashTree.leaves_comb]
          have hall : List.Forall₂ (· = ·)
              (indices.map fun i => (d :: ds)[i]?) (hashes.map some) := by
            rw [List.forall₂_eq_eq_eq]
            exact hmap
          rwa [List.forall₂_map_left_iff, List.forall₂_map_right_iff] at hall
  proof_preimages hash leaves indices hashes _ x hx := by
    cases leaves with
    | nil => exact hx
    | cons d ds => exact hx

structure MerkleError where
  msg : String
deriving DecidableEq

variable (rs : RsMerkle)

structure MerkleProof where
  alg : HashAlgId
  leafCount : Nat
  proof : rs.Proof

structure MerkleTree where
  alg : HashAlgId
  tree : rs.Tree

variable {rs}

/-- Leaves in the order of their indices. -/
def sortLeaves (leaves : List (Nat × Hash)) : List (Nat × Hash) :=
  leaves.insertionSort (fun a b => a.1 ≤ b.1)

def MerkleProof.verify (p : MerkleProof rs) (hasher : HashAlgorithm) (root : TypedHash)
    (leaves : List (Nat × Hash)) : Except (Fault MerkleError) Unit :=
  let leaves := sortLeaves leaves
  let indices := leaves.map Prod.fst
  let hashes := leaves.map Prod.snd
  if ¬ indices.Nodup then
    .error (.err ⟨"duplicate leaf indices provided"⟩)
  else if ¬ rs.verify hasher.hash p.proof root.value indices hashes p.leafCount then
    .error (.err ⟨"invalid merkle proof"⟩)
  else
    .ok ()

namespace MerkleTree

def new (alg : HashAlgId) : MerkleTree rs := ⟨alg, rs.empty⟩

def root {ε : Type} (t : MerkleTree rs) : Except (Fault ε) TypedHash :=
  match rs.root t.tree with
  | some value => .ok ⟨t.alg, value⟩
  | none => .error .panic

def insert {ε : Type} (t : MerkleTree rs) (hasher : HashAlgorithm) (leaves : List Hash) :
    Except (Fault ε) (MerkleTree rs) :=
  if t.alg = hasher.id then .ok { t with tree := rs.commit hasher.hash t.tree leaves }
  else .error .panic

def proof {ε : Type} (t : MerkleTree rs) (indices : List Nat) :
    Except (Fault ε) (MerkleProof rs) :=
  if ¬ indices.Pairwise (· < ·) then .error .panic
  else
    match indices.getLast? with
    | none => .error .panic
    | some last =>
        if last < rs.leavesLen t.tree then
          .ok ⟨t.alg, rs.leavesLen t.tree, rs.proof t.tree indices⟩
        else .error .panic

end MerkleTree

theorem MerkleTree.insert_new {ε : Type} (hasher : HashAlgorithm) (leaves : List Hash) :
    ((new hasher.id : MerkleTree rs).insert hasher leaves : Except (Fault ε) _) =
      .ok ⟨hasher.id, rs.commit hasher.hash rs.empty leaves⟩ :=
  if_pos rfl

/-- Increasing indices within a tree have a proof. -/
theorem MerkleTree.proof_of_lt {ε : Type} {t : MerkleTree rs} {indices : List Nat}
    (hne : indices ≠ []) (hsorted : indices.Pairwise (· < ·))
    (hlt : ∀ i ∈ indices, i < rs.leavesLen t.tree) :
    (t.proof indices : Except (Fault ε) _) =
      .ok ⟨t.alg, rs.leavesLen t.tree, rs.proof t.tree indices⟩ := by
  rw [proof, if_neg (not_not_intro hsorted), List.getLast?_eq_getLast_of_ne_nil hne]
  exact if_pos (hlt _ (List.getLast_mem hne))

theorem mem_sortLeaves {leaves : List (Nat × Hash)} {l : Nat × Hash} :
    l ∈ sortLeaves leaves ↔ l ∈ leaves := by
  simp [sortLeaves]

/-- An accepted proof recomputes the root from each of its leaves. -/
theorem MerkleProof.climb_of_verify {p : MerkleProof rs} {hasher : HashAlgorithm}
    {root : TypedHash} {leaves : List (Nat × Hash)} (h : p.verify hasher root leaves = .ok ())
    {i : Nat} {d : Hash} (hd : (i, d) ∈ leaves) :
    ∃ path, HashTree.climb hasher.hash hashPair d path = root.value ∧
      ∀ x ∈ HashTree.climbPreimages hasher.hash hashPair d path,
        x ∈ rs.verifyPreimages hasher.hash p.proof ((sortLeaves leaves).map Prod.fst)
          ((sortLeaves leaves).map Prod.snd) p.leafCount := by
  unfold MerkleProof.verify at h
  dsimp only at h
  split at h
  · cases h
  · split at h
    · cases h
    · rename_i _ hv
      exact rs.verify_climb _ _ _ _ _ _ (by simpa using hv) d
        (List.mem_map.mpr ⟨(i, d), mem_sortLeaves.mpr hd, rfl⟩)

theorem sortLeaves_indices (leaves : List (Nat × Hash)) (h : (leaves.map Prod.fst).Nodup) :
    ((sortLeaves leaves).map Prod.fst).Pairwise (· < ·) := by
  have hperm : (sortLeaves leaves).Perm leaves := List.perm_insertionSort _ _
  have hnodup : ((sortLeaves leaves).map Prod.fst).Nodup :=
    (hperm.map Prod.fst).nodup_iff.mpr h
  have hsorted : (sortLeaves leaves).Pairwise (fun a b => a.1 ≤ b.1) :=
    have : Std.Total (fun a b : Nat × Hash => a.1 ≤ b.1) := ⟨fun a b => Nat.le_total a.1 b.1⟩
    have : IsTrans (Nat × Hash) (fun a b => a.1 ≤ b.1) := ⟨fun _ _ _ => Nat.le_trans⟩
    List.pairwise_insertionSort _ leaves
  have hle : ((sortLeaves leaves).map Prod.fst).Pairwise (· ≤ ·) :=
    List.pairwise_map.mpr hsorted
  exact hle.imp₂ (fun _ _ hab hne => Nat.lt_of_le_of_ne hab hne) hnodup

/-- The proof a committed tree makes for some of its leaves is accepted, in
whatever order the leaves are presented. -/
theorem MerkleProof.verify_of_proof {ε : Type} {hasher : HashAlgorithm} {alg : HashAlgId}
    {all : List Hash} {r : Hash} {leaves : List (Nat × Hash)} {indices : List Nat}
    {p : MerkleProof rs}
    (hroot : rs.root (rs.commit hasher.hash rs.empty all) = some r)
    (hproof : ((⟨alg, rs.commit hasher.hash rs.empty all⟩ : MerkleTree rs).proof indices :
      Except (Fault ε) _) = .ok p)
    (hnodup : (leaves.map Prod.fst).Nodup) (hindices : indices.Perm (leaves.map Prod.fst))
    (hleaves : ∀ l ∈ leaves, all[l.1]? = some l.2) :
    p.verify hasher ⟨alg, r⟩ leaves = .ok () := by
  have hsorted := sortLeaves_indices leaves hnodup
  have hperm : (sortLeaves leaves).Perm leaves := List.perm_insertionSort _ _
  unfold MerkleTree.proof at hproof
  split at hproof
  · cases hproof
  · rename_i hpair
    split at hproof
    · cases hproof
    · rename_i last hlast
      split at hproof
      · cases hproof
        have hidx : indices = (sortLeaves leaves).map Prod.fst := by
          have hp : indices.Perm ((sortLeaves leaves).map Prod.fst) :=
            hindices.trans (hperm.map Prod.fst).symm
          exact hp.eq_of_pairwise (fun a b _ _ hab hba => absurd hba (Nat.lt_asymm hab))
            (Classical.not_not.mp hpair) hsorted
        have hne : (sortLeaves leaves).map Prod.fst ≠ [] := by
          rw [← hidx]
          rintro rfl
          simp at hlast
        have hall : List.Forall₂ (fun i d => all[i]? = some d)
            ((sortLeaves leaves).map Prod.fst) ((sortLeaves leaves).map Prod.snd) := by
          rw [List.forall₂_map_left_iff, List.forall₂_map_right_iff, List.forall₂_same]
          intro l hl
          exact hleaves l (mem_sortLeaves.mp hl)
        have hv := rs.verify_proof hasher.hash all _ _ r hne hsorted hroot hall
        have hnd : ((sortLeaves leaves).map Prod.fst).Nodup := hsorted.imp Nat.ne_of_lt
        simp [MerkleProof.verify, hnd, hidx, rs.leavesLen_commit, hv]
      · cases hproof

/-- A committed tree that makes a proof has a root. -/
theorem MerkleTree.root_of_proof {ε : Type} {hasher : HashAlgorithm} {alg : HashAlgId}
    {all : List Hash} {indices : List Nat} {p : MerkleProof rs}
    (h : ((⟨alg, rs.commit hasher.hash rs.empty all⟩ : MerkleTree rs).proof indices :
      Except (Fault ε) _) = .ok p) :
    ∃ r, rs.root (rs.commit hasher.hash rs.empty all) = some r := by
  have hne : all ≠ [] := by
    rintro rfl
    unfold MerkleTree.proof at h
    simp only [rs.leavesLen_commit, List.length_nil, Nat.not_lt_zero, if_false] at h
    split at h
    · cases h
    · split at h <;> cases h
  obtain ⟨t, -, hroot, -⟩ := rs.root_commit hasher.hash all hne
  exact ⟨_, hroot⟩

end Tlsn.Core

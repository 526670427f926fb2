import Mathlib.Data.List.Basic
import Mathlib.Data.Set.BooleanAlgebra
import Mathlib.Data.Set.Function
import Mathlib.Order.CompletePartialOrder

/-!
Binary hash trees and the authentication paths into them. A path is read from
the root down, so that climbing it recombines the digest at its foot with one
sibling after another. The siblings are the claimant's: only digests computed
along the path are known to be hashes.

Injectivity of the hash is only ever used on a set of strings fixed in advance,
the strings which the two parties actually hash.
-/

inductive HashTree (δ : Type) where
  | leaf (d : δ)
  | node (l r : HashTree δ)

namespace HashTree

variable {β δ : Type}

def leaves : HashTree δ → List δ
  | .leaf d => [d]
  | .node l r => l.leaves ++ r.leaves

def value (hash : β → δ) (pair : δ → δ → β) : HashTree δ → δ
  | .leaf d => d
  | .node l r => hash (pair (l.value hash pair) (r.value hash pair))

/-- The strings hashed to compute the root, leaves not included. -/
def preimages (hash : β → δ) (pair : δ → δ → β) : HashTree δ → List β
  | .leaf _ => []
  | .node l r =>
      pair (l.value hash pair) (r.value hash pair) ::
        (l.preimages hash pair ++ r.preimages hash pair)

inductive Side where
  | left
  | right

def join (pair : δ → δ → β) (side : Side) (d sibling : δ) : β :=
  match side with
  | .left => pair d sibling
  | .right => pair sibling d

/-- The root reached from the digest `d` at the foot of a path. -/
def climb (hash : β → δ) (pair : δ → δ → β) (d : δ) : List (Side × δ) → δ
  | [] => d
  | (side, sibling) :: rest => hash (join pair side (climb hash pair d rest) sibling)

def climbPreimages (hash : β → δ) (pair : δ → δ → β) (d : δ) : List (Side × δ) → List β
  | [] => []
  | (side, sibling) :: rest =>
      join pair side (climb hash pair d rest) sibling :: climbPreimages hash pair d rest

/-- The hash separates the strings in `S`; children computed as hashes can be
told apart from the pair they are hashed in; and leaf strings are not pairs. -/
structure Binding (hash : β → δ) (pair : δ → δ → β) (S : Set β) (isLeaf : β → Prop) : Prop where
  injOn : Set.InjOn hash S
  pair_left : ∀ x y z s, pair (hash x) s = pair (hash y) (hash z) → hash x = hash y
  pair_right : ∀ x y z s, pair s (hash x) = pair (hash y) (hash z) → hash x = hash z
  leaf_ne_pair : ∀ x a b, isLeaf x → x ≠ pair a b

variable {hash : β → δ} {pair : δ → δ → β} {S : Set β} {isLeaf : β → Prop}

/-- Every leaf climbs to the root, hashing only what computing the root hashes. -/
theorem exists_path_of_mem_leaves (hash : β → δ) (pair : δ → δ → β) (t : HashTree δ)
    (d : δ) (hd : d ∈ t.leaves) :
    ∃ path, climb hash pair d path = t.value hash pair ∧
      ∀ x ∈ climbPreimages hash pair d path, x ∈ t.preimages hash pair := by
  induction t with
  | leaf e =>
      refine ⟨[], ?_, by simp [climbPreimages]⟩
      simpa [leaves, climb, value] using hd
  | node l r ihl ihr =>
      rcases List.mem_append.mp hd with hd | hd
      · obtain ⟨path, hroot, hpre⟩ := ihl hd
        refine ⟨(.left, r.value hash pair) :: path, by simp [climb, join, value, hroot], ?_⟩
        intro x hx
        rcases List.mem_cons.mp hx with rfl | hx
        · simp [join, hroot, preimages]
        · simp [preimages, hpre x hx]
      · obtain ⟨path, hroot, hpre⟩ := ihr hd
        refine ⟨(.right, l.value hash pair) :: path, by simp [climb, join, value, hroot], ?_⟩
        intro x hx
        rcases List.mem_cons.mp hx with rfl | hx
        · simp [join, hroot, preimages]
        · simp [preimages, hpre x hx]

/-- The tree which hashes each further leaf in on the right. -/
def comb (t : HashTree δ) : List δ → HashTree δ
  | [] => t
  | d :: ds => comb (.node t (.leaf d)) ds

@[simp] theorem leaves_comb (t : HashTree δ) (ds : List δ) :
    (comb t ds).leaves = t.leaves ++ ds := by
  induction ds generalizing t with
  | nil => simp [comb]
  | cons d ds ih => simp [comb, ih, leaves]

/-- Every node value is a hash when every leaf is. -/
theorem exists_hash_eq_value (hash : β → δ) (pair : δ → δ → β) (t : HashTree δ)
    (hleaf : ∀ d ∈ t.leaves, ∃ x, d = hash x) :
    ∃ x, t.value hash pair = hash x := by
  cases t with
  | leaf d => exact hleaf d (by simp [leaves])
  | node l r => exact ⟨_, rfl⟩

theorem exists_hash_eq_climb (hash : β → δ) (pair : δ → δ → β) (d : δ) (path : List (Side × δ))
    (hd : ∃ x, d = hash x) :
    ∃ x, climb hash pair d path = hash x := by
  cases path with
  | nil => exact hd
  | cons step rest => exact ⟨_, rfl⟩

/-- A leaf string whose digest climbs to the root of a tree is the digest of a
leaf of that tree, whatever siblings and depth the path claims. -/
theorem mem_leaves_of_climb (hb : Binding hash pair S isLeaf) (t : HashTree δ) (y : β)
    (path : List (Side × δ)) (hy : isLeaf y) (hyS : y ∈ S)
    (hleaf : ∀ d ∈ t.leaves, ∃ x, isLeaf x ∧ x ∈ S ∧ d = hash x)
    (htS : ∀ x ∈ t.preimages hash pair, x ∈ S)
    (hpS : ∀ x ∈ climbPreimages hash pair (hash y) path, x ∈ S)
    (hroot : climb hash pair (hash y) path = t.value hash pair) :
    hash y ∈ t.leaves := by
  induction path generalizing t with
  | nil =>
      cases t with
      | leaf d => simpa [climb, value, leaves] using hroot
      | node l r =>
          have heq : y = pair (l.value hash pair) (r.value hash pair) :=
            hb.injOn hyS (htS _ (by simp [preimages])) (by simpa [climb, value] using hroot)
          exact absurd heq (hb.leaf_ne_pair y _ _ hy)
  | cons step rest ih =>
      obtain ⟨side, sibling⟩ := step
      have hstep : join pair side (climb hash pair (hash y) rest) sibling ∈ S :=
        hpS _ (by simp [climbPreimages])
      have hrestS : ∀ x ∈ climbPreimages hash pair (hash y) rest, x ∈ S := by
        intro x hx
        exact hpS x (by simp [climbPreimages, hx])
      obtain ⟨w, hw⟩ := exists_hash_eq_climb hash pair (hash y) rest ⟨y, rfl⟩
      cases t with
      | leaf d =>
          obtain ⟨x, hx, hxS, rfl⟩ := hleaf d (by simp [leaves])
          have heq := hb.injOn hstep hxS (by simpa [climb, value] using hroot)
          cases side with
          | left => exact absurd heq.symm (hb.leaf_ne_pair x _ _ hx)
          | right => exact absurd heq.symm (hb.leaf_ne_pair x _ _ hx)
      | node l r =>
          have hl : ∀ d ∈ l.leaves, ∃ x, isLeaf x ∧ x ∈ S ∧ d = hash x := by
            intro d hd
            exact hleaf d (by simp [leaves, hd])
          have hr : ∀ d ∈ r.leaves, ∃ x, isLeaf x ∧ x ∈ S ∧ d = hash x := by
            intro d hd
            exact hleaf d (by simp [leaves, hd])
          obtain ⟨u, hu⟩ := exists_hash_eq_value hash pair l
            (fun d hd => (hl d hd).imp fun _ h => h.2.2)
          obtain ⟨v, hv⟩ := exists_hash_eq_value hash pair r
            (fun d hd => (hr d hd).imp fun _ h => h.2.2)
          have heq : join pair side (climb hash pair (hash y) rest) sibling =
              pair (l.value hash pair) (r.value hash pair) :=
            hb.injOn hstep (htS _ (by simp [preimages])) (by simpa [climb, value] using hroot)
          -- the computed child is one of the two children of the tree's node
          cases side with
          | left =>
              have hchild : climb hash pair (hash y) rest = l.value hash pair := by
                rw [hw, hu]
                simp only [join, hw, hu, hv] at heq
                exact hb.pair_left w u v sibling heq
              have := ih l hl (fun x hx => htS x (by simp [preimages, hx])) hrestS hchild
              simp [leaves, this]
          | right =>
              have hchild : climb hash pair (hash y) rest = r.value hash pair := by
                rw [hw, hv]
                simp only [join, hw, hu, hv] at heq
                exact hb.pair_right w u v sibling heq
              have := ih r hr (fun x hx => htS x (by simp [preimages, hx])) hrestS hchild
              simp [leaves, this]

/-! ## Two trees of one root -/

theorem length_leaves_pos (t : HashTree δ) : 0 < t.leaves.length := by
  induction t with
  | leaf d => simp [leaves]
  | node l r ihl ihr =>
      rw [leaves, List.length_append]
      omega

/-- The strings hashed to leaves are told apart from those hashed to nodes, and a
pair of which one side is a hash is split where a pair of hashes is. -/
structure Separated (hash : β → δ) (pair : δ → δ → β) (L N : Set β) : Prop where
  injOn : Set.InjOn hash (L ∪ N)
  disjoint : Disjoint L N
  split_left : ∀ x y z s, pair (hash x) s = pair (hash y) (hash z) → hash x = hash y ∧ s = hash z
  split_right : ∀ x y z s, pair s (hash x) = pair (hash y) (hash z) → s = hash y ∧ hash x = hash z

namespace Separated

variable {L N : Set β} (hs : Separated hash pair L N)
include hs

theorem hash_ne {x y : β} (hx : x ∈ L) (hy : y ∈ N) : hash x ≠ hash y := by
  intro h
  have heq := hs.injOn (.inl hx) (.inr hy) h
  exact Set.disjoint_left.mp hs.disjoint hx (heq ▸ hy)

omit hs in
/-- A tree with a hashed leaf has a hash as its value. -/
theorem exists_hash_of_mem {t : HashTree δ} {p : δ → Bool}
    (hp : ∀ d, p d = true → ∃ y ∈ L, d = hash y) (h : t.leaves.filter p ≠ []) :
    ∃ x, t.value hash pair = hash x := by
  cases t with
  | leaf d =>
      obtain ⟨e, he⟩ := List.exists_mem_of_ne_nil _ h
      simp only [leaves, List.mem_filter, List.mem_singleton] at he
      obtain ⟨y, -, hy⟩ := hp e he.2
      exact ⟨y, he.1 ▸ hy⟩
  | node l r => exact ⟨_, rfl⟩

/-- The children of a node are those of the node it is confused with, if one of them has a
hashed leaf. -/
theorem children_eq {l r l' r' : HashTree δ} {p : δ → Bool}
    (hp : ∀ d, p d = true → ∃ y ∈ L, d = hash y) (hl : ∃ x, l.value hash pair = hash x)
    (hr : ∃ x, r.value hash pair = hash x) (h : (node l' r').leaves.filter p ≠ [])
    (heq : pair (l'.value hash pair) (r'.value hash pair) =
      pair (l.value hash pair) (r.value hash pair)) :
    l'.value hash pair = l.value hash pair ∧ r'.value hash pair = r.value hash pair := by
  obtain ⟨u, hu⟩ := hl
  obtain ⟨v, hv⟩ := hr
  rw [hu, hv] at heq ⊢
  by_cases hleft : l'.leaves.filter p = []
  · have hright : r'.leaves.filter p ≠ [] := by
      intro hright
      simp only [leaves, List.filter_append, hleft, hright, List.append_nil] at h
      exact h rfl
    obtain ⟨w, hw⟩ := exists_hash_of_mem hp hright
    rw [hw] at heq ⊢
    exact hs.split_right w u v _ heq
  · obtain ⟨w, hw⟩ := exists_hash_of_mem hp hleft
    rw [hw] at heq ⊢
    exact hs.split_left w u v _ heq

/-- Of a tree of hashed leaves, another tree with its value shows some leaves, in their
order, whatever its shape is; when it shows as many, it is the same tree. -/
theorem leaves_sublist {t t' : HashTree δ} {p : δ → Bool}
    (hp : ∀ d, p d = true → ∃ y ∈ L, d = hash y) (hleaf : ∀ d ∈ t.leaves, ∃ x ∈ L, d = hash x)
    (ht : ∀ x ∈ t.preimages hash pair, x ∈ N) (ht' : ∀ x ∈ t'.preimages hash pair, x ∈ N)
    (h : t'.value hash pair = t.value hash pair) :
    (t'.leaves.filter p).Sublist t.leaves ∧
      (t.leaves.length ≤ (t'.leaves.filter p).length → t' = t) := by
  induction t' generalizing t with
  | leaf d =>
      by_cases hd : p d = true
      · obtain ⟨y, hy, rfl⟩ := hp d hd
        cases t with
        | leaf e =>
            obtain rfl : hash y = e := h
            simp [leaves, hd]
        | node l r =>
            exact absurd h (hs.hash_ne hy (ht _ (by simp [preimages])))
      · have hpos := t.length_leaves_pos
        simp only [leaves, List.filter_cons_of_neg hd, List.filter_nil, List.length_nil]
        exact ⟨List.nil_sublist _, fun hle => absurd hle (by omega)⟩
  | node l' r' ihl ihr =>
      cases t with
      | leaf e =>
          obtain ⟨x, hx, rfl⟩ := hleaf e (by simp [leaves])
          exact absurd h.symm (hs.hash_ne hx (ht' _ (by simp [preimages])))
      | node l r =>
          have hl : ∀ d ∈ l.leaves, ∃ x ∈ L, d = hash x :=
            fun d hd => hleaf d (List.mem_append_left _ hd)
          have hr : ∀ d ∈ r.leaves, ∃ x ∈ L, d = hash x :=
            fun d hd => hleaf d (List.mem_append_right _ hd)
          have heq : pair (l'.value hash pair) (r'.value hash pair) =
              pair (l.value hash pair) (r.value hash pair) :=
            hs.injOn (.inr (ht' _ (by simp [preimages]))) (.inr (ht _ (by simp [preimages]))) h
          have hpos := (node l r).length_leaves_pos
          by_cases hnone : (node l' r').leaves.filter p = []
          · rw [hnone]
            exact ⟨List.nil_sublist _, fun hle => absurd hle
              (by simp only [List.length_nil]; omega)⟩
          · obtain ⟨hlv, hrv⟩ := hs.children_eq hp
              (exists_hash_eq_value hash pair l fun d hd => (hl d hd).imp fun _ hx => hx.2)
              (exists_hash_eq_value hash pair r fun d hd => (hr d hd).imp fun _ hx => hx.2)
                hnone heq
            obtain ⟨hsl, htl⟩ := ihl hl (fun x hx => ht x (by simp [preimages, hx]))
              (fun x hx => ht' x (by simp [preimages, hx])) hlv
            obtain ⟨hsr, htr⟩ := ihr hr (fun x hx => ht x (by simp [preimages, hx]))
              (fun x hx => ht' x (by simp [preimages, hx])) hrv
            simp only [leaves, List.filter_append, List.length_append]
            refine ⟨hsl.append hsr, fun hle => ?_⟩
            have hlenl := hsl.length_le
            have hlenr := hsr.length_le
            rw [htl (by omega), htr (by omega)]

end Separated

end HashTree

import Tlsn.Core.EncodingProof

/-!
The tree of encoding commitments. Building it skips empty and repeated indices,
so that leaf `k` is the blinded encoding of the `k`-th index kept. Blinders are
drawn afresh for every leaf; the sequence drawn is a parameter, as is the
provider of encodings.
-/

namespace Tlsn.Core

inductive EncodingTreeError where
  | outOfBounds (index : Idx) (transcriptLength : Nat)
  | missingEncoding (index : Idx)
  | missingLeaf (index : Idx)

/-- Encodings of subsequences, where the provider has them. -/
abbrev EncodingProvider := Direction → Idx → Option (List UInt8)

structure EncodingTree (rs : RsMerkle) where
  tree : MerkleTree rs
  nonces : List Blinder
  idxs : BiMap Nat (Direction × Idx)
  sentIdx : Idx
  receivedIdx : Idx

namespace EncodingTree

variable {rs : RsMerkle}

def idx (tree : EncodingTree rs) : Direction → Idx
  | .sent => tree.sentIdx
  | .received => tree.receivedIdx

def extendIdx (tree : EncodingTree rs) (direction : Direction) (idx : Idx) : EncodingTree rs :=
  match direction with
  | .sent => { tree with sentIdx := tree.sentIdx.union idx }
  | .received => { tree with receivedIdx := tree.receivedIdx.union idx }

/-- The loop body of `new`, over the tree and its leaves so far. -/
def commitIdx (hasher : HashAlgorithm) (provider : EncodingProvider)
    (transcriptLength : TranscriptLength) (blinders : Nat → Blinder)
    (st : EncodingTree rs × List Hash) (dirIdx : Direction × Idx) :
    Except (Fault EncodingTreeError) (EncodingTree rs × List Hash) := do
  let (this, leaves) := st
  let (direction, idx) := dirIdx
  if idx.isEmpty then
    return st
  let len := transcriptLength.ofDirection direction
  if idx.stop > len then
    throw (.err (.outOfBounds idx len))
  if this.idxs.containsRight dirIdx then
    return st
  match provider direction idx with
  | none => throw (.err (.missingEncoding idx))
  | some encoding =>
      let leaf : Blinded EncodingLeaf := ⟨⟨encoding⟩, blinders this.nonces.length⟩
      let hash ← hasher.hashCanonical leaf
      let this := { this with
        nonces := this.nonces ++ [leaf.blinder]
        idxs := this.idxs.insert this.idxs.len dirIdx }
      return (this.extendIdx direction idx, leaves ++ [hash])

def new (hasher : HashAlgorithm) (idxs : List (Direction × Idx)) (provider : EncodingProvider)
    (transcriptLength : TranscriptLength) (blinders : Nat → Blinder) :
    Except (Fault EncodingTreeError) (EncodingTree rs) := do
  let init : EncodingTree rs :=
    ⟨MerkleTree.new hasher.id, [], BiMap.empty, RangeSet.empty, RangeSet.empty⟩
  let (this, leaves) ← idxs.foldlM
    (commitIdx hasher provider transcriptLength blinders) (init, [])
  let tree ← this.tree.insert hasher leaves
  return { this with tree := tree }

def root {ε : Type} (tree : EncodingTree rs) : Except (Fault ε) TypedHash := tree.tree.root

def algorithm (tree : EncodingTree rs) : HashAlgId := tree.tree.alg

/-- The loop body of `proof`, over the openings so far. -/
def openIdx (tree : EncodingTree rs) (transcript : Transcript) (openings : AssocMap Nat Opening)
    (dirIdx : Direction × Idx) : Except (Fault EncodingTreeError) (AssocMap Nat Opening) :=
  match tree.idxs.getByRight dirIdx with
  | none => throw (.err (.missingLeaf dirIdx.2))
  | some leafIdx =>
      match transcript.get dirIdx.1 dirIdx.2 with
      | none =>
          throw (.err (.outOfBounds dirIdx.2 (transcript.lenOfDirection dirIdx.1)))
      | some seq =>
          match tree.nonces[leafIdx]? with
          | none => throw .panic
          | some nonce => return openings.insert leafIdx ⟨dirIdx.1, seq, nonce⟩

def proof (tree : EncodingTree rs) (transcript : Transcript) (idxs : List (Direction × Idx)) :
    Except (Fault EncodingTreeError) (EncodingProof rs) := do
  let openings ← idxs.foldlM (tree.openIdx transcript) AssocMap.empty
  let indices := openings.keys.insertionSort (· ≤ ·)
  let inclusionProof ← tree.tree.proof indices
  return ⟨inclusionProof, openings⟩

def contains (tree : EncodingTree rs) (idx : Direction × Idx) : Bool :=
  tree.idxs.containsRight idx

def transcriptIndices (tree : EncodingTree rs) : List (Direction × Idx) := tree.idxs.rightValues

/-! ## What a built tree commits to -/

/-- The strings whose hashes are the leaves, in the order of the leaves. -/
def leafStrings (provider : EncodingProvider) (tree : EncodingTree rs) : List (List UInt8) :=
  List.zipWith (fun dirIdx blinder =>
    Blinded.bytes ⟨⟨(provider dirIdx.1 dirIdx.2).getD []⟩, blinder⟩)
    tree.transcriptIndices tree.nonces

/-- The strings hashed to build the tree. -/
def hashed (hasher : HashAlgorithm) (provider : EncodingProvider) (tree : EncodingTree rs) :
    List (List UInt8) :=
  tree.leafStrings provider ++
    rs.commitPreimages hasher.hash ((tree.leafStrings provider).map hasher.hash)

/-- Leaf `k` is the hash of the blinded encoding of the `k`-th index, and every
index is nonempty, within bounds and short enough to be serialized. -/
structure Committed (hasher : HashAlgorithm) (provider : EncodingProvider)
    (l : TranscriptLength) (tree : EncodingTree rs) (leaves : List Hash) : Prop where
  lefts : tree.idxs.entries.map Prod.fst = List.range tree.idxs.len
  nonces : tree.nonces.length = tree.idxs.len
  leaves : leaves = (tree.leafStrings provider).map hasher.hash
  encoded : ∀ d idx, (d, idx) ∈ tree.transcriptIndices →
    idx.vals ≠ [] ∧ idx.stop ≤ l.ofDirection d ∧
      ∃ encoding, provider d idx = some encoding ∧ encoding.length ≤ maxSequenceLength
  idx : ∀ d n, n ∈ tree.idx d ↔ ∃ idx, (d, idx) ∈ tree.transcriptIndices ∧ n ∈ idx

variable {hasher : HashAlgorithm} {provider : EncodingProvider} {l : TranscriptLength}
  {blinders : Nat → Blinder}

@[simp] theorem extendIdx_idxs (tree : EncodingTree rs) (d : Direction) (idx : Idx) :
    (tree.extendIdx d idx).idxs = tree.idxs := by
  cases d <;> rfl

@[simp] theorem extendIdx_nonces (tree : EncodingTree rs) (d : Direction) (idx : Idx) :
    (tree.extendIdx d idx).nonces = tree.nonces := by
  cases d <;> rfl

@[simp] theorem extendIdx_tree (tree : EncodingTree rs) (d : Direction) (idx : Idx) :
    (tree.extendIdx d idx).tree = tree.tree := by
  cases d <;> rfl

theorem mem_extendIdx {tree : EncodingTree rs} {d d' : Direction} {idx : Idx} {n : Nat} :
    n ∈ (tree.extendIdx d idx).idx d' ↔ n ∈ tree.idx d' ∨ (d' = d ∧ n ∈ idx) := by
  cases d <;> cases d' <;> simp [extendIdx, EncodingTree.idx]

/-- What one turn of the loop does: nothing, or commit to one more index. -/
theorem commitIdx_cases {st st' : EncodingTree rs × List Hash} {dirIdx : Direction × Idx}
    (h : commitIdx hasher provider l blinders st dirIdx = .ok st') :
    st' = st ∧ (dirIdx.2.isEmpty = true ∨ dirIdx ∈ st.1.transcriptIndices) ∨
      (dirIdx.2.vals ≠ [] ∧ dirIdx.2.stop ≤ l.ofDirection dirIdx.1 ∧
        dirIdx ∉ st.1.transcriptIndices ∧
        ∃ encoding, provider dirIdx.1 dirIdx.2 = some encoding ∧
          encoding.length ≤ maxSequenceLength ∧
          st' = (({ st.1 with
              nonces := st.1.nonces ++ [blinders st.1.nonces.length]
              idxs := st.1.idxs.insert st.1.idxs.len dirIdx } :
                EncodingTree rs).extendIdx dirIdx.1 dirIdx.2,
            st.2 ++ [hasher.hash
              (Blinded.bytes ⟨⟨encoding⟩, blinders st.1.nonces.length⟩)])) := by
  obtain ⟨this, leaves⟩ := st
  obtain ⟨direction, idx⟩ := dirIdx
  unfold commitIdx at h
  dsimp only at h ⊢
  by_cases hempty : idx.isEmpty = true
  · rw [if_pos hempty] at h
    cases h
    exact .inl ⟨rfl, .inl hempty⟩
  · rw [if_neg hempty] at h
    by_cases hstop : idx.stop > l.ofDirection direction
    · rw [if_pos hstop] at h
      cases h
    · rw [if_neg hstop] at h
      by_cases hdup : this.idxs.containsRight (direction, idx) = true
      · rw [if_pos hdup] at h
        cases h
        exact .inl ⟨rfl, .inr (BiMap.containsRight_iff.mp hdup)⟩
      · rw [if_neg hdup] at h
        have hne : idx.vals ≠ [] := by
          intro hnil
          exact hempty (by simp [RangeSet.isEmpty, hnil])
        have hfresh : (direction, idx) ∉ this.idxs.rightValues :=
          fun hmem => hdup (BiMap.containsRight_iff.mpr hmem)
        cases hprov : provider direction idx with
        | none =>
            rw [hprov] at h
            cases h
        | some encoding =>
            rw [hprov] at h
            obtain ⟨hash, hhash, h⟩ := Fault.bind_ok_iff.mp h
            obtain ⟨hlen, rfl⟩ := HashAlgorithm.hashCanonical_ok_iff.mp hhash
            cases h
            exact .inr ⟨hne, by omega, hfresh, encoding, rfl, hlen, rfl⟩

theorem Committed.init : Committed hasher provider l
    (⟨MerkleTree.new hasher.id, [], BiMap.empty, RangeSet.empty, RangeSet.empty⟩ :
      EncodingTree rs) [] where
  lefts := rfl
  nonces := rfl
  leaves := rfl
  encoded d idx h := by simp [transcriptIndices, BiMap.empty, BiMap.rightValues] at h
  idx d n := by
    cases d <;>
      simp [EncodingTree.idx, transcriptIndices, BiMap.empty, BiMap.rightValues]

theorem Committed.entries_insert {tree : EncodingTree rs} {leaves : List Hash}
    {dirIdx : Direction × Idx} (hc : Committed hasher provider l tree leaves)
    (hfresh : dirIdx ∉ tree.transcriptIndices) :
    (tree.idxs.insert tree.idxs.len dirIdx).entries =
      tree.idxs.entries ++ [(tree.idxs.len, dirIdx)] := by
  have hleft : tree.idxs.len ∉ tree.idxs.entries.map Prod.fst := by
    rw [hc.lefts]
    simp
  exact BiMap.entries_insert_of_fresh hleft hfresh

theorem Committed.rightValues_insert {tree : EncodingTree rs} {leaves : List Hash}
    {dirIdx : Direction × Idx} (hc : Committed hasher provider l tree leaves)
    (hfresh : dirIdx ∉ tree.transcriptIndices) :
    (tree.idxs.insert tree.idxs.len dirIdx).rightValues = tree.transcriptIndices ++ [dirIdx] := by
  simp [BiMap.rightValues, hc.entries_insert hfresh, transcriptIndices]

theorem Committed.step {st st' : EncodingTree rs × List Hash} {dirIdx : Direction × Idx}
    (hc : Committed hasher provider l st.1 st.2)
    (h : commitIdx hasher provider l blinders st dirIdx = .ok st') :
    Committed hasher provider l st'.1 st'.2 ∧ st'.1.tree = st.1.tree := by
  obtain ⟨rfl, -⟩ | ⟨hne, hstop, hfresh, encoding, hprov, hlen, rfl⟩ := commitIdx_cases h
  · exact ⟨hc, rfl⟩
  · have hentries := hc.entries_insert hfresh
    have hvalues := hc.rightValues_insert hfresh
    have hcount : (st.1.idxs.insert st.1.idxs.len dirIdx).len = st.1.idxs.len + 1 := by
      rw [BiMap.len, hentries, List.length_append]
      rfl
    have hzip : st.1.transcriptIndices.length = st.1.nonces.length := by
      rw [hc.nonces]
      simp [transcriptIndices, BiMap.rightValues, BiMap.len]
    refine ⟨⟨?_, ?_, ?_, ?_, ?_⟩, by simp⟩
    · rw [extendIdx_idxs, hcount, List.range_succ, hentries, List.map_append, hc.lefts]
      rfl
    · simp [hcount, hc.nonces]
    · rw [leafStrings, extendIdx_nonces, transcriptIndices, extendIdx_idxs, hvalues,
        List.zipWith_append hzip, List.map_append, hc.leaves]
      simp [leafStrings, hprov]
    · intro d idx hmem
      simp only [transcriptIndices, extendIdx_idxs, hvalues, List.mem_append,
        List.mem_singleton] at hmem
      rcases hmem with hmem | rfl
      · exact hc.encoded d idx hmem
      · exact ⟨hne, hstop, encoding, hprov, hlen⟩
    · intro d n
      have hidx : ∀ d, EncodingTree.idx { st.1 with
          nonces := st.1.nonces ++ [blinders st.1.nonces.length]
          idxs := st.1.idxs.insert st.1.idxs.len dirIdx } d = st.1.idx d := by
        intro d
        cases d <;> rfl
      rw [mem_extendIdx, hidx, hc.idx]
      simp only [transcriptIndices, extendIdx_idxs, hvalues, List.mem_append, List.mem_singleton]
      constructor
      · rintro (⟨idx, hmem, hn⟩ | ⟨rfl, hn⟩)
        · exact ⟨idx, .inl hmem, hn⟩
        · exact ⟨dirIdx.2, .inr rfl, hn⟩
      · rintro ⟨idx, hmem | rfl, hn⟩
        · exact .inl ⟨idx, hmem, hn⟩
        · exact .inr ⟨rfl, hn⟩

/-- A turn of the loop adds an index that is not empty. -/
theorem Committed.mem_step {st st' : EncodingTree rs × List Hash} {dirIdx x : Direction × Idx}
    (hc : Committed hasher provider l st.1 st.2)
    (h : commitIdx hasher provider l blinders st dirIdx = .ok st') :
    x ∈ st'.1.transcriptIndices ↔
      x ∈ st.1.transcriptIndices ∨ x = dirIdx ∧ dirIdx.2.vals ≠ [] := by
  obtain ⟨rfl, hskip⟩ | ⟨hne, -, hfresh, encoding, -, -, rfl⟩ := commitIdx_cases h
  · refine (or_iff_left_of_imp ?_).symm
    rintro ⟨rfl, hne⟩
    cases hskip with
    | inl hempty => exact absurd (by simpa [RangeSet.isEmpty] using hempty) hne
    | inr hmem => exact hmem
  · simp [transcriptIndices, hc.rightValues_insert hfresh, hne]

/-- The tree that `new` starts with. -/
private def emptyTree (hasher : HashAlgorithm) : EncodingTree rs :=
  ⟨MerkleTree.new hasher.id, [], BiMap.empty, RangeSet.empty, RangeSet.empty⟩

private theorem new_eq {idxs : List (Direction × Idx)} :
    (new hasher idxs provider l blinders : Except _ (EncodingTree rs)) = do
      let st ← idxs.foldlM (commitIdx hasher provider l blinders) (emptyTree hasher, [])
      let tree ← st.1.tree.insert hasher st.2
      return { st.1 with tree := tree } := rfl

private theorem loop_committed {idxs : List (Direction × Idx)} {st : EncodingTree rs × List Hash}
    (h : idxs.foldlM (commitIdx hasher provider l blinders) (emptyTree hasher, []) = .ok st) :
    Committed hasher provider l st.1 st.2 ∧ st.1.tree = MerkleTree.new hasher.id :=
  Fault.foldlM_invariant (P := fun _ st => Committed hasher provider l st.1 st.2 ∧
    st.1.tree = MerkleTree.new hasher.id) ⟨Committed.init, rfl⟩
    (fun _ _ _ _ _ _ hst hstep =>
      ⟨(hst.1.step hstep).1, (hst.1.step hstep).2.trans hst.2⟩) h

/-- What a successful `new` returns. -/
theorem committed_of_new {idxs : List (Direction × Idx)} {tree : EncodingTree rs}
    (h : new hasher idxs provider l blinders = .ok tree) :
    ∃ leaves, Committed hasher provider l tree leaves ∧
      tree.tree = ⟨hasher.id, rs.commit hasher.hash rs.empty leaves⟩ := by
  rw [new_eq] at h
  obtain ⟨⟨this, leaves⟩, hloop, h⟩ := Fault.bind_ok_iff.mp h
  obtain ⟨tree', hinsert, h⟩ := Fault.bind_ok_iff.mp h
  cases h
  obtain ⟨hc, htree⟩ := loop_committed hloop
  refine ⟨leaves, ⟨hc.lefts, hc.nonces, hc.leaves, hc.encoded, hc.idx⟩, ?_⟩
  dsimp only at htree hinsert
  rw [htree, MerkleTree.insert_new] at hinsert
  cases hinsert
  rfl

/-- The tree holds the indices which are not empty. -/
theorem mem_transcriptIndices_of_new {idxs : List (Direction × Idx)} {tree : EncodingTree rs}
    (h : new hasher idxs provider l blinders = .ok tree) {x : Direction × Idx} :
    x ∈ tree.transcriptIndices ↔ x ∈ idxs ∧ x.2.vals ≠ [] := by
  rw [new_eq] at h
  obtain ⟨st, hloop, h⟩ := Fault.bind_ok_iff.mp h
  obtain ⟨tree', -, h⟩ := Fault.bind_ok_iff.mp h
  cases h
  have hinv := Fault.foldlM_invariant (P := fun pre st => Committed hasher provider l st.1 st.2 ∧
    (x ∈ st.1.transcriptIndices ↔ x ∈ pre ∧ x.2.vals ≠ []))
    ⟨Committed.init, by simp [emptyTree, transcriptIndices, BiMap.empty, BiMap.rightValues]⟩
    (by
      rintro pre dirIdx post st st' - ⟨hc, hmem⟩ hstep
      refine ⟨(hc.step hstep).1, ?_⟩
      rw [hc.mem_step hstep, hmem, List.mem_append, List.mem_singleton]
      constructor
      · rintro (⟨hpre, hne⟩ | ⟨rfl, hne⟩)
        · exact ⟨.inl hpre, hne⟩
        · exact ⟨.inr rfl, hne⟩
      · rintro ⟨hpre | rfl, hne⟩
        · exact .inl ⟨hpre, hne⟩
        · exact .inr ⟨rfl, hne⟩) hloop
  exact hinv.2

theorem leaves_of_new {idxs : List (Direction × Idx)} {tree : EncodingTree rs}
    (h : new hasher idxs provider l blinders = .ok tree) :
    ∃ leaves, tree.tree = ⟨hasher.id, rs.commit hasher.hash rs.empty leaves⟩ ∧
      (leaves ≠ [] ↔ ∃ x ∈ idxs, x.2.vals ≠ []) := by
  obtain ⟨leaves, hc, htree⟩ := committed_of_new h
  have hlen : leaves.length = tree.transcriptIndices.length := by
    have hnonces : tree.nonces.length = tree.transcriptIndices.length := by
      simp [hc.nonces, transcriptIndices, BiMap.rightValues, BiMap.len]
    simp [hc.leaves, leafStrings, hnonces]
  refine ⟨leaves, htree, ?_⟩
  rw [← List.length_pos_iff, hlen, List.length_pos_iff_exists_mem]
  simp only [mem_transcriptIndices_of_new h]

theorem root_of_new {idxs : List (Direction × Idx)} {tree : EncodingTree rs}
    (h : new hasher idxs provider l blinders = .ok tree) (hne : ∃ x ∈ idxs, x.2.vals ≠ []) :
    ∃ r, ∀ ε : Type, (tree.root : Except (Fault ε) _) = .ok ⟨hasher.id, r⟩ := by
  obtain ⟨leaves, htree, hleaves⟩ := leaves_of_new h
  obtain ⟨t, -, hroot, -⟩ := rs.root_commit hasher.hash leaves (hleaves.mpr hne)
  refine ⟨t.value hasher.hash hashPair, fun ε => ?_⟩
  simp only [EncodingTree.root, htree, MerkleTree.root, hroot]

/-- A tree of nothing but empty indices has no root. -/
theorem root_panic_of_new {ε : Type} {idxs : List (Direction × Idx)} {tree : EncodingTree rs}
    (h : new hasher idxs provider l blinders = .ok tree) (hempty : ¬ ∃ x ∈ idxs, x.2.vals ≠ []) :
    (tree.root : Except (Fault ε) _) = .error .panic := by
  obtain ⟨leaves, htree, hleaves⟩ := leaves_of_new h
  have hnil : leaves = [] := Decidable.not_not.mp fun hne => hempty (hleaves.mp hne)
  simp only [EncodingTree.root, htree, MerkleTree.root, hnil, rs.root_nil]

/-! ## When a tree is built -/

/-- The index is empty, or within bounds and its encoding is known. -/
def Provided (provider : EncodingProvider) (l : TranscriptLength) (dirIdx : Direction × Idx) :
    Prop :=
  dirIdx.2.isEmpty = true ∨ dirIdx.2.stop ≤ l.ofDirection dirIdx.1 ∧
    ∃ encoding, provider dirIdx.1 dirIdx.2 = some encoding

/-- The index is to be committed to, and its encoding is too long to be serialized. -/
def TooLong (provider : EncodingProvider) (l : TranscriptLength) (dirIdx : Direction × Idx) :
    Prop :=
  ¬ dirIdx.2.isEmpty = true ∧ dirIdx.2.stop ≤ l.ofDirection dirIdx.1 ∧
    ∃ encoding, provider dirIdx.1 dirIdx.2 = some encoding ∧ maxSequenceLength < encoding.length

/-- One turn of the loop returns, aborts, or fails with an error. -/
theorem commitIdx_outcome {st : EncodingTree rs × List Hash} {leaves : List Hash}
    {dirIdx : Direction × Idx} (hc : Committed hasher provider l st.1 leaves) :
    ((∃ st', commitIdx hasher provider l blinders st dirIdx = .ok st') ↔
      Provided provider l dirIdx ∧ ¬ TooLong provider l dirIdx) ∧
    (commitIdx hasher provider l blinders st dirIdx = .error .panic ↔
      TooLong provider l dirIdx) := by
  obtain ⟨this, hashes⟩ := st
  obtain ⟨d, idx⟩ := dirIdx
  unfold commitIdx Provided TooLong
  dsimp only
  by_cases hempty : idx.isEmpty = true
  · rw [if_pos hempty]
    exact ⟨iff_of_true ⟨_, rfl⟩ ⟨.inl hempty, fun h => h.1 hempty⟩,
      iff_of_false (fun h => by cases h) fun h => h.1 hempty⟩
  · rw [if_neg hempty]
    by_cases hstop : idx.stop > l.ofDirection d
    · rw [if_pos hstop]
      have hnot : ¬ idx.stop ≤ l.ofDirection d := Nat.not_le.mpr hstop
      refine ⟨iff_of_false (fun ⟨_, h⟩ => by cases h) ?_,
        iff_of_false (fun h => by cases h) fun h => hnot h.2.1⟩
      rintro ⟨h | h, -⟩
      · exact hempty h
      · exact hnot h.1
    · rw [if_neg hstop]
      have hle : idx.stop ≤ l.ofDirection d := Nat.le_of_not_gt hstop
      by_cases hdup : this.idxs.containsRight (d, idx) = true
      · -- an index of the tree has an encoding which was hashed
        rw [if_pos hdup]
        obtain ⟨-, -, encoding, hprov, hlen⟩ := hc.encoded d idx (BiMap.containsRight_iff.mp hdup)
        have hshort : ¬ ∃ encoding, provider d idx = some encoding ∧
            maxSequenceLength < encoding.length := by
          rintro ⟨encoding', hprov', hlong⟩
          cases hprov.symm.trans hprov'
          omega
        exact ⟨iff_of_true ⟨_, rfl⟩ ⟨.inr ⟨hle, encoding, hprov⟩, fun h => hshort h.2.2⟩,
          iff_of_false (fun h => by cases h) fun h => hshort h.2.2⟩
      · rw [if_neg hdup]
        cases hprov : provider d idx with
        | none =>
            refine ⟨iff_of_false (fun ⟨_, h⟩ => by cases h) ?_,
              iff_of_false (fun h => by cases h) (by simp)⟩
            rintro ⟨h | ⟨-, encoding, h⟩, -⟩
            · exact hempty h
            · cases h
        | some encoding =>
            simp only [Option.some.injEq, exists_eq_left', hle, hempty, Bool.false_eq_true,
              not_false_eq_true, true_and, exists_eq', or_true, Nat.not_lt]
            by_cases hlen : encoding.length ≤ maxSequenceLength
            · rw [HashAlgorithm.hashCanonical_ok_iff.mpr ⟨hlen, rfl⟩]
              exact ⟨iff_of_true ⟨_, rfl⟩ hlen,
                iff_of_false (fun h => by cases h) (Nat.not_lt.mpr hlen)⟩
            · rw [HashAlgorithm.hashCanonical_error_iff.mpr ⟨Nat.lt_of_not_le hlen, rfl⟩]
              exact ⟨iff_of_false (fun ⟨_, h⟩ => by cases h) hlen,
                iff_of_true rfl (Nat.lt_of_not_le hlen)⟩

/-- Building the tree aborts at the first encoding that is too long, if the loop gets there. -/
theorem new_panic_iff {idxs : List (Direction × Idx)} :
    (new hasher idxs provider l blinders : Except _ (EncodingTree rs)) = .error .panic ↔
      ∃ before dirIdx after, idxs = before ++ dirIdx :: after ∧
        (∀ x ∈ before, Provided provider l x) ∧ TooLong provider l dirIdx := by
  rw [new_eq, Fault.bind_error_iff, Fault.foldlM_error_iff_mem
    (fun st => Committed hasher provider l st.1 st.2) (Provided provider l) (TooLong provider l)
    Committed.init]
  · refine or_iff_left ?_
    rintro ⟨st, hst, h⟩
    rw [(loop_committed hst).2, MerkleTree.insert_new] at h
    cases h
  · intro dirIdx st st' hc hstep
    exact ⟨((commitIdx_outcome hc).1.mp ⟨st', hstep⟩).1, (hc.step hstep).1⟩
  · intro dirIdx st hc hprovided hshort
    exact (commitIdx_outcome hc).1.mpr ⟨hprovided, hshort⟩
  · intro dirIdx st hc
    exact (commitIdx_outcome hc).2

/-- A tree is built when every index is empty or has an encoding that can be hashed. -/
theorem new_ok_iff {idxs : List (Direction × Idx)} :
    (∃ tree, (new hasher idxs provider l blinders : Except _ (EncodingTree rs)) = .ok tree) ↔
      ∀ dirIdx ∈ idxs, Provided provider l dirIdx ∧ ¬ TooLong provider l dirIdx := by
  have hloop : (∃ st, idxs.foldlM (commitIdx hasher provider l blinders)
      ((emptyTree hasher, []) : EncodingTree rs × List Hash) = .ok st) ↔
      ∀ dirIdx ∈ idxs, Provided provider l dirIdx ∧ ¬ TooLong provider l dirIdx := by
    refine Fault.foldlM_ok_iff (fun st => Committed hasher provider l st.1 st.2)
      Committed.init ?_ ?_
    · intro dirIdx st st' hc hstep
      exact (hc.step hstep).1
    · intro dirIdx st hc
      exact (commitIdx_outcome hc).1
  rw [← hloop]
  constructor
  · rintro ⟨tree, h⟩
    rw [new_eq] at h
    obtain ⟨st, hst, -⟩ := Fault.bind_ok_iff.mp h
    exact ⟨st, hst⟩
  · rintro ⟨st, hst⟩
    refine ⟨{ st.1 with tree := ⟨hasher.id, rs.commit hasher.hash rs.empty st.2⟩ }, ?_⟩
    rw [new_eq, Fault.bind_ok_iff]
    refine ⟨st, hst, ?_⟩
    rw [(loop_committed hst).2, MerkleTree.insert_new]
    rfl

theorem root_ok {ε : Type} {tree : EncodingTree rs} {leaves : List Hash} {root : TypedHash}
    (htree : tree.tree = ⟨hasher.id, rs.commit hasher.hash rs.empty leaves⟩)
    (h : (tree.root : Except (Fault ε) _) = .ok root) :
    ∃ r, root = ⟨hasher.id, r⟩ ∧ rs.root (rs.commit hasher.hash rs.empty leaves) = some r := by
  simp only [EncodingTree.root, htree, MerkleTree.root] at h
  split at h
  · rename_i r hr
    cases h
    exact ⟨r, rfl, hr⟩
  · cases h

/-! ## What a proof opens -/

/-- The entry opens the leaf of its index, with the transcript's data and the
leaf's own blinder. -/
structure Opens (tree : EncodingTree rs) (transcript : Transcript) (entry : Nat × Opening) :
    Prop where
  leaf : (entry.1, (entry.2.direction, entry.2.seq.idx)) ∈ tree.idxs.entries
  data : transcript.get entry.2.direction entry.2.seq.idx = some entry.2.seq
  blinder : tree.nonces[entry.1]? = some entry.2.blinder

theorem openIdx_cases {tree : EncodingTree rs} {transcript : Transcript}
    {openings openings' : AssocMap Nat Opening} {dirIdx : Direction × Idx}
    (h : tree.openIdx transcript openings dirIdx = .ok openings') :
    ∃ entry, tree.Opens transcript entry ∧ (entry.2.direction, entry.2.seq.idx) = dirIdx ∧
      openings' = openings.insert entry.1 entry.2 := by
  unfold openIdx at h
  split at h
  · cases h
  · rename_i leafIdx hleaf
    split at h
    · cases h
    · rename_i seq hget
      split at h
      · cases h
      · rename_i nonce hnonce
        cases h
        obtain ⟨hidx, -, -⟩ := Transcript.get_eq_some hget
        have heq : (dirIdx.1, seq.idx) = dirIdx := by rw [hidx]
        refine ⟨(leafIdx, ⟨dirIdx.1, seq, nonce⟩), ⟨?_, ?_, hnonce⟩, heq, rfl⟩
        · dsimp only
          rw [heq]
          exact BiMap.mem_of_getByRight hleaf
        · dsimp only
          rw [hidx]
          exact hget

/-- A proof opens the requested indices, each once, and nothing else. -/
theorem proof_ok {tree : EncodingTree rs} {transcript : Transcript}
    {dirIdxs : List (Direction × Idx)} {p : EncodingProof rs}
    (h : tree.proof transcript dirIdxs = .ok p) :
    (∀ e ∈ p.openings.entries, tree.Opens transcript e ∧
      (e.2.direction, e.2.seq.idx) ∈ dirIdxs) ∧
    (∀ di ∈ dirIdxs, ∃ e ∈ p.openings.entries, (e.2.direction, e.2.seq.idx) = di) ∧
    ∃ indices, indices.Perm p.openings.keys ∧
      (tree.tree.proof indices : Except (Fault EncodingTreeError) _) = .ok p.inclusionProof := by
  unfold proof at h
  obtain ⟨openings, hloop, h⟩ := Fault.bind_ok_iff.mp h
  obtain ⟨inclusionProof, hincl, h⟩ := Fault.bind_ok_iff.mp h
  cases h
  have hinv := Fault.foldlM_invariant (P := fun pre (openings : AssocMap Nat Opening) =>
    (∀ e ∈ openings.entries, tree.Opens transcript e ∧ (e.2.direction, e.2.seq.idx) ∈ pre) ∧
    ∀ di ∈ pre, ∃ e ∈ openings.entries, (e.2.direction, e.2.seq.idx) = di)
    (by simp [AssocMap.empty])
    (by
      rintro pre dirIdx post openings openings' - ⟨hopens, hall⟩ hstep
      obtain ⟨entry, hentry, rfl, rfl⟩ := openIdx_cases hstep
      constructor
      · rintro ⟨k, o⟩ he
        rcases AssocMap.mem_insert.mp he with ⟨rfl, rfl⟩ | ⟨-, he⟩
        · exact ⟨hentry, by simp⟩
        · exact ⟨(hopens _ he).1, List.mem_append_left _ (hopens _ he).2⟩
      · intro di hdi
        rcases List.mem_append.mp hdi with hdi | hdi
        · obtain ⟨e, he, heq⟩ := hall di hdi
          by_cases hkey : e.1 = entry.1
          · -- one leaf index has one transcript index
            have hsame := List.inj_on_of_nodup_map tree.idxs.nodupLeft (hopens e he).1.leaf
              hentry.leaf hkey
            refine ⟨entry, AssocMap.mem_insert.mpr (.inl ⟨rfl, rfl⟩), ?_⟩
            rw [← heq]
            exact (congrArg Prod.snd hsame).symm
          · exact ⟨e, AssocMap.mem_insert.mpr (.inr ⟨hkey, he⟩), heq⟩
        · rw [List.mem_singleton.mp hdi]
          exact ⟨entry, AssocMap.mem_insert.mpr (.inl ⟨rfl, rfl⟩), rfl⟩) hloop
  exact ⟨hinv.1, hinv.2, _, List.perm_insertionSort _ _, hincl⟩

/-- The leaf strings of a committed tree, by leaf index. -/
theorem Committed.getElem?_leafStrings {tree : EncodingTree rs} {leaves : List Hash}
    (hc : Committed hasher provider l tree leaves) {k : Nat} {d : Direction} {idx : Idx}
    {blinder : Blinder} (hk : (k, (d, idx)) ∈ tree.idxs.entries)
    (hb : tree.nonces[k]? = some blinder) :
    (tree.leafStrings provider)[k]? =
      some (Blinded.bytes ⟨⟨(provider d idx).getD []⟩, blinder⟩) := by
  obtain ⟨i, hi, hget⟩ := List.mem_iff_getElem.mp hk
  have hleft : (tree.idxs.entries.map Prod.fst)[i]? = some k := by
    rw [List.getElem?_map, List.getElem?_eq_getElem hi, hget]
    rfl
  rw [hc.lefts, List.getElem?_range (n := tree.idxs.len) hi, Option.some.injEq] at hleft
  subst hleft
  have hright : tree.transcriptIndices[i]? = some (d, idx) := by
    rw [transcriptIndices, BiMap.rightValues, List.getElem?_map, List.getElem?_eq_getElem hi, hget]
    rfl
  rw [leafStrings, List.getElem?_zipWith, hright, hb]

end EncodingTree

end Tlsn.Core

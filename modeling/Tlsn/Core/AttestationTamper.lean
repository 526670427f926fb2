import Tlsn.Core.AttestationComplete

/-!
What an attestation proof shows. Whatever body, leaf count and siblings the prover
claims, the fields of an accepted body are, in the order of their ids, some of the
fields which the notary signed. Nothing compares their number with that of the
leaves, so the optional fields can be left out.
-/

namespace Tlsn.Core

/-! ## Leaves of a tree by their indices -/

/-- The elements at increasing indices, in this order. -/
theorem sublist_of_forall₂ {δ : Type} {l hashes : List δ} {indices : List Nat}
    (hsorted : indices.Pairwise (· < ·))
    (h : List.Forall₂ (fun i d => l[i]? = some d) indices hashes) :
    hashes.Sublist l ∧ (l.length ≤ hashes.length → indices = List.range l.length) := by
  have hmap : indices.map (fun i => l[i]?) = hashes.map some := by
    clear hsorted
    induction h with
    | nil => rfl
    | cons hd _ ih => rw [List.map_cons, List.map_cons, hd, ih]
  have hsub : indices ⊆ List.range l.length := by
    intro i hi
    have hget : l[i]? ∈ hashes.map some := hmap ▸ List.mem_map_of_mem hi
    obtain ⟨d, -, hd⟩ := List.mem_map.mp hget
    exact List.mem_range.mpr (List.getElem?_eq_some_iff.mp hd.symm).1
  have hindices : indices.Sublist (List.range l.length) :=
    have : Std.Antisymm (α := Nat) (· < ·) := ⟨fun a b hab hba => absurd hba (Nat.lt_asymm hab)⟩
    List.sublist_of_subperm_of_pairwise
      (List.subperm_of_subset (hsorted.imp Nat.ne_of_lt) hsub) hsorted List.pairwise_lt_range
  refine ⟨?_, fun hle => ?_⟩
  · have hrange : (List.range l.length).map (fun i => l[i]?) = l.map some := by
      apply List.ext_getElem?
      intro i
      rw [List.getElem?_map, List.getElem?_map]
      by_cases hi : i < l.length
      · rw [List.getElem?_range hi, Option.map_some, List.getElem?_eq_getElem hi, Option.map_some]
      · rw [List.getElem?_eq_none (by simpa using hi), List.getElem?_eq_none (by omega)]
        rfl
    have hsome := hindices.map fun i => l[i]?
    rw [hmap, hrange] at hsome
    simpa [List.filterMap_map] using hsome.filterMap id
  · apply hindices.eq_of_length_le
    rw [List.length_range, h.length_eq]
    exact hle

theorem map_eq_of_map_eq {α β γ : Type} {f : α → β} {g : α → γ} {l m : List α}
    (hfg : ∀ a ∈ l, ∀ b ∈ m, f a = f b → g a = g b) (h : l.map f = m.map f) :
    l.map g = m.map g := by
  induction l generalizing m with
  | nil =>
      rw [List.map_eq_nil_iff.mp h.symm]
  | cons a l ih =>
      cases m with
      | nil => cases h
      | cons b m =>
          obtain ⟨hhead, htail⟩ := List.cons.inj h
          have hrest := ih (fun x hx y hy => hfg x (List.mem_cons_of_mem _ hx) y
            (List.mem_cons_of_mem _ hy)) htail
          rw [List.map_cons, List.map_cons, hrest,
            hfg a List.mem_cons_self b List.mem_cons_self hhead]

theorem eq_of_ids_eq {l m : List (FieldId × FieldData)}
    (hids : l.map (fun e => e.1.id.toNat) = m.map fun e => e.1.id.toNat)
    (hdata : l.map Prod.snd = m.map Prod.snd) : l = m := by
  induction l generalizing m with
  | nil => exact (List.map_eq_nil_iff.mp hdata.symm).symm
  | cons a l ih =>
      cases m with
      | nil => cases hdata
      | cons b m =>
          obtain ⟨hid, hids'⟩ := List.cons.inj hids
          obtain ⟨hsnd, hdata'⟩ := List.cons.inj hdata
          obtain ⟨⟨i⟩, x⟩ := a
          obtain ⟨⟨j⟩, y⟩ := b
          obtain rfl : i = j := UInt32.toNat_inj.mp hid
          obtain rfl : x = y := hsnd
          rw [ih hids' hdata']

/-! ## What is hashed -/

/-- A hash that is injective on the strings at hand, none of which is hashed both as a field
and as a node. -/
theorem separated_of_injOn {hasher : HashAlgorithm} {L N : Set (List UInt8)}
    (hinj : Set.InjOn hasher.hash (L ∪ N)) (hdisjoint : Disjoint L N) :
    HashTree.Separated hasher.hash hashPair L N where
  injOn := hinj
  disjoint := hdisjoint
  split_left x y z s h := by
    have hb := binding_of_injOn hasher ∅ (Set.injOn_empty _)
    have hx := hb.pair_left x y z s h
    rw [hx] at h
    have hbytes := List.append_cancel_left h
    refine ⟨hx, ?_⟩
    cases s
    cases hz : hasher.hash z
    simp_all
  split_right x y z s h := by
    have hb := binding_of_injOn hasher ∅ (Set.injOn_empty _)
    have hx := hb.pair_right x y z s h
    rw [hx] at h
    have hbytes := List.append_cancel_right h
    refine ⟨?_, hx⟩
    cases s
    cases hy : hasher.hash y
    simp_all

namespace Attestation.Body

/-- The strings hashed to the leaves. -/
def strings (blake3 : Blake3) (body : Body) : List (List UInt8) :=
  body.fields.filterMap fun field => field.data.string blake3

variable {blake3 : Blake3} {hasher : HashAlgorithm} {body part : Body} {L N : Set (List UInt8)}

theorem exists_string (hser : body.Serializable blake3) {entry : FieldId × FieldData}
    (hentry : entry ∈ body.sorted) :
    ∃ x ∈ body.strings blake3, entry.2.string blake3 = some x := by
  obtain ⟨field, hfield, rfl⟩ := List.mem_map.mp (body.sorted_perm.subset hentry)
  obtain ⟨x, hx⟩ := Option.isSome_iff_exists.mp (hser field hfield)
  exact ⟨x, List.mem_filterMap.mpr ⟨field, hfield, hx⟩, hx⟩

theorem exists_hash_of_mem_digests (hser : body.Serializable blake3)
    (hL : ∀ x ∈ body.strings blake3, x ∈ L) :
    ∀ d ∈ body.digests blake3 hasher, ∃ x ∈ L, d = hasher.hash x := by
  intro d hd
  simp only [digests, leaves, List.map_map, List.mem_map] at hd
  obtain ⟨entry, hentry, rfl⟩ := hd
  obtain ⟨x, hx, hstring⟩ := exists_string hser hentry
  exact ⟨x, hL x hx, FieldData.digest_of_string hstring⟩

/-- Fields with the same digests have the same content. -/
theorem data_of_digest (hdomains : FieldData.DomainsDiffer blake3)
    (hinj : Set.InjOn hasher.hash L) (hser : body.Serializable blake3)
    (hpart : part.Serializable blake3) (hL : ∀ x ∈ body.strings blake3, x ∈ L)
    (hpartL : ∀ x ∈ part.strings blake3, x ∈ L) {e e' : FieldId × FieldData}
    (he : e ∈ body.sorted) (he' : e' ∈ part.sorted)
    (h : e.2.digest blake3 hasher = e'.2.digest blake3 hasher) : e.2 = e'.2 := by
  obtain ⟨x, hx, hstring⟩ := exists_string hser he
  obtain ⟨y, hy, hstring'⟩ := exists_string hpart he'
  rw [FieldData.digest_of_string hstring, FieldData.digest_of_string hstring'] at h
  obtain rfl := hinj (hL x hx) (hpartL y hy) h
  exact FieldData.string_inj hdomains hstring hstring'

theorem sortLeaves_leaves : sortLeaves (body.leaves blake3 hasher) = body.leaves blake3 hasher := by
  apply List.Pairwise.insertionSort_eq
  rw [leaves, List.pairwise_map]
  exact List.pairwise_map.mp (sortFields_sorted _)

/-- None of the optional fields is there. -/
structure Mandatory (body : Body) : Prop where
  encodingCommitment : body.encodingCommitment = none
  plaintextHashes : body.plaintextHashes = []
  extensions : body.extensions = []

instance (body : Body) : Decidable body.Mandatory :=
  decidable_of_iff (body.encodingCommitment.isNone = true ∧ body.plaintextHashes.isEmpty = true ∧
    body.extensions.isEmpty = true) <| by
      rw [Option.isNone_iff_eq_none, List.isEmpty_iff, List.isEmpty_iff]
      exact ⟨fun h => ⟨h.1, h.2.1, h.2.2⟩, fun h => ⟨h.1, h.2, h.3⟩⟩

/-- The body without the optional fields. -/
def mandatory (body : Body) : Body :=
  { body with encodingCommitment := none, plaintextHashes := [], extensions := [] }

theorem four_le_length_fields (body : Body) : 4 ≤ body.fields.length := by
  simp [fields]

theorem mandatory_iff : body.Mandatory ↔ body.fields.length = 4 := by
  constructor
  · rintro ⟨h₁, h₂, h₃⟩
    simp [fields, h₁, h₂, h₃]
  · intro h
    simp only [fields, List.length_append, List.length_map, List.length_cons, List.length_nil] at h
    exact ⟨Option.toList_eq_nil_iff.mp (List.length_eq_zero_iff.mp (by omega)),
      List.length_eq_zero_iff.mp (by omega), List.length_eq_zero_iff.mp (by omega)⟩

theorem fields_mandatory (body : Body) :
    body.mandatory.fields = [body.verifyingKey.map .verifyingKey,
      body.connectionInfo.map .connectionInfo, body.serverEphemeralKey.map .serverEphemKey,
      body.certCommitment.map .serverCertCommitment] := rfl

theorem mandatory_mandatory (body : Body) : body.mandatory.Mandatory := ⟨rfl, rfl, rfl⟩

theorem mandatory_eq (h : body.Mandatory) : body.mandatory = body := by
  rw [mandatory, ← h.encodingCommitment, ← h.plaintextHashes, ← h.extensions]

theorem fields_mandatory_prefix (body : Body) : body.mandatory.fields.Sublist body.fields := by
  rw [fields_mandatory, fields, List.append_assoc, List.append_assoc]
  exact List.sublist_append_left _ _

/-- Bodies without optional fields are told apart by their sorted fields. -/
theorem eq_of_sorted_eq (h : body.Mandatory) (hsorted : part.sorted = body.sorted) :
    part = body := by
  have hpart : part.Mandatory := by
    rw [mandatory_iff, ← length_sorted, hsorted, length_sorted]
    exact mandatory_iff.mp h
  have hperm := part.sorted_perm.symm.trans (hsorted ▸ body.sorted_perm)
  rw [← mandatory_eq h, ← mandatory_eq hpart] at hperm ⊢
  have hmem := fun e he => hperm.subset (a := e) he
  rw [fields_mandatory, fields_mandatory] at hmem
  have hkey := hmem (part.verifyingKey.id, .verifyingKey part.verifyingKey.data)
    (by simp [Field.map])
  have hinfo := hmem (part.connectionInfo.id, .connectionInfo part.connectionInfo.data)
    (by simp [Field.map])
  have hephemeral := hmem (part.serverEphemeralKey.id, .serverEphemKey part.serverEphemeralKey.data)
    (by simp [Field.map])
  have hcert := hmem (part.certCommitment.id, .serverCertCommitment part.certCommitment.data)
    (by simp [Field.map])
  have hfield : ∀ {α : Type} {a b : Field α}, a.id = b.id ∧ a.data = b.data → a = b := by
    rintro α ⟨_, _⟩ ⟨_, _⟩ ⟨rfl, rfl⟩
    rfl
  simp only [List.map_cons, List.map_nil, Field.map, List.mem_cons, List.not_mem_nil, Prod.mk.injEq,
    reduceCtorEq, and_false, or_false, false_or, FieldData.verifyingKey.injEq,
    FieldData.connectionInfo.injEq, FieldData.serverEphemKey.injEq,
    FieldData.serverCertCommitment.injEq] at hkey hinfo hephemeral hcert
  rw [mandatory, mandatory, hfield hkey, hfield hinfo, hfield hephemeral, hfield hcert]

/-- Leaving out fields of a numbered body leaves out entries. -/
theorem Numbered.sorted_sublist (h : body.Numbered) (hfields : part.fields.Sublist body.fields) :
    part.sorted.Sublist body.sorted := by
  have hincreasing : body.sorted.Pairwise fun a b => a.1.id.toNat < b.1.id.toNat := by
    have hrange : (body.sorted.map fun e => e.1.id.toNat).Pairwise (· < ·) := by
      rw [h]
      exact List.pairwise_lt_range
    exact List.pairwise_map.mp hrange
  have hsub : part.sorted.Subperm body.sorted :=
    part.sorted_perm.subperm.trans ((hfields.map _).subperm.trans body.sorted_perm.symm.subperm)
  have hnodup : (part.sorted.map fun e => e.1.id.toNat).Nodup := by
    obtain ⟨l, hl, hlsub⟩ := hsub
    refine ((hl.map _).nodup_iff).mp ?_
    exact (List.pairwise_map.mpr ((hincreasing.sublist hlsub).imp Nat.ne_of_lt))
  have hpart : part.sorted.Pairwise fun a b => a.1.id.toNat < b.1.id.toNat := by
    have hstrict : (part.sorted.map fun e => e.1.id.toNat).Pairwise (· < ·) :=
      (sortFields_sorted _).imp₂ (fun _ _ hle hne => Nat.lt_of_le_of_ne hle hne) hnodup
    exact List.pairwise_map.mp hstrict
  have : Std.Antisymm (α := FieldId × FieldData) (fun a b => a.1.id.toNat < b.1.id.toNat) :=
    ⟨fun a b hab hba => absurd hba (Nat.lt_asymm hab)⟩
  exact List.sublist_of_subperm_of_pairwise hsub hpart hincreasing

theorem mem_strings_of_sublist (hfields : part.fields.Sublist body.fields) {x : List UInt8}
    (hx : x ∈ part.strings blake3) : x ∈ body.strings blake3 :=
  (hfields.filterMap _).subset hx

end Attestation.Body

/-! ## What an accepted proof shows -/

namespace AttestationProof

open Attestation (Body)

variable {rs : RsMerkle} {blake3 : Blake3} {provider : SigningProvider} {hasher : HashAlgorithm}
  {attestation accepted : Attestation} {proof : AttestationProof rs} {L N : Set (List UInt8)}

/-- The strings which checking the proof hashes are among those at hand. -/
structure Hashes (blake3 : Blake3) (hasher : HashAlgorithm) (L N : Set (List UInt8))
    (proof : AttestationProof rs) : Prop where
  fields : ∀ x ∈ proof.body.body.strings blake3, x ∈ L
  nodes : ∀ x ∈ rs.verifyPreimages hasher.hash proof.body.proof.proof
    ((proof.body.body.leaves blake3 hasher).map Prod.fst)
    ((proof.body.body.leaves blake3 hasher).map Prod.snd) proof.body.proof.leafCount, x ∈ N

theorem verify_ok (h : proof.verify blake3 provider = .ok accepted) :
    accepted.body = proof.body.body ∧
      ∃ hasher, provider.hash.get proof.header.root.alg = .ok hasher ∧
      proof.body.body.Serializable blake3 ∧
      ((proof.body.body.leaves blake3 hasher).map Prod.fst).Pairwise (· < ·) ∧
      rs.verify hasher.hash proof.body.proof.proof proof.header.root.value
        ((proof.body.body.leaves blake3 hasher).map Prod.fst)
        ((proof.body.body.leaves blake3 hasher).map Prod.snd)
          proof.body.proof.leafCount = true := by
  unfold verify at h
  obtain ⟨verifier, -, h⟩ := Fault.bind_ok_iff.mp h
  obtain ⟨body, hbody, h⟩ := Fault.bind_ok_iff.mp h
  obtain ⟨bytes, -, h⟩ := Fault.bind_ok_iff.mp h
  obtain ⟨⟨⟩, -, h⟩ := Fault.bind_ok_iff.mp h
  cases h
  unfold BodyProof.verifyWithProvider at hbody
  obtain ⟨hasher, hhasher, hbody⟩ := Fault.bind_ok_iff.mp hbody
  obtain ⟨entries, hentries, hbody⟩ := Fault.bind_ok_iff.mp hbody
  obtain ⟨⟨⟩, hverify, hbody⟩ := Fault.bind_ok_iff.mp hbody
  cases hbody
  obtain ⟨hser, rfl⟩ := Body.hashFields_ok_iff.mp hentries
  refine ⟨rfl, hasher, Fault.mapError_ok_iff.mp hhasher, hser, ?_⟩
  rw [Body.map_leafOf, Fault.convert_ok_iff] at hverify
  unfold MerkleProof.verify at hverify
  rw [Body.sortLeaves_leaves] at hverify
  dsimp only at hverify
  split at hverify
  · cases hverify
  · rename_i hnodup
    split at hverify
    · cases hverify
    · rename_i hv
      refine ⟨?_, by simpa using hv⟩
      have hsorted := sortLeaves_indices (proof.body.body.leaves blake3 hasher)
        (Classical.not_not.mp hnodup)
      rwa [Body.sortLeaves_leaves] at hsorted

/-- The fields of an accepted body are, in their order, fields which were signed. If they are
as many, the ids agree as well. -/
theorem sorted_sublist (hrs : rs.Sound) (hdomains : FieldData.DomainsDiffer blake3)
    (hinj : Set.InjOn hasher.hash (L ∪ N)) (hdisjoint : Disjoint L N)
    (hissued : attestation.Issued rs blake3 provider hasher)
    (hL : ∀ x ∈ attestation.body.strings blake3, x ∈ L)
    (hN : ∀ x ∈ rs.commitPreimages hasher.hash (attestation.body.digests blake3 hasher), x ∈ N)
    (hheader : proof.header = attestation.header) (hhashes : proof.Hashes blake3 hasher L N)
    (h : proof.verify blake3 provider = .ok accepted) :
    (accepted.body.sorted.map Prod.snd).Sublist (attestation.body.sorted.map Prod.snd) ∧
      (attestation.body.fields.length ≤ accepted.body.fields.length →
        accepted.body.sorted = attestation.body.sorted) := by
  obtain ⟨hbody, hasher', hget, hser, hincreasing, hverify⟩ := verify_ok h
  rw [hheader] at hget hverify
  obtain rfl : hasher = hasher' := Except.ok.inj (hissued.get_hasher.symm.trans hget)
  rw [hbody]
  obtain ⟨part, hpart⟩ : ∃ part, part = proof.body.body := ⟨_, rfl⟩
  have hpartL := hhashes.fields
  have hnodes := hhashes.nodes
  rw [← hpart] at hser hincreasing hverify hpartL hnodes ⊢
  have hinjL : Set.InjOn hasher.hash L := hinj.mono Set.subset_union_left
  -- the tree that the proof claims, and the tree that was signed
  obtain ⟨t', -, hvalue', hall, hpre'⟩ := hrs.verify_tree _ _ _ _ _ _ hverify
  have hne : attestation.body.digests blake3 hasher ≠ [] := by
    rw [← List.length_pos_iff, Body.length_digests, ← Body.length_sorted]
    exact List.length_pos_of_ne_nil attestation.body.sorted_ne_nil
  obtain ⟨t, hleaves, hroot, hpre⟩ := rs.root_commit hasher.hash _ hne
  have hvalue : t'.value hasher.hash hashPair = t.value hasher.hash hashPair := by
    rw [hvalue', ← Option.some.injEq, ← hroot, hissued.rs_root]
  classical
  obtain ⟨hsub, hsame⟩ := (separated_of_injOn hinj hdisjoint).leaves_sublist
    (p := fun d => decide (∃ y ∈ L, d = hasher.hash y)) (t := t) (fun d hd => of_decide_eq_true hd)
    (by
      rw [hleaves]
      exact Body.exists_hash_of_mem_digests hissued.serializable hL)
    (fun x hx => hN x (hpre x hx)) (fun x hx => hnodes x (hpre' x hx)) hvalue
  obtain ⟨hshown, hindices⟩ := sublist_of_forall₂ hincreasing hall
  -- the presented digests are among the hashed leaves of the claimed tree
  have hfiltered := hshown.filter fun d => decide (∃ y ∈ L, d = hasher.hash y)
  have hfields : ((part.leaves blake3 hasher).map Prod.snd).filter
      (fun d => decide (∃ y ∈ L, d = hasher.hash y)) = part.digests blake3 hasher :=
    List.filter_eq_self.mpr fun d hd =>
      decide_eq_true (Body.exists_hash_of_mem_digests hser hpartL d hd)
  rw [hfields] at hfiltered
  have hpresented := hfiltered.trans hsub
  rw [hleaves] at hpresented
  have hdata : (part.sorted.map Prod.snd).Sublist (attestation.body.sorted.map Prod.snd) := by
    simp only [Body.digests, Body.leaves, List.map_map] at hpresented
    obtain ⟨l, hl, heq⟩ := List.sublist_map_iff.mp hpresented
    have hsnd : part.sorted.map Prod.snd = l.map Prod.snd := by
      refine map_eq_of_map_eq (fun e he e' he' h => ?_) heq
      exact (Body.data_of_digest hdomains hinjL hissued.serializable hser hL hpartL
        (hl.subset he') he h.symm).symm
    rw [hsnd]
    exact hl.map _
  refine ⟨hdata, fun hle => ?_⟩
  obtain rfl : t' = t := by
    apply hsame
    have hpart := hfiltered.length_le
    rw [Body.length_digests] at hpart
    rw [hleaves, Body.length_digests]
    exact Nat.le_trans hle hpart
  have hlen : t'.leaves.length ≤ ((part.leaves blake3 hasher).map Prod.snd).length := by
    rw [hleaves, Body.length_digests]
    simpa [Body.leaves] using hle
  have hids := hindices hlen
  rw [hleaves, Body.length_digests, ← hissued.numbered] at hids
  simp only [Body.leaves, List.map_map] at hids
  refine eq_of_ids_eq hids (hdata.eq_of_length_le ?_)
  simpa using hle

/-- A part of the body, with the siblings that the tree of the whole body has for it. -/
def ofPart (rs : RsMerkle) (blake3 : Blake3) (hasher : HashAlgorithm) (attestation : Attestation)
    (part : Attestation.Body) : AttestationProof rs :=
  ⟨attestation.signature, attestation.header, ⟨part, ⟨hasher.id, attestation.body.fields.length,
    rs.proof (rs.commit hasher.hash rs.empty (attestation.body.digests blake3 hasher))
      ((part.leaves blake3 hasher).map Prod.fst)⟩⟩⟩

theorem verify_ofPart {part : Attestation.Body}
    (hissued : attestation.Issued rs blake3 provider hasher)
    (hfields : part.fields.Sublist attestation.body.fields)
    (hkey : part.verifyingKey.data = attestation.body.verifyingKey.data) :
    (ofPart rs blake3 hasher attestation part).verify blake3 provider =
      .ok ⟨attestation.signature, attestation.header, part⟩ := by
  obtain ⟨p, -, rfl, hverify⟩ := hissued.numbered.verify_part (ε := Empty) hissued.rs_root
    (hissued.numbered.sorted_sublist hfields)
  rw [← hissued.root_eq] at hverify
  exact hissued.verify_of_leaves
    (fun field hfield => hissued.serializable field (hfields.subset hfield)) hkey hverify

/-- Checking the proof of a part hashes nothing but what issuing the whole has hashed. -/
theorem hashes_ofPart {part : Attestation.Body} (hrs : rs.Sound)
    (hissued : attestation.Issued rs blake3 provider hasher)
    (hfields : part.fields.Sublist attestation.body.fields)
    (hL : ∀ x ∈ attestation.body.strings blake3, x ∈ L)
    (hN : ∀ x ∈ rs.commitPreimages hasher.hash (attestation.body.digests blake3 hasher), x ∈ N) :
    (ofPart rs blake3 hasher attestation part).Hashes blake3 hasher L N := by
  have hsub := hissued.numbered.sorted_sublist hfields
  have hleaves : List.Forall₂ (fun i d => (attestation.body.digests blake3 hasher)[i]? = some d)
      ((part.leaves blake3 hasher).map Prod.fst) ((part.leaves blake3 hasher).map Prod.snd) := by
    rw [List.forall₂_map_left_iff, List.forall₂_map_right_iff, List.forall₂_same]
    intro leaf hleaf
    obtain ⟨entry, hentry, rfl⟩ := List.mem_map.mp hleaf
    exact hissued.numbered.getElem?_digests (hsub.subset hentry)
  constructor
  · exact fun x hx => hL x (Body.mem_strings_of_sublist hfields hx)
  · intro x hx
    refine hN x (hrs.proof_preimages _ _ _ _ hleaves x ?_)
    rw [Body.length_digests]
    exact hx

end AttestationProof

/-! ## The small instance -/

theorem nameHash_domains : FieldData.DomainsDiffer nameHash := by
  intro a b h
  cases a <;> cases b <;>
    first
    | rfl
    | (simp only [FieldData.name] at h
       exact absurd h (by decide +kernel))

/-! An attestation with an extension, and one with the fields that every one has. -/

theorem plainAttestation_ok : (AttestationBuilder.build RsMerkle.reference
    (notaryCalls.foldl AttestationBuilder.call (signOf [])) nameHash notaryProvider
    sampleUid).toOption.isSome = true := by
  decide +kernel

def plainAttestation : Attestation := Option.get _ plainAttestation_ok

theorem issued_of_build {extensions : List Extension} {attestation : Attestation}
    (hextensions : extensions = [sampleExtension] ∨ extensions = [])
    (h : AttestationBuilder.build RsMerkle.reference
      (notaryCalls.foldl AttestationBuilder.call (signOf extensions)) nameHash notaryProvider
      sampleUid = .ok attestation) :
    attestation.Issued RsMerkle.reference nameHash notaryProvider polyHash := by
  obtain ⟨hasher, signer, hbuilt⟩ := AttestationBuilder.build_ok h
  obtain rfl : polyHash = hasher := Except.ok.inj (sampleProvider_get.symm.trans hbuilt.get_hasher)
  refine hbuilt.issued notaryProvider_correct ?_
  rw [hbuilt.length_fields]
  cases hextensions with
  | inl hextensions | inr hextensions =>
      subst hextensions
      decide

theorem sampleAttestation_issued :
    sampleAttestation.Issued RsMerkle.reference nameHash notaryProvider polyHash :=
  issued_of_build (.inl rfl) (Fault.ok_get sampleAttestation_ok)

theorem plainAttestation_issued :
    plainAttestation.Issued RsMerkle.reference nameHash notaryProvider polyHash :=
  issued_of_build (.inr rfl) (Fault.ok_get plainAttestation_ok)

/-- What issuing an attestation hashes to leaves, and to nodes. -/
def issuedStrings (attestation : Attestation) : List (List UInt8) :=
  attestation.body.strings nameHash

def issuedNodes (attestation : Attestation) : List (List UInt8) :=
  RsMerkle.reference.commitPreimages polyHash.hash (attestation.body.digests nameHash polyHash)

theorem injOn_issued {attestation : Attestation}
    (h : ∀ x ∈ issuedStrings attestation ++ issuedNodes attestation,
      ∀ y ∈ issuedStrings attestation ++ issuedNodes attestation,
        polyHash.hash x = polyHash.hash y → x = y) :
    Set.InjOn polyHash.hash
      ({x | x ∈ issuedStrings attestation} ∪ {x | x ∈ issuedNodes attestation}) := by
  intro x hx y hy
  exact h x (List.mem_append.mpr hx) y (List.mem_append.mpr hy)

theorem sampleStrings_injOn : Set.InjOn polyHash.hash
    ({x | x ∈ issuedStrings sampleAttestation} ∪ {x | x ∈ issuedNodes sampleAttestation}) :=
  injOn_issued (by decide +kernel)

theorem sampleStrings_disjoint : Disjoint {x | x ∈ issuedStrings sampleAttestation}
    {x | x ∈ issuedNodes sampleAttestation} := by
  have : ∀ x ∈ issuedStrings sampleAttestation, x ∉ issuedNodes sampleAttestation := by
    decide +kernel
  exact Set.disjoint_left.mpr this

theorem plainStrings_injOn : Set.InjOn polyHash.hash
    ({x | x ∈ issuedStrings plainAttestation} ∪ {x | x ∈ issuedNodes plainAttestation}) :=
  injOn_issued (by decide +kernel)

theorem plainStrings_disjoint : Disjoint {x | x ∈ issuedStrings plainAttestation}
    {x | x ∈ issuedNodes plainAttestation} := by
  have : ∀ x ∈ issuedStrings plainAttestation, x ∉ issuedNodes plainAttestation := by
    decide +kernel
  exact Set.disjoint_left.mpr this

end Tlsn.Core

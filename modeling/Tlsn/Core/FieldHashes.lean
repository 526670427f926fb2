import Tlsn.Core.AttestationBuilder

/-!
The hashes of a body's fields. A field which can be serialized has one string, from
which its type and its content are recovered; the digests are sorted by id. A body
whose ids are the positions of its fields after sorting makes a proof of any of
them, which verifies.
-/

namespace Tlsn.Core

open CanonicalSerialize (codec)

/-! ## The string of a field -/

/-- The data behind the separator of its type, where the serializer accepts it. -/
def separated {α : Type} [DomainSeparator α] [CanonicalSerialize α] (blake3 : Blake3) (data : α) :
    Option (List UInt8) :=
  (codec.encode data).map (domainOf blake3 (DomainSeparator.name α) ++ ·)

theorem HashAlgorithm.hashSeparated_ok_iff {ε α : Type} [DomainSeparator α] [CanonicalSerialize α]
    {alg : HashAlgorithm} {blake3 : Blake3} {data : α} {hash : Hash} :
    (alg.hashSeparated blake3 data : Except (Fault ε) _) = .ok hash ↔
      ∃ x, separated blake3 data = some x ∧ hash = alg.hash x := by
  unfold hashSeparated serialize separated
  cases codec.encode data with
  | none => simp [Functor.map, Except.map]
  | some bytes => simp [Functor.map, Except.map, eq_comm]

theorem separated_inj {α : Type} [DomainSeparator α] [CanonicalSerialize α] {blake3 : Blake3}
    {a b : α} {x : List UInt8} (ha : separated blake3 a = some x)
    (hb : separated blake3 b = some x) :
    a = b := by
  obtain ⟨y, hy, rfl⟩ := Option.map_eq_some_iff.mp ha
  obtain ⟨z, hz, heq⟩ := Option.map_eq_some_iff.mp hb
  obtain rfl := List.append_cancel_left heq
  exact codec.injective hy hz

theorem domainOf_eq_of_separated {α β : Type} [DomainSeparator α] [CanonicalSerialize α]
    [DomainSeparator β] [CanonicalSerialize β] {blake3 : Blake3} {a : α} {b : β} {x : List UInt8}
    (ha : separated blake3 a = some x) (hb : separated blake3 b = some x) :
    domainOf blake3 (DomainSeparator.name α) = domainOf blake3 (DomainSeparator.name β) := by
  obtain ⟨y, -, rfl⟩ := Option.map_eq_some_iff.mp ha
  obtain ⟨z, -, heq⟩ := Option.map_eq_some_iff.mp hb
  exact ((List.append_inj heq (by simp)).1).symm

namespace FieldData

def string (blake3 : Blake3) : FieldData → Option (List UInt8)
  | .verifyingKey data => separated blake3 data
  | .connectionInfo data => separated blake3 data
  | .serverEphemKey data => separated blake3 data
  | .serverCertCommitment data => separated blake3 data
  | .encodingCommitment data => separated blake3 data
  | .plaintextHash data => separated blake3 data
  | .extension data => separated blake3 data

/-- The name of the type. -/
def name : FieldData → String
  | .verifyingKey _ => "VerifyingKey"
  | .connectionInfo _ => "ConnectionInfo"
  | .serverEphemKey _ => "ServerEphemKey"
  | .serverCertCommitment _ => "ServerCertCommitment"
  | .encodingCommitment _ => "EncodingCommitment"
  | .plaintextHash _ => "PlaintextHash"
  | .extension _ => "Extension"

variable {blake3 : Blake3} {hasher : HashAlgorithm}

theorem hashSeparated_ok_iff {ε : Type} {data : FieldData} {hash : Hash} :
    (data.hashSeparated blake3 hasher : Except (Fault ε) _) = .ok hash ↔
      ∃ x, data.string blake3 = some x ∧ hash = hasher.hash x := by
  cases data <;> exact HashAlgorithm.hashSeparated_ok_iff

/-- The separators of the types of fields differ. -/
def DomainsDiffer (blake3 : Blake3) : Prop :=
  ∀ a b : FieldData, domainOf blake3 a.name = domainOf blake3 b.name → a.name = b.name

theorem name_eq_of_string (hdomains : DomainsDiffer blake3) {a b : FieldData} {x : List UInt8}
    (ha : a.string blake3 = some x) (hb : b.string blake3 = some x) : a.name = b.name := by
  apply hdomains
  cases a <;> cases b <;> exact domainOf_eq_of_separated ha hb

theorem string_inj (hdomains : DomainsDiffer blake3) {a b : FieldData} {x : List UInt8}
    (ha : a.string blake3 = some x) (hb : b.string blake3 = some x) : a = b := by
  have hname := name_eq_of_string hdomains ha hb
  cases a <;> cases b <;>
    first
    | exact congrArg _ (separated_inj ha hb)
    | simp [name] at hname

/-- The digest of a field which can be serialized. -/
def digest (blake3 : Blake3) (hasher : HashAlgorithm) (data : FieldData) : Hash :=
  hasher.hash ((data.string blake3).getD [])

theorem digest_of_string {data : FieldData} {x : List UInt8} (h : data.string blake3 = some x) :
    data.digest blake3 hasher = hasher.hash x := by
  rw [digest, h, Option.getD_some]

theorem hashSeparated_eq_digest {ε : Type} {data : FieldData} {hash : Hash} :
    (data.hashSeparated blake3 hasher : Except (Fault ε) _) = .ok hash ↔
      (data.string blake3).isSome = true ∧ hash = data.digest blake3 hasher := by
  rw [hashSeparated_ok_iff, Option.isSome_iff_exists]
  constructor
  · rintro ⟨x, hx, rfl⟩
    exact ⟨⟨x, hx⟩, (digest_of_string hx).symm⟩
  · rintro ⟨⟨x, hx⟩, rfl⟩
    exact ⟨x, hx, digest_of_string hx⟩

end FieldData

/-! ## Sorting -/

theorem sortFields_perm {α : Type} (fields : List (FieldId × α)) :
    (sortFields fields).Perm fields :=
  List.perm_insertionSort _ _

theorem sortFields_sorted {α : Type} (fields : List (FieldId × α)) :
    ((sortFields fields).map fun e => e.1.id.toNat).Pairwise (· ≤ ·) :=
  have : Std.Total (fun a b : FieldId × α => a.1.id.toNat ≤ b.1.id.toNat) :=
    ⟨fun _ _ => Nat.le_total _ _⟩
  have : IsTrans (FieldId × α) (fun a b => a.1.id.toNat ≤ b.1.id.toNat) :=
    ⟨fun _ _ _ => Nat.le_trans⟩
  List.pairwise_map.mpr (List.pairwise_insertionSort _ fields)

theorem sortFields_map {α β : Type} (f : α → β) (fields : List (FieldId × α)) :
    sortFields (fields.map (Prod.map id f)) = (sortFields fields).map (Prod.map id f) :=
  (List.map_insertionSort _ _ (Prod.map id f) fields fun _ _ _ _ => Iff.rfl).symm

/-! ## The fields of a body -/

namespace Attestation.Body

variable {blake3 : Blake3} {hasher : HashAlgorithm}

/-- Every field can be serialized. -/
def Serializable (blake3 : Blake3) (body : Body) : Prop :=
  ∀ field ∈ body.fields, (field.data.string blake3).isSome = true

/-- The fields in the order of their ids. -/
def sorted (body : Body) : List (FieldId × FieldData) :=
  sortFields (body.fields.map fun field => (field.id, field.data))

/-- The leaf of each field: its digest at the position which its id names. -/
def leaves (blake3 : Blake3) (hasher : HashAlgorithm) (body : Body) : List (Nat × Hash) :=
  body.sorted.map fun entry => (entry.1.id.toNat, entry.2.digest blake3 hasher)

def digests (blake3 : Blake3) (hasher : HashAlgorithm) (body : Body) : List Hash :=
  (body.leaves blake3 hasher).map Prod.snd

theorem sorted_perm (body : Body) :
    body.sorted.Perm (body.fields.map fun field => (field.id, field.data)) :=
  sortFields_perm _

@[simp] theorem length_sorted (body : Body) : body.sorted.length = body.fields.length := by
  rw [body.sorted_perm.length_eq, List.length_map]

@[simp] theorem length_digests (body : Body) :
    (body.digests blake3 hasher).length = body.fields.length := by
  simp [digests, leaves]

theorem sorted_ne_nil (body : Body) : body.sorted ≠ [] := by
  rw [← List.length_pos_iff, length_sorted]
  simp [fields]

/-- The loop over the fields, and what it leaves to insert and to prove. -/
theorem hashFields_ok_iff {ε : Type} {body : Body} {entries : List (FieldId × Hash)} :
    (body.hashFields blake3 hasher : Except (Fault ε) _) = .ok entries ↔
      body.Serializable blake3 ∧
        entries = body.sorted.map (Prod.map id (·.digest blake3 hasher)) := by
  have hstep : ∀ (field : Field FieldData) (entry : FieldId × Hash),
      ((do
        let hash ← field.data.hashSeparated blake3 hasher
        return (field.id, hash)) : Except (Fault ε) _) = .ok entry ↔
      (field.data.string blake3).isSome = true ∧
        entry = (field.id, field.data.digest blake3 hasher) := by
    intro field entry
    rw [Fault.bind_ok_iff]
    constructor
    · rintro ⟨hash, hhash, h⟩
      cases h
      obtain ⟨hsome, rfl⟩ := FieldData.hashSeparated_eq_digest.mp hhash
      exact ⟨hsome, rfl⟩
    · rintro ⟨hsome, rfl⟩
      exact ⟨_, FieldData.hashSeparated_eq_digest.mpr ⟨hsome, rfl⟩, rfl⟩
  have hsort : sortFields
      (body.fields.map fun field => (field.id, field.data.digest blake3 hasher)) =
      body.sorted.map (Prod.map id (·.digest blake3 hasher)) := by
    rw [sorted, ← sortFields_map, List.map_map]
    rfl
  unfold hashFields
  rw [Fault.bind_ok_iff]
  constructor
  · rintro ⟨list, hlist, h⟩
    cases h
    obtain ⟨hser, rfl⟩ := (Fault.mapM_ok_iff hstep).mp hlist
    exact ⟨hser, hsort⟩
  · rintro ⟨hser, rfl⟩
    exact ⟨_, (Fault.mapM_ok_iff hstep).mpr ⟨hser, rfl⟩, congrArg _ hsort⟩

theorem map_leafOf (body : Body) :
    (body.sorted.map (Prod.map id (·.digest blake3 hasher))).map leafOf =
      body.leaves blake3 hasher := by
  rw [leaves, List.map_map]
  rfl

theorem map_snd_hashes (body : Body) :
    (body.sorted.map (Prod.map id (·.digest blake3 hasher))).map Prod.snd =
      body.digests blake3 hasher := by
  rw [digests, leaves, List.map_map, List.map_map]
  rfl

/-- The root is that of a tree of the digests in the order of the ids. -/
theorem root_ok_iff {ε : Type} {rs : RsMerkle} {body : Body} {root : TypedHash} :
    (body.root rs blake3 hasher : Except (Fault ε) _) = .ok root ↔
      body.Serializable blake3 ∧ root.alg = hasher.id ∧
        rs.root (rs.commit hasher.hash rs.empty (body.digests blake3 hasher)) =
          some root.value := by
  unfold Attestation.Body.root
  rw [Fault.bind_ok_iff]
  constructor
  · rintro ⟨entries, hentries, h⟩
    obtain ⟨hser, rfl⟩ := hashFields_ok_iff.mp hentries
    rw [map_snd_hashes, MerkleTree.insert_new, Fault.ok_bind, MerkleTree.root] at h
    split at h
    · rename_i value hvalue
      cases h
      exact ⟨hser, rfl, hvalue⟩
    · cases h
  · rintro ⟨hser, halg, hvalue⟩
    refine ⟨_, hashFields_ok_iff.mpr ⟨hser, rfl⟩, ?_⟩
    rw [map_snd_hashes, MerkleTree.insert_new, Fault.ok_bind, MerkleTree.root]
    simp only [hvalue]
    rw [← halg]

/-! ## Ids and positions -/

/-- The ids are the positions of the fields once these are sorted. -/
def Numbered (body : Body) : Prop :=
  body.sorted.map (fun entry => entry.1.id.toNat) = List.range body.fields.length

variable {body part : Body}

/-- In a numbered body the digest at the position of an id is that of the field. -/
theorem Numbered.getElem?_digests (h : body.Numbered) {entry : FieldId × FieldData}
    (hentry : entry ∈ body.sorted) :
    (body.digests blake3 hasher)[entry.1.id.toNat]? = some (entry.2.digest blake3 hasher) := by
  obtain ⟨i, hi⟩ := List.mem_iff_getElem?.mp hentry
  have hid : entry.1.id.toNat = i := by
    have hget := congrArg (fun l => l[i]?) h
    simp only [List.getElem?_map, hi, Option.map_some] at hget
    obtain ⟨hlt, heq⟩ := List.getElem?_eq_some_iff.mp hget.symm
    rw [List.getElem_range] at heq
    exact heq.symm
  rw [hid, digests, leaves, List.getElem?_map, List.getElem?_map, hi]
  rfl

/-- A tree of the digests of a numbered body proves the fields of any part of it, which the
verifier accepts as a whole body. -/
theorem Numbered.verify_part {ε : Type} {rs : RsMerkle} {r : Hash} (h : body.Numbered)
    (hroot : rs.root (rs.commit hasher.hash rs.empty (body.digests blake3 hasher)) = some r)
    (hpart : part.sorted.Sublist body.sorted) :
    ∃ proof : MerkleProof rs,
      ((⟨hasher.id, rs.commit hasher.hash rs.empty (body.digests blake3 hasher)⟩ :
        MerkleTree rs).proof ((part.leaves blake3 hasher).map Prod.fst) : Except (Fault ε) _) =
          .ok proof ∧
      proof = ⟨hasher.id, body.fields.length, rs.proof
        (rs.commit hasher.hash rs.empty (body.digests blake3 hasher))
        ((part.leaves blake3 hasher).map Prod.fst)⟩ ∧
      proof.verify hasher ⟨hasher.id, r⟩ (part.leaves blake3 hasher) = .ok () := by
  have hids : ((part.leaves blake3 hasher).map Prod.fst).Sublist
      (List.range body.fields.length) := by
    rw [← h, leaves, List.map_map]
    exact hpart.map _
  have hlt : ∀ i ∈ (part.leaves blake3 hasher).map Prod.fst,
      i < rs.leavesLen (rs.commit hasher.hash rs.empty (body.digests blake3 hasher)) := by
    intro i hi
    rw [rs.leavesLen_commit, length_digests]
    exact List.mem_range.mp (hids.subset hi)
  have hne : (part.leaves blake3 hasher).map Prod.fst ≠ [] := by
    simp only [leaves, ne_eq, List.map_eq_nil_iff]
    exact part.sorted_ne_nil
  have hincreasing := List.pairwise_lt_range.sublist hids
  have hproof : ((⟨hasher.id, rs.commit hasher.hash rs.empty (body.digests blake3 hasher)⟩ :
      MerkleTree rs).proof ((part.leaves blake3 hasher).map Prod.fst) : Except (Fault ε) _) =
        .ok _ :=
    MerkleTree.proof_of_lt hne hincreasing hlt
  refine ⟨_, hproof, by rw [rs.leavesLen_commit, length_digests], ?_⟩
  refine MerkleProof.verify_of_proof hroot hproof (hincreasing.imp Nat.ne_of_lt) (.refl _) ?_
  intro leaf hleaf
  obtain ⟨entry, hentry, rfl⟩ := List.mem_map.mp hleaf
  exact h.getElem?_digests (hpart.subset hentry)

end Attestation.Body

/-! ## Issued attestations -/

/-- What a notary signs: the root of a numbered body, under the body's own key. -/
structure Attestation.Issued (rs : RsMerkle) (blake3 : Blake3) (provider : SigningProvider)
    (hasher : HashAlgorithm) (attestation : Attestation) : Prop where
  get_hasher : provider.hash.get attestation.header.root.alg = .ok hasher
  root : (attestation.body.root rs blake3 hasher : Except (Fault Empty) _) =
    .ok attestation.header.root
  numbered : attestation.body.Numbered
  signed : ∃ verifier bytes, provider.signature.get attestation.signature.alg = .ok verifier ∧
    (serialize attestation.header : Except (Fault AttestationError) _) = .ok bytes ∧
    verifier.verify attestation.body.verifyingKey.data bytes attestation.signature.data = .ok ()

namespace Attestation.Issued

open Attestation (Body)

variable {rs : RsMerkle} {blake3 : Blake3} {provider : SigningProvider} {hasher : HashAlgorithm}
  {attestation : Attestation} {part : Body}

theorem serializable (h : attestation.Issued rs blake3 provider hasher) :
    attestation.body.Serializable blake3 :=
  (Body.root_ok_iff.mp h.root).1

theorem root_eq (h : attestation.Issued rs blake3 provider hasher) :
    attestation.header.root = ⟨hasher.id, attestation.header.root.value⟩ := by
  rw [← (Body.root_ok_iff.mp h.root).2.1]

theorem rs_root (h : attestation.Issued rs blake3 provider hasher) :
    rs.root (rs.commit hasher.hash rs.empty (attestation.body.digests blake3 hasher)) =
      some attestation.header.root.value :=
  (Body.root_ok_iff.mp h.root).2.2

/-- A body which can be serialized and whose leaves a proof places under the root of the header
is returned as the body of the attestation, if it has the attestation's key. -/
theorem verify_of_leaves {proof : MerkleProof rs} (h : attestation.Issued rs blake3 provider hasher)
    (hser : part.Serializable blake3)
    (hkey : part.verifyingKey.data = attestation.body.verifyingKey.data)
    (hverify : proof.verify hasher attestation.header.root (part.leaves blake3 hasher) = .ok ()) :
    (AttestationProof.mk attestation.signature attestation.header ⟨part, proof⟩).verify
      blake3 provider = .ok ⟨attestation.signature, attestation.header, part⟩ := by
  obtain ⟨verifier, bytes, hverifier, hbytes, hsigned⟩ := h.signed
  have hbody : (BodyProof.mk part proof).verifyWithProvider blake3 provider.toCryptoProvider
      attestation.header = .ok part := by
    unfold BodyProof.verifyWithProvider
    rw [h.get_hasher]
    refine Fault.bind_ok_iff.mpr ⟨hasher, rfl, ?_⟩
    refine Fault.bind_ok_iff.mpr ⟨_, Body.hashFields_ok_iff.mpr ⟨hser, rfl⟩, ?_⟩
    rw [Body.map_leafOf, hverify]
    rfl
  unfold AttestationProof.verify
  refine Fault.bind_ok_iff.mpr ⟨verifier, by rw [hverifier]; rfl, ?_⟩
  refine Fault.bind_ok_iff.mpr ⟨part, hbody, ?_⟩
  refine Fault.bind_ok_iff.mpr ⟨bytes, hbytes, ?_⟩
  rw [hkey, hsigned]
  rfl

/-- The prover makes a proof of the whole body, which verifies. -/
theorem verify_of_new (h : attestation.Issued rs blake3 provider hasher) :
    ∃ proof : AttestationProof rs, AttestationProof.new blake3 provider attestation = .ok proof ∧
      proof.verify blake3 provider = .ok attestation := by
  obtain ⟨proof, hproof, -, hverify⟩ := h.numbered.verify_part h.rs_root (.refl _)
  rw [← h.root_eq] at hverify
  refine ⟨⟨attestation.signature, attestation.header, ⟨attestation.body, proof⟩⟩, ?_,
    h.verify_of_leaves h.serializable rfl hverify⟩
  have hbody : (BodyProof.new blake3 hasher attestation.body : Except _ (BodyProof rs)) =
      .ok ⟨attestation.body, proof⟩ := by
    unfold BodyProof.new
    refine Fault.bind_ok_iff.mpr ⟨_, Body.hashFields_ok_iff.mpr ⟨h.serializable, rfl⟩, ?_⟩
    rw [Body.map_leafOf]
    refine Fault.bind_ok_iff.mpr ⟨_, MerkleTree.insert_new hasher _, ?_⟩
    exact Fault.bind_ok_iff.mpr ⟨proof, hproof, rfl⟩
  unfold AttestationProof.new
  rw [h.get_hasher]
  exact Fault.bind_ok_iff.mpr ⟨hasher, rfl, Fault.bind_ok_iff.mpr ⟨_, hbody, rfl⟩⟩

end Attestation.Issued

end Tlsn.Core

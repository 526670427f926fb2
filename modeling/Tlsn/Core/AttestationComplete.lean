import Tlsn.Core.EncodingSoundness
import Tlsn.Core.FieldHashes

/-!
From an accepted request to a verified attestation. The counter hands out the
positions of the fields as long as it does not wrap, and then every assertion of the
tree holds and the proof verifies. With more fields an id repeats, and making a
proof aborts.
-/

namespace Tlsn.Core

/-! ## The counter -/

/-- Fields with the ids which the counter hands out from `k` on. -/
def numberedFrom {α : Type} (k : Nat) (l : List α) : List (Field α) :=
  (l.zipIdx k).map fun e => ⟨⟨UInt32.ofNat e.2⟩, e.1⟩

theorem numberedFrom_append {α : Type} (k : Nat) (l m : List α) :
    numberedFrom k (l ++ m) = numberedFrom k l ++ numberedFrom (k + l.length) m := by
  rw [numberedFrom, List.zipIdx_append, List.map_append]
  rfl

theorem numberedFrom_map {α β : Type} (f : α → β) (k : Nat) (l : List α) :
    (numberedFrom k l).map (Field.map f) = numberedFrom k (l.map f) := by
  simp only [numberedFrom, List.zipIdx_map, List.map_map]
  rfl

theorem mapM_next {α : Type} (l : List α) (k : Nat) :
    (l.mapM FieldId.next : StateM FieldId (List (Field α))) ⟨UInt32.ofNat k⟩ =
      (numberedFrom k l, ⟨UInt32.ofNat (k + l.length)⟩) := by
  induction l generalizing k with
  | nil => rfl
  | cons a l ih =>
      have hnext : UInt32.ofNat k + 1 = UInt32.ofNat (k + 1) := by
        rw [UInt32.ofNat_add]
        rfl
      rw [List.mapM_cons]
      simp only [bind, StateT.bind, FieldId.next, hnext, ih]
      rw [List.length_cons, Nat.add_assoc, Nat.add_comm 1]
      rfl

theorem numberedFrom_ids {α : Type} (k : Nat) (l : List α) :
    (numberedFrom k l).map (fun field => field.id.id.toNat) =
      (List.range' k l.length).map (· % 2 ^ 32) := by
  rw [numberedFrom, List.map_map, ← List.zipIdx_map_snd k l, List.map_map]
  apply List.map_congr_left
  intro e _
  exact UInt32.toNat_ofNat'

theorem numberedFrom_data {α : Type} (k : Nat) (l : List α) :
    (numberedFrom k l).map Field.data = l := by
  rw [numberedFrom, List.map_map]
  exact List.zipIdx_map_fst k l

@[simp] theorem length_numberedFrom {α : Type} (k : Nat) (l : List α) :
    (numberedFrom k l).length = l.length := by
  simp [numberedFrom]

namespace Attestation.Body

variable {body : Body} {data : List FieldData}

theorem ids_of_counter (h : body.fields = numberedFrom 0 data)
    (hlen : body.fields.length ≤ 2 ^ 32) :
    body.fields.map (fun field => field.id.id.toNat) = List.range body.fields.length := by
  have hdata : data.length = body.fields.length := by rw [h, length_numberedFrom]
  rw [h, numberedFrom_ids, ← h, hdata, List.range_eq_range']
  conv_rhs => rw [← List.map_id (List.range' 0 body.fields.length)]
  apply List.map_congr_left
  intro i hi
  have := List.mem_range'_1.mp hi
  exact Nat.mod_eq_of_lt (by omega)

/-- A body filled by the counter is numbered unless the counter wrapped. -/
theorem numbered_of_counter (h : body.fields = numberedFrom 0 data)
    (hlen : body.fields.length ≤ 2 ^ 32) : body.Numbered := by
  have hids := ids_of_counter h hlen
  have hsorted : body.sorted = body.fields.map fun field => (field.id, field.data) := by
    apply List.Pairwise.insertionSort_eq
    rw [List.pairwise_map]
    have hrange : (body.fields.map fun field => field.id.id.toNat).Pairwise (· < ·) := by
      rw [hids]
      exact List.pairwise_lt_range
    exact (List.pairwise_map.mp hrange).imp Nat.le_of_lt
  rw [Numbered, hsorted, List.map_map]
  exact hids

end Attestation.Body

namespace AttestationBuilder

def fieldData (key : VerifyingKey) (info : ConnectionInfo) (ephemeral : ServerEphemKey)
    (cert : ServerCertCommitment) (encoding : Option EncodingCommitment)
    (extensions : List Extension) : List FieldData :=
  [.verifyingKey key, .connectionInfo info, .serverEphemKey ephemeral,
    .serverCertCommitment cert] ++
  encoding.toList.map .encodingCommitment ++ extensions.map .extension

/-- The ids follow one another, with none for a commitment there is not. -/
theorem fillBody_eq (key : VerifyingKey) (info : ConnectionInfo) (ephemeral : ServerEphemKey)
    (cert : ServerCertCommitment) (encoding : Option EncodingCommitment)
    (extensions : List Extension) :
    (fillBody key info ephemeral cert encoding extensions ⟨0⟩).1 =
      ⟨⟨⟨0⟩, key⟩, ⟨⟨1⟩, info⟩, ⟨⟨2⟩, ephemeral⟩, ⟨⟨3⟩, cert⟩, encoding.map fun c => ⟨⟨4⟩, c⟩, [],
        numberedFrom (4 + encoding.toList.length) extensions⟩ := by
  cases encoding with
  | none =>
      have hbody : (fillBody key info ephemeral cert none extensions ⟨0⟩).1 =
          ⟨⟨⟨0⟩, key⟩, ⟨⟨1⟩, info⟩, ⟨⟨2⟩, ephemeral⟩, ⟨⟨3⟩, cert⟩, none, [],
            (extensions.mapM FieldId.next ⟨UInt32.ofNat 4⟩).1⟩ := rfl
      rw [hbody, mapM_next]
      rfl
  | some commitment =>
      have hbody : (fillBody key info ephemeral cert (some commitment) extensions ⟨0⟩).1 =
          ⟨⟨⟨0⟩, key⟩, ⟨⟨1⟩, info⟩, ⟨⟨2⟩, ephemeral⟩, ⟨⟨3⟩, cert⟩, some ⟨⟨4⟩, commitment⟩, [],
            (extensions.mapM FieldId.next ⟨UInt32.ofNat 5⟩).1⟩ := rfl
      rw [hbody, mapM_next]
      rfl

theorem fillBody_fields (key : VerifyingKey) (info : ConnectionInfo) (ephemeral : ServerEphemKey)
    (cert : ServerCertCommitment) (encoding : Option EncodingCommitment)
    (extensions : List Extension) :
    (fillBody key info ephemeral cert encoding extensions ⟨0⟩).1.fields =
      numberedFrom 0 (fieldData key info ephemeral cert encoding extensions) := by
  rw [fillBody_eq]
  cases encoding with
  | none =>
      rw [fieldData, Option.toList_none, List.map_nil, List.append_nil, numberedFrom_append,
        ← numberedFrom_map]
      rfl
  | some commitment =>
      rw [fieldData, Option.toList_some, List.map_singleton, numberedFrom_append,
        ← numberedFrom_map]
      rfl

/-! ## Building -/

variable {rs : RsMerkle} {blake3 : Blake3} {provider : SigningProvider} {config : AttestationConfig}
  {request : Request} {state : Sign} {id : Uid} {attestation : Attestation}

theorem acceptRequest_ok (h : acceptRequest config request = .ok state) :
    state = ⟨request.signatureAlg, request.hashAlg, none, none, request.serverCertCommitment,
      request.encodingCommitmentRoot, none, request.extensions⟩ := by
  unfold acceptRequest at h
  by_cases hsignature : request.signatureAlg ∉ config.supportedSignatureAlgs
  · rw [if_pos hsignature] at h
    cases h
  rw [if_neg hsignature] at h
  by_cases hhash : request.hashAlg ∉ config.supportedHashAlgs
  · rw [if_pos hhash] at h
    cases h
  rw [if_neg hhash] at h
  by_cases hencoding : request.encodingCommitmentRoot.isSome ∧
      FieldKind.encodingCommitment ∉ config.supportedFields
  · rw [if_pos hencoding] at h
    cases h
  rw [if_neg hencoding] at h
  obtain ⟨⟨⟩, -, hstate⟩ := Fault.bind_ok_iff.mp h
  cases hstate
  rfl

def Call.extension? : Call → Option Extension
  | .extension e => some e
  | _ => none

/-- What the notary sets leaves what was accepted as it is, and adds to the extensions. -/
theorem foldl_call (calls : List Call) (state : Sign) :
    (calls.foldl call state).signatureAlg = state.signatureAlg ∧
      (calls.foldl call state).hashAlg = state.hashAlg ∧
      (calls.foldl call state).certCommitment = state.certCommitment ∧
      (calls.foldl call state).encodingCommitmentRoot = state.encodingCommitmentRoot ∧
      (calls.foldl call state).extensions =
        state.extensions ++ calls.filterMap Call.extension? := by
  induction calls generalizing state with
  | nil => simp
  | cons c calls ih =>
      obtain ⟨h₁, h₂, h₃, h₄, h₅⟩ := ih (call state c)
      rw [List.foldl_cons, h₁, h₂, h₃, h₄, h₅]
      cases c with
      | extension e =>
          refine ⟨rfl, rfl, rfl, rfl, ?_⟩
          rw [call, List.append_assoc]
          rfl
      | connectionInfo _ | serverEphemeralKey _ | encoderSecret _ =>
          exact ⟨rfl, rfl, rfl, rfl, rfl⟩

theorem encodingCommitment_ok {encoding : Option EncodingCommitment}
    (h : encodingCommitment state = .ok encoding) :
    encoding.map EncodingCommitment.root = state.encodingCommitmentRoot := by
  unfold encodingCommitment at h
  split at h
  · cases h
    rename_i hroot
    rw [hroot]
    rfl
  · split at h
    · cases h
    · cases h
      rename_i hroot _ _ _
      rw [hroot]
      rfl

/-- An attestation that was built, with what went into it. -/
structure Built (rs : RsMerkle) (blake3 : Blake3) (provider : SigningProvider) (state : Sign)
    (hasher : HashAlgorithm) (signer : Signer) (attestation : Attestation) : Prop where
  get_hasher : provider.hash.get state.hashAlg = .ok hasher
  get_signer : provider.signer.get state.signatureAlg = .ok signer
  root : (attestation.body.root rs blake3 hasher : Except (Fault Empty) _) =
    .ok attestation.header.root
  key : attestation.body.verifyingKey.data = signer.verifyingKey
  cert : attestation.body.certCommitment.data = state.certCommitment
  encoding : attestation.body.encodingCommitment.map (·.data.root) = state.encodingCommitmentRoot
  extensions : attestation.body.extensions.map Field.data = state.extensions
  fields : ∃ data, attestation.body.fields = numberedFrom 0 data ∧ data.length =
    4 + (if state.encodingCommitmentRoot.isSome then 1 else 0) + state.extensions.length
  signed : ∃ bytes, (serialize attestation.header : Except (Fault AttestationError) _) = .ok bytes ∧
    signer.sign bytes = .ok attestation.signature

theorem build_ok (h : build rs state blake3 provider id = .ok attestation) :
    ∃ hasher signer, Built rs blake3 provider state hasher signer attestation := by
  unfold build at h
  obtain ⟨hasher, hhasher, h⟩ := Fault.bind_ok_iff.mp h
  obtain ⟨signer, hsigner, h⟩ := Fault.bind_ok_iff.mp h
  obtain ⟨encoding, hencoding, h⟩ := Fault.bind_ok_iff.mp h
  obtain ⟨info, hinfo, h⟩ := Fault.bind_ok_iff.mp h
  obtain ⟨ephemeral, hephemeral, h⟩ := Fault.bind_ok_iff.mp h
  obtain ⟨root, hroot, h⟩ := Fault.bind_ok_iff.mp h
  obtain ⟨bytes, hbytes, h⟩ := Fault.bind_ok_iff.mp h
  obtain ⟨signature, hsign, h⟩ := Fault.bind_ok_iff.mp h
  cases h
  have hencoded := encodingCommitment_ok hencoding
  refine ⟨hasher, signer, ?_⟩
  constructor
  · exact Fault.mapError_ok_iff.mp hhasher
  · exact Fault.mapError_ok_iff.mp hsigner
  · exact Attestation.Body.root_ok_iff.mpr (Attestation.Body.root_ok_iff.mp hroot)
  · rw [fillBody_eq]
  · rw [fillBody_eq]
  · rw [fillBody_eq, ← hencoded, Option.map_map]
    rfl
  · rw [fillBody_eq, numberedFrom_data]
  · refine ⟨_, fillBody_fields _ _ _ _ _ _, ?_⟩
    rw [← hencoded]
    cases encoding with
    | none => simp [fieldData]; omega
    | some commitment => simp [fieldData]; omega
  · exact ⟨bytes, serialize_ok_iff.mpr (serialize_ok_iff.mp hbytes), Fault.mapError_ok_iff.mp hsign⟩

/-! ## From the request to the verified attestation -/

/-- The number of fields of the body that is built for a request. -/
def fieldCount (request : Request) (calls : List Call) : Nat :=
  4 + (if request.encodingCommitmentRoot.isSome then 1 else 0) +
    (request.extensions.length + (calls.filterMap Call.extension?).length)

/-- The ids count the fields and are the positions of their leaves, the prover makes a proof
that verifies to the attestation, and the request accepts the attestation. -/
structure Complete (rs : RsMerkle) (blake3 : Blake3) (provider : SigningProvider)
    (request : Request) (attestation : Attestation) : Prop where
  ids : attestation.body.fields.map (fun field => field.id.id.toNat) =
    List.range attestation.body.fields.length
  positions : attestation.body.Numbered
  proof : ∃ proof : AttestationProof rs,
    AttestationProof.new blake3 provider attestation = .ok proof ∧
    proof.verify blake3 provider = .ok attestation
  accepted : request.validate attestation = .ok ()

variable {hasher : HashAlgorithm} {signer : Signer} {calls : List Call}

theorem Built.length_fields
    (h : Built rs blake3 provider state hasher signer attestation) :
    attestation.body.fields.length =
      4 + (if state.encodingCommitmentRoot.isSome then 1 else 0) + state.extensions.length := by
  obtain ⟨data, hfields, hlen⟩ := h.fields
  rw [hfields, length_numberedFrom, hlen]

theorem Built.issued (h : Built rs blake3 provider state hasher signer attestation)
    (hcorrect : provider.Correct) (hlen : attestation.body.fields.length ≤ 2 ^ 32) :
    attestation.Issued rs blake3 provider hasher := by
  obtain ⟨data, hfields, -⟩ := h.fields
  obtain ⟨bytes, hbytes, hsign⟩ := h.signed
  obtain ⟨halg, verifier, hverifier, hverify⟩ := hcorrect.sign _ _ _ _ h.get_signer hsign
  have hroot : attestation.header.root.alg = state.hashAlg :=
    (Attestation.Body.root_ok_iff.mp h.root).2.1.trans (hcorrect.hash_id _ _ h.get_hasher)
  constructor
  · rw [hroot]
    exact h.get_hasher
  · exact h.root
  · exact Attestation.Body.numbered_of_counter hfields hlen
  · rw [halg, h.key]
    exact ⟨verifier, bytes, hverifier, hbytes, hverify⟩

theorem Built.validate (h : Built rs blake3 provider state hasher signer attestation)
    (hcorrect : provider.Correct) (hsignature : state.signatureAlg = request.signatureAlg)
    (hhash : state.hashAlg = request.hashAlg)
    (hcert : state.certCommitment = request.serverCertCommitment)
    (hencoding : state.encodingCommitmentRoot = request.encodingCommitmentRoot)
    (hextensions : ∀ e ∈ request.extensions, e ∈ state.extensions) :
    request.validate attestation = .ok () := by
  obtain ⟨bytes, hbytes, hsign⟩ := h.signed
  have hsigalg : attestation.signature.alg = request.signatureAlg :=
    (hcorrect.sign _ _ _ _ h.get_signer hsign).1.trans hsignature
  have hroot : attestation.header.root.alg = request.hashAlg :=
    ((Attestation.Body.root_ok_iff.mp h.root).2.1.trans (hcorrect.hash_id _ _ h.get_hasher)).trans
      hhash
  have hcommitment : attestation.body.certCommitment.data = request.serverCertCommitment :=
    h.cert.trans hcert
  have hencoded : request.validateEncoding attestation.body = .ok () := by
    have heq := h.encoding.trans hencoding
    unfold Request.validateEncoding
    cases hr : request.encodingCommitmentRoot with
    | none => rfl
    | some root =>
        cases hc : attestation.body.encodingCommitment with
        | none =>
            rw [hr, hc] at heq
            cases heq
        | some commitment =>
            rw [hr, hc] at heq
            exact if_neg (not_not_intro (Option.some.inj heq))
  have hextended : ∀ l : List Extension, (∀ e ∈ l, e ∈ request.extensions) →
      l.forM (Request.validateExtension attestation.body) = .ok () := by
    intro l
    induction l with
    | nil => exact fun _ => rfl
    | cons e l ih =>
        intro hl
        have hmem : e ∈ attestation.body.extensions.map Field.data := by
          rw [h.extensions]
          exact hextensions e (hl e List.mem_cons_self)
        obtain ⟨field, hfield, hdata⟩ := List.mem_map.mp hmem
        have hany : attestation.body.extensions.any (fun field => decide (field.data = e)) = true :=
          List.any_eq_true.mpr ⟨field, hfield, decide_eq_true hdata⟩
        have hhead : Request.validateExtension attestation.body e = .ok () := if_pos hany
        exact Fault.bind_ok_iff.mpr
          ⟨(), hhead, ih fun e' he' => hl e' (List.mem_cons_of_mem _ he')⟩
  unfold Request.validate
  rw [if_neg (not_not_intro hsigalg), if_neg (not_not_intro hroot),
    if_neg (not_not_intro hcommitment)]
  refine Fault.bind_ok_iff.mpr ⟨(), hencoded, ?_⟩
  exact hextended request.extensions fun e he => he

/-- An attestation is complete if and only if the counter did not wrap. -/
theorem complete_iff (hcorrect : provider.Correct)
    (haccept : acceptRequest config request = .ok state)
    (hbuild : build rs (calls.foldl call state) blake3 provider id = .ok attestation) :
    Complete rs blake3 provider request attestation ↔ fieldCount request calls ≤ 2 ^ 32 := by
  obtain ⟨hasher, signer, hbuilt⟩ := build_ok hbuild
  obtain ⟨hsignature, hhash, hcert, hroot, hextensions⟩ := foldl_call calls state
  obtain rfl := acceptRequest_ok haccept
  have hcount : attestation.body.fields.length = fieldCount request calls := by
    rw [hbuilt.length_fields, hroot, hextensions, List.length_append]
    rfl
  constructor
  · intro hcomplete
    rcases Nat.eq_zero_or_pos attestation.body.fields.length with hzero | hpos
    · omega
    · have hlast : attestation.body.fields.length - 1 ∈
          attestation.body.fields.map (fun field => field.id.id.toNat) := by
        rw [hcomplete.ids, List.mem_range]
        omega
      obtain ⟨field, -, hid⟩ := List.mem_map.mp hlast
      have := field.id.id.toNat_lt
      omega
  · intro hlen
    rw [← hcount] at hlen
    have hissued := hbuilt.issued hcorrect hlen
    obtain ⟨data, hfields, -⟩ := hbuilt.fields
    constructor
    · exact Attestation.Body.ids_of_counter hfields hlen
    · exact hissued.numbered
    · exact hissued.verify_of_new
    · refine hbuilt.validate hcorrect hsignature hhash hcert hroot fun e he => ?_
      rw [hextensions]
      exact List.mem_append_left _ he

/-! ## Builds which succeed -/

theorem serialize_header {ε : Type} (header : Header) :
    ∃ bytes, (serialize header : Except (Fault ε) _) = .ok bytes := by
  have hlen : header.root.value.bytes.length ≤ maxSequenceLength :=
    Nat.le_trans header.root.value.length_le (by decide)
  have hvalue : CanonicalSerialize.codec.encode header.root.value =
      some (uleb128 header.root.value.bytes.length ++ header.root.value.bytes) := by
    show CanonicalSerialize.codec.encode header.root.value.bytes = _
    rw [encode_bytes, serializeBytes, if_pos hlen]
  have hversion : CanonicalSerialize.codec.encode header.version.version =
      some (Codec.leBytes 4 header.version.version.toNat) :=
    if_pos header.version.version.toNat_lt
  refine ⟨_, serialize_ok_iff.mpr (Codec.pair_eq_some.mpr ⟨_, _, rfl,
    Codec.pair_eq_some.mpr ⟨_, _, hversion, Codec.pair_eq_some.mpr ⟨_, _, rfl, hvalue, rfl⟩, rfl⟩,
    rfl⟩)⟩

/-- With everything set, and fields that can be serialized, a notary whose signer works builds. -/
theorem build_of {info : ConnectionInfo} {ephemeral : ServerEphemKey}
    {encoding : Option EncodingCommitment} (hhasher : provider.hash.get state.hashAlg = .ok hasher)
    (hsigner : provider.signer.get state.signatureAlg = .ok signer)
    (hencoding : encodingCommitment state = .ok encoding)
    (hinfo : state.connectionInfo = some info)
    (hephemeral : state.serverEphemeralKey = some ephemeral)
    (hstring : ∀ data ∈ fieldData signer.verifyingKey info ephemeral state.certCommitment encoding
      state.extensions, (data.string blake3).isSome = true)
    (hsign : ∀ bytes, ∃ signature, signer.sign bytes = .ok signature) :
    ∃ attestation, build rs state blake3 provider id = .ok attestation := by
  obtain ⟨body, hbody⟩ : ∃ body, body = (fillBody signer.verifyingKey info ephemeral
    state.certCommitment encoding state.extensions ⟨0⟩).1 := ⟨_, rfl⟩
  have hser : body.Serializable blake3 := by
    intro field hfield
    rw [hbody, fillBody_fields] at hfield
    refine hstring _ ?_
    rw [← numberedFrom_data 0 (fieldData _ _ _ _ _ _)]
    exact List.mem_map_of_mem hfield
  have hne : body.digests blake3 hasher ≠ [] := by
    rw [← List.length_pos_iff, Attestation.Body.length_digests, hbody, fillBody_fields,
      length_numberedFrom]
    simp [fieldData]
  obtain ⟨t, -, hroot, -⟩ := rs.root_commit hasher.hash _ hne
  obtain ⟨bytes, hbytes⟩ := serialize_header (ε := AttestationBuilderError)
    ⟨id, version, ⟨hasher.id, t.value hasher.hash hashPair⟩⟩
  obtain ⟨signature, hsigned⟩ := hsign bytes
  refine ⟨⟨signature, ⟨id, version, ⟨hasher.id, t.value hasher.hash hashPair⟩⟩, body⟩, ?_⟩
  unfold build
  refine Fault.bind_ok_iff.mpr ⟨hasher, Fault.mapError_ok_iff.mpr hhasher, ?_⟩
  refine Fault.bind_ok_iff.mpr ⟨signer, Fault.mapError_ok_iff.mpr hsigner, ?_⟩
  refine Fault.bind_ok_iff.mpr ⟨encoding, hencoding, ?_⟩
  refine Fault.bind_ok_iff.mpr ⟨info, by rw [hinfo]; rfl, ?_⟩
  refine Fault.bind_ok_iff.mpr ⟨ephemeral, by rw [hephemeral]; rfl, ?_⟩
  rw [← hbody]
  refine Fault.bind_ok_iff.mpr ⟨⟨hasher.id, t.value hasher.hash hashPair⟩,
    Attestation.Body.root_ok_iff.mpr ⟨hser, rfl, hroot⟩, ?_⟩
  refine Fault.bind_ok_iff.mpr ⟨bytes, hbytes, ?_⟩
  exact Fault.bind_ok_iff.mpr ⟨signature, Fault.mapError_ok_iff.mpr hsigned, rfl⟩

/-- When the counter wrapped, an id repeats, and making a proof aborts. -/
theorem new_of_wrapped (hcorrect : provider.Correct)
    (h : Built rs blake3 provider state hasher signer attestation)
    (hlen : 2 ^ 32 < attestation.body.fields.length) :
    (AttestationProof.new blake3 provider attestation : Except _ (AttestationProof rs)) =
      .error .panic := by
  have hroot : attestation.header.root.alg = state.hashAlg :=
    (Attestation.Body.root_ok_iff.mp h.root).2.1.trans (hcorrect.hash_id _ _ h.get_hasher)
  have hser := (Attestation.Body.root_ok_iff.mp h.root).1
  have hindices : ¬ ((attestation.body.leaves blake3 hasher).map Prod.fst).Pairwise (· < ·) := by
    intro hpair
    have hnodup : ((attestation.body.leaves blake3 hasher).map Prod.fst).Nodup :=
      hpair.imp Nat.ne_of_lt
    have hsub : (attestation.body.leaves blake3 hasher).map Prod.fst ⊆ List.range (2 ^ 32) := by
      intro i hi
      simp only [Attestation.Body.leaves, List.map_map, List.mem_map] at hi
      obtain ⟨entry, -, rfl⟩ := hi
      exact List.mem_range.mpr entry.1.id.toNat_lt
    have hle := (List.subperm_of_subset hnodup hsub).length_le
    rw [List.length_range] at hle
    simp only [Attestation.Body.leaves, List.length_map, Attestation.Body.length_sorted] at hle
    omega
  have hbody : (BodyProof.new blake3 hasher attestation.body : Except _ (BodyProof rs)) =
      .error .panic := by
    have hfields : (attestation.body.hashFields blake3 hasher : Except (Fault AttestationError) _) =
        .ok _ := Attestation.Body.hashFields_ok_iff.mpr ⟨hser, rfl⟩
    unfold BodyProof.new
    rw [hfields, Fault.ok_bind]
    simp only [Attestation.Body.map_leafOf]
    rw [MerkleTree.insert_new, Fault.ok_bind, MerkleTree.proof, if_pos hindices]
    rfl
  unfold AttestationProof.new
  rw [hroot, h.get_hasher]
  simp only [Fault.mapError_ok, Fault.ok_bind, hbody]
  rfl

end AttestationBuilder

/-! ## A small instance -/

/-- A hash of the names of the field types which tells them apart. -/
def nameHash : Blake3 := fun name =>
  Vector.replicate 32 <|
    if name = "VerifyingKey" then 1 else if name = "ConnectionInfo" then 2
    else if name = "ServerEphemKey" then 3 else if name = "ServerCertCommitment" then 4
    else if name = "EncodingCommitment" then 5 else if name = "PlaintextHash" then 6 else 7

def notaryKey : VerifyingKey := ⟨⟨1⟩, [2]⟩

/-- Signs by repeating the message. -/
def notarySigner : Signer := ⟨.secp256k1, fun msg => .ok ⟨.secp256k1, msg⟩, notaryKey⟩

def notaryVerifier : SignatureVerifier where
  algId := .secp256k1
  verify key msg sig :=
    if key = notaryKey ∧ sig = msg then .ok ()
    else .error ⟨"secp256k1 signature verification failed"⟩

def notaryProvider : SigningProvider where
  hash := sampleProvider.hash
  signer.signers alg := if alg = .secp256k1 then some notarySigner else none
  signer.algId_eq alg signer h := by
    obtain ⟨rfl, ⟨⟩⟩ := Option.ite_none_right_eq_some.mp h
    rfl
  signature.verifiers alg := if alg = .secp256k1 then some notaryVerifier else none
  signature.algId_eq alg verifier h := by
    obtain ⟨rfl, ⟨⟩⟩ := Option.ite_none_right_eq_some.mp h
    rfl

theorem notaryProvider_correct : notaryProvider.Correct where
  hash_id alg hasher h := by
    unfold HashProvider.get at h
    split at h
    · rename_i found
      cases h
      obtain ⟨rfl, ⟨⟩⟩ := Option.ite_none_right_eq_some.mp found
      rfl
    · cases h
  sign alg signer msg sig h hsign := by
    unfold SignerProvider.get at h
    split at h
    · rename_i found
      cases h
      obtain ⟨rfl, ⟨⟩⟩ := Option.ite_none_right_eq_some.mp found
      cases hsign
      exact ⟨rfl, notaryVerifier, rfl, if_pos ⟨rfl, rfl⟩⟩
    · cases h

def notaryConfig : AttestationConfig :=
  { AttestationConfig.default with
    supportedSignatureAlgs := [.secp256k1]
    extensionValidator := none }

def requestOf (extensions : List Extension) : Request :=
  ⟨.secp256k1, polyHash.id, ⟨⟨polyHash.id, polyHash.hash [1]⟩⟩, none, extensions⟩

def notaryCalls : List AttestationBuilder.Call :=
  [.connectionInfo ⟨1, .v1_2, ⟨2, 3⟩⟩, .serverEphemeralKey ⟨.secp256r1, [4]⟩]

def signOf (extensions : List Extension) : Sign :=
  ⟨.secp256k1, polyHash.id, none, none, ⟨⟨polyHash.id, polyHash.hash [1]⟩⟩, none, none, extensions⟩

theorem acceptRequest_requestOf (extensions : List Extension) :
    AttestationBuilder.acceptRequest notaryConfig (requestOf extensions) =
      .ok (signOf extensions) :=
  rfl

def sampleUid : Uid := ⟨Vector.replicate 16 0⟩

def sampleExtension : Extension := ⟨[5], [6]⟩

theorem sampleAttestation_ok : (AttestationBuilder.build RsMerkle.reference
    (notaryCalls.foldl AttestationBuilder.call (signOf [sampleExtension])) nameHash notaryProvider
    sampleUid).toOption.isSome = true := by
  decide +kernel

def sampleAttestation : Attestation := Option.get _ sampleAttestation_ok

namespace AttestationBuilder

theorem complete_iff_sample :
    Complete RsMerkle.reference nameHash notaryProvider (requestOf [sampleExtension])
      sampleAttestation ↔ fieldCount (requestOf [sampleExtension]) notaryCalls ≤ 2 ^ 32 :=
  complete_iff notaryProvider_correct (acceptRequest_requestOf _)
    (Fault.ok_get sampleAttestation_ok)

theorem new_of_extensions {extensions : List Extension} (hlen : 2 ^ 32 ≤ extensions.length)
    (hall : ∀ e ∈ extensions, e = sampleExtension) : ∃ attestation,
    build RsMerkle.reference (notaryCalls.foldl call (signOf extensions)) nameHash notaryProvider
      sampleUid = .ok attestation ∧
    (AttestationProof.new nameHash notaryProvider attestation :
      Except _ (AttestationProof RsMerkle.reference)) = .error .panic := by
  have hstring : ∀ data ∈ fieldData notaryKey ⟨1, .v1_2, ⟨2, 3⟩⟩ ⟨.secp256r1, [4]⟩
      ⟨⟨polyHash.id, polyHash.hash [1]⟩⟩ none extensions, (data.string nameHash).isSome = true := by
    intro data hdata
    rw [fieldData, Option.toList_none, List.map_nil, List.append_nil, List.mem_append] at hdata
    rcases hdata with hfixed | hextension
    · have : ∀ data ∈ [FieldData.verifyingKey notaryKey, .connectionInfo ⟨1, .v1_2, ⟨2, 3⟩⟩,
          .serverEphemKey ⟨.secp256r1, [4]⟩,
          .serverCertCommitment ⟨⟨polyHash.id, polyHash.hash [1]⟩⟩],
          (data.string nameHash).isSome = true := by
        decide +kernel
      exact this data hfixed
    · obtain ⟨e, he, rfl⟩ := List.mem_map.mp hextension
      rw [hall e he]
      decide +kernel
  obtain ⟨state, hstate⟩ : ∃ state, state = notaryCalls.foldl call (signOf extensions) := ⟨_, rfl⟩
  have hhasher : notaryProvider.hash.get state.hashAlg = .ok polyHash := by rw [hstate]; rfl
  have hsigner : notaryProvider.signer.get state.signatureAlg = .ok notarySigner := by
    rw [hstate]; rfl
  have hencoding : encodingCommitment state = .ok none := by rw [hstate]; rfl
  have hinfo : state.connectionInfo = some ⟨1, .v1_2, ⟨2, 3⟩⟩ := by rw [hstate]; rfl
  have hephemeral : state.serverEphemeralKey = some ⟨.secp256r1, [4]⟩ := by rw [hstate]; rfl
  have hdata : ∀ data ∈ fieldData notaryKey ⟨1, .v1_2, ⟨2, 3⟩⟩ ⟨.secp256r1, [4]⟩
      state.certCommitment none state.extensions, (data.string nameHash).isSome = true := by
    rw [hstate]
    exact hstring
  obtain ⟨attestation, hbuild⟩ := build_of hhasher hsigner hencoding hinfo hephemeral hdata
    fun bytes => ⟨_, rfl⟩
  rw [hstate] at hbuild
  obtain ⟨hasher, signer, hbuilt⟩ := build_ok hbuild
  refine ⟨attestation, hbuild, new_of_wrapped notaryProvider_correct hbuilt ?_⟩
  have hfields := hbuilt.length_fields
  change _ = 4 + 0 + extensions.length at hfields
  omega

/-- With `2 ^ 32` extensions an attestation is built, and no proof of it can be made. -/
theorem new_of_many_extensions : ∃ attestation,
    build RsMerkle.reference
      (notaryCalls.foldl call (signOf (List.replicate (2 ^ 32) sampleExtension))) nameHash
      notaryProvider sampleUid = .ok attestation ∧
    (AttestationProof.new nameHash notaryProvider attestation :
      Except _ (AttestationProof RsMerkle.reference)) = .error .panic ∧
    ¬ Complete RsMerkle.reference nameHash notaryProvider
      (requestOf (List.replicate (2 ^ 32) sampleExtension)) attestation := by
  obtain ⟨attestation, hbuild, hnew⟩ := new_of_extensions
    (Nat.le_of_eq (List.length_replicate).symm) fun e he => (List.mem_replicate.mp he).2
  refine ⟨attestation, hbuild, hnew, fun hcomplete => ?_⟩
  obtain ⟨proof, hproof, -⟩ := hcomplete.proof
  rw [hnew] at hproof
  cases hproof

end AttestationBuilder

end Tlsn.Core

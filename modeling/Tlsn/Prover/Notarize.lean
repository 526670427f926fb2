import Tlsn.Core.Disclosure
import Tlsn.Core.RequestBuilder

/-!
The prover's side of a notarization up to the request: the tree of the encodings
to commit to, and the request with its root. The hash algorithm of the tree is the
one of the request, whatever the configuration of the commitments says, and a tree
is built as soon as there is an encoding commitment, be it empty.
-/

namespace Tlsn.Prover

open Tlsn.Core

namespace ProverError

inductive ErrorKind where
  | io
  | mpc
  | zk
  | config
  | commit
  | attestation
deriving DecidableEq

inductive Source where
  | provider (e : HashProviderError)
  | tree (e : EncodingTreeError)
  | request (e : RequestBuilderError)

end ProverError

structure ProverError where
  kind : ProverError.ErrorKind
  source : ProverError.Source

/-- What the prover holds when it notarizes. -/
structure NotarizeState where
  serverName : ServerName
  transcriptLength : TranscriptLength
  serverCertData : ServerCertData
  transcript : Transcript
  transcriptCommitConfig : Option TranscriptCommitConfig

/-- What is drawn at random. -/
structure Blinders where
  leaf : Nat → Blinder
  cert : Blinder

section

variable (rs : RsMerkle) (blake3 : Blake3) (blinders : Blinders) (provider : CryptoProvider)
  (encodings : EncodingProvider) (state : NotarizeState) (config : RequestConfig)

/-- The tree that is given to the request builder. -/
def encodingTree (hasher : HashAlgorithm) :
    Except (Fault ProverError) (Option (EncodingTree rs)) :=
  match state.transcriptCommitConfig with
  | none => return none
  | some commitConfig =>
      if commitConfig.hasEncoding then
        some <$> Fault.convert (fun e => ⟨.commit, .tree e⟩)
          (EncodingTree.new hasher commitConfig.iterEncoding encodings state.transcriptLength
            blinders.leaf)
      else return none

/-- The part of `finalize` from the encodings received to the request sent. -/
def buildRequest : Except (Fault ProverError) (Request × Secrets rs) := do
  let hasher ← (provider.hash.get config.hashAlg).mapError fun e =>
    Fault.err ⟨.config, .provider e⟩
  let tree ← encodingTree rs blinders encodings state hasher
  let builder : RequestBuilder rs := {
    config := config
    serverName := some state.serverName
    serverCertData := some state.serverCertData
    encodingTree := tree
    transcript := some state.transcript }
  Fault.convert (fun e => ⟨.attestation, .request e⟩)
    (builder.build blake3 blinders.cert provider)

end

theorem hasEncoding_iff {commitConfig : TranscriptCommitConfig} :
    commitConfig.hasEncoding = true ↔ commitConfig.iterEncoding ≠ [] := by
  unfold TranscriptCommitConfig.hasEncoding TranscriptCommitConfig.iterEncoding
  rw [List.any_eq_true, ← List.length_pos_iff, List.length_pos_iff_exists_mem]
  simp only [List.mem_filterMap, decide_eq_true_eq]
  constructor
  · rintro ⟨⟨di, kind⟩, hc, rfl⟩
    exact ⟨di, ⟨di, .encoding⟩, hc, rfl⟩
  · rintro ⟨di, ⟨di', kind⟩, hc, h⟩
    cases kind with
    | encoding => exact ⟨_, hc, rfl⟩
    | hash alg => cases h

section Outcome

variable {rs : RsMerkle} {blake3 : Blake3} {blinders : Blinders} {provider : CryptoProvider}
  {encodings : EncodingProvider} {state : NotarizeState} {config : RequestConfig}

/-- The configuration holds an encoding commitment that is not empty. -/
def HasNonEmpty (commitConfig : TranscriptCommitConfig) : Prop :=
  ∃ di ∈ commitConfig.iterEncoding, di.2.vals ≠ []

/-- The root is the one of the tree of the encodings, computed with the algorithm which the
configuration chose for it. -/
def RootOf (rs : RsMerkle) (blinders : Blinders) (provider : CryptoProvider)
    (encodings : EncodingProvider) (transcriptLength : TranscriptLength)
    (commitConfig : TranscriptCommitConfig) (root : TypedHash) : Prop :=
  ∃ (hasher : HashAlgorithm) (tree : EncodingTree rs),
    (∃ id, provider.hash.get id = .ok hasher) ∧ hasher.id = commitConfig.encodingHashAlg ∧
    EncodingTree.new hasher commitConfig.iterEncoding encodings transcriptLength blinders.leaf =
      .ok tree ∧
    (tree.root : Except (Fault Empty) _) = .ok root

/-- The request is built or refused, and carries the root it should. -/
structure Notarized (rs : RsMerkle) (blake3 : Blake3) (blinders : Blinders)
    (provider : CryptoProvider) (encodings : EncodingProvider) (state : NotarizeState)
    (config : RequestConfig) (commitConfig : TranscriptCommitConfig) : Prop where
  returns : buildRequest rs blake3 blinders provider encodings
    { state with transcriptCommitConfig := some commitConfig } config ≠ .error .panic
  root : ∀ request secrets, buildRequest rs blake3 blinders provider encodings
    { state with transcriptCommitConfig := some commitConfig } config = .ok (request, secrets) →
    (request.encodingCommitmentRoot.isSome = true ↔ HasNonEmpty commitConfig) ∧
    ∀ r, request.encodingCommitmentRoot = some r →
      RootOf rs blinders provider encodings state.transcriptLength commitConfig r

/-- When it is: with the request's hash algorithm known, no encoding is reached that is too long
to be hashed; and with all encodings committed, the certificate data can be serialized and,
where there is an encoding commitment, one is not empty and the algorithm is the one chosen
for the tree. -/
structure Notarizable (blinders : Blinders) (encodings : EncodingProvider) (state : NotarizeState)
    (commitConfig : TranscriptCommitConfig) (hasher : HashAlgorithm) : Prop where
  short : ∀ before di after, commitConfig.iterEncoding = before ++ di :: after →
    (∀ x ∈ before, EncodingTree.Provided encodings state.transcriptLength x) →
    ¬ EncodingTree.TooLong encodings state.transcriptLength di
  committed : (∀ di ∈ commitConfig.iterEncoding,
      EncodingTree.Provided encodings state.transcriptLength di) →
    ¬ (ServerCertOpening.new state.serverCertData blinders.cert).TooLong ∧
    (commitConfig.iterEncoding ≠ [] →
      HasNonEmpty commitConfig ∧ hasher.id = commitConfig.encodingHashAlg)

section

variable {commitConfig : TranscriptCommitConfig} {hasher : HashAlgorithm}

theorem encodingTree_of_nil (hnil : commitConfig.iterEncoding = []) :
    encodingTree rs blinders encodings { state with transcriptCommitConfig := some commitConfig }
      hasher = .ok none := by
  have hnot : ¬ commitConfig.hasEncoding = true := fun h => hasEncoding_iff.mp h hnil
  simp only [encodingTree, hnot]
  rfl

theorem encodingTree_of_ne_nil (hne : commitConfig.iterEncoding ≠ []) :
    encodingTree rs blinders encodings { state with transcriptCommitConfig := some commitConfig }
      hasher = some <$> Fault.convert (fun e => ⟨.commit, .tree e⟩)
        (EncodingTree.new hasher commitConfig.iterEncoding encodings state.transcriptLength
          blinders.leaf) := by
  simp only [encodingTree, hasEncoding_iff.mpr hne, if_true]

theorem encodingTree_panic_iff :
    encodingTree rs blinders encodings { state with transcriptCommitConfig := some commitConfig }
        hasher = .error .panic ↔
      ∃ before di after, commitConfig.iterEncoding = before ++ di :: after ∧
        (∀ x ∈ before, EncodingTree.Provided encodings state.transcriptLength x) ∧
        EncodingTree.TooLong encodings state.transcriptLength di := by
  by_cases hnil : commitConfig.iterEncoding = []
  · rw [encodingTree_of_nil hnil, hnil]
    simp
  · rw [encodingTree_of_ne_nil hnil, map_eq_pure_bind, Fault.bind_error_iff,
      Fault.convert_panic_iff, EncodingTree.new_panic_iff]
    refine or_iff_left ?_
    rintro ⟨tree, -, h⟩
    cases h

theorem encodingTree_ok_iff {tree : Option (EncodingTree rs)} :
    encodingTree rs blinders encodings { state with transcriptCommitConfig := some commitConfig }
        hasher = .ok tree ↔
      commitConfig.iterEncoding = [] ∧ tree = none ∨
      commitConfig.iterEncoding ≠ [] ∧ ∃ t, tree = some t ∧
        EncodingTree.new hasher commitConfig.iterEncoding encodings state.transcriptLength
          blinders.leaf = .ok t := by
  by_cases hnil : commitConfig.iterEncoding = []
  · rw [encodingTree_of_nil hnil]
    simp [hnil, eq_comm]
  · rw [encodingTree_of_ne_nil hnil, map_eq_pure_bind, Fault.bind_ok_iff]
    simp only [hnil, false_and, false_or, Fault.convert_ok_iff, ne_eq, not_false_eq_true, true_and]
    constructor
    · rintro ⟨t, hnew, h⟩
      cases h
      exact ⟨t, rfl, hnew⟩
    · rintro ⟨t, rfl, hnew⟩
      exact ⟨t, hnew, rfl⟩

theorem buildRequest_eq (hget : provider.hash.get config.hashAlg = .ok hasher) :
    buildRequest rs blake3 blinders provider encodings state config =
      encodingTree rs blinders encodings state hasher >>= fun tree =>
        Fault.convert (fun e => ⟨.attestation, .request e⟩)
          (RequestBuilder.build blake3 blinders.cert ⟨config, some state.serverName,
            some state.serverCertData, tree, some state.transcript⟩ provider) := by
  unfold buildRequest
  rw [hget]
  rfl

theorem buildRequest_panic_iff (hget : provider.hash.get config.hashAlg = .ok hasher) :
    buildRequest rs blake3 blinders provider encodings state config = .error .panic ↔
      encodingTree rs blinders encodings state hasher = .error .panic ∨
      ∃ tree, encodingTree rs blinders encodings state hasher = .ok tree ∧
        ((ServerCertOpening.new state.serverCertData blinders.cert).TooLong ∨
          (RequestBuilder.encodingRoot tree : Except (Fault RequestBuilderError) _) =
            .error .panic) := by
  simp only [buildRequest_eq hget, Fault.bind_error_iff, Fault.convert_panic_iff,
    RequestBuilder.build_panic_iff hget]

theorem buildRequest_ok {request : Request} {secrets : Secrets rs}
    (h : buildRequest rs blake3 blinders provider encodings state config =
      .ok (request, secrets)) :
    ∃ hasher tree, provider.hash.get config.hashAlg = .ok hasher ∧
      encodingTree rs blinders encodings state hasher = .ok tree ∧
      (RequestBuilder.encodingRoot tree : Except (Fault RequestBuilderError) _) =
        .ok request.encodingCommitmentRoot := by
  cases hget : provider.hash.get config.hashAlg with
  | error e =>
      unfold buildRequest at h
      rw [hget] at h
      cases h
  | ok hasher =>
      rw [buildRequest_eq hget] at h
      obtain ⟨tree, htree, h⟩ := Fault.bind_ok_iff.mp h
      exact ⟨hasher, tree, rfl, htree,
        RequestBuilder.encodingRoot_of_build hget (Fault.convert_ok_iff.mp h)⟩

theorem encodingRoot_some {tree : EncodingTree rs} {root : TypedHash}
    (h : ∀ ε : Type, (tree.root : Except (Fault ε) _) = .ok root) :
    (RequestBuilder.encodingRoot (some tree) : Except (Fault RequestBuilderError) _) =
      .ok (some root) := by
  simp only [RequestBuilder.encodingRoot, h]
  rfl

theorem buildRequest_of_root (blake3 : Blake3) {tree : Option (EncodingTree rs)}
    {root : Option TypedHash} (hget : provider.hash.get config.hashAlg = .ok hasher)
    (htree : encodingTree rs blinders encodings state hasher = .ok tree)
    (hshort : ¬ (ServerCertOpening.new state.serverCertData blinders.cert).TooLong)
    (hroot : (RequestBuilder.encodingRoot tree : Except (Fault RequestBuilderError) _) =
      .ok root) :
    ∃ request secrets, buildRequest rs blake3 blinders provider encodings state config =
      .ok (request, secrets) ∧ request.encodingCommitmentRoot = root := by
  obtain ⟨commitment, hcommit⟩ := (ServerCertOpening.commit_outcome (ε := RequestBuilderError)
    blake3 (ServerCertOpening.new state.serverCertData blinders.cert) hasher).2 hshort
  refine ⟨⟨config.signatureAlg, config.hashAlg, commitment, root, config.extensions⟩,
    ⟨state.serverName, ServerCertOpening.new state.serverCertData blinders.cert, tree,
      Index.empty, state.transcript⟩, ?_, rfl⟩
  rw [buildRequest_eq hget, Fault.bind_ok_iff]
  refine ⟨tree, htree, Fault.convert_ok_iff.mpr ?_⟩
  rw [RequestBuilder.build_eq hget]
  exact Fault.bind_ok_iff.mpr ⟨commitment, hcommit, Fault.bind_ok_iff.mpr ⟨root, hroot, rfl⟩⟩

theorem provided_of_encodingTree {tree : Option (EncodingTree rs)}
    (h : encodingTree rs blinders encodings
      { state with transcriptCommitConfig := some commitConfig } hasher = .ok tree) :
    ∀ di ∈ commitConfig.iterEncoding,
      EncodingTree.Provided encodings state.transcriptLength di := by
  cases encodingTree_ok_iff.mp h with
  | inl hnone =>
      rw [hnone.1]
      exact List.forall_mem_nil _
  | inr hsome =>
      obtain ⟨-, t, -, hnew⟩ := hsome
      exact fun di hdi => (EncodingTree.new_ok_iff.mp ⟨t, hnew⟩ di hdi).1

theorem encodingTree_of_provided (rs : RsMerkle) (blinders : Blinders) (hasher : HashAlgorithm)
    (hshort : ∀ before di after, commitConfig.iterEncoding = before ++ di :: after →
      (∀ x ∈ before, EncodingTree.Provided encodings state.transcriptLength x) →
      ¬ EncodingTree.TooLong encodings state.transcriptLength di)
    (hprovided : ∀ di ∈ commitConfig.iterEncoding,
      EncodingTree.Provided encodings state.transcriptLength di) :
    ∃ tree, encodingTree rs blinders encodings
      { state with transcriptCommitConfig := some commitConfig } hasher = .ok tree := by
  by_cases hnil : commitConfig.iterEncoding = []
  · exact ⟨none, encodingTree_ok_iff.mpr (.inl ⟨hnil, rfl⟩)⟩
  · have hall : ∀ di ∈ commitConfig.iterEncoding,
        EncodingTree.Provided encodings state.transcriptLength di ∧
          ¬ EncodingTree.TooLong encodings state.transcriptLength di := by
      intro di hdi
      obtain ⟨before, after, heq⟩ := List.append_of_mem hdi
      exact ⟨hprovided di hdi, hshort before di after heq fun x hx =>
        hprovided x (heq ▸ List.mem_append_left _ hx)⟩
    obtain ⟨t, hnew⟩ := EncodingTree.new_ok_iff.mpr hall
    exact ⟨some t, encodingTree_ok_iff.mpr (.inr ⟨hnil, t, rfl, hnew⟩)⟩

/-- The prover notarizes a configuration exactly under these conditions. -/
theorem notarized_iff :
    Notarized rs blake3 blinders provider encodings state config commitConfig ↔
      ∀ hasher, provider.hash.get config.hashAlg = .ok hasher →
        Notarizable blinders encodings state commitConfig hasher := by
  constructor
  · intro h hasher hget
    have hpanic := (not_congr (buildRequest_panic_iff hget)).mp h.returns
    rw [not_or, encodingTree_panic_iff] at hpanic
    obtain ⟨hlong, habort⟩ := hpanic
    have hshort : ∀ before di after, commitConfig.iterEncoding = before ++ di :: after →
        (∀ x ∈ before, EncodingTree.Provided encodings state.transcriptLength x) →
        ¬ EncodingTree.TooLong encodings state.transcriptLength di :=
      fun before di after heq hbefore htoo => hlong ⟨before, di, after, heq, hbefore, htoo⟩
    refine ⟨hshort, ?_⟩
    intro hprovided
    obtain ⟨tree, htree⟩ := encodingTree_of_provided rs blinders hasher hshort hprovided
    have hcert : ¬ (ServerCertOpening.new state.serverCertData blinders.cert).TooLong :=
      fun htoo => habort ⟨tree, htree, .inl htoo⟩
    refine ⟨hcert, ?_⟩
    intro hne
    obtain ⟨hnil, -⟩ | ⟨-, t, rfl, hnew⟩ := encodingTree_ok_iff.mp htree
    · exact absurd hnil hne
    · have hnonempty : HasNonEmpty commitConfig := by
        by_contra hempty
        refine habort ⟨some t, htree, .inr ?_⟩
        simp only [RequestBuilder.encodingRoot, EncodingTree.root_panic_of_new hnew hempty]
        rfl
      refine ⟨hnonempty, ?_⟩
      -- the request carries the root under the identifier of the hasher used
      obtain ⟨r, hr⟩ := EncodingTree.root_of_new hnew hnonempty
      obtain ⟨request, secrets, hbuild, hroot⟩ :=
        buildRequest_of_root blake3 hget htree hcert (encodingRoot_some hr)
      obtain ⟨hasher', tree', -, hid, hnew', hroot'⟩ := (h.root request secrets hbuild).2 _ hroot
      obtain ⟨leaves, -, htree'⟩ := EncodingTree.committed_of_new hnew'
      obtain ⟨r', heq, -⟩ := EncodingTree.root_ok htree' hroot'
      exact (congrArg TypedHash.alg heq).trans hid
  · intro h
    constructor
    · intro hpanic
      cases hget : provider.hash.get config.hashAlg with
      | error e =>
          unfold buildRequest at hpanic
          rw [hget] at hpanic
          cases hpanic
      | ok hasher =>
          obtain ⟨hshort, hcommitted⟩ := h hasher hget
          cases (buildRequest_panic_iff hget).mp hpanic with
          | inl htree =>
              obtain ⟨before, di, after, heq, hbefore, htoo⟩ := encodingTree_panic_iff.mp htree
              exact hshort before di after heq hbefore htoo
          | inr hbuild =>
              obtain ⟨tree, htree, habort⟩ := hbuild
              obtain ⟨hcert, hne⟩ := hcommitted (provided_of_encodingTree htree)
              have hroot := habort.resolve_left hcert
              obtain ⟨-, rfl⟩ | ⟨hnil, t, rfl, hnew⟩ := encodingTree_ok_iff.mp htree
              · cases hroot
              · obtain ⟨r, hr⟩ := EncodingTree.root_of_new hnew (hne hnil).1
                cases hroot.symm.trans (encodingRoot_some hr)
    · intro request secrets hbuild
      obtain ⟨hasher, tree, hget, htree, hroot⟩ := buildRequest_ok hbuild
      have hcommitted := ((h hasher hget).committed (provided_of_encodingTree htree)).2
      obtain ⟨hnil, rfl⟩ | ⟨hne, t, rfl, hnew⟩ := encodingTree_ok_iff.mp htree
      · rw [← Except.ok.inj (show Except.ok none = _ from hroot)]
        simp [HasNonEmpty, hnil]
      · obtain ⟨hnonempty, hid⟩ := hcommitted hne
        obtain ⟨r, hr⟩ := EncodingTree.root_of_new hnew hnonempty
        have hsome : request.encodingCommitmentRoot = some ⟨hasher.id, r⟩ :=
          Except.ok.inj (hroot.symm.trans (encodingRoot_some hr))
        rw [hsome]
        refine ⟨iff_of_true rfl hnonempty, ?_⟩
        rintro _ ⟨⟩
        exact ⟨hasher, t, ⟨_, hget⟩, hid, hnew, hr Empty⟩

end

end Outcome

/-! ## An empty commitment -/

def emptyCommits : List TranscriptCommitConfigBuilder.Call := [.commit RangeSet.empty .sent]

def emptyConfig : TranscriptCommitConfig :=
  ⟨HashAlgId.blake3, [((.sent, RangeSet.empty), .encoding)]⟩

def emptyState : NotarizeState where
  serverName := ⟨"example.com"⟩
  transcriptLength := sampleTranscript.length
  serverCertData := ⟨[⟨[1]⟩], ⟨.ed25519, [2]⟩,
    .v1_2 ⟨Vector.replicate 32 0, Vector.replicate 32 0, ⟨.secp256r1, [3]⟩⟩⟩
  transcript := sampleTranscript
  transcriptCommitConfig := some emptyConfig

theorem empty_commitment_panics :
    ¬ ∀ (calls : List TranscriptCommitConfigBuilder.Call) (builder : TranscriptCommitConfigBuilder)
      (commitConfig : TranscriptCommitConfig),
      calls.foldlM TranscriptCommitConfigBuilder.call
        (TranscriptCommitConfigBuilder.new sampleTranscript) = .ok builder →
      builder.Builds commitConfig →
      Notarized RsMerkle.reference (fun _ => Vector.replicate 32 0)
        ⟨sampleBlinders, ⟨Vector.replicate 16 0⟩⟩ sampleProvider sampleEncodings emptyState
        RequestConfig.default commitConfig := by
  intro h
  refine (h emptyCommits _ emptyConfig rfl ⟨rfl, List.Perm.refl _⟩).returns ?_
  rfl

end Tlsn.Prover

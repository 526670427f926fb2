import Tlsn.Core.EncodingSoundness
import Tlsn.Core.TranscriptProof

/-!
Selective disclosure from end to end: what a prover reveals is what the verifier
authenticates. The builder opens committed indices which lie within the query and
together make up the query; every opening of a built tree is accepted; and the
bytes which the openings put into the partial transcript are the transcript's.
-/

namespace Tlsn.Core

variable {rs : RsMerkle} {chacha : ChaCha12} {secret : EncoderSecret} {transcript : Transcript}
  {encodings : EncodingProvider} {hasher : HashAlgorithm} {l : TranscriptLength}
  {provider : CryptoProvider} {tree : EncodingTree rs}

/-- Total length of the data a proof opens. -/
def EncodingProof.totalOpened (proof : EncodingProof rs) : Nat :=
  (proof.openings.entries.map fun e => e.2.seq.data.length).sum

/-- The same proof, its openings listed in some order. -/
structure EncodingProof.Reorders (proof proof' : EncodingProof rs) : Prop where
  inclusionProof : proof'.inclusionProof = proof.inclusionProof
  openings : proof'.openings.entries.Perm proof.openings.entries

/-- The same proof, the openings of its encoding proof listed in some order. -/
structure TranscriptProof.Reorders (proof proof' : TranscriptProof rs) : Prop where
  encodingProof : Option.Rel EncodingProof.Reorders proof.encodingProof proof'.encodingProof
  hashProofs : proof'.hashProofs = proof.hashProofs

theorem TranscriptProof.Reorders.refl (proof : TranscriptProof rs) : proof.Reorders proof := by
  refine ⟨?_, rfl⟩
  cases proof.encodingProof with
  | none => exact .none
  | some p => exact .some ⟨rfl, List.Perm.refl _⟩

/-- Openings of an honest tree reproduce its leaves. -/
theorem EncodingTree.Opens.leaf_eq {leaves : List Hash} {entry : Nat × Opening}
    (h : tree.Opens transcript entry)
    (hp : ProvidesEncodings chacha secret transcript encodings)
    (hc : EncodingTree.Committed hasher encodings l tree leaves) :
    entry.2.seq.idx.stop ≤ l.ofDirection entry.2.direction ∧
      (entry.2.leaf chacha (ChaChaEncoder.new secret)).data.encoding.length ≤ maxSequenceLength ∧
      leaves[entry.1]? =
        some (hasher.hash (entry.2.leaf chacha (ChaChaEncoder.new secret)).bytes) := by
  have hmem : (entry.2.direction, entry.2.seq.idx) ∈ tree.transcriptIndices :=
    List.mem_map.mpr ⟨_, h.leaf, rfl⟩
  obtain ⟨-, hstop, encoding, hprov, hlen⟩ := hc.encoded _ _ hmem
  obtain ⟨seq, hget, rfl⟩ := hp _ _ _ hprov
  obtain rfl : entry.2.seq = seq := Option.some.inj (h.data.symm.trans hget)
  refine ⟨hstop, hlen, ?_⟩
  rw [hc.leaves, List.getElem?_map, hc.getElem?_leafStrings h.leaf h.blinder, hprov]
  rfl

namespace EncodingProof

/-- The verifier's loop over honest openings of bounded total length succeeds. -/
theorem verifyOpening_complete {leaves : List Hash} {entries : List (Nat × Opening)}
    (hp : ProvidesEncodings chacha secret transcript encodings)
    (hc : EncodingTree.Committed hasher encodings l tree leaves)
    (hopens : ∀ e ∈ entries, tree.Opens transcript e)
    (hmax : (entries.map fun e => e.2.seq.data.length).sum ≤ maxTotalCommittedData) :
    ∃ st, entries.foldlM (verifyOpening chacha (ChaChaEncoder.new secret) hasher l)
        ⟨[], PartialTranscript.new l.sent.toNat l.received.toNat, 0⟩ = .ok st ∧
      st.transcript.Agrees l transcript.byte := by
  obtain ⟨st, hloop, -, hagrees⟩ := Fault.foldlM_ok
    (P := fun pre (st : Verification) =>
      st.totalOpened = (pre.map fun e => e.2.seq.data.length).sum ∧
        st.transcript.Agrees l transcript.byte)
    (f := verifyOpening chacha (ChaChaEncoder.new secret) hasher l) (l := entries)
    (b := ⟨[], PartialTranscript.new l.sent.toNat l.received.toNat, 0⟩)
    ⟨rfl, PartialTranscript.agrees_new l transcript.byte⟩
    (by
      rintro pre entry post st hentries ⟨htotal, hagrees⟩
      have hopen := hopens entry (by simp [hentries])
      obtain ⟨hstop, hlen, -⟩ := hopen.leaf_eq hp hc
      obtain ⟨-, -, hdata⟩ := Transcript.get_eq_some hopen.data
      obtain ⟨t', ht', hagrees', -⟩ := PartialTranscript.unionSubsequence_agrees
        (ε := EncodingProofError) hagrees entry.2.direction entry.2.seq hdata hstop
      have hsum : st.totalOpened + entry.2.seq.data.length ≤ maxTotalCommittedData := by
        rw [hentries] at hmax
        simp only [List.map_append, List.map_cons, List.sum_append, List.sum_cons] at hmax
        omega
      exact ⟨_, verifyOpening_ok_iff.mpr ⟨hsum, hstop, hlen, t', ht', rfl⟩,
        by simp [htotal], hagrees'⟩)
  exact ⟨st, hloop, hagrees⟩

/-- The proof a tree makes for committed indices is accepted, and authenticates
the positions of these indices. -/
theorem verify_proof {blinders : Nat → Blinder} {idxs dirIdxs : List (Direction × Idx)}
    {p p' : EncodingProof rs} {root : TypedHash}
    (hnew : EncodingTree.new hasher idxs encodings l blinders = .ok tree)
    (hp : ProvidesEncodings chacha secret transcript encodings)
    (hget : provider.hash.get hasher.id = .ok hasher)
    (hroot : (tree.root : Except (Fault Empty) _) = .ok root)
    (hproof : tree.proof transcript dirIdxs = .ok p) (horder : p.Reorders p')
    (hmax : p.totalOpened ≤ maxTotalCommittedData) :
    ∃ t, p'.verifyWithProvider chacha provider l ⟨root, secret⟩ = .ok t ∧
      t.Agrees l transcript.byte ∧
      ∀ d n, n ∈ t.authed d ↔ ∃ idx, (d, idx) ∈ dirIdxs ∧ n ∈ idx := by
  obtain ⟨leaves, hc, htree⟩ := EncodingTree.committed_of_new hnew
  obtain ⟨hopens, hall, indices, hindices, hincl⟩ := EncodingTree.proof_ok hproof
  have hopens' : ∀ e ∈ p'.openings.entries, tree.Opens transcript e := fun e he =>
    (hopens e (horder.openings.mem_iff.mp he)).1
  have hmax' : (p'.openings.entries.map fun e => e.2.seq.data.length).sum ≤
      maxTotalCommittedData := by
    rw [(horder.openings.map _).sum_nat]
    exact hmax
  obtain ⟨r, rfl, hr⟩ : ∃ r, root = ⟨hasher.id, r⟩ ∧
      rs.root (rs.commit hasher.hash rs.empty leaves) = some r :=
    EncodingTree.root_ok htree hroot
  obtain ⟨st, hloop, hagrees⟩ := verifyOpening_complete hp hc hopens' hmax'
  obtain ⟨hleaves, -⟩ := verifyOpening_leaves hloop
  rw [List.nil_append] at hleaves
  have hkeys : (p'.openings.entries.map (openedLeaf chacha (ChaChaEncoder.new secret) hasher)).map
      Prod.fst = p'.openings.keys := by
    simp only [List.map_map, AssocMap.keys]
    rfl
  have hverify : p'.inclusionProof.verify hasher ⟨hasher.id, r⟩ st.leaves = .ok () := by
    rw [htree] at hincl
    rw [horder.inclusionProof, hleaves]
    refine MerkleProof.verify_of_proof hr hincl ?_ ?_ ?_
    · rw [hkeys]
      exact p'.openings.nodup
    · rw [hkeys]
      exact hindices.trans (horder.openings.map Prod.fst).symm
    · intro leaf hleaf
      obtain ⟨e, he, rfl⟩ := List.mem_map.mp hleaf
      exact ((hopens' e he).leaf_eq hp hc).2.2
  refine ⟨st.transcript, verifyWithProvider_ok_iff.mpr
    ⟨hasher, st.leaves, st.totalOpened, hget, hloop, hverify⟩, hagrees, ?_⟩
  intro d n
  rw [mem_authed_verifyOpening hloop]
  constructor
  · rintro (hinit | ⟨e, he, rfl, hn⟩)
    · cases d <;> simp [PartialTranscript.new, PartialTranscript.authed] at hinit
    · exact ⟨_, (hopens e (horder.openings.mem_iff.mp he)).2, hn⟩
  · rintro ⟨idx, hmem, hn⟩
    obtain ⟨e, he, heq⟩ := hall (d, idx) hmem
    cases heq
    exact .inr ⟨e, horder.openings.mem_iff.mpr he, rfl, hn⟩

end EncodingProof

namespace TranscriptProofBuilder

inductive Call where
  | commitmentKinds (kinds : List TranscriptCommitmentKind)
  | reveal (ranges : Idx) (direction : Direction)

def call (builder : TranscriptProofBuilder rs) :
    Call → Except TranscriptProofBuilderError (TranscriptProofBuilder rs)
  | .commitmentKinds kinds => .ok (builder.setCommitmentKinds kinds)
  | .reveal ranges direction => builder.reveal ranges direction

/-- The union of the ranges revealed in one direction. -/
def revealed (calls : List Call) (d : Direction) : Idx :=
  RangeSet.ofList (calls.flatMap fun c =>
    match c with
    | .commitmentKinds _ => []
    | .reveal ranges direction => if direction = d then ranges.vals else [])

/-- One call adds the ranges it reveals to the query, and keeps the rest. -/
theorem call_ok {builder builder' : TranscriptProofBuilder rs} {c : Call}
    (h : builder.call c = .ok builder') :
    builder'.transcript = builder.transcript ∧ builder'.encodingTree = builder.encodingTree ∧
      ∀ d n, n ∈ builder'.queryIdx.idx d ↔ n ∈ builder.queryIdx.idx d ∨ n ∈ revealed [c] d := by
  cases c with
  | commitmentKinds kinds =>
      cases h
      unfold setCommitmentKinds
      split <;> exact ⟨rfl, rfl, by simp [revealed]⟩
  | reveal ranges direction =>
      simp only [call, reveal] at h
      split at h
      · cases h
      · split at h
        · cases h
          refine ⟨rfl, rfl, ?_⟩
          intro d n
          rw [QueryIdx.idx_union]
          by_cases hd : d = direction
          · subst hd
            simp [revealed, ← RangeSet.mem_def]
          · simp [revealed, hd, Ne.symm hd]
        · cases h

theorem calls_ok {builder builder' : TranscriptProofBuilder rs} {calls : List Call}
    (h : calls.foldlM call builder = .ok builder') :
    builder'.transcript = builder.transcript ∧ builder'.encodingTree = builder.encodingTree ∧
      ∀ d n, n ∈ builder'.queryIdx.idx d ↔ n ∈ builder.queryIdx.idx d ∨ n ∈ revealed calls d := by
  refine Fault.foldlM_invariant (P := fun pre (b : TranscriptProofBuilder rs) =>
    b.transcript = builder.transcript ∧ b.encodingTree = builder.encodingTree ∧
      ∀ d n, n ∈ b.queryIdx.idx d ↔ n ∈ builder.queryIdx.idx d ∨ n ∈ revealed pre d)
    ⟨rfl, rfl, by simp [revealed]⟩ ?_ h
  rintro pre c post b b' - ⟨htr, htree, hquery⟩ hcall
  obtain ⟨htr', htree', hquery'⟩ := call_ok hcall
  refine ⟨htr'.trans htr, htree'.trans htree, ?_⟩
  intro d n
  rw [hquery', hquery]
  simp only [revealed, RangeSet.mem_ofList, List.flatMap_append, List.mem_append, or_assoc]

theorem coverEncoding_ok {cover : Cover} {uncovered uncovered' : QueryIdx}
    {proof proof' : TranscriptProof rs}
    (h : coverEncoding cover transcript tree uncovered proof = .ok (uncovered', proof')) :
    ∃ dirIdxs, (∀ di ∈ dirIdxs, ∀ n, n ∈ di.2 → n ∈ uncovered.idx di.1) ∧
      (∀ d n, n ∈ uncovered.idx d → n ∈ uncovered'.idx d ∨ ∃ idx, (d, idx) ∈ dirIdxs ∧ n ∈ idx) ∧
      ((dirIdxs = [] ∧ proof' = proof) ∨
        ∃ p, tree.proof transcript dirIdxs = .ok p ∧
          proof' = { proof with encodingProof := some p }) := by
  unfold coverEncoding at h
  dsimp only at h
  set items := fun d => tree.transcriptIndices.filter fun di => decide (di.1 = d) with hitems
  have hdir : ∀ (d : Direction) (q : Idx), ∀ di ∈ (cover.coverBy q (items d) Prod.snd).1,
      di.1 = d := by
    intro d q di hdi
    have := cover.mem _ _ _ di hdi
    simpa [hitems] using (List.mem_filter.mp this).2
  have hcovered : ∀ (d : Direction) (q : Idx) (n : Nat), n ∈ q →
      n ∈ (cover.coverBy q (items d) Prod.snd).2 ∨
        ∃ idx, (d, idx) ∈ (cover.coverBy q (items d) Prod.snd).1 ∧ n ∈ idx := by
    intro d q n hn
    by_contra hnot
    rw [not_or] at hnot
    refine hnot.1 ((cover.uncovered _ _ _ n).mpr ⟨hn, ?_⟩)
    intro di hdi hmem
    exact hnot.2 ⟨di.2, hdir d q di hdi ▸ hdi, hmem⟩
  refine ⟨(cover.coverBy uncovered.sent (items .sent) Prod.snd).1 ++
    (cover.coverBy uncovered.recv (items .received) Prod.snd).1, ?_, ?_, ?_⟩
  · intro di hdi n hn
    rcases List.mem_append.mp hdi with hdi | hdi
    · rw [hdir .sent _ di hdi]
      exact cover.subset _ _ _ di hdi n hn
    · rw [hdir .received _ di hdi]
      exact cover.subset _ _ _ di hdi n hn
  · have hu : uncovered' = ⟨(cover.coverBy uncovered.sent (items .sent) Prod.snd).2,
        (cover.coverBy uncovered.recv (items .received) Prod.snd).2⟩ := by
      split at h
      · cases h
        rfl
      · split at h
        · cases h
          rfl
        · cases h
    rw [hu]
    intro d n hn
    cases d with
    | sent =>
        exact (hcovered .sent _ n hn).imp id fun ⟨idx, hmem, hn⟩ =>
          ⟨idx, List.mem_append_left _ hmem, hn⟩
    | received =>
        exact (hcovered .received _ n hn).imp id fun ⟨idx, hmem, hn⟩ =>
          ⟨idx, List.mem_append_right _ hmem, hn⟩
  · split at h
    · rename_i hempty
      cases h
      exact .inl ⟨List.isEmpty_iff.mp hempty, rfl⟩
    · split at h
      · rename_i p hp
        cases h
        exact .inr ⟨p, hp, rfl⟩
      · cases h

/-- Once encoding commitments have been tried, no further kind is opened. -/
theorem coverKinds_of_not_mem {cover : Cover} {encodingTree : Option (EncodingTree rs)}
    {kinds : List TranscriptCommitmentKind} {uncovered : QueryIdx} {proof : TranscriptProof rs}
    {r : QueryIdx × TranscriptProof rs} (hkinds : TranscriptCommitmentKind.encoding ∉ kinds)
    (h : coverKinds cover transcript encodingTree kinds uncovered proof = .ok r) :
    r = (uncovered, proof) := by
  cases kinds with
  | nil =>
      cases h
      rfl
  | cons kind kinds =>
      unfold coverKinds at h
      split at h
      · cases h
        rfl
      · cases kind with
        | encoding => exact absurd (by simp) hkinds
        | hash alg => cases h

/-- What a builder with an encoding tree builds: an opening of indices which
make up the query exactly. -/
theorem build_ok {cover : Cover} {builder : TranscriptProofBuilder rs}
    {proof : TranscriptProof rs} (htree : builder.encodingTree = some tree)
    (h : builder.build cover = .ok proof) :
    proof.hashProofs = [] ∧
      ((proof.encodingProof = none ∧ ∀ d n, n ∉ builder.queryIdx.idx d) ∨
        ∃ dirIdxs p, tree.proof builder.transcript dirIdxs = .ok p ∧
          proof.encodingProof = some p ∧
          ∀ d n, (∃ idx, (d, idx) ∈ dirIdxs ∧ n ∈ idx) ↔ n ∈ builder.queryIdx.idx d) := by
  unfold build at h
  obtain ⟨⟨uncovered, proof'⟩, hcover, h⟩ := Fault.bind_ok_iff.mp h
  dsimp only at h
  split at h
  · rename_i hempty
    cases h
    obtain hkinds | ⟨kind, kinds, hkinds⟩ : builder.commitmentKinds = [] ∨
        ∃ kind kinds, builder.commitmentKinds = kind :: kinds := by
      cases builder.commitmentKinds with
      | nil => exact .inl rfl
      | cons kind kinds => exact .inr ⟨kind, kinds, rfl⟩
    · rw [hkinds] at hcover
      cases hcover
      exact ⟨rfl, .inl ⟨rfl, QueryIdx.isEmpty_iff.mp hempty⟩⟩
    · have hnodup := builder.nodup
      rw [hkinds] at hnodup hcover
      unfold coverKinds at hcover
      split at hcover
      · cases hcover
        exact ⟨rfl, .inl ⟨rfl, QueryIdx.isEmpty_iff.mp hempty⟩⟩
      · rename_i hquery
        cases kind with
        | hash alg => cases hcover
        | encoding =>
            rw [htree] at hcover
            obtain ⟨⟨u, p'⟩, hencoding, hrest⟩ := Fault.bind_ok_iff.mp hcover
            cases coverKinds_of_not_mem (List.nodup_cons.mp hnodup).1 hrest
            obtain ⟨dirIdxs, hsub, hall, hopen⟩ := coverEncoding_ok hencoding
            have hexact : ∀ d n, (∃ idx, (d, idx) ∈ dirIdxs ∧ n ∈ idx) ↔
                n ∈ builder.queryIdx.idx d := by
              intro d n
              constructor
              · rintro ⟨idx, hmem, hn⟩
                exact hsub (d, idx) hmem n hn
              · intro hn
                exact (hall d n hn).resolve_left (QueryIdx.isEmpty_iff.mp hempty d n)
            obtain ⟨rfl, rfl⟩ | ⟨p, hp, rfl⟩ := hopen
            · refine ⟨rfl, .inl ⟨rfl, ?_⟩⟩
              intro d n hn
              simpa using (hexact d n).mpr hn
            · exact ⟨rfl, .inr ⟨dirIdxs, p, hp, rfl, hexact⟩⟩
  · cases h

end TranscriptProofBuilder

namespace TranscriptProof

/-- A proof without hash openings is verified by its encoding proof alone. -/
theorem verifyWithProvider_of_encoding {proof : TranscriptProof rs} {body : Body}
    {f : Direction → Nat → UInt8} {commitment : EncodingCommitment} {p : EncodingProof rs}
    {t : PartialTranscript} (hhash : proof.hashProofs = []) (hproof : proof.encodingProof = some p)
    (hcommitment : body.encodingCommitment = some commitment)
    (ht : p.verifyWithProvider chacha provider body.transcriptLength commitment = .ok t)
    (hagrees : t.Agrees body.transcriptLength f) :
    ∃ result, proof.verifyWithProvider chacha provider body = .ok result ∧
      result.Agrees body.transcriptLength f ∧ ∀ d, result.authed d = t.authed d := by
  obtain ⟨result, hunion, hagrees', hauthed⟩ := PartialTranscript.unionTranscript_agrees
    (ε := TranscriptProofError) (PartialTranscript.agrees_new body.transcriptLength f) hagrees
  refine ⟨result, ?_, hagrees', ?_⟩
  · unfold verifyWithProvider
    simp only [hproof, hhash, verifyEncoding, hcommitment, ht, Fault.convert,
      Fault.mapError_ok]
    rw [Fault.bind_ok_iff]
    exact ⟨result, hunion, rfl⟩
  · intro d
    rw [hauthed]
    refine RangeSet.ext fun n => ?_
    cases d <;> simp [PartialTranscript.new, PartialTranscript.authed]

end TranscriptProof

/-- Whatever is revealed is authenticated by the verifier of the matching body,
with the transcript's bytes, and nothing else is. -/
theorem TranscriptProofBuilder.verify_of_build {cover : Cover}
    {commits : List TranscriptCommitConfigBuilder.Call}
    {configBuilder : TranscriptCommitConfigBuilder} {config : TranscriptCommitConfig}
    {blinders : Nat → Blinder} {plaintextHashes : Index PlaintextHashSecret} {body : Body}
    {calls : List Call} {builder : TranscriptProofBuilder rs} {proof proof' : TranscriptProof rs}
    (_hcommits : commits.foldlM TranscriptCommitConfigBuilder.call
      (TranscriptCommitConfigBuilder.new transcript) = .ok configBuilder)
    (_hconfig : configBuilder.Builds config)
    (htree : EncodingTree.new hasher config.iterEncoding encodings transcript.length blinders =
      .ok tree)
    (hp : ProvidesEncodings chacha secret transcript encodings)
    (hget : provider.hash.get hasher.id = .ok hasher)
    (hlength : body.transcriptLength = transcript.length)
    (hcommitment : ∀ root, (tree.root : Except (Fault Empty) _) = .ok root →
      body.encodingCommitment = some ⟨root, secret⟩)
    (hcalls : calls.foldlM call (new transcript (some tree) plaintextHashes) = .ok builder)
    (hbuild : builder.build cover = .ok proof)
    (hmax : ∀ p, proof.encodingProof = some p → p.totalOpened ≤ maxTotalCommittedData)
    (horder : proof.Reorders proof') :
    ∃ result, proof'.verifyWithProvider chacha provider body = .ok result ∧
      ∀ d, result.authed d = revealed calls d ∧
        ∀ p, p ∈ result.authed d →
          ∃ b, (result.ofDirection d)[p]? = some b ∧ (transcript.ofDirection d)[p]? = some b := by
  obtain ⟨htr, htree', hquery⟩ := calls_ok hcalls
  have hquery' : ∀ d n, n ∈ builder.queryIdx.idx d ↔ n ∈ revealed calls d := by
    intro d n
    rw [hquery d n]
    cases d <;> simp [new, QueryIdx.new, QueryIdx.idx]
  obtain ⟨hhashes, hproof⟩ := build_ok htree' hbuild
  have hhash : proof'.hashProofs = [] := horder.hashProofs.trans hhashes
  -- what remains once the proof is known to authenticate the query
  have hfinish : ∀ result : PartialTranscript,
      proof'.verifyWithProvider chacha provider body = .ok result →
      result.Agrees body.transcriptLength transcript.byte →
      (∀ d n, n ∈ result.authed d ↔ n ∈ revealed calls d) →
      ∃ result, proof'.verifyWithProvider chacha provider body = .ok result ∧
        ∀ d, result.authed d = revealed calls d ∧
          ∀ p, p ∈ result.authed d → ∃ b, (result.ofDirection d)[p]? = some b ∧
            (transcript.ofDirection d)[p]? = some b := by
    intro result hresult hagrees hauthed
    refine ⟨result, hresult, fun d => ⟨RangeSet.ext (hauthed d), ?_⟩⟩
    intro p hmem
    have hlt : p < transcript.lenOfDirection d := by
      have := RangeSet.stop_le_iff.mp (hagrees.bound d) p hmem
      rw [hlength] at this
      exact Nat.lt_of_lt_of_le this (transcript.length_ofDirection_le d)
    exact ⟨_, hagrees.byte d p hmem, Transcript.getElem?_ofDirection hlt⟩
  obtain ⟨hnone, hempty⟩ | ⟨dirIdxs, p, hopen, hsome, hexact⟩ := hproof
  · have hnone' : proof'.encodingProof = none := by
      have hrel := horder.encodingProof
      rw [hnone] at hrel
      cases h : proof'.encodingProof with
      | none => rfl
      | some q =>
          rw [h] at hrel
          cases hrel
    refine hfinish _ ?_ (PartialTranscript.agrees_new body.transcriptLength transcript.byte) ?_
    · unfold TranscriptProof.verifyWithProvider
      rw [hnone', hhash]
      rfl
    · intro d n
      rw [← hquery' d n]
      have hnot := hempty d n
      cases d <;> simpa [PartialTranscript.new, PartialTranscript.authed] using hnot
  · obtain ⟨p', hp', hreorder⟩ : ∃ p', proof'.encodingProof = some p' ∧ p.Reorders p' := by
      have hrel := horder.encodingProof
      rw [hsome] at hrel
      cases h : proof'.encodingProof with
      | none =>
          rw [h] at hrel
          cases hrel
      | some q =>
          rw [h] at hrel
          cases hrel with
          | some hreorder => exact ⟨q, rfl, hreorder⟩
    rw [htr] at hopen
    obtain ⟨leaves, hc, htreeEq⟩ := EncodingTree.committed_of_new htree
    obtain ⟨root, hroot⟩ : ∃ root, (tree.root : Except (Fault Empty) _) = .ok root := by
      obtain ⟨-, -, indices, -, hincl⟩ := EncodingTree.proof_ok hopen
      rw [htreeEq] at hincl
      obtain ⟨r, hr⟩ := MerkleTree.root_of_proof hincl
      exact ⟨⟨hasher.id, r⟩, by simp [EncodingTree.root, MerkleTree.root, htreeEq, hr]⟩
    obtain ⟨t, ht, hagrees, hauthed⟩ := EncodingProof.verify_proof htree hp hget hroot hopen
      hreorder (hmax p hsome)
    rw [← hlength] at ht hagrees
    obtain ⟨result, hresult, hagrees', heq⟩ := TranscriptProof.verifyWithProvider_of_encoding hhash
      hp' (hcommitment root hroot) ht hagrees
    refine hfinish result hresult hagrees' ?_
    intro d n
    rw [heq d, hauthed d n, hexact d n, hquery' d n]

/-! ## A small instance -/

def sampleCommits : List TranscriptCommitConfigBuilder.Call :=
  [.encodingHashAlg polyHash.id, .commit (RangeSet.ofList [0]) .sent,
    .commit (RangeSet.ofList [0, 1]) .sent, .commit (RangeSet.ofList [0]) .received]

theorem sampleConfig_ok : (sampleCommits.foldlM TranscriptCommitConfigBuilder.call
    (TranscriptCommitConfigBuilder.new sampleTranscript)).toOption.isSome = true := by
  decide +kernel

def sampleConfig : TranscriptCommitConfig :=
  let builder := Option.get _ sampleConfig_ok
  ⟨builder.encodingHashAlg, builder.commits⟩

theorem sampleConfig_builds : (Option.get _ sampleConfig_ok).Builds sampleConfig :=
  ⟨rfl, List.Perm.refl _⟩

theorem disclosureTree_ok : (EncodingTree.new polyHash sampleConfig.iterEncoding sampleEncodings
    sampleTranscript.length sampleBlinders :
      Except _ (EncodingTree RsMerkle.reference)).toOption.isSome = true := by
  decide +kernel

def disclosureTree : EncodingTree RsMerkle.reference := Option.get _ disclosureTree_ok

theorem disclosureRoot_ok :
    (disclosureTree.root : Except (Fault Empty) _).toOption.isSome = true := by
  decide +kernel

def sampleBody : Body :=
  ⟨sampleTranscript.length, some ⟨Option.get _ disclosureRoot_ok, unitSecret⟩, Index.empty⟩

def sampleReveals : List TranscriptProofBuilder.Call :=
  [.reveal (RangeSet.ofList [1]) .sent, .reveal (RangeSet.ofList [0]) .received,
    .reveal (RangeSet.ofList [0]) .sent]

theorem sampleBuilder_ok : (sampleReveals.foldlM TranscriptProofBuilder.call
    (TranscriptProofBuilder.new sampleTranscript (some disclosureTree)
      Index.empty)).toOption.isSome = true := by
  decide +kernel

theorem disclosureProof_ok : (TranscriptProofBuilder.build Cover.reference
    (Option.get _ sampleBuilder_ok)).toOption.isSome = true := by
  decide +kernel

def disclosureProof : TranscriptProof RsMerkle.reference := Option.get _ disclosureProof_ok

theorem TranscriptProofBuilder.verify_of_build_sample :
    ∃ result, disclosureProof.verifyWithProvider positionStream sampleProvider sampleBody =
        .ok result ∧
      ∀ d, result.authed d = TranscriptProofBuilder.revealed sampleReveals d ∧
        ∀ p, p ∈ result.authed d → ∃ b, (result.ofDirection d)[p]? = some b ∧
          (sampleTranscript.ofDirection d)[p]? = some b := by
  have hmax : ∀ p, disclosureProof.encodingProof = some p →
      p.totalOpened ≤ maxTotalCommittedData := by
    have htotal : ∀ p ∈ disclosureProof.encodingProof.toList.map EncodingProof.totalOpened,
        p ≤ maxTotalCommittedData := by
      decide +kernel
    intro p hp
    exact htotal _ (List.mem_map.mpr ⟨p, by simp [hp], rfl⟩)
  have hroot : ∀ root, (disclosureTree.root : Except (Fault Empty) _) = .ok root →
      sampleBody.encodingCommitment = some ⟨root, unitSecret⟩ := by
    intro root h
    rw [← Except.ok.inj ((Fault.ok_get disclosureRoot_ok).symm.trans h), sampleBody]
  exact TranscriptProofBuilder.verify_of_build (Fault.ok_get sampleConfig_ok) sampleConfig_builds
    (Fault.ok_get disclosureTree_ok) sampleEncodings_provides sampleProvider_get rfl hroot
    (Fault.ok_get sampleBuilder_ok) (Fault.ok_get disclosureProof_ok) hmax (.refl _)

end Tlsn.Core

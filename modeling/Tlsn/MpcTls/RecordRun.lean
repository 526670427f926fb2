import Tlsn.MpcTls.RecordStart

/-!
Runs of the record layer: records are pushed and flushed in any order. What was
pushed is what has been processed, followed by what is buffered; and what has been
processed determines the stock, the records and the tags.
-/

namespace Tlsn.MpcTls

open Tlsn.Cipher Tlsn.Common Tlsn.Tls

namespace EncryptOp

theorem encryptedRecords_append (L : Layout) (mem : Memory) (n : Nat) (ops ops' : List EncryptOp)
    {tags tags' : List (List UInt8)} (h : tags.length = ops.length) :
    encryptedRecords L mem n (ops ++ ops') (tags ++ tags') =
      encryptedRecords L mem n ops tags ++ encryptedRecords L mem (remaining n ops) ops' tags' := by
  induction ops generalizing n tags with
  | nil =>
      rw [List.length_eq_zero_iff.mp h]
      rfl
  | cons op ops ih =>
      cases tags with
      | nil => cases h
      | cons tag tags =>
          simp only [List.cons_append, encryptedRecords, remaining, List.head?_cons, List.tail_cons,
            ih (n - op.blockCount) (Nat.succ_inj.mp h)]

/-- Records without tags. -/
theorem encryptedRecords_append_nil (L : Layout) (mem : Memory) (n : Nat)
    (ops ops' : List EncryptOp) :
    encryptedRecords L mem n (ops ++ ops') [] =
      encryptedRecords L mem n ops [] ++ encryptedRecords L mem (remaining n ops) ops' [] := by
  induction ops generalizing n with
  | nil => rfl
  | cons op ops ih => simp only [List.cons_append, encryptedRecords, remaining, List.tail_nil, ih]

end EncryptOp

theorem DecryptOp.fitFrom_append (n : Nat) (pad : Option (List UInt8)) (ops ops' : List DecryptOp) :
    FitFrom n pad (ops ++ ops') ↔
      FitFrom n pad ops ∧ FitFrom (remaining n ops) (padRest pad ops) ops' := by
  induction ops generalizing n pad with
  | nil => simp only [List.nil_append, FitFrom, remaining, padRest, true_and]
  | cons op ops ih => simp only [List.cons_append, FitFrom, remaining, padRest, ih, and_assoc]

theorem Resources.j0Ops_append {j0s j0s' : List J0} {data data' : List TagData}
    (h : j0s.length = data.length) :
    j0Ops (j0s ++ j0s') (data ++ data') = j0Ops j0s data ++ j0Ops j0s' data' := by
  induction j0s generalizing data with
  | nil =>
      rw [List.length_eq_zero_iff.mp h.symm]
      simp only [List.nil_append, j0Ops]
  | cons j0 j0s ih =>
      cases data with
      | nil => cases h
      | cons d data =>
          simp only [List.cons_append, j0Ops, ih (Nat.succ_inj.mp h), List.append_assoc]

theorem Resources.mem_j0Ops {j0s : List J0} {data : List TagData} {i : Nat} {j0 : J0} {d : TagData}
    (hj0 : j0s[i]? = some j0) (hd : data[i]? = some d)
    {o : VmOp} (ho : o ∈ j0.ops d.explicitNonce) :
    o ∈ j0Ops j0s data := by
  induction j0s generalizing i data with
  | nil => cases hj0
  | cons x j0s ih =>
      cases data with
      | nil => cases hd
      | cons y data =>
          rw [j0Ops]
          cases i with
          | zero =>
              cases hj0
              cases hd
              exact List.mem_append_left _ ho
          | succ i => exact List.mem_append_right _ (ih hj0 hd)

theorem J0.taken_add (j0s : List J0) (k k' : Nat) :
    taken j0s (k + k') = taken j0s k ++ taken (rest j0s k) k' := by
  rw [taken_rest, taken, taken]
  conv_lhs => rw [← List.take_append_drop k (j0s.reverse.take (k + k')), List.take_take,
    Nat.min_eq_left (Nat.le_add_right k k')]

namespace Stock

variable {stock : Stock}

theorem FitsEncrypt.append {ops ops' : List EncryptOp} (h : stock.FitsEncrypt ops)
    (h' : (stock.encrypted ops).FitsEncrypt ops') : stock.FitsEncrypt (ops ++ ops') := by
  refine ⟨(EncryptOp.fitFrom_append _ _ _).mpr ⟨h.1, h'.1⟩, ?_, ?_⟩
  · have hrest := h'.2.1
    simp only [encrypted, spent, tagged, J0.length_rest, List.length_map] at hrest
    have hops := h.2.1
    rw [List.length_map] at hops
    rw [List.length_map, List.length_append]
    omega
  · rw [List.map_append]
    intro d hd
    cases List.mem_append.mp hd with
    | inl hd => exact h.2.2 d hd
    | inr hd => exact h'.2.2 d hd

theorem FitsEncrypt.length_taken {ops : List EncryptOp} (h : stock.FitsEncrypt ops) :
    (J0.taken stock.j0s ops.length).length = ops.length := by
  have hops := h.2.1
  rw [List.length_map] at hops
  exact J0.length_taken hops

theorem FitsVerify.length_taken {ops : List DecryptOp} (h : stock.FitsVerify ops) :
    (J0.taken stock.j0s ops.length).length = ops.length := by
  have hops := h.1
  rw [List.length_map] at hops
  exact J0.length_taken hops

theorem FitsVerify.append {ops ops' : List DecryptOp} (h : stock.FitsVerify ops)
    (h' : (stock.tagged ops.length).FitsVerify ops') : stock.FitsVerify (ops ++ ops') := by
  refine ⟨?_, ?_⟩
  · have hrest := h'.1
    simp only [tagged, J0.length_rest, List.length_map] at hrest
    have hops := h.1
    rw [List.length_map] at hops
    rw [List.length_map, List.length_append]
    omega
  · rw [List.map_append]
    intro d hd
    cases List.mem_append.mp hd with
    | inl hd => exact h.2 d hd
    | inr hd => exact h'.2 d hd

theorem FitsDecrypt.append {pad : Option (List UInt8)} {ops ops' : List DecryptOp}
    (h : stock.FitsDecrypt pad ops)
    (h' : (stock.decrypted ops).FitsDecrypt (DecryptOp.padRest pad ops) ops') :
    stock.FitsDecrypt pad (ops ++ ops') :=
  ⟨(DecryptOp.fitFrom_append _ _ _ _).mpr ⟨h.1, h'.1⟩, h.2.append h'.2⟩

/-- The operations of a batch are those of its parts. -/
theorem mem_encryptVmOps_append {role : Role} {ops ops' : List EncryptOp}
    (h : stock.FitsEncrypt ops) (o : VmOp) :
    o ∈ stock.encryptVmOps role (ops ++ ops') ↔
      o ∈ stock.encryptVmOps role ops ∨ o ∈ (stock.encrypted ops).encryptVmOps role ops' := by
  have hlen : (J0.taken stock.j0s ops.length).length = (ops.map EncryptOp.tagData).length := by
    rw [h.length_taken, List.length_map]
  simp only [encryptVmOps, encrypted, spent, tagged, EncryptOp.opsFrom_append, List.length_append,
    J0.taken_add, List.map_append, Resources.j0Ops_append hlen, List.mem_append]
  exact or_or_or_comm

theorem encryptOuts_append (ops ops' : List EncryptOp) :
    stock.encryptOuts (ops ++ ops') =
      stock.encryptOuts ops ++ (stock.encrypted ops).encryptOuts ops' :=
  EncryptOp.layOut_append ..

theorem length_encryptOuts (ops : List EncryptOp) : (stock.encryptOuts ops).length = ops.length :=
  EncryptOp.length_layOut ..

theorem computeTask_append {role : Role} {ops ops' : List EncryptOp} (h : stock.FitsEncrypt ops) :
    (stock.computeTask role (ops ++ ops')).data =
      (stock.computeTask role ops).data ++ ((stock.encrypted ops).computeTask role ops').data := by
  have hzip : ((stock.encryptOuts ops).map Prod.snd).length =
      (ops.map EncryptOp.tagData).length := by
    rw [List.length_map, List.length_map, length_encryptOuts]
  have hlen : ((J0.taken stock.j0s ops.length).map Prod.snd).length =
      (((stock.encryptOuts ops).map Prod.snd).zip (ops.map EncryptOp.tagData)).length := by
    rw [List.length_zip, List.length_map, List.length_map, List.length_map, h.length_taken,
      length_encryptOuts, Nat.min_self]
  have htaken : J0.taken stock.j0s (ops ++ ops').length =
      J0.taken stock.j0s ops.length ++ J0.taken (stock.encrypted ops).j0s ops'.length := by
    rw [List.length_append, J0.taken_add]
    rfl
  simp only [computeTask, htaken, encryptOuts_append, List.map_append, List.zip_append hzip,
    List.zipWith_append hlen]

theorem length_computeTask {role : Role} {ops : List EncryptOp} (h : stock.FitsEncrypt ops) :
    (stock.computeTask role ops).data.length = ops.length := by
  simp only [computeTask, List.length_zipWith, List.length_map, List.length_zip, h.length_taken,
    length_encryptOuts, Nat.min_self]

/-- The tags of the records: the leader adds the shares of the peer to its own, and
the follower learns none. -/
def TagsOf (stock : Stock) (mem : Memory) (role : Role) (ops : List EncryptOp)
    (shares : List TagShare) (tags : List (List UInt8)) : Prop :=
  match role with
  | .leader =>
      ∃ own, (stock.computeTask .leader ops).tagShares mem = .ok own ∧ shares.length = own.length ∧
        tags = List.zipWith TagShare.add own shares
  | .follower => tags = []

/-- The shares which the peer sends for a batch: none if it is empty. -/
def sharesFor (ops : List EncryptOp) (shares : List TagShare) : List TagShare :=
  if ops.isEmpty then [] else shares

theorem tagsOf_run {mem : Memory} {role : Role} {ops : List EncryptOp} {shares : List TagShare}
    {tags : Option (List (List UInt8))} (h : stock.FitsEncrypt ops)
    (hrun : (stock.computeTask role ops).run mem shares = .ok tags) :
    stock.TagsOf mem role ops (sharesFor ops shares) (tags.getD []) := by
  have hlen : (stock.computeTask role ops).data.length = ops.length := length_computeTask h
  unfold ComputeTags.run at hrun
  by_cases hempty : (stock.computeTask role ops).data.isEmpty = true
  · rw [if_pos hempty] at hrun
    cases hrun
    have hops : ops = [] := by
      rw [List.isEmpty_iff_length_eq_zero, hlen] at hempty
      exact List.length_eq_zero_iff.mp hempty
    subst hops
    cases role with
    | leader => exact ⟨[], rfl, rfl, rfl⟩
    | follower => rfl
  · rw [if_neg hempty] at hrun
    obtain ⟨own, hown, hrun⟩ := Fault.bind_ok_iff.mp hrun
    have hops : sharesFor ops shares = shares := by
      apply if_neg
      intro hnil
      apply hempty
      rw [List.isEmpty_iff_length_eq_zero, hlen, ← List.isEmpty_iff_length_eq_zero]
      exact hnil
    rw [hops]
    cases role with
    | leader =>
        by_cases hshares : shares.length = own.length
        · simp only [computeTask, hshares, ne_eq, not_true_eq_false, if_false] at hrun
          cases hrun
          exact ⟨own, hown, hshares, rfl⟩
        · simp only [computeTask, hshares, ne_eq, not_false_eq_true, if_true] at hrun
          cases hrun
    | follower =>
        cases hrun
        rfl

theorem tagShares_append {mem : Memory} {role : Role} {ops ops' : List EncryptOp}
    {own own' : List TagShare} (hfits : stock.FitsEncrypt ops)
    (h : (stock.computeTask role ops).tagShares mem = .ok own)
    (h' : ((stock.encrypted ops).computeTask role ops').tagShares mem = .ok own') :
    (stock.computeTask role (ops ++ ops')).tagShares mem = .ok (own ++ own') := by
  unfold ComputeTags.tagShares at h h' ⊢
  rw [computeTask_append hfits, List.mapM_append]
  refine Fault.bind_ok_iff.mpr ⟨own, h, Fault.bind_ok_iff.mpr ⟨own', h', rfl⟩⟩

theorem TagsOf.append {mem : Memory} {role : Role} {ops ops' : List EncryptOp}
    {shares shares' : List TagShare} {tags tags' : List (List UInt8)}
    (hfits : stock.FitsEncrypt ops) (h : stock.TagsOf mem role ops shares tags)
    (h' : (stock.encrypted ops).TagsOf mem role ops' shares' tags') :
    stock.TagsOf mem role (ops ++ ops') (shares ++ shares') (tags ++ tags') := by
  cases role with
  | leader =>
      obtain ⟨own, hown, hlen, rfl⟩ := h
      obtain ⟨own', hown', hlen', rfl⟩ := h'
      refine ⟨own ++ own', tagShares_append hfits hown hown', ?_, ?_⟩
      · rw [List.length_append, List.length_append, hlen, hlen']
      · rw [List.zipWith_append hlen.symm]
  | follower =>
      rw [show tags = [] from h, show tags' = [] from h']
      rfl

theorem TagsOf.length {mem : Memory} {ops : List EncryptOp} {shares : List TagShare}
    {tags : List (List UInt8)} (hfits : stock.FitsEncrypt ops)
    (h : stock.TagsOf mem .leader ops shares tags) : tags.length = ops.length := by
  obtain ⟨own, hown, hlen, rfl⟩ := h
  rw [List.length_zipWith, hlen, Nat.min_self, (Fault.mapM_ok hown).1, length_computeTask hfits]

end Stock

/-! ## Pushes -/

namespace RecordLayer

/-- The record which a push adds. -/
def nextEncryptOp (typ : ContentType) (version : ProtocolVersion) (len : Nat)
    (plaintext : Option (List UInt8)) (mode : EncryptMode) (seq : Nat) : EncryptOp :=
  ⟨seq, typ, version, len, plaintext, beBytes 8 seq, makeTls12Aad seq typ version len, mode⟩

def nextDecryptOp (typ : ContentType) (version : ProtocolVersion)
    (explicitNonce ciphertext tag : List UInt8) (mode : DecryptMode) (seq : Nat) : DecryptOp :=
  ⟨seq, typ, version, explicitNonce, ciphertext,
    makeTls12Aad seq typ version ciphertext.length, tag, mode⟩

theorem pushEncrypt_ok_iff {typ : ContentType} {version : ProtocolVersion} {len : Nat}
    {plaintext : Option (List UInt8)} {mode : EncryptMode} {layer layer' : RecordLayer} :
    pushEncrypt typ version len plaintext mode layer = .ok () layer' ↔
      layer.encryptBuffer.length < maxBufferSize ∧ wrap (layer.sent + len) ≤ layer.maxSent ∧
        (nextEncryptOp typ version len plaintext mode layer.writeSeq).Valid ∧
        layer' = { layer with
          writeSeq := wrap (layer.writeSeq + 1)
          sent := wrap (layer.sent + len)
          encryptBuffer := layer.encryptBuffer ++
            [nextEncryptOp typ version len plaintext mode layer.writeSeq] } := by
  unfold pushEncrypt
  by_cases hfull : layer.encryptBuffer.length ≥ maxBufferSize
  · rw [if_pos hfull]
    simp only [reduceCtorEq, false_iff, not_and]
    intro hlt
    omega
  · rw [if_neg hfull]
    by_cases hmax : wrap (layer.sent + len) > layer.maxSent
    · rw [if_pos hmax]
      simp only [reduceCtorEq, false_iff, not_and]
      intro _ hle
      omega
    · rw [if_neg hmax]
      simp only [nextWrite]
      cases hop : EncryptOp.new layer.writeSeq typ version len plaintext (beBytes 8 layer.writeSeq)
          (makeTls12Aad layer.writeSeq typ version len) mode with
      | error e =>
          simp only [reduceCtorEq, false_iff, not_and]
          intro _ _ hvalid
          rw [EncryptOp.new_ok_iff.mpr ⟨rfl, hvalid⟩] at hop
          cases hop
      | ok op =>
          obtain ⟨rfl, hvalid⟩ := EncryptOp.new_ok_iff.mp hop
          constructor
          · intro h
            cases h
            exact ⟨by omega, by omega, hvalid, rfl⟩
          · rintro ⟨-, -, -, rfl⟩
            rfl

theorem pushDecrypt_ok_iff {typ : ContentType} {version : ProtocolVersion}
    {explicitNonce ciphertext tag : List UInt8} {mode : DecryptMode} {layer layer' : RecordLayer} :
    pushDecrypt typ version explicitNonce ciphertext tag mode layer = .ok () layer' ↔
      layer.decryptBuffer.length < maxBufferSize ∧
        wrap (layer.recv + ciphertext.length) ≤ layer.maxRecv ∧
        layer' = { layer with
          readSeq := wrap (layer.readSeq + 1)
          recv := wrap (layer.recv + ciphertext.length)
          decryptBuffer := layer.decryptBuffer ++
            [nextDecryptOp typ version explicitNonce ciphertext tag mode layer.readSeq] } := by
  unfold pushDecrypt
  by_cases hfull : layer.decryptBuffer.length ≥ maxBufferSize
  · rw [if_pos hfull]
    simp only [reduceCtorEq, false_iff, not_and]
    intro hlt
    omega
  · rw [if_neg hfull]
    by_cases hmax : wrap (layer.recv + ciphertext.length) > layer.maxRecv
    · rw [if_pos hmax]
      simp only [reduceCtorEq, false_iff, not_and]
      intro _ hle
      omega
    · rw [if_neg hmax]
      constructor
      · intro h
        cases h
        exact ⟨by omega, by omega, rfl⟩
      · rintro ⟨-, -, rfl⟩
        rfl

end RecordLayer

/-! ## Calls -/

/-- A vector of bytes. -/
abbrev Bytes := { bytes : List UInt8 // bytes.length < wordSize }

theorem length_zero_lt : ([0] : List UInt8).length < wordSize := by decide

inductive LayerCall (C D : Type) where
  | pushEncrypt (typ : ContentType) (version : ProtocolVersion) (len : Fin wordSize)
      (plaintext : Option (List UInt8)) (mode : EncryptMode)
  | pushDecrypt (typ : ContentType) (version : ProtocolVersion) (explicitNonce : List UInt8)
      (ciphertext : Bytes) (tag : List UInt8) (mode : DecryptMode)
  | flush (peer : PeerShares C D) (isDecrypting : Bool)
  | startTraffic

namespace LayerCall

variable {C D : Type}

def run (scheme : HashCommit C D) (mem : Memory) :
    LayerCall C D → EStateM (Fault MpcTlsError) (Vm × RecordLayer) Unit
  | .pushEncrypt typ version len plaintext mode =>
      Fault.onSnd (RecordLayer.pushEncrypt typ version len plaintext mode)
  | .pushDecrypt typ version explicitNonce ciphertext tag mode =>
      Fault.onSnd (RecordLayer.pushDecrypt typ version explicitNonce ciphertext.val tag mode)
  | .flush peer isDecrypting => RecordLayer.flush scheme mem peer isDecrypting
  | .startTraffic => modify fun s => (s.1, s.2.startTraffic)

def runAll (scheme : HashCommit C D) (mem : Memory) :
    List (LayerCall C D) → EStateM (Fault MpcTlsError) (Vm × RecordLayer) Unit
  | [] => return ()
  | call :: calls => do
      call.run scheme mem
      runAll scheme mem calls

/-- The records pushed for encryption, when the next sequence number is `seq`. -/
def encryptPushes : Nat → List (LayerCall C D) → List EncryptOp
  | _, [] => []
  | seq, .pushEncrypt typ version len plaintext mode :: calls =>
      RecordLayer.nextEncryptOp typ version len plaintext mode seq ::
        encryptPushes (wrap (seq + 1)) calls
  | seq, _ :: calls => encryptPushes seq calls

/-- The records pushed for decryption, when the next sequence number is `seq`. -/
def decryptPushes : Nat → List (LayerCall C D) → List DecryptOp
  | _, [] => []
  | seq, .pushDecrypt typ version explicitNonce ciphertext tag mode :: calls =>
      RecordLayer.nextDecryptOp typ version explicitNonce ciphertext.val tag mode seq ::
        decryptPushes (wrap (seq + 1)) calls
  | seq, _ :: calls => decryptPushes seq calls

/-- The shares which the peer sends for the tags of the records, flush by flush.
None are sent when nothing is to be encrypted. -/
def receivedShares : Bool → List (LayerCall C D) → List TagShare
  | _, [] => []
  | _, .pushEncrypt _ _ _ _ _ :: calls => receivedShares true calls
  | true, .flush peer _ :: calls => peer.computeShares ++ receivedShares false calls
  | pending, _ :: calls => receivedShares pending calls

/-- The peer in each flush. -/
def flushPeers : List (LayerCall C D) → List (PeerShares C D)
  | [] => []
  | .flush peer _ :: calls => peer :: flushPeers calls
  | _ :: calls => flushPeers calls

end LayerCall

/-! ## What has been processed -/

/-- The places of records which are verified batch by batch: with whom, and the place in the
batch. -/
def places {α : Type} (batches : List (α × Nat)) : List (α × Nat) :=
  batches.flatMap fun batch => (List.range batch.2).map fun k => (batch.1, k)

theorem places_append {α : Type} (batches batches' : List (α × Nat)) :
    places (batches ++ batches') = places batches ++ places batches' := List.flatMap_append

theorem length_places {α : Type} (batches : List (α × Nat)) :
    (places batches).length = (batches.map Prod.snd).sum := by
  simp [places, List.length_flatMap]

/-- Within the last batch. -/
theorem getElem?_places_last {α : Type} {batches : List (α × Nat)} {a : α} {n i : Nat}
    (hle : (batches.map Prod.snd).sum ≤ i) (hlt : i - (batches.map Prod.snd).sum < n) :
    (places (batches ++ [(a, n)]))[i]? = some (a, i - (batches.map Prod.snd).sum) := by
  rw [places_append, List.getElem?_append_right (by rwa [length_places]), length_places]
  simp [places, hlt]

/-- The records that have been processed, the shares received for their tags, and the
peer in each flush with the number of records that were verified in it. -/
structure LayerTrace (C D : Type) where
  encrypted : List EncryptOp
  decrypted : List DecryptOp
  shares : List TagShare
  batches : List (PeerShares C D × Nat)

namespace LayerTrace

variable {C D : Type}

def empty : LayerTrace C D := ⟨[], [], [], []⟩

def flushed (peer : PeerShares C D) (isDecrypting : Bool) (layer : RecordLayer)
    (trace : LayerTrace C D) : LayerTrace C D where
  encrypted := trace.encrypted ++ layer.encryptBuffer
  decrypted := trace.decrypted ++ layer.drainedDecrypts isDecrypting
  shares := trace.shares ++ Stock.sharesFor layer.encryptBuffer peer.computeShares
  batches := trace.batches ++ [(peer, (layer.drainedDecrypts isDecrypting).length)]

end LayerTrace

/-- The tag of a record is the sum of the party's own share and of the peer's for that record. -/
theorem VerifyTags.tag_of_run {C D : Type} {scheme : HashCommit C D} {mem : Memory}
    {peer : PeerShares C D} {task : VerifyTags} {i : Nat} {data : VerifyTagData}
    (hrun : task.run scheme mem peer = .ok ()) (hdata : task.data[i]? = some data) :
    ∃ count shares own other, peerTagShares scheme peer task.role count = .ok shares ∧
      shares[i]? = some other ∧
      tagShare task.ghash (data.j0.share mem) data.aad data.ciphertext = .ok own ∧
      data.tag = TagShare.add own other := by
  have hne : ¬ task.data.isEmpty = true := by
    intro hempty
    rw [List.isEmpty_iff.mp hempty] at hdata
    cases hdata
  unfold run at hrun
  rw [if_neg hne] at hrun
  obtain ⟨owns, howns, hrun⟩ := Fault.bind_ok_iff.mp hrun
  obtain ⟨shares, hshares, hrun⟩ := Fault.bind_ok_iff.mp hrun
  by_cases htags : task.data.map VerifyTagData.tag ≠ List.zipWith TagShare.add owns shares
  · cases (if_pos htags).symm.trans hrun
  · obtain ⟨own, hown, hshare⟩ := (Fault.mapM_ok howns).2 i data hdata
    have htag : (List.zipWith TagShare.add owns shares)[i]? = some data.tag := by
      rw [← not_not.mp htags, List.getElem?_map, hdata, Option.map_some]
    obtain ⟨own', other, hown', hother, hadd⟩ := List.getElem?_zipWith_eq_some.mp htag
    cases hown.symm.trans hown'
    exact ⟨_, shares, own, other, hshares, hother, hshare, hadd.symm⟩

/-- The tag of the record was verified together with this peer, as the one at place `k`, with the
record's own ciphertext and additional data, and with a block which was assigned its nonce. -/
structure DecryptOp.Verified {C D : Type} (scheme : HashCommit C D) (mem : Memory) (role : Role)
    (ghash : Ghash) (vm : Vm) (peer : PeerShares C D) (k : Nat) (j0 : J0) (op : DecryptOp) :
    Prop where
  tag : ∃ count shares own other, VerifyTags.peerTagShares scheme peer role count = .ok shares ∧
    shares[k]? = some other ∧ tagShare ghash (j0.2.share mem) op.aad op.ciphertext = .ok own ∧
    op.tag = TagShare.add own other
  nonce : op.explicitNonce.length = 8
  assigned : ∀ o ∈ j0.ops op.explicitNonce, o ∈ vm.log

namespace Stock

variable {stock : Stock}

/-- The task to verify a batch has each of its records, in order. -/
theorem getElem?_verifyTask {role : Role} {ops : List DecryptOp} {i : Nat} {op : DecryptOp}
    (h : stock.FitsVerify ops) (hop : ops[i]? = some op) :
    ∃ j0, stock.j0s.reverse[i]? = some j0 ∧
      (stock.verifyTask role ops).data[i]? = some ⟨j0.2, op.ciphertext, op.aad, op.tag⟩ ∧
      ∀ o ∈ j0.ops op.explicitNonce, o ∈ stock.verifyVmOps ops := by
  have hlt : i < ops.length := (List.getElem?_eq_some_iff.mp hop).1
  have hlt' : i < (J0.taken stock.j0s ops.length).length := by rwa [h.length_taken]
  have hj0 := List.getElem?_eq_getElem hlt'
  refine ⟨_, (List.getElem?_take_of_lt hlt).symm.trans hj0, ?_, ?_⟩
  · simp only [verifyTask, List.zip, List.getElem?_zipWith, List.getElem?_map, hj0, hop,
      Option.map_some, DecryptOp.tagData]
  · intro o ho
    refine Resources.mem_j0Ops hj0 (d := op.tagData) ?_ ho
    rw [List.getElem?_map, hop, Option.map_some]

theorem verified_of_run {C D : Type} {scheme : HashCommit C D} {mem : Memory} {role : Role}
    {ops : List DecryptOp} {vm : Vm} {peer : PeerShares C D} (h : stock.FitsVerify ops)
    (hrun : (stock.verifyTask role ops).run scheme mem peer = .ok ())
    (hops : ∀ o ∈ stock.verifyVmOps ops, o ∈ vm.log) {i : Nat} {op : DecryptOp}
    (hop : ops[i]? = some op) :
    ∃ j0, stock.j0s.reverse[i]? = some j0 ∧
      op.Verified scheme mem role stock.ghash vm peer i j0 := by
  obtain ⟨j0, hj0, hdata, hlog⟩ := getElem?_verifyTask h hop
  exact ⟨j0, hj0, VerifyTags.tag_of_run hrun hdata,
    h.2 op.tagData (List.mem_map_of_mem (List.mem_of_getElem? hop)), fun o ho => hops o (hlog o ho)⟩

end Stock

theorem DecryptOp.Verified.mono {C D : Type} {scheme : HashCommit C D} {mem : Memory} {role : Role}
    {ghash : Ghash} {vm vm' : Vm} {peer : PeerShares C D} {k : Nat} {j0 : J0} {op : DecryptOp}
    (h : op.Verified scheme mem role ghash vm peer k j0) (hvm : ∀ o ∈ vm.log, o ∈ vm'.log) :
    op.Verified scheme mem role ghash vm' peer k j0 :=
  ⟨h.tag, h.nonce, fun o ho => hvm o (h.assigned o ho)⟩

/-- Where a run has got to. -/
structure Progress {C D : Type} (p : LayerParams) (e d : Stock) (scheme : HashCommit C D)
    (mem : Memory) (trace : LayerTrace C D) (s : Vm × RecordLayer) : Prop where
  role : s.2.role = p.role
  stocked : s.2.Stocked (e.encrypted trace.encrypted) (d.decrypted trace.decrypted)
  buffered : s.2.Buffered
  valid : ∀ op ∈ trace.encrypted, op.Valid
  fits : RecordLayer.FlushFits e d p.recvOtp trace.encrypted trace.decrypted
  state : s.2.state = .online (DecryptOp.padRest p.recvOtp trace.decrypted)
    (EncryptOp.sentRecords e.layout mem e.blocks trace.encrypted)
    ((DecryptOp.decrypted d.layout mem d.blocks p.recvOtp trace.decrypted).map
      fun r => r.1.recvRecord r.2)
  tagged : ∃ tags, e.TagsOf mem p.role trace.encrypted trace.shares tags ∧
    s.2.encryptedBuffer = EncryptOp.encryptedRecords e.layout mem e.blocks trace.encrypted tags
  encryptOps : ∀ o ∈ e.encryptVmOps p.role trace.encrypted, o ∈ s.1.log
  decryptOps : ∀ o ∈ DecryptOp.opsFrom p.role d.layout d.blocks p.recvOtp trace.decrypted,
    o ∈ s.1.log
  counted : (trace.batches.map Prod.snd).sum = trace.decrypted.length
  verified : ∀ (i : Nat) (op : DecryptOp), trace.decrypted[i]? = some op →
    ∃ peer k j0, (places trace.batches)[i]? = some (peer, k) ∧ d.j0s.reverse[i]? = some j0 ∧
      op.Verified scheme mem p.role d.ghash s.1 peer k j0
  plain : s.2.decryptedBuffer =
    (DecryptOp.decrypted d.layout mem d.blocks p.recvOtp trace.decrypted).map
      fun r => r.1.plainRecord r.2

namespace Progress

variable {C D : Type} {p : LayerParams} {e d : Stock} {scheme : HashCommit C D} {mem : Memory}
  {trace : LayerTrace C D} {s s' : Vm × RecordLayer}

theorem of_established (h : p.Established mem s) :
    ∃ e d : Stock, Progress p e d scheme mem .empty s ∧ s.2.Fresh p ∧
      e.Allocated p.clientWriteKey p.clientIv p.sentRecords p.sentLen s.1 ∧
      d.Allocated p.serverWriteKey p.serverIv p.recvRecords p.recvLenOnline s.1 := by
  obtain ⟨e, d, hstock, hfresh, he, hd⟩ := h.stocked
  have htags : ∀ j0s : List J0, Resources.TagsFit j0s [] :=
    fun j0s => ⟨Nat.zero_le _, fun data hdata => nomatch hdata⟩
  refine ⟨e, d, ?_, hfresh, he, hd⟩
  constructor
  · exact hfresh.role
  · simpa only [LayerTrace.empty, Stock.encrypted_nil, Stock.decrypted_nil] using hstock
  · constructor
    · rw [hfresh.encryptBuffer]
      exact fun op hop => nomatch hop
    · rw [hfresh.encryptBuffer]
      exact fun op hop => nomatch hop
    · rw [hfresh.decryptBuffer]
      exact fun op hop => nomatch hop
  · exact fun op hop => nomatch hop
  · exact ⟨⟨trivial, htags _⟩, trivial, htags _⟩
  · exact hfresh.state
  · refine ⟨[], ?_, hfresh.encryptedBuffer⟩
    cases p.role with
    | leader => exact ⟨[], rfl, rfl, rfl⟩
    | follower => rfl
  · intro o ho
    cases ho
  · intro o ho
    cases ho
  · rfl
  · intro i op hop
    cases hop
  · exact hfresh.decryptedBuffer

/-- A further batch is verified, behind those before it. -/
theorem verified_batch {peer : PeerShares C D} {ops : List DecryptOp} {vm : Vm} {i : Nat}
    {op : DecryptOp} (h : Progress p e d scheme mem trace s) (hvm : ∀ o ∈ s.1.log, o ∈ vm.log)
    (hfits : (d.decrypted trace.decrypted).FitsVerify ops)
    (hrun : ((d.decrypted trace.decrypted).verifyTask p.role ops).run scheme mem peer = .ok ())
    (hops : ∀ o ∈ (d.decrypted trace.decrypted).verifyVmOps ops, o ∈ vm.log)
    (hop : (trace.decrypted ++ ops)[i]? = some op) :
    ∃ verifier k j0, (places (trace.batches ++ [(peer, ops.length)]))[i]? = some (verifier, k) ∧
      d.j0s.reverse[i]? = some j0 ∧
      op.Verified scheme mem p.role d.ghash vm verifier k j0 := by
  by_cases hi : i < trace.decrypted.length
  · rw [List.getElem?_append_left hi] at hop
    obtain ⟨verifier, k, j0, hplace, hj0, hverified⟩ := h.verified i op hop
    refine ⟨verifier, k, j0, ?_, hj0, hverified.mono hvm⟩
    rw [places_append, List.getElem?_append_left, hplace]
    rwa [length_places, h.counted]
  · have hle := Nat.le_of_not_lt hi
    rw [List.getElem?_append_right hle] at hop
    obtain ⟨j0, hj0, hverified⟩ := Stock.verified_of_run hfits hrun hops hop
    refine ⟨peer, _, j0, ?_, J0.getElem?_reverse_rest hle hj0, hverified⟩
    rw [← h.counted] at hle hop ⊢
    exact getElem?_places_last hle (List.getElem?_eq_some_iff.mp hop).1

theorem flush {peer : PeerShares C D} {isDecrypting : Bool} (h : Progress p e d scheme mem trace s)
    (hflush : RecordLayer.flush scheme mem peer isDecrypting s = .ok () s') :
    Progress p e d scheme mem (trace.flushed peer isDecrypting s.2) s' := by
  obtain ⟨tags, hflushes, rfl⟩ := (RecordLayer.flush_ok_iff h.stocked h.buffered h.state).mp hflush
  have hpad : s.2.state.recvOtp = DecryptOp.padRest p.recvOtp trace.decrypted := by
    rw [h.state]
    rfl
  have hfits := hflushes.fits
  rw [hpad] at hfits
  have hlog : ∀ o ∈ s.1.log, o ∈ (s.1.push (RecordLayer.flushVmOps s.2.role
      (e.encrypted trace.encrypted) (d.decrypted trace.decrypted) s.2.state.recvOtp
      s.2.encryptBuffer (s.2.drainedDecrypts isDecrypting))).log :=
    fun o ho => List.mem_append_left _ ho
  constructor
  · exact h.role
  · rw [LayerTrace.flushed, Stock.encrypted_append, Stock.decrypted_append]
    exact ⟨MpcAesGcm.Stocked.restock (h.stocked.encrypter.sized.encrypted _),
      MpcAesGcm.Stocked.restock (h.stocked.decrypter.sized.decrypted _),
      h.stocked.encrypter_role, h.stocked.decrypter_role⟩
  · exact ⟨fun op hop => (nomatch hop), fun op hop => (nomatch hop),
      fun op hop => h.buffered.ciphertext op (List.mem_of_mem_drop hop)⟩
  · intro op hop
    cases List.mem_append.mp hop with
    | inl hop => exact h.valid op hop
    | inr hop => exact h.buffered.valid op hop
  · exact ⟨h.fits.1.append hfits.1, h.fits.2.append hfits.2⟩
  · simp only [LayerTrace.flushed, DecryptOp.padRest_append, EncryptOp.sentRecords_append,
      DecryptOp.decrypted_append, List.map_append, RecordLayer.flushed, RecordLayer.finished,
      RecordLayer.restock, RecordLayer.counted, RecordLayer.drain, h.state,
      RecordLayerState.setRecvOtp, RecordLayerState.recvOtp]
    rfl
  · obtain ⟨old, hold, hbuffer⟩ := h.tagged
    have hnew := Stock.tagsOf_run hfits.1 hflushes.compute
    rw [h.role] at hnew
    refine ⟨_, hold.append h.fits.1 hnew, ?_⟩
    simp only [LayerTrace.flushed, RecordLayer.flushed, RecordLayer.finished, RecordLayer.restock,
      RecordLayer.counted, RecordLayer.drain, hbuffer]
    cases hrole : p.role with
    | leader =>
        rw [hrole] at hold
        rw [EncryptOp.encryptedRecords_append _ _ _ _ _ (hold.length h.fits.1)]
        rfl
    | follower =>
        rw [hrole] at hold hnew
        rw [show old = [] from hold, show tags.getD [] = [] from hnew, List.append_nil,
          EncryptOp.encryptedRecords_append_nil]
        rfl
  · intro o ho
    have ho' := (Stock.mem_encryptVmOps_append h.fits.1 o).mp ho
    cases ho' with
    | inl hold => exact hlog o (h.encryptOps o hold)
    | inr hnew =>
        rw [← h.role] at hnew
        exact List.mem_append_right _ (List.mem_append_left _ (List.mem_append_left _ hnew))
  · intro o ho
    rw [LayerTrace.flushed, DecryptOp.opsFrom_append] at ho
    cases List.mem_append.mp ho with
    | inl hold => exact hlog o (h.decryptOps o hold)
    | inr hnew =>
        rw [← hpad, ← h.role] at hnew
        exact List.mem_append_right _ (List.mem_append_left _ (List.mem_append_right _ hnew))
  · simp [LayerTrace.flushed, h.counted]
  · have hrun := hflushes.verify
    have hrole : s.2.role = p.role := h.role
    rw [hrole] at hrun
    exact fun i op hop => h.verified_batch hlog hfits.2.2 hrun
      (fun o ho => List.mem_append_right _ (List.mem_append_right _ ho)) hop
  · simp only [LayerTrace.flushed, DecryptOp.decrypted_append, List.map_append, RecordLayer.flushed,
      RecordLayer.finished, RecordLayer.restock, RecordLayer.counted, RecordLayer.drain, h.plain,
      hpad]
    rfl

/-- What is buffered, and the counters, do not matter to what has been processed. -/
theorem of_layer {layer : RecordLayer} (h : Progress p e d scheme mem trace s)
    (hlayer : layer = { s.2 with
      writeSeq := layer.writeSeq, readSeq := layer.readSeq, started := layer.started
      sent := layer.sent, recv := layer.recv, encryptBuffer := layer.encryptBuffer
      decryptBuffer := layer.decryptBuffer })
    (hbuffered : layer.Buffered) : Progress p e d scheme mem trace (s.1, layer) := by
  rw [hlayer] at hbuffered ⊢
  exact ⟨h.role, ⟨h.stocked.encrypter, h.stocked.decrypter, h.stocked.encrypter_role,
    h.stocked.decrypter_role⟩, hbuffered, h.valid, h.fits, h.state, h.tagged, h.encryptOps,
    h.decryptOps, h.counted, h.verified, h.plain⟩

/-- The records that were pushed, and the shares received, between two states of a run. -/
structure Ran (trace : LayerTrace C D) (s : Vm × RecordLayer) (calls : List (LayerCall C D))
    (trace' : LayerTrace C D) (s' : Vm × RecordLayer) : Prop where
  encrypted : trace'.encrypted ++ s'.2.encryptBuffer =
    trace.encrypted ++ s.2.encryptBuffer ++ LayerCall.encryptPushes s.2.writeSeq calls
  decrypted : trace'.decrypted ++ s'.2.decryptBuffer =
    trace.decrypted ++ s.2.decryptBuffer ++ LayerCall.decryptPushes s.2.readSeq calls
  shares : trace'.shares =
    trace.shares ++ LayerCall.receivedShares (!s.2.encryptBuffer.isEmpty) calls
  peers : trace'.batches.map Prod.fst = trace.batches.map Prod.fst ++ LayerCall.flushPeers calls
  writeSeq : s.2.writeSeq < wordSize →
    s'.2.writeSeq = wrap (s.2.writeSeq + (LayerCall.encryptPushes s.2.writeSeq calls).length)
  readSeq : s.2.readSeq < wordSize →
    s'.2.readSeq = wrap (s.2.readSeq + (LayerCall.decryptPushes s.2.readSeq calls).length)
  log : s.1.Extends s'.1

theorem wrap_wrap_add (m n : Nat) : wrap (wrap (m + 1) + n) = wrap (m + (n + 1)) := by
  rw [wrap, wrap, Nat.mod_add_mod, Nat.add_assoc, Nat.add_comm 1 n]
  rfl

theorem wrap_lt (n : Nat) : wrap n < wordSize := Nat.mod_lt n (by decide)

theorem pushEncrypt {typ : ContentType} {version : ProtocolVersion} {len : Fin wordSize}
    {plaintext : Option (List UInt8)} {mode : EncryptMode} {layer : RecordLayer}
    (h : Progress p e d scheme mem trace s)
    (hpush : RecordLayer.pushEncrypt typ version len plaintext mode s.2 = .ok () layer) :
    Progress p e d scheme mem trace (s.1, layer) := by
  obtain ⟨-, -, hvalid, rfl⟩ := RecordLayer.pushEncrypt_ok_iff.mp hpush
  refine h.of_layer rfl ⟨?_, ?_, h.buffered.ciphertext⟩
  · intro op hop
    cases List.mem_append.mp hop with
    | inl hop => exact h.buffered.valid op hop
    | inr hop =>
        cases List.mem_singleton.mp hop
        exact hvalid
  · intro op hop
    cases List.mem_append.mp hop with
    | inl hop => exact h.buffered.len op hop
    | inr hop =>
        cases List.mem_singleton.mp hop
        exact len.isLt

theorem pushDecrypt {typ : ContentType} {version : ProtocolVersion} {explicitNonce tag : List UInt8}
    {ciphertext : Bytes} {mode : DecryptMode} {layer : RecordLayer}
    (h : Progress p e d scheme mem trace s)
    (hpush : RecordLayer.pushDecrypt typ version explicitNonce ciphertext.val tag mode s.2 =
      .ok () layer) :
    Progress p e d scheme mem trace (s.1, layer) := by
  obtain ⟨-, -, rfl⟩ := RecordLayer.pushDecrypt_ok_iff.mp hpush
  refine h.of_layer rfl ⟨h.buffered.valid, h.buffered.len, ?_⟩
  intro op hop
  cases List.mem_append.mp hop with
  | inl hop => exact h.buffered.ciphertext op hop
  | inr hop =>
      cases List.mem_singleton.mp hop
      exact ciphertext.property

/-- A flush moves what it drains, and nothing else. -/
theorem flush_layer {peer : PeerShares C D} {isDecrypting : Bool}
    (h : Progress p e d scheme mem trace s)
    (hflush : RecordLayer.flush scheme mem peer isDecrypting s = .ok () s') :
    s'.2.encryptBuffer = [] ∧
      s.2.drainedDecrypts isDecrypting ++ s'.2.decryptBuffer = s.2.decryptBuffer ∧
      s'.2.writeSeq = s.2.writeSeq ∧ s'.2.readSeq = s.2.readSeq ∧ s.1.Extends s'.1 := by
  obtain ⟨tags, -, rfl⟩ := (RecordLayer.flush_ok_iff h.stocked h.buffered h.state).mp hflush
  exact ⟨rfl, List.take_append_drop _ _, rfl, rfl, Vm.Extends.push _ _⟩

/-- A run of successful calls. -/
theorem runAll (calls : List (LayerCall C D)) (h : Progress p e d scheme mem trace s)
    (hrun : LayerCall.runAll scheme mem calls s = .ok () s') :
    ∃ trace', Progress p e d scheme mem trace' s' ∧ Ran trace s calls trace' s' := by
  induction calls generalizing trace s with
  | nil =>
      cases hrun
      refine ⟨trace, h, ?_, ?_, ?_, ?_, ?_, ?_, Vm.Extends.refl _⟩
      · exact (List.append_nil _).symm
      · exact (List.append_nil _).symm
      · cases s'.2.encryptBuffer.isEmpty <;> exact (List.append_nil _).symm
      · exact (List.append_nil _).symm
      · exact fun hlt => (wrap_of_lt hlt).symm
      · exact fun hlt => (wrap_of_lt hlt).symm
  | cons call calls ih =>
      obtain ⟨⟨⟩, ⟨vm, layer⟩, hcall, hrest⟩ := Fault.run_bind_ok_iff.mp hrun
      cases call with
      | pushEncrypt typ version len plaintext mode =>
          obtain ⟨hpush, rfl⟩ := Fault.onSnd_ok_iff.mp hcall
          obtain ⟨trace', hprogress, hran⟩ := ih (h.pushEncrypt hpush) hrest
          obtain ⟨-, -, -, rfl⟩ := RecordLayer.pushEncrypt_ok_iff.mp hpush
          refine ⟨trace', hprogress, ?_, hran.decrypted, ?_, hran.peers, ?_, hran.readSeq,
            hran.log⟩
          · rw [hran.encrypted, LayerCall.encryptPushes]
            simp only [List.append_assoc, List.cons_append, List.nil_append]
          · have hbuffer : (s.2.encryptBuffer ++
              [RecordLayer.nextEncryptOp typ version len plaintext
                mode s.2.writeSeq]).isEmpty = false := by simp
            rw [hran.shares, hbuffer]
            rfl
          · intro _
            rw [hran.writeSeq (wrap_lt _), LayerCall.encryptPushes, List.length_cons,
              wrap_wrap_add]
      | pushDecrypt typ version explicitNonce ciphertext tag mode =>
          obtain ⟨hpush, rfl⟩ := Fault.onSnd_ok_iff.mp hcall
          obtain ⟨trace', hprogress, hran⟩ := ih (h.pushDecrypt hpush) hrest
          obtain ⟨-, -, rfl⟩ := RecordLayer.pushDecrypt_ok_iff.mp hpush
          refine ⟨trace', hprogress, hran.encrypted, ?_, ?_, hran.peers, hran.writeSeq, ?_,
            hran.log⟩
          · rw [hran.decrypted, LayerCall.decryptPushes]
            simp only [List.append_assoc, List.cons_append, List.nil_append]
          · rw [hran.shares]
            cases s.2.encryptBuffer.isEmpty <;> rfl
          · intro _
            rw [hran.readSeq (wrap_lt _), LayerCall.decryptPushes, List.length_cons, wrap_wrap_add]
      | flush peer isDecrypting =>
          obtain ⟨hencrypt, hdecrypt, hwrite, hread, hvm⟩ := h.flush_layer hcall
          obtain ⟨trace', hprogress, hran⟩ := ih (h.flush hcall) hrest
          simp only at hencrypt hdecrypt hwrite hread
          refine ⟨trace', hprogress, ?_, ?_, ?_, ?_, ?_, ?_, Vm.Extends.trans _ _ _ hvm hran.log⟩
          · simp only [hran.encrypted, LayerCall.encryptPushes, hencrypt, hwrite, List.append_nil]
            rfl
          · simp only [hran.decrypted, LayerCall.decryptPushes, hread, ← hdecrypt]
            simp only [LayerTrace.flushed, List.append_assoc]
          · rw [hran.shares, hencrypt]
            cases hempty : s.2.encryptBuffer.isEmpty with
            | false =>
                simp only [LayerTrace.flushed, Stock.sharesFor, hempty, LayerCall.receivedShares,
                  Bool.not_false, List.append_assoc]
                rfl
            | true =>
                simp only [LayerTrace.flushed, Stock.sharesFor, hempty, LayerCall.receivedShares,
                  Bool.not_true, if_true, List.append_nil]
                rfl
          · rw [hran.peers, LayerTrace.flushed, LayerCall.flushPeers, List.map_append,
              List.append_assoc]
            rfl
          · intro hlt
            rw [hran.writeSeq (by rw [hwrite]; exact hlt), hwrite]
            rfl
          · intro hlt
            rw [hran.readSeq (by rw [hread]; exact hlt), hread]
            rfl
      | startTraffic =>
          cases hcall
          have hstart : Progress p e d scheme mem trace (s.1, s.2.startTraffic) :=
            h.of_layer rfl ⟨h.buffered.valid, h.buffered.len, h.buffered.ciphertext⟩
          obtain ⟨trace', hprogress, hran⟩ := ih hstart hrest
          refine ⟨trace', hprogress, hran.encrypted, hran.decrypted, ?_, hran.peers, hran.writeSeq,
            hran.readSeq, hran.log⟩
          rw [hran.shares]
          simp only [RecordLayer.startTraffic]
          cases s.2.encryptBuffer.isEmpty <;> rfl

end Progress

end Tlsn.MpcTls

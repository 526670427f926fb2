import Tlsn.MpcTls.RecordErrors
import Tlsn.MpcTls.RecordTranscript

/-!
Whether what was allocated suffices. A flush and a commit fail with the errors for
what is used up only when the records need more blocks of keystream, or there are more
of them, than was allocated. The limits which the pushes check are limits on bytes:
they do not bound the blocks, of which every record takes whole ones.
-/

namespace Tlsn.MpcTls

open Tlsn.Cipher Tlsn.Common Tlsn.Tls
open AeadError (InputExhausted TagsExhausted)
open MpcTlsError (OfAead)

variable {C D : Type} {scheme : HashCommit C D} {mem : Memory} {peer : PeerShares C D}

namespace Tags

theorem tagShare_spares {Q : AeadError → Prop} (hQ : ∀ e, ¬ Q (.tag (.ghash e))) {ghash : Ghash}
    {j0Share : Block} {aad ciphertext : List UInt8} {e : Fault AeadError}
    (h : tagShare ghash j0Share aad ciphertext = .error e) : Fault.Spares Q e := by
  simp only [tagShare, Fault.convert] at h
  cases hcompute : ghash.compute (buildGhashData aad ciphertext) with
  | ok share =>
      rw [hcompute] at h
      cases h
  | error e' =>
      rw [hcompute] at h
      cases h
      cases e' with
      | panic => trivial
      | err e => exact hQ e

/-- The tag tasks fail with errors of their own. -/
structure Other (Q : AeadError → Prop) : Prop where
  ghash : ∀ e, ¬ Q (.tag (.ghash e))
  commitment : ¬ Q (.tag .commitment)
  length : ¬ Q (.tag (.msg "follower tag shares length mismatch"))
  verify : ¬ Q (.tag (.msg "failed to verify tags"))

theorem other_input : Other InputExhausted where
  ghash _ := Resources.inputExhausted_tag _
  commitment := Resources.inputExhausted_tag _
  length := Resources.inputExhausted_tag _
  verify := Resources.inputExhausted_tag _

theorem other_tags : Other TagsExhausted where
  ghash _ h := nomatch h
  commitment h := nomatch h
  length := Resources.tagsExhausted_msg (by decide)
  verify := Resources.tagsExhausted_msg (by decide)

variable {Q : AeadError → Prop}

theorem computeTags_spares (hQ : Other Q) {task : ComputeTags} {shares : List TagShare}
    {e : Fault AeadError} (h : task.run mem shares = .error e) : Fault.Spares Q e := by
  unfold ComputeTags.run at h
  split at h
  · cases h
  · cases hown : task.tagShares mem with
    | error e' =>
        rw [hown] at h
        cases h
        obtain ⟨data, -, hdata⟩ := Fault.mapM_error hown
        exact tagShare_spares hQ.ghash hdata
    | ok own =>
        rw [hown] at h
        cases hrole : task.role with
        | follower =>
            simp only [hrole] at h
            cases h
        | leader =>
            simp only [hrole] at h
            by_cases hlen : shares.length ≠ own.length
            · rw [Fault.ok_bind, if_pos hlen] at h
              cases h
              exact hQ.length
            · rw [Fault.ok_bind, if_neg hlen] at h
              cases h

theorem verifyTags_spares (hQ : Other Q) {task : VerifyTags} {e : Fault AeadError}
    (h : task.run scheme mem peer = .error e) : Fault.Spares Q e := by
  unfold VerifyTags.run at h
  split at h
  · cases h
  · cases hown : task.tagShares mem with
    | error e' =>
        rw [hown] at h
        cases h
        obtain ⟨data, -, hdata⟩ := Fault.mapM_error hown
        exact tagShare_spares hQ.ghash hdata
    | ok own =>
        rw [hown, Fault.ok_bind] at h
        cases hpeer : VerifyTags.peerTagShares scheme peer task.role own.length with
        | error e' =>
            rw [hpeer] at h
            cases h
            unfold VerifyTags.peerTagShares at hpeer
            split at hpeer
            · split at hpeer
              · cases hpeer
                exact hQ.length
              · cases hpeer
            · split at hpeer
              · cases hpeer
              · cases hpeer
                exact hQ.commitment
        | ok other =>
            rw [hpeer, Fault.ok_bind] at h
            by_cases htags : task.data.map VerifyTagData.tag ≠ List.zipWith TagShare.add own other
            · cases (if_pos htags).symm.trans h
              exact hQ.verify
            · cases (if_neg htags).symm.trans h

end Tags

namespace RecordLayer

variable {Q : AeadError → Prop}

theorem raises_convert {σ α : Type} {x : Except (Fault AeadError) α}
    (hx : ∀ e, x = .error e → Fault.Spares Q e) :
    Fault.Raises (Fault.Spares (OfAead Q))
      (Fault.lift (Fault.convert MpcTlsError.recordLayerAead x) : EStateM _ σ α) := by
  refine Fault.Raises.lift fun e he => ?_
  cases x with
  | ok a => cases he
  | error e' =>
      cases he
      exact MpcTlsError.spares_aead (hx e' rfl)

theorem raises_tryEncrypt (out : EncryptOutput) {σ : Type} :
    Fault.Raises (Fault.Spares (OfAead Q)) (Fault.lift (out.tryEncrypt mem) : EStateM _ σ _) := by
  refine Fault.Raises.lift fun e he => ?_
  cases out with
  | isPrivate ciphertext => cases he
  | isPublic keystream plaintext =>
      by_cases hlen : keystream.len ≠ plaintext.length
      · cases (if_pos hlen).symm.trans he
        exact MpcTlsError.spares_msg _
      · cases (if_neg hlen).symm.trans he

theorem raises_tryDecrypt (out : DecryptOutput) {σ : Type} :
    Fault.Raises (Fault.Spares (OfAead Q)) (Fault.lift (out.tryDecrypt mem) : EStateM _ σ _) := by
  refine Fault.Raises.lift fun e he => ?_
  cases out with
  | isPrivate maskedKeystream otp ciphertext =>
      cases otp with
      | none => cases he
      | some otp => cases he
  | isPublic keystream ciphertext =>
      by_cases hlen : keystream.len ≠ ciphertext.length
      · cases (if_pos hlen).symm.trans he
        exact MpcTlsError.spares_msg _
      · cases (if_neg hlen).symm.trans he
  | isLocal plaintext => cases he

theorem raises_finishEncrypt (xs : List (EncryptOp × PendingEncrypt))
    (tags : Option (List (List UInt8))) :
    Fault.Raises (Fault.Spares (OfAead Q)) (finishEncrypt mem xs tags) := by
  induction xs generalizing tags with
  | nil => exact Fault.Raises.pure _
  | cons x xs ih =>
      refine Fault.Raises.bind (raises_tryEncrypt _) fun ciphertext => ?_
      exact Fault.Raises.bind Fault.Raises.modify fun _ => ih _

theorem raises_finishDecrypt (xs : List (DecryptOp × DecryptOutput)) :
    Fault.Raises (Fault.Spares (OfAead Q)) (finishDecrypt mem xs) := by
  induction xs with
  | nil => exact Fault.Raises.pure _
  | cons x xs ih =>
      refine Fault.Raises.bind (raises_tryDecrypt _) fun plaintext => ?_
      exact Fault.Raises.bind Fault.Raises.modify fun _ => ih

theorem raises_finishCommit (xs : List (DecryptOp × DecryptOutput)) (recv : List Record) :
    Fault.Raises (Fault.Spares (OfAead Q)) (finishCommit mem xs recv) := by
  induction xs generalizing recv with
  | nil => exact Fault.Raises.pure _
  | cons x xs ih =>
      refine Fault.Raises.bind (raises_tryDecrypt _) fun plaintext => ?_
      exact Fault.Raises.bind Fault.Raises.modify fun _ => ih _

/-- Once the inputs are taken, nothing is used up any more. -/
theorem raises_runFlush (hQ : Tags.Other Q) (task : FlushTask) :
    Fault.Raises (Fault.Spares (OfAead Q)) (runFlush scheme mem peer task) := by
  refine Fault.Raises.bind (raises_convert fun e => Tags.computeTags_spares hQ) fun tags => ?_
  refine Fault.Raises.bind (raises_convert fun e => Tags.verifyTags_spares hQ) fun _ => ?_
  refine Fault.Raises.bind (Fault.Raises.onSnd (raises_finishEncrypt _ _)) fun _ => ?_
  exact Fault.Raises.onSnd (raises_finishDecrypt _)

/-! ## A flush -/

variable {e d : Stock} {encryptOps : List EncryptOp} {decryptOps : List DecryptOp}
  {err : Fault MpcTlsError}

/-- Which part of the preparation failed, and with what stock. -/
theorem prepareFlush_error {s s' : Vm × RecordLayer} (hstock : s.2.Stocked e d)
    (hvalid : ∀ op ∈ encryptOps, op.Valid) (hlen : ∀ op ∈ encryptOps, op.len < wordSize)
    (hlen' : ∀ op ∈ decryptOps, op.ciphertext.length < wordSize)
    (h : prepareFlush encryptOps decryptOps s = .error err s') :
    (∃ t, encrypt encryptOps (s.1, s.2.encrypter) = .error err t) ∨
      (∃ vm t, decryptMpc decryptOps ((vm, s.2.decrypter), s.2.state.recvOtp) = .error err t) ∨
      ∃ vm gcm t, gcm.Stocked (d.spent (DecryptOp.remaining d.blocks decryptOps)) ∧
        verifyTags decryptOps (vm, gcm) = .error err t := by
  cases Fault.run_bind_error_iff.mp h with
  | inl h =>
      obtain ⟨t, h, -⟩ := Fault.zoom_error_iff.mp h
      exact .inl ⟨t, h⟩
  | inr h =>
      obtain ⟨pending, s₁, hencrypt, h⟩ := h
      obtain ⟨t, hops, rfl⟩ := onEncrypter_ok_iff.mp hencrypt
      have hfits := encrypt_fit hstock.encrypter hvalid hlen hops
      cases Fault.run_bind_error_iff.mp h with
      | inl h =>
          obtain ⟨t', h, -⟩ := Fault.zoom_error_iff.mp h
          exact .inr (.inl ⟨_, t', h⟩)
      | inr h =>
          obtain ⟨outputs, s₂, hdecrypt, h⟩ := h
          obtain ⟨u, houtputs, rfl⟩ := onDecryptState_ok_iff.mp hdecrypt
          have hword := hstock.decrypter.sized.lt_word
          have hfits' :=
            DecryptOp.decryptMpc_fit decryptOps hlen' hstock.decrypter.state hword houtputs
          rw [DecryptOp.decryptMpc_eq decryptOps hfits' hstock.decrypter.state hword] at houtputs
          cases houtputs
          have hsized := hstock.decrypter.sized.spent (DecryptOp.remaining_le decryptOps d.blocks)
          cases Fault.run_bind_error_iff.mp h with
          | inl h =>
              obtain ⟨t', h, -⟩ := Fault.zoom_error_iff.mp h
              exact .inr (.inr ⟨_, _, t', MpcAesGcm.Stocked.restock hsized, h⟩)
          | inr h =>
              obtain ⟨task, s₃, -, h⟩ := h
              cases h

/-- Either a flush fails while it prepares, or with an error that is not about what is
used up. -/
theorem flush_error {isDecrypting : Bool} {s s' : Vm × RecordLayer} {otp : Option (List UInt8)}
    {sent recv : List Record} (hstate : s.2.state = .online otp sent recv)
    (h : flush scheme mem peer isDecrypting s = .error err s') :
    (∀ Q, Tags.Other Q → Fault.Spares (OfAead Q) err) ∨
      ∃ t, prepareFlush s.2.encryptBuffer (s.2.drainedDecrypts isDecrypting)
        (s.1, s.2.counted isDecrypting) = .error err t := by
  cases Fault.run_bind_error_iff.mp h with
  | inr h =>
      obtain ⟨task, s₁, -, h⟩ := h
      cases task with
      | none => cases h
      | some task => exact .inl fun Q hQ => raises_runFlush hQ task _ _ _ h
  | inl h =>
      cases hskips : s.2.skipsFlush isDecrypting with
      | true =>
          rw [startFlush_of_skips hstate hskips] at h
          cases h
      | false =>
          obtain ⟨vm, layer⟩ := s
          have hdrain : drainBuffers isDecrypting (vm, layer) =
              .ok (layer.encryptBuffer, layer.drainedDecrypts isDecrypting)
                (vm, (layer.drain isDecrypting).2) := rfl
          rw [startFlush, Fault.run_bind_of_ok (requireOnline_eq _ hstate),
            Fault.run_bind_of_ok hdrain] at h
          have hskips' : ¬ (layer.encryptBuffer.isEmpty &&
              (layer.drainedDecrypts isDecrypting).isEmpty) = true := Bool.eq_false_iff.mp hskips
          simp only at h
          rw [if_neg hskips'] at h
          have hprepare : ∀ t, (prepareFlush layer.encryptBuffer
              (layer.drainedDecrypts isDecrypting) >>= fun task => pure (some task)) t =
                .error err s' → prepareFlush layer.encryptBuffer
                  (layer.drainedDecrypts isDecrypting) t = .error err s' := by
            intro t ht
            cases Fault.run_bind_error_iff.mp ht with
            | inl ht => exact ht
            | inr ht =>
                obtain ⟨task, s₁, -, ht⟩ := ht
                cases ht
          cases isDecrypting with
          | false => exact .inr ⟨s', hprepare _ h⟩
          | true =>
              have honline : layer.onlineAfter true =
                  wrap (layer.recvOnline + decryptLen (layer.drainedDecrypts true)) := by
                have hskips' : layer.skipsFlush true = false := hskips
                rw [onlineAfter, hskips', Bool.not_false, Bool.and_true, if_pos rfl]
              rw [if_pos rfl] at h
              cases Fault.run_bind_error_iff.mp h with
              | inl h =>
                  refine .inl fun Q _ => Fault.Raises.onSnd (fun s e s' he => ?_) _ _ _ h
                  unfold countOnline at he
                  split at he
                  · cases he
                    exact MpcTlsError.spares_msg _
                  · cases he
              | inr h =>
                  obtain ⟨⟨⟩, ⟨vm₁, layer₁⟩, hcount, h⟩ := h
                  obtain ⟨hcount, hvm⟩ := Fault.onSnd_ok_iff.mp hcount
                  refine .inr ⟨s', hprepare _ ?_⟩
                  have hlayer : layer₁ = layer.counted true := by
                    unfold countOnline at hcount
                    split at hcount
                    · cases hcount
                    · cases hcount
                      rw [counted, honline]
                      rfl
                  rw [← hlayer, ← show vm₁ = vm from hvm]
                  exact h

/-! ## A commit -/

theorem raises_decodeKey :
    Fault.Raises (Fault.Spares (OfAead Q)) (onAesCtr AesCtr.decodeKey) := by
  refine Fault.Raises.zoom fun s e s' h => ?_
  unfold AesCtr.decodeKey at h
  split at h
  · cases h
  · cases h
    exact MpcTlsError.spares_msg _

theorem raises_finishDecode :
    Fault.Raises (Fault.Spares (OfAead Q)) (onAesCtr (Fault.onSnd (AesCtr.finishDecode mem))) := by
  refine Fault.Raises.zoom (Fault.Raises.onSnd fun s e s' h => ?_)
  unfold AesCtr.finishDecode at h
  split at h
  · split at h
    · split at h
      · cases h
      · cases h
        trivial
    · cases h
  · cases h
    exact MpcTlsError.spares_msg _

variable {cipher : LocalAesCtr}

/-- Which part of a commit failed, and with what stock. -/
theorem commit_error {s s' : Vm × RecordLayer} {otp : Option (List UInt8)} {sent recv : List Record}
    (hstock : s.2.Stocked e d) (hstate : s.2.state = .online otp sent recv)
    (h : commit scheme cipher mem peer s = .error err s') :
    (∀ Q, Tags.Other Q → Fault.Spares (OfAead Q) err) ∨
      (∃ t, verifyTags s.2.decryptBuffer (s.1, s.2.decrypter) = .error err t) ∨
      ∃ vm gcm ctr t, gcm.Stocked (d.tagged s.2.decryptBuffer.length) ∧
        decryptLocal s.2.role cipher ctr s.2.decryptBuffer (vm, gcm) = .error err t := by
  obtain ⟨vm, layer⟩ := s
  have honline : takeOnline (vm, layer) =
      .ok (sent, recv) (vm, { layer with state := .error }) := by
    rw [takeOnline, hstate]
  rw [commit, Fault.run_bind_of_ok honline] at h
  cases Fault.run_bind_error_iff.mp h with
  | inl h =>
      refine .inl fun Q _ => ?_
      unfold takeBuffered at h
      split at h
      · cases h
      · cases h
        intro he
        cases he
  | inr h =>
      obtain ⟨ops, s₂, htake, h⟩ := h
      have hempty : layer.encryptBuffer.isEmpty = true := by
        by_contra hne
        rw [takeBuffered, if_neg hne] at htake
        cases htake
      rw [takeBuffered, if_pos hempty] at htake
      cases htake
      cases Fault.run_bind_error_iff.mp h with
      | inl h =>
          obtain ⟨t, h, -⟩ := Fault.zoom_error_iff.mp h
          exact .inr (.inl ⟨t, h⟩)
      | inr h =>
          obtain ⟨task, s₃, hverify, h⟩ := h
          obtain ⟨u, htask, rfl⟩ := onDecrypter_ok_iff.mp hverify
          have hfits := verifyTags_fit hstock.decrypter htask
          cases (verifyTags_eq (s := (vm, layer.decrypter)) hstock.decrypter hfits).symm.trans htask
          cases Fault.run_bind_error_iff.mp h with
          | inl h =>
              exact .inl fun Q hQ =>
                raises_convert (fun e => Tags.verifyTags_spares hQ) _ _ _ h
          | inr h =>
              obtain ⟨⟨⟩, s₄, hrun, h⟩ := h
              obtain ⟨-, rfl⟩ := Fault.lift_ok_iff.mp hrun
              cases Fault.run_bind_error_iff.mp h with
              | inl h => exact .inl fun Q _ => raises_decodeKey _ _ _ h
              | inr h =>
                  obtain ⟨⟨⟩, s₅, hdecode, h⟩ := h
                  obtain ⟨v, -, rfl⟩ := onAesCtr_ok_iff.mp hdecode
                  cases Fault.run_bind_error_iff.mp h with
                  | inl h => exact .inl fun Q _ => raises_finishDecode _ _ _ h
                  | inr h =>
                      obtain ⟨⟨⟩, s₆, hfinish, h⟩ := h
                      obtain ⟨w, -, rfl⟩ := onAesCtr_ok_iff.mp hfinish
                      rw [Fault.get_bind, Fault.get_bind] at h
                      cases Fault.run_bind_error_iff.mp h with
                      | inl h =>
                          obtain ⟨t, h, -⟩ := Fault.zoom_error_iff.mp h
                          exact .inr (.inr ⟨_, _, _, t, MpcAesGcm.Stocked.restock
                            (hstock.decrypter.sized.tagged _), h⟩)
                      | inr h =>
                          obtain ⟨pending, s₇, -, h⟩ := h
                          refine .inl fun Q _ => Fault.Raises.bind (Fault.Raises.onSnd
                            (raises_finishCommit _ _)) (fun _ => ?_) _ _ _ h
                          exact Fault.Raises.bind Fault.Raises.modify fun _ => Fault.Raises.pure _

end RecordLayer

/-! ## Runs -/

theorem EncryptOp.remaining_eq (ops : List EncryptOp) (n : Nat) :
    remaining n ops = n - blockTotal ops := by
  induction ops generalizing n with
  | nil => rfl
  | cons op ops ih =>
      rw [remaining, ih, blockTotal, blockTotal, List.map_cons, List.sum_cons, Nat.sub_sub]

theorem DecryptOp.remaining_eq (ops : List DecryptOp) (n : Nat) :
    remaining n ops = n - blockTotal ops := by
  induction ops generalizing n with
  | nil => rfl
  | cons op ops ih =>
      rw [remaining, ih, blockTotal, blockTotal, List.map_cons, List.sum_cons, Nat.sub_sub]

theorem EncryptOp.blockTotal_append (ops ops' : List EncryptOp) :
    blockTotal (ops ++ ops') = blockTotal ops + blockTotal ops' := by
  rw [blockTotal, blockTotal, blockTotal, List.map_append, List.sum_append]

namespace RecordLayer

/-- The records that have been decrypted. -/
def received (layer : RecordLayer) : List Record :=
  match layer.state with
  | .online _ _ recv => recv
  | _ => []

/-- The blocks of keystream which decrypting the records took. -/
def receivedTotal (layer : RecordLayer) : Nat :=
  (layer.received.map fun record => divCeil record.ciphertext.length 16).sum

end RecordLayer

namespace Progress

open RecordLayer

variable {p : LayerParams} {e d : Stock} {trace : LayerTrace C D} {s s' : Vm × RecordLayer}
  {err : Fault MpcTlsError} {isDecrypting : Bool} {cipher : LocalAesCtr}

theorem received_eq (h : Progress p e d scheme mem trace s) :
    s.2.receivedTotal = DecryptOp.blockTotal trace.decrypted ∧
      s.2.received.length = trace.decrypted.length := by
  have hrecv : s.2.received = (DecryptOp.decrypted d.layout mem d.blocks p.recvOtp
      trace.decrypted).map fun r => r.1.recvRecord r.2 := by
    rw [received, h.state]
  have hfst := DecryptOp.map_fst_decrypted d.layout mem d.blocks p.recvOtp trace.decrypted
  constructor
  · rw [receivedTotal, hrecv, DecryptOp.blockTotal]
    conv_rhs => rw [← hfst]
    rw [List.map_map, List.map_map]
    rfl
  · rw [hrecv, List.length_map]
    conv_rhs => rw [← hfst]
    rw [List.length_map]

/-- With blocks for all the records, a flush does not run out of keystream. -/
theorem flush_input (h : Progress p e d scheme mem trace s)
    (hsent : EncryptOp.blockTotal (trace.encrypted ++ s.2.encryptBuffer) ≤ e.blocks)
    (hrecv : s.2.receivedTotal + DecryptOp.blockTotal (s.2.drainedDecrypts isDecrypting) ≤ d.blocks)
    (hflush : RecordLayer.flush scheme mem peer isDecrypting s = .error err s') :
    Fault.Spares (OfAead InputExhausted) err := by
  rw [EncryptOp.blockTotal_append] at hsent
  rw [h.received_eq.1] at hrecv
  cases flush_error h.state hflush with
  | inl hspares => exact hspares _ Tags.other_input
  | inr hprepare =>
      obtain ⟨t, hprepare⟩ := hprepare
      have hstock : (s.2.counted isDecrypting).Stocked _ _ :=
        ⟨h.stocked.encrypter, h.stocked.decrypter, h.stocked.encrypter_role,
          h.stocked.decrypter_role⟩
      have hdrained : ∀ op ∈ s.2.drainedDecrypts isDecrypting, op.ciphertext.length < wordSize :=
        fun op hop => h.buffered.ciphertext op (List.mem_of_mem_take hop)
      obtain ⟨t, herr⟩ | ⟨vm, t, herr⟩ | ⟨vm, gcm, t, -, herr⟩ :=
        prepareFlush_error hstock h.buffered.valid h.buffered.len hdrained hprepare
      · refine encrypt_spares_input h.stocked.encrypter h.buffered.valid h.buffered.len ?_ herr
        simp only [Stock.encrypted, Stock.spent, EncryptOp.remaining_eq]
        omega
      · refine DecryptOp.decryptMpc_spares _ hdrained h.stocked.decrypter.state
          h.stocked.decrypter.sized.lt_word ?_ herr
        simp only [Stock.decrypted, Stock.spent, DecryptOp.remaining_eq]
        omega
      · exact raises_verifyTags _ _ _ _ herr

/-- With a block for each of the records, a flush does not run out of those for tags. -/
theorem flush_tags (h : Progress p e d scheme mem trace s)
    (hsent : (trace.encrypted ++ s.2.encryptBuffer).length ≤ e.j0s.length)
    (hrecv : s.2.received.length + (s.2.drainedDecrypts isDecrypting).length ≤ d.j0s.length)
    (hflush : RecordLayer.flush scheme mem peer isDecrypting s = .error err s') :
    Fault.Spares (OfAead TagsExhausted) err := by
  rw [List.length_append] at hsent
  rw [h.received_eq.2] at hrecv
  cases flush_error h.state hflush with
  | inl hspares => exact hspares _ Tags.other_tags
  | inr hprepare =>
      obtain ⟨t, hprepare⟩ := hprepare
      have hstock : (s.2.counted isDecrypting).Stocked _ _ :=
        ⟨h.stocked.encrypter, h.stocked.decrypter, h.stocked.encrypter_role,
          h.stocked.decrypter_role⟩
      have hdrained : ∀ op ∈ s.2.drainedDecrypts isDecrypting, op.ciphertext.length < wordSize :=
        fun op hop => h.buffered.ciphertext op (List.mem_of_mem_take hop)
      obtain ⟨t, herr⟩ | ⟨vm, t, herr⟩ | ⟨vm, gcm, t, hgcm, herr⟩ :=
        prepareFlush_error hstock h.buffered.valid h.buffered.len hdrained hprepare
      · refine encrypt_spares_tags h.stocked.encrypter h.buffered.valid h.buffered.len ?_ herr
        simp only [Stock.encrypted, Stock.spent, Stock.tagged, J0.length_rest]
        omega
      · exact DecryptOp.raises_decryptMpc _ _ _ _ herr
      · refine verifyTags_spares hgcm ?_ herr
        simp only [Stock.decrypted, Stock.spent, Stock.tagged, J0.length_rest]
        omega

theorem commit_input (h : Progress p e d scheme mem trace s)
    (hrecv : s.2.receivedTotal + DecryptOp.localTotal s.2.decryptBuffer ≤ d.blocks)
    (hcommit : RecordLayer.commit scheme cipher mem peer s = .error err s') :
    Fault.Spares (OfAead InputExhausted) err := by
  rw [h.received_eq.1] at hrecv
  obtain hspares | ⟨t, herr⟩ | ⟨vm, gcm, ctr, t, hgcm, herr⟩ :=
    commit_error h.stocked h.state hcommit
  · exact hspares _ Tags.other_input
  · exact raises_verifyTags _ _ _ _ herr
  · refine DecryptOp.decryptLocal_spares _ h.buffered.ciphertext hgcm ?_ herr
    simp only [Stock.decrypted, Stock.spent, Stock.tagged, DecryptOp.remaining_eq]
    omega

theorem commit_tags (h : Progress p e d scheme mem trace s)
    (hrecv : (trace.decrypted ++ s.2.decryptBuffer).length ≤ d.j0s.length)
    (hcommit : RecordLayer.commit scheme cipher mem peer s = .error err s') :
    Fault.Spares (OfAead TagsExhausted) err := by
  rw [List.length_append] at hrecv
  obtain hspares | ⟨t, herr⟩ | ⟨vm, gcm, ctr, t, -, herr⟩ :=
    commit_error h.stocked h.state hcommit
  · exact hspares _ Tags.other_tags
  · refine verifyTags_spares h.stocked.decrypter ?_ herr
    simp only [Stock.decrypted, Stock.spent, Stock.tagged, J0.length_rest]
    omega
  · exact DecryptOp.raises_decryptLocal _ _ _ _ _ _ _ herr

end Progress

namespace RecordLayer

/-- The error is not that keystream, texts or blocks for tags are used up. -/
def Served (err : Fault MpcTlsError) : Prop :=
  Fault.Spares (OfAead InputExhausted) err ∧ Fault.Spares (OfAead TagsExhausted) err

variable {p : LayerParams} {s s' : Vm × RecordLayer}

/-- What was allocated suffices for every run whose records fit in it block by block and
one by one: no flush, and no commit, finds it used up. -/
theorem allocation_suffices (calls : List (LayerCall C D)) (hstart : p.Established mem s)
    (hrun : LayerCall.runAll scheme mem calls s = .ok () s')
    (hsent : EncryptOp.blockTotal (LayerCall.encryptPushes 0 calls) ≤ divCeil p.sentLen 16)
    (hsentRecords : (LayerCall.encryptPushes 0 calls).length ≤ p.sentRecords) :
    (∀ (peer : PeerShares C D) (isDecrypting : Bool) (err : Fault MpcTlsError)
        (s'' : Vm × RecordLayer),
      s'.2.receivedTotal + DecryptOp.blockTotal (s'.2.drainedDecrypts isDecrypting) ≤
        divCeil p.recvLenOnline 16 →
      s'.2.received.length + (s'.2.drainedDecrypts isDecrypting).length ≤ p.recvRecords →
      flush scheme mem peer isDecrypting s' = .error err s'' → Served err) ∧
    ∀ (cipher : LocalAesCtr) (peer : PeerShares C D) (err : Fault MpcTlsError)
        (s'' : Vm × RecordLayer),
      s'.2.receivedTotal + DecryptOp.localTotal s'.2.decryptBuffer ≤ divCeil p.recvLenOnline 16 →
      s'.2.received.length + s'.2.decryptBuffer.length ≤ p.recvRecords →
      commit scheme cipher mem peer s' = .error err s'' → Served err := by
  obtain ⟨e, d, hprogress, hfresh, he, hd⟩ := Progress.of_established hstart
  obtain ⟨trace, hfinal, hran⟩ := hprogress.runAll calls hrun
  have hpushed : trace.encrypted ++ s'.2.encryptBuffer = LayerCall.encryptPushes 0 calls := by
    have h := hran.encrypted
    rw [hfresh.encryptBuffer, hfresh.writeSeq] at h
    exact h
  rw [← he.blocks, ← hpushed] at hsent
  rw [← he.records, ← hpushed] at hsentRecords
  constructor
  · intro peer isDecrypting err s'' hblocks hrecords hflush
    rw [← hd.blocks] at hblocks
    rw [← hd.records] at hrecords
    exact ⟨hfinal.flush_input hsent hblocks hflush, hfinal.flush_tags hsentRecords hrecords hflush⟩
  · intro cipher peer err s'' hblocks hrecords hcommit
    rw [← hd.blocks] at hblocks
    rw [← hd.records, hfinal.received_eq.2, ← List.length_append] at hrecords
    exact ⟨hfinal.commit_input hblocks hcommit, hfinal.commit_tags hrecords hcommit⟩

theorem allocation_suffices_sample :
    LayerCall.runAll sampleScheme sampleMemory sampleCalls sampleStart = .ok () sampleFlushed ∧
      ∀ (err : Fault MpcTlsError) (s'' : Vm × RecordLayer),
        commit sampleScheme sampleCipher sampleMemory samplePeer sampleFlushed = .error err s'' →
          Served err :=
  ⟨sampleRun_eq, fun err s'' =>
    (allocation_suffices sampleCalls sampleStart_established sampleRun_eq
      (by decide +kernel) (by decide +kernel)).2 sampleCipher samplePeer err s''
        (by decide +kernel) (by decide +kernel)⟩

/-- Room for four records with 48 bytes in all, which are three blocks. -/
def tightParams : LayerParams :=
  { sampleParams with
    role := .follower
    sentRecords := ⟨4, by decide⟩
    sentLen := ⟨48, forty_eight_lt_wordSize⟩ }

/-- Four records with 34 bytes in all, none of which has more than a block. -/
def tightCalls : List (LayerCall (List TagShare) (List TagShare)) :=
  [.pushEncrypt .handshake .tlsV1_2 ⟨16, sixteen_lt_wordSize⟩ none .isPrivate,
    .pushEncrypt .applicationData .tlsV1_2 ⟨8, eight_lt_wordSize⟩ none .isPrivate,
    .pushEncrypt .applicationData .tlsV1_2 ⟨8, eight_lt_wordSize⟩ none .isPrivate,
    .pushEncrypt .alert .tlsV1_2 ⟨2, two_lt_wordSize⟩ none .isPrivate]

theorem tightAlloc_ok :
    (Fault.result? (tightParams.alloc (⟨40, []⟩, tightParams.create))).isSome = true := by
  decide +kernel

def tightAllocated : Vm × RecordLayer := (Option.get _ tightAlloc_ok).2

theorem tightSetup_ok : (Fault.result? (setup sampleMemory sampleGhash sampleGhash
    (tightAllocated.1.push [], tightAllocated.2))).isSome = true := by
  decide +kernel

def tightStart : Vm × RecordLayer := (Option.get _ tightSetup_ok).2

theorem tightAlloc_eq :
    tightParams.alloc (⟨40, []⟩, tightParams.create) = .ok () tightAllocated :=
  Fault.ok_get_state tightAlloc_ok

theorem tightSetup_eq : setup sampleMemory sampleGhash sampleGhash
    (tightAllocated.1.push [], tightAllocated.2) = .ok () tightStart :=
  Fault.ok_get_state tightSetup_ok

theorem tightStart_established : tightParams.Established sampleMemory tightStart :=
  ⟨_, _, _, _, _, tightAlloc_eq, tightSetup_eq⟩

theorem tightRun_ok : (Fault.result? (LayerCall.runAll sampleScheme sampleMemory tightCalls
    tightStart)).isSome = true := by
  decide +kernel

def tightPushed : Vm × RecordLayer := (Option.get _ tightRun_ok).2

theorem tightRun_eq : LayerCall.runAll sampleScheme sampleMemory tightCalls tightStart =
    .ok () tightPushed :=
  Fault.ok_get_state tightRun_ok

theorem tightFlush_error : Fault.error? (flush sampleScheme sampleMemory samplePeer true
    tightPushed) = some (.err (.recordLayerAead (.exceedsAllocated 16 0))) := by
  decide +kernel

/-- The pushes accept the records, and the flush does not have a block for the last. -/
theorem tightFlush_exhausted :
    tightParams.Established sampleMemory tightStart ∧
      LayerCall.runAll sampleScheme sampleMemory tightCalls tightStart = .ok () tightPushed ∧
      tightPushed.2.sent ≤ tightPushed.2.maxSent ∧
      tightPushed.2.encryptBuffer.length ≤ tightParams.sentRecords ∧
      ∃ s, flush sampleScheme sampleMemory samplePeer true tightPushed =
        .error (.err (.recordLayerAead (.exceedsAllocated 16 0))) s :=
  ⟨tightStart_established, tightRun_eq, by decide +kernel, by decide +kernel,
    Fault.error_of_error? tightFlush_error⟩

end RecordLayer

end Tlsn.MpcTls

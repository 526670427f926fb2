import Tlsn.MpcTls.RecordRun

/-!
What the record layer fails with. Keystream and blocks for tags are allocated once,
and a call which finds them used up fails with an error of its own. Records whose
blocks fit in what was allocated never see that error.
-/

namespace Tlsn.MpcTls

open Tlsn.Cipher Tlsn.Common Tlsn.Tls

namespace AeadError

/-- The keystream, or the texts to which it is applied, are used up. -/
inductive InputExhausted : AeadError → Prop where
  | texts (paddedLen inputLen : Nat) : InputExhausted (.exceedsAllocated paddedLen inputLen)
  | keystream : InputExhausted (.cipher (.cipher (.msg "insufficient keystream")))

/-- The blocks for tags are used up. -/
inductive TagsExhausted : AeadError → Prop where
  | blocks : TagsExhausted (.tag (.msg "ciphertext length exceeds allocated"))

theorem exceedsAllocated_ne_nonceLength (paddedLen inputLen actual : Nat) :
    nonceLength actual ≠ exceedsAllocated paddedLen inputLen := by
  intro h
  injection h with h
  injection h with h
  have hhead := congrArg (fun text => text.toList.head?) h
  have hnonce : "explicit nonce length: expected ".toList.head? = some 'e' := by decide
  have hinput : "input length exceeds allocated: ".toList.head? = some 'i' := by decide
  simp only [String.toList_append, List.head?_append, hnonce, hinput, Option.some_or] at hhead
  exact absurd hhead (by decide)

theorem nonceLength_spares (actual : Nat) : ¬ InputExhausted (nonceLength actual) := by
  intro h
  generalize he : nonceLength actual = e at h
  cases h with
  | texts paddedLen inputLen => exact exceedsAllocated_ne_nonceLength _ _ _ he
  | keystream => cases he

end AeadError

open AeadError (InputExhausted TagsExhausted)

/-- The error of the record layer for an error of this kind. -/
inductive MpcTlsError.OfAead (Q : AeadError → Prop) : MpcTlsError → Prop where
  | aead {e : AeadError} (h : Q e) : OfAead Q (.recordLayerAead e)

namespace MpcTlsError

variable {Q : AeadError → Prop} {σ α : Type}

theorem spares_aead {e : Fault AeadError} (h : Fault.Spares Q e) :
    Fault.Spares (OfAead Q) (e.map recordLayerAead) := by
  cases e with
  | panic => trivial
  | err e =>
      intro he
      cases he with
      | aead he => exact h he

theorem raises_aead {x : EStateM (Fault AeadError) σ α} (h : Fault.Raises (Fault.Spares Q) x) :
    Fault.Raises (Fault.Spares (OfAead Q)) (Fault.adapt recordLayerAead x) :=
  Fault.Raises.adapt fun s e s' he => spares_aead (h s e s' he)

theorem raises_vm {x : EStateM (Fault VmError) σ α} :
    Fault.Raises (Fault.Spares (OfAead Q)) (Fault.adapt recordLayerVm x) := by
  refine Fault.Raises.adapt fun s e s' _ => ?_
  cases e with
  | panic => trivial
  | err e =>
      intro he
      cases he

theorem spares_msg (text : String) : Fault.Spares (OfAead Q) (recordLayerMsg text) := by
  intro he
  cases he

end MpcTlsError

/-! ## Keystream -/

namespace Resources

/-- An error which is not about tags. -/
theorem raises_cipher {σ α ε : Type} {f : ε → AeadError.Source} {x : EStateM (Fault ε) σ α} :
    Fault.Raises (Fault.Spares TagsExhausted) (Fault.adapt (fun e => .cipher (f e)) x) := by
  refine Fault.Raises.adapt fun s e s' _ => ?_
  cases e with
  | panic => trivial
  | err e =>
      intro he
      cases he

theorem raises_nonceOf (nonce : List UInt8) {Q : AeadError → Prop}
    (hQ : ∀ n, ¬ Q (.nonceLength n)) {σ : Type} :
    Fault.Raises (Fault.Spares Q) (Fault.lift (nonceOf nonce) : EStateM _ σ _) := by
  refine Fault.Raises.lift fun e he => ?_
  unfold nonceOf at he
  split at he
  · cases he
  · cases he
    exact hQ _

theorem raises_splitInput (pos : Nat) :
    Fault.Raises (Fault.Spares TagsExhausted) (splitInput pos) := by
  intro s e s' h
  unfold splitInput Slice.splitOff at h
  by_cases hpos : pos ≤ s.2.input.len
  · rw [if_pos hpos] at h
    cases h
  · rw [if_neg hpos] at h
    cases h
    trivial

theorem raises_splitOutput (pos : Nat) :
    Fault.Raises (Fault.Spares TagsExhausted) (splitOutput pos) := by
  intro s e s' h
  unfold splitOutput Slice.splitOff at h
  by_cases hpos : pos ≤ s.2.output.len
  · rw [if_pos hpos] at h
    cases h
  · rw [if_neg hpos] at h
    cases h
    trivial

theorem raises_consume (len : Nat) : Fault.Raises (Fault.Spares TagsExhausted) (consume len) := by
  intro s e s' h
  unfold consume at h
  split at h
  · cases h
  · rename_i e' _ _
    cases h
    cases e' with
    | panic => trivial
    | err e =>
        intro he
        cases he

theorem raises_onVm {α : Type} (x : EStateM (Fault VmError) Vm α) :
    Fault.Raises (Fault.Spares TagsExhausted) (onVm x) :=
  Fault.Raises.onFst raises_cipher

theorem raises_padInput (role : Role) (input : Slice) (paddingLen : Nat) :
    Fault.Raises (Fault.Spares TagsExhausted) (padInput role input paddingLen) := by
  have hsplit : Fault.Raises (Fault.Spares TagsExhausted) (Fault.lift
      (input.splitOff (wrapSub input.len paddingLen)) :
        EStateM (Fault AeadError) (Vm × Resources) (Slice × Slice)) := by
    refine Fault.Raises.lift fun e he => ?_
    unfold Slice.splitOff at he
    split at he
    · cases he
    · cases he
      trivial
  refine Fault.Raises.bind hsplit fun parts => ?_
  refine Fault.Raises.ite ?_ ?_
  · refine Fault.Raises.bind (raises_onVm _) fun _ => ?_
    exact Fault.Raises.bind (raises_onVm _) fun _ => Fault.Raises.pure _
  · exact Fault.Raises.bind (raises_onVm _) fun _ => Fault.Raises.pure _

theorem nonceLength_spares_tags (n : Nat) : ¬ TagsExhausted (.nonceLength n) := by
  intro h
  cases h

theorem exceedsAllocated_spares_tags (paddedLen inputLen : Nat) :
    ¬ TagsExhausted (.exceedsAllocated paddedLen inputLen) := by
  intro h
  cases h

theorem raises_applyKeystream (role : Role) (nonce : List UInt8) (len : Nat) :
    Fault.Raises (Fault.Spares TagsExhausted) (applyKeystream role nonce len) := by
  refine Fault.Raises.bind (raises_nonceOf nonce nonceLength_spares_tags) fun _ => ?_
  refine Fault.Raises.bind Fault.Raises.get fun s => ?_
  refine Fault.Raises.ite ?_ ?_
  · exact Fault.Raises.throw_bind (exceedsAllocated_spares_tags _ _)
  · refine Fault.Raises.bind (raises_splitInput _) fun _ => ?_
    refine Fault.Raises.bind (raises_consume _) fun _ => ?_
    refine Fault.Raises.bind Fault.Raises.get fun s => ?_
    refine Fault.Raises.bind (raises_splitOutput _) fun _ => ?_
    refine Fault.Raises.bind (Fault.Raises.onFst raises_cipher) fun _ => ?_
    refine Fault.Raises.ite ?_ (Fault.Raises.pure _)
    exact Fault.Raises.bind (raises_padInput _ _ _) fun _ => Fault.Raises.pure _

theorem raises_takeKeystream (nonce : List UInt8) (len : Nat) :
    Fault.Raises (Fault.Spares TagsExhausted) (takeKeystream nonce len) := by
  refine Fault.Raises.bind (raises_nonceOf nonce nonceLength_spares_tags) fun _ => ?_
  refine Fault.Raises.bind Fault.Raises.get fun s => ?_
  refine Fault.Raises.ite ?_ ?_
  · exact Fault.Raises.throw_bind (exceedsAllocated_spares_tags _ _)
  · refine Fault.Raises.bind (raises_splitInput _) fun _ => ?_
    refine Fault.Raises.bind Fault.Raises.get fun s => ?_
    refine Fault.Raises.bind (raises_splitOutput _) fun _ => ?_
    refine Fault.Raises.bind (raises_consume _) fun _ => ?_
    refine Fault.Raises.bind (Fault.Raises.onFst raises_cipher) fun _ => ?_
    refine Fault.Raises.lift fun e he => ?_
    unfold Fault.convert at he
    cases hvector : Keystream.toVector _ len with
    | ok r =>
        rw [hvector] at he
        cases he
    | error e' =>
        rw [hvector] at he
        cases he
        cases e' with
        | panic => trivial
        | err e =>
            intro he
            cases he

/-! ## Blocks for tags -/

theorem raises_takeJ0s {Q : AeadError → Prop} (hnonce : ∀ n, ¬ Q (.nonceLength n))
    (hvm : ∀ e, ¬ Q (.cipher (.vm e))) (data : List TagData) :
    Fault.Raises (Fault.Spares Q) (takeJ0s data) := by
  have honVm : ∀ {α : Type} (x : EStateM (Fault VmError) Vm α),
      Fault.Raises (Fault.Spares Q) (onVm x) := by
    intro α x
    refine Fault.Raises.onFst (Fault.Raises.adapt fun s e s' _ => ?_)
    cases e with
    | panic => trivial
    | err e => exact hvm e
  have hpop : Fault.Raises (Fault.Spares Q) popJ0 := by
    intro s e s' h
    unfold popJ0 at h
    split at h
    · cases h
      trivial
    · cases h
  induction data with
  | nil => exact Fault.Raises.pure _
  | cons d data ih =>
      refine Fault.Raises.bind (raises_nonceOf _ hnonce) fun nonce => ?_
      refine Fault.Raises.bind hpop fun j0 => ?_
      refine Fault.Raises.bind ?_ fun _ => Fault.Raises.bind ih fun _ => Fault.Raises.pure _
      refine Fault.Raises.bind (honVm _) fun _ => Fault.Raises.bind (honVm _) fun _ => ?_
      exact Fault.Raises.bind (honVm _) fun _ => honVm _

section

variable {role : Role} {ghash : Ghash} {ciphertexts : List (Future (List UInt8))}
  {data : List TagData} {texts tags : List (List UInt8)}

theorem inputExhausted_vm (e : VmError) : ¬ InputExhausted (.cipher (.vm e)) := by
  intro h
  generalize he : AeadError.cipher (.vm e) = x at h
  cases h <;> cases he

theorem inputExhausted_tag (source : AeadError.Source) : ¬ InputExhausted (.tag source) := by
  intro h
  generalize he : AeadError.tag source = x at h
  cases h <;> cases he

theorem raises_computeTags :
    Fault.Raises (Fault.Spares InputExhausted) (computeTags role ghash ciphertexts data) := by
  refine Fault.Raises.ite (Fault.Raises.throw (inputExhausted_tag _)) ?_
  refine Fault.Raises.bind Fault.Raises.get fun s => ?_
  refine Fault.Raises.ite (Fault.Raises.throw (inputExhausted_tag _)) ?_
  refine Fault.Raises.bind ?_ fun _ => Fault.Raises.pure _
  exact raises_takeJ0s AeadError.nonceLength_spares inputExhausted_vm data

theorem raises_verifyTags :
    Fault.Raises (Fault.Spares InputExhausted) (verifyTags role ghash data texts tags) := by
  refine Fault.Raises.ite (Fault.Raises.throw (inputExhausted_tag _)) ?_
  refine Fault.Raises.ite (Fault.Raises.throw (inputExhausted_tag _)) ?_
  refine Fault.Raises.bind Fault.Raises.get fun s => ?_
  refine Fault.Raises.ite (Fault.Raises.throw (inputExhausted_tag _)) ?_
  refine Fault.Raises.bind ?_ fun _ => Fault.Raises.pure _
  exact raises_takeJ0s AeadError.nonceLength_spares inputExhausted_vm data

theorem tagsExhausted_msg {text : String} (h : text ≠ "ciphertext length exceeds allocated") :
    ¬ TagsExhausted (.tag (.msg text)) := by
  intro he
  cases he
  exact h rfl

theorem raises_takeJ0s_tags (data : List TagData) :
    Fault.Raises (Fault.Spares TagsExhausted) (takeJ0s data) :=
  raises_takeJ0s nonceLength_spares_tags (fun _ he => nomatch he) data

theorem computeTags_spares {s s' : Vm × Resources} {e : Fault AeadError}
    (hcount : ciphertexts.length ≤ s.2.j0s.length)
    (h : computeTags role ghash ciphertexts data s = .error e s') :
    Fault.Spares TagsExhausted e := by
  unfold computeTags at h
  by_cases hlen : ciphertexts.length = data.length
  · rw [if_neg (not_not_intro hlen), Fault.get_bind, if_neg (Nat.not_lt.mpr hcount)] at h
    exact Fault.Raises.bind (raises_takeJ0s_tags data) (fun _ => Fault.Raises.pure _) _ _ _ h
  · rw [if_pos hlen] at h
    cases h
    exact tagsExhausted_msg (by decide)

theorem verifyTags_spares {s s' : Vm × Resources} {e : Fault AeadError}
    (hcount : texts.length ≤ s.2.j0s.length)
    (h : verifyTags role ghash data texts tags s = .error e s') :
    Fault.Spares TagsExhausted e := by
  unfold verifyTags at h
  by_cases hlen : texts.length = data.length
  · rw [if_neg (not_not_intro hlen)] at h
    by_cases hlen' : texts.length = tags.length
    · rw [if_neg (not_not_intro hlen'), Fault.get_bind, if_neg (Nat.not_lt.mpr hcount)] at h
      exact Fault.Raises.bind (raises_takeJ0s_tags data) (fun _ => Fault.Raises.pure _) _ _ _ h
    · rw [if_pos hlen'] at h
      cases h
      exact tagsExhausted_msg (by decide)
  · rw [if_pos hlen] at h
    cases h
    exact tagsExhausted_msg (by decide)

end

end Resources

namespace MpcAesGcm

section

variable {α : Type} {Q : AeadError → Prop} {text : String}
  {x : Role → Ghash → EStateM (Fault AeadError) (Vm × Resources) α}

theorem whenReady_spares {s s' : Vm × MpcAesGcm} {e : Fault AeadError}
    (hx : ∀ resources ghash, s.2.state = .ready resources ghash →
      ∀ e t, x s.2.role ghash (s.1, resources) = .error e t → Fault.Spares Q e)
    (hQ : ∀ source, ¬ Q (.state source)) (h : whenReady text x s = .error e s') :
    Fault.Spares Q e := by
  unfold whenReady at h
  split at h
  · rename_i resources ghash hstate
    split at h
    · cases h
    · rename_i hfail
      cases h
      exact hx resources ghash hstate _ _ hfail
  · cases h
    exact hQ _

theorem raises_whenReady (hx : ∀ role ghash, Fault.Raises (Fault.Spares Q) (x role ghash))
    (hQ : ∀ source, ¬ Q (.state source)) : Fault.Raises (Fault.Spares Q) (whenReady text x) :=
  fun _ _ _ h => whenReady_spares (fun _ _ _ => hx _ _ _) hQ h

end

theorem inputExhausted_state (source : AeadError.Source) : ¬ InputExhausted (.state source) := by
  intro h
  generalize he : AeadError.state source = x at h
  cases h <;> cases he

theorem raises_applyKeystream (nonce : List UInt8) (len : Nat) :
    Fault.Raises (Fault.Spares TagsExhausted) (applyKeystream nonce len) :=
  raises_whenReady (fun _ _ => Resources.raises_applyKeystream _ _ _) (fun _ he => nomatch he)

theorem raises_takeKeystream (nonce : List UInt8) (len : Nat) :
    Fault.Raises (Fault.Spares TagsExhausted) (takeKeystream nonce len) :=
  raises_whenReady (fun _ _ => Resources.raises_takeKeystream _ _) (fun _ he => nomatch he)

variable {L : Layout} {j0s : List (CtrBlock × OneTimePadShared)} {ghash : Ghash} {n len : Nat}
  {nonce : List UInt8} {s s' : Vm × MpcAesGcm} {e : Fault AeadError}

/-- With blocks for the record, only its nonce can be wrong. -/
theorem applyKeystream_spares (hstate : s.2.state = .ready (L.resources j0s n) ghash)
    (hword : 16 * n < wordSize) (hblocks : divCeil len 16 ≤ n)
    (h : applyKeystream nonce len s = .error e s') : Fault.Spares InputExhausted e := by
  by_cases hnonce : nonce.length = 8
  · rw [applyKeystream_ready hstate hword hnonce hblocks] at h
    cases h
  · rw [applyKeystream,
      whenReady_error hstate (Resources.applyKeystream_nonce s.2.role hnonce _)] at h
    cases h
    exact AeadError.nonceLength_spares _

/-- With blocks for the record, only its nonce can be wrong, or it is empty. -/
theorem takeKeystream_spares (hstate : s.2.state = .ready (L.resources j0s n) ghash)
    (hword : 16 * n < wordSize) (hblocks : divCeil len 16 ≤ n)
    (h : takeKeystream nonce len s = .error e s') : Fault.Spares InputExhausted e := by
  by_cases hnonce : nonce.length = 8
  · by_cases hpos : len = 0
    · subst hpos
      rw [takeKeystream, whenReady_error hstate (Resources.takeKeystream_empty hword hnonce)] at h
      cases h
      intro he
      generalize hx : AeadError.cipher (.cipher (.msg "length must be greater than 0")) = x at he
      cases he with
      | texts => cases hx
      | keystream => exact absurd hx (by decide)
    · rw [takeKeystream_ready hstate hword hnonce hpos hblocks] at h
      cases h
  · rw [takeKeystream, whenReady_error hstate (Resources.takeKeystream_nonce hnonce _)] at h
    cases h
    exact AeadError.nonceLength_spares _

end MpcAesGcm

/-! ## Records -/

namespace MpcTlsError

variable {Q : AeadError → Prop}

theorem raises_onVm {α : Type} (x : EStateM (Fault VmError) Vm α) :
    Fault.Raises (Fault.Spares (OfAead Q)) (MpcAesGcm.onVm x) :=
  Fault.Raises.onFst raises_vm

/-- The error of a call from one state. -/
theorem spares_adapt {σ α : Type} {x : EStateM (Fault AeadError) σ α} {s : σ}
    (hx : ∀ e s', x s = .error e s' → Fault.Spares Q e) :
    ∀ e s', Fault.adapt recordLayerAead x s = .error e s' → Fault.Spares (OfAead Q) e := by
  intro e s' h
  unfold Fault.adapt at h
  split at h
  · cases h
  · rename_i hfail
    cases h
    exact spares_aead (hx _ _ hfail)

end MpcTlsError

open MpcTlsError (OfAead)

namespace EncryptOp

variable {Q : AeadError → Prop} {op : EncryptOp} {s : Vm × MpcAesGcm}

/-- What the calls for keystream fail with is what encryption fails with. -/
theorem encryptOne_spares
    (happly : ∀ e s', MpcAesGcm.applyKeystream op.explicitNonce op.len s = .error e s' →
      Fault.Spares Q e)
    (htake : ∀ e s', MpcAesGcm.takeKeystream op.explicitNonce op.len s = .error e s' →
      Fault.Spares Q e) :
    ∀ e s', op.encryptOne s = .error e s' → Fault.Spares (OfAead Q) e := by
  unfold encryptOne
  cases op.mode with
  | isPrivate =>
      refine Fault.Raises.bind_from (MpcTlsError.spares_adapt happly) fun texts => ?_
      have hrest : Fault.Raises (Fault.Spares (OfAead Q)) (do
          MpcAesGcm.onVm (Vm.commit texts.1)
          let ciphertextFut ← MpcAesGcm.onVm (Vm.decode texts.2)
          let ciphertext ← MpcAesGcm.onVm (Vm.decode texts.2)
          return ((⟨some texts.1, .isPrivate ciphertext⟩ : PendingEncrypt),
            fun mem : Memory => mem.read ciphertextFut)) := by
        refine Fault.Raises.bind (MpcTlsError.raises_onVm _) fun _ => ?_
        refine Fault.Raises.bind (MpcTlsError.raises_onVm _) fun _ => ?_
        exact Fault.Raises.bind (MpcTlsError.raises_onVm _) fun _ => Fault.Raises.pure _
      cases op.plaintext with
      | none => exact hrest
      | some data => exact Fault.Raises.bind (MpcTlsError.raises_onVm _) fun _ => hrest
  | isPublic =>
      unfold encryptPublic
      cases op.plaintext with
      | none => exact fun e s' => Fault.Raises.throw (MpcTlsError.spares_msg _) s e s'
      | some plaintext =>
          refine Fault.Raises.bind_from (MpcTlsError.spares_adapt htake) fun keystream => ?_
          refine Fault.Raises.bind (MpcTlsError.raises_onVm _) fun _ => ?_
          exact Fault.Raises.bind (MpcTlsError.raises_onVm _) fun _ => Fault.Raises.pure _

theorem raises_encryptOps (ops : List EncryptOp) :
    Fault.Raises (Fault.Spares (OfAead TagsExhausted)) (encryptOps ops) := by
  induction ops with
  | nil => exact Fault.Raises.pure _
  | cons op ops ih =>
      refine Fault.Raises.bind (fun _ => ?_) fun _ => Fault.Raises.bind ih fun _ =>
        Fault.Raises.pure _
      exact encryptOne_spares (MpcAesGcm.raises_applyKeystream _ _ _)
        (MpcAesGcm.raises_takeKeystream _ _ _)

/-- The blocks of the records. -/
def blockTotal (ops : List EncryptOp) : Nat := (ops.map blockCount).sum

theorem encryptOps_spares {L : Layout} {j0s : List (CtrBlock × OneTimePadShared)} {ghash : Ghash}
    (ops : List EncryptOp) {n : Nat} {s s' : Vm × MpcAesGcm} {e : Fault MpcTlsError}
    (hvalid : ∀ op ∈ ops, op.Valid) (hlen : ∀ op ∈ ops, op.len < wordSize)
    (hstate : s.2.state = .ready (L.resources j0s n) ghash) (hword : 16 * n < wordSize)
    (hblocks : blockTotal ops ≤ n) (h : encryptOps ops s = .error e s') :
    Fault.Spares (OfAead InputExhausted) e := by
  induction ops generalizing n s with
  | nil => cases h
  | cons op ops ih =>
      rw [blockTotal, List.map_cons, List.sum_cons] at hblocks
      have hle : op.blockCount ≤ n := by omega
      cases Fault.run_bind_error_iff.mp h with
      | inl h =>
          exact encryptOne_spares
            (fun _ _ he => MpcAesGcm.applyKeystream_spares hstate hword hle he)
            (fun _ _ he => MpcAesGcm.takeKeystream_spares hstate hword hle he) e s' h
      | inr h =>
          obtain ⟨out, s₁, hone, h⟩ := h
          have hfits := encryptOne_fits hstate hword (hlen op List.mem_cons_self) hone
          rw [encryptOne_eq (hvalid op List.mem_cons_self) hfits hstate hword] at hone
          cases hone
          cases Fault.run_bind_error_iff.mp h with
          | inl h =>
              refine ih (fun o ho => hvalid o (List.mem_cons_of_mem _ ho))
                (fun o ho => hlen o (List.mem_cons_of_mem _ ho)) rfl (by omega) ?_ h
              rw [blockTotal]
              omega
          | inr h =>
              obtain ⟨outs, s₂, -, h⟩ := h
              cases h

end EncryptOp

namespace DecryptOp

variable {Q : AeadError → Prop} {op : DecryptOp}

theorem decryptPublic_spares {s : Vm × MpcAesGcm}
    (htake : ∀ e s', MpcAesGcm.takeKeystream op.explicitNonce op.ciphertext.length s = .error e s' →
      Fault.Spares Q e) :
    ∀ e s', op.decryptPublic s = .error e s' → Fault.Spares (OfAead Q) e := by
  refine Fault.Raises.bind_from (MpcTlsError.spares_adapt htake) fun keystream => ?_
  exact Fault.Raises.bind (MpcTlsError.raises_onVm _) fun _ => Fault.Raises.pure _

theorem afterPad_spares (texts : Slice × Slice) : Fault.Raises (Fault.Spares (OfAead Q)) (do
    let otp ← splitOtp op.ciphertext.length
    match otp with
    | some otp => Fault.onFst (MpcAesGcm.onVm (Vm.assign texts.1 otp))
    | none => pure ()
    Fault.onFst (MpcAesGcm.onVm (Vm.commit texts.1))
    let maskedKeystream ← Fault.onFst (MpcAesGcm.onVm (Vm.decode texts.2))
    (return .isPrivate maskedKeystream otp op.ciphertext :
      EStateM (Fault MpcTlsError) DecryptState DecryptOutput)) := by
  have hsplit : ∀ len, Fault.Raises (Fault.Spares (OfAead Q)) (splitOtp len) := by
    intro len s e s' h
    unfold splitOtp at h
    split at h <;> cases h
  have hdecode : ∀ otp : Option (List UInt8), Fault.Raises (Fault.Spares (OfAead Q)) (do
      Fault.onFst (MpcAesGcm.onVm (Vm.commit texts.1))
      let maskedKeystream ← Fault.onFst (MpcAesGcm.onVm (Vm.decode texts.2))
      (return .isPrivate maskedKeystream otp op.ciphertext :
        EStateM (Fault MpcTlsError) DecryptState DecryptOutput)) := by
    intro otp
    refine Fault.Raises.bind (Fault.Raises.onFst (MpcTlsError.raises_onVm _)) fun _ => ?_
    refine Fault.Raises.bind (Fault.Raises.onFst (MpcTlsError.raises_onVm _)) fun _ => ?_
    exact Fault.Raises.pure _
  refine Fault.Raises.bind (hsplit _) fun otp => ?_
  cases otp with
  | none => exact hdecode none
  | some otp =>
      exact Fault.Raises.bind (Fault.Raises.onFst (MpcTlsError.raises_onVm _))
        fun _ => hdecode (some otp)

theorem privateMpc_spares {s : DecryptState}
    (happly : ∀ e s', MpcAesGcm.applyKeystream op.explicitNonce op.ciphertext.length s.1 =
      .error e s' → Fault.Spares Q e) :
    ∀ e s', op.privateMpc s = .error e s' → Fault.Spares (OfAead Q) e := by
  have hfst : ∀ e s', (Fault.onFst (Fault.adapt MpcTlsError.recordLayerAead
      (MpcAesGcm.applyKeystream op.explicitNonce op.ciphertext.length)) :
        EStateM (Fault MpcTlsError) DecryptState (Slice × Slice)) s = .error e s' →
          Fault.Spares (OfAead Q) e := by
    intro e s' h
    unfold Fault.onFst at h
    split at h
    · cases h
    · rename_i hfail
      cases h
      exact MpcTlsError.spares_adapt happly _ _ hfail
  rw [privateMpc, Fault.get_bind]
  cases s.2 with
  | none => exact Fault.Raises.bind_from hfst afterPad_spares
  | some otp =>
      simp only
      by_cases hlen : op.ciphertext.length > otp.length
      · rw [if_pos hlen]
        exact fun e s' => Fault.Raises.throw_bind (MpcTlsError.spares_msg _) s e s'
      · rw [if_neg hlen]
        exact Fault.Raises.bind_from hfst afterPad_spares

theorem decryptOne_spares {s : DecryptState}
    (happly : ∀ e s', MpcAesGcm.applyKeystream op.explicitNonce op.ciphertext.length s.1 =
      .error e s' → Fault.Spares Q e)
    (htake : ∀ e s', MpcAesGcm.takeKeystream op.explicitNonce op.ciphertext.length s.1 =
      .error e s' → Fault.Spares Q e) :
    ∀ e s', op.decryptOne s = .error e s' → Fault.Spares (OfAead Q) e := by
  unfold decryptOne
  cases op.mode with
  | isPrivate => exact privateMpc_spares happly
  | isPublic =>
      intro e s' h
      simp only [Fault.onFst] at h
      split at h
      · cases h
      · rename_i hfail
        cases h
        exact decryptPublic_spares htake _ _ hfail

theorem decrypt_spares (cipher : LocalAesCtr) (ctr : AesCtr) (nonce ciphertext : List UInt8) :
    ∀ e, ctr.decrypt cipher nonce ciphertext = .error e → Fault.Spares (OfAead Q) e := by
  intro e h
  unfold AesCtr.decrypt at h
  split at h
  · split at h
    · cases h
      exact MpcTlsError.spares_msg _
    · split at h
      · split at h
        · cases h
          exact MpcTlsError.spares_msg _
        · split at h
          · cases h
          · cases h
            trivial
      · cases h
        trivial
  · cases h
    exact MpcTlsError.spares_msg _

theorem decryptOneLocal_spares {role : Role} {cipher : LocalAesCtr} {ctr : AesCtr}
    {s : Vm × MpcAesGcm}
    (htake : op.mode = .isPublic → ∀ e s', MpcAesGcm.takeKeystream op.explicitNonce
      op.ciphertext.length s = .error e s' → Fault.Spares Q e) :
    ∀ e s', op.decryptOneLocal role cipher ctr s = .error e s' → Fault.Spares (OfAead Q) e := by
  unfold decryptOneLocal
  cases hmode : op.mode with
  | isPrivate =>
      cases role with
      | leader =>
          exact Fault.Raises.bind (Fault.Raises.lift (decrypt_spares cipher ctr _ _))
            (fun _ => Fault.Raises.pure _) s
      | follower => exact fun e s' h => nomatch h
  | isPublic => exact decryptPublic_spares (htake hmode)

/-! Batches of records. -/

theorem raises_decryptMpc (ops : List DecryptOp) :
    Fault.Raises (Fault.Spares (OfAead TagsExhausted)) (decryptMpc ops) := by
  induction ops with
  | nil => exact Fault.Raises.pure _
  | cons op ops ih =>
      refine Fault.Raises.bind (fun _ => ?_) fun _ => Fault.Raises.bind ih fun _ =>
        Fault.Raises.pure _
      exact decryptOne_spares (MpcAesGcm.raises_applyKeystream _ _ _)
        (MpcAesGcm.raises_takeKeystream _ _ _)

theorem raises_decryptLocal (role : Role) (cipher : LocalAesCtr) (ctr : AesCtr)
    (ops : List DecryptOp) :
    Fault.Raises (Fault.Spares (OfAead TagsExhausted)) (decryptLocal role cipher ctr ops) := by
  induction ops with
  | nil => exact Fault.Raises.pure _
  | cons op ops ih =>
      refine Fault.Raises.bind (fun _ => ?_) fun _ => Fault.Raises.bind ih fun _ =>
        Fault.Raises.pure _
      exact decryptOneLocal_spares fun _ => MpcAesGcm.raises_takeKeystream _ _ _

/-- The blocks of records which are decrypted online. -/
def blockTotal (ops : List DecryptOp) : Nat := (ops.map blockCount).sum

/-- The blocks of records which are decrypted at last. -/
def localTotal (ops : List DecryptOp) : Nat := (ops.map localCount).sum

theorem decryptMpc_spares {L : Layout} {j0s : List (CtrBlock × OneTimePadShared)} {ghash : Ghash}
    (ops : List DecryptOp) {n : Nat} {s s' : DecryptState} {e : Fault MpcTlsError}
    (hlen : ∀ op ∈ ops, op.ciphertext.length < wordSize)
    (hstate : s.1.2.state = .ready (L.resources j0s n) ghash) (hword : 16 * n < wordSize)
    (hblocks : blockTotal ops ≤ n) (h : decryptMpc ops s = .error e s') :
    Fault.Spares (OfAead InputExhausted) e := by
  induction ops generalizing n s with
  | nil => cases h
  | cons op ops ih =>
      rw [blockTotal, List.map_cons, List.sum_cons] at hblocks
      have hle : op.blockCount ≤ n := by omega
      cases Fault.run_bind_error_iff.mp h with
      | inl h =>
          exact decryptOne_spares
            (fun _ _ he => MpcAesGcm.applyKeystream_spares hstate hword hle he)
            (fun _ _ he => MpcAesGcm.takeKeystream_spares hstate hword hle he) e s' h
      | inr h =>
          obtain ⟨out, s₁, hone, h⟩ := h
          have hfits := decryptOne_fits hstate hword (hlen op List.mem_cons_self) hone
          rw [decryptOne_eq hstate hword hfits] at hone
          cases hone
          cases Fault.run_bind_error_iff.mp h with
          | inl h =>
              refine ih (fun o ho => hlen o (List.mem_cons_of_mem _ ho)) rfl (by omega) ?_ h
              rw [blockTotal]
              omega
          | inr h =>
              obtain ⟨outs, s₂, -, h⟩ := h
              cases h

theorem decryptLocal_spares {role : Role} {cipher : LocalAesCtr} {ctr : AesCtr} {stock : Stock}
    (ops : List DecryptOp) {s s' : Vm × MpcAesGcm} {e : Fault MpcTlsError}
    (hlen : ∀ op ∈ ops, op.ciphertext.length < wordSize) (hstock : s.2.Stocked stock)
    (hblocks : localTotal ops ≤ stock.blocks)
    (h : decryptLocal role cipher ctr ops s = .error e s') :
    Fault.Spares (OfAead InputExhausted) e := by
  induction ops generalizing stock s with
  | nil => cases h
  | cons op ops ih =>
      rw [localTotal, List.map_cons, List.sum_cons] at hblocks
      cases Fault.run_bind_error_iff.mp h with
      | inl h =>
          refine decryptOneLocal_spares (fun hmode => ?_) e s' h
          have hle : op.blockCount ≤ stock.blocks := by
            rw [show op.localCount = op.blockCount by rw [localCount, hmode]] at hblocks
            omega
          exact fun _ _ he =>
            MpcAesGcm.takeKeystream_spares hstock.state hstock.sized.lt_word hle he
      | inr h =>
          obtain ⟨out, s₁, hone, h⟩ := h
          obtain ⟨-, -, rfl⟩ := decryptOneLocal_ok hstock (hlen op List.mem_cons_self) hone
          cases Fault.run_bind_error_iff.mp h with
          | inl h =>
              refine ih (fun o ho => hlen o (List.mem_cons_of_mem _ ho))
                (MpcAesGcm.Stocked.restock (hstock.sized.spent (Nat.sub_le ..))) ?_ h
              simp only [localTotal, Stock.spent]
              omega
          | inr h =>
              obtain ⟨outs, s₂, -, h⟩ := h
              cases h

end DecryptOp

/-! ## Tags -/

section

variable {stock : Stock} {s s' : Vm × MpcAesGcm} {e : Fault MpcTlsError}

theorem raises_verifyTags (ops : List DecryptOp) :
    Fault.Raises (Fault.Spares (OfAead InputExhausted)) (verifyTags ops) :=
  MpcTlsError.raises_aead (MpcAesGcm.raises_whenReady (fun _ _ => Resources.raises_verifyTags)
    MpcAesGcm.inputExhausted_state)

theorem verifyTags_spares {ops : List DecryptOp} (hstock : s.2.Stocked stock)
    (hcount : ops.length ≤ stock.j0s.length) (h : verifyTags ops s = .error e s') :
    Fault.Spares (OfAead TagsExhausted) e := by
  refine MpcTlsError.spares_adapt (fun e s' he => ?_) e s' h
  refine MpcAesGcm.whenReady_spares (fun resources ghash hstate e t ht => ?_)
    (fun _ he => nomatch he) he
  refine Resources.verifyTags_spares ?_ ht
  rw [hstock.state] at hstate
  cases hstate
  rw [List.length_map]
  exact hcount

theorem encrypt_spares_input {ops : List EncryptOp} (hstock : s.2.Stocked stock)
    (hvalid : ∀ op ∈ ops, op.Valid) (hlen : ∀ op ∈ ops, op.len < wordSize)
    (hblocks : EncryptOp.blockTotal ops ≤ stock.blocks) (h : encrypt ops s = .error e s') :
    Fault.Spares (OfAead InputExhausted) e := by
  refine Fault.Raises.bind_from (fun e s' he => ?_) (fun outs => ?_) e s' h
  · exact EncryptOp.encryptOps_spares ops hvalid hlen hstock.state hstock.sized.lt_word hblocks he
  · refine Fault.Raises.bind (MpcTlsError.raises_aead ?_) fun _ => Fault.Raises.pure _
    exact MpcAesGcm.raises_whenReady (fun _ _ => Resources.raises_computeTags)
      MpcAesGcm.inputExhausted_state

theorem encrypt_spares_tags {ops : List EncryptOp} (hstock : s.2.Stocked stock)
    (hvalid : ∀ op ∈ ops, op.Valid) (hlen : ∀ op ∈ ops, op.len < wordSize)
    (hcount : ops.length ≤ stock.j0s.length) (h : encrypt ops s = .error e s') :
    Fault.Spares (OfAead TagsExhausted) e := by
  cases Fault.run_bind_error_iff.mp h with
  | inl h => exact EncryptOp.raises_encryptOps ops _ _ _ h
  | inr h =>
      obtain ⟨outs, s₁, hops, h⟩ := h
      have hword := hstock.sized.lt_word
      have hfits := EncryptOp.encryptOps_fit ops hvalid hlen hstock.state hword hops
      rw [EncryptOp.encryptOps_eq ops hvalid hfits hstock.state hword] at hops
      cases hops
      refine Fault.Raises.bind_from (fun e s' he => ?_) (fun _ => Fault.Raises.pure _) e s' h
      refine MpcTlsError.spares_adapt (fun e s' he => ?_) e s' he
      refine MpcAesGcm.whenReady_spares (fun resources ghash hstate e t ht => ?_)
        (fun _ he => nomatch he) he
      refine Resources.computeTags_spares ?_ ht
      cases hstate
      rw [List.length_map, EncryptOp.length_layOut]
      exact hcount

end

end Tlsn.MpcTls

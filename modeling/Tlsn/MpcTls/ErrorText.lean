import Tlsn.MpcTls.RecordLimits

/-!
The texts with which a flush fails. Each check has one of its own, and they can be
told apart by their first letters.
-/

namespace Tlsn.MpcTls

open Tlsn.Cipher Tlsn.Common Tlsn.Tls

/-- The error has no text of the record layer that begins with the letter. -/
def NotHead (c : Char) (e : Fault MpcTlsError) : Prop :=
  ∀ text : String, text.toList.head? = some c → e ≠ MpcTlsError.recordLayerMsg text

namespace NotHead

variable {c : Char} {σ α : Type} {mem : Memory}

theorem of_map {ε : Type} {f : ε → MpcTlsError} (h : ∀ e text, f e ≠ .recordLayer (.msg text))
    (e : Fault ε) : NotHead c (e.map f) := by
  intro text _ he
  cases e with
  | panic => cases he
  | err e =>
      injection he with he
      exact h e _ he

theorem of_msg {text : String} (h : text.toList.head? ≠ some c) :
    NotHead c (MpcTlsError.recordLayerMsg text) := by
  intro text' htext he
  injection he with he
  injection he with he
  injection he with he
  rw [← he] at htext
  exact h htext

theorem adapt_aead (x : EStateM (Fault AeadError) σ α) :
    Fault.Raises (NotHead c) (Fault.adapt MpcTlsError.recordLayerAead x) :=
  Fault.Raises.adapt fun _ e _ _ => of_map (fun _ _ h => by cases h) e

theorem lift_aead (x : Except (Fault AeadError) α) : Fault.Raises (NotHead c)
    (Fault.lift (Fault.convert MpcTlsError.recordLayerAead x) : EStateM _ σ α) := by
  refine Fault.Raises.lift fun e he => ?_
  cases x with
  | ok a => cases he
  | error e' =>
      cases he
      exact of_map (fun _ _ h => by cases h) e'

theorem onVm (x : EStateM (Fault VmError) Vm α) :
    Fault.Raises (NotHead c) (MpcAesGcm.onVm x) :=
  Fault.Raises.onFst (Fault.Raises.adapt fun _ e _ _ => of_map (fun _ _ h => by cases h) e)

theorem encryptOps (hc : 'p' ≠ c) (ops : List EncryptOp) :
    Fault.Raises (NotHead c) (encryptOps ops) := by
  induction ops with
  | nil => exact Fault.Raises.pure _
  | cons op ops ih =>
      refine Fault.Raises.bind ?_ fun _ => Fault.Raises.bind ih fun _ => Fault.Raises.pure _
      unfold EncryptOp.encryptOne
      cases op.mode with
      | isPrivate =>
          refine Fault.Raises.bind (adapt_aead _) fun ⟨plaintext, ciphertext⟩ => ?_
          have hdecode : Fault.Raises (NotHead c) (do
              MpcAesGcm.onVm (Vm.commit plaintext)
              let ciphertextFut ← MpcAesGcm.onVm (Vm.decode ciphertext)
              let ciphertext ← MpcAesGcm.onVm (Vm.decode ciphertext)
              return ((⟨some plaintext, .isPrivate ciphertext⟩ : PendingEncrypt),
                fun mem : Memory => mem.read ciphertextFut)) := by
            refine Fault.Raises.bind (onVm _) fun _ => Fault.Raises.bind (onVm _) fun _ => ?_
            exact Fault.Raises.bind (onVm _) fun _ => Fault.Raises.pure _
          cases op.plaintext with
          | none => exact hdecode
          | some data => exact Fault.Raises.bind (onVm _) fun _ => hdecode
      | isPublic =>
          unfold EncryptOp.encryptPublic
          cases op.plaintext with
          | none => exact Fault.Raises.throw (of_msg fun h => hc (Option.some.inj h))
          | some plaintext =>
              refine Fault.Raises.bind (adapt_aead _) fun _ => ?_
              refine Fault.Raises.bind (onVm _) fun _ => ?_
              exact Fault.Raises.bind (onVm _) fun _ => Fault.Raises.pure _

theorem encrypt (hc : 'p' ≠ c) (ops : List EncryptOp) : Fault.Raises (NotHead c) (encrypt ops) :=
  Fault.Raises.bind (encryptOps hc ops) fun _ =>
    Fault.Raises.bind (adapt_aead _) fun _ => Fault.Raises.pure _

/-- With enough of the pad left, decrypting a record fails only where it is decrypted. -/
theorem privateMpc_rest (op : DecryptOp) : Fault.Raises (NotHead c) (do
    let texts ← Fault.onFst (Fault.adapt MpcTlsError.recordLayerAead
      (MpcAesGcm.applyKeystream op.explicitNonce op.ciphertext.length))
    let otp ← DecryptOp.splitOtp op.ciphertext.length
    match otp with
    | some otp => Fault.onFst (MpcAesGcm.onVm (Vm.assign texts.1 otp))
    | none => pure ()
    Fault.onFst (MpcAesGcm.onVm (Vm.commit texts.1))
    let maskedKeystream ← Fault.onFst (MpcAesGcm.onVm (Vm.decode texts.2))
    (return .isPrivate maskedKeystream otp op.ciphertext :
      EStateM (Fault MpcTlsError) DecryptState DecryptOutput)) := by
  have hsplit : ∀ len, Fault.Raises (NotHead c) (DecryptOp.splitOtp len) := by
    intro len s e s' h
    unfold DecryptOp.splitOtp at h
    split at h
    · cases h
    · cases h
  have hdecode : ∀ (texts : Slice × Slice) (otp : Option (List UInt8)),
      Fault.Raises (NotHead c) (do
        Fault.onFst (MpcAesGcm.onVm (Vm.commit texts.1))
        let maskedKeystream ← Fault.onFst (MpcAesGcm.onVm (Vm.decode texts.2))
        (return .isPrivate maskedKeystream otp op.ciphertext :
          EStateM (Fault MpcTlsError) DecryptState DecryptOutput)) := by
    intro texts otp
    refine Fault.Raises.bind (Fault.Raises.onFst (onVm _)) fun _ => ?_
    exact Fault.Raises.bind (Fault.Raises.onFst (onVm _)) fun _ => Fault.Raises.pure _
  refine Fault.Raises.bind (Fault.Raises.onFst (adapt_aead _)) fun texts => ?_
  refine Fault.Raises.bind (hsplit _) fun otp => ?_
  cases otp with
  | none => exact hdecode texts none
  | some otp =>
      exact Fault.Raises.bind (Fault.Raises.onFst (onVm _)) fun _ => hdecode texts (some otp)

theorem privateMpc_of_pad {op : DecryptOp} {s : DecryptState}
    (hpad : ∀ otp, s.2 = some otp → op.ciphertext.length ≤ otp.length) :
    ∀ e s', op.privateMpc s = .error e s' → NotHead c e := by
  intro e s' h
  rw [DecryptOp.privateMpc, Fault.get_bind] at h
  cases hotp : s.2 with
  | none =>
      rw [hotp] at h
      exact privateMpc_rest op _ _ _ h
  | some otp =>
      rw [hotp] at h
      simp only at h
      rw [if_neg (Nat.not_lt.mpr (hpad otp hotp))] at h
      exact privateMpc_rest op _ _ _ h

theorem privateMpc (hc : 'c' ≠ c) (op : DecryptOp) : Fault.Raises (NotHead c) op.privateMpc := by
  have hexceeds : ∀ n m, NotHead c (DecryptOp.exceedsAllocated n m) := by
    intro n m
    apply of_msg
    have hhead : "ciphertext length exceeds allocated: ".toList.head? = some 'c' := by decide
    simp only [String.toList_append, List.head?_append, hhead, Option.some_or]
    exact fun h => hc (Option.some.inj h)
  intro s e s' h
  by_cases hpad : ∀ otp, s.2 = some otp → op.ciphertext.length ≤ otp.length
  · exact privateMpc_of_pad hpad e s' h
  · push Not at hpad
    obtain ⟨otp, hotp, hlong⟩ := hpad
    rw [DecryptOp.privateMpc, Fault.get_bind, hotp] at h
    simp only at h
    rw [if_pos hlong] at h
    cases h
    exact hexceeds _ _

theorem decryptMpc (hc : 'c' ≠ c) (ops : List DecryptOp) :
    Fault.Raises (NotHead c) (decryptMpc ops) := by
  induction ops with
  | nil => exact Fault.Raises.pure _
  | cons op ops ih =>
      refine Fault.Raises.bind ?_ fun _ => Fault.Raises.bind ih fun _ => Fault.Raises.pure _
      unfold DecryptOp.decryptOne
      cases op.mode with
      | isPrivate => exact privateMpc hc op
      | isPublic =>
          refine Fault.Raises.onFst (Fault.Raises.bind (adapt_aead _) fun _ => ?_)
          exact Fault.Raises.bind (onVm _) fun _ => Fault.Raises.pure _

theorem prepareFlush (hp : 'p' ≠ c) (hc : 'c' ≠ c) (encryptOps : List EncryptOp)
    (decryptOps : List DecryptOp) :
    Fault.Raises (NotHead c) (RecordLayer.prepareFlush encryptOps decryptOps) := by
  refine Fault.Raises.bind (Fault.Raises.zoom (encrypt hp _)) fun _ => ?_
  refine Fault.Raises.bind (Fault.Raises.zoom (decryptMpc hc _)) fun _ => ?_
  exact Fault.Raises.bind (Fault.Raises.zoom (adapt_aead _)) fun _ => Fault.Raises.pure _

theorem of_keystream (hc : 'k' ≠ c) (n m : Nat) : NotHead c (MpcTlsError.recordLayerMsg
    ("keystream length does not match plaintext length: " ++ toString n ++ " != " ++
      toString m)) := by
  apply of_msg
  have hhead : "keystream length does not match plaintext length: ".toList.head? = some 'k' := by
    decide
  simp only [String.toList_append, List.head?_append, hhead, Option.some_or]
  exact fun h => hc (Option.some.inj h)

theorem of_keystream' (hc : 'k' ≠ c) (n m : Nat) : NotHead c (MpcTlsError.recordLayerMsg
    ("keystream length does not match ciphertext: " ++ toString n ++ " != " ++ toString m)) := by
  apply of_msg
  have hhead : "keystream length does not match ciphertext: ".toList.head? = some 'k' := by decide
  simp only [String.toList_append, List.head?_append, hhead, Option.some_or]
  exact fun h => hc (Option.some.inj h)

theorem finishEncrypt (hc : 'k' ≠ c) (pending : List (EncryptOp × PendingEncrypt))
    (tags : Option (List (List UInt8))) :
    Fault.Raises (NotHead c) (RecordLayer.finishEncrypt mem pending tags) := by
  induction pending generalizing tags with
  | nil => exact Fault.Raises.pure _
  | cons p pending ih =>
      refine Fault.Raises.bind (Fault.Raises.lift fun e he => ?_) fun _ =>
        Fault.Raises.bind Fault.Raises.modify fun _ => ih _
      unfold EncryptOutput.tryEncrypt at he
      split at he
      · cases he
      · split at he
        · cases he
          exact of_keystream hc _ _
        · cases he

theorem finishDecrypt (hc : 'k' ≠ c) (pending : List (DecryptOp × DecryptOutput)) :
    Fault.Raises (NotHead c) (RecordLayer.finishDecrypt mem pending) := by
  induction pending with
  | nil => exact Fault.Raises.pure _
  | cons p pending ih =>
      refine Fault.Raises.bind (Fault.Raises.lift fun e he => ?_) fun _ =>
        Fault.Raises.bind Fault.Raises.modify fun _ => ih
      unfold DecryptOutput.tryDecrypt at he
      split at he
      · split at he
        · cases he
        · cases he
      · split at he
        · cases he
          exact of_keystream' hc _ _
        · cases he
      · cases he

theorem runFlush {C D : Type} (hc : 'k' ≠ c) (scheme : HashCommit C D) (peer : PeerShares C D)
    (task : RecordLayer.FlushTask) :
    Fault.Raises (NotHead c) (RecordLayer.runFlush scheme mem peer task) := by
  refine Fault.Raises.bind (lift_aead _) fun _ => Fault.Raises.bind (lift_aead _) fun _ => ?_
  refine Fault.Raises.bind (Fault.Raises.onSnd (finishEncrypt hc _ _)) fun _ => ?_
  exact Fault.Raises.onSnd (finishDecrypt hc _)

end NotHead

end Tlsn.MpcTls

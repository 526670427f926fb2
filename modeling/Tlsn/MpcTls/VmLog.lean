import Tlsn.Library.Triple
import Tlsn.MpcTls.LeaderRun

/-!
What is in the log of the machine stays there, whether an operation of the record
layer succeeds or fails.
-/

namespace Tlsn.MpcTls

open Tlsn.Cipher Tlsn.Common Tlsn.Tls
open Fault (Preserves Triple)

variable {α ε σ : Type} (o : VmOp)

/-- The operation is in the log. -/
abbrev Logged (s : Vm × σ) : Prop := o ∈ s.1.log

theorem log_of_ok {x : EStateM ε (Vm × σ) α} (hx : ∀ o, Preserves (Logged o) x)
    {s s' : Vm × σ} {a : α} (h : x s = .ok a s') : ∀ o ∈ s.1.log, o ∈ s'.1.log :=
  fun o ho => (hx o).ok ho h

theorem log_of_error {x : EStateM ε (Vm × σ) α} (hx : ∀ o, Preserves (Logged o) x)
    {s s' : Vm × σ} {e : ε} (h : x s = .error e s') : ∀ o ∈ s.1.log, o ∈ s'.1.log :=
  fun o ho => (hx o).error ho h

section Machine

theorem logged_push (vm : Vm) (ops : List VmOp) (h : o ∈ vm.log) : o ∈ (vm.push ops).log :=
  List.mem_append_left _ h

theorem logged_assign (s : Slice) (data : List UInt8) :
    Preserves (fun vm => o ∈ vm.log) (Vm.assign s data) := by
  constructor
  intro vm h
  unfold Vm.assign
  split
  · exact logged_push o vm _ h
  · exact h

theorem logged_commit (s : Slice) :
    Preserves (fun vm => o ∈ vm.log) (Vm.commit s : EStateM (Fault ε) Vm Unit) :=
  ⟨fun vm h => logged_push o vm _ h⟩

theorem logged_decode (s : Slice) :
    Preserves (fun vm => o ∈ vm.log) (Vm.decode s : EStateM (Fault ε) Vm Slice) :=
  ⟨fun vm h => logged_push o vm _ h⟩

theorem logged_assignBlocks (nonce : List UInt8) (ctr : Nat → List UInt8) (blocks : List CtrBlock)
    (i : Nat) : Preserves (fun vm => o ∈ vm.log) (Keystream.assignBlocks nonce ctr blocks i) := by
  induction blocks generalizing i with
  | nil => exact Preserves.pure _
  | cons block blocks ih =>
      refine Preserves.bind (logged_assign o _ _) fun _ => ?_
      refine Preserves.bind (logged_commit o _) fun _ => ?_
      refine Preserves.bind (logged_assign o _ _) fun _ => ?_
      exact Preserves.bind (logged_commit o _) fun _ => ih _

end Machine

namespace Resources

theorem logged_onVm {x : EStateM (Fault VmError) Vm α} (hx : Preserves (fun vm => o ∈ vm.log) x) :
    Preserves (Logged o) (onVm x) := Preserves.onFst (Preserves.adapt hx)

theorem logged_splitInput (pos : Nat) : Preserves (Logged o) (splitInput pos) := by
  constructor
  intro s h
  unfold splitInput
  split <;> exact h

theorem logged_splitOutput (pos : Nat) : Preserves (Logged o) (splitOutput pos) := by
  constructor
  intro s h
  unfold splitOutput
  split <;> exact h

theorem logged_consume (len : Nat) : Preserves (Logged o) (consume len) := by
  constructor
  intro s h
  unfold consume
  split <;> exact h

theorem logged_assignKeystream (ks : Keystream) (nonce : List UInt8) :
    Preserves (Logged o) (assignKeystream ks nonce) :=
  Preserves.onFst (Preserves.adapt (Preserves.adapt (logged_assignBlocks o _ _ _ _)))

theorem logged_padInput (role : Role) (input : Slice) (paddingLen : Nat) :
    Preserves (Logged o) (padInput role input paddingLen) := by
  refine Preserves.bind (Preserves.lift _) fun ⟨input, padding⟩ => ?_
  have hcommit : Preserves (Logged o) (do
      onVm (Vm.commit padding)
      (return input : EStateM (Fault AeadError) (Vm × Resources) Slice)) :=
    Preserves.bind (logged_onVm o (logged_commit o _)) fun _ => Preserves.pure _
  refine Preserves.ite ?_ hcommit
  exact Preserves.bind (logged_onVm o (logged_assign o _ _)) fun _ => hcommit

theorem logged_applyKeystream (role : Role) (nonce : List UInt8) (len : Nat) :
    Preserves (Logged o) (applyKeystream role nonce len) := by
  refine Preserves.bind (Preserves.lift _) fun nonce => Preserves.bind Preserves.get fun s => ?_
  refine Preserves.ite (Preserves.bind (Preserves.throw _) fun _ => ?_) ?_
  all_goals
    refine Preserves.bind (logged_splitInput o _) fun input => ?_
    refine Preserves.bind (logged_consume o _) fun keystream => ?_
    refine Preserves.bind Preserves.get fun s => ?_
    refine Preserves.bind (logged_splitOutput o _) fun output => ?_
    refine Preserves.bind (logged_assignKeystream o _ _) fun _ => ?_
    refine Preserves.ite ?_ (Preserves.pure _)
    exact Preserves.bind (logged_padInput o _ _ _) fun _ => Preserves.pure _

theorem logged_takeKeystream (nonce : List UInt8) (len : Nat) :
    Preserves (Logged o) (takeKeystream nonce len) := by
  refine Preserves.bind (Preserves.lift _) fun nonce => Preserves.bind Preserves.get fun s => ?_
  refine Preserves.ite (Preserves.bind (Preserves.throw _) fun _ => ?_) ?_
  all_goals
    refine Preserves.bind (logged_splitInput o _) fun _ => Preserves.bind Preserves.get fun _ => ?_
    refine Preserves.bind (logged_splitOutput o _) fun _ => ?_
    refine Preserves.bind (logged_consume o _) fun keystream => ?_
    exact Preserves.bind (logged_assignKeystream o _ _) fun _ => Preserves.lift _

theorem logged_takeJ0s (data : List TagData) : Preserves (Logged o) (takeJ0s data) := by
  induction data with
  | nil => exact Preserves.pure _
  | cons d data ih =>
      refine Preserves.bind (Preserves.lift _) fun nonce => ?_
      have hpop : Preserves (Logged o) popJ0 := by
        constructor
        intro s h
        unfold popJ0
        split <;> exact h
      refine Preserves.bind hpop fun ⟨j0, shared⟩ => ?_
      refine Preserves.bind ?_ fun _ => Preserves.bind ih fun _ => Preserves.pure _
      refine Preserves.bind (logged_onVm o (logged_assign o _ _)) fun _ => ?_
      refine Preserves.bind (logged_onVm o (logged_commit o _)) fun _ => ?_
      refine Preserves.bind (logged_onVm o (logged_assign o _ _)) fun _ => ?_
      exact logged_onVm o (logged_commit o _)

theorem logged_computeTags (role : Role) (ghash : Ghash) (ciphertexts : List (Future (List UInt8)))
    (data : List TagData) : Preserves (Logged o) (computeTags role ghash ciphertexts data) := by
  refine Preserves.ite (Preserves.throw _) (Preserves.bind Preserves.get fun _ => ?_)
  refine Preserves.ite (Preserves.throw _) ?_
  exact Preserves.bind (logged_takeJ0s o _) fun _ => Preserves.pure _

theorem logged_verifyTags (role : Role) (ghash : Ghash) (data : List TagData)
    (ciphertexts tags : List (List UInt8)) :
    Preserves (Logged o) (verifyTags role ghash data ciphertexts tags) := by
  refine Preserves.ite (Preserves.throw _) (Preserves.ite (Preserves.throw _) ?_)
  refine Preserves.bind Preserves.get fun _ => Preserves.ite (Preserves.throw _) ?_
  exact Preserves.bind (logged_takeJ0s o _) fun _ => Preserves.pure _

end Resources

namespace MpcAesGcm

theorem logged_whenReady {text : String}
    {x : Role → Ghash → EStateM (Fault AeadError) (Vm × Resources) α}
    (hx : ∀ role ghash, Preserves (Logged o) (x role ghash)) :
    Preserves (Logged o) (whenReady text x) := by
  constructor
  intro s h
  unfold whenReady
  cases s.2.state with
  | ready resources ghash =>
      have hafter := (hx s.2.role ghash).after (s.1, resources) h
      simp only
      cases hrun : x s.2.role ghash (s.1, resources) with
      | ok a t =>
          rw [hrun] at hafter
          exact hafter
      | error e t =>
          rw [hrun] at hafter
          exact hafter
  | init => exact h
  | setup resources ghashKey => exact h
  | error => exact h

theorem logged_onVm {x : EStateM (Fault VmError) Vm α} (hx : Preserves (fun vm => o ∈ vm.log) x) :
    Preserves (Logged o) (onVm x) := Preserves.onFst (Preserves.adapt hx)

theorem logged_applyKeystream (nonce : List UInt8) (len : Nat) :
    Preserves (Logged o) (applyKeystream nonce len) :=
  logged_whenReady o fun _ _ => Resources.logged_applyKeystream o _ _ _

theorem logged_takeKeystream (nonce : List UInt8) (len : Nat) :
    Preserves (Logged o) (takeKeystream nonce len) :=
  logged_whenReady o fun _ _ => Resources.logged_takeKeystream o _ _

end MpcAesGcm

open MpcAesGcm (logged_onVm)

theorem logged_encryptOne (op : EncryptOp) : Preserves (Logged o) op.encryptOne := by
  unfold EncryptOp.encryptOne
  cases op.mode with
  | isPrivate =>
      refine Preserves.bind (Preserves.adapt (MpcAesGcm.logged_applyKeystream o _ _))
        fun ⟨plaintext, ciphertext⟩ => ?_
      have hdecode : Preserves (Logged o) (do
          MpcAesGcm.onVm (Vm.commit plaintext)
          let ciphertextFut ← MpcAesGcm.onVm (Vm.decode ciphertext)
          let ciphertext ← MpcAesGcm.onVm (Vm.decode ciphertext)
          return ((⟨some plaintext, .isPrivate ciphertext⟩ : PendingEncrypt),
            fun mem : Memory => mem.read ciphertextFut)) := by
        refine Preserves.bind (logged_onVm o (logged_commit o _)) fun _ => ?_
        refine Preserves.bind (logged_onVm o (logged_decode o _)) fun _ => ?_
        exact Preserves.bind (logged_onVm o (logged_decode o _)) fun _ => Preserves.pure _
      cases op.plaintext with
      | none => exact hdecode
      | some data => exact Preserves.bind (logged_onVm o (logged_assign o _ _)) fun _ => hdecode
  | isPublic =>
      unfold EncryptOp.encryptPublic
      cases op.plaintext with
      | none => exact Preserves.throw _
      | some plaintext =>
          refine Preserves.bind (Preserves.adapt (MpcAesGcm.logged_takeKeystream o _ _)) fun _ => ?_
          refine Preserves.bind (logged_onVm o (logged_decode o _)) fun _ => ?_
          exact Preserves.bind (logged_onVm o (logged_decode o _)) fun _ => Preserves.pure _

theorem logged_encrypt (ops : List EncryptOp) : Preserves (Logged o) (encrypt ops) := by
  have hops : Preserves (Logged o) (encryptOps ops) := by
    induction ops with
    | nil => exact Preserves.pure _
    | cons op ops ih =>
        refine Preserves.bind (logged_encryptOne o op) fun _ => ?_
        exact Preserves.bind ih fun _ => Preserves.pure _
  refine Preserves.bind hops fun outputs => Preserves.bind (Preserves.adapt ?_) fun _ =>
    Preserves.pure _
  exact MpcAesGcm.logged_whenReady o fun _ _ => Resources.logged_computeTags o _ _ _ _

theorem logged_decryptPublic (op : DecryptOp) : Preserves (Logged o) op.decryptPublic := by
  refine Preserves.bind (Preserves.adapt (MpcAesGcm.logged_takeKeystream o _ _)) fun _ => ?_
  exact Preserves.bind (logged_onVm o (logged_decode o _)) fun _ => Preserves.pure _

theorem logged_verifyTags (ops : List DecryptOp) : Preserves (Logged o) (verifyTags ops) :=
  Preserves.adapt (MpcAesGcm.logged_whenReady o fun _ _ => Resources.logged_verifyTags o _ _ _ _ _)

theorem logged_decryptLocal (role : Role) (cipher : LocalAesCtr) (ctr : AesCtr)
    (ops : List DecryptOp) : Preserves (Logged o) (decryptLocal role cipher ctr ops) := by
  induction ops with
  | nil => exact Preserves.pure _
  | cons op ops ih =>
      refine Preserves.bind ?_ fun _ => Preserves.bind ih fun _ => Preserves.pure _
      unfold DecryptOp.decryptOneLocal
      cases op.mode with
      | isPrivate =>
          cases role with
          | leader => exact Preserves.bind (Preserves.lift _) fun _ => Preserves.pure _
          | follower => exact Preserves.pure _
      | isPublic => exact logged_decryptPublic o op

theorem logged_decodeKey : Preserves (Logged o) AesCtr.decodeKey := by
  constructor
  intro s h
  unfold AesCtr.decodeKey
  split
  · exact logged_push o _ _ h
  · exact h

theorem logged_privateMpc_rest (op : DecryptOp) :
    Preserves (fun s : DecryptState => o ∈ s.1.1.log) (do
      let texts ← Fault.onFst (Fault.adapt MpcTlsError.recordLayerAead
        (MpcAesGcm.applyKeystream op.explicitNonce op.ciphertext.length))
      let otp ← DecryptOp.splitOtp op.ciphertext.length
      match otp with
      | some otp => Fault.onFst (MpcAesGcm.onVm (Vm.assign texts.1 otp))
      | none => pure ()
      Fault.onFst (MpcAesGcm.onVm (Vm.commit texts.1))
      let maskedKeystream ← Fault.onFst (MpcAesGcm.onVm (Vm.decode texts.2))
      (return .isPrivate maskedKeystream otp op.ciphertext :
        EStateM (Fault MpcTlsError) DecryptState DecryptOutput)) := by
  have hfst : ∀ {α : Type} {x : EStateM (Fault MpcTlsError) (Vm × MpcAesGcm) α},
      Preserves (Logged o) x →
        Preserves (fun s : DecryptState => o ∈ s.1.1.log) (Fault.onFst x) := Preserves.onFst
  refine Preserves.bind (hfst (Preserves.adapt (MpcAesGcm.logged_applyKeystream o _ _))) ?_
  intro texts
  refine Preserves.bind ?_ fun otp => ?_
  · constructor
    intro s h
    unfold DecryptOp.splitOtp
    split <;> exact h
  · have hdecode : Preserves (fun s : DecryptState => o ∈ s.1.1.log) (do
        Fault.onFst (MpcAesGcm.onVm (Vm.commit texts.1))
        let maskedKeystream ← Fault.onFst (MpcAesGcm.onVm (Vm.decode texts.2))
        (return .isPrivate maskedKeystream otp op.ciphertext :
          EStateM (Fault MpcTlsError) DecryptState DecryptOutput)) := by
      refine Preserves.bind (hfst (logged_onVm o (logged_commit o _))) fun _ => ?_
      exact Preserves.bind (hfst (logged_onVm o (logged_decode o _))) fun _ => Preserves.pure _
    cases otp with
    | none => exact hdecode
    | some otp =>
        exact Preserves.bind (hfst (logged_onVm o (logged_assign o _ _))) fun _ => hdecode

theorem logged_privateMpc (op : DecryptOp) :
    Preserves (fun s : DecryptState => o ∈ s.1.1.log) op.privateMpc := by
  have hrest := logged_privateMpc_rest o op
  refine Preserves.bind Preserves.get fun s => ?_
  cases s.2 with
  | none => exact hrest
  | some otp => exact Preserves.ite (Preserves.bind (Preserves.throw _) fun _ => hrest) hrest

theorem logged_decryptMpc (ops : List DecryptOp) :
    Preserves (fun s : DecryptState => o ∈ s.1.1.log) (decryptMpc ops) := by
  induction ops with
  | nil => exact Preserves.pure _
  | cons op ops ih =>
      refine Preserves.bind ?_ fun _ => Preserves.bind ih fun _ => Preserves.pure _
      unfold DecryptOp.decryptOne
      cases op.mode with
      | isPrivate => exact logged_privateMpc o op
      | isPublic =>
          have hpublic : Preserves (fun s : DecryptState => Logged o s.1)
              (Fault.onFst op.decryptPublic) := Preserves.onFst (logged_decryptPublic o op)
          exact hpublic

namespace RecordLayer

variable {C D : Type} {mem : Memory}

theorem logged_onEncrypter {x : EStateM (Fault MpcTlsError) (Vm × MpcAesGcm) α}
    (hx : Preserves (Logged o) x) : Preserves (Logged o) (onEncrypter x) :=
  Preserves.zoom_fst (I := fun vm : Vm => o ∈ vm.log) hx (fun _ => rfl) fun _ _ => rfl

theorem logged_onDecrypter {x : EStateM (Fault MpcTlsError) (Vm × MpcAesGcm) α}
    (hx : Preserves (Logged o) x) : Preserves (Logged o) (onDecrypter x) :=
  Preserves.zoom_fst (I := fun vm : Vm => o ∈ vm.log) hx (fun _ => rfl) fun _ _ => rfl

theorem logged_onAesCtr {x : EStateM (Fault MpcTlsError) (Vm × AesCtr) α}
    (hx : Preserves (Logged o) x) : Preserves (Logged o) (onAesCtr x) :=
  Preserves.zoom_fst (I := fun vm : Vm => o ∈ vm.log) hx (fun _ => rfl) fun _ _ => rfl

/-- An operation that does not use the machine. -/
theorem logged_onSnd {σ : Type} (x : EStateM ε σ α) :
    Preserves (Logged o) (Fault.onSnd x : EStateM ε (Vm × σ) α) :=
  Preserves.fst_onSnd (I := fun vm : Vm => o ∈ vm.log) x

theorem logged_setup
    (prepareEncrypt prepareDecrypt : List UInt8 → Except (Fault GhashError) Ghash) :
    Preserves (Logged o) (setup mem prepareEncrypt prepareDecrypt) :=
  Preserves.bind (logged_onEncrypter o (logged_onSnd o _)) fun _ =>
    logged_onDecrypter o (logged_onSnd o _)

theorem logged_prepareFlush (encryptOps : List EncryptOp) (decryptOps : List DecryptOp) :
    Preserves (Logged o) (prepareFlush encryptOps decryptOps) := by
  refine Preserves.bind (logged_onEncrypter o (logged_encrypt o _)) fun _ => ?_
  refine Preserves.bind ?_ fun _ => ?_
  · exact Triple.zoom (logged_decryptMpc o decryptOps) (fun _ => id) (fun _ _ _ _ => id)
      fun _ _ _ _ => id
  · exact Preserves.bind (logged_onDecrypter o (logged_verifyTags o _)) fun _ => Preserves.pure _

theorem logged_flush (scheme : HashCommit C D) (peer : PeerShares C D) (isDecrypting : Bool) :
    Preserves (Logged o) (flush scheme mem peer isDecrypting) := by
  have honline : Preserves (Logged o)
      (requireOnline "record layer must be in online state to flush") := by
    constructor
    intro s h
    unfold requireOnline
    split <;> exact h
  have hstart : Preserves (Logged o) (startFlush isDecrypting) := by
    refine Preserves.bind honline fun _ => ?_
    refine Preserves.bind ⟨fun _ => id⟩ fun ⟨encryptOps, decryptOps⟩ => ?_
    have hprepare : Preserves (Logged o) (do
        let task ← prepareFlush encryptOps decryptOps
        (return some task : EStateM (Fault MpcTlsError) (Vm × RecordLayer) _)) :=
      Preserves.bind (logged_prepareFlush o _ _) fun _ => Preserves.pure _
    refine Preserves.ite (Preserves.pure _) (Preserves.ite ?_ hprepare)
    exact Preserves.bind (logged_onSnd o _) fun _ => hprepare
  refine Preserves.bind hstart fun task => ?_
  cases task with
  | none => exact Preserves.pure _
  | some task =>
      refine Preserves.bind (Preserves.lift _) fun _ => ?_
      refine Preserves.bind (Preserves.lift _) fun _ => ?_
      exact Preserves.bind (logged_onSnd o _) fun _ => logged_onSnd o _

theorem logged_commit (scheme : HashCommit C D) (cipher : LocalAesCtr) (peer : PeerShares C D) :
    Preserves (Logged o) (commit scheme cipher mem peer) := by
  refine Preserves.bind ?_ fun ⟨sent, recv⟩ => Preserves.bind ?_ fun ops => ?_
  · constructor
    intro s h
    unfold takeOnline
    split <;> exact h
  · constructor
    intro s h
    unfold takeBuffered
    split <;> exact h
  · refine Preserves.bind (logged_onDecrypter o (logged_verifyTags o _)) fun _ => ?_
    refine Preserves.bind (Preserves.lift _) fun _ => ?_
    refine Preserves.bind (logged_onAesCtr o (logged_decodeKey o)) fun _ => ?_
    refine Preserves.bind (logged_onAesCtr o (logged_onSnd o _)) fun _ => ?_
    refine Preserves.bind Preserves.get fun _ => Preserves.bind Preserves.get fun _ => ?_
    refine Preserves.bind (logged_onDecrypter o (logged_decryptLocal o _ _ _ _)) fun _ => ?_
    refine Preserves.bind (logged_onSnd o _) fun _ => ?_
    exact Preserves.bind (Preserves.modify fun _ => id) fun _ => Preserves.pure _

end RecordLayer

/-- Nothing leaves the log of the leader's machine. -/
theorem Leader.logged {K P C D : Type} (session : Session K P C D) (arrives : List UInt8 → Prop) :
    MachineInvariant session arrives (Logged o) where
  issue _ _ _ := logged_push o _ _
  setup := RecordLayer.logged_setup o _ _
  pushEncrypt _ _ _ _ _ := RecordLayer.logged_onSnd o _
  pushDecrypt _ _ _ _ _ _ := RecordLayer.logged_onSnd o _
  flush _ _ := RecordLayer.logged_flush o _ _ _
  commit _ := RecordLayer.logged_commit o _ _ _
  startTraffic _ _ := id
  nextEncrypted _ _ := id
  nextDecrypted _ _ := id

end Tlsn.MpcTls

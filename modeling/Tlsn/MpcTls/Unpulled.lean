import Tlsn.Library.Commutes
import Tlsn.MpcTls.FollowerRun

/-!
Taking records out of the record layer does not interfere with anything else: the other
operations do the same when the records are still in the layer.
-/

namespace Tlsn.MpcTls

open Tlsn.Cipher Tlsn.Common Tlsn.Tls
open Fault (Commutes)

namespace RecordLayer

/-- The layer with the records that were taken out of it. -/
def unpulled (encrypted : List EncryptedRecord) (decrypted : List PlainRecord)
    (layer : RecordLayer) : RecordLayer :=
  { layer with
    encryptedBuffer := encrypted ++ layer.encryptedBuffer
    decryptedBuffer := decrypted ++ layer.decryptedBuffer }

variable (E : List EncryptedRecord) (D : List PlainRecord)

/-- The same, of the layer with its machine. -/
def unpulledState (s : Vm × RecordLayer) : Vm × RecordLayer := (s.1, s.2.unpulled E D)

section Operations

variable {C D' : Type} {scheme : HashCommit C D'} {mem : Memory} {peer : PeerShares C D'}

theorem unpulled_pushEncrypt (typ : ContentType) (version : ProtocolVersion) (len : Nat)
    (plaintext : Option (List UInt8)) (mode : EncryptMode) :
    Commutes (unpulled E D) (pushEncrypt typ version len plaintext mode) := by
  refine Commutes.cond (fun _ => Iff.rfl) ⟨fun _ => rfl⟩ ?_
  refine Commutes.cond (fun _ => Iff.rfl) ⟨fun _ => rfl⟩ ⟨fun layer => ?_⟩
  simp only [nextWrite, unpulled]
  cases EncryptOp.new layer.writeSeq typ version len plaintext (beBytes 8 layer.writeSeq)
    (makeTls12Aad layer.writeSeq typ version len) mode <;> rfl

theorem unpulled_pushDecrypt (typ : ContentType) (version : ProtocolVersion)
    (explicitNonce ciphertext tag : List UInt8) (mode : DecryptMode) :
    Commutes (unpulled E D) (pushDecrypt typ version explicitNonce ciphertext tag mode) := by
  refine Commutes.cond (fun _ => Iff.rfl) ⟨fun _ => rfl⟩ ?_
  exact Commutes.cond (fun _ => Iff.rfl) ⟨fun _ => rfl⟩ ⟨fun _ => rfl⟩

theorem unpulled_onEncrypter {α : Type} (x : EStateM (Fault MpcTlsError) (Vm × MpcAesGcm) α) :
    Commutes (unpulledState E D) (onEncrypter x) :=
  Commutes.zoom x (fun _ => rfl) fun _ _ => rfl

theorem unpulled_onDecrypter {α : Type} (x : EStateM (Fault MpcTlsError) (Vm × MpcAesGcm) α) :
    Commutes (unpulledState E D) (onDecrypter x) :=
  Commutes.zoom x (fun _ => rfl) fun _ _ => rfl

theorem unpulled_onDecryptState {α : Type} (x : EStateM (Fault MpcTlsError) DecryptState α) :
    Commutes (unpulledState E D) (onDecryptState x) :=
  Commutes.zoom x (fun _ => rfl) fun _ _ => rfl

theorem unpulled_onAesCtr {α : Type} (x : EStateM (Fault MpcTlsError) (Vm × AesCtr) α) :
    Commutes (unpulledState E D) (onAesCtr x) :=
  Commutes.zoom x (fun _ => rfl) fun _ _ => rfl

theorem unpulled_finishEncrypt (pending : List (EncryptOp × PendingEncrypt))
    (tags : Option (List (List UInt8))) :
    Commutes (unpulled E D) (finishEncrypt mem pending tags) := by
  induction pending generalizing tags with
  | nil => exact Commutes.pure _
  | cons q pending ih =>
      refine Commutes.bind (Commutes.lift _) fun ciphertext => ?_
      refine Commutes.bind (Commutes.modify fun layer => ?_) fun _ => ih _
      simp only [unpulled, List.append_assoc]

theorem unpulled_finishDecrypt (pending : List (DecryptOp × DecryptOutput)) :
    Commutes (unpulled E D) (finishDecrypt mem pending) := by
  induction pending with
  | nil => exact Commutes.pure _
  | cons q pending ih =>
      refine Commutes.bind (Commutes.lift _) fun plaintext => ?_
      refine Commutes.bind (Commutes.modify fun layer => ?_) fun _ => ih
      simp only [unpulled, List.append_assoc]

theorem unpulled_finishCommit (pending : List (DecryptOp × DecryptOutput)) (recv : List Record) :
    Commutes (unpulled E D) (finishCommit mem pending recv) := by
  induction pending generalizing recv with
  | nil => exact Commutes.pure _
  | cons q pending ih =>
      refine Commutes.bind (Commutes.lift _) fun plaintext => ?_
      refine Commutes.bind (Commutes.modify fun layer => ?_) fun _ => ih _
      simp only [unpulled, List.append_assoc]

theorem unpulled_startFlush (isDecrypting : Bool) :
    Commutes (unpulledState E D) (startFlush isDecrypting) := by
  have honline : Commutes (unpulledState E D)
      (requireOnline "record layer must be in online state to flush") := by
    constructor
    intro s
    simp only [requireOnline, unpulledState, unpulled]
    split <;> rfl
  refine Commutes.bind honline fun _ => ?_
  refine Commutes.bind ⟨fun _ => rfl⟩ fun ops => ?_
  obtain ⟨encryptOps, decryptOps⟩ := ops
  have hprepare : Commutes (unpulledState E D) (do
      let task ← prepareFlush encryptOps decryptOps
      (return some task : EStateM (Fault MpcTlsError) (Vm × RecordLayer) _)) := by
    refine Commutes.bind ?_ fun _ => Commutes.pure _
    refine Commutes.bind (unpulled_onEncrypter E D _) fun _ => ?_
    refine Commutes.bind (unpulled_onDecryptState E D _) fun _ => ?_
    exact Commutes.bind (unpulled_onDecrypter E D _) fun _ => Commutes.pure _
  have hcount : Commutes (unpulled E D) (countOnline decryptOps) :=
    Commutes.cond (fun _ => Iff.rfl) ⟨fun _ => rfl⟩ ⟨fun _ => rfl⟩
  refine Commutes.ite (Commutes.pure _) (Commutes.ite ?_ hprepare)
  exact Commutes.bind (Commutes.onSnd hcount) fun _ => hprepare

theorem unpulled_flush (isDecrypting : Bool) :
    Commutes (unpulledState E D) (flush scheme mem peer isDecrypting) := by
  refine Commutes.bind (unpulled_startFlush E D isDecrypting) fun task => ?_
  cases task with
  | none => exact Commutes.pure _
  | some task =>
      refine Commutes.bind (Commutes.lift _) fun tags => ?_
      refine Commutes.bind (Commutes.lift _) fun _ => ?_
      refine Commutes.bind (Commutes.onSnd (unpulled_finishEncrypt E D _ _)) fun _ => ?_
      exact Commutes.onSnd (unpulled_finishDecrypt E D _)

theorem unpulled_commit (cipher : LocalAesCtr) :
    Commutes (unpulledState E D) (commit scheme cipher mem peer) := by
  refine Commutes.bind ?_ fun ⟨sent, recv⟩ => Commutes.bind ?_ fun ops => ?_
  · constructor
    intro s
    simp only [takeOnline, unpulledState, unpulled]
    split <;> rfl
  · exact Commutes.cond (fun _ => Iff.rfl) ⟨fun _ => rfl⟩ ⟨fun _ => rfl⟩
  · refine Commutes.bind (unpulled_onDecrypter E D _) fun _ => ?_
    refine Commutes.bind (Commutes.lift _) fun _ => ?_
    refine Commutes.bind (unpulled_onAesCtr E D _) fun _ => ?_
    refine Commutes.bind (unpulled_onAesCtr E D _) fun _ => ?_
    refine Commutes.get_bind (fun _ => rfl) fun _ => Commutes.get_bind (fun _ => rfl) fun _ => ?_
    refine Commutes.bind (unpulled_onDecrypter E D _) fun pending => ?_
    refine Commutes.bind (Commutes.onSnd (unpulled_finishCommit E D _ _)) fun _ => ?_
    exact Commutes.bind (Commutes.modify fun _ => rfl) fun _ => Commutes.pure _

/-- A call of the record layer. -/
theorem unpulled_call (call : LayerCall C D') :
    Commutes (unpulledState E D) (call.run scheme mem) := by
  cases call with
  | pushEncrypt typ version len plaintext mode =>
      exact Commutes.onSnd (unpulled_pushEncrypt E D _ _ _ _ _)
  | pushDecrypt typ version explicitNonce ciphertext tag mode =>
      exact Commutes.onSnd (unpulled_pushDecrypt E D _ _ _ _ _ _)
  | flush peer isDecrypting => exact unpulled_flush E D isDecrypting
  | startTraffic => exact Commutes.modify fun _ => rfl

end Operations

end RecordLayer

end Tlsn.MpcTls

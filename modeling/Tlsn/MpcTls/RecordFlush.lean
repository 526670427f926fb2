import Tlsn.MpcTls.RecordBatch
import Tlsn.MpcTls.RecordLayer

/-!
What a flush of the record layer does. With the stock for the records it drains,
the machine, the buffers and the records are determined by the records, and by the
tags which the parties compute.
-/

namespace Tlsn.MpcTls

open Tlsn.Cipher Tlsn.Common Tlsn.Tls

namespace EncryptOp

/-- The record in the transcript. -/
def sentRecord (L : Layout) (mem : Memory) (m : Nat) (op : EncryptOp) : Record :=
  ⟨op.seq, op.typ, op.plaintext, (op.pendingAt L m).plaintextRef, op.explicitNonce,
    op.futureAt L m mem⟩

def sentRecords (L : Layout) (mem : Memory) : Nat → List EncryptOp → List Record
  | _, [] => []
  | n, op :: ops =>
      op.sentRecord L mem (n - op.blockCount) :: sentRecords L mem (n - op.blockCount) ops

/-- The record to be sent, with its tag. -/
def encryptedRecord (L : Layout) (mem : Memory) (m : Nat) (op : EncryptOp)
    (tag : Option (List UInt8)) : EncryptedRecord :=
  ⟨op.typ, op.version, op.explicitNonce, op.futureAt L m mem, tag⟩

def encryptedRecords (L : Layout) (mem : Memory) :
    Nat → List EncryptOp → List (List UInt8) → List EncryptedRecord
  | _, [], _ => []
  | n, op :: ops, tags =>
      op.encryptedRecord L mem (n - op.blockCount) tags.head? ::
        encryptedRecords L mem (n - op.blockCount) ops tags.tail

theorem sentRecords_append (L : Layout) (mem : Memory) (n : Nat) (ops ops' : List EncryptOp) :
    sentRecords L mem n (ops ++ ops') =
      sentRecords L mem n ops ++ sentRecords L mem (remaining n ops) ops' := by
  induction ops generalizing n with
  | nil => rfl
  | cons op ops ih => simp only [List.cons_append, sentRecords, remaining, ih]

@[simp] theorem length_sentRecords (L : Layout) (mem : Memory) (n : Nat) (ops : List EncryptOp) :
    (sentRecords L mem n ops).length = ops.length := by
  induction ops generalizing n with
  | nil => rfl
  | cons op ops ih => simp only [sentRecords, List.length_cons, ih]

@[simp] theorem length_encryptedRecords (L : Layout) (mem : Memory) (n : Nat)
    (ops : List EncryptOp) (tags : List (List UInt8)) :
    (encryptedRecords L mem n ops tags).length = ops.length := by
  induction ops generalizing n tags with
  | nil => rfl
  | cons op ops ih => simp only [encryptedRecords, List.length_cons, ih]

end EncryptOp

namespace DecryptOp

/-- The plaintext, if this party learns it. -/
def decryptedAt (L : Layout) (mem : Memory) (m : Nat) (pad : Option (List UInt8)) (op : DecryptOp) :
    Option (List UInt8) :=
  match (op.outputAt L m pad).tryDecrypt mem with
  | .ok plaintext => plaintext
  | .error _ => none

theorem tryDecrypt_outputAt (L : Layout) (mem : Memory) (m : Nat) (pad : Option (List UInt8))
    (op : DecryptOp) :
    (op.outputAt L m pad).tryDecrypt mem = .ok (op.decryptedAt L mem m pad) := by
  unfold decryptedAt
  cases hmode : op.mode with
  | isPrivate =>
      simp only [outputAt, hmode, DecryptOutput.tryDecrypt]
      cases op.padOf pad with
      | none => rfl
      | some otp => rfl
  | isPublic =>
      simp only [outputAt, hmode, DecryptOutput.tryDecrypt, ne_eq, not_true_eq_false, if_false]

def recvRecord (op : DecryptOp) (plaintext : Option (List UInt8)) : Record :=
  ⟨op.seq, op.typ, plaintext, none, op.explicitNonce, op.ciphertext⟩

def plainRecord (op : DecryptOp) (plaintext : Option (List UInt8)) : PlainRecord :=
  ⟨op.typ, op.version, plaintext⟩

/-- The plaintexts of records which are decrypted online. -/
def decrypted (L : Layout) (mem : Memory) :
    Nat → Option (List UInt8) → List DecryptOp → List (DecryptOp × Option (List UInt8))
  | _, _, [] => []
  | n, pad, op :: ops =>
      (op, op.decryptedAt L mem (n - op.blockCount) pad) ::
        decrypted L mem (n - op.blockCount) (op.padAfter pad) ops

theorem decrypted_append (L : Layout) (mem : Memory) (n : Nat) (pad : Option (List UInt8))
    (ops ops' : List DecryptOp) :
    decrypted L mem n pad (ops ++ ops') =
      decrypted L mem n pad ops ++ decrypted L mem (remaining n ops) (padRest pad ops) ops' := by
  induction ops generalizing n pad with
  | nil => rfl
  | cons op ops ih => simp only [List.cons_append, decrypted, remaining, padRest, ih]

theorem map_fst_decrypted (L : Layout) (mem : Memory) (n : Nat) (pad : Option (List UInt8))
    (ops : List DecryptOp) : (decrypted L mem n pad ops).map Prod.fst = ops := by
  induction ops generalizing n pad with
  | nil => rfl
  | cons op ops ih => simp only [decrypted, List.map_cons, ih]

end DecryptOp

namespace RecordLayer

open EncryptOp DecryptOp

/-- Encrypter and decrypter have stock, and the role of the layer. -/
structure Stocked (e d : Stock) (layer : RecordLayer) : Prop where
  encrypter : layer.encrypter.Stocked e
  decrypter : layer.decrypter.Stocked d
  encrypter_role : layer.encrypter.role = layer.role
  decrypter_role : layer.decrypter.role = layer.role

def FlushFits (e d : Stock) (pad : Option (List UInt8)) (encryptOps : List EncryptOp)
    (decryptOps : List DecryptOp) : Prop :=
  e.FitsEncrypt encryptOps ∧ d.FitsDecrypt pad decryptOps

def flushTask (role : Role) (e d : Stock) (pad : Option (List UInt8)) (encryptOps : List EncryptOp)
    (decryptOps : List DecryptOp) : FlushTask where
  encrypts := encryptOps.zip ((e.encryptOuts encryptOps).map Prod.fst)
  decrypts := decryptOps.zip (DecryptOp.layOut d.layout d.blocks pad decryptOps)
  computeTags := e.computeTask role encryptOps
  verifyTags := d.verifyTask role decryptOps

def flushVmOps (role : Role) (e d : Stock) (pad : Option (List UInt8)) (encryptOps : List EncryptOp)
    (decryptOps : List DecryptOp) : List VmOp :=
  e.encryptVmOps role encryptOps ++ DecryptOp.opsFrom role d.layout d.blocks pad decryptOps ++
    d.verifyVmOps decryptOps

/-- The layer once the stock is taken. -/
def restock (e d : Stock) (pad : Option (List UInt8)) (layer : RecordLayer) : RecordLayer :=
  { layer with
    encrypter := layer.encrypter.restock e
    decrypter := layer.decrypter.restock d
    state := layer.state.setRecvOtp pad }

variable {e d : Stock} {encryptOps : List EncryptOp} {decryptOps : List DecryptOp}

section

variable {α : Type} {s s' : Vm × RecordLayer} {a : α}

theorem onEncrypter_ok_iff {x : EStateM (Fault MpcTlsError) (Vm × MpcAesGcm) α} :
    onEncrypter x s = .ok a s' ↔ ∃ t, x (s.1, s.2.encrypter) = .ok a t ∧
      s' = (t.1, { s.2 with encrypter := t.2 }) :=
  Fault.zoom_ok_iff

theorem onDecrypter_ok_iff {x : EStateM (Fault MpcTlsError) (Vm × MpcAesGcm) α} :
    onDecrypter x s = .ok a s' ↔ ∃ t, x (s.1, s.2.decrypter) = .ok a t ∧
      s' = (t.1, { s.2 with decrypter := t.2 }) :=
  Fault.zoom_ok_iff

theorem onDecryptState_ok_iff {x : EStateM (Fault MpcTlsError) DecryptState α} :
    onDecryptState x s = .ok a s' ↔ ∃ t, x ((s.1, s.2.decrypter), s.2.state.recvOtp) = .ok a t ∧
      s' = (t.1.1, { s.2 with decrypter := t.1.2, state := s.2.state.setRecvOtp t.2 }) :=
  Fault.zoom_ok_iff

end

theorem onEncrypter_encrypt {s : Vm × RecordLayer} (hstock : s.2.encrypter.Stocked e)
    (hvalid : ∀ op ∈ encryptOps, op.Valid) (hfits : e.FitsEncrypt encryptOps) :
    onEncrypter (encrypt encryptOps) s =
      .ok ((e.encryptOuts encryptOps).map Prod.fst, e.computeTask s.2.encrypter.role encryptOps)
        (s.1.push (e.encryptVmOps s.2.encrypter.role encryptOps),
          { s.2 with encrypter := s.2.encrypter.restock (e.encrypted encryptOps) }) :=
  onEncrypter_ok_iff.mpr ⟨_, encrypt_eq hstock hvalid hfits, rfl⟩

theorem onDecryptState_decryptMpc {s : Vm × RecordLayer} (hstock : s.2.decrypter.Stocked d)
    (hfits : DecryptOp.FitFrom d.blocks s.2.state.recvOtp decryptOps) :
    onDecryptState (decryptMpc decryptOps) s =
      .ok (DecryptOp.layOut d.layout d.blocks s.2.state.recvOtp decryptOps)
        (s.1.push (DecryptOp.opsFrom s.2.decrypter.role d.layout d.blocks s.2.state.recvOtp
          decryptOps),
          { s.2 with
            decrypter := s.2.decrypter.restock
              (d.spent (DecryptOp.remaining d.blocks decryptOps))
            state := s.2.state.setRecvOtp (padRest s.2.state.recvOtp decryptOps) }) :=
  onDecryptState_ok_iff.mpr
    ⟨_, decryptMpc_eq decryptOps hfits hstock.state hstock.sized.lt_word, rfl⟩

theorem onDecrypter_verifyTags {s : Vm × RecordLayer} (hstock : s.2.decrypter.Stocked d)
    (hfits : d.FitsVerify decryptOps) :
    onDecrypter (verifyTags decryptOps) s =
      .ok (d.verifyTask s.2.decrypter.role decryptOps)
        (s.1.push (d.verifyVmOps decryptOps),
          { s.2 with decrypter := s.2.decrypter.restock (d.tagged decryptOps.length) }) :=
  onDecrypter_ok_iff.mpr ⟨_, verifyTags_eq hstock hfits, rfl⟩

theorem prepareFlush_eq {s : Vm × RecordLayer} (hstock : s.2.Stocked e d)
    (hvalid : ∀ op ∈ encryptOps, op.Valid)
    (hfits : FlushFits e d s.2.state.recvOtp encryptOps decryptOps) :
    prepareFlush encryptOps decryptOps s =
      .ok (flushTask s.2.role e d s.2.state.recvOtp encryptOps decryptOps)
        (s.1.push (flushVmOps s.2.role e d s.2.state.recvOtp encryptOps decryptOps),
          s.2.restock (e.encrypted encryptOps) (d.decrypted decryptOps)
            (padRest s.2.state.recvOtp decryptOps)) := by
  have hsized := hstock.decrypter.sized.spent (DecryptOp.remaining_le decryptOps d.blocks)
  have hencrypt := onEncrypter_encrypt (s := s) hstock.encrypter hvalid hfits.1
  refine Fault.run_bind_ok_iff.mpr ⟨_, _, hencrypt, ?_⟩
  refine Fault.run_bind_ok_iff.mpr ⟨_, _, onDecryptState_decryptMpc hstock.decrypter hfits.2.1, ?_⟩
  refine Fault.run_bind_ok_iff.mpr ⟨_, _, onDecrypter_verifyTags
    (MpcAesGcm.Stocked.restock hsized) hfits.2.2, ?_⟩
  simp only [hstock.encrypter_role, hstock.decrypter_role, Vm.push_push,
    MpcAesGcm.restock_role, MpcAesGcm.restock_restock, List.append_assoc, flushVmOps]
  rfl

theorem prepareFlush_fits {s s' : Vm × RecordLayer} {task : FlushTask} (hstock : s.2.Stocked e d)
    (hvalid : ∀ op ∈ encryptOps, op.Valid) (hlen : ∀ op ∈ encryptOps, op.len < wordSize)
    (hlen' : ∀ op ∈ decryptOps, op.ciphertext.length < wordSize)
    (h : prepareFlush encryptOps decryptOps s = .ok task s') :
    FlushFits e d s.2.state.recvOtp encryptOps decryptOps := by
  obtain ⟨pending, s₁, hencrypt, h⟩ := Fault.run_bind_ok_iff.mp h
  obtain ⟨outputs, s₂, hdecrypt, h⟩ := Fault.run_bind_ok_iff.mp h
  obtain ⟨verify, s₃, hverify, -⟩ := Fault.run_bind_ok_iff.mp h
  obtain ⟨t, hops, hs₁⟩ := onEncrypter_ok_iff.mp hencrypt
  obtain ⟨u, houtputs, hs₂⟩ := onDecryptState_ok_iff.mp hdecrypt
  obtain ⟨v, htask, -⟩ := onDecrypter_ok_iff.mp hverify
  have hword := hstock.decrypter.sized.lt_word
  subst hs₁
  have hfits := decryptMpc_fit decryptOps hlen' hstock.decrypter.state hword houtputs
  have hsized := hstock.decrypter.sized.spent (DecryptOp.remaining_le decryptOps d.blocks)
  rw [decryptMpc_eq decryptOps hfits hstock.decrypter.state hword] at houtputs
  cases houtputs
  subst hs₂
  have hverifies := verifyTags_fit (MpcAesGcm.Stocked.restock hsized) htask
  exact ⟨encrypt_fit hstock.encrypter hvalid hlen hops, hfits, hverifies⟩

/-! ## After the machine has run -/

theorem finishEncrypt_eq (L : Layout) (mem : Memory) (ops : List EncryptOp) {n : Nat}
    {tags : Option (List (List UInt8))} {layer : RecordLayer} {pad : Option (List UInt8)}
    {sent recv : List Record} (hvalid : ∀ op ∈ ops, op.Valid)
    (hstate : layer.state = .online pad sent recv) :
    finishEncrypt mem (ops.zip ((EncryptOp.layOut L n ops).map Prod.fst))
        (tags.map List.reverse) layer =
      .ok () { layer with
        encryptedBuffer := layer.encryptedBuffer ++ encryptedRecords L mem n ops (tags.getD [])
        state := .online pad (sent ++ sentRecords L mem n ops) recv } := by
  induction ops generalizing n tags layer sent with
  | nil =>
      simp only [encryptedRecords, sentRecords, List.append_nil, ← hstate]
      rfl
  | cons op ops ih =>
      have htext := tryEncrypt_pendingAt L (n - op.blockCount) mem (hvalid op List.mem_cons_self)
      have hpop : popTag (tags.map List.reverse) =
          ((tags.getD []).head?, (tags.map List.tail).map List.reverse) := by
        cases tags with
        | none => rfl
        | some tags => simp [popTag, List.getLast?_reverse, List.dropLast_reverse]
      have htail : (tags.map List.tail).getD [] = (tags.getD []).tail := by
        cases tags <;> rfl
      simp only [EncryptOp.layOut, List.map_cons, List.zip_cons_cons, finishEncrypt]
      rw [Fault.run_bind_of_ok (Fault.lift_of_ok htext layer), hpop]
      simp only
      refine Fault.run_bind_ok_iff.mpr ⟨_, _, rfl, ?_⟩
      rw [ih (fun o ho => hvalid o (List.mem_cons_of_mem _ ho))
        (congrArg (RecordLayerState.pushSent _) hstate), htail]
      simp only [encryptedRecords, sentRecords, List.append_assoc, List.cons_append,
        List.nil_append]
      rfl

theorem finishDecrypt_eq (L : Layout) (mem : Memory) (ops : List DecryptOp) {n : Nat}
    {otp pad : Option (List UInt8)} {layer : RecordLayer} {sent recv : List Record}
    (hstate : layer.state = .online otp sent recv) :
    finishDecrypt mem (ops.zip (DecryptOp.layOut L n pad ops)) layer =
      .ok () { layer with
        decryptedBuffer := layer.decryptedBuffer ++
          (DecryptOp.decrypted L mem n pad ops).map fun r => r.1.plainRecord r.2
        state := .online otp sent (recv ++
          (DecryptOp.decrypted L mem n pad ops).map fun r => r.1.recvRecord r.2) } := by
  induction ops generalizing n pad layer recv with
  | nil =>
      simp only [DecryptOp.decrypted, List.map_nil, List.append_nil, ← hstate]
      rfl
  | cons op ops ih =>
      have htext := op.tryDecrypt_outputAt L mem (n - op.blockCount) pad
      simp only [DecryptOp.layOut, List.zip_cons_cons, finishDecrypt]
      rw [Fault.run_bind_of_ok (Fault.lift_of_ok htext layer)]
      refine Fault.run_bind_ok_iff.mpr ⟨_, _, rfl, ?_⟩
      rw [ih (congrArg (RecordLayerState.pushRecv _) hstate)]
      simp only [DecryptOp.decrypted, List.map_cons, List.append_assoc, List.cons_append,
        List.nil_append]
      rfl

/-- The layer once the records are processed. -/
def finished (mem : Memory) (e d : Stock) (pad : Option (List UInt8)) (encryptOps : List EncryptOp)
    (decryptOps : List DecryptOp) (tags : Option (List (List UInt8))) (layer : RecordLayer) :
    RecordLayer :=
  { layer with
    encryptedBuffer := layer.encryptedBuffer ++
      encryptedRecords e.layout mem e.blocks encryptOps (tags.getD [])
    decryptedBuffer := layer.decryptedBuffer ++
      (DecryptOp.decrypted d.layout mem d.blocks pad decryptOps).map fun r => r.1.plainRecord r.2
    state :=
      match layer.state with
      | .online otp sent recv =>
          .online otp (sent ++ sentRecords e.layout mem e.blocks encryptOps)
            (recv ++ (DecryptOp.decrypted d.layout mem d.blocks pad decryptOps).map
              fun r => r.1.recvRecord r.2)
      | state => state }

variable {C D : Type} {scheme : HashCommit C D} {mem : Memory} {peer : PeerShares C D}

theorem runFlush_ok_iff {role : Role} {pad otp : Option (List UInt8)} {sent recv : List Record}
    {s s' : Vm × RecordLayer} (hvalid : ∀ op ∈ encryptOps, op.Valid)
    (hstate : s.2.state = .online otp sent recv) :
    runFlush scheme mem peer (flushTask role e d pad encryptOps decryptOps) s = .ok () s' ↔
      ∃ tags, (e.computeTask role encryptOps).run mem peer.computeShares = .ok tags ∧
        (d.verifyTask role decryptOps).run scheme mem peer = .ok () ∧
        s' = (s.1, s.2.finished mem e d pad encryptOps decryptOps tags) := by
  have hfinish : ∀ tags, (Fault.onSnd (finishEncrypt mem
      (flushTask role e d pad encryptOps decryptOps).encrypts (tags.map List.reverse)) >>= fun _ =>
      Fault.onSnd (finishDecrypt mem (flushTask role e d pad encryptOps decryptOps).decrypts)) s =
        EStateM.Result.ok () (s.1, s.2.finished mem e d pad encryptOps decryptOps tags) := by
    intro tags
    refine Fault.run_bind_ok_iff.mpr ⟨(), (s.1, _), Fault.onSnd_ok_iff.mpr
      ⟨finishEncrypt_eq e.layout mem encryptOps hvalid hstate, rfl⟩, ?_⟩
    refine Fault.onSnd_ok_iff.mpr ⟨?_, rfl⟩
    rw [finished, hstate]
    exact finishDecrypt_eq d.layout mem decryptOps rfl
  constructor
  · intro h
    obtain ⟨tags, s₁, htags, hrest⟩ := Fault.run_bind_ok_iff.mp h
    obtain ⟨⟨⟩, s₂, hverify, hfinal⟩ := Fault.run_bind_ok_iff.mp hrest
    obtain ⟨hrun, hs₁⟩ := Fault.lift_ok_iff.mp htags
    obtain ⟨hrun', hs₂⟩ := Fault.lift_ok_iff.mp hverify
    rw [hs₂, hs₁, hfinish tags] at hfinal
    cases hfinal
    exact ⟨tags, Fault.convert_ok_iff.mp hrun, Fault.convert_ok_iff.mp hrun', rfl⟩
  · rintro ⟨tags, hrun, hrun', rfl⟩
    refine Fault.run_bind_ok_iff.mpr ⟨tags, s,
      Fault.lift_of_ok (Fault.convert_ok_iff.mpr hrun) s, ?_⟩
    refine Fault.run_bind_ok_iff.mpr ⟨(), s,
      Fault.lift_of_ok (Fault.convert_ok_iff.mpr hrun') s, ?_⟩
    exact hfinish tags

/-! ## A whole flush -/

/-- What the pushes ensure of the records that are buffered. -/
structure Buffered (layer : RecordLayer) : Prop where
  valid : ∀ op ∈ layer.encryptBuffer, op.Valid
  len : ∀ op ∈ layer.encryptBuffer, op.len < wordSize
  ciphertext : ∀ op ∈ layer.decryptBuffer, op.ciphertext.length < wordSize

def drainedDecrypts (isDecrypting : Bool) (layer : RecordLayer) : List DecryptOp :=
  (layer.drain isDecrypting).1.2

/-- Nothing is buffered that this flush is to process. -/
def skipsFlush (isDecrypting : Bool) (layer : RecordLayer) : Bool :=
  layer.encryptBuffer.isEmpty && (layer.drainedDecrypts isDecrypting).isEmpty

def onlineAfter (isDecrypting : Bool) (layer : RecordLayer) : Nat :=
  if isDecrypting && !layer.skipsFlush isDecrypting then
    wrap (layer.recvOnline + decryptLen (layer.drainedDecrypts isDecrypting))
  else layer.recvOnline

/-- What a flush needs, and the tags which it computes. -/
structure Flushes (scheme : HashCommit C D) (mem : Memory) (peer : PeerShares C D) (e d : Stock)
    (isDecrypting : Bool) (tags : Option (List (List UInt8))) (layer : RecordLayer) : Prop where
  online : isDecrypting = true → layer.skipsFlush isDecrypting = false →
    layer.onlineAfter isDecrypting ≤ layer.maxRecvOnline
  fits : FlushFits e d layer.state.recvOtp layer.encryptBuffer (layer.drainedDecrypts isDecrypting)
  compute : (e.computeTask layer.role layer.encryptBuffer).run mem peer.computeShares = .ok tags
  verify : (d.verifyTask layer.role (layer.drainedDecrypts isDecrypting)).run scheme mem peer =
    .ok ()

/-- The layer once what is to be processed is drained and counted. -/
def counted (isDecrypting : Bool) (layer : RecordLayer) : RecordLayer :=
  { (layer.drain isDecrypting).2 with recvOnline := layer.onlineAfter isDecrypting }

/-- The layer after a flush. -/
def flushed (mem : Memory) (e d : Stock) (isDecrypting : Bool) (tags : Option (List (List UInt8)))
    (layer : RecordLayer) : RecordLayer :=
  ((layer.counted isDecrypting).restock (e.encrypted layer.encryptBuffer)
    (d.decrypted (layer.drainedDecrypts isDecrypting))
    (padRest layer.state.recvOtp (layer.drainedDecrypts isDecrypting))).finished mem e d
      layer.state.recvOtp layer.encryptBuffer (layer.drainedDecrypts isDecrypting) tags

variable {isDecrypting : Bool} {tags : Option (List (List UInt8))} {layer : RecordLayer}

theorem nil_of_skips (h : layer.skipsFlush isDecrypting = true) :
    layer.encryptBuffer = [] ∧ layer.drainedDecrypts isDecrypting = [] := by
  have hempty := Bool.and_eq_true_iff.mp h
  exact ⟨List.isEmpty_iff.mp hempty.1, List.isEmpty_iff.mp hempty.2⟩

theorem drain_of_skips (h : layer.skipsFlush isDecrypting = true) :
    (layer.drain isDecrypting).2 = layer := by
  obtain ⟨hencrypt, hdecrypt⟩ := nil_of_skips h
  have hdrop : ∀ pos, layer.decryptBuffer.take pos = [] →
      layer.decryptBuffer.drop pos = layer.decryptBuffer := by
    intro pos hpos
    cases List.take_eq_nil_iff.mp hpos with
    | inl hzero => rw [hzero, List.drop_zero]
    | inr hnil => rw [hnil, List.drop_nil]
  have hdrained := hdrop _ hdecrypt
  simp only [drain, hdrained, ← hencrypt]

theorem restock_self {pad : Option (List UInt8)} (hstock : layer.Stocked e d)
    (hpad : pad = layer.state.recvOtp) : layer.restock e d pad = layer := by
  have hstate : layer.state.setRecvOtp layer.state.recvOtp = layer.state := by
    cases layer.state <;> rfl
  have hencrypter : layer.encrypter.restock e = layer.encrypter := by
    rw [MpcAesGcm.restock, ← hstock.encrypter.state]
  have hdecrypter : layer.decrypter.restock d = layer.decrypter := by
    rw [MpcAesGcm.restock, ← hstock.decrypter.state]
  rw [restock, hpad, hstate, hencrypter, hdecrypter]

theorem finished_nil (pad : Option (List UInt8)) (tags : Option (List (List UInt8))) :
    layer.finished mem e d pad [] [] tags = layer := by
  have hstate : (match layer.state with
      | .online otp sent recv => RecordLayerState.online otp (sent ++ []) (recv ++ [])
      | state => state) = layer.state := by
    cases layer.state <;> simp only [List.append_nil]
  simp only [finished, encryptedRecords, sentRecords, DecryptOp.decrypted, List.map_nil,
    List.append_nil] at hstate ⊢
  rw [hstate]

theorem counted_of_skips (h : layer.skipsFlush isDecrypting = true) :
    layer.counted isDecrypting = layer := by
  have honline : layer.onlineAfter isDecrypting = layer.recvOnline := by
    rw [onlineAfter, h, Bool.not_true, Bool.and_false, if_neg Bool.false_ne_true]
  rw [counted, drain_of_skips h, honline]

/-- Nothing happens when there is nothing to do. -/
theorem flushed_of_skips (hstock : layer.Stocked e d)
    (h : layer.skipsFlush isDecrypting = true) :
    layer.flushed mem e d isDecrypting tags = layer := by
  obtain ⟨hencrypt, hdecrypt⟩ := nil_of_skips h
  rw [flushed, counted_of_skips h, hencrypt, hdecrypt, Stock.encrypted_nil, Stock.decrypted_nil,
    finished_nil]
  exact restock_self hstock rfl

theorem requireOnline_eq {s : Vm × RecordLayer} {otp : Option (List UInt8)}
    {sent recv : List Record} (text : String) (hstate : s.2.state = .online otp sent recv) :
    requireOnline text s = .ok () s := by
  rw [requireOnline, hstate]

theorem startFlush_of_skips {s : Vm × RecordLayer} {otp : Option (List UInt8)}
    {sent recv : List Record} (hstate : s.2.state = .online otp sent recv)
    (h : s.2.skipsFlush isDecrypting = true) : startFlush isDecrypting s = .ok none s := by
  obtain ⟨vm, layer⟩ := s
  have hdrain : drainBuffers isDecrypting (vm, layer) =
      .ok (layer.drain isDecrypting).1 (vm, layer) :=
    congrArg (fun l => EStateM.Result.ok (layer.drain isDecrypting).1 (vm, l)) (drain_of_skips h)
  rw [startFlush, Fault.run_bind_of_ok (requireOnline_eq _ hstate), Fault.run_bind_of_ok hdrain]
  exact congrFun (if_pos h) (vm, layer)

theorem startFlush_ok_iff {s s' : Vm × RecordLayer} {otp : Option (List UInt8)}
    {sent recv : List Record} {task : Option FlushTask} (hstate : s.2.state = .online otp sent recv)
    (h : s.2.skipsFlush isDecrypting = false) :
    startFlush isDecrypting s = .ok task s' ↔
      (isDecrypting = true → s.2.onlineAfter isDecrypting ≤ s.2.maxRecvOnline) ∧
        ∃ t, prepareFlush s.2.encryptBuffer (s.2.drainedDecrypts isDecrypting)
          (s.1, s.2.counted isDecrypting) = .ok t s' ∧ task = some t := by
  obtain ⟨vm, layer⟩ := s
  have hdrain : drainBuffers isDecrypting (vm, layer) =
      .ok (layer.encryptBuffer, layer.drainedDecrypts isDecrypting)
        (vm, (layer.drain isDecrypting).2) := rfl
  rw [startFlush, Fault.run_bind_of_ok (requireOnline_eq _ hstate), Fault.run_bind_of_ok hdrain]
  have hskips : ¬ (layer.encryptBuffer.isEmpty &&
      (layer.drainedDecrypts isDecrypting).isEmpty) = true := Bool.eq_false_iff.mp h
  have hsome : ∀ t : Vm × RecordLayer, (prepareFlush layer.encryptBuffer
      (layer.drainedDecrypts isDecrypting) >>= fun task => pure (some task)) t = .ok task s' ↔
        ∃ u, prepareFlush layer.encryptBuffer (layer.drainedDecrypts isDecrypting) t = .ok u s' ∧
          task = some u := by
    intro t
    rw [Fault.run_bind_ok_iff]
    constructor
    · rintro ⟨u, s₁, hu, hpure⟩
      cases hpure
      exact ⟨u, hu, rfl⟩
    · rintro ⟨u, hu, rfl⟩
      exact ⟨u, s', hu, rfl⟩
  simp only
  rw [if_neg hskips]
  cases isDecrypting with
  | false =>
      rw [if_neg Bool.false_ne_true, hsome]
      have honline : layer.onlineAfter false = layer.recvOnline := rfl
      simp only [Bool.false_eq_true, false_implies, true_and, honline]
      rfl
  | true =>
      have honline : layer.onlineAfter true =
          wrap (layer.recvOnline + decryptLen (layer.drainedDecrypts true)) := by
        have hskips' : layer.skipsFlush true = false := h
        rw [onlineAfter, hskips', Bool.not_false, Bool.and_true, if_pos rfl]
      simp only [if_true, true_implies]
      by_cases hbound : layer.onlineAfter true ≤ layer.maxRecvOnline
      · have hcount : Fault.onSnd (countOnline (layer.drainedDecrypts true))
            (vm, (layer.drain true).2) = .ok () (vm, layer.counted true) := by
          refine Fault.onSnd_ok_iff.mpr ⟨?_, rfl⟩
          rw [counted, honline]
          rw [honline] at hbound
          exact if_neg (Nat.not_lt.mpr hbound)
        rw [Fault.run_bind_of_ok hcount, hsome]
        simp only [hbound, true_and]
      · have hcount : ∃ e, Fault.onSnd (countOnline (layer.drainedDecrypts true))
            (vm, (layer.drain true).2) = .error e (vm, (layer.drain true).2) := by
          refine ⟨exceedsRecvOnline layer.recvOnline (decryptLen (layer.drainedDecrypts true))
            layer.maxRecvOnline, ?_⟩
          rw [honline] at hbound
          have hcount : countOnline (layer.drainedDecrypts true) (layer.drain true).2 = _ :=
            if_pos (Nat.not_le.mp hbound)
          simp only [Fault.onSnd, hcount]
          rfl
        obtain ⟨e, he⟩ := hcount
        rw [Fault.run_bind_of_error he]
        simp only [hbound, false_and, reduceCtorEq]

theorem flushVmOps_nil (role : Role) (e d : Stock) (pad : Option (List UInt8)) :
    flushVmOps role e d pad [] [] = [] := by
  simp only [flushVmOps, Stock.encryptVmOps, Stock.verifyVmOps, EncryptOp.opsFrom,
    DecryptOp.opsFrom, List.map_nil, List.append_nil, List.length_nil, J0.taken, List.take_zero,
    Resources.j0Ops]

theorem flushes_of_skips (h : layer.skipsFlush isDecrypting = true) :
    layer.Flushes scheme mem peer e d isDecrypting none := by
  obtain ⟨hencrypt, hdecrypt⟩ := nil_of_skips h
  have htags : ∀ j0s : List J0, Resources.TagsFit j0s [] :=
    fun j0s => ⟨Nat.zero_le _, fun data hdata => nomatch hdata⟩
  refine ⟨?_, ?_, ?_, ?_⟩
  · intro _ hskips
    rw [h] at hskips
    cases hskips
  · rw [hencrypt, hdecrypt]
    exact ⟨⟨trivial, htags _⟩, trivial, htags _⟩
  · rw [hencrypt]
    rfl
  · rw [hdecrypt]
    rfl

/-- A flush succeeds if the limit for decryption is kept, there is stock for the
records, and the tasks for the tags succeed. -/
theorem flush_ok_iff {otp : Option (List UInt8)} {sent recv : List Record}
    {s s' : Vm × RecordLayer} (hstock : s.2.Stocked e d) (hbuffered : s.2.Buffered)
    (hstate : s.2.state = .online otp sent recv) :
    flush scheme mem peer isDecrypting s = .ok () s' ↔
      ∃ tags, s.2.Flushes scheme mem peer e d isDecrypting tags ∧
        s' = (s.1.push (flushVmOps s.2.role e d s.2.state.recvOtp s.2.encryptBuffer
          (s.2.drainedDecrypts isDecrypting)), s.2.flushed mem e d isDecrypting tags) := by
  obtain ⟨vm, layer⟩ := s
  have hdrained : ∀ op ∈ layer.drainedDecrypts isDecrypting, op.ciphertext.length < wordSize :=
    fun op hop => hbuffered.ciphertext op (List.mem_of_mem_take hop)
  rw [flush, Fault.run_bind_ok_iff]
  cases hskips : layer.skipsFlush isDecrypting with
  | true =>
      obtain ⟨hencrypt, hdecrypt⟩ := nil_of_skips hskips
      have hflushed : ∀ tags, (vm.push (flushVmOps layer.role e d layer.state.recvOtp
          layer.encryptBuffer (layer.drainedDecrypts isDecrypting)),
          layer.flushed mem e d isDecrypting tags) = (vm, layer) := by
        intro tags
        rw [flushed_of_skips hstock hskips, hencrypt, hdecrypt, flushVmOps_nil, Vm.push_nil]
      constructor
      · rintro ⟨task, s₁, hstart, hrun⟩
        rw [startFlush_of_skips hstate hskips] at hstart
        cases hstart
        cases hrun
        exact ⟨none, flushes_of_skips hskips, (hflushed none).symm⟩
      · rintro ⟨tags, -, rfl⟩
        refine ⟨none, (vm, layer), startFlush_of_skips hstate hskips, ?_⟩
        rw [hflushed tags]
        rfl
  | false =>
      have hcounted : (layer.counted isDecrypting).Stocked e d :=
        ⟨hstock.encrypter, hstock.decrypter, hstock.encrypter_role, hstock.decrypter_role⟩
      have hprepare := fun hfits : FlushFits e d layer.state.recvOtp layer.encryptBuffer
        (layer.drainedDecrypts isDecrypting) =>
          prepareFlush_eq (s := (vm, layer.counted isDecrypting)) hcounted hbuffered.valid hfits
      have hstate' : ((layer.counted isDecrypting).restock (e.encrypted layer.encryptBuffer)
          (d.decrypted (layer.drainedDecrypts isDecrypting))
          (padRest layer.state.recvOtp (layer.drainedDecrypts isDecrypting))).state =
            .online (padRest layer.state.recvOtp (layer.drainedDecrypts isDecrypting)) sent recv :=
        congrArg (RecordLayerState.setRecvOtp _) hstate
      constructor
      · rintro ⟨task, s₁, hstart, hrun⟩
        obtain ⟨honline, t, ht, rfl⟩ := (startFlush_ok_iff hstate hskips).mp hstart
        have hfits := prepareFlush_fits hcounted hbuffered.valid hbuffered.len hdrained ht
        rw [hprepare hfits] at ht
        cases ht
        obtain ⟨tags, hcompute, hverify, rfl⟩ :=
          (runFlush_ok_iff hbuffered.valid hstate').mp hrun
        exact ⟨tags, ⟨fun h _ => honline h, hfits, hcompute, hverify⟩, rfl⟩
      · rintro ⟨tags, hflushes, rfl⟩
        refine ⟨_, _, (startFlush_ok_iff hstate hskips).mpr
          ⟨fun h => hflushes.online h hskips, _, hprepare hflushes.fits, rfl⟩, ?_⟩
        exact (runFlush_ok_iff hbuffered.valid hstate').mpr
          ⟨tags, hflushes.compute, hflushes.verify, rfl⟩

end RecordLayer

end Tlsn.MpcTls

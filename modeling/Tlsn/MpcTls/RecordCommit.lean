import Tlsn.MpcTls.RecordFlush

/-!
What a commit of the record layer does: the tags of the records that are still
buffered are verified, the key is revealed, and the records are decrypted, by the
leader on its own where they are private.
-/

namespace Tlsn.MpcTls

open Tlsn.Cipher Tlsn.Common Tlsn.Tls

namespace DecryptOp

/-- The blocks which the record takes. -/
def localCount (op : DecryptOp) : Nat :=
  match op.mode with
  | .isPrivate => 0
  | .isPublic => op.blockCount

/-- What decrypting a private record returns. -/
def localPlaintext (role : Role) (cipher : LocalAesCtr) (ctr : AesCtr) (op : DecryptOp) :
    Except (Fault MpcTlsError) (Option (List UInt8)) :=
  match role with
  | .leader => (ctr.decrypt cipher op.explicitNonce op.ciphertext).map some
  | .follower => .ok none

def LocalFitsAt (role : Role) (cipher : LocalAesCtr) (ctr : AesCtr) (n : Nat) (op : DecryptOp) :
    Prop :=
  match op.mode with
  | .isPrivate => (op.localPlaintext role cipher ctr).toOption.isSome = true
  | .isPublic => op.explicitNonce.length = 8 ∧ op.ciphertext.length ≠ 0 ∧ op.blockCount ≤ n

/-- The plaintext, if this party learns it. -/
def committedAt (role : Role) (cipher : LocalAesCtr) (ctr : AesCtr) (L : Layout) (mem : Memory)
    (m : Nat) (op : DecryptOp) : Option (List UInt8) :=
  match op.mode with
  | .isPrivate => (op.localPlaintext role cipher ctr).toOption.join
  | .isPublic =>
      some (xorBytes op.ciphertext (mem.read ⟨L.keystream + 16 * m, op.ciphertext.length⟩))

def localOps (L : Layout) (n : Nat) (op : DecryptOp) : List VmOp :=
  match op.mode with
  | .isPrivate => []
  | .isPublic => op.publicOps L n

section

variable {role : Role} {cipher : LocalAesCtr} {ctr : AesCtr} {stock : Stock}
  {s s' : Vm × MpcAesGcm}

theorem decryptOneLocal_private {op : DecryptOp} {out : DecryptOutput}
    (hmode : op.mode = .isPrivate) (h : op.decryptOneLocal role cipher ctr s = .ok out s') :
    ∃ p, op.localPlaintext role cipher ctr = .ok p ∧ out = .isLocal p ∧ s' = s := by
  simp only [decryptOneLocal, hmode] at h
  cases role with
  | leader =>
      obtain ⟨p, s₁, hp, hret⟩ := Fault.run_bind_ok_iff.mp h
      obtain ⟨hdecrypt, rfl⟩ := Fault.lift_ok_iff.mp hp
      cases hret
      exact ⟨some p, by rw [localPlaintext, hdecrypt]; rfl, rfl, rfl⟩
  | follower =>
      cases h
      exact ⟨none, rfl, rfl, rfl⟩

theorem decryptOneLocal_ok {op : DecryptOp} {out : DecryptOutput} (hstock : s.2.Stocked stock)
    (hlen : op.ciphertext.length < wordSize)
    (h : op.decryptOneLocal role cipher ctr s = .ok out s') :
    op.LocalFitsAt role cipher ctr stock.blocks ∧
      (∀ mem, out.tryDecrypt mem = .ok (op.committedAt role cipher ctr stock.layout mem
        (stock.blocks - op.blockCount))) ∧
      s' = (s.1.push (op.localOps stock.layout stock.blocks),
        s.2.restock (stock.spent (stock.blocks - op.localCount))) := by
  cases hmode : op.mode with
  | isPrivate =>
      obtain ⟨p, hp, rfl, rfl⟩ := decryptOneLocal_private hmode h
      have hrestock : s'.2.restock (stock.spent (stock.blocks - 0)) = s'.2 := by
        rw [MpcAesGcm.restock, Nat.sub_zero, show stock.spent stock.blocks = stock from rfl,
          ← hstock.state]
      simp only [LocalFitsAt, committedAt, localOps, localCount, hmode, hp, Vm.push_nil, hrestock]
      exact ⟨rfl, fun mem => rfl, trivial⟩
  | isPublic =>
      simp only [decryptOneLocal, hmode] at h
      have hword := hstock.sized.lt_word
      obtain ⟨hnonce, hpos, hle⟩ := decryptPublic_fits hstock.state hword hlen h
      rw [decryptPublic_eq hstock.state hword hnonce hpos hle] at h
      cases h
      simp only [LocalFitsAt, committedAt, localOps, localCount, hmode, DecryptOutput.tryDecrypt,
        ne_eq, not_true_eq_false, if_false]
      exact ⟨⟨hnonce, hpos, hle⟩, fun mem => trivial, rfl⟩

end

/-! Batches of records. -/

def localRemaining : Nat → List DecryptOp → Nat
  | n, [] => n
  | n, op :: ops => localRemaining (n - op.localCount) ops

def LocalFitFrom (role : Role) (cipher : LocalAesCtr) (ctr : AesCtr) : Nat → List DecryptOp → Prop
  | _, [] => True
  | n, op :: ops =>
      op.LocalFitsAt role cipher ctr n ∧ LocalFitFrom role cipher ctr (n - op.localCount) ops

def committed (role : Role) (cipher : LocalAesCtr) (ctr : AesCtr) (L : Layout) (mem : Memory) :
    Nat → List DecryptOp → List (DecryptOp × Option (List UInt8))
  | _, [] => []
  | n, op :: ops =>
      (op, op.committedAt role cipher ctr L mem (n - op.blockCount)) ::
        committed role cipher ctr L mem (n - op.localCount) ops

def localOpsFrom (L : Layout) : Nat → List DecryptOp → List VmOp
  | _, [] => []
  | n, op :: ops => op.localOps L n ++ localOpsFrom L (n - op.localCount) ops

theorem map_fst_committed (role : Role) (cipher : LocalAesCtr) (ctr : AesCtr) (L : Layout)
    (mem : Memory) (n : Nat) (ops : List DecryptOp) :
    (committed role cipher ctr L mem n ops).map Prod.fst = ops := by
  induction ops generalizing n with
  | nil => rfl
  | cons op ops ih => simp only [committed, List.map_cons, ih]

/-- The records are decrypted one after the other. -/
theorem decryptLocal_ok {role : Role} {cipher : LocalAesCtr} {ctr : AesCtr} (ops : List DecryptOp)
    {stock : Stock} {s s' : Vm × MpcAesGcm} {outs : List DecryptOutput}
    (hstock : s.2.Stocked stock) (hlen : ∀ op ∈ ops, op.ciphertext.length < wordSize)
    (h : decryptLocal role cipher ctr ops s = .ok outs s') :
    LocalFitFrom role cipher ctr stock.blocks ops ∧
      (∀ mem, List.Forall₂ (fun (x : DecryptOp × DecryptOutput) y => x.1 = y.1 ∧
        x.2.tryDecrypt mem = .ok y.2) (ops.zip outs)
          (committed role cipher ctr stock.layout mem stock.blocks ops)) ∧
      s' = (s.1.push (localOpsFrom stock.layout stock.blocks ops),
        s.2.restock (stock.spent (localRemaining stock.blocks ops))) := by
  induction ops generalizing stock s outs with
  | nil =>
      cases h
      refine ⟨trivial, fun mem => List.Forall₂.nil, ?_⟩
      rw [localOpsFrom, Vm.push_nil, localRemaining, show stock.spent stock.blocks = stock from rfl,
        MpcAesGcm.restock, ← hstock.state]
  | cons op ops ih =>
      obtain ⟨out, s₁, hone, h⟩ := Fault.run_bind_ok_iff.mp h
      obtain ⟨rest, s₂, hrest, hret⟩ := Fault.run_bind_ok_iff.mp h
      cases hret
      obtain ⟨hfits, htext, rfl⟩ := decryptOneLocal_ok hstock (hlen op List.mem_cons_self) hone
      obtain ⟨hfits', htexts, hs'⟩ := ih
        (MpcAesGcm.Stocked.restock (hstock.sized.spent (Nat.sub_le stock.blocks op.localCount)))
        (fun o ho => hlen o (List.mem_cons_of_mem _ ho)) hrest
      refine ⟨⟨hfits, hfits'⟩, ?_, ?_⟩
      · intro mem
        exact List.Forall₂.cons ⟨rfl, htext mem⟩ (htexts mem)
      · rw [hs', Vm.push_push, MpcAesGcm.restock_restock]
        rfl

end DecryptOp

namespace RecordLayer

open DecryptOp

theorem finishCommit_eq {mem : Memory} {xs : List (DecryptOp × DecryptOutput)}
    {ys : List (DecryptOp × Option (List UInt8))} {recv : List Record} {layer : RecordLayer}
    (h : List.Forall₂ (fun x y => x.1 = y.1 ∧ x.2.tryDecrypt mem = .ok y.2) xs ys) :
    finishCommit mem xs recv layer = .ok (recv ++ ys.map fun r => r.1.recvRecord r.2)
      { layer with
        decryptedBuffer := layer.decryptedBuffer ++ ys.map fun r => r.1.plainRecord r.2 } := by
  induction h generalizing recv layer with
  | nil =>
      simp only [List.map_nil, List.append_nil]
      rfl
  | @cons x y xs ys hxy hrest ih =>
      obtain ⟨op, out⟩ := x
      obtain ⟨op', plaintext⟩ := y
      obtain ⟨rfl, htext⟩ := hxy
      rw [finishCommit, Fault.run_bind_of_ok (Fault.lift_of_ok htext layer)]
      refine Fault.run_bind_ok_iff.mpr ⟨_, _, rfl, ?_⟩
      rw [ih]
      simp only [List.map_cons, List.append_assoc, List.cons_append, List.nil_append]
      rfl

variable {C D : Type} {scheme : HashCommit C D} {cipher : LocalAesCtr} {mem : Memory}
  {peer : PeerShares C D} {d e : Stock} {ctr : AesCtr} {maskedKey maskedIv : Slice}

/-- What a commit needs, and the cipher with the key that is revealed. -/
structure Commits (scheme : HashCommit C D) (cipher : LocalAesCtr) (mem : Memory)
    (peer : PeerShares C D) (d : Stock) (ctr : AesCtr) (maskedKey maskedIv : Slice)
    (layer : RecordLayer) : Prop where
  encrypted : layer.encryptBuffer = []
  fits : d.FitsVerify layer.decryptBuffer
  verify : (d.verifyTask layer.role layer.decryptBuffer).run scheme mem peer = .ok ()
  key : ∃ keyOtp ivOtp, layer.aesCtr.state = .alloc maskedKey maskedIv keyOtp ivOtp ∧
    AesCtr.finishDecode mem { layer.aesCtr with state := .decode maskedKey maskedIv keyOtp ivOtp } =
      .ok () ctr
  fitsLocal : LocalFitFrom layer.role cipher ctr d.blocks layer.decryptBuffer

/-- The records decrypted at last. -/
def committedRecords (cipher : LocalAesCtr) (mem : Memory) (d : Stock) (ctr : AesCtr)
    (layer : RecordLayer) : List (DecryptOp × Option (List UInt8)) :=
  committed layer.role cipher ctr d.layout mem d.blocks layer.decryptBuffer

theorem map_fst_committedRecords (layer : RecordLayer) :
    (layer.committedRecords cipher mem d ctr).map Prod.fst = layer.decryptBuffer :=
  map_fst_committed ..

def commitVmOps (d : Stock) (maskedKey maskedIv : Slice) (ops : List DecryptOp) : List VmOp :=
  d.verifyVmOps ops ++ [.decode maskedKey, .decode maskedIv] ++ localOpsFrom d.layout d.blocks ops

/-- The layer after a commit. -/
def completed (cipher : LocalAesCtr) (mem : Memory) (d : Stock) (ctr : AesCtr)
    (layer : RecordLayer) : RecordLayer :=
  { layer with
    decryptBuffer := []
    decrypter := layer.decrypter.restock ((d.tagged layer.decryptBuffer.length).spent
      (localRemaining d.blocks layer.decryptBuffer))
    aesCtr := ctr
    decryptedBuffer := layer.decryptedBuffer ++
      (layer.committedRecords cipher mem d ctr).map fun r => r.1.plainRecord r.2
    state := .complete }

theorem onAesCtr_ok_iff {α : Type} {s s' : Vm × RecordLayer} {a : α}
    {x : EStateM (Fault MpcTlsError) (Vm × AesCtr) α} :
    onAesCtr x s = .ok a s' ↔ ∃ t, x (s.1, s.2.aesCtr) = .ok a t ∧
      s' = (t.1, { s.2 with aesCtr := t.2 }) :=
  Fault.zoom_ok_iff

theorem decodeKey_ok {s s' : Vm × AesCtr} (h : AesCtr.decodeKey s = .ok () s') :
    ∃ maskedKey maskedIv keyOtp ivOtp, s.2.state = .alloc maskedKey maskedIv keyOtp ivOtp ∧
      s' = (s.1.push [.decode maskedKey, .decode maskedIv],
        { s.2 with state := .decode maskedKey maskedIv keyOtp ivOtp }) := by
  obtain ⟨vm, ctr⟩ := s
  obtain ⟨role, key, iv, state⟩ := ctr
  cases state with
  | alloc maskedKey maskedIv keyOtp ivOtp =>
      cases h
      exact ⟨_, _, _, _, rfl, rfl⟩
  | init => cases h
  | decode _ _ _ _ => cases h
  | ready _ _ => cases h
  | error => cases h

theorem commit_ok {otp : Option (List UInt8)} {sent recv : List Record} {s s' : Vm × RecordLayer}
    {t : TlsTranscript} (hstock : s.2.Stocked e d) (hbuffered : s.2.Buffered)
    (hstate : s.2.state = .online otp sent recv)
    (h : commit scheme cipher mem peer s = .ok t s') :
    ∃ ctr maskedKey maskedIv, s.2.Commits scheme cipher mem peer d ctr maskedKey maskedIv ∧
      t = ⟨sent, recv ++ (s.2.committedRecords cipher mem d ctr).map fun r => r.1.recvRecord r.2⟩ ∧
      s' = (s.1.push (commitVmOps d maskedKey maskedIv s.2.decryptBuffer),
        s.2.completed cipher mem d ctr) := by
  obtain ⟨vm, layer⟩ := s
  obtain ⟨records, s₁, htake, h₁⟩ := Fault.run_bind_ok_iff.mp h
  have honline : takeOnline (vm, layer) =
      .ok (sent, recv) (vm, { layer with state := .error }) := by
    rw [takeOnline, hstate]
  rw [honline] at htake
  cases htake
  obtain ⟨ops, s₂, htake, h₂⟩ := Fault.run_bind_ok_iff.mp h₁
  have hempty : layer.encryptBuffer.isEmpty = true := by
    by_contra hne
    rw [takeBuffered, if_neg hne] at htake
    cases htake
  rw [takeBuffered, if_pos hempty] at htake
  cases htake
  obtain ⟨task, s₃, hverify, h₃⟩ := Fault.run_bind_ok_iff.mp h₂
  obtain ⟨u, htask, hs₃⟩ := onDecrypter_ok_iff.mp hverify
  have hfits := verifyTags_fit hstock.decrypter htask
  cases (verifyTags_eq (s := (vm, layer.decrypter)) hstock.decrypter hfits).symm.trans htask
  subst hs₃
  obtain ⟨⟨⟩, s₄, hrun, h₄⟩ := Fault.run_bind_ok_iff.mp h₃
  obtain ⟨hconvert, hs₄⟩ := Fault.lift_ok_iff.mp hrun
  subst hs₄
  obtain ⟨⟨⟩, s₅, hdecode, h₅⟩ := Fault.run_bind_ok_iff.mp h₄
  obtain ⟨v, hdecode, hs₅⟩ := onAesCtr_ok_iff.mp hdecode
  obtain ⟨maskedKey, maskedIv, keyOtp, ivOtp, halloc, rfl⟩ := decodeKey_ok hdecode
  subst hs₅
  obtain ⟨⟨⟩, s₆, hfinish, h₆⟩ := Fault.run_bind_ok_iff.mp h₅
  obtain ⟨⟨vm', ctr⟩, hsnd, hs₆⟩ := onAesCtr_ok_iff.mp hfinish
  obtain ⟨hctr, hvm⟩ := Fault.onSnd_ok_iff.mp hsnd
  subst hs₆
  rw [Fault.get_bind, Fault.get_bind] at h₆
  obtain ⟨pending, s₇, hlocal, h₇⟩ := Fault.run_bind_ok_iff.mp h₆
  obtain ⟨x, hdecrypt, hs₇⟩ := onDecrypter_ok_iff.mp hlocal
  obtain ⟨hlocalFits, htexts, rfl⟩ := decryptLocal_ok layer.decryptBuffer
    (MpcAesGcm.Stocked.restock (hstock.decrypter.sized.tagged _)) hbuffered.ciphertext hdecrypt
  subst hs₇
  obtain ⟨recv', ⟨vm'', layer'⟩, hrecv, h₈⟩ := Fault.run_bind_ok_iff.mp h₇
  obtain ⟨hfinal, hvm'⟩ := Fault.onSnd_ok_iff.mp hrecv
  rw [finishCommit_eq (htexts mem)] at hfinal
  cases hfinal
  cases h₈
  simp only at hvm hvm'
  refine ⟨ctr, maskedKey, maskedIv, ⟨List.isEmpty_iff.mp hempty, hfits, ?_, ?_, hlocalFits⟩,
    rfl, ?_⟩
  · have hrole : layer.decrypter.role = layer.role := hstock.decrypter_role
    rw [← hrole]
    exact Fault.convert_ok_iff.mp hconvert
  · exact ⟨keyOtp, ivOtp, halloc, hctr⟩
  · rw [hvm', hvm, commitVmOps]
    simp only [Vm.push_push, List.append_assoc]
    rfl

end RecordLayer

end Tlsn.MpcTls

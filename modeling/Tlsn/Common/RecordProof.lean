import Tlsn.Common.Transcript
import Tlsn.Common.ZkAes

/-!
Commitment to the plaintext of records, and the proof that it encrypts to the
ciphertext. The proof is checked once the machine has run.
-/

namespace Tlsn.Common

open Tlsn.Cipher
open Tlsn.MpcTls (Layout)

inductive RecordProofError where
  | vm (e : VmError)
  | aes (e : ZkAesCtrError)
  | missingPlaintext
  | plaintextRefAlreadySet
  | invalidCiphertext
deriving DecidableEq

/-- The ciphertexts that are decoded, and those that are expected. -/
structure RecordProof where
  ciphertexts : List (Slice × List UInt8)
deriving DecidableEq

def onZkVm {α : Type} (x : EStateM (Fault VmError) Vm α) :
    EStateM (Fault RecordProofError) (Vm × ZkAesCtr) α :=
  Fault.onFst (Fault.adapt .vm x)

/-- Only the prover assigns the plaintext. -/
def assignPlaintext (record : Record) (plaintextRef : Slice) :
    EStateM (Fault RecordProofError) (Vm × ZkAesCtr) Unit := do
  match (← get).2.role with
  | .prover =>
      match record.plaintext with
      | none => throw (.err .missingPlaintext)
      | some plaintext => onZkVm (Vm.assign plaintextRef plaintext)
  | .verifier => return ()

def commitRecord (record : Record) :
    EStateM (Fault RecordProofError) (Vm × ZkAesCtr) (Record × (Slice × List UInt8)) := do
  if record.plaintextRef.isSome then
    throw (.err .plaintextRefAlreadySet)
  else
    let (plaintextRef, ciphertextRef) ← Fault.adapt .aes
      (ZkAesCtr.encrypt record.explicitNonce record.ciphertext.length)
    assignPlaintext record plaintextRef
    onZkVm (Vm.commit plaintextRef)
    let ciphertext ← onZkVm (Vm.decode ciphertextRef)
    return ({ record with plaintextRef := some plaintextRef }, (ciphertext, record.ciphertext))

def commitEach : List Record →
    EStateM (Fault RecordProofError) (Vm × ZkAesCtr) (List (Record × (Slice × List UInt8)))
  | [] => return []
  | record :: records => do
      let entry ← commitRecord record
      let entries ← commitEach records
      return entry :: entries

/-- Commits the plaintext of the records, and writes the references to it. -/
def commitRecords (records : List Record) :
    EStateM (Fault RecordProofError) (Vm × ZkAesCtr) (List Record × RecordProof) := do
  let entries ← commitEach records
  return (entries.map Prod.fst, ⟨entries.map Prod.snd⟩)

def verifyCiphertexts (mem : Memory) :
    List (Slice × List UInt8) → Except (Fault RecordProofError) Unit
  | [] => return ()
  | (ciphertext, expected) :: rest =>
      if mem.read ciphertext ≠ expected then throw (.err .invalidCiphertext)
      else verifyCiphertexts mem rest

def RecordProof.verify (mem : Memory) (proof : RecordProof) :
    Except (Fault RecordProofError) Unit :=
  verifyCiphertexts mem proof.ciphertexts

theorem verifyCiphertexts_ok_iff {mem : Memory} {ciphertexts : List (Slice × List UInt8)} :
    verifyCiphertexts mem ciphertexts = .ok () ↔ ∀ c ∈ ciphertexts, mem.read c.1 = c.2 := by
  induction ciphertexts with
  | nil =>
      constructor
      · intro _ c hc
        cases hc
      · intro _
        rfl
  | cons c rest ih =>
      rw [List.forall_mem_cons, ← ih, verifyCiphertexts]
      by_cases hc : mem.read c.1 = c.2
      · rw [if_neg (not_not_intro hc)]
        simp only [hc, true_and]
      · rw [if_pos hc]
        simp only [hc, false_and, iff_false]
        intro h
        cases h

/-! ## One record -/

/-- The blocks which the record takes. -/
def Record.blockCount (record : Record) : Nat := divCeil record.ciphertext.length 16

/-- What committing the record needs of it. -/
structure Record.Committable (role : Role) (record : Record) : Prop where
  plaintextRef : record.plaintextRef = none
  explicitNonce : record.explicitNonce.length = 8
  plaintext : role = .prover →
    ∃ plaintext, record.plaintext = some plaintext ∧ plaintext.length = record.ciphertext.length

namespace Record

/-- Where the plaintext is when the record takes the last of `n` blocks. -/
def inputAt (L : Layout) (n : Nat) (record : Record) : Slice :=
  ⟨L.input + 16 * (n - record.blockCount), record.ciphertext.length⟩

def outputAt (L : Layout) (n : Nat) (record : Record) : Slice :=
  ⟨L.output + 16 * (n - record.blockCount), record.ciphertext.length⟩

def commitAt (L : Layout) (n : Nat) (record : Record) : Record × (Slice × List UInt8) :=
  ({ record with plaintextRef := some (record.inputAt L n) },
    (record.outputAt L n, record.ciphertext))

def assignOps (role : Role) (L : Layout) (n : Nat) (record : Record) : List VmOp :=
  match role with
  | .prover => [.assign (record.inputAt L n) (record.plaintext.getD [])]
  | .verifier => []

def commitOps (role : Role) (L : Layout) (n : Nat) (record : Record) : List VmOp :=
  ZkTexts.encryptOps role L n record.explicitNonce record.ciphertext.length ++
    record.assignOps role L n ++ [.commit (record.inputAt L n), .decode (record.outputAt L n)]

end Record

section

variable {L : Layout} {n : Nat} {s s' : Vm × ZkAesCtr} {record : Record}

theorem onZkVm_commit (r : Slice) :
    onZkVm (Vm.commit r) s = .ok () (s.1.push [.commit r], s.2) := rfl

theorem onZkVm_decode (r : Slice) :
    onZkVm (Vm.decode r) s = .ok r (s.1.push [.decode r], s.2) := rfl

theorem assignPlaintext_eq {plaintextRef : Slice}
    (h : s.2.role = .prover → ∃ plaintext, record.plaintext = some plaintext ∧
      plaintext.length = plaintextRef.len) :
    assignPlaintext record plaintextRef s = .ok ()
      (s.1.push (match s.2.role with
        | .prover => [.assign plaintextRef (record.plaintext.getD [])]
        | .verifier => []), s.2) := by
  rw [assignPlaintext, Fault.get_bind]
  cases hrole : s.2.role with
  | verifier =>
      simp only [Vm.push_nil]
      rfl
  | prover =>
      obtain ⟨plaintext, hplaintext, hlen⟩ := h hrole
      simp only [hplaintext, Option.getD_some, onZkVm, Fault.onFst, Fault.adapt, Vm.assign, hlen,
        if_true]

theorem assignPlaintext_ok {plaintextRef : Slice}
    (h : assignPlaintext record plaintextRef s = .ok () s') :
    s.2.role = .prover → ∃ plaintext, record.plaintext = some plaintext ∧
      plaintext.length = plaintextRef.len := by
  intro hrole
  rw [assignPlaintext, Fault.get_bind, hrole] at h
  cases hplaintext : record.plaintext with
  | none =>
      rw [hplaintext] at h
      cases h
  | some plaintext =>
      refine ⟨plaintext, rfl, ?_⟩
      by_contra hlen
      simp only [hplaintext, onZkVm, Fault.onFst, Fault.adapt, Vm.assign, hlen, if_false] at h
      cases h

theorem commitRecord_eq (h : s.2.Laid L n) (hrecord : record.Committable s.2.role)
    (hle : record.blockCount ≤ n) :
    commitRecord record s = .ok (record.commitAt L n)
      (s.1.push (record.commitOps s.2.role L n), s.2.rest L (n - record.blockCount)) := by
  have hencrypt := ZkAesCtr.encrypt_laid h hrecord.explicitNonce hle
  have hnone : ¬ record.plaintextRef.isSome = true := by
    rw [hrecord.plaintextRef]
    exact Bool.false_ne_true
  rw [commitRecord, if_neg hnone, Fault.run_bind_of_ok (Fault.adapt_ok_iff.mpr hencrypt)]
  simp only
  rw [Fault.run_bind_of_ok (assignPlaintext_eq hrecord.plaintext),
    Fault.run_bind_of_ok (onZkVm_commit _), Fault.run_bind_of_ok (onZkVm_decode _)]
  simp only [Vm.push_push, List.append_assoc, List.cons_append, List.nil_append, Record.commitOps,
    Record.assignOps]
  rfl

theorem commitRecord_fits {r : Record × (Slice × List UInt8)} (h : s.2.Laid L n)
    (hlen : record.ciphertext.length < wordSize) (hok : commitRecord record s = .ok r s') :
    record.Committable s.2.role ∧ record.blockCount ≤ n := by
  unfold commitRecord at hok
  by_cases hsome : record.plaintextRef.isSome = true
  · rw [if_pos hsome] at hok
    cases hok
  · rw [if_neg hsome] at hok
    obtain ⟨refs, s₁, hencrypt, hok⟩ := Fault.run_bind_ok_iff.mp hok
    have hencrypt' := Fault.adapt_ok_iff.mp hencrypt
    obtain ⟨hnonce, hle⟩ := ZkAesCtr.encrypt_fits h hlen hencrypt'
    rw [ZkAesCtr.encrypt_laid h hnonce hle] at hencrypt'
    cases hencrypt'
    obtain ⟨⟨⟩, s₂, hassign, -⟩ := Fault.run_bind_ok_iff.mp hok
    exact ⟨⟨Option.not_isSome_iff_eq_none.mp hsome, hnonce, assignPlaintext_ok hassign⟩, hle⟩

/-- A record for which too few blocks remain. -/
theorem commitRecord_refused (h : s.2.Laid L n) (hrecord : record.Committable s.2.role)
    (hlen : record.ciphertext.length < wordSize) (hexceeds : n < record.blockCount) :
    ∃ e t, commitRecord record s = .error e t ∧ (16 * record.blockCount < wordSize →
      e = .err (.aes (.insufficientPreprocessing (16 * record.blockCount) (16 * n)))) := by
  obtain ⟨e, t, he, herr⟩ := ZkAesCtr.encrypt_refused h hrecord.explicitNonce hlen hexceeds
  have hnone : ¬ record.plaintextRef.isSome = true := by
    rw [hrecord.plaintextRef]
    exact Bool.false_ne_true
  refine ⟨e.map .aes, t, ?_, ?_⟩
  · rw [commitRecord, if_neg hnone]
    refine Fault.run_bind_of_error ?_
    simp only [Fault.adapt, he]
  · intro hlt
    rw [herr hlt]
    rfl

end

/-! ## Batches of records -/

namespace Record

def blockTotal (records : List Record) : Nat := (records.map blockCount).sum

/-- The records take the last of `n` blocks, one after the other. -/
def commitFrom (L : Layout) : Nat → List Record → List (Record × (Slice × List UInt8))
  | _, [] => []
  | n, record :: records => record.commitAt L n :: commitFrom L (n - record.blockCount) records

def commitOpsFrom (role : Role) (L : Layout) : Nat → List Record → List VmOp
  | _, [] => []
  | n, record :: records =>
      record.commitOps role L n ++ commitOpsFrom role L (n - record.blockCount) records

theorem blockTotal_cons (record : Record) (records : List Record) :
    blockTotal (record :: records) = record.blockCount + blockTotal records := by
  rw [blockTotal, blockTotal, List.map_cons, List.sum_cons]

end Record

section

variable {L : Layout}

theorem commitEach_eq (records : List Record) {n : Nat} {s : Vm × ZkAesCtr} (h : s.2.Laid L n)
    (hrecords : ∀ record ∈ records, record.Committable s.2.role)
    (hle : Record.blockTotal records ≤ n) :
    commitEach records s = .ok (Record.commitFrom L n records)
      (s.1.push (Record.commitOpsFrom s.2.role L n records),
        s.2.rest L (n - Record.blockTotal records)) := by
  induction records generalizing n s with
  | nil =>
      have hrest : s.2.rest L n = s.2 := by rw [ZkAesCtr.rest, ← h.state]
      rw [Record.commitOpsFrom, Vm.push_nil, show n - Record.blockTotal [] = n from rfl, hrest]
      rfl
  | cons record records ih =>
      rw [Record.blockTotal_cons] at hle ⊢
      have hone := commitRecord_eq h (hrecords record List.mem_cons_self) (by omega)
      have hrest := @ih (n - record.blockCount)
        (s.1.push (record.commitOps s.2.role L n), s.2.rest L (n - record.blockCount))
        (ZkAesCtr.laid_rest h (Nat.sub_le ..))
        (fun r hr => hrecords r (List.mem_cons_of_mem _ hr)) (by omega)
      rw [commitEach, Fault.run_bind_of_ok hone, Fault.run_bind_of_ok hrest]
      simp only [Vm.push_push, Record.commitOpsFrom, Record.commitFrom, Nat.sub_sub]
      rfl

theorem commitEach_fits (records : List Record) {n : Nat} {s s' : Vm × ZkAesCtr}
    {r : List (Record × (Slice × List UInt8))} (h : s.2.Laid L n)
    (hlen : ∀ record ∈ records, record.ciphertext.length < wordSize)
    (hok : commitEach records s = .ok r s') :
    (∀ record ∈ records, record.Committable s.2.role) ∧ Record.blockTotal records ≤ n := by
  induction records generalizing n s s' r with
  | nil => exact ⟨fun record hrecord => (nomatch hrecord), Nat.zero_le n⟩
  | cons record records ih =>
      obtain ⟨entry, s₁, hone, hok⟩ := Fault.run_bind_ok_iff.mp hok
      obtain ⟨entries, s₂, hrest, -⟩ := Fault.run_bind_ok_iff.mp hok
      obtain ⟨hrecord, hle⟩ := commitRecord_fits h (hlen record List.mem_cons_self) hone
      rw [commitRecord_eq h hrecord hle] at hone
      cases hone
      obtain ⟨hrecords, htotal⟩ := ih (ZkAesCtr.laid_rest h (Nat.sub_le ..))
        (fun r hr => hlen r (List.mem_cons_of_mem _ hr)) hrest
      refine ⟨List.forall_mem_cons.mpr ⟨hrecord, hrecords⟩, ?_⟩
      rw [Record.blockTotal_cons]
      omega

theorem commitEach_refused (records : List Record) {n : Nat} {s : Vm × ZkAesCtr}
    (h : s.2.Laid L n) (hrecords : ∀ record ∈ records, record.Committable s.2.role)
    (hlen : ∀ record ∈ records, record.ciphertext.length < wordSize)
    (hexceeds : n < Record.blockTotal records) :
    ∃ e t, commitEach records s = .error e t ∧
      ((∀ record ∈ records, 16 * record.blockCount < wordSize) →
        ∃ expected actual, e = .err (.aes (.insufficientPreprocessing expected actual))) := by
  induction records generalizing n s with
  | nil => exact absurd hexceeds (Nat.not_lt_zero n)
  | cons record records ih =>
      rw [Record.blockTotal_cons] at hexceeds
      by_cases hle : record.blockCount ≤ n
      · have hone := commitRecord_eq h (hrecords record List.mem_cons_self) hle
        obtain ⟨e, t, he, herr⟩ := @ih (n - record.blockCount)
          (s.1.push (record.commitOps s.2.role L n), s.2.rest L (n - record.blockCount))
          (ZkAesCtr.laid_rest h (Nat.sub_le ..))
          (fun r hr => hrecords r (List.mem_cons_of_mem _ hr))
          (fun r hr => hlen r (List.mem_cons_of_mem _ hr)) (by omega)
        refine ⟨e, t, ?_, fun hlt => herr fun r hr => hlt r (List.mem_cons_of_mem _ hr)⟩
        rw [commitEach, Fault.run_bind_of_ok hone]
        exact Fault.run_bind_of_error he
      · obtain ⟨e, t, he, herr⟩ := commitRecord_refused h (hrecords record List.mem_cons_self)
          (hlen record List.mem_cons_self) (Nat.lt_of_not_le hle)
        refine ⟨e, t, ?_, fun hlt => ⟨_, _, herr (hlt record List.mem_cons_self)⟩⟩
        rw [commitEach]
        exact Fault.run_bind_of_error he

end

end Tlsn.Common

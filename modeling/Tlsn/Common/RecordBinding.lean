import Tlsn.Common.RecordProof

/-!
What the proof of encryption binds. Each record takes blocks of keystream of its own,
and the proof verifies exactly when every record's plaintext, in the memory of the
machine, enciphers to its ciphertext. What the prover puts into the padding does not
matter.
-/

namespace Tlsn.Common

open Tlsn.Cipher
open Tlsn.MpcTls (Layout)

namespace Record

/-- The record once it is committed: its plaintext has the length of the ciphertext, and
is enciphered with these blocks, which are assigned its nonce. -/
structure CommittedWith (key iv : Slice) (role : Role) (log : List VmOp) (record record' : Record)
    (blocks : List CtrBlock) : Prop where
  committed : ∃ ref : Slice, record' = { record with plaintextRef := some ref } ∧
    ref.len = record.ciphertext.length ∧
    (role = .prover → ∃ plaintext, record.plaintext = some plaintext ∧
      .assign ref plaintext ∈ log) ∧
    ∀ (i : Nat) (block : CtrBlock), blocks[i]? = some block →
      .call .aes128Ctr [key, iv, block.explicitNonce, block.counter] block.output ∈ log ∧
        ∃ output, .call .xor [block.output, ⟨ref.ptr + 16 * i, 16⟩] output ∈ log
  count : blocks.length = record.blockCount
  assigned : ∀ op ∈ Keystream.assignOps record.explicitNonce counterBytes blocks 0, op ∈ log

/-- The plaintext in memory enciphers to the ciphertext. -/
def ProvenIn (aes : Aes) (mem : Memory) (key iv : Slice) (record : Record) : Prop :=
  ∃ ref, record.plaintextRef = some ref ∧ (mem.read ref).length = record.ciphertext.length ∧
    mem.read ref = xorBytes record.ciphertext
      (ctrKeystream aes (mem.read key) (mem.read iv) record.explicitNonce startCtr
        record.blockCount)

/-- The blocks which the records take. -/
def blocksFrom (L : Layout) : Nat → List Record → List (List CtrBlock)
  | _, [] => []
  | n, record :: records =>
      L.blocks (n - record.blockCount) record.blockCount ::
        blocksFrom L (n - record.blockCount) records

variable {L : Layout} {key iv : Slice} {N n : Nat} {vm : Vm} {aes : Aes} {mem : Memory}
  {role : Role} {record : Record} {records : List Record}

theorem le_blocks (record : Record) : record.ciphertext.length ≤ 16 * record.blockCount := by
  rw [Nat.mul_comm]
  exact (divCeil_mul record.ciphertext.length 16 (by decide)).1

theorem mem_commitOps_of_assign {o : VmOp} (ho : o ∈ Keystream.assignOps record.explicitNonce
    counterBytes (L.blocks (n - record.blockCount) record.blockCount) 0) :
    o ∈ record.commitOps role L n := by
  simp only [commitOps, ZkTexts.encryptOps, List.append_assoc]
  exact List.mem_append_left _ ho

theorem keystream_eq (hcalled : L.Called key iv N vm) (hmem : vm.Holds aes mem) (hn : n ≤ N)
    (hle : record.blockCount ≤ n) (hops : ∀ o ∈ record.commitOps role L n, o ∈ vm.log) :
    keystreamBytes mem (L.blocks (n - record.blockCount) record.blockCount) =
      ctrKeystream aes (mem.read key) (mem.read iv) record.explicitNonce startCtr
        record.blockCount := by
  apply keystreamBytes_assigned (n - record.blockCount) record.blockCount startCtr 0
  · intro j _ hlt
    exact hmem _ (hcalled.ctr j (by omega))
  · intro o ho
    exact hmem o (hops o (mem_commitOps_of_assign ho))

/-- The ciphertext that is decoded is the expected one exactly when the plaintext is the
expected one: the two differ by the keystream. -/
theorem read_output_iff (hcalled : L.Called key iv N vm) (hmem : vm.Holds aes mem) (hn : n ≤ N)
    (hle : record.blockCount ≤ n) (hops : ∀ o ∈ record.commitOps role L n, o ∈ vm.log) :
    mem.read (record.outputAt L n) = record.ciphertext ↔
      mem.read (record.inputAt L n) = xorBytes record.ciphertext
        (ctrKeystream aes (mem.read key) (mem.read iv) record.explicitNonce startCtr
          record.blockCount) := by
  have hread := ((hcalled.enciphers hmem).mono hn).read (m := n - record.blockCount)
    (k := record.blockCount) (by omega) record.le_blocks
  rw [keystream_eq hcalled hmem hn hle hops] at hread
  have hlen : (mem.read (record.inputAt L n)).length ≤
      (ctrKeystream aes (mem.read key) (mem.read iv) record.explicitNonce startCtr
        record.blockCount).length := by
    rw [Memory.length_read, length_ctrKeystream]
    exact record.le_blocks
  have hlen' : record.ciphertext.length ≤
      (ctrKeystream aes (mem.read key) (mem.read iv) record.explicitNonce startCtr
        record.blockCount).length := by
    rw [length_ctrKeystream]
    exact record.le_blocks
  rw [show mem.read (record.outputAt L n) = _ from hread]
  constructor
  · intro h
    rw [← h]
    exact (xorBytes_cancel _ _ hlen).symm
  · intro h
    rw [show mem.read ⟨L.input + 16 * (n - record.blockCount), record.ciphertext.length⟩ = _ from h]
    exact xorBytes_cancel _ _ hlen'

theorem committedWith (hcalled : L.Called key iv N vm) (hn : n ≤ N) (hle : record.blockCount ≤ n)
    (hrecord : record.Committable role) (hops : ∀ o ∈ record.commitOps role L n, o ∈ vm.log) :
    record.CommittedWith key iv role vm.log (record.commitAt L n).1
      (L.blocks (n - record.blockCount) record.blockCount) := by
  constructor
  · refine ⟨record.inputAt L n, rfl, rfl, ?_, ?_⟩
    · intro hrole
      obtain ⟨plaintext, hplaintext, -⟩ := hrecord.plaintext hrole
      refine ⟨plaintext, hplaintext, hops _ ?_⟩
      simp only [commitOps, assignOps, hrole, hplaintext, Option.getD_some]
      exact List.mem_append_left _ (List.mem_append_right _ List.mem_cons_self)
    · intro i block hblock
      have hlt : i < record.blockCount := by
        have h := (List.getElem?_eq_some_iff.mp hblock).1
        rwa [Layout.blocks, length_ctrBlocks] at h
      rw [Layout.blocks, getElem?_ctrBlocks hlt] at hblock
      cases hblock
      refine ⟨hcalled.ctr _ (by omega), ⟨L.output + 16 * (n - record.blockCount + i), 16⟩, ?_⟩
      have hxor := hcalled.xor (n - record.blockCount + i) (by omega)
      rw [Keystream.xorOp] at hxor
      rw [inputAt, Nat.add_assoc, ← Nat.mul_add]
      exact hxor
  · rw [Layout.blocks, length_ctrBlocks]
  · intro o ho
    exact hops o (mem_commitOps_of_assign ho)

/-! Batches of records. -/

theorem committedWith_all (records : List Record) {n : Nat} (hcalled : L.Called key iv N vm)
    (hn : n ≤ N) (hle : blockTotal records ≤ n)
    (hrecords : ∀ record ∈ records, record.Committable role)
    (hops : ∀ o ∈ commitOpsFrom role L n records, o ∈ vm.log) :
    List.Forall₂ (fun record x => record.CommittedWith key iv role vm.log x.1 x.2) records
      (((commitFrom L n records).map Prod.fst).zip (blocksFrom L n records)) := by
  induction records generalizing n with
  | nil => exact List.Forall₂.nil
  | cons record records ih =>
      rw [blockTotal_cons] at hle
      refine List.Forall₂.cons ?_ ?_
      · exact committedWith hcalled hn (by omega) (hrecords record List.mem_cons_self)
          (fun o ho => hops o (List.mem_append_left _ ho))
      · exact ih (by omega) (by omega) (fun r hr => hrecords r (List.mem_cons_of_mem _ hr))
          (fun o ho => hops o (List.mem_append_right _ ho))

theorem verify_iff (records : List Record) {n : Nat} (hcalled : L.Called key iv N vm)
    (hmem : vm.Holds aes mem) (hn : n ≤ N) (hle : blockTotal records ≤ n)
    (hops : ∀ o ∈ commitOpsFrom role L n records, o ∈ vm.log) :
    (∀ c ∈ (commitFrom L n records).map Prod.snd, mem.read c.1 = c.2) ↔
      ∀ record ∈ (commitFrom L n records).map Prod.fst, record.ProvenIn aes mem key iv := by
  induction records generalizing n with
  | nil => exact ⟨fun _ r hr => (nomatch hr), fun _ c hc => (nomatch hc)⟩
  | cons record records ih =>
      rw [blockTotal_cons] at hle
      rw [commitFrom, List.map_cons, List.map_cons, List.forall_mem_cons, List.forall_mem_cons,
        ih (by omega) (by omega) (fun o ho => hops o (List.mem_append_right _ ho))]
      have hone := read_output_iff hcalled hmem hn (by omega : record.blockCount ≤ n)
        (fun o ho => hops o (List.mem_append_left _ ho))
      refine and_congr_left fun _ => Iff.trans hone ?_
      constructor
      · intro h
        exact ⟨_, rfl, Memory.length_read .., h⟩
      · rintro ⟨ref, href, -, h⟩
        cases href
        exact h

/-- The references of later records are below. -/
theorem stop_le (records : List Record) {n : Nat} (hle : blockTotal records ≤ n) :
    ∀ record ∈ (commitFrom L n records).map Prod.fst, ∀ ref, record.plaintextRef = some ref →
      ref.stop ≤ L.input + 16 * n := by
  induction records generalizing n with
  | nil => exact fun record hrecord => (nomatch hrecord)
  | cons record records ih =>
      rw [blockTotal_cons] at hle
      rw [commitFrom, List.map_cons]
      refine List.forall_mem_cons.mpr ⟨?_, ?_⟩
      · intro ref href
        cases href
        have hlen := record.le_blocks
        simp only [inputAt, Slice.stop]
        omega
      · intro r hr ref href
        have hstop := ih (n := n - record.blockCount) (by omega) r hr ref href
        omega

/-- No two records share plaintext memory. -/
theorem refs_disjoint (records : List Record) {n : Nat} (hle : blockTotal records ≤ n) :
    ((commitFrom L n records).map Prod.fst).Pairwise fun r r' => ∀ ref ref',
      r.plaintextRef = some ref → r'.plaintextRef = some ref' → ref.Disjoint ref' := by
  induction records generalizing n with
  | nil => exact List.Pairwise.nil
  | cons record records ih =>
      rw [blockTotal_cons] at hle
      rw [commitFrom, List.map_cons]
      refine List.Pairwise.cons ?_ (ih (by omega))
      intro r hr ref ref' href href'
      cases href
      exact .inr (stop_le records (by omega) r hr ref' href')

theorem mem_blocksFrom (records : List Record) {n : Nat} (hle : blockTotal records ≤ n) :
    ∀ b ∈ (blocksFrom L n records).flatten, b ∈ L.blocks 0 n := by
  induction records generalizing n with
  | nil => exact fun b hb => (nomatch hb)
  | cons record records ih =>
      rw [blockTotal_cons] at hle
      have hsplit : L.blocks 0 n = L.blocks 0 (n - record.blockCount) ++
          L.blocks (n - record.blockCount) record.blockCount := by
        rw [Layout.blocks, Layout.blocks, Layout.blocks]
        have happend := ctrBlocks_append L.nonces L.keystream 0 (n - record.blockCount)
          record.blockCount
        rwa [Nat.sub_add_cancel (by omega), Nat.zero_add] at happend
      intro b hb
      rw [blocksFrom, List.flatten_cons] at hb
      rw [hsplit]
      cases List.mem_append.mp hb with
      | inl hb => exact List.mem_append_right _ hb
      | inr hb => exact List.mem_append_left _ (ih (by omega) b hb)

/-- No two records share a block. -/
theorem blocks_disjoint (records : List Record) {n : Nat} (hle : blockTotal records ≤ n) :
    (blocksFrom L n records).flatten.Pairwise CtrBlock.Disjoint := by
  induction records generalizing n with
  | nil => exact List.Pairwise.nil
  | cons record records ih =>
      rw [blockTotal_cons] at hle
      rw [blocksFrom, List.flatten_cons, List.pairwise_append]
      refine ⟨MpcTls.Served.blocks_pairwise _ _ _, ih (by omega), ?_⟩
      intro b hb c hc
      exact MpcTls.Served.blocks_disjoint hb (mem_blocksFrom records (by omega) c hc) (by omega)

end Record

theorem verifyCiphertexts_error {mem : Memory} {ciphertexts : List (Slice × List UInt8)}
    {e : Fault RecordProofError} (h : verifyCiphertexts mem ciphertexts = .error e) :
    e = .err .invalidCiphertext := by
  induction ciphertexts with
  | nil => cases h
  | cons c rest ih =>
      rw [verifyCiphertexts] at h
      split at h
      · cases h
        rfl
      · exact ih h

/-- A proof verifies or not, according to this condition. -/
theorem RecordProof.verify_congr {mem mem' : Memory} {proof : RecordProof}
    (h : proof.verify mem = .ok () ↔ proof.verify mem' = .ok ()) :
    proof.verify mem = proof.verify mem' := by
  cases hmem : proof.verify mem with
  | ok u => exact (h.mp hmem).symm
  | error e =>
      cases hmem' : proof.verify mem' with
      | ok u =>
          rw [h.mpr hmem'] at hmem
          cases hmem
      | error e' => rw [verifyCiphertexts_error hmem, verifyCiphertexts_error hmem']

theorem commitRecords_ok {L : Layout} {n : Nat} {records records' : List Record}
    {proof : RecordProof} {s s' : Vm × ZkAesCtr} (h : s.2.Laid L n)
    (hlen : ∀ record ∈ records, record.ciphertext.length < wordSize)
    (hok : commitRecords records s = .ok (records', proof) s') :
    (∀ record ∈ records, record.Committable s.2.role) ∧ Record.blockTotal records ≤ n ∧
      records' = (Record.commitFrom L n records).map Prod.fst ∧
      proof = ⟨(Record.commitFrom L n records).map Prod.snd⟩ ∧
      s' = (s.1.push (Record.commitOpsFrom s.2.role L n records),
        s.2.rest L (n - Record.blockTotal records)) := by
  obtain ⟨entries, s₁, heach, hret⟩ := Fault.run_bind_ok_iff.mp hok
  obtain ⟨hrecords, hle⟩ := commitEach_fits records h hlen heach
  rw [commitEach_eq records h hrecords hle] at heach
  cases heach
  cases hret
  exact ⟨hrecords, hle, rfl, rfl, rfl⟩

/-- Whatever is in memory for the plaintexts and their padding: the proof verifies exactly
when every plaintext is the decryption of its record's ciphertext. The records share
neither plaintext memory nor keystream, and the padding does not matter. -/
theorem proof_of_encryption {len : Nat} {key iv : Slice} {records records' : List Record}
    {proof : RecordProof} {vm : Vm} {s s₁ s₂ : Vm × ZkAesCtr} (hlen : len < wordSize)
    (hkey : s.2.aes.key = some key) (hiv : s.2.aes.iv = some iv)
    (halloc : ZkAesCtr.alloc len s = .ok () s₁) (hvm : s₁.1.Extends vm)
    (hrecords : ∀ record ∈ records, record.ciphertext.length < wordSize)
    (hcommit : commitRecords records (vm, s₁.2) = .ok (records', proof) s₂) :
    (∃ blocks : List (List CtrBlock),
      List.Forall₂ (fun record (x : Record × List CtrBlock) =>
        record.CommittedWith key iv s.2.role s₂.1.log x.1 x.2) records (records'.zip blocks) ∧
      blocks.flatten.Pairwise CtrBlock.Disjoint) ∧
    records'.Pairwise (fun r r' => ∀ ref ref',
      r.plaintextRef = some ref → r'.plaintextRef = some ref' → ref.Disjoint ref') ∧
    (∀ (aes : Aes) (mem : Memory), s₂.1.Holds aes mem →
      (proof.verify mem = .ok () ↔ ∀ record ∈ records', record.ProvenIn aes mem key iv)) ∧
    ∀ (aes : Aes) (mem mem' : Memory), s₂.1.Holds aes mem → s₂.1.Holds aes mem' →
      mem.read key = mem'.read key → mem.read iv = mem'.read iv →
      (∀ record ∈ records', ∀ ref, record.plaintextRef = some ref → mem.read ref = mem'.read ref) →
      proof.verify mem = proof.verify mem' := by
  obtain ⟨L, key', iv', hkey', hiv', hlaid, hrole, hcalled⟩ := ZkAesCtr.alloc_layout hlen halloc
  rw [hkey] at hkey'
  rw [hiv] at hiv'
  cases hkey'
  cases hiv'
  obtain ⟨hcommittable, hle, rfl, rfl, rfl⟩ := commitRecords_ok (s := (vm, s₁.2)) hlaid hrecords
    hcommit
  obtain ⟨ops, hops⟩ := hvm
  have hcalled' := (hcalled.of_append hops).push
    (Record.commitOpsFrom s₁.2.role L (divCeil len 16) records)
  have hlog : ∀ o ∈ Record.commitOpsFrom s₁.2.role L (divCeil len 16) records,
      o ∈ (vm.push (Record.commitOpsFrom s₁.2.role L (divCeil len 16) records)).log :=
    fun o ho => List.mem_append_right _ ho
  have hverify : ∀ (aes : Aes) (mem : Memory),
      (vm.push (Record.commitOpsFrom s₁.2.role L (divCeil len 16) records)).Holds aes mem →
      (RecordProof.verify mem ⟨(Record.commitFrom L (divCeil len 16) records).map Prod.snd⟩ =
        .ok () ↔ ∀ record ∈ (Record.commitFrom L (divCeil len 16) records).map Prod.fst,
          record.ProvenIn aes mem key iv) := by
    intro aes mem hmem
    rw [RecordProof.verify, verifyCiphertexts_ok_iff]
    exact Record.verify_iff records hcalled' hmem (Nat.le_refl _) hle hlog
  refine ⟨⟨Record.blocksFrom L (divCeil len 16) records, ?_, Record.blocks_disjoint records hle⟩,
    Record.refs_disjoint records hle, hverify, ?_⟩
  · rw [← hrole]
    exact Record.committedWith_all records hcalled' (Nat.le_refl _) hle hcommittable hlog
  · intro aes mem mem' hmem hmem' hkeys hivs hrefs
    have hproven : ∀ record ∈ (Record.commitFrom L (divCeil len 16) records).map Prod.fst,
        (record.ProvenIn aes mem key iv ↔ record.ProvenIn aes mem' key iv) := by
      intro record hrecord
      unfold Record.ProvenIn
      rw [← hkeys, ← hivs]
      constructor
      · rintro ⟨ref, href, hproven⟩
        rw [hrefs record hrecord ref href] at hproven
        exact ⟨ref, href, hproven⟩
      · rintro ⟨ref, href, hproven⟩
        rw [← hrefs record hrecord ref href] at hproven
        exact ⟨ref, href, hproven⟩
    apply RecordProof.verify_congr
    rw [hverify aes mem hmem, hverify aes mem' hmem']
    exact forall₂_congr hproven

/-! An instance with room for one block. -/

def sampleZkAes : Vm × ZkAesCtr := (⟨20, []⟩, (ZkAesCtr.new .verifier).setKey ⟨0, 16⟩ ⟨16, 4⟩)

theorem sampleZkAlloc_ok : (Fault.result? (ZkAesCtr.alloc 16 sampleZkAes)).isSome = true := by
  decide +kernel

def sampleZkAllocated : Vm × ZkAesCtr := (Option.get _ sampleZkAlloc_ok).2

theorem sampleZkAlloc_eq : ZkAesCtr.alloc 16 sampleZkAes = .ok () sampleZkAllocated :=
  Fault.ok_get_state sampleZkAlloc_ok

/-! Two records, of one block and of two, and memories which differ in the padding. -/

def sampleReceived : List Record :=
  [⟨0, .applicationData, none, none, List.replicate 8 0, [1, 2, 3]⟩,
    ⟨1, .applicationData, none, none, List.replicate 7 0 ++ [1], List.replicate 17 9⟩]

/-- The block itself, so that no two blocks of keystream are the same. -/
def sampleAes : Aes := fun _ block => Vector.ofFn fun i => block.getD i 0

def samplePlaintext (record : Record) : List UInt8 :=
  xorBytes record.ciphertext
    (ctrKeystream sampleAes (List.replicate 16 0) (List.replicate 4 0) record.explicitNonce startCtr
      record.blockCount)

/-- The key and the iv, the plaintexts from the last record on, each with its padding, the
nonces and counters, the keystream, and the ciphertexts. -/
def sampleBytes (pad : UInt8) : List UInt8 :=
  let texts := sampleReceived.reverse.flatMap fun record =>
    samplePlaintext record ++
      List.replicate (16 * record.blockCount - record.ciphertext.length) pad
  let counters := sampleReceived.reverse.flatMap fun record =>
    (List.range record.blockCount).map fun i => record.explicitNonce ++ counterBytes i
  let keystream := counters.flatMap fun counter =>
    (sampleAes [] (List.replicate 4 0 ++ counter)).toList
  List.replicate 20 0 ++ texts ++ counters.flatten ++ keystream ++ xorBytes keystream texts

def sampleMemory (pad : UInt8) : Memory := fun a => (sampleBytes pad).getD a 0

/-- Room for three blocks, and the proof over the two records. -/
def sampleCommit : Option ((Vm × ZkAesCtr) × (List Record × RecordProof) × (Vm × ZkAesCtr)) :=
  (Fault.result? (ZkAesCtr.alloc 48 sampleZkAes)).bind fun allocated =>
    (Fault.result? (commitRecords sampleReceived (allocated.2.1, allocated.2.2))).map fun s₂ =>
      (allocated.2, s₂)

theorem sampleCommit_facts : sampleCommit.map (fun x =>
    (decide (x.2.2.1.Holds sampleAes (sampleMemory 1)),
      decide (x.2.2.1.Holds sampleAes (sampleMemory 2)),
      decide (x.2.1.2.verify (sampleMemory 1) = .ok ()),
      decide (∀ record ∈ x.2.1.1, record.plaintextRef.map (sampleMemory 1).read =
        record.plaintextRef.map (sampleMemory 2).read))) = some (true, true, true, true) := by
  decide +kernel

theorem proof_of_encryption_sample :
    ∃ (records' : List Record) (proof : RecordProof) (s₁ s₂ : Vm × ZkAesCtr),
      ZkAesCtr.alloc 48 sampleZkAes = .ok () s₁ ∧
      commitRecords sampleReceived (s₁.1, s₁.2) = .ok (records', proof) s₂ ∧
      (∀ (aes : Aes) (mem : Memory), s₂.1.Holds aes mem → (proof.verify mem = .ok () ↔
        ∀ record ∈ records', record.ProvenIn aes mem ⟨0, 16⟩ ⟨16, 4⟩)) ∧
      s₂.1.Holds sampleAes (sampleMemory 1) ∧ s₂.1.Holds sampleAes (sampleMemory 2) ∧
      proof.verify (sampleMemory 1) = .ok () ∧ proof.verify (sampleMemory 2) = .ok () := by
  obtain ⟨x, hx, hfacts⟩ := Option.map_eq_some_iff.mp sampleCommit_facts
  rw [sampleCommit] at hx
  obtain ⟨allocated, halloc, hx⟩ := Option.bind_eq_some_iff.mp hx
  obtain ⟨s₂, hcommit, rfl⟩ := Option.map_eq_some_iff.mp hx
  have halloc := Fault.result?_eq_some_iff.mp halloc
  have hcommit := Fault.result?_eq_some_iff.mp hcommit
  simp only [Prod.mk.injEq, decide_eq_true_eq] at hfacts
  obtain ⟨h₁, h₂, hverify, hrefs⟩ := hfacts
  have hproof := proof_of_encryption (by decide) rfl rfl halloc (Vm.Extends.refl _) (by decide)
    hcommit
  refine ⟨_, _, _, _, halloc, hcommit, hproof.2.2.1, h₁, h₂, hverify, ?_⟩
  refine (hproof.2.2.2 sampleAes _ _ h₁ h₂ (by decide) (by decide) ?_).symm.trans hverify
  intro record hrecord ref href
  have hmap := hrefs record hrecord
  rw [href] at hmap
  exact Option.some.inj hmap

end Tlsn.Common
